import Mathlib.Data.List.TakeWhile
import Treewalk.Token

/-! The forms that listings are made of: words, texts in quotes, and a head with its parts in
parentheses. A word ends in front of the next delimiter and a text in quotes at the next quote, so
the characters of a form show where it ends and which form it is. -/

namespace Treewalk

def delimits (c : Char) : Bool :=
  c == ' ' || c == '(' || c == ')' || c == '"'

@[ext]
structure Word where
  chars : List Char
  ne_nil : chars ≠ []
  plain : chars.any delimits = false

@[ext]
structure Quotation where
  chars : List Char
  closed : '"' ∉ chars

inductive Form where
  | word (w : Word)
  | quotation (q : Quotation)
  | node (head : Word) (parts : List Form)

mutual

def Form.chars : Form → List Char
  | .word w => w.chars
  | .quotation q => '"' :: (q.chars ++ ['"'])
  | .node head parts => '(' :: (head.chars ++ (Form.listChars parts ++ [')']))

/-- The characters of the parts of a form, each part behind a space. -/
def Form.listChars : List Form → List Char
  | [] => []
  | f :: fs => ' ' :: (f.chars ++ Form.listChars fs)

end

section Ends

variable {xs ys rest rest' : List Char}

theorem append_inj_of_stop {f : Char → Bool} (hxs : ∀ c ∈ xs, f c = true)
    (hys : ∀ c ∈ ys, f c = true) (hrest : ∀ c ∈ rest.head?, f c = false)
    (hrest' : ∀ c ∈ rest'.head?, f c = false) (h : xs ++ rest = ys ++ rest') :
    xs = ys ∧ rest = rest' := by
  have hstop : ∀ {l : List Char}, (∀ c ∈ l.head?, f c = false) → l.takeWhile f = [] := by
    intro l hl
    cases l with
    | nil => rfl
    | cons c l => simp [hl c rfl]
  have htake := congrArg (List.takeWhile f) h
  rw [List.takeWhile_append_of_pos hxs, List.takeWhile_append_of_pos hys, hstop hrest,
    hstop hrest', List.append_nil, List.append_nil] at htake
  subst htake
  exact ⟨rfl, List.append_cancel_left h⟩

/-- What can stand behind a form. -/
def EndsForm (rest : List Char) : Prop :=
  ∀ c ∈ rest.head?, c = ' ' ∨ c = ')'

theorem EndsForm.delimits (h : EndsForm rest) : ∀ c ∈ rest.head?, delimits c = true := by
  intro c hc
  rcases h c hc with rfl | rfl <;> rfl

theorem endsForm_listChars (fs : List Form) (rest : List Char) :
    EndsForm (Form.listChars fs ++ ')' :: rest) := by
  cases fs <;> simp [EndsForm, Form.listChars]

theorem Word.append_inj (w v : Word) (hrest : EndsForm rest) (hrest' : EndsForm rest')
    (h : w.chars ++ rest = v.chars ++ rest') : w = v ∧ rest = rest' := by
  obtain ⟨hchars, hend⟩ := append_inj_of_stop (f := fun c => !Treewalk.delimits c)
    (by simpa using w.plain) (by simpa using v.plain) (by simpa using hrest.delimits)
    (by simpa using hrest'.delimits) h
  exact ⟨Word.ext hchars, hend⟩

theorem Word.append_ne_cons (w : Word) {c : Char} (hc : delimits c = true) :
    w.chars ++ rest ≠ c :: rest' := by
  obtain ⟨d, ds, hd⟩ := List.exists_cons_of_ne_nil w.ne_nil
  have hplain := w.plain
  intro h
  rw [hd, List.cons_append] at h
  rw [hd, (List.cons.inj h).1, List.any_cons, hc] at hplain
  cases hplain

theorem Quotation.append_inj (q p : Quotation)
    (h : q.chars ++ '"' :: rest = p.chars ++ '"' :: rest') : q = p ∧ rest = rest' := by
  have hplain : ∀ q : Quotation, ∀ c ∈ q.chars, (c != '"') = true := by
    intro q c hc
    simp only [bne_iff_ne]
    rintro rfl
    exact q.closed hc
  obtain ⟨hchars, hend⟩ := append_inj_of_stop (hplain q) (hplain p) (by simp) (by simp) h
  exact ⟨Quotation.ext hchars, (List.cons.inj hend).2⟩

end Ends

mutual

theorem Form.append_inj : ∀ (f g : Form) {rest rest' : List Char}, EndsForm rest →
    EndsForm rest' → f.chars ++ rest = g.chars ++ rest' → f = g ∧ rest = rest'
  | .word w, .word v, _, _, hrest, hrest', h => by
    obtain ⟨rfl, hend⟩ := w.append_inj v hrest hrest' h
    exact ⟨rfl, hend⟩
  | .quotation q, .quotation p, _, _, _, _, h => by
    simp only [Form.chars, List.cons_append, List.append_assoc, List.cons.injEq, true_and,
      List.nil_append] at h
    obtain ⟨rfl, hend⟩ := q.append_inj p h
    exact ⟨rfl, hend⟩
  | .node head parts, .node head' parts', _, _, _, _, h => by
    simp only [Form.chars, List.cons_append, List.append_assoc, List.cons.injEq, true_and,
      List.nil_append] at h
    obtain ⟨rfl, hparts⟩ := head.append_inj head' (endsForm_listChars _ _)
      (endsForm_listChars _ _) h
    obtain ⟨rfl, hend⟩ := Form.list_append_inj parts parts' hparts
    exact ⟨rfl, hend⟩
  -- The first character tells the three kinds apart.
  | .word w, .quotation _, _, _, _, _, h => absurd h (w.append_ne_cons rfl)
  | .word w, .node _ _, _, _, _, _, h => absurd h (w.append_ne_cons rfl)
  | .quotation _, .word v, _, _, _, _, h => absurd h.symm (v.append_ne_cons rfl)
  | .node _ _, .word v, _, _, _, _, h => absurd h.symm (v.append_ne_cons rfl)
  | .quotation _, .node _ _, _, _, _, _, h => by simp [Form.chars] at h
  | .node _ _, .quotation _, _, _, _, _, h => by simp [Form.chars] at h

theorem Form.list_append_inj : ∀ (fs gs : List Form) {rest rest' : List Char},
    Form.listChars fs ++ ')' :: rest = Form.listChars gs ++ ')' :: rest' → fs = gs ∧ rest = rest'
  | [], [], _, _, h => ⟨rfl, (List.cons.inj h).2⟩
  | [], _ :: _, _, _, h => by simp [Form.listChars] at h
  | _ :: _, [], _, _, h => by simp [Form.listChars] at h
  | f :: fs, g :: gs, _, _, h => by
    simp only [Form.listChars, List.cons_append, List.append_assoc, List.cons.injEq,
      true_and] at h
    obtain ⟨rfl, hrest⟩ := f.append_inj g (endsForm_listChars _ _) (endsForm_listChars _ _) h
    obtain ⟨rfl, hend⟩ := Form.list_append_inj fs gs hrest
    exact ⟨rfl, hend⟩

end

/-- A form is told by its characters. -/
theorem Form.chars_injective : Function.Injective Form.chars := by
  intro f g h
  have hend : EndsForm [] := by simp [EndsForm]
  exact (f.append_inj g hend hend (congrArg (· ++ []) h)).1

end Treewalk
