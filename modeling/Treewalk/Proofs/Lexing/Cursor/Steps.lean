import Treewalk.Proofs.Lexing.Cursor

/-! What the small procedures of the scanner do. Each is told by the text that has been read of a
lexeme and by the text that remains: it sees the first characters of what remains, the end is told
from a NUL that stands in the source, and a loop passes the characters of its class. -/

namespace Treewalk

section Places

variable {source text rest : List Char} {i : Nat}

/-- The text is what remains of the source from an index on. -/
structure Remains (source : List Char) (i : Nat) (rest : List Char) : Prop where
  drop_eq : source.drop i = rest
  le : i ≤ source.length

theorem Remains.position (h : Remains source i rest) : i + rest.length = source.length := by
  have hle := h.le
  rw [← h.drop_eq, List.length_drop]
  omega

theorem Remains.behind (h : Remains source i (text ++ rest)) :
    Remains source (i + text.length) rest where
  drop_eq := by rw [← List.drop_drop, h.drop_eq, List.drop_left]
  le := by
    have hposition := h.position
    rw [List.length_append] at hposition
    omega

theorem Remains.getElem?_eq (h : Remains source i rest) (k : Nat) : source[i + k]? = rest[k]? := by
  rw [← h.drop_eq, List.getElem?_drop]

theorem Remains.extract_eq (h : Remains source i (text ++ rest)) :
    source.extract i (i + text.length) = text := by
  rw [List.extract_eq_take_drop, h.drop_eq, Nat.add_sub_cancel_left, List.take_left]

end Places

section States

variable {source text rest : List Char} {c : Char} {s : Scanner}

/-- The scanner that has read a text as the first part of a lexeme. -/
def Scanner.reading (s : Scanner) (text : List Char) : Scanner :=
  { s with
    start := s.current
    current := s.current + text.length
    line := s.line + text.count '\n' }

theorem Scanner.reading_append (hc : c ≠ '\n') :
    { s.reading text with current := (s.reading text).current + 1 } = s.reading (text ++ [c]) := by
  simp [Scanner.reading, Nat.add_assoc, hc]

theorem Scanner.reading_append_lineEnd :
    { s.reading text with
      current := (s.reading text).current + 1
      line := (s.reading text).line + 1 } = s.reading (text ++ ['\n']) := by
  simp [Scanner.reading, Nat.add_assoc]

theorem Scanner.atEnd_reading (h : Remains source s.current (text ++ rest)) :
    (s.reading text).atEnd source = rest.isEmpty := by
  have hposition := h.behind.position
  have hend : source.length ≤ s.current + text.length ↔ rest.length = 0 := by omega
  rw [Bool.eq_iff_iff, List.isEmpty_iff, ← List.length_eq_zero_iff]
  exact decide_eq_true_iff.trans hend

theorem Scanner.peek_reading (h : Remains source s.current (text ++ rest)) :
    (s.reading text).peek source = rest.head?.getD '\x00' := by
  rw [Scanner.peek, List.head?_eq_getElem?, ← h.behind.getElem?_eq 0]
  rfl

theorem Scanner.peekNext_reading (h : Remains source s.current (text ++ rest)) :
    (s.reading text).peekNext source = rest[1]?.getD '\x00' := by
  rw [Scanner.peekNext, ← h.behind.getElem?_eq 1]
  rfl

end States

section Moves

variable {source text rest : List Char} {c : Char} {s : Scanner}

theorem returns_nextChar (h : source[s.current]? = some c) :
    Returns (nextChar source) s c { s with current := s.current + 1 } := by
  refine (returns_get s).bind ?_
  rw [h]
  exact (returns_modify _ s).bind (returns_pure c _)

theorem returns_nextChar_reading (h : Remains source s.current (text ++ c :: rest))
    (hc : c ≠ '\n') :
    Returns (nextChar source) (s.reading text) c (s.reading (text ++ [c])) := by
  rw [← Scanner.reading_append hc]
  exact returns_nextChar (h.behind.getElem?_eq 0)

theorem returns_matchChar (h : Remains source s.current (text ++ c :: rest)) (hc : c ≠ '\n') :
    Returns (matchChar source c) (s.reading text) true (s.reading (text ++ [c])) := by
  refine (returns_get _).bind ?_
  rw [Scanner.atEnd_reading h, Scanner.peek_reading h, ← Scanner.reading_append hc]
  simp only [List.isEmpty_cons, List.head?_cons, Option.getD_some, bne_self_eq_false, Bool.or_self,
    Bool.false_eq_true, if_false]
  exact (returns_modify _ _).bind (returns_pure true _)

theorem returns_matchChar_other (h : Remains source s.current (text ++ rest))
    (hc : rest.head? ≠ some c) :
    Returns (matchChar source c) (s.reading text) false (s.reading text) := by
  refine (returns_get _).bind ?_
  rw [Scanner.atEnd_reading h, Scanner.peek_reading h]
  cases rest with
  | nil => exact returns_pure false _
  | cons d rest =>
    have hd : (d != c) = true := bne_iff_ne.mpr fun hd => hc (congrArg some hd)
    simp only [List.head?_cons, Option.getD_some, hd, Bool.or_true, if_true]
    exact returns_pure false _

theorem returns_sliceText {i : Nat} (h : Remains source i (text ++ rest)) (s : Scanner) :
    Returns (sliceText source i (i + text.length)) s (String.ofList text) s := by
  have hbounds : i ≤ i + text.length ∧ i + text.length ≤ source.length :=
    ⟨Nat.le_add_right _ _, h.behind.le⟩
  rw [sliceText, if_pos hbounds, h.extract_eq]
  exact returns_pure _ s

theorem returns_addToken (h : Remains source s.current (text ++ rest)) (kind : TokenKind)
    (literal : Option Value) :
    Returns (addToken source kind literal) (s.reading text) ()
      ((s.reading text).emit ⟨kind, String.ofList text, literal, s.line + text.count '\n',
        ⟨s.current, s.current + text.length⟩⟩) :=
  (returns_get _).bind ((returns_sliceText h _).bind (returns_modify _ _))

end Moves

section Loops

variable {source text rest : List Char} {s : Scanner} {p : Char → Bool}

/-- A loop that goes on while a character of the class remains passes all that stand there. -/
theorem settles_loop {condition : Scanner → Bool} {body : Clocked Scanner Unit}
    (hcondition : ∀ {text rest}, Remains source s.current (text ++ rest) →
      condition (s.reading text) = rest.head?.any p)
    (hbody : ∀ {text c rest}, Remains source s.current (text ++ c :: rest) → p c = true →
      Returns body (s.reading text) () (s.reading (text ++ [c])))
    (h : Remains source s.current (text ++ rest)) :
    Settles (repeatWhile condition fun _ => body) (s.reading text) ()
      (s.reading (text ++ rest.takeWhile p)) := by
  induction rest generalizing text with
  | nil =>
    rw [List.takeWhile_nil, List.append_nil]
    exact settles_stop (hcondition h)
  | cons c rest ih =>
    cases hc : p c with
    | false =>
      rw [List.takeWhile_cons_of_neg (by simp [hc]), List.append_nil]
      exact settles_stop ((hcondition h).trans (by simp [hc]))
    | true =>
      have hnext : Remains source s.current ((text ++ [c]) ++ rest) := by simpa using h
      have hrest := ih hnext
      rw [List.append_assoc, List.singleton_append] at hrest
      rw [List.takeWhile_cons_of_pos hc]
      exact Settles.turn ((hcondition h).trans (by simp [hc])) (hbody h hc).settles hrest

theorem settles_passWhile (hnul : p '\x00' = false) (hline : p '\n' = false)
    (h : Remains source s.current (text ++ rest)) :
    Settles (passWhile source p) (s.reading text) () (s.reading (text ++ rest.takeWhile p)) := by
  refine settles_loop (fun {text rest} h => ?_) (fun {text c rest} h hc => ?_) h
  · rw [Scanner.peek_reading h]
    cases rest with
    | nil => simpa using hnul
    | cons c rest => simp
  · have hne : c ≠ '\n' := by
      rintro rfl
      rw [hline] at hc
      cases hc
    exact (returns_nextChar_reading h hne).bind (returns_pure () _)

theorem settles_passComment (h : Remains source s.current (text ++ rest)) :
    Settles (passComment source) (s.reading text) ()
      (s.reading (text ++ rest.takeWhile (· != '\n'))) := by
  refine settles_loop (fun {text rest} h => ?_) (fun {text c rest} h hc => ?_) h
  · rw [Scanner.peek_reading h, Scanner.atEnd_reading h]
    cases rest <;> simp
  · exact (returns_nextChar_reading h (by simpa using hc)).bind (returns_pure () _)

theorem settles_passStringBody (h : Remains source s.current (text ++ rest)) :
    Settles (passStringBody source) (s.reading text) ()
      (s.reading (text ++ rest.takeWhile (· != '"'))) := by
  refine settles_loop (fun {text rest} h => ?_) (fun {text c rest} h hc => ?_) h
  · rw [Scanner.peek_reading h, Scanner.atEnd_reading h]
    cases rest <;> simp
  · refine (returns_get _).bind ?_
    rw [Scanner.peek_reading h]
    by_cases hline : c = '\n'
    · subst hline
      rw [← Scanner.reading_append_lineEnd]
      exact (returns_modify _ _).bind
        ((returns_nextChar (h.behind.getElem?_eq 0)).bind (returns_pure () _))
    · simp only [List.head?_cons, Option.getD_some, hline, if_false]
      exact (returns_nextChar_reading h hline).bind (returns_pure () _)

end Loops

end Treewalk
