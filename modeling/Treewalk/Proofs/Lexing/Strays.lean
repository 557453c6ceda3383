import Mathlib.Data.List.Forall2
import Treewalk.Proofs.Lexing.Layout

/-! Characters that begin nothing. Such a character ends what stands in front of it as a space does,
so a text with spaces in place of them has the same tokens at the same places, and the errors on them
are the only ones that are gone. -/

namespace Treewalk

/-- The error is on a character that begins nothing. -/
def LexicalFault.isStray : LexicalFault → Bool
  | .strayCharacter _ => true
  | .openString _ => false

/-- The text with a space in place of every character that is reported as stray. -/
def blankStrays (source : String) : String :=
  let strays := (scan source).errors.filter (·.fault.isStray)
  String.ofList (strays.foldl (fun text e => text.set e.span.start ' ') source.toList)

section Fading

/-- A character may turn into a space, but no line end does. -/
def Fades (c d : Char) : Prop :=
  d = c ∨ d = ' ' ∧ c ≠ '\n'

/-- What ends a run of these characters still ends it when it fades. -/
def StaysOutside (f : Char → Bool) : Prop :=
  ∀ x y, Fades x y → f x = false → f y = false

theorem staysOutside_of_space {f : Char → Bool} (h : f ' ' = false) : StaysOutside f := by
  rintro x y (rfl | ⟨rfl, -⟩) hx
  · exact hx
  · exact h

theorem staysOutside_line : StaysOutside (· != '\n') := by
  rintro x y (rfl | ⟨rfl, hne⟩) hx
  · exact hx
  · exact absurd (by simpa using hx) hne

variable {f : Char → Bool} {c : Char} {ds rest faded : List Char}

theorem takeWhile_fades (hf : StaysOutside f) (hrest : List.Forall₂ Fades rest faded)
    (h : (ds ++ rest).takeWhile f = ds) : (ds ++ faded).takeWhile f = ds := by
  have hds : ∀ d ∈ ds, f d = true := fun d hd => List.mem_takeWhile_imp (h.symm ▸ hd)
  rw [List.takeWhile_append_of_pos hds, List.append_right_eq_self] at h
  rw [List.takeWhile_append_of_pos hds, List.append_right_eq_self]
  cases hrest with
  | nil => rfl
  | @cons x y _ _ hxy _ =>
    have hx : f x = false := by simpa using h
    simp [hf x y hxy hx]

theorem fractionPart_fades_nil (hrest : List.Forall₂ Fades rest faded)
    (h : fractionPart rest = []) : fractionPart faded = [] := by
  have hdigit : StaysOutside Char.isDigit := staysOutside_of_space (by decide)
  cases hrest with
  | nil => rfl
  | @cons x y xs ys hxy hrest =>
    rcases hxy with rfl | ⟨rfl, -⟩
    · cases hrest with
      | nil => simp [fractionPart]
      | @cons d e _ _ hde _ =>
        by_cases hpoint : y = '.'
        · subst hpoint
          have hd : d.isDigit = false := by simpa [fractionPart] using h
          simp [fractionPart, hdigit d e hde hd]
        · simp [fractionPart, hpoint]
    · simp [fractionPart]

theorem fractionPart_fades (hrest : List.Forall₂ Fades rest faded)
    (h : fractionPart (ds ++ rest) = ds) : fractionPart (ds ++ faded) = ds := by
  have hdigit : StaysOutside Char.isDigit := staysOutside_of_space (by decide)
  match ds with
  | [] => exact fractionPart_fades_nil hrest h
  | [d] =>
    unfold fractionPart at h
    split at h
    · split at h <;> simp at h
    · simp at h
  | d :: e :: es =>
    by_cases hd : d = '.' ∧ e.isDigit = true
    · obtain ⟨rfl, he⟩ := hd
      have hes : (es ++ rest).takeWhile Char.isDigit = es := by simpa [fractionPart, he] using h
      simp [fractionPart, he, takeWhile_fades hdigit hrest hes]
    · by_cases hpoint : d = '.' <;> simp_all [fractionPart]

theorem numberTail_of_not_isDigit (h : c.isDigit = false) (cs : List Char) :
    numberTail (c :: cs) = fractionPart (c :: cs) := by
  simp [numberTail, h]

theorem numberTail_fades (hrest : List.Forall₂ Fades rest faded)
    (h : numberTail (ds ++ rest) = ds) : numberTail (ds ++ faded) = ds := by
  have hdigit : StaysOutside Char.isDigit := staysOutside_of_space (by decide)
  induction ds with
  | nil =>
    cases hrest with
    | nil => rfl
    | @cons x y xs ys hxy hrest =>
      have hx : x.isDigit = false := by
        by_contra hx
        simp [numberTail, hx] at h
      rw [List.nil_append, numberTail_of_not_isDigit hx] at h
      rw [List.nil_append, numberTail_of_not_isDigit (hdigit x y hxy hx)]
      exact fractionPart_fades_nil (.cons hxy hrest) h
  | cons d ds ih =>
    by_cases hd : d.isDigit = true
    · have hcons : ∀ es, numberTail (d :: es) = d :: numberTail es :=
        numberTail_append (fun e he => List.mem_singleton.mp he ▸ hd)
      rw [List.cons_append, hcons] at h ⊢
      rw [ih (List.cons.inj h).2]
    · have hd : d.isDigit = false := by simpa using hd
      rw [List.cons_append, numberTail_of_not_isDigit hd] at h ⊢
      rw [← List.cons_append] at h ⊢
      exact fractionPart_fades hrest h

/-- An operator of one character is one that the next character does not make a longer one. -/
theorem operatorPiece?_single_iff {kind : TokenKind} {cs : List Char} :
    operatorPiece? c cs = some (.lexeme kind [c]) ↔
      operatorKind? c = some kind ∧
        ∀ x ∈ cs.head?, (x = '=' → operatorEqualKind? c = none) ∧ (x = '/' → c ≠ '/') := by
  cases cs with
  | nil => cases hk : operatorEqualKind? c <;> simp [operatorPiece?, hk]
  | cons x cs =>
    by_cases hslash : c = '/' ∧ x = '/'
    · obtain ⟨rfl, rfl⟩ := hslash
      simp [operatorPiece?_comment]
    · have hx : x = '/' → c ≠ '/' := fun hx hc => hslash ⟨hc, hx⟩
      cases hk : operatorEqualKind? c with
      | none => simpa [operatorPiece?, hk, hslash] using fun _ => hx
      | some k =>
        by_cases he : x = '='
        · simp [operatorPiece?, hk, he]
        · simpa [operatorPiece?, hk, he, hslash] using fun _ => hx

theorem operatorPiece?_fades_nil {kind : TokenKind} (hrest : List.Forall₂ Fades rest faded)
    (h : operatorPiece? c rest = some (.lexeme kind [c])) :
    operatorPiece? c faded = some (.lexeme kind [c]) := by
  rw [operatorPiece?_single_iff] at h ⊢
  refine ⟨h.1, ?_⟩
  cases hrest with
  | nil => simp
  | @cons x y _ _ hxy _ =>
    rcases hxy with rfl | ⟨rfl, -⟩
    · exact h.2
    · simp

theorem operatorPiece?_fades {p : Piece} (hrest : List.Forall₂ Fades rest faded)
    (h : operatorPiece? c (ds ++ rest) = some p) (htext : p.text = c :: ds) :
    operatorPiece? c (ds ++ faded) = some p := by
  have hcut := h
  unfold operatorPiece? at h
  split at h
  · rename_i kind _ hkind heq
    cases h
    obtain ⟨-, rfl⟩ := List.cons.inj htext
    simp [operatorPiece?, hkind]
  · split at h
    · rename_i hslash
      cases h
      obtain ⟨rfl, hhead⟩ := hslash
      have hrun : (ds ++ rest).takeWhile (· != '\n') = ds := (List.cons.inj htext).2
      cases ds with
      | nil =>
        obtain ⟨tail, rfl⟩ := List.head?_eq_some_iff.mp hhead
        simp at hrun
      | cons d ds =>
        obtain rfl : d = '/' := by simpa using hhead
        have hfaded := takeWhile_fades staysOutside_line hrest hrun
        have hsame : (ds ++ faded).takeWhile (· != '\n') = (ds ++ rest).takeWhile (· != '\n') := by
          simpa using hfaded.trans hrun.symm
        rw [List.cons_append, List.cons_append, operatorPiece?_comment, hsame]
        rfl
    · obtain ⟨kind, -, rfl⟩ := Option.map_eq_some_iff.mp h
      obtain ⟨-, rfl⟩ := List.cons.inj htext
      exact operatorPiece?_fades_nil hrest hcut

theorem stringPiece_fades (hrest : List.Forall₂ Fades rest faded)
    (htext : (stringPiece (ds ++ rest)).text = '"' :: ds) :
    stringPiece (ds ++ faded) = stringPiece (ds ++ rest) := by
  by_cases hclosed : '"' ∈ ds
  · rw [stringPiece_append hclosed, stringPiece_append hclosed]
  · have hopen : '"' ∉ ds ++ rest := by
      intro hmem
      obtain ⟨body, tail, hcut, hbody⟩ := List.eq_append_cons_of_mem hmem
      rw [hcut, stringPiece_of_closed hbody] at htext
      have hds : body ++ ['"'] = ds := (List.cons.inj htext).2
      simp [← hds] at hclosed
    have hnil : rest = [] := by simpa [stringPiece_of_open hopen, Piece.text] using htext
    subst hnil
    cases hrest
    rfl

/-- What is cut off in front of some text is cut off in the same way when that text fades. -/
theorem firstPiece_fades (hrest : List.Forall₂ Fades rest faded)
    (htext : (firstPiece c (ds ++ rest)).text = c :: ds) :
    firstPiece c (ds ++ faded) = firstPiece c (ds ++ rest) := by
  by_cases hsep : separates c = true
  · rw [firstPiece_of_separates hsep, firstPiece_of_separates hsep]
  by_cases hquote : c = '"'
  · subst hquote
    rw [firstPiece_quote] at htext
    rw [firstPiece_quote, firstPiece_quote, stringPiece_fades hrest htext]
  cases hop : operatorPiece? c (ds ++ rest) with
  | some p =>
    rw [firstPiece_of_operatorPiece? hop] at htext ⊢
    exact firstPiece_of_operatorPiece? (operatorPiece?_fades hrest hop htext)
  | none =>
    by_cases hdigit : c.isDigit = true
    · rw [firstPiece_of_isDigit hdigit] at htext ⊢
      have htail : numberTail (ds ++ rest) = ds := (List.cons.inj htext).2
      rw [firstPiece_of_isDigit hdigit, numberTail_fades hrest htail, htail]
    by_cases hname : startsName c = true
    · rw [firstPiece_of_startsName hname] at htext ⊢
      have hword : (ds ++ rest).takeWhile continuesName = ds := (List.cons.inj htext).2
      have hspace : StaysOutside continuesName := staysOutside_of_space (by decide)
      rw [firstPiece_of_startsName hname, takeWhile_fades hspace hrest hword, hword]
    have hstray := firstPiece_of_no_start hsep hquote (operatorPiece?_eq_none_iff.mp hop) hdigit hname
    rw [hstray, hstray]

end Fading

section Pieces

/-- The piece with a space in place of a stray character. -/
def Piece.blanked : Piece → Piece
  | .stray _ => .blank ' '
  | p => p

def blankedText (ps : List Piece) : List Char :=
  ps.flatMap fun p => p.blanked.text

variable {source : List Char} {ps : List Piece} {p : Piece}

theorem StartsNothing.ne_line {c : Char} (h : StartsNothing c) : c ≠ '\n' :=
  fun hc => h.1 (.inr (.inr (.inr hc)))

theorem Piece.Belongs.text_fades {rest : List Char} (h : p.Belongs rest) :
    List.Forall₂ Fades p.text p.blanked.text := by
  cases p with
  | stray c =>
    have hc := StartsNothing.ne_line h
    exact .cons (.inr ⟨rfl, hc⟩) .nil
  | blank _ | comment _ | lexeme _ _ | openString _ =>
    exact List.forall₂_same.mpr fun c _ => .inl rfl

theorem Split.fades (h : Split source ps) : List.Forall₂ Fades source (blankedText ps) := by
  induction h with
  | nil => exact .nil
  | cons hp _ _ ih => exact List.rel_append hp.text_fades ih

/-- The text with its stray characters blanked is cut where the text itself is cut. -/
theorem Split.pieces_blankedText (h : Split source ps) :
    pieces (blankedText ps) = ps.map Piece.blanked := by
  induction h with
  | nil => rfl
  | @cons p rest ps hp hl hps ih =>
    obtain ⟨c, ds, htext⟩ := List.exists_cons_of_ne_nil hp.text_ne_nil
    have hpieces := (Split.cons hp hl hps).eq_pieces
    rw [htext, List.cons_append, pieces_cons, List.cons.injEq] at hpieces
    have hfirst : firstPiece c (ds ++ blankedText ps) = p := by
      rw [firstPiece_fades hps.fades (by rw [← hpieces.1, htext]), ← hpieces.1]
    rw [List.map_cons, ← ih]
    cases p with
    | stray d => exact pieces_separator (.inl rfl) _
    | blank _ | comment _ | lexeme _ _ | openString _ =>
      have hcut := pieces_append_of_firstPiece htext hfirst
      rw [← htext] at hcut
      exact hcut

end Pieces

section Places

variable {source : List Char} {ps : List Piece} {p : Piece}

theorem Piece.Belongs.after_blanked {rest : List Char} (h : p.Belongs rest) (pos : Position) :
    pos.after p.blanked.text = pos.after p.text := by
  cases p with
  | stray c =>
    have hc := StartsNothing.ne_line h
    simp [Piece.blanked, Piece.text, Position.after, hc]
  | blank _ | comment _ | lexeme _ _ | openString _ => rfl

theorem Split.after_blankedText (h : Split source ps) (pos : Position) :
    pos.after (blankedText ps) = pos.after source := by
  induction h generalizing pos with
  | nil => rfl
  | @cons p rest ps hp _ _ ih =>
    have hcut : blankedText (p :: ps) = p.blanked.text ++ blankedText ps := rfl
    rw [hcut, Position.after_append, hp.after_blanked, ih, Position.after_append]

theorem Split.placedPieces_blanked (h : Split source ps) (pos : Position) :
    placedPieces pos (ps.map Piece.blanked) =
      (placedPieces pos ps).map fun x => (x.1, x.2.blanked) := by
  induction h generalizing pos with
  | nil => rfl
  | @cons p rest ps hp _ _ ih =>
    rw [List.map_cons, placedPieces, hp.after_blanked, ih, placedPieces, List.map_cons]

/-- Setting a space at the place of each error on a stray character blanks the stray pieces. -/
theorem Split.foldl_set_strays (h : Split source ps) {pos : Position} {before : List Char}
    (hpos : pos.offset = before.length) :
    (((placedPieces pos ps).filterMap pieceError?).filter (·.fault.isStray)).foldl
      (fun text e => text.set e.span.start ' ') (before ++ source) = before ++ blankedText ps := by
  induction h generalizing pos before with
  | nil => rfl
  | @cons p rest ps hp _ _ ih =>
    have hnext : ∀ text : List Char, p.text.length = text.length →
        (pos.after p.text).offset = (before ++ text).length := by
      intro text hlength
      simp [Position.after, hpos, hlength]
    cases p with
    | stray c =>
      have hset : (before ++ ([c] ++ rest)).set pos.offset ' ' = before ++ [' '] ++ rest := by
        simp [hpos]
      calc _ = (((placedPieces (pos.after [c]) ps).filterMap pieceError?).filter
              (·.fault.isStray)).foldl (fun text e => text.set e.span.start ' ')
              ((before ++ ([c] ++ rest)).set pos.offset ' ') := rfl
        _ = before ++ [' '] ++ blankedText ps := by
          rw [hset]
          exact ih (hnext [' '] rfl)
        _ = before ++ blankedText (.stray c :: ps) := List.append_assoc _ _ _
    | blank _ | comment _ | lexeme _ _ | openString _ =>
      have hkept := ih (hnext _ rfl)
      rw [List.append_assoc, List.append_assoc] at hkept
      exact hkept

end Places

section Scans

theorem toList_blankStrays (source : String) :
    (blankStrays source).toList = blankedText (pieces source.toList) := by
  have hstart : Position.start.offset = ([] : List Char).length := rfl
  rw [blankStrays, String.toList_ofList]
  exact (split_pieces source.toList).foldl_set_strays hstart

/-- A text with spaces in place of its stray characters has the same tokens at the same places, and
the same errors but for those on stray characters. -/
theorem scan_blankStrays (source : String) :
    scan (blankStrays source) =
      { tokens := (scan source).tokens
        errors := (scan source).errors.filter fun e => !e.fault.isStray } := by
  have hsplit := split_pieces source.toList
  have hplaced : placedPieces .start (pieces (blankStrays source).toList) =
      (placedPieces .start (pieces source.toList)).map fun x => (x.1, x.2.blanked) := by
    rw [toList_blankStrays, hsplit.pieces_blankedText, hsplit.placedPieces_blanked]
  have htoken : ∀ x : Position × Piece, pieceToken? (x.1, x.2.blanked) = pieceToken? x := by
    rintro ⟨pos, p⟩
    cases p <;> rfl
  have herror : ∀ x : Position × Piece, pieceError? (x.1, x.2.blanked) =
      (pieceError? x).filter fun e => !e.fault.isStray := by
    rintro ⟨pos, p⟩
    cases p <;> rfl
  have hend : Position.start.after (blankStrays source).toList =
      Position.start.after source.toList := by
    rw [toList_blankStrays, hsplit.after_blankedText]
  rw [scan, hplaced, hend, List.filterMap_map, List.filterMap_map, scan, List.filter_filterMap]
  simp only [Function.comp_def, htoken, herror]

example : blankStrays "a# @1\n// @\n\"#" = "a   1\n// @\n\"#" := by
  decide +kernel

end Scans

end Treewalk
