import Treewalk.Piece

/-! Cutting a text into pieces. Every piece is a non-empty first part of the text that is left, so
the pieces put together again are the text. -/

namespace Treewalk

theorem takeWhile_quote_prefix {cs : List Char} (h : cs.contains '"' = true) :
    cs.takeWhile (· != '"') ++ ['"'] <+: cs := by
  induction cs with
  | nil => simp at h
  | cons c cs ih =>
    by_cases hc : c = '"'
    · simp [hc]
    · have h' : cs.contains '"' = true := by
        simpa [Ne.symm hc] using h
      simpa [hc] using ih h'

theorem fractionPart_prefix (cs : List Char) : fractionPart cs <+: cs := by
  unfold fractionPart
  split
  · split
    · simpa using List.takeWhile_prefix _
    · simp
  · simp

theorem numberTail_prefix (cs : List Char) : numberTail cs <+: cs := by
  have h := fractionPart_prefix (cs.dropWhile Char.isDigit)
  have hp := (List.prefix_append_right_inj (cs.takeWhile Char.isDigit)).mpr h
  rwa [List.takeWhile_append_dropWhile] at hp

theorem stringPiece_text_prefix (cs : List Char) : (stringPiece cs).text <+: '"' :: cs := by
  unfold stringPiece
  split
  · rename_i h
    simpa [Piece.text] using takeWhile_quote_prefix h
  · simp [Piece.text]

theorem operatorPiece?_text_prefix {c : Char} {cs : List Char} {piece : Piece}
    (h : operatorPiece? c cs = some piece) : piece.text <+: c :: cs := by
  unfold operatorPiece? at h
  split at h
  · cases h
    simp [Piece.text]
  · split at h
    · cases h
      simpa [Piece.text] using List.takeWhile_prefix _
    · obtain ⟨kind, _, rfl⟩ := Option.map_eq_some_iff.mp h
      simp [Piece.text]

/-- A piece is a first part of the text it is cut from. -/
theorem firstPiece_text_prefix (c : Char) (cs : List Char) :
    (firstPiece c cs).text <+: c :: cs := by
  unfold firstPiece
  split
  · simp [Piece.text]
  · split
    · rename_i h
      simpa [h] using stringPiece_text_prefix cs
    · split
      · rename_i h
        exact operatorPiece?_text_prefix h
      · split
        · simpa [Piece.text] using numberTail_prefix cs
        · split
          · simpa [Piece.text] using List.takeWhile_prefix _
          · simp [Piece.text]

theorem stringPiece_text_ne_nil (cs : List Char) : (stringPiece cs).text ≠ [] := by
  unfold stringPiece
  split <;> simp [Piece.text]

theorem operatorPiece?_text_ne_nil {c : Char} {cs : List Char} {piece : Piece}
    (h : operatorPiece? c cs = some piece) : piece.text ≠ [] := by
  unfold operatorPiece? at h
  split at h
  · cases h
    simp [Piece.text]
  · split at h
    · cases h
      simp [Piece.text]
    · obtain ⟨kind, _, rfl⟩ := Option.map_eq_some_iff.mp h
      simp [Piece.text]

theorem firstPiece_text_ne_nil (c : Char) (cs : List Char) : (firstPiece c cs).text ≠ [] := by
  unfold firstPiece
  split
  · simp [Piece.text]
  · split
    · exact stringPiece_text_ne_nil cs
    · split
      · rename_i h
        exact operatorPiece?_text_ne_nil h
      · split
        · simp [Piece.text]
        · split <;> simp [Piece.text]

theorem firstPiece_text_append_drop (c : Char) (cs : List Char) :
    (firstPiece c cs).text ++ (c :: cs).drop (firstPiece c cs).text.length = c :: cs := by
  have h := firstPiece_text_prefix c cs
  conv => lhs; lhs; rw [List.prefix_iff_eq_take.mp h]
  exact List.take_append_drop _ _

theorem piecesAfter_eq_pieces_drop (skipped : Nat) (cs : List Char) :
    piecesAfter skipped cs = pieces (cs.drop skipped) := by
  induction cs generalizing skipped with
  | nil => cases skipped <;> rfl
  | cons c cs ih =>
    cases skipped with
    | zero => rfl
    | succ n => simpa [piecesAfter] using ih n

/-- The first piece is cut off, and the rest of the text is cut in the same way. -/
theorem pieces_cons (c : Char) (cs : List Char) :
    pieces (c :: cs) =
      firstPiece c cs :: pieces ((c :: cs).drop (firstPiece c cs).text.length) := by
  have hn : (firstPiece c cs).text.length = (firstPiece c cs).text.length - 1 + 1 := by
    have := List.length_pos_iff.mpr (firstPiece_text_ne_nil c cs)
    omega
  have hs : pieces (c :: cs) =
      firstPiece c cs :: piecesAfter ((firstPiece c cs).text.length - 1) cs := rfl
  rw [hs, piecesAfter_eq_pieces_drop, hn, List.drop_succ_cons, Nat.add_sub_cancel]

/-- Cutting loses nothing. -/
theorem flatMap_text_pieces (source : List Char) : (pieces source).flatMap Piece.text = source := by
  match source with
  | [] => rfl
  | c :: cs =>
    have hl := List.length_pos_iff.mpr (firstPiece_text_ne_nil c cs)
    rw [pieces_cons, List.flatMap_cons, flatMap_text_pieces, firstPiece_text_append_drop]
termination_by source.length
decreasing_by
  simp only [List.length_drop, List.length_cons]
  omega

end Treewalk
