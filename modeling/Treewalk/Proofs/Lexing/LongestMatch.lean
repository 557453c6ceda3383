import Treewalk.Proofs.Lexing.FirstPiece

/-! No piece of any class that could be cut from the front of a text is longer than the first piece
of the text, since such a piece is the first piece of its own text, and further text never makes the
first piece shorter. -/

namespace Treewalk

theorem takeWhile_prefix_append {α : Type} (f : α → Bool) (xs ys : List α) :
    xs.takeWhile f <+: (xs ++ ys).takeWhile f := by
  rw [List.takeWhile_append]
  split
  · exact (List.takeWhile_prefix f).trans (List.prefix_append _ _)
  · exact List.prefix_rfl

theorem fractionPart_prefix_append (cs rest : List Char) :
    fractionPart cs <+: fractionPart (cs ++ rest) := by
  conv => lhs; unfold fractionPart
  split
  · split
    · rename_i d ds hd
      simpa [fractionPart, hd] using takeWhile_prefix_append Char.isDigit ds rest
    · exact List.nil_prefix
  · exact List.nil_prefix

theorem numberTail_prefix_append (cs rest : List Char) :
    numberTail cs <+: numberTail (cs ++ rest) := by
  induction cs with
  | nil => exact List.nil_prefix
  | cons c cs ih =>
    by_cases hc : c.isDigit = true
    · have hcons : ∀ ds, numberTail (c :: ds) = c :: numberTail ds :=
        numberTail_append (fun d hd => List.mem_singleton.mp hd ▸ hc)
      rw [List.cons_append, hcons, hcons]
      exact List.cons_prefix_cons.mpr ⟨rfl, ih⟩
    · have hstop : ∀ ds, numberTail (c :: ds) = fractionPart (c :: ds) := fun ds => by
        simp [numberTail, hc]
      rw [List.cons_append, hstop, hstop]
      exact fractionPart_prefix_append (c :: cs) rest

theorem stringPiece_length_le_append (cs rest : List Char) :
    (stringPiece cs).text.length ≤ (stringPiece (cs ++ rest)).text.length := by
  have hprefix := (takeWhile_prefix_append (· != '"') cs rest).length_le
  have hclosed : ∀ ds, '"' ∈ ds →
      (stringPiece ds).text.length = (ds.takeWhile (· != '"')).length + 2 := fun ds hds => by
    simp [stringPiece, hds, Piece.text]
  by_cases hcs : '"' ∈ cs
  · rw [hclosed cs hcs, hclosed _ (List.mem_append_left rest hcs)]
    omega
  rw [List.takeWhile_eq_self_iff.mpr (bne_of_not_mem hcs)] at hprefix
  rw [stringPiece_of_open hcs]
  by_cases hrest : '"' ∈ cs ++ rest
  · rw [hclosed _ hrest]
    simp only [Piece.text, List.length_cons]
    omega
  · rw [stringPiece_of_open hrest]
    simp [Piece.text]

theorem operatorPiece?_length_le_append {c : Char} {cs : List Char} {p : Piece}
    (h : operatorPiece? c cs = some p) (rest : List Char) :
    ∃ q, operatorPiece? c (cs ++ rest) = some q ∧ p.text.length ≤ q.text.length := by
  cases hq : operatorPiece? c (cs ++ rest) with
  | none =>
    have hn : operatorPiece? c cs = none :=
      operatorPiece?_eq_none_iff.mpr (operatorPiece?_eq_none_iff.mp hq)
    rw [h] at hn
    cases hn
  | some q =>
    refine ⟨q, rfl, ?_⟩
    have hpos := List.length_pos_iff.mpr (operatorPiece?_text_ne_nil hq)
    unfold operatorPiece? at h
    split at h
    · rename_i kind ds hkind
      cases h
      have hsame : q = .lexeme kind [c, '='] := by
        simpa [operatorPiece?, hkind] using hq.symm
      rw [hsame]
    · split at h
      · rename_i hslash
        cases h
        obtain ⟨rfl, hhead⟩ := hslash
        obtain ⟨ds, rfl⟩ := List.head?_eq_some_iff.mp hhead
        rw [List.cons_append, operatorPiece?_comment] at hq
        cases hq
        simpa [Piece.text] using (takeWhile_prefix_append (· != '\n') ds rest).length_le
      · obtain ⟨kind, -, rfl⟩ := Option.map_eq_some_iff.mp h
        exact hpos

theorem firstPiece_length_le_append (c : Char) (cs rest : List Char) :
    (firstPiece c cs).text.length ≤ (firstPiece c (cs ++ rest)).text.length := by
  have hpos := List.length_pos_iff.mpr (firstPiece_text_ne_nil c (cs ++ rest))
  by_cases hsep : separates c = true
  · rw [firstPiece_of_separates hsep cs]
    exact hpos
  by_cases hquote : c = '"'
  · subst hquote
    rw [firstPiece_quote, firstPiece_quote]
    exact stringPiece_length_le_append cs rest
  cases hop : operatorPiece? c cs with
  | some p =>
    obtain ⟨q, hq, hle⟩ := operatorPiece?_length_le_append hop rest
    rwa [firstPiece_of_operatorPiece? hop, firstPiece_of_operatorPiece? hq]
  | none =>
    by_cases hdigit : c.isDigit = true
    · rw [firstPiece_of_isDigit hdigit, firstPiece_of_isDigit hdigit]
      simpa [Piece.text] using (numberTail_prefix_append cs rest).length_le
    by_cases hname : startsName c = true
    · rw [firstPiece_of_startsName hname, firstPiece_of_startsName hname]
      simpa [Piece.text] using (takeWhile_prefix_append continuesName cs rest).length_le
    have hstray : firstPiece c cs = .stray c := by
      simp [firstPiece, hsep, hquote, hop, hdigit, hname]
    rw [hstray]
    exact hpos

theorem IsLexeme.ne_nil {kind : TokenKind} {text : List Char} (h : IsLexeme kind text) :
    text ≠ [] := by
  cases h with
  | operator h =>
    have hall : ∀ e ∈ operators, e.1.toList ≠ [] := by decide
    exact hall _ h
  | integer hne _ => exact hne
  | string _ | fraction _ _ _ _ | keyword _ _ _ | identifier _ _ _ => simp

theorem Piece.Belongs.text_ne_nil {p : Piece} {rest : List Char} (h : p.Belongs rest) :
    p.text ≠ [] := by
  cases p with
  | blank c | stray c => exact List.cons_ne_nil c []
  | comment text =>
    obtain ⟨body, rfl, -⟩ := h
    exact List.cons_ne_nil _ _
  | lexeme kind text => exact IsLexeme.ne_nil h
  | openString text =>
    obtain ⟨⟨body, rfl, -⟩, -⟩ := h
    exact List.cons_ne_nil _ _

theorem Piece.Belongs.length_le_firstPiece {p : Piece} {rest : List Char} {c : Char}
    {cs : List Char} (hp : p.Belongs rest) (h : p.text ++ rest = c :: cs) :
    p.text.length ≤ (firstPiece c cs).text.length := by
  obtain ⟨d, ds, ht⟩ := List.exists_cons_of_ne_nil hp.text_ne_nil
  rw [ht, List.cons_append] at h
  obtain ⟨rfl, rfl⟩ := List.cons.inj h
  rw [← firstPiece_of_belongs hp ht]
  exact firstPiece_length_le_append d ds rest

end Treewalk
