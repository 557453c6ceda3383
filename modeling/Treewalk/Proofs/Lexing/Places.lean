import Treewalk.Proofs.Lexing.Scanning

/-! The places of tokens and of lexical errors. Each is the range of characters of a piece, and its
line is the one on which the range ends, also where a string runs over several lines. -/

namespace Treewalk

/-- The span lies in the source, and the line is the one on which it ends. -/
structure PlacedIn (source : List Char) (span : Span) (line : Nat) : Prop where
  start_le_stop : span.start ≤ span.stop
  stop_le_length : span.stop ≤ source.length
  line_eq : line = 1 + (source.take span.stop).count '\n'

theorem Split.exists_before {source : List Char} {ps : List Piece} (h : Split source ps)
    {pos : Position} {x : Position × Piece} (hx : x ∈ placedPieces pos ps) :
    ∃ before rest, source = before ++ (x.2.text ++ rest) ∧ x.2.Belongs rest ∧
      x.1 = pos.after before := by
  induction h generalizing pos with
  | nil => cases hx
  | @cons p rest ps hp hl hps ih =>
    rcases List.mem_cons.mp hx with rfl | hx
    · exact ⟨[], rest, rfl, hp, by simp⟩
    · obtain ⟨before, rest', hsource, hclass, hpos⟩ := ih hx
      exact ⟨p.text ++ before, rest', by rw [List.append_assoc, ← hsource], hclass,
        by simpa using hpos⟩

/-- A range of characters is placed at the positions in front of it and behind it. -/
theorem placedIn_after (before text rest : List Char) :
    let pos := Position.start.after before
    PlacedIn (before ++ (text ++ rest)) ⟨pos.offset, (pos.after text).offset⟩
      (pos.after text).line := by
  intro pos
  refine ⟨by simp [Position.after], ?_, ?_⟩
  · simp only [pos, Position.after, Position.start, List.length_append]
    omega
  · have hstop : (pos.after text).offset = (before ++ text).length := by
      simp [pos, Position.after, Position.start]
    rw [hstop, ← List.append_assoc, List.take_left]
    simp [pos, Position.after, Position.start, Nat.add_assoc]

theorem IsLexeme.kind_ne_eof {kind : TokenKind} {text : List Char} (h : IsLexeme kind text) :
    kind ≠ .eof := by
  cases h with
  | operator h =>
    have hall : ∀ e ∈ operators, e.2 ≠ .eof := by decide
    exact hall _ h
  | keyword _ _ h =>
    have hall : ∀ e ∈ keywords, e.2 ≠ .eof := by decide
    exact hall _ h
  | string _ | integer _ _ | fraction _ _ _ _ | identifier _ _ _ => simp

/-- Every token but the last takes up some characters, and only the last is of the kind for the end
of the text. -/
theorem token_of_mem_scan {source : String} {t : Token} (h : t ∈ (scan source).tokens) :
    PlacedIn source.toList t.span t.line ∧
      (t = eofToken (Position.start.after source.toList) ∨
        t.kind ≠ .eof ∧ t.span.start < t.span.stop) := by
  rcases List.mem_append.mp h with h | h
  · obtain ⟨⟨pos, p⟩, hx, ht⟩ := List.mem_filterMap.mp h
    obtain ⟨before, rest, hsource, hclass, hpos⟩ := (split_pieces source.toList).exists_before hx
    dsimp only at hsource hclass hpos
    cases p with
    | lexeme kind text =>
      cases ht
      subst hpos
      have hplaced := placedIn_after before text rest
      have hlength := List.length_pos_iff.mpr (IsLexeme.ne_nil hclass)
      rw [hsource]
      refine ⟨hplaced, .inr ⟨IsLexeme.kind_ne_eof hclass, ?_⟩⟩
      simp only [lexemeToken, Position.after]
      omega
    | blank _ | comment _ | stray _ | openString _ => cases ht
  · have hplaced := placedIn_after source.toList [] []
    rw [List.mem_singleton.mp h]
    refine ⟨?_, .inl rfl⟩
    simpa [eofToken, Span.empty] using hplaced

/-- A stray character is the one that its error names; an open string begins with a quote that no
later one closes. -/
theorem error_of_mem_scan {source : String} {e : LexicalError} (h : e ∈ (scan source).errors) :
    PlacedIn source.toList e.span e.line ∧
      ((∃ c, e.fault = .strayCharacter c ∧ source.toList[e.span.start]? = some c ∧
        e.span.stop = e.span.start + 1) ∨
      ∃ line, e.fault = .openString line ∧ source.toList[e.span.start]? = some '"' ∧
        '"' ∉ source.toList.drop (e.span.start + 1) ∧ e.span.stop = source.length) := by
  obtain ⟨⟨pos, p⟩, hx, he⟩ := List.mem_filterMap.mp h
  obtain ⟨before, rest, hsource, hclass, hpos⟩ := (split_pieces source.toList).exists_before hx
  dsimp only at hsource hclass hpos
  have hoffset : pos.offset = before.length := by
    rw [hpos]
    simp [Position.after, Position.start]
  cases p with
  | stray c =>
    cases he
    have hc : c ≠ '\n' := by
      rintro rfl
      exact hclass.1 (.inr (.inr (.inr rfl)))
    have hplaced := placedIn_after before [c] rest
    rw [hsource]
    refine ⟨?_, .inl ⟨c, rfl, ?_, rfl⟩⟩
    · simpa [Position.after, Span.single, hc, hpos, Piece.text] using hplaced
    · simp [Span.single, hoffset, Piece.text]
  | openString text =>
    cases he
    obtain ⟨⟨body, rfl, hbody⟩, rfl⟩ := hclass
    have hplaced := placedIn_after before ('"' :: body) []
    have hdrop : (before ++ '"' :: body).drop (before.length + 1) = body := by
      rw [List.append_cons]
      exact List.drop_left' (by simp)
    refine ⟨?_, .inr ⟨_, rfl, ?_, ?_, ?_⟩⟩
    · rw [hsource, hpos]
      exact hplaced
    · simp [hsource, hoffset, Piece.text]
    · simpa [hsource, hoffset, Piece.text, hdrop] using hbody
    · rw [← String.length_toList, hsource]
      simp [Position.after, hoffset, Piece.text]
  | blank _ | comment _ | lexeme _ _ => cases he

end Treewalk
