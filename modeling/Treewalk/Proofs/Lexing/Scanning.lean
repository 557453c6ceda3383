import Treewalk.Diagnostic
import Treewalk.Proofs.Lexing.Cursor.Pieces
import Treewalk.Proofs.Lexing.LongestMatch

/-! Scanning is splitting by longest match. A source has exactly one split into pieces; its lexemes
are the tokens, its stray characters and its open string are the errors, each at the range of
characters that the piece takes up in the source. -/

namespace Treewalk

theorem Piece.Belongs.eq_of_text_eq {p q : Piece} {rest rest' : List Char} (hp : p.Belongs rest)
    (hq : q.Belongs rest') (h : p.text = q.text) : p = q := by
  obtain ⟨c, cs, ht⟩ := List.exists_cons_of_ne_nil hp.text_ne_nil
  rw [← firstPiece_of_belongs hp ht, ← firstPiece_of_belongs hq (h ▸ ht)]

theorem split_pieces (source : List Char) : Split source (pieces source) := by
  match source with
  | [] => exact .nil
  | c :: cs =>
    have hpos := List.length_pos_iff.mpr (firstPiece_text_ne_nil c cs)
    have hcut := firstPiece_text_append_drop c cs
    have hlongest : (firstPiece c cs).Longest ((c :: cs).drop (firstPiece c cs).text.length) := by
      intro q rest' hq h
      exact hq.length_le_firstPiece (h.trans hcut)
    have hrest := split_pieces ((c :: cs).drop (firstPiece c cs).text.length)
    have hsplit := Split.cons (firstPiece_belongs c cs) hlongest hrest
    rwa [hcut, ← pieces_cons] at hsplit
termination_by source.length
decreasing_by
  simp only [List.length_drop, List.length_cons]
  omega

theorem Split.eq_pieces {source : List Char} {ps : List Piece} (h : Split source ps) :
    ps = pieces source := by
  induction h with
  | nil => rfl
  | @cons p rest ps hp hl hps ih =>
    obtain ⟨c, cs, hc⟩ := List.exists_cons_of_ne_nil
      (List.append_ne_nil_of_left_ne_nil hp.text_ne_nil rest)
    have hcut := firstPiece_text_append_drop c cs
    have hle := hp.length_le_firstPiece hc
    have hge := hl _ _ (firstPiece_belongs c cs) (hcut.trans hc.symm)
    obtain ⟨htext, hrest⟩ := List.append_inj (hc.trans hcut.symm) (Nat.le_antisymm hle hge)
    have hfirst : p = firstPiece c cs := hp.eq_of_text_eq (firstPiece_belongs c cs) htext
    rw [hc, pieces_cons, ← hrest, ← hfirst, ih]

theorem Split.openString_last {source text : List Char} {ps : List Piece} (h : Split source ps)
    (ht : .openString text ∈ ps) : ps.getLast? = some (.openString text) := by
  induction h with
  | nil => cases ht
  | @cons p rest ps hp hl hps ih =>
    rcases List.mem_cons.mp ht with rfl | ht
    · obtain ⟨-, rfl⟩ := hp
      rw [hps.eq_pieces]
      rfl
    · have hne : ps ≠ [] := List.ne_nil_of_mem ht
      rw [List.getLast?_cons_of_ne_nil hne, ih ht]

theorem IsLexeme.kind_eq_iff {kind k : TokenKind} {text : List Char} {word : String}
    (h : IsLexeme kind text) (hk : (word, k) ∈ keywords) : kind = k ↔ text = word.toList := by
  constructor
  · rintro rfl
    cases h with
    | operator h =>
      have hall : ∀ e ∈ operators, ∀ e' ∈ keywords, e.2 ≠ e'.2 := by decide
      exact absurd rfl (hall (_, kind) h (word, kind) hk)
    | keyword hc hcs h =>
      have hall : ∀ e ∈ keywords, ∀ e' ∈ keywords, e.2 = e'.2 → e.1 = e'.1 := by decide
      have hword : _ = word := hall _ h _ hk rfl
      rw [← hword, String.toList_ofList]
    | string _ | integer _ _ | fraction _ _ _ _ | identifier _ _ _ =>
      simp [keywords] at hk
  · rintro rfl
    have hall : ∀ e ∈ keywords, pieces e.1.toList = [.lexeme e.2 e.1.toList] := by decide
    obtain ⟨c, cs, ht⟩ := List.exists_cons_of_ne_nil h.ne_nil
    have hp := hall _ hk
    simp only [ht] at hp h
    rw [pieces_cons, firstPiece_of_isLexeme h] at hp
    simp only [List.cons.injEq, Piece.lexeme.injEq] at hp
    exact hp.1.1

/-- Each piece with the range of characters that it takes up, the first one starting at `n`. -/
def spans : Nat → List Piece → List (Span × Piece)
  | _, [] => []
  | n, p :: ps => (⟨n, n + p.text.length⟩, p) :: spans (n + p.text.length) ps

def Piece.kind? : Piece → Option TokenKind
  | .lexeme kind _ => some kind
  | _ => none

def Piece.complaint? : Piece → Option String
  | .stray c => some ("Unexpected character '" ++ String.singleton c ++ "'.")
  | .openString _ => some "Unterminated string."
  | _ => none

theorem placedPieces_map_span (pos : Position) (ps : List Piece) :
    (placedPieces pos ps).map (fun x => (⟨x.1.offset, (x.1.after x.2.text).offset⟩, x.2)) =
      spans pos.offset ps := by
  induction ps generalizing pos with
  | nil => rfl
  | cons p ps ih =>
    rw [placedPieces, List.map_cons, ih]
    rfl

theorem map_filterMap_placedPieces {α β : Type} {f : Position × Piece → Option α} {view : α → β}
    {g : Span × Piece → Option β}
    (h : ∀ pos p, (f (pos, p)).map view = g (⟨pos.offset, (pos.after p.text).offset⟩, p))
    (pos : Position) (ps : List Piece) :
    ((placedPieces pos ps).filterMap f).map view = (spans pos.offset ps).filterMap g := by
  rw [List.map_filterMap, ← placedPieces_map_span, List.filterMap_map]
  congr 1
  funext x
  exact h x.1 x.2

theorem extract_spans (before : List Char) {source : List Char} {ps : List Piece}
    (h : source = before ++ ps.flatMap Piece.text) :
    ∀ x ∈ spans before.length ps, source.extract x.1.start x.1.stop = x.2.text := by
  induction ps generalizing before with
  | nil => simp [spans]
  | cons p ps ih =>
    intro x hx
    rcases List.mem_cons.mp hx with rfl | hx
    · simp [h]
    · apply ih (before ++ p.text)
      · simp [h]
      · simpa using hx

theorem Position.start_offset : Position.start.offset = 0 := rfl

theorem extract_lexeme {source : String} {t : Token} (h : t ∈ (scan source).tokens) :
    t.lexeme.toList = source.toList.extract t.span.start t.span.stop := by
  rcases List.mem_append.mp h with h | h
  · obtain ⟨⟨pos, p⟩, hx, ht⟩ := List.mem_filterMap.mp h
    have hspan : (⟨pos.offset, (pos.after p.text).offset⟩, p) ∈ spans 0 (pieces source.toList) := by
      rw [← Position.start_offset, ← placedPieces_map_span]
      exact List.mem_map.mpr ⟨(pos, p), hx, rfl⟩
    have hextract := extract_spans [] (flatMap_text_pieces source.toList).symm _ hspan
    cases p with
    | lexeme kind text =>
      cases ht
      simpa [lexemeToken, Piece.text] using hextract.symm
    | blank _ | comment _ | stray _ | openString _ => cases ht
  · rw [List.mem_singleton.mp h]
    simp [eofToken, Span.empty]

theorem Split.belongs_of_mem {source : List Char} {ps : List Piece} {p : Piece}
    (h : Split source ps) (hp : p ∈ ps) : ∃ rest, p.Belongs rest := by
  induction h with
  | nil => cases hp
  | @cons q rest ps hq _ _ ih =>
    rcases List.mem_cons.mp hp with rfl | hp
    · exact ⟨rest, hq⟩
    · exact ih hp

/-- Scanning with a cursor ends with the tokens, errors and events of the scan. They are told by the
source alone: it splits by longest match in one way only, and each piece is of one class only. Its
lexemes are the tokens, with one more for the end of the text, and its stray characters and open
string are the errors, in the order in which they stand. -/
theorem scan_split (source : String) :
    (∃ s, Settles (scanSource source.toList) .initial
        ((scan source).tokens, (scan source).errors.map LexicalError.diagnostic) s ∧
      s.events = (scan source).events) ∧
    ∃ ps : List Piece,
      (∀ ps', Split source.toList ps' ↔ ps' = ps) ∧
      (∀ p ∈ ps, p.text ≠ [] ∧ ∀ q rest, q.Belongs rest → q.text = p.text → q = p) ∧
      (∀ text, .openString text ∈ ps → ps.getLast? = some (.openString text)) ∧
      (∀ kind text, .lexeme kind text ∈ ps →
        ∀ word k, (word, k) ∈ keywords → (kind = k ↔ text = word.toList)) ∧
      (∀ x ∈ spans 0 ps, source.toList.extract x.1.start x.1.stop = x.2.text) ∧
      (scan source).tokens.map (fun t => (t.kind, t.span)) =
        (spans 0 ps).filterMap (fun x => x.2.kind?.map (·, x.1)) ++
          [(.eof, ⟨source.length, source.length⟩)] ∧
      (∀ t ∈ (scan source).tokens,
        t.lexeme.toList = source.toList.extract t.span.start t.span.stop) ∧
      (scan source).errors.map (fun e => (e.diagnostic.message, e.span)) =
        (spans 0 ps).filterMap (fun x => x.2.complaint?.map (·, x.1)) := by
  have hsplit := split_pieces source.toList
  refine ⟨scanning_settles source, pieces source.toList, fun ps' => ⟨Split.eq_pieces, ?_⟩,
    fun p hp => ?_, fun text => hsplit.openString_last, fun kind text hp word k hk => ?_, ?_, ?_,
    fun t => extract_lexeme, ?_⟩
  · rintro rfl
    exact hsplit
  · obtain ⟨rest, hclass⟩ := hsplit.belongs_of_mem hp
    exact ⟨hclass.text_ne_nil, fun q rest' hq h => hq.eq_of_text_eq hclass h⟩
  · obtain ⟨rest, hclass⟩ := hsplit.belongs_of_mem hp
    exact IsLexeme.kind_eq_iff hclass hk
  · exact extract_spans [] (flatMap_text_pieces source.toList).symm
  · rw [scan, List.map_append, ← Position.start_offset]
    congr 1
    · refine map_filterMap_placedPieces (fun pos p => ?_) _ _
      cases p <;> rfl
    · simp [eofToken, Span.empty, Position.after, Position.start, String.length_toList]
  · refine map_filterMap_placedPieces (fun pos p => ?_) Position.start _
    cases p <;> rfl

example : (scan "12. /!== // x\n\"y").tokens.map (·.lexeme) = ["12", ".", "/", "!=", "=", ""] := by
  decide +kernel

end Treewalk
