import Treewalk.Proofs.Lexing.Lines

/-! The layout of a text: what stands between its tokens. A lexeme is cut off whole in front of a
separator, so lexemes that are set apart by separators and comments are scanned again as they were,
and nothing is said of what stands between them. -/

namespace Treewalk

section Layouts

/-- Separators and comments, each comment closed by a line end. -/
inductive IsGap : List Char → Prop where
  | nil : IsGap []
  | separator {c : Char} {gap : List Char} (hc : IsSeparator c) (h : IsGap gap) : IsGap (c :: gap)
  | comment {text gap : List Char} (ht : IsComment text) (h : IsGap gap) :
      IsGap (text ++ '\n' :: gap)

/-- As a gap, but that the last comment may be closed by the end of the text. -/
inductive IsLastGap : List Char → Prop where
  | closed {gap : List Char} (h : IsGap gap) : IsLastGap gap
  | comment {gap text : List Char} (h : IsGap gap) (ht : IsComment text) : IsLastGap (gap ++ text)

/-- What follows a token begins with a separator, if there is anything. -/
def IsSetApart (gap : List Char) : Prop :=
  ∀ c ∈ gap.head?, IsSeparator c

/-- The text has the lexemes of the tokens in order, with a gap behind each of them. -/
inductive LaidOut : List Token → List Char → Prop where
  | last {t : Token} {gap : List Char} (hgap : IsLastGap gap) (hapart : IsSetApart gap) :
      LaidOut [t] (t.lexeme.toList ++ gap)
  | cons {t : Token} {ts : List Token} {gap text : List Char} (hne : gap ≠ []) (hgap : IsGap gap)
      (hapart : IsSetApart gap) (h : LaidOut ts text) :
      LaidOut (t :: ts) (t.lexeme.toList ++ (gap ++ text))

/-- A layout of the tokens: a first gap, and the tokens with the gaps behind them. -/
inductive Layout : List Token → List Char → Prop where
  | nil {gap : List Char} (hgap : IsLastGap gap) : Layout [] gap
  | tokens {ts : List Token} {gap text : List Char} (hgap : IsGap gap) (h : LaidOut ts text) :
      Layout ts (gap ++ text)

end Layouts

section Pieces

variable {gap rest text : List Char} {ts : List Token}

/-- Nothing is read off these pieces. -/
def Piece.isSilent : Piece → Bool
  | .blank _ => true
  | .comment _ => true
  | _ => false

def heardPieces (source : List Char) : List Piece :=
  (pieces source).filter fun p => !p.isSilent

theorem pieces_append_of_firstPiece {p : Piece} {c : Char} {cs : List Char} (ht : p.text = c :: cs)
    (h : firstPiece c (cs ++ rest) = p) : pieces (c :: cs ++ rest) = p :: pieces rest := by
  rw [List.cons_append, pieces_cons, h, ht, ← List.cons_append, List.drop_left]

theorem pieces_separator {c : Char} (hc : IsSeparator c) (rest : List Char) :
    pieces (c :: rest) = .blank c :: pieces rest := by
  have hfirst := firstPiece_of_separates (separates_iff.mpr hc) rest
  rw [pieces_cons, hfirst]
  rfl

theorem pieces_comment {text : List Char} (ht : IsComment text) : pieces text = [.comment text] := by
  obtain ⟨body, rfl, -⟩ := id ht
  rw [pieces_cons, firstPiece_of_isComment ht, Piece.text, List.drop_length]
  rfl

theorem pieces_comment_append {text : List Char} (ht : IsComment text) (rest : List Char) :
    pieces (text ++ '\n' :: rest) = .comment text :: .blank '\n' :: pieces rest := by
  have hopen : ∀ body, .openString body ∉ pieces text := by simp [pieces_comment ht]
  rw [pieces_append_line _ _ hopen, pieces_comment ht]
  rfl

theorem IsGap.heardPieces_append (h : IsGap gap) (rest : List Char) :
    heardPieces (gap ++ rest) = heardPieces rest := by
  induction h with
  | nil => rfl
  | separator hc _ ih =>
    rw [List.cons_append, heardPieces, pieces_separator hc,
      List.filter_cons_of_neg (by simp [Piece.isSilent])]
    exact ih
  | comment ht _ ih =>
    rw [List.append_assoc, List.cons_append, heardPieces, pieces_comment_append ht,
      List.filter_cons_of_neg (by simp [Piece.isSilent]),
      List.filter_cons_of_neg (by simp [Piece.isSilent])]
    exact ih

theorem IsLastGap.heardPieces_eq_nil (h : IsLastGap gap) : heardPieces gap = [] := by
  cases h with
  | closed h =>
    have hclosed := h.heardPieces_append []
    rwa [List.append_nil] at hclosed
  | comment h ht =>
    rw [h.heardPieces_append, heardPieces, pieces_comment ht]
    rfl

/-- A lexeme is cut off whole in front of what it cannot go on with, and at the end of the text. -/
theorem IsLexeme.pieces_append {kind : TokenKind} (h : IsLexeme kind text)
    (hend : ∀ x ∈ rest.head?, EndsLexeme x) :
    pieces (text ++ rest) = .lexeme kind text :: pieces rest := by
  obtain ⟨c, cs, rfl⟩ := List.exists_cons_of_ne_nil h.ne_nil
  have hfirst := firstPiece_of_isLexeme h
  have happend : firstPiece c (cs ++ rest) = .lexeme kind (c :: cs) := by
    cases rest with
    | nil => rw [List.append_nil, hfirst]
    | cons x rest =>
      rw [firstPiece_append_end (hend x rfl) (by simp [hfirst]) (.inr (by simp [hfirst])), hfirst]
  exact pieces_append_of_firstPiece rfl happend

theorem IsLexeme.heardPieces_append {kind : TokenKind} (h : IsLexeme kind text)
    (hapart : IsSetApart rest) :
    heardPieces (text ++ rest) = .lexeme kind text :: heardPieces rest := by
  have hend : ∀ x ∈ rest.head?, EndsLexeme x := fun x hx =>
    endsLexeme_of_separates (separates_iff.mpr (hapart x hx))
  rw [heardPieces, h.pieces_append hend, List.filter_cons_of_pos (by simp [Piece.isSilent])]
  rfl

/-- The piece that a token is scanned from. -/
def Token.piece (t : Token) : Piece :=
  .lexeme t.kind t.lexeme.toList

theorem IsSetApart.append (h : IsSetApart gap) (hne : gap ≠ []) : IsSetApart (gap ++ rest) := by
  obtain ⟨c, cs, rfl⟩ := List.exists_cons_of_ne_nil hne
  exact h

theorem LaidOut.heardPieces_eq (h : LaidOut ts text)
    (hts : ∀ t ∈ ts, IsLexeme t.kind t.lexeme.toList) : heardPieces text = ts.map Token.piece := by
  induction h with
  | @last t gap hgap hapart =>
    have ht := hts t List.mem_cons_self
    rw [ht.heardPieces_append hapart, hgap.heardPieces_eq_nil]
    rfl
  | @cons t ts gap text hne hgap hapart _ ih =>
    have ht := hts t List.mem_cons_self
    rw [ht.heardPieces_append (hapart.append hne), hgap.heardPieces_append,
      ih fun t ht => hts t (List.mem_cons_of_mem _ ht)]
    rfl

theorem Layout.heardPieces_eq (h : Layout ts text)
    (hts : ∀ t ∈ ts, IsLexeme t.kind t.lexeme.toList) : heardPieces text = ts.map Token.piece := by
  cases h with
  | nil hgap => exact hgap.heardPieces_eq_nil
  | tokens hgap h => rw [hgap.heardPieces_append, h.heardPieces_eq hts]

end Pieces

section Scans

variable {source text : String}

/-- Forgets all places. -/
def Move.forget : Move where
  line _ := 0
  span _ := .empty 0

/-- The token of a piece, at no place. -/
def Piece.token? : Piece → Option Token
  | .lexeme kind text =>
    some ⟨kind, String.ofList text, lexemeLiteral kind text, 0, .empty 0⟩
  | _ => none

theorem filterMap_placedPieces {α β : Type} {view : Position × Piece → Option α} {shape : α → β}
    {read : Piece → Option β} (h : ∀ pos p, (view (pos, p)).map shape = read p) (pos : Position)
    (ps : List Piece) : ((placedPieces pos ps).filterMap view).map shape = ps.filterMap read := by
  conv => rhs; rw [← map_snd_placedPieces pos ps]
  rw [List.map_filterMap, List.filterMap_map]
  congr 1
  funext x
  exact h x.1 x.2

theorem filterMap_token?_heardPieces (source : List Char) :
    (heardPieces source).filterMap Piece.token? = (pieces source).filterMap Piece.token? := by
  rw [heardPieces, List.filterMap_filter]
  congr 1
  funext p
  cases p <;> rfl

theorem forget_tokens_scan (source : String) :
    (scan source).tokens.map (Token.move .forget) =
      (heardPieces source.toList).filterMap Piece.token? ++
        [(eofToken Position.start).move .forget] := by
  have hplace : ∀ pos p, (pieceToken? (pos, p)).map (Token.move .forget) = p.token? := by
    intro pos p
    cases p <;> rfl
  have hpieces := filterMap_placedPieces hplace .start (pieces source.toList)
  rw [scan, List.map_append, hpieces, filterMap_token?_heardPieces]
  rfl

theorem filterMap_token?_piece {ts : List Token} (h : ∀ t ∈ ts, t ∈ (scan source).tokens.dropLast) :
    (ts.map Token.piece).filterMap Piece.token? = ts.map (Token.move .forget) := by
  induction ts with
  | nil => rfl
  | cons t ts ih =>
    obtain ⟨pos, kind, text, -, rfl⟩ := exists_lexeme_of_mem_dropLast (h t List.mem_cons_self)
    have hrest := ih fun t ht => h t (List.mem_cons_of_mem _ ht)
    simp [Token.piece, Piece.token?, lexemeToken, Token.move, Move.forget, hrest]

theorem Layout.heardPieces_scan (h : Layout (scan source).tokens.dropLast text.toList) :
    heardPieces text.toList = (scan source).tokens.dropLast.map Token.piece := by
  refine h.heardPieces_eq fun t ht => ?_
  obtain ⟨pos, kind, text, hlexeme, rfl⟩ := exists_lexeme_of_mem_dropLast ht
  simpa [lexemeToken] using hlexeme

theorem Layout.forget_tokens_scan (h : Layout (scan source).tokens.dropLast text.toList) :
    (scan text).tokens.map (Token.move .forget) =
      (scan source).tokens.map (Token.move .forget) := by
  rw [Treewalk.forget_tokens_scan, h.heardPieces_scan, filterMap_token?_piece fun _ ht => ht]
  conv => rhs; rw [scan]
  rw [List.map_append, scan, List.dropLast_concat]
  rfl

theorem Layout.errors_scan (h : Layout (scan source).tokens.dropLast text.toList) :
    (scan text).errors = [] := by
  rw [scan, List.filterMap_eq_nil_iff]
  rintro ⟨pos, p⟩ hx
  have hp : p ∈ pieces text.toList := by
    rw [← map_snd_placedPieces .start (pieces text.toList)]
    exact List.mem_map.mpr ⟨_, hx, rfl⟩
  by_cases hsilent : p.isSilent = true
  · cases p <;> first | rfl | cases hsilent
  · have hheard : p ∈ heardPieces text.toList :=
      List.mem_filter.mpr ⟨hp, by simpa using hsilent⟩
    rw [h.heardPieces_scan] at hheard
    obtain ⟨t, -, rfl⟩ := List.mem_map.mp hheard
    rfl

end Scans

end Treewalk
