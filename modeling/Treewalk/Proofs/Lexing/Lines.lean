import Treewalk.Proofs.Lexing.Places

/-! Texts joined at a line end. A line end that follows a text ends its last piece, unless that is an
open string, so the two texts are cut as they are cut apart. What stands behind the line end is found
further down, and nothing else about it changes. -/

namespace Treewalk

section Pieces

variable {x : Char}

theorem takeWhile_append_stop {f : Char → Bool} (hx : f x = false) (cs rest : List Char) :
    (cs ++ x :: rest).takeWhile f = cs.takeWhile f := by
  induction cs with
  | nil => simp [hx]
  | cons c cs ih => by_cases hc : f c = true <;> simp [hc, ih]

theorem dropWhile_append_stop {f : Char → Bool} (hx : f x = false) (cs rest : List Char) :
    (cs ++ x :: rest).dropWhile f = cs.dropWhile f ++ x :: rest := by
  induction cs with
  | nil => simp [hx]
  | cons c cs ih => by_cases hc : f c = true <;> simp [hc, ih]

/-- No lexeme goes on with the character. -/
structure EndsLexeme (x : Char) : Prop where
  not_continuesName : continuesName x = false
  ne_point : x ≠ '.'
  ne_equal : x ≠ '='
  ne_slash : x ≠ '/'

theorem endsLexeme_of_separates (hx : separates x = true) : EndsLexeme x := by
  refine ⟨not_continuesName_of_separates hx, ?_, ?_, ?_⟩ <;>
    rcases separates_iff.mp hx with rfl | rfl | rfl | rfl <;> decide

theorem EndsLexeme.not_isDigit (hx : EndsLexeme x) : x.isDigit = false := by
  have hname := hx.not_continuesName
  by_contra h
  simp [continuesName_of_isDigit (by simpa using h)] at hname

theorem numberTail_append_end (hx : EndsLexeme x) (cs rest : List Char) :
    numberTail (cs ++ x :: rest) = numberTail cs := by
  have hdigit := hx.not_isDigit
  have hpoint := hx.ne_point
  have hfraction : ∀ ds, fractionPart (ds ++ x :: rest) = fractionPart ds := by
    intro ds
    match ds with
    | [] => simp [fractionPart, hpoint]
    | [d] => by_cases hd : d = '.' <;> simp [fractionPart, hd, hdigit]
    | d :: e :: es =>
      by_cases hd : d = '.'
      · simp [fractionPart, hd, takeWhile_append_stop hdigit]
      · simp [fractionPart, hd]
  rw [numberTail, numberTail, takeWhile_append_stop hdigit, dropWhile_append_stop hdigit,
    hfraction]

theorem stringPiece_append {cs : List Char} (h : '"' ∈ cs) (rest : List Char) :
    stringPiece (cs ++ rest) = stringPiece cs := by
  obtain ⟨body, tail, rfl, hbody⟩ := List.eq_append_cons_of_mem h
  rw [List.append_assoc, List.cons_append, stringPiece_of_closed hbody, stringPiece_of_closed hbody]

/-- What ends a lexeme ends a comment if it is a line end. -/
theorem operatorPiece?_append_end {c : Char} {cs : List Char} (hx : EndsLexeme x)
    (hcomment : x = '\n' ∨ ∀ text, operatorPiece? c cs ≠ some (.comment text))
    (rest : List Char) : operatorPiece? c (cs ++ x :: rest) = operatorPiece? c cs := by
  have hequal := hx.ne_equal
  have hslash := hx.ne_slash
  cases cs with
  | nil => simp [operatorPiece?, hequal, hslash]
  | cons d ds =>
    by_cases hd : c = '/' ∧ d = '/'
    · obtain ⟨rfl, rfl⟩ := hd
      rw [operatorPiece?_comment] at hcomment
      rcases hcomment with rfl | hcomment
      · rw [List.cons_append, operatorPiece?_comment, operatorPiece?_comment,
          takeWhile_append_stop (by decide)]
      · exact absurd rfl (hcomment _)
    · cases hkind : operatorEqualKind? c with
      | none => simp [operatorPiece?, hkind, hd]
      | some kind => by_cases he : d = '=' <;> simp [operatorPiece?, hkind, hd, he]

theorem firstPiece_append_end {c : Char} {cs : List Char} (hx : EndsLexeme x)
    (hopen : ∀ text, firstPiece c cs ≠ .openString text)
    (hcomment : x = '\n' ∨ ∀ text, firstPiece c cs ≠ .comment text) (rest : List Char) :
    firstPiece c (cs ++ x :: rest) = firstPiece c cs := by
  by_cases hsep : separates c = true
  · rw [firstPiece_of_separates hsep, firstPiece_of_separates hsep]
  by_cases hquote : c = '"'
  · subst hquote
    rw [firstPiece_quote] at hopen ⊢
    rw [firstPiece_quote]
    have hclosed : '"' ∈ cs := by
      by_contra h
      exact hopen _ (stringPiece_of_open h)
    exact stringPiece_append hclosed _
  have hoperator : operatorPiece? c (cs ++ x :: rest) = operatorPiece? c cs := by
    refine operatorPiece?_append_end hx ?_ rest
    refine hcomment.imp_right fun h text heq => ?_
    exact h text (firstPiece_of_operatorPiece? heq)
  simp [firstPiece, hsep, hquote, hoperator, numberTail_append_end hx,
    takeWhile_append_stop hx.not_continuesName]

/-- Without an open string a text is cut in the same way in front of a line end. -/
theorem pieces_append_line (a b : List Char) (h : ∀ text, .openString text ∉ pieces a) :
    pieces (a ++ '\n' :: b) = pieces a ++ .blank '\n' :: pieces b := by
  match a with
  | [] => rw [List.nil_append, pieces_cons, firstPiece_of_separates (by decide)]; rfl
  | c :: cs =>
    rw [pieces_cons] at h
    have hfirst : firstPiece c (cs ++ '\n' :: b) = firstPiece c cs := by
      have hend : EndsLexeme '\n' := endsLexeme_of_separates (by decide)
      refine firstPiece_append_end hend (fun text heq => h text ?_) (.inl rfl) b
      rw [heq]
      exact List.mem_cons_self
    have hprefix := firstPiece_text_prefix c cs
    have hpos := List.length_pos_iff.mpr (firstPiece_text_ne_nil c cs)
    have hrest := pieces_append_line ((c :: cs).drop (firstPiece c cs).text.length) b
      fun text ht => h text (List.mem_cons_of_mem _ ht)
    rw [List.cons_append, pieces_cons, hfirst, ← List.cons_append,
      List.drop_append_of_le_length hprefix.length_le, hrest, pieces_cons c cs, List.cons_append]
termination_by a.length
decreasing_by
  simp only [List.length_drop, List.length_cons]
  omega

end Pieces

section Moves

/-- A change of places. -/
structure Move where
  line : Nat → Nat
  span : Span → Span

def Move.down (lines characters : Nat) : Move where
  line n := n + lines
  span s := ⟨s.start + characters, s.stop + characters⟩

/-- From the start of a text to behind the text `a` and a line end. -/
def Move.pastLine (a : String) : Move :=
  .down (a.toList.count '\n' + 1) (a.length + 1)

variable (f : Move)

def Token.move (t : Token) : Token :=
  { t with line := f.line t.line, span := f.span t.span }

/-- The line on which a string was opened moves with its error. -/
def LexicalFault.move : LexicalFault → LexicalFault
  | .strayCharacter c => .strayCharacter c
  | .openString openedOn => .openString (f.line openedOn)

def LexicalError.move (e : LexicalError) : LexicalError where
  fault := e.fault.move f
  span := f.span e.span
  line := f.line e.line

def Diagnostic.move (d : Diagnostic) : Diagnostic :=
  { d with line := f.line d.line, span := f.span d.span }

@[simp]
theorem Token.kind_move (t : Token) : (t.move f).kind = t.kind := rfl

@[simp]
theorem Token.lexeme_move (t : Token) : (t.move f).lexeme = t.lexeme := rfl

end Moves

section Places

variable (p : Position)

theorem Position.after_comm (s t : List Char) : (p.after s).after t = (p.after t).after s := by
  simp [Position.after, Nat.add_right_comm]

theorem placedPieces_append (xs ys : List Piece) :
    placedPieces p (xs ++ ys) =
      placedPieces p xs ++ placedPieces (p.after (xs.flatMap Piece.text)) ys := by
  induction xs generalizing p with
  | nil => simp [placedPieces]
  | cons x xs ih => simp [placedPieces, ih]

theorem placedPieces_after (text : List Char) (ps : List Piece) :
    placedPieces (p.after text) ps =
      (placedPieces p ps).map fun x => (x.1.after text, x.2) := by
  induction ps generalizing p with
  | nil => rfl
  | cons piece ps ih => rw [placedPieces, placedPieces, List.map_cons, p.after_comm, ih]

theorem map_snd_placedPieces (ps : List Piece) : (placedPieces p ps).map Prod.snd = ps := by
  induction ps generalizing p with
  | nil => rfl
  | cons piece ps ih => rw [placedPieces, List.map_cons, ih]

theorem lexemeToken_pastLine (a : String) (kind : TokenKind) (text : List Char) :
    lexemeToken (p.after (a.toList ++ ['\n'])) kind text =
      (lexemeToken p kind text).move (.pastLine a) := by
  simp [lexemeToken, Token.move, Move.pastLine, Move.down, Position.after, Nat.add_right_comm,
    String.length_toList]

theorem eofToken_pastLine (a : String) :
    eofToken (p.after (a.toList ++ ['\n'])) = (eofToken p).move (.pastLine a) := by
  simp [eofToken, Token.move, Move.pastLine, Move.down, Position.after, Span.empty,
    String.length_toList]

theorem pieceToken?_pastLine (a : String) (piece : Piece) :
    pieceToken? (p.after (a.toList ++ ['\n']), piece) =
      (pieceToken? (p, piece)).map (Token.move (.pastLine a)) := by
  cases piece with
  | lexeme kind text => exact congrArg some (lexemeToken_pastLine p a kind text)
  | blank _ | comment _ | stray _ | openString _ => rfl

theorem pieceError?_pastLine (a : String) (piece : Piece) :
    pieceError? (p.after (a.toList ++ ['\n']), piece) =
      (pieceError? (p, piece)).map (LexicalError.move (.pastLine a)) := by
  cases piece with
  | stray c | openString text =>
    simp [pieceError?, LexicalError.move, LexicalFault.move, Move.pastLine, Move.down,
      Position.after, Span.single, Nat.add_right_comm, String.length_toList]
  | blank _ | comment _ | lexeme _ _ => rfl

end Places

section Scans

variable {a : String}

theorem openString_not_mem_pieces
    (h : ∀ e ∈ (scan a).errors, ∀ openedOn, e.fault ≠ .openString openedOn) (text : List Char) :
    .openString text ∉ pieces a.toList := by
  intro ht
  rw [← map_snd_placedPieces Position.start (pieces a.toList)] at ht
  obtain ⟨⟨p, piece⟩, hx, rfl⟩ := List.mem_map.mp ht
  exact h _ (List.mem_filterMap.mpr ⟨_, hx, rfl⟩) _ rfl

theorem exists_lexeme_of_mem_dropLast {t : Token} (h : t ∈ (scan a).tokens.dropLast) :
    ∃ pos kind text, IsLexeme kind text ∧ t = lexemeToken pos kind text := by
  rw [scan, List.dropLast_concat] at h
  obtain ⟨⟨pos, p⟩, hx, ht⟩ := List.mem_filterMap.mp h
  have hp : p ∈ pieces a.toList := by
    rw [← map_snd_placedPieces .start (pieces a.toList)]
    exact List.mem_map.mpr ⟨_, hx, rfl⟩
  obtain ⟨rest, hclass⟩ := (split_pieces a.toList).belongs_of_mem hp
  cases p with
  | lexeme kind text =>
    cases ht
    exact ⟨pos, kind, text, hclass, rfl⟩
  | blank _ | comment _ | stray _ | openString _ => cases ht

theorem kind_ne_eof_of_mem_dropLast {t : Token}
    (h : t ∈ (scan a).tokens.dropLast) : t.kind ≠ .eof := by
  obtain ⟨pos, kind, text, hlexeme, rfl⟩ := exists_lexeme_of_mem_dropLast h
  exact hlexeme.kind_ne_eof

theorem tokens_scan_eq (source : String) :
    (scan source).tokens =
      (scan source).tokens.dropLast ++ [eofToken (Position.start.after source.toList)] := by
  rw [scan, List.dropLast_concat]

theorem filter_tokens_scan (source : String) :
    (scan source).tokens.filter (·.kind ≠ .eof) = (scan source).tokens.dropLast := by
  have hlexemes : ∀ t ∈ (scan source).tokens.dropLast, decide (t.kind ≠ .eof) = true := fun t ht =>
    decide_eq_true (kind_ne_eof_of_mem_dropLast ht)
  conv => lhs; rw [tokens_scan_eq]
  rw [List.filter_append, List.filter_eq_self.mpr hlexemes]
  simp [eofToken]

theorem toList_line (a b : String) : (a ++ "\n" ++ b).toList = a.toList ++ '\n' :: b.toList := by
  simp

/-- What is read off the pieces of two texts joined at a line end, if it moves with the pieces. -/
theorem filterMap_placedPieces_line {α : Type} {view : Position × Piece → Option α}
    {move : α → α} (h : ∀ text, .openString text ∉ pieces a.toList)
    (hblank : ∀ p, view (p, .blank '\n') = none)
    (hmove : ∀ p piece, view (p.after (a.toList ++ ['\n']), piece) = (view (p, piece)).map move)
    (b : String) :
    (placedPieces .start (pieces (a ++ "\n" ++ b).toList)).filterMap view =
      (placedPieces .start (pieces a.toList)).filterMap view ++
        ((placedPieces .start (pieces b.toList)).filterMap view).map move := by
  have hsecond : (Position.start.after a.toList).after (Piece.blank '\n').text =
      Position.start.after (a.toList ++ ['\n']) := (Position.after_append _ _ _).symm
  have hview : (fun x : Position × Piece => view (x.1.after (a.toList ++ ['\n']), x.2)) =
      fun x => (view x).map move := funext fun x => hmove x.1 x.2
  rw [toList_line, pieces_append_line _ _ h, placedPieces_append, flatMap_text_pieces, placedPieces,
    hsecond, placedPieces_after, List.filterMap_append, List.filterMap_cons_none (hblank _),
    List.filterMap_map, List.map_filterMap]
  exact congrArg _ (congrArg (List.filterMap · _) hview)

/-- Without an open string in front of a line end, the tokens of the whole text are those of its two
parts, the second part being moved. -/
theorem tokens_scan_line (h : ∀ text, .openString text ∉ pieces a.toList) (b : String) :
    (scan (a ++ "\n" ++ b)).tokens =
      (scan a).tokens.dropLast ++ (scan b).tokens.map (Token.move (.pastLine a)) := by
  have hlexemes := filterMap_placedPieces_line h (fun _ => rfl)
    (fun p piece => pieceToken?_pastLine p a piece) b
  have hend : Position.start.after (a ++ "\n" ++ b).toList =
      (Position.start.after b.toList).after (a.toList ++ ['\n']) := by
    rw [Position.after_comm, ← Position.after_append, toList_line, List.append_assoc,
      List.singleton_append]
  rw [scan, hlexemes, hend, eofToken_pastLine, scan, List.dropLast_concat, scan, List.map_append,
    List.append_assoc]
  rfl

theorem errors_scan_line (h : ∀ text, .openString text ∉ pieces a.toList) (b : String) :
    (scan (a ++ "\n" ++ b)).errors =
      (scan a).errors ++ (scan b).errors.map (LexicalError.move (.pastLine a)) :=
  filterMap_placedPieces_line h (fun _ => rfl) (fun p piece => pieceError?_pastLine p a piece) b

/-- Texts that are joined at a line end are scanned one by one. The second one lies lower by the
lines of the first one and the line end, also where an error says on which line a string was
opened. -/
theorem scan_joined_at_line (a b : String)
    (h : ∀ e ∈ (scan a).errors, ∀ openedOn, e.fault ≠ .openString openedOn) :
    let below := Move.down (a.toList.count '\n' + 1) (a.length + 1)
    scan (a ++ "\n" ++ b) =
        { tokens := (scan a).tokens.filter (·.kind ≠ .eof) ++
            (scan b).tokens.map (Token.move below)
          errors := (scan a).errors ++ (scan b).errors.map (LexicalError.move below) } ∧
      ∀ e : LexicalError, ∀ openedOn, e.fault = .openString openedOn →
        (e.move below).diagnostic.help =
          some ("The string opened on line " ++ toString (openedOn + (a.toList.count '\n' + 1)) ++
            " needs a closing '\"'.") := by
  intro below
  have hopen := openString_not_mem_pieces h
  have htokens := tokens_scan_line hopen b
  have herrors := errors_scan_line hopen b
  have hparts : scan (a ++ "\n" ++ b) =
      ⟨(scan (a ++ "\n" ++ b)).tokens, (scan (a ++ "\n" ++ b)).errors⟩ := rfl
  refine ⟨?_, fun e openedOn he => ?_⟩
  · rw [hparts, htokens, herrors, filter_tokens_scan]
    rfl
  · simp only [LexicalError.diagnostic, LexicalError.move, he]
    rfl

theorem scan_joined_at_line_open_string :
    let a := "1.\n@ !"
    let b := "= \n\"b"
    let below := Move.down (a.toList.count '\n' + 1) (a.length + 1)
    (∀ e ∈ (scan a).errors, ∀ openedOn, e.fault ≠ .openString openedOn) ∧
      scan (a ++ "\n" ++ b) =
        { tokens := (scan a).tokens.filter (·.kind ≠ .eof) ++
            (scan b).tokens.map (Token.move below)
          errors := (scan a).errors ++ (scan b).errors.map (LexicalError.move below) } ∧
      (scan (a ++ "\n" ++ b)).errors =
        [⟨.strayCharacter '@', ⟨3, 4⟩, 2⟩, ⟨.openString 4, ⟨10, 12⟩, 4⟩] := by
  intro a b below
  have h : ∀ e ∈ (scan a).errors, ∀ openedOn, e.fault ≠ .openString openedOn := by
    have herrors : (scan a).errors = [⟨.strayCharacter '@', ⟨3, 4⟩, 2⟩] := by decide +kernel
    simp [herrors]
  exact ⟨h, (scan_joined_at_line a b h).1, by decide +kernel⟩

end Scans

end Treewalk
