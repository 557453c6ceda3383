import Treewalk.Proofs.Lexing.Cursor.Steps
import Treewalk.Proofs.Lexing.FirstPiece

/-! The scanner reads a source piece by piece. A turn of its loop comes to an end behind the first
piece of the text that remains, with the token, the error and the event of that piece. -/

namespace Treewalk

section Effects

/-- Where the scanner stands. -/
def Scanner.place (s : Scanner) : Position := ⟨s.current, s.line⟩

def pieceEvent? : Position × Piece → Option Event
  | (p, .stray c) => some (.strayCharacter p.line c)
  | _ => none

/-- The scanner behind a piece that has been read where it stood. -/
def Scanner.behind (s : Scanner) (piece : Piece) : Scanner :=
  { s.reading piece.text with
    tokens := s.tokens ++ (pieceToken? (s.place, piece)).toList
    diagnostics :=
      s.diagnostics ++ ((pieceError? (s.place, piece)).map LexicalError.diagnostic).toList
    events := s.events ++ (pieceEvent? (s.place, piece)).toList }

variable {s : Scanner}

theorem Scanner.behind_blank (c : Char) : s.behind (.blank c) = s.reading [c] := by
  simp [Scanner.behind, Scanner.reading, pieceToken?, pieceError?, pieceEvent?, Piece.text]

theorem Scanner.behind_comment (text : List Char) : s.behind (.comment text) = s.reading text := by
  simp [Scanner.behind, Scanner.reading, pieceToken?, pieceError?, pieceEvent?, Piece.text]

theorem Scanner.behind_lexeme (kind : TokenKind) (text : List Char) :
    s.behind (.lexeme kind text) = (s.reading text).emit (lexemeToken s.place kind text) := by
  simp [Scanner.behind, Scanner.reading, Scanner.emit, pieceToken?, pieceError?, pieceEvent?,
    Piece.text]

theorem Scanner.behind_openString (text : List Char) :
    s.behind (.openString text) =
      (s.reading text).fail (.openString s.line) ⟨s.current, s.current + text.length⟩ := by
  simp [Scanner.behind, Scanner.reading, Scanner.fail, Scanner.complain, pieceToken?, pieceError?,
    pieceEvent?, Piece.text, Position.after, Scanner.place]

theorem Scanner.behind_stray {c : Char} (hc : c ≠ '\n') :
    s.behind (.stray c) =
      ((s.reading [c]).log (.strayCharacter s.line c)).fail (.strayCharacter c)
        (.single s.current) := by
  simp [Scanner.behind, Scanner.reading, Scanner.fail, Scanner.complain, Scanner.log, pieceToken?,
    pieceError?, pieceEvent?, Piece.text, Scanner.place, hc]

end Effects

section Lexemes

variable {source text cs rest : List Char} {c : Char} {s : Scanner}

theorem returns_lexeme (h : Remains source s.current (text ++ rest)) {kind : TokenKind}
    {literal : Option Value} (hliteral : lexemeLiteral kind text = literal) :
    Returns (addToken source kind literal) (s.reading text) () (s.behind (.lexeme kind text)) := by
  rw [Scanner.behind_lexeme, lexemeToken, hliteral]
  exact returns_addToken h kind literal

theorem settles_scanString (h : Remains source s.current ('"' :: cs)) :
    Settles (scanString source) (s.reading ['"']) () (s.behind (stringPiece cs)) := by
  have hread : Remains source s.current (['"'] ++ cs) := h
  obtain ⟨n, hn⟩ := settles_passStringBody hread
  refine ⟨n, fun clock hclock => (returns_get _).bind ((hn clock hclock).bind ?_)⟩
  rw [List.singleton_append]
  refine (returns_get _).bind ?_
  by_cases hmem : '"' ∈ cs
  · obtain ⟨body, rest, rfl, hquote⟩ := List.eq_append_cons_of_mem hmem
    have htake : (body ++ '"' :: rest).takeWhile (· != '"') = body := by
      simp [List.takeWhile_append_of_pos (bne_of_not_mem hquote)]
    have hopen : Remains source s.current (('"' :: body) ++ '"' :: rest) := h
    have hinside : Remains source (s.current + 1) (body ++ '"' :: rest) := hread.behind
    have hclosed : Remains source s.current (('"' :: body ++ ['"']) ++ rest) := by simpa using h
    have hpassed : 1 ≤ (s.reading ('"' :: body ++ ['"'])).current := Nat.le_add_left 1 _
    have hstop : (s.reading ('"' :: body ++ ['"'])).current - 1 = s.current + 1 + body.length := by
      simp only [Scanner.reading, List.length_append, List.length_cons, List.length_nil]
      omega
    have hslice := returns_sliceText hinside (s.reading ('"' :: body ++ ['"']))
    rw [htake, Scanner.atEnd_reading hopen, stringPiece_of_closed hquote]
    refine (returns_nextChar_reading hopen (by decide)).bind ((returns_get _).bind ?_)
    refine (returns_difference hpassed _).bind ?_
    rw [hstop]
    exact hslice.bind (returns_lexeme hclosed (by simp [lexemeLiteral, stringLiteral]))
  · have htake : cs.takeWhile (· != '"') = cs :=
      List.takeWhile_eq_self_iff.mpr (bne_of_not_mem hmem)
    have hend : Remains source s.current (('"' :: cs) ++ []) := by simpa using h
    rw [htake, Scanner.atEnd_reading hend, stringPiece_of_open hmem, Scanner.behind_openString]
    exact (returns_modify _ _).bind (returns_pure () _)

theorem fractionPart_cases (cs : List Char) :
    (∃ d ds, cs = '.' :: d :: ds ∧ d.isDigit = true ∧
      fractionPart cs = '.' :: (d :: ds).takeWhile Char.isDigit) ∨
    (fractionPart cs = [] ∧
      (cs.head?.getD '\x00' == '.' && (cs[1]?.getD '\x00').isDigit) = false) := by
  have hnul : ('\x00').isDigit = false := by decide
  match cs with
  | [] => exact .inr ⟨rfl, by decide⟩
  | [c] => exact .inr ⟨by simp [fractionPart], by simp [hnul]⟩
  | c :: d :: ds =>
    by_cases hpoint : c = '.'
    · subst hpoint
      by_cases hdigit : d.isDigit = true
      · exact .inl ⟨d, ds, rfl, hdigit, by simp [fractionPart, hdigit]⟩
      · exact .inr ⟨by simp [fractionPart, hdigit], by simp [hdigit]⟩
    · exact .inr ⟨by simp [fractionPart, hpoint], by simp [hpoint]⟩

theorem settles_passNumber (h : Remains source s.current (c :: cs)) :
    Settles (passNumber source) (s.reading [c]) () (s.reading (c :: numberTail cs)) := by
  have hnul : ('\x00').isDigit = false := by decide
  have hline : ('\n').isDigit = false := by decide
  let digits := c :: cs.takeWhile Char.isDigit
  have hread : Remains source s.current ([c] ++ cs) := h
  have hwhole : Settles (passWhile source Char.isDigit) (s.reading [c]) () (s.reading digits) :=
    settles_passWhile hnul hline hread
  have hrest : Remains source s.current (digits ++ cs.dropWhile Char.isDigit) := by
    simpa [digits] using h
  obtain ⟨n, hn⟩ := hwhole
  rcases fractionPart_cases (cs.dropWhile Char.isDigit) with
    ⟨d, ds, hcs, hdigit, hpart⟩ | ⟨hpart, hno⟩
  · rw [hcs] at hrest
    have hpoint : Remains source s.current ((digits ++ ['.']) ++ d :: ds) := by simpa using hrest
    obtain ⟨n', hn'⟩ := settles_passWhile hnul hline hpoint
    refine ⟨max n n', fun clock hclock => (hn clock (by omega)).bind ((returns_get _).bind ?_)⟩
    rw [Scanner.peek_reading hrest, Scanner.peekNext_reading hrest]
    have hnumber : c :: numberTail cs = digits ++ ['.'] ++ (d :: ds).takeWhile Char.isDigit := by
      simp [numberTail, hpart, digits]
    rw [hnumber]
    simp only [List.head?_cons, Option.getD_some, List.getElem?_cons_succ, List.getElem?_cons_zero,
      hdigit, beq_self_eq_true, Bool.and_self, if_true]
    exact (returns_nextChar_reading hrest (by decide)).bind (hn' clock (by omega))
  · refine ⟨n, fun clock hclock => (hn clock hclock).bind ((returns_get _).bind ?_)⟩
    rw [Scanner.peek_reading hrest, Scanner.peekNext_reading hrest, hno]
    have hnumber : c :: numberTail cs = digits := by simp [numberTail, hpart, digits]
    rw [hnumber]
    exact returns_pure () _

theorem dropWhile_numberTail (hc : c.isDigit = true) (cs : List Char) :
    (c :: numberTail cs).dropWhile Char.isDigit = fractionPart (cs.dropWhile Char.isDigit) := by
  have hdigits := isDigit_of_mem_digits hc cs
  have hpoint : ('.').isDigit = false := by decide
  rw [numberTail, ← List.cons_append, List.dropWhile_append_of_pos hdigits]
  rcases fractionPart_cases (cs.dropWhile Char.isDigit) with ⟨d, ds, -, -, hpart⟩ | ⟨hpart, -⟩
  · rw [hpart, List.dropWhile_cons_of_neg (by simp [hpoint])]
  · rw [hpart, List.dropWhile_nil]

/-- The text of a number is always read. -/
theorem readNumber?_numberTail (hc : c.isDigit = true) (cs : List Char) :
    ∃ x, readNumber? (String.ofList (c :: numberTail cs)) = some x ∧
      numberLiteral (c :: numberTail cs) = .number x := by
  have hdrop := dropWhile_numberTail hc cs
  rw [readNumber?, numberLiteral, String.toList_ofList, hdrop]
  rcases fractionPart_cases (cs.dropWhile Char.isDigit) with ⟨d, ds, -, -, hpart⟩ | ⟨hpart, -⟩
  · rw [hpart]
    exact ⟨_, by simp [hc], rfl⟩
  · rw [hpart]
    exact ⟨_, by simp [hc], rfl⟩

theorem settles_scanNumber (hc : c.isDigit = true) (h : Remains source s.current (c :: cs)) :
    Settles (scanNumber source) (s.reading [c]) ()
      (s.behind (.lexeme .number (c :: numberTail cs))) := by
  obtain ⟨rest, hrest⟩ := numberTail_prefix cs
  have hnumber : Remains source s.current ((c :: numberTail cs) ++ rest) := by
    simpa [hrest] using h
  obtain ⟨x, hx, hliteral⟩ := readNumber?_numberTail hc cs
  obtain ⟨n, hn⟩ := settles_passNumber h
  refine ⟨n, fun clock hclock => (hn clock hclock).bind ((returns_get _).bind ?_)⟩
  refine (returns_sliceText hnumber _).bind ?_
  rw [hx]
  exact returns_lexeme hnumber (by rw [lexemeLiteral, hliteral])

theorem lexemeLiteral_wordKind (word text : List Char) :
    lexemeLiteral (wordKind word) text = none := by
  rw [wordKind]
  cases hl : keywords.lookup (String.ofList word) with
  | none => rfl
  | some kind =>
    have hall : ∀ e ∈ keywords, lexemeLiteral e.2 text = none := by
      simp [keywords, lexemeLiteral]
    obtain ⟨before, after, hk, -⟩ := List.lookup_eq_some_iff.mp hl
    exact hall (String.ofList word, kind) (by simp [hk])

theorem settles_scanWord (h : Remains source s.current (c :: cs)) :
    let word := c :: cs.takeWhile continuesName
    Settles (scanWord source) (s.reading [c]) () (s.behind (.lexeme (wordKind word) word)) := by
  intro word
  have hnul : continuesName '\x00' = false := by decide
  have hline : continuesName '\n' = false := by decide
  have hword : Remains source s.current (word ++ cs.dropWhile continuesName) := by
    simpa [word] using h
  have hread : Remains source s.current ([c] ++ cs) := h
  obtain ⟨n, hn⟩ := settles_passWhile hnul hline hread
  refine ⟨n, fun clock hclock => (hn clock hclock).bind ((returns_get _).bind ?_)⟩
  exact (returns_sliceText hword _).bind (returns_lexeme hword (lexemeLiteral_wordKind _ _))

end Lexemes

section Operators

variable {cs : List Char} {c : Char}

theorem firstPiece_of_plainOperator? {kind : TokenKind} (h : plainOperator? c = some kind)
    (cs : List Char) :
    firstPiece c cs = .lexeme kind [c] ∧ lexemeLiteral kind [c] = none := by
  unfold plainOperator? at h
  split at h <;> cases h <;> exact ⟨firstPiece_of_operatorPiece? rfl, rfl⟩

theorem firstPiece_of_pairedOperator? {alone paired : TokenKind}
    (h : pairedOperator? c = some (alone, paired)) (cs : List Char) :
    firstPiece c ('=' :: cs) = .lexeme paired [c, '='] ∧ lexemeLiteral paired [c, '='] = none ∧
      (cs.head? ≠ some '=' → firstPiece c cs = .lexeme alone [c]) ∧
      lexemeLiteral alone [c] = none := by
  unfold pairedOperator? at h
  split at h <;> cases h <;> refine ⟨firstPiece_of_operatorPiece? rfl, rfl, fun hcs => ?_, rfl⟩
  all_goals
    refine firstPiece_of_operatorPiece? ?_
    cases cs with
    | nil => rfl
    | cons d cs => simp_all [operatorPiece?, operatorEqualKind?, operatorKind?]

theorem firstPiece_slash (h : cs.head? ≠ some '/') : firstPiece '/' cs = .lexeme .slash ['/'] := by
  refine firstPiece_of_operatorPiece? ?_
  simp [operatorPiece?, operatorEqualKind?, operatorKind?, h]

theorem operatorKind?_eq_none (hplain : plainOperator? c = none)
    (hpaired : pairedOperator? c = none) (hslash : c ≠ '/') : operatorKind? c = none := by
  cases hk : operatorKind? c with
  | none => rfl
  | some kind =>
    unfold operatorKind? at hk
    split at hk <;> simp_all [plainOperator?, pairedOperator?]

end Operators

section Pieces

variable {source cs : List Char} {c : Char} {s : Scanner}

theorem settles_slash (h : Remains source s.current ('/' :: cs)) :
    Settles (fun clock => scanOther source clock '/') (s.reading ['/']) ()
      (s.behind (firstPiece '/' cs)) := by
  have hread : Remains source s.current (['/'] ++ cs) := h
  by_cases hslash : cs.head? = some '/'
  · obtain ⟨cs, rfl⟩ := List.head?_eq_some_iff.mp hslash
    have hcomment : Remains source s.current (['/', '/'] ++ cs) := h
    obtain ⟨n, hn⟩ := settles_passComment hcomment
    rw [firstPiece_of_operatorPiece? (operatorPiece?_comment cs), Scanner.behind_comment]
    exact ⟨n, fun clock hclock => (returns_matchChar hread (by decide)).bind (hn clock hclock)⟩
  · rw [firstPiece_slash hslash]
    exact ⟨0, fun _ _ => (returns_matchChar_other hread hslash).bind (returns_lexeme hread rfl)⟩

theorem returns_tellStray (hc : c ≠ '\n') :
    Returns (tellStray c) (s.reading [c]) () (s.behind (.stray c)) := by
  have hline : (s.reading [c]).line = s.line := by simp [Scanner.reading, hc]
  rw [Scanner.behind_stray hc, ← hline]
  exact (returns_modify _ _).bind (returns_modify _ _)

theorem settles_scanOther (h : Remains source s.current (c :: cs)) (hc : c ≠ '\n')
    (hplain : plainOperator? c = none) (hpaired : pairedOperator? c = none) :
    Settles (fun clock => scanOther source clock c) (s.reading [c]) ()
      (s.behind (firstPiece c cs)) := by
  by_cases hslash : c = '/'
  · subst hslash
    exact settles_slash h
  have hop := operatorKind?_eq_none hplain hpaired hslash
  simp only [scanOther, if_neg hslash, if_neg hc]
  by_cases hblank : c = ' ' ∨ c = '\r' ∨ c = '\t'
  · have hsep : separates c = true := by
      rcases hblank with rfl | rfl | rfl <;> rfl
    rw [firstPiece_of_separates hsep, Scanner.behind_blank]
    simp only [if_pos hblank]
    exact (returns_pure () _).settles
  have hsep : ¬ separates c = true := fun hsep => by
    rcases separates_iff.mp hsep with hspace | htab | hreturn | hline
    · exact hblank (.inl hspace)
    · exact hblank (.inr (.inr htab))
    · exact hblank (.inr (.inl hreturn))
    · exact hc hline
  simp only [if_neg hblank]
  by_cases hquote : c = '"'
  · subst hquote
    rw [firstPiece_quote]
    exact settles_scanString h
  simp only [if_neg hquote]
  by_cases hdigit : c.isDigit = true
  · rw [firstPiece_of_isDigit hdigit]
    simp only [if_pos hdigit]
    exact settles_scanNumber hdigit h
  simp only [if_neg hdigit]
  by_cases hname : startsName c = true
  · rw [firstPiece_of_startsName hname]
    simp only [if_pos hname]
    exact settles_scanWord h
  rw [firstPiece_of_no_start hsep hquote hop hdigit hname]
  simp only [if_neg hname]
  exact (returns_tellStray hc).settles

theorem settles_scanBehind (h : Remains source s.current (c :: cs)) (hc : c ≠ '\n') :
    Settles (fun clock => scanBehind source clock c) (s.reading [c]) ()
      (s.behind (firstPiece c cs)) := by
  have hread : Remains source s.current ([c] ++ cs) := h
  cases hplain : plainOperator? c with
  | some kind =>
    obtain ⟨hpiece, hliteral⟩ := firstPiece_of_plainOperator? hplain cs
    simp only [scanBehind, hplain, hpiece]
    exact (returns_lexeme hread hliteral).settles
  | none =>
    cases hpaired : pairedOperator? c with
    | some pair =>
      obtain ⟨alone, paired⟩ := pair
      simp only [scanBehind, hplain, hpaired]
      by_cases hequal : cs.head? = some '='
      · obtain ⟨cs, rfl⟩ := List.head?_eq_some_iff.mp hequal
        obtain ⟨hpiece, hliteral, -, -⟩ := firstPiece_of_pairedOperator? hpaired cs
        have hboth : Remains source s.current ([c, '='] ++ cs) := h
        rw [hpiece]
        exact ((returns_matchChar hread (by decide)).bind (returns_lexeme hboth hliteral)).settles
      · obtain ⟨-, -, hpiece, hliteral⟩ := firstPiece_of_pairedOperator? hpaired cs
        rw [hpiece hequal]
        exact ((returns_matchChar_other hread hequal).bind
          (returns_lexeme hread hliteral)).settles
    | none =>
      simp only [scanBehind, hplain, hpaired]
      exact settles_scanOther h hc hplain hpaired

/-- A turn of the loop reads the first piece of what remains. -/
theorem settles_scanPiece (h : Remains source s.current (c :: cs)) :
    Settles (scanPiece source) s () (s.behind (firstPiece c cs)) := by
  have hread : Remains source s.current ([] ++ c :: cs) := h
  have hbegin : Returns (modify fun s : Scanner => { s with start := s.current }) s ()
      (s.reading []) := returns_modify _ s
  by_cases hc : c = '\n'
  · subst hc
    have hline : ∀ clock, scanBehind source clock '\n' =
        modify fun s => { s with line := s.line + 1 } := fun _ => rfl
    rw [firstPiece_of_separates rfl, Scanner.behind_blank,
      ← List.nil_append ['\n'], ← Scanner.reading_append_lineEnd]
    have hnext : source[(s.reading []).current]? = some '\n' := h.getElem?_eq 0
    exact ⟨0, fun _ _ => hbegin.bind ((returns_nextChar hnext).bind (returns_modify _ _))⟩
  · obtain ⟨n, hn⟩ := settles_scanBehind h hc
    refine ⟨n, fun clock hclock => hbegin.bind ?_⟩
    exact (returns_nextChar_reading hread hc).bind (hn clock hclock)

end Pieces

section Sources

variable {source : List Char}

theorem settles_scanPieces {s : Scanner} {rest : List Char} (h : Remains source s.current rest) :
    Settles (repeatWhile (fun s => !s.atEnd source) (scanPiece source)) s ()
      ((pieces rest).foldl Scanner.behind s) := by
  have hread : Remains source s.current ([] ++ rest) := h
  have hend : s.atEnd source = rest.isEmpty := Scanner.atEnd_reading hread
  match rest with
  | [] => exact settles_stop (by simp [hend])
  | c :: cs =>
    have hpos := List.length_pos_iff.mpr (firstPiece_text_ne_nil c cs)
    have hcut := firstPiece_text_append_drop c cs
    have hnext : Remains source (s.behind (firstPiece c cs)).current
        ((c :: cs).drop (firstPiece c cs).text.length) := by
      rw [← hcut] at h
      exact h.behind
    rw [pieces_cons, List.foldl_cons]
    exact Settles.turn (by simp [hend]) (settles_scanPiece h) (settles_scanPieces hnext)
termination_by rest.length
decreasing_by
  simp only [List.length_drop, List.length_cons]
  omega

theorem Scanner.place_foldl_behind (ps : List Piece) (s : Scanner) :
    (ps.foldl Scanner.behind s).place = s.place.after (ps.flatMap Piece.text) := by
  induction ps generalizing s with
  | nil => exact s.place.after_nil.symm
  | cons p ps ih =>
    rw [List.foldl_cons, ih, List.flatMap_cons, Position.after_append]
    rfl

/-- What a turn adds for its piece, the whole loop adds for all pieces. -/
theorem Scanner.foldl_behind {α : Type} (found : Scanner → List α)
    (piece? : Position × Piece → Option α)
    (h : ∀ s p, found (s.behind p) = found s ++ (piece? (s.place, p)).toList) (ps : List Piece)
    (s : Scanner) :
    found (ps.foldl Scanner.behind s) = found s ++ (placedPieces s.place ps).filterMap piece? := by
  induction ps generalizing s with
  | nil => simp [placedPieces]
  | cons p ps ih =>
    have hplace : (s.behind p).place = s.place.after p.text := rfl
    rw [List.foldl_cons, ih, h, hplace, placedPieces, List.filterMap_cons, List.append_assoc]
    cases piece? (s.place, p) <;> rfl

theorem Scan.events_eq (source : String) :
    (scan source).events = (placedPieces .start (pieces source.toList)).filterMap pieceEvent? ++
      [.scanFinished (scan source).tokens.length (scan source).errors.length] := by
  rw [Scan.events]
  congr 1
  rw [scan, List.filterMap_filterMap]
  congr 1
  funext x
  obtain ⟨p, piece⟩ := x
  cases piece <;> rfl

/-- Scanning with a cursor comes to an end, is never broken off, and finds what the pieces of the
source tell: their tokens, errors and events. -/
theorem scanning_settles (source : String) :
    ∃ s, Settles (scanSource source.toList) .initial
        ((scan source).tokens, (scan source).errors.map LexicalError.diagnostic) s ∧
      s.events = (scan source).events := by
  let s := (pieces source.toList).foldl Scanner.behind .initial
  let s' := s.emit (eofToken s.place)
  have hplace : s.place = Position.start.after source.toList := by
    rw [Scanner.place_foldl_behind, flatMap_text_pieces]
    rfl
  have htokens : s'.tokens = (scan source).tokens := by
    have hfound : s.tokens = _ := Scanner.foldl_behind Scanner.tokens pieceToken? (fun _ _ => rfl)
      (pieces source.toList) .initial
    change s.tokens ++ [eofToken s.place] = _
    rw [hfound, hplace]
    rfl
  have hdiagnostics : s'.diagnostics = (scan source).errors.map LexicalError.diagnostic := by
    rw [scan, List.map_filterMap]
    exact Scanner.foldl_behind Scanner.diagnostics
      (fun x => (pieceError? x).map LexicalError.diagnostic) (fun _ _ => rfl) _ _
  have hevents : s'.events = (placedPieces .start (pieces source.toList)).filterMap pieceEvent? :=
    Scanner.foldl_behind Scanner.events pieceEvent? (fun _ _ => rfl) _ _
  have hsource : Remains source.toList Scanner.initial.current source.toList :=
    ⟨List.drop_zero, Nat.zero_le _⟩
  refine ⟨s'.log (.scanFinished s'.tokens.length s'.diagnostics.length), ?_, ?_⟩
  · obtain ⟨n, hn⟩ := settles_scanPieces hsource
    rw [← htokens, ← hdiagnostics]
    exact ⟨n, fun clock hclock => (hn clock hclock).bind ((returns_modify _ _).bind
      ((returns_modify _ _).bind ((returns_get _).bind (returns_pure _ _))))⟩
  · change s'.events ++ _ = _
    rw [Scan.events_eq, hevents, htokens, hdiagnostics, List.length_map]

end Sources

end Treewalk
