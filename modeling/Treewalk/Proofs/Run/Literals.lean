import Treewalk.Proofs.Grammar.Parsing
import Treewalk.Proofs.Lexing.Layout
import Treewalk.Proofs.Lexing.Numbers
import Treewalk.Proofs.Run.Output

/-! Literals. The text of a value, in quotes for a string, is scanned, parsed and evaluated to the
value itself. A negative number is the only one with two tokens, since its sign is an operator. -/

namespace Treewalk

section Texts

/-- The tokens of a text that begins at a position. -/
def tokensAt (pos : Position) (text : List Char) : List Token :=
  (placedPieces pos (pieces text)).filterMap pieceToken?

def errorsAt (pos : Position) (text : List Char) : List LexicalError :=
  (placedPieces pos (pieces text)).filterMap pieceError?

variable {pos : Position} {text next rest : List Char} {ts us : List Token}

/-- In front of the rest, the text is cut off as these tokens, without an error. -/
structure ScansAs (pos : Position) (text rest : List Char) (ts : List Token) : Prop where
  tokens_eq : tokensAt pos (text ++ rest) = ts ++ tokensAt (pos.after text) rest
  errors_eq : errorsAt pos (text ++ rest) = errorsAt (pos.after text) rest

theorem ScansAs.append (h : ScansAs pos text (next ++ rest) ts)
    (hnext : ScansAs (pos.after text) next rest us) :
    ScansAs pos (text ++ next) rest (ts ++ us) where
  tokens_eq := by
    rw [List.append_assoc, h.tokens_eq, hnext.tokens_eq, Position.after_append, List.append_assoc]
  errors_eq := by rw [List.append_assoc, h.errors_eq, hnext.errors_eq, Position.after_append]

theorem scansAs_of_pieces (p : Piece) (h : pieces (p.text ++ rest) = p :: pieces rest)
    (pos : Position) (herror : pieceError? (pos, p) = none) :
    ScansAs pos p.text rest (pieceToken? (pos, p)).toList where
  tokens_eq := by
    rw [tokensAt, h, placedPieces, List.filterMap_cons]
    cases pieceToken? (pos, p) <;> rfl
  errors_eq := by
    rw [errorsAt, h, placedPieces, List.filterMap_cons_none herror]
    rfl

theorem IsLexeme.scansAs {kind : TokenKind} (h : IsLexeme kind text) (pos : Position)
    (hend : ∀ x ∈ rest.head?, EndsLexeme x) : ScansAs pos text rest [lexemeToken pos kind text] :=
  scansAs_of_pieces (.lexeme kind text) (h.pieces_append hend) pos rfl

theorem IsSeparator.scansAs {c : Char} (hc : IsSeparator c) (pos : Position) (rest : List Char) :
    ScansAs pos [c] rest [] :=
  scansAs_of_pieces (.blank c) (pieces_separator hc rest) pos rfl

/-- The sign is cut off in front of anything, also where it does not end a lexeme. -/
theorem scansAs_minus (pos : Position) (rest : List Char) :
    ScansAs pos ['-'] rest [lexemeToken pos .minus ['-']] := by
  have hfirst : firstPiece '-' ([] ++ rest) = .lexeme .minus ['-'] :=
    firstPiece_of_operatorPiece? (by simp [operatorPiece?, operatorEqualKind?, operatorKind?])
  exact scansAs_of_pieces (.lexeme .minus ['-']) (pieces_append_of_firstPiece rfl hfirst) pos rfl

theorem endsLexeme_semicolon : EndsLexeme ';' :=
  ⟨by decide, by decide, by decide, by decide⟩

theorem isLexeme_of_mem_keywords {word : String} {kind : TokenKind} (h : (word, kind) ∈ keywords) :
    IsLexeme kind word.toList := by
  have hall : ∀ e ∈ keywords, pieces e.1.toList = [.lexeme e.2 e.1.toList] := by decide +kernel
  have hmem : .lexeme kind word.toList ∈ pieces word.toList := by simp [hall _ h]
  obtain ⟨_, hlexeme⟩ := (split_pieces word.toList).belongs_of_mem hmem
  exact hlexeme

theorem ScansAs.scan_eq {source : String} (h : ScansAs .start source.toList [] ts) :
    scan source = ⟨ts ++ [eofToken (Position.start.after source.toList)], []⟩ := by
  have htokens := h.tokens_eq
  have herrors := h.errors_eq
  rw [List.append_nil] at htokens herrors
  have hnone : tokensAt (Position.start.after source.toList) [] = [] := rfl
  rw [hnone, List.append_nil] at htokens
  have hscan : scan source = ⟨tokensAt .start source.toList ++
      [eofToken (Position.start.after source.toList)], errorsAt .start source.toList⟩ := rfl
  rw [hscan, htokens, herrors]
  rfl

end Texts

section Trees

/-- The values that can be written as literals: a number must be finite, and a string must not hold
a quote. -/
def Value.HasLiteral : Value → Prop
  | .number x => x.isFinite = true
  | .string s => '"' ∉ s.toList
  | .nil | .bool _ => True

instance : DecidablePred Value.HasLiteral
  | .number x => inferInstanceAs (Decidable (x.isFinite = true))
  | .string s => inferInstanceAs (Decidable ('"' ∉ s.toList))
  | .nil | .bool _ => inferInstanceAs (Decidable True)

variable {pos : Position} {rest : List Char}

/-- The tree stands for the value, whatever the variables are. -/
structure ExprTree.Denotes (e : ExprTree .unary) (v : Value) : Prop where
  nesting_le : e.expr.nesting ≤ 1
  eval_eq : ∀ env, e.expr.eval env = (.ok v, env)

def lexemeTerminal (pos : Position) (kind : TokenKind) (text : List Char) : Terminal kind :=
  ⟨lexemeToken pos kind text, rfl⟩

theorem Atom.exists_tree (a : Atom) {kind : TokenKind} {text : List Char} {v : Value}
    (ht : a.token = lexemeToken pos kind text) (he : a.expr = .literal v) (h : IsLexeme kind text)
    (hend : ∀ x ∈ rest.head?, EndsLexeme x) :
    ∃ e : ExprTree .unary, ScansAs pos text rest e.tokens ∧ e.Denotes v := by
  have htokens : (ExprTree.primary (.atom a)).tokens = [lexemeToken pos kind text] :=
    congrArg (fun t => [t]) ht
  have hexpr : (ExprTree.primary (.atom a)).expr = .literal v := he
  refine ⟨.primary (.atom a), ?_, ?_, fun env => ?_⟩
  · rw [htokens]
    exact h.scansAs pos hend
  · simp [hexpr, Expr.nesting]
  · rw [hexpr, Expr.eval]

theorem Decimal.exists_negation (d : Decimal) (pos : Position)
    (hend : ∀ x ∈ rest.head?, EndsLexeme x) :
    ∃ e : ExprTree .unary, ScansAs pos ('-' :: d.chars) rest e.tokens ∧
      e.Denotes (.number (-numberOfDecimal d)) := by
  -- A digit may follow the sign, so it is not cut off as other lexemes are.
  let digits := lexemeTerminal (pos.after ['-']) .number d.chars
  let e : ExprTree .unary :=
    .unary .negate (lexemeTerminal pos .minus ['-']) (.primary (.atom (.number digits)))
  have hexpr : e.expr =
      .unary .negate (lexemeToken pos .minus ['-']) (.literal (numberLiteral d.chars)) := rfl
  rw [d.numberLiteral_chars] at hexpr
  have hdigits := d.isLexeme_chars.scansAs (pos.after ['-']) hend
  refine ⟨e, (scansAs_minus pos _).append hdigits, ?_, fun env => ?_⟩
  · simp [hexpr, Expr.nesting]
  · rw [hexpr]
    rfl

theorem Value.literalText_number (x : Float) : (Value.number x).literalText = numberText x := rfl

/-- The text of a value is cut off as the tokens of a tree that stands for it. -/
theorem Value.HasLiteral.exists_tree {v : Value} (h : v.HasLiteral) (pos : Position)
    (hend : ∀ x ∈ rest.head?, EndsLexeme x) :
    ∃ e : ExprTree .unary, ScansAs pos v.literalText.toList rest e.tokens ∧ e.Denotes v := by
  cases v with
  | nil =>
    have hword : IsLexeme .nil ("nil" : String).toList := isLexeme_of_mem_keywords (by decide)
    exact (Atom.nil (lexemeTerminal pos _ _)).exists_tree rfl rfl hword hend
  | bool b =>
    cases b with
    | true =>
      have hword : IsLexeme .true ("true" : String).toList := isLexeme_of_mem_keywords (by decide)
      exact (Atom.true (lexemeTerminal pos _ _)).exists_tree rfl rfl hword hend
    | false =>
      have hword : IsLexeme .false ("false" : String).toList := isLexeme_of_mem_keywords (by decide)
      exact (Atom.false (lexemeTerminal pos _ _)).exists_tree rfl rfl hword hend
  | number x =>
    rw [Value.literalText_number]
    -- The sign is not part of the number: behind it there is a decimal that reads back as -x.
    obtain ⟨d, ⟨htext, rfl⟩ | ⟨htext, rfl⟩⟩ := exists_decimal_of_isFinite h
    · rw [htext]
      exact (Atom.number (lexemeTerminal pos _ _)).exists_tree rfl
        (congrArg Expr.literal d.numberLiteral_chars) d.isLexeme_chars hend
    · rw [htext]
      exact d.exists_negation pos hend
  | string s =>
    have htext : (Value.string s).literalText.toList = '"' :: (s.toList ++ ['"']) := by
      simp [Value.literalText]
    have hvalue : stringLiteral ('"' :: (s.toList ++ ['"'])) = .string s := by
      simp [stringLiteral]
    rw [htext]
    exact (Atom.string (lexemeTerminal pos _ _)).exists_tree rfl
      (congrArg Expr.literal hvalue) (.string h) hend

end Trees

section Runs

variable {v : Value}

theorem Sink.taken_of_fits {sink : Sink} {bytes : List UInt8}
    (h : ∀ room ∈ sink.room, bytes.length ≤ room) :
    (sink.writeBytes bytes).1 = true ∧
      (sink.after bytes).taken.toList = sink.taken.toList ++ bytes := by
  obtain ⟨_ | room, taken⟩ := sink
  · exact ⟨rfl, Sink.taken_writeBytes_unlimited rfl bytes⟩
  · have hle : bytes.length ≤ room := h room rfl
    refine ⟨(Sink.writeBytes_fits_iff rfl bytes).mpr hle, ?_⟩
    rw [Sink.after, Sink.taken_writeBytes_limited rfl, List.take_of_length_le hle]

/-- A statement that declares nothing twice parses as the tree that derives it says. -/
theorem parse_single (d : StmtTree) (pos : Position) (hn : d.stmt.nesting ≤ maxNesting)
    (hr : d.stmt.redeclared [] = []) :
    (parse (d.tokens ++ [eofToken pos])).statements = [d.stmt] ∧
      (parse (d.tokens ++ [eofToken pos])).diagnostics = [] := by
  have hlist : StmtTree.listTokens [d] = d.tokens := List.append_nil _
  have hnesting : Stmt.listNesting (StmtTree.listStmts [d]) ≤ maxNesting := by
    simpa [StmtTree.listStmts, Stmt.listNesting] using hn
  have hredeclared : Stmt.listRedeclared [] (StmtTree.listStmts [d]) = [] := by
    simpa [StmtTree.listStmts, Stmt.listRedeclared] using hr
  have hend : ∀ t ∈ [eofToken pos].head?, t.kind = .eof := by simp [eofToken]
  have hread := programReading_listTokens hnesting
  have htokens := takeWhile_listTokens [d] hend
  rw [hlist] at hread htokens
  rw [hredeclared] at hread
  simp only [Parse.diagnostics, parse, htokens, hread]
  exact ⟨rfl, rfl⟩

/-- A literal is followed by a semicolon, and may stand behind anything that is cut off from it. -/
theorem Value.HasLiteral.exists_scan (h : v.HasLiteral) (front : String) {ts : List Token}
    (hfront : ∀ rest, ScansAs .start front.toList rest ts) :
    ∃ (e : ExprTree .unary) (semicolon : Terminal .semicolon) (pos : Position), e.Denotes v ∧
      scan (front ++ v.literalText ++ ";") =
        ⟨ts ++ (e.tokens ++ [semicolon.val]) ++ [eofToken pos], []⟩ := by
  let before := Position.start.after front.toList
  let behind := before.after v.literalText.toList
  have hclosed : ∀ x ∈ ([';'] ++ []).head?, EndsLexeme x := by simpa using endsLexeme_semicolon
  have hsemicolon : IsLexeme .semicolon (";" : String).toList := .operator (by decide)
  obtain ⟨e, htext, he⟩ := h.exists_tree before hclosed
  have hlast : ScansAs behind [';'] [] [lexemeToken behind .semicolon [';']] :=
    hsemicolon.scansAs behind (by simp)
  have hsource : (front ++ v.literalText ++ ";").toList =
      front.toList ++ (v.literalText.toList ++ [';']) := by simp
  have hscans : ScansAs .start (front ++ v.literalText ++ ";").toList []
      (ts ++ (e.tokens ++ [lexemeToken behind .semicolon [';']])) := by
    rw [hsource]
    exact (hfront _).append (htext.append hlast)
  exact ⟨e, lexemeTerminal behind .semicolon [';'], _, he, hscans.scan_eq⟩

theorem scansAs_print (rest : List Char) :
    ScansAs .start ("print " : String).toList rest
      [lexemeToken .start .print ("print" : String).toList] := by
  have hword : IsLexeme .print ("print" : String).toList := isLexeme_of_mem_keywords (by decide)
  have hspace : EndsLexeme ' ' := endsLexeme_of_separates (by decide)
  have hblank : IsSeparator ' ' := separates_iff.mp (by decide)
  have hsplit : ("print " : String).toList = ("print" : String).toList ++ [' '] := by decide
  have hend : ∀ x ∈ ([' '] ++ rest).head?, EndsLexeme x := by simpa using hspace
  rw [hsplit]
  exact (hword.scansAs .start hend).append (hblank.scansAs _ rest)

theorem Value.HasLiteral.exists_expression (h : v.HasLiteral) :
    ∃ e : Expr, (scan (v.literalText ++ ";")).errors = [] ∧
      (parse (scan (v.literalText ++ ";")).tokens).diagnostics = [] ∧
      (parse (scan (v.literalText ++ ";")).tokens).statements = [.expression e] ∧
      ∀ env, e.eval env = (.ok v, env) := by
  have hempty : ∀ rest, ScansAs .start ("" : String).toList rest [] := fun _ => ⟨rfl, rfl⟩
  obtain ⟨e, semicolon, pos, he, hscan⟩ := h.exists_scan "" hempty
  rw [String.empty_append, List.nil_append] at hscan
  let d : StmtTree := .expression (.equality e.single) semicolon
  have htokens : d.tokens = e.tokens ++ [semicolon.val] :=
    congrArg (· ++ [semicolon.val]) e.tokens_single
  have hnesting : d.stmt.nesting ≤ maxNesting := Nat.le_trans he.nesting_le (by decide)
  obtain ⟨hstatements, hdiagnostics⟩ := parse_single d pos hnesting rfl
  rw [hscan, ← htokens]
  exact ⟨e.expr, rfl, hdiagnostics, hstatements, he.eval_eq⟩

theorem Value.HasLiteral.exists_print (h : v.HasLiteral) :
    ∃ (keyword : Token) (e : Expr), (scan ("print " ++ v.literalText ++ ";")).errors = [] ∧
      (parse (scan ("print " ++ v.literalText ++ ";")).tokens).diagnostics = [] ∧
      (parse (scan ("print " ++ v.literalText ++ ";")).tokens).statements = [.print keyword e] ∧
      ∀ env, e.eval env = (.ok v, env) := by
  obtain ⟨e, semicolon, pos, he, hscan⟩ := h.exists_scan "print " scansAs_print
  let keyword := lexemeTerminal .start .print ("print" : String).toList
  let d : StmtTree := .print keyword (.equality e.single) semicolon
  have htokens : d.tokens = [keyword.val] ++ (e.tokens ++ [semicolon.val]) :=
    congrArg (fun ts => keyword.val :: (ts ++ [semicolon.val])) e.tokens_single
  have hnesting : d.stmt.nesting ≤ maxNesting := Nat.le_trans he.nesting_le (by decide)
  obtain ⟨hstatements, hdiagnostics⟩ := parse_single d pos hnesting rfl
  have hkeyword : [lexemeToken .start .print ("print" : String).toList] = [keyword.val] := rfl
  rw [hscan, hkeyword, ← htokens]
  exact ⟨keyword.val, e.expr, rfl, hdiagnostics, hstatements, he.eval_eq⟩

/-- A program that prints one value and no more. -/
theorem Program.runIn_print {p : Program} {keyword : Token} {e : Expr} (h : p.diagnostics = [])
    (hstatements : p.parsed.statements = [.print keyword e]) (style : Style) {env : Environment}
    (he : e.eval env = (.ok v, env)) {sink : Sink}
    (hfits : (sink.writeBytes (lineBytes v.text)).1 = true) :
    let outcome := p.runIn ⟨style, false, false⟩ env sink
    outcome.status = .success ∧ outcome.sink = sink.after (lineBytes v.text) ∧
      outcome.diagnostics = [] := by
  intro outcome
  have hstart : p.start ⟨style, false, false⟩ env sink = .start env sink := rfl
  have heval : (Machine.start env sink).eval e = (.ok v, .start env sink) := by
    rw [Machine.eval, Machine.start, he]
  have hprint : (Machine.start env sink).print keyword v.text =
      (.ok (), (Machine.start env sink).withSink (sink.after (lineBytes v.text))) :=
    Machine.print_fits keyword hfits
  have hexec : Stmt.execAll p.parsed.statements (p.start ⟨style, false, false⟩ env sink) =
      (.ok (), (Machine.start env sink).withSink (sink.after (lineBytes v.text))) := by
    simp only [hstatements, hstart, Stmt.execAll, Stmt.exec, heval, hprint]
  obtain ⟨hstatus, -, hsink, hannounces⟩ := Program.runIn_executed h ⟨style, false, false⟩ env sink
  rw [hexec] at hstatus hsink hannounces
  exact ⟨hstatus, hsink, hannounces.diagnostics_eq⟩

/-- A value that has a literal is printed as itself, and is what its literal stands for. -/
theorem literal_reads_back (v : Value) (h : v.HasLiteral) :
    (∀ (filename : Option String) (style : Style) (sink : Sink),
      (∀ room ∈ sink.room, (utf8Bytes (v.text ++ "\n")).length ≤ room) →
        let outcome := run ("print " ++ v.literalText ++ ";") filename ⟨style, false, false⟩ sink
        outcome.status = .success ∧ outcome.diagnostics = [] ∧
          outcome.sink.taken.toList = sink.taken.toList ++ utf8Bytes (v.text ++ "\n")) ∧
      ∃ e : Expr, (scan (v.literalText ++ ";")).errors = [] ∧
        (parse (scan (v.literalText ++ ";")).tokens).diagnostics = [] ∧
        (parse (scan (v.literalText ++ ";")).tokens).statements = [.expression e] ∧
        ∀ env, e.eval env = (.ok v, env) := by
  refine ⟨fun filename style sink hroom => ?_, h.exists_expression⟩
  obtain ⟨keyword, e, herrors, hdiagnostics, hstatements, he⟩ := h.exists_print
  have hnone : (Program.ofSource ("print " ++ v.literalText ++ ";") filename).diagnostics = [] := by
    rw [Program.diagnostics, List.append_eq_nil_iff, List.map_eq_nil_iff]
    exact ⟨herrors, hdiagnostics⟩
  obtain ⟨hfits, htaken⟩ := Sink.taken_of_fits hroom
  obtain ⟨hstatus, hsink, htold⟩ :=
    Program.runIn_print hnone hstatements style (he .initial) hfits
  exact ⟨hstatus, htold, (congrArg (·.taken.toList) hsink).trans htaken⟩

theorem literal_reads_back_minus_zero :
    let v := Value.number (-Float.ofBits 0)
    let sink := Sink.ofLimit (some 3)
    v.HasLiteral ∧ v.text = "-0" ∧ v ≠ .number (Float.ofBits 0) ∧
      (∀ room ∈ sink.room, (utf8Bytes (v.text ++ "\n")).length ≤ room) ∧
      (run "print -0;" none ⟨.plain, false, false⟩ sink).status = .success ∧
      (run "print -0;" none ⟨.plain, false, false⟩ sink).sink.taken.toList = utf8Bytes "-0\n" ∧
      ∃ e : Expr, (parse (scan "-0;").tokens).statements = [.expression e] ∧
        ∀ env, e.eval env = (.ok v, env) := by
  intro v sink
  have h : v.HasLiteral := by decide +kernel
  have htext : v.text = "-0" := by decide +kernel
  have hliteral : v.literalText = "-0" := (Value.literalText_number _).trans htext
  have hne : v ≠ .number (Float.ofBits 0) := by decide +kernel
  have hroom : ∀ room ∈ sink.room, (utf8Bytes (v.text ++ "\n")).length ≤ room := by
    rw [htext]
    decide +kernel
  obtain ⟨hrun, e, -, -, hstatements, he⟩ := literal_reads_back v h
  obtain ⟨hstatus, -, htaken⟩ := hrun none .plain sink hroom
  have hprint : "print " ++ v.literalText ++ ";" = "print -0;" := by rw [hliteral]; decide
  have hexpression : v.literalText ++ ";" = "-0;" := by rw [hliteral]; decide
  have hbytes : sink.taken.toList ++ utf8Bytes (v.text ++ "\n") = utf8Bytes "-0\n" := by
    rw [htext]
    rfl
  rw [hprint] at hstatus htaken
  rw [hexpression] at hstatements
  rw [hbytes] at htaken
  exact ⟨h, htext, hne, hroom, hstatus, htaken, e, hstatements, he⟩

end Runs

end Treewalk
