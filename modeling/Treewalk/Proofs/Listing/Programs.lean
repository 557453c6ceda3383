import Treewalk.Proofs.Lexing.Numbers
import Treewalk.Proofs.Listing.Forms
import Treewalk.Proofs.Run.Layout

/-! A listing determines the program. The text of an atom is again a lexeme, and that lexeme is the
same atom, except that infinity is written as a name. So the forms in a listing can be read back, and
what is read is the program without its places. -/

namespace Treewalk

section Spelling

/-- The name that infinity is written as. -/
def infinityName : Token where
  kind := .identifier
  lexeme := "Infinity"
  literal := none
  line := 0
  span := .empty 0

/-- The expression with a name in the place of every infinite literal. -/
def Expr.spelled : Expr → Expr
  | .literal value => if value = .number infinity then .variable infinityName else .literal value
  | .grouping inner => .grouping inner.spelled
  | .unary op token operand => .unary op token operand.spelled
  | .binary op token left right => .binary op token left.spelled right.spelled
  | .variable name => .variable name
  | .assign name value => .assign name value.spelled

mutual

def Stmt.spelled : Stmt → Stmt
  | .expression expr => .expression expr.spelled
  | .print keyword expr => .print keyword expr.spelled
  | .var name initializer => .var name (initializer.map Expr.spelled)
  | .block body => .block (Stmt.listSpelled body)

def Stmt.listSpelled : List Stmt → List Stmt
  | [] => []
  | stmt :: rest => stmt.spelled :: Stmt.listSpelled rest

end

theorem Expr.text_spelled (expr : Expr) : expr.spelled.text = expr.text := by
  induction expr with
  | literal value =>
    rw [Expr.spelled]
    split
    · rename_i h
      rw [h]
      exact numberText_infinity.symm
    · rfl
  | grouping _ ih => rw [Expr.spelled, Expr.text, ih, Expr.text]
  | unary _ _ _ ih => rw [Expr.spelled, Expr.text, ih, Expr.text]
  | binary _ _ _ _ ihl ihr => rw [Expr.spelled, Expr.text, ihl, ihr, Expr.text]
  | «variable» _ => rfl
  | assign _ _ ih => rw [Expr.spelled, Expr.text, ih, Expr.text]

mutual

theorem Stmt.text_spelled : ∀ stmt : Stmt, stmt.spelled.text = stmt.text
  | .expression expr => by simp [Stmt.spelled, Stmt.text, expr.text_spelled]
  | .print _ expr => by simp [Stmt.spelled, Stmt.text, expr.text_spelled]
  | .var _ none => by simp [Stmt.spelled, Stmt.text]
  | .var _ (some initializer) => by simp [Stmt.spelled, Stmt.text, initializer.text_spelled]
  | .block body => by rw [Stmt.spelled, Stmt.text, Stmt.listText_spelled body, Stmt.text]

theorem Stmt.listText_spelled : ∀ body : List Stmt,
    Stmt.listText (Stmt.listSpelled body) = Stmt.listText body
  | [] => rfl
  | stmt :: rest => by
    rw [Stmt.listSpelled, Stmt.listText, stmt.text_spelled, Stmt.listText_spelled rest,
      Stmt.listText]

end

theorem Stmt.map_text_listSpelled (stmts : List Stmt) :
    (Stmt.listSpelled stmts).map Stmt.text = stmts.map Stmt.text := by
  induction stmts with
  | nil => rfl
  | cons stmt rest ih => rw [Stmt.listSpelled, List.map_cons, ih, stmt.text_spelled, List.map_cons]

end Spelling

section Tokens

/-- The first token of a text, at no place. -/
def firstToken? (text : List Char) : Option Token :=
  (pieces text).head?.bind Piece.token?

/-- The token has the class of its lexeme and the value that the lexeme denotes. -/
structure Token.Lexed (t : Token) : Prop where
  lexeme : IsLexeme t.kind t.lexeme.toList
  literal : t.literal = lexemeLiteral t.kind t.lexeme.toList

variable {t : Token}

theorem lexed_of_mem_scan {source : String} (h : t ∈ (scan source).tokens.dropLast) : t.Lexed := by
  obtain ⟨pos, kind, text, hlexeme, rfl⟩ := exists_lexeme_of_mem_dropLast h
  exact ⟨by simpa [lexemeToken] using hlexeme, by simp [lexemeToken]⟩

theorem Token.Lexed.firstToken? (h : t.Lexed) :
    firstToken? t.lexeme.toList = some (t.move .forget) := by
  obtain ⟨c, cs, hc⟩ := List.exists_cons_of_ne_nil h.lexeme.ne_nil
  have hlexeme := h.lexeme
  rw [hc] at hlexeme
  rw [Treewalk.firstToken?, hc, pieces_cons, firstPiece_of_isLexeme hlexeme, ← hc]
  simp [Piece.token?, Token.move, Move.forget, h.literal]

/-- Operators and keywords have one lexeme for each kind. -/
theorem IsLexeme.text_eq {kind : TokenKind} {text : List Char} {symbol : String}
    (h : IsLexeme kind text) (hk : (symbol, kind) ∈ operators ++ keywords) :
    text = symbol.toList := by
  rcases List.mem_append.mp hk with hk | hk
  · cases h with
    | operator h =>
      have hall : ∀ e ∈ operators, ∀ e' ∈ operators, e.2 = e'.2 → e.1 = e'.1 := by decide
      exact congrArg String.toList (hall _ h _ hk rfl)
    | keyword _ _ h =>
      have hall : ∀ e ∈ operators, ∀ e' ∈ keywords, e.2 ≠ e'.2 := by decide
      exact (hall _ hk _ h rfl).elim
    | string _ | integer _ _ | fraction _ _ _ _ | identifier _ _ _ => simp [operators] at hk
  · exact (h.kind_eq_iff hk).mp rfl

theorem delimits_of_continuesName {c : Char} (h : continuesName c = true) : delimits c = false := by
  by_contra hd
  have hcases : ((c = ' ' ∨ c = '(') ∨ c = ')') ∨ c = '"' := by
    simpa only [delimits, Bool.not_eq_false, Bool.or_eq_true, beq_iff_eq] using hd
  rcases hcases with ((rfl | rfl) | rfl) | rfl <;> exact absurd h (by decide)

/-- Only parentheses and strings hold what delimits a word. -/
theorem IsLexeme.not_delimits {kind : TokenKind} {text : List Char} (h : IsLexeme kind text)
    (hstring : kind ≠ .string) (hleft : kind ≠ .leftParen) (hright : kind ≠ .rightParen) :
    text.any delimits = false := by
  have hname : ∀ {cs : List Char}, (∀ c ∈ cs, continuesName c = true) → cs.any delimits = false :=
    fun hcs => List.any_eq_false.mpr fun c hc => by simp [delimits_of_continuesName (hcs c hc)]
  have hdigits : ∀ {cs : List Char}, (∀ c ∈ cs, c.isDigit = true) → cs.any delimits = false :=
    fun hcs => hname fun c hc => continuesName_of_isDigit (hcs c hc)
  cases h with
  | operator h =>
    have hall : ∀ e ∈ operators, e.2 ≠ .leftParen → e.2 ≠ .rightParen →
        e.1.toList.any delimits = false := by decide
    exact hall _ h hleft hright
  | string _ => exact absurd rfl hstring
  | integer _ h => exact hdigits h
  | fraction _ hw _ hf =>
    rw [List.any_append, List.any_cons, hdigits hw, hdigits hf]
    rfl
  | keyword hc hcs _ | identifier hc hcs _ =>
    rw [List.any_cons, delimits_of_continuesName (continuesName_of_startsName hc), hname hcs]
    rfl

theorem IsLexeme.exists_body {kind : TokenKind} {text : List Char} (h : IsLexeme kind text)
    (hkind : kind = .string) : ∃ body, '"' ∉ body ∧ text = '"' :: (body ++ ['"']) := by
  cases h with
  | @string body h => exact ⟨body, h, rfl⟩
  | operator h =>
    have hall : ∀ e ∈ operators, e.2 ≠ .string := by decide
    exact (hall _ h hkind).elim
  | keyword _ _ h =>
    have hall : ∀ e ∈ keywords, e.2 ≠ .string := by decide
    exact (hall _ h hkind).elim
  | integer _ _ | fraction _ _ _ _ | identifier _ _ _ => cases hkind

theorem Token.Lexed.lexeme_eq (h : t.Lexed) (symbol : String)
    (hk : (symbol, t.kind) ∈ operators ++ keywords) : t.lexeme = symbol :=
  String.toList_injective (h.lexeme.text_eq hk)

theorem Token.Lexed.exists_head (h : t.Lexed) (symbol : String)
    (hk : (symbol, t.kind) ∈ operators ++ keywords)
    (hplain : symbol.toList.any delimits = false) :
    ∃ head : Word, head.chars = symbol.toList ∧
      Treewalk.firstToken? head.chars = some (t.move .forget) := by
  have hlexeme := h.lexeme_eq symbol hk
  exact ⟨⟨symbol.toList, hlexeme ▸ h.lexeme.ne_nil, hplain⟩, rfl, hlexeme ▸ h.firstToken?⟩

end Tokens

section Readers

def binaryOp? (kind : TokenKind) : Option BinaryOp :=
  equalityOp? kind <|> comparisonOp? kind <|> termOp? kind <|> factorOp? kind

/-- The expression that a head makes of its parts. -/
def headExpr? (token : Token) : List Expr → Option Expr
  | [operand] => some ((unaryOp? token.kind).elim (.grouping operand) (.unary · token operand))
  | [.variable name, right] =>
    some ((binaryOp? token.kind).elim (.assign name right) (.binary · token (.variable name) right))
  | [left, right] => (binaryOp? token.kind).map (.binary · token left right)
  | _ => none

/-- The statement that a keyword or a semicolon makes of its parts. -/
def headStmt? (token : Token) (exprs : List Expr) : Option Stmt :=
  match token.kind, exprs with
  | .semicolon, [expr] => some (.expression expr)
  | .print, [expr] => some (.print token expr)
  | .var, [.variable name] => some (.var name none)
  | .var, [.variable name, expr] => some (.var name (some expr))
  | _, _ => none

mutual

/-- The expression that a form is listed for, at no place. -/
def Form.expr? : Form → Option Expr
  | .word w => firstToken? w.chars >>= atom?
  | .quotation q => firstToken? (Form.quotation q).chars >>= atom?
  | .node head parts => do
    let token ← firstToken? head.chars
    let exprs ← Form.exprs? parts
    headExpr? token exprs

def Form.exprs? : List Form → Option (List Expr)
  | [] => some []
  | f :: fs => do
    let expr ← f.expr?
    let rest ← Form.exprs? fs
    return expr :: rest

end

mutual

def Form.stmt? : Form → Option Stmt
  | .node head parts => do
    let token ← firstToken? head.chars
    if token.kind = .identifier then
      let body ← Form.stmts? parts
      return .block body
    else
      let exprs ← Form.exprs? parts
      headStmt? token exprs
  | _ => none

def Form.stmts? : List Form → Option (List Stmt)
  | [] => some []
  | f :: fs => do
    let stmt ← f.stmt?
    let rest ← Form.stmts? fs
    return stmt :: rest

end

variable {head : Word} {parts : List Form} {token : Token} {exprs : List Expr}

theorem Form.exprs?_one {f : Form} {expr : Expr} (h : f.expr? = some expr) :
    Form.exprs? [f] = some [expr] := by
  simp [Form.exprs?, h]

theorem Form.exprs?_two {f g : Form} {left right : Expr} (hl : f.expr? = some left)
    (hr : g.expr? = some right) : Form.exprs? [f, g] = some [left, right] := by
  simp [Form.exprs?, hl, hr]

theorem Form.expr?_node (hhead : firstToken? head.chars = some token)
    (hparts : Form.exprs? parts = some exprs) :
    (Form.node head parts).expr? = headExpr? token exprs := by
  simp [Form.expr?, hhead, hparts]

theorem Form.stmt?_node (hhead : firstToken? head.chars = some token)
    (hkind : token.kind ≠ .identifier) (hparts : Form.exprs? parts = some exprs) :
    (Form.node head parts).stmt? = headStmt? token exprs := by
  simp [Form.stmt?, hhead, hkind, hparts]

theorem Form.stmt?_block {body : List Stmt} (hhead : firstToken? head.chars = some token)
    (hkind : token.kind = .identifier) (hparts : Form.stmts? parts = some body) :
    (Form.node head parts).stmt? = some (.block body) := by
  simp [Form.stmt?, hhead, hkind, hparts]

theorem headExpr?_binary {op : BinaryOp} {left right : Expr} (h : binaryOp? token.kind = some op) :
    headExpr? token [left, right] = some (.binary op token left right) := by
  cases left <;> simp [headExpr?, h]

theorem headStmt?_print {expr : Expr} (h : token.kind = .print) :
    headStmt? token [expr] = some (.print token expr) := by
  simp [headStmt?, h]

end Readers

section Expressions

/-- The form is how the expression is listed, and it is read as the expression. -/
structure Form.Shows (f : Form) (expr : Expr) : Prop where
  chars : f.chars = expr.text.toList
  expr? : f.expr? = some (expr.spelled.move .forget)

variable {t : Token} {f g : Form} {expr left right : Expr}

theorem Token.Lexed.exists_form (h : t.Lexed) (hatom : atom? t = some expr) :
    ∃ f : Form, f.chars = t.lexeme.toList ∧ f.expr? = some (expr.move .forget) := by
  have hread : (Treewalk.firstToken? t.lexeme.toList >>= atom?) = some (expr.move .forget) := by
    rw [h.firstToken?]
    exact (atom?_move .forget t).trans (by rw [hatom]; rfl)
  by_cases hstring : t.kind = .string
  · obtain ⟨body, hbody, htext⟩ := h.lexeme.exists_body hstring
    rw [htext] at hread ⊢
    exact ⟨.quotation ⟨body, hbody⟩, rfl, hread⟩
  · have hparens : t.kind ≠ .leftParen ∧ t.kind ≠ .rightParen := by
      constructor <;> intro hkind <;> simp [atom?, hkind] at hatom
    exact ⟨.word ⟨_, h.lexeme.ne_nil, h.lexeme.not_delimits hstring hparens.1 hparens.2⟩, rfl, hread⟩

theorem Token.Lexed.exists_name (h : t.Lexed) (hname : t.kind = .identifier) :
    ∃ f : Form, f.chars = t.lexeme.toList ∧ f.expr? = some (.variable (t.move .forget)) := by
  have hatom : atom? t = some (.variable t) := by simp [atom?, hname]
  exact h.exists_form hatom

theorem lexed_infinityName : infinityName.Lexed := by
  have hchars : infinityName.lexeme.toList = ['I', 'n', 'f', 'i', 'n', 'i', 't', 'y'] := by decide
  refine ⟨?_, rfl⟩
  rw [hchars]
  exact .identifier (by decide) (List.all_eq_true.mp (by decide)) fun kind => by simp [keywords]

theorem exists_lexed_of_number (d : Decimal) :
    ∃ t : Token, t.Lexed ∧ t.lexeme = numberText (numberOfDecimal d) ∧
      atom? t = some (Expr.literal (.number (numberOfDecimal d))).spelled := by
  by_cases h : numberOfDecimal d = infinity
  · rw [h, Expr.spelled, if_pos rfl]
    exact ⟨infinityName, lexed_infinityName, numberText_infinity.symm, rfl⟩
  · obtain ⟨hlexeme, hliteral⟩ := numberText_of_finite d h
    have hne : Value.number (numberOfDecimal d) ≠ .number infinity := by simpa using h
    rw [Expr.spelled, if_neg hne]
    -- Otherwise the text would be computed when it is compared with the lexeme.
    generalize numberText (numberOfDecimal d) = text at hlexeme hliteral ⊢
    exact ⟨⟨.number, text, some (.number (numberOfDecimal d)), 0, .empty 0⟩,
      ⟨hlexeme, congrArg some hliteral.symm⟩, rfl, rfl⟩

/-- The text of an atom is the lexeme of a token that is the same atom, once infinity has a name. -/
theorem Atom.exists_lexed (a : Atom) (h : a.token.Lexed) :
    ∃ t : Token, t.Lexed ∧ t.lexeme = a.expr.text ∧ atom? t = some a.expr.spelled := by
  have hatom := a.atom?_token
  cases a with
  | number t =>
    have hliteral : t.val.literal = some (numberLiteral t.val.lexeme.toList) := by
      have hliteral := h.literal
      rwa [Atom.token, t.property] at hliteral
    rw [Atom.expr, hliteral]
    exact exists_lexed_of_number _
  | string t =>
    obtain ⟨body, -, htext⟩ := h.lexeme.exists_body t.property
    have hliteral : t.val.literal = some (.string (String.ofList body)) := by
      have hliteral := h.literal
      rw [htext, Atom.token, t.property] at hliteral
      simpa [lexemeLiteral, stringLiteral] using hliteral
    rw [Atom.expr, hliteral] at hatom ⊢
    refine ⟨_, h, String.toList_injective ?_, hatom⟩
    simpa [Expr.text, Value.literalText] using htext
  | true t => exact ⟨t.val, h, h.lexeme_eq "true" (by rw [Atom.token, t.property]; decide), hatom⟩
  | false t => exact ⟨t.val, h, h.lexeme_eq "false" (by rw [Atom.token, t.property]; decide), hatom⟩
  | nil t => exact ⟨t.val, h, h.lexeme_eq "nil" (by rw [Atom.token, t.property]; decide), hatom⟩
  | name t => exact ⟨t.val, h, rfl, hatom⟩

theorem Atom.exists_shows (a : Atom) (h : a.token.Lexed) : ∃ f : Form, f.Shows a.expr := by
  obtain ⟨t, ht, htext, hatom⟩ := a.exists_lexed h
  obtain ⟨f, hchars, hread⟩ := ht.exists_form hatom
  exact ⟨f, by rw [hchars, htext], hread⟩

theorem Form.Shows.grouping (h : f.Shows expr) : ∃ g : Form, g.Shows (.grouping expr) := by
  have hhead : firstToken? "group".toList = some ⟨.identifier, "group", none, 0, .empty 0⟩ := by
    decide
  refine ⟨.node ⟨"group".toList, by decide, by decide⟩ [f], ?_,
    (Form.expr?_node hhead (Form.exprs?_one h.expr?)).trans rfl⟩
  simp [Form.chars, Form.listChars, Expr.text, h.chars]

theorem Form.Shows.unary {op : UnaryOp} (h : f.Shows expr) (ht : t.Lexed)
    (hop : t.kind = op.kind) : ∃ g : Form, g.Shows (.unary op t expr) := by
  have hk : (op.symbol, t.kind) ∈ operators ++ keywords := by
    rw [hop]
    cases op <;> decide
  obtain ⟨head, hchars, hhead⟩ := ht.exists_head op.symbol hk (by cases op <;> decide)
  have hread : unaryOp? (t.move .forget).kind = some op := unaryOp?_eq_some_iff.mpr hop.symm
  refine ⟨.node head [f], ?_, ?_⟩
  · simp [Form.chars, Form.listChars, Expr.text, h.chars, hchars]
  · rw [Form.expr?_node hhead (Form.exprs?_one h.expr?), headExpr?, hread]
    rfl

theorem Form.Shows.binary {op : BinaryOp} (hl : f.Shows left) (hr : g.Shows right) (ht : t.Lexed)
    (hop : t.kind = op.kind) : ∃ g : Form, g.Shows (.binary op t left right) := by
  have hk : (op.symbol, t.kind) ∈ operators ++ keywords := by
    rw [hop]
    cases op <;> decide
  obtain ⟨head, hchars, hhead⟩ := ht.exists_head op.symbol hk (by cases op <;> decide)
  have hread : binaryOp? (t.move .forget).kind = some op := by
    rw [Token.kind_move, hop]
    cases op <;> rfl
  refine ⟨.node head [f, g], ?_, ?_⟩
  · simp [Form.chars, Form.listChars, Expr.text, hl.chars, hr.chars, hchars]
  · rw [Form.expr?_node hhead (Form.exprs?_two hl.expr? hr.expr?), headExpr?_binary hread]
    rfl

theorem Form.Shows.assign (h : f.Shows expr) (ht : t.Lexed) (hname : t.kind = .identifier) :
    ∃ g : Form, g.Shows (.assign t expr) := by
  have hhead : firstToken? "=".toList = some ⟨.equal, "=", none, 0, .empty 0⟩ := by decide
  obtain ⟨name, hchars, hread⟩ := ht.exists_name hname
  refine ⟨.node ⟨"=".toList, by decide, by decide⟩ [name, f], ?_,
    (Form.expr?_node hhead (Form.exprs?_two hread h.expr?)).trans rfl⟩
  simp [Form.chars, Form.listChars, Expr.text, h.chars, hchars]

mutual

/-- What is derived from the tokens of a source is listed as a form that is read as it. -/
theorem ExprTree.exists_shows : ∀ {n : Nonterminal} (d : ExprTree n),
    (∀ t ∈ d.tokens, t.Lexed) → ∃ f : Form, f.Shows d.expr
  | _, .assign name _ value, h => by
    simp only [ExprTree.tokens, List.forall_mem_cons] at h
    obtain ⟨f, hf⟩ := value.exists_shows h.2.2
    exact hf.assign h.1 name.property
  | _, .equality e, h => e.exists_shows h
  | _, .operation first others, h => by
    obtain ⟨hfirst, hothers⟩ := List.forall_mem_append.mp h
    exact others.exists_shows hothers (first.exists_shows hfirst)
  | _, .unary op token operand, h => by
    obtain ⟨htoken, hoperand⟩ := List.forall_mem_cons.mp h
    obtain ⟨f, hf⟩ := operand.exists_shows hoperand
    exact hf.unary htoken token.property
  | _, .primary e, h => e.exists_shows h
  | _, .atom a, h => a.exists_shows (h _ List.mem_cons_self)
  | _, .grouping _ inner _, h => by
    simp only [ExprTree.tokens, List.forall_mem_cons, List.forall_mem_append] at h
    obtain ⟨f, hf⟩ := inner.exists_shows h.2.1
    exact hf.grouping

theorem OperandTrees.exists_shows : ∀ {tier : Tier} (d : OperandTrees tier) {left : Expr},
    (∀ t ∈ d.tokens, t.Lexed) → (∃ f : Form, f.Shows left) → ∃ f : Form, f.Shows (d.expr left)
  | _, .nil, _, _, hleft => hleft
  | _, .cons op _ token operand others, _, h, ⟨f, hf⟩ => by
    simp only [OperandTrees.tokens, List.forall_mem_cons, List.forall_mem_append] at h
    obtain ⟨g, hg⟩ := operand.exists_shows h.2.1
    exact others.exists_shows h.2.2 (hf.binary hg h.1 token.property)

end

end Expressions

section Statements

variable {source : String}

/-- As `Form.Shows`, of a statement. -/
structure Form.ShowsStmt (f : Form) (stmt : Stmt) : Prop where
  chars : f.chars = stmt.text.toList
  stmt? : f.stmt? = some (stmt.spelled.move .forget)

structure Form.ListShows (fs : List Form) (stmts : List Stmt) : Prop where
  chars : fs.map Form.chars = stmts.map fun stmt => stmt.text.toList
  stmts? : Form.stmts? fs = some (Stmt.listMove .forget (Stmt.listSpelled stmts))

theorem firstToken?_var : firstToken? "var".toList = some ⟨.var, "var", none, 0, .empty 0⟩ := by
  decide

theorem Form.listChars_of_map : ∀ {fs : List Form} {stmts : List Stmt},
    (fs.map Form.chars = stmts.map fun stmt => stmt.text.toList) →
      Form.listChars fs = (Stmt.listText stmts).toList
  | [], [], _ => rfl
  | f :: fs, stmt :: stmts, h => by
    obtain ⟨hfirst, hrest⟩ := List.cons.inj h
    simp [Form.listChars, Stmt.listText, hfirst, Form.listChars_of_map hrest]

mutual

theorem StmtTree.exists_shows : ∀ d : StmtTree, (∀ t ∈ d.tokens, t.Lexed) →
    ∃ f : Form, f.ShowsStmt d.stmt
  | .expression e _, h => by
    obtain ⟨f, hf⟩ := e.exists_shows (List.forall_mem_append.mp h).1
    have hhead : firstToken? ";".toList = some ⟨.semicolon, ";", none, 0, .empty 0⟩ := by decide
    refine ⟨.node ⟨";".toList, by decide, by decide⟩ [f], ?_,
      (Form.stmt?_node hhead (by decide) (Form.exprs?_one hf.expr?)).trans rfl⟩
    simp [Form.chars, Form.listChars, StmtTree.stmt, Stmt.text, hf.chars]
  | .print keyword e _, h => by
    simp only [StmtTree.tokens, List.forall_mem_cons, List.forall_mem_append] at h
    obtain ⟨f, hf⟩ := e.exists_shows h.2.1
    have hkind : (keyword.val.move .forget).kind = .print := keyword.property
    have hk : ("print", keyword.val.kind) ∈ operators ++ keywords := by
      rw [keyword.property]
      decide
    obtain ⟨head, hchars, hhead⟩ := h.1.exists_head "print" hk (by decide)
    refine ⟨.node head [f], ?_, ?_⟩
    · simp [Form.chars, Form.listChars, StmtTree.stmt, Stmt.text, hf.chars, hchars]
    · rw [Form.stmt?_node hhead (by rw [hkind]; decide) (Form.exprs?_one hf.expr?),
        headStmt?_print hkind]
      rfl
  | .var _ name none _, h => by
    have hlexed : name.val.Lexed := h _ (by simp [StmtTree.tokens])
    obtain ⟨f, hchars, hread⟩ := hlexed.exists_name name.property
    refine ⟨.node ⟨"var".toList, by decide, by decide⟩ [f], ?_,
      (Form.stmt?_node firstToken?_var (by decide) (Form.exprs?_one hread)).trans rfl⟩
    simp [Form.chars, Form.listChars, StmtTree.stmt, Stmt.text, hchars]
  | .var _ name (some (_, e)) _, h => by
    simp only [StmtTree.tokens, initializerTokens, List.forall_mem_cons, List.cons_append,
      List.forall_mem_append] at h
    obtain ⟨f, hchars, hread⟩ := h.2.1.exists_name name.property
    obtain ⟨g, hg⟩ := e.exists_shows h.2.2.2.1
    refine ⟨.node ⟨"var".toList, by decide, by decide⟩ [f, g], ?_,
      (Form.stmt?_node firstToken?_var (by decide) (Form.exprs?_two hread hg.expr?)).trans rfl⟩
    simp [Form.chars, Form.listChars, StmtTree.stmt, Stmt.text, hchars, hg.chars]
  | .block _ body _, h => by
    simp only [StmtTree.tokens, List.forall_mem_cons, List.forall_mem_append] at h
    obtain ⟨fs, hfs⟩ := StmtTree.list_exists_shows body h.2.1
    have hhead : firstToken? "block".toList = some ⟨.identifier, "block", none, 0, .empty 0⟩ := by
      decide
    refine ⟨.node ⟨"block".toList, by decide, by decide⟩ fs, ?_,
      (Form.stmt?_block hhead rfl hfs.stmts?).trans rfl⟩
    simp [Form.chars, StmtTree.stmt, Stmt.text, Form.listChars_of_map hfs.chars]

theorem StmtTree.list_exists_shows : ∀ ds : List StmtTree,
    (∀ t ∈ StmtTree.listTokens ds, t.Lexed) →
      ∃ fs : List Form, Form.ListShows fs (StmtTree.listStmts ds)
  | [], _ => ⟨[], rfl, rfl⟩
  | d :: ds, h => by
    obtain ⟨hfirst, hrest⟩ := List.forall_mem_append.mp h
    obtain ⟨f, hf⟩ := d.exists_shows hfirst
    obtain ⟨fs, hfs⟩ := StmtTree.list_exists_shows ds hrest
    refine ⟨f :: fs, ?_, ?_⟩
    · simp [StmtTree.listStmts, hf.chars, hfs.chars]
    · simp [Form.stmts?, hf.stmt?, hfs.stmts?, StmtTree.listStmts, Stmt.listSpelled, Stmt.listMove]

end

theorem exists_listShows (h : (parse (scan source).tokens).diagnostics = []) :
    ∃ fs : List Form, Form.ListShows fs (parse (scan source).tokens).statements := by
  have hreports : (programReading (scan source).tokens.dropLast).reports = [] := by
    rw [← takeWhile_scan]
    exact List.map_eq_nil_iff.mp h
  obtain ⟨ds, htokens, hstmts, -⟩ := exists_derivation hreports
  have hlexed : ∀ t ∈ StmtTree.listTokens ds, t.Lexed := by
    rw [htokens]
    exact fun t => lexed_of_mem_scan
  obtain ⟨fs, hfs⟩ := StmtTree.list_exists_shows ds hlexed
  rw [hstmts] at hfs
  refine ⟨fs, ?_⟩
  rwa [parse, takeWhile_scan]

/-- Two sources that parse without an error have the same listing exactly when their statements are
the same but for the places of their tokens, an infinite literal being the same as the name that it
is written as. -/
theorem listing_determines_statements (source other : String)
    (h : (parse (scan source).tokens).diagnostics = [])
    (h' : (parse (scan other).tokens).diagnostics = []) :
    (parse (scan source).tokens).statements.map Stmt.text =
        (parse (scan other).tokens).statements.map Stmt.text ↔
      Stmt.listMove .forget (Stmt.listSpelled (parse (scan source).tokens).statements) =
        Stmt.listMove .forget (Stmt.listSpelled (parse (scan other).tokens).statements) := by
  constructor
  · intro htext
    obtain ⟨fs, hfs⟩ := exists_listShows h
    obtain ⟨gs, hgs⟩ := exists_listShows h'
    have hchars : fs.map Form.chars = gs.map Form.chars := by
      have hlists := congrArg (List.map String.toList) htext
      rw [List.map_map, List.map_map] at hlists
      rw [hfs.chars, hgs.chars]
      exact hlists
    obtain rfl := (List.map_inj_right Form.chars_injective).mp hchars
    exact Option.some.inj (hfs.stmts?.symm.trans hgs.stmts?)
  · intro hsame
    have htext := Stmt.map_text_of_listMove hsame
    rwa [Stmt.map_text_listSpelled, Stmt.map_text_listSpelled] at htext

theorem listing_determines_statements_overflow :
    let source := "print \" (\" + Infinity;"
    let other := String.ofList ("print\n\" (\"+1".toList ++ List.replicate 309 '0' ++ [';'])
    let stmts := (parse (scan source).tokens).statements
    let stmts' := (parse (scan other).tokens).statements
    (parse (scan source).tokens).diagnostics = [] ∧ (parse (scan other).tokens).diagnostics = [] ∧
      stmts.map Stmt.text = ["(print (+ \" (\" Infinity))"] ∧
      stmts'.map Stmt.text = ["(print (+ \" (\" Infinity))"] ∧
      Stmt.listMove .forget (Stmt.listSpelled stmts) =
        Stmt.listMove .forget (Stmt.listSpelled stmts') := by
  intro source other stmts stmts'
  have hchars : other.toList = _ := String.toList_ofList
  have h : (parse (scan source).tokens).diagnostics = [] := by decide +kernel
  have h' : (parse (scan other).tokens).diagnostics = [] := by
    rw [scan, hchars]
    decide +kernel
  have htext : stmts.map Stmt.text = ["(print (+ \" (\" Infinity))"] := by decide +kernel
  have htext' : stmts'.map Stmt.text = ["(print (+ \" (\" Infinity))"] := by
    simp only [stmts']
    rw [scan, hchars]
    decide +kernel
  exact ⟨h, h', htext, htext',
    (listing_determines_statements source other h h').mp (htext.trans htext'.symm)⟩

end Statements

end Treewalk
