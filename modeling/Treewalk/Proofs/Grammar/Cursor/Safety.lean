import Mathlib.Data.List.TakeWhile
import Treewalk.Proofs.Grammar.Cursor.Statements
import Treewalk.Proofs.Grammar.Parsing

/-! Reading with a cursor is safe on every list of tokens. It comes to an end with what the grammar
reads, is never broken off, and never looks behind the first token for the end of the text; and
every procedure leaves the depth and the open scopes as it found them, whether it fails or not. -/

namespace Treewalk

section Streams

variable {tokens : List Token}

theorem exists_first_eof {eof : Token} (h : tokens.find? (·.kind = .eof) = some eof) :
    eof.kind = .eof ∧ ∃ others, tokens = tokens.takeWhile (·.kind ≠ .eof) ++ eof :: others := by
  obtain ⟨hkind, before, others, rfl, hbefore⟩ := List.find?_eq_some_iff_append.mp h
  have hkind : eof.kind = .eof := by simpa using hkind
  refine ⟨hkind, others, ?_⟩
  rw [takeWhile_append_eof (by simpa using hbefore) (by simpa using hkind)]

theorem takeWhile_of_find?_eq_none (h : tokens.find? (·.kind = .eof) = none) :
    tokens.takeWhile (·.kind ≠ .eof) = tokens := by
  have hkinds : ∀ t ∈ tokens, t.kind ≠ .eof := by simpa using List.find?_eq_none.mp h
  have hend : ∀ t ∈ ([] : List Token).head?, t.kind = .eof := by simp
  have htext := takeWhile_append_eof hkinds hend
  rwa [List.append_nil] at htext

theorem closeTokens_of_find?_eq_none (h : tokens.find? (·.kind = .eof) = none) :
    closeTokens tokens = tokens ++ [eofToken (endPosition tokens)] := by
  have hlast : tokens.getLast?.map (·.kind) ≠ some .eof := by
    intro hlast
    obtain ⟨t, ht, hkind⟩ := Option.map_eq_some_iff.mp hlast
    exact absurd hkind (by simpa using List.find?_eq_none.mp h t (List.mem_of_getLast? ht))
  rw [closeTokens, if_neg hlast]

theorem prefix_closeTokens (tokens : List Token) : tokens <+: closeTokens tokens := by
  rw [closeTokens]
  split
  · exact List.prefix_refl _
  · exact List.prefix_append _ _

/-- The text of a list of tokens, closed by its first token for the end or by a new one. -/
def Stream.ofTokens (tokens : List Token) : Stream where
  tokens := closeTokens tokens
  text := tokens.takeWhile (·.kind ≠ .eof)
  eof := endToken tokens
  beginning := by
    cases h : tokens.find? (·.kind = .eof) with
    | none =>
      rw [endToken, h, takeWhile_of_find?_eq_none h, closeTokens_of_find?_eq_none h]
      exact List.prefix_refl _
    | some eof =>
      obtain ⟨-, others, hothers⟩ := exists_first_eof h
      refine List.IsPrefix.trans ?_ (prefix_closeTokens tokens)
      rw [endToken, h]
      conv => rhs; rw [hothers]
      exact ⟨others, by simp⟩
  kind_ne t ht := by simpa using List.mem_takeWhile_imp ht
  eof_kind := by
    cases h : tokens.find? (·.kind = .eof) with
    | none => simp [endToken, h, eofToken]
    | some eof => simpa [endToken, h] using (exists_first_eof h).1

theorem Stream.findIdx?_eq (src : Stream) :
    src.tokens.findIdx? (·.kind = .eof) = some src.text.length := by
  obtain ⟨others, hothers⟩ := src.beginning
  have htext : src.text.findIdx? (·.kind = .eof) = none := by
    simpa using src.kind_ne
  rw [← hothers, List.append_assoc, List.findIdx?_append, htext]
  simp [List.findIdx?_cons, src.eof_kind]

/-- What is parsed is told by the tokens up to the first one for the end. -/
theorem parse_append_first_eof {eof : Token} (h : tokens.find? (·.kind = .eof) = some eof)
    (others : List Token) :
    parse (tokens.takeWhile (·.kind ≠ .eof) ++ eof :: others) = parse tokens := by
  obtain ⟨hkind, -⟩ := exists_first_eof h
  have hbefore : ∀ t ∈ tokens.takeWhile (·.kind ≠ .eof), t.kind ≠ .eof :=
    (Stream.ofTokens tokens).kind_ne
  have hfind : (tokens.takeWhile (·.kind ≠ .eof) ++ eof :: others).find? (·.kind = .eof) =
      some eof :=
    List.find?_eq_some_iff_append.mpr ⟨by simpa using hkind, _, others, rfl, by simpa using hbefore⟩
  rw [parse, parse, takeWhile_append_eof hbefore (by simpa using hkind), endToken, endToken, hfind,
    h]
  rfl

end Streams

section Restoring

variable {α : Type} {src : Stream} {s : Cursor} {rest : List Token}

/-- The cursor has not moved back, nor past the limit, and the depth and the number of open scopes
are as they were. -/
structure Cursor.Restored (limit : Nat) (s s' : Cursor) : Prop where
  forward : s.position ≤ s'.position
  within : s'.position ≤ limit
  depth : s'.depth = s.depth
  scopes : s'.scopes.length = s.scopes.length

/-- From every place up to the limit the procedure comes to an end and restores the state. -/
def Restores (limit : Nat) (p : Nat → Act α) : Prop :=
  ∀ s : Cursor, s.position ≤ limit → ∃ a s', Settles p s a s' ∧ s.Restored limit s'

theorem Cursor.exists_note_eq (s : Cursor) (name : Option String) :
    ∃ scopes, s.note name = s.inScopes scopes ∧ scopes.length = s.scopes.length := by
  cases h : s.scopes with
  | nil =>
    refine ⟨s.scopes, ?_, by rw [h]⟩
    cases name with
    | none => rfl
    | some name =>
      show s.declare name = s
      rw [Cursor.declare, h]
  | cons names outer => exact ⟨_, Cursor.note_eq h name, rfl⟩

theorem Cursor.At.restored (hs : s.At src rest) {r : Reading α} (hr : r.rest <:+ rest)
    (name : Option String) : s.Restored src.text.length ((s.after src r).note name) := by
  obtain ⟨scopes, hnote, hlength⟩ := (s.after src r).exists_note_eq name
  have hposition : ((s.after src r).inScopes scopes).position =
    src.text.length - r.rest.length := rfl
  have hstart := hs.position
  have hle := hr.length_le
  rw [hnote]
  exact ⟨by omega, by omega, rfl, hlength⟩

theorem Cursor.At.restored_moveTo (hs : s.At src rest) {ts : List Token} (hts : ts <:+ rest) :
    s.Restored src.text.length (s.moveTo src ts) := by
  have hafter := hs.restored (r := (⟨(), [], ts⟩ : Reading Unit)) hts none
  rwa [Cursor.after_silent] at hafter

theorem Cursor.At.restored_self (hs : s.At src rest) : s.Restored src.text.length s := by
  have hmoved := hs.restored_moveTo (List.suffix_refl rest)
  rwa [← hs.eq_moveTo] at hmoved

theorem Restores.of_at {p : Nat → Act α}
    (h : ∀ {s : Cursor} {rest : List Token}, s.At src rest →
      ∃ a s', Settles p s a s' ∧ s.Restored src.text.length s') : Restores src.text.length p :=
  fun _ hs => h (Cursor.at_drop hs)

theorem Restores.of_meets {p : Nat → Act α}
    (h : ∀ {room declared s rest}, Cursor.Meets src room declared s rest →
      ∃ a s', Settles p s a s' ∧ s.Restored src.text.length s') : Restores src.text.length p :=
  .of_at fun {s} {rest} hs =>
    h (⟨hs, rfl, rfl⟩ : s.Meets src (maxNesting - s.depth) s.declared rest)

theorem Restores.of_yields {p : Nat → Attempt α} {names : α → Option String}
    (h : ∀ {room declared s rest}, Cursor.Meets src room declared s rest →
      ∃ r, Yields src names p s rest r) :
    Restores src.text.length fun clock => (p clock).run := by
  refine .of_meets fun hs => ?_
  obtain ⟨r, hsuffix, hsettles⟩ := h hs
  exact ⟨_, _, hsettles, hs.toAt.restored hsuffix _⟩

theorem Restores.of_performs {p : Nat → Attempt α} {names : α → Option String}
    {rule : Nat → List String → Rule α}
    (h : ∀ room declared, Performs src room declared names p (rule room declared)) :
    Restores src.text.length fun clock => (p clock).run :=
  .of_yields fun hs => ⟨_, h _ _ hs⟩

theorem Restores.nested {p : Nat → Attempt α} {limit : Nat}
    (h : Restores limit fun clock => (p clock).run) (opener : Token) :
    Restores limit fun clock => (nested opener (p clock)).run := by
  intro s hs
  have hget := returns_get s
  by_cases hdepth : s.depth ≥ maxNesting
  · refine ⟨.error (errorAt opener .tooMuchNesting), s, ⟨0, fun clock _ => hget.bind ?_⟩,
      ⟨Nat.le_refl _, hs, rfl, rfl⟩⟩
    rw [if_pos hdepth]
    exact returns_pure _ _
  · obtain ⟨result, s', ⟨enough, hreturns⟩, hrestored⟩ := h { s with depth := s.depth + 1 } hs
    -- The rule has set the depth back to where it began, so it can be lowered by one.
    have hdeeper : 1 ≤ s'.depth := by
      rw [hrestored.depth]
      exact Nat.le_add_left 1 s.depth
    have hback : s'.depth - 1 = s.depth := by
      rw [hrestored.depth]
      exact Nat.add_sub_cancel s.depth 1
    refine ⟨result, { s' with depth := s'.depth - 1 }, ⟨enough, fun clock hclock => hget.bind ?_⟩,
      ⟨hrestored.forward, hrestored.within, hback, hrestored.scopes⟩⟩
    rw [if_neg hdepth]
    exact (returns_modify _ _).bind ((hreturns clock hclock).bind ((returns_get _).bind
      ((returns_difference hdeeper _).bind ((returns_modify _ _).bind (returns_pure _ _)))))

end Restoring

section Procedures

/-- The procedures that reading is made of. -/
inductive Procedure where
  | peek
  | previous
  | isAtEnd
  | check (kind : TokenKind)
  | advance
  | matchKinds (kinds : List TokenKind)
  | consume (kind : TokenKind) (fault : SyntaxFault)
  | synchronize
  | expression (n : Nonterminal)
  | operators (tier : Tier) (left : Expr)
  | nestedExpression (opener : Token) (n : Nonterminal)
  | nestedBlock (opener : Token)
  | expressionStatement
  | print
  | initializer
  | var
  | statement
  | block
  | body
  | declaration

def Procedure.Value : Procedure → Type
  | .peek | .previous | .advance => Token
  | .isAtEnd | .check _ | .matchKinds _ => Bool
  | .consume _ _ => Except Diagnostic Token
  | .synchronize => Unit
  | .expression _ | .operators _ _ | .nestedExpression _ _ => Except Diagnostic Expr
  | .initializer => Except Diagnostic (Option Expr)
  | .expressionStatement | .print | .var | .statement => Except Diagnostic Stmt
  | .nestedBlock _ | .block => Except Diagnostic (List Stmt)
  | .body => List Stmt
  | .declaration => Option Stmt

def Procedure.run (tokens : List Token) : (p : Procedure) → Nat → Act p.Value
  | .peek, _ => Treewalk.peek tokens
  | .previous, _ => Treewalk.previous tokens
  | .isAtEnd, _ => Treewalk.isAtEnd tokens
  | .check kind, _ => Treewalk.check tokens kind
  | .advance, _ => Treewalk.advance tokens
  | .matchKinds kinds, _ => Treewalk.matchKinds tokens kinds
  | .consume kind fault, _ => (Treewalk.consume tokens kind fault).run
  | .synchronize, clock => Treewalk.synchronize tokens clock
  | .expression n, clock => (readExpression tokens clock n).run
  | .operators tier left, clock => (readOperators tokens clock tier left).run
  | .nestedExpression opener n, clock => (nested opener (readExpression tokens clock n)).run
  | .nestedBlock opener, clock => (nested opener (readBlock tokens clock)).run
  | .expressionStatement, clock => (readExpressionStatement tokens clock).run
  | .print, clock => (readPrint tokens clock).run
  | .initializer, clock => (readInitializer tokens clock).run
  | .var, clock => (readVar tokens clock).run
  | .statement, clock => (readStatement tokens clock).run
  | .block, clock => (readBlock tokens clock).run
  | .body, clock => readBody tokens clock
  | .declaration, clock => readDeclaration tokens clock

variable (src : Stream)

theorem readExpression_restores (n : Nonterminal) :
    Restores src.text.length fun clock => (readExpression src.tokens clock n).run :=
  .of_performs fun room declared => nonterminals_perform src room n declared

theorem readBlock_restores :
    Restores src.text.length fun clock => (readBlock src.tokens clock).run :=
  .of_performs fun room declared => blocks_perform src room declared

theorem Procedure.restores (p : Procedure) : Restores src.text.length (p.run src.tokens) := by
  have hblocks : ∀ {room : Nat}, ∀ r, room = r + 1 → BlocksPerform src r :=
    fun r _ => blocks_perform src r
  cases p with
  | peek => exact .of_at fun hs => ⟨_, _, (returns_peek hs).settles, hs.restored_self⟩
  | previous =>
    refine .of_at fun hs => ?_
    obtain ⟨t, ht⟩ := exists_returns_previous hs
    exact ⟨t, _, ht.settles, hs.restored_self⟩
  | isAtEnd => exact .of_at fun hs => ⟨_, _, (returns_isAtEnd hs).settles, hs.restored_self⟩
  | check kind => exact .of_at fun hs => ⟨_, _, (returns_check hs kind).settles, hs.restored_self⟩
  | advance =>
    refine .of_at fun {s} {rest} hs => ?_
    cases rest with
    | nil =>
      obtain ⟨t, ht⟩ := exists_returns_advance hs
      exact ⟨t, s, ht.settles, hs.restored_self⟩
    | cons t rest =>
      exact ⟨t, _, (returns_advance hs).settles, hs.restored_moveTo (List.suffix_cons t rest)⟩
  | matchKinds kinds =>
    refine .of_at fun {s} {rest} hs => ?_
    by_cases hnone : ∀ t ∈ rest.head?, t.kind ∉ kinds
    · exact ⟨false, s, (returns_matchKinds_none hs hnone).settles, hs.restored_self⟩
    · cases rest with
      | nil => simp at hnone
      | cons t rest =>
        have ht : t.kind ∈ kinds := by simpa using hnone
        exact ⟨true, _, (returns_matchKinds hs ht).settles,
          hs.restored_moveTo (List.suffix_cons t rest)⟩
  | consume kind fault => exact .of_performs fun _ _ => performs_consume kind fault
  | synchronize =>
    refine .of_at fun {s} {rest} hs => ?_
    have hmoved := hs.restored_moveTo (resume_suffix_self rest)
    exact ⟨(), _, ⟨rest.length + 1, fun clock hclock => returns_synchronize hs hclock⟩,
      ⟨hmoved.forward, hmoved.within, hmoved.depth, hmoved.scopes⟩⟩
  | expression n => exact readExpression_restores src n
  | operators tier left =>
    exact .of_yields fun hs =>
      ⟨_, operators_perform (nonterminals_perform src _ tier.operand) left (Nat.le_refl _) hs⟩
  | nestedExpression opener n => exact (readExpression_restores src n).nested opener
  | nestedBlock opener => exact (readBlock_restores src).nested opener
  | expressionStatement => exact .of_performs (expressionStatement_performs src)
  | print =>
    have hprint : ∀ {room declared s rest}, Cursor.Meets src room declared s rest →
        ∃ r, Yields src Stmt.declares (readPrint src.tokens) s rest r := by
      intro room declared s rest hs
      obtain ⟨keyword, hk⟩ := exists_returns_previous hs.toAt
      exact ⟨_, print_yields hs hk⟩
    exact .of_yields hprint
  | initializer => exact .of_performs (initializer_performs src)
  | var => exact .of_performs (var_performs src)
  | statement => exact .of_performs fun _ declared => statement_performs hblocks declared
  | block => exact readBlock_restores src
  | body =>
    refine .of_meets fun hs => ?_
    obtain ⟨hsuffix, hsettles⟩ := body_settles hblocks hs
    exact ⟨_, _, hsettles, hs.toAt.restored hsuffix none⟩
  | declaration =>
    refine .of_meets fun hs => ?_
    obtain ⟨hsuffix, hsettles⟩ := declaration_settles hblocks hs
    exact ⟨_, _, hsettles, hs.toAt.restored hsuffix _⟩

/-- A declaration that has a token left passes one. -/
theorem readDeclaration_advances {s : Cursor} (hs : s.position < src.text.length) :
    ∃ stmt s', Settles (readDeclaration src.tokens) s stmt s' ∧ s.position < s'.position := by
  have hat := Cursor.at_drop (Nat.le_of_lt hs)
  obtain ⟨t, ts, hrest⟩ := List.exists_cons_of_ne_nil (show src.text.drop s.position ≠ [] by simpa)
  rw [hrest] at hat
  have hmeets : s.Meets src (maxNesting - s.depth) s.declared (t :: ts) := ⟨hat, rfl, rfl⟩
  obtain ⟨-, hsettles⟩ := declaration_settles (fun r _ => blocks_perform src r) hmeets
  have hpassed := recovering_suffix (maxNesting - s.depth) s.declared t ts
  refine ⟨_, _, hsettles, ?_⟩
  generalize recovering _ (t :: ts) = first at hpassed
  obtain ⟨scopes, hnote, -⟩ := (s.after src first).exists_note_eq (first.value.bind Stmt.declares)
  have hend : ((s.after src first).inScopes scopes).position =
    src.text.length - first.rest.length := rfl
  have hstart := hat.position
  have hle := hpassed.length_le
  rw [List.length_cons] at hstart
  rw [hnote]
  omega

end Procedures

section Programs

theorem rest_scopeFrom (room : Nat) (declared : List String) (ts : List Token) :
    (scopeFrom room (stopsAt none) declared ts).rest = [] := by
  induction hlength : ts.length using Nat.strongRecOn generalizing declared ts with
  | ind length ih =>
    cases ts with
    | nil => rfl
    | cons t ts =>
      have hless := (recovering_suffix room declared t ts).length_le
      rw [List.length_cons] at hlength
      rw [scopeFrom_cons room declared rfl ts]
      exact ih _ (by omega) _ _ rfl

theorem readProgram_settles (tokens : List Token) :
    ∃ c : Cursor, Settles (readProgram tokens) .start (parse tokens).statements c ∧
      c.diagnostics = (parse tokens).diagnostics ∧ c.events = (parse tokens).events ∧
      c.position = (tokens.takeWhile (·.kind ≠ .eof)).length ∧ c.depth = 0 ∧
      c.scopes.length = 1 := by
  let src := Stream.ofTokens tokens
  have hstart : Cursor.start.Meets src maxNesting [] src.text :=
    ⟨⟨List.suffix_refl _, Nat.zero_add _⟩, rfl, rfl⟩
  obtain ⟨-, names, enough, hreturns⟩ :=
    scope_settles (fun r _ => blocks_perform src r) none [] hstart rfl
  have hrest := rest_scopeFrom maxNesting [] src.text
  have hscope : scopeFrom maxNesting (stopsAt none) [] src.text = programReading src.text := rfl
  rw [hscope] at hreturns hrest
  refine ⟨_, ⟨enough, fun clock hclock => (hreturns clock hclock).bind
    ((returns_modify _ _).bind (returns_pure _ _))⟩, ?_, ?_, ?_, rfl, rfl⟩
  · exact List.nil_append _
  · simp only [Cursor.log, Cursor.inScopes, Cursor.after, Cursor.start, List.nil_append,
      List.length_map]
    rfl
  · show src.text.length - (programReading src.text).rest.length = src.text.length
    rw [hrest]
    exact Nat.sub_zero _

end Programs

/-- For every list of tokens: the text ends at the first token for the end. Reading comes to an end
there, is not broken off, and gives what is parsed. Every procedure comes to an end from every place
up to there, goes no further, and restores the depth and the number of scopes, whatever it gives; a
declaration that has a token left passes one. What stands behind the first token for the end makes no
difference. -/
theorem reading_settles_and_restores (tokens : List Token) :
    let closed := closeTokens tokens
    let text := tokens.takeWhile (·.kind ≠ .eof)
    closed.findIdx? (·.kind = .eof) = some text.length ∧
    (∃ c : Cursor, Settles (readProgram tokens) .start (parse tokens).statements c ∧
      c.diagnostics = (parse tokens).diagnostics ∧ c.events = (parse tokens).events ∧
      c.position = text.length ∧ c.depth = 0 ∧ c.scopes.length = 1) ∧
    (∀ p : Procedure, Restores text.length (p.run closed)) ∧
    (∀ s : Cursor, s.position < text.length →
      ∃ stmt s', Settles (readDeclaration closed) s stmt s' ∧ s.position < s'.position) ∧
    ∀ eof, tokens.find? (·.kind = .eof) = some eof →
      ∀ others, parse (text ++ eof :: others) = parse tokens :=
  ⟨(Stream.ofTokens tokens).findIdx?_eq, readProgram_settles tokens,
    Procedure.restores (Stream.ofTokens tokens),
    fun _ hs => readDeclaration_advances (Stream.ofTokens tokens) hs,
    fun _ heof others => parse_append_first_eof heof others⟩

end Treewalk
