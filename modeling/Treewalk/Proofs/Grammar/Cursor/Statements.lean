import Treewalk.Proofs.Grammar.Cursor.Rules

/-! The procedures for statements do what the rules say, by induction on the room for nesting: a
block is read with less room than the statement it belongs to. Every declaration passes a token, so
the loop over the statements of a scope comes to an end. -/

namespace Treewalk

section Statements

variable {src : Stream} {room : Nat} {declared : List String} {s : Cursor} {rest : List Token}

theorem expression_performs (src : Stream) (room : Nat) (declared : List String) :
    Performs src room declared noNames (fun clock => readExpression src.tokens clock .assignment)
      (expressionRule room) := by
  rw [expressionRule, expression_exprRules]
  exact nonterminals_perform src room .assignment declared

theorem expressionStatement_performs (src : Stream) (room : Nat) (declared : List String) :
    Performs src room declared Stmt.declares (readExpressionStatement src.tokens)
      (expressionStatementRule room) :=
  (expression_performs src room declared).bind fun _ =>
    (performs_consume _ _).bind fun _ => performs_pure rfl

theorem print_yields (hs : s.Meets src room declared rest) {keyword : Token}
    (hk : Returns (previous src.tokens) s keyword s) :
    Yields src Stmt.declares (readPrint src.tokens) s rest (printRule room keyword rest) := by
  have hrest : Performs src room declared Stmt.declares _ (printRule room keyword) :=
    (expression_performs src room declared).bind fun _ =>
      (performs_consume _ _).bind fun _ => performs_pure rfl
  exact hk.yields_previous (hrest hs)

theorem initializer_performs (src : Stream) (room : Nat) (declared : List String) :
    Performs src room declared noNames (readInitializer src.tokens) (initializerRule room) := by
  intro s rest hs
  refine hs.yields_when (fun _ => mem_only_iff) ?_ (performs_pure rfl hs)
  rintro ⟨⟩ t ts rfl -
  exact ((expression_performs src room declared).bind fun _ => performs_pure rfl) hs.moveTo

theorem tellRedeclared_performs {name : Token} (hname : name.kind ≠ .eof) :
    Performs src room declared noNames (fun _ => (tellRedeclared name : Attempt Unit))
      (freshNameRule declared name) := by
  intro s rest hs
  have hget := returns_get s
  rw [freshNameRule]
  by_cases hmem : name.lexeme ∈ declared
  · have htell : Returns (tellRedeclared name) s ()
        (s.complain (errorAt name (.redeclared name.lexeme))) := by
      refine hget.bind ?_
      rw [hs.scope, if_pos hmem]
      exact returns_modify _ _
    rw [if_pos hmem]
    exact hs.yields_report hname htell.attempt
  · have htell : Returns (tellRedeclared name) s () s := by
      refine hget.bind ?_
      rw [hs.scope, if_neg hmem]
      exact returns_pure _ _
    rw [if_neg hmem]
    exact hs.yields_idle rfl htell.attempt

/-- The name is declared once the whole declaration has been read. -/
theorem performs_declare (name : Token) (initializer : Option Expr) :
    Performs src room declared Stmt.declares
      (fun _ => do
        modify fun s => s.declare name.lexeme
        return .var name initializer)
      (pure (.var name initializer)) := by
  intro s rest hs
  refine ⟨List.suffix_refl _, ?_⟩
  show Settles _ s _ ((s.after src ⟨_, [], rest⟩).note (some name.lexeme))
  rw [Cursor.after_silent, ← hs.toAt.eq_moveTo]
  exact Returns.settles rfl

theorem var_performs (src : Stream) (room : Nat) (declared : List String) :
    Performs src room declared Stmt.declares (readVar src.tokens) (varRule room declared) := by
  intro s rest hs
  have hname := performs_consume .identifier .expectName hs
  refine hname.bind fun name hvalue => ?_
  have hkind : name.kind ≠ .eof := by
    rw [kind_of_expect hvalue]
    decide
  have hrest : Performs src room declared Stmt.declares _ _ :=
    (tellRedeclared_performs hkind).bind fun _ =>
      (initializer_performs src room declared).bind fun initializer =>
        (performs_consume .semicolon .expectSemicolonAfterDeclaration).bind fun _ =>
          performs_declare name initializer
  exact hrest (hs.after hname.1)

/-- A statement that declares nothing in its scope; blocks are read by `inner`. -/
def statementRule (room : Nat) (inner : Option (Rule (List Stmt))) : Rule Stmt
  | [] => expressionStatementRule room []
  | t :: ts =>
    match t.kind with
    | .print => printRule room t ts
    | .leftBrace => blockStatementRule inner t ts
    | _ => expressionStatementRule room (t :: ts)

theorem declarationRule_of_var {inner : Option (Rule (List Stmt))} {t : Token}
    (ht : t.kind = .var) (ts : List Token) :
    declarationRule room inner declared (t :: ts) = varRule room declared ts := by
  rw [declarationRule, ht]

theorem declarationRule_of_not_var {inner : Option (Rule (List Stmt))}
    (h : ∀ t ∈ rest.head?, t.kind ≠ .var) :
    declarationRule room inner declared rest = statementRule room inner rest := by
  cases rest with
  | nil => rfl
  | cons t ts =>
    have ht := h t rfl
    rw [declarationRule, statementRule]
    split <;> simp_all

/-- The procedure for blocks does what its rule says, whatever is declared. -/
def BlocksPerform (src : Stream) (room : Nat) : Prop :=
  ∀ declared, Performs src room declared noNames (readBlock src.tokens)
    (blockRule room (innerBlockRule room))

variable (ih : ∀ r, room = r + 1 → BlocksPerform src r)

include ih

theorem blockStatement_performs {brace : Token} (hbrace : brace.kind ≠ .eof) :
    Performs src room declared Stmt.declares
      (fun clock => do
        let body ← nested brace (readBlock src.tokens clock)
        return .block body)
      (blockStatementRule (innerBlockRule room) brace) := by
  have hnested : Performs src room declared noNames
      (fun clock => nested brace (readBlock src.tokens clock))
      (Rule.nested brace (innerBlockRule room)) := by
    refine performs_nested hbrace ?_ ?_
    · rintro rfl
      rfl
    · rintro r rfl
      exact ⟨_, rfl, ih r rfl declared⟩
  exact hnested.bind fun _ => performs_pure rfl

theorem statement_performs (declared : List String) :
    Performs src room declared Stmt.declares (readStatement src.tokens)
      (statementRule room (innerBlockRule room)) := by
  intro s rest hs
  have hexpression := expressionStatement_performs src room declared hs
  refine Yields.tick ?_ fun clock => by rw [readStatement]
  cases rest with
  | nil => exact hs.yields_unmatched (by simp) (hs.yields_unmatched (by simp) hexpression)
  | cons t rest =>
    by_cases hprint : t.kind = .print
    · rw [statementRule, hprint]
      exact hs.yields_matched (by simp [hprint]) (print_yields hs.moveTo (returns_previous hs.toAt))
    refine hs.yields_unmatched (by simpa using hprint) ?_
    by_cases hbrace : t.kind = .leftBrace
    · rw [statementRule, hbrace]
      exact hs.yields_matched (by simp [hbrace]) ((returns_previous hs.toAt).yields_previous
        (blockStatement_performs ih hs.kind_ne hs.moveTo))
    have hother : statementRule room (innerBlockRule room) (t :: rest) =
        expressionStatementRule room (t :: rest) := by
      rw [statementRule]
      split
      · contradiction
      · contradiction
      · rfl
    rw [hother]
    exact hs.yields_unmatched (by simpa using hbrace) hexpression

theorem declaration_yields (hs : s.Meets src room declared rest) :
    Yields src Stmt.declares
      (fun clock => do
        if ← matchKinds src.tokens [.var] then readVar src.tokens clock
        else readStatement src.tokens clock)
      s rest (declarationRule room (innerBlockRule room) declared rest) := by
  by_cases hvar : ∀ t ∈ rest.head?, t.kind ≠ .var
  · rw [declarationRule_of_not_var hvar]
    exact hs.yields_unmatched (by simpa using hvar) (statement_performs ih declared hs)
  · obtain ⟨t, rest, rfl, hkind⟩ : ∃ t ts, rest = t :: ts ∧ t.kind = .var := by
      cases rest with
      | nil => simp at hvar
      | cons t rest => exact ⟨t, rest, rfl, by simpa using hvar⟩
    rw [declarationRule_of_var hkind]
    exact hs.yields_matched (by simp [hkind]) (var_performs src room declared hs.moveTo)

/-- A failed declaration is told, and the cursor moves to where reading resumes. -/
theorem declaration_settles (hs : s.Meets src room declared rest) :
    let r := recovering (declarationRule room (innerBlockRule room) declared) rest
    r.rest <:+ rest ∧ Settles (readDeclaration src.tokens) s r.value
      ((s.after src r).note (r.value.bind Stmt.declares)) := by
  intro r
  obtain ⟨hsuffix, enough, hreturns⟩ := declaration_yields ih hs
  rcases hrule : declarationRule room (innerBlockRule room) declared rest with
    ⟨result, reports, mid⟩
  rw [hrule] at hsuffix hreturns
  cases result with
  | ok stmt =>
    have hr : r = ⟨some stmt, reports, mid⟩ := by simp [r, recovering, hrule]
    rw [hr]
    refine ⟨hsuffix, Settles.tick ⟨enough, fun clock hclock => ?_⟩
      fun clock => by rw [readDeclaration]⟩
    exact (hreturns clock hclock).bind (returns_pure _ _)
  | error e =>
    let recovery : Recovery := ⟨mid.length - (resume mid).length, (resume mid).head?⟩
    let stopped : Cursor :=
      (s.after src (⟨.error e, reports, mid⟩ : Reading (Except SyntaxError Stmt))).complain
        (e.diagnostic src.eof)
    have hr : r = ⟨none, reports ++ [⟨e, some recovery⟩], resume mid⟩ := by
      simp [r, recovering, hrule, recovery]
    have hstopped : stopped.At src mid := ⟨(hs.after hsuffix).suffix, (hs.after hsuffix).position⟩
    have hend : (stopped.moveTo src (resume mid)).log (.resumed recovery.skipped
        (recovery.next.getD src.eof).line) = s.after src r := by
      simp [hr, stopped, Cursor.after, Cursor.complain, Cursor.log, Cursor.moveTo,
        SyntaxReport.event?]
    refine ⟨hr ▸ (resume_suffix_self mid).trans hsuffix, ?_⟩
    rw [← hend, hr]
    refine Settles.tick ⟨max enough (mid.length + 1), fun clock hclock => ?_⟩
      fun clock => by rw [readDeclaration]
    have hsync := returns_synchronize hstopped (show mid.length < clock by omega)
    exact (hreturns clock (by omega)).bind
      ((returns_modify _ _).bind (hsync.bind (returns_pure none _)))

/-- The kinds at which a scope with a closing token stops. -/
def stopsAt (closer : Option TokenKind) (k : TokenKind) : Bool :=
  closer = some k

omit ih in
theorem returns_closed (hs : s.At src rest) (closer : Option TokenKind) :
    Returns (closer.elim (pure false) (check src.tokens)) s
      (rest.head?.any fun t => stopsAt closer t.kind) s := by
  cases closer with
  | none =>
    have hnever : (rest.head?.any fun t => stopsAt none t.kind) = false := by
      cases rest <;> rfl
    rw [hnever]
    exact returns_pure _ _
  | some kind =>
    have hstops : (fun t : Token => stopsAt (some kind) t.kind) =
        fun t => decide (t.kind = kind) := by
      funext t
      simp [stopsAt, eq_comm]
    rw [hstops]
    exact returns_check hs kind

def Cursor.inScopes (s : Cursor) (scopes : List (List String)) : Cursor :=
  { s with scopes }

omit ih in
theorem Cursor.note_eq {outer : List (List String)} (h : s.scopes = declared :: outer)
    (name : Option String) : s.note name = s.inScopes ((name.toList ++ declared) :: outer) := by
  cases name with
  | none => simp [Cursor.note, Cursor.inScopes, ← h]
  | some name => simp [Cursor.note, Cursor.declare, Cursor.inScopes, h]

omit ih in
theorem scope_settles_stopped {closer : Option TokenKind} {outer : List (List String)}
    (body : List Stmt) (hs : s.Meets src room declared rest)
    (hscopes : s.scopes = declared :: outer) (hstop : ∀ t ∈ rest.head?, stopsAt closer t.kind = true) :
    Settles (fun clock => readScope src.tokens clock closer body) s (body ++ [])
      ((s.after src (⟨[], [], rest⟩ : Reading (List Stmt))).inScopes (declared :: outer)) := by
  have hstopped : ((rest.head?.any fun t => stopsAt closer t.kind) || rest.isEmpty) = true := by
    cases rest with
    | nil => rfl
    | cons t rest => simp [hstop t rfl]
  rw [Cursor.after_silent, ← hs.toAt.eq_moveTo, ← hscopes, List.append_nil]
  refine Settles.tick ⟨0, fun clock _ => ?_⟩ fun clock => by rw [readScope]
  refine (returns_closed hs.toAt closer).bind ((returns_isAtEnd hs.toAt).bind ?_)
  rw [if_pos hstopped]
  exact returns_pure _ _

/-- The loop over the statements of a scope. -/
theorem scope_settles (closer : Option TokenKind) {outer : List (List String)} (body : List Stmt)
    (hs : s.Meets src room declared rest) (hscopes : s.scopes = declared :: outer) :
    (scopeFrom room (stopsAt closer) declared rest).rest <:+ rest ∧
      ∃ names, Settles (fun clock => readScope src.tokens clock closer body) s
        (body ++ (scopeFrom room (stopsAt closer) declared rest).value)
        ((s.after src (scopeFrom room (stopsAt closer) declared rest)).inScopes
          (names :: outer)) := by
  induction hlength : rest.length using Nat.strongRecOn generalizing s declared rest body with
  | ind length hshorter =>
    cases rest with
    | nil => exact ⟨List.suffix_refl _, declared, scope_settles_stopped body hs hscopes (by simp)⟩
    | cons t ts =>
      cases hstop : stopsAt closer t.kind with
      | true =>
        have hscope : scopeFrom room (stopsAt closer) declared (t :: ts) = ⟨[], [], t :: ts⟩ := by
          simp only [scopeFrom, List.length_cons, scopeReading, hstop, if_true]
        rw [hscope]
        exact ⟨List.suffix_refl _, declared,
          scope_settles_stopped body hs hscopes (by simpa using hstop)⟩
      | false =>
        obtain ⟨-, enough, hfirst⟩ := declaration_settles ih hs
        have hsuffix := recovering_suffix room declared t ts
        rw [scopeFrom_cons room declared hstop ts]
        generalize recovering _ (t :: ts) = first at hfirst hsuffix ⊢
        have hs' := hs.after (hsuffix.trans (List.suffix_cons t ts))
        have hscopes' : (s.after src first).scopes = declared :: outer := hscopes
        rw [Cursor.note_eq hscopes'] at hfirst
        have hnext : ((s.after src first).inScopes
            (((first.value.bind Stmt.declares).toList ++ declared) :: outer)).Meets src room
              ((first.value.bind Stmt.declares).toList ++ declared) first.rest :=
          ⟨⟨hs'.suffix, hs'.position⟩, hs'.depth, rfl⟩
        -- The declaration has passed a token, also if it failed.
        have hless : first.rest.length < length := by
          have hle := hsuffix.length_le
          rw [List.length_cons] at hlength
          omega
        obtain ⟨hothers, names, enough', hsecond⟩ :=
          hshorter _ hless (body ++ first.value.toList) hnext rfl rfl
        refine ⟨hothers.trans (hsuffix.trans (List.suffix_cons t ts)), names, ?_⟩
        refine Settles.tick ⟨max enough enough', fun clock hclock => ?_⟩
          fun clock => by rw [readScope]
        have hgoes : ((t :: ts).head?.any (fun t => stopsAt closer t.kind) ||
            (t :: ts).isEmpty) = false := by simp [hstop]
        refine (returns_closed hs.toAt closer).bind ((returns_isAtEnd hs.toAt).bind ?_)
        rw [hgoes]
        refine (hfirst clock (by omega)).bind ?_
        have hend : ∀ others : Reading (List Stmt),
            (((s.after src first).inScopes
              (((first.value.bind Stmt.declares).toList ++ declared) :: outer)).after src
                others).inScopes (names :: outer) =
              (s.after src ⟨others.value, first.reports ++ others.reports, others.rest⟩).inScopes
                (names :: outer) := by
          intro others
          rw [← Cursor.after_after]
          rfl
        have hlast := hsecond clock (by omega)
        rw [hend, List.append_assoc] at hlast
        exact hlast

/-- A block opens a scope and closes it again. -/
theorem body_settles (hs : s.Meets src room declared rest) :
    let scope := scopeOf room (innerBlockRule room) (· = .rightBrace) rest
    scope.rest <:+ rest ∧ Settles (readBody src.tokens) s scope.value (s.after src scope) := by
  intro scope
  have hopened : s.openScope.Meets src room [] rest := ⟨⟨hs.suffix, hs.position⟩, hs.depth, rfl⟩
  obtain ⟨hsuffix, names, enough, hreturns⟩ := scope_settles ih (some .rightBrace) [] hopened rfl
  have hscope : scopeFrom room (stopsAt (some .rightBrace)) [] rest = scope := by
    have hstops : stopsAt (some .rightBrace) = fun k => decide (k = .rightBrace) := by
      funext k
      simp [stopsAt, eq_comm]
    rw [hstops]
    rfl
  rw [hscope] at hsuffix hreturns
  refine ⟨hsuffix, Settles.tick ⟨enough, fun clock hclock => ?_⟩ fun clock => by rw [readBody]⟩
  refine (returns_modify _ _).bind ((hreturns clock hclock).bind ((returns_modify _ _).bind ?_))
  exact returns_pure scope.value _

theorem body_performs (declared : List String) :
    Performs src room declared noNames
      (fun clock => (readBody src.tokens clock : Attempt (List Stmt))) (bodyRule room (innerBlockRule room)) := by
  intro s rest hs
  obtain ⟨hsuffix, enough, hreturns⟩ := body_settles ih hs
  exact ⟨hsuffix, enough, fun clock hclock => (hreturns clock hclock).attempt⟩

theorem block_performs : BlocksPerform src room := by
  intro declared
  refine ((body_performs ih declared).bind fun body => ?_).tick fun clock => by rw [readBlock]
  exact (performs_consume _ _).bind fun _ => performs_pure rfl

omit ih in
theorem blocks_perform (src : Stream) (room : Nat) : BlocksPerform src room := by
  induction room with
  | zero => exact block_performs fun r hr => absurd hr (Nat.succ_ne_zero r).symm
  | succ room ih =>
    refine block_performs fun r hr => ?_
    cases hr
    exact ih

end Statements

end Treewalk
