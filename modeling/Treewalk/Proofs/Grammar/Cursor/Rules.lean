import Treewalk.Proofs.Grammar.Cursor.Steps

/-! Each procedure does what a rule of the grammar says. From a cursor in front of the rest of the
text it comes to an end with what the rule reads there: the result or the error, the errors told
meanwhile, and the cursor in front of what the rule leaves; the depth and the scopes are those at the
start, but for a name that was declared. -/

namespace Treewalk

section Performing

variable {α β : Type}

/-- How reading went on after an error, as it is logged. -/
def SyntaxReport.event? (eof : Token) (r : SyntaxReport) : Option Event :=
  r.recovery.map fun recovery => .resumed recovery.skipped (recovery.next.getD eof).line

/-- The cursor behind what was read, with the errors told meanwhile. -/
def Cursor.after (src : Stream) (s : Cursor) (r : Reading α) : Cursor :=
  { s.moveTo src r.rest with
    diagnostics := s.diagnostics ++ r.reports.map fun report => report.error.diagnostic src.eof
    events := s.events ++ r.reports.filterMap (SyntaxReport.event? src.eof) }

/-- The cursor with a name declared, if there is one. -/
def Cursor.note (s : Cursor) (name : Option String) : Cursor :=
  name.elim s s.declare

/-- What a result declares in the scope it stands in. -/
def declaredBy (names : α → Option String) : Except SyntaxError α → Option String
  | .ok a => names a
  | .error _ => none

/-- The cursor stands in front of the rest of the text, with so much room for nesting and with these
names in the innermost scope. -/
structure Cursor.Meets (src : Stream) (room : Nat) (declared : List String) (s : Cursor)
    (rest : List Token) : Prop extends s.At src rest where
  depth : maxNesting - s.depth = room
  scope : s.declared = declared

/-- The procedure comes to an end with what was read. -/
def Yields (src : Stream) (names : α → Option String) (p : Nat → Attempt α) (s : Cursor)
    (rest : List Token) (r : Reading (Except SyntaxError α)) : Prop :=
  r.rest <:+ rest ∧
    Settles (fun clock => (p clock).run) s (r.value.mapError (SyntaxError.diagnostic src.eof))
      ((s.after src r).note (declaredBy names r.value))

/-- With so much room and these names declared, the procedure does what the rule says. -/
def Performs (src : Stream) (room : Nat) (declared : List String) (names : α → Option String)
    (p : Nat → Attempt α) (rule : Rule α) : Prop :=
  ∀ ⦃s : Cursor⦄ ⦃rest : List Token⦄, s.Meets src room declared rest →
    Yields src names p s rest (rule rest)

def noNames : α → Option String := fun _ => none

variable {src : Stream} {room : Nat} {declared : List String} {names : α → Option String}
variable {names' : β → Option String} {s : Cursor} {rest : List Token}

theorem declaredBy_noNames (result : Except SyntaxError α) : declaredBy noNames result = none := by
  cases result <;> rfl

theorem Cursor.Meets.after (h : s.Meets src room declared rest) {r : Reading α}
    (hr : r.rest <:+ rest) : (s.after src r).Meets src room declared r.rest where
  suffix := hr.trans h.suffix
  position := (Cursor.at_moveTo (hr.trans h.suffix) s).position
  depth := h.depth
  scope := h.scope

theorem Cursor.Meets.moveTo {t : Token} (h : s.Meets src room declared (t :: rest)) :
    (s.moveTo src rest).Meets src room declared rest where
  toAt := Cursor.at_moveTo h.tail s
  depth := h.depth
  scope := h.scope

theorem Cursor.after_silent (s : Cursor) (a : α) (rest : List Token) :
    s.after src ⟨a, [], rest⟩ = s.moveTo src rest := by
  simp [Cursor.after, Cursor.moveTo]

theorem Cursor.after_after (s : Cursor) (r : Reading α) (r' : Reading β) :
    (s.after src r).after src r' = s.after src ⟨r'.value, r.reports ++ r'.reports, r'.rest⟩ := by
  simp [Cursor.after, Cursor.moveTo, List.filterMap_append]

theorem Yields.tick {p q : Nat → Attempt α} {r : Reading (Except SyntaxError α)}
    (hq : Yields src names q s rest r) (h : ∀ clock, p (clock + 1) = q clock) :
    Yields src names p s rest r :=
  ⟨hq.1, hq.2.tick fun clock => congrArg ExceptT.run (h clock)⟩

theorem Performs.tick {p q : Nat → Attempt α} {rule : Rule α}
    (hq : Performs src room declared names q rule) (h : ∀ clock, p (clock + 1) = q clock) :
    Performs src room declared names p rule :=
  fun _ _ hs => (hq hs).tick h

/-- A procedure that leaves the cursor where it is. -/
theorem Cursor.Meets.yields_idle (h : s.Meets src room declared rest) {p : Attempt α}
    {result : Except SyntaxError α} (hnames : declaredBy names result = none)
    (hp : Returns p.run s (result.mapError (SyntaxError.diagnostic src.eof)) s) :
    Yields src names (fun _ => p) s rest ⟨result, [], rest⟩ := by
  refine ⟨List.suffix_refl _, ?_⟩
  rw [hnames, Cursor.after_silent, ← h.toAt.eq_moveTo]
  exact hp.settles

theorem performs_pure {a : α} (h : names a = none) :
    Performs src room declared names (fun _ => pure a) (pure a) :=
  fun _ _ hs => hs.yields_idle h (returns_pure _ _)

theorem performs_throw {fault : SyntaxFault} {t : Token} (ht : t.kind ≠ .eof) :
    Performs src room declared names (fun _ => throw (errorAt t fault))
      (Rule.fail fault (some t)) := by
  intro s rest hs
  refine hs.yields_idle rfl ?_
  rw [← SyntaxError.diagnostic_of_token ht src.eof]
  exact returns_throw _ _

theorem performs_throwHere (fault : SyntaxFault) :
    Performs src room declared names
      (fun _ => do throw (errorAt (← peek src.tokens) fault)) (Rule.failHere fault) := by
  intro s rest hs
  refine hs.yields_idle rfl ?_
  refine (returns_peek hs.toAt).attempt.attempt_bind ?_
  rw [← hs.diagnostic_eq fault]
  exact returns_throw _ _

theorem Cursor.Meets.yields_report (hs : s.Meets src room declared rest) {fault : SyntaxFault}
    {t : Token} (ht : t.kind ≠ .eof) {p : Attempt Unit}
    (hp : Returns p.run s (.ok ()) (s.complain (errorAt t fault))) :
    Yields src noNames (fun _ => p) s rest (Rule.report fault t rest) := by
  have hstate : s.after src (Rule.report fault t rest) = s.complain (errorAt t fault) := by
    conv => rhs; rw [hs.toAt.eq_moveTo]
    simp [Cursor.after, Rule.report, Cursor.complain, Cursor.moveTo, SyntaxReport.event?,
      SyntaxError.diagnostic_of_token ht]
  refine ⟨List.suffix_refl _, ?_⟩
  rw [declaredBy_noNames, hstate]
  exact hp.settles

theorem performs_complain {fault : SyntaxFault} {t : Token} (ht : t.kind ≠ .eof) :
    Performs src room declared noNames
      (fun _ => (modify fun s => s.complain (errorAt t fault) : Attempt Unit))
      (Rule.report fault t) :=
  fun _ _ hs => hs.yields_report ht rfl

theorem Yields.bind {p : Nat → Attempt α} {rule : Rule α} {next : α → Nat → Attempt β}
    {next' : α → Rule β} (hp : Yields src noNames p s rest (rule rest))
    (hnext : ∀ a, (rule rest).value = .ok a →
      Yields src names' (next a) (s.after src (rule rest)) (rule rest).rest
        (next' a (rule rest).rest)) :
    Yields src names' (fun clock => p clock >>= fun a => next a clock) s rest
      ((rule >>= next') rest) := by
  obtain ⟨hsuffix, enough, hfirst⟩ := hp
  have hbind : (rule >>= next') rest = rule.bind next' rest := rfl
  rw [declaredBy_noNames] at hfirst
  rcases hrule : rule rest with ⟨result, reports, mid⟩
  rw [hrule] at hsuffix hfirst hnext
  cases result with
  | error e =>
    rw [hbind, Rule.bind_error hrule]
    exact ⟨hsuffix, enough, fun clock hclock => (hfirst clock hclock).attempt_error _⟩
  | ok a =>
    obtain ⟨hsuffix', enough', hsecond⟩ := hnext a rfl
    rw [Cursor.after_after] at hsecond
    rw [hbind, Rule.bind_ok hrule]
    refine ⟨hsuffix'.trans hsuffix, max enough enough', fun clock hclock => ?_⟩
    exact (hfirst clock (by omega)).attempt_bind (hsecond clock (by omega))

theorem Performs.bind {p : Nat → Attempt α} {rule : Rule α} {next : α → Nat → Attempt β}
    {next' : α → Rule β} (hp : Performs src room declared noNames p rule)
    (hnext : ∀ a, Performs src room declared names' (next a) (next' a)) :
    Performs src room declared names' (fun clock => p clock >>= fun a => next a clock)
      (rule >>= next') :=
  fun _ _ hs => (hp hs).bind fun a _ => hnext a (hs.after (hp hs).1)

end Performing

section Matching

variable {α β : Type} {src : Stream} {room : Nat} {declared : List String}
variable {names : α → Option String} {image : TokenKind → Option β} {kinds : List TokenKind}
variable {s : Cursor} {rest : List Token}

theorem accept?_bind_of_none (h : ∀ t ∈ rest.head?, image t.kind = none)
    (next : Option (β × Token) → Rule α) : (Rule.accept? image >>= next) rest = next none rest := by
  have haccept : Rule.accept? image rest = ⟨.ok none, [], rest⟩ := by
    cases rest with
    | nil => rfl
    | cons t rest => simp [Rule.accept?, h t rfl]
  exact Rule.bind_ok haccept next

theorem accept?_bind_of_some {t : Token} {b : β} (h : image t.kind = some b)
    (next : Option (β × Token) → Rule α) :
    (Rule.accept? image >>= next) (t :: rest) = next (some (b, t)) rest := by
  have haccept : Rule.accept? image (t :: rest) = ⟨.ok (some (b, t)), [], rest⟩ := by
    simp [Rule.accept?, h]
  exact Rule.bind_ok haccept next

variable {yes no : Nat → Attempt α} {r : Reading (Except SyntaxError α)} {t : Token}

theorem Cursor.At.yields_matched (hs : s.At src (t :: rest)) (ht : t.kind ∈ kinds)
    (hyes : Yields src names yes (s.moveTo src rest) rest r) :
    Yields src names (fun clock => do
      if ← matchKinds src.tokens kinds then yes clock else no clock) s (t :: rest) r := by
  obtain ⟨hsuffix, enough, hreturns⟩ := hyes
  have hmatch := (returns_matchKinds hs ht).attempt
  exact ⟨hsuffix.trans (List.suffix_cons t rest), enough, fun clock hclock =>
    hmatch.attempt_bind (hreturns clock hclock)⟩

theorem Cursor.At.yields_unmatched (hs : s.At src rest) (ht : ∀ t ∈ rest.head?, t.kind ∉ kinds)
    (hno : Yields src names no s rest r) :
    Yields src names (fun clock => do
      if ← matchKinds src.tokens kinds then yes clock else no clock) s rest r := by
  obtain ⟨hsuffix, enough, hreturns⟩ := hno
  have hmatch := (returns_matchKinds_none hs ht).attempt
  exact ⟨hsuffix, enough, fun clock hclock => hmatch.attempt_bind (hreturns clock hclock)⟩

/-- A procedure that goes on in one way if it could pass a token of the given kinds, and in another
if not. -/
theorem Cursor.At.yields_when (hs : s.At src rest) (himage : ∀ k, k ∈ kinds ↔ image k ≠ none)
    {next : Option (β × Token) → Rule α}
    (hyes : ∀ b t ts, rest = t :: ts → image t.kind = some b →
      Yields src names yes (s.moveTo src ts) ts (next (some (b, t)) ts))
    (hno : Yields src names no s rest (next none rest)) :
    Yields src names (fun clock => do
      if ← matchKinds src.tokens kinds then yes clock else no clock) s rest
      ((Rule.accept? image >>= next) rest) := by
  by_cases hnone : ∀ t ∈ rest.head?, image t.kind = none
  · rw [accept?_bind_of_none hnone]
    exact hs.yields_unmatched (fun t ht hk => (himage t.kind).mp hk (hnone t ht)) hno
  · obtain ⟨t, rest, rfl, b, hb⟩ : ∃ t ts, rest = t :: ts ∧ ∃ b, image t.kind = some b := by
      cases rest with
      | nil => simp at hnone
      | cons t rest => exact ⟨t, rest, rfl, Option.ne_none_iff_exists'.mp (by simpa using hnone)⟩
    have hkind : t.kind ∈ kinds := (himage t.kind).mpr (by simp [hb])
    rw [accept?_bind_of_some hb]
    exact hs.yields_matched hkind (hyes b t rest rfl hb)

theorem Returns.yields_previous (h : Returns (previous src.tokens) s t s)
    {next : Token → Nat → Attempt α} (hnext : Yields src names (next t) s rest r) :
    Yields src names (fun clock => do
      let t ← previous src.tokens
      next t clock) s rest r := by
  obtain ⟨hsuffix, enough, hreturns⟩ := hnext
  exact ⟨hsuffix, enough, fun clock hclock => h.attempt.attempt_bind (hreturns clock hclock)⟩

theorem Cursor.At.yields_match (hs : s.At src rest) (himage : ∀ k, k ∈ kinds ↔ image k ≠ none)
    {yes : Token → Nat → Attempt α} {next : Option (β × Token) → Rule α}
    (hyes : ∀ b t ts, rest = t :: ts → image t.kind = some b →
      Yields src names (yes t) (s.moveTo src ts) ts (next (some (b, t)) ts))
    (hno : Yields src names no s rest (next none rest)) :
    Yields src names
      (fun clock => do
        if ← matchKinds src.tokens kinds then
          let t ← previous src.tokens
          yes t clock
        else no clock)
      s rest ((Rule.accept? image >>= next) rest) := by
  refine hs.yields_when himage ?_ hno
  rintro b t ts rfl hb
  exact (returns_previous hs).yields_previous (hyes b t ts rfl hb)

theorem performs_match (himage : ∀ k, k ∈ kinds ↔ image k ≠ none) {yes : Token → Nat → Attempt α}
    {next : Option (β × Token) → Rule α}
    (hyes : ∀ b t, image t.kind = some b → t.kind ≠ .eof →
      Performs src room declared names (yes t) (next (some (b, t))))
    (hno : Performs src room declared names no (next none)) :
    Performs src room declared names
      (fun clock => do
        if ← matchKinds src.tokens kinds then
          let t ← previous src.tokens
          yes t clock
        else no clock)
      (Rule.accept? image >>= next) := by
  intro s rest hs
  refine hs.yields_match himage ?_ (hno hs)
  rintro b t ts rfl hb
  exact hyes b t hb hs.kind_ne hs.moveTo

theorem mem_only_iff {kind k : TokenKind} : k ∈ [kind] ↔ only kind k ≠ none := by
  simp [only_eq_none_iff]

theorem performs_consume (kind : TokenKind) (fault : SyntaxFault) :
    Performs src room declared noNames (fun _ => consume src.tokens kind fault)
      (Rule.expect kind fault) := by
  intro s rest hs
  have hcheck := (returns_check hs.toAt kind).attempt
  by_cases hnone : ∀ t ∈ rest.head?, only kind t.kind = none
  · have hexpect : Rule.expect kind fault rest = Rule.failHere fault rest :=
      accept?_bind_of_none hnone _
    have hhead : rest.head?.any (·.kind = kind) = false := by
      cases rest with
      | nil => rfl
      | cons t rest => simpa [only] using hnone
    have hfail : Yields src noNames (fun _ => do throw (errorAt (← peek src.tokens) fault)) s rest
        (Rule.failHere (α := Token) fault rest) := performs_throwHere fault hs
    obtain ⟨hsuffix, enough, hreturns⟩ := hfail
    rw [hexpect]
    rw [hhead] at hcheck
    exact ⟨hsuffix, enough, fun clock hclock => hcheck.attempt_bind (hreturns clock hclock)⟩
  · obtain ⟨t, rest, rfl, hkind⟩ : ∃ t ts, rest = t :: ts ∧ t.kind = kind := by
      cases rest with
      | nil => simp at hnone
      | cons t rest => exact ⟨t, rest, rfl, by simpa [only] using hnone⟩
    have honly : only kind t.kind = some () := by simp [only, hkind]
    have hexpect : Rule.expect kind fault (t :: rest) = ⟨.ok t, [], rest⟩ :=
      accept?_bind_of_some honly _
    have hhead : (t :: rest).head?.any (·.kind = kind) = true := by simp [hkind]
    rw [hexpect]
    rw [hhead] at hcheck
    refine ⟨List.suffix_cons t rest, ?_⟩
    rw [declaredBy_noNames, Cursor.after_silent]
    exact (hcheck.attempt_bind (returns_advance hs.toAt).attempt).settles

theorem kind_of_expect {kind : TokenKind} {fault : SyntaxFault} {ts : List Token}
    (h : (Rule.expect kind fault ts).value = .ok t) : t.kind = kind := by
  rcases he : Rule.expect kind fault ts with ⟨result, reports, rest⟩
  rw [he] at h
  cases h
  exact (Rule.reads_expect.mp he).2.1

/-- A rule one level deeper; without room for one the nesting is reported at the opening token. -/
theorem performs_nested {inner : Option (Rule α)} {p : Nat → Attempt α} {opener : Token}
    (hopener : opener.kind ≠ .eof) (hnone : room = 0 → inner = none)
    (hsome : ∀ r, room = r + 1 →
      ∃ rule, inner = some rule ∧ Performs src r declared noNames p rule) :
    Performs src room declared noNames (fun clock => nested opener (p clock))
      (Rule.nested opener inner) := by
  intro s rest hs
  have hget := returns_get s
  cases room with
  | zero =>
    have hdepth : s.depth ≥ maxNesting := Nat.le_of_sub_eq_zero hs.depth
    rw [hnone rfl]
    have hfail : Yields src noNames (fun _ => throw (errorAt opener .tooMuchNesting)) s rest
        (Rule.fail (α := α) .tooMuchNesting (some opener) rest) := performs_throw hopener hs
    obtain ⟨hsuffix, enough, hreturns⟩ := hfail
    refine ⟨hsuffix, enough, fun clock hclock => hget.bind ?_⟩
    rw [if_pos hdepth]
    exact hreturns clock hclock
  | succ r =>
    have hdepth : ¬ s.depth ≥ maxNesting := by
      have hroom := hs.depth
      omega
    have hinner : { s with depth := s.depth + 1 : Cursor }.Meets src r declared rest :=
      ⟨⟨hs.suffix, hs.position⟩, by have hroom := hs.depth; dsimp only; omega, hs.scope⟩
    obtain ⟨rule, rfl, hp⟩ := hsome r rfl
    obtain ⟨hsuffix, enough, hreturns⟩ := hp hinner
    rw [declaredBy_noNames] at hreturns
    refine ⟨hsuffix, enough, fun clock hclock => hget.bind ?_⟩
    rw [if_neg hdepth, declaredBy_noNames]
    exact (returns_modify _ _).bind ((hreturns clock hclock).bind ((returns_get _).bind
      ((returns_difference (Nat.le_add_left 1 s.depth) _).bind
        ((returns_modify _ _).bind (returns_pure _ _)))))

theorem yields_operatorOf {op? : TokenKind → Option β} {op : β} (h : op? t.kind = some op)
    {next : β → Nat → Attempt α} (hnext : Yields src names (next op) s rest r) :
    Yields src names (fun clock => operatorOf op? t >>= fun op => next op clock) s rest r := by
  have hop : operatorOf op? t = pure op := by rw [operatorOf, h]
  rw [hop]
  exact hnext

end Matching

section Expressions

variable {src : Stream} {room : Nat}

/-- The procedure of the nonterminal does what its rule says, whatever is declared. -/
def Nonterminal.Performs (src : Stream) (room : Nat) (n : Nonterminal) : Prop :=
  ∀ declared, Treewalk.Performs src room declared noNames
    (fun clock => readExpression src.tokens clock n) (n.rule (innerRules room))

theorem nested_performs {field : ExprRules → Rule Expr} {n : Nonterminal}
    (hfield : ∀ r, field (exprRules r) = n.rule (innerRules r))
    (ih : ∀ r, room = r + 1 → n.Performs src r) {opener : Token} (hopener : opener.kind ≠ .eof)
    (declared : List String) :
    Performs src room declared noNames
      (fun clock => nested opener (readExpression src.tokens clock n))
      (Rule.nested opener ((innerRules room).map field)) := by
  refine performs_nested hopener ?_ ?_
  · rintro rfl
    rfl
  · rintro r rfl
    refine ⟨field (exprRules r), rfl, ?_⟩
    rw [hfield]
    exact ih r rfl declared

theorem unary_performs (ih : ∀ r, room = r + 1 → Nonterminal.unary.Performs src r)
    (hp : Nonterminal.primary.Performs src room) : Nonterminal.unary.Performs src room := by
  intro declared
  have himage : ∀ k, k ∈ [TokenKind.bang, .minus] ↔ unaryOp? k ≠ none := by
    intro k
    cases k <;> decide
  refine (performs_match himage ?_ (hp declared)).tick fun clock => by rw [readExpression]
  intro op token hop htoken
  have hoperand := nested_performs operand_exprRules ih htoken declared
  intro s rest hs
  exact yields_operatorOf hop ((hoperand.bind fun operand => performs_pure rfl) hs)

theorem Tier.mem_kinds_iff (tier : Tier) (k : TokenKind) : k ∈ tier.kinds ↔ tier.op? k ≠ none := by
  cases tier <;> cases k <;> decide

theorem operators_perform {tier : Tier} (ho : tier.operand.Performs src room)
    {declared : List String} {count : Nat} (left : Expr) {s : Cursor} {rest : List Token}
    (hcount : rest.length ≤ count) (hs : s.Meets src room declared rest) :
    Yields src noNames (fun clock => readOperators src.tokens clock tier left) s rest
      (chainRule tier.op? (tier.operand.rule (innerRules room)) count left rest) := by
  -- The bound on the tokens that remain is the one that the rule counts down.
  induction count generalizing left s rest with
  | zero =>
    obtain rfl := List.length_eq_zero_iff.mp (Nat.le_zero.mp hcount)
    have hdone : Yields src noNames (fun _ => pure left) s [] ⟨.ok left, [], []⟩ :=
      performs_pure rfl hs
    exact (hs.yields_unmatched (by simp) hdone).tick fun clock => by rw [readOperators]
  | succ count ih =>
    have hdone : Yields src noNames (fun _ => pure left) s rest ⟨.ok left, [], rest⟩ :=
      performs_pure rfl hs
    rw [chainRule]
    refine (hs.yields_match tier.mem_kinds_iff ?_ hdone).tick
      fun clock => by rw [readOperators]
    rintro op token ts rfl hop
    have hright := ho declared hs.moveTo
    have hlength := hright.1.length_le
    refine yields_operatorOf hop (hright.bind fun right _ => ?_)
    exact ih _ (by rw [List.length_cons] at hcount; omega) (hs.moveTo.after hright.1)

theorem operation_performs (tier : Tier) (ho : tier.operand.Performs src room) :
    (Nonterminal.operation tier).Performs src room := by
  intro declared
  rw [Nonterminal.rule_operation]
  refine ((ho declared).bind ?_).tick fun clock => by rw [readExpression]
  intro first s rest hs
  exact operators_perform ho first (Nat.le_refl _) hs

theorem assignment_performs (ih : ∀ r, room = r + 1 → Nonterminal.assignment.Performs src r)
    (he : (Nonterminal.operation .equality).Performs src room) :
    Nonterminal.assignment.Performs src room := by
  intro declared
  refine ((he declared).bind fun left => ?_).tick fun clock => by rw [readExpression]
  refine performs_match (fun _ => mem_only_iff) ?_ (performs_pure rfl)
  rintro ⟨⟩ equals - hequals
  refine (nested_performs expression_exprRules ih hequals declared).bind fun value => ?_
  cases left with
  | «variable» name => exact performs_pure rfl
  | literal _ | grouping _ | unary _ _ _ | binary _ _ _ _ | assign _ _ =>
    exact (performs_complain hequals).bind fun _ => performs_pure rfl

theorem grouping_performs (ih : ∀ r, room = r + 1 → Nonterminal.assignment.Performs src r)
    {paren : Token} (hparen : paren.kind ≠ .eof) (declared : List String) :
    Performs src room declared noNames
      (fun clock => do
        let expr ← nested paren (readExpression src.tokens clock .assignment)
        let _ ← consume src.tokens .rightParen .expectParenAfterExpression
        return .grouping expr)
      (groupingRule (innerRules room) paren) :=
  (nested_performs expression_exprRules ih hparen declared).bind fun _ =>
    (performs_consume _ _).bind fun _ => performs_pure rfl

theorem primary_performs (ih : ∀ r, room = r + 1 → Nonterminal.assignment.Performs src r) :
    Nonterminal.primary.Performs src room := by
  intro declared s rest hs
  refine Yields.tick ?_ fun clock => by rw [readExpression]
  have hfail : Yields src noNames
      (fun _ => do throw (errorAt (← peek src.tokens) .expectExpression)) s rest
      (Rule.failHere (α := Expr) .expectExpression rest) := performs_throwHere _ hs
  cases rest with
  | nil =>
    have hnil : ∀ kinds : List TokenKind, ∀ t ∈ ([] : List Token).head?, t.kind ∉ kinds := by simp
    exact hs.yields_unmatched (hnil _) (hs.yields_unmatched (hnil _) (hs.yields_unmatched (hnil _)
      (hs.yields_unmatched (hnil _) (hs.yields_unmatched (hnil _) (hs.yields_unmatched (hnil _)
        hfail)))))
  | cons t rest =>
    have hprevious := returns_previous hs.toAt
    have hatom : ∀ {e : Expr}, atom? t = some e →
        primaryRule (innerRules room) (t :: rest) = ⟨.ok e, [], rest⟩ := by
      intro e he
      rw [primaryRule, he]
    have hpure : ∀ e : Expr,
        Yields src noNames (fun _ => pure e) (s.moveTo src rest) rest ⟨.ok e, [], rest⟩ :=
      fun e => performs_pure rfl hs.moveTo
    have hskip : ∀ {kinds : List TokenKind}, t.kind ∉ kinds →
        ∀ u ∈ (t :: rest).head?, u.kind ∉ kinds := by
      rintro kinds hkinds u ⟨⟩
      exact hkinds
    -- The cases are taken in the order in which the procedure tries the kinds.
    rw [Nonterminal.rule]
    by_cases hfalse : t.kind = .false
    · rw [hatom (by rw [atom?, hfalse])]
      exact hs.yields_matched (by simp [hfalse]) (hpure _)
    refine hs.yields_unmatched (hskip (by simpa using hfalse)) ?_
    by_cases htrue : t.kind = .true
    · rw [hatom (by rw [atom?, htrue])]
      exact hs.yields_matched (by simp [htrue]) (hpure _)
    refine hs.yields_unmatched (hskip (by simpa using htrue)) ?_
    by_cases hnil : t.kind = .nil
    · rw [hatom (by rw [atom?, hnil])]
      exact hs.yields_matched (by simp [hnil]) (hpure _)
    refine hs.yields_unmatched (hskip (by simpa using hnil)) ?_
    by_cases hliteral : t.kind = .number ∨ t.kind = .string
    · have hvalue : atom? t = some (.literal (t.literal.getD .nil)) := by
        rcases hliteral with h | h <;> rw [atom?, h]
      rw [hatom hvalue]
      exact hs.yields_matched (by simpa using hliteral) (hprevious.yields_previous (hpure _))
    refine hs.yields_unmatched (hskip (by simpa using hliteral)) ?_
    by_cases hname : t.kind = .identifier
    · rw [hatom (by rw [atom?, hname])]
      exact hs.yields_matched (by simp [hname]) (hprevious.yields_previous (hpure _))
    refine hs.yields_unmatched (hskip (by simpa using hname)) ?_
    have hnone : atom? t = none := by
      rw [not_or] at hliteral
      rw [atom?]
      split <;> simp_all
    rw [primaryRule, hnone]
    by_cases hparen : t.kind = .leftParen
    · simp only [if_pos hparen]
      exact hs.yields_matched (by simp [hparen])
        (hprevious.yields_previous (grouping_performs ih hs.kind_ne declared hs.moveTo))
    · simp only [if_neg hparen]
      exact hs.yields_unmatched (hskip (by simpa using hparen)) hfail

theorem nonterminals_perform (src : Stream) (room : Nat) :
    ∀ n, Nonterminal.Performs src room n := by
  induction room using Nat.strongRecOn with
  | ind room ih =>
    -- Within one room each rule calls the one that binds tighter; only nested rules need less room.
    have hinner : ∀ n r, room = r + 1 → Nonterminal.Performs src r n :=
      fun n r hr => ih r (by omega) n
    have hp : Nonterminal.primary.Performs src room := primary_performs (hinner _)
    have hu : Nonterminal.unary.Performs src room := unary_performs (hinner _) hp
    have hf : (Nonterminal.operation .factor).Performs src room := operation_performs .factor hu
    have ht : (Nonterminal.operation .term).Performs src room := operation_performs .term hf
    have hc : (Nonterminal.operation .comparison).Performs src room :=
      operation_performs .comparison ht
    have he : (Nonterminal.operation .equality).Performs src room := operation_performs .equality hc
    intro n
    match n with
    | .assignment => exact assignment_performs (hinner _) he
    | .operation .equality => exact he
    | .operation .comparison => exact hc
    | .operation .term => exact ht
    | .operation .factor => exact hf
    | .unary => exact hu
    | .primary => exact hp

end Expressions

end Treewalk
