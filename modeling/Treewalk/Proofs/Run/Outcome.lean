import Treewalk.Proofs.Execution.Redeclaration

/-! The outcome of a run, told by how its statements ended. A program with a static error tells its
errors and leaves the environment as it was; any other ends as its statements do, and tells the error
that stopped them, if one did. -/

namespace Treewalk

def Notice.diagnostic? : Notice → Option Diagnostic
  | .diagnostic d _ _ => some d
  | .event _ => none

/-- The diagnostics that come with the outcome, in order. -/
def Outcome.diagnostics (o : Outcome) : List Diagnostic :=
  o.notices.filterMap Notice.diagnostic?

def statusOf : Except RuntimeError Unit → Status
  | .ok _ => .success
  | .error _ => .runtimeError

def diagnosticsOf : Except RuntimeError Unit → List Diagnostic
  | .ok _ => []
  | .error e => [e.diagnostic]

theorem statusOf_ne_staticError (result : Except RuntimeError Unit) :
    statusOf result ≠ .staticError := by
  cases result <;> simp [statusOf]

variable {p : Program}

/-- Some events, then these diagnostics about the program. -/
def Outcome.Announces (o : Outcome) (p : Program) (ds : List Diagnostic) : Prop :=
  ∃ events : List Event, o.notices = events.map .event ++ ds.map p.notice

theorem Outcome.Announces.diagnostics_eq {o : Outcome} {ds : List Diagnostic}
    (h : o.Announces p ds) : o.diagnostics = ds := by
  obtain ⟨events, h⟩ := h
  have hevents : (events.map Notice.event).filterMap Notice.diagnostic? = [] := by
    simp [List.filterMap_map, Function.comp_def, Notice.diagnostic?]
  have hds : (ds.map p.notice).filterMap Notice.diagnostic? = ds := by
    simp [List.filterMap_map, Function.comp_def, Program.notice, Notice.diagnostic?]
  rw [Outcome.diagnostics, h, List.filterMap_append, hevents, hds, List.nil_append]

theorem Program.runIn_static (h : p.diagnostics ≠ []) (options : RunOptions) (env : Environment)
    (sink : Sink) :
    let outcome := p.runIn options env sink
    outcome.status = .staticError ∧ outcome.env = env ∧
      outcome.sink = (p.writeTokens options sink).2 ∧ outcome.Announces p p.diagnostics := by
  intro outcome
  let tokens := p.writeTokens options sink
  have hrun : outcome = ⟨.staticError, env, tokens.2,
      (p.events tokens.1).map Notice.event ++ p.staticNotices⟩ := by
    simp [outcome, tokens, Program.runIn, Program.runWith, h]
  rw [hrun]
  refine ⟨rfl, rfl, rfl, p.events tokens.1 ++ [.staticErrors p.diagnostics.length], ?_⟩
  simp [Program.staticNotices]

theorem Program.runIn_executed (h : p.diagnostics = []) (options : RunOptions) (env : Environment)
    (sink : Sink) :
    let executed := Stmt.execAll p.parsed.statements (p.start options env sink)
    let outcome := p.runIn options env sink
    outcome.status = statusOf executed.1 ∧ outcome.env = executed.2.env ∧
      outcome.sink = executed.2.sink ∧ outcome.Announces p (diagnosticsOf executed.1) := by
  intro executed outcome
  let tokens := p.writeTokens options sink
  let tree := p.writeTree options tokens.2
  let x := execute p.parsed.statements env tree.2
  have hrun : outcome = { p.outcome x with
      notices := (p.events tokens.1 ++ tree.1).map Notice.event ++ (p.outcome x).notices } := by
    simp [outcome, Program.runIn, Program.runWith, h, x, tokens, tree]
  have hx : x.result = executed.1 ∧ x.env = executed.2.env ∧ x.sink = executed.2.sink :=
    ⟨rfl, rfl, rfl⟩
  obtain ⟨hresult, henv, hsink⟩ := hx
  rw [hrun, Program.outcome, hresult]
  cases executed.1 with
  | ok _ =>
    exact ⟨rfl, henv, hsink, p.events tokens.1 ++ tree.1 ++ x.events, by simp [diagnosticsOf]⟩
  | error e =>
    exact ⟨rfl, henv, hsink, p.events tokens.1 ++ tree.1 ++ x.events, by simp [diagnosticsOf]⟩

theorem Program.announces_runIn (p : Program) (options : RunOptions) (env : Environment)
    (sink : Sink) :
    (p.runIn options env sink).Announces p (p.runIn options env sink).diagnostics := by
  by_cases h : p.diagnostics = []
  · obtain ⟨-, -, -, ha⟩ := Program.runIn_executed h options env sink
    rwa [ha.diagnostics_eq]
  · obtain ⟨-, -, -, ha⟩ := Program.runIn_static h options env sink
    rwa [ha.diagnostics_eq]

theorem Program.status_eq_staticError_iff (options : RunOptions) (env : Environment)
    (sink : Sink) :
    (p.runIn options env sink).status = .staticError ↔ p.diagnostics ≠ [] := by
  constructor
  · intro hs h
    have hstatus := (Program.runIn_executed h options env sink).1
    exact statusOf_ne_staticError _ (hstatus.symm.trans hs)
  · exact fun h => (Program.runIn_static h options env sink).1

end Treewalk
