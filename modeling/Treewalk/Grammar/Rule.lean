import Treewalk.Grammar.Fault
import Treewalk.Stmt

/-! Grammar rules as functions on the tokens that remain.
A rule gives a result or the error that stops it, reports errors that do not stop it, and says
which tokens are left. The end of the tokens stands for the end of the text. -/

namespace Treewalk

/-- How reading went on after an error: how many tokens were passed over, and the next one. -/
structure Recovery where
  skipped : Nat
  next : Option Token
deriving DecidableEq

/-- An error with what was done to go on, if it stopped a declaration. -/
structure SyntaxReport where
  error : SyntaxError
  recovery : Option Recovery
deriving DecidableEq

/-- What was read, the errors reported meanwhile, and the tokens left. -/
structure Reading (α : Type) where
  value : α
  reports : List SyntaxReport
  rest : List Token

def Rule (α : Type) : Type :=
  List Token → Reading (Except SyntaxError α)

def Rule.pure {α : Type} (a : α) : Rule α :=
  fun ts => ⟨.ok a, [], ts⟩

def Rule.bind {α β : Type} (rule : Rule α) (next : α → Rule β) : Rule β := fun ts =>
  match rule ts with
  | ⟨.ok a, reports, rest⟩ =>
    let reading := next a rest
    ⟨reading.value, reports ++ reading.reports, reading.rest⟩
  | ⟨.error e, reports, rest⟩ => ⟨.error e, reports, rest⟩

theorem Rule.bind_ok {α β : Type} {rule : Rule α} {ts rest : List Token} {a : α}
    {reports : List SyntaxReport} (h : rule ts = ⟨.ok a, reports, rest⟩) (next : α → Rule β) :
    rule.bind next ts =
      ⟨(next a rest).value, reports ++ (next a rest).reports, (next a rest).rest⟩ := by
  simp [Rule.bind, h]

theorem Rule.bind_error {α β : Type} {rule : Rule α} {ts rest : List Token} {e : SyntaxError}
    {reports : List SyntaxReport} (h : rule ts = ⟨.error e, reports, rest⟩)
    (next : α → Rule β) : rule.bind next ts = ⟨.error e, reports, rest⟩ := by
  simp [Rule.bind, h]

instance : Monad Rule where
  pure := Rule.pure
  bind := Rule.bind

/-- Stops with an error; no token is passed. -/
def Rule.fail {α : Type} (fault : SyntaxFault) (place : Option Token) : Rule α :=
  fun ts => ⟨.error ⟨fault, place⟩, [], ts⟩

/-- Stops with an error at the next token. -/
def Rule.failHere {α : Type} (fault : SyntaxFault) : Rule α :=
  fun ts => Rule.fail fault ts.head? ts

/-- Reports an error and goes on. -/
def Rule.report (fault : SyntaxFault) (place : Token) : Rule Unit :=
  fun ts => ⟨.ok (), [⟨⟨fault, some place⟩, none⟩], ts⟩

/-- Takes the next token if its kind has an image, and gives that image with the token. -/
def Rule.accept? {α : Type} (image : TokenKind → Option α) : Rule (Option (α × Token))
  | [] => ⟨.ok none, [], []⟩
  | t :: ts =>
    match image t.kind with
    | some a => ⟨.ok (some (a, t)), [], ts⟩
    | none => ⟨.ok none, [], t :: ts⟩

/-- The image of one kind only. -/
def only (kind : TokenKind) : TokenKind → Option Unit :=
  fun k => if k = kind then some () else none

/-- Takes the next token, which must have the given kind. -/
def Rule.expect (kind : TokenKind) (fault : SyntaxFault) : Rule Token := do
  match ← Rule.accept? (only kind) with
  | some (_, t) => Rule.pure t
  | none => Rule.failHere fault

/-- The rule of a nested construct. Without one the limit of nesting is reached, which is an error
at the token that opens the construct. -/
def Rule.nested {α : Type} (opener : Token) : Option (Rule α) → Rule α
  | some rule => rule
  | none => Rule.fail .tooMuchNesting (some opener)

end Treewalk
