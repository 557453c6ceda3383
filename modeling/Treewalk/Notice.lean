import Treewalk.Event
import Treewalk.Grammar.Program
import Treewalk.Report

/-! Notices: all that a run tells besides its output, in the order in which it happens.
Events show when enough is to be logged; diagnostics always show. -/

namespace Treewalk

/-- The events of scanning: stray characters as they were met, then the totals. -/
def Scan.events (s : Scan) : List Event :=
  s.errors.filterMap
      (fun e => match e.fault with
        | .strayCharacter c => some (.strayCharacter e.line c)
        | .openString _ => none) ++
    [.scanFinished s.tokens.length s.errors.length]

/-- The events of parsing: every recovery, then the totals. -/
def Parse.events (p : Parse) : List Event :=
  p.reports.filterMap
      (fun r => r.recovery.map fun recovery =>
        .resumed recovery.skipped (recovery.next.getD p.eof).line) ++
    [.parseFinished p.statements.length p.reports.length]

/-- Something to tell the user besides the output: an event, or a diagnostic about a source. -/
inductive Notice where
  | event (e : Event)
  | diagnostic (d : Diagnostic) (source : String) (filename : Option String)
deriving DecidableEq, Repr

/-- What a notice shows in a style when events up to a level are logged, or none are. -/
def Notice.shown (style : Style) (verbosity : Option Level) : Notice → List Shown
  | .event e =>
    if verbosity.any (e.level.rank ≤ ·.rank) then shownLines e.text else []
  | .diagnostic d source filename => d.shown style source filename

end Treewalk
