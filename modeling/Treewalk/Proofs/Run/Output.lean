import Treewalk.Proofs.Execution.Effect
import Treewalk.Proofs.Run.Outcome

/-! Output that does not fit. A run whose sink takes only so many bytes is compared with the same
run on a sink without limit: it takes the first bytes of the same output and does the same up to the
first line that it cannot print whole. Listings that do not fit are cut without an error; only the
log tells of it. -/

namespace Treewalk

section Sinks

def lineBytes (line : String) : List UInt8 :=
  utf8Bytes (line ++ "\n")

/-- The sink after some bytes were written to it, as far as they fit. -/
def Sink.after (sink : Sink) (bytes : List UInt8) : Sink :=
  (sink.writeBytes bytes).2

variable {sink : Sink} {room : Nat}

@[simp]
theorem Sink.after_nil (sink : Sink) : sink.after [] = sink := by
  obtain ⟨_ | room, taken⟩ := sink <;> simp [Sink.after, Sink.writeBytes]

theorem Sink.fits_nil (sink : Sink) : (sink.writeBytes []).1 = true := by
  obtain ⟨_ | room, taken⟩ := sink <;> simp [Sink.writeBytes]

theorem Sink.after_append (sink : Sink) (xs ys : List UInt8) :
    sink.after (xs ++ ys) = (sink.after xs).after ys := by
  have hassoc : ∀ (taken : Array UInt8) (us vs : List UInt8),
      taken ++ (us ++ vs) = taken ++ us ++ vs := fun taken us vs => Array.toList_inj.mp (by simp)
  obtain ⟨_ | room, taken⟩ := sink
  · simp [Sink.after, Sink.writeBytes, hassoc]
  · simp [Sink.after, Sink.writeBytes, List.take_append, Nat.sub_sub, hassoc]

theorem Sink.fits_unlimited (h : sink.room = none) (bytes : List UInt8) :
    (sink.writeBytes bytes).1 = true := by
  simp [Sink.writeBytes, h]

theorem Sink.room_after_unlimited (h : sink.room = none) (bytes : List UInt8) :
    (sink.after bytes).room = none := by
  simp [Sink.after, Sink.writeBytes, h]

theorem Sink.room_after_limited (h : sink.room = some room) (bytes : List UInt8) :
    (sink.after bytes).room = some (room - bytes.length) := by
  simp [Sink.after, Sink.writeBytes, h]

/-- Where a write has not fitted, there is no room for another. -/
theorem Sink.after_after_of_cut {xs : List UInt8} (h : (sink.writeBytes xs).1 = false)
    (ys : List UInt8) : (sink.after xs).after ys = sink.after xs := by
  obtain ⟨_ | room, taken⟩ := sink
  · cases h
  · have hlt : room < xs.length := by simpa [Sink.writeBytes] using h
    have hfull : room - xs.length = 0 := by omega
    simp [Sink.after, Sink.writeBytes, hfull]

/-- Bytes fit if a first part of them fits and the rest fits behind it. -/
theorem Sink.fits_append (sink : Sink) (xs ys : List UInt8) :
    (sink.writeBytes (xs ++ ys)).1 =
      ((sink.writeBytes xs).1 && ((sink.after xs).writeBytes ys).1) := by
  obtain ⟨_ | room, taken⟩ := sink
  · rfl
  · rw [Bool.eq_iff_iff, Bool.and_eq_true]
    simp only [Sink.writeBytes, Sink.after, List.length_append, decide_eq_true_eq]
    omega

/-- Lines are written as their bytes are: the first one that does not fit leaves no room. -/
theorem Sink.writeLines_eq_writeBytes (sink : Sink) (lines : List String) :
    sink.writeLines lines = sink.writeBytes (lines.flatMap lineBytes) := by
  induction lines generalizing sink with
  | nil => exact Prod.ext sink.fits_nil.symm sink.after_nil.symm
  | cons line lines ih =>
    have hall : sink.writeBytes ((line :: lines).flatMap lineBytes) =
        ((sink.writeBytes (lineBytes line)).1 &&
          ((sink.after (lineBytes line)).writeBytes (lines.flatMap lineBytes)).1,
        (sink.after (lineBytes line)).after (lines.flatMap lineBytes)) :=
      Prod.ext (sink.fits_append _ _) (sink.after_append _ _)
    have hline : sink.writeLine line =
        ((sink.writeBytes (lineBytes line)).1, sink.after (lineBytes line)) := rfl
    rw [hall, Sink.writeLines, hline]
    cases hfits : (sink.writeBytes (lineBytes line)).1 with
    | true => exact ih (sink.after (lineBytes line))
    | false => exact Prod.ext rfl (Sink.after_after_of_cut hfits _).symm

end Sinks

section Printings

/-- A line that a run prints: the keyword it is printed by, its text, and the environment that is left
if the run ends there, all open scopes being closed. -/
structure Printing where
  keyword : Token
  line : String
  env : Environment

def Printing.bytes (p : Printing) : List UInt8 :=
  lineBytes p.line

def Printing.leave (p : Printing) : Printing :=
  { p with env := p.env.pop }

mutual

def Stmt.printings : Stmt → Machine → List Printing
  | .expression _, _ => []
  | .print keyword expr, m =>
    match m.eval expr with
    | (.ok value, m) => [⟨keyword, value.text, m.env⟩]
    | (.error _, _) => []
  | .var _ _, _ => []
  | .block body, m => (Stmt.listPrintings body m.enter).map Printing.leave

/-- The lines that statements print in turn, up to the first error. -/
def Stmt.listPrintings : List Stmt → Machine → List Printing
  | [], _ => []
  | stmt :: rest, m =>
    stmt.printings m ++
      match stmt.exec m with
      | (.ok _, m) => Stmt.listPrintings rest m
      | (.error _, _) => []

end

def printedBytes (ps : List Printing) : List UInt8 :=
  ps.flatMap Printing.bytes

/-- The first line that does not fit whole into the room that those before it leave. -/
def firstCut? : Nat → List Printing → Option Printing
  | _, [] => none
  | room, p :: ps =>
    if p.bytes.length ≤ room then firstCut? (room - p.bytes.length) ps else some p

/-- The first line that the sink does not take whole, if it is given them in turn. -/
def Sink.firstCut? (sink : Sink) : List Printing → Option Printing
  | [] => none
  | p :: ps => if (sink.writeBytes p.bytes).1 then (sink.after p.bytes).firstCut? ps else some p

variable {sink : Sink} {room : Nat} {ps : List Printing}

theorem Sink.firstCut?_unlimited (h : sink.room = none) : sink.firstCut? ps = none := by
  induction ps generalizing sink with
  | nil => rfl
  | cons p ps ih =>
    rw [Sink.firstCut?, if_pos (Sink.fits_unlimited h p.bytes)]
    exact ih (Sink.room_after_unlimited h p.bytes)

theorem Sink.firstCut?_limited (h : sink.room = some room) :
    sink.firstCut? ps = Treewalk.firstCut? room ps := by
  induction ps generalizing sink room with
  | nil => rfl
  | cons p ps ih =>
    have hfits := Sink.writeBytes_fits_iff h p.bytes
    rw [Sink.firstCut?, Treewalk.firstCut?, ih (Sink.room_after_limited h p.bytes)]
    simp only [hfits]

theorem Sink.firstCut?_append (sink : Sink) (ps qs : List Printing) :
    sink.firstCut? (ps ++ qs) =
      (sink.firstCut? ps).or ((sink.after (printedBytes ps)).firstCut? qs) := by
  induction ps generalizing sink with
  | nil => simp [Sink.firstCut?, printedBytes]
  | cons p ps ih =>
    by_cases hp : (sink.writeBytes p.bytes).1 = true
    · simp [Sink.firstCut?, hp, ih, printedBytes, Sink.after_append]
    · simp [Sink.firstCut?, hp]

theorem Sink.firstCut?_map_leave (sink : Sink) (ps : List Printing) :
    sink.firstCut? (ps.map Printing.leave) = (sink.firstCut? ps).map Printing.leave := by
  induction ps generalizing sink with
  | nil => rfl
  | cons p ps ih =>
    have hbytes : p.leave.bytes = p.bytes := rfl
    by_cases hp : (sink.writeBytes p.bytes).1 = true <;> simp [Sink.firstCut?, hbytes, hp, ih]

theorem printedBytes_append (ps qs : List Printing) :
    printedBytes (ps ++ qs) = printedBytes ps ++ printedBytes qs :=
  List.flatMap_append

theorem printedBytes_map_leave (ps : List Printing) :
    printedBytes (ps.map Printing.leave) = printedBytes ps := by
  rw [printedBytes, List.flatMap_map]
  rfl

theorem Sink.after_of_firstCut? {p : Printing} (h : sink.firstCut? ps = some p)
    (bytes : List UInt8) :
    (sink.after (printedBytes ps)).after bytes = sink.after (printedBytes ps) := by
  induction ps generalizing sink with
  | nil => cases h
  | cons q ps ih =>
    have hcons : printedBytes (q :: ps) = q.bytes ++ printedBytes ps := rfl
    rw [hcons, Sink.after_append]
    rw [Sink.firstCut?] at h
    split at h
    · exact ih h
    · rename_i hq
      rw [Bool.not_eq_true] at hq
      rw [Sink.after_after_of_cut hq, Sink.after_after_of_cut hq]

end Printings

section Machines

def Machine.withSink (m : Machine) (sink : Sink) : Machine :=
  { m with sink }

variable {m : Machine} {sink : Sink}

theorem Machine.eval_withSink (m : Machine) (sink : Sink) (expr : Expr) :
    (m.withSink sink).eval expr = ((m.eval expr).1, (m.eval expr).2.withSink sink) := rfl

theorem Machine.declare_withSink (m : Machine) (sink : Sink) (name : Token) (value : Value) :
    (m.withSink sink).declare name value =
      ((m.declare name value).1, (m.declare name value).2.withSink sink) := by
  have henv : (m.withSink sink).env = m.env := rfl
  unfold Machine.declare
  rw [henv]
  split <;> rfl

theorem Machine.print_fits (keyword : Token) {line : String}
    (h : (m.sink.writeBytes (lineBytes line)).1 = true) :
    m.print keyword line = (.ok (), m.withSink (m.sink.after (lineBytes line))) := by
  have hwrite : m.sink.writeLine line = (true, m.sink.after (lineBytes line)) := Prod.ext h rfl
  rw [Machine.print, hwrite]
  rfl

theorem Machine.print_cut (keyword : Token) {line : String}
    (h : (m.sink.writeBytes (lineBytes line)).1 = false) :
    m.print keyword line = (.error ⟨.outputFailed Sink.failure, keyword⟩,
      m.withSink (m.sink.after (lineBytes line))) := by
  have hwrite : m.sink.writeLine line = (false, m.sink.after (lineBytes line)) := Prod.ext h rfl
  rw [Machine.print, hwrite]
  rfl

/-- How a run that prints these lines without limit goes on another sink: the same way if all of them
fit, and else up to the first that does not. -/
structure Follows (sink : Sink) (ps : List Printing)
    (free limited : Except RuntimeError Unit × Machine) : Prop where
  sink_eq : limited.2.sink = sink.after (printedBytes ps)
  of_fits : sink.firstCut? ps = none →
    limited = (free.1, free.2.withSink (sink.after (printedBytes ps)))
  of_cut : ∀ p, sink.firstCut? ps = some p →
    limited.1 = .error ⟨.outputFailed Sink.failure, p.keyword⟩ ∧ limited.2.env = p.env

section Follows

variable {ps qs : List Printing} {free limited : Except RuntimeError Unit × Machine}

theorem follows_silent (free : Except RuntimeError Unit × Machine) (sink : Sink) :
    Follows sink [] free (free.1, free.2.withSink sink) where
  sink_eq := by simp [printedBytes, Machine.withSink]
  of_fits _ := by simp [printedBytes]
  of_cut p hp := nomatch hp

theorem Follows.leave (h : Follows sink ps free limited) :
    Follows sink (ps.map Printing.leave) (free.1, free.2.leave) (limited.1, limited.2.leave) where
  sink_eq := by
    rw [printedBytes_map_leave]
    exact h.sink_eq
  of_fits hc := by
    rw [Sink.firstCut?_map_leave, Option.map_eq_none_iff] at hc
    rw [printedBytes_map_leave, h.of_fits hc]
    rfl
  of_cut p hp := by
    rw [Sink.firstCut?_map_leave] at hp
    obtain ⟨q, hq, rfl⟩ := Option.map_eq_some_iff.mp hp
    obtain ⟨hresult, henv⟩ := h.of_cut q hq
    exact ⟨hresult, congrArg Environment.pop henv⟩

/-- What comes behind a line that was cut makes no difference. -/
theorem Follows.of_stopped {p : Printing} (h : Follows sink ps free limited)
    (hp : sink.firstCut? ps = some p) (qs : List Printing)
    (free' : Except RuntimeError Unit × Machine) : Follows sink (ps ++ qs) free' limited where
  sink_eq := by
    rw [printedBytes_append, Sink.after_append, Sink.after_of_firstCut? hp]
    exact h.sink_eq
  of_fits hc := by
    rw [Sink.firstCut?_append, hp] at hc
    cases hc
  of_cut q hq := by
    rw [Sink.firstCut?_append, hp] at hq
    cases hq
    exact h.of_cut p hp

theorem Follows.append (hc : sink.firstCut? ps = none)
    (h : Follows (sink.after (printedBytes ps)) qs free limited) :
    Follows sink (ps ++ qs) free limited where
  sink_eq := by
    rw [printedBytes_append, Sink.after_append]
    exact h.sink_eq
  of_fits hq := by
    rw [Sink.firstCut?_append, hc] at hq
    rw [printedBytes_append, Sink.after_append]
    exact h.of_fits hq
  of_cut q hq := by
    rw [Sink.firstCut?_append, hc] at hq
    exact h.of_cut q hq

theorem Machine.follows_print (hm : m.sink.room = none) (sink : Sink) (keyword : Token)
    (line : String) :
    Follows sink [⟨keyword, line, m.env⟩] (m.print keyword line)
      ((m.withSink sink).print keyword line) := by
  have hbytes : printedBytes [⟨keyword, line, m.env⟩] = lineBytes line := by
    simp [printedBytes, Printing.bytes]
  rw [Machine.print_fits keyword (Sink.fits_unlimited hm _)]
  cases hfits : (sink.writeBytes (lineBytes line)).1 with
  | true =>
    have hcut : sink.firstCut? [⟨keyword, line, m.env⟩] = none := by
      simp [Sink.firstCut?, Printing.bytes, hfits]
    have hprint : (m.withSink sink).print keyword line = _ := Machine.print_fits keyword hfits
    rw [hprint]
    refine ⟨by rw [hbytes]; rfl, fun _ => by rw [hbytes]; rfl, fun p hp => ?_⟩
    rw [hcut] at hp
    cases hp
  | false =>
    have hcut : sink.firstCut? [⟨keyword, line, m.env⟩] = some ⟨keyword, line, m.env⟩ := by
      simp [Sink.firstCut?, Printing.bytes, hfits]
    have hprint : (m.withSink sink).print keyword line = _ := Machine.print_cut keyword hfits
    rw [hprint]
    refine ⟨by rw [hbytes]; rfl, fun hc => ?_, fun p hp => ?_⟩
    · rw [hcut] at hc
      cases hc
    · rw [hcut] at hp
      cases hp
      exact ⟨rfl, rfl⟩

end Follows

theorem Follows.room_eq_none {ps : List Printing} {free : Except RuntimeError Unit × Machine}
    (h : Follows m.sink ps free free) (hm : m.sink.room = none) : free.2.sink.room = none := by
  rw [h.sink_eq]
  exact Sink.room_after_unlimited hm _

mutual

theorem Stmt.follows_exec : ∀ (stmt : Stmt) {m : Machine}, m.sink.room = none → ∀ sink : Sink,
    Follows sink (stmt.printings m) (stmt.exec m) (stmt.exec (m.withSink sink))
  | .expression expr, m, hm, sink => by
    rw [Stmt.exec, Stmt.exec, Machine.eval_withSink, Stmt.printings]
    rcases m.eval expr with ⟨result, m'⟩
    cases result <;> exact follows_silent _ sink
  | .print keyword expr, m, hm, sink => by
    have hroom : (m.eval expr).2.sink.room = none := by rwa [m.sink_eval expr]
    rw [Stmt.exec, Stmt.exec, Machine.eval_withSink, Stmt.printings]
    rcases hx : m.eval expr with ⟨result, m'⟩
    rw [hx] at hroom
    cases result with
    | ok value => exact Machine.follows_print hroom sink keyword value.text
    | error e => exact follows_silent _ sink
  | .var name none, m, hm, sink => by
    rw [Stmt.exec, Stmt.exec, Machine.declare_withSink, Stmt.printings]
    exact follows_silent _ sink
  | .var name (some initializer), m, hm, sink => by
    rw [Stmt.exec, Stmt.exec, Machine.eval_withSink, Stmt.printings]
    rcases m.eval initializer with ⟨result, m'⟩
    cases result with
    | ok value =>
      dsimp only
      rw [Machine.declare_withSink]
      exact follows_silent _ sink
    | error e => exact follows_silent _ sink
  | .block body, m, hm, sink => by
    have hbody := Stmt.follows_execAll body (m := m.enter) hm sink
    rw [Stmt.exec, Stmt.exec, Stmt.printings]
    exact hbody.leave

theorem Stmt.follows_execAll : ∀ (body : List Stmt) {m : Machine}, m.sink.room = none →
    ∀ sink : Sink, Follows sink (Stmt.listPrintings body m) (Stmt.execAll body m)
      (Stmt.execAll body (m.withSink sink))
  | [], m, hm, sink => by
    rw [Stmt.execAll, Stmt.execAll, Stmt.listPrintings]
    exact follows_silent (.ok (), m) sink
  | stmt :: rest, m, hm, sink => by
    have hstmt := stmt.follows_exec hm sink
    have hroom := (stmt.follows_exec hm m.sink).room_eq_none hm
    rw [Stmt.execAll, Stmt.execAll, Stmt.listPrintings]
    cases hc : sink.firstCut? (stmt.printings m) with
    | some p =>
      -- The run without limit goes on here, but the other one has ended.
      have hresult := (hstmt.of_cut p hc).1
      rcases hx : stmt.exec (m.withSink sink) with ⟨result, m'⟩
      rw [hx] at hstmt hresult
      cases hresult
      exact hstmt.of_stopped hc _ _
    | none =>
      rw [hstmt.of_fits hc]
      rcases hx : stmt.exec m with ⟨result, m'⟩
      rw [hx] at hroom
      cases result with
      | ok _ => exact Follows.append hc (Stmt.follows_execAll rest hroom _)
      | error e => exact Follows.append hc (follows_silent (.error e, m') _)

end

end Machines

section Runs

variable (p : Program) (options : RunOptions) (env : Environment) (sink : Sink)

def Program.tokenListing : List UInt8 :=
  if options.dumpTokens then (p.scanned.tokens.map Token.text).flatMap lineBytes else []

def Program.treeListing : List UInt8 :=
  if options.dumpTree then (p.parsed.statements.map Stmt.text).flatMap lineBytes else []

/-- What the program prints, statement by statement, where nothing limits its output. -/
def Program.printings : List Printing :=
  Stmt.listPrintings p.parsed.statements (.start env .unlimited)

/-- All that a run has to write: the tokens if they are to be listed and, if the program can run, the
statements if they are to be listed and the lines it prints. -/
def Program.output : List UInt8 :=
  p.tokenListing options ++
    if p.diagnostics = [] then p.treeListing options ++ printedBytes (p.printings env) else []

/-- A listing is cut where it does not fit, and then the log tells so. -/
theorem writeListing_eq (asked : Bool) (lines : List String) (unwritten : String → Event)
    (sink : Sink) :
    let listing := if asked then lines.flatMap lineBytes else []
    writeListing asked lines unwritten sink =
      (writeEvents (sink.writeBytes listing).1 unwritten, sink.after listing) := by
  intro listing
  cases asked with
  | false => simp [writeListing, listing, writeEvents, Sink.fits_nil]
  | true =>
    rw [writeListing, Sink.writeLines_eq_writeBytes]
    rfl

theorem Program.writeTokens_eq : p.writeTokens options sink =
    (writeEvents (sink.writeBytes (p.tokenListing options)).1 .tokensUnwritten,
      sink.after (p.tokenListing options)) :=
  writeListing_eq _ _ _ _

theorem Program.writeTree_eq : p.writeTree options sink =
    (writeEvents (sink.writeBytes (p.treeListing options)).1 .treeUnwritten,
      sink.after (p.treeListing options)) :=
  writeListing_eq _ _ _ _

theorem Program.start_eq_withSink : p.start options env sink =
    (Machine.start env .unlimited).withSink
      (sink.after (p.tokenListing options ++ p.treeListing options)) := by
  rw [Program.start, Program.writeTokens_eq, Program.writeTree_eq, ← Sink.after_append]
  rfl

theorem Program.follows_start :
    Follows (sink.after (p.tokenListing options ++ p.treeListing options)) (p.printings env)
      (Stmt.execAll p.parsed.statements (.start env .unlimited))
      (Stmt.execAll p.parsed.statements (p.start options env sink)) := by
  rw [Program.start_eq_withSink]
  exact Stmt.follows_execAll _ rfl _

theorem Program.sink_runIn :
    (p.runIn options env sink).sink = sink.after (p.output options env) := by
  by_cases h : p.diagnostics = []
  · obtain ⟨-, -, hsink, -⟩ := Program.runIn_executed h options env sink
    rw [hsink, (p.follows_start options env sink).sink_eq, ← Sink.after_append, Program.output,
      if_pos h, List.append_assoc]
  · obtain ⟨-, -, hsink, -⟩ := Program.runIn_static h options env sink
    rw [hsink, Program.writeTokens_eq, Program.output, if_neg h, List.append_nil]

variable {p sink}

theorem Program.runIn_of_fits (h : p.diagnostics = [])
    (hfits : (sink.after (p.tokenListing options ++ p.treeListing options)).firstCut?
      (p.printings env) = none) :
    let result := (Stmt.execAll p.parsed.statements (.start env .unlimited)).1
    let outcome := p.runIn options env sink
    outcome.status = statusOf result ∧ outcome.diagnostics = diagnosticsOf result ∧
      outcome.env = (Stmt.execAll p.parsed.statements (.start env .unlimited)).2.env := by
  intro result outcome
  obtain ⟨hstatus, henv, -, ha⟩ := Program.runIn_executed h options env sink
  rw [(p.follows_start options env sink).of_fits hfits] at hstatus henv ha
  exact ⟨hstatus, ha.diagnostics_eq, henv⟩

theorem Program.runIn_of_cut (h : p.diagnostics = []) {cut : Printing}
    (hcut : (sink.after (p.tokenListing options ++ p.treeListing options)).firstCut?
      (p.printings env) = some cut) :
    let outcome := p.runIn options env sink
    outcome.status = .runtimeError ∧ outcome.env = cut.env ∧
      outcome.diagnostics = [RuntimeError.diagnostic ⟨.outputFailed Sink.failure, cut.keyword⟩] := by
  intro outcome
  obtain ⟨hstatus, henv, -, ha⟩ := Program.runIn_executed h options env sink
  obtain ⟨hresult, hleft⟩ := (p.follows_start options env sink).of_cut cut hcut
  rw [hresult] at hstatus ha
  exact ⟨hstatus, henv.trans hleft, ha.diagnostics_eq⟩

end Runs

/-- A run whose sink takes `n` bytes takes the first `n` bytes of what it would write without limit. It
ends as the run without limit does unless a line it prints does not fit whole, and then it stops there;
listings that are cut are no error. -/
theorem runIn_limited (source : String) (filename : Option String) (options : RunOptions)
    (env : Environment) (n : Nat) :
    let p := Program.ofSource source filename
    let run := runIn source filename options env
    let free := run .unlimited
    let limited := run (.ofLimit (some n))
    let listings := p.tokenListing options ++ p.treeListing options
    free.sink.taken.toList = p.tokenListing options ++
      (if (scan source).errors = [] ∧ (parse (scan source).tokens).diagnostics = [] then
        p.treeListing options ++ printedBytes (p.printings env) else []) ∧
    limited.sink.taken.toList = free.sink.taken.toList.take n ∧
    (∀ sink, (run sink).status = .staticError ↔
      (scan source).errors ≠ [] ∨ (parse (scan source).tokens).diagnostics ≠ []) ∧
    (∀ sink, (run sink).status = .staticError → (run sink).env = env) ∧
    (limited.status ≠ .staticError →
      match firstCut? (n - listings.length) (p.printings env) with
      | none => limited.env = free.env ∧ limited.diagnostics = free.diagnostics ∧
          limited.status = free.status
      | some cut => limited.status = .runtimeError ∧ limited.env = cut.env ∧
          ∃ d, limited.diagnostics = [d] ∧ d.phase = .runtime ∧
            d.message = "Failed to write output: " ++ Sink.failure ∧
            d.span = cut.keyword.span ∧ d.line = cut.keyword.line) := by
  intro p run free limited listings
  have hstatic : p.diagnostics = [] ↔
      (scan source).errors = [] ∧ (parse (scan source).tokens).diagnostics = [] := by
    simp [p, Program.ofSource, Program.diagnostics]
  have hstatus : ∀ sink, (run sink).status = .staticError ↔ p.diagnostics ≠ [] :=
    fun sink => Program.status_eq_staticError_iff options env sink
  have hfree : free.sink.taken.toList = p.output options env := by
    rw [show free.sink = _ from p.sink_runIn options env .unlimited]
    simp [Sink.after, Sink.taken_writeBytes_unlimited, Sink.unlimited, Sink.ofLimit]
  refine ⟨?_, ?_, fun sink => ?_, fun sink hs => ?_, fun hs => ?_⟩
  · rw [hfree, Program.output]
    simp only [hstatic]
  · rw [hfree, show limited.sink = _ from p.sink_runIn options env _, Sink.after,
      Sink.taken_writeBytes_limited rfl]
    rfl
  · rw [hstatus, ne_eq, hstatic, Classical.not_and_iff_not_or_not]
  · exact (Program.runIn_static ((hstatus sink).mp hs) options env sink).2.1
  · have hnone : p.diagnostics = [] := Decidable.not_not.mp (mt (hstatus _).mpr hs)
    have hroom : ((Sink.ofLimit (some n)).after listings).room = some (n - listings.length) :=
      Sink.room_after_limited rfl listings
    have hunlimited : (Sink.unlimited.after listings).firstCut? (p.printings env) = none :=
      Sink.firstCut?_unlimited (Sink.room_after_unlimited rfl listings)
    rw [← Sink.firstCut?_limited hroom]
    split
    · rename_i hfits
      obtain ⟨hstatus, hds, henv⟩ := Program.runIn_of_fits options env hnone hfits
      obtain ⟨hstatus', hds', henv'⟩ := Program.runIn_of_fits options env hnone hunlimited
      exact ⟨henv.trans henv'.symm, hds.trans hds'.symm, hstatus.trans hstatus'.symm⟩
    · rename_i cut hcut
      obtain ⟨hstatus, henv, hds⟩ := Program.runIn_of_cut options env hnone hcut
      exact ⟨hstatus, henv, _, hds, rfl, rfl, rfl, rfl⟩

example :
    let outcome := run "print nil; print true;" none ⟨.plain, false, false⟩ (.ofLimit (some 6))
    outcome.sink.taken.toList = utf8Bytes "nil\ntr" ∧ outcome.status = .runtimeError := by
  decide +kernel

end Treewalk
