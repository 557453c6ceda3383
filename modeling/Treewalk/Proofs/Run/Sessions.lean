import Treewalk.Proofs.Run.Output
import Treewalk.Session

/-! A session is a fold of runs. Each line in turn is run in the environment that the lines before it
left; between the outputs of the runs stand the prompts, and behind the output of a line that is one
expression stands its value. The first line that ends the session decides how it ends, and what comes
behind that line is never looked at. -/

namespace Treewalk

section Lines

/-- The lines put together are the input. Each of them ends with its only line feed, but for the last
one, which may have none. -/
structure AreLines (input : List UInt8) (lines : List (List UInt8)) : Prop where
  flatten_eq : lines.flatten = input
  ne_nil : ∀ line ∈ lines, line ≠ []
  not_mem_dropLast : ∀ line ∈ lines, 10 ∉ line.dropLast
  getLast?_eq : ∀ line ∈ lines.dropLast, line.getLast? = some 10

theorem splitLines_ne_nil {bytes : List UInt8} (h : bytes ≠ []) : splitLines bytes ≠ [] := by
  cases bytes with
  | nil => exact absurd rfl h
  | cons b bytes =>
    rw [splitLines]
    split
    · exact List.cons_ne_nil _ _
    · split <;> exact List.cons_ne_nil _ _

theorem areLines_splitLines (input : List UInt8) : AreLines input (splitLines input) := by
  induction input with
  | nil => exact ⟨rfl, by simp [splitLines], by simp [splitLines], by simp [splitLines]⟩
  | cons b bytes ih =>
    rw [splitLines]
    split
    · rename_i hb
      refine ⟨by rw [List.flatten_cons, ih.flatten_eq]; rfl, ?_, ?_, ?_⟩
      · exact List.forall_mem_cons.mpr ⟨List.cons_ne_nil _ _, ih.ne_nil⟩
      · exact List.forall_mem_cons.mpr ⟨by simp, ih.not_mem_dropLast⟩
      · cases hs : splitLines bytes with
        | nil => simp
        | cons line lines =>
          have hended := ih.getLast?_eq
          rw [hs] at hended
          rw [List.dropLast_cons_of_ne_nil (List.cons_ne_nil _ _)]
          exact List.forall_mem_cons.mpr ⟨by rw [hb]; rfl, hended⟩
    · rename_i hb
      split
      · rename_i hs
        rw [hs] at ih
        have hnil : bytes = [] := ih.flatten_eq.symm
        exact ⟨by rw [hnil]; rfl, by simp, by simp, by simp⟩
      · rename_i line lines hs
        rw [hs] at ih
        obtain ⟨hflatten, hne, hinner, hended⟩ := ih
        rw [List.forall_mem_cons] at hne hinner
        refine ⟨by rw [← hflatten]; rfl, ?_, ?_, ?_⟩
        · exact List.forall_mem_cons.mpr ⟨List.cons_ne_nil _ _, hne.2⟩
        · refine List.forall_mem_cons.mpr ⟨?_, hinner.2⟩
          rw [List.dropLast_cons_of_ne_nil hne.1, List.mem_cons, not_or]
          exact ⟨Ne.symm hb, hinner.1⟩
        · cases lines with
          | nil => simp
          | cons next lines =>
            rw [List.dropLast_cons_of_ne_nil (List.cons_ne_nil _ _), List.forall_mem_cons] at hended ⊢
            refine ⟨?_, hended.2⟩
            rw [List.getLast?_cons_of_ne_nil hne.1]
            exact hended.1

theorem splitLines_append {before : List UInt8} (h : before.getLast? = some 10)
    (more : List UInt8) : splitLines (before ++ more) = splitLines before ++ splitLines more := by
  induction before with
  | nil => cases h
  | cons b bytes ih =>
    by_cases hbytes : bytes = []
    · subst hbytes
      cases h
      simp [splitLines]
    · rw [List.getLast?_cons_of_ne_nil hbytes] at h
      rw [List.cons_append, splitLines, splitLines, ih h]
      obtain ⟨line, lines, hs⟩ := List.exists_cons_of_ne_nil (splitLines_ne_nil hbytes)
      rw [hs]
      split <;> rfl

/-- The text of a line without the blank characters at its ends, if the bytes are a text. -/
def lineText? (bytes : List UInt8) : Option String :=
  (utf8Text? bytes).map fun text => String.ofList (trimBlank text.toList)

/-- A session goes on behind a line that is a text and does not ask for the end. -/
def goesOn : Option String → Bool
  | none => false
  | some line => line ≠ "exit" ∧ line ≠ "quit"

end Lines

section Transcripts

variable {s : Session} {sink : Sink} {options : RunOptions}

/-- What a session has done: the bindings that it left, what it wrote and the errors that it told. -/
structure Transcript where
  env : Environment
  output : List UInt8
  told : List Notice

def Notice.isDiagnostic : Notice → Bool
  | .diagnostic _ _ _ => true
  | .event _ => false

/-- The value that is shown behind the output of a program: that of its only statement, if that is an
expression and no assignment. -/
def Program.shown? (p : Program) (env : Environment) : Option Value :=
  match p.diagnostics, p.parsed.statements with
  | [], [.expression (.assign _ _)] => none
  | [], [.expression expr] => (expr.eval env).1.toOption
  | _, _ => none

def Transcript.write (t : Transcript) (text : String) : Transcript :=
  { t with output := t.output ++ utf8Bytes text }

theorem Transcript.write_write (t : Transcript) (text more : String) :
    (t.write text).write more = t.write (text ++ more) := by
  simp [Transcript.write, utf8Bytes]

/-- Runs a line where the transcript has come to. -/
def Transcript.run (options : RunOptions) (t : Transcript) (line : String) : Transcript :=
  let ran := runIn line none options t.env .unlimited
  let shown := (Program.ofSource line none).shown? t.env
  { env := ran.env
    output := t.output ++ (ran.sink.taken.toList ++ shown.toList.flatMap fun v => lineBytes v.text)
    told := t.told ++ ran.notices.filter Notice.isDiagnostic }

/-- A prompt, and what is done with the line that is read there. -/
def Transcript.answer (options : RunOptions) (t : Transcript) (line : String) : Transcript :=
  if line = "" then t.write prompt else (t.write prompt).run options line

/-- The session stands where the transcript says, if its output goes to the sink. -/
structure Session.Matches (s : Session) (sink : Sink) (t : Transcript) : Prop where
  env : s.env = t.env
  sink : s.sink = sink.after t.output
  told : s.notices.filter Notice.isDiagnostic = t.told

variable {t : Transcript}

theorem Notice.filter_isDiagnostic_events (events : List Event) :
    (events.map Notice.event).filter Notice.isDiagnostic = [] := by
  simp [Notice.isDiagnostic]

theorem Outcome.Announces.filter_eq {o : Outcome} {p : Program} {ds : List Diagnostic}
    (h : o.Announces p ds) : o.notices.filter Notice.isDiagnostic = ds.map p.notice := by
  obtain ⟨events, h⟩ := h
  have hds : (ds.map p.notice).filter Notice.isDiagnostic = ds.map p.notice :=
    List.filter_eq_self.mpr (by simp [Program.notice, Notice.isDiagnostic])
  rw [h, List.filter_append, Notice.filter_isDiagnostic_events, hds, List.nil_append]

theorem Sink.taken_after (h : sink.room = none) (bytes : List UInt8) :
    (sink.after bytes).taken.toList = sink.taken.toList ++ bytes :=
  Sink.taken_writeBytes_unlimited h bytes

theorem echoed?_eq_some {statements : List Stmt} {expr : Expr}
    (h : echoed? statements = some expr) : statements = [.expression expr] := by
  unfold echoed? at h
  split at h
  · cases h
  · cases h
    rfl
  · cases h

theorem Program.shown?_of_static {p : Program} (h : p.diagnostics ≠ []) (env : Environment) :
    p.shown? env = none := by
  rw [Program.shown?]
  split <;> simp_all

theorem Program.shown?_eq_bind {p : Program} (h : p.diagnostics = []) (env : Environment) :
    p.shown? env = (echoed? p.parsed.statements).bind fun expr => (expr.eval env).1.toOption := by
  rw [Program.shown?, h]
  cases he : echoed? p.parsed.statements with
  | some expr =>
    rw [echoed?_eq_some he]
    rw [echoed?_eq_some he] at he
    cases expr with
    | assign name value => cases he
    | literal _ | grouping _ | unary _ _ _ | binary _ _ _ _ | «variable» _ => rfl
  | none =>
    unfold echoed? at he
    split at he
    · rename_i hstatements
      rw [hstatements]
      rfl
    · cases he
    · rename_i hother
      split
      · rfl
      · rename_i hstatements
        exact absurd hstatements (hother _)
      · rfl

/-- The first outcome is the second one, but that a value may be shown at the end of its output. -/
structure Outcome.Shows (line ran : Outcome) (shown : Option Value) : Prop where
  env : line.env = ran.env
  sink : line.sink = ran.sink.after (shown.toList.flatMap fun v => lineBytes v.text)
  told : line.notices.filter Notice.isDiagnostic = ran.notices.filter Notice.isDiagnostic

theorem Outcome.shows_none (ran : Outcome) : ran.Shows ran none :=
  ⟨rfl, (Sink.after_nil _).symm, rfl⟩

/-- Evaluating the expression of a line is executing the statement that it is. -/
theorem Program.echo_shows (p : Program) (expr : Expr) (env : Environment) (sink : Sink) :
    (p.echo expr env sink).Shows (p.outcome (execute [.expression expr] env sink))
      (expr.eval env).1.toOption := by
  rcases heval : expr.eval env with ⟨result, env'⟩
  have hexec : execute [.expression expr] env sink = ⟨result.map fun _ => (), env', sink,
      .interpreting 1 :: runtimeErrorEvents (result.map fun _ => ())⟩ := by
    simp only [execute, Stmt.execAll, Stmt.exec, Machine.eval, Machine.start, heval]
    cases result <;> rfl
  rw [Program.echo, Program.outcome, heval, hexec]
  cases result with
  | ok value =>
    refine ⟨rfl, ?_, ?_⟩
    · simp [Except.toOption, Except.map, Sink.after, Sink.writeLine, Sink.write, lineBytes]
    · exact (Notice.filter_isDiagnostic_events _).trans (Notice.filter_isDiagnostic_events _).symm
  | error e =>
    refine ⟨rfl, (Sink.after_nil _).symm, ?_⟩
    dsimp only [Except.map]
    rw [List.filter_append, Notice.filter_isDiagnostic_events, List.nil_append]

theorem Program.runWith_shows {p : Program} {shown : Option Value} {body body' : Sink → Outcome}
    (h : p.diagnostics = []) (hbody : ∀ sink, (body sink).Shows (body' sink) shown)
    (options : RunOptions) (env : Environment) (sink : Sink) :
    (p.runWith options env sink body).Shows (p.runWith options env sink body') shown := by
  obtain ⟨henv, hsink, htold⟩ := hbody (p.writeTree options (p.writeTokens options sink).2).2
  simp only [Program.runWith, h, List.isEmpty_nil, if_true]
  exact ⟨henv, hsink, by rw [List.filter_append, htold, ← List.filter_append]⟩

/-- A line is run as by itself, but that the value of an expression is shown behind its output. -/
theorem Program.runLine_shows (p : Program) (options : RunOptions) (env : Environment)
    (sink : Sink) :
    (p.runLine options env sink).Shows (p.runIn options env sink) (p.shown? env) := by
  by_cases hstatic : p.diagnostics = []
  · rw [Program.shown?_eq_bind hstatic, Program.runLine]
    cases he : echoed? p.parsed.statements with
    | none => exact Outcome.shows_none _
    | some expr =>
      rw [Program.runIn, echoed?_eq_some he]
      exact Program.runWith_shows hstatic (p.echo_shows expr env) options env sink
  · have hline : p.runLine options env sink = p.runIn options env sink := by
      rw [Program.runLine]
      split
      · simp only [Program.runIn, Program.runWith, List.isEmpty_iff, if_neg hstatic]
      · rfl
    rw [hline, Program.shown?_of_static hstatic]
    exact Outcome.shows_none _

theorem Session.Matches.write (h : s.Matches sink t) (hroom : sink.room = none) (text : String) :
    ∃ s', s.write text = (.ok (), s') ∧ s'.Matches sink (t.write text) := by
  have hfree : s.sink.room = none := by
    rw [h.sink]
    exact Sink.room_after_unlimited hroom _
  have hwrite : s.sink.write text = (true, s.sink.after (utf8Bytes text)) :=
    Prod.ext (Sink.fits_unlimited hfree _) rfl
  refine ⟨{ s with sink := s.sink.after (utf8Bytes text) }, ?_, h.env, ?_, h.told⟩
  · rw [Session.write, hwrite]
  · rw [h.sink, ← Sink.after_append]
    rfl

theorem Session.Matches.finish (h : s.Matches sink t) (hroom : sink.room = none) (text : String) :
    ∃ s', s.finish text = (.ok (), s') ∧ s'.Matches sink (t.write text) := by
  obtain ⟨s', hwrite, henv, hsink, htold⟩ := h.write hroom text
  refine ⟨{ s' with notices := s'.notices ++ [.event .sessionEnded] }, ?_, henv, hsink, ?_⟩
  · rw [Session.finish, hwrite]
  · simpa [Notice.isDiagnostic] using htold

/-- On a sink without limit a run does the same whatever the sink has taken before. -/
theorem Program.runIn_free (p : Program) (options : RunOptions) (env : Environment)
    (hroom : sink.room = none) :
    let free := p.runIn options env .unlimited
    let ran := p.runIn options env sink
    ran.env = free.env ∧ ran.sink = sink.after free.sink.taken.toList ∧
      ran.notices.filter Notice.isDiagnostic = free.notices.filter Notice.isDiagnostic := by
  intro free ran
  have hsame : ran.env = free.env ∧ ran.diagnostics = free.diagnostics := by
    by_cases h : p.diagnostics = []
    · have hfits : ∀ sink : Sink, sink.room = none →
          (sink.after (p.tokenListing options ++ p.treeListing options)).firstCut?
            (p.printings env) = none := fun sink hsink =>
        Sink.firstCut?_unlimited (Sink.room_after_unlimited hsink _)
      obtain ⟨-, hds, henv⟩ := Program.runIn_of_fits options env h (hfits sink hroom)
      obtain ⟨-, hds', henv'⟩ := Program.runIn_of_fits options env h (hfits .unlimited rfl)
      exact ⟨henv.trans henv'.symm, hds.trans hds'.symm⟩
    · obtain ⟨-, henv, -, ha⟩ := Program.runIn_static h options env sink
      obtain ⟨-, henv', -, ha'⟩ := Program.runIn_static h options env .unlimited
      exact ⟨henv.trans henv'.symm, ha.diagnostics_eq.trans ha'.diagnostics_eq.symm⟩
  have hfree : free.sink.taken.toList = p.output options env := by
    rw [show free.sink = _ from p.sink_runIn options env .unlimited, Sink.taken_after rfl]
    rfl
  refine ⟨hsame.1, ?_, ?_⟩
  · rw [hfree]
    exact p.sink_runIn options env sink
  · rw [(p.announces_runIn options env sink).filter_eq,
      (p.announces_runIn options env .unlimited).filter_eq]
    exact congrArg _ hsame.2

theorem Session.Matches.runLine (h : s.Matches sink t) (hroom : sink.room = none)
    (options : RunOptions) (line : String) :
    (s.runLine options line).Matches sink (t.run options line) := by
  let p := Program.ofSource line none
  have hfree : (sink.after t.output).room = none := Sink.room_after_unlimited hroom _
  obtain ⟨henv, hsink, htold⟩ := p.runLine_shows options t.env (sink.after t.output)
  obtain ⟨henv', hsink', htold'⟩ := p.runIn_free options t.env hfree
  rw [Session.runLine, h.env, h.sink]
  refine ⟨henv.trans henv', ?_, ?_⟩
  · rw [show Outcome.sink _ = _ from hsink, hsink', ← Sink.after_append, ← Sink.after_append]
    rfl
  · rw [List.filter_append, h.told, show List.filter _ (Outcome.notices _) = _ from htold, htold']
    rfl

/-- What a session says last, and the result it ends with, at the line that it does not go on behind or
at the end of the input. -/
def closingText : Option (Option String) → String
  | none => "\n"
  | some none => ""
  | some (some _) => farewell

def closingResult : Option (Option String) → Except SessionError Unit
  | some none => .error .notText
  | _ => .ok ()

theorem Session.answer_cases (s : Session) (options : RunOptions) (bytes : List UInt8) :
    (lineText? bytes = none ∧ s.answer options bytes = .done (.error .notText) s) ∨
      (∃ line, lineText? bytes = some line ∧ goesOn (some line) = true ∧
        s.answer options bytes = .next (if line = "" then s else s.runLine options line)) ∨
      ∃ line, lineText? bytes = some line ∧ goesOn (some line) = false ∧
        s.answer options bytes = .done (s.finish farewell).1 (s.finish farewell).2 := by
  rw [Session.answer, lineText?]
  cases utf8Text? bytes with
  | none => exact .inl ⟨rfl, rfl⟩
  | some text =>
    right
    dsimp only [Option.map_some]
    generalize String.ofList (trimBlank text.toList) = line
    by_cases hleave : line = "exit" ∨ line = "quit"
    · have hempty : line ≠ "" := by
        rcases hleave with rfl | rfl <;> decide
      exact .inr ⟨line, rfl, by rcases hleave with rfl | rfl <;> decide, by simp [hempty, hleave]⟩
    · have hgoes : goesOn (some line) = true := by
        rw [not_or] at hleave
        simpa [goesOn] using hleave
      refine .inl ⟨line, rfl, hgoes, ?_⟩
      by_cases hempty : line = "" <;> simp [hempty, hleave]

theorem Session.Matches.runLines (h : s.Matches sink t) (hroom : sink.room = none)
    (options : RunOptions) (input : List (List UInt8)) :
    let lines := input.map lineText?
    let read := (lines.takeWhile goesOn).reduceOption
    let stop := (lines.dropWhile goesOn).head?
    let last := read.foldl (Transcript.answer options) t
    ∃ s', s.runLines options input = (closingResult stop, s') ∧
      s'.Matches sink (last.write (prompt ++ closingText stop)) := by
  induction input generalizing s t with
  | nil =>
    obtain ⟨s₁, hprompt, h₁⟩ := h.write hroom prompt
    obtain ⟨s₂, hfinish, h₂⟩ := h₁.finish hroom "\n"
    rw [Transcript.write_write] at h₂
    refine ⟨s₂, ?_, h₂⟩
    rw [Session.runLines, hprompt]
    exact hfinish
  | cons bytes input ih =>
    obtain ⟨s₁, hprompt, h₁⟩ := h.write hroom prompt
    intro lines read stop last
    rcases s₁.answer_cases options bytes with
      ⟨hline, hanswer⟩ | ⟨line, hline, hgoes, hanswer⟩ | ⟨line, hline, hgoes, hanswer⟩
    · have hlines : lines = none :: input.map lineText? := by rw [← hline]; rfl
      have hread : read = [] := by simp only [read, hlines, List.takeWhile_cons, goesOn]; rfl
      have hstop : stop = some none := by simp [stop, hlines, goesOn]
      have hrun : s.runLines options (bytes :: input) = (closingResult stop, s₁) := by
        simp only [Session.runLines, hprompt, hanswer, hstop, closingResult]
      refine ⟨s₁, hrun, ?_⟩
      simpa [last, hread, hstop, closingText] using h₁
    · have hlines : lines = some line :: input.map lineText? := by rw [← hline]; rfl
      have hnext : (if line = "" then s₁ else s₁.runLine options line).Matches sink
          (t.answer options line) := by
        rw [Transcript.answer]
        split
        · exact h₁
        · exact h₁.runLine hroom options line
      have hrest := ih hnext
      simp only [last, read, stop, hlines, List.takeWhile_cons_of_pos hgoes,
        List.dropWhile_cons_of_pos hgoes]
      simp only [Session.runLines, hprompt, hanswer]
      exact hrest
    · have hlines : lines = some line :: input.map lineText? := by rw [← hline]; rfl
      have hread : read = [] := by simp only [read, hlines, List.takeWhile_cons, hgoes]; rfl
      have hstop : stop = some (some line) := by simp [stop, hlines, hgoes]
      obtain ⟨s₂, hfinish, h₂⟩ := h₁.finish hroom farewell
      have hrun : s.runLines options (bytes :: input) = (closingResult stop, s₂) := by
        simp only [Session.runLines, hprompt, hanswer, hfinish, hstop, closingResult]
      refine ⟨s₂, hrun, ?_⟩
      rw [Transcript.write_write] at h₂
      simpa [last, hread, hstop, closingText] using h₂

/-- A session stops reading at the line that it does not go on behind. -/
theorem Session.runLines_append (options : RunOptions) {input : List (List UInt8)}
    (hstop : ∃ bytes ∈ input, goesOn (lineText? bytes) = false) (more : List (List UInt8))
    (s : Session) : s.runLines options (input ++ more) = s.runLines options input := by
  induction input generalizing s with
  | nil =>
    obtain ⟨bytes, hmem, -⟩ := hstop
    cases hmem
  | cons bytes input ih =>
    rw [List.cons_append, Session.runLines, Session.runLines]
    rcases s.write prompt with ⟨result, s₁⟩
    cases result with
    | error e => rfl
    | ok _ =>
      dsimp only
      rcases s₁.answer_cases options bytes with
        ⟨-, hanswer⟩ | ⟨line, hline, hgoes, hanswer⟩ | ⟨line, -, -, hanswer⟩
      · rw [hanswer]
      · rw [hanswer]
        refine ih ?_ _
        obtain ⟨bytes', hmem, hfalse⟩ := hstop
        rcases List.mem_cons.mp hmem with rfl | hmem
        · rw [hline, hgoes] at hfalse
          cases hfalse
        · exact ⟨bytes', hmem, hfalse⟩
      · rw [hanswer]

end Transcripts

/-- A session over an input, on a sink without limit. Its lines are run in turn in one environment, as
they are by themselves; in front of each, and at the end, stands a prompt. It ends well at a line that
asks for the end and at the end of the input, and with an error at a line that is no text; what comes
behind such a line makes no difference. -/
theorem runSession_eq_fold (input : List UInt8) (options : RunOptions) (sink : Sink)
    (hroom : sink.room = none) :
    let lines := (splitLines input).map lineText?
    let read := (lines.takeWhile goesOn).reduceOption
    let stop := (lines.dropWhile goesOn).head?
    let last := read.foldl (Transcript.answer options) ⟨.initial, utf8Bytes banner, []⟩
    let ended := runSession input options sink
    AreLines input (splitLines input) ∧
      ended.1 = closingResult stop ∧
      ended.2.env = last.env ∧
      ended.2.notices.filter Notice.isDiagnostic = last.told ∧
      ended.2.sink.taken.toList =
        sink.taken.toList ++ (last.output ++ utf8Bytes (prompt ++ closingText stop)) ∧
      ∀ before more, input = before ++ more → before.getLast? = some 10 →
        (∃ bytes ∈ splitLines before, goesOn (lineText? bytes) = false) →
        ended = runSession before options sink := by
  intro lines read stop last ended
  have hstart : (Session.start sink).Matches sink ⟨.initial, [], []⟩ :=
    ⟨rfl, (Sink.after_nil sink).symm, rfl⟩
  obtain ⟨s, hbanner, hs⟩ := hstart.write hroom banner
  obtain ⟨s', hrun, hs'⟩ := hs.runLines hroom options (splitLines input)
  have hended : ended = (closingResult stop, s') := by
    rw [← hrun]
    simp only [ended, runSession, hbanner]
  rw [hended]
  refine ⟨areLines_splitLines input, rfl, hs'.env, hs'.told, ?_, ?_⟩
  · rw [hs'.sink, Sink.taken_after hroom]
    rfl
  · rintro before more rfl hlast hstop
    rw [← hended]
    simp only [ended, runSession, hbanner]
    rw [splitLines_append hlast, Session.runLines_append options hstop]

theorem runSession_eq_fold_farewell :
    let input := utf8Bytes "var a = \"hi\";\n\n\ta;\n-a;\r\n exit\nprint a;"
    let options : RunOptions := ⟨.plain, false, false⟩
    let ended := runSession input options .unlimited
    Sink.unlimited.room = none ∧ ended.1 = .ok () ∧
      ended.2.env.frames = [[("a", .string "hi")]] ∧
      ended.2.sink.taken.toList = utf8Bytes (banner ++ "> > > hi\n> > Goodbye!\n") := by
  intro input options ended
  have hroom : Sink.unlimited.room = none := rfl
  obtain ⟨-, hresult, henv, -, houtput, -⟩ := runSession_eq_fold input options .unlimited hroom
  have hstop : (((splitLines input).map lineText?).dropWhile goesOn).head? =
      some (some "exit") := by decide +kernel
  rw [hstop] at hresult houtput
  refine ⟨hroom, ?_, ?_, ?_⟩
  · rw [hresult]
    rfl
  · rw [henv]
    decide +kernel
  · rw [houtput]
    decide +kernel

end Treewalk
