import Mathlib
import DosMonitor.Machine.Run
import DosMonitor.Proofs.Execution

/-!
# What a line does, and what is only said about it

A line of source acts on registers, memory and console (`lineEffect`). Everything else that happens
while it runs is observation: with tracing on, the accesses to memory are logged, a trace line and the
reports of the watches go out, and each watch notes the value it has seen.

Main statements: a line does to the machine what `lineEffect` does to its core, with reports added
(`runLine_eq`, `exec_eq`), and it leaves program, breakpoints, disk and configuration alone
(`SameSetup`, `exec_setup`).
-/

namespace DosMonitor

/-- The effect of a line of source on registers, memory and console, tracing left out. -/
def Execution.lineEffect {β : Type} [Bus β] (line : List Char) : Exec β Outcome := do
  if (Source.label? line).isSome then return .proceed
  match Source.instruction? line with
  | .error e => throw (.parse e)
  | .ok none => return .proceed
  | .ok (some i) =>
    Exec.setRegisters RegisterFile.commit
    Execution.execute i

theorem Execution.lineEffect_lockstep {β γ : Type} [Bus β] [Bus γ] {page : Nat} {B : β → γ → Prop}
    {K : Console → Console → Prop} (hB : BusRelation page B) (hK : ConsoleRelation K)
    (line : List Char) :
    Lockstep (Context.Related B K) (lineEffect line) (lineEffect line) := by
  unfold lineEffect
  split_ifs
  · exact Lockstep.pure _
  · split
    · exact Lockstep.throw _
    · exact Lockstep.pure _
    · exact Lockstep.bind (lockstep_setRegisters _) fun _ => execute_lockstep hB hK _

/-- The status that an outcome leaves behind. -/
def Outcome.status (before : Status) : Outcome → Status
  | .proceed => before
  | .exit code => .terminated code

/-- What a watch looks at, without the value it has seen last. -/
def Watch.subject (w : Watch) : String × WatchTarget :=
  (w.expr, w.target)

/-- The watched expressions, without the values seen last. -/
def Watches.subjects (ws : Watches) : List (String × WatchTarget) :=
  ws.map Watch.subject

@[simp] theorem Watches.subjects_observe (ws : Watches) (rf : RegisterFile) (m : Memory) :
    Watches.subjects (ws.observe rf m).1 = Watches.subjects ws := by
  simp only [Watches.subjects, Watches.observe, List.map_map]
  rfl

/-! ## Records -/

/-- The core with a log in front of memory. -/
def Context.logged (c : Context Memory) : Context (Logged Memory) :=
  ⟨c.registers, Logged.start c.bus, c.console⟩

/-- The accesses to memory that an instruction makes. -/
def Context.accesses (c : Context Memory) (i : Instruction) : List Access :=
  (endState (Execution.execute i c.logged)).bus.log.toList

/-- The trace record of an instruction. -/
def Context.traceRecord (c : Context Memory) (line : List Char) (i : Instruction) : TraceRecord where
  text := .ofList (Text.trim (Source.code line))
  code := Assembly.encode? i
  before := c.registers.now
  after := (endState (Execution.execute i c)).registers.now
  accesses := c.accesses i

/-- The line that is put out for an instruction: its record, and the error if it has failed. -/
def Context.traceLine (c : Context Memory) (line : List Char) (i : Instruction) : String :=
  match Execution.execute i c with
  | .ok _ _ => (c.traceRecord line i).line
  | .error e _ => s!"{(c.traceRecord line i).line} | error: {e.message}"

theorem Console.input_foldl_writeLine (lines : List String) (c : Console) :
    (lines.foldl Console.writeLine c).input = c.input := by
  induction lines generalizing c with
  | nil => rfl
  | cons line lines ih => exact ih _

namespace Machine

/-! ## Reports -/

/-- The machine with other registers, memory and console. -/
def withCore (m : Machine) (core : Context Memory) : Machine :=
  { m with core }

/-- The machine with lines of trace put out. -/
def reported (m : Machine) (reports : List String) : Machine :=
  { m with
    core := { m.core with
      console := if m.trace.echo then reports.foldl Console.writeLine m.core.console
        else m.core.console }
    trace := { m.trace with lines := m.trace.lines ++ reports.toArray } }

def withWatches (m : Machine) (watches : Watches) : Machine :=
  { m with debugger := { m.debugger with watches } }

theorem emit_eq (line : String) (m : Machine) : emit line m = .ok () (m.reported [line]) := by
  simp [emit, reported]

theorem reported_append (m : Machine) (reports more : List String) :
    (m.reported reports).reported more = m.reported (reports ++ more) := by
  unfold reported
  cases m.trace.echo <;> simp

@[simp] theorem reported_nil (m : Machine) : m.reported [] = m := by
  unfold reported
  cases m.trace.echo <;> simp

theorem emitAll_eq (lines : List String) (m : Machine) :
    emitAll lines m = .ok () (m.reported lines) := by
  induction lines generalizing m with
  | nil => rw [reported_nil]; rfl
  | cons line lines ih =>
    change EStateM.bind (emit line) (fun _ => emitAll lines) m = _
    simp only [EStateM.bind, emit_eq, ih, reported_append, List.singleton_append]

theorem input_reported (m : Machine) (reports : List String) :
    (m.reported reports).console.input = m.console.input := by
  change (if m.trace.echo then _ else _ : Console).input = _
  split_ifs
  · exact Console.input_foldl_writeLine reports m.console
  · rfl

theorem console_reported {m : Machine} (hecho : m.trace.echo = false) (reports : List String) :
    (m.reported reports).console = m.console := by
  change (if m.trace.echo then _ else _ : Console) = _
  rw [hecho]
  rfl

/-! ## Running a line -/

/-- The machine after an action on its core, with what trace and watches had to do about it. -/
def observed (m : Machine) (core : Context Memory) (watches : Watches) (reports : List String) :
    Machine :=
  ((m.withCore core).withWatches watches).reported reports

theorem onCore_eq {α : Type} (action : Exec Memory α) (m : Machine) :
    onCore action m = mapEnd m.withCore (action m.core) := by
  unfold onCore
  cases h : action m.core <;> simp [h] <;> rfl

/-- The machine after an action on its core, a line of trace and a look at every watch. -/
def tracedTo (m : Machine) (core : Context Memory) (text : String) : Machine :=
  let looks := m.debugger.watches.observe core.registers core.bus
  m.observed core looks.1 (text :: looks.2)

/-- The watches are looked at after the line has been put out. -/
theorem observeWatches_eq (m : Machine) (core : Context Memory) (text : String) :
    observeWatches ((m.withCore core).reported [text]) = .ok () (m.tracedTo core text) := by
  have hemit := emitAll_eq (m.debugger.watches.observe core.registers core.bus).2
    (((m.withCore core).withWatches (m.debugger.watches.observe core.registers core.bus).1).reported
      [text])
  rw [reported_append] at hemit
  exact hemit

/-- Behind a log an instruction does what it does without. -/
theorem attemptLogged_eq (i : Instruction) (c : Context Memory) :
    attemptLogged i c =
      match Execution.execute i c with
      | .ok outcome d => .ok (.ok outcome, c.accesses i) d
      | .error e d => .ok (.error e, c.accesses i) d := by
  have h := Execution.execute_lockstep (busRelation_logged c.bus.activePage) consoleRelation_eq i
    c.logged c ⟨rfl, ⟨rfl, rfl⟩, rfl⟩
  unfold attemptLogged Context.accesses
  unfold Context.logged at h ⊢
  dsimp only
  generalize Execution.execute i ⟨c.registers, Logged.start c.bus, c.console⟩ = r at h
  generalize Execution.execute i c = q at h
  cases h with
  | @ok outcome s t h' =>
    obtain ⟨hregisters, ⟨hbus, -⟩, hconsole⟩ := h'
    show EStateM.Result.ok _ (⟨s.registers, s.bus.inner, s.console⟩ : Context Memory) = .ok _ t
    rw [hregisters, hbus, hconsole]
    rfl
  | @error e s t h' =>
    obtain ⟨hregisters, ⟨hbus, -⟩, hconsole⟩ := h'
    show EStateM.Result.ok _ (⟨s.registers, s.bus.inner, s.console⟩ : Context Memory) = .ok _ t
    rw [hregisters, hbus, hconsole]
    rfl

theorem lockstep_attemptLogged {page : Nat} {B : Memory → Memory → Prop} {K : Console → Console → Prop}
    (hB : BusRelation page B) (hK : ConsoleRelation K) (i : Instruction) :
    Lockstep (Context.Related B K) (attemptLogged i) (attemptLogged i) := by
  intro c d h
  have hplain := Execution.execute_lockstep hB hK i c d h
  have hlogged := Execution.execute_lockstep hB.logged hK i c.logged d.logged
    ⟨h.registers, ⟨h.bus, rfl⟩, h.console⟩
  have haccesses : c.accesses i = d.accesses i := congrArg Array.toList hlogged.endState.bus.2
  rw [attemptLogged_eq, attemptLogged_eq, haccesses]
  generalize Execution.execute i c = r at hplain
  generalize Execution.execute i d = q at hplain
  cases hplain with
  | ok outcome hend => exact .ok _ hend
  | error e hend => exact .ok _ hend

/-- A traced instruction acts on the core; then its line is put out, and every watch is looked at. -/
theorem executeTraced_eq_tracedTo (line : List Char) (i : Instruction) (m : Machine) :
    executeTraced line i m =
      mapEnd (m.tracedTo · (m.core.traceLine line i)) (Execution.execute i m.core) := by
  have h := attemptLogged_eq i m.core
  unfold executeTraced Context.traceLine Context.traceRecord
  cases hx : Execution.execute i m.core with
  | ok outcome c =>
    simp only [hx] at h
    simp only [bind, EStateM.bind, get, getThe, MonadStateOf.get, EStateM.get, onCore_eq, h,
      mapEnd, emit_eq, endState_ok, observeWatches_eq]
    rfl
  | error e c =>
    simp only [hx] at h
    simp only [bind, EStateM.bind, get, getThe, MonadStateOf.get, EStateM.get, onCore_eq, h,
      mapEnd, emit_eq, endState_error, observeWatches_eq]
    rfl

/-- **A traced instruction acts like one that is not traced.** Its line is put out first, then the
reports of the watches. -/
theorem executeTraced_eq (line : List Char) (i : Instruction) (m : Machine) :
    ∃ watches reports, watches.subjects = m.debugger.watches.subjects ∧
      executeTraced line i m =
        mapEnd (m.observed · watches (m.core.traceLine line i :: reports))
          (Execution.execute i m.core) := by
  rw [executeTraced_eq_tracedTo]
  generalize Execution.execute i m.core = r
  refine ⟨(m.debugger.watches.observe (endState r).registers (endState r).bus).1,
    (m.debugger.watches.observe (endState r).registers (endState r).bus).2,
    Watches.subjects_observe .., ?_⟩
  cases r with
  | ok outcome core => simp only [mapEnd_ok, tracedTo, endState_ok]
  | error e core => simp only [mapEnd_error, tracedTo, endState_error]

/-- **A line acts through `lineEffect`**: with tracing on or off, what it does to registers, memory
and console is the same, and all else is that reports go out and watches note their values. -/
theorem runLine_eq (line : List Char) (m : Machine) :
    ∃ watches reports, watches.subjects = m.debugger.watches.subjects ∧
      runLine line m =
        mapEnd (m.observed · watches reports) (Execution.lineEffect line m.core) := by
  have silent : ∀ core, m.observed core m.debugger.watches [] = m.withCore core :=
    fun core => reported_nil _
  unfold runLine Execution.lineEffect
  split_ifs
  · exact ⟨m.debugger.watches, [], rfl, congrArg _ (silent m.core).symm⟩
  · rcases Source.instruction? line with e | _ | i
    · exact ⟨m.debugger.watches, [], rfl, congrArg _ (silent m.core).symm⟩
    · exact ⟨m.debugger.watches, [], rfl, congrArg _ (silent m.core).symm⟩
    · let committed : Context Memory := ⟨m.core.registers.commit, m.core.bus, m.core.console⟩
      change ∃ watches reports, watches.subjects = m.debugger.watches.subjects ∧
        (if m.trace.enabled then executeTraced line i else onCore (Execution.execute i))
          (m.withCore committed) =
          mapEnd (m.observed · watches reports) (Execution.execute i committed)
      split_ifs
      · obtain ⟨watches, reports, hsubjects, h⟩ := executeTraced_eq line i (m.withCore committed)
        exact ⟨watches, _, hsubjects, h⟩
      · refine ⟨m.debugger.watches, [], rfl, ?_⟩
        simp only [silent, onCore_eq]
        rfl

def withStatus (m : Machine) (status : Status) : Machine :=
  { m with status }

/-- **The same for a line that may end the session**, which shows in the status. -/
theorem exec_eq (line : String) (m : Machine) :
    ∃ watches reports, watches.subjects = m.debugger.watches.subjects ∧
      exec line m =
        match Execution.lineEffect line.toList m.core with
        | .ok outcome core =>
          .ok outcome ((m.observed core watches reports).withStatus (outcome.status m.status))
        | .error e core => .error e (m.observed core watches reports) := by
  obtain ⟨watches, reports, hsubjects, h⟩ := runLine_eq line.toList m
  refine ⟨watches, reports, hsubjects, ?_⟩
  unfold exec
  cases hx : Execution.lineEffect line.toList m.core with
  | ok outcome core =>
    simp only [bind, EStateM.bind, h, hx, mapEnd_ok]
    cases outcome <;> rfl
  | error e core => simp only [bind, EStateM.bind, h, hx, mapEnd_error]

/-! ## What a line leaves alone -/

/-- Two machines with the same program, breakpoints, watched expressions, disk, configuration and
tracing. -/
structure SameSetup (m n : Machine) : Prop where
  program : m.debugger.program = n.debugger.program
  loads : m.debugger.loads = n.debugger.loads
  breakpoints : m.debugger.breakpoints = n.debugger.breakpoints
  resume : m.debugger.resume = n.debugger.resume
  watches : m.debugger.watches.subjects = n.debugger.watches.subjects
  disk : m.disk = n.disk
  config : m.config = n.config
  enabled : m.trace.enabled = n.trace.enabled
  echo : m.trace.echo = n.trace.echo

theorem observed_setup (m : Machine) (core : Context Memory) {watches : Watches}
    (reports : List String) (h : watches.subjects = m.debugger.watches.subjects) :
    SameSetup (m.observed core watches reports) m where
  program := rfl
  loads := rfl
  breakpoints := rfl
  resume := rfl
  watches := h
  disk := rfl
  config := rfl
  enabled := rfl
  echo := rfl

theorem exec_setup (line : String) (m : Machine) : SameSetup (endState (exec line m)) m := by
  obtain ⟨watches, reports, hsubjects, h⟩ := exec_eq line m
  rw [h]
  cases Execution.lineEffect line.toList m.core with
  | ok outcome core => exact { observed_setup m core reports hsubjects with }
  | error e core => exact observed_setup m core reports hsubjects

end Machine

end DosMonitor
