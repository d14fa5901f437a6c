import DosMonitor.Machine.State
import DosMonitor.Memory.Logged
import DosMonitor.Debug.TraceRecord

/-!
# Running a line of source

A line that is a label or blank does nothing. Any other is read, the change report of the registers
starts anew, and the instruction is carried out. With tracing on, memory is reached through a log, and
a trace line and the reports of the watches follow, whether the instruction has failed or not.
-/

namespace DosMonitor.Machine

/-- A look at every watch, and their reports. -/
def observeWatches : MachineM Unit := do
  let m ← get
  let (watches, reports) := m.debugger.watches.observe m.registers m.memory
  setDebugger fun debugger => { debugger with watches }
  emitAll reports

/-- Carries out an instruction with a log in front of memory. Gives its result, which may be an error,
and the accesses. -/
def attemptLogged (i : Instruction) : Exec Memory (Except Error Outcome × List Access)
  | ⟨registers, bus, console⟩ =>
    match Execution.execute i ⟨registers, Logged.start bus, console⟩ with
    | .ok outcome ⟨registers, bus, console⟩ =>
      .ok (.ok outcome, bus.log.toList) ⟨registers, bus.inner, console⟩
    | .error e ⟨registers, bus, console⟩ =>
      .ok (.error e, bus.log.toList) ⟨registers, bus.inner, console⟩

/-- Carries out an instruction, with its trace line and the reports of the watches. -/
def executeTraced (line : List Char) (i : Instruction) : MachineM Outcome := do
  let before := (← get).registers.now
  let (result, accesses) ← onCore (attemptLogged i)
  let record : TraceRecord := {
    text := .ofList (Text.trim (Source.code line))
    code := Assembly.encode? i
    before
    after := (← get).registers.now
    accesses }
  match result with
  | .ok outcome =>
    emit record.line
    observeWatches
    return outcome
  | .error e =>
    emit s!"{record.line} | error: {e.message}"
    observeWatches
    throw e

def runLine (line : List Char) : MachineM Outcome := do
  if (Source.label? line).isSome then return .proceed
  match Source.instruction? line with
  | .error e => throw (.parse e)
  | .ok none => return .proceed
  | .ok (some i) =>
    setRegisters RegisterFile.commit
    if (← get).trace.enabled then executeTraced line i else onCore (Execution.execute i)

/-- Notes when a program has ended. -/
def track : Outcome → MachineM Unit
  | .proceed => pure ()
  | .exit code => setStatus (.terminated code)

/-- Runs a line of source and notes when it has ended the session. -/
def exec (line : String) : MachineM Outcome := do
  let outcome ← runLine line.toList
  track outcome
  return outcome

end DosMonitor.Machine
