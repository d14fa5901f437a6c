import DosMonitor.Machine.Run
import DosMonitor.Host.Request
import DosMonitor.Text.Split

/-!
# Debugging a program

A loaded program is run line by line. A step stops in front of a line with a breakpoint, once; the next
step runs it. The place behind the last line can hold a breakpoint, too. The line counts as run
before its instruction is carried out, so one that fails is not tried again.
-/

namespace DosMonitor

/-- What a step has done. -/
inductive Step
  | executed (line : String)
  /-- A breakpoint at this address, where nothing has run. -/
  | breakpoint (address : UInt16)
  | halted
  | exited (line : String) (code : UInt8)
  deriving DecidableEq, Repr

/-- Why a run has stopped. -/
inductive StopReason
  | breakpoint (address : UInt16)
  | halted
  | stepLimit
  | exited (code : UInt8)
  deriving DecidableEq, Repr

def StopReason.text : StopReason → String
  | breakpoint address => s!"breakpoint at {Text.hex 4 address.toNat}"
  | halted => "program halted"
  | stepLimit => "step limit reached"
  | exited code => s!"program exited with code {code.toNat}"

/-- Why a run has stopped, and how many lines it has run. -/
structure RunSummary where
  reason : StopReason
  steps : Nat
  deriving DecidableEq, Repr

namespace Machine

/-- Loads a program in place of any other. Breakpoints and watches stay. -/
def load (source : List String) (base : UInt16) : MachineM Unit := do
  setDebugger fun d =>
    { d with program := some (Program.ofSource source base), resume := none, loads := d.loads + 1 }
  setStatus .running

/-- The text of a program file. -/
def programText (reply : FileReply) : Except Fault String := do
  let contents ← reply
  match Text.ofBytes? contents with
  | some text => return text
  | none => throw .notText

/-- Loads a program file. Gives the number of executable lines. -/
def loadFile (host : Host) (path : String) (base : UInt16) : MachineM Nat := do
  match programText (host (.read path)) with
  | .error fault => throw (.host path fault)
  | .ok text =>
    load ((Text.splitAt '\n' text.toList).map String.ofList) base
    return (← get).debugger.program.elim 0 (·.lines.size)

/-- The address that a text means: that of a label, or a hexadecimal number. -/
def resolve (m : Machine) (location : String) : Except Error UInt16 :=
  let name := Text.trim location.toList
  match m.debugger.program.bind fun p => (p.label? name).map p.address with
  | some address => .ok address
  | none =>
    match Text.hexBelow? 0x10000 name with
    | some address => .ok (UInt16.ofNat address)
    | none => .error (.unknownLabel (.ofList name))

/-- Sets a breakpoint. Gives its address. -/
def addBreakpoint (location : String) : MachineM UInt16 := do
  let address ← ofExcept ((← get).resolve location)
  setDebugger fun d => { d with breakpoints := d.breakpoints.insert address }
  return address

/-- Removes a breakpoint. Says whether there was one. -/
def removeBreakpoint (location : String) : MachineM Bool := do
  let m ← get
  let address ← ofExcept (m.resolve location)
  setDebugger fun d => { d with breakpoints := d.breakpoints.erase address }
  return m.debugger.breakpoints.contains address

def clearBreakpoints : MachineM Unit :=
  setDebugger fun d => { d with breakpoints := [] }

/-- Watches an expression. -/
def addWatch (expr : String) : MachineM Unit := do
  let watches ← ofExcept ((← get).debugger.watches.add expr)
  setDebugger fun d => { d with watches }

/-- Stops watching an expression. Says whether it was watched. -/
def removeWatch (expr : String) : MachineM Bool := do
  let before := (← get).debugger.watches
  let watches := before.remove expr
  setDebugger fun d => { d with watches }
  return watches.length != before.length

def clearWatches : MachineM Unit :=
  setDebugger fun d => { d with watches := [] }

/-- Moves the program to a line and notes at which line it has stopped, if it has. -/
def setPosition (pc : Nat) (resume : Option Nat) : MachineM Unit :=
  setDebugger fun d => { d with program := d.program.map ({ · with pc }), resume }

/-- The report of a breakpoint in front of a line. -/
def breakText (order : LabelOrder) (p : Program) (line : Nat) : String :=
  let label := match p.labelAt? order line with
    | some name => s!" ({name})"
    | none => ""
  let text := p.lines[line]?.getD "<end>"
  s!"[break] {Text.hex 4 (p.address line).toNat}{label}: {text}"

/-- Runs the next line of the program, or stops in front of it. -/
def step : MachineM Step := do
  let m ← get
  match m.debugger.program with
  | none => throw .noProgram
  | some p =>
    let address := p.address p.pc
    if m.debugger.breakpoints.contains address && m.debugger.resume != some p.pc then
      setPosition p.pc (some p.pc)
      emit (breakText m.labelOrder p p.pc)
      return .breakpoint address
    match p.lines[p.pc]? with
    | none => return .halted
    | some line =>
      setPosition (p.pc + 1) none
      match ← exec line with
      | .proceed => return .executed line
      | .exit code =>
        setPosition p.lines.size none
        return .exited line code

/-- Steps until something stops the program, or so many lines have run. Counts on from `steps`. -/
def runFrom (steps : Nat) : (limit : Nat) → MachineM RunSummary
  | 0 => return ⟨.stepLimit, steps⟩
  | limit + 1 => do
    match ← step with
    | .executed _ => runFrom (steps + 1) limit
    | .breakpoint address => return ⟨.breakpoint address, steps⟩
    | .halted => return ⟨.halted, steps⟩
    | .exited _ code => return ⟨.exited code, steps + 1⟩

/-- Runs the program for so many lines at most, the configured number where none is given. -/
def run (limit : Option Nat) : MachineM RunSummary := do
  let maxSteps := (← get).config.maxSteps
  runFrom 0 (limit.getD maxSteps)

def listing (m : Machine) : Except Error (List String) :=
  match m.debugger.program with
  | none => .error .noProgram
  | some p =>
    .ok (p.lines.toList.mapIdx fun i line => Assembly.listingLine line.toList (p.address i))

end Machine

end DosMonitor
