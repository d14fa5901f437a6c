import DosMonitor.Execution.Execute
import DosMonitor.Memory.Block
import DosMonitor.Disk
import DosMonitor.Debug.Program
import DosMonitor.Debug.Watch
import DosMonitor.Debug.Breakpoints

/-!
# The machine

A machine is the context in which instructions run (registers, memory, console), a disk, a debugger,
a trace and the configuration it was made from. Actions on it may fail, and a failing one says what it
leaves behind.
-/

namespace DosMonitor

/-- The shape of a machine. -/
structure Config where
  pages : Nat
  activePage : Nat
  diskSize : Nat
  diskName : String
  /-- The directory of the disk's file, the home directory where there is none. -/
  diskDirectory : Option String
  base : UInt16
  trace : Bool
  maxSteps : Nat
  /-- How the labels of each program that is loaded are gone through, which the machine leaves open. -/
  labelOrders : Nat → LabelOrder := fun _ => .latestFirst

/-- One page, a disk of 512 sectors named `vdisk`, programs at 0100h that run 10000 lines at most. -/
def Config.standard : Config where
  pages := 1
  activePage := 0
  diskSize := 512
  diskName := "vdisk"
  diskDirectory := none
  base := 0x0100
  trace := false
  maxSteps := 10000

/-- Whether a program has ended the session. -/
inductive Status
  | running
  | terminated (code : UInt8)
  deriving DecidableEq, Repr

/-- What the debugger keeps. -/
structure Debugger where
  program : Option Program
  breakpoints : Breakpoints
  watches : Watches
  /-- The line at which the last step has stopped, so that the next one runs it. -/
  resume : Option Nat
  /-- How many programs have been loaded. -/
  loads : Nat
  deriving DecidableEq, Repr

/-- Where the lines of trace, watches and breakpoints go. -/
structure Trace where
  enabled : Bool
  /-- Whether the lines are shown on the console, too. -/
  echo : Bool
  lines : Array String
  deriving DecidableEq, Repr

/-- The whole machine. -/
structure Machine where
  core : Context Memory
  disk : Disk
  debugger : Debugger
  trace : Trace
  status : Status
  config : Config

/-- An action on the machine. -/
abbrev MachineM := EStateM Error Machine

namespace Machine

/-- A machine of a given shape. The home directory is where the disk's file lies if the shape does not
say. -/
def create (config : Config) (home : String) (console : Console) : Except Error Machine :=
  if config.pages = 0 then .error (.memory (.invalidPage config.activePage 0))
  else
    match Memory.setActivePage config.activePage (Memory.ofPages config.pages) with
    | .error e _ => .error (.memory e)
    | .ok _ memory => .ok {
        core := ⟨RegisterFile.zero, memory, console⟩
        disk := Disk.blank config.diskSize config.diskName (config.diskDirectory.getD home)
        debugger := ⟨none, [], [], none, 0⟩
        trace := ⟨config.trace, false, #[]⟩
        status := .running
        config }

def registers (m : Machine) : RegisterFile :=
  m.core.registers

def memory (m : Machine) : Memory :=
  m.core.bus

def console (m : Machine) : Console :=
  m.core.console

/-- The order for the labels of the program that is loaded. -/
def labelOrder (m : Machine) : LabelOrder :=
  m.config.labelOrders m.debugger.loads

/-- An action on what instructions work on. -/
@[inline] def onCore {α : Type} (action : Exec Memory α) : MachineM α
  | ⟨core, disk, debugger, trace, status, config⟩ =>
    match action core with
    | .ok a core => .ok a ⟨core, disk, debugger, trace, status, config⟩
    | .error e core => .error e ⟨core, disk, debugger, trace, status, config⟩

@[inline] def onMemory {α : Type} (action : BusM Memory α) : MachineM α :=
  onCore (Exec.onBus action)

@[inline] def onDisk {α : Type} (action : DiskM α) : MachineM α
  | ⟨core, disk, debugger, trace, status, config⟩ =>
    match action disk with
    | .ok a disk => .ok a ⟨core, disk, debugger, trace, status, config⟩
    | .error e disk => .error (.disk e) ⟨core, disk, debugger, trace, status, config⟩

@[inline] def setRegisters (f : RegisterFile → RegisterFile) : MachineM Unit :=
  onCore (Exec.setRegisters f)

@[inline] def setDebugger (f : Debugger → Debugger) : MachineM Unit
  | ⟨core, disk, debugger, trace, status, config⟩ =>
    .ok () ⟨core, disk, f debugger, trace, status, config⟩

@[inline] def setStatus (status : Status) : MachineM Unit
  | ⟨core, disk, debugger, trace, _, config⟩ => .ok () ⟨core, disk, debugger, trace, status, config⟩

def setTracing (on : Bool) : MachineM Unit
  | ⟨core, disk, debugger, trace, status, config⟩ =>
    .ok () ⟨core, disk, debugger, { trace with enabled := on }, status, config⟩

/-- Puts out a line of trace. -/
def emit (line : String) : MachineM Unit
  | ⟨⟨registers, bus, console⟩, disk, debugger, trace, status, config⟩ =>
    let console := if trace.echo then console.writeLine line else console
    .ok () ⟨⟨registers, bus, console⟩, disk, debugger,
      { trace with lines := trace.lines.push line }, status, config⟩

def emitAll (lines : List String) : MachineM Unit :=
  lines.forM emit

/-- A value that may be an error of memory. -/
@[inline] def ofMemory {α : Type} : Except MemoryError α → MachineM α
  | .ok a => pure a
  | .error e => throw (.memory e)

@[inline] def ofDisk {α : Type} : Except DiskError α → MachineM α
  | .ok a => pure a
  | .error e => throw (.disk e)

end Machine

end DosMonitor
