import DosMonitor.Command.Parse
import DosMonitor.Machine.Debugging
import DosMonitor.Machine.Storage

/-!
# Carrying out commands

A command gives lines to show and says whether the session ends. Errors become lines, too. A command
line of blanks does nothing; after any other, a machine that a program has terminated ends the session.
-/

namespace DosMonitor

/-- What a command gives. -/
structure CommandOutput where
  lines : List String
  quit : Bool
  deriving DecidableEq, Repr

namespace CommandOutput

def nothing : CommandOutput :=
  ⟨[], false⟩

def ofLines (lines : List String) : CommandOutput :=
  ⟨lines, false⟩

def ofLine (text : String) : CommandOutput :=
  ⟨[text], false⟩

end CommandOutput

def helpLines : List String := [
  "r [reg value]          show registers / set a register",
  "p <instruction>        execute one instruction",
  "d <start> <end>        dump memory",
  "f <start> <end> <pat>  fill memory with a pattern",
  "m <begin> <end> <dst>  move a block",
  "s <start> <pat>        search for a pattern",
  "c <from> <end> <to>    compare two blocks",
  "e <addr> <text>        enter text at an address",
  "sp <page>              select the active page",
  "load <file> [base]     load a program",
  "trace on|off           per-instruction tracing",
  "bp <label|addr>        set a breakpoint",
  "delbp <label|addr>     clear a breakpoint",
  "bpl                    list breakpoints",
  "watch <expr>           watch AX, FLAGS.CF, [DS:DX], [page:addr], [addr]",
  "unwatch <expr>         remove a watch",
  "watches                list watches",
  "step                   execute the next program line",
  "cont [max]             run until breakpoint, end or limit",
  "disas                  list the program with pseudo bytes",
  "disk load|save         sync the virtual disk with its file",
  "disk dump <a> <b>      dump disk sectors",
  "w <addr> <sec> <n>     memory -> disk",
  "l <addr> <sec> <n>     disk -> memory",
  "q                      quit"]

def Step.text : Step → String
  | executed line => s!"Executed {line}"
  | breakpoint address => s!"Stopped at breakpoint {Text.hex 4 address.toNat}"
  | halted => "Program halted"
  | exited line code => s!"Executed {line} (exit code {code.toNat})"

def RunSummary.text (s : RunSummary) : String :=
  s!"{s.reason.text} after {s.steps} step(s)"

namespace Command

open CommandOutput Machine

def registerListing : MachineM CommandOutput :=
  return ofLines (← get).registers.listing

def perform (host : Host) : Command → MachineM CommandOutput
  | .quit => return ⟨[], true⟩
  | .help => return ofLines helpLines
  | .showRegisters => registerListing
  | .setRegister name value => do
    Machine.setRegister name value
    registerListing
  | .execute line => do
    match ← exec line with
    | .proceed => registerListing
    | .exit _ => return nothing
  | .dump start stop => return ofLines (← ofMemory ((← get).memory.dump start stop))
  | .fill start stop pattern => do
    onMemory (Memory.fill start stop pattern)
    return nothing
  | .move start stop destination => do
    onMemory (Memory.move start stop destination)
    return nothing
  | .search start pattern => return ofLines (← ofMemory ((← get).memory.search start pattern))
  | .compare start stop destination =>
    return ofLines (← ofMemory ((← get).memory.compare start stop destination))
  | .enter address text => do
    onMemory (Memory.enter address text)
    return nothing
  | .selectPage page => do
    setActivePage page
    return ofLine s!"Active page {Text.hex 4 page}"
  | .load path base => do
    let base := base.getD (← get).config.base
    let count ← loadFile host path base
    return ofLine s!"Loaded {count} line(s) at {Text.hex 4 base.toNat}"
  | .trace on => do
    setTracing on
    return ofLine (if on then "Trace on" else "Trace off")
  | .addBreakpoint location => do
    let address ← Machine.addBreakpoint location
    return ofLine s!"Breakpoint at {Text.hex 4 address.toNat}"
  | .removeBreakpoint location => do
    let removed ← Machine.removeBreakpoint location
    return ofLine (if removed then "Breakpoint removed" else "No breakpoint there")
  | .listBreakpoints => return ofLines ((← get).debugger.breakpoints.map fun a => Text.hex 4 a.toNat)
  | .addWatch expr => do
    Machine.addWatch expr
    return nothing
  | .removeWatch expr => do
    let removed ← Machine.removeWatch expr
    return if removed then nothing else ofLine "No such watch"
  | .listWatches => return ofLines ((← get).debugger.watches.map Watch.text)
  | .step => return ofLine (← Machine.step).text
  | .run limit => return ofLine (← Machine.run limit).text
  | .listProgram => return ofLines (← ofExcept (← get).listing)
  | .loadDisk => do
    let count ← onDisk (Disk.load host)
    let path := (← get).disk.path
    return ofLine s!"Read {count} byte(s) from {path}"
  | .saveDisk => do
    let count ← onDisk (Disk.save host)
    let path := (← get).disk.path
    return ofLine s!"Wrote {count} byte(s) to {path}"
  | .dumpDisk start stop => return ofLines (← ofDisk ((← get).disk.dump start stop))
  | .writeToDisk address first count => do
    let n ← Machine.writeToDisk address first count
    return ofLine s!"{n} byte(s) written to disk"
  | .readFromDisk address first count => do
    let n ← Machine.readFromDisk address first count
    return ofLine s!"{n} byte(s) read from disk"

/-- What a command asks of the host, if anything. -/
def request? (m : Machine) : Command → Option FileRequest
  | .load path _ => some (.read path)
  | .loadDisk => some (.read m.disk.path)
  | .saveDisk => some m.disk.saveRequest
  | _ => none

/-- The command on a line, after its command word and arguments have been told apart. -/
def ofLine? (line : String) : Option Command :=
  let (word, args) := Text.cutAtBlank (Text.trim line.toList)
  parse? (.ofList (Text.lower word)) (Text.trim args)

end Command

def isBlankLine (line : String) : Bool :=
  line.toList.all Text.isBlank

namespace Machine

/-- What the machine has to say after a command: a program that has terminated ends the session. -/
def conclude (m : Machine) (output : CommandOutput) : CommandOutput :=
  match m.status with
  | .running => output
  | .terminated code =>
    ⟨output.lines ++ [s!"Program terminated with exit code {code.toNat}"], true⟩

def dispatch (host : Host) (line : String) (m : Machine) : CommandOutput × Machine :=
  if isBlankLine line then (.nothing, m)
  else
    match Command.ofLine? line with
    | none => (m.conclude (.ofLine "Input not recognized."), m)
    | some command =>
      match command.perform host m with
      | .ok output m => (m.conclude output, m)
      | .error e m => (m.conclude (.ofLine s!"Error: {e.message}"), m)

def request? (m : Machine) (line : String) : Option FileRequest :=
  (Command.ofLine? line).bind (Command.request? m)

end Machine

end DosMonitor
