import DosMonitor.Session.Session

/-!
# The monitor as a program

One session on the standard streams, with the files of the host. What a command does is a function of
the input and of the host's answers; here lines are read, requests are carried out, and what is new on
the console and in the trace is written.

A command may run a program that asks for lines of its own, and how many is known only afterwards. So a
blank line stands in for the next one: where it has been taken, one more line is read and the command is
carried out again on the machine as it was.
-/

namespace DosMonitor.Terminal

/-- The host's number of an error, which some of its services negate. -/
def positive (number : UInt32) : Nat :=
  (if number < 0x80000000 then number else 0 - number).toNat

/-- The failure that an error of the system is. -/
def faultOf : IO.Error → Fault
  | .alreadyExists _ number text | .otherError number text | .resourceBusy number text
  | .resourceVanished number text | .unsupportedOperation number text | .hardwareFault number text
  | .unsatisfiedConstraints number text | .illegalOperation number text
  | .protocolError number text | .timeExpired number text | .interrupted _ number text
  | .noFileOrDirectory _ number text | .invalidArgument _ number text
  | .permissionDenied _ number text | .resourceExhausted _ number text
  | .inappropriateType _ number text | .noSuchThing _ number text => Fault.ofNumber (positive number) text
  | .unexpectedEof => .other "unexpected end of file"
  | .userError text => .other text

def ensureDirectory (path : String) : IO Unit := do
  try IO.FS.createDir path
  catch
    | .alreadyExists .. => IO.FS.createDirAll path
    | e => throw e

/-- Makes the first of some directories, each of which lies in the next. Those further out are tried
only where something on the way is missing. -/
def ensureDirectories : (paths : List String) → IO Unit
  | [] => pure ()
  | path :: outer => do
    try ensureDirectory path
    catch
      | .noFileOrDirectory .. =>
        ensureDirectories outer
        ensureDirectory path
      | e => throw e

def answer (request : FileRequest) : IO FileReply := do
  try
    match request with
    | .read path => return .ok (← (← IO.FS.Handle.mk path .read).readBinToEnd).toList
    | .save path contents =>
      ensureDirectories (Path.directories path)
      IO.FS.writeBinFile path ⟨contents.toArray⟩
      return .ok contents
  catch e => return .error (faultOf e)

/-- Reads the bytes of a line with its line end, behind those in `found`. -/
partial def readBytes (input : IO.FS.Stream) (found : ByteArray) : IO ByteArray := do
  let next ← input.read 1
  let found := found ++ next
  if next.isEmpty || next.toList == [0x0A] then return found else readBytes input found

def readLine (input : IO.FS.Stream) : IO (Option InputLine) := do
  let bytes ← readBytes input .empty
  return if bytes.isEmpty then none else some (.ofBytes bytes.toList)

def write (output : IO.FS.Stream) (bytes : Array UInt8) : IO Unit := do
  output.write ⟨bytes⟩
  output.flush

def complain (e : Error) : IO Unit :=
  IO.eprintln s!"Error: {e.message}"

/-- Writes lines of trace to their file. The session goes on if that fails. -/
def record (log : IO.FS.Handle) (lines : List String) : IO Unit := do
  try
    lines.forM log.putStrLn
    log.flush
  catch e => IO.eprintln s!"Error: cannot write trace log: {(faultOf e).message}"

/-- The machine with other lines to read. -/
def withInput (m : Machine) (lines : List InputLine) : Machine :=
  m.withConsole fun console => { console with input := lines }

/-- Carries out the command on the first of the lines. The others are those that programs take. -/
partial def round (input : IO.FS.Stream) (reply : FileReply) (m : Machine) (lines : List InputLine) :
    IO (Machine × Bool) := do
  let (next, goesOn) := (withInput m (lines ++ [.text ""])).promptOnce fun _ => reply
  if next.console.input.isEmpty then
    match ← readLine input with
    | some line => round input reply m (lines ++ [line])
    | none => return (withInput m lines).promptOnce fun _ => reply
  else return (next, goesOn)

/-- Prompts for commands until the session ends. -/
partial def prompts (input output : IO.FS.Stream) (log : Option IO.FS.Handle) (m : Machine) :
    IO Machine := do
  write output (Text.bytes prompt).toArray
  match ← readLine input with
  | none => return m
  | some line =>
    let reply ← match (withInput m [line]).pendingRequest? with
      | some request => answer request
      | none => pure (.error .notFound)
    let (next, goesOn) ← round input reply m [line]
    let shown := m.console.output.size + (Text.bytes prompt).length
    write output (next.console.output.extract shown next.console.output.size)
    log.forM fun log => record log (next.trace.lines.extract m.trace.lines.size).toList
    if goesOn then prompts input output log next else return next

/-- Opens the file for lines of trace that the command line asks for. -/
def openLog (name : Option String) : IO (Option IO.FS.Handle) := do
  match name with
  | none => return none
  | some name =>
    let fresh := s!"{programName}_trace_{← IO.monoMsNow}.log"
    try return some (← IO.FS.Handle.mk (if name.isEmpty then fresh else name) .write)
    catch e =>
      IO.eprintln s!"Error: cannot create trace log: {(faultOf e).message}"
      return none

/-- Holds the session that the options ask for. Gives its exit status. -/
def hold (o : Options) : IO UInt32 := do
  let home := homeDirectory (← IO.getEnv "HOME") (← IO.getEnv "USERPROFILE")
  match Machine.ofOptions o home (.ofInput []) with
  | .error e =>
    complain e
    return 1
  | .ok m =>
    let log ← openLog o.traceLog
    let output ← IO.getStdout
    let m ← match o.program with
      | none => pure m
      | some path =>
        let reply ← answer (.read path)
        let (m, error) := m.loadAtStart (fun _ => reply) path
        error.forM complain
        write output m.console.output
        pure m
    let m ← prompts (← IO.getStdin) output log m
    return m.exitStatus.toUInt32

end DosMonitor.Terminal

/-- Runs the monitor. -/
def main (args : List String) : IO UInt32 := do
  match DosMonitor.CommandLine.read [] .standard args with
  | .session options => DosMonitor.Terminal.hold options
  | .version =>
    IO.println DosMonitor.versionLine
    return 0
  | .help =>
    DosMonitor.usageLines.forM fun line => IO.println line
    return 0
  | .invalid =>
    DosMonitor.usageLines.forM fun line => IO.eprintln line
    return 2
