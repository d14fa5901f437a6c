import DosMonitor.Session.Prompt
import DosMonitor.Host.FileTree

/-!
# Sessions

A whole session as a function: from the command line, the home directory, the input and the files to
the exit status, the output and the files. Lines of trace go to the output and, if a file for them has
been asked for, to that file, behind what the session has written to it before.
-/

namespace DosMonitor

def programName : String := "rust-debug"

def versionLine : String :=
  programName ++ " 0.1.0"

def usageLines : List String :=
  "Options:" :: SessionOption.all.map fun o =>
    let value := match o.valueRule with
      | .never => ""
      | .always => " <value>"
      | .optional => " [<value>]"
    s!"  --{o.name}{value}"

/-- The directory of a user's own files: what the environment says of it, else the working
directory. -/
def homeDirectory (home userProfile : Option String) : String :=
  (home <|> userProfile).getD "."

/-- The file that receives lines of trace. -/
structure TraceFile where
  place : Place
  /-- Where in the file the next line goes. -/
  offset : Nat
  /-- The number of lines it has received. -/
  written : Nat
  deriving DecidableEq, Repr

namespace FileTree

/-- Bytes with others written over them from an offset on, a gap before the offset being zeros. -/
def overwrite (contents : List UInt8) (offset : Nat) (bytes : List UInt8) : List UInt8 :=
  contents.take offset ++ List.replicate (offset - contents.length) 0 ++ bytes
    ++ contents.drop (offset + bytes.length)

/-- Writes to the file at a place from an offset on. -/
def writeAt (t : FileTree) (place : Place) (offset : Nat) (bytes : List UInt8) : FileTree :=
  match t.node? place with
  | some (.file contents) => t.put place (.file (overwrite contents offset bytes))
  | _ => t

/-- Makes a file empty and gives its place. -/
def openFresh (t : FileTree) (path : String) : Except Fault (Place × FileTree) := do
  let t ← t.write path []
  let (start, names) ← route path
  let place ← t.follow start names
  return (place, t)

end FileTree

/-- A session between two prompts. -/
structure Session where
  machine : Machine
  files : FileTree
  log : Option TraceFile

/-- What a session leaves. -/
structure SessionResult where
  exitStatus : UInt8
  output : List UInt8
  files : FileTree

namespace Session

/-- Writes the lines of trace that the log has not received to it. -/
def writeLog (s : Session) : Session :=
  match s.log with
  | none => s
  | some log =>
    let lines := (s.machine.trace.lines.extract log.written s.machine.trace.lines.size).toList
    let bytes := lines.flatMap fun line => Text.bytes (line ++ "\n")
    { s with
      files := s.files.writeAt log.place log.offset bytes
      log := some ⟨log.place, log.offset + bytes.length, s.machine.trace.lines.size⟩ }

/-- One prompt with its command: the session after it, and whether it goes on. -/
def step (s : Session) : Session × Bool :=
  let (reply, files) :=
    match s.machine.pendingRequest? with
    | some request => s.files.answer request
    | none => (.error .notFound, s.files)
  let (machine, goesOn) := s.machine.promptOnce fun _ => reply
  (writeLog { s with machine, files }, goesOn)

/-- At most so many prompts. Each takes a line, so one more than there are lines is enough. -/
def prompts : (limit : Nat) → Session → Session
  | 0, s => s
  | limit + 1, s =>
    match s.step with
    | (s, true) => prompts limit s
    | (s, false) => s

/-- Loads the program that the command line names, if any. -/
def loadProgram (path : Option String) (s : Session) : Session :=
  match path with
  | none => s
  | some path => { s with machine := (s.machine.loadAtStart (fun _ => s.files.read path) path).1 }

/-- Opens the file for lines of trace that the command line asks for, under the name `fresh` if it
names none. Where that fails there is no such file. -/
def openLog (name : Option String) (fresh : String) (s : Session) : Session :=
  match name with
  | none => s
  | some name =>
    match s.files.openFresh (if name.isEmpty then fresh else name) with
    | .ok (place, files) => { s with files, log := some ⟨place, 0, 0⟩ }
    | .error _ => s

/-- A session at its beginning, as options ask for it. -/
def start (o : Options) (home fresh : String) (input : List InputLine) (files : FileTree) :
    Except Error Session := do
  let machine ← Machine.ofOptions o home (Console.ofInput input)
  return loadProgram o.program (openLog o.traceLog fresh ⟨machine, files, none⟩)

/-- What a text leaves that is all the output. -/
def said (lines : List String) (exitStatus : UInt8) (files : FileTree) : SessionResult :=
  ⟨exitStatus, lines.flatMap fun line => Text.bytes (line ++ "\n"), files⟩

/-- A whole session. A command line that is wrong ends with status 2, one that asks for a machine that
cannot be made with status 1. -/
def hold (args : List String) (home fresh : String) (input : List UInt8) (files : FileTree) :
    SessionResult :=
  match CommandLine.read [] Options.standard args with
  | .invalid => said [] 2 files
  | .version => said [versionLine] 0 files
  | .help => said usageLines 0 files
  | .session options =>
    let lines := InputLine.ofInput input
    match start options home fresh lines files with
    | .error _ => said [] 1 files
    | .ok s =>
      let s := s.prompts (lines.length + 1)
      ⟨s.machine.exitStatus, s.machine.console.output.toList, s.files⟩

end Session

end DosMonitor
