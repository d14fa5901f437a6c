import DosMonitor.Machine.State
import DosMonitor.Text.Split

/-!
# The command line of the monitor

Options are read from left to right; the first that is wrong makes the whole command line wrong. An
option takes its value behind `=` or from the next argument, which then must not look like an option
itself. No option may be given twice, and there are no other arguments.
-/

namespace DosMonitor

/-- An option of the command line. -/
inductive SessionOption
  | pages | activePage | diskSize | diskName | diskDirectory
  | program | base | trace | traceLog | maxSteps
  deriving DecidableEq, Repr

/-- Whether an option takes a value. -/
inductive ValueRule
  | never | always | optional
  deriving DecidableEq, Repr

namespace SessionOption

def all : List SessionOption :=
  [pages, activePage, diskSize, diskName, diskDirectory, program, base, trace, traceLog, maxSteps]

/-- The name of the option, which stands behind two hyphens. -/
def name : SessionOption → String
  | pages => "pages" | activePage => "active-page" | diskSize => "disk-size"
  | diskName => "disk-name" | diskDirectory => "disk-dir" | program => "program"
  | base => "base" | trace => "trace" | traceLog => "trace-log" | maxSteps => "max-steps"

def ofName? (text : String) : Option SessionOption :=
  all.find? fun o => o.name == text

def valueRule : SessionOption → ValueRule
  | trace => .never
  | traceLog => .optional
  | _ => .always

end SessionOption

/-- What the command line asks for. -/
structure Options where
  config : Config
  program : Option String
  /-- A file for the lines of trace. An empty name stands for one that is made up. -/
  traceLog : Option String

/-- A command line that has been read. -/
inductive CommandLine
  | session (options : Options)
  | version
  | help
  | invalid

namespace Options

def standard : Options :=
  ⟨Config.standard, none, none⟩

/-- A decimal number below 2^64. -/
def decimal? (text : String) : Option Nat :=
  Text.readUnsigned 10 Text.wordLimit text.toList

def filled? (text : String) : Option String :=
  if text.isEmpty then none else some text

/-- The options with one of them given. -/
def set? (o : Options) (option : SessionOption) (value : String) : Option Options :=
  match option with
  | .pages =>
    ((decimal? value).filter (0 < ·)).map fun n => { o with config.pages := n }
  | .activePage => (decimal? value).map fun n => { o with config.activePage := n }
  | .diskSize => (decimal? value).map fun n => { o with config.diskSize := n }
  | .diskName => some { o with config.diskName := value }
  | .diskDirectory => (filled? value).map fun d => { o with config.diskDirectory := some d }
  | .program => (filled? value).map fun p => { o with program := some p }
  | .base =>
    (Text.hexBelow? 0x10000 value.toList).map fun n => { o with config.base := UInt16.ofNat n }
  | .trace => some { o with config.trace := true }
  | .traceLog => some { o with traceLog := some value }
  | .maxSteps => (decimal? value).map fun n => { o with config.maxSteps := n }

end Options

namespace CommandLine

/-- An argument as its parts: a name behind two hyphens and what follows the first `=`, or the letters
behind one hyphen, or any other text. -/
inductive Argument
  | long (name : String) (value : Option String)
  | short (letters : List Char)
  | plain (text : String)

/-- The parts of an argument. A single hyphen is text like any other. -/
def argument (text : String) : Argument :=
  match text.toList with
  | '-' :: '-' :: rest =>
    let name := String.ofList (rest.takeWhile (· != '='))
    match rest.dropWhile (· != '=') with
    | [] => .long name none
    | _ :: value => .long name (some (.ofList value))
  | '-' :: c :: rest => .short (c :: rest)
  | _ => .plain text

/-- Reads the arguments that remain, after some options have been given. -/
def read (given : List SessionOption) (o : Options) : (args : List String) → CommandLine
  | [] => .session o
  | arg :: args =>
    match argument arg with
    | .plain _ => .invalid
    | .short ('V' :: _) => .version
    | .short ('h' :: _) => .help
    | .short _ => .invalid
    | .long "" none => if args.isEmpty then .session o else .invalid
    | .long "version" none => .version
    | .long "help" none => .help
    | .long name attached =>
      match SessionOption.ofName? name with
      | none => .invalid
      | some option =>
        if given.contains option then .invalid
        else
          match option.valueRule, attached, args with
          | .never, some _, _ => .invalid
          | .never, none, args => readNext option "" args
          | _, some value, args => readNext option value args
          | .always, none, [] => .invalid
          | .optional, none, [] => readNext option "" []
          | rule, none, value :: args =>
            match argument value with
            | .plain value => readNext option value args
            | _ => if rule = .optional then readNext option "" (value :: args) else .invalid
where
  readNext (option : SessionOption) (value : String) (args : List String) : CommandLine :=
    match o.set? option value with
    | none => .invalid
    | some o => read (option :: given) o args

end CommandLine

end DosMonitor
