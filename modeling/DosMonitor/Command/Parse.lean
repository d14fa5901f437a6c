import DosMonitor.Text.Blank
import DosMonitor.Text.Numeral
import DosMonitor.Text.Utf8

/-!
# Commands

A command line is a command word, in either case, and its arguments. `Command.parse?` reads it, or
refuses it as a whole when the word is unknown, the number of arguments is wrong, or a number does not
read. Numbers are hexadecimal, with or without `0x`; only the limit of `cont` is decimal.
-/

namespace DosMonitor

/-- A command of the monitor with its arguments. -/
inductive Command
  | quit
  | help
  | showRegisters
  | setRegister (name : String) (value : Nat)
  | execute (line : String)
  | dump (start stop : Nat)
  | fill (start stop : Nat) (pattern : List UInt8)
  | move (start stop destination : Nat)
  | search (start : Nat) (pattern : List UInt8)
  | compare (start stop destination : Nat)
  | enter (address : Nat) (text : String)
  | selectPage (page : Nat)
  /-- Loads a program at an address, or at the configured one. -/
  | load (path : String) (base : Option UInt16)
  | trace (on : Bool)
  | addBreakpoint (location : String)
  | removeBreakpoint (location : String)
  | listBreakpoints
  | addWatch (expr : String)
  | removeWatch (expr : String)
  | listWatches
  | step
  /-- Runs the program for so many lines at most, or the configured number. -/
  | run (limit : Option Nat)
  | listProgram
  | loadDisk
  | saveDisk
  | dumpDisk (start stop : Nat)
  | writeToDisk (address first count : Nat)
  | readFromDisk (address first count : Nat)
  deriving DecidableEq, Repr

namespace Command

/-- The text between quotes, if it stands between quotes. -/
def quoted? (text : List Char) : Option (List Char) :=
  (Text.dropStart? ['"'] text).bind (Text.dropLast? '"')

/-- A pattern of bytes: those of a text between quotes, or hexadecimal numbers with blanks between
them. -/
def pattern? (text : List Char) : Option (List UInt8) :=
  let text := Text.trim text
  match quoted? text with
  | some inner => some (Text.bytes (.ofList inner))
  | none => (Text.words text).mapM fun word => (Text.hexBelow? 0x100 word).map UInt8.ofNat

/-- Two hexadecimal arguments. -/
def two? (words : List (List Char)) (command : Nat → Nat → Command) : Option Command :=
  match words.mapM Text.hexNumber? with
  | some [a, b] => some (command a b)
  | _ => none

/-- Three hexadecimal arguments. -/
def three? (words : List (List Char)) (command : Nat → Nat → Nat → Command) : Option Command :=
  match words.mapM Text.hexNumber? with
  | some [a, b, c] => some (command a b c)
  | _ => none

/-- No argument. -/
def alone? (words : List (List Char)) (command : Command) : Option Command :=
  if words.isEmpty then some command else none

/-- At least one argument, of which the text as a whole is taken. -/
def whole? (args : List Char) (command : String → Command) : Option Command :=
  if args.isEmpty then none else some (command (.ofList args))

/-- `r`, alone or with a register and a value. -/
def parseRegisters? : (words : List (List Char)) → Option Command
  | [] => some showRegisters
  | [name, value] => (Text.hexBelow? 0x10000 value).map (setRegister (.ofList name))
  | _ => none

/-- `f` with a range and a pattern. -/
def parseFill? (args : List Char) : (words : List (List Char)) → Option Command
  | start :: stop :: _ :: _ => do
    return fill (← Text.hexNumber? start) (← Text.hexNumber? stop) (← pattern? (Text.dropWords 2 args))
  | _ => none

/-- `s` with a start and a pattern. -/
def parseSearch? (args : List Char) : (words : List (List Char)) → Option Command
  | start :: _ :: _ => do
    return search (← Text.hexNumber? start) (← pattern? (Text.dropWords 1 args))
  | _ => none

/-- `e` with an address and a text, which may stand between quotes. -/
def parseEnter? (args : List Char) : (words : List (List Char)) → Option Command
  | address :: _ :: _ => do
    let text := Text.dropWords 1 args
    return enter (← Text.hexNumber? address) (.ofList ((quoted? text).getD text))
  | _ => none

/-- `load` with a path, alone or with an address. -/
def parseLoad? : (words : List (List Char)) → Option Command
  | [path] => some (load (.ofList path) none)
  | [path, base] =>
    (Text.hexBelow? 0x10000 base).map fun base => load (.ofList path) (some (UInt16.ofNat base))
  | _ => none

/-- `cont`, alone or with a decimal limit. -/
def parseRun? : (words : List (List Char)) → Option Command
  | [] => some (run none)
  | [limit] => (Text.readUnsigned 10 Text.wordLimit limit).map fun limit => run (some limit)
  | _ => none

/-- `sp` with a page. -/
def parsePage? : (words : List (List Char)) → Option Command
  | [page] => (Text.hexNumber? page).map selectPage
  | _ => none

/-- `trace` with `on` or `off`. -/
def parseTrace? (words : List (List Char)) : Option Command :=
  if words = ["on".toList] then some (trace true)
  else if words = ["off".toList] then some (trace false)
  else none

/-- `disk` with `load`, `save`, or `dump` and a range. -/
def parseDisk? : (words : List (List Char)) → Option Command
  | [] => none
  | action :: rest =>
    if action = "load".toList then alone? rest loadDisk
    else if action = "save".toList then alone? rest saveDisk
    else if action = "dump".toList then two? rest dumpDisk
    else none

/-- The command of a command word, in small letters, and its arguments, without blanks around
them. -/
def parse? (word : String) (args : List Char) : Option Command :=
  let words := Text.words args
  match word with
  | "q" => some quit
  | "h" => some help
  | "?" => some help
  | "r" => parseRegisters? words
  | "p" => whole? args execute
  | "d" => two? words dump
  | "f" => parseFill? args words
  | "m" => three? words move
  | "s" => parseSearch? args words
  | "c" => three? words compare
  | "e" => parseEnter? args words
  | "sp" => parsePage? words
  | "load" => parseLoad? words
  | "trace" => parseTrace? words
  | "bp" => whole? args addBreakpoint
  | "delbp" => whole? args removeBreakpoint
  | "bpl" => alone? words listBreakpoints
  | "watch" => whole? args addWatch
  | "unwatch" => whole? args removeWatch
  | "watches" => alone? words listWatches
  | "step" => alone? words step
  | "cont" => parseRun? words
  | "disas" => alone? words listProgram
  | "disk" => parseDisk? words
  | "w" => three? words writeToDisk
  | "l" => three? words readFromDisk
  | _ => none

end Command

end DosMonitor
