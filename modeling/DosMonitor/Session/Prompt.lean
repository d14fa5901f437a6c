import DosMonitor.Session.Options
import DosMonitor.Command.Dispatch

/-!
# The prompt

A session starts with the machine that the command line asks for, and the program that it names. Then
it writes a prompt, takes a line, carries it out as a command and shows what it gives, until a
command ends it or no line is left. Lines are taken from the console's queue, from which a program may
take lines, too.
-/

namespace DosMonitor

/-- What the monitor writes in front of each command. -/
def prompt : String := "-"

/-- The two bytes that may stand at the end of a line of input. -/
def isLineEnd (b : UInt8) : Bool :=
  b == 0x0A || b == 0x0D

/-- The line that bytes hold, without the line-end bytes at its end. -/
def InputLine.ofBytes (bytes : List UInt8) : InputLine :=
  match Text.ofBytes? (bytes.reverse.dropWhile isLineEnd).reverse with
  | some line => .text line
  | none => .malformed

/-- The lines of input. The last need not end like the others, and is none if it has no bytes. -/
def InputLine.ofInput (input : List UInt8) : List InputLine :=
  let parts := Text.splitAt 0x0A input
  let lines := if parts.getLast? == some [] then parts.dropLast else parts
  lines.map InputLine.ofBytes

namespace Machine

def withConsole (m : Machine) (f : Console → Console) : Machine :=
  { m with core := { m.core with console := f m.core.console } }

/-- The machine that options ask for, before anything is loaded. Lines of trace are shown on the
console. -/
def ofOptions (o : Options) (home : String) (console : Console) : Except Error Machine := do
  let m ← create o.config home console
  return { m with trace := { m.trace with echo := true } }

/-- Loads the program that the command line names. The console shows the result only if that works;
otherwise the machine goes on without a program, and the error is given. -/
def loadAtStart (host : Host) (path : String) (m : Machine) : Machine × Option Error :=
  match loadFile host path m.config.base m with
  | .ok count m => (m.withConsole (·.writeLine s!"Loaded {count} line(s) from {path}"), none)
  | .error e m => (m, some e)

/-- The next line of input that has text, if the next line has text. -/
def pendingCommand? (m : Machine) : Option String :=
  m.console.input.head?.bind InputLine.text?

/-- One prompt with its command: the machine after it, and whether the session goes on. It ends where
there is no line, and where the line is not text. -/
def promptOnce (host : Host) (m : Machine) : Machine × Bool :=
  let m := m.withConsole (·.writeText prompt)
  match m.console.readLine with
  | (none, console) => (m.withConsole fun _ => console, false)
  | (some line, console) =>
    let (output, m) := (m.withConsole fun _ => console).dispatch host line
    (m.withConsole fun console => output.lines.foldl Console.writeLine console, !output.quit)

/-- What the next command asks of the host, if anything. -/
def pendingRequest? (m : Machine) : Option FileRequest :=
  m.pendingCommand?.bind m.request?

/-- The exit status of a session that leaves the machine like this. -/
def exitStatus (m : Machine) : UInt8 :=
  match m.status with
  | .running => 0
  | .terminated code => code

end Machine

end DosMonitor
