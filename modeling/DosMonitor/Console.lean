import DosMonitor.Text.Utf8

/-!
# The console

The console takes bytes and gives lines. What was written is kept in order, and the lines still to be
read wait in a queue. A line that is not UTF-8 has its place in the queue, but no text.
-/

namespace DosMonitor

/-- A line of input without its line end. -/
inductive InputLine
  | text (line : String)
  /-- The bytes of the line are not UTF-8. -/
  | malformed
  deriving DecidableEq, Repr

def InputLine.text? : InputLine → Option String
  | text line => some line
  | malformed => none

/-- The device that the machine writes to and reads from. -/
@[ext] structure Console where
  output : Array UInt8
  input : List InputLine
  deriving DecidableEq, Repr

namespace Console

/-- A console with nothing written and the given lines to read. -/
def ofInput (lines : List InputLine) : Console :=
  ⟨#[], lines⟩

def write (c : Console) (bytes : List UInt8) : Console :=
  { c with output := c.output.appendList bytes }

def writeText (c : Console) (text : String) : Console :=
  c.write (Text.bytes text)

/-- Writes a text and a line end. -/
def writeLine (c : Console) (text : String) : Console :=
  c.writeText (text ++ "\n")

/-- Takes the next line from the queue. There is no text where the queue is empty, nor where the
line is not UTF-8. -/
def readLine (c : Console) : Option String × Console :=
  match c.input with
  | [] => (none, c)
  | line :: rest => (line.text?, { c with input := rest })

/-- All output as text, malformed parts replaced. -/
def outputText (c : Console) : String :=
  Text.ofBytesLossy c.output.toList

@[simp] theorem toList_output_write (c : Console) (bytes : List UInt8) :
    (c.write bytes).output.toList = c.output.toList ++ bytes := by
  simp [write]

end Console

end DosMonitor
