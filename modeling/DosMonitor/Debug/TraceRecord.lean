import DosMonitor.Register.File
import DosMonitor.Memory.Logged
import DosMonitor.Assembly.Listing

/-!
# Trace records

With tracing on, each instruction leaves a record of what it was and what it changed. `line` is the
record as one line of text: source, byte code, changed registers, changed flags, and accesses to
memory, of which a few are shown and the others counted.
-/

namespace DosMonitor

/-- What was seen of one instruction. -/
structure TraceRecord where
  text : String
  code : Option (List UInt8)
  before : Snapshot
  after : Snapshot
  accesses : List Access
  deriving DecidableEq, Repr

namespace TraceRecord

/-- The number of accesses that a line shows. -/
def shownAccesses : Nat := 8

def orDash (text : String) : String :=
  if text.isEmpty then "-" else text

def registerChanges (r : TraceRecord) : List RegisterChange :=
  r.before.registerChanges r.after

def flagChanges (r : TraceRecord) : List FlagChange :=
  r.before.flagChanges r.after

/-- The accesses that are shown, and how many more there were. -/
def accessTexts (r : TraceRecord) : List String :=
  let shown := (r.accesses.take shownAccesses).map Access.text
  if shownAccesses < r.accesses.length then
    shown ++ [s!"…(+{r.accesses.length - shownAccesses})"]
  else shown

def line (r : TraceRecord) : String :=
  let text := String.ofList (Text.trim r.text.toList)
  let code := Assembly.codeText r.code
  let registers := orDash (", ".intercalate (r.registerChanges.map RegisterChange.text))
  let flags := orDash (", ".intercalate (r.flagChanges.map FlagChange.text))
  let memory := orDash (" ".intercalate r.accessTexts)
  s!"{text} | bytes(pseudo): {code} | regsΔ: {registers} | flagsΔ: {flags} | mem: {memory}"

end TraceRecord

end DosMonitor
