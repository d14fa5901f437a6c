import DosMonitor.Register.File
import DosMonitor.Memory.Paged
import DosMonitor.Execution.Interrupt

/-!
# Watches

A watch is an expression of which the debugger reports the changes: a register, a flag, the byte at
DS:DX, or a byte at a fixed address. Expressions are kept without blanks and in capitals, and no
expression is watched twice.

Main statement: the form in which an expression is kept is kept as it is (`canonical_canonical`).
-/

namespace DosMonitor

/-- What a watch looks at. -/
inductive WatchTarget
  | register (r : Register)
  | flag (f : Flag)
  /-- The byte at DS:DX, whatever these are at the time. -/
  | dosPointer
  /-- The byte at an address of a page, or of the active page. -/
  | memory (page : Option Nat) (address : Nat)
  deriving DecidableEq, Repr

/-- An expression that is watched. -/
structure Watch where
  /-- The expression, without blanks and in capitals. -/
  expr : String
  target : WatchTarget
  /-- Its value when it was last looked at. -/
  last : Option String
  deriving DecidableEq, Repr

namespace WatchTarget

/-- A text without blanks and in capitals. -/
def canonical (text : List Char) : List Char :=
  Text.upper (Text.squeeze text)

/-- The address between brackets: `page:address` or an address of the active page. -/
def memory? (inner : List Char) : Option WatchTarget :=
  match inner.dropWhile (· != ':') with
  | [] => (Text.hexNumber? inner).map (memory none)
  | _ :: address => do
    let page ← Text.hexNumber? (inner.takeWhile (· != ':'))
    return memory (some page) (← Text.hexNumber? address)

/-- What an expression in its canonical form means. -/
def ofCanonical? (text : List Char) : Option WatchTarget :=
  match Register.ofName? text with
  | some r => some (register r)
  | none =>
    match Text.dropStart? "FLAGS.".toList text with
    | some name => (Flag.ofName? name).map flag
    | none =>
      match (Text.dropStart? ['['] text).bind (Text.dropLast? ']') with
      | some inner => if inner = "DS:DX".toList then some dosPointer else memory? inner
      | none => none

def parse (expr : String) : Except Error WatchTarget :=
  match ofCanonical? (canonical expr.toList) with
  | some target => .ok target
  | none => .error (.invalidWatch expr)

def byteText (b : Option UInt8) : String :=
  match b with
  | some b => "0x" ++ Text.hex 2 b.toNat
  | none => "??"

/-- The value of what is watched, as it is shown. -/
def evaluate (target : WatchTarget) (rf : RegisterFile) (m : Memory) : String :=
  match target with
  | register r => "0x" ++ Text.hex 4 (rf.get r).toNat
  | flag f => bitText (rf.flags.get f)
  | dosPointer => byteText (m.byte? m.activePage (Execution.linearAddress rf))
  | memory page address => byteText (m.byte? (page.getD m.activePage) address)

end WatchTarget

namespace Watch

/-- The watch after a look at its value, and the report of a change since the last look. The first
look reports nothing. -/
def observe (w : Watch) (rf : RegisterFile) (m : Memory) : Watch × Option String :=
  let value := w.target.evaluate rf m
  let report :=
    match w.last with
    | some old => if old = value then none else some s!"[watch] {w.expr}: {old}->{value}"
    | none => none
  ({ w with last := some value }, report)

def text (w : Watch) : String :=
  w.expr ++ " = " ++ w.last.getD "?"

end Watch

/-- The watches of the debugger, in the order in which they were added. -/
abbrev Watches := List Watch

namespace Watches

/-- Adds an expression, unless it is watched already. -/
def add (ws : Watches) (expr : String) : Except Error Watches := do
  let target ← WatchTarget.parse expr
  let key := String.ofList (WatchTarget.canonical expr.toList)
  return if ws.any (·.expr == key) then ws else ws ++ [⟨key, target, none⟩]

def remove (ws : Watches) (expr : String) : Watches :=
  let key := String.ofList (WatchTarget.canonical expr.toList)
  ws.filter (·.expr != key)

/-- A look at every watch: the watches after it, and the reports in order. -/
def observe (ws : Watches) (rf : RegisterFile) (m : Memory) : Watches × List String :=
  let looks := ws.map (·.observe rf m)
  (looks.map (·.1), looks.filterMap (·.2))

end Watches

namespace WatchTarget

@[simp] theorem canonical_canonical (text : List Char) :
    canonical (canonical text) = canonical text := by
  have hsqueeze : Text.squeeze (Text.upper (Text.squeeze text)) = Text.upper (Text.squeeze text) := by
    rw [Text.squeeze_upper, Text.squeeze_squeeze]
  simp [canonical, hsqueeze]

end WatchTarget

end DosMonitor
