import DosMonitor.Register.File
import DosMonitor.Memory.Bus
import DosMonitor.Console
import DosMonitor.Instruction

/-!
# The context of an instruction

An instruction works on registers, a memory bus and the console, and on nothing else. An action of
`Exec β` gives a value or an error and, in both cases, the context after it, so a failure says what it
leaves behind.
-/

namespace DosMonitor

/-- What an instruction may touch. -/
@[ext] structure Context (β : Type) where
  registers : RegisterFile
  bus : β
  console : Console

/-- Whether execution goes on. -/
inductive Outcome
  | proceed
  | exit (code : UInt8)
  deriving DecidableEq, Repr

/-- A step of an instruction. -/
abbrev Exec (β : Type) := EStateM Error (Context β)

namespace Exec

variable {β α : Type}

@[inline] def registers : Exec β RegisterFile :=
  return (← get).registers

@[inline] def setRegisters (f : RegisterFile → RegisterFile) : Exec β Unit
  | ⟨registers, bus, console⟩ => .ok () ⟨f registers, bus, console⟩

@[inline] def onBus (action : BusM β α) : Exec β α
  | ⟨registers, bus, console⟩ =>
    match action bus with
    | .ok a bus => .ok a ⟨registers, bus, console⟩
    | .error e bus => .error (.memory e) ⟨registers, bus, console⟩

@[inline] def print (bytes : List UInt8) : Exec β Unit
  | ⟨registers, bus, console⟩ => .ok () ⟨registers, bus, console.write bytes⟩

/-- Takes the next line from the console, an empty one where there is none. -/
@[inline] def readLine : Exec β String
  | ⟨registers, bus, console⟩ =>
    let (line, console) := console.readLine
    .ok (line.getD "") ⟨registers, bus, console⟩

end Exec

namespace Instruction

/-- The register that the instruction writes. -/
def destination (i : Instruction) : Except Error Register :=
  match i.operands.head? with
  | some (.register r) => .ok r
  | some (.immediate value) => .error (.exec (.invalidRegister (immediateText value)))
  | none => .error (.exec (.invalidRegister ""))

/-- The value of the operand at a position, registers being looked up. -/
def source (i : Instruction) (rf : RegisterFile) (position : Nat) : Except Error UInt16 :=
  match i.operands[position]? with
  | some (.register r) => .ok (rf.get r)
  | some (.immediate value) => .ok value
  | none => .error (.parse (.unexpectedEnd i.text))

end Instruction

end DosMonitor
