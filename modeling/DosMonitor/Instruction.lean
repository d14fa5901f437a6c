import DosMonitor.Text.Numeral
import DosMonitor.Register
import DosMonitor.Opcode

/-!
# Instructions

An instruction is an opcode with any list of operands, registers and 16-bit numbers. Whether their
number is the opcode's (`WellFormed`) is checked by whoever reads instructions from text; the machine
itself meets every list with an error of its own where operands are missing. `text` is the written
form: mnemonic, then the operands with commas between them, numbers as `0x` and four digits.
-/

namespace DosMonitor

/-- What an instruction works on. -/
inductive Operand
  | register (r : Register)
  | immediate (value : UInt16)
  deriving DecidableEq, Repr

/-- An operation and what it works on. -/
structure Instruction where
  opcode : Opcode
  /-- What it works on, the destination first. -/
  operands : List Operand
  deriving DecidableEq, Repr

/-- The number as it is written in instructions: `0x` and four hexadecimal digits. -/
def immediateText (value : UInt16) : String :=
  "0x" ++ Text.hex 4 value.toNat

def Operand.text : Operand → String
  | register r => r.name
  | immediate value => immediateText value

def Instruction.text (i : Instruction) : String :=
  match i.operands with
  | [] => i.opcode.name
  | operands => i.opcode.name ++ " " ++ ", ".intercalate (operands.map Operand.text)

/-- The instruction has as many operands as its opcode asks for. -/
def Instruction.WellFormed (i : Instruction) : Prop :=
  i.operands.length = i.opcode.operandCount

instance (i : Instruction) : Decidable i.WellFormed :=
  inferInstanceAs (Decidable (_ = _))

end DosMonitor
