import DosMonitor.Text.Letters

/-!
# Opcodes

The seventeen opcodes, their mnemonics, the number of operands of each, and the unit of the machine
that carries it out.
-/

namespace DosMonitor

/-- The parts of the machine that carry out instructions. -/
inductive ExecutionUnit
  | transfer | arithmetic | logic | interrupt
  deriving DecidableEq, Repr

inductive Opcode
  | mov | add | sub | and | or | xor | not | neg | inc | dec
  | shl | shr | rol | ror | push | pop | int
  deriving DecidableEq, Repr

namespace Opcode

def all : List Opcode :=
  [mov, add, sub, and, or, xor, not, neg, inc, dec, shl, shr, rol, ror, push, pop, int]

def name : Opcode → String
  | mov => "MOV" | add => "ADD" | sub => "SUB" | and => "AND" | or => "OR" | xor => "XOR"
  | not => "NOT" | neg => "NEG" | inc => "INC" | dec => "DEC"
  | shl => "SHL" | shr => "SHR" | rol => "ROL" | ror => "ROR"
  | push => "PUSH" | pop => "POP" | int => "INT"

/-- The opcode of the given mnemonic, in either case. -/
def ofName? (text : List Char) : Option Opcode :=
  all.find? fun op => Text.sameName op.name.toList text

def operandCount : Opcode → Nat
  | mov | add | sub | and | or | xor => 2
  | _ => 1

def unit : Opcode → ExecutionUnit
  | mov | push | pop => .transfer
  | add | sub | inc | dec | neg => .arithmetic
  | and | or | xor | not | shl | shr | rol | ror => .logic
  | int => .interrupt

@[simp] theorem ofName?_name (op : Opcode) : ofName? op.name.toList = some op := by
  cases op <;> decide

end Opcode

end DosMonitor
