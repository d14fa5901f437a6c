import DosMonitor.Execution.Context
import DosMonitor.Execution.Effect

/-!
# The transfer, arithmetic and logic units

Each unit carries out the opcodes that are its own and leaves an instruction of any other opcode
alone. The destination is looked at before the source, so of two missing operands the first is
reported. PUSH and POP work on the active page; the stack pointer wraps in it, and moves only when
the access to memory has succeeded.
-/

namespace DosMonitor.Execution

open Exec

variable {β : Type}

/-- Gives the destination the outcome of an operation on its value. -/
def unary (i : Instruction) (operation : UInt16 → Effect) : Exec β Outcome := do
  let r ← ofExcept i.destination
  setRegisters fun rf => rf.apply r (operation (rf.get r))
  return .proceed

/-- Gives the destination the outcome of an operation on its value and that of the source. -/
def binary (i : Instruction) (operation : UInt16 → UInt16 → Effect) : Exec β Outcome := do
  let r ← ofExcept i.destination
  let b ← ofExcept (i.source (← registers) 1)
  setRegisters fun rf => rf.apply r (operation (rf.get r) b)
  return .proceed

def arithmetic (i : Instruction) : Exec β Outcome :=
  match i.opcode with
  | .add => binary i Effect.add
  | .sub => binary i Effect.sub
  | .inc => unary i Effect.inc
  | .dec => unary i Effect.dec
  | .neg => unary i Effect.neg
  | _ => return .proceed

def logic (i : Instruction) : Exec β Outcome :=
  match i.opcode with
  | .and => binary i fun a b => Effect.bitwise (a &&& b)
  | .or => binary i fun a b => Effect.bitwise (a ||| b)
  | .xor => binary i fun a b => Effect.bitwise (a ^^^ b)
  | .not => unary i Effect.not
  | .shl => unary i Effect.shl
  | .shr => unary i Effect.shr
  | .rol => unary i Effect.rol
  | .ror => unary i Effect.ror
  | _ => return .proceed

variable [Bus β]

/-- Puts a register on the stack. -/
@[specialize] def push (i : Instruction) : Exec β Outcome := do
  let r ← ofExcept i.destination
  let rf ← registers
  let sp := rf.get .sp - 2
  onBus do
    let page := Bus.activePage (← get)
    Bus.write16 page sp.toNat (rf.get r)
  setRegisters fun rf => rf.set .sp sp.toNat
  return .proceed

/-- Takes a word from the stack into a register. -/
@[specialize] def pop (i : Instruction) : Exec β Outcome := do
  let r ← ofExcept i.destination
  let sp := (← registers).get .sp
  let value ← onBus do
    let page := Bus.activePage (← get)
    Bus.read16 page sp.toNat
  setRegisters fun rf => (rf.set .sp (sp + 2).toNat).set r value.toNat
  return .proceed

@[specialize] def transfer (i : Instruction) : Exec β Outcome :=
  match i.opcode with
  | .mov => binary i fun _ b => Effect.plain b
  | .push => push i
  | .pop => pop i
  | _ => return .proceed

end DosMonitor.Execution
