import DosMonitor.Instruction
import DosMonitor.Error

/-!
# The byte code

Listings show a byte code beside each instruction. It is the monitor's own, not that of a processor:

| form                  | bytes                                                              |
|-----------------------|--------------------------------------------------------------------|
| `MOV reg, number`     | `B8` + field, low byte, high byte                                  |
| `MOV reg, reg`        | `8B`, pair                                                         |
| arithmetic, number    | `70` `71` `72` `73` `74` (ADD SUB AND OR XOR), field, low byte, high byte |
| arithmetic, register  | `10` `11` `12` `13` `14` (ADD SUB AND OR XOR), pair                |
| INC, DEC, PUSH, POP   | `40` `48` `50` `58` + field                                        |
| `INT number`          | `CD`, number                                                       |

A pair is `C0` + 8 · destination field + source field. Only general registers have fields, so an
instruction with a segment register has no byte code, and neither has one of any other form.
-/

namespace DosMonitor.Assembly

/-- The two first bytes of an operation on two operands: before a number, before a register. -/
def pairLeads? : Opcode → Option (UInt8 × UInt8)
  | .add => some (0x70, 0x10)
  | .sub => some (0x71, 0x11)
  | .and => some (0x72, 0x12)
  | .or => some (0x73, 0x13)
  | .xor => some (0x74, 0x14)
  | _ => none

/-- The byte to which the field of the register is added, for operations on one register. -/
def singleLead? : Opcode → Option UInt8
  | .inc => some 0x40
  | .dec => some 0x48
  | .push => some 0x50
  | .pop => some 0x58
  | _ => none

def field? (r : Register) : Option UInt8 :=
  r.field?.map fun f => UInt8.ofNat f

/-- Two general registers in one byte. -/
def pair? (destination source : Register) : Option UInt8 := do
  let d ← field? destination
  let s ← field? source
  return 0xC0 + 8 * d + s

/-- A word as two bytes, the low one first. -/
def wordBytes (value : UInt16) : List UInt8 :=
  [UInt8.ofNat value.toNat, UInt8.ofNat (value.toNat / 0x100)]

/-- The byte code of an instruction, if it has one. -/
def encode? (i : Instruction) : Option (List UInt8) :=
  match i.opcode, i.operands with
  | .mov, [.register r, .immediate value] => do
    return (0xB8 + (← field? r)) :: wordBytes value
  | .mov, [.register destination, .register source] => do
    return [0x8B, ← pair? destination source]
  | .int, [.immediate vector] =>
    if vector.toNat < 0x100 then some [0xCD, UInt8.ofNat vector.toNat] else none
  | op, [.register r, .immediate value] => do
    return (← pairLeads? op).1 :: (← field? r) :: wordBytes value
  | op, [.register destination, .register source] => do
    return [(← pairLeads? op).2, ← pair? destination source]
  | op, [.register r] => do
    return [(← singleLead? op) + (← field? r)]
  | _, _ => none

def encode (i : Instruction) : Except Error (List UInt8) :=
  match encode? i with
  | some bytes => .ok bytes
  | none => .error (.exec (.encoding i.text))

end DosMonitor.Assembly
