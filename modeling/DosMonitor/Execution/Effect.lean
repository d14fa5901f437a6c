import DosMonitor.Register.File

/-!
# What the operations compute

Each arithmetic and logic operation gives an `Effect`: the new value of its destination and what it
does to the flags. Sums are kept whole here; the register file stores their low 16 bits.
-/

namespace DosMonitor

/-- The outcome of an operation on its destination and on the flags. -/
structure Effect where
  /-- The new value of the destination, of which the low 16 bits count. -/
  value : Nat
  /-- The family of the operation and its carry, if it moves the flags. -/
  flags : Option (FlagFamily × Option Bool)
  deriving DecidableEq, Repr

namespace Effect

/-- A new value, the flags left alone. -/
def plain (value : UInt16) : Effect :=
  ⟨value.toNat, none⟩

/-- A new value which the flags follow. -/
def flagged (value : UInt16) (family : FlagFamily) (carry : Option Bool) : Effect :=
  ⟨value.toNat, some (family, carry)⟩

/-- The sum, with carry when it does not fit into 16 bits. -/
def add (a b : UInt16) : Effect :=
  ⟨a.toNat + b.toNat, some (.add, some (0xFFFF < a.toNat + b.toNat))⟩

/-- The difference, with carry when it borrows. -/
def sub (a b : UInt16) : Effect :=
  flagged (a - b) .sub (some (a < b))

/-- One more, the carry kept. -/
def inc (a : UInt16) : Effect :=
  flagged (a + 1) .inc none

/-- One less, the carry kept. -/
def dec (a : UInt16) : Effect :=
  flagged (a - 1) .dec none

/-- The difference from zero, which borrows unless the value is zero. -/
def neg (a : UInt16) : Effect :=
  flagged (0 - a) .sub (some (a != 0))

/-- A combination of bits, which clears the carry. -/
def bitwise (value : UInt16) : Effect :=
  flagged value .logic (some false)

/-- All bits inverted, the flags left alone. -/
def not (a : UInt16) : Effect :=
  plain (~~~a)

/-- The highest bit, which leaves the register to the left. -/
def topBit (a : UInt16) : Bool :=
  a.toNat.testBit 15

/-- The lowest bit, which leaves the register to the right. -/
def bottomBit (a : UInt16) : Bool :=
  a.toNat.testBit 0

/-- One place to the left, the bit that leaves becoming the carry. -/
def shl (a : UInt16) : Effect :=
  flagged (a <<< 1) .shift (some (topBit a))

/-- One place to the right, the bit that leaves becoming the carry. -/
def shr (a : UInt16) : Effect :=
  flagged (a >>> 1) .shift (some (bottomBit a))

/-- One place to the left, the bit that leaves coming back at the right and becoming the carry. -/
def rol (a : UInt16) : Effect :=
  flagged (a <<< 1 ||| a >>> 15) .rotate (some (topBit a))

/-- One place to the right, the bit that leaves coming back at the left and becoming the carry. -/
def ror (a : UInt16) : Effect :=
  flagged (a >>> 1 ||| a <<< 15) .rotate (some (bottomBit a))

end Effect

/-- Gives a register the outcome of an operation. -/
def RegisterFile.apply (rf : RegisterFile) (destination : Register) (effect : Effect) :
    RegisterFile :=
  let rf := rf.set destination effect.value
  match effect.flags with
  | some (family, carry) => rf.updateFlags effect.value (some family) carry
  | none => rf

end DosMonitor
