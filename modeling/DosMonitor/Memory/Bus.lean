import DosMonitor.Text.Utf8
import DosMonitor.Error

/-!
# The memory bus

The machine reaches memory one byte at a time, through the four operations of the class `Bus`. All
that is larger, words and runs of bytes, is built here from these four, so every implementation of
the class has it and sees each byte that moves.

An action on a bus gives a value or an error and, in both cases, the bus after it.
-/

namespace DosMonitor

/-- Bytes in one page of memory. -/
def pageSize : Nat := 0x10000

/-- An action on a bus, which may fail part of the way. -/
abbrev BusM (β : Type) := EStateM MemoryError β

/-- Paged memory that is read and written byte by byte. -/
class Bus (β : Type) where
  pageCount : β → Nat
  activePage : β → Nat
  peek (page address : Nat) : BusM β UInt8
  /-- Writes a value, which has to fit into a byte, at an address of a page. -/
  poke (page address value : Nat) : BusM β Unit

namespace Bus

variable {β : Type} [Bus β]

@[specialize] def peekActive (address : Nat) : BusM β UInt8 := do
  let page := activePage (← get)
  peek page address

@[specialize] def pokeActive (address value : Nat) : BusM β Unit := do
  let page := activePage (← get)
  poke page address value

/-- Fails unless the page exists and the address lies in it. -/
@[specialize] def checkAccess (page address : Nat) : BusM β Unit := do
  let pages := pageCount (← get)
  if pages ≤ page then throw (.invalidPage page pages)
  if pageSize ≤ address then throw (.invalidAddress address)

/-- Writes bytes one after the other from an address on. -/
@[specialize] def pokeEach (page : Nat) : (address : Nat) → List UInt8 → BusM β Unit
  | _, [] => pure ()
  | address, b :: bytes => do
    poke page address b.toNat
    pokeEach page (address + 1) bytes

/-- Writes a run of bytes, which must not leave the page. That is checked before the first byte is
written. -/
@[specialize] def pokeBytes (page address : Nat) (bytes : List UInt8) : BusM β Unit := do
  checkAccess page address
  if pageSize < address + bytes.length then throw (.overflow address bytes.length)
  pokeEach page address bytes

@[specialize] def pokeText (page address : Nat) (text : String) : BusM β Unit :=
  pokeBytes page address (Text.bytes text)

/-- Reads a word, low byte first. After the last byte of the page comes the first, as it does for `write16`. -/
@[specialize] def read16 (page address : Nat) : BusM β UInt16 := do
  let low ← peek page address
  let high ← peek page ((address + 1) % pageSize)
  return UInt16.ofNat (high.toNat * 0x100 + low.toNat)

@[specialize] def write16 (page address : Nat) (value : UInt16) : BusM β Unit := do
  checkAccess page address
  poke page address (value.toNat % 0x100)
  poke page ((address + 1) % pageSize) (value.toNat / 0x100)

end Bus

end DosMonitor
