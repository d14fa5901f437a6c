import DosMonitor.Memory.Paged
import DosMonitor.Text.Dump

/-!
# Blocks of the active page

The monitor's commands fill, move, search, compare and list ranges `[start, stop)` of the active page.
A range has to start in the page and may end with it (`checkRange`); what goes past is refused before
anything is written.
-/

namespace DosMonitor.Memory

/-- Fails unless `start` lies in the page, and `stop` not before it and not past the page's end. -/
def checkRange (start stop : Nat) : Except MemoryError Unit :=
  if pageSize ≤ start then .error (.invalidAddress start)
  else if stop < start ∨ pageSize < stop then .error (.invalidAddress stop)
  else .ok ()

/-- The end of a range of the given length, as long as that is a 64-bit number. -/
def rangeEnd (start length : Nat) : Except MemoryError Nat :=
  if start + length < Text.wordLimit then .ok (start + length) else .error (.invalidAddress start)

/-- The bytes of a range of the active page. -/
def block (m : Memory) (start stop : Nat) : Except MemoryError (List UInt8) := do
  checkRange start stop
  return (m.active.toArray.extract start stop).toList

/-- A page and an address, as listings show them. -/
def locationText (page address : Nat) : String :=
  s!"{Text.hex 4 page}:{Text.hex 4 address}"

/-- The first `count` bytes of a pattern that is repeated without end. -/
def repeated (pattern : List UInt8) (count : Nat) : List UInt8 :=
  let cells := pattern.toArray
  (List.range count).map fun i => cells[i % cells.size]?.getD 0

/-- An action that only looks at memory. -/
def inspect {α : Type} (look : Memory → Except MemoryError α) : BusM Memory α := fun m =>
  match look m with
  | .ok a => .ok a m
  | .error e => .error e m

def writeActive (address : Nat) (bytes : List UInt8) : BusM Memory Unit := fun m =>
  Bus.pokeBytes m.activePage address bytes m

def enter (address : Nat) (text : String) : BusM Memory Unit :=
  writeActive address (Text.bytes text)

/-- Repeats a pattern over a range. An empty pattern leaves it as it is. -/
def fill (start stop : Nat) (pattern : List UInt8) : BusM Memory Unit := do
  inspect fun _ => checkRange start stop
  unless pattern.isEmpty do
    writeActive start (repeated pattern (stop - start))

/-- Copies a range to another place, which may overlap it. -/
def move (start stop destination : Nat) : BusM Memory Unit := do
  let bytes ← inspect fun m => m.block start stop
  writeActive destination bytes

/-- Whether the bytes of a page from an address on begin with a pattern. -/
def holdsAt (page : Page) : (address : Nat) → (pattern : List UInt8) → Bool
  | _, [] => true
  | address, b :: pattern => page[address]? == some b && holdsAt page (address + 1) pattern

/-- The places from `start` to the end of the active page at which a pattern begins. -/
def search (m : Memory) (start : Nat) (pattern : List UInt8) : Except MemoryError (List String) := do
  checkRange start pageSize
  if pattern.isEmpty then return []
  let found := (List.range' start (pageSize - start)).filter (holdsAt m.active · pattern)
  return found.map (locationText m.activePage)

/-- The places at which a range differs from the range of the same length at `destination`, with
the two bytes. -/
def compare (m : Memory) (start stop destination : Nat) : Except MemoryError (List String) := do
  let left ← m.block start stop
  let right ← m.block destination (← rangeEnd destination left.length)
  let differing := (left.zip right).zipIdx.filter fun (pair, _) => pair.1 != pair.2
  return differing.map fun ((a, b), i) =>
    let here := locationText m.activePage (start + i)
    let there := locationText m.activePage (destination + i)
    s!"{here} {Text.hex 2 a.toNat} {Text.hex 2 b.toNat} {there}"

def dump (m : Memory) (start stop : Nat) : Except MemoryError (List String) := do
  let bytes ← m.block start stop
  return Text.dump (locationText m.activePage) start bytes

end DosMonitor.Memory
