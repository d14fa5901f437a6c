import DosMonitor.Memory.Bus

/-!
# Paged memory

Memory is one or more pages of 64K bytes, one of which is active. A page and an address in it name a
byte (`byte?`); a write changes that byte and no other.

Main statements: a byte exists exactly at the addresses of the pages there are (`isSome_byte?_iff`),
a read gives the byte and leaves memory alone (`peek_eq`), a write that is accepted changes one byte
(`byte?_write`) and a write that is not accepted changes none (`poke_eq`).
-/

namespace DosMonitor

abbrev Page := Vector UInt8 pageSize

def Page.zero : Page :=
  Vector.replicate pageSize 0

/-- Pages, of which one is active. -/
@[ext] structure Memory where
  pages : Array Page
  activePage : Nat
  activePage_lt : activePage < pages.size

namespace Memory

/-- So many pages of zeros, but at least one. The first is active. -/
def ofPages (count : Nat) : Memory where
  pages := Array.replicate (max count 1) Page.zero
  activePage := 0
  activePage_lt := by
    rw [Array.size_replicate]
    omega

def pageCount (m : Memory) : Nat :=
  m.pages.size

def active (m : Memory) : Page :=
  have := m.activePage_lt
  m.pages[m.activePage]

/-- The byte at an address of a page, if there is one. -/
def byte? (m : Memory) (page address : Nat) : Option UInt8 :=
  m.pages[page]?.bind fun p => p[address]?

/-- Memory with one byte changed, if it exists. -/
def write (m : Memory) (page address : Nat) (value : UInt8) : Memory where
  pages := m.pages.modify page fun p => p.setIfInBounds address value
  activePage := m.activePage
  activePage_lt := by simpa using m.activePage_lt

def setActivePage (page : Nat) : BusM Memory Unit := fun m =>
  if h : page < m.pages.size then .ok () ⟨m.pages, page, h⟩
  else .error (.invalidPage page m.pages.size) m

/-- Reads a byte. The page is checked before the address. -/
def peek (page address : Nat) : BusM Memory UInt8 := fun m =>
  if hp : page < m.pages.size then
    if ha : address < pageSize then .ok m.pages[page][address] m
    else .error (.invalidAddress address) m
  else .error (.invalidPage page m.pages.size) m

/-- Writes a byte. The page is checked first, then the address, then the value. -/
def poke (page address value : Nat) : BusM Memory Unit := fun m =>
  if page < m.pages.size then
    if address < pageSize then
      if value < 0x100 then .ok () (m.write page address (UInt8.ofNat value))
      else .error (.invalidValue value) m
    else .error (.invalidAddress address) m
  else .error (.invalidPage page m.pages.size) m

instance : Bus Memory where
  pageCount := pageCount
  activePage := activePage
  peek := peek
  poke := poke

@[simp] theorem pageCount_write (m : Memory) (page address : Nat) (value : UInt8) :
    (m.write page address value).pageCount = m.pageCount := by
  simp [pageCount, write]

@[simp] theorem activePage_write (m : Memory) (page address : Nat) (value : UInt8) :
    (m.write page address value).activePage = m.activePage := rfl

theorem isSome_byte?_iff (m : Memory) (page address : Nat) :
    (m.byte? page address).isSome ↔ page < m.pageCount ∧ address < pageSize := by
  unfold byte? pageCount
  by_cases hp : page < m.pages.size <;> by_cases ha : address < pageSize <;> simp [hp, ha]

theorem byte?_write (m : Memory) (page address : Nat) (value : UInt8) (page' address' : Nat) :
    (m.write page address value).byte? page' address' =
      if page' = page ∧ address' = address then (m.byte? page address).map fun _ => value
      else m.byte? page' address' := by
  unfold byte? write
  by_cases hp : page' < m.pages.size
  · by_cases hpage : page = page'
    · subst hpage
      by_cases haddr : address = address'
      · subst haddr
        by_cases ha : address < pageSize <;> simp [hp, ha, Array.getElem_modify]
      · simp [hp, Array.getElem_modify, Ne.symm haddr, Vector.getElem?_setIfInBounds_ne haddr]
    · simp [hp, Array.getElem_modify, hpage, Ne.symm hpage]
  · by_cases hpage : page' = page
    · subst hpage
      simp [hp]
    · simp [hp, hpage]

theorem peek_eq (m : Memory) (page address : Nat) :
    peek page address m =
      match m.byte? page address with
      | some b => .ok b m
      | none =>
        if page < m.pageCount then .error (.invalidAddress address) m
        else .error (.invalidPage page m.pageCount) m := by
  unfold peek byte? pageCount
  by_cases hp : page < m.pages.size <;> by_cases ha : address < pageSize <;> simp [hp, ha]

theorem poke_eq (m : Memory) (page address value : Nat) :
    poke page address value m =
      if m.pageCount ≤ page then .error (.invalidPage page m.pageCount) m
      else if pageSize ≤ address then .error (.invalidAddress address) m
      else if 0x100 ≤ value then .error (.invalidValue value) m
      else .ok () (m.write page address (UInt8.ofNat value)) := by
  unfold poke pageCount
  grind

end Memory

end DosMonitor
