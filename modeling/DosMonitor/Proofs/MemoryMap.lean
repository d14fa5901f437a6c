import Mathlib
import DosMonitor.Proofs.AccessLog
import DosMonitor.Proofs.Atomicity
import DosMonitor.Proofs.ByteRuns
import DosMonitor.Proofs.PageRanges

/-!
# Memory is a finite map

What memory has to hold can be said without pages of bytes. A `MemoryMap` has a number of pages, an active
one, and everything that has been put somewhere, the latest first. A place holds what has been put there last,
and zero where nothing has been put (`MemoryMap.byteAt`). A call that fits (`MemoryCall.Fits`) adds its bytes or
makes another page the active one; any other changes nothing.

Memory refines the map call by call (`simulates_perform`): a call succeeds exactly if it fits, gives what the map
gives, and leaves memory as it was where it does not fit. So after any calls the one holds what the other does
(`memory_refines_map`). For runs of bytes and for words this needs that what fits is written to the last byte.
-/

namespace DosMonitor

variable {α β : Type}

/-! ## Calls to memory -/

/-- What may be asked of memory: a call to the bus, or that another page be the active one. -/
inductive MemoryCall
  | bus (call : BusCall)
  | setActivePage (page : Nat)

namespace MemoryCall

def perform : MemoryCall → BusM Memory BusReply
  | bus call => call.perform
  | setActivePage page => (fun _ => .done) <$> Memory.setActivePage page

/-- Memory after some calls, of which each may have failed. -/
def afterAll (calls : List MemoryCall) (m : Memory) : Memory :=
  calls.foldl (fun m call => endState (call.perform m)) m

end MemoryCall

/-! ## The map -/

/-- A place, by page and address, and a byte that has been put there. -/
abbrev Cell := (Nat × Nat) × UInt8

/-- The cells of a run of bytes, from an address of a page on. -/
def Cell.run (page address : Nat) (bytes : List UInt8) : List Cell :=
  bytes.mapIdx fun i b => ((page, address + i), b)

/-- What memory has to hold. -/
structure MemoryMap where
  pageCount : Nat
  activePage : Nat
  /-- What has been put somewhere, the latest first. -/
  cells : List Cell

namespace MemoryMap

/-- So many pages, but at least one, in which nothing has been put anywhere. The first is active. -/
def blank (count : Nat) : MemoryMap :=
  ⟨max count 1, 0, []⟩

/-- There is a page of this number, and it has the address. -/
def Has (s : MemoryMap) (page address : Nat) : Prop :=
  page < s.pageCount ∧ address < pageSize

instance (s : MemoryMap) (page address : Nat) : Decidable (s.Has page address) :=
  inferInstanceAs (Decidable (_ ∧ _))

/-- The byte that has been put at a place last, zero if there is none. -/
def byteAt (s : MemoryMap) (page address : Nat) : UInt8 :=
  (s.cells.lookup (page, address)).getD 0

/-- The word at a place, low byte first. After the last byte of the page comes the first. -/
def wordAt (s : MemoryMap) (page address : Nat) : UInt16 :=
  .ofNat ((s.byteAt page ((address + 1) % pageSize)).toNat * 0x100 + (s.byteAt page address).toNat)

def put (s : MemoryMap) (cell : Cell) : MemoryMap :=
  { s with cells := cell :: s.cells }

/-- The map with some more bytes put somewhere, in order. -/
def putAll (s : MemoryMap) (cells : List Cell) : MemoryMap :=
  { s with cells := cells.reverse ++ s.cells }

end MemoryMap

/-! ## Calls to the map -/

namespace BusCall

/-- The bytes that a call puts somewhere, in order, while the given page is active. -/
def cells (active : Nat) : BusCall → List Cell
  | poke page address value => [((page, address), .ofNat value)]
  | pokeActive address value => [((active, address), .ofNat value)]
  | pokeText page address text => Cell.run page address (Text.bytes text)
  | pokeBytes page address bytes => Cell.run page address bytes
  | write16 page address value =>
    [((page, address), .ofNat (value.toNat % 0x100)),
      ((page, (address + 1) % pageSize), .ofNat (value.toNat / 0x100))]
  | peek _ _ | peekActive _ | read16 _ _ => []

/-- The place of a call exists, a value is that of a byte, and a run of bytes does not leave its page. A word
may. -/
def Fits (s : MemoryMap) : BusCall → Prop
  | peek page address | read16 page address | write16 page address _ => s.Has page address
  | peekActive address => s.Has s.activePage address
  | poke page address value => s.Has page address ∧ value < 0x100
  | pokeActive address value => s.Has s.activePage address ∧ value < 0x100
  | pokeText page address text => s.Has page address ∧ address + (Text.bytes text).length ≤ pageSize
  | pokeBytes page address bytes => s.Has page address ∧ address + bytes.length ≤ pageSize

instance (s : MemoryMap) : (call : BusCall) → Decidable (call.Fits s)
  | peek _ _ | read16 _ _ | write16 _ _ _ | peekActive _ => inferInstanceAs (Decidable (s.Has _ _))
  | poke _ _ _ | pokeActive _ _ | pokeText _ _ _ | pokeBytes _ _ _ =>
    inferInstanceAs (Decidable (_ ∧ _))

def answer (s : MemoryMap) : BusCall → BusReply
  | peek page address => .byte (s.byteAt page address)
  | peekActive address => .byte (s.byteAt s.activePage address)
  | read16 page address => .word (s.wordAt page address)
  | poke _ _ _ | pokeActive _ _ | pokeText _ _ _ | pokeBytes _ _ _ | write16 _ _ _ => .done

end BusCall

namespace MemoryCall

/-- What is asked for can be done. -/
def Fits (s : MemoryMap) : MemoryCall → Prop
  | bus call => call.Fits s
  | setActivePage page => page < s.pageCount

instance (s : MemoryMap) : (call : MemoryCall) → Decidable (call.Fits s)
  | bus call => inferInstanceAs (Decidable (call.Fits s))
  | setActivePage _ => inferInstanceAs (Decidable (_ < _))

def answer (s : MemoryMap) : MemoryCall → BusReply
  | bus call => call.answer s
  | setActivePage _ => .done

/-- The map after a call that fits. -/
def update (s : MemoryMap) : MemoryCall → MemoryMap
  | bus call => s.putAll (call.cells s.activePage)
  | setActivePage page => { s with activePage := page }

end MemoryCall

namespace MemoryMap

/-- The map after a call, which counts for nothing if it does not fit. -/
def after (s : MemoryMap) (call : MemoryCall) : MemoryMap :=
  if call.Fits s then call.update s else s

def afterAll (calls : List MemoryCall) (s : MemoryMap) : MemoryMap :=
  calls.foldl after s

variable (s : MemoryMap)

theorem putAll_cons (cell : Cell) (cells : List Cell) :
    s.putAll (cell :: cells) = (s.put cell).putAll cells := by
  simp [putAll, put]

/-- What has been put at a place hides what was there before, and nothing else. -/
theorem byteAt_put (page address : Nat) (b : UInt8) (page' address' : Nat) :
    (s.put ((page, address), b)).byteAt page' address' =
      if page' = page ∧ address' = address then b else s.byteAt page' address' := by
  unfold byteAt put
  by_cases h : page' = page ∧ address' = address
  · obtain ⟨rfl, rfl⟩ := h
    simp
  · have hne : ((page', address') == (page, address)) = false := by
      simpa [Prod.ext_iff] using h
    rw [List.lookup_cons, hne, if_neg h]

theorem toNat_wordAt (page address : Nat) :
    (s.wordAt page address).toNat =
      (s.byteAt page address).toNat + 0x100 * (s.byteAt page ((address + 1) % pageSize)).toNat := by
  have hlow := (s.byteAt page address).toNat_lt
  have hhigh := (s.byteAt page ((address + 1) % pageSize)).toNat_lt
  rw [wordAt, UInt16.toNat_ofNat']
  omega

@[simp] theorem pageCount_after (call : MemoryCall) :
    (s.after call).pageCount = s.pageCount := by
  unfold after
  split_ifs
  · cases call <;> rfl
  · rfl

theorem pageCount_afterAll (calls : List MemoryCall) :
    (afterAll calls s).pageCount = s.pageCount := by
  induction calls generalizing s with
  | nil => rfl
  | cons call calls ih => exact (ih _).trans (pageCount_after s call)

end MemoryMap

theorem Cell.run_cons (page address : Nat) (b : UInt8) (bytes : List UInt8) :
    Cell.run page address (b :: bytes) = ((page, address), b) :: Cell.run page (address + 1) bytes := by
  simp only [Cell.run, List.mapIdx_cons, Nat.add_zero, Nat.add_right_comm address, Nat.add_assoc]

/-! ## Refinement -/

/-- Memory holds what it has to hold. -/
structure Memory.Refines (m : Memory) (s : MemoryMap) : Prop where
  pageCount : m.pageCount = s.pageCount
  activePage : m.activePage = s.activePage
  bytes : ∀ page address, s.Has page address → m.byte? page address = some (s.byteAt page address)

namespace Memory.Refines

variable {m : Memory} {s : MemoryMap} {page address : Nat}

theorem has_iff (h : m.Refines s) : s.Has page address ↔ page < m.pageCount ∧ address < pageSize := by
  rw [h.pageCount]
  rfl

theorem write (h : m.Refines s) (hplace : s.Has page address) (b : UInt8) :
    (m.write page address b).Refines (s.put ((page, address), b)) where
  pageCount := (pageCount_write ..).trans h.pageCount
  activePage := h.activePage
  bytes page' address' hplace' := by
    obtain ⟨hpage, haddress⟩ := h.has_iff.1 hplace
    rw [byte?_write_of_lt hpage haddress, MemoryMap.byteAt_put, h.bytes page' address' hplace']
    split_ifs <;> rfl

theorem writeRun (h : m.Refines s) (hpage : page < s.pageCount) {bytes : List UInt8}
    (hroom : address + bytes.length ≤ pageSize) :
    (m.writeRun page address bytes).Refines (s.putAll (Cell.run page address bytes)) := by
  induction bytes generalizing m s address with
  | nil => exact h
  | cons b bytes ih =>
    rw [List.length_cons] at hroom
    rw [Memory.writeRun, Cell.run_cons, MemoryMap.putAll_cons]
    exact ih (h.write ⟨hpage, by omega⟩ b) hpage (by omega)

theorem blank (count : Nat) : (Memory.ofPages count).Refines (MemoryMap.blank count) where
  pageCount := Array.size_replicate ..
  activePage := rfl
  bytes page address := by
    rintro ⟨hpage, haddress⟩
    change page < max count 1 at hpage
    unfold byte? Memory.ofPages Page.zero
    simp only [Array.getElem?_replicate, if_pos hpage, Option.bind_some, Vector.getElem?_replicate,
      if_pos haddress]
    rfl

end Memory.Refines

/-! ## Simulation -/

/-- Where memory refines the map, the action comes to this value and memory then refines the new map, if the
condition is met. If not, the action is refused and changes nothing. -/
def Simulates (x : BusM Memory α) (s : MemoryMap) (fits : Prop) (a : α) (s' : MemoryMap) : Prop :=
  ∀ m : Memory, m.Refines s →
    (fits → ∃ n, x m = .ok a n ∧ n.Refines s') ∧ (¬fits → ∃ e, x m = .error e m)

namespace Simulates

variable {x : BusM Memory α} {s s' : MemoryMap} {fits : Prop} {a : α} {m : Memory}

theorem pure (a : α) : Simulates (Pure.pure a) s True a s :=
  fun m hm => ⟨fun _ => ⟨m, rfl, hm⟩, fun h => absurd trivial h⟩

theorem of_fits (h : Simulates x s fits a s') (hfits : fits) : Simulates x s True a s' :=
  fun m hm => ⟨fun _ => (h m hm).1 hfits, fun hnot => absurd trivial hnot⟩

/-- Nothing has been changed where a sequence is refused, if only its first part can be. -/
theorem bind {f : α → BusM Memory β} {b : β} {s'' : MemoryMap} (h : Simulates x s fits a s')
    (hf : fits → Simulates (f a) s' True b s'') : Simulates (x >>= f) s fits b s'' := by
  intro m hm
  obtain ⟨hok, herror⟩ := h m hm
  refine ⟨fun hfits => ?_, fun hfits => ?_⟩
  · obtain ⟨n, hx, hn⟩ := hok hfits
    rw [bind_of_ok hx]
    exact (hf hfits n hn).1 trivial
  · obtain ⟨e, hx⟩ := herror hfits
    exact ⟨e, bind_of_error hx⟩

theorem map (f : α → β) (h : Simulates x s fits a s') : Simulates (f <$> x) s fits (f a) s' :=
  h.bind fun _ => pure (f a)

/-- What is done on the page that is active. -/
theorem onActivePage {x : Nat → BusM Memory α} (h : Simulates (x s.activePage) s fits a s') :
    Simulates (get >>= fun m => x (Bus.activePage m)) s fits a s' := by
  intro m hm
  change (fits → ∃ n, x m.activePage m = .ok a n ∧ n.Refines s') ∧
    (¬fits → ∃ e, x m.activePage m = .error e m)
  rw [hm.activePage]
  exact h m hm

theorem succeeds_iff (h : Simulates x s fits a s') (hm : m.Refines s) : Succeeds x m ↔ fits := by
  obtain ⟨hok, herror⟩ := h m hm
  refine ⟨fun hx => ?_, fun hfits => ?_⟩
  · by_contra hfits
    obtain ⟨e, he⟩ := herror hfits
    obtain ⟨b, n, hx⟩ := hx
    rw [he] at hx
    cases hx
  · obtain ⟨n, hx, -⟩ := hok hfits
    exact ⟨a, n, hx⟩

theorem eq_of_ok (h : Simulates x s fits a s') (hm : m.Refines s) {b : α} {n : Memory}
    (hx : x m = .ok b n) : b = a := by
  obtain ⟨n', hx', -⟩ := (h m hm).1 ((h.succeeds_iff hm).1 ⟨b, n, hx⟩)
  rw [hx] at hx'
  exact (EStateM.Result.ok.inj hx').1

end Simulates

section Bus
variable (s : MemoryMap) (page address : Nat)

theorem simulates_peek :
    Simulates (Bus.peek page address) s (s.Has page address) (s.byteAt page address) s := by
  intro m hm
  change (_ → ∃ n, Memory.peek page address m = _ ∧ _) ∧ (_ → ∃ e, Memory.peek page address m = _)
  rw [Memory.peek_eq]
  refine ⟨fun hplace => ?_, fun hplace => ?_⟩
  · rw [hm.bytes page address hplace]
    exact ⟨m, rfl, hm⟩
  · rw [hm.has_iff, ← m.isSome_byte?_iff, Bool.not_eq_true, Option.isSome_eq_false_iff] at hplace
    rw [Option.isNone_iff_eq_none.1 hplace]
    dsimp only
    split_ifs
    · exact ⟨_, rfl⟩
    · exact ⟨_, rfl⟩

theorem simulates_poke (value : Nat) :
    Simulates (Bus.poke page address value) s (s.Has page address ∧ value < 0x100) ()
      (s.put ((page, address), .ofNat value)) := by
  intro m hm
  refine ⟨fun ⟨hplace, hvalue⟩ => ?_, fun hrefused => ?_⟩
  · obtain ⟨hpage, haddress⟩ := hm.has_iff.1 hplace
    exact ⟨_, poke_ok hpage haddress hvalue, hm.write hplace _⟩
  · rw [hm.has_iff] at hrefused
    change ∃ e, Memory.poke page address value m = _
    rw [Memory.poke_eq]
    split_ifs with hpage haddress hvalue
    · exact ⟨_, rfl⟩
    · exact ⟨_, rfl⟩
    · exact ⟨_, rfl⟩
    · exact absurd ⟨⟨by omega, by omega⟩, by omega⟩ hrefused

/-- The check that comes before words and runs of bytes. -/
theorem simulates_checkAccess : Simulates (Bus.checkAccess page address) s (s.Has page address) () s := by
  intro m hm
  rw [hm.has_iff, Words.checkAccess_eq]
  refine ⟨fun ⟨hpage, haddress⟩ => ?_, fun hrefused => ?_⟩
  · rw [if_neg (by omega), if_neg (by omega)]
    exact ⟨m, rfl, hm⟩
  · split_ifs with hpage haddress
    · exact ⟨_, rfl⟩
    · exact ⟨_, rfl⟩
    · exact absurd ⟨by omega, by omega⟩ hrefused

theorem simulates_pokeBytes (bytes : List UInt8) :
    Simulates (Bus.pokeBytes page address bytes) s
      (s.Has page address ∧ address + bytes.length ≤ pageSize) ()
      (s.putAll (Cell.run page address bytes)) := by
  intro m hm
  obtain ⟨hchecked, hunchecked⟩ := simulates_checkAccess s page address m hm
  refine ⟨fun ⟨hplace, hroom⟩ => ?_, fun hrefused => ?_⟩
  · obtain ⟨hpage, haddress⟩ := hm.has_iff.1 hplace
    exact ⟨_, pokeBytes_ok bytes hpage haddress hroom, hm.writeRun hplace.1 hroom⟩
  · by_cases hplace : s.Has page address
    · obtain ⟨hpage, haddress⟩ := hm.has_iff.1 hplace
      have hroom : pageSize < address + bytes.length := not_le.1 fun hroom => hrefused ⟨hplace, hroom⟩
      refine ⟨.overflow address bytes.length, ?_⟩
      rw [Bus.pokeBytes, bind_of_ok (checkAccess_ok hpage haddress), if_pos hroom]
      rfl
    · obtain ⟨e, he⟩ := hunchecked hplace
      exact ⟨e, bind_of_error he⟩

theorem simulates_read16 :
    Simulates (Bus.read16 page address) s (s.Has page address) (s.wordAt page address) s :=
  (simulates_peek s page address).bind fun hplace =>
    have hnext : s.Has page ((address + 1) % pageSize) := ⟨hplace.1, Nat.mod_lt _ (by decide)⟩
    ((simulates_peek s page _).of_fits hnext).bind fun _ => .pure _

/-- Both bytes of a word are written, or none. -/
theorem simulates_write16 (value : UInt16) :
    Simulates (Bus.write16 page address value) s (s.Has page address) ()
      (s.putAll ((BusCall.write16 page address value).cells s.activePage)) := by
  have hvalue := value.toNat_lt
  refine (simulates_checkAccess s page address).bind fun hplace => ?_
  have hnext : s.Has page ((address + 1) % pageSize) := ⟨hplace.1, Nat.mod_lt _ (by decide)⟩
  have hlow := (simulates_poke s page address (value.toNat % 0x100)).of_fits ⟨hplace, by omega⟩
  refine hlow.bind fun _ => ?_
  exact (simulates_poke _ page _ (value.toNat / 0x100)).of_fits ⟨hnext, by omega⟩

theorem simulates_setActivePage :
    Simulates (Memory.setActivePage page) s (page < s.pageCount) () { s with activePage := page } := by
  intro m hm
  have hpages : m.pages.size = s.pageCount := hm.pageCount
  rw [← hpages]
  unfold Memory.setActivePage
  refine ⟨fun hpage => ⟨⟨m.pages, page, hpage⟩, dif_pos hpage, ?_⟩, fun hpage => ⟨_, dif_neg hpage⟩⟩
  exact ⟨rfl, rfl, fun page address hplace => hm.bytes page address ⟨hpages ▸ hplace.1, hplace.2⟩⟩

theorem simulates_busCall (call : BusCall) :
    Simulates call.perform s (call.Fits s) (call.answer s) (s.putAll (call.cells s.activePage)) := by
  cases call with
  | peek page address => exact (simulates_peek s page address).map _
  | poke page address value => exact (simulates_poke s page address value).map _
  | peekActive address =>
    exact (Simulates.onActivePage (x := (Bus.peek · address)) (simulates_peek s _ address)).map _
  | pokeActive address value =>
    exact (Simulates.onActivePage (x := (Bus.poke · address value))
      (simulates_poke s _ address value)).map _
  | pokeText page address text => exact (simulates_pokeBytes s page address (Text.bytes text)).map _
  | pokeBytes page address bytes => exact (simulates_pokeBytes s page address bytes).map _
  | read16 page address => exact (simulates_read16 s page address).map _
  | write16 page address value => exact (simulates_write16 s page address value).map _

/-- Memory does what the map does. -/
theorem simulates_perform (call : MemoryCall) :
    Simulates call.perform s (call.Fits s) (call.answer s) (call.update s) := by
  cases call with
  | bus call => exact simulates_busCall s call
  | setActivePage page => exact (simulates_setActivePage s page).map _

end Bus

/-! ## Runs -/

namespace Memory.Refines

variable {m : Memory} {s : MemoryMap}

theorem perform (h : m.Refines s) (call : MemoryCall) :
    (endState (call.perform m)).Refines (s.after call) := by
  obtain ⟨hok, herror⟩ := simulates_perform s call m h
  unfold MemoryMap.after
  split_ifs with hfits
  · obtain ⟨n, hx, hn⟩ := hok hfits
    rwa [hx]
  · obtain ⟨e, hx⟩ := herror hfits
    rwa [hx]

theorem afterAll (h : m.Refines s) (calls : List MemoryCall) :
    (MemoryCall.afterAll calls m).Refines (MemoryMap.afterAll calls s) := by
  induction calls generalizing m s with
  | nil => exact h
  | cons call calls ih => exact ih (h.perform call)

end Memory.Refines

theorem reads_read16 (page address : Nat) : Reads (Bus.read16 page address : BusM Memory UInt16) :=
  Reads.bind (reads_peek _ _) fun _ => Reads.bind (reads_peek _ _) fun _ => Reads.pure _

/-- **Memory is a finite map.** After any calls to memory that was blank, a byte can be read exactly at the
places of the pages there are, and it is the one that the last successful call has put there, zero if there is
none; a word is made of two such bytes, the second at the start of the page if the first is at its end. A call
succeeds exactly if it fits, and if not, memory is as it was. Reading changes nothing. -/
theorem memory_refines_map (count : Nat) (calls : List MemoryCall) :
    let m := MemoryCall.afterAll calls (Memory.ofPages count)
    let s := MemoryMap.afterAll calls (MemoryMap.blank count)
    m.activePage = s.activePage ∧
    (∀ call : MemoryCall,
      (call.Fits s → ∃ n, call.perform m = .ok (call.answer s) n) ∧
      (¬call.Fits s → ∃ e, call.perform m = .error e m)) ∧
    (∀ page address,
      (Succeeds (Bus.peek page address) m ↔ page < max count 1 ∧ address < 0x10000) ∧
      ∀ b n, Bus.peek page address m = .ok b n → b = s.byteAt page address ∧ n = m) ∧
    ∀ page address,
      (Succeeds (Bus.read16 page address) m ↔ page < max count 1 ∧ address < 0x10000) ∧
      ∀ w n, Bus.read16 page address m = .ok w n →
        w.toNat = (s.byteAt page address).toNat +
          0x100 * (s.byteAt page ((address + 1) % 0x10000)).toNat ∧ n = m := by
  intro m s
  have hrefines : m.Refines s := (Memory.Refines.blank count).afterAll calls
  have hplace : ∀ page address, s.Has page address ↔ page < max count 1 ∧ address < 0x10000 := by
    intro page address
    rw [MemoryMap.Has, MemoryMap.pageCount_afterAll]
    rfl
  refine ⟨hrefines.activePage, fun call => ?_, fun page address => ⟨?_, fun b n h => ?_⟩,
    fun page address => ⟨?_, fun w n h => ?_⟩⟩
  · obtain ⟨hok, herror⟩ := simulates_perform s call m hrefines
    exact ⟨fun hfits => (hok hfits).imp fun _ hn => hn.1, herror⟩
  · rw [(simulates_peek s page address).succeeds_iff hrefines, hplace]
  · exact ⟨(simulates_peek s page address).eq_of_ok hrefines h, (reads_peek page address).eq_of_ok h⟩
  · rw [(simulates_read16 s page address).succeeds_iff hrefines, hplace]
  · rw [(simulates_read16 s page address).eq_of_ok hrefines h]
    exact ⟨s.toNat_wordAt page address, (reads_read16 page address).eq_of_ok h⟩

/-- A word over the end of a page, half of it hidden by a later byte, between calls that are refused. -/
theorem memory_refines_map_page_end :
    let calls : List MemoryCall :=
      [.bus (.write16 1 0xFFFF 0x1234), .bus (.pokeBytes 1 0xFFFF [7, 8]), .setActivePage 1,
        .bus (.pokeActive 0 5), .bus (.pokeActive 1 0x100), .setActivePage 2]
    let m := MemoryCall.afterAll calls (Memory.ofPages 2)
    m.activePage = 1 ∧ Bus.peek 1 0xFFFF m = .ok 0x34 m ∧ Bus.read16 1 0xFFFF m = .ok 0x0534 m ∧
      ∃ e, (MemoryCall.bus (.write16 1 0x10000 0)).perform m = .error e m := by
  intro calls m
  have hm : m = MemoryCall.afterAll calls (Memory.ofPages 2) := rfl
  clear_value m
  subst hm
  have hpage : (MemoryMap.afterAll calls (.blank 2)).activePage = 1 := by decide
  have hlow : (MemoryMap.afterAll calls (.blank 2)).byteAt 1 0xFFFF = 0x34 := by decide
  have hhigh : (MemoryMap.afterAll calls (.blank 2)).byteAt 1 0 = 5 := by decide
  have hrefused : ¬(MemoryCall.bus (.write16 1 0x10000 0)).Fits (MemoryMap.afterAll calls (.blank 2)) := by
    decide
  obtain ⟨hactive, hcalls, hpeek, hread⟩ := memory_refines_map 2 calls
  obtain ⟨b, n, hbyte⟩ := (hpeek 1 0xFFFF).1.2 (by decide)
  obtain ⟨hb, hn⟩ := (hpeek 1 0xFFFF).2 b n hbyte
  obtain ⟨w, n', hword⟩ := (hread 1 0xFFFF).1.2 (by decide)
  obtain ⟨hw, hn'⟩ := (hread 1 0xFFFF).2 w n' hword
  refine ⟨hactive.trans hpage, ?_, ?_, (hcalls _).2 hrefused⟩
  · rw [hbyte, hb, hlow, hn]
  · rw [hlow, show (0xFFFF + 1) % 0x10000 = 0 from rfl, hhigh] at hw
    rw [hword, UInt16.toNat_inj.1 (hw.trans (show _ = (0x0534 : UInt16).toNat by decide)), hn']

end DosMonitor
