import DosMonitor.Proofs.Grammar
import DosMonitor.Command.Dispatch
import DosMonitor.Proofs.PageRanges

/-!
# Checks of ranges are exact

The commands that work on ranges of the active page or of the disk take any numbers. They check them and
then compute with them, sums of places and counts among them.

Main statement (`ranges_exact`): none of these computations leaves the numbers of 64 bits or the ends of a
list, and a command succeeds exactly if its ranges lie in the page and on the disk, as numbers without
bound say (`RangeOperation.InRange`).
-/

namespace DosMonitor

variable {ε ε' σ α β : Type}

/-! ## The disk -/

namespace Disk

/-- An action that only looks at the disk. -/
def inspect (look : Disk → Except DiskError α) : DiskM α := fun d =>
  match look d with
  | .ok a => .ok a d
  | .error e => .error e d

theorem inspect_ok {look : Disk → Except DiskError α} {a : α} {d d' : Disk}
    (h : inspect look d = .ok a d') : look d = .ok a ∧ d' = d := by
  unfold inspect at h
  cases hlook : look d with
  | ok b =>
    rw [hlook] at h
    obtain ⟨rfl, rfl⟩ := EStateM.Result.ok.inj h
    exact ⟨rfl, rfl⟩
  | error e =>
    rw [hlook] at h
    cases h

theorem inspect_of_ok {look : Disk → Except DiskError α} {a : α} {d : Disk} (h : look d = .ok a) :
    inspect look d = .ok a d := by
  unfold inspect
  rw [h]

theorem position_eq_ok_iff {d : Disk} {sector : Int} {i : Nat} :
    d.position sector = .ok i ↔ i < d.size ∧ sector = i := by
  unfold position
  split_ifs with hbad
  · simp
    omega
  · simp
    omega

theorem write_eq_position (sector : Int) (value : Nat) :
    write sector value = (do
      let i ← inspect (·.position sector)
      if 0x100 ≤ value then throw (.invalidValue value)
      else modify fun d => d.put i (UInt8.ofNat value)) := by
  funext d
  change _ = EStateM.bind _ _ d
  unfold write EStateM.bind inspect
  dsimp only
  cases d.position sector with
  | error e => rfl
  | ok i =>
    by_cases hvalue : value < 0x100
    · simp only [hvalue, not_le.2 hvalue, if_true, if_false]
      rfl
    · simp only [hvalue, not_lt.1 hvalue, if_true, if_false]
      rfl

end Disk

namespace Words

def checkSectors (first count : Nat) : WordM DiskError Disk Unit := do
  let d ← get
  match sum? first count with
  | some stop =>
    if stop ≤ d.size then pure ()
    else throw (.refused (.invalidSector (min stop Disk.maxSector : Nat) d.size))
  | none => throw (.refused (.invalidSector Disk.maxSector d.size))

def writeSector (sector : Int) (value : Nat) : WordM DiskError Disk Unit := do
  let i ← lift (Disk.inspect (·.position sector))
  if 0x100 ≤ value then throw (.refused (.invalidValue value))
  else
    let d ← get
    let _ ← cell d.blocks i
    set (d.put i (UInt8.ofNat value))

/-- Writes bytes to sectors, the first of them to the `i`-th from `first` on. -/
def writeEach (first : Nat) : (i : Nat) → List UInt8 → WordM DiskError Disk Unit
  | _, [] => pure ()
  | i, b :: bytes => do
    let sector ← add first i
    writeSector (signed sector) b.toNat
    writeEach first (i + 1) bytes

def readSector (sector : Int) : WordM DiskError Disk UInt8 := do
  let i ← lift (Disk.inspect (·.position sector))
  let d ← get
  cell d.blocks i

def readEach (first count : Nat) : WordM DiskError Disk (List UInt8) :=
  (List.range count).mapM fun i => do
    let sector ← add first i
    readSector (signed sector)

def dumpDisk (start stop : Nat) : WordM DiskError Disk (List String) := do
  let d ← get
  if start > stop ∨ stop > d.size then
    let bad := if start > stop then start else stop
    throw (.refused (.invalidSector (min bad Disk.maxSector : Nat) d.size))
  else
    let bytes ← slice d.blocks start stop
    dumpRows (Text.hex 6) start bytes

variable {d : Disk}

theorem realizes_checkSectors (first count : Nat) (hsize : d.size < 2 ^ 63) :
    Realizes (checkSectors first count) (Disk.inspect (·.checkSectors first count)) d := by
  refine Realizes.step rfl ?_
  have hlimit : 2 ^ 63 < Text.wordLimit := by decide
  have hmax : Disk.maxSector < Text.wordLimit := by decide
  unfold Realizes Disk.inspect Disk.checkSectors sum?
  dsimp only
  by_cases hsum : first + count < Text.wordLimit
  · simp only [if_pos hsum]
    split_ifs <;> rfl
  · have hpast : ¬first + count ≤ d.size := by omega
    have hmin : min (first + count) Disk.maxSector = Disk.maxSector := by omega
    simp only [if_neg hsum, if_neg hpast, hmin]
    rfl

theorem realizes_writeSector (sector : Int) (value : Nat) (d : Disk) :
    Realizes (writeSector sector value) (Disk.write sector value) d := by
  rw [Disk.write_eq_position]
  refine Realizes.bind (Realizes.lift _ _) fun i d' hposition => ?_
  obtain ⟨hposition, rfl⟩ := Disk.inspect_ok hposition
  obtain ⟨hi, -⟩ := Disk.position_eq_ok_iff.1 hposition
  by_cases hvalue : 0x100 ≤ value
  · rw [if_pos hvalue, if_pos hvalue]
    exact Realizes.refuse _ _
  · rw [if_neg hvalue, if_neg hvalue]
    have hcell : d'.blocks[i]? = some d'.blocks[i] := Array.getElem?_eq_getElem hi
    exact Realizes.step rfl (Realizes.step (cell_ok hcell) rfl)

theorem realizes_writeEach (bytes : List UInt8) {first i : Nat} (d : Disk)
    (hroom : first + i + bytes.length < 2 ^ 63) :
    Realizes (writeEach first i bytes) (Disk.writeEach (first + i) bytes) d := by
  induction bytes generalizing i d with
  | nil => exact Realizes.pure _ _
  | cons b bytes ih =>
    rw [List.length_cons] at hroom
    have hlimit : 2 ^ 63 < Text.wordLimit := by decide
    refine Realizes.step (add_ok (by omega)) ?_
    rw [signed_of_lt (by omega)]
    refine Realizes.bind (realizes_writeSector _ _ _) fun _ d' _ => ?_
    exact ih d' (by omega)

theorem readEach_ok {first count : Nat} (hsize : d.size < 2 ^ 63) (hroom : first + count ≤ d.size) :
    readEach first count d = .ok (d.sectors first (first + count)) d := by
  have hlimit : 2 ^ 63 < Text.wordLimit := by decide
  have hread : ∀ i ∈ List.range count,
      (do let sector ← add first i; readSector (signed sector) : WordM DiskError Disk UInt8) d =
        .ok (d.blocks[first + i]?.getD 0) d := by
    intro i hi
    rw [List.mem_range] at hi
    have hsector : first + i < d.blocks.size := by
      change first + i < d.size
      omega
    have hposition : lift (Disk.inspect (·.position (first + i : Nat))) d = .ok (first + i) d :=
      congrArg refusing (Disk.inspect_of_ok (Disk.position_of_lt hsector))
    rw [bind_of_ok (add_ok (by omega)), signed_of_lt (by omega)]
    unfold readSector
    rw [bind_of_ok hposition]
    refine (bind_of_ok rfl).trans (cell_ok ?_)
    simp [hsector]
  refine (Realizes.mapM_ok hread).trans (congrArg (EStateM.Result.ok · d) ?_)
  have hsize' : first + count ≤ d.blocks.size := hroom
  refine List.ext_getElem ?_ fun i hi hi' => ?_
  · simp [Disk.sectors]
    omega
  · have hsector : first + i < d.blocks.size := by
      simp at hi
      omega
    simp [Disk.sectors, hsector]

theorem realizes_dumpDisk (start stop : Nat) (hsize : d.size < 2 ^ 63) :
    Realizes (dumpDisk start stop) (Disk.inspect (·.dump start stop)) d := by
  have hlimit : 2 ^ 63 < Text.wordLimit := by decide
  refine Realizes.step rfl ?_
  unfold Realizes Disk.inspect Disk.dump
  dsimp only
  by_cases hbad : start > stop ∨ stop > d.size
  · rw [if_pos hbad, if_pos hbad]
    rfl
  · rw [if_neg hbad, if_neg hbad]
    rw [not_or, not_lt, not_lt] at hbad
    obtain ⟨hle, hstop⟩ := hbad
    have hslice : (slice d.blocks start stop : WordM DiskError Disk _) d = _ := slice_ok hle hstop
    have hlength : (d.blocks.extract start stop).toList.length ≤ d.size - start := by
      simp [Disk.size]
    rw [bind_of_ok hslice, dumpRows_ok _ (by omega)]
    rfl

end Words

/-! ## The machine -/

namespace Machine

variable {m m' : Machine} {a : α}

theorem ofMemory_ok {r : Except MemoryError α} (h : ofMemory r m = .ok a m') : r = .ok a ∧ m' = m := by
  cases r with
  | ok b =>
    obtain ⟨rfl, rfl⟩ := EStateM.Result.ok.inj h
    exact ⟨rfl, rfl⟩
  | error e => cases h

theorem ofDisk_ok {r : Except DiskError α} (h : ofDisk r m = .ok a m') : r = .ok a ∧ m' = m := by
  cases r with
  | ok b =>
    obtain ⟨rfl, rfl⟩ := EStateM.Result.ok.inj h
    exact ⟨rfl, rfl⟩
  | error e => cases h

end Machine

/-- The same with another form of the refusals. -/
def Stop.map (f : ε → ε') : Stop ε → Stop ε'
  | .refused e => .refused (f e)
  | .trap => .trap

namespace Words

def onMemory (x : WordM MemoryError Memory α) : WordM Error Machine α := fun m =>
  match x m.memory with
  | .ok a memory => .ok a { m with core := { m.core with bus := memory } }
  | .error stop memory => .error (stop.map .memory) { m with core := { m.core with bus := memory } }

def onDisk (x : WordM DiskError Disk α) : WordM Error Machine α := fun m =>
  match x m.disk with
  | .ok a disk => .ok a { m with disk }
  | .error stop disk => .error (stop.map .disk) { m with disk }

def writeToDisk (address first count : Nat) : WordM Error Machine Nat := do
  onDisk (checkSectors first count)
  let stop ← onMemory (lift (Memory.inspect fun _ => Memory.rangeEnd address count))
  let bytes ← onMemory (readRange address stop)
  onDisk (writeEach first 0 bytes)
  pure count

def readFromDisk (address first count : Nat) : WordM Error Machine Nat := do
  onDisk (checkSectors first count)
  let stop ← onMemory (lift (Memory.inspect fun _ => Memory.rangeEnd address count))
  onMemory (lift (Memory.inspect fun _ => Memory.checkRange address stop))
  let bytes ← onDisk (readEach first count)
  onMemory (writeActive address bytes)
  pure count

variable {m : Machine}

theorem realizes_onMemory {x : WordM MemoryError Memory α} {y : BusM Memory α}
    (h : Realizes x y m.memory) : Realizes (onMemory x) (Machine.onMemory y) m := by
  obtain ⟨⟨registers, memory, console⟩, disk, debugger, trace, status, config⟩ := m
  change x memory = refusing (y memory) at h
  unfold Realizes onMemory Machine.onMemory Machine.onCore Exec.onBus
  dsimp only [Machine.memory]
  rw [h]
  cases y memory <;> rfl

theorem realizes_onDisk {x : WordM DiskError Disk α} {y : DiskM α} (h : Realizes x y m.disk) :
    Realizes (onDisk x) (Machine.onDisk y) m := by
  obtain ⟨core, disk, debugger, trace, status, config⟩ := m
  change x disk = refusing (y disk) at h
  unfold Realizes onDisk Machine.onDisk
  dsimp only
  rw [h]
  cases y disk <;> rfl

theorem realizes_ofMemory {x : WordM MemoryError Memory α} {look : Memory → Except MemoryError α}
    (h : Realizes x (Memory.inspect look) m.memory) :
    Realizes (onMemory x) (Machine.ofMemory (look m.memory)) m := by
  unfold Realizes Memory.inspect at h
  unfold Realizes onMemory
  rw [h]
  cases look m.memory <;> rfl

theorem realizes_ofDisk {x : WordM DiskError Disk α} {look : Disk → Except DiskError α}
    (h : Realizes x (Disk.inspect look) m.disk) :
    Realizes (onDisk x) (Machine.ofDisk (look m.disk)) m := by
  unfold Realizes Disk.inspect at h
  unfold Realizes onDisk
  rw [h]
  cases look m.disk <;> rfl

theorem checkSectors_eq_ok_iff {d : Disk} {first count : Nat} :
    d.checkSectors first count = .ok () ↔ first + count ≤ d.size := by
  unfold Disk.checkSectors
  split_ifs <;> simp [*]

theorem rangeEnd_ok {address count stop : Nat} (h : Memory.rangeEnd address count = .ok stop) :
    stop = address + count := by
  unfold Memory.rangeEnd at h
  split_ifs at h
  exact (Except.ok.inj h).symm

theorem realizes_writeToDisk (address first count : Nat) (hsize : m.disk.size < 2 ^ 63) :
    Realizes (writeToDisk address first count) (Machine.writeToDisk address first count) m := by
  change Realizes _ (Machine.ofDisk (m.disk.checkSectors first count) >>= fun _ => _) m
  refine Realizes.bind (realizes_ofDisk (realizes_checkSectors first count hsize)) fun _ m₁ hcheck => ?_
  obtain ⟨hsectors, rfl⟩ := Machine.ofDisk_ok hcheck
  refine Realizes.bind (realizes_ofMemory (Realizes.lift _ _)) fun stop m₂ hend => ?_
  obtain ⟨hstop, rfl⟩ := Machine.ofMemory_ok hend
  refine Realizes.bind (realizes_ofMemory (realizes_readRange _ _ _)) fun bytes m₃ hread => ?_
  obtain ⟨hblock, rfl⟩ := Machine.ofMemory_ok hread
  -- as many bytes as sectors
  have hcount : bytes.length = count := by
    rw [(length_of_block hblock).1, rangeEnd_ok hstop]
    omega
  have hroom : first + 0 + bytes.length < 2 ^ 63 := by
    have := checkSectors_eq_ok_iff.1 hsectors
    omega
  exact Realizes.map _ (realizes_onDisk (realizes_writeEach bytes _ hroom))

theorem realizes_readFromDisk (address first count : Nat) (hsize : m.disk.size < 2 ^ 63) :
    Realizes (readFromDisk address first count) (Machine.readFromDisk address first count) m := by
  change Realizes _ (Machine.ofDisk (m.disk.checkSectors first count) >>= fun _ => _) m
  refine Realizes.bind (realizes_ofDisk (realizes_checkSectors first count hsize)) fun _ m₁ hcheck => ?_
  obtain ⟨hsectors, rfl⟩ := Machine.ofDisk_ok hcheck
  refine Realizes.bind (realizes_ofMemory (Realizes.lift _ _)) fun stop m₂ hend => ?_
  obtain ⟨hstop, rfl⟩ := Machine.ofMemory_ok hend
  refine Realizes.bind (realizes_ofMemory (Realizes.lift _ _)) fun _ m₃ hbounds => ?_
  obtain ⟨hrange, rfl⟩ := Machine.ofMemory_ok hbounds
  have hroom := checkSectors_eq_ok_iff.1 hsectors
  have hread : onDisk (readEach first count) m₃ = .ok (m₃.disk.sectors first (first + count)) m₃ := by
    unfold onDisk
    rw [readEach_ok hsize hroom]
  have hlength : (m₃.disk.sectors first (first + count)).length < 2 ^ 63 := by
    simp [Disk.sectors]
    omega
  refine Realizes.step hread ?_
  exact Realizes.map _ (realizes_onMemory (realizes_writeActive _ _ hlength))

end Words

/-! ## Success -/

section Success
variable {x : EStateM ε σ α} {f : α → EStateM ε σ β} {s : σ}

theorem Succeeds.bind_iff :
    Succeeds (x >>= f) s ↔ ∃ a t, x s = .ok a t ∧ Succeeds (f a) t := by
  refine ⟨fun ⟨b, s', h⟩ => ?_, Succeeds.bind⟩
  obtain ⟨a, t, hx, hf⟩ := of_bind_ok h
  exact ⟨a, t, hx, b, s', hf⟩

theorem Succeeds.map_iff {g : α → β} : Succeeds (x >>= fun a => pure (g a)) s ↔ Succeeds x s := by
  rw [Succeeds.bind_iff]
  refine ⟨fun ⟨a, t, hx, _⟩ => ⟨a, t, hx⟩, fun ⟨a, t, hx⟩ => ⟨a, t, hx, g a, t, rfl⟩⟩

/-- A look at the state, put into other words. -/
theorem Succeeds.look_iff {look : σ → EStateM ε σ α} {g : α → β} :
    Succeeds (get >>= fun s => look s >>= fun a => pure (g a)) s ↔ Succeeds (look s) s := by
  rw [← Succeeds.map_iff (x := look s) (g := g)]
  rfl

end Success

namespace Memory

variable {m : Memory} {start stop destination address : Nat}

theorem succeeds_writeActive {bytes : List UInt8} :
    Succeeds (writeActive address bytes) m ↔
      address < pageSize ∧ address + bytes.length ≤ pageSize := by
  constructor
  · rintro ⟨_, m', h⟩
    obtain ⟨_, t, hcheck, hrest⟩ := of_bind_ok (show Bus.pokeBytes m.activePage address bytes m = _ from h)
    obtain ⟨-, haddress, rfl⟩ := Words.checkAccess_ok_iff.1 hcheck
    refine ⟨haddress, ?_⟩
    by_contra hroom
    rw [if_pos (not_le.1 hroom)] at hrest
    cases hrest
  · rintro ⟨haddress, hroom⟩
    exact ⟨(), _, pokeBytes_ok bytes m.activePage_lt haddress hroom⟩

theorem exists_block_iff (m : Memory) :
    (∃ bytes, m.block start stop = .ok bytes) ↔ start < pageSize ∧ start ≤ stop ∧ stop ≤ pageSize := by
  simp [Words.block_eq_ok_iff]

theorem succeeds_fill {pattern : List UInt8} :
    Succeeds (fill start stop pattern) m ↔ start < pageSize ∧ start ≤ stop ∧ stop ≤ pageSize := by
  rw [← checkRange_eq_ok]
  constructor
  · rintro ⟨_, m', h⟩
    obtain ⟨_, t, hcheck, -⟩ := of_bind_ok h
    exact (inspect_ok hcheck).1
  · intro hrange
    refine Succeeds.bind ⟨(), m, inspect_of_ok hrange, ?_⟩
    by_cases hpattern : pattern.isEmpty
    · simp only [hpattern, if_true]
      exact ⟨(), m, rfl⟩
    · simp only [hpattern]
      refine succeeds_writeActive.2 ?_
      have := (checkRange_eq_ok start stop).1 hrange
      simp [repeated]
      omega

theorem succeeds_move :
    Succeeds (move start stop destination) m ↔
      (start < pageSize ∧ start ≤ stop ∧ stop ≤ pageSize) ∧
        destination < pageSize ∧ destination + (stop - start) ≤ pageSize := by
  constructor
  · rintro ⟨_, m', h⟩
    obtain ⟨bytes, t, hread, hwrite⟩ := of_bind_ok h
    obtain ⟨hblock, rfl⟩ := inspect_ok hread
    obtain ⟨hlength, hrange⟩ := Words.length_of_block hblock
    have hroom := succeeds_writeActive.1 ⟨_, _, hwrite⟩
    rw [hlength] at hroom
    exact ⟨hrange, hroom⟩
  · rintro ⟨hrange, hroom⟩
    obtain ⟨bytes, hblock⟩ := (exists_block_iff m).2 hrange
    refine Succeeds.bind ⟨bytes, m, inspect_of_ok hblock, succeeds_writeActive.2 ?_⟩
    rw [(Words.length_of_block hblock).1]
    exact hroom

theorem exists_search_iff {pattern : List UInt8} :
    (∃ found, m.search start pattern = .ok found) ↔ start < pageSize := by
  have hrange : checkRange start pageSize = .ok () ↔ start < pageSize := by
    rw [checkRange_eq_ok]
    omega
  rw [← hrange]
  unfold search
  cases checkRange start pageSize with
  | error e => simp [bind, Except.bind]
  | ok _ => cases pattern <;> simp [bind, Except.bind, pure, Except.pure]

theorem exists_compare_iff :
    (∃ found, m.compare start stop destination = .ok found) ↔
      (start < pageSize ∧ start ≤ stop ∧ stop ≤ pageSize) ∧
        destination < pageSize ∧ destination + (stop - start) ≤ pageSize := by
  constructor
  · rintro ⟨found, h⟩
    obtain ⟨left, hleft, h⟩ := Source.bind_eq_ok_iff.1 h
    obtain ⟨destinationStop, hend, h⟩ := Source.bind_eq_ok_iff.1 h
    obtain ⟨right, hright, -⟩ := Source.bind_eq_ok_iff.1 h
    obtain ⟨hlength, hrange⟩ := Words.length_of_block hleft
    obtain ⟨-, hdestination, -, hroom⟩ := Words.length_of_block hright
    rw [Words.rangeEnd_ok hend, hlength] at hroom
    exact ⟨hrange, hdestination, hroom⟩
  · rintro ⟨hrange, hdestination, hroom⟩
    obtain ⟨left, hleft⟩ := (exists_block_iff m).2 hrange
    have hlength := (Words.length_of_block hleft).1
    have hend : rangeEnd destination left.length = .ok (destination + left.length) := by
      refine if_pos ?_
      have hlimit : pageSize < Text.wordLimit := by decide
      omega
    obtain ⟨right, hright⟩ := (exists_block_iff m).2
      (show destination < pageSize ∧ destination ≤ destination + left.length ∧ _ ≤ pageSize by omega)
    simp only [compare, hleft, hend, hright, bind, Except.bind]
    exact ⟨_, rfl⟩

theorem exists_dump_iff :
    (∃ rows, m.dump start stop = .ok rows) ↔ start < pageSize ∧ start ≤ stop ∧ stop ≤ pageSize := by
  rw [← exists_block_iff m]
  unfold dump
  cases m.block start stop <;> simp [bind, Except.bind, pure, Except.pure]

end Memory

namespace Disk

variable {d : Disk}

theorem exists_dump_iff {start stop : Nat} :
    (∃ rows, d.dump start stop = .ok rows) ↔ start ≤ stop ∧ stop ≤ d.size := by
  unfold dump
  split_ifs with hbad
  · simp
    omega
  · simp
    omega

theorem succeeds_writeEach (bytes : List UInt8) {first : Nat} (hroom : first + bytes.length ≤ d.size) :
    Succeeds (writeEach first bytes) d := by
  induction bytes generalizing first d with
  | nil => exact ⟨(), d, rfl⟩
  | cons b bytes ih =>
    rw [List.length_cons] at hroom
    have hwrite : write first b.toNat d = .ok () (d.put first (UInt8.ofNat b.toNat)) := by
      unfold write
      rw [position_of_lt (by omega)]
      exact if_pos b.toNat_lt
    refine Succeeds.bind ⟨(), _, hwrite, ih ?_⟩
    rw [size_put]
    omega

end Disk

namespace Machine

variable {m : Machine}

theorem succeeds_ofMemory {r : Except MemoryError α} :
    Succeeds (ofMemory r) m ↔ ∃ a, r = .ok a := by
  constructor
  · rintro ⟨a, m', h⟩
    exact ⟨a, (ofMemory_ok h).1⟩
  · rintro ⟨a, rfl⟩
    exact ⟨a, m, rfl⟩

theorem succeeds_ofDisk {r : Except DiskError α} : Succeeds (ofDisk r) m ↔ ∃ a, r = .ok a := by
  constructor
  · rintro ⟨a, m', h⟩
    exact ⟨a, (ofDisk_ok h).1⟩
  · rintro ⟨a, rfl⟩
    exact ⟨a, m, rfl⟩

theorem succeeds_onMemory {action : BusM Memory α} :
    Succeeds (onMemory action) m ↔ Succeeds action m.memory := by
  obtain ⟨⟨registers, bus, console⟩, disk, debugger, trace, status, config⟩ := m
  unfold Succeeds onMemory onCore Exec.onBus Machine.memory
  dsimp only
  cases action bus <;> simp

theorem succeeds_onDisk {action : DiskM α} : Succeeds (onDisk action) m ↔ Succeeds action m.disk := by
  obtain ⟨core, disk, debugger, trace, status, config⟩ := m
  unfold Succeeds onDisk
  dsimp only
  cases action disk <;> simp

/-- So many bytes from an address on lie in the page if the end of their range can be computed and
the range is one. -/
theorem rangeEnd_checkRange_iff {address count : Nat} :
    (∃ stop, Memory.rangeEnd address count = .ok stop ∧ Memory.checkRange address stop = .ok ()) ↔
      address < pageSize ∧ address + count ≤ pageSize := by
  constructor
  · rintro ⟨stop, hstop, hrange⟩
    obtain rfl := Words.rangeEnd_ok hstop
    have := (Memory.checkRange_eq_ok _ _).1 hrange
    omega
  · rintro ⟨haddress, hroom⟩
    have hlimit : pageSize < Text.wordLimit := by decide
    exact ⟨_, if_pos (by omega), (Memory.checkRange_eq_ok _ _).2 (by omega)⟩

theorem succeeds_writeToDisk {address first count : Nat} :
    Succeeds (writeToDisk address first count) m ↔
      first + count ≤ m.disk.size ∧ address < pageSize ∧ address + count ≤ pageSize := by
  change Succeeds (ofDisk (m.disk.checkSectors first count) >>= fun _ => _) m ↔ _
  rw [← rangeEnd_checkRange_iff, ← Words.checkSectors_eq_ok_iff]
  constructor
  · rintro ⟨n, m', h⟩
    obtain ⟨_, m₁, hcheck, h⟩ := of_bind_ok h
    obtain ⟨hsectors, rfl⟩ := ofDisk_ok hcheck
    obtain ⟨stop, m₂, hend, h⟩ := of_bind_ok h
    obtain ⟨hstop, rfl⟩ := ofMemory_ok hend
    obtain ⟨bytes, m₃, hread, -⟩ := of_bind_ok h
    have hrange := (Memory.exists_block_iff _).1 ⟨bytes, (ofMemory_ok hread).1⟩
    exact ⟨hsectors, stop, hstop, (Memory.checkRange_eq_ok _ _).2 hrange⟩
  · rintro ⟨hsectors, stop, hstop, hrange⟩
    obtain ⟨bytes, hblock⟩ := (Memory.exists_block_iff m.memory).2 ((Memory.checkRange_eq_ok _ _).1 hrange)
    have hlength : bytes.length = count := by
      rw [(Words.length_of_block hblock).1, Words.rangeEnd_ok hstop]
      omega
    have hwrite : Succeeds (Disk.writeEach first bytes) m.disk :=
      Disk.succeeds_writeEach bytes (by rw [hlength]; exact Words.checkSectors_eq_ok_iff.1 hsectors)
    rw [hsectors, hstop]
    refine Succeeds.bind ⟨(), m, rfl, Succeeds.bind ⟨stop, m, rfl, ?_⟩⟩
    rw [hblock]
    exact Succeeds.bind ⟨bytes, m, rfl, Succeeds.map_iff.2 (succeeds_onDisk.2 hwrite)⟩

theorem succeeds_readFromDisk {address first count : Nat} :
    Succeeds (readFromDisk address first count) m ↔
      first + count ≤ m.disk.size ∧ address < pageSize ∧ address + count ≤ pageSize := by
  change Succeeds (ofDisk (m.disk.checkSectors first count) >>= fun _ => _) m ↔ _
  rw [← rangeEnd_checkRange_iff, ← Words.checkSectors_eq_ok_iff]
  constructor
  · rintro ⟨n, m', h⟩
    obtain ⟨_, m₁, hcheck, h⟩ := of_bind_ok h
    obtain ⟨hsectors, rfl⟩ := ofDisk_ok hcheck
    obtain ⟨stop, m₂, hend, h⟩ := of_bind_ok h
    obtain ⟨hstop, rfl⟩ := ofMemory_ok hend
    obtain ⟨_, m₃, hbounds, -⟩ := of_bind_ok h
    exact ⟨hsectors, stop, hstop, (ofMemory_ok hbounds).1⟩
  · rintro ⟨hsectors, stop, hstop, hrange⟩
    have hlength : (m.disk.sectors first (first + count)).length ≤ count := by
      simp [Disk.sectors]
    have hwrite : Succeeds (Memory.writeActive address (m.disk.sectors first (first + count))) m.memory := by
      have hroom := rangeEnd_checkRange_iff.1 ⟨stop, hstop, hrange⟩
      exact Memory.succeeds_writeActive.2 (by omega)
    rw [hsectors, hstop]
    refine Succeeds.bind ⟨(), m, rfl, Succeeds.bind ⟨stop, m, rfl, ?_⟩⟩
    rw [hrange]
    exact Succeeds.bind ⟨(), m, rfl, Succeeds.map_iff.2 (succeeds_onMemory.2 hwrite)⟩

end Machine

/-! ## The operations -/

/-- An operation on ranges, with any numbers. -/
inductive RangeOperation
  | enter (address : Nat) (text : String)
  | fill (start stop : Nat) (pattern : List UInt8)
  | move (start stop destination : Nat)
  | search (start : Nat) (pattern : List UInt8)
  | compare (start stop destination : Nat)
  | dump (start stop : Nat)
  | dumpDisk (start stop : Nat)
  | writeToDisk (address first count : Nat)
  | readFromDisk (address first count : Nat)
  deriving DecidableEq, Repr

namespace RangeOperation

def command : RangeOperation → Command
  | enter address text => .enter address text
  | fill start stop pattern => .fill start stop pattern
  | move start stop destination => .move start stop destination
  | search start pattern => .search start pattern
  | compare start stop destination => .compare start stop destination
  | dump start stop => .dump start stop
  | dumpDisk start stop => .dumpDisk start stop
  | writeToDisk address first count => .writeToDisk address first count
  | readFromDisk address first count => .readFromDisk address first count

open CommandOutput in
def inWords : RangeOperation → WordM Error Machine CommandOutput
  | enter address text => do
    Words.onMemory (Words.writeActive address (Text.bytes text))
    pure nothing
  | fill start stop pattern => do
    Words.onMemory (Words.fill start stop pattern)
    pure nothing
  | move start stop destination => do
    Words.onMemory (Words.move start stop destination)
    pure nothing
  | search start pattern => return ofLines (← Words.onMemory (Words.search start pattern))
  | compare start stop destination =>
    return ofLines (← Words.onMemory (Words.compare start stop destination))
  | dump start stop => return ofLines (← Words.onMemory (Words.dump start stop))
  | dumpDisk start stop => return ofLines (← Words.onDisk (Words.dumpDisk start stop))
  | writeToDisk address first count => do
    let n ← Words.writeToDisk address first count
    return ofLine s!"{n} byte(s) written to disk"
  | readFromDisk address first count => do
    let n ← Words.readFromDisk address first count
    return ofLine s!"{n} byte(s) read from disk"

/-- The ranges of the operation lie in the page and on a disk of so many sectors. -/
def InRange (size : Nat) : RangeOperation → Prop
  | enter address text => address < pageSize ∧ address + (Text.bytes text).length ≤ pageSize
  | fill start stop _ | dump start stop => start < pageSize ∧ start ≤ stop ∧ stop ≤ pageSize
  | move start stop destination | compare start stop destination =>
    (start < pageSize ∧ start ≤ stop ∧ stop ≤ pageSize) ∧
      destination < pageSize ∧ destination + (stop - start) ≤ pageSize
  | search start _ => start < pageSize
  | dumpDisk start stop => start ≤ stop ∧ stop ≤ size
  | writeToDisk address first count | readFromDisk address first count =>
    first + count ≤ size ∧ address < pageSize ∧ address + count ≤ pageSize

/-- A text is no longer than a list can be. -/
def Fits : RangeOperation → Prop
  | enter _ text => (Text.bytes text).length < 2 ^ 63
  | _ => True

variable {m : Machine}

theorem realizes_inWords (host : Host) (op : RangeOperation) (hsize : m.disk.size < 2 ^ 63)
    (hfits : op.Fits) : Realizes op.inWords (op.command.perform host) m := by
  cases op with
  | enter address text =>
    have henter := Words.realizes_writeActive address m.memory hfits
    exact Realizes.map _ (Words.realizes_onMemory henter)
  | fill start stop pattern =>
    have hfill := Words.realizes_fill start stop pattern m.memory
    exact Realizes.map _ (Words.realizes_onMemory hfill)
  | move start stop destination =>
    have hmove := Words.realizes_move start stop destination m.memory
    exact Realizes.map _ (Words.realizes_onMemory hmove)
  | search start pattern =>
    have hsearch := Words.realizes_search start pattern m.memory
    exact Realizes.look _ (Words.realizes_ofMemory hsearch)
  | compare start stop destination =>
    have hcompare := Words.realizes_compare start stop destination m.memory
    exact Realizes.look _ (Words.realizes_ofMemory hcompare)
  | dump start stop =>
    have hdump := Words.realizes_dump start stop m.memory
    exact Realizes.look _ (Words.realizes_ofMemory hdump)
  | dumpDisk start stop =>
    have hdump := Words.realizes_dumpDisk start stop hsize
    exact Realizes.look _ (Words.realizes_ofDisk hdump)
  | writeToDisk address first count =>
    exact Realizes.map _ (Words.realizes_writeToDisk address first count hsize)
  | readFromDisk address first count =>
    exact Realizes.map _ (Words.realizes_readFromDisk address first count hsize)

theorem succeeds_command (host : Host) (op : RangeOperation) :
    Succeeds (op.command.perform host) m ↔ op.InRange m.disk.size := by
  cases op with
  | enter address text =>
    exact Succeeds.map_iff.trans (Machine.succeeds_onMemory.trans Memory.succeeds_writeActive)
  | fill start stop pattern =>
    exact Succeeds.map_iff.trans (Machine.succeeds_onMemory.trans Memory.succeeds_fill)
  | move start stop destination =>
    exact Succeeds.map_iff.trans (Machine.succeeds_onMemory.trans Memory.succeeds_move)
  | search start pattern =>
    exact Succeeds.look_iff.trans (Machine.succeeds_ofMemory.trans Memory.exists_search_iff)
  | compare start stop destination =>
    exact Succeeds.look_iff.trans (Machine.succeeds_ofMemory.trans Memory.exists_compare_iff)
  | dump start stop =>
    exact Succeeds.look_iff.trans (Machine.succeeds_ofMemory.trans Memory.exists_dump_iff)
  | dumpDisk start stop =>
    exact Succeeds.look_iff.trans (Machine.succeeds_ofDisk.trans Disk.exists_dump_iff)
  | writeToDisk address first count => exact Succeeds.map_iff.trans Machine.succeeds_writeToDisk
  | readFromDisk address first count => exact Succeeds.map_iff.trans Machine.succeeds_readFromDisk

/-- **Checks of ranges are exact.** With any arguments, on a machine whose disk has fewer than 2^63
sectors, each operation on ranges comes to the same on words as on numbers without bound. No sum leaves the
64 bits, no difference is negative, and no part or element is taken that a list does not have. It succeeds
exactly if its ranges lie in the page and on the disk. -/
theorem ranges_exact (host : Host) (op : RangeOperation) (m : Machine) (hsize : m.disk.size < 2 ^ 63)
    (hfits : op.Fits) :
    op.inWords m = refusing (op.command.perform host m) ∧
      (∀ m', op.inWords m ≠ .error .trap m') ∧
      (Succeeds (op.command.perform host) m ↔ op.InRange m.disk.size) := by
  have hwords : op.inWords m = refusing (op.command.perform host m) :=
    realizes_inWords host op hsize hfits
  refine ⟨hwords, fun m' => ?_, succeeds_command host op⟩
  rw [hwords]
  exact refusing_ne_trap _ _

/-- The last byte of the page may be compared with itself, and a sum past 2^64 is refused. -/
theorem ranges_exact_edges :
    let m := Machine.standard "" (.ofInput [])
    let host : Host := fun _ => .error .notFound
    let last := RangeOperation.compare 0xFFFF 0x10000 0xFFFF
    let past := RangeOperation.writeToDisk 0 0xFFFFFFFFFFFFFFFF 2
    m.disk.size < 2 ^ 63 ∧ last.Fits ∧ past.Fits ∧
      Succeeds (last.command.perform host) m ∧ ¬Succeeds (past.command.perform host) m ∧
      ∀ m', past.inWords m ≠ .error .trap m' := by
  intro m host last past
  have hdisk : m.disk.size = 512 := by simp [m, Machine.standard, Disk.size, Disk.blank, Config.standard]
  have hsize : m.disk.size < 2 ^ 63 := by omega
  obtain ⟨-, -, hlast⟩ := ranges_exact host last m hsize trivial
  obtain ⟨-, htrap, hpast⟩ := ranges_exact host past m hsize trivial
  refine ⟨hsize, trivial, trivial, hlast.2 ?_, fun h => ?_, htrap⟩
  · simp [last, InRange, pageSize]
  · obtain ⟨hsectors, -⟩ := hpast.1 h
    omega

end RangeOperation

end DosMonitor
