import DosMonitor.Proofs.BlockWrites

/-!
# Transfers between memory and disk

A transfer checks its sectors and its addresses before it moves the first byte, so it moves all of them or none.
Sectors are written one by one (`Overwritten.cons`); each write succeeds because the check before it has let the
whole row through.

Main statement (`transfers_exact`): a transfer changes the one row of cells that it goes to, which then holds
what the other row holds. So bytes that go to the disk and come back are the same bytes, and sectors that go to
memory and back leave the disk as it was.
-/

namespace DosMonitor

namespace Disk

variable {d d' : Disk} {first count : Nat} {bytes : List UInt8} {contents contents' : Nat → Option UInt8}

def sector? (d : Disk) (sector : Nat) : Option UInt8 :=
  d.blocks[sector]?

/-- A row of sectors has new contents, and nothing else on the disk has changed. -/
structure Rewritten (d d' : Disk) (first count : Nat) (contents : Nat → Option UInt8) : Prop where
  path : d'.path = d.path
  size : d'.size = d.size
  row : Overwritten d.sector? d'.sector? first count contents

theorem Rewritten.congr (h : d.Rewritten d' first count contents)
    (hcontents : ∀ i < count, contents i = contents' i) : d.Rewritten d' first count contents' :=
  { h with row := h.row.congr hcontents }

/-- A sector is read as its value. -/
theorem read_eq_ok_iff {sector : Nat} {b : UInt8} :
    d.read sector = .ok b ↔ d.sector? sector = some b := by
  unfold read sector?
  by_cases hsector : sector < d.size
  · have hcell : sector < d.blocks.size := hsector
    simp [position_of_lt hsector, bind, Except.bind, pure, Except.pure, hcell]
  · have hnone : ¬sector < d.blocks.size := hsector
    cases hposition : d.position sector with
    | error e => simp [bind, Except.bind, hnone]
    | ok i =>
      obtain ⟨hi, heq⟩ := position_eq_ok_iff.1 hposition
      omega

theorem sector?_put (hfirst : first < d.size) (b : UInt8) (sector : Nat) :
    (d.put first b).sector? sector = if sector = first then some b else d.sector? sector := by
  have hcell : first < d.blocks.size := hfirst
  unfold sector? put
  by_cases hsector : sector = first
  · subst hsector
    simp [hcell]
  · simp [hsector, Ne.symm hsector]

/-- A write that succeeds has its sector. -/
theorem write_ok {sector : Nat} {b : UInt8} (h : write sector b.toNat d = .ok () d') :
    sector < d.size ∧ d' = d.put sector b := by
  unfold write at h
  cases hposition : d.position sector with
  | error e =>
    rw [hposition] at h
    cases h
  | ok i =>
    obtain ⟨hi, heq⟩ := position_eq_ok_iff.1 hposition
    obtain rfl : sector = i := by omega
    rw [hposition] at h
    dsimp only at h
    rw [if_pos b.toNat_lt, UInt8.ofNat_toNat] at h
    exact ⟨hi, (EStateM.Result.ok.inj h).2.symm⟩

/-- Bytes go to one sector after the other. -/
theorem rewritten_writeEach (h : writeEach first bytes d = .ok () d') :
    d.Rewritten d' first bytes.length (bytes[·]?) := by
  induction bytes generalizing d first with
  | nil =>
    obtain ⟨-, rfl⟩ := EStateM.Result.ok.inj h
    exact ⟨rfl, rfl, .refl _ _ _⟩
  | cons b bytes ih =>
    obtain ⟨_, t, hwrite, hrest⟩ := of_bind_ok h
    obtain ⟨hsector, rfl⟩ := write_ok hwrite
    obtain ⟨hpath, hsize, hrow⟩ := ih hrest
    exact ⟨hpath, hsize.trans (size_put ..), .cons (sector?_put hsector b) hrow⟩

theorem getElem?_sectors (d : Disk) {i : Nat} (hi : i < count) :
    (d.sectors first (first + count))[i]? = d.sector? (first + i) := by
  unfold sectors sector?
  simp [hi]

theorem length_sectors (hroom : first + count ≤ d.size) :
    (d.sectors first (first + count)).length = count := by
  unfold size at hroom
  simp [sectors]
  omega

/-- A disk is its path and its sectors. -/
theorem ext_sector? (hpath : d'.path = d.path) (hsectors : ∀ sector, d'.sector? sector = d.sector? sector) :
    d' = d := by
  obtain ⟨path, blocks⟩ := d
  obtain ⟨path', blocks'⟩ := d'
  obtain rfl : path' = path := hpath
  obtain rfl : blocks' = blocks := Array.ext_getElem? hsectors
  rfl

end Disk

namespace Machine

variable {m m' : Machine} {address first count n : Nat}

/-- So many bytes of the active page have gone to the disk, and nothing else has changed. -/
structure Stored (m m' : Machine) (address first count : Nat) : Prop where
  rest : m' = { m with disk := m'.disk }
  disk : m.disk.Rewritten m'.disk first count fun i => m.memory.activeByte? (address + i)

/-- So many sectors have gone to the active page, and nothing else has changed. -/
structure Fetched (m m' : Machine) (address first count : Nat) : Prop where
  rest : m' = { m with core := { m.core with bus := m'.memory } }
  memory : m.memory.Rewritten m'.memory address count fun i => m.disk.sector? (first + i)

theorem Stored.memory_eq (h : m.Stored m' address first count) : m'.memory = m.memory := by
  rw [h.rest]
  rfl

theorem Fetched.disk_eq (h : m.Fetched m' address first count) : m'.disk = m.disk := by
  rw [h.rest]

theorem onMemory_ok {α : Type} {x : BusM Memory α} {a : α} (h : onMemory x m = .ok a m') :
    x m.memory = .ok a m'.memory ∧ m' = { m with core := { m.core with bus := m'.memory } } := by
  obtain ⟨⟨registers, bus, console⟩, disk, debugger, trace, status, config⟩ := m
  unfold onMemory onCore Exec.onBus at h
  dsimp only [memory] at h ⊢
  cases hx : x bus with
  | ok b bus' =>
    rw [hx] at h
    obtain ⟨rfl, rfl⟩ := EStateM.Result.ok.inj h
    exact ⟨rfl, rfl⟩
  | error e bus' =>
    rw [hx] at h
    cases h

theorem onDisk_ok {α : Type} {x : DiskM α} {a : α} (h : onDisk x m = .ok a m') :
    x m.disk = .ok a m'.disk ∧ m' = { m with disk := m'.disk } := by
  obtain ⟨core, disk, debugger, trace, status, config⟩ := m
  unfold onDisk at h
  dsimp only at h ⊢
  cases hx : x disk with
  | ok b disk' =>
    rw [hx] at h
    obtain ⟨rfl, rfl⟩ := EStateM.Result.ok.inj h
    exact ⟨rfl, rfl⟩
  | error e disk' =>
    rw [hx] at h
    cases h

theorem stored_writeToDisk (h : writeToDisk address first count m = .ok n m') :
    n = count ∧ m.Stored m' address first count := by
  change (ofDisk (m.disk.checkSectors first count) >>= fun _ => _) m = _ at h
  -- all parts in front of the write leave the machine as it is
  obtain ⟨_, m₁, hcheck, h₁⟩ := of_bind_ok h
  obtain ⟨-, rfl⟩ := ofDisk_ok hcheck
  obtain ⟨stop, m₂, hend, h₂⟩ := of_bind_ok h₁
  obtain ⟨hstop, rfl⟩ := ofMemory_ok hend
  obtain ⟨bytes, m₃, hread, h₃⟩ := of_bind_ok h₂
  obtain ⟨hblock, rfl⟩ := ofMemory_ok hread
  obtain ⟨_, m₄, hwrite, h₄⟩ := of_bind_ok h₃
  obtain ⟨rfl, rfl⟩ := EStateM.Result.ok.inj h₄
  obtain ⟨hdisk, hrest⟩ := onDisk_ok hwrite
  obtain rfl := Words.rangeEnd_ok hstop
  have hlength : bytes.length = count := by
    rw [(Words.length_of_block hblock).1]
    omega
  have hrow := Disk.rewritten_writeEach hdisk
  rw [hlength] at hrow
  exact ⟨rfl, hrest, hrow.congr fun i hi => Memory.getElem?_block hblock (by omega)⟩

theorem fetched_readFromDisk (h : readFromDisk address first count m = .ok n m') :
    n = count ∧ m.Fetched m' address first count := by
  change (ofDisk (m.disk.checkSectors first count) >>= fun _ => _) m = _ at h
  obtain ⟨_, m₁, hcheck, h₁⟩ := of_bind_ok h
  obtain ⟨hsectors, rfl⟩ := ofDisk_ok hcheck
  obtain ⟨stop, m₂, hend, h₂⟩ := of_bind_ok h₁
  obtain ⟨-, rfl⟩ := ofMemory_ok hend
  obtain ⟨_, m₃, hbounds, h₃⟩ := of_bind_ok h₂
  obtain ⟨-, rfl⟩ := ofMemory_ok hbounds
  obtain ⟨_, m₄, hwrite, h₄⟩ := of_bind_ok h₃
  obtain ⟨rfl, rfl⟩ := EStateM.Result.ok.inj h₄
  obtain ⟨hmemory, hrest⟩ := onMemory_ok hwrite
  have hblock := Memory.rewritten_writeActive hmemory
  rw [Disk.length_sectors (Words.checkSectors_eq_ok_iff.1 hsectors)] at hblock
  exact ⟨rfl, hrest, hblock.congr fun i hi => Disk.getElem?_sectors _ hi⟩

/-! ## There and back -/

/-- Bytes that have gone to the disk and come back are what they were when they went. -/
theorem Stored.fetched {m₁ m₂ : Machine} {place : Nat} (hstored : m.Stored m₁ address first count)
    (hfetched : m₁.Fetched m₂ place first count) :
    m.memory.Rewritten m₂.memory place count fun i => m.memory.activeByte? (address + i) := by
  have hback := hfetched.memory.congr hstored.disk.row.inside
  rwa [hstored.memory_eq] at hback

/-- Sectors that have gone to memory and back are what they were. -/
theorem Fetched.stored {m₁ m₂ : Machine} (hfetched : m.Fetched m₁ address first count)
    (hstored : m₁.Stored m₂ address first count) : m₂.disk = m.disk := by
  obtain ⟨hpath, -, hinside, houtside⟩ := hstored.disk
  rw [hfetched.disk_eq] at hpath houtside
  refine Disk.ext_sector? hpath fun sector => ?_
  by_cases hrow : first ≤ sector ∧ sector < first + count
  · obtain ⟨i, rfl⟩ := Nat.exists_eq_add_of_le hrow.1
    have hi : i < count := by omega
    rw [hinside i hi]
    exact hfetched.memory.block.inside i hi
  · exact houtside sector (by omega)

/-- **Transfers are exact, inverse to each other, and whole.** A transfer that succeeds copies each byte of the
block to its sector, or each sector to its byte, and changes nothing else in the machine. Bytes that go to the
disk and come back at any place are the bytes that were there at the beginning, also if the two places overlap;
sectors that go to memory and back leave the disk as it was. A transfer that fails changes nothing. It succeeds
exactly if its sectors are on the disk and its addresses on the page, and as long as the disk has fewer than
2^63 sectors this is so in numbers of 64 bits, too. -/
theorem transfers_exact (m : Machine) (address first count : Nat) :
    (∀ n m', writeToDisk address first count m = .ok n m' →
      n = count ∧ m.Stored m' address first count) ∧
    (∀ n m', readFromDisk address first count m = .ok n m' →
      n = count ∧ m.Fetched m' address first count) ∧
    (∀ n m₁ place k m₂, writeToDisk address first count m = .ok n m₁ →
      readFromDisk place first count m₁ = .ok k m₂ →
        m.memory.Rewritten m₂.memory place count fun i => m.memory.activeByte? (address + i)) ∧
    (∀ n m₁, readFromDisk address first count m = .ok n m₁ →
      ∃ m₂, writeToDisk address first count m₁ = .ok count m₂ ∧ m₂.disk = m.disk) ∧
    Atomic (writeToDisk address first count) m ∧ Atomic (readFromDisk address first count) m ∧
    (Succeeds (writeToDisk address first count) m ↔
      first + count ≤ m.disk.size ∧ address < pageSize ∧ address + count ≤ pageSize) ∧
    (Succeeds (readFromDisk address first count) m ↔
      first + count ≤ m.disk.size ∧ address < pageSize ∧ address + count ≤ pageSize) ∧
    (m.disk.size < 2 ^ 63 →
      Words.writeToDisk address first count m = refusing (writeToDisk address first count m) ∧
        Words.readFromDisk address first count m = refusing (readFromDisk address first count m)) := by
  refine ⟨fun n m' => stored_writeToDisk, fun n m' => fetched_readFromDisk, ?_, ?_,
    atomic_writeToDisk _ _ _ m, atomic_readFromDisk _ _ _ m, succeeds_writeToDisk, succeeds_readFromDisk,
    fun hsize => ⟨Words.realizes_writeToDisk _ _ _ hsize, Words.realizes_readFromDisk _ _ _ hsize⟩⟩
  · intro n m₁ place k m₂ hwrite hread
    exact (stored_writeToDisk hwrite).2.fetched (fetched_readFromDisk hread).2
  · intro n m₁ hread
    have hfetched := (fetched_readFromDisk hread).2
    -- what has let the reading through lets the writing back through
    have hrange := succeeds_readFromDisk.1 ⟨n, m₁, hread⟩
    rw [← hfetched.disk_eq] at hrange
    obtain ⟨k, m₂, hwrite⟩ := succeeds_writeToDisk.2 hrange
    obtain ⟨rfl, hstored⟩ := stored_writeToDisk hwrite
    exact ⟨m₂, hwrite, hfetched.stored hstored⟩

/-- The last two bytes of the page go to the last two sectors and come back one place lower, onto themselves. -/
theorem transfers_exact_overlap :
    let blank := Machine.standard "" (.ofInput [])
    let m := { blank with core := { blank.core with bus := (Memory.ofPages 1).writeRun 0 0xFFFE [7, 8] } }
    m.disk.size < 2 ^ 63 ∧
      Words.writeToDisk 0xFFFE 510 2 m = refusing (writeToDisk 0xFFFE 510 2 m) ∧
      ∃ m₁ m₂ m₃, writeToDisk 0xFFFE 510 2 m = .ok 2 m₁ ∧ m₁.disk.read 511 = .ok 8 ∧
        readFromDisk 0xFFFD 510 2 m₁ = .ok 2 m₂ ∧ m₂.memory.activeByte? 0xFFFD = some 7 ∧
        m₂.memory.activeByte? 0xFFFE = some 8 ∧ m₂.memory.activeByte? 0xFFFF = some 8 ∧
        writeToDisk 0xFFFD 510 2 m₂ = .ok 2 m₃ ∧ m₃.disk = m₁.disk := by
  intro blank m
  have hroom : 0xFFFE + ([7, 8] : List UInt8).length ≤ pageSize := by decide
  have hbytes : ∀ i < 2, m.memory.activeByte? (0xFFFE + i) = [7, 8][i]? :=
    (Memory.rewritten_writeRun (Memory.ofPages 1) hroom).block.inside
  have hdisk : m.disk.size = 512 := by simp [m, blank, Machine.standard, Disk.size, Disk.blank, Config.standard]
  have hsize : m.disk.size < 2 ^ 63 := by omega
  obtain ⟨hwrites, -, hcopies, -, -, -, hwritable, -, hwords⟩ := transfers_exact m 0xFFFE 510 2
  obtain ⟨n, m₁, hwrite⟩ := hwritable.2 (by rw [hdisk]; decide)
  obtain ⟨rfl, hstored⟩ := hwrites n m₁ hwrite
  have hdisk₁ : m₁.disk.size = 512 := hstored.disk.size.trans hdisk
  obtain ⟨-, hreads, -, hreturns, -, -, -, hreadable, -⟩ := transfers_exact m₁ 0xFFFD 510 2
  obtain ⟨k, m₂, hread⟩ := hreadable.2 (by rw [hdisk₁]; decide)
  obtain ⟨rfl, -⟩ := hreads k m₂ hread
  obtain ⟨hinside, houtside⟩ := (hcopies 2 m₁ 0xFFFD 2 m₂ hwrite hread).block
  obtain ⟨m₃, hagain, hsame⟩ := hreturns 2 m₂ hread
  refine ⟨hsize, (hwords hsize).1, m₁, m₂, m₃, hwrite, ?_, hread, ?_, ?_, ?_, hagain, hsame⟩
  · exact Disk.read_eq_ok_iff.2 ((hstored.disk.row.inside 1 (by decide)).trans (hbytes 1 (by decide)))
  · exact (hinside 0 (by decide)).trans (hbytes 0 (by decide))
  · exact (hinside 1 (by decide)).trans (hbytes 1 (by decide))
  · exact (houtside 0xFFFF (by decide)).trans (hbytes 1 (by decide))

end Machine

end DosMonitor
