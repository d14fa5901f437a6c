import DosMonitor.Error
import DosMonitor.Host.Request
import DosMonitor.Host.Path
import DosMonitor.Text.Dump

/-!
# The virtual disk

The disk has a fixed number of sectors of one byte each. It is bound to a file of the host, which is
touched by loading and saving alone.

Main statements: loading and writing keep the size of the disk (`size_fit`, `size_put`), and a sector
that was written is read back (`read_put_self`).
-/

namespace DosMonitor

/-- Sectors of one byte, and the file that they are loaded from and saved to. -/
structure Disk where
  path : String
  blocks : Array UInt8
  deriving DecidableEq, Repr

abbrev DiskM := EStateM DiskError Disk

namespace Disk

/-- A disk of zeros. Its file is named after the disk, with a point in front. -/
def blank (size : Nat) (name directory : String) : Disk :=
  ⟨Path.join directory ("." ++ name), Array.replicate size 0⟩

def size (d : Disk) : Nat :=
  d.blocks.size

/-- The largest sector number that is reported. -/
def maxSector : Nat := 0x7FFFFFFFFFFFFFFF

/-- The position of a sector, which has to exist. -/
def position (d : Disk) (sector : Int) : Except DiskError Nat :=
  if sector < 0 ∨ d.size ≤ sector.toNat then .error (.invalidSector sector d.size)
  else .ok sector.toNat

def read (d : Disk) (sector : Int) : Except DiskError UInt8 := do
  let i ← d.position sector
  return d.blocks[i]?.getD 0

def put (d : Disk) (i : Nat) (value : UInt8) : Disk :=
  { d with blocks := d.blocks.setIfInBounds i value }

/-- Writes a value, which has to fit into a byte, to a sector. -/
def write (sector : Int) (value : Nat) : DiskM Unit := fun d =>
  match d.position sector with
  | .error e => .error e d
  | .ok i =>
    if value < 0x100 then .ok () (d.put i (UInt8.ofNat value))
    else .error (.invalidValue value) d

/-- Writes bytes to one sector after the other. -/
def writeEach : (sector : Nat) → List UInt8 → DiskM Unit
  | _, [] => pure ()
  | sector, b :: bytes => do
    write sector b.toNat
    writeEach (sector + 1) bytes

/-- Fails unless all of so many sectors from the first on exist. -/
def checkSectors (d : Disk) (first count : Nat) : Except DiskError Unit :=
  if first + count ≤ d.size then .ok ()
  else .error (.invalidSector (min (first + count) maxSector : Nat) d.size)

/-- The bytes of sectors from `first` on, up to `stop`. -/
def sectors (d : Disk) (first stop : Nat) : List UInt8 :=
  (d.blocks.extract first stop).toList

/-- As many bytes as the disk has sectors: those given, then zeros. -/
def fit (size : Nat) (contents : List UInt8) : Array UInt8 :=
  (contents.take size ++ List.replicate (size - contents.length) 0).toArray

/-- Takes the contents of the file, cut or filled up with zeros to the size of the disk. Gives the
number of bytes taken from it. -/
def load (host : Host) : DiskM Nat := fun d =>
  match host (.read d.path) with
  | .error fault => .error (.host d.path fault) d
  | .ok contents => .ok (min contents.length d.size) { d with blocks := fit d.size contents }

def saveRequest (d : Disk) : FileRequest :=
  .save d.path d.blocks.toList

/-- Writes all sectors to the file. Gives their number. -/
def save (host : Host) : DiskM Nat := fun d =>
  match host d.saveRequest with
  | .error fault => .error (.host d.path fault) d
  | .ok _ => .ok d.size d

/-- The listing of the sectors from `start` up to `stop`. -/
def dump (d : Disk) (start stop : Nat) : Except DiskError (List String) :=
  if start > stop ∨ stop > d.size then
    let bad := if start > stop then start else stop
    .error (.invalidSector (min bad maxSector : Nat) d.size)
  else .ok (Text.dump (Text.hex 6) start (d.sectors start stop))

@[simp] theorem size_fit (size : Nat) (contents : List UInt8) : (fit size contents).size = size := by
  simp [fit]
  omega

@[simp] theorem size_put (d : Disk) (i : Nat) (value : UInt8) : (d.put i value).size = d.size := by
  simp [put, size]

theorem position_of_lt {d : Disk} {i : Nat} (h : i < d.size) : d.position i = .ok i := by
  unfold position
  rw [if_neg]
  · rfl
  · simp only [Int.toNat_natCast]
    omega

theorem read_put_self {d : Disk} {i : Nat} (h : i < d.size) (value : UInt8) :
    (d.put i value).read i = .ok value := by
  have hput : i < (d.put i value).size := by simpa using h
  have hcell : (d.put i value).blocks[i]? = some value := by
    unfold size at h
    simp [put, h]
  rw [read, position_of_lt hput]
  simp [bind, Except.bind, pure, Except.pure, hcell]

end Disk

end DosMonitor
