import DosMonitor.Text.Blank
import DosMonitor.Text.Numeral
import DosMonitor.Register
import DosMonitor.Flags
import DosMonitor.Error

/-!
# The register file

The register file holds the present values of registers and flags and, beside them, the values of
before: `set` notes the old value of the register it writes, `setFlag` and `updateFlags` note the old
flags, and `commit` makes the present the past. What differs between the two is the change report
(`changes`), which the register listing marks with `*`.

Main statements: writing a register stores the low 16 bits and touches no other register
(`get_set_self`, `get_set_ne`), and a committed register file reports no change (`changes_commit`).
-/

namespace DosMonitor

/-- One 16-bit value for each register. -/
@[ext] structure Bank where
  cells : Vector UInt16 14
  deriving DecidableEq, Repr

namespace Bank

def zero : Bank :=
  ⟨Vector.replicate 14 0⟩

def get (b : Bank) (r : Register) : UInt16 :=
  b.cells[r.index]

def set (b : Bank) (r : Register) (value : UInt16) : Bank :=
  ⟨b.cells.set r.index value r.index.isLt⟩

@[simp] theorem get_set_self (b : Bank) (r : Register) (value : UInt16) :
    (b.set r value).get r = value := by
  simp [get, set]

theorem get_set_ne (b : Bank) {r s : Register} (value : UInt16) (h : s ≠ r) :
    (b.set r value).get s = b.get s := by
  have : r.index.val ≠ s.index.val := fun e => h (Register.index_inj.1 (Fin.ext e)).symm
  simp [get, set, this]

theorem ext_get {a b : Bank} (h : ∀ r, a.get r = b.get r) : a = b := by
  have onto : ∀ i : Fin 14, ∃ r : Register, r.index = i := by
    have : ∀ i : Fin 14, ∃ r ∈ Register.all, r.index = i := by decide
    exact fun i => (this i).imp fun _ hr => hr.2
  refine Bank.ext (Vector.ext fun i hi => ?_)
  obtain ⟨r, hr⟩ := onto ⟨i, hi⟩
  simpa [get, hr] using h r

end Bank

/-- The values of registers and flags at one time. -/
@[ext] structure Snapshot where
  values : Bank
  flags : Flags
  deriving DecidableEq, Repr

/-- A register with its values at two times. -/
structure RegisterChange where
  register : Register
  old : UInt16
  new : UInt16
  deriving DecidableEq, Repr

/-- A flag with its values at two times. -/
structure FlagChange where
  flag : Flag
  old : Bool
  new : Bool
  deriving DecidableEq, Repr

/-- A register name, its old value and its new one. -/
def RegisterChange.text (c : RegisterChange) : String :=
  s!"{c.register.name} {Text.hex 4 c.old.toNat}->{Text.hex 4 c.new.toNat}"

/-- A flag as the digit one or zero. -/
def bitText (b : Bool) : String :=
  if b then "1" else "0"

/-- A flag name, its old value and its new one. -/
def FlagChange.text (c : FlagChange) : String :=
  s!"{c.flag.name} {bitText c.old}->{bitText c.new}"

namespace Snapshot

def zero : Snapshot :=
  ⟨Bank.zero, Flags.clear⟩

/-- The registers of which the values differ, in the order of the listing. -/
def registerChanges (before after : Snapshot) : List RegisterChange :=
  (Register.all.filter fun r => before.values.get r != after.values.get r).map fun r =>
    ⟨r, before.values.get r, after.values.get r⟩

/-- The flags of which the values differ, in the order of the listing. -/
def flagChanges (before after : Snapshot) : List FlagChange :=
  (Flag.all.filter fun f => before.flags.get f != after.flags.get f).map fun f =>
    ⟨f, before.flags.get f, after.flags.get f⟩

end Snapshot

/-- The registers and flags, and what they were before. -/
@[ext] structure RegisterFile where
  now : Snapshot
  /-- The values of before, each as of its last writing or of the last `commit`. -/
  before : Snapshot
  deriving DecidableEq, Repr

/-- The register that a text names, blanks around it being passed over. -/
def Register.ofText (text : String) : Except ExecError Register :=
  match ofName? (Text.trim text.toList) with
  | some r => .ok r
  | none => .error (.invalidRegister text)

namespace RegisterFile

def zero : RegisterFile :=
  ⟨Snapshot.zero, Snapshot.zero⟩

def get (rf : RegisterFile) (r : Register) : UInt16 :=
  rf.now.values.get r

def flags (rf : RegisterFile) : Flags :=
  rf.now.flags

/-- Stores the low 16 bits of `value`, noting what was there before. -/
def set (rf : RegisterFile) (r : Register) (value : Nat) : RegisterFile where
  now := { rf.now with values := rf.now.values.set r (UInt16.ofNat value) }
  before := { rf.before with values := rf.before.values.set r (rf.get r) }

def high (rf : RegisterFile) (r : Register) : UInt8 :=
  UInt8.ofNat ((rf.get r).toNat / 0x100)

def low (rf : RegisterFile) (r : Register) : UInt8 :=
  UInt8.ofNat (rf.get r).toNat

/-- Writes the high byte of a register and keeps its low byte. -/
def setHigh (rf : RegisterFile) (r : Register) (value : UInt8) : RegisterFile :=
  rf.set r (value.toNat * 0x100 + (rf.get r).toNat % 0x100)

/-- Writes the low byte of a register and keeps its high byte. -/
def setLow (rf : RegisterFile) (r : Register) (value : UInt8) : RegisterFile :=
  rf.set r ((rf.get r).toNat / 0x100 * 0x100 + value.toNat)

/-- Gives one flag a value, noting what all flags were. -/
def setFlag (rf : RegisterFile) (flag : Flag) (value : Bool) : RegisterFile where
  now := { rf.now with flags := rf.now.flags.set flag value }
  before := { rf.before with flags := rf.now.flags }

/-- Lets the flags follow the result of an operation, noting what all flags were. -/
def updateFlags (rf : RegisterFile) (result : Nat) (family : Option FlagFamily)
    (carry : Option Bool) : RegisterFile where
  now := { rf.now with flags := rf.now.flags.ofResult result family carry }
  before := { rf.before with flags := rf.now.flags }

/-- Makes the present the past, so that the change report starts anew. -/
def commit (rf : RegisterFile) : RegisterFile :=
  ⟨rf.now, rf.now⟩

/-- The value of the register that a text names. -/
def getNamed (rf : RegisterFile) (name : String) : Except ExecError UInt16 :=
  (Register.ofText name).map rf.get

/-- Stores the low 16 bits of a value into the register that a text names. -/
def setNamed (rf : RegisterFile) (name : String) (value : Nat) : Except ExecError RegisterFile :=
  (Register.ofText name).map (rf.set · value)

def changes (rf : RegisterFile) : List RegisterChange :=
  rf.before.registerChanges rf.now

def changed (rf : RegisterFile) (r : Register) : Bool :=
  rf.before.values.get r != rf.now.values.get r

/-- One register of the listing, with a mark if it differs from what it was before. -/
def cell (rf : RegisterFile) (r : Register) : String :=
  let mark := if rf.changed r then "*" else " "
  s!"{r.name}={Text.hex 4 (rf.get r).toNat}{mark}"

/-- The register listing: general registers, segment registers, flags. -/
def listing (rf : RegisterFile) : List String :=
  [" ".intercalate (Register.general.map rf.cell),
   " ".intercalate (Register.segments.map rf.cell),
   " ".intercalate (Flag.all.map fun f => s!"{f.name}={bitText (rf.flags.get f)}")]

@[simp] theorem get_set_self (rf : RegisterFile) (r : Register) (value : Nat) :
    (rf.set r value).get r = UInt16.ofNat value := by
  simp [get, set]

theorem get_set_ne (rf : RegisterFile) {r s : Register} (value : Nat) (h : s ≠ r) :
    (rf.set r value).get s = rf.get s := by
  simp [get, set, Bank.get_set_ne _ _ h]

@[simp] theorem get_updateFlags (rf : RegisterFile) (result : Nat) (family : Option FlagFamily)
    (carry : Option Bool) (r : Register) :
    (rf.updateFlags result family carry).get r = rf.get r := rfl

@[simp] theorem changes_commit (rf : RegisterFile) : rf.commit.changes = [] := by
  simp [changes, commit, Snapshot.registerChanges]

end RegisterFile

end DosMonitor
