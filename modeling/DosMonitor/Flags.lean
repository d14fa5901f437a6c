import DosMonitor.Text.Letters

/-!
# The four flags

Zero, sign, parity and carry. `Flags.ofResult` says what the first three are after an operation: they
follow its 16-bit result, and the carry stays. Which operations move the carry is a property of their
family (`FlagFamily.definesCarry`).
-/

namespace DosMonitor

inductive Flag
  | zf | sf | pf | cf
  deriving DecidableEq, Repr

namespace Flag

/-- All flags, in the order in which they are listed. -/
def all : List Flag :=
  [zf, sf, pf, cf]

def name : Flag → String
  | zf => "ZF" | sf => "SF" | pf => "PF" | cf => "CF"

/-- The flag of the given name, in either case. -/
def ofName? (text : List Char) : Option Flag :=
  all.find? fun f => Text.sameName f.name.toList text

@[simp] theorem mem_all (f : Flag) : f ∈ all := by
  cases f <;> decide

end Flag

/-- The values of the four flags. -/
@[ext] structure Flags where
  zf : Bool
  sf : Bool
  pf : Bool
  cf : Bool
  deriving DecidableEq, Repr

namespace Flags

def clear : Flags :=
  ⟨false, false, false, false⟩

def get (flags : Flags) : Flag → Bool
  | .zf => flags.zf
  | .sf => flags.sf
  | .pf => flags.pf
  | .cf => flags.cf

def set (flags : Flags) (flag : Flag) (value : Bool) : Flags :=
  match flag with
  | .zf => { flags with zf := value }
  | .sf => { flags with sf := value }
  | .pf => { flags with pf := value }
  | .cf => { flags with cf := value }

@[simp] theorem get_set_self (flags : Flags) (f : Flag) (value : Bool) :
    (flags.set f value).get f = value := by
  cases f <;> rfl

theorem get_set_ne (flags : Flags) {f g : Flag} (value : Bool) (h : g ≠ f) :
    (flags.set f value).get g = flags.get g := by
  cases f <;> cases g <;> first | rfl | exact absurd rfl h

theorem ext_get {a b : Flags} (h : ∀ f, a.get f = b.get f) : a = b :=
  Flags.ext (h .zf) (h .sf) (h .pf) (h .cf)

end Flags

/-- The families of operations, as far as the flags are concerned. -/
inductive FlagFamily
  | add | sub | logic | shift | rotate | inc | dec
  deriving DecidableEq, Repr

/-- Whether operations of the family decide the carry. The others leave it as it is. -/
def FlagFamily.definesCarry : FlagFamily → Bool
  | add | sub | logic | shift | rotate => true
  | inc | dec => false

/-- Whether the low byte of `n` has an even number of ones. -/
def evenParity (n : Nat) : Bool :=
  (List.range 8).countP (fun i => n.testBit i) % 2 == 0

/-- The flags after an operation. Zero, sign and parity follow the low 16 bits of the result; the
carry takes the given value when the family decides it and a value is given. -/
def Flags.ofResult (flags : Flags) (result : Nat) (family : Option FlagFamily)
    (carry : Option Bool) : Flags where
  zf := result % 0x10000 == 0
  sf := result.testBit 15
  pf := evenParity result
  cf :=
    match family, carry with
    | some family, some carry => if family.definesCarry then carry else flags.cf
    | _, _ => flags.cf

end DosMonitor
