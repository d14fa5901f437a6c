import DosMonitor.Text.Letters

/-!
# The fourteen registers

Eight general registers and six segment registers, all of 16 bits. A name is read in either case
(`ofName?`), and the eight general registers have a field of three bits in the machine's byte code
(`field?`), segment registers none.

Main statements: reading a name gives the register of that name (`ofName?_name`), and no two
registers share a position (`index_inj`).
-/

namespace DosMonitor

inductive Register
  | ax | bx | cx | dx | sp | bp | si | di
  | cs | ds | ss | es | fs | gs
  deriving DecidableEq, Repr

namespace Register

/-- The general registers, in the order in which they are listed. -/
def general : List Register :=
  [ax, bx, cx, dx, sp, bp, si, di]

/-- The segment registers, in the order in which they are listed. -/
def segments : List Register :=
  [cs, ds, ss, es, fs, gs]

def all : List Register :=
  general ++ segments

def name : Register → String
  | ax => "AX" | bx => "BX" | cx => "CX" | dx => "DX"
  | sp => "SP" | bp => "BP" | si => "SI" | di => "DI"
  | cs => "CS" | ds => "DS" | ss => "SS" | es => "ES" | fs => "FS" | gs => "GS"

/-- The position of the register in the register file. -/
def index : Register → Fin 14
  | ax => 0 | bx => 1 | cx => 2 | dx => 3
  | sp => 4 | bp => 5 | si => 6 | di => 7
  | cs => 8 | ds => 9 | ss => 10 | es => 11 | fs => 12 | gs => 13

/-- The register of the given name, in either case. -/
def ofName? (text : List Char) : Option Register :=
  all.find? fun r => Text.sameName r.name.toList text

/-- The three bits that stand for a general register in the byte code. -/
def field? : Register → Option (Fin 8)
  | ax => some 0 | cx => some 1 | dx => some 2 | bx => some 3
  | sp => some 4 | bp => some 5 | si => some 6 | di => some 7
  | _ => none

@[simp] theorem mem_all (r : Register) : r ∈ all := by
  cases r <;> decide

theorem index_inj {r s : Register} : r.index = s.index ↔ r = s := by
  revert r s
  have general : ∀ r ∈ all, ∀ s ∈ all, r.index = s.index ↔ r = s := by decide
  exact fun {r s} => general r (mem_all r) s (mem_all s)

@[simp] theorem ofName?_name (r : Register) : ofName? r.name.toList = some r := by
  cases r <;> decide

end Register

end DosMonitor
