import DosMonitor.Source.Line

/-!
# Programs

A program is the list of the executable lines of a source, without comments and blanks around them,
the labels, and the number of the line that runs next. A label names the executable line after it;
of labels with one name the last counts. Line `i` has the address base + i, cut to 16 bits.

A line may have several labels. Which of them is shown for it hangs on the order in which a hash table
goes through its entries, and that order is left open (`LabelOrder`).
-/

namespace DosMonitor

/-- The labels of a program, each with the number of the line it names. -/
abbrev Labels := List (String × Nat)

/-- A loaded program. -/
structure Program where
  lines : Array String
  /-- The labels, with names in capitals. -/
  labels : Labels
  base : UInt16
  pc : Nat
  deriving DecidableEq, Repr

/-- A name as it is kept in the list of labels. -/
def labelKey (name : List Char) : String :=
  .ofList (Text.upper name)

namespace Labels

/-- The labels with one that names a line, in place of any other of that name. -/
def define (labels : Labels) (name : List Char) (line : Nat) : Labels :=
  (labelKey name, line) :: labels.filter fun entry => entry.1 != labelKey name

/-- The line that a name stands for, in either case. -/
def line? (labels : Labels) (name : List Char) : Option Nat :=
  labels.lookup (labelKey name)

end Labels

/-- An order in which labels are gone through. Labels are kept in a hash table, so it is left open. -/
structure LabelOrder where
  arrange : Labels → Labels
  perm : ∀ labels, (arrange labels).Perm labels

/-- The label that has been defined last comes first. -/
def LabelOrder.latestFirst : LabelOrder :=
  ⟨id, fun _ => .refl _⟩

namespace Program

def empty (base : UInt16) : Program :=
  ⟨#[], [], base, 0⟩

/-- The program with one more line of source. -/
def addLine (p : Program) (line : List Char) : Program :=
  match Source.label? line with
  | some name => { p with labels := p.labels.define name p.lines.size }
  | none =>
    let text := Text.trim (Source.code line)
    if text.isEmpty then p else { p with lines := p.lines.push (.ofList text) }

/-- The program of a source, about to run its first line. -/
def ofSource (source : List String) (base : UInt16) : Program :=
  source.foldl (fun p line => p.addLine line.toList) (empty base)

def halted (p : Program) : Bool :=
  p.lines.size ≤ p.pc

def address (p : Program) (line : Nat) : UInt16 :=
  p.base + UInt16.ofNat line

def label? (p : Program) (name : List Char) : Option Nat :=
  p.labels.line? name

/-- The name of the first label of a line. -/
def labelAt? (p : Program) (order : LabelOrder) (line : Nat) : Option String :=
  (List.find? (fun entry => entry.2 == line) (order.arrange p.labels)).map (·.1)

end Program

end DosMonitor
