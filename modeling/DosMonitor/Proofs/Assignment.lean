import Mathlib
import DosMonitor.Proofs.Printing
import DosMonitor.Proofs.Rejection

/-!
# Assignments that are refused

An assignment by name starts the change report anew and looks the name up then. So an assignment to something
that is no register is refused, and values and flags are as before, but what they were before that is forgotten.

Main statement (`setRegister_refused`): a refused assignment is a commit and nothing else. The change report is
empty from then on, so it stays as it was exactly if no change was pending. The same is true of the listing,
which has a mark exactly if there is a change (`exists_star_listing_iff`).
-/

namespace DosMonitor

/-- The text, blanks around it left out, is the name of the register, in either case. -/
def Register.IsNamed (r : Register) (text : String) : Prop :=
  Text.sameName r.name.toList (Text.trim text.toList) = true

theorem Register.ofText_eq (text : String) :
    (∃ r : Register, r.IsNamed text ∧ ofText text = .ok r) ∨
      (¬∃ r : Register, r.IsNamed text) ∧ ofText text = .error (.invalidRegister text) := by
  unfold ofText
  cases hname : ofName? (Text.trim text.toList) with
  | some r => exact .inl ⟨r, Source.register_ofName?_eq_some_iff.1 hname, rfl⟩
  | none =>
    refine .inr ⟨?_, rfl⟩
    rintro ⟨r, hr⟩
    rw [Source.register_ofName?_eq_some_iff.2 hr] at hname
    cases hname

/-- What a joined text holds is the separator's or that of a part. -/
theorem Text.mem_toList_intercalate {c : Char} {separator : String} (h : c ∉ separator.toList)
    {texts : List String} :
    c ∈ (separator.intercalate texts).toList ↔ ∃ text ∈ texts, c ∈ text.toList := by
  induction texts using List.twoStepInduction with
  | nil => simp
  | singleton text => simp
  | cons_cons text text' texts _ ih =>
    rw [String.intercalate_cons_cons, String.toList_append, String.toList_append, List.mem_append,
      List.mem_append, ih text', List.exists_mem_cons_iff]
    simp [h]

/-! ## Marks of the listing -/

namespace RegisterFile

variable (rf : RegisterFile) (r : Register)

theorem changes_eq_nil_iff : rf.changes = [] ↔ ∀ r, rf.changed r = false := by
  unfold changes Snapshot.registerChanges
  rw [List.map_eq_nil_iff, List.filter_eq_nil_iff]
  constructor
  · intro h r
    exact Bool.eq_false_of_not_eq_true (h r (Register.mem_all r))
  · intro h r _ hchanged
    have hsame := h r
    unfold changed at hsame
    rw [hchanged] at hsame
    cases hsame

theorem toList_cell :
    (rf.cell r).toList = r.name.toList ++
      '=' :: (Text.hexChars 4 (rf.get r).toNat ++ [if rf.changed r then '*' else ' ']) := by
  unfold cell
  cases rf.changed r <;> simp [Text.hex, toString]

/-- The mark stands for a change and for nothing else. -/
theorem star_mem_cell_iff : '*' ∈ (rf.cell r).toList ↔ rf.changed r = true := by
  have hname : '*' ∉ r.name.toList := by cases r <;> decide
  have hdigits : '*' ∉ Text.hexChars 4 (rf.get r).toNat := fun h =>
    absurd (Text.isWordChar_of_mem_hexFixed h) (by decide)
  rw [toList_cell]
  cases rf.changed r <;> simp [hname, hdigits]

theorem star_notMem_flag (f : Flag) : '*' ∉ s!"{f.name}={bitText (rf.flags.get f)}".toList := by
  cases f <;> cases rf.flags.get _ <;> decide

/-- Neither the flags nor what is between the cells looks like a mark. -/
theorem exists_star_listing_iff :
    (∃ line ∈ rf.listing, '*' ∈ line.toList) ↔ ∃ r, rf.changed r = true := by
  have hspace : '*' ∉ " ".toList := by decide
  have hcells : ∀ rs : List Register, '*' ∈ (" ".intercalate (rs.map rf.cell)).toList ↔
      ∃ r ∈ rs, rf.changed r = true := by
    intro rs
    simp only [Text.mem_toList_intercalate hspace, List.mem_map, exists_exists_and_eq_and, star_mem_cell_iff]
  have hflags : '*' ∉ (" ".intercalate
      (Flag.all.map fun f => s!"{f.name}={bitText (rf.flags.get f)}")).toList := by
    rw [Text.mem_toList_intercalate hspace]
    rintro ⟨text, htext, hstar⟩
    obtain ⟨f, -, rfl⟩ := List.mem_map.1 htext
    exact rf.star_notMem_flag f hstar
  have hrows : (∃ r, rf.changed r = true) ↔ (∃ r ∈ Register.general, rf.changed r = true) ∨
      ∃ r ∈ Register.segments, rf.changed r = true := by
    simp only [← exists_or, ← or_and_right, ← List.mem_append]
    exact exists_congr fun r => (and_iff_right (Register.mem_all r)).symm
  rw [hrows, ← hcells, ← hcells]
  unfold listing
  simp only [List.exists_mem_cons_iff, hflags, List.not_mem_nil, false_and, exists_false, or_false]

/-! ## What a commit takes away -/

theorem listing_eq_of_changed {a b : RegisterFile} (hnow : a.now = b.now)
    (hchanged : ∀ r, a.changed r = b.changed r) : a.listing = b.listing := by
  have hcell : a.cell = b.cell := by
    funext r
    unfold cell get
    rw [hnow, hchanged]
  unfold listing flags
  rw [hcell, hnow]

/-- A commit is to be seen in the listing exactly if there is a change to forget. -/
theorem listing_commit_eq_iff : rf.commit.listing = rf.listing ↔ rf.changes = [] := by
  have hcommit := rf.commit.changes_eq_nil_iff.1 rf.changes_commit
  constructor
  · intro h
    rw [changes_eq_nil_iff]
    by_contra hsome
    obtain ⟨r, hr⟩ := not_forall.1 hsome
    obtain ⟨line, hline, hstar⟩ := rf.exists_star_listing_iff.2 ⟨r, Bool.eq_true_of_not_eq_false hr⟩
    rw [← h] at hline
    obtain ⟨s, hs⟩ := rf.commit.exists_star_listing_iff.1 ⟨line, hline, hstar⟩
    rw [hcommit s] at hs
    cases hs
  · intro h
    have hrf := rf.changes_eq_nil_iff.1 h
    exact listing_eq_of_changed rfl fun r => (hcommit r).trans (hrf r).symm

end RegisterFile

/-! ## Refused assignments -/

namespace Machine

theorem setRegister_named {name : String} {r : Register} (h : Register.ofText name = .ok r) (value : Nat)
    (m : Machine) : Succeeds (setRegister name value) m := by
  refine ⟨(), ?_⟩
  unfold setRegister
  rw [h]
  exact ⟨_, rfl⟩

theorem setRegister_unnamed {name : String} {e : ExecError} (h : Register.ofText name = .error e)
    (value : Nat) (m : Machine) :
    setRegister name value m = .error (.exec e) (m.withBefore m.registers.now) := by
  unfold setRegister
  rw [h]
  rfl

/-- **A refused assignment is a commit.** An assignment by name succeeds exactly if the name is that of a
register. Else it says so, and the machine is what it was except that the values of before are the present
ones: registers and flags keep their values, and no change is reported any more. So the snapshot of before is
kept exactly if it was the present one, and the change report and the listing with its marks exactly if no
change was pending. -/
theorem setRegister_refused (m : Machine) (name : String) (value : Nat) :
    (Succeeds (setRegister name value) m ↔ ∃ r : Register, r.IsNamed name) ∧
      ∀ e n, setRegister name value m = .error e n →
        e = .exec (.invalidRegister name) ∧ n = m.withBefore m.registers.now ∧
        n.registers.now = m.registers.now ∧ n.registers.changes = [] ∧
        (n.registers.before = m.registers.before ↔ m.registers.before = m.registers.now) ∧
        (n.registers.changes = m.registers.changes ↔ m.registers.changes = []) ∧
        (n.registers.listing = m.registers.listing ↔ m.registers.changes = []) := by
  rcases Register.ofText_eq name with ⟨r, hr, hname⟩ | ⟨hnone, hname⟩
  · have hsucceeds := setRegister_named hname value m
    refine ⟨⟨fun _ => ⟨r, hr⟩, fun _ => hsucceeds⟩, fun e n h => ?_⟩
    obtain ⟨a, n', hok⟩ := hsucceeds
    rw [hok] at h
    cases h
  · have hrefused := setRegister_unnamed hname value m
    refine ⟨⟨fun ⟨a, n, hok⟩ => ?_, fun hr => absurd hr hnone⟩, fun e n h => ?_⟩
    · rw [hrefused] at hok
      cases hok
    · rw [hrefused] at h
      obtain ⟨rfl, rfl⟩ := EStateM.Result.error.inj h
      have hcommit : (m.withBefore m.registers.now).registers = m.registers.commit := rfl
      have hforgotten := m.registers.changes_commit
      rw [hcommit, hforgotten]
      exact ⟨rfl, rfl, rfl, rfl, eq_comm, eq_comm, m.registers.listing_commit_eq_iff⟩

/-- With a change pending, a name that is mistyped takes the mark away. -/
theorem setRegister_refused_pending :
    let m := after (exec "SUB AX, 1") (standard "" (.ofInput []))
    ∃ n, setRegister "QX" 1 m = .error (.exec (.invalidRegister "QX")) n ∧
      n.registers.now = m.registers.now ∧ n.registers.before ≠ m.registers.before ∧
      n.registers.changes ≠ m.registers.changes ∧ n.registers.listing ≠ m.registers.listing := by
  intro m
  have hfails : ∃ e n, setRegister "QX" 1 m = .error e n := ⟨_, _, rfl⟩
  have hpending : m.registers.changes ≠ [] := by decide +kernel
  have hbefore : m.registers.before ≠ m.registers.now := by decide +kernel
  obtain ⟨e, n, h⟩ := hfails
  obtain ⟨rfl, -, hnow, -, hbefore', hchanges, hlisting⟩ := (setRegister_refused m "QX" 1).2 e n h
  exact ⟨n, h, hnow, mt hbefore'.1 hbefore, mt hchanges.1 hpending, mt hlisting.1 hpending⟩

/-- `AX` has been changed, as its mark in the listing says. The command `r QX 1` names no register and changes
none, and yet the mark is gone after it and the previous values are those of now. -/
theorem mark_lost_register :
    let host : Host := fun _ => .error .notFound
    let m := after (exec "SUB AX, 1") (standard "" (.ofInput []))
    let n := after (setRegister "QX" 1) m
    setRegister "QX" 1 m = .error (.exec (.invalidRegister "QX")) n ∧
      (m.dispatch host "r QX 1").1.lines = ["Error: invalid register 'QX'"] ∧
      (m.dispatch host "r QX 1").2.registers = n.registers ∧
      (m.registers.before, n.registers.before) = (Snapshot.zero, m.registers.now) ∧
      m.registers.changes = [⟨.ax, 0, 0xFFFF⟩] ∧ n.registers.changes = [] ∧
      m.registers.listing.head? =
        some "AX=FFFF* BX=0000  CX=0000  DX=0000  SP=0000  BP=0000  SI=0000  DI=0000 " ∧
      n.registers.listing.head? =
        some "AX=FFFF  BX=0000  CX=0000  DX=0000  SP=0000  BP=0000  SI=0000  DI=0000 " := by
  intro host m n
  have hfails : setRegister "QX" 1 m = .error (.exec (.invalidRegister "QX")) n := rfl
  have hanswer : (m.dispatch host "r QX 1").1.lines = ["Error: invalid register 'QX'"] := by
    dsimp only [m]
    rfl
  have hsame : (m.dispatch host "r QX 1").2.registers = n.registers := by
    dsimp only [m]
    rfl
  exact ⟨hfails, hanswer, hsame, by decide +kernel, by decide +kernel, by decide +kernel,
    by decide +kernel, by decide +kernel⟩

end Machine

end DosMonitor
