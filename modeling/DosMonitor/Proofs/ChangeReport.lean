import Mathlib
import DosMonitor.Proofs.AccessLog
import DosMonitor.Proofs.Invocation
import DosMonitor.Proofs.Accounts
import DosMonitor.Proofs.Printing
import DosMonitor.Proofs.Stack

/-!
# The change report of an instruction

What an instruction has changed is reported in two ways. The trace record compares the registers before
and after. The register file itself notes the old value of a register whenever it is written, and
compares what it has noted with what it holds now (`RegisterFile.changes`).

The register file starts anew with each instruction, so its notes are the values from before as long as
no register is written twice (`NotesOld`). All instructions but one write each register at most once; then
the two reports agree. POP SP writes SP twice, first as a stack pointer and then as the destination, and
what is noted is the value in between.
-/

namespace DosMonitor

/-! ## What a register file notes -/

namespace Bank

@[simp] theorem set_get_self (b : Bank) (r : Register) : b.set r (b.get r) = b := by
  refine ext_get fun s => ?_
  by_cases h : s = r
  · rw [h, get_set_self]
  · rw [get_set_ne _ _ h]

end Bank

namespace Snapshot

variable {s t : Snapshot}

theorem registerChanges_congr {s' : Snapshot} (h : s.values = s'.values) (t : Snapshot) :
    s.registerChanges t = s'.registerChanges t := by
  unfold registerChanges
  rw [h]

theorem registerChanges_of_one {r : Register} (h : ∀ q, q ≠ r → s.values.get q = t.values.get q) :
    s.registerChanges t =
      if s.values.get r = t.values.get r then [] else [⟨r, s.values.get r, t.values.get r⟩] := by
  have hfilter : ∀ q, (s.values.get q != t.values.get q) =
      (q == r && s.values.get r != t.values.get r) := by
    intro q
    by_cases hq : q = r
    · simp [hq]
    · simp [hq, h q hq]
  have hone : ∀ b : Bool, Register.all.filter (fun q => q == r && b) = if b then [r] else [] := by
    intro b
    cases r <;> cases b <;> rfl
  unfold registerChanges
  rw [List.filter_congr fun q _ => hfilter q, hone]
  by_cases hr : s.values.get r = t.values.get r <;> simp [hr]

end Snapshot

namespace RegisterFile

/-- The values noted of registers are the present ones. -/
def Fresh (rf : RegisterFile) : Prop :=
  rf.before.values = rf.now.values

variable {rf : RegisterFile} (h : rf.Fresh) (r : Register)
include h

/-- The first writing of a register notes what was there. -/
theorem before_set (value : Nat) : (rf.set r value).before.values = rf.now.values := by
  change rf.before.values.set r (rf.now.values.get r) = _
  rw [show rf.before.values = rf.now.values from h, Bank.set_get_self]

theorem before_apply (e : Effect) : (rf.apply r e).before.values = rf.now.values := by
  have hset := before_set h r e.value
  unfold apply
  split <;> exact hset

/-- Two registers may be written one after the other if they are different ones. -/
theorem before_set_set {s : Register} (hs : r ≠ s) (value value' : Nat) :
    ((rf.set s value).set r value').before.values = rf.now.values := by
  change (rf.set s value).before.values.set r ((rf.set s value).get r) = _
  rw [before_set h, get_set_ne _ _ hs]
  exact Bank.set_get_self _ _

/-- Of two writings of one register the second notes what the first one has left. -/
theorem before_set_twice (value value' : Nat) :
    ((rf.set r value).set r value').before.values = rf.now.values.set r (UInt16.ofNat value) := by
  change (rf.set r value).before.values.set r ((rf.set r value).get r) = _
  rw [before_set h, get_set_self]

/-- What has been written twice is reported with the value in between. -/
theorem changes_set_twice (value value' : Nat) :
    ((rf.set r value).set r value').changes =
      if UInt16.ofNat value = UInt16.ofNat value' then []
      else [⟨r, UInt16.ofNat value, UInt16.ofNat value'⟩] := by
  have hnow : ((rf.set r value).set r value').now.values.get r = UInt16.ofNat value' :=
    get_set_self _ _ _
  have hothers : ∀ q, q ≠ r → (rf.now.values.set r (UInt16.ofNat value)).get q =
      ((rf.set r value).set r value').now.values.get q := by
    intro q hq
    exact ((rf.set r value).get_set_ne value' hq).symm
  unfold changes
  rw [← before_set_twice h r value value'] at hothers
  rw [Snapshot.registerChanges_of_one hothers, before_set_twice h, Bank.get_set_self, hnow]

end RegisterFile

/-! ## What instructions note -/

namespace Execution

open Exec

variable {α : Type} {i : Instruction}

/-- Where the action succeeds, the registers are as before. -/
def KeepsRegisters (x : Exec Memory α) : Prop :=
  ∀ c a c', x c = .ok a c' → c'.registers = c.registers

/-- Where the action succeeds on registers that have just been committed, it has noted all their values. -/
def NotesOld (x : Exec Memory α) : Prop :=
  ∀ c a c', x c = .ok a c' → c.registers.Fresh → c'.registers.before.values = c.registers.now.values

theorem keepsRegisters_of_reads {x : Exec Memory α} (hx : Reads x) : KeepsRegisters x := by
  intro c a c' h
  rw [hx.eq_of_ok h]

theorem keepsRegisters_onBus (action : BusM Memory α) : KeepsRegisters (onBus action) := by
  intro c a c' h
  unfold onBus at h
  dsimp only at h
  cases hr : action c.bus with
  | ok b bus =>
    rw [hr] at h
    cases h
    rfl
  | error e bus =>
    rw [hr] at h
    cases h

theorem keepsRegisters_print (bytes : List UInt8) : KeepsRegisters (print bytes) := by
  rintro c a c' ⟨⟩
  rfl

theorem keepsRegisters_readLine : KeepsRegisters readLine := by
  rintro c a c' ⟨⟩
  rfl

theorem KeepsRegisters.bind {γ : Type} {x : Exec Memory α} {f : α → Exec Memory γ}
    (hx : KeepsRegisters x) (hf : ∀ a, KeepsRegisters (f a)) : KeepsRegisters (x >>= f) := by
  intro c b c' h
  obtain ⟨a, d, hd, hrest⟩ := of_bind_ok h
  exact (hf a d b c' hrest).trans (hx c a d hd)

theorem KeepsRegisters.notesOld {x : Exec Memory α} (hx : KeepsRegisters x) : NotesOld x := by
  intro c a c' h hfresh
  rw [hx c a c' h]
  exact hfresh

theorem NotesOld.bind {γ : Type} {x : Exec Memory α} {f : α → Exec Memory γ} (hx : KeepsRegisters x)
    (hf : ∀ c a c', x c = .ok a c' → NotesOld (f a)) : NotesOld (x >>= f) := by
  intro c b c' h hfresh
  obtain ⟨a, d, hd, hrest⟩ := of_bind_ok h
  have hregisters := hx c a d hd
  rw [← hregisters] at hfresh ⊢
  exact hf c a d hd d b c' hrest hfresh

theorem notesOld_setRegisters {f : RegisterFile → RegisterFile} (outcome : Outcome)
    (hf : ∀ rf, rf.Fresh → (f rf).before.values = rf.now.values) :
    NotesOld (do
      setRegisters f
      return outcome) := by
  rintro c a c' ⟨⟩ hfresh
  exact hf c.registers hfresh

theorem notesOld_unary (i : Instruction) (operation : UInt16 → Effect) :
    NotesOld (unary i operation) :=
  .bind (keepsRegisters_of_reads (Reads.ofExcept _)) fun _ _ _ _ =>
    notesOld_setRegisters _ fun _ h => RegisterFile.before_apply h _ _

theorem notesOld_binary (i : Instruction) (operation : UInt16 → UInt16 → Effect) :
    NotesOld (binary i operation) :=
  .bind (keepsRegisters_of_reads (Reads.ofExcept _)) fun _ _ _ _ =>
    .bind (keepsRegisters_of_reads reads_registers) fun _ _ _ _ =>
      .bind (keepsRegisters_of_reads (Reads.ofExcept _)) fun _ _ _ _ =>
        notesOld_setRegisters _ fun _ h => RegisterFile.before_apply h _ _

theorem notesOld_push (i : Instruction) : NotesOld (push i) :=
  .bind (keepsRegisters_of_reads (Reads.ofExcept _)) fun _ _ _ _ =>
    .bind (keepsRegisters_of_reads reads_registers) fun _ _ _ _ =>
      .bind (keepsRegisters_onBus _) fun _ _ _ _ =>
        notesOld_setRegisters _ fun _ h => RegisterFile.before_set h _ _

theorem notesOld_pop (h : i.operands.head? ≠ some (.register .sp)) : NotesOld (pop i) :=
  .bind (keepsRegisters_of_reads (Reads.ofExcept _)) fun _ _ _ hr =>
    .bind (keepsRegisters_of_reads reads_registers) fun _ _ _ _ =>
      .bind (keepsRegisters_onBus _) fun _ _ _ _ =>
        notesOld_setRegisters _ fun _ hfresh =>
          RegisterFile.before_set_set hfresh _ (destination_ne_sp h hr) _ _

/-! Services write no register at all. -/

theorem keepsRegisters_printString : KeepsRegisters printString :=
  .bind (keepsRegisters_of_reads reads_dosAddress) fun _ => .bind (keepsRegisters_onBus _) fun _ =>
    .bind (keepsRegisters_print _) fun _ => keepsRegisters_of_reads (Reads.pure _)

theorem keepsRegisters_readBuffer : KeepsRegisters readBuffer := by
  refine .bind (keepsRegisters_of_reads reads_dosAddress) fun buffer =>
    .bind (keepsRegisters_onBus _) fun found => ?_
  dsimp only
  split_ifs
  · exact .bind (keepsRegisters_of_reads (Reads.throw _)) fun _ => .bind keepsRegisters_readLine fun _ =>
      .bind (keepsRegisters_onBus _) fun _ => keepsRegisters_of_reads (Reads.pure _)
  · exact .bind keepsRegisters_readLine fun _ =>
      .bind (keepsRegisters_onBus _) fun _ => keepsRegisters_of_reads (Reads.pure _)

theorem keepsRegisters_dosService : KeepsRegisters dosService := by
  refine .bind (keepsRegisters_of_reads reads_registers) fun rf => ?_
  dsimp only
  split
  · exact keepsRegisters_printString
  · exact keepsRegisters_readBuffer
  · exact keepsRegisters_of_reads (Reads.pure _)
  · exact keepsRegisters_of_reads (Reads.throw _)

theorem keepsRegisters_interrupt (i : Instruction) : KeepsRegisters (interrupt i) := by
  unfold interrupt
  split
  · refine .bind (keepsRegisters_of_reads reads_registers) fun rf =>
      .bind (keepsRegisters_of_reads (Reads.ofExcept _)) fun vector => ?_
    split_ifs
    · exact keepsRegisters_dosService
    · exact keepsRegisters_of_reads (Reads.throw _)
  · exact keepsRegisters_of_reads (Reads.pure _)

/-- All instructions but POP SP note the values from before. -/
theorem notesOld_execute (h : i.opcode = .pop → i.operands.head? ≠ some (.register .sp)) :
    NotesOld (execute i) :=
  execute_cases (notesOld_unary i) (notesOld_binary i) (fun _ => notesOld_push i)
    (fun hpop => notesOld_pop (h hpop)) fun _ => (keepsRegisters_interrupt i).notesOld

end Execution

/-! ## The report after a line -/

namespace Machine

variable {m n : Machine} {line : List Char} {i : Instruction} {outcome : Outcome}

/-- A line that holds an instruction leaves the registers that the instruction leaves. -/
theorem runLine_registers (hi : Source.instruction? line = .ok (some i))
    (h : runLine line m = .ok outcome n) :
    ∃ c, Execution.execute i m.committed = .ok outcome c ∧ n.registers = c.registers := by
  obtain ⟨watches, reports, -, hline⟩ := runLine_eq line m
  have heffect : Execution.lineEffect line m.core = Execution.execute i m.committed := by
    unfold Execution.lineEffect
    rw [Source.label?_eq_none_of_instruction? hi, hi]
    rfl
  rw [hline, heffect] at h
  cases hx : Execution.execute i m.committed with
  | ok o c =>
    rw [hx] at h
    cases h
    exact ⟨c, rfl, rfl⟩
  | error e c =>
    rw [hx] at h
    cases h

/-- A reader of lines gives POP one operand. -/
theorem head_ne_sp (hi : Source.instruction? line = .ok (some i)) (hpop : i ≠ .pop .sp)
    (hopcode : i.opcode = .pop) : i.operands.head? ≠ some (.register .sp) := by
  intro hhead
  have hwell := (Source.instruction?_eq_ok_iff.1 hi).2
  obtain ⟨op, operands⟩ := i
  obtain rfl : op = .pop := hopcode
  obtain ⟨first, rfl⟩ := List.length_eq_one_iff.1 hwell
  obtain rfl := Option.some.inj hhead
  exact hpop rfl

/-- POP SP reports the way from the place above the word to the word. -/
theorem changes_popSp (hi : Source.instruction? line = .ok (some (.pop .sp)))
    (h : runLine line m = .ok outcome n) :
    n.registers.changes =
        (if m.registers.get .sp + 2 = n.registers.get .sp then []
        else [⟨.sp, m.registers.get .sp + 2, n.registers.get .sp⟩]) ∧
      m.registers.now.registerChanges n.registers.now =
        if m.registers.get .sp = n.registers.get .sp then []
        else [⟨.sp, m.registers.get .sp, n.registers.get .sp⟩] := by
  obtain ⟨c, hexecute, hregisters⟩ := runLine_registers hi h
  rw [Execution.execute_pop] at hexecute
  cases hexecute
  rw [hregisters]
  constructor
  · have hfresh : m.registers.commit.Fresh := rfl
    have hchanges := RegisterFile.changes_set_twice hfresh .sp
      (m.registers.get .sp + 2).toNat (m.memory.wordAt (m.registers.get .sp)).toNat
    rw [UInt16.ofNat_toNat] at hchanges
    rw [RegisterFile.get_set_self]
    exact hchanges
  · refine Snapshot.registerChanges_of_one fun r hr => ?_
    have htwice := (m.committed.registers.set .sp (m.registers.get .sp + 2).toNat).get_set_ne
      (m.committed.bus.wordAt (m.registers.get .sp)).toNat hr
    have honce := m.committed.registers.get_set_ne (m.registers.get .sp + 2).toNat hr
    exact (htwice.trans honce).symm

/-- **The change report of an instruction is right but for POP SP.** After a line with an instruction has
succeeded, its trace record lists the registers of which the value differs, with the value before and the
value after. Unless the instruction is POP SP, the register file reports the same, and marks exactly these
registers. POP SP reports at most SP, and as its old value the one that lies a word above it; the report is
then never the one of the trace record. -/
theorem changes_right_iff (hi : Source.instruction? line = .ok (some i))
    (h : runLine line m = .ok outcome n) :
    let differing := m.registers.now.registerChanges n.registers.now
    (m.committed.traceRecord line i).registerChanges = differing ∧
      (n.registers.changes = differing ↔ i ≠ .pop .sp) ∧
      (i ≠ .pop .sp → ∀ r, n.registers.changed r = true ↔ m.registers.get r ≠ n.registers.get r) ∧
      (i = .pop .sp → n.registers.changes =
        if m.registers.get .sp + 2 = n.registers.get .sp then []
        else [⟨.sp, m.registers.get .sp + 2, n.registers.get .sp⟩]) := by
  intro differing
  obtain ⟨c, hexecute, hregisters⟩ := runLine_registers hi h
  have hrecord : (m.committed.traceRecord line i).registerChanges = differing := by
    have hafter : (m.committed.traceRecord line i).after = n.registers.now := by
      rw [hregisters]
      change (endState (Execution.execute i m.committed)).registers.now = _
      rw [hexecute]
      rfl
    unfold TraceRecord.registerChanges
    rw [hafter]
    rfl
  refine ⟨hrecord, ?_⟩
  by_cases hpop : i = .pop .sp
  · subst hpop
    obtain ⟨hchanges, hdiffering⟩ := changes_popSp hi h
    refine ⟨⟨fun heq => absurd heq ?_, fun hne => absurd rfl hne⟩, fun hne => absurd rfl hne,
      fun _ => hchanges⟩
    -- What POP SP has noted is never the value from before, so the reports differ even where one is empty.
    have hne : m.registers.get .sp + 2 ≠ m.registers.get .sp := by grind
    rw [hchanges, show differing = _ from hdiffering]
    split_ifs with hnoted hbefore
    · exact absurd (hnoted.trans hbefore.symm) hne
    · simp
    · simp
    · simp [hne]
  · have hvalues : n.registers.before.values = m.registers.now.values := by
      rw [hregisters]
      exact Execution.notesOld_execute (head_ne_sp hi hpop) m.committed outcome c hexecute rfl
    have hchanges : n.registers.changes = differing := Snapshot.registerChanges_congr hvalues _
    refine ⟨⟨fun _ => hpop, fun _ => hchanges⟩, fun _ r => ?_, fun heq => absurd heq hpop⟩
    unfold RegisterFile.changed
    rw [hvalues]
    exact bne_iff_ne

theorem changes_right_iff_push :
    let m := standard "" (.ofInput [])
    let n := after (runLine "PUSH AX".toList) m
    Source.instruction? "PUSH AX".toList = .ok (some (.push .ax)) ∧
      runLine "PUSH AX".toList m = .ok .proceed n ∧
      n.registers.changes = m.registers.now.registerChanges n.registers.now ∧
      n.registers.changes = [⟨.sp, 0, 0xFFFE⟩] := by
  intro m n
  have hi : Source.instruction? "PUSH AX".toList = .ok (some (.push .ax)) := by decide +kernel
  have h : runLine "PUSH AX".toList m = .ok .proceed n := by rfl
  have hchanges : n.registers.changes = [⟨.sp, 0, 0xFFFE⟩] := by decide +kernel
  obtain ⟨-, hright, -⟩ := changes_right_iff hi h
  exact ⟨hi, h, hright.2 (by decide), hchanges⟩

/-- A word of zeros popped from address 0 leaves SP as it was, and yet SP is reported. -/
theorem changes_popSp_zero :
    let m := standard "" (.ofInput [])
    let n := after (runLine "POP SP".toList) m
    runLine "POP SP".toList m = .ok .proceed n ∧
      m.registers.now.registerChanges n.registers.now = [] ∧
      n.registers.changes = [⟨.sp, 2, 0⟩] := by
  intro m n
  have h : runLine "POP SP".toList m = .ok .proceed n := by rfl
  exact ⟨h, by decide +kernel, by decide +kernel⟩

end Machine

end DosMonitor
