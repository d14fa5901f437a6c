import Mathlib
import DosMonitor.Proofs.Grammar
import DosMonitor.Proofs.Hexadecimal
import DosMonitor.Proofs.Tracing

/-!
# Instructions written and read back

The written form of an instruction (`Instruction.text`) spells that instruction, so it is read back as it
was. A line that is read as an instruction can therefore be replaced by the written form: it has the same
byte code and does the same to a machine, up to the line of trace that quotes the source.
-/

namespace DosMonitor

namespace Text

theorem isWordChar_hexDigit {d : Nat} (h : d < 16) : isWordChar (hexDigit d) = true := by
  have all : ∀ d : Fin 16, isWordChar (hexDigit d) = true := by decide
  exact all ⟨d, h⟩

theorem isWordChar_of_mem_hexFixed {width n : Nat} {c : Char} (h : c ∈ hexFixed width n) :
    isWordChar c = true := by
  obtain ⟨d, rfl⟩ := exists_hexDigit_of_mem_hexFixed h
  exact isWordChar_hexDigit d.isLt

theorem denotes_hexChars (width n : Nat) : Denotes 16 (hexChars width n) n := by
  obtain ⟨ds, hds, hvalue⟩ := (readDigits_eq_some_iff (by decide)).1 (readDigits_hexChars width n)
  refine ⟨fun h => ?_, ds, hds, by simpa using hvalue⟩
  have hlength := length_hexFixed (max width (hexWidth n)) n
  rw [← hexChars, h, hexWidth, List.length_nil] at hlength
  omega

end Text

/-! ## Operands as words -/

theorem toList_immediateText (value : UInt16) :
    (immediateText value).toList = '0' :: 'x' :: Text.hexChars 4 value.toNat := by
  simp [immediateText, Text.hex]

namespace Source

/-- A text that a line of source has as one part. -/
def IsWord (w : List Char) : Prop :=
  w ≠ [] ∧ ∀ c ∈ w, Text.isWordChar c = true

theorem isWord_opcode (op : Opcode) : IsWord op.name.toList := by
  have hall : op.name.toList.isEmpty = false ∧ op.name.toList.all Text.isWordChar = true := by
    cases op <;> decide
  simpa [IsWord] using hall

theorem isWord_register (r : Register) : IsWord r.name.toList := by
  have hall : r.name.toList.isEmpty = false ∧ r.name.toList.all Text.isWordChar = true := by
    cases r <;> decide
  simpa [IsWord] using hall

theorem isWord_operand (o : Operand) : IsWord o.text.toList := by
  cases o with
  | register r => exact isWord_register r
  | immediate value =>
    rw [Operand.text, toList_immediateText]
    refine ⟨List.cons_ne_nil _ _, List.forall_mem_cons.2 ⟨by decide, List.forall_mem_cons.2 ⟨by decide, ?_⟩⟩⟩
    exact fun c hc => Text.isWordChar_of_mem_hexFixed hc

theorem wordKind?_text (o : Operand) : wordKind? o.text.toList = some o.kind := by
  cases o with
  | register r => exact wordKind?_eq_register_iff.2 (Text.sameName_refl _)
  | immediate value =>
    refine (wordKind?_eq_number_iff (isWord_operand (.immediate value)).2).2 ?_
    rw [Operand.text, toList_immediateText]
    exact .hexadecimal (.inl rfl) (Text.denotes_hexChars 4 value.toNat)

/-! ## The written form spells the instruction -/

theorem parts_other {c : Char} (hword : Text.isWordChar c = false) (hblank : Text.isBlank c = false)
    (s : List Char) : parts (c :: s) = .other c :: parts s := by
  rw [parts, pieces_other hword]
  exact List.filter_cons_of_pos (by simp [Piece.isBlank, hblank])

theorem parts_space (s : List Char) : parts (' ' :: s) = parts s :=
  parts_blank_append (b := [' ']) (by simp; decide)

theorem parts_word_append {w : List Char} (hw : IsWord w) {c : Char}
    (hc : Text.isWordChar c = false) (s : List Char) :
    parts (w ++ c :: s) = .word w :: parts (c :: s) := by
  rw [parts_append (by simpa using hc), parts_word hw.1 hw.2, List.singleton_append]

theorem parts_intercalate {words : List (List Char)} (hwords : ∀ w ∈ words, IsWord w) :
    parts ([',', ' '].intercalate words) = (words.map Piece.word).intersperse (.other ',') := by
  induction words using List.twoStepInduction with
  | nil => rfl
  | singleton w =>
    obtain ⟨hne, hw⟩ := hwords w List.mem_cons_self
    simpa using parts_word hne hw
  | cons_cons w w' words _ ih =>
    have hrest := ih w' fun v hv => hwords v (List.mem_cons_of_mem _ hv)
    rw [List.intercalate_cons_cons, List.append_assoc]
    show parts (w ++ ',' :: ' ' :: [',', ' '].intercalate (w' :: words)) = _
    rw [parts_word_append (hwords w List.mem_cons_self) (by decide),
      parts_other (by decide) (by decide), parts_space, hrest]
    rfl

/-- The written form of an instruction spells it. -/
theorem spells_text (i : Instruction) : Spells i.text.toList i.kinds := by
  have hname : IsWord i.opcode.name.toList := isWord_opcode i.opcode
  have hwords : ∀ w ∈ i.operands.map fun o => o.text.toList, IsWord w := by
    intro w hw
    obtain ⟨o, -, rfl⟩ := List.mem_map.1 hw
    exact isWord_operand o
  have hoperands : List.Forall₂ (fun w o => wordKind? w = some (Operand.kind o))
      (i.operands.map fun o => o.text.toList) i.operands := by
    rw [List.forall₂_map_left_iff, List.forall₂_same]
    exact fun o _ => wordKind?_text o
  refine spells_kinds_iff.2 ⟨_, _, ?_, Text.sameName_refl _, hoperands⟩
  rw [← parts_intercalate hwords]
  unfold Instruction.text
  split
  · rename_i h
    rw [h]
    exact parts_word hname.1 hname.2
  · rw [String.toList_append, String.toList_append, String.toList_intercalate, List.map_map,
      List.append_assoc]
    show parts (i.opcode.name.toList ++ ' ' :: _) = _
    rw [parts_word_append hname (by decide), parts_space]
    rfl

/-! ## Comments and labels -/

/-- The text of an instruction holds word characters, blanks and commas only. -/
theorem Spells.char {s : List Char} {ks : List TokenKind} (h : Spells s ks) {c : Char} (hc : c ∈ s) :
    Text.isBlank c = true ∨ Text.isWordChar c = true ∨ c = ',' := by
  by_cases hblank : Text.isBlank c = true
  · exact .inl hblank
  rw [Bool.not_eq_true] at hblank
  obtain ⟨p, hp, hcp⟩ := exists_mem_parts hc hblank
  obtain ⟨k, -, hk⟩ : ∃ k ∈ ks, p.kind? = some k := by
    obtain ⟨n, hn, rfl⟩ := List.mem_iff_getElem.1 hp
    have hlt : n < ks.length := h.length_eq ▸ hn
    exact ⟨ks[n], List.getElem_mem hlt, h.get hn hlt⟩
  cases p with
  | word w => exact .inr (.inl (isWordChar_of_mem_parts hp c hcp))
  | other d =>
    obtain rfl := List.mem_singleton.1 hcp
    by_cases hcomma : c = ','
    · exact .inr (.inr hcomma)
    · simp [hcomma] at hk

theorem Spells.notMem {s : List Char} {ks : List TokenKind} (h : Spells s ks) {c : Char}
    (hblank : Text.isBlank c = false) (hword : Text.isWordChar c = false) (hcomma : c ≠ ',') :
    c ∉ s := by
  intro hc
  rcases h.char hc with hc | hc | hc
  · rw [hblank] at hc
    cases hc
  · rw [hword] at hc
    cases hc
  · exact hcomma hc

/-- A label ends in a colon, so what spells an instruction is none. -/
theorem label?_eq_none_of_spells {line : List Char} {ks : List TokenKind}
    (h : Spells (code line) ks) : label? line = none := by
  have hcolon : ':' ∉ code line := h.notMem (by decide) (by decide) (by decide)
  have hdrop : Text.dropLast? ':' (Text.trim (code line)) = none := by
    by_contra hsome
    obtain ⟨name, hname⟩ := Option.ne_none_iff_exists'.1 hsome
    rw [Text.dropLast?_eq_some_iff] at hname
    exact hcolon (Text.mem_of_mem_trim (by simp [hname]))
  simp [label?, hdrop]

theorem label?_eq_none_of_instruction? {line : List Char} {i : Instruction}
    (h : instruction? line = .ok (some i)) : label? line = none :=
  label?_eq_none_of_spells (instruction?_eq_ok_iff.1 h).1

theorem instruction?_text {i : Instruction} (h : i.WellFormed) :
    instruction? i.text.toList = .ok (some i) := by
  have hspells := spells_text i
  have hcode : code i.text.toList = i.text.toList :=
    code_eq_self (hspells.notMem (by decide) (by decide) (by decide))
  rw [instruction?_eq_ok_iff, hcode]
  exact ⟨hspells, h⟩

end Source

/-! ## One instruction on two lines -/

namespace Source

/-- The lines are read as the same instruction. -/
def ReadAlike (line line' : List Char) : Prop :=
  ∃ i, instruction? line = .ok (some i) ∧ instruction? line' = .ok (some i)

variable {line line' : List Char}

theorem ReadAlike.instruction?_eq (h : ReadAlike line line') : instruction? line = instruction? line' := by
  obtain ⟨i, hi, hi'⟩ := h
  rw [hi, hi']

theorem ReadAlike.label?_eq (h : ReadAlike line line') : label? line = label? line' := by
  obtain ⟨i, hi, hi'⟩ := h
  rw [label?_eq_none_of_instruction? hi, label?_eq_none_of_instruction? hi']

theorem ReadAlike.assembleLine_eq (h : ReadAlike line line') :
    Assembly.assembleLine line = Assembly.assembleLine line' := by
  rw [Assembly.assembleLine, Assembly.assembleLine, h.label?_eq, h.instruction?_eq]

theorem ReadAlike.lineEffect_eq (h : ReadAlike line line') {β : Type} [Bus β] :
    (Execution.lineEffect line : Exec β Outcome) = Execution.lineEffect line' := by
  rw [Execution.lineEffect, Execution.lineEffect, h.label?_eq, h.instruction?_eq]

end Source

namespace Machine

theorem SameSetup.symm_trans {m n k : Machine} (h : SameSetup m k) (h' : SameSetup n k) : SameSetup m n where
  program := h.program.trans h'.program.symm
  loads := h.loads.trans h'.loads.symm
  breakpoints := h.breakpoints.trans h'.breakpoints.symm
  resume := h.resume.trans h'.resume.symm
  watches := h.watches.trans h'.watches.symm
  disk := h.disk.trans h'.disk.symm
  config := h.config.trans h'.config.symm
  enabled := h.enabled.trans h'.enabled.symm
  echo := h.echo.trans h'.echo.symm

/-- Lines with one effect do the same to a machine, up to what is reported about it. -/
theorem exec_alike_of_lineEffect_eq {line line' : String} {m : Machine}
    (h : (Execution.lineEffect line.toList : Exec Memory Outcome) =
      Execution.lineEffect line'.toList) :
    SameEnd (Alike m.trace.echo) (exec line m) (exec line' m) := by
  have hsetup := (exec_setup line m).symm_trans (exec_setup line' m)
  have hagree : SameEnd (Agree m.trace.echo) (exec line m) (exec line' m) := by
    obtain ⟨ws, rs, -, hm⟩ := exec_eq line m
    obtain ⟨vs, qs, -, hm'⟩ := exec_eq line' m
    have hcore : ∀ core : Context Memory, Agree m.trace.echo (m.observed core ws rs)
        (m.observed core vs qs) := fun core =>
      (Agree.refl m).observed ⟨rfl, ⟨rfl, rfl⟩, ⟨rfl, fun _ => rfl⟩⟩ ws vs rs qs
    -- the cores come out of one effect, so the machines differ by watches and reports alone
    rw [hm, hm', h]
    cases Execution.lineEffect line'.toList m.core with
    | ok outcome core => exact .ok outcome ((hcore core).withStatus _)
    | error e core => exact .error e (hcore core)
  exact hagree.imp fun hends => { hends with
    program := hsetup.program
    loads := hsetup.loads
    breakpoints := hsetup.breakpoints
    resume := hsetup.resume
    watches := hsetup.watches }

/-- With tracing off a line is its effect and nothing else. -/
theorem runLine_eq_onCore {m : Machine} (hm : m.trace.enabled = false) (line : List Char) :
    runLine line m = onCore (Execution.lineEffect line) m := by
  unfold runLine Execution.lineEffect
  split_ifs
  · rfl
  · rcases Source.instruction? line with e | _ | i
    · rfl
    · rfl
    · let committed : Context Memory := ⟨m.core.registers.commit, m.core.bus, m.core.console⟩
      change (if m.trace.enabled then executeTraced line i else onCore (Execution.execute i))
          (m.withCore committed) = _
      rw [if_neg (by simp [hm]), onCore_eq, onCore_eq]
      rfl

theorem exec_eq_of_lineEffect_eq {line line' : String} {m : Machine}
    (h : (Execution.lineEffect line.toList : Exec Memory Outcome) =
      Execution.lineEffect line'.toList) (hm : m.trace.enabled = false) :
    exec line m = exec line' m := by
  have hrun : runLine line.toList m = runLine line'.toList m := by
    rw [runLine_eq_onCore hm, runLine_eq_onCore hm, h]
  simp only [exec, bind, EStateM.bind, hrun]

end Machine

namespace Source

/-- **An instruction is read back from its written form**, which is no label. So a line that is read as an
instruction can be replaced by its written form: it is read the same, has the same byte code, and has the
same effect on registers, memory and console, with the same outcome. Machines that run the one and the other
stay alike, as lines of trace may quote the source, and with tracing off they stay the same. -/
theorem instruction?_text_inverse :
    (∀ i : Instruction, i.WellFormed →
      instruction? i.text.toList = .ok (some i) ∧ label? i.text.toList = none) ∧
    ∀ (line : String) (i : Instruction), instruction? line.toList = .ok (some i) →
      instruction? i.text.toList = instruction? line.toList ∧
      label? i.text.toList = label? line.toList ∧
      Assembly.assembleLine i.text.toList = Assembly.assembleLine line.toList ∧
      (∀ (β : Type) [Bus β],
        (Execution.lineEffect i.text.toList : Exec β Outcome) = Execution.lineEffect line.toList) ∧
      ∀ m : Machine, SameEnd (Machine.Alike m.trace.echo) (Machine.exec i.text m) (Machine.exec line m) ∧
        (m.trace.enabled = false → Machine.exec i.text m = Machine.exec line m) := by
  have hread : ∀ i : Instruction, i.WellFormed →
      instruction? i.text.toList = .ok (some i) := fun i h => instruction?_text h
  refine ⟨fun i h => ⟨hread i h, label?_eq_none_of_instruction? (hread i h)⟩, ?_⟩
  intro line i hline
  have h : ReadAlike i.text.toList line.toList :=
    ⟨i, hread i (instruction?_eq_ok_iff.1 hline).2, hline⟩
  have heffect : ∀ (β : Type) [Bus β],
      (Execution.lineEffect i.text.toList : Exec β Outcome) = Execution.lineEffect line.toList :=
    fun β _ => h.lineEffect_eq
  exact ⟨h.instruction?_eq, h.label?_eq, h.assembleLine_eq, heffect, fun m =>
    ⟨Machine.exec_alike_of_lineEffect_eq (heffect Memory),
      Machine.exec_eq_of_lineEffect_eq (heffect Memory)⟩⟩

/-- A move in lower case, with a decimal number and a comment, and its written form. -/
theorem instruction?_text_inverse_move :
    (⟨.mov, [.register .ax, .immediate 0xFFFF]⟩ : Instruction).WellFormed ∧
    instruction? "MOV AX, 0xFFFF".toList = .ok (some ⟨.mov, [.register .ax, .immediate 0xFFFF]⟩) ∧
    instruction? " mov\tax ,0065535 ; all ones".toList =
      .ok (some ⟨.mov, [.register .ax, .immediate 0xFFFF]⟩) ∧
    Assembly.assembleLine "MOV AX, 0xFFFF".toList =
      Assembly.assembleLine " mov\tax ,0065535 ; all ones".toList := by
  have hline : instruction? " mov\tax ,0065535 ; all ones".toList =
      .ok (some ⟨.mov, [.register .ax, .immediate 0xFFFF]⟩) := by decide +kernel
  have hcount : (⟨.mov, [.register .ax, .immediate 0xFFFF]⟩ : Instruction).WellFormed := by decide
  exact ⟨hcount, (instruction?_text_inverse.1 _ hcount).1, hline,
    (instruction?_text_inverse.2 _ _ hline).2.2.1⟩

end Source

end DosMonitor
