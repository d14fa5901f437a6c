import Mathlib
import DosMonitor.Proofs.Labels
import DosMonitor.Proofs.WellFormed

/-!
# Locations

Where a breakpoint is to stand is said by a label or by an address in hexadecimal. Labels come first, so that
`face` is one where the source has such a label, and a number otherwise. An address behind `0x` is a number in
any case, because no label begins with a digit.

Main statement: texts with or without blanks around them mean the place of the label that they name, else the
address that they denote, else nothing, and then no breakpoint is set or removed (`locations_resolve`). It
speaks of machines that have loaded a source (`Loaded`), which all machines have (`exists_loaded`).
-/

namespace DosMonitor

namespace Text

/-- The text with or without blanks around it. -/
def Padded (s text : List Char) : Prop :=
  ∃ front back, s = front ++ (text ++ back) ∧ (∀ c ∈ front, isBlank c = true) ∧
    ∀ c ∈ back, isBlank c = true

theorem Padded.trim_eq {s text : List Char} (h : Padded s text) (hne : text ≠ [])
    (htext : ∀ c ∈ text, isBlank c = false) : trim s = text := by
  obtain ⟨front, back, rfl, hfront, hback⟩ := h
  exact trim_append hfront hback hne (fun c hc => htext c (List.mem_of_mem_head? hc))
    fun c hc => htext c (List.mem_of_mem_getLast? hc)

/-! ## Hexadecimal numbers -/

section Denotes
variable {digits : List Char} {a : Nat}

theorem Denotes.isDigitOf {base : Nat} (h : Denotes base digits a) {c : Char} (hc : c ∈ digits) :
    ∃ d, IsDigitOf base c d := by
  obtain ⟨-, ds, hds, -⟩ := h
  induction hds with
  | nil => cases hc
  | cons hd hds ih =>
    rcases List.mem_cons.1 hc with rfl | hc
    · exact ⟨_, hd⟩
    · exact ih hc

/-- No digit is a blank, a sign or the mark of the base. -/
theorem Denotes.ne_mark (h : Denotes 16 digits a) {c : Char} (hc : c ∈ digits) :
    isBlank c = false ∧ c ≠ '+' ∧ c ≠ 'x' ∧ c ≠ 'X' := by
  let NoMark : Char → Prop := fun c => isBlank c = false ∧ c ≠ '+' ∧ c ≠ 'x' ∧ c ≠ 'X'
  have all : ∀ d : Fin 16, NoMark d.val.digitChar ∧ NoMark d.val.digitChar.toUpper := by decide
  obtain ⟨d, hd, rfl | rfl⟩ := h.isDigitOf hc
  · exact (all ⟨d, hd⟩).1
  · exact (all ⟨d, hd⟩).2

theorem readUnsigned_of_denotes (h : Denotes 16 digits a) (ha : a < wordLimit) :
    readUnsigned 16 wordLimit digits = some a :=
  (readUnsigned_eq_some_iff (by decide) fun hc => (h.ne_mark hc).2.1 rfl).2 ⟨h, ha⟩

theorem hexNumber?_of_denotes (h : Denotes 16 digits a) (ha : a < wordLimit) :
    hexNumber? digits = some a := by
  have hnone : ∀ x, x = 'x' ∨ x = 'X' → dropStart? ['0', x] digits = none := by
    intro x hx
    rw [Option.eq_none_iff_forall_ne_some]
    intro rest hrest
    rw [dropStart?_eq_some_iff] at hrest
    obtain ⟨-, -, hlow, hhigh⟩ := h.ne_mark (c := x) (by simp [hrest])
    exact hx.elim hlow hhigh
  have htrim : trim digits = digits := trim_of_not_blank fun c hc => (h.ne_mark hc).1
  rw [hexNumber?]
  simp only [htrim, hnone 'x' (.inl rfl), hnone 'X' (.inr rfl)]
  exact readUnsigned_of_denotes h ha

theorem hexNumber?_of_mark {x : Char} (hx : x = 'x' ∨ x = 'X') (h : Denotes 16 digits a)
    (ha : a < wordLimit) : hexNumber? ('0' :: x :: digits) = some a := by
  have htrim : trim ('0' :: x :: digits) = '0' :: x :: digits := by
    refine trim_of_not_blank (List.forall_mem_cons.2 ⟨by decide, List.forall_mem_cons.2 ⟨?_, ?_⟩⟩)
    · rcases hx with rfl | rfl <;> decide
    · exact fun c hc => (h.ne_mark hc).1
  have hmark : ∀ y, dropStart? ['0', y] ('0' :: x :: digits) = if y = x then some digits else none := by
    intro y
    simp [dropStart?]
  rw [hexNumber?]
  simp only [htrim, hmark]
  rcases hx with rfl | rfl
  · exact readUnsigned_of_denotes h ha
  · exact readUnsigned_of_denotes h ha

end Denotes

end Text

namespace Machine

/-- The source is what the debugger has loaded, and runs at some line. Where it has loaded nothing, the source
is empty. -/
def Loaded (m : Machine) (source : List String) (base : UInt16) : Prop :=
  m.debugger.program = none ∧ source = [] ∨
    ∃ pc, m.debugger.program = some { Program.ofSource source base with pc }

theorem loaded_load (source : List String) (base : UInt16) (m : Machine) :
    (after (load source base) m).Loaded source base :=
  .inr ⟨0, by
    have hpc := Program.pc_ofSource source base
    rw [← hpc]
    rfl⟩

variable {m n : Machine} {source : List String} {base : UInt16} {location : String}

theorem Loaded.change (hmn : Change m n) (h : ∃ source base, m.Loaded source base) :
    ∃ source base, n.Loaded source base := by
  obtain ⟨source, base, h⟩ := h
  cases hmn with
  | load source base => exact ⟨source, base, loaded_load source base m⟩
  | position p pc resume hp hpc hresume =>
    refine ⟨source, base, ?_⟩
    obtain ⟨hnone, -⟩ | ⟨pc', hprogram⟩ := h
    · rw [hp] at hnone
      cases hnone
    · refine .inr ⟨pc, ?_⟩
      rw [movedTo, hprogram]
      rfl
  | _ => exact ⟨source, base, h⟩

/-- **Every machine has loaded a source**, the empty one if no other. -/
theorem exists_loaded {config : Config} {home : String} {console : Console}
    (hcreate : create config home console = .ok m) (operations : List Operation) :
    ∃ source base, (afterOperations operations m).Loaded source base := by
  obtain ⟨-, _, -, rfl⟩ := exists_memory_of_create hcreate
  exact operations_induction (P := fun m => ∃ source base, m.Loaded source base)
    (fun _ _ => Loaded.change) operations ⟨[], 0, .inl ⟨rfl, rfl⟩⟩

/-! ## Labels first, then numbers -/

/-- Labels are looked up in the source. -/
theorem Loaded.label? (h : m.Loaded source base) (name : List Char) :
    (m.debugger.program.bind fun p => (p.label? name).map p.address) =
      ((Program.ofSource source base).label? name).map fun n => base + UInt16.ofNat n := by
  obtain ⟨hnone, rfl⟩ | ⟨pc, hprogram⟩ := h
  · rw [hnone]
    rfl
  · rw [hprogram, Option.bind_some]
    congr 1
    funext n
    exact congrArg (· + UInt16.ofNat n) (Program.base_ofSource source base)

theorem Loaded.resolve_of_names (h : m.Loaded source base) {k : Nat}
    (hnames : Source.Names source (Text.trim location.toList) k) :
    m.resolve location = .ok (base + UInt16.ofNat k) := by
  rw [resolve, h.label?, Program.label?_ofSource_eq_some_iff.2 hnames]
  rfl

theorem Loaded.resolve_of_not_bears (h : m.Loaded source base)
    (hnone : ∀ line ∈ source, ¬Source.Bears line.toList (Text.trim location.toList)) :
    m.resolve location =
      match Text.hexBelow? 0x10000 (Text.trim location.toList) with
      | some address => .ok (UInt16.ofNat address)
      | none => .error (.unknownLabel (.ofList (Text.trim location.toList))) := by
  have hlabel : (Program.ofSource source base).label? (Text.trim location.toList) = none := by
    rw [Option.eq_none_iff_forall_ne_some]
    intro k hk
    obtain ⟨line, hline, hbears⟩ :=
      Source.exists_names_iff.1 ⟨k, Program.label?_ofSource_eq_some_iff.1 hk⟩
    exact hnone line hline hbears
  rw [resolve, h.label?, hlabel]
  rfl

/-- A text that no label bears is the number that it denotes. -/
theorem Loaded.resolve_of_hexNumber? (h : m.Loaded source base) {text : List Char} {a : Nat}
    (htrim : Text.trim location.toList = text)
    (hnone : ∀ line ∈ source, ¬Source.Bears line.toList text) (hnumber : Text.hexNumber? text = some a)
    (ha : a ≤ 0xFFFF) : m.resolve location = .ok (UInt16.ofNat a) := by
  subst htrim
  rw [h.resolve_of_not_bears hnone, Text.hexBelow?, hnumber, Option.filter_some, if_pos]
  exact decide_eq_true (Nat.lt_succ_of_le ha)

/-! ## Breakpoints -/

theorem ofExcept_bind {α β : Type} (r : Except Error α) (f : α → MachineM β) (m : Machine) :
    (ofExcept r >>= f) m =
      match r with
      | .ok a => f a m
      | .error e => .error e m := by
  cases r <;> rfl

/-- Breakpoints are set where the location means a place, and nothing is done where it does not. -/
theorem addBreakpoint_eq (location : String) (m : Machine) :
    addBreakpoint location m =
      match m.resolve location with
      | .ok address => .ok address (m.edited (m.debugger.breakpoints.insert address) m.debugger.watches)
      | .error e => .error e m := by
  refine (ofExcept_bind (m.resolve location) _ m).trans ?_
  cases m.resolve location <;> rfl

theorem removeBreakpoint_eq (location : String) (m : Machine) :
    removeBreakpoint location m =
      match m.resolve location with
      | .ok address =>
        .ok (m.debugger.breakpoints.contains address)
          (m.edited (m.debugger.breakpoints.erase address) m.debugger.watches)
      | .error e => .error e m := by
  refine (ofExcept_bind (m.resolve location) _ m).trans ?_
  cases m.resolve location <;> rfl

theorem resolve_of_breakpoint_error {e : Error}
    (h : addBreakpoint location m = .error e n ∨ removeBreakpoint location m = .error e n) :
    m.resolve location = .error e ∧ n = m := by
  rw [addBreakpoint_eq, removeBreakpoint_eq] at h
  cases hresolve : m.resolve location with
  | ok address => rw [hresolve] at h; rcases h with h | h <;> cases h
  | error e' => rw [hresolve] at h; rcases h with h | h <;> cases h <;> exact ⟨rfl, rfl⟩

/-- **Labels and locations mean what they should.** In the program of a source a name stands for a label if a
line bears it, in either case, and then for the last such line, by the number of executable lines in front
of it. A machine that has loaded the source takes a location with such a name for the address of the base
plus this number, which wraps around at 64K. It takes `0x` and hexadecimal digits for the address that they
denote, and digits alone, too, unless a label bears their text. A location that is neither a label nor a
number of 16 bits is unknown. Where no breakpoint can be set or removed, nothing has changed. -/
theorem locations_resolve (source : List String) (base : UInt16) :
    (∀ name, ((∃ k, (Program.ofSource source base).label? name = some k) ↔
        ∃ line ∈ source, Source.Bears line.toList name) ∧
      ∀ k, (Program.ofSource source base).label? name = some k ↔ Source.Names source name k) ∧
    (∀ m : Machine, (after (load source base) m).Loaded source base) ∧
    (∀ m : Machine, m.Loaded source base →
      (∀ location name k, Text.Padded location.toList name → Source.Names source name k →
        ∃ a, m.resolve location = .ok a ∧ a.toNat = (base.toNat + k) % 0x10000) ∧
      (∀ location x digits a, Text.Padded location.toList ('0' :: x :: digits) → x = 'x' ∨ x = 'X' →
        Text.Denotes 16 digits a → a ≤ 0xFFFF → m.resolve location = .ok (UInt16.ofNat a)) ∧
      (∀ location digits a, Text.Padded location.toList digits → Text.Denotes 16 digits a → a ≤ 0xFFFF →
        (∀ line ∈ source, ¬Source.Bears line.toList digits) →
        m.resolve location = .ok (UInt16.ofNat a)) ∧
      ∀ location, (∀ line ∈ source, ¬Source.Bears line.toList (Text.trim location.toList)) →
        (∀ a, Text.hexNumber? location.toList = some a → 0xFFFF < a) →
        m.resolve location = .error (.unknownLabel (.ofList (Text.trim location.toList)))) ∧
    ∀ (m : Machine) location e n,
      addBreakpoint location m = .error e n ∨ removeBreakpoint location m = .error e n → n = m := by
  have hlabel : ∀ {name k},
      (Program.ofSource source base).label? name = some k ↔ Source.Names source name k :=
    Program.label?_ofSource_eq_some_iff
  have hword : ∀ {a}, a ≤ 0xFFFF → a < Text.wordLimit := fun ha => Nat.lt_of_le_of_lt ha (by decide)
  refine ⟨fun name => ⟨?_, fun k => hlabel⟩, loaded_load source base, fun m h => ⟨?_, ?_, ?_, ?_⟩,
    fun m location e n herror => (resolve_of_breakpoint_error herror).2⟩
  · simp only [hlabel, Source.exists_names_iff]
  · intro location name k hpadded hnames
    obtain ⟨line, -, hbears⟩ := Source.exists_names_iff.1 ⟨k, hnames⟩
    have htrim : Text.trim location.toList = name :=
      hpadded.trim_eq hbears.ne_nil fun c hc => hbears.isBlank hc
    exact ⟨_, h.resolve_of_names (htrim ▸ hnames), by simp [UInt16.toNat_add]⟩
  · intro location x digits a hpadded hx hdigits ha
    have hblank : ∀ c ∈ '0' :: x :: digits, Text.isBlank c = false := by
      refine List.forall_mem_cons.2 ⟨by decide, List.forall_mem_cons.2 ⟨?_, ?_⟩⟩
      · rcases hx with rfl | rfl <;> decide
      · exact fun c hc => (hdigits.ne_mark hc).1
    -- a label cannot begin with a zero
    refine h.resolve_of_hexNumber? (hpadded.trim_eq (List.cons_ne_nil _ _) hblank) (fun line _ hbears => ?_)
      (Text.hexNumber?_of_mark hx hdigits (hword ha)) ha
    cases hbears.head?_isDigit
  · intro location digits a hpadded hdigits ha hnone
    exact h.resolve_of_hexNumber? (hpadded.trim_eq hdigits.1 fun c hc => (hdigits.ne_mark hc).1) hnone
      (Text.hexNumber?_of_denotes hdigits (hword ha)) ha
  · intro location hnone hlarge
    have hbelow : Text.hexBelow? 0x10000 (Text.trim location.toList) = none := by
      have htrim : Text.hexNumber? (Text.trim location.toList) = Text.hexNumber? location.toList := by
        rw [Text.hexNumber?, Text.trim_trim, Text.hexNumber?]
      rw [Text.hexBelow?, htrim, Option.filter_eq_none_iff]
      intro a ha
      have := hlarge a ha
      simp only [decide_eq_true_eq]
      omega
    rw [h.resolve_of_not_bears hnone, hbelow]

/-- Names that could be numbers. One of them is a label twice, and its address wraps around. -/
theorem locations_resolve_face :
    let source := ["face:", "INC AX", "Face : ; again", "INC AX"]
    let m := after (load source 0xFFFF) (standard "" (.ofInput []))
    m.resolve " FACE " = .ok 0 ∧ m.resolve "0xface" = .ok 0xFACE ∧ m.resolve "fade" = .ok 0xFADE ∧
      m.resolve "10000" = .error (.unknownLabel "10000") := by
  intro source m
  obtain ⟨hlabels, hloaded, hresolve, -⟩ := locations_resolve source 0xFFFF
  obtain ⟨hnamed, hmarked, hbare, hunknown⟩ := hresolve m (hloaded _)
  have hface : Source.Names source ['F', 'A', 'C', 'E'] 1 := ((hlabels _).2 1).1 (by decide +kernel)
  have hnone : ∀ name, (Program.ofSource source 0xFFFF).label? name = none →
      ∀ line ∈ source, ¬Source.Bears line.toList name := by
    intro name hname line hline hbears
    obtain ⟨k, hk⟩ := (hlabels name).1.2 ⟨line, hline, hbears⟩
    rw [hname] at hk
    cases hk
  have hblank : ∀ c ∈ [' '], Text.isBlank c = true := fun c hc => by
    rw [List.mem_singleton.1 hc]
    decide
  have hdenotes : ∀ digits a, '+' ∉ digits → Text.readUnsigned 16 0x10000 digits = some a →
      Text.Denotes 16 digits a :=
    fun digits a hplus hread => ((Text.readUnsigned_eq_some_iff (by decide) hplus).1 hread).1
  have hface' : Text.Denotes 16 ['f', 'a', 'c', 'e'] 0xFACE := hdenotes _ _ (by decide) (by decide)
  have hfade : Text.Denotes 16 ['f', 'a', 'd', 'e'] 0xFADE := hdenotes _ _ (by decide) (by decide)
  have hlarge : Text.hexNumber? "10000".toList = some 0x10000 := by decide +kernel
  refine ⟨?_, ?_, ?_, ?_⟩
  · obtain ⟨a, ha, hvalue⟩ := hnamed " FACE " _ 1 ⟨[' '], [' '], by simp, hblank, hblank⟩ hface
    have hzero : a = 0 := UInt16.toNat_inj.1 hvalue
    rw [ha, hzero]
  · exact hmarked "0xface" 'x' _ 0xFACE ⟨[], [], by simp, by simp, by simp⟩ (.inl rfl) hface' (by decide)
  · exact hbare "fade" _ 0xFADE ⟨[], [], by simp, by simp, by simp⟩ hfade (by decide)
      (hnone _ (by decide +kernel))
  · refine hunknown "10000" (hnone _ (by decide +kernel)) fun a ha => ?_
    rw [hlarge] at ha
    cases ha
    decide

end Machine

end DosMonitor
