import Mathlib
import DosMonitor.Proofs.Loading

/-!
# Labels

What a label looks like on a line of source is said here without reading the line (`IsLabel`), and which of
the labels of a source a name stands for is said without a table (`Names`): the last one that is spelled
like the name up to case, and it names the place behind the executable lines in front of it.

Main statements: lines are labels as `IsLabel` has them (`label?_eq_some_iff`), and the program of a source
finds the place that a name stands for (`label?_ofSource_eq_some_iff`), if there is one
(`exists_names_iff`).
-/

namespace DosMonitor

namespace Text

theorem toNat_toUpper (c : Char) :
    c.toUpper.toNat = if 97 ≤ c.toNat ∧ c.toNat ≤ 122 then c.toNat - 32 else c.toNat := by
  have hle : ∀ a : Char, a.val ≤ c.val ↔ a.toNat ≤ c.toNat := fun a => UInt32.le_iff_toNat_le
  have hge : ∀ a : Char, c.val ≤ a.val ↔ c.toNat ≤ a.toNat := fun a => UInt32.le_iff_toNat_le
  have ha : 'a'.toNat = 97 := rfl
  have hz : 'z'.toNat = 122 := rfl
  have hshift : ('A'.val - 'a'.val).toNat = 4294967264 := rfl
  unfold Char.toUpper
  simp only [hle, hge, ha, hz]
  split_ifs with h
  · show (c.val + ('A'.val - 'a'.val)).toNat = c.toNat - 32
    rw [UInt32.toNat_add, hshift, Char.toNat_val]
    omega
  · rfl

theorem toUpper_eq_iff {c d : Char} : c.toUpper = d.toUpper ↔ c.toLower = d.toLower := by
  rw [← Char.toNat_inj, ← Char.toNat_inj, toNat_toUpper, toNat_toUpper, toNat_toLower, toNat_toLower]
  split_ifs <;> omega

/-- Capitals and small letters tell the same names apart. -/
theorem upper_eq_iff {s t : List Char} : upper s = upper t ↔ sameName s t = true := by
  rw [sameName_iff, upper, upper, lower, lower, ← List.forall₂_eq_eq_eq, List.forall₂_map_left_iff,
    List.forall₂_map_right_iff, List.forall₂_map_left_iff, List.forall₂_map_right_iff]
  simp only [toUpper_eq_iff]

end Text

theorem labelKey_eq_iff {s t : List Char} : labelKey s = labelKey t ↔ Text.sameName s t = true := by
  rw [labelKey, labelKey, String.ofList_inj, Text.upper_eq_iff]

namespace Source

/-! ## What a label looks like -/

/-- The line is a label of this name: in front of its comment it holds the name and a colon, and blanks
anywhere but inside the name. -/
structure IsLabel (line name : List Char) : Prop where
  spelled : ∃ front middle back, code line = front ++ (name ++ (middle ++ ':' :: back)) ∧
    ∀ c ∈ front ++ (middle ++ back), Text.isBlank c = true
  ne_nil : name ≠ []
  start : ∀ c ∈ name.head?, c.isDigit = false
  chars : ∀ c ∈ name, c.isAlphanum = true ∨ c = '_' ∨ c = '.'

/-- The line holds something that can be run: it is neither blank nor a label. -/
def Executable (line : List Char) : Prop :=
  (∃ c ∈ code line, Text.isBlank c = false) ∧ ∀ name, ¬IsLabel line name

/-- The line is a label that the name stands for, in either case. -/
def Bears (line name : List Char) : Prop :=
  ∃ label, IsLabel line label ∧ Text.sameName label name = true

variable {line name : List Char}

theorem isLabelName_iff :
    isLabelName name = true ↔ name ≠ [] ∧ (∀ c ∈ name.head?, c.isDigit = false) ∧
      ∀ c ∈ name, c.isAlphanum = true ∨ c = '_' ∨ c = '.' := by
  have hstart : name.head?.any Char.isDigit = false ↔ ∀ c ∈ name.head?, c.isDigit = false := by
    cases name.head? <;> simp
  rw [← hstart]
  simp [isLabelName, isLabelChar, Text.isWordChar, and_assoc, or_assoc]

theorem IsLabel.isBlank (h : IsLabel line name) {c : Char} (hc : c ∈ name) : Text.isBlank c = false := by
  obtain hword | rfl | rfl := h.chars c hc
  · exact Text.isBlank_of_isWordChar (by simp [Text.isWordChar, hword])
  · decide
  · decide

/-- **Lines are labels as the grammar has them.** -/
theorem label?_eq_some_iff : label? line = some name ↔ IsLabel line name := by
  rw [label?, Option.filter_eq_some_iff, Option.map_eq_some_iff, isLabelName_iff]
  constructor
  · rintro ⟨⟨rest, hrest, hname⟩, hne, hstart, hchars⟩
    rw [Text.dropLast?_eq_some_iff] at hrest
    obtain ⟨front, back, hcode, hfront, hback⟩ := Text.exists_append_trim (code line)
    obtain ⟨front', middle, hsplit, hfront', hmiddle⟩ := Text.exists_append_trim rest
    refine ⟨⟨front ++ front', middle, back, ?_, ?_⟩, hne, hstart, hchars⟩
    · rw [hcode, hrest, hsplit, hname]
      simp
    · simp only [List.mem_append]
      rintro c ((hc | hc) | hc | hc)
      exacts [hfront c hc, hfront' c hc, hmiddle c hc, hback c hc]
  · intro h
    obtain ⟨front, middle, back, hcode, hblank⟩ := h.spelled
    simp only [List.mem_append] at hblank
    have hhead : ∀ c ∈ name.head?, Text.isBlank c = false := fun c hc => h.isBlank (List.mem_of_mem_head? hc)
    have htrim : Text.trim (code line) = name ++ middle ++ [':'] := by
      have hassoc : front ++ (name ++ (middle ++ ':' :: back)) =
          front ++ ((name ++ middle ++ [':']) ++ back) := by simp
      rw [hcode, hassoc]
      refine Text.trim_append (fun c hc => hblank c (.inl hc)) (fun c hc => hblank c (.inr (.inr hc)))
        (by simp) ?_ ?_
      · rwa [List.append_assoc, List.head?_append_of_ne_nil _ h.ne_nil]
      · rw [List.getLast?_concat]
        rintro c ⟨⟩
        decide
    have hname : Text.trim ([] ++ (name ++ middle)) = name :=
      Text.trim_append (by simp) (fun c hc => hblank c (.inr (.inl hc))) h.ne_nil hhead
        fun c hc => h.isBlank (List.mem_of_mem_getLast? hc)
    exact ⟨⟨name ++ middle, Text.dropLast?_eq_some_iff.2 htrim, hname⟩, h.ne_nil, h.start, h.chars⟩

theorem label?_eq_none_iff : label? line = none ↔ ∀ name, ¬IsLabel line name := by
  simp only [Option.eq_none_iff_forall_ne_some, Ne, label?_eq_some_iff]

theorem isSome_normalLine?_iff : (normalLine? line).isSome = true ↔ Executable line := by
  have hblank : Text.trim (code line) ≠ [] ↔ ∃ c ∈ code line, Text.isBlank c = false := by
    rw [Ne, Text.trim_eq_nil_iff]
    simp
  rw [Executable, ← hblank, ← label?_eq_none_iff, normalLine?]
  split_ifs with hdrop
  · simp only [Bool.or_eq_true, Option.isSome_iff_ne_none, List.isEmpty_iff] at hdrop
    simp only [Option.isSome_none, Bool.false_eq_true, false_iff, not_and_or, not_not]
    tauto
  · simp only [Bool.or_eq_true, Option.isSome_iff_ne_none, List.isEmpty_iff] at hdrop
    simp only [Option.isSome_some, true_iff]
    tauto

instance : DecidablePred Executable :=
  fun _ => decidable_of_iff _ isSome_normalLine?_iff

theorem length_normalLines (source : List String) :
    (normalLines source).length = source.countP fun line => Executable line.toList := by
  induction source with
  | nil => rfl
  | cons line source ih =>
    rw [List.countP_cons, ← ih, normalLines, List.flatMap_cons, List.length_append, Nat.add_comm]
    congr 1
    simp only [decide_eq_true_eq, ← isSome_normalLine?_iff]
    cases normalLine? line.toList <;> rfl

theorem bears_iff : Bears line name ↔ ∃ label, label? line = some label ∧ labelKey label = labelKey name := by
  simp only [Bears, label?_eq_some_iff, labelKey_eq_iff]

namespace Bears

/-- A name that stands for a label looks like one. -/
theorem isBlank (h : Bears line name) {c : Char} (hc : c ∈ name) : Text.isBlank c = false := by
  obtain ⟨label, hlabel, hsame⟩ := h
  have hmem : c.toUpper ∈ Text.upper label :=
    Text.upper_eq_iff.2 hsame ▸ List.mem_map_of_mem (f := Char.toUpper) hc
  obtain ⟨d, hd, hupper⟩ := List.mem_map.1 hmem
  rw [← Text.isBlank_toUpper, ← hupper, Text.isBlank_toUpper]
  exact hlabel.isBlank hd

theorem ne_nil (h : Bears line name) : name ≠ [] := by
  obtain ⟨label, hlabel, hsame⟩ := h
  rintro rfl
  exact hlabel.ne_nil (List.map_eq_nil_iff.1 (Text.upper_eq_iff.2 hsame))

theorem head?_isDigit (h : Bears line name) : name.head?.any Char.isDigit = false := by
  obtain ⟨label, hlabel, hsame⟩ := h
  rw [head?_isDigit_of_sameName hsame]
  cases hhead : label.head? with
  | none => rfl
  | some c => exact hlabel.start c hhead

end Bears

/-! ## Which label a name stands for -/

/-- Of the labels of the source that the name stands for, the last comes behind `n` executable lines. -/
def Names (source : List String) (name : List Char) (n : Nat) : Prop :=
  ∃ before line after, source = before ++ line :: after ∧ Bears line.toList name ∧
    (∀ later ∈ after, ¬Bears later.toList name) ∧ n = before.countP fun line => Executable line.toList

theorem not_names_nil {n : Nat} : ¬Names [] name n := by
  rintro ⟨before, line, after, h, -⟩
  cases before <;> cases h

/-- A line of a source is its last one or comes before it. -/
theorem concat_eq_append_cons {source before after : List String} {line found : String}
    (h : source ++ [line] = before ++ found :: after) :
    (source = before ∧ line = found ∧ after = []) ∨
      ∃ rest, after = rest ++ [line] ∧ source = before ++ found :: rest := by
  rcases List.eq_nil_or_concat' after with rfl | ⟨rest, last, rfl⟩
  · obtain ⟨hsource, hline⟩ := List.append_inj' h rfl
    exact .inl ⟨hsource, List.singleton_inj.1 hline, rfl⟩
  · rw [← List.cons_append, ← List.append_assoc] at h
    obtain ⟨hsource, hline⟩ := List.append_inj' h rfl
    exact .inr ⟨rest, by rw [hline], hsource⟩

/-- One more line that the name stands for is the one that counts. -/
theorem names_concat_of_bears {source : List String} {line : String} (h : Bears line.toList name) {n : Nat} :
    Names (source ++ [line]) name n ↔ n = source.countP fun line => Executable line.toList := by
  constructor
  · rintro ⟨before, found, after, hsource, -, hlast, hn⟩
    obtain ⟨rfl, -, -⟩ | ⟨rest, rfl, -⟩ := concat_eq_append_cons hsource
    · exact hn
    · exact absurd h (hlast line (by simp))
  · rintro rfl
    exact ⟨source, line, [], rfl, h, by simp, rfl⟩

/-- Any other line changes nothing. -/
theorem names_concat_of_not_bears {source : List String} {line : String} (h : ¬Bears line.toList name)
    {n : Nat} : Names (source ++ [line]) name n ↔ Names source name n := by
  constructor
  · rintro ⟨before, found, after, hsource, hfound, hlast, hn⟩
    obtain ⟨-, rfl, -⟩ | ⟨rest, rfl, rfl⟩ := concat_eq_append_cons hsource
    · exact absurd hfound h
    · exact ⟨before, found, rest, rfl, hfound, fun l hl => hlast l (List.mem_append_left _ hl), hn⟩
  · rintro ⟨before, found, after, rfl, hfound, hlast, hn⟩
    refine ⟨before, found, after ++ [line], by simp, hfound, fun l hl => ?_, hn⟩
    rcases List.mem_append.1 hl with hl | hl
    · exact hlast l hl
    · obtain rfl := List.mem_singleton.1 hl
      exact h

/-- A name stands for a place where a line bears it. -/
theorem exists_names_iff {source : List String} :
    (∃ n, Names source name n) ↔ ∃ line ∈ source, Bears line.toList name := by
  induction source using List.reverseRecOn with
  | nil => simp [not_names_nil]
  | append_singleton source line ih =>
    by_cases h : Bears line.toList name
    · simp only [names_concat_of_bears h, exists_eq, true_iff]
      exact ⟨line, by simp, h⟩
    · simp only [names_concat_of_not_bears h, ih, List.mem_append, List.mem_singleton, or_and_right,
        exists_or, exists_eq_left, h, or_false]

end Source

/-! ## The labels of a program -/

/-- Entries under another key do not matter to a look-up. -/
theorem lookup_filter_ne {α β : Type} [BEq α] [LawfulBEq α] {key other : α} (h : key ≠ other)
    (entries : List (α × β)) :
    List.lookup key (entries.filter fun entry => entry.1 != other) = List.lookup key entries := by
  induction entries with
  | nil => rfl
  | cons entry entries ih =>
    obtain ⟨name, value⟩ := entry
    by_cases hname : name = other
    · have hne : (key == name) = false := by simpa [hname] using h
      rw [List.filter_cons_of_neg (by simp [hname]), ih, List.lookup_cons, hne]
    · rw [List.filter_cons_of_pos (by simp [hname]), List.lookup_cons, List.lookup_cons, ih]

theorem Labels.line?_define (labels : Labels) (name other : List Char) (line : Nat) :
    (labels.define name line).line? other =
      if labelKey name = labelKey other then some line else labels.line? other := by
  unfold Labels.line? Labels.define
  split_ifs with h
  · rw [h, List.lookup_cons_self]
  · have hne : (labelKey other == labelKey name) = false := by simpa using Ne.symm h
    rw [List.lookup_cons, hne]
    exact lookup_filter_ne (Ne.symm h) labels

namespace Program

variable {p : Program} {line name : List Char}

theorem label?_addLine_of_bears (h : Source.Bears line name) :
    (p.addLine line).label? name = some p.lines.size := by
  obtain ⟨label, hlabel, hkey⟩ := Source.bears_iff.1 h
  rw [addLine, hlabel]
  exact (Labels.line?_define ..).trans (if_pos hkey)

theorem label?_addLine_of_not_bears (h : ¬Source.Bears line name) :
    (p.addLine line).label? name = p.label? name := by
  cases hlabel : Source.label? line with
  | none => rw [label?, (p.addLine_eq line).2 hlabel, label?]
  | some label =>
    have hkey : labelKey label ≠ labelKey name := fun hkey => h (Source.bears_iff.2 ⟨label, hlabel, hkey⟩)
    rw [addLine, hlabel]
    exact (Labels.line?_define ..).trans (if_neg hkey)

theorem size_lines_ofSource (source : List String) (base : UInt16) :
    (ofSource source base).lines.size = source.countP fun line => Source.Executable line.toList := by
  rw [← Array.length_toList, lines_ofSource, Source.length_normalLines]

/-- **A name finds the last label that bears it**, and this names the place behind the executable lines in
front of it. -/
theorem label?_ofSource_eq_some_iff {source : List String} {base : UInt16} {n : Nat} :
    (ofSource source base).label? name = some n ↔ Source.Names source name n := by
  induction source using List.reverseRecOn with
  | nil =>
    refine iff_of_false ?_ Source.not_names_nil
    rintro ⟨⟩
  | append_singleton source line ih =>
    have hadd : ofSource (source ++ [line]) base = (ofSource source base).addLine line.toList :=
      List.foldl_concat ..
    rw [hadd]
    by_cases h : Source.Bears line.toList name
    · rw [label?_addLine_of_bears h, Source.names_concat_of_bears h, size_lines_ofSource, Option.some.injEq,
        eq_comm]
    · rw [label?_addLine_of_not_bears h, Source.names_concat_of_not_bears h, ih]

end Program

end DosMonitor
