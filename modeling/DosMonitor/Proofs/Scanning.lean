import DosMonitor.Proofs.BlockWrites
import DosMonitor.Proofs.StringOutput

/-!
# What is found on the active page

Search and compare go over the active page from one address to the next, list the places they are after and
leave the page alone. They have two sides each: the places, said without going over the page, and the lines that
show them.

Main statements: search lists the places at which the pattern stands, those that overlap included
(`search_exact`), and compare lists the places at which two blocks differ, so a block is equal to its copy
(`compare_exact`).
-/

namespace DosMonitor

/-- A command that only looks at memory leaves the whole machine as it is. -/
theorem Machine.look_ok (look : Memory → Except MemoryError (List String)) {lines : List String}
    {m : Machine} (h : look m.memory = .ok lines) :
    (get >>= fun n => ofMemory (look n.memory) >>= fun found =>
      pure (CommandOutput.ofLines found) : MachineM CommandOutput) m = .ok (.ofLines lines) m := by
  change (ofMemory (look m.memory) >>= fun found => pure (CommandOutput.ofLines found)) m = _
  rw [h]
  rfl

namespace Memory

variable {m m' : Memory} {start stop destination address count : Nat} {pattern : List UInt8}

/-! ## Places -/

theorem toList_locationText (page address : Nat) :
    (locationText page address).toList = Text.hexChars 4 page ++ ':' :: Text.hexChars 4 address := by
  change (Text.hex 4 page ++ ":" ++ Text.hex 4 address).toList = _
  simp [Text.hex]

/-- Different addresses have different texts. -/
theorem locationText_injective (page : Nat) : Function.Injective (locationText page) := by
  intro a b h
  have hchars := congrArg String.toList h
  rw [toList_locationText, toList_locationText] at hchars
  have hdigits : Text.hexChars 4 a = Text.hexChars 4 b :=
    (List.cons.inj (List.append_cancel_left hchars)).2
  have hread := Text.readDigits_hexChars 4 a
  rw [hdigits, Text.readDigits_hexChars] at hread
  exact (Option.some.inj hread).symm

theorem lt_pageSize_of_activeByte? {b : UInt8} (h : m.activeByte? address = some b) :
    address < pageSize :=
  lt_pageSize_of_byte? h

/-! ## Search -/

/-- A pattern stands at an address of the active page. -/
def Holds (m : Memory) (address : Nat) (pattern : List UInt8) : Prop :=
  address + pattern.length ≤ pageSize ∧
    ∀ i < pattern.length, m.activeByte? (address + i) = pattern[i]?

/-- The places from an address on at which a pattern stands. -/
def placesOf (m : Memory) (start : Nat) (pattern : List UInt8) : List Nat :=
  if pattern.isEmpty then []
  else (List.range' start (pageSize - start)).filter (holdsAt m.active · pattern)

theorem holdsAt_iff (page : Page) (address : Nat) (pattern : List UInt8) :
    holdsAt page address pattern = true ↔ ∀ i < pattern.length, page[address + i]? = pattern[i]? := by
  induction pattern generalizing address with
  | nil => simp [holdsAt]
  | cons b pattern ih =>
    rw [holdsAt, Bool.and_eq_true, beq_iff_eq, ih, List.length_cons, Nat.forall_lt_succ_left]
    simp only [Nat.add_zero, List.getElem?_cons_zero, List.getElem?_cons_succ]
    refine and_congr_right fun _ => forall₂_congr fun i _ => ?_
    rw [Nat.add_assoc, Nat.add_comm 1 i]

/-- A pattern of which all bytes are there does not go past the page. -/
theorem holdsAt_active_iff (m : Memory) (hpattern : pattern ≠ []) :
    holdsAt m.active address pattern = true ↔ m.Holds address pattern := by
  rw [holdsAt_iff]
  have hbytes : (∀ i < pattern.length, m.active[address + i]? = pattern[i]?) ↔
      ∀ i < pattern.length, m.activeByte? (address + i) = pattern[i]? := by
    simp only [activeByte?, byte?_active]
  rw [hbytes]
  refine ⟨fun h => ⟨?_, h⟩, And.right⟩
  have hpos : 0 < pattern.length := List.length_pos_iff.2 hpattern
  have hlast := h (pattern.length - 1) (by omega)
  rw [List.getElem?_eq_getElem (by omega)] at hlast
  have hplace := lt_pageSize_of_activeByte? hlast
  omega

theorem mem_placesOf_iff {a : Nat} :
    a ∈ m.placesOf start pattern ↔ pattern ≠ [] ∧ start ≤ a ∧ m.Holds a pattern := by
  by_cases hpattern : pattern = []
  · subst hpattern
    simp [placesOf]
  · have hsome : pattern.isEmpty = false := List.isEmpty_eq_false_iff.2 hpattern
    have hpos : 0 < pattern.length := List.length_pos_iff.2 hpattern
    simp only [placesOf, hsome, Bool.false_eq_true, if_false, List.mem_filter, List.mem_range'_1,
      m.holdsAt_active_iff hpattern]
    constructor
    · rintro ⟨⟨hle, -⟩, hholds⟩
      exact ⟨hpattern, hle, hholds⟩
    · rintro ⟨-, hle, hholds⟩
      have hroom := hholds.1
      exact ⟨⟨hle, by omega⟩, hholds⟩

theorem pairwise_placesOf (m : Memory) (start : Nat) (pattern : List UInt8) :
    (m.placesOf start pattern).Pairwise (· < ·) := by
  unfold placesOf
  split_ifs
  · exact .nil
  · exact List.Pairwise.filter _ (List.pairwise_lt_range' ..)

theorem search_eq (m : Memory) (hstart : start < pageSize) (pattern : List UInt8) :
    m.search start pattern = .ok ((m.placesOf start pattern).map (locationText m.activePage)) := by
  have hrange : checkRange start pageSize = .ok () := (checkRange_eq_ok _ _).2 ⟨hstart, hstart.le, le_rfl⟩
  unfold search placesOf
  rw [hrange]
  cases pattern <;> rfl

/-! ## Compare -/

/-- The offsets at which two blocks of the active page differ. -/
def differences (m : Memory) (start destination count : Nat) : List Nat :=
  (List.range count).filter fun i => m.activeByte? (start + i) != m.activeByte? (destination + i)

/-- A line that shows two places and, between them, the bytes that stand there. -/
def differenceText (here there : String) (x y : UInt8) : String :=
  s!"{here} {Text.hex 2 x.toNat} {Text.hex 2 y.toNat} {there}"

/-- The line for an offset at which two blocks differ. -/
def IsDifference (m : Memory) (start destination i : Nat) (line : String) : Prop :=
  ∃ x y, m.activeByte? (start + i) = some x ∧ m.activeByte? (destination + i) = some y ∧
    line = differenceText (locationText m.activePage (start + i))
      (locationText m.activePage (destination + i)) x y

theorem mem_differences_iff {i : Nat} : i ∈ m.differences start destination count ↔
    i < count ∧ m.activeByte? (start + i) ≠ m.activeByte? (destination + i) := by
  simp [differences]

theorem pairwise_differences (m : Memory) (start destination count : Nat) :
    (m.differences start destination count).Pairwise (· < ·) :=
  List.Pairwise.filter _ List.pairwise_lt_range

theorem differences_comm (m : Memory) (start destination count : Nat) :
    m.differences start destination count = m.differences destination start count :=
  List.filter_congr fun _ _ => bne_comm ..

theorem differences_eq_nil_iff : m.differences start destination count = [] ↔
    ∀ i < count, m.activeByte? (start + i) = m.activeByte? (destination + i) := by
  simp [differences]

theorem zipIdx_zip {xs ys : List UInt8} (hlength : xs.length = ys.length) :
    (xs.zip ys).zipIdx =
      (List.range xs.length).map fun i => ((xs[i]?.getD 0, ys[i]?.getD 0), i) := by
  refine List.ext_getElem (by simp [hlength]) fun i hi hi' => ?_
  have hx : i < xs.length := by simpa using hi'
  have hy : i < ys.length := by omega
  simp [hx, hy]

/-- The lines of a comparison are those of the differences, in order. -/
theorem forall₂_of_compare {lines : List String} (h : m.compare start stop destination = .ok lines) :
    List.Forall₂ (m.IsDifference start destination) (m.differences start destination (stop - start))
      lines := by
  obtain ⟨left, hleft, hrest⟩ := Source.bind_eq_ok_iff.1 h
  obtain ⟨destinationStop, hend, hrest⟩ := Source.bind_eq_ok_iff.1 hrest
  obtain ⟨right, hright, hlines⟩ := Source.bind_eq_ok_iff.1 hrest
  obtain ⟨hcount, -, -, hstop⟩ := Words.length_of_block hleft
  obtain ⟨hcount', -, -, hstop'⟩ := Words.length_of_block hright
  obtain rfl := Words.rangeEnd_ok hend
  have hlength : left.length = right.length := by omega
  -- each offset has its byte in both blocks
  have hbytes : ∀ i < stop - start,
      m.activeByte? (start + i) = some (left[i]?.getD 0) ∧
        m.activeByte? (destination + i) = some (right[i]?.getD 0) := by
    intro i hi
    rw [← getElem?_block hleft hi, ← getElem?_block hright (show i < _ by omega)]
    have hx : i < left.length := by omega
    have hy : i < right.length := by omega
    simp [hx, hy]
  have hdiffer : (List.range (stop - start)).filter
      (fun i => left[i]?.getD 0 != right[i]?.getD 0) = m.differences start destination (stop - start) := by
    refine List.filter_congr fun i hi => ?_
    obtain ⟨hx, hy⟩ := hbytes i (List.mem_range.1 hi)
    rw [hx, hy]
    rfl
  obtain rfl := Except.ok.inj hlines
  rw [zipIdx_zip hlength, List.filter_map, List.map_map, hcount]
  change List.Forall₂ _ _ (List.map _ ((List.range (stop - start)).filter
    fun i => left[i]?.getD 0 != right[i]?.getD 0))
  rw [hdiffer, List.forall₂_map_right_iff, List.forall₂_same]
  intro i hi
  obtain ⟨hx, hy⟩ := hbytes i (mem_differences_iff.1 hi).1
  exact ⟨_, _, hx, hy, rfl⟩

/-- Of blocks that differ at one offset one line is shown. -/
theorem compare_eq_singleton {lines : List String} {i : Nat} {x y : UInt8}
    (h : m.compare start stop destination = .ok lines) (hi : i < stop - start)
    (hx : m.activeByte? (start + i) = some x) (hy : m.activeByte? (destination + i) = some y) (hxy : x ≠ y)
    (hsame : ∀ j < stop - start, j ≠ i →
      m.activeByte? (start + j) = m.activeByte? (destination + j)) :
    lines = [differenceText (locationText m.activePage (start + i))
      (locationText m.activePage (destination + i)) x y] := by
  have honly : m.differences start destination (stop - start) = [i] := by
    have hnodup := (m.pairwise_differences start destination (stop - start)).imp Nat.ne_of_lt
    refine List.perm_singleton.1 ((List.perm_ext_iff_of_nodup hnodup (List.nodup_singleton i)).2 fun j => ?_)
    rw [mem_differences_iff, List.mem_singleton]
    constructor
    · rintro ⟨hj, hdiffer⟩
      exact by_contra fun hne => hdiffer (hsame j hj hne)
    · rintro rfl
      exact ⟨hi, by rw [hx, hy]; simpa using hxy⟩
  have hshown := forall₂_of_compare h
  rw [honly] at hshown
  obtain ⟨line, rest, ⟨x', y', hx', hy', rfl⟩, hrest, rfl⟩ := List.forall₂_cons_left_iff.1 hshown
  obtain rfl := List.forall₂_nil_left_iff.1 hrest
  obtain rfl := Option.some.inj (hx.symm.trans hx')
  obtain rfl := Option.some.inj (hy.symm.trans hy')
  rfl

/-- After a block has been moved out of its place, the copy is equal to it. -/
theorem compare_move (h : move start stop destination m = .ok () m')
    (hapart : stop ≤ destination ∨ destination + (stop - start) ≤ start) :
    m'.compare start stop destination = .ok [] := by
  obtain ⟨lines, hlines⟩ := (exists_compare_iff (m := m')).2 (succeeds_move.1 ⟨(), m', h⟩)
  have hblock := (rewritten_move h).block
  have hnone : m'.differences start destination (stop - start) = [] :=
    differences_eq_nil_iff.2 fun i hi => by
      rw [hblock.inside i hi, hblock.outside (start + i) (by omega)]
  have hshown := forall₂_of_compare hlines
  rw [hnone, List.forall₂_nil_left_iff] at hshown
  rw [hlines, hshown]

/-! ## What is found -/

/-- **Search is sound and complete.** From an address of the page on, it lists the places at which the pattern
stands, in increasing order, each once and no other, whether they overlap or not. Going over the page window by
window gives the same list. Nothing is found for an empty pattern or one that is longer than the rest of the
page, and memory and machine stay as they are. -/
theorem search_exact (m : Memory) {start : Nat} (hstart : start < pageSize) (pattern : List UInt8) :
    ∃ (places : List Nat) (lines : List String), m.search start pattern = .ok lines ∧
      lines = places.map (locationText m.activePage) ∧ places.Pairwise (· < ·) ∧ lines.Nodup ∧
      (∀ a, a ∈ places ↔ pattern ≠ [] ∧ start ≤ a ∧ m.Holds a pattern) ∧
      (pattern = [] ∨ pageSize < start + pattern.length → lines = []) ∧
      Words.search start pattern m = .ok lines m ∧
      ∀ (host : Host) (machine : Machine), machine.memory = m →
        (Command.search start pattern).perform host machine = .ok (.ofLines lines) machine := by
  have hsearch := m.search_eq hstart pattern
  have hpairwise := m.pairwise_placesOf start pattern
  refine ⟨m.placesOf start pattern, _, hsearch, rfl, hpairwise, ?_, fun a => mem_placesOf_iff, ?_, ?_, ?_⟩
  · exact List.Nodup.map (locationText_injective m.activePage) (hpairwise.imp Nat.ne_of_lt)
  · intro hnothing
    rw [List.map_eq_nil_iff, List.eq_nil_iff_forall_not_mem]
    intro a ha
    obtain ⟨hpattern, hle, hroom, -⟩ := mem_placesOf_iff.1 ha
    rcases hnothing with rfl | hlong
    · exact hpattern rfl
    · omega
  · rw [Words.realizes_search start pattern m, inspect_of_ok hsearch]
    rfl
  · rintro host machine rfl
    exact Machine.look_ok (·.search start pattern) hsearch

/-- Three equal bytes at the end of the page hold a pattern of two twice, the second time up to the last
byte. -/
theorem search_exact_overlap :
    let m := (Memory.ofPages 1).writeRun 0 0xFFFD [0x41, 0x41, 0x41]
    0xFFF0 < pageSize ∧ ∃ lines, m.search 0xFFF0 [0x41, 0x41] = .ok lines ∧
      "0000:FFFD" ∈ lines ∧ "0000:FFFE" ∈ lines ∧ "0000:FFFF" ∉ lines := by
  intro m
  have hroom : 0xFFFD + ([0x41, 0x41, 0x41] : List UInt8).length ≤ pageSize := by decide
  have hbytes : ∀ i < 3, m.activeByte? (0xFFFD + i) = [0x41, 0x41, 0x41][i]? :=
    (rewritten_writeRun (ofPages 1) hroom).block.inside
  have hholds : ∀ k < 2, m.Holds (0xFFFD + k) [0x41, 0x41] := by
    have hequal : ∀ k < 2, ∀ i < 2,
        ([0x41, 0x41, 0x41] : List UInt8)[k + i]? = [0x41, 0x41][i]? := by decide
    refine fun k hk => ⟨show 0xFFFD + k + 2 ≤ 0x10000 by omega, fun i (hi : i < 2) => ?_⟩
    rw [Nat.add_assoc, hbytes (k + i) (by omega), hequal k hk i hi]
  have hstart : 0xFFF0 < pageSize := by decide
  obtain ⟨places, lines, hsearch, hlines, -, -, hplaces, -⟩ := search_exact m hstart [0x41, 0x41]
  have hactive : m.activePage = 0 := activePage_writeRun ..
  rw [hactive] at hlines
  have hfound : ∀ k < 2, locationText 0 (0xFFFD + k) ∈ lines := fun k hk => by
    rw [hlines]
    exact List.mem_map_of_mem ((hplaces _).2 ⟨List.cons_ne_nil _ _, by omega, hholds k hk⟩)
  have htexts : locationText 0 (0xFFFD + 0) = "0000:FFFD" ∧ locationText 0 (0xFFFD + 1) = "0000:FFFE" ∧
      locationText 0 0xFFFF = "0000:FFFF" := by decide
  refine ⟨hstart, lines, hsearch, ?_, ?_, fun h => ?_⟩
  · rw [← htexts.1]
    exact hfound 0 (by decide)
  · rw [← htexts.2.1]
    exact hfound 1 (by decide)
  · rw [← htexts.2.2, hlines, List.mem_map_of_injective (locationText_injective 0)] at h
    obtain ⟨-, -, hpast, -⟩ := (hplaces _).1 h
    exact absurd hpast (by decide)

/-- **Compare lists exactly the differences.** It succeeds exactly if both blocks lie in the page. Then it shows,
in increasing order, the offsets at which the blocks differ and no other, each with its places and their
bytes. It shows nothing exactly if the blocks are equal, and as many lines from the other side. Memory and
machine stay as they are. After a block has been moved to a place that is apart from its own, the two are
equal. -/
theorem compare_exact (m : Memory) (start stop destination : Nat) :
    ((∃ lines, m.compare start stop destination = .ok lines) ↔
      (start < pageSize ∧ start ≤ stop ∧ stop ≤ pageSize) ∧
        destination < pageSize ∧ destination + (stop - start) ≤ pageSize) ∧
    (∀ lines, m.compare start stop destination = .ok lines →
      (∃ offsets : List Nat, offsets.Pairwise (· < ·) ∧
        (∀ i, i ∈ offsets ↔
          i < stop - start ∧ m.activeByte? (start + i) ≠ m.activeByte? (destination + i)) ∧
        List.Forall₂ (m.IsDifference start destination) offsets lines) ∧
      (lines = [] ↔
        ∀ i < stop - start, m.activeByte? (start + i) = m.activeByte? (destination + i)) ∧
      (∃ back, m.compare destination (destination + stop - start) start = .ok back ∧
        back.length = lines.length) ∧
      Words.compare start stop destination m = .ok lines m ∧
      ∀ (host : Host) (machine : Machine), machine.memory = m →
        (Command.compare start stop destination).perform host machine =
          .ok (.ofLines lines) machine) ∧
    ∀ m', move start stop destination m = .ok () m' →
      stop ≤ destination ∨ destination + (stop - start) ≤ start →
        m'.compare start stop destination = .ok [] := by
  refine ⟨exists_compare_iff, fun lines h => ?_, fun m' => compare_move⟩
  have hrange := exists_compare_iff.1 ⟨lines, h⟩
  have hshown := forall₂_of_compare h
  have hlength := hshown.length_eq
  refine ⟨⟨_, m.pairwise_differences _ _ _, fun i => mem_differences_iff, hshown⟩, ?_, ?_, ?_, ?_⟩
  · rw [← differences_eq_nil_iff, ← List.length_eq_zero_iff, ← List.length_eq_zero_iff, hlength]
  · obtain ⟨back, hback⟩ :
        ∃ back, m.compare destination (destination + stop - start) start = .ok back :=
      exists_compare_iff.2 (by omega)
    have hcount : destination + stop - start - destination = stop - start := by omega
    have hshownBack := (forall₂_of_compare hback).length_eq
    rw [hcount, differences_comm, hlength] at hshownBack
    exact ⟨back, hback, hshownBack.symm⟩
  · rw [Words.realizes_compare start stop destination m, inspect_of_ok h]
    rfl
  · rintro host machine rfl
    exact Machine.look_ok (·.compare start stop destination) h

/-- The last two bytes of the page differ from the two one place in front of them, from either side. After they
have been moved away their copy is equal to them. -/
theorem compare_exact_page_end :
    let m := (Memory.ofPages 1).writeRun 0 0xFFFD [5, 5, 6]
    m.compare 0xFFFE 0x10000 0xFFFD = .ok ["0000:FFFF 06 05 0000:FFFE"] ∧
    m.compare 0xFFFD 0xFFFF 0xFFFE = .ok ["0000:FFFE 05 06 0000:FFFF"] ∧
    (0x10000 ≤ 0xFFFC ∨ 0xFFFC + (0x10000 - 0xFFFE) ≤ 0xFFFE) ∧
    ∃ m', move 0xFFFE 0x10000 0xFFFC m = .ok () m' ∧ m'.compare 0xFFFE 0x10000 0xFFFC = .ok [] := by
  intro m
  have hroom : 0xFFFD + ([5, 5, 6] : List UInt8).length ≤ pageSize := by decide
  have hbytes : ∀ i < 3, m.activeByte? (0xFFFD + i) = [5, 5, 6][i]? :=
    (rewritten_writeRun (ofPages 1) hroom).block.inside
  obtain ⟨hfirst, hsecond, hlast⟩ : m.activeByte? 0xFFFD = some 5 ∧ m.activeByte? 0xFFFE = some 5 ∧
      m.activeByte? 0xFFFF = some 6 :=
    ⟨hbytes 0 (by decide), hbytes 1 (by decide), hbytes 2 (by decide)⟩
  obtain ⟨hsucceeds, hlines, -⟩ := compare_exact m 0xFFFE 0x10000 0xFFFD
  obtain ⟨lines, hcompare⟩ := hsucceeds.2 (by decide)
  obtain ⟨-, -, ⟨back, hback, -⟩, -⟩ := hlines lines hcompare
  -- the first bytes of the blocks are equal, so the second offset is the only one that is shown
  have hsame : ∀ j < 2, j ≠ 1 → m.activeByte? (0xFFFE + j) = m.activeByte? (0xFFFD + j) := by
    intro j hj hne
    obtain rfl : j = 0 := by omega
    exact hsecond.trans hfirst.symm
  obtain rfl : lines = ["0000:FFFF 06 05 0000:FFFE"] :=
    (compare_eq_singleton hcompare (by decide) hlast hsecond (by decide) hsame).trans (by decide +kernel)
  obtain rfl : back = ["0000:FFFE 05 06 0000:FFFF"] :=
    (compare_eq_singleton hback (by decide) hsecond hlast (by decide)
      fun j hj hne => (hsame j hj hne).symm).trans (by decide +kernel)
  obtain ⟨-, -, hmoved⟩ := compare_exact m 0xFFFE 0x10000 0xFFFC
  have hmovable : Succeeds (move 0xFFFE 0x10000 0xFFFC) m := succeeds_move.2 (by decide)
  obtain ⟨_, m', hmove⟩ := hmovable
  have hapart : 0x10000 ≤ 0xFFFC ∨ 0xFFFC + (0x10000 - 0xFFFE) ≤ 0xFFFE := .inr (by decide)
  exact ⟨hcompare, hback, hapart, m', hmove, hmoved m' hmove hapart⟩

end Memory

end DosMonitor
