import DosMonitor.Proofs.Isolation
import DosMonitor.Proofs.Rejection

/-!
# Blocks that are written

Fill and move take all the bytes that they write before they write the first of them, and a write that has
been let through does not stop half-way. So a block arrives as it was before, however its old and its new place
overlap.

`Overwritten` says that a row of cells has new contents and that no other cell has changed. Main statement
(`blockWrites_exact`): this is what fill and move do to the active page if they succeed, and if they fail they
change nothing.
-/

namespace DosMonitor

/-- A row of cells has new contents, and all other cells have kept theirs. -/
structure Overwritten (before after : Nat → Option UInt8) (start count : Nat)
    (contents : Nat → Option UInt8) : Prop where
  inside : ∀ i < count, after (start + i) = contents i
  outside : ∀ a, a < start ∨ start + count ≤ a → after a = before a

namespace Overwritten

variable {before middle after contents contents' : Nat → Option UInt8} {start count : Nat}

theorem refl (cells : Nat → Option UInt8) (start : Nat) (contents : Nat → Option UInt8) :
    Overwritten cells cells start 0 contents :=
  ⟨fun _ hi => absurd hi (Nat.not_lt_zero _), fun _ _ => rfl⟩

/-- What counts is what the contents are inside of the row. -/
theorem congr (h : Overwritten before after start count contents)
    (hcontents : ∀ i < count, contents i = contents' i) :
    Overwritten before after start count contents' :=
  ⟨fun i hi => (h.inside i hi).trans (hcontents i hi), h.outside⟩

/-- One cell, and then the row behind it. -/
theorem cons {b : UInt8} {bytes : List UInt8}
    (hfirst : ∀ a, middle a = if a = start then some b else before a)
    (hrest : Overwritten middle after (start + 1) bytes.length (bytes[·]?)) :
    Overwritten before after start (b :: bytes).length ((b :: bytes)[·]?) where
  inside i hi := by
    cases i with
    | zero =>
      rw [Nat.add_zero, hrest.outside start (.inl (Nat.lt_succ_self start)), hfirst, if_pos rfl]
      rfl
    | succ i =>
      rw [List.length_cons] at hi
      rw [List.getElem?_cons_succ, ← hrest.inside i (by omega)]
      exact congrArg after (by omega)
  outside a ha := by
    rw [List.length_cons] at ha
    rw [hrest.outside a (by omega), hfirst, if_neg (by omega)]

end Overwritten

namespace Memory

/-- The byte at an address of the active page. -/
def activeByte? (m : Memory) (address : Nat) : Option UInt8 :=
  m.byte? m.activePage address

/-- A block of the active page has new contents, and nothing else in memory has changed. -/
structure Rewritten (m m' : Memory) (start count : Nat) (contents : Nat → Option UInt8) : Prop
    extends m.Frame m' where
  block : Overwritten m.activeByte? m'.activeByte? start count contents

/-- An action that writes a block: where it succeeds, the block has these contents, and where it fails,
nothing has changed. -/
structure Rewrites (x : BusM Memory Unit) (m : Memory) (start count : Nat)
    (contents : Nat → Option UInt8) : Prop where
  ok : ∀ m', x m = .ok () m' → m.Rewritten m' start count contents
  error : Atomic x m

variable {m m' : Memory} {start stop destination address count : Nat} {bytes pattern : List UInt8}
  {contents contents' : Nat → Option UInt8}

theorem Rewritten.congr (h : m.Rewritten m' start count contents)
    (hcontents : ∀ i < count, contents i = contents' i) : m.Rewritten m' start count contents' :=
  { h with block := h.block.congr hcontents }

/-! ## Writing -/

theorem rewritten_writeRun (m : Memory) (hroom : address + bytes.length ≤ pageSize) :
    m.Rewritten (m.writeRun m.activePage address bytes) address bytes.length (bytes[·]?) where
  pageCount := pageCount_writeRun ..
  activePage := activePage_writeRun ..
  bytes page a hpage := by rw [byte?_writeRun bytes m.activePage_lt hroom, if_neg fun h => hpage h.1]
  block.inside i hi := by
    rw [activeByte?, activePage_writeRun, byte?_writeRun bytes m.activePage_lt hroom,
      if_pos ⟨rfl, by omega, by omega⟩, Nat.add_sub_cancel_left]
  block.outside a ha := by
    rw [activeByte?, activePage_writeRun, byte?_writeRun bytes m.activePage_lt hroom,
      if_neg fun h => by omega]
    rfl

theorem rewritten_writeActive (h : writeActive address bytes m = .ok () m') :
    m.Rewritten m' address bytes.length (bytes[·]?) := by
  obtain ⟨haddress, hroom⟩ := succeeds_writeActive.1 ⟨_, _, h⟩
  have hrun : writeActive address bytes m = .ok () (m.writeRun m.activePage address bytes) :=
    pokeBytes_ok bytes m.activePage_lt haddress hroom
  rw [hrun] at h
  obtain ⟨-, rfl⟩ := EStateM.Result.ok.inj h
  exact rewritten_writeRun m hroom

/-! ## What is written -/

theorem getElem?_block (h : m.block start stop = .ok bytes) {i : Nat} (hi : i < stop - start) :
    bytes[i]? = m.activeByte? (start + i) := by
  obtain ⟨⟨-, -, hstop⟩, rfl⟩ := Words.block_eq_ok_iff.1 h
  have hplace : start + i < pageSize := by omega
  rw [activeByte?, byte?_active]
  simp [hplace, hi]

theorem getElem?_repeated (hpattern : pattern ≠ []) {i : Nat} (hi : i < count) :
    (repeated pattern count)[i]? = pattern[i % pattern.length]? := by
  have hcell : i % pattern.length < pattern.length := Nat.mod_lt _ (List.length_pos_iff.2 hpattern)
  simp [repeated, hi, hcell]

@[simp] theorem length_repeated (pattern : List UInt8) (count : Nat) :
    (repeated pattern count).length = count := by
  simp [repeated]

/-! ## Fill and move -/

theorem rewritten_move (h : move start stop destination m = .ok () m') :
    m.Rewritten m' destination (stop - start) fun i => m.activeByte? (start + i) := by
  obtain ⟨bytes, t, hread, hwrite⟩ := of_bind_ok h
  obtain ⟨hblock, rfl⟩ := inspect_ok hread
  have hwritten := rewritten_writeActive hwrite
  rw [(Words.length_of_block hblock).1] at hwritten
  exact hwritten.congr fun i hi => getElem?_block hblock hi

theorem rewritten_fill (hpattern : pattern ≠ []) (h : fill start stop pattern m = .ok () m') :
    m.Rewritten m' start (stop - start) fun i => pattern[i % pattern.length]? := by
  obtain ⟨_, t, hcheck, hwrite⟩ := of_bind_ok h
  obtain ⟨-, rfl⟩ := inspect_ok hcheck
  have hsome : pattern.isEmpty = false := List.isEmpty_eq_false_iff.2 hpattern
  simp only [hsome] at hwrite
  have hwritten := rewritten_writeActive hwrite
  rw [length_repeated] at hwritten
  exact hwritten.congr fun i hi => getElem?_repeated hpattern hi

/-- The range is checked, and that is all. -/
theorem reads_fill_nil (start stop : Nat) : Reads (fill start stop []) :=
  (reads_inspect _).bind fun _ => Reads.pure ()

/-- **Writing blocks has exactly its effect.** A move succeeds exactly if both blocks lie in the page. Then
each byte of the new block is the one that the old block had in its place before, whether the two overlap or
not. A fill succeeds exactly if the block lies in the page, and then the block is the pattern over and over; an
empty pattern changes nothing. All other bytes of all pages are as they were. If a move or a fill fails,
memory is as it was. -/
theorem blockWrites_exact (m : Memory) (start stop : Nat) :
    (∀ destination,
      Rewrites (move start stop destination) m destination (stop - start)
        (fun i => m.activeByte? (start + i)) ∧
      (Succeeds (move start stop destination) m ↔
        (start < pageSize ∧ start ≤ stop ∧ stop ≤ pageSize) ∧
          destination < pageSize ∧ destination + (stop - start) ≤ pageSize)) ∧
    (∀ pattern,
      (pattern ≠ [] → Rewrites (fill start stop pattern) m start (stop - start)
        fun i => pattern[i % pattern.length]?) ∧
      (pattern = [] → endState (fill start stop pattern m) = m) ∧
      (Succeeds (fill start stop pattern) m ↔ start < pageSize ∧ start ≤ stop ∧ stop ≤ pageSize)) := by
  refine ⟨fun destination => ⟨⟨fun m' h => rewritten_move h, ?_⟩, succeeds_move⟩,
    fun pattern => ⟨fun hpattern => ⟨fun m' h => rewritten_fill hpattern h, ?_⟩, ?_, succeeds_fill⟩⟩
  · exact atomic_move start stop destination m
  · exact atomic_fill start stop pattern m
  · rintro rfl
    exact reads_fill_nil start stop m

/-- Four bytes at the end of the page move up by two, onto themselves, and a pattern of three fills the last
five. -/
theorem blockWrites_exact_page_end :
    let m := (Memory.ofPages 1).writeRun 0 0xFFFA [1, 2, 3, 4]
    let pattern : List UInt8 := [7, 8, 9]
    pattern ≠ [] ∧
      (∃ m', move 0xFFFA 0xFFFE 0xFFFC m = .ok () m' ∧ m'.activeByte? 0xFFFB = some 2 ∧
        m'.activeByte? 0xFFFC = some 1 ∧ m'.activeByte? 0xFFFF = some 4) ∧
      ∃ m', fill 0xFFFB 0x10000 pattern m = .ok () m' ∧ m'.activeByte? 0xFFFA = some 1 ∧
        m'.activeByte? 0xFFFE = some 7 ∧ m'.activeByte? 0xFFFF = some 8 := by
  intro m pattern
  have hroom : 0xFFFA + ([1, 2, 3, 4] : List UInt8).length ≤ pageSize := by decide
  have hbefore : ∀ i < 4, m.activeByte? (0xFFFA + i) = [1, 2, 3, 4][i]? :=
    (rewritten_writeRun (ofPages 1) hroom).block.inside
  have hpattern : pattern ≠ [] := List.cons_ne_nil _ _
  obtain ⟨hmoves, -⟩ := blockWrites_exact m 0xFFFA 0xFFFE
  obtain ⟨hmove, hmoved⟩ := hmoves 0xFFFC
  obtain ⟨-, hfills⟩ := blockWrites_exact m 0xFFFB 0x10000
  obtain ⟨hfill, -, hfilled⟩ := hfills pattern
  obtain ⟨_, m₁, h₁⟩ := hmoved.2 (by decide)
  obtain ⟨_, m₂, h₂⟩ := hfilled.2 (by decide)
  obtain ⟨hinside₁, houtside₁⟩ := (hmove.ok m₁ h₁).block
  obtain ⟨hinside₂, houtside₂⟩ := ((hfill hpattern).ok m₂ h₂).block
  refine ⟨hpattern, ⟨m₁, h₁, ?_, ?_, ?_⟩, m₂, h₂, ?_, ?_, ?_⟩
  · rw [houtside₁ 0xFFFB (by decide)]
    exact hbefore 1 (by decide)
  · rw [show 0xFFFC = 0xFFFC + 0 from rfl, hinside₁ 0 (by decide)]
    exact hbefore 0 (by decide)
  · rw [show 0xFFFF = 0xFFFC + 3 from rfl, hinside₁ 3 (by decide)]
    exact hbefore 3 (by decide)
  · rw [houtside₂ 0xFFFA (by decide)]
    exact hbefore 0 (by decide)
  · rw [show 0xFFFE = 0xFFFB + 3 from rfl, hinside₂ 3 (by decide)]
    simp [pattern]
  · rw [show 0xFFFF = 0xFFFB + 4 from rfl, hinside₂ 4 (by decide)]
    simp [pattern]

end Memory

end DosMonitor
