import DosMonitor.Proofs.Arguments

/-!
# Dumps

A dump cuts bytes into rows of sixteen and shows each row twice, in digits and in characters. Nothing is lost:
the digits of all rows, one after the other, are a pattern, and the pattern is the bytes.

A line is taken apart again without its label being known (`hexField`, `textColumn`), since no label has a space
in it. Main statement: `dumps_lossless`.
-/

namespace DosMonitor

namespace Text

/-! ## Rows -/

section Rows
variable {bytes : List UInt8}

theorem getElem?_rows {k : Nat} {row : List UInt8} (h : (rows bytes)[k]? = some row) :
    row = (bytes.drop (k * rowLength)).take rowLength := by
  simp only [rows, List.getElem?_map, Option.map_eq_some_iff] at h
  obtain ⟨i, hi, rfl⟩ := h
  obtain rfl : k = i := by
    obtain ⟨hk, hvalue⟩ := List.getElem?_eq_some_iff.1 hi
    simpa using hvalue
  simp

theorem length_rows (bytes : List UInt8) : (rows bytes).length = (bytes.length + 15) / 16 := by
  simp [rows, rowLength]

/-- The first row, and then the rows of what is left. -/
theorem rows_eq_cons (h : bytes ≠ []) :
    rows bytes = bytes.take rowLength :: rows (bytes.drop rowLength) := by
  have hpos : 0 < bytes.length := List.length_pos_iff.2 h
  have hcount : (bytes.length + rowLength - 1) / rowLength =
      ((bytes.drop rowLength).length + rowLength - 1) / rowLength + 1 := by
    rw [List.length_drop, rowLength]
    omega
  unfold rows
  rw [hcount, List.range_succ_eq_map, List.map_cons, List.map_map]
  congr 1
  · simp
  · refine List.map_congr_left fun k _ => ?_
    have hplace : (k + 1) * rowLength = rowLength + k * rowLength := by ring
    simp [hplace, List.drop_drop]

theorem rows_induction {P : List UInt8 → Prop} (nil : P [])
    (cons : ∀ bytes, bytes ≠ [] → P (bytes.drop rowLength) → P bytes) (bytes : List UInt8) :
    P bytes := by
  induction hn : bytes.length using Nat.strong_induction_on generalizing bytes with
  | h n ih =>
    by_cases h : bytes = []
    · exact h ▸ nil
    · refine cons bytes h (ih _ ?_ _ rfl)
      have hpos : 0 < bytes.length := List.length_pos_iff.2 h
      rw [List.length_drop, rowLength]
      omega

theorem flatten_rows (bytes : List UInt8) : (rows bytes).flatten = bytes := by
  induction bytes using rows_induction with
  | nil => rfl
  | cons bytes h ih => rw [rows_eq_cons h, List.flatten_cons, ih, List.take_append_drop]

theorem ne_nil_of_mem_rows {row : List UInt8} (h : row ∈ rows bytes) : row ≠ [] := by
  induction bytes using rows_induction with
  | nil => cases h
  | cons bytes hne ih =>
    rw [rows_eq_cons hne] at h
    rcases List.mem_cons.1 h with rfl | h
    · simpa [rowLength] using hne
    · exact ih h

end Rows

/-! ## Digits -/

theorem intercalate_append {α : Type} {sep : List α} {xs ys : List (List α)} (hxs : xs ≠ [])
    (hys : ys ≠ []) : sep.intercalate (xs ++ ys) = sep.intercalate xs ++ sep ++ sep.intercalate ys := by
  induction xs with
  | nil => exact absurd rfl hxs
  | cons x xs ih =>
    by_cases h : xs = []
    · subst h
      rw [List.singleton_append, List.intercalate_cons_of_ne_nil hys, List.intercalate_singleton]
    · rw [List.cons_append, List.intercalate_cons_of_ne_nil (List.append_ne_nil_of_left_ne_nil h _), ih h,
        List.intercalate_cons_of_ne_nil h]
      simp

theorem intercalate_flatten {α : Type} {sep : List α} {groups : List (List (List α))}
    (h : ∀ group ∈ groups, group ≠ []) :
    sep.intercalate (groups.map sep.intercalate) = sep.intercalate groups.flatten := by
  induction groups with
  | nil => rfl
  | cons group groups ih =>
    obtain ⟨hgroup, hgroups⟩ := List.forall_mem_cons.1 h
    by_cases hnil : groups = []
    · subst hnil
      simp
    · have hflatten : groups.flatten ≠ [] := by
        obtain ⟨first, hfirst⟩ := List.exists_mem_of_ne_nil _ hnil
        exact fun hempty => hgroups first hfirst (List.flatten_eq_nil_iff.1 hempty first hfirst)
      rw [List.map_cons, List.intercalate_cons_of_ne_nil (by simpa using hnil), ih hgroups, List.flatten_cons,
        intercalate_append hgroup hflatten]

section Digits
variable {bytes : List UInt8}

def byteWords (bytes : List UInt8) : List (List Char) :=
  bytes.map fun b => (hex 2 b.toNat).toList

theorem toList_bytesText (bytes : List UInt8) :
    (bytesText bytes).toList = [' '].intercalate (byteWords bytes) := by
  rw [bytesText, String.toList_intercalate, List.map_map]
  rfl

theorem isUnbroken_of_mem_byteWords {w : List Char} (h : w ∈ byteWords bytes) : IsUnbroken w := by
  obtain ⟨b, -, rfl⟩ := List.mem_map.1 h
  exact isUnbroken_hex 2 b.toNat

theorem isTrimmed_intercalate {ws : List (List Char)} (hne : ws ≠ []) (h : ∀ w ∈ ws, IsUnbroken w) :
    IsTrimmed ([' '].intercalate ws) := by
  induction ws with
  | nil => exact absurd rfl hne
  | cons w ws ih =>
    obtain ⟨hw, hws⟩ := List.forall_mem_cons.1 h
    by_cases hnil : ws = []
    · subst hnil
      rw [List.intercalate_singleton]
      exact hw.isTrimmed
    · rw [List.intercalate_cons_of_ne_nil hnil, List.append_assoc]
      exact (ih hnil hws).cons_word hw

theorem isTrimmed_bytesText (h : bytes ≠ []) : IsTrimmed (bytesText bytes).toList := by
  rw [toList_bytesText]
  exact isTrimmed_intercalate (by simpa [byteWords] using h) fun _ => isUnbroken_of_mem_byteWords

/-- Blanks behind a text are in none of its words. -/
theorem words_append_blanks {s back : List Char} (hback : ∀ c ∈ back, isBlank c = true) :
    words (s ++ back) = words s := by
  have hnone : back.foldr growWords ([], []) = ([], []) := by
    induction back with
    | nil => rfl
    | cons c back ih =>
      obtain ⟨hc, hback⟩ := List.forall_mem_cons.1 hback
      rw [List.foldr_cons, ih hback, growWords, if_pos hc]
      rfl
  rw [words, List.foldr_append, hnone]
  rfl

theorem isBlank_of_mem_spaces {n : Nat} {c : Char} (h : c ∈ List.replicate n ' ') : isBlank c = true := by
  rw [List.eq_of_mem_replicate h]
  decide

theorem words_padRight (width : Nat) (s : List Char) : words (padRight width s) = words s :=
  words_append_blanks fun _ => isBlank_of_mem_spaces

theorem IsTrimmed.trim_padRight {s : List Char} (h : IsTrimmed s) (width : Nat) :
    trim (padRight width s) = s := by
  have htrim : trim ([] ++ padRight width s) = s :=
    trim_append (by simp) (fun _ => isBlank_of_mem_spaces) h.ne_nil h.first h.last
  exact htrim

/-- Two digits for each byte, and a space between them. -/
theorem length_bytesText (h : bytes ≠ []) : (bytesText bytes).toList.length + 1 = 3 * bytes.length := by
  rw [toList_bytesText]
  induction bytes with
  | nil => exact absurd rfl h
  | cons b bytes ih =>
    have hb : (hex 2 b.toNat).toList.length = 2 := by
      rw [hex, String.toList_ofList]
      exact length_hexChars (by decide) b.toNat_lt
    change ([' '].intercalate ((hex 2 b.toNat).toList :: byteWords bytes)).length + 1 = _
    by_cases hnil : bytes = []
    · subst hnil
      simp [byteWords, hb]
    · rw [List.intercalate_cons_of_ne_nil (by simpa [byteWords] using hnil)]
      simp only [List.length_append, List.length_cons, List.length_nil, hb]
      have := ih hnil
      omega

/-- The digits of several rows with spaces between the rows are those of all bytes. -/
theorem bytesText_flatten {groups : List (List UInt8)} (h : ∀ group ∈ groups, group ≠ []) :
    " ".intercalate (groups.map bytesText) = bytesText groups.flatten := by
  have hwords : ∀ group ∈ groups.map byteWords, group ≠ [] := by
    intro group hgroup
    obtain ⟨row, hrow, rfl⟩ := List.mem_map.1 hgroup
    simpa [byteWords] using h row hrow
  have hflatten : byteWords groups.flatten = (groups.map byteWords).flatten := List.map_flatten
  rw [String.ext_iff, String.toList_intercalate, toList_bytesText, hflatten, ← intercalate_flatten hwords,
    List.map_map, List.map_map]
  exact congrArg _ (List.map_congr_left fun row _ => toList_bytesText row)

end Digits

/-! ## Columns -/

/-- What stands behind the label of a dump line and two more spaces. -/
def dumpBody (line : String) : List Char :=
  (line.toList.dropWhile (· != ' ')).drop 2

/-- The 47 characters of a dump line in which the digits stand. -/
def hexField (line : String) : List Char :=
  (dumpBody line).take 47

def hexColumn (line : String) : String :=
  .ofList (trim (hexField line))

/-- The characters of a dump line, which stand behind the digits and two more spaces. -/
def textColumn (line : String) : List Char :=
  (dumpBody line).drop (47 + 2)

/-- The character that shows a byte: visible ones of ASCII and the space stand for themselves, and a point for
all others. -/
def IsGlyph (b : UInt8) (c : Char) : Prop :=
  if 0x20 ≤ b.toNat ∧ b.toNat ≤ 0x7E then c.toNat = b.toNat else c = '.'

/-- The line shows bytes behind a label. -/
structure IsRow (label : List Char) (bytes : List UInt8) (line : String) : Prop where
  whole : line.toList = label ++ [' ', ' '] ++ hexField line ++ [' ', ' '] ++ textColumn line
  width : (hexField line).length = 47
  aligned : (bytesText bytes).toList <+: hexField line
  digits : hexColumn line = bytesText bytes
  value : readBytes? (hexField line) = some bytes
  text : List.Forall₂ IsGlyph bytes (textColumn line)

theorem isGlyph_byteChar (b : UInt8) : IsGlyph b (byteChar b) := by
  have hb := b.toNat_lt
  have hvalid : b.toNat.isValidChar := .inl (by omega)
  unfold IsGlyph byteChar
  split_ifs
  · rw [Char.toNat_ofNat, if_pos hvalid]
  · rfl

theorem isRow_dumpRow {label : String} {row : List UInt8} (hlabel : ' ' ∉ label.toList) (hne : row ≠ [])
    (hlength : row.length ≤ rowLength) : IsRow label.toList row s!"{label}  {dumpRow row}" := by
  let field := padRight hexColumnWidth (bytesText row).toList
  have hline : (s!"{label}  {dumpRow row}").toList =
      label.toList ++ ' ' :: ' ' :: (field ++ ' ' :: ' ' :: row.map byteChar) := by
    change (label ++ "  " ++ dumpRow row).toList = _
    simp [dumpRow, field]
  have hwidth : field.length = 47 := by
    have hdigits := length_bytesText hne
    simp only [field, padRight, List.length_append, List.length_replicate]
    unfold hexColumnWidth rowLength at *
    omega
  have hall : ∀ c ∈ label.toList, (c != ' ') = true := fun c hc => by
    simpa using fun hspace : c = ' ' => hlabel (hspace ▸ hc)
  have hbody : dumpBody s!"{label}  {dumpRow row}" = field ++ ' ' :: ' ' :: row.map byteChar := by
    rw [dumpBody, hline, List.dropWhile_append_of_pos hall]
    rfl
  have hfield : hexField s!"{label}  {dumpRow row}" = field := by
    rw [hexField, hbody, ← hwidth, List.take_left]
  have htext : textColumn s!"{label}  {dumpRow row}" = row.map byteChar := by
    rw [textColumn, hbody, ← hwidth, List.drop_append]
    simp
  refine ⟨?_, ?_, ?_, ?_, ?_, ?_⟩
  · rw [hline, hfield, htext]
    simp
  · rw [hfield, hwidth]
  · rw [hfield]
    exact List.prefix_append ..
  · rw [hexColumn, hfield, (isTrimmed_bytesText hne).trim_padRight, String.ofList_toList]
  · rw [hfield, readBytes?, words_padRight]
    exact readBytes?_bytesText row
  · rw [htext, List.forall₂_map_right_iff]
    exact List.forall₂_same.2 fun b _ => isGlyph_byteChar b

/-! ## Listings -/

/-- The lines show cells from `start` up to `stop`, sixteen in each row but the last. -/
structure Lists (label : Nat → List Char) (cell : Nat → Option UInt8) (start stop : Nat)
    (lines : List String) : Prop where
  count : lines.length = (stop - start + 15) / 16
  rows : ∀ k line, lines[k]? = some line → ∃ row : List UInt8,
    row.length = min 16 (stop - (start + 16 * k)) ∧
      (∀ i < row.length, row[i]? = cell (start + 16 * k + i)) ∧ IsRow (label (start + 16 * k)) row line

section Lists
variable {label : Nat → String} {cell : Nat → Option UInt8} {start stop : Nat} {bytes : List UInt8}

theorem isRow_dump (hlabel : ∀ a, ' ' ∉ (label a).toList) {k : Nat} {row : List UInt8}
    (h : (rows bytes)[k]? = some row) :
    IsRow (label (start + 16 * k)).toList row s!"{label (start + k * rowLength)}  {dumpRow row}" := by
  have hrow := getElem?_rows h
  have hlength : row.length ≤ rowLength := by
    rw [hrow]
    exact List.length_take_le ..
  rw [Nat.mul_comm 16 k]
  exact isRow_dumpRow (hlabel _) (ne_nil_of_mem_rows (List.mem_of_getElem? h)) hlength

theorem lists_dump (hlabel : ∀ a, ' ' ∉ (label a).toList) (hlength : bytes.length = stop - start)
    (hcell : ∀ i < bytes.length, bytes[i]? = cell (start + i)) :
    Lists (fun a => (label a).toList) cell start stop (dump label start bytes) where
  count := by rw [dump, List.length_mapIdx, length_rows, hlength]
  rows k line hline := by
    rw [dump, List.getElem?_mapIdx, Option.map_eq_some_iff] at hline
    obtain ⟨row, hk, rfl⟩ := hline
    have hrow := getElem?_rows hk
    have hcount : row.length = min 16 (stop - (start + 16 * k)) := by
      rw [hrow, List.length_take, List.length_drop, rowLength]
      omega
    refine ⟨row, hcount, fun i hi => ?_, isRow_dump hlabel hk⟩
    have hplace : start + 16 * k + i = start + (k * rowLength + i) := by
      rw [rowLength]
      ring
    have hsixteen : i < rowLength := by
      rw [rowLength]
      omega
    rw [hplace, ← hcell _ (by unfold rowLength; omega), hrow, List.getElem?_take_of_lt hsixteen,
      List.getElem?_drop]

/-- The digits of all rows, with spaces between them. -/
def hexColumns (lines : List String) : String :=
  " ".intercalate (lines.map hexColumn)

/-- **The digits of a dump are those of its bytes.** -/
theorem hexColumns_dump (hlabel : ∀ a, ' ' ∉ (label a).toList) :
    hexColumns (dump label start bytes) = bytesText bytes := by
  have hcolumns : (dump label start bytes).map hexColumn = (rows bytes).map bytesText := by
    refine List.ext_getElem? fun k => ?_
    rw [dump, List.getElem?_map, List.getElem?_mapIdx, List.getElem?_map]
    cases hk : (rows bytes)[k]? with
    | none => rfl
    | some row => exact congrArg some (isRow_dump hlabel hk).digits
  rw [hexColumns, hcolumns, bytesText_flatten fun _ => ne_nil_of_mem_rows, flatten_rows]

end Lists

end Text

open Text (IsHex hexColumns)

namespace Command

theorem quoted?_bytesText (bytes : List UInt8) : quoted? (Text.bytesText bytes).toList = none := by
  have hdrop : Text.dropStart? ['"'] (Text.bytesText bytes).toList = none := by
    refine Option.eq_none_iff_forall_ne_some.2 fun rest hrest => ?_
    have hquote : '"' ∈ (Text.bytesText bytes).toList := by
      rw [Text.dropStart?_eq_some_iff.1 hrest]
      exact List.mem_cons_self
    rcases Text.char_bytesText bytes _ hquote with hspace | ⟨d, hd⟩
    · exact absurd hspace (by decide)
    · exact absurd hd ((by decide : ∀ d : Fin 16, Text.hexDigit d ≠ '"') d)
  rw [quoted?, hdrop]
  rfl

/-- **The digits of bytes are a pattern that means the bytes.** -/
theorem pattern?_bytesText (bytes : List UInt8) : pattern? (Text.bytesText bytes).toList = some bytes := by
  by_cases hne : bytes = []
  · subst hne
    rfl
  · unfold pattern?
    dsimp only
    rw [(Text.isTrimmed_bytesText hne).trim_eq, quoted?_bytesText]
    exact Text.readBytes?_bytesText bytes

end Command

/-! ## Memory and disk -/

theorem Text.space_notMem_hex (width n : Nat) : ' ' ∉ (Text.hex width n).toList := fun h =>
  absurd ((Text.isUnbroken_hex width n).2 _ h) (by decide)

theorem Memory.space_notMem_locationText (page address : Nat) : ' ' ∉ (locationText page address).toList := by
  have hpage := Text.space_notMem_hex 4 page
  have haddress := Text.space_notMem_hex 4 address
  rw [Text.hex, String.toList_ofList] at hpage haddress
  rw [toList_locationText]
  simp [hpage, haddress]

theorem Memory.dump_eq {m : Memory} {start stop : Nat} (hstart : start < pageSize) (hle : start ≤ stop)
    (hstop : stop ≤ pageSize) :
    ∃ bytes, m.block start stop = .ok bytes ∧
      m.dump start stop = .ok (Text.dump (locationText m.activePage) start bytes) := by
  obtain ⟨bytes, hblock⟩ := (exists_block_iff m).2 ⟨hstart, hle, hstop⟩
  refine ⟨bytes, hblock, ?_⟩
  rw [dump, hblock]
  rfl

/-- A dump of bytes that have just been written shows these bytes. -/
theorem Memory.dump_writeRun (m : Memory) {start : Nat} {bytes : List UInt8} (hstart : start < pageSize)
    (hroom : start + bytes.length ≤ pageSize) :
    (m.writeRun m.activePage start bytes).dump start (start + bytes.length) =
      .ok (Text.dump (locationText m.activePage) start bytes) := by
  have hwritten := m.rewritten_writeRun hroom
  obtain ⟨shown, hblock, hdump⟩ :=
    (m.writeRun m.activePage start bytes).dump_eq hstart (Nat.le_add_right ..) hroom
  have hcount : start + bytes.length - start = bytes.length := Nat.add_sub_cancel_left ..
  have hlength : shown.length = bytes.length := (Words.length_of_block hblock).1.trans hcount
  have hshown : shown = bytes := List.ext_getElem? fun i => by
    rcases Nat.lt_or_ge i bytes.length with hi | hi
    · rw [Memory.getElem?_block hblock (hi.trans_eq hcount.symm), hwritten.block.inside i hi]
    · rw [List.getElem?_eq_none hi, List.getElem?_eq_none (hlength ▸ hi)]
  rw [hdump, hshown, activePage_writeRun]

theorem Disk.lists_dump {d : Disk} {start stop : Nat} (hle : start ≤ stop) (hstop : stop ≤ d.size) :
    ∃ lines, d.dump start stop = .ok lines ∧
      Text.Lists (Text.hexChars 6) d.sector? start stop lines := by
  have hdump : d.dump start stop = .ok (Text.dump (Text.hex 6) start (d.sectors start stop)) := by
    rw [dump, if_neg (by omega)]
  obtain ⟨count, rfl⟩ := Nat.exists_eq_add_of_le hle
  have hlength : (d.sectors start (start + count)).length = count := length_sectors hstop
  have hlabel : (fun sector => (Text.hex 6 sector).toList) = Text.hexChars 6 :=
    funext fun _ => String.toList_ofList
  refine ⟨_, hdump, hlabel ▸ Text.lists_dump (Text.space_notMem_hex 6) (by omega) fun i hi => ?_⟩
  exact getElem?_sectors d (hlength ▸ hi)

open Machine in
/-- **Dumps are lossless.** A dump of a range of the active page shows its bytes, in digits and in characters,
sixteen in each row but the last, behind the page and the address of the first of them; a dump of sectors does
so behind the number of the first. The digits of all rows, put one after the other, fill the range of any
machine with the same bytes, since the digits of any bytes are a pattern that means them. -/
theorem dumps_lossless :
    (∀ (m : Memory) (start stop : Nat), start < pageSize → start ≤ stop → stop ≤ pageSize →
      ∃ lines, m.dump start stop = .ok lines ∧
        Text.Lists (fun address => Text.hexChars 4 m.activePage ++ ':' :: Text.hexChars 4 address)
          m.activeByte? start stop lines ∧
        (start < stop → ∀ (host : Host) (machine : Machine) (first last : String),
          IsHex first.toList start → IsHex last.toList stop →
          ∃ machine', machine.dispatch host ("f " ++ first ++ " " ++ last ++ " " ++ hexColumns lines) =
              (machine.conclude .nothing, machine') ∧
            machine.Written machine' start (stop - start) fun i => m.activeByte? (start + i))) ∧
    (∀ bytes : List UInt8, Command.pattern? (Text.bytesText bytes).toList = some bytes) ∧
    ∀ (d : Disk) (start stop : Nat), start ≤ stop → stop ≤ d.size →
      ∃ lines, d.dump start stop = .ok lines ∧
        Text.Lists (Text.hexChars 6) d.sector? start stop lines := by
  refine ⟨fun m start stop hstart hle hstop => ?_, Command.pattern?_bytesText, fun _ _ _ => Disk.lists_dump⟩
  obtain ⟨bytes, hblock, hdump⟩ := m.dump_eq hstart hle hstop
  have hlabel := Memory.space_notMem_locationText m.activePage
  have hspelled := funext (Memory.toList_locationText m.activePage)
  have hlength := (Words.length_of_block hblock).1
  have hcell : ∀ i < bytes.length, bytes[i]? = m.activeByte? (start + i) :=
    fun i hi => Memory.getElem?_block hblock (hlength ▸ hi)
  refine ⟨_, hdump, hspelled ▸ Text.lists_dump hlabel hlength hcell,
    fun hlt host machine first last hfirst hlast => ?_⟩
  have hne : bytes ≠ [] := by
    rintro rfl
    rw [List.length_nil] at hlength
    omega
  rw [Text.hexColumns_dump hlabel]
  have hline : ("f " ++ first ++ " " ++ last ++ " " ++ Text.bytesText bytes).toList =
      "f ".toList ++ first.toList ++ ' ' :: (last.toList ++ ' ' :: (Text.bytesText bytes).toList) := by
    simp
  obtain ⟨machine', hdispatch, hwritten⟩ := dispatch_fill host machine hfirst hstart
    (Text.isTrimmed_bytesText hne) hlast hle hstop (Command.pattern?_bytesText bytes) hne hline
  refine ⟨machine', hdispatch, hwritten.rest, hwritten.memory.congr fun i hi => ?_⟩
  rw [hlength, Nat.mod_eq_of_lt hi, hcell i (hlength.symm ▸ hi)]

open Machine in
/-- Two rows at the end of the page, of which the last has two bytes, and two rows of a disk. -/
theorem dumps_lossless_page_end :
    let contents : List UInt8 :=
      [0x53, 0x69, 0x78, 0x74, 0x65, 0x65, 0x6E, 0x20, 0x6C, 0x65, 0x74, 0x74, 0x65, 0x72, 0x73, 0x2E,
        0x41, 0xFF]
    let m := (Memory.ofPages 1).writeRun 0 0xFFEE contents
    let rows :=
      ["0000:FFEE  53 69 78 74 65 65 6E 20 6C 65 74 74 65 72 73 2E  Sixteen letters.",
        "0000:FFFE  41 FF                                            A."]
    let d := Disk.blank 20 "disk" ""
    let sectors :=
      ["000000  00 00 00 00 00 00 00 00 00 00 00 00 00 00 00 00  ................",
        "000010  00 00 00 00                                      ...."]
    (0xFFEE < pageSize ∧ 0xFFEE ≤ 0x10000 ∧ 0x10000 ≤ pageSize) ∧ m.dump 0xFFEE 0x10000 = .ok rows ∧
      IsHex "ffee".toList 0xFFEE ∧ IsHex "0x10000".toList 0x10000 ∧
      (∃ machine', (standard "" (.ofInput [])).dispatch (fun _ => .error .notFound)
            "f ffee 0x10000 53 69 78 74 65 65 6E 20 6C 65 74 74 65 72 73 2E 41 FF" =
          (.nothing, machine') ∧
        ∀ i < 18, machine'.memory.activeByte? (0xFFEE + i) = contents[i]?) ∧
      20 ≤ d.size ∧ d.dump 0 20 = .ok sectors ∧ Text.Lists (Text.hexChars 6) d.sector? 0 20 sectors := by
  intro contents m rows d sectors
  have hfirst : IsHex "ffee".toList 0xFFEE := .bare (Text.denotes_of_readUnsigned (by decide) (by decide))
  have hlast : IsHex "0x10000".toList 0x10000 :=
    .marked (.inl rfl) (Text.denotes_of_readUnsigned (by decide) (by decide))
  have hroom : 0xFFEE + contents.length ≤ pageSize := by decide
  have hbytes : ∀ i < 18, m.activeByte? (0xFFEE + i) = contents[i]? :=
    ((Memory.ofPages 1).rewritten_writeRun hroom).block.inside
  have hrows : Text.dump (Memory.locationText 0) 0xFFEE contents = rows := by decide +kernel
  have hdump : m.dump 0xFFEE 0x10000 = .ok rows :=
    ((Memory.ofPages 1).dump_writeRun (by decide) hroom).trans (congrArg Except.ok hrows)
  have hcolumns : hexColumns rows = "53 69 78 74 65 65 6E 20 6C 65 74 74 65 72 73 2E 41 FF" := by
    decide +kernel
  have hrange : 0xFFEE < pageSize ∧ 0xFFEE ≤ 0x10000 ∧ 0x10000 ≤ pageSize := by decide
  obtain ⟨hmemory, -, hdisk⟩ := dumps_lossless
  obtain ⟨lines, hlines, -, hfeed⟩ := hmemory m 0xFFEE 0x10000 hrange.1 hrange.2.1 hrange.2.2
  obtain rfl : lines = rows := Except.ok.inj (hlines.symm.trans hdump)
  obtain ⟨machine', hdispatch, hwritten⟩ :=
    hfeed (by decide) (fun _ => .error .notFound) (standard "" (.ofInput [])) "ffee" "0x10000" hfirst hlast
  rw [hcolumns] at hdispatch
  have hsize : 20 ≤ d.size := by decide
  obtain ⟨listed, hlisted, hlists⟩ := hdisk d 0 20 (Nat.zero_le _) hsize
  have hsectors : listed = sectors := by
    have hshown : (d.dump 0 20).toOption = some sectors := by decide +kernel
    rw [hlisted] at hshown
    exact Option.some.inj hshown
  subst hsectors
  exact ⟨hrange, hdump, hfirst, hlast,
    ⟨machine', hdispatch, fun i hi => (hwritten.memory.block.inside i hi).trans (hbytes i hi)⟩, hsize,
    hlisted, hlists⟩

end DosMonitor
