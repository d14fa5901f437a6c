import DosMonitor.Proofs.Words

/-!
# Ranges of the active page, in numbers of 64 bits

The operations on ranges of the active page, carried out on words: bytes are read and written one by one,
at places that are sums of the start of the range and an offset, and a pattern is searched for among the
windows of its length.

Main statements: each comes to what it comes to on numbers, whatever its arguments are. The reason is the
same everywhere: a range is checked before its bounds are used (`length_of_block`).
-/

namespace DosMonitor

variable {ε σ α β : Type}

namespace Words

open Memory (inspect checkRange rangeEnd locationText)

def peekActive (address : Nat) : WordM MemoryError Memory UInt8 := do
  let m ← get
  lift (Bus.checkAccess m.activePage address)
  let page ← cell m.pages m.activePage
  cell page.toArray address

/-- Reads a range of the active page byte by byte. -/
def readRange (start stop : Nat) : WordM MemoryError Memory (List UInt8) := do
  lift (inspect fun _ => checkRange start stop)
  let count ← sub stop start
  (List.range' start count).mapM peekActive

def poke (page address value : Nat) : WordM MemoryError Memory Unit := do
  lift (Bus.checkAccess page address)
  if 0x100 ≤ value then throw (.refused (.invalidValue value))
  else
    let m ← get
    let cells ← cell m.pages page
    let _ ← cell cells.toArray address
    set (m.write page address (UInt8.ofNat value))

/-- Writes bytes one after the other, of which the first is the `i`-th from an address on. -/
def pokeEach (page address : Nat) : (i : Nat) → List UInt8 → WordM MemoryError Memory Unit
  | _, [] => pure ()
  | i, b :: bytes => do
    let place ← add address i
    poke page place b.toNat
    pokeEach page address (i + 1) bytes

def pokeBytes (page address : Nat) (bytes : List UInt8) : WordM MemoryError Memory Unit := do
  lift (Bus.checkAccess page address)
  let stop ← add address bytes.length
  if pageSize < stop then throw (.refused (.overflow address bytes.length))
  else pokeEach page address 0 bytes

def writeActive (address : Nat) (bytes : List UInt8) : WordM MemoryError Memory Unit := do
  let m ← get
  pokeBytes m.activePage address bytes

def fill (start stop : Nat) (pattern : List UInt8) : WordM MemoryError Memory Unit := do
  lift (inspect fun _ => checkRange start stop)
  if pattern.isEmpty then pure ()
  else
    let count ← sub stop start
    writeActive start (Memory.repeated pattern count)

def move (start stop destination : Nat) : WordM MemoryError Memory Unit := do
  let bytes ← readRange start stop
  writeActive destination bytes

/-- The places at which a pattern begins, as the windows of its length that are equal to it. -/
def search (start : Nat) (pattern : List UInt8) : WordM MemoryError Memory (List String) := do
  let m ← get
  let haystack ← readRange start pageSize
  if pattern.isEmpty then pure []
  else
    let all ← windows pattern.length haystack
    let found := all.zipIdx.filter fun (window, _) => window == pattern
    found.mapM fun (_, i) => do
      let place ← add start i
      pure (locationText m.activePage place)

def compare (start stop destination : Nat) : WordM MemoryError Memory (List String) := do
  let m ← get
  let left ← readRange start stop
  let destinationStop ← lift (inspect fun _ => rangeEnd destination left.length)
  let right ← readRange destination destinationStop
  let differing := (left.zip right).zipIdx.filter fun (pair, _) => pair.1 != pair.2
  differing.mapM fun ((a, b), i) => do
    let place ← add start i
    let counterpart ← add destination i
    let here := locationText m.activePage place
    let there := locationText m.activePage counterpart
    pure s!"{here} {Text.hex 2 a.toNat} {Text.hex 2 b.toNat} {there}"

/-- The rows of a dump, with the labels of the addresses at which they start. -/
def dumpRows (label : Nat → String) (start : Nat) (bytes : List UInt8) : WordM ε σ (List String) :=
  (Text.rows bytes).zipIdx.mapM fun (row, k) => do
    let offset ← mul k Text.rowLength
    let place ← add start offset
    pure s!"{label place}  {Text.dumpRow row}"

def dump (start stop : Nat) : WordM MemoryError Memory (List String) := do
  let m ← get
  let bytes ← readRange start stop
  dumpRows (locationText m.activePage) start bytes

end Words

namespace Memory

variable {m : Memory} {start stop : Nat}

theorem checkRange_eq_ok (start stop : Nat) :
    checkRange start stop = .ok () ↔ start < pageSize ∧ start ≤ stop ∧ stop ≤ pageSize := by
  unfold checkRange
  split_ifs <;> simp <;> omega

theorem inspect_ok {look : Memory → Except MemoryError α} {a : α} {m' : Memory}
    (h : inspect look m = .ok a m') : look m = .ok a ∧ m' = m := by
  unfold inspect at h
  cases hlook : look m with
  | ok b =>
    rw [hlook] at h
    obtain ⟨rfl, rfl⟩ := EStateM.Result.ok.inj h
    exact ⟨rfl, rfl⟩
  | error e =>
    rw [hlook] at h
    cases h

theorem inspect_of_ok {look : Memory → Except MemoryError α} {a : α} (h : look m = .ok a) :
    inspect look m = .ok a m := by
  unfold inspect
  rw [h]

theorem inspect_bind (look : Memory → Except MemoryError α) (f : α → Memory → Except MemoryError β) :
    inspect (fun m => look m >>= fun a => f a m) = inspect look >>= fun a => inspect (f a) := by
  funext m
  change _ = EStateM.bind _ _ m
  unfold EStateM.bind inspect
  dsimp only
  cases look m <;> rfl

theorem inspect_block (start stop : Nat) :
    (inspect fun m => m.block start stop) = (inspect fun _ => checkRange start stop) >>=
      fun _ => inspect fun m => .ok (m.active.toArray.extract start stop).toList :=
  inspect_bind _ _

theorem inspect_dump (start stop : Nat) :
    inspect (·.dump start stop) = (inspect fun m => m.block start stop) >>=
      fun bytes => inspect fun m => .ok (Text.dump (locationText m.activePage) start bytes) :=
  inspect_bind _ _

theorem inspect_compare (start stop destination : Nat) :
    inspect (·.compare start stop destination) = (do
      let left ← inspect fun m => m.block start stop
      let destinationStop ← inspect fun _ => rangeEnd destination left.length
      let right ← inspect fun m => m.block destination destinationStop
      inspect fun m => .ok (((left.zip right).zipIdx.filter fun (pair, _) => pair.1 != pair.2).map
        fun ((a, b), i) =>
          let here := locationText m.activePage (start + i)
          let there := locationText m.activePage (destination + i)
          s!"{here} {Text.hex 2 a.toNat} {Text.hex 2 b.toNat} {there}")) := by
  unfold compare
  rw [inspect_bind]
  refine bind_congr fun left => ?_
  rw [inspect_bind]
  refine bind_congr fun destinationStop => ?_
  exact inspect_bind _ _

/-- A search reads the rest of the page, in which the pattern then is looked for at each address. -/
theorem inspect_search (start : Nat) (pattern : List UInt8) :
    inspect (·.search start pattern) = (inspect fun m => m.block start pageSize) >>=
      fun _ => inspect fun m => .ok (if pattern.isEmpty then [] else
        ((List.range' start (pageSize - start)).filter (holdsAt m.active · pattern)).map
          (locationText m.activePage)) := by
  rw [← inspect_bind]
  congr 1
  funext m
  unfold search block
  cases checkRange start pageSize with
  | error e => rfl
  | ok _ => cases pattern <;> rfl

/-- A range of the active page, byte by byte. -/
theorem map_range'_active (m : Memory) (hstop : stop ≤ pageSize) :
    (List.range' start (stop - start)).map (fun a => m.active[a]?.getD 0) =
      (m.active.toArray.extract start stop).toList := by
  refine List.ext_getElem ?_ ?_
  · simp
    omega
  · intro i hi hi'
    have hplace : start + i < pageSize := by
      simp at hi
      omega
    simp [hplace]

end Memory

namespace Words

open Memory (inspect checkRange rangeEnd locationText)

variable {m : Memory} {start stop address destination : Nat}

theorem checkAccess_eq (page address : Nat) (m : Memory) :
    Bus.checkAccess page address m =
      if m.pageCount ≤ page then .error (.invalidPage page m.pageCount) m
      else if pageSize ≤ address then .error (.invalidAddress address) m
      else .ok () m := by
  have hcount : Bus.pageCount m = m.pageCount := rfl
  simp only [Bus.checkAccess, bind, EStateM.bind, get, getThe, MonadStateOf.get, EStateM.get, hcount]
  split_ifs <;> rfl

theorem peekActive_ok (haddress : address < pageSize) :
    peekActive address m = .ok (m.active[address]?.getD 0) m := by
  have hcheck : lift (Bus.checkAccess m.activePage address) m = .ok () m :=
    congrArg refusing (checkAccess_ok m.activePage_lt haddress)
  have hpage : m.pages[m.activePage]? = some m.active :=
    Array.getElem?_eq_getElem m.activePage_lt
  have hbyte : m.active.toArray[address]? = some (m.active[address]?.getD 0) := by
    simp [haddress]
  change (lift (Bus.checkAccess m.activePage address) >>= _) m = _
  rw [bind_of_ok hcheck, bind_of_ok (cell_ok hpage), cell_ok hbyte]

theorem realizes_readRange (start stop : Nat) (m : Memory) :
    Realizes (readRange start stop) (inspect fun m => m.block start stop) m := by
  rw [Memory.inspect_block]
  refine Realizes.bind (Realizes.lift _ _) fun _ m' hchecked => ?_
  obtain ⟨hrange, rfl⟩ := Memory.inspect_ok hchecked
  obtain ⟨hstart, hle, hstop⟩ := (Memory.checkRange_eq_ok start stop).1 hrange
  refine Realizes.step (sub_ok hle) ?_
  have hread : ∀ a ∈ List.range' start (stop - start),
      peekActive a m' = .ok (m'.active[a]?.getD 0) m' := by
    intro a ha
    rw [List.mem_range'_1] at ha
    exact peekActive_ok (by omega)
  unfold Realizes
  rw [Realizes.mapM_ok hread, Memory.map_range'_active m' hstop]
  rfl

theorem poke_eq_checkAccess (page address value : Nat) :
    (Bus.poke page address value : BusM Memory Unit) = (do
      Bus.checkAccess page address
      if 0x100 ≤ value then throw (.invalidValue value)
      else modify fun m => m.write page address (UInt8.ofNat value)) := by
  funext m
  have hpoke : Bus.poke page address value m = _ := Memory.poke_eq m page address value
  have hcheck := checkAccess_eq page address m
  rw [hpoke]
  by_cases hpage : m.pageCount ≤ page
  · rw [if_pos hpage] at hcheck ⊢
    exact (bind_of_error hcheck).symm
  · rw [if_neg hpage] at hcheck ⊢
    by_cases haddress : pageSize ≤ address
    · rw [if_pos haddress] at hcheck ⊢
      exact (bind_of_error hcheck).symm
    · rw [if_neg haddress] at hcheck ⊢
      rw [bind_of_ok hcheck]
      split_ifs <;> rfl

/-- What the check lets through is there. -/
theorem checkAccess_ok_iff {page address : Nat} {m m' : Memory} :
    Bus.checkAccess page address m = .ok () m' ↔
      page < m.pageCount ∧ address < pageSize ∧ m' = m := by
  rw [checkAccess_eq]
  split_ifs with hpage haddress
  · simp [hpage]
  · simp [haddress]
  · rw [not_le] at hpage haddress
    simp [hpage, haddress, eq_comm]

theorem realizes_poke (page address value : Nat) (m : Memory) :
    Realizes (poke page address value) (Bus.poke page address value) m := by
  rw [poke_eq_checkAccess]
  refine Realizes.bind (Realizes.lift _ _) fun _ m' hcheck => ?_
  obtain ⟨hpage, haddress, rfl⟩ := checkAccess_ok_iff.1 hcheck
  by_cases hvalue : 0x100 ≤ value
  · rw [if_pos hvalue, if_pos hvalue]
    exact Realizes.refuse _ _
  · rw [if_neg hvalue, if_neg hvalue]
    have hcells : m'.pages[page]? = some m'.pages[page] := Array.getElem?_eq_getElem hpage
    have hcell : m'.pages[page].toArray[address]? = some m'.pages[page][address] := by
      simp [haddress]
    refine Realizes.step rfl (Realizes.step (cell_ok hcells) (Realizes.step (cell_ok hcell) ?_))
    rfl

theorem realizes_pokeEach (page : Nat) (bytes : List UInt8) {address i : Nat} (m : Memory)
    (hroom : address + i + bytes.length < Text.wordLimit) :
    Realizes (pokeEach page address i bytes) (Bus.pokeEach page (address + i) bytes) m := by
  induction bytes generalizing i m with
  | nil => exact Realizes.pure _ _
  | cons b bytes ih =>
    rw [List.length_cons] at hroom
    refine Realizes.step (add_ok (by omega)) ?_
    refine Realizes.bind (realizes_poke _ _ _ _) fun _ m' _ => ?_
    exact ih m' (by omega)

theorem realizes_pokeBytes (page address : Nat) {bytes : List UInt8} (m : Memory)
    (hlength : bytes.length < 2 ^ 63) :
    Realizes (pokeBytes page address bytes) (Bus.pokeBytes page address bytes) m := by
  have hlimit : pageSize + 2 ^ 63 < Text.wordLimit := by decide
  refine Realizes.bind (Realizes.lift _ _) fun _ m' hcheck => ?_
  obtain ⟨-, haddress, rfl⟩ := checkAccess_ok_iff.1 hcheck
  refine Realizes.step (add_ok (by omega)) ?_
  by_cases hroom : pageSize < address + bytes.length
  · rw [if_pos hroom, if_pos hroom]
    exact Realizes.refuse _ _
  · rw [if_neg hroom, if_neg hroom]
    exact realizes_pokeEach page bytes m' (by omega)

theorem realizes_writeActive (address : Nat) {bytes : List UInt8} (m : Memory)
    (hlength : bytes.length < 2 ^ 63) :
    Realizes (writeActive address bytes) (Memory.writeActive address bytes) m :=
  Realizes.step rfl (realizes_pokeBytes m.activePage address m hlength)

theorem block_eq_ok_iff {bytes : List UInt8} :
    m.block start stop = .ok bytes ↔ (start < pageSize ∧ start ≤ stop ∧ stop ≤ pageSize) ∧
      bytes = (m.active.toArray.extract start stop).toList := by
  rw [← Memory.checkRange_eq_ok]
  unfold Memory.block
  cases checkRange start stop with
  | error e => simp [bind, Except.bind]
  | ok _ => simp [bind, Except.bind, pure, Except.pure, eq_comm]

/-- A range that has been checked is short. -/
theorem length_of_block {bytes : List UInt8} (h : m.block start stop = .ok bytes) :
    bytes.length = stop - start ∧ start < pageSize ∧ start ≤ stop ∧ stop ≤ pageSize := by
  obtain ⟨hbounds, rfl⟩ := block_eq_ok_iff.1 h
  refine ⟨?_, hbounds⟩
  simp
  omega

theorem realizes_fill (start stop : Nat) (pattern : List UInt8) (m : Memory) :
    Realizes (fill start stop pattern) (Memory.fill start stop pattern) m := by
  refine Realizes.bind (Realizes.lift _ _) fun _ m' hchecked => ?_
  obtain ⟨hrange, rfl⟩ := Memory.inspect_ok hchecked
  obtain ⟨hstart, hle, hstop⟩ := (Memory.checkRange_eq_ok start stop).1 hrange
  by_cases hpattern : pattern.isEmpty
  · simp only [hpattern, if_true]
    exact Realizes.pure _ _
  · simp only [hpattern, Bool.false_eq_true, if_false]
    refine Realizes.step (sub_ok hle) (realizes_writeActive _ _ ?_)
    have hlength : (Memory.repeated pattern (stop - start)).length = stop - start := by
      simp [Memory.repeated]
    unfold pageSize at hstop
    omega

theorem realizes_move (start stop destination : Nat) (m : Memory) :
    Realizes (move start stop destination) (Memory.move start stop destination) m := by
  refine Realizes.bind (realizes_readRange start stop m) fun bytes m' hread => ?_
  obtain ⟨hblock, rfl⟩ := Memory.inspect_ok hread
  obtain ⟨hlength, -, -, hstop⟩ := length_of_block hblock
  unfold pageSize at hstop
  exact realizes_writeActive _ _ (by omega)

theorem dumpRows_ok (label : Nat → String) {start : Nat} {bytes : List UInt8} {s : σ}
    (hroom : start + bytes.length < Text.wordLimit) :
    (dumpRows label start bytes : WordM ε σ (List String)) s = .ok (Text.dump label start bytes) s := by
  unfold Text.dump
  rw [List.mapIdx_eq_zipIdx_map]
  refine Realizes.mapM_ok fun (row, k) hrow => ?_
  have hk : k < (Text.rows bytes).length := by
    obtain ⟨-, hk, -⟩ := List.mem_zipIdx hrow
    simpa using hk
  -- the row starts at a byte that there is
  have hstart : k * Text.rowLength < bytes.length := by
    simp [Text.rows, Text.rowLength] at hk ⊢
    omega
  change (mul k Text.rowLength >>= _ : WordM ε σ String) s = _
  rw [bind_of_ok (mul_ok (by omega)), bind_of_ok (add_ok (by omega))]
  rfl

theorem realizes_dump (start stop : Nat) (m : Memory) :
    Realizes (dump start stop) (inspect (·.dump start stop)) m := by
  rw [Memory.inspect_dump]
  refine Realizes.step rfl ?_
  refine Realizes.bind (realizes_readRange start stop m) fun bytes m' hread => ?_
  obtain ⟨hblock, rfl⟩ := Memory.inspect_ok hread
  obtain ⟨hlength, hstart, -, hstop⟩ := length_of_block hblock
  have hlimit : pageSize + pageSize < Text.wordLimit := by decide
  exact dumpRows_ok _ (by omega)

theorem realizes_compare (start stop destination : Nat) (m : Memory) :
    Realizes (compare start stop destination) (inspect (·.compare start stop destination)) m := by
  rw [Memory.inspect_compare]
  refine Realizes.step rfl ?_
  refine Realizes.bind (realizes_readRange start stop m) fun left m₁ hreadLeft => ?_
  obtain ⟨hleft, rfl⟩ := Memory.inspect_ok hreadLeft
  refine Realizes.bind (Realizes.lift _ _) fun destinationStop m₂ hend => ?_
  obtain ⟨-, rfl⟩ := Memory.inspect_ok hend
  refine Realizes.bind (realizes_readRange _ _ _) fun right m₃ hreadRight => ?_
  obtain ⟨hright, rfl⟩ := Memory.inspect_ok hreadRight
  obtain ⟨hlength, hstart, -, hstop⟩ := length_of_block hleft
  obtain ⟨-, hdestination, -, -⟩ := length_of_block hright
  have hlimit : pageSize + pageSize < Text.wordLimit := by decide
  refine Realizes.mapM_ok fun ((a, b), i) hi => ?_
  -- both ranges have been read, so both places lie near the page
  have hindex : i < left.length := by
    obtain ⟨-, hi, -⟩ := List.mem_zipIdx (List.mem_filter.1 hi).1
    simp at hi
    omega
  change (add start i >>= _ : WordM MemoryError Memory String) m₃ = _
  rw [bind_of_ok (add_ok (by omega)), bind_of_ok (add_ok (by omega))]
  rfl

theorem holdsAt_eq (page : Page) (pattern : List UInt8) (address : Nat) :
    Memory.holdsAt page address pattern =
      ((page.toList.drop address).take pattern.length == pattern) := by
  induction pattern generalizing address with
  | nil => simp [Memory.holdsAt]
  | cons b pattern ih =>
    rw [Memory.holdsAt, ih]
    by_cases haddress : address < pageSize
    · have hdrop : page.toList.drop address = page[address] :: page.toList.drop (address + 1) := by
        rw [List.drop_eq_getElem_cons (by simpa using haddress)]
        simp
      simp [hdrop, haddress]
    · have hdrop : page.toList.drop address = [] := by
        rw [List.drop_eq_nil_of_le]
        simpa using haddress
      simp [hdrop, haddress]

/-- No pattern begins where fewer bytes follow than it has. -/
theorem holdsAt_of_short {page : Page} {pattern : List UInt8} {address : Nat} (hpattern : pattern ≠ [])
    (hshort : pageSize < address + pattern.length) : Memory.holdsAt page address pattern = false := by
  have hpos : 0 < pattern.length := List.length_pos_iff.2 hpattern
  rw [holdsAt_eq, beq_eq_false_iff_ne]
  intro h
  have hlength := congrArg List.length h
  simp at hlength
  omega

theorem zipIdx_windowsOf (length : Nat) (xs : List α) :
    (windowsOf length xs).zipIdx =
      (List.range (xs.length + 1 - length)).map fun i => ((xs.drop i).take length, i) := by
  refine List.ext_getElem (by simp [windowsOf]) fun i hi hi' => ?_
  simp [windowsOf]

/-- Looking at the windows of the last bytes of the page comes to looking at each of their addresses. -/
theorem windows_found (page : Page) (start : Nat) {pattern : List UInt8} (hpattern : pattern ≠ []) :
    ((windowsOf pattern.length (page.toList.drop start)).zipIdx.filter
        fun (window, _) => window == pattern).map (fun (_, i) => start + i) =
      (List.range' start (pageSize - start)).filter (Memory.holdsAt page · pattern) := by
  have hlength : (page.toList.drop start).length = pageSize - start := by simp
  have hpos : 0 < pattern.length := List.length_pos_iff.2 hpattern
  -- there are fewer windows than addresses
  obtain ⟨rest, hrest⟩ := Nat.exists_eq_add_of_le
    (show (page.toList.drop start).length + 1 - pattern.length ≤ pageSize - start by omega)
  rw [zipIdx_windowsOf, List.range'_eq_map_range, hrest, List.range_add, List.map_append,
    List.filter_append, List.filter_map, List.filter_map, List.filter_map, List.map_map]
  have hnone : (List.map ((page.toList.drop start).length + 1 - pattern.length + ·)
      (List.range rest)).filter ((Memory.holdsAt page · pattern) ∘ (start + ·)) = [] := by
    simp only [List.filter_eq_nil_iff, List.mem_map, Function.comp_apply, Bool.not_eq_true]
    rintro _ ⟨i, -, rfl⟩
    exact holdsAt_of_short hpattern (by omega)
  rw [hnone, List.map_nil, List.append_nil]
  congr 1
  refine List.filter_congr fun i _ => ?_
  have hholds := holdsAt_eq page pattern (start + i)
  rw [← List.drop_drop] at hholds
  exact hholds.symm

theorem realizes_search (start : Nat) (pattern : List UInt8) (m : Memory) :
    Realizes (search start pattern) (inspect (·.search start pattern)) m := by
  rw [Memory.inspect_search]
  refine Realizes.step rfl ?_
  refine Realizes.bind (realizes_readRange start pageSize m) fun haystack m' hread => ?_
  obtain ⟨hblock, rfl⟩ := Memory.inspect_ok hread
  obtain ⟨⟨hstart, -, -⟩, rfl⟩ := block_eq_ok_iff.1 hblock
  have hhaystack : (m'.active.toArray.extract start pageSize).toList = m'.active.toList.drop start := by
    simp [Vector.toList]
  rw [hhaystack]
  by_cases hpattern : pattern = []
  · subst hpattern
    exact Realizes.pure _ _
  · have hfound := windows_found m'.active start hpattern
    have hisEmpty : pattern.isEmpty = false := by simpa using hpattern
    simp only [hisEmpty, Bool.false_eq_true, if_false]
    refine Realizes.step (windows_ok (List.length_pos_iff.2 hpattern)) ?_
    have hlimit : pageSize + pageSize < Text.wordLimit := by decide
    have hnames := congrArg (List.map (locationText m'.activePage)) hfound
    rw [List.map_map] at hnames
    refine (Realizes.mapM_ok (g := fun (_, i) => locationText m'.activePage (start + i)) ?_).trans
      (congrArg (EStateM.Result.ok · m') hnames)
    rintro ⟨window, i⟩ hi
    have hindex : i < pageSize + 1 := by
      obtain ⟨-, hi, -⟩ := List.mem_zipIdx (List.mem_filter.1 hi).1
      simp [windowsOf] at hi
      omega
    change (add start i >>= _ : WordM MemoryError Memory String) m' = _
    rw [bind_of_ok (add_ok (by omega))]
    rfl

end Words

end DosMonitor
