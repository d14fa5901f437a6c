import DosMonitor.Proofs.Invocation

/-!
# Printing a string

Service 09h of interrupt 21h prints the bytes of memory from DS:DX to the next dollar sign. Its loop has no
bound of its own (`StringLoop`): it goes on until it has read a dollar sign or a read is refused, which
memory does at the end of the page.

Main statements: the loop ends, after no more reads than there are bytes up to the end of the page
(`exists_stringLoop`), and `readString` is that loop (`StringLoop.readString_eq`). So the service prints the
bytes in front of the first dollar sign or, where there is none, nothing (`printString_exact`).
-/

namespace DosMonitor

/-- The loop of service 09h: what it comes to from an address on, behind the bytes in `found`, and how many
bytes it reads on the way. It ends at a dollar sign or at a read that is refused, and nowhere else. -/
inductive StringLoop (m : Memory) (page : Nat) :
    (address : Nat) → (found : Array UInt8) → (reads : Nat) →
      EStateM.Result MemoryError Memory (Array UInt8) → Prop
  | dollar {address : Nat} {found : Array UInt8}
      (h : Bus.peek page address m = .ok Execution.dollar m) :
      StringLoop m page address found 1 (.ok found m)
  | refused {address : Nat} {found : Array UInt8} {e : MemoryError}
      (h : Bus.peek page address m = .error e m) : StringLoop m page address found 0 (.error e m)
  | next {address : Nat} {found : Array UInt8} {b : UInt8} {reads : Nat}
      {r : EStateM.Result MemoryError Memory (Array UInt8)} (h : Bus.peek page address m = .ok b m)
      (hb : b ≠ Execution.dollar) (hrest : StringLoop m page (address + 1) (found.push b) reads r) :
      StringLoop m page address found (reads + 1) r

section Reading
variable {m : Memory} {page address : Nat} {found : Array UInt8}

theorem peek_of_byte? {b : UInt8} (h : m.byte? page address = some b) :
    Bus.peek page address m = .ok b m := by
  change Memory.peek page address m = _
  rw [Memory.peek_eq, h]

/-- The first read behind the page is refused. -/
theorem peek_pageSize (hpage : page < m.pageCount) :
    Bus.peek page pageSize m = .error (.invalidAddress pageSize) m := by
  have hnone : m.byte? page pageSize = none := by
    rw [← Option.not_isSome_iff_eq_none, m.isSome_byte?_iff]
    omega
  change Memory.peek page pageSize m = _
  rw [Memory.peek_eq, hnone]
  exact if_pos hpage

theorem exists_byte? (hpage : page < m.pageCount) (haddress : address < pageSize) :
    ∃ b, m.byte? page address = some b :=
  Option.isSome_iff_exists.1 ((m.isSome_byte?_iff page address).2 ⟨hpage, haddress⟩)

theorem lt_pageSize_of_byte? {b : UInt8} (h : m.byte? page address = some b) : address < pageSize :=
  ((m.isSome_byte?_iff page address).1 (Option.isSome_iff_exists.2 ⟨b, h⟩)).2

theorem byte?_of_peek {b : UInt8} (h : Bus.peek page address m = .ok b m) :
    m.byte? page address = some b := by
  change Memory.peek page address m = _ at h
  rw [Memory.peek_eq] at h
  cases hbyte : m.byte? page address with
  | some b' =>
    rw [hbyte] at h
    cases h
    rfl
  | none =>
    rw [hbyte] at h
    dsimp only at h
    split_ifs at h

namespace StringLoop

variable {reads : Nat} {r : EStateM.Result MemoryError Memory (Array UInt8)}

/-- The loop reads no byte behind the page. -/
theorem reads_le (h : StringLoop m page address found reads r) : reads ≤ pageSize - address := by
  induction h with
  | dollar h =>
    have hplace := lt_pageSize_of_byte? (byte?_of_peek h)
    omega
  | refused h => exact Nat.zero_le _
  | next h hb hrest ih =>
    have hplace := lt_pageSize_of_byte? (byte?_of_peek h)
    omega

/-- `readString` is the loop: a bound that leaves room for the rest of the page does not end it. -/
theorem readString_eq (h : StringLoop m page address found reads r) (hpage : page < m.pageCount)
    (haddress : address ≤ pageSize) {room : Nat} (hroom : pageSize - address ≤ room) :
    Execution.readString page room address found m = r := by
  induction h generalizing room with
  | @dollar address found h =>
    have hplace := lt_pageSize_of_byte? (byte?_of_peek h)
    obtain ⟨room, rfl⟩ : ∃ k, room = k + 1 := ⟨room - 1, by omega⟩
    exact bind_of_ok h
  | @refused address found e h =>
    cases room with
    | zero =>
      obtain rfl : address = pageSize := by omega
      rw [peek_pageSize hpage] at h
      cases h
      rfl
    | succ room => exact bind_of_error h
  | @next address found b reads r h hb hrest ih =>
    have hplace := lt_pageSize_of_byte? (byte?_of_peek h)
    obtain ⟨room, rfl⟩ : ∃ k, room = k + 1 := ⟨room - 1, by omega⟩
    rw [Execution.readString, bind_of_ok h, if_neg hb]
    exact ih (by omega) (by omega)

end StringLoop

/-! ## What the loop finds -/

/-- The bytes from an address on that stand in front of the first dollar sign. -/
structure StringAt (m : Memory) (page address : Nat) (text : List UInt8) : Prop where
  bytes : ∀ k < text.length, m.byte? page (address + k) = text[k]?
  dollar : m.byte? page (address + text.length) = some Execution.dollar
  first : Execution.dollar ∉ text

/-- Where there is a dollar sign, there is a first one. -/
theorem exists_stringAt (hpage : page < m.pageCount) {place : Nat} (hle : address ≤ place)
    (hdollar : m.byte? page place = some Execution.dollar) : ∃ text, StringAt m page address text := by
  obtain ⟨rest, rfl⟩ := Nat.exists_eq_add_of_le hle
  induction rest generalizing address with
  | zero => exact ⟨[], by simp, hdollar, by simp⟩
  | succ rest ih =>
    have hend := lt_pageSize_of_byte? hdollar
    obtain ⟨b, hb⟩ := exists_byte? hpage (show address < pageSize by omega)
    by_cases hhere : b = Execution.dollar
    · subst hhere
      exact ⟨[], by simp, hb, by simp⟩
    · have hshift : address + (rest + 1) = address + 1 + rest := by omega
      rw [hshift] at hdollar
      obtain ⟨text, hbytes, hstop, hfirst⟩ := ih (by omega) hdollar
      refine ⟨b :: text, ?_, ?_, by simp [hfirst, Ne.symm hhere]⟩
      · intro k hk
        cases k with
        | zero => exact hb
        | succ k =>
          rw [List.length_cons] at hk
          rw [List.getElem?_cons_succ, ← hbytes k (by omega)]
          exact congrArg _ (by omega)
      · rw [← hstop, List.length_cons]
        exact congrArg _ (by omega)

/-- The loop finds the string, and has read one byte more. -/
theorem StringAt.stringLoop {text : List UInt8} (h : StringAt m page address text)
    (found : Array UInt8) :
    StringLoop m page address found (text.length + 1) (.ok (found ++ text.toArray) m) := by
  induction text generalizing address found with
  | nil =>
    rw [Array.append_empty]
    exact .dollar (peek_of_byte? h.dollar)
  | cons b text ih =>
    have hrest : StringAt m page (address + 1) text := by
      refine ⟨fun k hk => ?_, ?_, fun hmem => h.first (List.mem_cons_of_mem _ hmem)⟩
      · rw [Nat.add_assoc, Nat.add_comm 1 k]
        exact h.bytes (k + 1) (Nat.succ_lt_succ hk)
      · rw [Nat.add_assoc, Nat.add_comm 1 text.length]
        exact h.dollar
    have hb : b ≠ Execution.dollar := fun heq => h.first (heq ▸ List.mem_cons_self)
    have hloop := ih hrest (found.push b)
    rw [show found.push b ++ text.toArray = found ++ (b :: text).toArray by simp] at hloop
    exact .next (peek_of_byte? (h.bytes 0 (Nat.succ_pos _))) hb hloop

/-- The string at an address is one string, as the loop finds one. -/
theorem StringAt.eq {text text' : List UInt8} (h : StringAt m page address text)
    (h' : StringAt m page address text') : text = text' := by
  obtain ⟨hpage, hend⟩ :=
    (m.isSome_byte?_iff page _).1 (Option.isSome_iff_exists.2 ⟨_, h.dollar⟩)
  have hfound := (h.stringLoop #[]).readString_eq hpage (by omega) (Nat.le_refl _)
  rw [(h'.stringLoop #[]).readString_eq hpage (by omega) (Nat.le_refl _)] at hfound
  simpa using hfound.symm

/-- Without a dollar sign the loop is refused at the end of the page. -/
theorem stringLoop_refused (hpage : page < m.pageCount) (haddress : address ≤ pageSize)
    (hnone : ∀ place, address ≤ place → m.byte? page place ≠ some Execution.dollar)
    (found : Array UInt8) :
    StringLoop m page address found (pageSize - address) (.error (.invalidAddress pageSize) m) := by
  -- by induction on what is left of the page
  obtain ⟨rest, hrest⟩ : ∃ rest, address + rest = pageSize := ⟨pageSize - address, by omega⟩
  rw [show pageSize - address = rest by omega]
  induction rest generalizing address found with
  | zero =>
    obtain rfl : address = pageSize := hrest
    exact .refused (peek_pageSize hpage)
  | succ rest ih =>
    obtain ⟨b, hb⟩ := exists_byte? hpage (show address < pageSize by omega)
    have hne : b ≠ Execution.dollar := by
      rintro rfl
      exact hnone address (Nat.le_refl _) hb
    exact .next (peek_of_byte? hb) hne
      (ih (by omega) (fun place hle => hnone place (by omega)) (found.push b) (by omega))

/-- **The loop ends**, at a dollar sign or at the end of the page. -/
theorem exists_stringLoop (hpage : page < m.pageCount) (haddress : address ≤ pageSize)
    (found : Array UInt8) : ∃ reads r, StringLoop m page address found reads r := by
  by_cases hdollar : ∃ place, address ≤ place ∧ m.byte? page place = some Execution.dollar
  · obtain ⟨place, hle, hplace⟩ := hdollar
    obtain ⟨text, htext⟩ := exists_stringAt hpage hle hplace
    exact ⟨_, _, htext.stringLoop found⟩
  · push Not at hdollar
    exact ⟨_, _, stringLoop_refused hpage haddress hdollar found⟩

end Reading

/-! ## The service -/

namespace Execution

variable {i : Instruction} {c : Context Memory}

theorem size_log_peek {page address : Nat} {bus bus' : Logged Memory} {b : UInt8}
    (h : Bus.peek page address bus = .ok b bus') : bus'.log.size = bus.log.size + 1 := by
  change Logged.record (Memory.peek page address) _ bus = _ at h
  unfold Logged.record at h
  dsimp only at h
  cases hpeek : Memory.peek page address bus.inner <;> rw [hpeek] at h <;> cases h
  exact Array.size_push ..

theorem size_log_peek_error {page address : Nat} {bus bus' : Logged Memory} {e : MemoryError}
    (h : Bus.peek page address bus = .error e bus') : bus'.log.size = bus.log.size := by
  change Logged.record (Memory.peek page address) _ bus = _ at h
  unfold Logged.record at h
  dsimp only at h
  cases hpeek : Memory.peek page address bus.inner <;> rw [hpeek] at h <;> cases h
  rfl

/-- The loop makes no more accesses than it has room for. -/
theorem size_log_readString (page room address : Nat) (found : Array UInt8) (bus : Logged Memory) :
    (endState (readString page room address found bus)).log.size ≤ bus.log.size + room := by
  induction room generalizing address found bus with
  | zero => exact Nat.le_refl _
  | succ room ih =>
    rw [readString]
    cases hpeek : Bus.peek page address bus with
    | error e bus' =>
      rw [bind_of_error hpeek]
      have hsize := size_log_peek_error hpeek
      show bus'.log.size ≤ _
      omega
    | ok b bus' =>
      have hsize := size_log_peek hpeek
      rw [bind_of_ok hpeek]
      split_ifs
      · show bus'.log.size ≤ _
        omega
      · have hrest := ih (address + 1) (found.push b) bus'
        show (endState (readString page room (address + 1) (found.push b) bus')).log.size ≤ _
        omega

theorem length_accesses_printString (hservice : (Invocation.mk i c).service? = some 0x09) :
    (c.accesses i).length ≤ pageSize - c.dosPlace := by
  obtain ⟨hopcode, hvector, hax⟩ := service?_eq_some_iff.1 hservice
  have hrun : execute i c.logged = printString c.logged := by
    rw [execute_dos hopcode (show i.source c.logged.registers 0 = _ from hvector)]
    show serve _ (c.registers.high .ax) _ = _
    rw [hax]
    rfl
  rw [Context.accesses, hrun, printString_eq, Array.length_toList]
  have hplace : c.logged.dosPlace = c.dosPlace := rfl
  rw [hplace]
  split_ifs with hpage
  · exact Nat.zero_le _
  · have hlog := size_log_readString (Bus.activePage c.logged.bus) (pageSize - c.dosPlace) c.dosPlace #[]
      c.logged.bus
    have hstart : c.logged.bus.log.size = 0 := rfl
    rw [hstart, Nat.zero_add] at hlog
    cases hread : readString (Bus.activePage c.logged.bus) (pageSize - c.dosPlace) c.dosPlace #[]
        c.logged.bus with
    | ok text bus =>
      rw [hread] at hlog
      exact hlog
    | error e bus =>
      rw [hread] at hlog
      exact hlog

/-- The service comes to what the loop comes to. -/
theorem execute_of_stringLoop (hservice : (Invocation.mk i c).service? = some 0x09)
    (hplace : c.dosPlace < pageSize) {reads : Nat}
    {r : EStateM.Result MemoryError Memory (Array UInt8)}
    (hloop : StringLoop c.bus c.bus.activePage c.dosPlace #[] reads r) :
    execute i c =
      match r with
      | .ok text bus => .ok .proceed ⟨c.registers, bus, c.console.write text.toList⟩
      | .error e bus => .error (.memory e) ⟨c.registers, bus, c.console⟩ := by
  rw [execute_service hservice]
  change printString c = _
  have hread : readString (Bus.activePage c.bus) (pageSize - c.dosPlace) c.dosPlace #[] c.bus = r :=
    hloop.readString_eq c.bus.activePage_lt hplace.le (Nat.le_refl _)
  rw [printString_eq, if_neg (not_le.2 hplace), hread]
  cases r <;> rfl

/-- **A string is printed exactly, and printing ends.** The loop of service 09h has an end, and it reads at
most the bytes from DS:DX to the end of the page; `readString` comes to the same end, for every bound that
leaves room for these bytes. If there is a dollar sign among them, the bytes in front of the first one go to
the console and the program goes on. If there is none, or DS:DX does not lie in the page, the service fails
at the first address behind the page or at DS:DX, and nothing is printed. In no case does it change memory,
registers, flags or input. -/
theorem printString_exact (hservice : (Invocation.mk i c).service? = some 0x09) :
    (c.dosPlace < pageSize →
      (∃ reads r, StringLoop c.bus c.bus.activePage c.dosPlace #[] reads r) ∧
      ∀ reads r, StringLoop c.bus c.bus.activePage c.dosPlace #[] reads r →
        reads ≤ pageSize - c.dosPlace ∧ ∀ room, pageSize - c.dosPlace ≤ room →
          readString c.bus.activePage room c.dosPlace #[] c.bus = r) ∧
    (c.accesses i).length ≤ pageSize - c.dosPlace ∧
    (∀ place, c.dosPlace ≤ place → c.bus.byte? c.bus.activePage place = some dollar →
      ∃ text c', StringAt c.bus c.bus.activePage c.dosPlace text ∧ execute i c = .ok .proceed c' ∧
        c'.console.output.toList = c.console.output.toList ++ text ∧
        c'.console.input = c.console.input ∧ c'.bus = c.bus ∧ c'.registers = c.registers) ∧
    (c.dosPlace < pageSize →
      (∀ place, c.dosPlace ≤ place → c.bus.byte? c.bus.activePage place ≠ some dollar) →
      execute i c = .error (.memory (.invalidAddress pageSize)) c) ∧
    (pageSize ≤ c.dosPlace → execute i c = .error (.memory (.invalidAddress c.dosPlace)) c) := by
  have hpage := c.bus.activePage_lt
  refine ⟨fun hplace => ⟨exists_stringLoop hpage hplace.le #[], fun reads r hloop => ?_⟩,
    length_accesses_printString hservice, ?_, ?_, ?_⟩
  · exact ⟨hloop.reads_le, fun room hroom => hloop.readString_eq hpage hplace.le hroom⟩
  · intro place hle hdollar
    obtain ⟨text, htext⟩ := exists_stringAt hpage hle hdollar
    have hplace := lt_of_le_of_lt hle (lt_pageSize_of_byte? hdollar)
    have hrun := execute_of_stringLoop hservice hplace (htext.stringLoop #[])
    exact ⟨text, _, htext, hrun, by simp, rfl, rfl, rfl⟩
  · intro hplace hnone
    exact execute_of_stringLoop hservice hplace (stringLoop_refused hpage hplace.le hnone #[])
  · intro hplace
    rw [execute_service hservice]
    change printString c = _
    rw [printString_eq, if_pos hplace]

/-- A string whose dollar sign is the last byte of the page. -/
theorem printString_exact_page_end :
    let i : Instruction := ⟨.int, [.immediate 0x21]⟩
    let c : Context Memory :=
      ⟨(RegisterFile.zero.set .ax 0x0900).set .dx 0xFFFD,
        (Memory.ofPages 1).writeRun 0 0xFFFD [0x48, 0x49, 0x24], .ofInput []⟩
    (Invocation.mk i c).service? = some 0x09 ∧
      ∃ c', execute i c = .ok .proceed c' ∧ c'.console.output.toList = [0x48, 0x49] ∧
        (c.accesses i).length ≤ 3 := by
  intro i c
  have hservice : (Invocation.mk i c).service? = some 0x09 := by decide
  have hplace : c.dosPlace = 0xFFFD := by decide
  have hpage : 0 < (Memory.ofPages 1).pageCount := (Memory.ofPages 1).activePage_lt
  have hactive : c.bus.activePage = 0 := Memory.activePage_writeRun ..
  have hbyte := Memory.byte?_writeRun [0x48, 0x49, 0x24] hpage
    (show 0xFFFD + 3 ≤ pageSize by decide) 0
  have hstring : StringAt c.bus c.bus.activePage c.dosPlace [0x48, 0x49] := by
    rw [hactive, hplace]
    refine ⟨fun k hk => ?_, hbyte 0xFFFF, by decide⟩
    obtain rfl | rfl : k = 0 ∨ k = 1 := by
      rw [List.length_cons, List.length_singleton] at hk
      omega
    · exact hbyte 0xFFFD
    · exact hbyte 0xFFFE
  obtain ⟨-, hreads, hprints, -⟩ := printString_exact hservice
  obtain ⟨text, c', htext, hrun, houtput, -⟩ := hprints _ (Nat.le_add_right _ _) hstring.dollar
  refine ⟨hservice, c', hrun, ?_, ?_⟩
  · rw [houtput, htext.eq hstring]
    rfl
  · rwa [hplace] at hreads

end Execution

end DosMonitor
