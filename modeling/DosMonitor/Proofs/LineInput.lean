import DosMonitor.Proofs.Invocation

/-!
# A line of input and its buffer

Service 0Ah of interrupt 21h takes a line of input into a buffer of memory. The buffer begins at DS:DX with
the number of bytes that it has room for; behind it the service writes how many there are, then the bytes,
then a zero (`BufferFilled`).

Main statement: the service succeeds where the buffer lies in the page as a whole, and then it takes one
line and changes no byte outside the buffer; where it fails it has taken no line (`readBuffer_exact`). The
first byte of the buffer stays, so the service can be asked for again and again (`repeated_readBuffer`).
-/

namespace DosMonitor

open Execution

/-- The buffer at DS:DX has got the next line: behind its first byte stand the number of bytes that there
was room for, these bytes and a zero. All other bytes of all pages are as before. -/
structure BufferFilled (c : Context Memory) (m : Memory) : Prop where
  activePage : m.activePage = c.bus.activePage
  pageCount : m.pageCount = c.bus.pageCount
  length : (m.byte? c.bus.activePage (c.dosPlace + 1)).map UInt8.toNat = some c.lineBytes.length
  text : ∀ k < c.lineBytes.length, m.byte? c.bus.activePage (c.dosPlace + 2 + k) = c.lineBytes[k]?
  zero : m.byte? c.bus.activePage (c.dosPlace + 2 + c.lineBytes.length) = some 0
  others : ∀ page address,
    ¬(page = c.bus.activePage ∧ c.dosPlace < address ∧
      address ≤ c.dosPlace + 2 + c.lineBytes.length) →
    m.byte? page address = c.bus.byte? page address

/-- The three writes of the service are one run, of which the places are told apart here. -/
theorem bufferFilled_writeRun {c : Context Memory} (h : c.dosPlace + 2 + c.lineBytes.length < pageSize) :
    BufferFilled c (c.bus.writeRun c.bus.activePage (c.dosPlace + 1)
      (UInt8.ofNat c.lineBytes.length :: (c.lineBytes ++ [0]))) := by
  have hlength : (UInt8.ofNat c.lineBytes.length :: (c.lineBytes ++ [0])).length =
      c.lineBytes.length + 2 := by simp
  have hbyte := Memory.byte?_writeRun (UInt8.ofNat c.lineBytes.length :: (c.lineBytes ++ [0]))
    c.bus.activePage_lt (show c.dosPlace + 1 + _ ≤ pageSize by rw [hlength]; omega)
  rw [hlength] at hbyte
  have hinside : ∀ k < c.lineBytes.length + 2,
      (c.bus.writeRun c.bus.activePage (c.dosPlace + 1)
        (UInt8.ofNat c.lineBytes.length :: (c.lineBytes ++ [0]))).byte? c.bus.activePage
          (c.dosPlace + 1 + k) = (UInt8.ofNat c.lineBytes.length :: (c.lineBytes ++ [0]))[k]? := by
    intro k hk
    rw [hbyte, if_pos ⟨rfl, by omega, by omega⟩, Nat.add_sub_cancel_left]
  constructor
  · rw [Memory.activePage_writeRun]
  · rw [Memory.pageCount_writeRun]
  · have hsmall : c.lineBytes.length < 0x100 := lt_of_le_of_lt c.length_lineBytes_le c.bufferLimit_lt
    rw [hinside 0 (by omega)]
    simp [Nat.mod_eq_of_lt hsmall]
  · intro k hk
    have hplace : c.dosPlace + 2 + k = c.dosPlace + 1 + (k + 1) := by omega
    rw [hplace, hinside (k + 1) (by omega), List.getElem?_cons_succ, List.getElem?_append_left hk]
  · have hplace : c.dosPlace + 2 + c.lineBytes.length = c.dosPlace + 1 + (c.lineBytes.length + 1) := by
      omega
    rw [hplace, hinside _ (by omega), List.getElem?_cons_succ, List.getElem?_concat_length]
  · intro page address houtside
    rw [hbyte, if_neg fun hinside => houtside ⟨hinside.1, by omega, by omega⟩]

namespace BufferFilled

variable {c c' : Context Memory}

/-- The first byte of the buffer is not written. -/
theorem bufferLimit_eq (h : BufferFilled c c'.bus) (hregisters : c'.registers = c.registers) :
    c'.bufferLimit = c.bufferLimit := by
  have hplace : c'.dosPlace = c.dosPlace := congrArg linearAddress hregisters
  rw [Context.bufferLimit, hplace, h.activePage,
    h.others _ _ fun hinside => absurd hinside.2.1 (Nat.lt_irrefl _)]
  rfl

end BufferFilled

/-- The context after an instruction has been carried out so many times. -/
def Context.repeated (i : Instruction) (n : Nat) (c : Context Memory) : Context Memory :=
  (fun c => endState (execute i c))^[n] c

namespace Execution

variable {i : Instruction} {c c' : Context Memory} {outcome : Outcome}

theorem service?_congr (h : c'.registers = c.registers) :
    (Invocation.mk i c').service? = (Invocation.mk i c).service? := by
  unfold Invocation.service?
  rw [h]

/-- What the service does where it succeeds. -/
theorem readBuffer_filled (hservice : (Invocation.mk i c).service? = some 0x0A)
    (h : execute i c = .ok outcome c') :
    c.dosPlace + 2 + c.bufferLimit < pageSize ∧ outcome = .proceed ∧ BufferFilled c c'.bus ∧
      c'.registers = c.registers ∧ c'.console = c.console.afterLine := by
  rw [execute_service hservice] at h
  change readBuffer c = _ at h
  rw [readBuffer_eq] at h
  split_ifs at h with hpage hroom
  cases h
  have hlength := c.length_lineBytes_le
  exact ⟨not_le.1 hroom, rfl, bufferFilled_writeRun (by omega), rfl, rfl⟩

theorem readBuffer_succeeds (hservice : (Invocation.mk i c).service? = some 0x0A)
    (h : c.dosPlace + 2 + c.bufferLimit < pageSize) : ∃ c', execute i c = .ok .proceed c' := by
  rw [execute_service hservice]
  change ∃ c', readBuffer c = _
  rw [readBuffer_eq, if_neg (by omega), if_neg (by omega)]
  exact ⟨_, rfl⟩

/-- The service can be asked for again as often as wanted. It takes a line each time and finds the same
buffer. -/
theorem repeated_readBuffer (hservice : (Invocation.mk i c).service? = some 0x0A)
    (hroom : c.dosPlace + 2 + c.bufferLimit < pageSize) (n : Nat) :
    (c.repeated i n).registers = c.registers ∧ (c.repeated i n).bufferLimit = c.bufferLimit ∧
      (c.repeated i n).console.input = c.console.input.drop n ∧
      ∃ d, execute i (c.repeated i n) = .ok .proceed d := by
  induction n with
  | zero => exact ⟨rfl, rfl, rfl, readBuffer_succeeds hservice hroom⟩
  | succ n ih =>
    obtain ⟨hregisters, hlimit, hinput, d, hd⟩ := ih
    have hnext : c.repeated i (n + 1) = d := by
      rw [Context.repeated, Function.iterate_succ_apply']
      exact congrArg endState hd
    obtain ⟨hfits, -, hfilled, hkept, hconsole⟩ :=
      readBuffer_filled ((service?_congr hregisters).trans hservice) hd
    have hlimit' : d.bufferLimit = c.bufferLimit := (hfilled.bufferLimit_eq hkept).trans hlimit
    have hkept' : d.registers = c.registers := hkept.trans hregisters
    have hplace : d.dosPlace = c.dosPlace := congrArg linearAddress hkept'
    rw [hnext]
    refine ⟨hkept', hlimit', ?_, readBuffer_succeeds ((service?_congr hkept').trans hservice) ?_⟩
    · rw [hconsole]
      show (c.repeated i n).console.input.drop 1 = _
      rw [hinput, List.drop_drop]
    · rwa [hlimit', hplace]

/-- **A line of input stays in its buffer, and no line is lost.** Service 0Ah succeeds where the buffer lies
in the page as a whole, whatever the line. Then it has taken one line from the console, which counts as
empty at the end of the input, and has changed memory in the buffer alone, behind its first byte; it has
printed nothing and changed no register and no flag. So it can be asked for again and again and finds a buffer
of the same size each time. Where it fails it has changed nothing and taken no line. -/
theorem readBuffer_exact (hservice : (Invocation.mk i c).service? = some 0x0A) :
    ((∃ outcome c', execute i c = .ok outcome c') ↔
      c.dosPlace < pageSize ∧ c.dosPlace + 2 + c.bufferLimit < pageSize) ∧
    (∀ outcome c', execute i c = .ok outcome c' →
      outcome = .proceed ∧ BufferFilled c c'.bus ∧ c'.registers = c.registers ∧
      c'.console.output = c.console.output ∧ c'.console.input = c.console.input.drop 1 ∧
      ∀ n, (c.repeated i n).registers = c.registers ∧ (c.repeated i n).bufferLimit = c.bufferLimit ∧
        (c.repeated i n).console.input = c.console.input.drop n ∧
        ∃ d, execute i (c.repeated i n) = .ok .proceed d) ∧
    ∀ e c', execute i c = .error e c' → c' = c := by
  refine ⟨⟨?_, ?_⟩, ?_, atomic_execute i c⟩
  · rintro ⟨outcome, c', h⟩
    obtain ⟨hroom, -⟩ := readBuffer_filled hservice h
    exact ⟨by omega, hroom⟩
  · rintro ⟨-, hroom⟩
    obtain ⟨c', h⟩ := readBuffer_succeeds hservice hroom
    exact ⟨_, c', h⟩
  · intro outcome c' h
    obtain ⟨hroom, houtcome, hfilled, hregisters, hconsole⟩ := readBuffer_filled hservice h
    refine ⟨houtcome, hfilled, hregisters, ?_, ?_, repeated_readBuffer hservice hroom⟩
    · rw [hconsole]
      rfl
    · rw [hconsole]
      rfl

/-- A buffer of three bytes at the very end of the page. The line is cut in the middle of a character. -/
theorem readBuffer_exact_page_end :
    let i : Instruction := ⟨.int, [.immediate 0x21]⟩
    let c : Context Memory :=
      ⟨(RegisterFile.zero.set .ax 0x0A00).set .dx 0xFFFA, (Memory.ofPages 1).write 0 0xFFFA 3,
        .ofInput [.text "abé", .text "next"]⟩
    (Invocation.mk i c).service? = some 0x0A ∧
      ∃ c', execute i c = .ok .proceed c' ∧ c'.console.input = [.text "next"] ∧
        c'.bus.byte? 0 0xFFFA = some 3 ∧ c'.bus.byte? 0 0xFFFE = some 0xC3 ∧
        c'.bus.byte? 0 0xFFFF = some 0 := by
  intro i c
  have hservice : (Invocation.mk i c).service? = some 0x0A := by decide
  have hplace : c.dosPlace = 0xFFFA := by decide
  have hpage : 0 < (Memory.ofPages 1).pageCount := (Memory.ofPages 1).activePage_lt
  have hbyte : c.bus.byte? 0 0xFFFA = some 3 :=
    (Memory.byte?_write_of_lt hpage (by decide) 3 0 0xFFFA).trans (if_pos ⟨rfl, rfl⟩)
  have hlimit : c.bufferLimit = 3 := by
    rw [Context.bufferLimit, hplace]
    exact congrArg (fun b : Option UInt8 => (b.getD 0).toNat) hbyte
  have hline : c.lineBytes = [0x61, 0x62, 0xC3] := by
    rw [Context.lineBytes, hlimit]
    decide
  obtain ⟨hsucceeds, hdoes, -⟩ := readBuffer_exact hservice
  obtain ⟨outcome, c', h⟩ := hsucceeds.2 (by rw [hplace, hlimit]; decide)
  obtain ⟨rfl, hfilled, -, -, hinput, -⟩ := hdoes outcome c' h
  refine ⟨hservice, c', h, hinput, ?_, ?_, ?_⟩
  · rw [hfilled.others 0 0xFFFA (by rw [hplace]; omega), hbyte]
  · have htext := hfilled.text 2 (by rw [hline]; decide)
    rwa [hplace, hline] at htext
  · have hzero := hfilled.zero
    rwa [hplace, hline] at hzero

end Execution

end DosMonitor
