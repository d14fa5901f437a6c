import Mathlib
import DosMonitor.Proofs.Actions
import DosMonitor.Proofs.ByteRuns
import DosMonitor.Proofs.Execution

/-!
# The services that move text

Service 09h of interrupt 21h prints a string of memory, service 0Ah puts a line of input into a buffer.
Each is one equation here, so that nothing else has to open them.

Main statements: service 09h prints what its loop has read, and nothing if that fails (`printString_eq`).
Service 0Ah does all its checks before it takes a line, and then its three writes are one run of bytes
(`writeBuffer_ok`, `readBuffer_eq`).
-/

namespace DosMonitor

/-- The text of the next line of input, an empty one where no line is left. A line that is not UTF-8 has no
text. -/
def Console.nextText (c : Console) : String :=
  (c.input.head?.bind InputLine.text?).getD ""

/-- The console after a line has been taken, if there was one. -/
def Console.afterLine (c : Console) : Console :=
  { c with input := c.input.drop 1 }

theorem Console.readLine_eq (c : Console) :
    c.readLine = (c.input.head?.bind InputLine.text?, c.afterLine) := by
  obtain ⟨output, input⟩ := c
  cases input <;> rfl

namespace Context

/-- The address that DS and DX name together. -/
def dosPlace {β : Type} (c : Context β) : Nat :=
  Execution.linearAddress c.registers

/-- How many bytes of a line the buffer at DS:DX has room for, as its first byte says. -/
def bufferLimit (c : Context Memory) : Nat :=
  ((c.bus.byte? c.bus.activePage c.dosPlace).getD 0).toNat

/-- The first bytes of the next line, as many as the buffer has room for. -/
def lineBytes (c : Context Memory) : List UInt8 :=
  (Text.bytes c.console.nextText).take c.bufferLimit

theorem bufferLimit_lt (c : Context Memory) : c.bufferLimit < 0x100 :=
  UInt8.toNat_lt _

theorem length_lineBytes_le (c : Context Memory) : c.lineBytes.length ≤ c.bufferLimit :=
  List.length_take_le _ _

/-- A buffer that begins in the page has a first byte. -/
theorem exists_byte?_dosPlace (c : Context Memory) (h : c.dosPlace < pageSize) :
    ∃ b, c.bus.byte? c.bus.activePage c.dosPlace = some b ∧ b.toNat = c.bufferLimit := by
  obtain ⟨b, hb⟩ := Option.isSome_iff_exists.1
    ((c.bus.isSome_byte?_iff c.bus.activePage c.dosPlace).2 ⟨c.bus.activePage_lt, h⟩)
  exact ⟨b, hb, by rw [bufferLimit, hb, Option.getD_some]⟩

end Context

/-- The length, the text and the final zero are written as one run behind the first byte of the buffer. -/
theorem writeBuffer_ok {m : Memory} {page buffer : Nat} (text : List UInt8) (hpage : page < m.pageCount)
    (hlength : text.length < 0x100) (hroom : buffer + 2 + text.length < pageSize) :
    (do
      Bus.poke page (buffer + 1) text.length
      Bus.pokeBytes page (buffer + 2) text
      Bus.poke page (buffer + 2 + text.length) 0 : BusM Memory Unit) m =
      .ok () (m.writeRun page (buffer + 1) (UInt8.ofNat text.length :: (text ++ [0]))) := by
  have hfirst := poke_ok hpage (show buffer + 1 < pageSize by omega) hlength
  generalize hm₁ : m.write page (buffer + 1) (UInt8.ofNat text.length) = m₁ at hfirst
  have hpage₁ : page < m₁.pageCount := by rwa [← hm₁, Memory.pageCount_write]
  have htext := pokeBytes_ok text hpage₁ (show buffer + 2 < pageSize by omega)
    (show buffer + 2 + text.length ≤ pageSize by omega)
  have hpage₂ : page < (m₁.writeRun page (buffer + 2) text).pageCount := by
    rwa [Memory.pageCount_writeRun]
  have hlast := poke_ok hpage₂ hroom (show 0 < 0x100 by decide)
  rw [bind_of_ok hfirst, bind_of_ok htext, hlast, Memory.writeRun, hm₁, Memory.writeRun_append]
  rfl

namespace Execution

open Exec

theorem dosAddress_eq {β : Type} (c : Context β) :
    dosAddress c =
      if pageSize ≤ c.dosPlace then .error (.memory (.invalidAddress c.dosPlace)) c
      else .ok c.dosPlace c := by
  have hregisters : (registers : Exec β _) c = .ok c.registers c := rfl
  rw [dosAddress, bind_of_ok hregisters]
  unfold Context.dosPlace
  dsimp only
  split_ifs <;> rfl

theorem onBus_ok {α β : Type} {action : BusM β α} {c : Context β} {a : α} {b : β}
    (h : action c.bus = .ok a b) : onBus action c = .ok a ⟨c.registers, b, c.console⟩ := by
  unfold onBus
  simp only [h]

theorem onBus_error {α β : Type} {action : BusM β α} {c : Context β} {e : MemoryError} {b : β}
    (h : action c.bus = .error e b) :
    onBus action c = .error (.memory e) ⟨c.registers, b, c.console⟩ := by
  unfold onBus
  simp only [h]

/-- **Service 09h** prints what its loop has read, as soon as the loop has come to an end. -/
theorem printString_eq {β : Type} [Bus β] (c : Context β) :
    printString c =
      if pageSize ≤ c.dosPlace then .error (.memory (.invalidAddress c.dosPlace)) c
      else
        match readString (Bus.activePage c.bus) (pageSize - c.dosPlace) c.dosPlace #[] c.bus with
        | .ok text bus => .ok .proceed ⟨c.registers, bus, c.console.write text.toList⟩
        | .error e bus => .error (.memory e) ⟨c.registers, bus, c.console⟩ := by
  have haddress := dosAddress_eq c
  unfold printString
  split_ifs at haddress ⊢ with hpage
  · exact bind_of_error haddress
  · rw [bind_of_ok haddress]
    cases htext : readString (Bus.activePage c.bus) (pageSize - c.dosPlace) c.dosPlace #[] c.bus with
    | ok text bus => exact bind_of_ok (onBus_ok htext)
    | error e bus => exact bind_of_error (onBus_error htext)

/-- **Service 0Ah** refuses a buffer that does not lie in the page as a whole. Otherwise it takes a line and
fills the buffer behind its first byte with the length of the text, the text and a zero. -/
theorem readBuffer_eq (c : Context Memory) :
    readBuffer c =
      if pageSize ≤ c.dosPlace then .error (.memory (.invalidAddress c.dosPlace)) c
      else if pageSize ≤ c.dosPlace + 2 + c.bufferLimit then
        .error (.memory (.overflow c.dosPlace (c.bufferLimit + 3))) c
      else
        .ok .proceed
          ⟨c.registers,
            c.bus.writeRun c.bus.activePage (c.dosPlace + 1)
              (UInt8.ofNat c.lineBytes.length :: (c.lineBytes ++ [0])),
            c.console.afterLine⟩ := by
  have haddress := dosAddress_eq c
  unfold readBuffer
  split_ifs at haddress ⊢ with hpage hroom
  · exact bind_of_error haddress
  all_goals
    rw [bind_of_ok haddress]
    -- the first byte of the buffer is read on the active page
    obtain ⟨limit, hbyte, hlimit⟩ := c.exists_byte?_dosPlace (not_le.1 hpage)
    have hpeek : Bus.peek c.bus.activePage c.dosPlace c.bus = .ok limit c.bus := by
      change Memory.peek _ _ _ = _
      rw [Memory.peek_eq, hbyte]
    have hlook : onBus (do
        let page := Bus.activePage (← get)
        let limit ← Bus.peek page c.dosPlace
        return (page, limit.toNat)) c = .ok (c.bus.activePage, c.bufferLimit) c := by
      rw [← hlimit]
      exact onBus_ok (bind_of_ok hpeek)
    rw [bind_of_ok hlook]
    dsimp only
  · rw [if_pos hroom]
    rfl
  · have hline : (readLine : Exec Memory String) c =
        .ok c.console.nextText ⟨c.registers, c.bus, c.console.afterLine⟩ := by
      unfold readLine
      simp only [Console.readLine_eq]
      rfl
    have hlength := c.length_lineBytes_le
    have hwrite := writeBuffer_ok c.lineBytes c.bus.activePage_lt
      (lt_of_le_of_lt hlength c.bufferLimit_lt) (show c.dosPlace + 2 + _ < pageSize by omega)
    rw [if_neg hroom, bind_of_ok hline]
    exact bind_of_ok (onBus_ok hwrite)

end Execution

end DosMonitor
