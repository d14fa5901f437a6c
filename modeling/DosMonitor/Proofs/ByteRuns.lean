import Mathlib
import DosMonitor.Memory.Paged

/-!
# Runs of bytes

Texts and buffers come to memory as runs of bytes, which are written one after the other
(`Memory.writeRun`).

Main statements: after a run has been written its bytes can be read where they belong, and all other
bytes of all pages are as before (`byte?_writeRun`). A bus takes a run that fits into its page to the last
byte (`pokeEach_ok`, `pokeBytes_ok`).
-/

namespace DosMonitor

namespace Memory

/-- Memory with bytes written one after the other, from an address of a page on. -/
def writeRun (page : Nat) : (address : Nat) → List UInt8 → Memory → Memory
  | _, [], m => m
  | address, b :: bytes, m => writeRun page (address + 1) bytes (m.write page address b)

variable (m : Memory) (page address : Nat)

@[simp] theorem pageCount_writeRun (bytes : List UInt8) :
    (m.writeRun page address bytes).pageCount = m.pageCount := by
  induction bytes generalizing m address with
  | nil => rfl
  | cons b bytes ih => rw [writeRun, ih, pageCount_write]

@[simp] theorem activePage_writeRun (bytes : List UInt8) :
    (m.writeRun page address bytes).activePage = m.activePage := by
  induction bytes generalizing m address with
  | nil => rfl
  | cons b bytes ih => rw [writeRun, ih, activePage_write]

theorem writeRun_append (bytes more : List UInt8) :
    m.writeRun page address (bytes ++ more) =
      (m.writeRun page address bytes).writeRun page (address + bytes.length) more := by
  induction bytes generalizing m address with
  | nil => rfl
  | cons b bytes ih => rw [List.cons_append, writeRun, ih, writeRun, List.length_cons, Nat.add_right_comm,
      Nat.add_assoc]

variable {m page address}

theorem byte?_write_of_lt (hpage : page < m.pageCount) (haddress : address < pageSize) (b : UInt8)
    (page' address' : Nat) :
    (m.write page address b).byte? page' address' =
      if page' = page ∧ address' = address then some b else m.byte? page' address' := by
  obtain ⟨old, hold⟩ := Option.isSome_iff_exists.1 ((m.isSome_byte?_iff page address).2 ⟨hpage, haddress⟩)
  rw [byte?_write, hold]
  rfl

/-- What is written of a run is its bytes, in order, and nothing else. -/
theorem byte?_writeRun (bytes : List UInt8) (hpage : page < m.pageCount)
    (hroom : address + bytes.length ≤ pageSize) (page' address' : Nat) :
    (m.writeRun page address bytes).byte? page' address' =
      if page' = page ∧ address ≤ address' ∧ address' < address + bytes.length then
        bytes[address' - address]?
      else m.byte? page' address' := by
  induction bytes generalizing m address with
  | nil =>
    rw [if_neg fun h => by simp only [List.length_nil] at h; omega]
    rfl
  | cons b bytes ih =>
    rw [List.length_cons] at hroom ⊢
    have hrest := @ih (m.write page address b) (address + 1) (by rwa [pageCount_write]) (by omega)
    rw [byte?_write_of_lt hpage (by omega)] at hrest
    rw [writeRun, hrest]
    by_cases hfirst : page' = page ∧ address' = address
    · -- the first byte, which the rest of the run does not touch
      obtain ⟨rfl, rfl⟩ := hfirst
      simp
    · by_cases hlater : page' = page ∧ address + 1 ≤ address' ∧ address' < address + 1 + bytes.length
      · have hplace : address' - address = address' - (address + 1) + 1 := by omega
        rw [if_pos hlater, if_pos ⟨hlater.1, by omega, by omega⟩, hplace, List.getElem?_cons_succ]
      · rw [if_neg hlater, if_neg hfirst, if_neg fun h => ?_]
        obtain ⟨hsame, hle, hlt⟩ := h
        have hne : address' ≠ address := fun heq => hfirst ⟨hsame, heq⟩
        exact hlater ⟨hsame, by omega, by omega⟩

end Memory

variable {m : Memory} {page address : Nat}

theorem poke_ok (hpage : page < m.pageCount) (haddress : address < pageSize) {value : Nat}
    (hvalue : value < 0x100) :
    Bus.poke page address value m = .ok () (m.write page address (UInt8.ofNat value)) := by
  change Memory.poke page address value m = _
  rw [Memory.poke_eq, if_neg (by omega), if_neg (by omega), if_neg (by omega)]

theorem checkAccess_ok (hpage : page < m.pageCount) (haddress : address < pageSize) :
    Bus.checkAccess page address m = .ok () m := by
  have hpages : ¬Bus.pageCount m ≤ page := by
    show ¬m.pageCount ≤ page
    omega
  simp only [Bus.checkAccess, bind, EStateM.bind, get, getThe, MonadStateOf.get, EStateM.get,
    if_neg hpages, if_neg (show ¬pageSize ≤ address by omega)]
  rfl

theorem pokeEach_ok (bytes : List UInt8) (hpage : page < m.pageCount)
    (hroom : address + bytes.length ≤ pageSize) :
    Bus.pokeEach page address bytes m = .ok () (m.writeRun page address bytes) := by
  induction bytes generalizing m address with
  | nil => rfl
  | cons b bytes ih =>
    rw [List.length_cons] at hroom
    have hpoke := poke_ok hpage (show address < pageSize by omega) b.toNat_lt
    rw [UInt8.ofNat_toNat] at hpoke
    have hrest := @ih (m.write page address b) (address + 1) (by rwa [Memory.pageCount_write]) (by omega)
    change EStateM.bind (Bus.poke page address b.toNat) _ m = _
    unfold EStateM.bind
    rw [hpoke]
    exact hrest

theorem pokeBytes_ok (bytes : List UInt8) (hpage : page < m.pageCount) (haddress : address < pageSize)
    (hroom : address + bytes.length ≤ pageSize) :
    Bus.pokeBytes page address bytes m = .ok () (m.writeRun page address bytes) := by
  change EStateM.bind (Bus.checkAccess page address) _ m = _
  unfold EStateM.bind
  rw [checkAccess_ok hpage haddress]
  dsimp only
  rw [if_neg (by omega)]
  exact pokeEach_ok bytes hpage hroom

end DosMonitor
