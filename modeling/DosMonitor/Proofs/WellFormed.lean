import Mathlib
import DosMonitor.Proofs.Operation

/-!
# Machines keep their shape

Memory keeps the configured number of pages of 64K bytes, and the page that is active is the one that
the configuration names. The disk keeps its size. A loaded program stands at one of its lines or behind
the last, its labels name such places, and the marker of the breakpoint reported last names the place
at which the program stands (`WellFormed`).

Each change keeps this (`WellFormed.change`), so it holds after any operations on a machine that was
made by `Machine.create` (`wellFormed_afterOperations`).
-/

namespace DosMonitor

namespace Program

/-- The program stands at a line or behind the last one, and so do its labels. -/
structure InRange (p : Program) : Prop where
  pc : p.pc ≤ p.lines.size
  labels : ∀ entry ∈ p.labels, entry.2 ≤ p.lines.size

theorem labels_addLine {p : Program} (h : ∀ entry ∈ p.labels, entry.2 ≤ p.lines.size)
    (line : List Char) : ∀ entry ∈ (p.addLine line).labels, entry.2 ≤ (p.addLine line).lines.size := by
  unfold addLine
  split
  · intro entry hentry
    rcases List.mem_cons.1 hentry with rfl | hentry
    · exact le_rfl
    · exact h entry (List.mem_of_mem_filter hentry)
  · dsimp only
    split_ifs
    · exact h
    · intro entry hentry
      have := h entry hentry
      rw [Array.size_push]
      omega

theorem inRange_ofSource (source : List String) (base : UInt16) : (ofSource source base).InRange where
  pc := by
    rw [pc_ofSource]
    exact Nat.zero_le _
  labels := ofSource_induction (P := fun p => ∀ entry ∈ p.labels, entry.2 ≤ p.lines.size)
    (fun entry hentry => by cases hentry) (fun _ line h => labels_addLine h line) source

end Program

/-- A loaded program is in range, and it stands where a breakpoint was reported last. -/
def Debugger.WellFormed (d : Debugger) : Prop :=
  match d.program with
  | none => d.resume = none
  | some p => p.InRange ∧ (d.resume = none ∨ d.resume = some p.pc)

namespace Machine

/-- A machine of the given shape. -/
structure WellFormed (config : Config) (m : Machine) : Prop where
  pageCount : m.memory.pageCount = config.pages
  activePage : m.memory.activePage = m.config.activePage
  disk : m.disk.blocks.size = config.diskSize
  debugger : m.debugger.WellFormed

variable {config : Config} {m n : Machine}

theorem WellFormed.activePage_lt (h : WellFormed config m) : m.config.activePage < config.pages := by
  rw [← h.activePage, ← h.pageCount]
  exact m.memory.activePage_lt

/-- The bytes of memory are those of the configured pages, 64K in each. -/
theorem WellFormed.isSome_byte? (h : WellFormed config m) (page address : Nat) :
    (m.memory.byte? page address).isSome ↔ page < config.pages ∧ address < 0x10000 := by
  rw [Memory.isSome_byte?_iff, h.pageCount, pageSize]

theorem Debugger.WellFormed.movedTo {p : Program} (h : m.debugger.WellFormed)
    (hp : m.debugger.program = some p) {pc : Nat} (hpc : pc = p.pc ∨ pc ≤ p.lines.size)
    {resume : Option Nat} (hresume : resume = none ∨ resume = some pc) :
    (m.movedTo pc resume).debugger.WellFormed := by
  unfold DosMonitor.Debugger.WellFormed at h ⊢
  rw [hp] at h
  simp only [Machine.movedTo, hp, Option.map_some]
  refine ⟨⟨?_, h.1.labels⟩, hresume⟩
  rcases hpc with rfl | hpc
  · exact h.1.pc
  · exact hpc

theorem WellFormed.change (hmn : Change m n) (h : WellFormed config m) : WellFormed config n := by
  cases hmn with
  | core core hframe =>
    exact { h with
      pageCount := hframe.pageCount.trans h.pageCount
      activePage := hframe.activePage.trans h.activePage }
  | page page hpage => exact { h with pageCount := h.pageCount, activePage := rfl }
  | disk disk hsize => exact { h with disk := hsize.trans h.disk }
  | load source base =>
    exact { h with debugger := ⟨Program.inRange_ofSource source base, .inl rfl⟩ }
  | position p pc resume hp hpc hresume =>
    exact { h with debugger := Debugger.WellFormed.movedTo h.debugger hp hpc hresume }
  | edit breakpoints watches => exact { h with debugger := h.debugger }
  | trace trace => exact { h with }
  | status status => exact { h with }

theorem wellFormed_create {home : String} {console : Console}
    (h : create config home console = .ok m) : WellFormed config m := by
  obtain ⟨hpages, memory, hmemory, rfl⟩ := exists_memory_of_create h
  have hsize : (Memory.ofPages config.pages).pages.size = config.pages := by
    rw [Memory.ofPages, Array.size_replicate]
    omega
  unfold Memory.setActivePage at hmemory
  split_ifs at hmemory
  cases hmemory
  exact ⟨hsize, rfl, Array.size_replicate .., rfl⟩

/-- **Machines keep their shape** through all operations, whether these fail or not. -/
theorem wellFormed_afterOperations {home : String} {console : Console}
    (hcreate : create config home console = .ok m) (operations : List Operation) :
    let n := afterOperations operations m
    WellFormed config n ∧ n.config.activePage < config.pages ∧
      ∀ page address,
        (n.memory.byte? page address).isSome ↔ page < config.pages ∧ address < 0x10000 := by
  have h := operations_induction (P := WellFormed config) (fun _ _ => .change) operations
    (wellFormed_create hcreate)
  exact ⟨h, h.activePage_lt, h.isSome_byte?⟩

/-- A machine with two pages that stops behind the last line, refuses a page and takes another. -/
theorem wellFormed_afterOperations_pages :
    let config := { Config.standard with pages := 2 }
    let operations : List Operation :=
      [.call (.load ["INC AX", "end:"] 0xFFFF), .call (.addBreakpoint "end"), .call (.run none),
        .dispatch (fun _ => .error .notFound) "sp 2", .dispatch (fun _ => .error .notFound) "sp 1"]
    ∃ m, create config "" (.ofInput []) = .ok m ∧ WellFormed config (afterOperations operations m) ∧
      (afterOperations operations m).debugger.resume = some 1 ∧
      (afterOperations operations m).config.activePage = 1 := by
  intro config operations
  obtain ⟨m, hcreate⟩ : ∃ m, create config "" (.ofInput []) = .ok m := ⟨_, rfl⟩
  have hresume : ((create config "" (.ofInput [])).toOption.map fun m =>
      (afterOperations operations m).debugger.resume) = some (some 1) := by decide +kernel
  have hpage : ((create config "" (.ofInput [])).toOption.map fun m =>
      (afterOperations operations m).config.activePage) = some 1 := by decide +kernel
  rw [hcreate] at hresume hpage
  exact ⟨m, hcreate, (wellFormed_afterOperations hcreate operations).1, Option.some.inj hresume,
    Option.some.inj hpage⟩

end Machine

end DosMonitor
