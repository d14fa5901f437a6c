import Mathlib
import DosMonitor.Proofs.Agreement
import DosMonitor.Proofs.Step

/-!
# Stepping through a program runs it

However a loaded program is driven, by single steps or by runs with any limits, with breakpoints and
watches coming and going, it does what its lines do when they are fed to the machine one after the
other.

The invariant (`Progress`) ties three things to the history of a run: the lines attempted so far are the
first ones of the program, the program counter stands behind them, or behind the last line once the
program has ended, and the machine agrees with the one which these lines have been fed to.
-/

namespace DosMonitor.Machine

/-- Feeds lines to a machine one by one, whatever each comes to. -/
def feed (lines : List String) (m : Machine) : Machine :=
  lines.foldl (fun m line => after (exec line) m) m

/-- The lines attempted in a history. -/
def attempts (es : List Event) : List String :=
  es.filterMap Event.attempted?

/-- The program has ended in a history. -/
def ended (es : List Event) : Bool :=
  es.any Event.exits

/-- How far a program has come after a history that has begun at `start`. -/
structure Progress (echo : Bool) (lines : Array String) (start : Machine) (es : List Event)
    (m : Machine) : Prop where
  inOrder : attempts es = lines.toList.take (attempts es).length
  position : ∃ p, m.debugger.program = some p ∧ p.lines = lines ∧
    p.pc = if ended es then lines.size else (attempts es).length
  agree : Agree echo m (feed (attempts es) start)

theorem feed_concat (lines : List String) (line : String) (m : Machine) :
    feed (lines ++ [line]) m = after (exec line) (feed lines m) := by
  unfold feed
  rw [List.foldl_append]
  rfl

theorem attempts_append (es es' : List Event) :
    attempts (es ++ es') = attempts es ++ attempts es' :=
  List.filterMap_append

theorem attempts_step (m : Machine) : attempts [.step m] = m.attempted?.toList := by
  cases h : m.attempted? <;> simp [attempts, Event.attempted?, h]

theorem ended_concat (es : List Event) (m : Machine) :
    ended (es ++ [.step m]) = (ended es || m.exits) := by
  simp [ended, Event.exits]

variable {echo : Bool} {lines : Array String} {start m : Machine} {es : List Event}

/-! ## What a step keeps -/

theorem program_pause (hm : m.attempted? = none) :
    (after step m).debugger.program = m.debugger.program := by
  rcases (pause hm).2 with ⟨-, -, hafter⟩ | ⟨p, -, hp, -, hafter⟩
  · rw [hafter]
  · rw [hafter]
    simp [reported, movedTo, hp]

theorem Agree.pause {n : Machine} (h : Agree echo m n) (hm : m.attempted? = none) :
    Agree echo (after step m) n := by
  rcases (Machine.pause hm).2 with ⟨-, -, hafter⟩ | ⟨p, -, -, -, hafter⟩
  · rw [hafter]
    exact h
  · rw [hafter]
    exact (h.withDebugger _).reported _

theorem Progress.pause (h : Progress echo lines start es m) (hm : m.attempted? = none) :
    Progress echo lines start (es ++ [.step m]) (after step m) := by
  have hattempts : attempts (es ++ [.step m]) = attempts es := by
    rw [attempts_append, attempts_step, hm]
    exact List.append_nil _
  have hended : ended (es ++ [.step m]) = ended es := by
    rw [ended_concat, (Machine.pause hm).1, Bool.or_false]
  refine ⟨?_, ?_, ?_⟩
  · rw [hattempts]
    exact h.inOrder
  · rw [hended, hattempts, program_pause hm]
    exact h.position
  · rw [hattempts]
    exact h.agree.pause hm

theorem Progress.attempt (h : Progress echo lines start es m) {line : String}
    (hm : m.attempted? = some line) :
    Progress echo lines start (es ++ [.step m]) (after step m) := by
  obtain ⟨-, p, n, hp, -, hline, hn, hafter⟩ := Machine.attempt hm
  obtain ⟨q, hq, hlines, hpc⟩ := h.position
  obtain rfl : p = q := Option.some.inj (hp.symm.trans hq)
  -- a line is left, so the program has not ended yet
  obtain ⟨hlt, hget⟩ := Array.getElem?_eq_some_iff.1 hline
  have hended : ended es = false := by
    by_contra hne
    rw [if_pos (by simpa using hne)] at hpc
    rw [hlines] at hlt
    omega
  rw [hended, if_neg Bool.false_ne_true] at hpc
  have hattempts : attempts (es ++ [.step m]) = attempts es ++ [line] := by
    rw [attempts_append, attempts_step, hm]
    rfl
  have hprogram : n.debugger.program = some { p with pc := p.pc + 1 } := by
    rw [hn]
    refine (exec_setup line _).program.trans ?_
    simp [movedTo, hp]
  have hagree : Agree echo n (feed (attempts es ++ [line]) start) := by
    rw [hn, feed_concat]
    exact (exec_agree echo line _ _ (h.agree.withDebugger _)).endState
  refine ⟨?_, ?_, ?_⟩
  · rw [hattempts, List.length_append, List.length_singleton, ← hpc, List.take_add_one, hpc,
      ← h.inOrder, ← hpc]
    rw [Array.getElem?_toList, ← hlines, hline]
    rfl
  · rw [hattempts, ended_concat, hended, Bool.false_or, hafter]
    cases m.exits
    · refine ⟨_, hprogram, hlines, ?_⟩
      simp [hpc]
    · refine ⟨{ p with pc := p.lines.size }, ?_, hlines, ?_⟩
      · simp [movedTo, hprogram]
      · simp [hlines]
  · rw [hattempts, hafter]
    cases m.exits
    · exact hagree
    · exact hagree.withDebugger _

theorem Progress.step (h : Progress echo lines start es m) :
    Progress echo lines start (es ++ [.step m]) (after step m) := by
  cases hm : m.attempted? with
  | none => exact h.pause hm
  | some line => exact h.attempt hm

/-! ## Runs -/

theorem progress_load (m : Machine) (source : List String) (base : UInt16)
    (hm : m.status = .running) :
    Progress m.trace.echo (Program.ofSource source base).lines m []
      (after (load source base) m) where
  inOrder := rfl
  position := ⟨_, rfl, rfl, Program.pc_ofSource source base⟩
  agree := { Agree.refl m with status := hm.symm }

theorem progress_history {calls : List Call} (hcalls : ∀ call ∈ calls, call.Schedules)
    (h : Progress echo lines start es m) :
    Progress echo lines start (es ++ history calls m) (afterCalls calls m) := by
  refine history_induction ?_ ?_ ?_ ?_ h
  · intro es m h
    exact h.step
  · intro es m breakpoints watches h
    exact ⟨h.inOrder, h.position, h.agree.withDebugger _⟩
  · intro es m line hmem
    exact (hcalls _ hmem).elim
  · intro es m source base hmem
    exact (hcalls _ hmem).elim

/-- **However a program is driven, it does what its lines do.** A program is loaded into a running
machine and then stepped and run in any way. The lines that have been attempted are the first ones of
the program, each once and in order; the machine agrees with the one that has never seen the program and
was fed these lines; and the program counter stands behind them, behind all lines once the program has
ended. -/
theorem agree_feed_attempts (m : Machine) (hm : m.status = .running) (source : List String)
    (base : UInt16) (calls : List Call) (hcalls : ∀ call ∈ calls, call.Schedules) :
    let lines := (Program.ofSource source base).lines.toList
    let es := history calls (after (load source base) m)
    let final := afterCalls calls (after (load source base) m)
    attempts es = lines.take (attempts es).length ∧
      Agree m.trace.echo final (feed (attempts es) m) ∧
      final.pc? = some (if ended es then lines.length else (attempts es).length) := by
  intro lines es final
  have h : Progress m.trace.echo (Program.ofSource source base).lines m es final :=
    progress_history hcalls (progress_load m source base hm)
  obtain ⟨p, hp, -, hpc⟩ := h.position
  refine ⟨h.inOrder, h.agree, ?_⟩
  unfold pc?
  rw [hp, Option.map_some, hpc]
  rfl

theorem agree_feed_attempts_standard :
    let m := standard "" (.ofInput [.text "line"])
    let source := ["start: ; label", "MOV AX, 0x4C00", "POP 1", "INT 0x21", "NOT AX"]
    let calls := [.addBreakpoint "0x101", .run none, .addWatch "AX", .run (some 2), .step]
    let final := afterCalls calls (after (load source 0x100) m)
    m.status = .running ∧ (∀ call ∈ calls, call.Schedules) ∧
      attempts (history calls (after (load source 0x100) m)) =
        ["MOV AX, 0x4C00", "POP 1", "INT 0x21"] ∧
      Agree false final (feed ["MOV AX, 0x4C00", "POP 1", "INT 0x21"] m) ∧ final.pc? = some 4 := by
  intro m source calls final
  have hcalls : ∀ call ∈ calls, call.Schedules := by simp [calls, Call.Schedules]
  have hattempts : attempts (history calls (after (load source 0x100) m)) =
      ["MOV AX, 0x4C00", "POP 1", "INT 0x21"] := by decide +kernel
  have hended : ended (history calls (after (load source 0x100) m)) = true := by decide +kernel
  obtain ⟨-, hagree, hpc⟩ := agree_feed_attempts m rfl source 0x100 calls hcalls
  rw [hattempts] at hagree
  rw [hended, if_pos rfl] at hpc
  exact ⟨rfl, hcalls, hattempts, hagree, hpc.trans (by decide +kernel)⟩

end DosMonitor.Machine
