import Mathlib
import DosMonitor.Proofs.Scheduling

/-!
# The limit of a run

A run counts the lines that it carries out: those that let the program go on and the one that ends it,
but neither the stop at a breakpoint nor the look behind the last line. The count says how far the
program counter has moved and whether it was the limit that has stopped the run (`Counted`).

A run that has come to its limit has kept nothing to itself, so the next one takes up where it has
stopped, and the two together are one run with both limits.
-/

namespace DosMonitor

/-- The summary of a run that is taken up after so many lines. -/
def RunSummary.after (steps : Nat) (s : RunSummary) : RunSummary :=
  { s with steps := steps + s.steps }

/-- The number of the line that runs next after a run from where `p` stands. -/
def RunSummary.position (p : Program) (s : RunSummary) : Nat :=
  match s.reason with
  | .exited _ => p.lines.size
  | _ => p.pc + s.steps

namespace Machine

/-- How the summary of a run of at most `limit` lines accounts for its steps `es`. It has begun where `p`
stands and leaves the machine `n`. -/
structure Counted (limit : Nat) (p : Program) (es : List Event) (s : RunSummary) (n : Machine) :
    Prop where
  /-- The lines attempted are counted, each once. -/
  steps : s.steps = (attempts es).length
  /-- No more lines than asked for have run. -/
  withinLimit : s.steps ≤ limit
  /-- No more lines than were left have run. -/
  withinProgram : s.steps ≤ p.lines.size - p.pc
  /-- The program has moved on by the lines that have run, or behind the last one with its end. -/
  program : n.debugger.program = some { p with pc := s.position p }
  /-- The limit is the reason exactly if so many lines have run and none has ended the program. -/
  stepLimit : s.reason = .stepLimit ↔ (attempts es).length = limit ∧ ended es = false

variable {m n : Machine} {p : Program} {s : RunSummary}

/-! ## Counting on -/

/-- The counter of a run does not matter to what it does. -/
theorem runFrom_after (before steps limit : Nat) (m : Machine) :
    runFrom (before + steps) limit m = (RunSummary.after before <$> runFrom steps limit) m := by
  change _ = EStateM.map _ _ m
  induction limit generalizing steps m with
  | zero => rfl
  | succ limit ih =>
    unfold EStateM.map at ih ⊢
    rw [runFrom_succ, runFrom_succ]
    cases step m with
    | ok s n =>
      cases s with
      | executed line => exact ih (steps + 1) n
      | breakpoint address => rfl
      | halted => rfl
      | exited line code => rfl
    | error e n => rfl

theorem runFrom_one_ok {limit : Nat} (h : runFrom 1 limit m = .ok s n) :
    ∃ t, runFrom 0 limit m = .ok t n ∧ s = t.after 1 := by
  rw [show 1 = 1 + 0 from rfl, runFrom_after] at h
  change EStateM.map _ _ m = _ at h
  unfold EStateM.map at h
  cases ht : runFrom 0 limit m with
  | ok t n' =>
    rw [ht] at h
    cases h
    exact ⟨t, rfl, rfl⟩
  | error e n' =>
    rw [ht] at h
    cases h

/-! ## What a run counts -/

theorem ended_cons (m : Machine) (es : List Event) : ended (.step m :: es) = (m.exits || ended es) :=
  rfl

theorem attempts_cons_some {line : String} (h : m.attempted? = some line) (es : List Event) :
    attempts (.step m :: es) = line :: attempts es :=
  List.filterMap_cons_some h

theorem attempts_cons_none (h : m.attempted? = none) (es : List Event) :
    attempts (.step m :: es) = attempts es :=
  List.filterMap_cons_none h

/-- A run that stops before a line has counted none. -/
theorem Counted.stopped {limit : Nat} {reason : StopReason} (hstop : m.attempted? = none)
    (hlimit : reason ≠ .stepLimit) (hexited : ∀ code, reason ≠ .exited code)
    (hn : n.debugger.program = some p) : Counted (limit + 1) p [.step m] ⟨reason, 0⟩ n where
  steps := by rw [attempts_cons_none hstop]; rfl
  withinLimit := Nat.zero_le _
  withinProgram := Nat.zero_le _
  program := by
    rw [hn]
    cases reason with
    | exited code => exact absurd rfl (hexited code)
    | _ => rfl
  stepLimit := by
    rw [attempts_cons_none hstop]
    exact ⟨fun h => absurd h hlimit, fun h => absurd h.1 (Nat.succ_ne_zero limit).symm⟩

/-- The line that ends the program is counted, too. -/
theorem Counted.exited {limit : Nat} {line : String} {code : UInt8} (hline : p.pc < p.lines.size)
    (hattempt : m.attempted? = some line) (hexits : m.exits = true)
    (hn : n.debugger.program = some { p with pc := p.lines.size }) :
    Counted (limit + 1) p [.step m] ⟨.exited code, 1⟩ n where
  steps := by rw [attempts_cons_some hattempt]; rfl
  withinLimit := Nat.le_add_left 1 limit
  withinProgram := Nat.sub_pos_of_lt hline
  program := hn
  stepLimit := by
    rw [ended_cons, hexits]
    exact ⟨fun h => (by cases h), fun h => (by cases h.2)⟩

/-- A line that lets the program go on is one more than what the rest of the run counts. -/
theorem Counted.executed {limit : Nat} {line : String} {es : List Event} (hline : p.pc < p.lines.size)
    (hattempt : m.attempted? = some line) (hexits : m.exits = false)
    (h : Counted limit { p with pc := p.pc + 1 } es s n) :
    Counted (limit + 1) p (.step m :: es) (s.after 1) n where
  steps := by
    rw [attempts_cons_some hattempt, List.length_cons, ← h.steps]
    exact Nat.add_comm 1 s.steps
  withinLimit := by
    have := h.withinLimit
    change 1 + s.steps ≤ limit + 1
    omega
  withinProgram := by
    have : s.steps ≤ p.lines.size - (p.pc + 1) := h.withinProgram
    change 1 + s.steps ≤ p.lines.size - p.pc
    omega
  program := by
    rw [h.program]
    unfold RunSummary.position RunSummary.after
    cases s.reason <;> simp [Nat.add_assoc]
  stepLimit := by
    rw [attempts_cons_some hattempt, ended_cons, hexits, Bool.false_or, List.length_cons,
      Nat.succ_inj]
    exact h.stepLimit

/-- A line leaves the program where the step has moved it. -/
theorem program_exec {line : String} {pc : Nat} {r : EStateM.Result Error Machine Outcome}
    (hp : m.debugger.program = some p) (hexec : exec line (m.movedTo pc none) = r) :
    (endState r).debugger.program = some { p with pc } := by
  rw [← hexec]
  refine (exec_setup line _).program.trans ?_
  simp [movedTo, hp]

theorem counted_runFrom (limit : Nat) (hp : m.debugger.program = some p)
    (h : runFrom 0 limit m = .ok s n) :
    Counted limit p ((stepsOfRun limit m).map .step) s n := by
  induction limit generalizing m p s with
  | zero =>
    cases h
    exact ⟨rfl, Nat.zero_le _, Nat.zero_le _, hp, ⟨fun _ => ⟨rfl, rfl⟩, fun _ => rfl⟩⟩
  | succ limit ih =>
    have hstepped := stepped m
    rw [runFrom_succ] at h
    rw [stepsOfRun, List.map_cons]
    cases hr : step m with
    | error e n' =>
      rw [hr] at h
      cases h
    | ok step n' =>
      rw [hr] at h hstepped
      cases hstepped with
      | breakpoint hq hstop =>
        cases h
        refine .stopped (by rw [attempted?, hr]) (by simp) (by simp) ?_
        obtain rfl := Option.some.inj (hq.symm.trans hp)
        simp [reported, movedTo, hq]
      | halted hq hstop hline =>
        cases h
        exact .stopped (by rw [attempted?, hr]) (by simp) (by simp) hp
      | executed hq hstop hline hexec =>
        obtain rfl := Option.some.inj (hq.symm.trans hp)
        obtain ⟨hlt, -⟩ := Array.getElem?_eq_some_iff.1 hline
        obtain ⟨t, ht, rfl⟩ := runFrom_one_ok h
        exact .executed hlt (by rw [attempted?, hr]) (by rw [exits, hr])
          (ih (program_exec hp hexec) ht)
      | exited hq hstop hline hexec =>
        cases h
        obtain rfl := Option.some.inj (hq.symm.trans hp)
        obtain ⟨hlt, -⟩ := Array.getElem?_eq_some_iff.1 hline
        refine .exited hlt (by rw [attempted?, hr]) (by rw [exits, hr]) ?_
        have hmoved := program_exec hp hexec
        rw [endState_ok] at hmoved
        simp [movedTo, hmoved]

/-! ## Taking up a run -/

/-- A run that has come to its limit is the beginning of every run with a greater one. -/
theorem runFrom_add {steps a b : Nat} (h : runFrom steps a m = .ok s n)
    (hreason : s.reason = .stepLimit) : runFrom steps (a + b) m = runFrom s.steps b n := by
  -- Up to the limit both runs take the same steps; any other stop contradicts `hreason`.
  induction a generalizing steps m with
  | zero =>
    cases h
    rw [Nat.zero_add]
  | succ a ih =>
    rw [Nat.add_right_comm, runFrom_succ]
    rw [runFrom_succ] at h
    cases hr : step m with
    | error e n' =>
      rw [hr] at h
      cases h
    | ok step n' =>
      rw [hr] at h
      cases step with
      | executed line => exact ih h
      | breakpoint address => cases h; cases hreason
      | halted => cases h; cases hreason
      | exited line code => cases h; cases hreason

/-- **A run accounts for its steps and can be split.** Whatever the breakpoints and the limit, a run that
succeeds has counted the lines it has attempted; there are no more than the limit allows and than were
left; the program counter has moved on by so many, or behind the last line with the end of the program;
and the limit is the reason exactly if it was used up and the program has not ended. A run that its limit
has stopped, and a second one after it, come to what one run with both limits comes to, with the same
reason or the same error, and leave the same machine. -/
theorem run_counts_and_splits (m : Machine) (p : Program) (hp : m.debugger.program = some p) :
    (∀ limit s n, run limit m = .ok s n →
      Counted (limit.getD m.config.maxSteps) p (m.events (.run limit)) s n) ∧
    ∀ a b s n, run (some a) m = .ok s n → s.reason = .stepLimit →
      run (some (a + b)) m = (RunSummary.after s.steps <$> run (some b)) n := by
  constructor
  · intro limit s n h
    exact counted_runFrom _ hp h
  · intro a b s n h hreason
    have hfrom : runFrom 0 a m = .ok s n := h
    calc run (some (a + b)) m
      _ = runFrom s.steps b n := runFrom_add hfrom hreason
      _ = (RunSummary.after s.steps <$> runFrom 0 b) n := runFrom_after s.steps 0 b n

/-- What a run has come to, if it has succeeded. -/
def summary? (limit : Nat) (m : Machine) : Option RunSummary :=
  match run (some limit) m with
  | .ok s _ => some s
  | .error _ _ => none

theorem run_of_summary? {limit : Nat} (h : summary? limit m = some s) :
    run (some limit) m = .ok s (after (run (some limit)) m) := by
  unfold summary? at h
  unfold after
  cases hr : run (some limit) m with
  | ok t n =>
    rw [hr] at h
    cases h
    rfl
  | error e n =>
    rw [hr] at h
    cases h

/-- The second run of two stops at once where the limit of the first one has fallen on a breakpoint. -/
theorem run_counts_and_splits_breakpoint :
    let source := ["NOT AX", "NOT BX", "MOV AX, 0x4C07", "INT 0x21", "NOT CX"]
    let m := afterCalls [.load source 0x100, .addBreakpoint "0x102"] (standard "" (.ofInput []))
    let p := Program.ofSource source 0x100
    let n := after (run (some 2)) m
    m.debugger.program = some p ∧
      Counted 2 p (m.events (.run (some 2))) ⟨.stepLimit, 2⟩ n ∧
      run (some (2 + 3)) m = .ok ⟨.breakpoint 0x102, 2⟩ (after (run (some 3)) n) := by
  intro source m p n
  have hp : m.debugger.program = some p := by decide +kernel
  have hfirst : run (some 2) m = .ok ⟨.stepLimit, 2⟩ n := run_of_summary? (by decide +kernel)
  have hsecond : run (some 3) n = .ok ⟨.breakpoint 0x102, 0⟩ (after (run (some 3)) n) :=
    run_of_summary? (by decide +kernel)
  obtain ⟨hcounted, hsplit⟩ := run_counts_and_splits m p hp
  refine ⟨hp, hcounted (some 2) _ n hfirst, ?_⟩
  rw [hsplit 2 3 _ n hfirst rfl]
  change EStateM.map _ _ n = _
  rw [EStateM.map, hsecond]
  rfl

end Machine

end DosMonitor
