import DosMonitor.Proofs.CommandWord
import DosMonitor.Proofs.Invocation
import DosMonitor.Proofs.Operation

/-!
# Input and status after a command

However a command has instructions carried out, one by one, step by step or in a run, what it does to the
input and to the status follows from these instructions alone (`Accounts`): the input shrinks by the lines
that they take, in their order, and the machine is terminated with the code of the one that ends the
program, if there is one. A command that runs no instruction touches neither (`encloses_quiet`).

Main statements: `accounts_dispatch` for any command line, and `quit_dispatch_iff`, by which the session
ends after `q` and on a terminated machine.
-/

namespace DosMonitor

variable {ε σ α β : Type}

theorem filterMap_cons_toList (f : α → Option β) (a : α) (as : List α) :
    (a :: as).filterMap f = (f a).toList ++ as.filterMap f := by
  cases h : f a <;> simp [h]

theorem filterMap_toList (o : Option α) (f : α → Option β) :
    o.toList.filterMap f = (o.bind f).toList := by
  cases o with
  | none => rfl
  | some a => cases h : f a <;> simp [h]

/-- The instruction that a line of source has carried out, if it is one. -/
def Context.invocation? (c : Context Memory) (line : String) : Option Invocation :=
  if (Source.label? line.toList).isSome then none
  else
    match Source.instruction? line.toList with
    | .ok (some i) => some ⟨i, ⟨c.registers.commit, c.bus, c.console⟩⟩
    | _ => none

/-- The status of a machine that was running, after instructions that end the program with these codes. -/
def Status.ofCodes : List UInt8 → Status
  | [] => .running
  | code :: _ => .terminated code

namespace Machine

/-- The instruction that a step carries out, if any. -/
def stepInvocation? (m : Machine) : Option Invocation :=
  m.attempted?.bind m.core.invocation?

def invocations (m : Machine) : Command → List Invocation
  | .execute line => (m.core.invocation? line).toList
  | .step => m.stepInvocation?.toList
  | .run limit => (stepsOfRun (limit.getD m.config.maxSteps) m).filterMap stepInvocation?
  | _ => []

/-- From `m` to `n` input and status have changed as the instructions say, of which one at most has ended
the program. -/
structure Accounts (vs : List Invocation) (m n : Machine) : Prop where
  input : m.console.input = vs.filterMap Invocation.taken? ++ n.console.input
  status : m.status = .running → n.status = .ofCodes (vs.filterMap Invocation.exitCode?)
  once : (vs.filterMap Invocation.exitCode?).length ≤ 1

namespace Accounts

variable {vs ws : List Invocation} {m n k : Machine}

theorem of_quiet (hinput : n.console.input = m.console.input)
    (hstatus : m.status = .running → n.status = .running) : Accounts [] m n where
  input := hinput.symm
  status := hstatus
  once := Nat.zero_le 1

theorem trans (h : Accounts vs m n) (hgoes : vs.filterMap Invocation.exitCode? = [])
    (h' : Accounts ws n k) : Accounts (vs ++ ws) m k where
  input := by rw [h.input, h'.input, List.filterMap_append, List.append_assoc]
  status hrunning := by
    have hn := h.status hrunning
    rw [hgoes] at hn
    rw [h'.status hn, List.filterMap_append, hgoes, List.nil_append]
  once := by
    rw [List.filterMap_append, hgoes, List.nil_append]
    exact h'.once

end Accounts

/-! ## A line of source -/

section Line
variable {m n : Machine} {line : String} {v : Invocation}

theorem lineEffect_of_some {c : Context Memory} (h : c.invocation? line = some v) :
    Execution.lineEffect line.toList c = Execution.execute v.instruction v.context ∧
      v.context.console = c.console := by
  unfold Context.invocation? at h
  unfold Execution.lineEffect
  split_ifs at h with hlabel
  rw [if_neg hlabel]
  split at h
  · rename_i i hread
    obtain rfl := Option.some.inj h
    rw [hread]
    exact ⟨rfl, rfl⟩
  · cases h

theorem lineEffect_of_none {c : Context Memory} (h : c.invocation? line = none) :
    endState (Execution.lineEffect line.toList c) = c ∧
      ∀ code c', Execution.lineEffect line.toList c ≠ .ok (.exit code) c' := by
  unfold Context.invocation? at h
  unfold Execution.lineEffect
  split_ifs at h with hlabel
  · rw [if_pos hlabel]
    exact ⟨rfl, by rintro code c' ⟨⟩⟩
  · rw [if_neg hlabel]
    split at h
    · cases h
    · rcases hread : Source.instruction? line.toList with e | _ | i
      · exact ⟨rfl, by rintro code c' ⟨⟩⟩
      · exact ⟨rfl, by rintro code c' ⟨⟩⟩
      · exact absurd hread (by simp_all)

theorem input_lineEffect (line : String) (c : Context Memory) :
    c.console.input = (c.invocation? line).toList.filterMap Invocation.taken? ++
      (endState (Execution.lineEffect line.toList c)).console.input := by
  rw [filterMap_toList]
  cases hv : c.invocation? line with
  | none =>
    rw [(lineEffect_of_none hv).1]
    rfl
  | some v =>
    obtain ⟨hrun, hconsole⟩ := lineEffect_of_some hv
    have hinput := v.input_eq
    rw [hrun, ← hconsole]
    exact hinput

theorem exit_lineEffect_iff {c : Context Memory} {code : UInt8} :
    (∃ c', Execution.lineEffect line.toList c = .ok (.exit code) c') ↔
      (c.invocation? line).toList.filterMap Invocation.exitCode? = [code] := by
  rw [filterMap_toList]
  cases hv : c.invocation? line with
  | none =>
    simp [(lineEffect_of_none hv).2]
  | some v =>
    rw [(lineEffect_of_some hv).1, v.exit_iff, Option.bind_some]
    cases v.exitCode? <;> simp

/-- A line that does not end the program carries out nothing that ends it. -/
theorem exitCodes_eq_nil {c : Context Memory}
    (h : ∀ code c', Execution.lineEffect line.toList c ≠ .ok (.exit code) c') :
    (c.invocation? line).toList.filterMap Invocation.exitCode? = [] := by
  cases hcode : (c.invocation? line).bind Invocation.exitCode? with
  | none =>
    rw [filterMap_toList, hcode]
    rfl
  | some code =>
    obtain ⟨c', hexit⟩ : ∃ c', Execution.lineEffect line.toList c = .ok (.exit code) c' := by
      rw [exit_lineEffect_iff, filterMap_toList, hcode]
      rfl
    exact absurd hexit (h code c')

theorem input_observed (m : Machine) (core : Context Memory) (watches : Watches) (reports : List String) :
    (m.observed core watches reports).console.input = core.console.input :=
  input_reported _ reports

theorem accounts_exec (line : String) (m : Machine) :
    Accounts (m.core.invocation? line).toList m (after (exec line) m) := by
  obtain ⟨watches, reports, -, hexec⟩ := exec_eq line m
  have hinput := input_lineEffect line m.core
  have honce : ((m.core.invocation? line).toList.filterMap Invocation.exitCode?).length ≤ 1 := by
    rw [filterMap_toList]
    exact Option.length_toList_le
  unfold after
  rw [hexec]
  cases hrun : Execution.lineEffect line.toList m.core with
  | ok outcome core =>
    rw [hrun, endState_ok, ← input_observed m core watches reports] at hinput
    refine ⟨hinput, fun hrunning => ?_, honce⟩
    cases outcome with
    | proceed =>
      rw [exitCodes_eq_nil (by simp [hrun])]
      exact hrunning
    | exit code =>
      rw [exit_lineEffect_iff.1 ⟨core, hrun⟩]
      rfl
  | error e core =>
    rw [hrun, endState_error, ← input_observed m core watches reports] at hinput
    refine ⟨hinput, fun hrunning => ?_, honce⟩
    rw [exitCodes_eq_nil (by simp [hrun])]
    exact hrunning

theorem exitCodes_of_proceed (h : exec line m = .ok .proceed n) :
    (m.core.invocation? line).toList.filterMap Invocation.exitCode? = [] := by
  obtain ⟨watches, reports, -, hexec⟩ := exec_eq line m
  apply exitCodes_eq_nil
  intro code c' hrun
  rw [hexec, hrun] at h
  cases h

end Line

/-! ## Steps and runs -/

section Steps
variable {m n : Machine} {line : String}

theorem accounts_step (m : Machine) : Accounts m.stepInvocation?.toList m (after step m) := by
  unfold stepInvocation?
  cases hattempted : m.attempted? with
  | none =>
    obtain ⟨-, ⟨-, -, hafter⟩ | ⟨p, -, -, -, hafter⟩⟩ := pause hattempted
    · rw [hafter]
      exact .of_quiet rfl id
    · rw [hafter]
      exact .of_quiet (input_observed (m.movedTo p.pc (some p.pc)) m.core m.debugger.watches _) id
  | some line =>
    obtain ⟨-, p, n, -, -, -, hn, hafter⟩ := attempt hattempted
    have hexec := accounts_exec line (m.movedTo (p.pc + 1) none)
    rw [← hn] at hexec
    have hsame : Accounts (m.core.invocation? line).toList m n := ⟨hexec.input, hexec.status, hexec.once⟩
    rw [hafter]
    split_ifs
    · exact ⟨hsame.input, hsame.status, hsame.once⟩
    · exact hsame

/-- A step that has run a line and goes on has not ended the program. -/
theorem exitCodes_of_executed (h : step m = .ok (.executed line) n) :
    m.stepInvocation?.toList.filterMap Invocation.exitCode? = [] := by
  have hstepped := stepped m
  have hattempted : m.attempted? = some line := by
    unfold attempted?
    rw [h]
  unfold stepInvocation?
  rw [hattempted]
  rw [h] at hstepped
  cases hstepped with
  | @executed p _ _ _ _ _ hexec => exact exitCodes_of_proceed (m := m.movedTo (p.pc + 1) none) hexec

theorem accounts_runFrom (steps limit : Nat) (m : Machine) :
    Accounts ((stepsOfRun limit m).filterMap stepInvocation?) m (after (runFrom steps limit) m) := by
  refine runFrom_chain (R := fun ms => Accounts (ms.filterMap stepInvocation?)) ?_ ?_ ?_ steps limit m
  · exact fun m => .of_quiet rfl id
  · intro m
    rw [filterMap_cons_toList, List.filterMap_nil, List.append_nil]
    exact accounts_step m
  · intro m n k ms line hs hfirst hrest
    -- a step that goes on has not ended the program, so all codes come from the rest
    rw [filterMap_cons_toList, List.filterMap_nil, List.append_nil] at hfirst
    rw [filterMap_cons_toList]
    exact hfirst.trans (exitCodes_of_executed hs) hrest

end Steps

/-! ## Commands that run nothing -/

/-- No input has been taken, and a machine that was running is. -/
def Quiet (m n : Machine) : Prop :=
  n.console.input = m.console.input ∧ (m.status = .running → n.status = .running)

instance : Std.Refl Quiet :=
  ⟨fun _ => ⟨rfl, id⟩⟩

instance : IsTrans Machine Quiet :=
  ⟨fun _ _ _ h h' => ⟨h'.1.trans h.1, fun hrunning => h'.2 (h.2 hrunning)⟩⟩

/-- Loading a program makes the machine run again, if it has been terminated. -/
theorem encloses_quiet : Encloses Quiet where
  onMemory _ := within_onMemory_of _ fun _ _ => ⟨rfl, id⟩
  onDisk _ := within_onDisk_of _ fun _ _ => ⟨rfl, id⟩
  setRegisters _ := fun _ => .single ⟨rfl, id⟩
  setActivePage _ := .bind (within_onMemory_of _ fun _ _ => ⟨rfl, id⟩) fun _ _ =>
    .single ⟨rfl, id⟩
  edit _ _ := fun _ => .single ⟨rfl, id⟩
  load _ _ := fun _ => .single ⟨rfl, fun _ => rfl⟩
  setTracing _ := fun _ => .single ⟨rfl, id⟩

/-! ## Commands and command lines -/

theorem after_bind_reads {x : MachineM α} {f : α → MachineM β} (hf : ∀ a, Reads (f a)) (m : Machine) :
    after (x >>= f) m = after x m := by
  unfold after
  cases h : x m with
  | ok a n =>
    rw [bind_of_ok h]
    exact hf a n
  | error e n =>
    rw [bind_of_error h]
    rfl

theorem invocations_of_runsNothing {command : Command} (hcommand : command.RunsNothing) (m : Machine) :
    m.invocations command = [] := by
  cases command with
  | execute _ | step | run _ => exact hcommand.elim
  | _ => rfl

/-! A command that runs lines shows afterwards what they have come to, which changes nothing. -/

theorem after_perform_execute (host : Host) (line : String) (m : Machine) :
    after (Command.perform host (.execute line)) m = after (exec line) m := by
  apply after_bind_reads
  intro outcome
  cases outcome with
  | proceed => exact Reads.bind Reads.get fun _ => Reads.pure _
  | exit code => exact Reads.pure _

theorem after_perform_step (host : Host) (m : Machine) :
    after (Command.perform host .step) m = after step m :=
  after_bind_reads (fun _ => Reads.pure _) m

theorem after_perform_run (host : Host) (limit : Option Nat) (m : Machine) :
    after (Command.perform host (.run limit)) m = after (run limit) m :=
  after_bind_reads (fun _ => Reads.pure _) m

theorem accounts_perform (host : Host) (command : Command) (m : Machine) :
    Accounts (m.invocations command) m (after (command.perform host) m) := by
  by_cases hcommand : command.RunsNothing
  · have hquiet := (encloses_quiet.perform host hcommand).single m
    rw [invocations_of_runsNothing hcommand]
    exact .of_quiet hquiet.1 hquiet.2
  · cases command with
    | execute line =>
      rw [after_perform_execute]
      exact accounts_exec line m
    | step =>
      rw [after_perform_step]
      exact accounts_step m
    | run limit =>
      rw [after_perform_run]
      exact accounts_runFrom 0 _ m
    | _ => exact absurd trivial hcommand

/-- The instructions that a command line has carried out, in order. -/
def lineInvocations (m : Machine) (line : String) : List Invocation :=
  match Command.ofLine? line with
  | some command => m.invocations command
  | none => []

theorem accounts_dispatch (host : Host) (line : String) (m : Machine) :
    Accounts (m.lineInvocations line) m (m.dispatch host line).2 := by
  rw [snd_dispatch]
  unfold lineInvocations
  cases Command.ofLine? line with
  | none => exact .of_quiet rfl id
  | some command => exact accounts_perform host command m

/-! ## The end of the session -/

theorem quit_conclude_iff (m : Machine) (output : CommandOutput) :
    (m.conclude output).quit = true ↔ output.quit = true ∨ ∃ code, m.status = .terminated code := by
  unfold conclude
  cases m.status <;> simp

/-- No command but one ends the session by itself. -/
theorem quit_perform_iff {host : Host} {command : Command} {m n : Machine} {output : CommandOutput}
    (h : command.perform host m = .ok output n) : output.quit = true ↔ command = .quit := by
  cases command with
  | quit | help =>
    cases h
    simp [CommandOutput.ofLines]
  | showRegisters | fill | move | enter | selectPage | trace | addBreakpoint | removeBreakpoint
  | listBreakpoints | addWatch | listWatches | step | run | writeToDisk | readFromDisk =>
    obtain ⟨a, rfl⟩ := of_map_ok h
    simp [CommandOutput.nothing, CommandOutput.ofLine, CommandOutput.ofLines]
  | removeWatch =>
    obtain ⟨removed, rfl⟩ := of_map_ok h
    cases removed <;> simp [CommandOutput.nothing, CommandOutput.ofLine]
  | execute =>
    obtain ⟨outcome, t, -, hshown⟩ := of_bind_ok h
    cases outcome with
    | proceed =>
      obtain ⟨a, rfl⟩ := of_map_ok hshown
      simp [CommandOutput.ofLines]
    | exit code =>
      cases hshown
      simp [CommandOutput.nothing]
  | _ =>
    obtain ⟨_, t, -, hrest⟩ := of_bind_ok h
    obtain ⟨a, rfl⟩ := of_map_ok hrest
    simp [CommandOutput.ofLine, CommandOutput.ofLines]

theorem quit_dispatch_iff (host : Host) (line : String) (m : Machine) :
    (m.dispatch host line).1.quit = true ↔
      Command.word line ≠ "" ∧
        (Command.word line = "q" ∨ ∃ code, (m.dispatch host line).2.status = .terminated code) := by
  rw [ne_eq, Command.word_eq_empty_iff, ← Command.ofLine?_eq_quit_iff]
  unfold dispatch
  by_cases hblank : isBlankLine line
  · simp [hblank, CommandOutput.nothing]
  · simp only [hblank]
    cases hline : Command.ofLine? line with
    | none => simp [quit_conclude_iff, CommandOutput.ofLine]
    | some command =>
      cases hrun : command.perform host m with
      | ok output n => simp [quit_conclude_iff, quit_perform_iff hrun, hrun]
      | error e n =>
        have hquit : command ≠ .quit := by
          rintro rfl
          cases hrun
        simp [quit_conclude_iff, CommandOutput.ofLine, hquit, hrun]

end Machine

end DosMonitor
