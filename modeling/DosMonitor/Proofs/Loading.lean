import Mathlib
import DosMonitor.Proofs.Grammar
import DosMonitor.Proofs.Step

/-!
# Loading a source and running it

Loading keeps of each line what is left without comment and surrounding blanks, and drops lines of which
nothing is left, and labels (`normalLine?`). This changes nothing about what the lines do: fed one by one
to the machine, the source comes to the same end as the loaded program that is run
(`load_run_execAll`).

The way there: a line and its normal form are read alike (`instruction?_normal`) and do the same
(`exec_normal`), a dropped line does nothing (`exec_dropped`), and running a line does not look at the
loaded program (`Blind`), so that a step is a line fed (`step_loaded`).
-/

namespace DosMonitor

namespace Source

/-- What a program keeps of a line of source, if anything. -/
def normalLine? (line : List Char) : Option (List Char) :=
  if (label? line).isSome || (Text.trim (code line)).isEmpty then none
  else some (Text.trim (code line))

variable {line : List Char}

theorem normalLine?_eq_some {text : List Char} (h : normalLine? line = some text) :
    label? line = none ∧ text = Text.trim (code line) ∧ text ≠ [] := by
  unfold normalLine? at h
  split_ifs at h with hdrop
  obtain rfl := Option.some.inj h
  rw [Bool.or_eq_true, not_or, Option.isSome_iff_ne_none, not_not, List.isEmpty_iff] at hdrop
  exact ⟨hdrop.1, rfl, hdrop.2⟩

theorem normalLine?_eq_none (h : normalLine? line = none) :
    (label? line).isSome ∨ instruction? line = .ok none := by
  unfold normalLine? at h
  split_ifs at h with hdrop
  rw [Bool.or_eq_true, List.isEmpty_iff] at hdrop
  refine hdrop.imp_right fun hempty => ?_
  rw [instruction?_eq_none_iff, ← parts_eq_nil_iff, ← parts_trim, hempty]
  rfl

/-! ## A line and its normal form -/

theorem label?_normal (line : List Char) : label? (Text.trim (code line)) = label? line := by
  rw [label?, code_trim_code, Text.trim_trim, label?]

theorem instruction?_normal {r : Option Instruction} :
    instruction? (Text.trim (code line)) = .ok r ↔ instruction? line = .ok r := by
  cases r with
  | none =>
    rw [instruction?_eq_none_iff, instruction?_eq_none_iff, code_trim_code, ← parts_eq_nil_iff,
      parts_trim, parts_eq_nil_iff]
  | some i =>
    rw [instruction?_eq_ok_iff, instruction?_eq_ok_iff, code_trim_code, Spells, parts_trim, Spells]

theorem normalLine?_normal {text : List Char} (h : normalLine? line = some text) :
    normalLine? text = some text := by
  obtain ⟨hlabel, rfl, hne⟩ := normalLine?_eq_some h
  unfold normalLine?
  rw [label?_normal, code_trim_code, Text.trim_trim, if_neg (by simp [hlabel, hne])]

end Source

/-! ## The lines of a program -/

namespace Program

theorem addLine_eq (p : Program) (line : List Char) :
    (p.addLine line).lines.toList =
        p.lines.toList ++ (Source.normalLine? line).toList.map String.ofList ∧
      (Source.label? line = none → (p.addLine line).labels = p.labels) := by
  unfold addLine Source.normalLine?
  cases hlabel : Source.label? line with
  | some name => simp
  | none =>
    dsimp only
    by_cases hempty : (Text.trim (Source.code line)).isEmpty = true
    · simp [hempty]
    · simp [hempty]

theorem lines_foldl_addLine (source : List String) (p : Program) :
    (source.foldl (fun p line => p.addLine line.toList) p).lines.toList =
      p.lines.toList ++
        source.flatMap fun line => (Source.normalLine? line.toList).toList.map String.ofList := by
  induction source generalizing p with
  | nil => simp
  | cons line source ih =>
    rw [List.foldl_cons, ih, (p.addLine_eq line.toList).1, List.flatMap_cons, List.append_assoc]

theorem labels_foldl_addLine {source : List String}
    (h : ∀ line ∈ source, Source.label? line.toList = none) (p : Program) :
    (source.foldl (fun p line => p.addLine line.toList) p).labels = p.labels := by
  induction source generalizing p with
  | nil => rfl
  | cons line source ih =>
    obtain ⟨hline, hsource⟩ := List.forall_mem_cons.1 h
    rw [List.foldl_cons, ih hsource, (p.addLine_eq line.toList).2 hline]

end Program

/-- The normal forms of the lines that a program keeps of a source. -/
def Source.normalLines (source : List String) : List String :=
  source.flatMap fun line => (normalLine? line.toList).toList.map String.ofList

theorem Program.lines_ofSource (source : List String) (base : UInt16) :
    (ofSource source base).lines.toList = Source.normalLines source := by
  exact (lines_foldl_addLine source (empty base)).trans (List.nil_append _)

theorem Source.normalLine?_of_mem {source : List String} {line : String}
    (h : line ∈ normalLines source) : normalLine? line.toList = some line.toList := by
  obtain ⟨raw, -, hraw⟩ := List.mem_flatMap.1 h
  obtain ⟨text, htext, rfl⟩ := List.mem_map.1 hraw
  rw [String.toList_ofList]
  exact normalLine?_normal (Option.mem_toList.1 htext)

theorem Source.normalLines_normalLines (source : List String) :
    normalLines (normalLines source) = normalLines source := by
  have hline : ∀ line ∈ normalLines source,
      (normalLine? line.toList).toList.map String.ofList = [line] := fun line h => by
    rw [normalLine?_of_mem h]
    simp
  rw [normalLines, List.flatMap_congr hline, List.flatMap_singleton']

/-! ## Running does not look at the program -/

/-- An ending without the error, if there is one. -/
def ending {ε σ α : Type} : EStateM.Result ε σ α → Option α × σ
  | .ok a s => (some a, s)
  | .error _ s => (none, s)

namespace Machine

/-- The machine with another program, as the last of so many that have been loaded, and another mark where
it has stopped. -/
def withProgram (program : Option Program) (loads : Nat) (resume : Option Nat) (m : Machine) : Machine :=
  { m with debugger := { m.debugger with program, resume, loads } }

/-- The action neither looks at the program nor changes it. -/
def Blind {α : Type} (x : MachineM α) : Prop :=
  ∀ program loads resume m,
    x (m.withProgram program loads resume) = mapEnd (withProgram program loads resume) (x m)

namespace Blind

variable {α β : Type}

theorem pure (a : α) : Blind (Pure.pure a) := fun _ _ _ _ => rfl

theorem throw (e : Error) : Blind (MonadExcept.throw e : MachineM α) := fun _ _ _ _ => rfl

theorem bind {x : MachineM α} {f : α → MachineM β} (hx : Blind x) (hf : ∀ a, Blind (f a)) :
    Blind (x >>= f) := by
  intro program loads resume m
  show EStateM.bind x f _ = mapEnd _ (EStateM.bind x f m)
  unfold EStateM.bind
  rw [hx]
  cases x m with
  | ok a n => exact hf a program loads resume n
  | error e n => rfl

/-- What is looked at of the machine is not the program. -/
theorem get_bind {f : Machine → MachineM α}
    (hsame : ∀ program loads resume m, f (m.withProgram program loads resume) = f m)
    (hf : ∀ m, Blind (f m)) : Blind (get >>= f) := by
  intro program loads resume m
  show f (m.withProgram program loads resume) (m.withProgram program loads resume) = mapEnd _ (f m m)
  rw [hsame, hf]

theorem onCore (action : Exec Memory α) : Blind (Machine.onCore action) := by
  intro program loads resume m
  rw [onCore_eq, onCore_eq]
  show mapEnd _ (action m.core) = _
  cases action m.core <;> rfl

theorem emit (line : String) : Blind (Machine.emit line) := fun _ _ _ _ => rfl

theorem emitAll (lines : List String) : Blind (Machine.emitAll lines) := by
  intro program loads resume m
  rw [emitAll_eq, emitAll_eq]
  rfl

theorem observeWatches : Blind Machine.observeWatches :=
  get_bind (fun _ _ _ _ => rfl) fun _ => bind (fun _ _ _ _ => rfl) fun _ => emitAll _

theorem executeTraced (line : List Char) (i : Instruction) : Blind (Machine.executeTraced line i) := by
  refine get_bind (fun _ _ _ _ => rfl) fun before => bind (onCore _) fun result => ?_
  refine get_bind (fun _ _ _ _ => rfl) fun now => ?_
  cases result.1 with
  | ok outcome => exact bind (emit _) fun _ => bind observeWatches fun _ => pure outcome
  | error e => exact bind (emit _) fun _ => bind observeWatches fun _ => throw e

theorem runLine (line : List Char) : Blind (Machine.runLine line) := by
  unfold Machine.runLine
  split_ifs
  · exact pure _
  · rcases Source.instruction? line with e | _ | i
    · exact throw _
    · exact pure _
    · refine bind (onCore _) fun _ => get_bind (fun _ _ _ _ => rfl) fun now => ?_
      split_ifs
      · exact executeTraced line i
      · exact onCore _

theorem exec (line : String) : Blind (Machine.exec line) := by
  refine bind (runLine _) fun outcome => bind ?_ fun _ => pure outcome
  cases outcome with
  | proceed => exact pure ()
  | exit code => exact fun _ _ _ _ => rfl

end Blind

/-! ## A line and its normal form on a machine -/

/-- Runs lines one by one, to the first that fails or ends the program. -/
def execAll : List String → MachineM Outcome
  | [] => return .proceed
  | line :: lines => do
    match ← exec line with
    | .proceed => execAll lines
    | .exit code => return .exit code

theorem execAll_cons (line : String) (lines : List String) (m : Machine) :
    execAll (line :: lines) m =
      match exec line m with
      | .ok .proceed n => execAll lines n
      | .ok (.exit code) n => .ok (.exit code) n
      | .error e n => .error e n := by
  show EStateM.bind (exec line) _ m = _
  unfold EStateM.bind
  cases exec line m with
  | ok outcome n => cases outcome <;> rfl
  | error e n => rfl

theorem ending_execAll_cons (line : String) (lines : List String) (m : Machine) :
    ending (execAll (line :: lines) m) =
      match ending (exec line m) with
      | (some .proceed, n) => ending (execAll lines n)
      | (some (.exit code), n) => (some (.exit code), n)
      | (none, n) => (none, n) := by
  rw [execAll_cons]
  cases exec line m with
  | ok outcome n => cases outcome <;> rfl
  | error e n => rfl

theorem exec_dropped {line : String} (h : Source.normalLine? line.toList = none) (m : Machine) :
    exec line m = .ok .proceed m := by
  have hrun : runLine line.toList m = .ok .proceed m := by
    unfold runLine
    rcases Source.normalLine?_eq_none h with hlabel | hblank
    · rw [if_pos hlabel]
      rfl
    · rw [hblank]
      split_ifs <;> rfl
  simp only [exec, bind, EStateM.bind, hrun]
  rfl

theorem executeTraced_normal (line : List Char) (i : Instruction) :
    executeTraced (Text.trim (Source.code line)) i = executeTraced line i := by
  unfold executeTraced
  rw [Source.code_trim_code, Text.trim_trim]

theorem runLine_normal {line : List Char}
    (h : Source.instruction? (Text.trim (Source.code line)) = Source.instruction? line) :
    runLine (Text.trim (Source.code line)) = runLine line := by
  unfold runLine
  rw [Source.label?_normal, h]
  simp only [executeTraced_normal]

theorem exec_of_parse_error {line : String} (hlabel : Source.label? line.toList = none)
    {e : ParseError} (h : Source.instruction? line.toList = .error e) (m : Machine) :
    exec line m = .error (.parse e) m := by
  have hrun : runLine line.toList m = .error (.parse e) m := by
    unfold runLine
    rw [hlabel, h]
    rfl
  simp only [exec, bind, EStateM.bind, hrun]

/-- A line and its normal form do the same. Where they are in error, the reports may differ. -/
theorem ending_exec_normal {line : String} {text : List Char}
    (h : Source.normalLine? line.toList = some text) (m : Machine) :
    ending (exec (.ofList text) m) = ending (exec line m) := by
  obtain ⟨hlabel, rfl, -⟩ := Source.normalLine?_eq_some h
  cases hr : Source.instruction? line.toList with
  | ok r =>
    have hread := (Source.instruction?_normal.2 hr).trans hr.symm
    simp only [exec, bind, EStateM.bind, String.toList_ofList, runLine_normal hread]
  | error e =>
    -- the errors differ, as one may name a column or quote the line
    obtain ⟨e', he'⟩ : ∃ e', Source.instruction? (Text.trim (Source.code line.toList)) = .error e' := by
      cases hr' : Source.instruction? (Text.trim (Source.code line.toList)) with
      | ok r => simp [Source.instruction?_normal.1 hr'] at hr
      | error e' => exact ⟨e', rfl⟩
    rw [exec_of_parse_error hlabel hr, exec_of_parse_error (e := e')]
    · rfl
    · rw [String.toList_ofList, Source.label?_normal, hlabel]
    · rw [String.toList_ofList, he']

theorem ending_execAll_normalLines (source : List String) (m : Machine) :
    ending (execAll (Source.normalLines source) m) = ending (execAll source m) := by
  induction source generalizing m with
  | nil => rfl
  | cons line source ih =>
    rw [ending_execAll_cons, Source.normalLines, List.flatMap_cons, ← Source.normalLines]
    cases hline : Source.normalLine? line.toList with
    | none =>
      rw [exec_dropped hline]
      exact ih m
    | some text =>
      rw [Option.toList_some, List.map_singleton, List.singleton_append, ending_execAll_cons,
        ending_exec_normal hline]
      simp only [ih]

/-! ## Running the loaded program -/

/-- The machine with a program loaded, as the last of so many, that stands at this line. -/
def loaded (p : Program) (loads pc : Nat) (m : Machine) : Machine :=
  m.withProgram (some { p with pc }) loads none

/-- Without breakpoints a step runs the next line, as if there were no program. -/
theorem step_loaded {m : Machine} (hm : m.debugger.breakpoints = []) (p : Program) (loads pc : Nat) :
    step (m.loaded p loads pc) =
      match p.lines[pc]? with
      | none => .ok .halted (m.loaded p loads pc)
      | some line =>
        match exec line m with
        | .ok .proceed n => .ok (.executed line) (n.loaded p loads (pc + 1))
        | .ok (.exit code) n => .ok (.exited line code) (n.loaded p loads p.lines.size)
        | .error e n => .error e (n.loaded p loads (pc + 1)) := by
  have hprogram : (m.loaded p loads pc).debugger.program = some { p with pc } := rfl
  have hstops : (m.loaded p loads pc).stops { p with pc } = false := by
    simp [stops, loaded, withProgram, hm]
  have hmoved : (m.loaded p loads pc).movedTo (pc + 1) none = m.loaded p loads (pc + 1) := rfl
  rw [step_eq, hprogram]
  dsimp only
  rw [hstops, if_neg Bool.false_ne_true]
  cases p.lines[pc]? with
  | none => rfl
  | some line =>
    have hexec : exec line (m.loaded p loads (pc + 1)) =
        mapEnd (loaded p loads (pc + 1)) (exec line m) :=
      Blind.exec line _ _ _ m
    dsimp only
    rw [hmoved, hexec]
    cases exec line m with
    | ok outcome n => cases outcome <;> rfl
    | error e n => rfl

/-- What running a program says about what its lines come to when they are run one by one. The reports of
errors may differ. -/
inductive Ran (p : Program) (loads : Nat) :
    EStateM.Result Error Machine Outcome → EStateM.Result Error Machine RunSummary → Prop
  | halted (n : Machine) (steps pc : Nat) :
      Ran p loads (.ok .proceed n) (.ok ⟨.halted, steps⟩ (n.loaded p loads pc))
  | exited (code : UInt8) (n : Machine) (steps pc : Nat) :
      Ran p loads (.ok (.exit code) n) (.ok ⟨.exited code, steps⟩ (n.loaded p loads pc))
  | failed (e e' : Error) (n : Machine) (pc : Nat) :
      Ran p loads (.error e n) (.error e' (n.loaded p loads pc))

theorem Ran.of_ending {p : Program} {loads : Nat} {r r' : EStateM.Result Error Machine Outcome}
    {q : EStateM.Result Error Machine RunSummary} (h : Ran p loads r q) (hr : ending r = ending r') :
    Ran p loads r' q := by
  cases h with
  | halted n steps pc =>
    cases r' with
    | ok outcome n' => cases hr; exact .halted n steps pc
    | error e' n' => cases hr
  | exited code n steps pc =>
    cases r' with
    | ok outcome n' => cases hr; exact .exited code n steps pc
    | error e' n' => cases hr
  | failed e e' n pc =>
    cases r' with
    | ok outcome n' => cases hr
    | error e'' n' => cases hr; exact .failed e'' e' n pc

/-- Without breakpoints a run with enough steps runs the lines that are left, as if there were no
program. -/
theorem runFrom_loaded {m : Machine} (hm : m.debugger.breakpoints = []) {p : Program} {pc limit : Nat}
    (hpc : pc ≤ p.lines.size) (hlimit : p.lines.size < pc + limit) (loads steps : Nat) :
    Ran p loads (execAll (p.lines.toList.drop pc) m)
      (runFrom steps limit (m.loaded p loads pc)) := by
  induction limit generalizing m pc steps with
  | zero => omega
  | succ limit ih =>
    rw [runFrom_succ, step_loaded hm]
    cases hline : p.lines[pc]? with
    | none =>
      have hdrop : p.lines.toList.drop pc = [] :=
        List.drop_eq_nil_of_le (Array.getElem?_eq_none_iff.1 hline)
      rw [hdrop]
      exact .halted m steps pc
    | some line =>
      obtain ⟨hlt, hget⟩ := Array.getElem?_eq_some_iff.1 hline
      have hdrop : p.lines.toList.drop pc = line :: p.lines.toList.drop (pc + 1) := by
        rw [List.drop_eq_getElem_cons hlt, Array.getElem_toList, hget]
      -- no line sets breakpoints, so there are none for the rest of the run
      have hsetup := (exec_setup line m).breakpoints
      rw [hdrop, execAll_cons]
      dsimp only
      cases hx : exec line m with
      | ok outcome n =>
        rw [hx] at hsetup
        cases outcome with
        | proceed => exact ih (hsetup.trans hm) hlt (by omega) (steps + 1)
        | exit code => exact .exited code n (steps + 1) p.lines.size
      | error e n => exact .failed e e n (pc + 1)

/-- The machine as if no program had been loaded. -/
def unloaded (m : Machine) : Machine :=
  m.withProgram none 0 none

theorem load_eq (source : List String) (base : UInt16) {m : Machine} (hm : m.status = .running) :
    load source base m = .ok () (m.loaded (.ofSource source base) (m.debugger.loads + 1) 0) := by
  have hfirst : ∀ p : Program, p.pc = 0 → ({ p with pc := 0 } : Program) = p := by
    rintro ⟨⟩ rfl
    rfl
  have hload : load source base m =
      .ok () ((m.withProgram (some (.ofSource source base)) (m.debugger.loads + 1) none).withStatus
        .running) := rfl
  rw [hload, loaded, hfirst _ (Program.pc_ofSource source base), ← hm]
  rfl

theorem ran_load (source : List String) (base : UInt16) {m : Machine} (hm : m.status = .running)
    (hbreakpoints : m.debugger.breakpoints = []) {limit : Option Nat}
    (hlimit : (Program.ofSource source base).lines.size < limit.getD m.config.maxSteps) :
    Ran (.ofSource source base) (m.debugger.loads + 1) (execAll source m)
      ((do load source base; run limit) m) := by
  have hran : (do load source base; run limit) m =
      runFrom 0 (limit.getD m.config.maxSteps)
        (m.loaded (.ofSource source base) (m.debugger.loads + 1) 0) := by
    show EStateM.bind (load source base) (fun _ => run limit) m = _
    unfold EStateM.bind
    rw [load_eq source base hm]
    rfl
  have hlines := runFrom_loaded hbreakpoints (Nat.zero_le _)
    (hlimit.trans_eq (Nat.zero_add _).symm) (m.debugger.loads + 1) 0
  rw [List.drop_zero, Program.lines_ofSource] at hlines
  rw [hran]
  exact hlines.of_ending (ending_execAll_normalLines source m)

/-- **Loading a source changes nothing about what it does.** Loaded into a running machine without
breakpoints and run with enough steps, it leaves the machine as its lines do when they are run one by one,
up to the program itself; it fails where they fail, and exits where they exit. What a program keeps of a
source, loaded again, is kept as it is, and holds no labels. -/
theorem load_run_execAll :
    (∀ (m : Machine) (source : List String) (base : UInt16) (limit : Option Nat),
      m.status = .running → m.debugger.breakpoints = [] →
      (Program.ofSource source base).lines.size < limit.getD m.config.maxSteps →
      let fed := execAll source m
      let ran := (do load source base; run limit) m
      (endState ran).unloaded = (endState fed).unloaded ∧
        ((∃ e n, ran = .error e n) ↔ ∃ e n, fed = .error e n) ∧
        ∀ code, (∃ steps n, ran = .ok ⟨.exited code, steps⟩ n) ↔ ∃ n, fed = .ok (.exit code) n) ∧
    ∀ (source : List String) (base base' : UInt16),
      let p := Program.ofSource source base
      (Program.ofSource p.lines.toList base').lines = p.lines ∧
        (Program.ofSource p.lines.toList base').labels = [] := by
  refine ⟨fun m source base limit hm hbreakpoints hlimit => ?_, fun source base base' => ⟨?_, ?_⟩⟩
  · intro fed ran
    have hran : Ran (.ofSource source base) (m.debugger.loads + 1) fed ran :=
      ran_load source base hm hbreakpoints hlimit
    generalize fed = r at hran
    generalize ran = q at hran
    cases hran <;> simp [unloaded, loaded, withProgram]
  · rw [← Array.toList_inj, Program.lines_ofSource, Program.lines_ofSource,
      Source.normalLines_normalLines]
  · rw [Program.lines_ofSource]
    exact Program.labels_foldl_addLine (fun line h =>
      (Source.normalLine?_eq_some (Source.normalLine?_of_mem h)).1) _

/-- A source with a label, comments and blanks, and an error in front of its last line. -/
theorem load_run_execAll_standard :
    let m := standard "" (.ofInput [])
    let source := ["start: ; here", " MOV AX , 3 ; three", "", "\t; only this", "POP 1", "INC AX"]
    let ran := (do load source 0x100; run (some 4)) m
    m.status = .running ∧ m.debugger.breakpoints = [] ∧
      (Program.ofSource source 0x100).lines = #["MOV AX , 3", "POP 1", "INC AX"] ∧
      (Program.ofSource source 0x100).lines.size < (some 4).getD m.config.maxSteps ∧
      (endState ran).unloaded = (endState (execAll source m)).unloaded ∧
      ∃ e n, ran = .error e n := by
  intro m source ran
  have hlines : (Program.ofSource source 0x100).lines = #["MOV AX , 3", "POP 1", "INC AX"] := by
    decide +kernel
  have hlimit : (Program.ofSource source 0x100).lines.size < (some 4).getD m.config.maxSteps := by
    rw [hlines]
    decide
  obtain ⟨hsame, herror, -⟩ := load_run_execAll.1 m source 0x100 (some 4) rfl rfl hlimit
  have hfed : (ending (execAll source m)).1.isNone = true := by decide +kernel
  refine ⟨rfl, rfl, hlines, hlimit, hsame, herror.2 ?_⟩
  cases hr : execAll source m with
  | ok outcome n => rw [hr] at hfed; cases hfed
  | error e n => exact ⟨e, n, rfl⟩

end Machine

end DosMonitor
