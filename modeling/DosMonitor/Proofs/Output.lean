import Mathlib
import DosMonitor.Proofs.AccessLog
import DosMonitor.Proofs.Accounts
import DosMonitor.Proofs.Printing

/-!
# What operations put out

Lines of trace come from two places. A traced instruction puts out its own line and then, watch by watch,
the reports of changes; a step that stops at a breakpoint puts out one line. `Machine.output` collects
them for whole operations, and `Machine.traced` the traced instructions they come from.

The text of a line tells which watch it reports on, if any (`Watch.isAbout`): trace lines begin with an
instruction, which has no bracket, and an expression that is watched has no blank.

The invariant of operations (`Reports`) is stated from one machine to another and composes. It says what
has been put out, what the watches have seen last, and, of each watch, that its reports are the changes
in the sequence of its values.
-/

namespace DosMonitor

namespace Invocation

/-- What the instruction leaves behind, whether it has failed or not. -/
def after (v : Invocation) : Context Memory :=
  endState (Execution.execute v.instruction v.context)

/-- The value of what is watched after the instruction, as it is shown. -/
def shown (v : Invocation) (target : WatchTarget) : String :=
  target.evaluate v.after.registers v.after.bus

end Invocation

/-! ## One watch -/

namespace Watch

/-- The watch after the look that follows an instruction. -/
def seen (w : Watch) (v : Invocation) : Watch :=
  (w.observe v.after.registers v.after.bus).1

def report? (w : Watch) (v : Invocation) : Option String :=
  (w.observe v.after.registers v.after.bus).2

def reportText (expr old new : String) : String :=
  s!"[watch] {expr}: {old}->{new}"

/-- The report of two successive values, if they differ. -/
def change? (expr : String) (values : String × String) : Option String :=
  if values.1 = values.2 then none else some (reportText expr values.1 values.2)

/-- The reports of a sequence of values. -/
def changes (expr : String) (values : List String) : List String :=
  (values.zip values.tail).filterMap (change? expr)

/-- What a line about a watch begins with. -/
def mark : List Char :=
  "[watch] ".toList

/-- The line is the report of a change of this expression. -/
def isAbout (expr line : String) : Bool :=
  (mark ++ (expr.toList ++ [':', ' '])).isPrefixOf line.toList

/-- The value that is known, if any, and then one for each instruction. -/
def values (w : Watch) (vs : List Invocation) : List String :=
  w.last.toList ++ vs.map (·.shown w.target)

variable {w : Watch} {v : Invocation}

@[simp] theorem seen_target (w : Watch) (v : Invocation) : (w.seen v).target = w.target := rfl

@[simp] theorem seen_last (w : Watch) (v : Invocation) :
    (w.seen v).last = some (v.shown w.target) := rfl

theorem seenAll_expr (w : Watch) (vs : List Invocation) : (vs.foldl seen w).expr = w.expr := by
  induction vs generalizing w with
  | nil => rfl
  | cons v vs ih => exact ih (w.seen v)

theorem seenAll_target (w : Watch) (vs : List Invocation) :
    (vs.foldl seen w).target = w.target := by
  induction vs generalizing w with
  | nil => rfl
  | cons v vs ih => exact ih (w.seen v)

theorem seenAll_last (w : Watch) (vs : List Invocation) :
    (vs.foldl seen w).last = (w.values vs).getLast? := by
  induction vs generalizing w with
  | nil => cases h : w.last <;> simp [values, h]
  | cons v vs ih =>
    rw [List.foldl_cons, ih, values, seen_last, seen_target, values]
    cases w.last <;> simp

/-- A look compares the value with the last one, if there is one. -/
theorem report?_eq (w : Watch) (v : Invocation) :
    w.report? v = w.last.bind fun old => change? w.expr (old, v.shown w.target) := by
  unfold report? observe
  cases w.last <;> rfl

theorem toList_report? (w : Watch) (v : Invocation) :
    (w.report? v).toList = changes w.expr (w.values [v]) := by
  rw [report?_eq, values]
  cases w.last with
  | none => rfl
  | some old => cases h : change? w.expr (old, v.shown w.target) <;> simp [changes, h]

/-- Where a sequence of values is cut, its last value before the cut is compared with the first one
behind. -/
theorem changes_append (expr : String) (us vs : List String) :
    changes expr (us ++ vs) = changes expr us ++ changes expr (us.getLast?.toList ++ vs) := by
  induction us with
  | nil => rfl
  | cons u us ih =>
    cases us with
    | nil => rfl
    | cons u' us =>
      have hcons : ∀ values, changes expr (u :: u' :: values) =
          (change? expr (u, u')).toList ++ changes expr (u' :: values) := by
        intro values
        cases h : change? expr (u, u') <;> simp [changes, h]
      rw [List.getLast?_cons_cons, List.cons_append, List.cons_append, hcons, hcons,
        List.append_assoc, ← ih]
      rfl

/-- The changes while more instructions run go on from the last value. -/
theorem changes_values_append (w : Watch) (vs us : List Invocation) :
    changes w.expr (w.values (vs ++ us)) =
      changes w.expr (w.values vs) ++ changes w.expr ((vs.foldl seen w).values us) := by
  have hvalues : w.values (vs ++ us) = w.values vs ++ us.map (·.shown w.target) := by
    simp [values]
  rw [hvalues, changes_append, ← seenAll_last, ← seenAll_target w vs]
  rfl

/-! ## Which line is about which watch -/

theorem isAbout_iff {expr line : String} :
    isAbout expr line = true ↔ ∃ rest, line.toList = mark ++ (expr.toList ++ ':' :: ' ' :: rest) := by
  rw [isAbout, List.isPrefixOf_iff_prefix]
  constructor
  · rintro ⟨rest, h⟩
    exact ⟨rest, by simpa using h.symm⟩
  · rintro ⟨rest, h⟩
    exact ⟨rest, by simpa using h.symm⟩

/-- The expression is what stands before the first blank, but for the colon. -/
theorem takeWhile_subject {expr rest : List Char} (hblank : ' ' ∉ expr) :
    (expr ++ ':' :: ' ' :: rest).takeWhile (· != ' ') = expr ++ [':'] := by
  rw [List.takeWhile_append_of_pos]
  · rfl
  · rintro c hc
    exact bne_iff_ne.2 fun hspace => hblank (hspace ▸ hc)

theorem isAbout_reportText_iff {expr expr' : String} (hblank : ' ' ∉ expr.toList)
    (hblank' : ' ' ∉ expr'.toList) (old new : String) :
    isAbout expr' (reportText expr old new) = true ↔ expr = expr' := by
  have htext : (reportText expr old new).toList =
      mark ++ (expr.toList ++ ':' :: ' ' :: (old ++ "->" ++ new).toList) := by
    change ("[watch] " ++ expr ++ ": " ++ old ++ "->" ++ new).toList = _
    simp only [String.toList_append, List.append_assoc]
    rfl
  rw [isAbout_iff, htext]
  constructor
  · rintro ⟨rest, h⟩
    have hword := congrArg (List.takeWhile (· != ' ')) (List.append_cancel_left h)
    rw [takeWhile_subject hblank, takeWhile_subject hblank'] at hword
    exact String.toList_injective (List.append_cancel_right hword)
  · rintro rfl
    exact ⟨_, rfl⟩

/-- A report is about the watch it comes from. -/
theorem isAbout_report_iff {expr : String} (hblank : ' ' ∉ w.expr.toList) (hblank' : ' ' ∉ expr.toList)
    {line : String} (h : w.report? v = some line) : isAbout expr line = true ↔ w.expr = expr := by
  rw [report?_eq, Option.bind_eq_some_iff] at h
  obtain ⟨old, -, hchange⟩ := h
  unfold change? at hchange
  split_ifs at hchange
  obtain rfl := Option.some.inj hchange
  exact isAbout_reportText_iff hblank hblank' old _

end Watch

/-- The line of an instruction begins with its source. -/
theorem toList_traceLine (c : Context Memory) (line : List Char) (i : Instruction) :
    ∃ rest, (c.traceLine line i).toList = Text.trim (Text.trim (Source.code line)) ++ ' ' :: rest := by
  have hrecord : ∃ rest, (c.traceRecord line i).line.toList =
      Text.trim (Text.trim (Source.code line)) ++ ' ' :: rest := by
    unfold TraceRecord.line Context.traceRecord
    simp only [toString, String.toList_append, List.append_assoc, String.toList_ofList]
    exact ⟨_, rfl⟩
  obtain ⟨rest, hrest⟩ := hrecord
  unfold Context.traceLine
  split
  · exact ⟨rest, hrest⟩
  · simp only [toString, String.toList_append, List.append_assoc, hrest, List.cons_append]
    exact ⟨_, rfl⟩

theorem not_isAbout_traceLine (expr : String) (c : Context Memory) {line : List Char} {i : Instruction}
    (hi : Source.instruction? line = .ok (some i)) :
    ¬Watch.isAbout expr (c.traceLine line i) = true := by
  -- A source with a bracket is no instruction.
  have hbracket : '[' ∉ Text.trim (Text.trim (Source.code line)) := fun hmem =>
    (Source.instruction?_eq_ok_iff.1 hi).1.notMem (by decide) (by decide) (by decide)
      (Text.mem_of_mem_trim (Text.mem_of_mem_trim hmem))
  obtain ⟨more, hmore⟩ := toList_traceLine c line i
  rw [Watch.isAbout_iff]
  rintro ⟨after, hmark⟩
  rw [hmore] at hmark
  cases htext : Text.trim (Text.trim (Source.code line)) with
  | nil =>
    rw [htext] at hmark
    exact absurd (List.cons.inj hmark).1 (by decide)
  | cons first text =>
    rw [htext] at hmark hbracket
    exact hbracket (List.mem_cons.2 (.inl (List.cons.inj hmark).1.symm))

theorem not_isAbout_breakText (expr : String) (order : LabelOrder) (p : Program) (line : Nat) :
    ¬Watch.isAbout expr (Machine.breakText order p line) = true := by
  rw [Watch.isAbout_iff]
  rintro ⟨rest, hmark⟩
  unfold Machine.breakText at hmark
  simp only [toString, String.toList_append, List.append_assoc] at hmark
  have hletters : ['[', 'b'] = ['[', 'w'] := congrArg (List.take 2) hmark
  exact absurd hletters (by decide)

/-! ## All watches -/

/-- The watched expressions are kept in canonical form, no two are the same, and each means what is kept
beside it. -/
structure Watches.Keyed (ws : Watches) : Prop where
  distinct : (ws.map Watch.expr).Nodup
  canonical : ∀ w ∈ ws, WatchTarget.canonical w.expr.toList = w.expr.toList
  target : ∀ w ∈ ws, WatchTarget.parse w.expr = .ok w.target

namespace Watches.Keyed

variable {ws : Watches} {w : Watch}

theorem notMem_blank (h : ws.Keyed) (hw : w ∈ ws) : ' ' ∉ w.expr.toList := by
  rw [← h.canonical w hw]
  intro hmem
  obtain ⟨c, hc, hspace⟩ := List.mem_map.1 hmem
  have hblank : Text.isBlank ' ' = false := by
    rw [← hspace, Text.isBlank_toUpper]
    exact Text.not_isBlank_of_mem_squeeze hc
  exact absurd hblank (by decide)

theorem seen (h : ws.Keyed) (vs : List Invocation) :
    Watches.Keyed (ws.map fun w => vs.foldl Watch.seen w) where
  distinct := by
    have hexpr : (ws.map fun w => vs.foldl Watch.seen w).map Watch.expr = ws.map Watch.expr := by
      rw [List.map_map]
      exact List.map_congr_left fun w _ => Watch.seenAll_expr w vs
    rw [hexpr]
    exact h.distinct
  canonical u hu := by
    obtain ⟨w, hw, rfl⟩ := List.mem_map.1 hu
    rw [Watch.seenAll_expr]
    exact h.canonical w hw
  target u hu := by
    obtain ⟨w, hw, rfl⟩ := List.mem_map.1 hu
    rw [Watch.seenAll_expr, Watch.seenAll_target]
    exact h.target w hw

/-- Of all reports of a look one at most is about an expression. -/
theorem filter_reports (h : ws.Keyed) (hw : w ∈ ws) (v : Invocation) :
    (ws.filterMap (·.report? v)).filter (Watch.isAbout w.expr) = (w.report? v).toList := by
  have hblank := h.notMem_blank hw
  -- Of the watches in front of `w` and behind it no report is about its expression.
  have hothers : ∀ us : Watches, us ⊆ ws → w.expr ∉ us.map Watch.expr →
      (us.filterMap (·.report? v)).filter (Watch.isAbout w.expr) = [] := by
    intro us hsub hnew
    refine List.filter_eq_nil_iff.2 fun line hline habout => hnew ?_
    obtain ⟨u, hu, hreport⟩ := List.mem_filterMap.1 hline
    have hexpr := (Watch.isAbout_report_iff (h.notMem_blank (hsub hu)) hblank hreport).1 habout
    exact List.mem_map.2 ⟨u, hu, hexpr⟩
  have hself : ((w.report? v).toList).filter (Watch.isAbout w.expr) = (w.report? v).toList :=
    List.filter_eq_self.2 fun line hline =>
      (Watch.isAbout_report_iff hblank hblank (Option.mem_toList.1 hline)).2 rfl
  obtain ⟨front, back, rfl⟩ := List.append_of_mem hw
  have hdistinct : (front.map Watch.expr ++ w.expr :: back.map Watch.expr).Nodup := by
    simpa using h.distinct
  obtain ⟨-, hcons, hdisjoint⟩ := List.nodup_append.1 hdistinct
  have hfront := hothers front (List.subset_append_left _ _) fun hmem =>
    hdisjoint _ hmem _ List.mem_cons_self rfl
  have hback := hothers back (fun u hu => by simp [hu]) (List.nodup_cons.1 hcons).1
  have hparts : (front ++ w :: back).filterMap (·.report? v) =
      front.filterMap (·.report? v) ++ ((w.report? v).toList ++ back.filterMap (·.report? v)) := by
    cases hreport : w.report? v <;> simp [hreport]
  rw [hparts, List.filter_append, List.filter_append, hfront, hself, hback, List.append_nil,
    List.nil_append]

end Watches.Keyed

namespace Machine

/-! ## What is put out -/

/-- The instruction that a line of source has carried out with tracing on. -/
def traced? (m : Machine) (line : String) : Option Invocation :=
  if m.trace.enabled then m.core.invocation? line else none

/-- What a line of source puts out. -/
def lineOutput (m : Machine) (line : String) : List String :=
  match m.traced? line with
  | some v =>
    v.context.traceLine line.toList v.instruction :: m.debugger.watches.filterMap (·.report? v)
  | none => []

def stepTraced? (m : Machine) : Option Invocation :=
  m.attempted?.bind m.traced?

/-- What a step puts out: what its line does, or where it has stopped. -/
def stepOutput (m : Machine) : List String :=
  match m.attempted? with
  | some line => m.lineOutput line
  | none =>
    if m.breaks then m.debugger.program.toList.map fun p => breakText m.labelOrder p p.pc else []

/-- The traced instructions of a command, in order. -/
def traced (m : Machine) : Command → List Invocation
  | .execute line => (m.traced? line).toList
  | .step => m.stepTraced?.toList
  | .run limit => (stepsOfRun (limit.getD m.config.maxSteps) m).filterMap stepTraced?
  | _ => []

/-- What a command puts out in the trace. -/
def output (m : Machine) : Command → List String
  | .execute line => m.lineOutput line
  | .step => m.stepOutput
  | .run limit => (stepsOfRun (limit.getD m.config.maxSteps) m).flatMap stepOutput
  | _ => []

/-- From `m` to `n` these lines have been put out, and every watch has looked at the machine after each of
these instructions. -/
structure Reports (vs : List Invocation) (ls : List String) (m n : Machine) : Prop where
  lines : n.trace.lines.toList = m.trace.lines.toList ++ ls
  watches : n.debugger.watches = m.debugger.watches.map fun w => vs.foldl Watch.seen w
  changes : m.debugger.watches.Keyed → ∀ w ∈ m.debugger.watches,
    ls.filter (Watch.isAbout w.expr) = Watch.changes w.expr (w.values vs)

/-- No line has been put out, and the watches are the same. -/
def Silent (m n : Machine) : Prop :=
  n.trace.lines = m.trace.lines ∧ n.debugger.watches = m.debugger.watches

namespace Reports

variable {vs us : List Invocation} {ls ks : List String} {m n k : Machine}

theorem of_silent (h : Silent m n) : Reports [] [] m n where
  lines := by rw [h.1, List.append_nil]
  watches := by rw [h.2]; exact (List.map_id _).symm
  changes hkeyed w hw := by
    unfold Watch.values
    cases w.last <;> rfl

theorem trans (h : Reports vs ls m n) (h' : Reports us ks n k) :
    Reports (vs ++ us) (ls ++ ks) m k where
  lines := by rw [h'.lines, h.lines, List.append_assoc]
  watches := by
    rw [h'.watches, h.watches, List.map_map]
    exact List.map_congr_left fun w _ => List.foldl_append.symm
  changes hkeyed w hw := by
    have hseen : vs.foldl Watch.seen w ∈ n.debugger.watches := by
      rw [h.watches]
      exact List.mem_map_of_mem hw
    have hmore := h'.changes (h.watches ▸ hkeyed.seen vs) _ hseen
    rw [Watch.seenAll_expr] at hmore
    rw [List.filter_append, h.changes hkeyed w hw, hmore, Watch.changes_values_append]

end Reports

/-! ## A line of source -/

section Line
variable {m : Machine} {line : String} {v : Invocation}

theorem traced?_eq_some (h : m.traced? line = some v) :
    m.trace.enabled = true ∧ Source.label? line.toList = none ∧
      Source.instruction? line.toList = .ok (some v.instruction) ∧ v.context = m.committed := by
  unfold traced? Context.invocation? at h
  split_ifs at h with henabled hlabel
  split at h
  · rename_i i hi
    obtain rfl := Option.some.inj h
    exact ⟨henabled, by simpa using hlabel, hi, rfl⟩
  · cases h

/-- A line that is not traced does not touch trace and watches. -/
theorem silent_exec (h : m.traced? line = none) : Silent m (after (exec line) m) := by
  have hrun : ∃ core, endState (runLine line.toList m) = m.withCore core := by
    unfold runLine
    split_ifs with hlabel
    · exact ⟨m.core, rfl⟩
    · cases hi : Source.instruction? line.toList with
      | error e => exact ⟨m.core, rfl⟩
      | ok read =>
        cases read with
        | none => exact ⟨m.core, rfl⟩
        | some i =>
          have hdisabled : ¬m.trace.enabled = true := by
            unfold traced? Context.invocation? at h
            rw [hi] at h
            simpa [hlabel] using h
          have hplain : (if m.trace.enabled then executeTraced line.toList i
              else onCore (Execution.execute i)) (m.withCore m.committed) =
                mapEnd m.withCore (Execution.execute i m.committed) := by
            rw [if_neg hdisabled, onCore_eq]
            rfl
          refine ⟨endState (Execution.execute i m.committed), (congrArg endState hplain).trans ?_⟩
          cases Execution.execute i m.committed <;> rfl
  obtain ⟨core, hcore⟩ := hrun
  unfold after exec
  change Silent m (endState (EStateM.bind (runLine line.toList) _ m))
  unfold EStateM.bind
  cases hend : runLine line.toList m with
  | ok outcome n =>
    obtain rfl : n = m.withCore core := by rwa [hend] at hcore
    cases outcome <;> exact ⟨rfl, rfl⟩
  | error e n =>
    obtain rfl : n = m.withCore core := by rwa [hend] at hcore
    exact ⟨rfl, rfl⟩

theorem reports_exec (line : String) (m : Machine) :
    Reports (m.traced? line).toList (m.lineOutput line) m (after (exec line) m) := by
  unfold lineOutput
  cases hv : m.traced? line with
  | none => exact .of_silent (silent_exec hv)
  | some v =>
    obtain ⟨henabled, hlabel, hi, hcontext⟩ := traced?_eq_some hv
    obtain ⟨status, hafter⟩ := after_exec_tracedTo henabled hlabel hi
    have hlooks : (m.debugger.watches.observe v.after.registers v.after.bus).2 =
        m.debugger.watches.filterMap (·.report? v) := List.filterMap_map
    have hwatches : (m.debugger.watches.observe v.after.registers v.after.bus).1 =
        m.debugger.watches.map (·.seen v) := List.map_map
    rw [← hcontext] at hafter
    rw [hafter]
    dsimp only
    refine ⟨?_, hwatches, fun hkeyed w hw => ?_⟩
    · rw [← hlooks]
      exact Array.toList_append
    · rw [List.filter_cons_of_neg (not_isAbout_traceLine w.expr v.context hi),
        hkeyed.filter_reports hw, Watch.toList_report?]
      rfl

end Line

/-! ## Steps and runs -/

theorem reports_step (m : Machine) :
    Reports m.stepTraced?.toList m.stepOutput m (after step m) := by
  unfold stepTraced? stepOutput
  cases hattempted : m.attempted? with
  | none =>
    obtain ⟨-, ⟨hbreaks, -, hafter⟩ | ⟨p, hbreaks, hp, -, hafter⟩⟩ := pause hattempted
    · rw [hafter, hbreaks]
      exact .of_silent ⟨rfl, rfl⟩
    · rw [hafter, hbreaks, hp]
      refine ⟨Array.toList_append, (List.map_id _).symm, fun _ w _ => ?_⟩
      refine (List.filter_cons_of_neg (not_isAbout_breakText w.expr m.labelOrder p p.pc)).trans ?_
      unfold Option.bind Watch.values
      cases w.last <;> rfl
  | some line =>
    obtain ⟨-, p, n, -, -, -, hn, hafter⟩ := attempt hattempted
    have hexec := reports_exec line (m.movedTo (p.pc + 1) none)
    rw [← hn] at hexec
    have hsame : Reports (m.traced? line).toList (m.lineOutput line) m n :=
      ⟨hexec.lines, hexec.watches, hexec.changes⟩
    rw [hafter, Option.bind_some]
    by_cases hexits : m.exits
    · rw [if_pos hexits]
      exact ⟨hsame.lines, hsame.watches, hsame.changes⟩
    · rw [if_neg hexits]
      exact hsame

theorem reports_runFrom (steps limit : Nat) (m : Machine) :
    Reports ((stepsOfRun limit m).filterMap stepTraced?) ((stepsOfRun limit m).flatMap stepOutput) m
      (after (runFrom steps limit) m) := by
  refine runFrom_chain (R := fun ms => Reports (ms.filterMap stepTraced?) (ms.flatMap stepOutput)) ?_ ?_ ?_
    steps limit m
  · exact fun m => .of_silent ⟨rfl, rfl⟩
  · intro m
    rw [filterMap_cons_toList, List.filterMap_nil, List.append_nil, List.flatMap_singleton]
    exact reports_step m
  · intro m n k ms line _ hfirst hrest
    rw [filterMap_cons_toList, List.flatMap_cons]
    rw [filterMap_cons_toList, List.filterMap_nil, List.append_nil, List.flatMap_singleton] at hfirst
    exact hfirst.trans hrest

/-! ## Commands -/

instance : Std.Refl Silent :=
  ⟨fun _ => ⟨rfl, rfl⟩⟩

instance : IsTrans Machine Silent :=
  ⟨fun _ _ _ h h' => ⟨h'.1.trans h.1, h'.2.trans h.2⟩⟩

/-- Only lines put out anything, and only they and edits of the watches touch the watches. -/
theorem enclosesPlain_silent : EnclosesPlain Silent where
  onMemory _ := within_onMemory_of _ fun _ _ => ⟨rfl, rfl⟩
  onDisk _ := within_onDisk_of _ fun _ _ => ⟨rfl, rfl⟩
  setRegisters _ := fun _ => .single ⟨rfl, rfl⟩
  setActivePage _ := .bind (within_onMemory_of _ fun _ _ => ⟨rfl, rfl⟩) fun _ _ =>
    .single ⟨rfl, rfl⟩
  setBreakpoints _ := fun _ => .single ⟨rfl, rfl⟩
  load _ _ := fun _ => .single ⟨rfl, rfl⟩
  setTracing _ := fun _ => .single ⟨rfl, rfl⟩

theorem output_of_runsNothing {command : Command} (hcommand : command.RunsNothing) (m : Machine) :
    m.traced command = [] ∧ m.output command = [] := by
  cases command with
  | execute _ | step | run _ => exact hcommand.elim
  | _ => exact ⟨rfl, rfl⟩

theorem reports_perform (host : Host) {command : Command} (hedit : command.edit? = none)
    (m : Machine) :
    Reports (m.traced command) (m.output command) m (after (command.perform host) m) := by
  by_cases hcommand : command.RunsNothing
  · rw [(output_of_runsNothing hcommand m).1, (output_of_runsNothing hcommand m).2]
    exact .of_silent ((enclosesPlain_silent.perform host hcommand hedit).single m)
  · cases command with
    | execute line =>
      rw [after_perform_execute]
      exact reports_exec line m
    | step =>
      rw [after_perform_step]
      exact reports_step m
    | run limit =>
      rw [after_perform_run]
      exact reports_runFrom 0 _ m
    | _ => exact absurd trivial hcommand

end Machine

end DosMonitor
