import Mathlib
import DosMonitor.Proofs.Output

/-!
# The history of a watch

An operation edits the list of watches (`Operation.edit?`) or leaves the watched expressions alone, and
then every watch looks at the machine once after each traced instruction (`reports_operation`). From the
operation that adds a watch to the one that removes it, the watch thus has one value for each traced
instruction, whatever else happens, and its reports are the changes in this sequence
(`follows_operations`).
-/

namespace DosMonitor

/-! ## Edits -/

/-- The form in which an expression is kept. -/
def Watch.key (expr : String) : String :=
  .ofList (WatchTarget.canonical expr.toList)

theorem Watch.canonical_key (expr : String) :
    WatchTarget.canonical (key expr).toList = (key expr).toList := by
  simp [key]

/-- The form in which an expression is kept means the same. -/
theorem Watch.parse_key {expr : String} {target : WatchTarget} (h : WatchTarget.parse expr = .ok target) :
    WatchTarget.parse (key expr) = .ok target := by
  unfold WatchTarget.parse at h ⊢
  rw [canonical_key, key, String.toList_ofList]
  cases htarget : WatchTarget.ofCanonical? (WatchTarget.canonical expr.toList) with
  | none =>
    rw [htarget] at h
    cases h
  | some target' =>
    rw [htarget] at h
    exact h

/-- The watches after an edit. A new one has no value yet and comes last. -/
def WatchEdit.apply : WatchEdit → Watches → Watches
  | add expr, ws =>
    match WatchTarget.parse expr with
    | .ok target =>
      if Watch.key expr ∈ ws.map Watch.expr then ws else ws ++ [⟨Watch.key expr, target, none⟩]
    | .error _ => ws
  | remove expr, ws => ws.filter (·.expr ≠ Watch.key expr)
  | clear, _ => []

namespace Watches

variable {ws : Watches} {w : Watch} {expr : String} {edit : WatchEdit}

theorem apply_add_of_ok {target : WatchTarget} (h : WatchTarget.parse expr = .ok target) :
    (WatchEdit.add expr).apply ws =
      if Watch.key expr ∈ ws.map Watch.expr then ws else ws ++ [⟨Watch.key expr, target, none⟩] := by
  unfold WatchEdit.apply
  dsimp only
  rw [h]

theorem apply_add_of_error {e : Error} (h : WatchTarget.parse expr = .error e) :
    (WatchEdit.add expr).apply ws = ws := by
  unfold WatchEdit.apply
  dsimp only
  rw [h]

theorem add_eq (ws : Watches) (expr : String) :
    ws.add expr = (WatchTarget.parse expr).map fun _ => (WatchEdit.add expr).apply ws := by
  unfold add
  cases hparse : WatchTarget.parse expr with
  | error e => rfl
  | ok target =>
    have hany : (ws.any fun w => w.expr == Watch.key expr) = true ↔
        Watch.key expr ∈ ws.map Watch.expr := by
      simp
    rw [apply_add_of_ok hparse]
    change Except.ok (if (ws.any fun w => w.expr == Watch.key expr) = true then ws
      else ws ++ [⟨Watch.key expr, target, none⟩]) = _
    simp only [hany]
    rfl

theorem remove_eq (ws : Watches) (expr : String) :
    ws.remove expr = (WatchEdit.remove expr).apply ws := by
  change ws.filter (fun w => w.expr != Watch.key expr) = ws.filter (fun w => w.expr ≠ Watch.key expr)
  refine List.filter_congr fun w _ => ?_
  simp [bne, Bool.beq_eq_decide_eq]

/-- What an edit makes of a list of watches are old ones or the one it adds. -/
theorem mem_of_mem_apply (h : w ∈ edit.apply ws) :
    w ∈ ws ∨ w.last = none ∧ w.expr ∉ ws.map Watch.expr ∧
      WatchTarget.canonical w.expr.toList = w.expr.toList ∧ WatchTarget.parse w.expr = .ok w.target := by
  cases edit with
  | add expr =>
    cases hparse : WatchTarget.parse expr with
    | error e =>
      rw [apply_add_of_error hparse] at h
      exact .inl h
    | ok target =>
      rw [apply_add_of_ok hparse] at h
      split_ifs at h with hwatched
      · exact .inl h
      · rcases List.mem_append.1 h with hold | hnew
        · exact .inl hold
        · obtain rfl := List.mem_singleton.1 hnew
          exact .inr ⟨rfl, hwatched, Watch.canonical_key expr, Watch.parse_key hparse⟩
  | remove expr => exact .inl (List.mem_of_mem_filter h)
  | clear => cases h

theorem Keyed.apply (h : ws.Keyed) (edit : WatchEdit) : (edit.apply ws).Keyed where
  distinct := by
    cases edit with
    | add expr =>
      cases hparse : WatchTarget.parse expr with
      | error e =>
        rw [apply_add_of_error hparse]
        exact h.distinct
      | ok target =>
        rw [apply_add_of_ok hparse]
        split_ifs with hwatched
        · exact h.distinct
        · rw [List.map_append]
          exact List.nodup_append.2 ⟨h.distinct, List.nodup_singleton _, by grind⟩
    | remove expr => exact h.distinct.sublist (List.filter_sublist.map _)
    | clear => exact List.nodup_nil
  canonical w hw := by
    rcases mem_of_mem_apply hw with hold | ⟨-, -, hcanonical, -⟩
    · exact h.canonical w hold
    · exact hcanonical
  target w hw := by
    rcases mem_of_mem_apply hw with hold | ⟨-, -, -, htarget⟩
    · exact h.target w hold
    · exact htarget

/-- An expression stands for one watch. -/
theorem Keyed.eq_of_expr_eq {u : Watch} (h : ws.Keyed) (hu : u ∈ ws) (hw : w ∈ ws)
    (hexpr : u.expr = w.expr) : u = w :=
  List.inj_on_of_nodup_map h.distinct hu hw hexpr

/-- A watch whose expression is still watched after an edit is kept as it is. -/
theorem Keyed.mem_apply (h : ws.Keyed) (hw : w ∈ ws)
    (hkept : w.expr ∈ (edit.apply ws).map Watch.expr) : w ∈ edit.apply ws := by
  obtain ⟨u, hu, hexpr⟩ := List.mem_map.1 hkept
  rcases mem_of_mem_apply hu with hold | ⟨-, hnew, -⟩
  · rwa [← h.eq_of_expr_eq hold hw hexpr]
  · exact absurd (List.mem_map.2 ⟨w, hw, hexpr.symm⟩) hnew

end Watches

/-! ## Operations -/

namespace Operation

def command? : Operation → Option Command
  | dispatch _ line => Command.ofLine? line
  | command _ c => some c
  | call (.exec line) => some (.execute line)
  | call .step => some .step
  | call (.run limit) => some (.run limit)
  | call (.addWatch expr) => some (.addWatch expr)
  | call (.removeWatch expr) => some (.removeWatch expr)
  | call _ => none

/-- What an operation does to the list of watches, if it edits it. -/
def edit? : Operation → Option WatchEdit
  | call .clearWatches => some .clear
  | operation => operation.command?.bind Command.edit?

end Operation

namespace Machine

/-- The traced instructions of an operation, in order. -/
def tracedBy (m : Machine) (operation : Operation) : List Invocation :=
  operation.command?.elim [] m.traced

/-- What an operation puts out in the trace. -/
def outputOf (m : Machine) (operation : Operation) : List String :=
  operation.command?.elim [] m.output

section Operation
variable {m : Machine} {operation : Operation} {command : Command} {edit : WatchEdit}

theorem after_perform_addWatch (host : Host) (expr : String) (m : Machine) :
    after (Command.perform host (.addWatch expr)) m = after (addWatch expr) m :=
  after_bind_reads (fun _ => Reads.pure _) m

theorem after_perform_removeWatch (host : Host) (expr : String) (m : Machine) :
    after (Command.perform host (.removeWatch expr)) m = after (removeWatch expr) m :=
  after_bind_reads (fun _ => Reads.pure _) m

theorem after_operation (h : operation.command? = some command) (m : Machine) :
    ∃ host, after operation.perform m = after (command.perform host) m := by
  -- A call asks the host for nothing.
  let idle : Host := fun _ => .ok []
  cases operation with
  | dispatch host line =>
    have hline : Command.ofLine? line = some command := h
    refine ⟨host, (snd_dispatch host line m).trans ?_⟩
    rw [hline]
  | command host command' =>
    obtain rfl := Option.some.inj h
    exact ⟨host, after_map _ _ m⟩
  | call call =>
    refine ⟨idle, (after_map _ _ m).trans ?_⟩
    cases call with
    | exec line =>
      obtain rfl := Option.some.inj h
      exact (after_map _ _ m).trans (after_perform_execute idle line m).symm
    | step =>
      obtain rfl := Option.some.inj h
      exact (after_map _ _ m).trans (after_perform_step idle m).symm
    | run limit =>
      obtain rfl := Option.some.inj h
      exact (after_map _ _ m).trans (after_perform_run idle limit m).symm
    | addWatch expr =>
      obtain rfl := Option.some.inj h
      exact (after_map _ _ m).trans (after_perform_addWatch idle expr m).symm
    | removeWatch expr =>
      obtain rfl := Option.some.inj h
      exact (after_map _ _ m).trans (after_perform_removeWatch idle expr m).symm
    | _ => cases h

theorem silent_call {call : Call} (hcommand : (Operation.call call).command? = none)
    (hedit : (Operation.call call).edit? = none) : Within Silent call.perform := by
  cases call with
  | load source base => exact (enclosesPlain_silent.load source base).map _
  | addBreakpoint location => exact (enclosesPlain_silent.addBreakpoint location).map _
  | removeBreakpoint location => exact (enclosesPlain_silent.removeBreakpoint location).map _
  | clearBreakpoints => exact (enclosesPlain_silent.setBreakpoints fun _ => []).map _
  | listing => exact .bind .get fun _ => .bind (.ofExcept _) fun _ => .pure _
  | clearWatches => cases hedit
  | _ => cases hcommand

theorem edit?_of_command (h : operation.command? = some command) : operation.edit? = command.edit? := by
  unfold Operation.edit?
  split
  · cases h
  · rw [h, Option.bind_some]

/-- **An operation that does not edit the watches** has each of them look at the machine after each traced
instruction. -/
theorem reports_operation (hedit : operation.edit? = none) (m : Machine) :
    Reports (m.tracedBy operation) (m.outputOf operation) m (after operation.perform m) := by
  unfold tracedBy outputOf
  cases hcommand : operation.command? with
  | some command =>
    obtain ⟨host, hafter⟩ := after_operation hcommand m
    rw [hafter]
    exact reports_perform host (edit?_of_command hcommand ▸ hedit) m
  | none =>
    apply Reports.of_silent
    cases operation with
    | dispatch host line =>
      have hline : Command.ofLine? line = none := hcommand
      have hafter : after (Operation.dispatch host line).perform m = m := by
        refine (snd_dispatch host line m).trans ?_
        rw [hline]
      rw [hafter]
      exact ⟨rfl, rfl⟩
    | command host command => cases hcommand
    | call call => exact ((silent_call hcommand hedit).map _).single m

theorem after_addWatch (expr : String) (m : Machine) :
    after (addWatch expr) m = m.withWatches ((WatchEdit.add expr).apply m.debugger.watches) := by
  change endState (EStateM.bind (MonadExcept.ofExcept (m.debugger.watches.add expr)) _ m) = _
  rw [Watches.add_eq]
  cases hparse : WatchTarget.parse expr with
  | ok target => rfl
  | error e =>
    rw [Watches.apply_add_of_error hparse]
    rfl

theorem after_removeWatch (expr : String) (m : Machine) :
    after (removeWatch expr) m = m.withWatches ((WatchEdit.remove expr).apply m.debugger.watches) := by
  rw [← Watches.remove_eq]
  rfl

/-- **An operation that edits the watches** does nothing else. -/
theorem edits_operation (hedit : operation.edit? = some edit) (m : Machine) :
    after operation.perform m = m.withWatches (edit.apply m.debugger.watches) ∧
      m.tracedBy operation = [] ∧ m.outputOf operation = [] := by
  unfold tracedBy outputOf
  cases hcommand : operation.command? with
  | some command =>
    obtain ⟨host, hafter⟩ := after_operation hcommand m
    rw [edit?_of_command hcommand] at hedit
    rw [hafter]
    cases command with
    | addWatch expr =>
      obtain rfl := Option.some.inj hedit
      exact ⟨(after_perform_addWatch host expr m).trans (after_addWatch expr m), rfl, rfl⟩
    | removeWatch expr =>
      obtain rfl := Option.some.inj hedit
      exact ⟨(after_perform_removeWatch host expr m).trans (after_removeWatch expr m), rfl, rfl⟩
    | _ => cases hedit
  | none =>
    unfold Operation.edit? at hedit
    split at hedit
    · obtain rfl := Option.some.inj hedit
      exact ⟨rfl, rfl, rfl⟩
    · rw [hcommand] at hedit
      cases hedit

theorem keyed_operation (operation : Operation) (h : m.debugger.watches.Keyed) :
    (after operation.perform m).debugger.watches.Keyed := by
  cases hedit : operation.edit? with
  | some edit =>
    rw [(edits_operation hedit m).1]
    exact h.apply edit
  | none =>
    rw [(reports_operation hedit m).watches]
    exact h.seen _

theorem keyed_operations (operations : List Operation) (h : m.debugger.watches.Keyed) :
    (afterOperations operations m).debugger.watches.Keyed := by
  induction operations generalizing m with
  | nil => exact h
  | cons operation operations ih => exact ih (keyed_operation operation h)

end Operation

/-! ## The history of one watch -/

/-- The expressions that are watched. -/
def watched (m : Machine) : List String :=
  m.debugger.watches.map Watch.expr

def tracedAll : List Operation → Machine → List Invocation
  | [], _ => []
  | operation :: operations, m =>
    m.tracedBy operation ++ tracedAll operations (after operation.perform m)

/-- From `m` to `n` a watch has looked at the machine after each of these instructions, and its reports have
been put out among other lines. -/
structure Follows (w : Watch) (vs : List Invocation) (m n : Machine) : Prop where
  watch : vs.foldl Watch.seen w ∈ n.debugger.watches
  reports : ∃ ls, n.trace.lines.toList = m.trace.lines.toList ++ ls ∧
    ls.filter (Watch.isAbout w.expr) = Watch.changes w.expr (w.values vs)

section History
variable {w : Watch} {vs us : List Invocation} {m n k : Machine}

theorem Follows.trans (h : Follows w vs m n) (h' : Follows (vs.foldl Watch.seen w) us n k) :
    Follows w (vs ++ us) m k where
  watch := by
    rw [List.foldl_append]
    exact h'.watch
  reports := by
    obtain ⟨ls, hls, habout⟩ := h.reports
    obtain ⟨ks, hks, hmore⟩ := h'.reports
    rw [Watch.seenAll_expr] at hmore
    refine ⟨ls ++ ks, ?_, ?_⟩
    · rw [hks, hls, List.append_assoc]
    · rw [List.filter_append, habout, hmore, Watch.changes_values_append]

theorem Follows.of_same (hw : w ∈ n.debugger.watches) (hlines : n.trace.lines = m.trace.lines) :
    Follows w [] m n where
  watch := hw
  reports := by
    refine ⟨[], by rw [hlines, List.append_nil], ?_⟩
    unfold Watch.values
    cases w.last <;> rfl

theorem follows_operation {operation : Operation} (hkeyed : m.debugger.watches.Keyed)
    (hw : w ∈ m.debugger.watches) (hkept : w.expr ∈ (after operation.perform m).watched) :
    Follows w (m.tracedBy operation) m (after operation.perform m) := by
  cases hedit : operation.edit? with
  | some edit =>
    obtain ⟨hafter, htraced, -⟩ := edits_operation hedit m
    rw [hafter] at hkept ⊢
    rw [htraced]
    exact .of_same (hkeyed.mem_apply hw hkept) rfl
  | none =>
    have hreports := reports_operation hedit m
    refine ⟨?_, _, hreports.lines, hreports.changes hkeyed w hw⟩
    rw [hreports.watches]
    exact List.mem_map_of_mem hw

/-- **As long as its expression is watched, a watch looks at the machine after each traced instruction**,
and its reports are the changes in the sequence of its values. -/
theorem follows_operations (operations : List Operation) (hkeyed : m.debugger.watches.Keyed)
    (hw : w ∈ m.debugger.watches)
    (hkept : ∀ earlier, earlier <+: operations → w.expr ∈ (afterOperations earlier m).watched) :
    Follows w (tracedAll operations m) m (afterOperations operations m) := by
  -- The watch goes on from one operation to the next with another last value, but the same expression.
  induction operations generalizing m w with
  | nil => exact .of_same hw rfl
  | cons operation operations ih =>
    have hfirst := follows_operation hkeyed hw (hkept [operation] (by simp))
    refine hfirst.trans (ih (keyed_operation operation hkeyed) hfirst.watch fun earlier hearlier => ?_)
    rw [Watch.seenAll_expr]
    exact hkept (operation :: earlier) (List.cons_prefix_cons.2 ⟨rfl, hearlier⟩)

/-- A watch that an operation has added has no value yet. -/
theorem added_operation {operation : Operation} {expr : String} (hbefore : expr ∉ m.watched)
    (hafter : expr ∈ (after operation.perform m).watched) :
    ∃ w ∈ (after operation.perform m).debugger.watches, w.expr = expr ∧ w.last = none := by
  cases hedit : operation.edit? with
  | some edit =>
    rw [(edits_operation hedit m).1] at hafter ⊢
    obtain ⟨w, hw, rfl⟩ := List.mem_map.1 hafter
    rcases Watches.mem_of_mem_apply hw with hold | ⟨hlast, -⟩
    · exact absurd (List.mem_map_of_mem hold) hbefore
    · exact ⟨w, hw, rfl, hlast⟩
  | none =>
    rw [watched, (reports_operation hedit m).watches, List.map_map] at hafter
    have hsame : m.debugger.watches.map (Watch.expr ∘ fun w => (m.tracedBy operation).foldl Watch.seen w) =
        m.watched :=
      List.map_congr_left fun w _ => Watch.seenAll_expr w _
    rw [hsame] at hafter
    exact absurd hafter hbefore

theorem keyed_create {config : Config} {home : String} {console : Console}
    (h : create config home console = .ok m) : m.debugger.watches.Keyed := by
  obtain ⟨-, _, -, rfl⟩ := exists_memory_of_create h
  exact ⟨List.nodup_nil, by simp, by simp⟩

end History

end Machine

open Machine in
/-- **Watch lines report every change exactly once.** After the line of a traced instruction, whether it has
failed or not, come the reports of the watches in their order, and each of them has looked once; a line
that is not traced, or is none, leaves trace and watches alone. So it is with whole operations, but for
those that edit the list of watches, which do nothing else. From the operation that adds a watch on, and
as long as its expression is watched, its reports are the changes in the sequence of its values, one
for each traced instruction. -/
theorem watches_report_changes :
    (∀ (m : Machine) (line : String),
      let n := after (exec line) m
      (∀ i, m.trace.enabled = true → Source.label? line.toList = none →
        Source.instruction? line.toList = .ok (some i) →
        let v : Invocation := ⟨i, m.committed⟩
        n.trace.lines.toList = m.trace.lines.toList ++
          m.committed.traceLine line.toList i :: m.debugger.watches.filterMap (·.report? v) ∧
        n.debugger.watches = m.debugger.watches.map (·.seen v)) ∧
      (m.trace.enabled = false ∨ (Source.label? line.toList).isSome ∨
          (∀ i, Source.instruction? line.toList ≠ .ok (some i)) →
        n.trace.lines = m.trace.lines ∧ n.debugger.watches = m.debugger.watches)) ∧
    (∀ (m : Machine) (operation : Operation),
      let n := after operation.perform m
      (∀ edit, operation.edit? = some edit → n = m.withWatches (edit.apply m.debugger.watches)) ∧
      (operation.edit? = none →
        n.trace.lines.toList = m.trace.lines.toList ++ m.outputOf operation ∧
        n.debugger.watches = m.debugger.watches.map fun w => (m.tracedBy operation).foldl Watch.seen w)) ∧
    ∀ (config : Config) (home : String) (console : Console) (m : Machine),
      create config home console = .ok m →
      ∀ (before : List Operation) (operation : Operation) (during : List Operation) (expr : String),
        let start := after operation.perform (afterOperations before m)
        let stop := afterOperations during start
        expr ∉ (afterOperations before m).watched →
        (∀ earlier, earlier <+: during → expr ∈ (afterOperations earlier start).watched) →
        ∃ target, WatchTarget.parse expr = .ok target ∧
          let values := (tracedAll during start).map (·.shown target)
          (∃ lines, stop.trace.lines.toList = start.trace.lines.toList ++ lines ∧
            lines.filter (Watch.isAbout expr) = Watch.changes expr values) ∧
          ⟨expr, target, values.getLast?⟩ ∈ stop.debugger.watches := by
  refine ⟨fun m line => ⟨fun i henabled hlabel hi => ?_, fun hnot => ?_⟩, fun m operation => ⟨?_, ?_⟩, ?_⟩
  · have hv : m.traced? line = some ⟨i, m.committed⟩ := by
      unfold traced? Context.invocation?
      rw [if_pos henabled, hlabel, hi]
      rfl
    have hreports := reports_exec line m
    unfold lineOutput at hreports
    rw [hv] at hreports
    exact ⟨hreports.lines, hreports.watches⟩
  · refine silent_exec ?_
    cases hv : m.traced? line with
    | none => rfl
    | some v =>
      obtain ⟨henabled, hlabel, hi, -⟩ := traced?_eq_some hv
      rcases hnot with hdisabled | hsome | hnone
      · rw [henabled] at hdisabled
        cases hdisabled
      · rw [hlabel] at hsome
        cases hsome
      · exact absurd hi (hnone _)
  · exact fun edit hedit => (edits_operation hedit m).1
  · exact fun hedit => ⟨(reports_operation hedit m).lines, (reports_operation hedit m).watches⟩
  · intro config home console m hcreate before operation during expr start stop hbefore hkept
    have hstart : start.debugger.watches.Keyed :=
      keyed_operation operation (keyed_operations before (keyed_create hcreate))
    obtain ⟨w, hw, rfl, hlast⟩ := added_operation hbefore (hkept [] List.nil_prefix)
    obtain ⟨hwatch, lines, hlines, habout⟩ := follows_operations during hstart hw hkept
    have hvalues : w.values (tracedAll during start) = (tracedAll during start).map (·.shown w.target) := by
      rw [Watch.values, hlast]
      rfl
    have hstop : (tracedAll during start).foldl Watch.seen w =
        ⟨w.expr, w.target, (w.values (tracedAll during start)).getLast?⟩ := by
      rw [← Watch.seenAll_last, ← Watch.seenAll_target w (tracedAll during start)]
      conv_rhs => rw [← Watch.seenAll_expr w (tracedAll during start)]
    rw [hvalues] at habout hstop
    exact ⟨w.target, hstart.target w hw, ⟨lines, hlines, habout⟩, hstop ▸ hwatch⟩

/-- A register is watched, and watched again, over a failing instruction, a label and a change. -/
theorem watches_report_changes_ax :
    let m := Machine.standard "" (.ofInput [])
    let before : List Operation := [.command (fun _ => .ok []) (.trace true)]
    let add : Operation := .call (.addWatch "ax")
    let during : List Operation :=
      ["mov ax, 5", "again:", "int 99", "mov ax, 7"].map (fun line => .call (.exec line)) ++
        [.call (.addWatch " A X ")]
    let start := Machine.after add.perform (Machine.afterOperations before m)
    let stop := Machine.afterOperations during start
    add.edit? = some (.add "ax") ∧ start.watched = ["AX"] ∧
      (∃ reports, (Machine.after (Machine.exec "int 99") start).trace.lines.toList =
        start.trace.lines.toList ++ reports ∧ reports.length = 1) ∧
      (Machine.after (Machine.exec "again:") start).trace.lines = start.trace.lines ∧
      (∃ lines, stop.trace.lines.toList = start.trace.lines.toList ++ lines ∧
        lines.filter (Watch.isAbout "AX") = ["[watch] AX: 0x0005->0x0007"]) ∧
      ⟨"AX", .register .ax, some "0x0007"⟩ ∈ stop.debugger.watches := by
  intro m before add during start stop
  obtain ⟨hline, hoperation, hhistory⟩ := watches_report_changes
  have hadd : add.edit? = some (.add "ax") := rfl
  have hedited := (hoperation (Machine.afterOperations before m) add).1 _ hadd
  have hwatched : start.watched = ["AX"] := by
    change (Machine.after add.perform (Machine.afterOperations before m)).watched = _
    rw [hedited]
    decide +kernel
  have henabled : start.trace.enabled = true := by decide +kernel
  have hint : Source.instruction? "int 99".toList = .ok (some ⟨.int, [.immediate 99]⟩) := by decide +kernel
  obtain ⟨hfailed, -⟩ := (hline start "int 99").1 _ henabled (by decide +kernel) hint
  obtain ⟨hlabel, -⟩ := (hline start "again:").2 (.inr (.inl (by decide +kernel)))
  have hkept : ∀ earlier ∈ during.inits, "AX" ∈ (Machine.afterOperations earlier start).watched := by
    decide +kernel
  obtain ⟨target, htarget, ⟨lines, hlines, habout⟩, hwatch⟩ :=
    hhistory Config.standard "" (.ofInput []) m (Machine.create_standard "" (.ofInput [])) before add during "AX"
      (by decide +kernel) fun earlier hearlier => hkept earlier ((List.mem_inits earlier during).2 hearlier)
  have hparse : WatchTarget.parse "AX" = .ok (.register .ax) := by decide +kernel
  obtain rfl := Except.ok.inj (htarget.symm.trans hparse)
  have hvalues : (Machine.tracedAll during start).map (·.shown (.register .ax)) =
      ["0x0005", "0x0005", "0x0007"] := by
    decide +kernel
  have hstart : Machine.after add.perform (Machine.afterOperations before m) = start := rfl
  have hstop : Machine.afterOperations during start = stop := rfl
  have hlast : ["0x0005", "0x0005", "0x0007"].getLast? = some "0x0007" := rfl
  rw [hstart, hstop] at hlines
  rw [hvalues, hlast, hstart, hstop] at hwatch
  rw [hvalues] at habout
  have hchanges : Watch.changes "AX" ["0x0005", "0x0005", "0x0007"] = ["[watch] AX: 0x0005->0x0007"] := by
    decide +kernel
  exact ⟨hadd, hwatched, ⟨_, hfailed, by decide +kernel⟩, hlabel, ⟨lines, hlines, habout.trans hchanges⟩, hwatch⟩

end DosMonitor
