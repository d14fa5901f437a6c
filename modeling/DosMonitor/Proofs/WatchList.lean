import DosMonitor.Proofs.Arguments
import DosMonitor.Proofs.Watching

/-!
# The list of watches

The expressions that are watched are an ordered set. Which ones it has, and in which order, is read off the
history of edits alone (`Watches.OrderedBy`): an expression is watched if an edit has added it that no later one
has undone, and the list goes by the edits that began to watch (`WatchEdit.Begins`). One more edit ends what it
drops and begins what it adds, both in the history (`begins_concat`) and in the list (`mem_apply_iff`).

Main statement (`watches_ordered`): the list of a machine is ordered so whatever is done to the machine, and
each call edits it as it should. What is watched between brackets is the address that is spelled there.
-/

namespace DosMonitor

/-! ## Histories of edits -/

namespace WatchEdit

/-- The edit asks to watch an expression that means something. -/
def Adds (key : String) : WatchEdit → Prop
  | add expr => Watch.key expr = key ∧ ∃ target, WatchTarget.parse expr = .ok target
  | _ => False

/-- The edit ends watching an expression, if it is watched. -/
def Drops (key : String) : WatchEdit → Prop
  | remove expr => Watch.key expr = key
  | clear => True
  | _ => False

/-- The edit at this place of a history has the property. -/
def At (edits : List WatchEdit) (P : WatchEdit → Prop) (i : Nat) : Prop :=
  ∃ edit, edits[i]? = some edit ∧ P edit

/-- At this place of a history an edit begins to watch an expression, and no later one ends it. The
edits before it that have added the expression have all been undone by then. -/
structure Begins (edits : List WatchEdit) (key : String) (i : Nat) : Prop where
  adds : At edits (Adds key) i
  fresh : ∀ j < i, At edits (Adds key) j → ∃ k, j < k ∧ k < i ∧ At edits (Drops key) k
  lasting : ∀ k, i < k → ¬At edits (Drops key) k

variable {edits : List WatchEdit} {edit : WatchEdit} {P : WatchEdit → Prop} {key : String} {i j : Nat}

theorem At.lt (h : At edits P i) : i < edits.length := by
  obtain ⟨edit, hi, -⟩ := h
  exact (List.getElem?_eq_some_iff.1 hi).1

theorem at_concat : At (edits ++ [edit]) P i ↔ At edits P i ∨ i = edits.length ∧ P edit := by
  unfold At
  rcases Nat.lt_trichotomy i edits.length with hlt | rfl | hgt
  · rw [List.getElem?_append_left hlt]
    simp [hlt.ne]
  · simp
  · have hnone : (edits ++ [edit])[i]? = none := List.getElem?_eq_none (by simp; omega)
    simp [hnone, List.getElem?_eq_none hgt.le, hgt.ne']

theorem Adds.not_drops (h : edit.Adds key) : ¬edit.Drops key := by
  cases edit with
  | add expr => exact id
  | _ => exact h.elim

/-- What has been added and not been dropped since has begun at some place. -/
theorem exists_begins (h : At edits (Adds key) j) (hlasting : ∀ k, j < k → ¬At edits (Drops key) k) :
    ∃ i, Begins edits key i := by
  induction j using Nat.strong_induction_on with
  | h j ih =>
    by_cases hfresh : ∀ i < j, At edits (Adds key) i → ∃ k, i < k ∧ k < j ∧ At edits (Drops key) k
    · exact ⟨j, h, hfresh, hlasting⟩
    · push Not at hfresh
      obtain ⟨i, hij, hadds, hkept⟩ := hfresh
      refine ih i hij hadds fun k hik hdrops => ?_
      rcases Nat.lt_trichotomy k j with hlt | rfl | hgt
      · exact hkept k hik hlt hdrops
      · obtain ⟨e, he, hdrops⟩ := hdrops
        obtain ⟨e', he', hadds⟩ := h
        obtain rfl := Option.some.inj (he.symm.trans he')
        exact hadds.not_drops hdrops
      · exact hlasting k hgt hdrops

/-- One more edit ends what it drops, and begins what it adds unless that was watched already. -/
theorem begins_concat : Begins (edits ++ [edit]) key i ↔
    Begins edits key i ∧ ¬edit.Drops key ∨
      i = edits.length ∧ edit.Adds key ∧ ∀ j, ¬Begins edits key j := by
  constructor
  · rintro ⟨hadds, hfresh, hlasting⟩
    rcases at_concat.1 hadds with hold | ⟨rfl, hnew⟩
    · refine .inl ⟨⟨hold, fun j hj hadds' => ?_, fun k hk hdrops => ?_⟩, fun hdrops => ?_⟩
      · obtain ⟨k, hjk, hki, hdrops⟩ := hfresh j hj (at_concat.2 (.inl hadds'))
        rcases at_concat.1 hdrops with hdrops | ⟨rfl, -⟩
        · exact ⟨k, hjk, hki, hdrops⟩
        · exact absurd hold.lt (by omega)
      · exact hlasting k hk (at_concat.2 (.inl hdrops))
      · exact hlasting _ hold.lt (at_concat.2 (.inr ⟨rfl, hdrops⟩))
    · refine .inr ⟨rfl, hnew, fun j hj => ?_⟩
      obtain ⟨k, hjk, hki, hdrops⟩ := hfresh j hj.adds.lt (at_concat.2 (.inl hj.adds))
      rcases at_concat.1 hdrops with hdrops | ⟨rfl, -⟩
      · exact hj.lasting k hjk hdrops
      · exact absurd hki (lt_irrefl _)
  · rintro (⟨h, hkept⟩ | ⟨rfl, hadds, hnone⟩)
    · refine ⟨at_concat.2 (.inl h.adds), fun j hj hadds => ?_, fun k hk hdrops => ?_⟩
      · rcases at_concat.1 hadds with hadds | ⟨rfl, -⟩
        · obtain ⟨k, hjk, hki, hdrops⟩ := h.fresh j hj hadds
          exact ⟨k, hjk, hki, at_concat.2 (.inl hdrops)⟩
        · exact absurd h.adds.lt (by omega)
      · rcases at_concat.1 hdrops with hdrops | ⟨-, hdrops⟩
        · exact h.lasting k hk hdrops
        · exact hkept hdrops
    · refine ⟨at_concat.2 (.inr ⟨rfl, hadds⟩), fun j hj hold => ?_, fun k hk hdrops => ?_⟩
      · rcases at_concat.1 hold with hold | ⟨rfl, -⟩
        · by_contra hkept
          push Not at hkept
          obtain ⟨i, hi⟩ := exists_begins hold fun k hjk hdrops =>
            hkept k hjk hdrops.lt (at_concat.2 (.inl hdrops))
          exact hnone i hi
        · exact absurd hj (lt_irrefl _)
      · rcases at_concat.1 hdrops with hdrops | ⟨rfl, -⟩
        · exact absurd hdrops.lt (by omega)
        · exact absurd hk (lt_irrefl _)

end WatchEdit

/-! ## The list -/

namespace Watches

open WatchEdit (Adds Drops Begins begins_concat)

/-- The expressions of the list are those that the edits have begun to watch, in the order in which they have
done so. -/
structure OrderedBy (edits : List WatchEdit) (ws : Watches) : Prop where
  mem : ∀ key, key ∈ ws.map Watch.expr ↔ ∃ i, Begins edits key i
  order : (ws.map Watch.expr).Pairwise fun a b => ∃ i j, i < j ∧ Begins edits a i ∧ Begins edits b j

variable {edits : List WatchEdit} {edit : WatchEdit} {ws : Watches} {key : String}

/-- An edit keeps the expressions that it does not drop, and adds one that is not there. -/
theorem mem_apply_iff : key ∈ (edit.apply ws).map Watch.expr ↔
    key ∈ ws.map Watch.expr ∧ ¬edit.Drops key ∨ edit.Adds key ∧ key ∉ ws.map Watch.expr := by
  cases edit with
  | add expr =>
    cases hparse : WatchTarget.parse expr with
    | error e =>
      rw [apply_add_of_error hparse]
      simp [Adds, Drops, hparse]
    | ok target =>
      rw [apply_add_of_ok hparse]
      simp only [Adds, Drops, hparse]
      split_ifs with hwatched
      · grind
      · rw [List.map_append]
        grind
  | remove expr =>
    simp only [WatchEdit.apply, Adds, Drops]
    grind
  | clear => simp [WatchEdit.apply, Adds, Drops]

/-- After an edit the list is what is left of it, or has one more expression behind. -/
theorem apply_cases (edit : WatchEdit) (ws : Watches) :
    ((edit.apply ws).map Watch.expr).Sublist (ws.map Watch.expr) ∨
      ∃ key ∉ ws.map Watch.expr, (edit.apply ws).map Watch.expr = ws.map Watch.expr ++ [key] := by
  cases edit with
  | add expr =>
    cases hparse : WatchTarget.parse expr with
    | error e =>
      rw [apply_add_of_error hparse]
      exact .inl (List.Sublist.refl _)
    | ok target =>
      rw [apply_add_of_ok hparse]
      split_ifs with hwatched
      · exact .inl (List.Sublist.refl _)
      · exact .inr ⟨_, hwatched, List.map_append⟩
  | remove expr => exact .inl (List.filter_sublist.map _)
  | clear => exact .inl (List.nil_sublist _)

theorem OrderedBy.apply (h : OrderedBy edits ws) (edit : WatchEdit) :
    OrderedBy (edits ++ [edit]) (edit.apply ws) := by
  have hmem : ∀ key, key ∈ (edit.apply ws).map Watch.expr ↔ ∃ i, Begins (edits ++ [edit]) key i := by
    intro key
    simp only [begins_concat, mem_apply_iff, h.mem]
    grind
  -- what was watched and still is began at the same place
  have hkeep : ∀ {key i}, key ∈ (edit.apply ws).map Watch.expr → Begins edits key i →
      Begins (edits ++ [edit]) key i := by
    intro key i hkey hi
    have hold : key ∈ ws.map Watch.expr := (h.mem key).2 ⟨i, hi⟩
    rcases mem_apply_iff.1 hkey with ⟨-, hkept⟩ | ⟨-, hnew⟩
    · exact begins_concat.2 (.inl ⟨hi, hkept⟩)
    · exact absurd hold hnew
  refine ⟨hmem, ?_⟩
  rcases apply_cases edit ws with hsublist | ⟨new, hnew, heq⟩
  · refine (h.order.sublist hsublist).imp_of_mem fun ha hb ⟨i, j, hij, hi, hj⟩ => ?_
    exact ⟨i, j, hij, hkeep ha hi, hkeep hb hj⟩
  · rw [heq] at hkeep ⊢
    refine List.pairwise_append.2 ⟨?_, List.pairwise_singleton _ _, fun a ha b hb => ?_⟩
    · refine h.order.imp_of_mem fun ha hb ⟨i, j, hij, hi, hj⟩ => ?_
      exact ⟨i, j, hij, hkeep (List.mem_append_left _ ha) hi, hkeep (List.mem_append_left _ hb) hj⟩
    · obtain rfl := List.mem_singleton.1 hb
      obtain ⟨i, hi⟩ := (h.mem a).1 ha
      obtain ⟨j, hj⟩ := (hmem b).1 (heq ▸ List.mem_append_right _ hb)
      refine ⟨i, j, ?_, hkeep (List.mem_append_left _ ha) hi, hj⟩
      -- the new expression begins with the last edit
      rcases begins_concat.1 hj with ⟨hold, -⟩ | ⟨rfl, -⟩
      · exact absurd ((h.mem b).2 ⟨j, hold⟩) hnew
      · exact hi.adds.lt

/-- What counts are the expressions. -/
theorem OrderedBy.congr {ws' : Watches} (h : OrderedBy edits ws)
    (hsame : ws'.map Watch.expr = ws.map Watch.expr) : OrderedBy edits ws' :=
  ⟨hsame ▸ h.mem, hsame ▸ h.order⟩

theorem orderedBy_nil : OrderedBy [] [] :=
  ⟨fun key => by simpa using fun i (hi : Begins [] key i) => absurd hi.adds.lt (Nat.not_lt_zero i), .nil⟩

end Watches

/-! ## Machines -/

namespace Machine

open Watches (OrderedBy)

variable {m : Machine} {edits : List WatchEdit} {expr : String}

/-- What runs changes no expression. -/
theorem watched_of_edit?_none {operation : Operation} (h : operation.edit? = none) :
    (after operation.perform m).watched = m.watched := by
  unfold watched
  rw [(reports_operation h m).watches, List.map_map]
  exact List.map_congr_left fun w _ => Watch.seenAll_expr w _

/-- A list that has been ordered by the edits so far stays ordered by the history. -/
theorem orderedBy_operations (operations : List Operation) (h : OrderedBy edits m.debugger.watches) :
    OrderedBy (edits ++ operations.filterMap Operation.edit?)
      (afterOperations operations m).debugger.watches := by
  induction operations generalizing edits m with
  | nil => exact (List.append_nil edits).symm ▸ h
  | cons operation operations ih =>
    cases hedit : operation.edit? with
    | none =>
      rw [List.filterMap_cons_none hedit]
      exact ih (h.congr (watched_of_edit?_none hedit))
    | some edit =>
      have hnext : OrderedBy (edits ++ [edit]) (after operation.perform m).debugger.watches := by
        rw [(edits_operation hedit m).1]
        exact h.apply edit
      rw [List.filterMap_cons_some hedit, List.append_cons]
      exact ih hnext

/-- Every machine starts without watches. -/
theorem orderedBy_create {config : Config} {home : String} {console : Console}
    (h : create config home console = .ok m) : OrderedBy [] m.debugger.watches := by
  obtain ⟨-, _, -, rfl⟩ := exists_memory_of_create h
  exact Watches.orderedBy_nil

theorem addWatch_eq (expr : String) (m : Machine) :
    addWatch expr m =
      match WatchTarget.parse expr with
      | .ok _ => .ok () (m.withWatches ((WatchEdit.add expr).apply m.debugger.watches))
      | .error e => .error e m := by
  refine (ofExcept_bind (m.debugger.watches.add expr) _ m).trans ?_
  rw [Watches.add_eq]
  cases WatchTarget.parse expr <;> rfl

theorem removeWatch_eq (expr : String) (m : Machine) :
    removeWatch expr m = .ok (decide (Watch.key expr ∈ m.watched))
      (m.withWatches ((WatchEdit.remove expr).apply m.debugger.watches)) := by
  have hfound : ((m.debugger.watches.remove expr).length != m.debugger.watches.length) =
      decide (Watch.key expr ∈ m.watched) := by
    rw [Watches.remove_eq, WatchEdit.apply, Bool.eq_iff_iff, bne_iff_ne, ne_eq,
      List.length_filter_eq_length_iff]
    simp [watched]
  change EStateM.Result.ok ((m.debugger.watches.remove expr).length != m.debugger.watches.length)
    (m.withWatches (m.debugger.watches.remove expr)) = _
  rw [hfound, Watches.remove_eq]

end Machine

/-! ## Addresses between brackets -/

namespace WatchTarget

open Text (IsHex)

variable {p a : List Char} {page address : Nat} {expr : String}

/-- No number holds a colon, or an `S` as in DS:DX. -/
theorem hex_char (h : IsHex p page) : ∀ c ∈ p, c ≠ ':' ∧ c ≠ 'S' := by
  have all : ∀ d : Fin 16, (d.val.digitChar ≠ ':' ∧ d.val.digitChar ≠ 'S') ∧
      d.val.digitChar.toUpper ≠ ':' ∧ d.val.digitChar.toUpper ≠ 'S' := by decide
  have hdigits : ∀ {digits}, Text.Denotes 16 digits page → ∀ c ∈ digits, c ≠ ':' ∧ c ≠ 'S' := by
    intro digits h c hc
    obtain ⟨d, hd, rfl | rfl⟩ := h.isDigitOf hc
    · exact (all ⟨d, hd⟩).1
    · exact (all ⟨d, hd⟩).2
  cases h with
  | bare h => exact hdigits h
  | marked hx h =>
    refine List.forall_mem_cons.2 ⟨by decide, List.forall_mem_cons.2 ⟨?_, hdigits h⟩⟩
    rcases hx with rfl | rfl <;> decide

/-- What stands between brackets is an address or DS:DX. -/
theorem ofCanonical?_brackets {inner : List Char} (hpointer : 'S' ∉ inner) :
    ofCanonical? ('[' :: (inner ++ [']'])) = memory? inner := by
  have hregister : Register.ofName? ('[' :: (inner ++ [']'])) = none := by
    refine List.find?_eq_none.2 fun r _ => ?_
    have hhead : (Text.lower r.name.toList).head? ≠ some '[' := by cases r <;> decide
    rw [Text.sameName_iff]
    intro hsame
    exact hhead (by rw [hsame]; rfl)
  have hdrop : Text.dropLast? ']' (inner ++ [']']) = some inner := Text.dropLast?_eq_some_iff.2 rfl
  have hne : inner ≠ "DS:DX".toList := by
    rintro rfl
    exact hpointer (by decide)
  have hflags : Text.dropStart? "FLAGS.".toList ('[' :: (inner ++ [']'])) = none := rfl
  have hopen : Text.dropStart? ['['] ('[' :: (inner ++ [']'])) = some (inner ++ [']']) := rfl
  unfold ofCanonical?
  rw [hregister]
  dsimp only
  rw [hflags, hopen, Option.bind_some, hdrop]
  exact if_neg hne

theorem memory?_page (hp : IsHex p page) (hpage : page < Text.wordLimit) (ha : IsHex a address)
    (haddress : address < Text.wordLimit) : memory? (p ++ ':' :: a) = some (memory (some page) address) := by
  have hall : ∀ c ∈ p, (c != ':') = true := fun c hc => by simpa using (hex_char hp c hc).1
  have hrest : (p ++ ':' :: a).dropWhile (· != ':') = ':' :: a := by
    rw [List.dropWhile_append_of_pos hall]
    rfl
  have hfront : (p ++ ':' :: a).takeWhile (· != ':') = p := by
    rw [List.takeWhile_append_of_pos hall]
    simp
  unfold memory?
  rw [hrest, hfront, hp.hexNumber? hpage]
  dsimp only
  rw [ha.hexNumber? haddress]
  rfl

theorem memory?_active (ha : IsHex a address) (haddress : address < Text.wordLimit) :
    memory? a = some (memory none address) := by
  have hrest : a.dropWhile (· != ':') = [] := by
    rw [List.dropWhile_eq_nil_iff]
    exact fun c hc => by simpa using (hex_char ha c hc).1
  unfold memory?
  rw [hrest]
  dsimp only
  rw [ha.hexNumber? haddress]
  rfl

/-- Blanks and the case of letters do not matter between brackets. -/
theorem parse_brackets {inner : List Char} {target : WatchTarget}
    (hexpr : Text.squeeze expr.toList = '[' :: (inner ++ [']'])) (hpointer : 'S' ∉ Text.upper inner)
    (hinner : memory? (Text.upper inner) = some target) : parse expr = .ok target := by
  have hcanonical : canonical expr.toList = '[' :: (Text.upper inner ++ [']']) := by
    rw [canonical, hexpr]
    simp [Text.upper]
  unfold parse
  rw [hcanonical, ofCanonical?_brackets hpointer, hinner]

end WatchTarget

open Machine in
/-- **The watched expressions are an ordered set**, kept without blanks and in capitals. Whatever is done to a
machine, they are all different, each has the target that it spells, and they go by the edits that have begun
to watch them. Adding fails where the expression means nothing, and then changes nothing, as does adding one
that is there. Removing tells whether the expression was there, and leaves all others. Addresses between
brackets are those that their numbers spell. -/
theorem watches_ordered :
    (∀ config home console m, create config home console = .ok m → ∀ operations,
      let ws := (afterOperations operations m).debugger.watches
      ws.Keyed ∧ ws.OrderedBy (operations.filterMap Operation.edit?)) ∧
    (∀ (m : Machine) (expr : String),
      let ws := m.debugger.watches
      (∀ e, WatchTarget.parse expr = .error e → addWatch expr m = .error e m) ∧
      (∀ target, WatchTarget.parse expr = .ok target →
        (Watch.key expr ∈ m.watched → addWatch expr m = .ok () m) ∧
        (Watch.key expr ∉ m.watched →
          addWatch expr m = .ok () (m.withWatches (ws ++ [⟨Watch.key expr, target, none⟩])))) ∧
      removeWatch expr m = .ok (decide (Watch.key expr ∈ m.watched))
        (m.withWatches (ws.filter (·.expr ≠ Watch.key expr))) ∧
      clearWatches m = .ok () (m.withWatches [])) ∧
    ∀ (expr : String) p page a address, Text.IsHex p page → page < Text.wordLimit →
      Text.IsHex a address → address < Text.wordLimit →
      (Text.squeeze expr.toList = '[' :: (p ++ ':' :: a ++ [']']) →
        WatchTarget.parse expr = .ok (.memory (some page) address)) ∧
      (Text.squeeze expr.toList = '[' :: (a ++ [']']) →
        WatchTarget.parse expr = .ok (.memory none address)) := by
  refine ⟨fun config home console m hcreate operations => ?_, fun m expr => ⟨?_, ?_, ?_, rfl⟩, ?_⟩
  · exact ⟨keyed_operations operations (keyed_create hcreate),
      orderedBy_operations operations (orderedBy_create hcreate)⟩
  · intro e hparse
    rw [addWatch_eq, hparse]
  · intro target hparse
    rw [addWatch_eq, hparse]
    dsimp only
    rw [Watches.apply_add_of_ok hparse]
    unfold watched
    refine ⟨fun hwatched => ?_, fun hnew => ?_⟩
    · rw [if_pos hwatched]
      rfl
    · rw [if_neg hnew]
  · exact removeWatch_eq expr m
  · intro expr p page a address hp hpage ha haddress
    have hnone : ∀ {s n}, Text.IsHex s n → 'S' ∉ Text.upper s :=
      fun h hs => (WatchTarget.hex_char h.upper _ hs).2 rfl
    refine ⟨fun hexpr => ?_, fun hexpr => ?_⟩
    · have hupper : Text.upper (p ++ ':' :: a) = Text.upper p ++ ':' :: Text.upper a := by simp [Text.upper]
      refine WatchTarget.parse_brackets hexpr ?_ ?_
      · rw [hupper]
        simp [hnone hp, hnone ha]
      · rw [hupper]
        exact WatchTarget.memory?_page hp.upper hpage ha.upper haddress
    · exact WatchTarget.parse_brackets hexpr (hnone ha) (WatchTarget.memory?_active ha.upper haddress)

open Machine in
/-- An expression that is removed and added again comes last. -/
theorem watches_ordered_again :
    let operations : List Operation :=
      [.call (.addWatch "ax"), .call (.addWatch "flags.cf"), .call (.removeWatch "A X"),
        .call (.addWatch " aX")]
    let m := afterOperations operations (standard "" (.ofInput []))
    m.watched = ["FLAGS.CF", "AX"] ∧
      m.debugger.watches.OrderedBy [.add "ax", .add "flags.cf", .remove "A X", .add " aX"] ∧
      addWatch "ax" m = .ok () m ∧
      WatchTarget.parse "[ 0x1f : B 8 ]" = .ok (.memory (some 0x1F) 0xB8) := by
  intro operations m
  obtain ⟨hhistory, hcalls, hbrackets⟩ := watches_ordered
  have hwatched : m.watched = ["FLAGS.CF", "AX"] := by decide +kernel
  have hax : WatchTarget.parse "ax" = .ok (.register .ax) := by decide +kernel
  have hkey : Watch.key "ax" ∈ m.watched := by decide +kernel
  have hpage : Text.IsHex ['0', 'x', '1', 'f'] 0x1F :=
    .marked (.inl rfl) (Text.denotes_of_readUnsigned (by decide) (by decide))
  have haddress : Text.IsHex ['B', '8'] 0xB8 := .bare (Text.denotes_of_readUnsigned (by decide) (by decide))
  exact ⟨hwatched, (hhistory _ _ _ _ (create_standard "" (.ofInput [])) operations).2,
    ((hcalls m "ax").2.1 _ hax).1 hkey,
    (hbrackets "[ 0x1f : B 8 ]" _ _ _ _ hpage (by decide) haddress (by decide)).1 (by decide +kernel)⟩

end DosMonitor
