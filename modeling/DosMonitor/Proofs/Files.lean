import DosMonitor.Host.FileTree
import DosMonitor.Proofs.Labels

/-!
# Files that are read after they were written

A path is followed through directories only, and a write puts a file where no directory was. So a path that has
led to the place of a file still leads there after the write (`follow_put`), and what is read there is what was
written (`read_write`).

Main statement: of a service that keeps files it may be asked that reads give what was saved last
(`FileService.Remembers`), and a tree of files does so at each path (`FileTree.remembers`).
-/

namespace DosMonitor

open Source (bind_eq_ok_iff)

/-! ## The tree -/

namespace FileTree

variable {t t' : FileTree} {place target start : Place} {names : List String} {path : String}
  {contents : List UInt8}

theorem node?_put (t : FileTree) (htarget : target ≠ []) (node : FileNode) (place : Place) :
    (t.put target node).node? place = if place = target then some node else t.node? place := by
  unfold node? put
  by_cases hroot : place = []
  · subst hroot
    simp [Ne.symm htarget]
  · have hsome : place.isEmpty = false := List.isEmpty_eq_false_iff.2 hroot
    simp only [hsome, Bool.false_eq_true, if_false]
    split_ifs with hplace
    · rw [hplace, List.lookup_cons_self]
    · have hne : (place == target) = false := beq_eq_false_iff_ne.2 hplace
      rw [List.lookup_cons, hne]
      exact lookup_filter_ne hplace t.entries

theorem expectDirectory_eq_ok_iff : t.expectDirectory place = .ok () ↔ t.node? place = some .directory := by
  unfold expectDirectory
  split <;> simp_all

/-- A component leads on from a directory. -/
theorem child_ok {name : String} {next : Place} (h : t.child place name = .ok next) :
    t.node? place = some .directory := by
  obtain ⟨_, hdirectory, -⟩ := bind_eq_ok_iff.1 h
  exact expectDirectory_eq_ok_iff.1 hdirectory

/-- Where a component leads to depends on what there is at the place before it, and on nothing else. -/
theorem child_congr (h : t'.node? place = t.node? place) (name : String) :
    t'.child place name = t.child place name := by
  unfold child expectDirectory
  rw [h]

theorem follow_cons (t : FileTree) (start : Place) (name : String) (names : List String) :
    t.follow start (name :: names) = (do
      let next ← t.child start name
      if (t.node? next).isSome then t.follow next names else throw .notFound) := rfl

theorem follow_append (t : FileTree) (start : Place) (names more : List String) :
    t.follow start (names ++ more) = (do
      let place ← t.follow start names
      t.follow place more) := by
  induction names generalizing start with
  | nil => rfl
  | cons name names ih =>
    rw [List.cons_append, follow_cons, follow_cons, bind_assoc]
    refine congrArg _ (funext fun next => ?_)
    split_ifs
    · exact ih next
    · rfl

/-- **A file that is put where no directory is stands in nobody's way.** -/
theorem follow_put (htarget : target ≠ []) (hfile : t.node? target ≠ some .directory)
    (h : t.follow start names = .ok place) (contents : List UInt8) :
    (t.put target (.file contents)).follow start names = .ok place := by
  have hnode := t.node?_put htarget (.file contents)
  induction names generalizing start with
  | nil => exact h
  | cons name names ih =>
    obtain ⟨next, hchild, hrest⟩ := bind_eq_ok_iff.1 h
    split_ifs at hrest with hnext
    have hstart : start ≠ target := by
      rintro rfl
      exact hfile (child_ok hchild)
    have hsame : (t.put target (.file contents)).node? start = t.node? start := by
      rw [hnode, if_neg hstart]
    have hthere : ((t.put target (.file contents)).node? next).isSome := by
      rw [hnode]
      split_ifs
      · rfl
      · exact hnext
    refine bind_eq_ok_iff.2 ⟨next, (child_congr hsame name).trans hchild, ?_⟩
    rw [if_pos hthere]
    exact ih hrest

/-- A name that is no step leads into the directory. -/
theorem child_eq_append {name : String} (hname : isStep name = false) (h : t.child place name = .ok target) :
    target = place ++ [name] := by
  obtain ⟨_, -, h⟩ := bind_eq_ok_iff.1 h
  obtain ⟨hpoint, hpoints⟩ := Bool.or_eq_false_iff.1 hname
  simp only [hpoint, hpoints, Bool.false_eq_true, if_false] at h
  split_ifs at h with hlong
  · cases h
  · exact (Except.ok.inj h).symm

/-- A write that succeeds has found a directory for the file, and no directory in the file's place. -/
theorem write_ok (h : t.write path contents = .ok t') :
    ∃ start names name place target, route path = .ok (start, names ++ [name]) ∧
      endsInSlash path = false ∧ t.follow start names = .ok place ∧ t.child place name = .ok target ∧
      target ≠ [] ∧ t.node? target ≠ some .directory ∧ t' = t.put target (.file contents) := by
  obtain ⟨⟨start, names⟩, hroute, h⟩ := bind_eq_ok_iff.1 h
  obtain ⟨place, hfollow, h⟩ := bind_eq_ok_iff.1 h
  dsimp only at h hfollow
  cases hname : names.getLast? with
  | none =>
    rw [hname] at h
    cases h
  | some name =>
    obtain ⟨front, rfl⟩ := List.getLast?_eq_some_iff.1 hname
    rw [List.dropLast_concat] at hfollow
    rw [hname] at h
    obtain ⟨_, -, h⟩ := bind_eq_ok_iff.1 h
    by_cases hrefused : (endsInSlash path || isStep name) = true
    · rw [if_pos hrefused] at h
      cases h
    · rw [if_neg hrefused] at h
      obtain ⟨hslash, hstep⟩ := Bool.or_eq_false_iff.1 (Bool.eq_false_iff.2 hrefused)
      obtain ⟨target, hchild, h⟩ := bind_eq_ok_iff.1 h
      by_cases hdirectory : t.node? target = some .directory
      · rw [hdirectory] at h
        cases h
      · rw [if_neg (by simpa using hdirectory)] at h
        refine ⟨start, front, name, place, target, hroute, hslash, hfollow, hchild, ?_, hdirectory,
          (Except.ok.inj h).symm⟩
        rw [child_eq_append hstep hchild]
        exact List.append_ne_nil_of_right_ne_nil _ (List.cons_ne_nil _ _)

/-- **What was written is read.** -/
theorem read_write (h : t.write path contents = .ok t') : t'.read path = .ok contents := by
  obtain ⟨start, names, name, place, target, hroute, hslash, hfollow, hchild, htarget, hfile, rfl⟩ :=
    write_ok h
  have hnode := t.node?_put htarget (.file contents)
  have hplace : place ≠ target := by
    rintro rfl
    exact hfile (child_ok hchild)
  have hsame : (t.put target (.file contents)).node? place = t.node? place := by
    rw [hnode, if_neg hplace]
  have hthere : (t.put target (.file contents)).node? target = some (.file contents) := by
    rw [hnode, if_pos rfl]
  have hlast : (t.put target (.file contents)).follow place [name] = .ok target := by
    refine bind_eq_ok_iff.2 ⟨target, (child_congr hsame name).trans hchild, ?_⟩
    rw [hthere]
    rfl
  have hwhole : (t.put target (.file contents)).follow start (names ++ [name]) = .ok target := by
    rw [follow_append]
    exact bind_eq_ok_iff.2 ⟨place, follow_put htarget hfile hfollow contents, hlast⟩
  refine bind_eq_ok_iff.2 ⟨_, hroute, bind_eq_ok_iff.2 ⟨target, ?_, ?_⟩⟩
  · simpa [hslash] using hwhole
  · rw [hthere]
    rfl

end FileTree

/-! ## Services that keep files -/

/-- A service that keeps files: its answer to a request, and the files after it. -/
abbrev FileService (σ : Type) := σ → FileRequest → FileReply × σ

namespace FileService

variable {σ : Type}

/-- The files after so many reads of one path. -/
def reread (service : FileService σ) (path : String) (n : Nat) : σ → σ :=
  (fun files => (service files (.read path)).2)^[n]

/-- What is read at a path is what was saved there last, however often it has been read since. -/
def Remembers (service : FileService σ) (path : String) : Prop :=
  ∀ files contents saved files', service files (.save path contents) = (.ok saved, files') →
    ∀ n found, (service (service.reread path n files') (.read path)).1 = .ok found → found = contents

end FileService

/-- A save that succeeds has written the contents. -/
theorem FileTree.read_of_save {t t' : FileTree} {path : String} {contents saved : List UInt8}
    (h : t.answer (.save path contents) = (.ok saved, t')) : t'.read path = .ok contents := by
  unfold answer save at h
  dsimp only at h
  cases hdirectories : t.ensureDirectories (Path.directories path) with
  | mk made t₁ =>
    rw [hdirectories] at h
    cases made with
    | error fault => cases h
    | ok _ =>
      dsimp only at h
      cases hwrite : t₁.write path contents with
      | error fault =>
        rw [hwrite] at h
        cases h
      | ok t₂ =>
        rw [hwrite] at h
        obtain ⟨-, rfl⟩ := Prod.mk.inj h
        exact read_write hwrite

/-- **A tree of files remembers what was saved.** -/
theorem FileTree.remembers (path : String) : FileService.Remembers answer path := by
  intro t contents saved t' hsave n found hfound
  -- reads leave the tree as it is
  have hsame : FileService.reread answer path n t' = t' := Function.iterate_fixed rfl n
  rw [hsame] at hfound
  exact (Except.ok.inj ((FileTree.read_of_save hsave).symm.trans hfound)).symm

end DosMonitor
