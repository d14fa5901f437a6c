import DosMonitor.Proofs.Files
import DosMonitor.Proofs.Transfers

/-!
# Disks that share a file

What a disk holds outlasts it in its file, from which any other disk can take it, whatever its size: what is too
long is cut off, and what is missing is zero.

Reads, writes, loads and saves are calls (`DiskCall`), which are made of several disks at once, in any order,
with one service that keeps their files (`Drives`). Every call keeps the paths and the sizes of the disks
(`Drives.alike_after`), and calls other than saves leave the file as it was but for reading it
(`Drives.files_after`).

Main statement (`Drives.copied_exactly`): what one disk has saved another one loads. Which sectors a disk has is
said by its size alone (`Disk.Spans`). A disk that keeps its size as a number beside its sectors does the same
in every call (`SizedDisk.follows_perform`).
-/

namespace DosMonitor

theorem Atomic.map {ε σ α β : Type} {x : EStateM ε σ α} {s : σ} (h : Atomic x s) (f : α → β) :
    Atomic (f <$> x) s := by
  intro e s' hx
  change EStateM.map f x s = _ at hx
  unfold EStateM.map at hx
  cases hr : x s with
  | ok a t =>
    rw [hr] at hx
    cases hx
  | error e' t =>
    rw [hr] at hx
    obtain ⟨rfl, rfl⟩ := EStateM.Result.error.inj hx
    exact h _ _ hr

/-- Whether an action has come to a value. -/
def succeeded {ε σ α : Type} : EStateM.Result ε σ α → Bool
  | .ok .. => true
  | .error .. => false

theorem exists_of_succeeded {ε σ α : Type} {r : EStateM.Result ε σ α} (h : succeeded r = true) :
    ∃ a s, r = .ok a s := by
  cases r with
  | ok a s => exact ⟨a, s, rfl⟩
  | error e s => cases h

/-- What can be asked of a disk. -/
inductive DiskCall
  | read (sector : Int)
  | write (sector : Int) (value : Nat)
  | load
  | save

inductive DiskReply
  | byte (b : UInt8)
  | written
  | count (n : Nat)

namespace Disk

variable {d d' source : Disk} {host : Host}

/-! ## One disk -/

/-- The disk has so many sectors. They can be read and written, and all others are refused. -/
structure Spans (d : Disk) (count : Nat) : Prop where
  size : d.size = count
  inside : ∀ sector : Int, 0 ≤ sector → sector < count →
    (∃ b, d.read sector = .ok b) ∧
      ∀ b : UInt8, ∃ d', write sector b.toNat d = .ok () d' ∧ d'.read sector = .ok b
  outside : ∀ sector : Int, sector < 0 ∨ count ≤ sector →
    d.read sector = .error (.invalidSector sector count) ∧
      ∀ value, write sector value d = .error (.invalidSector sector count) d

theorem position_of_outside {sector : Int} (h : sector < 0 ∨ d.size ≤ sector) :
    d.position sector = .error (.invalidSector sector d.size) := by
  rw [position, if_pos (by omega)]

theorem spans (d : Disk) : d.Spans d.size where
  size := rfl
  inside sector hnonneg hlt := by
    obtain ⟨i, rfl⟩ := Int.eq_ofNat_of_zero_le hnonneg
    have hi : i < d.size := by omega
    have hcell : i < d.blocks.size := hi
    refine ⟨⟨d.blocks[i], read_eq_ok_iff.2 (Array.getElem?_eq_getElem hcell)⟩,
      fun b => ⟨d.put i b, ?_, read_put_self hi b⟩⟩
    unfold write
    rw [position_of_lt hi]
    dsimp only
    rw [if_pos b.toNat_lt, UInt8.ofNat_toNat]
  outside sector h := by
    have hposition := position_of_outside h
    refine ⟨?_, fun value => ?_⟩
    · rw [read, hposition]
      rfl
    · unfold write
      rw [hposition]

/-- The disk holds what another one holds, as far as both have sectors, and zeros behind that. -/
structure CopyOf (d source : Disk) : Prop where
  common : ∀ i : Nat, i < source.size → i < d.size → d.read i = source.read i
  rest : ∀ i : Nat, source.size ≤ i → i < d.size → d.read i = .ok 0
  whole : source.size = d.size → d.blocks = source.blocks

theorem getElem?_fit {size i : Nat} (contents : List UInt8) (hi : i < size) :
    (fit size contents)[i]? = some (contents[i]?.getD 0) := by
  unfold fit
  rw [List.getElem?_toArray]
  by_cases hcontents : i < contents.length
  · rw [List.getElem?_append_left (by rw [List.length_take]; omega), List.getElem?_take_of_lt hi,
      List.getElem?_eq_getElem hcontents]
    rfl
  · rw [List.getElem?_append_right (by rw [List.length_take]; omega), List.getElem?_replicate,
      List.length_take, if_pos (by omega), List.getElem?_eq_none (by omega)]
    rfl

/-- Contents of the right length are taken as they are. -/
theorem fit_length (contents : List UInt8) : fit contents.length contents = contents.toArray := by
  simp [fit]

theorem copyOf_fit (d source : Disk) :
    CopyOf { d with blocks := fit d.size source.blocks.toList } source := by
  let copy : Disk := { d with blocks := fit d.size source.blocks.toList }
  have hsize : copy.size = d.size := size_fit ..
  have hsector : ∀ i < d.size, copy.sector? i = some ((source.sector? i).getD 0) := fun i hi => by
    rw [sector?, getElem?_fit _ hi, Array.getElem?_toList]
    rfl
  refine ⟨fun i hsource hi => ?_, fun i hsource hi => ?_, fun heq => ?_⟩
  · obtain ⟨b, hb⟩ := ((spans source).inside i (by omega) (by omega)).1
    rw [hb, read_eq_ok_iff]
    rw [read_eq_ok_iff] at hb
    rw [hsector i (hsize ▸ hi), hb]
    rfl
  · have hnone : source.sector? i = none := Array.getElem?_eq_none hsource
    rw [read_eq_ok_iff, hsector i (hsize ▸ hi), hnone]
    rfl
  · have hlength : d.size = source.blocks.toList.length := hsize.symm.trans heq.symm
    change fit d.size source.blocks.toList = source.blocks
    rw [hlength, fit_length]

/-- Two disks at the same path, with as many sectors. -/
structure Alike (d d' : Disk) : Prop where
  path : d'.path = d.path
  size : d'.size = d.size

instance : Std.Refl Alike :=
  ⟨fun _ => ⟨rfl, rfl⟩⟩

instance : IsTrans Disk Alike :=
  ⟨fun _ _ _ h h' => ⟨h'.path.trans h.path, h'.size.trans h.size⟩⟩

theorem reads_inspect {α : Type} (look : Disk → Except DiskError α) : Reads (inspect look) := by
  intro d
  unfold inspect
  cases look d <;> rfl

theorem atomic_write (sector : Int) (value : Nat) (d : Disk) : Atomic (write sector value) d := by
  intro e d' h
  unfold write at h
  split at h
  · exact (EStateM.Result.error.inj h).2.symm
  · split_ifs at h
    exact (EStateM.Result.error.inj h).2.symm

theorem alike_write (sector : Int) (value : Nat) (d : Disk) :
    d.Alike (endState (write sector value d)) := by
  refine ⟨?_, size_write sector value d⟩
  unfold write
  split
  · rfl
  · split_ifs <;> rfl

theorem alike_load (host : Host) (d : Disk) : d.Alike (endState (load host d)) := by
  refine ⟨?_, size_load host d⟩
  unfold load
  split <;> rfl

end Disk

namespace DiskCall

def perform (host : Host) : DiskCall → DiskM DiskReply
  | read sector => .byte <$> Disk.inspect (·.read sector)
  | write sector value => (fun _ => .written) <$> Disk.write sector value
  | load => .count <$> Disk.load host
  | save => .count <$> Disk.save host

/-- What a call asks of the host, if anything. -/
def request? (d : Disk) : DiskCall → Option FileRequest
  | load => some (.read d.path)
  | save => some d.saveRequest
  | _ => none

/-- A call keeps the path and the size of the disk. -/
theorem alike_perform (host : Host) (c : DiskCall) (d : Disk) :
    d.Alike (endState (c.perform host d)) := by
  cases c with
  | read sector => exact (Within.of_eq (Disk.reads_inspect _)).map _ |>.single d
  | write sector value => exact (Within.map _ fun d => .single (Disk.alike_write sector value d)).single d
  | load => exact (Within.map _ fun d => .single (Disk.alike_load host d)).single d
  | save => exact (Within.of_eq (Disk.reads_save host)).map _ |>.single d

/-- A call that fails leaves the disk as it was. -/
theorem atomic_perform (host : Host) (c : DiskCall) (d : Disk) : Atomic (c.perform host) d := by
  cases c with
  | read sector => exact ((Disk.reads_inspect _).atomic d).map _
  | write sector value => exact (Disk.atomic_write sector value d).map _
  | load => exact (Disk.atomic_load host d).map _
  | save => exact ((Disk.reads_save host).atomic d).map _

end DiskCall

/-! ## A disk with its size beside it -/

/-- A disk that keeps the number of its sectors beside the sectors, and looks at these where it has checked
the number. -/
structure SizedDisk where
  path : String
  size : Nat
  blocks : Array UInt8

def Disk.sized (d : Disk) : SizedDisk :=
  ⟨d.path, d.size, d.blocks⟩

namespace SizedDisk

/-- The position of a sector by the size alone. -/
def position (d : SizedDisk) (sector : Int) : Except DiskError Nat :=
  if sector < 0 ∨ d.size ≤ sector.toNat then .error (.invalidSector sector d.size)
  else .ok sector.toNat

/-- The value of a sector. One that the size admits and that is not there is a trap. -/
def read (sector : Int) : WordM DiskError SizedDisk UInt8 := fun d =>
  match d.position sector with
  | .error e => .error (.refused e) d
  | .ok i => Words.cell d.blocks i d

def write (sector : Int) (value : Nat) : WordM DiskError SizedDisk Unit := fun d =>
  match d.position sector with
  | .error e => .error (.refused e) d
  | .ok i =>
    if value < 0x100 then
      match d.blocks[i]? with
      | some _ => .ok () { d with blocks := d.blocks.setIfInBounds i (UInt8.ofNat value) }
      | none => .error .trap d
    else .error (.refused (.invalidValue value)) d

def load (host : Host) : WordM DiskError SizedDisk Nat := fun d =>
  match host (.read d.path) with
  | .error fault => .error (.refused (.host d.path fault)) d
  | .ok contents => .ok (min contents.length d.size) { d with blocks := Disk.fit d.size contents }

def save (host : Host) : WordM DiskError SizedDisk Nat := fun d =>
  match host (.save d.path d.blocks.toList) with
  | .error fault => .error (.refused (.host d.path fault)) d
  | .ok _ => .ok d.blocks.size d

def perform (host : Host) : DiskCall → WordM DiskError SizedDisk DiskReply
  | .read sector => .byte <$> read sector
  | .write sector value => (fun _ => .written) <$> write sector value
  | .load => .count <$> load host
  | .save => .count <$> save host

variable {host : Host}

/-- The same ending as on the disk without a size of its own, and so no trap. -/
def Follows {α : Type} (x : WordM DiskError SizedDisk α) (y : DiskM α) : Prop :=
  ∀ d : Disk, x d.sized = mapEnd Disk.sized (refusing (y d))

theorem Follows.map {α β : Type} {x : WordM DiskError SizedDisk α} {y : DiskM α} (h : Follows x y)
    (f : α → β) : Follows (f <$> x) (f <$> y) := by
  intro d
  change EStateM.map f x d.sized = mapEnd Disk.sized (refusing (EStateM.map f y d))
  unfold EStateM.map
  rw [h d]
  cases y d <;> rfl

/-- A sector that has been checked is there. -/
theorem getElem?_blocks {d : Disk} {sector : Int} {i : Nat} (h : d.position sector = .ok i) :
    ∃ b, d.blocks[i]? = some b :=
  ⟨_, Array.getElem?_eq_getElem (Disk.position_eq_ok_iff.1 h).1⟩

theorem follows_read (sector : Int) : Follows (read sector) (Disk.inspect (·.read sector)) := by
  intro d
  unfold read Disk.inspect Disk.read
  rw [show d.sized.position sector = d.position sector from rfl]
  dsimp only
  cases hposition : d.position sector with
  | error e => rfl
  | ok i =>
    obtain ⟨b, hb⟩ := getElem?_blocks hposition
    have hcell : (Words.cell d.sized.blocks i : WordM DiskError SizedDisk UInt8) d.sized = .ok b d.sized :=
      Words.cell_ok hb
    dsimp only [bind, Except.bind]
    rw [hcell, hb]
    rfl

theorem follows_write (sector : Int) (value : Nat) :
    Follows (write sector value) (Disk.write sector value) := by
  intro d
  unfold write Disk.write
  rw [show d.sized.position sector = d.position sector from rfl]
  cases hposition : d.position sector with
  | error e => rfl
  | ok i =>
    obtain ⟨b, hb⟩ := getElem?_blocks hposition
    have hcell : d.sized.blocks[i]? = some b := hb
    dsimp only
    split_ifs
    · rw [hcell]
      have hsize : (d.put i (UInt8.ofNat value)).size = d.size := Disk.size_put ..
      simp only [refusing, mapEnd_ok, Disk.sized, hsize]
      rfl
    · rfl

theorem follows_load (host : Host) : Follows (load host) (Disk.load host) := by
  intro d
  unfold load Disk.load
  rw [show d.sized.path = d.path from rfl]
  cases host (.read d.path) with
  | error fault => rfl
  | ok contents =>
    have hsize : Disk.size { d with blocks := Disk.fit d.size contents } = d.size := Disk.size_fit ..
    simp only [refusing, mapEnd_ok, Disk.sized, hsize]

theorem follows_save (host : Host) : Follows (save host) (Disk.save host) := by
  intro d
  unfold save Disk.save
  rw [show FileRequest.save d.sized.path d.sized.blocks.toList = d.saveRequest from rfl]
  cases host d.saveRequest <;> rfl

/-- **No sector is missed**, and the size is that of the sectors after each call. -/
theorem follows_perform (host : Host) (c : DiskCall) : Follows (perform host c) (c.perform host) := by
  cases c with
  | read sector => exact (follows_read sector).map _
  | write sector value => exact (follows_write sector value).map _
  | load => exact (follows_load host).map _
  | save => exact (follows_save host).map _

end SizedDisk

/-! ## Several disks -/

/-- Disks and the files that they are kept in. -/
structure Drives (ι σ : Type) where
  disk : ι → Disk
  /-- The files, in the form in which the service keeps them. -/
  files : σ

namespace Drives

variable {ι σ : Type} {service : FileService σ} {path : String} {i j : ι} {c : DiskCall}
  {s s' : Drives ι σ} {reply : DiskReply}

/-- The files after the request of a call, if it makes one. -/
def filesAfter (service : FileService σ) (i : ι) (c : DiskCall) (s : Drives ι σ) : σ :=
  match c.request? (s.disk i) with
  | some request => (service s.files request).2
  | none => s.files

/-- A call that is no save reads the file at most. -/
theorem filesAfter_eq (service : FileService σ) (hpath : (s.disk i).path = path) (hc : c ≠ .save) :
    ∃ n, s.filesAfter service i c = service.reread path n s.files := by
  subst hpath
  cases c with
  | read sector => exact ⟨0, rfl⟩
  | write sector value => exact ⟨0, rfl⟩
  | load => exact ⟨1, rfl⟩
  | save => exact absurd rfl hc

variable [DecidableEq ι]

/-- Makes a call of one of the disks, for which the service answers. -/
def call (service : FileService σ) (i : ι) (c : DiskCall) : EStateM DiskError (Drives ι σ) DiskReply :=
  fun s => mapEnd (fun d => ⟨Function.update s.disk i d, s.filesAfter service i c⟩)
    (c.perform (fun request => (service s.files request).1) (s.disk i))

/-- The disks after some calls, of which each may have failed. -/
def after (service : FileService σ) (calls : List (ι × DiskCall)) (s : Drives ι σ) : Drives ι σ :=
  calls.foldl (fun s c => endState (call service c.1 c.2 s)) s

theorem disk_call (service : FileService σ) (i : ι) (c : DiskCall) (s : Drives ι σ) :
    (endState (call service i c s)).disk = Function.update s.disk i
      (endState (c.perform (fun request => (service s.files request).1) (s.disk i))) := by
  unfold call
  cases c.perform (fun request => (service s.files request).1) (s.disk i) <;> rfl

theorem files_call (service : FileService σ) (i : ι) (c : DiskCall) (s : Drives ι σ) :
    (endState (call service i c s)).files = s.filesAfter service i c := by
  unfold call
  cases c.perform (fun request => (service s.files request).1) (s.disk i) <;> rfl

/-- A call keeps the paths and the sizes. -/
theorem alike_call (service : FileService σ) (i : ι) (c : DiskCall) (s : Drives ι σ) (l : ι) :
    (s.disk l).Alike ((endState (call service i c s)).disk l) := by
  rw [disk_call]
  by_cases hl : l = i
  · subst hl
    rw [Function.update_self]
    exact c.alike_perform _ _
  · rw [Function.update_of_ne hl]
    exact ⟨rfl, rfl⟩

/-- Calls keep the paths and the sizes. -/
theorem alike_after (service : FileService σ) (calls : List (ι × DiskCall)) (s : Drives ι σ) (l : ι) :
    (s.disk l).Alike ((s.after service calls).disk l) := by
  induction calls generalizing s with
  | nil => exact ⟨rfl, rfl⟩
  | cons c calls ih => exact IsTrans.trans _ _ _ (alike_call service c.1 c.2 s l) (ih _)

/-- Calls without a save leave the file as it was, but for reading it. -/
theorem files_after (service : FileService σ) {calls : List (ι × DiskCall)}
    (hpath : ∀ l, (s.disk l).path = path) (hcalls : ∀ c ∈ calls, c.2 ≠ .save) :
    ∃ n, (s.after service calls).files = service.reread path n s.files := by
  induction calls generalizing s with
  | nil => exact ⟨0, rfl⟩
  | cons c calls ih =>
    obtain ⟨hc, hcalls⟩ := List.forall_mem_cons.1 hcalls
    obtain ⟨n, hfirst⟩ := filesAfter_eq service (hpath c.1) hc
    obtain ⟨k, hrest⟩ := ih (fun l => (alike_call service c.1 c.2 s l).path.trans (hpath l)) hcalls
    refine ⟨k + n, hrest.trans ?_⟩
    rw [files_call, hfirst]
    exact (Function.iterate_add_apply ..).symm

/-- A call that fails changes no disk. -/
theorem disk_of_error {e : DiskError} (h : call service i c s = .error e s') : s'.disk = s.disk := by
  unfold call at h
  cases hc : c.perform (fun request => (service s.files request).1) (s.disk i) with
  | ok a d =>
    rw [hc] at h
    cases h
  | error e' d =>
    rw [hc] at h
    obtain ⟨-, rfl⟩ := EStateM.Result.error.inj h
    rw [c.atomic_perform _ _ _ _ hc]
    exact Function.update_eq_self i s.disk

/-- A save that succeeds has written all sectors of the disk to its file. -/
theorem save_ok (h : call service i .save s = .ok reply s') :
    reply = .count (s.disk i).size ∧ s'.disk = s.disk ∧
      ∃ saved, service s.files (s.disk i).saveRequest = (.ok saved, s'.files) := by
  change mapEnd _ (EStateM.map DiskReply.count (Disk.save _) (s.disk i)) = _ at h
  unfold EStateM.map Disk.save at h
  cases hservice : service s.files (s.disk i).saveRequest with
  | mk answer files =>
    dsimp only at h
    rw [hservice] at h
    cases answer with
    | error fault => cases h
    | ok saved =>
      obtain ⟨rfl, rfl⟩ := EStateM.Result.ok.inj h
      refine ⟨rfl, Function.update_eq_self i s.disk, saved, ?_⟩
      change _ = (_, (service s.files (s.disk i).saveRequest).2)
      rw [hservice]

/-- A load that succeeds has taken what is read at the path. -/
theorem load_ok (h : call service i .load s = .ok reply s') :
    ∃ found, (service s.files (.read (s.disk i).path)).1 = .ok found ∧
      reply = .count (min found.length (s.disk i).size) ∧
      s'.disk i = { s.disk i with blocks := Disk.fit (s.disk i).size found } := by
  change mapEnd _ (EStateM.map DiskReply.count (Disk.load _) (s.disk i)) = _ at h
  unfold EStateM.map Disk.load at h
  dsimp only at h
  cases hservice : (service s.files (.read (s.disk i).path)).1 with
  | error fault =>
    rw [hservice] at h
    cases h
  | ok found =>
    rw [hservice] at h
    obtain ⟨rfl, rfl⟩ := EStateM.Result.ok.inj h
    exact ⟨found, rfl, rfl, Function.update_self ..⟩

/-- **What one disk has saved another one loads**, with other calls before and in between. Each disk keeps the
sectors that it started with, and a call that fails changes no disk. -/
theorem copied_exactly (hservice : service.Remembers path) (start : Drives ι σ)
    (hpath : ∀ l, (start.disk l).path = path) (before between : List (ι × DiskCall))
    (hbetween : ∀ c ∈ between, c.2 ≠ .save) (i j : ι) :
    (∀ l, ((start.after service before).disk l).Spans (start.disk l).size) ∧
      (∀ (s : Drives ι σ) l c e s', call service l c s = .error e s' → s'.disk = s.disk) ∧
      (∀ host c, SizedDisk.Follows (SizedDisk.perform host c) (c.perform host)) ∧
      ∀ saved s', call service i .save (start.after service before) = .ok saved s' →
        saved = .count (start.disk i).size ∧ s'.disk = (start.after service before).disk ∧
          ∀ loaded s'', call service j .load (s'.after service between) = .ok loaded s'' →
            loaded = .count (min (start.disk i).size (start.disk j).size) ∧
              (s''.disk j).Spans (start.disk j).size ∧
              (s''.disk j).CopyOf ((start.after service before).disk i) := by
  have halike : ∀ l, (start.disk l).Alike ((start.after service before).disk l) :=
    alike_after service before start
  refine ⟨fun l => (halike l).size ▸ Disk.spans _, fun _ _ _ _ _ => disk_of_error,
    SizedDisk.follows_perform, fun saved s' hsave => ?_⟩
  obtain ⟨rfl, hdisk, contents, hsaved⟩ := save_ok hsave
  refine ⟨congrArg _ (halike i).size, hdisk, fun loaded s'' hload => ?_⟩
  have hlater : ∀ l, (start.disk l).Alike ((s'.after service between).disk l) := fun l =>
    IsTrans.trans _ _ _ (hdisk ▸ halike l) (alike_after service between s' l)
  obtain ⟨found, hfound, rfl, hj⟩ := load_ok hload
  obtain ⟨n, hfiles⟩ := files_after (s := s') service
    (fun l => hdisk ▸ (halike l).path.trans (hpath l)) hbetween
  have hsame : found = ((start.after service before).disk i).blocks.toList := by
    rw [hfiles, (hlater j).path, hpath] at hfound
    unfold Disk.saveRequest at hsaved
    rw [(halike i).path, hpath] at hsaved
    exact hservice _ _ _ _ hsaved n found hfound
  subst hsame
  have hcopy := Disk.copyOf_fit ((s'.after service between).disk j) ((start.after service before).disk i)
  rw [← hj] at hcopy
  have hsize : (s''.disk j).size = (start.disk j).size := by
    rw [hj]
    exact (Disk.size_fit ..).trans (hlater j).size
  refine ⟨?_, hsize ▸ Disk.spans _, hcopy⟩
  rw [(hlater j).size, Array.length_toList]
  exact congrArg (fun size => DiskReply.count (min size _)) (halike i).size

/-- A disk of three sectors is copied to one of five, whose own load has failed before. -/
theorem copied_exactly_larger :
    let start : Drives Bool FileTree := ⟨fun l => .blank (if l then 3 else 5) "disk" "data", .empty⟩
    let written := start.after FileTree.answer [(true, .write 1 0x41), (false, .load)]
    ∃ s' s'', call FileTree.answer true .save written = .ok (.count 3) s' ∧
      call FileTree.answer false .load (s'.after FileTree.answer [(false, .write 4 9), (true, .load)]) =
        .ok (.count 3) s'' ∧
      (s''.disk false).Spans 5 ∧ (s''.disk false).CopyOf (written.disk true) := by
  intro start written
  obtain ⟨-, -, -, h⟩ := copied_exactly (FileTree.remembers "data/.disk") start (by decide +kernel)
    [(true, .write 1 0x41), (false, .load)] [(false, .write 4 9), (true, .load)] (by simp) true false
  have hsaves : succeeded (call FileTree.answer true .save written) = true := by
    decide +kernel +zetaReduce
  have hloads : succeeded (call FileTree.answer false .load
      ((endState (call FileTree.answer true .save written)).after FileTree.answer
        [(false, .write 4 9), (true, .load)])) = true := by
    decide +kernel +zetaReduce
  obtain ⟨saved, s', hsave⟩ := exists_of_succeeded hsaves
  rw [hsave, endState_ok] at hloads
  obtain ⟨loaded, s'', hload⟩ := exists_of_succeeded hloads
  obtain ⟨rfl, -, h⟩ := h _ _ hsave
  obtain ⟨rfl, h⟩ := h _ _ hload
  exact ⟨s', s'', hsave, hload, h⟩

end Drives

end DosMonitor
