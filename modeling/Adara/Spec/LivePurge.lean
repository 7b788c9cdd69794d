import Adara.Spec.PurgeSafety

/-! # Which requests lose live data

The container stack is no input of the purge: it only skips the last container of the last
cached day, which is meant to be the current one.  Here the requests are put beside the
containers that are on the stack, in runs where the disk and the stack may change in any way
between two requests. -/

namespace Adara.Spec.Purge

open Adara.Native

/-! ### One request -/

/-- The purge does not get at the container, or leaves it alone. -/
def Spared (s : PurgeState) (dir : String × String) : Prop :=
  OutOfReach ((currentCache s).map (·.1)) s.disk dir.1 dir.2 ∨
    NotPurged dir.2 (s.disk.entries dir.1 dir.2)

/-- The files of the containers on the stack are all there, and those of the runs that have to
    be processed by hand or are not translated. -/
structure Kept (stacked : List (String × String)) (disk disk' : Disk) : Prop where
  live : ∀ dir ∈ stacked, disk'.entries dir.1 dir.2 = disk.entries dir.1 dir.2
  unfinished : ∀ d c run, validatePath c = some run → skipsPurge run (disk.entries d c) = true →
    disk'.entries d c = disk.entries d c

variable {blockSize : Nat}

/-- A run that is not finished is never touched, in reach or not. -/
theorem purgeData_unfinished {s : PurgeState} {requested : Nat} {io : PurgeIO} {d c : String}
    {run : Nat} (hrun : validatePath c = some run)
    (hskip : skipsPurge run (s.disk.entries d c) = true) :
    (purgeData blockSize s requested io).1.disk.entries d c = s.disk.entries d c := by
  refine purgeData_entries (.inr fun run' hrun' => .inl ?_)
  obtain rfl := Option.some.inj (hrun.symm.trans hrun')
  exact hskip

theorem purgeData_kept {s : PurgeState} {stacked : List (String × String)}
    (h : ∀ dir ∈ stacked, Spared s dir) (requested : Nat) (io : PurgeIO) :
    Kept stacked s.disk (purgeData blockSize s requested io).1.disk where
  live dir hdir := purgeData_entries (h dir hdir)
  unfinished _ _ _ hrun hskip := purgeData_unfinished hrun hskip

/-- A request whose walk over the disk goes well. -/
theorem purgeData_walk (s : PurgeState) (requested : Nat) (fails : Fails) :
    (purgeData blockSize s requested ⟨none, fails⟩).1.disk =
      (purgeDays blockSize fails requested (currentCache s) s.disk 0).1 := by
  unfold purgeData
  cases needsCache s <;> rfl

/-- A container that is not spared loses a file to some request. -/
theorem not_kept {s : PurgeState} {stacked : List (String × String)} {dir : String × String}
    (hdir : dir ∈ stacked) (h : ¬ Spared s dir) :
    ∃ requested io, ¬ Kept stacked s.disk (purgeData blockSize s requested io).1.disk := by
  simp only [Spared, not_or] at h
  -- nothing else goes, and the request is larger than what is missing on the disk
  refine ⟨cacheBlocks blockSize (currentCache s) + 1, ⟨none, onlyIn dir.1 dir.2⟩, fun hkept => ?_⟩
  obtain ⟨f, hf, hgone⟩ := @purgeDays_onlyIn blockSize dir.1 dir.2
    (cacheBlocks blockSize (currentCache s) + 1) (currentCache s) s.disk 0 (by omega) h.1 h.2
  rw [← hkept.live dir hdir, purgeData_walk] at hf
  exact hgone (mem_entries.mp hf).1

/-! ### Requests while the SMS runs -/

/-- A request in the background, or anything else that happens to the disk and to the stack of
    containers. -/
inductive StorageOp
  | purge (requested : Nat) (io : PurgeIO)
  | change (disk : Disk) (stacked : List (String × String))

structure StorageRun where
  purgeState : PurgeState
  /-- The containers on the stack. -/
  stacked : List (String × String)
  /-- The files that a purge should have left alone, oldest loss first. -/
  lost : List DiskFile

/-- The file is of a container on the stack, or of a run that is not finished. -/
def isLive (stacked : List (String × String)) (disk : Disk) (f : DiskFile) : Bool :=
  stacked.contains (f.daily, f.container) ||
    (validatePath f.container).any fun run => skipsPurge run (disk.entries f.daily f.container)

def storageStep (blockSize : Nat) (r : StorageRun) : StorageOp → Option StorageRun
  | .purge requested io =>
    let s := (purgeData blockSize r.purgeState requested io).1
    some { r with
      purgeState := s
      lost := r.lost ++ r.purgeState.disk.files.filter fun f =>
        isLive r.stacked r.purgeState.disk f && decide (f ∉ s.disk.files) }
  | .change disk stacked =>
    some { r with purgeState := { r.purgeState with disk }, stacked }

/-- At a request, the containers on the stack are spared. -/
def RequestOk (r : StorageRun) : StorageOp → Prop
  | .purge _ _ => ∀ dir ∈ r.stacked, Spared r.purgeState dir
  | .change _ _ => True

/-- What is kept is not lost. -/
theorem Kept.lost_eq_nil {stacked : List (String × String)} {disk disk' : Disk}
    (h : Kept stacked disk disk') :
    (disk.files.filter fun f => isLive stacked disk f && decide (f ∉ disk'.files)) = [] := by
  simp only [List.filter_eq_nil_iff, Bool.and_eq_true, decide_eq_true_eq, not_and, not_not]
  intro f hf hlive
  have hentries : disk'.entries f.daily f.container = disk.entries f.daily f.container := by
    obtain hmem | hskip := (Bool.or_eq_true _ _).mp hlive
    · exact h.live _ (List.contains_iff_mem.mp hmem)
    · cases hrun : validatePath f.container with
      | none => simp [hrun] at hskip
      | some run => exact h.unfinished _ _ run hrun (by simpa [hrun] using hskip)
  exact (mem_entries.mp (hentries ▸ mem_entries.mpr ⟨hf, rfl, rfl⟩)).1

/-- A request at which the containers on the stack are spared loses nothing. -/
theorem storageStep_lost {r r' : StorageRun} {op : StorageOp} (h : r.lost = [])
    (hok : RequestOk r op) (hstep : storageStep blockSize r op = some r') : r'.lost = [] := by
  cases op with
  | purge requested io =>
    obtain rfl := Option.some.inj hstep
    exact List.append_eq_nil_iff.mpr ⟨h, (purgeData_kept hok requested io).lost_eq_nil⟩
  | change disk stacked =>
    obtain rfl := Option.some.inj hstep
    exact h

/-- All requests keep the files of the containers on the stack, and those of the runs that are
    not finished, if and only if each container on the stack is spared; and runs in which each
    container on the stack is spared at each request never lose such a file. -/
theorem live_kept_iff (blockSize : Nat) :
    (∀ s stacked,
      (∀ requested io, Kept stacked s.disk (purgeData blockSize s requested io).1.disk) ↔
        ∀ dir ∈ stacked, Spared s dir) ∧
    ∀ r ops, r.lost = [] → Runs.along (storageStep blockSize) RequestOk r ops →
      ∀ r' ∈ Runs.run (storageStep blockSize) r ops, r'.lost = [] := by
  refine ⟨fun s stacked => ⟨fun h dir hdir => ?_, purgeData_kept⟩, fun r ops h hok r' hr' => ?_⟩
  · by_contra hspared
    obtain ⟨requested, io, hnot⟩ := @not_kept blockSize s stacked dir hdir hspared
    exact hnot (h requested io)
  · exact Runs.invariant_along (I := fun r => r.lost = [])
      (fun _ _ _ => storageStep_lost) h hok hr'

/-- The disk after a run was started: the container before it is still open for late packets. -/
def startedRun : Disk where
  dailies := ["20240101"]
  containers :=
    [("20240101", "20240101-100000.000000000"), ("20240101", "20240101-110000.000000000-run-7")]
  files :=
    [⟨"20240101", "20240101-100000.000000000", "m00000001-f00000001.adara", 4000⟩,
      ⟨"20240101", "20240101-110000.000000000-run-7", "m00000001-f00000001-run-7.adara", 8000⟩]

/-- With only the container of the run on the stack nothing is lost, whatever is requested. -/
theorem live_kept_iff_run :
    (∀ requested io, Kept [("20240101", "20240101-110000.000000000-run-7")] startedRun
        (purgeData 4096 ⟨startedRun, [], false⟩ requested io).1.disk) ∧
      ∀ requested io, ∀ r' ∈ Runs.run (storageStep 4096)
        ⟨⟨startedRun, [], false⟩, [("20240101", "20240101-110000.000000000-run-7")], []⟩
        [.purge requested io], r'.lost = [] := by
  have hspared : ∀ dir ∈ [("20240101", "20240101-110000.000000000-run-7")],
      Spared ⟨startedRun, [], false⟩ dir := by
    intro dir hdir
    obtain rfl := List.mem_singleton.mp hdir
    exact .inl (.inr (.inr (.inr ⟨by decide, by decide⟩)))
  exact ⟨((live_kept_iff 4096).1 _ _).mpr hspared,
    fun requested io => (live_kept_iff 4096).2 _ _ rfl ⟨hspared, fun _ _ => trivial⟩⟩

/-- A request for one block removes the file that the container below the one of the run is
    still writing. -/
theorem not_live_kept_started :
    ¬ Kept [("20240101", "20240101-110000.000000000-run-7"),
        ("20240101", "20240101-100000.000000000")] startedRun
      (purgeData 4096 ⟨startedRun, [], false⟩ 1 ⟨none, fun _ => false⟩).1.disk := by
  intro hkept
  have hfile := hkept.live ("20240101", "20240101-100000.000000000") (by decide)
  have hgone : (purgeData 4096 ⟨startedRun, [], false⟩ 1 ⟨none, fun _ => false⟩).1.disk.entries
      "20240101" "20240101-100000.000000000" = [] := by
    decide
  rw [hgone] at hfile
  exact absurd hfile (by decide)

end Adara.Spec.Purge
