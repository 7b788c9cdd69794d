import Adara.ForStd.Runs
import Adara.Native.BlockAccount
import Adara.Spec.LivePurge
import Adara.Spec.PurgeCount

/-! # The blocks in use

The account is exact when the counter of blocks in use, with what the background thread has not
reported yet, is the sum over the files that were counted and are on the disk.  A run keeps it
exact if what is counted is what is purged: the saved files of a scanned container have to round
to as many blocks together as one by one, and a purge may only get at files that were counted. -/

namespace Adara.Spec.BlockAccount

open Adara.Native Adara.Spec.Purge
open Adara.Native.BlockAccount (Op init step)

variable {blockSize : Nat} {old : String → Bool}

/-- The blocks of the counted files that are on the disk. -/
def accountedBlocks (blockSize : Nat) (s : BlockAccount) : Nat :=
  ((s.accounted.filter (· ∈ s.purgeState.disk.files)).map fun f => blocksOf blockSize f.size).sum

/-- The counter agrees with the counted files, and what was purged can be subtracted. -/
structure Exact (blockSize : Nat) (s : BlockAccount) : Prop where
  used : s.blocksUsed + s.scannedBlocks = accountedBlocks blockSize s + s.purgedBlocks
  purged : s.purgedBlocks ≤ s.blocksUsed
  idle : s.ioActive = false → s.blocksUsed = accountedBlocks blockSize s

/-! ### The condition -/

/-- The saved files of the container round to as many blocks together as one by one. -/
def RoundsAlike (blockSize : Nat) (unreadable : Fails) (disk : Disk) (dir : String × String) :
    Prop :=
  blocksOf blockSize ((importedAs .saved unreadable disk dir.1 dir.2).map (·.size)).sum =
    ((importedAs .saved unreadable disk dir.1 dir.2).map fun f => blocksOf blockSize f.size).sum

/-- What the steps of a run have to meet. -/
def StepOk (blockSize : Nat) (old : String → Bool) (s : BlockAccount) : Op → Prop
  | .create _ c => old c = false
  | .write _ | .leave _ => True
  | .terminate f => s.blocksUsed + blocksOf blockSize f.size < 2 ^ 64
  | .scan unreadable =>
    (∀ dir ∈ scannedContainers old s.purgeState.disk,
      RoundsAlike blockSize unreadable s.purgeState.disk dir) ∧
    ((scannedContainers old s.purgeState.disk).map
      (containerBlocks blockSize unreadable s.purgeState.disk)).sum < 2 ^ 64
  | .purge _ _ =>
    ∀ f ∈ s.purgeState.disk.files, f.isData = true →
      f ∈ s.accounted ∨ Spared s.purgeState (f.daily, f.container)
  | .ioCompleted reads => reads = true ∧ s.blocksUsed + s.scannedBlocks < 2 ^ 64

instance (disk : Disk) (names : List String) (d c : String) :
    Decidable (OutOfReach names disk d c) := by
  unfold OutOfReach
  infer_instance

instance (run : Nat) (entries : List DiskFile) (f : DiskFile) :
    Decidable (Removable run entries f) := by
  unfold Removable
  infer_instance

instance (c : String) (entries : List DiskFile) : Decidable (NotPurged c entries) :=
  decidable_of_iff (∀ run ∈ validatePath c,
      skipsPurge run entries = true ∨ ∀ f ∈ entries, ¬ Removable run entries f) Iff.rfl

instance (s : PurgeState) (dir : String × String) : Decidable (Spared s dir) := by
  unfold Spared
  infer_instance

instance (unreadable : Fails) (disk : Disk) (dir : String × String) :
    Decidable (RoundsAlike blockSize unreadable disk dir) := by
  unfold RoundsAlike
  infer_instance

instance (s : BlockAccount) (op : Op) : Decidable (StepOk blockSize old s op) := by
  cases op <;> unfold StepOk <;> infer_instance

/-! ### The invariant -/

/-- Where the background thread is. -/
def Phase (s : BlockAccount) : Prop :=
  if s.ioActive then
    -- the scan has not ended, has, or a purge has
    s.event = 0 ∧ s.scanned = false ∧ s.scannedBlocks = 0 ∧ s.purgedBlocks = 0 ∨
    s.event = ioInitial ∧ s.scanned = true ∧ s.purgedBlocks = 0 ∨
    s.event = ioDone ∧ s.scanned = true ∧ s.scannedBlocks = 0
  else s.event = 0 ∧ s.scanned = true ∧ s.scannedBlocks = 0 ∧ s.purgedBlocks = 0

/-- What every step preserves that meets the condition. -/
structure Books (blockSize : Nat) (old : String → Bool) (s : BlockAccount) : Prop where
  tree : Tree s.purgeState.disk
  cache : CacheOk s.purgeState.disk s.purgeState.dailyCache
  paths : (s.purgeState.disk.files.map DiskFile.path).Nodup
  phase : Phase s
  nodup : s.accounted.Nodup
  there : s.accounted ⊆ s.purgeState.disk.files
  data : ∀ f ∈ s.accounted, f.isData = true
  /-- A file that is open is data, on the disk, and not counted. -/
  opened : ∀ f ∈ s.openFiles, f ∈ s.purgeState.disk.files ∧ f.isData = true ∧ f ∉ s.accounted
  /-- Only containers made since the start are counted before the scan. -/
  made : ∀ dir ∈ s.made, old dir.2 = false
  own : ∀ f ∈ s.openFiles, (f.daily, f.container) ∈ s.made
  counted : s.scanned = false → ∀ f ∈ s.accounted, (f.daily, f.container) ∈ s.made
  used : s.blocksUsed + s.scannedBlocks =
    (s.accounted.map fun f => blocksOf blockSize f.size).sum + s.purgedBlocks
  width : s.blocksUsed < 2 ^ 64

/-- What is counted is on the disk, so the sum is over all of it. -/
theorem Books.accountedBlocks_eq {s : BlockAccount} (h : Books blockSize old s) :
    accountedBlocks blockSize s = (s.accounted.map fun f => blocksOf blockSize f.size).sum := by
  have hall : s.accounted.filter (· ∈ s.purgeState.disk.files) = s.accounted :=
    List.filter_eq_self.mpr fun f hf => decide_eq_true (h.there hf)
  rw [accountedBlocks, hall]

theorem Books.exact {s : BlockAccount} (h : Books blockSize old s) : Exact blockSize s := by
  have hphase := h.phase
  have hused := h.used
  rw [← h.accountedBlocks_eq] at hused
  refine ⟨hused, ?_, fun hidle => ?_⟩
  · -- what the scan found is added before anything is purged
    unfold Phase at hphase
    split at hphase
    · obtain ⟨-, -, -, hpurged⟩ | ⟨-, -, hpurged⟩ | ⟨-, -, hscanned⟩ := hphase <;> omega
    · omega
  · simp only [Phase, hidle, Bool.false_eq_true, if_false] at hphase
    omega

/-- Paths tell the files on the disk apart. -/
theorem eq_of_path {files : List DiskFile} (h : (files.map DiskFile.path).Nodup) {f g : DiskFile}
    (hf : f ∈ files) (hg : g ∈ files) (heq : f.path = g.path) : f = g :=
  List.inj_on_of_nodup_map h hf hg heq

theorem Books.created {s s' : BlockAccount} {d c : String} (h : Books blockSize old s)
    (hold : old c = false) (hstep : step blockSize old s (.create d c) = some s') :
    Books blockSize old s' := by
  simp only [step] at hstep
  split at hstep
  · cases hstep
  · rename_i hnew
    obtain rfl := Option.some.inj hstep
    have hdailies : ∀ d', d' ∈ s.purgeState.disk.dailies →
        d' ∈ if d ∈ s.purgeState.disk.dailies then s.purgeState.disk.dailies
          else d :: s.purgeState.disk.dailies := by
      intro d' hd'
      split
      · exact hd'
      · exact List.mem_cons_of_mem _ hd'
    have hday : d ∈ if d ∈ s.purgeState.disk.dailies then s.purgeState.disk.dailies
        else d :: s.purgeState.disk.dailies := by
      split
      · assumption
      · exact List.mem_cons_self
    refine ⟨⟨?_, List.nodup_cons.mpr ⟨hnew, h.tree.containers⟩, h.tree.files, ?_⟩,
      ⟨h.cache.nodup, fun day hmem sub hsub => List.mem_cons_of_mem _ (h.cache.maps day hmem sub hsub)⟩,
      h.paths, h.phase, h.nodup, h.there, h.data, h.opened, ?_,
      fun f hf => List.mem_cons_of_mem _ (h.own f hf),
      fun hs f hf => List.mem_cons_of_mem _ (h.counted hs f hf), h.used, h.width⟩
    · split
      · exact h.tree.dailies
      · rename_i hd
        exact List.nodup_cons.mpr ⟨hd, h.tree.dailies⟩
    · intro dir hdir
      obtain rfl | hdir := List.mem_cons.mp hdir
      · exact hday
      · exact hdailies _ (h.tree.parent dir hdir)
    · intro dir hdir
      obtain rfl | hdir := List.mem_cons.mp hdir
      · exact hold
      · exact h.made dir hdir

/-- A file is made at a path that is not taken. -/
theorem Books.added {s : BlockAccount} {f : DiskFile} {openFiles : List DiskFile}
    (h : Books blockSize old s)
    (hnew : ∀ g ∈ s.purgeState.disk.files, g.path ≠ f.path)
    (hopen : ∀ g ∈ openFiles, g ∈ s.openFiles ∨
      g = f ∧ f.isData = true ∧ (f.daily, f.container) ∈ s.made) :
    Books blockSize old (s.setFiles (f :: s.purgeState.disk.files) openFiles) := by
  have hpaths : ((f :: s.purgeState.disk.files).map DiskFile.path).Nodup := by
    refine List.nodup_cons.mpr ⟨fun hmem => ?_, h.paths⟩
    obtain ⟨g, hg, heq⟩ := List.mem_map.mp hmem
    exact hnew g hg heq
  refine ⟨⟨h.tree.dailies, h.tree.containers, hpaths.of_map, h.tree.parent⟩,
    ⟨h.cache.nodup, h.cache.maps⟩, hpaths, h.phase, h.nodup,
    fun g hg => List.mem_cons_of_mem _ (h.there hg), h.data, ?_, h.made, ?_, h.counted, h.used,
    h.width⟩
  · intro g hg
    obtain hg | ⟨rfl, hdata, -⟩ := hopen g hg
    · exact ⟨List.mem_cons_of_mem _ (h.opened g hg).1, (h.opened g hg).2⟩
    · exact ⟨List.mem_cons_self, hdata, fun hin => hnew g (h.there hin) rfl⟩
  · intro g hg
    obtain hg | ⟨rfl, -, hmade⟩ := hopen g hg
    · exact h.own g hg
    · exact hmade

/-- An open file grows. -/
theorem Books.grown {s : BlockAccount} {f : DiskFile} (h : Books blockSize old s)
    (hopen : s.isOpen f = true) (hdata : f.isData = true)
    (hmade : (f.daily, f.container) ∈ s.made) :
    Books blockSize old (s.setFiles
      (s.purgeState.disk.files.map fun g => if g.path = f.path then f else g)
      (s.openFiles.map fun g => if g.path = f.path then f else g)) := by
  obtain ⟨o, ho, hpath⟩ := List.any_eq_true.mp hopen
  rw [beq_iff_eq] at hpath
  obtain ⟨hthere, -, hnot⟩ := h.opened o ho
  -- no counted file has the path of an open one
  have hne : ∀ g ∈ s.accounted, g.path ≠ f.path := by
    intro g hg heq
    exact hnot (eq_of_path h.paths hthere (h.there hg) (hpath.trans heq.symm) ▸ hg)
  have hpaths : ((s.purgeState.disk.files.map fun g => if g.path = f.path then f else g).map
      DiskFile.path) = s.purgeState.disk.files.map DiskFile.path := by
    rw [List.map_map]
    refine List.map_congr_left fun g _ => ?_
    simp only [Function.comp_apply]
    split
    · rename_i heq
      exact heq.symm
    · rfl
  have hnodup := hpaths ▸ h.paths
  refine ⟨⟨h.tree.dailies, h.tree.containers, hnodup.of_map, h.tree.parent⟩,
    ⟨h.cache.nodup, h.cache.maps⟩, hnodup, h.phase, h.nodup, ?_, h.data, ?_, h.made, ?_,
    h.counted, h.used, h.width⟩
  · exact fun g hg => List.mem_map.mpr ⟨g, h.there hg, if_neg (hne g hg)⟩
  · intro g hg
    obtain ⟨g', hg', rfl⟩ := List.mem_map.mp hg
    refine ⟨List.mem_map.mpr ⟨g', (h.opened g' hg').1, rfl⟩, ?_⟩
    split
    · exact ⟨hdata, fun hin => hne f hin rfl⟩
    · exact (h.opened g' hg').2
  · intro g hg
    obtain ⟨g', hg', rfl⟩ := List.mem_map.mp hg
    split
    · exact hmade
    · exact h.own g' hg'

theorem Books.written {s s' : BlockAccount} {f : DiskFile} (h : Books blockSize old s)
    (hstep : step blockSize old s (.write f) = some s') : Books blockSize old s' := by
  simp only [step] at hstep
  split at hstep
  · rename_i hown
    split at hstep
    · rename_i hopen
      obtain rfl := Option.some.inj hstep
      exact h.grown hopen hown.2 hown.1
    · split at hstep
      · cases hstep
      · rename_i hnew
        obtain rfl := Option.some.inj hstep
        refine h.added (fun g hg heq => hnew ?_) fun g hg => ?_
        · exact List.any_eq_true.mpr ⟨g, hg, beq_iff_eq.mpr heq⟩
        · obtain rfl | hg := List.mem_cons.mp hg
          · exact .inr ⟨rfl, hown.2, hown.1⟩
          · exact .inl hg
  · cases hstep

theorem Books.left {s s' : BlockAccount} {f : DiskFile} (h : Books blockSize old s)
    (hstep : step blockSize old s (.leave f) = some s') : Books blockSize old s' := by
  simp only [step] at hstep
  split at hstep
  · cases hstep
  · rename_i hnew
    obtain rfl := Option.some.inj hstep
    refine h.added (fun g hg heq => hnew ?_) fun g hg => .inl hg
    exact (Bool.or_eq_true _ _).mpr
      (.inl (List.any_eq_true.mpr ⟨g, hg, beq_iff_eq.mpr heq⟩))

theorem Books.terminated {s s' : BlockAccount} {f : DiskFile} (h : Books blockSize old s)
    (hfits : s.blocksUsed + blocksOf blockSize f.size < 2 ^ 64)
    (hstep : step blockSize old s (.terminate f) = some s') : Books blockSize old s' := by
  simp only [step] at hstep
  split at hstep
  · rename_i hopen
    obtain rfl := Option.some.inj hstep
    obtain ⟨hthere, hdata, hnot⟩ := h.opened f hopen
    have hused := h.used
    refine ⟨h.tree, h.cache, h.paths, h.phase, List.nodup_cons.mpr ⟨hnot, h.nodup⟩,
      List.cons_subset.mpr ⟨hthere, h.there⟩, List.forall_mem_cons.mpr ⟨hdata, h.data⟩, ?_, h.made,
      fun g hg => h.own g (List.mem_of_mem_filter hg),
      fun hs => List.forall_mem_cons.mpr ⟨h.own f hopen, h.counted hs⟩, ?_, Nat.mod_lt _ (by decide)⟩
    · intro g hg
      obtain ⟨hg, hne⟩ := List.mem_filter.mp hg
      obtain ⟨hin, hdata', hnot'⟩ := h.opened g hg
      refine ⟨hin, hdata', fun hmem => ?_⟩
      obtain rfl | hmem := List.mem_cons.mp hmem
      · exact of_decide_eq_true hne rfl
      · exact hnot' hmem
    · simp only [BlockAccount.addBaseStorage, List.map_cons, List.sum_cons, Nat.mod_eq_of_lt hfits]
      omega
  · cases hstep

/-! ### The scan -/

theorem mem_importedAs {kind : Imported} {unreadable : Fails} {disk : Disk} {d c : String}
    {f : DiskFile} (h : f ∈ importedAs kind unreadable disk d c) :
    f ∈ disk.entries d c ∧ f.isData = true ∧
      ∃ run, validatePath c = some run ∧ importFile unreadable run f = kind := by
  unfold importedAs at h
  cases hrun : validatePath c with
  | none => simp [hrun] at h
  | some run =>
    simp only [hrun, List.mem_filter, Bool.and_eq_true, beq_iff_eq] at h
    exact ⟨h.1, h.2.1, run, rfl, h.2.2⟩

theorem mem_scannedFiles {unreadable : Fails} {disk : Disk} {f : DiskFile}
    (h : f ∈ BlockAccount.scannedFiles old unreadable disk) :
    f ∈ disk.files ∧ f.isData = true ∧ old f.container = true := by
  obtain ⟨dir, hdir, hf⟩ := List.mem_flatMap.mp h
  have hin : f ∈ disk.entries dir.1 dir.2 ∧ f.isData = true := by
    obtain hf | hf := List.mem_append.mp hf
    · exact ⟨(mem_importedAs hf).1, (mem_importedAs hf).2.1⟩
    · exact ⟨(mem_importedAs hf).1, (mem_importedAs hf).2.1⟩
  obtain ⟨hthere, -, hcontainer⟩ := mem_entries.mp hin.1
  simp only [scannedContainers, List.mem_filter, Bool.and_eq_true] at hdir
  exact ⟨hthere, hin.2, hcontainer ▸ hdir.2.2⟩

/-- No file is scanned twice. -/
theorem scannedFiles_nodup {unreadable : Fails} {disk : Disk} (htree : Tree disk) :
    (BlockAccount.scannedFiles old unreadable disk).Nodup := by
  have himported : ∀ kind d c, (importedAs kind unreadable disk d c).Nodup := by
    intro kind d c
    unfold importedAs
    split
    · exact List.nodup_nil
    · exact (htree.files.filter _).filter _
  refine List.nodup_flatMap.mpr ⟨fun dir _ => ?_, ?_⟩
  · -- a file is imported as one kind
    refine List.Nodup.append (himported _ _ _) (himported _ _ _) fun f hdata hsaved => ?_
    obtain ⟨-, -, run, hrun, hdata⟩ := mem_importedAs hdata
    obtain ⟨-, -, run', hrun', hsaved⟩ := mem_importedAs hsaved
    obtain rfl := Option.some.inj (hrun.symm.trans hrun')
    exact absurd (hdata.symm.trans hsaved) (by decide)
  · refine (htree.containers.filter _).imp fun {dir dir'} hne f hf hf' => hne ?_
    -- a file is in one container
    have hin : ∀ dir : String × String, f ∈ importedAs .data unreadable disk dir.1 dir.2 ++
        importedAs .saved unreadable disk dir.1 dir.2 → (f.daily, f.container) = dir := by
      intro dir hf
      have hentries : f ∈ disk.entries dir.1 dir.2 :=
        (List.mem_append.mp hf).elim (fun h => (mem_importedAs h).1) fun h => (mem_importedAs h).1
      obtain ⟨-, hd, hc⟩ := mem_entries.mp hentries
      rw [hd, hc]
    exact (hin dir hf).symm.trans (hin dir' hf')

/-- The blocks that are scanned are those of the files, one by one. -/
theorem scannedBlocks_eq {unreadable : Fails} {disk : Disk}
    (halike : ∀ dir ∈ scannedContainers old disk, RoundsAlike blockSize unreadable disk dir) :
    ((scannedContainers old disk).map (containerBlocks blockSize unreadable disk)).sum =
      ((BlockAccount.scannedFiles old unreadable disk).map fun f =>
        blocksOf blockSize f.size).sum := by
  simp only [BlockAccount.scannedFiles, List.flatMap_def, List.map_flatten, List.sum_flatten,
    List.map_map]
  refine congrArg List.sum (List.map_congr_left fun dir hdir => ?_)
  simp only [containerBlocks, Function.comp_apply, List.map_append, List.sum_append]
  exact congrArg _ (halike dir hdir)

theorem Books.scannedOnce {s s' : BlockAccount} {unreadable : Fails} (h : Books blockSize old s)
    (hok : StepOk blockSize old s (.scan unreadable))
    (hstep : step blockSize old s (.scan unreadable) = some s') : Books blockSize old s' := by
  obtain ⟨halike, hfits⟩ := hok
  simp only [step] at hstep
  split at hstep
  · cases hstep
  · rename_i hscanned
    obtain rfl := Option.some.inj hstep
    have hscanned : s.scanned = false := by simpa using hscanned
    -- nothing was scanned or purged before
    have hactive : s.ioActive = true ∧ s.event = 0 ∧ s.scannedBlocks = 0 ∧ s.purgedBlocks = 0 := by
      have hphase := h.phase
      unfold Phase at hphase
      cases hactive : s.ioActive <;> simp_all
    obtain ⟨hactive, hevent, hblocks, hpurged⟩ := hactive
    -- what is counted so far is in new containers
    have hnew : ∀ f, (f.daily, f.container) ∈ s.made →
        f ∉ BlockAccount.scannedFiles old unreadable s.purgeState.disk := by
      intro f hf hmem
      have hfalse := h.made _ hf
      rw [(mem_scannedFiles hmem).2.2] at hfalse
      cases hfalse
    refine ⟨h.tree, h.cache, h.paths, ?_, ?_, ?_, ?_, ?_, h.made, h.own, (fun hs => nomatch hs), ?_,
      h.width⟩
    · simp only [Phase, hactive, if_true]
      exact .inr (.inl ⟨by rw [hevent, Nat.zero_add], trivial, hpurged⟩)
    · exact List.Nodup.append (scannedFiles_nodup h.tree) h.nodup
        fun f hmem hf => hnew f (h.counted hscanned f hf) hmem
    · exact List.append_subset.mpr ⟨fun f hf => (mem_scannedFiles hf).1, h.there⟩
    · intro f hf
      obtain hf | hf := List.mem_append.mp hf
      · exact (mem_scannedFiles hf).2.1
      · exact h.data f hf
    · intro f hf
      obtain ⟨hthere, hdata, hnot⟩ := h.opened f hf
      refine ⟨hthere, hdata, fun hmem => ?_⟩
      obtain hmem | hmem := List.mem_append.mp hmem
      · exact hnew f (h.own f hf) hmem
      · exact hnot hmem
    · have hused := h.used
      rw [scannedBlocks_eq halike] at hfits ⊢
      simp only [hblocks, Nat.zero_add, Nat.mod_eq_of_lt hfits, List.map_append, List.sum_append]
      omega

/-! ### A purge and its completion -/

/-- When the purge only gets at counted files, the blocks it reports are those of the counted
    files that are gone. -/
theorem Books.purged_sum {s : BlockAccount} {requested purged : Nat} {io : PurgeIO}
    {ps : PurgeState} (h : Books blockSize old s)
    (hok : StepOk blockSize old s (.purge requested io))
    (hpurge : purgeData blockSize s.purgeState requested io = (ps, purged))
    (hfiles : ps.disk.files.Sublist s.purgeState.disk.files)
    (hblocks : dataBlocks blockSize ps.disk + purged = dataBlocks blockSize s.purgeState.disk) :
    ((s.accounted.filter (· ∈ ps.disk.files)).map fun f => blocksOf blockSize f.size).sum + purged =
      (s.accounted.map fun f => blocksOf blockSize f.size).sum := by
  have hkept : ∀ f ∈ s.purgeState.disk.files, f.isData = true → f ∉ s.accounted →
      f ∈ ps.disk.files := by
    intro f hf hdata hnot
    have hspared := (hok f hf hdata).resolve_left hnot
    have hentries := @purgeData_entries blockSize f.daily f.container s.purgeState requested io
      hspared
    rw [hpurge] at hentries
    exact (mem_entries.mp (hentries ▸ mem_entries.mpr ⟨hf, rfl, rfl⟩)).1
  have hnodup := h.tree.files
  have hnodup' := hnodup.sublist hfiles
  -- the data before and after, with and without the files that are not counted
  have hbefore := List.sum_map_filter_add (fun f : DiskFile => blocksOf blockSize f.size)
    (fun f => decide (f ∈ s.accounted)) (s.purgeState.disk.files.filter (·.isData))
  have hafter := List.sum_map_filter_add (fun f : DiskFile => blocksOf blockSize f.size)
    (fun f => decide (f ∈ s.accounted)) (ps.disk.files.filter (·.isData))
  have hcounted := List.sum_map_eq_of_mem_iff (fun f : DiskFile => blocksOf blockSize f.size)
    ((hnodup.filter (·.isData)).filter fun f => decide (f ∈ s.accounted)) h.nodup fun f => by
      simp only [List.mem_filter, decide_eq_true_eq]
      exact ⟨fun hf => hf.2, fun hf => ⟨⟨h.there hf, h.data f hf⟩, hf⟩⟩
  have hcounted' := List.sum_map_eq_of_mem_iff (fun f : DiskFile => blocksOf blockSize f.size)
    ((hnodup'.filter (·.isData)).filter fun f => decide (f ∈ s.accounted))
    (h.nodup.filter (· ∈ ps.disk.files)) fun f => by
      simp only [List.mem_filter, decide_eq_true_eq]
      exact ⟨fun hf => ⟨hf.2, hf.1.1⟩, fun hf => ⟨⟨hf.2, h.data f hf.1⟩, hf.1⟩⟩
  have hrest := List.sum_map_eq_of_mem_iff (fun f : DiskFile => blocksOf blockSize f.size)
    ((hnodup'.filter (·.isData)).filter fun f => !decide (f ∈ s.accounted))
    ((hnodup.filter (·.isData)).filter fun f => !decide (f ∈ s.accounted)) fun f => by
      simp only [List.mem_filter, Bool.not_eq_true', decide_eq_false_iff_not]
      exact ⟨fun hf => ⟨⟨hfiles.subset hf.1.1, hf.1.2⟩, hf.2⟩,
        fun hf => ⟨⟨hkept f hf.1.1 hf.1.2 hf.2, hf.1.2⟩, hf.2⟩⟩
  simp only [dataBlocks] at hblocks
  omega

theorem Books.purgedSome {s s' : BlockAccount} {requested : Nat} {io : PurgeIO}
    (h : Books blockSize old s) (hok : StepOk blockSize old s (.purge requested io))
    (hstep : step blockSize old s (.purge requested io) = some s') : Books blockSize old s' := by
  simp only [step] at hstep
  split at hstep
  · cases hstep
  · rename_i hguard
    simp only [Bool.or_eq_true, Bool.not_eq_true', decide_eq_true_eq, not_or, not_not,
      Bool.not_eq_false, Bool.not_eq_true] at hguard
    obtain ⟨⟨hidle, hscanned⟩, hlisted⟩ := hguard
    obtain ⟨ps, purged, hpurge, htree, hcache, hfiles, hblocks⟩ :=
      @purgeData_freed blockSize s.purgeState requested io h.tree h.cache hlisted
    have hsum := h.purged_sum hok hpurge hfiles hblocks
    have hphase := h.phase
    simp only [Phase, hidle, Bool.false_eq_true, if_false] at hphase
    obtain ⟨hevent, -, hnone, hzero⟩ := hphase
    have hused := h.used
    have hwidth := h.width
    rw [hpurge] at hstep
    obtain rfl := Option.some.inj hstep
    refine ⟨htree, hcache, h.paths.sublist (hfiles.map _), ?_, h.nodup.filter _,
      fun f hf => of_decide_eq_true (List.mem_filter.mp hf).2,
      fun f hf => h.data f (List.mem_of_mem_filter hf), fun f hf => ?_, h.made, h.own,
      fun hs => absurd (hs.symm.trans hscanned) (by decide), ?_, hwidth⟩
    · simp only [Phase, if_true]
      exact .inr (.inr ⟨by rw [hevent, Nat.zero_add], hscanned, hnone⟩)
    · -- an open file is not counted, so the purge does not get at it
      obtain ⟨hthere, hdata, hnot⟩ := h.opened f hf
      have hentries := @purgeData_entries blockSize f.daily f.container s.purgeState requested io
        ((hok f hthere hdata).resolve_left hnot)
      rw [hpurge] at hentries
      exact ⟨(mem_entries.mp (hentries ▸ mem_entries.mpr ⟨hthere, rfl, rfl⟩)).1, hdata,
        fun hmem => hnot (List.mem_of_mem_filter hmem)⟩
    · have hfits : purged < 2 ^ 64 := by omega
      simp only [hnone, hzero, Nat.zero_add, Nat.mod_eq_of_lt hfits] at hused ⊢
      omega

theorem Books.completed {s s' : BlockAccount} {reads : Bool} (h : Books blockSize old s)
    (hok : StepOk blockSize old s (.ioCompleted reads))
    (hstep : step blockSize old s (.ioCompleted reads) = some s') : Books blockSize old s' := by
  obtain ⟨rfl, hfits⟩ := hok
  simp only [step] at hstep
  split at hstep
  · cases hstep
  · rename_i hevent
    obtain rfl := Option.some.inj hstep
    have hphase := h.phase
    have hused := h.used
    unfold Phase at hphase
    split at hphase
    · obtain ⟨hzero, -⟩ | ⟨hinitial, hscanned, hpurged⟩ | ⟨hdone, hscanned, hnone⟩ := hphase
      · exact absurd hzero hevent
      · -- the scan is reported
        simp only [BlockAccount.ioCompleted, hinitial, Bool.not_true, Bool.false_eq_true, if_false,
          if_true]
        refine ⟨h.tree, h.cache, h.paths, ?_, h.nodup, h.there, h.data, h.opened, h.made, h.own,
          h.counted, ?_, Nat.mod_lt _ (by decide)⟩
        · simp [Phase, hscanned, hpurged]
        · simp only [Nat.mod_eq_of_lt hfits]
          omega
      · -- a purge is reported, which was of counted blocks
        have hne : ¬ s.event = ioInitial := by
          rw [hdone]
          decide
        have hwidth := h.width
        simp only [BlockAccount.ioCompleted, hne, Bool.not_true, Bool.false_eq_true, if_false]
        refine ⟨h.tree, h.cache, h.paths, ?_, h.nodup, h.there, h.data, h.opened, h.made, h.own,
          h.counted, ?_, Nat.mod_lt _ (by decide)⟩
        · simp [Phase, hscanned, hnone]
        · simp only [hnone]
          omega
    · exact absurd hphase.1 hevent

/-! ### Runs -/

theorem Books.step {s s' : BlockAccount} {op : Op} (h : Books blockSize old s)
    (hok : StepOk blockSize old s op) (hstep : step blockSize old s op = some s') :
    Books blockSize old s' := by
  cases op with
  | create => exact h.created hok hstep
  | write => exact h.written hstep
  | terminate => exact h.terminated hok hstep
  | leave => exact h.left hstep
  | scan => exact h.scannedOnce hok hstep
  | purge => exact h.purgedSome hok hstep
  | ioCompleted => exact h.completed hok hstep

/-- A disk as a file system has it: each path once, and directories in directories. -/
structure DiskOk (disk : Disk) : Prop where
  dailies : disk.dailies.Nodup
  containers : disk.containers.Nodup
  paths : (disk.files.map DiskFile.path).Nodup
  parent : ∀ dir ∈ disk.containers, dir.1 ∈ disk.dailies

instance (disk : Disk) : Decidable (DiskOk disk) :=
  decidable_of_iff (disk.dailies.Nodup ∧ disk.containers.Nodup ∧
      (disk.files.map DiskFile.path).Nodup ∧ ∀ dir ∈ disk.containers, dir.1 ∈ disk.dailies)
    ⟨fun h => ⟨h.1, h.2.1, h.2.2.1, h.2.2.2⟩,
      fun h => ⟨h.dailies, h.containers, h.paths, h.parent⟩⟩

theorem books_init {disk : Disk} (h : DiskOk disk) : Books blockSize old (init disk) where
  tree := ⟨h.dailies, h.containers, h.paths.of_map, h.parent⟩
  cache := ⟨List.nodup_nil, fun _ hday => nomatch hday⟩
  paths := h.paths
  phase := .inl ⟨rfl, rfl, rfl, rfl⟩
  nodup := List.nodup_nil
  there := List.nil_subset _
  data _ hf := nomatch hf
  opened _ hf := nomatch hf
  made _ hdir := nomatch hdir
  own _ hf := nomatch hf
  counted _ _ hf := nomatch hf
  used := rfl
  width := Nat.two_pow_pos 64

/-- In every run whose steps meet the condition, the account is exact in every state. -/
theorem exact_of_run {disk : Disk} {ops : List Op} {s : BlockAccount} (hdisk : DiskOk disk)
    (hok : Runs.along (step blockSize old) (StepOk blockSize old) (init disk) ops)
    (h : Runs.run (step blockSize old) (init disk) ops = some s) : Exact blockSize s :=
  (Runs.invariant_along (fun _ _ _ => Books.step) (books_init hdisk) hok h).exact

/-- A disk with one container, and some files in it. -/
def oneContainer (files : List (String × Nat)) : Disk where
  dailies := ["20240101"]
  containers := [("20240101", "20240101-100000.000000000")]
  files := files.map fun (name, size) => ⟨"20240101", "20240101-100000.000000000", name, size⟩

/-- A new container is written while the old one is scanned and purged. -/
def purgedRun : List Op :=
  let f (size : Nat) : DiskFile :=
    ⟨"20240101", "20240101-110000.000000000", "m00000001-f00000001.adara", size⟩
  [.create "20240101" "20240101-110000.000000000", .write (f 100), .scan fun _ => false,
    .write (f 9000), .ioCompleted true, .purge 2 ⟨none, fun _ => false⟩, .terminate (f 9000),
    .ioCompleted true]

theorem exact_of_run_purged :
    ∃ s, Runs.run (step 4096 (· == "20240101-100000.000000000"))
        (init (oneContainer [("m00000001-f00000001.adara", 5000),
          ("ds00000001-s00000001.adara", 3000)])) purgedRun = some s ∧
      Exact 4096 s ∧ s.blocksUsed = 3 := by
  have hdisk : DiskOk (oneContainer [("m00000001-f00000001.adara", 5000),
      ("ds00000001-s00000001.adara", 3000)]) := by decide
  have hok : Runs.along (step 4096 (· == "20240101-100000.000000000"))
      (StepOk 4096 (· == "20240101-100000.000000000"))
      (init (oneContainer [("m00000001-f00000001.adara", 5000),
        ("ds00000001-s00000001.adara", 3000)])) purgedRun := by decide
  exact ⟨_, rfl, exact_of_run hdisk hok rfl, by decide⟩

/-- Two small saved files are scanned as one block and purged as two. -/
theorem not_exact_scanned :
    ((Runs.run (step 4096 (· == "20240101-100000.000000000"))
        (init (oneContainer [("ds00000001-s00000001.adara", 100),
          ("ds00000001-s00000002.adara", 200)]))
        [.scan fun _ => false, .ioCompleted true, .create "20240101" "20240101-110000.000000000",
          .purge 2 ⟨none, fun _ => false⟩, .ioCompleted true]).map
      fun s => (s.ioActive, s.blocksUsed, accountedBlocks 4096 s)) = some (false, 2 ^ 64 - 1, 0) := by
  decide

end Adara.Spec.BlockAccount
