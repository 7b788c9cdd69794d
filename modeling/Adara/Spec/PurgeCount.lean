import Adara.ForStd.ListSum
import Adara.Spec.PurgeSafety

/-! # The blocks that a purge reports

A purge counts the data files that it removes, and the cached directories that are not there any
more.  As long as the cache names only what is on the disk, there are none of the latter, and
the blocks reported are those by which the data on the disk got less. -/

namespace Adara.Spec.Purge

open Adara.Native

variable {blockSize : Nat} {fails : Fails}

/-- The blocks of all files with data. -/
def dataBlocks (blockSize : Nat) (disk : Disk) : Nat :=
  ((disk.files.filter (·.isData)).map fun f => blocksOf blockSize f.size).sum

/-! ### One container -/

theorem purgeFiles_sublist {goal purged : Nat} (fs : List DiskFile) :
    (purgeFiles blockSize goal fails purged fs).Sublist fs := by
  induction fs generalizing purged with
  | nil => exact .slnil
  | cons f fs ih =>
    simp only [purgeFiles]
    split
    · split
      · exact ih.cons _
      · exact ih.cons_cons _
    · exact List.nil_sublist _

/-- Data that goes with the directory is gone before. -/
theorem containerGone_data {run goal : Nat} {dir : List String} {entries : List DiskFile}
    {f : DiskFile} (h : f ∈ (containerGone blockSize fails run goal dir entries).2.1)
    (hdata : f.isData = true) : f ∈ (containerGone blockSize fails run goal dir entries).1 := by
  simp only [containerGone] at h ⊢
  split at h
  · rename_i hall
    have hf : f ∈ (entries.filter (·.isData)).insertionSort (·.name ≤ ·.name) :=
      (List.mem_insertionSort _).mpr
        (List.mem_filter.mpr ⟨leftovers_subset (removeEach_mem h).1, hdata⟩)
    rw [if_pos hall]
    exact of_decide_eq_true (List.all_eq_true.mp hall f hf)
  · cases h

/-- The data files that a container loses, each once. -/
theorem containerGone_nodup {run goal : Nat} {dir : List String} {entries : List DiskFile}
    (h : entries.Nodup) : (containerGone blockSize fails run goal dir entries).1.Nodup ∧
      ∀ f ∈ (containerGone blockSize fails run goal dir entries).1,
        f ∈ entries ∧ f.isData = true := by
  have hgone : (containerGone blockSize fails run goal dir entries).1 =
      purgeFiles blockSize goal fails 0
        ((entries.filter (·.isData)).insertionSort (·.name ≤ ·.name)) := by
    simp only [containerGone]
    split <;> rfl
  rw [hgone]
  refine ⟨((List.perm_insertionSort _ _).nodup_iff.mpr (h.filter _)).sublist
    (purgeFiles_sublist _), fun f hf => ?_⟩
  exact List.mem_filter.mp ((List.mem_insertionSort _).mp (purgeFiles_mem hf).1)

/-- The containers that are left when one is purged. -/
theorem purge_containers (disk : Disk) (d c : String) (goal : Nat) :
    (purge blockSize fails disk d c goal).1.containers =
      if (purge blockSize fails disk d c goal).2.2 then disk.containers.erase (d, c)
      else disk.containers := by
  by_cases h : ∀ run, validatePath c = some run → skipsPurge run (disk.entries d c) = true
  · rw [purge_skip h]
    rfl
  · simp only [not_forall, Bool.not_eq_true] at h
    obtain ⟨run, hrun, hskip⟩ := h
    obtain ⟨gone, more, deleted, -, heq⟩ := @purge_run blockSize fails disk d c run hrun hskip goal
    rw [heq]

theorem purge_freed {disk : Disk} (hnodup : disk.files.Nodup) (d c : String) (goal : Nat) :
    (purge blockSize fails disk d c goal).1.files.Sublist disk.files ∧
      dataBlocks blockSize (purge blockSize fails disk d c goal).1 +
        (purge blockSize fails disk d c goal).2.1 = dataBlocks blockSize disk := by
  by_cases h : ∀ run, validatePath c = some run → skipsPurge run (disk.entries d c) = true
  · rw [purge_skip h]
    exact ⟨.refl _, rfl⟩
  · simp only [not_forall, Bool.not_eq_true] at h
    obtain ⟨run, hrun, hskip⟩ := h
    obtain ⟨gone, more, deleted, hr, heq⟩ := @purge_run blockSize fails disk d c run hrun hskip goal
    have hentries : (disk.entries d c).Nodup := hnodup.filter _
    obtain ⟨hgone, hmem⟩ :=
      @containerGone_nodup blockSize fails run goal [d, c] (disk.entries d c) hentries
    have hmore : ∀ f ∈ more, f.isData = true → f ∈ gone := by
      intro f hf hdata
      have hin := @containerGone_data blockSize fails run goal [d, c] (disk.entries d c) f
      rw [hr] at hin
      exact hin hf hdata
    rw [hr] at hgone hmem
    rw [heq]
    refine ⟨List.filter_sublist, ?_⟩
    -- the files with data are split into those that stay and those that go
    have hsplit := List.sum_map_filter_add (fun f : DiskFile => blocksOf blockSize f.size)
      (fun f => decide (f ∉ gone ++ more)) (disk.files.filter (·.isData))
    have hstay : (disk.files.filter (·.isData)).filter (fun f => decide (f ∉ gone ++ more)) =
        (disk.remove (gone ++ more)).files.filter (·.isData) := by
      simp only [Disk.remove, List.filter_filter, Bool.and_comm]
    have hgo : ∀ f, f ∈ (disk.files.filter (·.isData)).filter
        (fun f => !decide (f ∉ gone ++ more)) ↔ f ∈ gone := by
      intro f
      simp only [List.mem_filter, List.mem_append, decide_not, Bool.not_not, decide_eq_true_eq]
      constructor
      · rintro ⟨⟨-, hdata⟩, hf | hf⟩
        · exact hf
        · exact hmore f hf hdata
      · exact fun hf => ⟨⟨(mem_entries.mp (hmem f hf).1).1, (hmem f hf).2⟩, .inl hf⟩
    rw [hstay, List.sum_map_eq_of_mem_iff _ ((hnodup.filter _).filter _) hgone hgo] at hsplit
    exact hsplit

/-! ### A day -/

/-- A directory that is on the disk is in one that is, and nothing is there twice. -/
structure Tree (disk : Disk) : Prop where
  dailies : disk.dailies.Nodup
  containers : disk.containers.Nodup
  files : disk.files.Nodup
  parent : ∀ dir ∈ disk.containers, dir.1 ∈ disk.dailies

/-- The cached sub-directories of the day are on the disk. -/
def MapOk (disk : Disk) (d : String) (map : DailyMap) : Prop :=
  ∀ sub ∈ map, (d, sub.1) ∈ disk.containers

theorem purgeContainers_freed {d : String} {goal : Nat} {last : Bool} (cs : List String) :
    ∀ disk map total, disk.files.Nodup → MapOk disk d map →
      ∃ disk' map' total',
        purgeContainers blockSize fails d goal last cs (disk, map, total) =
            (disk', map', total') ∧
          disk'.files.Sublist disk.files ∧ disk'.containers.Sublist disk.containers ∧
          MapOk disk' d map' ∧
          dataBlocks blockSize disk' + total' = dataBlocks blockSize disk + total := by
  induction cs with
  | nil => exact fun disk map total _ hmap => ⟨_, _, _, rfl, .refl _, .refl _, hmap, rfl⟩
  | cons c cs ih =>
    intro disk map total hnodup hmap
    simp only [purgeContainers]
    split
    · split
      · exact ⟨_, _, _, rfl, .refl _, .refl _, hmap, rfl⟩
      · obtain ⟨hsublist, hblocks⟩ :=
          @purge_freed blockSize fails disk hnodup d c (goal - total)
        have hcontainers := @purge_containers blockSize fails disk d c (goal - total)
        -- the directory leaves the map together with the disk
        have hmap' : MapOk (purge blockSize fails disk d c (goal - total)).1 d
            (if (purge blockSize fails disk d c (goal - total)).2.2 then map.filter (·.1 ≠ c)
              else map) := by
          intro sub hsub
          rw [hcontainers]
          split at hsub
          · rename_i hdeleted
            obtain ⟨hin, hne⟩ := List.mem_filter.mp hsub
            rw [if_pos hdeleted]
            refine (List.mem_erase_of_ne fun heq => ?_).mpr (hmap sub hin)
            exact of_decide_eq_true hne (Prod.mk.inj heq).2
          · rename_i hdeleted
            rw [if_neg hdeleted]
            exact hmap sub hsub
        have hsub : (purge blockSize fails disk d c (goal - total)).1.containers.Sublist
            disk.containers := by
          rw [hcontainers]
          split
          · exact List.erase_sublist
          · exact .refl _
        obtain ⟨disk', map', total', hrun, hsublist', hsub', hmap', hblocks'⟩ :=
          ih _ _ (total + (purge blockSize fails disk d c (goal - total)).2.1)
            (hnodup.sublist hsublist) hmap'
        exact ⟨disk', map', total', hrun, hsublist'.trans hsublist, hsub'.trans hsub, hmap',
          by omega⟩
    · exact ⟨_, _, _, rfl, .refl _, .refl _, hmap, rfl⟩

theorem purgeDaily_freed {disk : Disk} {d : String} {map : DailyMap} {goal : Nat} {last : Bool}
    (htree : Tree disk) (hmap : MapOk disk d map) :
    ∃ disk' map' total deleted,
      purgeDaily blockSize fails disk d map goal last = (disk', map', total, deleted) ∧
        Tree disk' ∧ MapOk disk' d map' ∧ disk'.files.Sublist disk.files ∧
        dataBlocks blockSize disk' + total = dataBlocks blockSize disk := by
  have hthere : ∀ sub ∈ map, sub.1 ∈ disk.containersOf d :=
    fun sub hsub => mem_containersOf.mpr (hmap sub hsub)
  have hmissing : map.filter (·.1 ∉ disk.containersOf d) = [] :=
    List.filter_eq_nil_iff.mpr fun sub hsub => by simpa using hthere sub hsub
  obtain ⟨disk', map', total, hrun, hsublist, hsub, hmap', hblocks⟩ :=
    @purgeContainers_freed blockSize fails d goal last (disk.containersOf d) disk
      (map.filter (·.1 ∈ disk.containersOf d)) 0 htree.files
      fun sub hsub => hmap sub (List.mem_of_mem_filter hsub)
  have hkept := @purgeContainers_kept blockSize fails d goal last (disk.containersOf d)
    (disk, map.filter (·.1 ∈ disk.containersOf d), 0)
  rw [hrun] at hkept
  have hparent : ∀ dir ∈ disk'.containers, dir.1 ∈ disk'.dailies :=
    fun dir hdir => hkept.dailies ▸ htree.parent dir (hkept.subset hdir)
  have hdailies : disk'.dailies.Nodup := hkept.dailies ▸ htree.dailies
  have hcontainers := htree.containers.sublist hsub
  have hfiles := htree.files.sublist hsublist
  have hzero : mapBlocks blockSize [] = 0 := rfl
  simp only [purgeDaily, hmissing, hzero, hrun]
  split
  · exact ⟨_, _, _, _, rfl, ⟨hdailies, hcontainers, hfiles, hparent⟩, hmap', hsublist, hblocks⟩
  · rename_i hempty
    refine ⟨_, _, _, _, rfl, ⟨hdailies.erase _, hcontainers, hfiles, fun dir hdir => ?_⟩, hmap',
      hsublist, hblocks⟩
    -- the day had no container left
    refine (List.mem_erase_of_ne fun heq => hempty ?_).mpr (hparent dir hdir)
    exact Bool.or_eq_true_iff.mpr (.inr (List.any_eq_true.mpr ⟨dir, hdir, by simp [heq]⟩))

/-! ### A request -/

/-- The cache has each day once, and its sub-directories are on the disk. -/
structure CacheOk (disk : Disk) (cache : DailyCache) : Prop where
  nodup : (cache.map (·.1)).Nodup
  maps : ∀ day ∈ cache, MapOk disk day.1 day.2

theorem CacheOk.tail {disk : Disk} {day : String × DailyMap} {rest : DailyCache}
    (h : CacheOk disk (day :: rest)) : CacheOk disk rest :=
  ⟨(List.nodup_cons.mp h.nodup).2, fun day' hday' => h.maps day' (List.mem_cons_of_mem _ hday')⟩

theorem MapOk.congr {disk disk' : Disk} {d : String} {map : DailyMap} (h : MapOk disk d map)
    (heq : disk'.containersOf d = disk.containersOf d) : MapOk disk' d map := by
  intro sub hsub
  rw [← mem_containersOf, heq]
  exact mem_containersOf.mpr (h sub hsub)

theorem purgeDays_freed {requested : Nat} (cache : DailyCache) :
    ∀ disk purged, Tree disk → CacheOk disk cache →
      ∃ disk' cache' purged',
        purgeDays blockSize fails requested cache disk purged = (disk', cache', purged') ∧
          Tree disk' ∧ CacheOk disk' cache' ∧
          (cache'.map (·.1)).Sublist (cache.map (·.1)) ∧
          (∀ d, d ∉ cache.map (·.1) → disk'.containersOf d = disk.containersOf d) ∧
          disk'.files.Sublist disk.files ∧
          dataBlocks blockSize disk' + purged' = dataBlocks blockSize disk + purged := by
  induction cache with
  | nil =>
    exact fun disk purged htree hcache =>
      ⟨_, _, _, rfl, htree, hcache, .refl _, fun _ _ => rfl, .refl _, rfl⟩
  | cons day rest ih =>
    obtain ⟨d, map⟩ := day
    intro disk purged htree hcache
    have hd : d ∉ rest.map (·.1) := (List.nodup_cons.mp hcache.nodup).1
    have hmap : MapOk disk d map := hcache.maps _ List.mem_cons_self
    simp only [purgeDays]
    split
    · split
      · -- a day that is gone had no sub-directories
        rename_i hgone
        have hempty : map = [] :=
          List.eq_nil_iff_forall_not_mem.mpr fun sub hsub => hgone (htree.parent _ (hmap sub hsub))
        obtain ⟨disk', cache', purged', hrun, htree', hcache', hnames, hothers, hfiles, hblocks⟩ :=
          ih disk (purged + mapBlocks blockSize map) htree hcache.tail
        refine ⟨disk', cache', purged', hrun, htree', hcache', hnames.cons _, fun d' hd' => ?_,
          hfiles, ?_⟩
        · exact hothers d' fun hmem => hd' (List.mem_cons_of_mem _ hmem)
        · simpa [hempty, mapBlocks] using hblocks
      · obtain ⟨disk₁, map₁, total, deleted, hday, htree₁, hmap₁, hfiles₁, hblocks₁⟩ :=
          @purgeDaily_freed blockSize fails disk d map (requested - purged) rest.isEmpty htree hmap
        obtain ⟨-, hothers₁, -⟩ := @purgeDaily_kept blockSize fails disk d map
          (requested - purged) rest.isEmpty
        rw [hday] at hothers₁
        -- the other days keep their containers
        have hcache₁ : CacheOk disk₁ rest := by
          refine ⟨hcache.tail.nodup, fun day' hday' => (hcache.tail.maps day' hday').congr ?_⟩
          refine hothers₁ day'.1 fun heq => hd ?_
          exact List.mem_map.mpr ⟨day', hday', heq.symm⟩
        obtain ⟨disk', cache', purged', hrun, htree', hcache', hnames, hothers, hfiles, hblocks⟩ :=
          ih disk₁ (purged + total) htree₁ hcache₁
        simp only [hday, hrun]
        have hothers' : ∀ d', d' ∉ ((d, map) :: rest).map (·.1) →
            disk'.containersOf d' = disk.containersOf d' := by
          intro d' hd'
          simp only [List.map_cons, List.mem_cons, not_or] at hd'
          exact (hothers d' hd'.2).trans (hothers₁ d' (Ne.symm hd'.1))
        cases deleted with
        | true =>
          exact ⟨_, _, _, rfl, htree', hcache', hnames.cons _, hothers', hfiles.trans hfiles₁,
            by omega⟩
        | false =>
          refine ⟨_, _, _, rfl, htree', ⟨?_, ?_⟩, hnames.cons_cons _, hothers',
            hfiles.trans hfiles₁, by omega⟩
          · exact List.nodup_cons.mpr ⟨fun hmem => hd (hnames.subset hmem), hcache'.nodup⟩
          · intro day' hday'
            obtain rfl | hday' := List.mem_cons.mp hday'
            · exact hmap₁.congr (hothers d hd)
            · exact hcache'.maps day' hday'
    · exact ⟨_, _, _, rfl, htree, hcache, .refl _, fun _ _ => rfl, .refl _, rfl⟩

/-- A cache of the directories that are there. -/
theorem cacheOk_getDirSize {disk : Disk} {days : List String} (h : days.Nodup) :
    CacheOk disk (days.map fun d => (d, getDirSize disk d)) := by
  refine ⟨by simpa [Function.comp_def] using h, fun day hday sub hsub => ?_⟩
  obtain ⟨d, -, rfl⟩ := List.mem_map.mp hday
  obtain ⟨c, hc, rfl⟩ := List.mem_map.mp hsub
  exact mem_containersOf.mp hc

theorem currentCache_ok {s : PurgeState} (htree : Tree s.disk)
    (hcache : CacheOk s.disk s.dailyCache) : CacheOk s.disk (currentCache s) := by
  unfold currentCache
  split
  · exact cacheOk_getDirSize
      ((List.perm_insertionSort _ _).nodup_iff.mpr (htree.dailies.filter _))
  · exact hcache

/-- The blocks that a request reports are those of the data that is gone. -/
theorem purgeData_freed {s : PurgeState} {requested : Nat} {io : PurgeIO}
    (htree : Tree s.disk) (hcache : CacheOk s.disk s.dailyCache)
    (hlisted : (io.listed.getD []).Nodup) :
    ∃ s' purged, purgeData blockSize s requested io = (s', purged) ∧ Tree s'.disk ∧
      CacheOk s'.disk s'.dailyCache ∧ s'.disk.files.Sublist s.disk.files ∧
      dataBlocks blockSize s'.disk + purged = dataBlocks blockSize s.disk := by
  have hwalk := @purgeDays_freed blockSize io.fails requested (currentCache s) s.disk 0 htree
    (currentCache_ok htree hcache)
  obtain ⟨disk', cache', purged', hrun, htree', hcache', -, -, hfiles, hblocks⟩ := hwalk
  unfold purgeData
  split
  · rename_i days hdays
    rw [hdays] at hlisted
    exact ⟨_, _, rfl, htree, cacheOk_getDirSize hlisted, .refl _, rfl⟩
  · rw [hrun]
    exact ⟨_, _, rfl, htree', hcache', hfiles, hblocks⟩

end Adara.Spec.Purge
