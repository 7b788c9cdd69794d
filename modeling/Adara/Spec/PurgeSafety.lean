import Adara.ForStd.Runs
import Adara.Native.Purge
import Mathlib.Algebra.Order.BigOperators.Group.List

/-! # What a purge leaves alone

A purge visits the containers of the cached days, oldest first, and skips the last container of
the last day.  In a container that it visits it removes data unless the run is marked as manual
or is not translated yet.  So every file of such a run stays.  The files of a container that
still gets packets stay as well if it is such a run or the one that is skipped; a container of no
run that lies below the current one on the stack is neither. -/

namespace Adara.Spec.Purge

open Adara.Native

variable {blockSize : Nat} {fails : Fails} {d₀ c₀ : String}

/-! ### Files of one container -/

theorem purgeFiles_mem {goal purged : Nat} {fs : List DiskFile} {f : DiskFile}
    (h : f ∈ purgeFiles blockSize goal fails purged fs) : f ∈ fs ∧ fails f.path = false := by
  induction fs generalizing purged with
  | nil => cases h
  | cons g fs ih =>
    simp only [purgeFiles] at h
    split at h
    · split at h
      · exact (ih h).imp_left (List.mem_cons_of_mem g)
      · rename_i hg
        obtain rfl | h := List.mem_cons.mp h
        · exact ⟨List.mem_cons_self, by simpa using hg⟩
        · exact (ih h).imp_left (List.mem_cons_of_mem g)
    · cases h

theorem removeEach_mem {fs : List DiskFile} {f : DiskFile} (h : f ∈ (removeEach fails fs).1) :
    f ∈ fs ∧ fails f.path = false := by
  induction fs with
  | nil => cases h
  | cons g fs ih =>
    simp only [removeEach] at h
    split at h
    · cases h
    · rename_i hg
      obtain rfl | h := List.mem_cons.mp h
      · exact ⟨List.mem_cons_self, by simpa using hg⟩
      · exact (ih h).imp_left (List.mem_cons_of_mem g)

/-- A file that may go: it has data, or it goes with the directory. -/
def Removable (run : Nat) (entries : List DiskFile) (f : DiskFile) : Prop :=
  f ∈ entries ∧ f.isData = true ∨ f ∈ leftovers run entries

theorem leftovers_subset {run : Nat} {entries : List DiskFile} {f : DiskFile}
    (h : f ∈ leftovers run entries) : f ∈ entries := by
  simp only [leftovers, List.mem_append] at h
  obtain (h | h) | h := h
  · split at h
    · cases h
    · exact List.mem_of_mem_filter h
  · split at h
    · cases h
    · exact List.mem_of_mem_filter h
  · exact List.mem_of_mem_filter h

theorem containerGone_mem {run goal : Nat} {dir : List String} {entries : List DiskFile}
    {f : DiskFile}
    (h : f ∈ (containerGone blockSize fails run goal dir entries).1 ++
      (containerGone blockSize fails run goal dir entries).2.1) :
    Removable run entries f ∧ fails f.path = false := by
  have hgone : ∀ {f}, f ∈ purgeFiles blockSize goal fails 0
      ((entries.filter (·.isData)).insertionSort (·.name ≤ ·.name)) →
      Removable run entries f ∧ fails f.path = false := by
    intro f hf
    obtain ⟨hmem, hok⟩ := purgeFiles_mem hf
    exact ⟨.inl (List.mem_filter.mp ((List.mem_insertionSort _).mp hmem)), hok⟩
  simp only [containerGone] at h
  split at h
  · obtain h | h := List.mem_append.mp h
    · exact hgone h
    · exact (removeEach_mem h).imp_left .inr
  · exact hgone (by simpa using h)

theorem entries_remove (disk : Disk) (gone : List DiskFile) (d c : String) :
    (disk.remove gone).entries d c = (disk.entries d c).filter (· ∉ gone) := by
  simp only [Disk.entries, Disk.remove, List.filter_filter, Bool.and_comm]

theorem mem_entries {disk : Disk} {d c : String} {f : DiskFile} :
    f ∈ disk.entries d c ↔ f ∈ disk.files ∧ f.daily = d ∧ f.container = c := by
  simp [Disk.entries]

/-- A container that is no valid one, or a run that is not finished, is left alone. -/
theorem purge_skip {disk : Disk} {d c : String}
    (h : ∀ run, validatePath c = some run → skipsPurge run (disk.entries d c) = true)
    (goal : Nat) : purge blockSize fails disk d c goal = (disk, 0, false) := by
  unfold purge
  cases hrun : validatePath c with
  | none => rfl
  | some run =>
    simp only [h run hrun]
    rfl

theorem purge_run {disk : Disk} {d c : String} {run : Nat} (hrun : validatePath c = some run)
    (hskip : skipsPurge run (disk.entries d c) = false) (goal : Nat) :
    ∃ gone more deleted,
      containerGone blockSize fails run goal [d, c] (disk.entries d c) = (gone, more, deleted) ∧
        purge blockSize fails disk d c goal =
          ({ disk.remove (gone ++ more) with
            containers := if deleted then disk.containers.erase (d, c) else disk.containers },
            (gone.map fun f => blocksOf blockSize f.size).sum, deleted) := by
  obtain ⟨gone, more, deleted, hr⟩ : ∃ gone more deleted,
      containerGone blockSize fails run goal [d, c] (disk.entries d c) = (gone, more, deleted) :=
    ⟨_, _, _, rfl⟩
  refine ⟨gone, more, deleted, hr, ?_⟩
  unfold purge
  simp only [hrun, hskip, hr, Bool.false_eq_true, if_false]
  cases deleted <;> rfl

/-- What the purge of a container does, as one removal of files. -/
theorem purge_disk (disk : Disk) (d c : String) (goal : Nat) :
    ∃ gone containers,
      (purge blockSize fails disk d c goal).1 = { disk.remove gone with containers } ∧
        (containers = disk.containers ∨ containers = disk.containers.erase (d, c)) ∧
        ∀ f ∈ gone, fails f.path = false ∧ ∃ run, validatePath c = some run ∧
          skipsPurge run (disk.entries d c) = false ∧ Removable run (disk.entries d c) f := by
  by_cases h : ∀ run, validatePath c = some run → skipsPurge run (disk.entries d c) = true
  · rw [purge_skip h]
    exact ⟨[], disk.containers, by simp [Disk.remove], .inl rfl, by simp⟩
  · simp only [not_forall, Bool.not_eq_true] at h
    obtain ⟨run, hrun, hskip⟩ := h
    obtain ⟨gone, more, deleted, hr, heq⟩ := @purge_run blockSize fails disk d c run hrun hskip goal
    rw [heq]
    refine ⟨gone ++ more, _, rfl, ?_, fun f hf => ?_⟩
    · split
      · exact .inr rfl
      · exact .inl rfl
    · have hmem : f ∈ (containerGone blockSize fails run goal [d, c] (disk.entries d c)).1 ++
          (containerGone blockSize fails run goal [d, c] (disk.entries d c)).2.1 := by
        rw [hr]
        exact hf
      obtain ⟨hremovable, hok⟩ := containerGone_mem hmem
      exact ⟨hok, run, hrun, hskip, hremovable⟩

theorem Removable.mem {run : Nat} {entries : List DiskFile} {f : DiskFile}
    (h : Removable run entries f) : f ∈ entries :=
  h.elim (·.1) leftovers_subset

/-! ### A container that is left alone -/

/-- With these files the container is not purged: its name is no valid one, its run is not
    finished, or none of its files may go. -/
def NotPurged (c : String) (entries : List DiskFile) : Prop :=
  ∀ run, validatePath c = some run →
    skipsPurge run entries = true ∨ ∀ f ∈ entries, ¬ Removable run entries f

/-- The purge of another container, or of one that is left alone. -/
theorem purge_entries {disk : Disk} {d c : String} {goal : Nat}
    (h : (d, c) = (d₀, c₀) → NotPurged c₀ (disk.entries d₀ c₀)) :
    (purge blockSize fails disk d c goal).1.entries d₀ c₀ = disk.entries d₀ c₀ := by
  obtain ⟨gone, containers, heq, -, hgone⟩ := @purge_disk blockSize fails disk d c goal
  have hentries : (purge blockSize fails disk d c goal).1.entries d₀ c₀ =
      (disk.entries d₀ c₀).filter (· ∉ gone) := by
    rw [heq]
    exact entries_remove disk gone d₀ c₀
  rw [hentries, List.filter_eq_self]
  intro f hf
  refine decide_eq_true fun hmem => ?_
  obtain ⟨-, run, hrun, hskip, hremovable⟩ := hgone f hmem
  -- the file is in the container that is purged
  have hin := mem_entries.mp hremovable.mem
  have hin₀ := mem_entries.mp hf
  obtain ⟨rfl, rfl⟩ : d = d₀ ∧ c = c₀ :=
    ⟨hin.2.1.symm.trans hin₀.2.1, hin.2.2.symm.trans hin₀.2.2⟩
  obtain hskip' | hnone := h rfl run hrun
  · exact absurd (hskip.symm.trans hskip') (by decide)
  · exact hnone f hremovable.mem hremovable

theorem purge_dailies (disk : Disk) (d c : String) (goal : Nat) :
    (purge blockSize fails disk d c goal).1.dailies = disk.dailies := by
  obtain ⟨gone, containers, heq, -⟩ := @purge_disk blockSize fails disk d c goal
  rw [heq]
  rfl

/-- The other days keep their containers. -/
theorem purge_containersOf_ne {disk : Disk} {d c : String} {goal : Nat} (h : d ≠ d₀) :
    (purge blockSize fails disk d c goal).1.containersOf d₀ = disk.containersOf d₀ := by
  obtain ⟨gone, containers, heq, hcontainers, -⟩ := @purge_disk blockSize fails disk d c goal
  have hfilter : containers.filter (·.1 == d₀) = disk.containers.filter (·.1 == d₀) := by
    obtain rfl | rfl := hcontainers
    · rfl
    · -- the directory that is erased is one of another day
      obtain hmem | hmem := Decidable.em ((d, c) ∈ disk.containers)
      · obtain ⟨pre, post, -, hsplit, herase⟩ := List.exists_erase_eq hmem
        rw [herase, hsplit]
        simp [h]
      · rw [List.erase_of_not_mem hmem]
  rw [heq]
  simp only [Disk.containersOf, hfilter]

theorem mem_containersOf {disk : Disk} {d c : String} :
    c ∈ disk.containersOf d ↔ (d, c) ∈ disk.containers := by
  simp only [Disk.containersOf, List.mem_insertionSort, List.mem_map, List.mem_filter,
    beq_iff_eq]
  constructor
  · rintro ⟨⟨d', c'⟩, ⟨hmem, rfl⟩, rfl⟩
    exact hmem
  · exact fun h => ⟨(d, c), ⟨h, rfl⟩, rfl⟩

theorem purge_containers_subset (disk : Disk) (d c : String) (goal : Nat) :
    (purge blockSize fails disk d c goal).1.containers ⊆ disk.containers := by
  obtain ⟨gone, containers, heq, rfl | rfl, -⟩ := @purge_disk blockSize fails disk d c goal
  · rw [heq]
    exact List.Subset.refl _
  · rw [heq]
    exact List.erase_subset

/-! ### A day -/

/-- The containers of a day that a purge may visit. -/
def visited (last : Bool) (cs : List String) : List String := if last then cs.dropLast else cs

/-- What a purge of some containers of a day keeps. -/
structure DayKept (d : String) (disk disk' : Disk) : Prop where
  dailies : disk'.dailies = disk.dailies
  others : ∀ d', d ≠ d' → disk'.containersOf d' = disk.containersOf d'
  subset : disk'.containers ⊆ disk.containers

theorem purgeContainers_kept {d : String} {goal : Nat} {last : Bool} (cs : List String) :
    ∀ s : Disk × DailyMap × Nat,
      DayKept d s.1 (purgeContainers blockSize fails d goal last cs s).1 := by
  induction cs with
  | nil => exact fun s => ⟨rfl, fun _ _ => rfl, List.Subset.refl _⟩
  | cons c cs ih =>
    rintro ⟨disk, map, total⟩
    simp only [purgeContainers]
    split
    · split
      · exact ⟨rfl, fun _ _ => rfl, List.Subset.refl _⟩
      · obtain ⟨hdailies, hothers, hsubset⟩ := ih
          ((purge blockSize fails disk d c (goal - total)).1,
            (if (purge blockSize fails disk d c (goal - total)).2.2 then map.filter (·.1 ≠ c)
              else map),
            total + (purge blockSize fails disk d c (goal - total)).2.1)
        exact ⟨hdailies.trans (purge_dailies ..),
          fun d' hd' => (hothers d' hd').trans (purge_containersOf_ne hd'),
          List.Subset.trans hsubset (purge_containers_subset ..)⟩
    · exact ⟨rfl, fun _ _ => rfl, List.Subset.refl _⟩

/-- A container of the day that is not visited, or is left alone, keeps its files. -/
theorem purgeContainers_entries {d : String} {goal : Nat} {last : Bool} (cs : List String) :
    ∀ s : Disk × DailyMap × Nat,
      (d = d₀ → c₀ ∈ visited last cs → NotPurged c₀ (s.1.entries d₀ c₀)) →
      (purgeContainers blockSize fails d goal last cs s).1.entries d₀ c₀ =
        s.1.entries d₀ c₀ := by
  induction cs with
  | nil => exact fun s _ => rfl
  | cons c cs ih =>
    rintro ⟨disk, map, total⟩ h
    simp only [purgeContainers]
    split
    · split
      · rfl
      · rename_i hlast
        -- this container is visited, and so are the ones that are visited later
        have hvisited : ∀ c', c' = c ∨ c' ∈ visited last cs → c' ∈ visited last (c :: cs) := by
          intro c' hc'
          cases last with
          | false => simpa [visited] using hc'
          | true =>
            have hne : cs ≠ [] := by simpa using hlast
            simpa [visited, List.dropLast_cons_of_ne_nil hne] using hc'
        have hpurge : (purge blockSize fails disk d c (goal - total)).1.entries d₀ c₀ =
            disk.entries d₀ c₀ := by
          refine purge_entries fun heq => ?_
          obtain ⟨rfl, rfl⟩ := Prod.mk.inj heq
          exact h rfl (hvisited c (.inl rfl))
        refine (ih _ fun hd hc => ?_).trans hpurge
        rw [hpurge]
        exact h hd (hvisited c₀ (.inr hc))
    · rfl

/-- A purge of a day, without the blocks. -/
theorem purgeDaily_disk (disk : Disk) (d : String) (map : DailyMap) (goal : Nat) (last : Bool) :
    ∃ disk' map' total,
      purgeContainers blockSize fails d goal last (disk.containersOf d)
          (disk, map.filter (·.1 ∈ disk.containersOf d),
            mapBlocks blockSize (map.filter (·.1 ∉ disk.containersOf d))) =
          (disk', map', total) ∧
        (purgeDaily blockSize fails disk d map goal last = (disk', map', total, false) ∨
          purgeDaily blockSize fails disk d map goal last =
            ({ disk' with dailies := disk'.dailies.erase d }, map', total, true)) := by
  refine ⟨_, _, _, rfl, ?_⟩
  simp only [purgeDaily]
  split
  · exact .inl rfl
  · exact .inr rfl

theorem purgeDaily_kept (disk : Disk) (d : String) (map : DailyMap) (goal : Nat) (last : Bool) :
    (∀ d', d' ∈ (purgeDaily blockSize fails disk d map goal last).1.dailies →
        d' ∈ disk.dailies) ∧
      (∀ d', d ≠ d' → (purgeDaily blockSize fails disk d map goal last).1.containersOf d' =
        disk.containersOf d') ∧
      (purgeDaily blockSize fails disk d map goal last).1.containers ⊆ disk.containers := by
  obtain ⟨disk', map', total, hrun, heq⟩ :=
    @purgeDaily_disk blockSize fails disk d map goal last
  have hkept := @purgeContainers_kept blockSize fails d goal last (disk.containersOf d)
    (disk, map.filter (·.1 ∈ disk.containersOf d),
      mapBlocks blockSize (map.filter (·.1 ∉ disk.containersOf d)))
  rw [hrun] at hkept
  obtain heq | heq := heq
  · rw [heq]
    exact ⟨fun d' hd' => hkept.dailies ▸ hd', hkept.others, hkept.subset⟩
  · rw [heq]
    exact ⟨fun d' hd' => hkept.dailies ▸ List.mem_of_mem_erase hd', hkept.others, hkept.subset⟩

theorem purgeDaily_entries {disk : Disk} {d : String} {map : DailyMap} {goal : Nat}
    {last : Bool} (h : d = d₀ → c₀ ∈ visited last (disk.containersOf d₀) →
      NotPurged c₀ (disk.entries d₀ c₀)) :
    (purgeDaily blockSize fails disk d map goal last).1.entries d₀ c₀ =
      disk.entries d₀ c₀ := by
  obtain ⟨disk', map', total, hrun, heq⟩ :=
    @purgeDaily_disk blockSize fails disk d map goal last
  have hentries := @purgeContainers_entries blockSize fails d₀ c₀ d goal last
    (disk.containersOf d) (disk, map.filter (·.1 ∈ disk.containersOf d),
      mapBlocks blockSize (map.filter (·.1 ∉ disk.containersOf d)))
    (fun hd hc => h hd (hd ▸ hc))
  rw [hrun] at hentries
  obtain heq | heq := heq <;> rw [heq] <;> exact hentries

/-! ### A request -/

/-- No request reaches the container in a walk over these days. -/
def OutOfReach (names : List String) (disk : Disk) (d c : String) : Prop :=
  d ∉ names ∨ d ∉ disk.dailies ∨ c ∉ disk.containersOf d ∨
    d ∉ names.dropLast ∧ c ∉ (disk.containersOf d).dropLast

theorem purgeDays_entries {requested : Nat} (cache : DailyCache) :
    ∀ (disk : Disk) (purged : Nat),
      OutOfReach (cache.map (·.1)) disk d₀ c₀ ∨ NotPurged c₀ (disk.entries d₀ c₀) →
      (purgeDays blockSize fails requested cache disk purged).1.entries d₀ c₀ =
        disk.entries d₀ c₀ := by
  induction cache with
  | nil => exact fun disk purged _ => rfl
  | cons day rest ih =>
    obtain ⟨d, map⟩ := day
    intro disk purged h
    simp only [purgeDays]
    split
    · split
      · rename_i hgone
        -- the day is not there any more, so it was not the one of the container
        refine ih disk _ (h.imp_left fun hout => ?_)
        obtain hout | hout | hout | hout := hout
        · exact .inl (by simp_all)
        · exact .inr (.inl hout)
        · exact .inr (.inr (.inl hout))
        · obtain rfl | hne := eq_or_ne d d₀
          · exact .inr (.inl hgone)
          · cases rest with
            | nil => exact .inl (by simp)
            | cons => exact .inr (.inr (.inr ⟨by simp_all, hout.2⟩))
      · rename_i hthere
        have hday : (purgeDaily blockSize fails disk d map (requested - purged)
            rest.isEmpty).1.entries d₀ c₀ = disk.entries d₀ c₀ := by
          refine purgeDaily_entries fun hd hc => ?_
          subst hd
          refine h.resolve_left fun hout => ?_
          -- the container is visited, so it is not out of reach
          have hmem : c₀ ∈ disk.containersOf d := by
            cases hlast : rest.isEmpty with
            | false => simpa [visited, hlast] using hc
            | true => exact List.dropLast_subset _ (by simpa [visited, hlast] using hc)
          obtain hout | hout | hout | ⟨hnot, hout⟩ := hout
          · simp at hout
          · exact hout (not_not.mp hthere)
          · exact hout hmem
          · cases rest with
            | nil => exact hout (by simpa [visited] using hc)
            | cons => simp at hnot
        refine (ih _ _ ?_).trans hday
        rw [hday]
        refine h.imp_left fun hout => ?_
        obtain ⟨hdailies, hothers, hsubset⟩ := @purgeDaily_kept blockSize fails disk d map
          (requested - purged) rest.isEmpty
        obtain hout | hout | hout | ⟨hnot, hout⟩ := hout
        · exact .inl (by simp_all)
        · exact .inr (.inl fun hmem => hout (hdailies _ hmem))
        · exact .inr (.inr (.inl fun hmem =>
            hout (mem_containersOf.mpr (hsubset (mem_containersOf.mp hmem)))))
        · cases rest with
          | nil => exact .inl (by simp)
          | cons => exact .inr (.inr (.inr ⟨by simp_all, by
              rw [hothers d₀ (by rintro rfl; simp at hnot)]
              exact hout⟩))
    · rfl

/-- A request that goes through. -/
theorem purgeData_disk (s : PurgeState) (requested : Nat) (io : PurgeIO) :
    (purgeData blockSize s requested io).1.disk = s.disk ∨
      (purgeData blockSize s requested io).1.disk =
        (purgeDays blockSize io.fails requested (currentCache s) s.disk 0).1 := by
  unfold purgeData
  split
  · exact .inl rfl
  · exact .inr rfl

theorem purgeData_entries {s : PurgeState} {requested : Nat} {io : PurgeIO}
    (h : OutOfReach ((currentCache s).map (·.1)) s.disk d₀ c₀ ∨
      NotPurged c₀ (s.disk.entries d₀ c₀)) :
    (purgeData blockSize s requested io).1.disk.entries d₀ c₀ = s.disk.entries d₀ c₀ := by
  obtain heq | heq := purgeData_disk s requested io
  · rw [heq]
  · rw [heq]
    exact purgeDays_entries (currentCache s) s.disk 0 h

/-! ### A request that only reaches one container -/

/-- Every removal outside of the container fails. -/
def onlyIn (d c : String) : Fails := fun path => !([d, c].isPrefixOf path)

theorem onlyIn_eq_false {f : DiskFile} :
    onlyIn d₀ c₀ f.path = false ↔ f.daily = d₀ ∧ f.container = c₀ := by
  simp [onlyIn, DiskFile.path, List.isPrefixOf, @eq_comm _ d₀, @eq_comm _ c₀]

/-- Nothing goes in the other containers. -/
theorem purge_onlyIn_ne {disk : Disk} {d c : String} {goal : Nat} (h : (d, c) ≠ (d₀, c₀)) :
    purge blockSize (onlyIn d₀ c₀) disk d c goal = (disk, 0, false) := by
  by_cases hskip : ∀ run, validatePath c = some run →
      skipsPurge run (disk.entries d c) = true
  · exact purge_skip hskip goal
  · simp only [not_forall, Bool.not_eq_true] at hskip
    obtain ⟨run, hrun, hskip⟩ := hskip
    obtain ⟨gone, more, deleted, hr, heq⟩ :=
      @purge_run blockSize (onlyIn d₀ c₀) disk d c run hrun hskip goal
    have hmem : ∀ f, f ∉ gone ++ more := by
      intro f hf
      have hin : f ∈ (containerGone blockSize (onlyIn d₀ c₀) run goal [d, c]
            (disk.entries d c)).1 ++
          (containerGone blockSize (onlyIn d₀ c₀) run goal [d, c] (disk.entries d c)).2.1 := by
        rw [hr]
        exact hf
      obtain ⟨hremovable, hok⟩ := containerGone_mem hin
      have hwhere := onlyIn_eq_false.mp hok
      have hthere := (mem_entries.mp hremovable.mem).2
      exact h (Prod.ext (hthere.1.symm.trans hwhere.1) (hthere.2.symm.trans hwhere.2))
    obtain ⟨hgone, hmore⟩ := List.append_eq_nil_iff.mp (List.eq_nil_iff_forall_not_mem.mpr hmem)
    -- the removal of the directory fails as well
    have hdeleted : deleted = false := by
      have hdir : onlyIn d₀ c₀ [d, c] = true := by
        have hne : ¬ (d₀ = d ∧ c₀ = c) := fun heq => h (Prod.ext heq.1.symm heq.2.symm)
        simpa [onlyIn, List.isPrefixOf, imp_iff_not_or] using hne
      simp only [containerGone, hdir] at hr
      split at hr <;> simp_all
    rw [heq, hgone, hmore, hdeleted]
    simp [Disk.remove]

/-- A goal above zero takes a file of the container, if one may go. -/
theorem purge_onlyIn_self {disk : Disk} {goal : Nat}
    (h : ¬ NotPurged c₀ (disk.entries d₀ c₀)) (hgoal : 0 < goal) :
    ∃ f ∈ disk.entries d₀ c₀,
      f ∉ (purge blockSize (onlyIn d₀ c₀) disk d₀ c₀ goal).1.files := by
  simp only [NotPurged, not_forall, not_or, Bool.not_eq_true, not_not] at h
  obtain ⟨run, hrun, hskip, g, -, hremovable⟩ := h
  obtain ⟨gone, more, deleted, hr, heq⟩ :=
    @purge_run blockSize (onlyIn d₀ c₀) disk d₀ c₀ run hrun hskip goal
  suffices hsome : ∃ f ∈ disk.entries d₀ c₀, f ∈ gone ++ more by
    obtain ⟨f, hf, hgone⟩ := hsome
    refine ⟨f, hf, ?_⟩
    rw [heq]
    exact fun hin => of_decide_eq_true (List.mem_filter.mp hin).2 hgone
  have hok : ∀ f ∈ disk.entries d₀ c₀, onlyIn d₀ c₀ f.path = false :=
    fun f hf => onlyIn_eq_false.mpr (mem_entries.mp hf).2
  simp only [containerGone] at hr
  cases hdata : ((disk.entries d₀ c₀).filter (·.isData)).insertionSort (·.name ≤ ·.name) with
  | cons f data =>
    -- the oldest file with data goes first
    have hf : f ∈ disk.entries d₀ c₀ :=
      List.mem_of_mem_filter ((List.mem_insertionSort _).mp
        (hdata ▸ List.mem_cons_self : f ∈ List.insertionSort _ _))
    refine ⟨f, hf, List.mem_append_left _ ?_⟩
    have hgone : gone = purgeFiles blockSize goal (onlyIn d₀ c₀) 0 (f :: data) := by
      rw [hdata] at hr
      split at hr <;> exact (Prod.mk.inj hr).1.symm
    simp [hgone, purgeFiles, hgoal, hok f hf]
  | nil =>
    -- there is no data, so what may go is left over
    have hleft : g ∈ leftovers run (disk.entries d₀ c₀) := by
      refine hremovable.resolve_left fun hg => ?_
      have hin := (List.mem_insertionSort (r := (·.name ≤ ·.name))).mpr (List.mem_filter.mpr hg)
      rw [hdata] at hin
      cases hin
    cases hrest : leftovers run (disk.entries d₀ c₀) with
    | nil => simp [hrest] at hleft
    | cons f fs =>
      have hf : f ∈ disk.entries d₀ c₀ := leftovers_subset (hrest ▸ List.mem_cons_self)
      refine ⟨f, hf, List.mem_append_right _ ?_⟩
      have hmore : more = (removeEach (onlyIn d₀ c₀) (f :: fs)).1 := by
        rw [hdata, hrest] at hr
        exact (Prod.mk.inj (Prod.mk.inj hr).2).1.symm
      simp [hmore, removeEach, hok f hf]

/-! ### What is gone stays gone -/

theorem purge_files_subset (disk : Disk) (d c : String) (goal : Nat) :
    (purge blockSize fails disk d c goal).1.files ⊆ disk.files := by
  obtain ⟨gone, containers, heq, -⟩ := @purge_disk blockSize fails disk d c goal
  rw [heq]
  exact List.filter_subset_self _

theorem purgeContainers_files_subset {d : String} {goal : Nat} {last : Bool} (cs : List String) :
    ∀ s : Disk × DailyMap × Nat,
      (purgeContainers blockSize fails d goal last cs s).1.files ⊆ s.1.files := by
  induction cs with
  | nil => exact fun s => List.Subset.refl _
  | cons c cs ih =>
    rintro ⟨disk, map, total⟩
    simp only [purgeContainers]
    split
    · split
      · exact List.Subset.refl _
      · exact List.Subset.trans (ih _) (purge_files_subset disk d c (goal - total))
    · exact List.Subset.refl _

theorem purgeDaily_files_subset (disk : Disk) (d : String) (map : DailyMap) (goal : Nat)
    (last : Bool) :
    (purgeDaily blockSize fails disk d map goal last).1.files ⊆ disk.files := by
  obtain ⟨disk', map', total, hrun, heq⟩ :=
    @purgeDaily_disk blockSize fails disk d map goal last
  have hsubset := @purgeContainers_files_subset blockSize fails d goal last
    (disk.containersOf d) (disk, map.filter (·.1 ∈ disk.containersOf d),
      mapBlocks blockSize (map.filter (·.1 ∉ disk.containersOf d)))
  rw [hrun] at hsubset
  obtain heq | heq := heq <;> rw [heq] <;> exact hsubset

theorem purgeDays_files_subset {requested : Nat} (cache : DailyCache) :
    ∀ (disk : Disk) (purged : Nat),
      (purgeDays blockSize fails requested cache disk purged).1.files ⊆ disk.files := by
  induction cache with
  | nil => exact fun disk purged => List.Subset.refl _
  | cons day rest ih =>
    obtain ⟨d, map⟩ := day
    intro disk purged
    simp only [purgeDays]
    split
    · split
      · exact ih disk _
      · exact List.Subset.trans (ih _ _) (purgeDaily_files_subset ..)
    · exact List.Subset.refl _

/-! ### A container that is in reach -/

theorem purgeContainers_onlyIn {goal : Nat} {last : Bool} (cs : List String) (disk : Disk) :
    ∀ (map : DailyMap) (total : Nat), total < goal → c₀ ∈ visited last cs →
      ¬ NotPurged c₀ (disk.entries d₀ c₀) →
      ∃ f ∈ disk.entries d₀ c₀,
        f ∉ (purgeContainers blockSize (onlyIn d₀ c₀) d₀ goal last cs (disk, map, total)).1.files
    := by
  induction cs with
  | nil => cases last <;> simp [visited]
  | cons c cs ih =>
    intro map total hgoal hc h
    have hlast : ¬ (last && cs.isEmpty) = true := by
      cases last <;> cases cs <;> simp_all [visited]
    simp only [purgeContainers, if_pos hgoal, if_neg hlast]
    obtain rfl | hne := eq_or_ne c c₀
    · obtain ⟨f, hf, hgone⟩ := @purge_onlyIn_self blockSize d₀ c disk (goal - total) h (by omega)
      exact ⟨f, hf, fun hin => hgone (purgeContainers_files_subset cs _ hin)⟩
    · rw [purge_onlyIn_ne (fun heq => hne (Prod.mk.inj heq).2)]
      refine ih _ _ hgoal ?_ h
      -- it is one of the later containers
      cases last with
      | false => simpa [visited, hne.symm] using hc
      | true =>
        have hcs : cs ≠ [] := by simpa using hlast
        simpa [visited, List.dropLast_cons_of_ne_nil hcs, hne.symm] using hc

theorem purgeContainers_onlyIn_ne {d : String} {goal : Nat} {last : Bool} (h : d ≠ d₀)
    (cs : List String) (disk : Disk) (map : DailyMap) (total : Nat) :
    purgeContainers blockSize (onlyIn d₀ c₀) d goal last cs (disk, map, total) =
      (disk, map, total) := by
  induction cs with
  | nil => rfl
  | cons c cs ih =>
    simp only [purgeContainers]
    rw [purge_onlyIn_ne (fun heq => h (Prod.mk.inj heq).1)]
    split
    · split
      · rfl
      · exact ih
    · rfl

theorem mapBlocks_filter_le (keep : String × Nat → Bool) (map : DailyMap) :
    mapBlocks blockSize (map.filter keep) ≤ mapBlocks blockSize map :=
  (List.filter_sublist.map _).sum_le_sum fun _ _ => Nat.zero_le _

theorem purgeDaily_onlyIn_ne {d : String} {goal : Nat} {last : Bool} (h : d ≠ d₀)
    (disk : Disk) (map : DailyMap) :
    ∃ map' total, total ≤ mapBlocks blockSize map ∧
      purgeDaily blockSize (onlyIn d₀ c₀) disk d map goal last = (disk, map', total, false) := by
  refine ⟨map.filter (·.1 ∈ disk.containersOf d), _,
    mapBlocks_filter_le (fun sub => sub.1 ∉ disk.containersOf d) map, ?_⟩
  have hfails : onlyIn d₀ c₀ [d] = true := by simp [onlyIn, List.isPrefixOf]
  simp only [purgeDaily, purgeContainers_onlyIn_ne h, hfails, Bool.true_or, if_true]

theorem purgeDaily_onlyIn {goal : Nat} {last : Bool} {disk : Disk} {map : DailyMap}
    (hgoal : mapBlocks blockSize map < goal) (hc : c₀ ∈ visited last (disk.containersOf d₀))
    (h : ¬ NotPurged c₀ (disk.entries d₀ c₀)) :
    ∃ f ∈ disk.entries d₀ c₀,
      f ∉ (purgeDaily blockSize (onlyIn d₀ c₀) disk d₀ map goal last).1.files := by
  obtain ⟨f, hf, hgone⟩ := @purgeContainers_onlyIn blockSize d₀ c₀ goal last
    (disk.containersOf d₀) disk (map.filter (·.1 ∈ disk.containersOf d₀)) _
    ((mapBlocks_filter_le (fun sub => sub.1 ∉ disk.containersOf d₀) map).trans_lt hgoal) hc h
  refine ⟨f, hf, ?_⟩
  obtain ⟨disk', map', total, hrun, heq⟩ :=
    @purgeDaily_disk blockSize (onlyIn d₀ c₀) disk d₀ map goal last
  rw [hrun] at hgone
  obtain heq | heq := heq <;> rw [heq] <;> exact hgone

/-- All blocks of the cache. -/
def cacheBlocks (blockSize : Nat) (cache : DailyCache) : Nat :=
  (cache.map fun day => mapBlocks blockSize day.2).sum

theorem purgeDays_onlyIn {requested : Nat} (cache : DailyCache) (disk : Disk) :
    ∀ purged, purged + cacheBlocks blockSize cache < requested →
      ¬ OutOfReach (cache.map (·.1)) disk d₀ c₀ → ¬ NotPurged c₀ (disk.entries d₀ c₀) →
      ∃ f ∈ disk.entries d₀ c₀,
        f ∉ (purgeDays blockSize (onlyIn d₀ c₀) requested cache disk purged).1.files := by
  induction cache with
  | nil => exact fun purged _ hout => absurd (.inl (by simp)) hout
  | cons day rest ih =>
    obtain ⟨d, map⟩ := day
    intro purged hrequested hout h
    have hblocks : cacheBlocks blockSize ((d, map) :: rest) =
        mapBlocks blockSize map + cacheBlocks blockSize rest := by
      simp [cacheBlocks]
    rw [hblocks] at hrequested
    simp only [purgeDays, if_pos (show purged < requested by omega)]
    obtain rfl | hne := eq_or_ne d d₀
    · -- this is the day of the container
      simp only [OutOfReach, not_or, not_and_or, not_not] at hout
      obtain ⟨-, hthere, hmem, hreach⟩ := hout
      simp only [hthere, not_true, if_false]
      have hvisited : c₀ ∈ visited rest.isEmpty (disk.containersOf d) := by
        cases rest with
        | nil => simpa [visited] using hreach
        | cons => exact hmem
      obtain ⟨f, hf, hgone⟩ := @purgeDaily_onlyIn blockSize d c₀ (requested - purged)
        rest.isEmpty disk map (by omega) hvisited h
      exact ⟨f, hf, fun hin => hgone (purgeDays_files_subset rest _ _ hin)⟩
    · -- the day is walked over, at the most for the blocks it had
      have hrest : ¬ OutOfReach (rest.map (·.1)) disk d₀ c₀ := by
        intro hout'
        refine hout ?_
        obtain hout' | hout' | hout' | ⟨hnot, hout'⟩ := hout'
        · exact .inl (by simp_all [eq_comm])
        · exact .inr (.inl hout')
        · exact .inr (.inr (.inl hout'))
        · cases rest with
          | nil => exact .inl (by simp [hne.symm])
          | cons => exact .inr (.inr (.inr ⟨by simp_all [eq_comm], hout'⟩))
      split
      · exact ih _ (by omega) hrest h
      · obtain ⟨map', total, htotal, heq⟩ := @purgeDaily_onlyIn_ne blockSize d₀ c₀ d
          (requested - purged) rest.isEmpty hne disk map
        rw [heq]
        exact ih (purged + total) (by omega) hrest h

end Adara.Spec.Purge
