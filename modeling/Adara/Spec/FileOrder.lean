import Mathlib.Data.List.Chain
import Adara.Spec.ScannedContainer

/-! # The order of the files

The files of a mode are numbered from one, and the modes follow each other, paused and running in
turn (`Follows`).  Files that follow each other are sorted by `order_by_filenumber`
(`scanFiles_eq`), and `validate` has nothing to say about them if the first mode is not paused
(`validate_series`).  If one of them is missing in front of another one of its mode, then it finds
this (`validate_erased`). -/

namespace Adara.Spec.ScannedContainer

open Adara.Native

/-- The next file of the same mode. -/
def nextFile (f : FileNumbers) : FileNumbers :=
  if f.paused then { f with pauseFileNumber := f.pauseFileNumber + 1 }
  else { f with fileNumber := f.fileNumber + 1 }

/-- The first file of a mode. -/
def firstFile (modeNumber : Nat) (paused : Bool) : FileNumbers :=
  ⟨modeNumber, 1, if paused then 1 else 0, paused⟩

/-- The next file of the same mode, or the first one of the next mode. -/
def Follows (f g : FileNumbers) : Prop :=
  g = nextFile f ∨ g = firstFile (f.modeNumber + 1) (!f.paused)

instance (f g : FileNumbers) : Decidable (Follows f g) := inferInstanceAs (Decidable (_ ∨ _))

theorem nextFile_modeNumber (f : FileNumbers) : (nextFile f).modeNumber = f.modeNumber := by
  rw [nextFile]
  split <;> rfl

theorem nextFile_paused (f : FileNumbers) : (nextFile f).paused = f.paused := by
  rw [nextFile]
  split <;> rfl

/-! ### Sorting -/

/-- The order of the numbers. -/
def Before (f g : FileNumbers) : Prop :=
  f.modeNumber < g.modeNumber ∨ f.modeNumber = g.modeNumber ∧
    (f.fileNumber < g.fileNumber ∨
      f.fileNumber = g.fileNumber ∧ f.pauseFileNumber < g.pauseFileNumber)

theorem Follows.before {f g : FileNumbers} (h : Follows f g) : Before f g := by
  rcases h with rfl | rfl
  · rw [Before, nextFile]
    split
    · exact .inr ⟨rfl, .inr ⟨rfl, Nat.lt_succ_self _⟩⟩
    · exact .inr ⟨rfl, .inl (Nat.lt_succ_self _)⟩
  · exact .inl (Nat.lt_succ_self _)

instance : Trans Before Before Before where
  trans h h' := by
    simp only [Before] at *
    omega

theorem orderByFilenumber_iff {a b : ScannedFile} :
    orderByFilenumber a b = true ↔
      a.modeNumber < b.modeNumber ∨ a.modeNumber = b.modeNumber ∧
        (a.fileNumber < b.fileNumber ∨ a.fileNumber = b.fileNumber ∧
          (a.addendumFileNumber < b.addendumFileNumber ∨
            a.addendumFileNumber = 0 ∧ b.addendumFileNumber = 0 ∧
              a.pauseFileNumber < b.pauseFileNumber)) := by
  rw [orderByFilenumber]
  split
  · split
    · split
      · rw [decide_eq_true_iff]
        omega
      · rw [decide_eq_true_iff]
        omega
    · rw [decide_eq_true_iff]
      omega
  · rw [decide_eq_true_iff]
    omega

/-- The comparison is one that `sort` can use. -/
theorem orderByFilenumber_trans (a b c : ScannedFile) (h : (!orderByFilenumber b a) = true)
    (h' : (!orderByFilenumber c b) = true) : (!orderByFilenumber c a) = true := by
  rw [Bool.not_eq_true', Bool.eq_false_iff, ne_eq, orderByFilenumber_iff] at *
  omega

theorem orderByFilenumber_total (a b : ScannedFile) :
    ((!orderByFilenumber b a) || (!orderByFilenumber a b)) = true := by
  rw [Bool.or_eq_true, Bool.not_eq_true', Bool.not_eq_true', Bool.eq_false_iff, Bool.eq_false_iff,
    ne_eq, ne_eq, orderByFilenumber_iff, orderByFilenumber_iff]
  omega

/-- Files in a strict order are what the sorting makes of them. -/
theorem mergeSort_eq {l l' : List ScannedFile} (h : l.Perm l')
    (hsorted : l'.Pairwise fun a b => orderByFilenumber a b = true) :
    l.mergeSort (fun a b => !orderByFilenumber b a) = l' := by
  have hstrict : ∀ a b, orderByFilenumber a b = true → (!orderByFilenumber b a) = true := by
    intro a b hab
    rw [Bool.not_eq_true', Bool.eq_false_iff, ne_eq, orderByFilenumber_iff]
    rw [orderByFilenumber_iff] at hab
    omega
  have hle := List.pairwise_mergeSort orderByFilenumber_trans orderByFilenumber_total l
  have hperm := (List.mergeSort_perm l fun a b => !orderByFilenumber b a).trans h
  have hpairs : l'.Pairwise fun a b => orderByFilenumber a b = true ∨ orderByFilenumber b a = true :=
    hsorted.imp .inl
  have : Std.Symm fun a b => orderByFilenumber a b = true ∨ orderByFilenumber b a = true :=
    ⟨fun _ _ => Or.symm⟩
  refine List.Perm.eq_of_pairwise ?_ hle (hsorted.imp fun hab => hstrict _ _ hab) hperm
  intro a b ha hb hab hba
  by_contra hne
  -- one of the two comes first
  rcases hpairs.forall (hperm.subset ha) hb hne with hlt | hlt
  · rw [hlt] at hba
    cases hba
  · rw [hlt] at hab
    cases hab

theorem asScanned_before {size : FileNumbers → Nat} {f g : FileNumbers} (h : Before f g) :
    orderByFilenumber (asScanned size f) (asScanned size g) = true := by
  rw [orderByFilenumber_iff]
  show f.modeNumber < g.modeNumber ∨ f.modeNumber = g.modeNumber ∧
    (f.fileNumber < g.fileNumber ∨ f.fileNumber = g.fileNumber ∧
      (0 < 0 ∨ 0 = 0 ∧ 0 = 0 ∧ f.pauseFileNumber < g.pauseFileNumber))
  simp only [Before] at h
  omega

theorem pairwise_before {fs : List FileNumbers} (h : fs.IsChain Follows) : fs.Pairwise Before :=
  List.isChain_iff_pairwise.mp (h.imp fun _ _ => Follows.before)

/-- The names of data files are not those of markers. -/
theorem onDisk_isData {daily container : String} {runNumber : Nat} {size : FileNumbers → Nat}
    {f : FileNumbers} (hf : Nameable f) (hrun : runNumber < 2 ^ 32) :
    (onDisk daily container runNumber size f).isData = true := by
  have hname : (onDisk daily container runNumber size f).name.toList = fileName false runNumber f :=
    String.toList_ofList
  have hsuffix : ".adara".toList.isSuffixOf (fileName false runNumber f) = true :=
    List.isSuffixOf_iff_suffix.mpr (List.suffix_append _ _)
  have hmarker : ∀ marker : String, ".adara".toList.isSuffixOf marker.toList = false →
      (onDisk daily container runNumber size f).name ≠ marker := by
    rintro marker hnot rfl
    rw [hname, hsuffix] at hnot
    cases hnot
  have hproposal : proposalIdMarker.toList.isPrefixOf (fileName false runNumber f) = false := by
    have hm : "m".toList = ['m'] := by decide
    have hp : proposalIdMarker.toList = 'p' :: "roposal-".toList := by decide
    rw [fileName_eq hf hrun, hm, hp]
    rfl
  rw [DiskFile.isData, hname, hsuffix, hproposal]
  simp [hmarker completedMarker (by decide), hmarker manualMarker (by decide)]

/-- In which order the directory has them does not matter. -/
theorem scanFiles_eq {daily container : String} {runNumber : Nat} {size : FileNumbers → Nat}
    {fs : List FileNumbers} {entries : List DiskFile} (hfollows : fs.IsChain Follows)
    (hfs : ∀ f ∈ fs, Nameable f ∧ Proper f) (hrun : runNumber < 2 ^ 32)
    (hentries : entries.Perm (fs.map (onDisk daily container runNumber size))) :
    scanFiles allReadable runNumber entries = fs.map (asScanned size) := by
  have hdata : entries.filter (·.isData) = entries := by
    rw [List.filter_eq_self]
    intro e he
    obtain ⟨f, hf, rfl⟩ := List.mem_map.mp (hentries.subset he)
    exact onDisk_isData (hfs f hf).1 hrun
  have himports : (fs.map (onDisk daily container runNumber size)).filterMap
      (importNumbers allReadable runNumber) = fs.map (asScanned size) := by
    rw [List.filterMap_map, ← List.filterMap_eq_map]
    apply List.filterMap_congr
    intro f hf
    rw [Function.comp_apply, importNumbers_fileName (hfs f hf).1 (hfs f hf).2 hrun]
    rfl
  rw [scanFiles, hdata]
  apply mergeSort_eq
  · rw [← himports]
    exact hentries.filterMap _
  · rw [List.pairwise_map]
    exact (pairwise_before hfollows).imp asScanned_before

/-! ### The check -/

/-- What `validate` expects behind a file. -/
def after (f : FileNumbers) : Expected :=
  if f.paused then ⟨0, f.pauseFileNumber, f.fileNumber, f.modeNumber, true, true⟩
  else ⟨0, 0, increment f.fileNumber, f.modeNumber, true, false⟩

/-- A file whose name fits, with the numbers that a container makes. -/
structure Named (f : FileNumbers) : Prop where
  nameable : Nameable f
  proper : Proper f
  mode : 0 < f.modeNumber

theorem after_useModeIndex (f : FileNumbers) : (after f).useModeIndex = true := by
  rw [after]
  split <;> rfl

/-- The files of all modes have the new names. -/
theorem next_eq {e : Expected} {g : ScannedFile} (hg : 0 < g.modeNumber)
    (he : e.useModeIndex = true) :
    e.next false g = if g.paused then e.nextPaused g else e.nextRunning g := by
  obtain ⟨addendum, pause, file, mode, useModeIndex, lastPaused⟩ := e
  obtain rfl : useModeIndex = true := he
  simp [Expected.next, hg]

private theorem ite_none_eq {α : Type} {wrong right : Prop} [Decidable wrong] [Decidable right]
    {x y : α} (h : wrong ↔ ¬right) (hxy : right → x = y) :
    (if wrong then none else some x) = if right then some y else none := by
  by_cases hright : right
  · rw [if_neg (fun hwrong => h.mp hwrong hright), if_pos hright, hxy hright]
  · rw [if_pos (h.mpr hright), if_neg hright]

/-- Behind a file `validate` takes the next one of its mode, or the first one of the next mode. -/
theorem next_after {size : FileNumbers → Nat} {f g : FileNumbers} (hf : Named f) (hg : Named g) :
    (after f).next false (asScanned size g) = if Follows f g then some (after g) else none := by
  obtain ⟨⟨hfm, hff, hfp, -⟩, ⟨hf₀, hfpaused, hfrunning⟩, hfmode⟩ := hf
  obtain ⟨⟨hgm, hgf, hgp, -⟩, ⟨hg₀, hgpaused, hgrunning⟩, hgmode⟩ := hg
  obtain ⟨m, n, k, p⟩ := f
  obtain ⟨m', n', k', p'⟩ := g
  simp only at *
  rw [next_eq hgmode (after_useModeIndex _)]
  -- the mode turns where the two flags differ
  cases p with
  | true =>
    cases p' with
    | true =>
      have hfollows : Follows ⟨m, n, k, true⟩ ⟨m', n', k', true⟩ ↔
          m' = m ∧ n' = n ∧ k' = k + 1 := by
        simp [Follows, nextFile, firstFile]
      have hk' := hgpaused rfl
      show (if m' ≠ m ∨ n' ≠ n ∨ 0 ≠ 0 ∨ k' ≠ increment k then none
        else some (⟨0, increment k, n, m, true, true⟩ : Expected)) = _
      apply ite_none_eq
      · rw [hfollows, increment]
        omega
      · rw [hfollows]
        rintro ⟨rfl, rfl, rfl⟩
        rw [increment_of_lt hgp]
        rfl
    | false =>
      have hfollows : Follows ⟨m, n, k, true⟩ ⟨m', n', k', false⟩ ↔
          m' = m + 1 ∧ n' = 1 ∧ k' = 0 := by
        simp [Follows, nextFile, firstFile]
      show (if m' ≠ increment m ∨ n' ≠ 1 ∨ 0 ≠ 0 ∨ k' ≠ 0 then none
        else some (⟨0, 0, increment 1, increment m, true, false⟩ : Expected)) = _
      apply ite_none_eq
      · rw [hfollows, increment]
        omega
      · rw [hfollows]
        rintro ⟨rfl, rfl, rfl⟩
        rw [increment_of_lt hgm]
        rfl
  | false =>
    cases p' with
    | true =>
      have hfollows : Follows ⟨m, n, k, false⟩ ⟨m', n', k', true⟩ ↔
          m' = m + 1 ∧ n' = 1 ∧ k' = 1 := by
        simp [Follows, nextFile, firstFile]
      show (if m' ≠ increment m ∨ n' ≠ 1 ∨ 0 ≠ 0 ∨ k' ≠ 1 then none
        else some (⟨0, 1, 1, increment m, true, true⟩ : Expected)) = _
      apply ite_none_eq
      · rw [hfollows, increment]
        omega
      · rw [hfollows]
        rintro ⟨rfl, rfl, rfl⟩
        rw [increment_of_lt hgm]
        rfl
    | false =>
      obtain rfl : k' = 0 := hgrunning rfl
      obtain rfl : k = 0 := hfrunning rfl
      have hfollows : Follows ⟨m, n, 0, false⟩ ⟨m', n', 0, false⟩ ↔ m' = m ∧ n' = n + 1 := by
        simp [Follows, nextFile, firstFile]
      show (if m' ≠ m ∨ n' ≠ increment n ∨ 0 ≠ 0 ∨ 0 ≠ 0 then none
        else some (⟨0, 0, increment (increment n), m, true, false⟩ : Expected)) = _
      apply ite_none_eq
      · rw [hfollows, increment]
        omega
      · rw [hfollows]
        rintro ⟨rfl, rfl⟩
        rw [increment_of_lt hgf]
        rfl

/-- At the start the first mode may not be a paused one. -/
theorem next_init {size : FileNumbers → Nat} {f : FileNumbers} (hf : Named f) :
    Expected.init.next true (asScanned size f) =
      if f = firstFile 1 false then some (after f) else none := by
  have hnext : Expected.init.next true (asScanned size f) =
      if f.paused then ({ Expected.init with useModeIndex := true }).nextPaused (asScanned size f)
      else ({ Expected.init with useModeIndex := true }).nextRunning (asScanned size f) := by
    have hmode : 0 < (asScanned size f).modeNumber := hf.mode
    simp only [Expected.next, hmode, decide_true]
    rfl
  have hmode : f.modeNumber ≠ 0 := Nat.ne_of_gt hf.mode
  rw [hnext]
  obtain ⟨m, n, k, p⟩ := f
  cases p with
  | true =>
    -- it is expected in the mode zero
    show (if m ≠ 0 ∨ n ≠ 0 ∨ 0 ≠ 0 ∨ k ≠ 1 then none
      else some (⟨0, 1, 0, 0, true, true⟩ : Expected)) = _
    apply ite_none_eq
    · exact ⟨fun _ => by simp [firstFile], fun _ => .inl hmode⟩
    · simp [firstFile]
  | false =>
    show (if m ≠ 1 ∨ n ≠ 1 ∨ 0 ≠ 0 ∨ k ≠ 0 then none
      else some (⟨0, 0, increment 1, 1, true, false⟩ : Expected)) = _
    have hfirst : (⟨m, n, k, false⟩ : FileNumbers) = firstFile 1 false ↔ m = 1 ∧ n = 1 ∧ k = 0 := by
      simp [firstFile]
    apply ite_none_eq
    · rw [hfirst]
      omega
    · rw [hfirst]
      rintro ⟨rfl, rfl, rfl⟩
      rfl

/-- A list of files that follow each other is complete. -/
theorem validateFrom_after {size : FileNumbers → Nat} {f : FileNumbers} {fs : List FileNumbers}
    (h : (f :: fs).IsChain Follows) (hnamed : ∀ g ∈ f :: fs, Named g) :
    validateFrom (after f) false (fs.map (asScanned size)) = false := by
  induction fs generalizing f with
  | nil => rfl
  | cons g fs ih =>
    obtain ⟨hf, hrest⟩ := List.forall_mem_cons.mp hnamed
    obtain ⟨hfollows, hchain⟩ := List.isChain_cons_cons.mp h
    rw [List.map_cons, validateFrom, next_after hf (hrest g List.mem_cons_self), if_pos hfollows]
    exact ih hchain hrest

/-- What does not follow the file before it is found. -/
theorem validateFrom_gap {size : FileNumbers → Nat} {f g : FileNumbers} {fs gs : List FileNumbers}
    (hgap : ¬Follows ((f :: fs).getLast (List.cons_ne_nil f fs)) g)
    (hnamed : ∀ x ∈ f :: fs ++ [g], Named x) :
    validateFrom (after f) false ((fs ++ g :: gs).map (asScanned size)) = true := by
  induction fs generalizing f with
  | nil =>
    have hf := hnamed f (by simp)
    have hg := hnamed g (by simp)
    have hgap : ¬Follows f g := hgap
    rw [List.nil_append, List.map_cons, validateFrom, next_after hf hg, if_neg hgap]
  | cons x fs ih =>
    obtain ⟨hf, hrest⟩ := List.forall_mem_cons.mp hnamed
    rw [List.cons_append, List.map_cons, validateFrom, next_after hf (hrest x (by simp))]
    split
    · rfl
    · next e heq =>
      split at heq
      · obtain rfl := Option.some.inj heq
        exact ih (by simpa using hgap) hrest
      · cases heq

/-- If the first mode is not paused, then the complete list is right. -/
theorem validate_series {size : FileNumbers → Nat} {fs : List FileNumbers}
    (h : fs.IsChain Follows) (hfirst : fs.head? = some (firstFile 1 false))
    (hnamed : ∀ f ∈ fs, Named f) : validate (fs.map (asScanned size)) = false := by
  obtain ⟨gs, rfl⟩ := List.head?_eq_some_iff.mp hfirst
  have hhead := hnamed _ List.mem_cons_self
  show validateFrom .init true (asScanned size (firstFile 1 false) :: gs.map (asScanned size)) = _
  rw [validateFrom, next_init hhead, if_pos rfl]
  exact validateFrom_after h hnamed

theorem nextFile_ne (f : FileNumbers) : nextFile f ≠ f := by
  obtain ⟨m, n, k, p⟩ := f
  cases p <;> simp [nextFile]

/-- The file behind the next one is not the next one. -/
theorem Follows.not_nextFile {d f : FileNumbers} (h : Follows d f) : ¬Follows d (nextFile f) := by
  have hmode := nextFile_modeNumber f
  rcases h with hf | hf
  · have hfmode : f.modeNumber = d.modeNumber := hf ▸ nextFile_modeNumber d
    rintro (hg | hg)
    · exact nextFile_ne f (hg.trans hf.symm)
    · rw [hg, hfmode] at hmode
      exact Nat.succ_ne_self _ hmode
  · have hfmode : f.modeNumber = d.modeNumber + 1 := hf ▸ rfl
    rintro (hg | hg)
    · rw [hg, nextFile_modeNumber, hfmode] at hmode
      exact Nat.succ_ne_self _ hmode.symm
    · exact nextFile_ne f (hg.trans hf.symm)

/-- A file that is missing in front of the next one of its mode is found to be missing. -/
theorem validate_missing {size : FileNumbers → Nat} {f : FileNumbers} {p : Bool}
    {pre post : List FileNumbers} (h : (pre ++ f :: nextFile f :: post).IsChain Follows)
    (hfirst : (pre ++ f :: nextFile f :: post).head? = some (firstFile 1 p))
    (hnamed : ∀ x ∈ pre ++ f :: nextFile f :: post, Named x) :
    validate ((pre ++ nextFile f :: post).map (asScanned size)) = true := by
  have hnext := hnamed (nextFile f) (by simp)
  cases pre with
  | nil =>
    obtain rfl : f = firstFile 1 p := Option.some.inj hfirst
    have hne : nextFile (firstFile 1 p) ≠ firstFile 1 false := by cases p <;> decide
    show validateFrom .init true (asScanned size (nextFile (firstFile 1 p)) :: _) = true
    rw [validateFrom, next_init hnext, if_neg hne]
  | cons x pre =>
    have hx := hnamed x (by simp)
    have hgap : ¬Follows ((x :: pre).getLast (List.cons_ne_nil x pre)) (nextFile f) := by
      apply Follows.not_nextFile
      exact (List.isChain_append.mp h).2.2 _
        (List.getLast?_eq_some_getLast (List.cons_ne_nil x pre)) f rfl
    show validateFrom .init true
      (asScanned size x :: (pre ++ nextFile f :: post).map (asScanned size)) = true
    rw [validateFrom, next_init hx]
    split
    · rfl
    · next e heq =>
      split at heq
      · obtain rfl := Option.some.inj heq
        refine validateFrom_gap hgap fun y hy => hnamed y ?_
        simp only [List.mem_append, List.mem_cons, List.not_mem_nil, or_false] at hy ⊢
        rcases hy with hy | rfl
        · exact .inl hy
        · exact .inr (.inr (.inl rfl))
      · cases heq

/-- Any file that another one of its mode comes after is found to be missing. -/
theorem validate_erased {size : FileNumbers → Nat} {f : FileNumbers} {p : Bool}
    {pre post : List FileNumbers} (h : (pre ++ f :: post).IsChain Follows)
    (hfirst : (pre ++ f :: post).head? = some (firstFile 1 p))
    (hnamed : ∀ x ∈ pre ++ f :: post, Named x)
    (hlater : ∃ g ∈ post, g.modeNumber = f.modeNumber) :
    validate ((pre ++ post).map (asScanned size)) = true := by
  obtain ⟨g, hg, hmode⟩ := hlater
  obtain ⟨h', post, rfl⟩ := List.exists_cons_of_ne_nil (List.ne_nil_of_mem hg)
  have hchain := (List.isChain_append.mp h).2.1
  rcases (List.isChain_cons_cons.mp hchain).1 with rfl | hturn
  · exact validate_missing h hfirst hnamed
  · -- the next mode has begun, and the modes do not go back
    have hbefore := pairwise_before (List.isChain_cons_cons.mp hchain).2
    have hle : h'.modeNumber ≤ g.modeNumber := by
      rcases List.mem_cons.mp hg with rfl | hg
      · exact Nat.le_refl _
      · have := List.rel_of_pairwise_cons hbefore hg
        simp only [Before] at this
        omega
    have hnext : h'.modeNumber = f.modeNumber + 1 := hturn ▸ rfl
    omega

end Adara.Spec.ScannedContainer
