import Adara.ForStd.Runs
import Adara.Native.RunNumber
import Mathlib.Data.List.TakeWhile

/-! # Run numbers across crashes

Whatever a crash leaves, the file of the next run number is valid and above every run number
that was used: it is only replaced by a temporary that was synced and holds a larger number.
The start-up does not sync what it renames, so the temporary it finds has to be synced already;
and a run needs a successor that fits in 32 bits. -/

namespace Adara.Spec.RunNumbers

open Adara.Native
open CrashFS (FS Node Guarded)
open Adara.Native.RunNumbers (Op init step succ32)

/-! ### Reading what was written -/

theorem digitChar_ne_zero : ∀ n < 10, 0 < n → n.digitChar ≠ '0' := by decide

theorem toDigits_head {n : Nat} (h : 0 < n) :
    ∃ c cs, Nat.toDigits 10 n = c :: cs ∧ c ≠ '0' := by
  induction n using Nat.strongRecOn with
  | _ n ih =>
    by_cases hlt : n < 10
    · exact ⟨n.digitChar, [], Nat.toDigits_of_lt_base hlt, digitChar_ne_zero n hlt h⟩
    · obtain ⟨c, cs, heq, hc⟩ := ih (n / 10) (by omega) (by omega)
      refine ⟨c, cs ++ [(n % 10).digitChar], ?_, hc⟩
      rw [Nat.toDigits_of_base_le (by decide) (by omega), heq]
      rfl

theorem digitValue_lt {c : Char} (h : c.isDigit = true) :
    digitValue c = c.toNat - '0'.toNat ∧ digitValue c < 10 := by
  have hvalue : digitValue c = c.toNat - '0'.toNat := if_pos h
  refine ⟨hvalue, ?_⟩
  have hle : c.toNat ≤ '9'.toNat := by
    simp only [Char.isDigit, Bool.and_eq_true, decide_eq_true_eq] at h
    exact h.2
  rw [hvalue]
  have hnine : '9'.toNat = 57 ∧ '0'.toNat = 48 := by decide
  omega

/-- A number without leading zeros is read in base 10. -/
theorem strtol_digits {c : Char} {cs : List Char} (hc : c ≠ '0')
    (hdigits : ∀ x ∈ c :: cs, x.isDigit = true) :
    strtol (c :: cs) = (((Nat.ofDigitChars 10 (c :: cs) 0 : Nat) : Int), []) := by
  have hspace := isSpace_of_isDigit (hdigits c List.mem_cons_self)
  have hsign : takeSign (c :: cs) = (false, c :: cs) :=
    takeSign_of_isDigit (hdigits c List.mem_cons_self)
  have hbase : takeBase (c :: cs) = (10, c :: cs) := by
    unfold takeBase
    split <;> simp_all
  have hall : ∀ x ∈ c :: cs, digitValue x < 10 := fun x hx => (digitValue_lt (hdigits x hx)).2
  have htake : (c :: cs).takeWhile (digitValue · < 10) = c :: cs :=
    List.takeWhile_eq_self_iff.mpr fun x hx => decide_eq_true (hall x hx)
  have hdrop : (c :: cs).dropWhile (digitValue · < 10) = [] :=
    List.dropWhile_eq_nil_iff.mpr fun x hx => decide_eq_true (hall x hx)
  have hfold : (c :: cs).foldl (fun n x => 10 * n + digitValue x) 0 =
      Nat.ofDigitChars 10 (c :: cs) 0 := by
    rw [Nat.ofDigitChars_eq_foldl]
    refine List.foldl_ext _ _ _ fun n x hx => ?_
    rw [(digitValue_lt (hdigits x hx)).1]
  have hstart : (c :: cs).dropWhile isSpace = c :: cs := by simp [hspace]
  simp only [strtol, hstart, hsign, hbase, htake, hdrop, hfold, Bool.false_eq_true, if_false]

theorem readRunFile_runText {n : Nat} (h : 0 < n) (hlt : n < 2 ^ 32) :
    readRunFile (some (runText n)) = n := by
  obtain ⟨c, cs, heq, hc⟩ := toDigits_head h
  have hdigits : ∀ x ∈ c :: cs, x.isDigit = true := fun x hx =>
    Nat.isDigit_of_mem_toDigits (by decide) (by decide) (heq ▸ hx)
  have hlen : (c :: cs).length ≤ 10 := by
    rw [← heq]
    exact (Nat.length_toDigits_le_iff (by decide) (by decide)).mpr (by omega)
  have hvalue : Nat.ofDigitChars 10 (c :: cs) 0 = n := heq ▸ Nat.ofDigitChars_ten_toDigits
  have htake : (c :: cs).take 16 = c :: cs := List.take_of_length_le (by omega)
  have hsize : ¬ ((c :: cs).length < 1 ∨ (c :: cs).length = 16) := by
    simp only [List.length_cons] at hlen ⊢
    omega
  have hrange : ¬ ((n : Int) ≤ 0 ∨ (2 ^ 32 : Int) ≤ n) := by omega
  simp only [readRunFile, runText, heq, htake, if_neg hsize, strtol_digits hc hdigits, hvalue,
    List.head?_nil, Option.any_none, Bool.false_eq_true, if_false, if_neg hrange, Int.toNat_natCast]

/-! ### The condition -/

/-- Run numbers are never reused: each number read at start-up is above those used before, and a
    start-up never finds that there is none. -/
structure NeverReused (s : RunNumbers) : Prop where
  fresh : ∀ start ∈ s.starts, ∀ run ∈ start.2, run < start.1
  found : s.proc ≠ .missing

/-- The temporary is synced. -/
def TempSynced (fs : FS RunName Char) : Prop :=
  ∀ i ∈ fs.dir .temp, ∀ node ∈ fs.nodes[i]?, node.lost = []

instance (fs : FS RunName Char) : Decidable (TempSynced fs) := by
  unfold TempSynced
  infer_instance

/-- The number the next run would have, between two calls. -/
def idleNumber : RunProc → Option Nat
  | .idle next => some next
  | _ => none

/-- What the steps of a run have to meet. -/
def StepOk (s : RunNumbers) : Op → Prop
  | .start readable =>
    readable = true → readRunFile (s.fs.read .file) < readRunFile (s.fs.read .temp) →
      TempSynced s.fs
  | .setRecording => ∀ next ∈ idleNumber s.proc, next + 1 < 2 ^ 32
  | .external run => ∀ used ∈ s.used, used < run
  | .call _ _ | .stop | .crash _ _ => True

instance (s : RunNumbers) (op : Op) : Decidable (StepOk s op) := by
  cases op <;> unfold StepOk <;> infer_instance

/-! ### The invariant -/

/-- The text is a valid number, above all that were used. -/
def Above (used : List Nat) (text : List Char) : Prop :=
  readRunFile (some text) ≠ 0 ∧ ∀ run ∈ used, run < readRunFile (some text)

/-- The number may be used, and has a successor. -/
def Usable (s : RunNumbers) (next : Nat) : Prop :=
  (∀ run ∈ s.used, run < next) ∧ next + 1 < 2 ^ 32

/-- The file under this name is synced, and has this text. -/
def HasText (fs : FS RunName Char) (name : RunName) (text : List Char) : Prop :=
  ∃ i, fs.dir name = some i ∧ fs.nodes[i]? = some ⟨text, []⟩

/-- What holds where the process is. -/
def ProcOk (s : RunNumbers) : Prop :=
  match s.proc with
  | .down | .cleanUnlink | .cleanSync => True
  | .missing => False
  | .cleanRename => ∃ text, HasText s.fs .temp text ∧ Above s.used text
  | .idle next | .unlinking next => ∀ run ∈ s.used, run < next
  | .opening next => Usable s next
  | .writing next fd =>
    Usable s next ∧ s.fs.dir .temp = some fd ∧ ∃ node, s.fs.nodes[fd]? = some node ∧ node.text = []
  | .syncing next fd failed =>
    Usable s next ∧ s.fs.dir .temp = some fd ∧ ∃ node, s.fs.nodes[fd]? = some node ∧
      (failed = false → node.text = runText (next + 1))
  | .closing next _ failed =>
    Usable s next ∧ (failed = false → HasText s.fs .temp (runText (next + 1)))
  | .moving next => Usable s next ∧ HasText s.fs .temp (runText (next + 1))
  | .syncingDir next => Usable s next ∧ HasText s.fs .file (runText (next + 1))

/-- What every step preserves that meets the condition. -/
structure Inv (s : RunNumbers) : Prop where
  guarded : Guarded (Above s.used) .file .temp s.fs
  proc : ProcOk s
  fresh : ∀ start ∈ s.starts, ∀ run ∈ start.2, run < start.1

theorem Inv.neverReused {s : RunNumbers} (h : Inv s) : NeverReused s := by
  refine ⟨h.fresh, fun heq => ?_⟩
  have hproc := h.proc
  unfold ProcOk at hproc
  rw [heq] at hproc
  exact hproc

/-- The file is valid as it is read now. -/
theorem Inv.file {s : RunNumbers} (h : Inv s) :
    readRunFile (s.fs.read .file) ≠ 0 ∧ ∀ run ∈ s.used, run < readRunFile (s.fs.read .file) := by
  obtain ⟨text, hread, habove⟩ := h.guarded.read
  rw [hread]
  exact habove

theorem above_runText {s : RunNumbers} {next : Nat} (h : Usable s next) :
    Above (next :: s.used) (runText (next + 1)) := by
  have hread := readRunFile_runText (Nat.succ_pos next) h.2
  refine ⟨by rw [hread]; omega, fun run hrun => ?_⟩
  rw [hread]
  obtain rfl | hrun := List.mem_cons.mp hrun
  · omega
  · have := h.1 run hrun
    omega

theorem Above.tail {used : List Nat} {run : Nat} {text : List Char} (h : Above (run :: used) text) :
    Above used text :=
  ⟨h.1, fun r hr => h.2 r (List.mem_cons_of_mem _ hr)⟩

/-! ### The steps -/

/-- The end of a start-up. -/
theorem Inv.started {s : RunNumbers} (h : Inv s) : Inv s.started := by
  obtain ⟨hvalid, habove⟩ := h.file
  simp only [RunNumbers.started, if_neg hvalid]
  exact ⟨h.guarded, habove, List.forall_mem_cons.mpr ⟨habove, h.fresh⟩⟩

/-- The process may end at any time, and so may the machine. -/
theorem Inv.halted {s : RunNumbers} {fs : FS RunName Char} (h : Inv s)
    (hfs : Guarded (Above s.used) .file .temp fs) : Inv { s with fs, proc := .down } :=
  ⟨hfs, trivial, h.fresh⟩

theorem Inv.start {s s' : RunNumbers} {readable : Bool} (h : Inv s)
    (hok : StepOk s (.start readable)) (hstep : step s (.start readable) = some s') : Inv s' := by
  obtain ⟨hvalid, habove⟩ := h.file
  simp only [step] at hstep
  split at hstep
  · obtain rfl := Option.some.inj hstep
    refine ⟨h.guarded, ?_, h.fresh⟩
    by_cases hlarger : (if readable = true then readRunFile (s.fs.read .temp) else 0) ≤
        readRunFile (s.fs.read .file)
    · simp only [ProcOk, if_pos hlarger]
    · simp only [ProcOk, if_neg hlarger]
      -- the temporary has a larger number, so it can be read and is synced
      cases readable with
      | false => exact absurd (Nat.zero_le _) hlarger
      | true =>
        simp only [if_true, not_le] at hlarger
        have hsynced := hok rfl hlarger
        cases hdir : s.fs.dir .temp with
        | none => simp [FS.read, hdir, readRunFile] at hlarger
        | some i =>
          cases hnode : s.fs.nodes[i]? with
          | none => simp [FS.read, hdir, hnode, readRunFile] at hlarger
          | some node =>
            have hread : s.fs.read .temp = some node.text := by simp [FS.read, hdir, hnode]
            have hlost : node.lost = [] := hsynced i hdir node hnode
            rw [hread] at hlarger
            refine ⟨node.text, ⟨i, hdir, by rw [hnode, ← hlost]⟩, by omega, fun run hrun => ?_⟩
            exact (habove run hrun).trans hlarger
  · cases hstep

theorem options_synced {text : List Char} {P : List Char → Prop} (h : P text) :
    ∀ t ∈ (⟨text, []⟩ : Node Char).options, P t := by
  simpa [Node.options] using h

/-- A temporary with a synced and larger number takes the place of the file. -/
theorem renamed {s : RunNumbers} {text : List Char} (h : Inv s) (htext : HasText s.fs .temp text)
    (habove : Above s.used text) :
    Guarded (Above s.used) .file .temp (s.fs.rename .temp .file) ∧
      HasText (s.fs.rename .temp .file) .file text := by
  obtain ⟨i, hdir, hnode⟩ := htext
  obtain ⟨hguarded, hfile, hnodes⟩ :=
    h.guarded.rename (by decide) hdir hnode (options_synced habove)
  exact ⟨hguarded, i, hfile, by rw [hnodes, hnode]⟩

theorem syncedDir {s : RunNumbers} (h : Inv s) :
    Guarded (Above s.used) .file .temp s.fs.syncDir := by
  obtain ⟨i, node, hdir, hnode, habove⟩ := h.guarded.main s.fs.dir List.mem_cons_self
  exact h.guarded.syncDir hdir hnode habove

theorem Inv.called {s s' : RunNumbers} {ok : Bool} {written : Nat} (h : Inv s)
    (hstep : s.call ok written = some s') : Inv s' := by
  have hproc := h.proc
  unfold ProcOk at hproc
  unfold RunNumbers.call at hstep
  have hne : RunName.file ≠ RunName.temp := by decide
  cases hp : s.proc with
  | down | missing | idle => simp [hp] at hstep
  | cleanUnlink =>
    simp only [hp] at hstep
    split at hstep
    · obtain rfl := Option.some.inj hstep
      exact Inv.started ⟨h.guarded.unlink hne, trivial, h.fresh⟩
    · obtain rfl := Option.some.inj hstep
      exact h.halted h.guarded
  | cleanRename =>
    simp only [hp] at hstep hproc
    obtain ⟨text, htext, habove⟩ := hproc
    split at hstep
    · obtain rfl := Option.some.inj hstep
      exact ⟨(renamed h htext habove).1, trivial, h.fresh⟩
    · obtain rfl := Option.some.inj hstep
      exact h.halted h.guarded
  | cleanSync =>
    simp only [hp] at hstep
    split at hstep
    · obtain rfl := Option.some.inj hstep
      have hsynced := syncedDir h
      exact Inv.started ⟨hsynced, trivial, h.fresh⟩
    · obtain rfl := Option.some.inj hstep
      exact h.halted h.guarded
  | opening next =>
    simp only [hp] at hstep hproc
    split at hstep
    · obtain rfl := Option.some.inj hstep
      obtain ⟨hguarded, hdir, hnode⟩ := h.guarded.openTrunc hne
      exact ⟨hguarded, ⟨hproc, hdir, hnode⟩, h.fresh⟩
    · obtain rfl := Option.some.inj hstep
      exact ⟨h.guarded, hproc.1, h.fresh⟩
  | writing next fd =>
    simp only [hp] at hstep hproc
    obtain ⟨husable, hdir, node, hnode, htext⟩ := hproc
    have hsucc : succ32 next = next + 1 := Nat.mod_eq_of_lt husable.2
    split at hstep
    · obtain rfl := Option.some.inj hstep
      refine ⟨h.guarded.setNode hdir _, ⟨husable, hdir,
        node.append ((runText (succ32 next)).take written), ?_, fun hall => ?_⟩, h.fresh⟩
      · simp [FS.write, FS.setNode, hnode]
      · -- all of the text was written
        have hlen : (runText (succ32 next)).length ≤ written := by
          simpa using hall
        rw [Node.append, htext, List.nil_append, List.take_of_length_le hlen, hsucc]
    · obtain rfl := Option.some.inj hstep
      exact ⟨h.guarded, ⟨husable, hdir, node, hnode,
        fun hfalse => absurd hfalse.symm Bool.false_ne_true⟩, h.fresh⟩
  | syncing next fd failed =>
    simp only [hp] at hstep hproc
    obtain ⟨husable, hdir, node, hnode, htext⟩ := hproc
    obtain rfl := Option.some.inj hstep
    cases ok with
    | true =>
      refine ⟨h.guarded.setNode hdir _, ⟨husable, fun hfailed => ⟨fd, hdir, ?_⟩⟩, h.fresh⟩
      have htext := htext (by simpa using hfailed)
      simp [FS.fsync, FS.setNode, hnode, Node.sync, htext]
    | false => exact ⟨h.guarded, ⟨husable, fun hfailed => by simp at hfailed⟩, h.fresh⟩
  | closing next fd failed =>
    simp only [hp] at hstep hproc
    obtain rfl := Option.some.inj hstep
    cases hfailed : failed || !ok with
    | true => exact ⟨h.guarded, hproc.1.1, h.fresh⟩
    | false =>
      exact ⟨h.guarded, ⟨hproc.1, hproc.2 (Bool.or_eq_false_iff.mp hfailed).1⟩, h.fresh⟩
  | moving next =>
    simp only [hp] at hstep hproc
    obtain ⟨husable, htext⟩ := hproc
    split at hstep
    · obtain rfl := Option.some.inj hstep
      obtain ⟨hguarded, hfile⟩ := renamed h htext (above_runText husable).tail
      exact ⟨hguarded, ⟨husable, hfile⟩, h.fresh⟩
    · obtain rfl := Option.some.inj hstep
      exact ⟨h.guarded, husable.1, h.fresh⟩
  | unlinking next =>
    simp only [hp] at hstep hproc
    obtain rfl := Option.some.inj hstep
    cases ok with
    | true => exact ⟨h.guarded.unlink hne, hproc, h.fresh⟩
    | false => exact ⟨h.guarded, hproc, h.fresh⟩
  | syncingDir next =>
    simp only [hp] at hstep hproc
    obtain ⟨husable, i, hdir, hnode⟩ := hproc
    have hsucc : succ32 next = next + 1 := Nat.mod_eq_of_lt husable.2
    split at hstep
    · obtain rfl := Option.some.inj hstep
      -- from here on the number is used, and the file is beyond it
      refine ⟨h.guarded.syncDir hdir hnode (options_synced (above_runText husable)), ?_, h.fresh⟩
      intro run hrun
      rw [hsucc]
      obtain rfl | hrun := List.mem_cons.mp hrun
      · omega
      · have := husable.1 run hrun
        omega
    · obtain rfl := Option.some.inj hstep
      exact ⟨h.guarded, husable.1, h.fresh⟩

theorem Inv.step {s s' : RunNumbers} {op : Op} (h : Inv s) (hok : StepOk s op)
    (hstep : step s op = some s') : Inv s' := by
  cases op with
  | start => exact h.start hok hstep
  | setRecording =>
    simp only [RunNumbers.step] at hstep
    split at hstep
    · rename_i next hp
      obtain rfl := Option.some.inj hstep
      have hproc := h.proc
      unfold ProcOk at hproc
      rw [hp] at hproc
      exact ⟨h.guarded, ⟨hproc, hok next (by rw [hp]; rfl)⟩, h.fresh⟩
    · cases hstep
  | external run =>
    simp only [RunNumbers.step] at hstep
    split at hstep
    · split at hstep
      · obtain rfl := Option.some.inj hstep
        exact ⟨h.guarded, hok, h.fresh⟩
      · cases hstep
    · cases hstep
  | call => exact h.called hstep
  | stop =>
    obtain rfl := Option.some.inj hstep
    exact h.halted h.guarded
  | crash k choose =>
    obtain ⟨fs, hcrash, rfl⟩ := Option.map_eq_some_iff.mp hstep
    exact h.halted (h.guarded.crash hcrash)

theorem inv_init {text : List Char} (h : readRunFile (some text) ≠ 0) : Inv (init text) := by
  refine ⟨⟨fun d hd => ?_, fun d hd i hi => ?_, fun i hi => ?_, fun d hd i hi => ?_⟩, trivial,
    fun _ hstart => nomatch hstart⟩
  · obtain rfl := List.mem_singleton.mp hd
    exact ⟨0, ⟨text, []⟩, rfl, rfl, options_synced ⟨h, fun _ hrun => nomatch hrun⟩⟩
  · obtain rfl := List.mem_singleton.mp hd
    cases hi
  · cases hi
  · obtain rfl := List.mem_singleton.mp hd
    cases hi

/-- In every run from a valid number whose steps meet the condition, run numbers are never
    reused. -/
theorem never_reused_of_run {text : List Char} {ops : List Op} {s : RunNumbers}
    (htext : readRunFile (some text) ≠ 0) (hok : Runs.along step StepOk (init text) ops)
    (h : Runs.run step (init text) ops = some s) : NeverReused s :=
  (Runs.invariant_along (fun _ _ _ => Inv.step) (inv_init htext) hok h).neverReused

/-- A start of the recorder that finds no temporary to complete. -/
def cleanStart : List Op := [.start true, .call true 0]

/-- The start of a run, with the calls that it makes. -/
def runStart : List Op :=
  [.setRecording, .call true 0, .call true 10, .call true 0, .call true 0, .call true 0,
    .call true 0]

/-- After one run, the start of the next is cut off before the directory is synced, and the crash
    leaves the temporary. -/
def cutOff : List Op :=
  cleanStart ++ runStart ++ runStart.take 6 ++
    [.crash 1 fun _ => 0, .start true, .call true 0, .call true 0]

theorem never_reused_of_run_cutOff :
    ∃ s, Runs.run step (init "41".toList) cutOff = some s ∧ NeverReused s ∧
      s.starts = [(43, [41]), (41, [])] := by
  have hok : Runs.along step StepOk (init "41".toList) cutOff := by decide
  exact ⟨_, rfl, never_reused_of_run (by decide) hok rfl, rfl⟩

/-- A start-up renames a temporary that an earlier process wrote but did not sync, and a crash
    leaves it empty; the last run number has no successor; and a run number is set to an earlier
    one. -/
theorem not_never_reused :
    (Runs.run step (init "41".toList) (cleanStart ++ runStart.take 3 ++
        [.stop, .start true, .call true 0, .call true 0, .crash 0 fun i => if i = 1 then 1 else 0,
          .start true])).map (·.proc) = some .missing ∧
      (Runs.run step (init "4294967295".toList) (cleanStart ++ runStart ++ [.stop, .start true])).map
        (·.proc) = some .missing ∧
      (Runs.run step (init "100".toList) (cleanStart ++ runStart ++ [.external 5] ++ runStart ++
        [.stop] ++ cleanStart)).map (·.starts.head?) = some (some (6, [5, 100])) := by
  decide

end Adara.Spec.RunNumbers
