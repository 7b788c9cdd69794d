import Adara.Spec.PulseLedger

/-! # How much a departing source lets go

`unregisterEventSource` looks for the last pulse that is complete once the source is
released, walks back over the pulses to hold back, and records what is left.  Here the
two searches get closed forms (`lastComplete_eq_some`, `holdBack_eq`), and the effect
of the whole on the buffer becomes one number, `releasedCount`. -/

namespace Adara.Spec.PulseBuffer

open Adara.Native Adara.Native.SMSControl

/-! ### The two searches -/

/-- The last complete entry: pending on no source, and the entries after it are. -/
theorem lastComplete_eq_some {entries : List (PulseIdentifier × Node)} {k : Nat} :
    lastComplete entries = some k ↔ ∃ h : k < entries.length,
      entries[k].2.pulse.pending = ∅ ∧
        ∀ q, k < q → ∀ hq : q < entries.length, entries[q].2.pulse.pending ≠ ∅ := by
  induction entries using List.reverseRecOn with
  | nil => simp [lastComplete]
  | append_singleton entries e ih =>
    by_cases he : e.2.pulse.pending = ∅
    · -- the new last entry is complete
      have hlast : lastComplete (entries ++ [e]) = some entries.length := by
        simp [lastComplete, List.findIdxs_append, he]
      rw [hlast, Option.some.injEq]
      constructor
      · rintro rfl
        apply Exists.intro (by simp)
        apply And.intro (by simp [he])
        intro q hq hlt
        rw [List.length_append, List.length_singleton] at hlt
        omega
      · rintro ⟨hk, -, hafter⟩
        rw [List.length_append, List.length_singleton] at hk
        by_contra hne
        apply hafter entries.length (by omega) (by simp)
        simp [he]
    · have hlast : lastComplete (entries ++ [e]) = lastComplete entries := by
        simp [lastComplete, List.findIdxs_append, he]
      rw [hlast, ih]
      constructor
      · rintro ⟨hk, hpending, hafter⟩
        apply Exists.intro (by simp; omega)
        apply And.intro (by rwa [List.getElem_append_left hk])
        intro q hq hlt
        by_cases hql : q < entries.length
        · rw [List.getElem_append_left hql]
          exact hafter q hq hql
        · rw [List.getElem_append_right (by omega)]
          simpa using he
      · rintro ⟨hk, hpending, hafter⟩
        rw [List.length_append, List.length_singleton] at hk
        have hkl : k < entries.length := by
          by_contra hge
          rw [List.getElem_append_right (by omega)] at hpending
          exact he (by simpa using hpending)
        apply Exists.intro hkl
        apply And.intro (by rwa [List.getElem_append_left hkl] at hpending)
        intro q hq hlt
        have := hafter q hq (by simp; omega)
        rwa [List.getElem_append_left hlt] at this

theorem lastComplete_eq_none {entries : List (PulseIdentifier × Node)} :
    lastComplete entries = none ↔ ∀ e ∈ entries, e.2.pulse.pending ≠ ∅ := by
  simp only [lastComplete, List.getLast?_eq_none_iff, List.findIdxs_eq_nil_iff,
    decide_eq_false_iff_not, ne_eq]

/-- Walking back `hold` pulses from the end of the buffer leaves the last pulse to
    record at `last`, or pushes it along; it runs out of pulses to record when the buffer
    has no more than `hold`. -/
theorem holdBack_eq (size hold : Nat) {last rit : Nat} (hrit : rit < size) (hlast : last ≤ size - 1 - rit) :
    holdBack size hold last rit =
      if rit + hold < size then some (min last (size - 1 - (rit + hold))) else none := by
  induction hold generalizing last rit with
  | zero =>
    rw [Nat.add_zero, if_pos hrit, Nat.min_eq_left hlast]
    rfl
  | succ hold ih =>
    rw [holdBack, if_pos hrit]
    by_cases heq : last = size - 1 - rit
    · rw [if_pos heq]
      by_cases hzero : last = 0
      · rw [if_neg (by omega), if_neg (by omega)]
      · -- the walk has reached the last pulse to record: both go back by one
        rw [if_pos hzero, ih (by omega) (by omega)]
        by_cases hroom : rit + (hold + 1) < size
        · rw [if_pos (by omega), if_pos hroom]
          apply congrArg some
          omega
        · rw [if_neg (by omega), if_neg hroom]
    · rw [if_neg heq, ih (by omega) (by omega)]
      by_cases hroom : rit + (hold + 1) < size
      · rw [if_pos (by omega), if_pos hroom]
        apply congrArg some
        omega
      · rw [if_neg (by omega), if_neg hroom]

/-! ### Taking a prefix of the buffer -/

/-- `S'` is `S` with the first `n` pulses recorded, outside the overflow path. -/
structure Taken (S S' : SMSControl) (n : Nat) : Prop where
  buffered : bufferedPulses S' = (bufferedPulses S).drop n
  recorded : recordedPulses S' = recordedPulses S ++ (bufferedPulses S).take n
  dropped : droppedPulses S' = droppedPulses S
  created : S'.history.created = S.history.created
  lastPulseIt : S'.lastPulseIt = S.lastPulseIt
  lastPid : S'.lastPid = if S.lastPid ∈ S.pulses.keys.take n then invalidPid else S.lastPid

theorem SameBuffer.taken {S S' : SMSControl} (h : SameBuffer S S') : Taken S S' 0 where
  buffered := h.buffered_eq
  recorded := by simp [recordedPulses, h.recordings]
  dropped := by simp only [droppedPulses, h.dropped]
  created := h.created
  lastPulseIt := h.lastPulseIt
  lastPid := by simp [h.lastPid]

/-- Changing data before a prefix is taken makes no difference. -/
theorem SameBuffer.trans_taken {S₁ S₂ S₃ : SMSControl} {n : Nat} (h : SameBuffer S₁ S₂)
    (h' : Taken S₂ S₃ n) : Taken S₁ S₃ n where
  buffered := by rw [h'.buffered, h.buffered_eq]
  recorded := by rw [h'.recorded, h.buffered_eq, recordedPulses, recordedPulses, h.recordings]
  dropped := by rw [h'.dropped, droppedPulses, droppedPulses, h.dropped]
  created := h'.created.trans h.created
  lastPulseIt := h'.lastPulseIt.trans h.lastPulseIt
  lastPid := by rw [h'.lastPid, h.keys_eq, h.lastPid]

theorem recordPrefix_taken (cfg : Config) (env : Env) (n : Nat) (S : SMSControl) :
    Taken S (recordPrefix cfg env false n S) n where
  buffered := (recordPrefix_recorded cfg env false n S).moved.1
  recorded := (recordPrefix_recorded cfg env false n S).moved.2
  dropped := by rw [droppedPulses, (recordPrefix_recorded cfg env false n S).dropped]; rfl
  created := (recordPrefix_recorded cfg env false n S).created
  lastPulseIt := (recordPrefix_recorded cfg env false n S).lastPulseIt
  lastPid := by
    rw [recordPrefix_lastPid, SortedMap.keys, List.map_take]

/-! ### Releasing a source -/

/-- The number of pulses a departing source leaves in the buffer: none when it is the
    last one. -/
def heldBack (env : Env) (S : SMSControl) : Nat :=
  if 1 < S.eventSources.card then env.noEoPPulseBufferSize else 0

/-- The number of pulses `recordReleased` records. -/
def releasedCount (env : Env) (S : SMSControl) : Nat :=
  match lastComplete S.pulses.entries with
  | none => 0
  | some last =>
    if heldBack env S < S.pulses.size then min (last + 1) (S.pulses.size - heldBack env S) else 0

/-- `recordReleased` in the two cases of its walk back. -/
private theorem recordReleased_eq (cfg : Config) (env : Env) {S : SMSControl} {last : Nat}
    (hlast : lastComplete S.pulses.entries = some last) :
    recordReleased cfg env S =
      if heldBack env S < S.pulses.size then
        recordPrefix cfg env false (min (last + 1) (S.pulses.size - heldBack env S))
          (takeCorrections env (takeNoEoP env S))
      else takeNoEoP env S := by
  obtain ⟨hlt, -, -⟩ := lastComplete_eq_some.mp hlast
  have hsize : last < S.pulses.size := hlt
  have hhold := holdBack_eq S.pulses.size (heldBack env S)
    (show 0 < S.pulses.size by omega) (show last ≤ S.pulses.size - 1 - 0 by omega)
  rw [Nat.zero_add] at hhold
  simp only [recordReleased, hlast]
  show (match holdBack S.pulses.size (heldBack env S) last 0 with
    | none => takeNoEoP env S
    | some n => recordPrefix cfg env false (n + 1) (takeCorrections env (takeNoEoP env S))) = _
  by_cases hroom : heldBack env S < S.pulses.size
  · have hcount : min last (S.pulses.size - 1 - heldBack env S) + 1 =
        min (last + 1) (S.pulses.size - heldBack env S) := by omega
    rw [hhold, if_pos hroom, if_pos hroom, ← hcount]
  · rw [hhold, if_neg hroom, if_neg hroom]

theorem recordReleased_taken (cfg : Config) (env : Env) (S : SMSControl) :
    Taken S (recordReleased cfg env S) (releasedCount env S) := by
  cases hlast : lastComplete S.pulses.entries with
  | none =>
    have hcount : releasedCount env S = 0 := by simp only [releasedCount, hlast]
    have heq : recordReleased cfg env S = S := by simp only [recordReleased, hlast]
    rw [hcount, heq]
    exact (SameBuffer.of_pulses_eq rfl ⟨rfl, rfl, rfl⟩ ⟨rfl, rfl⟩ ⟨rfl, rfl⟩).taken
  | some last =>
    have htake := takeNoEoP_sameBuffer env S
    rw [recordReleased_eq cfg env hlast]
    by_cases hroom : heldBack env S < S.pulses.size
    · have hcount : releasedCount env S = min (last + 1) (S.pulses.size - heldBack env S) := by
        simp only [releasedCount, hlast, if_pos hroom]
      rw [hcount, if_pos hroom]
      exact (htake.trans (takeCorrections_sameBuffer env _)).trans_taken (recordPrefix_taken cfg env _ _)
    · have hcount : releasedCount env S = 0 := by
        simp only [releasedCount, hlast, if_neg hroom]
      rw [hcount, if_neg hroom]
      exact htake.taken

/-- The pulse at position `k` goes when enough pulses follow it in the buffer and it is
    not behind the last complete one. -/
theorem lt_releasedCount {env : Env} {S : SMSControl} {k : Nat} :
    k < releasedCount env S ↔ k + heldBack env S < S.pulses.size ∧
      ∃ q, k ≤ q ∧ ∃ hq : q < S.pulses.entries.length,
        S.pulses.entries[q].2.pulse.pending = ∅ := by
  simp only [releasedCount]
  cases hlast : lastComplete S.pulses.entries with
  | none =>
    rw [lastComplete_eq_none] at hlast
    simp only [Nat.not_lt_zero, false_iff]
    rintro ⟨-, q, -, hq, hpending⟩
    exact hlast _ (List.getElem_mem hq) hpending
  | some last =>
    obtain ⟨hlt, hcomplete, hafter⟩ := lastComplete_eq_some.mp hlast
    have hbehind : (∃ q, k ≤ q ∧ ∃ hq : q < S.pulses.entries.length,
        S.pulses.entries[q].2.pulse.pending = ∅) ↔ k ≤ last := by
      constructor
      · rintro ⟨q, hkq, hq, hpending⟩
        by_contra hk
        exact hafter q (by omega) hq hpending
      · intro hk
        exact ⟨last, hk, hlt, hcomplete⟩
    simp only
    rw [hbehind]
    split <;> omega

end Adara.Spec.PulseBuffer
