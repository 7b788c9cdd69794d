import Adara.Native.RateLimitedLogging
import Mathlib.Data.List.Basic
import Mathlib.Order.Nat

/-! # Rate-limited logging over many calls

The times kept for a message are, up to their marks, old ones and then the last of its
occurrences (`Remembers`).  So a message is held back only where it occurred often enough in the
window; and as every message held back makes the times longer by one, only so many are held back
after each other as the log rate tells (`checkLogs_spec`). -/

namespace Adara.Spec.RateLimitedLogging

open Adara.Native Adara.Native.RateLimitedLogging

variable {limits : Limits} {now : Int} {times occurred : List Int}

/-! ### Old times -/

/-- The times without their marks. -/
def clock (times : List Int) : List Int := times.map fun time => (time.natAbs : Int)

theorem expired_iff {time : Int} :
    expired limits now time = true ↔ limits.windowSeconds.toNat < now - time.natAbs :=
  decide_eq_true_iff

/-- An old time that is marked is still old. -/
theorem expired_oldMark {time : Int} (h : expired limits now time = true) :
    expired limits now (oldMark time) = true := by
  rw [expired_iff] at h ⊢
  rw [oldMark]
  split <;> omega

/-- With too many old times, the loop does not end. -/
theorem markOld_endless (fuel : Nat) {old : Nat} (hold : old < 2 ^ 32)
    (h : ∀ i, i < 2 ^ 32 → ∃ time, times[i]? = some time ∧ expired limits now time = true) :
    markOld limits now fuel old times = none := by
  induction fuel generalizing old times with
  | zero => rfl
  | succ fuel ih =>
    obtain ⟨time, htime, hexpired⟩ := h old hold
    rw [markOld, htime]
    simp only
    rw [if_pos hexpired]
    refine ih (Word32.add_lt _ _) fun i hi => ?_
    obtain ⟨time', htime', hexpired'⟩ := h i hi
    by_cases heq : old = i
    · subst heq
      have hlt := (List.getElem?_eq_some_iff.mp htime).1
      exact ⟨oldMark time, List.getElem?_set_self hlt, expired_oldMark hexpired⟩
    · exact ⟨time', by rw [List.getElem?_set_ne heq, htime'], hexpired'⟩

/-- The loop marks the old times in front. -/
theorem markOld_spec {fuel old : Nat} {done rest marked : List Int} (hdone : done.length < 2 ^ 32)
    (hold : ∀ time ∈ done, expired limits now time = true)
    (h : markOld limits now fuel done.length (done ++ rest) = some (old, marked)) :
    ∃ front back, rest = front ++ back ∧ old = done.length + front.length ∧
      marked = done ++ front.map oldMark ++ back ∧
      (∀ time ∈ front, expired limits now time = true) ∧
      ∀ time ∈ back.head?, expired limits now time = false := by
  induction fuel generalizing done rest with
  | zero => cases h
  | succ fuel ih =>
    rw [markOld, List.getElem?_append_right (Nat.le_refl _), Nat.sub_self] at h
    cases rest with
    | nil =>
      cases h
      exact ⟨[], [], rfl, rfl, by simp, nofun, nofun⟩
    | cons time rest =>
      rw [List.getElem?_cons_zero] at h
      simp only at h
      cases hexpired : expired limits now time with
      | false =>
        rw [hexpired, if_neg Bool.false_ne_true] at h
        cases h
        refine ⟨[], time :: rest, rfl, rfl, by simp, nofun, ?_⟩
        rintro _ ⟨⟩
        exact hexpired
      | true =>
        have hset : (done ++ time :: rest).set done.length (oldMark time) =
            done ++ [oldMark time] ++ rest := by
          rw [List.set_append_right _ _ (Nat.le_refl _), Nat.sub_self, List.set_cons_zero,
            List.append_assoc, List.singleton_append]
        have hold' : ∀ t ∈ done ++ [oldMark time], expired limits now t = true := by
          rw [List.forall_mem_append, List.forall_mem_singleton]
          exact ⟨hold, expired_oldMark hexpired⟩
        have hlen : (done ++ [oldMark time]).length = done.length + 1 := List.length_append
        rw [hexpired, if_pos rfl, hset] at h
        by_cases hlast : done.length + 1 < 2 ^ 32
        · rw [Word32.add_of_lt hlast, ← hlen] at h
          obtain ⟨front, back, rfl, hold'', hmarked, hfront, hback⟩ := ih (by omega) hold' h
          refine ⟨time :: front, back, rfl, ?_, ?_, ?_, hback⟩
          · rw [hold'', hlen, List.length_cons]
            omega
          · rw [hmarked, List.map_cons, List.append_assoc, List.append_assoc, List.append_assoc,
              List.singleton_append, List.cons_append]
          · exact List.forall_mem_cons.mpr ⟨hexpired, hfront⟩
        · -- the count wraps, and it all starts again
          have hall : ∀ i, i < 2 ^ 32 → ∃ t, (done ++ [oldMark time] ++ rest)[i]? = some t ∧
              expired limits now t = true := by
            intro i hi
            have hlt : i < (done ++ [oldMark time]).length := by omega
            refine ⟨(done ++ [oldMark time])[i], ?_, hold' _ (List.getElem_mem hlt)⟩
            rw [List.getElem?_append_left hlt, List.getElem?_eq_getElem hlt]
          rw [markOld_endless fuel (Word32.add_lt _ _) hall] at h
          cases h

/-- With fewer times than the count can tell, the loop ends. -/
theorem markOld_isSome {fuel old : Nat} (hlen : times.length < 2 ^ 32)
    (hfuel : times.length - old < fuel) :
    ∃ marked, markOld limits now fuel old times = some marked := by
  induction fuel generalizing old times with
  | zero => exact absurd hfuel (Nat.not_lt_zero _)
  | succ fuel ih =>
    rw [markOld]
    cases htime : times[old]? with
    | none => exact ⟨_, rfl⟩
    | some time =>
      simp only
      have hlt := (List.getElem?_eq_some_iff.mp htime).1
      split
      · rw [Word32.add_of_lt (show old + 1 < 2 ^ 32 by omega)]
        exact ih (by rwa [List.length_set]) (by rw [List.length_set]; omega)
      · exact ⟨_, rfl⟩

/-! ### What the times remember -/

/-- The times are some that are old now, and then the last occurrences. -/
def Remembers (limits : Limits) (now : Int) (occurred times : List Int) : Prop :=
  ∃ past live, clock times = past ++ live ∧
    (∀ time ∈ past, limits.windowSeconds.toNat < now - time) ∧ live <:+ occurred

/-- Erasing times from the front leaves some of the last occurrences. -/
theorem Remembers.suffix (h : Remembers limits now occurred times) {times' : List Int}
    (hsuffix : times' <:+ times) : Remembers limits now occurred times' := by
  obtain ⟨past, live, hclock, hpast, hlive⟩ := h
  have hclock' : clock times' <:+ past ++ live := hclock ▸ hsuffix.map _
  rcases List.suffix_or_suffix_of_suffix hclock' (List.suffix_append past live) with hin | hover
  · exact ⟨[], clock times', rfl, nofun, hin.trans hlive⟩
  · -- some of the old times are left
    obtain ⟨past', heq⟩ := hover
    obtain ⟨front, hfront⟩ := hclock'
    rw [← heq, ← List.append_assoc, List.append_cancel_right_eq] at hfront
    refine ⟨past', live, heq.symm, fun time htime => hpast time ?_, hlive⟩
    rw [← hfront]
    exact List.mem_append_right _ htime

/-- Marking the last time as logged. -/
theorem Remembers.logged (h : Remembers limits now occurred times) {logged : List Int}
    (hlogged : markLogged times = .ok logged) :
    Remembers limits now occurred logged ∧ logged.length = times.length := by
  rw [markLogged] at hlogged
  cases hlast : times.getLast? with
  | none =>
    rw [hlast] at hlogged
    cases hlogged
  | some time =>
    rw [hlast] at hlogged
    cases hlogged
    obtain ⟨front, rfl⟩ := List.getLast?_eq_some_iff.mp hlast
    have hclock : clock (front ++ [-time]) = clock (front ++ [time]) := by
      rw [clock, clock, List.map_append, List.map_append, List.map_singleton, List.map_singleton,
        Int.natAbs_neg]
    rw [List.dropLast_concat]
    constructor
    · rw [Remembers, hclock]
      exact h
    · rw [List.length_append, List.length_append, List.length_singleton, List.length_singleton]

/-- The last time stays when old times are erased, as it is not one. -/
theorem dropWhile_isOld_getLast? {time : Int} (hlast : times.getLast? = some time)
    (htime : 0 < time) : (times.dropWhile isOld).getLast? = some time := by
  obtain ⟨front, rfl⟩ := List.getLast?_eq_some_iff.mp hlast
  have hnot : isOld time = false := decide_eq_false (by omega)
  rw [List.dropWhile_append]
  split
  · rw [List.dropWhile_cons, hnot]
    rfl
  · exact List.getLast?_concat

theorem eraseOld_suffix (cnt : Nat) (times : List Int) : eraseOld cnt times <:+ times := by
  induction cnt generalizing times with
  | zero => exact List.suffix_refl _
  | succ cnt ih =>
    cases times with
    | nil => exact List.suffix_refl _
    | cons time times =>
      rw [eraseOld]
      split
      · exact (ih times).trans (List.suffix_cons time times)
      · exact List.suffix_refl _

theorem eraseChunks_suffix (logRate fuel old : Nat) (times : List Int) :
    eraseChunks logRate fuel old times <:+ times := by
  induction fuel generalizing old times with
  | zero => exact List.suffix_refl _
  | succ fuel ih =>
    rw [eraseChunks]
    split
    · exact (ih (old - logRate) (eraseOld logRate times)).trans (eraseOld_suffix logRate times)
    · exact List.suffix_refl _

/-- Another occurrence. -/
theorem Remembers.occurs {last : Int} (h : Remembers limits last occurred times)
    (hlast : last ≤ now) (hnow : 0 ≤ now) :
    Remembers limits now (occurred ++ [now]) (times ++ [now]) := by
  obtain ⟨past, live, hclock, hpast, front, rfl⟩ := h
  refine ⟨past, live ++ [now], ?_, fun time htime => ?_, front, ?_⟩
  · have hnatAbs : (now.natAbs : Int) = now := Int.natAbs_of_nonneg hnow
    rw [clock, List.map_append, List.map_singleton, hnatAbs, ← List.append_assoc, ← hclock, clock]
  · have := hpast time htime
    omega
  · rw [List.append_assoc]

/-- What is not marked as old are occurrences, as the first of these times is not old. -/
theorem Remembers.back_suffix (h : Remembers limits now occurred times) {front back : List Int}
    (htimes : times = front ++ back)
    (hback : ∀ time ∈ back.head?, expired limits now time = false) : clock back <:+ occurred := by
  obtain ⟨past, live, hclock, hpast, hlive⟩ := h
  have hboth : clock back <:+ past ++ live := by
    rw [← hclock, htimes, clock, clock, List.map_append]
    exact List.suffix_append _ _
  rcases List.suffix_or_suffix_of_suffix hboth (List.suffix_append past live) with hin | hover
  · exact hin.trans hlive
  · obtain ⟨left, hleft⟩ := hover
    cases left with
    | nil =>
      rw [← hleft]
      exact hlive
    | cons time left =>
      -- an old time would be the first of them
      have hmem : time ∈ past := by
        obtain ⟨gone, hgone⟩ := hboth
        rw [← hleft, ← List.append_assoc, List.append_cancel_right_eq] at hgone
        rw [← hgone]
        exact List.mem_append_right _ List.mem_cons_self
      have hold := hpast time hmem
      cases back with
      | nil => cases hleft
      | cons first back =>
        have hfirst : time = (first.natAbs : Int) := (List.cons.inj hleft).1
        have hnot := hback first rfl
        rw [Bool.eq_false_iff, ne_eq, expired_iff] at hnot
        omega

/-- What the loop leaves: old times, and then occurrences in the window, the present one at the
    end. -/
theorem Remembers.marked (h : Remembers limits now occurred times)
    (hlast : times.getLast? = some now) (hsorted : occurred.Pairwise (· ≤ ·)) (hnow : 0 ≤ now)
    {fuel old : Nat} {marked : List Int}
    (hmark : markOld limits now fuel 0 times = some (old, marked)) :
    Remembers limits now occurred marked ∧ marked.getLast? = some now ∧
      marked.length = times.length ∧ ∃ back : List Int, marked.length = old + back.length ∧
        back <:+ occurred ∧ ∀ time ∈ back, now - time ≤ limits.windowSeconds.toNat := by
  obtain ⟨front, back, htimes, hold, rfl, hfront, hback⟩ :=
    @markOld_spec limits now fuel old [] times _ (show 0 < 2 ^ 32 by omega) nofun hmark
  have htimes : times = front ++ back := htimes
  have hold : old = front.length := hold.trans (Nat.zero_add _)
  have hlen : times.length = front.length + back.length := htimes ▸ List.length_append
  have hsuffix := h.back_suffix htimes hback
  -- the present occurrence is not old
  have hbackLast : back.getLast? = some now := by
    rw [htimes] at hlast
    cases hcases : back with
    | nil =>
      rw [hcases, List.append_nil] at hlast
      have hexpired := expired_iff.mp (hfront now (List.mem_of_getLast? hlast))
      omega
    | cons time back =>
      rw [hcases, List.getLast?_append_cons] at hlast
      exact hlast
  -- nor is anything between the first that is not and the present one
  have hwindow : ∀ time ∈ clock back, now - time ≤ limits.windowSeconds.toNat := by
    cases hcases : back with
    | nil => nofun
    | cons first back' =>
      have hnot := hback first (by rw [hcases]; rfl)
      rw [Bool.eq_false_iff, ne_eq, expired_iff] at hnot
      have hpairs := hsorted.sublist hsuffix.sublist
      rw [hcases, clock, List.map_cons, List.pairwise_cons] at hpairs
      rw [clock, List.map_cons, List.forall_mem_cons]
      refine ⟨by omega, fun time htime => ?_⟩
      have := hpairs.1 time htime
      omega
  refine ⟨⟨clock (front.map oldMark), clock back, ?_, ?_, hsuffix⟩, ?_, ?_, clock back, ?_,
    hsuffix, hwindow⟩
  · rw [List.nil_append, clock, List.map_append]
    rfl
  · intro time htime
    rw [clock, List.map_map, List.mem_map] at htime
    obtain ⟨time', hmem, rfl⟩ := htime
    exact expired_iff.mp (expired_oldMark (hfront time' hmem))
  · rw [List.nil_append, List.getLast?_append, hbackLast, Option.some_or]
  · rw [List.nil_append, List.length_append, List.length_map, hlen]
  · rw [List.nil_append, List.length_append, List.length_map, hold, clock, List.length_map]

/-! ### One call -/

/-- The occurrences in the window. -/
def recent (limits : Limits) (now : Int) (occurred : List Int) : List Int :=
  occurred.filter fun time => now - time ≤ limits.windowSeconds.toNat

theorem length_le_recent {back : List Int} (hback : back <:+ occurred)
    (hwindow : ∀ time ∈ back, now - time ≤ limits.windowSeconds.toNat) :
    back.length ≤ (recent limits now occurred).length := by
  have hall : back.filter (fun time => now - time ≤ limits.windowSeconds.toNat) = back :=
    List.filter_eq_self.mpr fun time htime => decide_eq_true (hwindow time htime)
  have hsub := hback.sublist.filter fun time => decide (now - time ≤ limits.windowSeconds.toNat)
  rw [hall] at hsub
  exact hsub.length_le

/-- A message is held back at a time, with so many times kept then. -/
structure HeldBack (limits : Limits) (now : Int) (occurred times : List Int) : Prop where
  often : limits.threshold.toNat ≤ (recent limits now occurred).length
  full : limits.threshold.toNat ≤ times.length
  between : (times.length - limits.threshold.toNat) % limits.logRate.toNat ≠ 0

/-- What a call with a result leaves, given the times before it. -/
structure Checked (limits : Limits) (now : Int) (occurred before : List Int) (ok : Bool)
    (times : List Int) : Prop where
  remembers : Remembers limits now occurred times
  more : times.length ≤ before.length + 1
  held : ok = false → HeldBack limits now occurred times ∧ times.length = before.length + 1

theorem markLogged_ok {time : Int} (hlast : times.getLast? = some time) :
    markLogged times = .ok (times.dropLast ++ [-time]) := by
  rw [markLogged, hlast]

/-- A call has no result only where the old times are too many for their count. -/
theorem checkTimes_spec (hrate : limits.logRate ≠ 0)
    (h : Remembers limits now occurred (times ++ [now])) (hsorted : occurred.Pairwise (· ≤ ·))
    (hnow : 0 < now) :
    (checkTimes limits now times = .error .endless ∧ 2 ^ 32 ≤ times.length + 1) ∨
      ∃ ok info after, checkTimes limits now times = .ok (ok, info, after) ∧
        Checked limits now occurred times ok after := by
  rw [checkTimes]
  simp only
  cases hmark : markOld limits now ((times ++ [now]).length + 1) 0 (times ++ [now]) with
  | none =>
    refine .inl ⟨rfl, ?_⟩
    by_contra hfew
    have hlen : (times ++ [now]).length = times.length + 1 := List.length_append
    have hends : ∃ marked, markOld limits now ((times ++ [now]).length + 1) 0 (times ++ [now]) =
        some marked := markOld_isSome (by omega) (by omega)
    obtain ⟨marked, hmarked⟩ := hends
    rw [hmark] at hmarked
    cases hmarked
  | some result =>
    obtain ⟨old, marked⟩ := result
    obtain ⟨hremembers, hlast, hlen, back, hsize, hback, hwindow⟩ :=
      h.marked List.getLast?_concat hsorted (Int.le_of_lt hnow) hmark
    rw [List.length_append, List.length_singleton] at hlen
    right
    simp only
    by_cases hover : limits.threshold.toNat ≤ marked.length ∧
        decide (limits.threshold.toNat ≤ marked.length ∧
          marked.length - old < limits.threshold.toNat) = false
    · rw [if_pos hover, if_neg hrate]
      by_cases hmod : (marked.length - limits.threshold.toNat) % limits.logRate.toNat = 0
      · -- one of many is logged
        rw [if_pos hmod, markLogged_ok hlast]
        obtain ⟨hlogged, hsame⟩ := hremembers.logged (markLogged_ok hlast)
        have herased := eraseChunks_suffix limits.logRate.toNat old old
          (marked.dropLast ++ [-now])
        refine ⟨true, _, _, rfl, hlogged.suffix herased, ?_, nofun⟩
        have := herased.length_le
        omega
      · rw [if_neg hmod]
        have hmany := decide_eq_false_iff_not.mp hover.2
        have hoften : limits.threshold.toNat ≤ back.length := by omega
        exact ⟨false, _, _, rfl, hremembers, Nat.le_of_eq hlen, fun _ =>
          ⟨⟨Nat.le_trans hoften (length_le_recent hback hwindow), hover.1, hmod⟩, hlen⟩⟩
    · -- the present occurrence stays when the old times are erased
      rw [if_neg hover]
      have hstays := dropWhile_isOld_getLast? hlast hnow
      rw [markLogged_ok hstays]
      have hleft := List.dropWhile_suffix (l := marked) isOld
      obtain ⟨hlogged, hsame⟩ := (hremembers.suffix hleft).logged (markLogged_ok hstays)
      refine ⟨true, _, _, rfl, hlogged, ?_, nofun⟩
      have := hleft.length_le
      omega

/-! ### Many calls -/

/-- What calls return, one after another: all that is said about a call is what it leaves. -/
inductive Checks (limits : Limits) :
    (occurred before : List Int) → List Int → List (Except CheckFailure Bool) → Prop
  | done (occurred before : List Int) : Checks limits occurred before [] []
  | endless {occurred before rest : List Int} {now : Int} (h : 2 ^ 32 ≤ before.length + 1) :
    Checks limits occurred before (now :: rest) [.error .endless]
  | call {occurred before after rest : List Int} {now : Int} {ok : Bool}
    {results : List (Except CheckFailure Bool)}
    (h : Checked limits now (occurred ++ [now]) before ok after)
    (hrest : Checks limits (occurred ++ [now]) after rest results) :
    Checks limits occurred before (now :: rest) (.ok ok :: results)

section
variable {κ : Type} [LinearOrder κ] {key : κ}

/-- The times kept for the message. -/
def kept (key : κ) (history : History κ) : List Int := (history.find? key).getD []

theorem checkLogs_checks (hrate : limits.logRate ≠ 0) {history : History κ} {last : Int}
    {rest : List Int} (h : Remembers limits last occurred (kept key history))
    (hlast : ∀ time ∈ rest, last ≤ time) (hsorted : (occurred ++ rest).Pairwise (· ≤ ·))
    (hpos : ∀ time ∈ rest, 0 < time) :
    Checks limits occurred (kept key history) rest (checkLogs limits key history rest) := by
  induction rest generalizing history occurred last with
  | nil => exact .done _ _
  | cons now rest ih =>
    rw [List.forall_mem_cons] at hlast hpos
    have happend : occurred ++ now :: rest = occurred ++ [now] ++ rest := by
      rw [List.append_assoc, List.singleton_append]
    rw [happend] at hsorted
    have hoccurs := h.occurs hlast.1 (Int.le_of_lt hpos.1)
    rw [checkLogs, checkLog]
    rcases checkTimes_spec hrate hoccurs (List.pairwise_append.mp hsorted).1 hpos.1 with
      ⟨hendless, hfull⟩ | ⟨ok, info, after, hcheck, hchecked⟩
    · rw [kept] at hendless hfull ⊢
      rw [hendless]
      exact .endless hfull
    · rw [kept] at hcheck
      rw [hcheck]
      have hafter : kept key (history.alter key fun _ => after) = after := by
        rw [kept, SortedMap.find?_alter, if_pos rfl, Option.getD_some]
      refine .call hchecked ?_
      have hlater : ∀ time ∈ rest, now ≤ time := fun time htime =>
        (List.pairwise_append.mp hsorted).2.2 now (by simp) time htime
      have hrest := ih (hafter.symm ▸ hchecked.remembers) hlater hsorted hpos.2
      rw [hafter] at hrest
      exact hrest

end

variable {before rest : List Int} {results : List (Except CheckFailure Bool)}

theorem Checks.not_error (h : Checks limits occurred before rest results) {failure : CheckFailure}
    (hmem : .error failure ∈ results) : failure = .endless := by
  induction h with
  | done => cases hmem
  | endless =>
    rw [List.mem_singleton] at hmem
    exact Except.error.inj hmem
  | call _ _ ih =>
    rcases List.mem_cons.mp hmem with heq | hmem
    · cases heq
    · exact ih hmem

/-- With fewer calls than the count of old times can tell, each returns. -/
theorem Checks.returns (h : Checks limits occurred before rest results)
    (hfew : before.length + rest.length < 2 ^ 32) :
    results.length = rest.length ∧ ∀ result ∈ results, ∃ ok, result = .ok ok := by
  induction h with
  | done => exact ⟨rfl, nofun⟩
  | endless hfull =>
    rw [List.length_cons] at hfew
    omega
  | call hchecked _ ih =>
    have := hchecked.more
    rw [List.length_cons] at hfew
    obtain ⟨hlen, hok⟩ := ih (by omega)
    refine ⟨by rw [List.length_cons, List.length_cons, hlen], ?_⟩
    exact List.forall_mem_cons.mpr ⟨⟨_, rfl⟩, hok⟩

/-- A message is held back only where it occurred often in the window. -/
theorem Checks.often (h : Checks limits occurred before rest results) {i : Nat}
    (hheld : results[i]? = some (.ok false)) :
    ∃ now, rest[i]? = some now ∧ limits.threshold.toNat ≤
      (recent limits now (occurred ++ rest.take (i + 1))).length := by
  induction h generalizing i with
  | done => cases hheld
  | endless =>
    cases i with
    | zero => cases hheld
    | succ i => cases hheld
  | @call occurred before after rest now ok results hchecked _ ih =>
    cases i with
    | zero =>
      have hok : ok = false := Except.ok.inj (Option.some.inj hheld)
      exact ⟨now, rfl, (hchecked.held hok).1.often⟩
    | succ i =>
      obtain ⟨now', hnow, hoften⟩ := ih hheld
      rw [List.append_assoc, List.singleton_append, ← List.take_succ_cons] at hoften
      exact ⟨now', hnow, hoften⟩

/-- Each message held back makes the times one more, and none of these numbers of times is one at
    which a message is logged. -/
theorem Checks.between {mid post : List (Except CheckFailure Bool)}
    (h : Checks limits occurred before rest (mid ++ post))
    (hmid : ∀ result ∈ mid, result = .ok false) {j : Nat} (hj : j < mid.length) :
    limits.threshold.toNat ≤ before.length + 1 ∧
      (before.length + 1 - limits.threshold.toNat + j) % limits.logRate.toNat ≠ 0 := by
  induction mid generalizing occurred before rest j with
  | nil => cases hj
  | cons result mid ih =>
    obtain ⟨rfl, hothers⟩ := List.forall_mem_cons.mp hmid
    cases h with
    | call hchecked hrest =>
      obtain ⟨⟨_, hfull, hmod⟩, hlen⟩ := hchecked.held rfl
      rw [hlen] at hfull hmod
      cases j with
      | zero => exact ⟨hfull, hmod⟩
      | succ j =>
        obtain ⟨_, hlater⟩ := ih hrest hothers (Nat.lt_of_succ_lt_succ hj)
        have hone : before.length + 1 - limits.threshold.toNat + (j + 1) =
            before.length + 1 + 1 - limits.threshold.toNat + j := by omega
        rw [hlen] at hlater
        rw [hone]
        exact ⟨hfull, hlater⟩

/-- One of as many numbers in a row as the log rate is a multiple of it. -/
theorem exists_add_mod_eq_zero {rate : Nat} (hrate : 0 < rate) (n : Nat) :
    ∃ j, j < rate ∧ (n + j) % rate = 0 := by
  have hlt := Nat.mod_lt n hrate
  have hdiv := Nat.div_add_mod n rate
  by_cases hzero : n % rate = 0
  · exact ⟨0, hrate, hzero⟩
  · refine ⟨rate - n % rate, by omega, ?_⟩
    have hnext : n + (rate - n % rate) = rate * (n / rate + 1) := by
      rw [Nat.mul_add, Nat.mul_one]
      omega
    rw [hnext, Nat.mul_mod_right]

/-- Fewer messages than the log rate are held back after each other. -/
theorem Checks.held_lt (hrate : limits.logRate ≠ 0) {pre mid post : List (Except CheckFailure Bool)}
    (h : Checks limits occurred before rest (pre ++ mid ++ post))
    (hmid : ∀ result ∈ mid, result = .ok false) : mid.length < limits.logRate.toNat := by
  have hpos : 0 < limits.logRate.toNat := by
    refine Nat.pos_of_ne_zero fun hzero => hrate ?_
    exact UInt32.toNat_inj.mp hzero
  induction pre generalizing occurred before rest with
  | nil =>
    by_contra hlong
    obtain ⟨j, hj, hmod⟩ :=
      exists_add_mod_eq_zero hpos (before.length + 1 - limits.threshold.toNat)
    have hfew : j < mid.length := by omega
    exact (h.between hmid hfew).2 hmod
  | cons result pre ih =>
    rw [List.cons_append, List.cons_append] at h
    generalize hresults : pre ++ mid ++ post = results at h
    cases h with
    | endless =>
      have hnil : mid = [] := (List.append_eq_nil_iff.mp (List.append_eq_nil_iff.mp hresults).1).2
      rw [hnil]
      exact hpos
    | call _ hrest =>
      rw [← hresults] at hrest
      exact ih hrest

/-- For the calls about one message, while the clock does not go back: no call marks the last of no
    times, or takes a remainder by 0; a message is held back only where it occurred `threshold`
    times in the window, the present one with them; fewer messages than `log_rate` are held back
    after each other; and every one of less than `2 ^ 32` calls returns. -/
theorem checkLogs_spec {κ : Type} [LinearOrder κ] (limits : Limits) (key : κ)
    (history : History κ) (times : List Int) (hrate : 1 ≤ limits.logRate)
    (hnew : history.find? key = none) (hsorted : times.Pairwise (· ≤ ·))
    (hwindow : ∀ time ∈ times, limits.windowSeconds.toNat < time) :
    (∀ failure, .error failure ∈ checkLogs limits key history times → failure = .endless) ∧
      (∀ i, (checkLogs limits key history times)[i]? = some (.ok false) →
        ∃ now, times[i]? = some now ∧
          limits.threshold.toNat ≤ (recent limits now (times.take (i + 1))).length) ∧
      (∀ pre mid post, checkLogs limits key history times = pre ++ mid ++ post →
        (∀ result ∈ mid, result = .ok false) → mid.length < limits.logRate.toNat) ∧
      (times.length < 2 ^ 32 → (checkLogs limits key history times).length = times.length ∧
        ∀ result ∈ checkLogs limits key history times, ∃ ok, result = .ok ok) := by
  have hzero : limits.logRate ≠ 0 := by
    rintro hzero
    rw [hzero] at hrate
    exact absurd hrate (by decide)
  have hnone : kept key history = [] := by rw [kept, hnew, Option.getD_none]
  have hpos : ∀ time ∈ times, 0 < time := fun time htime => by
    have := hwindow time htime
    omega
  have hstart : Remembers limits 0 [] (kept key history) :=
    ⟨[], [], by rw [hnone]; rfl, nofun, List.suffix_refl _⟩
  have hfirst : ∀ time ∈ times, 0 ≤ time := fun time htime => Int.le_of_lt (hpos time htime)
  have hchecks : Checks limits [] (kept key history) times
      (checkLogs limits key history times) :=
    checkLogs_checks hzero hstart hfirst (by rwa [List.nil_append]) hpos
  refine ⟨fun failure hmem => hchecks.not_error hmem, fun i hheld => hchecks.often hheld,
    fun pre mid post hresults hmid => ?_, fun hfew => hchecks.returns ?_⟩
  · rw [hresults] at hchecks
    exact hchecks.held_lt hzero hmid
  · rw [hnone, List.length_nil, Nat.zero_add]
    exact hfew

/-- With a threshold of two in ten seconds and a log rate of three, of six messages in one second
    each third one is logged behind the threshold. -/
theorem checkLogs_spec_six :
    checkLogs ⟨10, 2, 3⟩ (0 : Nat) SortedMap.empty [20, 20, 20, 20, 20, 20] =
        [.ok true, .ok true, .ok false, .ok false, .ok true, .ok false] ∧
      (∀ pre mid post, checkLogs ⟨10, 2, 3⟩ (0 : Nat) SortedMap.empty [20, 20, 20, 20, 20, 20] =
        pre ++ mid ++ post → (∀ result ∈ mid, result = .ok false) → mid.length < 3) :=
  ⟨rfl, (checkLogs_spec ⟨10, 2, 3⟩ 0 SortedMap.empty [20, 20, 20, 20, 20, 20] (by decide) rfl
    (by decide) (by decide)).2.2.1⟩

end Adara.Spec.RateLimitedLogging
