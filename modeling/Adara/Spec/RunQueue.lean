import Adara.Spec.STCClientMgr

/-! # No run is lost or sent twice

Every run that was queued waits, is being sent, has been translated, or was left for manual
processing, and only one of these.  The ledger says so with one run set apart (`out`): the
one a function has taken from its place and not yet put into the next. -/

namespace Adara.Spec.STCClientMgr

open Adara.Native Adara.Native.STCClientMgr

/-- The run waits in `m_pendingRuns`. -/
abbrev IsPending (m : STCClientMgr) (c : ContId) : Prop :=
  m.pendingRuns.find? (m.runOf c) = some c

/-- The run is being sent: it is in `m_sendingRuns`. -/
abbrev IsSending (m : STCClientMgr) (c : ContId) : Prop :=
  m.sendingRuns.find? (m.runOf c) = some c

/-- The run is in one of the four places, and in no other. -/
def Placed (m : STCClientMgr) (c : ContId) : Prop :=
  [decide (IsPending m c), decide (IsSending m c), (m.conts c).translated,
    (m.conts c).manual].count true = 1

/-- No run of this number waits or is being sent. -/
def Free (m : STCClientMgr) (run : Nat) : Prop :=
  m.pendingRuns.find? run = none ∧ m.sendingRuns.find? run = none

/-- A run is only queued while its number neither waits nor is being sent. -/
def QueuedOnce (m : STCClientMgr) : STCClientMgr.Event → Prop
  | .start run _ => run = 0 ∨ Free m run
  | .queueRuns runs _ => runs.Nodup ∧ ∀ run ∈ runs, Free m run
  | _ => True

instance (m : STCClientMgr) (run : Nat) : Decidable (Free m run) :=
  inferInstanceAs (Decidable (_ ∧ _))

instance (m : STCClientMgr) : (e : STCClientMgr.Event) → Decidable (QueuedOnce m e)
  | .start run _ => inferInstanceAs (Decidable (run = 0 ∨ Free m run))
  | .queueRuns runs _ => inferInstanceAs (Decidable (runs.Nodup ∧ ∀ run ∈ runs, Free m run))
  | .finish _ | .lookupComplete _ _ | .connectComplete _ | .connectTimeout | .reconnectTimeout _
  | .transientTimeout _ | .lookupTimeout _ | .clientComplete _ _ _ | .setMaxConnections _ _
  | .setMaxRequeueCount _ => instDecidableTrue

/-- A run that is neither translated nor left for manual processing. -/
def Open (m : STCClientMgr) (c : ContId) : Prop :=
  (m.conts c).translated = false ∧ (m.conts c).manual = false

structure Ledger (m : STCClientMgr) (out : Option ContId) : Prop where
  disjoint : ∀ r c, m.pendingRuns.find? r = some c → m.sendingRuns.find? r = none
  pending : ∀ r c, m.pendingRuns.find? r = some c → Open m c
  sending : ∀ r c, m.sendingRuns.find? r = some c → Open m c
  clients : m.clients.Perm (m.sendingRuns.entries.map Prod.snd)
  placed : ∀ c, c < m.created → m.runOf c ≠ 0 → some c ≠ out →
    IsPending m c ∨ IsSending m c ∨ (m.conts c).translated ∨ (m.conts c).manual
  once : ∀ c, (m.conts c).translated = false ∨ (m.conts c).manual = false
  out : ∀ c, out = some c → c < m.created ∧ Open m c ∧ Free m (m.runOf c)

variable {m m' : STCClientMgr} {out : Option ContId}

theorem init_ledger (maxConnections maxRequeueCount : Nat) :
    Ledger (init maxConnections maxRequeueCount) none where
  disjoint := by simp [init]
  pending := by simp [init]
  sending := by simp [init]
  clients := by simp [init]
  placed := by simp [init]
  once := fun c => .inl rfl
  out := nofun

/-- With no run set apart, every run is in exactly one place. -/
theorem Ledger.exactlyOne (h : Ledger m none) {c : ContId} (hc : c < m.created)
    (hrun : m.runOf c ≠ 0) : Placed m c := by
  have hone : ∀ p s t n : Bool, (p ∨ s ∨ t ∨ n) → (p → s = false ∧ t = false ∧ n = false) →
      (s → t = false ∧ n = false) → (t = false ∨ n = false) → [p, s, t, n].count true = 1 := by
    decide
  refine hone _ _ _ _ ?_ ?_ ?_ (h.once c)
  · simpa only [decide_eq_true_eq] using h.placed c hc hrun nofun
  · intro hp
    have hp : IsPending m c := of_decide_eq_true hp
    refine ⟨decide_eq_false fun hs => ?_, h.pending _ c hp⟩
    cases (h.disjoint _ _ hp).symm.trans hs
  · intro hs
    exact h.sending _ c (of_decide_eq_true hs)

/-! ### What keeps the ledger -/

theorem startConnect_ledger (h : Ledger m out) (gai : Bool) : Ledger (m.startConnect gai) out := by
  obtain ⟨-, heq⟩ | ⟨-, -, -, -, -, heq⟩ := startConnect_cases m gai
  · rw [heq]
    exact { h with }
  · rw [heq]
    exact { h with }

theorem backOff_ledger (h : Ledger m out) : Ledger m.backOff out := by
  obtain ⟨t, ht⟩ := backOff_eq m
  rw [ht]
  exact { h with }

/-- The run set apart is queued. -/
theorem queueRun_ledger {c : ContId} (h : Ledger m (some c)) : Ledger (m.queueRun c) none := by
  obtain ⟨hc, hopen, hpend, hsend⟩ := h.out c rfl
  have hq : (m.pendingRuns.insert (m.runOf c) c).find? (m.runOf c) = some c :=
    SortedMap.find?_insert_self c hpend
  rw [queueRun, hpend]
  simp only [Option.isSome_none, Bool.false_eq_true, if_false]
  have hfind : ∀ r d, (m.pendingRuns.insert (m.runOf c) c).find? r = some d →
      r = m.runOf c ∧ d = c ∨ m.pendingRuns.find? r = some d := by
    intro r d hd
    obtain heq | hmem := (SortedMap.mem_insert hpend).mp (SortedMap.find?_eq_some.mp hd)
    · cases heq
      exact .inl ⟨rfl, rfl⟩
    · exact .inr (SortedMap.find?_eq_some.mpr hmem)
  refine { h with
    disjoint := fun r d hd => ?_
    pending := fun r d hd => ?_
    placed := fun d hd hrun _ => ?_
    out := fun d hd => absurd hd.symm (Option.some_ne_none d) }
  · obtain ⟨rfl, rfl⟩ | hd := hfind r d hd
    · exact hsend
    · exact h.disjoint r d hd
  · obtain ⟨rfl, rfl⟩ | hd := hfind r d hd
    · exact hopen
    · exact h.pending r d hd
  · by_cases hdc : d = c
    · subst hdc
      exact .inl hq
    · refine (h.placed d hd hrun fun he => hdc (Option.some.inj he)).imp_left fun hp => ?_
      have hne : m.runOf d ≠ m.runOf c := by
        intro heq
        rw [IsPending, heq, hpend] at hp
        cases hp
      exact (SortedMap.find?_insert_of_ne c hne).trans hp

/-- A new container for a run is set apart. -/
theorem create_ledger {run : Nat} (hinv : Inv m) (h : Ledger m none) (hfree : Free m run)
    (active : Bool) : Ledger (m.create run active) (some m.created) := by
  have hold : ∀ c, c ≠ m.created → (m.create run active).conts c = m.conts c := fun c hc =>
    Function.update_of_ne hc ..
  have hopen : ∀ c, c < m.created → Open m c → Open (m.create run active) c := by
    intro c hc ho
    rw [Open, hold c (Nat.ne_of_lt hc)]
    exact ho
  refine { h with
    pending := fun r c hc => hopen c (hinv.pending r c hc).2.2 (h.pending r c hc)
    sending := fun r c hc => hopen c (hinv.sending r c hc).2.2 (h.sending r c hc)
    placed := fun c hc hrun hout => ?_
    once := fun c => ?_
    out := fun c hc => ?_ }
  · have hne : c ≠ m.created := fun he => hout (congrArg some he)
    have hlt : c < m.created := Nat.lt_of_le_of_ne (Nat.le_of_lt_succ hc) hne
    rw [runOf, hold c hne] at hrun
    simp only [IsPending, IsSending, runOf, hold c hne]
    exact h.placed c hlt hrun (Option.some_ne_none c)
  · by_cases hc : c = m.created
    · rw [hc, create_conts]
      exact .inl rfl
    · rw [hold c hc]
      exact h.once c
  · cases hc
    rw [Open, runOf, create_conts]
    exact ⟨Nat.lt_succ_self _, ⟨rfl, rfl⟩, hfree⟩

/-- A container that is not for a run has no place. -/
theorem create_zero_ledger (hinv : Inv m) (h : Ledger m none) (active : Bool) :
    Ledger (m.create 0 active) none := by
  have hfree : Free m 0 := by
    refine ⟨?_, ?_⟩
    · refine Option.eq_none_iff_forall_ne_some.mpr fun c hc => ?_
      exact (hinv.pending 0 c hc).2.1 rfl
    · refine Option.eq_none_iff_forall_ne_some.mpr fun c hc => ?_
      exact (hinv.sending 0 c hc).2.1 rfl
  refine { create_ledger hinv h hfree active with placed := fun c hc hrun _ => ?_, out := nofun }
  refine (create_ledger hinv h hfree active).placed c hc hrun fun he => hrun ?_
  rw [Option.some.inj he, runOf, create_conts]

theorem handedOver_ledger {r : Nat} {c : ContId} (hinv : Inv m) (h : Ledger m none)
    (hfind : m.pendingRuns.find? r = some c) (s : QueueMode) :
    Ledger (handedOver m r c s) none := by
  have hnone := h.disjoint r c hfind
  have hr : m.runOf c = r := (hinv.pending r c hfind).1
  refine { h with
    disjoint := fun q d hd => ?_
    pending := fun q d hd => ?_
    sending := fun q d hd => ?_
    clients := ?_
    placed := fun d hd hrun _ => ?_
    out := fun d hd => absurd hd.symm (Option.some_ne_none d) }
  · simp only [handedOver, SortedMap.find?_erase, SortedMap.find?_alter] at hd ⊢
    split at hd
    · cases hd
    · rename_i hq
      rw [if_neg hq]
      exact h.disjoint q d hd
  · simp only [handedOver, SortedMap.find?_erase] at hd
    split at hd
    · cases hd
    · exact h.pending q d hd
  · simp only [handedOver, SortedMap.find?_alter] at hd
    split at hd
    · cases hd
      exact h.pending r c hfind
    · exact h.sending q d hd
  · have hperm := (SortedMap.alter_perm (fun _ => c) hnone).map Prod.snd
    exact (h.clients.cons c).trans hperm.symm
  · simp only [IsPending, IsSending, handedOver, runOf, SortedMap.find?_erase,
      SortedMap.find?_alter]
    by_cases hdr : m.runOf d = r
    · -- the run taken is the only one of its number in a queue
      obtain hp | hs | hdone := h.placed d hd hrun (Option.some_ne_none d)
      · rw [IsPending, hdr, hfind] at hp
        cases hp
        exact .inr (.inl (if_pos hdr))
      · rw [IsSending, hdr, hnone] at hs
        cases hs
      · exact .inr (.inr hdone)
    · have hplaced := h.placed d hd hrun (Option.some_ne_none d)
      rw [IsPending, IsSending, runOf] at hplaced
      rw [runOf] at hdr
      rwa [if_neg hdr, if_neg hdr]

theorem takenBack_ledger {r : Nat} {c : ContId} (h : Ledger m none)
    (hfind : m.pendingRuns.find? r = some c) (s : QueueMode) :
    Ledger (takenBack m r c s) none := by
  have hback := SortedMap.erase_alter (fun _ => c) (h.disjoint r c hfind)
  refine { h with
    disjoint := fun q d hd => ?_
    sending := fun q d hd => ?_
    clients := ?_
    placed := fun d hd hrun hout => ?_
    out := nofun }
  · simp only [takenBack, hback]
    exact h.disjoint q d hd
  · simp only [takenBack, hback] at hd
    exact h.sending q d hd
  · simp only [takenBack, hback]
    exact h.clients
  · simp only [IsPending, IsSending, takenBack, runOf, hback]
    exact h.placed d hd hrun hout

/-- A container that is being sent is known by its client. -/
theorem Ledger.isSending (hinv : Inv m) (h : Ledger m out) {c : ContId} (hc : c ∈ m.clients) :
    IsSending m c := by
  obtain ⟨⟨r, d⟩, he, rfl⟩ := List.mem_map.mp (h.clients.mem_iff.mp hc)
  have hfind := SortedMap.find?_eq_some.mpr he
  rw [IsSending, (hinv.sending r _ hfind).1]
  exact hfind

/-- A run whose client is gone is set apart. -/
theorem dequeueRun_ledger {c : ContId} (hinv : Inv m) (h : Ledger m none) (hc : c ∈ m.clients) :
    Ledger (dequeueRun { m with clients := m.clients.erase c } c) (some c) := by
  have hsend := h.isSending hinv hc
  refine { h with
    disjoint := fun r d hd => ?_
    sending := fun r d hd => ?_
    clients := ?_
    placed := fun d hd hrun hout => ?_
    out := fun d hd => ?_ }
  · simp only [dequeueRun, SortedMap.find?_erase]
    split
    · rfl
    · exact h.disjoint r d hd
  · simp only [dequeueRun, SortedMap.find?_erase] at hd
    split at hd
    · cases hd
    · exact h.sending r d hd
  · have hperm := (SortedMap.erase_perm hsend).map Prod.snd
    have herase := (h.clients.trans hperm).erase c
    rwa [List.map_cons, List.erase_cons_head] at herase
  · refine (h.placed d hd hrun (Option.some_ne_none d)).imp_right (Or.imp_left fun hs => ?_)
    have hne : m.runOf d ≠ m.runOf c := by
      intro heq
      rw [IsSending, heq, hsend] at hs
      exact hout hs.symm
    exact (SortedMap.find?_erase ..).trans ((if_neg hne).trans hs)
  · cases hd
    refine ⟨(hinv.clients c hc).2, h.sending _ c hsend, ?_, ?_⟩
    · refine Option.eq_none_iff_forall_ne_some.mpr fun e he => ?_
      cases (h.disjoint _ e he).symm.trans hsend
    · exact (SortedMap.find?_erase ..).trans (if_pos rfl)

/-- A change of a container that is not one of its place. -/
theorem setCont_ledger {c : ContId} {r : RunContainer} (h : Ledger m out)
    (hrun : r.runNumber = m.runOf c) (htrans : r.translated = (m.conts c).translated)
    (hman : r.manual = (m.conts c).manual) : Ledger (m.setCont c r) out := by
  have hruns := setCont_runOf hrun
  have hflags : ∀ d, ((m.setCont c r).conts d).translated = (m.conts d).translated ∧
      ((m.setCont c r).conts d).manual = (m.conts d).manual := by
    intro d
    by_cases hd : d = c
    · subst hd
      simpa [setCont] using And.intro htrans hman
    · simp [setCont, hd]
  have hopen : ∀ d, Open (m.setCont c r) d ↔ Open m d := by
    intro d
    rw [Open, (hflags d).1, (hflags d).2]
    rfl
  refine { h with
    pending := fun q d hd => (hopen d).mpr (h.pending q d hd)
    sending := fun q d hd => (hopen d).mpr (h.sending q d hd)
    placed := fun d hd hne hout => ?_
    once := fun d => ?_
    out := fun d hd => ?_ }
  · rw [IsPending, IsSending, hruns, (hflags d).1, (hflags d).2]
    exact h.placed d hd (hruns d ▸ hne) hout
  · rw [(hflags d).1, (hflags d).2]
    exact h.once d
  · rw [hopen, hruns]
    exact h.out d hd

/-- The run set apart is marked, as translated or for manual processing. -/
theorem mark_ledger {c : ContId} {r : RunContainer} (hinv : Inv m) (h : Ledger m (some c))
    (hrun : r.runNumber = m.runOf c)
    (hmark : r.translated = true ∧ r.manual = false ∨ r.translated = false ∧ r.manual = true) :
    Ledger (m.setCont c r) none := by
  obtain ⟨hc, hopen, hpend, hsend⟩ := h.out c rfl
  have hruns := setCont_runOf hrun
  have hself : (m.setCont c r).conts c = r := Function.update_self ..
  have hother : ∀ d, d ≠ c → (m.setCont c r).conts d = m.conts d := fun d hd =>
    Function.update_of_ne hd ..
  have hopenOther : ∀ d, d ≠ c → Open m d → Open (m.setCont c r) d := by
    intro d hd ho
    rw [Open, hother d hd]
    exact ho
  refine { h with
    pending := fun q d hd => hopenOther d ?_ (h.pending q d hd)
    sending := fun q d hd => hopenOther d ?_ (h.sending q d hd)
    placed := fun d hd hne _ => ?_
    once := fun d => ?_
    out := nofun }
  · rintro rfl
    have hplace : IsPending m d := (congrArg _ (hinv.pending q d hd).1).trans hd
    cases hplace.symm.trans hpend
  · rintro rfl
    have hplace : IsSending m d := (congrArg _ (hinv.sending q d hd).1).trans hd
    cases hplace.symm.trans hsend
  · by_cases hdc : d = c
    · rw [hdc, hself]
      exact .inr (.inr (hmark.imp And.left And.right))
    · rw [IsPending, IsSending, hruns, hother d hdc]
      exact h.placed d hd (hruns d ▸ hne) fun he => hdc (Option.some.inj he)
  · by_cases hdc : d = c
    · rw [hdc, hself]
      exact hmark.symm.imp And.left And.right
    · rw [hother d hdc]
      exact h.once d

/-! ### Events -/

theorem connectComplete_ledger (hinv : Inv m) (h : Ledger m none)
    (hsize : 0 < m.pendingRuns.size) (io : ConnectIO) (hm : m.connectComplete io = some m') :
    Ledger m' none := by
  obtain heq | ⟨heq, -⟩ | ⟨r, c, s, hfind, -, -, -, heq⟩ := connectComplete_cases hinv hsize io
  · cases heq.symm.trans hm
    exact { h with }
  · cases heq.symm.trans hm
    exact h
  · cases heq.symm.trans hm
    split
    · exact startConnect_ledger (handedOver_ledger hinv h hfind s) io.gai
    · exact takenBack_ledger h hfind s

theorem lookupComplete_ledger (hinv : Inv m) (h : Ledger m none) (n : Nat) (own : Bool)
    (io : LookupIO) (hm : lookupComplete { m with lookups := n } own io = some m') :
    Ledger m' none := by
  obtain ⟨-, heq⟩ | ⟨hconn, -, heq | heq | ⟨-, -, -, heq⟩⟩ := lookupComplete_cases m n own io
  · cases heq.symm.trans hm
    exact { h with }
  · cases heq.symm.trans hm
    exact { h with }
  · cases heq.symm.trans hm
    exact { h with }
  · have hopened : Ledger (opened m n) none := { h with }
    exact connectComplete_ledger (opened_inv hinv hconn n) hopened (hinv.waiting (.inl hconn))
      io.complete (heq.symm.trans hm)

theorem queueScanned_ledger {run : Nat} (hinv : Inv m) (h : Ledger m none)
    (hfree : Free m run) : Ledger (m.queueScanned run) none :=
  queueRun_ledger (create_ledger hinv h hfree false)

/-- Another run stays free when one is queued. -/
theorem queueScanned_free {run other : Nat} (hne : other ≠ run) (hfree : Free m run)
    (hother : Free m other) : Free (m.queueScanned run) other := by
  have hrun : (m.create run false).runOf m.created = run :=
    congrArg RunContainer.runNumber (create_conts m run false)
  have hpend : (m.create run false).pendingRuns.find? run = none := hfree.1
  rw [queueScanned, queueRun, hrun, hpend]
  exact ⟨(SortedMap.find?_insert_of_ne _ hne).trans hother.1, hother.2⟩

theorem queueAll_ledger {runs : List Nat} (hinv : Inv m) (h : Ledger m none) (hzero : 0 ∉ runs)
    (hnodup : runs.Nodup) (hfree : ∀ run ∈ runs, Free m run) :
    Ledger (runs.foldl queueScanned m) none := by
  induction runs generalizing m with
  | nil => exact h
  | cons run runs ih =>
    rw [List.nodup_cons] at hnodup
    rw [List.mem_cons, not_or] at hzero
    have hrun := hfree run List.mem_cons_self
    refine ih (queueScanned_inv hinv (Ne.symm hzero.1)) (queueScanned_ledger hinv h hrun) hzero.2
      hnodup.2 fun other ho => ?_
    have hne : other ≠ run := fun he => hnodup.1 (he ▸ ho)
    exact queueScanned_free hne hrun (hfree other (List.mem_cons_of_mem _ ho))

/-- The run set apart is put into its next place, whatever the disposition. -/
theorem settle_ledger {c : ContId} (hinv : Inv m) (h : Ledger m (some c)) (disp : Disposition) :
    Ledger (m.settle c disp) none := by
  obtain ⟨-, ho, -⟩ := h.out c rfl
  have hmanual : Ledger (m.setCont c { m.conts c with manual := true }) none :=
    mark_ledger hinv h rfl (.inr ⟨ho.1, rfl⟩)
  cases disp with
  | success => exact mark_ledger hinv h rfl (.inl ⟨rfl, ho.2⟩)
  | permamentFail => exact hmanual
  | connectionLoss => exact queueRun_ledger (backOff_ledger h)
  | invalidProtocol => exact queueRun_ledger (backOff_ledger h)
  | transientFail =>
    simp only [settle]
    split
    · exact { hmanual with }
    · -- counted, and queued again
      let r := { m.conts c with requeueCount := (m.conts c).requeueCount + 1 }
      have hcount : Ledger (m.setCont c r) (some c) := setCont_ledger h rfl rfl rfl
      have hmax : Ledger { m.setCont c r with maxRequeueCount := m.pvMaxRequeueCount } (some c) :=
        { hcount with }
      exact queueRun_ledger (backOff_ledger hmax)

theorem clientComplete_ledger {c : ContId} (hinv : Inv m) (h : Ledger m none)
    (hc : c ∈ m.clients) (disp : Disposition) (gai : Bool) :
    Ledger (clientComplete { m with clients := m.clients.erase c } c disp gai) none := by
  have hrest : Inv { m with clients := m.clients.erase c } :=
    { hinv with clients := fun d hd => hinv.clients d (List.mem_of_mem_erase hd) }
  have hsettled := settle_ledger (dequeueRun_inv hrest c) (dequeueRun_ledger hinv h hc) disp
  refine startConnect_ledger ?_ gai
  exact { hsettled with }

theorem step_ledger (m : STCClientMgr) (e : STCClientMgr.Event) (m' : STCClientMgr)
    (h : Inv m ∧ Ledger m none) (hok : QueuedOnce m e) (hstep : step m e = some m') :
    Inv m' ∧ Ledger m' none := by
  refine ⟨step_inv m e m' h.1 hstep, ?_⟩
  obtain ⟨hinv, h⟩ := h
  rw [step] at hstep
  split at hstep
  · rename_i hp
    cases e with
    | start run gai =>
      rw [handle_start] at hstep
      cases hstep
      split
      · rename_i hrun
        subst hrun
        exact create_zero_ledger hinv h true
      · rename_i hrun
        -- the new run is held by nobody until it is queued
        have hnew := create_ledger hinv h (hok.resolve_left hrun) true
        have hbegun : Ledger (begun m run) (some m.created) := { hnew with }
        exact startConnect_ledger (queueRun_ledger hbegun) gai
    | finish c =>
      cases hstep
      have hset := setCont_ledger (r := { m.conts c with active := false }) h rfl rfl rfl
      simp only [containerChange]
      split
      · exact hset
      · exact { hset with }
    | queueRuns runs gai =>
      cases hstep
      have hall := queueAll_ledger hinv h hp hok.1 hok.2
      split
      · exact hall
      · exact startConnect_ledger hall gai
    | lookupComplete own io => exact lookupComplete_ledger hinv h _ own io hstep
    | connectComplete io =>
      exact connectComplete_ledger hinv h (hinv.waiting (.inr hp)) io hstep
    | connectTimeout =>
      cases hstep
      exact { h with }
    | reconnectTimeout gai =>
      cases hstep
      refine startConnect_ledger ?_ gai
      exact { h with }
    | transientTimeout gai =>
      cases hstep
      refine startConnect_ledger ?_ gai
      exact { h with }
    | lookupTimeout gai =>
      cases hstep
      refine startConnect_ledger ?_ gai
      exact { h with }
    | clientComplete c disp gai =>
      cases hstep
      exact clientComplete_ledger hinv h hp disp gai
    | setMaxConnections n gai =>
      cases hstep
      refine startConnect_ledger ?_ gai
      exact { h with }
    | setMaxRequeueCount n =>
      cases hstep
      exact { h with }
  · cases hstep

/-! ### Connections and re-queues -/

/-- There is one connection for each client. -/
def Counted (m : STCClientMgr) : Prop := m.connections = m.clients.length

theorem startConnect_counted (h : Counted m) (gai : Bool) : Counted (m.startConnect gai) := by
  obtain ⟨l, t, c, heq⟩ := startConnect_eq m gai
  rw [heq]
  exact h

theorem queueRun_counted (h : Counted m) (c : ContId) : Counted (m.queueRun c) := by
  obtain ⟨p, r, heq⟩ := queueRun_eq m c
  rw [heq]
  exact h

theorem connectComplete_counted (hinv : Inv m) (h : Counted m) (hsize : 0 < m.pendingRuns.size)
    (io : ConnectIO) (hm : m.connectComplete io = some m') : Counted m' := by
  obtain heq | ⟨heq, -⟩ | ⟨r, c, s, -, -, -, -, heq⟩ := connectComplete_cases hinv hsize io
  · cases heq.symm.trans hm
    exact h
  · cases heq.symm.trans hm
    exact h
  · cases heq.symm.trans hm
    split
    · have hmore : Counted (handedOver m r c s) := congrArg (· + 1) h
      exact startConnect_counted hmore io.gai
    · exact h

theorem queueAll_counted (h : Counted m) (runs : List Nat) :
    Counted (runs.foldl queueScanned m) := by
  induction runs generalizing m with
  | nil => exact h
  | cons run runs ih =>
    have hnew : Counted (m.create run false) := h
    exact ih (queueRun_counted hnew m.created)

theorem settle_counts (m : STCClientMgr) (c : ContId) (disp : Disposition) :
    (m.settle c disp).connections = m.connections ∧ (m.settle c disp).clients = m.clients := by
  obtain ⟨-, k, q, t, p, r, heq⟩ | ⟨-, k, q, heq⟩ := settle_cases m c disp
  · rw [heq]
    exact ⟨rfl, rfl⟩
  · rw [heq]
    exact ⟨rfl, rfl⟩

theorem step_counted (m : STCClientMgr) (e : STCClientMgr.Event) (m' : STCClientMgr) (h : Inv m ∧ Counted m)
    (hstep : step m e = some m') : Inv m' ∧ Counted m' := by
  refine ⟨step_inv m e m' h.1 hstep, ?_⟩
  obtain ⟨hinv, h⟩ := h
  rw [step] at hstep
  split at hstep
  · rename_i hp
    cases e with
    | start run gai =>
      rw [handle_start] at hstep
      cases hstep
      split
      · exact h
      · have hbegun : Counted (begun m run) := h
        exact startConnect_counted (queueRun_counted hbegun m.created) gai
    | finish c =>
      cases hstep
      simp only [containerChange]
      split
      · exact h
      · exact h
    | queueRuns runs gai =>
      cases hstep
      split
      · exact queueAll_counted h runs
      · exact startConnect_counted (queueAll_counted h runs) gai
    | lookupComplete own io =>
      obtain ⟨-, heq⟩ | ⟨hconn, -, heq | heq | ⟨-, -, -, heq⟩⟩ := lookupComplete_cases m _ own io
      -- none of the three ways without a connection touches the count or the clients
      · cases heq.symm.trans hstep
        exact h
      · cases heq.symm.trans hstep
        exact h
      · cases heq.symm.trans hstep
        exact h
      · have hopened : Counted (opened m (if own then m.lookups - 1 else m.lookups)) := h
        exact connectComplete_counted (opened_inv hinv hconn _) hopened
          (hinv.waiting (.inl hconn)) io.complete (heq.symm.trans hstep)
    | connectComplete io =>
      exact connectComplete_counted hinv h (hinv.waiting (.inr hp)) io hstep
    | connectTimeout =>
      cases hstep
      exact h
    | reconnectTimeout gai =>
      cases hstep
      exact startConnect_counted (m := { m with reconnectTimer := false, connecting := false }) h gai
    | transientTimeout gai =>
      cases hstep
      exact startConnect_counted (m := { m with transientTimer := false, backoff := false }) h gai
    | lookupTimeout gai =>
      cases hstep
      exact startConnect_counted (m := { m with lookupTimer := false, connecting := false }) h gai
    | clientComplete c disp gai =>
      cases hstep
      obtain ⟨hconns, hclients⟩ :=
        settle_counts (dequeueRun { m with clients := m.clients.erase c } c) c disp
      refine startConnect_counted ?_ gai
      -- the one place that lowers the count is the one that erases a client
      show _ - 1 = _
      rw [hconns, hclients]
      show m.connections - 1 = (m.clients.erase c).length
      rw [List.length_erase_of_mem hp, ← h]
    | setMaxConnections n gai =>
      cases hstep
      exact startConnect_counted (m := { m with pvMaxConnections := n }) h gai
    | setMaxRequeueCount n =>
      cases hstep
      exact h
  · cases hstep

/-- How often each run was re-queued after a transient failure, as the containers say. -/
def requeueCounts (m : STCClientMgr) (c : ContId) : Nat := (m.conts c).requeueCount

/-- The event re-queued the run after a transient failure; `m` is the manager after it. -/
def requeued (c : ContId) (m : STCClientMgr) : STCClientMgr.Event → Bool
  | .clientComplete d .transientFail _ => d == c && decide (IsPending m c)
  | _ => false

/-- How often a run of the manager re-queued `c` after a transient failure. -/
def requeues (c : ContId) : STCClientMgr → List STCClientMgr.Event → Nat
  | _, [] => 0
  | m, e :: es =>
    match step m e with
    | none => 0
    | some m' => (requeued c m' e).toNat + requeues c m' es

theorem startConnect_conts (m : STCClientMgr) (gai : Bool) :
    (m.startConnect gai).conts = m.conts := by
  obtain ⟨l, t, c, heq⟩ := startConnect_eq m gai
  rw [heq]

theorem queueRun_conts (m : STCClientMgr) (c : ContId) : (m.queueRun c).conts = m.conts := by
  obtain ⟨p, r, heq⟩ := queueRun_eq m c
  rw [heq]

theorem backOff_conts (m : STCClientMgr) : m.backOff.conts = m.conts := by
  obtain ⟨t, heq⟩ := backOff_eq m
  rw [heq]

/-- A run set apart waits once it is queued. -/
theorem queueRun_pending {c : ContId} (hpend : m.pendingRuns.find? (m.runOf c) = none) :
    IsPending (m.queueRun c) c := by
  rw [queueRun, hpend]
  exact SortedMap.find?_insert_self c hpend

theorem create_requeueCounts (hinv : Inv m) (run : Nat) (active : Bool) :
    requeueCounts (m.create run active) = requeueCounts m := by
  funext c
  by_cases hc : c = m.created
  · rw [requeueCounts, requeueCounts, hc, create_conts, hinv.fresh m.created (Nat.le_refl _)]
    rfl
  · exact congrArg RunContainer.requeueCount (Function.update_of_ne hc ..)

theorem setCont_requeueCounts {c : ContId} {r : RunContainer}
    (hr : r.requeueCount = requeueCounts m c) : requeueCounts (m.setCont c r) = requeueCounts m := by
  funext d
  by_cases hd : d = c
  · subst hd
    simpa [requeueCounts, setCont] using hr
  · simp [requeueCounts, setCont, hd]

theorem connectComplete_conts (hinv : Inv m) (hsize : 0 < m.pendingRuns.size) (io : ConnectIO)
    (hm : m.connectComplete io = some m') : m'.conts = m.conts := by
  obtain heq | ⟨heq, -⟩ | ⟨r, c, s, -, -, -, -, heq⟩ := connectComplete_cases hinv hsize io
  · cases heq.symm.trans hm
    rfl
  · cases heq.symm.trans hm
    rfl
  · cases heq.symm.trans hm
    split
    · exact startConnect_conts ..
    · rfl

theorem queueAll_requeueCounts (hinv : Inv m) {runs : List Nat} (hzero : 0 ∉ runs) :
    requeueCounts (runs.foldl queueScanned m) = requeueCounts m := by
  induction runs generalizing m with
  | nil => rfl
  | cons run runs ih =>
    rw [List.mem_cons, not_or] at hzero
    have hone : requeueCounts (m.queueScanned run) = requeueCounts m := by
      have hcreate := create_requeueCounts hinv run false
      unfold requeueCounts queueScanned at *
      rw [queueRun_conts]
      exact hcreate
    exact (ih (queueScanned_inv hinv (Ne.symm hzero.1)) hzero.2).trans hone

theorem setCont_isPending {c : ContId} {r : RunContainer} (hrun : r.runNumber = m.runOf c)
    (d : ContId) : IsPending (m.setCont c r) d ↔ IsPending m d := by
  rw [IsPending, setCont_runOf hrun]
  rfl

/-- A run is counted once for the transient failure after which it waits again. -/
theorem settle_requeueCounts {c : ContId} (h : Ledger m (some c)) (disp : Disposition)
    (gai : Bool) (d : ContId) :
    requeueCounts (m.settle c disp) d = requeueCounts m d +
      (requeued d (m.settle c disp) (.clientComplete c disp gai)).toNat := by
  obtain ⟨hc, -, hpend, -⟩ := h.out c rfl
  have hsame : ∀ n : STCClientMgr, requeueCounts (n.backOff.queueRun c) = requeueCounts n := by
    intro n
    unfold requeueCounts
    rw [queueRun_conts, backOff_conts]
  have hmark : ∀ n : STCClientMgr, ∀ r : RunContainer,
      r.requeueCount = requeueCounts n c → requeueCounts (n.setCont c r) d = requeueCounts n d :=
    fun n r hr => congrFun (setCont_requeueCounts hr) d
  cases disp with
  | success => exact hmark m { m.conts c with translated := true } rfl
  | permamentFail => exact hmark m { m.conts c with manual := true } rfl
  | connectionLoss => exact congrFun (hsame m) d
  | invalidProtocol => exact congrFun (hsame m) d
  | transientFail =>
    by_cases hmax : (m.conts c).requeueCount ≥ m.pvMaxRequeueCount
    · -- left for manual processing: it does not wait
      let r := { m.conts c with manual := true }
      let n := { m with maxRequeueCount := m.pvMaxRequeueCount }
      have heq : m.settle c .transientFail = n.setCont c r := if_pos hmax
      have hno : ¬ (d = c ∧ IsPending (m.settle c .transientFail) d) := by
        rintro ⟨rfl, hd⟩
        rw [heq, setCont_isPending (m := n) (r := r) rfl] at hd
        cases hd.symm.trans hpend
      have hzero : requeued d (m.settle c .transientFail) (.clientComplete c .transientFail gai) =
          false := by
        simp only [requeued, Bool.and_eq_false_imp, beq_iff_eq, decide_eq_false_iff_not]
        exact fun hcd hd => hno ⟨hcd.symm, hd⟩
      rw [hzero, heq]
      exact hmark n r rfl
    · let r := { m.conts c with requeueCount := (m.conts c).requeueCount + 1 }
      let n := setCont { m with maxRequeueCount := m.pvMaxRequeueCount } c r
      have heq : m.settle c .transientFail = n.backOff.queueRun c := if_neg hmax
      rw [heq, hsame]
      by_cases hd : d = c
      · subst hd
        have hwait : IsPending (n.backOff.queueRun d) d := by
          obtain ⟨t, ht⟩ := backOff_eq n
          rw [ht]
          refine queueRun_pending ?_
          show m.pendingRuns.find? (n.runOf d) = none
          rw [setCont_runOf (m := { m with maxRequeueCount := m.pvMaxRequeueCount }) (r := r) rfl]
          exact hpend
        have hone : requeued d (n.backOff.queueRun d) (.clientComplete d .transientFail gai) =
            true := by
          rw [requeued, decide_eq_true hwait, BEq.rfl, Bool.and_self]
        rw [hone]
        show ((Function.update m.conts d r) d).requeueCount = _
        rw [Function.update_self]
        rfl
      · have hzero : requeued d (n.backOff.queueRun c) (.clientComplete c .transientFail gai) =
            false := by
          rw [requeued, beq_eq_false_iff_ne.mpr (Ne.symm hd), Bool.false_and]
        rw [hzero]
        show ((Function.update m.conts c r) d).requeueCount = _
        rw [Function.update_of_ne hd]
        rfl

theorem clientComplete_requeueCounts {c : ContId} (hinv : Inv m) (h : Ledger m none)
    (hc : c ∈ m.clients) (disp : Disposition) (gai : Bool) (d : ContId) :
    requeueCounts (clientComplete { m with clients := m.clients.erase c } c disp gai) d =
      requeueCounts m d + (requeued d
        (clientComplete { m with clients := m.clients.erase c } c disp gai)
        (.clientComplete c disp gai)).toNat := by
  have hsettle := settle_requeueCounts (dequeueRun_ledger hinv h hc) disp gai d
  rw [clientComplete]
  obtain ⟨l, t, b, heq⟩ := startConnect_eq
    { (dequeueRun { m with clients := m.clients.erase c } c).settle c disp with
      connections := ((dequeueRun { m with clients := m.clients.erase c } c).settle c disp).connections - 1 }
    gai
  rw [heq]
  exact hsettle

/-- What one event adds to the counts. -/
theorem step_requeueCounts {e : STCClientMgr.Event} (hinv : Inv m) (h : Ledger m none)
    (hstep : step m e = some m') (d : ContId) :
    requeueCounts m' d = requeueCounts m d + (requeued d m' e).toNat := by
  rw [step] at hstep
  split at hstep
  · rename_i hp
    cases e with
    | start run gai =>
      rw [handle_start] at hstep
      cases hstep
      have hnew := congrFun (create_requeueCounts hinv run true) d
      split
      · exact hnew
      · rw [requeueCounts, startConnect_conts, queueRun_conts]
        exact hnew
    | finish c =>
      cases hstep
      have hset := congrFun (setCont_requeueCounts (m := m) (c := c)
        (r := { m.conts c with active := false }) rfl) d
      simp only [containerChange]
      split
      · exact hset
      · exact hset
    | queueRuns runs gai =>
      cases hstep
      have hall := congrFun (queueAll_requeueCounts hinv hp) d
      split
      · exact hall
      · rw [requeueCounts, startConnect_conts]
        exact hall
    | lookupComplete own io =>
      obtain ⟨-, heq⟩ | ⟨hconn, -, heq | heq | ⟨-, -, -, heq⟩⟩ := lookupComplete_cases m _ own io
      -- only the end of a client requeues: all else leaves the counts alone
      · cases heq.symm.trans hstep
        rfl
      · cases heq.symm.trans hstep
        rfl
      · cases heq.symm.trans hstep
        rfl
      · rw [requeueCounts, connectComplete_conts (opened_inv hinv hconn _)
          (hinv.waiting (.inl hconn)) io.complete (heq.symm.trans hstep)]
        rfl
    | connectComplete io =>
      rw [requeueCounts, connectComplete_conts hinv (hinv.waiting (.inr hp)) io hstep]
      rfl
    | connectTimeout =>
      cases hstep
      rfl
    | reconnectTimeout gai | transientTimeout gai | lookupTimeout gai | setMaxConnections n gai =>
      cases hstep
      exact congrArg (fun conts => (conts d).requeueCount) (startConnect_conts ..)
    | clientComplete c disp gai =>
      cases hstep
      exact clientComplete_requeueCounts hinv h hp disp gai d
    | setMaxRequeueCount n =>
      cases hstep
      rfl
  · cases hstep

/-- Over a run the counts grow by the re-queues. -/
theorem run_requeueCounts {es : List STCClientMgr.Event} (h : Inv m ∧ Ledger m none)
    (hok : Runs.along step QueuedOnce m es) (hrun : Runs.run step m es = some m') (c : ContId) :
    requeueCounts m' c = requeueCounts m c + requeues c m es := by
  induction es generalizing m with
  | nil =>
    cases hrun
    rfl
  | cons e es ih =>
    obtain ⟨n, hstep, hrest⟩ := Runs.run_cons hrun
    have hone := step_requeueCounts h.1 h.2 hstep c
    have hmore := ih (step_ledger m e n h hok.1 hstep) (hok.2 n hstep) hrest
    simp only [requeues, hstep]
    omega

/-- After a transient failure the run is left for manual processing, or its count is within
    the limit that was just read. -/
theorem settle_bounded (m : STCClientMgr) (c : ContId) :
    ((m.settle c .transientFail).conts c).manual ∨
      requeueCounts (m.settle c .transientFail) c ≤ (m.settle c .transientFail).maxRequeueCount := by
  by_cases hmax : (m.conts c).requeueCount ≥ m.pvMaxRequeueCount
  · let r := { m.conts c with manual := true }
    have heq : m.settle c .transientFail =
        setCont { m with maxRequeueCount := m.pvMaxRequeueCount } c r := if_pos hmax
    rw [heq]
    refine .inl ?_
    show ((Function.update m.conts c r) c).manual = true
    rw [Function.update_self]
  · let r := { m.conts c with requeueCount := (m.conts c).requeueCount + 1 }
    let n := setCont { m with maxRequeueCount := m.pvMaxRequeueCount } c r
    have heq : m.settle c .transientFail = n.backOff.queueRun c := if_neg hmax
    obtain ⟨t, ht⟩ := backOff_eq n
    obtain ⟨p, q, hq⟩ := queueRun_eq n.backOff c
    rw [heq, hq, ht]
    refine .inr ?_
    show ((Function.update m.conts c r) c).requeueCount ≤ m.pvMaxRequeueCount
    rw [Function.update_self]
    show (m.conts c).requeueCount + 1 ≤ m.pvMaxRequeueCount
    omega

theorem step_bounded {c : ContId} {gai : Bool}
    (hstep : step m (.clientComplete c .transientFail gai) = some m') :
    (m'.conts c).manual ∨ requeueCounts m' c ≤ m'.maxRequeueCount := by
  rw [step] at hstep
  split at hstep
  · cases hstep
    have hbound := settle_bounded (dequeueRun { m with clients := m.clients.erase c } c) c
    rw [clientComplete]
    obtain ⟨l, t, b, heq⟩ := startConnect_eq
      (let n := (dequeueRun { m with clients := m.clients.erase c } c).settle c .transientFail
      { n with connections := n.connections - 1 }) gai
    rw [heq]
    exact hbound
  · cases hstep

/-- The books are in order: every run is in one place, each connection is for a run being
    sent, the current run waits, every event can be handled, and no run is queued again after
    more transient failures than the limit allows. -/
structure Accounted (start : STCClientMgr) (es : List STCClientMgr.Event) (m : STCClientMgr) : Prop where
  placed : ∀ c, c < m.created → m.runOf c ≠ 0 → Placed m c
  counted : m.connections = m.sendingRuns.size
  current : m.currentRun = 0 ∨ m.currentRun ∈ m.pendingRuns.keys
  handled : ∀ e, m.possible e → (m.handle e).isSome
  bounded : ∀ c gai m', step m (.clientComplete c .transientFail gai) = some m' →
    (m'.conts c).manual ∨
      requeues c start (es ++ [.clientComplete c .transientFail gai]) ≤ m'.maxRequeueCount

/-- Whatever happens, as long as no run is queued while it waits or is being sent. -/
theorem accounted_of_run (maxConnections maxRequeueCount : Nat) (es : List STCClientMgr.Event)
    (m : STCClientMgr)
    (hok : Runs.along step QueuedOnce (init maxConnections maxRequeueCount) es)
    (hrun : Runs.run step (init maxConnections maxRequeueCount) es = some m) :
    Accounted (init maxConnections maxRequeueCount) es m := by
  have hstart : Inv (init maxConnections maxRequeueCount) ∧
      Ledger (init maxConnections maxRequeueCount) none :=
    ⟨init_inv .., init_ledger ..⟩
  obtain ⟨hinv, hledger⟩ := Runs.invariant_along step_ledger hstart hok hrun
  have hcounted := (Runs.invariant step_counted ⟨init_inv .., rfl⟩ hrun).2
  refine ⟨fun c hc hrun => hledger.exactlyOne hc hrun, ?_, ?_, ?_, ?_⟩
  · -- as many clients as runs being sent
    rw [hcounted, hledger.clients.length_eq, List.length_map]
    rfl
  · by_cases hcur : m.currentRun = 0
    · exact .inl hcur
    · obtain ⟨c, hc, -⟩ := hinv.current hcur
      exact .inr (SortedMap.mem_keys.mpr ⟨c, SortedMap.find?_eq_some.mp hc⟩)
  · intro e hp
    obtain ⟨m', heq, -⟩ := handle_inv hinv e hp
    rw [heq]
    rfl
  · intro c gai m' hstep
    have hmore : Runs.run step (init maxConnections maxRequeueCount)
        (es ++ [.clientComplete c .transientFail gai]) = some m' := by
      rw [Runs.run_append, hrun]
      show (step m _).bind _ = _
      rw [hstep]
      rfl
    have hokmore : Runs.along step QueuedOnce (init maxConnections maxRequeueCount)
        (es ++ [.clientComplete c .transientFail gai]) :=
      Runs.along_append.mpr ⟨hok, fun t _ => ⟨trivial, fun u _ => trivial⟩⟩
    have hcount := run_requeueCounts hstart hokmore hmore c
    have hzero : requeueCounts (init maxConnections maxRequeueCount) c = 0 := rfl
    refine (step_bounded hstep).imp_right fun hle => ?_
    omega

/-- A run found on the disk is sent and fails for the time being, while another starts. -/
def retriedRun : List STCClientMgr.Event :=
  [.queueRuns [5] true, .lookupComplete true ⟨true, true, .wait, true, ⟨.none, true, true⟩⟩,
    .connectComplete ⟨.none, true, true⟩, .start 7 true, .clientComplete 0 .transientFail true,
    .finish 1, .lookupComplete true ⟨true, true, .done, true, ⟨.none, false, true⟩⟩]

theorem accounted_of_run_retried :
    ∃ m, Runs.run step (init 3 5) retriedRun = some m ∧
      m.pendingRuns.entries = [(5, 0), (7, 1)] ∧ requeues 0 (init 3 5) retriedRun = 1 ∧
      Accounted (init 3 5) retriedRun m := by
  refine ⟨(Runs.run step (init 3 5) retriedRun).get (by decide), (Option.some_get _).symm,
    by decide, by decide, ?_⟩
  exact accounted_of_run 3 5 retriedRun _ (by decide) (Option.some_get _).symm

end Adara.Spec.STCClientMgr
