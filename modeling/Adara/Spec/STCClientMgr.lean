import Adara.Native.STCClientMgr

/-! # What the run queue always satisfies

Whatever happens to the manager, every entry of its two maps is a run container under its
own run number, and the current run is one that waits and whose container is active.  While
a connection is on its way there is a run waiting, so that `nextRun` always finds one.  The
timers and flags that stand for one another are kept in step.

Each function of the manager has a lemma that says what it can do, and one that it keeps
this invariant; a step, and then a run, is put together from them. -/

namespace Adara.Spec.STCClientMgr

open Adara.Native Adara.Native.STCClientMgr

structure Inv (m : STCClientMgr) : Prop where
  pending : ∀ r c, m.pendingRuns.find? r = some c → m.runOf c = r ∧ r ≠ 0 ∧ c < m.created
  sending : ∀ r c, m.sendingRuns.find? r = some c → m.runOf c = r ∧ r ≠ 0 ∧ c < m.created
  clients : ∀ c ∈ m.clients, m.runOf c ≠ 0 ∧ c < m.created
  started : ∀ c ∈ m.started, m.runOf c ≠ 0 ∧ c < m.created
  fresh : ∀ c, m.created ≤ c → m.conts c = default
  current : m.currentRun ≠ 0 →
    ∃ c, m.pendingRuns.find? m.currentRun = some c ∧ (m.conts c).active
  waiting : m.connecting ∨ m.fdreg → 0 < m.pendingRuns.size
  socket : m.fdreg → m.fd
  pause : m.backoff → m.transientTimer
  lookup : m.lookupTimer → 0 < m.lookups

theorem init_inv (maxConnections maxRequeueCount : Nat) :
    Inv (init maxConnections maxRequeueCount) where
  pending := by simp [init]
  sending := by simp [init]
  clients := by simp [init]
  started := by simp [init]
  fresh := by simp [init]
  current := by simp [init]
  waiting := by simp [init]
  socket := by simp [init]
  pause := by simp [init]
  lookup := by simp [init]

variable {m m' : STCClientMgr}

/-! ### Taking the next run -/

/-- The manager after `nextRun` took the container `c` of run `r`, and an `STCClient` took
    it over. -/
def handedOver (m : STCClientMgr) (r : Nat) (c : ContId) (s : QueueMode) : STCClientMgr :=
  { m with
    currentRun := 0
    sendNext := s
    sendingRuns := m.sendingRuns.alter r (fun _ => c)
    pendingRuns := m.pendingRuns.erase r
    connections := m.connections + 1
    clients := c :: m.clients
    fd := false
    fdreg := false
    connectTimer := false
    connecting := false }

/-- The manager after `nextRun` took the container `c` of run `r`, and no `STCClient` could
    be made for it. -/
def takenBack (m : STCClientMgr) (r : Nat) (c : ContId) (s : QueueMode) : STCClientMgr :=
  { m with
    currentRun := if (m.conts c).active then r else 0
    sendNext := s
    sendingRuns := (m.sendingRuns.alter r (fun _ => c)).erase r
    fd := false
    fdreg := false
    connectTimer := false
    reconnectTimer := true }

/-- While a run waits one is chosen, and it is the current run if there is one. -/
theorem choose_spec (h : Inv m) (hsize : 0 < m.pendingRuns.size) :
    ∃ r c s, m.choose = (some (r, c), { m with currentRun := 0, sendNext := s }) ∧
      m.pendingRuns.find? r = some c ∧ (m.currentRun ≠ 0 → r = m.currentRun) := by
  have hne : m.pendingRuns.entries ≠ [] := List.length_pos_iff.mp hsize
  unfold choose
  by_cases hcur : m.currentRun = 0
  · -- the first or the last entry, as the queue mode says
    have hzero : ∀ s, { m with currentRun := 0, sendNext := s } = { m with sendNext := s } := by
      intro s
      rw [← hcur]
    simp only [hcur, ne_eq, not_true_eq_false, if_false, false_implies, and_true]
    generalize (if m.queueMode = .balance then m.sendNext else m.queueMode) = next
    by_cases hnext : next = .oldest
    · obtain ⟨e, es, hes⟩ := List.exists_cons_of_ne_nil hne
      refine ⟨e.1, e.2, .newest, ?_, ?_⟩
      · rw [if_pos hnext, hes, hzero]
        rfl
      · exact SortedMap.find?_eq_some.mpr (hes ▸ List.mem_cons_self)
    · refine ⟨_, _, .oldest, ?_, SortedMap.find?_eq_some.mpr (List.getLast_mem hne)⟩
      rw [if_neg hnext, List.getLast?_eq_some_getLast hne, hzero]
  · obtain ⟨c, hc, -⟩ := h.current hcur
    refine ⟨m.currentRun, c, m.sendNext, ?_, hc, fun _ => rfl⟩
    obtain ⟨e, he, rfl⟩ := Option.map_eq_some_iff.mp hc
    have hkey : e.1 = m.currentRun := by simpa using List.find?_some he
    rw [if_pos hcur, he, ← hkey]

/-- `nextRun` moves one waiting run to those being sent. -/
theorem nextRun_spec (h : Inv m) (hsize : 0 < m.pendingRuns.size) :
    ∃ r c s, m.pendingRuns.find? r = some c ∧ (m.currentRun ≠ 0 → r = m.currentRun) ∧
      m.nextRun = some (c,
        { m with
          currentRun := 0
          sendNext := s
          sendingRuns := m.sendingRuns.alter r (fun _ => c)
          pendingRuns := m.pendingRuns.erase r }) := by
  obtain ⟨r, c, s, hchoose, hfind, hcur⟩ := choose_spec h hsize
  refine ⟨r, c, s, hfind, hcur, ?_⟩
  rw [nextRun, hchoose]
  rfl

/-- What `connectComplete` can do, while a run waits. -/
theorem connectComplete_cases (h : Inv m) (hsize : 0 < m.pendingRuns.size) (io : ConnectIO) :
    (m.connectComplete io = some m.connectFailed) ∨
    (m.connectComplete io = some m ∧ m.fd ∧ io.error = .wait) ∨
    ∃ r c s, m.pendingRuns.find? r = some c ∧ (m.currentRun ≠ 0 → r = m.currentRun) ∧
      m.fd ∧ io.error = .none ∧
      m.connectComplete io =
        some (if io.client then (handedOver m r c s).startConnect io.gai
          else takenBack m r c s) := by
  unfold connectComplete
  by_cases hfd : m.fd
  · rw [if_neg (by simp [hfd])]
    cases herr : io.error with
    | wait => exact .inr (.inl ⟨rfl, hfd, rfl⟩)
    | failed => exact .inl rfl
    | none =>
      -- the choice does not look at what was changed before it
      have h₁ : Inv { m with
          fdreg := false, connections := m.connections + 1, connectTimer := false } :=
        { h with waiting := fun _ => hsize, socket := nofun }
      obtain ⟨r, c, s, hfind, hcur, hnext⟩ := nextRun_spec h₁ hsize
      refine .inr (.inr ⟨r, c, s, hfind, hcur, hfd, rfl, ?_⟩)
      simp only [hnext, Option.map_some]
      congr 1
      split
      · rfl
      · -- the run that was taken goes back to its old place
        have hrun : (m.conts c).runNumber = r := (h.pending r c hfind).1
        have hnone : (m.pendingRuns.erase r).find? r = none := by
          rw [SortedMap.find?_erase, if_pos rfl]
        have hback := SortedMap.insert_erase hfind
        simp only [queueRun, runOf, hrun, hnone, Option.isSome_none, Bool.false_eq_true, if_false,
          dequeueRun, connectFailed, takenBack, hback, Nat.add_sub_cancel]
  · rw [if_pos (by simp [hfd])]
    exact .inl rfl

/-! ### What keeps the invariant -/

/-- What `startConnect` can do: nothing but to read the limit, or to ask for a lookup. -/
theorem startConnect_cases (m : STCClientMgr) (gai : Bool) :
    ((gai = false ∨ m.backoff ∨ m.connecting ∨ m.pvMaxConnections ≤ m.connections ∨
        m.pendingRuns.size = 0) ∧
      m.startConnect gai = { m with maxConnections := m.pvMaxConnections }) ∨
    m.backoff = false ∧ m.connecting = false ∧ m.connections < m.pvMaxConnections ∧
      0 < m.pendingRuns.size ∧ gai = true ∧
      m.startConnect gai =
        { m with
          maxConnections := m.pvMaxConnections
          lookups := m.lookups + 1
          lookupTimer := true
          connecting := true } := by
  simp only [startConnect]
  split
  · rename_i hbusy
    simp only [ge_iff_le, Bool.or_eq_true, decide_eq_true_eq, or_assoc] at hbusy
    exact .inl ⟨.inr hbusy, rfl⟩
  · rename_i hidle
    simp only [ge_iff_le, Bool.or_eq_true, decide_eq_true_eq, not_or, Bool.not_eq_true,
      not_le] at hidle
    split
    · rename_i hgai
      exact .inl ⟨.inl (by simpa using hgai), rfl⟩
    · rename_i hgai
      refine .inr ⟨hidle.1.1.1, hidle.1.1.2, hidle.1.2, Nat.pos_of_ne_zero hidle.2, ?_, rfl⟩
      simpa using hgai

theorem startConnect_inv (h : Inv m) (gai : Bool) : Inv (m.startConnect gai) := by
  obtain ⟨-, heq⟩ | ⟨-, -, -, hsize, -, heq⟩ := startConnect_cases m gai
  · rw [heq]
    exact { h with }
  · rw [heq]
    exact { h with waiting := fun _ => hsize, lookup := fun _ => Nat.succ_pos _ }

theorem connectFailed_inv (h : Inv m) : Inv m.connectFailed :=
  { h with waiting := fun hc => h.waiting (hc.imp_right nofun), socket := nofun }

/-- `startConnect` changes nothing but how the connection stands. -/
theorem startConnect_eq (m : STCClientMgr) (gai : Bool) :
    ∃ l t c, m.startConnect gai =
      { m with maxConnections := m.pvMaxConnections, lookups := l, lookupTimer := t, connecting := c } := by
  obtain ⟨-, heq⟩ | ⟨-, -, -, -, -, heq⟩ := startConnect_cases m gai
  · exact ⟨m.lookups, m.lookupTimer, m.connecting, heq⟩
  · exact ⟨m.lookups + 1, true, true, heq⟩

/-- `queueRun` changes nothing but the runs that wait. -/
theorem queueRun_eq (m : STCClientMgr) (c : ContId) :
    ∃ p r, m.queueRun c = { m with pendingRuns := p, currentRun := r } := by
  unfold queueRun
  split
  · exact ⟨m.pendingRuns, m.currentRun, rfl⟩
  · exact ⟨_, _, rfl⟩

/-- `backOff` only sets the flag, with its timer. -/
theorem backOff_eq (m : STCClientMgr) :
    ∃ t, m.backOff = { m with backoff := true, transientTimer := t } := by
  unfold backOff
  split
  · rename_i hback
    exact ⟨m.transientTimer, by rw [← hback]⟩
  · exact ⟨true, rfl⟩

theorem backOff_inv (h : Inv m) : Inv m.backOff := by
  unfold backOff
  split
  · exact h
  · exact { h with pause := fun _ => rfl }

/-- A container that keeps its number is found under it as before. -/
theorem setCont_runOf {c : ContId} {r : RunContainer} (hrun : r.runNumber = m.runOf c)
    (d : ContId) : (m.setCont c r).runOf d = m.runOf d := by
  by_cases hd : d = c
  · subst hd
    simpa [runOf, setCont] using hrun
  · simp [runOf, setCont, hd]

/-- A container's number stays, and it stays active: its place in the maps is as before. -/
theorem setCont_inv {c : ContId} {r : RunContainer} (h : Inv m) (hc : c < m.created)
    (hrun : r.runNumber = m.runOf c) (hactive : (m.conts c).active → r.active) :
    Inv (m.setCont c r) := by
  have hruns := setCont_runOf hrun
  refine { h with
    pending := fun q d hd => hruns d ▸ h.pending q d hd
    sending := fun q d hd => hruns d ▸ h.sending q d hd
    clients := fun d hd => hruns d ▸ h.clients d hd
    started := fun d hd => hruns d ▸ h.started d hd
    fresh := fun d hd => ?_
    current := fun hcur => ?_ }
  · have hne : d ≠ c := Nat.ne_of_gt (Nat.lt_of_lt_of_le hc hd)
    simpa [setCont, hne] using h.fresh d hd
  · obtain ⟨d, hd, hact⟩ := h.current hcur
    refine ⟨d, hd, ?_⟩
    by_cases hdc : d = c
    · subst hdc
      simpa [setCont] using hactive hact
    · simpa [setCont, hdc] using hact

theorem queueRun_inv {c : ContId} (h : Inv m) (hc : c < m.created) (hrun : m.runOf c ≠ 0) :
    Inv (m.queueRun c) := by
  unfold queueRun
  split
  · exact h
  · rename_i hnone
    have hnone : m.pendingRuns.find? (m.runOf c) = none := by simpa using hnone
    have hfind : ∀ r d, (m.pendingRuns.insert (m.runOf c) c).find? r = some d →
        r = m.runOf c ∧ d = c ∨ m.pendingRuns.find? r = some d := by
      intro r d hd
      obtain heq | hmem := (SortedMap.mem_insert hnone).mp (SortedMap.find?_eq_some.mp hd)
      · cases heq
        exact .inl ⟨rfl, rfl⟩
      · exact .inr (SortedMap.find?_eq_some.mpr hmem)
    refine { h with
      pending := fun r d hd => ?_
      current := fun hcur => ?_
      waiting := fun _ => ?_ }
    · obtain ⟨rfl, rfl⟩ | hd := hfind r d hd
      · exact ⟨rfl, hrun, hc⟩
      · exact h.pending r d hd
    · by_cases hact : (m.conts c).active
      · simp only [hact, if_true]
        exact ⟨c, SortedMap.find?_insert_self c hnone, hact⟩
      · simp only [hact, Bool.false_eq_true, if_false] at hcur ⊢
        obtain ⟨d, hd, hdact⟩ := h.current hcur
        have hne : m.currentRun ≠ m.runOf c := by
          intro heq
          rw [heq, hnone] at hd
          cases hd
        exact ⟨d, (SortedMap.find?_insert_of_ne c hne).trans hd, hdact⟩
    · show 0 < (m.pendingRuns.insert (m.runOf c) c).size
      rw [SortedMap.size_insert c hnone]
      omega

theorem dequeueRun_inv (h : Inv m) (c : ContId) : Inv (m.dequeueRun c) := by
  refine { h with sending := fun r d hd => ?_ }
  simp only [dequeueRun, SortedMap.find?_erase] at hd
  split at hd
  · cases hd
  · exact h.sending r d hd

theorem create_inv (h : Inv m) (run : Nat) (active : Bool) : Inv (m.create run active) := by
  have hold : ∀ c, c < m.created → (m.create run active).conts c = m.conts c := fun c hc =>
    Function.update_of_ne (Nat.ne_of_lt hc) ..
  have hplace : ∀ c q, m.runOf c = q ∧ q ≠ 0 ∧ c < m.created →
      (m.create run active).runOf c = q ∧ q ≠ 0 ∧ c < m.created + 1 := by
    intro c q ⟨hq, hne, hc⟩
    refine ⟨?_, hne, Nat.lt_succ_of_lt hc⟩
    rw [runOf, hold c hc]
    exact hq
  refine { h with
    pending := fun q d hd => hplace d q (h.pending q d hd)
    sending := fun q d hd => hplace d q (h.sending q d hd)
    clients := fun d hd => ?_
    started := fun d hd => ?_
    fresh := fun d hd => ?_
    current := fun hcur => ?_ }
  · have := hplace d _ ⟨rfl, h.clients d hd⟩
    exact ⟨this.1 ▸ this.2.1, this.2.2⟩
  · have := hplace d _ ⟨rfl, h.started d hd⟩
    exact ⟨this.1 ▸ this.2.1, this.2.2⟩
  · have hne : d ≠ m.created := Nat.ne_of_gt hd
    exact (Function.update_of_ne hne ..).trans (h.fresh d (Nat.le_of_succ_le hd))
  · obtain ⟨d, hd, hact⟩ := h.current hcur
    refine ⟨d, hd, ?_⟩
    rw [hold d (h.pending _ d hd).2.2]
    exact hact

theorem handedOver_inv {r : Nat} {c : ContId} (h : Inv m)
    (hfind : m.pendingRuns.find? r = some c) (s : QueueMode) : Inv (handedOver m r c s) := by
  obtain ⟨hr, hne, hc⟩ := h.pending r c hfind
  refine { h with
    pending := fun q d hd => ?_
    sending := fun q d hd => ?_
    clients := fun d hd => ?_
    current := fun hcur => absurd rfl hcur
    waiting := nofun
    socket := nofun }
  · simp only [handedOver, SortedMap.find?_erase] at hd
    split at hd
    · cases hd
    · exact h.pending q d hd
  · simp only [handedOver, SortedMap.find?_alter] at hd
    split at hd
    · cases hd
      rename_i hq
      exact ⟨hr.trans hq.symm, hq ▸ hne, hc⟩
    · exact h.sending q d hd
  · obtain rfl | hd := List.mem_cons.mp hd
    · exact ⟨fun h0 => hne (hr ▸ h0), hc⟩
    · exact h.clients d hd

theorem takenBack_inv {r : Nat} {c : ContId} (h : Inv m)
    (hfind : m.pendingRuns.find? r = some c) (s : QueueMode) : Inv (takenBack m r c s) := by
  refine { h with
    sending := fun q d hd => ?_
    current := fun hcur => ?_
    waiting := fun hc => h.waiting (hc.imp_right nofun)
    socket := nofun }
  · simp only [takenBack, SortedMap.find?_erase, SortedMap.find?_alter] at hd
    split at hd
    · cases hd
    · exact h.sending q d hd
  · simp only [takenBack] at hcur ⊢
    split at hcur
    · rename_i hact
      rw [if_pos hact]
      exact ⟨c, hfind, hact⟩
    · exact absurd rfl hcur

/-- A container is terminated: it is the current run of no entry afterwards. -/
theorem finish_inv {c : ContId} (h : Inv m) (hc : c < m.created) :
    Inv ((m.setCont c { m.conts c with active := false }).containerChange c false true) := by
  have hruns : ∀ d, (m.setCont c { m.conts c with active := false }).runOf d = m.runOf d :=
    setCont_runOf rfl
  have hfresh : ∀ d, m.created ≤ d →
      (m.setCont c { m.conts c with active := false }).conts d = default := by
    intro d hd
    have hne : d ≠ c := Nat.ne_of_gt (Nat.lt_of_lt_of_le hc hd)
    simpa [setCont, hne] using h.fresh d hd
  simp only [containerChange]
  rw [hruns]
  split
  · -- not a run, and so not the current one
    rename_i hzero
    refine { h with
      pending := fun q d hd => hruns d ▸ h.pending q d hd
      sending := fun q d hd => hruns d ▸ h.sending q d hd
      clients := fun d hd => hruns d ▸ h.clients d hd
      started := fun d hd => hruns d ▸ h.started d hd
      fresh := hfresh
      current := fun hcur => ?_ }
    obtain ⟨d, hd, hact⟩ := h.current hcur
    have hne : d ≠ c := by
      rintro rfl
      obtain ⟨hrun, hpos, -⟩ := h.pending _ d hd
      exact hpos (hrun.symm.trans hzero)
    exact ⟨d, hd, by simpa [setCont, hne] using hact⟩
  · exact { h with
      pending := fun q d hd => hruns d ▸ h.pending q d hd
      sending := fun q d hd => hruns d ▸ h.sending q d hd
      clients := fun d hd => hruns d ▸ h.clients d hd
      started := fun d hd => hruns d ▸ h.started d hd
      fresh := hfresh
      current := fun hcur => absurd rfl hcur }

/-- A new container is known by its number, and by nothing else. -/
theorem create_conts (m : STCClientMgr) (run : Nat) (active : Bool) :
    (m.create run active).conts m.created = ⟨run, active, false, false, 0⟩ :=
  Function.update_self ..

/-- Queueing runs found on the disk changes nothing but the containers and the runs that
    wait. -/
theorem queueAll_eq (m : STCClientMgr) (runs : List Nat) :
    ∃ k n p r, runs.foldl queueScanned m =
      { m with conts := k, created := n, pendingRuns := p, currentRun := r } := by
  induction runs generalizing m with
  | nil => exact ⟨m.conts, m.created, m.pendingRuns, m.currentRun, rfl⟩
  | cons run runs ih =>
    obtain ⟨p, r, heq⟩ := queueRun_eq (m.create run false) m.created
    obtain ⟨k', n', p', r', hrest⟩ := ih (m.queueScanned run)
    refine ⟨k', n', p', r', ?_⟩
    rw [List.foldl_cons, hrest, queueScanned, heq]
    rfl

theorem queueScanned_inv {run : Nat} (h : Inv m) (hrun : run ≠ 0) :
    Inv (m.queueScanned run) := by
  refine queueRun_inv (create_inv h run false) (Nat.lt_succ_self m.created) ?_
  rw [runOf, create_conts]
  exact hrun

theorem queueAll_inv {runs : List Nat} (h : Inv m) (hruns : 0 ∉ runs) :
    Inv (runs.foldl queueScanned m) := by
  induction runs generalizing m with
  | nil => exact h
  | cons run runs ih =>
    rw [List.mem_cons, not_or] at hruns
    exact ih (queueScanned_inv h (Ne.symm hruns.1)) hruns.2

/-- The manager with a new run container, before it is queued. -/
def begun (m : STCClientMgr) (run : Nat) : STCClientMgr :=
  { m.create run true with started := m.created :: m.started }

theorem begun_runOf (m : STCClientMgr) (run : Nat) : (begun m run).runOf m.created = run :=
  congrArg RunContainer.runNumber (create_conts m run true)

theorem begun_inv {run : Nat} (h : Inv m) (hrun : run ≠ 0) : Inv (begun m run) := by
  have hnew := create_inv h run true
  refine { hnew with started := fun d hd => ?_ }
  obtain rfl | hd := List.mem_cons.mp hd
  · exact ⟨(begun_runOf m run).symm ▸ hrun, Nat.lt_succ_self _⟩
  · exact hnew.started d hd

/-- A container that is not for a run is only created; a run is queued. -/
theorem handle_start (m : STCClientMgr) (run : Nat) (gai : Bool) :
    m.handle (.start run gai) =
      some (if run = 0 then m.create run true
        else ((begun m run).queueRun m.created).startConnect gai) := by
  by_cases hrun : run = 0
  · have hzero : (m.create run true).runOf m.created = 0 :=
      (congrArg RunContainer.runNumber (create_conts m run true)).trans hrun
    simp only [handle, hrun, if_true, containerChange] at hzero ⊢
    rw [if_pos hzero]
  · have hne : (begun m run).runOf m.created ≠ 0 := (begun_runOf m run).symm ▸ hrun
    simp only [handle, hrun, if_false, containerChange, if_true]
    exact congrArg some (if_neg hne)

/-- A run that failed is queued again, after a pause. -/
theorem requeue_inv {c : ContId} (h : Inv m) (hc : c < m.created) (hrun : m.runOf c ≠ 0) :
    Inv (m.backOff.queueRun c) := by
  have hback := backOff_inv h
  obtain ⟨t, ht⟩ := backOff_eq m
  rw [ht] at hback ⊢
  exact queueRun_inv hback hc hrun

/-- The end of a client with this disposition queues its run again. -/
def Requeues (m : STCClientMgr) (c : ContId) : Disposition → Prop
  | .connectionLoss | .invalidProtocol => True
  | .transientFail => (m.conts c).requeueCount < m.pvMaxRequeueCount
  | .success | .permamentFail => False

instance (m : STCClientMgr) (c : ContId) : (disp : Disposition) → Decidable (Requeues m c disp)
  | .connectionLoss | .invalidProtocol => instDecidableTrue
  | .transientFail => inferInstanceAs (Decidable (_ < _))
  | .success | .permamentFail => instDecidableFalse

/-- What `settle` can do: to queue the run again and to pause, or to mark it. -/
theorem settle_cases (m : STCClientMgr) (c : ContId) (disp : Disposition) :
    (Requeues m c disp ∧ ∃ k q t p r, m.settle c disp =
      { m with
        conts := k, maxRequeueCount := q, backoff := true, transientTimer := t
        pendingRuns := p, currentRun := r }) ∨
    (¬ Requeues m c disp ∧ ∃ k q, m.settle c disp = { m with conts := k, maxRequeueCount := q }) := by
  have hrequeue : ∀ n : STCClientMgr, ∃ t p r, n.backOff.queueRun c =
      { n with backoff := true, transientTimer := t, pendingRuns := p, currentRun := r } := by
    intro n
    obtain ⟨t, ht⟩ := backOff_eq n
    obtain ⟨p, r, heq⟩ := queueRun_eq n.backOff c
    rw [heq, ht]
    exact ⟨t, p, r, rfl⟩
  cases disp with
  | success => exact .inr ⟨id, _, _, rfl⟩
  | permamentFail => exact .inr ⟨id, _, _, rfl⟩
  | connectionLoss =>
    obtain ⟨t, p, r, heq⟩ := hrequeue m
    exact .inl ⟨trivial, _, _, t, p, r, heq⟩
  | invalidProtocol =>
    obtain ⟨t, p, r, heq⟩ := hrequeue m
    exact .inl ⟨trivial, _, _, t, p, r, heq⟩
  | transientFail =>
    by_cases hmax : (m.conts c).requeueCount ≥ m.pvMaxRequeueCount
    · exact .inr ⟨Nat.not_lt_of_le hmax, _, _, if_pos hmax⟩
    · obtain ⟨t, p, r, heq⟩ := hrequeue (setCont { m with maxRequeueCount := m.pvMaxRequeueCount } c
        { m.conts c with requeueCount := (m.conts c).requeueCount + 1 })
      exact .inl ⟨Nat.lt_of_not_le hmax, _, _, t, p, r, (if_neg hmax).trans heq⟩

theorem settle_inv {c : ContId} (h : Inv m) (hc : c < m.created) (hrun : m.runOf c ≠ 0)
    (disp : Disposition) : Inv (m.settle c disp) := by
  have hmark : ∀ r : RunContainer, r.runNumber = m.runOf c → r.active = (m.conts c).active →
      Inv (m.setCont c r) := fun r hr hact => setCont_inv h hc hr fun ha => hact.trans ha
  cases disp with
  | success => exact hmark { m.conts c with translated := true } rfl rfl
  | permamentFail => exact hmark { m.conts c with manual := true } rfl rfl
  | connectionLoss => exact requeue_inv h hc hrun
  | invalidProtocol => exact requeue_inv h hc hrun
  | transientFail =>
    simp only [settle]
    split
    · exact { hmark { m.conts c with manual := true } rfl rfl with }
    · -- counted, and queued again
      let r := { m.conts c with requeueCount := (m.conts c).requeueCount + 1 }
      have hcount : Inv { m.setCont c r with maxRequeueCount := m.pvMaxRequeueCount } :=
        { hmark r rfl rfl with }
      exact requeue_inv hcount hc (setCont_runOf (r := r) rfl c ▸ hrun)

theorem clientComplete_inv {c : ContId} (h : Inv m) (hc : c < m.created) (hrun : m.runOf c ≠ 0)
    (disp : Disposition) (gai : Bool) : Inv (m.clientComplete c disp gai) := by
  have hsettled := settle_inv (dequeueRun_inv h c) hc hrun disp
  refine startConnect_inv ?_ gai
  exact { hsettled with }

theorem connectComplete_inv (h : Inv m) (hsize : 0 < m.pendingRuns.size) (io : ConnectIO) :
    ∃ m', m.connectComplete io = some m' ∧ Inv m' := by
  obtain heq | ⟨heq, -⟩ | ⟨r, c, s, hfind, -, -, -, heq⟩ := connectComplete_cases h hsize io
  · exact ⟨_, heq, connectFailed_inv h⟩
  · exact ⟨_, heq, h⟩
  · refine ⟨_, heq, ?_⟩
    split
    · exact startConnect_inv (handedOver_inv h hfind s) io.gai
    · exact takenBack_inv h hfind s

/-- The manager once the socket is connected at once, while `n` lookups have not answered. -/
def opened (m : STCClientMgr) (n : Nat) : STCClientMgr :=
  { m with lookups := n, lookupTimer := false, fd := true, fdreg := false }

/-- What `lookupComplete` can do, while `n` lookups have not answered. -/
theorem lookupComplete_cases (m : STCClientMgr) (n : Nat) (own : Bool) (io : LookupIO) :
    ((m.connecting = false ∨ own = false) ∧
      lookupComplete { m with lookups := n } own io =
        some { m with lookups := n, lookupTimer := false }) ∨
    m.connecting = true ∧ own = true ∧
      (lookupComplete { m with lookups := n } own io =
        some (connectFailed { m with lookups := n, lookupTimer := false }) ∨
      lookupComplete { m with lookups := n } own io =
        some { m with
          lookups := n, lookupTimer := false, fd := true, fdreg := true, connectTimer := true } ∨
      (io.found = true ∧ io.socket = true ∧ io.connect = .done ∧
        lookupComplete { m with lookups := n } own io = (opened m n).connectComplete io.complete)) := by
  simp only [lookupComplete]
  by_cases hexp : m.connecting = false ∨ own = false
  · refine .inl ⟨hexp, ?_⟩
    rw [if_pos (by simpa using hexp)]
  · rw [if_neg (by simpa using hexp)]
    rw [not_or, Bool.not_eq_false, Bool.not_eq_false] at hexp
    refine .inr ⟨hexp.1, hexp.2, ?_⟩
    cases hfound : io.found with
    | false => exact .inl rfl
    | true =>
      cases hsocket : io.socket with
      | false => exact .inl rfl
      | true =>
        simp only [Bool.not_true, Bool.false_eq_true, if_false, true_and]
        cases io.connect with
        | failed => exact .inl rfl
        | done => exact .inr (.inr ⟨rfl, rfl⟩)
        | wait =>
          simp only
          split
          · exact .inl rfl
          · exact .inr (.inl rfl)

theorem opened_inv (h : Inv m) (hconn : m.connecting) (n : Nat) : Inv (opened m n) :=
  { h with waiting := fun _ => h.waiting (.inl hconn), socket := nofun, lookup := nofun }

theorem lookupComplete_inv (h : Inv m) (n : Nat) (own : Bool) (io : LookupIO) :
    ∃ m', lookupComplete { m with lookups := n } own io = some m' ∧ Inv m' := by
  have hquiet : Inv { m with lookups := n, lookupTimer := false } := { h with lookup := nofun }
  obtain ⟨-, heq⟩ | ⟨hconn, -, heq | heq | ⟨-, -, -, heq⟩⟩ := lookupComplete_cases m n own io
  · exact ⟨_, heq, hquiet⟩
  · exact ⟨_, heq, connectFailed_inv hquiet⟩
  · exact ⟨_, heq, { hquiet with
      waiting := fun _ => h.waiting (.inl hconn), socket := fun _ => rfl }⟩
  · rw [heq]
    exact connectComplete_inv (opened_inv h hconn n) (h.waiting (.inl hconn)) io.complete

/-- Every event that can happen is handled: `nextRun` never throws, nor dereferences the
    end of the map. -/
theorem handle_inv (h : Inv m) (e : STCClientMgr.Event) (hp : m.possible e) :
    ∃ m', m.handle e = some m' ∧ Inv m' := by
  cases e with
  | start run gai =>
    refine ⟨_, handle_start m run gai, ?_⟩
    split
    · exact create_inv h run true
    · rename_i hrun
      have hnew : (begun m run).runOf m.created ≠ 0 := (begun_runOf m run).symm ▸ hrun
      exact startConnect_inv (queueRun_inv (begun_inv h hrun) (Nat.lt_succ_self _) hnew) gai
  | finish c => exact ⟨_, rfl, finish_inv h hp.1⟩
  | queueRuns runs gai =>
    refine ⟨_, rfl, ?_⟩
    split
    · exact queueAll_inv h hp
    · exact startConnect_inv (queueAll_inv h hp) gai
  | lookupComplete own io => exact lookupComplete_inv h _ own io
  | connectComplete io => exact connectComplete_inv h (h.waiting (.inr hp)) io
  -- a timer is taken away before its handler goes on
  | connectTimeout =>
    have hset : Inv { m with connectTimer := false } := { h with }
    exact ⟨_, rfl, connectFailed_inv hset⟩
  | reconnectTimeout gai =>
    have hset : Inv { m with reconnectTimer := false, connecting := false } :=
      { h with waiting := fun hc => h.waiting (hc.imp_left nofun) }
    exact ⟨_, rfl, startConnect_inv hset gai⟩
  | transientTimeout gai =>
    have hset : Inv { m with transientTimer := false, backoff := false } := { h with pause := nofun }
    exact ⟨_, rfl, startConnect_inv hset gai⟩
  | lookupTimeout gai =>
    have hset : Inv { m with lookupTimer := false, connecting := false } :=
      { h with waiting := fun hc => h.waiting (hc.imp_left nofun), lookup := nofun }
    exact ⟨_, rfl, startConnect_inv hset gai⟩
  | clientComplete c disp gai =>
    obtain ⟨hrun, hc⟩ := h.clients c hp
    have hrest : Inv { m with clients := m.clients.erase c } :=
      { h with clients := fun d hd => h.clients d (List.mem_of_mem_erase hd) }
    exact ⟨_, rfl, clientComplete_inv hrest hc hrun disp gai⟩
  | setMaxConnections n gai =>
    have hset : Inv { m with pvMaxConnections := n } := { h with }
    exact ⟨_, rfl, startConnect_inv hset gai⟩
  | setMaxRequeueCount n => exact ⟨_, rfl, { h with }⟩

theorem step_inv (m : STCClientMgr) (e : STCClientMgr.Event) (m' : STCClientMgr) (h : Inv m)
    (hstep : step m e = some m') : Inv m' := by
  rw [step] at hstep
  split at hstep
  · rename_i hp
    obtain ⟨m'', heq, hinv⟩ := handle_inv h e hp
    cases heq.symm.trans hstep
    exact hinv
  · cases hstep

/-- Every run of the manager keeps the invariant. -/
theorem inv_of_run {maxConnections maxRequeueCount : Nat} {es : List STCClientMgr.Event}
    (hrun : Runs.run step (init maxConnections maxRequeueCount) es = some m) : Inv m :=
  Runs.invariant step_inv (init_inv maxConnections maxRequeueCount) hrun

end Adara.Spec.STCClientMgr
