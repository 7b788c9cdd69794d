import Adara.Spec.STCClientMgr

/-! # While a run waits, something will wake the manager

A run that waits while there is room for a connection is not forgotten: the manager pauses
with the transient timer started, or it is connecting with a lookup, the socket or a timer
to come.  It is forgotten where `getaddrinfo_a` refuses the lookup, since `startConnect` then
returns without a timer, and where a socket that was connected at once says to keep waiting,
since nothing watches that socket. -/

namespace Adara.Spec.STCClientMgr

open Adara.Native Adara.Native.STCClientMgr

/-- Something is to come that ends the attempt to connect. -/
def Armed (m : STCClientMgr) : Prop :=
  0 < m.lookups ∨ m.fdreg ∨ m.lookupTimer ∨ m.connectTimer ∨ m.reconnectTimer

/-- A run that waits while there is room for a connection is not forgotten. -/
def Wakeable (m : STCClientMgr) : Prop :=
  0 < m.pendingRuns.size → m.connections < m.maxConnections →
    (m.backoff ∧ m.transientTimer) ∨ (m.connecting ∧ Armed m)

/-- `startConnect` would ask for a lookup, at this number of connections and this limit. -/
def Asks (m : STCClientMgr) (connections limit : Nat) : Prop :=
  m.backoff = false ∧ m.connecting = false ∧ connections < limit

/-- An `STCClient` takes the next run over, and `getaddrinfo_a` refuses the lookup for the
    run after it. -/
def RefusedNext (m : STCClientMgr) (io : ConnectIO) : Prop :=
  io.error = .none ∧ io.client ∧ io.gai = false ∧ m.backoff = false ∧
    m.connections + 1 < m.pvMaxConnections ∧ 1 < m.pendingRuns.size

/-- The lookup of this process found an address, and its socket was connected at once. -/
def AtOnce (m : STCClientMgr) (own : Bool) (io : LookupIO) : Prop :=
  own ∧ m.connecting ∧ io.found ∧ io.socket ∧ io.connect = .done

/-- `startConnect` asks for a lookup in this step, and `getaddrinfo_a` refuses it. -/
def Refused (m : STCClientMgr) : STCClientMgr.Event → Prop
  | .start run gai => gai = false ∧ run ≠ 0 ∧ Asks m m.connections m.pvMaxConnections
  | .queueRuns runs gai => gai = false ∧ runs ≠ [] ∧ Asks m m.connections m.pvMaxConnections
  | .reconnectTimeout gai | .lookupTimeout gai =>
    gai = false ∧ 0 < m.pendingRuns.size ∧ m.backoff = false ∧ m.connections < m.pvMaxConnections
  | .transientTimeout gai =>
    gai = false ∧ 0 < m.pendingRuns.size ∧ m.connecting = false ∧
      m.connections < m.pvMaxConnections
  | .clientComplete c disp gai =>
    gai = false ∧ 0 < m.pendingRuns.size ∧ ¬ Requeues m c disp ∧
      Asks m (m.connections - 1) m.pvMaxConnections
  | .setMaxConnections n gai => gai = false ∧ 0 < m.pendingRuns.size ∧ Asks m m.connections n
  | .connectComplete io => RefusedNext m io
  | .lookupComplete own io => AtOnce m own io ∧ RefusedNext m io.complete
  | .finish _ | .connectTimeout | .setMaxRequeueCount _ => False

/-- A socket that was connected at once says to keep waiting, and nothing else is to come. -/
def Unwatched (m : STCClientMgr) : STCClientMgr.Event → Prop
  | .lookupComplete own io =>
    AtOnce m own io ∧ io.complete.error = .wait ∧ m.lookups ≤ 1 ∧ m.connectTimer = false ∧
      m.reconnectTimer = false
  | _ => False

/-- The steps that forget no run. -/
def KeepsAwake (m : STCClientMgr) (e : STCClientMgr.Event) : Prop := ¬ Refused m e ∧ ¬ Unwatched m e

instance (m : STCClientMgr) (connections limit : Nat) : Decidable (Asks m connections limit) :=
  inferInstanceAs (Decidable (_ ∧ _))

instance (m : STCClientMgr) (io : ConnectIO) : Decidable (RefusedNext m io) :=
  inferInstanceAs (Decidable (_ ∧ _))

instance (m : STCClientMgr) (own : Bool) (io : LookupIO) : Decidable (AtOnce m own io) :=
  inferInstanceAs (Decidable (_ ∧ _))

instance (m : STCClientMgr) : (e : STCClientMgr.Event) → Decidable (Refused m e)
  | .start _ _ | .queueRuns _ _ | .reconnectTimeout _ | .lookupTimeout _ | .transientTimeout _
  | .clientComplete _ _ _ | .setMaxConnections _ _ | .lookupComplete _ _ =>
    inferInstanceAs (Decidable (_ ∧ _))
  | .connectComplete io => inferInstanceAs (Decidable (RefusedNext m io))
  | .finish _ | .connectTimeout | .setMaxRequeueCount _ => instDecidableFalse

instance (m : STCClientMgr) : (e : STCClientMgr.Event) → Decidable (Unwatched m e)
  | .lookupComplete _ _ => inferInstanceAs (Decidable (_ ∧ _))
  | .start _ _ | .finish _ | .queueRuns _ _ | .connectComplete _ | .connectTimeout
  | .reconnectTimeout _ | .transientTimeout _ | .lookupTimeout _ | .clientComplete _ _ _
  | .setMaxConnections _ _ | .setMaxRequeueCount _ => instDecidableFalse

instance (m : STCClientMgr) (e : STCClientMgr.Event) : Decidable (KeepsAwake m e) :=
  inferInstanceAs (Decidable (_ ∧ _))

/-- While there is something to do, the manager pauses or is connecting. -/
def Ready (m : STCClientMgr) : Prop :=
  0 < m.pendingRuns.size → m.connections < m.maxConnections → m.backoff ∨ m.connecting

/-- The invariant: the manager is at work, and an attempt to connect comes to an end. -/
structure Awake (m : STCClientMgr) : Prop where
  ready : Ready m
  armed : m.connecting → Armed m

variable {m m' : STCClientMgr}

theorem Awake.wakeable (hinv : Inv m) (h : Awake m) : Wakeable m := by
  intro hpos hroom
  obtain hback | hconn := h.ready hpos hroom
  · exact .inl ⟨hback, hinv.pause hback⟩
  · exact .inr ⟨hconn, h.armed hconn⟩

/-- `startConnect` keeps the invariant where its lookup is accepted, or not asked for. -/
theorem startConnect_awake {gai : Bool} (harm : m.connecting → Armed m)
    (hgai : gai = true ∨ m.backoff ∨ m.connecting ∨ m.pvMaxConnections ≤ m.connections ∨
      m.pendingRuns.size = 0) : Awake (m.startConnect gai) := by
  obtain ⟨hwhy, heq⟩ | ⟨-, -, -, -, -, heq⟩ := startConnect_cases m gai
  · rw [heq]
    refine ⟨fun hpos hroom => ?_, harm⟩
    have hpos : 0 < m.pendingRuns.size := hpos
    have hroom : m.connections < m.pvMaxConnections := hroom
    have hbusy : m.backoff ∨ m.connecting ∨ m.pvMaxConnections ≤ m.connections ∨
        m.pendingRuns.size = 0 := by
      obtain hno | hbusy := hwhy
      · exact hgai.resolve_left (by simp [hno])
      · exact hbusy
    obtain hback | hconn | hfull | hempty := hbusy
    · exact .inl hback
    · exact .inr hconn
    · omega
    · omega
  · rw [heq]
    exact ⟨fun _ _ => .inr rfl, fun _ => .inl (Nat.succ_pos _)⟩

theorem connectFailed_awake (h : Ready m) : Awake m.connectFailed :=
  ⟨h, fun _ => .inr (.inr (.inr (.inr rfl)))⟩

/-- `connectComplete` keeps the invariant where its lookup is not refused, and where a socket
    that says to keep waiting is watched. -/
theorem connectComplete_awake (hinv : Inv m) (h : Ready m) (hsize : 0 < m.pendingRuns.size)
    {io : ConnectIO} (harm : io.error = .wait → m.connecting → Armed m)
    (hok : ¬ RefusedNext m io) (hm : m.connectComplete io = some m') : Awake m' := by
  obtain heq | ⟨heq, -, herr⟩ | ⟨r, c, s, hfind, -, -, herr, heq⟩ :=
    connectComplete_cases hinv hsize io
  · cases heq.symm.trans hm
    exact connectFailed_awake h
  · cases heq.symm.trans hm
    exact ⟨h, harm herr⟩
  · cases heq.symm.trans hm
    split
    · rename_i hclient
      refine startConnect_awake nofun ?_
      have hless : (m.pendingRuns.erase r).size + 1 = m.pendingRuns.size :=
        SortedMap.size_erase hfind
      show io.gai = true ∨ m.backoff = true ∨ false = true ∨
        m.pvMaxConnections ≤ m.connections + 1 ∨ (m.pendingRuns.erase r).size = 0
      simp only [RefusedNext] at hok
      grind
    · exact ⟨h, fun _ => .inr (.inr (.inr (.inr rfl)))⟩

theorem lookupComplete_awake (hinv : Inv m) (h : Awake m) {own : Bool} {io : LookupIO}
    (hp : own → 0 < m.lookups) (hok : KeepsAwake m (.lookupComplete own io))
    (hm : m.handle (.lookupComplete own io) = some m') : Awake m' := by
  obtain ⟨hunexp, heq⟩ | ⟨hconn, hown, heq | heq | ⟨hfound, hsocket, hdone, heq⟩⟩ :=
    lookupComplete_cases m (if own then m.lookups - 1 else m.lookups) own io
  · -- not ours, or not expected: the lookup that is waited for is still to come
    cases heq.symm.trans hm
    refine ⟨h.ready, fun hconn => ?_⟩
    have hforeign : own = false := hunexp.resolve_left (by simp [show m.connecting = true from hconn])
    subst hforeign
    obtain hl | hr | ht | hrest := h.armed hconn
    · exact .inl hl
    · exact .inr (.inl hr)
    · exact .inl (hinv.lookup ht)
    · exact .inr (.inr (.inr hrest))
  · cases heq.symm.trans hm
    exact connectFailed_awake (m := { m with
      lookups := if own then m.lookups - 1 else m.lookups, lookupTimer := false }) h.ready
  · cases heq.symm.trans hm
    exact ⟨h.ready, fun _ => .inr (.inl rfl)⟩
  · have honce : AtOnce m own io := ⟨hown, hconn, hfound, hsocket, hdone⟩
    refine connectComplete_awake (opened_inv hinv hconn _) ?_ (hinv.waiting (.inl hconn)) ?_ ?_
      (heq.symm.trans hm)
    · exact h.ready
    · intro herr _
      have hwatched : ¬ (m.lookups ≤ 1 ∧ m.connectTimer = false ∧ m.reconnectTimer = false) :=
        fun hno => hok.2 ⟨honce, herr, hno⟩
      show 0 < (if own then m.lookups - 1 else m.lookups) ∨ false = true ∨ false = true ∨
        m.connectTimer = true ∨ m.reconnectTimer = true
      rw [if_pos hown]
      grind
    · exact fun href => hok.1 ⟨honce, href⟩

theorem step_awake (m : STCClientMgr) (e : STCClientMgr.Event) (m' : STCClientMgr) (h : Inv m ∧ Awake m)
    (hok : KeepsAwake m e) (hstep : step m e = some m') : Inv m' ∧ Awake m' := by
  refine ⟨step_inv m e m' h.1 hstep, ?_⟩
  obtain ⟨hinv, h⟩ := h
  rw [step] at hstep
  split at hstep
  · rename_i hp
    have hno : ¬ Refused m e := hok.1
    cases e with
    | start run gai =>
      rw [handle_start] at hstep
      cases hstep
      split
      · exact ⟨h.ready, h.armed⟩
      · rename_i hrun
        obtain ⟨p, r, heq⟩ := queueRun_eq (begun m run) m.created
        rw [heq]
        refine startConnect_awake h.armed ?_
        simp only [Refused, Asks] at hno
        show gai = true ∨ m.backoff = true ∨ m.connecting = true ∨
          m.pvMaxConnections ≤ m.connections ∨ _
        grind
    | finish c =>
      cases hstep
      simp only [containerChange]
      split
      · exact ⟨h.ready, h.armed⟩
      · exact ⟨h.ready, h.armed⟩
    | queueRuns runs gai =>
      cases hstep
      by_cases hruns : runs = []
      · subst hruns
        exact h
      · obtain ⟨k, n, p, r, heq⟩ := queueAll_eq m runs
        rw [if_neg hruns, heq]
        refine startConnect_awake h.armed ?_
        simp only [Refused, Asks] at hno
        show gai = true ∨ m.backoff = true ∨ m.connecting = true ∨
          m.pvMaxConnections ≤ m.connections ∨ _
        grind
    | lookupComplete own io => exact lookupComplete_awake hinv h hp hok hstep
    | connectComplete io =>
      refine connectComplete_awake hinv h.ready (hinv.waiting (.inr hp)) (fun _ => h.armed) hno hstep
    | connectTimeout =>
      cases hstep
      exact connectFailed_awake (m := { m with connectTimer := false }) h.ready
    | reconnectTimeout gai =>
      cases hstep
      refine startConnect_awake (fun h => absurd h Bool.false_ne_true) ?_
      simp only [Refused] at hno
      show gai = true ∨ m.backoff = true ∨ false = true ∨ m.pvMaxConnections ≤ m.connections ∨
        m.pendingRuns.size = 0
      grind
    | transientTimeout gai =>
      cases hstep
      refine startConnect_awake h.armed ?_
      simp only [Refused] at hno
      show gai = true ∨ false = true ∨ m.connecting = true ∨
        m.pvMaxConnections ≤ m.connections ∨ m.pendingRuns.size = 0
      grind
    | lookupTimeout gai =>
      cases hstep
      refine startConnect_awake (fun h => absurd h Bool.false_ne_true) ?_
      simp only [Refused] at hno
      show gai = true ∨ m.backoff = true ∨ false = true ∨ m.pvMaxConnections ≤ m.connections ∨
        m.pendingRuns.size = 0
      grind
    | clientComplete c disp gai =>
      cases hstep
      obtain ⟨-, k, q, t, p, r, heq⟩ | ⟨hsettled, k, q, heq⟩ :=
        settle_cases (dequeueRun { m with clients := m.clients.erase c } c) c disp
      · -- queued again, after a pause
        rw [clientComplete, heq]
        exact startConnect_awake h.armed (.inr (.inl rfl))
      · rw [clientComplete, heq]
        refine startConnect_awake h.armed ?_
        have hsettled : ¬ Requeues m c disp := hsettled
        simp only [Refused, Asks] at hno
        show gai = true ∨ m.backoff = true ∨ m.connecting = true ∨
          m.pvMaxConnections ≤ m.connections - 1 ∨ m.pendingRuns.size = 0
        grind
    | setMaxConnections n gai =>
      cases hstep
      refine startConnect_awake h.armed ?_
      simp only [Refused, Asks] at hno
      show gai = true ∨ m.backoff = true ∨ m.connecting = true ∨ n ≤ m.connections ∨
        m.pendingRuns.size = 0
      grind
    | setMaxRequeueCount n =>
      cases hstep
      exact ⟨h.ready, h.armed⟩
  · cases hstep

/-! ### The condition is exact -/

/-- A refused lookup leaves the manager idle, with a run waiting and room for it. -/
theorem startConnect_refused (hask : Asks m m.connections m.pvMaxConnections)
    (hsize : 0 < m.pendingRuns.size) : ¬ Awake (m.startConnect false) := by
  obtain ⟨hback, hconn, hroom⟩ := hask
  intro h
  obtain ⟨-, heq⟩ | ⟨-, -, -, -, hno, -⟩ := startConnect_cases m false
  · rw [heq] at h
    obtain hb | hc := h.ready hsize hroom
    · exact absurd (hback.symm.trans hb) (by decide)
    · exact absurd (hconn.symm.trans hc) (by decide)
  · cases hno

theorem connectComplete_refused (hinv : Inv m) (hfd : m.fd) (hsize : 0 < m.pendingRuns.size)
    {io : ConnectIO} (href : RefusedNext m io) (hm : m.connectComplete io = some m') :
    ¬ Awake m' := by
  obtain ⟨herr, hclient, hgai, hback, hroom, hmore⟩ := href
  rw [connectComplete, if_neg (by simp [hfd]), herr] at hm
  have h₁ : Inv { m with fdreg := false, connections := m.connections + 1, connectTimer := false } :=
    { hinv with waiting := fun _ => hsize, socket := nofun }
  obtain ⟨r, c, s, hfind, -, hnext⟩ := nextRun_spec h₁ hsize
  simp only [hnext, Option.map_some, hclient, if_true, hgai] at hm
  cases hm
  refine startConnect_refused ⟨hback, rfl, hroom⟩ ?_
  have hless : (m.pendingRuns.erase r).size + 1 = m.pendingRuns.size := SortedMap.size_erase hfind
  show 0 < (m.pendingRuns.erase r).size
  omega

/-- A run that is queued is there to wait. -/
theorem queueRun_size (m : STCClientMgr) (c : ContId) : 0 < (m.queueRun c).pendingRuns.size := by
  unfold queueRun
  split
  · rename_i hsome
    obtain ⟨d, hd⟩ := Option.isSome_iff_exists.mp hsome
    exact SortedMap.size_pos hd
  · rename_i hnone
    have hnone : m.pendingRuns.find? (m.runOf c) = none := by simpa using hnone
    exact SortedMap.size_pos (SortedMap.find?_insert_self c hnone)

theorem queueAll_size {runs : List Nat} (hruns : runs ≠ []) :
    0 < (runs.foldl queueScanned m).pendingRuns.size := by
  obtain ⟨front, last, rfl⟩ := (List.eq_nil_or_concat runs).resolve_left hruns
  rw [List.concat_eq_append, List.foldl_append]
  exact queueRun_size ..

theorem lookupComplete_atOnce {own : Bool} {io : LookupIO} (h : AtOnce m own io) (n : Nat) :
    lookupComplete { m with lookups := n } own io = (opened m n).connectComplete io.complete := by
  obtain ⟨hown, hconn, hfound, hsocket, hdone⟩ := h
  simp [lookupComplete, opened, hown, hconn, hfound, hsocket, hdone]

/-- A refused lookup loses the invariant. -/
theorem not_awake_of_refused {e : STCClientMgr.Event} (hinv : Inv m) (hp : m.possible e) (h : Refused m e)
    (hm : m.handle e = some m') : ¬ Awake m' := by
  -- each event that asks for a lookup leaves a queued run behind it, with no lookup and no timer
  cases e with
  | start run gai =>
    obtain ⟨rfl, hrun, hask⟩ := h
    rw [handle_start, if_neg hrun] at hm
    cases hm
    have hsize := queueRun_size (begun m run) m.created
    obtain ⟨p, r, heq⟩ := queueRun_eq (begun m run) m.created
    rw [heq] at hsize ⊢
    exact startConnect_refused hask hsize
  | queueRuns runs gai =>
    obtain ⟨rfl, hruns, hask⟩ := h
    cases hm
    rw [if_neg hruns]
    have hsize := queueAll_size (m := m) hruns
    obtain ⟨k, n, p, r, heq⟩ := queueAll_eq m runs
    rw [heq] at hsize ⊢
    exact startConnect_refused hask hsize
  | reconnectTimeout gai | lookupTimeout gai =>
    obtain ⟨rfl, hsize, hback, hroom⟩ := h
    cases hm
    refine startConnect_refused ⟨hback, rfl, hroom⟩ ?_
    exact hsize
  | transientTimeout gai =>
    obtain ⟨rfl, hsize, hconn, hroom⟩ := h
    cases hm
    refine startConnect_refused ⟨rfl, hconn, hroom⟩ ?_
    exact hsize
  | clientComplete c disp gai =>
    obtain ⟨rfl, hsize, hsettled, hask⟩ := h
    cases hm
    obtain ⟨hno, -⟩ | ⟨-, k, q, heq⟩ :=
      settle_cases (dequeueRun { m with clients := m.clients.erase c } c) c disp
    · exact absurd hno hsettled
    · rw [clientComplete, heq]
      refine startConnect_refused hask ?_
      exact hsize
  | setMaxConnections n gai =>
    obtain ⟨rfl, hsize, hask⟩ := h
    cases hm
    refine startConnect_refused hask ?_
    exact hsize
  | connectComplete io =>
    exact connectComplete_refused hinv (hinv.socket hp) (hinv.waiting (.inr hp)) h hm
  | lookupComplete own io =>
    obtain ⟨honce, href⟩ := h
    have hconn : m.connecting := honce.2.1
    have hdone := lookupComplete_atOnce honce (if own then m.lookups - 1 else m.lookups)
    exact connectComplete_refused (opened_inv hinv hconn _) rfl (hinv.waiting (.inl hconn)) href
      (hdone.symm.trans hm)
  | finish c | connectTimeout | setMaxRequeueCount n => exact h.elim

/-- A socket that nothing watches loses the invariant. -/
theorem not_awake_of_unwatched {e : STCClientMgr.Event} (h : Unwatched m e) (hm : m.handle e = some m') :
    ¬ Awake m' := by
  cases e with
  | lookupComplete own io =>
    obtain ⟨honce, herr, hlookups, hconnect, hreconnect⟩ := h
    have heq := (lookupComplete_atOnce honce (if own then m.lookups - 1 else m.lookups)).symm.trans hm
    have hwait : (opened m (if own then m.lookups - 1 else m.lookups)).connectComplete io.complete =
        some (opened m (if own then m.lookups - 1 else m.lookups)) := by
      simp [connectComplete, opened, herr]
    cases hwait.symm.trans heq
    intro hawake
    have harmed : 0 < (if own then m.lookups - 1 else m.lookups) ∨ false = true ∨ false = true ∨
        m.connectTimer = true ∨ m.reconnectTimer = true := hawake.armed honce.2.1
    rw [if_pos honce.1, hconnect, hreconnect] at harmed
    simp only [Bool.false_eq_true, or_false] at harmed
    omega
  | _ => exact h.elim

/-- The steps that do not meet the condition are those that lose the invariant. -/
theorem awake_iff_keepsAwake {e : STCClientMgr.Event} (hinv : Inv m) (h : Awake m)
    (hstep : step m e = some m') : Awake m' ↔ KeepsAwake m e := by
  have hdone := hstep
  rw [step] at hdone
  split at hdone
  · rename_i hp
    refine ⟨fun hawake => ⟨fun href => ?_, fun hun => ?_⟩, fun hok => ?_⟩
    · exact not_awake_of_refused hinv hp href hdone hawake
    · exact not_awake_of_unwatched hun hdone hawake
    · exact (step_awake m e m' ⟨hinv, h⟩ hok hstep).2
  · cases hdone

/-- In every run in which no lookup is refused, and every socket that says to keep waiting is
    watched, no run that waits is forgotten. -/
theorem wakeable_of_run (maxConnections maxRequeueCount : Nat) (es : List STCClientMgr.Event)
    (m : STCClientMgr)
    (hok : Runs.along step KeepsAwake (init maxConnections maxRequeueCount) es)
    (hrun : Runs.run step (init maxConnections maxRequeueCount) es = some m) : Wakeable m := by
  have hstart : Awake (init maxConnections maxRequeueCount) :=
    ⟨fun hpos => absurd hpos (Nat.lt_irrefl 0), nofun⟩
  obtain ⟨hinv, hawake⟩ := Runs.invariant_along step_awake ⟨init_inv .., hstart⟩ hok hrun
  exact hawake.wakeable hinv

/-- A connection fails, and a lookup is never answered, before a run can be sent. -/
def slowService : List STCClientMgr.Event :=
  [.start 1 true, .start 2 true, .lookupTimeout true,
    .lookupComplete true ⟨true, true, .wait, true, ⟨.none, true, true⟩⟩, .connectTimeout,
    .reconnectTimeout true, .lookupComplete true ⟨true, true, .done, true, ⟨.none, true, true⟩⟩,
    .clientComplete 1 .connectionLoss true]

theorem wakeable_of_run_slowService :
    ∃ m, Runs.run step (init 3 5) slowService = some m ∧ m.pendingRuns.keys = [1, 2] ∧
      Wakeable m := by
  refine ⟨(Runs.run step (init 3 5) slowService).get (by decide), (Option.some_get _).symm,
    by decide, ?_⟩
  exact wakeable_of_run 3 5 slowService _ (by decide) (Option.some_get _).symm

/-- The lookup for the first run is refused: nothing is started that would try again. -/
theorem not_wakeable_of_refused :
    ∃ m, Runs.run step (init 3 5) [.start 1 false] = some m ∧ m.pendingRuns.keys = [1] ∧
      ¬ Wakeable m := by
  refine ⟨(Runs.run step (init 3 5) [.start 1 false]).get (by decide), (Option.some_get _).symm,
    by decide, fun h => ?_⟩
  obtain ⟨hback, -⟩ | ⟨hconn, -⟩ := h (by decide) (by decide)
  · exact absurd hback (by decide)
  · exact absurd hconn (by decide)

end Adara.Spec.STCClientMgr
