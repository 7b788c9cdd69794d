import Mathlib.Order.Nat
import Adara.ForStd.Runs
import Adara.ForStd.SortedMap
import Adara.Native.LiveClient

/-! # The queue of runs for the translation service

The `STCClientMgr` keeps the runs that wait to be translated and those that are being
sent, and connects to the translation service while there is one waiting and fewer than
the maximum are being sent.  A connection is made in steps that end with an event each: an
address lookup, the connection itself, and the `STCClient` that takes it over.

Every answer from outside is part of an event: of `getaddrinfo_a`, of the lookup and the
`connect`, of the socket, and whether an `STCClient` can be made.  The names and addresses,
the timeouts' lengths and the messages are left out, and so is the check that the signal
is still allocated. -/

namespace Adara.Native

/-- What the manager uses of a `StorageContainer`. -/
structure RunContainer where
  runNumber : Nat
  active : Bool
  translated : Bool
  manual : Bool
  requeueCount : Nat
deriving DecidableEq, Repr, Inhabited

inductive Disposition where
  | success
  | transientFail
  | permamentFail
  | connectionLoss
  | invalidProtocol
deriving DecidableEq, Repr

inductive QueueMode where
  | balance
  | oldest
  | newest
deriving DecidableEq, Repr

/-- What `SO_ERROR` says of the socket: no error, one to keep waiting on (`EAGAIN`,
    `EINTR`, `EINPROGRESS`), or another. -/
inductive SocketError where
  | none
  | wait
  | failed
deriving DecidableEq, Repr

/-- What one call of `connectComplete` meets: the socket's error, whether an `STCClient`
    can be made, and whether `getaddrinfo_a` accepts the next lookup. -/
structure ConnectIO where
  error : SocketError
  client : Bool
  gai : Bool
deriving DecidableEq, Repr

/-- How `connect` answers: at once, not yet (`EAGAIN`, `EINTR`, `EINPROGRESS`), or with
    another error. -/
inductive ConnectResult where
  | done
  | wait
  | failed
deriving DecidableEq, Repr

/-- What one call of `lookupComplete` meets: whether the lookup found an address, whether
    there is a nonblocking socket, the answer of `connect`, whether a `ReadyAdapter` can be
    made, and what `connectComplete` meets if it is called at once. -/
structure LookupIO where
  found : Bool
  socket : Bool
  connect : ConnectResult
  adapter : Bool
  complete : ConnectIO
deriving DecidableEq, Repr

/-- The manager, with what it is told of from outside: the containers there have been, and
    the `STCClient`s. `lookups` counts the lookups that have not answered yet, and `started`
    has the run containers in the order they started, newest first. -/
structure STCClientMgr where
  conts : ContId → RunContainer
  created : Nat
  pendingRuns : SortedMap Nat ContId
  sendingRuns : SortedMap Nat ContId
  currentRun : Nat
  queueMode : QueueMode
  sendNext : QueueMode
  fd : Bool
  fdreg : Bool
  connecting : Bool
  backoff : Bool
  connections : Nat
  maxConnections : Nat
  pvMaxConnections : Nat
  maxRequeueCount : Nat
  pvMaxRequeueCount : Nat
  connectTimer : Bool
  reconnectTimer : Bool
  transientTimer : Bool
  lookupTimer : Bool
  lookups : Nat
  clients : List ContId
  started : List ContId

namespace STCClientMgr

/-- The manager as it is constructed, with the configured limits. -/
def init (maxConnections maxRequeueCount : Nat) : STCClientMgr where
  conts := fun _ => default
  created := 0
  pendingRuns := .empty
  sendingRuns := .empty
  currentRun := 0
  queueMode := .balance
  sendNext := .oldest
  fd := false
  fdreg := false
  connecting := false
  backoff := false
  connections := 0
  maxConnections := maxConnections
  pvMaxConnections := maxConnections
  maxRequeueCount := maxRequeueCount
  pvMaxRequeueCount := maxRequeueCount
  connectTimer := false
  reconnectTimer := false
  transientTimer := false
  lookupTimer := false
  lookups := 0
  clients := []
  started := []

/-- The run number of a container. -/
def runOf (m : STCClientMgr) (c : ContId) : Nat := (m.conts c).runNumber

/-- A change of one container. -/
def setCont (m : STCClientMgr) (c : ContId) (r : RunContainer) : STCClientMgr :=
  { m with conts := Function.update m.conts c r }

def queueRun (m : STCClientMgr) (c : ContId) : STCClientMgr :=
  if (m.pendingRuns.find? (m.runOf c)).isSome then m
  else
    { m with
      pendingRuns := m.pendingRuns.insert (m.runOf c) c
      currentRun := if (m.conts c).active then m.runOf c else m.currentRun }

def dequeueRun (m : STCClientMgr) (c : ContId) : STCClientMgr :=
  { m with sendingRuns := m.sendingRuns.erase (m.runOf c) }

/-- The entry of `m_pendingRuns` that `nextRun` takes, and the manager with its choice
    made. -/
def choose (m : STCClientMgr) : Option (Nat × ContId) × STCClientMgr :=
  if m.currentRun ≠ 0 then
    (m.pendingRuns.entries.find? (fun e => e.1 = m.currentRun), { m with currentRun := 0 })
  else
    let next := if m.queueMode = .balance then m.sendNext else m.queueMode
    if next = .oldest then (m.pendingRuns.entries.head?, { m with sendNext := .newest })
    else (m.pendingRuns.entries.getLast?, { m with sendNext := .oldest })

/-- `nextRun`; there is no answer where it would throw, or dereference the end of the
    map. -/
def nextRun (m : STCClientMgr) : Option (ContId × STCClientMgr) :=
  let (run, m) := m.choose
  run.map fun e =>
    (e.2,
      { m with
        sendingRuns := m.sendingRuns.alter e.1 (fun _ => e.2)
        pendingRuns := m.pendingRuns.erase e.1 })

/-- `startConnect`, where `gai` says whether `getaddrinfo_a` accepts the lookup. -/
def startConnect (m : STCClientMgr) (gai : Bool) : STCClientMgr :=
  let m := { m with maxConnections := m.pvMaxConnections }
  if m.backoff || m.connecting || m.connections ≥ m.maxConnections || m.pendingRuns.size = 0 then
    m
  else if !gai then m
  else { m with lookups := m.lookups + 1, lookupTimer := true, connecting := true }

def connectFailed (m : STCClientMgr) : STCClientMgr :=
  { m with fdreg := false, fd := false, connectTimer := false, reconnectTimer := true }

def connectComplete (m : STCClientMgr) (io : ConnectIO) : Option STCClientMgr :=
  if !m.fd then some m.connectFailed
  else
    match io.error with
    | .none =>
      let m := { m with fdreg := false, connections := m.connections + 1, connectTimer := false }
      m.nextRun.map fun (c, m) =>
        if io.client then
          let m := { m with clients := c :: m.clients, fd := false, connecting := false }
          m.startConnect io.gai
        else
          -- the exception path: `clientComplete` won't get called
          let m := { m with connections := m.connections - 1 }
          ((m.queueRun c).dequeueRun c).connectFailed
    | .wait => some m
    | .failed => some m.connectFailed

/-- `lookupComplete`, where `own` says whether the signal is the answer to a lookup of this
    process. -/
def lookupComplete (m : STCClientMgr) (own : Bool) (io : LookupIO) : Option STCClientMgr :=
  let m := { m with lookupTimer := false }
  if !m.connecting || !own then some m
  else if !io.found then some m.connectFailed
  else
    let m := { m with fdreg := false, fd := io.socket }
    if !io.socket then some m.connectFailed
    else
      match io.connect with
      | .failed => some m.connectFailed
      | .done => m.connectComplete io.complete
      | .wait =>
        if !io.adapter then some m.connectFailed
        else some { m with fdreg := true, connectTimer := true }

def connectTimeout (m : STCClientMgr) : STCClientMgr := m.connectFailed

def reconnectTimeout (m : STCClientMgr) (gai : Bool) : STCClientMgr :=
  startConnect { m with connecting := false } gai

def transientTimeout (m : STCClientMgr) (gai : Bool) : STCClientMgr :=
  startConnect { m with backoff := false } gai

def lookupTimeout (m : STCClientMgr) (gai : Bool) : STCClientMgr :=
  startConnect { m with connecting := false } gai

/-- The pause after a failure: the transient timer is started with the flag. -/
def backOff (m : STCClientMgr) : STCClientMgr :=
  if m.backoff then m else { m with backoff := true, transientTimer := true }

/-- What `clientComplete` does with the run, by the disposition of its client. -/
def settle (m : STCClientMgr) (c : ContId) (disp : Disposition) : STCClientMgr :=
  match disp with
  | .success => m.setCont c { m.conts c with translated := true }
  | .connectionLoss | .invalidProtocol => m.backOff.queueRun c
  | .transientFail =>
    let m := { m with maxRequeueCount := m.pvMaxRequeueCount }
    if (m.conts c).requeueCount ≥ m.maxRequeueCount then
      m.setCont c { m.conts c with manual := true }
    else
      let m := m.setCont c { m.conts c with requeueCount := (m.conts c).requeueCount + 1 }
      m.backOff.queueRun c
  | .permamentFail => m.setCont c { m.conts c with manual := true }

def clientComplete (m : STCClientMgr) (c : ContId) (disp : Disposition) (gai : Bool) :
    STCClientMgr :=
  let m := (m.dequeueRun c).settle c disp
  startConnect { m with connections := m.connections - 1 } gai

def containerChange (m : STCClientMgr) (c : ContId) (starting : Bool) (gai : Bool) :
    STCClientMgr :=
  if m.runOf c = 0 then m
  else if starting then (m.queueRun c).startConnect gai
  else { m with currentRun := 0 }

/-! ### The events -/

/-- What can happen to the manager. -/
inductive Event where
  /-- The storage manager starts a container; run number 0 if no run is recorded. -/
  | start (run : Nat) (gai : Bool)
  /-- The storage manager terminates a container. -/
  | finish (c : ContId)
  /-- Runs found on the disk are queued, none of them translated or for manual
      processing: after the initial scan, or one at a time on request. -/
  | queueRuns (runs : List Nat) (gai : Bool)
  | lookupComplete (own : Bool) (io : LookupIO)
  /-- The `ReadyAdapter` of the socket calls `connectComplete`. -/
  | connectComplete (io : ConnectIO)
  | connectTimeout
  | reconnectTimeout (gai : Bool)
  | transientTimeout (gai : Bool)
  | lookupTimeout (gai : Bool)
  /-- The `STCClient` that sends this container is destroyed. -/
  | clientComplete (c : ContId) (disp : Disposition) (gai : Bool)
  | setMaxConnections (n : Nat) (gai : Bool)
  | setMaxRequeueCount (n : Nat)
deriving DecidableEq, Repr

/-- A new container, active or found on the disk. -/
def create (m : STCClientMgr) (run : Nat) (active : Bool) : STCClientMgr :=
  { m with
    conts := Function.update m.conts m.created ⟨run, active, false, false, 0⟩
    created := m.created + 1 }

/-- A run found on the disk is queued. -/
def queueScanned (m : STCClientMgr) (run : Nat) : STCClientMgr :=
  (m.create run false).queueRun m.created

/-- An event can happen: the lookup, socket, timer, client or container is there. -/
def possible (m : STCClientMgr) : Event → Prop
  | .start _ _ | .setMaxConnections _ _ | .setMaxRequeueCount _ => True
  | .finish c => c < m.created ∧ (m.conts c).active
  | .queueRuns runs _ => 0 ∉ runs
  | .lookupComplete own _ => own → 0 < m.lookups
  | .connectComplete _ => m.fdreg
  | .connectTimeout => m.connectTimer
  | .reconnectTimeout _ => m.reconnectTimer
  | .transientTimeout _ => m.transientTimer
  | .lookupTimeout _ => m.lookupTimer
  | .clientComplete c _ _ => c ∈ m.clients

instance (m : STCClientMgr) : (e : Event) → Decidable (m.possible e)
  | .start _ _ | .setMaxConnections _ _ | .setMaxRequeueCount _ => instDecidableTrue
  | .finish c => inferInstanceAs (Decidable (c < m.created ∧ (m.conts c).active))
  | .queueRuns runs _ => inferInstanceAs (Decidable (0 ∉ runs))
  | .lookupComplete own _ => inferInstanceAs (Decidable (own → 0 < m.lookups))
  | .connectComplete _ => inferInstanceAs (Decidable (m.fdreg = true))
  | .connectTimeout => inferInstanceAs (Decidable (m.connectTimer = true))
  | .reconnectTimeout _ => inferInstanceAs (Decidable (m.reconnectTimer = true))
  | .transientTimeout _ => inferInstanceAs (Decidable (m.transientTimer = true))
  | .lookupTimeout _ => inferInstanceAs (Decidable (m.lookupTimer = true))
  | .clientComplete c _ _ => inferInstanceAs (Decidable (c ∈ m.clients))

/-- An event is handled. -/
def handle (m : STCClientMgr) : Event → Option STCClientMgr
  | .start run gai =>
    let c := m.created
    let m := m.create run true
    let m := if run = 0 then m else { m with started := c :: m.started }
    some (m.containerChange c true gai)
  | .finish c =>
    let m := m.setCont c { m.conts c with active := false }
    some (m.containerChange c false true)
  | .queueRuns runs gai =>
    let m := runs.foldl queueScanned m
    some (if runs = [] then m else m.startConnect gai)
  | .lookupComplete own io =>
    let m := { m with lookups := if own then m.lookups - 1 else m.lookups }
    m.lookupComplete own io
  | .connectComplete io => m.connectComplete io
  | .connectTimeout => some (connectTimeout { m with connectTimer := false })
  | .reconnectTimeout gai => some (reconnectTimeout { m with reconnectTimer := false } gai)
  | .transientTimeout gai => some (transientTimeout { m with transientTimer := false } gai)
  | .lookupTimeout gai => some (lookupTimeout { m with lookupTimer := false } gai)
  | .clientComplete c disp gai =>
    some (clientComplete { m with clients := m.clients.erase c } c disp gai)
  | .setMaxConnections n gai => some (startConnect { m with pvMaxConnections := n } gai)
  | .setMaxRequeueCount n => some { m with pvMaxRequeueCount := n }

/-- One event, if it can happen. -/
def step (m : STCClientMgr) (e : Event) : Option STCClientMgr :=
  if m.possible e then m.handle e else none

end STCClientMgr

end Adara.Native
