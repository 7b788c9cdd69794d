import Adara.Native.StorageContainer

/-! # STC clients

An `STCClient` sends the files of one run to the translation service, as they are
announced by the run's container, and a `DATA_DONE` packet when it has nothing left to
send and the container is no longer active.  The actions of a container call are carried
out one at a time, and the client is called from them; nothing else happens until the
call is over.  Left out are the heartbeat timer and what the service answers, which can
end the client at any time. -/

namespace Adara.Native

structure STCClient where
  files : List FileId
  curOffset : Nat
  fileFd : Option FileId
  sendPausedData : Bool
  write : Bool
  contConnection : Bool
  fileConnection : Option FileId
deriving DecidableEq, Repr

/-- What is sent on the socket: bytes of files, and the `DATA_DONE` packet. -/
inductive STCItem where
  | bytes (bs : List UInt8)
  | dataDone
deriving DecidableEq, Repr

/-- What one visit of the front file meets. -/
structure STCVisitIO where
  opens : Bool
  kernel : Kernel
deriving DecidableEq, Repr

/-- What one call of `writable` meets: its visits in order, whether `DATA_DONE` can be
    written, and whether a `ReadyAdapter` can be made at the end. -/
structure STCCallIO where
  visits : List STCVisitIO
  doneSent : Bool
  adapter : Bool
deriving DecidableEq, Repr

/-- A run: its container with the actions still to be carried out, and the client it is
    sent by. -/
structure STCSession where
  cont : StorageContainer
  todo : List Action
  client : Option STCClient
  socket : List STCItem
  maxSendChunk : Nat
  maxFileSize : Nat

/-- How a visit of the front file ends, or the loop over the files. -/
inductive STCExit where
  | next
  | more
  | idle
  | gone
deriving DecidableEq, Repr

namespace STCSession

/-- The test in `writable` for leaving out a file. -/
def skips (w : STCSession) (c : STCClient) (f : FileId) : Bool :=
  (w.cont.store f).paused && c.curOffset == 0 && !c.sendPausedData

/-- A file is taken off the list; the next one is connected to if it is active. -/
def erase (w : STCSession) (c : STCClient) (rest : List FileId) : STCClient :=
  let fileConnection := match rest with
    | f :: _ => if (w.cont.store f).active then some f else none
    | [] => none
  { c with files := rest, fileConnection }

/-- A change of one file. -/
def setFile (w : STCSession) (f : FileId) (file : StorageFile) : STCSession :=
  { w with cont := { w.cont with store := Function.update w.cont.store f file } }

/-- The call of `sendfile` for the front file, whose descriptor is `fd`, and what follows
    it. -/
def send (w : STCSession) (c : STCClient) (f : FileId) (rest : List FileId) (fd : FileId)
    (k : Kernel) : STCSession × STCClient × STCExit :=
  let file := w.cont.store f
  let len := min (file.size - c.curOffset : Int) w.maxSendChunk
  match sendfile (w.cont.store fd) c.curOffset len k with
  | .again => (w, c, .more)
  | .failed => (w, c, .gone)
  | .bytes bs =>
    let w := { w with socket := w.socket ++ [.bytes bs] }
    let c := { c with curOffset := c.curOffset + bs.length }
    if c.curOffset ≠ file.size then (w, c, .more)
    else if file.active then (w, c, .idle)
    else
      let w := w.setFile f file.putFd
      (w, w.erase { c with fileFd := none, curOffset := 0 } rest, .next)

/-- One round of the loop in `writable`, for the file at the front. -/
def visit (w : STCSession) (c : STCClient) (f : FileId) (rest : List FileId)
    (io : STCVisitIO) : STCSession × STCClient × STCExit :=
  if w.skips c f then (w, w.erase c rest, .next)
  else
    match c.fileFd with
    | some fd => w.send c f rest fd io.kernel
    | none =>
      match (w.cont.store f).getFd io.opens with
      | none => (w, c, .gone)
      | some file => (w.setFile f file).send { c with fileFd := some f } f rest f io.kernel

/-- The loop in `writable`; it ends with `next` where the list runs out. -/
def sendFiles (w : STCSession) (c : STCClient) :
    List FileId → List STCVisitIO → STCSession × STCClient × STCExit
  | [], _ => (w, c, .next)
  | f :: rest, ios =>
    match w.visit c f rest (ios.headD ⟨true, .again⟩) with
    | (w, c, .next) => sendFiles w c rest ios.tail
    | r => r

/-- `sendDataDone`, where `sent` says whether the packet can be written. -/
def sendDataDone (w : STCSession) (sent : Bool) : STCSession :=
  if sent then { w with socket := w.socket ++ [.dataDone] } else w

/-- The destructor. -/
def delete (w : STCSession) (c : STCClient) : STCSession :=
  let w := match c.fileFd, c.files with
    | some _, f :: _ => w.setFile f (w.cont.store f).putFd
    | _, _ => w
  { w with client := none }

/-- `STCClient::writable` -/
def writable (w : STCSession) (c : STCClient) (io : STCCallIO) : STCSession :=
  match w.sendFiles c c.files io.visits with
  | (w, c, .next) =>
    let w := if w.cont.active then w else w.sendDataDone io.doneSent
    { w with client := some { c with write := false } }
  | (w, c, .idle) => { w with client := some { c with write := false } }
  | (w, c, .more) =>
    if c.write then { w with client := some c }
    else if io.adapter then { w with client := some { c with write := true } }
    else w.delete c
  | (w, c, .gone) => w.delete c

/-- `STCClient::fileAdded` -/
def fileAdded (w : STCSession) (c : STCClient) (f : FileId) (io : STCCallIO) : STCSession :=
  if c.files = [] then
    let fileConnection :=
      if c.fileConnection = none ∧ (w.cont.store f).active then some f else c.fileConnection
    let c := { c with files := [f], fileConnection }
    if c.write then { w with client := some c } else w.writable c io
  else { w with client := some { c with files := c.files ++ [f] } }

/-- `STCClient::fileUpdated` -/
def fileUpdated (w : STCSession) (c : STCClient) (f : FileId) (io : STCCallIO) : STCSession :=
  let c := if (w.cont.store f).active then c else { c with fileConnection := none }
  if c.write then { w with client := some c } else w.writable c io

/-- The constructor.  The container has no list of its files to give before it has one or
    is active. -/
def connect (w : STCSession) (sendPausedData : Bool) : Option STCSession :=
  if w.cont.active ∨ w.cont.files ≠ [] then
    let fileConnection := match w.cont.files with
      | f :: _ => if w.cont.active ∧ (w.cont.store f).active then some f else none
      | [] => none
    some { w with
      client := some
        { files := w.cont.files, curOffset := 0, fileFd := none, sendPausedData, write := true,
          contConnection := w.cont.active, fileConnection }
      socket := [] }
  else none

/-- `m_newFile` is signalled. -/
def newFile (w : STCSession) (f : FileId) (io : STCCallIO) : STCSession :=
  match w.client with
  | some c => if c.contConnection then w.fileAdded c f io else w
  | none => w

/-- `m_update` of a file is signalled. -/
def update (w : STCSession) (f : FileId) (io : STCCallIO) : STCSession :=
  match w.client with
  | some c => if c.fileConnection = some f then w.fileUpdated c f io else w
  | none => w

/-- An action of the container is carried out; `status` is the run status packet that ends
    a file. -/
def act (w : STCSession) (status : List UInt8) (io : STCCallIO) : Action → STCSession
  | .added f => { w with cont := { w.cont with files := w.cont.files ++ [f] } }.newFile f io
  | .append f bs => w.setFile f ((w.cont.store f).append bs)
  | .notify f =>
    match (w.cont.store f).notify w.maxFileSize with
    | (file, true) => (w.setFile f file).update f io
    | (file, false) => w.setFile f file
  | .terminate f =>
    let w := (w.setFile f ((w.cont.store f).terminate status)).update f io
    w.setFile f (w.cont.store f).putFd
  | .inactive => { w with cont := { w.cont with active := false } }

open StorageContainer in
/-- The calls of the container, the events of the client, and the next action of the call
    under way. -/
inductive Event where
  | newFile (paused : Bool) (nf : NewFile)
  | write (mode : Nat) (pkt : List UInt8) (notify : Bool) (nf : NewFile)
  | writeFailed (mode : Nat) (part : List UInt8) (notify : Bool) (nf : NewFile)
  | pause (nf : NewFile)
  | resume (nf : NewFile)
  | expireModes (found : Nat) (expired : List Bool)
  | notify
  | terminate
  | connect (sendPausedData : Bool)
  | writable (io : STCCallIO)
  | disconnect
  | proceed (status : List UInt8) (io : STCCallIO)

/-- A call of the container begins. -/
def call (w : STCSession) (r : StorageContainer × List Action) : STCSession :=
  { w with cont := r.1, todo := r.2 }

/-- An event, where it can happen. -/
def step (w : STCSession) (ev : Event) : Option STCSession :=
  match w.todo, ev with
  | a :: todo, .proceed status io => some ({ w with todo }.act status io a)
  | [], .newFile paused nf =>
    w.cont.pauseModeStack.head?.map fun m => w.call (w.cont.newFile 0 m paused nf)
  | [], .write mode pkt notify nf => (w.cont.write mode pkt notify nf).map w.call
  | [], .writeFailed mode part notify nf => (w.cont.writeFailed mode part notify nf).map w.call
  | [], .pause nf => (w.cont.pause nf).map w.call
  | [], .resume nf => (w.cont.resume nf).map w.call
  | [], .expireModes found expired => some (w.call (w.cont.expireModes found expired))
  | [], .notify => w.cont.notify.map w.call
  | [], .terminate => some (w.call w.cont.terminate)
  | [], .connect sendPausedData => if w.client = none then w.connect sendPausedData else none
  | [], .writable io => w.client.bind fun c => if c.write then some (w.writable c io) else none
  | [], .disconnect => w.client.map w.delete
  | _, _ => none

/-- A new run. -/
def start (maxSendChunk maxFileSize : Nat) : STCSession :=
  { cont := StorageContainer.create, todo := [], client := none, socket := [], maxSendChunk,
    maxFileSize }

end STCSession

end Adara.Native
