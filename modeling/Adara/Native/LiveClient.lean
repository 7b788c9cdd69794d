import Adara.Native.StorageFile

/-! # Live clients

A `LiveClient` sends the files on its list `m_files` to one client, front first, with
`sendfile`.  A paused file is skipped when paused data is not to be sent, which the
client asks for in its hello or the server has as a setting; the setting is read again
once in a hundred visits of a file, counted over all clients.

The state keeps, besides the client, what its handlers read (the files, the containers'
file lists, the server's setting, the count) and what happened: the bytes sent, the files
put on the list with their start offsets, what became of those taken off it, and the
calls of `sendfile`.  Left out are the log, the status variables of the client
(`m_starting_new_file` and `m_bytes_written` are for these alone) and its reading side. -/

namespace Adara.Native

/-- Containers are known by their name. -/
abbrev ContId := Nat

/-- An entry of `m_files`: a file, and how far it has been sent. -/
structure FileEntry where
  file : FileId
  offset : Nat
deriving DecidableEq, Repr

structure LiveClient where
  conts : List (ContId × Bool)
  files : List FileEntry
  clientFd : Bool
  fileFd : Option FileId
  sendPausedData : Bool
  clientFlags : UInt32
  write : Bool
  contConnection : Option ContId
  fileConnection : Option FileId
  deleted : Bool
deriving DecidableEq, Repr

namespace LiveClient

/-- `ClientHelloPkt::NO_PAUSE_DATA` -/
def noPauseData : UInt32 := 0x0001

/-- `ClientHelloPkt::SEND_PAUSE_DATA` -/
def sendPauseData : UInt32 := 0x0002

/-- The client overrides the setting, to have paused data sent. -/
def forcesPaused (c : LiveClient) : Bool := c.clientFlags &&& sendPauseData ≠ 0

/-- The test in `writable` for leaving out a file of which `offset` bytes are sent. -/
def skips (c : LiveClient) (f : StorageFile) (offset : Nat) : Bool :=
  !c.forcesPaused && f.paused && offset == 0 &&
    (!c.sendPausedData || c.clientFlags &&& noPauseData ≠ 0)

end LiveClient

/-- What became of a file taken off `m_files`. -/
inductive FileOutcome where
  | skipped
  | finished
deriving DecidableEq, Repr

/-- A call of `sendfile`: the file its descriptor was opened on, and the file at the front
    of `m_files`. -/
structure SendCall where
  fd : FileId
  front : FileId
deriving DecidableEq, Repr

/-- What one visit of the front file meets: whether `openat` succeeds, and what the kernel
    answers to `sendfile`. -/
structure VisitIO where
  opens : Bool
  kernel : Kernel
deriving DecidableEq, Repr

/-- What one call of `writable` meets: its visits in order, and whether a `ReadyAdapter`
    can be made at the end. -/
structure CallIO where
  visits : List VisitIO
  adapter : Bool
deriving DecidableEq, Repr

structure LiveSession where
  store : FileStore
  contFiles : ContId → List FileId
  serverSendPausedData : Bool
  maxSendChunk : Nat
  cnt : UInt32
  client : LiveClient
  socket : List UInt8
  listed : List FileEntry
  outcomes : List FileOutcome
  sends : List SendCall

/-- How a visit of the front file ends: on to the next file, at `more` or `idle`, or with
    `delete this`. -/
inductive Exit where
  | next
  | more
  | idle
  | gone
deriving DecidableEq, Repr

namespace LiveSession

/-- The constructor of a `LiveClient` of a server. -/
def connect (store : FileStore) (contFiles : ContId → List FileId) (sendPausedData : Bool)
    (maxSendChunk : Nat) (cnt : UInt32) : LiveSession :=
  { store, contFiles, serverSendPausedData := sendPausedData, maxSendChunk, cnt,
    client :=
      { conts := [], files := [], clientFd := true, fileFd := none, sendPausedData,
        clientFlags := 0, write := false, contConnection := none, fileConnection := none,
        deleted := false },
    socket := [], listed := [], outcomes := [], sends := [] }

/-- The destructor, as `delete this` runs it. -/
def delete (w : LiveSession) : LiveSession :=
  let store := match w.client.fileFd, w.client.files with
    | some _, e :: _ => Function.update w.store e.file (w.store e.file).putFd
    | _, _ => w.store
  { w with
    store
    client :=
      { w.client with
        clientFd := false, fileFd := none, write := false, contConnection := none,
        fileConnection := none, deleted := true } }

/-! ### Sending -/

/-- The update of `m_send_paused_data`, once in a hundred visits. -/
def refresh (w : LiveSession) : LiveSession :=
  if w.client.forcesPaused then w
  else
    let cnt := w.cnt + 1
    if cnt % 100 = 0 then
      { w with cnt, client := { w.client with sendPausedData := w.serverSendPausedData } }
    else { w with cnt }

/-- Take the front file off the list, and connect to the next one if it is active. -/
def erase (w : LiveSession) (rest : List FileEntry) (outcome : FileOutcome) : LiveSession :=
  let fileConnection := match rest with
    | e :: _ => if (w.store e.file).active then some e.file else none
    | [] => none
  { w with
    client := { w.client with files := rest, fileConnection }
    outcomes := w.outcomes ++ [outcome] }

/-- `m_file_fd = f->get_fd()`, unless a descriptor is open. -/
def openFile (w : LiveSession) (file : FileId) (opens : Bool) : Option LiveSession :=
  match w.client.fileFd with
  | some _ => some w
  | none => ((w.store file).getFd opens).map fun f =>
      { w with
        store := Function.update w.store file f
        client := { w.client with fileFd := some file } }

/-- `f->put_fd()`, with the descriptor forgotten. -/
def closeFile (w : LiveSession) (file : FileId) : LiveSession :=
  { w with
    store := Function.update w.store file (w.store file).putFd
    client := { w.client with fileFd := none } }

/-- The bytes sent from the front file, whose descriptor is `fd`. -/
def sent (w : LiveSession) (e : FileEntry) (rest : List FileEntry) (bs : List UInt8) :
    LiveSession :=
  { w with
    socket := w.socket ++ bs
    client := { w.client with files := ⟨e.file, e.offset + bs.length⟩ :: rest } }

/-- The call of `sendfile` for the front file, and what follows it. -/
def send (w : LiveSession) (e : FileEntry) (rest : List FileEntry) (fd : FileId)
    (k : Kernel) : LiveSession × Exit :=
  let len := min ((w.store e.file).size - e.offset : Int) w.maxSendChunk
  let w := { w with sends := w.sends ++ [⟨fd, e.file⟩] }
  match sendfile (w.store fd) e.offset len k with
  | .again => (w, .more)
  | .failed => (w, .gone)
  | .bytes bs =>
    let w := w.sent e rest bs
    if e.offset + bs.length ≠ (w.store e.file).size then (w, .more)
    else if (w.store e.file).active then (w, .idle)
    else ((w.closeFile e.file).erase rest .finished, .next)

/-- One round of the loop in `writable`, for the file at the front. -/
def visit (w : LiveSession) (e : FileEntry) (rest : List FileEntry) (io : VisitIO) :
    LiveSession × Exit :=
  let w := w.refresh
  if w.client.skips (w.store e.file) e.offset then (w.erase rest .skipped, .next)
  else
    match w.openFile e.file io.opens with
    | none => (w, .gone)
    | some w =>
      if !w.client.clientFd then (w, .gone)
      else
        match w.client.fileFd with
        | none => (w, .gone)
        | some fd => w.send e rest fd io.kernel

/-- The loop in `writable`.  Where `ios` ends, the kernel has no more room. -/
def sendFiles (w : LiveSession) : List FileEntry → List VisitIO → LiveSession × Exit
  | [], _ => (w, .idle)
  | e :: rest, ios =>
    match w.visit e rest (ios.headD ⟨true, .again⟩) with
    | (w, .next) => sendFiles w rest ios.tail
    | (w, exit) => (w, exit)

/-- `LiveClient::writable` -/
def writable (w : LiveSession) (io : CallIO) : LiveSession :=
  match w.sendFiles w.client.files io.visits with
  | (w, .more) =>
    if w.client.write then w
    else if !w.client.clientFd || !io.adapter then w.delete
    else { w with client := { w.client with write := true } }
  | (w, .gone) => w.delete
  | (w, _) => { w with client := { w.client with write := false } }

/-- The end of the handlers: try to send, unless already waiting for buffer space. -/
def trySend (w : LiveSession) (io : CallIO) : LiveSession :=
  if w.client.write then w else w.writable io

/-! ### The handlers -/

/-- `m_files.push_back`; the first file on the list is connected to if it is active. -/
def pushFile (w : LiveSession) (file : FileId) (start : Nat) : LiveSession :=
  let fileConnection :=
    if w.client.files = [] ∧ w.client.fileConnection = none ∧ (w.store file).active then
      some file
    else w.client.fileConnection
  { w with
    client := { w.client with files := w.client.files ++ [⟨file, start⟩], fileConnection }
    listed := w.listed ++ [⟨file, start⟩] }

/-- `LiveClient::historicalFile` -/
def historicalFile (w : LiveSession) (file : FileId) (start : Nat) (io : CallIO) :
    LiveSession :=
  (w.pushFile file start).trySend io

/-- `LiveClient::fileAdded` -/
def fileAdded (w : LiveSession) (file : FileId) (io : CallIO) : LiveSession :=
  (w.pushFile file 0).trySend io

/-- `LiveClient::fileUpdated` -/
def fileUpdated (w : LiveSession) (file : FileId) (io : CallIO) : LiveSession :=
  let w :=
    if (w.store file).active then w
    else { w with client := { w.client with fileConnection := none } }
  w.trySend io

/-- The loop of `containerChange` over the containers left: the files of each are put on
    the list, up to and with the first that has not ended, which is connected to. -/
def nextContainers (w : LiveSession) : List (ContId × Bool) → LiveSession
  | [] => { w with client := { w.client with conts := [] } }
  | (c, starting) :: conts =>
    let w := (w.contFiles c).foldl (pushFile · · 0) w
    if starting then
      { w with client := { w.client with conts := (c, starting) :: conts, contConnection := some c } }
    else nextContainers w conts

/-- `LiveClient::containerChange` -/
def containerChange (w : LiveSession) (c : ContId) (starting : Bool) (io : CallIO) :
    LiveSession :=
  if starting then
    { w with
      client :=
        { w.client with
          conts := w.client.conts ++ [(c, starting)]
          contConnection := w.client.contConnection.or (some c) } }
  else
    match w.client.conts with
    | [] => w
    | front :: conts =>
      if front.1 = c then
        let w := { w with client := { w.client with conts, contConnection := none } }
        if conts = [] then w else (w.nextContainers conts).trySend io
      else
        -- a container that is not at the front is only marked as closed
        { w with
          client :=
            { w.client with
              conts := w.client.conts.modify (w.client.conts.findIdx (·.1 = c))
                fun e => (e.1, false) } }

/-- `rxPacket(ClientHelloPkt)` up to the history it asks for, which reaches
    `historicalFile`. -/
def clientHello (w : LiveSession) (flags : UInt32) : LiveSession :=
  { w with client := { w.client with clientFlags := flags } }

/-- The rest of `rxPacket(ClientHelloPkt)`: the current container is tracked, and the
    client waits for room in the socket. -/
def helloDone (w : LiveSession) (cont : Option ContId) (adapter : Bool) : LiveSession :=
  let w := match cont with
    | none => w
    | some c =>
      { w with
        client :=
          { w.client with
            conts := w.client.conts ++ [(c, true)]
            contConnection := w.client.contConnection.or (some c) } }
  if !w.client.clientFd ∨ w.client.write then w
  else if adapter then { w with client := { w.client with write := true } }
  else { w with client := { w.client with clientFd := false } }

/-! ### Events -/

/-- What can happen to a live client, and what can change under it. -/
inductive Event where
  | historicalFile (file : FileId) (start : Nat) (io : CallIO)
  | fileAdded (file : FileId) (io : CallIO)
  | fileUpdated (file : FileId) (io : CallIO)
  | containerChange (c : ContId) (starting : Bool) (io : CallIO)
  | writable (io : CallIO)
  | clientHello (flags : UInt32)
  | helloDone (cont : Option ContId) (adapter : Bool)
  | setSendPausedData (b : Bool)
  | otherClient
  | containerFile (c : ContId) (file : FileId)
  | write (file : FileId) (bs : List UInt8)
  | terminate (file : FileId) (bs : List UInt8)

/-- An event, where it can happen.  A client that is gone hears of nothing, `writable` is
    called while the client waits for room, and only an active file is written to. -/
def step (w : LiveSession) (ev : Event) : Option LiveSession :=
  if w.client.deleted then none
  else
    match ev with
    | .historicalFile file start io => some (w.historicalFile file start io)
    | .fileAdded file io => some (w.fileAdded file io)
    | .fileUpdated file io => some (w.fileUpdated file io)
    | .containerChange c starting io => some (w.containerChange c starting io)
    | .writable io => if w.client.write then some (w.writable io) else none
    | .clientHello flags => some (w.clientHello flags)
    | .helloDone cont adapter => some (w.helloDone cont adapter)
    | .setSendPausedData b => some { w with serverSendPausedData := b }
    | .otherClient => some { w with cnt := w.cnt + 1 }
    | .containerFile c file =>
      some { w with contFiles := Function.update w.contFiles c (w.contFiles c ++ [file]) }
    | .write file bs =>
      if (w.store file).active then
        some { w with store := Function.update w.store file ((w.store file).append bs) }
      else none
    | .terminate file bs =>
      if (w.store file).active then
        some { w with store := Function.update w.store file ((w.store file).terminate bs) }
      else none

end LiveSession

end Adara.Native
