/-! # The index of the state

`StorageManager` keeps an index of the places in the data files at which the state is known: at the
start of each file, and where a state file was written in between.  A client that asks for the past
is given the files from such a place on (`iterateHistory`).

A file is known by its pointer, of any type.  `iterateHistory` returns the calls of its callback. -/

namespace Adara.Native

/-- `StorageManager::IndexEntry` -/
structure IndexEntry (φ : Type) where
  stateFile : Option φ
  dataFile : φ
  key : UInt32
  resumeOffset : Nat
deriving DecidableEq, Repr

def IndexEntry.isDataOnly {φ : Type} (entry : IndexEntry φ) : Bool := entry.resumeOffset = 0

/-- What `StorageManager` keeps of it, newest entry first. -/
structure StateIndex (φ : Type) where
  entries : List (IndexEntry φ) := []
  pulseTime : UInt32 := 1
  nextIndexTime : UInt32 := 1
  indexPeriod : UInt32 := 300
deriving DecidableEq, Repr

/-- The file of the current container. -/
structure CurrentFile (φ : Type) where
  file : φ
  size : Nat
deriving DecidableEq, Repr

namespace StateIndex

variable {φ : Type}

def indexState (index : StateIndex φ) (state : Option φ) (data : φ) (dataOffset : Nat) :
    StateIndex φ :=
  { index with
    entries := ⟨state, data, index.pulseTime, dataOffset⟩ :: index.entries
    nextIndexTime := index.pulseTime + index.indexPeriod }

/-- `fileCreated` -/
def fileCreated (index : StateIndex φ) (f : φ) (addStateToIndex : Bool) : StateIndex φ :=
  if addStateToIndex then index.indexState none f 0 else index

/-- The end of `addPacket`: a state file, when it is time for one. -/
def snapshot (index : StateIndex φ) (state file : φ) (resumeLocation : Nat) : StateIndex φ :=
  if index.nextIndexTime ≤ index.pulseTime then
    index.indexState (some state) file resumeLocation
  else index

/-- The index when the container changes. -/
def clear (index : StateIndex φ) : StateIndex φ := { index with entries := [] }

/-- What `StorageManager` does with the index. -/
inductive Change (φ : Type) where
  /-- A packet of a pulse. -/
  | pulse (seconds : UInt32)
  | fileCreated (f : φ) (addStateToIndex : Bool)
  | snapshot (state file : φ) (resumeLocation : Nat)
  | clear
deriving DecidableEq, Repr

def change (index : StateIndex φ) : Change φ → StateIndex φ
  | .pulse seconds => { index with pulseTime := seconds }
  | .fileCreated f addStateToIndex => index.fileCreated f addStateToIndex
  | .snapshot state file resumeLocation => index.snapshot state file resumeLocation
  | .clear => index.clear

/-- The walk for the entry to start at: `v` is the entry looked at, the iterator is between
    `passed` (the last one first) and what is left.  A reverse iterator goes through `passed`. -/
def findStart (startSeconds : UInt32) (v : IndexEntry φ) (passed : List (IndexEntry φ)) :
    List (IndexEntry φ) → List (IndexEntry φ)
  | [] => passed
  | next :: rest =>
    if v.key < startSeconds then passed
    else findStart startSeconds next (next :: passed) rest

/-- The data-only files, in the loop over what is left of the reverse iterator. -/
def dataOnlyFiles : List (IndexEntry φ) → List (φ × Nat)
  | [] => []
  | entry :: rest =>
    if entry.isDataOnly then (entry.dataFile, 0) :: dataOnlyFiles rest else dataOnlyFiles rest

/-- `iterateHistory`, with the state file and the current file for a start of 0. -/
def iterateHistory (index : StateIndex φ) (transient : φ) (current : CurrentFile φ)
    (startSeconds : UInt32) : Except String (List (φ × Nat)) :=
  if startSeconds = 0 then .ok [(transient, 0), (current.file, current.size)]
  else
    match index.entries with
    | [] => .error "State index is empty"
    | v :: rest =>
      match findStart startSeconds v [v] rest with
      | [] => .error "past the end"
      | entry :: newer =>
        .ok (entry.stateFile.toList.map (·, 0) ++ (entry.dataFile, entry.resumeOffset) ::
          dataOnlyFiles newer)

end StateIndex

end Adara.Native
