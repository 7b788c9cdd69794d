import Mathlib.Algebra.Order.Ring.Int
import Mathlib.Data.List.Sort
import Mathlib.Data.String.Basic

/-! # Purging old data

`StorageManager::purgeData` and what it calls, on the directories and files below the base
directory: daily directories, in these the container directories, and in these the files.

The names are the ones on disk.  Whether the removal of a file or directory fails (also that
of a directory that holds something else) is a function of its path, which a request is given.
Sizes are in bytes, and blocks are natural numbers. -/

namespace Adara.Native

/-- A regular file in a container directory. -/
structure DiskFile where
  daily : String
  container : String
  name : String
  size : Nat
deriving DecidableEq, Repr

/-- What is below the base directory. -/
structure Disk where
  dailies : List String
  /-- The container directories, each with the daily directory it is in. -/
  containers : List (String × String)
  files : List DiskFile
deriving DecidableEq, Repr

/-- The removal of a path fails. -/
abbrev Fails := List String → Bool

/-- `m_completed_marker` -/
def completedMarker : String := "translation_completed"

/-- `m_manual_marker` -/
def manualMarker : String := "manual_processing_needed"

/-- `m_proposal_id_marker_prefix` -/
def proposalIdMarker : String := "proposal-"

/-- The size of a file in blocks. -/
def blocksOf (blockSize size : Nat) : Nat := (size + blockSize - 1) / blockSize

namespace DiskFile

def path (f : DiskFile) : List String := [f.daily, f.container, f.name]

/-- The file has data, so it is none of the marker files. -/
def isData (f : DiskFile) : Bool :=
  f.name != completedMarker && f.name != manualMarker &&
    !proposalIdMarker.toList.isPrefixOf f.name.toList &&
    ".adara".toList.isSuffixOf f.name.toList

/-- What `purgeBackups` removes. -/
def isBackup (f : DiskFile) : Bool :=
  f.name.toList.tails.any fun cs =>
    ".BACKUP-".toList.isPrefixOf cs || ".NEW-".toList.isPrefixOf cs

end DiskFile

/-! ### Names -/

/-- A field of digits with a value in a range. -/
def fieldIn (lo hi : Nat) (cs : List Char) : Bool :=
  cs.all (·.isDigit) &&
    let n := cs.foldl (fun n c => 10 * n + (c.toNat - '0'.toNat)) 0
    decide (lo ≤ n ∧ n ≤ hi)

/-- The date reads as `%Y%m%d`, and prints as it reads. -/
def isDate (cs : List Char) : Bool :=
  decide (cs.length = 8) && fieldIn 1000 9999 (cs.take 4) && fieldIn 1 12 ((cs.drop 4).take 2) &&
    fieldIn 1 31 (cs.drop 6)

/-- The time of day reads as `%H%M%S`, and prints as it reads. -/
def isClock (cs : List Char) : Bool :=
  decide (cs.length = 6) && fieldIn 0 23 (cs.take 2) && fieldIn 0 59 ((cs.drop 2).take 2) &&
    fieldIn 0 61 (cs.drop 4)

/-- `StorageManager::isValidDaily` -/
def isValidDaily (dir : String) : Bool := isDate dir.toList

/-- `StorageContainer::validatePath`: the run number in the name of a container, which is zero
    if there is none, unless the name is not that of a container. -/
def validatePath (name : String) : Option Nat :=
  let cs := name.toList
  let nanos := (cs.drop 16).take 9
  let stamp := isDate (cs.take 8) && cs[8]? == some '-' && isClock ((cs.drop 9).take 6) &&
    cs[15]? == some '.' && decide (nanos.length = 9) && nanos.all (·.isDigit)
  if !stamp then none
  else if cs.length = 25 then some 0
  else
    -- the number has to print as it reads
    let digits := cs.drop 30
    let run := digits.foldl (fun n c => 10 * n + (c.toNat - '0'.toNat)) 0
    if (cs.drop 25).take 5 = "-run-".toList ∧ digits = Nat.toDigits 10 run ∧ 0 < run ∧
        run < 2 ^ 32 then some run
    else none

namespace Disk

/-- The files of a container directory. -/
def entries (disk : Disk) (daily container : String) : List DiskFile :=
  disk.files.filter fun f => f.daily == daily && f.container == container

/-- The container directories of a daily directory, in the order of their names. -/
def containersOf (disk : Disk) (daily : String) : List String :=
  ((disk.containers.filter (·.1 == daily)).map (·.2)).insertionSort (· ≤ ·)

def remove (disk : Disk) (gone : List DiskFile) : Disk :=
  { disk with files := disk.files.filter (· ∉ gone) }

end Disk

/-! ### One container -/

/-- The files that are removed, oldest first, until the goal is reached. -/
def purgeFiles (blockSize goal : Nat) (fails : Fails) : Nat → List DiskFile → List DiskFile
  | _, [] => []
  | purged, f :: fs =>
    if purged < goal then
      if fails f.path then purgeFiles blockSize goal fails purged fs
      else f :: purgeFiles blockSize goal fails (purged + blocksOf blockSize f.size) fs
    else []

/-- The proposal id is what the last marker says. -/
def proposalId (entries : List DiskFile) : List Char :=
  entries.foldl
    (fun id f =>
      if f.name != completedMarker && f.name != manualMarker &&
          proposalIdMarker.toList.isPrefixOf f.name.toList then f.name.toList.drop 9
      else id)
    []

/-- The files that go once all the data is gone: the markers of the run and of the proposal, and
    the backups. -/
def leftovers (run : Nat) (entries : List DiskFile) : List DiskFile :=
  let id := proposalId entries
  (if run = 0 then [] else entries.filter (·.name == completedMarker)) ++
    (if id.isEmpty then []
      else entries.filter fun f => f.name.toList == proposalIdMarker.toList ++ id) ++
    entries.filter (·.isBackup)

/-- The removals up to the first that fails, and whether none did. -/
def removeEach (fails : Fails) : List DiskFile → List DiskFile × Bool
  | [] => ([], true)
  | f :: fs =>
    if fails f.path then ([], false)
    else ((f :: (removeEach fails fs).1), (removeEach fails fs).2)

/-- A run that has to be processed by hand, or that has not been translated yet. -/
def skipsPurge (run : Nat) (entries : List DiskFile) : Bool :=
  entries.any (·.name == manualMarker) ||
    (decide (run ≠ 0) && !entries.any (·.name == completedMarker))

/-- What the purge of a container removes, and whether its directory is removed as well. -/
def containerGone (blockSize : Nat) (fails : Fails) (run goal : Nat) (dir : List String)
    (entries : List DiskFile) : List DiskFile × List DiskFile × Bool :=
  let data := (entries.filter (·.isData)).insertionSort (·.name ≤ ·.name)
  let gone := purgeFiles blockSize goal fails 0 data
  if data.all (· ∈ gone) then
    let (more, all) := removeEach fails (leftovers run entries)
    (gone, more, all && !fails dir && entries.all fun f => f ∈ gone || f ∈ more)
  else (gone, [], false)

/-- `StorageContainer::purge`, with the blocks it purged and whether the path was deleted. -/
def purge (blockSize : Nat) (fails : Fails) (disk : Disk) (daily container : String)
    (goal : Nat) : Disk × Nat × Bool :=
  let entries := disk.entries daily container
  match validatePath container with
  | none => (disk, 0, false)
  | some run =>
    if skipsPurge run entries then (disk, 0, false)
    else
      let (gone, more, deleted) :=
        containerGone blockSize fails run goal [daily, container] entries
      let disk := disk.remove (gone ++ more)
      let disk :=
        if deleted then { disk with containers := disk.containers.erase (daily, container) }
        else disk
      (disk, (gone.map fun f => blocksOf blockSize f.size).sum, deleted)

/-! ### A day -/

/-- The sub-directories of a daily directory, with the sizes they had when it was cached. -/
abbrev DailyMap := List (String × Nat)

/-- The blocks of all sub-directories that are cached. -/
def mapBlocks (blockSize : Nat) (map : DailyMap) : Nat :=
  (map.map fun sub => blocksOf blockSize sub.2).sum

/-- The containers are purged in the order of their names, until the goal is reached.  The last
    one of the last day is skipped. -/
def purgeContainers (blockSize : Nat) (fails : Fails) (daily : String) (goal : Nat)
    (last : Bool) : List String → Disk × DailyMap × Nat → Disk × DailyMap × Nat
  | [], s => s
  | c :: cs, (disk, map, total) =>
    if total < goal then
      if last && cs.isEmpty then (disk, map, total)
      else
        let (disk, purged, deleted) := purge blockSize fails disk daily c (goal - total)
        let map := if deleted then map.filter (·.1 ≠ c) else map
        purgeContainers blockSize fails daily goal last cs (disk, map, total + purged)
    else (disk, map, total)

/-- `purgeDaily`, with the blocks it purged and whether the day was deleted.  A cached
    sub-directory that is not there any more counts as purged. -/
def purgeDaily (blockSize : Nat) (fails : Fails) (disk : Disk) (daily : String) (map : DailyMap)
    (goal : Nat) (last : Bool) : Disk × DailyMap × Nat × Bool :=
  let containers := disk.containersOf daily
  let missing := map.filter (·.1 ∉ containers)
  let (disk, map, total) :=
    purgeContainers blockSize fails daily goal last containers
      (disk, map.filter (·.1 ∈ containers), mapBlocks blockSize missing)
  if fails [daily] || disk.containers.any (·.1 == daily) then (disk, map, total, false)
  else ({ disk with dailies := disk.dailies.erase daily }, map, total, true)

/-! ### A request -/

/-- `m_dailyCache` -/
abbrev DailyCache := List (String × DailyMap)

/-- What the background thread works on. -/
structure PurgeState where
  disk : Disk
  dailyCache : DailyCache
  dailyExhausted : Bool
deriving DecidableEq, Repr

/-- `getDirSize` -/
def getDirSize (disk : Disk) (daily : String) : DailyMap :=
  (disk.containersOf daily).map fun c => (c, ((disk.entries daily c).map (·.size)).sum)

/-- `populateDailyCache` -/
def populateDailyCache (disk : Disk) : DailyCache :=
  ((disk.dailies.filter isValidDaily).insertionSort (· ≤ ·)).map fun d => (d, getDirSize disk d)

/-- The cache has to be made again. -/
def needsCache (s : PurgeState) : Bool := s.dailyExhausted || s.dailyCache.isEmpty

/-- The days in the cache, which is made again when it is empty or was exhausted. -/
def currentCache (s : PurgeState) : DailyCache :=
  if needsCache s then populateDailyCache s.disk else s.dailyCache

/-- The days are purged in order, until the request is met.  A day that is not there any more
    counts as purged. -/
def purgeDays (blockSize : Nat) (fails : Fails) (requested : Nat) :
    DailyCache → Disk → Nat → Disk × DailyCache × Nat
  | [], disk, purged => (disk, [], purged)
  | (d, map) :: rest, disk, purged =>
    if purged < requested then
      if d ∉ disk.dailies then
        purgeDays blockSize fails requested rest disk (purged + mapBlocks blockSize map)
      else
        let (disk, map, more, deleted) :=
          purgeDaily blockSize fails disk d map (requested - purged) rest.isEmpty
        let (disk, rest, purged) := purgeDays blockSize fails requested rest disk (purged + more)
        (disk, if deleted then rest else (d, map) :: rest, purged)
    else (disk, (d, map) :: rest, purged)

/-- What a request meets: the days that were listed where a directory could not be, and which
    removals fail. -/
structure PurgeIO where
  listed : Option (List String)
  fails : Fails

/-- `purgeData`, with the blocks it purged. -/
def purgeData (blockSize : Nat) (s : PurgeState) (requested : Nat) (io : PurgeIO) :
    PurgeState × Nat :=
  match needsCache s, io.listed with
  | true, some days =>
    -- what was listed so far stays in the cache
    ({ s with dailyCache := days.map fun d => (d, getDirSize s.disk d) }, 0)
  | _, _ =>
    let (disk, cache, purged) :=
      purgeDays blockSize io.fails requested (currentCache s) s.disk 0
    (⟨disk, cache, decide (purged < requested)⟩, purged)

end Adara.Native
