import Adara.ForStd.Timespec
import Adara.Native.Packets

/-! # The times of the data sources

`SMSControl` keeps the time of the last packet of each data source, and of these the oldest and the
newest.  They are in the EPICS epoch, which begins 1990; the reports of the sources are in the
epoch of the clock.  A time of 0.0 is none. -/

namespace Adara.Native

structure SourceTimes where
  dataSourcesMaxTimes : List Timespec
  oldestMaxDataSourceTime : Timespec
  newestMaxDataSourceTime : Timespec
deriving DecidableEq, Repr

namespace SourceTimes

/-- At the start there is the entry 0, which no source has. -/
def init : SourceTimes := ⟨[⟨0, 0⟩], ⟨0, 0⟩, ⟨0, 0⟩⟩

def addDataSource (s : SourceTimes) : SourceTimes :=
  { s with dataSourcesMaxTimes := s.dataSourcesMaxTimes ++ [⟨0, 0⟩] }

/-- A time of the clock as one of the EPICS epoch. -/
def epicsTime (ts : Timespec) : Timespec :=
  if ts.isZero then ts else ⟨ts.sec - epicsEpochOffset, ts.nsec⟩

/-- One round of the loop for the oldest time. -/
def older (oldest time : Timespec) : Timespec :=
  if time.isZero then oldest
  else if oldest.isZero then time
  else if time.before oldest then time
  else oldest

/-- One round of the loop for the newest time. -/
def newer (newest time : Timespec) : Timespec :=
  if time.isZero then newest
  else if newest.isZero then time
  else if newest.before time then time
  else newest

/-- `updateMaxDataSourceTime` -/
def updateMaxDataSourceTime (s : SourceTimes) (srcId : Nat) (ts : Timespec) : SourceTimes :=
  if srcId < s.dataSourcesMaxTimes.length then
    let times := s.dataSourcesMaxTimes.set srcId (epicsTime ts)
    { dataSourcesMaxTimes := times
      oldestMaxDataSourceTime := times.foldl older ⟨0, 0⟩
      newestMaxDataSourceTime := times.foldl newer ⟨0, 0⟩ }
  else s

/-- What happens to the times.  The time of a packet is in two words. -/
inductive Report where
  | addDataSource
  | updateMaxDataSourceTime (srcId sec nsec : UInt32)
deriving DecidableEq, Repr

def report (s : SourceTimes) : Report → SourceTimes
  | .addDataSource => s.addDataSource
  | .updateMaxDataSourceTime srcId sec nsec =>
    s.updateMaxDataSourceTime srcId.toNat ⟨sec.toNat, nsec.toNat⟩

end SourceTimes

end Adara.Native
