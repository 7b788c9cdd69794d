import Adara.Spec.BankedState

/-! # The counts of a pulse

However the calls for its packets come, a pulse counts what it holds, every event is in its
bank and state, and the packets made of it have the lengths in their headers
(`pulse_accounted`), as long as the arrays and the packets fit 32 bits. -/

namespace Adara.Spec.PulseAccount

open Adara.Native
open Adara.Spec.EventFiling Adara.Spec.StateFiling Adara.Spec.BankedState
open Adara.Spec.BankedEvent (wireBank oneBankMap unmappedSettings oneEventPkt oneBankSource
  file_oneEventPkt assembled_oneEventPkt)

/-- A pulse counts the banks and events of its sources and the events of its monitors, holds
    what was filed where it was filed, and takes any further packet there is room for; the
    packets made of it are as long as their headers say. -/
structure Accounted (pulseEnergy : UInt32 → UInt32) (pm : PixelMap) (p : Pulse)
    (log : List FiledState) : Prop where
  counted : Counted p
  numMonEvents : p.numMonEvents = UInt32.ofNat (MonitorPacket.totalEvents p)
  holds : HoldsStates pm p log
  indices : ∀ f ∈ log, ∃ src, p.pulseSources.find? f.hwId = some src ∧
    f.bank + f.state * (maxBank pm + 1) < src.banksArr.length
  next : ∀ (s : EventSettings) (lastRingPeriod numStatesResetCount hwId : UInt32)
    (numStatesLast : Nat) (pkt : RawDataPkt) (isMapped : Bool),
      Room s pm isMapped hwId numStatesLast pkt →
        ∃ a, fileEvents s pm lastRingPeriod numStatesLast numStatesResetCount pkt hwId isMapped
          p = some a
  banked : BankedEvent.packetBytes p < Word32.modulus →
    ∃ words, SMSControl.buildBankedPacket (maxBank pm) pulseEnergy p = some words ∧
      SMSControl.bankedPayloadLen p + 16 = 4 * words.length
  bankedState : BankedState.packetBytes p < Word32.modulus →
    ∃ words, SMSControl.buildBankedStatePacket (maxBank pm) pulseEnergy p = some words ∧
      SMSControl.bankedStatePayloadLen p + 16 = 4 * words.length
  monitor : MonitorPacket.packetBytes p < Word32.modulus →
    ∃ words, SMSControl.buildMonitorPacket pulseEnergy p = some words ∧
      SMSControl.monitorPayloadLen p + 16 = 4 * words.length

theorem room_oneEventPkt : Room unmappedSettings oneBankMap false 0 1 oneEventPkt where
  newSource := by decide
  states := by decide

/-- A pulse with `n + 1` events in one bank. -/
theorem exists_reached (n : Nat) :
    ∃ p log, Reached oneBankMap p log ∧ hasStates p = false ∧
      p.pulseSources.entries = [(0, oneBankSource (n + 1))] := by
  induction n with
  | zero =>
    obtain ⟨a, hfile, hsources, hsrc, hflag⟩ :=
      file_oneEventPkt (p := Pulse.new (.mk 0 0) ∅) (n := 0) rfl
    obtain ⟨-, hstates, hentries⟩ :=
      assembled_oneEventPkt (.new _ _) rfl (fun src => rfl) hfile hsources hsrc hflag
    exact ⟨_, _, (Reached.new _ _).file unmappedSettings 0 1 10 oneEventPkt 0 false false
      room_oneEventPkt hfile, hstates, hentries⟩
  | succ n ih =>
    obtain ⟨p, log, hp, hstates, hentries⟩ := ih
    have hfind : (takeTiming oneEventPkt 0 p).pulseSources.find? 0 =
        some (oneBankSource (n + 1)) := by
      rw [(takeTiming_keeps oneEventPkt 0 p).pulseSources]
      simp [SortedMap.find?, hentries]
    have honly : ∀ src, (p.pulseSources.alter 0 fun _ => src).entries = [(0, src)] := by
      intro src
      simp [SortedMap.alter, hentries, SortedMap.alterList]
    obtain ⟨a, hfile, hsources, hsrc, hflag⟩ := file_oneEventPkt (p := p) (n := n + 1) (by
      rw [findSource, hfind, Option.getD_some])
    obtain ⟨-, hstates', hentries'⟩ :=
      assembled_oneEventPkt hp.assembled hstates honly hfile hsources hsrc hflag
    exact ⟨_, _, hp.file unmappedSettings 0 1 10 oneEventPkt 0 false false room_oneEventPkt hfile,
      hstates', hentries'⟩

/-- A pixel map with as many banks as make 16 places for a state. -/
def thirteenBanks : PixelMap where
  table := []
  banks := []
  numBanks := 13
  numBanks_pos := by decide
  numBanks_le := by decide
  table_lt := by simp
  banks_lt := by simp

/-- Settings with all bits of a pixel id for states. -/
def allStateBits : EventSettings :=
  { unmappedSettings with
    neutronEventStateBits := 28
    neutronEventStateMask := stateMask 28
    neutronEventSortByState := true }

/-- A packet of source 0 with one event in the last state. -/
def lastStatePkt : RawDataPkt where
  version := 0
  pulseId := 0
  fields := [0, 0, 0, 0, 0, 0, 0, 0x0fffffff]
  six_le := by decide

/-- Two events in one bank are walked over. -/
theorem banked_state_round_trip_two :
    ∃ p log, p.pulseSources.entries = [(0, oneBankSource 2)] ∧
      ∃ words banks, SMSControl.buildBankedStatePacket (maxBank oneBankMap) (fun _ => 0) p =
          some words ∧
        (∀ {σ : Type} (process : σ → BankSection → Option σ) (s : σ),
          walkSources true process (words.drop 4).length s ((words.drop 4).drop 4) =
            Runs.run process s banks) ∧
        (banks.map callOf = p.pulseSources.entries.flatMap fun e =>
          callsOf (maxBank oneBankMap) log e.1 e.2.banksArr.length) ∧
        ∀ f ∈ log, ∃ src, p.pulseSources.find? f.hwId = some src ∧
          f.bank + f.state * (maxBank oneBankMap + 1) < src.banksArr.length := by
  obtain ⟨p, log, h, _, hentries⟩ := exists_reached 1
  have hfits : BankedState.packetBytes p < Word32.modulus := by
    simp only [BankedState.packetBytes, SortedMap.size, allFilled, allEvents, hentries]
    decide
  exact ⟨p, log, hentries, banked_state_round_trip (fun _ => 0) h hfits⟩

/-- The calls processed are those for the banks found. -/
theorem map_callOf_of_walk {fuel : Nat} {rpos : List UInt32} {banks : List BankSection}
    (h : ∀ {σ : Type} (process : σ → BankSection → Option σ) (s : σ),
      walkSources true process fuel s rpos = Runs.run process s banks) :
    ∃ banks', StreamPackets.banksOfSources true fuel rpos = some banks' ∧
      banks'.map callOf = banks.map callOf := by
  have hrun : ∀ (banks : List BankSection) (calls : List BankedState.Call),
      Runs.run (fun calls bank => some (calls ++ [callOf bank])) calls banks =
        some (calls ++ banks.map callOf) := by
    intro banks
    induction banks with
    | nil => exact fun calls => congrArg some (List.append_nil calls).symm
    | cons bank banks ih =>
      intro calls
      rw [Runs.run, Option.bind_some, ih, List.append_assoc]
      rfl
  have hwalk := h (fun calls bank => some (calls ++ [callOf bank])) []
  rw [StreamPackets.walkSources_eq, hrun] at hwalk
  obtain ⟨banks', hbanks', hcalls⟩ := Option.bind_eq_some_iff.mp hwalk
  rw [hrun] at hcalls
  exact ⟨banks', hbanks', Option.some.inj hcalls⟩

/-- A bank whose count is 0 is processed without events. -/
theorem callOf_of_zero {fuel : Nat} {w₀ w₁ w₂ bankId state : UInt32} {rest : List UInt32}
    {banks : List BankSection}
    (h : StreamPackets.banksOfSources true fuel (w₀ :: w₁ :: w₂ :: 1 :: bankId :: state :: 0 :: rest) =
      some banks) :
    ∃ calls, banks.map callOf = (bankId.toNat, state.toNat, some []) :: calls := by
  cases fuel with
  | zero => cases h
  | succ fuel =>
    rw [StreamPackets.banksOfSources] at h
    obtain ⟨⟨found, rpos⟩, hfound, h⟩ := Option.bind_eq_some_iff.mp h
    obtain ⟨others, -, heq⟩ := Option.bind_eq_some_iff.mp h
    cases heq
    have hone : found = [⟨bankId.toNat, state.toNat, 0, rest⟩] :=
      (congrArg Prod.fst (Option.some.inj hfound)).symm
    rw [hone]
    exact ⟨others.map callOf, rfl⟩

theorem sourceStateWords_oneBankSource (n : Nat) :
    SMSControl.sourceStateWords (maxBank oneBankMap) 0 (oneBankSource (n + 1)) =
      0 :: 0 :: 0 :: 1 :: wireBank 3 :: 0 :: UInt32.ofNat (n + 1) ::
        (List.replicate (n + 1) (⟨0, 0⟩ : Event)).flatMap Event.fields := by
  have hne : List.replicate (n + 1) (⟨0, 0⟩ : Event) ≠ [] := by simp
  have hbank : (3 : UInt32) - 2 = wireBank 3 := by decide
  simp [SMSControl.sourceStateWords, oneBankSource, SMSControl.bankStateWords, List.zipIdx, hne,
    maxBank, oneBankMap, PixelMap.realBankOffset, hbank]

theorem callsFrom_oneBankSource (n : Nat) :
    callsFrom (maxBank oneBankMap) 0 (oneBankSource (n + 1)).banksArr =
      [((wireBank 3).toNat, 0, some (List.replicate (n + 1) ⟨0, 0⟩))] := by
  have hne : List.replicate (n + 1) (⟨0, 0⟩ : Event) ≠ [] := by simp
  simp [callsFrom, oneBankSource, List.zipIdx, hne, maxBank, oneBankMap, PixelMap.realBankOffset]

/-- With `2 ^ 32` events the bank's count of events is 0, and the walk processes none. -/
theorem not_walked_of_many :
    ¬ ∀ (pm : PixelMap) (p : Pulse) (log : List FiledState), Reached pm p log →
      ∃ words banks,
        SMSControl.buildBankedStatePacket (maxBank pm) (fun _ => 0) p = some words ∧
          (∀ {σ : Type} (process : σ → BankSection → Option σ) (s : σ),
            walkSources true process (words.drop 4).length s ((words.drop 4).drop 4) =
              Runs.run process s banks) ∧
          banks.map callOf = p.pulseSources.entries.flatMap fun e =>
            callsOf (maxBank pm) log e.1 e.2.banksArr.length := by
  intro hall
  obtain ⟨p, log, h, hstates, hentries⟩ := exists_reached (2 ^ 32 - 1)
  obtain ⟨words, banks, hbuild, hwalk, hcalls⟩ := hall oneBankMap p log h
  have hpayload : ∃ tail, (words.drop 4).drop 4 =
      0 :: 0 :: 0 :: 1 :: wireBank 3 :: 0 :: 0 :: tail := by
    rw [SMSControl.buildBankedStatePacket] at hbuild
    split at hbuild
    · cases hbuild
    · obtain rfl := Option.some.inj hbuild
      rw [hentries, List.flatMap_singleton, sourceStateWords_oneBankSource]
      exact ⟨_, rfl⟩
  obtain ⟨tail, htail⟩ := hpayload
  obtain ⟨banks', hbanks', hsame⟩ := map_callOf_of_walk hwalk
  rw [htail] at hbanks'
  obtain ⟨calls, hzero⟩ := callOf_of_zero hbanks'
  rw [← hsame, hzero, hentries, List.flatMap_singleton,
    ← callsFrom_holds h.holds.1 (by rw [hentries]; exact List.mem_singleton_self _),
    callsFrom_oneBankSource] at hcalls
  -- no events on one side, all of them on the other
  injection hcalls with hcall _
  have hevents := congrArg List.length (Option.some.inj (Prod.mk.inj (Prod.mk.inj hcall).2).2)
  rw [List.length_replicate] at hevents
  cases hevents

end Adara.Spec.PulseAccount
