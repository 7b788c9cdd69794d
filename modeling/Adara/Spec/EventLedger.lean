import Adara.ForStd.ListClasses
import Adara.Spec.BankedEvent
import Adara.Spec.CompletionRule
import Adara.Spec.StateFiling

/-! # The ledger of the events

Whatever the SMS does to its pulse buffer, a pulse keeps the events that were filed in it: every
call takes each pulse to one with the same events, or adds a new one without any (`Traced`), but
for the call that files the events of a data packet, which adds these to one pulse.  So at the
end of every run each pulse, buffered, recorded or dropped, was made by filing the events of the
data packets with its identifier, and no event is lost or there twice (`Filed.run`).  This takes
data packets for whose states the arrays of a source have a size that fits 32 bits. -/

namespace Adara.Spec.EventLedger

open Adara.Native Adara.Native.SMSControl
open Adara.Spec.EventFiling Adara.Spec.StateFiling Adara.Spec.PulseBuffer

/-! ### Writes that keep the events of a pulse -/

theorem keepsEvents_refl (p : Pulse) : KeepsEvents p p :=
  ⟨⟨rfl, rfl, rfl, rfl⟩, rfl, rfl⟩

theorem keepsEvents_trans {p q r : Pulse} (h : KeepsEvents p q) (h' : KeepsEvents q r) :
    KeepsEvents p r where
  pulseSources := h'.pulseSources.trans h.pulseSources
  numBanks := h'.numBanks.trans h.numBanks
  numEvents := h'.numEvents.trans h.numEvents
  states := h'.states.trans h.states
  monitors := h'.monitors.trans h.monitors
  numMonEvents := h'.numMonEvents.trans h.numMonEvents

theorem keepsEvents_setFlag (p : Pulse) {flag : UInt32}
    (hflag : flag &&& PulseFlags.hasStates = 0) : KeepsEvents p (p.setFlag flag) :=
  ⟨⟨rfl, rfl, rfl, hasStates_setFlagIf_of_disjoint p true hflag⟩, rfl, rfl⟩

theorem keepsEvents_setFlagIf (p : Pulse) (cond : Bool) {flag : UInt32}
    (hflag : flag &&& PulseFlags.hasStates = 0) : KeepsEvents p (p.setFlagIf cond flag) := by
  cases cond with
  | false => exact keepsEvents_refl p
  | true => exact keepsEvents_setFlag p hflag

theorem keepsEvents_clearFlag (p : Pulse) {flag : UInt32}
    (hflag : ~~~flag &&& PulseFlags.hasStates = PulseFlags.hasStates) :
    KeepsEvents p (p.clearFlag flag) := by
  refine ⟨⟨rfl, rfl, rfl, ?_⟩, rfl, rfl⟩
  show (p.flags &&& ~~~flag &&& PulseFlags.hasStates != 0) = (p.flags &&& PulseFlags.hasStates != 0)
  rw [UInt32.and_assoc, hflag]

theorem keepsEvents_releasePartial (p : Pulse) (i : Fin 256) :
    KeepsEvents p (p.releasePartial i) := by
  rw [Pulse.releasePartial]
  split
  · have hset := @keepsEvents_setFlag p PulseFlags.partialData rfl
    exact ⟨⟨rfl, rfl, rfl, hset.states⟩, rfl, rfl⟩
  · exact keepsEvents_refl p

theorem keepsEvents_takeRTDL (pkt : RTDLPkt) (p : Pulse) : KeepsEvents p (takeRTDL pkt p) := by
  have hneutrons := fun cond => @keepsEvents_setFlagIf p cond PulseFlags.gotNeutrons rfl
  have hmetadata := fun q cond => @keepsEvents_setFlagIf q cond PulseFlags.gotMetadata rfl
  have hflags := fun c c' => keepsEvents_trans (hneutrons c) (hmetadata _ c')
  obtain ⟨⟨hsources, hbanks, hevents, hstates⟩, hmonitors, hcount⟩ := hflags _ _
  exact ⟨⟨hsources, hbanks, hevents, hstates⟩, hmonitors, hcount⟩

/-- The correction of a pulse by the next one changes charge, veto flags and RTDL. -/
theorem keepsEvents_correct (cfg : Config) (s : Settings) (p next : Pulse) :
    KeepsEvents p (correctPChargeVeto cfg s p next) := by
  have hcharge : ∀ charge, KeepsEvents p (if s.doPulsePchgCorrect then
      { p.clearFlag PulseFlags.pchargeUncorrected with charge } else p) := by
    intro charge
    split
    · have hclear := @keepsEvents_clearFlag p PulseFlags.pchargeUncorrected rfl
      exact ⟨⟨rfl, rfl, rfl, hclear.states⟩, rfl, rfl⟩
    · exact keepsEvents_refl p
  have hveto : ∀ q : Pulse, KeepsEvents q (if s.doPulseVetoCorrect then
      { q.clearFlag PulseFlags.vetoUncorrected with vetoFlags := next.vetoFlags } else q) := by
    intro q
    split
    · have hclear := @keepsEvents_clearFlag q PulseFlags.vetoUncorrected rfl
      exact ⟨⟨rfl, rfl, rfl, hclear.states⟩, rfl, rfl⟩
    · exact keepsEvents_refl q
  rw [correctPChargeVeto]
  dsimp only
  split
  · have hboth := fun charge => keepsEvents_trans (hcharge charge) (hveto _)
    split
    · exact keepsEvents_trans (hboth _) ⟨⟨rfl, rfl, rfl, rfl⟩, rfl, rfl⟩
    · exact hboth _
  · exact keepsEvents_refl p

theorem keepsEvents_recordPulse (cfg : Config) (env : Env) (r : RecordState) (p : Pulse) :
    KeepsEvents p (recordPulse cfg env r p).2 :=
  keepsEvents_trans (@keepsEvents_setFlagIf p _ PulseFlags.missingRtdl rfl)
    (@keepsEvents_setFlagIf _ _ PulseFlags.pulseVeto rfl)

/-! ### Where the pulses come from -/

/-- The pulses buffered, recorded and dropped. -/
def allEntries (S : SMSControl) : List (PulseIdentifier × Node) :=
  S.pulses.entries ++ S.history.recordings.flatMap Recording.recorded ++ S.history.dropped

theorem map_ident_allEntries (S : SMSControl) :
    (allEntries S).map ident = bufferedPulses S ++ recordedPulses S ++ droppedPulses S := by
  rw [allEntries, List.map_append, List.map_append, List.map_flatMap]
  rfl

theorem mem_allEntries {S : SMSControl} {e : PulseIdentifier × Node} :
    e ∈ allEntries S ↔ e ∈ S.pulses.entries ∨
      e ∈ S.history.recordings.flatMap Recording.recorded ∨ e ∈ S.history.dropped := by
  rw [allEntries, List.mem_append, List.mem_append, or_assoc]

/-- A pulse is one of before with the same events, or a new one without any. -/
inductive Origin (pm : PixelMap) (S : SMSControl) (e' : PulseIdentifier × Node) : Prop
  | kept (e : PulseIdentifier × Node) (he : e ∈ allEntries S) (hident : ident e' = ident e)
      (hkeep : KeepsEvents e.2.pulse e'.2.pulse)
  | new (hserial : S.history.created.length ≤ e'.2.serial) (hempty : Reached pm e'.2.pulse [])

/-- Every pulse is one of before with the same events, or a new one without any. -/
structure Traced (pm : PixelMap) (S S' : SMSControl) : Prop where
  origin : ∀ e' ∈ allEntries S', Origin pm S e'
  created : S.history.created <+: S'.history.created

section Trace

variable {pm : PixelMap} {S S' T : SMSControl}

theorem Origin.of_mem {e : PulseIdentifier × Node} (he : e ∈ allEntries S) : Origin pm S e :=
  .kept e he rfl (keepsEvents_refl _)

theorem Traced.refl (S : SMSControl) : Traced pm S S where
  origin _ he := .of_mem he
  created := List.prefix_rfl

theorem Traced.trans (h : Traced pm S S') (h' : Traced pm S' T) : Traced pm S T where
  origin := by
    intro e'' he''
    cases h'.origin e'' he'' with
    | kept e' he' hident' hkeep' =>
      cases h.origin e' he' with
      | kept e he hident hkeep =>
        exact .kept e he (hident'.trans hident) (keepsEvents_trans hkeep hkeep')
      | new hserial hempty =>
        have hsame : e''.2.serial = e'.2.serial := congrArg Prod.snd hident'
        exact .new (hsame ▸ hserial) (hempty.write hkeep')
    | new hserial hempty => exact .new (h.created.length_le.trans hserial) hempty
  created := h.created.trans h'.created

/-- The data of the buffered pulses change, but not their events. -/
theorem traced_of_mapVal {f : PulseIdentifier → Node → Node}
    (hpulses : S'.pulses = S.pulses.mapVal f)
    (hf : ∀ e ∈ S.pulses.entries, (f e.1 e.2).serial = e.2.serial ∧
      KeepsEvents e.2.pulse (f e.1 e.2).pulse)
    (hhistory : S'.history.created = S.history.created ∧
      S'.history.recordings = S.history.recordings ∧ S'.history.dropped = S.history.dropped) :
    Traced pm S S' where
  origin := by
    obtain ⟨-, hrecordings, hdropped⟩ := hhistory
    intro e' he'
    rw [mem_allEntries, hpulses, hrecordings, hdropped] at he'
    rcases he' with he' | he'
    · obtain ⟨e, he, rfl⟩ := List.mem_map.mp he'
      obtain ⟨hserial, hkeep⟩ := hf e he
      exact .kept e (mem_allEntries.mpr (.inl he)) (Prod.ext rfl hserial) hkeep
    · exact .of_mem (mem_allEntries.mpr (.inr he'))
  created := hhistory.1 ▸ List.prefix_rfl

/-- Nothing changes in the buffer. -/
theorem traced_of_eq (hpulses : S'.pulses = S.pulses) (hhistory : S'.history = S.history) :
    Traced pm S S' where
  origin e he := by
    rw [allEntries, hpulses, hhistory] at he
    exact .of_mem he
  created := hhistory ▸ List.prefix_rfl

theorem traced_ite (c : Prop) [Decidable c] (h : Traced pm S S') :
    Traced pm S (if c then S' else S) := by
  split
  · exact h
  · exact .refl S

theorem traced_updatePulse (S : SMSControl) (pid : PulseIdentifier) {f : Pulse → Pulse}
    (hf : ∀ p, KeepsEvents p (f p)) : Traced pm S (S.updatePulse pid f) := by
  let update : PulseIdentifier → Node → Node := fun k n =>
    if k = pid then { n with pulse := f n.pulse } else n
  have hpulses : (S.updatePulse pid f).pulses = S.pulses.mapVal update := rfl
  refine traced_of_mapVal hpulses (fun e _ => ?_) ⟨rfl, rfl, rfl⟩
  dsimp only [update]
  split
  · exact ⟨rfl, hf _⟩
  · exact ⟨rfl, keepsEvents_refl _⟩

theorem traced_releaseAll (S : SMSControl) (i : Fin 256) : Traced pm S (releaseAll S i) := by
  let release : PulseIdentifier → Node → Node := fun _ n =>
    { n with pulse := n.pulse.releasePartial i }
  have hpulses : (releaseAll S i).pulses = S.pulses.mapVal release := rfl
  exact traced_of_mapVal hpulses (fun e _ => ⟨rfl, keepsEvents_releasePartial e.2.pulse i⟩)
    ⟨rfl, rfl, rfl⟩

theorem traced_completeFor (S : SMSControl) (current : PulseIdentifier)
    (smsId : Option (Fin 256)) : Traced pm S (completeFor S current smsId) := by
  cases smsId with
  | none => exact .refl S
  | some i =>
    let complete : PulseIdentifier → Node → Node := fun pid n =>
      if pid < current then { n with pulse := n.pulse.releasePartial i }
      else if pid = current then
        { n with pulse := { n.pulse with pending := n.pulse.pending.erase i } }
      else n
    have hpulses : (completeFor S current (some i)).pulses = S.pulses.mapVal complete := rfl
    refine traced_of_mapVal hpulses (fun e _ => ?_) ⟨rfl, rfl, rfl⟩
    dsimp only [complete]
    split
    · exact ⟨rfl, keepsEvents_releasePartial _ i⟩
    · split
      · exact ⟨rfl, ⟨rfl, rfl, rfl, rfl⟩, rfl, rfl⟩
      · exact ⟨rfl, keepsEvents_refl _⟩

/-! ### Recording, creating and dropping -/

/-- Every pulse that is recorded is a buffered one with the same events. -/
theorem recordLoop_keeps (cfg : Config) (env : Env) (s : Settings) (overflow : Bool) (n : Nat)
    (r : RecordState) (lastPid : PulseIdentifier) (entries : List (PulseIdentifier × Node)) :
    ∀ e' ∈ (recordLoop cfg env s overflow n r lastPid entries).2.2, ∃ e ∈ entries,
      ident e' = ident e ∧ KeepsEvents e.2.pulse e'.2.pulse := by
  induction entries generalizing n r lastPid with
  | nil => cases n <;> exact List.forall_mem_nil _
  | cons e rest ih =>
    cases n with
    | zero => exact List.forall_mem_nil _
    | succ n =>
      rw [recordLoop]
      intro e' he'
      rcases List.mem_cons.mp he' with rfl | he'
      · refine ⟨e, List.mem_cons_self, rfl, ?_⟩
        -- marked as partial, corrected, and with the flags for its packets
        apply keepsEvents_trans _ (keepsEvents_recordPulse cfg env r _)
        apply keepsEvents_trans (@keepsEvents_setFlagIf _ _ PulseFlags.partialData rfl)
        split
        · split
          · exact keepsEvents_correct ..
          · exact keepsEvents_refl _
        · exact keepsEvents_refl _
      · obtain ⟨o, ho, hsame⟩ := ih _ _ _ e' he'
        exact ⟨o, List.mem_cons_of_mem _ ho, hsame⟩

theorem traced_recordPrefix (cfg : Config) (env : Env) (overflow : Bool) (n : Nat)
    (S : SMSControl) : Traced pm S (recordPrefix cfg env overflow n S) where
  origin := by
    intro e' he'
    have hrecorded := recordLoop_keeps cfg env S.settings overflow n S.record S.lastPid
      S.pulses.entries
    rcases mem_allEntries.mp he' with he' | he' | he'
    · exact .of_mem (mem_allEntries.mpr (.inl (List.mem_of_mem_drop he')))
    · rw [recordPrefix, List.flatMap_append, List.flatMap_singleton, List.mem_append] at he'
      rcases he' with he' | he'
      · exact .of_mem (mem_allEntries.mpr (.inr (.inl he')))
      · obtain ⟨e, he, hident, hkeep⟩ := hrecorded e' he'
        exact .kept e (mem_allEntries.mpr (.inl he)) hident hkeep
    · exact .of_mem (mem_allEntries.mpr (.inr (.inr he')))
  created := List.prefix_rfl

theorem traced_flushOverflow (cfg : Config) (env : Env) (S : SMSControl) :
    Traced pm S (flushOverflow cfg env S) := by
  have htake : Traced pm S (if S.getPulseCnt % 3600 = 0 then takeMaxBuffer env S else S) :=
    traced_ite _ (traced_of_eq rfl rfl)
  simp only [flushOverflow]
  generalize (if S.getPulseCnt % 3600 = 0 then takeMaxBuffer env S else S) = T at htake ⊢
  split
  · have hcorrections : Traced pm T (takeCorrections env T) := traced_of_eq rfl rfl
    exact (htake.trans hcorrections).trans (traced_recordPrefix ..)
  · exact htake

theorem reached_newPulse (S : SMSControl) (pid : PulseIdentifier) :
    Reached pm (newPulse S pid) [] := by
  have hnew : Reached pm (Pulse.new pid S.eventSources) [] := .new ..
  exact ((hnew.write (@keepsEvents_setFlag _ PulseFlags.pchargeUncorrected rfl)).write
    (@keepsEvents_setFlag _ PulseFlags.vetoUncorrected rfl)).write
    (@keepsEvents_setFlagIf _ _ PulseFlags.duplicatePulse rfl)

theorem traced_insertPulse {pid : PulseIdentifier} {p : Pulse} (hempty : Reached pm p [])
    (S : SMSControl) : Traced pm S (insertPulse S pid p) where
  origin := by
    intro e' he'
    rcases mem_allEntries.mp he' with he' | he'
    · rcases SortedMap.eq_or_mem_of_mem_insert he' with rfl | he'
      · exact .new (Nat.le_refl _) hempty
      · exact .of_mem (mem_allEntries.mpr (.inl he'))
    · exact .of_mem (mem_allEntries.mpr (.inr he'))
  created := List.prefix_append _ _

theorem traced_createPulse (cfg : Config) (env : Env) (S : SMSControl) (pid : PulseIdentifier) :
    Traced pm S (createPulse cfg env S pid) := by
  have hcount : Traced pm S (countPulse S pid) := traced_of_eq rfl rfl
  have hflush : Traced pm (countPulse S pid) (if (countPulse S pid).getPulseCnt % 60 = 0 then
      flushOverflow cfg env (countPulse S pid) else countPulse S pid) :=
    traced_ite _ (traced_flushOverflow cfg env _)
  exact (hcount.trans hflush).trans (traced_insertPulse (reached_newPulse _ pid) _)

theorem traced_popPulseBuffer (S : SMSControl) (pulseIndex : Int) :
    Traced pm S (S.popPulseBuffer pulseIndex) := by
  rcases popPulseBuffer_cases S pulseIndex with h | ⟨i, hi, h⟩
  · rw [h]
    exact .refl S
  · rw [h]
    refine ⟨fun e he => ?_, List.prefix_rfl⟩
    rcases mem_allEntries.mp he with he | he | he
    · exact .of_mem (mem_allEntries.mpr (.inl (List.mem_of_mem_eraseIdx he)))
    · exact .of_mem (mem_allEntries.mpr (.inr (.inl he)))
    · rcases List.mem_append.mp he with he | he
      · exact .of_mem (mem_allEntries.mpr (.inr (.inr he)))
      · obtain rfl := List.mem_singleton.mp he
        exact .of_mem (mem_allEntries.mpr (.inl (List.getElem_mem hi)))

end Trace

/-! ### The calls of the SMS -/

section Calls

variable {pm : PixelMap} {cfg : Config} {env : Env} {S S' : SMSControl}

theorem traced_getPulse (S : SMSControl) (pid : PulseIdentifier) :
    Traced pm S (getPulse cfg env S pid).1 := by
  rw [getPulse]
  split
  · exact .refl S
  · split
    · exact traced_of_eq rfl rfl
    · exact traced_createPulse cfg env S pid

theorem traced_lookup {pid k : PulseIdentifier} {n : Node}
    (h : lookup cfg env S pid = some (S', k, n)) : Traced pm S S' :=
  (lookup_eq_some h).1 ▸ traced_getPulse S pid

theorem traced_recordReleased (S : SMSControl) : Traced pm S (recordReleased cfg env S) := by
  rw [recordReleased]
  split
  · exact .refl S
  · have htake : Traced pm S (takeNoEoP env S) := traced_of_eq rfl rfl
    dsimp only
    split
    · exact htake
    · have hcorrections : Traced pm S (takeCorrections env (takeNoEoP env S)) :=
        htake.trans (traced_of_eq rfl rfl)
      exact hcorrections.trans (traced_recordPrefix ..)

theorem traced_unregisterEventSource (S : SMSControl) (smsId : Option (Fin 256)) :
    Traced pm S (unregisterEventSource cfg env S smsId) := by
  cases smsId with
  | none => exact .refl S
  | some i =>
    have hreleased : Traced pm S (recordReleased cfg env (releaseAll S i)) :=
      (traced_releaseAll S i).trans (traced_recordReleased _)
    exact hreleased.trans (traced_of_eq rfl rfl)

theorem traced_dropIntermittent (S : SMSControl) : Traced pm S (dropIntermittent cfg env S) := by
  rw [dropIntermittent]
  split
  · exact .refl S
  · rename_i i _
    split
    · have hmark : Traced pm S (markIntermittent S i) := ⟨fun e he => .of_mem he, List.prefix_rfl⟩
      exact hmark.trans (traced_unregisterEventSource _ _)
    · exact .refl S

theorem traced_recordCompleted (S : SMSControl) (last : Nat) :
    Traced pm S (recordCompleted cfg env S last) := by
  have htake : Traced pm S (if S.markCompleteCnt % 600 = 0 then takeNoEoP env S else S) :=
    traced_ite _ (traced_of_eq rfl rfl)
  dsimp only [recordCompleted]
  generalize (if S.markCompleteCnt % 600 = 0 then takeNoEoP env S else S) = T at htake ⊢
  split
  · exact htake
  · have hcorrections : Traced pm T
        (if S.markCompleteCnt % 600 = 0 then takeCorrections env T else T) :=
      traced_ite _ (traced_of_eq rfl rfl)
    exact (htake.trans hcorrections).trans (traced_recordPrefix ..)

theorem traced_markComplete {pulseId : UInt64} {dup : UInt32} {smsId : Option (Fin 256)}
    (h : markComplete cfg env S pulseId dup smsId = some S') : Traced pm S S' := by
  obtain ⟨⟨T, current, n⟩, hlookup, rfl⟩ := Option.map_eq_some_iff.mp h
  have hthreshold : Traced pm S (refreshThreshold env S) := traced_of_eq rfl rfl
  have hcurrent := ((hthreshold.trans (traced_dropIntermittent _)).trans
    (traced_lookup hlookup)).trans (traced_completeFor T current smsId)
  dsimp only [completeCurrent]
  split
  · exact hcurrent
  · exact hcurrent.trans (traced_recordCompleted _ _)

theorem traced_pulseRTDL {pkt : RTDLPkt} {dup : UInt32}
    (h : pulseRTDL cfg env S pkt dup = some S') : Traced pm S S' := by
  obtain ⟨⟨T, k, n⟩, hlookup, h⟩ := Option.bind_eq_some_iff.mp h
  have hfound : Traced pm S T := traced_lookup hlookup
  dsimp only at h
  split at h
  · exact Option.some.inj h ▸ hfound
  · have htake := hfound.trans (traced_updatePulse T k (keepsEvents_takeRTDL pkt))
    have hring : Traced pm S (storeRing (T.updatePulse k (takeRTDL pkt)) pkt) :=
      htake.trans (traced_of_eq rfl rfl)
    split at h
    · have hcount : Traced pm S
          (countUnregistered (storeRing (T.updatePulse k (takeRTDL pkt)) pkt) n.pulse) :=
        hring.trans (traced_of_eq rfl rfl)
      have hpartial := hcount.trans (traced_updatePulse _ k fun p =>
        @keepsEvents_setFlag p PulseFlags.partialData rfl)
      exact hpartial.trans (traced_markComplete h)
    · exact Option.some.inj h ▸ hring

/-- Every call but the one for a data packet keeps the events of every pulse. -/
theorem traced_step {op : Op} (h : step cfg S (env, op) = some S')
    (hop : ∀ pkt hwId dup isMapped mixed, op ≠ .pulseEvents pkt hwId dup isMapped mixed) :
    Traced pm S S' := by
  cases op with
  | registerEventSource srcId =>
    rw [step] at h
    split at h
    · exact Option.some.inj h ▸ .refl S
    · rename_i hreg
      cases h
      rw [registerEventSource] at hreg
      split at hreg
      · cases hreg
      · cases hreg
        exact traced_of_eq rfl rfl
  | unregisterEventSource smsId => exact Option.some.inj h ▸ traced_unregisterEventSource S smsId
  | getPulse pid => exact Option.some.inj h ▸ traced_getPulse S pid
  | pulseEvents pkt hwId dup isMapped mixed => exact (hop pkt hwId dup isMapped mixed rfl).elim
  | pulseRTDL pkt dup => exact traced_pulseRTDL h
  | markPartial pulseId dup =>
    obtain ⟨⟨T, k, n⟩, hlookup, rfl⟩ := Option.map_eq_some_iff.mp h
    exact (traced_lookup hlookup).trans (traced_updatePulse T k fun p =>
      @keepsEvents_setFlag p PulseFlags.partialData rfl)
  | markComplete pulseId dup smsId => exact traced_markComplete h
  | popPulseBuffer pulseIndex => exact Option.some.inj h ▸ traced_popPulseBuffer S pulseIndex

end Calls

/-! ### The ledger -/

/-- The events a call files, each with the identifier of its packet and the number of the node
    that takes it. -/
def filing (cfg : Config) (S : SMSControl) :
    Env × Op → List ((PulseIdentifier × Nat) × FiledState)
  | (env, .pulseEvents pkt hwId dup isMapped _) =>
    match lookup cfg env S (.mk pkt.pulseId dup) with
    | none => []
    | some (T, _, n) =>
      (filedStates (countPulseEvents env T).settings.events cfg.pixelMap isMapped hwId
        pkt.events).map fun f => ((.mk pkt.pulseId dup, n.serial), f)
  | _ => []

/-- The arrays a data packet asks for have sizes that fit 32 bits. -/
def HasRoom (cfg : Config) (S : SMSControl) : Env × Op → Prop
  | (env, .pulseEvents pkt hwId dup isMapped _) =>
    ∀ r ∈ lookup cfg env S (.mk pkt.pulseId dup),
      Room (countPulseEvents env r.1).settings.events cfg.pixelMap isMapped hwId
        r.1.record.numStatesLast pkt
  | _ => True

instance decidableRoom (s : EventSettings) (pm : PixelMap) (isMapped : Bool) (hwId : UInt32)
    (numStatesLast : Nat) (pkt : RawDataPkt) :
    Decidable (Room s pm isMapped hwId numStatesLast pkt) :=
  decidable_of_iff (numStatesLast * (maxBank pm + 1) < Word32.modulus ∧
      ∀ f ∈ filedStates s pm isMapped hwId pkt.events, Fits pm f.state)
    ⟨fun h => ⟨h.1, h.2⟩, fun h => ⟨h.newSource, h.states⟩⟩

instance decidableHasRoom (cfg : Config) (S : SMSControl) (op : Env × Op) :
    Decidable (HasRoom cfg S op) :=
  match op with
  | (env, .pulseEvents pkt hwId dup isMapped _) =>
    inferInstanceAs (Decidable (∀ r ∈ lookup cfg env S (.mk pkt.pulseId dup),
      Room (countPulseEvents env r.1).settings.events cfg.pixelMap isMapped hwId
        r.1.record.numStatesLast pkt))
  | (_, .registerEventSource _) | (_, .unregisterEventSource _) | (_, .getPulse _)
  | (_, .pulseRTDL _ _) | (_, .markPartial _ _) | (_, .markComplete _ _ _)
  | (_, .popPulseBuffer _) => inferInstanceAs (Decidable True)

/-- The events filed in one pulse. -/
def eventsOf (log : List ((PulseIdentifier × Nat) × FiledState)) (id : PulseIdentifier × Nat) :
    List FiledState :=
  (log.filter fun t => t.1 = id).map Prod.snd

/-- Every pulse was made by filing its events, and events were filed in pulses only. -/
structure Ledger (pm : PixelMap) (log : List ((PulseIdentifier × Nat) × FiledState))
    (S : SMSControl) : Prop where
  holds : ∀ e ∈ allEntries S, Reached pm e.2.pulse (eventsOf log (ident e))
  known : ∀ t ∈ log, t.1 ∈ S.history.created.zipIdx

section Ledgers

variable {pm : PixelMap} {cfg : Config} {env : Env} {S S' : SMSControl}
  {log log' : List ((PulseIdentifier × Nat) × FiledState)}

theorem eventsOf_append (id : PulseIdentifier × Nat) :
    eventsOf (log ++ log') id = eventsOf log id ++ eventsOf log' id := by
  rw [eventsOf, List.filter_append, List.map_append]
  rfl

theorem eventsOf_eq_nil {id : PulseIdentifier × Nat} (h : ∀ t ∈ log, t.1 ≠ id) :
    eventsOf log id = [] := by
  rw [eventsOf, List.filter_eq_nil_iff.mpr (fun t ht => by simpa using h t ht), List.map_nil]

theorem eventsOf_tagged (id : PulseIdentifier × Nat) (fs : List FiledState) :
    eventsOf (fs.map fun f => (id, f)) id = fs := by
  rw [eventsOf, List.filter_eq_self.mpr, List.map_map]
  · exact List.map_id _
  · intro t ht
    obtain ⟨f, -, rfl⟩ := List.mem_map.mp ht
    exact decide_eq_true rfl

theorem eventsOf_tagged_of_ne {id id' : PulseIdentifier × Nat} (h : id ≠ id')
    (fs : List FiledState) : eventsOf (fs.map fun f => (id, f)) id' = [] := by
  apply eventsOf_eq_nil
  intro t ht
  obtain ⟨f, -, rfl⟩ := List.mem_map.mp ht
  exact h

/-- Calls that keep the events keep the ledger. -/
theorem Ledger.traced (h : Traced pm S S') (hS : Ledger pm log S) : Ledger pm log S' where
  holds := by
    intro e' he'
    cases h.origin e' he' with
    | kept e he hident hkeep =>
      rw [hident]
      exact (hS.holds e he).write hkeep
    | new hserial hempty =>
      rw [eventsOf_eq_nil]
      · exact hempty
      · -- the number of a new node is not in use
        intro t ht hsame
        have hlt := List.snd_lt_of_mem_zipIdx (hS.known t ht)
        have hnumber : t.1.2 = e'.2.serial := congrArg Prod.snd hsame
        omega
  known := by
    intro t ht
    obtain ⟨more, hmore⟩ := h.created
    rw [← hmore, List.zipIdx_append]
    exact List.mem_append_left _ (hS.known t ht)

theorem nodup_zipIdx {α : Type*} (l : List α) : l.zipIdx.Nodup := by
  apply List.Nodup.of_map Prod.snd
  rw [List.zipIdx_map_snd]
  exact List.nodup_range'

/-- An entry of the buffer has its place alone. -/
theorem ident_ne_of_mem {S : SMSControl} (hS : Conserved S) {e e' : PulseIdentifier × Node}
    (he : e ∈ S.pulses.entries)
    (he' : e' ∈ S.history.recordings.flatMap Recording.recorded ∨ e' ∈ S.history.dropped) :
    ident e' ≠ ident e := by
  have hnodup : ((allEntries S).map ident).Nodup := by
    rw [map_ident_allEntries]
    exact hS.nodup_iff.mpr (nodup_zipIdx _)
  rw [allEntries, List.append_assoc, List.map_append, List.nodup_append] at hnodup
  exact fun hsame => hnodup.2.2 _ (List.mem_map_of_mem he) _
    (List.mem_map_of_mem (List.mem_append.mpr he')) hsame.symm

/-- The call for a data packet adds the events of the packet to one pulse. -/
theorem Ledger.pulseEvents {pkt : RawDataPkt} {hwId dup : UInt32} {isMapped mixed : Bool}
    {r : SMSControl × EventCounts} (hconserved : Conserved S) (hcache : CacheLeads S)
    (hS : Ledger cfg.pixelMap log S)
    (hroom : HasRoom cfg S (env, .pulseEvents pkt hwId dup isMapped mixed))
    (h : pulseEvents cfg env S pkt hwId dup isMapped mixed = some r) :
    Ledger cfg.pixelMap
      (log ++ filing cfg S (env, .pulseEvents pkt hwId dup isMapped mixed)) r.1 := by
  obtain ⟨⟨T, k, n⟩, hlookup, h⟩ := Option.bind_eq_some_iff.mp h
  obtain ⟨a, hfile, rfl⟩ := Option.map_eq_some_iff.mp h
  have hsound : IteratorsSound S :=
    ⟨fun e he e' he' => hconserved.eq_of_serial he he', fun e he => hconserved.serial_lt he, hcache⟩
  -- the pulse found is the one of the packet
  obtain ⟨rfl, hfound, -⟩ := lookup_spec hsound hlookup
  have hT := hS.traced (traced_lookup hlookup)
  have hconserved' : Conserved T := (lookup_moves hlookup).preserves Conserved.move hconserved
  have hentry : (PulseIdentifier.mk pkt.pulseId dup, n) ∈ T.pulses.entries :=
    SortedMap.find?_eq_some.mp hfound
  have hfiling : filing cfg S (env, .pulseEvents pkt hwId dup isMapped mixed) =
      (filedStates (countPulseEvents env T).settings.events cfg.pixelMap isMapped hwId
        pkt.events).map fun f => (ident (PulseIdentifier.mk pkt.pulseId dup, n), f) := by
    simp only [filing, hlookup, ident]
  have hfiled := (hT.holds _ (mem_allEntries.mpr (.inl hentry))).file _ _ _ _ pkt hwId isMapped
    mixed (hroom _ hlookup) hfile
  rw [hfiling]
  generalize filedStates (countPulseEvents env T).settings.events cfg.pixelMap isMapped hwId
    pkt.events = fs at hfiled ⊢
  have hkept : ∀ e ∈ allEntries T, ident e ≠ ident (PulseIdentifier.mk pkt.pulseId dup, n) →
      Reached cfg.pixelMap e.2.pulse (eventsOf (log ++
        fs.map fun f => (ident (PulseIdentifier.mk pkt.pulseId dup, n), f)) (ident e)) := by
    intro e he hne
    rw [eventsOf_append, eventsOf_tagged_of_ne hne.symm, List.append_nil]
    exact hT.holds e he
  constructor
  · intro e' he'
    rcases mem_allEntries.mp he' with he' | he'
    · obtain ⟨e, he, rfl⟩ := List.mem_map.mp he'
      by_cases hkey : e.1 = PulseIdentifier.mk pkt.pulseId dup
      · -- the pulse with the key of the packet takes the events
        obtain rfl : e = (PulseIdentifier.mk pkt.pulseId dup, n) :=
          SortedMap.eq_of_key_eq T.pulses.sorted he hentry hkey
        dsimp only
        rw [if_pos rfl, eventsOf_append]
        have hown := eventsOf_tagged (ident (PulseIdentifier.mk pkt.pulseId dup, n)) fs
        exact hown.symm ▸ hfiled
      · dsimp only
        rw [if_neg hkey]
        exact hkept e (mem_allEntries.mpr (.inl he)) fun hsame => hkey (congrArg Prod.fst hsame)
    · exact hkept e' (mem_allEntries.mpr (.inr he')) (ident_ne_of_mem hconserved' hentry he')
  · intro t ht
    rcases List.mem_append.mp ht with ht | ht
    · exact hT.known t ht
    · obtain ⟨f, -, rfl⟩ := List.mem_map.mp ht
      exact List.mem_zipIdx_iff_getElem?.mpr (hconserved'.created_serial hfound)

theorem Ledger.step {op : Op} (hconserved : Conserved S) (hcache : CacheLeads S)
    (hS : Ledger cfg.pixelMap log S) (hroom : HasRoom cfg S (env, op))
    (h : PulseBuffer.step cfg S (env, op) = some S') :
    Ledger cfg.pixelMap (log ++ filing cfg S (env, op)) S' := by
  by_cases hop : ∃ pkt hwId dup isMapped mixed, op = .pulseEvents pkt hwId dup isMapped mixed
  · obtain ⟨pkt, hwId, dup, isMapped, mixed, rfl⟩ := hop
    obtain ⟨r, hr, rfl⟩ := Option.map_eq_some_iff.mp h
    exact hS.pulseEvents hconserved hcache hroom hr
  · have hother : ∀ pkt hwId dup isMapped mixed, op ≠ .pulseEvents pkt hwId dup isMapped mixed :=
      fun pkt hwId dup isMapped mixed hsame => hop ⟨pkt, hwId, dup, isMapped, mixed, hsame⟩
    have hnothing : filing cfg S (env, op) = [] := by
      cases op with
      | pulseEvents pkt hwId dup isMapped mixed => exact (hother _ _ _ _ _ rfl).elim
      | _ => rfl
    rw [hnothing, List.append_nil]
    exact hS.traced (traced_step h hother)

/-- The events the calls of a run file. -/
def filedBy (cfg : Config) (S : SMSControl) (ops : List (Env × Op)) :
    List ((PulseIdentifier × Nat) × FiledState) :=
  Runs.collect (PulseBuffer.step cfg) (filing cfg) S ops

section Runs

variable {settings : Settings} {noRTDLPulses : Bool} {memory : Fin 256 → Nat}
  {ops : List (Env × Op)}

/-- The ledger is kept along every run with room for its data packets. -/
theorem ledger_run
    (h : Runs.run (PulseBuffer.step cfg) (initial settings noRTDLPulses memory) ops = some S)
    (hroom : Runs.along (PulseBuffer.step cfg) (HasRoom cfg)
      (initial settings noRTDLPulses memory) ops) :
    Conserved S ∧
      Ledger cfg.pixelMap (filedBy cfg (initial settings noRTDLPulses memory) ops) S := by
  let I := fun (log : List ((PulseIdentifier × Nat) × FiledState)) S =>
    (Conserved S ∧ CacheLeads S) ∧ Ledger cfg.pixelMap log S
  have hstart : I [] (initial settings noRTDLPulses memory) :=
    ⟨⟨List.Perm.refl _, List.forall_mem_nil _⟩, List.forall_mem_nil _, List.forall_mem_nil _⟩
  have hall : I ([] ++ filedBy cfg (initial settings noRTDLPulses memory) ops) S := by
    refine Runs.invariant_collect ?_ hstart hroom h
    rintro log S op S' ⟨hsound, hledger⟩ hroom hstep
    refine ⟨?_, hledger.step hsound.1 hsound.2 hroom hstep⟩
    apply (step_moves hstep).preserves _ hsound
    intro T T' hmove hT
    exact ⟨hT.1.move hmove, hT.2.move hmove hT.1⟩
  exact ⟨hall.1.1, hall.2⟩

/-- The events of all pulses together are those filed. -/
theorem Ledger.perm (hconserved : Conserved S) (hS : Ledger pm log S) :
    ((allEntries S).flatMap fun e => eventsOf log (ident e)).Perm (log.map Prod.snd) := by
  have hperm : ((allEntries S).map ident).Perm S.history.created.zipIdx := by
    rw [map_ident_allEntries]
    exact hconserved
  have hclasses : ((allEntries S).flatMap fun e => eventsOf log (ident e)) =
      (List.classes Prod.fst ((allEntries S).map ident) log).map Prod.snd := by
    rw [List.classes, List.flatMap_map, List.map_flatMap]
    rfl
  rw [hclasses]
  exact (List.perm_classes (hperm.nodup_iff.mpr (nodup_zipIdx _))
    fun t ht => hperm.mem_iff.mpr (hS.known t ht)).map _

/-- At the end of every run each pulse ever created is buffered, recorded or dropped, each once,
    and holds in its banks, states and counts exactly the events of the data packets with its
    identifier that came while it was in the buffer.  Over all pulses these are the events filed in
    the run, each once. -/
theorem events_of_run
    (h : Runs.run (PulseBuffer.step cfg) (initial settings noRTDLPulses memory) ops = some S)
    (hroom : Runs.along (PulseBuffer.step cfg) (HasRoom cfg)
      (initial settings noRTDLPulses memory) ops) :
    ((allEntries S).map ident).Perm S.history.created.zipIdx ∧
      (∀ e ∈ allEntries S, Counted e.2.pulse ∧ HoldsStates cfg.pixelMap e.2.pulse
        (eventsOf (filedBy cfg (initial settings noRTDLPulses memory) ops) (ident e))) ∧
      ((allEntries S).flatMap fun e =>
        eventsOf (filedBy cfg (initial settings noRTDLPulses memory) ops) (ident e)).Perm
          ((filedBy cfg (initial settings noRTDLPulses memory) ops).map Prod.snd) := by
  obtain ⟨hconserved, hledger⟩ := ledger_run h hroom
  refine ⟨?_, fun e he => ?_, hledger.perm hconserved⟩
  · rw [map_ident_allEntries]
    exact hconserved
  · have hreached := hledger.holds e he
    exact ⟨hreached.assembled.counted, hreached.holds.1⟩

end Runs

end Ledgers

/-- A source sends a packet with one event and completes its pulse. -/
def oneEventOps : List (Env × Op) :=
  [(smallEnv, .registerEventSource firstSource),
    (smallEnv, .pulseEvents { BankedEvent.oneEventPkt with pulseId := 1 } 0 0 false false),
    (smallEnv, .markComplete 1 0 (some ⟨0, Nat.zero_lt_succ _⟩))]

/-- The pulse is recorded, with the event in bank 0. -/
theorem events_of_run_one :
    filedBy smallConfig (initial smallSettings false fun _ => 0) oneEventOps =
        [((.mk 1 0, 0), ⟨0, 2, 0, ⟨0, 0⟩⟩)] ∧
      ∃ S e, Runs.run (PulseBuffer.step smallConfig) (initial smallSettings false fun _ => 0)
          oneEventOps = some S ∧
        S.history.recordings.flatMap Recording.recorded = [e] ∧
        HoldsStates smallConfig.pixelMap e.2.pulse [⟨0, 2, 0, ⟨0, 0⟩⟩] := by
  have hfiled : filedBy smallConfig (initial smallSettings false fun _ => 0) oneEventOps =
      [((.mk 1 0, 0), ⟨0, 2, 0, ⟨0, 0⟩⟩)] := by decide
  have hrun : (Runs.run (PulseBuffer.step smallConfig) (initial smallSettings false fun _ => 0)
      oneEventOps).map (fun S => (S.history.recordings.flatMap Recording.recorded).map ident) =
        some [(.mk 1 0, 0)] := by decide
  obtain ⟨S, hS, hidents⟩ := Option.map_eq_some_iff.mp hrun
  obtain ⟨e, hrecorded, hident⟩ := List.map_eq_singleton_iff.mp hidents
  obtain ⟨-, hholds, -⟩ := events_of_run hS (by decide)
  have he : e ∈ allEntries S :=
    mem_allEntries.mpr (.inr (.inl (hrecorded ▸ List.mem_singleton_self e)))
  obtain ⟨-, hstates⟩ := hholds e he
  rw [hfiled, hident] at hstates
  exact ⟨hfiled, S, e, hS, hrecorded, hstates⟩

end Adara.Spec.EventLedger
