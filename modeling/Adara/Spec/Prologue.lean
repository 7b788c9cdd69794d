import Adara.ForStd.Runs
import Adara.Spec.StreamReader

/-! # A prologue equals a replay of the stream

Whoever starts with a prologue, and reads on from there, knows the same of every device as one
who has read the whole stream.  The manager keeps this up because what it has kept of a device
agrees with the stream at all times but while a packet is added, and then the packet makes up
for the difference. -/

namespace Adara.Native.MetaDataMgr

variable {s t : MetaDataMgr}

/-! ### The property -/

/-- For every device there was, the prologue and the packet being added tell a reader the same
    as the stream and that packet. -/
def Faithful (p : Prologue) : Prop :=
  ∃ pkts, p.emitted = some pkts ∧
    ∀ id ∈ p.live, replayed (pkts ++ p.pending) id = replayed (p.stream ++ p.pending) id

/-- Every prologue that was written was faithful, and so is one that would be written now. -/
def PrologueEqualsReplay (s : MetaDataMgr) : Prop :=
  (∀ p ∈ s.prologues, Faithful p) ∧
    Faithful ⟨onPrologue s.devices, s.stream, [], s.devices.keys⟩

/-- The packet already has the status of a lost connection. -/
def Disconnected (p : VariablePkt) : Prop := p.hdr.status = 0xfffe ∧ p.hdr.severity = 3

/-- What keeps the prologues faithful: an old device that is reinstated finds the entry of its
    own source; a packet with several values that is kept has a last one, at a time that fits
    in the header of a packet; and no prologue is asked for in the middle of a drop, unless the
    variables before had lost their connection already. -/
def KeepsPrologue (s : MetaDataMgr) : Event → Prop
  | .descriptor inPkt srcTag _ =>
    s.lookupMappedDeviceId inPkt.devId srcTag = 0 →
    ∀ id old, s.oldDevIdMap.find? (deviceKey srcTag inPkt.devId) = some id →
      s.oldDevices.find? id = some old → id ≠ 0 ∧ old.srcTag = srcTag
  | .value inPkt srcTag _ =>
    ∀ d, s.lookupMappedDeviceId inPkt.hdr.devId srcTag ≠ 0 →
      s.devices.find? (s.lookupMappedDeviceId inPkt.hdr.devId srcTag) = some d →
      d.srcTag = srcTag → Extractable inPkt
  | .drop srcTag files =>
    ∀ id d, s.devices.find? id = some d → d.srcTag = srcTag →
      ∀ varId p, d.variablePkts.find? varId = some p → files id varId ≠ 0 →
        ∀ u q, d.variablePkts.find? u = some q → u < varId → Disconnected q
  | .prologue => True

/-! ### The invariant -/

/-- The entries fit, old devices have no variables, and the prologues were faithful. -/
structure Sound (s : MetaDataMgr) : Prop where
  stored : ∀ id d, s.devices.find? id = some d → Stored id d
  old : ∀ id d, s.oldDevices.find? id = some d →
    d.descriptorPkt.devId = id ∧ d.variablePkts = SortedMap.empty
  prologues : ∀ p ∈ s.prologues, Faithful p

/-- What is kept of a device is what the stream says of it. -/
def Agrees (s : MetaDataMgr) (id : UInt32) : Prop :=
  ∀ v, s.viewAt id = some v → replayed s.stream id = some v

structure Cached (s : MetaDataMgr) : Prop extends Sound s where
  agrees : ∀ id, Agrees s id

theorem init_cached : Cached init where
  stored _ _ h := nomatch h
  old _ _ h := nomatch h
  prologues _ h := nomatch h
  agrees _ _ h := nomatch h

theorem mem_keys_of_viewAt {id : UInt32} (h : id ∈ s.devices.keys) :
    ∃ v, s.viewAt id = some v := by
  obtain ⟨d, hd⟩ := SortedMap.mem_keys.mp h
  exact ⟨view d, by rw [viewAt, SortedMap.find?_eq_some.mpr hd, Option.map_some]⟩

/-- A prologue is faithful where what is kept, and what the stream says, come to the same with
    the packets being added. -/
theorem faithful_of_read (h : Sound s) {pending : List StreamPkt}
    (hread : ∀ id v, s.viewAt id = some v →
      s.viewAt.replay pending id = (replayed s.stream).replay pending id) :
    Faithful ⟨onPrologue s.devices, s.stream, pending, s.devices.keys⟩ := by
  obtain ⟨pkts, hpkts, hview⟩ := onPrologue_spec h.stored
  refine ⟨pkts, hpkts, fun id hid => ?_⟩
  obtain ⟨v, hv⟩ := mem_keys_of_viewAt hid
  rw [replayed_append, replayed_append, hview]
  exact hread id v hv

/-- At rest every prologue is faithful. -/
theorem Cached.prologueEqualsReplay (h : Cached s) : PrologueEqualsReplay s :=
  ⟨h.prologues, faithful_of_read h.toSound fun id v hv => hv.trans (h.agrees id v hv).symm⟩

/-! ### Prologues and packets -/

/-- A prologue leaves of a device what a reader knows. -/
theorem afterPrologue_spec {id : UInt32} {d : DeviceVariables} (h : Stored id d) :
    Stored id (afterPrologue d) ∧ view (afterPrologue d) = view d := by
  have hfind : ∀ u, (afterPrologue d).variablePkts.find? u =
      (d.variablePkts.find? u).map fun p => (prologuePkt p).getD p := fun u =>
    SortedMap.find?_mapVal ..
  refine ⟨⟨h.descriptor, fun u q hq => ?_⟩, DeviceView.ext rfl (funext fun u => ?_)⟩
  · rw [hfind, Option.map_eq_some_iff] at hq
    obtain ⟨p, hp, rfl⟩ := hq
    obtain ⟨hdev, hvar, hex⟩ := h.pkts u p hp
    obtain ⟨q, hq, hqdev, hqvar, hqex, -, -⟩ := prologuePkt_spec hex
    rw [hq, Option.getD_some]
    exact ⟨hqdev.trans hdev, hqvar.trans hvar, hqex⟩
  · show ((afterPrologue d).variablePkts.find? u).bind reading =
      (d.variablePkts.find? u).bind reading
    rw [hfind]
    cases hp : d.variablePkts.find? u with
    | none => rfl
    | some p =>
      obtain ⟨q, hq, -, -, -, hread, -⟩ := prologuePkt_spec (h.pkts u p hp).2.2
      rw [Option.map_some, hq, Option.getD_some, Option.bind_some, Option.bind_some, hread]

theorem prologue_viewAt (h : Sound s) (pending : List StreamPkt) :
    (s.prologue pending).viewAt = s.viewAt := by
  refine funext fun id => ?_
  simp only [viewAt, prologue, SortedMap.find?_mapVal, Option.map_map]
  cases hd : s.devices.find? id with
  | none => rfl
  | some d => exact congrArg some (afterPrologue_spec (h.stored id d hd)).2

theorem prologue_sound (h : Sound s) {pending : List StreamPkt}
    (hread : ∀ id v, s.viewAt id = some v →
      s.viewAt.replay pending id = (replayed s.stream).replay pending id) :
    Sound (s.prologue pending) where
  stored id d hd := by
    rw [prologue, SortedMap.find?_mapVal, Option.map_eq_some_iff] at hd
    obtain ⟨d', hd', rfl⟩ := hd
    exact (afterPrologue_spec (h.stored id d' hd')).1
  old := h.old
  prologues p hp := by
    rcases List.mem_append.mp hp with hp | hp
    · exact h.prologues p hp
    · rw [List.mem_singleton.mp hp]
      exact faithful_of_read h hread

/-- The prologues on the way to a packet. -/
theorem prologues_spec {pkt : StreamPkt} (n : Nat) (h : Sound s)
    (hread : n ≠ 0 → ∀ id v, s.viewAt id = some v →
      s.viewAt.read pkt id = (replayed s.stream).read pkt id) :
    Sound ((prologue [pkt])^[n] s) ∧ ((prologue [pkt])^[n] s).viewAt = s.viewAt ∧
      ((prologue [pkt])^[n] s).stream = s.stream := by
  induction n generalizing s with
  | zero => exact ⟨h, rfl, rfl⟩
  | succ n ih =>
    have hview := prologue_viewAt h [pkt]
    have hread' := hread n.succ_ne_zero
    have hfirst : Sound (s.prologue [pkt]) := prologue_sound h hread'
    obtain ⟨hsound, hview', hstream⟩ := ih hfirst fun _ id v hv => by
      rw [hview] at hv ⊢
      exact hread' id v hv
    exact ⟨hsound, hview'.trans hview, hstream⟩

/-- A packet is added.  Where a prologue is asked for on the way, the packet must make up for
    the difference between what is kept and the stream. -/
theorem addPacket_spec (h : Sound s) (pkt : StreamPkt) (files : Nat)
    (hread : files ≠ 0 → ∀ id v, s.viewAt id = some v →
      s.viewAt.read pkt id = (replayed s.stream).read pkt id) :
    Sound (s.addPacket pkt files) ∧ (s.addPacket pkt files).viewAt = s.viewAt ∧
      ∀ id, replayed (s.addPacket pkt files).stream id = (replayed s.stream).read pkt id := by
  obtain ⟨hsound, hview, hstream⟩ := prologues_spec files h hread
  refine ⟨{ hsound with }, hview, fun id => ?_⟩
  show replayed (((prologue [pkt])^[files] s).stream ++ [pkt]) id = _
  rw [hstream, replayed_append]
  rfl

theorem viewAt_eq_none {id : UInt32} : s.viewAt id = none ↔ s.devices.find? id = none := by
  rw [viewAt, Option.map_eq_none_iff]

theorem viewAt_of_find? {id : UInt32} {d : DeviceVariables} (h : s.devices.find? id = some d) :
    s.viewAt id = some (view d) := by
  rw [viewAt, h, Option.map_some]

/-! ### Descriptors -/

/-- A descriptor starts a device over, for the manager and for a reader. -/
theorem storeDescriptor_cached {inPkt : DeviceDescriptorPkt} {mapped : UInt32} (h : Sound s)
    (hnone : s.devices.find? mapped = none) (hagrees : ∀ id, id ≠ mapped → Agrees s id)
    (srcTag : UInt32) (files : Nat) : Cached (s.storeDescriptor inPkt mapped srcTag files) := by
  have hne : ∀ id v, s.viewAt id = some v → id ≠ mapped := fun id v hv heq => by
    rw [heq, viewAt_eq_none.mpr hnone] at hv
    cases hv
  have hread : ∀ (r : Reader) id, r.read (.descriptor (inPkt.remapDeviceId mapped)) id =
      if id = mapped then some ⟨inPkt.remapDeviceId mapped, fun _ => none⟩ else r id :=
    fun r id => read_descriptor r _ id
  obtain ⟨hsound, hview, hstream⟩ := addPacket_spec h
    (.descriptor (inPkt.remapDeviceId mapped)) files fun _ id v hv => by
      rw [hread, hread, if_neg (hne id v hv), if_neg (hne id v hv), hv,
        hagrees id (hne id v hv) v hv]
  unfold storeDescriptor
  dsimp only
  generalize s.addPacket (.descriptor (inPkt.remapDeviceId mapped)) files = u at *
  have hnone' : u.devices.find? mapped = none := by
    rw [← viewAt_eq_none, hview, viewAt_eq_none, hnone]
  have hfind : ∀ id, (u.devices.alter mapped fun dev => ⟨inPkt.devId, srcTag,
      inPkt.remapDeviceId mapped, (dev.map (·.variablePkts)).getD SortedMap.empty⟩).find? id =
      if id = mapped then
        some ⟨inPkt.devId, srcTag, inPkt.remapDeviceId mapped, SortedMap.empty⟩
      else u.devices.find? id := fun id => by
    rw [SortedMap.find?_alter, hnone']
    split <;> rfl
  refine ⟨⟨fun id d hd => ?_, hsound.old, hsound.prologues⟩, fun id v hv => ?_⟩
  · rw [hfind] at hd
    split at hd
    · obtain rfl := Option.some.inj hd
      exact ⟨‹id = mapped›.symm, fun _ _ hp => nomatch hp⟩
    · exact hsound.stored id d hd
  · simp only [viewAt, hfind] at hv
    rw [hstream, hread]
    by_cases hid : id = mapped
    · rw [if_pos hid, Option.map_some] at hv
      rw [if_pos hid]
      exact hv
    · rw [if_neg hid] at hv ⊢
      exact hagrees id hid v (hview ▸ hv)

/-- The descriptor of a device without variables is added again. -/
theorem readdDescriptor_cached {mapped : UInt32} {d : DeviceVariables} (h : Sound s)
    (hd : s.devices.find? mapped = some d) (hempty : d.variablePkts = SortedMap.empty)
    (hagrees : ∀ id, id ≠ mapped → Agrees s id) (files : Nat) :
    Cached (s.addPacket (.descriptor d.descriptorPkt) files) := by
  have hdev : d.descriptorPkt.devId = mapped := (h.stored mapped d hd).descriptor
  have hself : s.viewAt mapped = some ⟨d.descriptorPkt, fun _ => none⟩ := by
    rw [viewAt_of_find? hd, view, hempty]
    rfl
  have hread : ∀ id v, s.viewAt id = some v →
      (replayed s.stream).read (.descriptor d.descriptorPkt) id = some v := fun id v hv => by
    rw [read_descriptor, hdev]
    split
    · rw [← hself, ← hv, ‹id = mapped›]
    · exact hagrees id ‹_› v hv
  obtain ⟨hsound, hview, hstream⟩ := addPacket_spec h (.descriptor d.descriptorPkt) files
    fun _ id v hv => by
      rw [hread id v hv, read_descriptor, hdev]
      split
      · rw [← hself, ← hv, ‹id = mapped›]
      · exact hv
  refine { hsound with agrees := fun id v hv => ?_ }
  rw [hstream]
  exact hread id v (hview ▸ hv)

/-- What `describe` does once the identifier is known.  A device that was reinstated is the one
    whose entry need not agree with the stream. -/
theorem describe_cached {inPkt : DeviceDescriptorPkt} {mapped srcTag : UInt32}
    {reconnected : Bool} (h : Sound s) (hagrees : ∀ id, id ≠ mapped → Agrees s id)
    (hself : reconnected = false → Agrees s mapped)
    (hback : reconnected = true → ∃ d, s.devices.find? mapped = some d ∧ d.srcTag = srcTag ∧
      d.variablePkts = SortedMap.empty)
    (files : Nat) : Cached (s.describe inPkt mapped srcTag reconnected files) := by
  have hall : reconnected = false → ∀ id, Agrees s id := fun hrec id => by
    by_cases hid : id = mapped
    · exact hid ▸ hself hrec
    · exact hagrees id hid
  have herased : Sound { s with devices := s.devices.erase mapped } ∧
      ∀ id, Agrees { s with devices := s.devices.erase mapped } id := by
    refine ⟨{ h with stored := fun id d hd => ?_ }, fun id v hv => ?_⟩
    · rw [SortedMap.find?_erase] at hd
      split at hd
      · cases hd
      · exact h.stored id d hd
    · simp only [viewAt, SortedMap.find?_erase] at hv
      split at hv
      · cases hv
      · exact hagrees id ‹_› v hv
  unfold describe
  split
  · exact storeDescriptor_cached h ‹_› hagrees srcTag files
  rename_i dev hdev
  split
  · -- only a device that was not reinstated can be of another source
    cases reconnected with
    | false => exact { h with agrees := hall rfl }
    | true =>
      obtain ⟨d, hd, hsrc, -⟩ := hback rfl
      rw [hdev] at hd
      exact absurd (Option.some.inj hd ▸ hsrc) ‹_›
  split
  · cases reconnected with
    | false => exact { h with agrees := hall rfl }
    | true =>
      obtain ⟨d, hd, -, hempty⟩ := hback rfl
      rw [hdev] at hd
      exact readdDescriptor_cached h hdev (Option.some.inj hd ▸ hempty) hagrees files
  · dsimp only
    split
    · exact { herased.1 with agrees := herased.2 }
    · refine storeDescriptor_cached herased.1 ?_ (fun id _ => herased.2 id) srcTag files
      exact (SortedMap.find?_erase ..).trans (if_pos rfl)

/-- An identifier is looked up, or an old device of the source is reinstated. -/
theorem allocDev_devices {dev srcTag mapped : UInt32} {reconnected : Bool}
    (hok : s.lookupMappedDeviceId dev srcTag = 0 →
      ∀ id old, s.oldDevIdMap.find? (deviceKey srcTag dev) = some id →
        s.oldDevices.find? id = some old → id ≠ 0 ∧ old.srcTag = srcTag)
    (halloc : s.allocDev dev srcTag = some (mapped, reconnected, t)) :
    t.stream = s.stream ∧ t.prologues = s.prologues ∧
      (reconnected = false ∧ t.devices = s.devices ∧ t.oldDevices = s.oldDevices ∨
        reconnected = true ∧ ∃ old, s.oldDevices.find? mapped = some old ∧
          old.srcTag = srcTag ∧ t.devices = s.devices.set mapped old ∧
          t.oldDevices = s.oldDevices.erase mapped) := by
  by_cases hmapped : s.lookupMappedDeviceId dev srcTag = 0
  · cases hid : s.oldDevIdMap.find? (deviceKey srcTag dev) with
    | none =>
      -- a new device
      simp only [allocDev, lookupOldMappedDeviceId, hmapped, hid, ne_eq, not_true_eq_false,
        if_false, Option.map_eq_some_iff, Prod.mk.injEq] at halloc
      obtain ⟨id, -, rfl, rfl, rfl⟩ := halloc
      exact ⟨rfl, rfl, .inl ⟨rfl, rfl, rfl⟩⟩
    | some id =>
      cases hold : s.oldDevices.find? id with
      | none =>
        -- the entry of the old device is gone, so it is a new one
        simp only [allocDev, lookupOldMappedDeviceId, hmapped, hid, hold, ne_eq,
          not_true_eq_false, if_false, Option.map_eq_some_iff, Prod.mk.injEq] at halloc
        obtain ⟨id, -, rfl, rfl, rfl⟩ := halloc
        exact ⟨rfl, rfl, .inl ⟨rfl, rfl, rfl⟩⟩
      | some old =>
        obtain ⟨hne, hsrc⟩ := hok hmapped id old hid hold
        simp only [allocDev, lookupOldMappedDeviceId, hmapped, hid, hold, ne_eq,
          not_true_eq_false, if_false, hne, not_false_eq_true, if_true, Option.some.injEq,
          Prod.mk.injEq] at halloc
        obtain ⟨rfl, rfl, rfl⟩ := halloc
        exact ⟨rfl, rfl, .inr ⟨rfl, old, hold, hsrc, rfl, rfl⟩⟩
  · simp only [allocDev, ne_eq, hmapped, not_false_eq_true, if_true, Option.some.injEq,
      Prod.mk.injEq] at halloc
    obtain ⟨rfl, rfl, rfl⟩ := halloc
    exact ⟨rfl, rfl, .inl ⟨rfl, rfl, rfl⟩⟩

theorem updateDescriptor_cached (h : Cached s) {inPkt : DeviceDescriptorPkt} {srcTag : UInt32}
    {files : Nat} (hok : KeepsPrologue s (.descriptor inPkt srcTag files))
    (hstep : s.updateDescriptor inPkt srcTag files = some t) : Cached t := by
  obtain ⟨⟨mapped, reconnected, u⟩, halloc, rfl⟩ := Option.map_eq_some_iff.mp hstep
  obtain ⟨hstream, hprologues, ⟨rfl, hdev, hold⟩ | ⟨rfl, old, hfind, hsrc, hdev, hold⟩⟩ :=
    allocDev_devices hok halloc
  · have hu : Sound u := ⟨hdev ▸ h.stored, hold ▸ h.old, hprologues ▸ h.prologues⟩
    have hagrees : ∀ id, Agrees u id := fun id v hv => by
      rw [hstream]
      exact h.agrees id v (by rw [viewAt, ← hdev]; exact hv)
    show Cached (u.describe inPkt mapped srcTag false files)
    exact describe_cached hu (fun id _ => hagrees id) (fun _ => hagrees mapped)
      (fun hrec => absurd hrec Bool.false_ne_true) files
  · obtain ⟨hid, hempty⟩ := h.old mapped old hfind
    have hentry : u.devices.find? mapped = some old := by
      rw [hdev, SortedMap.find?_set, if_pos rfl]
    have hu : Sound u := by
      refine ⟨fun id d hd => ?_, fun id d hd => ?_, hprologues ▸ h.prologues⟩
      · rw [hdev, SortedMap.find?_set] at hd
        split at hd
        · obtain rfl := Option.some.inj hd
          exact ⟨‹id = mapped› ▸ hid, fun _ _ hp => by rw [hempty] at hp; cases hp⟩
        · exact h.stored id d hd
      · rw [hold, SortedMap.find?_erase] at hd
        split at hd
        · cases hd
        · exact h.old id d hd
    show Cached (u.describe inPkt mapped srcTag true files)
    refine describe_cached hu (fun id hne v hv => ?_) (fun hrec => absurd hrec.symm
      Bool.false_ne_true) (fun _ => ⟨old, hentry, hsrc, hempty⟩) files
    rw [viewAt, hdev, SortedMap.find?_set, if_neg hne] at hv
    rw [hstream]
    exact h.agrees id v hv

/-! ### Variable values -/

theorem view_erase (d : DeviceVariables) (u : UInt32) :
    view { d with variablePkts := d.variablePkts.erase u } = (view d).set u none := by
  refine DeviceView.ext rfl (funext fun w => ?_)
  simp only [view, DeviceView.set, SortedMap.find?_erase]
  split <;> rfl

theorem view_set (d : DeviceVariables) (u : UInt32) (p : VariablePkt) :
    view { d with variablePkts := d.variablePkts.set u p } = (view d).set u (reading p) := by
  refine DeviceView.ext rfl (funext fun w => ?_)
  simp only [view, DeviceView.set, SortedMap.find?_set]
  split <;> rfl

theorem set_set (v : DeviceView) (u : UInt32) (r r' : Option Reading) :
    (v.set u r).set u r' = v.set u r' := by
  refine DeviceView.ext rfl (funext fun w => ?_)
  simp only [DeviceView.set]
  split <;> rfl

/-- Changing an entry changes what is kept of that device. -/
theorem viewAt_modify (s : MetaDataMgr) (dev : UInt32) {f : DeviceVariables → DeviceVariables}
    {g : DeviceView → DeviceView} (hf : ∀ d, view (f d) = g (view d)) (id : UInt32) :
    viewAt { s with devices := s.devices.modify dev f } id =
      if id = dev then (s.viewAt id).map g else s.viewAt id := by
  simp only [viewAt, SortedMap.find?_modify]
  split
  · simp only [Option.map_map]
    exact congrArg (Option.map · _) (funext hf)
  · rfl

/-- Changing an entry to one that fits keeps the entries sound. -/
theorem modify_sound (h : Sound s) (dev : UInt32) {f : DeviceVariables → DeviceVariables}
    (hf : ∀ d, s.devices.find? dev = some d → Stored dev (f d)) :
    Sound { s with devices := s.devices.modify dev f } where
  stored id d hd := by
    rw [SortedMap.find?_modify] at hd
    split at hd
    · obtain ⟨d', hd', rfl⟩ := Option.map_eq_some_iff.mp hd
      subst id
      exact hf d' hd'
    · exact h.stored id d hd
  old := h.old
  prologues := h.prologues

theorem updateVariable_cached (h : Cached s) {dev varId : UInt32} {inPkt : VariablePkt}
    {srcTag : UInt32} (hdev : inPkt.hdr.devId = dev) (hvar : inPkt.hdr.varId = varId)
    (hex : ∀ d, s.devices.find? dev = some d → d.srcTag = srcTag → Extractable inPkt)
    (files : Nat) : Cached (s.updateVariable dev varId inPkt srcTag files) := by
  unfold updateVariable
  split
  · exact h
  rename_i d hd
  split
  · exact h
  rename_i hsrc
  have hex := hex d hd (not_not.mp hsrc)
  have hself := viewAt_of_find? hd
  have hread : ∀ (r : Reader) id, r.read (.variable inPkt) id =
      if id = dev then (r id).map (·.set varId (reading inPkt)) else r id := fun r id => by
    rw [read_variable, hdev, hvar]
  -- the old value is removed
  have herased : Sound { s with devices := s.devices.modify dev fun d =>
      { d with variablePkts := d.variablePkts.erase varId } } :=
    modify_sound h.toSound dev fun d' hd' => by
      refine ⟨(h.stored dev d' hd').descriptor, fun u p hp => ?_⟩
      rw [SortedMap.find?_erase] at hp
      split at hp
      · cases hp
      · exact (h.stored dev d' hd').pkts u p hp
  have hview := viewAt_modify s dev (g := fun v => v.set varId none) fun d => view_erase d varId
  obtain ⟨hsound, hview', hstream⟩ := addPacket_spec herased (.variable inPkt) files
    fun _ id v hv => by
      rw [hread, hread, hview]
      by_cases hid : id = dev
      · rw [if_pos hid, if_pos hid, if_pos hid, hid, h.agrees dev _ hself, hself, Option.map_some,
          Option.map_some, Option.map_some, set_set]
      · rw [hview, if_neg hid] at hv
        rw [if_neg hid, if_neg hid, if_neg hid, hv]
        exact (h.agrees id v hv).symm
  dsimp only
  generalize addPacket _ (.variable inPkt) files = u at *
  -- the new value is kept
  have hkept := viewAt_modify u dev (g := fun v => v.set varId (reading inPkt)) fun d =>
    view_set d varId inPkt
  refine { modify_sound hsound dev (fun d' hd' => ?_) with agrees := fun id v hv => ?_ }
  · refine ⟨(hsound.stored dev d' hd').descriptor, fun w p hp => ?_⟩
    rw [SortedMap.find?_set] at hp
    split at hp
    · obtain rfl := Option.some.inj hp
      exact ⟨hdev, hvar.trans ‹w = varId›.symm, hex⟩
    · exact (hsound.stored dev d' hd').pkts w p hp
  · rw [hkept, hview', hview] at hv
    show replayed u.stream id = some v
    rw [hstream, hread]
    by_cases hid : id = dev
    · rw [if_pos hid, hid] at hv ⊢
      rw [h.agrees dev _ hself]
      rw [if_pos rfl, hself] at hv
      simpa only [Option.map_some, set_set] using hv
    · rw [if_neg hid] at hv ⊢
      rw [if_neg hid] at hv
      exact h.agrees id v hv

/-- Renaming the device of a packet does not change what it says. -/
theorem extractable_remapDeviceId {p : VariablePkt} (h : Extractable p) (dev : UInt32) :
    Extractable (p.remapDeviceId dev) := by
  cases p with
  | single => trivial
  | mult => exact h

theorem updateValue_cached (h : Cached s) {inPkt : VariablePkt} {srcTag : UInt32} {files : Nat}
    (hok : KeepsPrologue s (.value inPkt srcTag files)) :
    Cached (s.updateValue inPkt srcTag files) := by
  unfold updateValue
  dsimp only
  split
  · exact h
  · rename_i hmapped
    refine updateVariable_cached h ?_ ?_ (fun d hd hsrc => ?_) files
    · cases inPkt <;> rfl
    · cases inPkt <;> rfl
    · exact extractable_remapDeviceId (hok d hmapped hd hsrc) _

/-! ### Disconnects -/

/-- What the stream says of a device when the variables in `done` have been marked. -/
def markDone (done : List UInt32) (v : DeviceView) : DeviceView :=
  { v with values := fun u =>
    if u ∈ done then (v.values u).map Reading.disconnected else v.values u }

/-- Marking the next variable. -/
theorem markDone_concat (done : List UInt32) (v : DeviceView) (u : UInt32) :
    markDone (done ++ [u]) v =
      (markDone done v).set u ((v.values u).map Reading.disconnected) := by
  refine DeviceView.ext rfl (funext fun w => ?_)
  simp only [markDone, DeviceView.set, List.mem_append, List.mem_singleton]
  by_cases hw : w = u
  · rw [if_pos (.inr hw), if_pos hw, hw]
  · simp only [hw, or_false, if_false]

/-- Where the variables had lost their connection before, marking them changes nothing. -/
theorem markDone_eq_self {done : List UInt32} {v : DeviceView}
    (h : ∀ w ∈ done, (v.values w).map Reading.disconnected = v.values w) :
    markDone done v = v := by
  refine DeviceView.ext rfl (funext fun u => ?_)
  simp only [markDone]
  split
  · exact h u ‹_›
  · rfl

/-- Another device has the same packet kept, or one that says the same. -/
theorem viewAt_values {id u : UInt32} {v : DeviceView} (h : s.viewAt id = some v) :
    v.values u = (s.variablePkt? id u).bind reading := by
  obtain ⟨d, hd, rfl⟩ := Option.map_eq_some_iff.mp h
  simp only [variablePkt?, hd, Option.bind_some, view]

theorem variablePkt?_stored (h : Sound s) {id u : UInt32} {p : VariablePkt}
    (hp : s.variablePkt? id u = some p) : p.hdr.devId = id ∧ p.hdr.varId = u := by
  obtain ⟨d, hd, hp⟩ := Option.bind_eq_some_iff.mp hp
  obtain ⟨hdev, hvar, -⟩ := (h.stored id d hd).pkts u p hp
  exact ⟨hdev, hvar⟩

/-- The loop over the variables of a device that is dropped.  What the stream says of the
    device runs ahead of what is kept; where a prologue is asked for, it must not. -/
theorem disconnectLoop_spec {id : UInt32} {files : UInt32 → Nat} {v : DeviceView}
    (us done : List UInt32) (hsorted : (done ++ us).Pairwise (· < ·))
    (hquiet : ∀ u ∈ us, files u ≠ 0 → ∀ w, w < u →
      (v.values w).map Reading.disconnected = v.values w)
    (h : Sound s) (hv : s.viewAt id = some v)
    (hid : replayed s.stream id = some (markDone done v))
    (hothers : ∀ id', id' ≠ id → Agrees s id') :
    Sound (us.foldl (disconnectVariable id files) s) ∧
      (us.foldl (disconnectVariable id files) s).viewAt = s.viewAt ∧
      ∀ id', id' ≠ id → Agrees (us.foldl (disconnectVariable id files) s) id' := by
  induction us generalizing s done with
  | nil => exact ⟨h, rfl, hothers⟩
  | cons u us ih =>
    have hsorted' : ((done ++ [u]) ++ us).Pairwise (· < ·) := by
      rwa [List.append_assoc]
    have hrest : ∀ u' ∈ us, files u' ≠ 0 → ∀ w, w < u' →
        (v.values w).map Reading.disconnected = v.values w :=
      fun u' hu' => hquiet u' (List.mem_cons_of_mem _ hu')
    have hvalue := viewAt_values (u := u) hv
    have hmark := markDone_concat done v u
    rw [List.foldl_cons]
    cases hp : s.variablePkt? id u with
    | none =>
      -- there is no such variable, and nothing to mark
      have hturn : disconnectVariable id files s u = s := by rw [disconnectVariable, hp]
      rw [hturn]
      refine ih (done ++ [u]) hsorted' hrest h hv ?_ hothers
      rw [hid]
      rw [hp, Option.bind_none] at hvalue
      refine congrArg some (DeviceView.ext rfl (funext fun w => ?_))
      simp only [markDone, List.mem_append, List.mem_singleton]
      by_cases hw : w = u
      · simp [hw, hvalue]
      · simp [hw]
    | some p =>
      obtain ⟨hdev, hvar⟩ := variablePkt?_stored h hp
      rw [hp, Option.bind_some] at hvalue
      have hturn : disconnectVariable id files s u =
          s.addPacket (.variable p.upstreamDisconnected) (files u) := by
        rw [disconnectVariable, hp]
      have hread : ∀ (r : Reader) id', r.read (.variable p.upstreamDisconnected) id' =
          if id' = id then
            (r id').map (·.set u ((v.values u).map Reading.disconnected))
          else r id' := fun r id' => by
        have hdev' : p.upstreamDisconnected.hdr.devId = id := by rw [← hdev]; cases p <;> rfl
        have hvar' : p.upstreamDisconnected.hdr.varId = u := by rw [← hvar]; cases p <;> rfl
        rw [read_variable, hdev', hvar', reading_upstreamDisconnected, hvalue]
      obtain ⟨hsound, hview, hstream⟩ := addPacket_spec h (.variable p.upstreamDisconnected)
        (files u) fun hfiles id' v' hv' => by
          rw [hread, hread]
          split
          · -- the variables before this one were marked already
            have hbefore : ∀ w ∈ done, w < u := fun w hw =>
              (List.pairwise_append.mp hsorted).2.2 w hw u List.mem_cons_self
            rw [‹id' = id›, hv, hid, markDone_eq_self fun w hw =>
              hquiet u List.mem_cons_self hfiles w (hbefore w hw)]
          · exact hv'.trans (hothers id' ‹_› v' hv').symm
      rw [hturn]
      obtain ⟨hsound', hview', hothers'⟩ := ih (done ++ [u]) hsorted' hrest hsound
        (hview ▸ hv) (by rw [hstream, hread, if_pos rfl, hid, hmark, Option.map_some])
        (fun id' hne v' hv' => by
          rw [hstream, hread, if_neg hne]
          exact hothers id' hne v' (hview ▸ hv'))
      exact ⟨hsound', hview'.trans hview, hothers'⟩

/-- No prologue is asked for in the middle of the drop of the device. -/
def Quiet (s : MetaDataMgr) (srcTag : UInt32) (files : UInt32 → UInt32 → Nat) (id : UInt32) :
    Prop :=
  ∀ d, s.devices.find? id = some d → d.srcTag = srcTag → ∀ u, (view d).values u ≠ none →
    files id u ≠ 0 → ∀ w, w < u →
      ((view d).values w).map Reading.disconnected = (view d).values w

theorem dropDevice_cached (h : Cached s) {srcTag id : UInt32}
    {files : UInt32 → UInt32 → Nat} (hquiet : Quiet s srcTag files id) :
    Cached (s.dropDevice srcTag files id) ∧
      ∀ id', id' ≠ id → (s.dropDevice srcTag files id).viewAt id' = s.viewAt id' := by
  rcases dropDevice_cases s srcTag files id with ⟨-, heq⟩ | ⟨dev, hdev, hsrc, heq⟩
  · rw [heq]
    exact ⟨h, fun _ _ => rfl⟩
  have hkeys : ∀ u ∈ dev.variablePkts.keys, (view dev).values u ≠ none := fun u hu => by
    obtain ⟨p, hp⟩ := SortedMap.mem_keys.mp hu
    have hp := SortedMap.find?_eq_some.mpr hp
    obtain ⟨q, -, -, -, -, -, hsome⟩ := prologuePkt_spec ((h.stored id dev hdev).pkts u p hp).2.2
    rw [view_values, hp, Option.bind_some]
    exact Option.isSome_iff_ne_none.mp hsome
  obtain ⟨hsound, hview, hothers⟩ := disconnectLoop_spec dev.variablePkts.keys []
    dev.variablePkts.keys_sorted (fun u hu => hquiet dev hdev hsrc u (hkeys u hu)) h.toSound
    (viewAt_of_find? hdev)
    (h.agrees id _ (viewAt_of_find? hdev)) (fun id' _ => h.agrees id')
  have hdescriptor := (h.stored id dev hdev).descriptor
  rw [heq, upstreamDisconnected]
  generalize dev.variablePkts.keys.foldl (disconnectVariable id (files id)) s = u at *
  have hmoved : ∀ id', (u.moved id dev).viewAt id' = if id' = id then none else u.viewAt id' :=
    fun id' => by
      simp only [viewAt, moved, SortedMap.find?_erase]
      split <;> rfl
  refine ⟨⟨⟨fun id' d hd => ?_, fun id' d hd => ?_, hsound.prologues⟩, fun id' v hv => ?_⟩,
    fun id' hne => by rw [hmoved, if_neg hne, hview]⟩
  · simp only [moved, SortedMap.find?_erase] at hd
    split at hd
    · cases hd
    · exact hsound.stored id' d hd
  · simp only [moved, SortedMap.find?_set] at hd
    split at hd
    · obtain rfl := Option.some.inj hd
      exact ⟨‹id' = id› ▸ hdescriptor, rfl⟩
    · exact hsound.old id' d hd
  · rw [hmoved] at hv
    split at hv
    · cases hv
    · exact hothers id' ‹_› v hv

/-- The drop of one device does not disturb another. -/
theorem quiet_dropDevice (h : Cached s) {srcTag id id' : UInt32}
    {files : UInt32 → UInt32 → Nat} (hquiet : Quiet s srcTag files id)
    (hquiet' : Quiet s srcTag files id') (hne : id' ≠ id) :
    Quiet (s.dropDevice srcTag files id) srcTag files id' := by
  intro d hd hsrc
  have hview := (dropDevice_cached h hquiet).2 id' hne
  have hbare := dropDevice_bareAt s srcTag files id id'
  rw [viewAt_of_find? hd] at hview
  rw [bareAt_of_find? hd, if_neg hne] at hbare
  -- the entry there was before has the same source, and says the same
  obtain ⟨d', hd', hbare'⟩ := exists_of_bareAt hbare.symm
  rw [viewAt_of_find? hd'] at hview
  have hsrc' : d'.srcTag = srcTag := (congrArg DeviceVariables.srcTag hbare').trans hsrc
  rw [Option.some.inj hview]
  exact hquiet' d' hd' hsrc'

theorem dropLoop_cached {srcTag : UInt32} {files : UInt32 → UInt32 → Nat} (ids : List UInt32)
    (hnodup : ids.Nodup) (h : Cached s) (hquiet : ∀ id ∈ ids, Quiet s srcTag files id) :
    Cached (ids.foldl (dropDevice srcTag files) s) := by
  induction ids generalizing s with
  | nil => exact h
  | cons id ids ih =>
    obtain ⟨hid, hnodup⟩ := List.nodup_cons.mp hnodup
    have hfirst := hquiet id List.mem_cons_self
    refine ih hnodup (dropDevice_cached h hfirst).1 fun id' hid' => ?_
    exact quiet_dropDevice h hfirst (hquiet id' (List.mem_cons_of_mem _ hid'))
      fun heq => hid (heq ▸ hid')

/-- Variables that had lost their connection say so. -/
theorem disconnected_eq_self {p : VariablePkt} (h : Disconnected p) :
    (reading p).map Reading.disconnected = reading p := by
  obtain ⟨hstatus, hseverity⟩ := h
  cases p with
  | single hdr val =>
    simp only [VariablePkt.hdr] at hstatus hseverity
    simp only [reading, Reading.disconnected, Option.map_some, hstatus, hseverity]
  | mult hdr vals =>
    simp only [VariablePkt.hdr] at hstatus hseverity
    simp only [reading, Option.map_map, hstatus, hseverity]
    rfl

theorem quiet_of_keepsPrologue {srcTag : UInt32} {files : UInt32 → UInt32 → Nat}
    (hok : KeepsPrologue s (.drop srcTag files)) (id : UInt32) : Quiet s srcTag files id := by
  intro d hd hsrc u hu hfiles w hw
  cases hp : d.variablePkts.find? u with
  | none =>
    rw [view_values, hp, Option.bind_none] at hu
    exact absurd rfl hu
  | some p =>
    cases hq : d.variablePkts.find? w with
    | none => rw [view_values, hq, Option.bind_none, Option.map_none]
    | some q =>
      rw [view_values, hq, Option.bind_some]
      exact disconnected_eq_self (hok id d hd hsrc u p hp hfiles w q hq hw)

theorem dropSourceTag_cached (h : Cached s) {srcTag : UInt32}
    {files : UInt32 → UInt32 → Nat} (hok : KeepsPrologue s (.drop srcTag files)) :
    Cached (s.dropSourceTag srcTag files) :=
  { dropLoop_cached s.devices.keys s.devices.keys_nodup h
      fun id _ => quiet_of_keepsPrologue hok id with }

/-! ### Runs -/

theorem step_cached {e : Event} (h : Cached s) (hok : KeepsPrologue s e)
    (hstep : s.step e = some t) : Cached t := by
  cases e with
  | descriptor inPkt srcTag files => exact updateDescriptor_cached h hok hstep
  | value inPkt srcTag files => exact Option.some.inj hstep ▸ updateValue_cached h hok
  | drop srcTag files => exact Option.some.inj hstep ▸ dropSourceTag_cached h hok
  | prologue =>
    obtain rfl := Option.some.inj hstep
    have hrest : ∀ id v, s.viewAt id = some v →
        s.viewAt.replay [] id = (replayed s.stream).replay [] id := fun id v hv =>
      hv.trans (h.agrees id v hv).symm
    have hsound : Sound (s.prologue []) := prologue_sound h.toSound hrest
    refine { hsound with agrees := fun id v hv => ?_ }
    rw [prologue_viewAt h.toSound] at hv
    exact h.agrees id v hv

/-- In a run in which every step keeps the prologues faithful, they are. -/
theorem prologueEqualsReplay_of_run {es : List Event}
    (hsafe : Runs.along step KeepsPrologue init es) (hrun : Runs.run step init es = some s) :
    PrologueEqualsReplay s :=
  (Runs.invariant_along (fun _ _ _ h hok hs => step_cached h hok hs) init_cached hsafe
    hrun).prologueEqualsReplay

def heater : DeviceDescriptorPkt := ⟨1, 0, 0, 28, [0x68]⟩

/-- Two values, 5 and 7 nanoseconds after the packet. -/
def twoValues : VariablePkt := .mult ⟨10, 999999998, 1, 1, 0, 0⟩ (.u32 [(5, 20), (7, 21)])

/-- The heater sends two values, two prologues are written, and it disconnects. -/
def heaterRun : List Event :=
  [.descriptor heater 2 1, .value twoValues 2 1, .prologue, .prologue, .drop 2 fun _ _ => 0]

theorem prologueEqualsReplay_of_run_heater :
    ∃ s, Runs.run step init heaterRun = some s ∧ s.prologues.length = 4 ∧
      PrologueEqualsReplay s := by
  have hlength : (Runs.run step init heaterRun).map (·.prologues.length) = some 4 := by
    decide +kernel
  obtain ⟨s, hrun, hs⟩ := Option.map_eq_some_iff.mp hlength
  refine ⟨s, hrun, hs, prologueEqualsReplay_of_run ?_ hrun⟩
  unfold heaterRun
  refine ⟨(fun _ _ _ h => nomatch h), fun _ _ => ⟨fun _ _ _ _ => ?_, fun _ _ => ⟨trivial, fun _ _ =>
    ⟨trivial, fun _ _ => ⟨?_, fun _ _ => trivial⟩⟩⟩⟩⟩
  · exact ⟨_, rfl, by decide⟩
  · exact fun _ _ _ _ _ _ _ hfiles => absurd rfl hfiles

def oneValue (varId : UInt32) : VariablePkt := .single ⟨10, 0, 1, varId, 0, 0⟩ (.u32 20)

/-- The heater disconnects, and a prologue is asked for while its second variable is marked. -/
def heaterDrop : List Event :=
  [.descriptor heater 2 0, .value (oneValue 1) 2 0, .value (oneValue 2) 2 0,
    .drop 2 fun _ u => if u = 2 then 1 else 0]

/-- That prologue has the old value of the first variable. -/
def stalePrologue : Prologue where
  emitted := some [.descriptor heater, .variable (oneValue 1), .variable (oneValue 2)]
  stream := [.descriptor heater, .variable (oneValue 1), .variable (oneValue 2),
    .variable (oneValue 1).upstreamDisconnected]
  pending := [.variable (oneValue 2).upstreamDisconnected]
  live := [1]

theorem not_prologueEqualsReplay_of_drop :
    ∃ s, Runs.run step init heaterDrop = some s ∧ s.prologues = [stalePrologue] ∧
      ¬ PrologueEqualsReplay s := by
  have hprologues : (Runs.run step init heaterDrop).map (·.prologues) = some [stalePrologue] := by
    decide +kernel
  obtain ⟨s, hrun, hs⟩ := Option.map_eq_some_iff.mp hprologues
  refine ⟨s, hrun, hs, fun h => ?_⟩
  obtain ⟨pkts, hpkts, hsame⟩ := h.1 stalePrologue (hs ▸ List.mem_singleton_self _)
  obtain rfl := Option.some.inj hpkts
  have hvalue := congrArg (Option.bind · fun v => v.values 1) (hsame 1 List.mem_cons_self)
  exact absurd hvalue (by decide +kernel)

end Adara.Native.MetaDataMgr
