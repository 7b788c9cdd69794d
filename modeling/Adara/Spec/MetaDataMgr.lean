import Adara.Native.MetaDataMgr

/-! # What the operations on devices leave alone

A prologue replaces packets with several values by ones with the last value, and adding a
packet or a value touches nothing else of a device: its identifier, its source, its descriptor
and all the maps of identifiers stay (`SameIds`). -/

namespace Adara.Native

/-- A device without its variables, which is what is kept of it while it is away. -/
def DeviceVariables.bare (d : DeviceVariables) : DeviceVariables :=
  { d with variablePkts := SortedMap.empty }

/-- The key of the device an entry belongs to. -/
def DeviceVariables.key (d : DeviceVariables) : UInt64 :=
  MetaDataMgr.deviceKey d.srcTag d.devId

namespace MetaDataMgr

variable {s t u : MetaDataMgr}

/-! ### Keys of devices -/

theorem deviceKey_toNat (srcTag dev : UInt32) :
    (deviceKey srcTag dev).toNat = srcTag.toNat * 2 ^ 32 + dev.toNat := by
  have hs := srcTag.toNat_lt
  have hd := dev.toNat_lt
  have hshift : (srcTag.toUInt64 <<< 32).toNat = srcTag.toNat <<< 32 := by
    simp only [UInt64.toNat_shiftLeft, UInt32.toNat_toUInt64, UInt64.reduceToNat,
      Nat.shiftLeft_eq, Nat.reduceMod, Nat.reducePow]
    omega
  rw [deviceKey, UInt64.toNat_or, hshift, UInt32.toNat_toUInt64,
    ← Nat.shiftLeft_add_eq_or_of_lt hd, Nat.shiftLeft_eq]

/-- Devices with the same key are the same device of the same source. -/
theorem deviceKey_inj {srcTag dev srcTag' dev' : UInt32} :
    deviceKey srcTag dev = deviceKey srcTag' dev' ↔ srcTag = srcTag' ∧ dev = dev' := by
  refine ⟨fun h => ?_, fun ⟨hs, hd⟩ => hs ▸ hd ▸ rfl⟩
  have hnat := congrArg UInt64.toNat h
  rw [deviceKey_toNat, deviceKey_toNat] at hnat
  have hd := dev.toNat_lt
  have hd' := dev'.toNat_lt
  exact ⟨UInt32.toNat_inj.mp (by omega), UInt32.toNat_inj.mp (by omega)⟩

/-- The upper half of a key is the source. -/
theorem deviceKey_shiftRight {srcTag dev srcTag' : UInt32} :
    deviceKey srcTag dev >>> 32 = srcTag'.toUInt64 ↔ srcTag = srcTag' := by
  have hd := dev.toNat_lt
  have hshift : (deviceKey srcTag dev >>> 32).toNat = srcTag.toNat := by
    simp only [UInt64.toNat_shiftRight, deviceKey_toNat, UInt64.reduceToNat,
      Nat.shiftRight_eq_div_pow, Nat.reduceMod, Nat.reducePow]
    omega
  rw [← UInt64.toNat_inj, hshift, UInt32.toNat_toUInt64, UInt32.toNat_inj]

/-! ### Entries without their variables -/

@[simp] theorem bare_key (d : DeviceVariables) : d.bare.key = d.key := rfl

/-- The device under an identifier, without its variables. -/
def bareAt (s : MetaDataMgr) (id : UInt32) : Option DeviceVariables :=
  (s.devices.find? id).map DeviceVariables.bare

theorem bareAt_of_find? {id : UInt32} {d : DeviceVariables} (h : s.devices.find? id = some d) :
    s.bareAt id = some d.bare := by
  rw [bareAt, h, Option.map_some]

theorem exists_of_bareAt {id : UInt32} {d : DeviceVariables} (h : s.bareAt id = some d) :
    ∃ d', s.devices.find? id = some d' ∧ d'.bare = d :=
  Option.map_eq_some_iff.mp h

/-- The maps of identifiers and the disconnected devices are the same. -/
structure SameMaps (s t : MetaDataMgr) : Prop where
  oldDevices : t.oldDevices = s.oldDevices
  devIdMap : t.devIdMap = s.devIdMap
  oldDevIdMap : t.oldDevIdMap = s.oldDevIdMap
  activeDevId : t.activeDevId = s.activeDevId
  nextMappedDevId : t.nextMappedDevId = s.nextMappedDevId

/-- The devices up to their variables, and all identifiers, are the same. -/
structure SameIds (s t : MetaDataMgr) : Prop extends SameMaps s t where
  bareAt : ∀ id, t.bareAt id = s.bareAt id

theorem SameMaps.refl (s : MetaDataMgr) : SameMaps s s := ⟨rfl, rfl, rfl, rfl, rfl⟩

theorem SameMaps.trans (h : SameMaps s t) (h' : SameMaps t u) : SameMaps s u where
  oldDevices := h'.oldDevices.trans h.oldDevices
  devIdMap := h'.devIdMap.trans h.devIdMap
  oldDevIdMap := h'.oldDevIdMap.trans h.oldDevIdMap
  activeDevId := h'.activeDevId.trans h.activeDevId
  nextMappedDevId := h'.nextMappedDevId.trans h.nextMappedDevId

theorem SameIds.refl (s : MetaDataMgr) : SameIds s s := ⟨.refl s, fun _ => rfl⟩

theorem SameIds.trans (h : SameIds s t) (h' : SameIds t u) : SameIds s u where
  toSameMaps := h.toSameMaps.trans h'.toSameMaps
  bareAt id := (h'.bareAt id).trans (h.bareAt id)

/-- A fold whose every turn leaves the identifiers alone does so as a whole. -/
theorem sameIds_foldl {α : Type} {f : MetaDataMgr → α → MetaDataMgr}
    (hf : ∀ s a, SameIds s (f s a)) (s : MetaDataMgr) (as : List α) :
    SameIds s (as.foldl f s) := by
  induction as generalizing s with
  | nil => exact .refl s
  | cons a as ih => exact (hf s a).trans (ih (f s a))

theorem prologue_sameIds (pending : List StreamPkt) (s : MetaDataMgr) :
    SameIds s (s.prologue pending) where
  toSameMaps := { SameMaps.refl s with }
  bareAt id := by
    simp only [MetaDataMgr.bareAt, prologue, SortedMap.find?_mapVal, Option.map_map]
    rfl

theorem prologues_sameIds (pending : List StreamPkt) (n : Nat) (s : MetaDataMgr) :
    SameIds s ((prologue pending)^[n] s) := by
  induction n generalizing s with
  | zero => exact .refl s
  | succ n ih => exact (prologue_sameIds pending s).trans (ih _)

theorem addPacket_sameIds (s : MetaDataMgr) (pkt : StreamPkt) (files : Nat) :
    SameIds s (s.addPacket pkt files) :=
  { prologues_sameIds [pkt] files s with }

/-- Changing the variables of a device leaves the identifiers alone. -/
theorem modify_sameIds (s : MetaDataMgr) (id : UInt32) {f : DeviceVariables → DeviceVariables}
    (hf : ∀ d, (f d).bare = d.bare) :
    SameIds s { s with devices := s.devices.modify id f } where
  toSameMaps := { SameMaps.refl s with }
  bareAt id' := by
    simp only [MetaDataMgr.bareAt, SortedMap.find?_modify]
    split
    · rw [Option.map_map]
      exact congrArg (Option.map · _) (funext hf)
    · rfl

theorem updateVariable_sameIds (s : MetaDataMgr) (dev varId : UInt32) (inPkt : VariablePkt)
    (srcTag : UInt32) (files : Nat) :
    SameIds s (s.updateVariable dev varId inPkt srcTag files) := by
  unfold updateVariable
  split
  · exact .refl s
  · split
    · exact .refl s
    · have herase := modify_sameIds s dev
        (f := fun d => { d with variablePkts := d.variablePkts.erase varId }) fun _ => rfl
      have hadd := herase.trans (addPacket_sameIds _ (.variable inPkt) files)
      exact hadd.trans (modify_sameIds _ dev fun _ => rfl)

theorem updateValue_sameIds (s : MetaDataMgr) (inPkt : VariablePkt) (srcTag : UInt32)
    (files : Nat) : SameIds s (s.updateValue inPkt srcTag files) := by
  unfold updateValue
  dsimp only
  split
  · exact .refl s
  · exact updateVariable_sameIds s _ _ _ srcTag files

theorem upstreamDisconnected_sameIds (s : MetaDataMgr) (id : UInt32) (dev : DeviceVariables)
    (files : UInt32 → Nat) : SameIds s (s.upstreamDisconnected id dev files) := by
  refine sameIds_foldl (fun s varId => ?_) s _
  unfold disconnectVariable
  split
  · exact .refl s
  · exact addPacket_sameIds s _ _

/-! ### Descriptors -/

theorem storeDescriptor_sameMaps (s : MetaDataMgr) (inPkt : DeviceDescriptorPkt)
    (mapped srcTag : UInt32) (files : Nat) :
    SameMaps s (s.storeDescriptor inPkt mapped srcTag files) :=
  { addPacket_sameIds s (.descriptor (inPkt.remapDeviceId mapped)) files with }

/-- A stored descriptor makes the entry one of the device it is for. -/
theorem storeDescriptor_bareAt (s : MetaDataMgr) (inPkt : DeviceDescriptorPkt)
    (mapped srcTag : UInt32) (files : Nat) (id : UInt32) :
    (s.storeDescriptor inPkt mapped srcTag files).bareAt id =
      if id = mapped then
        some ⟨inPkt.devId, srcTag, inPkt.remapDeviceId mapped, SortedMap.empty⟩
      else s.bareAt id := by
  have hadd := (addPacket_sameIds s (.descriptor (inPkt.remapDeviceId mapped)) files).bareAt id
  simp only [storeDescriptor, bareAt, SortedMap.find?_alter]
  split
  · rfl
  · exact hadd

/-- `describe` touches no map of identifiers. -/
theorem describe_sameMaps (s : MetaDataMgr) (inPkt : DeviceDescriptorPkt)
    (mapped srcTag : UInt32) (reconnected : Bool) (files : Nat) :
    SameMaps s (s.describe inPkt mapped srcTag reconnected files) := by
  unfold describe
  split
  · exact storeDescriptor_sameMaps s inPkt mapped srcTag files
  · split
    · exact .refl s
    · split
      · split
        · exact (addPacket_sameIds s _ files).toSameMaps
        · exact .refl s
      · dsimp only
        split
        · exact { SameMaps.refl s with }
        · exact { storeDescriptor_sameMaps _ inPkt mapped srcTag files with }

/-- `describe` changes no entry but the one of the identifier. -/
theorem describe_bareAt_of_ne (s : MetaDataMgr) (inPkt : DeviceDescriptorPkt)
    {mapped : UInt32} (srcTag : UInt32) (reconnected : Bool) (files : Nat) {id : UInt32}
    (hid : id ≠ mapped) :
    (s.describe inPkt mapped srcTag reconnected files).bareAt id = s.bareAt id := by
  have herase : ({ s with devices := s.devices.erase mapped } : MetaDataMgr).bareAt id =
      s.bareAt id := by
    simp only [bareAt, SortedMap.find?_erase, if_neg hid]
  unfold describe
  split
  · rw [storeDescriptor_bareAt, if_neg hid]
  · split
    · rfl
    · split
      · split
        · exact (addPacket_sameIds s _ files).bareAt id
        · rfl
      · dsimp only
        split
        · exact herase
        · rw [storeDescriptor_bareAt, if_neg hid, herase]

/-- What `describe` leaves under the identifier was there before, or is the device described. -/
theorem describe_bareAt_self {s : MetaDataMgr} {inPkt : DeviceDescriptorPkt}
    {mapped srcTag : UInt32} {reconnected : Bool} {files : Nat} {d : DeviceVariables}
    (h : (s.describe inPkt mapped srcTag reconnected files).bareAt mapped = some d) :
    s.bareAt mapped = some d ∨ d.key = deviceKey srcTag inPkt.devId := by
  have hstore : ∀ t : MetaDataMgr,
      (t.storeDescriptor inPkt mapped srcTag files).bareAt mapped = some d →
        d.key = deviceKey srcTag inPkt.devId := fun t ht => by
    rw [storeDescriptor_bareAt, if_pos rfl] at ht
    exact Option.some.inj ht ▸ rfl
  unfold describe at h
  split at h
  · exact .inr (hstore s h)
  · split at h
    · exact .inl h
    · split at h
      · split at h
        · exact .inl ((addPacket_sameIds s _ files).bareAt mapped ▸ h)
        · exact .inl h
      · dsimp only at h
        split at h
        · simp [bareAt, SortedMap.find?_erase] at h
        · exact .inr (hstore _ h)

/-! ### Disconnects -/

/-- The state after a device was moved to the old ones. -/
def moved (s : MetaDataMgr) (id : UInt32) (dev : DeviceVariables) : MetaDataMgr :=
  { s with
    oldDevIdMap := s.oldDevIdMap.set dev.key id
    oldDevices := s.oldDevices.set id dev.bare
    devices := s.devices.erase id }

/-- A turn of the loop passes over a device of another source, or moves one of this source. -/
theorem dropDevice_cases (s : MetaDataMgr) (srcTag : UInt32) (files : UInt32 → UInt32 → Nat)
    (id : UInt32) :
    (∀ d, s.bareAt id = some d → d.srcTag ≠ srcTag) ∧ s.dropDevice srcTag files id = s ∨
    ∃ dev, s.devices.find? id = some dev ∧ dev.srcTag = srcTag ∧
      s.dropDevice srcTag files id = (s.upstreamDisconnected id dev (files id)).moved id dev := by
  cases hdev : s.devices.find? id with
  | none => exact .inl ⟨by simp [bareAt, hdev], by simp [dropDevice, hdev]⟩
  | some dev =>
    by_cases htag : dev.srcTag = srcTag
    · refine .inr ⟨dev, rfl, htag, ?_⟩
      simp only [dropDevice, hdev, htag, ne_eq, not_true_eq_false, if_false]
      subst htag
      rfl
    · refine .inl ⟨fun d hd => ?_, by simp [dropDevice, hdev, htag]⟩
      rw [bareAt_of_find? hdev] at hd
      exact Option.some.inj hd ▸ htag

/-- A turn of the loop leaves no device of the source under its identifier, and the other
    entries as they are. -/
theorem dropDevice_bareAt (s : MetaDataMgr) (srcTag : UInt32) (files : UInt32 → UInt32 → Nat)
    (id id' : UInt32) :
    (s.dropDevice srcTag files id).bareAt id' =
      if id' = id then (s.bareAt id).filter (·.srcTag ≠ srcTag) else s.bareAt id' := by
  rcases dropDevice_cases s srcTag files id with ⟨hother, heq⟩ | ⟨dev, hdev, hsrc, heq⟩
  · rw [heq]
    split
    · subst id'
      cases hd : s.bareAt id with
      | none => rfl
      | some d => simp [Option.filter, hother d hd]
    · rfl
  · have hu := (upstreamDisconnected_sameIds s id dev (files id)).bareAt id'
    rw [heq, bareAt_of_find? hdev]
    simp only [moved, bareAt, SortedMap.find?_erase] at hu ⊢
    split
    · have hbare : dev.bare.srcTag = srcTag := hsrc
      simp [Option.filter, hbare]
    · exact hu

theorem dropDevices_bareAt (srcTag : UInt32) (files : UInt32 → UInt32 → Nat) (id : UInt32)
    (ids : List UInt32) (s : MetaDataMgr) :
    (ids.foldl (dropDevice srcTag files) s).bareAt id =
      if id ∈ ids then (s.bareAt id).filter (·.srcTag ≠ srcTag) else s.bareAt id := by
  induction ids generalizing s with
  | nil => rfl
  | cons i ids ih =>
    rw [List.foldl_cons, ih, dropDevice_bareAt]
    by_cases hi : id = i
    · subst hi
      cases s.bareAt id <;> simp [Option.filter_filter]
    · simp [hi]

/-- The loop over the devices leaves none of the source, and those of others as they are. -/
theorem dropLoop_bareAt (s : MetaDataMgr) (srcTag : UInt32) (files : UInt32 → UInt32 → Nat)
    (id : UInt32) :
    (s.devices.keys.foldl (dropDevice srcTag files) s).bareAt id =
      (s.bareAt id).filter (·.srcTag ≠ srcTag) := by
  rw [dropDevices_bareAt]
  split
  · rfl
  · rename_i hid
    rw [bareAt, SortedMap.find?_eq_none.mpr hid]
    rfl

end MetaDataMgr

end Adara.Native
