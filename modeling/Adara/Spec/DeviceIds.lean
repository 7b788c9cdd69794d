import Adara.ForStd.OneToOne
import Adara.ForStd.Runs
import Adara.Spec.MetaDataMgr

/-! # The identifiers of devices

As long as no new device is given an identifier that is reserved, or that a disconnected device
still has a claim to, every device has an identifier of its own, and gets it back when it
reconnects.  The invariant (`Good`) ties the two maps of identifiers to the two maps of devices
and to the identifiers in use; while the devices of a source are dropped, its keys are in both
maps, so the invariant is stated with the keys that are `leaving`. -/

namespace Adara.Native.MetaDataMgr

variable {s t : MetaDataMgr} {leaving : UInt64 → Prop}

/-! ### The property -/

/-- The identifiers in use are those the devices are mapped to, one for each. -/
structure WellMapped (s : MetaDataMgr) : Prop where
  injective : ∀ k k' id, s.devIdMap.find? k = some id → s.devIdMap.find? k' = some id → k = k'
  image : ∀ id, id ∈ s.activeDevId ↔ ∃ k, s.devIdMap.find? k = some id
  range : ∀ k id, s.devIdMap.find? k = some id → 1 ≤ id ∧ id ≤ 0x7fffffff
  disjoint : ∀ k id, s.devIdMap.find? k = some id → s.oldDevIdMap.find? k = none

/-- The event is a descriptor of the device. -/
def Describes (srcTag dev : UInt32) : Event → Prop
  | .descriptor inPkt srcTag' _ => srcTag' = srcTag ∧ inPkt.devId = dev
  | _ => False

/-- A device that was there when its source was dropped, and that is next described after
    `mid`, gets back its identifier, and the entries of all other devices stay. -/
def Reclaims (es : List Event) : Prop :=
  ∀ pre mid post srcTag files inPkt n,
    es = pre ++ .drop srcTag files :: (mid ++ .descriptor inPkt srcTag n :: post) →
    (∀ e ∈ mid, ¬ Describes srcTag inPkt.devId e) →
    ∀ s₀ s s', Runs.run step init pre = some s₀ →
      Runs.run step s₀ (.drop srcTag files :: mid) = some s →
      s.step (.descriptor inPkt srcTag n) = some s' →
    ∀ id d, s₀.devices.find? id = some d → d.key = deviceKey srcTag inPkt.devId →
      s'.devIdMap.find? d.key = some id ∧
      ∀ id' d', s.devices.find? id' = some d' → d'.key ≠ d.key → s'.bareAt id' = some d'.bare

/-- Where the search for a new identifier starts. -/
def firstId (s : MetaDataMgr) : UInt32 :=
  if s.nextMappedDevId = 0 ∨ s.nextMappedDevId ≥ 0x80000000 then 1 else s.nextMappedDevId

/-- From where the search starts there is an identifier below the reserved ones that is not
    in use, and no disconnected device has a claim to the first of them. -/
def NewIdFree (s : MetaDataMgr) : Prop :=
  ∃ id, s.firstId ≤ id ∧ id < 0x80000000 ∧ id ∉ s.activeDevId ∧
    (∀ j, s.firstId ≤ j → j < id → j ∈ s.activeDevId) ∧ s.oldDevices.find? id = none

/-- If the event describes a new device, there is an identifier for it. -/
def KeepsIds (s : MetaDataMgr) : Event → Prop
  | .descriptor inPkt srcTag _ =>
    s.devIdMap.find? (deviceKey srcTag inPkt.devId) = none →
    s.oldDevIdMap.find? (deviceKey srcTag inPkt.devId) = none → s.NewIdFree
  | _ => True

/-! ### The invariant -/

/-- The maps fit together, while the devices with the keys in `leaving` are dropped. -/
structure Good (leaving : UInt64 → Prop) (s : MetaDataMgr) : Prop where
  oneToOne : s.devIdMap.OneToOne s.activeDevId
  range : ∀ k id, s.devIdMap.find? k = some id → id ≠ 0 ∧ id < 0x80000000
  disjoint : ∀ k id id', s.devIdMap.find? k = some id → s.oldDevIdMap.find? k = some id' →
    leaving k ∧ id' = id
  current : ∀ id d, s.bareAt id = some d → s.devIdMap.find? d.key = some id
  oldRange : ∀ k id, s.oldDevIdMap.find? k = some id → id ≠ 0 ∧ id < 0x80000000
  oldUnused : ∀ k id, s.oldDevIdMap.find? k = some id → id ∈ s.activeDevId →
    leaving k ∧ s.devIdMap.find? k = some id
  oldEntry : ∀ k id, s.oldDevIdMap.find? k = some id →
    ∃ d, s.oldDevices.find? id = some d ∧ d.key = k
  oldCurrent : ∀ id d, s.oldDevices.find? id = some d → s.oldDevIdMap.find? d.key = some id

theorem init_good : Good leaving init where
  oneToOne := SortedMap.oneToOne_empty
  range _ _ h := nomatch h
  disjoint _ _ _ h := nomatch h
  current _ _ h := nomatch h
  oldRange _ _ h := nomatch h
  oldUnused _ _ h := nomatch h
  oldEntry _ _ h := nomatch h
  oldCurrent _ _ h := nomatch h

/-- The invariant depends on the maps of identifiers, and on whose entries there are. -/
theorem Good.of_sameMaps (h : Good leaving s) (hst : SameMaps s t)
    (hcurrent : ∀ id d, t.bareAt id = some d → s.devIdMap.find? d.key = some id) :
    Good leaving t where
  oneToOne := hst.devIdMap ▸ hst.activeDevId ▸ h.oneToOne
  range := hst.devIdMap ▸ h.range
  disjoint := hst.devIdMap ▸ hst.oldDevIdMap ▸ h.disjoint
  current := hst.devIdMap ▸ hcurrent
  oldRange := hst.oldDevIdMap ▸ h.oldRange
  oldUnused := hst.devIdMap ▸ hst.oldDevIdMap ▸ hst.activeDevId ▸ h.oldUnused
  oldEntry := hst.oldDevIdMap ▸ hst.oldDevices ▸ h.oldEntry
  oldCurrent := hst.oldDevIdMap ▸ hst.oldDevices ▸ h.oldCurrent

theorem Good.of_sameIds (h : Good leaving s) (hst : SameIds s t) : Good leaving t :=
  h.of_sameMaps hst.toSameMaps fun id d hd => h.current id d (hst.bareAt id ▸ hd)

/-- At rest no key is in both maps. -/
theorem Good.old_none (h : Good (fun _ => False) s) {k : UInt64} {id : UInt32}
    (hk : s.devIdMap.find? k = some id) : s.oldDevIdMap.find? k = none := by
  cases hold : s.oldDevIdMap.find? k with
  | none => rfl
  | some id' => exact (h.disjoint k id id' hk hold).1.elim

theorem Good.wellMapped (h : Good (fun _ => False) s) : WellMapped s where
  injective := h.oneToOne.injective
  image := h.oneToOne.image
  range k id hk := by
    obtain ⟨hpos, hlt⟩ := h.range k id hk
    rw [UInt32.lt_iff_toNat_lt] at hlt
    refine ⟨?_, UInt32.le_iff_toNat_le.mpr (Nat.le_of_lt_succ hlt)⟩
    exact UInt32.le_iff_toNat_le.mpr
      (Nat.pos_of_ne_zero fun h0 => hpos (UInt32.toNat_inj.mp h0))
  disjoint k id hk := h.old_none hk

/-- An identifier that a disconnected device has a claim to is not in use. -/
theorem Good.not_active (h : Good (fun _ => False) s) {k : UInt64} {id : UInt32}
    (hk : s.oldDevIdMap.find? k = some id) : id ∉ s.activeDevId :=
  fun hactive => (h.oldUnused k id hk hactive).1

/-! ### The search for a new identifier -/

/-- The search ends at the first identifier that is not in use. -/
theorem firstInactive_eq {active : Finset UInt32} {id : UInt32} (hid : id ∉ active) :
    ∀ {n : Nat} {first : UInt32}, first ≤ id → id.toNat - first.toNat < n →
      (∀ j, first ≤ j → j < id → j ∈ active) → firstInactive active n first = some id := by
  intro n
  induction n with
  | zero => exact fun _ h => absurd h (Nat.not_lt_zero _)
  | succ n ih =>
    intro first hle hlt hbelow
    rw [firstInactive]
    rcases eq_or_lt_of_le hle with rfl | hne
    · rw [if_neg hid]
    · rw [if_pos (hbelow first le_rfl hne)]
      have hfirst := UInt32.lt_iff_toNat_lt.mp hne
      have hid_lt := id.toNat_lt
      have hadd : (first + 1).toNat = first.toNat + 1 := by
        simp only [UInt32.toNat_add, UInt32.reduceToNat]
        omega
      refine ih (UInt32.le_iff_toNat_le.mpr (by omega)) (by omega) fun j hj => ?_
      have hj' := UInt32.le_iff_toNat_le.mp hj
      exact hbelow j (UInt32.le_iff_toNat_le.mpr (by omega))

/-- The search starts at 1 at the least. -/
theorem firstId_ne_zero (s : MetaDataMgr) : s.firstId ≠ 0 := by
  unfold firstId
  split <;> rename_i hnext
  · decide
  · exact fun h0 => hnext (.inl h0)

/-- Where the condition holds the search ends at an identifier that nobody has or claims. -/
theorem newMappedDevId_spec (h : s.NewIdFree) :
    ∃ id, s.newMappedDevId = some id ∧ id ≠ 0 ∧ id < 0x80000000 ∧ id ∉ s.activeDevId ∧
      s.oldDevices.find? id = none := by
  obtain ⟨id, hle, hlt, hid, hbelow, hold⟩ := h
  have hid_lt := id.toNat_lt
  refine ⟨id, firstInactive_eq hid hle (by omega) hbelow, fun h0 => ?_, hlt, hid, hold⟩
  have hzero := UInt32.le_iff_toNat_le.mp (h0 ▸ hle)
  exact s.firstId_ne_zero (UInt32.toNat_inj.mp (Nat.le_zero.mp hzero))

theorem newMappedDevId_of_firstId {s : MetaDataMgr} (h : s.firstId ∉ s.activeDevId) :
    s.newMappedDevId = some s.firstId := by
  show firstInactive s.activeDevId (2 ^ 32) s.firstId = some s.firstId
  refine firstInactive_eq h le_rfl ?_ fun _ hle hlt => absurd hlt (not_lt_of_ge hle)
  rw [Nat.sub_self]
  exact Nat.two_pow_pos 32

/-! ### Identifiers given to devices -/

/-- The state after an old device was reinstated. -/
def reinstated (s : MetaDataMgr) (key : UInt64) (id : UInt32) (old : DeviceVariables) :
    MetaDataMgr :=
  { s with
    devices := s.devices.set id old
    oldDevices := s.oldDevices.erase id
    devIdMap := s.devIdMap.set key id
    oldDevIdMap := s.oldDevIdMap.erase key
    activeDevId := insert id s.activeDevId }

/-- The state after a new identifier was given to a device. -/
def assigned (s : MetaDataMgr) (key : UInt64) (id : UInt32) : MetaDataMgr :=
  { s with
    activeDevId := insert id s.activeDevId
    nextMappedDevId := id + 1
    devIdMap := s.devIdMap.set key id }

/-- A device has an identifier, or is reinstated, or gets a new one. -/
theorem allocDev_cases (h : Good (fun _ => False) s) {dev srcTag mapped : UInt32}
    {reconnected : Bool} (halloc : s.allocDev dev srcTag = some (mapped, reconnected, t)) :
    s.devIdMap.find? (deviceKey srcTag dev) = some mapped ∧ t = s ∨
    (∃ old, s.devIdMap.find? (deviceKey srcTag dev) = none ∧
      s.oldDevIdMap.find? (deviceKey srcTag dev) = some mapped ∧
      s.oldDevices.find? mapped = some old ∧
      t = s.reinstated (deviceKey srcTag dev) mapped old) ∨
    s.devIdMap.find? (deviceKey srcTag dev) = none ∧
      s.oldDevIdMap.find? (deviceKey srcTag dev) = none ∧ s.newMappedDevId = some mapped ∧
      t = s.assigned (deviceKey srcTag dev) mapped := by
  generalize hkey : deviceKey srcTag dev = key at *
  cases hcur : s.devIdMap.find? key with
  | some id =>
    have hne := (h.range key id hcur).1
    simp only [allocDev, lookupMappedDeviceId, hkey, hcur, Option.getD_some, ne_eq, hne,
      not_false_eq_true, if_true, Option.some.injEq, Prod.mk.injEq] at halloc
    exact .inl ⟨congrArg some halloc.1, halloc.2.2.symm⟩
  | none =>
    cases hold : s.oldDevIdMap.find? key with
    | some id =>
      have hne := (h.oldRange key id hold).1
      obtain ⟨old, hentry, -⟩ := h.oldEntry key id hold
      simp only [allocDev, lookupMappedDeviceId, lookupOldMappedDeviceId, hkey, hcur, hold,
        hentry, Option.getD_none, ne_eq, not_true_eq_false, if_false, hne, not_false_eq_true,
        if_true, Option.some.injEq, Prod.mk.injEq] at halloc
      obtain ⟨rfl, -, rfl⟩ := halloc
      exact .inr (.inl ⟨old, rfl, rfl, hentry, rfl⟩)
    | none =>
      simp only [allocDev, lookupMappedDeviceId, lookupOldMappedDeviceId, hkey, hcur, hold,
        Option.getD_none, ne_eq, not_true_eq_false, if_false, Option.map_eq_some_iff,
        Prod.mk.injEq] at halloc
      obtain ⟨id, hnew, rfl, -, rfl⟩ := halloc
      exact .inr (.inr ⟨rfl, rfl, hnew, rfl⟩)

theorem reinstated_good (h : Good (fun _ => False) s) {key : UInt64} {id : UInt32}
    {old : DeviceVariables} (hcur : s.devIdMap.find? key = none)
    (hold : s.oldDevIdMap.find? key = some id) (hentry : s.oldDevices.find? id = some old) :
    Good (fun _ => False) (s.reinstated key id old) := by
  have hunused := h.not_active hold
  have hentry_key : ∀ k, s.oldDevIdMap.find? k = some id → k = old.key := fun k hk => by
    obtain ⟨d, hd, rfl⟩ := h.oldEntry k id hk
    rw [Option.some.inj (hentry.symm.trans hd)]
  have hkey := hentry_key key hold
  -- no other key has a claim to the identifier
  have hother : ∀ k id', k ≠ key → s.oldDevIdMap.find? k = some id' → id' ≠ id :=
    fun k id' hk hk' heq => hk ((hentry_key k (heq ▸ hk')).trans hkey.symm)
  constructor
  all_goals simp only [reinstated, SortedMap.find?_set, SortedMap.find?_erase]
  case oneToOne => exact h.oneToOne.set hcur hunused
  case range =>
    intro k id' hk
    split at hk
    · exact Option.some.inj hk ▸ h.oldRange key id hold
    · exact h.range k id' hk
  case disjoint =>
    intro k id₁ id₂ hk hk'
    by_cases hkk : k = key
    · rw [if_pos hkk] at hk'
      cases hk'
    · rw [if_neg hkk] at hk hk'
      exact h.disjoint k id₁ id₂ hk hk'
  case current =>
    intro id' d hd
    simp only [bareAt, SortedMap.find?_set] at hd
    split at hd
    · obtain rfl := Option.some.inj hd
      rw [bare_key, if_pos hkey.symm, ‹id' = id›]
    · have hcurrent := h.current id' d hd
      rw [if_neg fun heq => by rw [heq, hcur] at hcurrent; cases hcurrent]
      exact hcurrent
  case oldRange =>
    intro k id' hk
    split at hk
    · cases hk
    · exact h.oldRange k id' hk
  case oldUnused =>
    intro k id' hk hactive
    split at hk
    · cases hk
    · rcases Finset.mem_insert.mp hactive with rfl | hactive
      · exact absurd rfl (hother k id' ‹_› hk)
      · exact absurd hactive (h.not_active hk)
  case oldEntry =>
    intro k id' hk
    split at hk
    · cases hk
    · rw [if_neg (hother k id' ‹_› hk)]
      exact h.oldEntry k id' hk
  case oldCurrent =>
    intro id' d hd
    split at hd
    · cases hd
    · have hk := h.oldCurrent id' d hd
      rw [if_neg fun heq => ‹¬id' = id› (Option.some.inj ((heq ▸ hk).symm.trans hold))]
      exact hk

theorem assigned_good (h : Good (fun _ => False) s) {key : UInt64} {id : UInt32}
    (hcur : s.devIdMap.find? key = none) (hold : s.oldDevIdMap.find? key = none)
    (hpos : id ≠ 0) (hlt : id < 0x80000000) (hunused : id ∉ s.activeDevId)
    (hentry : s.oldDevices.find? id = none) :
    Good (fun _ => False) (s.assigned key id) := by
  constructor
  all_goals simp only [assigned, SortedMap.find?_set]
  case oneToOne => exact h.oneToOne.set hcur hunused
  case range =>
    intro k id' hk
    split at hk
    · exact Option.some.inj hk ▸ ⟨hpos, hlt⟩
    · exact h.range k id' hk
  case disjoint =>
    intro k id₁ id₂ hk hk'
    have hkk : k ≠ key := fun heq => by rw [heq, hold] at hk'; cases hk'
    rw [if_neg hkk] at hk
    exact h.disjoint k id₁ id₂ hk hk'
  case current =>
    intro id' d hd
    have hcurrent := h.current id' d hd
    rw [if_neg fun heq => by rw [heq, hcur] at hcurrent; cases hcurrent]
    exact hcurrent
  case oldRange => exact h.oldRange
  case oldUnused =>
    intro k id' hk hactive
    rcases Finset.mem_insert.mp hactive with rfl | hactive
    · -- the identifier would have an entry among the old devices
      obtain ⟨d, hd, -⟩ := h.oldEntry k id' hk
      rw [hentry] at hd
      cases hd
    · exact absurd hactive (h.not_active hk)
  case oldEntry => exact h.oldEntry
  case oldCurrent => exact h.oldCurrent

/-- After `allocDev` the device has the identifier, and the invariant holds. -/
theorem allocDev_good (h : Good (fun _ => False) s) {dev srcTag mapped : UInt32}
    {reconnected : Bool}
    (hfree : s.devIdMap.find? (deviceKey srcTag dev) = none →
      s.oldDevIdMap.find? (deviceKey srcTag dev) = none → s.NewIdFree)
    (halloc : s.allocDev dev srcTag = some (mapped, reconnected, t)) :
    Good (fun _ => False) t ∧ t.devIdMap.find? (deviceKey srcTag dev) = some mapped := by
  rcases allocDev_cases h halloc with ⟨hcur, rfl⟩ | ⟨old, hcur, hold, hentry, rfl⟩ |
    ⟨hcur, hold, hnew, rfl⟩
  · exact ⟨h, hcur⟩
  · refine ⟨reinstated_good h hcur hold hentry, ?_⟩
    simp only [reinstated, SortedMap.find?_set, if_true]
  · obtain ⟨id, hid, hpos, hlt, hunused, hfree⟩ := newMappedDevId_spec (hfree hcur hold)
    obtain rfl := Option.some.inj (hnew.symm.trans hid)
    refine ⟨assigned_good h hcur hold hpos hlt hunused hfree, ?_⟩
    simp only [assigned, SortedMap.find?_set, if_true]

/-! ### The operations keep the invariant -/

theorem updateDescriptor_good (h : Good (fun _ => False) s) {inPkt : DeviceDescriptorPkt}
    {srcTag : UInt32} {files : Nat} (hok : KeepsIds s (.descriptor inPkt srcTag files))
    (hstep : s.updateDescriptor inPkt srcTag files = some t) : Good (fun _ => False) t := by
  obtain ⟨⟨mapped, reconnected, u⟩, halloc, rfl⟩ := Option.map_eq_some_iff.mp hstep
  obtain ⟨hu, hkey⟩ := allocDev_good h hok halloc
  refine hu.of_sameMaps (describe_sameMaps u ..) fun id d hd => ?_
  by_cases hid : id = mapped
  · subst hid
    rcases describe_bareAt_self hd with hd | hd
    · exact hu.current id d hd
    · exact hd ▸ hkey
  · rw [describe_bareAt_of_ne u inPkt srcTag reconnected files hid] at hd
    exact hu.current id d hd

theorem moved_good {srcTag : UInt32} (h : Good (· >>> 32 = srcTag.toUInt64) s) {id : UInt32}
    {dev : DeviceVariables} (hdev : s.bareAt id = some dev.bare) (hsrc : dev.srcTag = srcTag) :
    Good (· >>> 32 = srcTag.toUInt64) (s.moved id dev) := by
  have hcur : s.devIdMap.find? dev.key = some id := h.current id dev.bare hdev
  have hleaving : dev.key >>> 32 = srcTag.toUInt64 := deviceKey_shiftRight.mpr hsrc
  have hactive : id ∈ s.activeDevId := (h.oneToOne.image id).mpr ⟨_, hcur⟩
  -- no other key has a claim to the identifier
  have hother : ∀ k id', k ≠ dev.key → s.oldDevIdMap.find? k = some id' → id' ≠ id := by
    rintro k id' hk hk' rfl
    exact hk (h.oneToOne.injective k _ id' (h.oldUnused k id' hk' hactive).2 hcur)
  constructor
  all_goals simp only [moved, SortedMap.find?_set]
  case oneToOne => exact h.oneToOne
  case range => exact h.range
  case disjoint =>
    intro k id₁ id₂ hk hk'
    split at hk'
    · subst k
      exact ⟨hleaving, (Option.some.inj hk').symm.trans (Option.some.inj (hcur.symm.trans hk))⟩
    · exact h.disjoint k id₁ id₂ hk hk'
  case current =>
    intro id' d hd
    simp only [bareAt, SortedMap.find?_erase] at hd
    split at hd
    · cases hd
    · exact h.current id' d hd
  case oldRange =>
    intro k id' hk
    split at hk
    · exact Option.some.inj hk ▸ h.range _ id hcur
    · exact h.oldRange k id' hk
  case oldUnused =>
    intro k id' hk hid'
    split at hk
    · subst k
      exact ⟨hleaving, Option.some.inj hk ▸ hcur⟩
    · exact h.oldUnused k id' hk hid'
  case oldEntry =>
    intro k id' hk
    split at hk
    · exact ⟨dev.bare, if_pos (Option.some.inj hk).symm, (‹k = _›).symm⟩
    · rw [if_neg (hother k id' ‹_› hk)]
      exact h.oldEntry k id' hk
  case oldCurrent =>
    intro id' d hd
    split at hd
    · obtain rfl := Option.some.inj hd
      rw [bare_key, if_pos rfl, ‹id' = id›]
    · have hk := h.oldCurrent id' d hd
      by_cases hdk : d.key = dev.key
      · exact absurd (h.disjoint _ id id' hcur (hdk ▸ hk)).2 ‹_›
      · rw [if_neg hdk]
        exact hk

theorem dropDevice_good {srcTag : UInt32} (h : Good (· >>> 32 = srcTag.toUInt64) s)
    (files : UInt32 → UInt32 → Nat) (id : UInt32) :
    Good (· >>> 32 = srcTag.toUInt64) (s.dropDevice srcTag files id) := by
  rcases dropDevice_cases s srcTag files id with ⟨-, heq⟩ | ⟨dev, hdev, hsrc, heq⟩
  · rw [heq]
    exact h
  · have hsame := upstreamDisconnected_sameIds s id dev (files id)
    rw [heq]
    exact moved_good (h.of_sameIds hsame) ((hsame.bareAt id).trans (bareAt_of_find? hdev)) hsrc

theorem dropLoop_good {srcTag : UInt32} (h : Good (· >>> 32 = srcTag.toUInt64) s)
    (files : UInt32 → UInt32 → Nat) (ids : List UInt32) :
    Good (· >>> 32 = srcTag.toUInt64) (ids.foldl (dropDevice srcTag files) s) := by
  induction ids generalizing s with
  | nil => exact h
  | cons id ids ih => exact ih (dropDevice_good h files id)

theorem Good.weaken (h : Good (fun _ => False) s) (srcTag : UInt32) :
    Good (· >>> 32 = srcTag.toUInt64) s :=
  { h with
    disjoint := fun k id id' hk hk' => (h.disjoint k id id' hk hk').1.elim
    oldUnused := fun k id hk hid => (h.oldUnused k id hk hid).1.elim }

theorem dropSourceTag_good (h : Good (fun _ => False) s) (srcTag : UInt32)
    (files : UInt32 → UInt32 → Nat) : Good (fun _ => False) (s.dropSourceTag srcTag files) := by
  have hloop := dropLoop_good (h.weaken srcTag) files s.devices.keys
  have hothers := dropLoop_bareAt s srcTag files
  unfold dropSourceTag
  generalize s.devices.keys.foldl (dropDevice srcTag files) s = u at hloop hothers ⊢
  have hone := hloop.oneToOne.filter (fun k => decide (k >>> 32 = srcTag.toUInt64))
  constructor
  all_goals simp only [SortedMap.find?_filter, ne_eq, decide_not, Option.filter_eq_some_iff,
    Bool.not_eq_true', decide_eq_false_iff_not]
  case oneToOne => exact hone
  case range => exact fun k id hk => hloop.range k id hk.1
  case disjoint =>
    intro k id id' hk hk'
    exact ⟨hk.2 (hloop.disjoint k id id' hk.1 hk').1, (hloop.disjoint k id id' hk.1 hk').2⟩
  case current =>
    intro id d hd
    refine ⟨hloop.current id d hd, fun hleaving => ?_⟩
    have hd' := (hothers id).symm.trans hd
    simp only [Option.filter_eq_some_iff, decide_eq_true_eq] at hd'
    exact hd'.2 (deviceKey_shiftRight.mp hleaving)
  case oldRange => exact hloop.oldRange
  case oldUnused =>
    intro k id hk hid
    obtain ⟨hactive, hnot⟩ := Finset.mem_sdiff.mp hid
    obtain ⟨hleaving, hcur⟩ := hloop.oldUnused k id hk hactive
    refine absurd (List.mem_toFinset.mpr (List.mem_map.mpr ⟨(k, id), ?_, rfl⟩)) hnot
    rw [← SortedMap.find?_eq_some, SortedMap.find?_filter, hcur]
    simp [hleaving]
  case oldEntry => exact hloop.oldEntry
  case oldCurrent => exact hloop.oldCurrent

theorem step_good {e : Event} (h : Good (fun _ => False) s) (hok : KeepsIds s e)
    (hstep : s.step e = some t) : Good (fun _ => False) t := by
  cases e with
  | descriptor inPkt srcTag files => exact updateDescriptor_good h hok hstep
  | value inPkt srcTag files =>
    exact Option.some.inj hstep ▸ h.of_sameIds (updateValue_sameIds s inPkt srcTag files)
  | drop srcTag files => exact Option.some.inj hstep ▸ dropSourceTag_good h srcTag files
  | prologue => exact Option.some.inj hstep ▸ h.of_sameIds (prologue_sameIds [] s)

theorem good_of_run {es : List Event} (hsafe : Runs.along step KeepsIds s es)
    (h : Good (fun _ => False) s) (hrun : Runs.run step s es = some t) :
    Good (fun _ => False) t :=
  Runs.invariant_along (fun _ _ _ => step_good) h hsafe hrun

/-! ### The way back -/

/-- The device is away, and the identifier waits for it. -/
def Promised (k : UInt64) (id : UInt32) (s : MetaDataMgr) : Prop :=
  s.devIdMap.find? k = none ∧ s.oldDevIdMap.find? k = some id

/-- The loop over the devices touches no identifier in use. -/
theorem dropDevice_devIdMap (s : MetaDataMgr) (srcTag : UInt32)
    (files : UInt32 → UInt32 → Nat) (id : UInt32) :
    (s.dropDevice srcTag files id).devIdMap = s.devIdMap := by
  rcases dropDevice_cases s srcTag files id with ⟨-, heq⟩ | ⟨dev, -, -, heq⟩
  · rw [heq]
  · rw [heq]
    exact (upstreamDisconnected_sameIds s id dev (files id)).devIdMap

theorem dropLoop_devIdMap (srcTag : UInt32) (files : UInt32 → UInt32 → Nat)
    (ids : List UInt32) (s : MetaDataMgr) :
    (ids.foldl (dropDevice srcTag files) s).devIdMap = s.devIdMap := by
  induction ids generalizing s with
  | nil => rfl
  | cons id ids ih => rw [List.foldl_cons, ih, dropDevice_devIdMap]

/-- A claim to an identifier outlives the drop of other devices. -/
theorem dropDevice_oldDevIdMap {srcTag : UInt32} (h : Good (· >>> 32 = srcTag.toUInt64) s)
    {k : UInt64} {id : UInt32} (hold : s.oldDevIdMap.find? k = some id)
    (files : UInt32 → UInt32 → Nat) (id' : UInt32) :
    (s.dropDevice srcTag files id').oldDevIdMap.find? k = some id := by
  rcases dropDevice_cases s srcTag files id' with ⟨-, heq⟩ | ⟨dev, hdev, -, heq⟩
  · rw [heq]
    exact hold
  · have hsame := upstreamDisconnected_sameIds s id' dev (files id')
    rw [heq]
    simp only [moved, SortedMap.find?_set, hsame.oldDevIdMap, hold]
    split
    · -- the device was in both maps already, under one identifier
      subst k
      rw [(h.disjoint _ id' id (h.current id' dev.bare (bareAt_of_find? hdev)) hold).2]
    · rfl

theorem dropLoop_oldDevIdMap {srcTag : UInt32} {k : UInt64} {id : UInt32}
    (files : UInt32 → UInt32 → Nat) (ids : List UInt32)
    (h : Good (· >>> 32 = srcTag.toUInt64) s) (hold : s.oldDevIdMap.find? k = some id) :
    (ids.foldl (dropDevice srcTag files) s).oldDevIdMap.find? k = some id := by
  induction ids generalizing s with
  | nil => exact hold
  | cons i ids ih => exact ih (dropDevice_good h files i) (dropDevice_oldDevIdMap h hold files i)

/-- A device of the source whose turn comes is given a claim to its identifier. -/
theorem dropLoop_claims {srcTag : UInt32} {id : UInt32} {d : DeviceVariables}
    (files : UInt32 → UInt32 → Nat) (ids : List UInt32)
    (h : Good (· >>> 32 = srcTag.toUInt64) s) (hd : s.bareAt id = some d.bare)
    (hsrc : d.srcTag = srcTag) (hid : id ∈ ids) :
    (ids.foldl (dropDevice srcTag files) s).oldDevIdMap.find? d.key = some id := by
  induction ids generalizing s with
  | nil => cases hid
  | cons i ids ih =>
    have hnext := dropDevice_good h files i
    rcases dropDevice_cases s srcTag files i with ⟨hother, heq⟩ | ⟨dev, hdev, -, heq⟩
    · have hne : id ≠ i := fun hi => hother d.bare (hi ▸ hd) hsrc
      rw [List.foldl_cons, heq]
      exact ih h hd ((List.mem_cons.mp hid).resolve_left hne)
    · by_cases hi : id = i
      · subst hi
        refine dropLoop_oldDevIdMap files ids hnext ?_
        have hbare := Option.some.inj ((bareAt_of_find? hdev).symm.trans hd)
        have hkey : dev.key = d.key := by rw [← bare_key, hbare, bare_key]
        rw [heq]
        simp only [moved, SortedMap.find?_set, hkey, if_true]
      · refine ih hnext ?_ ((List.mem_cons.mp hid).resolve_left hi)
        rw [dropDevice_bareAt, if_neg hi]
        exact hd

/-- A dropped device has a claim to its identifier. -/
theorem dropSourceTag_promised (h : Good (fun _ => False) s) {srcTag id : UInt32}
    {d : DeviceVariables} (files : UInt32 → UInt32 → Nat) (hd : s.devices.find? id = some d)
    (hsrc : d.srcTag = srcTag) : Promised d.key id (s.dropSourceTag srcTag files) := by
  have hid : id ∈ s.devices.keys := by
    by_contra hnot
    rw [SortedMap.find?_eq_none.mpr hnot] at hd
    cases hd
  refine ⟨?_, dropLoop_claims files _ (h.weaken srcTag) (bareAt_of_find? hd) hsrc hid⟩
  have hleaving : d.key >>> 32 = srcTag.toUInt64 := deviceKey_shiftRight.mpr hsrc
  simp only [dropSourceTag, SortedMap.find?_filter, Option.filter_eq_none_iff]
  intro a _
  simp [hleaving]

/-- The claim lasts until the device is described again. -/
theorem step_promised (h : Good (fun _ => False) s) {e : Event} {srcTag dev id : UInt32}
    (hp : Promised (deviceKey srcTag dev) id s) (he : ¬ Describes srcTag dev e)
    (hstep : s.step e = some t) : Promised (deviceKey srcTag dev) id t := by
  obtain ⟨hcur, hold⟩ := hp
  have hsame : ∀ {u}, SameIds s u → Promised (deviceKey srcTag dev) id u := fun hu =>
    ⟨hu.devIdMap ▸ hcur, hu.oldDevIdMap ▸ hold⟩
  cases e with
  | descriptor inPkt srcTag' files =>
    obtain ⟨⟨mapped, reconnected, u⟩, halloc, rfl⟩ := Option.map_eq_some_iff.mp hstep
    have hne : deviceKey srcTag dev ≠ deviceKey srcTag' inPkt.devId := fun heq =>
      he ⟨(deviceKey_inj.mp heq).1.symm, (deviceKey_inj.mp heq).2.symm⟩
    have hmaps := describe_sameMaps u inPkt mapped srcTag' reconnected files
    suffices hu : Promised (deviceKey srcTag dev) id u from
      ⟨hmaps.devIdMap ▸ hu.1, hmaps.oldDevIdMap ▸ hu.2⟩
    rcases allocDev_cases h halloc with ⟨-, rfl⟩ | ⟨_, -, -, -, rfl⟩ | ⟨-, -, -, rfl⟩
    · exact ⟨hcur, hold⟩
    · simp only [Promised, reinstated, SortedMap.find?_set, SortedMap.find?_erase, if_neg hne]
      exact ⟨hcur, hold⟩
    · simp only [Promised, assigned, SortedMap.find?_set, if_neg hne]
      exact ⟨hcur, hold⟩
  | value inPkt srcTag' files =>
    exact Option.some.inj hstep ▸ hsame (updateValue_sameIds s inPkt srcTag' files)
  | drop srcTag' files =>
    obtain rfl := Option.some.inj hstep
    refine ⟨?_, dropLoop_oldDevIdMap files _ (h.weaken srcTag') hold⟩
    simp only [dropSourceTag, SortedMap.find?_filter, dropLoop_devIdMap, hcur, Option.filter_none]
  | prologue => exact Option.some.inj hstep ▸ hsame (prologue_sameIds [] s)

theorem promised_of_run {srcTag dev id : UInt32} {es : List Event}
    (hsafe : Runs.along step KeepsIds s es) (h : Good (fun _ => False) s)
    (hp : Promised (deviceKey srcTag dev) id s) (hes : ∀ e ∈ es, ¬ Describes srcTag dev e)
    (hrun : Runs.run step s es = some t) : Promised (deviceKey srcTag dev) id t := by
  induction es generalizing s with
  | nil => exact Option.some.inj hrun ▸ hp
  | cons e es ih =>
    obtain ⟨u, hu, hrest⟩ := Runs.run_cons hrun
    exact ih (hsafe.2 u hu) (step_good h hsafe.1 hu)
      (step_promised h hp (hes e List.mem_cons_self) hu)
      (fun e he => hes e (List.mem_cons_of_mem _ he)) hrest

/-- A device that comes back gets the identifier that waits for it, and no other device loses
    its entry. -/
theorem updateDescriptor_reclaims (h : Good (fun _ => False) s) {inPkt : DeviceDescriptorPkt}
    {srcTag id : UInt32} {files : Nat} (hp : Promised (deviceKey srcTag inPkt.devId) id s)
    (hstep : s.updateDescriptor inPkt srcTag files = some t) :
    t.devIdMap.find? (deviceKey srcTag inPkt.devId) = some id ∧
      ∀ id' d', s.devices.find? id' = some d' → d'.key ≠ deviceKey srcTag inPkt.devId →
        t.bareAt id' = some d'.bare := by
  obtain ⟨hcur, hold⟩ := hp
  obtain ⟨⟨mapped, reconnected, u⟩, halloc, rfl⟩ := Option.map_eq_some_iff.mp hstep
  rcases allocDev_cases h halloc with ⟨hcur', -⟩ | ⟨old, -, hold', hentry, rfl⟩ | ⟨-, hold', -⟩
  · rw [hcur] at hcur'
    cases hcur'
  · obtain rfl : id = mapped := Option.some.inj (hold.symm.trans hold')
    refine ⟨?_, fun id' d' hd' hne => ?_⟩
    · rw [(describe_sameMaps ..).devIdMap]
      simp only [reinstated, SortedMap.find?_set, if_true]
    · -- the identifier of a device that is there is in use, the one that waits is not
      have hid' : id' ≠ id := fun heq => h.not_active hold ((h.oneToOne.image id).mpr
        ⟨d'.key, heq ▸ h.current id' d'.bare (bareAt_of_find? hd')⟩)
      rw [describe_bareAt_of_ne _ inPkt srcTag reconnected files hid']
      simp only [bareAt, reinstated, SortedMap.find?_set, if_neg hid', hd', Option.map_some]
  · rw [hold] at hold'
    cases hold'

/-! ### Runs -/

/-- In a run in which every new device finds a free identifier, the devices have identifiers
    of their own, and get them back when they reconnect. -/
theorem wellMapped_of_run {es : List Event} (hsafe : Runs.along step KeepsIds init es)
    (hrun : Runs.run step init es = some s) : WellMapped s ∧ Reclaims es := by
  refine ⟨(good_of_run hsafe init_good hrun).wellMapped, ?_⟩
  rintro pre mid post srcTag files inPkt n rfl hmid s₀ s s' hpre hs hstep id d hd hkey
  obtain ⟨hsafe₀, hrest⟩ := Runs.along_append.mp hsafe
  have hsafe' := hrest s₀ hpre
  have hgood := good_of_run hsafe₀ init_good hpre
  obtain ⟨u, hu, hrun'⟩ := Runs.run_cons hs
  have hsafe_mid := (Runs.along_append.mp (hsafe'.2 u hu)).1
  have hgood_u := step_good hgood hsafe'.1 hu
  have hpromise : Promised d.key id u := by
    obtain rfl := Option.some.inj hu
    exact dropSourceTag_promised hgood files hd (deviceKey_inj.mp hkey).1
  rw [hkey] at hpromise ⊢
  exact updateDescriptor_reclaims (good_of_run hsafe_mid hgood_u hrun')
    (promised_of_run hsafe_mid hgood_u hpromise hmid hrun') hstep

def lamp : DeviceDescriptorPkt := ⟨1, 0, 0, 28, [0x6c]⟩

/-- The lamp is described, disconnects and comes back. -/
theorem wellMapped_of_run_reconnected :
    ∃ s, Runs.run step init
        [.descriptor lamp 2 0, .drop 2 fun _ _ => 1, .descriptor lamp 2 0] = some s ∧
      s.devIdMap.find? (deviceKey 2 1) = some 1 ∧ WellMapped s ∧
      Reclaims [.descriptor lamp 2 0, .drop 2 fun _ _ => 1, .descriptor lamp 2 0] := by
  have hdropped : (Runs.run step init [.descriptor lamp 2 0, .drop 2 fun _ _ => 1]).bind
      (·.oldDevIdMap.find? (deviceKey 2 1)) = some 1 := by decide +kernel
  have hback : (Runs.run step init
      [.descriptor lamp 2 0, .drop 2 fun _ _ => 1, .descriptor lamp 2 0]).bind
      (·.devIdMap.find? (deviceKey 2 1)) = some 1 := by decide +kernel
  obtain ⟨s, hrun, hid⟩ := Option.bind_eq_some_iff.mp hback
  refine ⟨s, hrun, hid, wellMapped_of_run ⟨fun _ _ => ?_, fun t ht => ⟨trivial, fun u hu =>
    ⟨fun _ hold => ?_, fun _ _ => trivial⟩⟩⟩ hrun⟩
  · exact ⟨1, le_rfl, by decide, Finset.notMem_empty 1, fun _ hle hlt =>
      absurd hlt (not_lt_of_ge hle), rfl⟩
  · -- the lamp is among the old devices then
    have hrun' : Runs.run step init [.descriptor lamp 2 0, .drop 2 fun _ _ => 1] = some u := by
      rw [Runs.run, ht, Option.bind_some, Runs.run, hu]
      rfl
    rw [hrun', Option.bind_some] at hdropped
    exact absurd (hdropped.symm.trans hold) (Option.some_ne_none 1)
/-! ### When the counter has wrapped -/

def motor : DeviceDescriptorPkt := ⟨1, 0, 0, 28, [0x6d]⟩

/-- The lamp of source 2 is away, and its identifier 1 waits for it. -/
def away (next : UInt32) (log : List StreamPkt) : MetaDataMgr where
  devices := SortedMap.empty
  oldDevices := SortedMap.empty.set 1 ⟨1, 2, lamp, SortedMap.empty⟩
  devIdMap := SortedMap.empty
  oldDevIdMap := SortedMap.empty.set (deviceKey 2 1) 1
  activeDevId := ∅
  nextMappedDevId := next
  stream := log
  prologues := []

/-- The motor of source 1 is described, undefined, and its source dropped. -/
def turnover : List Event :=
  [.descriptor motor 1 0, .descriptor ⟨1, 0, 0, 24, []⟩ 1 0, .drop 1 fun _ _ => 0]

/-- The motor is there, besides the lamp that is away. -/
def present (srcTag id : UInt32) (log : List StreamPkt) : MetaDataMgr :=
  { away (id + 1) (log ++ [.descriptor (motor.remapDeviceId id)]) with
    devices := SortedMap.empty.set id ⟨1, srcTag, motor.remapDeviceId id, SortedMap.empty⟩
    devIdMap := SortedMap.empty.set (deviceKey srcTag 1) id
    activeDevId := insert id ∅ }

theorem newMappedDevId_away (next : UInt32) (log : List StreamPkt) :
    (away next log).newMappedDevId = some (away next log).firstId :=
  newMappedDevId_of_firstId (Finset.notMem_empty _)

/-- The motor gets the next identifier. -/
theorem describe_motor (next srcTag : UInt32) (log : List StreamPkt) (hsrc : srcTag ≠ 2) :
    step (away next log) (.descriptor motor srcTag 0) =
      some (present srcTag (away next log).firstId log) := by
  have hkey : deviceKey srcTag 1 ≠ deviceKey 2 1 := fun h => hsrc (deviceKey_inj.mp h).1
  have hcur : (away next log).lookupMappedDeviceId 1 srcTag = 0 := rfl
  have hold : (away next log).lookupOldMappedDeviceId 1 srcTag = (0, false, away next log) := by
    simp [lookupOldMappedDeviceId, away, SortedMap.find?_set, hkey]
  simp only [step, updateDescriptor, allocDev, motor, hcur, hold, ne_eq, not_true_eq_false,
    if_false, newMappedDevId_away, Option.map_some]
  rfl

theorem run_turnover (next : UInt32) (log : List StreamPkt) (hpos : next ≠ 0)
    (hlt : next < 0x80000000) :
    Runs.run step (away next log) turnover =
      some (away (next + 1) (log ++ [.descriptor (motor.remapDeviceId next)])) := by
  have hfirst : (away next log).firstId = next :=
    if_neg (not_or.mpr ⟨hpos, not_le_of_gt hlt⟩)
  have hdescribe := describe_motor next 1 log (by decide)
  rw [hfirst] at hdescribe
  have hcur : (present 1 next log).lookupMappedDeviceId 1 1 = next := by
    simp [lookupMappedDeviceId, present, SortedMap.find?_set]
  -- the descriptor without devices removes the one there is, with its id kept in the map
  have hundefine : step (present 1 next log) (.descriptor ⟨1, 0, 0, 24, []⟩ 1 0) =
      some { present 1 next log with devices := SortedMap.empty } := by
    have hfind : (present 1 next log).devices.find? next = some
        ⟨1, 1, motor.remapDeviceId next, SortedMap.empty⟩ := by
      simp [present, SortedMap.find?_set]
    have herase : (present 1 next log).devices.erase next = SortedMap.empty :=
      SortedMap.erase_alter _ rfl
    simp [step, updateDescriptor, allocDev, describe, hcur, hpos, hfind, herase, motor,
      DeviceDescriptorPkt.remapDeviceId]
  -- the source's disconnect drops the id from the map, and the next is one more
  have hdrop : step { present 1 next log with devices := SortedMap.empty }
      (.drop 1 fun _ _ => 0) =
      some (away (next + 1) (log ++ [.descriptor (motor.remapDeviceId next)])) := by
    have hdevices : ((SortedMap.empty : SortedMap UInt32 DeviceVariables).keys.foldl
        (dropDevice 1 fun _ _ => 0) { present 1 next log with devices := SortedMap.empty }) =
        { present 1 next log with devices := SortedMap.empty } := rfl
    have hkey : ∀ k id, (present 1 next log).devIdMap.find? k = some id →
        k >>> 32 = (1 : UInt32).toUInt64 := fun k id hk => by
      simp only [present, SortedMap.find?_set] at hk
      split at hk
      · exact ‹k = _› ▸ deviceKey_shiftRight.mpr rfl
      · cases hk
    have hmap : (present 1 next log).devIdMap.filter
        (fun key _ => key >>> 32 ≠ (1 : UInt32).toUInt64) = SortedMap.empty :=
      SortedMap.filter_eq_empty fun k id hk => by simp [hkey k id hk]
    have hgone : (present 1 next log).devIdMap.filter
        (fun key _ => key >>> 32 = (1 : UInt32).toUInt64) = (present 1 next log).devIdMap :=
      SortedMap.filter_eq_self fun k id hk => by simp [hkey k id hk]
    have hactive : (present 1 next log).activeDevId \
        ((present 1 next log).devIdMap.entries.map Prod.snd).toFinset = ∅ :=
      Finset.sdiff_self _
    simp only [step, dropSourceTag, hdevices, hmap, hgone, hactive]
    rfl
  simp only [turnover, Runs.run, hdescribe, hundefine, hdrop, Option.bind_some]

theorem run_turnovers (n : Nat) (next : UInt32) (log : List StreamPkt) (hpos : next ≠ 0)
    (hlt : next.toNat + n ≤ 2 ^ 31) :
    ∃ log', Runs.run step (away next log) (List.replicate n turnover).flatten =
      some (away (UInt32.ofNat (next.toNat + n)) log') := by
  induction n generalizing next log with
  | zero => exact ⟨log, by simp⟩
  | succ n ih =>
    have hnext : (next + 1).toNat = next.toNat + 1 := by
      simp only [UInt32.toNat_add, UInt32.reduceToNat]
      omega
    have hturn := run_turnover next log hpos (UInt32.lt_iff_toNat_lt.mpr (by
      show next.toNat < 2147483648
      omega))
    obtain ⟨log', hlog⟩ := ih (next + 1) (log ++ [.descriptor (motor.remapDeviceId next)])
      (fun h0 => by rw [h0] at hnext; cases hnext) (by omega)
    refine ⟨log', ?_⟩
    rw [List.replicate_succ, List.flatten_cons, Runs.run_append, hturn, Option.bind_some, hlog,
      hnext, Nat.add_assoc, Nat.add_comm 1 n]

/-- The lamp disconnects, the counter wraps, a motor appears, and the lamp comes back. -/
def wrapped : List Event :=
  [.descriptor lamp 2 0, .drop 2 fun _ _ => 0] ++
    (List.replicate (2 ^ 31 - 2) turnover).flatten ++
    [.descriptor motor 3 0, .descriptor lamp 2 0]

/-- The lamp takes the entry of the motor, and both have the identifier 1. -/
theorem not_wellMapped_of_wrapped :
    ∃ s, Runs.run step init wrapped = some s ∧ s.devIdMap.find? (deviceKey 3 1) = some 1 ∧
      s.devIdMap.find? (deviceKey 2 1) = some 1 ∧
      s.bareAt 1 = some ⟨1, 2, lamp, SortedMap.empty⟩ ∧ ¬ WellMapped s := by
  have hstart : Runs.run step init [.descriptor lamp 2 0, .drop 2 fun _ _ => 0] =
      some (away 2 [.descriptor lamp]) := by decide +kernel
  obtain ⟨log, hturns⟩ := run_turnovers (2 ^ 31 - 2) 2 [.descriptor lamp] (by decide) (by decide)
  have hmotor := describe_motor 0x80000000 3 log (by decide)
  have hfirst : (away 0x80000000 log).firstId = 1 := if_pos (.inr le_rfl)
  rw [hfirst] at hmotor
  obtain ⟨s, hlamp, h3, h2, h1⟩ : ∃ s, step (present 3 1 log) (.descriptor lamp 2 0) = some s ∧
      s.devIdMap.find? (deviceKey 3 1) = some 1 ∧ s.devIdMap.find? (deviceKey 2 1) = some 1 ∧
      s.bareAt 1 = some ⟨1, 2, lamp, SortedMap.empty⟩ := by
    refine ⟨_, rfl, ?_, ?_, ?_⟩ <;> rfl
  refine ⟨s, ?_, h3, h2, h1, fun hs => ?_⟩
  · rw [wrapped, Runs.run_append, Runs.run_append, hstart, Option.bind_some, hturns,
      Option.bind_some]
    show (step (away 0x80000000 log) _).bind _ = _
    rw [hmotor, Option.bind_some]
    show (step _ _).bind _ = _
    rw [hlamp]
    rfl
  · have hsame := hs.injective _ _ 1 h3 h2
    exact absurd hsame (by decide)

end Adara.Native.MetaDataMgr
