import Adara.Native.PVRegistry

/-! # The registry follows the descriptors

After a descriptor every key it lists is mapped to a variable with the definition that the
descriptor gives, no two variables of the list have one definition, every cross reference is to
a key in use, and reading the descriptor again adds no variable (`Follows`).

The last two hold after any descriptors.  The first and the last ask that the descriptor's keys
differ, that a variable whose `device:name:connection` is that of an earlier one is known, and
that each of its enumerations is the latest of its name (`Clear`): the code takes the last
enumeration of a name for the one that was just added, which it is not where a device goes back
to an enumeration it has used before. -/

namespace Adara.Spec.PVRegistry

open Adara.Native Adara.Native.PVRegistry

variable {r s : PVRegistry} {p q d : PVInfoBase}
  {makePVInfo : List PVInfoBase → PVInfoBase → Option PVInfoBase}

/-! ### Definitions -/

theorem sameEnum_iff {a b : PVEnumeratedType} : a.sameEnum b true = true ↔ a = b := by
  cases a; cases b
  simp [PVEnumeratedType.sameEnum, and_assoc]

theorem sameDefinition_iff : p.sameDefinition q = true ↔
    { p with deviceId := 0, pvId := 0 } = { q with deviceId := 0, pvId := 0 } := by
  cases p with | mk _ _ _ _ _ _ enum _ _ =>
  cases q with | mk _ _ _ _ _ _ enum' _ _ =>
  cases enum <;> cases enum' <;>
    simp [PVInfoBase.sameDefinition, PVInfoBase.sameDefinitionPVConn, PVInfoBase.diffEnum,
      sameEnum_iff, and_assoc]

theorem sameDefinition_refl (p : PVInfoBase) : p.sameDefinition p = true :=
  sameDefinition_iff.mpr rfl

theorem sameDefinition_trans (h : p.sameDefinition q = true) (h' : q.sameDefinition d = true) :
    p.sameDefinition d = true :=
  sameDefinition_iff.mpr ((sameDefinition_iff.mp h).trans (sameDefinition_iff.mp h'))

theorem xrefName_of_same (h : p.sameDefinition q = true) : p.xrefName = q.xrefName := by
  have heq := congrArg PVInfoBase.xrefName (sameDefinition_iff.mp h)
  exact heq

/-! ### What is claimed of a descriptor -/

/-- The definitions a descriptor gives: the enumeration of a variable is the last of its name
    among those of the descriptor before it. -/
def listed (devId : UInt32) :
    List Char → List PVEnumeratedType → List DescriptorElement → List PVInfoBase
  | _, _, [] => []
  | _, enums, .deviceName name :: es => listed devId name enums es
  | deviceName, enums, .enumeration name elements :: es =>
    listed devId deviceName (enums ++ (enumerationOf name elements).toList) es
  | deviceName, enums, .variable v :: es =>
    (v.definition devId deviceName enums).toList ++ listed devId deviceName enums es

/-- The variables of a descriptor. -/
def listing (pkt : DeviceDescriptor) : List PVInfoBase := listed pkt.devId [] [] pkt.elements

/-- The key of a definition is mapped to a variable with this definition. -/
def Mapped (r : PVRegistry) (d : PVInfoBase) : Prop :=
  ∃ p, r.at? d.key = some p ∧ p.sameDefinition d = true

/-- The registry after a descriptor. -/
structure Follows (makePVInfo : List PVInfoBase → PVInfoBase → Option PVInfoBase)
    (pkt : DeviceDescriptor) (r : PVRegistry) : Prop where
  mapped : ∀ d ∈ listing pkt, Mapped r d
  distinct : r.pvsList.Pairwise fun p q => p.sameDefinition q = false
  xref : ∀ name key, r.pvsByNameXref name = some key → r.pvsByKey key ≠ none
  again : (r.rxPacket makePVInfo pkt).pvsList = r.pvsList

/-- `makePVInfo` returns an object with exactly the requested definition. -/
def MakesRequested (makePVInfo : List PVInfoBase → PVInfoBase → Option PVInfoBase) : Prop :=
  ∀ pvs d, ∃ p, makePVInfo pvs d = some p ∧ p.sameDefinition d = true

/-- Every variable with an enumerated type comes after its enumeration. -/
def EnumsFirst (pkt : DeviceDescriptor) : Prop :=
  ∀ d ∈ listing pkt, d.type = .enum → d.enumType ≠ none

instance (pkt : DeviceDescriptor) : Decidable (EnumsFirst pkt) :=
  inferInstanceAs (Decidable (∀ d ∈ listing pkt, d.type = .enum → d.enumType ≠ none))

/-! ### The invariant -/

/-- A variable with this definition is in the list. -/
def Known (r : PVRegistry) (d : PVInfoBase) : Prop := ∃ p ∈ r.pvsList, p.sameDefinition d = true

instance (r : PVRegistry) (d : PVInfoBase) : Decidable (Known r d) :=
  inferInstanceAs (Decidable (∃ p ∈ r.pvsList, p.sameDefinition d = true))

structure Inv (r : PVRegistry) : Prop where
  place : ∀ k i, r.pvsByKey k = some i → i < r.pvsList.length
  xref : ∀ n k, r.pvsByNameXref n = some k → ∃ p, r.at? k = some p ∧ p.xrefName = n
  distinct : r.pvsList.Pairwise fun p q => p.sameDefinition q = false
  enums : ∀ devId, (r.enumsByDev devId).Nodup

theorem findSame_eq_some {i : Nat} (h : r.findSame d = some i) :
    ∃ p, r.pvsList[i]? = some p ∧ p.sameDefinition d = true := by
  obtain ⟨hlt, hsame, -⟩ := List.findIdx?_eq_some_iff_getElem.mp h
  exact ⟨_, List.getElem?_eq_getElem hlt, hsame⟩

theorem findSame_eq_none (h : r.findSame d = none) : ¬ Known r d := by
  rintro ⟨p, hp, hsame⟩
  rw [List.findIdx?_eq_none_iff.mp h p hp] at hsame
  exact Bool.noConfusion hsame

/-- No cross reference to the key of a definition is from another name. -/
def Free (r : PVRegistry) (d : PVInfoBase) : Prop :=
  ∀ n, r.pvsByNameXref n = some d.key → n = d.xrefName

/-! ### Assigned keys -/

theorem at?_assign_self {i : Nat} (hp : r.pvsList[i]? = some p) :
    (r.assign d i).at? d.key = some p := by
  simpa [at?, assign] using hp

theorem at?_assign_of_ne {k : PVKey} (hk : k ≠ d.key) (i : Nat) :
    (r.assign d i).at? k = r.at? k := by
  simp [at?, assign, hk]

theorem assign_inv (h : Inv r) (hfree : Free r d) {i : Nat} (hp : r.pvsList[i]? = some p)
    (hsame : p.sameDefinition d = true) : Inv (r.assign d i) := by
  refine ⟨?_, ?_, h.distinct, h.enums⟩
  · intro k j hj
    by_cases hk : k = d.key
    · subst hk
      obtain rfl : i = j := by simpa [assign] using hj
      exact (List.getElem?_eq_some_iff.mp hp).1
    · exact h.place k j (by simpa [assign, hk] using hj)
  · intro n k hn
    by_cases hname : n = d.xrefName
    · subst hname
      obtain rfl : d.key = k := by simpa [assign] using hn
      exact ⟨p, at?_assign_self hp, xrefName_of_same hsame⟩
    · have hn : r.pvsByNameXref n = some k := by simpa [assign, hname] using hn
      have hk : k ≠ d.key := by
        rintro rfl
        exact hname (hfree n hn)
      rw [at?_assign_of_ne hk]
      exact h.xref n k hn

/-- A variable that is new in the list. -/
theorem add_inv (h : Inv r) (hp : p.sameDefinition d = true) (hnew : ¬ Known r d) :
    Inv { r with pvsList := r.pvsList ++ [p] } := by
  refine ⟨?_, ?_, ?_, h.enums⟩
  · intro k i hi
    rw [List.length_append]
    exact Nat.lt_add_right _ (h.place k i hi)
  · intro n k hn
    obtain ⟨q, hq, hname⟩ := h.xref n k hn
    obtain ⟨i, hi, hget⟩ := Option.bind_eq_some_iff.mp hq
    refine ⟨q, Option.bind_eq_some_iff.mpr ⟨i, hi, ?_⟩, hname⟩
    rw [List.getElem?_append_left (h.place k i hi)]
    exact hget
  · rw [List.pairwise_append]
    refine ⟨h.distinct, List.pairwise_singleton _ _, ?_⟩
    intro q hq x hx
    obtain rfl := List.mem_singleton.mp hx
    exact eq_false_of_ne_true fun hsame => hnew ⟨q, hq, sameDefinition_trans hsame hp⟩

/-! ### Erased entries -/

theorem Inv.eraseXref (h : Inv r) (name : List Char) : Inv (r.eraseXref name) := by
  refine ⟨h.place, ?_, h.distinct, h.enums⟩
  intro n k hn
  by_cases hname : n = name
  · simp [PVRegistry.eraseXref, hname] at hn
  · exact h.xref n k (by simpa [PVRegistry.eraseXref, hname] using hn)

theorem at?_eraseKey_of_ne {k k' : PVKey} (h : k' ≠ k) : (r.eraseKey k).at? k' = r.at? k' := by
  simp [at?, eraseKey, h]

/-- A key may go with the name of its variable. -/
theorem Inv.eraseKey (h : Inv r) {k : PVKey} (hp : r.at? k = some p) :
    Inv ((r.eraseKey k).eraseXref p.xrefName) := by
  refine ⟨?_, ?_, h.distinct, h.enums⟩
  · intro k' i hi
    by_cases hk : k' = k
    · simp [PVRegistry.eraseKey, PVRegistry.eraseXref, hk] at hi
    · exact h.place k' i (by simpa [PVRegistry.eraseKey, PVRegistry.eraseXref, hk] using hi)
  · intro n k' hn
    by_cases hname : n = p.xrefName
    · simp [PVRegistry.eraseXref, hname] at hn
    · obtain ⟨q, hq, hqn⟩ := h.xref n k'
        (by simpa [PVRegistry.eraseKey, PVRegistry.eraseXref, hname] using hn)
      have hk : k' ≠ k := by
        rintro rfl
        rw [hp] at hq
        obtain rfl := Option.some.inj hq
        exact hname hqn.symm
      exact ⟨q, (at?_eraseKey_of_ne hk).trans hq, hqn⟩

/-! ### One variable of a descriptor -/

/-- What becomes of the registry with a variable of a descriptor: the key is mapped to its
    definition, and another key is lost only if it is that of the same name and the definition
    is new. -/
structure Stepped (r r' : PVRegistry) (d : PVInfoBase) : Prop where
  inv : Inv r'
  mapped : Mapped r' d
  grown : ∃ added, r'.pvsList = r.pvsList ++ added
  enums : r'.enumsByDev = r.enumsByDev
  others : ∀ k, k ≠ d.key →
    r'.at? k = r.at? k ∨ r.pvsByNameXref d.xrefName = some k ∧ ¬ Known r d

theorem assign_stepped (h : Inv r) (hfree : Free r d) {i : Nat} (hp : r.pvsList[i]? = some p)
    (hsame : p.sameDefinition d = true) : Stepped r (r.assign d i) d :=
  ⟨assign_inv h hfree hp hsame, ⟨p, at?_assign_self hp, hsame⟩, ⟨[], (List.append_nil _).symm⟩,
    rfl, fun _ hk => .inl (at?_assign_of_ne hk i)⟩

theorem create_stepped (hmake : MakesRequested makePVInfo) (h : Inv r) (hfree : Free r d)
    (hnew : ¬ Known r d) (failed : PVRegistry) :
    Stepped r (r.create makePVInfo d failed) d := by
  obtain ⟨p, hp, hsame⟩ := hmake r.pvsList d
  have hlast : (r.pvsList ++ [p])[r.pvsList.length]? = some p := by simp
  have hadded := add_inv h hsame hnew
  have hstep := assign_stepped hadded hfree hlast hsame
  rw [create, hp]
  refine ⟨hstep.inv, hstep.mapped, ⟨[p], rfl⟩, rfl, fun k hk => .inl ?_⟩
  rw [at?_assign_of_ne hk]
  cases hkey : r.pvsByKey k with
  | none => simp [at?, hkey]
  | some i => simp [at?, hkey, List.getElem?_append_left (h.place k i hkey)]

/-- The definition is looked for in the list, or else made. -/
theorem replaced_stepped (hmake : MakesRequested makePVInfo) (h : Inv r) (hfree : Free r d)
    (failed : PVRegistry) :
    Stepped r (match r.findSame d with
      | some j => r.assign d j
      | none => r.create makePVInfo d failed) d := by
  cases hfind : r.findSame d with
  | some j =>
    obtain ⟨q, hq, hsame⟩ := findSame_eq_some hfind
    exact assign_stepped h hfree hq hsame
  | none => exact create_stepped hmake h hfree (findSame_eq_none hfind) failed

theorem Inv.free (h : Inv r) (hp : r.at? d.key = some p) (hname : p.xrefName = d.xrefName) :
    Free r d := by
  intro n hn
  obtain ⟨q, hq, hqn⟩ := h.xref n d.key hn
  rw [hp] at hq
  obtain rfl := Option.some.inj hq
  exact hqn.symm.trans hname

theorem newKey_stepped (hmake : MakesRequested makePVInfo) (h : Inv r)
    (hkey : r.pvsByKey d.key = none) : Stepped r (r.newKey makePVInfo d) d := by
  have hfree : Free r d := by
    intro n hn
    obtain ⟨p, hp, -⟩ := h.xref n d.key hn
    simp [at?, hkey] at hp
  rw [newKey]
  cases hxref : r.pvsByNameXref d.xrefName with
  | none =>
    exact replaced_stepped hmake h hfree r
  | some k =>
    obtain ⟨p, hp, hname⟩ := h.xref _ k hxref
    obtain ⟨i, hi, hget⟩ := Option.bind_eq_some_iff.mp hp
    simp only [hi, hget, Option.any_some]
    split
    · next hsame => exact assign_stepped h hfree hget hsame
    · cases hfind : r.findSame d with
      | some j =>
        obtain ⟨q, hq, hsame⟩ := findSame_eq_some hfind
        exact assign_stepped h hfree hq hsame
      | none =>
        have hnew := findSame_eq_none hfind
        -- The other key of this name goes.
        have herased := h.eraseKey hp
        rw [hname] at herased
        have hfree' : Free ((r.eraseKey k).eraseXref d.xrefName) d := by
          intro n hn
          by_cases hn' : n = d.xrefName
          · exact hn'
          · exact hfree n (by simpa [PVRegistry.eraseKey, PVRegistry.eraseXref, hn'] using hn)
        have hstep := create_stepped hmake herased hfree' hnew
          ((r.eraseKey k).eraseXref d.xrefName)
        refine ⟨hstep.inv, hstep.mapped, hstep.grown, hstep.enums, fun k' hk' => ?_⟩
        by_cases hkk : k' = k
        · subst hkk
          exact .inr ⟨hxref, hnew⟩
        · rcases hstep.others k' hk' with heq | ⟨hn, -⟩
          · exact .inl (heq.trans (at?_eraseKey_of_ne hkk))
          · simp [PVRegistry.eraseXref] at hn

theorem keyInUse_stepped (hmake : MakesRequested makePVInfo) (h : Inv r) {i : Nat}
    (hkey : r.pvsByKey d.key = some i) : Stepped r (r.keyInUse makePVInfo d i) d := by
  obtain ⟨p, hget⟩ : ∃ p, r.pvsList[i]? = some p :=
    ⟨_, List.getElem?_eq_getElem (h.place _ i hkey)⟩
  have hat : r.at? d.key = some p := Option.bind_eq_some_iff.mpr ⟨i, hkey, hget⟩
  rw [keyInUse, hget]
  dsimp only
  by_cases hsame : p.sameDefinition d = true
  · rw [if_pos hsame]
    exact ⟨h, ⟨p, hat, hsame⟩, ⟨[], (List.append_nil _).symm⟩, rfl, fun _ _ => .inl rfl⟩
  rw [if_neg hsame]
  by_cases hnames : d.deviceName ≠ p.deviceName ∨ d.name ≠ p.name ∨ d.connection ≠ p.connection
  · -- The name changed, and its cross reference goes.
    simp only [if_pos hnames]
    have hfree : Free (r.eraseXref p.xrefName) d := by
      intro n hn
      by_cases hname : n = p.xrefName
      · simp [PVRegistry.eraseXref, hname] at hn
      · obtain ⟨q, hq, hqn⟩ := h.xref n d.key (by simpa [PVRegistry.eraseXref, hname] using hn)
        rw [hat] at hq
        obtain rfl := Option.some.inj hq
        exact absurd hqn.symm hname
    have hstep := replaced_stepped hmake (h.eraseXref p.xrefName) hfree
      ((r.eraseXref p.xrefName).eraseKey d.key)
    refine ⟨hstep.inv, hstep.mapped, hstep.grown, hstep.enums, fun k hk => ?_⟩
    refine (hstep.others k hk).imp id fun hn => ⟨?_, hn.2⟩
    by_cases hname : d.xrefName = p.xrefName
    · simp [PVRegistry.eraseXref, hname] at hn
    · simpa [PVRegistry.eraseXref, hname] using hn.1
  · have hname : p.xrefName = d.xrefName := by
      simp only [ne_eq, not_or, not_not] at hnames
      simp only [PVInfoBase.xrefName, hnames]
    simp only [if_neg hnames]
    exact replaced_stepped hmake h (h.free hat hname) (r.eraseKey d.key)

/-- What becomes of the registry with a variable of a descriptor. -/
theorem rxVariable_stepped (hmake : MakesRequested makePVInfo) (h : Inv r) (d : PVInfoBase) :
    Stepped r (r.rxVariable makePVInfo d) d := by
  rw [rxVariable]
  cases hkey : r.pvsByKey d.key with
  | none => exact newKey_stepped hmake h hkey
  | some i => exact keyInUse_stepped hmake h hkey

/-- A variable that is mapped to its definition changes nothing. -/
theorem rxVariable_of_mapped (h : Mapped r d) : r.rxVariable makePVInfo d = r := by
  obtain ⟨p, hp, hsame⟩ := h
  obtain ⟨i, hi, hget⟩ := Option.bind_eq_some_iff.mp hp
  rw [rxVariable, hi]
  simp only [keyInUse, hget, hsame, if_true]

/-! ### Enumerations -/

section Enumerations

variable {e : PVEnumeratedType} {enums all : List PVEnumeratedType} {name : List Char}

theorem addEnum_eq (enums : List PVEnumeratedType) (e : PVEnumeratedType) :
    addEnum enums e = if e ∈ enums then enums else enums ++ [e] := by
  have hany : enums.any (·.sameEnum e true) = true ↔ e ∈ enums := by
    simp [List.any_eq_true, sameEnum_iff]
  by_cases h : e ∈ enums
  · rw [addEnum, if_pos (hany.mpr h), if_pos h]
  · rw [addEnum, if_neg (mt hany.mp h), if_neg h]

theorem prefix_addEnum (enums : List PVEnumeratedType) (e : PVEnumeratedType) :
    enums <+: addEnum enums e := by
  rw [addEnum_eq]
  split
  · exact List.prefix_rfl
  · exact List.prefix_append _ _

theorem mem_addEnum (enums : List PVEnumeratedType) (e : PVEnumeratedType) :
    e ∈ addEnum enums e := by
  rw [addEnum_eq]
  split
  · assumption
  · simp

theorem nodup_addEnum (h : enums.Nodup) (e : PVEnumeratedType) : (addEnum enums e).Nodup := by
  rw [addEnum_eq]
  split
  · exact h
  · next hmem =>
    rw [List.nodup_append]
    refine ⟨h, List.pairwise_singleton _ e, fun a ha b hb => ?_⟩
    obtain rfl := List.mem_singleton.mp hb
    exact fun heq => hmem (heq ▸ ha)

/-- The enumerations of a device, with some that are taken in. -/
def addEnums (enums added : List PVEnumeratedType) : List PVEnumeratedType :=
  added.foldl addEnum enums

theorem prefix_addEnums (enums added : List PVEnumeratedType) : enums <+: addEnums enums added := by
  induction added generalizing enums with
  | nil => exact List.prefix_rfl
  | cons e added ih => exact (prefix_addEnum enums e).trans (ih (addEnum enums e))

theorem nodup_addEnums (h : enums.Nodup) (added : List PVEnumeratedType) :
    (addEnums enums added).Nodup := by
  induction added generalizing enums with
  | nil => exact h
  | cons e added ih => exact ih (nodup_addEnum h e)

theorem mem_addEnums {added : List PVEnumeratedType} (h : e ∈ added) :
    e ∈ addEnums enums added := by
  induction added generalizing enums with
  | nil => cases h
  | cons a added ih =>
    rcases List.mem_cons.mp h with rfl | h
    · exact (prefix_addEnums (addEnum enums e) added).subset (mem_addEnum enums e)
    · exact ih h

theorem enumNamed_eq_some (h : enumNamed enums name = some e) : e ∈ enums ∧ e.name = name := by
  have hmem := List.mem_of_getLast? h
  exact ⟨List.mem_of_mem_filter hmem, by simpa using List.of_mem_filter hmem⟩

/-- The latest enumeration of a name was the latest when it was already there. -/
theorem enumNamed_of_prefix (hearlier : enums <+: all) (hnodup : all.Nodup) (hmem : e ∈ enums)
    (h : enumNamed all e.name = some e) : enumNamed enums e.name = some e := by
  obtain ⟨later, rfl⟩ := hearlier
  rw [enumNamed, List.filter_append] at h
  rw [enumNamed]
  cases hlater : later.filter fun f => f.name == e.name with
  | nil => rwa [hlater, List.append_nil] at h
  | cons f fs =>
    rw [hlater, List.getLast?_append, List.getLast?_cons, Option.some_or] at h
    have hlast : e ∈ f :: fs := by
      rw [← Option.some.inj h]
      exact List.mem_of_getLast? List.getLast?_cons
    rw [← hlater] at hlast
    have hdisjoint := (List.nodup_append.mp hnodup).2.2
    exact absurd rfl (hdisjoint e hmem e (List.mem_of_mem_filter hlast))

/-- A definition is as the descriptor gives it if its enumeration is the latest of its name. -/
theorem definition_congr {v : VariableElement} {devId : UInt32} {deviceName : List Char}
    (h : ∀ d ∈ v.definition devId deviceName enums, (d.type = .enum → d.enumType ≠ none) ∧
      ∀ e ∈ d.enumType, enumNamed all e.name = some e) :
    v.definition devId deviceName all = v.definition devId deviceName enums := by
  obtain ⟨name, connection, _ | pvId, _ | ⟨type, text⟩, units, ignore⟩ := v
  · rfl
  · rfl
  · rfl
  · simp only [VariableElement.definition] at h ⊢
    by_cases hnone : (name.isNone && connection.isNone) = true
    · rw [if_pos hnone, if_pos hnone]
    · rw [if_neg hnone] at h ⊢
      by_cases htype : type = .enum
      · obtain ⟨hfound, hlatest⟩ := h _ rfl
        simp only [htype, if_true, forall_const] at hfound hlatest
        obtain ⟨e, he⟩ := Option.ne_none_iff_exists'.mp hfound
        have hall := hlatest e he
        rw [(enumNamed_eq_some he).2] at hall
        rw [if_neg hnone, hall, he]
      · rw [if_neg hnone, if_neg htype, if_neg htype]

theorem mem_of_definition {v : VariableElement} {devId : UInt32} {deviceName : List Char}
    (hd : v.definition devId deviceName enums = some d) (he : d.enumType = some e) :
    e ∈ enums := by
  obtain ⟨name, connection, _ | pvId, _ | ⟨type, text⟩, units, ignore⟩ := v
  · cases hd
  · cases hd
  · cases hd
  · simp only [VariableElement.definition] at hd
    split at hd
    · cases hd
    · obtain rfl := Option.some.inj hd
      dsimp only at he
      split at he
      · exact (enumNamed_eq_some he).1
      · cases he

end Enumerations

/-! ### The elements of a descriptor -/

/-- The enumerations of a descriptor. -/
def enumsOf (es : List DescriptorElement) : List PVEnumeratedType :=
  es.filterMap fun
    | .enumeration name elements => enumerationOf name elements
    | _ => none

/-- Every element keeps the invariant. -/
theorem rxElement_inv (hmake : MakesRequested makePVInfo) (devId : UInt32)
    {t : List Char × PVRegistry} (h : Inv t.2) (e : DescriptorElement) :
    Inv (rxElement makePVInfo devId t e).2 := by
  cases e with
  | deviceName name => exact h
  | enumeration name elements =>
    rw [rxElement]
    cases enumerationOf name elements with
    | none => exact h
    | some e =>
      refine ⟨h.place, h.xref, h.distinct, fun dev => ?_⟩
      by_cases hdev : dev = devId
      · subst hdev
        simpa using nodup_addEnum (h.enums dev) e
      · simpa [hdev] using h.enums dev
  | «variable» v =>
    rw [rxElement]
    cases v.definition devId t.1 (t.2.enumsByDev devId) with
    | none => exact h
    | some d => exact (rxVariable_stepped hmake h d).inv

theorem elements_inv (hmake : MakesRequested makePVInfo) (devId : UInt32)
    (es : List DescriptorElement) {t : List Char × PVRegistry} (h : Inv t.2) :
    Inv (es.foldl (rxElement makePVInfo devId) t).2 := by
  induction es generalizing t with
  | nil => exact h
  | cons e es ih => exact ih (rxElement_inv hmake devId h e)

/-- No descriptors at all. -/
theorem init_inv : Inv init := ⟨nofun, nofun, .nil, fun _ => .nil⟩

theorem rxPackets_inv (hmake : MakesRequested makePVInfo) (pkts : List DeviceDescriptor) :
    Inv (rxPackets makePVInfo pkts) := by
  have hfold : ∀ (pkts : List DeviceDescriptor) {r : PVRegistry}, Inv r →
      Inv (pkts.foldl (rxPacket makePVInfo) r) := by
    intro pkts
    induction pkts with
    | nil => exact id
    | cons pkt pkts ih => exact fun h => ih (elements_inv hmake pkt.devId pkt.elements h)
  exact hfold pkts init_inv

/-- What the descriptor says of its variables is what the code takes from it. -/
def Latest (all : List PVEnumeratedType) (ds : List PVInfoBase) : Prop :=
  ∀ d ∈ ds, (d.type = .enum → d.enumType ≠ none) ∧
    ∀ e ∈ d.enumType, enumNamed all e.name = some e

/-- No variable takes the key of one before it: the keys differ, and a variable with the name of
    one before it is known. -/
structure Apart (r : PVRegistry) (ds : List PVInfoBase) : Prop where
  keys : (ds.map (·.key)).Nodup
  names : ds.Pairwise fun c d => c.xrefName = d.xrefName → Known r d

/-- Definitions stay mapped with the next variable. -/
theorem mapped_rxVariable (hmake : MakesRequested makePVInfo) (h : Inv r) {done : List PVInfoBase}
    (hdone : ∀ c ∈ done, Mapped r c) (hapart : Apart r (done ++ [d])) :
    ∀ c ∈ done ++ [d], Mapped (r.rxVariable makePVInfo d) c := by
  have hstep := rxVariable_stepped hmake h d
  intro c hc
  rcases List.mem_append.mp hc with hc | hc
  · obtain ⟨p, hp, hsame⟩ := hdone c hc
    have hkeys := hapart.keys
    rw [List.map_append, List.nodup_append] at hkeys
    have hkey : c.key ≠ d.key := hkeys.2.2 _ (List.mem_map_of_mem hc) _ (by simp)
    rcases hstep.others c.key hkey with heq | ⟨hxref, hnew⟩
    · exact ⟨p, heq.trans hp, hsame⟩
    · -- The key was that of the same name, so that the definition is known.
      obtain ⟨q, hq, hname⟩ := h.xref _ _ hxref
      rw [hp] at hq
      obtain rfl := Option.some.inj hq
      have hnames := (List.pairwise_append.mp hapart.names).2.2 c hc d (by simp)
      exact absurd (hnames ((xrefName_of_same hsame).symm.trans hname)) hnew
  · obtain rfl := List.mem_singleton.mp hc
    exact hstep.mapped

theorem Known.grown (h : Known r d) {added : List PVInfoBase}
    (hgrown : s.pvsList = r.pvsList ++ added) : Known s d := by
  obtain ⟨p, hp, hsame⟩ := h
  exact ⟨p, by rw [hgrown]; exact List.mem_append_left _ hp, hsame⟩

/-- What the code takes from a variable of the descriptor. -/
theorem definition_of_latest {devId : UInt32} {es : List DescriptorElement}
    {deviceName : List Char} {enums : List PVEnumeratedType} {v : VariableElement} (h : Inv r)
    (henums : ∀ e ∈ enums, e ∈ r.enumsByDev devId) {added : List PVEnumeratedType}
    (hlatest : Latest (addEnums (r.enumsByDev devId) added)
      (listed devId deviceName enums (.variable v :: es))) :
    v.definition devId deviceName (r.enumsByDev devId) = v.definition devId deviceName enums := by
  apply definition_congr
  intro d hd
  obtain ⟨hfirst, hall⟩ := hlatest d (by
    rw [listed, Option.mem_def.mp hd]
    exact List.mem_append_left _ (by simp))
  refine ⟨hfirst, fun e he => ?_⟩
  exact enumNamed_of_prefix (prefix_addEnums _ _) (nodup_addEnums (h.enums devId) _)
    (henums e (mem_of_definition hd he)) (hall e he)

theorem Apart.left {ds ds' : List PVInfoBase} (h : Apart r (ds ++ ds')) : Apart r ds :=
  ⟨h.keys.sublist ((List.sublist_append_left _ _).map _), (List.pairwise_append.mp h.names).1⟩

theorem Apart.grown {ds : List PVInfoBase} (h : Apart r ds) {added : List PVInfoBase}
    (hgrown : s.pvsList = r.pvsList ++ added) : Apart s ds :=
  ⟨h.keys, h.names.imp fun hnames heq => (hnames heq).grown hgrown⟩

/-- After the elements, the definitions they list are mapped. -/
theorem elements_mapped (hmake : MakesRequested makePVInfo) (devId : UInt32)
    (es : List DescriptorElement) {deviceName : List Char} {enums : List PVEnumeratedType}
    {done : List PVInfoBase} (h : Inv r) (henums : ∀ e ∈ enums, e ∈ r.enumsByDev devId)
    (hlatest : Latest (addEnums (r.enumsByDev devId) (enumsOf es))
      (listed devId deviceName enums es))
    (hapart : Apart r (done ++ listed devId deviceName enums es))
    (hdone : ∀ c ∈ done, Mapped r c) :
    let r' := (es.foldl (rxElement makePVInfo devId) (deviceName, r)).2
    (∀ d ∈ done ++ listed devId deviceName enums es, Mapped r' d) ∧
      r'.enumsByDev devId = addEnums (r.enumsByDev devId) (enumsOf es) := by
  -- on the elements, with those definitions that are mapped already as `done`
  induction es generalizing r deviceName enums done with
  | nil => exact ⟨by simpa [listed] using hdone, rfl⟩
  | cons e es ih =>
    have hinv := rxElement_inv hmake devId (t := (deviceName, r)) h e
    cases e with
    | deviceName name => exact ih h henums hlatest hapart hdone
    | enumeration name elements =>
      rw [List.foldl_cons]
      rw [rxElement] at hinv ⊢
      rw [listed] at hlatest hapart ⊢
      cases he : enumerationOf name elements with
      | none =>
        have hrest : enumsOf (.enumeration name elements :: es) = enumsOf es := by
          simp [enumsOf, he]
        rw [hrest] at hlatest ⊢
        rw [he] at hlatest hapart
        simp only [Option.toList_none, List.append_nil] at hlatest hapart ⊢
        exact ih h henums hlatest hapart hdone
      | some e =>
        have hrest : addEnums (r.enumsByDev devId) (enumsOf (.enumeration name elements :: es)) =
            addEnums (addEnum (r.enumsByDev devId) e) (enumsOf es) := by
          simp [enumsOf, he, addEnums]
        rw [hrest] at hlatest ⊢
        rw [he] at hlatest hapart hinv
        -- the latest enumerations of the rest are those over the grown list
        let s : PVRegistry :=
          { r with
            enumsByDev := Function.update r.enumsByDev devId (addEnum (r.enumsByDev devId) e) }
        have hdev : s.enumsByDev devId = addEnum (r.enumsByDev devId) e := Function.update_self ..
        rw [← hdev] at hlatest ⊢
        refine ih (r := s) hinv ?_ hlatest (hapart.grown (List.append_nil _).symm) hdone
        rw [hdev]
        exact List.forall_mem_append.mpr ⟨fun a ha => (prefix_addEnum _ e).subset (henums a ha),
          List.forall_mem_singleton.mpr (mem_addEnum _ e)⟩
    | «variable» v =>
      rw [List.foldl_cons]
      rw [rxElement] at hinv ⊢
      rw [definition_of_latest h henums hlatest] at hinv ⊢
      rw [listed] at hlatest hapart ⊢
      cases hv : v.definition devId deviceName enums with
      | none =>
        rw [hv] at hlatest hapart
        exact ih h henums hlatest hapart hdone
      | some d =>
        rw [hv, Option.toList_some] at hlatest hapart
        rw [← List.append_assoc] at hapart
        -- this definition joins `done`, and the definitions of the rest are apart from it
        have hstep := rxVariable_stepped hmake h d
        obtain ⟨added, hgrown⟩ := hstep.grown
        obtain ⟨hmapped, hadded⟩ := ih hstep.inv (by rw [hstep.enums]; exact henums)
          (by rw [hstep.enums]; exact fun x hx => hlatest x (List.mem_append_right _ hx))
          (hapart.grown hgrown) (mapped_rxVariable hmake h hdone hapart.left)
        rw [hstep.enums] at hadded
        rw [Option.toList_some, ← List.append_assoc]
        exact ⟨hmapped, hadded⟩

/-- Elements whose enumerations are known and whose definitions are mapped change nothing. -/
theorem elements_again (devId : UInt32) (es : List DescriptorElement) {deviceName : List Char}
    {enums : List PVEnumeratedType} (h : Inv r) (henums : ∀ e ∈ enums, e ∈ r.enumsByDev devId)
    (hadded : ∀ e ∈ enumsOf es, e ∈ r.enumsByDev devId)
    (hlatest : Latest (r.enumsByDev devId) (listed devId deviceName enums es))
    (hmapped : ∀ d ∈ listed devId deviceName enums es, Mapped r d) :
    (es.foldl (rxElement makePVInfo devId) (deviceName, r)).2 = r := by
  induction es generalizing deviceName enums with
  | nil => rfl
  | cons e es ih =>
    rw [List.foldl_cons]
    cases e with
    | deviceName name => exact ih henums hadded hlatest hmapped
    | enumeration name elements =>
      rw [rxElement]
      rw [listed] at hlatest hmapped
      cases he : enumerationOf name elements with
      | none =>
        have hrest : enumsOf (.enumeration name elements :: es) = enumsOf es := by
          simp [enumsOf, he]
        rw [he, Option.toList_none, List.append_nil] at hlatest hmapped
        exact ih henums (hrest ▸ hadded) hlatest hmapped
      | some e =>
        have hrest : enumsOf (.enumeration name elements :: es) = e :: enumsOf es := by
          simp [enumsOf, he]
        rw [hrest] at hadded
        obtain ⟨hknown, hadded⟩ := List.forall_mem_cons.mp hadded
        rw [he] at hlatest hmapped
        dsimp only
        rw [addEnum_eq, if_pos hknown, Function.update_eq_self]
        exact ih (List.forall_mem_append.mpr ⟨henums, List.forall_mem_singleton.mpr hknown⟩)
          hadded hlatest hmapped
    | «variable» v =>
      have hall : Latest (addEnums (r.enumsByDev devId) [])
          (listed devId deviceName enums (.variable v :: es)) := hlatest
      rw [rxElement, definition_of_latest h henums hall]
      rw [listed] at hlatest hmapped
      have hrest : Latest (r.enumsByDev devId) (listed devId deviceName enums es) :=
        fun d hd => hlatest d (List.mem_append_right _ hd)
      obtain ⟨hhead, htail⟩ := List.forall_mem_append.mp hmapped
      cases hv : v.definition devId deviceName enums with
      | none => exact ih henums hadded hrest htail
      | some d =>
        have hd : Mapped r d := hhead d (by rw [hv]; simp)
        dsimp only
        rw [rxVariable_of_mapped hd]
        exact ih henums hadded hrest htail

/-- Whether a descriptor can be followed: its variables are apart, and each enumeration of theirs
    is the latest of its name, once the descriptor's enumerations are taken in. -/
structure Clear (r : PVRegistry) (pkt : DeviceDescriptor) : Prop where
  apart : Apart r (listing pkt)
  latest : ∀ d ∈ listing pkt, ∀ e ∈ d.enumType,
    enumNamed (addEnums (r.enumsByDev pkt.devId) (enumsOf pkt.elements)) e.name = some e

/-- After any descriptors and one that can be followed, the registry follows it. -/
theorem registry_follows (hmake : MakesRequested makePVInfo) (pkts : List DeviceDescriptor)
    {pkt : DeviceDescriptor} (hfirst : EnumsFirst pkt)
    (hclear : Clear (rxPackets makePVInfo pkts) pkt) :
    Follows makePVInfo pkt ((rxPackets makePVInfo pkts).rxPacket makePVInfo pkt) := by
  have hinv := rxPackets_inv hmake pkts
  generalize rxPackets makePVInfo pkts = r at hinv hclear
  have hlatest : Latest (addEnums (r.enumsByDev pkt.devId) (enumsOf pkt.elements))
      (listed pkt.devId [] [] pkt.elements) := fun d hd => ⟨hfirst d hd, hclear.latest d hd⟩
  have hapart : Apart r ([] ++ listed pkt.devId [] [] pkt.elements) := hclear.apart
  have hafter := elements_inv hmake pkt.devId pkt.elements (t := ([], r)) hinv
  obtain ⟨hmapped, henums⟩ := elements_mapped hmake pkt.devId pkt.elements hinv (by simp) hlatest
    hapart (by simp)
  refine ⟨hmapped, hafter.distinct, ?_, ?_⟩
  · intro name key hname hkey
    obtain ⟨p, hp, -⟩ := hafter.xref name key hname
    rw [rxPacket] at hkey
    simp [at?, hkey] at hp
  · rw [rxPacket, rxPacket, elements_again pkt.devId pkt.elements hafter (by simp) ?_ ?_ hmapped]
    · rw [henums]
      exact fun e he => mem_addEnums he
    · rw [henums]
      exact hlatest

/-! ### A motor with two sets of states -/

/-- A device whose one variable has these states. -/
def motorStates (states : List (List Char × UInt32)) : DeviceDescriptor where
  devId := 1
  elements :=
    [.deviceName ['m'], .enumeration (some ['e']) states,
      .variable ⟨some ['s'], none, some 1, some (.enum, ['e']), [], false⟩]

/-- The motor with its first states, and with a changed set. -/
def firstStates : DeviceDescriptor := motorStates [(['o', 'n'], 1)]

def changedStates : DeviceDescriptor := motorStates [(['o', 'n'], 1), (['o', 'f', 'f'], 0)]

/-- An adapter that makes what it is asked for. -/
theorem makesRequested_some : MakesRequested fun _ d => some d :=
  fun _ d => ⟨d, rfl, sameDefinition_refl d⟩

/-- The changed states are followed. -/
theorem registry_follows_changedStates :
    Follows (fun _ d => some d) changedStates
      ((rxPackets (fun _ d => some d) [firstStates]).rxPacket (fun _ d => some d) changedStates) := by
  apply registry_follows makesRequested_some [firstStates]
  · decide
  · exact ⟨⟨by decide, by decide⟩, by decide⟩

/-- What the claim asks of a descriptor: no two variables share device, name and connection, and
    enumerations come before their use. -/
structure WellFormed (pkt : DeviceDescriptor) : Prop where
  names : (listing pkt).Pairwise fun c d =>
    (c.deviceName, c.name, c.connection) ≠ (d.deviceName, d.name, d.connection)
  enumsFirst : EnumsFirst pkt

/-- The motor goes back to its first states, and its variable keeps the changed ones. -/
theorem not_registry_follows :
    ¬ ∀ (pkts : List DeviceDescriptor) (pkt : DeviceDescriptor),
      (∀ x ∈ pkts ++ [pkt], WellFormed x) →
      Follows (fun _ d => some d) pkt
        ((rxPackets (fun _ d => some d) pkts).rxPacket (fun _ d => some d) pkt) := by
  intro h
  have hformed : ∀ x ∈ [firstStates, changedStates] ++ [firstStates], WellFormed x := by
    have hstates : WellFormed firstStates ∧ WellFormed changedStates :=
      ⟨⟨by decide, by decide⟩, ⟨by decide, by decide⟩⟩
    simp [hstates]
  have hlost : ∀ d ∈ listing firstStates,
      (((rxPackets (fun _ d => some d) [firstStates, changedStates]).rxPacket
        (fun _ d => some d) firstStates).at? d.key).any (·.sameDefinition d) = false := by
    decide
  obtain ⟨d, hd⟩ := List.exists_mem_of_ne_nil (listing firstStates) (by decide)
  obtain ⟨p, hp, hsame⟩ := (h [firstStates, changedStates] firstStates hformed).mapped d hd
  have hd := hlost d hd
  rw [hp, Option.any_some, hsame] at hd
  cases hd

end Adara.Spec.PVRegistry
