import Adara.Spec.BankedWalk
import Adara.Spec.EventIndex

/-! # Room for the banks of a run

Whether the table of banks has room for a section, or can grow for it, depends on the largest bank
and the number of states it has so far, and on the bank and state of the section
(`along_sections`).  So it can be told from the events of a run, in the order of their packets,
whether the table ever gives up a bank or a state (`Roomy`).  It never does in a run without
states (`roomy_of_plain`). -/

namespace Adara.Spec.TableRoom

open Adara.Native Adara.Native.StreamParser
open Adara.Spec.BankTable Adara.Spec.EventIndex Adara.Spec.StateFiling Adara.Spec.BankedWalk
open Adara.Spec.StreamPackets
open Adara.Spec.BankedEvent (wireBank)

/-- The largest bank and the number of states of a table. -/
def extent {β : Type} (t : Native.BankTable β) : Nat × Nat := (t.maxBank, t.numStates)

/-- The extent after a call for a bank and a state.  There is none for a call that would give up
    a bank or a state, or ask for more places than can be numbered. -/
def growTo (d : Nat × Nat) (call : Nat × Nat) : Option (Nat × Nat) :=
  if d.2 < call.2 + 1 ∨ d.1 < call.1 then
    if d.1 ≤ call.1 ∧ d.2 ≤ call.2 + 1 ∧
        BankTable.numSpecialBanks + (call.2 + 1) * (call.1 + 1) < Word32.modulus then
      some (call.1, call.2 + 1)
    else none
  else some d

/-- The bank to make room for. -/
def roomFor : BankKey → Nat
  | .bank bankId _ => bankId
  | _ => 1

/-- The call for an event. -/
def callFor (f : FiledState) : Nat × Nat := (roomFor (filedKey f), f.state)

/-- A table of some extent has room for some events, or grows for them. -/
def Roomy (d : Nat × Nat) (fs : List FiledState) : Prop :=
  (Runs.run growTo d (fs.map callFor)).isSome

instance (d : Nat × Nat) (fs : List FiledState) : Decidable (Roomy d fs) :=
  inferInstanceAs (Decidable (Option.isSome _ = true))

/-! ### Sections -/

section Table

variable {β : Type} {t t' : Native.BankTable β} {d : Nat × Nat} {bankId state : Nat}

theorem grows_iff (hstate : state + 1 < Word32.modulus) :
    t.grows bankId state ↔ t.numStates < state + 1 ∨ t.maxBank < bankId := by
  show t.numStates < Word32.add state 1 ∨ _ ↔ _
  rw [Word32.add_of_lt hstate]

/-- What grows in the model grows in the table. -/
theorem callSafe_of_growTo (ht : Allocated t) (h : growTo (extent t) (bankId, state) = some d) :
    CallSafe t bankId state ∧ state + 1 < Word32.modulus := by
  have hfits : BankTable.numSpecialBanks + t.numStates * (t.maxBank + 1) < Word32.modulus := ht.fits
  rw [growTo] at h
  by_cases hgrows : t.numStates < state + 1 ∨ t.maxBank < bankId
  · rw [if_pos (by exact hgrows)] at h
    by_cases hsafe : t.maxBank ≤ bankId ∧ t.numStates ≤ state + 1 ∧
        BankTable.numSpecialBanks + (state + 1) * (bankId + 1) < Word32.modulus
    · have hle : state + 1 ≤ (state + 1) * (bankId + 1) :=
        Nat.le_mul_of_pos_right _ (Nat.succ_pos _)
      have hstate : state + 1 < Word32.modulus := by omega
      refine ⟨?_, hstate⟩
      rw [CallSafe, if_pos ((grows_iff hstate).mpr hgrows)]
      exact hsafe
    · rw [if_neg (by exact hsafe)] at h
      cases h
  · have hle : t.numStates ≤ t.numStates * (t.maxBank + 1) :=
      Nat.le_mul_of_pos_right _ (Nat.succ_pos _)
    have hstate : state + 1 < Word32.modulus := by omega
    refine ⟨?_, hstate⟩
    obtain ⟨arr, harr, -⟩ := ht.size_eq
    rw [CallSafe, if_neg (mt (grows_iff hstate).mp hgrows), harr]
    rfl

theorem extent_reallocate (hstate : state + 1 < Word32.modulus)
    (h : growTo (extent t) (bankId, state) = some d)
    (ht' : t.reallocateBanksArray bankId state = some t') : extent t' = d := by
  rw [growTo] at h
  rw [BankTable.reallocateBanksArray] at ht'
  by_cases hgrows : t.numStates < state + 1 ∨ t.maxBank < bankId
  · rw [if_pos (by exact hgrows)] at h
    rw [if_pos ((grows_iff hstate).mpr hgrows)] at ht'
    obtain ⟨arr, -, rfl⟩ := Option.map_eq_some_iff.mp ht'
    rw [extent, Word32.add_of_lt hstate]
    split at h
    · exact Option.some.inj h
    · cases h
  · rw [if_neg (by exact hgrows)] at h
    rw [if_neg (mt (grows_iff hstate).mp hgrows)] at ht'
    cases ht'
    exact Option.some.inj h

theorem extent_write {i : Nat} {info : β} (h : t.write i info = some t') :
    extent t' = extent t := by
  rw [BankTable.write] at h
  split at h
  · cases h
  · split at h
    · cases h
      rfl
    · cases h

/-- A call made again changes nothing. -/
theorem growTo_again {call : Nat × Nat} (h : growTo d call = some d') :
    growTo d' call = some d' := by
  rw [growTo] at h
  split at h
  · split at h
    · cases h
      rw [growTo, if_neg (by omega)]
    · cases h
  · rename_i hroom
    cases h
    rw [growTo, if_neg hroom]

end Table

section Parser

variable {p p' : StreamParser} {bank : BankSection} {d : Nat × Nat}

theorem extent_findBankInfo {banks banks' : Native.BankTable BankInfo} {key : BankKey}
    {found : Option BankInfo} (h : findBankInfo banks key = some (banks', found)) :
    extent banks' = extent banks := by
  rw [findBankInfo] at h
  obtain ⟨entry, -, h⟩ := Option.bind_eq_some_iff.mp h
  cases entry with
  | some bi =>
    cases h
    rfl
  | none =>
    have hmake : ∀ sets, ((banks.write (banks.index key) (.make sets)).bind fun banks =>
        some (banks, some (BankInfo.make sets))) = some (banks', found) →
          extent banks' = extent banks := by
      intro sets h
      obtain ⟨written, hwrite, h⟩ := Option.bind_eq_some_iff.mp h
      cases h
      exact extent_write hwrite
    cases key with
    | unmapped => exact hmake [] h
    | error => exact hmake [] h
    | bank bankId state =>
      obtain ⟨sets?, -, h⟩ := Option.bind_eq_some_iff.mp h
      cases sets? with
      | none =>
        cases h
        rfl
      | some sets => exact hmake sets h

/-- Only making room changes the extent. -/
theorem extent_processBankEvents {ready : Bool} (h : p.processBankEvents ready bank = some p') :
    ∃ t, p.banks.reallocateBanksArray bank.roomFor bank.state = some t ∧
      extent p'.banks = extent t := by
  rw [processBankEvents] at h
  obtain ⟨t, ht, h⟩ := Option.bind_eq_some_iff.mp h
  refine ⟨t, ht, ?_⟩
  obtain ⟨⟨banks, found⟩, hfound, h⟩ := Option.bind_eq_some_iff.mp h
  have hextent := extent_findBankInfo hfound
  cases found with
  | none =>
    cases h
    exact hextent
  | some bi =>
    simp only [Option.map_some] at h
    split at h
    · -- a bank with events
      obtain ⟨events, -, h⟩ := Option.bind_eq_some_iff.mp h
      obtain ⟨bi', -, h⟩ := Option.bind_eq_some_iff.mp h
      obtain ⟨written, hwrite, h⟩ := Option.bind_eq_some_iff.mp h
      cases h
      exact (extent_write hwrite).trans hextent
    · obtain ⟨written, hwrite, h⟩ := Option.bind_eq_some_iff.mp h
      cases h
      exact (extent_write hwrite).trans hextent

/-- The sections of a packet are safe in turn where the model of the table grows for them. -/
theorem along_sections (ready : Bool) {banks : List BankSection} (halloc : Allocated p.banks)
    (hevents : ∀ bank ∈ banks, bank.events.isSome)
    (hgrow : Runs.run growTo (extent p.banks)
      (banks.map fun bank => (bank.roomFor, bank.state)) = some d) :
    Runs.along (processBankEvents ready) SectionSafe p banks ∧
      ∀ p', Runs.run (processBankEvents ready) p banks = some p' → extent p'.banks = d := by
  induction banks generalizing p with
  | nil =>
    refine ⟨trivial, fun p' hp' => ?_⟩
    cases hp'
    exact Option.some.inj hgrow
  | cons bank banks ih =>
    obtain ⟨hbank, hrest⟩ := List.forall_mem_cons.mp hevents
    obtain ⟨d₁, hfirst, hgrow'⟩ := Runs.run_cons hgrow
    obtain ⟨hcall, hstate⟩ := callSafe_of_growTo halloc hfirst
    have hfits : StateFits bank.key := by
      rw [BankSection.key]
      split
      · trivial
      · split
        · trivial
        · exact hstate
    have hsafe : SectionSafe p bank := ⟨hcall, hfits, hbank⟩
    obtain ⟨p₁, hp₁, halloc₁, -⟩ := processBankEvents_cases ready halloc hsafe
    obtain ⟨t, ht, hextent⟩ := extent_processBankEvents hp₁
    rw [← extent_reallocate hstate hfirst ht, ← hextent] at hgrow'
    obtain ⟨halong, hextents⟩ := ih halloc₁ hrest hgrow'
    constructor
    · refine ⟨hsafe, fun p₂ hp₂ => ?_⟩
      cases hp₁.symm.trans hp₂
      exact halong
    · intro p' hp'
      rw [Runs.run, hp₁] at hp'
      exact hextents p' hp'

end Parser

/-! ### The events of a pulse -/

/-- A call made many times is one made once. -/
theorem run_replicate (d call : Nat × Nat) (n : Nat) :
    Runs.run growTo d (List.replicate (n + 1) call) = growTo d call := by
  induction n generalizing d with
  | zero =>
    rw [List.replicate_one, Runs.run]
    cases growTo d call <;> rfl
  | succ n ih =>
    rw [List.replicate_succ, Runs.run]
    cases hcall : growTo d call with
    | none => rfl
    | some d' =>
      rw [Option.bind_some, ih]
      exact growTo_again hcall

theorem roomFor_key (bank : BankSection) : bank.roomFor = roomFor bank.key := by
  rw [BankSection.roomFor, BankSection.key]
  by_cases hunmapped : bank.bankId = BankSection.unmappedBank
  · rw [if_pos (.inl hunmapped), if_pos hunmapped]
    rfl
  · by_cases herror : bank.bankId = BankSection.errorBank
    · rw [if_pos (.inr herror), if_neg hunmapped, if_pos herror]
      rfl
    · rw [if_neg (by simp [hunmapped, herror]), if_neg hunmapped, if_neg herror]
      rfl

section Pulse

variable {pm : PixelMap} {p : Pulse} {log : List FiledState}

/-- The sections of a pulse ask for the room its events ask for. -/
theorem run_sections (h : Reached pm p log) {banks : List BankSection}
    (hbanks : banks.map readingOf = (places p).flatMap (sectionAt (maxBank pm) log))
    (d : Nat × Nat) :
    Runs.run growTo d (banks.map fun bank => (bank.roomFor, bank.state)) =
      Runs.run growTo d ((inOrder (maxBank pm) p log).map callFor) := by
  let call : Reading → Nat × Nat := fun r =>
    (BankSection.roomFor ⟨r.1, r.2.1, r.2.2.1, []⟩, r.2.1)
  have hcalls : (banks.map fun bank => (bank.roomFor, bank.state)) =
      (banks.map readingOf).map call := by
    rw [List.map_map]
    rfl
  rw [hcalls, hbanks, inOrder, List.classes, List.map_flatMap, List.map_flatMap]
  change _ = Runs.run growTo d
    ((places p).flatMap fun pl => (eventsAt (maxBank pm) log pl).map callFor)
  -- one call for every place with events
  have hone : ∀ pl d, Runs.run growTo d ((sectionAt (maxBank pm) log pl).map call) =
      Runs.run growTo d ((eventsAt (maxBank pm) log pl).map callFor) := by
    intro pl d
    by_cases hempty : eventsAt (maxBank pm) log pl = []
    · rw [sectionAt, if_pos hempty, hempty]
      rfl
    · have hkey : BankSection.key ⟨(wireBank (pl.2 % (maxBank pm + 1))).toNat,
          pl.2 / (maxBank pm + 1), ((eventsAt (maxBank pm) log pl).map FiledState.event).length,
          []⟩ = keyOf (pl.2 % (maxBank pm + 1)) (pl.2 / (maxBank pm + 1)) := key_reading pm rfl rfl
      have hsame : (eventsAt (maxBank pm) log pl).map callFor =
          List.replicate (eventsAt (maxBank pm) log pl).length
            (call (reading (maxBank pm) pl.2
              ((eventsAt (maxBank pm) log pl).map FiledState.event))) := by
        rw [List.eq_replicate_iff]
        refine ⟨List.length_map _, fun c hc => ?_⟩
        obtain ⟨f, hf, rfl⟩ := List.mem_map.mp hc
        obtain ⟨hfiled, hstate⟩ := key_of_mem h hf
        simp only [call, reading, callFor, roomFor_key, hkey, hfiled, hstate]
      obtain ⟨n, hn⟩ := Nat.exists_eq_succ_of_ne_zero (mt List.eq_nil_of_length_eq_zero hempty)
      rw [hsame, hn, Nat.succ_eq_add_one, run_replicate, sectionAt, if_neg hempty,
        List.map_singleton, Runs.run]
      cases growTo d _ <;> rfl
  induction places p generalizing d with
  | nil => rfl
  | cons pl pls ih =>
    rw [List.flatMap_cons, List.flatMap_cons, Runs.run_append, Runs.run_append, hone]
    exact congrArg _ (funext ih)

end Pulse

/-- Without states a table only has to grow for larger banks. -/
theorem roomy_of_plain {d : Nat × Nat} (hd : d.2 = 1) {fs : List FiledState}
    (hstates : ∀ f ∈ fs, f.state = 0) (hbanks : ∀ f ∈ fs, f.bank < 2 ^ 31) : Roomy d fs := by
  rw [Roomy]
  induction fs generalizing d with
  | nil => rfl
  | cons f fs ih =>
    obtain ⟨hstate, hstates⟩ := List.forall_mem_cons.mp hstates
    obtain ⟨hbank, hbanks⟩ := List.forall_mem_cons.mp hbanks
    have hroom : roomFor (filedKey f) < 2 ^ 31 := by
      rw [filedKey]
      generalize f.bank = bank at hbank
      have hone : 1 < 2 ^ 31 := Nat.one_lt_two_pow (Nat.succ_ne_zero 30)
      cases bank with
      | zero => exact hone
      | succ bank =>
        cases bank with
        | zero => exact hone
        | succ bank => exact Nat.lt_of_le_of_lt (Nat.le_add_right bank 2) hbank
    obtain ⟨d', hd', hone⟩ : ∃ d', growTo d (callFor f) = some d' ∧ d'.2 = 1 := by
      have hmod : Word32.modulus = 2 ^ 32 := rfl
      rw [callFor, hstate, growTo]
      by_cases hgrows : d.2 < 0 + 1 ∨ d.1 < roomFor (filedKey f)
      · rw [if_pos hgrows, if_pos (by
          simp only [BankTable.numSpecialBanks]
          omega)]
        exact ⟨_, rfl, rfl⟩
      · rw [if_neg hgrows]
        exact ⟨d, rfl, hd⟩
    rw [List.map_cons, Runs.run, hd']
    exact ih hone hstates hbanks

end Adara.Spec.TableRoom
