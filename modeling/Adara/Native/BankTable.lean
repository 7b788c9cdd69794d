import Adara.ForStd.Relocate
import Adara.ForStd.Word32

/-! # The table of detector banks

`StreamParser` keeps its `BankInfo`s in one array: two special banks, then a row of banks
for every state.  `reallocateBanksArray` makes room for a bank and a state, and
moves the entries over to the new array.  All its numbers are 32-bit words.

The entries are of any type here.  A read or a write outside an array has no result
(`none`). -/

namespace Adara.Native

/-- `m_banks_arr` (no array before the first allocation) with `m_maxBank` and
    `m_numStates`.  `m_banks_arr_size` is the length of the array. -/
structure BankTable (β : Type) where
  banksArr : Option (List (Option β))
  maxBank : Nat
  numStates : Nat
deriving DecidableEq, Repr

/-- What an entry is for: the special banks, and a detector bank in a state. -/
inductive BankKey where
  | unmapped
  | error
  | bank (bankId state : Nat)
deriving DecidableEq, Repr

namespace BankTable

/-- `NUM_SPECIAL_BANKS`. -/
def numSpecialBanks : Nat := 2

/-- The table of a new `StreamParser`. -/
def new (β : Type) : BankTable β where
  banksArr := none
  maxBank := 0
  numStates := 1

variable {β : Type}

def banksArrSize (t : BankTable β) : Nat := (t.banksArr.getD []).length

/-- `bsindex` for a bank and a state, with a given largest bank id. -/
def bsindex (maxBank bankId state : Nat) : Nat :=
  Word32.add (Word32.add numSpecialBanks bankId) (Word32.mul state (Word32.add maxBank 1))

/-- The index of an entry, with a given largest bank id. -/
def keyIndex (maxBank : Nat) : BankKey → Nat
  | .unmapped => 0
  | .error => 1
  | .bank bankId state => bsindex maxBank bankId state

/-- The index of an entry. -/
def index (t : BankTable β) (key : BankKey) : Nat := keyIndex t.maxBank key

/-- Whether the array is reallocated for a bank and a state. -/
def grows (t : BankTable β) (bankId state : Nat) : Prop :=
  t.numStates < Word32.add state 1 ∨ t.maxBank < bankId

instance (t : BankTable β) (bankId state : Nat) : Decidable (t.grows bankId state) :=
  inferInstanceAs (Decidable (_ ∨ _))

/-- The moves of the entries, from the old array to the new one: the special banks, then
    state by state. -/
def moves (t : BankTable β) (bankId : Nat) : List (Nat × Nat) :=
  (List.range numSpecialBanks).map (fun i => (i, i)) ++
    (List.range t.numStates).flatMap fun s =>
      (List.range (Word32.add t.maxBank 1)).map fun b =>
        (bsindex t.maxBank b s, bsindex bankId b s)

/-- `reallocateBanksArray`. -/
def reallocateBanksArray (t : BankTable β) (bankId state : Nat) : Option (BankTable β) :=
  if t.grows bankId state then
    let newBanksArrSize :=
      Word32.add numSpecialBanks (Word32.mul (Word32.add state 1) (Word32.add bankId 1))
    let newBanksArr := List.replicate newBanksArrSize none
    let moved :=
      match t.banksArr with
      | none => some newBanksArr
      | some arr => relocate none (t.moves bankId) arr newBanksArr
    moved.map fun arr => ⟨some arr, bankId, Word32.add state 1⟩
  else some t

/-- Read the array at an index. -/
def read (t : BankTable β) (i : Nat) : Option (Option β) := (t.banksArr.getD [])[i]?

/-- Write the array at an index. -/
def write (t : BankTable β) (i : Nat) (info : β) : Option (BankTable β) :=
  match t.banksArr with
  | none => none
  | some arr =>
    if i < arr.length then some { t with banksArr := some (arr.set i (some info)) } else none

/-- The entries the table has room for. -/
def Covers (t : BankTable β) : BankKey → Prop
  | .bank bankId state => bankId ≤ t.maxBank ∧ state < t.numStates
  | _ => True

instance (t : BankTable β) : (key : BankKey) → Decidable (t.Covers key)
  | .unmapped => instDecidableTrue
  | .error => instDecidableTrue
  | .bank _ _ => inferInstanceAs (Decidable (_ ∧ _))

/-- The entry of a bank and a state, where there is one. -/
def find? (t : BankTable β) (key : BankKey) : Option β :=
  if t.Covers key then (t.read (t.index key)).join else none

end BankTable

end Adara.Native
