import Adara.Native.PixelMapFile

/-! # The lookup tables of a pixel map

The constructor of `PixelMap` makes two tables of the map that was read: the logical id and the
bank of every physical id up to the largest one, and the bank of every logical id up to the
largest one.  A loop that does not end and a write outside of a table have no result (`none`). -/

namespace Adara.Native

namespace PixelMap

/-- `max_physical`, `max_logical` and the largest bank. -/
structure LargestIds where
  physical : UInt32
  logical : UInt32
  bank : UInt32
deriving DecidableEq, Repr

/-- The largest ids with one more entry. -/
def LargestIds.add (m : LargestIds) (e : UInt32 × UInt32 × UInt16) : LargestIds where
  physical := if m.physical < e.1 then e.1 else m.physical
  logical := if e.2.1 ≠ -1 ∧ m.logical < e.2.1 then e.2.1 else m.logical
  bank := if e.2.2 ≠ 0xffff ∧ m.bank < e.2.2.toUInt32 then e.2.2.toUInt32 else m.bank

/-- The loop over the map that finds the largest ids. -/
def largestIds (map : TempMap) : LargestIds := map.entries.foldl .add ⟨0, 0, 0⟩

/-- The loop that fills a table up to an index. -/
def fillTable {α : Type} (value : UInt32 → α) (last : UInt32) :
    (fuel : Nat) → (i : UInt32) → Array α → Option (Array α)
  | 0, _, _ => none
  | fuel + 1, i, table =>
    if i ≤ last then fillTable value last fuel (i + 1) (table.push (value i)) else some table

/-- The loop over the map that puts its entries into the tables. -/
def setEntries : List (UInt32 × UInt32 × UInt16) → Array (UInt32 × UInt16) → Array UInt16 →
    Option (Array (UInt32 × UInt16) × Array UInt16)
  | [], table, banks => some (table, banks)
  | (physical, logical, bank) :: entries, table, banks =>
    if h : physical.toNat < table.size then
      let table := table.set physical.toNat (logical, bank) h
      if logical ≠ -1 then
        if h : logical.toNat < banks.size then
          setEntries entries table (banks.set logical.toNat bank h)
        else none
      else setEntries entries table banks
    else none

/-- `m_table`, `m_banks` and `m_numBanks`. -/
structure LookupTables where
  table : Array (UInt32 × UInt16)
  banks : Array UInt16
  numBanks : UInt32

/-- `fillTable` goes through all ids at most. -/
def tableFuel : Nat := 2 ^ 32

/-- The tables that the constructor makes. -/
def lookupTables (map : TempMap) : Option LookupTables := do
  let largest := largestIds map
  -- first all is unmapped, then the valid entries are filled in
  let table ← fillTable (fun i => (i ||| 0x80000000, 0xffff)) largest.physical tableFuel 0 #[]
  let banks ← fillTable (fun _ => 0xffff) largest.logical tableFuel 0 #[]
  let (table, banks) ← setEntries map.entries table banks
  some ⟨table, banks, largest.bank + 1⟩

/-- Whether a physical id is unmapped, and its logical id and bank. -/
def LookupTables.mapEvent (t : LookupTables) (physical : UInt32) : Bool × UInt32 × UInt16 :=
  let (logical, bank) := (t.table[physical.toNat]?).getD (physical ||| 0x80000000, 0xffff)
  (bank = 0xffff, logical, bank)

/-- Whether a logical id is unmapped, and its bank. -/
def LookupTables.mapEventBank (t : LookupTables) (logical : UInt32) : Bool × UInt16 :=
  let bank := (t.banks[logical.toNat]?).getD 0xffff
  (bank = 0xffff, bank)

end PixelMap

end Adara.Native
