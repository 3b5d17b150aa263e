/-
# The name table of a home agent (`plnode/peer/peer.h`)

A home agent keeps for every device name an address and the time of its registration or
of its last update, in seconds.
-/
import Pweb.Klink.LookupTable

namespace Klink

/-- Strings are compared byte by byte. -/
instance : MapKey Bytes (List ℕ) := ⟨List.map UInt8.toNat⟩

theorem rank_string_inj {name name' : Bytes} :
    MapKey.rank name = MapKey.rank name' ↔ name = name' :=
  (List.map_injective_iff.mpr fun _ _ h => UInt8.toNat_inj.mp h).eq_iff

/-- `name_db`: an address and a time for every name. -/
abbrev NameDb := LookupTable Bytes (HostAddress × ℤ)

namespace NameDb

/-- `addToNameDB`, at the time `timestamp`. -/
def addToNameDB (db : NameDb) (timestamp : ℤ) (name : Bytes) (ha : HostAddress) : NameDb :=
  db.add name (ha, timestamp)

/-- `updateNameDB`. -/
def updateNameDB (db : NameDb) (timestamp : ℤ) (name : Bytes) (ha : HostAddress) : NameDb :=
  db.update name (ha, timestamp)

/-- `searchNameDb` by time: the names whose time is later. -/
def searchNameDb (db : NameDb) (timestamp : ℤ) : List (Bytes × ℤ) :=
  db.table.filterMap fun e => do
    let value ← db.lookup e.1
    if value.2 > timestamp then some (e.1, value.2) else none

variable {db : NameDb} {timestamp stamp : ℤ} {name name' : Bytes} {ha : HostAddress}

theorem lookup_addToNameDB (h : db.lookup name = none) :
    (db.addToNameDB timestamp name ha).lookup name' =
      if name' = name then some (ha, timestamp) else db.lookup name' := by
  rw [addToNameDB, LookupTable.lookup_add, h]
  simp only [rank_string_inj, Option.getD_none]

theorem lookup_updateNameDB : (db.updateNameDB timestamp name ha).lookup name' =
    if name' = name then some (ha, timestamp) else db.lookup name' := by
  rw [updateNameDB, LookupTable.lookup_update]
  simp only [rank_string_inj]

/-- **The search** finds the later entries. -/
theorem mem_searchNameDb : (name, stamp) ∈ db.searchNameDb timestamp ↔
    ∃ ha, db.lookup name = some (ha, stamp) ∧ timestamp < stamp := by
  rw [searchNameDb, List.mem_filterMap]
  constructor
  · rintro ⟨⟨name', ha, stamp'⟩, he, hfound⟩
    rw [LookupTable.lookup_of_mem he] at hfound
    dsimp only [Option.bind_eq_bind, Option.bind_some] at hfound
    split_ifs at hfound with hlater
    cases hfound
    exact ⟨ha, LookupTable.lookup_of_mem he, hlater⟩
  · rintro ⟨ha, hlookup, hlater⟩
    obtain ⟨name', hname, he⟩ := LookupTable.exists_of_lookup hlookup
    obtain rfl := rank_string_inj.mp hname
    refine ⟨(name', ha, stamp), he, ?_⟩
    rw [hlookup]
    exact if_pos hlater

end NameDb

end Klink
