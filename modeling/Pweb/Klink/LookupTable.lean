/-
# Lookup tables (`plnode/ds/lookup_table.h`)

A `LookupTable` is a `std::map` behind a lock.  The map keeps its entries in the order
of their keys and takes keys neither of which is smaller for equal; here `operator<` is
given by the rank of a key in a linear order.  `inorder_of_built` : the search trees that
adding entries makes hold just these entries in this order.
-/
import Pweb.Foundation.SearchTree
import Pweb.Klink.Message

namespace Klink

/-- A type of keys whose `operator<` compares ranks. -/
class MapKey (κ : Type) (ρ : outParam Type) where
  rank : κ → ρ

/-- `OverlayID::operator<` compares the identifiers only. -/
instance : MapKey OverlayId ℤ := ⟨fun oid => oid.overlayId.toInt⟩

/-- `LookupTable`, its entries in the order in which iterators visit them. -/
structure LookupTable (κ ν : Type) {ρ : Type} [MapKey κ ρ] [LinearOrder ρ] where
  table : List (κ × ν)
  sorted : table.Pairwise fun e f => MapKey.rank e.1 < MapKey.rank f.1

namespace LookupTable

open MapKey

variable {κ ν ρ : Type} [MapKey κ ρ] [LinearOrder ρ]

/-! ## Entries in order -/

/-- The entries after writing to a key, whose new value may depend on the old one. -/
def writeEntry (key : κ) (f : Option ν → ν) : List (κ × ν) → List (κ × ν)
  | [] => [(key, f none)]
  | e :: es =>
    if rank key < rank e.1 then (key, f none) :: e :: es
    else if rank e.1 < rank key then e :: writeEntry key f es
    else (e.1, f (some e.2)) :: es

/-- The value of a key. -/
def findEntry (key : κ) (es : List (κ × ν)) : Option ν :=
  (es.find? fun e => rank e.1 = rank key).map Prod.snd

variable {key key' : κ} {value : ν} {f : Option ν → ν} {e : κ × ν} {es : List (κ × ν)}

theorem findEntry_nil : findEntry key ([] : List (κ × ν)) = none := rfl

theorem findEntry_cons : findEntry key (e :: es) =
    if rank e.1 = rank key then some e.2 else findEntry key es := by
  rw [findEntry, List.find?_cons]
  by_cases h : rank e.1 = rank key
  · rw [if_pos h, decide_eq_true h]
    rfl
  · rw [if_neg h, decide_eq_false h]
    rfl

/-- Smaller keys than the first one are absent. -/
theorem findEntry_eq_none (h : ∀ e ∈ es, rank e.1 ≠ rank key) : findEntry key es = none := by
  rw [findEntry, List.find?_eq_none.mpr]
  · rfl
  · intro e he
    simpa using h e he

/-- An entry is found under its key. -/
theorem findEntry_of_mem (hkeys : es.Pairwise fun e f => rank e.1 ≠ rank f.1) (he : e ∈ es) :
    findEntry e.1 es = some e.2 := by
  induction es with
  | nil => cases he
  | cons e' es ih =>
      rw [List.pairwise_cons] at hkeys
      rw [findEntry_cons]
      rcases List.mem_cons.mp he with rfl | he
      · rw [if_pos rfl]
      · rw [if_neg (hkeys.1 e he), ih hkeys.2 he]

theorem exists_of_findEntry (h : findEntry key es = some value) :
    ∃ key', rank key' = rank key ∧ (key', value) ∈ es := by
  rw [findEntry, Option.map_eq_some_iff] at h
  obtain ⟨e, he, rfl⟩ := h
  exact ⟨e.1, by simpa using List.find?_some he, List.mem_of_find?_eq_some he⟩

theorem findEntry_writeEntry
    (hsorted : es.Pairwise fun e f => rank e.1 < rank f.1) :
    findEntry key' (writeEntry key f es) =
      if rank key' = rank key then some (f (findEntry key es)) else findEntry key' es := by
  induction es with
  | nil => rw [writeEntry, findEntry_cons, findEntry_nil, findEntry_nil]; simp only [eq_comm]
  | cons e es ih =>
      rw [List.pairwise_cons] at hsorted
      rw [writeEntry]
      rcases lt_trichotomy (rank key) (rank e.1) with hlt | hsame | hgt
      · have habsent : findEntry key (e :: es) = none := by
          apply findEntry_eq_none
          intro e' he'
          rcases List.mem_cons.mp he' with rfl | he'
          · exact hlt.ne'
          · exact (hlt.trans (hsorted.1 e' he')).ne'
        rw [if_pos hlt, findEntry_cons, habsent]
        simp only [eq_comm]
      · rw [if_neg hsame.not_lt, if_neg hsame.not_gt, findEntry_cons, findEntry_cons,
          if_pos hsame.symm, findEntry_cons, hsame]
        simp only [eq_comm]
        split_ifs
        · rfl
        · rfl
      · rw [if_neg hgt.not_gt, if_pos hgt, findEntry_cons, ih hsorted.2, findEntry_cons,
          if_neg hgt.ne, findEntry_cons]
        split_ifs with h h'
        · exact absurd (h.trans h') hgt.ne
        · rfl
        · rfl
        · rfl

/-- The keys that are written are the old ones and the new one. -/
theorem rank_of_mem_writeEntry (h : e ∈ writeEntry key f es) :
    rank e.1 = rank key ∨ ∃ e' ∈ es, rank e.1 = rank e'.1 := by
  induction es with
  | nil =>
      rw [writeEntry, List.mem_singleton] at h
      exact Or.inl (by rw [h])
  | cons e' es ih =>
      rw [writeEntry] at h
      split_ifs at h with hlt hgt
      · rcases List.mem_cons.mp h with rfl | h
        · exact Or.inl rfl
        · exact Or.inr ⟨e, h, rfl⟩
      · rcases List.mem_cons.mp h with rfl | h
        · exact Or.inr ⟨e, List.mem_cons_self, rfl⟩
        · rcases ih h with h | ⟨e'', he'', h⟩
          · exact Or.inl h
          · exact Or.inr ⟨e'', List.mem_cons_of_mem _ he'', h⟩
      · rcases List.mem_cons.mp h with rfl | h
        · exact Or.inr ⟨e', List.mem_cons_self, rfl⟩
        · exact Or.inr ⟨e, List.mem_cons_of_mem _ h, rfl⟩

theorem sorted_writeEntry (hsorted : es.Pairwise fun e f => rank e.1 < rank f.1) :
    (writeEntry key f es).Pairwise fun e f => rank e.1 < rank f.1 := by
  induction es with
  | nil => exact List.pairwise_singleton _ _
  | cons e es ih =>
      rw [List.pairwise_cons] at hsorted
      rw [writeEntry]
      split_ifs with hlt hgt
      · refine List.pairwise_cons.mpr ⟨?_, List.pairwise_cons.mpr hsorted⟩
        intro e' he'
        rcases List.mem_cons.mp he' with rfl | he'
        · exact hlt
        · exact hlt.trans (hsorted.1 e' he')
      · refine List.pairwise_cons.mpr ⟨?_, ih hsorted.2⟩
        intro e' he'
        rcases rank_of_mem_writeEntry he' with h | ⟨e'', he'', h⟩
        · rwa [h]
        · rw [h]
          exact hsorted.1 e'' he''
      · exact List.pairwise_cons.mpr hsorted

/-- Writing a key that keeps its value if it has one. -/
theorem mem_writeEntry_getD (hsorted : es.Pairwise fun e f => rank e.1 < rank f.1) :
    e ∈ writeEntry key (fun old => old.getD value) es ↔
      e ∈ es ∨ findEntry key es = none ∧ e = (key, value) := by
  induction es with
  | nil =>
      rw [writeEntry, findEntry_nil, List.mem_singleton, Option.getD_none]
      simp
  | cons e' es ih =>
      rw [List.pairwise_cons] at hsorted
      rw [writeEntry, findEntry_cons]
      rcases lt_trichotomy (rank key) (rank e'.1) with hlt | hsame | hgt
      · have habsent : findEntry key es = none :=
          findEntry_eq_none fun f hf => (hlt.trans (hsorted.1 f hf)).ne'
        rw [if_pos hlt, if_neg hlt.ne', habsent, List.mem_cons, Option.getD_none, or_comm]
        simp
      · rw [if_neg hsame.not_lt, if_neg hsame.not_gt, if_pos hsame.symm, Option.getD_some]
        simp
      · rw [if_neg hgt.not_gt, if_pos hgt, if_neg hgt.ne, List.mem_cons, ih hsorted.2,
          List.mem_cons, or_assoc]

/-- A new key is written behind the smaller ones and before the larger ones. -/
theorem writeEntry_append {us vs : List (κ × ν)} (hus : ∀ e ∈ us, rank e.1 < rank key)
    (hvs : ∀ e ∈ vs, rank key < rank e.1) :
    writeEntry key f (us ++ vs) = us ++ (key, f none) :: vs := by
  induction us with
  | nil =>
      cases vs with
      | nil => rfl
      | cons e vs => rw [List.nil_append, writeEntry, if_pos (hvs e List.mem_cons_self)]; rfl
  | cons e us ih =>
      rw [List.forall_mem_cons] at hus
      rw [List.cons_append, writeEntry, if_neg hus.1.not_gt, if_pos hus.1, ih hus.2,
        List.cons_append]

/-- A key that is there keeps its entry. -/
theorem writeEntry_getD_of_mem (hsorted : es.Pairwise fun e f => rank e.1 < rank f.1)
    (he : e ∈ es) (hkey : rank e.1 = rank key) :
    writeEntry key (fun old => old.getD value) es = es := by
  induction es with
  | nil => cases he
  | cons e' es ih =>
      rw [List.pairwise_cons] at hsorted
      rw [writeEntry]
      rcases List.mem_cons.mp he with rfl | he
      · rw [if_neg hkey.not_gt, if_neg hkey.not_lt]
        rfl
      · have hlt : rank e'.1 < rank key := hkey ▸ hsorted.1 e he
        rw [if_neg hlt.not_gt, if_pos hlt, ih hsorted.2 he]

/-! ## Operations -/

/-- An empty table. -/
def empty : LookupTable κ ν := ⟨[], List.Pairwise.nil⟩

/-- `lookup`. -/
def lookup (t : LookupTable κ ν) (key : κ) : Option ν := findEntry key t.table

/-- `add` leaves the value of a key that is present. -/
def add (t : LookupTable κ ν) (key : κ) (value : ν) : LookupTable κ ν :=
  ⟨writeEntry key (fun old => old.getD value) t.table, sorted_writeEntry t.sorted⟩

/-- `update` adds a key that is absent. -/
def update (t : LookupTable κ ν) (key : κ) (value : ν) : LookupTable κ ν :=
  ⟨writeEntry key (fun _ => value) t.table, sorted_writeEntry t.sorted⟩

/-- `remove`. -/
def remove (t : LookupTable κ ν) (key : κ) : LookupTable κ ν :=
  ⟨t.table.filter fun e => rank e.1 ≠ rank key, t.sorted.filter _⟩

variable {t : LookupTable κ ν}

@[simp] theorem lookup_empty : (empty : LookupTable κ ν).lookup key = none := rfl

/-- Keys of equal rank are the same key. -/
theorem lookup_congr (h : rank key = rank key') : t.lookup key = t.lookup key' := by
  rw [lookup, lookup, findEntry, findEntry, h]

/-- The entries are what `lookup` finds. -/
theorem lookup_of_mem (he : e ∈ t.table) : t.lookup e.1 = some e.2 :=
  findEntry_of_mem (t.sorted.imp fun hlt => hlt.ne) he

/-- There is one entry for a key. -/
theorem eq_of_rank_eq {f : κ × ν} (he : e ∈ t.table) (hf : f ∈ t.table)
    (h : rank e.1 = rank f.1) : e = f := by
  have hranks : (t.table.map fun e => rank e.1).Nodup :=
    List.pairwise_map.mpr (t.sorted.imp fun hlt => hlt.ne)
  exact List.inj_on_of_nodup_map hranks he hf h

theorem exists_of_lookup (h : t.lookup key = some value) :
    ∃ key', rank key' = rank key ∧ (key', value) ∈ t.table := exists_of_findEntry h

theorem lookup_add : (t.add key value).lookup key' =
    if rank key' = rank key then some ((t.lookup key).getD value) else t.lookup key' :=
  findEntry_writeEntry t.sorted

theorem table_add :
    (t.add key value).table = writeEntry key (fun old => old.getD value) t.table := rfl

theorem mem_table_add : e ∈ (t.add key value).table ↔
    e ∈ t.table ∨ t.lookup key = none ∧ e = (key, value) := mem_writeEntry_getD t.sorted

/-- **Adding entries one after the other** : a key has its old value, or else its first new one. -/
theorem lookup_foldl_add_eq : (es.foldl (fun t e => t.add e.1 e.2) t).lookup key =
    (t.lookup key).or (findEntry key es) := by
  induction es generalizing t with
  | nil => rw [findEntry_nil, Option.or_none, List.foldl_nil]
  | cons e es ih =>
      rw [List.foldl_cons, ih, lookup_add, findEntry_cons]
      by_cases hsame : rank e.1 = rank key
      · rw [if_pos hsame.symm, if_pos hsame, lookup_congr hsame]
        cases t.lookup key <;> rfl
      · rw [if_neg (Ne.symm hsame), if_neg hsame]

/-- Entries with different new keys, added one after the other, are found. -/
theorem lookup_foldl_add (hkeys : es.Pairwise fun e f => rank e.1 ≠ rank f.1)
    (habsent : ∀ e ∈ es, t.lookup e.1 = none) (he : e ∈ es) :
    (es.foldl (fun t e => t.add e.1 e.2) t).lookup e.1 = some e.2 := by
  rw [lookup_foldl_add_eq, habsent e he, Option.none_or, findEntry_of_mem hkeys he]

/-- Entries in the order of their keys, behind those of a table. -/
theorem table_foldl_add (h : (t.table ++ es).Pairwise fun e f => rank e.1 < rank f.1) :
    (es.foldl (fun t e => t.add e.1 e.2) t).table = t.table ++ es := by
  induction es generalizing t with
  | nil => exact (List.append_nil _).symm
  | cons e es ih =>
      have hbehind : ∀ e' ∈ t.table, rank e'.1 < rank e.1 := fun e' he' =>
        (List.pairwise_append.mp h).2.2 e' he' e List.mem_cons_self
      have hadd : (t.add e.1 e.2).table = t.table ++ [e] := by
        rw [table_add]
        nth_rewrite 1 [← List.append_nil t.table]
        exact writeEntry_append hbehind (List.forall_mem_nil _)
      rw [List.append_cons] at h
      rw [List.foldl_cons, ih (by rwa [hadd]), hadd, ← List.append_cons]

/-- Tables with the same entries are the same. -/
theorem eq_of_table_eq {t t' : LookupTable κ ν} (h : t.table = t'.table) : t = t' := by
  cases t
  cases t'
  cases h
  rfl

/-- **A table is what adding its entries makes of an empty one.** -/
theorem foldl_add_table (t : LookupTable κ ν) :
    t.table.foldl (fun t e => t.add e.1 e.2) empty = t := by
  have hsorted : ((empty : LookupTable κ ν).table ++ t.table).Pairwise
      fun e f => rank e.1 < rank f.1 := t.sorted
  exact eq_of_table_eq (table_foldl_add hsorted)

theorem lookup_update : (t.update key value).lookup key' =
    if rank key' = rank key then some value else t.lookup key' :=
  findEntry_writeEntry t.sorted

theorem lookup_remove : (t.remove key).lookup key' =
    if rank key' = rank key then none else t.lookup key' := by
  rw [lookup, lookup, remove]
  show findEntry key' (t.table.filter _) = _
  induction t.table with
  | nil => rw [List.filter_nil, findEntry_nil, ite_self]
  | cons e es ih =>
      rw [List.filter_cons]
      by_cases he : rank e.1 = rank key
      · rw [if_neg (by simpa using he), ih]
        split_ifs with h
        · rfl
        · rw [findEntry_cons, if_neg fun h' => h (h'.symm.trans he)]
      · rw [if_pos (by simpa using he), findEntry_cons, findEntry_cons, ih]
        split_ifs with h h'
        · exact absurd (h.trans h') he
        · rfl
        · rfl
        · rfl

/-! ## Search trees -/

/-- `operator<` of a key. -/
def less (key key' : κ) : Bool := rank key < rank key'

theorem less_iff : less key key' ↔ rank key < rank key' := by
  simp [less]

theorem equivalent_less_iff : Equivalent less key key' ↔ rank key = rank key' := by
  rw [equivalent_iff, less_iff, less_iff, not_lt, not_lt, and_comm, le_antisymm_iff]

theorem strictWeakOrderOn_less : StrictWeakOrderOn (less : κ → κ → Bool) Set.univ where
  irrefl a _ := by
    rw [less_iff]
    exact lt_irrefl _
  trans a _ b _ c _ hab hbc := by
    rw [less_iff] at *
    exact hab.trans hbc
  equivalent_trans a _ b _ c _ hab hbc := by
    rw [equivalent_less_iff] at *
    exact hab.trans hbc

/-- One `add` to a tree and to a table. -/
theorem inorder_add {tree : SearchTree (κ × ν)} (h : tree.inorder = t.table) :
    (tree.add less e).inorder = (t.add e.1 e.2).table := by
  have hordered : SearchTree.Ordered less Set.univ tree.inorder :=
    ⟨h ▸ t.sorted.imp fun hlt => less_iff.mpr hlt, fun e _ => Set.mem_univ e.1⟩
  have hfind := SearchTree.find_eq strictWeakOrderOn_less (Set.mem_univ e.1) hordered
  rw [SearchTree.add, hfind, table_add]
  by_cases hfound : (tree.inorder.find? fun f => Equivalent less f.1 e.1).isSome
  · obtain ⟨f, hf, hequiv⟩ := List.find?_isSome.mp hfound
    rw [h] at hf
    rw [if_pos hfound, h, writeEntry_getD_of_mem t.sorted hf (equivalent_less_iff.mp hequiv)]
  · have hnew : ∀ f ∈ tree.inorder, ¬ Equivalent less f.1 e.1 := by
      simpa using hfound
    have hbefore : (none : Option (κ × ν)).all fun f => less f.1 e.1 := rfl
    obtain ⟨us, vs, hsplit, hinsert, hus, hvs⟩ := SearchTree.inorder_insertUnique
      strictWeakOrderOn_less (Set.mem_univ e.1) hordered hnew hbefore
    rw [if_neg hfound, hinsert, ← h, hsplit, writeEntry_append]
    · rfl
    · exact fun f hf => less_iff.mp (hus f hf)
    · exact fun f hf => less_iff.mp (hvs f hf)

/-- **A table holds the entries of a `std::map`** : whatever trees adding the entries makes, they
list the entries of the table. -/
theorem inorder_of_built {tree : SearchTree (κ × ν)} (h : SearchTree.Built less es tree) :
    tree.inorder = (es.foldl (fun t e => t.add e.1 e.2) (empty : LookupTable κ ν)).table := by
  induction h with
  | empty => rfl
  | add hb hrebalanced ih => rw [hrebalanced, inorder_add ih, List.foldl_append]; rfl

/-- What such a tree finds is what `lookup` finds. -/
theorem map_find_of_built {tree : SearchTree (κ × ν)} (h : SearchTree.Built less es tree) :
    (tree.find less key).map Prod.snd =
      (es.foldl (fun t e => t.add e.1 e.2) (empty : LookupTable κ ν)).lookup key := by
  obtain ⟨hordered, -⟩ := h.spec strictWeakOrderOn_less fun e _ => Set.mem_univ e.1
  rw [SearchTree.find_eq strictWeakOrderOn_less (Set.mem_univ key) hordered, inorder_of_built h,
    lookup, findEntry]
  congr 1
  apply List.find?_congr
  intro e _
  rw [Bool.eq_iff_iff, equivalent_less_iff, decide_eq_true_iff]

end LookupTable

end Klink
