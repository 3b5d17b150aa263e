/-
# The overlay cache (`plnode/ds/cache.h`)

A `Cache` keeps the most recently used end points in a doubly linked list and finds a
node by its key through the table `hm`.  What happens on `add` is split over three
classes: `Cache` decides when there is room, `CacheReplaceLRU` moves a node that is hit
to the front and evicts the last one, and `CacheInsertEndpoint` decides which keys enter
the cache.

`none` stands for the undefined effect of following a bad pointer.
-/
import Pweb.Klink.DoublyLinkedList
import Pweb.Klink.LookupTable

namespace Klink

/-- `GetOverlay_id` returns an `int`. -/
def OverlayId.getOverlayId (oid : OverlayId) : Int32 := oid.overlayId.toInt32

/-- The copy of a key that the cache keeps. -/
def OverlayId.narrowed (oid : OverlayId) : OverlayId :=
  { oid with overlayId := oid.getOverlayId.toInt64 }

/-- The copy of an address that the cache keeps. -/
def HostAddress.copied (ha : HostAddress) : HostAddress :=
  { ha with hostName := ha.hostName.takeWhile (· ≠ 0) }

/-- What `CacheInsertPolicy::setup` receives besides the parts of the cache. -/
structure CacheInsertPolicy where
  rt : LookupTable OverlayId HostAddress
  pc : LookupTable OverlayId HostAddress
  myOid : OverlayId

/-- `Cache`; `fresh` is the address of the next node. -/
structure Cache where
  dll : DoublyLinkedList
  hm : LookupTable OverlayId ℕ
  capacity : ℤ
  size : ℤ
  fresh : ℕ

namespace Cache

/-- An empty cache. -/
def new (capacity : ℤ) : Cache := ⟨⟨fun _ => none, none, none⟩, LookupTable.empty, capacity, 0, 0⟩

/-! ## Operations -/

/-- `CacheReplaceLRU::evict`; the key is read from the node after it has been removed. -/
def evict (c : Cache) : Option Cache :=
  match c.dll.tail with
  | none => some c
  | some tail => do
    let dll ← c.dll.removeTail
    let node ← dll.nodes tail
    return { c with dll, hm := c.hm.remove node.key }

/-- `CacheReplaceLRU::processHit`. -/
def processHit (c : Cache) (key : OverlayId) : Option (Bool × Cache) :=
  match c.hm.lookup key with
  | none => some (false, c)
  | some node => do
    let dll ← c.dll.move2Head node
    return (true, { c with dll })

/-- The keys that `CacheInsertEndpoint::insert` leaves out. -/
def refuses (p : CacheInsertPolicy) (c : Cache) (key : OverlayId) : Bool :=
  (p.pc.lookup key).isSome || (c.hm.lookup key).isSome || (p.rt.lookup key).isSome ||
    key.getOverlayId == p.myOid.getOverlayId

/-- `CacheInsertEndpoint::insert`. -/
def insert (p : CacheInsertPolicy) (c : Cache) (key : OverlayId) (value : HostAddress) :
    Option Cache :=
  if refuses p c key then some c
  else do
    let oid := key.narrowed
    let newNode := c.fresh
    let nodes := Function.update c.dll.nodes newNode (some ⟨oid, value.copied, none, none⟩)
    let dll ← { c.dll with nodes }.append2Head newNode
    return { c with dll, hm := c.hm.add oid newNode, size := c.size + 1, fresh := c.fresh + 1 }

/-- The condition that opens `add`, with its effects. -/
def makeRoom (c : Cache) (key : OverlayId) : Option Cache :=
  if c.size = c.capacity then do
    let (hit, c) ← c.processHit key
    if hit then return c
    else do
      let c ← c.evict
      return { c with size := c.size - 1 }
  else some c

/-- `add`. -/
def add (p : CacheInsertPolicy) (c : Cache) (key : OverlayId) (value : HostAddress) :
    Option Cache := do
  let c ← c.makeRoom key
  insert p c key value

/-- `lookup`, with the address found. -/
def lookup (c : Cache) (key : OverlayId) : Option (Cache × Option HostAddress) :=
  match c.hm.lookup key with
  | none => some (c, none)
  | some a => do
    let (_, c) ← c.processHit key
    let node ← c.dll.nodes a
    return (c, some node.value)

/-! ## Runs -/

/-- The calls that change a cache. -/
inductive Call where
  | add (key : OverlayId) (value : HostAddress)
  | lookup (key : OverlayId)

/-- The effect of a call. -/
def perform (p : CacheInsertPolicy) (c : Cache) : Call → Option Cache
  | .add key value => c.add p key value
  | .lookup key => (c.lookup key).map Prod.fst

/-! ## Representation -/

/-- The identifier in a node. -/
def idOf (c : Cache) (a : ℕ) : Option Int64 := (c.dll.entry a).map fun e => e.1.overlayId

/-- The list holds the nodes `as`, their keys have distinct identifiers, `hm` leads from each
identifier to its node and knows no others, and `size` counts the nodes. -/
structure Represents (c : Cache) (as : List ℕ) : Prop where
  holds : c.dll.Holds as
  distinct : (as.map c.idOf).Nodup
  hm : ∀ key a, c.hm.lookup key = some a ↔ a ∈ as ∧ c.idOf a = some key.overlayId
  size_eq : c.size = as.length
  size_le : c.size ≤ c.capacity

/-- The next address is that of no node. -/
structure Inv (c : Cache) (as : List ℕ) : Prop extends c.Represents as where
  fresh : ∀ a ∈ as, a < c.fresh

variable {p : CacheInsertPolicy} {c c' : Cache} {as u v : List ℕ} {a : ℕ} {key : OverlayId}
  {value : HostAddress} {capacity : ℤ}

theorem rank_eq_iff {key key' : OverlayId} :
    MapKey.rank key = MapKey.rank key' ↔ key.overlayId = key'.overlayId := Int64.toInt_inj

theorem idOf_congr (hentry : c'.dll.entry = c.dll.entry) : c'.idOf = c.idOf := by
  funext b
  rw [idOf, idOf, hentry]

theorem new_inv (h : 0 ≤ capacity) : (new capacity).Inv [] where
  holds := ⟨DoublyLinked.nil _ _, by simp⟩
  distinct := List.nodup_nil
  hm := by
    intro key a
    rw [new, LookupTable.lookup_empty]
    simp
  size_eq := rfl
  size_le := h
  fresh := by simp

/-- Putting the nodes in another order. -/
theorem Inv.perm (h : c.Inv as) {as' : List ℕ} {dll : DoublyLinkedList} (hperm : as'.Perm as)
    (hholds : dll.Holds as') (hentry : dll.entry = c.dll.entry) : Inv { c with dll } as' := by
  have hid : idOf { c with dll } = c.idOf := idOf_congr hentry
  refine ⟨⟨hholds, ?_, ?_, ?_, h.size_le⟩, ?_⟩
  · rw [hid]
    exact (hperm.map c.idOf).nodup_iff.mpr h.distinct
  · intro key a
    rw [hid, hperm.mem_iff]
    exact h.hm key a
  · rw [hperm.length_eq]
    exact h.size_eq
  · intro b hb
    exact h.fresh b (hperm.mem_iff.mp hb)

/-- Moving the node of a key to the front of the list. -/
theorem processHit_of_holds (h : c.dll.Holds (u ++ a :: v)) (hkey : c.hm.lookup key = some a) :
    ∃ dll, c.processHit key = some (true, { c with dll }) ∧ dll.Holds (a :: (u ++ v)) ∧
      dll.entry = c.dll.entry := by
  obtain ⟨dll, hmove, hholds, hentry⟩ := DoublyLinkedList.move2Head_spec h
  refine ⟨dll, ?_, hholds, hentry⟩
  rw [processHit, hkey]
  show (c.dll.move2Head a >>= _) = _
  rw [hmove]
  rfl

/-- **A hit** moves the node to the front. -/
theorem processHit_spec (h : c.Inv (u ++ a :: v)) (hkey : c.hm.lookup key = some a) :
    ∃ dll, c.processHit key = some (true, { c with dll }) ∧ Inv { c with dll } (a :: (u ++ v)) ∧
      dll.entry = c.dll.entry := by
  obtain ⟨dll, hhit, hholds, hentry⟩ := processHit_of_holds h.holds hkey
  exact ⟨dll, hhit, h.perm List.perm_middle.symm hholds hentry, hentry⟩

theorem processHit_of_absent (hkey : c.hm.lookup key = none) :
    c.processHit key = some (false, c) := by rw [processHit, hkey]

/-- Nodes with the same identifier are the same. -/
theorem Represents.idOf_injective (h : c.Represents as) {a b : ℕ} (ha : a ∈ as) (hb : b ∈ as)
    (heq : c.idOf a = c.idOf b) : a = b := List.inj_on_of_nodup_map h.distinct ha hb heq

/-- Without the last node's identifier, `hm` leads to the others. -/
theorem Represents.lookup_remove {z : ℕ} (h : c.Represents (as ++ [z]))
    (hz : c.idOf z = some key.overlayId) (key' : OverlayId) (b : ℕ) :
    (c.hm.remove key).lookup key' = some b ↔ b ∈ as ∧ c.idOf b = some key'.overlayId := by
  have hznot : z ∉ as := by
    have hnodup := h.holds.linked.nodup
    rw [← List.concat_eq_append, List.nodup_concat] at hnodup
    exact hnodup.1
  rw [LookupTable.lookup_remove]
  split_ifs with hsame
  · -- the key of the node removed
    rw [rank_eq_iff] at hsame
    constructor
    · rintro ⟨⟩
    · rintro ⟨hb, hidb⟩
      rw [hsame, ← hz] at hidb
      obtain rfl := h.idOf_injective (List.mem_append_left _ hb) (by simp) hidb
      exact absurd hb hznot
  · rw [h.hm, List.mem_append, List.mem_singleton]
    constructor
    · rintro ⟨hb | rfl, hidb⟩
      · exact ⟨hb, hidb⟩
      · rw [hz] at hidb
        exact absurd (rank_eq_iff.mpr (Option.some.inj hidb).symm) hsame
    · rintro ⟨hb, hidb⟩
      exact ⟨Or.inl hb, hidb⟩

/-- **An eviction** removes the last node. -/
theorem evict_spec {q z : ℕ} (h : c.Inv (as ++ [q, z])) :
    ∃ dll key, c.evict = some { c with dll, hm := c.hm.remove key } ∧
      Inv { c with dll, hm := c.hm.remove key, size := c.size - 1 } (as ++ [q]) ∧
      dll.entry = c.dll.entry := by
  obtain ⟨dll, hremove, hholds, hentry⟩ := DoublyLinkedList.removeTail_spec h.holds
  have htail : c.dll.tail = some z := by
    rw [h.holds.linked.tail_eq, List.append_cons, List.getLast?_concat]
  have hz : (dll.entry z).isSome := by
    rw [hentry]
    exact h.holds.allocated z (by simp)
  obtain ⟨node, hnode⟩ := DoublyLinkedList.isSome_entry.mp hz
  have hidz : c.idOf z = some node.key.overlayId := by
    rw [idOf, ← hentry, DoublyLinkedList.entry, hnode]
    rfl
  have hid : idOf { c with dll, hm := c.hm.remove node.key, size := c.size - 1 } = c.idOf :=
    idOf_congr hentry
  have hsub : ∀ b, b ∈ as ++ [q] → b ∈ as ++ [q, z] := by
    intro b hb
    rw [List.append_cons]
    exact List.mem_append_left _ hb
  have hall : c.Represents ((as ++ [q]) ++ [z]) := by
    rw [← List.append_cons]
    exact h.toRepresents
  refine ⟨dll, node.key, ?_, ⟨⟨hholds, ?_, ?_, ?_, ?_⟩, fun b hb => h.fresh b (hsub b hb)⟩, hentry⟩
  · rw [evict, htail]
    show (c.dll.removeTail >>= _) = _
    rw [hremove]
    show (dll.nodes z >>= _) = _
    rw [hnode]
    rfl
  · have hdistinct := h.distinct
    rw [List.append_cons, List.map_append] at hdistinct
    rw [hid]
    exact hdistinct.of_append_left
  · intro key b
    rw [hid]
    exact hall.lookup_remove hidz key b
  · have hsize := h.size_eq
    simp only [List.length_append, List.length_cons, List.length_nil] at hsize ⊢
    omega
  · have hsize := h.size_le
    dsimp only
    omega

/-- The nodes after a call that uses a node. -/
theorem exists_split (h : c.Represents as) (hkey : c.hm.lookup key = some a) :
    ∃ u v, as = u ++ a :: v := List.append_of_mem ((h.hm key a).mp hkey).1

/-- Looking up a key that is present, in any list. -/
theorem lookup_of_holds (h : c.dll.Holds (u ++ a :: v)) (hkey : c.hm.lookup key = some a) :
    ∃ dll found, c.lookup key = some ({ c with dll }, some found) ∧
      dll.Holds (a :: (u ++ v)) ∧ dll.entry = c.dll.entry := by
  obtain ⟨dll, hhit, hholds, hentry⟩ := processHit_of_holds h hkey
  obtain ⟨node, hnode⟩ := DoublyLinkedList.isSome_entry.mp (hholds.allocated a (by simp))
  refine ⟨dll, node.value, ?_, hholds, hentry⟩
  rw [lookup, hkey]
  show (c.processHit key >>= _) = _
  rw [hhit]
  show (dll.nodes a >>= _) = _
  rw [hnode]
  rfl

/-- **`lookup`** moves the node found to the front. -/
theorem lookup_of_present (h : c.Inv (u ++ a :: v)) (hkey : c.hm.lookup key = some a) :
    ∃ dll found, c.lookup key = some ({ c with dll }, some found) ∧
      Inv { c with dll } (a :: (u ++ v)) ∧ dll.entry = c.dll.entry := by
  obtain ⟨dll, found, hlookup, hholds, hentry⟩ := lookup_of_holds h.holds hkey
  exact ⟨dll, found, hlookup, h.perm List.perm_middle.symm hholds hentry, hentry⟩

theorem lookup_of_absent (hkey : c.hm.lookup key = none) : c.lookup key = some (c, none) := by
  rw [lookup, hkey]

/-- With a new identifier, `hm` leads to the new node too. -/
theorem Represents.lookup_add (h : c.Represents as) (hnot : a ∉ as)
    (hnew : ∀ b ∈ as, c.idOf b ≠ some key.overlayId) (key' : OverlayId) (b : ℕ) :
    (c.hm.add key a).lookup key' = some b ↔
      b ∈ a :: as ∧ Function.update c.idOf a (some key.overlayId) b = some key'.overlayId := by
  have habsent : c.hm.lookup key = none := by
    rw [Option.eq_none_iff_forall_ne_some]
    intro b hb
    rw [h.hm] at hb
    exact hnew b hb.1 hb.2
  have hsame : ∀ b ∈ as, Function.update c.idOf a (some key.overlayId) b = c.idOf b := by
    intro b hb
    apply Function.update_of_ne
    rintro rfl
    exact hnot hb
  rw [LookupTable.lookup_add, habsent, Option.getD_none, List.mem_cons]
  split_ifs with hrank
  · rw [rank_eq_iff] at hrank
    rw [Option.some_inj, hrank]
    constructor
    · rintro rfl
      exact ⟨Or.inl rfl, Function.update_self ..⟩
    · rintro ⟨rfl | hb, hidb⟩
      · rfl
      · rw [hsame b hb] at hidb
        exact absurd hidb (hnew b hb)
  · rw [h.hm]
    constructor
    · rintro ⟨hb, hidb⟩
      exact ⟨Or.inr hb, by rwa [hsame b hb]⟩
    · rintro ⟨rfl | hb, hidb⟩
      · rw [Function.update_self] at hidb
        exact absurd (rank_eq_iff.mpr (Option.some.inj hidb).symm) hrank
      · exact ⟨hb, by rwa [hsame b hb] at hidb⟩

/-- **An insertion** puts a new node in front.  The cache still represents a list if the
identifier that the node keeps is that of no other node. -/
theorem insert_spec (h : c.Inv as) (hacc : refuses p c key = false)
    (hroom : c.size < c.capacity) (value : HostAddress) :
    ∃ c', insert p c key value = some c' ∧ c'.capacity = c.capacity ∧
      c'.dll.Holds (c.fresh :: as) ∧
      c'.idOf = Function.update c.idOf c.fresh (some key.narrowed.overlayId) ∧
      ((∀ b ∈ as, c.idOf b ≠ some key.narrowed.overlayId) → c'.Inv (c.fresh :: as)) := by
  have hnot : c.fresh ∉ as := fun hmem => (h.fresh _ hmem).false
  obtain ⟨dll, happend, hholds, hentry⟩ := DoublyLinkedList.append2Head_spec
    (h.holds.allocate hnot ⟨key.narrowed, value.copied, none, none⟩) hnot
    (by rw [DoublyLinkedList.entry_allocate, Function.update_self]; rfl)
  rw [DoublyLinkedList.entry_allocate] at hentry
  set c' : Cache := { c with
    dll := dll, hm := c.hm.add key.narrowed c.fresh, size := c.size + 1, fresh := c.fresh + 1 }
    with hc'
  have hid : c'.idOf = Function.update c.idOf c.fresh (some key.narrowed.overlayId) := by
    funext b
    rw [idOf, hc', hentry]
    by_cases hb : b = c.fresh
    · rw [hb, Function.update_self, Function.update_self]
      rfl
    · rw [Function.update_of_ne hb, Function.update_of_ne hb, idOf]
  refine ⟨c', ?_, rfl, hholds, hid, fun hnew => ?_⟩
  · rw [insert, hacc]
    show (DoublyLinkedList.append2Head _ c.fresh >>= _) = _
    rw [happend]
    rfl
  have hfresh : c'.idOf c.fresh = some key.narrowed.overlayId := by rw [hid, Function.update_self]
  have hsame : ∀ b ∈ as, c'.idOf b = c.idOf b := by
    intro b hb
    rw [hid]
    apply Function.update_of_ne
    rintro rfl
    exact hnot hb
  refine ⟨⟨hholds, ?_, ?_, ?_, ?_⟩, ?_⟩
  · rw [List.map_cons, List.map_congr_left hsame, List.nodup_cons, hfresh, List.mem_map]
    refine ⟨?_, h.distinct⟩
    rintro ⟨b, hb, heq⟩
    exact hnew b hb heq
  · intro key' b
    rw [hid]
    exact h.lookup_add hnot hnew key' b
  · show c.size + 1 = _
    rw [h.size_eq, List.length_cons, Nat.cast_succ]
  · show c.size + 1 ≤ c.capacity
    omega
  · intro b hb
    show b < c.fresh + 1
    rcases List.mem_cons.mp hb with rfl | hb
    · exact Nat.lt_succ_self _
    · exact (h.fresh b hb).trans (Nat.lt_succ_self _)

/-! ## What `add` does -/

/-- The nodes that stay when there is room for a new one. -/
def stay (c : Cache) (as : List ℕ) : List ℕ := if c.size = c.capacity then as.dropLast else as

theorem stay_subset (c : Cache) (as : List ℕ) : c.stay as ⊆ as := by
  rw [stay]
  split
  · exact List.dropLast_subset as
  · exact List.Subset.refl as

/-- A key that is present is left out. -/
theorem refuses_of_present (hkey : c.hm.lookup key = some a) : refuses p c key = true := by
  rw [refuses, hkey]
  simp

/-- **Room for a new key**: if the cache is full, the last node is evicted. -/
theorem makeRoom_of_absent (h : c.Inv as) (hcap : 2 ≤ c.capacity)
    (hkey : c.hm.lookup key = none) : ∃ c', c.makeRoom key = some c' ∧ c'.Inv (c.stay as) ∧
      c'.size < c'.capacity ∧ c'.capacity = c.capacity ∧ c'.idOf = c.idOf ∧ c'.fresh = c.fresh := by
  rw [makeRoom, stay]
  split_ifs with hfull
  · -- a full cache has two nodes or more
    have hsize := h.size_eq
    obtain ⟨as, q, z, rfl⟩ : ∃ as' q z, as = as' ++ [q, z] := by
      rcases List.eq_nil_or_concat as with rfl | ⟨as', z, rfl⟩
      · rw [List.length_nil] at hsize
        omega
      · rcases List.eq_nil_or_concat as' with rfl | ⟨as', q, rfl⟩
        · rw [List.length_concat, List.length_nil] at hsize
          omega
        · exact ⟨as', q, z, by simp⟩
    obtain ⟨dll, key', hevict, hinv, hentry⟩ := evict_spec h
    refine ⟨{ c with dll := dll, hm := c.hm.remove key', size := c.size - 1 }, ?_, ?_, ?_, rfl,
      idOf_congr hentry, rfl⟩
    · rw [processHit_of_absent hkey]
      show (c.evict >>= _) = _
      rw [hevict]
      rfl
    · rw [List.append_cons, List.dropLast_concat]
      exact hinv
    · dsimp only
      omega
  · exact ⟨c, rfl, h, lt_of_le_of_ne h.size_le hfull, rfl, rfl, rfl⟩

/-- **`add` of a key that is present** moves its node to the front if the cache is full. -/
theorem add_of_present (h : c.Inv (u ++ a :: v)) (hkey : c.hm.lookup key = some a)
    (p : CacheInsertPolicy) (value : HostAddress) :
    ∃ dll, c.add p key value = some { c with dll } ∧ dll.entry = c.dll.entry ∧
      Inv { c with dll } (if c.size = c.capacity then a :: (u ++ v) else u ++ a :: v) := by
  by_cases hfull : c.size = c.capacity
  · obtain ⟨dll, hhit, hinv, hentry⟩ := processHit_spec h hkey
    have hroom : c.makeRoom key = some { c with dll } := by
      rw [makeRoom, if_pos hfull, hhit]
      rfl
    refine ⟨dll, ?_, hentry, by rwa [if_pos hfull]⟩
    rw [add, hroom]
    exact if_pos (refuses_of_present (c := { c with dll }) hkey)
  · have hroom : c.makeRoom key = some c := by rw [makeRoom, if_neg hfull]
    refine ⟨c.dll, ?_, rfl, by rwa [if_neg hfull]⟩
    rw [add, hroom]
    exact if_pos (refuses_of_present hkey)

/-- **`add` of a new key** makes room and, unless the key is left out, puts a node in front. -/
theorem add_of_absent (h : c.Inv as) (hcap : 2 ≤ c.capacity) (hkey : c.hm.lookup key = none)
    (p : CacheInsertPolicy) (value : HostAddress) :
    ∃ c', c.add p key value = some c' ∧ c'.capacity = c.capacity ∧
      ((refuses p c key = true ∧ c'.Inv (c.stay as) ∧ c'.idOf = c.idOf) ∨
        (refuses p c key = false ∧ c'.dll.Holds (c.fresh :: c.stay as) ∧
          c'.idOf = Function.update c.idOf c.fresh (some key.narrowed.overlayId) ∧
          ((∀ b ∈ c.stay as, c.idOf b ≠ some key.narrowed.overlayId) →
            c'.Inv (c.fresh :: c.stay as)))) := by
  obtain ⟨c₁, hroom, hinv, hsize, hcapacity, hid, hfresh⟩ := makeRoom_of_absent h hcap hkey
  have habsent : c₁.hm.lookup key = none := by
    rw [Option.eq_none_iff_forall_ne_some]
    intro b hb
    rw [hinv.hm, hid] at hb
    have hb' := (h.hm key b).mpr ⟨c.stay_subset as hb.1, hb.2⟩
    rw [hkey] at hb'
    cases hb'
  have hrefuses : refuses p c₁ key = refuses p c key := by rw [refuses, refuses, hkey, habsent]
  have hadd : c.add p key value = insert p c₁ key value := by
    rw [add, hroom]
    rfl
  cases hacc : refuses p c key with
  | true =>
      refine ⟨c₁, ?_, hcapacity, Or.inl ⟨rfl, hinv, hid⟩⟩
      rw [hadd, insert, hrefuses, hacc]
      rfl
  | false =>
      obtain ⟨c', hinsert, hcapacity', hholds, hid', hinv'⟩ :=
        insert_spec hinv (hrefuses.trans hacc) hsize value
      rw [hid, hfresh] at hid' hinv'
      rw [hfresh] at hholds
      exact ⟨c', hadd.trans hinsert, hcapacity'.trans hcapacity,
        Or.inr ⟨rfl, hholds, hid', hinv'⟩⟩

end Cache

end Klink
