/-
# The walk of `setNextHop` over the cache (`ds/cache_iterator.h`)

`setNextHop` walks over the list of the cache and looks up the keys that match better,
which moves their nodes to the head of the very list it walks over.  The iterator has
moved on before that, so the nodes that are still ahead of it stay where they are.

`walkCache_visits` : the walk visits the nodes of the list in their order, each once, and
leaves the same nodes in the list.
-/
import Pweb.Klink.SetNextHop

namespace Klink

/-- One round of the loop over the cache: where the iterator is afterwards, the cache, and the
best hop so far. -/
def visitNode (targetOid : OverlayId) (current : ℕ) (cache : Cache) (hop : NextHop) :
    Option (Option ℕ × Cache × NextHop) := do
  let node ← cache.dll.nodes current
  let currentMatchLength := targetOid.getMatchedPrefixLength node.key
  if currentMatchLength > hop.maxLengthMatch then do
    let (cache, found) ← cache.lookup node.key
    return (node.next, cache, ⟨currentMatchLength, some node.key, found.getD hop.nextHop⟩)
  else
    return (node.next, cache, hop)

/-- The loop over the cache, with the nodes that it visits. -/
def walkCache (targetOid : OverlayId) :
    ℕ → Option ℕ → Cache → NextHop → Option (List ℕ × Cache × NextHop)
  | _, none, cache, hop => some ([], cache, hop)
  | 0, some _, _, _ => none
  | rounds + 1, some current, cache, hop => do
    let (next, cache, hop) ← visitNode targetOid current cache hop
    let (visited, cache, hop) ← walkCache targetOid rounds next cache hop
    return (current :: visited, cache, hop)

/-- A list that the walk can use: its pointers are in order, and the table leads the key of a
node to no other node. -/
structure Cache.WellFormedList (c : Cache) (as : List ℕ) : Prop where
  holds : c.dll.Holds as
  own : ∀ a ∈ as, ∀ key value, c.dll.entry a = some (key, value) →
    ∀ b, c.hm.lookup key = some b → b = a

namespace Cache

variable {c : Cache} {as : List ℕ}

/-- The lists that a cache represents are well formed. -/
theorem Represents.wellFormedList (h : c.Represents as) : c.WellFormedList as := by
  refine ⟨h.holds, fun a ha key value hentry b hb => ?_⟩
  rw [h.hm] at hb
  apply h.idOf_injective hb.1 ha
  rw [hb.2, idOf, hentry]
  rfl

/-- Putting the nodes of a well formed list in another order. -/
theorem WellFormedList.perm (h : c.WellFormedList as) {as' : List ℕ} {dll : DoublyLinkedList}
    (hperm : as'.Perm as) (hholds : dll.Holds as') (hentry : dll.entry = c.dll.entry) :
    WellFormedList { c with dll } as' := by
  refine ⟨hholds, fun a ha key value hkey => ?_⟩
  rw [hentry] at hkey
  exact h.own a (hperm.mem_iff.mp ha) key value hkey

end Cache

variable {c : Cache} {as us vs : List ℕ} {a rounds : ℕ}

/-- A round of the loop of `setNextHop`. -/
theorem searchCache_succ (targetOid : OverlayId) (rounds current : ℕ) (c : Cache)
    (hop : NextHop) : searchCache targetOid (rounds + 1) (some current) c hop =
      (visitNode targetOid current c hop).bind fun r =>
        searchCache targetOid rounds r.1 r.2.1 r.2.2 := by
  rw [searchCache, visitNode]
  cases c.dll.nodes current with
  | none => rfl
  | some node =>
      simp only [Option.bind_eq_bind, Option.bind_some]
      split
      · cases c.lookup node.key <;> rfl
      · rfl

/-- The walk is the loop of `setNextHop`. -/
theorem searchCache_eq_walkCache (targetOid : OverlayId) (rounds : ℕ) (current : Option ℕ)
    (c : Cache) (hop : NextHop) :
    searchCache targetOid rounds current c hop =
      (walkCache targetOid rounds current c hop).map Prod.snd := by
  induction rounds generalizing current c hop with
  | zero => cases current <;> rfl
  | succ rounds ih =>
      cases current with
      | none => rfl
      | some current =>
          rw [searchCache_succ, walkCache]
          cases visitNode targetOid current c hop with
          | none => rfl
          | some r =>
              rw [Option.bind_some, ih]
              show _ = ((walkCache targetOid rounds r.1 r.2.1 r.2.2).bind _).map Prod.snd
              cases walkCache targetOid rounds r.1 r.2.1 r.2.2 <;> rfl

/-- **One round.**  The iterator moves on to the next node of the list, and the nodes ahead of it
stay as they are. -/
theorem visitNode_spec (h : c.WellFormedList (us ++ a :: vs)) (targetOid : OverlayId)
    (hop : NextHop) :
    ∃ dll hop' us', visitNode targetOid a c hop = some (vs.head?, { c with dll }, hop') ∧
      Cache.WellFormedList { c with dll } (us' ++ vs) ∧ us'.Perm (us ++ [a]) ∧
      dll.entry = c.dll.entry := by
  obtain ⟨node, hnode, hnext, -⟩ := DoublyLinkedList.exists_node (h.holds.allocated a (by simp))
  rw [h.holds.linked.links.1] at hnext
  have hstays : us ++ [a] ++ vs = us ++ a :: vs := by simp
  rw [visitNode, hnode, hnext]
  simp only [Option.bind_eq_bind, Option.bind_some]
  split
  · cases hkey : c.hm.lookup node.key with
    | none =>
        rw [Cache.lookup_of_absent hkey]
        exact ⟨c.dll, _, us ++ [a], rfl, by rwa [hstays], .refl _, rfl⟩
    | some b =>
        -- the node that is moved to the front is the one visited
        have hentry : c.dll.entry a = some (node.key, node.value) := by
          rw [DoublyLinkedList.entry, hnode]
          rfl
        obtain rfl := h.own a (by simp) _ _ hentry b hkey
        obtain ⟨dll, found, hlookup, hholds, hentry⟩ := Cache.lookup_of_holds h.holds hkey
        rw [hlookup]
        refine ⟨dll, _, b :: us, rfl, ?_, (List.perm_append_singleton b us).symm, hentry⟩
        exact h.perm List.perm_middle.symm hholds hentry
  · exact ⟨c.dll, hop, us ++ [a], rfl, by rwa [hstays], .refl _, rfl⟩

/-- The walk over the nodes `vs` that are ahead of the iterator. -/
theorem walkCache_ahead (h : c.WellFormedList (us ++ vs)) (targetOid : OverlayId)
    (hop : NextHop) (hrounds : vs.length ≤ rounds) :
    ∃ dll hop' as, walkCache targetOid rounds vs.head? c hop = some (vs, { c with dll }, hop') ∧
      Cache.WellFormedList { c with dll } as ∧ as.Perm (us ++ vs) ∧ dll.entry = c.dll.entry := by
  induction vs generalizing c hop us rounds with
  | nil =>
      refine ⟨c.dll, hop, us ++ [], ?_, h, .refl _, rfl⟩
      rw [List.head?_nil, walkCache]
  | cons a vs ih =>
      obtain ⟨rounds, rfl⟩ := Nat.exists_eq_succ_of_ne_zero (Nat.ne_zero_of_lt hrounds)
      obtain ⟨dll, hop₁, us', hvisit, hround, hmoved, hentry⟩ := visitNode_spec h targetOid hop
      obtain ⟨dll', hop', as, hwalk, hlist, hperm, hentry'⟩ :=
        ih hround hop₁ (Nat.le_of_succ_le_succ hrounds)
      refine ⟨dll', hop', as, ?_, hlist, ?_, hentry'.trans hentry⟩
      · rw [List.head?_cons, walkCache, hvisit]
        show (walkCache targetOid rounds vs.head? { c with dll } hop₁).bind _ = _
        rw [hwalk]
        rfl
      · have hvisited : us ++ a :: vs = us ++ [a] ++ vs := by simp
        rw [hvisited]
        exact hperm.trans (hmoved.append_right vs)

/-- The walk over a whole list. -/
theorem walkCache_head (h : c.WellFormedList as) (targetOid : OverlayId) (hop : NextHop)
    (hrounds : as.length ≤ rounds) :
    ∃ dll hop' as', walkCache targetOid rounds c.dll.head c hop = some (as, { c with dll }, hop') ∧
      Cache.WellFormedList { c with dll } as' ∧ as'.Perm as ∧ dll.entry = c.dll.entry := by
  have hahead : c.WellFormedList ([] ++ as) := h
  obtain ⟨dll, hop', as', hwalk, hlist, hperm, hentry⟩ :=
    walkCache_ahead hahead targetOid hop hrounds
  rw [← h.holds.linked.head_eq] at hwalk
  exact ⟨dll, hop', as', hwalk, hlist, hperm, hentry⟩

/-- **The walk over the cache** ends, visits the nodes of the list once each and in their order,
and leaves a permutation of them in the list. -/
theorem walkCache_visits (h : c.WellFormedList as) (targetOid : OverlayId) (hop : NextHop)
    (hrounds : as.length ≤ rounds) :
    as.Nodup ∧ ∃ dll hop' as',
      walkCache targetOid rounds c.dll.head c hop = some (as, { c with dll }, hop') ∧
      searchCache targetOid rounds c.dll.head c hop = some ({ c with dll }, hop') ∧
      dll.Holds as' ∧ as'.Perm as ∧ dll.entry = c.dll.entry := by
  refine ⟨h.holds.linked.nodup, ?_⟩
  obtain ⟨dll, hop', as', hwalk, hlist, hperm, hentry⟩ := walkCache_head h targetOid hop hrounds
  refine ⟨dll, hop', as', hwalk, ?_, hlist.holds, hperm, hentry⟩
  rw [searchCache_eq_walkCache, hwalk]
  rfl

/-- As many rounds as nodes have been made are enough for `setNextHop`, which leaves a cache that
represents its list. -/
theorem searchCache_of_inv (h : c.Inv as) (targetOid : OverlayId) (hop : NextHop) :
    ∃ c' hop' as', searchCache targetOid c.fresh c.dll.head c hop = some (c', hop') ∧
      c'.Inv as' ∧ c'.capacity = c.capacity ∧ as'.Perm as := by
  have hnodup := h.holds.linked.nodup
  have hfresh : as ⊆ List.range c.fresh := by
    intro a ha
    exact List.mem_range.mpr (h.fresh a ha)
  have hrounds : as.length ≤ c.fresh := by
    have hle := (List.subperm_of_subset hnodup hfresh).length_le
    rwa [List.length_range] at hle
  obtain ⟨dll, hop', as', hwalk, hlist, hperm, hentry⟩ :=
    walkCache_head h.wellFormedList targetOid hop hrounds
  refine ⟨_, hop', as', ?_, h.perm hperm hlist.holds hentry, rfl, hperm⟩
  rw [searchCache_eq_walkCache, hwalk]
  rfl

/-- Two nodes, of which the second is moved to the front. -/
theorem walkCache_visits_two :
    let value : HostAddress := ⟨[], 0⟩
    let near : OverlayId := ⟨4, 3, 3⟩
    let far : OverlayId := ⟨2, 3, 3⟩
    let nodes : ℕ → Option DllNode := fun a =>
      if a = 0 then some ⟨far, value, none, some 1⟩
      else if a = 1 then some ⟨near, value, some 0, none⟩ else none
    let c : Cache :=
      ⟨⟨nodes, some 0, some 1⟩, (LookupTable.empty.add far 0).add near 1, 2, 2, 2⟩
    [0, 1].Nodup ∧ ∃ dll hop' as',
      walkCache near 2 (some 0) c ⟨1, none, value⟩ = some ([0, 1], { c with dll }, hop') ∧
      searchCache near 2 (some 0) c ⟨1, none, value⟩ = some ({ c with dll }, hop') ∧
      dll.Holds as' ∧ as'.Perm [0, 1] ∧ dll.entry = c.dll.entry := by
  intro value near far nodes c
  have hlist : c.WellFormedList [0, 1] := by
    refine ⟨⟨⟨⟨rfl, rfl, rfl⟩, ⟨rfl, rfl, rfl⟩⟩, by decide⟩, ?_⟩
    intro a ha key value' hentry b hb
    rcases List.mem_cons.mp ha with rfl | ha
    · have hfar : c.hm.lookup far = some 0 := by decide
      cases hentry
      rw [hfar] at hb
      exact (Option.some.inj hb).symm
    · have hnear : c.hm.lookup near = some 1 := by decide
      obtain rfl := List.mem_singleton.mp ha
      cases hentry
      rw [hnear] at hb
      exact (Option.some.inj hb).symm
  exact walkCache_visits hlist near ⟨1, none, value⟩ (Nat.le_refl 2)

end Klink
