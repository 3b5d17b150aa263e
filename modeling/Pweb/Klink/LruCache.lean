/-
# The cache and least recently used

What the cache does to the order of its keys is a policy of its own (`policy`): an `add`
of a key that is present moves the key only if the cache is full, a full cache gives up
its last key before it looks whether the new one may enter, and the new key is narrowed
to an `int`.  `perform_order` : the pointers follow this policy.

`lru_iff` : it is that of least recently used over those runs in which none of this
matters.
-/
import Pweb.Klink.CacheInvariant
import Pweb.Foundation.Lru

namespace Klink

namespace Cache

/-! ## Policies on lists of identifiers -/

/-- The keys that may enter the cache: not the own identifier, and in neither table. -/
def Cacheable (p : CacheInsertPolicy) (key : OverlayId) : Prop :=
  key.overlayId ≠ p.myOid.overlayId ∧ p.rt.lookup key = none ∧ p.pc.lookup key = none

instance (p : CacheInsertPolicy) (key : OverlayId) : Decidable (Cacheable p key) :=
  inferInstanceAs (Decidable (_ ∧ _ ∧ _))

/-- Least recently used. -/
def lruStep (p : CacheInsertPolicy) (capacity : ℤ) (l : List Int64) : Call → List Int64
  | .lookup key => Lru.lookup key.overlayId l
  | .add key _ => Lru.add (l.length = capacity) (Cacheable p key) key.overlayId l

/-- The keys that `insert` accepts into a cache without them. -/
def Accepts (p : CacheInsertPolicy) (key : OverlayId) : Prop :=
  key.getOverlayId ≠ p.myOid.getOverlayId ∧ p.rt.lookup key = none ∧ p.pc.lookup key = none

instance (p : CacheInsertPolicy) (key : OverlayId) : Decidable (Accepts p key) :=
  inferInstanceAs (Decidable (_ ∧ _ ∧ _))

/-- The policy of the cache. -/
def policy (p : CacheInsertPolicy) (capacity : ℤ) (l : List Int64) : Call → List Int64
  | .lookup key => Lru.lookup key.overlayId l
  | .add key _ =>
    if key.overlayId ∈ l then
      if l.length = capacity then Lru.moveToFront key.overlayId l else l
    else
      let rest := if l.length = capacity then l.dropLast else l
      if Accepts p key then key.narrowed.overlayId :: rest else rest

/-- When a call treats the keys in `l` as least recently used does.  A key that is present is at
the front unless the cache is full.  A new key may enter if the cache is full, and if it may
enter, its `int` is the identifier and differs from the own one. -/
def LikeLru (p : CacheInsertPolicy) (capacity : ℤ) (l : List Int64) : Call → Prop
  | .lookup _ => True
  | .add key _ =>
    if key.overlayId ∈ l then l.length = capacity ∨ l.head? = some key.overlayId
    else (l.length = capacity → Cacheable p key) ∧
      (Cacheable p key → key.narrowed = key ∧ key.getOverlayId ≠ p.myOid.getOverlayId)

instance (p : CacheInsertPolicy) (capacity : ℤ) (l : List Int64) :
    (call : Call) → Decidable (LikeLru p capacity l call)
  | .lookup _ => inferInstanceAs (Decidable True)
  | .add key _ => inferInstanceAs (Decidable (if key.overlayId ∈ l then
      l.length = capacity ∨ l.head? = some key.overlayId
    else (l.length = capacity → Cacheable p key) ∧
      (Cacheable p key → key.narrowed = key ∧ key.getOverlayId ≠ p.myOid.getOverlayId)))

variable {p : CacheInsertPolicy} {c : Cache} {as : List ℕ} {key : OverlayId} {call : Call}
  {capacity : ℤ} {l : List Int64}

theorem nodup_lruStep (h : l.Nodup) : (lruStep p capacity l call).Nodup := by
  cases call with
  | lookup key => exact Lru.nodup_lookup h
  | add key value => exact Lru.nodup_add h

theorem narrowed_eq_iff : key.narrowed.overlayId = key.overlayId ↔ key.narrowed = key := by
  cases key with
  | mk overlayId prefixLength maxLength =>
      rw [OverlayId.narrowed, OverlayId.mk.injEq]
      exact ⟨fun h => ⟨h, rfl, rfl⟩, fun h => h.1⟩

theorem accepts_iff : Accepts p key ↔
    Cacheable p key ∧ key.getOverlayId ≠ p.myOid.getOverlayId := by
  constructor
  · rintro ⟨hown, htables⟩
    refine ⟨⟨fun heq => hown ?_, htables⟩, hown⟩
    rw [OverlayId.getOverlayId, heq, OverlayId.getOverlayId]
  · rintro ⟨⟨-, htables⟩, hown⟩
    exact ⟨hown, htables⟩

/-- **Where the two policies agree.** -/
theorem policy_eq_iff (hcap : 2 ≤ capacity) :
    policy p capacity l call = lruStep p capacity l call ↔ LikeLru p capacity l call := by
  cases call with
  | lookup key => exact iff_of_true rfl trivial
  | add key value =>
      rw [policy, lruStep, LikeLru, Lru.add]
      by_cases hx : key.overlayId ∈ l
      · rw [if_pos hx, if_pos hx, if_pos hx]
        by_cases hfull : l.length = capacity
        · rw [if_pos hfull]
          exact iff_of_true rfl (Or.inl hfull)
        · rw [if_neg hfull, eq_comm, Lru.moveToFront_eq_self_iff hx]
          exact (or_iff_right hfull).symm
      · rw [if_neg hx, if_neg hx, if_neg hx]
        by_cases hacc : Accepts p key
        · obtain ⟨hcache, hown⟩ := accepts_iff.mp hacc
          rw [if_pos hacc, if_pos hcache, List.cons_eq_cons, and_iff_left rfl, narrowed_eq_iff]
          exact ⟨fun heq => ⟨fun _ => hcache, fun _ => ⟨heq, hown⟩⟩, fun h => (h.2 hcache).1⟩
        · rw [if_neg hacc]
          by_cases hcache : Cacheable p key
          · -- the `int` is that of the own identifier
            rw [if_pos hcache]
            refine iff_of_false (fun heq => ?_) fun h =>
              hacc (accepts_iff.mpr ⟨hcache, (h.2 hcache).2⟩)
            have hlength := congrArg List.length heq
            rw [List.length_cons] at hlength
            omega
          · rw [if_neg hcache]
            by_cases hfull : l.length = capacity
            · -- a key is given up for nothing
              rw [if_pos hfull]
              refine iff_of_false (fun heq => ?_) fun h => hcache (h.1 hfull)
              have hlength := congrArg List.length heq
              rw [List.length_dropLast] at hlength
              omega
            · rw [if_neg hfull]
              exact iff_of_true rfl ⟨fun h => absurd h hfull, fun h => absurd h hcache⟩

/-! ## The order of the keys -/

/-- The identifier in a node of the list. -/
def keyId (c : Cache) (a : ℕ) : Int64 := (c.idOf a).getD 0

theorem idOf_eq (h : c.dll.Holds as) {a : ℕ} (ha : a ∈ as) : c.idOf a = some (c.keyId a) := by
  obtain ⟨e, he⟩ := Option.isSome_iff_exists.mp (h.allocated a ha)
  rw [keyId, idOf, he]
  rfl

theorem map_idOf_eq (h : c.dll.Holds as) : as.map c.idOf = (as.map c.keyId).map some := by
  rw [List.map_map]
  exact List.map_congr_left fun a ha => idOf_eq h ha

theorem mem_keys_iff (h : c.Represents as) :
    key.overlayId ∈ as.map c.keyId ↔ ∃ a, c.hm.lookup key = some a := by
  simp only [List.mem_map, h.hm]
  constructor
  · rintro ⟨a, ha, heq⟩
    exact ⟨a, ha, by rw [idOf_eq h.holds ha, heq]⟩
  · rintro ⟨a, ha, heq⟩
    rw [idOf_eq h.holds ha] at heq
    exact ⟨a, ha, Option.some.inj heq⟩

theorem not_mem_keys (h : c.Represents as) (hkey : c.hm.lookup key = none) :
    key.overlayId ∉ as.map c.keyId := by
  rw [mem_keys_iff h, hkey]
  rintro ⟨a, ha⟩
  cases ha

/-- The key that is found is that of the node. -/
theorem keyId_eq (h : c.Represents as) {a : ℕ} (hkey : c.hm.lookup key = some a) :
    c.keyId a = key.overlayId := by
  rw [keyId, ((h.hm key a).mp hkey).2]
  rfl

theorem nodup_keys (h : c.Represents as) : (as.map c.keyId).Nodup := by
  have hdistinct := h.distinct
  rw [map_idOf_eq h.holds] at hdistinct
  exact hdistinct.of_map some

theorem keyId_congr {dll : DoublyLinkedList} (hentry : dll.entry = c.dll.entry) :
    keyId { c with dll } = c.keyId := by
  funext a
  rw [keyId, keyId, idOf_congr (c := c) hentry]

/-- The keys that stay. -/
theorem map_stay (h : c.Represents as) (hcapacity : c.capacity = capacity) :
    (c.stay as).map c.keyId =
      if ((as.map c.keyId).length : ℤ) = capacity then (as.map c.keyId).dropLast
      else as.map c.keyId := by
  rw [stay, List.length_map, ← h.size_eq, hcapacity]
  split
  · rw [List.map_dropLast]
  · rfl

/-- The keys after a node has been moved to the front. -/
theorem map_moved {u v : List ℕ} {a : ℕ} (h : c.Represents (u ++ a :: v))
    (hkey : c.hm.lookup key = some a) : (a :: (u ++ v)).map c.keyId =
      Lru.moveToFront key.overlayId ((u ++ a :: v).map c.keyId) := by
  have hnodup := nodup_keys h
  have hkeys : (u ++ a :: v).map c.keyId
      = u.map c.keyId ++ key.overlayId :: v.map c.keyId := by
    rw [List.map_append, List.map_cons, keyId_eq h hkey]
  rw [hkeys] at hnodup ⊢
  rw [Lru.moveToFront_append_cons hnodup, List.map_cons, List.map_append, keyId_eq h hkey]

/-- A new key is left out exactly if the policy does not accept it. -/
theorem refuses_iff (p : CacheInsertPolicy) (hkey : c.hm.lookup key = none) :
    refuses p c key = true ↔ ¬ Accepts p key := by
  rw [refuses, hkey, Accepts]
  cases p.pc.lookup key with
  | none =>
      cases p.rt.lookup key with
      | none => simp
      | some _ => simp
  | some _ => simp

/-- `lookup` moves the key to the front. -/
theorem lookup_order (h : c.Inv as) (p : CacheInsertPolicy) (key : OverlayId) :
    ∃ c' as', c.perform p (.lookup key) = some c' ∧ c'.capacity = c.capacity ∧ c'.Inv as' ∧
      as'.map c'.keyId = Lru.lookup key.overlayId (as.map c.keyId) := by
  cases hkey : c.hm.lookup key with
  | none =>
      refine ⟨c, as, ?_, rfl, h, ?_⟩
      · rw [perform, lookup_of_absent hkey]
        rfl
      · rw [Lru.lookup, if_neg (not_mem_keys h.toRepresents hkey)]
  | some a =>
      have hx := (mem_keys_iff h.toRepresents).mpr ⟨a, hkey⟩
      obtain ⟨u, v, rfl⟩ := exists_split h.toRepresents hkey
      obtain ⟨dll, found, hlookup, hinv, hentry⟩ := lookup_of_present h hkey
      refine ⟨{ c with dll := dll }, a :: (u ++ v), ?_, rfl, hinv, ?_⟩
      · rw [perform, hlookup]
        rfl
      · rw [keyId_congr hentry, Lru.lookup, if_pos hx, map_moved h.toRepresents hkey]

/-- `add` of a key that is there moves it to the front of a full cache. -/
theorem add_present_order {a : ℕ} (h : c.Inv as) (hcapacity : c.capacity = capacity)
    (hkey : c.hm.lookup key = some a) (p : CacheInsertPolicy) (value : HostAddress) :
    ∃ c' as', c.perform p (.add key value) = some c' ∧ c'.capacity = capacity ∧ c'.Inv as' ∧
      as'.map c'.keyId = policy p capacity (as.map c.keyId) (.add key value) := by
  have hx := (mem_keys_iff h.toRepresents).mpr ⟨a, hkey⟩
  obtain ⟨u, v, rfl⟩ := exists_split h.toRepresents hkey
  obtain ⟨dll, hadd, hentry, hinv⟩ := add_of_present h hkey p value
  refine ⟨{ c with dll := dll }, _, hadd, hcapacity, hinv, ?_⟩
  rw [keyId_congr hentry, policy, if_pos hx, List.length_map, ← h.size_eq, hcapacity]
  split
  · exact map_moved h.toRepresents hkey
  · rfl

/-- `add` of a new key makes room and puts it to the front, if it may enter. -/
theorem add_absent_order (h : c.Inv as) (hcapacity : c.capacity = capacity) (hcap : 2 ≤ capacity)
    (hkey : c.hm.lookup key = none) (p : CacheInsertPolicy) (value : HostAddress) :
    ∃ c' as', c.perform p (.add key value) = some c' ∧ c'.capacity = capacity ∧ c'.dll.Holds as' ∧
      as'.map c'.keyId = policy p capacity (as.map c.keyId) (.add key value) ∧
      ((policy p capacity (as.map c.keyId) (.add key value)).Nodup → c'.Inv as') := by
  have hrefuses := refuses_iff p hkey
  obtain ⟨c', hadd, hcapacity', hcases⟩ := add_of_absent h (by omega) hkey p value
  rw [policy, if_neg (not_mem_keys h.toRepresents hkey), ← map_stay h.toRepresents hcapacity]
  rcases hcases with ⟨hacc, hinv, hid⟩ | ⟨hacc, hholds, hid, hinv⟩
  · have hkeyId : c'.keyId = c.keyId := by
      funext a
      rw [keyId, hid, keyId]
    refine ⟨c', c.stay as, hadd, hcapacity'.trans hcapacity, hinv.holds, ?_, fun _ => hinv⟩
    rw [if_neg (hrefuses.mp hacc), hkeyId]
  · have hkeys : (c.fresh :: c.stay as).map c'.keyId
        = key.narrowed.overlayId :: (c.stay as).map c.keyId := by
      rw [List.map_cons, keyId, hid, Function.update_self, Option.getD_some]
      refine congrArg _ (List.map_congr_left fun b hb => ?_)
      have hne : b ≠ c.fresh := (h.fresh b (c.stay_subset as hb)).ne
      rw [keyId, hid, Function.update_of_ne hne, keyId]
    have hacc' : Accepts p key := by
      by_contra hnot
      rw [hrefuses.mpr hnot] at hacc
      cases hacc
    rw [if_pos hacc', List.nodup_cons]
    refine ⟨c', _, hadd, hcapacity'.trans hcapacity, hholds, hkeys, fun hnew => ?_⟩
    refine hinv fun b hb heq => hnew.1 (List.mem_map.mpr ⟨b, hb, ?_⟩)
    rw [keyId, heq, Option.getD_some]

/-- **The pointers follow the policy of the cache**; as long as this keeps the identifiers
distinct, the cache represents its list. -/
theorem perform_order (h : c.Inv as) (hcapacity : c.capacity = capacity) (hcap : 2 ≤ capacity)
    (p : CacheInsertPolicy) (call : Call) :
    ∃ c' as', c.perform p call = some c' ∧ c'.capacity = capacity ∧ c'.dll.Holds as' ∧
      as'.map c'.keyId = policy p capacity (as.map c.keyId) call ∧
      ((policy p capacity (as.map c.keyId) call).Nodup → c'.Inv as') := by
  cases call with
  | lookup key =>
      obtain ⟨c', as', hperform, hcapacity', hinv, hkeys⟩ := lookup_order h p key
      exact ⟨c', as', hperform, hcapacity'.trans hcapacity, hinv.holds, hkeys, fun _ => hinv⟩
  | add key value =>
      cases hkey : c.hm.lookup key with
      | some a =>
          obtain ⟨c', as', hperform, hcapacity', hinv, hkeys⟩ :=
            add_present_order h hcapacity hkey p value
          exact ⟨c', as', hperform, hcapacity', hinv.holds, hkeys, fun _ => hinv⟩
      | none => exact add_absent_order h hcapacity hcap hkey p value

/-! ## Runs -/

/-- Calls on a cache and on a list of keys that is kept by least recently used. -/
def lruSystem (p : CacheInsertPolicy) (capacity : ℤ) :
    TransitionSystem (Option Cache × List Int64) Call where
  init s := s = (some (new capacity), [])
  step s call := some (s.1.bind fun c => c.perform p call, lruStep p capacity s.2 call)

/-- From head to tail the cache has the keys of the list. -/
def ShowsLru (s : Option Cache × List Int64) : Prop :=
  ∃ c as, s.1 = some c ∧ c.dll.Holds as ∧ as.map c.idOf = s.2.map some

/-- The cache represents its list, which has the keys `l`. -/
def Refines (capacity : ℤ) (s : Option Cache) (l : List Int64) : Prop :=
  ∃ c as, s = some c ∧ c.capacity = capacity ∧ c.Inv as ∧ as.map c.keyId = l

/-- **One call** keeps the two lists together exactly if it treats the keys as least recently
used does. -/
theorem perform_refines {s : Option Cache} (h : Refines capacity s l) (hcap : 2 ≤ capacity)
    (p : CacheInsertPolicy) (call : Call) :
    (ShowsLru (s.bind fun c => c.perform p call, lruStep p capacity l call) ↔
      LikeLru p capacity l call) ∧
    (LikeLru p capacity l call →
      Refines capacity (s.bind fun c => c.perform p call) (lruStep p capacity l call)) := by
  obtain ⟨c, as, rfl, hcapacity, hinv, rfl⟩ := h
  obtain ⟨c', as', hperform, hcapacity', hholds, hkeys, hinv'⟩ :=
    perform_order hinv hcapacity hcap p call
  rw [Option.bind_some, hperform, ← policy_eq_iff hcap, ← hkeys]
  rw [← hkeys] at hinv'
  constructor
  · constructor
    · rintro ⟨c₁, as₁, hc₁, hholds₁, hmap⟩
      obtain rfl := Option.some.inj hc₁
      obtain rfl := hholds₁.linked.forward.unique hholds.linked.forward
      rw [map_idOf_eq hholds] at hmap
      exact List.map_injective_iff.mpr (Option.some_injective _) hmap
    · intro heq
      exact ⟨c', as', rfl, hholds, by rw [map_idOf_eq hholds, heq]⟩
  · intro heq
    have hnodup : (as'.map c'.keyId).Nodup := by
      rw [heq]
      exact nodup_lruStep (nodup_keys hinv.toRepresents)
    exact ⟨c', as', rfl, hcapacity', hinv' hnodup, heq⟩

/-- **The cache refines least recently used** over exactly those runs in which every call treats
the keys as least recently used does. -/
theorem lru_iff (p : CacheInsertPolicy) (capacity : ℤ) (hcap : 2 ≤ capacity)
    {tr : List (Transition (Option Cache × List Int64) Call)} {s : Option Cache × List Int64}
    (hrun : Run (lruSystem p capacity) tr s) :
    (∀ t ∈ tr, ShowsLru t.post) ↔ ∀ t ∈ tr, LikeLru p capacity t.pre.2 t.event := by
  refine hrun.forall_iff (C := fun t => LikeLru p capacity t.pre.2 t.event)
    (P := fun t => ShowsLru t.post) ?_
  intro tr s call s' hrun hlike hstep
  have hrefines : Refines capacity s.1 s.2 := by
    refine hrun.invariant_when (I := fun s => Refines capacity s.1 s.2) ?_ ?_ hlike
    · rintro s rfl
      exact ⟨_, [], rfl, rfl, new_inv (by omega), rfl⟩
    · rintro tr s call s' - hpast hlike hstep
      obtain rfl := Option.some.inj hstep
      exact (perform_refines hpast hcap p call).2 hlike
  obtain rfl := Option.some.inj hstep
  exact (perform_refines hrefines hcap p call).1

/-- Three keys in a cache of two. -/
theorem evicting_like_lru : ∃ tr s, Run (lruSystem (aloneAt ⟨0, 4, 4⟩) 2) tr s ∧
    tr.length = 4 ∧ s.2 = [3, 1] ∧ ∀ t ∈ tr, ShowsLru t.post := by
  have hrun := ((((Run.start (M := lruSystem (aloneAt ⟨0, 4, 4⟩) 2) rfl).extend
    (e := .add ⟨1, 4, 4⟩ ⟨[], 0⟩) rfl).extend (e := .add ⟨2, 4, 4⟩ ⟨[], 0⟩) rfl).extend
    (e := .lookup ⟨1, 4, 4⟩) rfl).extend (e := .add ⟨3, 4, 4⟩ ⟨[], 0⟩) rfl
  refine ⟨_, _, hrun, rfl, by decide, (lru_iff _ 2 le_rfl hrun).mpr ?_⟩
  simp only [List.forall_mem_append, List.forall_mem_singleton]
  refine ⟨⟨⟨⟨fun _ h => (List.not_mem_nil h).elim, ?_⟩, ?_⟩, ?_⟩, ?_⟩
  all_goals decide +kernel

/-- **A key that is added again** while there is room stays where it is. -/
theorem added_again_not_moved : ∃ tr s, Run (lruSystem (aloneAt ⟨0, 4, 4⟩) 3) tr s ∧
    tr.map Transition.event = [.add ⟨1, 4, 4⟩ ⟨[], 0⟩, .add ⟨2, 4, 4⟩ ⟨[], 0⟩,
      .add ⟨1, 4, 4⟩ ⟨[], 0⟩] ∧ ¬ ∀ t ∈ tr, ShowsLru t.post := by
  set p : CacheInsertPolicy := aloneAt ⟨0, 4, 4⟩
  have hcap : (2 : ℤ) ≤ 3 := by decide
  have hnew : Refines 3 (some (new 3)) [] := ⟨_, [], rfl, rfl, new_inv (by decide), rfl⟩
  have hone := (perform_refines hnew hcap p (.add ⟨1, 4, 4⟩ ⟨[], 0⟩)).2 (by decide +kernel)
  have htwo := (perform_refines hone hcap p (.add ⟨2, 4, 4⟩ ⟨[], 0⟩)).2 (by decide +kernel)
  have hrun := (((Run.start (M := lruSystem p 3) rfl).extend
    (e := .add ⟨1, 4, 4⟩ ⟨[], 0⟩) rfl).extend (e := .add ⟨2, 4, 4⟩ ⟨[], 0⟩) rfl).extend
    (e := .add ⟨1, 4, 4⟩ ⟨[], 0⟩) rfl
  refine ⟨_, _, hrun, rfl, fun hall => ?_⟩
  have hlike := (perform_refines htwo hcap p _).1.mp (hall _ (Run.last_mem _ _))
  exact absurd hlike (by decide +kernel)

end Cache

end Klink
