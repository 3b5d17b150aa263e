/-
# The representation of the cache

The list, the table and the counter of a cache agree after any calls of `add` and
`lookup`, as long as a new key is not confused with a node that stays in the cache:
the cache looks for a key under its identifier, a `long`, but keeps it under an `int`.

`wellFormed_iff` : this is the exact condition; `keepsApart_of_int` : it is met by
identifiers that fit an `int`.
-/
import Pweb.Klink.Cache
import Pweb.Foundation.Runs

namespace Klink

namespace Cache

/-- Calls on a cache that is empty at first; `none` after an undefined effect. -/
def system (p : CacheInsertPolicy) (capacity : ℤ) : TransitionSystem (Option Cache) Call where
  init s := s = some (new capacity)
  step s call := some (s.bind fun c => c.perform p call)

/-- The effect was defined, and the cache represents a list. -/
def WellFormed (capacity : ℤ) (s : Option Cache) : Prop :=
  ∃ c as, s = some c ∧ c.capacity = capacity ∧ c.Represents as

/-- A new key is not kept under the identifier of a node that stays. -/
def KeepsApart (p : CacheInsertPolicy) (t : Transition (Option Cache) Call) : Prop :=
  ∀ c key value, t.pre = some c → t.event = .add key value → refuses p c key = false →
    ∀ a, c.hm.lookup key.narrowed = some a → c.size = c.capacity ∧ c.dll.tail = some a

variable {p : CacheInsertPolicy} {c : Cache} {as : List ℕ} {key : OverlayId} {call : Call}
  {capacity : ℤ} {tr : List (Transition (Option Cache) Call)} {s post : Option Cache}

/-- A key whose identifier fits an `int` is found under the identifier that is kept. -/
theorem keepsApart_of_int {t : Transition (Option Cache) Call}
    (hint : ∀ key value, t.event = .add key value → key.narrowed = key) : KeepsApart p t := by
  intro c key value _ hevent hacc a ha
  rw [hint key value hevent] at ha
  rw [refuses_of_present ha] at hacc
  cases hacc

/-- A lookup keeps everything apart. -/
theorem keepsApart_lookup : KeepsApart p ⟨s, .lookup key, post⟩ := by
  intro c key value _ hevent
  cases hevent

/-- The nodes that stay, through the eyes of the table. -/
theorem apart_iff (h : c.Represents as) : (∀ b ∈ c.stay as, c.idOf b ≠ some key.overlayId) ↔
    ∀ a, c.hm.lookup key = some a → c.size = c.capacity ∧ c.dll.tail = some a := by
  rw [h.holds.linked.tail_eq, stay]
  constructor
  · intro hnew a ha
    rw [h.hm] at ha
    by_cases hfull : c.size = c.capacity
    · rw [if_pos hfull] at hnew
      refine ⟨hfull, ?_⟩
      obtain ⟨as, z, rfl⟩ := List.eq_nil_or_concat as |>.resolve_left (List.ne_nil_of_mem ha.1)
      rw [List.concat_eq_append, List.dropLast_concat] at hnew
      rw [List.concat_eq_append, List.mem_append, List.mem_singleton] at ha
      rw [List.concat_eq_append, List.getLast?_concat]
      rcases ha.1 with hmem | rfl
      · exact absurd ha.2 (hnew a hmem)
      · rfl
    · rw [if_neg hfull] at hnew
      exact absurd ha.2 (hnew a ha.1)
  · intro hlast b hb hid
    have hmem : b ∈ as := c.stay_subset as hb
    obtain ⟨hfull, htail⟩ := hlast b ((h.hm key b).mpr ⟨hmem, hid⟩)
    rw [if_pos hfull] at hb
    -- the last node does not stay
    have hnodup := h.holds.linked.nodup
    rw [← List.dropLast_append_getLast? b htail, ← List.concat_eq_append,
      List.nodup_concat] at hnodup
    exact hnodup.1 hb

/-- **One call** on a cache that represents a list. -/
theorem perform_spec (h : c.Inv as) (hcap : 2 ≤ c.capacity) (p : CacheInsertPolicy) (call : Call) :
    ∃ c', c.perform p call = some c' ∧ c'.capacity = c.capacity ∧
      (KeepsApart p ⟨some c, call, some c'⟩ → ∃ as', c'.Inv as') ∧
      (¬ KeepsApart p ⟨some c, call, some c'⟩ → ∀ as', ¬ c'.Represents as') := by
  cases call with
  | lookup key =>
      have hinv : ∃ c', c.perform p (.lookup key) = some c' ∧ c'.capacity = c.capacity ∧
          ∃ as', c'.Inv as' := by
        cases hkey : c.hm.lookup key with
        | none => exact ⟨c, by rw [perform, lookup_of_absent hkey]; rfl, rfl, as, h⟩
        | some a =>
            obtain ⟨u, v, rfl⟩ := exists_split h.toRepresents hkey
            obtain ⟨dll, found, hlookup, hinv, -⟩ := lookup_of_present h hkey
            exact ⟨{ c with dll := dll }, by rw [perform, hlookup]; rfl, rfl, _, hinv⟩
      obtain ⟨c', hperform, hcapacity, hinv⟩ := hinv
      exact ⟨c', hperform, hcapacity, fun _ => hinv, fun hnot => absurd keepsApart_lookup hnot⟩
  | add key value =>
      cases hkey : c.hm.lookup key with
      | some a =>
          obtain ⟨u, v, rfl⟩ := exists_split h.toRepresents hkey
          obtain ⟨dll, hadd, -, hinv⟩ := add_of_present h hkey p value
          refine ⟨_, hadd, rfl, fun _ => ⟨_, hinv⟩, fun hnot => absurd ?_ hnot⟩
          intro c₁ key₁ value₁ hpre hevent hacc
          obtain rfl := Option.some.inj hpre
          obtain ⟨rfl, rfl⟩ := Call.add.inj hevent
          rw [refuses_of_present hkey] at hacc
          cases hacc
      | none =>
          obtain ⟨c', hadd, hcapacity, hcases⟩ := add_of_absent h hcap hkey p value
          refine ⟨c', hadd, hcapacity, ?_⟩
          have hapart : KeepsApart p ⟨some c, .add key value, some c'⟩ ↔
              (refuses p c key = false →
                ∀ b ∈ c.stay as, c.idOf b ≠ some key.narrowed.overlayId) := by
            rw [apart_iff h.toRepresents]
            constructor
            · intro hkeep
              exact hkeep c key value rfl rfl
            · intro hkeep c₁ key₁ value₁ hpre hevent
              obtain rfl := Option.some.inj hpre
              obtain ⟨rfl, rfl⟩ := Call.add.inj hevent
              exact hkeep
          rw [hapart]
          rcases hcases with ⟨hacc, hinv, -⟩ | ⟨hacc, hholds, hid, hinv⟩
          · refine ⟨fun _ => ⟨_, hinv⟩, fun hnot => absurd (fun hacc' => ?_) hnot⟩
            rw [hacc] at hacc'
            cases hacc'
          · refine ⟨fun hnew => ⟨_, hinv (hnew hacc)⟩, fun hnot as' hrep => ?_⟩
            refine hnot fun _ b hb heq => ?_
            -- two nodes with the identifier that is kept
            obtain rfl := hrep.holds.linked.forward.unique hholds.linked.forward
            have hfresh : b ≠ c.fresh := (h.fresh b (c.stay_subset as hb)).ne
            apply hfresh
            apply hrep.idOf_injective (List.mem_cons_of_mem _ hb) List.mem_cons_self
            rw [hid, Function.update_of_ne hfresh, Function.update_self, heq]

/-- Up to the first confusion the cache keeps its invariant. -/
theorem inv_of_keepsApart (hcap : 2 ≤ capacity) (hrun : Run (system p capacity) tr s)
    (hkeep : ∀ t ∈ tr, KeepsApart p t) : ∃ c as, s = some c ∧ c.capacity = capacity ∧ c.Inv as := by
  refine hrun.invariant_when (I := fun s => ∃ c as, s = some c ∧ c.capacity = capacity ∧ c.Inv as)
    ?_ ?_ hkeep
  · rintro s rfl
    exact ⟨_, [], rfl, rfl, new_inv (by omega)⟩
  · rintro tr s call s' - ⟨c, as, rfl, hcapacity, hinv⟩ hkeep hstep
    obtain ⟨c', hperform, hcapacity', hgood, -⟩ := perform_spec hinv (by omega) p call
    obtain rfl : c.perform p call = s' := Option.some.inj hstep
    rw [hperform] at hkeep ⊢
    obtain ⟨as', hinv'⟩ := hgood hkeep
    exact ⟨c', as', rfl, hcapacity'.trans hcapacity, hinv'⟩

/-- **The cache keeps its representation** exactly as long as no new key is confused with a node
that stays. -/
theorem wellFormed_iff (p : CacheInsertPolicy) (capacity : ℤ) (hcap : 2 ≤ capacity)
    {tr : List (Transition (Option Cache) Call)} {s : Option Cache}
    (hrun : Run (system p capacity) tr s) :
    (∀ t ∈ tr, WellFormed capacity t.post) ↔ ∀ t ∈ tr, KeepsApart p t := by
  refine hrun.forall_iff (C := KeepsApart p) (P := fun t => WellFormed capacity t.post) ?_
  intro tr s call s' hrun hkeep hstep
  obtain ⟨c, as, rfl, hcapacity, hinv⟩ := inv_of_keepsApart hcap hrun hkeep
  obtain ⟨c', hperform, hcapacity', hgood, hbad⟩ := perform_spec hinv (by omega) p call
  obtain rfl : c.perform p call = s' := Option.some.inj hstep
  rw [hperform]
  constructor
  · rintro ⟨c₁, as', hc₁, -, hrep⟩
    obtain rfl := Option.some.inj hc₁
    by_contra hnot
    exact hbad hnot as' hrep
  · intro hkeep'
    obtain ⟨as', hinv'⟩ := hgood hkeep'
    exact ⟨c', as', rfl, hcapacity'.trans hcapacity, hinv'.toRepresents⟩

/-- A node without routing table and proactive cache. -/
def aloneAt (myOid : OverlayId) : CacheInsertPolicy := ⟨LookupTable.empty, LookupTable.empty, myOid⟩

/-- Three keys in a cache of two. -/
theorem evicting_wellFormed : ∃ tr s, Run (system (aloneAt ⟨0, 4, 4⟩) 2) tr s ∧
    tr.length = 4 ∧ ∀ t ∈ tr, WellFormed 2 t.post := by
  have hrun := ((((Run.start (M := system (aloneAt ⟨0, 4, 4⟩) 2) rfl).extend
    (e := .add ⟨1, 4, 4⟩ ⟨[], 0⟩) rfl).extend (e := .add ⟨2, 4, 4⟩ ⟨[], 0⟩) rfl).extend
    (e := .lookup ⟨1, 4, 4⟩) rfl).extend (e := .add ⟨3, 4, 4⟩ ⟨[], 0⟩) rfl
  refine ⟨_, _, hrun, rfl, (wellFormed_iff _ 2 le_rfl hrun).mpr ?_⟩
  simp only [List.forall_mem_append, List.forall_mem_singleton]
  refine ⟨⟨⟨⟨fun _ h => (List.not_mem_nil h).elim, ?_⟩, ?_⟩, keepsApart_lookup⟩, ?_⟩
  all_goals
    apply keepsApart_of_int
    rintro key value ⟨⟩
    rfl

/-- **Adding an identifier of 33 bits twice** puts two nodes with the same identifier into the
cache. -/
theorem large_id_added_twice : ∃ tr s, Run (system (aloneAt ⟨1, 4, 4⟩) 2) tr s ∧
    tr.map Transition.event = [.add ⟨2 ^ 32, 4, 4⟩ ⟨[], 0⟩, .add ⟨2 ^ 32, 4, 4⟩ ⟨[], 0⟩] ∧
    ¬ ∀ t ∈ tr, WellFormed 2 t.post := by
  set p : CacheInsertPolicy := aloneAt ⟨1, 4, 4⟩
  set call : Call := .add ⟨2 ^ 32, 4, 4⟩ ⟨[], 0⟩ with hcall
  have hnew : (new 2).Inv [] := new_inv (by decide)
  obtain ⟨c₁, hperform₁, hcapacity₁, hgood, -⟩ := perform_spec hnew le_rfl p call
  have hvalues : ((new 2).perform p call).map (fun c => (c.hm.lookup ⟨0, 4, 4⟩, c.size,
      refuses p c ⟨2 ^ 32, 4, 4⟩)) = some (some 0, 1, false) := by decide +kernel
  rw [hperform₁] at hvalues
  obtain ⟨hfound, hrest⟩ := Prod.mk.inj (Option.some.inj hvalues)
  obtain ⟨hsize, hacc⟩ := Prod.mk.inj hrest
  obtain ⟨as, hinv⟩ := hgood (by
    intro c key value hpre _ _ a ha
    obtain rfl := Option.some.inj hpre
    cases ha)
  obtain ⟨c₂, hperform₂, -, -, hbad⟩ := perform_spec hinv (by rw [hcapacity₁]; decide) p call
  have hrun₁ : Run (system p 2) ([] ++ [⟨some (new 2), call, some c₁⟩]) (some c₁) :=
    (Run.start rfl).extend (congrArg some hperform₁)
  have hrun₂ : Run (system p 2) ([] ++ [⟨some (new 2), call, some c₁⟩] ++
      [⟨some c₁, call, some c₂⟩]) (some c₂) := hrun₁.extend (congrArg some hperform₂)
  refine ⟨_, _, hrun₂, rfl, fun hall => ?_⟩
  obtain ⟨c, as', hc, -, hrep⟩ := hall _ (Run.last_mem _ _)
  obtain rfl := Option.some.inj hc
  refine hbad (fun hkeep => ?_) as' hrep
  have hfull := (hkeep c₁ _ _ rfl hcall hacc 0 hfound).1
  rw [hsize, hcapacity₁] at hfull
  exact absurd hfull (by decide)

end Cache

end Klink
