/-
# The load balancer and its counter (`dnsgw/haloadbalancer.cpp`)

`ha_load_balancer::process_query` with its machine integers: the counter is a signed 64-bit
integer that every query advances, and the proxies are reached through an iterator that must
stay inside its container.

* `balanced_round_robin` : a query goes to the enabled proxy nearest to its place in the
  rotation, or is completed if no proxy is enabled, and queries in a row go to different
  proxies while all of them are enabled;
* `perform_calls` : the gateway makes the same calls.
-/
import Pweb.Dnsgw.LoadBalancer

namespace HaLoadBalancer

open Gateway (sanityCheck selectProxy)

/-! ## The function -/

/-- A query, and the flags `enabled_` of the proxies at that time. -/
structure Arrival (size : ℕ) where
  query : DnsQuery
  enabled : List Bool
  length_eq : enabled.length = size

/-- What the function calls: `complete_query`, or `process_query` of the proxy at a position. -/
inductive Call where
  | completeQuery (rcode : Rcode) (result : MetricResult)
  | processQuery (proxy : ℕ)
  deriving DecidableEq, Repr

/-- The counter afterwards, the positions at which the function looks, and its calls. -/
structure Outcome where
  offset : Int64
  inspected : List ℤ
  calls : List Call
  deriving DecidableEq, Repr

/-- `(*hs)->enabled()`, for an iterator inside the container. -/
def isEnabled (enabled : List Bool) (hs : ℤ) : Option Bool :=
  if 0 ≤ hs then enabled[hs.toNat]? else none

/-- The loop with `cnt` rounds to go: the positions inspected and the one selected, or `none` if
the iterator leaves the container. -/
def selectLoop (enabled : List Bool) : ℕ → ℤ → Option (List ℤ × Option ℤ)
  | 0, _ => some ([], none)
  | cnt + 1, hs =>
    match isEnabled enabled hs with
    | none => none
    | some true => some ([hs], some hs)
    | some false =>
      (selectLoop enabled cnt (if hs + 1 = enabled.length then 0 else hs + 1)).map
        fun r => (hs :: r.1, r.2)

/-- `process_query`; the remainder is that of C++. -/
def processQuery {size : ℕ} (offset : Int64) (a : Arrival size) : Option Outcome :=
  match sanityCheck a.query with
  | some (rcode, result) => some ⟨offset, [], [.completeQuery rcode result]⟩
  | none =>
    (selectLoop a.enabled size (offset.toInt.tmod size)).map fun r =>
      ⟨offset + 1, r.1, match r.2 with
        | some hs => [.processQuery hs.toNat]
        | none => [.completeQuery .serverFailure .haConnectionError]⟩

/-- Queries one after the other: the counter afterwards, and what became of each. -/
def run {size : ℕ} : Int64 → List (Arrival size) → Option (Int64 × List Outcome)
  | offset, [] => some (offset, [])
  | offset, a :: arrivals =>
    match processQuery offset a with
    | none => none
    | some outcome => (run outcome.offset arrivals).map fun r => (r.1, outcome :: r.2)

/-! ## The rotation -/

variable {size : ℕ}

/-- The query is let through. -/
def Arrival.Passes (a : Arrival size) : Prop := sanityCheck a.query = none

instance (a : Arrival size) : Decidable a.Passes := inferInstanceAs (Decidable (_ = _))

/-- All proxies are enabled when the query arrives. -/
def Arrival.AllEnabled (a : Arrival size) : Prop := ∀ b ∈ a.enabled, b = true

/-- The number of queries that are let through. -/
def passed (arrivals : List (Arrival size)) : ℕ := arrivals.countP fun a => a.Passes

/-- The position at a distance from the place of a query in the rotation. -/
def place (size number distance : ℕ) : ℕ := (number + distance) % size

/-- The query with this number goes to the enabled proxy at the smallest distance, or is
completed if none is enabled; all positions are in range, and none is inspected twice. -/
structure Balanced (number : ℕ) (a : Arrival size) (outcome : Outcome) : Prop where
  in_range : ∀ hs ∈ outcome.inspected, 0 ≤ hs ∧ hs < size
  nodup : outcome.inspected.Nodup
  calls : (∃ k < size, a.enabled[place size number k]? = some true ∧
      (∀ k' < k, a.enabled[place size number k']? = some false) ∧
      outcome.calls = [.processQuery (place size number k)]) ∨
    ((∀ b ∈ a.enabled, b = false) ∧
      outcome.calls = [.completeQuery .serverFailure .haConnectionError])

/-- The proxies to which the queries went. -/
def dispatched (outcomes : List Outcome) : List ℕ :=
  outcomes.flatMap fun outcome => outcome.calls.filterMap fun call =>
    match call with
    | .processQuery proxy => some proxy
    | .completeQuery _ _ => none

theorem place_lt (hsize : 1 ≤ size) (number k : ℕ) : place size number k < size :=
  Nat.mod_lt _ hsize

/-- Different distances are different positions. -/
theorem place_inj {number k k' : ℕ} (hk : k < size) (hk' : k' < size)
    (h : place size number k = place size number k') : k = k' := by
  have hmod : k ≡ k' [MOD size] := Nat.ModEq.add_left_cancel' number h
  rwa [Nat.ModEq, Nat.mod_eq_of_lt hk, Nat.mod_eq_of_lt hk'] at hmod

/-- Only the place in the rotation matters, not the round. -/
theorem place_mod (size number : ℕ) : place size (number % size) = place size number := by
  funext k
  rw [place, place, Nat.mod_add_mod]

theorem place_succ (size number : ℕ) : place size (number + 1) = place size number ∘ Nat.succ := by
  funext k
  rw [Function.comp_apply, place, place, Nat.add_assoc, Nat.add_comm 1]

/-- The positions from a place on: that place, and those from the next one on. -/
theorem map_place_succ (size number m : ℕ) : (List.range (m + 1)).map (place size number) =
    number % size :: (List.range m).map (place size (number + 1)) := by
  rw [List.range_succ_eq_map, List.map_cons, List.map_map, place_succ]
  rfl

theorem nodup_map_place {number m : ℕ} (hm : m ≤ size) :
    ((List.range m).map (place size number)).Nodup := by
  refine List.Nodup.map_on (fun k hk k' hk' h => ?_) List.nodup_range
  rw [List.mem_range] at hk hk'
  exact place_inj (hk.trans_le hm) (hk'.trans_le hm) h

/-! ## The loop -/

/-- The flags as a function. -/
def flag (enabled : List Bool) (i : ℕ) : Bool := enabled.getD i false

theorem flag_eq_iff {enabled : List Bool} {i : ℕ} (hi : i < enabled.length) {b : Bool} :
    flag enabled i = b ↔ enabled[i]? = some b := by
  rw [flag, List.getD_eq_getElem _ _ hi, List.getElem?_eq_getElem hi, Option.some_inj]

theorem isEnabled_natCast {enabled : List Bool} {hs : ℕ} (hlt : hs < enabled.length) :
    isEnabled enabled hs = some (flag enabled hs) := by
  rw [isEnabled, if_pos (Int.natCast_nonneg hs), Int.toNat_natCast]
  exact (flag_eq_iff hlt).mp rfl

/-- **The loop** stays inside the container, goes round it position by position, and selects what
the search over all positions selects. -/
theorem selectLoop_eq {enabled : List Bool} (cnt : ℕ) {hs : ℕ} (hlt : hs < enabled.length) :
    ∃ m ≤ cnt, selectLoop enabled cnt hs =
      some (((List.range m).map (place enabled.length hs)).map Nat.cast,
        (selectProxy (flag enabled) enabled.length cnt hs).map Nat.cast) := by
  induction cnt generalizing hs with
  | zero => exact ⟨0, le_rfl, rfl⟩
  | succ cnt ih =>
      rw [selectLoop, isEnabled_natCast hlt, selectProxy]
      rcases hflag : flag enabled hs with _ | _
      · -- the position inspected next is the one at distance 1
        have hnext : (if (hs : ℤ) + 1 = enabled.length then 0 else (hs : ℤ) + 1)
            = ((if hs + 1 = enabled.length then 0 else hs + 1 : ℕ) : ℤ) := by
          split_ifs with h h' h'
          · rfl
          · omega
          · omega
          · rfl
        obtain ⟨m, hm, hloop⟩ := ih (Nat.mod_lt (hs + 1) (by omega : 0 < enabled.length))
        refine ⟨m + 1, Nat.succ_le_succ hm, ?_⟩
        dsimp only
        rw [hnext, Gateway.next_eq_mod hlt, hloop, if_neg (by decide), place_mod, map_place_succ,
          Nat.mod_eq_of_lt hlt]
        rfl
      · refine ⟨1, Nat.succ_le_succ (Nat.zero_le cnt), ?_⟩
        dsimp only
        rw [if_pos rfl, map_place_succ, Nat.mod_eq_of_lt hlt]
        rfl

/-- The counter of a query as a starting position. -/
theorem tmod_ofNat {number : ℕ} (hnumber : number < 2 ^ 63) :
    (Int64.ofNat number).toInt.tmod size = ((number % size : ℕ) : ℤ) := by
  rw [Int64.toInt_ofNat_of_lt hnumber]
  exact (Int.ofNat_tmod number size).symm

/-! ## One query -/

/-- What a query that is let through meets. -/
theorem processQuery_of_passes (hsize : 1 ≤ size) {number : ℕ} (hnumber : number < 2 ^ 63)
    {a : Arrival size} (ha : a.Passes) :
    ∃ m ≤ size, processQuery (Int64.ofNat number) a =
      some ⟨Int64.ofNat (number + 1), ((List.range m).map (place size number)).map Nat.cast,
        match selectProxy (flag a.enabled) size size (number % size) with
        | some hs => [.processQuery hs]
        | none => [.completeQuery .serverFailure .haConnectionError]⟩ := by
  have hlt : number % size < a.enabled.length := by
    rw [a.length_eq]
    exact Nat.mod_lt _ hsize
  obtain ⟨m, hm, hloop⟩ := selectLoop_eq size hlt
  rw [a.length_eq, place_mod] at hloop
  refine ⟨m, hm, ?_⟩
  have hsane : sanityCheck a.query = none := ha
  rw [processQuery, hsane, tmod_ofNat hnumber, hloop, Int64.ofNat_add]
  rcases selectProxy (flag a.enabled) size size (number % size) with _ | hs
  · rfl
  · rfl

theorem processQuery_of_not_passes {a : Arrival size} (ha : ¬ a.Passes) (offset : Int64) :
    ∃ rcode result, processQuery offset a = some ⟨offset, [], [.completeQuery rcode result]⟩ := by
  rcases hsane : sanityCheck a.query with _ | ⟨rcode, result⟩
  · exact absurd hsane ha
  · exact ⟨rcode, result, by rw [processQuery, hsane]⟩

/-- **One query** goes to the nearest enabled proxy. -/
theorem processQuery_balanced (hsize : 1 ≤ size) {number : ℕ} (hnumber : number < 2 ^ 63)
    {a : Arrival size} (ha : a.Passes) :
    ∃ outcome, processQuery (Int64.ofNat number) a = some outcome ∧
      outcome.offset = Int64.ofNat (number + 1) ∧ Balanced number a outcome := by
  obtain ⟨m, hm, hprocess⟩ := processQuery_of_passes hsize hnumber ha
  refine ⟨_, hprocess, rfl, ?_, (nodup_map_place hm).map Nat.cast_injective, ?_⟩
  · intro hs hmem
    obtain ⟨i, hi, rfl⟩ := List.mem_map.mp hmem
    obtain ⟨k, -, rfl⟩ := List.mem_map.mp hi
    have hlt := place_lt hsize number k
    omega
  · have hstart : number % size < size := Nat.mod_lt _ hsize
    have hindex : ∀ k, place size number k < a.enabled.length := fun k => by
      rw [a.length_eq]
      exact place_lt hsize number k
    have hplace : ∀ k, (number % size + k) % size = place size number k :=
      congrFun (place_mod size number)
    rcases hselect : selectProxy (flag a.enabled) size size (number % size) with _ | j
    · refine Or.inr ⟨fun b hb => ?_, rfl⟩
      -- an enabled proxy would have been found
      by_contra hb'
      obtain ⟨i, hi, rfl⟩ := List.getElem_of_mem hb
      have hflag : flag a.enabled i = true := by
        rw [flag_eq_iff hi, List.getElem?_eq_getElem hi, Bool.eq_true_of_not_eq_false hb']
      obtain ⟨j, -, -, hfound⟩ := Gateway.selectProxy_of_enabled hstart (a.length_eq ▸ hi) hflag
      rw [hselect] at hfound
      cases hfound
    · obtain ⟨k, hk, rfl, hflag, hbefore⟩ := (Gateway.selectProxy_eq_some_iff hstart).mp hselect
      rw [hplace] at hflag ⊢
      refine Or.inl ⟨k, hk, (flag_eq_iff (hindex k)).mp hflag, fun k' hk' => ?_, rfl⟩
      have hdisabled := hbefore k' hk'
      rw [hplace] at hdisabled
      exact (flag_eq_iff (hindex k')).mp hdisabled

/-- While all proxies are enabled, it is the one at distance 0. -/
theorem Balanced.calls_of_allEnabled {number : ℕ} {a : Arrival size} {outcome : Outcome}
    (hsize : 1 ≤ size) (h : Balanced number a outcome) (hall : a.AllEnabled) :
    outcome.calls = [.processQuery (place size number 0)] := by
  rcases h.calls with ⟨k, -, -, hbefore, hcalls⟩ | ⟨hnone, -⟩
  · rcases Nat.eq_zero_or_pos k with rfl | hpos
    · exact hcalls
    · have hdisabled := List.mem_of_getElem? (hbefore 0 hpos)
      exact absurd (hall _ hdisabled) (by decide)
  · obtain ⟨b, hb⟩ := List.exists_mem_of_length_pos (a.length_eq.symm ▸ hsize)
    rw [hnone b hb] at hb
    exact absurd (hall _ hb) (by decide)

/-! ## Queries in a row -/

/-- **A run** counts the queries that are let through. -/
theorem run_offset (hsize : 1 ≤ size) (arrivals : List (Arrival size)) {number : ℕ}
    (h : number + passed arrivals ≤ 2 ^ 63) :
    ∃ outcomes, run (Int64.ofNat number) arrivals
      = some (Int64.ofNat (number + passed arrivals), outcomes) ∧
      ((∀ a ∈ arrivals, a.AllEnabled) →
        dispatched outcomes = (List.range (passed arrivals)).map (place size number)) := by
  induction arrivals generalizing number with
  | nil => exact ⟨[], rfl, fun _ => rfl⟩
  | cons a arrivals ih =>
      by_cases ha : a.Passes
      · have hpassed : passed (a :: arrivals) = passed arrivals + 1 :=
          List.countP_cons_of_pos (by simpa using ha)
        rw [hpassed] at h ⊢
        obtain ⟨outcome, hprocess, hoffset, hbalanced⟩ :=
          processQuery_balanced hsize (by omega : number < 2 ^ 63) ha
        obtain ⟨outcomes, hrun, hrest⟩ := ih (by omega : number + 1 + passed arrivals ≤ 2 ^ 63)
        refine ⟨outcome :: outcomes, ?_, fun hall => ?_⟩
        · rw [run, hprocess]
          dsimp only
          rw [hoffset, hrun, Nat.add_assoc, Nat.add_comm 1]
          rfl
        · obtain ⟨hfirst, hothers⟩ := List.forall_mem_cons.mp hall
          rw [dispatched, List.flatMap_cons, hbalanced.calls_of_allEnabled hsize hfirst,
            map_place_succ, ← hrest hothers]
          rfl
      · have hpassed : passed (a :: arrivals) = passed arrivals :=
          List.countP_cons_of_neg (by simpa using ha)
        rw [hpassed] at h ⊢
        obtain ⟨rcode, result, hprocess⟩ := processQuery_of_not_passes ha (Int64.ofNat number)
        obtain ⟨outcomes, hrun, hrest⟩ := ih h
        refine ⟨⟨.ofNat number, [], [.completeQuery rcode result]⟩ :: outcomes, ?_,
          fun hall => hrest (List.forall_mem_cons.mp hall).2⟩
        rw [run, hprocess]
        dsimp only
        rw [hrun]
        rfl

/-- **Round robin.**  After any queries of which fewer than `2 ^ 63` were let through, the next
one that is let through is balanced; and while all proxies are enabled, the next `size` of
them go to `size` different proxies. -/
theorem balanced_round_robin (size : ℕ) (hsize : 1 ≤ size) (earlier : List (Arrival size))
    (hearlier : passed earlier < 2 ^ 63) :
    ∃ offset outcomes, run 0 earlier = some (offset, outcomes) ∧
      (∀ a : Arrival size, a.Passes → ∃ outcome, processQuery offset a = some outcome ∧
        Balanced (passed earlier) a outcome) ∧
      ∀ block : List (Arrival size), (∀ a ∈ block, a.AllEnabled) → passed block = size →
        passed earlier + size ≤ 2 ^ 63 →
        ∃ offset' outcomes', run offset block = some (offset', outcomes') ∧
          (dispatched outcomes').length = size ∧ (dispatched outcomes').Nodup := by
  obtain ⟨outcomes, hrun, -⟩ := run_offset hsize earlier
    (by omega : 0 + passed earlier ≤ 2 ^ 63)
  rw [Nat.zero_add] at hrun
  refine ⟨_, outcomes, hrun, fun a ha => ?_, fun block hall hblock hbound => ?_⟩
  · obtain ⟨outcome, hprocess, -, hbalanced⟩ := processQuery_balanced hsize hearlier ha
    exact ⟨outcome, hprocess, hbalanced⟩
  · obtain ⟨outcomes', hrun', hdispatched⟩ := run_offset hsize block
      (by omega : passed earlier + passed block ≤ 2 ^ 63)
    refine ⟨_, outcomes', hrun', ?_⟩
    rw [hdispatched hall, hblock, List.length_map, List.length_range]
    exact ⟨rfl, nodup_map_place le_rfl⟩

/-- Two proxies, after one query: the next query goes to the second proxy, or to the first one
if only that is enabled. -/
theorem twoProxies_balanced : ∃ offset outcomes, run 0
      ([⟨{ sender := .tcp 0, questions := [⟨[97], tA, cIn⟩] }, [true, true], rfl⟩] :
        List (Arrival 2))
        = some (offset, outcomes) ∧
    ∀ a : Arrival 2, a.Passes → ∃ outcome, processQuery offset a = some outcome ∧
      Balanced 1 a outcome := by
  obtain ⟨offset, outcomes, hrun, hnext, -⟩ := balanced_round_robin 2 (by decide)
    [⟨{ sender := .tcp 0, questions := [⟨[97], tA, cIn⟩] }, [true, true], rfl⟩] (by decide)
  exact ⟨offset, outcomes, hrun, hnext⟩

end HaLoadBalancer

/-! ## The gateway -/

namespace Gateway

open HaLoadBalancer

/-- The arrival of a query at a gateway. -/
def arrivalOf (cfg : Config) (g : Gateway) (q : ℕ) : Arrival cfg.homeAgents.length where
  query := g.queries q
  enabled := (List.range cfg.homeAgents.length).map g.enabled
  length_eq := by rw [List.length_map, List.length_range]

/-- Make a call for a query. -/
def perform (cfg : Config) (q : ℕ) (g : Gateway) : Call → Gateway
  | .completeQuery rcode result => g.completeQuery q rcode result
  | .processQuery hs =>
    match cfg.homeAgents[hs]? with
    | none => g
    | some ha => hasendproxyProcessQuery cfg g ha q

/-- The selection only looks at positions inside the container. -/
theorem selectProxy_congr {enabled enabled' : ℕ → Bool} {size cnt hs : ℕ}
    (h : ∀ i < size, enabled i = enabled' i) (hhs : hs < size) :
    selectProxy enabled size cnt hs = selectProxy enabled' size cnt hs := by
  induction cnt generalizing hs with
  | zero => rfl
  | succ cnt ih =>
      rw [selectProxy, selectProxy, h hs hhs, next_eq_mod hhs, ih (Nat.mod_lt _ (by omega))]

/-- **The gateway makes the calls of the load balancer.** -/
theorem perform_calls (cfg : Config) (g : Gateway) (q : ℕ) (hoffset : g.offset < 2 ^ 63) :
    ∃ outcome, HaLoadBalancer.processQuery (Int64.ofNat g.offset) (arrivalOf cfg g q)
        = some outcome ∧
      Gateway.processQuery cfg g q = outcome.calls.foldl (perform cfg q)
        (if (arrivalOf cfg g q).Passes then { g with offset := g.offset + 1 } else g) := by
  have hsize : 1 ≤ cfg.homeAgents.length := List.length_pos_of_ne_nil cfg.homeAgents_ne
  rcases hsane : sanityCheck (g.queries q) with _ | ⟨rcode, result⟩
  · have ha : (arrivalOf cfg g q).Passes := hsane
    obtain ⟨m, -, hprocess⟩ := processQuery_of_passes hsize hoffset ha
    refine ⟨_, hprocess, ?_⟩
    have hflags : ∀ i < cfg.homeAgents.length, flag (arrivalOf cfg g q).enabled i = g.enabled i := by
      intro i hi
      rw [flag_eq_iff (by rwa [(arrivalOf cfg g q).length_eq])]
      simp [arrivalOf, hi]
    rw [selectProxy_congr hflags (Nat.mod_lt _ hsize), if_pos ha, processQuery, hsane]
    dsimp only
    cases selectProxy g.enabled cfg.homeAgents.length cfg.homeAgents.length
      (g.offset % cfg.homeAgents.length) <;> rfl
  · have ha : ¬ (arrivalOf cfg g q).Passes := fun hpass => by
      have hnone : sanityCheck (g.queries q) = none := hpass
      rw [hsane] at hnone
      cases hnone
    refine ⟨⟨Int64.ofNat g.offset, [], [.completeQuery rcode result]⟩, ?_, ?_⟩
    · have hquery : sanityCheck (arrivalOf cfg g q).query = some (rcode, result) := hsane
      rw [HaLoadBalancer.processQuery, hquery]
    · rw [if_neg ha, processQuery, hsane]
      rfl

end Gateway
