/-
# The choice of the load balancer

The loop of `ha_load_balancer::process_query` inspects the proxies in cyclic order.  It
selects the enabled one at the smallest distance from where it starts
(`selectProxy_eq_some_iff`), and finds one if any is enabled (`selectProxy_of_enabled`).
-/
import Pweb.Dnsgw.GatewaySteps

namespace Gateway

/-! ## The loop -/

section SelectProxy

variable {enabled : ℕ → Bool} {size hs : ℕ}

/-- The iterator wraps around at the end. -/
theorem next_eq_mod (hhs : hs < size) :
    (if hs + 1 = size then 0 else hs + 1) = (hs + 1) % size := by
  split_ifs with hend
  · rw [hend, Nat.mod_self]
  · rw [Nat.mod_eq_of_lt (by omega)]

/-- **The nearest enabled proxy** is selected, if there is one within `cnt` positions. -/
theorem selectProxy_eq_some_iff {cnt j : ℕ} (hhs : hs < size) :
    selectProxy enabled size cnt hs = some j ↔
      ∃ k < cnt, j = (hs + k) % size ∧ enabled j = true ∧
        ∀ k' < k, enabled ((hs + k') % size) = false := by
  induction cnt generalizing hs with
  | zero => simp [selectProxy]
  | succ cnt ih =>
      have hstart : (hs + 0) % size = hs := by rw [Nat.add_zero, Nat.mod_eq_of_lt hhs]
      have hnext : ∀ k, ((hs + 1) % size + k) % size = (hs + (k + 1)) % size := by
        intro k
        rw [Nat.mod_add_mod, Nat.add_assoc, Nat.add_comm 1]
      rw [selectProxy]
      by_cases hen : enabled hs = true
      · -- the first proxy is enabled: distance 0
        rw [if_pos hen]
        constructor
        · intro h
          obtain rfl := Option.some.inj h
          exact ⟨0, Nat.succ_pos cnt, hstart.symm, hen, fun k' hk' => absurd hk' (by omega)⟩
        · rintro ⟨k, -, rfl, -, hbefore⟩
          rcases Nat.eq_zero_or_pos k with rfl | hpos
          · rw [hstart]
          · have hdisabled := hbefore 0 hpos
            rw [hstart, hen] at hdisabled
            cases hdisabled
      · -- the search goes on from the next position, where distances are one less
        rw [if_neg hen, next_eq_mod hhs, ih (Nat.mod_lt _ (by omega))]
        constructor
        · rintro ⟨k, hk, rfl, hj, hbefore⟩
          refine ⟨k + 1, by omega, hnext k, hj, fun k' hk' => ?_⟩
          cases k' with
          | zero => rwa [hstart, ← Bool.not_eq_true]
          | succ k' =>
              rw [← hnext]
              exact hbefore k' (by omega)
        · rintro ⟨k, hk, rfl, hj, hbefore⟩
          cases k with
          | zero =>
              rw [hstart] at hj
              exact absurd hj hen
          | succ k =>
              refine ⟨k, by omega, (hnext k).symm, hj, fun k' hk' => ?_⟩
              rw [hnext]
              exact hbefore (k' + 1) (by omega)

/-- Every proxy is inspected once, so an enabled one is found. -/
theorem selectProxy_of_enabled (hhs : hs < size) {i : ℕ} (hi : i < size)
    (hen : enabled i = true) :
    ∃ j < size, enabled j = true ∧ selectProxy enabled size size hs = some j := by
  -- the distance from `hs` to `i`
  have hdist : ∃ k, k < size ∧ enabled ((hs + k) % size) = true := by
    rcases le_or_gt hs i with hle | hlt
    · refine ⟨i - hs, by omega, ?_⟩
      rwa [Nat.add_sub_cancel' hle, Nat.mod_eq_of_lt hi]
    · refine ⟨i + size - hs, by omega, ?_⟩
      rwa [Nat.add_sub_cancel' (by omega), Nat.add_mod_right, Nat.mod_eq_of_lt hi]
  have hfind := Nat.find_spec hdist
  refine ⟨_, Nat.mod_lt _ (by omega), hfind.2,
    (selectProxy_eq_some_iff hhs).mpr ⟨Nat.find hdist, hfind.1, rfl, hfind.2, fun k' hk' => ?_⟩⟩
  have hmin := Nat.find_min hdist hk'
  rw [not_and, Bool.not_eq_true] at hmin
  exact hmin (hk'.trans hfind.1)

end SelectProxy

end Gateway
