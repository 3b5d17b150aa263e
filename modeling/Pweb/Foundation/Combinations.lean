/-
# Combinations in lexicographic order

`combinations n r` are the increasing lists of `r` numbers from 1 to `n`, the smallest
list first.

`Next N l l'` : `l'` follows `l`: the last entry that is not as large as it can be goes
up by one, and the entries behind it are as small as they can be then.

`combinations_chain` : each combination follows the one before it; so a function that
computes the next one visits all of them in turn (`calls_of_chain`).
-/
import Mathlib

namespace Combinations

/-- The increasing lists of `r` of the `m` numbers from `lo` on, in lexicographic order. -/
def combinationsFrom (lo m r : ℕ) : List (List ℕ) :=
  (List.sublistsLen r (List.range' lo m)).reverse

/-- The increasing lists of `r` numbers from 1 to `n`, in lexicographic order. -/
def combinations (n r : ℕ) : List (List ℕ) := combinationsFrom 1 n r

/-- The list `l'` follows `l`, among the lists of numbers below `N`. -/
def Next (N : ℕ) (l l' : List ℕ) : Prop :=
  ∃ head x k, x + k + 1 < N ∧ l = head ++ x :: List.range' (N - k) k ∧
    l' = head ++ List.range' (x + 1) (k + 1)

variable {lo m n r N : ℕ} {l l' : List ℕ}

theorem mem_combinations :
    l ∈ combinations n r ↔ l.Sublist (List.range' 1 n) ∧ l.length = r := by
  rw [combinations, combinationsFrom, List.mem_reverse, List.mem_sublistsLen]

theorem length_combinations (n r : ℕ) : (combinations n r).length = n.choose r := by
  rw [combinations, combinationsFrom, List.length_reverse, List.length_sublistsLen,
    List.length_range']

theorem nodup_combinations (n r : ℕ) : (combinations n r).Nodup := by
  rw [combinations, combinationsFrom, List.nodup_reverse]
  exact List.nodup_sublistsLen r List.nodup_range'

/-! ## The order -/

theorem combinationsFrom_zero (lo m : ℕ) : combinationsFrom lo m 0 = [[]] := by
  rw [combinationsFrom, List.sublistsLen_zero, List.reverse_singleton]

theorem combinationsFrom_succ (lo m r : ℕ) : combinationsFrom lo (m + 1) (r + 1) =
    (combinationsFrom (lo + 1) m r).map (List.cons lo) ++ combinationsFrom (lo + 1) m (r + 1) := by
  rw [combinationsFrom, List.range'_succ, List.sublistsLen_succ_cons, List.reverse_append,
    ← List.map_reverse, ← combinationsFrom, ← combinationsFrom]

theorem combinationsFrom_eq_nil (h : m < r) : combinationsFrom lo m r = [] := by
  rw [combinationsFrom, List.sublistsLen_of_length_lt, List.reverse_nil]
  rwa [List.length_range']

/-- The first combination. -/
theorem head?_combinationsFrom (h : r ≤ m) :
    (combinationsFrom lo m r).head? = some (List.range' lo r) := by
  induction m generalizing lo r with
  | zero =>
      rw [Nat.le_zero.mp h, combinationsFrom_zero]
      rfl
  | succ m ih =>
      cases r with
      | zero =>
          rw [combinationsFrom_zero]
          rfl
      | succ r =>
          rw [combinationsFrom_succ, List.head?_append, List.head?_map,
            ih (Nat.le_of_succ_le_succ h), List.range'_succ]
          rfl

/-- The last combination. -/
theorem getLast?_combinationsFrom (h : r ≤ m) :
    (combinationsFrom lo m r).getLast? = some (List.range' (lo + m - r) r) := by
  induction m generalizing lo r with
  | zero =>
      rw [Nat.le_zero.mp h, combinationsFrom_zero]
      rfl
  | succ m ih =>
      cases r with
      | zero =>
          rw [combinationsFrom_zero]
          rfl
      | succ r =>
          rw [combinationsFrom_succ, List.getLast?_append]
          rcases Nat.lt_or_ge m (r + 1) with hlt | hle
          · have heq : m = r := by omega
            rw [combinationsFrom_eq_nil hlt, List.getLast?_nil, List.getLast?_map, ih heq.ge, heq,
              Option.none_or, Option.map_some, show lo + 1 + r - r = lo + 1 by omega,
              show lo + (r + 1) - (r + 1) = lo by omega, List.range'_succ]
          · rw [ih hle, Option.some_or, show lo + 1 + m - (r + 1) = lo + (m + 1) - (r + 1) by omega]

theorem Next.cons (h : Next N l l') (a : ℕ) : Next N (a :: l) (a :: l') := by
  obtain ⟨head, x, k, hlt, rfl, rfl⟩ := h
  exact ⟨a :: head, x, k, hlt, rfl, rfl⟩

theorem combinationsFrom_chain (lo m r : ℕ) :
    (combinationsFrom lo m r).IsChain (Next (lo + m)) := by
  induction m generalizing lo r with
  | zero =>
      cases r with
      | zero =>
          rw [combinationsFrom_zero]
          exact List.isChain_singleton _
      | succ r =>
          rw [combinationsFrom_eq_nil (Nat.succ_pos r)]
          exact List.isChain_nil
  | succ m ih =>
      cases r with
      | zero =>
          rw [combinationsFrom_zero]
          exact List.isChain_singleton _
      | succ r =>
          have hbound : lo + 1 + m = lo + (m + 1) := by omega
          have hfirst := ih (lo + 1) r
          have hsecond := ih (lo + 1) (r + 1)
          rw [hbound] at hfirst hsecond
          rw [combinationsFrom_succ, List.isChain_append]
          refine ⟨?_, hsecond, ?_⟩
          · rw [List.isChain_map]
            exact hfirst.imp fun _ _ hnext => hnext.cons lo
          · intro l hl l' hl'
            -- the lists that start with `lo` are over, the next one starts with `lo + 1`
            rcases Nat.lt_or_ge m (r + 1) with hlt | hle
            · rw [combinationsFrom_eq_nil hlt] at hl'
              cases hl'
            · rw [head?_combinationsFrom hle, Option.mem_some_iff] at hl'
              rw [List.getLast?_map, getLast?_combinationsFrom (Nat.le_of_succ_le hle),
                Option.map_some, Option.mem_some_iff] at hl
              refine ⟨[], lo, r, by omega, ?_, ?_⟩
              · rw [← hl, hbound]
                rfl
              · rw [← hl']
                rfl

/-- **Each combination follows the one before it.** -/
theorem combinations_chain (n r : ℕ) : (combinations n r).IsChain (Next (n + 1)) := by
  rw [Nat.add_comm]
  exact combinationsFrom_chain 1 n r

/-! ## Enumeration -/

section

variable {σ α : Type} {f : σ → Option σ} {v : σ → α} {R : α → α → Prop} {I : σ → Prop}

/-- `i` calls of a function that changes a state. -/
def calls (f : σ → Option σ) : ℕ → σ → Option σ
  | 0, s => some s
  | i + 1, s => (f s).bind (calls f i)

/-- **A function that goes from one element of a chain to the next visits all of them in turn**;
`v s` is the element that the state `s` holds. -/
theorem calls_of_chain (hf : ∀ s b, I s → R (v s) b → ∃ s', f s = some s' ∧ I s' ∧ v s' = b)
    {l : List α} {s : σ} (hchain : l.IsChain R) (hhead : l.head? = some (v s)) (hs : I s) {i : ℕ}
    (hi : i < l.length) : ∃ s', calls f i s = some s' ∧ I s' ∧ l[i]? = some (v s') := by
  induction i generalizing l s with
  | zero => exact ⟨s, rfl, hs, by rw [← List.head?_eq_getElem?, hhead]⟩
  | succ i ih =>
      rcases l with _ | ⟨a, _ | ⟨b, l⟩⟩
      · cases hhead
      · exact absurd hi (by simp)
      · obtain rfl : a = v s := Option.some.inj hhead
        obtain ⟨hab, hrest⟩ := List.isChain_cons_cons.mp hchain
        obtain ⟨s₁, hstep, hs₁, hv⟩ := hf s b hs hab
        obtain ⟨s', hcalls, hs', hentry⟩ :=
          ih hrest (by rw [hv]; rfl) hs₁ (Nat.lt_of_succ_lt_succ hi)
        refine ⟨s', ?_, hs', ?_⟩
        · rw [calls, hstep]
          exact hcalls
        · rw [List.getElem?_cons_succ]
          exact hentry

end

end Combinations
