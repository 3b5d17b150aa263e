/-
# Enumerating combinations (`nextcomb` of `plnode/protocol/plexus/golay/golay.c`)

`nextcomb` changes an array whose entries 1 to `r` are increasing numbers up to `n`.

`nextcomb_next` : it goes to the next combination in lexicographic order.
`calls_nextcomb` : so from 1 to `r` it visits all of them, as long as there is a next one;
after the last it would look below the array.
-/
import Pweb.Foundation.Combinations
import Pweb.Klink.GolayCode

open Combinations

namespace Klink

namespace Golay

/-- The entries 1 to `r` of the array. -/
def positions (r : ℕ) (a : List ℕ) : List ℕ := (List.range' 1 r).map fun i => a.getD i 0

variable {n r i j m v : ℕ} {a : List ℕ}

theorem length_positions (r : ℕ) (a : List ℕ) : (positions r a).length = r := by
  rw [positions, List.length_map, List.length_range']

theorem getElem?_positions (h : i < r) : (positions r a)[i]? = some (a.getD (i + 1) 0) := by
  rw [positions, List.getElem?_map, List.getElem?_range' h, Option.map_some,
    show 1 + 1 * i = i + 1 by omega]

theorem getD_set (h : i < a.length) : (a.set i v).getD m 0 = if m = i then v else a.getD m 0 := by
  rw [List.getD_eq_getElem?_getD, List.getD_eq_getElem?_getD, List.getElem?_set]
  rcases eq_or_ne m i with rfl | hne
  · rw [if_pos rfl, if_pos rfl, if_pos h]
    rfl
  · rw [if_neg hne.symm, if_neg hne]

/-! ## The loops -/

/-- The search goes down over the entries that are as large as they can be. -/
theorem scanLoop_eq (hj : 0 < j) (hx : a.getD j 0 ≠ n - r + j) (hle : j ≤ i)
    (htop : ∀ m, j < m → m ≤ i → a.getD m 0 = n - r + m) : scanLoop n r a i = some j := by
  induction i with
  | zero => omega
  | succ i ih =>
      rcases Nat.eq_or_lt_of_le hle with rfl | hlt
      · exact if_neg hx
      · rw [scanLoop, if_pos (htop (i + 1) hlt le_rfl)]
        exact ih (Nat.le_of_lt_succ hlt) fun m hm hm' => htop m hm (Nat.le_succ_of_le hm')

theorem length_fillLoop (j i : ℕ) (a : List ℕ) : (fillLoop j i a).length = a.length := by
  induction i generalizing a with
  | zero =>
      unfold fillLoop
      split
      · exact List.length_set
      · rfl
  | succ i ih =>
      unfold fillLoop
      split
      · rw [ih, List.length_set]
      · rfl

/-- The entries from `j` to `i` count up from the one that was found. -/
theorem getD_fillLoop (hj : 0 < j) (hi : i < a.length) : (fillLoop j i a).getD m 0 =
    if j ≤ m ∧ m ≤ i then a.getD j 0 + m - j + 1 else a.getD m 0 := by
  induction i generalizing a with
  | zero =>
      rw [fillLoop, if_neg hj.ne', if_neg (by omega)]
  | succ i ih =>
      rw [fillLoop]
      split_ifs with hle hm hm
      · rw [ih (by rw [List.length_set]; omega), getD_set hi, getD_set hi]
        split_ifs <;> omega
      · rw [ih (by rw [List.length_set]; omega), getD_set hi, getD_set hi]
        split_ifs <;> omega
      · omega
      · rfl

/-! ## The next combination -/

theorem map_range'_eq_iff {f : ℕ → ℕ} {s t k : ℕ} :
    (List.range' s k).map f = List.range' t k ↔ ∀ i < k, f (s + i) = t + i := by
  constructor
  · intro h i hi
    have hentry := congrArg (fun l => l[i]?) h
    simp only [List.getElem?_map, List.getElem?_range' hi, Option.map_some, Option.some_inj,
      Nat.one_mul] at hentry
    exact hentry
  · intro h
    apply List.ext_getElem?
    intro i
    rcases Nat.lt_or_ge i k with hi | hi
    · rw [List.getElem?_map, List.getElem?_range' hi, List.getElem?_range' hi, Option.map_some,
        Nat.one_mul, h i hi]
    · rw [List.getElem?_eq_none (by simpa using hi), List.getElem?_eq_none (by simpa using hi)]

theorem positions_add (p k : ℕ) (a : List ℕ) : positions (p + k) a =
    positions p a ++ (List.range' (p + 1) k).map fun i => a.getD i 0 := by
  rw [positions, positions, ← List.map_append, Nat.add_comm p 1, List.range'_append_1]

theorem positions_congr {p : ℕ} {a' : List ℕ}
    (h : ∀ i, 0 < i → i ≤ p → a'.getD i 0 = a.getD i 0) : positions p a' = positions p a := by
  apply List.map_congr_left
  intro i hi
  obtain ⟨hle, hlt⟩ := List.mem_range'_1.mp hi
  exact h i hle (by omega)

/-- The entries of the next combination, in an array. -/
theorem positions_eq_append {p k x : ℕ} {a' : List ℕ}
    (hhead : ∀ i, 0 < i → i ≤ p → a'.getD i 0 = a.getD i 0)
    (htail : ∀ i < k, a'.getD (p + 1 + i) 0 = x + i) :
    positions (p + k) a' = positions p a ++ List.range' x k := by
  rw [positions_add, positions_congr hhead, map_range'_eq_iff.mpr htail]

/-- **`nextcomb` goes to the next combination.** -/
theorem nextcomb_next (hn : r ≤ n) (hr : r < a.length) {l' : List ℕ}
    (h : Next (n + 1) (positions r a) l') :
    ∃ a', nextcomb n r a = some a' ∧ a'.length = a.length ∧ positions r a' = l' := by
  obtain ⟨head, x, k, hlt, hl, rfl⟩ := h
  obtain ⟨p, rfl⟩ : ∃ p, r = p + (k + 1) := by
    have hlength := congrArg List.length hl
    rw [length_positions, List.length_append, List.length_cons, List.length_range'] at hlength
    exact ⟨_, hlength⟩
  obtain ⟨rfl, hrest⟩ : positions p a = head ∧
      (List.range' (p + 1) (k + 1)).map (fun i => a.getD i 0) =
        x :: List.range' (n + 1 - k) k := by
    rw [positions_add] at hl
    refine List.append_inj' hl ?_
    rw [List.length_map, List.length_range', List.length_cons, List.length_range']
  rw [List.range'_succ, List.map_cons, List.cons.injEq, map_range'_eq_iff] at hrest
  obtain ⟨hx, htop⟩ := hrest
  cases k with
  | zero =>
      have hx : a.getD (p + (0 + 1)) 0 = x := hx
      refine ⟨a.set (p + (0 + 1)) (x + 1), ?_, List.length_set, ?_⟩
      · unfold nextcomb
        dsimp only
        rw [getD_set hr, if_pos rfl, hx, if_pos (by omega)]
      · refine positions_eq_append (fun i hi hi' => ?_) fun i hi => ?_
        · rw [getD_set hr, if_neg (by omega)]
        · rw [Nat.lt_one_iff.mp hi, Nat.add_zero, getD_set hr, if_pos rfl]
  | succ k =>
      -- the last entry is `n`; the search finds the entry `p + 1`
      have hlast : a.getD (p + (k + 1 + 1)) 0 = n := by
        have hentry := htop k (Nat.lt_succ_self k)
        rw [show p + 1 + 1 + k = p + (k + 1 + 1) by omega] at hentry
        omega
      have hset : ∀ i, i ≤ p + (k + 1) →
          (a.set (p + (k + 1 + 1)) (n + 1)).getD i 0 = a.getD i 0 := fun i hi => by
        rw [getD_set hr, if_neg (by omega)]
      have hscan : scanLoop n (p + (k + 1 + 1)) (a.set (p + (k + 1 + 1)) (n + 1))
          (p + (k + 1 + 1) - 1) = some (p + 1) := by
        refine scanLoop_eq (Nat.succ_pos p) ?_ (by omega) fun i hi hi' => ?_
        · rw [hset _ (by omega), hx]
          omega
        · have hentry := htop (i - (p + 1 + 1)) (by omega)
          rw [Nat.add_sub_cancel' hi] at hentry
          rw [hset _ (by omega), hentry]
          omega
      refine ⟨fillLoop (p + 1) (p + (k + 1 + 1)) (a.set (p + (k + 1 + 1)) (n + 1)), ?_, ?_, ?_⟩
      · unfold nextcomb
        dsimp only
        rw [getD_set hr, if_pos rfl, hlast, if_neg (by omega), hscan]
        rfl
      · rw [length_fillLoop, List.length_set]
      · have hlength : p + (k + 1 + 1) < (a.set (p + (k + 1 + 1)) (n + 1)).length := by
          rwa [List.length_set]
        refine positions_eq_append (fun i hi hi' => ?_) fun i hi => ?_
        · rw [getD_fillLoop (Nat.succ_pos p) hlength, if_neg (by omega), hset _ (by omega)]
        · rw [getD_fillLoop (Nat.succ_pos p) hlength, if_pos (by omega), hset _ (by omega), hx]
          omega

/-- **The calls of `nextcomb` visit all combinations**, in lexicographic order. -/
theorem calls_nextcomb (hn : r ≤ n) (hr : r < a.length)
    (ha : positions r a = List.range' 1 r) (hi : i < n.choose r) :
    ∃ a', calls (nextcomb n r) i a = some a' ∧ a'.length = a.length ∧
      (combinations n r)[i]? = some (positions r a') := by
  refine calls_of_chain (I := fun b : List ℕ => b.length = a.length) (fun b l' hb hnext => ?_)
    (combinations_chain n r) ?_ rfl ?_
  · obtain ⟨b', hcall, hlength, hl'⟩ := nextcomb_next hn (hb ▸ hr) hnext
    exact ⟨b', hcall, hlength.trans hb, hl'⟩
  · rw [combinations, head?_combinationsFrom hn, ha]
  · rwa [length_combinations]

end Golay

end Klink
