/-
# Binary linear codes

Words are natural numbers, of which the bits below `n` count.

* `weight n x` : the number of these bits that are set; `weight_xor_le`, `countBits_eq`;
* `word l` : the word with the bits of a list; `card_filter_weight` counts the words of at
  most `t` bits;
* `combine f n x` : the exclusive or of the columns `f i` over the bits `i` of `x`, which
  is linear (`combine_xor`); `every_combine` checks all of them;
* `eq_of_syndrome_eq` : if no word of the code but zero has `2 t` bits or fewer, the
  patterns of at most `t` bits have different syndromes;
* `Decodes` : a table that gives each syndrome a pattern of at most `t` bits, as one does that
  holds them all when there are no more syndromes (`Decodes.of_patterns`); it corrects `t` errors (`Decodes.correct`), and every word is within `t` bits of exactly one word of
  the code (`Decodes.existsUnique`).
-/
import Mathlib

namespace BitCode

/-! ## Weight -/

/-- The positions below `n` of the bits that are set. -/
def support (n x : ℕ) : Finset ℕ := (Finset.range n).filter fun i => x.testBit i

/-- The number of bits below `n` that are set. -/
def weight (n x : ℕ) : ℕ := (support n x).card

variable {n x y : ℕ}

theorem mem_support {i : ℕ} : i ∈ support n x ↔ i < n ∧ x.testBit i = true := by
  rw [support, Finset.mem_filter, Finset.mem_range]

theorem support_xor_subset (n x y : ℕ) : support n (x ^^^ y) ⊆ support n x ∪ support n y := by
  intro i hi
  obtain ⟨hlt, hbit⟩ := mem_support.mp hi
  rw [Nat.testBit_xor] at hbit
  rw [Finset.mem_union, mem_support, mem_support]
  cases hx : x.testBit i with
  | true => exact Or.inl ⟨hlt, rfl⟩
  | false =>
      rw [hx, Bool.false_xor] at hbit
      exact Or.inr ⟨hlt, hbit⟩

/-- **Triangle inequality.** -/
theorem weight_xor_le (n x y : ℕ) : weight n (x ^^^ y) ≤ weight n x + weight n y :=
  (Finset.card_le_card (support_xor_subset n x y)).trans (Finset.card_union_le _ _)

/-- A word is determined by its bits. -/
theorem eq_of_support_eq (hx : x < 2 ^ n) (hy : y < 2 ^ n) (h : support n x = support n y) :
    x = y := by
  apply Nat.eq_of_testBit_eq
  intro i
  by_cases hi : i < n
  · have hiff : i ∈ support n x ↔ i ∈ support n y := by rw [h]
    rw [mem_support, mem_support, and_iff_right hi, and_iff_right hi] at hiff
    exact Bool.eq_iff_iff.mpr hiff
  · have hle : 2 ^ n ≤ 2 ^ i := Nat.pow_le_pow_right (by omega) (by omega)
    rw [Nat.testBit_lt_two_pow (hx.trans_le hle), Nat.testBit_lt_two_pow (hy.trans_le hle)]

theorem support_zero (n : ℕ) : support n 0 = ∅ := by
  apply Finset.eq_empty_of_forall_notMem
  intro i hi
  rw [mem_support, Nat.zero_testBit] at hi
  cases hi.2

/-! ## Counting -/

theorem weight_succ (n x : ℕ) :
    weight (n + 1) x = weight n x + if x.testBit n then 1 else 0 := by
  rw [weight, support, Finset.range_add_one, Finset.filter_insert, ← support]
  split_ifs with hbit
  · rw [Finset.card_insert_of_notMem, weight]
    exact fun hmem => (mem_support.mp hmem).1.false
  · rfl

theorem weight_add (m n x : ℕ) : weight (m + n) x = weight m x + weight n (x >>> m) := by
  induction n with
  | zero => rfl
  | succ n ih =>
      rw [← Nat.add_assoc, weight_succ, weight_succ, ih, Nat.testBit_shiftRight, Nat.add_assoc]

theorem weight_mod (n x : ℕ) : weight n (x % 2 ^ n) = weight n x := by
  unfold weight
  congr 1
  ext i
  rw [mem_support, mem_support, Nat.testBit_mod_two_pow]
  simp

/-- The number of bits of a number below 16. -/
def nibbleWeight (v : ℕ) : ℕ := (0x4332322132212110 >>> (4 * v)) % 16

theorem nibbleWeight_eq : ∀ v < 16, nibbleWeight v = weight 4 v := by decide

/-- The bits, counted four at a time. -/
def countBits : ℕ → ℕ → ℕ
  | 0, _ => 0
  | n + 1, x => nibbleWeight (x % 16) + countBits n (x / 16)

theorem countBits_eq (n x : ℕ) : countBits n x = weight (4 * n) x := by
  induction n generalizing x with
  | zero => rfl
  | succ n ih =>
      rw [countBits, ih, nibbleWeight_eq _ (Nat.mod_lt x (by omega)), Nat.mul_succ, Nat.add_comm,
        Nat.add_comm (4 * n), weight_add, Nat.shiftRight_eq_div_pow]
      rw [show 16 = 2 ^ 4 from rfl, weight_mod, Nat.add_comm]

/-- Bits that do not overlap are added. -/
theorem shiftLeft_xor {k r : ℕ} (hr : r < 2 ^ k) (x : ℕ) : x <<< k ^^^ r = x <<< k + r := by
  rw [Nat.shiftLeft_add_eq_or_of_lt hr]
  apply Nat.eq_of_testBit_eq
  intro i
  rw [Nat.testBit_xor, Nat.testBit_or, Nat.testBit_shiftLeft]
  rcases Nat.lt_or_ge i k with hi | hi
  · rw [decide_eq_false (Nat.not_le.mpr hi), Bool.false_and, Bool.false_xor, Bool.false_or]
  · rw [Nat.testBit_lt_two_pow (hr.trans_le (Nat.pow_le_pow_right (by omega) hi)), Bool.xor_false,
      Bool.or_false]

/-! ## Words as lists of bits -/

theorem lt_of_testBit {i : ℕ} (hx : x < 2 ^ n) (hbit : x.testBit i = true) : i < n := by
  by_contra hi
  rw [Nat.testBit_lt_two_pow (hx.trans_le (Nat.pow_le_pow_right (by omega) (by omega)))] at hbit
  cases hbit

theorem lt_of_bitIndices (h : ∀ i ∈ x.bitIndices, i < n) : x < 2 ^ n := by
  apply Nat.lt_pow_two_of_testBit
  intro i hi
  by_contra hbit
  exact Nat.not_lt.mpr hi (h i (Nat.mem_bitIndices.mpr (by simpa using hbit)))

theorem support_eq_bitIndices (hx : x < 2 ^ n) : support n x = x.bitIndices.toFinset := by
  ext i
  rw [mem_support, List.mem_toFinset, Nat.mem_bitIndices]
  exact ⟨And.right, fun hbit => ⟨lt_of_testBit hx hbit, hbit⟩⟩

theorem weight_eq_length (hx : x < 2 ^ n) : weight n x = x.bitIndices.length := by
  rw [weight, support_eq_bitIndices hx, List.toFinset_card_of_nodup Nat.bitIndices_nodup]

theorem bitIndices_sublist (hx : x < 2 ^ n) : x.bitIndices.Sublist (List.range n) := by
  have hsubset : x.bitIndices ⊆ List.range n := fun i hi =>
    List.mem_range.mpr (lt_of_testBit hx (Nat.mem_bitIndices.mp hi))
  exact List.sublist_of_subperm_of_pairwise (List.subperm_of_subset Nat.bitIndices_nodup hsubset)
    Nat.bitIndices_sorted.pairwise List.pairwise_lt_range

/-- The word with the bits of a list. -/
def word (l : List ℕ) : ℕ := (l.map (2 ^ ·)).sum

theorem word_bitIndices (x : ℕ) : word x.bitIndices = x := Nat.sum_map_two_pow_bitIndices x

variable {l : List ℕ}

theorem bitIndices_word (h : l.Sublist (List.range n)) : (word l).bitIndices = l :=
  Nat.bitIndices_sum_map_two_pow (List.sortedLT_iff_pairwise.mpr (List.pairwise_lt_range.sublist h))

theorem word_lt (h : l.Sublist (List.range n)) : word l < 2 ^ n := by
  apply lt_of_bitIndices
  rw [bitIndices_word h]
  exact fun i hi => List.mem_range.mp (h.subset hi)

theorem weight_word (h : l.Sublist (List.range n)) : weight n (word l) = l.length := by
  rw [weight_eq_length (word_lt h), bitIndices_word h]

/-- The number of words of `n` bits of which at most `t` are set. -/
theorem card_filter_weight (n t : ℕ) :
    ((Finset.range (2 ^ n)).filter fun x => weight n x ≤ t).card =
      ∑ k ∈ Finset.range (t + 1), n.choose k := by
  have hsets : ((Finset.range (t + 1)).biUnion fun k =>
      Finset.powersetCard k (Finset.range n)).card = ∑ k ∈ Finset.range (t + 1), n.choose k := by
    rw [Finset.card_biUnion fun k _ k' _ hne =>
      Finset.pairwise_disjoint_powersetCard (Finset.range n) hne]
    refine Finset.sum_congr rfl fun k _ => ?_
    rw [Finset.card_powersetCard, Finset.card_range]
  rw [← hsets]
  refine Finset.card_bij (fun x _ => support n x) ?_ ?_ ?_
  · intro x hx
    rw [Finset.mem_filter] at hx
    rw [Finset.mem_biUnion]
    exact ⟨weight n x, Finset.mem_range.mpr (Nat.lt_succ_of_le hx.2),
      Finset.mem_powersetCard.mpr ⟨Finset.filter_subset _ _, rfl⟩⟩
  · intro x hx y hy h
    rw [Finset.mem_filter, Finset.mem_range] at hx hy
    exact eq_of_support_eq hx.1 hy.1 h
  · intro s hs
    obtain ⟨k, hk, hs⟩ := Finset.mem_biUnion.mp hs
    obtain ⟨hsub, rfl⟩ := Finset.mem_powersetCard.mp hs
    have hbits := Finset.toFinset_bitIndices_sum_two_pow s
    have hlt : ∑ i ∈ s, 2 ^ i < 2 ^ n := by
      apply lt_of_bitIndices
      intro i hi
      rw [← List.mem_toFinset, hbits] at hi
      exact Finset.mem_range.mp (hsub hi)
    have hsupport : support n (∑ i ∈ s, 2 ^ i) = s := by rw [support_eq_bitIndices hlt, hbits]
    refine ⟨_, Finset.mem_filter.mpr ⟨Finset.mem_range.mpr hlt, ?_⟩, hsupport⟩
    rw [weight, hsupport]
    exact Nat.le_of_lt_succ (Finset.mem_range.mp hk)

/-! ## Linear maps -/

/-- The column `v` if the bit is set. -/
def select (b : Bool) (v : ℕ) : ℕ := if b then v else 0

theorem select_xor (b c : Bool) (v : ℕ) : select (b ^^ c) v = select b v ^^^ select c v := by
  cases b with
  | true =>
      cases c with
      | true => exact (Nat.xor_self v).symm
      | false => exact (Nat.xor_zero v).symm
  | false =>
      rw [Bool.false_xor]
      exact (Nat.zero_xor (select c v)).symm

theorem testBit_select_two_pow (b : Bool) (n i : ℕ) :
    (select b (2 ^ n)).testBit i = (decide (n = i) && b) := by
  cases b with
  | true => exact Nat.testBit_two_pow.trans (Bool.and_true _).symm
  | false => exact (Nat.zero_testBit i).trans (Bool.and_false _).symm

/-- The exclusive or of the columns `f i` over the bits `i < n` of `x`. -/
def combine (f : ℕ → ℕ) : ℕ → ℕ → ℕ
  | 0, _ => 0
  | n + 1, x => select (x.testBit n) (f n) ^^^ combine f n x

variable {f : ℕ → ℕ}

/-- **Linearity.** -/
theorem combine_xor (f : ℕ → ℕ) (n x y : ℕ) :
    combine f n (x ^^^ y) = combine f n x ^^^ combine f n y := by
  induction n with
  | zero => exact (Nat.xor_self 0).symm
  | succ n ih =>
      calc combine f (n + 1) (x ^^^ y)
          = (select (x.testBit n) (f n) ^^^ select (y.testBit n) (f n)) ^^^
            (combine f n x ^^^ combine f n y) := by
              rw [combine, ih, Nat.testBit_xor, select_xor]
        _ = (select (x.testBit n) (f n) ^^^ combine f n x) ^^^
            (select (y.testBit n) (f n) ^^^ combine f n y) := by
              simp only [Nat.xor_assoc, Nat.xor_left_comm]

theorem combine_lt {k : ℕ} (hf : ∀ i < n, f i < 2 ^ k) (x : ℕ) : combine f n x < 2 ^ k := by
  induction n with
  | zero => exact Nat.two_pow_pos k
  | succ n ih =>
      apply Nat.xor_lt_two_pow
      · unfold select
        split
        · exact hf n (Nat.lt_succ_self n)
        · exact Nat.two_pow_pos k
      · exact ih fun i hi => hf i (Nat.lt_succ_of_lt hi)

/-- Where the columns are unit vectors, the bits stay. -/
theorem combine_of_units (hf : ∀ i < n, f i = 2 ^ i) (x : ℕ) : combine f n x = x % 2 ^ n := by
  induction n with
  | zero => exact (Nat.mod_one x).symm
  | succ n ih =>
      rw [combine, ih fun i hi => hf i (Nat.lt_succ_of_lt hi), hf n (Nat.lt_succ_self n)]
      apply Nat.eq_of_testBit_eq
      intro i
      rw [Nat.testBit_xor, Nat.testBit_mod_two_pow, Nat.testBit_mod_two_pow,
        testBit_select_two_pow]
      rcases Nat.lt_trichotomy i n with hi | rfl | hi
      · simp [hi, hi.ne', Nat.lt_succ_of_lt hi]
      · simp
      · simp [hi.ne, Nat.not_lt.mpr hi.le, Nat.not_lt.mpr (Nat.succ_le_of_lt hi)]

/-- Bits that are not set do not count. -/
theorem combine_of_lt {k : ℕ} (hk : k ≤ n) (hx : x < 2 ^ k) : combine f n x = combine f k x := by
  induction n with
  | zero => rw [Nat.le_zero.mp hk]
  | succ n ih =>
      rcases Nat.eq_or_lt_of_le hk with rfl | hlt
      · rfl
      · have hle : k ≤ n := Nat.le_of_lt_succ hlt
        have hbit : x.testBit n = false :=
          Nat.testBit_lt_two_pow (hx.trans_le (Nat.pow_le_pow_right (by omega) hle))
        rw [combine, hbit, ih hle]
        exact Nat.zero_xor _

theorem combine_add (f : ℕ → ℕ) (m n x : ℕ) : combine f (m + n) x =
    combine (fun i => f (m + i)) n (x >>> m) ^^^ combine f m x := by
  induction n with
  | zero => exact (Nat.zero_xor _).symm
  | succ n ih =>
      rw [← Nat.add_assoc, combine, combine, ih, Nat.testBit_shiftRight, Nat.xor_assoc]

/-- Unit vectors from the bit `m` on shift the word. -/
theorem combine_shift {m : ℕ} (hx : x < 2 ^ n) : combine (fun i => 2 ^ (m + i)) n x = x <<< m := by
  have hall := combine_of_units (n := m + n) (fun i _ => rfl) (x <<< m)
  have hlow : combine (2 ^ ·) m (x <<< m) = 0 := by
    rw [combine_of_units fun i _ => rfl, Nat.shiftLeft_eq, Nat.mul_mod_left]
  have hlt : x <<< m < 2 ^ (m + n) := by
    rw [Nat.shiftLeft_eq, Nat.add_comm, pow_add]
    exact Nat.mul_lt_mul_of_pos_right hx (Nat.two_pow_pos m)
  rwa [combine_add, hlow, Nat.xor_zero, Nat.shiftLeft_shiftRight, Nat.mod_eq_of_lt hlt] at hall

theorem combine_xor_columns (f g : ℕ → ℕ) (n x : ℕ) :
    combine (fun i => f i ^^^ g i) n x = combine f n x ^^^ combine g n x := by
  induction n with
  | zero => exact (Nat.xor_self 0).symm
  | succ n ih =>
      rw [combine, combine, combine, ih]
      cases x.testBit n with
      | true =>
          show (f n ^^^ g n) ^^^ _ = (f n ^^^ _) ^^^ (g n ^^^ _)
          simp only [Nat.xor_assoc, Nat.xor_left_comm]
      | false => simp [select]

/-- Whether `p` is true of `c` with any columns added, checked one column at a time. -/
def every (p : ℕ → Bool) (f : ℕ → ℕ) : ℕ → ℕ → Bool
  | 0, c => p c
  | n + 1, c => every p f n c && every p f n (f n ^^^ c)

theorem every_combine {p : ℕ → Bool} {c : ℕ} (h : every p f n c = true) (x : ℕ) :
    p (combine f n x ^^^ c) = true := by
  induction n generalizing c with
  | zero =>
      rw [combine, Nat.zero_xor]
      exact h
  | succ n ih =>
      rw [every, Bool.and_eq_true] at h
      rw [combine]
      cases x.testBit n with
      | true =>
          rw [Nat.xor_comm (select true (f n)), Nat.xor_assoc]
          exact ih h.2
      | false =>
          rw [select, if_neg Bool.false_ne_true, Nat.zero_xor]
          exact ih h.1

/-! ## Syndromes -/

/-- **Patterns of few bits have different syndromes** if every word of syndrome zero but zero has
more than twice as many. -/
theorem eq_of_syndrome_eq {t : ℕ} {s : ℕ → ℕ} (hlinear : ∀ x y, s (x ^^^ y) = s x ^^^ s y)
    (hdistance : ∀ c < 2 ^ n, s c = 0 → weight n c ≤ 2 * t → c = 0)
    (hx : x < 2 ^ n) (hy : y < 2 ^ n) (hwx : weight n x ≤ t) (hwy : weight n y ≤ t)
    (h : s x = s y) : x = y := by
  apply Nat.xor_eq_zero_iff.mp
  apply hdistance _ (Nat.xor_lt_two_pow hx hy)
  · rw [hlinear, h, Nat.xor_self]
  · have hle := weight_xor_le n x y
    omega

/-- A decoding table for the syndrome `s` of words of `n` bits: below `size` it holds patterns of
at most `t` bits, each under its own syndrome. -/
structure Decodes (n t size : ℕ) (s : ℕ → ℕ) (table : ℕ → ℕ) : Prop where
  linear : ∀ x y, s (x ^^^ y) = s x ^^^ s y
  distance : ∀ c < 2 ^ n, s c = 0 → weight n c ≤ 2 * t → c = 0
  bound : ∀ x < 2 ^ n, s x < size
  lt : ∀ i < size, table i < 2 ^ n
  few : ∀ i < size, weight n (table i) ≤ t
  syndrome : ∀ i < size, s (table i) = i

namespace Decodes

variable {t size : ℕ} {s table : ℕ → ℕ} {c e w : ℕ}

/-- **As many patterns as syndromes**: a table that holds the patterns of at most `t` bits holds
one under every syndrome. -/
theorem of_patterns (hlinear : ∀ x y, s (x ^^^ y) = s x ^^^ s y)
    (hdistance : ∀ c < 2 ^ n, s c = 0 → weight n c ≤ 2 * t → c = 0)
    (hbound : ∀ x < 2 ^ n, s x < size) (hsize : ∑ k ∈ Finset.range (t + 1), n.choose k = size)
    (htable : ∀ e < 2 ^ n, weight n e ≤ t → table (s e) = e) : Decodes n t size s table := by
  have himage : ((Finset.range (2 ^ n)).filter fun x => weight n x ≤ t).image s =
      Finset.range size := by
    apply Finset.eq_of_subset_of_card_le
    · intro i hi
      obtain ⟨x, hx, rfl⟩ := Finset.mem_image.mp hi
      rw [Finset.mem_filter, Finset.mem_range] at hx
      exact Finset.mem_range.mpr (hbound x hx.1)
    · rw [Finset.card_image_of_injOn, card_filter_weight, hsize, Finset.card_range]
      intro x hx y hy h
      rw [Finset.mem_coe, Finset.mem_filter, Finset.mem_range] at hx hy
      exact eq_of_syndrome_eq hlinear hdistance hx.1 hy.1 hx.2 hy.2 h
  have hsurjective : ∀ i < size, ∃ e < 2 ^ n, weight n e ≤ t ∧ s e = i := by
    intro i hi
    rw [← Finset.mem_range, ← himage] at hi
    obtain ⟨e, he, rfl⟩ := Finset.mem_image.mp hi
    rw [Finset.mem_filter, Finset.mem_range] at he
    exact ⟨e, he.1, he.2, rfl⟩
  refine ⟨hlinear, hdistance, hbound, fun i hi => ?_, fun i hi => ?_, fun i hi => ?_⟩
  all_goals
    obtain ⟨e, he, hw, rfl⟩ := hsurjective i hi
    rw [htable e he hw]
  · exact he
  · exact hw

/-- A pattern of at most `t` bits is in the table. -/
theorem table_syndrome (h : Decodes n t size s table) (he : e < 2 ^ n)
    (hw : weight n e ≤ t) : table (s e) = e := by
  have hlt := h.bound e he
  exact eq_of_syndrome_eq h.linear h.distance (h.lt _ hlt) he (h.few _ hlt) hw (h.syndrome _ hlt)

/-- **Up to `t` errors are corrected.** -/
theorem correct (h : Decodes n t size s table) (hc : s c = 0) (he : e < 2 ^ n)
    (hw : weight n e ≤ t) : (c ^^^ e) ^^^ table (s (c ^^^ e)) = c := by
  rw [h.linear, hc, Nat.zero_xor, h.table_syndrome he hw, Nat.xor_xor_cancel_right]

/-- **The code is perfect**: every word is within `t` bits of exactly one word of the code, the one
it is corrected to. -/
theorem existsUnique (h : Decodes n t size s table) (hw : w < 2 ^ n) :
    s (w ^^^ table (s w)) = 0 ∧ weight n (w ^^^ (w ^^^ table (s w))) ≤ t ∧
      ∀ c < 2 ^ n, s c = 0 → weight n (w ^^^ c) ≤ t → c = w ^^^ table (s w) := by
  have hlt := h.bound w hw
  refine ⟨?_, ?_, fun c hc hcode hclose => ?_⟩
  · rw [h.linear, h.syndrome _ hlt, Nat.xor_self]
  · rw [Nat.xor_xor_cancel_left]
    exact h.few _ hlt
  · have hcorrect := h.correct hcode (Nat.xor_lt_two_pow hw hc) hclose
    rw [Nat.xor_comm w c, Nat.xor_xor_cancel_left] at hcorrect
    exact hcorrect.symm

end Decodes

end BitCode
