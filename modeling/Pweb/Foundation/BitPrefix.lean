/-
# Bit prefixes

Words of `k` bits, most significant bit first; a word is a natural number of which
only the bits below `k` count.

* `Agree k l x y` : the words agree on their first `l` bits (`agree_iff_div`);
* `lcp k x y` : the number of leading bits that the words share;
* `BitPrefix` : a prefix, given by a word and a length, and the words it covers;
* `Partitions` : every word is covered by exactly one prefix of a family; then no
  prefix starts with another (`Partitions.prefix_free`), and the one that covers a word
  shares more of it than the others (`Partitions.lcp_lt`).
-/
import Mathlib

/-- The first `length` bits of the word `bits`. -/
structure BitPrefix where
  bits : ℕ
  length : ℕ
  deriving DecidableEq, Repr

namespace BitPrefix

/-! ## Agreement -/

/-- The words agree on the first `l` of their `k` bits. -/
def Agree (k l x y : ℕ) : Prop := ∀ i < k, k ≤ i + l → x.testBit i = y.testBit i

variable {k l l' x y z : ℕ}

theorem agree_zero (k x y : ℕ) : Agree k 0 x y := fun _ hi hle => absurd hi (not_lt.mpr hle)

theorem Agree.refl (k l x : ℕ) : Agree k l x x := fun _ _ _ => rfl

theorem Agree.symm (h : Agree k l x y) : Agree k l y x := fun i hi hle => (h i hi hle).symm

theorem Agree.trans (h : Agree k l x y) (h' : Agree k l y z) : Agree k l x z :=
  fun i hi hle => (h i hi hle).trans (h' i hi hle)

theorem Agree.mono (h : Agree k l x y) (hle : l' ≤ l) : Agree k l' x y :=
  fun i hi hl => h i hi (hl.trans (Nat.add_le_add_left hle i))

/-- Words agree if cutting off the other bits leaves the same number. -/
theorem agree_iff_div (hx : x < 2 ^ k) (hy : y < 2 ^ k) (hl : l ≤ k) :
    Agree k l x y ↔ x / 2 ^ (k - l) = y / 2 ^ (k - l) := by
  constructor
  · intro h
    apply Nat.eq_of_testBit_eq
    intro i
    rw [Nat.testBit_div_two_pow, Nat.testBit_div_two_pow]
    by_cases hi : i + (k - l) < k
    · exact h _ hi (by omega)
    · have hpow : 2 ^ k ≤ 2 ^ (i + (k - l)) := Nat.pow_le_pow_right (by omega) (not_lt.mp hi)
      rw [Nat.testBit_lt_two_pow (hx.trans_le hpow), Nat.testBit_lt_two_pow (hy.trans_le hpow)]
  · intro h i hi hle
    have hbit := congrArg (fun n => n.testBit (i - (k - l))) h
    rw [Nat.testBit_div_two_pow, Nat.testBit_div_two_pow] at hbit
    rwa [show i - (k - l) + (k - l) = i by omega] at hbit

/-- Only the bits below `k` count. -/
theorem agree_mod (k l x : ℕ) : Agree k l (x % 2 ^ k) x := by
  intro i hi _
  rw [Nat.testBit_mod_two_pow, decide_eq_true hi, Bool.true_and]

instance (k l x y : ℕ) : Decidable (Agree k l x y) :=
  inferInstanceAs (Decidable (∀ i < k, _ → _))

/-- The number of leading bits that the words share. -/
def lcp (k x y : ℕ) : ℕ := Nat.findGreatest (fun l => Agree k l x y) k

theorem lcp_le (k x y : ℕ) : lcp k x y ≤ k := Nat.findGreatest_le k

theorem agree_lcp (k x y : ℕ) : Agree k (lcp k x y) x y :=
  Nat.findGreatest_spec (P := fun l => Agree k l x y) (Nat.zero_le k) (agree_zero k x y)

theorem le_lcp_iff : l ≤ lcp k x y ↔ l ≤ k ∧ Agree k l x y := by
  constructor
  · intro h
    exact ⟨h.trans (lcp_le k x y), (agree_lcp k x y).mono h⟩
  · rintro ⟨hle, h⟩
    exact Nat.le_findGreatest hle h

theorem lcp_comm (k x y : ℕ) : lcp k x y = lcp k y x := by
  apply le_antisymm
  · exact le_lcp_iff.mpr ⟨lcp_le k x y, (agree_lcp k x y).symm⟩
  · exact le_lcp_iff.mpr ⟨lcp_le k y x, (agree_lcp k y x).symm⟩

/-- It is the largest length to which they agree. -/
theorem isGreatest_lcp (k x y : ℕ) : IsGreatest {l | l ≤ k ∧ Agree k l x y} (lcp k x y) :=
  ⟨⟨lcp_le k x y, agree_lcp k x y⟩, fun _ h => le_lcp_iff.mpr h⟩

theorem lcp_eq_iff : lcp k x y = k ↔ Agree k k x y := by
  constructor
  · intro h
    have hagree := agree_lcp k x y
    rwa [h] at hagree
  · intro h
    exact le_antisymm (lcp_le k x y) (le_lcp_iff.mpr ⟨le_rfl, h⟩)

/-- What two words share with a third one, they share with each other. -/
theorem min_lcp_le_lcp (k x y z : ℕ) : min (lcp k x y) (lcp k y z) ≤ lcp k x z :=
  le_lcp_iff.mpr ⟨(min_le_left _ _).trans (lcp_le k x y),
    ((agree_lcp k x y).mono (min_le_left _ _)).trans ((agree_lcp k y z).mono (min_le_right _ _))⟩

/-- Toggling the first bit in which two words differ. -/
theorem agree_toggle (h : lcp k x y < k) :
    Agree k (lcp k x y + 1) (x ^^^ 2 ^ (k - lcp k x y - 1)) y := by
  intro i hi hle
  rw [Nat.testBit_xor, Nat.testBit_two_pow]
  rcases Nat.eq_or_lt_of_le (show k - lcp k x y - 1 ≤ i by omega) with heq | hlt
  · rw [decide_eq_true heq, Bool.xor_true]
    have hdiffer : x.testBit i ≠ y.testBit i := by
      intro hsame
      have hmore : Agree k (lcp k x y + 1) x y := by
        intro i' hi' hle'
        rcases Nat.eq_or_lt_of_le (show i ≤ i' by omega) with rfl | hlt'
        · exact hsame
        · exact agree_lcp k x y i' hi' (by omega)
      have hlcp := le_lcp_iff.mpr ⟨h, hmore⟩
      omega
    exact Bool.not_eq.mpr hdiffer
  · rw [decide_eq_false (by omega), Bool.xor_false]
    exact agree_lcp k x y i hi (by omega)

/-- The number of shared bits, up to the point to which two words agree. -/
theorem min_lcp_congr (h : Agree k l y z) : min (lcp k x y) l = min (lcp k x z) l := by
  apply eq_of_forall_le_iff
  intro l'
  rw [le_min_iff, le_min_iff, le_lcp_iff, le_lcp_iff]
  constructor
  · rintro ⟨⟨hk, hagree⟩, hle⟩
    exact ⟨⟨hk, hagree.trans (h.mono hle)⟩, hle⟩
  · rintro ⟨⟨hk, hagree⟩, hle⟩
    exact ⟨⟨hk, hagree.trans (h.symm.mono hle)⟩, hle⟩

/-- The word with its last bit cleared. -/
def clearLast (x : ℕ) : ℕ := 2 * (x / 2)

theorem agree_clearLast (k x : ℕ) : Agree k (k - 1) (clearLast x) x := by
  intro i _ hi
  obtain ⟨j, rfl⟩ : ∃ j, i = j + 1 := ⟨i - 1, by omega⟩
  rw [clearLast, Nat.testBit_succ, Nat.mul_div_cancel_left _ two_pos, Nat.testBit_succ]

theorem testBit_zero_clearLast (x : ℕ) : (clearLast x).testBit 0 = false := by
  rw [clearLast, Nat.testBit_zero, Nat.mul_mod_right]
  rfl

/-- Two words that agree but for the last bit agree if that bit is the same. -/
theorem Agree.of_last (h : Agree k (k - 1) x y) (hlast : x.testBit 0 = y.testBit 0) :
    Agree k l x y := by
  intro i hi _
  rcases Nat.eq_zero_or_pos i with rfl | hpos
  · exact hlast
  · exact h i hi (by omega)

/-! ## Coverage -/

/-- The word starts with the prefix. -/
def Covers (k : ℕ) (p : BitPrefix) (x : ℕ) : Prop := Agree k p.length p.bits x

instance (k : ℕ) (p : BitPrefix) (x : ℕ) : Decidable (p.Covers k x) :=
  inferInstanceAs (Decidable (Agree k p.length p.bits x))

/-- Every word is covered by exactly one prefix of the family. -/
def Partitions {ι : Type} (k : ℕ) (p : ι → BitPrefix) : Prop := ∀ x, ∃! i, (p i).Covers k x

theorem covers_self (k : ℕ) (p : BitPrefix) : p.Covers k p.bits := Agree.refl _ _ _

theorem covers_congr {p : BitPrefix} (h : Agree k p.length x y) : p.Covers k x ↔ p.Covers k y :=
  ⟨fun hx => hx.trans h, fun hy => hy.trans h.symm⟩

/-- A prefix of a word that ends in zero. -/
def EndsInZero (k : ℕ) (p : BitPrefix) : Prop := ∃ x, p.Covers k (clearLast x)

/-- If such a prefix agrees with a word, save perhaps for the last bit, it covers the word with
that bit cleared. -/
theorem EndsInZero.covers_clearLast {p : BitPrefix} (h : p.EndsInZero k)
    (hx : Agree k (min p.length (k - 1)) p.bits x) : p.Covers k (clearLast x) := by
  obtain ⟨z, hz⟩ := h
  rcases le_total p.length (k - 1) with hle | hge
  · rw [Nat.min_eq_left hle] at hx
    exact hx.trans ((agree_clearLast k x).symm.mono hle)
  · rw [Nat.min_eq_right hge] at hx
    have hzx : Agree k (k - 1) (clearLast z) (clearLast x) :=
      ((hz.mono hge).symm.trans hx).trans (agree_clearLast k x).symm
    refine hz.trans (hzx.of_last ?_)
    rw [testBit_zero_clearLast, testBit_zero_clearLast]

/-- It is enough to look at the numbers below `2 ^ k`. -/
theorem partitions_of_lt {ι : Type} {p : ι → BitPrefix}
    (h : ∀ x < 2 ^ k, ∃! i, (p i).Covers k x) : Partitions k p := by
  intro x
  obtain ⟨i, hi, huniq⟩ := h (x % 2 ^ k) (Nat.mod_lt _ (Nat.two_pow_pos k))
  refine ⟨i, (covers_congr (agree_mod k _ x)).mp hi, fun j hj => huniq j ?_⟩
  exact (covers_congr (agree_mod k _ x)).mpr hj

section Partition

variable {ι : Type} {p : ι → BitPrefix} {i j : ι}

/-- Two prefixes that cover one word are the same. -/
theorem Partitions.eq_of_covers (h : Partitions k p) (hi : (p i).Covers k x)
    (hj : (p j).Covers k x) : i = j := (h x).unique hi hj

/-- **No prefix starts with another.** -/
theorem Partitions.prefix_free (h : Partitions k p) (hne : i ≠ j) :
    ¬ (p i).Covers k (p j).bits :=
  fun hcovers => hne (h.eq_of_covers hcovers (covers_self k (p j)))

/-- The words of the prefixes are distinct. -/
theorem Partitions.bits_injective (h : Partitions k p) :
    Function.Injective fun i => (p i).bits := by
  intro i j heq
  apply h.eq_of_covers (covers_self k (p i))
  show (p j).Covers k (p i).bits
  rw [show (p i).bits = (p j).bits from heq]
  exact covers_self k (p j)

/-- A prefix does not agree with the word of another one on its whole length. -/
theorem Partitions.eq_of_agree (h : Partitions k p)
    (hagree : Agree k (p i).length (p i).bits (p j).bits) : i = j :=
  h.eq_of_covers hagree (covers_self k (p j))

/-- Prefixes other than the one that covers a word share fewer bits with it than that is long. -/
theorem Partitions.lcp_lt_length (h : Partitions k p) (hi : (p i).Covers k x) (hne : i ≠ j) :
    lcp k (p j).bits x < (p i).length := by
  by_contra hge
  have hagree := (le_lcp_iff.mp (not_lt.mp hge)).2
  exact hne (h.eq_of_agree (hi.trans hagree.symm))

/-- **The prefix that covers a word shares more bits with it** than the others. -/
theorem Partitions.lcp_lt (h : Partitions k p) (hlen : (p i).length ≤ k)
    (hi : (p i).Covers k x) (hne : i ≠ j) : lcp k (p j).bits x < lcp k (p i).bits x :=
  (h.lcp_lt_length hi hne).trans_le (le_lcp_iff.mpr ⟨hlen, hi⟩)

/-- Among the prefixes of words that end in zero, only one agrees with a word save for the last
bit. -/
theorem Partitions.eq_of_endsInZero (h : Partitions k p) (hzi : (p i).EndsInZero k)
    (hzj : (p j).EndsInZero k) (hi : Agree k (min (p i).length (k - 1)) (p i).bits x)
    (hj : Agree k (min (p j).length (k - 1)) (p j).bits x) : i = j :=
  h.eq_of_covers (hzi.covers_clearLast hi) (hzj.covers_clearLast hj)

/-- **Toggling a bit**: let a prefix share some bits with a word that it does not cover, and a
second word share one more.  What covers the second word shares one more bit with the first
one, too. -/
theorem Partitions.lcp_lt_of_toggle (h : Partitions k p) (hlen : (p i).length ≤ k)
    (hi : ¬ (p i).Covers k x) (hy : Agree k (lcp k (p i).bits x + 1) y x)
    (hj : (p j).Covers k y) : lcp k (p i).bits x < lcp k (p j).bits x := by
  have hshort : lcp k (p i).bits x < (p i).length := by
    by_contra hge
    exact hi (le_lcp_iff.mp (not_lt.mp hge)).2
  apply le_lcp_iff.mpr
  refine ⟨by omega, ?_⟩
  rcases Nat.lt_or_ge (lcp k (p i).bits x) (p j).length with hlt | hge
  · exact (hj.mono hlt).trans hy
  · -- a shorter prefix is that of the first word, which does not cover the second
    have hshared := (agree_lcp k (p i).bits x).mono hge
    have heq : j = i := h.eq_of_agree ((hj.trans (hy.mono (by omega))).trans hshared.symm)
    obtain rfl := heq
    omega

end Partition

end BitPrefix
