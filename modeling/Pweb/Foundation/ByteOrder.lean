/-
# Fixed-width byte encodings of naturals

A natural number written with a fixed number of bytes, least significant byte
first (`toLE`, what `memcpy` of an integer does on a little-endian machine) and
most significant byte first (`toBE`, network byte order), with the two readers
`ofLE` and `ofBE`.

* `ofLE_toLE`, `ofBE_toBE` : reading back what was written gives the number
  modulo `256 ^ w`;
* `toLE_ofLE`, `toBE_ofBE` : a byte string is the encoding of the number it
  denotes.
-/
import Mathlib

namespace ByteOrder

/-! ## Little endian -/

/-- The `w` low bytes of `n`, least significant first. -/
def toLE : ℕ → ℕ → List UInt8
  | 0, _ => []
  | w + 1, n => UInt8.ofNat n :: toLE w (n / 256)

/-- The number a byte string denotes, least significant byte first. -/
def ofLE : List UInt8 → ℕ
  | [] => 0
  | b :: bs => b.toNat + 256 * ofLE bs

@[simp] theorem length_toLE (w n : ℕ) : (toLE w n).length = w := by
  induction w generalizing n with
  | zero => rfl
  | succ w ih => rw [toLE, List.length_cons, ih]

/-- A byte string of length `w` denotes a number below `256 ^ w`. -/
theorem ofLE_lt (bs : List UInt8) : ofLE bs < 256 ^ bs.length := by
  induction bs with
  | nil => simp [ofLE]
  | cons b bs ih =>
      have hb := b.toNat_lt
      rw [ofLE, List.length_cons, pow_succ]
      omega

theorem ofLE_toLE (w n : ℕ) : ofLE (toLE w n) = n % 256 ^ w := by
  induction w generalizing n with
  | zero => simp [toLE, ofLE, Nat.mod_one]
  | succ w ih =>
      rw [toLE, ofLE, ih, pow_succ', Nat.mod_mul]
      simp

theorem toLE_ofLE (bs : List UInt8) : toLE bs.length (ofLE bs) = bs := by
  induction bs with
  | nil => rfl
  | cons b bs ih =>
      have hb := b.toNat_lt
      have hdiv : (b.toNat + 256 * ofLE bs) / 256 = ofLE bs := by omega
      have hhead : UInt8.ofNat (b.toNat + 256 * ofLE bs) = b := by
        apply UInt8.toNat_inj.mp
        rw [UInt8.toNat_ofNat']
        omega
      rw [ofLE, List.length_cons, toLE, hdiv, hhead, ih]

/-! ## Big endian -/

/-- The `w` low bytes of `n`, most significant first. -/
def toBE (w n : ℕ) : List UInt8 := (toLE w n).reverse

/-- The number a byte string denotes, most significant byte first. -/
def ofBE (bs : List UInt8) : ℕ := ofLE bs.reverse

@[simp] theorem length_toBE (w n : ℕ) : (toBE w n).length = w := by
  rw [toBE, List.length_reverse, length_toLE]

theorem ofBE_lt (bs : List UInt8) : ofBE bs < 256 ^ bs.length := by
  have h := ofLE_lt bs.reverse
  rwa [List.length_reverse] at h

theorem ofBE_toBE (w n : ℕ) : ofBE (toBE w n) = n % 256 ^ w := by
  rw [ofBE, toBE, List.reverse_reverse, ofLE_toLE]

theorem toBE_ofBE (bs : List UInt8) : toBE bs.length (ofBE bs) = bs := by
  have h := toLE_ofLE bs.reverse
  rw [List.length_reverse] at h
  rw [toBE, ofBE, h, List.reverse_reverse]

/-! ## The machine integers of width 16 and 32 -/

theorem ofNat_ofBE_toBE_16 (v : UInt16) : UInt16.ofNat (ofBE (toBE 2 v.toNat)) = v := by
  have hv := v.toNat_lt
  rw [ofBE_toBE, Nat.mod_eq_of_lt (by simpa using hv), UInt16.ofNat_toNat]

theorem ofNat_ofBE_toBE_32 (v : UInt32) : UInt32.ofNat (ofBE (toBE 4 v.toNat)) = v := by
  have hv := v.toNat_lt
  rw [ofBE_toBE, Nat.mod_eq_of_lt (by simpa using hv), UInt32.ofNat_toNat]

theorem toBE_ofNat_ofBE_16 {bs : List UInt8} (h : bs.length = 2) :
    toBE 2 (UInt16.ofNat (ofBE bs)).toNat = bs := by
  have hlt := ofBE_lt bs
  rw [h] at hlt
  rw [UInt16.toNat_ofNat', Nat.mod_eq_of_lt (by simpa using hlt), ← h, toBE_ofBE]

theorem toBE_ofNat_ofBE_32 {bs : List UInt8} (h : bs.length = 4) :
    toBE 4 (UInt32.ofNat (ofBE bs)).toNat = bs := by
  have hlt := ofBE_lt bs
  rw [h] at hlt
  rw [UInt32.toNat_ofNat', Nat.mod_eq_of_lt (by simpa using hlt), ← h, toBE_ofBE]

end ByteOrder
