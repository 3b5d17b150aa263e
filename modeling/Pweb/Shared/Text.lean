/-
# Text written by streams

Literals, and numbers as `operator<<` writes them: decimal digits with the most
significant one first, after a minus sign for a negative number.
-/
import Pweb.Shared.Buffers
import Mathlib

/-- A literal in the source. -/
def text (str : String) : Bytes := str.toUTF8.toList

/-- The digits of a number. -/
def decimalNat (n : ℕ) : Bytes :=
  if n = 0 then [48] else ((Nat.digits 10 n).map fun d => UInt8.ofNat (48 + d)).reverse

/-- A number with its sign. -/
def decimal (z : ℤ) : Bytes :=
  if z < 0 then 45 :: decimalNat z.natAbs else decimalNat z.natAbs

/-- The number with these digits. -/
def valueOfDigits (bs : Bytes) : ℕ := Nat.ofDigits 10 (bs.reverse.map fun b => b.toNat - 48)

theorem toNat_digit {d : ℕ} (h : d < 10) : (UInt8.ofNat (48 + d)).toNat = 48 + d := by
  rw [UInt8.toNat_ofNat']
  exact Nat.mod_eq_of_lt (by omega)

theorem valueOfDigits_decimalNat (n : ℕ) : valueOfDigits (decimalNat n) = n := by
  rw [valueOfDigits, decimalNat]
  split_ifs with hn
  · rw [hn]
    rfl
  · have hback : ((Nat.digits 10 n).map fun d => UInt8.ofNat (48 + d)).map (fun b => b.toNat - 48)
        = Nat.digits 10 n := by
      rw [List.map_map]
      refine (List.map_congr_left fun d hd => ?_).trans (List.map_id _)
      rw [Function.comp_apply, toNat_digit (Nat.digits_lt_base (by decide) hd)]
      exact Nat.add_sub_cancel_left 48 d
    rw [List.reverse_reverse, hback, Nat.ofDigits_digits]

/-- Only digits are written. -/
theorem mem_decimalNat {n : ℕ} {b : UInt8} (h : b ∈ decimalNat n) :
    48 ≤ b.toNat ∧ b.toNat ≤ 57 := by
  rw [decimalNat] at h
  split_ifs at h
  · obtain rfl := List.mem_singleton.mp h
    decide
  · obtain ⟨d, hd, rfl⟩ := List.mem_map.mp (List.mem_reverse.mp h)
    have hlt : d < 10 := Nat.digits_lt_base (by decide) hd
    rw [toNat_digit hlt]
    omega

theorem mem_decimal {z : ℤ} {b : UInt8} (h : b ∈ decimal z) : b.toNat ≤ 57 := by
  rw [decimal] at h
  split_ifs at h
  · rcases List.mem_cons.mp h with rfl | h
    · decide
    · exact (mem_decimalNat h).2
  · exact (mem_decimalNat h).2

/-- **Different numbers are written differently.** -/
theorem decimal_injective : Function.Injective decimal := by
  intro z z' h
  have habs : ∀ {n n' : ℕ}, decimalNat n = decimalNat n' → n = n' := by
    intro n n' heq
    rw [← valueOfDigits_decimalNat n, heq, valueOfDigits_decimalNat]
  have hsign : ∀ n n' : ℕ, decimalNat n ≠ 45 :: decimalNat n' := by
    intro n n' heq
    have hmem : (45 : UInt8) ∈ decimalNat n := by
      rw [heq]
      exact List.mem_cons_self
    exact absurd (mem_decimalNat hmem).1 (by decide)
  rw [decimal, decimal] at h
  split_ifs at h with hz hz' hz'
  · have hnat := habs (List.cons.inj h).2
    omega
  · exact absurd h.symm (hsign _ _)
  · exact absurd h (hsign _ _)
  · have hnat := habs h
    omega
