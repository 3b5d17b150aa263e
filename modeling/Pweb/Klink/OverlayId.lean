/-
# Matching overlay identifiers (`plnode/ds/overlay_id.h`)

The operations on the bits of an `OverlayID`.  They narrow the identifier to an `int` and
shift by the position of a bit, which is below 32.

* `getMatchedPrefixLength_eq` : the match of two identifiers of `k` bits is the number of
  leading bits that they share, but at most `k - 1`: the loop never compares the last bit;
* `matchesPrefix_iff` : so it is the longest common prefix unless all bits are equal.
-/
import Pweb.Klink.BuildTree

namespace Klink

open BitPrefix

namespace OverlayId

/-! ## Operations -/

/-- `GetBitAtPosition`. -/
def getBitAtPosition (oid : OverlayId) (n : ℕ) : Int32 :=
  let value := oid.overlayId.toInt32
  ((value &&& (1 <<< Int32.ofNat n)) >>> Int32.ofNat n) &&& 1

/-- `ToggleBitAtPosition`. -/
def toggleBitAtPosition (oid : OverlayId) (n : ℕ) : OverlayId :=
  { oid with overlayId := oid.overlayId ^^^ (1 <<< Int32.ofNat n : Int32).toInt64 }

/-- The loop of `GetMatchedPrefixLength`, from a position on. -/
def matchLoop (a b : OverlayId) : ℕ → ℕ
  | 0 => 0
  | position + 1 =>
    if a.getBitAtPosition (position + 1) ≠ b.getBitAtPosition (position + 1) then position + 1
    else matchLoop a b position

/-- `GetMatchedPrefixLength`. -/
def getMatchedPrefixLength (a b : OverlayId) : ℤ :=
  let position := a.maxLength.toInt - 1
  let position := if position > 0 then (matchLoop a b position.toNat : ℤ) else position
  a.maxLength.toInt - position - 1

/-- `operator==`. -/
def equals (a b : OverlayId) : Bool :=
  a.prefixLength = b.prefixLength ∧ a.overlayId = b.overlayId

/-- The match ends one position early. -/
example : getMatchedPrefixLength ⟨5, 3, 3⟩ ⟨5, 3, 3⟩ = 2 := by decide

/-! ## Bits -/

variable {a b oid : OverlayId} {k n : ℕ}

theorem smod_ofNat (hn : n < 32) :
    (Int32.ofNat n).toBitVec.smod 32 = BitVec.ofNat 32 n := by
  have hall : ∀ n < 32, (Int32.ofNat n).toBitVec.smod 32 = BitVec.ofNat 32 n := by decide
  exact hall n hn

theorem toBitVec_one_shiftLeft (hn : n < 32) :
    (1 <<< Int32.ofNat n : Int32).toBitVec = BitVec.twoPow 32 n := by
  rw [Int32.toBitVec_shiftLeft, smod_ofNat hn, BitVec.shiftLeft_eq', BitVec.toNat_ofNat,
    Nat.mod_eq_of_lt (by omega)]
  rfl

/-- The bit at a position of the narrowed identifier is that of the identifier. -/
theorem getBitAtPosition_eq (hn : n < 32) :
    oid.getBitAtPosition n = if oid.bits.testBit n then 1 else 0 := by
  have hbit : oid.overlayId.toInt32.toBitVec.getLsbD n = oid.bits.testBit n := by
    rw [Int64.toBitVec_toInt32, BitVec.getLsbD_signExtend, decide_eq_true hn, if_pos (by omega)]
    rfl
  have hshifted : ((oid.overlayId.toInt32 &&& (1 <<< Int32.ofNat n)) >>>
      Int32.ofNat n).toBitVec.getLsbD 0 = oid.bits.testBit n := by
    rw [Int32.toBitVec_shiftRight, smod_ofNat hn, BitVec.sshiftRight_eq', BitVec.toNat_ofNat,
      Nat.mod_eq_of_lt (by omega), BitVec.getLsbD_sshiftRight, if_pos (by omega),
      Int32.toBitVec_and, toBitVec_one_shiftLeft hn, BitVec.getLsbD_and, BitVec.getLsbD_twoPow,
      Nat.add_zero, hbit]
    simp [hn]
  apply Int32.toBitVec_inj.mp
  rw [getBitAtPosition, Int32.toBitVec_and]
  show _ &&& 1#32 = _
  rw [BitVec.and_one_eq_setWidth_ofBool_getLsbD, hshifted]
  split_ifs with h
  · rw [h]
    rfl
  · rw [Bool.eq_false_iff.mpr h]
    rfl

theorem getBitAtPosition_eq_iff (hn : n < 32) :
    a.getBitAtPosition n = b.getBitAtPosition n ↔ a.bits.testBit n = b.bits.testBit n := by
  have hval : ∀ p q : Bool, ((if p then 1 else 0 : Int32) = if q then 1 else 0) ↔ p = q := by decide
  rw [getBitAtPosition_eq hn, getBitAtPosition_eq hn]
  exact hval _ _

theorem bits_toggleBitAtPosition (hn : n < 31) :
    (oid.toggleBitAtPosition n).bits = oid.bits ^^^ 2 ^ n := by
  have hmask : ∀ n < 31, (1 <<< Int32.ofNat n : Int32).toInt64.toBitVec.toNat = 2 ^ n := by decide
  show (oid.overlayId ^^^ _).toBitVec.toNat = _
  rw [Int64.toBitVec_xor, BitVec.toNat_xor, hmask n hn]
  rfl

/-! ## The matched prefix -/

/-- Where the loop stops: the bits above are equal, those at the position are not. -/
theorem matchLoop_spec (a b : OverlayId) (position : ℕ) :
    matchLoop a b position ≤ position ∧
      (∀ i, matchLoop a b position < i → i ≤ position →
        a.getBitAtPosition i = b.getBitAtPosition i) ∧
      (matchLoop a b position = 0 ∨ a.getBitAtPosition (matchLoop a b position) ≠
        b.getBitAtPosition (matchLoop a b position)) := by
  induction position with
  | zero => exact ⟨le_rfl, fun i hi hle => absurd hi (not_lt.mpr hle), Or.inl rfl⟩
  | succ position ih =>
      rw [matchLoop]
      split_ifs with hbit
      · exact ⟨le_rfl, fun i hi hle => absurd hi (not_lt.mpr hle), Or.inr hbit⟩
      · obtain ⟨hle, hequal, hstop⟩ := ih
        refine ⟨hle.trans (Nat.le_succ _), fun i hi hi' => ?_, hstop⟩
        rcases Nat.eq_or_lt_of_le hi' with rfl | hlt
        · exact not_ne_iff.mp hbit
        · exact hequal i hi (Nat.le_of_lt_succ hlt)

/-- **The matched prefix** is the common one, without the last bit. -/
theorem getMatchedPrefixLength_eq (ha : a.maxLength = Int32.ofNat k) (hk : k < 32) :
    a.getMatchedPrefixLength b = (min (lcp k a.bits b.bits) (k - 1) : ℕ) := by
  have hlength : a.maxLength.toInt = (k : ℤ) := by
    rw [ha, Int32.toInt_ofNat_of_lt (by omega)]
  rw [getMatchedPrefixLength, hlength]
  rcases Nat.lt_or_ge 1 k with hlt | hge
  · obtain ⟨hle, hequal, hstop⟩ := matchLoop_spec a b (k - 1)
    have hmatch : min (lcp k a.bits b.bits) (k - 1) = k - 1 - matchLoop a b (k - 1) := by
      have hagree : Agree k (k - 1 - matchLoop a b (k - 1)) a.bits b.bits := fun i hi hi' =>
        (getBitAtPosition_eq_iff (by omega)).mp (hequal i (by omega) (by omega))
      have hshared := le_lcp_iff.mpr ⟨by omega, hagree⟩
      rcases hstop with hzero | hdiffer
      · omega
      · have hbound : ¬ k - matchLoop a b (k - 1) ≤ lcp k a.bits b.bits := fun hlong =>
          hdiffer ((getBitAtPosition_eq_iff (by omega)).mpr
            ((le_lcp_iff.mp hlong).2 _ (by omega) (by omega)))
        omega
    rw [if_pos (by omega), show ((k : ℤ) - 1).toNat = k - 1 by omega, hmatch]
    omega
  · rw [if_neg (by omega)]
    omega

/-! ## The longest common prefix -/

/-- `GetMatchedPrefixLength` gives the length of the longest common prefix of two identifiers of
`k` bits, and what follows from that. -/
structure MatchesPrefix (k : ℕ) (a b : OverlayId) : Prop where
  isGreatest : ∃ length : ℕ, a.getMatchedPrefixLength b = length ∧
    IsGreatest {l | l ≤ k ∧ Agree k l a.bits b.bits} length
  symm : a.getMatchedPrefixLength b = b.getMatchedPrefixLength a
  eq_iff : a.getMatchedPrefixLength b = k ↔ Agree k k a.bits b.bits
  min_le : ∀ c : OverlayId, c.maxLength = Int32.ofNat k →
    min (a.getMatchedPrefixLength b) (b.getMatchedPrefixLength c) ≤ a.getMatchedPrefixLength c

/-- What holds although the last bit is not compared. -/
theorem min_getMatchedPrefixLength_le {c : OverlayId} (ha : a.maxLength = Int32.ofNat k)
    (hb : b.maxLength = Int32.ofNat k) (hk : k < 32) :
    min (a.getMatchedPrefixLength b) (b.getMatchedPrefixLength c)
      ≤ a.getMatchedPrefixLength c := by
  have hshared := min_lcp_le_lcp k a.bits b.bits c.bits
  rw [getMatchedPrefixLength_eq ha hk, getMatchedPrefixLength_eq hb hk,
    getMatchedPrefixLength_eq ha hk]
  omega

theorem getMatchedPrefixLength_comm (ha : a.maxLength = Int32.ofNat k)
    (hb : b.maxLength = Int32.ofNat k) (hk : k < 32) :
    a.getMatchedPrefixLength b = b.getMatchedPrefixLength a := by
  rw [getMatchedPrefixLength_eq ha hk, getMatchedPrefixLength_eq hb hk, lcp_comm]

/-- **Prefix matching** finds the longest common prefix of two identifiers exactly if they are
not equal in all their bits. -/
theorem matchesPrefix_iff (k : ℕ) (a b : OverlayId) (ha : a.maxLength = Int32.ofNat k)
    (hb : b.maxLength = Int32.ofNat k) (hpos : 1 ≤ k) (hk : k ≤ 31) :
    MatchesPrefix k a b ↔ ¬ Agree k k a.bits b.bits := by
  have hlt : k < 32 := Nat.lt_succ_of_le hk
  have hmatch := getMatchedPrefixLength_eq (b := b) ha hlt
  constructor
  · -- equal identifiers have a match of `k - 1`
    intro h hequal
    have hfull := h.eq_iff.mpr hequal
    rw [hmatch] at hfull
    omega
  · intro hdiffer
    have hne : lcp k a.bits b.bits ≠ k := fun heq => hdiffer (lcp_eq_iff.mp heq)
    have hle := lcp_le k a.bits b.bits
    have hmin : min (lcp k a.bits b.bits) (k - 1) = lcp k a.bits b.bits := by omega
    rw [hmin] at hmatch
    refine ⟨⟨_, hmatch, isGreatest_lcp k a.bits b.bits⟩, getMatchedPrefixLength_comm ha hb hlt,
      ?_, fun c _ => min_getMatchedPrefixLength_le ha hb hlt⟩
    rw [hmatch, Nat.cast_inj]
    exact lcp_eq_iff

/-- Two identifiers of three bits that differ in the last one. -/
theorem differ_in_last_bit_match : MatchesPrefix 3 ⟨4, 3, 3⟩ ⟨5, 3, 3⟩ :=
  (matchesPrefix_iff 3 ⟨4, 3, 3⟩ ⟨5, 3, 3⟩ rfl rfl (by decide) (by decide)).mpr (by decide)

/-- Equal identifiers of three bits match in two bits. -/
theorem equal_ids_do_not_match : ¬ MatchesPrefix 3 ⟨5, 3, 3⟩ ⟨5, 3, 3⟩ := by
  intro h
  have hfull := h.eq_iff.mpr (Agree.refl 3 3 _)
  exact absurd hfull (by decide)

end OverlayId

end Klink
