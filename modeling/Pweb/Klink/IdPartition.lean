/-
# Overlay identifiers partition the identifier space

The leaves on the lowest level of the tree cover the identifiers up to some point, and
the leaves on the level above cover the rest: `nodes_partition`.

`ids_partition_iff` : this is so for every number of nodes, unless its double overflows
an `int`.
-/
import Pweb.Klink.BuildTree

namespace Klink

open BitPrefix

namespace BuildTree

variable {k n i : ℕ}

theorem nodeId_bits (hk : k < 32) (hi : i < n) (hn : n ≤ 2 ^ k) :
    (nodeId k n i).bits = (place n i).1 * 2 ^ (k - (place n i).2) := by
  have hlt := pattern_lt hi hn
  have hpow : 2 ^ k ≤ 2 ^ 31 := Nat.pow_le_pow_right (by omega) (by omega)
  show (Int64.ofNat _).toBitVec.toNat = _
  rw [Int64.toBitVec_ofNat', BitVec.toNat_ofNat]
  omega

theorem nodeId_length (hk : k < 32) (hi : i < n) (hn : n ≤ 2 ^ k) :
    (nodeId k n i).toPrefix.length = (place n i).2 := by
  have hle := (place_lt hi).2.trans (height_le hn)
  show (Int32.ofNat (place n i).2).toInt.toNat = _
  rw [Int32.toInt_ofNat_of_lt (by omega), Int.toNat_natCast]

/-- A node covers the identifiers that start with its number. -/
theorem nodeId_covers_iff (hk : k < 32) (hi : i < n) (hn : n ≤ 2 ^ k) {x : ℕ} (hx : x < 2 ^ k) :
    (nodeId k n i).toPrefix.Covers k x ↔ (place n i).1 = x / 2 ^ (k - (place n i).2) := by
  have hle := (place_lt hi).2.trans (height_le hn)
  rw [Covers, nodeId_length hk hi hn]
  show Agree k (place n i).2 (nodeId k n i).bits x ↔ _
  rw [nodeId_bits hk hi hn, agree_iff_div (pattern_lt hi hn) hx hle,
    Nat.mul_div_cancel _ (Nat.two_pow_pos _)]

/-- **The nodes partition the identifiers.** -/
theorem nodes_partition (hk : k < 32) (hpos : 1 ≤ n) (hn : n ≤ 2 ^ k) {x : ℕ} (hx : x < 2 ^ k) :
    ∃! i, i < n ∧ (nodeId k n i).toPrefix.Covers k x := by
  have hheight := height_le hn
  obtain ⟨hle, hcases⟩ := height_cases hpos
  -- the number of the identifier on the lowest level
  have hy : x / 2 ^ (k - height n) < 2 ^ height n := by
    rw [Nat.div_lt_iff_lt_mul (Nat.two_pow_pos _), ← pow_add, Nat.add_sub_cancel' hheight]
    exact hx
  have hcovers : ∀ j < n, ((nodeId k n j).toPrefix.Covers k x ↔
      if j < lowest n then j = x / 2 ^ (k - height n)
      else lowest n / 2 + (j - lowest n) = x / 2 ^ (k - height n) / 2) := by
    intro j hj
    rw [nodeId_covers_iff hk hj hn hx]
    by_cases hlow : j < lowest n
    · rw [place, if_pos hlow, if_pos hlow]
    · have hone : 1 ≤ height n := by
        rcases hcases with ⟨rfl, -, hlowest⟩ | ⟨h, hh, -⟩
        · omega
        · omega
      rw [place, if_neg hlow, if_neg hlow, Nat.div_div_eq_div_mul, ← pow_succ,
        show k - height n + 1 = k - (height n - 1) by omega]
  generalize x / 2 ^ (k - height n) = y at hy hcovers
  -- the lowest level is even, or the tree is a single node
  have heven : lowest n ≤ n ∧ ((n = 1 ∧ y = 0 ∧ lowest n = 1) ∨
      ∃ half, lowest n = 2 * (n - half) ∧ half < n ∧ y < 2 * half) := by
    rcases hcases with ⟨rfl, hh, hlowest⟩ | ⟨h, hh, hgt, hlowest⟩
    · rw [hh, pow_zero] at hy
      exact ⟨hlowest.le, Or.inl ⟨rfl, by omega, hlowest⟩⟩
    · rw [hh, pow_succ] at hy hle
      exact ⟨by omega, Or.inr ⟨2 ^ h, hlowest, hgt, by omega⟩⟩
  obtain ⟨hlowest, heven⟩ := heven
  by_cases hlow : y < lowest n
  · refine ⟨y, ⟨by omega, (hcovers y (by omega)).mpr (by rw [if_pos hlow])⟩, ?_⟩
    rintro j ⟨hj, hcover⟩
    have hnumber := (hcovers j hj).mp hcover
    split at hnumber
    · exact hnumber
    · rcases heven with h | ⟨half, h⟩
      · omega
      · omega
  · have hlt : lowest n + (y / 2 - lowest n / 2) < n := by
      rcases heven with h | ⟨half, h⟩
      · omega
      · omega
    refine ⟨lowest n + (y / 2 - lowest n / 2), ⟨hlt, (hcovers _ hlt).mpr ?_⟩, ?_⟩
    · rw [if_neg (by omega)]
      omega
    · rintro j ⟨hj, hcover⟩
      have hnumber := (hcovers j hj).mp hcover
      split at hnumber
      · omega
      · omega

/-! ## All identifiers -/

/-- The prefix of one identifier is a prefix of that of another. -/
def IsPrefixOf (k : ℕ) (a b : OverlayId) : Prop :=
  a.toPrefix.length ≤ b.toPrefix.length ∧ a.toPrefix.Covers k b.bits

/-- The patterns are distinct, no prefix is a prefix of another one, and every identifier of `k`
bits starts with exactly one of them. -/
structure PartitionsIds (k : ℕ) (ids : List OverlayId) : Prop where
  distinct : (ids.map OverlayId.overlayId).Nodup
  prefix_free : ids.Pairwise fun a b => ¬ IsPrefixOf k a b ∧ ¬ IsPrefixOf k b a
  unique : ∀ x < 2 ^ k, ∃! i : Fin ids.length, (ids.get i).toPrefix.Covers k x

/-- The rest follows from the unique coverage. -/
theorem partitionsIds_of_unique {ids : List OverlayId}
    (h : ∀ x < 2 ^ k, ∃! i : Fin ids.length, (ids.get i).toPrefix.Covers k x) :
    PartitionsIds k ids := by
  have hpart : Partitions k fun i : Fin ids.length => (ids.get i).toPrefix := partitions_of_lt h
  refine ⟨?_, List.pairwise_iff_get.mpr fun i j hlt => ⟨?_, ?_⟩, h⟩
  · rw [List.Nodup, List.pairwise_map, List.pairwise_iff_get]
    intro i j hlt heq
    apply hlt.ne
    apply hpart.bits_injective
    show (ids.get i).bits = (ids.get j).bits
    rw [OverlayId.bits, heq, OverlayId.bits]
  · exact fun hprefix => hpart.prefix_free hlt.ne hprefix.2
  · exact fun hprefix => hpart.prefix_free hlt.ne' hprefix.2

/-- **Overlay identifiers partition the identifier space.**  For identifiers of at most 30 bits
and any number of nodes that fits them, `execute` assigns identifiers with these properties
exactly if there are fewer than `2 ^ 30` nodes. -/
theorem ids_partition_iff (k n : ℕ) (hk : k ≤ 30) (hpos : 1 ≤ n) (hn : n ≤ 2 ^ k) :
    (∃ ids, idArray k n = some ids ∧ ids.length = n ∧ PartitionsIds k ids) ↔ n < 2 ^ 30 := by
  constructor
  · rintro ⟨ids, hids, -⟩
    by_contra hge
    rw [idArray_of_overflow (not_lt.mp hge)] at hids
    cases hids
  · intro hlt
    have hk : k < 32 := by omega
    refine ⟨_, idArray_eq hk hpos hn hlt, by simp, partitionsIds_of_unique fun x hx => ?_⟩
    obtain ⟨i, ⟨hi, hcover⟩, huniq⟩ := nodes_partition hk hpos hn hx
    refine ⟨⟨i, by simpa using hi⟩, by simpa using hcover, fun j hj => ?_⟩
    apply Fin.ext
    exact huniq j ⟨by simpa using j.isLt, by simpa using hj⟩

/-- Three nodes with identifiers of three bits. -/
theorem three_nodes_partition :
    ∃ ids, idArray 3 3 = some ids ∧ ids.length = 3 ∧ PartitionsIds 3 ids :=
  (ids_partition_iff 3 3 (by decide) (by decide) (by decide)).mpr (by decide)

/-- **A tree of `2 ^ 30` nodes has no identifiers**: its doubled size is not an `int`. -/
theorem no_ids_for_largest_tree :
    ¬ ∃ ids, idArray 30 (2 ^ 30) = some ids ∧ ids.length = 2 ^ 30 ∧ PartitionsIds 30 ids := by
  rintro ⟨ids, hids, -⟩
  rw [idArray_of_overflow le_rfl] at hids
  cases hids

end BuildTree

end Klink
