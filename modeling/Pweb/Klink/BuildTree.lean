/-
# Overlay identifiers (`monitor/tree/BuildTree.h`)

`BuildTree::execute` gives every node of the overlay a pattern and a prefix length.
The nodes are the leaves of a binary tree of height `ceil(log2(treeSize))`: the first
ones on the lowest level, the others on the level above, in the part that the first
leave free.

The arithmetic is that of `int`, with `none` for an overflow, whose effect the language
leaves undefined; `ceil`, `log2` and `pow` are exact.
-/
import Pweb.Klink.Message
import Pweb.Foundation.BitPrefix

namespace Klink

/-! ## Arithmetic of `int` -/

/-- A result of type `int`. -/
def intResult (x : ℤ) : Option ℤ := if -2 ^ 31 ≤ x ∧ x < 2 ^ 31 then some x else none

/-- A `double` assigned to an `int`: its fraction is cut off. -/
def intOfDouble (x : ℚ) : Option ℤ := intResult (if 0 ≤ x then ⌊x⌋ else ⌈x⌉)

/-- `x << n`. -/
def shiftLeft (x n : ℤ) : Option ℤ :=
  if 0 ≤ x ∧ 0 ≤ n ∧ n < 32 then intResult (x * 2 ^ n.toNat) else none

theorem intResult_eq_some {x : ℤ} (h : -2 ^ 31 ≤ x ∧ x < 2 ^ 31) : intResult x = some x := if_pos h

theorem shiftLeft_natCast {x n : ℕ} (hn : n < 32) (h : x * 2 ^ n < 2 ^ 31) :
    shiftLeft x n = some ((x * 2 ^ n : ℕ) : ℤ) := by
  rw [shiftLeft, if_pos ⟨by omega, by omega, by omega⟩, Int.toNat_natCast, intResult_eq_some]
  · push_cast
    rfl
  · exact_mod_cast (⟨by omega, h⟩ : -2 ^ 31 ≤ ((x * 2 ^ n : ℕ) : ℤ) ∧ x * 2 ^ n < 2 ^ 31)

/-! ## Identifiers -/

/-- The bits of an identifier. -/
def OverlayId.bits (oid : OverlayId) : ℕ := oid.overlayId.toBitVec.toNat

/-- The prefix that a node is responsible for. -/
def OverlayId.toPrefix (oid : OverlayId) : BitPrefix := ⟨oid.bits, oid.prefixLength.toInt.toNat⟩

namespace BuildTree

/-- The loop of `execute` that numbers the nodes, from the node `i` on for some rounds; `k` is
`iCode->K()`. -/
def idLoop (k : ℕ) (maxHeight nodesAtMaxHeight : ℤ) : ℕ → ℤ → ℤ → Option (List OverlayId)
  | 0, _, _ => some []
  | rounds + 1, i, st =>
    if i < nodesAtMaxHeight then do
      let pattern ← shiftLeft i (k - maxHeight)
      let ids ← idLoop k maxHeight nodesAtMaxHeight rounds (i + 1) st
      return ⟨Int64.ofInt pattern, Int32.ofInt maxHeight, Int32.ofNat k⟩ :: ids
    else do
      let pattern ← shiftLeft st (k - (maxHeight - 1))
      let ids ← idLoop k maxHeight nodesAtMaxHeight rounds (i + 1) (st + 1)
      return ⟨Int64.ofInt pattern, Int32.ofInt (maxHeight - 1), Int32.ofNat k⟩ :: ids

/-- `idArray` as `execute` fills it for `treeSize` nodes. -/
def idArray (k treeSize : ℕ) : Option (List OverlayId) := do
  let maxHeight := Nat.clog 2 treeSize
  let twiceTreeSize ← intResult (2 * treeSize)
  let nodesAtMaxHeight ← intOfDouble (twiceTreeSize - 2 ^ maxHeight)
  let nodesAtPrevLevel ← intResult (treeSize - nodesAtMaxHeight)
  let startingNodeAtPrevLevel ← intOfDouble (2 ^ ((maxHeight : ℤ) - 1) - nodesAtPrevLevel)
  idLoop k maxHeight nodesAtMaxHeight treeSize 0 startingNodeAtPrevLevel

example : (idArray 3 3).map (List.map fun oid => (oid.bits, oid.prefixLength)) =
    some [(0, 2), (2, 2), (4, 1)] := by decide +kernel

/-! ## What the loop computes -/

/-- The height of the tree and the number of leaves on its lowest level. -/
def height (n : ℕ) : ℕ := Nat.clog 2 n

def lowest (n : ℕ) : ℕ := 2 * n - 2 ^ height n

/-- The number of a node on its level of the tree, and the level. -/
def place (n i : ℕ) : ℕ × ℕ :=
  if i < lowest n then (i, height n) else (lowest n / 2 + (i - lowest n), height n - 1)

/-- The identifier of a node. -/
def nodeId (k n i : ℕ) : OverlayId :=
  ⟨Int64.ofNat ((place n i).1 * 2 ^ (k - (place n i).2)), Int32.ofNat (place n i).2, Int32.ofNat k⟩

variable {k n i : ℕ}

/-- A tree of one node has height 0; all others have more leaves than fit on the level above
the lowest, and an even number of them on the lowest. -/
theorem height_cases (hn : 1 ≤ n) : n ≤ 2 ^ height n ∧
    ((n = 1 ∧ height n = 0 ∧ lowest n = 1) ∨
      ∃ h, height n = h + 1 ∧ 2 ^ h < n ∧ lowest n = 2 * (n - 2 ^ h)) := by
  have hle : n ≤ 2 ^ height n := Nat.le_pow_clog one_lt_two n
  refine ⟨hle, ?_⟩
  rcases Nat.lt_or_ge 1 n with hlt | hge
  · right
    have hpos : 0 < height n := Nat.clog_pos one_lt_two hlt
    obtain ⟨h, hh⟩ := Nat.exists_eq_add_of_lt hpos
    rw [Nat.zero_add] at hh
    have hpred : 2 ^ h < n := by
      have hprev := Nat.pow_pred_clog_lt_self one_lt_two hlt
      rwa [show Nat.clog 2 n = h + 1 from hh] at hprev
    refine ⟨h, hh, hpred, ?_⟩
    rw [lowest, hh, pow_succ]
    omega
  · left
    obtain rfl : n = 1 := le_antisymm hge hn
    exact ⟨rfl, by decide, by decide⟩

theorem height_le (hn : n ≤ 2 ^ k) : height n ≤ k := Nat.clog_le_of_le_pow hn

/-- The place of a node is on its level. -/
theorem place_lt (hi : i < n) :
    (place n i).1 < 2 ^ (place n i).2 ∧ (place n i).2 ≤ height n := by
  obtain ⟨hle, ⟨rfl, hh, hlow⟩ | ⟨h, hh, hlt, hlow⟩⟩ := height_cases (n := n) (by omega)
  · rw [place, hlow, if_pos hi, hh]
    exact ⟨by simpa using hi, le_rfl⟩
  · rw [hh, pow_succ] at hle
    rw [place]
    split
    · rw [hh, pow_succ]
      exact ⟨by dsimp only; omega, le_rfl⟩
    · rw [hlow, hh, Nat.add_sub_cancel]
      exact ⟨by dsimp only; omega, Nat.le_succ h⟩

/-- The pattern of a node has at most `k` bits. -/
theorem pattern_lt (hi : i < n) (hn : n ≤ 2 ^ k) :
    (place n i).1 * 2 ^ (k - (place n i).2) < 2 ^ k := by
  obtain ⟨hlt, hle⟩ := place_lt hi
  have hk := hle.trans (height_le hn)
  calc (place n i).1 * 2 ^ (k - (place n i).2)
      < 2 ^ (place n i).2 * 2 ^ (k - (place n i).2) :=
        Nat.mul_lt_mul_of_pos_right hlt (Nat.two_pow_pos _)
    _ = 2 ^ k := by rw [← pow_add, Nat.add_sub_cancel' hk]

/-- One round; the counter `st` runs ahead of the nodes on the level above the lowest. -/
theorem idLoop_step (hi : i < n) (hn : n ≤ 2 ^ k) (rounds : ℕ) :
    idLoop k (height n) (lowest n) (rounds + 1) i ((lowest n / 2 + (i - lowest n) : ℕ) : ℤ) = do
      let pattern ← shiftLeft (place n i).1 (k - (place n i).2 : ℕ)
      let ids ← idLoop k (height n) (lowest n) rounds (i + 1 : ℕ)
        ((lowest n / 2 + (i + 1 - lowest n) : ℕ) : ℤ)
      return ⟨Int64.ofInt pattern, Int32.ofNat (place n i).2, Int32.ofNat k⟩ :: ids := by
  have hheight := height_le hn
  rw [idLoop]
  by_cases hlow : i < lowest n
  · have hst : lowest n / 2 + (i - lowest n) = lowest n / 2 + (i + 1 - lowest n) := by omega
    rw [place, if_pos hlow, if_pos (by exact_mod_cast hlow), hst, Nat.cast_sub hheight]
    rfl
  · have hpos : 1 ≤ height n := by
      obtain ⟨-, ⟨rfl, -, hlow⟩ | ⟨h, hh, -⟩⟩ := height_cases (n := n) (by omega)
      · omega
      · omega
    have hst : ((lowest n / 2 + (i - lowest n) : ℕ) : ℤ) + 1
        = ((lowest n / 2 + (i + 1 - lowest n) : ℕ) : ℤ) := by omega
    rw [place, if_neg hlow, if_neg (by exact_mod_cast hlow), hst,
      show (k : ℤ) - ((height n : ℤ) - 1) = ((k - (height n - 1) : ℕ) : ℤ) by omega,
      show (height n : ℤ) - 1 = ((height n - 1 : ℕ) : ℤ) by omega]
    rfl

/-- **The loop** gives every node its identifier. -/
theorem idLoop_eq (hk : k < 32) (hn : n ≤ 2 ^ k) {rounds : ℕ} (hle : i + rounds ≤ n) :
    idLoop k (height n) (lowest n) rounds i ((lowest n / 2 + (i - lowest n) : ℕ) : ℤ)
      = some ((List.range' i rounds).map (nodeId k n)) := by
  have hpow : 2 ^ k ≤ 2 ^ 31 := Nat.pow_le_pow_right (by omega) (by omega)
  induction rounds generalizing i with
  | zero => rfl
  | succ rounds ih =>
      have hi : i < n := by omega
      have hpattern := pattern_lt hi hn
      rw [idLoop_step hi hn, shiftLeft_natCast (by omega) (by omega), Option.bind_eq_bind,
        Option.bind_some, ih (i := i + 1) (by omega), List.range'_succ, List.map_cons]
      rfl

theorem intOfDouble_intCast (z : ℤ) : intOfDouble z = intResult z := by
  rw [intOfDouble, Int.floor_intCast, Int.ceil_intCast, ite_self]

/-- The variables that the loop starts with, if the doubled size of the tree fits an `int`. -/
theorem idArray_eq_idLoop (k : ℕ) (hpos : 1 ≤ n) (hlt : n < 2 ^ 30) : idArray k n =
    idLoop k (height n) (lowest n) n (0 : ℕ) ((lowest n / 2 + (0 - lowest n) : ℕ) : ℤ) := by
  obtain ⟨hle, hcases⟩ := height_cases hpos
  have htwice : 2 ^ height n ≤ 2 * n := by
    rcases hcases with ⟨rfl, hh, -⟩ | ⟨h, hh, hgt, -⟩
    · rw [hh]
      decide
    · rw [hh, pow_succ]
      omega
  have hlow : intOfDouble (((2 * n : ℤ) : ℚ) - 2 ^ height n) = some (lowest n : ℤ) := by
    have hcast : ((2 * n : ℤ) : ℚ) - 2 ^ height n = ((lowest n : ℤ) : ℚ) := by
      rw [lowest, Int.cast_natCast, Nat.cast_sub htwice]
      push_cast
      rfl
    rw [hcast, intOfDouble_intCast, intResult_eq_some]
    have hlowest : lowest n ≤ n := by rw [lowest]; omega
    omega
  have hprev : intResult ((n : ℤ) - lowest n) = some ((n - lowest n : ℕ) : ℤ) := by
    have hlowest : lowest n ≤ n := by rw [lowest]; omega
    rw [Nat.cast_sub hlowest, intResult_eq_some (by omega)]
  have hstart : intOfDouble (2 ^ ((height n : ℤ) - 1) - ((n - lowest n : ℕ) : ℤ))
      = some ((lowest n / 2 + (0 - lowest n) : ℕ) : ℤ) := by
    rcases hcases with ⟨rfl, hh, hlowest⟩ | ⟨h, hh, hgt, hlowest⟩
    · rw [hh, hlowest]
      norm_num [intOfDouble, intResult]
    · have hcast : (2 : ℚ) ^ ((height n : ℤ) - 1) - ((n - lowest n : ℕ) : ℤ)
          = ((lowest n / 2 : ℕ) : ℤ) := by
        have hsum : 2 ^ h = lowest n / 2 + (n - lowest n) := by
          rw [hh, pow_succ] at hle
          omega
        rw [hh, show ((h + 1 : ℕ) : ℤ) - 1 = (h : ℤ) by omega, zpow_natCast, sub_eq_iff_eq_add]
        exact_mod_cast hsum
      have hpow := Nat.two_pow_pos h
      rw [hcast, intOfDouble_intCast, intResult_eq_some (by omega), Nat.zero_sub, Nat.add_zero]
  rw [idArray, intResult_eq_some (by omega)]
  show (intOfDouble (((2 * n : ℤ) : ℚ) - 2 ^ height n) >>= _) = _
  rw [hlow]
  show (intResult ((n : ℤ) - lowest n) >>= _) = _
  rw [hprev]
  show (intOfDouble (2 ^ ((height n : ℤ) - 1) - ((n - lowest n : ℕ) : ℤ)) >>= _) = _
  rw [hstart]
  rfl

/-- **The identifiers of a tree** whose doubled size fits an `int`. -/
theorem idArray_eq (hk : k < 32) (hpos : 1 ≤ n) (hn : n ≤ 2 ^ k) (hlt : n < 2 ^ 30) :
    idArray k n = some ((List.range n).map (nodeId k n)) := by
  rw [idArray_eq_idLoop k hpos hlt, idLoop_eq hk hn (by omega), List.range_eq_range']

/-- The doubled size overflows. -/
theorem idArray_of_overflow (hn : 2 ^ 30 ≤ n) : idArray k n = none := by
  rw [idArray, intResult, if_neg (by omega)]
  rfl

/-- A loop that ends has shifted the number of every node. -/
theorem shiftLeft_of_idLoop (hn : n ≤ 2 ^ k) {rounds j : ℕ} (hle : i + rounds ≤ n)
    {ids : List OverlayId} (h : idLoop k (height n) (lowest n) rounds i
      ((lowest n / 2 + (i - lowest n) : ℕ) : ℤ) = some ids) (hij : i ≤ j) (hj : j < i + rounds) :
    ∃ pattern, shiftLeft (place n j).1 (k - (place n j).2 : ℕ) = some pattern := by
  induction rounds generalizing i ids with
  | zero => omega
  | succ rounds ih =>
      rw [idLoop_step (by omega) hn] at h
      obtain ⟨pattern, hpattern, h⟩ := Option.bind_eq_some_iff.mp h
      obtain ⟨rest, hrest, -⟩ := Option.bind_eq_some_iff.mp h
      rcases Nat.eq_or_lt_of_le hij with rfl | hlt
      · exact ⟨pattern, hpattern⟩
      · exact ih (by omega) hrest (by omega) (by omega)

/-- The last node has the largest number of its level. -/
theorem place_last (hpos : 1 ≤ n) : (place n (n - 1)).1 + 1 = 2 ^ (place n (n - 1)).2 ∧
    (n = 1 ∨ 1 ≤ (place n (n - 1)).2) := by
  obtain ⟨hle, ⟨rfl, hh, hlow⟩ | ⟨h, hh, hlt, hlow⟩⟩ := height_cases hpos
  · rw [place, hlow, hh]
    exact ⟨rfl, Or.inl rfl⟩
  · rw [hh, pow_succ] at hle
    have hpow := Nat.two_pow_pos h
    rw [place, hh]
    split_ifs with hlast
    · exact ⟨by dsimp only; rw [pow_succ]; omega, Or.inr (by dsimp only; omega)⟩
    · refine ⟨by dsimp only; rw [Nat.add_sub_cancel]; omega, Or.inr ?_⟩
      rcases Nat.eq_zero_or_pos h with rfl | hh
      · omega
      · omega

/-- **Only short identifiers are built**: otherwise the pattern of the last node overflows. -/
theorem lt_of_idArray (hpos : 1 ≤ n) (hn : n ≤ 2 ^ k) {ids : List OverlayId}
    (h : idArray k n = some ids) : k < 32 ∧ n < 2 ^ 30 := by
  have hlt : n < 2 ^ 30 := by
    by_contra hge
    rw [idArray_of_overflow (not_lt.mp hge)] at h
    cases h
  refine ⟨?_, hlt⟩
  rw [idArray_eq_idLoop k hpos hlt] at h
  obtain ⟨pattern, hpattern⟩ :=
    shiftLeft_of_idLoop (j := n - 1) hn (by omega) h (by omega) (by omega)
  have hle := (place_lt (show n - 1 < n by omega)).2.trans (height_le hn)
  obtain ⟨hlast, hone⟩ := place_last hpos
  rw [shiftLeft] at hpattern
  split_ifs at hpattern with hdef
  rw [intResult] at hpattern
  split_ifs at hpattern with hfits
  by_contra hk
  rcases hone with rfl | hone
  · have hzero : (place 1 (1 - 1)).2 = 0 := rfl
    omega
  · -- the pattern of the last node consists of ones, as many as its prefix is long
    have hbig : 2 ^ 31 ≤ (place n (n - 1)).1 * 2 ^ (k - (place n (n - 1)).2) := by
      obtain ⟨l, hl⟩ := Nat.exists_eq_add_of_le' hone
      rw [hl] at hlast hle ⊢
      rw [pow_succ] at hlast
      have hhalf := Nat.two_pow_pos l
      calc 2 ^ 31 ≤ 2 ^ (l + (k - (l + 1))) := Nat.pow_le_pow_right (by omega) (by omega)
        _ = 2 ^ l * 2 ^ (k - (l + 1)) := pow_add _ _ _
        _ ≤ (place n (n - 1)).1 * 2 ^ (k - (l + 1)) := Nat.mul_le_mul_right _ (by omega)
    rw [Int.toNat_natCast] at hfits
    exact absurd (by exact_mod_cast hfits.2) (not_lt.mpr hbig)

end BuildTree

end Klink
