/-
# The Golay code (`plnode/protocol/plexus/golay/golay.c`)

Words of 23 bits, of which the upper 12 are the data.  `get_syndrome` divides by the
generator polynomial; `encode_golay` and `decode_golay` read tables that are filled with
it at the first call.

A result is missing where the code does not end or leaves an array.  The loops of
`get_syndrome` change either `aux` or `pattern`, so that the two `while` loops are one:
a round of the inner loop does not change what the outer one tests.

`whileLoop_syndrome` : from a pattern without the bits 23 to 31 the loops end, with the
remainder in the lower 11 bits and the bits from 32 on as they were.
`not_returns_syndrome` : from one with such a bit, and without the sign, they do not end.
`getSyndrome_word` : so the remainder of a word of 23 bits is that of its columns.
-/
import Pweb.Foundation.BitCode
import Pweb.Foundation.WhileLoop
import Pweb.Klink.Message

namespace Klink

namespace Golay

/-! ## The functions -/

def x22 : Int64 := 0x00400000

def x11 : Int64 := 0x00000800

def mask12 : Int64 := 0xfffff800

def genpol : Int64 := 0x00000c75

/-- One round of the loops of `get_syndrome`, on `aux` and `pattern`. -/
def syndromeRound (s : Int64 × Int64) : (Int64 × Int64) ⊕ Int64 :=
  let (aux, pattern) := s
  if pattern &&& mask12 = 0 then .inr pattern
  else if aux &&& pattern = 0 then .inl (aux >>> 1, pattern)
  else .inl (aux, pattern ^^^ (aux / x11 * genpol))

/-- `get_syndrome`; loops that end do so within 24 rounds (`getSyndrome_eq_some_iff`). -/
def getSyndrome (pattern : Int64) : Option Int64 :=
  if x11 ≤ pattern then whileLoop syndromeRound 24 (x22, pattern) else some pattern

/-- The loop over `temp` in `arr2int`. -/
def shiftLoop : ℕ → Int64 → Int64
  | 0, mul => mul
  | temp + 1, mul => shiftLoop temp (mul <<< 1)

/-- `arr2int`, on the entries `a[1]` to `a[r]`. -/
def arr2int (a : List ℕ) (r : ℕ) : Int64 :=
  (List.range' 1 r).foldl (fun result i => result + shiftLoop (a.getD i 0 - 1) 1) 0

/-- The `while` loop of `nextcomb`; it does not look below `a[0]`. -/
def scanLoop (n r : ℕ) (a : List ℕ) : ℕ → Option ℕ
  | 0 => if a.getD 0 0 = n - r then none else some 0
  | j + 1 => if a.getD (j + 1) 0 = n - r + (j + 1) then scanLoop n r a j else some (j + 1)

/-- The `for` loop of `nextcomb`, from `i` down to `j`. -/
def fillLoop (j : ℕ) : ℕ → List ℕ → List ℕ
  | 0, a => if j = 0 then a.set 0 (a.getD j 0 + 0 - j + 1) else a
  | i + 1, a =>
    if j ≤ i + 1 then fillLoop j i (a.set (i + 1) (a.getD j 0 + (i + 1) - j + 1)) else a

/-- `nextcomb`. -/
def nextcomb (n r : ℕ) (a : List ℕ) : Option (List ℕ) :=
  let a := a.set r (a.getD r 0 + 1)
  if a.getD r 0 ≤ n then some a
  else do
    let j ← scanLoop n r a (r - 1)
    some (fillLoop j r a)

/-- Write to an array. -/
def setEntry (table : Array Int64) (i v : Int64) : Option (Array Int64) :=
  if 0 ≤ i.toInt ∧ i.toInt < table.size then some (table.setIfInBounds i.toInt.toNat v) else none

/-- Read from an array. -/
def getEntry (table : Array Int64) (i : Int64) : Option Int64 :=
  if 0 ≤ i.toInt then table[i.toInt.toNat]? else none

/-- The loop of `gen_enc_table`, for `n` patterns from `pattern` on. -/
def encLoop : ℕ → Int64 → Array Int64 → Option (Array Int64)
  | 0, _, table => some table
  | n + 1, pattern, table => do
    let temp := pattern <<< 11
    let table ← setEntry table pattern (temp + (← getSyndrome temp))
    encLoop n (pattern + 1) table

/-- `gen_enc_table`. -/
def genEncTable : Option (Array Int64) := encLoop 4096 0 (Array.replicate 4096 0)

/-- `decoding_table[get_syndrome(temp)] = temp`. -/
def storePattern (table : Array Int64) (temp : Int64) : Option (Array Int64) := do
  setEntry table (← getSyndrome temp) temp

/-- The loop over the single errors. -/
def singleLoop : ℕ → Int64 → Array Int64 → Option (Array Int64)
  | 0, _, table => some table
  | n + 1, temp, table => do
    let temp := temp * 2
    let table ← storePattern table temp
    singleLoop n temp table

/-- The loop over the errors of `r` bits. -/
def multipleLoop (r : ℕ) : ℕ → List ℕ → Array Int64 → Option (List ℕ × Array Int64)
  | 0, a, table => some (a, table)
  | n + 1, a, table => do
    let a ← nextcomb 23 r a
    let table ← storePattern table (arr2int a r)
    multipleLoop r n a table

/-- `gen_dec_table`. -/
def genDecTable : Option (Array Int64) := do
  let table := Array.replicate 2048 0
  let table ← setEntry table 0 0
  let table ← setEntry table 1 1
  let table ← singleLoop 22 1 table
  let a := ([0, 0, 0, 0].set 1 1).set 2 2
  let table ← storePattern table (arr2int a 2)
  let (a, table) ← multipleLoop 2 252 a table
  let a := ((a.set 1 1).set 2 2).set 3 3
  let table ← storePattern table (arr2int a 3)
  let (_, table) ← multipleLoop 3 1770 a table
  some table

/-- `encode_golay`. -/
def encodeGolay (data : Int64) : Option Int64 := do
  getEntry (← genEncTable) data

/-- `decode_golay`. -/
def decodeGolay (codeword : Int64) : Option Int64 := do
  let table ← genDecTable
  let pattern ← getEntry table (← getSyndrome codeword)
  some ((codeword ^^^ pattern) >>> 11)

/-! ## Words as numbers -/

/-- The bits of a `long`. -/
def bits (x : Int64) : ℕ := x.toBitVec.toNat

theorem bits_xor (x y : Int64) : bits (x ^^^ y) = bits x ^^^ bits y := by
  rw [bits, Int64.toBitVec_xor, BitVec.toNat_xor, ← bits, ← bits]

theorem bits_and (x y : Int64) : bits (x &&& y) = bits x &&& bits y := by
  rw [bits, Int64.toBitVec_and, BitVec.toNat_and, ← bits, ← bits]

theorem bits_lt (x : Int64) : bits x < 2 ^ 64 := x.toBitVec.isLt

theorem bits_injective {x y : Int64} (h : bits x = bits y) : x = y :=
  Int64.toBitVec_inj.mp (BitVec.eq_of_toNat_eq h)

theorem bits_ofNat {n : ℕ} (h : n < 2 ^ 64) : bits (Int64.ofNat n) = n := by
  show (BitVec.ofNat 64 n).toNat = n
  rw [BitVec.toNat_ofNat, Nat.mod_eq_of_lt h]

theorem ofNat_bits (x : Int64) : Int64.ofNat (bits x) = x :=
  bits_injective (bits_ofNat (bits_lt x))

theorem bits_eq_zero {x : Int64} : x = 0 ↔ bits x = 0 :=
  ⟨fun h => by rw [h]; rfl, fun h => bits_injective h⟩

theorem toInt_eq (x : Int64) :
    x.toInt = if bits x < 2 ^ 63 then (bits x : ℤ) else bits x - 2 ^ 64 := by
  show x.toBitVec.toInt = _
  rw [BitVec.toInt_eq_toNat_cond]
  show (if 2 * bits x < 2 ^ 64 then (bits x : ℤ) else bits x - (2 ^ 64 : ℕ)) = _
  split_ifs <;> omega

/-- The `while` loop of `get_syndrome` ends when the bits 11 to 31 are clear. -/
theorem and_mask12_eq_zero {p : Int64} :
    p &&& mask12 = 0 ↔ ∀ i, 11 ≤ i → i < 32 → (bits p).testBit i = false := by
  have hmask : bits mask12 = (2 ^ 21 - 1) <<< 11 := by decide
  rw [bits_eq_zero, bits_and, hmask]
  constructor
  · intro h i hle hlt
    have hbit := congrArg (fun n => n.testBit i) h
    rw [Nat.testBit_and, Nat.testBit_shiftLeft, Nat.testBit_two_pow_sub_one, Nat.zero_testBit,
      decide_eq_true hle, decide_eq_true (by omega)] at hbit
    exact (Bool.and_true _).symm.trans hbit
  · intro h
    apply Nat.eq_of_testBit_eq
    intro i
    rw [Nat.testBit_and, Nat.testBit_shiftLeft, Nat.testBit_two_pow_sub_one, Nat.zero_testBit]
    by_cases hi : 11 ≤ i ∧ i < 32
    · rw [h i hi.1 hi.2, Bool.false_and]
    · have hout : (decide (11 ≤ i) && decide (i - 11 < 21)) = false := by
        rw [Bool.and_eq_false_iff, decide_eq_false_iff_not, decide_eq_false_iff_not]
        omega
      rw [hout, Bool.and_false]

/-- The bit at a position, as `aux` has it. -/
def bitAt (b : ℕ) : Int64 := Int64.ofNat (2 ^ b)

theorem bitAt_shift : ∀ b < 22, bitAt (b + 1) >>> 1 = bitAt b := by decide

theorem bitAt_zero_shift : bitAt 0 >>> 1 = 0 := by decide

theorem bitAt_times : ∀ k ≤ 11, bitAt (11 + k) / x11 * genpol = Int64.ofNat (0xc75 <<< k) := by
  decide

theorem bitAt_times_low : ∀ b < 11, bitAt b / x11 * genpol = 0 := by decide

theorem bitAt_and_eq_zero {b : ℕ} (hb : b < 64) {p : Int64} :
    bitAt b &&& p = 0 ↔ (bits p).testBit b = false := by
  rw [bits_eq_zero, bits_and, bitAt, bits_ofNat (Nat.pow_lt_pow_right (by omega) hb),
    Nat.and_comm, Nat.and_two_pow]
  cases (bits p).testBit b with
  | true => simp
  | false => simp

/-! ## Remainders -/

/-- The remainder of `x ^ i`. -/
def column : ℕ → ℕ
  | 0 => 1
  | i + 1 => if 2048 ≤ 2 * column i then 2 * column i ^^^ 0xc75 else 2 * column i

/-- The remainder of a word of 23 bits. -/
def syndrome (p : ℕ) : ℕ := BitCode.combine column 23 p

theorem syndrome_xor (p q : ℕ) : syndrome (p ^^^ q) = syndrome p ^^^ syndrome q :=
  BitCode.combine_xor column 23 p q

theorem column_lt : ∀ i < 23, column i < 2 ^ 11 := by decide

theorem column_of_lt : ∀ i < 11, column i = 2 ^ i := by decide

/-- The multiples of the generator polynomial have no remainder. -/
theorem syndrome_genpol : ∀ k ≤ 11, syndrome (0xc75 <<< k) = 0 := by decide

theorem syndrome_lt (p : ℕ) : syndrome p < 2 ^ 11 := BitCode.combine_lt column_lt p

/-- A word of 11 bits is its own remainder. -/
theorem syndrome_of_lt {p : ℕ} (h : p < 2 ^ 11) : syndrome p = p := by
  rw [syndrome, BitCode.combine_of_lt (by omega) h, BitCode.combine_of_units column_of_lt,
    Nat.mod_eq_of_lt h]

/-! ## The loops -/

/-- A multiple of the generator polynomial below the bit `11 + k`. -/
theorem testBit_genpol {k i : ℕ} (h : 11 + k < i) : (0xc75 <<< k).testBit i = false := by
  rw [Nat.testBit_shiftLeft, Nat.testBit_lt_two_pow (i := i - k), Bool.and_false]
  exact (show 0xc75 < 2 ^ 12 by decide).trans_le (Nat.pow_le_pow_right (by omega) (by omega))

theorem testBit_genpol_top (k : ℕ) : (0xc75 <<< k).testBit (11 + k) = true := by
  rw [Nat.testBit_shiftLeft, decide_eq_true (Nat.le_add_left k 11), Nat.add_sub_cancel]
  rfl

theorem bits_genpol {k : ℕ} (hk : k ≤ 11) : bits (Int64.ofNat (0xc75 <<< k)) = 0xc75 <<< k := by
  have hall : ∀ k ≤ 11, 0xc75 <<< k < 2 ^ 64 := by decide
  exact bits_ofNat (hall k hk)

/-- The bits of `p` between `b` and 32 are clear. -/
def Clear (b : ℕ) (p : Int64) : Prop := ∀ i, b ≤ i → i < 32 → (bits p).testBit i = false

/-- `r` is `p` with its lower 32 bits replaced by their remainder. -/
structure Remainder (p r : Int64) : Prop where
  clear : Clear 11 r
  high : ∀ i, 32 ≤ i → (bits r).testBit i = (bits p).testBit i
  syndrome : syndrome (bits r) = syndrome (bits p)

theorem Remainder.refl {p : Int64} (h : Clear 11 p) : Remainder p p := ⟨h, fun _ _ => rfl, rfl⟩

/-- Subtracting a multiple of the generator polynomial keeps the remainder. -/
theorem Remainder.of_xor {k : ℕ} (hk : k ≤ 11) {p r : Int64}
    (h : Remainder (p ^^^ Int64.ofNat (0xc75 <<< k)) r) : Remainder p r where
  clear := h.clear
  high i hi := by
    rw [h.high i hi, bits_xor, bits_genpol hk, Nat.testBit_xor, testBit_genpol (by omega),
      Bool.xor_false]
  syndrome := by
    rw [h.syndrome, bits_xor, bits_genpol hk, syndrome_xor, syndrome_genpol k hk, Nat.xor_zero]

theorem Clear.xor {k : ℕ} (hk : k ≤ 11) {p : Int64} (h : Clear (12 + k) p)
    (hbit : (bits p).testBit (11 + k) = true) :
    Clear (11 + k) (p ^^^ Int64.ofNat (0xc75 <<< k)) := by
  intro i hle hlt
  rw [bits_xor, bits_genpol hk, Nat.testBit_xor]
  rcases Nat.eq_or_lt_of_le hle with rfl | hgt
  · rw [hbit, testBit_genpol_top]
    rfl
  · rw [h i (by omega) hlt, testBit_genpol hgt]
    rfl

theorem syndromeRound_leave {aux p : Int64} (h : Clear 11 p) : syndromeRound (aux, p) = .inr p :=
  if_pos (and_mask12_eq_zero.mpr h)

theorem syndromeRound_shift {b : ℕ} (hb : b < 64) {p : Int64} (h : ¬ Clear 11 p)
    (hbit : (bits p).testBit b = false) :
    syndromeRound (bitAt b, p) = .inl (bitAt b >>> 1, p) := by
  dsimp only [syndromeRound]
  rw [if_neg fun hmask => h (and_mask12_eq_zero.mp hmask),
    if_pos ((bitAt_and_eq_zero hb).mpr hbit)]

theorem syndromeRound_xor {b : ℕ} (hb : b < 64) {p : Int64} (h : ¬ Clear 11 p)
    (hbit : (bits p).testBit b = true) :
    syndromeRound (bitAt b, p) = .inl (bitAt b, p ^^^ (bitAt b / x11 * genpol)) := by
  dsimp only [syndromeRound]
  rw [if_neg fun hmask => h (and_mask12_eq_zero.mp hmask), if_neg]
  intro hzero
  rw [(bitAt_and_eq_zero hb).mp hzero] at hbit
  cases hbit

/-- The loops with `aux = 2 ^ (11 + k)` end, with the remainder of the pattern. -/
def Ends (n k : ℕ) (p : Int64) : Prop :=
  ∃ r, whileLoop syndromeRound n (bitAt (11 + k), p) = some r ∧ Remainder p r

theorem Ends.leave {n k : ℕ} {p : Int64} (h : Clear 11 p) : Ends (n + 1) k p :=
  ⟨p, whileLoop_leave (syndromeRound_leave h) n, Remainder.refl h⟩

theorem Ends.mono {n m k : ℕ} {p : Int64} (h : Ends n k p) (hle : n ≤ m) : Ends m k p := by
  obtain ⟨r, hloop, hr⟩ := h
  exact ⟨r, whileLoop_mono hloop hle, hr⟩

/-- A round for the bit `11 + k`, if it is set. -/
theorem ends_of_clear {n k : ℕ} (hk : k ≤ 11) (h : ∀ p, Clear (11 + k) p → Ends n k p) {p : Int64}
    (hclear : Clear (12 + k) p) : Ends (n + 1) k p := by
  cases hbit : (bits p).testBit (11 + k) with
  | false =>
      refine (h p fun i hle hlt => ?_).mono (Nat.le_succ n)
      rcases Nat.eq_or_lt_of_le hle with rfl | hgt
      · exact hbit
      · exact hclear i (by omega) hlt
  | true =>
      have hset : ¬ Clear 11 p := by
        intro hall
        rw [hall (11 + k) (by omega) (by omega)] at hbit
        cases hbit
      obtain ⟨r, hloop, hr⟩ := h _ (hclear.xor hk hbit)
      have hround := syndromeRound_xor (by omega) hset hbit
      rw [bitAt_times k hk] at hround
      exact ⟨r, (whileLoop_next hround n).trans hloop, hr.of_xor hk⟩

/-- **The loops end** when the bits from `11 + k` to 31 are clear, within `2 k + 1` rounds. -/
theorem ends_syndrome {k : ℕ} (hk : k ≤ 11) (p : Int64) (hclear : Clear (11 + k) p) :
    Ends (2 * k + 1) k p := by
  induction k generalizing p with
  | zero => exact Ends.leave hclear
  | succ k ih =>
      by_cases hset : Clear 11 p
      · exact Ends.leave hset
      · have hround := syndromeRound_shift (b := 11 + k + 1) (by omega) hset
          (hclear _ le_rfl (by omega))
        rw [bitAt_shift (11 + k) (by omega)] at hround
        have hnext : Clear (12 + k) p := fun i hle hlt => hclear i (by omega) hlt
        obtain ⟨r, hloop, hr⟩ := ends_of_clear (by omega) (ih (by omega)) hnext
        exact ⟨r, (whileLoop_next hround _).trans hloop, hr⟩

/-- From bit 22 on, the loops end within 24 rounds. -/
theorem whileLoop_syndrome {p : Int64} (hclear : Clear 23 p) :
    ∃ r, whileLoop syndromeRound 24 (x22, p) = some r ∧ Remainder p r :=
  ends_of_clear le_rfl (ends_syndrome le_rfl) hclear

/-- **Endless loops**: a bit between 23 and 31 is never cleared. -/
theorem not_returns_syndrome {j : ℕ} (hj : 23 ≤ j) (hj' : j < 32) {p : Int64}
    (hbit : (bits p).testBit j = true) (r : Int64) : ¬ Returns syndromeRound (x22, p) r := by
  refine not_returns (I := fun s => (s.1 = 0 ∨ ∃ b ≤ 22, s.1 = bitAt b) ∧
    (bits s.2).testBit j = true) ?_ ⟨Or.inr ⟨22, le_rfl, rfl⟩, hbit⟩
  rintro ⟨aux, p⟩ ⟨haux, hbit⟩
  have hset : ¬ Clear 11 p := by
    intro hall
    rw [hall j (by omega) hj'] at hbit
    cases hbit
  rcases haux with rfl | ⟨b, hb, rfl⟩
  · refine ⟨((0 : Int64) >>> 1, p), ?_, Or.inl (show (0 : Int64) >>> 1 = 0 by decide), hbit⟩
    dsimp only [syndromeRound]
    rw [if_neg fun hmask => hset (and_mask12_eq_zero.mp hmask), if_pos Int64.zero_and]
  · cases htest : (bits p).testBit b with
    | false =>
        refine ⟨_, syndromeRound_shift (by omega) hset htest, ?_, hbit⟩
        cases b with
        | zero => exact Or.inl bitAt_zero_shift
        | succ b => exact Or.inr ⟨b, by omega, bitAt_shift b (by omega)⟩
    | true =>
        refine ⟨_, syndromeRound_xor (by omega) hset htest, Or.inr ⟨b, hb, rfl⟩, ?_⟩
        show (bits (p ^^^ (bitAt b / x11 * genpol))).testBit j = true
        rcases Nat.lt_or_ge b 11 with hlow | hhigh
        · rw [bitAt_times_low b hlow, Int64.xor_zero]
          exact hbit
        · obtain ⟨k, rfl⟩ := Nat.exists_eq_add_of_le hhigh
          rw [bitAt_times k (by omega), bits_xor, bits_genpol (by omega), Nat.testBit_xor, hbit,
            testBit_genpol (by omega)]
          rfl

/-! ## The remainder of a pattern -/

theorem getSyndrome_of_lt {p : Int64} (h : p < x11) : getSyndrome p = some p :=
  if_neg (Int64.not_le.mpr h)

theorem getSyndrome_of_le {p : Int64} (h : x11 ≤ p) :
    getSyndrome p = whileLoop syndromeRound 24 (x22, p) := if_pos h

/-- The bits 23 to 31 are clear, or one of them is set. -/
theorem clear_or_bit (p : Int64) :
    Clear 23 p ∨ ∃ j, 23 ≤ j ∧ j < 32 ∧ (bits p).testBit j = true := by
  by_cases h : Clear 23 p
  · exact Or.inl h
  · right
    unfold Clear at h
    push Not at h
    obtain ⟨j, hle, hlt, hbit⟩ := h
    exact ⟨j, hle, hlt, by simpa using hbit⟩

/-- `getSyndrome` has the results of the loops, however long they run. -/
theorem getSyndrome_eq_some_iff {p r : Int64} : getSyndrome p = some r ↔
    (p < x11 ∧ r = p) ∨ (x11 ≤ p ∧ Returns syndromeRound (x22, p) r) := by
  rcases Int64.lt_or_le p x11 with hlt | hle
  · rw [getSyndrome_of_lt hlt, and_iff_right hlt, Option.some_inj, eq_comm]
    exact ⟨Or.inl, fun h => h.resolve_right fun h' => Int64.not_le.mpr hlt h'.1⟩
  · rw [getSyndrome_of_le hle, and_iff_right hle]
    constructor
    · exact fun h => Or.inr ⟨24, h⟩
    · rintro (⟨hlt, -⟩ | hreturns)
      · exact absurd hle (Int64.not_le.mpr hlt)
      · rcases clear_or_bit p with hclear | ⟨j, hj, hj', hbit⟩
        · obtain ⟨r', hloop, -⟩ := whileLoop_syndrome hclear
          rw [hloop, Returns.unique hreturns ⟨24, hloop⟩]
        · exact absurd hreturns (not_returns_syndrome hj hj' hbit r)

theorem toInt_of_lt {p : Int64} (h : bits p < 2 ^ 63) : p.toInt = bits p := by
  rw [toInt_eq, if_pos h]

theorem lt_x11_iff {p : Int64} : p < x11 ↔ p.toInt < 2048 := Int64.lt_iff_toInt_lt

theorem le_x11_iff {p : Int64} : x11 ≤ p ↔ 2048 ≤ p.toInt := Int64.le_iff_toInt_le

/-- **`get_syndrome` computes the remainder** of a word of 23 bits. -/
theorem getSyndrome_word {p : Int64} (h : bits p < 2 ^ 23) :
    getSyndrome p = some (Int64.ofNat (syndrome (bits p))) := by
  have hint := toInt_of_lt (h.trans (by decide))
  rcases Int64.lt_or_le p x11 with hlt | hle
  · have hlow : bits p < 2 ^ 11 := by
      have hlt := lt_x11_iff.mp hlt
      omega
    rw [getSyndrome_of_lt hlt, syndrome_of_lt hlow, ofNat_bits]
  · have hclear : Clear 23 p := fun i hle _ =>
      Nat.testBit_lt_two_pow (h.trans_le (Nat.pow_le_pow_right (by omega) hle))
    obtain ⟨r, hloop, hr⟩ := whileLoop_syndrome hclear
    have hlow : bits r < 2 ^ 11 := by
      apply Nat.lt_pow_two_of_testBit
      intro i hi
      rcases Nat.lt_or_ge i 32 with hi' | hi'
      · exact hr.clear i hi hi'
      · rw [hr.high i hi']
        exact Nat.testBit_lt_two_pow (h.trans_le (Nat.pow_le_pow_right (by omega) (by omega)))
    rw [getSyndrome_of_le hle, hloop, ← hr.syndrome, syndrome_of_lt hlow, ofNat_bits]

/-- A pattern whose remainder is an index of the decoding table is a word of 23 bits. -/
theorem bits_lt_of_getSyndrome {p r : Int64} (h : getSyndrome p = some r) (hr : 0 ≤ r.toInt)
    (hr' : r.toInt < 2048) : bits p < 2 ^ 23 := by
  rcases getSyndrome_eq_some_iff.mp h with ⟨-, rfl⟩ | ⟨-, hreturns⟩
  · rw [toInt_eq] at hr hr'
    have hlt := bits_lt r
    split_ifs at hr hr' <;> omega
  · rcases clear_or_bit p with hclear | ⟨j, hj, hj', hbit⟩
    · obtain ⟨r', hloop, hremainder⟩ := whileLoop_syndrome hclear
      obtain rfl : r = r' := Returns.unique hreturns ⟨24, hloop⟩
      have hlow : bits r < 2 ^ 11 := by
        rw [toInt_eq] at hr hr'
        have hlt := bits_lt r
        split_ifs at hr hr' <;> omega
      apply Nat.lt_pow_two_of_testBit
      intro i hi
      rcases Nat.lt_or_ge i 32 with hi' | hi'
      · exact hclear i hi hi'
      · rw [← hremainder.high i hi']
        exact Nat.testBit_lt_two_pow (hlow.trans_le (Nat.pow_le_pow_right (by omega) (by omega)))
    · exact absurd hreturns (not_returns_syndrome hj hj' hbit r)

end Golay

end Klink
