/-
# The tables of the Golay code (`plnode/protocol/plexus/golay/golay.c`)

The words of the code are `codeword d`, the 12 bits of data `d` followed by their
remainder; two of them differ in at least seven bits (`distance`).

The loops that fill the decoding table go through all patterns of at most three bits
(`genDecTable_spec`), of which there are as many as syndromes.  So the code is perfect:

* `decode_encode_correct` : up to three wrong bits are corrected;
* `decodeGolay_nearest` : every word of 23 bits is decoded, to the only data within three bits;
* `decodeGolay_returns` : no other word is.
-/
import Pweb.Klink.NextComb

open BitCode Combinations

namespace Klink

namespace Golay

/-! ## Words of the code -/

/-- The word of the code for one bit of data. -/
def row (k : ℕ) : ℕ := 2 ^ (11 + k) ^^^ column (11 + k)

/-- The word of the code for 12 bits of data. -/
def codeword (d : ℕ) : ℕ := d <<< 11 ^^^ syndrome (d <<< 11)

variable {c d e : ℕ}

/-- The upper and the lower bits of a word. -/
theorem syndrome_eq (p : ℕ) :
    syndrome p = combine (fun k => column (11 + k)) 12 (p >>> 11) ^^^ p % 2 ^ 11 := by
  rw [syndrome, show 23 = 11 + 12 from rfl, combine_add, combine_of_units column_of_lt]

theorem syndrome_shiftLeft (d : ℕ) :
    syndrome (d <<< 11) = combine (fun k => column (11 + k)) 12 d := by
  rw [syndrome_eq, Nat.shiftLeft_shiftRight, Nat.shiftLeft_eq, Nat.mul_mod_left, Nat.xor_zero]

theorem codeword_eq_combine (hd : d < 2 ^ 12) : codeword d = combine row 12 d := by
  rw [codeword, syndrome_shiftLeft, ← combine_shift hd, ← combine_xor_columns]
  rfl

theorem shiftLeft_lt (hd : d < 2 ^ 12) : d <<< 11 < 2 ^ 23 := by
  rw [Nat.shiftLeft_eq]
  omega

theorem codeword_lt (hd : d < 2 ^ 12) : codeword d < 2 ^ 23 :=
  Nat.xor_lt_two_pow (shiftLeft_lt hd) ((syndrome_lt _).trans (by decide))

theorem syndrome_codeword (d : ℕ) : syndrome (codeword d) = 0 := by
  rw [codeword, syndrome_xor, syndrome_of_lt (syndrome_lt _), Nat.xor_self]

theorem codeword_shiftRight (d : ℕ) : codeword d >>> 11 = d := by
  rw [codeword, Nat.shiftRight_xor_distrib, Nat.shiftLeft_shiftRight,
    Nat.shiftRight_eq_zero _ _ (syndrome_lt _), Nat.xor_zero]

/-- A word of syndrome zero is the word of the code for its upper bits. -/
theorem codeword_of_syndrome (h : syndrome c = 0) : codeword (c >>> 11) = c := by
  have hlow : syndrome (c >>> 11 <<< 11) = c % 2 ^ 11 := by
    rw [syndrome_shiftLeft]
    exact Nat.xor_eq_zero_iff.mp (by rw [← syndrome_eq, h])
  rw [codeword, hlow]
  rw [shiftLeft_xor (Nat.mod_lt c (Nat.two_pow_pos 11)), Nat.shiftLeft_eq,
    Nat.shiftRight_eq_div_pow]
  exact Nat.div_add_mod' c (2 ^ 11)

/-- All words of the code but zero have more than six bits. -/
theorem every_row : every (fun c => c == 0 || Nat.blt 6 (countBits 6 c)) row 12 0 = true := by
  decide +kernel

/-- **The distance of the code is seven.** -/
theorem distance (hc : c < 2 ^ 23) (h : syndrome c = 0) (hw : weight 23 c ≤ 6) : c = 0 := by
  have hdata : c >>> 11 < 2 ^ 12 := by
    rw [Nat.shiftRight_eq_div_pow]
    omega
  have hword := every_combine every_row (c >>> 11)
  rw [← codeword_eq_combine hdata, codeword_of_syndrome h, Nat.xor_zero, Bool.or_eq_true,
    beq_iff_eq, Nat.blt_eq, countBits_eq, weight_succ, Nat.testBit_lt_two_pow hc] at hword
  exact hword.resolve_right (by simpa using hw)

/-! ## Arrays -/

variable {table : Array Int64} {i : ℕ} {v : Int64}

theorem toInt_ofNat (h : i < 2 ^ 63) : (Int64.ofNat i).toInt = i := by
  have hbits : bits (Int64.ofNat i) = i := bits_ofNat (h.trans (by decide))
  rw [toInt_of_lt (by rwa [hbits]), hbits]

theorem setEntry_ofNat (hi : i < table.size) (hi' : i < 2 ^ 63) :
    setEntry table (Int64.ofNat i) v = some (table.setIfInBounds i v) := by
  rw [setEntry, toInt_ofNat hi', if_pos ⟨Int.natCast_nonneg i, Int.ofNat_lt.mpr hi⟩,
    Int.toNat_natCast]

theorem getEntry_ofNat (hi : i < 2 ^ 63) : getEntry table (Int64.ofNat i) = table[i]? := by
  rw [getEntry, toInt_ofNat hi, if_pos (Int.natCast_nonneg i), Int.toNat_natCast]

/-! ## The encoding table -/

theorem ofNat_shiftLeft (hi : i < 64) (d : ℕ) :
    Int64.ofNat d <<< Int64.ofNat i = Int64.ofNat (d <<< i) := by
  have hall : ∀ i < 64, (Int64.ofNat i).toBitVec.smod 64 = BitVec.ofNat 64 i := by decide
  apply Int64.toBitVec_inj.mp
  apply BitVec.eq_of_toNat_eq
  rw [Int64.toBitVec_shiftLeft, hall i hi, BitVec.shiftLeft_eq', BitVec.toNat_shiftLeft,
    BitVec.toNat_ofNat, Nat.mod_eq_of_lt (hi.trans (by decide))]
  show (d % 2 ^ 64) <<< i % 2 ^ 64 = d <<< i % 2 ^ 64
  rw [Nat.shiftLeft_eq, Nat.shiftLeft_eq, Nat.mod_mul_mod]

/-- The entry for 12 bits of data. -/
theorem encode_entry (hd : d < 2 ^ 12) :
    getSyndrome (Int64.ofNat d <<< 11) = some (Int64.ofNat (syndrome (d <<< 11))) ∧
      Int64.ofNat d <<< 11 + Int64.ofNat (syndrome (d <<< 11)) = Int64.ofNat (codeword d) := by
  have hlt := shiftLeft_lt hd
  rw [show (11 : Int64) = Int64.ofNat 11 from rfl, ofNat_shiftLeft (by decide)]
  constructor
  · have hbits : bits (Int64.ofNat (d <<< 11)) = d <<< 11 := bits_ofNat (hlt.trans (by decide))
    rw [getSyndrome_word (by rwa [hbits]), hbits]
  · rw [← Int64.ofNat_add, codeword]
    exact congrArg Int64.ofNat (shiftLeft_xor (syndrome_lt _) d).symm

theorem encLoop_spec {n k : ℕ} (table : Array Int64) (hsize : table.size = 4096)
    (hk : k + n ≤ 4096) :
    ∃ table', encLoop n (Int64.ofNat k) table = some table' ∧ table'.size = 4096 ∧
      ∀ i < 4096, table'[i]? =
        if k ≤ i ∧ i < k + n then some (Int64.ofNat (codeword i)) else table[i]? := by
  induction n generalizing k table with
  | zero => exact ⟨table, rfl, hsize, fun i _ => by rw [if_neg (by omega)]⟩
  | succ n ih =>
      obtain ⟨hsyndrome, hword⟩ := encode_entry (d := k) (by omega)
      obtain ⟨table', hloop, hsize', hentries⟩ :=
        ih (k := k + 1) (table.setIfInBounds k (Int64.ofNat (codeword k)))
          (by rw [Array.size_setIfInBounds, hsize]) (by omega)
      rw [Int64.ofNat_add] at hloop
      refine ⟨table', ?_, hsize', fun i hi => ?_⟩
      · rw [encLoop]
        rw [hsyndrome, Option.bind_eq_bind, Option.bind_some, hword,
          setEntry_ofNat (by omega) (by omega)]
        exact hloop
      · rw [hentries i hi, Array.getElem?_setIfInBounds]
        rcases eq_or_ne k i with rfl | hne
        · rw [if_neg (by omega), if_pos rfl, if_pos (by omega), if_pos (by omega)]
        · rw [if_neg hne]
          exact if_congr (by omega) rfl rfl

/-- **Data of 12 bits are encoded** by the word of the code that starts with them. -/
theorem encodeGolay_ofNat (hd : d < 2 ^ 12) :
    encodeGolay (Int64.ofNat d) = some (Int64.ofNat (codeword d)) := by
  have hsize : (Array.replicate 4096 (0 : Int64)).size = 4096 := Array.size_replicate
  obtain ⟨table, hloop, -, hentries⟩ := encLoop_spec (n := 4096) (k := 0) _ hsize le_rfl
  have htable : genEncTable = some table := hloop
  rw [encodeGolay, htable, Option.bind_eq_bind, Option.bind_some, getEntry_ofNat (by omega),
    hentries d hd, if_pos ⟨Nat.zero_le d, by omega⟩]

/-! ## The decoding table -/

/-- A pattern of at most three bits. -/
def Pattern (e : ℕ) : Prop := e < 2 ^ 23 ∧ weight 23 e ≤ 3

/-- The table has the patterns `P` under their syndromes. -/
structure Holds (table : Array Int64) (P : Set ℕ) : Prop where
  size : table.size = 2048
  pattern : ∀ e ∈ P, Pattern e
  entry : ∀ e ∈ P, table[syndrome e]? = some (Int64.ofNat e)

variable {P Q : Set ℕ} {a : List ℕ} {n k r : ℕ}

theorem Holds.mono (h : Holds table P) (hsub : Q ⊆ P) : Holds table Q :=
  ⟨h.size, fun e he => h.pattern e (hsub he), fun e he => h.entry e (hsub he)⟩

/-- No pattern takes the place of another. -/
theorem Holds.set (h : Holds table P) (he : Pattern e) :
    Holds (table.setIfInBounds (syndrome e) (Int64.ofNat e)) (insert e P) where
  size := Array.size_setIfInBounds.trans h.size
  pattern := by
    rintro e' (rfl | he')
    · exact he
    · exact h.pattern e' he'
  entry := by
    have hlt : syndrome e < table.size := h.size ▸ syndrome_lt e
    intro e' he'
    rw [Array.getElem?_setIfInBounds]
    split_ifs with heq
    · have hp : Pattern e' := (Set.mem_insert_iff.mp he').elim (fun h' => h' ▸ he) (h.pattern e')
      rw [eq_of_syndrome_eq syndrome_xor (fun c => distance) he.1 hp.1 he.2 hp.2 heq]
    · rcases he' with rfl | he'
      · exact absurd rfl heq
      · exact h.entry e' he'

theorem Holds.store (h : Holds table P) (he : Pattern e) :
    ∃ table', storePattern table (Int64.ofNat e) = some table' ∧ Holds table' (insert e P) := by
  have hbits : bits (Int64.ofNat e) = e := bits_ofNat (he.1.trans (by decide))
  have hlt := syndrome_lt e
  refine ⟨_, ?_, h.set he⟩
  rw [storePattern, getSyndrome_word (by rw [hbits]; exact he.1), hbits, Option.bind_eq_bind,
    Option.bind_some, setEntry_ofNat (h.size ▸ hlt) (hlt.trans (by decide))]

theorem pattern_two_pow (hi : i < 23) : Pattern (2 ^ i) := by
  have hall : ∀ i < 23, weight 23 (2 ^ i) ≤ 3 := by decide
  exact ⟨Nat.pow_lt_pow_right (by omega) hi, hall i hi⟩

/-- The patterns of one bit. -/
theorem singleLoop_spec (h : Holds table P) (hk : k + n ≤ 22) :
    ∃ table', singleLoop n (Int64.ofNat (2 ^ k)) table = some table' ∧
      Holds table' (P ∪ {e | ∃ i, k < i ∧ i ≤ k + n ∧ e = 2 ^ i}) := by
  induction n generalizing k table P with
  | zero =>
      refine ⟨table, rfl, h.mono ?_⟩
      rintro e (he | ⟨i, hlt, hle, -⟩)
      · exact he
      · omega
  | succ n ih =>
      have hdouble : Int64.ofNat (2 ^ k) * 2 = Int64.ofNat (2 ^ (k + 1)) := by
        rw [pow_succ, Int64.ofNat_mul]
        rfl
      obtain ⟨table₁, hstore, h₁⟩ := h.store (pattern_two_pow (i := k + 1) (by omega))
      obtain ⟨table', hloop, h'⟩ := ih (k := k + 1) h₁ (by omega)
      refine ⟨table', ?_, h'.mono ?_⟩
      · rw [singleLoop, hdouble, hstore]
        exact hloop
      · rintro e (he | ⟨i, hlt, hle, rfl⟩)
        · exact Or.inl (Or.inr he)
        · rcases Nat.eq_or_lt_of_le (Nat.succ_le_of_lt hlt) with rfl | hlt
          · exact Or.inl (Or.inl rfl)
          · exact Or.inr ⟨i, hlt, by omega, rfl⟩

/-- The word with bits at these positions, the first of which is 1. -/
def atPositions (l : List ℕ) : ℕ := word (l.map (· - 1))

theorem shiftLoop_eq (t m : ℕ) : shiftLoop t (Int64.ofNat m) = Int64.ofNat (m * 2 ^ t) := by
  induction t generalizing m with
  | zero => rw [pow_zero, Nat.mul_one, shiftLoop]
  | succ t ih =>
      rw [shiftLoop, show (1 : Int64) = Int64.ofNat 1 from rfl, ofNat_shiftLeft (by decide), ih,
        Nat.shiftLeft_eq, Nat.mul_assoc, pow_one, ← pow_succ']

theorem arr2int_eq (a : List ℕ) (r : ℕ) :
    arr2int a r = Int64.ofNat (atPositions (positions r a)) := by
  have hsum : ∀ (l : List ℕ) (m : ℕ),
      l.foldl (fun result i => result + shiftLoop (a.getD i 0 - 1) 1) (Int64.ofNat m) =
        Int64.ofNat (m + (l.map fun i => 2 ^ (a.getD i 0 - 1)).sum) := by
    intro l
    induction l with
    | nil => exact fun m => rfl
    | cons i l ih =>
        intro m
        rw [List.foldl_cons, show (1 : Int64) = Int64.ofNat 1 from rfl, shiftLoop_eq, Nat.one_mul,
          ← Int64.ofNat_add, List.map_cons, List.sum_cons, ← Nat.add_assoc]
        exact ih _
  have hall := hsum (List.range' 1 r) 0
  rw [Nat.zero_add] at hall
  rw [atPositions, word, positions, List.map_map, List.map_map]
  exact hall

/-! ## The patterns of two and three bits -/

theorem range'_one_eq (n : ℕ) : List.range' 1 n = (List.range n).map (· + 1) := by
  rw [List.range'_eq_map_range]
  exact List.map_congr_left fun i _ => Nat.add_comm 1 i

/-- A combination of `r` positions is a pattern of `r` bits. -/
theorem weight_atPositions {l : List ℕ} (h : l ∈ combinations 23 r) :
    atPositions l < 2 ^ 23 ∧ weight 23 (atPositions l) = r := by
  obtain ⟨hsub, rfl⟩ := mem_combinations.mp h
  rw [range'_one_eq, List.sublist_map_iff] at hsub
  obtain ⟨l, hsub, rfl⟩ := hsub
  have hpositions : atPositions (l.map (· + 1)) = word l := by
    rw [atPositions, List.map_map]
    exact congrArg word (List.map_id l)
  rw [hpositions, List.length_map]
  exact ⟨word_lt hsub, weight_word hsub⟩

/-- Each pattern of `r` bits is one. -/
theorem exists_combination (he : e < 2 ^ 23) (hw : weight 23 e = r) :
    ∃ l ∈ combinations 23 r, atPositions l = e := by
  refine ⟨e.bitIndices.map (· + 1), mem_combinations.mpr ⟨?_, ?_⟩, ?_⟩
  · rw [range'_one_eq]
    exact (bitIndices_sublist he).map _
  · rw [List.length_map, ← weight_eq_length he, hw]
  · rw [atPositions, List.map_map]
    exact (congrArg word (List.map_id _)).trans (word_bitIndices e)

/-- The loop stores the patterns that the calls of `nextcomb` go through. -/
theorem multipleLoop_spec (h : Holds table P) (hcalls : ∀ i ≤ n, ∃ a',
      calls (nextcomb 23 r) i a = some a' ∧ Pattern (atPositions (positions r a'))) :
    ∃ a' table', multipleLoop r n a table = some (a', table') ∧
      calls (nextcomb 23 r) n a = some a' ∧
      Holds table' (P ∪ {e | ∃ i a', 0 < i ∧ i ≤ n ∧ calls (nextcomb 23 r) i a = some a' ∧
        e = atPositions (positions r a')}) := by
  induction n generalizing a table P with
  | zero =>
      refine ⟨a, table, rfl, rfl, h.mono ?_⟩
      rintro e (he | ⟨i, a', hlt, hle, -⟩)
      · exact he
      · omega
  | succ n ih =>
      obtain ⟨a₁, hcall, hpattern⟩ := hcalls 1 (by omega)
      have hnext : nextcomb 23 r a = some a₁ := (Option.bind_fun_some _).symm.trans hcall
      have hcalls_succ : ∀ i, calls (nextcomb 23 r) (i + 1) a = calls (nextcomb 23 r) i a₁ := by
        intro i
        rw [calls, hnext, Option.bind_some]
      obtain ⟨table₁, hstore, h₁⟩ := h.store hpattern
      obtain ⟨a', table', hloop, hlast, h'⟩ := ih h₁ fun i hi => by
        rw [← hcalls_succ]
        exact hcalls (i + 1) (by omega)
      refine ⟨a', table', ?_, (hcalls_succ n).trans hlast, h'.mono ?_⟩
      · rw [multipleLoop, hnext, Option.bind_eq_bind, Option.bind_some, arr2int_eq, hstore]
        exact hloop
      · rintro e (he | ⟨i, b, hpos, hle, hb, rfl⟩)
        · exact Or.inl (Or.inr he)
        · obtain ⟨i, rfl⟩ := Nat.exists_eq_succ_of_ne_zero hpos.ne'
          rw [hcalls_succ] at hb
          rcases Nat.eq_zero_or_pos i with rfl | hpos'
          · exact Or.inl (Or.inl (by rw [Option.some_inj.mp hb]))
          · exact Or.inr ⟨i, b, hpos', by omega, hb, rfl⟩

/-- **All patterns of `r` bits are stored**, the first before the loop. -/
theorem multiple_spec (h : Holds table P) (hr : r ≤ 3) (ha : positions r a = List.range' 1 r)
    (hlength : r < a.length) : ∃ table₁ a' table',
      storePattern table (arr2int a r) = some table₁ ∧
      multipleLoop r (Nat.choose 23 r - 1) a table₁ = some (a', table') ∧ a'.length = a.length ∧
      Holds table' (P ∪ {e | e < 2 ^ 23 ∧ weight 23 e = r}) := by
  have hcalls : ∀ i < Nat.choose 23 r, ∃ a', calls (nextcomb 23 r) i a = some a' ∧
      a'.length = a.length ∧ (combinations 23 r)[i]? = some (positions r a') :=
    fun i hi => calls_nextcomb (by omega) hlength ha hi
  have hpattern : ∀ {i : ℕ} {a' : List ℕ}, (combinations 23 r)[i]? = some (positions r a') →
      Pattern (atPositions (positions r a')) := by
    intro i a' hentry
    obtain ⟨hlt, hw⟩ := weight_atPositions (List.mem_of_getElem? hentry)
    exact ⟨hlt, hw.trans_le hr⟩
  have hchoose : 0 < Nat.choose 23 r := Nat.choose_pos (by omega)
  obtain ⟨a₀, hfirst, -, hentry⟩ := hcalls 0 hchoose
  obtain rfl : a = a₀ := Option.some.inj hfirst
  obtain ⟨table₁, hstore, h₁⟩ := h.store (hpattern hentry)
  obtain ⟨a', table', hloop, hlast, h'⟩ := multipleLoop_spec (n := Nat.choose 23 r - 1) h₁
    fun i hi => by
      obtain ⟨a', hcall, -, hentry⟩ := hcalls i (by omega)
      exact ⟨a', hcall, hpattern hentry⟩
  refine ⟨table₁, a', table', (arr2int_eq a r).symm ▸ hstore, hloop, ?_, h'.mono ?_⟩
  · obtain ⟨b, hcall, hlength', -⟩ := hcalls (Nat.choose 23 r - 1) (by omega)
    rwa [Option.some_inj.mp (hlast.symm.trans hcall)]
  · rintro e (he | ⟨hlt, hw⟩)
    · exact Or.inl (Or.inr he)
    · obtain ⟨l, hl, rfl⟩ := exists_combination hlt hw
      obtain ⟨i, hi⟩ := List.mem_iff_getElem?.mp hl
      have hlt' : i < Nat.choose 23 r := by
        rw [← length_combinations]
        exact (List.getElem?_eq_some_iff.mp hi).1
      obtain ⟨b, hcall, -, hentry⟩ := hcalls i hlt'
      obtain rfl := Option.some.inj (hi.symm.trans hentry)
      rcases Nat.eq_zero_or_pos i with rfl | hpos
      · exact Or.inl (Or.inl (by rw [Option.some_inj.mp hcall]))
      · exact Or.inr ⟨i, b, hpos, by omega, hcall, rfl⟩

theorem eq_zero_of_weight (he : e < 2 ^ 23) (hw : weight 23 e = 0) : e = 0 := by
  rw [weight_eq_length he, List.length_eq_zero_iff] at hw
  rw [← word_bitIndices e, hw]
  rfl

theorem exists_two_pow (he : e < 2 ^ 23) (hw : weight 23 e = 1) : ∃ i < 23, e = 2 ^ i := by
  rw [weight_eq_length he, List.length_eq_one_iff] at hw
  obtain ⟨i, hi⟩ := hw
  refine ⟨i, lt_of_testBit he (Nat.mem_bitIndices.mp (hi ▸ List.mem_singleton_self i)), ?_⟩
  rw [← word_bitIndices e, hi]
  exact Nat.add_zero _

/-- **The decoding table holds all patterns of at most three bits.** -/
theorem genDecTable_spec : ∃ table, genDecTable = some table ∧ Holds table {e | Pattern e} := by
  unfold genDecTable
  have hsize : (Array.replicate 2048 (0 : Int64)).size = 2048 := Array.size_replicate
  generalize Array.replicate 2048 (0 : Int64) = table₀ at hsize ⊢
  have hempty : Holds table₀ ∅ := ⟨hsize, fun e he => absurd he (Set.notMem_empty e),
    fun e he => absurd he (Set.notMem_empty e)⟩
  have hzero := hempty.set (e := 0) ⟨by decide, by decide⟩
  have hone := hzero.set (e := 1) ⟨by decide, by decide⟩
  obtain ⟨table₁, hsingle, h₁⟩ := singleLoop_spec (k := 0) (n := 22) hone le_rfl
  obtain ⟨table₂, a₂, table₂', hstore₂, hloop₂, hlength₂, h₂⟩ :=
    multiple_spec (r := 2) (a := [0, 1, 2, 0]) h₁ (by decide) rfl (by decide)
  obtain ⟨w, x, y, z, rfl⟩ : ∃ w x y z, a₂ = [w, x, y, z] := List.length_eq_four.mp hlength₂
  obtain ⟨table₃, a₃, table₃', hstore₃, hloop₃, -, h₃⟩ :=
    multiple_spec (r := 3) (a := [w, 1, 2, 3]) h₂ le_rfl rfl (Nat.lt_succ_self 3)
  refine ⟨table₃', ?_, h₃.mono ?_⟩
  · have hset₀ : setEntry table₀ 0 0 = some (table₀.setIfInBounds 0 0) :=
      setEntry_ofNat (i := 0) (by omega) (by decide)
    have hset₁ : setEntry (table₀.setIfInBounds 0 0) 1 1 =
        some ((table₀.setIfInBounds 0 0).setIfInBounds 1 1) :=
      setEntry_ofNat (i := 1) (by rw [Array.size_setIfInBounds, hsize]; decide) (by decide)
    have hsingle : singleLoop 22 1 ((table₀.setIfInBounds 0 0).setIfInBounds 1 1) = some table₁ :=
      hsingle
    have hloop₂ : multipleLoop 2 252 [0, 1, 2, 0] table₂ = some ([w, x, y, z], table₂') := hloop₂
    have hloop₃ : multipleLoop 3 1770 [w, 1, 2, 3] table₃ = some (a₃, table₃') := hloop₃
    refine Option.bind_eq_some_iff.mpr ⟨_, hset₀, ?_⟩
    refine Option.bind_eq_some_iff.mpr ⟨_, hset₁, ?_⟩
    refine Option.bind_eq_some_iff.mpr ⟨_, hsingle, ?_⟩
    refine Option.bind_eq_some_iff.mpr ⟨_, hstore₂, ?_⟩
    refine Option.bind_eq_some_iff.mpr ⟨_, hloop₂, ?_⟩
    refine Option.bind_eq_some_iff.mpr ⟨_, hstore₃, ?_⟩
    exact Option.bind_eq_some_iff.mpr ⟨_, hloop₃, rfl⟩
  · rintro e ⟨hlt, hw⟩
    rcases Nat.lt_or_ge (weight 23 e) 2 with hfew | hmany
    · refine Or.inl (Or.inl ?_)
      rcases Nat.eq_zero_or_pos (weight 23 e) with hw | hpos
      · exact Or.inl (Or.inr (Or.inl (eq_zero_of_weight hlt hw)))
      · obtain ⟨i, hi, rfl⟩ := exists_two_pow hlt (by omega)
        rcases Nat.eq_zero_or_pos i with rfl | hpos
        · exact Or.inl (Or.inl rfl)
        · exact Or.inr ⟨i, hpos, by omega, rfl⟩
    · rcases Nat.eq_or_lt_of_le hmany with hw | hw
      · exact Or.inl (Or.inr ⟨hlt, hw.symm⟩)
      · exact Or.inr ⟨hlt, by omega⟩

theorem ofNat_shiftRight_eleven (h : d < 2 ^ 63) :
    Int64.ofNat d >>> 11 = Int64.ofNat (d >>> 11) := by
  have hmsb : (BitVec.ofNat 64 d).msb = false := by
    rw [BitVec.msb_eq_false_iff_two_mul_lt, BitVec.toNat_ofNat]
    omega
  apply Int64.toBitVec_inj.mp
  apply BitVec.eq_of_toNat_eq
  rw [Int64.toBitVec_shiftRight, show (11 : Int64).toBitVec.smod 64 = 11#64 by decide,
    BitVec.sshiftRight_eq', show (Int64.ofNat d).toBitVec = BitVec.ofNat 64 d from rfl,
    BitVec.sshiftRight_eq_of_msb_false hmsb, BitVec.toNat_ushiftRight, BitVec.toNat_ofNat,
    Nat.mod_eq_of_lt (h.trans (by decide))]
  show d >>> 11 = (d >>> 11) % 2 ^ 64
  rw [Nat.shiftRight_eq_div_pow]
  omega

theorem ofNat_xor {x y : ℕ} (hx : x < 2 ^ 64) (hy : y < 2 ^ 64) :
    Int64.ofNat x ^^^ Int64.ofNat y = Int64.ofNat (x ^^^ y) := by
  apply bits_injective
  rw [bits_xor, bits_ofNat hx, bits_ofNat hy, bits_ofNat (Nat.xor_lt_two_pow hx hy)]

/-- **The decoder**: its table holds one pattern of at most three bits under every syndrome, and
words of more than 23 bits do not lead into it. -/
theorem decodeGolay_spec : ∃ t, Decodes 23 3 2048 syndrome t ∧
    (∀ w < 2 ^ 23, decodeGolay (Int64.ofNat w) =
      some (Int64.ofNat ((w ^^^ t (syndrome w)) >>> 11))) ∧
    ∀ p data, decodeGolay p = some data → bits p < 2 ^ 23 := by
  obtain ⟨table, htable, h⟩ := genDecTable_spec
  have hdecodes : Decodes 23 3 2048 syndrome fun i => bits (table[i]?.getD 0) := by
    refine Decodes.of_patterns syndrome_xor (fun c => distance) (fun x _ => syndrome_lt x)
      (by decide) fun e he hw => ?_
    rw [h.entry e ⟨he, hw⟩, Option.getD_some, bits_ofNat (he.trans (by decide))]
  refine ⟨_, hdecodes, fun w hw => ?_, fun p data hdata => ?_⟩
  · have hbits : bits (Int64.ofNat w) = w := bits_ofNat (hw.trans (by decide))
    have hlt := syndrome_lt w
    obtain ⟨v, hv⟩ : ∃ v, table[syndrome w]? = some v :=
      ⟨_, Array.getElem?_eq_getElem (h.size ▸ hlt)⟩
    have hpattern := hdecodes.lt (syndrome w) hlt
    rw [hv, Option.getD_some] at hpattern ⊢
    have hdecoded := Nat.xor_lt_two_pow hw hpattern
    have hxor : Int64.ofNat w ^^^ v = Int64.ofNat (w ^^^ bits v) := by
      rw [← ofNat_xor (hw.trans (by decide)) (bits_lt v), ofNat_bits]
    rw [decodeGolay, htable, Option.bind_eq_bind, Option.bind_some,
      getSyndrome_word (by rwa [hbits]), hbits, Option.bind_eq_bind, Option.bind_some,
      getEntry_ofNat (hlt.trans (by decide)), hv]
    show some ((Int64.ofNat w ^^^ v) >>> 11) = _
    rw [hxor, ofNat_shiftRight_eleven (hdecoded.trans (by decide))]
  · rw [decodeGolay, htable, Option.bind_eq_bind, Option.bind_some] at hdata
    obtain ⟨r, hr, hdata⟩ := Option.bind_eq_some_iff.mp hdata
    obtain ⟨pattern, hpattern, -⟩ := Option.bind_eq_some_iff.mp hdata
    unfold getEntry at hpattern
    split_ifs at hpattern with hnonneg
    have hlt := (Array.getElem?_eq_some_iff.mp hpattern).1
    rw [h.size] at hlt
    exact bits_lt_of_getSyndrome hr hnonneg (by omega)

/-! ## Results -/

/-- A `long` from 0 up to a bound is its bits. -/
theorem bits_lt_iff {p : Int64} {k : ℕ} (hk : k < 64) :
    bits p < 2 ^ k ↔ 0 ≤ p.toInt ∧ p.toInt < 2 ^ k := by
  have hle : 2 ^ k ≤ 2 ^ 63 := Nat.pow_le_pow_right (by omega) (by omega)
  have hlt := bits_lt p
  rw [toInt_eq]
  constructor
  · intro h
    rw [if_pos (h.trans_le hle)]
    exact ⟨Int.natCast_nonneg _, by exact_mod_cast h⟩
  · rintro ⟨h, h'⟩
    split_ifs at h h' with hsign
    · exact_mod_cast h'
    · omega

/-- The encoder reads inside its table for 12 bits of data only. -/
theorem encodeGolay_eq_some {data word : Int64} (h : encodeGolay data = some word) :
    bits data < 2 ^ 12 ∧ word = Int64.ofNat (codeword (bits data)) := by
  obtain ⟨table, hloop, hsize, -⟩ := encLoop_spec (n := 4096) (k := 0)
    (Array.replicate 4096 0) Array.size_replicate le_rfl
  have htable : genEncTable = some table := hloop
  have hlt : bits data < 2 ^ 12 := by
    have hentry := h
    rw [encodeGolay, htable, Option.bind_eq_bind, Option.bind_some] at hentry
    unfold getEntry at hentry
    split_ifs at hentry with hnonneg
    have hlt := (Array.getElem?_eq_some_iff.mp hentry).1
    rw [hsize] at hlt
    exact (bits_lt_iff (by decide)).mpr ⟨hnonneg, by omega⟩
  have hword := encodeGolay_ofNat hlt
  rw [ofNat_bits, h] at hword
  exact ⟨hlt, Option.some.inj hword⟩

/-- **Up to three wrong bits are corrected**: the decoder returns the data. -/
theorem decode_encode_correct (data error : Int64) (hdata : 0 ≤ data.toInt)
    (hdata' : data.toInt < 2 ^ 12) (herror : bits error < 2 ^ 23)
    (hweight : weight 23 (bits error) ≤ 3) :
    ∃ word, encodeGolay data = some word ∧ decodeGolay (word ^^^ error) = some data := by
  obtain ⟨t, hdecodes, hdecode, -⟩ := decodeGolay_spec
  have hd : bits data < 2 ^ 12 := (bits_lt_iff (by decide)).mpr ⟨hdata, hdata'⟩
  have hword := codeword_lt hd
  have hencode := encodeGolay_ofNat hd
  rw [ofNat_bits] at hencode
  refine ⟨_, hencode, ?_⟩
  have hreceived : Int64.ofNat (codeword (bits data)) ^^^ error =
      Int64.ofNat (codeword (bits data) ^^^ bits error) := by
    rw [← ofNat_xor (hword.trans (by decide)) (bits_lt error), ofNat_bits]
  rw [hreceived, hdecode _ (Nat.xor_lt_two_pow hword herror),
    hdecodes.correct (syndrome_codeword _) herror hweight, codeword_shiftRight, ofNat_bits]

/-- Two wrong bits, the lowest and the highest. -/
theorem decode_two_errors : ∃ word, encodeGolay 0xb = some word ∧
    decodeGolay (word ^^^ 0x400001) = some 0xb :=
  decode_encode_correct 0xb 0x400001 (by decide) (by decide) (by decide) (by decide)

/-- **The decoder returns the nearest data**: of every word of 23 bits, the data whose word of the
code has at most three other bits, and there are no others. -/
theorem decodeGolay_nearest (received : Int64) (hreceived : 0 ≤ received.toInt)
    (hreceived' : received.toInt < 2 ^ 23) :
    ∃ data word, decodeGolay received = some data ∧ encodeGolay data = some word ∧
      weight 23 (bits (received ^^^ word)) ≤ 3 ∧
      ∀ data' word', encodeGolay data' = some word' →
        weight 23 (bits (received ^^^ word')) ≤ 3 → data' = data := by
  obtain ⟨t, hdecodes, hdecode, -⟩ := decodeGolay_spec
  have hw : bits received < 2 ^ 23 := (bits_lt_iff (by decide)).mpr ⟨hreceived, hreceived'⟩
  have hresult := hdecode _ hw
  rw [ofNat_bits] at hresult
  obtain ⟨hcode, hclose, hunique⟩ := hdecodes.existsUnique hw
  set c := bits received ^^^ t (syndrome (bits received))
  have hlt : c < 2 ^ 23 := Nat.xor_lt_two_pow hw (hdecodes.lt _ (syndrome_lt _))
  have hdata : c >>> 11 < 2 ^ 12 := by
    rw [Nat.shiftRight_eq_div_pow]
    omega
  refine ⟨_, _, hresult, encodeGolay_ofNat hdata, ?_, fun data' word' h h' => ?_⟩
  · rw [codeword_of_syndrome hcode, bits_xor, bits_ofNat (hlt.trans (by decide))]
    exact hclose
  · obtain ⟨hd', rfl⟩ := encodeGolay_eq_some h
    have hword := codeword_lt hd'
    rw [bits_xor, bits_ofNat (hword.trans (by decide))] at h'
    rw [← hunique _ hword (syndrome_codeword _) h', codeword_shiftRight, ofNat_bits]

/-- A word that is not one of the code. -/
theorem decode_nearest_word : ∃ data word, decodeGolay 0x7ffffe = some data ∧
    encodeGolay data = some word ∧ weight 23 (bits (0x7ffffe ^^^ word)) ≤ 3 ∧
      ∀ data' word', encodeGolay data' = some word' →
        weight 23 (bits (0x7ffffe ^^^ word')) ≤ 3 → data' = data :=
  decodeGolay_nearest 0x7ffffe (by decide) (by decide)

/-- The decoder returns for words of 23 bits. -/
theorem isSome_decodeGolay {received : Int64} : (decodeGolay received).isSome ↔
    0 ≤ received.toInt ∧ received.toInt < 2 ^ 23 := by
  obtain ⟨t, -, hdecode, hwords⟩ := decodeGolay_spec
  rw [← bits_lt_iff (by decide), Option.isSome_iff_exists]
  refine ⟨fun ⟨data, hdata⟩ => hwords _ _ hdata, fun h => ?_⟩
  have hresult := hdecode _ h
  rw [ofNat_bits] at hresult
  exact ⟨_, hresult⟩

/-- **Higher bits are not ignored**: the decoder returns if and only if the word has 23 bits; with
one of the bits 23 to 31, and without the sign, its loops do not end. -/
theorem decodeGolay_returns (received : Int64) :
    ((decodeGolay received).isSome ↔ 0 ≤ received.toInt ∧ received.toInt < 2 ^ 23) ∧
      ∀ i, 23 ≤ i → i < 32 → 0 ≤ received.toInt → (bits received).testBit i = true →
        x11 ≤ received ∧ ∀ r, ¬ Returns syndromeRound (x22, received) r := by
  refine ⟨isSome_decodeGolay, fun i hi hi' hnonneg hbit => ?_⟩
  refine ⟨le_x11_iff.mpr ?_, not_returns_syndrome hi hi' hbit⟩
  have hle := Nat.ge_two_pow_of_testBit hbit
  have hpow : 2 ^ 23 ≤ 2 ^ i := Nat.pow_le_pow_right (by omega) hi
  have hlt := bits_lt received
  rw [toInt_eq] at hnonneg ⊢
  split_ifs at hnonneg ⊢ <;> omega

end Golay

end Klink
