/-
# Routing tables (`monitor/tree/BuildTree.h`)

For every bit of a node's prefix, and for all of them together, `BuildTree::execute` looks
for the node whose identifier matches best once the bit is toggled, and enters it in the
routing table of the first node.

`getIndexOfLongestMatchedPrefix_eq` : the best match of an identifier is the node that
covers it after its last bit has been cleared.

`rtArray_spec` : the entries of a routing table.
-/
import Pweb.Foundation.FirstMaximum
import Pweb.Klink.IdPartition
import Pweb.Klink.LookupTable
import Pweb.Klink.OverlayId

namespace Klink

open BitPrefix FirstMaximum

namespace BuildTree

/-! ## Building the tables -/

/-- `GetIndexOfLongestMatchedPrefix`. -/
def getIndexOfLongestMatchedPrefix (ids : List OverlayId) (id : OverlayId) : ℕ :=
  (ids.zipIdx.foldl (improve (fun e => id.getMatchedPrefixLength e.1) Prod.snd) (0, 0)).2

/-- `hosts`, after the loop that numbers the nodes. -/
def hosts (ids : List OverlayId) (hAddArray : List HostAddress) :
    LookupTable OverlayId HostAddress :=
  (ids.zip hAddArray).foldl (fun hosts e => hosts.add e.1 e.2) LookupTable.empty

/-- The node that a pattern leads to is added to the routing table of the node `oid`. -/
def addNbr (ids : List OverlayId) (hosts : LookupTable OverlayId HostAddress)
    (oid pattern : OverlayId) (rt : LookupTable OverlayId HostAddress) : Option (LookupTable OverlayId HostAddress) := do
  let nbr ← ids[getIndexOfLongestMatchedPrefix ids pattern]?
  if nbr.equals oid then return rt
  else return rt.add nbr ((hosts.lookup nbr).getD ⟨[], -1⟩)

/-- `replica` and the routing table after some rounds of the loop over the bits of the prefix. -/
def nbrLoop (ids : List OverlayId) (hosts : LookupTable OverlayId HostAddress) (oid : OverlayId) :
    ℕ → Option (OverlayId × LookupTable OverlayId HostAddress)
  | 0 => some (oid, LookupTable.empty)
  | j + 1 => do
    let (replica, rt) ← nbrLoop ids hosts oid j
    let position := (oid.maxLength.toInt - j - 1).toNat
    let nbrPattern := oid.toggleBitAtPosition position
    let replica := replica.toggleBitAtPosition position
    let rt ← addNbr ids hosts oid nbrPattern rt
    return (replica, rt)

/-- `rtArray[i]` as `execute` fills it. -/
def rtArray (ids : List OverlayId) (hAddArray : List HostAddress) (i : ℕ) :
    Option (LookupTable OverlayId HostAddress) := do
  let oid ← ids[i]?
  let hosts := hosts ids hAddArray
  let (replica, rt) ← nbrLoop ids hosts oid oid.prefixLength.toInt.toNat
  addNbr ids hosts oid replica rt

/-! ## The best match -/

variable {k n : ℕ}

/-- The identifiers of the nodes. -/
def nodeIds (k n : ℕ) : List OverlayId := (List.range n).map (nodeId k n)

/-- The prefix of a node. -/
def nodePrefix (k n : ℕ) (i : Fin n) : BitPrefix := (nodeId k n i).toPrefix

theorem nodePrefix_partitions (hk : k < 32) (hpos : 1 ≤ n) (hn : n ≤ 2 ^ k) :
    Partitions k (nodePrefix k n) := by
  apply partitions_of_lt
  intro x hx
  obtain ⟨i, ⟨hi, hcover⟩, huniq⟩ := nodes_partition hk hpos hn hx
  exact ⟨⟨i, hi⟩, hcover, fun j hj => Fin.ext (huniq j ⟨j.isLt, hj⟩)⟩

theorem nodePrefix_length_le (hk : k < 32) (hn : n ≤ 2 ^ k) (i : Fin n) :
    (nodePrefix k n i).length ≤ k := by
  rw [nodePrefix, nodeId_length hk i.isLt hn]
  exact (place_lt i.isLt).2.trans (height_le hn)

/-- A node whose prefix is a whole identifier has its index for an identifier. -/
theorem bits_of_length_eq (hk : k < 32) (hn : n ≤ 2 ^ k) {i : Fin n}
    (h : (nodePrefix k n i).length = k) : (nodePrefix k n i).bits = i := by
  have hheight := height_le hn
  rw [nodePrefix, nodeId_length hk i.isLt hn] at h
  show (nodeId k n i).bits = i
  rw [nodeId_bits hk i.isLt hn, h, Nat.sub_self, pow_zero, mul_one]
  rw [place] at h ⊢
  split_ifs at h ⊢ with hlow
  · rfl
  · -- only a tree of a single node has no level above the lowest
    obtain ⟨-, ⟨rfl, hh, hlowest⟩ | ⟨l, hh, -⟩⟩ := height_cases (n := n) (by omega)
    · omega
    · dsimp only at h
      omega

/-- How well a node matches an identifier. -/
theorem getMatchedPrefixLength_nodeId (hk : k < 32) {q : OverlayId}
    (hq : q.maxLength = Int32.ofNat k) (i : Fin n) : q.getMatchedPrefixLength (nodeId k n i) =
      (min (lcp k (nodePrefix k n i).bits q.bits) (k - 1) : ℕ) := by
  rw [OverlayId.getMatchedPrefixLength_eq hq hk, lcp_comm]
  rfl

/-- The node that covers an identifier whose last bit is cleared matches it best, and better
than all nodes before it. -/
theorem covers_clearLast_best (hk : k < 32) (hpos : 1 ≤ n) (hn : n ≤ 2 ^ k) {q : OverlayId}
    (hq : q.maxLength = Int32.ofNat k) {c : Fin n}
    (hc : (nodePrefix k n c).Covers k (clearLast q.bits)) (j : Fin n) :
    q.getMatchedPrefixLength (nodeId k n j) ≤ q.getMatchedPrefixLength (nodeId k n c) ∧
      (j < c → q.getMatchedPrefixLength (nodeId k n j) <
        q.getMatchedPrefixLength (nodeId k n c)) := by
  have hpart := nodePrefix_partitions hk hpos hn
  have hlength := nodePrefix_length_le hk hn
  rcases eq_or_ne c j with rfl | hne
  · exact ⟨le_rfl, fun h => absurd h (lt_irrefl _)⟩
  have hother := hpart.lcp_lt_length hc hne
  have hself := le_lcp_iff.mpr ⟨hlength c, hc⟩
  have hclear := agree_clearLast k q.bits
  rw [getMatchedPrefixLength_nodeId hk hq, getMatchedPrefixLength_nodeId hk hq,
    ← min_lcp_congr hclear, ← min_lcp_congr hclear, Nat.cast_le, Nat.cast_lt]
  refine ⟨by omega, fun hlt => ?_⟩
  rcases Nat.lt_or_ge (nodePrefix k n c).length k with hshort | hlong
  · omega
  · -- both prefixes are whole identifiers, that of `c` ends in zero
    by_contra hge
    have hkpos : 0 < k := by
      rcases Nat.eq_zero_or_pos k with rfl | hkpos
      · omega
      · exact hkpos
    have hmany : k - 1 ≤ lcp k (nodePrefix k n j).bits (clearLast q.bits) := by omega
    have hagree := (le_lcp_iff.mp hmany).2
    have hj : (nodePrefix k n j).length = k := by
      by_contra hshort
      have hle := hlength j
      have hcovers : (nodePrefix k n j).Covers k (clearLast q.bits) := hagree.mono (by omega)
      exact hne (hpart.eq_of_covers hc hcovers)
    have hcj := (hc.mono (by omega)).trans hagree.symm
    have hzero : (nodePrefix k n c).bits.testBit 0 = false :=
      (hc 0 (by omega) (by omega)).trans (testBit_zero_clearLast _)
    rw [bits_of_length_eq hk hn (le_antisymm (hlength c) hlong)] at hcj hzero
    rw [bits_of_length_eq hk hn hj, agree_iff_div (by omega) (by omega) (by omega),
      show k - (k - 1) = 1 by omega, pow_one] at hcj
    rw [Nat.testBit_zero, decide_eq_false_iff_not] at hzero
    omega

theorem zipIdx_nodeIds (k n : ℕ) :
    (nodeIds k n).zipIdx = (List.range n).map fun i => (nodeId k n i, i) := by
  apply List.ext_getElem
  · simp [nodeIds]
  · intro i h h'
    simp [nodeIds]

/-- **The best match** of an identifier is the node that covers it once its last bit has been
cleared. -/
theorem getIndexOfLongestMatchedPrefix_eq (hk : k < 32) (hpos : 1 ≤ n) (hn : n ≤ 2 ^ k)
    {q : OverlayId} (hq : q.maxLength = Int32.ofNat k) {c : Fin n}
    (hc : (nodePrefix k n c).Covers k (clearLast q.bits)) :
    getIndexOfLongestMatchedPrefix (nodeIds k n) q = c := by
  have hbest := covers_clearLast_best hk hpos hn hq hc
  have hmem : ∀ e ∈ (nodeIds k n).zipIdx, ∃ j : Fin n, e = (nodeId k n j, (j : ℕ)) := by
    intro e he
    rw [zipIdx_nodeIds, List.mem_map] at he
    obtain ⟨j, hj, rfl⟩ := he
    exact ⟨⟨j, List.mem_range.mp hj⟩, rfl⟩
  have hsorted : (nodeIds k n).zipIdx.Pairwise fun e f => e.2 < f.2 := by
    rw [zipIdx_nodeIds, List.pairwise_map]
    exact List.pairwise_lt_range
  have hentry : ∀ j : Fin n, (nodeId k n j, (j : ℕ)) ∈ (nodeIds k n).zipIdx := by
    intro j
    rw [zipIdx_nodeIds, List.mem_map]
    exact ⟨j, List.mem_range.mpr j.isLt, rfl⟩
  rw [getIndexOfLongestMatchedPrefix]
  rcases foldl_improve (fun e => q.getMatchedPrefixLength e.1) Prod.snd (nodeIds k n).zipIdx (0, 0)
    with ⟨heq, hnone⟩ | ⟨x, himproves, heq⟩
  · -- nothing matches, so no node comes before the best one
    rw [heq]
    by_contra hne
    have hlt : 0 < (c : ℕ) := Nat.pos_of_ne_zero (Ne.symm hne)
    have hfirst := (hbest ⟨0, by omega⟩).2 hlt
    have hle := hnone _ (hentry c)
    dsimp only at hle
    rw [getMatchedPrefixLength_nodeId hk hq] at hfirst
    omega
  · rw [heq]
    refine himproves.rank_eq hsorted (hentry c) ?_ ?_
    · intro e he
      obtain ⟨j, rfl⟩ := hmem e he
      exact (hbest j).1
    · intro e he hlt
      obtain ⟨j, rfl⟩ := hmem e he
      exact (hbest j).2 hlt

/-! ## The entries -/

section Entries

variable {hAddArray : List HostAddress} {i c : Fin n} {q : OverlayId}
  {rt : LookupTable OverlayId HostAddress}

theorem rank_nodeId_inj (hk : k < 32) (hpos : 1 ≤ n) (hn : n ≤ 2 ^ k) {i j : Fin n}
    (h : MapKey.rank (nodeId k n i) = MapKey.rank (nodeId k n j)) : i = j := by
  apply (nodePrefix_partitions hk hpos hn).bits_injective
  show (nodeId k n i).overlayId.toBitVec.toNat = (nodeId k n j).overlayId.toBitVec.toNat
  rw [Int64.toInt_inj.mp h]

theorem equals_nodeId (hk : k < 32) (hpos : 1 ≤ n) (hn : n ≤ 2 ^ k) {i j : Fin n} :
    (nodeId k n i).equals (nodeId k n j) = true ↔ i = j := by
  constructor
  · intro h
    have hboth := of_decide_eq_true h
    exact rank_nodeId_inj hk hpos hn (congrArg Int64.toInt hboth.2)
  · rintro rfl
    exact decide_eq_true ⟨rfl, rfl⟩

theorem getElem?_nodeIds (i : Fin n) : (nodeIds k n)[(i : ℕ)]? = some (nodeId k n i) := by
  simp [nodeIds]

theorem exists_address (hlen : hAddArray.length = n) (j : Fin n) :
    ∃ ha, hAddArray[(j : ℕ)]? = some ha :=
  ⟨_, List.getElem?_eq_getElem (show (j : ℕ) < hAddArray.length by omega)⟩

/-- The address of a node is found under its identifier. -/
theorem lookup_hosts (hk : k < 32) (hpos : 1 ≤ n) (hn : n ≤ 2 ^ k) (hlen : hAddArray.length = n)
    (j : Fin n) :
    (hosts (nodeIds k n) hAddArray).lookup (nodeId k n j) = hAddArray[(j : ℕ)]? := by
  obtain ⟨ha, hget⟩ := exists_address hlen j
  have hlength : (nodeIds k n).length = hAddArray.length := by simp [nodeIds, hlen]
  rw [hget]
  apply LookupTable.lookup_foldl_add (e := (nodeId k n j, ha))
  · have hids : (nodeIds k n).Pairwise fun a b => MapKey.rank a ≠ MapKey.rank b := by
      rw [nodeIds, List.pairwise_map]
      apply List.nodup_range.pairwise_of_forall_ne
      intro a ha b hb hne heq
      have hfin : (⟨a, List.mem_range.mp ha⟩ : Fin n) = ⟨b, List.mem_range.mp hb⟩ :=
        rank_nodeId_inj hk hpos hn heq
      exact hne (Fin.mk.inj hfin)
    rwa [← List.map_fst_zip hlength.le, List.pairwise_map] at hids
  · intro e _
    exact LookupTable.lookup_empty
  · exact List.mem_iff_getElem?.mpr ⟨j, List.getElem?_zip_eq_some.mpr ⟨getElem?_nodeIds j, hget⟩⟩

/-- A routing table of the node `i`: the entries are other nodes with their addresses, each of
them responsible for an identifier that ends in zero. -/
def Links (k n : ℕ) (hAddArray : List HostAddress) (i : Fin n)
    (rt : LookupTable OverlayId HostAddress) : Prop :=
  ∀ e ∈ rt.table, ∃ j : Fin n, j ≠ i ∧ e.1 = nodeId k n j ∧ hAddArray[(j : ℕ)]? = some e.2 ∧
    (nodePrefix k n j).EndsInZero k

/-- A node is among the entries. -/
def HasLink (k n : ℕ) (rt : LookupTable OverlayId HostAddress) (j : Fin n) : Prop :=
  ∃ ha, (nodeId k n j, ha) ∈ rt.table

/-- **Adding a neighbour**: the node that covers the pattern, its last bit cleared. -/
theorem addNbr_spec (hk : k < 32) (hpos : 1 ≤ n) (hn : n ≤ 2 ^ k) (hlen : hAddArray.length = n)
    (h : Links k n hAddArray i rt) (hq : q.maxLength = Int32.ofNat k) :
    ∃ rt', addNbr (nodeIds k n) (hosts (nodeIds k n) hAddArray) (nodeId k n i) q rt = some rt' ∧
      Links k n hAddArray i rt' ∧ (∀ j, HasLink k n rt j → HasLink k n rt' j) ∧
      ∀ c ≠ i, (nodePrefix k n c).Covers k (clearLast q.bits) → HasLink k n rt' c := by
  have hpart := nodePrefix_partitions hk hpos hn
  obtain ⟨c, hc, huniq⟩ := hpart (clearLast q.bits)
  obtain ⟨ha, hget⟩ := exists_address hlen c
  rw [addNbr, getIndexOfLongestMatchedPrefix_eq hk hpos hn hq hc, getElem?_nodeIds,
    Option.bind_eq_bind, Option.bind_some, lookup_hosts hk hpos hn hlen, hget, Option.getD_some]
  by_cases hci : c = i
  · rw [if_pos ((equals_nodeId hk hpos hn).mpr hci)]
    refine ⟨rt, rfl, h, fun j hj => hj, fun c' hne hc' => ?_⟩
    exact absurd ((huniq c' hc').trans hci) hne
  · rw [if_neg (mt (equals_nodeId hk hpos hn).mp hci)]
    refine ⟨_, rfl, ?_, ?_, ?_⟩
    · intro e he
      rcases LookupTable.mem_table_add.mp he with he | ⟨-, rfl⟩
      · exact h e he
      · exact ⟨c, hci, rfl, hget, _, hc⟩
    · rintro j ⟨ha, hj⟩
      exact ⟨ha, LookupTable.mem_table_add.mpr (Or.inl hj)⟩
    · intro c' _ hc'
      obtain rfl := huniq c' hc'
      rcases hlookup : rt.lookup (nodeId k n c') with _ | ha
      · exact ⟨_, LookupTable.mem_table_add.mpr (Or.inr ⟨hlookup, rfl⟩)⟩
      · -- an entry with this key belongs to the same node
        obtain ⟨key, hrank, he⟩ := LookupTable.exists_of_lookup hlookup
        obtain ⟨j, -, hkey, -⟩ := h _ he
        dsimp only at hkey
        rw [hkey] at hrank he
        rw [rank_nodeId_inj hk hpos hn hrank] at he
        exact ⟨ha, LookupTable.mem_table_add.mpr (Or.inl he)⟩

/-- The identifier of the node with a bit of its prefix toggled. -/
def toggled (k n : ℕ) (i : Fin n) (j : ℕ) : ℕ := (nodePrefix k n i).bits ^^^ 2 ^ (k - j - 1)

/-- The tables in the loop: the neighbours over the bits so far have been entered. -/
theorem nbrLoop_spec (hk : k < 32) (hpos : 1 ≤ n) (hn : n ≤ 2 ^ k) (hlen : hAddArray.length = n)
    (i : Fin n) {rounds : ℕ} (hle : rounds ≤ k) : ∃ replica rt,
    nbrLoop (nodeIds k n) (hosts (nodeIds k n) hAddArray) (nodeId k n i) rounds
        = some (replica, rt) ∧
      replica.maxLength = Int32.ofNat k ∧ Links k n hAddArray i rt ∧
      ∀ j < rounds, ∀ c ≠ i, (nodePrefix k n c).Covers k (clearLast (toggled k n i j)) →
        HasLink k n rt c := by
  have hmax : (nodeId k n i).maxLength.toInt = (k : ℤ) := Int32.toInt_ofNat_of_lt (by omega)
  induction rounds with
  | zero =>
      refine ⟨_, _, rfl, rfl, ?_, fun j hj => absurd hj (Nat.not_lt_zero j)⟩
      intro e he
      cases he
  | succ rounds ih =>
      obtain ⟨replica, rt, hloop, hreplica, hlinks, hhas⟩ := ih (by omega)
      have hposition : ((nodeId k n i).maxLength.toInt - rounds - 1).toNat = k - rounds - 1 := by
        omega
      obtain ⟨rt', hadd, hlinks', hkeep, hnew⟩ := addNbr_spec hk hpos hn hlen hlinks
        (q := (nodeId k n i).toggleBitAtPosition (k - rounds - 1)) rfl
      refine ⟨replica.toggleBitAtPosition (k - rounds - 1), rt', ?_, hreplica, hlinks', ?_⟩
      · rw [nbrLoop, hloop, Option.bind_eq_bind, Option.bind_some]
        dsimp only
        rw [hposition, hadd]
        rfl
      · intro j hj c hne hc
        rcases Nat.eq_or_lt_of_le (Nat.le_of_lt_succ hj) with rfl | hlt
        · apply hnew c hne
          rw [OverlayId.bits_toggleBitAtPosition (by omega)]
          exact hc
        · exact hkeep c (hhas j hlt c hne hc)

/-- **The routing table of a node** leads to other nodes, among them those that cover its
identifier with a bit of its prefix toggled and the last bit cleared. -/
theorem rtArray_spec (hk : k < 32) (hpos : 1 ≤ n) (hn : n ≤ 2 ^ k) (hlen : hAddArray.length = n)
    (i : Fin n) : ∃ rt, rtArray (nodeIds k n) hAddArray i = some rt ∧
      Links k n hAddArray i rt ∧ ∀ j < (nodePrefix k n i).length, ∀ c ≠ i,
        (nodePrefix k n c).Covers k (clearLast (toggled k n i j)) → HasLink k n rt c := by
  have hle := nodePrefix_length_le hk hn i
  obtain ⟨replica, rt, hloop, hreplica, hlinks, hhas⟩ := nbrLoop_spec hk hpos hn hlen i hle
  obtain ⟨rt', hadd, hlinks', hkeep, -⟩ := addNbr_spec hk hpos hn hlen hlinks hreplica
  refine ⟨rt', ?_, hlinks', fun j hj c hne hc => hkeep c (hhas j hj c hne hc)⟩
  rw [rtArray, getElem?_nodeIds]
  exact (congrArg (fun r => r >>= _) hloop).trans hadd

end Entries

end BuildTree

end Klink
