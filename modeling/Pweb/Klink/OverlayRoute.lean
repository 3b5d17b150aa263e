/-
# Routes through the overlay

The nodes that `BuildTree::execute` has set up pass a message on until one of them answers
it: `Travels`.

`Routed.step` : what a node does with a message, in terms of the prefixes of the nodes.
`Routed.route` : a message is answered by the third node at the latest.
-/
import Pweb.Klink.RoutingTable
import Pweb.Klink.SetNextHop

namespace Klink

open BitPrefix BuildTree

/-! ## Networks and routes -/

/-- The nodes of a network that `execute` has built, with empty caches; each listens on an address
of its own. -/
structure IsNetwork (k : ℕ) (hAddArray : List HostAddress) (net : ℕ → Peer) : Prop where
  built : ∃ ids, idArray k hAddArray.length = some ids ∧ ∀ i < hAddArray.length,
    ids[i]? = some (net i).overlayId ∧ rtArray ids hAddArray i = some (net i).routingTable
  noCaches : ∀ i < hAddArray.length, (net i).NoCaches
  distinct : (hAddArray.map HostAddress.copied).Nodup

/-- A node that has just received its identifier and its routing table. -/
def startedPeer (ids : List OverlayId) (hAddArray : List HostAddress) (i : ℕ) : Peer where
  overlayId := ids.getD i ⟨0, 0, 0⟩
  routingTable := (rtArray ids hAddArray i).getD LookupTable.empty
  proactiveCache := LookupTable.empty
  cache := Cache.new 0
  indexTable := LookupTable.empty

/-- Every tree that `execute` builds starts a network. -/
theorem isNetwork_startedPeer {k : ℕ} {hAddArray : List HostAddress}
    (hpos : 1 ≤ hAddArray.length) (hn : hAddArray.length ≤ 2 ^ k) {ids : List OverlayId}
    (hids : idArray k hAddArray.length = some ids)
    (hdistinct : (hAddArray.map HostAddress.copied).Nodup) :
    IsNetwork k hAddArray (startedPeer ids hAddArray) := by
  refine ⟨⟨ids, hids, fun i hi => ?_⟩, fun i _ => ⟨rfl, 0, rfl⟩, hdistinct⟩
  obtain ⟨hk, hlt⟩ := lt_of_idArray hpos hn hids
  obtain rfl : nodeIds k hAddArray.length = ids :=
    Option.some_inj.mp ((idArray_eq hk hpos hn hlt).symm.trans hids)
  obtain ⟨rt, hrt, -⟩ := rtArray_spec hk hpos hn rfl ⟨i, hi⟩
  constructor
  · rw [startedPeer, List.getD_eq_getElem?_getD, getElem?_nodeIds ⟨i, hi⟩]
    rfl
  · rw [startedPeer, hrt]
    rfl

/-- A message at a node of the network, the nodes that process it one after the other, the network
afterwards, and what the last node does. -/
inductive Travels (hAddArray : List HostAddress) :
    (ℕ → Peer) → ℕ → PlexusMessage → List ℕ → (ℕ → Peer) → Action → Prop
  | ends {net : ℕ → Peer} {i : ℕ} {msg : PlexusMessage} {p : Peer} {action : Action}
      (h : processMessage (net i) msg = some (p, action)) (hne : ∀ msg', action ≠ .forward msg') :
      Travels hAddArray net i msg [i] (Function.update net i p) action
  | hop {net net' : ℕ → Peer} {i j : ℕ} {msg msg' : PlexusMessage} {p : Peer} {path : List ℕ}
      {action : Action} (h : processMessage (net i) msg = some (p, .forward msg'))
      (hj : hAddArray[j]?.map HostAddress.copied = some ⟨msg'.base.destHost, msg'.base.destPort⟩)
      (hrest : Travels hAddArray (Function.update net i p) j msg' path net' action) :
      Travels hAddArray net i msg (i :: path) net' action

/-- None of the nodes on the way of a message is asked for a name that it knows. -/
def NotKnown (hAddArray : List HostAddress) (net : ℕ → Peer) (i : ℕ) (msg : PlexusMessage) : Prop :=
  ∀ path net' action, Travels hAddArray net i msg path net' action →
    ∀ j ∈ path, (net j).knows msg = false

variable {k : ℕ} {hAddArray : List HostAddress} {net net' net₁ net₂ : ℕ → Peer} {i j c : ℕ}
  {msg msg' : PlexusMessage} {p : Peer} {entry : OverlayId × HostAddress} {path path' : List ℕ}
  {action action' : Action}

theorem eq_of_getElem?_copied (h : (hAddArray.map HostAddress.copied).Nodup) {ha : HostAddress}
    (hi : hAddArray[i]?.map HostAddress.copied = some ha)
    (hj : hAddArray[j]?.map HostAddress.copied = some ha) : i = j := by
  rw [← List.getElem?_map] at hi hj
  obtain ⟨hlt, -⟩ := List.getElem?_eq_some_iff.mp hi
  exact (List.getElem?_inj hlt h).mp (hi.trans hj.symm)

/-- **There is one route** for a message. -/
theorem Travels.unique (hdistinct : (hAddArray.map HostAddress.copied).Nodup)
    (h : Travels hAddArray net i msg path net₁ action)
    (h' : Travels hAddArray net i msg path' net₂ action') :
    path = path' ∧ net₁ = net₂ ∧ action = action' := by
  induction h generalizing path' net₂ action' with
  | ends hends hne =>
      rcases h' with ⟨hends', -⟩ | ⟨hhop, -, -⟩
      · rw [hends] at hends'
        cases hends'
        exact ⟨rfl, rfl, rfl⟩
      · rw [hends] at hhop
        cases hhop
        exact absurd rfl (hne _)
  | hop hhop hj hrest ih =>
      rcases h' with ⟨hends, hne⟩ | ⟨hhop', hj', hrest'⟩
      · rw [hhop] at hends
        cases hends
        exact absurd rfl (hne _)
      · rw [hhop] at hhop'
        cases hhop'
        obtain rfl := eq_of_getElem?_copied hdistinct hj hj'
        obtain ⟨hpath, hnet, haction⟩ := ih hrest'
        exact ⟨congrArg _ hpath, hnet, haction⟩

/-! ## Names on the way -/

/-- A node that answers is the only one of a route. -/
theorem Travels.of_answer (h : processMessage (net i) msg = some (answer (net i) msg)) :
    Travels hAddArray net i msg [i] (Function.update net i (answer (net i) msg).1)
      (answer (net i) msg).2 :=
  Travels.ends h (answer_ne_forward _ _)

/-- The message visits the nodes of the path, and the last one, `c`, answers it. -/
def Answers (hAddArray : List HostAddress) (net : ℕ → Peer) (i : ℕ) (msg : PlexusMessage)
    (path : List ℕ) (c : ℕ) : Prop :=
  path.getLast? = some c ∧
    Travels hAddArray net i msg path (Function.update net c (answer (net c) msg).1)
      (answer (net c) msg).2

theorem Answers.cons (h : Answers hAddArray net j (msg.hopTo entry) path c)
    (hnext : ∀ path net' action, Travels hAddArray net j (msg.hopTo entry) path net' action →
      Travels hAddArray net i msg (i :: path) net' action) :
    Answers hAddArray net i msg (i :: path) c := by
  obtain ⟨hlast, htravels⟩ := h
  rw [answer_hopTo] at htravels
  refine ⟨?_, hnext _ _ _ htravels⟩
  rw [List.getLast?_cons, hlast]
  rfl

theorem NotKnown.here (h : NotKnown hAddArray net i msg) : (net i).knows msg = false := by
  by_contra hknows
  have hanswer := processMessage_of_stop (p := net i) (Or.inr (Bool.not_eq_false _ ▸ hknows))
  exact hknows (h _ _ _ (Travels.of_answer hanswer) i (List.mem_singleton_self i))

theorem NotKnown.next (h : NotKnown hAddArray net i msg)
    (hnext : ∀ path net' action, Travels hAddArray net j msg' path net' action →
      Travels hAddArray net i msg (i :: path) net' action)
    (hknows : ∀ p : Peer, p.knows msg' = p.knows msg) : NotKnown hAddArray net j msg' := by
  intro path net' action htravels c hc
  rw [hknows]
  exact h _ _ _ (hnext _ _ _ htravels) c (List.mem_cons_of_mem i hc)

/-- **A name that has been stored** at the last node of a route is found there. -/
theorem Travels.found (h : Travels hAddArray net i msg path net' action)
    (hlast : path.getLast? = some c) (hbefore : c ∉ path.dropLast) (hknows : p.knows msg = true) :
    ∃ net'', Travels hAddArray (Function.update net c p) i msg path net'' (answer p msg).2 := by
  induction h with
  | @ends net i msg q action hends hne =>
      have hc : i = c := Option.some_inj.mp hlast
      subst hc
      refine ⟨_, Travels.ends (p := (answer p msg).1) ?_ (answer_ne_forward p msg)⟩
      rw [Function.update_self, processMessage_of_stop (Or.inr hknows)]
  | @hop net net' i j msg msg' q path action hhop hj hrest ih =>
      rcases path with _ | ⟨i', path⟩
      · cases hrest
      · rw [List.getLast?_cons_cons] at hlast
        rw [List.dropLast_cons_cons, List.mem_cons, not_or] at hbefore
        obtain ⟨hne, hbefore⟩ := hbefore
        obtain ⟨f, rfl⟩ := setBase_of_forward hhop
        obtain ⟨net'', hfound⟩ := ih hlast hbefore ((knows_setBase f).trans hknows)
        rw [answer_setBase, Function.update_comm (Ne.symm hne)] at hfound
        refine ⟨net'', Travels.hop ?_ hj hfound⟩
        rw [Function.update_of_ne (Ne.symm hne)]
        exact hhop

/-! ## What a node knows of the others -/

/-- The facts about a network that decide its routes. -/
structure Routed (k : ℕ) (hAddArray : List HostAddress) (net : ℕ → Peer) : Prop where
  lt : k < 32
  pos : 1 ≤ hAddArray.length
  le : hAddArray.length ≤ 2 ^ k
  overlayId : ∀ i : Fin hAddArray.length, (net i).overlayId = nodeId k hAddArray.length i
  links : ∀ i : Fin hAddArray.length,
    Links k hAddArray.length hAddArray i (net i).routingTable
  toggles : ∀ i : Fin hAddArray.length, ∀ j < (nodePrefix k hAddArray.length i).length, ∀ c ≠ i,
    (nodePrefix k hAddArray.length c).Covers k (clearLast (toggled k hAddArray.length i j)) →
      HasLink k hAddArray.length (net i).routingTable c
  noCaches : ∀ i : Fin hAddArray.length, (net i).NoCaches

theorem IsNetwork.routed (h : IsNetwork k hAddArray net) (hpos : 1 ≤ hAddArray.length)
    (hn : hAddArray.length ≤ 2 ^ k) : Routed k hAddArray net := by
  obtain ⟨ids, hids, hnodes⟩ := h.built
  obtain ⟨hk, hlt⟩ := lt_of_idArray hpos hn hids
  obtain rfl : nodeIds k hAddArray.length = ids :=
    Option.some_inj.mp ((idArray_eq hk hpos hn hlt).symm.trans hids)
  have htable : ∀ i : Fin hAddArray.length,
      Links k hAddArray.length hAddArray i (net i).routingTable ∧
      ∀ j < (nodePrefix k hAddArray.length i).length, ∀ c ≠ i,
        (nodePrefix k hAddArray.length c).Covers k (clearLast (toggled k hAddArray.length i j)) →
          HasLink k hAddArray.length (net i).routingTable c := by
    intro i
    obtain ⟨rt, hrt, hlinks⟩ := rtArray_spec hk hpos hn rfl i
    obtain rfl := Option.some_inj.mp (hrt.symm.trans (hnodes i i.isLt).2)
    exact hlinks
  refine ⟨hk, hpos, hn, fun i => ?_, fun i => (htable i).1, fun i => (htable i).2,
    fun i => h.noCaches i i.isLt⟩
  exact (Option.some_inj.mp ((getElem?_nodeIds i).symm.trans (hnodes i i.isLt).1)).symm

namespace Routed

variable {targetOid : OverlayId} {s e f : Fin hAddArray.length}

theorem partitions (h : Routed k hAddArray net) :
    Partitions k (nodePrefix k hAddArray.length) := nodePrefix_partitions h.lt h.pos h.le

theorem length_le (h : Routed k hAddArray net) (i : Fin hAddArray.length) :
    (nodePrefix k hAddArray.length i).length ≤ k := nodePrefix_length_le h.lt h.le i

/-- Of the nodes that occur in routing tables, only one matches a target in all bits but the
last. -/
theorem eq_of_best (h : Routed k hAddArray net) (ht : targetOid.maxLength = Int32.ofNat k)
    (hze : (nodePrefix k hAddArray.length e).EndsInZero k)
    (hzf : (nodePrefix k hAddArray.length f).EndsInZero k)
    (he : (nodePrefix k hAddArray.length e).Covers k targetOid.bits ∨
      (k - 1 : ℕ) ≤ targetOid.getMatchedPrefixLength (nodeId k hAddArray.length e))
    (hf : (k - 1 : ℕ) ≤ targetOid.getMatchedPrefixLength (nodeId k hAddArray.length f)) :
    e = f := by
  have hagree : ∀ j : Fin hAddArray.length,
      (k - 1 : ℕ) ≤ targetOid.getMatchedPrefixLength (nodeId k hAddArray.length j) →
      Agree k (k - 1) (nodePrefix k hAddArray.length j).bits targetOid.bits := by
    intro j hj
    rw [getMatchedPrefixLength_nodeId h.lt ht, Nat.cast_le] at hj
    exact (le_lcp_iff.mp (hj.trans (min_le_left _ _))).2
  refine h.partitions.eq_of_endsInZero hze hzf ?_ ((hagree f hf).mono (min_le_right _ _))
  rcases he with hcovers | hmatch
  · exact hcovers.mono (min_le_left _ _)
  · exact (hagree e hmatch).mono (min_le_right _ _)

/-- **The first hop** leads to a node that shares more bits with the target. -/
theorem lcp_lt_of_best (h : Routed k hAddArray net) (ht : targetOid.maxLength = Int32.ofNat k)
    (hs : ¬ (nodePrefix k hAddArray.length s).Covers k targetOid.bits)
    (hze : (nodePrefix k hAddArray.length e).EndsInZero k)
    (hbest : ∀ c, HasLink k hAddArray.length (net s).routingTable c →
      targetOid.getMatchedPrefixLength (nodeId k hAddArray.length c) ≤
        targetOid.getMatchedPrefixLength (nodeId k hAddArray.length e))
    (hf : (nodePrefix k hAddArray.length f).Covers k targetOid.bits)
    (hzf : (nodePrefix k hAddArray.length f).EndsInZero k) :
    lcp k (nodePrefix k hAddArray.length s).bits targetOid.bits <
      lcp k (nodePrefix k hAddArray.length e).bits targetOid.bits := by
  have hpart := h.partitions
  have hmatch := getMatchedPrefixLength_nodeId (n := hAddArray.length) h.lt ht
  have hlength := h.length_le s
  have hsf : s ≠ f := by
    rintro rfl
    exact hs hf
  have hmoref := hpart.lcp_lt (h.length_le f) hf hsf.symm
  have hshort : lcp k (nodePrefix k hAddArray.length s).bits targetOid.bits <
      (nodePrefix k hAddArray.length s).length := by
    by_contra hge
    exact hs (le_lcp_iff.mp (not_lt.mp hge)).2
  -- the neighbour of `s` over the first bit in which its identifier differs from the target
  have htoggle := agree_toggle (hshort.trans_le hlength)
  have hneighbour := h.toggles s _ hshort
  rw [toggled] at hneighbour
  generalize hl : lcp k (nodePrefix k hAddArray.length s).bits targetOid.bits = l at *
  generalize (nodePrefix k hAddArray.length s).bits ^^^ 2 ^ (k - l - 1) = y at *
  rcases Nat.lt_or_ge (l + 1) k with hlt | hge
  · obtain ⟨c, hc, -⟩ := hpart (clearLast y)
    have hagree : Agree k (l + 1) (clearLast y) targetOid.bits :=
      ((agree_clearLast k y).mono (by omega)).trans htoggle
    have hmore := hpart.lcp_lt_of_toggle hlength hs (hl ▸ hagree) hc
    rw [hl] at hmore
    have hcs : c ≠ s := by
      rintro rfl
      omega
    have hle := hbest c (hneighbour c hcs hc)
    rw [hmatch, hmatch, Nat.cast_le] at hle
    omega
  · -- the target differs in the last bit only: `f` itself is the neighbour, and the best one
    have hagree : Agree k (nodePrefix k hAddArray.length f).length (clearLast targetOid.bits)
        (clearLast y) := by
      have hfirst := (agree_clearLast k targetOid.bits).trans
        ((htoggle.symm.mono (by omega)).trans (agree_clearLast k y).symm)
      apply hfirst.of_last
      rw [testBit_zero_clearLast, testBit_zero_clearLast]
    have hclear := hzf.covers_clearLast (hf.mono (min_le_left _ (k - 1)))
    have hle := hbest f (hneighbour f hsf.symm (hclear.trans hagree))
    have hmany : (k - 1 : ℕ) ≤ targetOid.getMatchedPrefixLength (nodeId k hAddArray.length e) := by
      refine le_trans ?_ hle
      rw [hmatch, Nat.cast_le]
      omega
    obtain rfl := h.eq_of_best ht hzf hze (Or.inl hf) hmany
    exact hmoref

/-- **A step** of a message: the node answers it, if none of its entries is good enough, or it
continues its way at the first of the best entries. -/
theorem step (h : Routed k hAddArray net) (s : Fin hAddArray.length)
    (httl : msg.base.overlayTtl ≠ 1) (hknows : (net s).knows msg = false) :
    (Travels hAddArray net s msg [(s : ℕ)] (Function.update net s (answer (net s) msg).1)
        (answer (net s) msg).2 ∧
      ∀ e ∈ (net s).routingTable.table,
        msg.targetOid.getMatchedPrefixLength e.1 < required (net s) msg) ∨
    ∃ (e : Fin hAddArray.length) (ha : HostAddress), e ≠ s ∧
      (nodePrefix k hAddArray.length e).EndsInZero k ∧
      FirstBest msg.targetOid (net s).routingTable (nodeId k hAddArray.length e, ha) ∧
      required (net s) msg ≤
        msg.targetOid.getMatchedPrefixLength (nodeId k hAddArray.length e) ∧
      ∀ path net' action,
        Travels hAddArray net e (msg.hopTo (nodeId k hAddArray.length e, ha)) path net' action →
          Travels hAddArray net s msg (s :: path) net' action := by
  rcases processMessage_cases (h.noCaches s) httl hknows with ⟨hanswer, hnone⟩ |
    ⟨⟨oid, ha⟩, hbest, hle, hforward⟩
  · exact Or.inl ⟨Travels.of_answer hanswer, hnone⟩
  · right
    obtain ⟨e, hne, hoid, haddress, hzero⟩ := h.links s _ hbest.mem
    dsimp only at hoid haddress
    subst hoid
    refine ⟨e, ha, hne, hzero, hbest, hle, fun path net' action hrest => ?_⟩
    refine Travels.hop (j := e) hforward ?_ ?_
    · rw [haddress, base_hopTo]
      rfl
    · rwa [Function.update_eq_self]

/-- What a message that has arrived at an entry of a routing table requires of the next hop. -/
theorem required_hopTo (h : Routed k hAddArray net) (e : Fin hAddArray.length) (ha : HostAddress)
    (msg : PlexusMessage) :
    required (net e) (msg.hopTo (nodeId k hAddArray.length e, ha)) = max 1 ((k - 1 : ℕ) : ℤ) := by
  have hself : lcp k (nodeId k hAddArray.length e).bits (nodeId k hAddArray.length e).bits = k :=
    le_antisymm (lcp_le _ _ _) (le_lcp_iff.mpr ⟨le_rfl, Agree.refl _ _ _⟩)
  rw [required, base_hopTo, h.overlayId]
  dsimp only
  rw [OverlayId.getMatchedPrefixLength_eq rfl h.lt, hself, Nat.min_eq_right (Nat.sub_le k 1)]

/-- **The route** of a message ends at the third node at the latest. -/
theorem route (h : Routed k hAddArray net) (s : Fin hAddArray.length)
    (ht : msg.targetOid.maxLength = Int32.ofNat k) (httl : 3 ≤ msg.base.overlayTtl.toNat)
    (hnot : NotKnown hAddArray net s msg) :
    (Answers hAddArray net s msg [(s : ℕ)] s ∧ ∀ e ∈ (net s).routingTable.table,
        msg.targetOid.getMatchedPrefixLength e.1 < required (net s) msg) ∨
    ∃ (e : Fin hAddArray.length) (ha : HostAddress), e ≠ s ∧
      (nodePrefix k hAddArray.length e).EndsInZero k ∧
      FirstBest msg.targetOid (net s).routingTable (nodeId k hAddArray.length e, ha) ∧
      required (net s) msg ≤
        msg.targetOid.getMatchedPrefixLength (nodeId k hAddArray.length e) ∧
      ((Answers hAddArray net s msg [(s : ℕ), (e : ℕ)] e ∧ ∀ f ∈ (net e).routingTable.table,
          msg.targetOid.getMatchedPrefixLength f.1 < max 1 ((k - 1 : ℕ) : ℤ)) ∨
        ∃ (f : Fin hAddArray.length) (ha' : HostAddress), f ≠ e ∧
          (nodePrefix k hAddArray.length f).EndsInZero k ∧
          (nodeId k hAddArray.length f, ha') ∈ (net e).routingTable.table ∧
          max 1 ((k - 1 : ℕ) : ℤ) ≤
            msg.targetOid.getMatchedPrefixLength (nodeId k hAddArray.length f) ∧
          Answers hAddArray net s msg [(s : ℕ), (e : ℕ), (f : ℕ)] f) := by
  have httl₁ : msg.base.overlayTtl ≠ 1 := by
    intro hone
    rw [hone] at httl
    exact absurd httl (by decide)
  have httl₂ : ∀ entry, (msg.hopTo entry).base.overlayTtl ≠ 1 := by
    intro entry hone
    rw [base_hopTo] at hone
    have hval := congrArg UInt8.toNat (sub_eq_iff_eq_add.mp hone)
    rw [hval] at httl
    exact absurd httl (by decide)
  rcases h.step s httl₁ hnot.here with ⟨htravels, hnone⟩ | ⟨e, ha, hne, hze, hbest, hle, hnext⟩
  · exact Or.inl ⟨⟨rfl, htravels⟩, hnone⟩
  right
  refine ⟨e, ha, hne, hze, hbest, hle, ?_⟩
  have hnot' := hnot.next hnext fun p => knows_hopTo
  rcases h.step e (httl₂ _) hnot'.here with ⟨htravels, hnone⟩ |
    ⟨f, ha', hne', hzf, hbest', hle', hnext'⟩
  · left
    rw [h.required_hopTo, targetOid_hopTo] at hnone
    exact ⟨Answers.cons ⟨rfl, htravels⟩ hnext, hnone⟩
  right
  rw [h.required_hopTo, targetOid_hopTo] at hle'
  rw [targetOid_hopTo] at hbest'
  refine ⟨f, ha', hne', hzf, hbest'.mem, hle', ?_⟩
  have hnot'' := hnot'.next hnext' fun p => knows_hopTo
  apply Answers.cons (Answers.cons ⟨rfl, ?_⟩ hnext') hnext
  -- the third node knows no better one
  rcases em (((msg.hopTo (nodeId k hAddArray.length e, ha)).hopTo
    (nodeId k hAddArray.length f, ha')).base.overlayTtl = 1) with httl₃ | httl₃
  · exact Travels.of_answer (processMessage_of_stop (Or.inl httl₃))
  · rcases h.step f httl₃ hnot''.here with ⟨htravels, -⟩ | ⟨g, ha'', hne'', hzg, -, hle'', -⟩
    · exact htravels
    · rw [h.required_hopTo, targetOid_hopTo, targetOid_hopTo] at hle''
      exact absurd (h.eq_of_best ht hzg hzf (Or.inr ((le_max_right _ _).trans hle''))
        ((le_max_right _ _).trans hle')) hne''

end Routed

end Klink
