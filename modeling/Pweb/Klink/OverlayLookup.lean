/-
# Lookups in the overlay

A message is to be passed on to nodes that share more and more leading bits with its
target, until the node that is responsible for the target answers it.  `setNextHop`
compares the best entry not with what the node itself shares with the target, but with
what it shares with the identifier that the message carries as its destination, which a
new message has not set.  So a message may stop too early, or leave the responsible node.

`overlay_lookup_iff` : a registration and a lookup of the same name both reach the
responsible node, and the lookup finds the name, exactly if both messages arrive.
-/
import Pweb.Klink.OverlayRoute

namespace Klink

open BitPrefix BuildTree

/-! ## Reaching the responsible node -/

/-- The number of leading bits that a node shares with the target. -/
def shared (k : ℕ) (net : ℕ → Peer) (targetOid : OverlayId) (i : ℕ) : ℕ :=
  lcp k (net i).overlayId.bits targetOid.bits

/-- The target starts with the prefix of the identifier. -/
def IsResponsible (k : ℕ) (oid targetOid : OverlayId) : Prop :=
  oid.toPrefix.Covers k targetOid.bits

instance (k : ℕ) (oid targetOid : OverlayId) : Decidable (IsResponsible k oid targetOid) :=
  inferInstanceAs (Decidable (oid.toPrefix.Covers k targetOid.bits))

/-- The route of the message ends, each hop leads to a node that shares more bits with the target,
and the last node is the one whose prefix covers the target. -/
def Reaches (k : ℕ) (hAddArray : List HostAddress) (net : ℕ → Peer) (i : ℕ) (msg : PlexusMessage) :
    Prop :=
  ∃ path net' action c, Travels hAddArray net i msg path net' action ∧
    path.IsChain (fun a b => shared k net msg.targetOid a < shared k net msg.targetOid b) ∧
    path.getLast? = some c ∧ IsResponsible k (net c).overlayId msg.targetOid

/-- What the overlay promises for a registration at one node and a lookup at another. -/
structure LookupWorks (k : ℕ) (hAddArray : List HostAddress) (net : ℕ → Peer) (i : ℕ)
    (putMsg : MessagePUT) (j : ℕ) (getMsg : MessageGET) : Prop where
  put_reaches : Reaches k hAddArray net i (.put putMsg)
  get_reaches : Reaches k hAddArray net j (.get getMsg)
  found : ∀ path net₁ action, Travels hAddArray net i (.put putMsg) path net₁ action →
    ∃ path' net₂, Travels hAddArray net₁ j (.get getMsg) path' net₂
      (.getReply success putMsg.hostAddress getMsg.deviceName)

/-- The condition for a message to reach the responsible node.  Either that is the first node, and
no entry of its routing table matches the target as well as required.  Or the first of its best
entries does, and is the responsible node, or has an entry for it that matches the target in all
bits but the last. -/
def Arrives (k n : ℕ) (net : ℕ → Peer) (i : ℕ) (msg : PlexusMessage) : Prop :=
  (IsResponsible k (net i).overlayId msg.targetOid ∧ ∀ e ∈ (net i).routingTable.table,
    msg.targetOid.getMatchedPrefixLength e.1 < required (net i) msg) ∨
  (¬ IsResponsible k (net i).overlayId msg.targetOid ∧
    ∃ e, FirstBest msg.targetOid (net i).routingTable e ∧
      required (net i) msg ≤ msg.targetOid.getMatchedPrefixLength e.1 ∧
      (IsResponsible k e.1 msg.targetOid ∨
        ∃ j < n, (net j).overlayId = e.1 ∧ ∃ f ∈ (net j).routingTable.table,
          IsResponsible k f.1 msg.targetOid ∧
          (k - 1 : ℕ) ≤ msg.targetOid.getMatchedPrefixLength f.1))

variable {k : ℕ} {hAddArray : List HostAddress} {net : ℕ → Peer} {i j c : ℕ}
  {msg : PlexusMessage} {path : List ℕ}

/-- Whether a message reaches the responsible node can be read off its route. -/
theorem reaches_iff_of_answers (hdistinct : (hAddArray.map HostAddress.copied).Nodup)
    (h : Answers hAddArray net i msg path c) : Reaches k hAddArray net i msg ↔
      path.IsChain (fun a b => shared k net msg.targetOid a < shared k net msg.targetOid b) ∧
      IsResponsible k (net c).overlayId msg.targetOid := by
  obtain ⟨hlast, htravels⟩ := h
  constructor
  · rintro ⟨path', net', action, c', htravels', hchain, hlast', hresponsible⟩
    obtain ⟨rfl, -, -⟩ := htravels.unique hdistinct htravels'
    obtain rfl := Option.some_inj.mp (hlast.symm.trans hlast')
    exact ⟨hchain, hresponsible⟩
  · rintro ⟨hchain, hresponsible⟩
    exact ⟨path, _, _, c, htravels, hchain, hlast, hresponsible⟩

section Routed

variable (h : Routed k hAddArray net) {s e : Fin hAddArray.length} {ha : HostAddress}
include h

theorem isResponsible_iff (targetOid : OverlayId) (i : Fin hAddArray.length) :
    IsResponsible k (net i).overlayId targetOid ↔
      (nodePrefix k hAddArray.length i).Covers k targetOid.bits := by
  rw [h.overlayId]
  rfl

theorem shared_eq (targetOid : OverlayId) (i : Fin hAddArray.length) :
    shared k net targetOid i = lcp k (nodePrefix k hAddArray.length i).bits targetOid.bits := by
  rw [shared, h.overlayId]
  rfl

/-- A node that covers the target shares more bits with it than any other. -/
theorem shared_lt {targetOid : OverlayId} {a b : Fin hAddArray.length} (hne : a ≠ b)
    (ha : IsResponsible k (net a).overlayId targetOid) :
    shared k net targetOid b < shared k net targetOid a := by
  rw [shared_eq h, shared_eq h]
  exact h.partitions.lcp_lt (h.length_le a) ((isResponsible_iff h targetOid a).mp ha) hne

/-- The condition for a message that is forwarded. -/
theorem arrives_iff_of_best
    (hbest : FirstBest msg.targetOid (net s).routingTable (nodeId k hAddArray.length e, ha))
    (hle : required (net s) msg ≤
      msg.targetOid.getMatchedPrefixLength (nodeId k hAddArray.length e)) :
    Arrives k hAddArray.length net s msg ↔ ¬ IsResponsible k (net s).overlayId msg.targetOid ∧
      (IsResponsible k (net e).overlayId msg.targetOid ∨
        ∃ f ∈ (net e).routingTable.table, IsResponsible k f.1 msg.targetOid ∧
          (k - 1 : ℕ) ≤ msg.targetOid.getMatchedPrefixLength f.1) := by
  have hoid := h.overlayId e
  constructor
  · rintro (⟨-, hnone⟩ | ⟨hs, e', hbest', -, harrives⟩)
    · exact absurd (hnone _ hbest.mem) hle.not_gt
    · obtain rfl := hbest.unique hbest'
      refine ⟨hs, ?_⟩
      rcases harrives with hresponsible | ⟨j, hj, hoid', hf⟩
      · rw [hoid]
        exact Or.inl hresponsible
      · -- the node with the identifier of `e` is `e`
        rw [h.overlayId ⟨j, hj⟩] at hoid'
        obtain rfl := rank_nodeId_inj h.lt h.pos h.le (congrArg MapKey.rank hoid')
        exact Or.inr hf
  · rintro ⟨hs, hresponsible | hf⟩
    · rw [hoid] at hresponsible
      exact Or.inr ⟨hs, _, hbest, hle, Or.inl hresponsible⟩
    · exact Or.inr ⟨hs, _, hbest, hle, Or.inr ⟨e, e.isLt, hoid, hf⟩⟩

/-- **A message reaches the responsible node** exactly if it arrives. -/
theorem reaches_iff_arrives (hdistinct : (hAddArray.map HostAddress.copied).Nodup)
    (s : Fin hAddArray.length) (ht : msg.targetOid.maxLength = Int32.ofNat k)
    (httl : 3 ≤ msg.base.overlayTtl.toNat) (hnot : NotKnown hAddArray net s msg) :
    Reaches k hAddArray net s msg ↔ Arrives k hAddArray.length net s msg := by
  rcases h.route s ht httl hnot with ⟨hanswers, hnone⟩ | ⟨e, ha, hes, hze, hbest, hle, hrest⟩
  · rw [reaches_iff_of_answers hdistinct hanswers]
    constructor
    · rintro ⟨-, hs⟩
      exact Or.inl ⟨hs, hnone⟩
    · rintro (⟨hs, -⟩ | ⟨-, e, hbest, hle, -⟩)
      · exact ⟨List.isChain_singleton _, hs⟩
      · exact absurd (hnone e hbest.mem) hle.not_gt
  rw [arrives_iff_of_best h hbest hle]
  rcases hrest with ⟨hanswers, hnone⟩ | ⟨f, ha', hfe, hzf, hf, hlef, hanswers⟩
  · rw [reaches_iff_of_answers hdistinct hanswers, List.isChain_pair]
    constructor
    · rintro ⟨hlt, he⟩
      exact ⟨fun hs => (shared_lt h hes.symm hs).not_gt hlt, Or.inl he⟩
    · rintro ⟨hs, he | ⟨f, hf, -, hmatch⟩⟩
      · exact ⟨shared_lt h hes he, he⟩
      · -- the second node would have forwarded the message
        have hlt := hnone f hf
        have hone := (le_max_left _ _).trans hle
        rw [getMatchedPrefixLength_nodeId h.lt ht] at hone
        omega
  · rw [reaches_iff_of_answers hdistinct hanswers, List.isChain_cons_cons, List.isChain_pair]
    have hlef' := (le_max_right _ _).trans hlef
    constructor
    · rintro ⟨⟨hlt, -⟩, hresponsible⟩
      rw [h.overlayId] at hresponsible
      exact ⟨fun hs => (shared_lt h hes.symm hs).not_gt hlt, Or.inr ⟨_, hf, hresponsible, hlef'⟩⟩
    · rintro ⟨hs, he | ⟨⟨oid, ha''⟩, hf', hresponsible, hmatch⟩⟩
      · -- the second node would have answered the message
        have hcovers := (isResponsible_iff h msg.targetOid e).mp he
        exact absurd (h.eq_of_best ht hze hzf (Or.inl hcovers) hlef') hfe.symm
      · obtain ⟨g, -, hoid, -, hzg⟩ := h.links e _ hf'
        dsimp only at hoid hresponsible hmatch
        subst hoid
        obtain rfl := h.eq_of_best ht hzg hzf (Or.inr hmatch) hlef'
        rw [← h.overlayId] at hresponsible
        refine ⟨⟨?_, shared_lt h hfe hresponsible⟩, hresponsible⟩
        rw [shared_eq h, shared_eq h]
        refine h.lcp_lt_of_best ht (mt (isResponsible_iff h msg.targetOid s).mpr hs) hze ?_
          ((isResponsible_iff h msg.targetOid g).mp hresponsible) hzg
        rintro c ⟨ha₃, hc⟩
        exact hbest.le (nodeId k hAddArray.length c, ha₃) hc

/-- Every message is answered by a node of the network. -/
theorem exists_answers (s : Fin hAddArray.length) (ht : msg.targetOid.maxLength = Int32.ofNat k)
    (httl : 3 ≤ msg.base.overlayTtl.toNat) (hnot : NotKnown hAddArray net s msg) :
    ∃ path, ∃ c : Fin hAddArray.length, Answers hAddArray net s msg path c := by
  rcases h.route s ht httl hnot with ⟨hanswers, -⟩ |
    ⟨e, -, -, -, -, -, ⟨hanswers, -⟩ | ⟨f, -, -, -, -, -, hanswers⟩⟩
  · exact ⟨_, s, hanswers⟩
  · exact ⟨_, e, hanswers⟩
  · exact ⟨_, f, hanswers⟩

end Routed

/-- The last node of a path on which the shared bits increase occurs only there. -/
theorem not_mem_dropLast {f : ℕ → ℕ} (hchain : path.IsChain fun a b => f a < f b)
    (hlast : path.getLast? = some c) : c ∉ path.dropLast := by
  rw [← List.dropLast_append_getLast? c hlast, ← List.isChain_map, List.isChain_iff_pairwise,
    List.pairwise_map, List.pairwise_append] at hchain
  intro hc
  exact (hchain.2.2 c hc c (List.mem_singleton_self c)).false

/-- **Lookups in the overlay.**  In a network that `execute` has built, with empty caches, let a
name be registered at one node and looked up at another, with enough time to live and wherever
the messages claim to go, and let no node on the way of the lookup know the name beforehand.  Then
both messages reach the responsible node over nodes that share more and more bits with the
target, and the lookup finds the name, exactly if both messages arrive. -/
theorem overlay_lookup_iff {k : ℕ} {hAddArray : List HostAddress} {net : ℕ → Peer}
    (hnet : IsNetwork k hAddArray net) (hpos : 1 ≤ hAddArray.length)
    (hn : hAddArray.length ≤ 2 ^ k) {i j : ℕ} (hi : i < hAddArray.length)
    (hj : j < hAddArray.length) (putMsg : MessagePUT) (getMsg : MessageGET)
    (htarget : putMsg.targetOid.maxLength = Int32.ofNat k)
    (hsame : getMsg.targetOid = putMsg.targetOid) (hname : getMsg.deviceName = putMsg.deviceName)
    (hput : 3 ≤ putMsg.overlayTtl.toNat) (hget : 3 ≤ getMsg.overlayTtl.toNat)
    (habsent : ∀ path net' action, Travels hAddArray net j (.get getMsg) path net' action →
      ∀ c ∈ path, (net c).indexTable.lookup getMsg.deviceName = none) :
    LookupWorks k hAddArray net i putMsg j getMsg ↔
      Arrives k hAddArray.length net i (.put putMsg) ∧
        Arrives k hAddArray.length net j (.get getMsg) := by
  have h := hnet.routed hpos hn
  have hnotput : NotKnown hAddArray net i (.put putMsg) := fun _ _ _ _ _ _ => rfl
  have hnotget : NotKnown hAddArray net j (.get getMsg) := by
    intro path net' action htravels c hc
    rw [Peer.knows, habsent path net' action htravels c hc]
    rfl
  have htarget' : getMsg.targetOid.maxLength = Int32.ofNat k := hsame ▸ htarget
  have hput_iff : Reaches k hAddArray net i (.put putMsg) ↔
      Arrives k hAddArray.length net i (.put putMsg) :=
    reaches_iff_arrives h hnet.distinct ⟨i, hi⟩ htarget hput hnotput
  have hget_iff : Reaches k hAddArray net j (.get getMsg) ↔
      Arrives k hAddArray.length net j (.get getMsg) :=
    reaches_iff_arrives h hnet.distinct ⟨j, hj⟩ htarget' hget hnotget
  constructor
  · rintro ⟨hputs, hgets, -⟩
    exact ⟨hput_iff.mp hputs, hget_iff.mp hgets⟩
  · rintro ⟨hputs, hgets⟩
    refine ⟨hput_iff.mpr hputs, hget_iff.mpr hgets, ?_⟩
    obtain ⟨path, c, hanswers⟩ : ∃ path, ∃ c : Fin hAddArray.length,
        Answers hAddArray net i (.put putMsg) path c :=
      exists_answers h ⟨i, hi⟩ htarget hput hnotput
    obtain ⟨path', c', hanswers'⟩ : ∃ path, ∃ c : Fin hAddArray.length,
        Answers hAddArray net j (.get getMsg) path c :=
      exists_answers h ⟨j, hj⟩ htarget' hget hnotget
    obtain ⟨-, hc⟩ := (reaches_iff_of_answers hnet.distinct hanswers).mp (hput_iff.mpr hputs)
    obtain ⟨hchain, hc'⟩ :=
      (reaches_iff_of_answers hnet.distinct hanswers').mp (hget_iff.mpr hgets)
    -- both messages are answered by the same node
    obtain rfl : c' = c := by
      apply h.partitions.eq_of_covers ((isResponsible_iff h _ c').mp hc')
      show (nodePrefix k hAddArray.length c).Covers k getMsg.targetOid.bits
      rw [hsame]
      exact (isResponsible_iff h _ c).mp hc
    intro path₁ net₁ action htravels
    obtain ⟨-, rfl, -⟩ := htravels.unique hnet.distinct hanswers.2
    have hc'path : (c' : ℕ) ∈ path' := List.mem_of_getLast? hanswers'.1
    have hlookup : (answer (net c') (.put putMsg)).1.indexTable.lookup getMsg.deviceName =
        some putMsg.hostAddress := by
      show ((net c').indexTable.add putMsg.deviceName putMsg.hostAddress).lookup _ = _
      rw [LookupTable.lookup_add, hname, if_pos rfl, ← hname, habsent _ _ _ hanswers'.2 _ hc'path]
      rfl
    have hknows : (answer (net c') (.put putMsg)).1.knows (.get getMsg) = true := by
      rw [Peer.knows, hlookup]
      rfl
    obtain ⟨net₂, hfound⟩ :=
      hanswers'.2.found hanswers'.1 (not_mem_dropLast hchain hanswers'.1) hknows
    rw [answer_get hlookup] at hfound
    exact ⟨path', net₂, hfound⟩

/-! ## Two nodes -/

/-- Two nodes with identifiers of three bits, `000` and `100`. -/
def twoHosts : List HostAddress := [⟨[97], 1⟩, ⟨[98], 2⟩]

def twoNodes : ℕ → Peer := startedPeer (nodeIds 3 2) twoHosts

/-- A registration with the target `110`, made by the first node. -/
def newPut (dstOid : OverlayId) : MessagePUT where
  toABSMessage := .init 41 0 [97] 1 ⟨0, 1, 3⟩ dstOid
  targetOid := ⟨6, 3, 3⟩
  deviceName := [120]
  hostAddress := ⟨[99], 3⟩

/-- A lookup of the same name, made by the second node. -/
def newGet (dstOid : OverlayId) : MessageGET where
  toABSMessage := .init 42 0 [98] 2 ⟨4, 1, 3⟩ dstOid
  targetOid := ⟨6, 3, 3⟩
  deviceName := [120]

theorem isNetwork_twoNodes : IsNetwork 3 twoHosts twoNodes :=
  isNetwork_startedPeer (by decide) (by decide)
    (idArray_eq (k := 3) (n := 2) (by decide) (by decide) (by decide) (by decide)) (by decide)

theorem table_twoNodes_zero : (twoNodes 0).routingTable.table = [(⟨4, 1, 3⟩, ⟨[98], 2⟩)] := rfl

theorem table_twoNodes_one : (twoNodes 1).routingTable.table = [(⟨0, 1, 3⟩, ⟨[97], 1⟩)] := rfl

/-- The messages arrive if their destination happens to be the target. -/
theorem lookup_works_at_two_nodes :
    LookupWorks 3 twoHosts twoNodes 0 (newPut ⟨6, 3, 3⟩) 1 (newGet ⟨6, 3, 3⟩) := by
  refine (overlay_lookup_iff isNetwork_twoNodes (by decide) (by decide) (by decide) (by decide)
    (newPut ⟨6, 3, 3⟩) (newGet ⟨6, 3, 3⟩) rfl rfl rfl (by decide) (by decide)
    fun _ _ _ _ _ _ => rfl).mpr ⟨Or.inr ⟨by decide +kernel, _, .of_singleton table_twoNodes_zero,
      by decide +kernel, Or.inl (by decide +kernel)⟩, Or.inl ⟨by decide +kernel, ?_⟩⟩
  rw [table_twoNodes_one]
  decide +kernel

/-- **A registration that stops too early**: the first node keeps it, as its destination happens to
be the identifier of that node, and the node of the other half is responsible. -/
theorem registration_stops_early :
    ¬ LookupWorks 3 twoHosts twoNodes 0 (newPut ⟨0, 3, 3⟩) 1 (newGet ⟨6, 3, 3⟩) := by
  intro h
  have hrouted := isNetwork_twoNodes.routed (by decide) (by decide)
  have harrives : Arrives 3 2 twoNodes 0 (.put (newPut ⟨0, 3, 3⟩)) :=
    (reaches_iff_arrives hrouted isNetwork_twoNodes.distinct ⟨0, by decide⟩ rfl (by decide)
      fun _ _ _ _ _ _ => rfl).mp h.put_reaches
  rcases harrives with ⟨hresponsible, -⟩ | ⟨-, e, he, hle, -⟩
  · exact absurd hresponsible (by decide +kernel)
  · have hmem := he.mem
    rw [table_twoNodes_zero, List.mem_singleton] at hmem
    rw [hmem] at hle
    exact absurd hle (by decide +kernel)

end Klink
