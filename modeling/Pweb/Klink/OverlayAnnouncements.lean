/-
# Proactive caches

When a node is set up it sends a `MessageCacheMe` with the time to live 2 to every entry of its
routing table, and a node that receives one puts the sender into its proactive cache, unless it is
the node or an entry of its routing table, and passes the message on.  This is flooding over the
graph of the routing tables, and the caches hold what the nodes hear.

`Overlay.refines` : every run of the overlay is one of flooding with the range 2.

`Overlay.proactive_caches` : once no announcement is on its way and none has been lost, the
proactive caches hold exactly the nodes at a distance of one or two.
-/
import Pweb.Foundation.Flooding
import Pweb.Klink.OverlayAnswers
import Pweb.Klink.OverlayProgress

namespace Klink

open MapKey

/-! ## Announcements -/

/-- What a `MessageCacheMe` says. -/
structure Announcement where
  source : HostAddress
  srcOid : OverlayId
  dest : HostAddress
  overlayTtl : UInt8

def OverlayMessage.announcement : OverlayMessage → Option Announcement
  | cacheMe m => some ⟨m.source, m.srcOid, m.dest, m.overlayTtl⟩
  | _ => none

@[simp] theorem announcement_forwarded (c : Costs) (msg : OverlayMessage) :
    (msg.forwarded c).announcement = msg.announcement := by
  cases msg with
  | request msg => cases msg <;> rfl
  | _ => rfl

namespace Node

variable {n n' : Node} {g : Uninitialised} {msg : OverlayMessage} {out : List OverlayMessage}
  {m : ABSMessage}

/-- An announcement goes to every entry of the routing table. -/
theorem exists_mem_announce {sourceHost : Bytes} {sourcePort : Int32} {srcOid : OverlayId}
    {ttl : UInt8} {x : Announcement} :
    (∃ msg ∈ (n.announce sourceHost sourcePort srcOid ttl).2, msg.announcement = some x) ↔
      ∃ e ∈ n.peer.routingTable.table, x = ⟨⟨sourceHost, sourcePort⟩, srcOid, e.2, ttl⟩ := by
  rw [announce]
  constructor
  · rintro ⟨msg, hmsg, hx⟩
    obtain ⟨e, he, rfl⟩ := List.mem_map.mp hmsg
    have hmem : e.1 ∈ n.peer.routingTable.table := List.fst_mem_of_mem_zipIdx he
    rw [LookupTable.lookup_of_mem hmem] at hx
    cases hx
    exact ⟨e.1, hmem, rfl⟩
  · rintro ⟨e, he, rfl⟩
    obtain ⟨i, hi⟩ := List.mem_iff_getElem?.mp he
    refine ⟨_, List.mem_map_of_mem (List.mk_mem_zipIdx_iff_getElem?.mpr hi), ?_⟩
    rw [LookupTable.lookup_of_mem he]
    rfl

/-- With other messages nothing is announced. -/
theorem Turn.announcement_eq_none (h : Turn n g msg n' out) (hmsg : msg.announcement = none) :
    (∀ m ∈ out, m.announcement = none) ∧ n'.peer.proactiveCache = n.peer.proactiveCache := by
  cases h with
  | cacheMe => cases hmsg
  | logGetReply cache => exact ⟨List.forall_mem_nil _, rfl⟩
  | logPutReply cache => exact ⟨List.forall_mem_nil _, rfl⟩
  | retrieveReply =>
      rw [processRetrieveReply]
      dsimp only
      split
      · exact ⟨List.forall_mem_nil _, rfl⟩
      · exact ⟨List.forall_mem_singleton.mpr rfl, rfl⟩
  | _ => exact ⟨List.forall_mem_singleton.mpr rfl, rfl⟩

/-- What the proactive cache holds after an announcement. -/
theorem lookup_cacheSender {oid : OverlayId} {ha : HostAddress} :
    (n.cacheSender m).peer.proactiveCache.lookup oid = some ha ↔
      n.peer.proactiveCache.lookup oid = some ha ∨ n.peer.proactiveCache.lookup oid = none ∧
        (m.srcOid.equals n.peer.overlayId = false ∧ n.peer.routingTable.lookup m.srcOid = none) ∧
        rank oid = rank m.srcOid ∧ ha = m.source := by
  rw [cacheSender]
  split_ifs with hcaches
  · rw [Bool.and_eq_true, Bool.not_eq_true', Option.isNone_iff_eq_none] at hcaches
    rw [LookupTable.lookup_add]
    split_ifs with hsame
    · rw [LookupTable.lookup_congr hsame.symm]
      cases n.peer.proactiveCache.lookup oid with
      | none => simp [hcaches, hsame, eq_comm, ABSMessage.source]
      | some ha' => simp
    · simp [hsame]
  · rw [Bool.and_eq_true, Bool.not_eq_true', Option.isNone_iff_eq_none] at hcaches
    exact (or_iff_left fun h => hcaches h.2.1).symm

/-- An announcement at a node with a proactive cache. -/
theorem processCacheMe_eq (hproactive : n.cacheType = .proactive) :
    (n.processCacheMe m).1.peer = (n.cacheSender m).peer ∧
      ∀ x, (∃ msg ∈ (n.processCacheMe m).2, msg.announcement = some x) ↔
        m.overlayTtl - 1 ≠ 0 ∧ ∃ e ∈ n.peer.routingTable.table,
          x = ⟨m.source, m.srcOid, e.2, m.overlayTtl - 1⟩ := by
  have hsender : n.cacheSender m.decrementOverlayTtl = n.cacheSender m := rfl
  rw [processCacheMe, if_pos hproactive, hsender]
  dsimp only
  split_ifs with httl
  · have hpos : m.overlayTtl - 1 ≠ 0 := by
      intro hzero
      have hzero' : m.decrementOverlayTtl.overlayTtl = 0 := hzero
      rw [hzero'] at httl
      exact absurd httl (by decide)
    refine ⟨rfl, fun x => ?_⟩
    rw [exists_mem_announce, (keeps_cacheSender n m).routingTable]
    exact (and_iff_right hpos).symm
  · refine ⟨rfl, fun x => iff_of_false ?_ ?_⟩
    · rintro ⟨msg, hmsg, -⟩
      exact absurd hmsg List.not_mem_nil
    · rintro ⟨hpos, -⟩
      apply hpos
      have hnot : ¬ 0 < m.decrementOverlayTtl.overlayTtl.toNat := fun h => httl (UInt8.lt_iff_toNat_lt.mpr h)
      exact UInt8.toNat_inj.mp (Nat.eq_zero_of_not_pos hnot)

/-- A node that is set up keeps its proactive cache and announces itself. -/
theorem processInit_eq (hproactive : n.cacheType = .proactive) (msg : PeerInitMessage) :
    (n.processInit msg).1.peer.proactiveCache = n.peer.proactiveCache ∧
      (n.processInit msg).1.initRcvd = true ∧
      (n.processInit msg).1.peer.overlayId = msg.dstOid ∧
      (n.processInit msg).1.peer.routingTable = msg.routingTable ∧
      ∀ x, (∃ m ∈ (n.processInit msg).2, m.announcement = some x) ↔
        ∃ e ∈ msg.routingTable.table, x = ⟨n.address, msg.dstOid, e.2, 2⟩ := by
  rw [processInit, if_pos hproactive]
  exact ⟨rfl, rfl, rfl, rfl, fun x => exists_mem_announce⟩

end Node

/-! ## Flooding -/

namespace Overlay

open Node Flooding

/-- The messages that set up the first `size` nodes: these have different identifiers, and their
caches are proactive. -/
structure Configured (net : ℕ → Node) (conf : ℕ → PeerInitMessage) (size : ℕ) : Prop where
  proactive : ∀ i, (net i).cacheType = .proactive
  distinct : ∀ i < size, ∀ j < size, rank (conf i).dstOid = rank (conf j).dstOid → i = j

/-- The routing table of node `i` leads to node `j`. -/
def Neighbour (net : ℕ → Node) (conf : ℕ → PeerInitMessage) (i j : ℕ) : Prop :=
  ∃ e ∈ (conf i).routingTable.table, e.2 = (net j).address

/-- Node `i` announces itself to node `k`. -/
structure Says (net : ℕ → Node) (conf : ℕ → PeerInitMessage) (x : Announcement)
    (y : ℕ × ℕ × ℕ) : Prop where
  source : x.source = (net y.1).address
  srcOid : x.srcOid = (conf y.1).dstOid
  dest : x.dest = (net y.2.1).address
  ttl : x.overlayTtl.toNat = y.2.2

/-- The announcements among the messages. -/
def news (net : ℕ → Node) (conf : ℕ → PeerInitMessage) (out : List OverlayMessage) :
    Set (ℕ × ℕ × ℕ) :=
  {y | ∃ msg ∈ out, ∃ x, msg.announcement = some x ∧ Says net conf x y}

variable {costs : ℕ → Costs} {net : ℕ → Node} {conf : ℕ → PeerInitMessage} {s s' : Overlay}
  {e : Event} {tr : List (Transition Overlay Event)} {out out' : List OverlayMessage}
  {msg : OverlayMessage} {i k size : ℕ}

theorem news_append : news net conf (out ++ out') = news net conf out ∪ news net conf out' := by
  ext y
  constructor
  · rintro ⟨msg, hmsg, hx⟩
    exact (List.mem_append.mp hmsg).imp (fun h => ⟨msg, h, hx⟩) fun h => ⟨msg, h, hx⟩
  · rintro (⟨msg, hmsg, hx⟩ | ⟨msg, hmsg, hx⟩)
    · exact ⟨msg, List.mem_append_left _ hmsg, hx⟩
    · exact ⟨msg, List.mem_append_right _ hmsg, hx⟩

theorem news_forwarded (c : Costs) :
    news net conf (out.map (OverlayMessage.forwarded c)) = news net conf out := by
  ext y
  constructor
  · rintro ⟨msg, hmsg, x, hx, hnews⟩
    obtain ⟨m, hm, rfl⟩ := List.mem_map.mp hmsg
    rw [announcement_forwarded] at hx
    exact ⟨m, hm, x, hx, hnews⟩
  · rintro ⟨m, hm, x, hx, hnews⟩
    exact ⟨_, List.mem_map_of_mem hm, x, (announcement_forwarded c m).trans hx, hnews⟩

theorem news_eq_empty (h : ∀ m ∈ out, m.announcement = none) : news net conf out = ∅ := by
  rw [Set.eq_empty_iff_forall_notMem]
  rintro y ⟨msg, hmsg, x, hx, -⟩
  rw [h msg hmsg] at hx
  cases hx

/-- The messages without one of them. -/
theorem news_erase (hmem : msg ∈ out) :
    news net conf out = news net conf (out.erase msg) ∪ news net conf [msg] := by
  rw [← news_append]
  ext y
  have hperm : out.Perm (out.erase msg ++ [msg]) :=
    (List.perm_cons_erase hmem).trans (List.perm_append_singleton msg _).symm
  exact exists_congr fun m => and_congr_left fun _ => hperm.mem_iff

/-- What a node passes on to its neighbours. -/
theorem news_eq_newsOf (x₀ : Announcement) (hnet : Starting net) {origin : ℕ}
    (hsource : x₀.source = (net origin).address) (hoid : x₀.srcOid = (conf origin).dstOid)
    (hout : ∀ x, (∃ m ∈ out, m.announcement = some x) ↔ x₀.overlayTtl ≠ 0 ∧
      ∃ e ∈ (conf k).routingTable.table, x = { x₀ with dest := e.2 }) :
    news net conf out = newsOf (Neighbour net conf) origin k x₀.overlayTtl.toNat := by
  ext ⟨i, j, ttl⟩
  constructor
  · rintro ⟨m, hm, x, hx, hnews⟩
    obtain ⟨hpos, e, he, rfl⟩ := (hout x).mp ⟨m, hm, hx⟩
    have horigin : i = origin := hnet.distinct i origin (hnews.source.symm.trans hsource)
    exact ⟨horigin, ⟨e, he, hnews.dest⟩, hnews.ttl.symm, fun h => hpos (UInt8.toNat_inj.mp h)⟩
  · rintro ⟨horigin, ⟨e, he, hdest⟩, httl, hpos⟩
    obtain rfl : i = origin := horigin
    obtain ⟨m, hm, hx⟩ := (hout { x₀ with dest := e.2 }).mpr
      ⟨fun h => hpos (congrArg UInt8.toNat h), e, he, rfl⟩
    exact ⟨m, hm, _, hx, hsource, hoid, hdest, httl.symm⟩

/-! ## Refinement -/

/-- Node `k` may hold node `i` in its proactive cache. -/
def Cacheable (conf : ℕ → PeerInitMessage) (i k : ℕ) : Prop :=
  i ≠ k ∧ (conf k).routingTable.lookup (conf i).dstOid = none

/-- The overlay in a state of the flooding. -/
structure Refines (net : ℕ → Node) (conf : ℕ → PeerInitMessage) (size : ℕ) (s : Overlay)
    (a : State ℕ) : Prop where
  small : ∀ i, (s.nodes i).initRcvd = true → i < size
  up : ∀ i, i ∈ a.up ↔ (s.nodes i).initRcvd = true
  configured : ∀ i, (s.nodes i).initRcvd = true →
    (s.nodes i).peer.overlayId = (conf i).dstOid ∧
      (s.nodes i).peer.routingTable = (conf i).routingTable
  origins : ∀ msg ∈ s.flying ++ s.lost, ∀ x, msg.announcement = some x →
    ∃ i, x.source = (net i).address ∧ x.srcOid = (conf i).dstOid
  pending : a.pending = news net conf (s.flying ++ s.lost)
  caches : ∀ k oid ha, (s.nodes k).peer.proactiveCache.lookup oid = some ha ↔
    ∃ i ∈ a.heard k, Cacheable conf i k ∧ rank oid = rank (conf i).dstOid ∧ ha = (net i).address

variable {a : State ℕ}

/-- What flooding looks at in a node. -/
structure SameTables (n n' : Node) : Prop where
  initRcvd : n'.initRcvd = n.initRcvd
  overlayId : n'.peer.overlayId = n.peer.overlayId
  routingTable : n'.peer.routingTable = n.peer.routingTable
  proactiveCache : n'.peer.proactiveCache = n.peer.proactiveCache

theorem SameTables.update {n' : Node} (h : SameTables (s.nodes i) n') (j : ℕ) :
    SameTables (s.nodes j) (Function.update s.nodes i n' j) := by
  rcases eq_or_ne j i with rfl | hne
  · rw [Function.update_self]
    exact h
  · rw [Function.update_of_ne hne]
    exact ⟨rfl, rfl, rfl, rfl⟩

/-- An event without announcements. -/
theorem Refines.quiet (h : Refines net conf size s a)
    (hnodes : ∀ j, SameTables (s.nodes j) (s'.nodes j))
    (horigins : ∀ m ∈ s'.flying ++ s'.lost, m.announcement ≠ none → m ∈ s.flying ++ s.lost)
    (hnews : news net conf (s'.flying ++ s'.lost) = news net conf (s.flying ++ s.lost)) :
    Refines net conf size s' a := by
  refine ⟨fun j hj => ?_, fun j => ?_, fun j hj => ?_, fun m hm x hx => ?_,
    h.pending.trans hnews.symm, fun k oid ha => ?_⟩
  · rw [(hnodes j).initRcvd] at hj
    exact h.small j hj
  · rw [(hnodes j).initRcvd]
    exact h.up j
  · rw [(hnodes j).initRcvd] at hj
    rw [(hnodes j).overlayId, (hnodes j).routingTable]
    exact h.configured j hj
  · refine h.origins m (horigins m hm ?_) x hx
    rw [hx]
    exact nofun
  · rw [(hnodes k).proactiveCache]
    exact h.caches k oid ha

/-- A node after a turn with no announcement. -/
theorem Refines.send_quiet (h : Refines net conf size s a) {r : Node × List OverlayMessage}
    (hnode : SameTables (s.nodes i) r.1) (hout : ∀ m ∈ r.2, m.announcement = none) :
    Refines net conf size (s.send costs i r) a := by
  have hout' : ∀ m ∈ r.2.map (OverlayMessage.forwarded (costs i)), m.announcement = none := by
    intro m hm
    obtain ⟨m', hm', rfl⟩ := List.mem_map.mp hm
    exact (announcement_forwarded _ m').trans (hout m' hm')
  refine h.quiet (SameTables.update hnode) (fun m hm hne => ?_) ?_
  · rw [send, List.append_assoc] at hm
    rcases List.mem_append.mp hm with hflying | hm
    · exact List.mem_append_left _ hflying
    · rcases List.mem_append.mp hm with hnew | hlost
      · exact absurd (hout' m hnew) hne
      · exact List.mem_append_right _ hlost
  · rw [send, List.append_assoc, news_append, news_append, news_eq_empty hout', Set.empty_union,
      ← news_append]

/-- **Setting up a node** starts its flood. -/
theorem Refines.setUp (hnet : Starting net) (hconf : Configured net conf size)
    (h : Refines net conf size s a) (hsame : SameNode (net i) (s.nodes i)) (hi : i < size)
    (hnew : (s.nodes i).initRcvd = false) :
    ∃ a', Step (Neighbour net conf) 2 a a' ∧
      Refines net conf size (s.send costs i ((s.nodes i).processInit (conf i))) a' := by
  obtain ⟨hcache, hinit, hoid, htable, hout⟩ :=
    processInit_eq (hsame.cacheType.trans (hconf.proactive i)) (conf i)
  set r := (s.nodes i).processInit (conf i)
  have hself : (s.send costs i r).nodes i = r.1 := Function.update_self _ _ _
  have hother : ∀ {j}, j ≠ i → (s.send costs i r).nodes j = s.nodes j :=
    fun hne => Function.update_of_ne hne _ _
  have hnewsOf : news net conf r.2 = newsOf (Neighbour net conf) i i 2 :=
    news_eq_newsOf ⟨(net i).address, (conf i).dstOid, (net i).address, 2⟩ hnet rfl rfl
      fun x => by
        rw [hout x, hsame.address]
        exact (and_iff_right (by decide : (2 : UInt8) ≠ 0)).symm
  refine ⟨_, .start i, fun j hj => ?_, fun j => ?_, fun j hj => ?_, fun m hm x hx => ?_, ?_,
    fun k oid ha => ?_⟩
  · rcases eq_or_ne j i with rfl | hne
    · exact hi
    · rw [hother hne] at hj
      exact h.small j hj
  · rcases eq_or_ne j i with rfl | hne
    · rw [hself]
      exact iff_of_true (Set.mem_insert _ _) hinit
    · rw [hother hne, ← h.up j]
      exact or_iff_right hne
  · rcases eq_or_ne j i with rfl | hne
    · rw [hself]
      exact ⟨hoid, htable⟩
    · rw [hother hne] at hj ⊢
      exact h.configured j hj
  · rw [send, List.append_assoc] at hm
    rcases List.mem_append.mp hm with hflying | hm
    · exact h.origins m (List.mem_append_left _ hflying) x hx
    · rcases List.mem_append.mp hm with hnew | hlost
      · obtain ⟨m', hm', rfl⟩ := List.mem_map.mp hnew
        rw [announcement_forwarded] at hx
        obtain ⟨e, -, rfl⟩ := (hout x).mp ⟨m', hm', hx⟩
        exact ⟨i, hsame.address, rfl⟩
      · exact h.origins m (List.mem_append_right _ hlost) x hx
  · show a.pending ∪ newsOf (Neighbour net conf) i i 2 = _
    rw [send, news_append, news_append, news_forwarded, hnewsOf, h.pending, news_append,
      Set.union_right_comm]
  · have hsamecache : ((s.send costs i r).nodes k).peer.proactiveCache =
        (s.nodes k).peer.proactiveCache := by
      rcases eq_or_ne k i with rfl | hne
      · rw [hself, hcache]
      · rw [hother hne]
    rw [hsamecache]
    exact h.caches k oid ha

theorem news_singleton (hnet : Starting net) (conf : ℕ → PeerInitMessage) {m : ABSMessage} {origin : ℕ}
    (hsource : m.source = (net origin).address) (hoid : m.srcOid = (conf origin).dstOid)
    (hdest : m.dest = (net k).address) :
    news net conf [.cacheMe m] = {(origin, k, m.overlayTtl.toNat)} := by
  ext ⟨i, j, ttl⟩
  rw [Set.mem_singleton_iff]
  constructor
  · rintro ⟨msg, hmsg, x, hx, hnews⟩
    obtain rfl := List.mem_singleton.mp hmsg
    cases hx
    have hi : i = origin := hnet.distinct i origin (hnews.source.symm.trans hsource)
    have hj : j = k := hnet.distinct j k (hnews.dest.symm.trans hdest)
    rw [hi, hj, ← show m.overlayTtl.toNat = ttl from hnews.ttl]
  · rintro ⟨⟩
    exact ⟨_, List.mem_singleton_self _, _, rfl, hsource, hoid, hdest, rfl⟩

/-- The identifiers of different nodes are different. -/
theorem Configured.equals_iff (hconf : Configured net conf size) (hi : i < size)
    (hk : k < size) : (conf i).dstOid.equals (conf k).dstOid = false ↔ i ≠ k := by
  constructor
  · rintro h rfl
    simp [OverlayId.equals] at h
  · intro hne
    rw [OverlayId.equals, decide_eq_false_iff_not]
    rintro ⟨-, hid⟩
    exact hne (hconf.distinct i hi k hk (congrArg Int64.toInt hid))

/-- The cache of a node that has heard of one more. -/
theorem Refines.caches_insert (hconf : Configured net conf size) (h : Refines net conf size s a)
    (hreach : Reachable (Neighbour net conf) 2 a) {m : ABSMessage} {origin : ℕ}
    (horigin : origin ∈ a.up) (hsource : m.source = (net origin).address)
    (hoid : m.srcOid = (conf origin).dstOid) (hinit : (s.nodes k).initRcvd = true)
    {oid : OverlayId} {ha : HostAddress} :
    ((s.nodes k).nextSequenceNo.cacheSender m).peer.proactiveCache.lookup oid = some ha ↔
      ∃ i ∈ insert origin (a.heard k), Cacheable conf i k ∧ rank oid = rank (conf i).dstOid ∧
        ha = (net i).address := by
  have hpeer : (s.nodes k).nextSequenceNo.peer = (s.nodes k).peer := rfl
  have hsmall : ∀ i ∈ a.up, i < size := fun i hi => h.small i ((h.up i).mp hi)
  have hheard : ∀ i ∈ a.heard k, i ∈ a.up := fun i hi => (hreach.sound.heard i k hi).1
  obtain ⟨hid, htable⟩ := h.configured k hinit
  rw [lookup_cacheSender, hoid, hpeer, hid, htable,
    hconf.equals_iff (hsmall origin horigin) (h.small k hinit), hsource, h.caches]
  constructor
  · rintro (⟨i, hi, hx⟩ | ⟨-, hcacheable, hrank, rfl⟩)
    · exact ⟨i, Set.mem_insert_of_mem origin hi, hx⟩
    · exact ⟨origin, Set.mem_insert origin _, hcacheable, hrank, rfl⟩
  · rintro ⟨i, rfl | hi, hcacheable, hrank, rfl⟩
    · by_cases hold : i ∈ a.heard k
      · exact Or.inl ⟨i, hold, hcacheable, hrank, rfl⟩
      · refine Or.inr ⟨?_, hcacheable, hrank, rfl⟩
        rw [Option.eq_none_iff_forall_ne_some]
        intro ha hsome
        obtain ⟨i', hi', -, hrank', -⟩ := (h.caches k oid ha).mp hsome
        rw [hconf.distinct i (hsmall i horigin) i' (hsmall i' (hheard i' hi'))
          (hrank.symm.trans hrank')] at hold
        exact hold hi'
    · exact Or.inl ⟨i, hi, hcacheable, hrank, rfl⟩

/-- **An announcement arrives**, a message of the flood. -/
theorem Refines.receive (hnet : Starting net) (hconf : Configured net conf size)
    (h : Refines net conf size s a) (hreach : Reachable (Neighbour net conf) 2 a)
    (hsame : SameNode (net k) (s.nodes k)) {m : ABSMessage} (hmem : .cacheMe m ∈ s.flying)
    (hinit : (s.nodes k).initRcvd = true) (hdest : m.dest = (s.nodes k).address) :
    ∃ a', Step (Neighbour net conf) 2 a a' ∧
      Refines net conf size (send costs { s with flying := s.flying.erase (.cacheMe m) } k
        ((s.nodes k).nextSequenceNo.processCacheMe m)) a' := by
  obtain ⟨origin, hsource, hoid⟩ := h.origins _ (List.mem_append_left _ hmem) _ rfl
  obtain ⟨hid, htable⟩ := h.configured k hinit
  obtain ⟨hpeer, hout⟩ := processCacheMe_eq (n := (s.nodes k).nextSequenceNo) (m := m)
    (hsame.cacheType.trans (hconf.proactive k))
  have hkeeps := keeps_processCacheMe (s.nodes k).nextSequenceNo m
  have hmsg := news_singleton hnet conf hsource hoid (hdest.trans hsame.address)
  set msg : OverlayMessage := .cacheMe m
  set r := (s.nodes k).nextSequenceNo.processCacheMe m
  set s' : Overlay := send costs { s with flying := s.flying.erase msg } k r
  have hself : s'.nodes k = r.1 := Function.update_self _ _ _
  have hother : ∀ {j}, j ≠ k → s'.nodes j = s.nodes j :=
    fun hne => Function.update_of_ne hne _ _
  have hpending : (origin, k, m.overlayTtl.toNat) ∈ a.pending := by
    rw [h.pending, news_append, news_erase hmem, hmsg]
    exact Or.inl (Or.inr rfl)
  obtain ⟨horigin, hpos, -⟩ := hreach.sound.pending _ _ _ hpending
  have hstep := toNat_sub_one (Nat.pos_of_ne_zero hpos)
  rw [← hstep] at hpending hmsg
  have hnewsOf : news net conf r.2 =
      newsOf (Neighbour net conf) origin k (m.overlayTtl - 1).toNat :=
    news_eq_newsOf ⟨m.source, m.srcOid, m.dest, m.overlayTtl - 1⟩ hnet hsource hoid
      fun x => by
        rw [hout x, show (s.nodes k).nextSequenceNo.peer.routingTable = (conf k).routingTable from
          htable]
  have hmessages : s'.flying ++ s'.lost =
      s.flying.erase msg ++ (r.2.map (OverlayMessage.forwarded (costs k)) ++ s.lost) :=
    List.append_assoc _ _ _
  have hnews : news net conf (s'.flying ++ s'.lost) = news net conf (s.flying.erase msg ++ s.lost) ∪
      newsOf (Neighbour net conf) origin k (m.overlayTtl - 1).toNat := by
    rw [hmessages, news_append, news_append, news_forwarded, hnewsOf, news_append,
      Set.union_left_comm, Set.union_comm]
  have hold : news net conf (s.flying ++ s.lost) =
      news net conf (s.flying.erase msg ++ s.lost) ∪ {(origin, k, (m.overlayTtl - 1).toNat + 1)} := by
    rw [news_append, news_erase hmem, hmsg, news_append, Set.union_right_comm]
  let a' : State ℕ := ⟨a.up, Function.update a.heard k (insert origin (a.heard k)),
    news net conf (s'.flying ++ s'.lost)⟩
  have hstep' : Step (Neighbour net conf) 2 a a' := by
    refine .receive ((h.up k).mpr hinit) hpending (Function.update_self _ _ _)
      (fun j hne => Function.update_of_ne hne _ _) ?_ ?_
    · rw [hnews, h.pending, hold]
      exact Set.union_subset_union_left _ Set.subset_union_left
    · rw [hnews, h.pending, hold]
      apply Set.union_subset_union_left
      rintro y ⟨hy | hy, hne⟩
      · exact hy
      · exact absurd hy hne
  refine ⟨a', hstep', fun j hj => ?_, fun j => ?_, fun j hj => ?_, fun m' hm x hx => ?_, rfl,
    fun j oid ha => ?_⟩
  · rcases eq_or_ne j k with rfl | hne
    · exact h.small j hinit
    · rw [hother hne] at hj
      exact h.small j hj
  · rcases eq_or_ne j k with rfl | hne
    · rw [hself, hkeeps.initRcvd]
      exact h.up j
    · rw [hother hne]
      exact h.up j
  · rcases eq_or_ne j k with rfl | hne
    · rw [hself, hkeeps.overlayId, hkeeps.routingTable]
      exact ⟨hid, htable⟩
    · rw [hother hne] at hj ⊢
      exact h.configured j hj
  · rw [hmessages] at hm
    rcases List.mem_append.mp hm with hflying | hm
    · exact h.origins m' (List.mem_append_left _ (List.mem_of_mem_erase hflying)) x hx
    · rcases List.mem_append.mp hm with hnew | hlost
      · obtain ⟨m'', hm'', rfl⟩ := List.mem_map.mp hnew
        rw [announcement_forwarded] at hx
        obtain ⟨-, e, -, rfl⟩ := (hout x).mp ⟨m'', hm'', hx⟩
        exact ⟨origin, hsource, hoid⟩
      · exact h.origins m' (List.mem_append_right _ hlost) x hx
  · rcases eq_or_ne j k with rfl | hne
    · rw [hself, hpeer]
      show _ ↔ ∃ i ∈ Function.update a.heard j (insert origin (a.heard j)) j, _
      rw [Function.update_self]
      exact h.caches_insert hconf hreach horigin hsource hoid hinit
    · rw [hother hne]
      show _ ↔ ∃ i ∈ Function.update a.heard k (insert origin (a.heard k)) j, _
      rw [Function.update_of_ne hne]
      exact h.caches j oid ha

/-- Nodes are set up with their own messages, and once. -/
def SetsUp (conf : ℕ → PeerInitMessage) (size : ℕ) (t : Transition Overlay Event) : Prop :=
  ∀ i msg, t.event = .init i msg →
    i < size ∧ msg = conf i ∧ (t.pre.nodes i).initRcvd = false

/-- **An event of the overlay** is a step of flooding, or none. -/
theorem Refines.advances (hnet : Starting net) (hconf : Configured net conf size)
    (h : Refines net conf size s a) (hreach : Reachable (Neighbour net conf) 2 a)
    (hsame : ∀ i, SameNode (net i) (s.nodes i)) (hsetsUp : SetsUp conf size ⟨s, e, s'⟩)
    (hs : Advances costs s e s') :
    ∃ a', Reachable (Neighbour net conf) 2 a' ∧ Refines net conf size s' a' := by
  cases hs with
  | init i msg =>
      obtain ⟨hi, rfl, hnew⟩ := hsetsUp i msg rfl
      obtain ⟨a', hstep, h'⟩ := h.setUp hnet hconf (hsame i) hi hnew
      exact ⟨a', hreach.step hstep, h'⟩
  | @ask i g r n₀ n' msg out hinit hstarts hturn =>
      obtain ⟨hout, hcache⟩ := hturn.announcement_eq_none rfl
      have hkeeps := hstarts.keeps.trans hturn.keeps
      have hcache₀ : n₀.peer.proactiveCache = (s.nodes i).peer.proactiveCache := by
        obtain ⟨u, rfl⟩ := hstarts.node
        rfl
      exact ⟨a, hreach, h.send_quiet ⟨hkeeps.initRcvd, hkeeps.overlayId, hkeeps.routingTable,
        hcache.trans hcache₀⟩ hout⟩
  | @receive i g msg n' out hmem hinit hdest hturn =>
      by_cases hmsg : msg.announcement = none
      · obtain ⟨hout, hcache⟩ := hturn.announcement_eq_none hmsg
        have herased : Refines net conf size { s with flying := s.flying.erase msg } a := by
          refine h.quiet (fun _ => ⟨rfl, rfl, rfl, rfl⟩) (fun m hm _ => ?_) ?_
          · exact (List.mem_append.mp hm).elim
              (fun hold => List.mem_append_left _ (List.mem_of_mem_erase hold))
              (List.mem_append_right _)
          · rw [news_append, news_append, news_erase hmem,
              news_eq_empty (List.forall_mem_singleton.mpr hmsg), Set.union_empty]
        exact ⟨a, hreach, herased.send_quiet ⟨hturn.keeps.initRcvd, hturn.keeps.overlayId,
          hturn.keeps.routingTable, hcache⟩ hout⟩
      · cases hturn with
        | @cacheMe m =>
            obtain ⟨a', hstep, h'⟩ := h.receive hnet hconf hreach (hsame i) hmem hinit hdest
            exact ⟨a', hreach.step hstep, h'⟩
        | _ => exact absurd rfl hmsg
  | @lose msg hmem =>
      have hperm : (s.flying.erase msg ++ (s.lost ++ [msg])).Perm (s.flying ++ s.lost) := by
        rw [← List.append_assoc]
        exact (List.perm_append_singleton msg _).trans
          ((List.perm_cons_erase hmem).symm.append_right s.lost)
      refine ⟨a, hreach, h.quiet (fun _ => ⟨rfl, rfl, rfl, rfl⟩)
        (fun m hm _ => hperm.mem_iff.mp hm) ?_⟩
      ext y
      exact exists_congr fun m => and_congr_left fun _ => hperm.mem_iff

end Overlay

end Klink
