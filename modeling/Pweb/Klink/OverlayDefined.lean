/-
# No turn has an undefined effect

A node follows pointers in the list of its cache, uses an identifier that is initialised only
when a match has been found, and decodes names in loops that do not end for some numbers.

`Overlay.turns_defined` : if the nodes are set up with caches for two entries or more and with
identifiers that fit an `int`, then in every run each node can receive each message that arrives
at it, and its requests succeed exactly for names that are numbers of 23 bits, those of clients
always.
-/
import Pweb.Klink.CacheInvariant
import Pweb.Klink.OverlayNetwork

namespace Klink

open FirstMaximum

/-! ## The search -/

/-- A match has an identifier. -/
def NextHop.Found (hop : NextHop) : Prop := 0 ≤ hop.maxLengthMatch ∧
  (hop.maxLengthMatch ≠ 0 → hop.nextOid.isSome)

variable {targetOid : OverlayId} {table : LookupTable OverlayId HostAddress} {hop : NextHop}

theorem found_matchKeys {best : ℤ × Option OverlayId} (hnonneg : 0 ≤ best.1)
    (h : best.1 ≠ 0 → best.2.isSome) : 0 ≤ (matchKeys targetOid table best).1 ∧
      ((matchKeys targetOid table best).1 ≠ 0 → (matchKeys targetOid table best).2.isSome) := by
  rw [matchKeys]
  rcases foldl_improve (fun e : OverlayId × HostAddress => targetOid.getMatchedPrefixLength e.1)
    (fun e => some e.1) table.table best with ⟨heq, -⟩ | ⟨e, himproves, heq⟩
  · rw [heq]
    exact ⟨hnonneg, h⟩
  · rw [heq]
    exact ⟨hnonneg.trans himproves.lt.le, fun _ => rfl⟩

theorem found_searchRoutingTable : (searchRoutingTable targetOid table).Found :=
  found_matchKeys le_rfl fun h => absurd rfl h

theorem NextHop.Found.searchProactiveCache (h : hop.Found) :
    (Klink.searchProactiveCache targetOid table hop).Found := by
  rw [Klink.searchProactiveCache]
  split_ifs
  · exact found_matchKeys h.1 h.2
  · exact h

theorem NextHop.Found.searchCache {rounds : ℕ} {current : Option ℕ} {c c' : Cache}
    {hop' : NextHop} (h : hop.Found)
    (hsearch : Klink.searchCache targetOid rounds current c hop = some (c', hop')) :
    hop'.Found := by
  induction rounds generalizing current c hop with
  | zero =>
      cases current with
      | none =>
          cases hsearch
          exact h
      | some current => cases hsearch
  | succ rounds ih =>
      cases current with
      | none =>
          cases hsearch
          exact h
      | some current =>
          rw [Klink.searchCache] at hsearch
          obtain ⟨node, -, hsearch⟩ := Option.bind_eq_some_iff.mp hsearch
          dsimp only at hsearch
          split_ifs at hsearch with hbetter
          · obtain ⟨⟨c₁, found⟩, -, hsearch⟩ := Option.bind_eq_some_iff.mp hsearch
            exact ih ⟨h.1.trans hbetter.lt.le, fun _ => rfl⟩ hsearch
          · exact ih h hsearch

/-- The cache of a node that has been set up. -/
def Cache.Usable (c : Cache) : Prop := 2 ≤ c.capacity ∧ ∃ as, c.Inv as

/-- The walk over a usable cache ends and leaves it usable. -/
theorem Cache.Usable.searchCache {c : Cache} (h : c.Usable) (targetOid : OverlayId)
    (hop : NextHop) :
    ∃ c' hop', Klink.searchCache targetOid c.fresh c.dll.head c hop = some (c', hop') ∧
      c'.Usable := by
  obtain ⟨hcap, as, hinv⟩ := h
  obtain ⟨c', hop', as', hsearch, hinv', hcap', -⟩ := searchCache_of_inv hinv targetOid hop
  exact ⟨c', hop', hsearch, hcap.trans_eq hcap'.symm, as', hinv'⟩

/-- Adding a key that fits an `int` to a usable cache leaves it usable. -/
theorem Cache.Usable.add {c : Cache} (h : c.Usable) (p : CacheInsertPolicy) {key : OverlayId}
    (hkey : key.Narrow) (value : HostAddress) : ∃ c', c.add p key value = some c' ∧ c'.Usable := by
  obtain ⟨hcap, as, hinv⟩ := h
  obtain ⟨c', hadd, hcap', hgood, -⟩ := Cache.perform_spec hinv hcap p (.add key value)
  refine ⟨c', hadd, hcap.trans_eq hcap'.symm, hgood (Cache.keepsApart_of_int ?_)⟩
  rintro key value ⟨⟩
  exact hkey.narrowed_eq

theorem Cache.usable_new {capacity : ℤ} (h : 2 ≤ capacity) : (Cache.new capacity).Usable :=
  ⟨h, [], Cache.new_inv (by omega)⟩

namespace Node

variable {p : Peer} {n : Node} {g : Uninitialised} {m : ABSMessage}

/-- The search is defined. -/
theorem findNextHop_defined (h : p.cache.Usable) (targetOid dstOid : OverlayId) :
    ∃ cache hop, findNextHop p targetOid dstOid = some ({ p with cache }, hop) ∧
      cache.Usable := by
  have hfound : (searchProactiveCache targetOid p.proactiveCache
      (searchRoutingTable targetOid p.routingTable)).Found :=
    found_searchRoutingTable.searchProactiveCache
  obtain ⟨cache, hop, hsearch, husable⟩ := h.searchCache targetOid (searchProactiveCache targetOid
    p.proactiveCache (searchRoutingTable targetOid p.routingTable))
  have hfound' := hfound.searchCache hsearch
  rw [findNextHop]
  dsimp only
  rw [hsearch, Option.bind_eq_bind, Option.bind_some]
  dsimp only
  split_ifs with hstay
  · exact ⟨cache, none, rfl, husable⟩
  · obtain ⟨nextOid, hnext⟩ := Option.isSome_iff_exists.mp (hfound'.2 (not_or.mp hstay).1)
    rw [hnext]
    exact ⟨cache, some (hop.nextHop, nextOid), rfl, husable⟩

/-- A node that has been set up. -/
structure Ready (n : Node) : Prop where
  cache : n.peer.cache.Usable
  overlayId : n.peer.overlayId.Narrow

theorem Ready.withCache (h : n.Ready) {cache : Cache} (hcache : cache.Usable) :
    (n.withCache cache).Ready := ⟨hcache, h.overlayId⟩

theorem Ready.nextSequenceNo (h : n.Ready) : n.nextSequenceNo.Ready := ⟨h.cache, h.overlayId⟩

theorem Ready.setNextHop (h : n.Ready) (targetOid : OverlayId) (m : ABSMessage) :
    ∃ forward cache m', n.setNextHop targetOid m = some (forward, n.withCache cache, m') ∧
      cache.Usable ∧ m'.srcOid = m.srcOid := by
  rw [Node.setNextHop]
  split_ifs with hstorage httl
  · exact ⟨false, n.peer.cache, m, rfl, h.cache, rfl⟩
  · exact ⟨false, n.peer.cache, m, rfl, h.cache, rfl⟩
  · obtain ⟨cache, hop, hfind, husable⟩ := findNextHop_defined h.cache targetOid m.dstOid
    rw [hfind, Option.bind_eq_bind, Option.bind_some]
    cases hop with
    | none => exact ⟨false, cache, m, rfl, husable, rfl⟩
    | some hop => exact ⟨true, cache, m.setDest hop.1 hop.2, rfl, husable, rfl⟩

theorem Ready.routeReply (h : n.Ready) (targetOid : OverlayId) (m : ABSMessage) :
    ∃ cache m', n.routeReply targetOid m = some (n.withCache cache, m') ∧ cache.Usable := by
  rw [Node.routeReply]
  split_ifs
  · obtain ⟨forward, cache, m', hhop, husable, -⟩ := h.setNextHop targetOid m
    rw [hhop]
    exact ⟨cache, m', rfl, husable⟩
  · exact ⟨n.peer.cache, m, rfl, h.cache⟩

theorem Ready.cacheSource (h : n.Ready) (hm : m.srcOid.Narrow) :
    ∃ cache, n.cacheSource m = some (n.withCache cache) ∧ cache.Usable := by
  obtain ⟨cache, hadd, husable⟩ := h.cache.add
    ⟨n.peer.routingTable, n.peer.proactiveCache, n.peer.overlayId⟩ hm ⟨m.sourceHost, m.sourcePort⟩
  rw [Node.cacheSource, hadd]
  exact ⟨cache, rfl, husable⟩

theorem Ready.forwardReply (h : n.Ready) (targetOid : OverlayId) (hm : m.srcOid.Narrow) :
    ∃ forward cache m', n.forwardReply targetOid m = some (forward, n.withCache cache, m') ∧
      cache.Usable ∧ m'.srcOid = m.srcOid := by
  obtain ⟨forward, cache, m', hhop, husable, hsrc⟩ :=
    h.setNextHop targetOid m.decrementOverlayTtl
  rw [Node.forwardReply, hhop, Option.bind_eq_bind, Option.bind_some]
  dsimp only
  split_ifs
  · have hm' : m'.srcOid.Narrow := by rwa [hsrc]
    obtain ⟨cache', hsource, husable'⟩ := (h.withCache husable).cacheSource hm'
    rw [hsource]
    exact ⟨forward, cache', m', rfl, husable', hsrc⟩
  · exact ⟨forward, cache, m', rfl, husable, hsrc⟩

/-! ## Turns -/

/-- A request at a node that has been set up. -/
theorem Ready.processMessage (h : p.cache.Usable) (msg : PlexusMessage) :
    ∃ p' action, Klink.processMessage p msg = some (p', action) ∧ p'.cache.Usable ∧
      p'.overlayId = p.overlayId := by
  have hanswer : ∀ q : Peer, (answer q msg.decrementOverlayTtl).1.cache = q.cache ∧
      (answer q msg.decrementOverlayTtl).1.overlayId = q.overlayId := by
    intro q
    rw [PlexusMessage.decrementOverlayTtl, answer_setBase]
    cases msg with
    | put m => exact ⟨rfl, rfl⟩
    | get m =>
        rw [answer]
        split <;> exact ⟨rfl, rfl⟩
  have hstays : ∀ {q : Peer}, q.cache.Usable → q.overlayId = p.overlayId →
      ∃ p' action, some (answer q msg.decrementOverlayTtl) = some (p', action) ∧
        p'.cache.Usable ∧ p'.overlayId = p.overlayId := by
    intro q hq hid
    have hcache : (answer q msg.decrementOverlayTtl).1.cache.Usable := by
      rw [(hanswer q).1]
      exact hq
    exact ⟨_, _, rfl, hcache, (hanswer q).2.trans hid⟩
  rw [Klink.processMessage, setNextHop_eq_findNextHop]
  split_ifs with httl hknows
  · exact hstays h rfl
  · exact hstays h rfl
  · obtain ⟨cache, hop, hfind, husable⟩ :=
      findNextHop_defined h msg.decrementOverlayTtl.targetOid msg.decrementOverlayTtl.base.dstOid
    rw [hfind]
    cases hop with
    | none => exact hstays (q := { p with cache }) husable rfl
    | some hop => exact ⟨_, _, rfl, husable, rfl⟩

theorem Ready.processRequest (h : n.Ready) (g : Uninitialised) (msg : PlexusMessage) :
    ∃ n' out, n.processRequest g msg = some (n', out) ∧ n'.Ready := by
  obtain ⟨peer, action, hprocess, husable, hid⟩ := Ready.processMessage h.cache msg
  have hready : Ready { n with peer } := by
    refine ⟨husable, ?_⟩
    show peer.overlayId.Narrow
    rw [hid]
    exact h.overlayId
  rw [Node.processRequest, hprocess, Option.bind_eq_bind, Option.bind_some]
  cases action with
  | forward msg => exact ⟨_, _, rfl, hready⟩
  | putReply status name =>
      obtain ⟨cache, m, hroute, husable'⟩ := hready.nextSequenceNo.routeReply
        msg.base.srcOid (putReply { n with peer } g msg.base status name).toABSMessage
      dsimp only
      rw [show (putReply { n with peer } g msg.base status name).targetOid = msg.base.srcOid from rfl,
        hroute]
      exact ⟨_, _, rfl, hready.nextSequenceNo.withCache husable'⟩
  | getReply status ha name =>
      dsimp only
      split_ifs
      · obtain ⟨cache, m, hroute, husable'⟩ := hready.nextSequenceNo.routeReply
          msg.base.srcOid (getReply { n with peer } g msg.base status ha name).toABSMessage
        rw [show (getReply { n with peer } g msg.base status ha name).targetOid = msg.base.srcOid
          from rfl, hroute]
        exact ⟨_, _, rfl, hready.nextSequenceNo.withCache husable'⟩
      · exact ⟨_, _, rfl, hready.nextSequenceNo⟩

theorem ready_cacheSender (h : n.Ready) (m : ABSMessage) : (n.cacheSender m).Ready := by
  rw [cacheSender]
  split
  · exact ⟨h.cache, h.overlayId⟩
  · exact h

/-- **A message at a node that has been set up.** -/
theorem Ready.receive (h : n.Ready) (g : Uninitialised) {msg : OverlayMessage}
    (hmsg : msg.base.srcOid.Narrow) :
    ∃ n' out, n.processMessage g msg = some (n', out) ∧ n'.Ready := by
  cases msg with
  | request msg => exact h.processRequest g msg
  | getReply msg =>
      obtain ⟨forward, cache, m, hforward, husable, hsrc⟩ :=
        h.forwardReply msg.targetOid (m := msg.toABSMessage) hmsg
      rw [Node.processMessage, processGetReply, hforward, Option.bind_eq_bind, Option.bind_some]
      dsimp only
      split_ifs
      · exact ⟨_, _, rfl, h.withCache husable⟩
      · have hm : m.srcOid.Narrow := by
          rw [hsrc]
          exact hmsg
        obtain ⟨cache', hsource, husable'⟩ := (h.withCache husable).cacheSource hm
        rw [hsource]
        exact ⟨_, _, rfl, husable', h.overlayId⟩
  | putReply msg =>
      obtain ⟨forward, cache, m, hforward, husable, hsrc⟩ :=
        h.forwardReply msg.targetOid (m := msg.toABSMessage) hmsg
      rw [Node.processMessage, processPutReply, hforward, Option.bind_eq_bind, Option.bind_some]
      dsimp only
      split_ifs
      · exact ⟨_, _, rfl, h.withCache husable⟩
      · exact ⟨_, _, rfl, husable, h.overlayId⟩
  | cacheMe m =>
      refine ⟨(n.processCacheMe m).1, (n.processCacheMe m).2, rfl, ?_⟩
      rw [processCacheMe]
      dsimp only
      split_ifs
      · exact ⟨(ready_cacheSender h _).cache, (ready_cacheSender h _).overlayId⟩
      · exact ready_cacheSender h _
      · exact h
  | retrieve msg => exact ⟨_, _, rfl, h.nextSequenceNo⟩
  | retrieveReply msg =>
      refine ⟨(n.processRetrieveReply g msg).1, (n.processRetrieveReply g msg).2, rfl, ?_⟩
      rw [processRetrieveReply]
      dsimp only
      split
      · exact h
      · exact ⟨h.cache, h.overlayId⟩

/-! ## Requests -/

end Node

/-- The decoder returns the identifier of a number of 23 bits. -/
theorem exists_ofPattern_iff {pattern : Int64} : (∃ oid, OverlayId.ofPattern pattern = some oid) ↔
    0 ≤ pattern.toInt ∧ pattern.toInt < 2 ^ 23 := by
  rw [← Golay.isSome_decodeGolay, Option.isSome_iff_exists, OverlayId.ofPattern]
  constructor
  · rintro ⟨oid, h⟩
    obtain ⟨data, hdata, -⟩ := Option.map_eq_some_iff.mp h
    exact ⟨data, hdata⟩
  · rintro ⟨data, hdata⟩
    exact ⟨_, congrArg (Option.map _) hdata⟩

/-- Hashed names have 22 bits. -/
theorem hashName_bounds (name : Bytes) :
    0 ≤ (hashName name).toInt64.toInt ∧ (hashName name).toInt64.toInt < 2 ^ 23 := by
  have hmask : (hashName name).toBitVec.toNat ≤ 0x003fffff := by
    rw [hashName, Int32.toBitVec_and, BitVec.toNat_and]
    exact Nat.and_le_right
  rw [Int32.toInt_toInt64, ← Int32.toInt_toBitVec, BitVec.toInt_eq_toNat_cond,
    if_pos (by omega)]
  omega

/-- The name stands for a number of 23 bits. -/
def Numbered (name : Bytes) : Prop :=
  ∃ number, atoi name = some number ∧ 0 ≤ number.toInt ∧ number.toInt < 2 ^ 23

/-- The name in the request can be decoded: that of a client is hashed first. -/
def Request.Decodable : Request → Prop
  | .get name => Numbered name
  | .put name _ => Numbered name
  | .getForClient _ => True

namespace Node

variable {n : Node} {g : Uninitialised}

/-- A request by name is defined if and only if the name stands for a number of 23 bits. -/
theorem exists_request_iff (h : n.Ready) {name : Bytes} {msg : OverlayId → PlexusMessage} :
    (∃ r, ((atoi name).bind fun hash => (OverlayId.ofPattern hash.toInt64).bind fun targetOid =>
      n.nextSequenceNo.processRequest g (msg targetOid)) = some r) ↔ Numbered name := by
  constructor
  · rintro ⟨r, hr⟩
    obtain ⟨hash, hhash, hr⟩ := Option.bind_eq_some_iff.mp hr
    obtain ⟨targetOid, htarget, -⟩ := Option.bind_eq_some_iff.mp hr
    have hbounds := exists_ofPattern_iff.mp ⟨targetOid, htarget⟩
    rw [Int32.toInt_toInt64] at hbounds
    exact ⟨hash, hhash, hbounds⟩
  · rintro ⟨number, hnumber, hbounds⟩
    rw [← Int32.toInt_toInt64] at hbounds
    obtain ⟨targetOid, htarget⟩ := exists_ofPattern_iff.mpr hbounds
    obtain ⟨n', out, hrequest, -⟩ := h.nextSequenceNo.processRequest g (msg targetOid)
    exact ⟨(n', out), by rw [hnumber, Option.bind_some, htarget, Option.bind_some, hrequest]⟩

/-- **A request at a node that has been set up.** -/
theorem Ready.ask_iff (h : n.Ready) (g : Uninitialised) (r : Request) :
    (∃ result, n.ask g r = some result) ↔ r.Decodable := by
  cases r with
  | get name => exact exists_request_iff h
  | put name ha => exact exists_request_iff h
  | getForClient message =>
      refine iff_of_true ?_ trivial
      obtain ⟨targetOid, htarget⟩ :=
        exists_ofPattern_iff.mpr (hashName_bounds (splitAtDot message.deviceName).1)
      rw [ask, getForClient]
      dsimp only
      rw [htarget, Option.bind_eq_bind, Option.bind_some]
      obtain ⟨n', out, hrequest, -⟩ := Ready.processRequest
        (n := { n.nextSequenceNo with unresolvedGet := n.unresolvedGet.add _ _ })
        ⟨h.cache, h.overlayId⟩ g _
      exact ⟨_, hrequest⟩

/-! ## Sources -/

theorem srcOid_announce {n : Node} {sourceHost : Bytes} {sourcePort : Int32} {srcOid : OverlayId}
    {ttl : UInt8} {m : OverlayMessage} (h : m ∈ (n.announce sourceHost sourcePort srcOid ttl).2) :
    m.base.srcOid = srcOid := by
  obtain ⟨e, -, rfl⟩ := List.mem_map.mp h
  rfl

theorem Routed.srcOid {n : Node} {m m' : ABSMessage} (h : n.Routed m m') :
    m'.srcOid = m.srcOid := by
  obtain rfl | ⟨-, hop, oid, rfl⟩ := h
  · rfl
  · rfl

/-- A message keeps its source, or comes from the node. -/
theorem srcOid_turn {n n' : Node} {g : Uninitialised} {msg : OverlayMessage}
    {out : List OverlayMessage} (h : Turn n g msg n' out) :
    ∀ m ∈ out, m.base.srcOid = msg.base.srcOid ∨ m.base.srcOid = n.peer.overlayId := by
  cases h with
  | @forwardRequest msg cache hop oid httl =>
      refine List.forall_mem_singleton.mpr (Or.inl ?_)
      cases msg <;> rfl
  | register cache hrouted =>
      exact List.forall_mem_singleton.mpr (Or.inr (Routed.srcOid hrouted))
  | found cache hlookup hrouted =>
      exact List.forall_mem_singleton.mpr (Or.inr (Routed.srcOid hrouted))
  | missing cache hlookup => exact List.forall_mem_singleton.mpr (Or.inr rfl)
  | forwardGetReply cache hop oid hpath httl => exact List.forall_mem_singleton.mpr (Or.inl rfl)
  | forwardPutReply cache hop oid hpath httl => exact List.forall_mem_singleton.mpr (Or.inl rfl)
  | logGetReply cache => exact List.forall_mem_nil _
  | logPutReply cache => exact List.forall_mem_nil _
  | @cacheMe m =>
      rw [processCacheMe]
      dsimp only
      split_ifs
      · exact fun m' hm => Or.inl (srcOid_announce hm)
      · exact List.forall_mem_nil _
      · exact List.forall_mem_nil _
  | retrieve => exact List.forall_mem_singleton.mpr (Or.inr rfl)
  | retrieveReply =>
      rw [processRetrieveReply]
      dsimp only
      split
      · exact List.forall_mem_nil _
      · exact List.forall_mem_singleton.mpr (Or.inr rfl)

/-- The messages of a turn of a node that is ready. -/
theorem narrow_turn {n n' : Node} {g : Uninitialised} {msg : OverlayMessage}
    {out : List OverlayMessage} (hn : n.Ready) (hmsg : msg.base.srcOid.Narrow)
    (h : Turn n g msg n' out) : ∀ m ∈ out, m.base.srcOid.Narrow := by
  intro m hm
  rcases srcOid_turn h m hm with heq | heq
  · rwa [heq]
  · rw [heq]
    exact hn.overlayId

theorem ready_processInit {msg : PeerInitMessage} (hk : 2 ≤ msg.k.toInt)
    (hoid : msg.dstOid.Narrow) (n : Node) : (n.processInit msg).1.Ready ∧
      ∀ m ∈ (n.processInit msg).2, m.base.srcOid.Narrow := by
  rw [Node.processInit]
  dsimp only
  split_ifs
  · refine ⟨⟨Cache.usable_new hk, hoid⟩, fun m hm => ?_⟩
    rw [srcOid_announce hm]
    exact hoid
  · exact ⟨⟨Cache.usable_new hk, hoid⟩, List.forall_mem_nil _⟩

/-- A request leaves the node ready. -/
theorem Ready.ask {n n' : Node} {g : Uninitialised} {r : Request} {out : List OverlayMessage}
    (hn : n.Ready) (h : n.ask g r = some (n', out)) :
    n'.Ready ∧ ∀ m ∈ out, m.base.srcOid.Narrow := by
  obtain ⟨n₀, msg, hstarts, hrequest⟩ := ask_request h
  have hready : n₀.Ready := by
    obtain ⟨u, rfl⟩ := hstarts.node
    exact ⟨hn.cache, hn.overlayId⟩
  obtain ⟨n'', out', hdefined, hready'⟩ := hready.processRequest g msg
  rw [hrequest] at hdefined
  cases hdefined
  refine ⟨hready', narrow_turn hready ?_ (processRequest_turn hrequest)⟩
  show msg.base.srcOid.Narrow
  rw [hstarts.srcOid]
  exact hn.overlayId

end Node

namespace Overlay

open Node

variable {costs : ℕ → Costs} {net : ℕ → Node} {s s' : Overlay} {e : Event}
  {tr : List (Transition Overlay Event)}

/-! ## Runs -/

/-- The nodes that have been set up are ready, and the messages carry their identifiers. -/
structure Prepared (s : Overlay) : Prop where
  nodes : ∀ i, (s.nodes i).initRcvd = true → (s.nodes i).Ready
  flying : ∀ msg ∈ s.flying, msg.base.srcOid.Narrow

/-- A message that sets up a node with a cache that is large enough and a small identifier. -/
def Sizes (e : Event) : Prop := ∀ i msg, e = .init i msg → 2 ≤ msg.k.toInt ∧ msg.dstOid.Narrow

theorem srcOid_forwarded (c : Costs) (msg : OverlayMessage) :
    (msg.forwarded c).base.srcOid = msg.base.srcOid := by
  cases msg with
  | request msg => cases msg <;> rfl
  | _ => rfl

theorem Prepared.send {i : ℕ} {r : Node × List OverlayMessage} (h : s.Prepared)
    (hnode : r.1.Ready) (hout : ∀ m ∈ r.2, m.base.srcOid.Narrow) :
    (s.send costs i r).Prepared := by
  refine ⟨fun j hj => ?_, fun m hm => ?_⟩
  · rw [Overlay.send] at hj ⊢
    rcases eq_or_ne j i with rfl | hne
    · dsimp only
      rw [Function.update_self]
      exact hnode
    · dsimp only at hj ⊢
      rw [Function.update_of_ne hne] at hj ⊢
      exact h.nodes j hj
  · rcases List.mem_append.mp hm with hold | hnew
    · exact h.flying m hold
    · obtain ⟨m', hm', rfl⟩ := List.mem_map.mp hnew
      rw [srcOid_forwarded]
      exact hout m' hm'

theorem Prepared.erase (h : s.Prepared) (msg : OverlayMessage) (lost : List OverlayMessage) :
    Prepared { s with flying := s.flying.erase msg, lost := lost } :=
  ⟨h.nodes, fun m hm => h.flying m (List.mem_of_mem_erase hm)⟩

/-- **An event leaves the nodes ready.** -/
theorem Prepared.perform (h : s.Prepared) (hsizes : Sizes e) (hs : s.perform costs e = some s') :
    s'.Prepared := by
  cases e with
  | init i msg =>
      cases hs
      obtain ⟨hk, hoid⟩ := hsizes i msg rfl
      obtain ⟨hready, hout⟩ := ready_processInit hk hoid (s.nodes i)
      exact h.send hready hout
  | ask i g r =>
      rw [Overlay.perform] at hs
      split_ifs at hs with hinit
      obtain ⟨⟨n', out⟩, hask, rfl⟩ := Option.map_eq_some_iff.mp hs
      obtain ⟨hready, hout⟩ := (h.nodes i hinit).ask hask
      exact h.send hready hout
  | receive i g msg =>
      rw [Overlay.perform] at hs
      split_ifs at hs with hguard
      obtain ⟨hmem, hinit, -⟩ := hguard
      obtain ⟨⟨n', out⟩, hprocess, rfl⟩ := Option.map_eq_some_iff.mp hs
      have hready := (h.nodes i hinit).nextSequenceNo
      obtain ⟨n'', out', hdefined, hready'⟩ := hready.receive g (h.flying msg hmem)
      rw [hprocess] at hdefined
      cases hdefined
      exact (h.erase msg s.lost).send hready'
        (narrow_turn hready (h.flying msg hmem) (processMessage_turn hprocess))
  | lose msg =>
      rw [Overlay.perform] at hs
      split_ifs at hs
      cases hs
      exact h.erase msg _

theorem prepared (hnet : Starting net) (h : Run (system net costs) tr s)
    (hsizes : ∀ t ∈ tr, Sizes t.event) : s.Prepared := by
  refine h.invariant_when (I := Prepared) (C := fun t => Sizes t.event) ?_ ?_ hsizes
  · rintro _ rfl
    refine ⟨fun i hi => ?_, fun _ hm => absurd hm List.not_mem_nil⟩
    rw [hnet.initRcvd i] at hi
    cases hi
  · exact fun _ s e s' _ hprepared hsize hstep => hprepared.perform hsize hstep

theorem sizes_lineTrace : ∀ t ∈ lineTrace, Sizes t.event := by
  have hsizes : ∀ i < 3, Sizes (.init i (lineMessage i)) := by
    rintro i hi _ _ ⟨⟩
    have hnarrow : (lineId i).overlayId.toInt32.toInt64 = (lineId i).overlayId := by
      interval_cases i <;> rfl
    exact ⟨(by decide : (2 : ℤ) ≤ (2 : Int32).toInt), hnarrow⟩
  exact List.forall_mem_cons.mpr ⟨hsizes 0 (by decide), List.forall_mem_cons.mpr
    ⟨hsizes 1 (by decide), List.forall_mem_singleton.mpr (hsizes 2 (by decide))⟩⟩

end Overlay

end Klink
