/-
# What a node does with a message

`Turn n g msg n' out` lists what `Node.processMessage` can do: the node `n` becomes `n'` and
leaves the messages `out` in the outgoing queue.  `processMessage_turn` : it does nothing
else.  The proofs about networks go through these cases.
-/
import Pweb.Klink.OverlayNode

namespace Klink

variable {p p' : Peer} {targetOid dstOid : OverlayId} {msg : PlexusMessage}

/-! ## The search -/

namespace Node

/-- The search in `setNextHop` for a reply is that for a request. -/
theorem setNextHop_eq_findNextHop (p : Peer) (msg : PlexusMessage) : Klink.setNextHop p msg =
    if msg.base.overlayTtl = 0 then some (false, p, msg)
    else if p.knows msg then some (false, p, msg)
    else (findNextHop p msg.targetOid msg.base.dstOid).map fun r =>
      match r.2 with
      | none => (false, r.1, msg)
      | some (nextHop, nextOid) => (true, r.1, msg.setDest nextHop nextOid) := by
  rw [Klink.setNextHop, findNextHop]
  dsimp only
  congr 2
  cases searchCache msg.targetOid p.cache.fresh p.cache.dll.head p.cache
      (searchProactiveCache msg.targetOid p.proactiveCache
        (searchRoutingTable msg.targetOid p.routingTable)) with
  | none => rfl
  | some found =>
      show (if _ then _ else _) = Option.map _ (if _ then _ else _)
      split_ifs with hstay
      · rfl
      · cases found.2.nextOid with
        | none => rfl
        | some nextOid => rfl

/-- The search changes the cache only. -/
theorem findNextHop_cache {hop : Option (HostAddress × OverlayId)}
    (h : findNextHop p targetOid dstOid = some (p', hop)) : ∃ cache, p' = { p with cache } := by
  rw [findNextHop] at h
  obtain ⟨⟨cache, found⟩, -, h⟩ := Option.bind_eq_some_iff.mp h
  refine ⟨cache, ?_⟩
  dsimp only at h
  split_ifs at h with hstay
  · cases h
    rfl
  · obtain ⟨nextOid, -, h⟩ := Option.bind_eq_some_iff.mp h
    cases h
    rfl

end Node

/-- A request is forwarded, unless its time to live runs out, or answered. -/
theorem forward_or_answer {action : Action} (h : processMessage p msg = some (p', action)) :
    ∃ cache, (msg.base.overlayTtl ≠ 1 ∧ p' = { p with cache } ∧
        ∃ hop oid, action = .forward (msg.decrementOverlayTtl.setDest hop oid)) ∨
      answer { p with cache } msg = (p', action) := by
  rw [processMessage] at h
  obtain ⟨⟨forward, q, msg'⟩, hhop, h⟩ := Option.bind_eq_some_iff.mp h
  rw [Node.setNextHop_eq_findNextHop] at hhop
  have hanswer : ∀ p : Peer, answer p msg.decrementOverlayTtl = answer p msg :=
    fun p => answer_setBase _
  split_ifs at hhop with httl hknows
  · cases hhop
    exact ⟨p.cache, Or.inr ((hanswer p).symm.trans (Option.some.inj h))⟩
  · cases hhop
    exact ⟨p.cache, Or.inr ((hanswer p).symm.trans (Option.some.inj h))⟩
  · obtain ⟨⟨q', hop⟩, hfind, hq⟩ := Option.map_eq_some_iff.mp hhop
    obtain ⟨cache, rfl⟩ := Node.findNextHop_cache hfind
    refine ⟨cache, ?_⟩
    cases hop with
    | none =>
        cases hq
        exact Or.inr ((hanswer _).symm.trans (Option.some.inj h))
    | some hop =>
        cases hq
        cases h
        refine Or.inl ⟨fun hone => httl ?_, rfl, hop.1, hop.2, rfl⟩
        rw [PlexusMessage.decrementOverlayTtl, base_setBase]
        exact sub_eq_zero.mpr hone

namespace Node

variable {n n' : Node} {g : Uninitialised} {m m' : ABSMessage} {forward : Bool}
  {out : List OverlayMessage}

/-! ## Parts of a turn -/

def withCache (n : Node) (cache : Cache) : Node := { n with peer := { n.peer with cache } }

/-- A reply keeps its address, or goes to a next hop with the cache storage `path`. -/
def Routed (n : Node) (m m' : ABSMessage) : Prop :=
  m' = m ∨ n.cacheStorage = .path ∧ ∃ hop oid, m' = m.setDest hop oid

theorem setNextHop_cases (h : n.setNextHop targetOid m = some (forward, n', m')) :
    ∃ cache, n' = n.withCache cache ∧ (forward = false ∧ m' = m ∨
      forward = true ∧ n.cacheStorage = .path ∧ m.overlayTtl ≠ 0 ∧
        ∃ hop oid, m' = m.setDest hop oid) := by
  rw [setNextHop] at h
  split_ifs at h with hstorage httl
  · cases h
    exact ⟨n.peer.cache, rfl, Or.inl ⟨rfl, rfl⟩⟩
  · cases h
    exact ⟨n.peer.cache, rfl, Or.inl ⟨rfl, rfl⟩⟩
  · have hpath : n.cacheStorage = .path := by
      cases hn : n.cacheStorage with
      | endPoint => exact absurd hn hstorage
      | path => rfl
    obtain ⟨⟨peer, hop⟩, hfind, h⟩ := Option.bind_eq_some_iff.mp h
    obtain ⟨cache, rfl⟩ := findNextHop_cache hfind
    refine ⟨cache, ?_⟩
    cases hop with
    | none =>
        cases h
        exact ⟨rfl, Or.inl ⟨rfl, rfl⟩⟩
    | some hop =>
        cases h
        exact ⟨rfl, Or.inr ⟨rfl, hpath, httl, hop.1, hop.2, rfl⟩⟩

theorem routeReply_cases (h : n.routeReply targetOid m = some (n', m')) :
    ∃ cache, n' = n.withCache cache ∧ n.Routed m m' := by
  rw [routeReply] at h
  split_ifs at h with hpath
  · obtain ⟨⟨forward, n₁, m₁⟩, hhop, h⟩ := Option.bind_eq_some_iff.mp h
    cases h
    obtain ⟨cache, rfl, ⟨-, rfl⟩ | ⟨-, -, -, hdest⟩⟩ := setNextHop_cases hhop
    · exact ⟨cache, rfl, Or.inl rfl⟩
    · exact ⟨cache, rfl, Or.inr ⟨hpath, hdest⟩⟩
  · cases h
    exact ⟨n.peer.cache, rfl, Or.inl rfl⟩

theorem cacheSource_cases (h : n.cacheSource m = some n') : ∃ cache, n' = n.withCache cache := by
  obtain ⟨cache, -, h⟩ := Option.bind_eq_some_iff.mp h
  cases h
  exact ⟨cache, rfl⟩

theorem forwardReply_cases (h : n.forwardReply targetOid m = some (forward, n', m')) :
    ∃ cache, n' = n.withCache cache ∧ (forward = false ∧ m' = m.decrementOverlayTtl ∨
      forward = true ∧ n.cacheStorage = .path ∧ m.overlayTtl ≠ 1 ∧
        ∃ hop oid, m' = m.decrementOverlayTtl.setDest hop oid) := by
  rw [forwardReply] at h
  obtain ⟨⟨forward₁, n₁, m₁⟩, hhop, h⟩ := Option.bind_eq_some_iff.mp h
  obtain ⟨cache, rfl, ⟨rfl, rfl⟩ | ⟨rfl, hpath, httl, hdest⟩⟩ := setNextHop_cases hhop
  · cases h
    exact ⟨cache, rfl, Or.inl ⟨rfl, rfl⟩⟩
  · dsimp only at h
    rw [if_pos ⟨rfl, hpath⟩] at h
    obtain ⟨n₂, hsource, h⟩ := Option.bind_eq_some_iff.mp h
    obtain ⟨cache', rfl⟩ := cacheSource_cases hsource
    cases h
    exact ⟨cache', rfl, Or.inr ⟨rfl, hpath, fun hone => httl (sub_eq_zero.mpr hone), hdest⟩⟩

/-! ## Turns -/

/-- The node after a registration. -/
def register (n : Node) (cache : Cache) (name : Bytes) (ha : HostAddress) : Node :=
  { n.nextSequenceNo with
    peer := { n.peer with cache, indexTable := n.peer.indexTable.add name ha } }

/-- The node after logging a reply. -/
def log (n : Node) (cache : Cache) (entry : LogEntry) : Node :=
  { n.withCache cache with loggingQueue := n.loggingQueue ++ [entry] }

/-- What a node can do with a message. -/
inductive Turn (n : Node) (g : Uninitialised) :
    OverlayMessage → Node → List OverlayMessage → Prop
  | forwardRequest {msg : PlexusMessage} (cache : Cache) (hop : HostAddress) (oid : OverlayId)
      (httl : msg.base.overlayTtl ≠ 1) :
      Turn n g (.request msg) (n.withCache cache)
        [.request (msg.decrementOverlayTtl.setDest hop oid)]
  | register {msg : MessagePUT} (cache : Cache) {m : ABSMessage}
      (hrouted : n.Routed (n.replyTo msgPlexusPutReply g.oid msg.toABSMessage) m) :
      Turn n g (.request (.put msg)) (n.register cache msg.deviceName msg.hostAddress)
        [.putReply { n.putReply g msg.toABSMessage success msg.deviceName with toABSMessage := m }]
  | found {msg : MessageGET} (cache : Cache) {ha : HostAddress} {m : ABSMessage}
      (hlookup : n.peer.indexTable.lookup msg.deviceName = some ha)
      (hrouted : n.Routed (n.replyTo msgPlexusGetReply g.oid msg.toABSMessage) m) :
      Turn n g (.request (.get msg)) (n.nextSequenceNo.withCache cache)
        [.getReply { n.getReply g msg.toABSMessage success ha msg.deviceName with
          toABSMessage := m }]
  | missing {msg : MessageGET} (cache : Cache)
      (hlookup : n.peer.indexTable.lookup msg.deviceName = none) :
      Turn n g (.request (.get msg)) (n.nextSequenceNo.withCache cache)
        [.getReply (n.getReply g msg.toABSMessage errorGetFailed ⟨[], -1⟩ msg.deviceName)]
  | forwardGetReply {msg : MessageGET_REPLY} (cache : Cache) (hop : HostAddress) (oid : OverlayId)
      (hpath : n.cacheStorage = .path) (httl : msg.overlayTtl ≠ 1) :
      Turn n g (.getReply msg) (n.withCache cache) [.getReply { msg with
        toABSMessage := msg.toABSMessage.decrementOverlayTtl.setDest hop oid }]
  | logGetReply {msg : MessageGET_REPLY} (cache : Cache) :
      Turn n g (.getReply msg) (n.log cache (.get msg.sourceHost msg.destHost msg.sequenceNo
        msg.resolutionHops msg.resolutionIpHops msg.resolutionLatency
        (msg.resolutionStatus = errorGetFailed) msg.deviceName msg.srcOid.getOverlayId)) []
  | forwardPutReply {msg : MessagePUT_REPLY} (cache : Cache) (hop : HostAddress) (oid : OverlayId)
      (hpath : n.cacheStorage = .path) (httl : msg.overlayTtl ≠ 1) :
      Turn n g (.putReply msg) (n.withCache cache) [.putReply { msg with
        toABSMessage := msg.toABSMessage.decrementOverlayTtl.setDest hop oid }]
  | logPutReply {msg : MessagePUT_REPLY} (cache : Cache) :
      Turn n g (.putReply msg) (n.log cache (.put msg.sourceHost msg.destHost msg.sequenceNo
        msg.resolutionHops msg.resolutionIpHops msg.resolutionLatency msg.deviceName
        msg.srcOid.getOverlayId)) []
  | cacheMe {m : ABSMessage} : Turn n g (.cacheMe m) (n.processCacheMe m).1 (n.processCacheMe m).2
  | retrieve {msg : RetrieveMessage} :
      Turn n g (.retrieve msg) (n.processRetrieve g msg).1 (n.processRetrieve g msg).2
  | retrieveReply {msg : MessageRetrieveReply} :
      Turn n g (.retrieveReply msg) (n.processRetrieveReply g msg).1
        (n.processRetrieveReply g msg).2

theorem processRequest_turn (h : n.processRequest g msg = some (n', out)) :
    Turn n g (.request msg) n' out := by
  rw [processRequest] at h
  obtain ⟨⟨peer, action⟩, hprocess, h⟩ := Option.bind_eq_some_iff.mp h
  obtain ⟨cache, ⟨httl, rfl, hop, oid, rfl⟩ | hanswer⟩ := forward_or_answer hprocess
  · cases h
    exact .forwardRequest cache hop oid httl
  · cases msg with
    | put msg =>
        cases hanswer
        obtain ⟨⟨n₁, m⟩, hroute, h⟩ := Option.bind_eq_some_iff.mp h
        obtain ⟨cache', rfl, hrouted⟩ := routeReply_cases hroute
        cases h
        exact .register cache' hrouted
    | get msg =>
        rw [answer] at hanswer
        cases hlookup : n.peer.indexTable.lookup msg.deviceName with
        | none =>
            rw [show ({ n.peer with cache } : Peer).indexTable = n.peer.indexTable from rfl,
              hlookup] at hanswer
            cases hanswer
            dsimp only at h
            rw [if_neg (by decide)] at h
            cases h
            exact .missing cache hlookup
        | some ha =>
            rw [show ({ n.peer with cache } : Peer).indexTable = n.peer.indexTable from rfl,
              hlookup] at hanswer
            cases hanswer
            dsimp only at h
            rw [if_pos rfl] at h
            obtain ⟨⟨n₁, m⟩, hroute, h⟩ := Option.bind_eq_some_iff.mp h
            obtain ⟨cache', rfl, hrouted⟩ := routeReply_cases hroute
            cases h
            exact .found cache' hlookup hrouted

/-- **A turn of a node.** -/
theorem processMessage_turn {msg : OverlayMessage} (h : n.processMessage g msg = some (n', out)) :
    Turn n g msg n' out := by
  cases msg with
  | request msg => exact processRequest_turn h
  | getReply msg =>
      obtain ⟨⟨forward, n₁, m⟩, hforward, h⟩ := Option.bind_eq_some_iff.mp h
      obtain ⟨cache, rfl, ⟨rfl, rfl⟩ | ⟨rfl, hpath, httl, hop, oid, rfl⟩⟩ :=
        forwardReply_cases hforward
      · obtain ⟨n₂, hsource, h⟩ := Option.bind_eq_some_iff.mp h
        obtain ⟨cache', rfl⟩ := cacheSource_cases hsource
        cases h
        exact .logGetReply cache'
      · cases h
        exact .forwardGetReply cache hop oid hpath httl
  | putReply msg =>
      obtain ⟨⟨forward, n₁, m⟩, hforward, h⟩ := Option.bind_eq_some_iff.mp h
      obtain ⟨cache, rfl, ⟨rfl, rfl⟩ | ⟨rfl, hpath, httl, hop, oid, rfl⟩⟩ :=
        forwardReply_cases hforward
      · cases h
        exact .logPutReply cache
      · cases h
        exact .forwardPutReply cache hop oid hpath httl
  | cacheMe m =>
      obtain rfl := congrArg Prod.fst (Option.some.inj h)
      obtain rfl := congrArg Prod.snd (Option.some.inj h)
      exact .cacheMe
  | retrieve msg =>
      obtain rfl := congrArg Prod.fst (Option.some.inj h)
      obtain rfl := congrArg Prod.snd (Option.some.inj h)
      exact .retrieve
  | retrieveReply msg =>
      obtain rfl := congrArg Prod.fst (Option.some.inj h)
      obtain rfl := congrArg Prod.snd (Option.some.inj h)
      exact .retrieveReply

end Node

end Klink
