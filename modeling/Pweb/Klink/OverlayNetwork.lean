/-
# The overlay network

Nodes and the messages between them.  A message is on its way from the outgoing queue of a
node through a forwarding thread, the network and the incoming queue of another node; on
the way it may be overtaken by others, and it is lost when no attempt to send it succeeds.

The events: a node is set up, makes a request, or receives a message; a message is lost.

`Overlay.requests_accounted` : with the cache storage `end_point` every request is answered
once, to the node that made it, unless it or its reply is lost.
-/
import Pweb.Foundation.Runs
import Pweb.Klink.OverlayTurns

namespace Klink

/-! ## The network -/

/-- The hops and the latency that `lookup_address` knows; `addLatency` adds a `double`. -/
structure Costs where
  ipHops : HostAddress → Int32
  addLatency : HostAddress → UInt64 → UInt64

/-- `forwarding_thread`. -/
def OverlayMessage.forwarded (costs : Costs) (msg : OverlayMessage) : OverlayMessage :=
  let msg := msg.setBase fun m => { m with overlayHops := m.overlayHops + 1 }
  match msg with
  | .request _ =>
    let ha : HostAddress := ⟨msg.base.destHost, msg.base.destPort⟩
    msg.setBase fun m => { m with
      ipHops := m.ipHops + costs.ipHops ha, latency := costs.addLatency ha m.latency }
  | _ => msg

/-- The requests of a node, and those of clients to it. -/
inductive Request where
  | get (name : Bytes)
  | put (name : Bytes) (hostAddress : HostAddress)
  | getForClient (message : PeerInitiateGET)

/-- A request. -/
def Node.ask (n : Node) (g : Uninitialised) : Request → Option (Node × List OverlayMessage)
  | .get name => n.get g name
  | .put name hostAddress => n.put g name hostAddress
  | .getForClient message => n.getForClient g message

/-- The nodes, the messages on their way, and those that have been lost. -/
structure Overlay where
  nodes : ℕ → Node
  flying : List OverlayMessage
  lost : List OverlayMessage

namespace Overlay

/-- What happens in the network. -/
inductive Event where
  | init (i : ℕ) (msg : PeerInitMessage)
  | ask (i : ℕ) (g : Uninitialised) (request : Request)
  | receive (i : ℕ) (g : Uninitialised) (msg : OverlayMessage)
  | lose (msg : OverlayMessage)

/-- A node after a turn, and what it sends. -/
def send (costs : ℕ → Costs) (s : Overlay) (i : ℕ) (r : Node × List OverlayMessage) : Overlay :=
  { s with
    nodes := Function.update s.nodes i r.1
    flying := s.flying ++ r.2.map (OverlayMessage.forwarded (costs i)) }

/-- The effect of an event.  A node that has not been set up keeps what it receives. -/
def perform (costs : ℕ → Costs) (s : Overlay) : Event → Option Overlay
  | .init i msg => some (s.send costs i ((s.nodes i).processInit msg))
  | .ask i g request =>
    if (s.nodes i).initRcvd then ((s.nodes i).ask g request).map (s.send costs i) else none
  | .receive i g msg =>
    if msg ∈ s.flying ∧ (s.nodes i).initRcvd ∧
        (⟨msg.base.destHost, msg.base.destPort⟩ : HostAddress) = (s.nodes i).address then
      ((s.nodes i).nextSequenceNo.processMessage g msg).map
        (send costs { s with flying := s.flying.erase msg } i)
    else none
  | .lose msg =>
    if msg ∈ s.flying then
      some { s with flying := s.flying.erase msg, lost := s.lost ++ [msg] }
    else none

/-- The nodes before they are set up, each with an address of its own. -/
structure Starting (net : ℕ → Node) : Prop where
  distinct : ∀ i j, (net i).address = (net j).address → i = j
  initRcvd : ∀ i, (net i).initRcvd = false
  proactiveCache : ∀ i, (net i).peer.proactiveCache = LookupTable.empty
  indexTable : ∀ i, (net i).peer.indexTable = LookupTable.empty
  unresolvedGet : ∀ i, (net i).unresolvedGet = LookupTable.empty
  loggingQueue : ∀ i, (net i).loggingQueue = []

/-- The network of these nodes. -/
def system (net : ℕ → Node) (costs : ℕ → Costs) : TransitionSystem Overlay Event where
  init s := s = ⟨net, [], []⟩
  step := perform costs

end Overlay

/-! ## Requests as messages -/

inductive RequestKind where
  | get
  | put
  deriving DecidableEq, Repr

def Request.kind : Request → RequestKind
  | .get _ => .get
  | .put _ _ => .put
  | .getForClient _ => .get

/-- The name that a request is about. -/
def Request.name : Request → Bytes
  | .get name => name
  | .put name _ => name
  | .getForClient message => (splitAtDot message.deviceName).1

def PlexusMessage.kind : PlexusMessage → RequestKind
  | get _ => .get
  | put _ => .put

/-- The sender of a message. -/
def ABSMessage.source (m : ABSMessage) : HostAddress := ⟨m.sourceHost, m.sourcePort⟩

/-- Where a message goes. -/
def ABSMessage.dest (m : ABSMessage) : HostAddress := ⟨m.destHost, m.destPort⟩

/-- The message is a request of the node with the address `ha`, or a reply to one. -/
def OverlayMessage.concerns (kind : RequestKind) (ha : HostAddress) (name : Bytes) :
    OverlayMessage → Bool
  | request msg => kind = msg.kind ∧ msg.base.source = ha ∧ msg.deviceName = name
  | getReply msg => kind = .get ∧ msg.dest = ha ∧ msg.deviceName = name
  | putReply msg => kind = .put ∧ msg.dest = ha ∧ msg.deviceName = name
  | _ => false

/-- The entry logs the reply to a request. -/
def LogEntry.concerns (kind : RequestKind) (name : Bytes) : LogEntry → Bool
  | get _ _ _ _ _ _ _ deviceName _ => kind = .get ∧ deviceName = name
  | put _ _ _ _ _ _ deviceName _ => kind = .put ∧ deviceName = name

/-- The messages with which a gateway asks a home agent about a device. -/
def OverlayMessage.IsRetrieve : OverlayMessage → Prop
  | retrieve _ => True
  | retrieveReply _ => True
  | _ => False

namespace Node

variable {n n' : Node} {g : Uninitialised} {msg : OverlayMessage} {out : List OverlayMessage}

/-- The entry of `unresolved_get` for a client. -/
def clientIndex (message : PeerInitiateGET) : MessageStateIndex :=
  ⟨hashName (splitAtDot message.deviceName).1, message.sequenceNo.toInt32⟩

/-- `unresolved_get` when a request starts. -/
def unresolvedFor (n : Node) :
    Request → LookupTable MessageStateIndex (HostAddress × Bytes)
  | .getForClient message => n.unresolvedGet.add (clientIndex message)
      (⟨message.sourceHost, message.sourcePort⟩, (splitAtDot message.deviceName).2)
  | _ => n.unresolvedGet

/-- The request that a node starts with, and the node then. -/
structure Starts (n : Node) (r : Request) (n₀ : Node) (msg : PlexusMessage) : Prop where
  node : ∃ unresolvedGet, n₀ = { n.nextSequenceNo with unresolvedGet }
  kind : msg.kind = r.kind
  source : msg.base.source = n.address
  name : msg.deviceName = r.name
  ttl : msg.base.overlayTtl = 10
  srcOid : msg.base.srcOid = n.peer.overlayId
  hostAddress : ∀ name ha, r = .put name ha → ∃ m, msg = .put m ∧ m.hostAddress = ha
  unresolvedGet : n₀.unresolvedGet = n.unresolvedFor r

theorem ask_request {r : Request} (h : n.ask g r = some (n', out)) :
    ∃ n₀ msg, n.Starts r n₀ msg ∧ n₀.processRequest g msg = some (n', out) := by
  cases r with
  | get name =>
      obtain ⟨hash, -, h⟩ := Option.bind_eq_some_iff.mp h
      obtain ⟨targetOid, -, h⟩ := Option.bind_eq_some_iff.mp h
      exact ⟨_, _, ⟨⟨_, rfl⟩, rfl, rfl, rfl, rfl, rfl, nofun, rfl⟩, h⟩
  | put name ha =>
      obtain ⟨hash, -, h⟩ := Option.bind_eq_some_iff.mp h
      obtain ⟨targetOid, -, h⟩ := Option.bind_eq_some_iff.mp h
      refine ⟨_, _, ⟨⟨_, rfl⟩, rfl, rfl, rfl, rfl, rfl, ?_, rfl⟩, h⟩
      rintro _ _ ⟨⟩
      exact ⟨_, rfl, rfl⟩
  | getForClient message =>
      rw [ask, getForClient] at h
      dsimp only at h
      obtain ⟨targetOid, -, h⟩ := Option.bind_eq_some_iff.mp h
      exact ⟨_, _, ⟨⟨_, rfl⟩, rfl, rfl, rfl, rfl, rfl, nofun, rfl⟩, h⟩

/-- What no message changes. -/
structure Keeps (n n' : Node) : Prop where
  address : n'.address = n.address
  initRcvd : n'.initRcvd = n.initRcvd
  cacheStorage : n'.cacheStorage = n.cacheStorage
  cacheType : n'.cacheType = n.cacheType
  overlayId : n'.peer.overlayId = n.peer.overlayId
  routingTable : n'.peer.routingTable = n.peer.routingTable

theorem Keeps.trans {n'' : Node} (h : n.Keeps n') (h' : n'.Keeps n'') : n.Keeps n'' :=
  ⟨h'.address.trans h.address, h'.initRcvd.trans h.initRcvd,
    h'.cacheStorage.trans h.cacheStorage, h'.cacheType.trans h.cacheType,
    h'.overlayId.trans h.overlayId, h'.routingTable.trans h.routingTable⟩

theorem Starts.keeps {n₀ : Node} {r : Request} {msg : PlexusMessage} (h : n.Starts r n₀ msg) :
    n.Keeps n₀ := by
  obtain ⟨u, rfl⟩ := h.node
  exact ⟨rfl, rfl, rfl, rfl, rfl, rfl⟩

theorem keeps_cacheSender (n : Node) (m : ABSMessage) : n.Keeps (n.cacheSender m) := by
  rw [cacheSender]
  split
  · exact ⟨rfl, rfl, rfl, rfl, rfl, rfl⟩
  · exact ⟨rfl, rfl, rfl, rfl, rfl, rfl⟩

theorem keeps_announce (n : Node) (sourceHost : Bytes) (sourcePort : Int32) (srcOid : OverlayId)
    (ttl : UInt8) : n.Keeps (n.announce sourceHost sourcePort srcOid ttl).1 :=
  ⟨rfl, rfl, rfl, rfl, rfl, rfl⟩

theorem keeps_processCacheMe (n : Node) (m : ABSMessage) : n.Keeps (n.processCacheMe m).1 := by
  rw [processCacheMe]
  dsimp only
  split_ifs
  · exact (keeps_cacheSender n _).trans (keeps_announce _ _ _ _ _)
  · exact keeps_cacheSender n _
  · exact ⟨rfl, rfl, rfl, rfl, rfl, rfl⟩

theorem Turn.keeps (h : Turn n g msg n' out) : n.Keeps n' := by
  cases h with
  | cacheMe => exact keeps_processCacheMe n _
  | retrieveReply =>
      rw [processRetrieveReply]
      dsimp only
      split
      · exact ⟨rfl, rfl, rfl, rfl, rfl, rfl⟩
      · exact ⟨rfl, rfl, rfl, rfl, rfl, rfl⟩
  | _ => exact ⟨rfl, rfl, rfl, rfl, rfl, rfl⟩

/-! ## Replies and requests -/

/-- How often the node has logged a reply to a request of `ha`. -/
def logged (n : Node) (kind : RequestKind) (ha : HostAddress) (name : Bytes) : ℕ :=
  if ha = n.address then n.loggingQueue.countP (LogEntry.concerns kind name) else 0

variable {kind : RequestKind} {ha : HostAddress} {name : Bytes}

theorem logged_congr (haddress : n'.address = n.address)
    (hlog : n'.loggingQueue = n.loggingQueue) :
    n'.logged kind ha name = n.logged kind ha name := by
  rw [logged, logged, haddress, hlog]

theorem logged_log (cache : Cache) (entry : LogEntry) : (n.log cache entry).logged kind ha name =
    n.logged kind ha name + if ha = n.address ∧ entry.concerns kind name then 1 else 0 := by
  rw [logged, logged, show (n.log cache entry).address = n.address from rfl,
    show (n.log cache entry).loggingQueue = n.loggingQueue ++ [entry] from rfl,
    List.countP_append, List.countP_singleton]
  split_ifs <;> tauto

theorem concerns_announce (m : Node) (sourceHost : Bytes) (sourcePort : Int32) (srcOid : OverlayId)
    (ttl : UInt8) : (m.announce sourceHost sourcePort srcOid ttl).2.countP
      (OverlayMessage.concerns kind ha name) = 0 := by
  rw [List.countP_eq_zero]
  intro msg hmsg
  obtain ⟨e, -, rfl⟩ := List.mem_map.mp hmsg
  exact Bool.false_ne_true

theorem concerns_processCacheMe (n : Node) (m : ABSMessage) :
    (n.processCacheMe m).2.countP (OverlayMessage.concerns kind ha name) = 0 := by
  rw [processCacheMe]
  dsimp only
  split_ifs
  · exact concerns_announce _ _ _ _ _
  · rfl
  · rfl

theorem logged_processCacheMe (n : Node) (m : ABSMessage) :
    (n.processCacheMe m).1.logged kind ha name = n.logged kind ha name := by
  apply logged_congr (keeps_processCacheMe n m).address
  rw [processCacheMe]
  dsimp only
  split_ifs
  · rw [show ∀ a b c d, ((n.cacheSender m.decrementOverlayTtl).announce a b c d).1.loggingQueue =
      (n.cacheSender m.decrementOverlayTtl).loggingQueue from fun _ _ _ _ => rfl, cacheSender]
    split <;> rfl
  · rw [cacheSender]
    split <;> rfl
  · rfl

/-- **A turn accounts for its message**: a request goes on or is answered, a reply is logged. -/
theorem Turn.accounts (h : Turn n g msg n' out) (kind : RequestKind) (ha : HostAddress)
    (name : Bytes) (hstorage : n.cacheStorage = .endPoint) (hretrieve : ¬ msg.IsRetrieve) (hdest : msg.base.dest = n.address ∨ ∃ m, msg = .request m) :
    out.countP (OverlayMessage.concerns kind ha name) + n'.logged kind ha name =
      (if msg.concerns kind ha name then 1 else 0) + n.logged kind ha name := by
  have hrouted : ∀ {m m' : ABSMessage}, n.Routed m m' → m' = m := by
    rintro m m' (rfl | ⟨hpath, -⟩)
    · rfl
    · rw [hstorage] at hpath
      cases hpath
  have hlast : ∀ {k : RequestKind} {deviceName : Bytes},
      (ha = n.address ∧ kind = k ∧ deviceName = name) ↔
        (kind = k ∧ n.address = ha ∧ deviceName = name) :=
    ⟨fun ⟨h, hkind, hname⟩ => ⟨hkind, h.symm, hname⟩,
      fun ⟨hkind, h, hname⟩ => ⟨h.symm, hkind, hname⟩⟩
  cases h with
  | @forwardRequest msg cache hop oid httl =>
      rw [List.countP_singleton]
      cases msg <;> rfl
  | register cache hm =>
      rw [hrouted hm, List.countP_singleton]
      rfl
  | found cache hlookup hm =>
      rw [hrouted hm, List.countP_singleton]
      rfl
  | missing cache hlookup =>
      rw [List.countP_singleton]
      rfl
  | forwardGetReply cache hop oid hpath =>
      rw [hstorage] at hpath
      cases hpath
  | forwardPutReply cache hop oid hpath =>
      rw [hstorage] at hpath
      cases hpath
  | @logGetReply msg cache =>
      have haddress : msg.dest = n.address := hdest.resolve_right nofun
      rw [logged_log, List.countP_nil, Nat.zero_add, Nat.add_comm, OverlayMessage.concerns,
        LogEntry.concerns, haddress]
      simp only [decide_eq_true_eq]
      rw [if_congr hlast rfl rfl]
  | @logPutReply msg cache =>
      have haddress : msg.dest = n.address := hdest.resolve_right nofun
      rw [logged_log, List.countP_nil, Nat.zero_add, Nat.add_comm, OverlayMessage.concerns,
        LogEntry.concerns, haddress]
      simp only [decide_eq_true_eq]
      rw [if_congr hlast rfl rfl]
  | cacheMe =>
      rw [concerns_processCacheMe, logged_processCacheMe]
      rfl
  | retrieve => exact absurd trivial hretrieve
  | retrieveReply => exact absurd trivial hretrieve

end Node

namespace Overlay

open Node

variable {costs : ℕ → Costs} {net : ℕ → Node} {s s' : Overlay} {e : Event} {i j : ℕ}
  {tr : List (Transition Overlay Event)} {kind : RequestKind} {ha : HostAddress} {name : Bytes}

/-! ## Steps -/

/-- What an event does. -/
inductive Advances (costs : ℕ → Costs) (s : Overlay) : Event → Overlay → Prop
  | init (i : ℕ) (msg : PeerInitMessage) :
      Advances costs s (.init i msg) (s.send costs i ((s.nodes i).processInit msg))
  | ask {i : ℕ} {g : Uninitialised} {r : Request} {n₀ n' : Node} {msg : PlexusMessage}
      {out : List OverlayMessage} (hinit : (s.nodes i).initRcvd = true)
      (hstarts : (s.nodes i).Starts r n₀ msg) (hturn : Turn n₀ g (.request msg) n' out) :
      Advances costs s (.ask i g r) (s.send costs i (n', out))
  | receive {i : ℕ} {g : Uninitialised} {msg : OverlayMessage} {n' : Node}
      {out : List OverlayMessage} (hmem : msg ∈ s.flying) (hinit : (s.nodes i).initRcvd = true)
      (hdest : msg.base.dest = (s.nodes i).address)
      (hturn : Turn (s.nodes i).nextSequenceNo g msg n' out) :
      Advances costs s (.receive i g msg)
        (send costs { s with flying := s.flying.erase msg } i (n', out))
  | lose {msg : OverlayMessage} (hmem : msg ∈ s.flying) :
      Advances costs s (.lose msg)
        { s with flying := s.flying.erase msg, lost := s.lost ++ [msg] }

theorem perform_advances (h : s.perform costs e = some s') : Advances costs s e s' := by
  cases e with
  | init i msg =>
      cases h
      exact .init i msg
  | ask i g r =>
      rw [perform] at h
      split_ifs at h with hinit
      obtain ⟨⟨n', out⟩, hask, rfl⟩ := Option.map_eq_some_iff.mp h
      obtain ⟨n₀, msg, hstarts, hrequest⟩ := ask_request hask
      exact .ask hinit hstarts (processRequest_turn hrequest)
  | receive i g msg =>
      rw [perform] at h
      split_ifs at h with hguard
      obtain ⟨hmem, hinit, hdest⟩ := hguard
      obtain ⟨⟨n', out⟩, hprocess, rfl⟩ := Option.map_eq_some_iff.mp h
      exact .receive hmem hinit hdest (processMessage_turn hprocess)
  | lose msg =>
      rw [perform] at h
      split_ifs at h with hmem
      cases h
      exact .lose hmem

/-! ## Invariants of nodes and messages -/

/-- What each node and each message is on its own: every turn keeps it. -/
structure Local (costs : ℕ → Costs) (P : ℕ → Node → Prop) (Q : OverlayMessage → Prop) : Prop where
  setUp : ∀ {i n msg}, P i n → P i (n.processInit msg).1 ∧ ∀ m ∈ (n.processInit msg).2, Q m
  number : ∀ {i n}, P i n → P i n.nextSequenceNo
  start : ∀ {i n r n₀ msg}, P i n → n.Starts r n₀ msg → P i n₀ ∧ Q (.request msg)
  turn : ∀ {i n g msg n' out}, P i n → Q msg → Turn n g msg n' out → P i n' ∧ ∀ m ∈ out, Q m
  forward : ∀ {i msg}, Q msg → Q (msg.forwarded (costs i))

variable {P : ℕ → Node → Prop} {Q : OverlayMessage → Prop}

/-- The nodes and the messages, also those that have been lost, are as they should be. -/
structure Each (P : ℕ → Node → Prop) (Q : OverlayMessage → Prop) (s : Overlay) : Prop where
  nodes : ∀ i, P i (s.nodes i)
  flying : ∀ msg ∈ s.flying, Q msg
  lost : ∀ msg ∈ s.lost, Q msg

theorem Each.send (h : s.Each P Q) (hlocal : Local costs P Q) {n' : Node}
    {out : List OverlayMessage} (hturn : P i n' ∧ ∀ m ∈ out, Q m) :
    (s.send costs i (n', out)).Each P Q := by
  refine ⟨fun j => ?_, fun msg hmsg => ?_, h.lost⟩
  · show P j (Function.update s.nodes i n' j)
    rcases eq_or_ne j i with rfl | hne
    · rw [Function.update_self]
      exact hturn.1
    · rw [Function.update_of_ne hne]
      exact h.nodes j
  · rcases List.mem_append.mp hmsg with hmsg | hmsg
    · exact h.flying msg hmsg
    · obtain ⟨m, hm, rfl⟩ := List.mem_map.mp hmsg
      exact hlocal.forward (hturn.2 m hm)

theorem Each.advances (h : s.Each P Q) (hlocal : Local costs P Q) (hs : Advances costs s e s') :
    s'.Each P Q := by
  cases hs with
  | init i msg => exact h.send hlocal (hlocal.setUp (h.nodes i))
  | ask hinit hstarts hturn =>
      obtain ⟨hnode, hmsg⟩ := hlocal.start (h.nodes _) hstarts
      exact h.send hlocal (hlocal.turn hnode hmsg hturn)
  | @receive i g msg n' out hmem hinit hdest hturn =>
      have herased : Each P Q { s with flying := s.flying.erase msg } :=
        ⟨h.nodes, fun m hm => h.flying m (List.mem_of_mem_erase hm), h.lost⟩
      exact herased.send hlocal (hlocal.turn (hlocal.number (h.nodes i)) (h.flying msg hmem) hturn)
  | @lose msg hmem =>
      refine ⟨h.nodes, fun m hm => h.flying m (List.mem_of_mem_erase hm), fun m hm => ?_⟩
      rcases List.mem_append.mp hm with hm | hm
      · exact h.lost m hm
      · rw [List.mem_singleton.mp hm]
        exact h.flying msg hmem

/-- **The rule for local invariants.** -/
theorem Local.invariant (hlocal : Local costs P Q) (hnet : ∀ i, P i (net i))
    (h : Run (system net costs) tr s) : s.Each P Q := by
  apply h.invariant
  · rintro _ rfl
    exact ⟨hnet, fun _ hm => absurd hm List.not_mem_nil, fun _ hm => absurd hm List.not_mem_nil⟩
  · exact fun s e s' heach hstep => heach.advances hlocal (perform_advances hstep)

/-- What no event changes in a node: its address and the kind of its caches. -/
structure SameNode (n₀ n : Node) : Prop where
  address : n.address = n₀.address
  cacheStorage : n.cacheStorage = n₀.cacheStorage
  cacheType : n.cacheType = n₀.cacheType

theorem SameNode.keeps {n₀ n n' : Node} (h : SameNode n₀ n) (hkeeps : n.Keeps n') :
    SameNode n₀ n' :=
  ⟨hkeeps.address.trans h.address, hkeeps.cacheStorage.trans h.cacheStorage,
    hkeeps.cacheType.trans h.cacheType⟩

theorem SameNode.processInit {n₀ n : Node} (h : SameNode n₀ n) (msg : PeerInitMessage) :
    SameNode n₀ (n.processInit msg).1 := by
  rw [Node.processInit]
  dsimp only
  split_ifs
  · exact ⟨h.address, h.cacheStorage, h.cacheType⟩
  · exact ⟨h.address, h.cacheStorage, h.cacheType⟩

theorem not_isRetrieve_announce {n : Node} {sourceHost : Bytes} {sourcePort : Int32}
    {srcOid : OverlayId} {ttl : UInt8} {m : OverlayMessage}
    (hm : m ∈ (n.announce sourceHost sourcePort srcOid ttl).2) : ¬ m.IsRetrieve := by
  obtain ⟨e, -, rfl⟩ := List.mem_map.mp hm
  exact not_false

/-- No node asks a home agent about a device. -/
theorem local_sameNode : Local costs (fun i n => SameNode (net i) n) fun m => ¬ m.IsRetrieve where
  setUp {i n msg} h := by
    refine ⟨h.processInit msg, fun m hm => ?_⟩
    rw [Node.processInit] at hm
    dsimp only at hm
    split_ifs at hm
    · exact not_isRetrieve_announce hm
    · exact absurd hm List.not_mem_nil
  number h := ⟨h.address, h.cacheStorage, h.cacheType⟩
  start h hstarts := ⟨h.keeps hstarts.keeps, not_false⟩
  turn {i n g msg n' out} h hmsg hturn := by
    refine ⟨h.keeps hturn.keeps, ?_⟩
    cases hturn with
    | @cacheMe m =>
        intro m' hm
        rw [processCacheMe] at hm
        dsimp only at hm
        split_ifs at hm
        · exact not_isRetrieve_announce hm
        · exact absurd hm List.not_mem_nil
        · exact absurd hm List.not_mem_nil
    | retrieve => exact absurd trivial hmsg
    | retrieveReply => exact absurd trivial hmsg
    | logGetReply cache => exact List.forall_mem_nil _
    | logPutReply cache => exact List.forall_mem_nil _
    | _ => exact List.forall_mem_singleton.mpr not_false
  forward {i msg} h := by
    cases msg with
    | retrieve => exact absurd trivial h
    | retrieveReply => exact absurd trivial h
    | _ => exact not_false

theorem sameNodes (h : Run (system net costs) tr s) :
    s.Each (fun i n => SameNode (net i) n) fun m => ¬ m.IsRetrieve :=
  local_sameNode.invariant (fun _ => ⟨rfl, rfl, rfl⟩) h

/-! ## Requests are accounted for -/

/-- The event is a request of node `i`. -/
def Event.asks (i : ℕ) (kind : RequestKind) (name : Bytes) : Event → Bool
  | ask j _ r => j = i ∧ r.kind = kind ∧ r.name = name
  | _ => false

@[simp] theorem concerns_forwarded (c : Costs) (msg : OverlayMessage) :
    (msg.forwarded c).concerns kind ha name = msg.concerns kind ha name := by
  cases msg with
  | request msg => cases msg <;> rfl
  | _ => rfl

theorem countP_forwarded (c : Costs) (out : List OverlayMessage) :
    (out.map (OverlayMessage.forwarded c)).countP (OverlayMessage.concerns kind ha name) =
      out.countP (OverlayMessage.concerns kind ha name) := by
  rw [List.countP_map]
  exact List.countP_congr fun msg _ => by rw [Function.comp_apply, concerns_forwarded]

/-- The requests of node `i` that are on their way, those that have been lost, and those that
have been answered. -/
def requests (s : Overlay) (kind : RequestKind) (ha : HostAddress) (name : Bytes) (i : ℕ) : ℕ :=
  s.flying.countP (OverlayMessage.concerns kind ha name) +
    s.lost.countP (OverlayMessage.concerns kind ha name) + (s.nodes i).logged kind ha name

/-- A node after a turn: the other nodes do not log replies to `ha`. -/
theorem requests_send (costs : ℕ → Costs) {r : Node × List OverlayMessage} {a : ℕ}
    (hdistinct : ∀ j, (s.nodes j).address = ha → j = i)
    (haddress : r.1.address = (s.nodes j).address)
    (h : r.2.countP (OverlayMessage.concerns kind ha name) + r.1.logged kind ha name =
      a + (s.nodes j).logged kind ha name) :
    (s.send costs j r).requests kind ha name i = s.requests kind ha name i + a := by
  rw [requests, requests, send]
  dsimp only
  rw [List.countP_append, countP_forwarded]
  rcases eq_or_ne i j with rfl | hne
  · rw [Function.update_self]
    omega
  · have hother : (s.nodes j).logged kind ha name = 0 :=
      if_neg fun heq => hne (hdistinct j heq.symm).symm
    have hother' : r.1.logged kind ha name = 0 :=
      if_neg fun heq => hne (hdistinct j (heq.trans haddress).symm).symm
    rw [Function.update_of_ne hne]
    omega

theorem countP_erase_add {flying : List OverlayMessage} {msg : OverlayMessage} (hmem : msg ∈ flying)
    (p : OverlayMessage → Bool) :
    (flying.erase msg).countP p + (if p msg then 1 else 0) = flying.countP p := by
  rw [(List.perm_cons_erase hmem).countP_eq, List.countP_cons]

theorem accounts_processInit (kind : RequestKind) (ha : HostAddress) (name : Bytes) (n : Node)
    (msg : PeerInitMessage) :
    (n.processInit msg).2.countP (OverlayMessage.concerns kind ha name) = 0 ∧
      (n.processInit msg).1.logged kind ha name = n.logged kind ha name := by
  rw [Node.processInit]
  dsimp only
  split_ifs
  · exact ⟨concerns_announce _ _ _ _ _, rfl⟩
  · exact ⟨rfl, rfl⟩

/-- **An event accounts for the requests.** -/
theorem requests_advances (hstorage : ∀ j, (s.nodes j).cacheStorage = .endPoint)
    (hretrieve : ∀ m ∈ s.flying, ¬ m.IsRetrieve) (hi : (s.nodes i).address = ha)
    (hdistinct : ∀ j, (s.nodes j).address = ha → j = i) (hs : Advances costs s e s') :
    s'.requests kind ha name i =
      s.requests kind ha name i + if e.asks i kind name then 1 else 0 := by
  cases hs with
  | init j msg =>
      obtain ⟨hout, hlogged⟩ := accounts_processInit kind ha name (s.nodes j) msg
      have hsame : SameNode (s.nodes j) ((s.nodes j).processInit msg).1 :=
        SameNode.processInit ⟨rfl, rfl, rfl⟩ msg
      exact requests_send costs hdistinct hsame.address (by rw [hout, hlogged]; rfl)
  | @ask j g r n₀ n' msg out hinit hstarts hturn =>
      have hturn' := hturn.accounts kind ha name
        (hstarts.keeps.cacheStorage.trans (hstorage j)) not_false (Or.inr ⟨msg, rfl⟩)
      have hlogged : n₀.logged kind ha name = (s.nodes j).logged kind ha name := by
        obtain ⟨u, rfl⟩ := hstarts.node
        exact logged_congr rfl rfl
      have hasks : (OverlayMessage.request msg).concerns kind ha name =
          Event.asks i kind name (.ask j g r) := by
        rw [OverlayMessage.concerns, Event.asks, hstarts.kind, hstarts.source, hstarts.name,
          decide_eq_decide, eq_comm (a := kind)]
        exact ⟨fun ⟨hkind, haddress, hname⟩ => ⟨hdistinct j haddress, hkind, hname⟩,
          fun ⟨hj, hkind, hname⟩ => ⟨hkind, by rw [hj, hi], hname⟩⟩
      rw [← hasks]
      rw [hlogged] at hturn'
      exact requests_send costs hdistinct (hturn.keeps.address.trans hstarts.keeps.address) hturn'
  | @receive j g msg n' out hmem hinit hdest hturn =>
      have hturn' := hturn.accounts kind ha name (hstorage j)
        (hretrieve msg hmem) (Or.inl hdest)
      have hlogged : (s.nodes j).nextSequenceNo.logged kind ha name =
          (s.nodes j).logged kind ha name := logged_congr rfl rfl
      rw [hlogged] at hturn'
      have hsend := requests_send costs (s := { s with flying := s.flying.erase msg })
        (j := j) (r := (n', out)) hdistinct hturn.keeps.address hturn'
      have hflying := countP_erase_add hmem (OverlayMessage.concerns kind ha name)
      rw [hsend, show Event.asks i kind name (.receive j g msg) = false from rfl,
        if_neg Bool.false_ne_true, requests, requests]
      dsimp only
      omega
  | @lose msg hmem =>
      have hflying := countP_erase_add hmem (OverlayMessage.concerns kind ha name)
      rw [show Event.asks i kind name (.lose msg) = false from rfl, if_neg Bool.false_ne_true,
        requests, requests]
      dsimp only
      rw [List.countP_append, List.countP_singleton]
      omega

/-- **Every request is accounted for**: with the cache storage `end_point`, the requests that a
node has made for a name are those on their way to an answer, as requests or as replies, those
that have been lost, and those whose reply the node has logged, each of them once. -/
theorem requests_accounted (hnet : Starting net) (hstorage : ∀ i, (net i).cacheStorage = .endPoint)
    (h : Run (system net costs) tr s) (i : ℕ) (kind : RequestKind) (name : Bytes) :
    tr.countP (fun t => t.event.asks i kind name) =
      s.flying.countP (OverlayMessage.concerns kind (net i).address name) +
        s.lost.countP (OverlayMessage.concerns kind (net i).address name) +
        (s.nodes i).loggingQueue.countP (LogEntry.concerns kind name) := by
  have hcount : s.requests kind (net i).address name i =
      tr.countP fun t => t.event.asks i kind name := by
    apply h.invariant_trace (J := fun tr s => s.requests kind (net i).address name i =
      tr.countP fun t => t.event.asks i kind name)
    · rintro _ rfl
      show 0 + 0 + (net i).logged kind (net i).address name = 0
      rw [logged, if_pos rfl, hnet.loggingQueue i]
      rfl
    · intro tr s e s' hrun ih hstep
      have hsame := sameNodes hrun
      rw [requests_advances (fun j => (hsame.nodes j).cacheStorage.trans (hstorage j)) hsame.flying
        (hsame.nodes i).address
        (fun j hj => hnet.distinct j i ((hsame.nodes j).address.symm.trans hj))
        (perform_advances hstep), ih, List.countP_append, List.countP_singleton]
  rw [← hcount, requests, logged, if_pos ((sameNodes h).nodes i).address.symm]

/-! ## Three nodes in a line -/

/-- A node that has not been set up. -/
def newNode (i : ℕ) : Node where
  hostName := List.replicate i 97
  listenPortNumber := 1
  initRcvd := false
  cacheStorage := .endPoint
  cacheType := .proactive
  peer := ⟨⟨0, 0, 0⟩, LookupTable.empty, LookupTable.empty, Cache.new 0, LookupTable.empty⟩
  nameDb := LookupTable.empty
  unresolvedGet := LookupTable.empty
  loggingQueue := []
  sequenceNo := 0

theorem starting_newNode : Starting newNode where
  distinct i j h := by
    have hlength := congrArg (fun ha => ha.hostName.length) h
    simpa [Node.address, newNode] using hlength
  initRcvd _ := rfl
  proactiveCache _ := rfl
  indexTable _ := rfl
  unresolvedGet _ := rfl
  loggingQueue _ := rfl

def lineId (i : ℕ) : OverlayId := ⟨if i = 0 then 0 else if i = 1 then 2048 else 3072, 2, 12⟩

/-- The messages that set up three nodes; the routing table of the second one leads to the others,
and theirs lead to it. -/
def lineMessage (i : ℕ) : PeerInitMessage where
  toABSMessage := .init msgPeerInit 0 [] 0 ⟨0, 0, 0⟩ (lineId i)
  routingTable :=
    if i = 1 then
      (LookupTable.empty.add (lineId 0) (newNode 0).address).add (lineId 2) (newNode 2).address
    else LookupTable.empty.add (lineId 1) (newNode 1).address
  nPeers := 3
  k := 2
  alpha := 0
  publishNameRangeStart := 0
  publishNameRangeEnd := 0
  lookupNameRangeStart := 0
  lookupNameRangeEnd := 0
  webserverPort := 0
  runSequenceNo := 0
  logServerName := []
  logServerUser := []
  peerName := []

def blank : Uninitialised := ⟨⟨0, 0, 0⟩, 0, 0, 0, 0⟩

def noCosts (_ : ℕ) : Costs := ⟨fun _ => 0, fun _ latency => latency⟩

/-- A node of the line is set up. -/
def setUp (s : Overlay) (i : ℕ) : Overlay :=
  s.send noCosts i ((s.nodes i).processInit (lineMessage i))

def lineTrace : List (Transition Overlay Event) :=
  let s : Overlay := ⟨newNode, [], []⟩
  [⟨s, .init 0 (lineMessage 0), s.setUp 0⟩,
    ⟨s.setUp 0, .init 1 (lineMessage 1), (s.setUp 0).setUp 1⟩,
    ⟨(s.setUp 0).setUp 1, .init 2 (lineMessage 2), ((s.setUp 0).setUp 1).setUp 2⟩]

def lineUp : Overlay := ((setUp ⟨newNode, [], []⟩ 0).setUp 1).setUp 2

theorem run_lineUp : Run (system newNode noCosts) lineTrace lineUp := by
  have hsetUp : ∀ s i, (system newNode noCosts).step s (.init i (lineMessage i)) =
      some (s.setUp i) := fun _ _ => rfl
  exact (((Run.start rfl).extend (hsetUp _ 0)).extend (hsetUp _ 1)).extend (hsetUp _ 2)

theorem ofPattern_zero : OverlayId.ofPattern 0 = some ⟨0, 12, 12⟩ := by
  obtain ⟨t, hdecodes, hdecode, -⟩ := Golay.decodeGolay_spec
  have hcode : Golay.syndrome 0 = 0 := Golay.syndrome_of_lt (by decide)
  have hzero : 0 ^^^ t (Golay.syndrome 0) = 0 :=
    hdecodes.correct hcode (Nat.two_pow_pos 23) (by decide)
  have hresult := hdecode 0 (by decide)
  rw [hzero] at hresult
  exact congrArg (Option.map _) hresult

/-- A registration of the name `0`. -/
theorem perform_put (hinit : (s.nodes i).initRcvd = true) (costs : ℕ → Costs) (g : Uninitialised)
    (ha : HostAddress) : s.perform costs (.ask i g (.put [48] ha)) =
      ((s.nodes i).nextSequenceNo.processRequest g
        (.put { (s.nodes i).newMessage msgPlexusPut g.oid with
          targetOid := ⟨0, 12, 12⟩, deviceName := [48], hostAddress := ha })).map
        (s.send costs i) := by
  have hoid : OverlayId.ofPattern (0 : Int32).toInt64 = some ⟨0, 12, 12⟩ := ofPattern_zero
  rw [perform, if_pos hinit, Node.ask, Node.put, show atoi [48] = some 0 by decide,
    Option.bind_eq_bind, Option.bind_some, hoid]
  rfl

/-- The registration as it leaves the second node, and its reply. -/
def lineRequest : OverlayMessage := .request (.put
  { ABSMessage.init msgPlexusPut 2 [97] 1 (lineId 1) (lineId 0) with
    destPort := 1
    overlayHops := 1
    overlayTtl := 9
    targetOid := ⟨0, 12, 12⟩
    deviceName := [48]
    hostAddress := ⟨[98], 2⟩ })

def lineReply : OverlayMessage := .putReply
  { ABSMessage.init msgPlexusPutReply 2 [] 1 (lineId 0) ⟨0, 0, 0⟩ with
    destHost := [97]
    destPort := 1
    overlayHops := 1
    resolutionStatus := success
    resolutionHops := 1
    resolutionIpHops := 0
    resolutionLatency := 0
    originSeqNo := 2
    targetOid := lineId 1
    deviceName := [48] }

/-- A registration at the second node, which the first one answers. -/
def lineEvents : List Event :=
  [.ask 1 blank (.put [48] ⟨[98], 2⟩), .receive 0 blank lineRequest, .receive 1 blank lineReply]

theorem exec_cons (s : Overlay) (e : Event) (es : List Event) :
    (system net costs).exec s (e :: es) =
      (s.perform costs e).bind fun s' => (system net costs).exec s' es := by
  have hstep : (system net costs).step s e = s.perform costs e := rfl
  rw [TransitionSystem.exec, hstep]
  cases s.perform costs e with
  | none => rfl
  | some s' => rfl

theorem isSome_lineEvents : ((system newNode noCosts).exec lineUp lineEvents).isSome = true := by
  rw [lineEvents, exec_cons, perform_put rfl]
  decide +kernel

/-- The registration is logged. -/
theorem line_accounted : ∃ tr s, Run (system newNode noCosts) (lineTrace ++ tr) s ∧
    tr.map Transition.event = lineEvents ∧
    (lineTrace ++ tr).countP (fun t => t.event.asks 1 .put [48]) =
      s.flying.countP (OverlayMessage.concerns .put (newNode 1).address [48]) +
        s.lost.countP (OverlayMessage.concerns .put (newNode 1).address [48]) +
        (s.nodes 1).loggingQueue.countP (LogEntry.concerns .put [48]) := by
  obtain ⟨s, hs⟩ := Option.isSome_iff_exists.mp isSome_lineEvents
  obtain ⟨tr, hrun, hevents⟩ := run_lineUp.exec_extends hs
  exact ⟨tr, s, hrun, hevents,
    requests_accounted starting_newNode (fun _ => rfl) hrun 1 .put [48]⟩

end Overlay

end Klink
