/-
# Forwarding in the overlay (`plnode/protocol/plexus`)

`PlexusMessageProcessor::processMessage` either forwards a lookup or a registration to
another node or answers it.  `PlexusProtocol::setNextHop` decides: it looks for the
identifier that matches the target best among the keys of the routing table and of the
caches, and gives up if the node itself matches better.

`none` stands for the use of a variable that has not been initialised, for a bad pointer
in the cache, and for a walk over the cache that does not end.
-/
import Pweb.Foundation.FirstMaximum
import Pweb.Klink.Cache
import Pweb.Klink.NameDb
import Pweb.Klink.OverlayId

namespace Klink

open FirstMaximum

/-! ## Messages -/

/-- `MessageGET`. -/
structure MessageGET extends ABSMessage where
  targetOid : OverlayId
  deviceName : Bytes
  deriving DecidableEq, Repr

/-- `MessagePUT`. -/
structure MessagePUT extends ABSMessage where
  targetOid : OverlayId
  deviceName : Bytes
  hostAddress : HostAddress
  deriving DecidableEq, Repr

/-- The common part of a new message; nothing sets `dst_oid`, which `get` and `put` leave out. -/
def ABSMessage.init (messageType : UInt8) (sequenceNo : UInt32) (sourceHost : Bytes)
    (sourcePort : Int32) (srcOid dstOid : OverlayId) : ABSMessage where
  messageType := messageType
  sequenceNo := sequenceNo
  destHost := []
  destPort := -1
  sourceHost := sourceHost
  sourcePort := sourcePort
  overlayHops := 0
  overlayTtl := 10
  ipHops := 0
  latency := 0
  dstOid := dstOid
  srcOid := srcOid

/-- The messages that travel towards a target. -/
inductive PlexusMessage where
  | get (msg : MessageGET)
  | put (msg : MessagePUT)
  deriving DecidableEq, Repr

namespace PlexusMessage

def base : PlexusMessage → ABSMessage
  | get msg => msg.toABSMessage
  | put msg => msg.toABSMessage

def targetOid : PlexusMessage → OverlayId
  | get msg => msg.targetOid
  | put msg => msg.targetOid

def deviceName : PlexusMessage → Bytes
  | get msg => msg.deviceName
  | put msg => msg.deviceName

/-- Assigning members of `ABSMessage`. -/
def setBase (f : ABSMessage → ABSMessage) : PlexusMessage → PlexusMessage
  | get msg => get { msg with toABSMessage := f msg.toABSMessage }
  | put msg => put { msg with toABSMessage := f msg.toABSMessage }

/-- `decrementOverlayTtl`. -/
def decrementOverlayTtl (msg : PlexusMessage) : PlexusMessage :=
  msg.setBase fun m => { m with overlayTtl := m.overlayTtl - 1 }

/-- `setDestHost`, `setDestPort` and `setDstOid`. -/
def setDest (msg : PlexusMessage) (nextHop : HostAddress) (nextOid : OverlayId) : PlexusMessage :=
  msg.setBase fun m => { m with
    destHost := nextHop.copied.hostName, destPort := nextHop.hostPort, dstOid := nextOid }

end PlexusMessage

/-! ## The next hop -/

/-- What a node of the overlay needs to forward and to answer messages. -/
structure Peer where
  overlayId : OverlayId
  routingTable : LookupTable OverlayId HostAddress
  proactiveCache : LookupTable OverlayId HostAddress
  cache : Cache
  indexTable : LookupTable Bytes HostAddress

/-- The node is asked for a name that it knows. -/
def Peer.knows (p : Peer) : PlexusMessage → Bool
  | .get msg => (p.indexTable.lookup msg.deviceName).isSome
  | .put _ => false

/-- `maxLengthMatch`, `next_oid` and `next_hop`; the identifier is not initialised at first. -/
structure NextHop where
  maxLengthMatch : ℤ
  nextOid : Option OverlayId
  nextHop : HostAddress

/-- The loop over the keys of a table. -/
def matchKeys (targetOid : OverlayId) (table : LookupTable OverlayId HostAddress)
    (best : ℤ × Option OverlayId) : ℤ × Option OverlayId :=
  table.table.foldl (improve (fun e => targetOid.getMatchedPrefixLength e.1) fun e => some e.1) best

/-- The search in the routing table. -/
def searchRoutingTable (targetOid : OverlayId) (routingTable : LookupTable OverlayId HostAddress) :
    NextHop :=
  let best := matchKeys targetOid routingTable (0, none)
  ⟨best.1, best.2, (best.2.bind routingTable.lookup).getD ⟨[], -1⟩⟩

/-- The search in the proactive cache; a longer match is a cache hit. -/
def searchProactiveCache (targetOid : OverlayId)
    (proactiveCache : LookupTable OverlayId HostAddress) (hop : NextHop) : NextHop :=
  let best := matchKeys targetOid proactiveCache (hop.maxLengthMatch, hop.nextOid)
  if hop.maxLengthMatch < best.1 then
    ⟨best.1, best.2, (best.2.bind proactiveCache.lookup).getD hop.nextHop⟩
  else
    hop

/-- The search in the cache, from the node on at which the iterator is; it moves on before the
node is moved to the head of the list. -/
def searchCache (targetOid : OverlayId) :
    ℕ → Option ℕ → Cache → NextHop → Option (Cache × NextHop)
  | _, none, cache, hop => some (cache, hop)
  | 0, some _, _, _ => none
  | rounds + 1, some current, cache, hop => do
    let node ← cache.dll.nodes current
    let currentMatchLength := targetOid.getMatchedPrefixLength node.key
    if currentMatchLength > hop.maxLengthMatch then do
      let (cache, found) ← cache.lookup node.key
      searchCache targetOid rounds node.next cache
        ⟨currentMatchLength, some node.key, found.getD hop.nextHop⟩
    else
      searchCache targetOid rounds node.next cache hop

/-- `setNextHop` for a `MessageGET` or a `MessagePUT`.  The walk over the cache is given as many
rounds as nodes have been made. -/
def setNextHop (p : Peer) (msg : PlexusMessage) : Option (Bool × Peer × PlexusMessage) :=
  if msg.base.overlayTtl = 0 then some (false, p, msg)
  else if p.knows msg then some (false, p, msg)
  else do
    let currentNodeMatchLength := p.overlayId.getMatchedPrefixLength msg.base.dstOid
    let hop := searchProactiveCache msg.targetOid p.proactiveCache
      (searchRoutingTable msg.targetOid p.routingTable)
    let (cache, hop) ← searchCache msg.targetOid p.cache.fresh p.cache.dll.head p.cache hop
    let p := { p with cache }
    if hop.maxLengthMatch = 0 ∨ hop.maxLengthMatch < currentNodeMatchLength then
      return (false, p, msg)
    else do
      let nextOid ← hop.nextOid
      return (true, p, msg.setDest hop.nextHop nextOid)

/-! ## Processing a message -/

/-- `SUCCESS`. -/
def success : Int32 := 0

/-- `ERROR_GET_FAILED`. -/
def errorGetFailed : Int32 := -108

/-- What a node does with a message: it forwards it, or replies with a status, for a lookup with
an address, and with the name. -/
inductive Action where
  | forward (msg : PlexusMessage)
  | putReply (resolutionStatus : Int32) (deviceName : Bytes)
  | getReply (resolutionStatus : Int32) (hostAddress : HostAddress) (deviceName : Bytes)
  deriving DecidableEq, Repr

/-- The message is not forwarded. -/
def answer (p : Peer) : PlexusMessage → Peer × Action
  | .put msg => ({ p with indexTable := p.indexTable.add msg.deviceName msg.hostAddress },
      .putReply success msg.deviceName)
  | .get msg =>
    match p.indexTable.lookup msg.deviceName with
    | some hostAddress => (p, .getReply success hostAddress msg.deviceName)
    | none => (p, .getReply errorGetFailed ⟨[], -1⟩ msg.deviceName)

/-- `processMessage`. -/
def processMessage (p : Peer) (msg : PlexusMessage) : Option (Peer × Action) := do
  let (forward, p, msg) ← setNextHop p msg.decrementOverlayTtl
  if forward then return (p, .forward msg)
  else return answer p msg

variable {p p' : Peer} {msg msg' : PlexusMessage} {targetOid : OverlayId}
  {rt : LookupTable OverlayId HostAddress} {e f : OverlayId × HostAddress}

/-! ## What changes on the way -/

theorem answer_ne_forward (p : Peer) (msg msg' : PlexusMessage) :
    (answer p msg).2 ≠ .forward msg' := by
  rcases msg with msg | msg
  · rw [answer]
    split
    · exact nofun
    · exact nofun
  · exact nofun

@[simp] theorem base_setBase (f : ABSMessage → ABSMessage) :
    (msg.setBase f).base = f msg.base := by cases msg <;> rfl

@[simp] theorem targetOid_setBase (f : ABSMessage → ABSMessage) :
    (msg.setBase f).targetOid = msg.targetOid := by cases msg <;> rfl

@[simp] theorem knows_setBase (f : ABSMessage → ABSMessage) :
    p.knows (msg.setBase f) = p.knows msg := by cases msg <;> rfl

@[simp] theorem answer_setBase (f : ABSMessage → ABSMessage) :
    answer p (msg.setBase f) = answer p msg := by cases msg <;> rfl

/-- A lookup of a name that the node knows. -/
theorem answer_get {msg : MessageGET} {hostAddress : HostAddress}
    (h : p.indexTable.lookup msg.deviceName = some hostAddress) :
    answer p (.get msg) = (p, .getReply success hostAddress msg.deviceName) := by
  rw [answer, h]

/-- Only the common part of a message changes on its way. -/
theorem setBase_of_setNextHop {b : Bool} (h : setNextHop p msg = some (b, p', msg')) :
    ∃ f, msg' = msg.setBase f := by
  have hid : ∃ f, msg = msg.setBase f := ⟨id, by cases msg <;> rfl⟩
  rw [setNextHop] at h
  split_ifs at h with httl hknows
  · cases h
    exact hid
  · cases h
    exact hid
  · obtain ⟨⟨cache, hop⟩, -, h⟩ := Option.bind_eq_some_iff.mp h
    dsimp only at h
    split_ifs at h with hstay
    · cases h
      exact hid
    · obtain ⟨nextOid, -, h⟩ := Option.bind_eq_some_iff.mp h
      cases h
      exact ⟨_, rfl⟩

theorem setBase_of_forward (h : processMessage p msg = some (p', .forward msg')) :
    ∃ f, msg' = msg.setBase f := by
  rw [processMessage] at h
  obtain ⟨⟨forward, p'', msg''⟩, hhop, h⟩ := Option.bind_eq_some_iff.mp h
  obtain ⟨f, rfl⟩ := setBase_of_setNextHop hhop
  dsimp only at h
  split_ifs at h with hforward
  · cases h
    refine ⟨f ∘ fun m => { m with overlayTtl := m.overlayTtl - 1 }, ?_⟩
    cases msg <;> rfl
  · exact absurd (congrArg Prod.snd (Option.some_inj.mp h)) (answer_ne_forward _ _ _)

/-! ## With empty caches -/

/-- The caches of the node are empty. -/
structure Peer.NoCaches (p : Peer) : Prop where
  proactiveCache : p.proactiveCache = LookupTable.empty
  cache : ∃ capacity, p.cache = Cache.new capacity

/-- The entry of a table that matches the target best, and the first of these. -/
structure FirstBest (targetOid : OverlayId) (rt : LookupTable OverlayId HostAddress)
    (e : OverlayId × HostAddress) : Prop where
  mem : e ∈ rt.table
  le : ∀ f ∈ rt.table,
    targetOid.getMatchedPrefixLength f.1 ≤ targetOid.getMatchedPrefixLength e.1
  first : ∀ f ∈ rt.table, MapKey.rank f.1 < MapKey.rank e.1 →
    targetOid.getMatchedPrefixLength f.1 < targetOid.getMatchedPrefixLength e.1

theorem FirstBest.unique (he : FirstBest targetOid rt e) (hf : FirstBest targetOid rt f) :
    e = f := by
  apply LookupTable.eq_of_rank_eq he.mem hf.mem
  rcases lt_trichotomy (MapKey.rank e.1) (MapKey.rank f.1) with hlt | heq | hgt
  · exact absurd (hf.first e he.mem hlt) (he.le f hf.mem).not_gt
  · exact heq
  · exact absurd (he.first f hf.mem hgt) (hf.le e he.mem).not_gt

theorem FirstBest.of_singleton (h : rt.table = [e]) : FirstBest targetOid rt e := by
  refine ⟨by rw [h]; exact List.mem_singleton_self e, fun f hf => ?_, fun f hf hlt => ?_⟩
  · rw [h, List.mem_singleton] at hf
    rw [hf]
  · rw [h, List.mem_singleton] at hf
    rw [hf] at hlt
    exact absurd hlt (lt_irrefl _)

/-- The match that a hop has to reach. -/
def required (p : Peer) (msg : PlexusMessage) : ℤ :=
  max 1 (p.overlayId.getMatchedPrefixLength msg.base.dstOid)

theorem searchRoutingTable_cases (targetOid : OverlayId)
    (rt : LookupTable OverlayId HostAddress) :
    (searchRoutingTable targetOid rt = ⟨0, none, ⟨[], -1⟩⟩ ∧
      ∀ e ∈ rt.table, targetOid.getMatchedPrefixLength e.1 ≤ 0) ∨
    ∃ e, FirstBest targetOid rt e ∧ 0 < targetOid.getMatchedPrefixLength e.1 ∧
      searchRoutingTable targetOid rt =
        ⟨targetOid.getMatchedPrefixLength e.1, some e.1, e.2⟩ := by
  rw [searchRoutingTable, matchKeys]
  rcases foldl_improve (fun e => targetOid.getMatchedPrefixLength e.1) (fun e => some e.1) rt.table
    (0, none) with ⟨heq, hnone⟩ | ⟨e, himproves, heq⟩
  · left
    rw [heq]
    exact ⟨rfl, hnone⟩
  · right
    refine ⟨e, ⟨himproves.mem, fun f hf => himproves.le hf, fun f hf hlt => ?_⟩, himproves.lt, ?_⟩
    · exact himproves.lt_of_rank_lt rt.sorted hf hlt
    · rw [heq, Option.bind_some, LookupTable.lookup_of_mem himproves.mem]
      rfl

theorem searchProactiveCache_of_noCaches (hp : p.NoCaches) (targetOid : OverlayId)
    (hop : NextHop) : searchProactiveCache targetOid p.proactiveCache hop = hop := by
  rw [hp.proactiveCache]
  exact if_neg (lt_irrefl hop.maxLengthMatch)

theorem searchCache_of_noCaches (hp : p.NoCaches) (targetOid : OverlayId) (hop : NextHop) :
    searchCache targetOid p.cache.fresh p.cache.dll.head p.cache hop = some (p.cache, hop) := by
  obtain ⟨capacity, hcache⟩ := hp.cache
  rw [hcache]
  rfl

/-- The searches in empty caches change nothing. -/
theorem setNextHop_of_noCaches (hp : p.NoCaches) (httl : msg.base.overlayTtl ≠ 0)
    (hknows : p.knows msg = false) : setNextHop p msg =
      let hop := searchRoutingTable msg.targetOid p.routingTable
      if hop.maxLengthMatch = 0 ∨
          hop.maxLengthMatch < p.overlayId.getMatchedPrefixLength msg.base.dstOid then
        some (false, p, msg)
      else hop.nextOid.map fun nextOid => (true, p, msg.setDest hop.nextHop nextOid) := by
  rw [setNextHop, if_neg httl, if_neg (Bool.eq_false_iff.mp hknows),
    searchProactiveCache_of_noCaches hp]
  dsimp only
  rw [searchCache_of_noCaches hp, Option.bind_eq_bind, Option.bind_some]
  dsimp only
  split_ifs with hstay
  · rfl
  · exact Option.map_eq_bind.symm

/-- **The next hop** with empty caches: the message stays if the match of no entry of the routing
table is as long as required, and goes to the first of the best entries otherwise. -/
theorem setNextHop_cases (hp : p.NoCaches) (httl : msg.base.overlayTtl ≠ 0)
    (hknows : p.knows msg = false) :
    (setNextHop p msg = some (false, p, msg) ∧
      ∀ e ∈ p.routingTable.table, msg.targetOid.getMatchedPrefixLength e.1 < required p msg) ∨
    ∃ e, FirstBest msg.targetOid p.routingTable e ∧
      required p msg ≤ msg.targetOid.getMatchedPrefixLength e.1 ∧
      setNextHop p msg = some (true, p, msg.setDest e.2 e.1) := by
  rw [setNextHop_of_noCaches hp httl hknows]
  rcases searchRoutingTable_cases msg.targetOid p.routingTable with ⟨hhop, hnone⟩ |
    ⟨e, he, hpos, hhop⟩
  · left
    rw [hhop]
    refine ⟨if_pos (Or.inl rfl), fun e he => ?_⟩
    exact (hnone e he).trans_lt (lt_max_of_lt_left one_pos)
  · rw [hhop]
    dsimp only
    split_ifs with hstay
    · left
      refine ⟨rfl, fun f hf => (he.le f hf).trans_lt (lt_max_of_lt_right ?_)⟩
      omega
    · right
      exact ⟨e, he, max_le (by omega) (by omega), rfl⟩

/-! ## Processing with empty caches -/

/-- The message that goes to an entry of the routing table. -/
def PlexusMessage.hopTo (msg : PlexusMessage) (e : OverlayId × HostAddress) : PlexusMessage :=
  msg.decrementOverlayTtl.setDest e.2 e.1

theorem setNextHop_of_stop (h : msg.base.overlayTtl = 0 ∨ p.knows msg = true) :
    setNextHop p msg = some (false, p, msg) := by
  rw [setNextHop]
  split_ifs with httl hknows
  · rfl
  · rfl
  · exact absurd h (not_or.mpr ⟨httl, hknows⟩)

/-- A node answers a message whose time to live runs out, and one that asks for a name it knows. -/
theorem processMessage_of_stop (h : msg.base.overlayTtl = 1 ∨ p.knows msg = true) :
    processMessage p msg = some (answer p msg) := by
  have hstop : setNextHop p msg.decrementOverlayTtl = some (false, p, msg.decrementOverlayTtl) := by
    apply setNextHop_of_stop
    rw [PlexusMessage.decrementOverlayTtl, base_setBase, knows_setBase]
    exact h.imp_left fun httl => by rw [httl]; rfl
  rw [processMessage, hstop, ← answer_setBase]
  rfl

/-- **A message at a node** with empty caches is answered if no entry of the routing table is good
enough, and otherwise goes to the first of the best entries. -/
theorem processMessage_cases (hp : p.NoCaches) (httl : msg.base.overlayTtl ≠ 1)
    (hknows : p.knows msg = false) :
    (processMessage p msg = some (answer p msg) ∧
      ∀ e ∈ p.routingTable.table, msg.targetOid.getMatchedPrefixLength e.1 < required p msg) ∨
    ∃ e, FirstBest msg.targetOid p.routingTable e ∧
      required p msg ≤ msg.targetOid.getMatchedPrefixLength e.1 ∧
      processMessage p msg = some (p, .forward (msg.hopTo e)) := by
  have httl' : msg.decrementOverlayTtl.base.overlayTtl ≠ 0 := by
    rw [PlexusMessage.decrementOverlayTtl, base_setBase]
    exact sub_ne_zero.mpr httl
  have htarget : msg.decrementOverlayTtl.targetOid = msg.targetOid := targetOid_setBase _
  have hrequired : required p msg.decrementOverlayTtl = required p msg := by
    rw [required, PlexusMessage.decrementOverlayTtl, base_setBase]
    rfl
  rw [processMessage]
  rcases setNextHop_cases hp httl' ((knows_setBase _).trans hknows) with ⟨hhop, hnone⟩ |
    ⟨e, he, hle, hhop⟩
  · left
    rw [hhop, ← answer_setBase]
    rw [htarget, hrequired] at hnone
    exact ⟨rfl, hnone⟩
  · right
    rw [hhop]
    rw [htarget] at he hle
    rw [hrequired] at hle
    exact ⟨e, he, hle, rfl⟩

@[simp] theorem targetOid_hopTo : (msg.hopTo e).targetOid = msg.targetOid := by
  simp [PlexusMessage.hopTo, PlexusMessage.setDest, PlexusMessage.decrementOverlayTtl]

@[simp] theorem base_hopTo : (msg.hopTo e).base = { msg.base with
    overlayTtl := msg.base.overlayTtl - 1, destHost := e.2.copied.hostName,
    destPort := e.2.hostPort, dstOid := e.1 } := by
  simp [PlexusMessage.hopTo, PlexusMessage.setDest, PlexusMessage.decrementOverlayTtl]

@[simp] theorem answer_hopTo : answer p (msg.hopTo e) = answer p msg := by
  simp [PlexusMessage.hopTo, PlexusMessage.setDest, PlexusMessage.decrementOverlayTtl]

@[simp] theorem knows_hopTo : p.knows (msg.hopTo e) = p.knows msg := by
  simp [PlexusMessage.hopTo, PlexusMessage.setDest, PlexusMessage.decrementOverlayTtl]

end Klink
