/-
# A node of the overlay (`plnode/protocol/plexus`, `plnode/peer`, `server_system_test.cc`)

What a node does with the messages of other nodes (`processMessage`), with the requests of
its own threads and of clients (`get`, `put`, `getForClient`) and when it is set up
(`processInit`).  Each returns the node afterwards and the messages that it leaves in the
outgoing queue.

`Action` (`SetNextHop.lean`) is what a node decides about a lookup or a registration;
here are the messages that it makes of it, and the replies on their way back.

`none` stands for an undefined effect, or for a decoder that does not return.
-/
import Pweb.Klink.GolayDecoder
import Pweb.Klink.PeerInitMessage
import Pweb.Klink.CacheScan
import Pweb.Shared.Text

namespace Klink

/-! ## Names -/

/-- `isspace`. -/
def isSpace (ch : UInt8) : Bool := ch = 32 || (9 ≤ ch && ch ≤ 13)

/-- The value of the digits in front. -/
def digitsValue (str : Bytes) : ℕ :=
  (str.takeWhile fun ch => 48 ≤ ch && ch ≤ 57).foldl (fun n ch => 10 * n + (ch.toNat - 48)) 0

/-- The number in front, behind blanks and a sign. -/
def numberValue (str : Bytes) : ℤ :=
  match str.dropWhile isSpace with
  | [] => 0
  | ch :: rest =>
    if ch = 45 then -digitsValue rest
    else if ch = 43 then digitsValue rest
    else digitsValue (ch :: rest)

/-- `atoi`, whose effect is undefined if the number does not fit an `int`. -/
def atoi (str : Bytes) : Option Int32 :=
  if -2 ^ 31 ≤ numberValue str ∧ numberValue str < 2 ^ 31 then some (Int32.ofInt (numberValue str))
  else none

/-- `atol`, whose effect is undefined if the number does not fit a `long`. -/
def atol (str : Bytes) : Option Int64 :=
  if -2 ^ 63 ≤ numberValue str ∧ numberValue str < 2 ^ 63 then some (Int64.ofInt (numberValue str))
  else none

/-- `urlHash`; `LONG_MAX` in an `unsigned int` is `2 ^ 32 - 1`. -/
def urlHash (url : Bytes) : Int64 :=
  let seed : UInt64 := url.foldl
    (fun seed ch => seed ^^^ ((seed <<< 4) + (seed >>> 2) + ch.toUInt64)) 99099
  (seed % 0xffffffff).toInt64

/-- `(int)urlHash(name) & 0x003FFFFF`. -/
def hashName (name : Bytes) : Int32 := (urlHash name).toInt32 &&& 0x003fffff

/-- `OverlayID(pattern, iCode)` with a `GolayCode`. -/
def OverlayId.ofPattern (pattern : Int64) : Option OverlayId :=
  (Golay.decodeGolay pattern).map fun overlayId => ⟨overlayId, 12, 12⟩

/-- The name of the home agent, behind the last dot, and that of the device, in front of it;
without a dot, `substr(0, -1)` and `substr(0)` are the whole name. -/
def splitAtDot (str : Bytes) : Bytes × Bytes :=
  let haName := (str.reverse.takeWhile (· ≠ 46)).reverse
  (haName, if 46 ∈ str then str.take (str.length - haName.length - 1) else str)

/-! ## Messages -/

/-- `MSG_PLEXUS_PUT`. -/
def msgPlexusPut : UInt8 := 41

/-- `MSG_PLEXUS_GET`. -/
def msgPlexusGet : UInt8 := 42

/-- `MSG_PLEXUS_PUT_REPLY`. -/
def msgPlexusPutReply : UInt8 := 44

/-- `MSG_CACHE_ME`. -/
def msgCacheMe : UInt8 := 51

/-- `MSG_RETRIEVE_REPLY`. -/
def msgRetrieveReply : UInt8 := 54

/-- The messages between the nodes. -/
inductive OverlayMessage where
  | request (msg : PlexusMessage)
  | getReply (msg : MessageGET_REPLY)
  | putReply (msg : MessagePUT_REPLY)
  | cacheMe (msg : ABSMessage)
  | retrieve (msg : RetrieveMessage)
  | retrieveReply (msg : MessageRetrieveReply)
  deriving DecidableEq, Repr

namespace OverlayMessage

def base : OverlayMessage → ABSMessage
  | request msg => msg.base
  | getReply msg => msg.toABSMessage
  | putReply msg => msg.toABSMessage
  | cacheMe msg => msg
  | retrieve msg => msg.toABSMessage
  | retrieveReply msg => msg.toABSMessage

/-- Assigning members of `ABSMessage`. -/
def setBase (f : ABSMessage → ABSMessage) : OverlayMessage → OverlayMessage
  | request msg => request (msg.setBase f)
  | getReply msg => getReply { msg with toABSMessage := f msg.toABSMessage }
  | putReply msg => putReply { msg with toABSMessage := f msg.toABSMessage }
  | cacheMe msg => cacheMe (f msg)
  | retrieve msg => retrieve { msg with toABSMessage := f msg.toABSMessage }
  | retrieveReply msg => retrieveReply { msg with toABSMessage := f msg.toABSMessage }

end OverlayMessage

/-- `decrementOverlayTtl`. -/
def ABSMessage.decrementOverlayTtl (m : ABSMessage) : ABSMessage :=
  { m with overlayTtl := m.overlayTtl - 1 }

/-- `setDestHost`, `setDestPort` and `setDstOid`. -/
def ABSMessage.setDest (m : ABSMessage) (nextHop : HostAddress) (nextOid : OverlayId) :
    ABSMessage :=
  { m with destHost := nextHop.copied.hostName, destPort := nextHop.hostPort, dstOid := nextOid }

/-- The members of new messages that nothing initialises. -/
structure Uninitialised where
  oid : OverlayId
  hops : Int32
  ipHops : Int32
  latency : UInt64
  originSeqNo : Int32

/-! ## Nodes -/

/-- `cache_storage`. -/
inductive CacheStorage where
  | endPoint
  | path
  deriving DecidableEq, Repr

/-- `cache_type`. -/
inductive CacheType where
  | reactive
  | proactive
  deriving DecidableEq, Repr

/-- `MessageStateIndex`. -/
structure MessageStateIndex where
  nameHash : Int32
  messageSeqNo : Int32
  deriving DecidableEq, Repr

/-- `MessageStateIndex::operator<`. -/
instance : MapKey MessageStateIndex (ℤ ×ₗ ℤ) :=
  ⟨fun index => toLex (index.nameHash.toInt, index.messageSeqNo.toInt)⟩

/-- What is written to the log of lookups and to that of registrations. -/
inductive LogEntry where
  | get (sourceHost destHost : Bytes) (sequenceNo : UInt32) (hops ipHops : Int32)
      (latency : UInt64) (failed : Bool) (deviceName : Bytes) (srcOid : Int32)
  | put (sourceHost destHost : Bytes) (sequenceNo : UInt32) (hops ipHops : Int32)
      (latency : UInt64) (deviceName : Bytes) (srcOid : Int32)
  deriving DecidableEq, Repr

/-- `Peer` and its `PlexusProtocol`; `sequenceNo` is `sequence_no_generator`. -/
structure Node where
  hostName : Bytes
  listenPortNumber : Int32
  initRcvd : Bool
  cacheStorage : CacheStorage
  cacheType : CacheType
  peer : Peer
  nameDb : NameDb
  unresolvedGet : LookupTable MessageStateIndex (HostAddress × Bytes)
  loggingQueue : List LogEntry
  sequenceNo : UInt32

namespace Node

/-- The address that the node listens on. -/
def address (n : Node) : HostAddress := ⟨n.hostName, n.listenPortNumber⟩

/-- The constructor of `ABSMessage`, with the sequence number of the message. -/
def newMessage (n : Node) (messageType : UInt8) (dstOid : OverlayId) : ABSMessage :=
  ABSMessage.init messageType n.sequenceNo n.hostName n.listenPortNumber n.peer.overlayId dstOid

/-- `sequence_no_generator++`. -/
def nextSequenceNo (n : Node) : Node := { n with sequenceNo := n.sequenceNo + 1 }

/-- A message to the sender of another one. -/
def replyTo (n : Node) (messageType : UInt8) (dstOid : OverlayId) (msg : ABSMessage) :
    ABSMessage :=
  { n.newMessage messageType dstOid with destHost := msg.sourceHost, destPort := msg.sourcePort }

/-- `cache->add` with the sender of a message. -/
def cacheSource (n : Node) (m : ABSMessage) : Option Node := do
  let cache ← n.peer.cache.add ⟨n.peer.routingTable, n.peer.proactiveCache, n.peer.overlayId⟩
    m.srcOid ⟨m.sourceHost, m.sourcePort⟩
  return { n with peer := { n.peer with cache } }

/-- The search in `setNextHop`: the best match, unless the node matches better. -/
def findNextHop (p : Peer) (targetOid dstOid : OverlayId) :
    Option (Peer × Option (HostAddress × OverlayId)) := do
  let currentNodeMatchLength := p.overlayId.getMatchedPrefixLength dstOid
  let hop := searchProactiveCache targetOid p.proactiveCache
    (searchRoutingTable targetOid p.routingTable)
  let (cache, hop) ← searchCache targetOid p.cache.fresh p.cache.dll.head p.cache hop
  let p := { p with cache }
  if hop.maxLengthMatch = 0 ∨ hop.maxLengthMatch < currentNodeMatchLength then
    return (p, none)
  else do
    let nextOid ← hop.nextOid
    return (p, some (hop.nextHop, nextOid))

/-- `setNextHop` for a reply. -/
def setNextHop (n : Node) (targetOid : OverlayId) (m : ABSMessage) :
    Option (Bool × Node × ABSMessage) :=
  if n.cacheStorage = .endPoint then some (false, n, m)
  else if m.overlayTtl = 0 then some (false, n, m)
  else do
    let (peer, hop) ← findNextHop n.peer targetOid m.dstOid
    let n := { n with peer }
    match hop with
    | none => return (false, n, m)
    | some (nextHop, nextOid) => return (true, n, m.setDest nextHop nextOid)

/-- A new reply goes to the next hop, with the cache storage `path`. -/
def routeReply (n : Node) (targetOid : OverlayId) (m : ABSMessage) : Option (Node × ABSMessage) :=
  if n.cacheStorage = .path then do
    let (_, n, m) ← n.setNextHop targetOid m
    return (n, m)
  else some (n, m)

/-! ## Requests -/

/-- The reply to a registration. -/
def putReply (n : Node) (g : Uninitialised) (m : ABSMessage) (status : Int32) (deviceName : Bytes) :
    MessagePUT_REPLY where
  toABSMessage := n.replyTo msgPlexusPutReply g.oid m
  resolutionStatus := status
  resolutionHops := Int32.ofNat m.overlayHops.toNat
  resolutionIpHops := m.ipHops
  resolutionLatency := m.latency
  originSeqNo := m.sequenceNo.toInt32
  targetOid := m.srcOid
  deviceName := deviceName

/-- The reply to a lookup. -/
def getReply (n : Node) (g : Uninitialised) (m : ABSMessage) (status : Int32) (ha : HostAddress)
    (deviceName : Bytes) : MessageGET_REPLY where
  toABSMessage := n.replyTo msgPlexusGetReply g.oid m
  resolutionStatus := status
  resolutionHops := Int32.ofNat m.overlayHops.toNat
  resolutionIpHops := m.ipHops
  resolutionLatency := m.latency
  originSeqNo := m.sequenceNo.toInt32
  targetOid := m.srcOid
  hostAddress := ha
  deviceName := deviceName

/-- `processMessage` for a `MessageGET` or a `MessagePUT`; a lookup that fails is answered
directly. -/
def processRequest (n : Node) (g : Uninitialised) (msg : PlexusMessage) :
    Option (Node × List OverlayMessage) := do
  let (peer, action) ← processMessage n.peer msg
  let n := { n with peer }
  match action with
  | .forward msg => return (n, [.request msg])
  | .putReply status deviceName => do
    let reply := n.putReply g msg.base status deviceName
    let (n, m) ← n.nextSequenceNo.routeReply reply.targetOid reply.toABSMessage
    return (n, [.putReply { reply with toABSMessage := m }])
  | .getReply status ha deviceName => do
    let reply := n.getReply g msg.base status ha deviceName
    if status = success then do
      let (n, m) ← n.nextSequenceNo.routeReply reply.targetOid reply.toABSMessage
      return (n, [.getReply { reply with toABSMessage := m }])
    else return (n.nextSequenceNo, [.getReply reply])

/-! ## Replies -/

/-- The way of a reply: forwarding it, with the cache storage `path`, adds the sender to the
cache. -/
def forwardReply (n : Node) (targetOid : OverlayId) (m : ABSMessage) :
    Option (Bool × Node × ABSMessage) := do
  let (forward, n, m) ← n.setNextHop targetOid m.decrementOverlayTtl
  if forward ∧ n.cacheStorage = .path then do
    let n ← n.cacheSource m
    return (forward, n, m)
  else return (forward, n, m)

/-- `processMessage` for a `MessageGET_REPLY`. -/
def processGetReply (n : Node) (msg : MessageGET_REPLY) : Option (Node × List OverlayMessage) := do
  let (forward, n, m) ← n.forwardReply msg.targetOid msg.toABSMessage
  if forward then return (n, [.getReply { msg with toABSMessage := m }])
  else do
    let n ← n.cacheSource m
    let entry := LogEntry.get m.sourceHost m.destHost m.sequenceNo msg.resolutionHops
      msg.resolutionIpHops msg.resolutionLatency (msg.resolutionStatus = errorGetFailed)
      msg.deviceName m.srcOid.getOverlayId
    return ({ n with loggingQueue := n.loggingQueue ++ [entry] }, [])

/-- `processMessage` for a `MessagePUT_REPLY`. -/
def processPutReply (n : Node) (msg : MessagePUT_REPLY) : Option (Node × List OverlayMessage) := do
  let (forward, n, m) ← n.forwardReply msg.targetOid msg.toABSMessage
  if forward then return (n, [.putReply { msg with toABSMessage := m }])
  else
    let entry := LogEntry.put m.sourceHost m.destHost m.sequenceNo msg.resolutionHops
      msg.resolutionIpHops msg.resolutionLatency msg.deviceName m.srcOid.getOverlayId
    return ({ n with loggingQueue := n.loggingQueue ++ [entry] }, [])

/-! ## Announcements -/

/-- A `MessageCacheMe` to every entry of the routing table. -/
def announce (n : Node) (sourceHost : Bytes) (sourcePort : Int32) (srcOid : OverlayId)
    (overlayTtl : UInt8) : Node × List OverlayMessage :=
  let table := n.peer.routingTable.table
  ({ n with sequenceNo := n.sequenceNo + UInt32.ofNat table.length },
    table.zipIdx.map fun e =>
      let dstHa := (n.peer.routingTable.lookup e.1.1).getD ⟨[], -1⟩
      .cacheMe { ABSMessage.init msgCacheMe (n.sequenceNo + UInt32.ofNat e.2) sourceHost sourcePort
          srcOid e.1.1 with
        destHost := dstHa.hostName, destPort := dstHa.hostPort, overlayTtl := overlayTtl })

/-- The sender of a `MessageCacheMe` enters the proactive cache, unless it is the node or one of
its routing table. -/
def cacheSender (n : Node) (m : ABSMessage) : Node :=
  if !m.srcOid.equals n.peer.overlayId && (n.peer.routingTable.lookup m.srcOid).isNone then
    { n with peer := { n.peer with
        proactiveCache := n.peer.proactiveCache.add m.srcOid ⟨m.sourceHost, m.sourcePort⟩ } }
  else n

/-- `processMessage` for a `MessageCacheMe`. -/
def processCacheMe (n : Node) (m : ABSMessage) : Node × List OverlayMessage :=
  let m := m.decrementOverlayTtl
  if n.cacheType = .proactive then
    let n := n.cacheSender m
    if m.overlayTtl > 0 then n.announce m.sourceHost m.sourcePort m.srcOid m.overlayTtl
    else (n, [])
  else (n, [])

/-! ## Devices of a home agent -/

/-- `processMessage` for a `RetrieveMessage`. -/
def processRetrieve (n : Node) (g : Uninitialised) (msg : RetrieveMessage) :
    Node × List OverlayMessage :=
  let result := ((n.nameDb.lookup msg.deviceName).map Prod.fst).getD ⟨[], -1⟩
  (n.nextSequenceNo, [.retrieveReply { n.replyTo msgRetrieveReply msg.srcOid msg.toABSMessage with
    resolutionStatus := success
    resolutionHops := g.hops
    resolutionIpHops := g.ipHops
    resolutionLatency := g.latency
    originSeqNo := msg.sequenceNo.toInt32
    hostAddress := result
    deviceName := msg.deviceName }])

/-- `processMessage` for a `MessageRetrieveReply`. -/
def processRetrieveReply (n : Node) (g : Uninitialised) (msg : MessageRetrieveReply) :
    Node × List OverlayMessage :=
  let msgIndex : MessageStateIndex := ⟨hashName msg.deviceName, msg.originSeqNo⟩
  match n.unresolvedGet.lookup msgIndex with
  | none => (n, [])
  | some (requester, _) =>
    ({ n.nextSequenceNo with unresolvedGet := n.unresolvedGet.remove msgIndex },
      [.getReply { n.newMessage msgPlexusGetReply g.oid with
        destHost := requester.hostName
        destPort := requester.hostPort
        sequenceNo := msgIndex.messageSeqNo.toUInt32
        resolutionStatus := success
        resolutionHops := g.hops
        resolutionIpHops := g.ipHops
        resolutionLatency := g.latency
        originSeqNo := g.originSeqNo
        targetOid := g.oid
        hostAddress := msg.hostAddress
        deviceName := msg.deviceName }])

/-! ## Messages and requests of the node -/

/-- `processMessage`. -/
def processMessage (n : Node) (g : Uninitialised) :
    OverlayMessage → Option (Node × List OverlayMessage)
  | .request msg => n.processRequest g msg
  | .getReply msg => n.processGetReply msg
  | .putReply msg => n.processPutReply msg
  | .cacheMe msg => some (n.processCacheMe msg)
  | .retrieve msg => some (n.processRetrieve g msg)
  | .retrieveReply msg => some (n.processRetrieveReply g msg)

/-- `processMessage` for a `PeerInitMessage`. -/
def processInit (n : Node) (msg : PeerInitMessage) : Node × List OverlayMessage :=
  let n := { n with
    initRcvd := true
    peer := { n.peer with
      overlayId := msg.dstOid
      routingTable := msg.routingTable
      cache := Cache.new msg.k.toInt
      indexTable := LookupTable.empty } }
  if n.cacheType = .proactive then n.announce n.hostName n.listenPortNumber n.peer.overlayId 2
  else (n, [])

/-- `PlexusProtocol::get`. -/
def get (n : Node) (g : Uninitialised) (name : Bytes) : Option (Node × List OverlayMessage) := do
  let hashNameToGet ← atoi name
  let targetOid ← OverlayId.ofPattern hashNameToGet.toInt64
  n.nextSequenceNo.processRequest g
    (.get { n.newMessage msgPlexusGet g.oid with targetOid, deviceName := name })

/-- `PlexusProtocol::put`. -/
def put (n : Node) (g : Uninitialised) (name : Bytes) (hostAddress : HostAddress) :
    Option (Node × List OverlayMessage) := do
  let hashNameToPublish ← atoi name
  let targetOid ← OverlayId.ofPattern hashNameToPublish.toInt64
  n.nextSequenceNo.processRequest g
    (.put { n.newMessage msgPlexusPut g.oid with targetOid, deviceName := name, hostAddress })

/-- `PlexusProtocol::get_for_client`. -/
def getForClient (n : Node) (g : Uninitialised) (message : PeerInitiateGET) :
    Option (Node × List OverlayMessage) := do
  let (haName, dName) := splitAtDot message.deviceName
  let hashNameToGet := hashName haName
  let targetOid ← OverlayId.ofPattern hashNameToGet.toInt64
  let ind : MessageStateIndex := ⟨hashNameToGet, message.sequenceNo.toInt32⟩
  let requester : HostAddress := ⟨message.sourceHost, message.sourcePort⟩
  let n' := { n.nextSequenceNo with
    unresolvedGet := n.unresolvedGet.add ind (requester, dName) }
  n'.processRequest g (.get { n.newMessage msgPlexusGet g.oid with
    sequenceNo := message.sequenceNo, targetOid, deviceName := haName })

end Node

end Klink
