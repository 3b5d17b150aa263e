/-
# The gateway (`haloadbalancer.cpp`, `haproxy.cpp` and their events)

Queries are accepted, handed to a home agent proxy by the load balancer, entered
into the query map under their 16-bit id and completed when a reply arrives, when
their deadline timer fires, or when the connection to the home agent fails.  Every
completion handler of the I/O service is one event; the events of the connections
and timers of earlier queries can come at any later time.

Sending the reply of a completed query is the business of its sender; the model
keeps the list of the calls of `complete_query`.
-/
import Pweb.Dnsgw.HaRecvConnection
import Pweb.Dnsgw.DnsQueryParser
import Pweb.Foundation.Runs
import Pweb.Foundation.PendingTable

open DnsQueryParser

/-! ## Configuration and state -/

/-- Host name and port of a `hasendproxy`. -/
structure HomeAgent where
  hostname : Bytes
  port : UInt16
  deriving DecidableEq

/-- The options of the gateway; at least one home agent is required. -/
structure Config where
  homeAgents : List HomeAgent
  homeAgents_ne : homeAgents ≠ []
  nshostname : Bytes
  nsport : UInt16
  suffixes : List Bytes
  ttl : UInt16
  /-- The time a query may take, in the unit of the clock. -/
  timeout : ℕ
  /-- `boost::asio::ip::address::from_string`; `none` is an error. -/
  fromString : Bytes → Option IpAddress

/-- The `deadline_timer` of a query and its handler: after `expires_from_now` and
`async_wait` the handler waits for the deadline; it is queued when the deadline has
passed or the timer is cancelled, and runs later. -/
inductive Timer where
  | idle
  | waiting (deadline : ℕ)
  | expired (deadline : ℕ)
  | aborted
  | done
  deriving DecidableEq, Repr

/-- `cancel()`: a handler that still waits is queued with `operation_aborted`. -/
def Timer.cancel : Timer → Timer
  | .waiting _ => .aborted
  | timer => timer

/-- The operation a `hasendconnection` has started last. -/
inductive SendStage where
  | connecting
  | writing
  | sent
  | closed
  deriving DecidableEq, Repr

/-- `hasendconnection`: its stage and `send_buf_`. -/
structure HaSendConnection where
  stage : SendStage
  sendBuf : Bytes
  deriving DecidableEq

/-- A call of `complete_query`. -/
structure Completed where
  query : ℕ
  rcode : Rcode
  result : MetricResult
  deriving DecidableEq, Repr

/-- The state of the gateway.  Query objects are numbered in the order of their arrival;
a query has a `hasendconnection` exactly if it was inserted into the map. -/
structure Gateway where
  now : ℕ := 0
  offset : ℕ := 0
  enabled : ℕ → Bool
  queries : ℕ → DnsQuery
  queryCount : ℕ := 0
  map : UInt16 → Option ℕ := fun _ => none
  timers : ℕ → Timer := fun _ => .idle
  sendConns : ℕ → Option HaSendConnection := fun _ => none
  recvConns : List HaRecvConnection := []
  completed : List Completed := []

namespace Gateway

/-- Write to a query object. -/
def setQuery (g : Gateway) (q : ℕ) (query : DnsQuery) : Gateway :=
  { g with queries := Function.update g.queries q query }

/-- The timer of a query changes its state. -/
def setTimer (g : Gateway) (q : ℕ) (timer : Timer) : Gateway :=
  { g with timers := Function.update g.timers q timer }

/-- A `harecvconnection` changes its state. -/
def setRecvConn (g : Gateway) (c : ℕ) (conn : HaRecvConnection) : Gateway :=
  { g with recvConns := g.recvConns.set c conn }

/-! ## The query map -/

/-- `querymap::insert`: whether the id was free, in which case the query is entered and
its timer armed. -/
def insert (cfg : Config) (g : Gateway) (q : ℕ) : Bool × Gateway :=
  match g.map (g.queries q).id with
  | some _ => (false, g)
  | none => (true, { g.setTimer q (.waiting (g.now + cfg.timeout)) with
      map := Function.update g.map (g.queries q).id (some q) })

/-- `querymap::remove`: the query that was entered under the id, if any. -/
def remove (g : Gateway) (sequence : UInt16) : Option ℕ × Gateway :=
  match g.map sequence with
  | none => (none, g)
  | some q => (some q, { g.setTimer q (g.timers q).cancel with
      map := Function.update g.map sequence none })

/-- `complete_query`. -/
def completeQuery (g : Gateway) (q : ℕ) (rcode : Rcode) (result : MetricResult) : Gateway :=
  { g.setQuery q ((g.queries q).complete rcode result) with
    completed := g.completed ++ [⟨q, rcode, result⟩] }

/-- `query_ptr query( remove(sequence) ); if ( query ) ... complete_query( ... )`, where
`f` says what is done to the query and how it is completed. -/
def removeAndComplete (g : Gateway) (sequence : UInt16) (f : DnsQuery → Completion) : Gateway :=
  match g.remove sequence with
  | (none, g) => g
  | (some q, g) =>
    let c := f (g.queries q)
    (g.setQuery q c.query).completeQuery q c.rcode c.result

/-- `querymap::expire`. -/
def expire (g : Gateway) (sequence : UInt16) : Gateway :=
  g.removeAndComplete sequence fun query => ⟨query, .nameError, .timeout⟩

/-! ## Sending a query to a home agent -/

/-- `hasendproxy::process_query`: the constructor of the `hasendconnection` composes the
GET, completing the query if that throws, and inserts the query, throwing if its id is
taken; the exceptions are only logged.  Then the connection is started. -/
def hasendproxyProcessQuery (cfg : Config) (g : Gateway) (ha : HomeAgent) (q : ℕ) : Gateway :=
  match AbsMessage.composeGet ha.hostname ha.port cfg.nshostname cfg.nsport cfg.suffixes
      (g.queries q) with
  | (.error _, query) =>
    (g.setQuery q query).completeQuery q .nameError .invalidRequest
  | (.ok sendBuf, query) =>
    match insert cfg (g.setQuery q query) q with
    | (false, g) => g
    | (true, g) =>
      { g with sendConns := Function.update g.sendConns q (some ⟨.connecting, sendBuf⟩) }

/-- Both error branches, of `handle_connect` and of `handle_query_sent`. -/
def failQuery (g : Gateway) (q : ℕ) : Gateway :=
  (g.remove (g.queries q).id).2.completeQuery q .serverFailure .haConnectionError

/-- A `hasendconnection` enters a stage. -/
def setStage (g : Gateway) (q : ℕ) (conn : HaSendConnection) (stage : SendStage) : Gateway :=
  { g with sendConns := Function.update g.sendConns q (some { conn with stage := stage }) }

/-! ## The load balancer -/

/-- `sanity_check`: the completion of a query it does not let through. -/
def sanityCheck (query : DnsQuery) : Option (Rcode × MetricResult) :=
  match query.questions with
  | [] => some (.serverFailure, .haConnectionError)
  | question :: _ =>
    if question.qtype ≠ tA ∨ question.qclass ≠ cIn then some (.notImplemented, .invalidRequest)
    else none

/-- The loop of `ha_load_balancer::process_query` with `cnt` rounds to go: the first
enabled proxy at or after position `hs`, in cyclic order. -/
def selectProxy (enabled : ℕ → Bool) (size : ℕ) : ℕ → ℕ → Option ℕ
  | 0, _ => none
  | cnt + 1, hs =>
    if enabled hs then some hs
    else selectProxy enabled size cnt (if hs + 1 = size then 0 else hs + 1)

/-- `ha_load_balancer::process_query`. -/
def processQuery (cfg : Config) (g : Gateway) (q : ℕ) : Gateway :=
  match sanityCheck (g.queries q) with
  | some (rcode, result) => g.completeQuery q rcode result
  | none =>
    let myOffset := g.offset
    let g := { g with offset := g.offset + 1 }
    match selectProxy g.enabled cfg.homeAgents.length cfg.homeAgents.length
        (myOffset % cfg.homeAgents.length) with
    | none => g.completeQuery q .serverFailure .haConnectionError
    | some hs =>
      match cfg.homeAgents[hs]? with
      | none => g
      | some ha => hasendproxyProcessQuery cfg g ha q

/-! ## Events -/

/-- `handle_datagram_received` and `handle_query_read`, after the test of the length:
a query with a valid header that is accepted becomes a new query object. -/
def receive (cfg : Config) (g : Gateway) (sender : Sender) (header : DnsQueryHeader)
    (body : Bytes) : Gateway :=
  if header.qr = false ∧ header.opcode = .query ∧ header.z = 0 then
    match parseDnsQuery { sender := sender } header body with
    | .error _ => g
    | .ok query => processQuery cfg { g with
        queries := Function.update g.queries g.queryCount query
        queryCount := g.queryCount + 1 } g.queryCount
  else g

/-- The handler of the outstanding read of a `harecvconnection`, without an error: only
the one for the device name length touches the map. -/
def handleRead (cfg : Config) (g : Gateway) (c : ℕ) (conn : HaRecvConnection) : Gateway :=
  let g := g.setRecvConn c conn.handleRead
  if conn.stage = .devicenamelen then
    g.removeAndComplete conn.sequence (replyCompletion cfg.fromString cfg.ttl conn)
  else g

/-- The handler of the outstanding read, with an error. -/
def handleReadError (g : Gateway) (c : ℕ) (conn : HaRecvConnection) : Gateway :=
  let g := g.setRecvConn c conn.handleReadError
  if conn.stage = .devicenamelen then
    g.removeAndComplete conn.sequence fun query => ⟨query, .serverFailure, .unknown⟩
  else g

end Gateway

/-- The length of the receive and send buffers of the speaker a query came from. -/
def Sender.bufSize : Sender → ℕ
  | .udp _ => 500
  | .tcp _ => 1024

/-- What can happen: time passes, a home agent's name is resolved, a query is received, an
operation of a `hasendconnection` completes (`ec` tells whether with an error), the
deadline of a timer passes, the handler of a timer runs, a home agent connects, and a
read of its connection completes. -/
inductive GatewayEvent where
  | tick (d : ℕ)
  | handleResolve (proxy : ℕ)
  | receive (sender : Sender) (header : DnsQueryHeader) (body : Bytes)
  | handleConnect (q : ℕ) (ec : Bool)
  | handleQuerySent (q : ℕ) (ec : Bool)
  | deadline (q : ℕ)
  | handleTimer (q : ℕ)
  | handleAccept (message : GetReply)
  | handleRead (c : ℕ) (ec : Bool)

namespace Gateway

/-- `handle_connect` or `handle_query_sent` of the connection of `q`, which must be in
stage `before`. -/
def sendHandler (g : Gateway) (q : ℕ) (before after : SendStage) (ec : Bool) : Option Gateway :=
  match g.sendConns q with
  | none => none
  | some conn =>
    if conn.stage = before then
      if ec then some ((g.setStage q conn .closed).failQuery q)
      else some (g.setStage q conn after)
    else none

/-- One event; `none` where it cannot happen. -/
def step (cfg : Config) (g : Gateway) : GatewayEvent → Option Gateway
  | .tick d => some { g with now := g.now + d }
  | .handleResolve proxy => some { g with enabled := Function.update g.enabled proxy true }
  | .receive sender header body =>
    if body.length ≤ sender.bufSize then some (g.receive cfg sender header body) else none
  | .handleConnect q ec => g.sendHandler q .connecting .writing ec
  | .handleQuerySent q ec => g.sendHandler q .writing .sent ec
  | .deadline q =>
    match g.timers q with
    | .waiting d =>
      if d ≤ g.now then some (g.setTimer q (.expired d)) else none
    | _ => none
  | .handleTimer q =>
    match g.timers q with
    -- `expire` is bound to the id of the query and does not look at the error code
    | .expired _ | .aborted =>
      some ((g.setTimer q .done).expire (g.queries q).id)
    | _ => none
  | .handleAccept message => some { g with recvConns := g.recvConns ++ [{ message := message }] }
  | .handleRead c ec =>
    match g.recvConns[c]? with
    | none => none
    | some conn =>
      if conn.stage = .closed then none
      else if ec then some (g.handleReadError c conn)
      else some (g.handleRead cfg c conn)

/-- The initial state: no query has arrived; `enabled_` is not initialised by the source,
so any flags are possible. -/
def Initial (g : Gateway) : Prop :=
  g.queryCount = 0 ∧ g.map = (fun _ => none) ∧ g.timers = (fun _ => .idle) ∧
    g.sendConns = (fun _ => none) ∧ g.recvConns = [] ∧ g.completed = []

/-- The gateway as a transition system. -/
def system (cfg : Config) : TransitionSystem Gateway GatewayEvent where
  init := Initial
  step := step cfg

end Gateway
