/-
# What a step of the gateway does

`Effect.of_step` : every step is one of a few effects, each with the conditions it
requires and the state it leads to spelled out.
-/
import Pweb.Dnsgw.Gateway

open DnsQueryParser

namespace Gateway

/-! ## New queries -/

/-- A new query object. -/
def arrived (g : Gateway) (query : DnsQuery) (offset : ℕ) : Gateway :=
  { g with
    queries := Function.update g.queries g.queryCount query
    queryCount := g.queryCount + 1
    offset := offset }

/-- A new query object that is entered into the map and sent to a home agent. -/
def entered (cfg : Config) (g : Gateway) (query : DnsQuery) (offset : ℕ) (sendBuf : Bytes) :
    Gateway :=
  { g.arrived query offset with
    map := Function.update g.map query.id (some g.queryCount)
    timers := Function.update g.timers g.queryCount (.waiting (g.now + cfg.timeout))
    sendConns := Function.update g.sendConns g.queryCount (some ⟨.connecting, sendBuf⟩) }

/-- The connect or the write of the connection of `q` fails. -/
def Fails (e : GatewayEvent) (q : ℕ) : Prop :=
  e = .handleConnect q true ∨ e = .handleQuerySent q true

/-! ## Effects -/

/-- What an event does, with the conditions under which it does it. -/
inductive Effect (cfg : Config) (g : Gateway) : GatewayEvent → Gateway → Prop
  | tick (d : ℕ) : Effect cfg g (.tick d) { g with now := g.now + d }
  | handleResolve (proxy : ℕ) : Effect cfg g (.handleResolve proxy)
      { g with enabled := Function.update g.enabled proxy true }
  | ignored (sender : Sender) (header : DnsQueryHeader) (body : Bytes) :
      Effect cfg g (.receive sender header body) g
  | rejected {sender : Sender} {header : DnsQueryHeader} {body : Bytes} {query : DnsQuery}
      (hparse : parseDnsQuery { sender := sender } header body = .ok query) (metric : Metric)
      (offset : ℕ) (rcode : Rcode) (result : MetricResult)
      (hfailed : rcode ≠ .success ∧ result ≠ .timeout) :
      Effect cfg g (.receive sender header body)
        ((g.arrived { query with metric := metric } offset).completeQuery g.queryCount rcode result)
  | dropped {sender : Sender} {header : DnsQueryHeader} {body : Bytes} {query : DnsQuery}
      (hparse : parseDnsQuery { sender := sender } header body = .ok query) (metric : Metric)
      (offset : ℕ) :
      Effect cfg g (.receive sender header body) (g.arrived { query with metric := metric } offset)
  | inserted {sender : Sender} {header : DnsQueryHeader} {body : Bytes} {query query' : DnsQuery}
      (hparse : parseDnsQuery { sender := sender } header body = .ok query)
      (hsane : sanityCheck query = none) (ha : HomeAgent) {sendBuf : Bytes}
      (hget : AbsMessage.composeGet ha.hostname ha.port cfg.nshostname cfg.nsport cfg.suffixes
        query = (.ok sendBuf, query'))
      (hfree : g.map query'.id = none) (offset : ℕ) :
      Effect cfg g (.receive sender header body) (g.entered cfg query' offset sendBuf)
  | advanced {e : GatewayEvent} {q : ℕ} {conn : HaSendConnection}
      (hconn : g.sendConns q = some conn) (stage : SendStage) (he : ∀ q', ¬ Fails e q')
      (hsend : e = .handleConnect q false ∨ e = .handleQuerySent q false) :
      Effect cfg g e (g.setStage q conn stage)
  | failed {e : GatewayEvent} {q : ℕ} {conn : HaSendConnection}
      (hconn : g.sendConns q = some conn) (he : Fails e q) :
      Effect cfg g e ((g.setStage q conn .closed).failQuery q)
  | deadline {q d : ℕ} (htimer : g.timers q = .waiting d) (hd : d ≤ g.now) :
      Effect cfg g (.deadline q) (g.setTimer q (.expired d))
  | handleTimer {q : ℕ} (htimer : (∃ d, g.timers q = .expired d) ∨ g.timers q = .aborted) :
      Effect cfg g (.handleTimer q)
        ((g.setTimer q .done).expire (g.queries q).id)
  | handleAccept (message : GetReply) : Effect cfg g (.handleAccept message)
      { g with recvConns := g.recvConns ++ [{ message := message }] }
  | read {c : ℕ} {conn : HaRecvConnection} (hconn : g.recvConns[c]? = some conn) :
      Effect cfg g (.handleRead c false) (g.setRecvConn c conn.handleRead)
  | readError {c : ℕ} {conn : HaRecvConnection} (hconn : g.recvConns[c]? = some conn) :
      Effect cfg g (.handleRead c true)
        (g.setRecvConn c conn.handleReadError)
  | replied {c : ℕ} {conn : HaRecvConnection} (hconn : g.recvConns[c]? = some conn)
      (hstage : conn.stage = .devicenamelen) :
      Effect cfg g (.handleRead c false)
        ((g.setRecvConn c conn.handleRead).removeAndComplete conn.sequence
          (replyCompletion cfg.fromString cfg.ttl conn))
  | replyFailed {c : ℕ} {conn : HaRecvConnection} (hconn : g.recvConns[c]? = some conn)
      (hstage : conn.stage = .devicenamelen) :
      Effect cfg g (.handleRead c true)
        ((g.setRecvConn c conn.handleReadError).removeAndComplete conn.sequence
          fun query => ⟨query, .serverFailure, .unknown⟩)

variable {cfg : Config} {g g' : Gateway} {e : GatewayEvent}

/-- Storing a new query again is storing it so in the first place. -/
theorem arrived_setQuery (g : Gateway) (query query' : DnsQuery) (offset : ℕ) :
    (g.arrived query offset).setQuery g.queryCount query' = g.arrived query' offset := by
  unfold arrived setQuery
  rw [Function.update_idem]

theorem arrived_query (g : Gateway) (query : DnsQuery) (offset : ℕ) :
    (g.arrived query offset).queries g.queryCount = query :=
  Function.update_self _ _ _

/-- A new query is entered if its id is free. -/
theorem insert_arrived (cfg : Config) (g : Gateway) (query : DnsQuery) (offset : ℕ) :
    insert cfg (g.arrived query offset) g.queryCount =
      match g.map query.id with
      | some _ => (false, g.arrived query offset)
      | none => (true,
          { (g.arrived query offset).setTimer g.queryCount (.waiting (g.now + cfg.timeout)) with
            map := Function.update g.map query.id (some g.queryCount) }) := by
  unfold insert
  rw [arrived_query]
  rfl

/-- A query that is not let through is completed with an error. -/
theorem sanityCheck_failed {query : DnsQuery} {c : Rcode × MetricResult}
    (h : sanityCheck query = some c) : c.1 ≠ .success ∧ c.2 ≠ .timeout := by
  unfold sanityCheck at h
  split at h
  · cases h
    decide
  · split_ifs at h
    cases h
    decide

/-- **What a proxy does with a new query**: it completes the query, if the GET cannot be
composed; leaves it alone, if its id is taken; or enters it. -/
theorem hasendproxyProcessQuery_arrived (cfg : Config) (g : Gateway) (query : DnsQuery)
    (offset : ℕ) (ha : HomeAgent) :
    ∃ result metric, AbsMessage.composeGet ha.hostname ha.port cfg.nshostname cfg.nsport
        cfg.suffixes query = (result, { query with metric := metric }) ∧
      hasendproxyProcessQuery cfg (g.arrived query offset) ha g.queryCount =
        match result, g.map query.id with
        | .error _, _ => (g.arrived { query with metric := metric } offset).completeQuery
            g.queryCount .nameError .invalidRequest
        | .ok _, some _ => g.arrived { query with metric := metric } offset
        | .ok sendBuf, none => g.entered cfg { query with metric := metric } offset sendBuf := by
  unfold hasendproxyProcessQuery
  rw [arrived_query]
  obtain ⟨metric, hmetric⟩ := AbsMessage.composeGet_query ha.hostname ha.port cfg.nshostname
    cfg.nsport cfg.suffixes query
  cases hget : AbsMessage.composeGet ha.hostname ha.port cfg.nshostname cfg.nsport cfg.suffixes
      query with
  | mk result query' =>
    -- composing sets the metric, also where it throws later
    obtain rfl : query' = { query with metric := metric } := by rw [← hmetric, hget]
    refine ⟨result, metric, rfl, ?_⟩
    cases result with
    | error e =>
        show ((g.arrived query offset).setQuery g.queryCount _).completeQuery _ _ _ = _
        rw [arrived_setQuery]
    | ok sendBuf =>
        have hinsert := insert_arrived cfg g { query with metric := metric } offset
        rw [← arrived_setQuery g query] at hinsert
        dsimp only
        rw [hinsert]
        cases g.map query.id with
        | some q => exact arrived_setQuery g query _ offset
        | none =>
            rw [arrived_setQuery]
            rfl

section Receive

variable {sender : Sender} {header : DnsQueryHeader} {body : Bytes} {query : DnsQuery}

theorem Effect.of_hasendproxyProcessQuery
    (hparse : parseDnsQuery { sender := sender } header body = .ok query)
    (hsane : sanityCheck query = none) (ha : HomeAgent) (offset : ℕ) :
    Effect cfg g (.receive sender header body)
      (hasendproxyProcessQuery cfg (g.arrived query offset) ha g.queryCount) := by
  obtain ⟨result, metric, hget, heq⟩ := hasendproxyProcessQuery_arrived cfg g query offset ha
  rw [heq]
  cases result with
  | error e => exact .rejected hparse metric offset .nameError .invalidRequest (by decide)
  | ok sendBuf =>
      cases hentry : g.map query.id with
      | some q => exact .dropped hparse metric offset
      | none => exact .inserted hparse hsane ha hget hentry offset

/-- A query that is let through goes to the proxy that is selected; the counter moves on,
whatever happens next. -/
theorem processQuery_arrived (hsane : sanityCheck query = none) :
    processQuery cfg (g.arrived query g.offset) g.queryCount =
      match selectProxy g.enabled cfg.homeAgents.length cfg.homeAgents.length
          (g.offset % cfg.homeAgents.length) with
      | none => (g.arrived query (g.offset + 1)).completeQuery g.queryCount .serverFailure
          .haConnectionError
      | some hs =>
        match cfg.homeAgents[hs]? with
        | none => g.arrived query (g.offset + 1)
        | some ha =>
          hasendproxyProcessQuery cfg (g.arrived query (g.offset + 1)) ha g.queryCount := by
  unfold processQuery
  rw [arrived_query, hsane]
  rfl

theorem Effect.of_processQuery
    (hparse : parseDnsQuery { sender := sender } header body = .ok query) :
    Effect cfg g (.receive sender header body)
      (processQuery cfg (g.arrived query g.offset) g.queryCount) := by
  cases hsane : sanityCheck query with
  | some c =>
      unfold processQuery
      rw [arrived_query, hsane]
      exact .rejected hparse query.metric g.offset c.1 c.2 (sanityCheck_failed hsane)
  | none =>
      rw [processQuery_arrived hsane]
      split
      · exact .rejected hparse query.metric (g.offset + 1) .serverFailure .haConnectionError
          (by decide)
      · split
        · exact .dropped hparse query.metric (g.offset + 1)
        · exact .of_hasendproxyProcessQuery hparse hsane _ (g.offset + 1)

theorem Effect.of_receive : Effect cfg g (.receive sender header body)
    (g.receive cfg sender header body) := by
  unfold receive
  split
  · split
    · exact .ignored sender header body
    · next query hparse => exact .of_processQuery hparse
  · exact .ignored sender header body

end Receive

theorem Effect.of_sendHandler {q : ℕ} {before after : SendStage} {ec : Bool}
    (hs : g.sendHandler q before after ec = some g')
    (he : e = .handleConnect q ec ∨ e = .handleQuerySent q ec) : Effect cfg g e g' := by
  unfold sendHandler at hs
  cases hconn : g.sendConns q with
  | none =>
      rw [hconn] at hs
      cases hs
  | some conn =>
      rw [hconn] at hs
      dsimp only at hs
      split_ifs at hs with hstage hec
      · cases hs
        subst hec
        exact .failed hconn he
      · cases hs
        obtain rfl : ec = false := by simpa using hec
        refine .advanced hconn after (fun q' hq' => ?_) he
        unfold Fails at hq'
        rcases he with rfl | rfl <;> simp at hq'

theorem Effect.of_handleRead {c : ℕ} {conn : HaRecvConnection}
    (hconn : g.recvConns[c]? = some conn) :
    Effect cfg g (.handleRead c false) (g.handleRead cfg c conn) := by
  unfold handleRead
  by_cases hstage : conn.stage = .devicenamelen
  · simp only [if_pos hstage]
    exact .replied hconn hstage
  · simp only [if_neg hstage]
    exact .read hconn

theorem Effect.of_handleReadError {c : ℕ} {conn : HaRecvConnection}
    (hconn : g.recvConns[c]? = some conn) :
    Effect cfg g (.handleRead c true) (g.handleReadError c conn) := by
  unfold handleReadError
  by_cases hstage : conn.stage = .devicenamelen
  · simp only [if_pos hstage]
    exact .replyFailed hconn hstage
  · simp only [if_neg hstage]
    exact .readError hconn

/-- **Inversion**: every step is an effect. -/
theorem Effect.of_step (hs : (system cfg).step g e = some g') : Effect cfg g e g' := by
  cases e with
  | tick d =>
      cases hs
      exact .tick d
  | handleResolve proxy =>
      cases hs
      exact .handleResolve proxy
  | receive sender header body =>
      have hs' : (if body.length ≤ sender.bufSize then some (g.receive cfg sender header body)
        else none) = some g' := hs
      split_ifs at hs' with hlen
      cases hs'
      exact .of_receive
  | handleConnect q ec => exact .of_sendHandler hs (.inl rfl)
  | handleQuerySent q ec => exact .of_sendHandler hs (.inr rfl)
  | deadline q =>
      cases htimer : g.timers q with
      | waiting d =>
          simp only [system, step, htimer] at hs
          split_ifs at hs with hd
          cases hs
          exact .deadline htimer hd
      | idle | expired | aborted | done => simp [system, step, htimer] at hs
  | handleTimer q =>
      cases htimer : g.timers q with
      | expired d =>
          simp only [system, step, htimer, Option.some.injEq] at hs
          subst hs
          exact .handleTimer (.inl ⟨d, htimer⟩)
      | aborted =>
          simp only [system, step, htimer, Option.some.injEq] at hs
          subst hs
          exact .handleTimer (.inr htimer)
      | idle | waiting | done => simp [system, step, htimer] at hs
  | handleAccept message =>
      cases hs
      exact .handleAccept message
  | handleRead c ec =>
      cases hconn : g.recvConns[c]? with
      | none => simp [system, step, hconn] at hs
      | some conn =>
          simp only [system, step, hconn] at hs
          split_ifs at hs with hclosed hec
          · cases hs
            subst hec
            exact .of_handleReadError hconn
          · cases hs
            obtain rfl : ec = false := by simpa using hec
            exact .of_handleRead hconn

/-! ## Removal -/

section Remove

variable (g : Gateway) (sequence : UInt16)

theorem remove_of_none {sequence : UInt16} (h : g.map sequence = none) :
    g.remove sequence = (none, g) := by
  unfold remove
  rw [h]

theorem remove_of_some {sequence : UInt16} {q : ℕ} (h : g.map sequence = some q) :
    g.remove sequence = (some q, { g.setTimer q (g.timers q).cancel with
      map := Function.update g.map sequence none }) := by
  unfold remove
  rw [h]

/-- `remove` leaves everything but the map and the timers alone. -/
theorem remove_frame : ∃ map timers,
    (g.remove sequence).2 = { g with map := map, timers := timers } := by
  cases h : g.map sequence with
  | none => exact ⟨g.map, g.timers, by rw [remove_of_none g h]⟩
  | some q => exact ⟨_, _, by rw [remove_of_some g h]; rfl⟩

theorem remove_map : (g.remove sequence).2.map = Function.update g.map sequence none := by
  cases h : g.map sequence with
  | none => rw [remove_of_none g h, ← h, Function.update_eq_self]
  | some q => rw [remove_of_some g h]

theorem removeAndComplete_of_none {sequence : UInt16} (f : DnsQuery → Completion)
    (h : g.map sequence = none) : g.removeAndComplete sequence f = g := by
  unfold removeAndComplete
  rw [remove_of_none g h]

theorem removeAndComplete_of_some {sequence : UInt16} {q : ℕ} (f : DnsQuery → Completion)
    (h : g.map sequence = some q) : g.removeAndComplete sequence f =
      (((g.remove sequence).2.setQuery q (f (g.queries q)).query).completeQuery q
        (f (g.queries q)).rcode (f (g.queries q)).result) := by
  unfold removeAndComplete
  rw [remove_of_some g h]
  rfl

/-- Completing what was removed leaves the clock, the counters, the proxies and the
connections alone. -/
theorem removeAndComplete_frame (f : DnsQuery → Completion) :
    ∃ map timers queries completed, g.removeAndComplete sequence f =
      { g with map := map, timers := timers, queries := queries, completed := completed } := by
  cases h : g.map sequence with
  | none =>
      rw [removeAndComplete_of_none g f h]
      exact ⟨g.map, g.timers, g.queries, g.completed, rfl⟩
  | some q =>
      obtain ⟨map, timers, hframe⟩ := remove_frame g sequence
      rw [removeAndComplete_of_some g f h, hframe]
      exact ⟨map, timers, _, _, rfl⟩

/-- So does the failure of a query. -/
theorem failQuery_frame (q : ℕ) : ∃ map timers queries completed, g.failQuery q =
    { g with map := map, timers := timers, queries := queries, completed := completed } := by
  obtain ⟨map, timers, hframe⟩ := remove_frame g (g.queries q).id
  rw [failQuery, hframe]
  exact ⟨map, timers, _, _, rfl⟩

end Remove

end Gateway
