/-
# Which question a reply answers

Requests and replies travel on separate connections and are matched by the sequence
number of the reply alone, cut to 16 bits.

* `GetSent.of_run` : what the GET of a query in the map says;
* `success_reply_matches` : what is true of a reply that completes a query with
  success: its sequence number, its address and, if home agents only answer what
  they were asked, its device name;
* `success_reply_can_mismatch` : a sequence number above the 16-bit range answers the
  query with id 0, and a late reply answers a query that uses the id again.
-/
import Pweb.Dnsgw.DeadlineTimers

open DnsQueryParser AbsMessage

namespace Gateway

variable {cfg : Config} {g g' : Gateway} {e : GatewayEvent}

/-! ## Connections -/

/-- What a step does to the `hasendconnection` of a query. -/
inductive SendConnEffect (cfg : Config) (g g' : Gateway) (q : ℕ) : Prop
  | kept (h : (g'.sendConns q).map HaSendConnection.sendBuf
      = (g.sendConns q).map HaSendConnection.sendBuf)
  | created {query : DnsQuery} {sendBuf : Bytes} (hq : q = g.queryCount) (ha : HomeAgent)
      (hsane : sanityCheck query = none)
      (hget : composeGet ha.hostname ha.port cfg.nshostname cfg.nsport cfg.suffixes query
        = (.ok sendBuf, g'.queries q))
      (h : g'.sendConns q = some ⟨.connecting, sendBuf⟩)

/-- Removals leave all connections alone. -/
theorem removeAndComplete_conns (g : Gateway) (sequence : UInt16) (f : DnsQuery → Completion) :
    (g.removeAndComplete sequence f).sendConns = g.sendConns ∧
      (g.removeAndComplete sequence f).recvConns = g.recvConns := by
  obtain ⟨_, _, _, _, hframe⟩ := removeAndComplete_frame g sequence f
  rw [hframe]
  exact ⟨rfl, rfl⟩

theorem failQuery_conns (g : Gateway) (q : ℕ) :
    (g.failQuery q).sendConns = g.sendConns ∧ (g.failQuery q).recvConns = g.recvConns := by
  obtain ⟨_, _, _, _, hframe⟩ := failQuery_frame g q
  rw [hframe]
  exact ⟨rfl, rfl⟩

/-- A connection that enters a stage keeps its buffer. -/
theorem setStage_sendBuf {q : ℕ} {conn : HaSendConnection} (hconn : g.sendConns q = some conn)
    (stage : SendStage) (q' : ℕ) :
    ((g.setStage q conn stage).sendConns q').map HaSendConnection.sendBuf
      = (g.sendConns q').map HaSendConnection.sendBuf := by
  show (Function.update g.sendConns q _ q').map _ = _
  by_cases hq : q' = q
  · rw [hq, Function.update_self, hconn]
    rfl
  · rw [Function.update_of_ne hq]

theorem Effect.sendConn (h : Effect cfg g e g') (q : ℕ) : SendConnEffect cfg g g' q := by
  have hremove : ∀ (g₁ : Gateway) (k : UInt16) (f : DnsQuery → Completion),
      g₁.sendConns = g.sendConns → SendConnEffect cfg g (g₁.removeAndComplete k f) q := by
    intro g₁ k f hconns
    exact .kept (by rw [(removeAndComplete_conns g₁ k f).1, hconns])
  cases h with
  | tick | handleResolve | ignored | rejected | dropped | deadline | handleAccept | read
  | readError => exact .kept rfl
  | inserted hparse hsane ha hget hfree offset =>
      by_cases hq : q = g.queryCount
      · subst hq
        refine .created rfl ha hsane ?_ (Function.update_self _ _ _)
        show _ = (_, Function.update g.queries g.queryCount _ g.queryCount)
        rw [Function.update_self]
        exact hget
      · refine .kept ?_
        show (Function.update g.sendConns g.queryCount _ q).map _ = _
        rw [Function.update_of_ne hq]
  | advanced hconn stage he hsend => exact .kept (setStage_sendBuf hconn stage q)
  | failed hconn he =>
      refine .kept ?_
      rw [(failQuery_conns _ _).1]
      exact setStage_sendBuf hconn .closed q
  | handleTimer htimer => exact hremove _ _ _ rfl
  | replied hconn hstage => exact hremove _ _ _ rfl
  | replyFailed hconn hstage => exact hremove _ _ _ rfl

/-- A query that was inserted stays so. -/
theorem Effect.sendConns_isSome (h : Effect cfg g e g') {q : ℕ} (hq : (g.sendConns q).isSome) :
    (g'.sendConns q).isSome := by
  cases h.sendConn q with
  | kept hkept =>
      rw [← Option.isSome_map (f := HaSendConnection.sendBuf), hkept, Option.isSome_map]
      exact hq
  | created hnew ha hsane hget hconn => rw [hconn]; rfl

/-- **Reply connections.**  A property of new connections that every handler keeps holds of
all connections after a step. -/
theorem Effect.recvConns_forall (h : Effect cfg g e g') {P : HaRecvConnection → Prop}
    (hnew : ∀ message, e = .handleAccept message → P { message := message })
    (hread : ∀ conn, P conn → P conn.handleRead)
    (herror : ∀ conn, P conn → P conn.handleReadError)
    (hold : ∀ conn ∈ g.recvConns, P conn) : ∀ conn ∈ g'.recvConns, P conn := by
  have hset : ∀ (c : ℕ) (conn : HaRecvConnection), P conn →
      ∀ conn' ∈ (g.setRecvConn c conn).recvConns, P conn' := by
    intro c conn hconn conn' hmem
    rcases List.mem_or_eq_of_mem_set hmem with hmem' | rfl
    · exact hold conn' hmem'
    · exact hconn
  have hget : ∀ {c : ℕ} {conn : HaRecvConnection}, g.recvConns[c]? = some conn → P conn :=
    fun hconn => hold _ (List.mem_of_getElem? hconn)
  cases h with
  | tick | handleResolve | ignored | rejected | dropped | inserted | advanced | deadline =>
      exact hold
  | failed hconn he =>
      rw [(failQuery_conns _ _).2]
      exact hold
  | handleTimer htimer =>
      rw [expire, (removeAndComplete_conns _ _ _).2]
      exact hold
  | handleAccept message =>
      intro conn hmem
      rcases List.mem_append.mp hmem with hmem' | hlast
      · exact hold conn hmem'
      · rw [List.mem_singleton] at hlast
        rw [hlast]
        exact hnew message rfl
  | read hconn => exact hset _ _ (hread _ (hget hconn))
  | readError hconn => exact hset _ _ (herror _ (hget hconn))
  | replied hconn hstage =>
      rw [(removeAndComplete_conns _ _ _).2]
      exact hset _ _ (hread _ (hget hconn))
  | replyFailed hconn hstage =>
      rw [(removeAndComplete_conns _ _ _).2]
      exact hset _ _ (herror _ (hget hconn))

/-- In every run the connections have kept what they should of their messages. -/
theorem consistent_of_run {tr : List (Transition Gateway GatewayEvent)}
    (h : Run (system cfg) tr g) : ∀ conn ∈ g.recvConns, conn.Consistent := by
  refine h.invariant (I := fun g => ∀ conn ∈ g.recvConns, conn.Consistent) (fun g₀ h₀ => ?_)
    fun g e g' hI hs => ?_
  · rw [h₀.2.2.2.2.1]
    exact List.forall_mem_nil _
  · exact (Effect.of_step hs).recvConns_forall (fun message _ => .start message)
      (fun conn hconn => hconn.handleRead) (fun conn _ => .handleReadError) hI

/-! ## GET messages -/

/-- The GET of an inserted query asks some home agent, under the id of the query, for the
device name that the metric of the query keeps. -/
def GetSent (cfg : Config) (g : Gateway) : Prop :=
  ∀ q conn, g.sendConns q = some conn → ∃ ha : HomeAgent,
    removeSuffix (g.queries q).firstName cfg.suffixes = .ok (g.queries q).metric.deviceName ∧
    conn.sendBuf = encodeAbsHeader absGet (g.queries q).id.toUInt32 ha.hostname ha.port
      cfg.nshostname cfg.nsport ++ encodeAbsString (g.queries q).metric.deviceName

theorem exists_question_of_sane {query : DnsQuery} (h : sanityCheck query = none) :
    ∃ question rest, query.questions = question :: rest := by
  unfold sanityCheck at h
  split at h
  · cases h
  · next question rest hq => exact ⟨question, rest, hq⟩

theorem GetSent.step (hwf : g.Wf) (h : GetSent cfg g) (hs : (system cfg).step g e = some g') :
    GetSent cfg g' := by
  have heffect := Effect.of_step hs
  intro q conn hconn
  cases heffect.sendConn q with
  | kept hkept =>
      rw [hconn] at hkept
      cases hold : g.sendConns q with
      | none =>
          rw [hold] at hkept
          cases hkept
      | some conn₀ =>
          -- the buffer was composed before, and the request has not changed since
          have hbuf : conn.sendBuf = conn₀.sendBuf := by
            rw [hold] at hkept
            exact Option.some.inj hkept
          have hsame := heffect.sameRequest (hwf.lt_queryCount (q := q) (by rw [hold]; rfl))
          obtain ⟨ha, hname, hget⟩ := h q conn₀ hold
          refine ⟨ha, ?_, ?_⟩
          · rw [hsame.firstName, hsame.deviceName]
            exact hname
          · rw [hbuf, hsame.id, hsame.deviceName]
            exact hget
  | @created query sendBuf hq ha hsane hget hnew =>
      rw [hnew] at hconn
      cases hconn
      obtain ⟨question, rest, hquestions⟩ := exists_question_of_sane hsane
      obtain ⟨devicename, hname, hquery, hbuf⟩ := composeGet_ok hget hquestions
      have hfirst : (g'.queries q).firstName = question.name := by
        rw [hquery, DnsQuery.firstName, hquestions]
      refine ⟨ha, ?_, ?_⟩
      · rw [hfirst, hquery]
        exact hname
      · rw [hbuf, hquery]

theorem GetSent.of_run {tr : List (Transition Gateway GatewayEvent)}
    (h : Run (system cfg) tr g) : GetSent cfg g := by
  refine h.invariant_trace (J := fun _ g => GetSent cfg g) (fun g₀ h₀ => ?_)
    fun tr g e g' hrun hI hs => hI.step (.of_run hrun) hs
  intro q conn hconn
  rw [h₀.2.2.2.1] at hconn
  cases hconn

/-! ## Home agents that answer what they were asked -/

/-- The message answers the GET of `q`: it repeats its sequence number and device name. -/
structure Answers (g : Gateway) (message : GetReply) (q : ℕ) : Prop where
  inserted : (g.sendConns q).isSome
  sequence : message.sequence.toInt = (g.queries q).id.toNat
  deviceName : message.deviceName = (g.queries q).metric.deviceName

/-- A home agent that connects in this step answers a GET it has been sent. -/
def AnswersGet (t : Transition Gateway GatewayEvent) : Prop :=
  ∀ message, t.event = .handleAccept message → ∃ q, Answers t.pre message q

theorem Answers.step (hwf : g.Wf) {message : GetReply} {q : ℕ} (h : Answers g message q)
    (heffect : Effect cfg g e g') : Answers g' message q := by
  have hsame := heffect.sameRequest (hwf.lt_queryCount h.inserted)
  refine ⟨heffect.sendConns_isSome h.inserted, ?_, ?_⟩
  · rw [hsame.id]
    exact h.sequence
  · rw [hsame.deviceName]
    exact h.deviceName

/-- If home agents answer what they were asked, every message read answers some GET. -/
theorem answers_of_run {tr : List (Transition Gateway GatewayEvent)}
    (h : Run (system cfg) tr g) (hC : ∀ t ∈ tr, AnswersGet t) :
    ∀ conn ∈ g.recvConns, ∃ q, Answers g conn.message q := by
  refine h.invariant_when (I := fun g => ∀ conn ∈ g.recvConns, ∃ q, Answers g conn.message q)
    (fun g₀ h₀ => ?_) (fun tr g e g' hrun hI hC hs => ?_) hC
  · rw [h₀.2.2.2.2.1]
    exact List.forall_mem_nil _
  · have heffect := Effect.of_step hs
    have hwf := Wf.of_run hrun
    apply heffect.recvConns_forall (P := fun conn => ∃ q, Answers g' conn.message q)
    · intro message he
      obtain ⟨q, hq⟩ := hC message he
      exact ⟨q, hq.step hwf heffect⟩
    · intro conn hconn
      rw [conn.handleRead_message]
      exact hconn
    · exact fun conn hconn => hconn
    · intro conn hmem
      obtain ⟨q, hq⟩ := hI conn hmem
      exact ⟨q, hq.step hwf heffect⟩

/-! ## Successful replies -/

/-- The step calls `complete_query` for `q` with `R_SUCCESS`. -/
def Succeeds (t : Transition Gateway GatewayEvent) (q : ℕ) : Prop :=
  ∃ result, t.post.completed = t.pre.completed ++ [⟨q, .success, result⟩]

/-- Only a reply, read to its device name length, completes a query with success. -/
theorem Succeeds.cases {q : ℕ} (h : Succeeds ⟨g, e, g'⟩ q) (heffect : Effect cfg g e g') :
    ∃ c conn, e = .handleRead c false ∧ g.recvConns[c]? = some conn ∧
      conn.stage = .devicenamelen ∧ g.map conn.sequence = some q ∧
      (replyCompletion cfg.fromString cfg.ttl conn (g.queries q)).rcode = .success := by
  obtain ⟨result, hresult⟩ := h
  have hnew : NewCompletion cfg g e ⟨q, .success, result⟩ := heffect.completion.of_completed hresult
  -- all other completions have an error code
  generalize hsuccess : Rcode.success = rcode at hnew
  cases hnew with
  | rejected hfailed => exact absurd hsuccess.symm hfailed.1
  | failed he => cases hsuccess
  | timedOut hentry => cases hsuccess
  | replied hconn hstage hentry => exact ⟨_, _, rfl, hconn, hstage, hentry, rfl⟩
  | replyFailed hconn hstage hentry => cases hsuccess

/-- The query after a reply has completed it. -/
theorem replied_query {c q : ℕ} {conn : HaRecvConnection}
    (hs : (system cfg).step g (.handleRead c false) = some g')
    (hconn : g.recvConns[c]? = some conn) (hstage : conn.stage = .devicenamelen)
    (hentry : g.map conn.sequence = some q) :
    g'.queries q = (replyCompletion cfg.fromString cfg.ttl conn (g.queries q)).query.complete
      (replyCompletion cfg.fromString cfg.ttl conn (g.queries q)).rcode
      (replyCompletion cfg.fromString cfg.ttl conn (g.queries q)).result := by
  have hstep : some (g.handleRead cfg c conn) = some g' := by
    rw [← hs]
    simp [system, step, hconn, hstage]
  cases hstep
  unfold handleRead
  simp only [if_pos hstage]
  exact removeAndComplete_queries (g := g.setRecvConn c conn.handleRead)
    (replyCompletion cfg.fromString cfg.ttl conn) hentry

/-- What is true when `q` is completed with success by the reply that `conn` reads, after
the transitions `past`. -/
structure MatchedReply (cfg : Config) (past : List (Transition Gateway GatewayEvent))
    (t : Transition Gateway GatewayEvent) (q : ℕ) (conn : HaRecvConnection) : Prop where
  msgtype : conn.message.msgtype = absReply
  /-- The query is the outstanding one under its id. -/
  outstanding : t.pre.map (t.pre.queries q).id = some q
  /-- A sequence number in the 16-bit range is the id. -/
  in_range : 0 ≤ conn.message.sequence.toInt → conn.message.sequence.toInt ≤ 65535 →
    conn.message.sequence.toInt = (t.pre.queries q).id.toNat
  /-- A sequence number above it leads to the id 0. -/
  above_range : 65535 < conn.message.sequence.toInt → (t.pre.queries q).id = 0
  /-- The record added is the address in the message, for the first name of the query. -/
  answer : ∃ addr, cfg.fromString (cString conn.message.host conn.message.castHostlen) = some addr ∧
    t.post.queries q = ((t.pre.queries q).addAnswer
      (answerRr (t.pre.queries q).firstName addr cfg.ttl)).complete .success .success
  /-- The GET that was sent for the query. -/
  get : ∃ (sent : HaSendConnection) (ha : HomeAgent), t.pre.sendConns q = some sent ∧
    sent.sendBuf = encodeAbsHeader absGet (t.pre.queries q).id.toUInt32 ha.hostname ha.port
      cfg.nshostname cfg.nsport ++ encodeAbsString (t.pre.queries q).metric.deviceName
  /-- If home agents answer what they were asked, the reply is to the GET of a query with
  this id. -/
  deviceName : (∀ t' ∈ past, AnswersGet t') →
    ∃ q', Answers t.pre conn.message q' ∧ (t.pre.queries q').id = (t.pre.queries q).id

/-- **Successful replies.**  A query is completed with success only by a reply of a home
agent, and that reply matches it as far as the 16-bit id goes. -/
theorem success_reply_matches (cfg : Config) (tr : List (Transition Gateway GatewayEvent))
    (g : Gateway) (h : Run (system cfg) tr g) (past future : List (Transition Gateway GatewayEvent))
    (t : Transition Gateway GatewayEvent) (hsplit : tr = past ++ t :: future) (q : ℕ)
    (hsuccess : Succeeds t q) :
    ∃ c conn, t.event = .handleRead c false ∧ t.pre.recvConns[c]? = some conn ∧
      MatchedReply cfg past t q conn := by
  subst hsplit
  obtain ⟨hpast, hs⟩ := h.at_split
  obtain ⟨g₁, e, g₂⟩ := t
  obtain ⟨c, conn, rfl, hconn, hstage, hentry, hrcode⟩ := hsuccess.cases (Effect.of_step hs)
  have hwf := Wf.of_run hpast
  have hmem := List.mem_of_getElem? hconn
  have hcons := consistent_of_run hpast conn hmem
  obtain ⟨hsent, hid⟩ := registered_eq_some.mp (hwf.sound.registered _ _ hentry)
  have hseq : conn.sequence = HaRecvConnection.usedSequence conn.message :=
    hcons.sequence (by rw [hstage]; decide) (by rw [hstage]; decide)
  obtain ⟨addr, haddr, hreply⟩ := replyCompletion_success hrcode
  have hquery := replied_query hs hconn hstage hentry
  rw [hreply] at hquery
  have hin : 0 ≤ conn.message.sequence.toInt → conn.message.sequence.toInt ≤ 65535 →
      conn.message.sequence.toInt = (g₁.queries q).id.toNat := by
    intro h₀ h₁
    rw [hid, hseq, HaRecvConnection.usedSequence, if_pos h₁, GetReply.castSequence_toNat h₀ h₁]
  obtain ⟨sent, hsent⟩ := Option.isSome_iff_exists.mp hsent
  obtain ⟨ha, -, hget⟩ := GetSent.of_run hpast q sent hsent
  refine ⟨c, conn, rfl, hconn, ?_, ?_, hin, ?_, ⟨addr, ?_, hquery⟩, ⟨sent, ha, hsent, hget⟩, ?_⟩
  · exact hcons.msgtype (by rw [hstage]; decide) (by rw [hstage]; decide)
  · show g₁.map (g₁.queries q).id = some q
    rw [hid]
    exact hentry
  · intro habove
    show (g₁.queries q).id = 0
    rw [hid, hseq, HaRecvConnection.usedSequence, if_neg (by omega)]
  · rw [← hcons.hostlen hstage]
    exact haddr
  · intro hanswers
    obtain ⟨q', hq'⟩ := answers_of_run hpast hanswers conn hmem
    refine ⟨q', hq', ?_⟩
    -- the sequence number is the id of `q'`, so it is in the 16-bit range
    have hlt := (g₁.queries q').id.toNat_lt
    have hseq' : conn.message.sequence.toInt = (g₁.queries q').id.toNat := hq'.sequence
    have heq := hin (by omega) (by omega)
    have hnat : (g₁.queries q').id.toNat = (g₁.queries q).id.toNat := by omega
    exact UInt16.toNat_inj.mp hnat

/-! ## Replies that answer another question -/

/-- A reply for the device `a.` with a sequence number above the 16-bit range. -/
def outOfRangeReply : GetReply := ⟨absReply, 65536, 8, sampleAddressText, [97, 46]⟩

/-- A client asks under id 0, and that reply has been read up to the device name length. -/
def outOfRangeEvents : List GatewayEvent :=
  [.receive (.tcp 0) (sampleHeader 0) (sampleBody 97), .handleAccept outOfRangeReply,
    .handleRead 0 false, .handleRead 0 false, .handleRead 0 false, .handleRead 0 false]

/-- The first client asks for `a.` under id 5 and its query times out; a second client asks for
`c.` under the same id, and the reply to the first has been read up to the device name
length. -/
def lateReplyEvents : List GatewayEvent :=
  timeoutEvents ++ [.receive (.tcp 1) (sampleHeader 5) (sampleBody 99), .handleAccept sampleReply,
    .handleRead 0 false, .handleRead 0 false, .handleRead 0 false, .handleRead 0 false]

/-- Neither the sequence number nor the device name of a successful reply need be those of
the query it answers. -/
theorem success_reply_can_mismatch :
    (¬ ∀ (cfg : Config) (tr : List (Transition Gateway GatewayEvent)) (g : Gateway),
      Run (system cfg) tr g → ∀ t ∈ tr, ∀ q, Succeeds t q → ∀ c conn,
        t.event = .handleRead c false → t.pre.recvConns[c]? = some conn →
          conn.message.sequence.toInt = (t.pre.queries q).id.toNat) ∧
    (¬ ∀ (cfg : Config) (tr : List (Transition Gateway GatewayEvent)) (g : Gateway),
      Run (system cfg) tr g → ∀ t ∈ tr, ∀ q, Succeeds t q → ∀ c conn,
        t.event = .handleRead c false → t.pre.recvConns[c]? = some conn →
          conn.message.deviceName = (t.pre.queries q).metric.deviceName) := by
  constructor
  · intro h
    obtain ⟨past, hrun, -⟩ := sampleRun_extend outOfRangeEvents (.handleRead 0 false)
      (by decide +kernel) (by decide +kernel)
    have hsuccess : (sampleNext outOfRangeEvents (.handleRead 0 false)).completed
        = (sampleAfter outOfRangeEvents).completed ++ [⟨0, .success, .success⟩] := by
      decide +kernel
    have hseq := h sampleConfig _ _ hrun _ (Run.last_mem past _) 0 ⟨.success, hsuccess⟩ 0
      ⟨outOfRangeReply, .devicenamelen, 8, 0⟩ rfl (by decide +kernel)
    revert hseq
    decide +kernel
  · -- the reply names the device `a.`, the query it answers asks for `c.`
    intro h
    obtain ⟨past, hrun, -⟩ := sampleRun_extend lateReplyEvents (.handleRead 0 false)
      (by decide +kernel) (by decide +kernel)
    have hsuccess : (sampleNext lateReplyEvents (.handleRead 0 false)).completed
        = (sampleAfter lateReplyEvents).completed ++ [⟨1, .success, .success⟩] := by
      decide +kernel
    have hname := h sampleConfig _ _ hrun _ (Run.last_mem past _) 1 ⟨.success, hsuccess⟩ 0
      ⟨sampleReply, .devicenamelen, 8, 5⟩ rfl (by decide +kernel)
    revert hname
    decide +kernel

/-- A client asks for `a.` under id 5, and the reply has been read up to the device name
length. -/
def promptReplyEvents : List GatewayEvent :=
  [.receive (.tcp 0) (sampleHeader 5) (sampleBody 97), .handleAccept sampleReply,
    .handleRead 0 false, .handleRead 0 false, .handleRead 0 false, .handleRead 0 false]

/-- The prompt reply matches its query. -/
theorem promptReply_matches : ∃ past c conn, MatchedReply sampleConfig past
    ⟨sampleAfter promptReplyEvents, .handleRead c false,
      sampleNext promptReplyEvents (.handleRead 0 false)⟩ 0 conn := by
  obtain ⟨past, hrun, -⟩ := sampleRun_extend promptReplyEvents (.handleRead 0 false)
    (by decide +kernel) (by decide +kernel)
  have hsuccess : (sampleNext promptReplyEvents (.handleRead 0 false)).completed
      = (sampleAfter promptReplyEvents).completed ++ [⟨0, .success, .success⟩] := by
    decide +kernel
  obtain ⟨c, conn, hevent, hconn, hmatched⟩ := success_reply_matches sampleConfig _ _ hrun past []
    _ rfl 0 ⟨.success, hsuccess⟩
  cases hevent
  exact ⟨past, 0, conn, hmatched⟩

end Gateway
