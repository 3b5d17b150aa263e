/-
# The answer section of a reply

A query object carries the sections of its client from the parser to the composer;
only the handler of a home agent's reply adds to them.

* `FromClient.of_run` : until it is completed a query has the answer records that the
  parser found in the client's message, and it always has the client's questions;
* `answers_from_home_agent` : the record that a completion adds to them;
* `answer_section_can_differ` : a reply need not hold that record alone.
-/
import Pweb.Dnsgw.ReplyMatching
import Pweb.Dnsgw.ComposerEmission

open DnsQueryParser AbsMessage

namespace Gateway

variable {cfg : Config} {g g' : Gateway} {e : GatewayEvent}

/-! ## What the client sent -/

/-- The query object `q` is what the parser made of a message received in `tr`. -/
def Accepted (tr : List (Transition Gateway GatewayEvent)) (q : ℕ) (client : DnsQuery) : Prop :=
  ∃ t ∈ tr, ∃ sender header body, t.event = .receive sender header body ∧
    t.pre.queryCount = q ∧ parseDnsQuery { sender := sender } header body = .ok client

/-- What a step does to the number of queries. -/
inductive ArrivalEffect (g : Gateway) (e : GatewayEvent) (g' : Gateway) : Prop
  | none (hcount : g'.queryCount = g.queryCount)
  | one {sender : Sender} {header : DnsQueryHeader} {body : Bytes} {client : DnsQuery}
      (he : e = .receive sender header body)
      (hparse : parseDnsQuery { sender := sender } header body = .ok client)
      (hcount : g'.queryCount = g.queryCount + 1)
      (hquestions : (g'.queries g.queryCount).questions = client.questions)
      (hanswers : (g'.queries g.queryCount).answers = client.answers)

theorem Effect.arrival (h : Effect cfg g e g') : ArrivalEffect g e g' := by
  cases h with
  | tick | handleResolve | ignored | advanced | deadline | handleAccept | read | readError =>
      exact .none rfl
  | rejected hparse metric offset rcode result hfailed =>
      refine .one rfl hparse rfl ?_ ?_
      · rw [completeQuery_queries, arrived_query]
        rfl
      · rw [completeQuery_queries, arrived_query]
        rfl
  | dropped hparse metric offset =>
      refine .one rfl hparse rfl ?_ ?_
      · rw [arrived_query]
      · rw [arrived_query]
  | @inserted _ _ _ client query' hparse hsane ha sendBuf hget hfree offset =>
      obtain ⟨metric, hmetric⟩ := composeGet_query ha.hostname ha.port cfg.nshostname cfg.nsport
        cfg.suffixes client
      obtain rfl : query' = { client with metric := metric } := by rw [← hmetric, hget]
      have hquery := Function.update_self g.queryCount { client with metric := metric } g.queries
      have hquestions := congrArg DnsQuery.questions hquery
      have hanswers := congrArg DnsQuery.answers hquery
      exact .one rfl hparse rfl hquestions hanswers
  | failed hconn he =>
      obtain ⟨_, _, _, _, hframe⟩ := failQuery_frame (g.setStage _ _ .closed) _
      rw [hframe]
      exact .none rfl
  | handleTimer htimer => exact .none (removeAndComplete_queryCount _ _ _)
  | replied hconn hstage => exact .none (removeAndComplete_queryCount _ _ _)
  | replyFailed hconn hstage => exact .none (removeAndComplete_queryCount _ _ _)

/-- A removal that leaves the query it completes alone keeps all answer sections. -/
theorem removeAndComplete_answers (g : Gateway) (sequence : UInt16) {f : DnsQuery → Completion}
    (q : ℕ) (hf : g.map sequence = some q → (f (g.queries q)).query = g.queries q) :
    ((g.removeAndComplete sequence f).queries q).answers = (g.queries q).answers := by
  rcases hentry : g.map sequence with _ | q'
  · rw [removeAndComplete_of_none g f hentry]
  · by_cases hq : q = q'
    · subst hq
      rw [removeAndComplete_queries f hentry, hf hentry]
      rfl
    · rw [removeAndComplete_queries_ne f hentry hq]

/-- A reply that is not a success leaves the query alone. -/
theorem replyCompletion_failure {fromString : Bytes → Option IpAddress} {ttl : UInt16}
    {conn : HaRecvConnection} {query : DnsQuery}
    (h : (replyCompletion fromString ttl conn query).rcode ≠ .success) :
    (replyCompletion fromString ttl conn query).query = query := by
  unfold replyCompletion at h ⊢
  split_ifs at h ⊢ with hzero hlt
  · rfl
  · split at h
    · exact absurd rfl h
    · rfl
  · rfl

/-- **Answers are added with a success only.** -/
theorem Effect.answers (h : Effect cfg g e g') {q : ℕ} (hq : q < g.queryCount)
    (hfailed : ∀ result, g'.completed ≠ g.completed ++ [⟨q, .success, result⟩]) :
    (g'.queries q).answers = (g.queries q).answers := by
  cases h with
  | tick | handleResolve | ignored | advanced | deadline | handleAccept | read | readError => rfl
  | rejected hparse metric offset rcode result _ =>
      rw [completeQuery_queries_ne _ (Nat.ne_of_lt hq), arrived_queries_lt hq]
  | dropped hparse metric offset => rw [arrived_queries_lt hq]
  | inserted hparse hsane ha hget hfree offset =>
      exact congrArg DnsQuery.answers (arrived_queries_lt hq _ offset)
  | @failed _ q' conn hconn he =>
      obtain ⟨map, timers, hframe⟩ := remove_frame (g.setStage q' conn .closed)
        ((g.setStage q' conn .closed).queries q').id
      by_cases heq : q = q'
      · rw [failQuery, heq, completeQuery_queries, hframe]
        rfl
      · rw [failQuery, completeQuery_queries_ne _ heq, hframe]
        rfl
  | handleTimer htimer => exact removeAndComplete_answers _ _ q fun _ => rfl
  | replyFailed hconn hstage => exact removeAndComplete_answers _ _ q fun _ => rfl
  | @replied c conn hconn hstage =>
      apply removeAndComplete_answers
      intro hentry
      apply replyCompletion_failure
      intro hsuccess
      apply hfailed (replyCompletion cfg.fromString cfg.ttl conn (g.queries q)).result
      rw [← hsuccess]
      exact removeAndComplete_completed (replyCompletion cfg.fromString cfg.ttl conn) hentry

/-- Every query has the questions of its client, and the answer records of its client until it
is completed. -/
def FromClient (tr : List (Transition Gateway GatewayEvent)) (g : Gateway) : Prop :=
  ∀ q < g.queryCount, ∃ client, Accepted tr q client ∧
    (g.queries q).questions = client.questions ∧
    (q ∉ g.completed.map Completed.query → (g.queries q).answers = client.answers)

theorem FromClient.of_run {tr : List (Transition Gateway GatewayEvent)}
    (h : Run (system cfg) tr g) : FromClient tr g := by
  refine h.invariant_trace (J := FromClient) (fun g₀ h₀ q hq => ?_)
    fun tr g e g' hrun ih hs q hq => ?_
  · rw [h₀.1] at hq
    exact absurd hq (Nat.not_lt_zero q)
  · have heffect := Effect.of_step hs
    by_cases hold : q < g.queryCount
    · obtain ⟨client, ⟨t, ht, haccepted⟩, hquestions, hanswers⟩ := ih q hold
      refine ⟨client, ⟨t, List.mem_append_left _ ht, haccepted⟩, ?_, fun hnot => ?_⟩
      · rw [(heffect.sameRequest hold).questions, hquestions]
      · have hpast : q ∉ g.completed.map Completed.query := by
          intro hmem
          apply hnot
          rcases heffect.completion with ⟨hsame, -⟩ | ⟨-, hnew, -⟩
          · rwa [hsame]
          · rw [hnew, List.map_append]
            exact List.mem_append_left _ hmem
        rw [heffect.answers hold fun result hnew => ?_, hanswers hpast]
        rw [hnew, List.map_append] at hnot
        exact hnot (List.mem_append_right _ List.mem_cons_self)
    · rcases heffect.arrival with hcount | ⟨he, hparse, hcount, hquestions, hanswers⟩
      · omega
      · obtain rfl : q = g.queryCount := by omega
        exact ⟨_, ⟨_, Run.last_mem tr _, _, _, _, he, rfl, hparse⟩, hquestions, fun _ => hanswers⟩

/-- A query that was sent to a home agent had passed the sanity check. -/
theorem sane_of_run {tr : List (Transition Gateway GatewayEvent)} (h : Run (system cfg) tr g) :
    ∀ q, (g.sendConns q).isSome → sanityCheck (g.queries q) = none := by
  refine h.invariant_trace (J := fun _ g => ∀ q, (g.sendConns q).isSome →
    sanityCheck (g.queries q) = none) (fun g₀ h₀ q hconn => ?_) fun tr g e g' hrun ih hs q hconn => ?_
  · rw [h₀.2.2.2.1] at hconn
    cases hconn
  · have heffect := Effect.of_step hs
    rcases heffect.sendConn q with hkept | ⟨rfl, ha, hsane, hget, -⟩
    · have hold : (g.sendConns q).isSome := by
        rw [← Option.isSome_map (f := HaSendConnection.sendBuf), ← hkept, Option.isSome_map]
        exact hconn
      have hsame := heffect.sameRequest ((Wf.of_run hrun).lt_queryCount hold)
      rw [sanityCheck, hsame.questions]
      exact ih q hold
    · obtain ⟨metric, hmetric⟩ := composeGet_query ha.hostname ha.port cfg.nshostname cfg.nsport
        cfg.suffixes _
      rw [hget] at hmetric
      dsimp only at hmetric
      rw [hmetric]
      exact hsane

/-! ## What a completion adds -/

/-- The answer records of a query besides those of its client. -/
def addedAnswers (client query : DnsQuery) : List DnsRr := query.answers.drop client.answers.length

/-- The record for an address: for the name and the class of the question, and of its type,
which is A, unless it is an IPv6 address. -/
def addressRecord (question : DnsQuestion) (addr : IpAddress) (ttl : UInt16) : DnsRr :=
  match addr with
  | .v4 bytes => ⟨question.name, question.qtype, question.qclass, ttl.toUInt32, 4, bytes.toList⟩
  | .v6 bytes => ⟨question.name, tAaaa, question.qclass, ttl.toUInt32, 16, bytes.toList⟩

/-- What is true of the answer section when `c` completes a query that the client sent as
`client`. -/
structure AnswerSection (cfg : Config) (t : Transition Gateway GatewayEvent) (c : Completed)
    (client : DnsQuery) : Prop where
  /-- Nothing is added, if this is the first completion of the query. -/
  failure : c.rcode ≠ .success → c.query ∉ t.pre.completed.map Completed.query →
    addedAnswers client (t.post.queries c.query) = []
  /-- One record is added: the address in a home agent's reply. -/
  success : c.rcode = .success → ∃ i conn addr question rest,
    t.event = .handleRead i false ∧ t.pre.recvConns[i]? = some conn ∧
    cfg.fromString (cString conn.message.host conn.message.castHostlen) = some addr ∧
    client.questions = question :: rest ∧
    addedAnswers client (t.post.queries c.query) = [addressRecord question addr cfg.ttl]
  /-- In the reply they follow the question section and the records of the client. -/
  composed : ∀ size out, composeDnsResponse (t.post.queries c.query) size = .ok out →
    ∃ rest, out = (t.post.queries c.query).encodeQuestions ++
      (((t.post.queries c.query).answers.take client.answers.length ++
        addedAnswers client (t.post.queries c.query)).flatMap DnsRr.encode ++ rest)

/-- A question that passes the sanity check is for an A record of class IN. -/
theorem sanityCheck_eq_none {query : DnsQuery} (h : sanityCheck query = none) :
    ∃ question rest, query.questions = question :: rest ∧ question.qtype = tA ∧
      question.qclass = cIn := by
  unfold sanityCheck at h
  split at h
  · cases h
  · next question rest hquestions =>
    split_ifs at h with hother
    push Not at hother
    exact ⟨question, rest, hquestions, hother.1, hother.2⟩

/-- The record of a reply is the address record of the first question. -/
theorem answerRr_eq_addressRecord {query : DnsQuery} {question : DnsQuestion}
    {rest : List DnsQuestion} (hquestions : query.questions = question :: rest)
    (hqtype : question.qtype = tA) (hqclass : question.qclass = cIn) (addr : IpAddress)
    (ttl : UInt16) : answerRr query.firstName addr ttl = addressRecord question addr ttl := by
  have hname : query.firstName = question.name := by rw [DnsQuery.firstName, hquestions]
  rw [hname]
  cases addr with
  | v4 bytes => rw [addressRecord, hqtype, hqclass, answerRr]
  | v6 bytes => rw [addressRecord, hqclass, answerRr]

/-- **The answer section.**  To the answer records of the client the first completion of a query
adds nothing if it is a failure; a success adds exactly one record, with the address in the
home agent's reply, for the name and class of the first question. -/
theorem answers_from_home_agent (cfg : Config) (tr : List (Transition Gateway GatewayEvent))
    (g : Gateway) (h : Run (system cfg) tr g) (past future : List (Transition Gateway GatewayEvent))
    (t : Transition Gateway GatewayEvent) (hsplit : tr = past ++ t :: future) (c : Completed)
    (hc : t.post.completed = t.pre.completed ++ [c]) :
    ∃ client, Accepted (past ++ [t]) c.query client ∧ AnswerSection cfg t c client := by
  subst hsplit
  obtain ⟨hpast, hs⟩ := h.at_split
  obtain ⟨g₁, e, g₂⟩ := t
  have heffect : Effect cfg g₁ e g₂ := Effect.of_step hs
  have hwf := Wf.of_run hpast
  have hcomposed : ∀ (client query : DnsQuery) size out, composeDnsResponse query size = .ok out →
      ∃ rest, out = query.encodeQuestions ++ ((query.answers.take client.answers.length ++
        addedAnswers client query).flatMap DnsRr.encode ++ rest) := by
    intro client query size out hout
    obtain ⟨-, -, rfl⟩ := (composeDnsResponse_eq_ok_iff query size out).mp hout
    rw [addedAnswers, List.take_append_drop]
    exact ⟨_, rfl⟩
  by_cases hold : c.query < g₁.queryCount
  · obtain ⟨client, ⟨t, ht, haccepted⟩, hquestions, hanswers⟩ := FromClient.of_run hpast _ hold
    refine ⟨client, ⟨t, List.mem_append_left _ ht, haccepted⟩, ?_, ?_, hcomposed client _⟩
    · intro hfailed hfirst
      have hkept := heffect.answers hold (q := c.query) fun result hnew => by
        have hc' := List.append_cancel_left (hnew.symm.trans hc)
        exact hfailed (congrArg Completed.rcode (List.singleton_inj.mp hc')).symm
      show List.drop _ (g₂.queries c.query).answers = []
      rw [hkept, hanswers hfirst, List.drop_length]
    · intro hsuccess
      have hsucceeds : Succeeds ⟨g₁, e, g₂⟩ c.query := ⟨c.result, by rw [hc, ← hsuccess]⟩
      obtain ⟨i, conn, rfl, hconn, hstage, hentry, hrcode⟩ := hsucceeds.cases heffect
      obtain ⟨addr, haddr, hreply⟩ := replyCompletion_success hrcode
      obtain ⟨hsent, -⟩ := registered_eq_some.mp (hwf.sound.registered _ _ hentry)
      obtain ⟨question, rest, hsane, hqtype, hqclass⟩ :=
        sanityCheck_eq_none (sane_of_run hpast _ hsent)
      have hquery := replied_query hs hconn hstage hentry
      rw [hreply] at hquery
      have hhostlen := (consistent_of_run hpast conn (List.mem_of_getElem? hconn)).hostlen hstage
      refine ⟨i, conn, addr, question, rest, rfl, hconn, ?_, hquestions.symm.trans hsane, ?_⟩
      · rw [← hhostlen]
        exact haddr
      · -- the query has not been completed before, since it is in the map
        have hpre := hanswers (hwf.sound.not_settled _ _ hentry)
        show List.drop _ (g₂.queries c.query).answers = _
        rw [hquery, answerRr_eq_addressRecord hsane hqtype hqclass]
        show List.drop _ ((g₁.queries c.query).answers ++ _) = _
        rw [hpre, List.drop_left]
  · -- the query arrives in this step and is completed at once
    have hlt : c.query < g₂.queryCount := by
      by_contra hge
      apply ((hwf.step hs).fresh c.query (not_lt.mp hge)).not_settled
      show c.query ∈ g₂.completed.map Completed.query
      rw [hc, List.map_append]
      exact List.mem_append_right _ List.mem_cons_self
    rcases heffect.arrival with hcount | ⟨he, hparse, hcount, hquestions, hanswers⟩
    · omega
    · have hnew : c.query = g₁.queryCount := by omega
      refine ⟨_, ⟨_, Run.last_mem past _, _, _, _, he, hnew.symm, hparse⟩, fun _ _ => ?_,
        fun hsuccess => ?_, hcomposed _ _⟩
      · show List.drop _ (g₂.queries c.query).answers = []
        rw [hnew, hanswers, List.drop_length]
      · have hsucceeds : Succeeds ⟨g₁, e, g₂⟩ c.query := ⟨c.result, by rw [hc, ← hsuccess]⟩
        obtain ⟨i, conn, -, hconn, hstage, hentry, -⟩ := hsucceeds.cases heffect
        obtain ⟨hsent, -⟩ := registered_eq_some.mp (hwf.sound.registered _ _ hentry)
        exact absurd (hwf.lt_queryCount hsent) hold

/-! ## Replies with other records -/

/-- The claim that the answer section comes from the home agent only. -/
def OnlyFromHomeAgent (query : DnsQuery) (rcode : Rcode) : Prop :=
  (rcode ≠ .success → query.answers = []) ∧
    (rcode = .success → ∃ question rest rr, query.questions = question :: rest ∧
      query.answers = [rr] ∧ rr.name = question.name ∧ rr.rtype = question.qtype ∧
      rr.rclass = question.qclass)

/-- The completion `c`, the last of a run, leaves the query with another answer section. -/
def BreaksClaim (cfg : Config) (t : Transition Gateway GatewayEvent) (c : Completed) : Prop :=
  (∃ past, Run (system cfg) (past ++ [t]) t.post) ∧ t.post.completed = t.pre.completed ++ [c] ∧
    ¬ OnlyFromHomeAgent (t.post.queries c.query) c.rcode

/-- A header that announces one question and one answer. -/
def answerHeader : DnsQueryHeader := ⟨#v[0, 5, 1, 0, 0, 1, 0, 1, 0, 0, 0, 0]⟩

/-- The client sends an answer record of its own, and the query times out. -/
def ownAnswerEvents : List GatewayEvent :=
  [.receive (.tcp 0) answerHeader
    (sampleBody 97 ++ [1, 97, 1, 98, 0, 0, 1, 0, 1, 0, 0, 0, 60, 0, 4, 9, 9, 9, 9]),
    .tick 12, .deadline 0]

/-- The text `::1` is an address. -/
def ipv6Config : Config :=
  { sampleConfig with
    fromString := fun s => if s = [58, 58, 49] then
      some (.v6 #v[0, 0, 0, 0, 0, 0, 0, 0, 0, 0, 0, 0, 0, 0, 0, 1]) else none }

/-- The reply with that text has been read up to the device name length. -/
def ipv6Events : List GatewayEvent :=
  [.receive (.tcp 0) (sampleHeader 5) (sampleBody 97),
    .handleAccept ⟨absReply, 5, 3, [58, 58, 49], [97, 46]⟩, .handleRead 0 false,
    .handleRead 0 false, .handleRead 0 false, .handleRead 0 false]

def ipv6Before : Gateway := ((system ipv6Config).exec sampleGateway ipv6Events).getD sampleGateway

def ipv6After : Gateway :=
  ((system ipv6Config).step ipv6Before (.handleRead 0 false)).getD sampleGateway

/-- The reply comes while the query is being sent. -/
def earlyReplyEvents : List GatewayEvent :=
  [.receive (.tcp 0) (sampleHeader 5) (sampleBody 97), .handleConnect 0 false,
    .handleAccept sampleReply, .handleRead 0 false, .handleRead 0 false, .handleRead 0 false,
    .handleRead 0 false, .handleRead 0 false]

/-- **The answer section can differ**: a reply repeats the answer records of its client; the
answer to a question for an A record is an AAAA record for an IPv6 address; and a write that
fails after the reply completes the query again, with the record of the reply. -/
theorem answer_section_can_differ :
    BreaksClaim sampleConfig ⟨sampleAfter ownAnswerEvents, .handleTimer 0,
      sampleNext ownAnswerEvents (.handleTimer 0)⟩ ⟨0, .nameError, .timeout⟩ ∧
    BreaksClaim ipv6Config ⟨ipv6Before, .handleRead 0 false, ipv6After⟩
      ⟨0, .success, .success⟩ ∧
    BreaksClaim sampleConfig ⟨sampleAfter earlyReplyEvents, .handleQuerySent 0 true,
      sampleNext earlyReplyEvents (.handleQuerySent 0 true)⟩
      ⟨0, .serverFailure, .haConnectionError⟩ := by
  refine ⟨⟨?_, by decide +kernel, fun h => ?_⟩, ⟨?_, by decide +kernel, fun h => ?_⟩,
    ⟨?_, by decide +kernel, fun h => ?_⟩⟩
  · obtain ⟨past, hrun, -⟩ := sampleRun_extend ownAnswerEvents (.handleTimer 0)
      (by decide +kernel) (by decide +kernel)
    exact ⟨past, hrun⟩
  · have hnone := h.1 (by decide)
    revert hnone
    decide +kernel
  · have hexec : ((system ipv6Config).exec sampleGateway ipv6Events).isSome := by decide +kernel
    have hstep : ((system ipv6Config).step ipv6Before (.handleRead 0 false)).isSome := by
      decide +kernel
    obtain ⟨g, hg⟩ := Option.isSome_iff_exists.mp hexec
    obtain ⟨g', hg'⟩ := Option.isSome_iff_exists.mp hstep
    have hbefore : ipv6Before = g := by rw [ipv6Before, hg, Option.getD_some]
    have hafter : ipv6After = g' := by rw [ipv6After, hg', Option.getD_some]
    obtain ⟨past, hrun, -⟩ := Run.of_exec sampleGateway_initial hg
    rw [hafter, hbefore]
    rw [hbefore] at hg'
    exact ⟨past, hrun.extend hg'⟩
  · obtain ⟨question, rest, rr, hquestions, hanswers, -, hrtype, -⟩ := h.2 rfl
    have htypes : (ipv6After.queries 0).answers.map DnsRr.rtype = [tAaaa] ∧
        (ipv6After.queries 0).questions.map DnsQuestion.qtype = [tA] := by
      decide +kernel
    have hrr : rr.rtype = tAaaa := by
      have heq := htypes.1
      rw [hanswers] at heq
      exact List.singleton_inj.mp heq
    have hquestion : question.qtype = tA := by
      have heq := htypes.2
      rw [hquestions] at heq
      exact (List.cons.inj heq).1
    rw [hrr, hquestion] at hrtype
    exact absurd hrtype (by decide)
  · obtain ⟨past, hrun, -⟩ := sampleRun_extend earlyReplyEvents (.handleQuerySent 0 true)
      (by decide +kernel) (by decide +kernel)
    exact ⟨past, hrun⟩
  · have hnone := h.1 (by decide)
    revert hnone
    decide +kernel

/-- The prompt reply adds its address record. -/
theorem promptReply_added : ∃ past client,
    Accepted (past ++ [⟨sampleAfter promptReplyEvents, .handleRead 0 false,
      sampleNext promptReplyEvents (.handleRead 0 false)⟩]) 0 client ∧
    AnswerSection sampleConfig ⟨sampleAfter promptReplyEvents, .handleRead 0 false,
      sampleNext promptReplyEvents (.handleRead 0 false)⟩ ⟨0, .success, .success⟩ client := by
  obtain ⟨past, hrun, -⟩ := sampleRun_extend promptReplyEvents (.handleRead 0 false)
    (by decide +kernel) (by decide +kernel)
  have hcompleted : (sampleNext promptReplyEvents (.handleRead 0 false)).completed
      = (sampleAfter promptReplyEvents).completed ++ [⟨0, .success, .success⟩] := by
    decide +kernel
  obtain ⟨client, haccepted, hanswers⟩ := answers_from_home_agent sampleConfig _ _ hrun past []
    _ rfl ⟨0, .success, .success⟩ hcompleted
  exact ⟨past, client, haccepted, hanswers⟩

end Gateway
