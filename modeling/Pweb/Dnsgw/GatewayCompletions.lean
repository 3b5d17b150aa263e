/-
# Who completes what

`Effect.completion` : a step that calls `complete_query` does it once, for one of five
reasons (`NewCompletion`), and leaves all other queries as they are.
-/
import Pweb.Dnsgw.GatewaySteps

open DnsQueryParser

namespace Gateway

variable {cfg : Config} {g g' : Gateway} {e : GatewayEvent}

/-- The calls of `complete_query` an event can make: for the query that arrives, for the
query of a connection that fails, and for the query that is removed from the map by a
timer handler or by a reply, read to its device name length or broken off there. -/
inductive NewCompletion (cfg : Config) (g : Gateway) : GatewayEvent → Completed → Prop
  | rejected {sender : Sender} {header : DnsQueryHeader} {body : Bytes} {rcode : Rcode}
      {result : MetricResult} (hfailed : rcode ≠ .success ∧ result ≠ .timeout) :
      NewCompletion cfg g (.receive sender header body) ⟨g.queryCount, rcode, result⟩
  | failed {e : GatewayEvent} {q : ℕ} (he : Fails e q) :
      NewCompletion cfg g e ⟨q, .serverFailure, .haConnectionError⟩
  | timedOut {q q' : ℕ} (hentry : g.map (g.queries q').id = some q) :
      NewCompletion cfg g (.handleTimer q') ⟨q, .nameError, .timeout⟩
  | replied {c q : ℕ} {conn : HaRecvConnection} (hconn : g.recvConns[c]? = some conn)
      (hstage : conn.stage = .devicenamelen) (hentry : g.map conn.sequence = some q) :
      NewCompletion cfg g (.handleRead c false)
        ⟨q, (replyCompletion cfg.fromString cfg.ttl conn (g.queries q)).rcode,
          (replyCompletion cfg.fromString cfg.ttl conn (g.queries q)).result⟩
  | replyFailed {c q : ℕ} {conn : HaRecvConnection} (hconn : g.recvConns[c]? = some conn)
      (hstage : conn.stage = .devicenamelen) (hentry : g.map conn.sequence = some q) :
      NewCompletion cfg g (.handleRead c true) ⟨q, .serverFailure, .unknown⟩

/-- What a step does to the completions and to the queries that were there before. -/
inductive CompletionEffect (cfg : Config) (g : Gateway) (e : GatewayEvent) (g' : Gateway) : Prop
  | none (hcompleted : g'.completed = g.completed)
      (hqueries : ∀ q < g.queryCount, g'.queries q = g.queries q)
  | one {c : Completed} (hnew : NewCompletion cfg g e c)
      (hcompleted : g'.completed = g.completed ++ [c])
      (hrcode : (g'.queries c.query).rcode = c.rcode)
      (hsame : ∀ q < g.queryCount, (g'.queries q).SameRequest (g.queries q))
      (hqueries : ∀ q < g.queryCount, q ≠ c.query → g'.queries q = g.queries q)

theorem completeQuery_queries_ne (g : Gateway) {q q' : ℕ} (hne : q' ≠ q) (rcode : Rcode)
    (result : MetricResult) : (g.completeQuery q rcode result).queries q' = g.queries q' :=
  Function.update_of_ne hne _ _

theorem setQuery_queries (g : Gateway) (q : ℕ) (query : DnsQuery) :
    (g.setQuery q query).queries q = query :=
  Function.update_self _ _ _

theorem completeQuery_queries (g : Gateway) (q : ℕ) (rcode : Rcode) (result : MetricResult) :
    (g.completeQuery q rcode result).queries q = (g.queries q).complete rcode result :=
  Function.update_self _ _ _

theorem arrived_queries_lt {q : ℕ} (hq : q < g.queryCount) (query : DnsQuery) (offset : ℕ) :
    (g.arrived query offset).queries q = g.queries q :=
  Function.update_of_ne (Nat.ne_of_lt hq) _ _

section Remove

variable {sequence : UInt16} {q : ℕ} (f : DnsQuery → Completion)

theorem removeAndComplete_completed (h : g.map sequence = some q) :
    (g.removeAndComplete sequence f).completed
      = g.completed ++ [⟨q, (f (g.queries q)).rcode, (f (g.queries q)).result⟩] := by
  obtain ⟨map, timers, hframe⟩ := remove_frame g sequence
  rw [removeAndComplete_of_some g f h, hframe]
  rfl

theorem removeAndComplete_queries (h : g.map sequence = some q) :
    (g.removeAndComplete sequence f).queries q =
      (f (g.queries q)).query.complete (f (g.queries q)).rcode (f (g.queries q)).result := by
  rw [removeAndComplete_of_some g f h, completeQuery_queries, setQuery_queries]

theorem removeAndComplete_queries_ne (h : g.map sequence = some q) {q' : ℕ} (hne : q' ≠ q) :
    (g.removeAndComplete sequence f).queries q' = g.queries q' := by
  obtain ⟨map, timers, hframe⟩ := remove_frame g sequence
  rw [removeAndComplete_of_some g f h, completeQuery_queries_ne _ hne, hframe]
  show Function.update g.queries q _ q' = g.queries q'
  rw [Function.update_of_ne hne]

end Remove

/-- A removal under an id completes the query that held it, if any; `g₁` is the state in
which the handler removes it. -/
theorem CompletionEffect.of_removeAndComplete {g₁ : Gateway} {sequence : UInt16}
    {f : DnsQuery → Completion} (hmap : g₁.map = g.map) (hqueries : g₁.queries = g.queries)
    (hcompleted : g₁.completed = g.completed)
    (hf : ∀ query, (f query).query.SameRequest query)
    (h : ∀ q, g.map sequence = some q →
      NewCompletion cfg g e ⟨q, (f (g.queries q)).rcode, (f (g.queries q)).result⟩) :
    CompletionEffect cfg g e (g₁.removeAndComplete sequence f) := by
  cases hentry : g.map sequence with
  | none =>
      rw [removeAndComplete_of_none g₁ f (by rw [hmap, hentry])]
      exact .none hcompleted fun q _ => congrFun hqueries q
  | some q =>
      have hentry₁ : g₁.map sequence = some q := by rw [hmap, hentry]
      refine .one (h q hentry) ?_ ?_ (fun q' _ => ?_) fun q' _ hne => ?_
      · rw [removeAndComplete_completed f hentry₁, hcompleted, hqueries]
      · rw [removeAndComplete_queries f hentry₁, hqueries]
        rfl
      · by_cases hq : q' = q
        · rw [hq, removeAndComplete_queries f hentry₁, hqueries]
          exact (hf (g.queries q)).complete _ _
        · rw [removeAndComplete_queries_ne f hentry₁ hq, hqueries]
          exact .refl _
      · rw [removeAndComplete_queries_ne f hentry₁ hne, hqueries]

/-- **Completions.**  A step calls `complete_query` at most once. -/
theorem Effect.completion (h : Effect cfg g e g') : CompletionEffect cfg g e g' := by
  cases h with
  | tick | handleResolve | ignored | advanced | deadline | handleAccept | read | readError =>
      exact .none rfl fun _ _ => rfl
  | rejected hparse metric offset rcode result hfailed =>
      refine .one (.rejected hfailed) rfl ?_ (fun q hq => ?_) fun q hq hne => ?_
      · rw [completeQuery_queries]
        rfl
      · rw [completeQuery_queries_ne _ (Nat.ne_of_lt hq), arrived_queries_lt hq]
        exact .refl _
      · rw [completeQuery_queries_ne _ hne, arrived_queries_lt hq]
  | dropped hparse metric offset =>
      exact .none rfl fun q hq => arrived_queries_lt hq _ _
  | inserted hparse hsane ha hget hfree offset =>
      exact .none rfl fun q hq => arrived_queries_lt hq _ offset
  | @failed _ q conn hconn he =>
      obtain ⟨map, timers, hframe⟩ := remove_frame (g.setStage q conn .closed)
        ((g.setStage q conn .closed).queries q).id
      -- whatever `remove` returns, it is `q` that is completed
      refine .one (.failed he) ?_ ?_ (fun q' _ => ?_) fun q' _ hne => ?_
      · rw [failQuery, hframe]
        rfl
      · rw [failQuery, completeQuery_queries]
        rfl
      · by_cases hq : q' = q
        · rw [hq, failQuery, completeQuery_queries, hframe]
          exact (DnsQuery.SameRequest.refl (g.queries q)).complete _ _
        · rw [failQuery, completeQuery_queries_ne _ hq, hframe]
          exact .refl _
      · rw [failQuery, completeQuery_queries_ne _ hne, hframe]
        rfl
  | @handleTimer q htimer =>
      exact .of_removeAndComplete rfl rfl rfl .refl fun q' hentry => .timedOut hentry
  | replied hconn hstage =>
      exact .of_removeAndComplete rfl rfl rfl (replyCompletion_sameRequest _ _ _)
        fun q hentry => .replied hconn hstage hentry
  | replyFailed hconn hstage =>
      exact .of_removeAndComplete rfl rfl rfl .refl
        fun q hentry => .replyFailed hconn hstage hentry

/-- The completion that a step adds is a new one. -/
theorem CompletionEffect.of_completed {c : Completed} (h : CompletionEffect cfg g e g')
    (hcompleted : g'.completed = g.completed ++ [c]) : NewCompletion cfg g e c := by
  cases h with
  | none hnone hqueries =>
      rw [hnone] at hcompleted
      simp at hcompleted
  | @one c' hnew hone hrcode hsame hqueries =>
      rw [hone] at hcompleted
      obtain rfl : c' = c := by simpa using hcompleted
      exact hnew

/-- **What was asked stays**: no step changes the id, the sender, the questions or the device
name of a query that was there before. -/
theorem Effect.sameRequest (h : Effect cfg g e g') {q : ℕ} (hq : q < g.queryCount) :
    (g'.queries q).SameRequest (g.queries q) := by
  cases h.completion with
  | none hcompleted hqueries =>
      rw [hqueries q hq]
      exact .refl _
  | one hnew hcompleted hrcode hsame hqueries => exact hsame q hq

end Gateway
