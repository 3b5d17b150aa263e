/-
# Outstanding queries: none lost, none answered twice

Whoever removes an entry from the query map by its id has the right to answer it.  Timer
handlers and replies answer what they have removed; the two failure handlers answer
their own query, whatever was removed.

* `no_query_lost_iff` : no query is lost in a run exactly when every failure finds the
  id of its query free or held by the query itself;
* `completed_at_most_once_iff` : no query is completed twice in a run exactly when
  every failure finds its query in the map.
-/
import Pweb.Dnsgw.GatewayTable
import Pweb.Dnsgw.GatewayCompletions

namespace Gateway

variable {cfg : Config} {g g' : Gateway} {e : GatewayEvent}

/-! ## A gateway with one home agent -/

/-- The digits of 10.0.0.1 in ASCII. -/
def sampleAddressText : Bytes := [49, 48, 46, 48, 46, 48, 46, 49]

/-- The suffix is `b.`, and queries time out after 12 units. -/
def sampleConfig : Config where
  homeAgents := [⟨[104], 5000⟩]
  homeAgents_ne := List.cons_ne_nil _ _
  nshostname := [110]
  nsport := 5001
  suffixes := [[98, 46]]
  ttl := 3600
  timeout := 12
  fromString s := if s = sampleAddressText then some (.v4 #v[10, 0, 0, 1]) else none

/-- Nothing has happened yet, and the proxy is enabled. -/
def sampleGateway : Gateway where
  enabled _ := true
  queries _ := { sender := .tcp 0 }

theorem sampleGateway_initial : sampleGateway.Initial := ⟨rfl, rfl, rfl, rfl, rfl, rfl⟩

/-- A header that announces one question, with the given low byte of the id. -/
def sampleHeader (id : UInt8) : DnsQueryHeader := ⟨#v[0, id, 1, 0, 0, 1, 0, 0, 0, 0, 0, 0]⟩

/-- The question for the A record of `x.b`, where `x` is the given byte. -/
def sampleBody (x : UInt8) : Bytes := [1, x, 1, 98, 0, 0, 1, 0, 1]

/-- The first client asks under id 5 and its query times out. -/
def timeoutEvents : List GatewayEvent :=
  [.receive (.tcp 0) (sampleHeader 5) (sampleBody 97), .tick 12, .deadline 0, .handleTimer 0]

/-- The state some events lead to from the sample gateway, or that gateway itself. -/
def sampleAfter (events : List GatewayEvent) : Gateway :=
  ((system sampleConfig).exec sampleGateway events).getD sampleGateway

theorem sampleRun (events : List GatewayEvent)
    (h : ((system sampleConfig).exec sampleGateway events).isSome) :
    ∃ tr, Run (system sampleConfig) tr (sampleAfter events) ∧
      tr.map Transition.event = events := by
  obtain ⟨g, hg⟩ := Option.isSome_iff_exists.mp h
  have hafter : sampleAfter events = g := by rw [sampleAfter, hg, Option.getD_some]
  rw [hafter]
  exact Run.of_exec sampleGateway_initial hg

/-- One more event after some. -/
def sampleNext (events : List GatewayEvent) (e : GatewayEvent) : Gateway :=
  ((system sampleConfig).step (sampleAfter events) e).getD sampleGateway

theorem sampleRun_extend (events : List GatewayEvent) (e : GatewayEvent)
    (h : ((system sampleConfig).exec sampleGateway events).isSome)
    (he : ((system sampleConfig).step (sampleAfter events) e).isSome) :
    ∃ past, Run (system sampleConfig) (past ++ [⟨sampleAfter events, e, sampleNext events e⟩])
      (sampleNext events e) ∧ past.map Transition.event = events := by
  obtain ⟨past, hrun, hevents⟩ := sampleRun events h
  obtain ⟨g, hg⟩ := Option.isSome_iff_exists.mp he
  refine ⟨past, hrun.extend ?_, hevents⟩
  rw [sampleNext, hg, Option.getD_some]

theorem timeoutEvents_no_failure : ∀ e ∈ timeoutEvents, ∀ q, ¬ Fails e q := by
  simp [timeoutEvents, Fails]

/-! ## Lost queries -/

/-- Every query that was inserted and has not been passed to `complete_query` is in the
map under its id. -/
def NoQueryLost (g : Gateway) : Prop :=
  ∀ q, (g.sendConns q).isSome → q ∉ g.completed.map Completed.query →
    g.map (g.queries q).id = some q

/-- A query whose connection fails in this step finds its id free or its own. -/
def FailureSparesOthers (t : Transition Gateway GatewayEvent) : Prop :=
  ∀ q, Fails t.event q →
    t.pre.map (t.pre.queries q).id = none ∨ t.pre.map (t.pre.queries q).id = some q

theorem registered_eq_some {q : ℕ} {k : UInt16} :
    g.table.registered q = some k ↔ (g.sendConns q).isSome ∧ (g.queries q).id = k := by
  show (g.sendConns q).map (fun _ => (g.queries q).id) = some k ↔ _
  cases g.sendConns q <;> simp

theorem noneLost_table_iff : g.table.NoneLost ↔ g.NoQueryLost := by
  constructor
  · intro h q hconn hmem
    exact h q _ (registered_eq_some.mpr ⟨hconn, rfl⟩) hmem
  · intro h q k hreg hmem
    obtain ⟨hconn, rfl⟩ := registered_eq_some.mp hreg
    exact h q hconn hmem

/-- The query that fails is determined by the event. -/
theorem Fails.unique {q q' : ℕ} (h : Fails e q) (h' : Fails e q') : q = q' := by
  rcases h with rfl | rfl <;> rcases h' with h' | h' <;> cases h' <;> rfl

/-- **One step.**  Where nothing has been lost so far, nothing is lost by the step exactly
when a failure spares the other queries. -/
theorem noQueryLost_step_iff (hwf : g.Wf) (hl : g.NoQueryLost)
    (hs : (system cfg).step g e = some g') :
    g'.NoQueryLost ↔ FailureSparesOthers ⟨g, e, g'⟩ := by
  have hlost := noneLost_table_iff.mpr hl
  rw [← noneLost_table_iff]
  have heffect := (Effect.of_step hs).table hwf
  generalize g'.table = t' at heffect
  generalize g'.queryCount = n' at heffect
  cases heffect with
  | quiet hn he => exact iff_of_true hlost fun q hq => absurd hq (he q)
  | rejected he => exact iff_of_true (hlost.reject _) fun q hq => absurd hq (he q)
  | registered hfree he => exact iff_of_true (hlost.register hfree) fun q hq => absurd hq (he q)
  | settled k he => exact iff_of_true (hlost.settle hwf.sound k) fun q hq => absurd hq (he q)
  | @failed q k hreg he =>
      obtain ⟨-, rfl⟩ := registered_eq_some.mp hreg
      -- the table knows when a failure loses nothing; the event names the query
      rw [PendingTable.noneLost_fail_iff hwf.sound hlost]
      constructor
      · intro hkey q' hq'
        rw [← he.unique hq']
        exact hkey
      · intro hspares
        exact hspares q he

theorem noQueryLost_of_run {tr : List (Transition Gateway GatewayEvent)}
    (h : Run (system cfg) tr g) (hC : ∀ t ∈ tr, FailureSparesOthers t) : g.NoQueryLost := by
  refine h.invariant_when (fun g₀ h₀ => ?_) (fun tr g e g' hrun hl hC hs => ?_) hC
  · intro q hconn
    rw [h₀.2.2.2.1] at hconn
    cases hconn
  · exact (noQueryLost_step_iff (.of_run hrun) hl hs).mpr hC

/-- **No accepted query is lost** in a run, after any of its steps, exactly when every
connect or write failure in it finds the id of its query free or held by that query. -/
theorem no_query_lost_iff (cfg : Config) (tr : List (Transition Gateway GatewayEvent))
    (g : Gateway) (h : Run (system cfg) tr g) :
    (∀ t ∈ tr, t.post.NoQueryLost) ↔ ∀ t ∈ tr, FailureSparesOthers t :=
  h.forall_iff (P := fun t => t.post.NoQueryLost) fun _ _ _ _ hrun hgood hs =>
    noQueryLost_step_iff (.of_run hrun) (noQueryLost_of_run hrun hgood) hs

/-- A late connect error of the query that timed out removes the entry of another client's
query that uses the id again. -/
theorem query_can_be_lost :
    ¬ ∀ (cfg : Config) (tr : List (Transition Gateway GatewayEvent)) (g : Gateway),
      Run (system cfg) tr g → g.NoQueryLost := by
  intro h
  obtain ⟨tr, hrun, -⟩ := sampleRun (timeoutEvents ++
    [.receive (.tcp 1) (sampleHeader 5) (sampleBody 99), .handleConnect 0 true]) (by decide +kernel)
  have hlost := h sampleConfig tr _ hrun 1
  revert hlost
  decide +kernel

/-- While the home agent has not answered and the query times out, nothing is lost. -/
theorem timeoutRun_no_query_lost : ∃ tr, Run (system sampleConfig) tr (sampleAfter timeoutEvents) ∧
    tr.map Transition.event = timeoutEvents ∧ ∀ t ∈ tr, t.post.NoQueryLost := by
  obtain ⟨tr, hrun, hevents⟩ := sampleRun timeoutEvents (by decide +kernel)
  refine ⟨tr, hrun, hevents, (no_query_lost_iff sampleConfig tr _ hrun).mpr fun t ht q hq => ?_⟩
  exact absurd hq (timeoutEvents_no_failure _ (hevents ▸ List.mem_map_of_mem ht) q)

/-! ## Queries completed twice -/

/-- No query has been completed twice, and every query still has the rcode it was
completed with. -/
structure AtMostOnce (g : Gateway) : Prop where
  nodup : (g.completed.map Completed.query).Nodup
  rcode : ∀ c ∈ g.completed, (g.queries c.query).rcode = c.rcode

/-- A query whose connection fails in this step is in the map under its id. -/
def FailureOwnsQuery (t : Transition Gateway GatewayEvent) : Prop :=
  ∀ q, Fails t.event q → t.pre.map (t.pre.queries q).id = some q

theorem FailureOwnsQuery.spares {t : Transition Gateway GatewayEvent} (h : FailureOwnsQuery t) :
    FailureSparesOthers t :=
  fun q hq => .inr (h q hq)

theorem nodup_step_iff (hwf : g.Wf) (hl : g.NoQueryLost)
    (hnodup : (g.completed.map Completed.query).Nodup)
    (hs : (system cfg).step g e = some g') :
    (g'.completed.map Completed.query).Nodup ↔ FailureOwnsQuery ⟨g, e, g'⟩ := by
  have hlost := noneLost_table_iff.mpr hl
  have hfresh := hwf.fresh g.queryCount le_rfl
  have heffect := (Effect.of_step hs).table hwf
  show g'.table.settled.Nodup ↔ _
  generalize g'.table = t' at heffect
  generalize g'.queryCount = n' at heffect
  cases heffect with
  | quiet hn he => exact iff_of_true hnodup fun q hq => absurd hq (he q)
  | rejected he =>
      exact iff_of_true (PendingTable.nodup_reject_iff.mpr ⟨hnodup, hfresh.not_settled⟩)
        fun q hq => absurd hq (he q)
  | registered hfree he => exact iff_of_true hnodup fun q hq => absurd hq (he q)
  | settled k he =>
      exact iff_of_true (PendingTable.nodup_settle hwf.sound hnodup k) fun q hq =>
        absurd hq (he q)
  | @failed q k hreg he =>
      rw [PendingTable.nodup_fail_iff hwf.sound hlost hnodup hreg]
      obtain ⟨-, rfl⟩ := registered_eq_some.mp hreg
      constructor
      · intro hentry q' hq'
        rw [← he.unique hq']
        exact hentry
      · intro howns
        exact howns q he

/-- A completed query keeps its rcode through a step that completes no query again. -/
theorem rcode_step (hwf : g.Wf) (hrcode : ∀ c ∈ g.completed, (g.queries c.query).rcode = c.rcode)
    (hs : (system cfg).step g e = some g') (hnodup : (g'.completed.map Completed.query).Nodup) :
    ∀ c ∈ g'.completed, (g'.queries c.query).rcode = c.rcode := by
  have hlt : ∀ c ∈ g.completed, c.query < g.queryCount := by
    intro c hc
    by_contra hge
    exact (hwf.fresh c.query (by omega)).not_settled (List.mem_map_of_mem hc)
  cases (Effect.of_step hs).completion with
  | none hcompleted hqueries =>
      intro c hc
      rw [hcompleted] at hc
      rw [hqueries _ (hlt c hc)]
      exact hrcode c hc
  | @one new hnew hcompleted hnewrcode hsame hqueries =>
      intro c hc
      rw [hcompleted] at hc
      rcases List.mem_append.mp hc with hold | hlast
      · -- an earlier completion is of another query, as none is completed twice
        have hne : c.query ≠ new.query := by
          rw [hcompleted, List.map_append, List.nodup_append] at hnodup
          exact hnodup.2.2 _ (List.mem_map_of_mem hold) _ List.mem_cons_self
        rw [hqueries _ (hlt c hold) hne]
        exact hrcode c hold
      · rw [List.mem_singleton] at hlast
        rw [hlast]
        exact hnewrcode

theorem atMostOnce_step_iff (hwf : g.Wf) (hl : g.NoQueryLost) (h : g.AtMostOnce)
    (hs : (system cfg).step g e = some g') :
    g'.AtMostOnce ↔ FailureOwnsQuery ⟨g, e, g'⟩ := by
  rw [← nodup_step_iff hwf hl h.nodup hs]
  constructor
  · intro h'
    exact h'.nodup
  · intro hnodup
    exact ⟨hnodup, rcode_step hwf h.rcode hs hnodup⟩

theorem atMostOnce_of_run {tr : List (Transition Gateway GatewayEvent)}
    (h : Run (system cfg) tr g) (hC : ∀ t ∈ tr, FailureOwnsQuery t) : g.AtMostOnce := by
  have hboth : g.NoQueryLost ∧ g.AtMostOnce := by
    refine h.invariant_when (I := fun g => g.NoQueryLost ∧ g.AtMostOnce) (fun g₀ h₀ => ?_)
      (fun tr g e g' hrun hI hC hs => ?_) hC
    · obtain ⟨-, -, -, hconns, -, hcompleted⟩ := h₀
      refine ⟨fun q hconn => ?_, ?_, ?_⟩
      · rw [hconns] at hconn
        cases hconn
      · rw [hcompleted]
        exact List.nodup_nil
      · rw [hcompleted]
        exact List.forall_mem_nil _
    · exact ⟨(noQueryLost_step_iff (.of_run hrun) hI.1 hs).mpr hC.spares,
        (atMostOnce_step_iff (.of_run hrun) hI.1 hI.2 hs).mpr hC⟩
  exact hboth.2

/-- **At most one completion.**  In a run no query is completed twice and no completed query
changes its rcode, after any of its steps, exactly when every connect or write failure
in it finds its query in the map. -/
theorem completed_at_most_once_iff (cfg : Config) (tr : List (Transition Gateway GatewayEvent))
    (g : Gateway) (h : Run (system cfg) tr g) :
    (∀ t ∈ tr, t.post.AtMostOnce) ↔ ∀ t ∈ tr, FailureOwnsQuery t :=
  h.forall_iff (P := fun t => t.post.AtMostOnce) fun _ _ _ _ hrun hgood hs =>
    atMostOnce_step_iff (.of_run hrun)
      (noQueryLost_of_run hrun fun t ht => (hgood t ht).spares) (atMostOnce_of_run hrun hgood) hs

/-- A late connect error completes a query that has timed out once more. -/
theorem query_can_be_completed_twice :
    ¬ ∀ (cfg : Config) (tr : List (Transition Gateway GatewayEvent)) (g : Gateway),
      Run (system cfg) tr g → g.AtMostOnce := by
  intro h
  obtain ⟨tr, hrun, -⟩ := sampleRun (timeoutEvents ++ [.handleConnect 0 true])
    (by decide +kernel)
  have htwice := (h sampleConfig tr _ hrun).nodup
  revert htwice
  decide +kernel

/-- A query that times out is completed once. -/
theorem timeoutRun_completed_once :
    ∃ tr, Run (system sampleConfig) tr (sampleAfter timeoutEvents) ∧
      tr.map Transition.event = timeoutEvents ∧ ∀ t ∈ tr, t.post.AtMostOnce := by
  obtain ⟨tr, hrun, hevents⟩ := sampleRun timeoutEvents (by decide +kernel)
  refine ⟨tr, hrun, hevents,
    (completed_at_most_once_iff sampleConfig tr _ hrun).mpr fun t ht q hq => ?_⟩
  exact absurd hq (timeoutEvents_no_failure _ (hevents ▸ List.mem_map_of_mem ht) q)

end Gateway
