/-
# Queries that are dropped

A query whose id is in the query map is neither entered nor completed: its client is
expected to have sent it twice.  The map is shared by all clients.

* `dropped_only_if_id_taken` : a query that was let through is dropped only while an
  outstanding query has its id, and what other clients do matters for it in no other
  way;
* `dropped_query_need_not_be_duplicate` : that query can be another client's, with
  another question.
-/
import Pweb.Dnsgw.LoadBalancer
import Pweb.Dnsgw.OutstandingQueries

open DnsQueryParser AbsMessage

namespace Gateway

variable {cfg : Config} {g g' : Gateway} {e : GatewayEvent} {query : DnsQuery}

/-! ## Outcomes -/

/-- A query that was inserted and has not been completed. -/
def Outstanding (g : Gateway) (q : ℕ) : Prop :=
  (g.sendConns q).isSome ∧ q ∉ g.completed.map Completed.query

/-- What became of a query: how it was completed, and whether it is in the map. -/
def outcome (g : Gateway) (q : ℕ) : List (Rcode × MetricResult) × Bool :=
  ((g.completed.filter fun c => c.query = q).map fun c => (c.rcode, c.result),
    decide (g.map (g.queries q).id = some q))

/-- The event brings a query that is parsed and let through while a proxy is enabled. -/
structure Admitted (cfg : Config) (g : Gateway) (e : GatewayEvent) (query : DnsQuery) : Prop where
  received : ∃ sender header body, e = .receive sender header body ∧
    (header.qr = false ∧ header.opcode = .query ∧ header.z = 0) ∧
      parseDnsQuery { sender := sender } header body = .ok query
  sane : sanityCheck query = none
  enabled : ∃ i < cfg.homeAgents.length, g.enabled i = true

/-- An admitted query is handed to the home agent that the flags and the counter select. -/
theorem Admitted.step_eq (h : Admitted cfg g e query) (hs : (system cfg).step g e = some g') :
    ∃ j ha, selectProxy g.enabled cfg.homeAgents.length cfg.homeAgents.length
        (g.offset % cfg.homeAgents.length) = some j ∧ cfg.homeAgents[j]? = some ha ∧
      g' = hasendproxyProcessQuery cfg (g.arrived query (g.offset + 1)) ha g.queryCount := by
  obtain ⟨⟨sender, header, body, rfl, hvalid, hparse⟩, hsane, i, hi, hen⟩ := h
  -- the position selected is in range, so there is a home agent there
  obtain ⟨j, hj, -, hselect⟩ := selectProxy_of_enabled
    (Nat.mod_lt g.offset (by omega : 0 < cfg.homeAgents.length)) hi hen
  refine ⟨j, cfg.homeAgents[j], hselect, List.getElem?_eq_getElem hj, ?_⟩
  have hs' : (if body.length ≤ sender.bufSize then some (g.receive cfg sender header body)
    else none) = some g' := hs
  split_ifs at hs' with hlen
  cases hs'
  unfold receive
  rw [if_pos hvalid, hparse]
  show processQuery cfg (g.arrived query g.offset) g.queryCount = _
  rw [processQuery_arrived hsane, hselect]
  dsimp only
  rw [List.getElem?_eq_getElem hj]

theorem Wf.completed_filter (hwf : g.Wf) :
    (g.completed.filter fun c => c.query = g.queryCount) = [] := by
  rw [List.filter_eq_nil_iff]
  intro c hc heq
  refine (hwf.fresh g.queryCount le_rfl).not_settled ?_
  rw [← of_decide_eq_true heq]
  exact List.mem_map_of_mem hc

/-- **The outcome of a new query** at a home agent: it depends on the other queries only
through whether the id is in the map. -/
theorem outcome_hasendproxyProcessQuery (cfg : Config) (hwf : g.Wf) (query : DnsQuery)
    (offset : ℕ) (ha : HomeAgent) :
    (hasendproxyProcessQuery cfg (g.arrived query offset) ha g.queryCount).outcome g.queryCount =
      match (composeGet ha.hostname ha.port cfg.nshostname cfg.nsport cfg.suffixes query).1,
        (g.map query.id).isSome with
      | .error _, _ => ([(.nameError, .invalidRequest)], false)
      | .ok _, taken => ([], !taken) := by
  obtain ⟨result, metric, hget, heq⟩ := hasendproxyProcessQuery_arrived cfg g query offset ha
  rw [heq, hget]
  -- a new query has not been completed and is not in the map yet
  have hfresh := hwf.completed_filter
  have hnot : ∀ k, decide (g.map k = some g.queryCount) = false :=
    fun k => decide_eq_false (hwf.sound.entries_ne (hwf.fresh g.queryCount le_rfl) k)
  cases result with
  | error error =>
      refine Prod.ext ?_ (hnot _)
      show ((g.completed ++ [_]).filter _).map _ = _
      rw [List.filter_append, hfresh]
      simp
  | ok sendBuf =>
      cases hentry : g.map query.id with
      | some q =>
          refine Prod.ext ?_ (hnot _)
          show (g.completed.filter _).map _ = []
          rw [hfresh, List.map_nil]
      | none =>
          refine Prod.ext ?_ ?_
          · show (g.completed.filter _).map _ = []
            rw [hfresh, List.map_nil]
          · show decide (Function.update g.map query.id (some g.queryCount)
              (Function.update g.queries g.queryCount _ g.queryCount).id = some g.queryCount) = true
            rw [Function.update_self, Function.update_self]
            exact decide_eq_true rfl

/-- The holder of an id in the map is outstanding. -/
theorem Wf.outstanding (hwf : g.Wf) {k : UInt16} {q : ℕ} (hentry : g.map k = some q) :
    g.Outstanding q ∧ (g.queries q).id = k := by
  obtain ⟨hconn, hid⟩ := registered_eq_some.mp (hwf.sound.registered k q hentry)
  exact ⟨⟨hconn, hwf.sound.not_settled k q hentry⟩, hid⟩

/-! ## Whole runs -/

/-- **Dropped queries.**  An admitted query that is neither completed nor entered finds an
outstanding query under its id; one whose id is free is entered, or completed because no
GET can be composed for it; and in two runs with the same proxies selected, the same
message has the same outcome if its id is in both maps or in neither. -/
theorem dropped_only_if_id_taken (cfg : Config) (tr : List (Transition Gateway GatewayEvent))
    (g : Gateway) (h : Run (system cfg) tr g) (t : Transition Gateway GatewayEvent) (ht : t ∈ tr)
    (query : DnsQuery) (hadmitted : Admitted cfg t.pre t.event query) :
    (t.post.outcome t.pre.queryCount = ([], false) →
      ∃ q, t.pre.map query.id = some q ∧ t.pre.Outstanding q ∧ (t.pre.queries q).id = query.id) ∧
    (t.pre.map query.id = none →
      t.post.outcome t.pre.queryCount = ([], true) ∨
        t.post.outcome t.pre.queryCount = ([(.nameError, .invalidRequest)], false)) ∧
    ∀ tr' g', Run (system cfg) tr' g' → ∀ t' ∈ tr', t'.event = t.event →
      t'.pre.enabled = t.pre.enabled → t'.pre.offset = t.pre.offset →
      ((t'.pre.map query.id).isSome ↔ (t.pre.map query.id).isSome) →
      t'.post.outcome t'.pre.queryCount = t.post.outcome t.pre.queryCount := by
  obtain ⟨_, _, -, hrun, hs⟩ := h.split ht
  have hwf : t.pre.Wf := .of_run hrun
  obtain ⟨j, ha, hselect, hha, hpost⟩ := hadmitted.step_eq hs
  have houtcome := outcome_hasendproxyProcessQuery cfg hwf query (t.pre.offset + 1) ha
  rw [← hpost] at houtcome
  refine ⟨fun hdropped => ?_, fun hfree => ?_, ?_⟩
  · rw [houtcome] at hdropped
    cases hentry : t.pre.map query.id with
    | none =>
        rw [hentry] at hdropped
        split at hdropped <;> simp at hdropped
    | some q => exact ⟨q, rfl, hwf.outstanding hentry⟩
  · rw [houtcome, hfree]
    split
    · exact .inr rfl
    · exact .inl rfl
  · intro tr' g' h' t' ht' hevent henabled hoffset hid
    obtain ⟨_, _, -, hrun', hs'⟩ := h'.split ht'
    have hadmitted' : Admitted cfg t'.pre t'.event query :=
      ⟨hevent ▸ hadmitted.received, hadmitted.sane, henabled ▸ hadmitted.enabled⟩
    obtain ⟨j', ha', hselect', hha', hpost'⟩ := hadmitted'.step_eq hs'
    -- the same proxy is selected
    rw [henabled, hoffset, hselect] at hselect'
    obtain rfl := Option.some.inj hselect'
    rw [hha] at hha'
    obtain rfl := Option.some.inj hha'
    rw [hpost', outcome_hasendproxyProcessQuery cfg (.of_run hrun') query _ ha, houtcome,
      Bool.eq_iff_iff.mpr hid]

/-! ## Two clients with one id -/

/-- The endpoint of a client, by the last byte of its address. -/
def sampleClient (a : UInt8) : Sender := .udp ⟨.v4 #v[10, 0, 0, a], 4000⟩

/-- The query for `x.b.` under id 5 that the client with that address sends. -/
def clientQuery (a x : UInt8) : DnsQuery where
  sender := sampleClient a
  questions := [⟨[x, 46, 98, 46], tA, cIn⟩]
  id := 5
  rd := true

/-- The event that brings it. -/
def clientArrival (a x : UInt8) : GatewayEvent :=
  .receive (sampleClient a) (sampleHeader 5) (sampleBody x)

/-- The second client asks another question under the same id. -/
theorem secondClient_admitted :
    Admitted sampleConfig (sampleAfter [clientArrival 1 97]) (clientArrival 2 99)
      (clientQuery 2 99) where
  received := ⟨sampleClient 2, sampleHeader 5, sampleBody 99, rfl, by decide, by decide +kernel⟩
  sane := rfl
  enabled := ⟨0, by decide, by decide +kernel⟩

theorem secondClient_dropped :
    (sampleNext [clientArrival 1 97] (clientArrival 2 99)).outcome
      (sampleAfter [clientArrival 1 97]).queryCount = ([], false) := by
  decide +kernel

/-- A query is dropped while the map holds the query of another client, who asked another
question. -/
theorem dropped_query_need_not_be_duplicate :
    ¬ ∀ (cfg : Config) (tr : List (Transition Gateway GatewayEvent)) (g : Gateway),
      Run (system cfg) tr g → ∀ t ∈ tr, ∀ query, Admitted cfg t.pre t.event query →
        t.post.outcome t.pre.queryCount = ([], false) →
        ∃ q, t.pre.map query.id = some q ∧ t.pre.Outstanding q ∧
          (t.pre.queries q).sender = query.sender ∧
          (t.pre.queries q).questions.head? = query.questions.head? := by
  intro h
  obtain ⟨past, hrun, -⟩ := sampleRun_extend [clientArrival 1 97] (clientArrival 2 99)
    (by decide +kernel) (by decide +kernel)
  obtain ⟨q, hentry, -, hsender, -⟩ := h sampleConfig _ _ hrun _ (Run.last_mem past _) _
    secondClient_admitted secondClient_dropped
  obtain rfl : 0 = q := by
    have hfirst : (sampleAfter [clientArrival 1 97]).map (clientQuery 2 99).id = some 0 := by
      decide +kernel
    exact Option.some.inj (hfirst.symm.trans hentry)
  revert hsender
  decide +kernel

/-- The query that is in the way is outstanding and has the same id. -/
theorem secondClient_finds_id_taken : ∃ q,
    (sampleAfter [clientArrival 1 97]).map 5 = some q ∧
      (sampleAfter [clientArrival 1 97]).Outstanding q ∧
      ((sampleAfter [clientArrival 1 97]).queries q).id = 5 := by
  obtain ⟨past, hrun, -⟩ := sampleRun_extend [clientArrival 1 97] (clientArrival 2 99)
    (by decide +kernel) (by decide +kernel)
  exact (dropped_only_if_id_taken sampleConfig _ _ hrun _ (Run.last_mem past _) _
    secondClient_admitted).1 secondClient_dropped

end Gateway
