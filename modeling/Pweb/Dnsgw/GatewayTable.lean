/-
# The gateway as a table of pending requests

The query map, the insertions and the calls of `complete_query` make up a table of
pending requests (`Gateway.table`): queries under their 16-bit ids.  Every step of the
gateway is an operation of that table or leaves it alone (`Effect.table`), and the
invariant of the table holds in every run (`Wf.of_run`).
-/
import Pweb.Dnsgw.GatewaySteps

namespace Gateway

variable {cfg : Config} {g g' : Gateway} {e : GatewayEvent}

/-! ## The table of pending requests -/

/-- The query map as a table of pending requests: the entries, the ids of the queries
that were inserted, and the queries that `complete_query` was called for. -/
def table (g : Gateway) : PendingTable UInt16 ℕ where
  entries := g.map
  registered q := (g.sendConns q).map fun _ => (g.queries q).id
  settled := g.completed.map Completed.query

section Table

variable {q : ℕ} {query : DnsQuery}

theorem table_setQuery (hid : query.id = (g.queries q).id) :
    (g.setQuery q query).table = g.table := by
  refine PendingTable.ext rfl (funext fun q' => ?_) rfl
  show (g.sendConns q').map (fun _ => (Function.update g.queries q query q').id) = _
  by_cases hq : q' = q
  · subst hq
    rw [Function.update_self, hid]
    rfl
  · rw [Function.update_of_ne hq]
    rfl

theorem table_completeQuery (g : Gateway) (q : ℕ) (rcode : Rcode) (result : MetricResult) :
    (g.completeQuery q rcode result).table = g.table.reject q := by
  have hset := table_setQuery (g := g) (q := q) ((g.queries q).complete_id rcode result)
  have hreg := congrArg PendingTable.registered hset
  refine PendingTable.ext rfl hreg ?_
  show (g.completed ++ [_]).map Completed.query = g.completed.map Completed.query ++ [q]
  rw [List.map_append]
  rfl

theorem table_remove (g : Gateway) (sequence : UInt16) :
    (g.remove sequence).2.table = g.table.release sequence := by
  obtain ⟨map, timers, hframe⟩ := remove_frame g sequence
  refine PendingTable.ext (remove_map g sequence) ?_ ?_
  · rw [hframe]
    rfl
  · rw [hframe]
    rfl

theorem table_failQuery (g : Gateway) (q : ℕ) :
    (g.failQuery q).table = g.table.fail q (g.queries q).id := by
  unfold failQuery
  rw [table_completeQuery, table_remove]
  rfl

theorem table_removeAndComplete (sequence : UInt16) {f : DnsQuery → Completion}
    (hid : ∀ query, (f query).query.id = query.id) :
    (g.removeAndComplete sequence f).table = g.table.settle sequence := by
  cases h : g.map sequence with
  | none =>
      rw [removeAndComplete_of_none g f h, PendingTable.settle, show g.table.entries sequence = none
        from h]
  | some q =>
      obtain ⟨map, timers, hframe⟩ := remove_frame g sequence
      have hquery : (f (g.queries q)).query.id = ((g.remove sequence).2.queries q).id := by
        rw [hframe, hid]
      rw [removeAndComplete_of_some g f h, table_completeQuery, table_setQuery hquery,
        table_remove, PendingTable.settle, show g.table.entries sequence = some q from h]

theorem table_setStage {conn : HaSendConnection} (hconn : g.sendConns q = some conn)
    (stage : SendStage) : (g.setStage q conn stage).table = g.table := by
  refine PendingTable.ext rfl (funext fun q' => ?_) rfl
  show (Function.update g.sendConns q (some { conn with stage := stage }) q').map _ = _
  by_cases hq : q' = q
  · subst hq
    rw [Function.update_self]
    show _ = (g.sendConns q').map _
    rw [hconn]
    rfl
  · rw [Function.update_of_ne hq]
    rfl

theorem table_arrived (hnew : g.table.registered g.queryCount = none) (offset : ℕ) :
    (g.arrived query offset).table = g.table := by
  refine PendingTable.ext rfl (funext fun q' => ?_) rfl
  by_cases hq : q' = g.queryCount
  · subst hq
    rw [hnew]
    rw [table, Option.map_eq_none_iff] at hnew
    exact Option.map_eq_none_iff.mpr hnew
  · show (g.sendConns q').map (fun _ => (Function.update g.queries g.queryCount query q').id) = _
    rw [Function.update_of_ne hq]
    rfl

theorem table_entered (cfg : Config) (g : Gateway) (query : DnsQuery) (offset : ℕ)
    (sendBuf : Bytes) :
    (g.entered cfg query offset sendBuf).table = g.table.register g.queryCount query.id := by
  refine PendingTable.ext rfl (funext fun q' => ?_) rfl
  show (Function.update g.sendConns g.queryCount _ q').map
    (fun _ => (Function.update g.queries g.queryCount query q').id) =
      Function.update g.table.registered g.queryCount (some query.id) q'
  by_cases hq : q' = g.queryCount
  · subst hq
    rw [Function.update_self, Function.update_self, Function.update_self]
    rfl
  · rw [Function.update_of_ne hq, Function.update_of_ne hq, Function.update_of_ne hq]
    rfl

end Table

/-! ## Steps -/

/-- What an event does to the table and to the number of queries. -/
inductive TableEffect (t : PendingTable UInt16 ℕ) (n : ℕ) (e : GatewayEvent) :
    PendingTable UInt16 ℕ → ℕ → Prop
  | quiet {n' : ℕ} (hn : n ≤ n') (he : ∀ q, ¬ Fails e q) : TableEffect t n e t n'
  | rejected (he : ∀ q, ¬ Fails e q) : TableEffect t n e (t.reject n) (n + 1)
  | registered {k : UInt16} (hfree : t.entries k = none) (he : ∀ q, ¬ Fails e q) :
      TableEffect t n e (t.register n k) (n + 1)
  | settled (k : UInt16) (he : ∀ q, ¬ Fails e q) : TableEffect t n e (t.settle k) n
  | failed {q : ℕ} {k : UInt16} (hreg : t.registered q = some k) (he : Fails e q) :
      TableEffect t n e (t.fail q k) n

/-- The table is sound, and queries that have not arrived are not in it. -/
structure Wf (g : Gateway) : Prop where
  sound : g.table.Sound
  fresh : ∀ q, g.queryCount ≤ q → g.table.Fresh q

/-- No query arrives by a removal. -/
theorem removeAndComplete_queryCount (g : Gateway) (sequence : UInt16) (f : DnsQuery → Completion) :
    (g.removeAndComplete sequence f).queryCount = g.queryCount := by
  obtain ⟨_, _, _, _, hframe⟩ := removeAndComplete_frame g sequence f
  rw [hframe]

/-- **Refinement.**  A step of the gateway is a step of its table. -/
theorem Effect.table (h : Effect cfg g e g') (hwf : g.Wf) :
    TableEffect g.table g.queryCount e g'.table g'.queryCount := by
  have hnew := (hwf.fresh g.queryCount le_rfl).not_registered
  have hreceive : ∀ sender header body q, ¬ Fails (.receive sender header body) q := by
    intro sender header body q hq
    rcases hq with hq | hq <;> cases hq
  have hread : ∀ c ec q, ¬ Fails (.handleRead c ec) q := by
    intro c ec q hq
    rcases hq with hq | hq <;> cases hq
  cases h with
  | tick d => exact .quiet le_rfl (by rintro q (hq | hq) <;> cases hq)
  | handleResolve proxy => exact .quiet le_rfl (by rintro q (hq | hq) <;> cases hq)
  | ignored sender header body => exact .quiet le_rfl (hreceive _ _ _)
  | rejected hparse metric offset rcode result hfailed =>
      rw [table_completeQuery, table_arrived hnew]
      exact .rejected (hreceive _ _ _)
  | dropped hparse metric offset =>
      rw [table_arrived hnew]
      exact .quiet (Nat.le_succ _) (hreceive _ _ _)
  | inserted hparse hsane ha hget hfree offset =>
      rw [table_entered]
      exact .registered hfree (hreceive _ _ _)
  | advanced hconn stage he =>
      rw [table_setStage hconn]
      exact .quiet le_rfl he
  | @failed _ q conn hconn he =>
      -- only a query that was inserted has a connection that can fail
      have hreg : g.table.registered q = some (g.queries q).id := by
        show (g.sendConns q).map _ = _
        rw [hconn]
        rfl
      have hcount : ((g.setStage q conn .closed).failQuery q).queryCount = g.queryCount := by
        obtain ⟨_, _, _, _, hframe⟩ := failQuery_frame (g.setStage q conn .closed) q
        rw [hframe]
        rfl
      rw [table_failQuery, table_setStage hconn, hcount]
      exact .failed hreg he
  | deadline htimer hd => exact .quiet le_rfl (by rintro q (hq | hq) <;> cases hq)
  | handleTimer htimer =>
      rw [expire, table_removeAndComplete _ fun _ => rfl, removeAndComplete_queryCount]
      exact .settled _ (by rintro q (hq | hq) <;> cases hq)
  | handleAccept message => exact .quiet le_rfl (by rintro q (hq | hq) <;> cases hq)
  | read hconn => exact .quiet le_rfl (hread _ _)
  | readError hconn => exact .quiet le_rfl (hread _ _)
  | replied hconn hstage =>
      rw [table_removeAndComplete _ fun query => (replyCompletion_sameRequest _ _ _ query).id,
        removeAndComplete_queryCount]
      exact .settled _ (hread _ _)
  | replyFailed hconn hstage =>
      rw [table_removeAndComplete _ fun _ => rfl, removeAndComplete_queryCount]
      exact .settled _ (hread _ _)

/-! ## The invariant -/

theorem Wf.step (hwf : g.Wf) (hs : (system cfg).step g e = some g') : g'.Wf := by
  have heffect := (Effect.of_step hs).table hwf
  generalize htable : g'.table = t' at heffect
  generalize hcount : g'.queryCount = n' at heffect
  have hgoal : t'.Sound ∧ ∀ q, n' ≤ q → t'.Fresh q := by
    cases heffect with
    | quiet hn he => exact ⟨hwf.sound, fun q hq => hwf.fresh q (hn.trans hq)⟩
    | rejected he =>
        have hfresh := hwf.fresh g.queryCount le_rfl
        exact ⟨hwf.sound.reject (hwf.sound.entries_ne hfresh),
          fun q hq => (hwf.fresh q (by omega)).reject (by omega)⟩
    | registered hfree he =>
        exact ⟨hwf.sound.register (hwf.fresh g.queryCount le_rfl),
          fun q hq => (hwf.fresh q (by omega)).register (by omega) _⟩
    | settled k he => exact ⟨hwf.sound.settle k, fun q hq => (hwf.fresh q hq).settle hwf.sound k⟩
    | failed hreg he => exact ⟨hwf.sound.fail hreg, fun q hq => (hwf.fresh q hq).fail hreg⟩
  exact ⟨htable ▸ hgoal.1, fun q hq => htable ▸ hgoal.2 q (hcount ▸ hq)⟩

theorem Wf.of_initial (h : g.Initial) : g.Wf := by
  obtain ⟨-, hmap, -, hconns, -, hcompleted⟩ := h
  have hentries : ∀ k, g.table.entries k = none := fun k => congrFun hmap k
  refine ⟨⟨fun k r hentry => ?_, fun k r hentry => ?_⟩, fun q _ => ⟨?_, ?_⟩⟩
  · rw [hentries k] at hentry
    cases hentry
  · rw [hentries k] at hentry
    cases hentry
  · show (g.sendConns q).map _ = none
    rw [hconns]
    rfl
  · show q ∉ g.completed.map Completed.query
    rw [hcompleted]
    exact List.not_mem_nil

/-- A query that was inserted has arrived. -/
theorem Wf.lt_queryCount (hwf : g.Wf) {q : ℕ} (hconn : (g.sendConns q).isSome) :
    q < g.queryCount := by
  by_contra hge
  have hnew := (hwf.fresh q (by omega)).not_registered
  rw [show g.sendConns q = none from Option.map_eq_none_iff.mp hnew] at hconn
  cases hconn

/-- In every run the table is sound. -/
theorem Wf.of_run {tr : List (Transition Gateway GatewayEvent)} (h : Run (system cfg) tr g) :
    g.Wf :=
  h.invariant (fun _ h₀ => .of_initial h₀) fun _ _ _ hwf hs => hwf.step hs

end Gateway
