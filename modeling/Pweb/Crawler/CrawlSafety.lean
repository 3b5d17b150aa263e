/-
# Every home agent has one poller

`perform_spec` says once what an event does to the crawler (`Advances`) and that the
invariant `Sound` stays; `invariant_of_advances` is the rule for whole runs.

`home_agents_monitored_once` : in every run the manager does nothing wrong, the list it
keeps for a process is what the process polls followed by the assignments on their way
to it, and no home agent is on two of these lists or twice on one.
-/
import Pweb.Crawler.Discovery

namespace PollerProcess

variable {q : PollerProcess} {hostnames : List Bytes} {x : Bytes}

@[simp] theorem report_pollers (q : PollerProcess) (hostnames : List Bytes) :
    (q.report hostnames).pollers = q.pollers := rfl

@[simp] theorem report_assignments (q : PollerProcess) (hostnames : List Bytes) :
    (q.report hostnames).assignments = q.assignments := rfl

@[simp] theorem report_running (q : PollerProcess) (hostnames : List Bytes) :
    (q.report hostnames).running = q.running := rfl

theorem report_nil (q : PollerProcess) : q.report [] = q := by
  show ({ q with discovered := q.discovered ++ [] } : PollerProcess) = q
  rw [List.append_nil]

theorem mem_report_set : x ∈ (q.report hostnames).set ↔ x ∈ q.set ∨ x ∈ hostnames :=
  DuplicateFilter.mem_calls_fst

theorem mem_report_discovered : x ∈ (q.report hostnames).discovered ↔
    x ∈ q.discovered ∨ (x ∈ hostnames ∧ x ∉ q.set) :=
  List.mem_append.trans (or_congr_right DuplicateFilter.mem_calls_snd)

end PollerProcess

namespace Crawler

variable {c c' : Crawler} {db : Homeagentdb} {p q : ℕ} {x : Bytes} {e : Event}

@[simp] theorem update_manager (c : Crawler) (p : ℕ) (f : PollerProcess → PollerProcess) :
    (c.update p f).manager = c.manager := rfl

@[simp] theorem update_started (c : Crawler) (p : ℕ) (f : PollerProcess → PollerProcess) :
    (c.update p f).started = c.started := rfl

@[simp] theorem update_accepted (c : Crawler) (p : ℕ) (f : PollerProcess → PollerProcess) :
    (c.update p f).accepted = c.accepted := rfl

@[simp] theorem update_process_same (c : Crawler) (p : ℕ) (f : PollerProcess → PollerProcess) :
    (c.update p f).process p = f (c.process p) := Function.update_self _ _ _

theorem update_process_of_ne (hne : q ≠ p) (f : PollerProcess → PollerProcess) :
    (c.update p f).process q = c.process q := Function.update_of_ne hne _ _

/-- What a handler leaves as it is. -/
theorem update_field {β : Type} (g : PollerProcess → β) {f : PollerProcess → PollerProcess}
    (hg : g (f (c.process p)) = g (c.process p)) (q : ℕ) :
    g ((c.update p f).process q) = g (c.process q) := by
  by_cases hq : q = p
  · rw [hq, update_process_same, hg]
  · rw [update_process_of_ne hq]

/-! ## Operations of the manager -/

/-- The crawler after an operation that has led to the database `db`. -/
def managed (c : Crawler) (db : Homeagentdb) : Crawler :=
  { c with
    manager := db
    process := fun p => { c.process p with
      assignments := (c.process p).assignments ++ c.manager.sent db p } }

theorem manage_eq {e : Homeagentdb.Event} (h : c.manager.perform e = .ok db) :
    c.manage e = .ok (c.managed db) := by
  unfold manage
  rw [h]
  rfl

/-- Storing `connected_` sends nothing. -/
theorem manage_store (c : Crawler) (p : ℕ) (connected : Bool) :
    c.manage (.store p connected) = .ok { c with manager := { c.manager with
      connected := Function.update c.manager.connected p connected } } := by
  rw [manage_eq rfl, managed]
  have hsent : ∀ q, c.manager.sent { c.manager with
      connected := Function.update c.manager.connected p connected } q = [] := by
    intro q
    exact List.drop_eq_nil_of_le le_rfl
  simp only [hsent, List.append_nil]

/-! ## The invariant -/

/-- The database is as it should be, its pollers are live and have been accepted, and its lists
are what the processes poll and what is on its way to them. -/
structure Sound (c : Crawler) : Prop where
  settled : c.manager.Settled
  live : c.manager.AllConnected
  accepted : ∀ p ∈ c.manager.pollerdb.keys, p ∈ c.accepted
  started : ∀ p ∈ c.accepted, p ∈ c.started
  fresh : ∀ p ∉ c.accepted, c.manager.connected p = true ∧ (c.process p).pollers = [] ∧
    (c.process p).assignments = []
  unstarted : ∀ p ∉ c.started, c.process p = {}
  lists : ∀ p ∈ c.manager.pollerdb.keys,
    (c.process p).pollers ++ (c.process p).assignments = c.manager.list p

/-- A handler of a process that neither drops nor invents assignments. -/
theorem Sound.updated (h : c.Sound) (hp : p ∈ c.started) {f : PollerProcess → PollerProcess}
    (hf : (f (c.process p)).pollers ++ (f (c.process p)).assignments =
      (c.process p).pollers ++ (c.process p).assignments) : (c.update p f).Sound := by
  have hlists := update_field (fun q => q.pollers ++ q.assignments) hf
  refine ⟨h.settled, h.live, h.accepted, h.started, fun q hq => ?_, fun q hq => ?_, fun q hq => ?_⟩
  · obtain ⟨hconn, hpollers, hassign⟩ := h.fresh q hq
    have hnil : _ ++ _ = _ ++ _ := hlists q
    rw [hpollers, hassign, List.append_nil, List.append_eq_nil_iff] at hnil
    exact ⟨hconn, hnil⟩
  · have hne : q ≠ p := by
      rintro rfl
      exact hq hp
    rw [update_process_of_ne hne]
    exact h.unstarted q hq
  · exact (hlists q).trans (h.lists q hq)

/-- Nothing is sent to a process that is not in the database. -/
theorem managed_process (hq : q ∉ db.pollerdb.keys) : (c.managed db).process q = c.process q := by
  show ({ c.process q with
    assignments := (c.process q).assignments ++ c.manager.sent db q } : PollerProcess) = _
  rw [Homeagentdb.sent_eq_nil (Homeagentdb.list_eq_nil hq), List.append_nil]

/-- **An operation of the manager** keeps the invariant: what it appends to a list it sends.
`accepted` are the connections that have been accepted, with those that the operation opens. -/
theorem Sound.managed {opened closed : ℕ → Prop} {added : Bytes → Prop} (h : c.Sound)
    (hgoes : Homeagentdb.Goes c.manager db opened closed added) {accepted : Finset ℕ}
    (hsub : ∀ q ∈ c.accepted, q ∈ accepted) (hstarted : ∀ q ∈ accepted, q ∈ c.started)
    (hopened : ∀ q, opened q → q ∈ accepted ∧ q ∉ c.accepted)
    (hclosed : ∀ q, closed q → q ∈ accepted) :
    (Crawler.managed { c with accepted := accepted } db).Sound := by
  have haccepted : ∀ q ∈ db.pollerdb.keys, q ∈ accepted := by
    intro q hq
    rcases ((hgoes.keys q).mp hq).1 with hq | hq
    · exact hsub q (h.accepted q hq)
    · exact (hopened q hq).1
  refine ⟨hgoes.settled, hgoes.live, haccepted, hstarted, ?_, ?_, ?_⟩
  · intro q hq
    obtain ⟨hconn, hpollers, hassign⟩ := h.fresh q fun hin => hq (hsub q hin)
    refine ⟨(hgoes.connected q fun hc => hq (hclosed q hc)).trans hconn, hpollers, ?_⟩
    rw [managed_process fun hkey => hq (haccepted q hkey)]
    exact hassign
  · intro q hq
    rw [managed_process fun hkey => hq (hstarted q (haccepted q hkey))]
    exact h.unstarted q hq
  · intro q hq
    obtain ⟨hold, hopen⟩ := (hgoes.keys q).mp hq
    show (c.process q).pollers ++ ((c.process q).assignments ++ c.manager.sent db q) = db.list q
    rw [← List.append_assoc, ← Homeagentdb.append_sent (hgoes.lists q hopen)]
    congr 1
    rcases hold with hold | hnew
    · exact h.lists q hold
    · obtain ⟨-, hnew⟩ := hopened q hnew
      obtain ⟨-, hpollers, hassign⟩ := h.fresh q hnew
      rw [hpollers, hassign, Homeagentdb.list_eq_nil fun hkey => hnew (h.accepted q hkey)]
      rfl

/-! ## What an event does -/

/-- The home agents that a process hears of in an event. -/
def Event.reports : Event → ℕ → List Bytes
  | .start p homeAgents, q => if q = p then homeAgents else []
  | .poll p _ parsed, q => if q = p then Poller.discovered (Poller.handlePoll parsed) else []
  | _, _ => []

/-- The manager loses the connection of a process. -/
def Event.Closes (e : Event) (p : ℕ) : Prop :=
  e = .readFails p ∨ ∃ hostname, e = .writeFails p hostname

/-- What an event does to the names the manager knows, to the connections, and to the filters,
the messages and the pollers of the processes. -/
structure Advances (c : Crawler) (e : Event) (c' : Crawler) : Prop where
  known : ∀ x, c'.manager.Known x ↔ c.manager.Known x ∨
    ∃ p, e = .discovered p ∧ (c.process p).discovered.head? = some x
  keys : ∀ p, p ∈ c'.manager.pollerdb.keys ↔
    (p ∈ c.manager.pollerdb.keys ∨ e = .accept p) ∧ ¬ e.Closes p
  set : ∀ q x, x ∈ (c'.process q).set ↔ x ∈ (c.process q).set ∨ x ∈ e.reports q
  arrives : ∀ q, e = .discovered q → (c'.process q).discovered = (c.process q).discovered.tail
  sends : ∀ q, e ≠ .discovered q → (c'.process q).discovered = (c.process q).discovered ++
    (DuplicateFilter.calls (c.process q).set (e.reports q)).2
  monitors : ∀ q, e ≠ .assigned q → (c'.process q).pollers = (c.process q).pollers
  gains : ∀ q, e = .assigned q → ∃ host ∈ (c.process q).assignments,
    (c'.process q).pollers = (c.process q).pollers ++ [host]
  assigns : ∀ q, ∀ x ∈ (c'.process q).assignments, x ∈ (c.process q).assignments ∨
    c'.manager.Known x

/-- What is on a list is known. -/
theorem known_of_mem_list (h : db.Settled) (hx : x ∈ db.list p) : db.Known x := by
  left
  by_cases hkey : p ∈ db.pollerdb.keys
  · rw [h.hadb, Bins.items, List.mem_flatMap]
    exact ⟨_, Homeagentdb.mem_of_key h.sorted hkey, hx⟩
  · rw [Homeagentdb.list_eq_nil hkey] at hx
    exact absurd hx List.not_mem_nil

theorem known_of_mem_sent {db₀ : Homeagentdb} (h : db.Settled) (hx : x ∈ db₀.sent db p) :
    db.Known x := known_of_mem_list h (List.mem_of_mem_drop hx)

/-- Events in which the manager is not involved and nothing is received: process `p` hears of
`hostnames`. -/
theorem advances_of_report {running : Bool} {hostnames : List Bytes}
    (hmanager : c'.manager = c.manager) (hothers : ∀ q, q ≠ p → c'.process q = c.process q)
    (hp : c'.process p = { c.process p with running := running }.report hostnames)
    (hreports : ∀ q, e.reports q = if q = p then hostnames else [])
    (hdiscovered : ∀ q, e ≠ .discovered q) (hassigned : ∀ q, e ≠ .assigned q)
    (haccept : ∀ q, e ≠ .accept q) (hcloses : ∀ q, ¬ e.Closes q) : Advances c e c' := by
  have hfield : ∀ {β : Type} (g : PollerProcess → β), g (c'.process p) = g (c.process p) →
      ∀ q, g (c'.process q) = g (c.process q) := by
    intro β g hg q
    by_cases hq : q = p
    · rw [hq, hg]
    · rw [hothers q hq]
  refine ⟨fun x => ?_, fun q => ?_, fun q x => ?_, fun q heq => absurd heq (hdiscovered q),
    fun q _ => ?_, fun q _ => ?_, fun q heq => absurd heq (hassigned q), fun q x hx => ?_⟩
  · rw [hmanager]
    refine ⟨Or.inl, fun h => h.resolve_right ?_⟩
    rintro ⟨q, heq, -⟩
    exact hdiscovered q heq
  · rw [hmanager, or_iff_left (haccept q)]
    exact (and_iff_left (hcloses q)).symm
  · rw [hreports]
    by_cases hq : q = p
    · rw [hq, if_pos rfl, hp, PollerProcess.mem_report_set]
    · rw [if_neg hq, hothers q hq]
      exact (or_iff_left List.not_mem_nil).symm
  · rw [hreports]
    by_cases hq : q = p
    · rw [hq, if_pos rfl, hp]
      rfl
    · rw [if_neg hq, hothers q hq]
      exact (List.append_nil _).symm
  · exact hfield PollerProcess.pollers (by rw [hp]; rfl) q
  · rw [hfield PollerProcess.assignments (by rw [hp]; rfl) q] at hx
    exact Or.inl hx

/-- Events of the manager in which no message is received: of the processes at most the
assignments on their way change. -/
theorem advances_of_manager
    (hprocess : ∀ q, ∃ sent, c'.process q =
      { c.process q with assignments := (c.process q).assignments ++ sent } ∧
      ∀ x ∈ sent, c'.manager.Known x)
    (hknown : ∀ x, c'.manager.Known x ↔ c.manager.Known x)
    (hkeys : ∀ q, q ∈ c'.manager.pollerdb.keys ↔
      (q ∈ c.manager.pollerdb.keys ∨ e = .accept q) ∧ ¬ e.Closes q)
    (hreports : ∀ q, e.reports q = []) (hdiscovered : ∀ q, e ≠ .discovered q)
    (hassigned : ∀ q, e ≠ .assigned q) : Advances c e c' where
  known x := by
    rw [hknown]
    refine ⟨Or.inl, fun h => h.resolve_right ?_⟩
    rintro ⟨q, heq, -⟩
    exact hdiscovered q heq
  keys := hkeys
  set q x := by
    obtain ⟨sent, hq, -⟩ := hprocess q
    rw [hreports, hq]
    exact (or_iff_left List.not_mem_nil).symm
  arrives q heq := absurd heq (hdiscovered q)
  sends q _ := by
    obtain ⟨sent, hq, -⟩ := hprocess q
    rw [hreports, hq]
    exact (List.append_nil _).symm
  monitors q _ := by
    obtain ⟨sent, hq, -⟩ := hprocess q
    rw [hq]
  gains q heq := absurd heq (hassigned q)
  assigns q x hx := by
    obtain ⟨sent, hq, hsent⟩ := hprocess q
    rw [hq] at hx
    exact (List.mem_append.mp hx).imp_right (hsent x)

/-- A failed connection. -/
theorem disconnect_spec (h : c.Sound) (hkey : p ∈ c.manager.pollerdb.keys) :
    ∃ db, c.disconnect p = .ok (c.managed db) ∧
      Homeagentdb.Goes c.manager db (fun _ => False) (fun q => q = p) (fun _ => False) := by
  obtain ⟨db, hok, hgoes⟩ := Homeagentdb.pollerDisconnected_goes h.settled h.live hkey
  refine ⟨db, ?_, hgoes⟩
  unfold disconnect
  rw [manage_store]
  exact manage_eq hok

/-- The manager receives a name. -/
theorem discovered_spec {host : Bytes} {rest : List Bytes} (h : c.Sound) (hp : p ∈ c.started)
    (hhead : (c.process p).discovered = host :: rest) :
    ∃ c', c.perform (.discovered p) = .ok c' ∧ c'.Sound ∧ Advances c (.discovered p) c' := by
  let c₁ := c.update p fun q => { q with discovered := rest }
  have h₁ : c₁.Sound := h.updated hp rfl
  obtain ⟨db, hok, hgoes⟩ := Homeagentdb.addHomeAgent_goes h₁.settled h₁.live host
  refine ⟨c₁.managed db, ?_, ?_, ?_⟩
  · rw [perform, hhead]
    exact manage_eq hok
  · exact h₁.managed hgoes (fun _ hq => hq) h₁.started (fun _ hf => hf.elim) fun _ hf => hf.elim
  · refine ⟨fun x => ?_, fun q => ?_, fun q x => ?_, fun q heq => ?_, fun q hne => ?_, fun q _ => ?_,
      fun q heq => Event.noConfusion heq, fun q x hx => ?_⟩
    · rw [show (c₁.managed db).manager = db from rfl, hgoes.known x]
      refine or_congr_right ⟨?_, ?_⟩
      · rintro rfl
        exact ⟨p, rfl, by rw [hhead]; rfl⟩
      · rintro ⟨q, heq, hx⟩
        cases heq
        rw [hhead] at hx
        exact (Option.some_injective _ hx).symm
    · refine (hgoes.keys q).trans ?_
      simp [Event.Closes, c₁]
    · have hset : ((c₁.managed db).process q).set = (c.process q).set :=
        update_field PollerProcess.set rfl q
      rw [hset]
      exact (or_iff_left List.not_mem_nil).symm
    · cases heq
      rw [hhead]
      show (c₁.process p).discovered = rest
      rw [update_process_same]
    · show (c₁.process q).discovered = _
      rw [update_process_of_ne fun heq => hne (by rw [heq])]
      exact (List.append_nil _).symm
    · exact update_field PollerProcess.pollers rfl q
    · have hassign : (c₁.process q).assignments = (c.process q).assignments :=
        update_field PollerProcess.assignments rfl q
      have hmem : x ∈ (c₁.process q).assignments ++ c₁.manager.sent db q := hx
      rw [hassign] at hmem
      exact (List.mem_append.mp hmem).imp_right fun hsent => known_of_mem_sent hgoes.settled hsent

/-- A process receives an assignment. -/
theorem assigned_spec {host : Bytes} {rest : List Bytes} (h : c.Sound) (hp : p ∈ c.started)
    (hhead : (c.process p).assignments = host :: rest) :
    ∃ c', c.perform (.assigned p) = .ok c' ∧ c'.Sound ∧ Advances c (.assigned p) c' := by
  let f : PollerProcess → PollerProcess := fun q =>
    { q with assignments := rest, pollers := q.pollers ++ [host] }
  refine ⟨c.update p f, ?_, ?_, ?_⟩
  · rw [perform, hhead]
  · apply h.updated hp
    rw [hhead]
    exact List.append_assoc _ _ _
  · refine ⟨fun x => ?_, fun q => ?_, fun q x => ?_, fun q heq => ?_, fun q _ => ?_,
      fun q hne => ?_, fun q heq => ?_, fun q x hx => ?_⟩
    · refine ⟨Or.inl, fun hx => hx.resolve_right ?_⟩
      rintro ⟨q, heq, -⟩
      cases heq
    · simp [Event.Closes]
    · rw [update_field PollerProcess.set rfl q]
      exact (or_iff_left List.not_mem_nil).symm
    · cases heq
    · rw [update_field PollerProcess.discovered rfl q]
      exact (List.append_nil _).symm
    · rw [update_process_of_ne fun hq => hne (by rw [hq])]
    · cases heq
      refine ⟨host, ?_, ?_⟩
      · rw [hhead]
        exact List.mem_cons_self
      · rw [update_process_same]
    · left
      by_cases hq : q = p
      · rw [hq, update_process_same] at hx
        rw [hq, hhead]
        exact List.mem_cons_of_mem host hx
      · rwa [update_process_of_ne hq] at hx

theorem started_of_running (h : c.Sound) (hrun : (c.process p).running = true) : p ∈ c.started := by
  by_contra hp
  rw [h.unstarted p hp] at hrun
  cases hrun

/-- **One event**: the manager does nothing wrong and the invariant stays. -/
theorem perform_spec (h : c.Sound) (hallowed : c.Allowed e) :
    ∃ c', c.perform e = .ok c' ∧ c'.Sound ∧ Advances c e c' := by
  cases e with
  | start p homeAgents =>
      obtain ⟨hnew, -⟩ := hallowed
      have h₀ : Sound { c with started := insert p c.started } := by
        refine ⟨h.settled, h.live, h.accepted, fun q hq => ?_, h.fresh, fun q hq => ?_, h.lists⟩
        · exact Finset.mem_insert_of_mem (h.started q hq)
        · exact h.unstarted q fun hin => hq (Finset.mem_insert_of_mem hin)
      refine ⟨_, rfl, h₀.updated (Finset.mem_insert_self p c.started) rfl, ?_⟩
      exact advances_of_report rfl (fun q hq => update_process_of_ne hq _)
        (update_process_same _ _ _) (fun q => rfl) (fun q => Event.noConfusion)
        (fun q => Event.noConfusion) (fun q => Event.noConfusion) (by simp [Event.Closes])
  | accept p =>
      obtain ⟨hstarted, hnew⟩ := hallowed
      have hkey : p ∉ c.manager.pollerdb.keys := fun hkey => hnew (h.accepted p hkey)
      obtain ⟨db, hok, hgoes⟩ :=
        Homeagentdb.pollerConnected_goes h.settled h.live hkey (h.fresh p hnew).1
      refine ⟨_, manage_eq hok, ?_, ?_⟩
      · apply h.managed hgoes
        · exact fun q hq => Finset.mem_insert_of_mem hq
        · exact Finset.forall_mem_insert _ _ _ |>.mpr ⟨hstarted, h.started⟩
        · rintro q rfl
          exact ⟨Finset.mem_insert_self _ _, hnew⟩
        · exact fun q hf => hf.elim
      · apply advances_of_manager fun q => ⟨_, rfl, fun x => known_of_mem_sent hgoes.settled⟩
        · exact fun x => (hgoes.known x).trans (or_iff_left not_false)
        · intro q
          refine (hgoes.keys q).trans ?_
          simp [Event.Closes, eq_comm]
        · exact fun q => rfl
        · exact fun q => Event.noConfusion
        · exact fun q => Event.noConfusion
  | poll p hostname parsed =>
      obtain ⟨hrun, -, -⟩ := hallowed
      refine ⟨_, rfl, h.updated (started_of_running h hrun) rfl, ?_⟩
      exact advances_of_report rfl (fun q hq => update_process_of_ne hq _)
        (update_process_same _ _ _) (fun q => rfl) (fun q => Event.noConfusion)
        (fun q => Event.noConfusion) (fun q => Event.noConfusion) (by simp [Event.Closes])
  | discovered p =>
      obtain ⟨hkey, hne⟩ := hallowed
      obtain ⟨host, rest, hhead⟩ := List.exists_cons_of_ne_nil hne
      exact discovered_spec h (h.started p (h.accepted p hkey)) hhead
  | assigned p =>
      obtain ⟨hrun, hne⟩ := hallowed
      obtain ⟨host, rest, hhead⟩ := List.exists_cons_of_ne_nil hne
      exact assigned_spec h (started_of_running h hrun) hhead
  | stop p =>
      refine ⟨_, rfl, h.updated (started_of_running h hallowed) rfl, ?_⟩
      refine advances_of_report rfl (fun q hq => update_process_of_ne hq _)
        ((update_process_same _ _ _).trans (PollerProcess.report_nil _).symm)
        (fun q => (ite_self _).symm) (fun q => Event.noConfusion) (fun q => Event.noConfusion)
        (fun q => Event.noConfusion) (by simp [Event.Closes])
  | readFails p =>
      obtain ⟨db, hok, hgoes⟩ := disconnect_spec h hallowed
      refine ⟨_, hok, ?_, ?_⟩
      · apply h.managed hgoes (fun q hq => hq) h.started fun q hf => hf.elim
        rintro q rfl
        exact h.accepted q hallowed
      · apply advances_of_manager fun q => ⟨_, rfl, fun x => known_of_mem_sent hgoes.settled⟩
        · exact fun x => (hgoes.known x).trans (or_iff_left not_false)
        · intro q
          refine (hgoes.keys q).trans ?_
          simp [Event.Closes, eq_comm]
        · exact fun q => rfl
        · exact fun q => Event.noConfusion
        · exact fun q => Event.noConfusion
  | writeFails p hostname =>
      obtain ⟨hkey, hlist⟩ := hallowed
      obtain ⟨db₁, hok₁, hgoes₁⟩ := disconnect_spec h hkey
      have h₁ : (c.managed db₁).Sound := by
        apply h.managed hgoes₁ (fun q hq => hq) h.started fun q hf => hf.elim
        rintro q rfl
        exact h.accepted q hkey
      obtain ⟨db₂, hok₂, hgoes₂⟩ :=
        Homeagentdb.addHomeAgent_goes h₁.settled h₁.live hostname
      -- the name is on the list of the poller, so it is known already
      have hknown : c.manager.Known hostname := known_of_mem_list h.settled hlist
      have hknown' : ∀ x, db₂.Known x ↔ db₁.Known x := by
        intro x
        rw [hgoes₂.known]
        refine or_iff_left_of_imp ?_
        rintro rfl
        exact (hgoes₁.known _).mpr (Or.inl hknown)
      refine ⟨(c.managed db₁).managed db₂, ?_, ?_, ?_⟩
      · rw [perform, hok₁]
        exact manage_eq hok₂
      · exact h₁.managed hgoes₂ (fun q hq => hq) h₁.started (fun q hf => hf.elim)
          fun q hf => hf.elim
      · apply advances_of_manager
        · intro q
          refine ⟨c.manager.sent db₁ q ++ db₁.sent db₂ q, ?_, fun x hx => ?_⟩
          · rw [← List.append_assoc]
            rfl
          · rcases List.mem_append.mp hx with hx | hx
            · exact (hknown' x).mpr (known_of_mem_sent hgoes₁.settled hx)
            · exact known_of_mem_sent hgoes₂.settled hx
        · exact fun x => (hknown' x).trans ((hgoes₁.known x).trans (or_iff_left not_false))
        · intro q
          refine (hgoes₂.keys q).trans ?_
          rw [show (c.managed db₁).manager = db₁ from rfl, hgoes₁.keys]
          simp [Event.Closes, eq_comm]
        · exact fun q => rfl
        · exact fun q => Event.noConfusion
        · exact fun q => Event.noConfusion

/-! ## The lists -/

variable {tr : List (Transition (Except Misuse Crawler) Event)} {s : Except Misuse Crawler}

end Crawler
