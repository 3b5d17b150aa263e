/-
# Deadline timers

A timer handler is bound to the id of its query and does not look at its error code, so
the handler of a timer that was cancelled still removes and completes whatever query
holds the id when it runs.

* `TimerSound.of_run` : the timer of a query in the map has not been cancelled, and
  `Armed.of_run` : a timer that waits or has expired was armed when its query was
  inserted;
* `timeout_own_timer_iff` : timeouts in a run all come from the expiry of the query's own
  timer exactly when every timer handler finds the id of its query free or its own.
-/
import Pweb.Dnsgw.OutstandingQueries

/-- A timer that is armed and has not been cancelled. -/
def Timer.Live (timer : Timer) : Prop :=
  (∃ d, timer = .waiting d) ∨ ∃ d, timer = .expired d

theorem Timer.cancel_ne_waiting (timer : Timer) (d : ℕ) : timer.cancel ≠ .waiting d := by
  cases timer <;> simp [Timer.cancel]

theorem Timer.cancel_eq_expired {timer : Timer} {d : ℕ} (h : timer.cancel = .expired d) :
    timer = .expired d := by
  cases timer with
  | waiting d' => cases h
  | idle | expired | aborted | done => exact h

namespace Gateway

variable {cfg : Config} {g g' : Gateway} {e : GatewayEvent}

/-! ## What a step does to a timer -/

/-- What a step does to the timer of a query. -/
inductive TimerEffect (cfg : Config) (g g' : Gateway) (q : ℕ) : Prop
  | kept (h : g'.timers q = g.timers q)
  | cancelled (h : g'.timers q = (g.timers q).cancel)
  | armed (hq : q = g.queryCount) (hconn : (g'.sendConns q).isSome)
      (h : g'.timers q = .waiting (g.now + cfg.timeout))
  | expired {d : ℕ} (hwaiting : g.timers q = .waiting d) (hd : d ≤ g.now)
      (h : g'.timers q = .expired d)
  | ran (h : g'.timers q = .done)

/-- Only the timer of the query that is removed is cancelled. -/
theorem remove_timers_ne {sequence : UInt16} {q : ℕ} (h : g.map sequence ≠ some q) :
    (g.remove sequence).2.timers q = g.timers q := by
  cases hentry : g.map sequence with
  | none => rw [remove_of_none g hentry]
  | some q' =>
      rw [remove_of_some g hentry]
      apply Function.update_of_ne
      rintro rfl
      exact h hentry

theorem remove_timers (g : Gateway) (sequence : UInt16) (q : ℕ) :
    (g.remove sequence).2.timers q = g.timers q ∨
      (g.remove sequence).2.timers q = (g.timers q).cancel := by
  by_cases h : g.map sequence = some q
  · right
    rw [remove_of_some g h]
    exact Function.update_self _ _ _
  · exact .inl (remove_timers_ne h)

theorem removeAndComplete_map_timers (g : Gateway) (sequence : UInt16) (f : DnsQuery → Completion) :
    (g.removeAndComplete sequence f).map = (g.remove sequence).2.map ∧
      (g.removeAndComplete sequence f).timers = (g.remove sequence).2.timers := by
  cases h : g.map sequence with
  | none =>
      rw [removeAndComplete_of_none g f h, remove_of_none g h]
      exact ⟨rfl, rfl⟩
  | some q =>
      rw [removeAndComplete_of_some g f h]
      exact ⟨rfl, rfl⟩

/-- The timers after a removal from a state with the same timers. -/
theorem TimerEffect.of_removal (g₁ : Gateway) {sequence : UInt16} {q : ℕ}
    (htimers : g₁.timers q = g.timers q)
    (h : g'.timers = (g₁.remove sequence).2.timers) : TimerEffect cfg g g' q := by
  rcases remove_timers g₁ sequence q with hkept | hcancelled
  · exact .kept (by rw [h, hkept, htimers])
  · exact .cancelled (by rw [h, hcancelled, htimers])

theorem Effect.timer (h : Effect cfg g e g') (q : ℕ) : TimerEffect cfg g g' q := by
  cases h with
  | tick | handleResolve | ignored | rejected | dropped | advanced | handleAccept | read
  | readError => exact .kept rfl
  | inserted hparse hsane ha hget hfree offset =>
      by_cases hq : q = g.queryCount
      · subst hq
        refine .armed rfl ?_ (Function.update_self _ _ _)
        show (Function.update g.sendConns g.queryCount _ g.queryCount).isSome = true
        rw [Function.update_self]
        rfl
      · exact .kept (Function.update_of_ne hq _ _)
  | @failed _ q' conn hconn he =>
      exact .of_removal (g.setStage q' conn .closed) rfl rfl
  | @deadline q' d htimer hd =>
      by_cases hq : q = q'
      · subst hq
        exact .expired htimer hd (Function.update_self _ _ _)
      · exact .kept (Function.update_of_ne hq _ _)
  | @handleTimer q' htimer =>
      have hremoved := (removeAndComplete_map_timers (g.setTimer q' .done) (g.queries q').id
        fun query => ⟨query, .nameError, .timeout⟩).2
      by_cases hq : q = q'
      · subst hq
        have hdone : (g.setTimer q .done).timers q = .done := Function.update_self _ _ _
        refine .ran ?_
        -- cancelling a timer whose handler has run does nothing
        rcases remove_timers (g.setTimer q .done) (g.queries q).id q with hkept | hcancelled
        · rw [expire, hremoved, hkept, hdone]
        · rw [expire, hremoved, hcancelled, hdone]
          rfl
      · exact .of_removal (g.setTimer q' .done) (Function.update_of_ne hq _ _) hremoved
  | @replied c conn hconn hstage =>
      exact .of_removal (g.setRecvConn c conn.handleRead) rfl
        (removeAndComplete_map_timers _ _ _).2
  | @replyFailed c conn hconn hstage =>
      exact .of_removal (g.setRecvConn c conn.handleReadError) rfl
        (removeAndComplete_map_timers _ _ _).2

/-! ## The timers of outstanding queries -/

/-- The timers of the queries in the map are live. -/
def TimerSound (g : Gateway) : Prop :=
  ∀ k q, g.map k = some q → (g.timers q).Live

/-- An entry that survives a removal keeps its timer: no other key leads to its query. -/
theorem entry_of_removal (hwf : g.Wf) (g₁ : Gateway) (hmap : g₁.map = g.map)
    {sequence k : UInt16} {q : ℕ} (h : (g₁.remove sequence).2.map k = some q) :
    k ≠ sequence ∧ g.map k = some q ∧ (g₁.remove sequence).2.timers q = g₁.timers q := by
  have hentries : (g₁.remove sequence).2.map = Function.update g.map sequence none := by
    rw [remove_map, hmap]
  rw [hentries] at h
  have hne : k ≠ sequence := by
    rintro rfl
    rw [Function.update_self] at h
    cases h
  rw [Function.update_of_ne hne] at h
  refine ⟨hne, h, remove_timers_ne fun hentry => hne ?_⟩
  have hreg := hwf.sound.registered k q h
  rw [hmap] at hentry
  rw [hwf.sound.registered sequence q hentry] at hreg
  exact (Option.some.inj hreg).symm

/-- A removal by a reply or a failure keeps the timers of the other queries live. -/
theorem TimerSound.of_removal (hwf : g.Wf) (h : g.TimerSound) (g₁ : Gateway)
    (hmap : g₁.map = g.map) (htimers : g₁.timers = g.timers) {sequence : UInt16}
    (hmap' : g'.map = (g₁.remove sequence).2.map)
    (htimers' : g'.timers = (g₁.remove sequence).2.timers) : g'.TimerSound := by
  intro k q hentry
  rw [hmap'] at hentry
  obtain ⟨-, hold, hkept⟩ := entry_of_removal hwf g₁ hmap hentry
  rw [htimers', hkept, htimers]
  exact h k q hold

theorem TimerSound.step (hwf : g.Wf) (h : g.TimerSound)
    (hs : (system cfg).step g e = some g') : g'.TimerSound := by
  cases Effect.of_step hs with
  | tick | handleResolve | ignored | rejected | dropped | advanced | handleAccept | read
  | readError => exact h
  | @inserted sender header body query query' hparse hsane ha sendBuf hget hfree offset =>
      intro k q hentry
      have hentry' : Function.update g.map query'.id (some g.queryCount) k = some q := hentry
      show (Function.update g.timers g.queryCount _ q).Live
      by_cases hq : q = g.queryCount
      · rw [hq, Function.update_self]
        exact .inl ⟨_, rfl⟩
      · rw [Function.update_of_ne hq]
        apply h k
        by_cases hk : k = query'.id
        · rw [hk, Function.update_self] at hentry'
          exact absurd (Option.some.inj hentry').symm hq
        · rwa [Function.update_of_ne hk] at hentry'
  | @failed _ q conn hconn he =>
      exact h.of_removal hwf (g.setStage q conn .closed) rfl rfl rfl rfl
  | @deadline q' d htimer hd =>
      intro k q hentry
      show (Function.update g.timers q' _ q).Live
      by_cases hq : q = q'
      · rw [hq, Function.update_self]
        exact .inr ⟨d, rfl⟩
      · rw [Function.update_of_ne hq]
        exact h k q hentry
  | @handleTimer q' htimer =>
      intro k q hentry
      have hremoved := removeAndComplete_map_timers (g.setTimer q' .done) (g.queries q').id
        fun query => ⟨query, .nameError, .timeout⟩
      rw [expire, hremoved.1] at hentry
      obtain ⟨hne, hold, hkept⟩ := entry_of_removal hwf (g.setTimer q' .done) rfl hentry
      rw [expire, hremoved.2, hkept]
      -- the handler of `q'` clears the id of `q'`, so `q'` is not in the map any more
      have hq : q ≠ q' := by
        rintro rfl
        have hreg := hwf.sound.registered k q hold
        exact hne (registered_eq_some.mp hreg).2.symm
      show (Function.update g.timers q' _ q).Live
      rw [Function.update_of_ne hq]
      exact h k q hold
  | @replied c conn hconn hstage =>
      have hremoved := removeAndComplete_map_timers (g.setRecvConn c conn.handleRead)
        conn.sequence (replyCompletion cfg.fromString cfg.ttl conn)
      exact h.of_removal hwf (g.setRecvConn c conn.handleRead) rfl rfl hremoved.1 hremoved.2
  | @replyFailed c conn hconn hstage =>
      have hremoved := removeAndComplete_map_timers (g.setRecvConn c conn.handleReadError)
        conn.sequence fun query => ⟨query, .serverFailure, .unknown⟩
      exact h.of_removal hwf (g.setRecvConn c conn.handleReadError) rfl rfl hremoved.1
        hremoved.2

theorem TimerSound.of_run {tr : List (Transition Gateway GatewayEvent)}
    (h : Run (system cfg) tr g) : g.TimerSound := by
  refine h.invariant_trace (J := fun _ g => g.TimerSound) (fun g₀ h₀ => ?_)
    fun tr g e g' hrun hI hs => hI.step (.of_run hrun) hs
  intro k q hentry
  rw [h₀.2.1] at hentry
  cases hentry

/-! ## When timers were armed -/

/-- The step inserts the query: its connection object is created. -/
def Inserts (t : Transition Gateway GatewayEvent) (q : ℕ) : Prop :=
  t.pre.sendConns q = none ∧ (t.post.sendConns q).isSome

/-- The deadline of a query is the timeout after its insertion in the past. -/
def Armed (cfg : Config) (past : List (Transition Gateway GatewayEvent)) (q d : ℕ) : Prop :=
  ∃ t ∈ past, Inserts t q ∧ d = t.pre.now + cfg.timeout

/-- What the timers of a run say about its past. -/
structure TimerHistory (cfg : Config) (past : List (Transition Gateway GatewayEvent))
    (g : Gateway) : Prop where
  waiting : ∀ q d, g.timers q = .waiting d → Armed cfg past q d
  expired : ∀ q d, g.timers q = .expired d → Armed cfg past q d ∧ d ≤ g.now

theorem Armed.mono {past : List (Transition Gateway GatewayEvent)} {q d : ℕ}
    (h : Armed cfg past q d) (t : Transition Gateway GatewayEvent) :
    Armed cfg (past ++ [t]) q d := by
  obtain ⟨t₀, ht₀, hins⟩ := h
  exact ⟨t₀, List.mem_append_left _ ht₀, hins⟩

/-- Time does not go back. -/
theorem Effect.now_le (h : Effect cfg g e g') : g.now ≤ g'.now := by
  have hremove : ∀ (g₁ : Gateway) (k : UInt16) (f : DnsQuery → Completion), g₁.now = g.now →
      g.now ≤ (g₁.removeAndComplete k f).now := by
    intro g₁ k f hnow
    obtain ⟨_, _, _, _, hframe⟩ := removeAndComplete_frame g₁ k f
    rw [hframe]
    exact hnow.ge
  cases h with
  | tick d => exact Nat.le_add_right _ _
  | handleResolve | ignored | rejected | dropped | inserted | advanced | deadline | handleAccept
  | read | readError => exact le_rfl
  | @failed _ q conn hconn he =>
      obtain ⟨_, _, _, _, hframe⟩ := failQuery_frame (g.setStage q conn .closed) q
      rw [hframe]
      exact le_rfl
  | handleTimer => exact hremove _ _ _ rfl
  | replied => exact hremove _ _ _ rfl
  | replyFailed => exact hremove _ _ _ rfl

/-- A timer that waits did so before the step, or was armed by it. -/
theorem TimerEffect.of_waiting {q d : ℕ} (h : TimerEffect cfg g g' q)
    (hwaiting : g'.timers q = .waiting d) : g.timers q = .waiting d ∨
      (q = g.queryCount ∧ (g'.sendConns q).isSome ∧ d = g.now + cfg.timeout) := by
  cases h with
  | kept hkept => exact .inl (hkept ▸ hwaiting)
  | cancelled hcancelled =>
      rw [hcancelled] at hwaiting
      exact absurd hwaiting (Timer.cancel_ne_waiting _ d)
  | armed hq hconn harmed =>
      rw [harmed] at hwaiting
      cases hwaiting
      exact .inr ⟨hq, hconn, rfl⟩
  | expired hold hd hexpired =>
      rw [hexpired] at hwaiting
      cases hwaiting
  | ran hdone =>
      rw [hdone] at hwaiting
      cases hwaiting

/-- A timer that has expired did so before the step, or its deadline has been reached. -/
theorem TimerEffect.of_expired {q d : ℕ} (h : TimerEffect cfg g g' q)
    (hexpired : g'.timers q = .expired d) :
    g.timers q = .expired d ∨ (g.timers q = .waiting d ∧ d ≤ g.now) := by
  cases h with
  | kept hkept => exact .inl (hkept ▸ hexpired)
  | cancelled hcancelled =>
      rw [hcancelled] at hexpired
      exact .inl (Timer.cancel_eq_expired hexpired)
  | armed hq hconn harmed =>
      rw [harmed] at hexpired
      cases hexpired
  | expired hwaiting hd hnew =>
      rw [hnew] at hexpired
      cases hexpired
      exact .inr ⟨hwaiting, hd⟩
  | ran hdone =>
      rw [hdone] at hexpired
      cases hexpired

theorem TimerHistory.step {past : List (Transition Gateway GatewayEvent)} (hwf : g.Wf)
    (h : TimerHistory cfg past g) (hs : (system cfg).step g e = some g') :
    TimerHistory cfg (past ++ [⟨g, e, g'⟩]) g' := by
  have heffect := Effect.of_step hs
  have hnow := heffect.now_le
  constructor
  · intro q d hwaiting
    rcases (heffect.timer q).of_waiting hwaiting with hold | ⟨hq, hconn, hd⟩
    · exact (h.waiting q d hold).mono _
    · -- a timer is armed by the step that inserts its query
      have hnew := (hwf.fresh q hq.ge).not_registered
      exact ⟨⟨g, e, g'⟩, Run.last_mem past _, ⟨Option.map_eq_none_iff.mp hnew, hconn⟩, hd⟩
  · intro q d hexpired
    rcases (heffect.timer q).of_expired hexpired with hold | ⟨hwaiting, hd⟩
    · obtain ⟨harmed, hle⟩ := h.expired q d hold
      exact ⟨harmed.mono _, hle.trans hnow⟩
    · exact ⟨(h.waiting q d hwaiting).mono _, hd.trans hnow⟩

theorem TimerHistory.of_run {tr : List (Transition Gateway GatewayEvent)}
    (h : Run (system cfg) tr g) : TimerHistory cfg tr g := by
  refine h.invariant_trace (fun g₀ h₀ => ?_) fun tr g e g' hrun hI hs => hI.step (.of_run hrun) hs
  have hidle : ∀ q, g₀.timers q = .idle := congrFun h₀.2.2.1
  constructor
  · intro q d hwaiting
    rw [hidle q] at hwaiting
    cases hwaiting
  · intro q d hexpired
    rw [hidle q] at hexpired
    cases hexpired

/-! ## Timeouts -/

/-- The step calls `complete_query` for `q` with `R_NAME_ERROR` and `TIMEOUT`. -/
def TimesOut (t : Transition Gateway GatewayEvent) (q : ℕ) : Prop :=
  t.post.completed = t.pre.completed ++ [⟨q, .nameError, .timeout⟩]

/-- After `past`, the step runs the handler of the timer of `q`, which has expired without
being cancelled, the timeout after `q` was inserted. -/
structure OwnExpiry (cfg : Config) (past : List (Transition Gateway GatewayEvent))
    (t : Transition Gateway GatewayEvent) (q : ℕ) : Prop where
  event : t.event = .handleTimer q
  expired : ∃ d, t.pre.timers q = .expired d ∧ d ≤ t.pre.now ∧ Armed cfg past q d

/-- A timer handler that runs in this step finds the id of its query free or its own. -/
def TimerSparesOthers (t : Transition Gateway GatewayEvent) : Prop :=
  ∀ q, t.event = .handleTimer q →
    t.pre.map (t.pre.queries q).id = none ∨ t.pre.map (t.pre.queries q).id = some q

theorem replyCompletion_ne_timeout (fromString : Bytes → Option IpAddress) (ttl : UInt16)
    (conn : HaRecvConnection) (query : DnsQuery) :
    (replyCompletion fromString ttl conn query).result ≠ .timeout := by
  unfold replyCompletion
  split_ifs
  · exact fun h => by cases h
  · split <;> exact fun h => by cases h
  · exact fun h => by cases h

/-- Only timer handlers time queries out, namely the ones that hold the id. -/
theorem TimesOut.cases {q : ℕ} (h : TimesOut ⟨g, e, g'⟩ q) (heffect : Effect cfg g e g') :
    ∃ q', e = .handleTimer q' ∧ g.map (g.queries q').id = some q := by
  have hnew : NewCompletion cfg g e ⟨q, .nameError, .timeout⟩ := heffect.completion.of_completed h
  generalize hresult : MetricResult.timeout = result at hnew
  generalize Rcode.nameError = rcode at hnew
  cases hnew with
  | rejected hfailed => exact absurd hresult.symm hfailed.2
  | failed he => cases hresult
  | timedOut hentry => exact ⟨_, rfl, hentry⟩
  | replied hconn hstage hentry => exact absurd hresult.symm (replyCompletion_ne_timeout _ _ _ _)
  | replyFailed hconn hstage hentry => cases hresult

/-- A timer handler that finds a query under its id times it out. -/
theorem timesOut_of_entry {q q' : ℕ} (hs : (system cfg).step g (.handleTimer q') = some g')
    (hentry : g.map (g.queries q').id = some q) : TimesOut ⟨g, .handleTimer q', g'⟩ q := by
  cases Effect.of_step hs with
  | advanced hconn stage he hsend => rcases hsend with hsend | hsend <;> cases hsend
  | failed hconn he => rcases he with he | he <;> cases he
  | handleTimer htimer =>
      exact removeAndComplete_completed (g := g.setTimer q' .done)
        (fun query => ⟨query, .nameError, .timeout⟩) hentry

/-- The handler of the timer of a query in the map runs because the timer has expired. -/
theorem ownExpiry_of_entry {past : List (Transition Gateway GatewayEvent)} {q : ℕ}
    (hrun : Run (system cfg) past g) (hs : (system cfg).step g (.handleTimer q) = some g')
    (hentry : g.map (g.queries q).id = some q) :
    OwnExpiry cfg past ⟨g, .handleTimer q, g'⟩ q := by
  refine ⟨rfl, ?_⟩
  have hlive := TimerSound.of_run hrun _ q hentry
  have hran : (∃ d, g.timers q = .expired d) ∨ g.timers q = .aborted := by
    cases Effect.of_step hs with
    | advanced hconn stage he hsend => rcases hsend with hsend | hsend <;> cases hsend
    | failed hconn he => rcases he with he | he <;> cases he
    | handleTimer htimer => exact htimer
  rcases hran with ⟨d, hd⟩ | haborted
  · obtain ⟨harmed, hle⟩ := (TimerHistory.of_run hrun).expired q d hd
    exact ⟨d, hd, hle, harmed⟩
  · rcases hlive with ⟨d, hd⟩ | ⟨d, hd⟩ <;> rw [haborted] at hd <;> cases hd

/-- **Timeouts.**  In a run every timeout is the effect of the expiry of the timer that was
armed when the same query was inserted, uncancelled and after the timeout has elapsed,
exactly when every timer handler finds the id of its query free or held by that query. -/
theorem timeout_own_timer_iff (cfg : Config) (tr : List (Transition Gateway GatewayEvent))
    (g : Gateway) (h : Run (system cfg) tr g) :
    (∀ past t future, tr = past ++ t :: future → ∀ q, TimesOut t q → OwnExpiry cfg past t q) ↔
      ∀ t ∈ tr, TimerSparesOthers t := by
  constructor
  · intro hown t ht q' he
    obtain ⟨past, future, hsplit, -, hs⟩ := h.split ht
    rw [he] at hs
    -- whoever holds the id is timed out, so it must be the owner of the timer
    cases hentry : t.pre.map (t.pre.queries q').id with
    | none => exact .inl rfl
    | some q =>
        have htimes : TimesOut ⟨t.pre, .handleTimer q', t.post⟩ q := timesOut_of_entry hs hentry
        have hevent := (hown past t future hsplit q htimes).event
        rw [he] at hevent
        cases hevent
        exact .inr rfl
  · rintro hspares past ⟨g₁, e, g₂⟩ future rfl q htimes
    have hmem : (⟨g₁, e, g₂⟩ : Transition Gateway GatewayEvent) ∈ past ++ ⟨g₁, e, g₂⟩ :: future :=
      List.mem_append_right _ List.mem_cons_self
    obtain ⟨hpast, hs⟩ := h.at_split
    obtain ⟨q', rfl, hentry⟩ := htimes.cases (Effect.of_step hs)
    rcases hspares _ hmem q' rfl with hnone | hself
    · rw [hnone] at hentry
      cases hentry
    · rw [hself] at hentry
      cases hentry
      exact ownExpiry_of_entry hpast hs hself

/-- A reply with sequence number 5 and the address 10.0.0.1 for the device `a.`. -/
def sampleReply : GetReply := ⟨AbsMessage.absReply, 5, 8, sampleAddressText, [97, 46]⟩

/-- The first client asks under id 5 and is answered; a second client uses the id again. -/
def answeredEvents : List GatewayEvent :=
  [.receive (.tcp 0) (sampleHeader 5) (sampleBody 97), .handleAccept sampleReply,
    .handleRead 0 false, .handleRead 0 false, .handleRead 0 false, .handleRead 0 false,
    .handleRead 0 false, .receive (.tcp 1) (sampleHeader 5) (sampleBody 99)]

/-- The handler of the first query's cancelled timer times the second query out, at once. -/
theorem timeout_can_hit_other_query :
    ¬ ∀ (cfg : Config) (tr : List (Transition Gateway GatewayEvent)) (g : Gateway),
      Run (system cfg) tr g → ∀ past t future, tr = past ++ t :: future →
        ∀ q, TimesOut t q → OwnExpiry cfg past t q := by
  intro h
  obtain ⟨past, hrun, -⟩ := sampleRun_extend answeredEvents (.handleTimer 0) (by decide +kernel)
    (by decide +kernel)
  have htimes : (sampleNext answeredEvents (.handleTimer 0)).completed
      = (sampleAfter answeredEvents).completed ++ [⟨1, .nameError, .timeout⟩] := by
    decide +kernel
  have hevent := (h sampleConfig _ _ hrun past _ [] rfl 1 htimes).event
  cases hevent

/-- A query that is never answered, until its timer has expired. -/
def expiredEvents : List GatewayEvent :=
  [.receive (.tcp 0) (sampleHeader 5) (sampleBody 97), .tick 12, .deadline 0]

/-- It is timed out by its own timer. -/
theorem expiredRun_own_timer : ∃ past, OwnExpiry sampleConfig past
    ⟨sampleAfter expiredEvents, .handleTimer 0, sampleNext expiredEvents (.handleTimer 0)⟩ 0 := by
  obtain ⟨past, hrun, hevents⟩ := sampleRun_extend expiredEvents (.handleTimer 0)
    (by decide +kernel) (by decide +kernel)
  have htimes : (sampleNext expiredEvents (.handleTimer 0)).completed
      = (sampleAfter expiredEvents).completed ++ [⟨0, .nameError, .timeout⟩] := by
    decide +kernel
  refine ⟨past, (timeout_own_timer_iff sampleConfig _ _ hrun).mpr ?_ past _ [] rfl 0 htimes⟩
  intro t ht q he
  rcases List.mem_append.mp ht with hpast | hlast
  · -- no timer handler has run before
    have hmem : t.event ∈ expiredEvents := hevents ▸ List.mem_map_of_mem hpast
    rw [he] at hmem
    simp [expiredEvents] at hmem
  · rw [List.mem_singleton] at hlast
    subst hlast
    cases he
    right
    decide +kernel

end Gateway
