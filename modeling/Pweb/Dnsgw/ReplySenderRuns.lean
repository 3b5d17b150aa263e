/-
# Runs of the reply senders

* `flag_exact_iff` : the flag matches the outstanding send throughout a run exactly
  when every reply that is composed can be written and fits;
* `flag_not_always_exact` : one accepted query whose reply cannot be composed leaves
  the flag set with nothing outstanding;
* `reply_queue_in_order` : in runs whose compositions succeed replies leave in the
  order of the calls, and are dropped only when the buffer is full.
-/
import Pweb.Dnsgw.ReplySender

/-! ## The flag -/

variable {sp : Speaker}

/-- A completion leaves the flag right exactly when the reply it takes up fits. -/
theorem flagExact_handleSendReply_iff {s : ReplySender sp.capacity} (hout : s.outstanding = []) :
    FlagExact (handleSendReply sp s) ↔
      ∀ q, s.replyBuf.front? = some q → (s.queries q).FitsInto sp.bufSize := by
  cases hfront : s.replyBuf.front? with
  | none =>
      have hnone : ∀ q, s.replyBuf.front? = some q → (s.queries q).FitsInto sp.bufSize := by
        intro q hq
        rw [hfront] at hq
        cases hq
      rw [← hfront]
      exact iff_of_true (SenderSound.of_handleSendReply hout hnone).flagExact hnone
  | some q =>
      have hcall := flagExact_sendReply_iff (s := s.popped) (q := q) rfl hout
      rw [handleSendReply_next s q hfront, hcall]
      exact ⟨fun h q' hq' => by cases hq'; exact h, fun h => h q rfl⟩

/-- In a sound state the flag is right after a step exactly when the step is composable. -/
theorem flag_exact_step_iff {s s' : ReplySender sp.capacity} {e : SenderEvent}
    (h : SenderSound s) (hs : sp.system.step s e = some s') :
    FlagExact s' ↔ ComposableStep sp ⟨s, e, s'⟩ := by
  rcases sender_step_cases hs with ⟨q, query, rfl, rfl⟩ | ⟨q, rfl, rfl⟩ |
    ⟨ec, packet, rest, rfl, hout, rfl⟩
  · refine iff_of_true h.flagExact fun q' hq' => ?_
    cases hq'
  · rcases h with ⟨hflag, hout⟩ | ⟨hflag, hout, hbuf⟩
    · have hnone : composedQuery s (.sendReply q) = none := if_pos hflag
      have hC : ComposableStep sp ⟨s, .sendReply q, (sendReply sp s q).1⟩ := by
        intro q' hq'
        rw [hnone] at hq'
        cases hq'
      exact iff_of_true (SenderSound.step (.inl ⟨hflag, hout⟩) hC hs).flagExact hC
    · -- with the flag clear the call composes its own reply
      have hsome : composedQuery s (.sendReply q) = some q := if_neg (by rw [hflag]; decide)
      rw [flagExact_sendReply_iff hflag hout, ComposableStep, hsome]
      simp
  · exact flagExact_handleSendReply_iff (h.rest_eq_nil hout)

/-- **When the flag is right.**  In every run of a sender, `udpDnsspeaker` and `dnsConnection`
among them, the flag tells after each step exactly whether one send is outstanding, if
and only if every reply that is composed in the run can be written and fits into the
send buffer. -/
theorem flag_exact_iff (sp : Speaker)
    (tr : List (Transition (ReplySender sp.capacity) SenderEvent)) (s : ReplySender sp.capacity)
    (h : Run sp.system tr s) :
    (∀ t ∈ tr, FlagExact t.post) ↔ ∀ t ∈ tr, ComposableStep sp t :=
  h.forall_iff (P := fun t => FlagExact t.post) fun _ _ _ _ hrun hgood hs =>
    flag_exact_step_iff (.of_run hrun hgood) hs

/-- The queries a sender of this buffer size is given: accepted, then completed. -/
def AcceptedQuery (sp : Speaker) (query' : DnsQuery) : Prop :=
  ∃ sender header body query addr?, body.length ≤ sp.bufSize ∧
    parseDnsQuery { sender := sender } header body = .ok query ∧ CompletedAs query addr? query'

/-- The query for `longName` after it has timed out. -/
def timedOutQuery : DnsQuery := longNameQuery.complete .nameError .timeout

theorem timedOutQuery_accepted (h : 261 ≤ sp.bufSize) : AcceptedQuery sp timedOutQuery :=
  ⟨.tcp 0, oneQuestionHeader, longNameMessage.encode, longNameQuery, none,
    by rw [length_longNameMessage]; exact h, parse_longName,
    .error longNameQuery.metric .nameError .timeout (by decide)⟩

theorem timedOutQuery_not_fits (size : ℕ) : ¬ timedOutQuery.FitsInto size := by
  intro h
  exact longNameQuery_not_writable
    ((writable_complete_iff longNameQuery longNameQuery.metric .nameError .timeout).mp h.writable)

/-- A sender all of whose query objects are the timed out query. -/
def stuckSender (sp : Speaker) : ReplySender sp.capacity where
  queries _ := timedOutQuery

/-- One call wedges the sender: the flag is set and nothing is outstanding. -/
theorem wedged (sp : Speaker) : ∃ s', Run sp.system
    [⟨stuckSender sp, .sendReply 0, s'⟩] s' ∧ ¬ FlagExact s' := by
  have hinit : sp.system.init (stuckSender sp) := ⟨rfl, rfl, rfl, rfl⟩
  refine ⟨(sendReply sp (stuckSender sp) 0).1, (Run.start hinit).extend rfl, ?_⟩
  rw [flagExact_sendReply_iff rfl rfl]
  exact timedOutQuery_not_fits sp.bufSize

/-- A failed composition wedges either sender. -/
theorem flag_not_always_exact :
    (¬ ∀ tr s, Run udpDnsspeaker.system tr s →
      (∀ t ∈ tr, ∀ q, AcceptedQuery udpDnsspeaker (t.pre.queries q)) → FlagExact s) ∧
    (¬ ∀ tr s, Run dnsConnection.system tr s →
      (∀ t ∈ tr, ∀ q, AcceptedQuery dnsConnection (t.pre.queries q)) → FlagExact s) := by
  constructor
  · intro h
    obtain ⟨s', hrun, hwedged⟩ := wedged udpDnsspeaker
    refine hwedged (h _ s' hrun (List.forall_mem_singleton.mpr fun q => ?_))
    exact timedOutQuery_accepted (by decide)
  · intro h
    obtain ⟨s', hrun, hwedged⟩ := wedged dnsConnection
    refine hwedged (h _ s' hrun (List.forall_mem_singleton.mpr fun q => ?_))
    exact timedOutQuery_accepted (by decide)

/-! ## The order of replies -/

/-- The query passed to `send_reply_` by a step, unless its reply is dropped. -/
def keptCall (sp : Speaker) (t : Transition (ReplySender sp.capacity) SenderEvent) : Option ℕ :=
  match t.event with
  | .sendReply q =>
    match (sendReply sp t.pre q).2 with
    | .dropped => none
    | _ => some q
  | _ => none

/-- The calls of a run whose replies are not dropped, in order. -/
def keptCalls (sp : Speaker) (tr : List (Transition (ReplySender sp.capacity) SenderEvent)) :
    List ℕ :=
  tr.filterMap (keptCall sp)

/-- What a run that has reached `s` does with its replies. -/
structure QueueDiscipline (sp : Speaker)
    (tr : List (Transition (ReplySender sp.capacity) SenderEvent))
    (s : ReplySender sp.capacity) : Prop where
  /-- The replies handed over and then those that wait are the calls that were not dropped. -/
  in_order : s.handed ++ s.replyBuf.items = keptCalls sp tr
  /-- A reply is dropped only while a send is outstanding and the buffer is full. -/
  dropped : ∀ t ∈ tr, ∀ q, t.event = .sendReply q → (sendReply sp t.pre q).2 = .dropped →
    t.pre.outstanding.length = 1 ∧ t.pre.replyBuf.items.length = sp.capacity
  one_outstanding : s.outstanding.length ≤ 1
  /-- Waiting replies will be taken up. -/
  waiting : s.replyBuf.items ≠ [] → s.outstanding.length = 1
  /-- The next completion, successful or not, takes up the oldest reply. -/
  taken_up : ∀ ec q rest, s.replyBuf.items = q :: rest → (s.queries q).FitsInto sp.bufSize →
    ∃ s', sp.system.step s (.handleSendReply ec) = some s' ∧ s'.handed = s.handed ++ [q] ∧
      s'.replyBuf.items = rest

theorem keptCall_write {s s' : ReplySender sp.capacity} {q : ℕ} {query : DnsQuery} :
    keptCall sp ⟨s, .write q query, s'⟩ = none := rfl

theorem keptCall_handleSendReply {s s' : ReplySender sp.capacity} {ec : Bool} :
    keptCall sp ⟨s, .handleSendReply ec, s'⟩ = none := rfl

/-- A call appends its query to the replies, or drops it. -/
theorem handed_sendReply {s : ReplySender sp.capacity} (h : SenderSound s)
    (s' : ReplySender sp.capacity) {q : ℕ}
    (hfits : s.sendInProgress = false → (s.queries q).FitsInto sp.bufSize) :
    (sendReply sp s q).1.handed ++ (sendReply sp s q).1.replyBuf.items
      = s.handed ++ s.replyBuf.items ++ (keptCall sp ⟨s, .sendReply q, s'⟩).toList := by
  rcases h with ⟨hflag, -⟩ | ⟨hflag, hout, hbuf⟩
  · cases hfull : s.replyBuf.full with
    | false =>
        have hcall := sendReply_queued s q hflag hfull
        have hkept : keptCall sp ⟨s, .sendReply q, s'⟩ = some q := by
          simp only [keptCall, hcall]
        rw [hcall, hkept]
        show s.handed ++ (s.replyBuf.pushBack q).items = _
        rw [CircularBuffer.items_pushBack hfull, Option.toList_some, List.append_assoc]
    | true =>
        have hcall := sendReply_dropped s q hflag hfull
        have hkept : keptCall sp ⟨s, .sendReply q, s'⟩ = none := by
          simp only [keptCall, hcall]
        rw [hcall, hkept, Option.toList_none, List.append_nil]
  · have hcall := sendReply_sent s q hflag (hfits hflag)
    have hkept : keptCall sp ⟨s, .sendReply q, s'⟩ = some q := by
      simp only [keptCall, hcall]
    rw [hcall, hkept]
    show (s.handed ++ [q]) ++ s.replyBuf.items = _
    rw [hbuf, List.append_nil, List.append_nil, Option.toList_some]

/-- A completion moves the oldest waiting reply to the socket. -/
theorem handed_handleSendReply {s : ReplySender sp.capacity}
    (hfits : ∀ q, s.replyBuf.front? = some q → (s.queries q).FitsInto sp.bufSize) :
    (handleSendReply sp s).handed ++ (handleSendReply sp s).replyBuf.items
      = s.handed ++ s.replyBuf.items := by
  cases hfront : s.replyBuf.front? with
  | none => rw [handleSendReply_idle s hfront]
  | some q =>
      rw [handleSendReply_sent s q hfront (hfits q hfront)]
      show (s.handed ++ [q]) ++ s.replyBuf.popFront.items = _
      rw [CircularBuffer.items_eq_of_front? hfront, List.append_assoc, List.singleton_append]

theorem handed_eq_keptCalls {tr : List (Transition (ReplySender sp.capacity) SenderEvent)}
    {s : ReplySender sp.capacity} (h : Run sp.system tr s) :
    (∀ t ∈ tr, ComposableStep sp t) → s.handed ++ s.replyBuf.items = keptCalls sp tr := by
  refine h.invariant_trace (J := fun tr s => (∀ t ∈ tr, ComposableStep sp t) →
    s.handed ++ s.replyBuf.items = keptCalls sp tr) (fun s h₀ _ => ?_) ?_
  · rw [h₀.1, h₀.2.2.2]
    rfl
  · intro tr s e s' hrun ih hs hC
    obtain ⟨hpast, hlast⟩ := List.forall_mem_append.mp hC
    have hCe := hlast _ List.mem_cons_self
    have hsound : SenderSound s := .of_run hrun hpast
    -- the calls of the past are what the induction hypothesis counts
    rw [keptCalls, List.filterMap_append, ← keptCalls, ← ih hpast]
    rcases sender_step_cases hs with ⟨q, query, rfl, rfl⟩ | ⟨q, rfl, rfl⟩ |
      ⟨ec, packet, rest, rfl, hout, rfl⟩
    · rw [List.filterMap_cons, keptCall_write, List.filterMap_nil, List.append_nil]
    · have hfits : s.sendInProgress = false → (s.queries q).FitsInto sp.bufSize := fun hflag =>
        hCe q (if_neg (by rw [hflag]; decide))
      rw [handed_sendReply hsound (sendReply sp s q).1 hfits, List.filterMap_cons]
      cases keptCall sp ⟨s, .sendReply q, (sendReply sp s q).1⟩ <;> rfl
    · rw [List.filterMap_cons, keptCall_handleSendReply, List.filterMap_nil, List.append_nil]
      exact handed_handleSendReply hCe

/-- A call that drops its reply finds a send outstanding and the buffer full. -/
theorem SenderSound.of_dropped {s : ReplySender sp.capacity} (h : SenderSound s) {q : ℕ}
    (hdropped : (sendReply sp s q).2 = .dropped) :
    s.outstanding.length = 1 ∧ s.replyBuf.items.length = sp.capacity := by
  rcases h with ⟨hflag, hout⟩ | ⟨hflag, -, -⟩
  · cases hfull : s.replyBuf.full with
    | false =>
        rw [sendReply_queued s q hflag hfull] at hdropped
        cases hdropped
    | true => exact ⟨hout, (CircularBuffer.full_iff _).mp hfull⟩
  · by_cases hfits : (s.queries q).FitsInto sp.bufSize
    · rw [sendReply_sent s q hflag hfits] at hdropped
      cases hdropped
    · obtain ⟨e, he⟩ := sendReply_threw s q hflag hfits
      rw [he] at hdropped
      cases hdropped

/-- Whatever waits is taken up by the next completion. -/
theorem SenderSound.taken_up {s : ReplySender sp.capacity} (h : SenderSound s) (ec : Bool) {q : ℕ}
    {rest : List ℕ} (hbuf : s.replyBuf.items = q :: rest)
    (hfits : (s.queries q).FitsInto sp.bufSize) :
    ∃ s', sp.system.step s (.handleSendReply ec) = some s' ∧ s'.handed = s.handed ++ [q] ∧
      s'.replyBuf.items = rest := by
  have hfront : s.replyBuf.front? = some q := by rw [CircularBuffer.front?, hbuf, List.head?_cons]
  rcases h with ⟨-, hone⟩ | ⟨-, -, hnil⟩
  · obtain ⟨packet, hout⟩ := List.length_eq_one_iff.mp hone
    have hcall := handleSendReply_sent { s with outstanding := [] } q hfront hfits
    refine ⟨handleSendReply sp { s with outstanding := [] }, ?_, ?_, ?_⟩
    · simp only [Speaker.system, hout]
    · rw [hcall]
    · rw [hcall]
      show s.replyBuf.items.tail = rest
      rw [hbuf, List.tail_cons]
  · rw [hnil] at hbuf
    cases hbuf

theorem QueueDiscipline.of_run {tr : List (Transition (ReplySender sp.capacity) SenderEvent)}
    {s : ReplySender sp.capacity} (h : Run sp.system tr s)
    (hC : ∀ t ∈ tr, ComposableStep sp t) : QueueDiscipline sp tr s := by
  have hsound : SenderSound s := .of_run h hC
  refine ⟨handed_eq_keptCalls h hC, ?_, ?_, ?_, ?_⟩
  · intro t ht q _ hdropped
    obtain ⟨past, future, rfl, hpast, -⟩ := h.split ht
    have hgood : ∀ t' ∈ past, ComposableStep sp t' := fun t' ht' =>
      hC t' (List.mem_append_left _ ht')
    exact (SenderSound.of_run hpast hgood).of_dropped hdropped
  · rcases hsound with ⟨-, hone⟩ | ⟨-, hnone, -⟩
    · exact hone.le
    · rw [hnone]
      exact Nat.zero_le 1
  · intro hne
    rcases hsound with ⟨-, hone⟩ | ⟨-, -, hnil⟩
    · exact hone
    · exact absurd hnil hne
  · intro ec q rest hbuf hfits
    exact hsound.taken_up ec hbuf hfits

/-- **Replies leave in order.**  In every run of either sender whose compositions succeed,
the replies handed to the socket, followed by those that wait, are the calls that were
not dropped, in their order; a reply is dropped only while a send is outstanding and
the buffer is full; one send is outstanding at most; and what waits is taken up. -/
theorem reply_queue_in_order :
    (∀ tr s, Run udpDnsspeaker.system tr s → (∀ t ∈ tr, ComposableStep udpDnsspeaker t) →
      QueueDiscipline udpDnsspeaker tr s) ∧
    (∀ tr s, Run dnsConnection.system tr s → (∀ t ∈ tr, ComposableStep dnsConnection t) →
      QueueDiscipline dnsConnection tr s) :=
  ⟨fun _ _ h hC => .of_run h hC, fun _ _ h hC => .of_run h hC⟩

/-! ## A run of two replies -/

/-- A sender of replies to the question `ab`. -/
def sampleSender (sp : Speaker) : ReplySender sp.capacity where
  queries _ := plainLabelQuery

theorem plainLabelQuery_writable : plainLabelQuery.Writable := by
  refine ⟨?_, List.forall_mem_nil _, List.forall_mem_nil _, List.forall_mem_nil _⟩
  exact List.forall_mem_singleton.mpr ⟨by decide, by decide +kernel⟩

theorem plainLabelQuery_fits {size : ℕ} (h : 500 ≤ size) : plainLabelQuery.FitsInto size := by
  have hlen : plainLabelQuery.encode.length = 8 := by decide +kernel
  exact ⟨plainLabelQuery_writable, by omega⟩

/-- Two calls, of which the first sends and the second waits. -/
def sampleTrace (sp : Speaker) : List (Transition (ReplySender sp.capacity) SenderEvent) :=
  [⟨sampleSender sp, .sendReply 0, (sendReply sp (sampleSender sp) 0).1⟩,
    ⟨(sendReply sp (sampleSender sp) 0).1, .sendReply 1,
      (sendReply sp (sendReply sp (sampleSender sp) 0).1 1).1⟩]

theorem sampleTrace_run (sp : Speaker) : Run sp.system (sampleTrace sp)
    (sendReply sp (sendReply sp (sampleSender sp) 0).1 1).1 :=
  have hinit : sp.system.init (sampleSender sp) := ⟨rfl, rfl, rfl, rfl⟩
  ((Run.start hinit).extend rfl).extend rfl

theorem sampleTrace_composable (h : 500 ≤ sp.bufSize) :
    ∀ t ∈ sampleTrace sp, ComposableStep sp t := by
  have hfits := plainLabelQuery_fits h
  intro t ht q hq
  rcases List.mem_cons.mp ht with rfl | ht
  · exact hfits
  · rw [List.mem_singleton] at ht
    subst ht
    -- the second call finds the first send in progress
    have hbusy : (sendReply sp (sampleSender sp) 0).1.sendInProgress = true := by
      rw [sendReply_sent (sampleSender sp) 0 rfl hfits]
    rw [composedQuery, if_pos hbusy] at hq
    cases hq

theorem sampleTrace_flag_exact : (∀ t ∈ sampleTrace udpDnsspeaker, FlagExact t.post) ∧
    ∀ t ∈ sampleTrace udpDnsspeaker, ComposableStep udpDnsspeaker t := by
  have hC : ∀ t ∈ sampleTrace udpDnsspeaker, ComposableStep udpDnsspeaker t :=
    sampleTrace_composable (by decide)
  exact ⟨(flag_exact_iff udpDnsspeaker _ _ (sampleTrace_run udpDnsspeaker)).mpr hC, hC⟩

theorem sampleTrace_in_order : QueueDiscipline udpDnsspeaker (sampleTrace udpDnsspeaker)
    (sendReply udpDnsspeaker (sendReply udpDnsspeaker (sampleSender udpDnsspeaker) 0).1 1).1 :=
  reply_queue_in_order.1 _ _ (sampleTrace_run udpDnsspeaker) (sampleTrace_composable (by decide))
