/-
# Buffering of metrics (`dnsgw/instrumenter.cpp`)

`udp_instrumenter` collects serialised metrics and sends several of them in one datagram,
when the buffer is full or when a Nagle timer fires.  A handler of the timer that has been
queued runs even if the timer is cancelled or armed again before.

`metrics_kept_in_order` : whatever the order of calls and handlers, no metric is lost,
repeated or moved, no datagram is too large, and metrics do not stay in the buffer without
anything that sends them.
-/
import Pweb.Foundation.Runs
import Pweb.Shared.Buffers

/-- `MAX_BUF_SIZE`. -/
def maxBufSize : ℕ := 65507

/-- `NAGLE_PERIOD`, in milliseconds. -/
def naglePeriod : ℕ := 500

/-- `udp_instrumenter`: its members and the operations it has started. -/
structure UdpInstrumenter where
  now : ℕ := 0
  /-- The deadline of the outstanding `async_wait`, if there is one. -/
  timer : Option ℕ := none
  /-- Handlers of the timer that are queued without an error. -/
  expired : ℕ := 0
  /-- Handlers of the timer that are queued with `operation_aborted`. -/
  aborted : ℕ := 0
  bufSize : ℕ := 0
  buf : List Bytes := []
  /-- The datagrams sent, each with the metrics in it. -/
  sent : List (List Bytes) := []
  deriving DecidableEq, Repr

namespace UdpInstrumenter

/-! ## Operations -/

/-- `timer_.cancel()`: a handler that waits is queued with an error. -/
def cancel (s : UdpInstrumenter) : UdpInstrumenter :=
  match s.timer with
  | some _ => { s with timer := none, aborted := s.aborted + 1 }
  | none => s

/-- `send_now`. -/
def sendNow (s : UdpInstrumenter) : UdpInstrumenter :=
  let s := s.cancel
  { s with sent := s.sent ++ [s.buf], buf := [], bufSize := 0 }

/-- `start_timer`: `expires_from_now` cancels a wait that is outstanding. -/
def startTimer (s : UdpInstrumenter) : UdpInstrumenter :=
  let s := s.cancel
  { s with timer := some (s.now + naglePeriod) }

/-- `add_metric_`. -/
def addMetric (s : UdpInstrumenter) (buf : Bytes) : UdpInstrumenter :=
  let myBufSize := buf.length
  let s := if s.bufSize + myBufSize > maxBufSize then s.sendNow else s
  let s := { s with bufSize := s.bufSize + myBufSize, buf := s.buf ++ [buf] }
  let s := if s.bufSize = maxBufSize then s.sendNow else s
  if s.bufSize = myBufSize then s.startTimer else s

/-- `handle_nagle_timeout`; `ec` tells whether it is called with an error. -/
def handleNagleTimeout (s : UdpInstrumenter) (ec : Bool) : UdpInstrumenter :=
  if ec then s else s.sendNow

end UdpInstrumenter

/-- What can happen: time passes, a metric of at least one and at most `MAX_BUF_SIZE` bytes is
added, the deadline of the timer passes, and a handler of the timer runs. -/
inductive InstrumenterEvent where
  | tick (d : ℕ)
  | addMetric (buf : Bytes)
  | deadline
  | handleNagleTimeout (ec : Bool)
  deriving DecidableEq, Repr

namespace UdpInstrumenter

/-- One event; `none` where it cannot happen. -/
def step (s : UdpInstrumenter) : InstrumenterEvent → Option UdpInstrumenter
  | .tick d => some { s with now := s.now + d }
  | .addMetric buf =>
    if 1 ≤ buf.length ∧ buf.length ≤ maxBufSize then some (s.addMetric buf) else none
  | .deadline =>
    match s.timer with
    | some d => if d ≤ s.now then some { s with timer := none, expired := s.expired + 1 } else none
    | none => none
  | .handleNagleTimeout false =>
    if 0 < s.expired then some ({ s with expired := s.expired - 1 }.handleNagleTimeout false)
    else none
  | .handleNagleTimeout true =>
    if 0 < s.aborted then some ({ s with aborted := s.aborted - 1 }.handleNagleTimeout true)
    else none

/-- The instrumenter as a transition system. -/
def system : TransitionSystem UdpInstrumenter InstrumenterEvent where
  init s := s = {}
  step := step

end UdpInstrumenter

/-- The metrics that an event adds: one or none. -/
def InstrumenterEvent.added : InstrumenterEvent → List Bytes
  | .addMetric buf => [buf]
  | .tick _ => []
  | .deadline => []
  | .handleNagleTimeout _ => []

namespace UdpInstrumenter

/-! ## What should hold -/

/-- The metrics added in a run. -/
def added (tr : List (Transition UdpInstrumenter InstrumenterEvent)) : List Bytes :=
  tr.flatMap fun t => t.event.added

/-- The bytes of some metrics. -/
def totalSize (metrics : List Bytes) : ℕ := (metrics.map List.length).sum

/-- All metrics added are in the datagrams and the buffer, and the counter is right. -/
structure KeepsMetrics (metrics : List Bytes) (s : UdpInstrumenter) : Prop where
  in_order : s.sent.flatten ++ s.buf = metrics
  datagram_le : ∀ datagram ∈ s.sent, totalSize datagram ≤ maxBufSize
  bufSize : s.bufSize = totalSize s.buf
  bufSize_le : s.bufSize ≤ maxBufSize

/-- A buffer that holds something will be sent: the timer waits, or a handler without an error
is queued. -/
def WillSend (s : UdpInstrumenter) : Prop := s.buf ≠ [] → s.timer.isSome ∨ 0 < s.expired

variable {metrics : List Bytes} {s s' : UdpInstrumenter} {buf : Bytes}

/-! ## Timers leave the metrics alone -/

@[simp] theorem cancel_buf (s : UdpInstrumenter) : s.cancel.buf = s.buf := by
  rw [cancel]
  split <;> rfl

@[simp] theorem cancel_bufSize (s : UdpInstrumenter) : s.cancel.bufSize = s.bufSize := by
  rw [cancel]
  split <;> rfl

@[simp] theorem cancel_sent (s : UdpInstrumenter) : s.cancel.sent = s.sent := by
  rw [cancel]
  split <;> rfl

/-- Only the buffer, the counter and the datagrams matter. -/
theorem KeepsMetrics.congr (h : KeepsMetrics metrics s) (hsent : s'.sent = s.sent)
    (hbuf : s'.buf = s.buf) (hsize : s'.bufSize = s.bufSize) : KeepsMetrics metrics s' where
  in_order := by rw [hsent, hbuf, h.in_order]
  datagram_le := by
    rw [hsent]
    exact h.datagram_le
  bufSize := by rw [hsize, hbuf, h.bufSize]
  bufSize_le := hsize ▸ h.bufSize_le

/-! ## Sending and adding -/

theorem KeepsMetrics.sendNow (h : KeepsMetrics metrics s) : KeepsMetrics metrics s.sendNow where
  in_order := by
    rw [UdpInstrumenter.sendNow, ← h.in_order]
    simp
  datagram_le := by
    intro datagram hmem
    rw [UdpInstrumenter.sendNow, cancel_sent, cancel_buf] at hmem
    rcases List.mem_append.mp hmem with hold | hnew
    · exact h.datagram_le datagram hold
    · rw [List.mem_singleton.mp hnew, ← h.bufSize]
      exact h.bufSize_le
  bufSize := rfl
  bufSize_le := Nat.zero_le _

theorem WillSend.sendNow (s : UdpInstrumenter) : s.sendNow.WillSend := fun hne => absurd rfl hne

theorem KeepsMetrics.startTimer (h : KeepsMetrics metrics s) :
    KeepsMetrics metrics s.startTimer :=
  h.congr (cancel_sent s) (cancel_buf s) (cancel_bufSize s)

theorem WillSend.startTimer (s : UdpInstrumenter) : s.startTimer.WillSend :=
  fun _ => Or.inl rfl

/-- The buffer is sent first if the metric does not fit into it any more. -/
def makeRoom (s : UdpInstrumenter) (buf : Bytes) : UdpInstrumenter :=
  if s.bufSize + buf.length > maxBufSize then s.sendNow else s

/-- The metric is put into the buffer. -/
def push (s : UdpInstrumenter) (buf : Bytes) : UdpInstrumenter :=
  { s with bufSize := s.bufSize + buf.length, buf := s.buf ++ [buf] }

theorem addMetric_eq (s : UdpInstrumenter) (buf : Bytes) :
    s.addMetric buf =
      let s := (s.makeRoom buf).push buf
      let s := if s.bufSize = maxBufSize then s.sendNow else s
      if s.bufSize = buf.length then s.startTimer else s := rfl

theorem KeepsMetrics.makeRoom (h : KeepsMetrics metrics s) (buf : Bytes) :
    KeepsMetrics metrics (s.makeRoom buf) := by
  rw [UdpInstrumenter.makeRoom]
  split_ifs
  · exact h.sendNow
  · exact h

theorem WillSend.makeRoom (h : s.WillSend) (buf : Bytes) : (s.makeRoom buf).WillSend := by
  rw [UdpInstrumenter.makeRoom]
  split_ifs
  · exact WillSend.sendNow s
  · exact h

/-- Afterwards there is room for the metric. -/
theorem makeRoom_le (s : UdpInstrumenter) (hle : buf.length ≤ maxBufSize) :
    (s.makeRoom buf).bufSize + buf.length ≤ maxBufSize := by
  rw [makeRoom]
  split_ifs with hfull
  · rw [sendNow, Nat.zero_add]
    exact hle
  · exact not_lt.mp hfull

theorem KeepsMetrics.push (h : KeepsMetrics metrics s)
    (hle : s.bufSize + buf.length ≤ maxBufSize) : KeepsMetrics (metrics ++ [buf]) (s.push buf) where
  in_order := by
    rw [UdpInstrumenter.push, ← h.in_order, List.append_assoc]
  datagram_le := h.datagram_le
  bufSize := by
    rw [UdpInstrumenter.push, h.bufSize, totalSize, totalSize, List.map_append, List.sum_append]
    rfl
  bufSize_le := hle

/-- **A call of `add_metric_`** keeps the metrics, with the new one at the end; a metric that is
alone in the buffer starts the timer. -/
theorem addMetric_keeps (h : KeepsMetrics metrics s) (hsend : s.WillSend)
    (hle : buf.length ≤ maxBufSize) :
    KeepsMetrics (metrics ++ [buf]) (s.addMetric buf) ∧ (s.addMetric buf).WillSend := by
  have hroom := h.makeRoom buf
  have hpush := hroom.push (makeRoom_le s hle)
  rw [addMetric_eq]
  dsimp only
  split_ifs with hfull halone halone
  · exact ⟨hpush.sendNow.startTimer, WillSend.startTimer _⟩
  · exact ⟨hpush.sendNow, WillSend.sendNow _⟩
  · exact ⟨hpush.startTimer, WillSend.startTimer _⟩
  · refine ⟨hpush, fun _ => ?_⟩
    -- there were metrics in the buffer before
    apply hsend.makeRoom buf
    intro hempty
    apply halone
    have hzero : (s.makeRoom buf).bufSize = 0 := by
      rw [hroom.bufSize, hempty]
      rfl
    rw [UdpInstrumenter.push, hzero, Nat.zero_add]

/-! ## Runs -/

/-- What a step does: it adds a metric, sends the buffer, or leaves the metrics alone and does
not give up the wait or the handler that will send them. -/
inductive Effect (s : UdpInstrumenter) : InstrumenterEvent → UdpInstrumenter → Prop
  | added {buf : Bytes} (hsize : buf.length ≤ maxBufSize) :
      Effect s (.addMetric buf) (s.addMetric buf)
  | sent {e : InstrumenterEvent} {s₁ : UdpInstrumenter} (he : e.added = [])
      (hmetrics : s₁.sent = s.sent ∧ s₁.buf = s.buf ∧ s₁.bufSize = s.bufSize) :
      Effect s e s₁.sendNow
  | kept {e : InstrumenterEvent} {s₁ : UdpInstrumenter} (he : e.added = [])
      (hmetrics : s₁.sent = s.sent ∧ s₁.buf = s.buf ∧ s₁.bufSize = s.bufSize)
      (hsend : s.timer.isSome ∨ 0 < s.expired → s₁.timer.isSome ∨ 0 < s₁.expired) :
      Effect s e s₁

theorem Effect.of_step {e : InstrumenterEvent} (hs : s.step e = some s') : Effect s e s' := by
  cases e with
  | tick d =>
      cases hs
      exact .kept rfl ⟨rfl, rfl, rfl⟩ id
  | addMetric buf =>
      rw [step] at hs
      split_ifs at hs with hsize
      cases hs
      exact .added hsize.2
  | deadline =>
      rw [step] at hs
      split at hs
      · split_ifs at hs
        cases hs
        exact .kept rfl ⟨rfl, rfl, rfl⟩ fun _ => Or.inr (Nat.succ_pos _)
      · cases hs
  | handleNagleTimeout ec =>
      cases ec with
      | false =>
          rw [step] at hs
          split_ifs at hs
          cases hs
          exact .sent rfl ⟨rfl, rfl, rfl⟩
      | true =>
          rw [step] at hs
          split_ifs at hs
          cases hs
          exact .kept rfl ⟨rfl, rfl, rfl⟩ id

/-- One step keeps what should hold. -/
theorem Effect.keeps {e : InstrumenterEvent} (heffect : Effect s e s')
    (h : KeepsMetrics metrics s) (hsend : s.WillSend) :
    KeepsMetrics (metrics ++ e.added) s' ∧ s'.WillSend := by
  rcases heffect with hsize | ⟨he, hsent, hbuf, hcount⟩ | ⟨he, ⟨hsent, hbuf, hcount⟩, hkeeps⟩
  · exact addMetric_keeps h hsend hsize
  · rw [he, List.append_nil]
    exact ⟨(h.congr hsent hbuf hcount).sendNow, WillSend.sendNow _⟩
  · rw [he, List.append_nil]
    refine ⟨h.congr hsent hbuf hcount, fun hne => hkeeps (hsend ?_)⟩
    rwa [hbuf] at hne

/-- **Nothing is lost or repeated.**  In every run of calls of `add_metric_` and handlers of the
timer, the datagrams and the buffer hold the metrics added, in order; no datagram has more
than `MAX_BUF_SIZE` bytes; `buf_size_` is the size of the buffer; and what is in the buffer
will be sent. -/
theorem metrics_kept_in_order (tr : List (Transition UdpInstrumenter InstrumenterEvent))
    (s : UdpInstrumenter) (h : Run system tr s) : KeepsMetrics (added tr) s ∧ s.WillSend := by
  refine h.invariant_trace (J := fun tr s => KeepsMetrics (added tr) s ∧ s.WillSend) ?_ ?_
  · rintro s rfl
    refine ⟨⟨rfl, fun datagram hmem => ?_, rfl, Nat.zero_le _⟩, fun hne => absurd rfl hne⟩
    cases hmem
  · rintro tr s e s' - ⟨hkeep, hsend⟩ hs
    have hadded : added (tr ++ [⟨s, e, s'⟩]) = added tr ++ e.added := by
      rw [added, List.flatMap_append, List.flatMap_singleton]
      rfl
    rw [hadded]
    exact (Effect.of_step hs).keeps hkeep hsend

/-- Two metrics, and a third one after the deadline, before the handler runs. -/
def threeMetrics : List InstrumenterEvent :=
  [.addMetric [1], .tick 200, .addMetric [2], .tick 300, .deadline, .addMetric [3],
    .handleNagleTimeout false]

/-- They are sent in one datagram. -/
theorem threeMetrics_kept : ∃ tr s, Run system tr s ∧ tr.map Transition.event = threeMetrics ∧
    s.sent = [[[1], [2], [3]]] ∧ KeepsMetrics (added tr) s ∧ s.WillSend := by
  obtain ⟨s, hexec, hsent⟩ : ∃ s, system.exec {} threeMetrics = some s ∧
      s.sent = [[[1], [2], [3]]] := ⟨_, rfl, rfl⟩
  obtain ⟨tr, hrun, hevents⟩ := Run.of_exec rfl hexec
  exact ⟨tr, s, hrun, hevents, hsent, metrics_kept_in_order tr s hrun⟩

end UdpInstrumenter
