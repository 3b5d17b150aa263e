/-
# Connections to pollers (`crawler_manager/pollerconnector.cpp`)

A `pollerconnection` that has been started reads and writes messages.  A failed or
rejected read calls `disconnect`; a failed write calls it for its message and for each
message that waits; and so does an assignment once `connected_` is false.  Nothing
guards `disconnect` against a second call, which shuts down a closed socket and throws.
An exception leaves `io_service::run`, which ends the process.

`torn_down_once_iff` : the connection is torn down at most once exactly in the runs in
which every failure comes while it is connected, and a write fails with an empty queue
behind it.  `failed_write_is_fatal` : the read that is pending when a write fails can
always be the second failure.  `assertion_never_fails` : a second call does not get as
far as the database.
-/
import Pweb.Crawler.BufRead
import Pweb.Crawler.BufWrite
import Pweb.Foundation.Outcome

open CrawlerProtocol

/-- The members of a `pollerconnection` after `start()`, and whether its socket is open.  With
them the messages that `sendmsg` has passed to the strand of the writer, what `homeagentdb`
knows of the connection (whether it is in `pollerdb_`, and the calls of
`poller_disconnected_` that are still to run), the signals `home_agent_discovered`, the number
of calls of `disconnect`, and the three ways to end. -/
structure PollerConnection where
  connected : Bool := true
  socketOpen : Bool := true
  bufread : BufRead := {}
  bufwrite : BufWrite := BufWrite.setConnected {}
  dispatched : List Bytes := []
  inPollerdb : Bool := true
  notified : ℕ := 0
  discovered : List Bytes := []
  disconnects : ℕ := 0
  shutdownOnClosed : Bool := false
  assertFailed : Bool := false
  halted : Bool := false
  deriving DecidableEq

namespace PollerConnection

/-- What a function leaves behind: when it returns, or when it throws. -/
abbrev Result := Except PollerConnection PollerConnection

/-! ## The functions of a connection -/

/-- The handlers that `start` adds to the reader. -/
def readHandlers : BufReadHandlers := ⟨[.homeAgentDiscovered], true⟩

/-- The handlers that `start` sets for the writer. -/
def writeHandlers : BufWriteCallbacks := ⟨true, true⟩

/-- `disconnect`.  On an open socket `shutdown` may fail, on a closed one it does; either way it
throws. -/
def disconnect (shutdown : Bool) (p : PollerConnection) : Result :=
  let p := { p with connected := false, disconnects := p.disconnects + 1 }
  if ¬ p.socketOpen then .error { p with shutdownOnClosed := true }
  else if ¬ shutdown then .error p
  else .ok { p with socketOpen := false, notified := p.notified + 1 }

/-- `send_failure`. -/
def sendFailure (shutdown : Bool) (p : PollerConnection) (type : MessageType) (str : Bytes) :
    Result := do
  let p ← p.disconnect shutdown
  if type = .homeAgentAssignment then .ok { p with discovered := p.discovered ++ [str] }
  else .ok p

/-- `assign_home_agent`: `sendmsg` passes the message to the strand. -/
def assignHomeAgent (shutdown : Bool) (p : PollerConnection) (hostname : Bytes) : Result :=
  if p.connected then .ok { p with dispatched := p.dispatched ++ [hostname] }
  else p.sendFailure shutdown .homeAgentAssignment hostname

/-- The strand runs the function of the oldest `sendmsg`. -/
def dispatch (p : PollerConnection) : PollerConnection :=
  match p.dispatched with
  | [] => p
  | hostname :: rest =>
    { p with
      dispatched := rest
      bufwrite := p.bufwrite.sendmsg .homeAgentAssignment hostname }

/-- The error handler of the writer, for each of these messages. -/
def sendFailures (shutdown : Bool) (p : PollerConnection) (items : List BufItem) : Result :=
  items.foldlM (fun p item => p.sendFailure shutdown item.header.type item.body) p

/-- `bufwrite::handle_bufitem_sent` with the handlers of the connection. -/
def handleBufitemSent (shutdown : Bool) (p : PollerConnection) (ec : Bool) (item : BufItem) :
    Result :=
  let w := { p.bufwrite with outstanding := p.bufwrite.outstanding.erase item }
  if ec then do
    let p ← sendFailures shutdown { p with bufwrite := { w with sendInProgress := false } }
      (item :: w.sendQueue)
    .ok { p with bufwrite := w.handleBufitemSent writeHandlers true item }
  else .ok { p with bufwrite := w.handleBufitemSent writeHandlers false item }

/-- The handlers of the reader. -/
def handleCalls (shutdown : Bool) (p : PollerConnection) (calls : List BufReadCall) : Result :=
  calls.foldlM (fun p call =>
    match call with
    | .handler _ str => .ok { p with discovered := p.discovered ++ [str] }
    | .error => p.disconnect shutdown) p

/-- `bufread::handle_header_read` or `handle_body_read` with the handlers of the connection. -/
def handleRead (shutdown : Bool) (p : PollerConnection) (bs : Bytes) : Result :=
  let next := (BufRead.reader readHandlers).handle p.bufread bs
  handleCalls shutdown { p with bufread := next.1 } next.2

/-- The same for a read that has failed. -/
def handleReadError (shutdown : Bool) (p : PollerConnection) : Result :=
  let next := (BufRead.reader readHandlers).handleError p.bufread
  handleCalls shutdown { p with bufread := next.1 } next.2

/-- `homeagentdb::poller_disconnected_` for this connection. -/
def pollerDisconnected (p : PollerConnection) : Result :=
  let p := { p with notified := p.notified - 1 }
  if p.inPollerdb then .ok { p with inPollerdb := false }
  else .error { p with assertFailed := true }

/-! ## The connection as a transition system -/

/-- What can happen: `homeagentdb` assigns a home agent, the strand of the writer runs a
`sendmsg`, a write or a read completes or fails, or `homeagentdb` is told of a disconnection.
`shutdown` says whether the socket can be shut down, should it be. -/
inductive Event where
  | assignHomeAgent (hostname : Bytes) (shutdown : Bool)
  | dispatch
  | sent (item : BufItem) (ec : Bool) (shutdown : Bool)
  | read (bs : Bytes) (shutdown : Bool)
  | readError (shutdown : Bool)
  | pollerDisconnected
  deriving DecidableEq

/-- What the connection does. -/
def perform (p : PollerConnection) : Event → Result
  | .assignHomeAgent hostname shutdown => p.assignHomeAgent shutdown hostname
  | .dispatch => .ok p.dispatch
  | .sent item ec shutdown => p.handleBufitemSent shutdown ec item
  | .read bs shutdown => p.handleRead shutdown bs
  | .readError shutdown => p.handleReadError shutdown
  | .pollerDisconnected => p.pollerDisconnected

/-- What is pending: assignments go to pollers in `pollerdb_`, and an outstanding operation may
complete or fail, also after the socket has been closed. -/
def Pending (p : PollerConnection) : Event → Prop
  | .assignHomeAgent _ _ => p.inPollerdb = true
  | .dispatch => p.dispatched ≠ []
  | .sent item _ _ => item ∈ p.bufwrite.outstanding
  | .read bs _ => (BufRead.reader readHandlers).want p.bufread = some bs.length
  | .readError _ => ((BufRead.reader readHandlers).want p.bufread).isSome
  | .pollerDisconnected => 0 < p.notified

instance (p : PollerConnection) : DecidablePred p.Pending
  | .assignHomeAgent _ _ => inferInstanceAs (Decidable (_ = _))
  | .dispatch => inferInstanceAs (Decidable (_ ≠ _))
  | .sent _ _ _ => inferInstanceAs (Decidable (_ ∈ _))
  | .read _ _ => inferInstanceAs (Decidable (_ = _))
  | .readError _ => inferInstanceAs (Decidable (_ = _))
  | .pollerDisconnected => inferInstanceAs (Decidable (_ < _))

/-- The state after a handler: an exception ends the process. -/
def outcome : Result → PollerConnection
  | .ok p => p
  | .error p => { p with halted := true }

/-- A connection from the end of `start()`, which the accept handler calls; handlers run one
after the other. -/
def system : TransitionSystem PollerConnection Event where
  init p := p = {}
  step p e := if p.halted = false ∧ p.Pending e then some (outcome (p.perform e)) else none

theorem step_eq_some_iff {p p' : PollerConnection} {e : Event} :
    system.step p e = some p' ↔ (p.halted = false ∧ p.Pending e) ∧ p' = outcome (p.perform e) := by
  rw [eq_comm (a := p')]
  exact Option.ite_none_right_eq_some.trans (and_congr_right fun _ => Option.some_inj)

theorem outcome_of_ensures {r : Result} {Q E R : PollerConnection → Prop} (h : Ensures r Q E)
    (hQ : ∀ p, Q p → R p) (hE : ∀ p, E p → R { p with halted := true }) : R (outcome r) := by
  cases r with
  | ok p => exact hQ p h
  | error p => exact hE p h

/-! ## Up and down -/

/-- The connection is up, and nothing has gone wrong. -/
structure Up (p : PollerConnection) : Prop where
  connected : p.connected = true
  socketOpen : p.socketOpen = true
  inPollerdb : p.inPollerdb = true
  notified : p.notified = 0
  disconnects : p.disconnects = 0
  shutdownOnClosed : p.shutdownOnClosed = false
  assertFailed : p.assertFailed = false

/-- The connection has been torn down, and `homeagentdb` knows or is about to. -/
structure Down (p : PollerConnection) : Prop where
  connected : p.connected = false
  socketOpen : p.socketOpen = false
  notified : p.notified = if p.inPollerdb then 1 else 0
  disconnects : p.disconnects = 1
  shutdownOnClosed : p.shutdownOnClosed = false
  assertFailed : p.assertFailed = false

/-- **Torn down at most once**: `disconnect` has been executed at most once, no closed socket has
been shut down, and the assertion of `poller_disconnected_` has not failed. -/
structure TornDownOnce (p : PollerConnection) : Prop where
  disconnects : p.disconnects ≤ 1
  shutdownOnClosed : p.shutdownOnClosed = false
  assertFailed : p.assertFailed = false

section

variable {p : PollerConnection} {shutdown : Bool}

theorem Up.tornDownOnce (h : p.Up) : p.TornDownOnce where
  disconnects := by rw [h.disconnects]; exact Nat.zero_le 1
  shutdownOnClosed := h.shutdownOnClosed
  assertFailed := h.assertFailed

theorem Down.tornDownOnce (h : p.Down) : p.TornDownOnce where
  disconnects := h.disconnects.le
  shutdownOnClosed := h.shutdownOnClosed
  assertFailed := h.assertFailed

/-- The first `disconnect` tears the connection down or ends the process. -/
theorem Up.disconnect (h : p.Up) : Ensures (p.disconnect shutdown)
    (fun p' => shutdown = true ∧ p'.Down) (fun p' => shutdown = false ∧ p'.TornDownOnce) := by
  have hopen : ¬ ¬ p.socketOpen = true := not_not.mpr h.socketOpen
  unfold PollerConnection.disconnect
  dsimp only
  rw [if_neg hopen]
  cases shutdown with
  | true =>
      refine ⟨rfl, rfl, rfl, ?_, ?_, h.shutdownOnClosed, h.assertFailed⟩
      · dsimp only
        rw [h.notified, h.inPollerdb]
        rfl
      · dsimp only
        rw [h.disconnects]
  | false =>
      refine ⟨rfl, ?_, h.shutdownOnClosed, h.assertFailed⟩
      dsimp only
      rw [h.disconnects]

/-- A second `disconnect` shuts down the closed socket. -/
theorem Down.disconnect (h : p.Down) : Ensures (p.disconnect shutdown)
    (fun _ => False) (fun p' => ¬ p'.TornDownOnce) := by
  have hclosed : ¬ p.socketOpen = true := by
    rw [h.socketOpen]
    exact Bool.false_ne_true
  unfold PollerConnection.disconnect
  dsimp only
  rw [if_pos hclosed]
  exact fun hgood => Bool.noConfusion hgood.shutdownOnClosed

theorem sendFailure_ensures {Q E : PollerConnection → Prop} {type : MessageType} {str : Bytes}
    (h : Ensures (p.disconnect shutdown) Q E)
    (hQ : ∀ p names, Q p → Q { p with discovered := names }) :
    Ensures (p.sendFailure shutdown type str) Q E := by
  apply h.bind
  intro p' hp'
  apply Ensures.ite
  · exact fun _ => hQ p' _ hp'
  · exact fun _ => hp'

theorem Up.sendFailure (h : p.Up) (type : MessageType) (str : Bytes) :
    Ensures (p.sendFailure shutdown type str)
      (fun p' => shutdown = true ∧ p'.Down) (fun p' => shutdown = false ∧ p'.TornDownOnce) := by
  apply sendFailure_ensures h.disconnect
  rintro p' names ⟨hok, hdown⟩
  exact ⟨hok, { hdown with }⟩

theorem Down.sendFailure (h : p.Down) (type : MessageType) (str : Bytes) :
    Ensures (p.sendFailure shutdown type str) (fun _ => False) (fun p' => ¬ p'.TornDownOnce) := by
  apply sendFailure_ensures h.disconnect
  exact fun _ _ => False.elim

/-- The failures of several messages disconnect once for each. -/
theorem Down.sendFailures (h : p.Down) (item : BufItem) (items : List BufItem) :
    Ensures (sendFailures shutdown p (item :: items))
      (fun _ => False) (fun p' => ¬ p'.TornDownOnce) := by
  rw [PollerConnection.sendFailures, List.foldlM_cons]
  apply (h.sendFailure _ _).bind
  exact fun _ => False.elim

theorem Up.sendFailures_single (h : p.Up) (item : BufItem) (items : List BufItem)
    (honce : items = [] ∨ shutdown = false) :
    Ensures (sendFailures shutdown p (item :: items)) Down TornDownOnce := by
  rw [PollerConnection.sendFailures, List.foldlM_cons]
  apply ((h.sendFailure _ _).mono (fun _ => id) fun _ hbad => hbad.2).bind
  rintro p' ⟨hok, hdown⟩
  rcases honce with rfl | hfail
  · exact hdown
  · rw [hok] at hfail
    exact Bool.noConfusion hfail

theorem Up.sendFailures_several (h : p.Up) (item next : BufItem) (items : List BufItem) :
    Ensures (sendFailures true p (item :: next :: items))
      (fun _ => False) (fun p' => ¬ p'.TornDownOnce) := by
  rw [PollerConnection.sendFailures, List.foldlM_cons]
  apply ((h.sendFailure _ _).mono (fun _ => id) fun _ hbad => absurd hbad.1 Bool.noConfusion).bind
  rintro p' ⟨-, hdown⟩
  exact hdown.sendFailures next items

/-- The strand of the writer changes nothing but the writer. -/
theorem dispatch_eq (p : PollerConnection) : ∃ dispatched bufwrite,
    p.dispatch = { p with dispatched := dispatched, bufwrite := bufwrite } := by
  unfold dispatch
  split
  · exact ⟨p.dispatched, p.bufwrite, rfl⟩
  · exact ⟨_, _, rfl⟩

/-- Handlers for messages change nothing but what they have signalled. -/
theorem handleCalls_of_no_error {calls : List BufReadCall} (h : ∀ call ∈ calls, call ≠ .error) :
    ∃ names, handleCalls shutdown p calls = .ok { p with discovered := names } := by
  induction calls generalizing p with
  | nil => exact ⟨p.discovered, rfl⟩
  | cons call calls ih =>
      rw [List.forall_mem_cons] at h
      cases call with
      | handler type str => exact ih h.2
      | error => exact absurd rfl h.1

/-- A rejected read disconnects. -/
theorem handleRead_of_rejects {bs : Bytes} (h : BufRead.Rejects readHandlers p.bufread bs) :
    p.handleRead shutdown bs = { p with
      bufread := ((BufRead.reader readHandlers).handle p.bufread bs).1 }.disconnect shutdown := by
  unfold handleRead
  dsimp only
  rw [BufRead.calls_of_rejects h, if_pos (show readHandlers.errcb = true from rfl)]
  unfold handleCalls
  rw [List.foldlM_cons]
  apply bind_pure

/-- Any other read is handled. -/
theorem handleRead_of_not_rejects (shutdown : Bool) {bs : Bytes}
    (h : ¬ BufRead.Rejects readHandlers p.bufread bs) (hgo : p.bufread.stage ≠ .stopped) :
    ∃ bufread names, bufread.stage ≠ .stopped ∧
      p.handleRead shutdown bs = .ok { p with bufread := bufread, discovered := names } := by
  obtain ⟨hstage, hcalls⟩ := BufRead.handle_of_not_rejects h hgo
  obtain ⟨names, heq⟩ := handleCalls_of_no_error hcalls
  exact ⟨_, names, hstage, heq⟩

/-- A failed read disconnects. -/
theorem handleReadError_eq : p.handleReadError shutdown
    = { p with bufread := { p.bufread with stage := .stopped } }.disconnect shutdown := by
  unfold handleReadError
  apply bind_pure

end

/-! ## Steps -/

/-- The event fails at most once, and only a connection that is up: behind a failed write no
message waits, unless the socket cannot be shut down. -/
def FailsOnce (p : PollerConnection) : Event → Prop
  | .assignHomeAgent _ _ => p.connected = true
  | .dispatch => True
  | .sent _ ec shutdown =>
    ec = true → p.connected = true ∧ (p.bufwrite.sendQueue = [] ∨ shutdown = false)
  | .read bs _ => BufRead.Rejects readHandlers p.bufread bs → p.connected = true
  | .readError _ => p.connected = true
  | .pollerDisconnected => True

/-- The connection is up and reads, it is down, or the process has ended before it was down. -/
inductive Intact (p : PollerConnection) : Prop
  | up (h : p.Up) (hgo : p.bufread.stage ≠ .stopped)
  | down (h : p.Down)
  | halted (hhalt : p.halted = true) (h : p.TornDownOnce)

section

variable {p : PollerConnection} {e : Event}

theorem Intact.tornDownOnce (h : p.Intact) : p.TornDownOnce := by
  rcases h with ⟨hup, -⟩ | hdown | ⟨-, hgood⟩
  · exact hup.tornDownOnce
  · exact hdown.tornDownOnce
  · exact hgood

theorem intact_outcome {r : Result} (h : Ensures r Intact TornDownOnce) : (outcome r).Intact := by
  apply outcome_of_ensures h
  · exact fun _ => id
  · exact fun _ hgood => .halted rfl { hgood with }

theorem not_tornDownOnce_outcome {r : Result}
    (h : Ensures r (fun _ => False) (fun p => ¬ p.TornDownOnce)) : ¬ (outcome r).TornDownOnce := by
  refine outcome_of_ensures (R := fun p => ¬ p.TornDownOnce) h ?_ ?_
  · exact fun _ => False.elim
  · exact fun _ hbad hgood => hbad { hgood with }

/-- The first failure is survived. -/
theorem Up.step (h : p.Up) (hgo : p.bufread.stage ≠ .stopped) (hpending : p.Pending e)
    (honce : p.FailsOnce e) : Ensures (p.perform e) Intact TornDownOnce := by
  cases e with
  | assignHomeAgent hostname shutdown =>
      rw [perform, assignHomeAgent, if_pos h.connected]
      exact .up { h with } hgo
  | dispatch =>
      obtain ⟨dispatched, bufwrite, heq⟩ := p.dispatch_eq
      rw [perform, heq]
      exact .up { h with } hgo
  | sent item ec shutdown =>
      cases ec with
      | true =>
          apply Ensures.bind (Up.sendFailures_single ?_ item _ (honce rfl).2)
          · exact fun p' hdown => .down { hdown with }
          · exact { h with }
      | false => exact .up { h with } hgo
  | read bs shutdown =>
      by_cases hrej : BufRead.Rejects readHandlers p.bufread bs
      · rw [perform, handleRead_of_rejects hrej]
        refine Ensures.mono (Up.disconnect { h with }) ?_ ?_
        · exact fun _ hdown => .down hdown.2
        · exact fun _ hgood => hgood.2
      · obtain ⟨bufread, names, hnext, heq⟩ :=
          handleRead_of_not_rejects shutdown hrej hgo
        rw [perform, heq]
        exact .up { h with } hnext
  | readError shutdown =>
      rw [perform, handleReadError_eq]
      refine Ensures.mono (Up.disconnect { h with }) ?_ ?_
      · exact fun _ hdown => .down hdown.2
      · exact fun _ hgood => hgood.2
  | pollerDisconnected =>
      have hpos : 0 < p.notified := hpending
      rw [h.notified] at hpos
      exact absurd hpos (Nat.lt_irrefl 0)

/-- Several failures at once are not. -/
theorem Up.not_step (h : p.Up) (hmany : ¬ p.FailsOnce e) :
    Ensures (p.perform e) (fun _ => False) (fun p' => ¬ p'.TornDownOnce) := by
  cases e with
  | assignHomeAgent hostname shutdown => exact absurd h.connected hmany
  | dispatch => exact absurd trivial hmany
  | sent item ec shutdown =>
      obtain ⟨rfl, hbehind⟩ := Classical.not_imp.mp hmany
      rw [not_and_or, not_or, Bool.not_eq_false] at hbehind
      obtain ⟨hqueue, rfl⟩ := hbehind.resolve_left (not_not.mpr h.connected)
      obtain ⟨next, items, hcons⟩ := List.exists_cons_of_ne_nil hqueue
      unfold perform PollerConnection.handleBufitemSent
      dsimp only
      rw [if_pos rfl, hcons]
      apply Ensures.bind (Up.sendFailures_several ?_ item next items)
      · exact fun _ => False.elim
      · exact { h with }
  | read bs shutdown => exact absurd (fun _ => h.connected) hmany
  | readError shutdown => exact absurd h.connected hmany
  | pollerDisconnected => exact absurd trivial hmany

/-- Without a failure a connection stays down. -/
theorem Down.step (h : p.Down) (hpending : p.Pending e) (honce : p.FailsOnce e) :
    Ensures (p.perform e) Intact TornDownOnce := by
  have hnot : ¬ p.connected = true := by
    rw [h.connected]
    exact Bool.false_ne_true
  cases e with
  | assignHomeAgent hostname shutdown => exact absurd honce hnot
  | dispatch =>
      obtain ⟨dispatched, bufwrite, heq⟩ := p.dispatch_eq
      rw [perform, heq]
      exact .down { h with }
  | sent item ec shutdown =>
      cases ec with
      | true => exact absurd (honce rfl).1 hnot
      | false => exact .down { h with }
  | read bs shutdown =>
      have hrej : ¬ BufRead.Rejects readHandlers p.bufread bs := fun hrej => hnot (honce hrej)
      have hgo := BufRead.want_isSome_iff.mp (Option.isSome_of_eq_some hpending)
      obtain ⟨bufread, names, -, heq⟩ := handleRead_of_not_rejects shutdown hrej hgo
      rw [perform, heq]
      exact .down { h with }
  | readError shutdown => exact absurd honce hnot
  | pollerDisconnected =>
      have hpos : 0 < p.notified := hpending
      have hnotified := h.notified
      have hin : p.inPollerdb = true := by
        by_contra hout
        rw [if_neg hout] at hnotified
        omega
      rw [if_pos hin] at hnotified
      rw [perform, PollerConnection.pollerDisconnected]
      dsimp only
      rw [if_pos hin, hnotified]
      exact .down { h with notified := rfl }

/-- Every failure of a connection that is down disconnects again. -/
theorem Down.not_step (h : p.Down) (hfails : ¬ p.FailsOnce e) :
    Ensures (p.perform e) (fun _ => False) (fun p' => ¬ p'.TornDownOnce) := by
  cases e with
  | assignHomeAgent hostname shutdown =>
      rw [perform, assignHomeAgent, if_neg (show ¬ p.connected = true from hfails)]
      exact h.sendFailure _ _
  | dispatch => exact absurd trivial hfails
  | sent item ec shutdown =>
      obtain ⟨rfl, -⟩ := Classical.not_imp.mp hfails
      apply Ensures.bind (Down.sendFailures ?_ item _)
      · exact fun _ => False.elim
      · exact { h with }
  | read bs shutdown =>
      obtain ⟨hrej, -⟩ := Classical.not_imp.mp hfails
      rw [perform, handleRead_of_rejects hrej]
      apply Down.disconnect
      exact { h with }
  | readError shutdown =>
      rw [perform, handleReadError_eq]
      apply Down.disconnect
      exact { h with }
  | pollerDisconnected => exact absurd trivial hfails

theorem intact_step {p' : PollerConnection} (h : p.Intact) (honce : p.FailsOnce e)
    (hstep : system.step p e = some p') : p'.Intact := by
  obtain ⟨⟨hrunning, hpending⟩, rfl⟩ := step_eq_some_iff.mp hstep
  rcases h with ⟨hup, hgo⟩ | hdown | ⟨hhalt, -⟩
  · exact intact_outcome (hup.step hgo hpending honce)
  · exact intact_outcome (hdown.step hpending honce)
  · rw [hhalt] at hrunning
    cases hrunning

theorem failsOnce_of_step {p' : PollerConnection} (h : p.Intact) (hgood : p'.TornDownOnce)
    (hstep : system.step p e = some p') : p.FailsOnce e := by
  obtain ⟨⟨hrunning, -⟩, rfl⟩ := step_eq_some_iff.mp hstep
  by_contra hfails
  rcases h with ⟨hup, -⟩ | hdown | ⟨hhalt, -⟩
  · exact not_tornDownOnce_outcome (hup.not_step hfails) hgood
  · exact not_tornDownOnce_outcome (hdown.not_step hfails) hgood
  · rw [hhalt] at hrunning
    cases hrunning

end

theorem up_initial : Up {} where
  connected := rfl
  socketOpen := rfl
  inPollerdb := rfl
  notified := rfl
  disconnects := rfl
  shutdownOnClosed := rfl
  assertFailed := rfl

/-- What holds after steps each of which fails at most once. -/
theorem intact_of_run {tr : List (Transition PollerConnection Event)} {p : PollerConnection}
    (h : Run system tr p) (honce : ∀ t ∈ tr, t.pre.FailsOnce t.event) : p.Intact := by
  refine h.invariant_when (I := Intact) (C := fun t => t.pre.FailsOnce t.event) ?_ ?_ honce
  · rintro p rfl
    exact .up up_initial BufReadStage.noConfusion
  · exact fun _ _ _ _ _ hp honce hs => intact_step hp honce hs

/-- **When a connection is torn down at most once.**  In every run, `disconnect` is executed at
most once, the assertion of `poller_disconnected_` never fails and no closed socket is shut
down, exactly if every failure comes while the connection is up and no message waits behind a
failed write. -/
theorem torn_down_once_iff {tr : List (Transition PollerConnection Event)} {p : PollerConnection}
    (h : Run system tr p) :
    (∀ t ∈ tr, t.post.TornDownOnce) ↔ ∀ t ∈ tr, t.pre.FailsOnce t.event := by
  refine Run.forall_iff (P := fun t => t.post.TornDownOnce)
    (C := fun t => t.pre.FailsOnce t.event) ?_ h
  intro tr p e p' hrun hpast hstep
  have hintact := intact_of_run hrun hpast
  constructor
  · exact fun hgood => failsOnce_of_step hintact hgood hstep
  · exact fun honce => (intact_step hintact honce hstep).tornDownOnce

/-! ## Failed writes -/

/-- The failure of messages leaves the reader alone. -/
theorem sendFailures_frame {shutdown : Bool} (items : List BufItem) (p : PollerConnection) :
    Ensures (sendFailures shutdown p items)
      (fun p' => p'.bufread = p.bufread ∧ p'.halted = p.halted) (fun _ => True) := by
  refine Ensures.foldlM (I := fun p' : PollerConnection =>
    p'.bufread = p.bufread ∧ p'.halted = p.halted) ?_ items ⟨rfl, rfl⟩
  intro q item hq
  refine sendFailure_ensures ?_ fun _ _ => id
  unfold disconnect
  apply Ensures.ite
  · exact fun _ => trivial
  · exact fun _ => Ensures.ite (fun _ => trivial) fun _ => hq

/-- The failure of a write with nothing behind it leaves the connection down and its read
pending. -/
theorem Up.handleBufitemSent_alone {p : PollerConnection} (h : p.Up)
    (hqueue : p.bufwrite.sendQueue = []) (item : BufItem) :
    ∃ p', p.handleBufitemSent true true item = .ok p' ∧
      p'.Down ∧ p'.bufread = p.bufread ∧ p'.halted = p.halted := by
  apply Ensures.exists_ok
  unfold PollerConnection.handleBufitemSent
  dsimp only
  rw [if_pos rfl, hqueue]
  generalize hq : ({ p with bufwrite := _ } : PollerConnection) = q
  have hup : q.Up := by
    rw [← hq]
    exact { h with }
  have hfailed : Ensures (sendFailures true q [item])
      (fun p' => p'.Down ∧ p'.bufread = q.bufread ∧ p'.halted = q.halted) (fun _ => False) := by
    have hsingle : Ensures (sendFailures true q [item]) Down (fun _ => False) := by
      apply ((hup.sendFailure item.header.type item.body).mono (fun _ => id) ?_).bind
      · exact fun p' hp' => hp'.2
      · exact fun p' hp' => Bool.noConfusion hp'.1
    apply (hsingle.and (sendFailures_frame [item] q)).mono
    · exact fun p' => id
    · exact fun p' hp' => hp'.1
  apply hfailed.bind
  rintro p' ⟨hdown, hread, hhalt⟩
  refine ⟨{ hdown with }, hread.trans ?_, hhalt.trans ?_⟩
  · rw [← hq]
  · rw [← hq]

/-- **A failed write is fatal**: while the connection is up, a failure of the outstanding write
and, unless it is already one too many, of the pending read make a run in which the connection
is torn down twice. -/
theorem failed_write_is_fatal {tr : List (Transition PollerConnection Event)}
    {p : PollerConnection} (h : Run system tr p) (honce : ∀ t ∈ tr, t.pre.FailsOnce t.event)
    (hrunning : p.halted = false) (hconn : p.connected = true) {item : BufItem}
    (hmem : item ∈ p.bufwrite.outstanding) :
    ∃ tr' p', Run system (tr ++ tr') p' ∧ ¬ p'.TornDownOnce ∧
      tr'.map Transition.event <+: [.sent item true true, .readError true] := by
  have hpending : p.Pending (.sent item true true) := hmem
  have hintact := intact_of_run h honce
  by_cases hqueue : p.bufwrite.sendQueue = []
  · rcases hintact with ⟨hup, hgo⟩ | hdown | ⟨hhalt, -⟩
    · -- the connection is down with its read still pending, and the read is aborted
      obtain ⟨p₁, hok, hdown, hread, hhalt⟩ := hup.handleBufitemSent_alone hqueue item
      have hwrite : system.step p (.sent item true true) = some p₁ := by
        refine step_eq_some_iff.mpr ⟨⟨hrunning, hpending⟩, ?_⟩
        rw [perform, hok]
        rfl
      have habort : system.step p₁ (.readError true)
          = some (outcome (p₁.perform (.readError true))) := by
        refine step_eq_some_iff.mpr ⟨⟨hhalt.trans hrunning, ?_⟩, rfl⟩
        apply BufRead.want_isSome_iff.mpr
        rwa [hread]
      have hrun := (h.extend hwrite).extend habort
      rw [List.append_assoc] at hrun
      refine ⟨_, _, hrun, ?_, List.prefix_rfl⟩
      apply not_tornDownOnce_outcome
      apply hdown.not_step
      exact fun hup => Bool.noConfusion (hup.symm.trans hdown.connected)
    · rw [hdown.connected] at hconn
      cases hconn
    · rw [hhalt] at hrunning
      cases hrunning
  · have hwrite : system.step p (.sent item true true)
        = some (outcome (p.perform (.sent item true true))) :=
      step_eq_some_iff.mpr ⟨⟨hrunning, hpending⟩, rfl⟩
    refine ⟨_, _, h.extend hwrite, fun hgood => ?_, ⟨[.readError true], rfl⟩⟩
    rcases (failsOnce_of_step hintact hgood hwrite rfl).2 with hnone | hfail
    · exact hqueue hnone
    · cases hfail

/-! ## The assertion -/

/-- `homeagentdb` is told of the disconnection once, by the `disconnect` that closes the
socket. -/
structure ToldOnce (p : PollerConnection) : Prop where
  before : p.socketOpen = true → p.inPollerdb = true ∧ p.notified = 0
  after : p.socketOpen = false → p.notified = if p.inPollerdb then 1 else 0
  assertFailed : p.assertFailed = false

theorem ToldOnce.disconnect {p : PollerConnection} (h : p.ToldOnce) (shutdown : Bool) :
    Ensures (p.disconnect shutdown) ToldOnce ToldOnce := by
  unfold PollerConnection.disconnect
  apply Ensures.ite
  · exact fun _ => { h with }
  · intro hopen
    obtain ⟨hin, hnone⟩ := h.before (not_not.mp hopen)
    apply Ensures.ite
    · exact fun _ => { h with }
    · refine fun _ => ⟨fun hopen => Bool.noConfusion hopen, fun _ => ?_, h.assertFailed⟩
      dsimp only
      rw [hnone, if_pos hin]

theorem ToldOnce.handleCalls {p : PollerConnection} (h : p.ToldOnce) (shutdown : Bool)
    (calls : List BufReadCall) : Ensures (handleCalls shutdown p calls) ToldOnce ToldOnce := by
  refine Ensures.foldlM ?_ calls h
  intro q call hq
  cases call with
  | handler type str => exact { hq with }
  | error => exact hq.disconnect shutdown

theorem ToldOnce.sendFailure {p : PollerConnection} (h : p.ToldOnce) (shutdown : Bool)
    (type : MessageType) (str : Bytes) :
    Ensures (p.sendFailure shutdown type str) ToldOnce ToldOnce :=
  sendFailure_ensures (h.disconnect shutdown) fun _ _ hp => { hp with }

theorem ToldOnce.sendFailures {p : PollerConnection} (h : p.ToldOnce) (shutdown : Bool)
    (items : List BufItem) : Ensures (sendFailures shutdown p items) ToldOnce ToldOnce :=
  Ensures.foldlM (fun _ _ hq => hq.sendFailure shutdown _ _) items h

theorem ToldOnce.perform {p : PollerConnection} {e : Event} (h : p.ToldOnce)
    (hpending : p.Pending e) : Ensures (p.perform e) ToldOnce ToldOnce := by
  cases e with
  | assignHomeAgent hostname shutdown =>
      apply Ensures.ite
      · exact fun _ => { h with }
      · exact fun _ => h.sendFailure shutdown _ hostname
  | dispatch =>
      obtain ⟨dispatched, bufwrite, heq⟩ := p.dispatch_eq
      rw [PollerConnection.perform, heq]
      exact { h with }
  | sent item ec shutdown =>
      apply Ensures.ite
      · intro _
        apply Ensures.bind (ToldOnce.sendFailures ?_ shutdown _)
        · exact fun p' hp' => { hp' with }
        · exact { h with }
      · exact fun _ => { h with }
  | read bs shutdown =>
      apply ToldOnce.handleCalls
      exact { h with }
  | readError shutdown =>
      apply ToldOnce.handleCalls
      exact { h with }
  | pollerDisconnected =>
      have hpos : 0 < p.notified := hpending
      have hclosed : p.socketOpen = false := by
        by_contra hopen
        have hnone := (h.before (Bool.not_eq_false _ ▸ hopen)).2
        omega
      have hnotified := h.after hclosed
      have hin : p.inPollerdb = true := by
        by_contra hout
        rw [if_neg hout] at hnotified
        omega
      rw [if_pos hin] at hnotified
      rw [PollerConnection.perform, PollerConnection.pollerDisconnected]
      dsimp only
      rw [if_pos hin, hnotified]
      exact ⟨fun hopen => Bool.noConfusion (hclosed.symm.trans hopen), fun _ => rfl,
        h.assertFailed⟩

/-- **The assertion of `poller_disconnected_` never fails**, in any run: a second `disconnect`
throws before it signals. -/
theorem assertion_never_fails {tr : List (Transition PollerConnection Event)}
    {p : PollerConnection} (h : Run system tr p) : p.assertFailed = false := by
  have htold : p.ToldOnce := by
    apply h.invariant
    · rintro p rfl
      exact ⟨fun _ => ⟨rfl, rfl⟩, fun hclosed => Bool.noConfusion hclosed, rfl⟩
    · intro p e p' hp hstep
      obtain ⟨⟨-, hpending⟩, rfl⟩ := step_eq_some_iff.mp hstep
      apply outcome_of_ensures (hp.perform hpending)
      · exact fun _ => id
      · exact fun _ hthrown => { hthrown with }
  exact htold.assertFailed

/-! ## Two runs -/

/-- A home agent is assigned, the write of its message fails, and the read is aborted. -/
def abortedRead : List Event :=
  [.assignHomeAgent [97] true, .dispatch,
    .sent ⟨0, .ofMessage .homeAgentAssignment [97], [97]⟩ true true, .readError true]

/-- **A connection can be torn down twice**: the abort of the pending read shuts down the socket
that the failed write has closed. -/
theorem torn_down_twice : ∃ tr p, Run system tr p ∧ tr.map Transition.event = abortedRead ∧
    p.disconnects = 2 ∧ p.shutdownOnClosed = true ∧ ¬ ∀ t ∈ tr, t.post.TornDownOnce := by
  have hexec : (system.exec {} abortedRead).map (fun p => (p.disconnects, p.shutdownOnClosed))
      = some (2, true) := by decide +kernel
  obtain ⟨p, hp, heq⟩ := Option.map_eq_some_iff.mp hexec
  obtain ⟨hdisconnects, hclosed⟩ := Prod.mk.inj heq
  obtain ⟨tr, hrun, hevents⟩ := Run.of_exec rfl hp
  refine ⟨tr, p, hrun, hevents, hdisconnects, hclosed, fun hall => ?_⟩
  cases hrun with
  | start _ => cases hevents
  | extend _ _ =>
      have hgood := hall _ (Run.last_mem _ _)
      rw [hgood.shutdownOnClosed] at hclosed
      cases hclosed

/-- One read fails, and `homeagentdb` is told. -/
theorem torn_down_once : ∃ tr p, Run system tr p ∧ p.disconnects = 1 ∧ p.inPollerdb = false ∧
    ∀ t ∈ tr, t.post.TornDownOnce := by
  have hstart : Run system [] {} := Run.start rfl
  have hfailed := hstart.extend (e := .readError true)
    (step_eq_some_iff.mpr ⟨⟨rfl, by decide⟩, rfl⟩)
  have htold := hfailed.extend (e := .pollerDisconnected)
    (step_eq_some_iff.mpr ⟨⟨rfl, by decide⟩, rfl⟩)
  refine ⟨_, _, htold, rfl, rfl, (torn_down_once_iff htold).mpr ?_⟩
  simp only [List.nil_append, List.cons_append, List.forall_mem_cons]
  exact ⟨rfl, trivial, List.forall_mem_nil _⟩

end PollerConnection
