/-
# Sending replies (`send_reply_` and `handle_send_reply`)

`udp_dnsspeaker` and `dns_connection` send one reply at a time.  A reply that
arrives while a send is outstanding waits in `reply_buf_`, or is dropped when the
buffer is full; the completion of a send takes up the next one.  The two differ
in the capacity of the buffer, the size of the send buffer and the framing.

A composition that fails throws out of `send_reply_` after the flag has been set.
The model keeps the state the exception leaves behind.
-/
import Pweb.Dnsgw.Answerable
import Pweb.Foundation.Runs
import Pweb.Foundation.CircularBuffer

open ProtocolHelper ByteOrder

/-! ## The two speakers -/

/-- What is handed to the socket; the destination of a datagram is explicit. -/
structure Packet where
  destination : Option Endpoint
  bytes : Bytes
  deriving DecidableEq

/-- What the two senders differ in. -/
structure Speaker where
  capacity : ℕ
  bufSize : ℕ
  packet : DnsQuery → Bytes → Packet

/-- `udp_dnsspeaker`: header and body. -/
def udpDnsspeaker : Speaker where
  capacity := 50
  bufSize := 500
  packet query body :=
    ⟨some query.remoteUdpEndpoint, (composeDnsHeader query).buf.toList ++ body⟩

/-- `dns_connection`: the length of the message in 16 bits, header and body. -/
def dnsConnection : Speaker where
  capacity := 5
  bufSize := 1024
  packet query body :=
    ⟨none, toBE 2 (UInt16.ofNat (body.length + DnsQueryHeader.length)).toNat ++
      ((composeDnsHeader query).buf.toList ++ body)⟩

/-! ## The sender -/

/-- The members of a speaker that concern sending, with the query objects behind the
query pointers, the sends that have not completed and the queries whose replies have
been handed to the socket. -/
structure ReplySender (capacity : ℕ) where
  queries : ℕ → DnsQuery
  replyBuf : CircularBuffer ℕ capacity := .empty
  sendInProgress : Bool := false
  outstanding : List Packet := []
  handed : List ℕ := []

/-- How a call of `send_reply_` ends. -/
inductive SendResult where
  | sent
  | queued
  | dropped
  | threw (e : Fault Exn)

variable {sp : Speaker}

/-- `send_reply_`. -/
def sendReply (sp : Speaker) (s : ReplySender sp.capacity) (q : ℕ) :
    ReplySender sp.capacity × SendResult :=
  if s.sendInProgress then
    if s.replyBuf.full then (s, .dropped)
    else ({ s with replyBuf := s.replyBuf.pushBack q }, .queued)
  else
    match composeDnsResponse (s.queries q) sp.bufSize with
    | .error e => ({ s with sendInProgress := true }, .threw e)
    | .ok body => ({ s with
        sendInProgress := true
        outstanding := s.outstanding ++ [sp.packet (s.queries q) body]
        handed := s.handed ++ [q] }, .sent)

/-- The flag is reset and the oldest waiting reply taken off the buffer. -/
def ReplySender.popped {capacity : ℕ} (s : ReplySender capacity) : ReplySender capacity :=
  { s with sendInProgress := false, replyBuf := s.replyBuf.popFront }

/-- `handle_send_reply`; the error code is only logged. -/
def handleSendReply (sp : Speaker) (s : ReplySender sp.capacity) : ReplySender sp.capacity :=
  match s.replyBuf.front? with
  | none => { s with sendInProgress := false }
  | some q => (sendReply sp s.popped q).1

/-- What can happen to a sender. -/
inductive SenderEvent where
  | write (q : ℕ) (query : DnsQuery)
  | sendReply (q : ℕ)
  | handleSendReply (ec : Bool)

/-- A query object is written to, a reply is passed on, or the oldest outstanding send
completes, with or without an error. -/
def Speaker.system (sp : Speaker) : TransitionSystem (ReplySender sp.capacity) SenderEvent where
  init s := s.replyBuf.items = [] ∧ s.sendInProgress = false ∧ s.outstanding = [] ∧ s.handed = []
  step s
    | .write q query => some { s with queries := Function.update s.queries q query }
    | .sendReply q => some (sendReply sp s q).1
    | .handleSendReply _ =>
      match s.outstanding with
      | [] => none
      | _ :: rest => some (handleSendReply sp { s with outstanding := rest })

/-- The query whose reply a step composes, if any. -/
def composedQuery {capacity : ℕ} (s : ReplySender capacity) : SenderEvent → Option ℕ
  | .write _ _ => none
  | .sendReply q => if s.sendInProgress then none else some q
  | .handleSendReply _ => s.replyBuf.front?

/-- The reply that a step composes, if any, can be written and fits into the buffer. -/
def ComposableStep (sp : Speaker) (t : Transition (ReplySender sp.capacity) SenderEvent) : Prop :=
  ∀ q, composedQuery t.pre t.event = some q → (t.pre.queries q).FitsInto sp.bufSize

/-- The flag says exactly whether one send is outstanding. -/
def FlagExact {capacity : ℕ} (s : ReplySender capacity) : Prop :=
  s.sendInProgress = true ↔ s.outstanding.length = 1

/-! ## One call -/

section Calls

variable (s : ReplySender sp.capacity) (q : ℕ)

/-- While a send is in progress a reply waits. -/
theorem sendReply_queued (hflag : s.sendInProgress = true) (hfull : s.replyBuf.full = false) :
    sendReply sp s q = ({ s with replyBuf := s.replyBuf.pushBack q }, .queued) := by
  unfold sendReply
  rw [if_pos hflag, hfull]
  rfl

/-- While a send is in progress and the buffer is full a reply is dropped. -/
theorem sendReply_dropped (hflag : s.sendInProgress = true) (hfull : s.replyBuf.full = true) :
    sendReply sp s q = (s, .dropped) := by
  unfold sendReply
  rw [if_pos hflag, if_pos hfull]

/-- An idle sender sends a reply that fits. -/
theorem sendReply_sent (hflag : s.sendInProgress = false)
    (hfits : (s.queries q).FitsInto sp.bufSize) :
    sendReply sp s q = ({ s with
      sendInProgress := true
      outstanding := s.outstanding ++ [sp.packet (s.queries q) (s.queries q).encode]
      handed := s.handed ++ [q] }, .sent) := by
  have hcompose := (composeDnsResponse_eq_ok_iff (s.queries q) sp.bufSize _).mpr
    ⟨hfits.writable, hfits.length_le, rfl⟩
  unfold sendReply
  rw [if_neg (by rw [hflag]; decide), hcompose]

/-- An idle sender that cannot compose a reply throws, with the flag set. -/
theorem sendReply_threw (hflag : s.sendInProgress = false)
    (hfits : ¬ (s.queries q).FitsInto sp.bufSize) :
    ∃ e, sendReply sp s q = ({ s with sendInProgress := true }, .threw e) := by
  unfold sendReply
  rw [if_neg (by rw [hflag]; decide)]
  cases hcompose : composeDnsResponse (s.queries q) sp.bufSize with
  | error e => exact ⟨e, rfl⟩
  | ok body =>
      exact absurd ((composeDnsResponse_succeeds_iff _ _).mp ⟨body, hcompose⟩) hfits

/-- A completion with nothing to take up. -/
theorem handleSendReply_idle (h : s.replyBuf.front? = none) :
    handleSendReply sp s = { s with sendInProgress := false } := by
  unfold handleSendReply
  rw [h]

/-- A completion that takes up the oldest waiting reply. -/
theorem handleSendReply_next (h : s.replyBuf.front? = some q) :
    handleSendReply sp s = (sendReply sp s.popped q).1 := by
  unfold handleSendReply
  rw [h]

/-- A completion that sends the oldest waiting reply. -/
theorem handleSendReply_sent (h : s.replyBuf.front? = some q)
    (hfits : (s.queries q).FitsInto sp.bufSize) :
    handleSendReply sp s = { s with
      replyBuf := s.replyBuf.popFront
      sendInProgress := true
      outstanding := s.outstanding ++ [sp.packet (s.queries q) (s.queries q).encode]
      handed := s.handed ++ [q] } := by
  rw [handleSendReply_next s q h, sendReply_sent s.popped q rfl hfits]
  rfl

end Calls

/-! ## The invariant -/

/-- Either one send is outstanding and the flag says so, or the sender is idle with
nothing waiting. -/
def SenderSound {capacity : ℕ} (s : ReplySender capacity) : Prop :=
  (s.sendInProgress = true ∧ s.outstanding.length = 1) ∨
    (s.sendInProgress = false ∧ s.outstanding = [] ∧ s.replyBuf.items = [])

theorem SenderSound.flagExact {capacity : ℕ} {s : ReplySender capacity} (h : SenderSound s) :
    FlagExact s := by
  rcases h with ⟨hflag, hout⟩ | ⟨hflag, hout, -⟩
  · exact iff_of_true hflag hout
  · refine iff_of_false ?_ ?_
    · rw [hflag]
      decide
    · rw [hout]
      decide

/-- **The step that matters**: from an idle state the call leaves the flag right exactly
when the reply fits. -/
theorem flagExact_sendReply_iff {s : ReplySender sp.capacity} {q : ℕ}
    (hflag : s.sendInProgress = false) (hout : s.outstanding = []) :
    FlagExact (sendReply sp s q).1 ↔ (s.queries q).FitsInto sp.bufSize := by
  by_cases hfits : (s.queries q).FitsInto sp.bufSize
  · rw [sendReply_sent s q hflag hfits]
    refine iff_of_true (iff_of_true rfl ?_) hfits
    rw [hout]
    rfl
  · obtain ⟨e, he⟩ := sendReply_threw s q hflag hfits
    rw [he]
    refine iff_of_false (fun h => ?_) hfits
    have hone : s.outstanding.length = 1 := h.mp rfl
    rw [hout] at hone
    cases hone

/-- A call that does not throw keeps the sender sound. -/
theorem SenderSound.of_sendReply {s : ReplySender sp.capacity} (h : SenderSound s) {q : ℕ}
    (hfits : s.sendInProgress = false → (s.queries q).FitsInto sp.bufSize) :
    SenderSound (sendReply sp s q).1 := by
  rcases h with ⟨hflag, hout⟩ | ⟨hflag, hout, hbuf⟩
  · cases hfull : s.replyBuf.full with
    | false =>
        rw [sendReply_queued s q hflag hfull]
        exact .inl ⟨hflag, hout⟩
    | true =>
        rw [sendReply_dropped s q hflag hfull]
        exact .inl ⟨hflag, hout⟩
  · rw [sendReply_sent s q hflag (hfits hflag)]
    refine .inl ⟨rfl, ?_⟩
    rw [hout]
    rfl

/-- A completion whose next reply fits keeps the sender sound. -/
theorem SenderSound.of_handleSendReply {s : ReplySender sp.capacity} (hout : s.outstanding = [])
    (hfits : ∀ q, s.replyBuf.front? = some q → (s.queries q).FitsInto sp.bufSize) :
    SenderSound (handleSendReply sp s) := by
  cases hfront : s.replyBuf.front? with
  | none =>
      rw [handleSendReply_idle s hfront]
      exact .inr ⟨rfl, hout, CircularBuffer.front?_eq_none.mp hfront⟩
  | some q =>
      rw [handleSendReply_sent s q hfront (hfits q hfront)]
      refine .inl ⟨rfl, ?_⟩
      rw [hout]
      rfl

/-- The outstanding sends of a sound sender after one of them has completed. -/
theorem SenderSound.rest_eq_nil {capacity : ℕ} {s : ReplySender capacity} (h : SenderSound s)
    {packet : Packet} {rest : List Packet} (hout : s.outstanding = packet :: rest) : rest = [] := by
  rcases h with ⟨-, hone⟩ | ⟨-, hnone, -⟩
  · rw [hout, List.length_cons] at hone
    exact List.length_eq_zero_iff.mp (by omega)
  · rw [hout] at hnone
    cases hnone

/-- What a step of the system is. -/
theorem sender_step_cases {s s' : ReplySender sp.capacity} {e : SenderEvent}
    (hs : sp.system.step s e = some s') :
    (∃ q query, e = .write q query ∧
      s' = { s with queries := Function.update s.queries q query }) ∨
    (∃ q, e = .sendReply q ∧ s' = (sendReply sp s q).1) ∨
    (∃ ec packet rest, e = .handleSendReply ec ∧ s.outstanding = packet :: rest ∧
      s' = handleSendReply sp { s with outstanding := rest }) := by
  cases e with
  | write q query =>
      cases hs
      exact .inl ⟨q, query, rfl, rfl⟩
  | sendReply q =>
      cases hs
      exact .inr (.inl ⟨q, rfl, rfl⟩)
  | handleSendReply ec =>
      cases hout : s.outstanding with
      | nil =>
          simp [Speaker.system, hout] at hs
      | cons packet rest =>
          simp only [Speaker.system, hout, Option.some.injEq] at hs
          exact .inr (.inr ⟨ec, packet, rest, rfl, rfl, hs.symm⟩)

/-- A composable step keeps the sender sound. -/
theorem SenderSound.step {s s' : ReplySender sp.capacity} {e : SenderEvent} (h : SenderSound s)
    (hC : ComposableStep sp ⟨s, e, s'⟩) (hs : sp.system.step s e = some s') : SenderSound s' := by
  rcases sender_step_cases hs with ⟨q, query, rfl, rfl⟩ | ⟨q, rfl, rfl⟩ |
    ⟨ec, packet, rest, rfl, hout, rfl⟩
  · exact h
  · refine h.of_sendReply fun hflag => hC q ?_
    rw [composedQuery, if_neg (by rw [hflag]; decide)]
  · exact SenderSound.of_handleSendReply (h.rest_eq_nil hout) hC

theorem SenderSound.of_init {s : ReplySender sp.capacity} (h : sp.system.init s) :
    SenderSound s :=
  .inr ⟨h.2.1, h.2.2.1, h.1⟩

/-- Runs whose compositions succeed stay sound. -/
theorem SenderSound.of_run {tr : List (Transition (ReplySender sp.capacity) SenderEvent)}
    {s : ReplySender sp.capacity} (h : Run sp.system tr s) (hC : ∀ t ∈ tr, ComposableStep sp t) :
    SenderSound s :=
  h.invariant_when (fun _ h₀ => .of_init h₀) (fun _ _ _ _ _ hI hC hs => hI.step hC hs) hC
