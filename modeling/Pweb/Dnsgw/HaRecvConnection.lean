/-
# Replies from home agents (`harecvconnection` in `dnsgw/haproxy.cpp`)

A home agent answers a GET on a connection of its own.  The connection reads the
reply in six steps and its handlers decode one length field each; lengths that
only say how much the next read asks for are left out.  The handler of the fifth
read removes the query from the map and completes it, before the device name of
the reply has been read.
-/
import Pweb.Dnsgw.AbsMessage

/-! ## The message -/

/-- What the handlers decode of a message: its type, sequence number and host length,
the bytes in `buf_` after the read that ends with the device name length, and the
device name. -/
structure GetReply where
  msgtype : UInt8
  sequence : Int32
  hostlen : Int32
  host : Bytes
  deviceName : Bytes
  deriving DecidableEq

namespace GetReply

/-- `static_cast< boost::uint16_t >( sequence )`. -/
def castSequence (reply : GetReply) : UInt16 :=
  UInt16.ofNat (reply.sequence.toInt % 65536).toNat

/-- `hostlen_ = hostlen`: the conversion to `std::size_t`. -/
def castHostlen (reply : GetReply) : ℕ := (reply.hostlen.toInt % 2 ^ 64).toNat

/-- A sequence number that fits 16 bits is kept by the cast. -/
theorem castSequence_toNat {reply : GetReply} (h₀ : 0 ≤ reply.sequence.toInt)
    (h : reply.sequence.toInt ≤ 65535) :
    (reply.castSequence.toNat : ℤ) = reply.sequence.toInt := by
  rw [castSequence, UInt16.toNat_ofNat']
  omega

end GetReply

/-! ## The connection -/

/-- The handler that the outstanding read of a connection is bound to. -/
inductive ReadStage where
  | desthostlen
  | srchostlen
  | absheader
  | replyhostlen
  | devicenamelen
  | devicename
  | closed
  deriving DecidableEq, Repr

/-- `harecvconnection`, with the message its peer sends. -/
structure HaRecvConnection where
  message : GetReply
  stage : ReadStage := .desthostlen
  hostlen : ℕ := 0
  sequence : UInt16 := 0
  deriving DecidableEq

namespace HaRecvConnection

/-- `handle_read_to_desthostlen` without an error.  A sequence number above the 16-bit
range is only logged, and `sequence_` stays 0. -/
def handleReadToDesthostlen (conn : HaRecvConnection) : HaRecvConnection :=
  if conn.message.msgtype = AbsMessage.absReply then
    -- the comparison is signed: negative numbers pass it
    if conn.message.sequence.toInt ≤ 65535 then
      { conn with sequence := conn.message.castSequence, stage := .srchostlen }
    else { conn with stage := .srchostlen }
  else { conn with stage := .closed }

/-- `handle_read_to_replyhostlen` without an error. -/
def handleReadToReplyhostlen (conn : HaRecvConnection) : HaRecvConnection :=
  { conn with hostlen := conn.message.castHostlen, stage := .devicenamelen }

/-- The state of the connection after the handler of its outstanding read has run
without an error. -/
def handleRead (conn : HaRecvConnection) : HaRecvConnection :=
  match conn.stage with
  | .desthostlen => conn.handleReadToDesthostlen
  | .srchostlen => { conn with stage := .absheader }
  | .absheader => { conn with stage := .replyhostlen }
  | .replyhostlen => conn.handleReadToReplyhostlen
  | .devicenamelen => { conn with stage := .devicename }
  | .devicename => { conn with stage := .closed }
  | .closed => conn

/-- Every handler gives the connection up on an error. -/
def handleReadError (conn : HaRecvConnection) : HaRecvConnection := { conn with stage := .closed }

/-! ## What holds of a connection -/

/-- The sequence number a connection uses for a reply of its type. -/
def usedSequence (reply : GetReply) : UInt16 :=
  if reply.sequence.toInt ≤ 65535 then reply.castSequence else 0

/-- What the handlers have kept of the message so far. -/
structure Consistent (conn : HaRecvConnection) : Prop where
  fresh : conn.stage = .desthostlen → conn.sequence = 0
  msgtype : conn.stage ≠ .desthostlen → conn.stage ≠ .closed →
    conn.message.msgtype = AbsMessage.absReply
  sequence : conn.stage ≠ .desthostlen → conn.stage ≠ .closed →
    conn.sequence = usedSequence conn.message
  hostlen : conn.stage = .devicenamelen → conn.hostlen = conn.message.castHostlen

/-- No handler changes the message. -/
theorem handleRead_message (conn : HaRecvConnection) : conn.handleRead.message = conn.message := by
  unfold handleRead handleReadToDesthostlen
  split
  · split_ifs <;> rfl
  all_goals rfl

theorem Consistent.start (reply : GetReply) : Consistent { message := reply } where
  fresh _ := rfl
  msgtype h := absurd rfl h
  sequence h := absurd rfl h
  hostlen h := by cases h

theorem Consistent.handleReadError {conn : HaRecvConnection} :
    Consistent conn.handleReadError where
  fresh h := by cases h
  msgtype _ h := absurd rfl h
  sequence _ h := absurd rfl h
  hostlen h := by cases h

theorem Consistent.handleReadToDesthostlen {conn : HaRecvConnection}
    (h : conn.sequence = 0) : Consistent conn.handleReadToDesthostlen := by
  unfold HaRecvConnection.handleReadToDesthostlen
  split_ifs with htype hseq
  · refine ⟨fun h => ?_, fun _ _ => htype, fun _ _ => ?_, fun h => ?_⟩
    · cases h
    · rw [usedSequence, if_pos hseq]
    · cases h
  · refine ⟨fun h => ?_, fun _ _ => htype, fun _ _ => ?_, fun h => ?_⟩
    · cases h
    · rw [usedSequence, if_neg hseq]
      exact h
    · cases h
  · exact Consistent.handleReadError

/-- Between the first handler and the last nothing that was kept changes. -/
theorem Consistent.advance {conn : HaRecvConnection} (h : Consistent conn) {stage : ReadStage}
    (hfrom : conn.stage ≠ .desthostlen ∧ conn.stage ≠ .closed)
    (hto : stage ≠ .desthostlen ∧ stage ≠ .devicenamelen) :
    Consistent { conn with stage := stage } where
  fresh hstage := absurd hstage hto.1
  msgtype _ _ := h.msgtype hfrom.1 hfrom.2
  sequence _ _ := h.sequence hfrom.1 hfrom.2
  hostlen hstage := absurd hstage hto.2

theorem Consistent.handleReadToReplyhostlen {conn : HaRecvConnection} (h : Consistent conn)
    (hfrom : conn.stage ≠ .desthostlen ∧ conn.stage ≠ .closed) :
    Consistent conn.handleReadToReplyhostlen where
  fresh hstage := by cases hstage
  msgtype _ _ := h.msgtype hfrom.1 hfrom.2
  sequence _ _ := h.sequence hfrom.1 hfrom.2
  hostlen _ := rfl

theorem Consistent.handleRead {conn : HaRecvConnection} (h : Consistent conn) :
    Consistent conn.handleRead := by
  unfold HaRecvConnection.handleRead
  split
  next hstage => exact Consistent.handleReadToDesthostlen (h.fresh hstage)
  next hstage => exact h.advance (by rw [hstage]; decide) (by decide)
  next hstage => exact h.advance (by rw [hstage]; decide) (by decide)
  next hstage => exact h.handleReadToReplyhostlen (by rw [hstage]; decide)
  next hstage => exact h.advance (by rw [hstage]; decide) (by decide)
  next => exact Consistent.handleReadError
  next => exact h

end HaRecvConnection

/-! ## The answer -/

/-- The record that `handle_read_to_devicenamelen` adds. -/
def answerRr (name : Bytes) (addr : IpAddress) (ttl : UInt16) : DnsRr :=
  match addr with
  | .v4 bytes => ⟨name, tA, cIn, ttl.toUInt32, 4, bytes.toList⟩
  | .v6 bytes => ⟨name, tAaaa, cIn, ttl.toUInt32, 16, bytes.toList⟩

/-- `query->questions_begin()->name`; only used for queries with a question. -/
def DnsQuery.firstName (query : DnsQuery) : Bytes :=
  match query.questions with
  | [] => []
  | question :: _ => question.name

theorem DnsQuery.SameRequest.firstName {query' query : DnsQuery} (h : query'.SameRequest query) :
    query'.firstName = query.firstName := by
  unfold DnsQuery.firstName
  rw [h.questions]

/-- The C string at the start of `buf_` once `buf_[len]` is zero. -/
def cString (buf : Bytes) (len : ℕ) : Bytes := (buf.take len).takeWhile (· ≠ 0)

/-- The arguments of a call of `complete_query`. -/
structure Completion where
  query : DnsQuery
  rcode : Rcode
  result : MetricResult
  deriving DecidableEq

/-- What `handle_read_to_devicenamelen` completes the query it has removed with;
`fromString` is `boost::asio::ip::address::from_string`. -/
def replyCompletion (fromString : Bytes → Option IpAddress) (ttl : UInt16)
    (conn : HaRecvConnection) (query : DnsQuery) : Completion :=
  if conn.hostlen = 0 then ⟨query, .nameError, .haReturnedError⟩
  else if 256 > conn.hostlen then
    match fromString (cString conn.message.host conn.hostlen) with
    | some addr => ⟨query.addAnswer (answerRr query.firstName addr ttl), .success, .success⟩
    | none => ⟨query, .serverFailure, .unknown⟩
  else ⟨query, .serverFailure, .unknown⟩

/-- **A success carries the address of the reply.** -/
theorem replyCompletion_success {fromString : Bytes → Option IpAddress} {ttl : UInt16}
    {conn : HaRecvConnection} {query : DnsQuery}
    (h : (replyCompletion fromString ttl conn query).rcode = .success) :
    ∃ addr, fromString (cString conn.message.host conn.hostlen) = some addr ∧
      replyCompletion fromString ttl conn query
        = ⟨query.addAnswer (answerRr query.firstName addr ttl), .success, .success⟩ := by
  unfold replyCompletion at h ⊢
  split_ifs at h ⊢ with hzero hlt
  cases haddr : fromString (cString conn.message.host conn.hostlen) with
  | none =>
      rw [haddr] at h
      cases h
  | some addr => exact ⟨addr, rfl, rfl⟩

/-- Answering a query does not change what was asked. -/
theorem replyCompletion_sameRequest (fromString : Bytes → Option IpAddress) (ttl : UInt16)
    (conn : HaRecvConnection) (query : DnsQuery) :
    (replyCompletion fromString ttl conn query).query.SameRequest query := by
  unfold replyCompletion
  split_ifs
  · exact .refl query
  · split
    · exact (DnsQuery.SameRequest.refl query).addAnswer _
    · exact .refl query
  · exact .refl query
