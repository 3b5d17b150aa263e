/-
# TCP connections of DNS clients (the reading half of `dns_connection`, `dnsgw/dnsspeaker.cpp`)

A connection reads the two length bytes of a message, then the message into the
header and the receive buffer, parses it and hands the query to the processor.
It starts over after a message that parses and stops in every other case.
-/
import Pweb.Dnsgw.DnsQueryParser
import Pweb.Foundation.StreamReader
import Pweb.Shared.Buffers

open ByteOrder

/-- What a connection is doing: reading a length, reading a message of `size` bytes, or
nothing any more because of a message, or because a read has failed. -/
inductive RecvStage where
  | msgLen
  | query (size : ℕ)
  | stopped
  | failed
  deriving DecidableEq, Repr

/-- The reading half of `dns_connection`; `calls` counts the calls of the processor. -/
structure RecvState where
  stage : RecvStage := .msgLen
  calls : ℕ := 0
  deriving DecidableEq, Repr

/-- The calls a connection makes: `parse_dns_query` on a body, and the processor. -/
inductive RecvCall where
  | parse (header : DnsQueryHeader) (body : Bytes)
  | process (query : DnsQuery)
  deriving DecidableEq, Repr

/-- `recv_header_` after the first bytes of `msg` have been read into it. -/
def receivedHeader (msg : Bytes) : DnsQueryHeader := ⟨Vector.ofFn fun i => msg.getD i 0⟩

/-- The test of the header in `handle_query_read`. -/
def DnsQueryHeader.IsQuery (header : DnsQueryHeader) : Prop :=
  header.qr = false ∧ header.opcode = .query ∧ header.z = 0

instance (header : DnsQueryHeader) : Decidable header.IsQuery :=
  inferInstanceAs (Decidable (_ ∧ _ ∧ _))

namespace DnsConnection

/-- `recv_buf_.size()`. -/
def recvBufSize : ℕ := 1024

/-- `handle_msg_len_read` without an error. -/
def handleMsgLenRead (s : RecvState) (bs : Bytes) : RecvState :=
  let recvMsgLen := (UInt16.ofNat (ofBE bs)).toNat
  if recvMsgLen > DnsQueryHeader.length + recvBufSize then { s with stage := .stopped }
  else
    -- the subtraction is one of unsigned 64-bit integers
    let size := bufferSize recvBufSize (sizeT (recvMsgLen - DnsQueryHeader.length))
    { s with stage := .query (DnsQueryHeader.length + size) }

/-- `handle_query_read` without an error, on connection number `conn`.  `processor k`
says which exception, if any, leaves the call number `k` of the processor. -/
def handleQueryRead (conn : ℕ) (processor : ℕ → DnsQuery → Option ProtocolHelper.Exn)
    (s : RecvState) (bs : Bytes) : RecvState × List RecvCall :=
  let header := receivedHeader bs
  if bs.length ≥ DnsQueryHeader.length ∧ header.IsQuery then
    let body := bs.drop DnsQueryHeader.length
    match parseDnsQuery { sender := .tcp conn } header body with
    | .error _ => ({ s with stage := .stopped }, [.parse header body])
    | .ok query =>
      match processor s.calls query with
      | some _ => (⟨.stopped, s.calls + 1⟩, [.parse header body, .process query])
      | none => (⟨.msgLen, s.calls + 1⟩, [.parse header body, .process query])
  else ({ s with stage := .stopped }, [])

/-- The reading half of a connection, from `start()`. -/
def reader (conn : ℕ) (processor : ℕ → DnsQuery → Option ProtocolHelper.Exn) :
    StreamReader RecvState RecvCall where
  start := {}
  want s :=
    match s.stage with
    | .msgLen => some 2
    | .query size => some size
    | .stopped => none
    | .failed => none
  handle s bs :=
    match s.stage with
    | .msgLen => (handleMsgLenRead s bs, [])
    | .query _ => handleQueryRead conn processor s bs
    | .stopped => (s, [])
    | .failed => (s, [])
  handleError s := ({ s with stage := .failed }, [])

/-! ## Lengths -/

/-- A length in the range of the buffers is read as such. -/
theorem handleMsgLenRead_of_le {s : RecvState} {bs : Bytes} (hmin : 12 ≤ ofBE bs)
    (hmax : ofBE bs ≤ 1036) :
    handleMsgLenRead s bs = { s with stage := .query (ofBE bs) } := by
  have hlt : (UInt16.ofNat (ofBE bs)).toNat = ofBE bs := by
    rw [UInt16.toNat_ofNat']
    omega
  have hsize : DnsQueryHeader.length +
      bufferSize recvBufSize (sizeT ((ofBE bs : ℤ) - DnsQueryHeader.length)) = ofBE bs := by
    unfold bufferSize sizeT DnsQueryHeader.length recvBufSize
    omega
  rw [handleMsgLenRead, hlt, if_neg (by unfold DnsQueryHeader.length recvBufSize; omega)]
  simp only [hsize]

/-- A length above the range stops the connection. -/
theorem handleMsgLenRead_of_gt {s : RecvState} {bs : Bytes} (hlen : bs.length = 2)
    (hmax : 1036 < ofBE bs) : handleMsgLenRead s bs = { s with stage := .stopped } := by
  have hbound := ofBE_lt bs
  rw [hlen] at hbound
  have hlt : (UInt16.ofNat (ofBE bs)).toNat = ofBE bs := by
    rw [UInt16.toNat_ofNat']
    omega
  rw [handleMsgLenRead, hlt, if_pos (by unfold DnsQueryHeader.length recvBufSize; omega)]

/-- **A length below the header is read as 1036**: the subtraction wraps around and the
size is cut down to the receive buffer. -/
theorem handleMsgLenRead_of_lt {s : RecvState} {bs : Bytes} (hmin : ofBE bs < 12) :
    handleMsgLenRead s bs = { s with stage := .query 1036 } := by
  have hlt : (UInt16.ofNat (ofBE bs)).toNat = ofBE bs := by
    rw [UInt16.toNat_ofNat']
    omega
  have hsize : DnsQueryHeader.length +
      bufferSize recvBufSize (sizeT ((ofBE bs : ℤ) - DnsQueryHeader.length)) = 1036 := by
    unfold bufferSize sizeT DnsQueryHeader.length recvBufSize
    omega
  rw [handleMsgLenRead, hlt, if_neg (by unfold DnsQueryHeader.length recvBufSize; omega)]
  simp only [hsize]

/-! ## Messages -/

section

variable {conn : ℕ} {processor : ℕ → DnsQuery → Option ProtocolHelper.Exn} {s : RecvState}
  {bs : Bytes}

theorem handleQueryRead_of_not_isQuery (h : ¬ (receivedHeader bs).IsQuery) :
    handleQueryRead conn processor s bs = ({ s with stage := .stopped }, []) :=
  if_neg fun hc => h hc.2

theorem handleQueryRead_of_error (hlen : 12 ≤ bs.length) (h : (receivedHeader bs).IsQuery)
    {e : Fault ProtocolHelper.Exn}
    (hparse : parseDnsQuery { sender := .tcp conn } (receivedHeader bs) (bs.drop 12) = .error e) :
    handleQueryRead conn processor s bs
      = ({ s with stage := .stopped }, [.parse (receivedHeader bs) (bs.drop 12)]) := by
  rw [handleQueryRead, if_pos ⟨hlen, h⟩]
  simp only [DnsQueryHeader.length, hparse]

theorem handleQueryRead_of_ok (hlen : 12 ≤ bs.length) (h : (receivedHeader bs).IsQuery)
    {query : DnsQuery}
    (hparse : parseDnsQuery { sender := .tcp conn } (receivedHeader bs) (bs.drop 12) = .ok query) :
    handleQueryRead conn processor s bs
      = (⟨if processor s.calls query = none then .msgLen else .stopped, s.calls + 1⟩,
        [.parse (receivedHeader bs) (bs.drop 12), .process query]) := by
  rw [handleQueryRead, if_pos ⟨hlen, h⟩]
  simp only [DnsQueryHeader.length, hparse]
  cases processor s.calls query with
  | none => rfl
  | some e => rfl

end

end DnsConnection
