/-
# Reading a home agent's reply (`harecvconnection` in `dnsgw/haproxy.cpp`, byte by byte)

The connection reads a reply in six chunks into one buffer of 256 bytes.  Four of the
handlers decode the last four bytes of their chunk as a signed length, which decides
the size of the next chunk: the length and a constant, converted to `std::size_t` and
cut down to the buffer.  The actions are the accesses of the handlers to the buffer, and
the completion of the query that the reply belongs to.
-/
import Pweb.Dnsgw.Gateway
import Pweb.Foundation.StreamReader
import Pweb.Shared.Buffers

open ByteOrder

/-- An access to `buf_`: a field of `size` bytes at `buf_ + offset`, read after
`received` bytes have been read into the buffer, or the element `buf_[i]`. -/
inductive BufAccess where
  | field (offset : ℤ) (size received : ℕ)
  | index (i : ℕ)
  deriving DecidableEq, Repr

/-- A field is made of bytes that were received, and an index lies in the buffer. -/
def BufAccess.InBounds : BufAccess → Prop
  | .field offset size received => 0 ≤ offset ∧ offset + size ≤ received ∧ received ≤ 256
  | .index i => i < 256

/-- What a handler does: it accesses the buffer, completes the query of a reply whose
address is in the first `hostlen` bytes of `buf`, or completes it because of an error. -/
inductive HaAction where
  | access (a : BufAccess)
  | reply (sequence : UInt16) (hostlen : ℕ) (buf : Bytes)
  | replyError (sequence : UInt16)
  deriving DecidableEq, Repr

/-- The members of `harecvconnection`; `size` is the number of bytes that the outstanding
read asks for. -/
structure HaReplyReader where
  stage : ReadStage := .desthostlen
  size : ℕ := 1 + 4 + 4
  hostlen : ℕ := 0
  sequence : UInt16 := 0
  deriving DecidableEq, Repr

namespace HaReplyReader

/-- `buf_.size()`. -/
def bufLen : ℕ := 256

/-- `abs_reply_len_before_hostname`. -/
def absReplyLenBeforeHostname : ℕ := 4 + 4 + 4 + 8 + 4 + 4 + 4 + 4 + 4

/-- The `absint_t` that four bytes denote. -/
def absInt (bs : Bytes) : Int32 := (UInt32.ofNat (ofLE bs)).toInt32

/-- `read_abs_int` at `buf_ + bytes_transferred - sizeof(absint_t)`.  With fewer than four
bytes received the field starts before the buffer, and there is no value to go on with. -/
def trailingInt (bs : Bytes) : Option Int32 :=
  if 4 ≤ bs.length then some (absInt (bs.drop (bs.length - 4))) else none

/-- The access that `trailingInt` makes. -/
def trailingAccess (bs : Bytes) : HaAction := .access (.field ((bs.length : ℤ) - 4) 4 bs.length)

/-- Ask for the next chunk. -/
def next (s : HaReplyReader) (stage : ReadStage) (size : ℤ) : HaReplyReader :=
  { s with stage := stage, size := bufferSize bufLen (sizeT size) }

/-- `sequence_` after the sequence number has been read: one that is above the 16-bit range
is only logged.  The comparison is signed, so negative numbers pass it. -/
def storeSequence (s : HaReplyReader) (sequence : Int32) : HaReplyReader :=
  if sequence.toInt ≤ 65535 then
    { s with sequence := UInt16.ofNat (sequence.toInt % 65536).toNat }
  else s

/-- `handle_read_to_desthostlen` without an error. -/
def handleReadToDesthostlen (s : HaReplyReader) (bs : Bytes) : HaReplyReader × List HaAction :=
  if bs.headD 0 = AbsMessage.absReply then
    let accesses := [.access (.field 0 1 bs.length), .access (.field 1 4 bs.length),
      trailingAccess bs]
    let s := s.storeSequence (absInt ((bs.drop 1).take 4))
    match trailingInt bs with
    | some desthostlen => (s.next .srchostlen (desthostlen.toInt + 4 + 4), accesses)
    | none => ({ s with stage := .closed }, accesses)
  else ({ s with stage := .closed }, [.access (.field 0 1 bs.length)])

/-- `handle_read_to_srchostlen` without an error. -/
def handleReadToSrchostlen (s : HaReplyReader) (bs : Bytes) : HaReplyReader × List HaAction :=
  match trailingInt bs with
  | some srchostlen =>
    (s.next .absheader (srchostlen.toInt + 4 + AbsMessage.unusedAbsHeaderLen), [trailingAccess bs])
  | none => ({ s with stage := .closed }, [trailingAccess bs])

/-- `handle_absheader_read` without an error: it looks at nothing. -/
def handleAbsheaderRead (s : HaReplyReader) : HaReplyReader × List HaAction :=
  (s.next .replyhostlen absReplyLenBeforeHostname, [])

/-- `handle_read_to_replyhostlen` without an error. -/
def handleReadToReplyhostlen (s : HaReplyReader) (bs : Bytes) : HaReplyReader × List HaAction :=
  match trailingInt bs with
  | some hostlen =>
    ({ s with hostlen := sizeT hostlen.toInt }.next .devicenamelen (hostlen.toInt + 4 + 4),
      [trailingAccess bs])
  | none => ({ s with stage := .closed }, [trailingAccess bs])

/-- `handle_read_to_devicenamelen` without an error.  If a query is outstanding under the
number, the end of a host name that fits is marked in the buffer. -/
def handleReadToDevicenamelen (outstanding : UInt16 → Bool) (s : HaReplyReader) (bs : Bytes) :
    HaReplyReader × List HaAction :=
  match trailingInt bs with
  | some devicenamelen =>
    let mark := if outstanding s.sequence ∧ s.hostlen ≠ 0 ∧ bufLen > s.hostlen then
        [.access (.index s.hostlen)]
      else []
    (s.next .devicename devicenamelen.toInt,
      [trailingAccess bs] ++ mark ++ [.reply s.sequence s.hostlen bs])
  | none => ({ s with stage := .closed }, [trailingAccess bs])

/-- The reader of one connection, from `start()`.  `outstanding` says for which numbers the
query map holds a query when the reply is looked up. -/
def reader (outstanding : UInt16 → Bool) : StreamReader HaReplyReader HaAction where
  start := {}
  want s := if s.stage = .closed then none else some s.size
  handle s bs :=
    match s.stage with
    | .desthostlen => s.handleReadToDesthostlen bs
    | .srchostlen => s.handleReadToSrchostlen bs
    | .absheader => s.handleAbsheaderRead
    | .replyhostlen => s.handleReadToReplyhostlen bs
    | .devicenamelen => s.handleReadToDevicenamelen outstanding bs
    | .devicename => ({ s with stage := .closed }, [])
    | .closed => (s, [])
  handleError s :=
    ({ s with stage := .closed },
      if s.stage = .devicenamelen then [.replyError s.sequence] else [])

/-! ## What a reply does to the gateway -/

/-- How `handle_read_to_devicenamelen` completes a query. -/
def completion (fromString : Bytes → Option IpAddress) (ttl : UInt16) (hostlen : ℕ) (buf : Bytes)
    (query : DnsQuery) : Completion :=
  if hostlen = 0 then ⟨query, .nameError, .haReturnedError⟩
  else if bufLen > hostlen then
    match fromString (cString buf hostlen) with
    | some addr => ⟨query.addAnswer (answerRr query.firstName addr ttl), .success, .success⟩
    | none => ⟨query, .serverFailure, .unknown⟩
  else ⟨query, .serverFailure, .unknown⟩

/-- The effect of an action on the gateway. -/
def perform (cfg : Config) (g : Gateway) : HaAction → Gateway
  | .access _ => g
  | .reply sequence hostlen buf =>
    g.removeAndComplete sequence (completion cfg.fromString cfg.ttl hostlen buf)
  | .replyError sequence =>
    g.removeAndComplete sequence fun query => ⟨query, .serverFailure, .unknown⟩

/-- The actions that reach the gateway. -/
def answers (actions : List HaAction) : List HaAction :=
  actions.filter fun action =>
    match action with
    | .access _ => false
    | _ => true

@[simp] theorem answers_append (actions actions' : List HaAction) :
    answers (actions ++ actions') = answers actions ++ answers actions' :=
  List.filter_append _ _

theorem foldl_perform_answers (cfg : Config) (actions : List HaAction) : ∀ g : Gateway,
    (answers actions).foldl (perform cfg) g = actions.foldl (perform cfg) g := by
  induction actions with
  | nil => intro g; rfl
  | cons action actions ih =>
      intro g
      rw [List.foldl_cons, ← ih]
      cases action <;> rfl

/-! ## Fields and sizes -/

theorem trailingInt_of_le {bs : Bytes} (h : 4 ≤ bs.length) :
    trailingInt bs = some (absInt (bs.drop (bs.length - 4))) := if_pos h

/-- The last four bytes of what has been read, with the chunk at its end. -/
theorem absInt_append {consumed bs : Bytes} (h : 4 ≤ bs.length) :
    absInt ((consumed ++ bs).drop ((consumed ++ bs).length - 4))
      = absInt (bs.drop (bs.length - 4)) := by
  rw [List.length_append, List.drop_append,
    List.drop_eq_nil_of_le (show consumed.length ≤ consumed.length + bs.length - 4 by omega),
    List.nil_append,
    show consumed.length + bs.length - 4 - consumed.length = bs.length - 4 by omega]

theorem handleReadToDesthostlen_of_reply {s : HaReplyReader} {bs : Bytes} {len : Int32}
    (hlen : trailingInt bs = some len) (h : bs.headD 0 = AbsMessage.absReply) :
    s.handleReadToDesthostlen bs =
      ((s.storeSequence (absInt ((bs.drop 1).take 4))).next .srchostlen (len.toInt + 4 + 4),
      [.access (.field 0 1 bs.length), .access (.field 1 4 bs.length), trailingAccess bs]) := by
  rw [handleReadToDesthostlen, if_pos h, hlen]

theorem handleReadToDesthostlen_of_ne {s : HaReplyReader} {bs : Bytes}
    (h : bs.headD 0 ≠ AbsMessage.absReply) : s.handleReadToDesthostlen bs =
      ({ s with stage := .closed }, [.access (.field 0 1 bs.length)]) := if_neg h

/-- **A chunk is too short for its last field** exactly for four negative lengths. -/
theorem bufferSize_lt_four_iff (len : Int32) :
    bufferSize bufLen (sizeT (len.toInt + 4 + 4)) < 4 ↔ -8 ≤ len.toInt ∧ len.toInt ≤ -5 := by
  have hmin := Int32.le_toInt len
  have hmax := Int32.toInt_lt len
  unfold bufferSize sizeT bufLen
  omega

/-- A chunk that fits the buffer is asked for in full. -/
theorem next_of_le (s : HaReplyReader) (stage : ReadStage) {size : ℤ} {n : ℕ} (hsize : size = n)
    (hle : n ≤ 256) : s.next stage size = { s with stage := stage, size := n } := by
  have hn : bufferSize bufLen (sizeT size) = n := by
    unfold bufferSize sizeT bufLen
    omega
  rw [next, hn]

/-! ## The connection as the gateway model has it -/

/-- The gateway model's view of a reader: the members that do not depend on how the message
is cut into chunks. -/
structure Abstracts (r : HaReplyReader) (conn : HaRecvConnection) : Prop where
  stage : conn.stage = r.stage
  hostlen : conn.hostlen = r.hostlen
  sequence : conn.sequence = r.sequence

/-- The bytes of a chunk hold the fields of the message that its handler decodes. -/
def HoldsFields (message : GetReply) (bs : Bytes) : ReadStage → Prop
  | .desthostlen => bs.headD 0 = message.msgtype ∧
      absInt ((bs.drop 1).take 4) = message.sequence ∧ (trailingInt bs).isSome
  | .srchostlen => (trailingInt bs).isSome
  | .replyhostlen => trailingInt bs = some message.hostlen
  | .devicenamelen => bs = message.host ∧ (trailingInt bs).isSome
  | _ => True

/-- **The gateway model follows the bytes**: a handler that is given the fields of a message
does what the connection with that message does. -/
theorem Abstracts.handle {outstanding : UInt16 → Bool} {r : HaReplyReader}
    {conn : HaRecvConnection} {bs : Bytes} (h : Abstracts r conn)
    (hbs : HoldsFields conn.message bs r.stage) :
    Abstracts ((reader outstanding).handle r bs).1 conn.handleRead := by
  simp only [reader, HaRecvConnection.handleRead, h.stage]
  cases hstage : r.stage with
  | desthostlen =>
      rw [hstage] at hbs
      obtain ⟨htype, hseq, hint⟩ := hbs
      obtain ⟨len, hlen⟩ := Option.isSome_iff_exists.mp hint
      unfold HaRecvConnection.handleReadToDesthostlen
      by_cases hreply : conn.message.msgtype = AbsMessage.absReply
      · simp only [handleReadToDesthostlen_of_reply hlen (htype.trans hreply), storeSequence, hseq,
          if_pos hreply]
        split_ifs
        · exact ⟨rfl, h.hostlen, rfl⟩
        · exact ⟨rfl, h.hostlen, h.sequence⟩
      · simp only [handleReadToDesthostlen_of_ne fun hne => hreply (htype.symm.trans hne),
          if_neg hreply]
        exact ⟨rfl, h.hostlen, h.sequence⟩
  | srchostlen =>
      rw [hstage] at hbs
      obtain ⟨len, hlen⟩ := Option.isSome_iff_exists.mp hbs
      simp only [handleReadToSrchostlen, hlen]
      exact ⟨rfl, h.hostlen, h.sequence⟩
  | absheader => exact ⟨rfl, h.hostlen, h.sequence⟩
  | replyhostlen =>
      rw [hstage] at hbs
      have hlen : trailingInt bs = some conn.message.hostlen := hbs
      simp only [handleReadToReplyhostlen, hlen]
      exact ⟨rfl, rfl, h.sequence⟩
  | devicenamelen =>
      rw [hstage] at hbs
      obtain ⟨len, hlen⟩ := Option.isSome_iff_exists.mp hbs.2
      simp only [handleReadToDevicenamelen, hlen]
      exact ⟨rfl, h.hostlen, h.sequence⟩
  | devicename => exact ⟨rfl, h.hostlen, h.sequence⟩
  | closed => exact ⟨h.stage, h.hostlen, h.sequence⟩

/-- The reply of a reader is the one the gateway model performs for its connection. -/
theorem Abstracts.perform_reply {r : HaReplyReader} {conn : HaRecvConnection} {bs : Bytes}
    (h : Abstracts r conn) (hbs : bs = conn.message.host) (cfg : Config) (g : Gateway) :
    perform cfg g (.reply r.sequence r.hostlen bs)
      = g.removeAndComplete conn.sequence (replyCompletion cfg.fromString cfg.ttl conn) := by
  rw [perform, ← h.sequence, ← h.hostlen, hbs]
  rfl

end HaReplyReader
