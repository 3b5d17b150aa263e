/-
# Messages to home agents (`remove_suffix` and `write_abs_*` in `dnsgw/haproxy.cpp`)

The GET message that asks a home agent for the address of a device: the common
header and the device name, which is the name of the first question without its
configured suffix.  Integers are copied in the byte order of the machine, which
is little endian.
-/
import Pweb.Dnsgw.DnsQuery
import Pweb.Shared.ProtocolHelper

open ProtocolHelper ByteOrder

namespace AbsMessage

/-! ## Device names -/

/-- `::tolower` on one byte. -/
def toLower (c : UInt8) : UInt8 := if 65 ≤ c ∧ c ≤ 90 then c + 32 else c

/-- The text of a byte string in an error message. -/
def text (s : Bytes) : String := String.ofList (s.map fun c => Char.ofNat c.toNat)

/-- `remove_suffix`: strip the first listed suffix that the name ends with.  For a
suffix longer than the name the start position wraps around and `substr` throws. -/
def removeSuffix (name : Bytes) : List Bytes → Except Exn Bytes
  | [] => .error (.runtimeError ("Name '" ++ text name ++ "' does not contain a valid suffix."))
  | suffix :: suffixes =>
    if name.length < suffix.length then .error .outOfRange
    else if (name.drop (name.length - suffix.length)).map toLower = suffix then
      .ok (name.take (name.length - suffix.length))
    else removeSuffix name suffixes

/-! ## Fields -/

/-- `ABS_GET`. -/
def absGet : UInt8 := 5

/-- `ABS_REPLY`. -/
def absReply : UInt8 := 43

/-- `write_abs_int` for the two 32-bit types: `memcpy` of the integer. -/
def writeAbsInt (val : UInt32) : ByteWriter Exn Unit := do
  checkEndLenOut 4
  ByteWriter.put (toLE 4 val.toNat)

/-- `write_abs_chars`. -/
def writeAbsChars (str : Bytes) : ByteWriter Exn Unit := do
  checkEndLenOut str.length
  ByteWriter.put str

/-- `write_abs_string`: the length as a 32-bit integer, then the characters. -/
def writeAbsString (str : Bytes) : ByteWriter Exn Unit := do
  writeAbsInt (UInt32.ofNat str.length)
  writeAbsChars str

/-- `write_abs_zero`. -/
def writeAbsZero (len : ℕ) : ByteWriter Exn Unit := do
  checkEndLenOut len
  ByteWriter.put (List.replicate len 0)

/-- `unused_abs_header_len`: two bytes, a double and seven 32-bit integers. -/
def unusedAbsHeaderLen : ℕ := 1 + 1 + 4 + 8 + 4 + 4 + 4 + 4 + 4 + 4

/-! ## The GET message -/

/-- `write_abs_header`. -/
def writeAbsHeader (msgid : UInt8) (sequence : UInt32) (hahostname : Bytes) (haport : UInt16)
    (nshostname : Bytes) (nsport : UInt16) : ByteWriter Exn Unit := do
  checkEndOut
  ByteWriter.put [msgid]
  writeAbsInt sequence
  writeAbsString hahostname
  writeAbsInt haport.toUInt32
  writeAbsString nshostname
  writeAbsInt nsport.toUInt32
  writeAbsZero unusedAbsHeaderLen

/-- `write_abs_get` after `out` in a buffer of `size` bytes: the bytes written so
far or the exception, and the query, whose metric has been given the device name
once the suffix was removed. -/
def writeAbsGet (query : DnsQuery) (suffixes : List Bytes) (size : ℕ) (out : Bytes) :
    Except (Fault Exn) Bytes × DnsQuery :=
  match query.questions with
  | [] => (.ok out, query)
  | question :: _ =>
    match removeSuffix question.name suffixes with
    | .error e => (.error (.thrown e), query)
    | .ok devicename =>
      let query := { query with metric := { query.metric with deviceName := devicename } }
      match writeAbsString devicename size out with
      | .error e => (.error e, query)
      | .ok (_, out) => (.ok out, query)

/-- The two calls in the constructor of `hasendconnection` that fill its 256-byte
buffer: the GET message or the exception, and the query afterwards. -/
def composeGet (hahostname : Bytes) (haport : UInt16) (nshostname : Bytes) (nsport : UInt16)
    (suffixes : List Bytes) (query : DnsQuery) : Except (Fault Exn) Bytes × DnsQuery :=
  match writeAbsHeader absGet query.id.toUInt32 hahostname haport nshostname nsport 256 [] with
  | .error e => (.error e, query)
  | .ok (_, out) => writeAbsGet query suffixes 256 out

/-! ## What is emitted -/

/-- The bytes of a string field. -/
def encodeAbsString (str : Bytes) : Bytes := toLE 4 (UInt32.ofNat str.length).toNat ++ str

/-- The bytes of the header. -/
def encodeAbsHeader (msgid : UInt8) (sequence : UInt32) (hahostname : Bytes) (haport : UInt16)
    (nshostname : Bytes) (nsport : UInt16) : Bytes :=
  [msgid] ++ (toLE 4 sequence.toNat ++ (encodeAbsString hahostname ++
    (toLE 4 haport.toUInt32.toNat ++ (encodeAbsString nshostname ++
      (toLE 4 nsport.toUInt32.toNat ++ List.replicate unusedAbsHeaderLen 0)))))

theorem emits_writeAbsInt (val : UInt32) : Emits (writeAbsInt val) True (toLE 4 val.toNat) := by
  have h := Emits.throwIfShort_put unexpectedEndOfMessage (toLE 4 val.toNat)
  rwa [length_toLE] at h

theorem emits_writeAbsString (str : Bytes) :
    Emits (writeAbsString str) True (encodeAbsString str) :=
  ((emits_writeAbsInt _).bind (Emits.throwIfShort_put _ str)).congr (and_self_iff) rfl

theorem emits_writeAbsZero (len : ℕ) : Emits (writeAbsZero len) True (List.replicate len 0) := by
  have h := Emits.throwIfShort_put unexpectedEndOfMessage (List.replicate len 0)
  rwa [List.length_replicate] at h

theorem emits_writeAbsHeader (msgid : UInt8) (sequence : UInt32) (hahostname : Bytes)
    (haport : UInt16) (nshostname : Bytes) (nsport : UInt16) :
    Emits (writeAbsHeader msgid sequence hahostname haport nshostname nsport) True
      (encodeAbsHeader msgid sequence hahostname haport nshostname nsport) := by
  -- the first byte is guarded on its own, the six fields follow
  have hfields := (emits_writeAbsInt sequence).bind ((emits_writeAbsString hahostname).bind
    ((emits_writeAbsInt haport.toUInt32).bind ((emits_writeAbsString nshostname).bind
      ((emits_writeAbsInt nsport.toUInt32).bind (emits_writeAbsZero unusedAbsHeaderLen)))))
  have h := (Emits.throwAtEnd_put unexpectedEndOfMessage msgid).bind hfields
  rw [bind_assoc] at h
  exact h.congr (by simp) rfl

/-- **The GET message** that is composed for a query with a question: the header with the
id as sequence number, then the device name, which the metric of the query keeps. -/
theorem composeGet_ok {hahostname : Bytes} {haport : UInt16} {nshostname : Bytes}
    {nsport : UInt16} {suffixes : List Bytes} {query query' : DnsQuery} {out : Bytes}
    {question : DnsQuestion} {rest : List DnsQuestion}
    (h : composeGet hahostname haport nshostname nsport suffixes query = (.ok out, query'))
    (hq : query.questions = question :: rest) :
    ∃ devicename, removeSuffix question.name suffixes = .ok devicename ∧
      query' = { query with metric := { query.metric with deviceName := devicename } } ∧
      out = encodeAbsHeader absGet query.id.toUInt32 hahostname haport nshostname nsport ++
        encodeAbsString devicename := by
  unfold composeGet at h
  split at h
  · cases h
  · next hdr hheader =>
    obtain ⟨-, hfit, rfl⟩ := ((emits_writeAbsHeader _ _ _ _ _ _).eq_ok_iff (by simp)).mp hheader
    unfold writeAbsGet at h
    rw [hq] at h
    dsimp only at h
    split at h
    · cases h
    · next devicename hname =>
      refine ⟨devicename, hname, ?_⟩
      split at h
      · cases h
      · next out' hstring =>
        obtain ⟨-, -, rfl⟩ := ((emits_writeAbsString devicename).eq_ok_iff (by simpa using hfit)).mp
          hstring
        cases h
        exact ⟨by rw [hq], rfl⟩

/-! ## What they leave alone -/

/-- `write_abs_get` changes nothing of the query but its metric. -/
theorem writeAbsGet_query (query : DnsQuery) (suffixes : List Bytes) (size : ℕ) (out : Bytes) :
    ∃ metric, (writeAbsGet query suffixes size out).2 = { query with metric := metric } := by
  unfold writeAbsGet
  split
  · exact ⟨query.metric, rfl⟩
  · split
    · exact ⟨query.metric, rfl⟩
    · dsimp only
      split
      · exact ⟨_, rfl⟩
      · exact ⟨_, rfl⟩

theorem composeGet_query (hahostname : Bytes) (haport : UInt16) (nshostname : Bytes)
    (nsport : UInt16) (suffixes : List Bytes) (query : DnsQuery) :
    ∃ metric, (composeGet hahostname haport nshostname nsport suffixes query).2
      = { query with metric := metric } := by
  unfold composeGet
  split
  · exact ⟨query.metric, rfl⟩
  · exact writeAbsGet_query _ _ _ _

end AbsMessage
