/-
# The gateway and the home agent agree on GET

The gateway writes a GET message field by field into a buffer of 256 bytes, with a
block of zeros for what it does not use; the home agent reads it with the
`deserialize` functions of the overlay.  What the gateway writes is the
serialization of a `PeerInitiateGET`, so the home agent reads it back.
-/
import Pweb.Dnsgw.AbsMessage
import Pweb.Klink.PeerInitiateGet

open ByteOrder Klink

namespace AbsMessage

/-- The message that a GET is to the home agent: the unused fields are zero. -/
def getMessage (hahostname : Bytes) (haport : UInt16) (nshostname : Bytes) (nsport : UInt16)
    (query : DnsQuery) (devicename : Bytes) : PeerInitiateGET where
  messageType := absGet
  sequenceNo := query.id.toUInt32
  destHost := hahostname
  destPort := haport.toUInt32.toInt32
  sourceHost := nshostname
  sourcePort := nsport.toUInt32.toInt32
  overlayHops := 0
  overlayTtl := 0
  ipHops := 0
  latency := 0
  dstOid := ⟨0, 0, 0⟩
  srcOid := ⟨0, 0, 0⟩
  deviceName := devicename

/-- A port is the same number in both programs. -/
theorem toInt_port (port : UInt16) : port.toUInt32.toInt32.toInt = port.toNat := by
  have hlt := port.toNat_lt
  have hnat : port.toUInt32.toNat = port.toNat := UInt16.toNat_toUInt32 port
  rw [Int32.toInt, UInt32.toBitVec_toInt32, BitVec.toInt_eq_toNat_of_lt]
  · rw [UInt32.toNat_toBitVec, hnat]
  · rw [UInt32.toNat_toBitVec, hnat]
    omega

/-- Both programs write a string field in the same way. -/
theorem putString_eq {str : Bytes} (h : str.length < 2 ^ 31) :
    putString str = encodeAbsString str := putString_of_lt h

/-- The block of zeros is the fields of the header that the gateway does not use. -/
theorem zeros_eq : List.replicate unusedAbsHeaderLen 0 =
    [0] ++ ([0] ++ (putInt 0 ++ (putDouble 0 ++ (putOid ⟨0, 0, 0⟩ ++ putOid ⟨0, 0, 0⟩)))) := by
  decide

/-- **What the gateway writes is what the overlay would serialize.** -/
theorem serialize_getMessage (haport nsport : UInt16) (query : DnsQuery)
    {hahostname nshostname devicename : Bytes} (hha : hahostname.length < 2 ^ 31)
    (hns : nshostname.length < 2 ^ 31) (hname : devicename.length < 2 ^ 31) :
    (getMessage hahostname haport nshostname nsport query devicename).serialize =
      encodeAbsHeader absGet query.id.toUInt32 hahostname haport nshostname nsport ++
        encodeAbsString devicename := by
  rw [PeerInitiateGET.serialize, ABSMessage.serialize, encodeAbsHeader, zeros_eq]
  simp only [getMessage, putString_eq hha, putString_eq hns, putString_eq hname]
  rfl

/-- A GET message that was composed fits the buffer. -/
theorem composeGet_length_le {hahostname : Bytes} {haport : UInt16} {nshostname : Bytes}
    {nsport : UInt16} {suffixes : List Bytes} {query query' : DnsQuery} {out : Bytes}
    (h : composeGet hahostname haport nshostname nsport suffixes query = (.ok out, query')) :
    out.length ≤ 256 := by
  unfold composeGet at h
  split at h
  · cases h
  · next hdr hheader =>
    obtain ⟨-, hfit, rfl⟩ := ((emits_writeAbsHeader _ _ _ _ _ _).eq_ok_iff (by simp)).mp hheader
    unfold writeAbsGet at h
    split at h
    · cases h
      simpa using hfit
    · split at h
      · cases h
      · dsimp only at h
        split at h
        · cases h
        · next out' hstring =>
          obtain ⟨-, hfit', rfl⟩ :=
            ((emits_writeAbsString _).eq_ok_iff (by simpa using hfit)).mp hstring
          cases h
          rw [List.length_append]
          exact hfit'

/-- A device name is the name without a suffix that is configured. -/
theorem removeSuffix_ok {name devicename : Bytes} {suffixes : List Bytes}
    (h : removeSuffix name suffixes = .ok devicename) :
    ∃ suffix ∈ suffixes, ∃ matched, name = devicename ++ matched ∧
      matched.map toLower = suffix := by
  induction suffixes with
  | nil => cases h
  | cons suffix suffixes ih =>
      unfold removeSuffix at h
      split_ifs at h with hshort hmatch
      · cases h
        exact ⟨suffix, List.mem_cons_self, _, (List.take_append_drop _ _).symm, hmatch⟩
      · obtain ⟨suffix', hmem, hrest⟩ := ih h
        exact ⟨suffix', List.mem_cons_of_mem _ hmem, hrest⟩

/-- **The home agent reads the GET that the gateway has written**: for every query with a
first question, the type, the id as sequence number, both hosts with their ports and the
device name, and nothing is left in the buffer. -/
theorem home_agent_reads_get (hahostname : Bytes) (haport : UInt16) (nshostname : Bytes)
    (nsport : UInt16) (suffixes : List Bytes) (query query' : DnsQuery) (question : DnsQuestion)
    (rest : List DnsQuestion) (out : Bytes) (hquestions : query.questions = question :: rest)
    (hcompose : composeGet hahostname haport nshostname nsport suffixes query = (.ok out, query')) :
    ∃ m : PeerInitiateGET, PeerInitiateGET.deserialize out 0 = .ok (m, out.length) ∧
      m.messageType = msgPeerInitiateGet ∧ m.sequenceNo = query.id.toUInt32 ∧
      m.destHost = hahostname ∧ m.destPort.toInt = haport.toNat ∧
      m.sourceHost = nshostname ∧ m.sourcePort.toInt = nsport.toNat ∧
      removeSuffix question.name suffixes = .ok m.deviceName ∧
      ∃ suffix ∈ suffixes, ∃ matched, question.name = m.deviceName ++ matched ∧
        matched.map toLower = suffix := by
  have hlen := composeGet_length_le hcompose
  obtain ⟨devicename, hname, -, rfl⟩ := composeGet_ok hcompose hquestions
  -- everything in the buffer is short enough for the lengths to be exact
  simp only [encodeAbsHeader, encodeAbsString, List.length_append, List.length_singleton,
    length_toLE] at hlen
  have hha : hahostname.length < 2 ^ 31 := by omega
  have hns : nshostname.length < 2 ^ 31 := by omega
  have hdev : devicename.length < 2 ^ 31 := by omega
  rw [← serialize_getMessage haport nsport query hha hns hdev]
  exact ⟨_, PeerInitiateGET.deserialize_serialize ⟨hha, hns, rfl, rfl⟩ hdev, rfl, rfl, rfl,
    toInt_port haport, rfl, toInt_port nsport, hname, removeSuffix_ok hname⟩

/-- A query for `h.x.`, whose configured suffix is `.x.`. -/
def sampleGetQuery : DnsQuery :=
  { sender := .tcp 0, id := 7, questions := [⟨[104, 46, 120, 46], tA, cIn⟩] }

theorem home_agent_reads_sample_get : ∃ out m, PeerInitiateGET.deserialize out 0 = .ok (m, 68) ∧
    m.sequenceNo = 7 ∧ m.deviceName = [104] := by
  obtain ⟨out, query', hout, hlen⟩ : ∃ out query', composeGet [104, 97] 20005 [110, 115] 20006
      [[46, 120, 46]] sampleGetQuery = (.ok out, query') ∧ out.length = 68 := ⟨_, _, rfl, rfl⟩
  obtain ⟨m, hread, -, hseq, -, -, -, -, hname, -⟩ := home_agent_reads_get [104, 97] 20005
    [110, 115] 20006 [[46, 120, 46]] sampleGetQuery query' _ _ out rfl hout
  refine ⟨out, m, by rw [hread, hlen], hseq, ?_⟩
  have hremoved : removeSuffix [104, 46, 120, 46] [[46, 120, 46]] = .ok [104] := rfl
  exact Except.ok.inj (hname.symm.trans hremoved)

end AbsMessage
