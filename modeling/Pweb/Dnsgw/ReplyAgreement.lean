/-
# The home agent and the gateway agree on GET_REPLY

A home agent serializes a reply in one go; the gateway reads it in six chunks and
finds each length at the end of a chunk.  The chunks of a serialized reply are the
ones that the gateway asks for, so in whatever segments the reply arrives, the
query with its sequence number is completed according to the address in it.
-/
import Pweb.Dnsgw.HaReplyReader
import Pweb.Klink.MessageGetReply

open ByteOrder Klink

namespace Klink.MessageGET_REPLY

/-! ## The chunks of a reply -/

/-- Type, sequence number and length of the destination host name. -/
def chunk₁ (m : MessageGET_REPLY) : Bytes :=
  [m.messageType] ++ putUInt m.sequenceNo ++ putInt (Int32.ofNat m.destHost.length)

/-- Destination host name and port, and the length of the source host name. -/
def chunk₂ (m : MessageGET_REPLY) : Bytes :=
  m.destHost ++ putInt m.destPort ++ putInt (Int32.ofNat m.sourceHost.length)

/-- Source host name and port, and the rest of the common part. -/
def chunk₃ (m : MessageGET_REPLY) : Bytes :=
  m.sourceHost ++ (putInt m.sourcePort ++ ([m.overlayHops] ++ ([m.overlayTtl] ++
    (putInt m.ipHops ++ (putDouble m.latency ++ (putOid m.dstOid ++ putOid m.srcOid))))))

/-- The outcome of the lookup, and the length of the address. -/
def chunk₄ (m : MessageGET_REPLY) : Bytes :=
  putInt m.resolutionStatus ++ (putInt m.resolutionHops ++ (putInt m.resolutionIpHops ++
    (putDouble m.resolutionLatency ++ (putInt m.originSeqNo ++ putOid m.targetOid)))) ++
  putInt (Int32.ofNat m.hostAddress.hostName.length)

/-- The address and its port, and the length of the device name. -/
def chunk₅ (m : MessageGET_REPLY) : Bytes :=
  m.hostAddress.hostName ++ putInt m.hostAddress.hostPort ++
    putInt (Int32.ofNat m.deviceName.length)

/-- The characters of the device name. -/
def nameChars (m : MessageGET_REPLY) : Bytes :=
  m.deviceName.take (Int32.ofNat m.deviceName.length).toInt.toNat

/-- The reply up to the device name. -/
def upToDeviceName (m : MessageGET_REPLY) : Bytes :=
  m.chunk₁ ++ (m.chunk₂ ++ (m.chunk₃ ++ (m.chunk₄ ++ m.chunk₅)))

/-- The replies the gateway has room for: the type and a sequence number of 16 bits, and host
names that fit its buffer together with what it reads along with them. -/
structure Readable (m : MessageGET_REPLY) : Prop where
  messageType : m.messageType = msgPlexusGetReply
  sequenceNo : m.sequenceNo.toNat ≤ 65535
  destHost : m.destHost.length ≤ 248
  sourceHost : m.sourceHost.length ≤ 214
  hostName : m.hostAddress.hostName.length ≤ 248

variable {m : MessageGET_REPLY}

theorem serialize_eq (h : m.Readable) : m.serialize = m.upToDeviceName ++ m.nameChars := by
  have hdest := h.destHost
  have hsource := h.sourceHost
  have hhost := h.hostName
  rw [serialize, ABSMessage.serialize, putString_of_lt (by omega), putString_of_lt (by omega),
    putString_of_lt (by omega)]
  simp only [putString, upToDeviceName, chunk₁, chunk₂, chunk₃, chunk₄, chunk₅, nameChars,
    List.append_assoc]

theorem length_chunk₁ (m : MessageGET_REPLY) : m.chunk₁.length = 9 := by
  simp [chunk₁]

theorem length_chunk₂ (m : MessageGET_REPLY) : m.chunk₂.length = m.destHost.length + 8 := by
  simp [chunk₂]

theorem length_chunk₃ (m : MessageGET_REPLY) : m.chunk₃.length = m.sourceHost.length + 42 := by
  simp [chunk₃]

theorem length_chunk₄ (m : MessageGET_REPLY) : m.chunk₄.length = 40 := by
  simp [chunk₄]

theorem length_chunk₅ (m : MessageGET_REPLY) :
    m.chunk₅.length = m.hostAddress.hostName.length + 8 := by
  simp [chunk₅]

end Klink.MessageGET_REPLY

namespace HaReplyReader

/-! ## Reading the fields -/

/-- Four bytes denote the integer they were made of. -/
theorem absInt_putInt (val : Int32) : absInt (putInt val) = val := by
  have hlt := val.toUInt32.toNat_lt
  rw [absInt, putInt, ofLE_toLE, Nat.mod_eq_of_lt (by simpa using hlt), UInt32.ofNat_toNat]
  exact Int32.toInt32_toUInt32 val

/-- **The field at the end of a chunk** is the integer written there. -/
theorem trailingInt_append (bs : Bytes) (val : Int32) :
    trailingInt (bs ++ putInt val) = some val := by
  have hlen : (bs ++ putInt val).length = bs.length + 4 := by
    rw [List.length_append, length_putInt]
  rw [trailingInt_of_le (by omega), hlen, Nat.add_sub_cancel, List.drop_left, absInt_putInt]

/-- A short string has the length that is written for it. -/
theorem toInt_length {str : Bytes} {n : ℕ} (h : str.length ≤ n) (hn : n < 2 ^ 31) :
    (Int32.ofNat str.length).toInt = str.length :=
  Int32.toInt_ofNat_of_lt (by omega)

/-! ## The handlers on the chunks -/

variable {m : MessageGET_REPLY} {outstanding : UInt16 → Bool}

/-- The number under which the query of a reply is looked up. -/
def replyId (m : MessageGET_REPLY) : UInt16 := UInt16.ofNat m.sequenceNo.toNat

/-- A sequence number of 16 bits is stored as it is. -/
theorem storeSequence_chunk₁ (h : m.Readable) (s : HaReplyReader) :
    s.storeSequence (absInt ((m.chunk₁.drop 1).take 4)) = { s with sequence := replyId m } := by
  have hfield : absInt ((m.chunk₁.drop 1).take 4) = m.sequenceNo.toInt32 := by
    have hdrop : m.chunk₁.drop 1
        = putUInt m.sequenceNo ++ putInt (Int32.ofNat m.destHost.length) := rfl
    rw [hdrop, ← length_putUInt m.sequenceNo, List.take_left]
    exact absInt_putInt m.sequenceNo.toInt32
  have hseq := h.sequenceNo
  have hint : m.sequenceNo.toInt32.toInt = m.sequenceNo.toNat := by
    rw [Int32.toInt, UInt32.toBitVec_toInt32, BitVec.toInt_eq_toNat_of_lt]
    · rw [UInt32.toNat_toBitVec]
    · rw [UInt32.toNat_toBitVec]
      omega
  have hcast : UInt16.ofNat ((m.sequenceNo.toNat : ℤ) % 65536).toNat = replyId m := by
    rw [replyId]
    congr 1
    omega
  rw [hfield, storeSequence, hint, if_pos (by omega), hcast]

theorem handle_chunk₁ (outstanding : UInt16 → Bool) (h : m.Readable) :
    ((reader outstanding).handle {} m.chunk₁).1
      = ⟨.srchostlen, m.destHost.length + 8, 0, replyId m⟩ ∧
    answers ((reader outstanding).handle {} m.chunk₁).2 = [] := by
  have hdest := h.destHost
  have hlen := toInt_length hdest (by omega)
  have heq : (reader outstanding).handle {} m.chunk₁ = _ :=
    handleReadToDesthostlen_of_reply (trailingInt_append _ _) h.messageType
  rw [heq, storeSequence_chunk₁ h,
    next_of_le _ _ (n := m.destHost.length + 8) (by omega) (by omega)]
  exact ⟨rfl, rfl⟩

theorem handle_chunk₂ (outstanding : UInt16 → Bool) (h : m.Readable) (size hostlen : ℕ)
    (sequence : UInt16) :
    ((reader outstanding).handle ⟨.srchostlen, size, hostlen, sequence⟩ m.chunk₂).1
      = ⟨.absheader, m.sourceHost.length + 42, hostlen, sequence⟩ ∧
    answers ((reader outstanding).handle ⟨.srchostlen, size, hostlen, sequence⟩ m.chunk₂).2
      = [] := by
  have hsource := h.sourceHost
  have hlen := toInt_length hsource (by omega)
  have htrail : trailingInt m.chunk₂ = _ := trailingInt_append _ _
  simp only [reader, handleReadToSrchostlen, htrail]
  rw [next_of_le _ _ (n := m.sourceHost.length + 42) (by rw [hlen]; rfl) (by omega)]
  exact ⟨rfl, rfl⟩

theorem handle_chunk₃ (outstanding : UInt16 → Bool) (m : MessageGET_REPLY) (size hostlen : ℕ)
    (sequence : UInt16) :
    (reader outstanding).handle ⟨.absheader, size, hostlen, sequence⟩ m.chunk₃
      = (⟨.replyhostlen, 40, hostlen, sequence⟩, []) := rfl

theorem handle_chunk₄ (outstanding : UInt16 → Bool) (h : m.Readable) (size hostlen : ℕ)
    (sequence : UInt16) :
    ((reader outstanding).handle ⟨.replyhostlen, size, hostlen, sequence⟩ m.chunk₄).1
      = ⟨.devicenamelen, m.hostAddress.hostName.length + 8, m.hostAddress.hostName.length,
        sequence⟩ ∧
    answers ((reader outstanding).handle ⟨.replyhostlen, size, hostlen, sequence⟩ m.chunk₄).2
      = [] := by
  have hhost := h.hostName
  have hlen := toInt_length hhost (by omega)
  have htrail : trailingInt m.chunk₄ = _ := trailingInt_append _ _
  have hsizeT : sizeT (m.hostAddress.hostName.length : ℤ) = m.hostAddress.hostName.length :=
    sizeT_natCast (by omega)
  simp only [reader, handleReadToReplyhostlen, htrail, hlen, hsizeT]
  rw [next_of_le _ _ (n := m.hostAddress.hostName.length + 8) (by omega) (by omega)]
  exact ⟨rfl, rfl⟩

theorem handle_chunk₅ (outstanding : UInt16 → Bool) (m : MessageGET_REPLY) (size hostlen : ℕ)
    (sequence : UInt16) :
    ((reader outstanding).handle ⟨.devicenamelen, size, hostlen, sequence⟩ m.chunk₅).1.stage
      = .devicename ∧
    answers ((reader outstanding).handle ⟨.devicenamelen, size, hostlen, sequence⟩ m.chunk₅).2
      = [.reply sequence hostlen m.chunk₅] := by
  have htrail : trailingInt m.chunk₅ = _ := trailingInt_append _ _
  simp only [reader, handleReadToDevicenamelen, htrail]
  split_ifs
  · exact ⟨rfl, rfl⟩
  · exact ⟨rfl, rfl⟩

/-- The chunks of a reply, up to its device name. -/
def chunks (m : MessageGET_REPLY) : List Bytes := [m.chunk₁, m.chunk₂, m.chunk₃, m.chunk₄, m.chunk₅]

theorem flatten_chunks (m : MessageGET_REPLY) : (chunks m).flatten = m.upToDeviceName := by
  simp [chunks, MessageGET_REPLY.upToDeviceName]

/-- **Before each chunk** the reader has asked for it, and it has answered nothing yet; only
before the last one it waits for the device name length. -/
theorem before_chunk (outstanding : UInt16 → Bool) (h : m.Readable) {done : List Bytes}
    {chunk : Bytes} {todo : List Bytes} (hchunks : chunks m = done ++ chunk :: todo) :
    (reader outstanding).want ((reader outstanding).play (reader outstanding).start done).1
      = some chunk.length ∧
    answers ((reader outstanding).play (reader outstanding).start done).2 = [] ∧
    (((reader outstanding).play (reader outstanding).start done).1.stage = .devicenamelen →
      todo = []) := by
  obtain ⟨h₁, a₁⟩ := handle_chunk₁ outstanding h
  obtain ⟨h₂, a₂⟩ := handle_chunk₂ outstanding h (m.destHost.length + 8) 0 (replyId m)
  obtain ⟨h₄, a₄⟩ := handle_chunk₄ outstanding h 40 0 (replyId m)
  have h₃ := handle_chunk₃ outstanding m (m.sourceHost.length + 42) 0 (replyId m)
  have hstart : (reader outstanding).start = {} := rfl
  rcases done with _ | ⟨d₁, _ | ⟨d₂, _ | ⟨d₃, _ | ⟨d₄, _ | ⟨d₅, _⟩⟩⟩⟩⟩
  all_goals simp only [chunks, List.nil_append, List.cons_append, List.cons.injEq] at hchunks
  · obtain ⟨rfl, -⟩ := hchunks
    refine ⟨?_, rfl, fun hstage => ?_⟩
    · rw [m.length_chunk₁]
      rfl
    · cases hstage
  · obtain ⟨rfl, rfl, -⟩ := hchunks
    simp only [StreamReader.play, hstart, h₁, a₁, List.append_nil, m.length_chunk₂]
    exact ⟨rfl, trivial, fun hstage => by cases hstage⟩
  · obtain ⟨rfl, rfl, rfl, -⟩ := hchunks
    simp only [StreamReader.play, hstart, h₁, h₂, answers_append, a₁, a₂, List.append_nil,
      m.length_chunk₃]
    exact ⟨rfl, trivial, fun hstage => by cases hstage⟩
  · obtain ⟨rfl, rfl, rfl, rfl, -⟩ := hchunks
    simp only [StreamReader.play, hstart, h₁, h₂, h₃, answers_append, a₁, a₂, List.append_nil,
      m.length_chunk₄]
    exact ⟨rfl, trivial, fun hstage => by cases hstage⟩
  · obtain ⟨rfl, rfl, rfl, rfl, rfl, hnil⟩ := hchunks
    simp only [StreamReader.play, hstart, h₁, h₂, h₃, h₄, answers_append, a₁, a₂, a₄,
      List.append_nil, m.length_chunk₅]
    exact ⟨rfl, rfl, fun _ => hnil.symm⟩
  · exact absurd hchunks.2.2.2.2.2 (by simp)

/-- After the last chunk the query has been looked up, with the address of the reply. -/
theorem after_chunks (h : m.Readable) :
    ((reader outstanding).play (reader outstanding).start (chunks m)).1.stage = .devicename ∧
    answers ((reader outstanding).play (reader outstanding).start (chunks m)).2
      = [.reply (replyId m) m.hostAddress.hostName.length m.chunk₅] := by
  obtain ⟨h₁, a₁⟩ := handle_chunk₁ outstanding h
  obtain ⟨h₂, a₂⟩ := handle_chunk₂ outstanding h (m.destHost.length + 8) 0 (replyId m)
  obtain ⟨h₄, a₄⟩ := handle_chunk₄ outstanding h 40 0 (replyId m)
  have h₃ := handle_chunk₃ outstanding m (m.sourceHost.length + 42) 0 (replyId m)
  obtain ⟨h₅, a₅⟩ := handle_chunk₅ outstanding m
    (m.hostAddress.hostName.length + 8) m.hostAddress.hostName.length (replyId m)
  have hstart : (reader outstanding).start = {} := rfl
  simp only [chunks, StreamReader.play, hstart, h₁, h₂, h₃, h₄, h₅, answers_append, a₁, a₂, a₄, a₅,
    List.append_nil]
  exact ⟨trivial, rfl⟩

/-! ## Runs -/

/-- The completion that the address in a reply calls for: it is parsed up to its first NUL. -/
def replyOutcome (fromString : Bytes → Option IpAddress) (ttl : UInt16) (hostName : Bytes)
    (query : DnsQuery) : Completion :=
  if hostName = [] then ⟨query, .nameError, .haReturnedError⟩
  else
    match fromString (hostName.takeWhile (· ≠ 0)) with
    | some addr => ⟨query.addAnswer (answerRr query.firstName addr ttl), .success, .success⟩
    | none => ⟨query, .serverFailure, .unknown⟩

theorem completion_chunk₅ (h : m.Readable) (fromString : Bytes → Option IpAddress) (ttl : UInt16) :
    completion fromString ttl m.hostAddress.hostName.length m.chunk₅
      = replyOutcome fromString ttl m.hostAddress.hostName := by
  funext query
  have hhost := h.hostName
  have hcstr : cString m.chunk₅ m.hostAddress.hostName.length
      = m.hostAddress.hostName.takeWhile (· ≠ 0) := by
    rw [cString, MessageGET_REPLY.chunk₅, List.append_assoc, List.take_left]
  have hfits : bufLen > m.hostAddress.hostName.length := by
    unfold bufLen
    omega
  rw [completion, replyOutcome, hcstr, if_pos hfits]
  by_cases hempty : m.hostAddress.hostName = []
  · rw [if_pos (List.length_eq_zero_iff.mpr hempty), if_pos hempty]
  · refine (if_neg fun hz => hempty (List.length_eq_zero_iff.mp hz)).trans ?_
    exact (if_neg hempty).symm

/-- The reader behind the last chunk: it only reads the device name any more. -/
def NameLeft (r : HaReplyReader) : Prop := r.stage = .devicename ∨ r.stage = .closed

theorem NameLeft.handle {r : HaReplyReader} (h : NameLeft r) (bs : Bytes) :
    NameLeft ((reader outstanding).handle r bs).1 ∧ ((reader outstanding).handle r bs).2 = [] := by
  rcases h with h | h
  · simp only [reader, h]
    exact ⟨Or.inr rfl, trivial⟩
  · simp only [reader, h]
    exact ⟨Or.inr h, trivial⟩

section

variable {tr : List (Transition (Feed HaReplyReader HaAction) FeedEvent)}
  {s : Feed HaReplyReader HaAction}

/-- A run in which part of a reply has arrived follows its chunks. -/
theorem progress_of_reply (h : m.Readable) (hrun : Run (reader outstanding).system tr s)
    (hfail : ∀ t ∈ tr, t.event ≠ .fail) (harrived : Feed.arrived tr <+: m.serialize) :
    (reader outstanding).Progress (chunks m) NameLeft (fun _ => False) s.reader s.consumed
      s.emitted := by
  refine StreamReader.progress_of_run m.nameChars
    (StreamReader.asks_of_before fun _ _ _ hc => (before_chunk outstanding h hc).1)
    (Or.inl (after_chunks h).1) (fun r more bs hr _ _ => ?_) hrun hfail ?_
  · obtain ⟨hleft, hsilent⟩ := hr.handle bs
    rw [hsilent]
    exact ⟨hleft, List.forall_mem_nil _⟩
  · rwa [flatten_chunks, ← MessageGET_REPLY.serialize_eq h]

/-- A reply is looked up and completed as its address calls for. -/
theorem perform_reply (h : m.Readable) {emitted : List HaAction}
    (hanswers : answers emitted = [.reply (replyId m) m.hostAddress.hostName.length m.chunk₅])
    (cfg : Config) (g : Gateway) : emitted.foldl (perform cfg) g = g.removeAndComplete (replyId m)
      (replyOutcome cfg.fromString cfg.ttl m.hostAddress.hostName) := by
  rw [← foldl_perform_answers, hanswers, ← completion_chunk₅ h]
  rfl

/-- Past the last chunk the reader has answered once. -/
theorem answers_past (h : m.Readable) {later : List HaAction} (hlater : ∀ a ∈ later, False) :
    answers (((reader outstanding).play (reader outstanding).start (chunks m)).2 ++ later)
      = [.reply (replyId m) m.hostAddress.hostName.length m.chunk₅] := by
  have hnil : later = [] := List.eq_nil_iff_forall_not_mem.mpr hlater
  rw [hnil, List.append_nil, (after_chunks h).2]

/-- What a run with part of a reply has done to a gateway: nothing yet, or the lookup. -/
theorem perform_of_progress (h : m.Readable) {r : HaReplyReader} {consumed : Bytes}
    {emitted : List HaAction}
    (hprogress : (reader outstanding).Progress (chunks m) NameLeft (fun _ => False) r consumed
      emitted)
    (cfg : Config) (g : Gateway) : emitted.foldl (perform cfg) g = g ∨
      emitted.foldl (perform cfg) g = g.removeAndComplete (replyId m)
        (replyOutcome cfg.fromString cfg.ttl m.hostAddress.hostName) := by
  rcases hprogress with ⟨done, chunk, todo, hchunks, -, -, rfl⟩ | ⟨more, later, -, hQ, -, rfl⟩
  · rw [← foldl_perform_answers, (before_chunk outstanding h hchunks).2.1]
    exact Or.inl rfl
  · exact Or.inr (perform_reply h (answers_past h hQ) cfg g)

/-- The handler that looks the query up runs when everything up to the device name has been
read. -/
theorem consumed_at_lookup (h : m.Readable) (hrun : Run (reader outstanding).system tr s)
    (hfail : ∀ t ∈ tr, t.event ≠ .fail) (harrived : Feed.arrived tr <+: m.serialize)
    {t : Transition (Feed HaReplyReader HaAction) FeedEvent} (ht : t ∈ tr)
    (hcomplete : t.event = .complete) (hstage : t.pre.reader.stage = .devicenamelen) :
    t.post.consumed = m.upToDeviceName := by
  obtain ⟨past, future, rfl, hpast, hstep⟩ := hrun.split ht
  have hbefore : Feed.arrived (past ++ [t]) <+: m.serialize := by
    refine (List.prefix_append _ (Feed.arrived future)).trans ?_
    rwa [← Feed.arrived_append, List.append_assoc]
  have hprogress := progress_of_reply h hpast (fun t' ht' => hfail t' (List.mem_append_left _ ht'))
    ((List.prefix_append _ _).trans (Feed.arrived_append past [t] ▸ hbefore))
  have hend : Run (reader outstanding).system (past ++ [t]) t.post := hpast.extend hstep
  rw [hcomplete] at hstep
  obtain ⟨bs, hwant, -, hpost⟩ := StreamReader.complete_eq_some_iff.mp hstep
  rcases hprogress with ⟨done, chunk, todo, hchunks, hreader, hconsumed, -⟩ | ⟨_, _, hK, -, -, -⟩
  · obtain ⟨hwant', -, htodo⟩ := before_chunk outstanding h hchunks
    rw [← hreader] at hwant' htodo
    have hlen : bs.length = chunk.length := Option.some.inj (hwant.symm.trans hwant')
    -- what has been read has the length of the chunks and is where they are on the stream
    have hpostlen : t.post.consumed.length = m.upToDeviceName.length := by
      rw [hpost, ← flatten_chunks, hchunks, htodo hstage, hconsumed, List.length_append, hlen,
        List.flatten_append, List.length_append, List.flatten_singleton]
    have hpostpre : t.post.consumed <+: m.upToDeviceName ++ m.nameChars := by
      rw [← MessageGET_REPLY.serialize_eq h]
      exact (List.prefix_append _ _).trans
        ((StreamReader.consumed_append_unread hend).symm ▸ hbefore)
    have htake := List.prefix_iff_eq_take.mp hpostpre
    rwa [hpostlen, List.take_left] at htake
  · rcases hK with hK | hK
    · rw [hstage] at hK
      cases hK
    · rw [hstage] at hK
      cases hK

/-- A run in which a whole reply has arrived has looked the query up once it is at rest. -/
theorem answers_at_rest (h : m.Readable) (hrun : Run (reader outstanding).system tr s)
    (hfail : ∀ t ∈ tr, t.event ≠ .fail) (harrived : Feed.arrived tr = m.serialize)
    (hrest : (reader outstanding).complete s = none) :
    answers s.emitted = [.reply (replyId m) m.hostAddress.hostName.length m.chunk₅] := by
  have hprogress := progress_of_reply h hrun hfail (harrived ▸ List.prefix_rfl)
  have hasks : (reader outstanding).Asks (reader outstanding).start (chunks m) :=
    StreamReader.asks_of_before fun _ _ _ hc => (before_chunk outstanding h hc).1
  have hall : s.consumed ++ s.unread = (chunks m).flatten ++ m.nameChars := by
    rw [StreamReader.consumed_append_unread hrun, harrived, flatten_chunks,
      MessageGET_REPLY.serialize_eq h]
  obtain ⟨more, later, -, hQ, -, hemitted⟩ := StreamReader.past_of_rest hasks hprogress hall hrest
  rw [hemitted]
  exact answers_past h hQ

end

/-- The number of reads that are still to come. -/
def readsLeft (r : HaReplyReader) : ℕ :=
  match r.stage with
  | .desthostlen => 6
  | .srchostlen => 5
  | .absheader => 4
  | .replyhostlen => 3
  | .devicenamelen => 2
  | .devicename => 1
  | .closed => 0

/-- Every read but the last is followed by a later one, or closes the connection. -/
theorem readsLeft_handle_lt {r : HaReplyReader} (hwant : (reader outstanding).want r = some 0) :
    readsLeft ((reader outstanding).handle r []).1 < readsLeft r := by
  have hopen : r.stage ≠ .closed := by
    intro h
    simp [reader, h] at hwant
  simp only [reader]
  cases hstage : r.stage with
  | desthostlen => simp [readsLeft, hstage, handleReadToDesthostlen, AbsMessage.absReply]
  | srchostlen => simp [readsLeft, hstage, handleReadToSrchostlen, trailingInt]
  | absheader => simp [readsLeft, hstage, handleAbsheaderRead, next]
  | replyhostlen => simp [readsLeft, hstage, handleReadToReplyhostlen, trailingInt]
  | devicenamelen => simp [readsLeft, hstage, handleReadToDevicenamelen, trailingInt]
  | devicename => simp [readsLeft, hstage]
  | closed => exact absurd hstage hopen

/-- **The home agent and the gateway agree on GET_REPLY**, up to a NUL in the address.  However
a serialized reply arrives: the query is looked up under the sequence number when exactly the
bytes before the device name have been read; nothing else ever happens to a gateway; and
once the reply has arrived and no read can complete, the query has been completed as the part
of the address before its first NUL calls for, which the remaining reads lead to. -/
theorem gateway_reads_reply (outstanding : UInt16 → Bool) (m : MessageGET_REPLY)
    (h : m.Readable) {tr : List (Transition (Feed HaReplyReader HaAction) FeedEvent)}
    {s : Feed HaReplyReader HaAction} (hrun : Run (reader outstanding).system tr s)
    (hfail : ∀ t ∈ tr, t.event ≠ .fail) (harrived : Feed.arrived tr <+: m.serialize) :
    (∀ t ∈ tr, t.event = .complete → t.pre.reader.stage = .devicenamelen →
      t.post.consumed = m.upToDeviceName) ∧
    (∀ cfg g, s.emitted.foldl (perform cfg) g = g ∨
      s.emitted.foldl (perform cfg) g = g.removeAndComplete (replyId m)
        (replyOutcome cfg.fromString cfg.ttl m.hostAddress.hostName)) ∧
    (Feed.arrived tr = m.serialize → (reader outstanding).complete s = none →
      ∀ cfg g, s.emitted.foldl (perform cfg) g = g.removeAndComplete (replyId m)
        (replyOutcome cfg.fromString cfg.ttl m.hostAddress.hostName)) ∧
    (∃ tr' s', Run (reader outstanding).system (tr ++ tr') s' ∧
      (∀ t ∈ tr', t.event = .complete) ∧ (reader outstanding).complete s' = none) :=
  ⟨fun _ ht hc hs => consumed_at_lookup h hrun hfail harrived ht hc hs,
    perform_of_progress h (progress_of_reply h hrun hfail harrived),
    fun hall hrest => perform_reply h (answers_at_rest h hrun hfail hall hrest),
    StreamReader.exists_quiescent readsLeft (fun _ hwant => readsLeft_handle_lt hwant) hrun⟩

/-! ## An address with a NUL -/

/-- A reply with the address `1.2.3.4`, a NUL and an `x`. -/
def nulReply : MessageGET_REPLY where
  messageType := 43
  sequenceNo := 7
  destHost := []
  destPort := 0
  sourceHost := []
  sourcePort := 0
  overlayHops := 0
  overlayTtl := 0
  ipHops := 0
  latency := 0
  dstOid := ⟨0, 0, 0⟩
  srcOid := ⟨0, 0, 0⟩
  resolutionStatus := 0
  resolutionHops := 0
  resolutionIpHops := 0
  resolutionLatency := 0
  originSeqNo := 0
  targetOid := ⟨0, 0, 0⟩
  hostAddress := ⟨[0x31, 0x2E, 0x32, 0x2E, 0x33, 0x2E, 0x34, 0, 0x78], 0⟩
  deviceName := [0x68]

/-- `from_string`, where it is asked about the text `1.2.3.4`. -/
def parseSample (text : Bytes) : Option IpAddress :=
  if text = [0x31, 0x2E, 0x32, 0x2E, 0x33, 0x2E, 0x34] then some (.v4 #v[1, 2, 3, 4]) else none

theorem nulReply_readable : nulReply.Readable := ⟨rfl, by decide, by decide, by decide, by decide⟩

/-- The whole reply arrives in one segment. -/
def nulSegment : Transition (Feed HaReplyReader HaAction) FeedEvent :=
  ⟨(reader fun _ => true).initial, .arrive nulReply.serialize,
    (reader fun _ => true).initial.arrive nulReply.serialize⟩

theorem nulSegment_run : Run (reader fun _ => true).system [nulSegment] nulSegment.post :=
  (Run.start rfl).extend rfl

theorem arrived_nulSegment : Feed.arrived [nulSegment] = nulReply.serialize := List.append_nil _

/-- **An address with a NUL can succeed**: the whole is no address, but it is answered. -/
theorem nul_address_answered : parseSample nulReply.hostAddress.hostName = none ∧
    ∃ tr s, Run (reader fun _ => true).system tr s ∧ Feed.arrived tr = nulReply.serialize ∧
      answers s.emitted = [.reply 7 9 nulReply.chunk₅] ∧
      ∀ query, (completion parseSample 60 9 nulReply.chunk₅ query).rcode = .success := by
  obtain ⟨tr, s, hrun, hcomplete, hrest⟩ := StreamReader.exists_quiescent readsLeft
    (fun _ hwant => readsLeft_handle_lt hwant) nulSegment_run
  have harrived : Feed.arrived ([nulSegment] ++ tr) = nulReply.serialize := by
    rw [Feed.arrived_append, arrived_nulSegment, Feed.arrived_of_complete hcomplete,
      List.append_nil]
  have hfail : ∀ t ∈ [nulSegment] ++ tr, t.event ≠ .fail := by
    refine List.forall_mem_append.mpr ⟨List.forall_mem_singleton.mpr (by simp [nulSegment]), ?_⟩
    intro t ht
    rw [hcomplete t ht]
    simp
  refine ⟨by decide, _, s, hrun, harrived,
    answers_at_rest nulReply_readable hrun hfail harrived hrest, fun query => ?_⟩
  have hcompletion := completion_chunk₅ nulReply_readable parseSample 60
  rw [show (9 : ℕ) = nulReply.hostAddress.hostName.length from rfl, hcompletion]
  rfl

theorem nulReply_read : ∃ tr s, Run (reader fun _ => true).system tr s ∧
    Feed.arrived tr = nulReply.serialize ∧ ∀ cfg g, s.emitted.foldl (perform cfg) g = g ∨
      s.emitted.foldl (perform cfg) g = g.removeAndComplete (replyId nulReply)
        (replyOutcome cfg.fromString cfg.ttl nulReply.hostAddress.hostName) := by
  obtain ⟨-, hperform, -⟩ := gateway_reads_reply _ nulReply nulReply_readable nulSegment_run
    (List.forall_mem_singleton.mpr (by simp [nulSegment])) (arrived_nulSegment ▸ List.prefix_rfl)
  exact ⟨_, _, nulSegment_run, arrived_nulSegment, hperform⟩

end HaReplyReader
