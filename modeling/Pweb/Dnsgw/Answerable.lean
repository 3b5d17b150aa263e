/-
# Can every accepted query be answered?

A reply repeats the question, answer and authority sections that were received,
plus one address record for a success.  The parser counts only the label bytes
of a name towards the limit of 255, the writer counts the dots of its string as
well; and nobody reserves room for the record.  So composing the reply can throw:

* `accepted_query_answerable_iff` : the exact condition under which it does not;
* `accepted_query_not_always_answerable` : 128 labels of one byte, which no reply
  can repeat.
-/
import Pweb.Dnsgw.QuestionEcho
import Pweb.Dnsgw.HaRecvConnection

open ProtocolHelper DnsQueryParser ByteOrder Tokens Wire

/-! ## Completions -/

/-- The ways the gateway completes a query: with an error, whatever metric it leaves,
or with an address once `write_abs_get` has succeeded for the query. -/
inductive CompletedAs (query : DnsQuery) : Option IpAddress → DnsQuery → Prop
  | error (metric : Metric) (rcode : Rcode) (result : MetricResult) (h : rcode ≠ .success) :
      CompletedAs query none ({ query with metric := metric }.complete rcode result)
  | address (suffixes : List Bytes) (size : ℕ) (pre out : Bytes) (addr : IpAddress) (ttl : UInt16)
      (hne : query.questions ≠ [])
      (h : (AbsMessage.writeAbsGet query suffixes size pre).1 = .ok out) :
      CompletedAs query (some addr)
        (((AbsMessage.writeAbsGet query suffixes size pre).2.addAnswer
          (answerRr query.firstName addr ttl)).complete .success .success)

/-- The data bytes of an address record. -/
def IpAddress.rdlength : IpAddress → ℕ
  | .v4 _ => 4
  | .v6 _ => 16

/-- No name that a reply repeats is longer than the writer allows. -/
structure DnsQuery.NamesFit (query : DnsQuery) : Prop where
  questions : ∀ question ∈ query.questions, question.name.length ≤ 255
  answers : ∀ rr ∈ query.answers, rr.name.length ≤ 255
  authorities : ∀ rr ∈ query.authorities, rr.name.length ≤ 255

/-! ## The room a reply takes -/

/-- A name takes the bytes of its nonempty pieces between dots, one more for each of
these pieces and one for the end. -/
def nameRoom (name : Bytes) : ℕ := ((tokenize dot name).map fun t => t.length + 1).sum + 1

def DnsQuestion.room (question : DnsQuestion) : ℕ := nameRoom question.name + 4

def DnsRr.room (rr : DnsRr) : ℕ := nameRoom rr.name + 10 + rr.rdata.length

/-- The room of the sections of an accepted query, whose additional section is empty. -/
def DnsQuery.room (query : DnsQuery) : ℕ :=
  (query.questions.map DnsQuestion.room).sum + (query.answers.map DnsRr.room).sum +
    (query.authorities.map DnsRr.room).sum

/-- The room of the record that a completion adds. -/
def addedRoom (query : DnsQuery) : Option IpAddress → ℕ
  | none => 0
  | some addr => nameRoom query.firstName + 10 + addr.rdlength

theorem length_encodeName (name : Bytes) : (encodeName name).length = nameRoom name := by
  rw [encodeName, length_encodeLabels]
  rfl

/-! ## The address record -/

theorem answerRr_name (name : Bytes) (addr : IpAddress) (ttl : UInt16) :
    (answerRr name addr ttl).name = name := by
  cases addr <;> rfl

theorem writable_answerRr_iff (name : Bytes) (addr : IpAddress) (ttl : UInt16) :
    (answerRr name addr ttl).Writable ↔ WritableName name := by
  constructor
  · intro h
    rw [← answerRr_name name addr ttl]
    exact h.name
  · intro h
    cases addr with
    | v4 bytes => exact ⟨h, by simp [answerRr]⟩
    | v6 bytes => exact ⟨h, by simp [answerRr]⟩

theorem length_encode_answerRr (name : Bytes) (addr : IpAddress) (ttl : UInt16) :
    (answerRr name addr ttl).encode.length = nameRoom name + 10 + addr.rdlength := by
  cases addr with
  | v4 bytes => simp [answerRr, DnsRr.encode, length_encodeName, IpAddress.rdlength]
  | v6 bytes => simp [answerRr, DnsRr.encode, length_encodeName, IpAddress.rdlength]

theorem length_encode_addAnswer (query : DnsQuery) (rr : DnsRr) :
    (query.addAnswer rr).encode.length = query.encode.length + rr.encode.length := by
  simp only [DnsQuery.encode, DnsQuery.encodeQuestions, DnsQuery.addAnswer, List.length_append,
    List.flatMap_append, List.flatMap_singleton]
  omega

theorem writable_addAnswer_iff (query : DnsQuery) (rr : DnsRr) :
    (query.addAnswer rr).Writable ↔ query.Writable ∧ rr.Writable := by
  constructor
  · intro h
    have hans := List.forall_mem_append.mp h.answers
    exact ⟨⟨h.questions, hans.1, h.authorities, h.additionals⟩, hans.2 rr List.mem_cons_self⟩
  · rintro ⟨h, hrr⟩
    exact ⟨h.questions, List.forall_mem_append.mpr ⟨h.answers, List.forall_mem_singleton.mpr hrr⟩,
      h.authorities, h.additionals⟩

/-! ## Completed queries -/

/-- `encode` only looks at the sections. -/
theorem encode_complete (query : DnsQuery) (metric : Metric) (rcode : Rcode)
    (result : MetricResult) :
    ({ query with metric := metric }.complete rcode result).encode = query.encode := rfl

/-- `Writable` only looks at the sections. -/
theorem writable_complete_iff (query : DnsQuery) (metric : Metric) (rcode : Rcode)
    (result : MetricResult) :
    ({ query with metric := metric }.complete rcode result).Writable ↔ query.Writable :=
  ⟨fun h => ⟨h.questions, h.answers, h.authorities, h.additionals⟩,
    fun h => ⟨h.questions, h.answers, h.authorities, h.additionals⟩⟩

theorem firstName_writable {query : DnsQuery} (hne : query.questions ≠ []) (h : query.Writable) :
    WritableName query.firstName := by
  unfold DnsQuery.firstName
  split
  next hnil => exact absurd hnil hne
  next question rest hcons => exact h.questions question (by rw [hcons]; exact List.mem_cons_self)

/-- Composing a completed query succeeds exactly when the query could be written back
and the reply fits. -/
theorem CompletedAs.composes_iff {query query' : DnsQuery} {addr? : Option IpAddress}
    (h : CompletedAs query addr? query') (size : ℕ) :
    (∃ out, composeDnsResponse query' size = .ok out) ↔
      query.Writable ∧ query.encode.length + addedRoom query addr? ≤ size := by
  rw [composeDnsResponse_succeeds_iff, DnsQuery.fitsInto_iff]
  cases h with
  | error metric rcode result hrcode =>
      rw [writable_complete_iff, encode_complete, addedRoom, Nat.add_zero]
  | address suffixes cap pre out addr ttl hne hget =>
      obtain ⟨metric, hmetric⟩ := AbsMessage.writeAbsGet_query query suffixes cap pre
      rw [hmetric]
      -- the metric is not written, so it can be put back before the record is added
      have hq : ({ query with metric := metric }.addAnswer
          (answerRr query.firstName addr ttl)).complete .success .success
          = { query.addAnswer (answerRr query.firstName addr ttl) with
              metric := metric }.complete .success .success := rfl
      rw [hq, writable_complete_iff, encode_complete, writable_addAnswer_iff,
        length_encode_addAnswer, writable_answerRr_iff, length_encode_answerRr,
        addedRoom]
      constructor
      · rintro ⟨⟨hw, -⟩, hfit⟩
        exact ⟨hw, hfit⟩
      · rintro ⟨hw, hfit⟩
        exact ⟨⟨hw, firstName_writable hne hw⟩, hfit⟩

/-! ## Accepted queries -/

theorem writable_decode_rr_iff (r : Rr) : r.decode.Writable ↔ r.decode.name.length ≤ 255 := by
  constructor
  · intro h
    exact h.name.length_le
  · intro h
    exact ⟨(writableName_toString_iff r.name).mpr h, r.toNat_rdlength.le⟩

/-- An accepted query is written back unless a name string is too long. -/
theorem writable_decode_iff (sender : Sender) (header : DnsQueryHeader) (m : Message) :
    (m.decode { sender := sender } header).Writable ↔
      (m.decode { sender := sender } header).NamesFit := by
  constructor
  · intro h
    exact ⟨fun q hq => (h.questions q hq).length_le, fun r hr => (h.answers r hr).name.length_le,
      fun r hr => (h.authorities r hr).name.length_le⟩
  · intro h
    refine ⟨fun question hmem => ?_, fun rr hmem => ?_, fun rr hmem => ?_, fun rr hmem => ?_⟩
    · obtain ⟨q, -, rfl⟩ := List.mem_map.mp hmem
      exact (writableName_toString_iff q.name).mpr (h.questions _ hmem)
    · obtain ⟨r, -, rfl⟩ := List.mem_map.mp hmem
      exact (writable_decode_rr_iff r).mpr (h.answers _ hmem)
    · obtain ⟨r, -, rfl⟩ := List.mem_map.mp hmem
      exact (writable_decode_rr_iff r).mpr (h.authorities _ hmem)
    · cases hmem

/-- What is written back of an accepted query. -/
theorem encode_decode (sender : Sender) (header : DnsQueryHeader) (m : Message) :
    (m.decode { sender := sender } header).encode
      = (m.questions.map Question.decode).flatMap DnsQuestion.encode ++
        ((m.answers.map Rr.decode).flatMap DnsRr.encode ++
          ((m.authorities.map Rr.decode).flatMap DnsRr.encode ++ [])) := rfl

theorem length_encode_decode_question_le (q : Question) :
    q.decode.encode.length ≤ q.encode.length := by
  have hle := length_encodeName_toString_le q.name
  simp only [DnsQuestion.encode, Question.encode, Question.decode, List.length_append]
  omega

theorem length_encode_decode_rr_le (r : Rr) : r.decode.encode.length ≤ r.encode.length := by
  have hle := length_encodeName_toString_le r.name
  simp only [DnsRr.encode, Rr.encode, Rr.decode, List.length_append, List.length_take, length_toBE]
  omega

/-- Pieces that are no longer make up a concatenation that is no longer. -/
theorem length_flatMap_map_le {α β γ : Type} {d : α → β} {f : β → List γ} {g : α → List γ}
    {l : List α} (h : ∀ a ∈ l, (f (d a)).length ≤ (g a).length) :
    ((l.map d).flatMap f).length ≤ (l.flatMap g).length := by
  rw [List.flatMap_map, List.length_flatMap, List.length_flatMap]
  exact List.sum_le_sum h

/-- Writing an accepted query back takes no more bytes than its body had. -/
theorem length_encode_decode_le (sender : Sender) (header : DnsQueryHeader) (m : Message) :
    (m.decode { sender := sender } header).encode.length ≤ m.encode.length := by
  have hq := length_flatMap_map_le (l := m.questions)
    fun q _ => length_encode_decode_question_le q
  have han := length_flatMap_map_le (l := m.answers) fun r _ => length_encode_decode_rr_le r
  have hau := length_flatMap_map_le (l := m.authorities) fun r _ => length_encode_decode_rr_le r
  rw [encode_decode, Message.encode, Message.encodeQuestions]
  simp only [List.length_append, List.length_nil]
  omega

theorem length_encode_decode_question (q : Question) :
    q.decode.encode.length = q.decode.room := by
  simp only [DnsQuestion.encode, DnsQuestion.room, List.length_append, length_toBE,
    length_encodeName]

theorem length_encode_decode_rr (r : Rr) : r.decode.encode.length = r.decode.room := by
  have hrd : r.decode.rdlength.toNat = r.decode.rdata.length := r.toNat_rdlength
  simp only [DnsRr.encode, DnsRr.room, List.length_append, length_toBE, length_encodeName, hrd,
    List.length_take, Nat.min_self]
  omega

/-- The room of an accepted query is the length it is written back with. -/
theorem length_encode_decode (sender : Sender) (header : DnsQueryHeader) (m : Message) :
    (m.decode { sender := sender } header).encode.length
      = (m.decode { sender := sender } header).room := by
  -- the bytes and the room agree entry by entry, so they agree for each section
  have hrr : ∀ rrs : List Rr, ((rrs.map Rr.decode).flatMap DnsRr.encode).length
      = ((rrs.map Rr.decode).map DnsRr.room).sum := fun rrs => by
    rw [List.length_flatMap, List.map_map, List.map_map]
    exact congrArg List.sum (List.map_congr_left fun r _ => length_encode_decode_rr r)
  have hq : ((m.questions.map Question.decode).flatMap DnsQuestion.encode).length
      = ((m.questions.map Question.decode).map DnsQuestion.room).sum := by
    rw [List.length_flatMap, List.map_map, List.map_map]
    exact congrArg List.sum (List.map_congr_left fun q _ => length_encode_decode_question q)
  have han := hrr m.answers
  have hau := hrr m.authorities
  have hroom : (m.decode { sender := sender } header).room
      = ((m.questions.map Question.decode).map DnsQuestion.room).sum +
        ((m.answers.map Rr.decode).map DnsRr.room).sum +
          ((m.authorities.map Rr.decode).map DnsRr.room).sum := rfl
  rw [encode_decode, hroom]
  simp only [List.length_append, List.length_nil]
  omega

/-- **When a reply can be composed.**  For a body that is accepted and no longer than the
send buffer, composing the completed query succeeds exactly when no question, answer
or authority name has a string longer than 255 bytes and, for a success, the
sections as they are written back leave room for the address record. -/
theorem accepted_query_answerable_iff (sender : Sender) (header : DnsQueryHeader) (body : Bytes)
    (query query' : DnsQuery) (addr? : Option IpAddress) (size : ℕ)
    (hparse : parseDnsQuery { sender := sender } header body = .ok query)
    (hsize : body.length ≤ size) (hcompleted : CompletedAs query addr? query') :
    (∃ out, composeDnsResponse query' size = .ok out) ↔
      query.NamesFit ∧ ∀ addr, addr? = some addr →
        query.room + (nameRoom query.firstName + 10 + addr.rdlength) ≤ size := by
  rw [hcompleted.composes_iff]
  obtain ⟨m, -, rfl, rfl⟩ := (parseDnsQuery_eq_ok_iff _ header body query).mp hparse
  rw [writable_decode_iff, ← length_encode_decode]
  refine and_congr_right fun _ => ?_
  cases addr? with
  | none =>
      have hle := length_encode_decode_le sender header m
      exact iff_of_true (hle.trans hsize) (by simp)
  | some addr => simp [addedRoom]

/-! ## A name no reply can repeat -/

/-- 128 labels of one byte: 128 label bytes, but a string of 256 characters. -/
def longName : Name where
  labels := List.replicate 128 [97]
  valid l hl := by
    rw [List.eq_of_mem_replicate hl]
    decide
  sum_le := by simp

/-- The question for the A record of `longName`. -/
def longNameMessage : Message := ⟨[⟨longName, tA, cIn⟩], [], [], []⟩

/-- The query it is parsed into. -/
def longNameQuery : DnsQuery := longNameMessage.decode { sender := .tcp 0 } oneQuestionHeader

theorem longNameMessage_announced : longNameMessage.Announced oneQuestionHeader :=
  ⟨by decide, by decide, by decide, by decide⟩

theorem parse_longName : parseDnsQuery { sender := .tcp 0 } oneQuestionHeader
    longNameMessage.encode = .ok longNameQuery :=
  (parseDnsQuery_eq_ok_iff _ _ _ _).mpr ⟨longNameMessage, longNameMessage_announced, rfl, rfl⟩

theorem length_longNameMessage : longNameMessage.encode.length = 261 := by decide +kernel

theorem longNameQuery_not_writable : ¬ longNameQuery.Writable := by
  intro h
  have hle := (h.questions ⟨longName.toString, tA, cIn⟩ List.mem_cons_self).length_le
  revert hle
  decide +kernel

/-- An accepted query that timed out need not have a reply. -/
theorem accepted_query_not_always_answerable :
    ¬ ∀ (sender : Sender) (header : DnsQueryHeader) (body : Bytes) (query query' : DnsQuery)
        (addr? : Option IpAddress) (size : ℕ), (size = 500 ∨ size = 1024) →
      parseDnsQuery { sender := sender } header body = .ok query → body.length ≤ size →
      CompletedAs query addr? query' → ∃ out, composeDnsResponse query' size = .ok out := by
  intro h
  have hcompleted : CompletedAs longNameQuery none _ :=
    .error longNameQuery.metric .nameError .timeout (by decide)
  have hout := h (.tcp 0) oneQuestionHeader longNameMessage.encode longNameQuery _ none 500
    (.inl rfl) parse_longName (by rw [length_longNameMessage]; decide) hcompleted
  exact longNameQuery_not_writable ((hcompleted.composes_iff 500).mp hout).1

/-- The suffix list of a gateway for the domain `b`. -/
def sampleSuffixes : List Bytes := [[98, dot]]

/-- 192.0.2.7. -/
def sampleAddress : IpAddress := .v4 #v[192, 0, 2, 7]

theorem plainLabelQuery_namesFit : plainLabelQuery.NamesFit :=
  ⟨by decide, by decide, by decide⟩

/-- The question `ab` is answered with its address. -/
theorem plainLabel_answerable : ∃ out, composeDnsResponse
    (((AbsMessage.writeAbsGet plainLabelQuery sampleSuffixes 256 []).2.addAnswer
      (answerRr plainLabelQuery.firstName sampleAddress 3600)).complete .success .success) 500
      = .ok out :=
  (accepted_query_answerable_iff (.tcp 0) oneQuestionHeader plainLabelBody plainLabelQuery _
    (some sampleAddress) 500 (by decide +kernel) (by decide)
    (.address sampleSuffixes 256 [] [1, 0, 0, 0, 97] sampleAddress 3600 (by decide)
      (by decide +kernel))).mpr
    ⟨plainLabelQuery_namesFit, by rintro addr ⟨⟩; decide +kernel⟩
