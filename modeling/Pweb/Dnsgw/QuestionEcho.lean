/-
# Is the question echoed unchanged?

A resolver discards a reply whose question section differs from the one it
sent.  The parser turns labels into a dotted string and the composer cuts that
string at its dots again, so a dot inside a label comes back as a label
boundary: the question section is echoed byte for byte exactly when no label of
it contains the byte 0x2E (`question_section_echoed_iff`).
-/
import Pweb.Dnsgw.ParserGrammar
import Pweb.Dnsgw.ComposerEmission

open ProtocolHelper DnsQueryParser ByteOrder Tokens Wire

/-! ## The two question sections -/

/-- The bytes of the body that the question loop of `parse_dns_query` consumes. -/
def receivedQuestionSection (query : DnsQuery) (header : DnsQueryHeader) (body : Bytes) : Bytes :=
  match ByteReader.forLoop parseQuestion header.qdcount.toNat query body 0 with
  | .ok (_, buf) => body.take buf
  | .error _ => []

/-- The bytes that the question loop of `compose_dns_response` writes. -/
def writtenQuestionSection (query : DnsQuery) (size : ℕ) : Bytes :=
  match writeQuestions query size [] with
  | .ok (_, out) => out
  | .error _ => []

/-- No label of the message's question section contains a dot. -/
def Wire.Message.QuestionsDotFree (m : Message) : Prop :=
  ∀ q ∈ m.questions, ∀ l ∈ q.name.labels, dot ∉ l

theorem receivedQuestionSection_encode (query : DnsQuery) {header : DnsQueryHeader} {m : Message}
    (hm : m.Announced header) :
    receivedQuestionSection query header m.encode = m.encodeQuestions := by
  have h := (recognizes_questionLoop query header.qdcount.toNat).complete []
    (m.answers.flatMap Rr.encode ++
      (m.authorities.flatMap Rr.encode ++ m.additionals.flatMap Rr.encode))
    ⟨m.questions, hm.questions, rfl, rfl⟩
  simp only [List.nil_append, List.length_nil, Nat.zero_add] at h
  rw [receivedQuestionSection, Message.encode, Message.encodeQuestions, h]
  exact List.take_left

/-- A composition that succeeds starts with the encoded questions. -/
theorem writtenQuestionSection_eq {query : DnsQuery} {size : ℕ} {out : Bytes}
    (h : composeDnsResponse query size = .ok out) :
    writtenQuestionSection query size = query.encodeQuestions ∧ query.encodeQuestions <+: out := by
  obtain ⟨hw, hfit, rfl⟩ := (composeDnsResponse_eq_ok_iff query size out).mp h
  have hle : query.encodeQuestions.length ≤ size := by
    rw [DnsQuery.encode, List.length_append] at hfit
    omega
  have hrun : writeQuestions query size [] = .ok ((), [] ++ query.encodeQuestions) :=
    (emits_writeQuestions query).run hw.questions (by simpa using hle)
  rw [writtenQuestionSection, hrun, List.nil_append]
  exact ⟨rfl, List.prefix_append _ _⟩

/-! ## When the two agree -/

/-- Two concatenations of pieces, one piecewise no longer than the other, agree
only if all pieces agree. -/
theorem eq_of_flatMap_eq {α β : Type} {f g : α → List β} : ∀ {l : List α},
    (∀ a ∈ l, (f a).length ≤ (g a).length) → l.flatMap f = l.flatMap g →
      ∀ a ∈ l, f a = g a := by
  intro l
  induction l with
  | nil => intro _ _ a ha; cases ha
  | cons b l ih =>
      intro hle heq
      obtain ⟨hb, hl⟩ := List.forall_mem_cons.mp hle
      have hrest : (l.flatMap f).length ≤ (l.flatMap g).length := by
        rw [List.length_flatMap, List.length_flatMap]
        exact List.sum_le_sum hl
      rw [List.flatMap_cons, List.flatMap_cons] at heq
      have hlen := congrArg List.length heq
      rw [List.length_append, List.length_append] at hlen
      obtain ⟨hhead, htail⟩ := List.append_inj heq (by omega)
      exact List.forall_mem_cons.mpr ⟨hhead, ih hl htail⟩

theorem encodeName_toString_eq_iff (n : Name) :
    encodeName n.toString = n.encode ↔ ∀ l ∈ n.labels, dot ∉ l := by
  rw [← tokenize_terminate_eq_iff fun l hl => (n.valid l hl).1]
  constructor
  · intro h
    exact encodeLabels_injective (validLabels_tokenize_toString n) n.valid h
  · intro h
    exact congrArg encodeLabels h

theorem encode_decode_question_eq_iff (q : Question) :
    q.decode.encode = q.encode ↔ ∀ l ∈ q.name.labels, dot ∉ l := by
  rw [← encodeName_toString_eq_iff]
  constructor
  · intro h
    have hlen := congrArg List.length h
    simp only [DnsQuestion.encode, Question.encode, Question.decode, List.length_append] at h hlen
    exact (List.append_inj h (by omega)).1
  · intro h
    rw [DnsQuestion.encode, Question.encode, Question.decode, h]

/-- The questions of a message are written back as received exactly when they are
free of dots. -/
theorem encodeQuestions_decode_eq_iff (m : Message) :
    (m.questions.map Question.decode).flatMap DnsQuestion.encode = m.encodeQuestions ↔
      m.QuestionsDotFree := by
  rw [List.flatMap_map, Message.encodeQuestions]
  constructor
  · intro h q hq
    refine (encode_decode_question_eq_iff q).mp (eq_of_flatMap_eq (fun q' _ => ?_) h q hq)
    have hle := length_encodeName_toString_le q'.name
    simp only [DnsQuestion.encode, Question.encode, Question.decode, List.length_append]
    omega
  · intro h
    exact List.flatMap_congr fun q hq => (encode_decode_question_eq_iff q).mpr (h q hq)

/-- **The echo.**  When a message body is accepted and the parsed query can be
composed, the question section written equals the one received, byte for byte,
exactly when no label of the received question section contains a dot. -/
theorem question_section_echoed_iff (sender : Sender) (header : DnsQueryHeader) (body : Bytes)
    (query : DnsQuery) (size : ℕ) (out : Bytes)
    (hparse : parseDnsQuery { sender := sender } header body = .ok query)
    (hcompose : composeDnsResponse query size = .ok out) :
    writtenQuestionSection query size
        = receivedQuestionSection { sender := sender } header body ↔
      ∃ m : Message, m.Announced header ∧ body = m.encode ∧ m.QuestionsDotFree := by
  have key : ∀ m : Message, m.Announced header → body = m.encode →
      (writtenQuestionSection query size
          = receivedQuestionSection { sender := sender } header body ↔ m.QuestionsDotFree) := by
    rintro m hm rfl
    have hdecode := (parseDnsQuery_eq_ok_iff { sender := sender } header m.encode _).mpr
      ⟨m, hm, rfl, rfl⟩
    -- the query is the decoding of `m`
    rw [hparse] at hdecode
    cases hdecode
    rw [(writtenQuestionSection_eq hcompose).1, receivedQuestionSection_encode _ hm,
      ← encodeQuestions_decode_eq_iff]
    rfl
  constructor
  · intro hecho
    obtain ⟨m, hm, hbody, -⟩ := (parseDnsQuery_eq_ok_iff _ header body query).mp hparse
    exact ⟨m, hm, hbody, (key m hm hbody).mp hecho⟩
  · rintro ⟨m, hm, hbody, hfree⟩
    exact (key m hm hbody).mpr hfree

/-! ## A dotted label -/

/-- A header that announces one question. -/
def oneQuestionHeader : DnsQueryHeader := ⟨#v[0, 5, 1, 0, 0, 1, 0, 0, 0, 0, 0, 0]⟩

/-- The question for the A record of the one-label name `a.b`. -/
def dottedLabelBody : Bytes := [3, 97, dot, 98, 0, 0, 1, 0, 1]

/-- What the parser makes of it: the name of the two-label question `a`, `b`. -/
def dottedLabelQuery : DnsQuery where
  sender := .tcp 0
  questions := [⟨[97, dot, 98, dot], tA, cIn⟩]
  id := 5
  rd := true

/-- The echo of a label with a dot is a different question. -/
theorem question_section_not_always_echoed :
    ¬ ∀ (sender : Sender) (header : DnsQueryHeader) (body : Bytes) (query : DnsQuery) (size : ℕ)
        (out : Bytes), parseDnsQuery { sender := sender } header body = .ok query →
      composeDnsResponse query size = .ok out →
      writtenQuestionSection query size
        = receivedQuestionSection { sender := sender } header body := by
  intro h
  have hecho := h (.tcp 0) oneQuestionHeader dottedLabelBody dottedLabelQuery 500
    [1, 97, 1, 98, 0, 0, 1, 0, 1] (by decide +kernel) (by decide +kernel)
  revert hecho
  decide +kernel

/-- A question without dots in its labels, `ab`. -/
def plainLabelBody : Bytes := [2, 97, 98, 0, 0, 1, 0, 1]

def plainLabelQuery : DnsQuery :=
  { dottedLabelQuery with questions := [⟨[97, 98, dot], tA, cIn⟩] }

theorem plainLabel_echoed_iff :
    writtenQuestionSection plainLabelQuery 500
        = receivedQuestionSection { sender := .tcp 0 } oneQuestionHeader plainLabelBody ↔
      ∃ m : Message, m.Announced oneQuestionHeader ∧ plainLabelBody = m.encode ∧
        m.QuestionsDotFree :=
  question_section_echoed_iff (.tcp 0) oneQuestionHeader plainLabelBody plainLabelQuery 500
    plainLabelBody (by decide +kernel) (by decide +kernel)
