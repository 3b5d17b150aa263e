/-
# What the composer emits

The bytes a query's sections are written as (`DnsQuery.encode`) and the names
and records the writer refuses (`DnsQuery.Writable`), stated without the buffer.
`composeDnsResponse_eq_ok_iff` : composing succeeds exactly when the query is
writable and its encoding fits into the buffer, and then writes that encoding.
-/
import Pweb.Dnsgw.WireFormat

open ProtocolHelper DnsQueryParser ByteOrder Tokens Wire

/-! ## Encodings -/

/-- The bytes of a name string: its tokens as labels. -/
def encodeName (name : Bytes) : Bytes := encodeLabels (tokenize dot name)

/-- Names `write_name` does not refuse. -/
structure WritableName (name : Bytes) : Prop where
  length_le : name.length ≤ 255
  label_le : ∀ t ∈ tokenize dot name, t.length ≤ 63

def DnsQuestion.encode (question : DnsQuestion) : Bytes :=
  encodeName question.name ++ (toBE 2 question.qtype.toNat ++ toBE 2 question.qclass.toNat)

def DnsRr.encode (rr : DnsRr) : Bytes :=
  encodeName rr.name ++ (toBE 2 rr.rtype.toNat ++ (toBE 2 rr.rclass.toNat ++
    (toBE 4 rr.ttl.toNat ++ (toBE 2 rr.rdlength.toNat ++ rr.rdata.take rr.rdlength.toNat))))

/-- Records `write_rr` does not refuse. -/
structure DnsRr.Writable (rr : DnsRr) : Prop where
  name : WritableName rr.name
  rdata : rr.rdlength.toNat ≤ rr.rdata.length

/-- The bytes of the question section. -/
def DnsQuery.encodeQuestions (query : DnsQuery) : Bytes :=
  query.questions.flatMap DnsQuestion.encode

/-- The bytes of the four sections. -/
def DnsQuery.encode (query : DnsQuery) : Bytes :=
  query.encodeQuestions ++ (query.answers.flatMap DnsRr.encode ++
    (query.authorities.flatMap DnsRr.encode ++ query.additionals.flatMap DnsRr.encode))

/-- Queries none of whose sections the writer refuses. -/
structure DnsQuery.Writable (query : DnsQuery) : Prop where
  questions : ∀ question ∈ query.questions, WritableName question.name
  answers : ∀ rr ∈ query.answers, rr.Writable
  authorities : ∀ rr ∈ query.authorities, rr.Writable
  additionals : ∀ rr ∈ query.additionals, rr.Writable

/-! ## Emission -/

theorem emits_writeLabelLen (len : ℕ) :
    Emits (writeLabelLen len) (len ≤ 63) [UInt8.ofNat len] :=
  (Emits.throwAtEnd_throwIf_put _ _ (len > 63) _).congr (by omega) rfl

theorem emits_writeLabel (label : Bytes) :
    Emits (writeLabel label) (label.length ≤ 63) (UInt8.ofNat label.length :: label) :=
  ((emits_writeLabelLen label.length).bind (Emits.throwIfShort_put _ label)).congr
    (by simp) rfl

theorem emits_writeName (name : Bytes) :
    Emits (writeName name) (WritableName name) (encodeName name) := by
  refine (Emits.throwIf fun _ => (Emits.forEach emits_writeLabel (tokenize dot name)).bind
    (Emits.throwAtEnd_put unexpectedEndOfMessage 0)).congr ⟨?_, ?_⟩ rfl
  · rintro ⟨hle, hlabels, -⟩
    exact ⟨by omega, hlabels⟩
  · intro h
    exact ⟨by have := h.length_le; omega, h.label_le, trivial⟩

theorem emits_writeQuestion (question : DnsQuestion) :
    Emits (writeQuestion question) (WritableName question.name) question.encode :=
  ((emits_writeName question.name).bind
    ((emits_writeShort question.qtype).bind (emits_writeShort question.qclass))).congr
    (by simp) rfl

theorem emits_writeRdata (rr : DnsRr) :
    Emits (writeRdata rr) (rr.rdlength.toNat ≤ rr.rdata.length)
      (rr.rdata.take rr.rdlength.toNat) := by
  have hput := Emits.throwIfShort_put unexpectedEndOfMessage (rr.rdata.take rr.rdlength.toNat)
  refine (Emits.throwIf fun hle => ?_).congr ((and_iff_left trivial).trans (by omega)) rfl
  rwa [List.length_take, Nat.min_eq_left (by omega)] at hput

theorem emits_writeRr (rr : DnsRr) : Emits (writeRr rr) rr.Writable rr.encode := by
  refine ((emits_writeName rr.name).bind ((emits_writeShort rr.rtype).bind
    ((emits_writeShort rr.rclass).bind ((emits_writeUlong rr.ttl).bind
      ((emits_writeShort rr.rdlength).bind (emits_writeRdata rr)))))).congr ⟨?_, ?_⟩ rfl
  · rintro ⟨hname, -, -, -, -, hrdata⟩
    exact ⟨hname, hrdata⟩
  · intro h
    exact ⟨h.name, trivial, trivial, trivial, trivial, h.rdata⟩

theorem emits_writeQuestions (query : DnsQuery) :
    Emits (writeQuestions query) (∀ question ∈ query.questions, WritableName question.name)
      query.encodeQuestions :=
  Emits.forEach emits_writeQuestion query.questions

theorem emits_writeSections (query : DnsQuery) :
    Emits (writeSections query) query.Writable query.encode := by
  refine ((emits_writeQuestions query).bind ((Emits.forEach emits_writeRr query.answers).bind
    ((Emits.forEach emits_writeRr query.authorities).bind
      (Emits.forEach emits_writeRr query.additionals)))).congr ⟨?_, ?_⟩ rfl
  · rintro ⟨hq, han, hau, had⟩
    exact ⟨hq, han, hau, had⟩
  · intro h
    exact ⟨h.questions, h.answers, h.authorities, h.additionals⟩

/-- **Composing succeeds** exactly when no section is refused and all of them fit. -/
theorem composeDnsResponse_eq_ok_iff (query : DnsQuery) (size : ℕ) (out : Bytes) :
    composeDnsResponse query size = .ok out ↔
      query.Writable ∧ query.encode.length ≤ size ∧ out = query.encode := by
  have h : writeSections query size [] = .ok ((), out) ↔ _ :=
    (emits_writeSections query).eq_ok_iff (by simp)
  simp only [List.length_nil, Nat.zero_add, List.nil_append] at h
  rw [← h, composeDnsResponse]
  cases writeSections query size [] with
  | error e => simp
  | ok r => simp [Prod.ext_iff]

/-- Queries whose reply fits into `size` bytes. -/
structure DnsQuery.FitsInto (query : DnsQuery) (size : ℕ) : Prop where
  writable : query.Writable
  length_le : query.encode.length ≤ size

theorem DnsQuery.fitsInto_iff (query : DnsQuery) (size : ℕ) :
    query.FitsInto size ↔ query.Writable ∧ query.encode.length ≤ size :=
  ⟨fun h => ⟨h.writable, h.length_le⟩, fun h => ⟨h.1, h.2⟩⟩

theorem composeDnsResponse_succeeds_iff (query : DnsQuery) (size : ℕ) :
    (∃ out, composeDnsResponse query size = .ok out) ↔ query.FitsInto size := by
  constructor
  · rintro ⟨out, hout⟩
    obtain ⟨hw, hfit, -⟩ := (composeDnsResponse_eq_ok_iff query size out).mp hout
    exact ⟨hw, hfit⟩
  · intro h
    exact ⟨_, (composeDnsResponse_eq_ok_iff query size _).mpr ⟨h.writable, h.length_le, rfl⟩⟩

/-- A composition that fails throws: it never writes beyond the buffer. -/
theorem composeDnsResponse_error {query : DnsQuery} {size : ℕ} {e : Fault Exn}
    (he : composeDnsResponse query size = .error e) : ∃ exn, e = .thrown exn := by
  by_cases hfit : query.Writable ∧ ([] : Bytes).length + query.encode.length ≤ size
  · have hok := (composeDnsResponse_eq_ok_iff query size query.encode).mpr
      ⟨hfit.1, by simpa using hfit.2, rfl⟩
    rw [hok] at he
    cases he
  · obtain ⟨exn, hexn⟩ := (emits_writeSections query).throws (Nat.zero_le size) hfit
    rw [composeDnsResponse, hexn] at he
    cases he
    exact ⟨exn, rfl⟩

/-! ## Writing back what was received -/

/-- Writing a name back never takes more bytes than it was received in. -/
theorem length_encodeName_toString_le (n : Name) :
    (encodeName n.toString).length ≤ n.encode.length := by
  rw [encodeName, Name.encode, length_encodeLabels, length_encodeLabels]
  exact Nat.succ_le_succ (cost_tokenize_le dot n.labels)

/-- A tokenized name string is a list of valid labels again. -/
theorem validLabels_tokenize_toString (n : Name) : ValidLabels (tokenize dot n.toString) := by
  intro t ht
  rw [Name.toString, tokenize_terminate, List.mem_flatMap] at ht
  obtain ⟨l, hl, ht⟩ := ht
  have hmem := mem_tokenize ht
  exact ⟨hmem.1, hmem.2.2.trans (n.valid l hl).2⟩

/-- A received name is written back unless its string is too long. -/
theorem writableName_toString_iff (n : Name) :
    WritableName n.toString ↔ n.toString.length ≤ 255 :=
  ⟨fun h => h.length_le, fun h => ⟨h, fun t ht => (validLabels_tokenize_toString n t ht).2⟩⟩
