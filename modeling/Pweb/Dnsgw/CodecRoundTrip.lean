/-
# Round trip of the DNS codec

A query with canonical names is composed exactly when its sections fit into the
buffer, and parsing what was composed, under the composed header, gives the
query back (`compose_parse_round_trip`).  The bridge is that the sections of a
canonical query are the decoding of a wire message with the same bytes
(`DnsQuery.Canonical.exists_message`).
-/
import Pweb.Dnsgw.ParserGrammar
import Pweb.Dnsgw.ComposerEmission

open ProtocolHelper DnsQueryParser ByteOrder Tokens Wire

/-! ## Canonical names -/

/-- A concatenation of labels of 1 to 63 bytes without dots, each followed by a
dot, of string length at most 255. -/
def CanonicalName (name : Bytes) : Prop :=
  ∃ ls : List Bytes, (∀ l ∈ ls, 1 ≤ l.length ∧ l.length ≤ 63 ∧ dot ∉ l) ∧
    name = ls.flatMap (fun l => l ++ [dot]) ∧ name.length ≤ 255

/-- The label bytes of a name string leave out the dots. -/
theorem sum_length_le_cost (ls : List Bytes) : (ls.map List.length).sum ≤ cost ls := by
  induction ls with
  | nil => simp
  | cons l ls ih =>
      rw [List.map_cons, List.sum_cons, cost_cons]
      omega

/-- A canonical name is the string of a wire name, and is written as that name. -/
theorem CanonicalName.exists_name {name : Bytes} (h : CanonicalName name) :
    ∃ n : Name, n.toString = name ∧ n.encode = encodeName name := by
  obtain ⟨ls, hls, rfl, hlen⟩ := h
  have hfree : ∀ l ∈ ls, l ≠ [] ∧ dot ∉ l := fun l hl =>
    ⟨List.ne_nil_of_length_pos (hls l hl).1, (hls l hl).2.2⟩
  have hcost : cost ls ≤ 255 := (length_terminate dot ls).symm.trans_le hlen
  have hsum := sum_length_le_cost ls
  refine ⟨⟨ls, fun l hl => ⟨(hfree l hl).1, (hls l hl).2.1⟩, by omega⟩, rfl, ?_⟩
  exact congrArg encodeLabels (tokenize_terminate_of_free hfree).symm

theorem CanonicalName.writable {name : Bytes} (h : CanonicalName name) : WritableName name := by
  obtain ⟨ls, hls, rfl, hlen⟩ := h
  have hfree : ∀ l ∈ ls, l ≠ [] ∧ dot ∉ l := fun l hl =>
    ⟨List.ne_nil_of_length_pos (hls l hl).1, (hls l hl).2.2⟩
  refine ⟨hlen, fun t ht => ?_⟩
  have htok : tokenize dot (terminate dot ls) = ls := tokenize_terminate_of_free hfree
  rw [← terminate, htok] at ht
  exact (hls t ht).2.1

/-- On the wire a canonical name takes one byte more than its string. -/
theorem CanonicalName.length_encodeName {name : Bytes} (h : CanonicalName name) :
    (encodeName name).length = name.length + 1 := by
  obtain ⟨ls, hls, rfl, hlen⟩ := h
  have hfree : ∀ l ∈ ls, l ≠ [] ∧ dot ∉ l := fun l hl =>
    ⟨List.ne_nil_of_length_pos (hls l hl).1, (hls l hl).2.2⟩
  have htok : tokenize dot (terminate dot ls) = ls := tokenize_terminate_of_free hfree
  rw [encodeName, ← terminate, htok, length_encodeLabels, length_terminate]

/-! ## Canonical queries -/

/-- A record the codec round-trips. -/
structure DnsRr.Canonical (rr : DnsRr) : Prop where
  name : CanonicalName rr.name
  rdlength : rr.rdlength.toNat = rr.rdata.length
  rdata_le : rr.rdata.length ≤ 1024

/-- A query the codec round-trips. -/
structure DnsQuery.Canonical (query : DnsQuery) : Prop where
  questions : ∀ question ∈ query.questions, CanonicalName question.name
  answers : ∀ rr ∈ query.answers, rr.Canonical
  authorities : ∀ rr ∈ query.authorities, rr.Canonical
  additionals : query.additionals = []
  qdcount : query.questions.length ≤ 65535
  ancount : query.answers.length ≤ 65535
  nscount : query.authorities.length ≤ 65535

/-- Wire length of a question: name, type and class. -/
def DnsQuestion.wireLength (question : DnsQuestion) : ℕ := question.name.length + 1 + 4

/-- Wire length of a record: name, type, class, TTL, data length and data. -/
def DnsRr.wireLength (rr : DnsRr) : ℕ := rr.name.length + 1 + 10 + rr.rdata.length

/-- Total wire length of the sections of a query. -/
def DnsQuery.wireLength (query : DnsQuery) : ℕ :=
  (query.questions.map DnsQuestion.wireLength).sum + (query.answers.map DnsRr.wireLength).sum +
    (query.authorities.map DnsRr.wireLength).sum + (query.additionals.map DnsRr.wireLength).sum

/-- Preimages of the elements of a list make up a preimage of the list. -/
theorem exists_map_flatMap {α β γ : Type} {f : α → β} {g : α → List γ} {h : β → List γ} :
    ∀ {bs : List β}, (∀ b ∈ bs, ∃ a, f a = b ∧ g a = h b) →
      ∃ as : List α, as.map f = bs ∧ as.flatMap g = bs.flatMap h := by
  intro bs
  induction bs with
  | nil => intro _; exact ⟨[], rfl, rfl⟩
  | cons b bs ih =>
      intro hbs
      obtain ⟨⟨a, hf, hg⟩, hrest⟩ := List.forall_mem_cons.mp hbs
      obtain ⟨as, hmap, hflat⟩ := ih hrest
      exact ⟨a :: as, by rw [List.map_cons, hf, hmap],
        by rw [List.flatMap_cons, List.flatMap_cons, hg, hflat]⟩

theorem DnsQuestion.exists_wire {question : DnsQuestion} (h : CanonicalName question.name) :
    ∃ w : Question, w.decode = question ∧ w.encode = question.encode := by
  obtain ⟨n, hstr, henc⟩ := h.exists_name
  refine ⟨⟨n, question.qtype, question.qclass⟩, ?_, ?_⟩
  · rw [Question.decode, hstr]
  · rw [Question.encode, DnsQuestion.encode, henc]

theorem DnsRr.Canonical.exists_wire {rr : DnsRr} (h : rr.Canonical) :
    ∃ w : Rr, w.decode = rr ∧ w.encode = rr.encode := by
  obtain ⟨n, hstr, henc⟩ := h.name.exists_name
  have hrd : UInt16.ofNat rr.rdata.length = rr.rdlength := by
    rw [← h.rdlength, UInt16.ofNat_toNat]
  refine ⟨⟨n, rr.rtype, rr.rclass, rr.ttl, rr.rdata, h.rdata_le⟩, ?_, ?_⟩
  · rw [Rr.decode, Rr.rdlength, hstr, hrd]
  · rw [Rr.encode, Rr.rdlength, DnsRr.encode, henc, hrd, h.rdlength, List.take_length]

/-- **The bridge**: a canonical query is the decoding of a wire message that has the
query's bytes and is announced by the composed header. -/
theorem DnsQuery.Canonical.exists_message {query : DnsQuery} (h : query.Canonical) :
    ∃ m : Message, m.Announced (composeDnsHeader query) ∧ m.encode = query.encode ∧
      m.questions.map Question.decode = query.questions ∧
      m.answers.map Rr.decode = query.answers ∧
      m.authorities.map Rr.decode = query.authorities := by
  obtain ⟨qs, hqs, hqe⟩ := exists_map_flatMap fun q hq => DnsQuestion.exists_wire (h.questions q hq)
  obtain ⟨ans, hans, hae⟩ := exists_map_flatMap fun rr hrr => (h.answers rr hrr).exists_wire
  obtain ⟨aus, haus, hue⟩ := exists_map_flatMap fun rr hrr => (h.authorities rr hrr).exists_wire
  have hqd := h.qdcount
  have hac := h.ancount
  have hnc := h.nscount
  -- the counts fit into 16 bits, so the composed header announces the true lengths
  refine ⟨⟨qs, ans, aus, []⟩, ⟨?_, ?_, ?_, ?_⟩, ?_, hqs, hans, haus⟩
  · rw [composeDnsHeader_qdcount, UInt16.toNat_ofNat', Nat.mod_eq_of_lt (by omega), ← hqs,
      List.length_map]
  · rw [composeDnsHeader_ancount, UInt16.toNat_ofNat', Nat.mod_eq_of_lt (by omega), ← hans,
      List.length_map]
  · rw [composeDnsHeader_nscount, UInt16.toNat_ofNat', Nat.mod_eq_of_lt (by omega), ← haus,
      List.length_map]
  · rw [composeDnsHeader_arcount, h.additionals]
    rfl
  · rw [Message.encode, Message.encodeQuestions, DnsQuery.encode, DnsQuery.encodeQuestions,
      h.additionals, hqe, hae, hue]
    rfl

theorem DnsQuery.Canonical.writable {query : DnsQuery} (h : query.Canonical) : query.Writable where
  questions question hq := (h.questions question hq).writable
  answers rr hrr := ⟨(h.answers rr hrr).name.writable, (h.answers rr hrr).rdlength.le⟩
  authorities rr hrr := ⟨(h.authorities rr hrr).name.writable, (h.authorities rr hrr).rdlength.le⟩
  additionals rr hrr := by
    rw [h.additionals] at hrr
    cases hrr

/-- The length of a concatenation whose pieces have known lengths. -/
theorem length_flatMap_eq_sum {α β : Type} {f : α → List β} {len : α → ℕ} {l : List α}
    (h : ∀ a ∈ l, (f a).length = len a) : (l.flatMap f).length = (l.map len).sum := by
  rw [List.length_flatMap, List.map_congr_left h]

theorem DnsRr.Canonical.length_encode {rr : DnsRr} (h : rr.Canonical) :
    rr.encode.length = rr.wireLength := by
  have hname := h.name.length_encodeName
  have hrd := h.rdlength
  simp only [DnsRr.encode, DnsRr.wireLength, List.length_append, length_toBE, List.length_take]
  omega

theorem DnsQuery.Canonical.length_encode {query : DnsQuery} (h : query.Canonical) :
    query.encode.length = query.wireLength := by
  have hq : query.encodeQuestions.length = (query.questions.map DnsQuestion.wireLength).sum := by
    refine length_flatMap_eq_sum fun question hmem => ?_
    have hname := (h.questions question hmem).length_encodeName
    simp only [DnsQuestion.encode, DnsQuestion.wireLength, List.length_append, length_toBE]
    omega
  have han := length_flatMap_eq_sum fun rr hrr => (h.answers rr hrr).length_encode
  have hau := length_flatMap_eq_sum fun rr hrr => (h.authorities rr hrr).length_encode
  simp only [DnsQuery.encode, List.length_append, hq, han, hau, DnsQuery.wireLength,
    h.additionals, List.flatMap_nil, List.length_nil, List.map_nil, List.sum_nil]
  omega

/-! ## The round trip -/

/-- **Round trip of the codec.**  A canonical query is composed into `size` bytes
exactly when its sections fit, with as many bytes as they take; and parsing those
bytes under the composed header, into a fresh query object, succeeds and gives
the same id, RD flag, questions, answers and authorities. -/
theorem compose_parse_round_trip (query : DnsQuery) (h : query.Canonical) (size : ℕ) :
    ((∃ out, composeDnsResponse query size = .ok out) ↔ query.wireLength ≤ size) ∧
    ∀ out, composeDnsResponse query size = .ok out →
      out.length = query.wireLength ∧
      ∀ sender, ∃ query', parseDnsQuery { sender := sender } (composeDnsHeader query) out
          = .ok query' ∧
        query'.id = query.id ∧ query'.rd = query.rd ∧ query'.questions = query.questions ∧
        query'.answers = query.answers ∧ query'.authorities = query.authorities := by
  have hlen := h.length_encode
  refine ⟨⟨?_, ?_⟩, ?_⟩
  · rintro ⟨out, hout⟩
    have hfit := ((composeDnsResponse_eq_ok_iff query size out).mp hout).2.1
    omega
  · intro hfit
    exact ⟨query.encode, (composeDnsResponse_eq_ok_iff query size _).mpr
      ⟨h.writable, by omega, rfl⟩⟩
  · intro out hout
    obtain ⟨-, -, rfl⟩ := (composeDnsResponse_eq_ok_iff query size out).mp hout
    refine ⟨hlen, fun sender => ?_⟩
    obtain ⟨m, hannounced, henc, hqs, hans, haus⟩ := h.exists_message
    have hparse := (parseDnsQuery_eq_ok_iff { sender := sender } (composeDnsHeader query)
      query.encode _).mpr ⟨m, hannounced, henc.symm, rfl⟩
    exact ⟨_, hparse, composeDnsHeader_id query, composeDnsHeader_rd query, hqs, hans, haus⟩

/-- The query for the address of `a.b.` with the answer 10.0.0.1. -/
def sampleQuery : DnsQuery where
  sender := .tcp 0
  questions := [⟨[97, dot, 98, dot], tA, cIn⟩]
  answers := [⟨[97, dot, 98, dot], tA, cIn, 3600, 4, [10, 0, 0, 1]⟩]
  id := 5
  rd := true

theorem sampleQuery_canonical : sampleQuery.Canonical := by
  have hname : CanonicalName [97, dot, 98, dot] :=
    ⟨[[97], [98]], by decide, by decide, by decide⟩
  refine ⟨?_, ?_, ?_, rfl, by decide, by decide, by decide⟩
  · exact List.forall_mem_singleton.mpr hname
  · exact List.forall_mem_singleton.mpr ⟨hname, by decide, by decide⟩
  · exact List.forall_mem_nil _

theorem sampleQuery_round_trip :
    (∃ out, composeDnsResponse sampleQuery 500 = .ok out) ∧
    ∀ out, composeDnsResponse sampleQuery 500 = .ok out → out.length = 28 := by
  have h := compose_parse_round_trip sampleQuery sampleQuery_canonical 500
  exact ⟨h.1.mpr (by decide), fun out hout => (h.2 out hout).1⟩
