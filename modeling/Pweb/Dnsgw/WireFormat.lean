/-
# The DNS wire format, as a data type

What a DNS message body is, with labels as labels: a `Wire.Name` is a list of
labels of 1 to 63 bytes with at most 255 label bytes, questions and resource
records hold a name and their fields, and a `Wire.Message` is the four sections.
Values outside the format cannot be built.  `encode` gives the bytes,
`Name.toString` and the `decode` functions what the gateway keeps of a value.

* `encodeLabels_injective` : the label encoding can be read back;
* `length_encodeLabels` : its length.
-/
import Pweb.Dnsgw.DnsComposer

open ByteOrder Tokens

namespace Wire

/-! ## Labels -/

/-- Labels that the length byte of the wire format can announce. -/
def ValidLabels (ls : List Bytes) : Prop := ∀ l ∈ ls, l ≠ [] ∧ l.length ≤ 63

/-- Length-prefixed labels closed by a zero byte. -/
def encodeLabels (ls : List Bytes) : Bytes :=
  ls.flatMap (fun l => UInt8.ofNat l.length :: l) ++ [0]

@[simp] theorem encodeLabels_nil : encodeLabels [] = [0] := rfl

@[simp] theorem encodeLabels_cons (l : Bytes) (ls : List Bytes) :
    encodeLabels (l :: ls) = UInt8.ofNat l.length :: (l ++ encodeLabels ls) := by
  simp [encodeLabels]

theorem length_encodeLabels (ls : List Bytes) : (encodeLabels ls).length = cost ls + 1 := by
  induction ls with
  | nil => rfl
  | cons l ls ih =>
      rw [encodeLabels_cons, List.length_cons, List.length_append, ih, cost_cons]
      omega

/-- A length byte is read back as the length. -/
theorem toNat_ofNat_length {l : Bytes} (h : l.length ≤ 63) :
    (UInt8.ofNat l.length).toNat = l.length := by
  rw [UInt8.toNat_ofNat']
  omega

/-- The length byte of a label is not the closing zero. -/
theorem ofNat_length_ne_zero {l : Bytes} (h : l ≠ [] ∧ l.length ≤ 63) :
    UInt8.ofNat l.length ≠ 0 := by
  intro heq
  have hlen := toNat_ofNat_length h.2
  rw [heq] at hlen
  exact h.1 (List.length_eq_zero_iff.mp hlen.symm)

/-- An encoded label list starts with a length byte. -/
theorem encodeLabels_eq_cons {ls : List Bytes} (hls : ValidLabels ls) :
    ∃ len bs, len ≤ 63 ∧ encodeLabels ls = UInt8.ofNat len :: bs := by
  cases ls with
  | nil => exact ⟨0, [], by omega, rfl⟩
  | cons l ls =>
      exact ⟨l.length, l ++ encodeLabels ls, (hls l List.mem_cons_self).2, encodeLabels_cons l ls⟩

theorem encodeLabels_injective : ∀ {ls ms : List Bytes}, ValidLabels ls → ValidLabels ms →
    encodeLabels ls = encodeLabels ms → ls = ms := by
  intro ls
  induction ls with
  | nil =>
      intro ms _ hms heq
      cases ms with
      | nil => rfl
      | cons m ms =>
          rw [encodeLabels_nil, encodeLabels_cons] at heq
          exact absurd (List.cons.inj heq).1.symm (ofNat_length_ne_zero (hms m List.mem_cons_self))
  | cons l ls ih =>
      intro ms hls hms heq
      obtain ⟨hl, hls'⟩ := List.forall_mem_cons.mp hls
      cases ms with
      | nil =>
          rw [encodeLabels_nil, encodeLabels_cons] at heq
          exact absurd (List.cons.inj heq).1 (ofNat_length_ne_zero hl)
      | cons m ms =>
          obtain ⟨hm, hms'⟩ := List.forall_mem_cons.mp hms
          rw [encodeLabels_cons, encodeLabels_cons] at heq
          obtain ⟨hbyte, hrest⟩ := List.cons.inj heq
          -- equal length bytes split the two lists at the same place
          have hlen : l.length = m.length := by
            rw [← toNat_ofNat_length hl.2, hbyte, toNat_ofNat_length hm.2]
          obtain ⟨rfl, htail⟩ := List.append_inj hrest hlen
          rw [ih hls' hms' htail]

/-! ## Names, questions, records, messages -/

/-- A name on the wire. -/
structure Name where
  labels : List Bytes
  valid : ValidLabels labels
  sum_le : (labels.map List.length).sum ≤ 255

/-- The bytes of a name. -/
def Name.encode (n : Name) : Bytes := encodeLabels n.labels

/-- The string the parser makes of a name. -/
def Name.toString (n : Name) : Bytes := terminate dot n.labels

/-- A question on the wire. -/
structure Question where
  name : Name
  qtype : Qtype
  qclass : Qclass

def Question.encode (q : Question) : Bytes :=
  q.name.encode ++ (toBE 2 q.qtype.toNat ++ toBE 2 q.qclass.toNat)

def Question.decode (q : Question) : DnsQuestion := ⟨q.name.toString, q.qtype, q.qclass⟩

/-- A resource record on the wire. -/
structure Rr where
  name : Name
  rtype : Qtype
  rclass : Qclass
  ttl : UInt32
  rdata : Bytes
  rdata_le : rdata.length ≤ DnsQueryParser.maxRdata

/-- The length field of a record. -/
def Rr.rdlength (r : Rr) : UInt16 := UInt16.ofNat r.rdata.length

theorem Rr.toNat_rdlength (r : Rr) : r.rdlength.toNat = r.rdata.length := by
  have h := r.rdata_le
  unfold DnsQueryParser.maxRdata at h
  rw [Rr.rdlength, UInt16.toNat_ofNat']
  omega

def Rr.encode (r : Rr) : Bytes :=
  r.name.encode ++ (toBE 2 r.rtype.toNat ++ (toBE 2 r.rclass.toNat ++
    (toBE 4 r.ttl.toNat ++ (toBE 2 r.rdlength.toNat ++ r.rdata))))

def Rr.decode (r : Rr) : DnsRr :=
  ⟨r.name.toString, r.rtype, r.rclass, r.ttl, r.rdlength, r.rdata⟩

/-- A message body. -/
structure Message where
  questions : List Question
  answers : List Rr
  authorities : List Rr
  additionals : List Rr

/-- The bytes of the question section. -/
def Message.encodeQuestions (m : Message) : Bytes := m.questions.flatMap Question.encode

def Message.encode (m : Message) : Bytes :=
  m.encodeQuestions ++ (m.answers.flatMap Rr.encode ++
    (m.authorities.flatMap Rr.encode ++ m.additionals.flatMap Rr.encode))

/-- The header announces the sections of the message. -/
structure Message.Announced (m : Message) (header : DnsQueryHeader) : Prop where
  questions : m.questions.length = header.qdcount.toNat
  answers : m.answers.length = header.ancount.toNat
  authorities : m.authorities.length = header.nscount.toNat
  additionals : m.additionals.length = header.arcount.toNat

/-- What the gateway keeps of a message in a query object: the additional section
is dropped. -/
def Message.decode (m : Message) (query : DnsQuery) (header : DnsQueryHeader) : DnsQuery :=
  { query with
    id := header.id
    rd := header.rd
    questions := query.questions ++ m.questions.map Question.decode
    answers := query.answers ++ m.answers.map Rr.decode
    authorities := query.authorities ++ m.authorities.map Rr.decode }

end Wire
