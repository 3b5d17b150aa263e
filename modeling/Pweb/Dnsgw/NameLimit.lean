/-
# The size limit of names

The notes of the project limit the octets of a name, "the sum of all label octets and
label lengths", to 255.  `parse_name` adds up the label octets only, and `write_name`
looks at the length of the dotted string.

`name_limit_iff` : when the two keep to the limit on the wire.
-/
import Pweb.Dnsgw.ParserGrammar
import Pweb.Dnsgw.ComposerEmission

open DnsQueryParser Tokens Wire

/-! ## Octets on the wire -/

theorem cost_eq_sum_add_length (ls : List Bytes) :
    cost ls = (ls.map List.length).sum + ls.length := by
  rw [cost, List.sum_map_add, List.map_const', List.sum_replicate, smul_eq_mul, mul_one]

/-- A name takes its label octets, one octet for each label length and the zero. -/
theorem Wire.Name.length_encode (n : Name) :
    n.encode.length = (n.labels.map List.length).sum + n.labels.length + 1 := by
  rw [Name.encode, length_encodeLabels, cost_eq_sum_add_length]

/-- A dotted string is written with one octet for every character, one more for the first
label length and the zero, and none for a superfluous dot. -/
theorem length_encodeName_add_count (name : Bytes) :
    (encodeName name).length + (name.splitOn dot).count [] = name.length + 2 := by
  have hcost := cost_tokenize_add_count dot name
  rw [encodeName, length_encodeLabels]
  omega

/-! ## Keeping to the limit -/

/-- `parse_name` consumes at most 255 octets, or does not succeed. -/
def ParseKeepsLimit (msg : Bytes) : Prop :=
  ∀ name buf, parseName msg 0 = .ok (name, buf) → buf ≤ 255

/-- `write_name` emits at most 255 octets into a buffer of any size, or does not succeed. -/
def WriteKeepsLimit (name : Bytes) : Prop :=
  ∀ size out, writeName name size [] = .ok ((), out) → out.length ≤ 255

/-- If a name with at most 255 label octets starts the message, its label octets and label
lengths are at most 254. -/
def StartsWithShortName (msg : Bytes) : Prop :=
  ∀ n : Name, n.encode <+: msg → (n.labels.map List.length).sum + n.labels.length ≤ 254

/-- The string has at most 253 characters besides superfluous dots, or it has more than 255
or a label of more than 63. -/
def ShortString (name : Bytes) : Prop :=
  name.length ≤ 253 + (name.splitOn dot).count [] ∨ 255 < name.length ∨
    ∃ label ∈ tokenize dot name, 63 < label.length

theorem parseKeepsLimit_iff (msg : Bytes) : ParseKeepsLimit msg ↔ StartsWithShortName msg := by
  constructor
  · rintro h n ⟨rest, rfl⟩
    have hok := recognizes_parseName.complete [] rest ⟨n, rfl, rfl⟩
    have hle := h _ _ hok
    rw [List.length_nil, Nat.zero_add, n.length_encode] at hle
    omega
  · intro h name buf hok
    obtain ⟨pre, bs, rest, rfl, hpre, rfl, n, -, rfl⟩ :=
      recognizes_parseName.sound (Nat.zero_le _) hok
    rw [List.eq_nil_of_length_eq_zero hpre.symm, List.nil_append] at h
    have hle := h n (List.prefix_append _ _)
    rw [← hpre, n.length_encode]
    omega

theorem writeKeepsLimit_iff (name : Bytes) : WriteKeepsLimit name ↔ ShortString name := by
  have hlength := length_encodeName_add_count name
  have hemit : ∀ size out, writeName name size [] = .ok ((), out) ↔
      WritableName name ∧ (encodeName name).length ≤ size ∧ out = encodeName name := by
    intro size out
    rw [(emits_writeName name).eq_ok_iff (Nat.zero_le size), List.length_nil, Nat.zero_add]
    rfl
  constructor
  · intro h
    by_contra hlong
    rw [ShortString, not_or, not_or] at hlong
    obtain ⟨hcount, hle, hlabels⟩ := hlong
    push Not at hlabels
    have hok := (hemit _ _).mpr ⟨⟨not_lt.mp hle, hlabels⟩, le_rfl, rfl⟩
    have hshort := h _ _ hok
    omega
  · intro h size out hok
    obtain ⟨hwritable, -, rfl⟩ := (hemit size out).mp hok
    rcases h with hcount | hlong | ⟨label, hlabel, hlong⟩
    · omega
    · exact absurd hwritable.length_le (not_le.mpr hlong)
    · exact absurd (hwritable.label_le label hlabel) (not_le.mpr hlong)

/-- **The size limit of names.**  `parse_name` keeps to 255 octets on the wire exactly if the
label octets and label lengths of a name that it accepts are at most 254; `write_name`
exactly if a string that it does not refuse has at most 253 characters besides superfluous
dots. -/
theorem name_limit_iff (msg name : Bytes) :
    (ParseKeepsLimit msg ↔ StartsWithShortName msg) ∧ (WriteKeepsLimit name ↔ ShortString name) :=
  ⟨parseKeepsLimit_iff msg, writeKeepsLimit_iff name⟩

/-- A label of 63 octets. -/
def fullLabel : Bytes := List.replicate 63 97

theorem fullLabel_valid : fullLabel ≠ [] ∧ fullLabel.length ≤ 63 := by decide

/-- Four full labels. -/
def fullName : Name where
  labels := [fullLabel, fullLabel, fullLabel, fullLabel]
  valid := by
    simp only [ValidLabels, List.forall_mem_cons]
    exact ⟨fullLabel_valid, fullLabel_valid, fullLabel_valid, fullLabel_valid,
      List.forall_mem_nil _⟩
  sum_le := by decide

def fullString : Bytes :=
  fullLabel ++ dot :: (fullLabel ++ dot :: (fullLabel ++ dot :: fullLabel))

theorem tokenize_fullString : tokenize dot fullString = fullName.labels := by
  have hlabel : tokenize dot fullLabel = [fullLabel] :=
    tokenize_of_free fullLabel_valid.1 (by decide)
  rw [fullString, tokenize_append_sep, tokenize_append_sep, tokenize_append_sep, hlabel]
  rfl

/-- **The limit can be exceeded**: four full labels are 252 label octets and 255 characters, but
257 octets on the wire. -/
theorem name_limit_exceeded : ¬ ParseKeepsLimit fullName.encode ∧ ¬ WriteKeepsLimit fullString := by
  constructor
  · rw [parseKeepsLimit_iff]
    intro h
    exact absurd (h fullName (List.prefix_refl _)) (by decide)
  · rw [writeKeepsLimit_iff, ShortString, tokenize_fullString]
    have hcost := cost_tokenize_add_count dot fullString
    rw [tokenize_fullString] at hcost
    have hlength : fullString.length = 255 := by
      have hlabel : fullLabel.length = 63 := List.length_replicate
      simp only [fullString, List.length_append, List.length_cons, hlabel]
    have hfull : cost fullName.labels = 256 := by decide
    rintro (hcount | hlong | ⟨label, hlabel, hlong⟩)
    · omega
    · omega
    · exact absurd (fullName.valid label hlabel).2 (not_le.mpr hlong)
