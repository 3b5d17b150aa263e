/-
# The grammar of JSON texts

JSON values, and the relation `Json.Denotes` between a text and the value it denotes, with one
constructor for every form of a value.  Texts are strings of bytes: what a string holds besides
its escapes is taken over byte by byte, whatever its encoding.

A `Padded` text is one with blanks around it; `Json.Document` is a whole document.  No document
has a comma in front of its last bracket (`not_document_of_trailing_comma`): the text of a
value never ends with a comma (`Denotes.ends`), and an array has no item there.
-/
import Mathlib

/-- A value. -/
inductive Json where
  | null
  | bool (b : Bool)
  | number (lexeme : List UInt8)
  | string (chars : List UInt8)
  | array (items : List Json)
  | object (members : List (List UInt8 × Json))

namespace Json

/-! ## Characters -/

/-- Space, tab, line feed and carriage return. -/
def IsBlank (b : UInt8) : Prop := b = 32 ∨ b = 9 ∨ b = 10 ∨ b = 13

instance (b : UInt8) : Decidable (IsBlank b) := inferInstanceAs (Decidable (_ ∨ _))

/-- Only blanks. -/
def Blank (s : List UInt8) : Prop := ∀ b ∈ s, IsBlank b

instance (s : List UInt8) : Decidable (Blank s) := List.decidableBAll _ s

def comma : UInt8 := 44
def colon : UInt8 := 58
def quote : UInt8 := 34
def backslash : UInt8 := 92

def IsDigit (b : UInt8) : Prop := 48 ≤ b ∧ b ≤ 57

/-- One or more digits. -/
def Digits (s : List UInt8) : Prop := s ≠ [] ∧ ∀ b ∈ s, IsDigit b

/-! ## Numbers -/

/-- The integer part: no zero in front of other digits. -/
def IntPart (s : List UInt8) : Prop := s = [48] ∨ Digits s ∧ s.head? ≠ some 48

/-- The fraction, if there is one. -/
def Fraction (s : List UInt8) : Prop := s = [] ∨ ∃ ds, Digits ds ∧ s = 46 :: ds

/-- The exponent, if there is one. -/
def Exponent (s : List UInt8) : Prop :=
  s = [] ∨ ∃ e sign ds, (e = 101 ∨ e = 69) ∧ (sign = [] ∨ sign = [43] ∨ sign = [45]) ∧
    Digits ds ∧ s = e :: (sign ++ ds)

/-- A number. -/
structure Number (s : List UInt8) : Prop where
  parts : ∃ minus int frac exp, (minus = [] ∨ minus = [45]) ∧ IntPart int ∧ Fraction frac ∧
    Exponent exp ∧ s = minus ++ (int ++ (frac ++ exp))

/-! ## Strings -/

/-- The value of a hexadecimal digit. -/
def hexDigit (b : UInt8) : Option ℕ :=
  if 48 ≤ b ∧ b ≤ 57 then some (b.toNat - 48)
  else if 65 ≤ b ∧ b ≤ 70 then some (b.toNat - 55)
  else if 97 ≤ b ∧ b ≤ 102 then some (b.toNat - 87)
  else none

/-- The value of four hexadecimal digits. -/
def codeUnit (h : Vector UInt8 4) : Option ℕ :=
  h.toList.foldlM (fun n b => (hexDigit b).map (16 * n + ·)) 0

/-- The escapes of two characters. -/
def escapes : List (UInt8 × UInt8) :=
  [(34, 34), (92, 92), (47, 47), (98, 8), (102, 12), (110, 10), (114, 13), (116, 9)]

/-- What stands between the quotes of a string, and the characters it stands for. -/
inductive Chars : List UInt8 → List UInt8 → Prop
  | nil : Chars [] []
  | plain {b : UInt8} {s v : List UInt8} (hcontrol : 32 ≤ b) (hquote : b ≠ quote)
      (hbackslash : b ≠ backslash) (h : Chars s v) : Chars (b :: s) (b :: v)
  | escape {e : UInt8 × UInt8} {s v : List UInt8} (he : e ∈ escapes) (h : Chars s v) :
      Chars (backslash :: e.1 :: s) (e.2 :: v)
  | unicode {u : Vector UInt8 4} {c : Char} {s v : List UInt8} (hu : codeUnit u = some c.toNat)
      (h : Chars s v) : Chars (backslash :: 117 :: (u.toList ++ s)) (String.utf8EncodeChar c ++ v)
  | pair {u u' : Vector UInt8 4} {a a' : ℕ} {c : Char} {s v : List UInt8} (ha : a < 0x400)
      (ha' : a' < 0x400) (hu : codeUnit u = some (0xD800 + a))
      (hu' : codeUnit u' = some (0xDC00 + a')) (hc : c.toNat = 0x10000 + 0x400 * a + a')
      (h : Chars s v) :
      Chars (backslash :: 117 :: (u.toList ++ backslash :: 117 :: (u'.toList ++ s)))
        (String.utf8EncodeChar c ++ v)
  /-- What a surrogate on its own stands for is left open. -/
  | surrogate {u : Vector UInt8 4} {n : ℕ} {s v : List UInt8} (w : List UInt8)
      (hu : codeUnit u = some n) (hn : 0xD800 ≤ n ∧ n < 0xE000) (h : Chars s v) :
      Chars (backslash :: 117 :: (u.toList ++ s)) (w ++ v)

/-- Characters in quotes. -/
def quoted (s : List UInt8) : List UInt8 := quote :: (s ++ [quote])

/-! ## Values -/

/-- A text with blanks around it. -/
structure Padded where
  before : List UInt8
  text : List UInt8
  after : List UInt8
  blank_before : Blank before
  blank_after : Blank after

def Padded.whole (p : Padded) : List UInt8 := p.before ++ (p.text ++ p.after)

/-- A member of an object: its name, what stands for it, and the text of the value. -/
structure Member where
  name : List UInt8
  key : Padded
  value : Padded
  key_text : ∃ s, key.text = quoted s ∧ Chars s name

def Member.whole (m : Member) : List UInt8 := m.key.whole ++ colon :: m.value.whole

/-- Texts with commas between them. -/
def separated (texts : List (List UInt8)) : List UInt8 := [comma].intercalate texts

/-- `Denotes s v` : the text `s` is the value `v`. -/
inductive Denotes : List UInt8 → Json → Prop
  | null : Denotes [110, 117, 108, 108] .null
  | true : Denotes [116, 114, 117, 101] (.bool true)
  | false : Denotes [102, 97, 108, 115, 101] (.bool false)
  | number {s : List UInt8} (h : Number s) : Denotes s (.number s)
  | string {s v : List UInt8} (h : Chars s v) : Denotes (quoted s) (.string v)
  | emptyArray {w : List UInt8} (hw : Blank w) : Denotes (91 :: (w ++ [93])) (.array [])
  | array {items : List (Padded × Json)} (hne : items ≠ [])
      (h : ∀ i ∈ items, Denotes i.1.text i.2) :
      Denotes (91 :: (separated (items.map fun i => i.1.whole) ++ [93]))
        (.array (items.map fun i => i.2))
  | emptyObject {w : List UInt8} (hw : Blank w) : Denotes (123 :: (w ++ [125])) (.object [])
  | object {members : List (Member × Json)} (hne : members ≠ [])
      (h : ∀ m ∈ members, Denotes m.1.value.text m.2) :
      Denotes (123 :: (separated (members.map fun m => m.1.whole) ++ [125]))
        (.object (members.map fun m => (m.1.name, m.2)))

/-- A document: a value with blanks around it. -/
def Document (s : List UInt8) (v : Json) : Prop := ∃ p : Padded, s = p.whole ∧ Denotes p.text v

/-- Characters that need no escape stand for themselves. -/
theorem chars_self {s : List UInt8} (h : ∀ b ∈ s, 32 ≤ b ∧ b ≠ quote ∧ b ≠ backslash) :
    Chars s s := by
  induction s with
  | nil => exact .nil
  | cons b s ih =>
      obtain ⟨⟨hcontrol, hquote, hbackslash⟩, hs⟩ := List.forall_mem_cons.mp h
      exact .plain hcontrol hquote hbackslash (ih hs)

/-! ## The end of a text -/

/-- The last character is neither a blank nor a comma. -/
def Ends (s : List UInt8) (b : UInt8) : Prop :=
  ∃ init, s = init ++ [b] ∧ ¬ IsBlank b ∧ b ≠ comma

theorem Ends.append_left {s : List UInt8} {b : UInt8} (h : Ends s b) (t : List UInt8) :
    Ends (t ++ s) b := by
  obtain ⟨init, rfl, hb⟩ := h
  exact ⟨t ++ init, (List.append_assoc _ _ _).symm, hb⟩

theorem ends_digits {s : List UInt8} (h : Digits s) : ∃ b, Ends s b ∧ b ≠ 93 := by
  obtain ⟨hne, hdigits⟩ := h
  obtain ⟨hlow, hhigh⟩ := hdigits _ (List.getLast_mem hne)
  rw [UInt8.le_iff_toNat_le] at hlow hhigh
  have hother : ∀ c : UInt8, c.toNat < 48 ∨ 57 < c.toNat → s.getLast hne ≠ c := by
    rintro c hc rfl
    simp only [UInt8.reduceToNat] at hlow hhigh
    omega
  refine ⟨_, ⟨_, (List.dropLast_append_getLast hne).symm, ?_, hother _ (by decide)⟩,
    hother _ (by decide)⟩
  rintro (h | h | h | h)
  · exact hother _ (by decide) h
  · exact hother _ (by decide) h
  · exact hother _ (by decide) h
  · exact hother _ (by decide) h

theorem ends_number {s : List UInt8} (h : Number s) : ∃ b, Ends s b ∧ b ≠ 93 := by
  obtain ⟨minus, int, frac, exp, -, hint, hfrac, hexp, rfl⟩ := h
  have hstep : ∀ {t : List UInt8} (u : List UInt8), (∃ b, Ends t b ∧ b ≠ 93) →
      ∃ b, Ends (u ++ t) b ∧ b ≠ 93 := fun u h => h.imp fun b hb => ⟨hb.1.append_left u, hb.2⟩
  refine hstep minus ?_
  -- the last digit stands in the last part that is there
  rcases hexp with rfl | ⟨e, sign, ds, -, -, hds, rfl⟩
  · rw [List.append_nil]
    rcases hfrac with rfl | ⟨ds, hds, rfl⟩
    · rw [List.append_nil]
      rcases hint with rfl | ⟨hdigits, -⟩
      · exact ⟨48, ⟨[], rfl, by decide, by decide⟩, by decide⟩
      · exact ends_digits hdigits
    · exact hstep int (hstep [46] (ends_digits hds))
  · exact hstep int (hstep frac (hstep (e :: sign) (ends_digits hds)))

/-- **The text of a value** ends with neither a blank nor a comma, and only that of an array ends
with a bracket. -/
theorem Denotes.ends {s : List UInt8} {v : Json} (h : Denotes s v) :
    ∃ b, Ends s b ∧ (b = 93 → ∃ items, v = .array items) := by
  have hother : ∀ {b : UInt8} {P : Prop}, b ≠ 93 → b = 93 → P := fun hne heq => absurd heq hne
  cases h with
  | null => exact ⟨108, ⟨[110, 117, 108], rfl, by decide, by decide⟩, hother (by decide)⟩
  | true => exact ⟨101, ⟨[116, 114, 117], rfl, by decide, by decide⟩, hother (by decide)⟩
  | false => exact ⟨101, ⟨[102, 97, 108, 115], rfl, by decide, by decide⟩, hother (by decide)⟩
  | number h =>
      obtain ⟨b, hb, hne⟩ := ends_number h
      exact ⟨b, hb, hother hne⟩
  | string _ => exact ⟨quote, ⟨quote :: _, rfl, by decide, by decide⟩, hother (by decide)⟩
  | emptyArray _ => exact ⟨93, ⟨91 :: _, rfl, by decide, by decide⟩, fun _ => ⟨_, rfl⟩⟩
  | array _ _ => exact ⟨93, ⟨91 :: _, rfl, by decide, by decide⟩, fun _ => ⟨_, rfl⟩⟩
  | emptyObject _ => exact ⟨125, ⟨123 :: _, rfl, by decide, by decide⟩, hother (by decide)⟩
  | object _ _ => exact ⟨125, ⟨123 :: _, rfl, by decide, by decide⟩, hother (by decide)⟩

/-- The last character before blanks at the end is unique. -/
theorem last_unique {l l' w w' : List UInt8} {b b' : UInt8} (hb : ¬ IsBlank b) (hb' : ¬ IsBlank b')
    (hw : Blank w) (hw' : Blank w') (h : l ++ b :: w = l' ++ b' :: w') :
    l = l' ∧ b = b' ∧ w = w' := by
  have htrim : ∀ {l w : List UInt8} {b : UInt8}, ¬ IsBlank b → Blank w →
      (l ++ b :: w).reverse.dropWhile (fun c => IsBlank c) = b :: l.reverse := by
    intro l w b hb hw
    rw [List.reverse_append, List.reverse_cons, List.append_assoc, List.dropWhile_append_of_pos]
    · exact List.dropWhile_cons_of_neg (by simpa using hb)
    · intro c hc
      exact decide_eq_true (hw c (List.mem_reverse.mp hc))
  have heq : b :: l.reverse = b' :: l'.reverse := by
    rw [← htrim hb hw, h, htrim hb' hw']
  rw [List.cons.injEq, List.reverse_inj] at heq
  obtain ⟨rfl, rfl⟩ := heq
  exact ⟨rfl, rfl, (List.cons.inj (List.append_cancel_left h)).2⟩

/-- The last of several texts. -/
theorem separated_concat (texts : List (List UInt8)) (last : List UInt8) :
    ∃ front, separated (texts ++ [last]) = front ++ last := by
  induction texts with
  | nil => exact ⟨[], List.intercalate_singleton⟩
  | cons t texts ih =>
      obtain ⟨front, hfront⟩ := ih
      refine ⟨t ++ comma :: front, ?_⟩
      rw [separated, List.cons_append, List.intercalate_cons_of_ne_nil (by simp), ← separated,
        hfront]
      simp

/-- What follows the last text is part of it. -/
theorem separated_concat_append (texts : List (List UInt8)) (last after : List UInt8) :
    separated (texts ++ [last]) ++ after = separated (texts ++ [last ++ after]) := by
  induction texts with
  | nil =>
      rw [separated, separated, List.nil_append, List.nil_append, List.intercalate_singleton,
        List.intercalate_singleton]
  | cons t texts ih =>
      rw [separated, separated, List.cons_append, List.cons_append,
        List.intercalate_cons_of_ne_nil (by simp), List.intercalate_cons_of_ne_nil (by simp),
        ← separated, ← separated, List.append_assoc, ih]

/-- Between the brackets of an array there are blanks, or an item stands last. -/
theorem Denotes.inside_array {s : List UInt8} {items : List Json} (h : Denotes s (.array items)) :
    ∃ inside, s = 91 :: (inside ++ [93]) ∧
      (Blank inside ∨ ∃ front p v, inside = front ++ Padded.whole p ∧ Denotes p.text v) := by
  cases h with
  | emptyArray hw => exact ⟨_, rfl, Or.inl hw⟩
  | @array items hne h =>
      refine ⟨_, rfl, Or.inr ?_⟩
      obtain ⟨items, last, rfl⟩ := (List.eq_nil_or_concat items).resolve_left hne
      rw [List.concat_eq_append] at h ⊢
      rw [List.map_append, List.map_singleton]
      obtain ⟨front, hfront⟩ := separated_concat (items.map fun i => i.1.whole) last.1.whole
      exact ⟨front, last.1, last.2, hfront, h last (by simp)⟩

/-- **A trailing comma.**  No document ends with a comma and a bracket. -/
theorem not_document_of_trailing_comma {s w w' : List UInt8} (hw : Blank w) (hw' : Blank w')
    (v : Json) : ¬ Document (s ++ comma :: (w ++ 93 :: w')) v := by
  rintro ⟨p, hp, hv⟩
  have hcomma : ¬ IsBlank comma := by decide
  -- the bracket is the last character of the value, so this is an array
  obtain ⟨b, ⟨init, htext, hb, -⟩, harray⟩ := hv.ends
  have hbracket : ¬ IsBlank 93 := by decide
  have hwhole : (s ++ comma :: w) ++ 93 :: w' = (p.before ++ init) ++ b :: p.after := by
    rw [Padded.whole, htext] at hp
    simpa using hp
  obtain ⟨hinit, rfl, -⟩ := last_unique hbracket hb hw' p.blank_after hwhole
  obtain ⟨items, rfl⟩ := harray rfl
  obtain ⟨inside, hinside, hlast⟩ := hv.inside_array
  have heq : init = 91 :: inside := by
    rw [htext, ← List.cons_append] at hinside
    exact List.append_cancel_right hinside
  rcases hlast with hblank | ⟨front, i, v, rfl, hi⟩
  · -- the comma would be the opening bracket
    rw [heq] at hinit
    have hne := (last_unique hcomma (by decide) hw hblank hinit).2.1
    exact absurd hne (by decide)
  · -- the comma would be the last character of an item
    obtain ⟨b, ⟨init', htext', hb', hne⟩, -⟩ := hi.ends
    have hinside' : s ++ comma :: w
        = (p.before ++ 91 :: (front ++ (i.before ++ init'))) ++ b :: i.after := by
      rw [hinit, heq, Padded.whole, htext']
      simp
    exact absurd (last_unique hcomma hb' hw i.blank_after hinside').2.1.symm hne

end Json
