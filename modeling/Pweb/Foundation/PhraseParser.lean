/-
# Phrase parsers: combinators that skip white space

A `PhraseParser` takes a value off the front of a string or fails.  A literal skips white space
before it, a `lexeme` skips it once and not inside, `kleene` repeats a parser until it fails and
keeps what stood there, and `list` puts a separator between the repetitions; choices are never
taken back.  `phraseParse` runs a parser on a whole input and skips the white space at its end.

Three facts about a parser have rules along its structure: `Yields p P`, that its values satisfy
`P`; `Consumes p n`, that it takes `n` characters at least; and `Accepts space p L a F`, that up
to white space it takes each string of the language `L` as the value `a`, provided what follows
satisfies `F`.
-/
import Mathlib

/-- A parser: what it takes off the front of a string, and what is left. -/
abbrev PhraseParser (α β : Type) := StateT (List α) Option β

namespace PhraseParser

variable {α β γ : Type}

/-! ## Combinators -/

/-- Skip white space. -/
def skip (space : α → Bool) (s : List α) : List α := s.dropWhile space

/-- Skip white space, then run a parser that skips none. -/
def lexeme (space : α → Bool) (p : PhraseParser α β) : PhraseParser α β := fun s =>
  p (skip space s)

/-- A string, behind white space. -/
def lit [DecidableEq α] (space : α → Bool) (str : List α) : PhraseParser α Unit := fun s =>
  if str <+: skip space s then some ((), (skip space s).drop str.length) else none

/-- As many characters of a kind as there are. -/
def many (char : α → Bool) : PhraseParser α (List α) := fun s =>
  some (s.takeWhile char, s.dropWhile char)

/-- Repeat `p` until it fails, `n` times at most. -/
def kleeneFrom (p : PhraseParser α β) : ℕ → PhraseParser α (List β)
  | 0 => fun s =>
    match p s with
    | none => some ([], s)
    | some _ => none
  | n + 1 => fun s =>
    match p s with
    | none => some ([], s)
    | some (a, s') => (kleeneFrom p n s').map fun r => (a :: r.1, r.2)

/-- Repeat `p` until it fails.  A parser that takes something each time does so before its input
is used up. -/
def kleene (p : PhraseParser α β) : PhraseParser α (List β) := fun s => kleeneFrom p s.length s

/-- One or more times `p`, with `sep` in between. -/
def list (p : PhraseParser α β) (sep : PhraseParser α Unit) : PhraseParser α (List β) := do
  let first ← p
  let rest ← kleene (do sep; p)
  return first :: rest

/-- Parse an input: the value and what is left behind the white space after it. -/
def phraseParse (space : α → Bool) (p : PhraseParser α β) (s : List α) : Option (β × List α) :=
  (p s).map fun r => (r.1, skip space r.2)

theorem bind_run (p : PhraseParser α β) (q : β → PhraseParser α γ) (s : List α) :
    (p >>= q) s = (p s).bind fun r => q r.1 r.2 := rfl

theorem bind_eq_some {p : PhraseParser α β} {q : β → PhraseParser α γ} {s s' : List α} {b : γ}
    (h : (p >>= q) s = some (b, s')) :
    ∃ a mid, p s = some (a, mid) ∧ q a mid = some (b, s') := by
  obtain ⟨⟨a, mid⟩, hp, hq⟩ := Option.bind_eq_some_iff.mp h
  exact ⟨a, mid, hp, hq⟩

variable {p : PhraseParser α β} {s s' : List α} {a : β}

theorem kleeneFrom_of_none (n : ℕ) (h : p s = none) : kleeneFrom p n s = some ([], s) := by
  rcases n with _ | n
  · simp only [kleeneFrom, h]
  · simp only [kleeneFrom, h]

theorem kleeneFrom_zero_of_some (h : p s = some (a, s')) : kleeneFrom p 0 s = none := by
  simp only [kleeneFrom, h]

theorem kleeneFrom_succ_of_some (n : ℕ) (h : p s = some (a, s')) :
    kleeneFrom p (n + 1) s = (kleeneFrom p n s').map fun r => (a :: r.1, r.2) := by
  simp only [kleeneFrom, h]

end PhraseParser

open PhraseParser

/-! ## Values -/

/-- Every value of `p` satisfies `P`. -/
structure Yields {α β : Type} (p : PhraseParser α β) (P : β → Prop) : Prop where
  run : ∀ {s s' : List α} {a : β}, p s = some (a, s') → P a

namespace Yields

variable {α β γ : Type} {P : β → Prop} {Q : γ → Prop}

theorem trivial (p : PhraseParser α β) : Yields p fun _ => True where
  run _ := True.intro

theorem pure {a : β} (h : P a) : Yields (Pure.pure a : PhraseParser α β) P where
  run hrun := by
    cases hrun
    exact h

theorem bind {p : PhraseParser α β} {q : β → PhraseParser α γ} (hp : Yields p P)
    (hq : ∀ a, P a → Yields (q a) Q) : Yields (p >>= q) Q where
  run hrun := by
    obtain ⟨a, mid, hpa, hqb⟩ := bind_eq_some hrun
    exact (hq a (hp.run hpa)).run hqb

theorem lexeme {p : PhraseParser α β} (space : α → Bool) (hp : Yields p P) :
    Yields (PhraseParser.lexeme space p) P where
  run hrun := hp.run hrun

theorem many (char : α → Bool) :
    Yields (PhraseParser.many char) fun str => ∀ c ∈ str, char c = true where
  run hrun := by
    cases hrun
    exact fun c hc => List.mem_takeWhile_imp hc

/-- A repetition yields what its parser yields. -/
theorem kleene {p : PhraseParser α β} (hp : Yields p P) :
    Yields (PhraseParser.kleene p) fun as => ∀ a ∈ as, P a where
  run := by
    have hloop : ∀ (n : ℕ) {s s' : List α} {as : List β},
        kleeneFrom p n s = some (as, s') → ∀ a ∈ as, P a := by
      intro n
      induction n with
      | zero =>
          intro s s' as hrun
          rcases hs : p s with _ | ⟨a, mid⟩
          · rw [kleeneFrom_of_none 0 hs] at hrun
            cases hrun
            exact List.forall_mem_nil _
          · rw [kleeneFrom_zero_of_some hs] at hrun
            cases hrun
      | succ n ih =>
          intro s s' as hrun
          rcases hs : p s with _ | ⟨a, mid⟩
          · rw [kleeneFrom_of_none (n + 1) hs] at hrun
            cases hrun
            exact List.forall_mem_nil _
          · rw [kleeneFrom_succ_of_some n hs] at hrun
            obtain ⟨r, hr, heq⟩ := Option.map_eq_some_iff.mp hrun
            cases heq
            exact List.forall_mem_cons.mpr ⟨hp.run hs, ih hr⟩
    intro s s' as hrun
    exact hloop _ hrun

theorem list {p : PhraseParser α β} {sep : PhraseParser α Unit} (hp : Yields p P) :
    Yields (PhraseParser.list p sep) fun as => ∀ a ∈ as, P a :=
  hp.bind fun _ hfirst => (kleene ((trivial sep).bind fun _ _ => hp)).bind fun _ hrest =>
    pure (List.forall_mem_cons.mpr ⟨hfirst, hrest⟩)

end Yields

/-! ## What is left -/

/-- `p` takes `n` characters at least. -/
structure Consumes {α β : Type} (p : PhraseParser α β) (n : ℕ) : Prop where
  run : ∀ {s s' : List α} {a : β}, p s = some (a, s') → s'.length + n ≤ s.length

namespace Consumes

variable {α β γ : Type} {n m : ℕ}

theorem pure (a : β) : Consumes (Pure.pure a : PhraseParser α β) 0 where
  run hrun := by
    cases hrun
    exact le_rfl

theorem bind {p : PhraseParser α β} {q : β → PhraseParser α γ} (hp : Consumes p n)
    (hq : ∀ a, Consumes (q a) m) : Consumes (p >>= q) (n + m) where
  run hrun := by
    obtain ⟨a, mid, hpa, hqb⟩ := bind_eq_some hrun
    have hfirst := hp.run hpa
    have hsecond := (hq a).run hqb
    omega

theorem mono {p : PhraseParser α β} (hp : Consumes p n) (h : m ≤ n) : Consumes p m where
  run hrun := by
    have hle := hp.run hrun
    omega

theorem length_skip_le (space : α → Bool) (s : List α) : (skip space s).length ≤ s.length :=
  (List.dropWhile_sublist _).length_le

theorem lit [DecidableEq α] (space : α → Bool) (str : List α) :
    Consumes (PhraseParser.lit space str) str.length where
  run := by
    intro s s' a hrun
    rw [PhraseParser.lit] at hrun
    split_ifs at hrun with hprefix
    cases hrun
    have hle := hprefix.length_le
    have hskip := length_skip_le space s
    rw [List.length_drop]
    omega

theorem lexeme {p : PhraseParser α β} (space : α → Bool) (hp : Consumes p n) :
    Consumes (PhraseParser.lexeme space p) n where
  run hrun := (hp.run hrun).trans (length_skip_le space _)

theorem many (char : α → Bool) : Consumes (PhraseParser.many char) 0 where
  run hrun := by
    cases hrun
    exact (List.dropWhile_sublist _).length_le

end Consumes

namespace PhraseParser

variable {α β : Type} {p : PhraseParser α β} {s s' : List α} {a : β}

/-- More rounds than characters change nothing. -/
theorem kleeneFrom_congr (hp : Consumes p 1) {n m : ℕ} (hn : s.length ≤ n) (hm : s.length ≤ m) :
    kleeneFrom p n s = kleeneFrom p m s := by
  induction n generalizing s m with
  | zero =>
      rcases h : p s with _ | ⟨a, s'⟩
      · rw [kleeneFrom_of_none 0 h, kleeneFrom_of_none m h]
      · have hlt := hp.run h
        omega
  | succ n ih =>
      rcases h : p s with _ | ⟨a, s'⟩
      · rw [kleeneFrom_of_none (n + 1) h, kleeneFrom_of_none m h]
      · have hlt := hp.run h
        obtain ⟨m, rfl⟩ : ∃ k, m = k + 1 := ⟨m - 1, by omega⟩
        rw [kleeneFrom_succ_of_some n h, kleeneFrom_succ_of_some m h,
          ih (by omega : s'.length ≤ n) (by omega : s'.length ≤ m)]

theorem kleene_of_none (h : p s = none) : kleene p s = some ([], s) := kleeneFrom_of_none _ h

/-- One round of a repetition. -/
theorem kleene_of_some (hp : Consumes p 1) (h : p s = some (a, s')) :
    kleene p s = (kleene p s').map fun r => (a :: r.1, r.2) := by
  have hlt := hp.run h
  obtain ⟨n, hn⟩ : ∃ n, s.length = n + 1 := ⟨s.length - 1, by omega⟩
  rw [kleene, hn, kleeneFrom_succ_of_some n h, kleene, kleeneFrom_congr hp (by omega) le_rfl]

end PhraseParser

/-! ## Accepted languages -/

/-- `p` takes each string of `L` as `a`, wherever what follows satisfies `F`.  White space counts
for nothing in front of the input and in front of what is left. -/
structure Accepts {α β : Type} (space : α → Bool) (p : PhraseParser α β) (L : Language α) (a : β)
    (F : List α → Prop) : Prop where
  run : ∀ {s rest input : List α}, s ∈ L → F rest → skip space input = skip space (s ++ rest) →
    ∃ rest', p input = some (a, rest') ∧ skip space rest' = skip space rest

/-- White space. -/
def blanks {α : Type} (space : α → Bool) : Language α := {s | ∀ c ∈ s, space c = true}

namespace Accepts

variable {α β γ : Type} {space : α → Bool} {L M : Language α} {F G : List α → Prop}

theorem skip_blanks {w : List α} (hw : w ∈ blanks space) (s : List α) :
    skip space (w ++ s) = skip space s := List.dropWhile_append_of_pos hw

/-- A parser that accepts all of its input. -/
theorem phraseParse {p : PhraseParser α β} {a : β} (hp : Accepts space p L a F) {s : List α}
    (hs : s ∈ L) (hnil : F []) : PhraseParser.phraseParse space p s = some (a, []) := by
  have hinput : skip space s = skip space (s ++ []) := by rw [List.append_nil]
  obtain ⟨rest, hrun, hrest⟩ := hp.run hs hnil hinput
  rw [PhraseParser.phraseParse, hrun, Option.map_some, hrest]
  rfl

theorem mono {p : PhraseParser α β} {a : β} (hp : Accepts space p L a F) (hF : ∀ rest, G rest → F rest) :
    Accepts space p L a G where
  run hs hrest := hp.run hs (hF _ hrest)

/-- **Sequencing.**  What follows the first parser begins with what the second one takes. -/
theorem bind {p : PhraseParser α β} {q : β → PhraseParser α γ} {a : β} {b : γ}
    (hp : Accepts space p L a F) (hq : Accepts space (q a) M b G)
    (hfollow : ∀ m ∈ M, ∀ rest, G rest → F (m ++ rest)) :
    Accepts space (p >>= q) (L * M) b G where
  run := by
    intro s rest input hs hrest hinput
    obtain ⟨l, hl, m, hm, rfl⟩ := Language.mem_mul.mp hs
    rw [List.append_assoc] at hinput
    obtain ⟨mid, hpa, hmid⟩ := hp.run hl (hfollow m hm rest hrest) hinput
    obtain ⟨rest', hqb, hrest'⟩ := hq.run hm hrest hmid
    refine ⟨rest', ?_, hrest'⟩
    rw [bind_run, hpa]
    exact hqb

/-- The last step of a parser, which makes its value. -/
theorem map {p : PhraseParser α β} {a : β} (hp : Accepts space p L a F) (f : β → γ) :
    Accepts space (do let a ← p; return f a) L (f a) F where
  run := by
    intro s rest input hs hrest hinput
    obtain ⟨rest', hrun, hrest'⟩ := hp.run hs hrest hinput
    refine ⟨rest', ?_, hrest'⟩
    rw [bind_run, hrun]
    rfl

/-- White space in front. -/
theorem blanks_mul {p : PhraseParser α β} {a : β} (hp : Accepts space p L a F) :
    Accepts space p (blanks space * L) a F where
  run := by
    intro s rest input hs hrest hinput
    obtain ⟨w, hw, l, hl, rfl⟩ := Language.mem_mul.mp hs
    rw [List.append_assoc, skip_blanks hw] at hinput
    exact hp.run hl hrest hinput

/-- White space behind. -/
theorem mul_blanks {p : PhraseParser α β} {a : β} (hp : Accepts space p L a F)
    (hF : ∀ w ∈ blanks space, ∀ rest, G rest → F (w ++ rest)) :
    Accepts space p (L * blanks space) a G where
  run := by
    intro s rest input hs hrest hinput
    obtain ⟨l, hl, w, hw, rfl⟩ := Language.mem_mul.mp hs
    rw [List.append_assoc] at hinput
    obtain ⟨rest', hrun, hrest'⟩ := hp.run hl (hF w hw rest hrest) hinput
    exact ⟨rest', hrun, hrest'.trans (skip_blanks hw rest)⟩

/-- A literal that does not begin with white space. -/
theorem lit [DecidableEq α] {c : α} {cs : List α} (hc : space c = false) :
    Accepts space (PhraseParser.lit space (c :: cs)) {c :: cs} () fun _ => True where
  run := by
    rintro s rest input rfl - hinput
    have hskip : skip space (c :: cs ++ rest) = c :: cs ++ rest :=
      List.dropWhile_cons_of_neg (by rw [hc]; exact Bool.false_ne_true)
    rw [hskip] at hinput
    refine ⟨rest, ?_, rfl⟩
    rw [PhraseParser.lit, hinput, if_pos (List.prefix_append _ _), List.drop_left]

/-- Characters in a lexeme, up to one of another kind. -/
theorem lexeme_many {char : α → Bool} {str : List α} (hchar : ∀ c ∈ str, char c = true)
    (hspace : ∀ c ∈ str.head?, space c = false) :
    Accepts space (lexeme space (many char)) {str} str
      fun rest => ∃ c t, rest = c :: t ∧ char c = false ∧ space c = false where
  run := by
    rintro s rest input rfl ⟨c, t, rfl, hc, hcspace⟩ hinput
    have hskip : skip space (s ++ c :: t) = s ++ c :: t := by
      rcases s with _ | ⟨d, s⟩
      · exact List.dropWhile_cons_of_neg (by rw [hcspace]; exact Bool.false_ne_true)
      · have hd := hspace d rfl
        exact List.dropWhile_cons_of_neg (by rw [hd]; exact Bool.false_ne_true)
    have hstop : ¬ char c = true := by
      rw [hc]
      exact Bool.false_ne_true
    rw [hskip] at hinput
    refine ⟨c :: t, ?_, rfl⟩
    rw [lexeme, hinput, many, List.takeWhile_append_of_pos hchar, List.takeWhile_cons_of_neg hstop,
      List.dropWhile_append_of_pos hchar, List.dropWhile_cons_of_neg hstop, List.append_nil]

/-- **Repetition**: one string for each value, up to where the parser fails.  What follows a
string is the next one or what follows the repetition. -/
theorem kleene {p : PhraseParser α β} (hconsumes : Consumes p 1) {L : β → Language α}
    {as : List β} (hp : ∀ a ∈ as, Accepts space p (L a) a G)
    (hnext : ∀ a ∈ as, ∀ m ∈ L a, ∀ rest, G (m ++ rest)) (hlast : ∀ rest, F rest → G rest)
    (hstop : ∀ {rest input}, F rest → skip space input = skip space rest → p input = none) :
    Accepts space (PhraseParser.kleene p) (as.map L).prod as F where
  run := by
    induction as with
    | nil =>
        intro s rest input hs hrest hinput
        obtain rfl : s = [] := hs
        rw [List.nil_append] at hinput
        exact ⟨input, kleene_of_none (hstop hrest hinput), hinput⟩
    | cons a as ih =>
        intro s rest input hs hrest hinput
        obtain ⟨ha, has⟩ := List.forall_mem_cons.mp hp
        have hnext' := (List.forall_mem_cons.mp hnext).2
        rw [List.map_cons, List.prod_cons] at hs
        obtain ⟨l, hl, m, hm, rfl⟩ := Language.mem_mul.mp hs
        have hfollow : G (m ++ rest) := by
          rcases as with _ | ⟨a', as⟩
          · obtain rfl : m = [] := hm
            exact hlast rest hrest
          · rw [List.map_cons, List.prod_cons] at hm
            obtain ⟨l', hl', m', -, rfl⟩ := Language.mem_mul.mp hm
            rw [List.append_assoc]
            exact hnext' a' List.mem_cons_self l' hl' _
        rw [List.append_assoc] at hinput
        obtain ⟨mid, hrun, hmid⟩ := ha.run hl hfollow hinput
        obtain ⟨rest', hrun', hrest'⟩ := ih has hnext' hm hrest hmid
        refine ⟨rest', ?_, hrest'⟩
        rw [kleene_of_some hconsumes hrun, hrun']
        rfl

/-- **Lists**: values with separators between them, up to where there is no separator. -/
theorem list {p : PhraseParser α β} {sep : PhraseParser α Unit} (hsep : Consumes sep 1)
    (hconsumes : Consumes p 0) {S : Language α} {L : β → Language α} {a : β} {as : List β}
    (hS : Accepts space sep S () fun _ => True)
    (hp : ∀ x ∈ a :: as, Accepts space p (L x) x G) (hnext : ∀ m ∈ S, ∀ rest, G (m ++ rest))
    (hlast : ∀ rest, F rest → G rest)
    (hstop : ∀ {rest input}, F rest → skip space input = skip space rest → sep input = none) :
    Accepts space (PhraseParser.list p sep) (L a * (as.map fun x => S * L x).prod) (a :: as) F := by
  obtain ⟨ha, has⟩ := List.forall_mem_cons.mp hp
  have hitem : ∀ x ∈ as, Accepts space (do sep; p) (S * L x) x G := fun x hx =>
    hS.bind (has x hx) fun _ _ _ _ => True.intro
  have hbegin : ∀ x ∈ as, ∀ m ∈ S * L x, ∀ rest, G (m ++ rest) := by
    intro x _ m hm rest
    obtain ⟨s, hs, l, -, rfl⟩ := Language.mem_mul.mp hm
    rw [List.append_assoc]
    exact hnext s hs _
  have hnone : ∀ {rest input}, F rest → skip space input = skip space rest →
      (do sep; p : PhraseParser α β) input = none := by
    intro rest input hrest hinput
    rw [bind_run, hstop hrest hinput]
    rfl
  have hloop := kleene (hsep.bind fun _ => hconsumes) hitem hbegin hlast hnone
  refine ha.bind (hloop.map (a :: ·)) fun m hm rest hrest => ?_
  rcases as with _ | ⟨a', as⟩
  · obtain rfl : m = [] := hm
    exact hlast rest hrest
  · rw [List.map_cons, List.prod_cons] at hm
    obtain ⟨l, hl, m', -, rfl⟩ := Language.mem_mul.mp hm
    rw [List.append_assoc]
    exact hbegin a' List.mem_cons_self l hl _

end Accepts
