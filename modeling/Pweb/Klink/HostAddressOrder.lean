/-
# The order of host addresses (`plnode/ds/host_address.h`)

`HostAddress::operator<` compares two names on the length of the shorter one, and two ports
when the first name is not the smaller one.  A peer keeps its `address_db` in a
`LookupTable`, a `std::map` that this operator orders (`plnode/ds/lookup_table.h`).

The operator says nothing about the ports of two addresses whose second name is the smaller
one, so each of two addresses can be smaller than the other.  It orders exactly those sets of
addresses that are `Consistent` : where the names are compared at all, the ports go with them,
and where they are not, the ports differ.
-/
import Pweb.Foundation.SearchTree
import Pweb.Klink.Message
import Pweb.Shared.Text

namespace Klink

/-- The first character as `strncmp` compares it: a null character ends the string. -/
def firstChar (us : Bytes) : ℕ := (us.headD 0).toNat

/-- `strncmp` of at most `n` characters. -/
def strncmp : ℕ → Bytes → Bytes → Ordering
  | 0, _, _ => .eq
  | n + 1, us, vs =>
    if firstChar us < firstChar vs then .lt
    else if firstChar vs < firstChar us then .gt
    else if firstChar us = 0 then .eq
    else strncmp n us.tail vs.tail

variable {n m : ℕ} {us vs ws : Bytes}

theorem strncmp_zero_ne_lt : strncmp 0 us vs ≠ .lt := by
  unfold strncmp
  decide

/-- One character more. -/
theorem strncmp_succ_lt_iff : strncmp (n + 1) us vs = .lt ↔
    firstChar us < firstChar vs ∨
      firstChar us = firstChar vs ∧ firstChar us ≠ 0 ∧ strncmp n us.tail vs.tail = .lt := by
  rw [strncmp]
  rcases lt_trichotomy (firstChar us) (firstChar vs) with hlt | hsame | hgt
  · simp [hlt]
  · rw [if_neg hsame.not_lt, if_neg hsame.not_gt]
    by_cases hzero : firstChar us = 0
    · simp [hzero, ← hsame]
    · simp [hzero, ← hsame]
  · rw [if_neg hgt.not_gt, if_pos hgt]
    simp [hgt.not_gt, hgt.ne']

/-- A difference is found with more characters, too. -/
theorem strncmp_lt_mono (hle : n ≤ m) (h : strncmp n us vs = .lt) : strncmp m us vs = .lt := by
  induction n generalizing m us vs with
  | zero => exact absurd h strncmp_zero_ne_lt
  | succ n ih =>
      obtain ⟨m, rfl⟩ : ∃ l, m = l + 1 := Nat.exists_eq_succ_of_ne_zero (by omega)
      rw [strncmp_succ_lt_iff] at h ⊢
      rcases h with hlt | ⟨hsame, hne, htail⟩
      · exact Or.inl hlt
      · exact Or.inr ⟨hsame, hne, ih (Nat.le_of_succ_le_succ hle) htail⟩

theorem strncmp_lt_asymm (h : strncmp n us vs = .lt) : strncmp n vs us ≠ .lt := by
  induction n generalizing us vs with
  | zero => exact strncmp_zero_ne_lt
  | succ n ih =>
      rw [strncmp_succ_lt_iff] at h
      rw [Ne, strncmp_succ_lt_iff]
      rintro (hgt | ⟨hsame, hne, htail⟩)
      · rcases h with hlt | ⟨hsame, -, -⟩
        · exact hlt.not_gt hgt
        · exact hsame.not_gt hgt
      · rcases h with hlt | ⟨-, -, htail'⟩
        · exact hsame.not_gt hlt
        · exact ih htail' htail

theorem strncmp_lt_trans (h : strncmp n us vs = .lt) (h' : strncmp n vs ws = .lt) :
    strncmp n us ws = .lt := by
  induction n generalizing us vs ws with
  | zero => exact absurd h strncmp_zero_ne_lt
  | succ n ih =>
      rw [strncmp_succ_lt_iff] at h h' ⊢
      rcases h with hlt | ⟨hsame, hne, htail⟩
      · rcases h' with hlt' | ⟨hsame', -, -⟩
        · exact Or.inl (hlt.trans hlt')
        · exact Or.inl (hsame' ▸ hlt)
      · rcases h' with hlt' | ⟨hsame', -, htail'⟩
        · exact Or.inl (hsame ▸ hlt')
        · exact Or.inr ⟨hsame.trans hsame', hne, ih htail htail'⟩

namespace HostAddress

variable {a b c : HostAddress} {S : Set HostAddress}

/-! ## `operator<` -/

/-- The number of characters that `operator<` compares.  Lengths become an `int`, and the
comparison of an `int` with a length is one of `std::size_t`. -/
def minLength (a addr : HostAddress) : ℕ :=
  let minLength := Int32.ofNat a.hostName.length
  sizeT (if sizeT minLength.toInt > addr.hostName.length then Int32.ofNat addr.hostName.length
    else minLength).toInt

/-- The name of `a` is the smaller one as far as names are compared. -/
def comesBefore (a addr : HostAddress) : Bool :=
  strncmp (minLength a addr) a.hostName addr.hostName = .lt

/-- `operator<`. -/
def less (a addr : HostAddress) : Bool :=
  if a.comesBefore addr then true else a.hostPort < addr.hostPort

theorem less_iff : less a b ↔ a.comesBefore b ∨ a.hostPort < b.hostPort := by
  unfold less
  by_cases h : a.comesBefore b <;> simp [h]

theorem comesBefore_iff :
    a.comesBefore b ↔ strncmp (minLength a b) a.hostName b.hostName = .lt := by
  simp [comesBefore]

/-- Two names are not both the smaller one. -/
theorem comesBefore_asymm (h : a.comesBefore b) : ¬ b.comesBefore a := by
  rw [comesBefore_iff] at h ⊢
  intro h'
  exact strncmp_lt_asymm (strncmp_lt_mono (le_max_left _ (minLength b a)) h)
    (strncmp_lt_mono (le_max_right (minLength a b) _) h')

/-- Nor does a third name come between them the other way round, however many characters each
of the three comparisons takes. -/
theorem comesBefore_acyclic (hab : a.comesBefore b) (hbc : b.comesBefore c) :
    ¬ c.comesBefore a := by
  rw [comesBefore_iff] at hab hbc ⊢
  intro hca
  let n := max (minLength a b) (max (minLength b c) (minLength c a))
  have hab' := strncmp_lt_mono (m := n) (le_max_left _ _) hab
  have hbc' := strncmp_lt_mono (m := n) ((le_max_left _ _).trans (le_max_right _ _)) hbc
  have hca' := strncmp_lt_mono (m := n) ((le_max_right _ _).trans (le_max_right _ _)) hca
  exact strncmp_lt_asymm (strncmp_lt_trans hab' hbc') hca'

/-! ## Sets that are ordered -/

/-- On `S`, ports go with the names as far as names are compared, and differ otherwise. -/
structure Consistent (S : Set HostAddress) : Prop where
  port_le : ∀ a ∈ S, ∀ b ∈ S, a.comesBefore b → a.hostPort ≤ b.hostPort
  port_ne : ∀ a ∈ S, ∀ b ∈ S, a ≠ b → ¬ a.comesBefore b → ¬ b.comesBefore a →
    a.hostPort ≠ b.hostPort

theorem Consistent.port_le_of_less (h : Consistent S) (ha : a ∈ S) (hb : b ∈ S)
    (hless : less a b) : a.hostPort ≤ b.hostPort := by
  rcases less_iff.mp hless with hbefore | hport
  · exact h.port_le a ha b hb hbefore
  · exact Int32.le_of_lt hport

/-- Among addresses with one port, the names alone decide. -/
theorem comesBefore_of_less (hport : a.hostPort = b.hostPort) (hless : less a b) :
    a.comesBefore b := by
  rcases less_iff.mp hless with hbefore | hlt
  · exact hbefore
  · rw [hport] at hlt
    exact absurd hlt Int32.lt_irrefl

theorem not_less_self (a : HostAddress) : ¬ less a a := fun h =>
  have hbefore := comesBefore_of_less rfl h
  comesBefore_asymm hbefore hbefore

theorem Consistent.equivalent_iff_eq (h : Consistent S) (ha : a ∈ S) (hb : b ∈ S) :
    Equivalent less a b ↔ a = b := by
  rw [equivalent_iff, less_iff, less_iff]
  constructor
  · rintro ⟨hab, hba⟩
    rw [not_or] at hab hba
    by_contra hne
    have hport := Int32.le_antisymm (Int32.not_lt.mp hba.2) (Int32.not_lt.mp hab.2)
    exact h.port_ne a ha b hb hne hab.1 hba.1 hport
  · rintro rfl
    rw [← less_iff]
    exact ⟨not_less_self a, not_less_self a⟩

theorem Consistent.less_trans (h : Consistent S) (ha : a ∈ S) (hb : b ∈ S) (hc : c ∈ S)
    (hab : less a b) (hbc : less b c) : less a c := by
  have hab' := h.port_le_of_less ha hb hab
  have hbc' := h.port_le_of_less hb hc hbc
  rw [less_iff]
  by_cases hac : a.hostPort < c.hostPort
  · exact Or.inr hac
  · -- all three ports are the same, so that the names decide
    left
    have hca' := Int32.not_lt.mp hac
    have hportab : a.hostPort = b.hostPort := Int32.le_antisymm hab' (Int32.le_trans hbc' hca')
    have hportbc : b.hostPort = c.hostPort := Int32.le_antisymm hbc' (Int32.le_trans hca' hab')
    have hbefore := comesBefore_of_less hportab hab
    have hbefore' := comesBefore_of_less hportbc hbc
    by_contra hnot
    refine h.port_ne a ha c hc ?_ hnot (comesBefore_acyclic hbefore hbefore')
      (hportab.trans hportbc)
    rintro rfl
    exact comesBefore_asymm hbefore hbefore'

/-- Consistent addresses are ordered. -/
theorem Consistent.strictWeakOrderOn (h : Consistent S) : StrictWeakOrderOn less S where
  irrefl a _ := not_less_self a
  trans a ha b hb c hc := h.less_trans ha hb hc
  equivalent_trans a ha b hb c hc hab hbc := by
    rw [h.equivalent_iff_eq ha hb] at hab
    rwa [hab]

/-- Addresses that are ordered are consistent. -/
theorem consistent_of_strictWeakOrderOn (h : StrictWeakOrderOn less S)
    (hequiv : ∀ a ∈ S, ∀ b ∈ S, Equivalent less a b ↔ a = b) : Consistent S where
  port_le a ha b hb hbefore := by
    have hnot := h.asymm ha hb (less_iff.mpr (Or.inl hbefore))
    rw [less_iff, not_or] at hnot
    exact Int32.not_lt.mp hnot.2
  port_ne a ha b hb hne hab hba hport := by
    refine hne ((hequiv a ha b hb).mp (equivalent_iff.mpr ⟨?_, ?_⟩))
    · exact fun hless => hab (comesBefore_of_less hport hless)
    · exact fun hless => hba (comesBefore_of_less hport.symm hless)

/-! ## Tables of host addresses -/

/-- `lookup` in a `LookupTable` whose keys are host addresses. -/
def lookup {ν : Type} (key : HostAddress) (table : SearchTree (HostAddress × ν)) : Option ν :=
  (table.find less key).map Prod.snd

/-- What `operator<` is for: it orders the addresses of `S`, only equal ones are equivalent, and
a table to which entries have been added with `add`, one after the other, has for every address
the value that was added first for exactly this one. -/
structure Orders (S : Set HostAddress) : Prop where
  strictWeakOrderOn : StrictWeakOrderOn less S
  equivalent_iff_eq : ∀ a ∈ S, ∀ b ∈ S, Equivalent less a b ↔ a = b
  lookup_eq : ∀ {ν : Type} (es : List (HostAddress × ν)) (table : SearchTree (HostAddress × ν)),
    (∀ e ∈ es, e.1 ∈ S) → SearchTree.Built less es table →
      ∀ key ∈ S, lookup key table = (es.find? fun e => e.1 = key).map Prod.snd

/-- **Addresses are ordered exactly if they are consistent.** -/
theorem orders_iff : Orders S ↔ Consistent S := by
  constructor
  · intro h
    exact consistent_of_strictWeakOrderOn h.strictWeakOrderOn h.equivalent_iff_eq
  · intro h
    refine ⟨h.strictWeakOrderOn, fun a ha b hb => h.equivalent_iff_eq ha hb, ?_⟩
    intro ν es table hkeys hbuilt key hkey
    rw [lookup, SearchTree.find_of_built h.strictWeakOrderOn hkeys hkey hbuilt]
    congr 1
    apply List.find?_congr
    intro e he
    rw [Bool.eq_iff_iff, h.equivalent_iff_eq (hkeys e he) hkey, decide_eq_true_iff]

/-- The names `b` and `a` with ports that go the other way: each address is smaller than the
other, and the one that is added second is not found. -/
theorem added_address_not_found : ¬ Orders Set.univ ∧
    ∃ table, SearchTree.Built less [(⟨text "b", 1⟩, 10), (⟨text "a", 2⟩, 20)] table ∧
      lookup ⟨text "a", 2⟩ table = (none : Option ℕ) := by
  constructor
  · intro h
    have hab : less ⟨text "a", 2⟩ ⟨text "b", 1⟩ := by decide +kernel
    have hba : less ⟨text "b", 1⟩ ⟨text "a", 2⟩ := by decide +kernel
    exact h.strictWeakOrderOn.asymm (Set.mem_univ _) (Set.mem_univ _) hab hba
  · exact ⟨_, SearchTree.built_foldl _ _, by decide +kernel⟩

end HostAddress

end Klink
