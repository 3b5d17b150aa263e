/-
# Search trees with a comparison

An ordered map in the manner of `std::map` : a binary tree of entries that are compared by
`lt` on their keys.  A key is looked up by walking down to the first entry that is not
smaller; a new entry is put where that walk ends, and the tree may then be rebalanced in any
way that keeps its entries in order.

`StrictWeakOrderOn lt S` : on the keys in `S` the comparison is what such a map requires,
and keys neither of which is smaller are equivalent.  `Built lt es t` : adding the entries
`es` one after the other can have made the tree `t`.

`find_of_built` : with a strict weak order, a key is found in every such tree exactly if one
equivalent to it has been added, and then with the first entry of these.
-/
import Mathlib

variable {κ ν : Type}

/-! ## Orders -/

/-- Neither key is smaller. -/
def Equivalent (lt : κ → κ → Bool) (a b : κ) : Bool := !lt a b && !lt b a

/-- On `S`, `lt` is a strict weak ordering. -/
structure StrictWeakOrderOn (lt : κ → κ → Bool) (S : Set κ) : Prop where
  irrefl : ∀ a ∈ S, ¬ lt a a
  trans : ∀ a ∈ S, ∀ b ∈ S, ∀ c ∈ S, lt a b → lt b c → lt a c
  equivalent_trans : ∀ a ∈ S, ∀ b ∈ S, ∀ c ∈ S,
    Equivalent lt a b → Equivalent lt b c → Equivalent lt a c

variable {lt : κ → κ → Bool} {S : Set κ} {a b c : κ}

theorem equivalent_iff : Equivalent lt a b ↔ ¬ lt a b ∧ ¬ lt b a := by
  simp [Equivalent]

theorem equivalent_comm : Equivalent lt a b ↔ Equivalent lt b a := by
  rw [equivalent_iff, equivalent_iff, and_comm]

namespace StrictWeakOrderOn

theorem asymm (h : StrictWeakOrderOn lt S) (ha : a ∈ S) (hb : b ∈ S) (hlt : lt a b) :
    ¬ lt b a :=
  fun hgt => h.irrefl a ha (h.trans a ha b hb a ha hlt hgt)

end StrictWeakOrderOn

/-! ## Trees -/

/-- A binary tree of entries. -/
inductive SearchTree (α : Type) where
  | empty
  | node (left : SearchTree α) (entry : α) (right : SearchTree α)

namespace SearchTree

/-- The entries from left to right. -/
def inorder {α : Type} : SearchTree α → List α
  | empty => []
  | node left entry right => left.inorder ++ entry :: right.inorder

variable (lt)

/-- The first entry whose key is not smaller than `k`, on the way down; `best` is the last one
at which the walk went left. -/
def lowerBound (k : κ) : SearchTree (κ × ν) → Option (κ × ν) → Option (κ × ν)
  | empty, best => best
  | node left e right, best =>
    if lt e.1 k then right.lowerBound k best else left.lowerBound k (some e)

/-- The entry of a key. -/
def find (k : κ) (t : SearchTree (κ × ν)) : Option (κ × ν) :=
  match t.lowerBound lt k none with
  | none => none
  | some e => if lt k e.1 then none else some e

/-- Putting an entry where the walk down ends, unless the entry before that place, at which the
walk last went right, is not smaller. -/
def insertUnique (e : κ × ν) : SearchTree (κ × ν) → Option (κ × ν) → SearchTree (κ × ν)
  | empty, before => if before.all fun f => lt f.1 e.1 then node empty e empty else empty
  | node left f right, before =>
    if lt e.1 f.1 then node (left.insertUnique e before) f right
    else node left f (right.insertUnique e (some f))

/-- Adding an entry whose key is not found. -/
def add (e : κ × ν) (t : SearchTree (κ × ν)) : SearchTree (κ × ν) :=
  if (t.find lt e.1).isSome then t else t.insertUnique lt e none

/-- The trees that adding entries can make; after each the tree may be rebalanced. -/
inductive Built : List (κ × ν) → SearchTree (κ × ν) → Prop
  | empty : Built [] empty
  | add {es : List (κ × ν)} {e : κ × ν} {t t' : SearchTree (κ × ν)} (h : Built es t)
      (hrebalanced : t'.inorder = (t.add lt e).inorder) : Built (es ++ [e]) t'

/-- The entries are in order, and their keys are in `S`. -/
structure Ordered (S : Set κ) (es : List (κ × ν)) : Prop where
  sorted : es.Pairwise fun e f => lt e.1 f.1
  keys : ∀ e ∈ es, e.1 ∈ S

variable {lt} {k : κ} {e : κ × ν} {t t' : SearchTree (κ × ν)} {es us vs : List (κ × ν)}

theorem ordered_append : Ordered lt S (us ++ vs) ↔ Ordered lt S us ∧ Ordered lt S vs ∧
    ∀ e ∈ us, ∀ f ∈ vs, lt e.1 f.1 := by
  constructor
  · intro h
    obtain ⟨hus, hvs, hlt⟩ := List.pairwise_append.mp h.sorted
    exact ⟨⟨hus, fun e he => h.keys e (List.mem_append_left _ he)⟩,
      ⟨hvs, fun e he => h.keys e (List.mem_append_right _ he)⟩, hlt⟩
  · rintro ⟨hus, hvs, hlt⟩
    refine ⟨List.pairwise_append.mpr ⟨hus.sorted, hvs.sorted, hlt⟩, fun e he => ?_⟩
    rcases List.mem_append.mp he with he | he
    · exact hus.keys e he
    · exact hvs.keys e he

theorem ordered_cons : Ordered lt S (e :: es) ↔
    e.1 ∈ S ∧ (∀ f ∈ es, lt e.1 f.1) ∧ Ordered lt S es := by
  constructor
  · intro h
    obtain ⟨hlt, hsorted⟩ := List.pairwise_cons.mp h.sorted
    exact ⟨h.keys e List.mem_cons_self, hlt, hsorted,
      fun f hf => h.keys f (List.mem_cons_of_mem e hf)⟩
  · rintro ⟨he, hlt, hes⟩
    exact ⟨List.pairwise_cons.mpr ⟨hlt, hes.sorted⟩, List.forall_mem_cons.mpr ⟨he, hes.keys⟩⟩

/-! ## Looking a key up -/

/-- The walk down finds the first entry of the list that is not smaller. -/
theorem lowerBound_eq (h : StrictWeakOrderOn lt S) (hk : k ∈ S) (hordered : Ordered lt S t.inorder)
    (best : Option (κ × ν)) :
    t.lowerBound lt k best = (t.inorder.find? fun e => !lt e.1 k).or best := by
  induction t generalizing best with
  | empty => rfl
  | node left e right ihl ihr =>
      obtain ⟨hleft, hcons, hlt⟩ := ordered_append.mp hordered
      obtain ⟨he, hgt, hright⟩ := ordered_cons.mp hcons
      rw [lowerBound, inorder, List.find?_append]
      by_cases hek : lt e.1 k
      · have hnone : left.inorder.find? (fun e => !lt e.1 k) = none := by
          rw [List.find?_eq_none]
          intro f hf
          have hfk := h.trans f.1 (hleft.keys f hf) e.1 he k hk (hlt f hf e List.mem_cons_self) hek
          simp [hfk]
        rw [if_pos hek, ihr hright, hnone, Option.none_or, List.find?_cons_of_neg (by simp [hek])]
      · rw [if_neg hek, ihl hleft, List.find?_cons_of_pos (by simp [hek])]
        cases left.inorder.find? (fun e => !lt e.1 k) <;> rfl

/-- The first entry that is not smaller is equivalent, or none is. -/
theorem find?_equivalent (h : StrictWeakOrderOn lt S) (hk : k ∈ S) (hordered : Ordered lt S es) :
    ((es.find? fun e => !lt e.1 k).bind fun e => if lt k e.1 then none else some e) =
      es.find? fun e => Equivalent lt e.1 k := by
  induction es with
  | nil => rfl
  | cons e es ih =>
      obtain ⟨he, hlt, hes⟩ := ordered_cons.mp hordered
      by_cases hek : lt e.1 k
      · rw [List.find?_cons_of_neg (by simp [hek]), ih hes,
          List.find?_cons_of_neg (by simp [Equivalent, hek])]
      · rw [List.find?_cons_of_pos (by simp [hek]), Option.bind_some]
        by_cases hke : lt k e.1
        · -- all entries that follow are larger
          rw [if_pos hke, List.find?_cons_of_neg (by simp [Equivalent, hke]), eq_comm,
            List.find?_eq_none]
          intro f hf
          have hkf := h.trans k hk e.1 he f.1 (hes.keys f hf) hke (hlt f hf)
          simp [Equivalent, hkf]
        · rw [if_neg hke, List.find?_cons_of_pos (by simp [Equivalent, hek, hke])]

/-- **A key is found** exactly with an equivalent entry of the tree. -/
theorem find_eq (h : StrictWeakOrderOn lt S) (hk : k ∈ S) (hordered : Ordered lt S t.inorder) :
    t.find lt k = t.inorder.find? fun e => Equivalent lt e.1 k := by
  rw [← find?_equivalent h hk hordered, find, lowerBound_eq h hk hordered, Option.or_none]
  cases t.inorder.find? fun e => !lt e.1 k <;> rfl

/-! ## Adding entries -/

/-- **A new entry is put in its place** : behind the smaller entries and before the larger ones. -/
theorem inorder_insertUnique (h : StrictWeakOrderOn lt S) (he : e.1 ∈ S)
    (hordered : Ordered lt S t.inorder) (hnew : ∀ f ∈ t.inorder, ¬ Equivalent lt f.1 e.1)
    {before : Option (κ × ν)} (hbefore : before.all fun f => lt f.1 e.1) :
    ∃ us vs, t.inorder = us ++ vs ∧ (t.insertUnique lt e before).inorder = us ++ e :: vs ∧
      (∀ f ∈ us, lt f.1 e.1) ∧ ∀ f ∈ vs, lt e.1 f.1 := by
  induction t generalizing before with
  | empty =>
      refine ⟨[], [], rfl, ?_, by simp, by simp⟩
      rw [insertUnique, if_pos hbefore]
      rfl
  | node left f right ihl ihr =>
      obtain ⟨hleft, hcons, hlt⟩ := ordered_append.mp hordered
      obtain ⟨hf, hgt, hright⟩ := ordered_cons.mp hcons
      have hmem : f ∈ (node left f right).inorder :=
        List.mem_append_right _ List.mem_cons_self
      rw [insertUnique, inorder]
      by_cases hef : lt e.1 f.1
      · obtain ⟨us, vs, hsplit, hinsert, hus, hvs⟩ := ihl hleft
          (fun g hg => hnew g (List.mem_append_left _ hg)) hbefore
        refine ⟨us, vs ++ f :: right.inorder, ?_, ?_, hus, ?_⟩
        · rw [hsplit, List.append_assoc]
        · rw [if_pos hef, inorder, hinsert, List.append_assoc, List.cons_append]
        · intro g hg
          rcases List.mem_append.mp hg with hg | hg
          · exact hvs g hg
          · rcases List.mem_cons.mp hg with rfl | hg
            · exact hef
            · exact h.trans e.1 he f.1 hf g.1 (hright.keys g hg) hef (hgt g hg)
      · have hfe : lt f.1 e.1 := by
          by_contra hnot
          exact hnew f hmem (equivalent_iff.mpr ⟨hnot, hef⟩)
        have hrest : ∀ g ∈ right.inorder, ¬ Equivalent lt g.1 e.1 := fun g hg =>
          hnew g (List.mem_append_right _ (List.mem_cons_of_mem f hg))
        have hbefore' : (some f).all fun f => lt f.1 e.1 := hfe
        obtain ⟨us, vs, hsplit, hinsert, hus, hvs⟩ := ihr hright hrest hbefore'
        refine ⟨left.inorder ++ f :: us, vs, ?_, ?_, ?_, hvs⟩
        · rw [hsplit, List.append_assoc, List.cons_append]
        · rw [if_neg hef, inorder, hinsert, List.append_assoc, List.cons_append]
        · intro g hg
          rcases List.mem_append.mp hg with hg | hg
          · have hgf := hlt g hg f List.mem_cons_self
            exact h.trans g.1 (hleft.keys g hg) f.1 hf e.1 he hgf hfe
          · rcases List.mem_cons.mp hg with rfl | hg
            · exact hfe
            · exact hus g hg

theorem find?_cons_equivalent : ((e :: es).find? fun f => Equivalent lt f.1 k) =
    if Equivalent lt e.1 k then some e else es.find? fun f => Equivalent lt f.1 k := by
  rw [List.find?_cons]
  cases Equivalent lt e.1 k <;> rfl

/-- An entry in its place among others that are not equivalent. -/
theorem find?_middle (h : StrictWeakOrderOn lt S) (he : e.1 ∈ S) (hk : k ∈ S)
    (hkeys : ∀ f ∈ us ++ vs, f.1 ∈ S) (hnew : ∀ f ∈ us ++ vs, ¬ Equivalent lt f.1 e.1) :
    ((us ++ e :: vs).find? fun f => Equivalent lt f.1 k) =
      ((us ++ vs).find? fun f => Equivalent lt f.1 k).or
        ([e].find? fun f => Equivalent lt f.1 k) := by
  by_cases hek : Equivalent lt e.1 k
  · have hnone : ∀ f ∈ us ++ vs, ¬ Equivalent lt f.1 k := fun f hf hfk =>
      hnew f hf (h.equivalent_trans f.1 (hkeys f hf) k hk e.1 he hfk (equivalent_comm.mp hek))
    have hus : us.find? (fun f => Equivalent lt f.1 k) = none :=
      List.find?_eq_none.mpr fun f hf => hnone f (List.mem_append_left _ hf)
    rw [List.find?_append, hus, List.find?_eq_none.mpr hnone, find?_cons_equivalent,
      find?_cons_equivalent, if_pos hek, if_pos hek]
  · rw [List.find?_append, List.find?_append, find?_cons_equivalent, find?_cons_equivalent,
      if_neg hek, if_neg hek, List.find?_nil, Option.or_none]

/-- **What adding an entry does** : it is found under the keys equivalent to its own that have not
been found before, and all that was found is found still. -/
theorem add_spec (h : StrictWeakOrderOn lt S) (he : e.1 ∈ S) (hordered : Ordered lt S t.inorder) :
    Ordered lt S (t.add lt e).inorder ∧ ∀ k ∈ S,
      (t.add lt e).inorder.find? (fun f => Equivalent lt f.1 k) =
        (t.inorder.find? fun f => Equivalent lt f.1 k).or
          ([e].find? fun f => Equivalent lt f.1 k) := by
  rw [add, find_eq h he hordered]
  by_cases hfound : (t.inorder.find? fun f => Equivalent lt f.1 e.1).isSome
  · rw [if_pos hfound]
    refine ⟨hordered, fun k hk => ?_⟩
    by_cases hek : Equivalent lt e.1 k
    · obtain ⟨f, hf, hfe⟩ := List.find?_isSome.mp hfound
      have hfk := h.equivalent_trans f.1 (hordered.keys f hf) e.1 he k hk hfe hek
      have hsome : (t.inorder.find? fun f => Equivalent lt f.1 k).isSome :=
        List.find?_isSome.mpr ⟨f, hf, hfk⟩
      rw [Option.or_of_isSome hsome]
    · rw [find?_cons_equivalent, if_neg hek, List.find?_nil, Option.or_none]
  · have hnew : ∀ f ∈ t.inorder, ¬ Equivalent lt f.1 e.1 := by
      simpa using hfound
    rw [if_neg hfound]
    have hbefore : (none : Option (κ × ν)).all fun f => lt f.1 e.1 := rfl
    obtain ⟨us, vs, hsplit, hinsert, hus, hvs⟩ :=
      inorder_insertUnique h he hordered hnew hbefore
    rw [hsplit] at hordered hnew ⊢
    rw [hinsert]
    obtain ⟨hordus, hordvs, hlt⟩ := ordered_append.mp hordered
    refine ⟨ordered_append.mpr ⟨hordus, ordered_cons.mpr ⟨he, hvs, hordvs⟩, ?_⟩, fun k hk =>
      find?_middle h he hk hordered.keys hnew⟩
    intro f hf g hg
    rcases List.mem_cons.mp hg with rfl | hg
    · exact hus f hf
    · exact hlt f hf g hg

/-- The entries of a tree that has been built are in order, and for every key the first
equivalent one that was added is among them. -/
theorem Built.spec (h : StrictWeakOrderOn lt S) (hkeys : ∀ e ∈ es, e.1 ∈ S) (hb : Built lt es t) :
    Ordered lt S t.inorder ∧ ∀ k ∈ S,
      t.inorder.find? (fun f => Equivalent lt f.1 k) = es.find? fun f => Equivalent lt f.1 k := by
  induction hb with
  | empty => exact ⟨⟨List.Pairwise.nil, by simp [inorder]⟩, fun k hk => rfl⟩
  | add hb hrebalanced ih =>
      obtain ⟨hordered, hfind⟩ := ih fun f hf => hkeys f (List.mem_append_left _ hf)
      have he := hkeys _ (List.mem_append_right _ List.mem_cons_self)
      obtain ⟨hadded, hadd⟩ := add_spec h he hordered
      rw [hrebalanced]
      refine ⟨hadded, fun k hk => ?_⟩
      rw [hadd k hk, hfind k hk, List.find?_append]

/-- **A key is found** in a tree that has been built exactly with the first entry that was added
under an equivalent key. -/
theorem find_of_built (h : StrictWeakOrderOn lt S) (hkeys : ∀ e ∈ es, e.1 ∈ S) (hk : k ∈ S)
    (hb : Built lt es t) : t.find lt k = es.find? fun e => Equivalent lt e.1 k := by
  obtain ⟨hordered, hfind⟩ := hb.spec h hkeys
  rw [find_eq h hk hordered, hfind k hk]

/-- Trees can be built by adding whatever entries there are. -/
theorem built_foldl (lt : κ → κ → Bool) (es : List (κ × ν)) :
    Built lt es (es.foldl (fun t e => t.add lt e) empty) := by
  induction es using List.reverseRecOn with
  | nil => exact Built.empty
  | append_singleton es e ih =>
      rw [List.foldl_append]
      exact ih.add rfl

end SearchTree
