/-
# Bins

Items distributed over bins.  The bins have keys and are kept in the order of the
keys; a new item goes to the least loaded bin, the first of them if there are
several.

* `items_place`, `items_erase` : what the operations do to the items as a whole;
* `find?_place`, `find?_insert`, `find?_erase` : what they do to one bin;
* `least_spec` : the least loaded bin in terms of loads and keys;
* `room` : how many items the bins ahead of a given one take before its turn comes
  (`room_place`, `exists_ahead_of_room`);
* `Balanced` : the loads differ by at most one (`Balanced.place`).
-/
import Mathlib

/-- Bins with their keys. -/
abbrev Bins (κ α : Type) := List (κ × List α)

namespace Bins

variable {κ α : Type}

/-- The items of all bins. -/
def items (b : Bins κ α) : List α := b.flatMap Prod.snd

def keys (b : Bins κ α) : List κ := b.map Prod.fst

/-- The least loaded bin, the first of them if there are several. -/
def least (b : Bins κ α) : Option (κ × List α) := List.argmin (fun e => e.2.length) b

theorem mem_keys {b : Bins κ α} {k : κ} : k ∈ b.keys ↔ ∃ l, (k, l) ∈ b := by
  simp [keys]

theorem least_eq_none_iff {b : Bins κ α} : b.least = none ↔ b = [] := List.argmin_eq_none

variable [LinearOrder κ]

/-- The bins are in the order of their keys. -/
def Sorted (b : Bins κ α) : Prop := b.Pairwise fun x y => x.1 < y.1

/-- Add an empty bin at its place, unless there is one with that key. -/
def insert (k : κ) : Bins κ α → Bins κ α
  | [] => [(k, [])]
  | e :: b => if k < e.1 then (k, []) :: e :: b else if k = e.1 then e :: b else e :: insert k b

/-- Put an item into a bin, behind the items there. -/
def place (k : κ) (a : α) (b : Bins κ α) : Bins κ α :=
  b.map fun e => if e.1 = k then (e.1, e.2 ++ [a]) else e

/-- Remove a bin. -/
def erase (k : κ) (b : Bins κ α) : Bins κ α := b.filter fun e => e.1 ≠ k

/-- The items of a bin. -/
def find? (k : κ) (b : Bins κ α) : Option (List α) := (List.find? (fun e => e.1 = k) b).map Prod.snd

variable {b : Bins κ α} {k : κ} {l : List α} {a : α}

/-! ## Keys -/

theorem Sorted.keys_nodup (h : b.Sorted) : b.keys.Nodup := by
  rw [keys, List.Nodup, List.pairwise_map]
  exact h.imp fun hlt => hlt.ne

/-- A bin splits the others. -/
theorem Sorted.split (h : b.Sorted) (hmem : (k, l) ∈ b) :
    ∃ b₁ b₂, b = b₁ ++ (k, l) :: b₂ ∧ ∀ e ∈ b₁ ++ b₂, e.1 ≠ k := by
  obtain ⟨b₁, b₂, rfl⟩ := List.append_of_mem hmem
  refine ⟨b₁, b₂, rfl, fun e he heq => ?_⟩
  have hnodup := h.keys_nodup
  rw [keys, List.map_append, List.map_cons, List.nodup_middle, List.nodup_cons,
    ← List.map_append] at hnodup
  have hkey : e.1 ∈ (b₁ ++ b₂).map Prod.fst := List.mem_map_of_mem he
  rw [heq] at hkey
  exact hnodup.1 hkey

theorem place_of_ne (h : ∀ e ∈ b, e.1 ≠ k) (a : α) : place k a b = b := by
  induction b with
  | nil => rfl
  | cons e b ih =>
      rw [List.forall_mem_cons] at h
      rw [place, List.map_cons, if_neg h.1, ← place, ih h.2]

theorem erase_of_ne (h : ∀ e ∈ b, e.1 ≠ k) : erase k b = b := by
  apply List.filter_eq_self.mpr
  intro e he
  exact decide_eq_true (h e he)

theorem place_split {b₁ b₂ : Bins κ α} (h : ∀ e ∈ b₁ ++ b₂, e.1 ≠ k) (a : α) :
    place k a (b₁ ++ (k, l) :: b₂) = b₁ ++ (k, l ++ [a]) :: b₂ := by
  rw [List.forall_mem_append] at h
  rw [place, List.map_append, List.map_cons, if_pos rfl, ← place, ← place, place_of_ne h.1,
    place_of_ne h.2]

theorem erase_split {b₁ b₂ : Bins κ α} (h : ∀ e ∈ b₁ ++ b₂, e.1 ≠ k) :
    erase k (b₁ ++ (k, l) :: b₂) = b₁ ++ b₂ := by
  rw [erase, List.filter_append, List.filter_cons_of_neg (by simp), ← List.filter_append]
  exact erase_of_ne h

theorem Sorted.find?_eq_some_iff (h : b.Sorted) : b.find? k = some l ↔ (k, l) ∈ b := by
  constructor
  · intro hfind
    obtain ⟨e, he, rfl⟩ := Option.map_eq_some_iff.mp hfind
    have hkey := List.find?_some he
    obtain rfl : e.1 = k := of_decide_eq_true hkey
    exact List.mem_of_find?_eq_some he
  · intro hmem
    obtain ⟨b₁, b₂, rfl, hne⟩ := h.split hmem
    rw [List.forall_mem_append] at hne
    have hnone : List.find? (fun e => decide (e.1 = k)) b₁ = none :=
      List.find?_eq_none.mpr fun e he => by simpa using hne.1 e he
    rw [find?, List.find?_append, hnone]
    simp

/-! ## Operations -/

theorem mem_insert {e : κ × List α} (h : e ∈ insert k b) : e = (k, []) ∨ e ∈ b := by
  induction b with
  | nil => exact Or.inl (List.mem_singleton.mp h)
  | cons x b ih =>
      rw [insert] at h
      split at h
      · exact List.mem_cons.mp h
      · split at h
        · exact Or.inr h
        · rcases List.mem_cons.mp h with rfl | h
          · exact Or.inr List.mem_cons_self
          · exact (ih h).imp_right (List.mem_cons_of_mem _)

theorem Sorted.insert (h : b.Sorted) (k : κ) : (insert k b).Sorted := by
  induction b with
  | nil => exact List.pairwise_singleton _ _
  | cons x b ih =>
      have hb : ∀ y ∈ b, x.1 < y.1 := fun y hy => List.rel_of_pairwise_cons h hy
      rw [Bins.insert]
      split
      · next hlt =>
        refine List.pairwise_cons.mpr ⟨?_, h⟩
        exact List.forall_mem_cons.mpr ⟨hlt, fun y hy => hlt.trans (hb y hy)⟩
      · next hle =>
        split
        · exact h
        · next hne =>
          refine List.pairwise_cons.mpr ⟨fun y hy => ?_, ih h.of_cons⟩
          rcases mem_insert hy with rfl | hy
          · exact lt_of_le_of_ne (not_lt.mp hle) (Ne.symm hne)
          · exact hb y hy

theorem Sorted.place (h : b.Sorted) (k : κ) (a : α) : (place k a b).Sorted := by
  rw [Sorted, Bins.place, List.pairwise_map]
  apply h.imp
  intro x y hlt
  split <;> split <;> exact hlt

theorem Sorted.erase (h : b.Sorted) (k : κ) : (erase k b).Sorted := List.Pairwise.filter _ h

/-- A new bin holds no items. -/
theorem items_insert (k : κ) (b : Bins κ α) : (insert k b).items = b.items := by
  induction b with
  | nil => rfl
  | cons x b ih =>
      rw [insert]
      split
      · rfl
      · split
        · rfl
        · show x.2 ++ (insert k b).items = x.2 ++ items b
          rw [ih]

/-- Placing an item adds it. -/
theorem items_place (h : b.Sorted) (hmem : (k, l) ∈ b) (a : α) :
    (place k a b).items.Perm (a :: b.items) := by
  obtain ⟨b₁, b₂, rfl, hne⟩ := h.split hmem
  rw [place_split hne]
  simp only [items, List.flatMap_append, List.flatMap_cons, List.append_assoc,
    List.singleton_append]
  rw [← List.append_assoc, ← List.append_assoc]
  apply List.perm_middle

/-- Removing a bin removes its items. -/
theorem items_erase (h : b.Sorted) (hmem : (k, l) ∈ b) :
    b.items.Perm (l ++ (erase k b).items) := by
  obtain ⟨b₁, b₂, rfl, hne⟩ := h.split hmem
  rw [erase_split hne]
  simp only [items, List.flatMap_append, List.flatMap_cons, ← List.append_assoc]
  exact List.perm_append_comm.append_right _

/-- Placing an item changes one bin only. -/
theorem mem_of_mem_place {e : κ × List α} (h : e ∈ place k a b) (hne : e.1 ≠ k) : e ∈ b := by
  obtain ⟨x, hx, hxe⟩ := List.mem_map.mp h
  split at hxe
  · next heq =>
    rw [← hxe] at hne
    exact absurd heq hne
  · rwa [← hxe]

theorem mem_place (h : (k, l) ∈ b) (a : α) : (k, l ++ [a]) ∈ place k a b :=
  List.mem_map.mpr ⟨(k, l), h, if_pos rfl⟩

theorem mem_place_of_ne {e : κ × List α} (h : e ∈ b) (hne : e.1 ≠ k) (a : α) :
    e ∈ place k a b := List.mem_map.mpr ⟨e, h, if_neg hne⟩

/-- What has been placed in a bin is removed with it. -/
theorem erase_place (k : κ) (a : α) (b : Bins κ α) : erase k (place k a b) = erase k b := by
  induction b with
  | nil => rfl
  | cons e b ih =>
      rw [place, List.map_cons, ← place]
      by_cases he : e.1 = k
      · rw [if_pos he, erase, erase, List.filter_cons_of_neg (by simp [he]),
          List.filter_cons_of_neg (by simp [he]), ← erase, ← erase, ih]
      · rw [if_neg he, erase, erase, List.filter_cons_of_pos (by simp [he]),
          List.filter_cons_of_pos (by simp [he]), ← erase, ← erase, ih]

theorem length_insert_le (k : κ) (b : Bins κ α) : (insert k b).length ≤ b.length + 1 := by
  induction b with
  | nil => exact le_rfl
  | cons e b ih =>
      rw [insert]
      split
      · exact le_rfl
      · split
        · exact Nat.le_succ _
        · exact Nat.succ_le_succ ih

theorem length_place (k : κ) (a : α) (b : Bins κ α) : (place k a b).length = b.length :=
  List.length_map _

theorem place_ne_nil (h : b ≠ []) : place k a b ≠ [] := by
  intro hnil
  have hlen := length_place k a b
  rw [hnil] at hlen
  exact h (List.eq_nil_of_length_eq_zero hlen.symm)

theorem length_erase (h : b.Sorted) (hmem : (k, l) ∈ b) :
    (erase k b).length + 1 = b.length := by
  obtain ⟨b₁, b₂, rfl, hne⟩ := h.split hmem
  rw [erase_split hne, List.length_append, List.length_append, List.length_cons, Nat.add_assoc]

/-! ## One bin after an operation -/

theorem find?_cons (e : κ × List α) (b : Bins κ α) (k : κ) :
    find? k (e :: b) = if e.1 = k then some e.2 else find? k b := by
  unfold find?
  by_cases h : e.1 = k
  · rw [List.find?_cons_of_pos (by simpa using h), if_pos h]
    rfl
  · rw [List.find?_cons_of_neg (by simpa using h), if_neg h]

theorem find?_eq_none_iff {b : Bins κ α} {k : κ} : find? k b = none ↔ k ∉ b.keys := by
  induction b with
  | nil => exact iff_of_true rfl List.not_mem_nil
  | cons e b ih =>
      rw [find?_cons, keys, List.map_cons, List.mem_cons, ← keys, not_or]
      split
      · next h => exact iff_of_false (Option.some_ne_none _) fun hne => hne.1 h.symm
      · next h =>
        rw [ih]
        exact (and_iff_right (Ne.symm h)).symm

theorem keys_place (k : κ) (a : α) (b : Bins κ α) : (place k a b).keys = b.keys := by
  unfold place keys
  rw [List.map_map]
  apply List.map_congr_left
  intro e _
  show (if e.1 = k then (e.1, e.2 ++ [a]) else e).1 = e.1
  split <;> rfl

/-- A new item is the last of its bin. -/
theorem find?_place (k : κ) (a : α) (b : Bins κ α) (k' : κ) :
    find? k' (place k a b) = (find? k' b).map fun l => if k' = k then l ++ [a] else l := by
  induction b with
  | nil => rfl
  | cons e b ih =>
      rw [place, List.map_cons, ← place, find?_cons, find?_cons, ih]
      by_cases he : e.1 = k
      · rw [if_pos he]
        by_cases hk : e.1 = k'
        · rw [if_pos hk, if_pos hk, Option.map_some, if_pos (hk.symm.trans he)]
        · rw [if_neg hk, if_neg hk]
      · rw [if_neg he]
        by_cases hk : e.1 = k'
        · rw [if_pos hk, if_pos hk, Option.map_some, if_neg fun h => he (hk.trans h)]
        · rw [if_neg hk, if_neg hk]

theorem mem_keys_insert {k k' : κ} {b : Bins κ α} :
    k' ∈ (insert k b).keys ↔ k' = k ∨ k' ∈ b.keys := by
  induction b with
  | nil => simp [insert, keys]
  | cons e b ih =>
      rw [insert]
      split
      · simp [keys]
      · split
        · next h =>
          rw [h]
          simp [keys]
        · rw [keys, List.map_cons, List.mem_cons, ← keys, ih, keys, keys, List.map_cons,
            List.mem_cons]
          exact or_left_comm

/-- A bin that is inserted is empty; the others stay as they are. -/
theorem find?_insert {k : κ} {b : Bins κ α} (hnew : k ∉ b.keys) (k' : κ) :
    find? k' (insert k b) = if k' = k then some [] else find? k' b := by
  induction b with
  | nil =>
      rw [insert, find?_cons]
      simp only [eq_comm]
  | cons e b ih =>
      rw [keys, List.map_cons, List.mem_cons, not_or, ← keys] at hnew
      rw [insert]
      split
      · rw [find?_cons]
        simp only [eq_comm]
      · rw [if_neg hnew.1, find?_cons, find?_cons, ih hnew.2]
        by_cases he : e.1 = k'
        · rw [if_pos he, if_pos he, if_neg fun h => hnew.1 (h.symm.trans he.symm)]
        · rw [if_neg he, if_neg he]

theorem mem_keys_erase {k k' : κ} {b : Bins κ α} :
    k' ∈ (erase k b).keys ↔ k' ∈ b.keys ∧ k' ≠ k := by
  simp only [keys, erase, List.mem_map, List.mem_filter, decide_eq_true_eq]
  constructor
  · rintro ⟨e, ⟨he, hne⟩, rfl⟩
    exact ⟨⟨e, he, rfl⟩, hne⟩
  · rintro ⟨⟨e, he, rfl⟩, hne⟩
    exact ⟨e, ⟨he, hne⟩, rfl⟩

theorem find?_erase {k k' : κ} (hne : k' ≠ k) (b : Bins κ α) :
    find? k' (erase k b) = find? k' b := by
  induction b with
  | nil => rfl
  | cons e b ih =>
      rw [find?_cons]
      by_cases he : e.1 = k
      · rw [erase, List.filter_cons_of_neg (by simpa using he), ← erase, ih,
          if_neg fun h => hne (h.symm.trans he)]
      · rw [erase, List.filter_cons_of_pos (by simpa using he), ← erase, find?_cons, ih]

/-! ## The least loaded bin -/

/-- `x` comes before `y`: it holds fewer items, or as many and has the smaller key. -/
def Ahead (x y : κ × List α) : Prop :=
  x.2.length < y.2.length ∨ (x.2.length = y.2.length ∧ x.1 < y.1)

/-- **The least loaded bin** comes before all others. -/
theorem least_spec (h : b.Sorted) {m : κ × List α} (hleast : b.least = some m) :
    m ∈ b ∧ ∀ e ∈ b, e = m ∨ Ahead m e := by
  induction b generalizing m with
  | nil => cases hleast
  | cons x b ih =>
      have hb : ∀ y ∈ b, x.1 < y.1 := fun y hy => List.rel_of_pairwise_cons h hy
      rw [least, List.argmin_cons, ← least] at hleast
      cases hrest : least b with
      | none =>
          rw [hrest] at hleast
          cases hleast
          rw [least_eq_none_iff.mp hrest]
          exact ⟨List.mem_cons_self, by simp⟩
      | some c =>
          rw [hrest] at hleast
          obtain ⟨hc, hahead⟩ := ih h.of_cons hrest
          dsimp only at hleast
          split at hleast
          · next hlt =>
            cases hleast
            refine ⟨List.mem_cons_of_mem _ hc, List.forall_mem_cons.mpr ⟨?_, hahead⟩⟩
            exact Or.inr (Or.inl hlt)
          · next hle =>
            cases hleast
            refine ⟨List.mem_cons_self, List.forall_mem_cons.mpr ⟨Or.inl rfl, fun e he => ?_⟩⟩
            -- the bins behind hold at least as many items and have greater keys
            have hload : x.2.length ≤ e.2.length := by
              rcases hahead e he with rfl | hlt | ⟨heq, -⟩
              · exact not_lt.mp hle
              · omega
              · omega
            rcases hload.lt_or_eq with hlt | heq
            · exact Or.inr (Or.inl hlt)
            · exact Or.inr (Or.inr ⟨heq, hb e he⟩)

theorem Ahead.asymm {x y : κ × List α} (h : Ahead x y) : ¬ Ahead y x := by
  rintro (hlt | ⟨heq, hlt⟩)
  · rcases h with h | h
    · omega
    · omega
  · rcases h with h | ⟨-, h⟩
    · omega
    · exact lt_asymm h hlt

/-! ## Room ahead of a bin -/

/-- How many more items a bin takes before the turn of `d`. -/
def slack (d e : κ × List α) : ℕ := d.2.length + (if e.1 < d.1 then 1 else 0) - e.2.length

/-- How many more items the live bins take before the turn of `d`. -/
def room (live : κ → Bool) (d : κ × List α) (b : Bins κ α) : ℕ :=
  (b.map fun e => if live e.1 then slack d e else 0).sum

theorem slack_pos_iff {d e : κ × List α} : 0 < slack d e ↔ Ahead e d := by
  unfold slack Ahead
  split
  · next hlt => simp only [hlt, and_true]; omega
  · next hlt => simp only [hlt, and_false, or_false]; omega

theorem sum_map_place (h : b.Sorted) (hmem : (k, l) ∈ b) (a : α) (f : κ × List α → ℕ) :
    ((place k a b).map f).sum + f (k, l) = (b.map f).sum + f (k, l ++ [a]) := by
  obtain ⟨b₁, b₂, rfl, hne⟩ := h.split hmem
  rw [place_split hne]
  simp only [List.map_append, List.map_cons, List.sum_append, List.sum_cons]
  omega

/-- A live bin ahead of `d` uses up the room by one for each item. -/
theorem room_place (h : b.Sorted) (hmem : (k, l) ∈ b) {live : κ → Bool} {d : κ × List α}
    (hlive : live k = true) (hahead : Ahead (k, l) d) (a : α) :
    (place k a b).room live d + 1 = b.room live d := by
  have hsum := sum_map_place h hmem a fun e => if live e.1 then slack d e else 0
  have hpos := slack_pos_iff.mpr hahead
  have hstep : slack d (k, l ++ [a]) + 1 = slack d (k, l) := by
    unfold slack at hpos ⊢
    rw [List.length_append, List.length_singleton]
    dsimp only at hpos ⊢
    omega
  simp only [hlive, if_true] at hsum
  unfold room
  omega

/-- Where there is room, a live bin comes before `d`. -/
theorem exists_ahead_of_room {live : κ → Bool} {d : κ × List α} (h : 0 < b.room live d) :
    ∃ e ∈ b, live e.1 = true ∧ Ahead e d := by
  by_contra hnone
  push Not at hnone
  apply h.ne'
  apply List.sum_eq_zero
  intro n hn
  obtain ⟨e, he, rfl⟩ := List.mem_map.mp hn
  split
  · next hlive => exact Nat.eq_zero_of_not_pos fun hpos => hnone e he hlive (slack_pos_iff.mp hpos)
  · rfl

/-! ## Balance -/

/-- The loads of any two bins differ by at most one. -/
def Balanced (b : Bins κ α) : Prop := ∀ x ∈ b, ∀ y ∈ b, x.2.length ≤ y.2.length + 1

omit [LinearOrder κ] in
theorem Balanced.of_subset {b' : Bins κ α} (h : b.Balanced) (hsub : ∀ x ∈ b', x ∈ b) :
    b'.Balanced := fun x hx y hy => h x (hsub x hx) y (hsub y hy)

omit [LinearOrder κ] in
/-- Empty bins are balanced. -/
theorem balanced_of_items_eq_nil (h : b.items = []) : b.Balanced := by
  intro x hx y _
  rw [List.flatMap_eq_nil_iff.mp h x hx]
  exact Nat.zero_le _

/-- An item for the least loaded bin keeps the balance. -/
theorem Balanced.place (h : b.Balanced) (hsorted : b.Sorted) {m : κ × List α}
    (hleast : b.least = some m) (a : α) : (place m.1 a b).Balanced := by
  obtain ⟨hm, hahead⟩ := least_spec hsorted hleast
  have hmin : ∀ e ∈ b, m.2.length ≤ e.2.length := by
    intro e he
    rcases hahead e he with rfl | hlt | ⟨heq, -⟩ <;> omega
  obtain ⟨b₁, b₂, hb, hne⟩ := hsorted.split hm
  have hrest : ∀ e ∈ b₁ ++ b₂, e ∈ b := by
    intro e he
    rw [hb, List.mem_append, List.mem_cons]
    exact (List.mem_append.mp he).imp_right Or.inr
  -- only the bin of the item has grown, and no bin holds less than it did
  have hmem : ∀ e ∈ Bins.place m.1 a b, e = (m.1, m.2 ++ [a]) ∨ e ∈ b := by
    intro e he
    rw [hb, place_split hne, List.mem_append, List.mem_cons] at he
    rcases he with he | rfl | he
    · exact Or.inr (hrest e (List.mem_append_left _ he))
    · exact Or.inl rfl
    · exact Or.inr (hrest e (List.mem_append_right _ he))
  intro x hx y hy
  rcases hmem x hx with rfl | hx
  · rcases hmem y hy with rfl | hy
    · exact Nat.le_succ _
    · rw [List.length_append, List.length_singleton]
      exact Nat.succ_le_succ (hmin y hy)
  · rcases hmem y hy with rfl | hy
    · rw [List.length_append, List.length_singleton]
      exact (h x hx m hm).trans (Nat.le_succ _)
    · exact h x hx y hy

theorem Balanced.erase (h : b.Balanced) (k : κ) : (erase k b).Balanced :=
  h.of_subset fun _ hx => List.mem_of_mem_filter hx

end Bins
