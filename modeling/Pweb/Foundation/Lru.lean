/-
# Least recently used

A cache of keys as a list, the most recently used key first.  `Lru.lookup` and `Lru.add`
are the two ways of using a key; only keys that are `cacheable` enter the cache, and a
full cache then forgets its last key.
-/
import Mathlib

namespace Lru

variable {α : Type} [DecidableEq α]

/-- Use a key that is present. -/
def moveToFront (x : α) (l : List α) : List α := x :: l.erase x

/-- Look for a key. -/
def lookup (x : α) (l : List α) : List α := if x ∈ l then moveToFront x l else l

/-- Add a key. -/
def add (full cacheable : Prop) [Decidable full] [Decidable cacheable] (x : α) (l : List α) :
    List α :=
  if x ∈ l then moveToFront x l
  else if cacheable then x :: (if full then l.dropLast else l)
  else l

variable {full cacheable : Prop} [Decidable full] [Decidable cacheable] {x : α} {l u v : List α}

theorem moveToFront_append_cons (h : (u ++ x :: v).Nodup) :
    moveToFront x (u ++ x :: v) = x :: (u ++ v) := by
  rw [List.nodup_middle, List.nodup_cons, List.mem_append, not_or] at h
  rw [moveToFront, List.erase_append_right _ h.1.1, List.erase_cons_head]

/-- A key stays where it is only at the front. -/
theorem moveToFront_eq_self_iff (hx : x ∈ l) : moveToFront x l = l ↔ l.head? = some x := by
  cases l with
  | nil => cases hx
  | cons y l =>
      rw [moveToFront, List.head?_cons, Option.some_inj]
      constructor
      · intro h
        exact (List.cons.inj h).1.symm
      · rintro rfl
        rw [List.erase_cons_head]

theorem nodup_moveToFront (h : l.Nodup) : (moveToFront x l).Nodup :=
  List.nodup_cons.mpr ⟨h.not_mem_erase, h.erase x⟩

theorem nodup_lookup (h : l.Nodup) : (lookup x l).Nodup := by
  rw [lookup]
  split
  · exact nodup_moveToFront h
  · exact h

/-- **No key occurs twice.** -/
theorem nodup_add (h : l.Nodup) : (add full cacheable x l).Nodup := by
  rw [add]
  split_ifs with hx hcache hfull
  · exact nodup_moveToFront h
  · refine List.nodup_cons.mpr ⟨fun hmem => hx (List.dropLast_subset l hmem), ?_⟩
    exact h.sublist (List.dropLast_sublist l)
  · exact List.nodup_cons.mpr ⟨hx, h⟩
  · exact h

end Lru
