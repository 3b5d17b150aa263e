/-
# Tags in marked-up text

The tags of a text are its substrings from each opening bracket up to the next closing bracket,
both included.  `HasTags s ts` says that the text `s` contributes the tags `ts`, whatever is
written after it; it has rules for what texts are written of.  What stands between tags
contributes none if it contains no opening bracket.
-/
import Mathlib

namespace Markup

variable {α : Type} [DecidableEq α]

/-- Up to the first `c`, which is included. -/
def upTo (c : α) (s : List α) : List α :=
  s.takeWhile (fun d => d ≠ c) ++ (s.dropWhile fun d => d ≠ c).take 1

/-- The substrings from each `open_` up to the next `close`. -/
def tags (open_ close : α) : List α → List (List α)
  | [] => []
  | c :: s => if c = open_ then (c :: upTo close s) :: tags open_ close s else tags open_ close s

/-- The text `s` has the tags `ts`, and none that goes on behind it. -/
structure HasTags (open_ close : α) (s : List α) (ts : List (List α)) : Prop where
  append : ∀ rest, tags open_ close (s ++ rest) = ts ++ tags open_ close rest

variable {open_ close : α}

/-- A tag ends at its first closing bracket. -/
theorem upTo_append {inside : List α} (h : close ∉ inside) (s : List α) :
    upTo close (inside ++ close :: s) = inside ++ [close] := by
  have hinside : ∀ c ∈ inside, decide (c ≠ close) = true := fun c hc =>
    decide_eq_true (ne_of_mem_of_not_mem hc h)
  have htake : (close :: s).takeWhile (fun d => d ≠ close) = [] :=
    List.takeWhile_cons_of_neg (by simp)
  have hdrop : (close :: s).dropWhile (fun d => d ≠ close) = close :: s :=
    List.dropWhile_cons_of_neg (by simp)
  rw [upTo, List.takeWhile_append_of_pos hinside, htake, List.dropWhile_append_of_pos hinside,
    hdrop, List.append_nil]
  rfl

namespace HasTags

variable {s s' : List α} {ts ts' : List (List α)}

theorem tags_eq (h : HasTags open_ close s ts) : tags open_ close s = ts := by
  have hend := h.append []
  rwa [List.append_nil, tags, List.append_nil] at hend

theorem nil : HasTags open_ close [] [] where
  append _ := rfl

/-- What stands between tags. -/
theorem content {str : List α} (h : open_ ∉ str) : HasTags open_ close str [] where
  append rest := by
    induction str with
    | nil => rfl
    | cons c str ih =>
        rw [List.mem_cons, not_or] at h
        rw [List.cons_append, tags, if_neg (Ne.symm h.1), ih h.2]

/-- A tag. -/
theorem tag (hne : close ≠ open_) {inside : List α} (hopen : open_ ∉ inside)
    (hclose : close ∉ inside) :
    HasTags open_ close (open_ :: (inside ++ [close])) [open_ :: (inside ++ [close])] where
  append rest := by
    rw [List.cons_append, List.append_assoc, List.singleton_append, tags, if_pos rfl,
      upTo_append hclose, (content hopen).append, tags, if_neg hne]
    rfl

theorem trans (h : HasTags open_ close s ts) (h' : HasTags open_ close s' ts') :
    HasTags open_ close (s ++ s') (ts ++ ts') where
  append rest := by rw [List.append_assoc, h.append, h'.append, List.append_assoc]

/-- Texts one after the other. -/
theorem flatMap {β : Type} {f : β → List α} {g : β → List (List α)} {xs : List β}
    (h : ∀ x ∈ xs, HasTags open_ close (f x) (g x)) :
    HasTags open_ close (xs.flatMap f) (xs.flatMap g) := by
  induction xs with
  | nil => exact nil
  | cons x xs ih =>
      obtain ⟨hx, hxs⟩ := List.forall_mem_cons.mp h
      rw [List.flatMap_cons, List.flatMap_cons]
      exact hx.trans (ih hxs)

end HasTags

end Markup
