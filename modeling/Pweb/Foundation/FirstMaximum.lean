/-
# The first maximum

A loop over a list that remembers an element whenever its value is larger than the
largest one before it.  It ends with the first of the elements of largest value, if that
is larger than the value it started from.

* `Improves value l m x` : the element `x` is the first one of `l` that has the largest
  value, and this is larger than `m`;
* `foldl_improve` : what the loop remembers.
-/
import Mathlib

namespace FirstMaximum

variable {α β γ : Type} [LinearOrder γ]

/-- One round: the largest value so far, and what is remembered of its element. -/
def improve (value : α → γ) (label : α → β) (best : γ × β) (x : α) : γ × β :=
  if best.1 < value x then (value x, label x) else best

/-- The first element with the largest value, which is above `m`. -/
structure Improves (value : α → γ) (l : List α) (m : γ) (x : α) : Prop where
  lt : m < value x
  first : ∃ u v, l = u ++ x :: v ∧ (∀ y ∈ u, value y < value x) ∧ ∀ y ∈ v, value y ≤ value x

variable {value : α → γ} {label : α → β} {l : List α} {m : γ} {x y : α}

namespace Improves

theorem mem (h : Improves value l m x) : x ∈ l := by
  obtain ⟨-, u, v, rfl, -, -⟩ := h
  simp

theorem le (h : Improves value l m x) (hy : y ∈ l) : value y ≤ value x := by
  obtain ⟨-, u, v, rfl, hu, hv⟩ := h
  rcases List.mem_append.mp hy with hy | hy
  · exact (hu y hy).le
  · rcases List.mem_cons.mp hy with rfl | hy
    · exact le_rfl
    · exact hv y hy

section Rank

variable {δ : Type} [LinearOrder δ] {rank : α → δ}

/-- In a sorted list, elements before the first maximum have smaller values. -/
theorem lt_of_rank_lt (h : Improves value l m x)
    (hsorted : l.Pairwise fun y z => rank y < rank z) (hy : y ∈ l) (hlt : rank y < rank x) :
    value y < value x := by
  obtain ⟨-, u, v, rfl, hu, -⟩ := h
  rw [List.pairwise_append, List.pairwise_cons] at hsorted
  rcases List.mem_append.mp hy with hyu | hyv
  · exact hu y hyu
  · rcases List.mem_cons.mp hyv with rfl | hyv
    · exact absurd hlt (lt_irrefl _)
    · exact absurd hlt (hsorted.2.1.1 y hyv).not_gt

/-- The first maximum of a sorted list is the one of smallest rank. -/
theorem rank_eq (h : Improves value l m x) (hsorted : l.Pairwise fun y z => rank y < rank z)
    (hy : y ∈ l) (hmax : ∀ z ∈ l, value z ≤ value y)
    (hfirst : ∀ z ∈ l, rank z < rank y → value z < value y) : rank x = rank y := by
  rcases lt_trichotomy (rank x) (rank y) with hlt | heq | hgt
  · exact absurd (hfirst x h.mem hlt) (h.le hy).not_gt
  · exact heq
  · exact absurd (h.lt_of_rank_lt hsorted hy hgt) (hmax x h.mem).not_gt

end Rank

end Improves

/-- **The loop** leaves the first improvement, or what it started from if there is none. -/
theorem foldl_improve (value : α → γ) (label : α → β) (l : List α) (best : γ × β) :
    (l.foldl (improve value label) best = best ∧ ∀ y ∈ l, value y ≤ best.1) ∨
      ∃ x, Improves value l best.1 x ∧
        l.foldl (improve value label) best = (value x, label x) := by
  induction l generalizing best with
  | nil => exact Or.inl ⟨rfl, by simp⟩
  | cons z l ih =>
      rw [List.foldl_cons]
      by_cases hz : best.1 < value z
      · rw [improve, if_pos hz]
        right
        rcases ih (value z, label z) with ⟨heq, hle⟩ | ⟨x, ⟨hlt, u, v, rfl, hu, hv⟩, heq⟩
        · exact ⟨z, ⟨hz, [], l, rfl, by simp, hle⟩, heq⟩
        · refine ⟨x, ⟨hz.trans hlt, z :: u, v, rfl, ?_, hv⟩, heq⟩
          intro y hy
          rcases List.mem_cons.mp hy with rfl | hy
          · exact hlt
          · exact hu y hy
      · rw [improve, if_neg hz]
        have hle := not_lt.mp hz
        rcases ih best with ⟨heq, hall⟩ | ⟨x, ⟨hlt, u, v, rfl, hu, hv⟩, heq⟩
        · left
          refine ⟨heq, ?_⟩
          intro y hy
          rcases List.mem_cons.mp hy with rfl | hy
          · exact hle
          · exact hall y hy
        · right
          refine ⟨x, ⟨hlt, z :: u, v, rfl, ?_, hv⟩, heq⟩
          intro y hy
          rcases List.mem_cons.mp hy with rfl | hy
          · exact hle.trans_lt hlt
          · exact hu y hy

end FirstMaximum
