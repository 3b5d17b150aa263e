/-
# Loops that may not end

A loop is given by its body: a round goes on with a new state or leaves the loop with a
result.  `whileLoop body n s` is the result if the loop is left within `n` rounds, and
`Returns body s r` says that it is left at all.

The rules: `Returns.leave` and `Returns.next` for one round, and `not_returns` for a loop
whose rounds keep an invariant under which none of them leaves.
-/
import Mathlib

variable {σ ρ : Type}

/-- The result of the loop, if it is left within `n` rounds. -/
def whileLoop (body : σ → σ ⊕ ρ) : ℕ → σ → Option ρ
  | 0, _ => none
  | n + 1, s =>
    match body s with
    | .inl s' => whileLoop body n s'
    | .inr r => some r

/-- The loop is left with the result `r`. -/
def Returns (body : σ → σ ⊕ ρ) (s : σ) (r : ρ) : Prop := ∃ n, whileLoop body n s = some r

variable {body : σ → σ ⊕ ρ} {s s' : σ} {r r' : ρ}

theorem whileLoop_leave (h : body s = .inr r) (n : ℕ) : whileLoop body (n + 1) s = some r := by
  rw [whileLoop, h]

theorem whileLoop_next (h : body s = .inl s') (n : ℕ) :
    whileLoop body (n + 1) s = whileLoop body n s' := by
  rw [whileLoop, h]

/-- A loop that is left is left with more rounds allowed. -/
theorem whileLoop_mono {n m : ℕ} (h : whileLoop body n s = some r) (hle : n ≤ m) :
    whileLoop body m s = some r := by
  induction n generalizing s m with
  | zero => cases h
  | succ n ih =>
      obtain ⟨m, rfl⟩ : ∃ k, m = k + 1 := ⟨m - 1, by omega⟩
      cases hround : body s with
      | inl s' =>
          rw [whileLoop_next hround] at h ⊢
          exact ih h (by omega)
      | inr r' =>
          rw [whileLoop_leave hround] at h ⊢
          exact h

namespace Returns

theorem leave (h : body s = .inr r) : Returns body s r :=
  ⟨1, whileLoop_leave h 0⟩

theorem next (h : body s = .inl s') : Returns body s r ↔ Returns body s' r := by
  constructor
  · rintro ⟨n, hn⟩
    cases n with
    | zero => cases hn
    | succ n => exact ⟨n, by rwa [whileLoop_next h] at hn⟩
  · rintro ⟨n, hn⟩
    exact ⟨n + 1, by rwa [whileLoop_next h]⟩

/-- A loop has at most one result. -/
theorem unique (h : Returns body s r) (h' : Returns body s r') : r = r' := by
  obtain ⟨n, hn⟩ := h
  obtain ⟨m, hm⟩ := h'
  have hn := whileLoop_mono hn (Nat.le_max_left n m)
  rw [whileLoop_mono hm (Nat.le_max_right n m)] at hn
  exact (Option.some.inj hn).symm

end Returns

/-- **Loops that are not left.**  A round of a state in `I` goes on with a state in `I`. -/
theorem not_returns {I : σ → Prop} (hI : ∀ s, I s → ∃ s', body s = .inl s' ∧ I s') (h : I s) :
    ¬ Returns body s r := by
  rintro ⟨n, hn⟩
  induction n generalizing s with
  | zero => cases hn
  | succ n ih =>
      obtain ⟨s', hround, hs'⟩ := hI s h
      rw [whileLoop_next hround] at hn
      exact ih hs' hn
