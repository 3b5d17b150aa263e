/-
# Postconditions of computations that can fail

`Ensures r Q E` : if `r` returns, the value satisfies `Q`, and if it fails, the error
satisfies `E`.  The rules follow the structure of a computation.
-/
import Mathlib

/-- A sequence returns if both halves do. -/
theorem Except.bind_eq_ok_iff {ε α β : Type} {r : Except ε α} {f : α → Except ε β} {b : β} :
    (r >>= f) = .ok b ↔ ∃ a, r = .ok a ∧ f a = .ok b := by
  cases r with
  | error e =>
      constructor
      · rintro ⟨⟩
      · rintro ⟨a, ⟨⟩, -⟩
  | ok a =>
      constructor
      · intro h
        exact ⟨a, rfl, h⟩
      · rintro ⟨a, ⟨⟩, h⟩
        exact h

/-- `Q` holds of the value returned, `E` of the error. -/
def Ensures {ε α : Type} (r : Except ε α) (Q : α → Prop) (E : ε → Prop) : Prop :=
  match r with
  | .ok a => Q a
  | .error e => E e

namespace Ensures

variable {ε α β : Type} {r : Except ε α} {Q Q' : α → Prop} {E E' : ε → Prop}

theorem of_ok (h : Ensures r Q E) {a : α} (hr : r = .ok a) : Q a := by
  rw [hr] at h
  exact h

theorem of_error (h : Ensures r Q E) {e : ε} (hr : r = .error e) : E e := by
  rw [hr] at h
  exact h

/-- A computation that cannot fail returns. -/
theorem exists_ok (h : Ensures r Q fun _ => False) : ∃ a, r = .ok a ∧ Q a := by
  cases r with
  | ok a => exact ⟨a, rfl, h⟩
  | error e => exact h.elim

theorem mono (h : Ensures r Q E) (hQ : ∀ a, Q a → Q' a) (hE : ∀ e, E e → E' e) :
    Ensures r Q' E' := by
  cases r with
  | ok a => exact hQ a h
  | error e => exact hE e h

theorem and (h : Ensures r Q E) (h' : Ensures r Q' E') :
    Ensures r (fun a => Q a ∧ Q' a) (fun e => E e ∧ E' e) := by
  cases r with
  | ok a => exact ⟨h, h'⟩
  | error e => exact ⟨h, h'⟩

/-- **Sequencing.** -/
theorem bind {f : α → Except ε β} {R : β → Prop} (h : Ensures r Q E)
    (hf : ∀ a, Q a → Ensures (f a) R E) : Ensures (r >>= f) R E := by
  cases r with
  | ok a => exact hf a h
  | error e => exact h

theorem ite {c : Prop} [Decidable c] {r' : Except ε α} (ht : c → Ensures r Q E)
    (hf : ¬ c → Ensures r' Q E) : Ensures (if c then r else r') Q E := by
  split
  · next hc => exact ht hc
  · next hc => exact hf hc

/-- **Loops.**  What every round keeps, the loop keeps. -/
theorem foldlM {f : β → α → Except ε β} {I : β → Prop} (hf : ∀ b a, I b → Ensures (f b a) I E)
    (l : List α) {b : β} (hb : I b) : Ensures (l.foldlM f b) I E := by
  induction l generalizing b with
  | nil => exact hb
  | cons a l ih =>
      rw [List.foldlM_cons]
      exact (hf b a hb).bind fun b' hb' => ih hb'

end Ensures
