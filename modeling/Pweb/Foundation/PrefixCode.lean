/-
# Streams of frames

An encoding is a prefix code if the encoding at the front of a string determines
the encoded value and what follows it.  A string of such encodings can then be
cut into frames in one way only (`flatMap_append_inj`), also when the last frame
is still incomplete.
-/
import Mathlib

variable {X α : Type}

/-- The front of a string determines the value encoded there. -/
def PrefixCode (enc : X → List α) : Prop :=
  ∀ ⦃x y : X⦄ ⦃r r' : List α⦄, enc x ++ r = enc y ++ r' → x = y ∧ r = r'

namespace PrefixCode

variable {enc : X → List α}

/-- **Unique framing.**  Frames followed by less than a frame determine both. -/
theorem flatMap_append_inj (h : PrefixCode enc) {t t' : List α}
    (ht : ∀ x, t.length < (enc x).length) (ht' : ∀ x, t'.length < (enc x).length) :
    ∀ {xs ys : List X}, xs.flatMap enc ++ t = ys.flatMap enc ++ t' → xs = ys ∧ t = t' := by
  -- a rest that is shorter than any frame holds none
  have hshort : ∀ {u : List α} {x : X} {r : List α}, (∀ x, u.length < (enc x).length) →
      u ≠ enc x ++ r := by
    intro u x r hu heq
    have hlen := hu x
    rw [heq, List.length_append] at hlen
    omega
  intro xs
  induction xs with
  | nil =>
      intro ys heq
      cases ys with
      | nil => exact ⟨rfl, heq⟩
      | cons y ys =>
          rw [List.flatMap_nil, List.nil_append, List.flatMap_cons, List.append_assoc] at heq
          exact absurd heq (hshort ht)
  | cons x xs ih =>
      intro ys heq
      cases ys with
      | nil =>
          rw [List.flatMap_nil, List.nil_append, List.flatMap_cons, List.append_assoc] at heq
          exact absurd heq.symm (hshort ht')
      | cons y ys =>
          rw [List.flatMap_cons, List.flatMap_cons, List.append_assoc, List.append_assoc] at heq
          obtain ⟨rfl, hrest⟩ := h heq
          obtain ⟨rfl, rfl⟩ := ih hrest
          exact ⟨rfl, rfl⟩

end PrefixCode
