/-
# A bounded first-in first-out buffer

The contents of a circular buffer of fixed capacity, oldest element first.  A
push onto a full buffer overwrites the oldest element, so the buffer never
holds more than its capacity.
-/
import Mathlib

/-- At most `capacity` elements, oldest first. -/
structure CircularBuffer (α : Type) (capacity : ℕ) where
  items : List α
  length_le : items.length ≤ capacity
  deriving Repr

namespace CircularBuffer

variable {α : Type} {capacity : ℕ}

/-- The empty buffer. -/
def empty : CircularBuffer α capacity := ⟨[], Nat.zero_le _⟩

/-- Whether the buffer holds as many elements as it can. -/
def full (b : CircularBuffer α capacity) : Bool := b.items.length = capacity

/-- Append an element, overwriting the oldest one if the buffer is full. -/
def pushBack (b : CircularBuffer α capacity) (a : α) : CircularBuffer α capacity :=
  if h : b.items.length < capacity then ⟨b.items ++ [a], by simpa using h⟩
  else ⟨(b.items ++ [a]).drop (b.items.length + 1 - capacity), by
    rw [List.length_drop, List.length_append, List.length_singleton]
    omega⟩

/-- The oldest element, if any. -/
def front? (b : CircularBuffer α capacity) : Option α := b.items.head?

/-- Remove the oldest element. -/
def popFront (b : CircularBuffer α capacity) : CircularBuffer α capacity :=
  ⟨b.items.tail, by
    have h := b.length_le
    rw [List.length_tail]
    omega⟩

@[simp] theorem full_iff (b : CircularBuffer α capacity) :
    b.full = true ↔ b.items.length = capacity := by
  simp [full]

/-- A push onto a buffer that is not full appends. -/
theorem items_pushBack {b : CircularBuffer α capacity} (h : b.full = false) (a : α) :
    (b.pushBack a).items = b.items ++ [a] := by
  have hlt : b.items.length < capacity := by
    have hne : ¬ b.items.length = capacity := by simpa [full] using h
    have hle := b.length_le
    omega
  rw [pushBack, dif_pos hlt]

/-- The front and the rest make up a nonempty buffer. -/
theorem items_eq_of_front? {b : CircularBuffer α capacity} {a : α} (h : b.front? = some a) :
    b.items = a :: b.popFront.items := by
  cases hb : b.items with
  | nil =>
      rw [front?, hb] at h
      cases h
  | cons x xs =>
      rw [front?, hb] at h
      cases h
      have htail : b.popFront.items = b.items.tail := rfl
      rw [htail, hb, List.tail_cons]

theorem front?_eq_none {b : CircularBuffer α capacity} : b.front? = none ↔ b.items = [] := by
  rw [front?, List.head?_eq_none_iff]

end CircularBuffer
