/-
# Linked lists

Nodes `α` with links from node to node, `none` for a null pointer.  `LinkPath link s l e` :
starting at `s` and following `link` one visits the nodes `l`, in order, and arrives at
`e`.  A path to `none` is determined by its start and visits no node twice
(`LinkPath.unique`, `LinkPath.nodup`).

`DoublyLinked next prev head tail l` : from `head` along `next` one visits `l`, from
`tail` along `prev` the same nodes in the opposite order, and both ways end in `none`.
The operations on such a list are given by the pointers they write: `pushFront`,
`dropLast` and `unlink`.
-/
import Mathlib

section LinkPath

variable {α : Type} {link link' : α → Option α} {s e m : Option α} {l l' : List α} {a b : α}

/-- From `s` along the links one visits `l` and arrives at `e`. -/
def LinkPath (link : α → Option α) : Option α → List α → Option α → Prop
  | s, [], e => s = e
  | s, a :: l, e => s = some a ∧ LinkPath link (link a) l e

theorem linkPath_cons :
    LinkPath link s (a :: l) e ↔ s = some a ∧ LinkPath link (link a) l e := Iff.rfl

/-- A path of two parts passes through some point. -/
theorem linkPath_append :
    LinkPath link s (l ++ l') e ↔ ∃ m, LinkPath link s l m ∧ LinkPath link m l' e := by
  induction l generalizing s with
  | nil => simp [LinkPath]
  | cons a l ih =>
      rw [List.cons_append, linkPath_cons, ih]
      simp only [linkPath_cons, and_assoc, exists_and_left]

/-- The point before a given node. -/
theorem linkPath_append_cons : LinkPath link s (l ++ a :: l') e ↔
    LinkPath link s l (some a) ∧ LinkPath link (link a) l' e := by
  rw [linkPath_append]
  constructor
  · rintro ⟨m, hl, rfl, hrest⟩
    exact ⟨hl, hrest⟩
  · rintro ⟨hl, hrest⟩
    exact ⟨some a, hl, rfl, hrest⟩

/-- The last node leads to the end. -/
theorem linkPath_concat : LinkPath link s (l ++ [a]) e ↔ LinkPath link s l (some a) ∧ link a = e :=
  linkPath_append_cons

/-- **Frame.**  Only the links of the nodes visited count. -/
theorem LinkPath.frame (h : LinkPath link s l e) (hsame : ∀ a ∈ l, link' a = link a) :
    LinkPath link' s l e := by
  induction l generalizing s with
  | nil => exact h
  | cons a l ih =>
      rw [List.forall_mem_cons] at hsame
      obtain ⟨hs, hl⟩ := h
      refine ⟨hs, ?_⟩
      rw [hsame.1]
      exact ih hl hsame.2

variable [DecidableEq α]

/-- Writing to a node that is not visited. -/
theorem LinkPath.update (h : LinkPath link s l e) (ha : a ∉ l) (m : Option α) :
    LinkPath (Function.update link a m) s l e := by
  apply h.frame
  intro b hb
  apply Function.update_of_ne
  rintro rfl
  exact ha hb

/-- Writing to the last node changes where the path arrives. -/
theorem LinkPath.update_last (h : LinkPath link s (l ++ [a]) e) (ha : a ∉ l) (m : Option α) :
    LinkPath (Function.update link a m) s (l ++ [a]) m := by
  rw [linkPath_concat] at h ⊢
  exact ⟨h.1.update ha m, Function.update_self _ _ _⟩

omit [DecidableEq α] in
/-- A path to `none` is determined by its start. -/
theorem LinkPath.unique (h : LinkPath link s l none) (h' : LinkPath link s l' none) : l = l' := by
  induction l generalizing s l' with
  | nil =>
      obtain rfl : s = none := h
      cases l' with
      | nil => rfl
      | cons b l' => cases h'.1
  | cons a l ih =>
      obtain ⟨rfl, hl⟩ := h
      cases l' with
      | nil => cases h'
      | cons b l' =>
          obtain ⟨hs, hl'⟩ := h'
          obtain rfl : a = b := Option.some.inj hs
          rw [ih hl hl']

omit [DecidableEq α] in
/-- **A path to `none` visits no node twice.** -/
theorem LinkPath.nodup (h : LinkPath link s l none) : l.Nodup := by
  induction l generalizing s with
  | nil => exact List.nodup_nil
  | cons a l ih =>
      refine List.nodup_cons.mpr ⟨fun hmem => ?_, ih h.2⟩
      -- the rest after the second visit would be the rest after the first
      obtain ⟨u, v, rfl⟩ := List.append_of_mem hmem
      have hrest := (linkPath_append_cons.mp h.2).2
      have heq := congrArg List.length (h.2.unique hrest)
      rw [List.length_append, List.length_cons] at heq
      omega

/-- **Taking a node out of a path.** -/
theorem LinkPath.bypass {u v : List α} {p : α} (h : LinkPath link s (u ++ p :: a :: v) none) :
    LinkPath (Function.update link p (link a)) s (u ++ p :: v) none := by
  have hnodup := h.nodup
  rw [List.nodup_middle, List.nodup_cons, List.mem_append, not_or, List.mem_cons, not_or] at hnodup
  obtain ⟨⟨hu, -, hv⟩, -⟩ := hnodup
  obtain ⟨hstart, hrest⟩ := linkPath_append_cons.mp h
  rw [linkPath_append_cons, Function.update_self]
  exact ⟨hstart.update hu _, hrest.2.update hv _⟩

end LinkPath

/-! ## Doubly linked lists -/

/-- From `head` along `next` one visits `l`, from `tail` along `prev` the same nodes backwards. -/
structure DoublyLinked {α : Type} (next prev : α → Option α) (head tail : Option α)
    (l : List α) : Prop where
  forward : LinkPath next head l none
  backward : LinkPath prev tail l.reverse none

namespace DoublyLinked

variable {α : Type} {next prev : α → Option α} {head tail : Option α} {l u v : List α} {a p z : α}

theorem nodup (h : DoublyLinked next prev head tail l) : l.Nodup := h.forward.nodup

theorem head_eq (h : DoublyLinked next prev head tail l) : head = l.head? := by
  cases l with
  | nil => exact h.forward
  | cons a l => exact h.forward.1

theorem tail_eq (h : DoublyLinked next prev head tail l) : tail = l.getLast? := by
  rw [← List.head?_reverse]
  have hback := h.backward
  cases hl : l.reverse with
  | nil =>
      rw [hl] at hback
      exact hback
  | cons a l =>
      rw [hl] at hback
      exact hback.1

/-- The links of a node are its neighbours. -/
theorem links (h : DoublyLinked next prev head tail (u ++ a :: v)) :
    next a = v.head? ∧ prev a = u.getLast? := by
  have hnext := (linkPath_append_cons.mp h.forward).2
  have hback := h.backward
  rw [List.reverse_append, List.reverse_cons, List.append_assoc, List.singleton_append] at hback
  have hprev := (linkPath_append_cons.mp hback).2
  constructor
  · cases v with
    | nil => exact hnext
    | cons b v => exact hnext.1
  · rw [← List.head?_reverse]
    cases hu : u.reverse with
    | nil =>
        rw [hu] at hprev
        exact hprev
    | cons b u =>
        rw [hu] at hprev
        exact hprev.1

theorem nil (next prev : α → Option α) : DoublyLinked next prev none none [] := ⟨rfl, rfl⟩

/-- Only the links of the nodes of the list count. -/
theorem frame (h : DoublyLinked next prev head tail l) {next' prev' : α → Option α}
    (hnext : ∀ a ∈ l, next' a = next a) (hprev : ∀ a ∈ l, prev' a = prev a) :
    DoublyLinked next' prev' head tail l where
  forward := h.forward.frame hnext
  backward := h.backward.frame fun a ha => hprev a (List.mem_reverse.mp ha)

/-- The links of a node that is not the first. -/
theorem links_after (h : DoublyLinked next prev head tail (u ++ p :: a :: v)) :
    next a = v.head? ∧ prev a = some p := by
  rw [List.append_cons] at h
  have hlinks := h.links
  rwa [List.getLast?_concat] at hlinks

variable [DecidableEq α]

/-- A list of one node. -/
theorem singleton (next prev : α → Option α) (a : α) :
    DoublyLinked (Function.update next a none) (Function.update prev a none) (some a) (some a)
      [a] :=
  ⟨⟨rfl, Function.update_self _ _ _⟩, ⟨rfl, Function.update_self _ _ _⟩⟩

/-- **A new first node.** -/
theorem pushFront (h : DoublyLinked next prev (some z) tail l) (ha : a ∉ l) :
    DoublyLinked (Function.update next a (some z))
      (Function.update (Function.update prev z (some a)) a none) (some a) tail (a :: l) where
  forward := by
    refine ⟨rfl, ?_⟩
    rw [Function.update_self]
    exact h.forward.update ha (some z)
  backward := by
    obtain ⟨l, rfl⟩ : ∃ rest, l = z :: rest := by
      cases l with
      | nil => cases h.forward
      | cons b l =>
          obtain rfl : z = b := Option.some.inj h.forward.1
          exact ⟨l, rfl⟩
    have hz : z ∉ l.reverse := by
      rw [List.mem_reverse]
      exact (List.nodup_cons.mp h.nodup).1
    have hback := h.backward
    rw [List.reverse_cons] at hback
    rw [List.reverse_cons, List.reverse_cons, linkPath_concat]
    refine ⟨?_, Function.update_self _ _ _⟩
    apply (hback.update_last hz (some a)).update
    rwa [← List.reverse_cons, List.mem_reverse]

/-- **Removing the last of several nodes.** -/
theorem dropLast (h : DoublyLinked next prev head tail (u ++ [p, z])) :
    DoublyLinked (Function.update next p none) prev head (some p) (u ++ [p]) where
  forward := by
    have hpath := h.forward.bypass
    rwa [h.links_after.1] at hpath
  backward := by
    have hback := h.backward
    rw [List.reverse_append] at hback ⊢
    rw [← h.links_after.2]
    exact hback.2

/-- **Taking out a node between two others.** -/
theorem unlink {q : α} (h : DoublyLinked next prev head tail (u ++ p :: a :: q :: v)) :
    DoublyLinked (Function.update next p (some q)) (Function.update prev q (some p)) head tail
      (u ++ p :: q :: v) where
  forward := by
    have hpath := h.forward.bypass
    rwa [h.links_after.1] at hpath
  backward := by
    have hback := h.backward
    simp only [List.reverse_append, List.reverse_cons, List.append_assoc, List.cons_append]
      at hback ⊢
    have hpath := hback.bypass
    rwa [h.links_after.2] at hpath

end DoublyLinked
