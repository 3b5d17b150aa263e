/-
# Runs of a transition system

A `TransitionSystem` has initial states and a step function that says which
events can happen in a state.  A run is the list of its transitions, each with
the state before and after the event, together with the state it has reached.

The rules: an invariant of all runs (`Run.invariant`, and `Run.invariant_trace`
for one that speaks about the past), a relation that every step keeps
(`Run.kept`), an invariant of the runs whose every step
meets a condition (`Run.invariant_when`), and the rule for exact conditions,
`Run.forall_iff`: if at every step that follows a good past the condition on the
step and the property of the step agree, then a run has the property throughout
exactly when it meets the condition throughout.  `Run.exec_potential` bounds the
number of events that each use up some of a potential.
-/
import Mathlib

/-- States, events, and the effect of an event; `none` where it cannot happen. -/
structure TransitionSystem (σ ε : Type) where
  init : σ → Prop
  step : σ → ε → Option σ

/-- One step of a run. -/
structure Transition (σ ε : Type) where
  pre : σ
  event : ε
  post : σ

variable {σ ε : Type}

/-- `Run M tr s` : the transitions `tr`, in order, lead from an initial state to `s`. -/
inductive Run (M : TransitionSystem σ ε) : List (Transition σ ε) → σ → Prop
  | start {s : σ} (h : M.init s) : Run M [] s
  | extend {tr : List (Transition σ ε)} {s s' : σ} {e : ε} (h : Run M tr s)
      (hs : M.step s e = some s') : Run M (tr ++ [⟨s, e, s'⟩]) s'

/-- Perform a list of events. -/
def TransitionSystem.exec (M : TransitionSystem σ ε) : σ → List ε → Option σ
  | s, [] => some s
  | s, e :: es =>
    match M.step s e with
    | some s' => M.exec s' es
    | none => none

namespace Run

variable {M : TransitionSystem σ ε} {tr : List (Transition σ ε)} {s : σ}

/-- Performing events extends a run by transitions with these events. -/
theorem exec_extends (h : Run M tr s) : ∀ {es : List ε} {s' : σ}, M.exec s es = some s' →
    ∃ tr', Run M (tr ++ tr') s' ∧ tr'.map Transition.event = es := by
  intro es
  induction es generalizing tr s with
  | nil =>
      intro s' hexec
      cases hexec
      exact ⟨[], by rwa [List.append_nil], rfl⟩
  | cons e es ih =>
      intro s' hexec
      rw [TransitionSystem.exec] at hexec
      cases hstep : M.step s e with
      | none =>
          rw [hstep] at hexec
          cases hexec
      | some s₁ =>
          rw [hstep] at hexec
          obtain ⟨tr', hrun, hevents⟩ := ih (h.extend hstep) hexec
          rw [List.append_assoc] at hrun
          exact ⟨⟨s, e, s₁⟩ :: tr', hrun, by rw [List.map_cons, hevents]⟩

/-- A list of events that can be performed from an initial state is a run. -/
theorem of_exec {s₀ s' : σ} {es : List ε} (h₀ : M.init s₀) (hexec : M.exec s₀ es = some s') :
    ∃ tr, Run M tr s' ∧ tr.map Transition.event = es :=
  (start h₀).exec_extends hexec

/-- The transition at the end of a run is one of its transitions. -/
theorem last_mem (tr : List (Transition σ ε)) (t : Transition σ ε) : t ∈ tr ++ [t] := by
  simp

/-- **Splitting a run**: the state before a transition is reached by the run up to there,
and the transition is a step. -/
theorem at_split {past future : List (Transition σ ε)} {t : Transition σ ε}
    (h : Run M (past ++ t :: future) s) :
    Run M past t.pre ∧ M.step t.pre t.event = some t.post := by
  generalize htr : past ++ t :: future = tr at h
  induction h generalizing future with
  | start _ => simp at htr
  | @extend tr s s' e hrun hstep ih =>
      rcases List.eq_nil_or_concat future with rfl | ⟨future', last, rfl⟩
      · obtain ⟨rfl, hlast⟩ := List.append_inj' htr rfl
        cases hlast
        exact ⟨hrun, hstep⟩
      · rw [List.concat_eq_append, ← List.cons_append, ← List.append_assoc] at htr
        exact ih (List.append_inj' htr rfl).1

/-- A transition of a run splits it. -/
theorem split (h : Run M tr s) {t : Transition σ ε} (ht : t ∈ tr) :
    ∃ past future, tr = past ++ t :: future ∧ Run M past t.pre ∧
      M.step t.pre t.event = some t.post := by
  obtain ⟨past, future, rfl⟩ := List.append_of_mem ht
  exact ⟨past, future, rfl, h.at_split⟩

/-! ## Invariants -/

/-- What holds initially and is kept by every step holds in every state reached. -/
theorem invariant {I : σ → Prop} (h₀ : ∀ s, M.init s → I s)
    (hstep : ∀ s e s', I s → M.step s e = some s' → I s') (h : Run M tr s) : I s := by
  induction h with
  | start hs => exact h₀ _ hs
  | extend _ hs ih => exact hstep _ _ _ ih hs

/-- An invariant that relates the state to the transitions so far. -/
theorem invariant_trace {J : List (Transition σ ε) → σ → Prop} (h₀ : ∀ s, M.init s → J [] s)
    (hstep : ∀ tr s e s', Run M tr s → J tr s → M.step s e = some s' → J (tr ++ [⟨s, e, s'⟩]) s')
    (h : Run M tr s) : J tr s := by
  induction h with
  | start hs => exact h₀ _ hs
  | extend hrun hs ih => exact hstep _ _ _ _ hrun ih hs

/-- An invariant of the runs whose every step meets the condition `C`. -/
theorem invariant_when {I : σ → Prop} {C : Transition σ ε → Prop} (h₀ : ∀ s, M.init s → I s)
    (hstep : ∀ tr s e s', Run M tr s → I s → C ⟨s, e, s'⟩ → M.step s e = some s' → I s')
    (h : Run M tr s) (hC : ∀ t ∈ tr, C t) : I s := by
  induction h with
  | start hs => exact h₀ _ hs
  | @extend tr s s' e hrun hs ih =>
      have hpast : I s := ih fun t ht => hC t (List.mem_append_left _ ht)
      exact hstep _ _ _ _ hrun hpast (hC _ (last_mem tr _)) hs

/-- **What every step keeps** is kept from every transition to the end. -/
theorem kept {R : σ → σ → Prop} (hrefl : ∀ s, R s s) (htrans : ∀ s s' s'', R s s' → R s' s'' → R s s'')
    (hstep : ∀ tr s e s', Run M tr s → M.step s e = some s' → R s s') (h : Run M tr s) :
    ∀ t ∈ tr, R t.post s := by
  induction h with
  | start _ => exact fun t ht => absurd ht List.not_mem_nil
  | @extend tr s s' e hrun hs ih =>
      intro t ht
      rcases List.mem_append.mp ht with hold | hnew
      · exact htrans _ _ _ (ih t hold) (hstep tr s e s' hrun hs)
      · rw [List.mem_singleton.mp hnew]
        exact hrefl s'

/-- **Exact conditions.**  If after every good past the condition and the property
of the next step agree, they agree over whole runs. -/
theorem forall_iff {C P : Transition σ ε → Prop}
    (hstep : ∀ tr s e s', Run M tr s → (∀ t ∈ tr, C t) → M.step s e = some s' →
      (P ⟨s, e, s'⟩ ↔ C ⟨s, e, s'⟩))
    (h : Run M tr s) : (∀ t ∈ tr, P t) ↔ ∀ t ∈ tr, C t := by
  induction h with
  | start _ => simp
  | @extend tr s s' e hrun hs ih =>
      simp only [List.forall_mem_append, List.forall_mem_singleton, ih]
      exact and_congr_right fun hgood => hstep _ _ _ _ hrun hgood hs

/-! ## Potentials -/

/-- **Events that use up a potential** come to an end: there are no more of them than it
allows. -/
theorem exec_potential {I : σ → Prop} {C : ε → Prop} {potential : σ → ℕ}
    (hstep : ∀ s e s', I s → C e → M.step s e = some s' → I s' ∧ potential s' < potential s) :
    ∀ {es : List ε} {s s' : σ}, I s → (∀ e ∈ es, C e) → M.exec s es = some s' →
      I s' ∧ es.length + potential s' ≤ potential s := by
  intro es
  induction es with
  | nil =>
      intro s s' hs _ hexec
      cases hexec
      exact ⟨hs, (Nat.zero_add _).le⟩
  | cons e es ih =>
      intro s s' hs hes hexec
      rw [List.forall_mem_cons] at hes
      rw [TransitionSystem.exec] at hexec
      cases he : M.step s e with
      | none =>
          rw [he] at hexec
          cases hexec
      | some s₁ =>
          rw [he] at hexec
          obtain ⟨hs₁, hlt⟩ := hstep s e s₁ hs hes.1 he
          obtain ⟨hs', hle⟩ := ih hs₁ hes.2 hexec
          refine ⟨hs', ?_⟩
          rw [List.length_cons]
          omega

end Run
