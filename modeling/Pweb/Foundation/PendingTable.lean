/-
# A table of pending requests under reusable keys

Requests are registered under keys and wait in the table until they are settled.
A key may be used again once its entry has gone, so an event that knows only a
key reaches whatever request is registered under it now.

* `register`, `reject` and `settle` lose no request and settle none twice;
* `fail` settles a given request and clears its key, whoever holds it: it loses no
  request exactly when the key is free or held by the request itself
  (`noneLost_fail_iff`), and settles none twice exactly when the request holds its
  key (`nodup_fail_iff`).
-/
import Mathlib

/-- Requests `ρ` under keys `κ`: who holds a key, the key a request was registered under,
and the requests that have been settled, in order. -/
@[ext]
structure PendingTable (κ ρ : Type) where
  entries : κ → Option ρ
  registered : ρ → Option κ
  settled : List ρ

namespace PendingTable

variable {κ ρ : Type}

/-- Settle a request without looking at the table. -/
def reject (t : PendingTable κ ρ) (r : ρ) : PendingTable κ ρ :=
  { t with settled := t.settled ++ [r] }

/-! ## Properties of a table -/

/-- The holder of a key is registered under it and has not been settled. -/
structure Sound (t : PendingTable κ ρ) : Prop where
  registered : ∀ k r, t.entries k = some r → t.registered r = some k
  not_settled : ∀ k r, t.entries k = some r → r ∉ t.settled

/-- Every registered request that has not been settled holds its key. -/
def NoneLost (t : PendingTable κ ρ) : Prop :=
  ∀ r k, t.registered r = some k → r ∉ t.settled → t.entries k = some r

/-- A request the table has not met. -/
structure Fresh (t : PendingTable κ ρ) (r : ρ) : Prop where
  not_registered : t.registered r = none
  not_settled : r ∉ t.settled

variable {t : PendingTable κ ρ} {r : ρ} {k : κ}

/-- A request the table has not met holds no key. -/
theorem Sound.entries_ne (h : t.Sound) (hr : t.Fresh r) (k : κ) : t.entries k ≠ some r := by
  intro hentry
  have hreg := h.registered k r hentry
  rw [hr.not_registered] at hreg
  cases hreg

/-! ## Settling -/

theorem Sound.reject (h : t.Sound) (hout : ∀ k, t.entries k ≠ some r) : (t.reject r).Sound where
  registered := h.registered
  not_settled k' r' hentry hmem := by
    rcases List.mem_append.mp hmem with hold | hnew
    · exact h.not_settled k' r' hentry hold
    · rw [List.mem_singleton] at hnew
      exact hout k' (hnew ▸ hentry)

theorem Fresh.reject (h : t.Fresh r) {r' : ρ} (hne : r ≠ r') : (t.reject r').Fresh r where
  not_registered := h.not_registered
  not_settled hmem := by
    rcases List.mem_append.mp hmem with hold | hnew
    · exact h.not_settled hold
    · exact hne (List.mem_singleton.mp hnew)

theorem NoneLost.reject (h : t.NoneLost) (r : ρ) : (t.reject r).NoneLost := by
  intro r' k' hreg hmem
  exact h r' k' hreg fun hold => hmem (List.mem_append_left _ hold)

theorem nodup_reject_iff : (t.reject r).settled.Nodup ↔ t.settled.Nodup ∧ r ∉ t.settled := by
  show (t.settled ++ [r]).Nodup ↔ _
  rw [List.nodup_append_comm, List.singleton_append, List.nodup_cons, and_comm]

/-! ## Keys -/

variable [DecidableEq κ]

/-- Clear a key. -/
def release (t : PendingTable κ ρ) (k : κ) : PendingTable κ ρ :=
  { t with entries := Function.update t.entries k none }

/-- Clear a key and settle the request that held it, if any. -/
def settle (t : PendingTable κ ρ) (k : κ) : PendingTable κ ρ :=
  match t.entries k with
  | none => t
  | some r => (t.release k).reject r

/-- Clear a key and settle the given request. -/
def fail (t : PendingTable κ ρ) (r : ρ) (k : κ) : PendingTable κ ρ := (t.release k).reject r

/-- Enter a request under a key. -/
def register [DecidableEq ρ] (t : PendingTable κ ρ) (r : ρ) (k : κ) : PendingTable κ ρ :=
  { t with
    entries := Function.update t.entries k (some r)
    registered := Function.update t.registered r (some k) }

/-! ## Soundness -/

theorem release_entries_eq_some {k' : κ} {r' : ρ} :
    (t.release k).entries k' = some r' ↔ k' ≠ k ∧ t.entries k' = some r' := by
  by_cases hk : k' = k
  · subst hk
    simp [release]
  · simp [release, hk]

theorem Sound.release (h : t.Sound) (k : κ) : (t.release k).Sound where
  registered k' r' hentry := h.registered k' r' (release_entries_eq_some.mp hentry).2
  not_settled k' r' hentry := h.not_settled k' r' (release_entries_eq_some.mp hentry).2

theorem Sound.register [DecidableEq ρ] (h : t.Sound) (hr : t.Fresh r) : (t.register r k).Sound := by
  have hother : ∀ k' r', t.entries k' = some r' → r' ≠ r := by
    rintro k' r' hentry rfl
    exact h.entries_ne hr k' hentry
  constructor
  · intro k' r' hentry
    by_cases hk : k' = k
    · subst hk
      obtain rfl : r = r' := by simpa [PendingTable.register] using hentry
      simp [PendingTable.register]
    · have hold : t.entries k' = some r' := by simpa [PendingTable.register, hk] using hentry
      simp [PendingTable.register, hother k' r' hold, h.registered k' r' hold]
  · intro k' r' hentry
    by_cases hk : k' = k
    · subst hk
      obtain rfl : r = r' := by simpa [PendingTable.register] using hentry
      exact hr.not_settled
    · have hold : t.entries k' = some r' := by simpa [PendingTable.register, hk] using hentry
      exact h.not_settled k' r' hold

/-- A request can be settled once its key has been cleared. -/
theorem Sound.fail (h : t.Sound) (hreg : t.registered r = some k) : (t.fail r k).Sound := by
  apply (h.release k).reject
  intro k' hentry
  obtain ⟨hne, hold⟩ := release_entries_eq_some.mp hentry
  have hreg' := h.registered k' r hold
  rw [hreg] at hreg'
  exact hne (Option.some.inj hreg').symm

theorem Sound.settle (h : t.Sound) (k : κ) : (t.settle k).Sound := by
  unfold PendingTable.settle
  cases hentry : t.entries k with
  | none => exact h
  | some r => exact h.fail (h.registered k r hentry)

/-! ## Requests not met -/

theorem Fresh.register [DecidableEq ρ] (h : t.Fresh r) {r' : ρ} (hne : r ≠ r') (k : κ) :
    (t.register r' k).Fresh r where
  not_registered := (Function.update_of_ne hne _ _).trans h.not_registered
  not_settled := h.not_settled

/-- A request that fails has been registered. -/
theorem Fresh.fail (h : t.Fresh r) {r' : ρ} (hreg : t.registered r' = some k) :
    (t.fail r' k).Fresh r := by
  have hrelease : (t.release k).Fresh r := ⟨h.not_registered, h.not_settled⟩
  apply hrelease.reject
  rintro rfl
  rw [h.not_registered] at hreg
  cases hreg

theorem Fresh.settle (hs : t.Sound) (h : t.Fresh r) (k : κ) : (t.settle k).Fresh r := by
  unfold PendingTable.settle
  cases hentry : t.entries k with
  | none => exact h
  | some r' => exact h.fail (hs.registered k r' hentry)

/-! ## Lost requests -/

theorem NoneLost.register [DecidableEq ρ] (h : t.NoneLost) (hfree : t.entries k = none) :
    (t.register r k).NoneLost := by
  intro r' k' hreg hmem
  by_cases hr : r' = r
  · subst hr
    obtain rfl : k = k' := by simpa [PendingTable.register] using hreg
    simp [PendingTable.register]
  · have hreg' : t.registered r' = some k' := by simpa [PendingTable.register, hr] using hreg
    have hentry := h r' k' hreg' hmem
    have hk : k' ≠ k := by
      intro heq
      rw [heq, hfree] at hentry
      cases hentry
    simp [PendingTable.register, hk, hentry]

/-- **What a failure may do.**  It loses no request exactly when the key is free or held
by the request that fails. -/
theorem noneLost_fail_iff (hs : t.Sound) (h : t.NoneLost) :
    (t.fail r k).NoneLost ↔ t.entries k = none ∨ t.entries k = some r := by
  constructor
  · intro hfail
    cases hentry : t.entries k with
    | none => exact .inl rfl
    | some r' =>
        refine .inr (congrArg some ?_)
        by_contra hne
        -- the holder of the key is still registered, but its entry has gone
        have hmem : r' ∉ (t.fail r k).settled := by
          intro hmem
          rcases List.mem_append.mp hmem with hold | hnew
          · exact hs.not_settled k r' hentry hold
          · exact hne (List.mem_singleton.mp hnew)
        have hlost := hfail r' k (hs.registered k r' hentry) hmem
        exact (release_entries_eq_some.mp hlost).1 rfl
  · intro hkey r' k' hreg hmem
    have hold : r' ∉ t.settled := fun hmem' => hmem (List.mem_append_left _ hmem')
    have hne : r' ≠ r := fun heq => hmem (List.mem_append_right _ (List.mem_singleton.mpr heq))
    have hentry := h r' k' hreg hold
    refine release_entries_eq_some.mpr ⟨fun heq => ?_, hentry⟩
    rw [heq] at hentry
    rcases hkey with hnone | hself
    · rw [hnone] at hentry
      cases hentry
    · rw [hself] at hentry
      exact hne (Option.some.inj hentry).symm

theorem NoneLost.settle (hs : t.Sound) (h : t.NoneLost) (k : κ) : (t.settle k).NoneLost := by
  unfold PendingTable.settle
  cases hentry : t.entries k with
  | none => exact h
  | some r => exact (noneLost_fail_iff hs h).mpr (.inr hentry)

/-! ## Settled twice -/

theorem nodup_settle (hs : t.Sound) (h : t.settled.Nodup) (k : κ) : (t.settle k).settled.Nodup := by
  unfold PendingTable.settle
  cases hentry : t.entries k with
  | none => exact h
  | some r => exact nodup_reject_iff.mpr ⟨h, hs.not_settled k r hentry⟩

/-- **When a failure settles nothing twice**: exactly when the request holds its key. -/
theorem nodup_fail_iff (hs : t.Sound) (hl : t.NoneLost) (h : t.settled.Nodup)
    (hreg : t.registered r = some k) :
    (t.fail r k).settled.Nodup ↔ t.entries k = some r := by
  have hiff : (t.fail r k).settled.Nodup ↔ t.settled.Nodup ∧ r ∉ t.settled :=
    nodup_reject_iff (t := t.release k)
  rw [hiff]
  constructor
  · rintro ⟨-, hmem⟩
    exact hl r k hreg hmem
  · intro hentry
    exact ⟨h, hs.not_settled k r hentry⟩

end PendingTable
