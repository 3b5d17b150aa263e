/-
# The token counter of the test client

`token_counter` hands out tokens and keeps a queue of callbacks that wait for some to
come back.  `notify` invokes the callback at the front while that is still in the queue,
and pops the queue after the callback has returned.

A counter in use is a transition system in which a callback is entered by `notify` and
left by the event `ret`, so that callbacks may request, wait and release and notifications
nest to any depth.  `notifiedOnce_iff` : the waiters of a run are notified once and in
order exactly when no callback leaves free tokens by a `release` of its own.
-/
import Pweb.Foundation.Runs

namespace TestClient

/-- `token_counter` : the free tokens and the callbacks that wait. -/
structure TokenCounter (Cb : Type) where
  numtokens : UInt64
  cbqueue : List Cb
deriving DecidableEq

namespace TokenCounter

variable {Cb : Type}

/-- `token_counter::request` : as many of `num` tokens as are free. -/
def request (tc : TokenCounter Cb) (num : UInt64) : UInt64 × TokenCounter Cb :=
  let num := if num > tc.numtokens then tc.numtokens else num
  (num, { tc with numtokens := tc.numtokens - num })

/-- `token_counter::wait`. -/
def wait (tc : TokenCounter Cb) (cb : Cb) : TokenCounter Cb :=
  { tc with cbqueue := tc.cbqueue ++ [cb] }

/-- The first statement of `token_counter::release`; `notify` follows. -/
def add (tc : TokenCounter Cb) (num : UInt64) : TokenCounter Cb :=
  { tc with numtokens := tc.numtokens + num }

/-- The head of the loop of `token_counter::notify` : the callback that is invoked next. -/
def next (tc : TokenCounter Cb) : Option Cb :=
  if tc.numtokens ≠ 0 then tc.cbqueue.head? else none

/-- `cbqueue_.pop()`, for a queue that is not empty. -/
def pop (tc : TokenCounter Cb) : TokenCounter Cb :=
  { tc with cbqueue := tc.cbqueue.tail }

theorem next_eq_none_iff {tc : TokenCounter Cb} :
    tc.next = none ↔ tc.numtokens = 0 ∨ tc.cbqueue = [] := by
  by_cases h : tc.numtokens = 0
  · simp [next, h]
  · simp [next, h]

theorem next_cons {numtokens : UInt64} (h : numtokens ≠ 0) (cb : Cb) (cbs : List Cb) :
    next ⟨numtokens, cb :: cbs⟩ = some cb := by
  simp [next, h]

/-- A request takes what it returns, and no more than was asked for or is free. -/
theorem request_spec (tc : TokenCounter Cb) (num : UInt64) :
    (tc.request num).1 ≤ num ∧
      (tc.request num).2.numtokens.toNat + (tc.request num).1.toNat = tc.numtokens.toNat ∧
      (tc.request num).2.cbqueue = tc.cbqueue := by
  by_cases h : num > tc.numtokens
  · have hle : tc.numtokens ≤ num := UInt64.le_of_lt h
    refine ⟨by simpa [request, h] using hle, ?_, rfl⟩
    simp [request, h]
  · have hle : num ≤ tc.numtokens := UInt64.not_lt.mp h
    refine ⟨by simp [request, h], ?_, rfl⟩
    simp only [request, if_neg h, UInt64.toNat_sub_of_le _ _ hle]
    exact Nat.sub_add_cancel hle

/-- If less was received than requested, no token is left. -/
theorem request_lt {tc : TokenCounter Cb} {num : UInt64} (h : (tc.request num).1 < num) :
    (tc.request num).2.numtokens = 0 := by
  by_cases hgt : num > tc.numtokens
  · simp [request, hgt]
  · simp [request, hgt] at h

end TokenCounter

/-! ## A counter in use -/

/-- A counter with its callbacks.  A callback is named by its registration, numbered in
the order of the calls of `wait`; `running` are the callbacks that have been invoked and
have not returned, the innermost first. -/
structure CounterUse where
  counter : TokenCounter ℕ
  registered : ℕ
  invoked : List ℕ
  running : List ℕ
deriving DecidableEq

/-- A call of an operation, by a callback that is running or from outside, or the return
of the innermost callback. -/
inductive CounterEvent
  | request (num : UInt64)
  | wait
  | release (num : UInt64)
  | ret
deriving DecidableEq

namespace CounterUse

/-- The head of the loop of `notify` : the callback at the front is invoked and stays in
the queue, or the loop ends. -/
def notify (u : CounterUse) : CounterUse :=
  match u.counter.next with
  | none => u
  | some cb => { u with invoked := u.invoked ++ [cb], running := cb :: u.running }

/-- One event.  When a callback returns, the loop that invoked it pops the queue and goes
on; popping an empty queue is undefined. -/
def step (u : CounterUse) : CounterEvent → Option CounterUse
  | .request num => some { u with counter := (u.counter.request num).2 }
  | .wait => some { u with counter := u.counter.wait u.registered, registered := u.registered + 1 }
  | .release num => some (notify { u with counter := u.counter.add num })
  | .ret =>
    match u.running, u.counter.cbqueue with
    | _ :: outer, _ :: _ => some (notify { u with counter := u.counter.pop, running := outer })
    | _, _ => none

/-- A new counter. -/
def new (numtokens : UInt64) : CounterUse := ⟨⟨numtokens, []⟩, 0, [], []⟩

/-- The runs of a counter with any number of tokens. -/
def system : TransitionSystem CounterUse CounterEvent where
  init u := ∃ numtokens, u = new numtokens
  step := step

/-- What waiters rely on: each registration is invoked at most once, in the order of
registration, and stays in the queue until then. -/
structure NotifiedOnce (u : CounterUse) : Prop where
  once : u.invoked.Nodup
  ordered : u.invoked.Pairwise (· < ·)
  queued : ∀ cb < u.registered, cb ∉ u.invoked → cb ∈ u.counter.cbqueue

/-- A callback that is running releases tokens, and some are free afterwards. -/
def ReleasesInside (t : Transition CounterUse CounterEvent) : Prop :=
  ∃ num, t.event = .release num ∧ t.pre.running ≠ [] ∧ t.pre.counter.numtokens + num ≠ 0

/-- The states of a run in which no callback has left free tokens: the registrations up to
`k` have been invoked, and the others are in the queue, behind the one that is running. -/
inductive InOrder : CounterUse → Prop
  | idle {numtokens : UInt64} {k n : ℕ} :
      InOrder ⟨⟨numtokens, List.range' k n⟩, k + n, List.range k, []⟩
  | calling {numtokens : UInt64} {k n : ℕ} :
      InOrder ⟨⟨numtokens, List.range' k (n + 1)⟩, k + (n + 1), List.range (k + 1), [k]⟩

theorem InOrder.notifiedOnce {u : CounterUse} (h : InOrder u) : NotifiedOnce u := by
  cases h with
  | @idle numtokens k n =>
      refine ⟨List.nodup_range, List.pairwise_lt_range, fun cb hcb hnot => ?_⟩
      rw [List.mem_range] at hnot
      rw [List.mem_range'_1]
      exact ⟨Nat.not_lt.mp hnot, hcb⟩
  | @calling numtokens k n =>
      refine ⟨List.nodup_range, List.pairwise_lt_range, fun cb hcb hnot => ?_⟩
      rw [List.mem_range] at hnot
      rw [List.mem_range'_1]
      exact ⟨by omega, hcb⟩

/-! ## One step -/

/-- Entering the loop while no callback is running. -/
theorem InOrder.notify_idle (numtokens : UInt64) (k n : ℕ) :
    InOrder (notify ⟨⟨numtokens, List.range' k n⟩, k + n, List.range k, []⟩) := by
  cases n with
  | zero =>
      have hnext : TokenCounter.next ⟨numtokens, List.range' k 0⟩ = none :=
        TokenCounter.next_eq_none_iff.mpr (.inr rfl)
      rw [notify, hnext]
      exact .idle
  | succ n =>
      by_cases htokens : numtokens = 0
      · have hnext : TokenCounter.next ⟨numtokens, List.range' k (n + 1)⟩ = none :=
          TokenCounter.next_eq_none_iff.mpr (.inl htokens)
        rw [notify, hnext]
        exact .idle
      · have hnext : TokenCounter.next ⟨numtokens, List.range' k (n + 1)⟩ = some k :=
          TokenCounter.next_cons htokens _ _
        rw [notify, hnext]
        show InOrder ⟨_, _, List.range k ++ [k], _⟩
        rw [← List.range_succ]
        exact .calling

theorem InOrder.wait {u : CounterUse} (h : InOrder u) :
    InOrder { u with counter := u.counter.wait u.registered, registered := u.registered + 1 } := by
  cases h with
  | @idle numtokens k n =>
      show InOrder ⟨⟨_, List.range' k n ++ [k + n]⟩, k + (n + 1), _, _⟩
      rw [← List.range'_1_concat]
      exact .idle
  | @calling numtokens k n =>
      show InOrder ⟨⟨_, List.range' k (n + 1) ++ [k + (n + 1)]⟩, k + (n + 1 + 1), _, _⟩
      rw [← List.range'_1_concat]
      exact .calling

/-- A release by a callback that leaves tokens invokes that callback again. -/
theorem InOrder.release_calling {u : CounterUse} {num : UInt64} (h : InOrder u)
    (hrunning : u.running ≠ []) (htokens : u.counter.numtokens + num ≠ 0) :
    ¬ NotifiedOnce (notify { u with counter := u.counter.add num }) := by
  intro hgood
  cases h with
  | idle => exact hrunning rfl
  | @calling numtokens k n =>
      have hnext : TokenCounter.next ⟨numtokens + num, List.range' k (n + 1)⟩ = some k :=
        TokenCounter.next_cons htokens _ _
      have honce := hgood.once
      rw [notify, TokenCounter.add, hnext, List.nodup_append] at honce
      exact honce.2.2 k (by simp) k (by simp) rfl

theorem InOrder.step {u u' : CounterUse} {e : CounterEvent} (h : InOrder u)
    (hnot : ¬ ReleasesInside ⟨u, e, u'⟩) (hstep : u.step e = some u') : InOrder u' := by
  cases e with
  | request num =>
      cases hstep
      cases h with
      | idle => exact .idle
      | calling => exact .calling
  | wait =>
      cases hstep
      exact h.wait
  | release num =>
      cases hstep
      cases h with
      | idle => exact .notify_idle _ _ _
      | @calling numtokens k n =>
          have htokens : numtokens + num = 0 := by
            by_contra htokens
            exact hnot ⟨num, rfl, List.cons_ne_nil _ _, htokens⟩
          have hnext : TokenCounter.next ⟨numtokens + num, List.range' k (n + 1)⟩ = none :=
            TokenCounter.next_eq_none_iff.mpr (.inl htokens)
          rw [notify, TokenCounter.add, hnext]
          exact .calling
  | ret =>
      cases h with
      | idle => cases hstep
      | @calling numtokens k n =>
          cases hstep
          show InOrder (notify ⟨⟨numtokens, List.range' (k + 1) n⟩, k + (n + 1), _, _⟩)
          rw [Nat.add_comm n 1, ← Nat.add_assoc]
          exact .notify_idle _ _ _

/-! ## Whole runs -/

variable {tr : List (Transition CounterUse CounterEvent)} {u : CounterUse}

theorem InOrder.of_run (h : Run system tr u) (hnot : ∀ t ∈ tr, ¬ ReleasesInside t) : InOrder u := by
  apply h.invariant_when _ _ hnot
  · rintro _ ⟨numtokens, rfl⟩
    exact .idle (k := 0) (n := 0)
  · intro tr u e u' _ hu hnot hstep
    exact hu.step hnot hstep

/-- **Notification once, in order.**  The waiters of a run are notified once and in the
order of registration exactly when no callback leaves free tokens by a release. -/
theorem notifiedOnce_iff (h : Run system tr u) :
    (∀ t ∈ tr, NotifiedOnce t.post) ↔ ∀ t ∈ tr, ¬ ReleasesInside t := by
  apply Run.forall_iff _ h
  intro tr u e u' hrun hpast hstep
  have hu := InOrder.of_run hrun hpast
  constructor
  · rintro hgood ⟨num, he, hrunning, htokens⟩
    cases he
    cases hstep
    exact hu.release_calling hrunning htokens hgood
  · intro hnot
    exact (hu.step hnot hstep).notifiedOnce

/-- Two waiters, of which the first takes the token and waits again. -/
theorem notifiedOnce_iff_waits_again :
    ∃ tr, Run system tr ⟨⟨0, [1, 2]⟩, 3, [0], []⟩ ∧
      tr.map Transition.event = [.wait, .wait, .release 1, .request 1, .wait, .ret] ∧
      ((∀ t ∈ tr, NotifiedOnce t.post) ↔ ∀ t ∈ tr, ¬ ReleasesInside t) := by
  have hexec : system.exec (new 0) [.wait, .wait, .release 1, .request 1, .wait, .ret] =
      some ⟨⟨0, [1, 2]⟩, 3, [0], []⟩ := by decide
  have hinit : system.init (new 0) := ⟨0, rfl⟩
  obtain ⟨tr, hrun, hevents⟩ := Run.of_exec hinit hexec
  exact ⟨tr, hrun, hevents, notifiedOnce_iff hrun⟩

/-- A callback that releases a token is invoked a second time before it returns. -/
theorem release_inside_notifies_twice :
    ¬ ∀ tr u, Run system tr u → ∀ t ∈ tr, NotifiedOnce t.post := by
  intro hall
  have hexec : system.exec (new 0) [.wait, .release 1] = some ⟨⟨1, [0]⟩, 1, [0], [0]⟩ := by decide
  have hagain : system.step ⟨⟨1, [0]⟩, 1, [0], [0]⟩ (.release 1) =
      some ⟨⟨2, [0]⟩, 1, [0, 0], [0, 0]⟩ := by decide
  have hinit : system.init (new 0) := ⟨0, rfl⟩
  obtain ⟨tr, hrun, -⟩ := Run.of_exec hinit hexec
  have honce := (hall _ _ (hrun.extend hagain) _ (Run.last_mem tr _)).once
  revert honce
  decide

end CounterUse

end TestClient
