/-
# Readers of a byte stream

A `StreamReader` reads a byte stream by a chain of reads of known size: in every
state one read is outstanding, or none once the reader has stopped.  The handler of
a read is given exactly the bytes asked for and emits observations.  The stream
arrives in segments of any size, and a read completes once enough bytes are there.

* `invariant` : what the handlers keep holds in every run;
* `consumed_append_unread` : nothing is lost, duplicated or read out of order;
* `progress_of_run`, `emitted_of_run` : a stream of chunks that the reader asks for is read
  chunk by chunk;
* `exists_quiescent` : a reader whose empty reads make progress comes to rest.
-/
import Pweb.Foundation.Runs

/-- A reader of a byte stream: where it starts, the size of the outstanding read, and the
handlers of the bytes read and of a failed read. -/
structure StreamReader (σ ω : Type) where
  start : σ
  want : σ → Option ℕ
  handle : σ → List UInt8 → σ × List ω
  handleError : σ → σ × List ω

/-- A reader in front of its stream: the bytes it has read, those that have arrived after
them, and what its handlers have emitted. -/
structure Feed (σ ω : Type) where
  reader : σ
  consumed : List UInt8
  unread : List UInt8
  emitted : List ω
  deriving DecidableEq, Repr

/-- What can happen: a segment arrives, the outstanding read completes, or it fails. -/
inductive FeedEvent where
  | arrive (segment : List UInt8)
  | complete
  | fail
  deriving DecidableEq, Repr

/-- The bytes that arrive with an event. -/
def FeedEvent.segment : FeedEvent → List UInt8
  | .arrive segment => segment
  | .complete => []
  | .fail => []

variable {σ ω : Type}

namespace Feed

/-- A segment arrives. -/
def arrive (s : Feed σ ω) (segment : List UInt8) : Feed σ ω :=
  { s with unread := s.unread ++ segment }

@[simp] theorem arrive_reader (s : Feed σ ω) (segment : List UInt8) :
    (s.arrive segment).reader = s.reader := rfl

@[simp] theorem arrive_unread (s : Feed σ ω) (segment : List UInt8) :
    (s.arrive segment).unread = s.unread ++ segment := rfl

/-- The bytes of all segments that arrive in a run. -/
def arrived (tr : List (Transition (Feed σ ω) FeedEvent)) : List UInt8 :=
  tr.flatMap fun t => t.event.segment

theorem arrived_append (tr tr' : List (Transition (Feed σ ω) FeedEvent)) :
    arrived (tr ++ tr') = arrived tr ++ arrived tr' := List.flatMap_append

theorem arrived_extend (tr : List (Transition (Feed σ ω) FeedEvent)) (s s' : Feed σ ω)
    (e : FeedEvent) : arrived (tr ++ [⟨s, e, s'⟩]) = arrived tr ++ e.segment := by
  rw [arrived_append, arrived, arrived, List.flatMap_singleton]

theorem arrived_of_complete {tr : List (Transition (Feed σ ω) FeedEvent)}
    (h : ∀ t ∈ tr, t.event = .complete) : arrived tr = [] := by
  rw [arrived, List.flatMap_eq_nil_iff]
  intro t ht
  rw [h t ht]
  rfl

theorem arrived_of_events {tr : List (Transition (Feed σ ω) FeedEvent)} {events : List FeedEvent}
    (h : tr.map Transition.event = events) : arrived tr = events.flatMap FeedEvent.segment := by
  rw [← h, List.flatMap_map, arrived]

end Feed

namespace StreamReader

/-! ## Steps -/

/-- The outstanding read completes, if enough bytes have arrived. -/
def complete (M : StreamReader σ ω) (s : Feed σ ω) : Option (Feed σ ω) :=
  match M.want s.reader with
  | none => none
  | some n =>
    if n ≤ s.unread.length then
      some
        { reader := (M.handle s.reader (s.unread.take n)).1
          consumed := s.consumed ++ s.unread.take n
          unread := s.unread.drop n
          emitted := s.emitted ++ (M.handle s.reader (s.unread.take n)).2 }
    else none

/-- The outstanding read fails. -/
def fail (M : StreamReader σ ω) (s : Feed σ ω) : Option (Feed σ ω) :=
  match M.want s.reader with
  | none => none
  | some _ =>
    some { s with
      reader := (M.handleError s.reader).1
      emitted := s.emitted ++ (M.handleError s.reader).2 }

/-- The reader before anything has arrived. -/
def initial (M : StreamReader σ ω) : Feed σ ω := ⟨M.start, [], [], []⟩

/-- The reader and its stream as a transition system. -/
def system (M : StreamReader σ ω) : TransitionSystem (Feed σ ω) FeedEvent where
  init s := s = M.initial
  step s
    | .arrive segment => some (s.arrive segment)
    | .complete => M.complete s
    | .fail => M.fail s

variable {M : StreamReader σ ω} {s s' : Feed σ ω}

/-- A completed read took exactly the bytes asked for off the front of the stream. -/
theorem complete_eq_some_iff : M.complete s = some s' ↔
    ∃ bs, M.want s.reader = some bs.length ∧ s.unread = bs ++ s'.unread ∧
      s' = ⟨(M.handle s.reader bs).1, s.consumed ++ bs, s'.unread,
        s.emitted ++ (M.handle s.reader bs).2⟩ := by
  constructor
  · intro h
    unfold complete at h
    split at h
    · cases h
    · next n hwant =>
      split at h
      · next hle =>
        cases h
        have hlen : (s.unread.take n).length = n := by
          rw [List.length_take]
          omega
        exact ⟨s.unread.take n, by rw [hwant, hlen], (List.take_append_drop n s.unread).symm, rfl⟩
      · cases h
  · rintro ⟨bs, hwant, hunread, hs'⟩
    have hle : bs.length ≤ (bs ++ s'.unread).length := by
      rw [List.length_append]
      omega
    rw [hs', complete, hwant, hunread]
    simp only [if_pos hle, List.take_left, List.drop_left]

theorem fail_eq_some_iff : M.fail s = some s' ↔
    (M.want s.reader).isSome ∧ s' = { s with
      reader := (M.handleError s.reader).1
      emitted := s.emitted ++ (M.handleError s.reader).2 } := by
  unfold fail
  cases M.want s.reader with
  | none => simp
  | some n => simp [eq_comm]

/-- A reader that has stopped, or that waits for more bytes, completes no read. -/
theorem complete_eq_none_iff : M.complete s = none ↔
    ∀ n, M.want s.reader = some n → s.unread.length < n := by
  unfold complete
  cases M.want s.reader with
  | none => simp
  | some n => simp

/-! ## Runs -/

/-- **Invariants of a reader.**  What holds at the start and is kept by the handlers holds in
every run, of the reader, the bytes it has read and what it has emitted. -/
theorem invariant {J : σ → List UInt8 → List ω → Prop} (h₀ : J M.start [] [])
    (hread : ∀ r consumed emitted bs, J r consumed emitted → M.want r = some bs.length →
      J (M.handle r bs).1 (consumed ++ bs) (emitted ++ (M.handle r bs).2))
    (herror : ∀ r consumed emitted, J r consumed emitted → (M.want r).isSome →
      J (M.handleError r).1 consumed (emitted ++ (M.handleError r).2))
    {tr : List (Transition (Feed σ ω) FeedEvent)} (h : Run M.system tr s) :
    J s.reader s.consumed s.emitted := by
  refine Run.invariant (I := fun s => J s.reader s.consumed s.emitted) ?_ ?_ h
  · rintro s rfl
    exact h₀
  · intro s e s' hJ hstep
    cases e with
    | arrive segment =>
        cases hstep
        exact hJ
    | complete =>
        obtain ⟨bs, hwant, -, hs'⟩ := complete_eq_some_iff.mp hstep
        rw [hs']
        exact hread _ _ _ _ hJ hwant
    | fail =>
        obtain ⟨hwant, hs'⟩ := fail_eq_some_iff.mp hstep
        rw [hs']
        exact herror _ _ _ hJ hwant

/-- The rule for runs in which no read fails. -/
theorem invariant_of_no_fail {J : σ → List UInt8 → List ω → Prop} (h₀ : J M.start [] [])
    (hread : ∀ r consumed emitted bs, J r consumed emitted → M.want r = some bs.length →
      J (M.handle r bs).1 (consumed ++ bs) (emitted ++ (M.handle r bs).2))
    {tr : List (Transition (Feed σ ω) FeedEvent)} (h : Run M.system tr s)
    (hfail : ∀ t ∈ tr, t.event ≠ .fail) : J s.reader s.consumed s.emitted := by
  refine h.invariant_when (I := fun s => J s.reader s.consumed s.emitted)
    (C := fun t => t.event ≠ .fail) ?_ ?_ hfail
  · rintro s rfl
    exact h₀
  · intro _ s e s' _ hJ hne hstep
    cases e with
    | arrive segment =>
        cases hstep
        exact hJ
    | complete =>
        obtain ⟨bs, hwant, -, hs'⟩ := complete_eq_some_iff.mp hstep
        rw [hs']
        exact hread _ _ _ _ hJ hwant
    | fail => exact absurd rfl hne

/-- **The stream is read in order**: the bytes read and those still to be read are the bytes
that have arrived. -/
theorem consumed_append_unread {tr : List (Transition (Feed σ ω) FeedEvent)}
    (h : Run M.system tr s) : s.consumed ++ s.unread = Feed.arrived tr := by
  refine Run.invariant_trace (J := fun tr s => s.consumed ++ s.unread = Feed.arrived tr) ?_ ?_ h
  · rintro s rfl
    rfl
  · intro tr s e s' _ ih hstep
    rw [Feed.arrived_extend]
    cases e with
    | arrive segment =>
        cases hstep
        rw [Feed.arrive_unread, ← List.append_assoc]
        exact congrArg (· ++ segment) ih
    | complete =>
        obtain ⟨bs, -, hunread, hs'⟩ := complete_eq_some_iff.mp hstep
        rw [hs', FeedEvent.segment, List.append_nil, List.append_assoc, ← hunread]
        exact ih
    | fail =>
        obtain ⟨-, rfl⟩ := fail_eq_some_iff.mp hstep
        rw [FeedEvent.segment, List.append_nil]
        exact ih

/-! ## Streams made of chunks -/

/-- Handle chunks one after the other. -/
def play (M : StreamReader σ ω) : σ → List (List UInt8) → σ × List ω
  | r, [] => (r, [])
  | r, chunk :: chunks =>
    let next := M.handle r chunk
    ((M.play next.1 chunks).1, next.2 ++ (M.play next.1 chunks).2)

/-- The reader asks for these chunks, when it is given them one after the other. -/
def Asks (M : StreamReader σ ω) : σ → List (List UInt8) → Prop
  | _, [] => True
  | r, chunk :: chunks => M.want r = some chunk.length ∧ M.Asks (M.handle r chunk).1 chunks

theorem play_append (M : StreamReader σ ω) (xs ys : List (List UInt8)) : ∀ r, M.play r (xs ++ ys)
    = ((M.play (M.play r xs).1 ys).1, (M.play r xs).2 ++ (M.play (M.play r xs).1 ys).2) := by
  induction xs with
  | nil => intro r; rfl
  | cons x xs ih => intro r; simp only [List.cons_append, play, ih, List.append_assoc]

theorem asks_append {xs ys : List (List UInt8)} : ∀ {r : σ}, M.Asks r (xs ++ ys) ↔
    M.Asks r xs ∧ M.Asks (M.play r xs).1 ys := by
  induction xs with
  | nil =>
      intro r
      simp only [List.nil_append, Asks, play, true_and]
  | cons x xs ih =>
      intro r
      rw [List.cons_append, Asks, Asks, ih, and_assoc]
      rfl

theorem asks_of_before {chunks : List (List UInt8)} : ∀ {r : σ},
    (∀ done chunk todo, chunks = done ++ chunk :: todo →
      M.want (M.play r done).1 = some chunk.length) → M.Asks r chunks := by
  induction chunks with
  | nil =>
      intro r _
      trivial
  | cons chunk chunks ih =>
      intro r h
      refine ⟨h [] chunk chunks rfl, ih fun done c todo hc => ?_⟩
      exact h (chunk :: done) c todo (by rw [hc, List.cons_append])

/-- How far a run has come with a stream of chunks: before one of them, or past them all,
where `K` holds of the reader and `Q` of what it has emitted since. -/
inductive Progress (M : StreamReader σ ω) (chunks : List (List UInt8)) (K : σ → Prop)
    (Q : ω → Prop) (r : σ) (consumed : List UInt8) (emitted : List ω) : Prop
  | before (done : List (List UInt8)) (chunk : List UInt8) (todo : List (List UInt8))
      (hchunks : chunks = done ++ chunk :: todo) (hreader : r = (M.play M.start done).1)
      (hconsumed : consumed = done.flatten) (hemitted : emitted = (M.play M.start done).2)
  | past (more : List UInt8) (later : List ω) (hK : K r) (hQ : ∀ a ∈ later, Q a)
      (hconsumed : consumed = chunks.flatten ++ more)
      (hemitted : emitted = (M.play M.start chunks).2 ++ later)

/-- **A stream of chunks the reader asks for** is read chunk by chunk, in whatever segments it
arrives. -/
theorem progress_of_run (rest : List UInt8) {chunks : List (List UInt8)} {K : σ → Prop}
    {Q : ω → Prop} (hasks : M.Asks M.start chunks) (hend : K (M.play M.start chunks).1)
    (hpast : ∀ r more bs, K r → M.want r = some bs.length → more ++ bs <+: rest →
      K (M.handle r bs).1 ∧ ∀ a ∈ (M.handle r bs).2, Q a)
    {tr : List (Transition (Feed σ ω) FeedEvent)} (h : Run M.system tr s)
    (hfail : ∀ t ∈ tr, t.event ≠ .fail) (harrived : Feed.arrived tr <+: chunks.flatten ++ rest) :
    M.Progress chunks K Q s.reader s.consumed s.emitted := by
  have hprefix : s.consumed <+: chunks.flatten ++ rest :=
    (List.prefix_append s.consumed s.unread).trans (consumed_append_unread h ▸ harrived)
  refine invariant_of_no_fail (J := fun r consumed emitted =>
    consumed <+: chunks.flatten ++ rest → M.Progress chunks K Q r consumed emitted)
    ?_ ?_ h hfail hprefix
  · intro _
    cases chunks with
    | nil => exact .past [] [] hend (List.forall_mem_nil _) rfl rfl
    | cons chunk todo => exact .before [] chunk todo rfl rfl rfl rfl
  · intro r consumed emitted bs ih hwant hpre
    rcases ih ((List.prefix_append consumed bs).trans hpre) with
      ⟨done, chunk, todo, rfl, rfl, rfl, rfl⟩ | ⟨more, later, hKr, hQl, rfl, rfl⟩
    · obtain ⟨hdone, hchunk, htodo⟩ := asks_append.mp hasks
      have hlen : bs.length = chunk.length := Option.some.inj (hwant.symm.trans hchunk)
      -- the chunk comes next on the stream and has the length of what was read
      obtain rfl : bs = chunk := by
        rw [List.flatten_append, List.flatten_cons, List.append_assoc, List.append_assoc,
          List.prefix_append_right_inj] at hpre
        have htake := List.prefix_iff_eq_take.mp hpre
        rwa [hlen, List.take_left] at htake
      have hplay := M.play_append done [bs] M.start
      simp only [play, List.append_nil] at hplay
      cases todo with
      | nil =>
          refine .past [] [] ?_ (List.forall_mem_nil _) ?_ ?_
          · rwa [hplay] at hend
          · simp
          · rw [hplay, List.append_nil]
      | cons next todo =>
          refine .before (done ++ [bs]) next todo (by simp) ?_ (by simp) ?_
          · rw [hplay]
          · rw [hplay]
    · rw [List.append_assoc, List.prefix_append_right_inj] at hpre
      obtain ⟨hKr', hQr'⟩ := hpast r more bs hKr hwant hpre
      refine .past (more ++ bs) (later ++ (M.handle r bs).2) hKr' ?_ ?_ ?_
      · exact List.forall_mem_append.mpr ⟨hQl, hQr'⟩
      · rw [List.append_assoc]
      · rw [List.append_assoc]

/-- A reader at rest has read all chunks once they have arrived. -/
theorem past_of_rest {chunks : List (List UInt8)} {rest : List UInt8} {K : σ → Prop}
    {Q : ω → Prop} (hasks : M.Asks M.start chunks)
    (hprogress : M.Progress chunks K Q s.reader s.consumed s.emitted)
    (hall : s.consumed ++ s.unread = chunks.flatten ++ rest) (hrest : M.complete s = none) :
    ∃ more later, K s.reader ∧ (∀ a ∈ later, Q a) ∧ s.consumed = chunks.flatten ++ more ∧
      s.emitted = (M.play M.start chunks).2 ++ later := by
  rcases hprogress with
    ⟨done, chunk, todo, rfl, hreader, hconsumed, -⟩ | ⟨more, later, hK, hQ, hc, he⟩
  · obtain ⟨-, hchunk, -⟩ := asks_append.mp hasks
    rw [← hreader] at hchunk
    have hlt := complete_eq_none_iff.mp hrest _ hchunk
    rw [hconsumed, List.flatten_append, List.flatten_cons, List.append_assoc, List.append_assoc,
      List.append_cancel_left_eq] at hall
    rw [hall, List.length_append] at hlt
    omega
  · exact ⟨more, later, hK, hQ, hc, he⟩

/-- **A stream of chunks after which the reader is silent**: what it emits is a prefix of what
the chunks make it emit, and all of it once the reader rests behind the whole stream. -/
theorem emitted_of_run (rest : List UInt8) {chunks : List (List UInt8)} {K : σ → Prop}
    (hasks : M.Asks M.start chunks) (hend : K (M.play M.start chunks).1)
    (hpast : ∀ r more bs, K r → M.want r = some bs.length → more ++ bs <+: rest →
      K (M.handle r bs).1 ∧ (M.handle r bs).2 = [])
    {tr : List (Transition (Feed σ ω) FeedEvent)} (h : Run M.system tr s)
    (hfail : ∀ t ∈ tr, t.event ≠ .fail) (harrived : Feed.arrived tr <+: chunks.flatten ++ rest) :
    s.emitted <+: (M.play M.start chunks).2 ∧
      (Feed.arrived tr = chunks.flatten ++ rest → M.complete s = none →
        s.emitted = (M.play M.start chunks).2) := by
  have hsilent : ∀ later : List ω, (∀ a ∈ later, False) → later = [] := fun later hnone =>
    List.eq_nil_iff_forall_not_mem.mpr hnone
  have hprogress := progress_of_run (Q := fun _ => False) rest hasks hend (fun r more bs hKr hwant
    hpre => by
      obtain ⟨hKr', hnone⟩ := hpast r more bs hKr hwant hpre
      rw [hnone]
      exact ⟨hKr', List.forall_mem_nil _⟩) h hfail harrived
  constructor
  · rcases hprogress with
      ⟨done, chunk, todo, rfl, -, -, hemitted⟩ | ⟨more, later, -, hQ, -, hemitted⟩
    · rw [hemitted, play_append]
      apply List.prefix_append
    · rw [hemitted, hsilent later hQ, List.append_nil]
  · intro hall hrest
    obtain ⟨more, later, -, hQ, -, hemitted⟩ := past_of_rest hasks hprogress
      ((consumed_append_unread h).trans hall) hrest
    rw [hemitted, hsilent later hQ, List.append_nil]

/-! ## Rest -/

/-- If every empty read decreases a measure, the reads that can complete come to an
end. -/
theorem exists_quiescent (μ : σ → ℕ)
    (hμ : ∀ r, M.want r = some 0 → μ (M.handle r []).1 < μ r)
    {tr : List (Transition (Feed σ ω) FeedEvent)} (h : Run M.system tr s) :
    ∃ tr' s', Run M.system (tr ++ tr') s' ∧ (∀ t ∈ tr', t.event = .complete) ∧
      M.complete s' = none := by
  -- a read takes bytes off the stream or decreases the measure
  induction hn : s.unread.length using Nat.strong_induction_on generalizing s tr with
  | _ n ihn =>
    induction hm : μ s.reader using Nat.strong_induction_on generalizing s tr with
    | _ m ihm =>
      cases hc : M.complete s with
      | none => exact ⟨[], s, by rwa [List.append_nil], List.forall_mem_nil _, hc⟩
      | some s₁ =>
          have hstep : M.system.step s .complete = some s₁ := hc
          have hrun := h.extend hstep
          obtain ⟨bs, hwant, hunread, hs₁⟩ := complete_eq_some_iff.mp hc
          have hrest : ∃ tr' s', Run M.system (tr ++ [⟨s, .complete, s₁⟩] ++ tr') s' ∧
              (∀ t ∈ tr', t.event = .complete) ∧ M.complete s' = none := by
            have hlen : n = bs.length + s₁.unread.length := by
              rw [← hn, hunread, List.length_append]
            cases bs with
            | nil =>
                have hmeasure : μ s₁.reader < m := by
                  rw [← hm, hs₁]
                  exact hμ _ hwant
                rw [List.length_nil, Nat.zero_add] at hlen
                exact ihm _ hmeasure hrun hlen.symm rfl
            | cons b bs =>
                rw [List.length_cons] at hlen
                exact ihn _ (by omega) hrun rfl
          obtain ⟨tr', s', hrun', hall, hnone⟩ := hrest
          rw [List.append_assoc] at hrun'
          exact ⟨_, s', hrun', List.forall_mem_cons.mpr ⟨rfl, hall⟩, hnone⟩

end StreamReader
