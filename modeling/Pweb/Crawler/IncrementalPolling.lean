/-
# Incremental polling

A home agent stamps the entries of its name table with the clock, in seconds, and
answers a poll with the entries that are later than a time.  The poller asks for those
later than `timestamp_`, and sets this to one second after the newest entry of an answer
once it has been posted.

`none_skipped_iff` : no change is skipped exactly if every change comes later than the
`timestamp_` in force, for a change during a poll the one that the poll leaves.
-/
import Pweb.Crawler.Poller
import Pweb.Klink.NameDb
import Pweb.Foundation.Runs

namespace Poller

open Klink

/-- The progress of a poll. -/
inductive Phase where
  /-- No poll is in progress. -/
  | idle
  /-- The entries later than `timestamp` have been requested. -/
  | requested (timestamp : ℤ)
  /-- The home agent has answered. -/
  | answered (entries : List (Bytes × ℤ))
  /-- The documents have been sent to Solr. -/
  | posting (entries : List (Bytes × ℤ)) (newtimestamp : ℤ)

/-- A home agent and its poller. -/
structure PollState where
  clock : ℤ
  nameDb : NameDb
  /-- The poller's `timestamp_`. -/
  timestamp : ℤ
  phase : Phase
  /-- The entries of the answers whose post returned `CURLE_OK`. -/
  delivered : List (Bytes × ℤ)
  /-- The names that have changed since the latest poll began. -/
  changed : List Bytes

/-- What can happen. -/
inductive PollEvent where
  | tick
  /-- A device registers; `addToNameDB` unless its name is taken. -/
  | register (name : Bytes) (ha : HostAddress)
  /-- A device updates its address; `updateNameDB`. -/
  | update (name : Bytes) (ha : HostAddress)
  /-- The timer of the poller expires. -/
  | poll
  /-- The home agent handles the request. -/
  | answer
  /-- `handle_poll`; not `ok` after an error, or if the answer does not parse. -/
  | handlePoll (ok : Bool)
  /-- `handle_post`; `ok` is `CURLE_OK`. -/
  | handlePost (ok : Bool)

/-- The answer with these entries. -/
def getallOf (haname : Bytes) (entries : List (Bytes × ℤ)) : Getall :=
  ⟨haname, [], entries.map fun e => ⟨[], e.1, [], [], e.2, [], []⟩, []⟩

/-- The time stamp of the post among some actions. -/
def Action.newtimestamp? : Action → Option ℤ
  | .postDevices _ newtimestamp => some newtimestamp
  | _ => none

/-- One event. -/
def pollStep (haname : Bytes) (s : PollState) : PollEvent → Option PollState
  | .tick => some { s with clock := s.clock + 1 }
  | .register name ha =>
    if (s.nameDb.lookup name).isSome then some s
    else some { s with
      nameDb := s.nameDb.addToNameDB s.clock name ha, changed := name :: s.changed }
  | .update name ha => some { s with
      nameDb := s.nameDb.updateNameDB s.clock name ha, changed := name :: s.changed }
  | .poll =>
    match s.phase with
    | .idle => some { s with phase := .requested s.timestamp, changed := [] }
    | _ => none
  | .answer =>
    match s.phase with
    | .requested timestamp => some { s with phase := .answered (s.nameDb.searchNameDb timestamp) }
    | _ => none
  | .handlePoll ok =>
    match s.phase with
    | .requested _ => if ok then none else some { s with phase := .idle }
    | .answered entries =>
      let answer := if ok then some (getallOf haname entries) else none
      match (handlePoll answer).findSome? Action.newtimestamp? with
      | some newtimestamp => some { s with phase := .posting entries newtimestamp }
      | none => some { s with phase := .idle }
    | _ => none
  | .handlePost ok =>
    match s.phase with
    | .posting entries newtimestamp => some { s with
        phase := .idle, timestamp := handlePost ok newtimestamp s.timestamp,
        delivered := if ok then entries ++ s.delivered else s.delivered }
    | _ => none

/-- Polling from the start of the poller, with a name table stamped by a clock above 1. -/
def polling (haname : Bytes) : TransitionSystem PollState PollEvent where
  init s := 1 < s.clock ∧ (∀ name ha stamp, s.nameDb.lookup name = some (ha, stamp) → 1 < stamp) ∧
    s.timestamp = 1 ∧ s.phase = .idle ∧ s.delivered = [] ∧ s.changed = []
  step := pollStep haname

/-! ## Skipped changes -/

/-- The entry of a name, unless it is delivered, is later than `timestamp`. -/
def Ahead (s : PollState) (timestamp : ℤ) (delivered : List (Bytes × ℤ)) (name : Bytes) : Prop :=
  ∀ ha stamp, s.nameDb.lookup name = some (ha, stamp) → (name, stamp) ∉ delivered →
    timestamp < stamp

/-- The next poll returns every entry that has not been delivered. -/
def NoneSkipped (s : PollState) : Prop := ∀ name, Ahead s s.timestamp s.delivered name

/-- The changes come in time.  One that happens while no poll is in progress has a second later
than `timestamp_`, or one under which it is delivered.  At the end of a poll the names that have
changed since its beginning have entries later than the `timestamp_` that it leaves, or entries
that are delivered. -/
def InTime (t : Transition PollState PollEvent) : Prop :=
  match t.event with
  | .register name _ => t.pre.phase = .idle → t.pre.nameDb.lookup name = none →
      (name, t.pre.clock) ∉ t.pre.delivered → t.pre.timestamp < t.pre.clock
  | .update name _ => t.pre.phase = .idle →
      (name, t.pre.clock) ∉ t.pre.delivered → t.pre.timestamp < t.pre.clock
  | .handlePoll ok => (ok = true → t.pre.phase = .answered []) →
      ∀ name ∈ t.pre.changed, Ahead t.pre t.pre.timestamp t.pre.delivered name
  | .handlePost ok => ∀ entries newtimestamp, t.pre.phase = .posting entries newtimestamp →
      ∀ name ∈ t.pre.changed, if ok
        then Ahead t.pre (newtimestamp + 1) (entries ++ t.pre.delivered) name
        else Ahead t.pre t.pre.timestamp t.pre.delivered name
  | _ => True

/-- What holds while a poll is in progress. -/
structure Pending (s : PollState) : Prop where
  /-- The names that have not changed are not skipped. -/
  ahead : ∀ name, name ∉ s.changed → Ahead s s.timestamp s.delivered name
  /-- The request is for the entries later than `timestamp_`. -/
  requested : ∀ timestamp, s.phase = .requested timestamp → timestamp = s.timestamp
  /-- The answer has the entries of the names that have not changed, up to delivered ones. -/
  answered : ∀ entries, (s.phase = .answered entries ∨ ∃ t, s.phase = .posting entries t) →
    ∀ name, name ∉ s.changed → ∀ ha stamp, s.nameDb.lookup name = some (ha, stamp) →
      (name, stamp) ∈ entries ∨ (name, stamp) ∈ s.delivered

/-- The invariant: while no poll is in progress, no name is skipped. -/
structure PollInv (s : PollState) : Prop extends Pending s where
  idle : s.phase = .idle → NoneSkipped s

variable {haname name : Bytes} {ha : HostAddress} {s s' : PollState} {e : PollEvent}
  {tr : List (Transition PollState PollEvent)}

/-! ## Single steps -/

/-- `s'` is `s` after the entry of a name has been written. -/
structure Writes (s s' : PollState) (name : Bytes) (ha : HostAddress) : Prop where
  lookup : ∀ name', s'.nameDb.lookup name' =
    if name' = name then some (ha, s.clock) else s.nameDb.lookup name'
  phase : s'.phase = s.phase
  timestamp : s'.timestamp = s.timestamp
  delivered : s'.delivered = s.delivered
  changed : s'.changed = name :: s.changed

/-- The name written is not skipped if the clock is ahead. -/
theorem Writes.ahead_self (h : Writes s s' name ha) (timestamp : ℤ)
    (delivered : List (Bytes × ℤ)) : Ahead s' timestamp delivered name ↔
      ((name, s.clock) ∉ delivered → timestamp < s.clock) := by
  constructor
  · intro hahead
    exact hahead ha s.clock (by rw [h.lookup, if_pos rfl])
  · intro hclock ha' stamp hlookup
    rw [h.lookup, if_pos rfl] at hlookup
    cases hlookup
    exact hclock

theorem Writes.ahead_other (h : Writes s s' name ha) {name' : Bytes} (hne : name' ≠ name)
    (timestamp : ℤ) (delivered : List (Bytes × ℤ)) :
    Ahead s' timestamp delivered name' ↔ Ahead s timestamp delivered name' := by
  rw [Ahead, h.lookup, if_neg hne, Ahead]

/-- **A change** is skipped if it does not come in time. -/
theorem PollInv.writes (hinv : PollInv s) (h : Writes s s' name ha) :
    Pending s' ∧ ((s'.phase = .idle → NoneSkipped s') ↔
      (s.phase = .idle → (name, s.clock) ∉ s.delivered → s.timestamp < s.clock)) := by
  refine ⟨⟨?_, ?_, ?_⟩, ?_⟩
  · intro name' hname
    rw [h.changed, List.mem_cons, not_or] at hname
    rw [h.ahead_other hname.1, h.timestamp, h.delivered]
    exact hinv.ahead name' hname.2
  · intro timestamp hphase
    rw [h.timestamp]
    exact hinv.requested timestamp (h.phase.symm.trans hphase)
  · intro entries hphase name' hname ha' stamp hlookup
    rw [h.changed, List.mem_cons, not_or] at hname
    rw [h.lookup, if_neg hname.1] at hlookup
    rw [h.phase] at hphase
    rw [h.delivered]
    exact hinv.answered entries hphase name' hname.2 ha' stamp hlookup
  · rw [h.phase]
    refine imp_congr_right fun hidle => ?_
    rw [NoneSkipped, h.timestamp, h.delivered, ← h.ahead_self]
    refine ⟨fun hall => hall name, fun hself name' => ?_⟩
    by_cases hname : name' = name
    · rw [hname]
      exact hself
    · rw [h.ahead_other hname]
      exact hinv.idle hidle name'

/-- **The end of a poll** leaves the names skipped that have changed too early. -/
theorem ends_poll {timestamp : ℤ} {delivered : List (Bytes × ℤ)}
    (hrest : ∀ name, name ∉ s.changed → Ahead s timestamp delivered name)
    (hs' : s' = { s with phase := .idle, timestamp := timestamp, delivered := delivered }) :
    Pending s' ∧ ((s'.phase = .idle → NoneSkipped s') ↔
      ∀ name ∈ s.changed, Ahead s timestamp delivered name) := by
  subst hs'
  refine ⟨⟨hrest, fun _ hphase => ?_, fun _ hphase => ?_⟩, fun hall name _ => hall rfl name, ?_⟩
  · cases hphase
  · rcases hphase with hphase | ⟨_, hphase⟩
    · cases hphase
    · cases hphase
  · intro hchanged _ name
    by_cases hname : name ∈ s.changed
    · exact hchanged name hname
    · exact hrest name hname

/-- A post is made of an answer that has devices. -/
theorem newtimestamp_handlePoll (gall : Getall) :
    (handlePoll (some gall)).findSome? Action.newtimestamp? =
      if gall.devices = [] then none
      else some ((gall.devices.map Device.timestamp).foldl max 0) := by
  have hposts := flatMap_handlePoll (fun action => (Action.newtimestamp? action).toList)
    (fun _ => rfl) (fun _ _ => rfl) rfl (fun _ _ => rfl) gall
  have hhead := congrArg List.head? hposts
  rw [List.head?_flatMap] at hhead
  simp only [Option.head?_toList] at hhead
  rw [hhead]
  split_ifs
  · rfl
  · rfl

theorem newtimestamp_getallOf (haname : Bytes) (entries : List (Bytes × ℤ)) :
    (handlePoll (some (getallOf haname entries))).findSome? Action.newtimestamp? =
      if entries = [] then none else some ((entries.map Prod.snd).foldl max 0) := by
  rw [newtimestamp_handlePoll]
  cases entries with
  | nil => rfl
  | cons e entries =>
      have hstamps : (getallOf haname (e :: entries)).devices.map Device.timestamp
          = (e :: entries).map Prod.snd := by
        rw [getallOf, List.map_map]
        rfl
      rw [hstamps]
      rfl

/-- Nothing is posted after an error, and of an answer without entries. -/
theorem newtimestamp_answer (haname : Bytes) (ok : Bool) (entries : List (Bytes × ℤ)) :
    (handlePoll (if ok then some (getallOf haname entries) else none)).findSome?
      Action.newtimestamp? = if ok = true → entries = [] then none
        else some ((entries.map Prod.snd).foldl max 0) := by
  cases ok with
  | false => rfl
  | true =>
      rw [if_pos rfl, newtimestamp_getallOf]
      simp only [forall_const]

/-- The poll asks for the entries that have not been delivered. -/
theorem PollInv.poll (hinv : PollInv s) (hidle : s.phase = .idle) :
    Pending { s with phase := .requested s.timestamp, changed := [] } := by
  refine ⟨fun name _ => hinv.idle hidle name, ?_, ?_⟩
  · rintro timestamp ⟨⟩
    rfl
  · rintro entries (hphase | ⟨_, hphase⟩)
    · cases hphase
    · cases hphase

/-- The answer has the entries that have neither been delivered nor changed. -/
theorem Pending.answer (hpending : Pending s) {timestamp : ℤ}
    (hphase : s.phase = .requested timestamp) :
    Pending { s with phase := .answered (s.nameDb.searchNameDb timestamp) } := by
  obtain rfl := hpending.requested timestamp hphase
  refine ⟨hpending.ahead, fun _ hphase' => ?_, ?_⟩
  · cases hphase'
  · rintro entries (hphase' | ⟨_, hphase'⟩) name hname ha stamp hlookup
    · -- an entry that is not delivered is later than `timestamp_`
      cases hphase'
      by_cases hmem : (name, stamp) ∈ s.delivered
      · exact Or.inr hmem
      · exact Or.inl (NameDb.mem_searchNameDb.mpr
          ⟨ha, hlookup, hpending.ahead name hname ha stamp hlookup hmem⟩)
    · cases hphase'

/-- The post has the entries of the answer. -/
theorem Pending.posting (hpending : Pending s) {entries : List (Bytes × ℤ)}
    (hphase : s.phase = .answered entries) (newtimestamp : ℤ) :
    Pending { s with phase := .posting entries newtimestamp } := by
  refine ⟨hpending.ahead, fun _ hphase' => ?_, ?_⟩
  · cases hphase'
  · rintro entries' (hphase' | ⟨_, hphase'⟩)
    · cases hphase'
    · cases hphase'
      exact hpending.answered entries (Or.inl hphase)

/-- After the post, the entries that have not changed are delivered. -/
theorem Pending.ahead_handlePost (hpending : Pending s) {entries : List (Bytes × ℤ)}
    {newtimestamp : ℤ} (hphase : s.phase = .posting entries newtimestamp) (ok : Bool) :
    ∀ name, name ∉ s.changed → Ahead s (handlePost ok newtimestamp s.timestamp)
      (if ok then entries ++ s.delivered else s.delivered) name := by
  intro name hname
  cases ok with
  | false => exact hpending.ahead name hname
  | true =>
      intro ha stamp hlookup hnot
      refine absurd (List.mem_append.mpr ?_) hnot
      exact hpending.answered entries (Or.inr ⟨newtimestamp, hphase⟩) name hname ha stamp hlookup

/-- A poll that fails ends, and so does one whose answer has no entries. -/
theorem PollInv.handlePoll (hinv : PollInv s) {ok : Bool}
    (hstep : pollStep haname s (.handlePoll ok) = some s') :
    Pending s' ∧ ((s'.phase = .idle → NoneSkipped s') ↔ InTime ⟨s, .handlePoll ok, s'⟩) := by
  rw [pollStep] at hstep
  split at hstep
  next timestamp hphase =>
    split_ifs at hstep with hok
    cases hstep
    refine (ends_poll hinv.ahead rfl).imp_right fun h => h.trans ?_
    exact ⟨fun h _ => h, fun h => h fun hok' => absurd hok' hok⟩
  next entries hphase =>
    dsimp only at hstep
    rw [newtimestamp_answer] at hstep
    split_ifs at hstep with hend
    · cases hstep
      refine (ends_poll hinv.ahead rfl).imp_right fun h => h.trans ?_
      refine ⟨fun h _ => h, fun h => h fun hok => ?_⟩
      rw [hphase, hend hok]
    · cases hstep
      refine ⟨hinv.toPending.posting hphase _, iff_of_true ?_ fun hin => ?_⟩
      · rintro ⟨⟩
      · refine absurd (fun hok => ?_) hend
        have hempty := hphase.symm.trans (hin hok)
        cases hempty
        rfl
  next => cases hstep

/-- A post ends the poll, and delivers what was posted if it succeeds. -/
theorem PollInv.handlePost (hinv : PollInv s) {ok : Bool}
    (hstep : pollStep haname s (.handlePost ok) = some s') :
    Pending s' ∧ ((s'.phase = .idle → NoneSkipped s') ↔ InTime ⟨s, .handlePost ok, s'⟩) := by
  rw [pollStep] at hstep
  split at hstep
  next entries newtimestamp hphase =>
    cases hstep
    have hrest := hinv.toPending.ahead_handlePost hphase ok
    refine (ends_poll hrest rfl).imp_right fun h => h.trans ?_
    constructor
    · rintro hahead entries' newtimestamp' hphase'
      cases hphase.symm.trans hphase'
      cases ok with
      | false => exact hahead
      | true => exact hahead
    · intro hin
      have hahead := hin entries newtimestamp hphase
      cases ok with
      | false => exact hahead
      | true => exact hahead
  next => cases hstep

/-- **One step**: the names that have not changed during a poll are not skipped, and no name is
after the step exactly if the changes come in time. -/
theorem PollInv.step (hinv : PollInv s) (hstep : pollStep haname s e = some s') :
    Pending s' ∧ ((s'.phase = .idle → NoneSkipped s') ↔ InTime ⟨s, e, s'⟩) := by
  cases e with
  | tick =>
      cases hstep
      exact ⟨⟨hinv.ahead, hinv.requested, hinv.answered⟩, iff_of_true hinv.idle trivial⟩
  | register name ha =>
      rw [pollStep] at hstep
      split_ifs at hstep with htaken
      · cases hstep
        refine ⟨hinv.toPending, iff_of_true hinv.idle fun _ hnone => ?_⟩
        rw [hnone] at htaken
        cases htaken
      · cases hstep
        rw [Option.not_isSome_iff_eq_none] at htaken
        have hwrites : Writes s { s with
            nameDb := s.nameDb.addToNameDB s.clock name ha,
            changed := name :: s.changed } name ha :=
          ⟨fun _ => NameDb.lookup_addToNameDB htaken, rfl, rfl, rfl, rfl⟩
        refine (hinv.writes hwrites).imp_right fun h => h.trans ?_
        exact ⟨fun h hidle _ => h hidle, fun h hidle => h hidle htaken⟩
  | update name ha =>
      cases hstep
      exact hinv.writes ⟨fun _ => NameDb.lookup_updateNameDB, rfl, rfl, rfl, rfl⟩
  | poll =>
      rw [pollStep] at hstep
      split at hstep
      next hidle =>
        cases hstep
        refine ⟨hinv.poll hidle, iff_of_true ?_ trivial⟩
        rintro ⟨⟩
      next => cases hstep
  | answer =>
      rw [pollStep] at hstep
      split at hstep
      next timestamp hphase =>
        cases hstep
        refine ⟨hinv.toPending.answer hphase, iff_of_true ?_ trivial⟩
        rintro ⟨⟩
      next => cases hstep
  | handlePoll ok => exact hinv.handlePoll hstep
  | handlePost ok => exact hinv.handlePost hstep

/-- **No change is skipped**, in any state in which no poll is in progress, exactly if all changes
come in time. -/
theorem none_skipped_iff (haname : Bytes) {tr : List (Transition PollState PollEvent)}
    {s : PollState} (hrun : Run (polling haname) tr s) :
    (∀ t ∈ tr, t.post.phase = .idle → NoneSkipped t.post) ↔ ∀ t ∈ tr, InTime t := by
  refine hrun.forall_iff (C := InTime) (P := fun t => t.post.phase = .idle → NoneSkipped t.post) ?_
  intro tr s e s' hrun hin hstep
  have hinv : PollInv s := by
    refine hrun.invariant_when ?_ ?_ hin
    · rintro s ⟨-, hstamps, htimestamp, hphase, hdelivered, -⟩
      have hnone : NoneSkipped s := by
        intro name ha stamp hlookup _
        rw [htimestamp]
        exact hstamps name ha stamp hlookup
      refine ⟨⟨fun name _ => hnone name, fun _ hphase' => ?_, fun _ hphase' => ?_⟩, fun _ => hnone⟩
      · cases hphase.symm.trans hphase'
      · rcases hphase' with hphase' | ⟨_, hphase'⟩
        · cases hphase.symm.trans hphase'
        · cases hphase.symm.trans hphase'
    · intro tr s e s' _ hinv hin hstep
      have hnext := hinv.step hstep
      exact ⟨hnext.1, hnext.2.mpr hin⟩
  exact (hinv.step hstep).2

/-- A home agent without devices, and its new poller. -/
def firstPoll : PollState := ⟨10, LookupTable.empty, 1, .idle, [], []⟩

theorem firstPoll_init : (polling []).init firstPoll :=
  ⟨by decide, by rintro name ha stamp ⟨⟩, rfl, rfl, rfl, rfl⟩

/-- A device registers and is posted; another one registers two seconds later. -/
theorem two_seconds_later_not_skipped : ∃ tr s, Run (polling []) tr s ∧ tr.length = 8 ∧
    s.timestamp = 11 ∧ ∀ t ∈ tr, t.post.phase = .idle → NoneSkipped t.post := by
  have hrun := ((((((((Run.start firstPoll_init).extend (e := .register [97] ⟨[], 2000⟩) rfl).extend
    (e := .poll) rfl).extend (e := .answer) rfl).extend (e := .handlePoll true) rfl).extend
    (e := .handlePost true) rfl).extend (e := .tick) rfl).extend (e := .tick) rfl).extend
    (e := .register [98] ⟨[], 2000⟩) rfl
  refine ⟨_, _, hrun, rfl, rfl, (none_skipped_iff [] hrun).mpr ?_⟩
  simp only [List.forall_mem_append, List.forall_mem_singleton]
  refine ⟨⟨⟨⟨⟨⟨⟨⟨fun _ h => (List.not_mem_nil h).elim, ?_⟩, trivial⟩, trivial⟩, ?_⟩, ?_⟩, trivial⟩,
    trivial⟩, ?_⟩
  · intro _ _ _
    decide
  · intro _ name hname
    cases hname
  · intro entries newtimestamp _ name hname
    cases hname
  · intro _ _ _
    decide

/-- **A device that registers one second later** is skipped. -/
theorem one_second_later_skipped : ∃ tr s, Run (polling []) tr s ∧
    tr.map Transition.event = [.register [97] ⟨[], 2000⟩, .poll, .answer, .handlePoll true,
      .handlePost true, .tick, .register [98] ⟨[], 2000⟩] ∧
    ¬ ∀ t ∈ tr, t.post.phase = .idle → NoneSkipped t.post := by
  have hrun := (((((((Run.start firstPoll_init).extend (e := .register [97] ⟨[], 2000⟩) rfl).extend
    (e := .poll) rfl).extend (e := .answer) rfl).extend (e := .handlePoll true) rfl).extend
    (e := .handlePost true) rfl).extend (e := .tick) rfl).extend
    (e := .register [98] ⟨[], 2000⟩) rfl
  refine ⟨_, _, hrun, rfl, fun hall => ?_⟩
  have hskipped := hall _ (Run.last_mem _ _) rfl [98] ⟨[], 2000⟩ 11 rfl (by decide)
  exact absurd hskipped (by decide)

end Poller
