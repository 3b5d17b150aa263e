/-
# The database of home agents (`crawler_manager/homeagentdb.cpp`)

`homeagentdb` assigns home agents to pollers.  A home agent goes to the poller with
the fewest; without a poller it waits in a queue, and the home agents of a poller
that is disconnected are queued again.

An assignment to a poller whose `connected_` is already false makes
`pollerconnection::assign_home_agent` call `send_failure`, and that re-enters the
database, through its strand and the signals, before `assign_home_agent` returns.
The functions below take this call as a parameter; `sendFailure` ties the knot.  Each
failure removes its poller, so the number of pollers bounds the depth.

A name is passed to `assign_home_agent` by reference.  The reference to the front of
the queue dangles once that entry has been popped; the model goes on with the value
the string had and records that it has been read (`staleRead`).
-/
import Pweb.Foundation.Bins
import Pweb.Foundation.Runs
import Pweb.Shared.Buffers

/-- What the code must not do: use `end()` as a poller, fail its assertion, follow a pointer
to an erased name, pop an empty queue; `tooDeep` stands for a nesting beyond the bound of the
model and does not occur. -/
inductive Misuse where
  | noPoller
  | notConnected
  | danglingPointer
  | popEmpty
  | tooDeep
  deriving DecidableEq, Repr

/-- The members of `homeagentdb`; `pollerdb` holds the names its pointers point to.  With them
`connected_` of the poller objects, the entries that `process_queue` has handed on and popped,
and whether a name has been read after its queue entry was popped. -/
structure Homeagentdb where
  pollerq : List Bytes := []
  hadb : Finset Bytes := ∅
  pollerdb : Bins ℕ Bytes := []
  connected : ℕ → Bool := fun _ => true
  popped : List (Bytes × Bytes) := []
  staleRead : Bool := false

/-- A reference to a name: the name, and for the front of the queue the number of entries
popped before it. -/
structure HostRef where
  value : Bytes
  entry : Option ℕ

namespace Homeagentdb

/-- The effect of `send_failure` of a poller for a name. -/
abbrev SendFailure := Homeagentdb → ℕ → HostRef → Except Misuse Homeagentdb

/-! ## The functions of the database -/

/-- The name is read: a reference to a popped entry dangles. -/
def read (db : Homeagentdb) (hahostname : HostRef) : Homeagentdb :=
  match hahostname.entry with
  | none => db
  | some n => { db with staleRead := db.staleRead || decide (n < db.popped.length) }

/-- `assign_home_agent`. -/
def assignHomeAgent (sendFailure : SendFailure) (db : Homeagentdb) (hahostname : HostRef) :
    Except Misuse Homeagentdb :=
  if hahostname.value ∈ db.hadb then .ok db
  else
    match db.pollerdb.least with
    | none => .error .noPoller
    | some (poller, _) =>
      let db := { db with
        hadb := insert hahostname.value db.hadb
        pollerdb := db.pollerdb.place poller hahostname.value }
      if db.connected poller then .ok db else sendFailure db poller hahostname

/-- `pollerq_.pop()` after the entry `host` has been handed on. -/
def pop (db : Homeagentdb) (host : Bytes) : Except Misuse Homeagentdb :=
  match db.pollerq with
  | [] => .error .popEmpty
  | front :: rest => .ok { db with pollerq := rest, popped := db.popped ++ [(host, front)] }

/-- The loop of `process_queue`, for at most `n` rounds. -/
def processQueueLoop (sendFailure : SendFailure) : ℕ → Homeagentdb → Except Misuse Homeagentdb
  | 0, db => .ok db
  | n + 1, db =>
    match db.pollerq with
    | [] => .ok db
    | front :: _ =>
      if db.pollerdb = [] then .ok db
      else do
        let db ← assignHomeAgent sendFailure db ⟨front, some db.popped.length⟩
        let db ← db.pop front
        processQueueLoop sendFailure n db

/-- `process_queue`: the loop makes no more rounds than there are entries at its start. -/
def processQueue (sendFailure : SendFailure) (db : Homeagentdb) : Except Misuse Homeagentdb :=
  processQueueLoop sendFailure db.pollerq.length db

/-- `poller_connected_`. -/
def pollerConnected (sendFailure : SendFailure) (db : Homeagentdb) (ptr : ℕ) :
    Except Misuse Homeagentdb :=
  processQueue sendFailure { db with pollerdb := db.pollerdb.insert ptr }

/-- The loop of `poller_disconnected_`, which queues names and erases them. -/
def requeue (db : Homeagentdb) : List Bytes → Except Misuse Homeagentdb
  | [] => .ok db
  | i :: halist =>
    if i ∈ db.hadb then
      requeue { db with pollerq := db.pollerq ++ [i], hadb := db.hadb.erase i } halist
    else .error .danglingPointer

/-- `poller_disconnected_`. -/
def pollerDisconnected (sendFailure : SendFailure) (db : Homeagentdb) (ptr : ℕ) :
    Except Misuse Homeagentdb :=
  match db.pollerdb.find? ptr with
  | none => .error .notConnected
  | some halist => do
    let db ← db.requeue halist
    processQueue sendFailure { db with pollerdb := db.pollerdb.erase ptr }

/-- `add_home_agent_`. -/
def addHomeAgent (sendFailure : SendFailure) (db : Homeagentdb) (hahostname : Bytes) :
    Except Misuse Homeagentdb :=
  if db.pollerdb ≠ [] then assignHomeAgent sendFailure db ⟨hahostname, none⟩
  else .ok { db with pollerq := db.pollerq ++ [hahostname] }

/-- `pollerconnection::send_failure` of a `HOME_AGENT_ASSIGNMENT`, nested at most so deep:
`disconnect` ends in `poller_disconnected_`, and the signal `home_agent_discovered` in
`add_home_agent_`. -/
def sendFailure : ℕ → SendFailure
  | 0, _, _, _ => .error .tooDeep
  | depth + 1, db, poller, str => do
    let db ← pollerDisconnected (sendFailure depth) db poller
    addHomeAgent (sendFailure depth) (db.read str) str.value

/-! ## The database as a transition system -/

/-- What can happen: a poller is connected or disconnected, a home agent is discovered, or
`connected_` of the poller at an address changes (it is disconnected by another handler, or it
is a new poller). -/
inductive Event where
  | pollerConnected (ptr : ℕ)
  | pollerDisconnected (ptr : ℕ)
  | addHomeAgent (hahostname : Bytes)
  | store (ptr : ℕ) (connected : Bool)

/-- One operation, called from the strand. -/
def perform (db : Homeagentdb) : Event → Except Misuse Homeagentdb
  | .pollerConnected ptr => pollerConnected (sendFailure (db.pollerdb.length + 1)) db ptr
  | .pollerDisconnected ptr => pollerDisconnected (sendFailure db.pollerdb.length) db ptr
  | .addHomeAgent hahostname => addHomeAgent (sendFailure db.pollerdb.length) db hahostname
  | .store ptr connected =>
    .ok { db with connected := Function.update db.connected ptr connected }

/-- The callers' side of an operation: `poller_connected_` is for new pollers,
`poller_disconnected_` for connected ones. -/
def Allowed (db : Homeagentdb) : Event → Prop
  | .pollerConnected ptr => ptr ∉ db.pollerdb.keys
  | .pollerDisconnected ptr => ptr ∈ db.pollerdb.keys
  | .addHomeAgent _ => True
  | .store _ _ => True

instance (db : Homeagentdb) : (e : Event) → Decidable (db.Allowed e)
  | .pollerConnected _ => inferInstanceAs (Decidable (_ ∉ _))
  | .pollerDisconnected _ => inferInstanceAs (Decidable (_ ∈ _))
  | .addHomeAgent _ => inferInstanceAs (Decidable True)
  | .store _ _ => inferInstanceAs (Decidable True)

/-- Operations one after the other, from the empty database, until one of them misuses it. -/
def system : TransitionSystem (Except Misuse Homeagentdb) Event where
  init s := s = .ok {}
  step s e :=
    match s with
    | .error _ => none
    | .ok db => if db.Allowed e then some (db.perform e) else none

/-! ## What one call does -/

/-- The database after a name has been given to a poller. -/
def assigned (db : Homeagentdb) (poller : ℕ) (host : Bytes) : Homeagentdb :=
  { db with hadb := insert host db.hadb, pollerdb := db.pollerdb.place poller host }

/-- The database after the names of a poller have been queued and the poller erased. -/
def released (db : Homeagentdb) (poller : ℕ) (halist : List Bytes) : Homeagentdb :=
  { db with
    pollerq := db.pollerq ++ halist
    hadb := db.hadb \ halist.toFinset
    pollerdb := db.pollerdb.erase poller }

/-- The database after a name has been queued. -/
def enqueued (db : Homeagentdb) (host : Bytes) : Homeagentdb :=
  { db with pollerq := db.pollerq ++ [host] }

/-- The database after its first entry has been popped, for the name `host` handed on. -/
def dequeued (db : Homeagentdb) (host front : Bytes) (rest : List Bytes) : Homeagentdb :=
  { db with pollerq := rest, popped := db.popped ++ [(host, front)] }

section

variable {f : SendFailure} {db : Homeagentdb} {host : Bytes} {poller : ℕ} {halist : List Bytes}

theorem assignHomeAgent_of_mem {ref : HostRef} (h : ref.value ∈ db.hadb) :
    assignHomeAgent f db ref = .ok db := if_pos h

/-- A new name goes to the least loaded poller, whose failure decides the rest. -/
theorem assignHomeAgent_of_least {ref : HostRef} (h : ref.value ∉ db.hadb)
    (hleast : db.pollerdb.least = some (poller, halist)) :
    assignHomeAgent f db ref = if db.connected poller then .ok (db.assigned poller ref.value)
      else f (db.assigned poller ref.value) poller ref := by
  rw [assignHomeAgent, if_neg h, hleast]
  rfl

/-- Queueing distinct known names never follows a dangling pointer. -/
theorem requeue_eq (hnodup : halist.Nodup) (hmem : ∀ i ∈ halist, i ∈ db.hadb) :
    db.requeue halist = .ok { db with
      pollerq := db.pollerq ++ halist, hadb := db.hadb \ halist.toFinset } := by
  induction halist generalizing db with
  | nil => simp [requeue]
  | cons i halist ih =>
      rw [List.forall_mem_cons] at hmem
      rw [List.nodup_cons] at hnodup
      have hset : db.hadb.erase i \ halist.toFinset = db.hadb \ (i :: halist).toFinset := by
        rw [List.toFinset_cons, Finset.sdiff_insert, Finset.erase_sdiff_comm]
      rw [requeue, if_pos hmem.1, ih hnodup.2]
      · simp only [List.append_assoc, List.singleton_append, hset]
      · intro j hj
        refine Finset.mem_erase.mpr ⟨?_, hmem.2 j hj⟩
        rintro rfl
        exact hnodup.1 hj

theorem addHomeAgent_of_nil (h : db.pollerdb = []) :
    addHomeAgent f db host = .ok (db.enqueued host) := if_neg (not_not.mpr h)

/-- A reference to an entry that is still in the queue may be read. -/
theorem read_of_valid {ref : HostRef} (h : ∀ n, ref.entry = some n → db.popped.length ≤ n) :
    db.read ref = db := by
  unfold read
  split
  · rfl
  · next n hentry =>
    rw [decide_eq_false (Nat.not_lt.mpr (h n hentry)), Bool.or_false]

theorem pop_of_cons {front : Bytes} {rest : List Bytes} (h : db.pollerq = front :: rest)
    (host : Bytes) : db.pop host = .ok (db.dequeued host front rest) := by
  rw [pop, h]
  rfl

/-- Without a poller the queue stays as it is. -/
theorem processQueueLoop_of_nil (h : db.pollerdb = []) (n : ℕ) :
    processQueueLoop f n db = .ok db := by
  cases n with
  | zero => rfl
  | succ n =>
      rw [processQueueLoop]
      split
      · rfl
      · exact if_pos h

theorem processQueueLoop_of_empty (h : db.pollerq = []) (n : ℕ) :
    processQueueLoop f n db = .ok db := by
  cases n with
  | zero => rfl
  | succ n => rw [processQueueLoop, h]

/-- One round of the loop. -/
theorem processQueueLoop_of_cons {front : Bytes} {rest : List Bytes}
    (hqueue : db.pollerq = front :: rest) (hne : db.pollerdb ≠ []) (n : ℕ) :
    processQueueLoop f (n + 1) db =
      (assignHomeAgent f db ⟨front, some db.popped.length⟩ >>= fun db =>
        db.pop front >>= processQueueLoop f n) := by
  rw [processQueueLoop, hqueue]
  exact if_neg hne

end

/-! ## The invariant -/

/-- The lists are disjoint and without duplicates, and hold exactly the names in `hadb`. -/
structure Core (db : Homeagentdb) : Prop where
  sorted : db.pollerdb.Sorted
  nodup : db.pollerdb.items.Nodup
  hadb : ∀ host, host ∈ db.hadb ↔ host ∈ db.pollerdb.items

/-- A home agent is assigned or waits. -/
def Known (db : Homeagentdb) (host : Bytes) : Prop := host ∈ db.hadb ∨ host ∈ db.pollerq

/-- The state between two operations: names wait only as long as there is no poller. -/
structure Settled (db : Homeagentdb) : Prop extends db.Core where
  idle : db.pollerq = [] ∨ db.pollerdb = []

section

variable {f : SendFailure} {db : Homeagentdb} {host : Bytes} {poller : ℕ} {halist : List Bytes}

theorem Core.assigned (h : db.Core) (hnew : host ∉ db.hadb)
    (hmem : (poller, halist) ∈ db.pollerdb) : (db.assigned poller host).Core := by
  have hperm := Bins.items_place h.sorted hmem host
  refine ⟨h.sorted.place _ _, ?_, fun x => ?_⟩
  · refine hperm.nodup_iff.mpr (List.nodup_cons.mpr ⟨?_, h.nodup⟩)
    rwa [← h.hadb]
  · show x ∈ insert host db.hadb ↔ x ∈ (db.pollerdb.place poller host).items
    rw [hperm.mem_iff, Finset.mem_insert, List.mem_cons, h.hadb]

/-- A new poller has no names. -/
theorem Core.opened (h : db.Core) (ptr : ℕ) :
    Core { db with pollerdb := db.pollerdb.insert ptr } := by
  refine ⟨h.sorted.insert ptr, ?_, fun x => ?_⟩
  · show (db.pollerdb.insert ptr).items.Nodup
    rw [Bins.items_insert]
    exact h.nodup
  · show x ∈ db.hadb ↔ x ∈ (db.pollerdb.insert ptr).items
    rw [Bins.items_insert]
    exact h.hadb x

theorem Core.released (h : db.Core) (hmem : (poller, halist) ∈ db.pollerdb) :
    (db.released poller halist).Core := by
  have hperm := Bins.items_erase h.sorted hmem
  have hnodup := hperm.nodup_iff.mp h.nodup
  refine ⟨h.sorted.erase _, hnodup.of_append_right, fun x => ?_⟩
  show x ∈ db.hadb \ halist.toFinset ↔ x ∈ (db.pollerdb.erase poller).items
  rw [Finset.mem_sdiff, List.mem_toFinset, h.hadb, hperm.mem_iff, List.mem_append]
  constructor
  · rintro ⟨hx | hx, hnot⟩
    · exact absurd hx hnot
    · exact hx
  · intro hx
    exact ⟨Or.inr hx, fun hin => List.disjoint_of_nodup_append hnodup hin hx⟩

theorem Core.mem_hadb (h : db.Core) (hmem : (poller, halist) ∈ db.pollerdb) :
    halist.Nodup ∧ ∀ i ∈ halist, i ∈ db.hadb := by
  have hperm := Bins.items_erase h.sorted hmem
  refine ⟨(hperm.nodup_iff.mp h.nodup).of_append_left, fun i hi => ?_⟩
  rw [h.hadb, hperm.mem_iff]
  exact List.mem_append_left _ hi

/-- Disconnecting a poller is processing the queue without it. -/
theorem pollerDisconnected_eq (h : db.Core) (hmem : (poller, halist) ∈ db.pollerdb) :
    pollerDisconnected f db poller = processQueue f (db.released poller halist) := by
  obtain ⟨hnodup, hhadb⟩ := h.mem_hadb hmem
  rw [pollerDisconnected, h.sorted.find?_eq_some_iff.mpr hmem]
  show (db.requeue halist >>= _) = _
  rw [requeue_eq hnodup hhadb]
  rfl

/-- No name is lost when a poller is released. -/
theorem known_released (host : Bytes) (h : db.Known host) :
    (db.released poller halist).Known host := by
  by_cases hin : host ∈ halist
  · exact Or.inr (List.mem_append_right _ hin)
  · rcases h with h | h
    · exact Or.inl (Finset.mem_sdiff.mpr ⟨h, by rwa [List.mem_toFinset]⟩)
    · exact Or.inr (List.mem_append_left _ h)

end

end Homeagentdb
