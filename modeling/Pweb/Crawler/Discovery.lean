/-
# Discovery of home agents (`crawler_poller/main.cpp`, `crawler_manager/main.cpp`)

The crawler is one manager and any number of poller processes.  A process reports the
home agents it hears of, the well-known ones it is started with and the neighbours that
the answers to its polls name, to the manager, each once (`duplicate_filter`); the
manager assigns each to one process, which polls it from then on.

The events are what can happen in one of the processes, in any order: a process starts,
polls or ends, the manager accepts a connection, one side receives the next message of
the other, or a connection fails.  Messages arrive in order, and the names are such that
they arrive unchanged (`reads_back_of_transmissible`).  The processes have one thread
each, so that a handler is not interrupted; a manager whose connection fails a second
time ends, and a run ends with it.

Here are the filter, the answers to polls, the database of the manager as long as its
pollers are live (`addHomeAgent_goes`, `pollerConnected_goes`, `pollerDisconnected_goes`),
and the crawler as a transition system.
-/
import Pweb.Crawler.DyingPollers
import Pweb.Crawler.Framing
import Pweb.Crawler.Poller

/-! ## The filter (`crawler_poller/signals.hpp`) -/

namespace DuplicateFilter

variable {α : Type} [DecidableEq α]

/-- `operator()`: `set_` afterwards, and what is passed on. -/
def call (set : Finset α) (t : α) : Finset α × List α :=
  if t ∈ set then (set, []) else (insert t set, [t])

/-- Calls one after the other. -/
def calls : Finset α → List α → Finset α × List α
  | set, [] => (set, [])
  | set, t :: ts =>
    let (set, passed) := call set t
    let (set, later) := calls set ts
    (set, passed ++ later)

theorem calls_of_mem {set : Finset α} {t : α} (h : t ∈ set) (ts : List α) :
    calls set (t :: ts) = calls set ts := by
  rw [calls, call, if_pos h]
  rfl

theorem calls_of_not_mem {set : Finset α} {t : α} (h : t ∉ set) (ts : List α) :
    calls set (t :: ts) = ((calls (insert t set) ts).1, t :: (calls (insert t set) ts).2) := by
  rw [calls, call, if_neg h]
  rfl

theorem mem_calls_fst {set : Finset α} {ts : List α} {x : α} :
    x ∈ (calls set ts).1 ↔ x ∈ set ∨ x ∈ ts := by
  induction ts generalizing set with
  | nil => exact (or_iff_left List.not_mem_nil).symm
  | cons t ts ih =>
      rw [List.mem_cons]
      by_cases ht : t ∈ set
      · rw [calls_of_mem ht, ih]
        constructor
        · exact fun h => h.imp_right Or.inr
        · rintro (h | rfl | h)
          · exact Or.inl h
          · exact Or.inl ht
          · exact Or.inr h
      · rw [calls_of_not_mem ht, ih, Finset.mem_insert, or_assoc, or_left_comm]

/-- What is passed on is new. -/
theorem mem_calls_snd {set : Finset α} {ts : List α} {x : α} :
    x ∈ (calls set ts).2 ↔ x ∈ ts ∧ x ∉ set := by
  induction ts generalizing set with
  | nil => exact iff_of_false List.not_mem_nil fun h => List.not_mem_nil h.1
  | cons t ts ih =>
      by_cases ht : t ∈ set
      · rw [calls_of_mem ht, ih, List.mem_cons]
        refine ⟨fun h => ⟨Or.inr h.1, h.2⟩, fun h => ⟨h.1.resolve_left ?_, h.2⟩⟩
        rintro rfl
        exact h.2 ht
      · rw [calls_of_not_mem ht, List.mem_cons, ih, List.mem_cons, Finset.mem_insert, not_or]
        constructor
        · rintro (rfl | ⟨hx, -, hnot⟩)
          · exact ⟨Or.inl rfl, ht⟩
          · exact ⟨Or.inr hx, hnot⟩
        · rintro ⟨rfl | hx, hnot⟩
          · exact Or.inl rfl
          · by_cases heq : x = t
            · exact Or.inl heq
            · exact Or.inr ⟨hx, heq, hnot⟩

/-- **Nothing is passed on twice.** -/
theorem nodup_calls_snd (set : Finset α) (ts : List α) : (calls set ts).2.Nodup := by
  induction ts generalizing set with
  | nil => exact List.nodup_nil
  | cons t ts ih =>
      by_cases ht : t ∈ set
      · rw [calls_of_mem ht]
        exact ih set
      · rw [calls_of_not_mem ht]
        refine List.nodup_cons.mpr ⟨fun hmem => ?_, ih _⟩
        exact (mem_calls_snd.mp hmem).2 (Finset.mem_insert_self t set)

end DuplicateFilter

/-! ## The answers to polls -/

namespace Poller

/-- The emissions of `signals::home_agent_discovered`, in order. -/
def discovered (actions : List Action) : List Bytes :=
  actions.filterMap fun action =>
    match action with
    | .homeAgentDiscovered hostname => some hostname
    | _ => none

/-- A poll that fails, or an answer that does not parse, reports nothing. -/
theorem discovered_handlePoll_none : discovered (handlePoll none) = [] := rfl

end Poller

/-! ## The database with live pollers -/

namespace Homeagentdb

/-- The home agents on the list of a poller. -/
def list (db : Homeagentdb) (p : ℕ) : List Bytes := (db.pollerdb.find? p).getD []

/-- `min->second.push_back` and `min->first->assign_home_agent` go together: what an operation
sends to a poller is what it appends to its list. -/
def sent (db db' : Homeagentdb) (p : ℕ) : List Bytes := (db'.list p).drop (db.list p).length

/-- Every poller is live. -/
def AllConnected (db : Homeagentdb) : Prop := ∀ p ∈ db.pollerdb.keys, db.connected p = true

/-- `db` has come from `db₀` by assignments of its names to live pollers: the lists have grown at
the end. -/
structure Extends (db₀ db : Homeagentdb) : Prop where
  keys : db.pollerdb.keys = db₀.pollerdb.keys
  connected : db.connected = db₀.connected
  lists : ∀ p, db₀.list p <+: db.list p
  names : ∀ host, db.Known host → db₀.Known host

variable {f : SendFailure} {db₀ db db' : Homeagentdb} {host : Bytes} {p : ℕ} {halist : List Bytes}

theorem list_eq_nil (h : p ∉ db.pollerdb.keys) : db.list p = [] := by
  rw [list, Bins.find?_eq_none_iff.mpr h]
  rfl

theorem list_of_mem (h : db.pollerdb.Sorted) (hmem : (p, halist) ∈ db.pollerdb) :
    db.list p = halist := by
  rw [list, h.find?_eq_some_iff.mpr hmem]
  rfl

theorem mem_of_key (h : db.pollerdb.Sorted) (hkey : p ∈ db.pollerdb.keys) :
    (p, db.list p) ∈ db.pollerdb := by
  obtain ⟨halist, hmem⟩ := Bins.mem_keys.mp hkey
  rwa [list_of_mem h hmem]

theorem Extends.refl (db : Homeagentdb) : Extends db db :=
  ⟨rfl, rfl, fun _ => List.prefix_rfl, fun _ h => h⟩

/-- The other lists stay when a poller is released. -/
theorem list_released {q : ℕ} (halist : List Bytes) (hne : q ≠ p) :
    (db.released p halist).list q = db.list q := by
  unfold list
  show ((db.pollerdb.erase p).find? q).getD [] = _
  rw [Bins.find?_erase hne]

/-- The list of a new poller is empty. -/
theorem list_opened (hnew : p ∉ db.pollerdb.keys) (q : ℕ) :
    list { db with pollerdb := db.pollerdb.insert p } q = db.list q := by
  by_cases hq : q = p
  · rw [hq, list_eq_nil hnew, list, Bins.find?_insert hnew, if_pos rfl]
    rfl
  · rw [list, Bins.find?_insert hnew, if_neg hq, ← list]

/-- What is sent completes the old list to the new one. -/
theorem append_sent (h : db.list p <+: db'.list p) : db.list p ++ sent db db' p = db'.list p := by
  obtain ⟨rest, hrest⟩ := h
  rw [sent, ← hrest, List.drop_left]

theorem sent_eq_nil (h : db'.list p = []) : sent db db' p = [] := by
  rw [sent, h, List.drop_nil]

theorem Extends.assigned (h : Extends db₀ db) (poller : ℕ) (hhost : db₀.Known host) :
    Extends db₀ (db.assigned poller host) where
  keys := (Bins.keys_place poller host db.pollerdb).trans h.keys
  connected := h.connected
  lists p := by
    apply (h.lists p).trans
    unfold list
    show _ <+: ((db.pollerdb.place poller host).find? p).getD []
    rw [Bins.find?_place]
    cases db.pollerdb.find? p with
    | none => exact List.prefix_rfl
    | some l =>
        show l <+: if p = poller then l ++ [host] else l
        split
        · exact List.prefix_append l [host]
        · exact List.prefix_rfl
  names x hx := by
    rcases hx with hx | hx
    · rcases Finset.mem_insert.mp hx with rfl | hx
      · exact hhost
      · exact h.names x (Or.inl hx)
    · exact h.names x (Or.inr hx)

/-- A live poller does not fail. -/
theorem assignHomeAgent_extends (ref : HostRef) (hlive : db₀.AllConnected) (h : Extends db₀ db)
    (hhost : db₀.Known ref.value) :
    Ensures (assignHomeAgent f db ref) (Extends db₀) fun _ => True := by
  by_cases hmem : ref.value ∈ db.hadb
  · rw [assignHomeAgent_of_mem hmem]
    exact h
  · rcases hleast : db.pollerdb.least with _ | ⟨poller, halist⟩
    · rw [assignHomeAgent, if_neg hmem, hleast]
      trivial
    · have hkey : poller ∈ db₀.pollerdb.keys := by
        rw [← h.keys]
        exact Bins.mem_keys.mpr ⟨halist, List.argmin_mem hleast⟩
      rw [assignHomeAgent_of_least hmem hleast, h.connected, if_pos (hlive poller hkey)]
      exact h.assigned poller hhost

theorem pop_extends (h : Extends db₀ db) (host : Bytes) :
    Ensures (db.pop host) (Extends db₀) fun _ => True := by
  unfold pop
  split
  · trivial
  · next front rest hqueue =>
    refine ⟨h.keys, h.connected, h.lists, fun x hx => h.names x (hx.imp_right fun hx => ?_)⟩
    rw [hqueue]
    exact List.mem_cons_of_mem front hx

theorem processQueueLoop_extends (hlive : db₀.AllConnected) (n : ℕ) (h : Extends db₀ db) :
    Ensures (processQueueLoop f n db) (Extends db₀) fun _ => True := by
  induction n generalizing db with
  | zero => exact h
  | succ n ih =>
      rw [processQueueLoop]
      split
      · exact h
      · next front rest hqueue =>
        have hfront : db₀.Known front := by
          apply h.names front
          right
          rw [hqueue]
          exact List.mem_cons_self
        apply Ensures.ite
        · exact fun _ => h
        · intro _
          apply (assignHomeAgent_extends _ hlive h hfront).bind
          intro db₁ h₁
          exact (pop_extends h₁ front).bind fun db₂ h₂ => ih h₂

theorem processQueue_extends (hlive : db.AllConnected) :
    Ensures (processQueue f db) (Extends db) fun _ => True :=
  processQueueLoop_extends hlive _ (Extends.refl db)

theorem extends_enqueued (db : Homeagentdb) (host : Bytes) : Extends (db.enqueued host) db :=
  ⟨rfl, rfl, fun _ => List.prefix_rfl, fun _ h => h.imp_right (List.mem_append_left _)⟩

theorem known_enqueued {x : Bytes} : (db.enqueued host).Known x ↔ db.Known x ∨ x = host := by
  unfold Known enqueued
  rw [List.mem_append, List.mem_singleton, or_assoc]

theorem addHomeAgent_extends (hlive : db.AllConnected) (host : Bytes) :
    Ensures (addHomeAgent f db host) (Extends (db.enqueued host)) fun _ => True := by
  rw [addHomeAgent]
  apply Ensures.ite
  · intro _
    have hhost : (db.enqueued host).Known host := known_enqueued.mpr (Or.inr rfl)
    exact assignHomeAgent_extends ⟨host, none⟩ hlive (extends_enqueued db host) hhost
  · exact fun _ => Extends.refl (db.enqueued host)

/-! ## What an operation does -/

/-- An operation on a database with live pollers: `opened` and `closed` are the pollers that come
and go, `added` is the name that is added. -/
structure Goes (db db' : Homeagentdb) (opened closed : ℕ → Prop) (added : Bytes → Prop) : Prop where
  settled : db'.Settled
  live : db'.AllConnected
  keys : ∀ q, q ∈ db'.pollerdb.keys ↔ (q ∈ db.pollerdb.keys ∨ opened q) ∧ ¬ closed q
  connected : ∀ q, ¬ closed q → db'.connected q = db.connected q
  lists : ∀ q, ¬ closed q → db.list q <+: db'.list q
  known : ∀ host, db'.Known host ↔ db.Known host ∨ added host

/-- A discovered name is known from then on. -/
theorem addHomeAgent_goes (h : db.Settled) (hlive : db.AllConnected) (host : Bytes) :
    ∃ db', db.perform (.addHomeAgent host) = .ok db' ∧
      Goes db db' (fun _ => False) (fun _ => False) (fun x => x = host) := by
  have hcond : db.RedistributesAt (.addHomeAgent host) := by
    intro _ ptr halist hleast hdead
    have hkey : ptr ∈ db.pollerdb.keys := Bins.mem_keys.mpr ⟨halist, List.argmin_mem hleast⟩
    exact Bool.noConfusion ((hlive ptr hkey).symm.trans hdead)
  obtain ⟨db', hok, hsettled, hcarries, hknown⟩ := addHomeAgent_settled h hcond
  have hext := (addHomeAgent_extends hlive host).of_ok hok
  have hkeys : db'.pollerdb.keys = db.pollerdb.keys := hext.keys
  refine ⟨db', hok, hsettled, ?_, ?_, ?_, fun q _ => hext.lists q, fun x => ⟨?_, ?_⟩⟩
  · intro p hp
    rw [hcarries.connected]
    rw [hkeys] at hp
    exact hlive p hp
  · intro q
    rw [hkeys, or_false]
    exact (and_iff_left not_false).symm
  · exact fun q _ => congrFun hcarries.connected q
  · exact fun hx => known_enqueued.mp (hext.names x hx)
  · rintro (hx | rfl)
    · exact hcarries.known x hx
    · exact hknown

/-- A new poller gets the names that wait. -/
theorem pollerConnected_goes (h : db.Settled) (hlive : db.AllConnected)
    (hnew : p ∉ db.pollerdb.keys) (hp : db.connected p = true) :
    ∃ db', db.perform (.pollerConnected p) = .ok db' ∧
      Goes db db' (fun q => q = p) (fun _ => False) (fun _ => False) := by
  have hlive' : AllConnected { db with pollerdb := db.pollerdb.insert p } := by
    intro q hq
    rcases Bins.mem_keys_insert.mp hq with rfl | hq
    · exact hp
    · exact hlive q hq
  obtain ⟨db', hok, hsettled, hcarries⟩ := pollerConnected_settled h p
  have hext : Extends { db with pollerdb := db.pollerdb.insert p } db' :=
    (processQueue_extends hlive').of_ok hok
  refine ⟨db', hok, hsettled, ?_, ?_, ?_, ?_, fun x => ⟨?_, ?_⟩⟩
  · intro q hq
    rw [hext.connected]
    rw [hext.keys] at hq
    exact hlive' q hq
  · intro q
    rw [hext.keys, or_comm]
    exact Bins.mem_keys_insert.trans (and_iff_left not_false).symm
  · exact fun q _ => congrFun hcarries.connected q
  · intro q _
    rw [← list_opened hnew q]
    exact hext.lists q
  · exact fun hx => Or.inl (hext.names x hx)
  · exact fun hx => hcarries.known x (hx.resolve_right not_false)

/-- The names of a poller whose connection has failed go to the others. -/
theorem pollerDisconnected_goes (h : db.Settled) (hlive : db.AllConnected)
    (hkey : p ∈ db.pollerdb.keys) :
    ∃ db', perform { db with connected := Function.update db.connected p false }
        (.pollerDisconnected p) = .ok db' ∧
      Goes db db' (fun _ => False) (fun q => q = p) (fun _ => False) := by
  let store : Homeagentdb := { db with connected := Function.update db.connected p false }
  have hset : store.Settled := ⟨⟨h.sorted, h.nodup, h.hadb⟩, h.idle⟩
  have hrest : ∀ halist, AllConnected (store.released p halist) := by
    intro halist q hq
    obtain ⟨hq, hne⟩ := Bins.mem_keys_erase.mp hq
    show Function.update db.connected p false q = true
    rw [Function.update_of_ne hne]
    exact hlive q hq
  have hcond : store.RedistributesAt (.pollerDisconnected p) := by
    intro halist _
    right
    intro d hd hdead
    have hq : d.1 ∈ (store.released p halist).pollerdb.keys := Bins.mem_keys.mpr ⟨d.2, hd⟩
    exact Bool.noConfusion ((hrest halist d.1 hq).symm.trans hdead)
  obtain ⟨db', hok, hsettled, hcarries⟩ := pollerDisconnected_settled hset hkey hcond
  have hmem : (p, db.list p) ∈ store.pollerdb := mem_of_key h.sorted hkey
  have hext : Extends (store.released p (db.list p)) db' := by
    rw [perform, pollerDisconnected_eq hset.toCore hmem] at hok
    exact (processQueue_extends (hrest _)).of_ok hok
  refine ⟨db', hok, hsettled, ?_, ?_, ?_, ?_, fun x => ⟨fun hx => ?_, ?_⟩⟩
  · intro q hq
    rw [hext.connected]
    rw [hext.keys] at hq
    exact hrest _ q hq
  · intro q
    rw [hext.keys, or_false]
    exact Bins.mem_keys_erase
  · intro q hne
    rw [hext.connected]
    exact Function.update_of_ne hne false db.connected
  · intro q hne
    have hprefix := hext.lists q
    rw [list_released _ hne] at hprefix
    exact hprefix
  · rcases hext.names x hx with hx | hx
    · exact Or.inl (Or.inl (Finset.mem_sdiff.mp hx).1)
    · rcases List.mem_append.mp hx with hx | hx
      · exact Or.inl (Or.inr hx)
      · exact Or.inl (Or.inl ((hset.toCore.mem_hadb hmem).2 x hx))
  · exact fun hx => hcarries.known x (hx.resolve_right not_false)

end Homeagentdb

/-! ## The processes -/

/-- A name that a connection carries unchanged. -/
def Transmissible (hostname : Bytes) : Prop := hostname.length ≤ 255 ∧ 0 ∉ hostname

instance : DecidablePred Transmissible := fun _ => inferInstanceAs (Decidable (_ ∧ _))

/-- **The channels**: such messages are read back as they were sent, in order. -/
theorem reads_back_of_transmissible {cbs : BufWriteCallbacks}
    {trw : List (Transition BufWrite BufWriteEvent)} {w : BufWrite}
    (hw : Run (BufWrite.system cbs) trw w)
    (htypes : ∀ t ∈ trw, ∀ str, t.event ≠ .sendmsg .notAMessage str)
    (hnames : ∀ m ∈ w.messages, Transmissible m.2)
    {tr : List (Transition (Feed BufRead BufReadCall) FeedEvent)} {s : Feed BufRead BufReadCall}
    (hrun : Run (BufRead.reader BufRead.bothHandlers).system tr s)
    (hfail : ∀ t ∈ tr, t.event ≠ .fail) (harrived : Feed.arrived tr <+: w.written) :
    ReadsBack w tr s := by
  have hclean : w.Clean := by
    intro item hitem
    have hhanded : item ∈ w.handed := (List.takeWhile_prefix _).subset hitem
    exact hnames item.message (List.mem_map_of_mem hhanded)
  refine readsBack_of_clean (fun item hitem => ?_) hclean hrun hfail harrived
  exact BufWrite.formed_of_run hw htypes item (List.mem_append_left _ hitem)

/-- A poller process: `set_` of its filter, the host names of `pollers_`, whether it is running,
and the messages `HOME_AGENT_DISCOVERED` and `HOME_AGENT_ASSIGNMENT` on its connection. -/
structure PollerProcess where
  set : Finset Bytes := ∅
  pollers : List Bytes := []
  running : Bool := false
  discovered : List Bytes := []
  assignments : List Bytes := []
  deriving DecidableEq

/-- The signal `home_agent_discovered`: what passes the filter is sent to the manager. -/
def PollerProcess.report (q : PollerProcess) (hostnames : List Bytes) : PollerProcess :=
  let (set, passed) := DuplicateFilter.calls q.set hostnames
  { q with set, discovered := q.discovered ++ passed }

/-- The manager, and the processes by the numbers of their connections. -/
structure Crawler where
  manager : Homeagentdb := {}
  started : Finset ℕ := ∅
  accepted : Finset ℕ := ∅
  process : ℕ → PollerProcess := fun _ => {}

namespace Crawler

/-- What can happen: a process starts with its well-known home agents, or ends; the manager
accepts its connection; a poll of a home agent ends, with the answer if it parses; the manager
or a process receives a message; the manager notices that a read has failed, or the write of an
assignment. -/
inductive Event where
  | start (p : ℕ) (homeAgents : List Bytes)
  | accept (p : ℕ)
  | poll (p : ℕ) (hostname : Bytes) (parsed : Option Poller.Getall)
  | discovered (p : ℕ)
  | assigned (p : ℕ)
  | stop (p : ℕ)
  | readFails (p : ℕ)
  | writeFails (p : ℕ) (hostname : Bytes)

/-- A handler of one process. -/
def update (c : Crawler) (p : ℕ) (f : PollerProcess → PollerProcess) : Crawler :=
  { c with process := Function.update c.process p (f (c.process p)) }

/-- An operation of the database, with the assignments it sends. -/
def manage (c : Crawler) (e : Homeagentdb.Event) : Except Misuse Crawler := do
  let db ← c.manager.perform e
  .ok { c with
    manager := db
    process := fun p => { c.process p with
      assignments := (c.process p).assignments ++ c.manager.sent db p } }

/-- `pollerconnection::disconnect`. -/
def disconnect (c : Crawler) (p : ℕ) : Except Misuse Crawler := do
  let c ← c.manage (.store p false)
  c.manage (.pollerDisconnected p)

/-- One event. -/
def perform (c : Crawler) : Event → Except Misuse Crawler
  | .start p homeAgents =>
    .ok (({ c with started := insert p c.started } : Crawler).update p fun q =>
      { q with running := true }.report homeAgents)
  | .accept p => ({ c with accepted := insert p c.accepted } : Crawler).manage (.pollerConnected p)
  | .poll p _ parsed =>
    .ok (c.update p fun q => q.report (Poller.discovered (Poller.handlePoll parsed)))
  | .discovered p =>
    match (c.process p).discovered with
    | [] => .ok c
    | host :: rest =>
      (c.update p fun q => { q with discovered := rest }).manage (.addHomeAgent host)
  | .assigned p =>
    match (c.process p).assignments with
    | [] => .ok c
    | host :: rest =>
      .ok (c.update p fun q => { q with assignments := rest, pollers := q.pollers ++ [host] })
  | .stop p => .ok (c.update p fun q => { q with running := false })
  | .readFails p => c.disconnect p
  | .writeFails p hostname => do
    let c ← c.disconnect p
    c.manage (.addHomeAgent hostname)

/-- When an event can happen: a connection has one process, which is accepted once; only what
runs polls and receives; the manager reads from the connections in its database, and writes the
assignments on the list of a poller. -/
def Allowed (c : Crawler) : Event → Prop
  | .start p homeAgents => p ∉ c.started ∧ ∀ hostname ∈ homeAgents, Transmissible hostname
  | .accept p => p ∈ c.started ∧ p ∉ c.accepted
  | .poll p hostname parsed =>
    (c.process p).running = true ∧ hostname ∈ (c.process p).pollers ∧
      ∀ neighbour ∈ Poller.discovered (Poller.handlePoll parsed), Transmissible neighbour
  | .discovered p => p ∈ c.manager.pollerdb.keys ∧ (c.process p).discovered ≠ []
  | .assigned p => (c.process p).running = true ∧ (c.process p).assignments ≠ []
  | .stop p => (c.process p).running = true
  | .readFails p => p ∈ c.manager.pollerdb.keys
  | .writeFails p hostname => p ∈ c.manager.pollerdb.keys ∧ hostname ∈ c.manager.list p

instance (c : Crawler) : (e : Event) → Decidable (c.Allowed e)
  | .start _ _ => inferInstanceAs (Decidable (_ ∧ _))
  | .accept _ => inferInstanceAs (Decidable (_ ∧ _))
  | .poll _ _ _ => inferInstanceAs (Decidable (_ ∧ _ ∧ _))
  | .discovered _ => inferInstanceAs (Decidable (_ ∧ _))
  | .assigned _ => inferInstanceAs (Decidable (_ ∧ _))
  | .stop _ => inferInstanceAs (Decidable (_ = _))
  | .readFails _ => inferInstanceAs (Decidable (_ ∈ _))
  | .writeFails _ _ => inferInstanceAs (Decidable (_ ∧ _))

/-- The crawler, from an empty database and without processes, until the manager misuses its
database. -/
def system : TransitionSystem (Except Misuse Crawler) Event where
  init s := s = .ok {}
  step s e :=
    match s with
    | .error _ => none
    | .ok c => if c.Allowed e then some (c.perform e) else none

/-- A step of the system is an event that can happen. -/
theorem step_eq_some_iff {s s' : Except Misuse Crawler} {e : Event} :
    system.step s e = some s' ↔ ∃ c, s = .ok c ∧ c.Allowed e ∧ s' = c.perform e := by
  cases s with
  | error m => simp [system]
  | ok c =>
      simp only [system, Option.ite_none_right_eq_some, Option.some.injEq, Except.ok.injEq,
        exists_eq_left']
      exact and_congr_right fun _ => eq_comm

end Crawler
