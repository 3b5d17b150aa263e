/-
# Load balance of home agents

Pollers that are connected while nothing is assigned start with equal, empty lists.
From then on every name goes to a shortest list, so the lengths differ by at most
one: `home_agents_balanced`.  A departing poller only shortens the comparison, and
its names go through the queue to a shortest list each; this includes the pollers
whose failure is nested inside an assignment.
-/
import Pweb.Crawler.DyingPollers

namespace Homeagentdb

/-- The lists hold the assigned names and are balanced. -/
structure Level (db : Homeagentdb) : Prop extends db.Core where
  balanced : db.pollerdb.Balanced

section

variable {f : SendFailure} {db : Homeagentdb} {host : Bytes} {poller : ℕ} {halist : List Bytes}

/-! ## Single actions -/

theorem Level.assigned (h : db.Level) (hnew : host ∉ db.hadb)
    (hleast : db.pollerdb.least = some (poller, halist)) : (db.assigned poller host).Level where
  toCore := h.toCore.assigned hnew (List.argmin_mem hleast)
  balanced := h.balanced.place h.sorted hleast host

theorem Level.released (h : db.Level) (hmem : (poller, halist) ∈ db.pollerdb) :
    (db.released poller halist).Level where
  toCore := h.toCore.released hmem
  balanced := h.balanced.erase poller

/-- The queue plays no part in the balance. -/
theorem Level.dequeued (h : db.Level) (host front : Bytes) (rest : List Bytes) :
    (db.dequeued host front rest).Level := ⟨⟨h.sorted, h.nodup, h.hadb⟩, h.balanced⟩

theorem Level.enqueued (h : db.Level) (host : Bytes) : (db.enqueued host).Level :=
  ⟨⟨h.sorted, h.nodup, h.hadb⟩, h.balanced⟩

theorem Level.read (h : db.Level) (ref : HostRef) : (db.read ref).Level := by
  rw [Homeagentdb.read]
  split
  · exact h
  · exact ⟨⟨h.sorted, h.nodup, h.hadb⟩, h.balanced⟩

/-- While nothing is assigned, a new poller keeps the balance. -/
theorem Level.opened (h : db.Level) (hnone : db.hadb = ∅) (ptr : ℕ) :
    Level { db with pollerdb := db.pollerdb.insert ptr } where
  toCore := h.toCore.opened ptr
  balanced := by
    apply Bins.balanced_of_items_eq_nil
    show (db.pollerdb.insert ptr).items = []
    rw [Bins.items_insert]
    apply List.eq_nil_iff_forall_not_mem.mpr
    intro x hx
    rw [← h.hadb, hnone] at hx
    exact absurd hx (Finset.notMem_empty x)

/-! ## Operations -/

/-- A name goes to a shortest list, whether or not its poller fails. -/
theorem assignHomeAgent_level (hf : Keeps f Level fun _ => True) (h : db.Level) (ref : HostRef) :
    Ensures (assignHomeAgent f db ref) Level fun _ => True := by
  by_cases hmem : ref.value ∈ db.hadb
  · rw [assignHomeAgent_of_mem hmem]
    exact h
  · rcases hleast : db.pollerdb.least with _ | ⟨poller, halist⟩
    · rw [assignHomeAgent, if_neg hmem, hleast]
      trivial
    · rw [assignHomeAgent_of_least hmem hleast]
      have hassigned := h.assigned hmem hleast
      apply Ensures.ite
      · exact fun _ => hassigned
      · intro _
        have hptr := Bins.mem_place (List.argmin_mem hleast) ref.value
        exact hf _ _ _ hassigned (Bins.mem_keys.mpr ⟨_, hptr⟩)

theorem processQueue_level (hf : Keeps f Level fun _ => True) (h : db.Level) :
    Ensures (processQueue f db) Level fun _ => True :=
  processQueueLoop_ensures (fun _ ref h' => assignHomeAgent_level hf h' ref)
    (fun _ host front rest h' => h'.dequeued host front rest) (fun _ _ => trivial) _ h

/-- The list of a departing poller is redistributed over the others. -/
theorem pollerDisconnected_level (hf : Keeps f Level fun _ => True) (h : db.Level)
    (hkey : poller ∈ db.pollerdb.keys) :
    Ensures (pollerDisconnected f db poller) Level fun _ => True := by
  obtain ⟨halist, hmem⟩ := Bins.mem_keys.mp hkey
  rw [pollerDisconnected_eq h.toCore hmem]
  exact processQueue_level hf (h.released hmem)

theorem addHomeAgent_level (hf : Keeps f Level fun _ => True) (h : db.Level) (host : Bytes) :
    Ensures (addHomeAgent f db host) Level fun _ => True := by
  rw [addHomeAgent]
  apply Ensures.ite
  · exact fun _ => assignHomeAgent_level hf h _
  · exact fun _ => h.enqueued host

/-- Failures keep the balance, however deep they nest. -/
theorem sendFailure_level (depth : ℕ) : Keeps (sendFailure depth) Level fun _ => True := by
  induction depth with
  | zero => exact fun _ _ _ _ _ => trivial
  | succ depth ih =>
      intro db poller ref h hkey
      rw [sendFailure]
      apply (pollerDisconnected_level ih h hkey).bind
      exact fun db' h' => addHomeAgent_level ih (h'.read ref) _

/-- A poller is connected while no home agent is assigned and none is queued. -/
def ConnectsIdle (db : Homeagentdb) (e : Event) : Prop :=
  ∀ ptr, e = .pollerConnected ptr → db.hadb = ∅ ∧ db.pollerq = []

/-- **Every operation keeps the balance.** -/
theorem perform_level {e : Event} (h : db.Level) (hallowed : db.Allowed e)
    (hidle : db.ConnectsIdle e) : Ensures (db.perform e) Level fun _ => True := by
  have hf := sendFailure_level
  cases e with
  | pollerConnected ptr => exact processQueue_level (hf _) (h.opened (hidle ptr rfl).1 ptr)
  | pollerDisconnected ptr => exact pollerDisconnected_level (hf _) h hallowed
  | addHomeAgent host => exact addHomeAgent_level (hf _) h host
  | store ptr connected => exact ⟨⟨h.sorted, h.nodup, h.hadb⟩, h.balanced⟩

end

/-! ## Runs -/

/-- **Load balance of home agents.**  In every run in which pollers are connected only while no
home agent is assigned and none is queued, the lengths of the lists of any two connected pollers
differ by at most one. -/
theorem home_agents_balanced {tr : List (Transition (Except Misuse Homeagentdb) Event)}
    {db : Homeagentdb} (h : Run system tr (.ok db))
    (hidle : ∀ t ∈ tr, ∀ db₀, t.pre = .ok db₀ → db₀.ConnectsIdle t.event) :
    ∀ x ∈ db.pollerdb, ∀ y ∈ db.pollerdb,
      x.2.length ≤ y.2.length + 1 ∧ y.2.length ≤ x.2.length + 1 := by
  have hlevel : Ensures (.ok db : Except Misuse Homeagentdb) Level fun _ => True := by
    refine h.invariant_when (I := fun s => Ensures s Level fun _ => True) ?_ ?_ hidle
    · rintro s rfl
      exact ⟨settled_initial.toCore, List.forall_mem_nil _⟩
    · intro tr s e s' _ hs hidle hstep
      obtain ⟨db, rfl, hallowed, rfl⟩ := step_eq_some_iff.mp hstep
      exact perform_level hs hallowed (hidle db rfl)
  have hbalanced := hlevel.of_ok rfl |>.balanced
  exact fun x hx y hy => ⟨hbalanced x hx y hy, hbalanced y hy x hx⟩

/-- Five home agents are discovered; then a poller with two of them is disconnected. -/
def fiveThenLeave : List Event :=
  [.addHomeAgent [97], .addHomeAgent [98], .addHomeAgent [99], .addHomeAgent [100],
    .addHomeAgent [101], .pollerDisconnected 0]

theorem fiveThenLeave_balanced : ∃ tr db, Run system tr (.ok db) ∧
    db.pollerdb = [(1, [[98], [101], [100]]), (2, [[99], [97]])] ∧
    ∀ x ∈ db.pollerdb, ∀ y ∈ db.pollerdb,
      x.2.length ≤ y.2.length + 1 ∧ y.2.length ≤ x.2.length + 1 := by
  have h₀ := (Run.start (M := system) rfl).extend (e := .pollerConnected 0)
    (show _ = some (.ok { pollerdb := [(0, [])] }) from rfl)
  have h₁ := h₀.extend (e := .pollerConnected 1)
    (show _ = some (.ok { pollerdb := [(0, []), (1, [])] }) from rfl)
  have h₂ := h₁.extend (e := .pollerConnected 2)
    (show _ = some (.ok { pollerdb := [(0, []), (1, []), (2, [])] }) from rfl)
  have hexec : (system.exec (.ok { pollerdb := [(0, []), (1, []), (2, [])] }) fiveThenLeave).map
      lists = some [(1, [[98], [101], [100]]), (2, [[99], [97]])] := by
    decide
  obtain ⟨s, hs, hlists⟩ := Option.map_eq_some_iff.mp hexec
  obtain ⟨tr, hrun, hevents⟩ := h₂.exec_extends hs
  rcases s with _ | db
  · cases hlists
  · refine ⟨_, db, hrun, hlists, home_agents_balanced hrun ?_⟩
    simp only [List.nil_append, List.cons_append, List.forall_mem_cons]
    refine ⟨?_, ?_, ?_, ?_⟩
    · exact fun db₀ hpre _ _ => by cases hpre; exact ⟨rfl, rfl⟩
    · exact fun db₀ hpre _ _ => by cases hpre; exact ⟨rfl, rfl⟩
    · exact fun db₀ hpre _ _ => by cases hpre; exact ⟨rfl, rfl⟩
    · intro t ht db₀ _ ptr heq
      have hmem : t.event ∈ fiveThenLeave := hevents ▸ List.mem_map_of_mem ht
      rw [heq] at hmem
      simp [fiveThenLeave] at hmem

end Homeagentdb
