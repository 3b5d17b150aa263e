/-
# Assignments to dying pollers

A poller whose `connected_` is false while it is still in `pollerdb_` is dying.  If
`process_queue` hands it a name while another poller is there, the failure runs a
nested `process_queue` that pops the entry under the outer one: the name is read
after its entry is gone, and the outer loop pops an empty queue or an entry it has not
handed on.

`safe_iff` : the database stays safe exactly in the runs in which all names that are
queued again can be redistributed.
-/
import Pweb.Crawler.Redistribution
import Pweb.Foundation.Outcome

namespace Homeagentdb

/-! ## What every function keeps -/

/-- A property of states that the single actions of the database keep. -/
structure Stable (I : Homeagentdb → Prop) : Prop where
  requeued : ∀ db queue names, I db → I { db with pollerq := queue, hadb := names }
  assigned : ∀ db poller host, I db → I (db.assigned poller host)
  erased : ∀ db poller, I db → I { db with pollerdb := db.pollerdb.erase poller }
  dequeued : ∀ db host front rest, I db → I (db.dequeued host front rest)
  read : ∀ db ref, I db → I (db.read ref)

/-- The failure of a poller keeps `I` and leads to errors in `E` only. -/
def Keeps (f : SendFailure) (I : Homeagentdb → Prop) (E : Misuse → Prop) : Prop :=
  ∀ db poller ref, I db → poller ∈ db.pollerdb.keys → Ensures (f db poller ref) I E

section

variable {f : SendFailure} {I : Homeagentdb → Prop} {E : Misuse → Prop} {db : Homeagentdb}

theorem Keeps.assignHomeAgent (hf : Keeps f I E) (hI : Stable I) (hE : ∀ m, m ≠ .tooDeep → E m)
    (h : I db) (ref : HostRef) : Ensures (assignHomeAgent f db ref) I E := by
  by_cases hmem : ref.value ∈ db.hadb
  · rw [assignHomeAgent_of_mem hmem]
    exact h
  · rcases hleast : db.pollerdb.least with _ | ⟨poller, halist⟩
    · rw [Homeagentdb.assignHomeAgent, if_neg hmem, hleast]
      exact hE _ Misuse.noConfusion
    · rw [assignHomeAgent_of_least hmem hleast]
      have hassigned := hI.assigned db poller ref.value h
      apply Ensures.ite
      · exact fun _ => hassigned
      · intro _
        apply hf _ _ _ hassigned
        have hptr := Bins.mem_place (List.argmin_mem hleast) ref.value
        exact Bins.mem_keys.mpr ⟨_, hptr⟩

theorem pop_ensures (hI : ∀ db host front rest, I db → I (db.dequeued host front rest))
    (hE : ∀ m, m ≠ .tooDeep → E m) (h : I db) (host : Bytes) : Ensures (db.pop host) I E := by
  rw [pop]
  split
  · exact hE _ Misuse.noConfusion
  · exact hI db _ _ _ h

/-- **The loop of `process_queue`** keeps what assigning and popping keep. -/
theorem processQueueLoop_ensures (hf : ∀ db ref, I db → Ensures (assignHomeAgent f db ref) I E)
    (hI : ∀ db host front rest, I db → I (db.dequeued host front rest))
    (hE : ∀ m, m ≠ .tooDeep → E m) (n : ℕ) (h : I db) :
    Ensures (processQueueLoop f n db) I E := by
  induction n generalizing db with
  | zero => exact h
  | succ n ih =>
      rw [processQueueLoop]
      split
      · exact h
      · apply Ensures.ite
        · exact fun _ => h
        · intro _
          apply (hf _ _ h).bind
          intro db₁ h₁
          apply (pop_ensures hI hE h₁ _).bind
          exact fun db₂ h₂ => ih h₂

theorem Keeps.processQueueLoop (hf : Keeps f I E) (hI : Stable I)
    (hE : ∀ m, m ≠ .tooDeep → E m) (n : ℕ) (h : I db) :
    Ensures (processQueueLoop f n db) I E :=
  processQueueLoop_ensures (fun _ ref h' => hf.assignHomeAgent hI hE h' ref) hI.dequeued hE n h

theorem requeue_ensures (hI : Stable I) (hE : ∀ m, m ≠ .tooDeep → E m) (halist : List Bytes)
    (h : I db) : Ensures (db.requeue halist) (fun db' => I db' ∧ db'.pollerdb = db.pollerdb) E := by
  induction halist generalizing db with
  | nil => exact ⟨h, rfl⟩
  | cons i halist ih =>
      rw [requeue]
      apply Ensures.ite
      · exact fun _ => ih (hI.requeued db _ _ h)
      · exact fun _ => hE _ Misuse.noConfusion

theorem Keeps.pollerDisconnected (hf : Keeps f I E) (hI : Stable I)
    (hE : ∀ m, m ≠ .tooDeep → E m) (h : I db) (poller : ℕ) :
    Ensures (pollerDisconnected f db poller) I E := by
  rw [Homeagentdb.pollerDisconnected]
  split
  · exact hE _ Misuse.noConfusion
  · apply (requeue_ensures hI hE _ h).bind
    exact fun db' h' => hf.processQueueLoop hI hE _ (hI.erased db' poller h'.1)

theorem Keeps.addHomeAgent (hf : Keeps f I E) (hI : Stable I) (hE : ∀ m, m ≠ .tooDeep → E m)
    (h : I db) (host : Bytes) : Ensures (addHomeAgent f db host) I E := by
  rw [Homeagentdb.addHomeAgent]
  apply Ensures.ite
  · exact fun _ => hf.assignHomeAgent hI hE h _
  · exact fun _ => hI.requeued db _ _ h

/-- A failing poller keeps what the single actions keep, however deep it nests. -/
theorem keeps_sendFailure (hI : Stable I) (depth : ℕ) :
    Keeps (sendFailure depth) I fun _ => True := by
  induction depth with
  | zero => exact fun _ _ _ _ _ => trivial
  | succ depth ih =>
      intro db poller ref h _
      rw [sendFailure]
      apply (ih.pollerDisconnected hI (fun _ _ => trivial) h poller).bind
      exact fun db' h' => ih.addHomeAgent hI (fun _ _ => trivial) (hI.read db' ref h') _

/-! ## Depth and rounds -/

/-- At most `n` pollers, in order. -/
def Shallow (n : ℕ) (db : Homeagentdb) : Prop := db.pollerdb.Sorted ∧ db.pollerdb.length ≤ n

theorem stable_shallow (n : ℕ) : Stable (Shallow n) where
  requeued _ _ _ h := h
  assigned db poller host h := by
    refine ⟨h.1.place _ _, ?_⟩
    show (db.pollerdb.place poller host).length ≤ n
    rw [Bins.length_place]
    exact h.2
  erased db poller h := ⟨h.1.erase _, (List.length_filter_le _ _).trans h.2⟩
  dequeued _ _ _ _ h := h
  read db ref h := by
    rw [read]
    split
    · exact h
    · exact h

/-- Each failure removes its poller, so as many levels as pollers are enough. -/
theorem keeps_shallow (depth : ℕ) :
    Keeps (sendFailure depth) (Shallow depth) fun m => m ≠ .tooDeep := by
  induction depth with
  | zero =>
      intro db poller ref h hkey
      rw [List.eq_nil_of_length_eq_zero (Nat.le_zero.mp h.2)] at hkey
      exact absurd hkey List.not_mem_nil
  | succ depth ih =>
      intro db poller ref h hkey
      obtain ⟨halist, hmem⟩ := Bins.mem_keys.mp hkey
      have hlen := Bins.length_erase h.1 hmem
      have hdisc : Ensures (pollerDisconnected (sendFailure depth) db poller) (Shallow depth)
          fun m => m ≠ .tooDeep := by
        rw [pollerDisconnected, h.1.find?_eq_some_iff.mpr hmem]
        apply (requeue_ensures (stable_shallow _) (fun _ hm => hm) halist h).bind
        rintro db' ⟨h', hsame⟩
        apply ih.processQueueLoop (stable_shallow depth) fun _ hm => hm
        rw [hsame]
        refine ⟨h.1.erase poller, ?_⟩
        have hle := h.2
        show (db.pollerdb.erase poller).length ≤ depth
        omega
      rw [sendFailure]
      apply hdisc.bind
      intro db' h'
      have hread := (stable_shallow depth).read db' ref h'
      apply (ih.addHomeAgent (stable_shallow depth) (fun _ hm => hm) hread _).mono
      · exact fun db'' h'' => ⟨h''.1, Nat.le_succ_of_le h''.2⟩
      · exact fun _ hm => hm

/-- **The bound on the depth is never reached.** -/
theorem perform_ne_tooDeep (h : db.pollerdb.Sorted) (e : Event) :
    db.perform e ≠ .error .tooDeep := by
  intro heq
  have hn : Shallow db.pollerdb.length db := ⟨h, le_rfl⟩
  have hkeeps := keeps_shallow db.pollerdb.length
  cases e with
  | pollerConnected ptr =>
      have hopened : Shallow (db.pollerdb.length + 1)
          { db with pollerdb := db.pollerdb.insert ptr } :=
        ⟨h.insert ptr, Bins.length_insert_le ptr db.pollerdb⟩
      exact ((keeps_shallow _).processQueueLoop (stable_shallow _) (fun _ hm => hm) _
        hopened).of_error heq rfl
  | pollerDisconnected ptr =>
      exact (hkeeps.pollerDisconnected (stable_shallow _) (fun _ hm => hm) hn ptr).of_error heq rfl
  | addHomeAgent host =>
      exact (hkeeps.addHomeAgent (stable_shallow _) (fun _ hm => hm) hn host).of_error heq rfl
  | store ptr connected => cases heq

/-- The test of the loop fails. -/
def Ended (db : Homeagentdb) : Prop := db.pollerq = [] ∨ db.pollerdb = []

theorem assignHomeAgent_ended {f : SendFailure}
    (hf : ∀ db poller ref, Ensures (f db poller ref) Ended fun _ => True) (db : Homeagentdb)
    (ref : HostRef) :
    Ensures (assignHomeAgent f db ref) (fun db' => db'.Ended ∨ db'.pollerq = db.pollerq)
      fun _ => True := by
  rw [assignHomeAgent]
  apply Ensures.ite
  · exact fun _ => Or.inr rfl
  · intro _
    split
    · trivial
    · apply Ensures.ite
      · exact fun _ => Or.inr rfl
      · exact fun _ => (hf _ _ _).mono (fun _ h => Or.inl h) fun _ h => h

theorem processQueueLoop_ended {f : SendFailure}
    (hf : ∀ db poller ref, Ensures (f db poller ref) Ended fun _ => True) {n : ℕ}
    (h : db.pollerq.length ≤ n ∨ db.pollerdb = []) :
    Ensures (processQueueLoop f n db) Ended fun _ => True := by
  induction n generalizing db with
  | zero => exact h.imp_left fun hlen => List.eq_nil_of_length_eq_zero (Nat.le_zero.mp hlen)
  | succ n ih =>
      by_cases hnil : db.pollerdb = []
      · rw [processQueueLoop_of_nil hnil]
        exact Or.inr hnil
      · rcases hqueue : db.pollerq with _ | ⟨front, rest⟩
        · rw [processQueueLoop_of_empty hqueue]
          exact Or.inl hqueue
        · rw [processQueueLoop_of_cons hqueue hnil]
          apply (assignHomeAgent_ended hf db _).bind
          intro db₁ h₁
          rcases hqueue₁ : db₁.pollerq with _ | ⟨x, rest₁⟩
          · rw [pop, hqueue₁]
            trivial
          · rw [pop_of_cons hqueue₁]
            apply ih
            rcases h₁ with (hempty | hnone) | hsame
            · rw [hempty] at hqueue₁
              cases hqueue₁
            · exact Or.inr hnone
            · left
              have hlen := h.resolve_right hnil
              rw [← hsame, hqueue₁, List.length_cons] at hlen
              exact Nat.le_of_succ_le_succ hlen

theorem sendFailure_ended (depth : ℕ) (db : Homeagentdb) (poller : ℕ) (ref : HostRef) :
    Ensures (sendFailure depth db poller ref) Ended fun _ => True := by
  induction depth generalizing db poller ref with
  | zero => trivial
  | succ depth ih =>
      have hdisc : Ensures (pollerDisconnected (sendFailure depth) db poller) Ended
          fun _ => True := by
        rw [pollerDisconnected]
        split
        · trivial
        · apply Ensures.bind (Q := fun _ => True)
          · cases db.requeue _ <;> trivial
          · exact fun _ _ => processQueueLoop_ended ih (Or.inl le_rfl)
      rw [sendFailure]
      apply hdisc.bind
      intro db' h'
      have hread : (db'.read ref).Ended := by
        rw [read]
        split
        · exact h'
        · exact h'
      rw [addHomeAgent]
      apply Ensures.ite
      · intro hne
        apply (assignHomeAgent_ended ih _ _).mono
        · rintro db'' (h'' | hsame)
          · exact h''
          · exact Or.inl (hsame.trans (hread.resolve_right hne))
        · exact fun _ h => h
      · exact fun hnil => Or.inr (not_not.mp hnil)

/-- **The loop of `process_queue` runs to its end** within the rounds the model allows. -/
theorem processQueue_ended (depth : ℕ) (db : Homeagentdb) :
    Ensures (processQueue (sendFailure depth) db) Ended fun _ => True :=
  processQueueLoop_ended (sendFailure_ended depth) (Or.inl le_rfl)

end

/-! ## Where redistribution fails -/

/-- At least `k` entries have been popped, and a stale name has been read if `b` says so. -/
def AtLeast (k : ℕ) (b : Bool) (db : Homeagentdb) : Prop :=
  k ≤ db.popped.length ∧ (b = true → db.staleRead = true)

theorem stable_atLeast (k : ℕ) (b : Bool) : Stable (AtLeast k b) where
  requeued _ _ _ h := h
  assigned _ _ _ h := h
  erased _ _ h := h
  dequeued db host front rest h := by
    refine ⟨h.1.trans ?_, h.2⟩
    rw [dequeued, List.length_append]
    exact Nat.le_add_right _ _
  read db ref h := by
    rw [read]
    split
    · exact h
    · exact ⟨h.1, fun hb => by rw [h.2 hb, Bool.true_or]⟩

/-- A name has been read through a dangling reference, or an operation has gone wrong. -/
def Spoils (r : Except Misuse Homeagentdb) : Prop :=
  Ensures r (fun db => db.staleRead = true) fun _ => True

variable {db : Homeagentdb} {depth : ℕ}

/-- What has been spoilt stays so. -/
theorem Spoils.bind {r : Except Misuse Homeagentdb} {g : Homeagentdb → Except Misuse Homeagentdb}
    (h : Spoils r) (hg : ∀ db, AtLeast 0 true db → Ensures (g db) (AtLeast 0 true) fun _ => True) :
    Spoils (r >>= g) := by
  refine Ensures.bind h fun db hdb => ?_
  exact (hg db ⟨Nat.zero_le _, fun _ => hdb⟩).mono (fun _ h' => h'.2 rfl) fun _ h' => h'

/-- A `process_queue` with something to do pops an entry. -/
theorem processQueue_pops (hqueue : db.pollerq ≠ []) (hne : db.pollerdb ≠ []) :
    Ensures (processQueue (sendFailure depth) db)
      (fun db' => db.popped.length < db'.popped.length) fun _ => True := by
  obtain ⟨front, rest, heq⟩ := List.exists_cons_of_ne_nil hqueue
  have hstable := stable_atLeast (db.popped.length) false
  have hkeeps := keeps_sendFailure hstable depth
  rw [processQueue, heq, List.length_cons, processQueueLoop_of_cons heq hne]
  apply (hkeeps.assignHomeAgent hstable (fun _ _ => trivial)
    ⟨le_rfl, Bool.noConfusion⟩ _).bind
  intro db₁ h₁
  rcases hqueue₁ : db₁.pollerq with _ | ⟨x, rest₁⟩
  · rw [pop, hqueue₁]
    trivial
  · rw [pop_of_cons hqueue₁]
    have hstable' := stable_atLeast (db.popped.length + 1) false
    apply ((keeps_sendFailure hstable' depth).processQueueLoop hstable' (fun _ _ => trivial) _
      ⟨?_, Bool.noConfusion⟩).mono
    · exact fun _ h => h.1
    · exact fun _ h => h
    · rw [dequeued, List.length_append]
      exact Nat.succ_le_succ h₁.1

/-- **The failure of a dying poller among others** reads the name after its entry has been
popped by the nested `process_queue`. -/
theorem sendFailure_spoils {poller : ℕ} {halist : List Bytes} {front : Bytes} (hcore : db.Core)
    (hmem : (poller, halist) ∈ db.pollerdb) (hqueue : db.pollerq ≠ [])
    (htwo : 2 ≤ db.pollerdb.length) :
    Spoils (sendFailure (depth + 1) db poller ⟨front, some db.popped.length⟩) := by
  have hlen := Bins.length_erase hcore.sorted hmem
  have hothers : (db.released poller halist).pollerdb ≠ [] := by
    apply List.ne_nil_of_length_pos
    show 0 < (db.pollerdb.erase poller).length
    omega
  have hpops : Ensures (processQueue (sendFailure depth) (db.released poller halist))
      (fun db' => db.popped.length < db'.popped.length) fun _ => True :=
    processQueue_pops (List.append_ne_nil_of_left_ne_nil hqueue _) hothers
  rw [sendFailure, pollerDisconnected_eq hcore hmem]
  apply hpops.bind
  intro db₁ hpopped
  have hstable := stable_atLeast 0 true
  have hread : AtLeast 0 true (db₁.read ⟨front, some db.popped.length⟩) := by
    refine ⟨Nat.zero_le _, fun _ => ?_⟩
    show (db₁.staleRead || decide (db.popped.length < db₁.popped.length)) = true
    rw [decide_eq_true hpopped, Bool.or_true]
  apply ((keeps_sendFailure hstable depth).addHomeAgent hstable (fun _ _ => trivial) hread _).mono
  · exact fun _ h => h.2 rfl
  · exact fun _ h => h

/-- The turn of a dying poller has come. -/
theorem processQueueLoop_spoils_of_dying {n : ℕ} {m : ℕ × List Bytes} {front : Bytes}
    {rest : List Bytes} (hcore : db.Core) (hqueue : db.pollerq = front :: rest)
    (hfront : front ∉ db.hadb) (htwo : 2 ≤ db.pollerdb.length)
    (hleast : db.pollerdb.least = some m) (hdead : db.connected m.1 = false) :
    Spoils (processQueueLoop (sendFailure (depth + 1)) (n + 1) db) := by
  have hne : db.pollerdb ≠ [] := List.ne_nil_of_length_pos (by omega)
  have hm := (Bins.least_spec hcore.sorted hleast).1
  have htwo' : 2 ≤ (db.assigned m.1 front).pollerdb.length := by
    show 2 ≤ (db.pollerdb.place m.1 front).length
    rwa [Bins.length_place]
  have hspoils : Spoils (sendFailure (depth + 1) (db.assigned m.1 front) m.1
      ⟨front, some db.popped.length⟩) := by
    apply sendFailure_spoils (hcore.assigned hfront hm) (Bins.mem_place hm front) ?_ htwo'
    show db.pollerq ≠ []
    rw [hqueue]
    exact List.cons_ne_nil _ _
  have hstable := stable_atLeast 0 true
  have hkeeps := keeps_sendFailure hstable (depth + 1)
  rw [processQueueLoop_of_cons hqueue hne, assignHomeAgent_of_least hfront hleast, hdead,
    if_neg Bool.false_ne_true]
  apply hspoils.bind
  intro db₁ h₁
  apply (pop_ensures hstable.dequeued (fun _ _ => trivial) h₁ _).bind
  exact fun db₂ h₂ => hkeeps.processQueueLoop hstable (fun _ _ => trivial) n h₂

/-- A live poller that is first takes a name, and there is room for one less. -/
theorem room_assigned {n : ℕ} {m : ℕ × List Bytes} (hcore : db.Core)
    (hleast : db.pollerdb.least = some m) (hlive : db.connected m.1 = true) (front : Bytes)
    (hover : ∃ d ∈ db.pollerdb, db.connected d.1 = false ∧
      Bins.room db.connected d db.pollerdb < n + 1) :
    ∃ d ∈ db.pollerdb.place m.1 front, db.connected d.1 = false ∧
      Bins.room db.connected d (db.pollerdb.place m.1 front) < n := by
  obtain ⟨d, hd, hdead, hlt⟩ := hover
  obtain ⟨hm, hahead⟩ := Bins.least_spec hcore.sorted hleast
  have hkey : d.1 ≠ m.1 := by
    intro heq
    rw [← heq] at hlive
    exact Bool.noConfusion (hlive.symm.trans hdead)
  have hafter : Bins.Ahead m d := (hahead d hd).resolve_left fun heq => hkey (by rw [heq])
  have hroom := Bins.room_place hcore.sorted hm hlive hafter front
  exact ⟨d, Bins.mem_place_of_ne hd hkey front, hdead, by omega⟩

/-- **More new names than the live pollers take**: the turn of a dying poller comes. -/
theorem processQueueLoop_spoils {n : ℕ} (hcore : db.Core) (hnodup : db.pollerq.Nodup)
    (hnew : ∀ x ∈ db.pollerq, x ∉ db.hadb) (htwo : 2 ≤ db.pollerdb.length)
    (hn : db.pollerq.length = n)
    (hover : ∃ d ∈ db.pollerdb, db.connected d.1 = false ∧
      Bins.room db.connected d db.pollerdb < n) :
    Spoils (processQueueLoop (sendFailure (depth + 1)) n db) := by
  induction n generalizing db with
  | zero =>
      obtain ⟨d, -, -, hlt⟩ := hover
      exact absurd hlt (Nat.not_lt_zero _)
  | succ n ih =>
      obtain ⟨front, rest, hqueue⟩ := List.exists_cons_of_length_eq_add_one hn
      have hne : db.pollerdb ≠ [] := List.ne_nil_of_length_pos (by omega)
      have hfront : front ∉ db.hadb := hnew front (by rw [hqueue]; exact List.mem_cons_self)
      rcases hleast : db.pollerdb.least with _ | m
      · exact absurd (Bins.least_eq_none_iff.mp hleast) hne
      · cases hconn : db.connected m.1 with
        | false => exact processQueueLoop_spoils_of_dying hcore hqueue hfront htwo hleast hconn
        | true =>
            have hcore' := hcore.assigned hfront (Bins.least_spec hcore.sorted hleast).1
            rw [processQueueLoop_of_cons hqueue hne, assignHomeAgent_of_least hfront hleast,
              if_pos hconn]
            show Spoils ((db.assigned m.1 front).pop front >>= _)
            rw [pop_of_cons (show (db.assigned m.1 front).pollerq = front :: rest from hqueue)]
            rw [hqueue] at hnodup hnew hn
            obtain ⟨hnot, hnodup'⟩ := List.nodup_cons.mp hnodup
            refine ih (show ((db.assigned m.1 front).dequeued front front rest).Core from
              ⟨hcore'.sorted, hcore'.nodup, hcore'.hadb⟩) hnodup' ?_ ?_
              (Nat.succ_inj.mp hn) (room_assigned hcore hleast hconn front hover)
            · intro x hx hin
              rcases Finset.mem_insert.mp hin with rfl | hin
              · exact hnot hx
              · exact hnew x (List.mem_cons_of_mem _ hx) hin
            · show 2 ≤ (db.pollerdb.place m.1 front).length
              rwa [Bins.length_place]

/-- Disconnecting a poller whose names cannot be redistributed. -/
theorem pollerDisconnected_spoils {ptr : ℕ} {halist : List Bytes} (hcore : db.Core)
    (hmem : (ptr, halist) ∈ db.pollerdb) (hqueue : db.pollerq = [])
    (hcond : ¬ (db.released ptr halist).Redistributes halist.length) :
    Spoils (pollerDisconnected (sendFailure (depth + 1)) db ptr) := by
  unfold Redistributes at hcond
  push Not at hcond
  obtain ⟨htwo, hover⟩ := hcond
  unfold Absorbs at hover
  push Not at hover
  have hqueue' : (db.released ptr halist).pollerq = halist := by
    show db.pollerq ++ halist = halist
    rw [hqueue]
    rfl
  rw [pollerDisconnected_eq hcore hmem, processQueue, hqueue']
  apply processQueueLoop_spoils (hcore.released hmem)
  · rw [hqueue']
    exact (hcore.mem_hadb hmem).1
  · intro x hx hin
    rw [hqueue'] at hx
    exact (Finset.mem_sdiff.mp hin).2 (List.mem_toFinset.mpr hx)
  · exact htwo
  · rw [hqueue']
  · exact hover

/-- **An operation whose names cannot be redistributed** goes wrong. -/
theorem perform_spoils {e : Event} (h : db.Settled) (hcond : ¬ db.RedistributesAt e) :
    Spoils (db.perform e) := by
  cases e with
  | pollerConnected ptr => exact absurd trivial hcond
  | store ptr connected => exact absurd trivial hcond
  | pollerDisconnected ptr =>
      unfold RedistributesAt at hcond
      push Not at hcond
      obtain ⟨halist, hmem, hcond⟩ := hcond
      obtain ⟨depth, hdepth⟩ := Nat.exists_eq_add_of_le' (List.length_pos_of_mem hmem)
      rw [perform, hdepth]
      exact pollerDisconnected_spoils h.toCore hmem (h.queue_eq_nil hmem) hcond
  | addHomeAgent host =>
      unfold RedistributesAt at hcond
      push Not at hcond
      obtain ⟨hnew, ptr, halist, hleast, hdead, hcond⟩ := hcond
      obtain ⟨hmem, -⟩ := Bins.least_spec h.sorted hleast
      have hne : db.pollerdb ≠ [] := List.ne_nil_of_mem hmem
      have hcore := h.toCore.assigned hnew hmem
      have hcond' : ¬ ((db.assigned ptr host).released ptr (halist ++ [host])).Redistributes
          (halist ++ [host]).length := by
        rw [Redistributes, Absorbs, List.length_append, List.length_singleton,
          show ((db.assigned ptr host).released ptr (halist ++ [host])).pollerdb
            = (db.released ptr halist).pollerdb from Bins.erase_place ptr host db.pollerdb]
        exact hcond
      -- two pollers besides the dying one
      have htwo : 2 ≤ (db.pollerdb.erase ptr).length := by
        by_contra hlt
        exact hcond (Or.inl (Nat.le_of_lt_succ (Nat.not_le.mp hlt)))
      have hlen := Bins.length_erase h.sorted hmem
      obtain ⟨depth, hdepth⟩ := Nat.exists_eq_add_of_le' (show 2 ≤ db.pollerdb.length by omega)
      have hstable := stable_atLeast 0 true
      rw [perform, addHomeAgent, if_pos hne, assignHomeAgent_of_least hnew hleast, hdead,
        if_neg Bool.false_ne_true, hdepth, sendFailure]
      apply (pollerDisconnected_spoils hcore (Bins.mem_place hmem host) (h.queue_eq_nil hmem)
        hcond').bind
      exact fun db₁ h₁ => (keeps_sendFailure hstable _).addHomeAgent hstable (fun _ _ => trivial)
        (hstable.read db₁ _ h₁) _

/-! ## Runs -/

/-- **A safe step** leaves the invariant: no name has been read through a dangling reference,
only entries that had been handed on have been popped, and no home agent is lost. -/
def Safe (t : Transition (Except Misuse Homeagentdb) Event) : Prop :=
  ∃ db db', t.pre = .ok db ∧ t.post = .ok db' ∧ db'.Settled ∧ db'.staleRead = false ∧
    (∀ e ∈ db'.popped, e.1 = e.2) ∧
    ∀ host, db.Known host ∨ t.event = .addHomeAgent host → db'.Known host

/-- The names a step queues again can be redistributed. -/
def RedistributesStep (t : Transition (Except Misuse Homeagentdb) Event) : Prop :=
  ∀ db, t.pre = .ok db → db.RedistributesAt t.event

/-- What holds between two safe steps. -/
structure SafeState (db : Homeagentdb) : Prop where
  settled : db.Settled
  staleRead : db.staleRead = false
  popped : ∀ e ∈ db.popped, e.1 = e.2

theorem SafeState.step {e : Event} (h : db.SafeState) (hallowed : db.Allowed e)
    (hcond : db.RedistributesAt e) : ∃ db', db.perform e = .ok db' ∧ db'.SafeState ∧
      ∀ host, db.Known host ∨ e = .addHomeAgent host → db'.Known host := by
  by_cases hop : ∃ ptr connected, e = .store ptr connected
  · obtain ⟨ptr, connected, rfl⟩ := hop
    refine ⟨_, rfl, ⟨⟨⟨h.settled.sorted, h.settled.nodup, h.settled.hadb⟩, h.settled.idle⟩,
      h.staleRead, h.popped⟩, ?_⟩
    rintro host (hknown | heq)
    · exact hknown
    · cases heq
  · push Not at hop
    obtain ⟨db', hok, hsettled, hcarries, hadded⟩ := perform_settled h.settled hallowed hcond hop
    obtain ⟨later, hpopped, hsame⟩ := hcarries.popped
    refine ⟨db', hok, ⟨hsettled, hcarries.staleRead.trans h.staleRead, ?_⟩, ?_⟩
    · rw [hpopped]
      exact List.forall_mem_append.mpr ⟨h.popped, hsame⟩
    · rintro host (hknown | heq)
      · exact hcarries.known host hknown
      · exact hadded host heq

/-- **When assignments to dying pollers are safe.**  In every run, every operation leaves the
invariant exactly if at every operation the names that are queued again can be redistributed:
there is at most one other poller, or the live ones take them all before the turn of a dying
one comes. -/
theorem safe_iff {tr : List (Transition (Except Misuse Homeagentdb) Event)}
    {s : Except Misuse Homeagentdb} (h : Run system tr s) :
    (∀ t ∈ tr, Safe t) ↔ ∀ t ∈ tr, RedistributesStep t := by
  refine Run.forall_iff ?_ h
  intro tr s e s' hrun hgood hstep
  have hstate : ∃ db, s = .ok db ∧ db.SafeState := by
    refine hrun.invariant_when (I := fun s => ∃ db, s = .ok db ∧ db.SafeState) ?_ ?_ hgood
    · rintro s rfl
      exact ⟨{}, rfl, settled_initial, rfl, List.forall_mem_nil _⟩
    · rintro _ s e s' _ ⟨db, rfl, hdb⟩ hC hs
      obtain ⟨db₀, heq, hallowed, rfl⟩ := step_eq_some_iff.mp hs
      cases heq
      obtain ⟨db', hok, hdb', -⟩ := hdb.step hallowed (hC db rfl)
      exact ⟨db', hok, hdb'⟩
  obtain ⟨db, rfl, hdb⟩ := hstate
  obtain ⟨db₀, heq, hallowed, rfl⟩ := step_eq_some_iff.mp hstep
  cases heq
  constructor
  · rintro ⟨_, db', -, hok, -, hfresh, -, -⟩ db₁ heq
    cases heq
    by_contra hcond
    have hstale := (perform_spoils hdb.settled hcond).of_ok hok
    rw [hfresh] at hstale
    cases hstale
  · intro hcond
    obtain ⟨db', hok, hdb', hknown⟩ := hdb.step hallowed (hcond db rfl)
    exact ⟨db, db', rfl, hok, hdb'.settled, hdb'.staleRead, hdb'.popped, hknown⟩

/-! ## Two runs -/

/-- The first poller has a home agent and is disconnected; of the other two the first is
dying. -/
def dyingBeforeLive : List Event :=
  [.pollerConnected 0, .addHomeAgent [97], .pollerConnected 1, .pollerConnected 2,
    .store 1 false, .pollerDisconnected 0]

/-- How an operation went wrong, if one did. -/
def misuse (s : Except Misuse Homeagentdb) : Option Misuse :=
  match s with
  | .ok _ => none
  | .error m => some m

/-- **The queue can be popped when it is empty**: the nested `process_queue` gives the home
agent to the live poller and pops it, and the outer one pops again. -/
theorem queue_popped_empty : ∃ tr s, Run system tr s ∧
    tr.map Transition.event = dyingBeforeLive ∧ misuse s = some .popEmpty ∧
    ¬ ∀ t ∈ tr, Safe t := by
  have hexec : (system.exec (.ok {}) dyingBeforeLive).map misuse = some (some .popEmpty) := by
    decide
  obtain ⟨s, hs, hmisuse⟩ := Option.map_eq_some_iff.mp hexec
  obtain ⟨tr, hrun, hevents⟩ := Run.of_exec rfl hs
  refine ⟨tr, s, hrun, hevents, hmisuse, fun hall => ?_⟩
  cases hrun with
  | start _ => cases hevents
  | extend hpast hstep =>
      obtain ⟨_, db', -, hok, -⟩ := hall _ (Run.last_mem _ _)
      dsimp only at hok
      rw [hok] at hmisuse
      cases hmisuse

/-- A dying poller and a live one. -/
def dyingAndLive : Homeagentdb where
  pollerdb := [(0, []), (1, [])]
  connected := Function.update (fun _ => true) 0 false

/-- A home agent that is handed to the dying poller goes to the live one. -/
theorem dyingAndLive_safe : ∃ tr s, Run system tr s ∧ lists s = [(1, [[97]])] ∧
    ∀ t ∈ tr, Safe t := by
  have hfirst := (Run.start (M := system) rfl).extend (e := .pollerConnected 0)
    (show _ = some (.ok { pollerdb := [(0, [])] }) from rfl)
  have hsecond := hfirst.extend (e := .pollerConnected 1)
    (show _ = some (.ok { pollerdb := [(0, []), (1, [])] }) from rfl)
  have hdying := hsecond.extend (e := .store 0 false) (show _ = some (.ok dyingAndLive) from rfl)
  have hadded := hdying.extend (e := .addHomeAgent [97])
    (show _ = some (dyingAndLive.perform (.addHomeAgent [97])) from rfl)
  refine ⟨_, _, hadded, by decide, (safe_iff hadded).mpr ?_⟩
  simp only [List.nil_append, List.cons_append, List.forall_mem_cons]
  refine ⟨fun _ _ => trivial, fun _ _ => trivial, fun _ _ => trivial, ?_, List.forall_mem_nil _⟩
  -- only the live poller remains
  intro db heq _ ptr halist hleast _
  cases heq
  cases hleast
  exact Or.inl le_rfl

end Homeagentdb
