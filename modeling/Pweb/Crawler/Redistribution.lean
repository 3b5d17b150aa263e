/-
# Redistribution of home agents

When does an operation of the database keep its invariant?  `process_queue` does if
the live pollers take up the whole queue before the turn of a dying one comes, or if
there is only one poller; the home agents of a sole dying poller go back to the queue.
`perform_settled` says so of every operation.

`home_agents_assigned_once` : without dying pollers every run keeps the invariant.
-/
import Pweb.Crawler.HomeAgentDb

namespace Homeagentdb

/-- What an operation leaves behind of the state before it: no name is read through a dangling
reference, an entry that is popped is the one that was handed on, and no home agent is lost. -/
structure Carries (db db' : Homeagentdb) : Prop where
  connected : db'.connected = db.connected
  staleRead : db'.staleRead = db.staleRead
  popped : ∃ later, db'.popped = db.popped ++ later ∧ ∀ e ∈ later, e.1 = e.2
  known : ∀ host, db.Known host → db'.Known host

/-- The live pollers take `n` new names before the turn of any dying poller comes. -/
def Absorbs (db : Homeagentdb) (n : ℕ) : Prop :=
  ∀ d ∈ db.pollerdb, db.connected d.1 = false → n ≤ Bins.room db.connected d db.pollerdb

variable {f : SendFailure} {db db₁ db₂ : Homeagentdb} {host : Bytes} {n : ℕ}

theorem Carries.refl (db : Homeagentdb) : Carries db db where
  connected := rfl
  staleRead := rfl
  popped := ⟨[], (List.append_nil _).symm, List.forall_mem_nil _⟩
  known _ h := h

theorem Carries.trans (h : Carries db db₁) (h' : Carries db₁ db₂) : Carries db db₂ := by
  obtain ⟨later, hpopped, hsame⟩ := h.popped
  obtain ⟨later', hpopped', hsame'⟩ := h'.popped
  refine ⟨h'.connected.trans h.connected, h'.staleRead.trans h.staleRead,
    ⟨later ++ later', ?_, ?_⟩, ?_⟩
  · rw [hpopped', hpopped, List.append_assoc]
  · exact List.forall_mem_append.mpr ⟨hsame, hsame'⟩
  · exact fun host hknown => h'.known host (h.known host hknown)

/-! ## Live pollers -/

/-- Where names are absorbed, the next one goes to a live poller. -/
theorem Absorbs.least_connected (h : db.Absorbs (n + 1)) (hcore : db.Core) {m : ℕ × List Bytes}
    (hleast : db.pollerdb.least = some m) : db.connected m.1 = true := by
  obtain ⟨hmem, hahead⟩ := Bins.least_spec hcore.sorted hleast
  by_contra hdead
  rw [Bool.not_eq_true] at hdead
  obtain ⟨e, he, hlive, hbefore⟩ :=
    Bins.exists_ahead_of_room (n.succ_pos.trans_le (h m hmem hdead))
  rcases hahead e he with rfl | hafter
  · rw [hdead] at hlive
    cases hlive
  · exact hbefore.asymm hafter

/-- A name uses up the room for one. -/
theorem Absorbs.assigned (h : db.Absorbs (n + 1)) (hcore : db.Core) {m : ℕ × List Bytes}
    (hleast : db.pollerdb.least = some m) (host : Bytes) :
    (db.assigned m.1 host).Absorbs n := by
  intro d hd hdead
  obtain ⟨hmem, hahead⟩ := Bins.least_spec hcore.sorted hleast
  have hlive := h.least_connected hcore hleast
  have hne : d.1 ≠ m.1 := by
    intro heq
    rw [← heq] at hlive
    exact Bool.noConfusion (hlive.symm.trans hdead)
  have hold : d ∈ db.pollerdb := Bins.mem_of_mem_place hd hne
  have hafter : Bins.Ahead m d := (hahead d hold).resolve_left fun heq => hne (by rw [heq])
  have hroom := Bins.room_place hcore.sorted hmem hlive hafter host
  have hle := h d hold hdead
  show n ≤ Bins.room db.connected d (db.pollerdb.place m.1 host)
  omega

/-- Handing on and popping the front entry. -/
theorem carries_dequeued {front : Bytes} {rest : List Bytes} (hqueue : db.pollerq = front :: rest)
    (hmem : front ∈ db₁.hadb) (hsub : ∀ x ∈ db.hadb, x ∈ db₁.hadb)
    (hconnected : db₁.connected = db.connected) (hstale : db₁.staleRead = db.staleRead)
    (hpopped : db₁.popped = db.popped) : Carries db (db₁.dequeued front front rest) := by
  refine ⟨hconnected, hstale, ⟨[(front, front)], ?_, ?_⟩, fun x hx => ?_⟩
  · rw [dequeued, hpopped]
  · exact List.forall_mem_singleton.mpr rfl
  · rcases hx with hx | hx
    · exact Or.inl (hsub x hx)
    · rw [hqueue] at hx
      rcases List.mem_cons.mp hx with rfl | hx
      · exact Or.inl hmem
      · exact Or.inr hx

/-- **One round with live pollers**: the front of the queue is assigned and popped. -/
theorem processQueueLoop_succ {front : Bytes} {rest : List Bytes}
    (hqueue : db.pollerq = front :: rest) (hcore : db.Core) (hne : db.pollerdb ≠ [])
    (habs : db.Absorbs (n + 1)) :
    ∃ db₁, db₁.Core ∧ db₁.pollerdb ≠ [] ∧ db₁.Absorbs n ∧ db₁.pollerq = rest ∧ Carries db db₁ ∧
      ∀ k, processQueueLoop f (k + 1) db = processQueueLoop f k db₁ := by
  by_cases hmem : front ∈ db.hadb
  · refine ⟨db.dequeued front front rest, ⟨hcore.sorted, hcore.nodup, hcore.hadb⟩, hne, ?_, rfl,
      carries_dequeued hqueue hmem (fun _ h => h) rfl rfl rfl, fun k => ?_⟩
    · exact fun d hd hdead => (Nat.le_succ n).trans (habs d hd hdead)
    · rw [processQueueLoop_of_cons hqueue hne, assignHomeAgent_of_mem hmem]
      show (db.pop front >>= _) = _
      rw [pop_of_cons hqueue]
      rfl
  · cases hleast : db.pollerdb.least with
    | none => exact absurd (Bins.least_eq_none_iff.mp hleast) hne
    | some m =>
        obtain ⟨hm, -⟩ := Bins.least_spec hcore.sorted hleast
        have hlive := habs.least_connected hcore hleast
        have hcore' := hcore.assigned hmem hm
        refine ⟨(db.assigned m.1 front).dequeued front front rest,
          ⟨hcore'.sorted, hcore'.nodup, hcore'.hadb⟩, ?_, habs.assigned hcore hleast front, rfl,
          carries_dequeued hqueue (Finset.mem_insert_self _ _)
            (fun _ h => Finset.mem_insert_of_mem h) rfl rfl rfl, fun k => ?_⟩
        · exact Bins.place_ne_nil hne
        · rw [processQueueLoop_of_cons hqueue hne, assignHomeAgent_of_least hmem hleast,
            if_pos hlive]
          show ((db.assigned m.1 front).pop front >>= _) = _
          rw [pop_of_cons (show (db.assigned m.1 front).pollerq = front :: rest from hqueue)]
          rfl

/-- **Live pollers empty the queue.** -/
theorem processQueue_of_absorbs (hcore : db.Core) (hne : db.pollerdb ≠ [])
    (habs : db.Absorbs db.pollerq.length) :
    ∃ db', processQueue f db = .ok db' ∧ db'.Settled ∧ Carries db db' := by
  unfold processQueue
  generalize hn : db.pollerq.length = n at habs
  induction n generalizing db with
  | zero =>
      have hnil : db.pollerq = [] := List.eq_nil_of_length_eq_zero hn
      exact ⟨db, rfl, ⟨hcore, Or.inl hnil⟩, Carries.refl db⟩
  | succ n ih =>
      obtain ⟨front, rest, hqueue⟩ := List.exists_cons_of_length_eq_add_one hn
      obtain ⟨db₁, hcore₁, hne₁, habs₁, hqueue₁, hcarries, hround⟩ :=
        processQueueLoop_succ hqueue hcore hne habs
      have hn₁ : db₁.pollerq.length = n := by
        rw [hqueue₁]
        rw [hqueue, List.length_cons] at hn
        omega
      obtain ⟨db', hloop, hsettled, hcarries'⟩ := ih hcore₁ hne₁ hn₁ habs₁
      exact ⟨db', (hround n).trans hloop, hsettled, hcarries.trans hcarries'⟩

/-! ## A sole dying poller -/

/-- The failure of the only poller: its names are queued, and then the name it was handed. -/
theorem sendFailure_of_sole {depth poller : ℕ} {halist : List Bytes} (hcore : db.Core)
    (hsole : db.pollerdb = [(poller, halist)]) {ref : HostRef}
    (hvalid : ∀ n, ref.entry = some n → db.popped.length ≤ n) :
    sendFailure (depth + 1) db poller ref
      = .ok ((db.released poller halist).enqueued ref.value) := by
  have hmem : (poller, halist) ∈ db.pollerdb := by simp [hsole]
  have hnil : (db.released poller halist).pollerdb = [] := by
    simp [released, hsole, Bins.erase]
  have hread : (db.released poller halist).read ref = db.released poller halist :=
    read_of_valid hvalid
  rw [sendFailure, pollerDisconnected_eq hcore hmem, processQueue, processQueueLoop_of_nil hnil]
  show addHomeAgent _ ((db.released poller halist).read ref) ref.value = _
  rw [hread, addHomeAgent_of_nil hnil]

/-- The round in which a sole dying poller is handed a new name is the last. -/
theorem processQueueLoop_of_sole_new {depth poller : ℕ} {halist rest : List Bytes} {front : Bytes}
    (hcore : db.Core) (hsole : db.pollerdb = [(poller, halist)])
    (hdead : db.connected poller = false) (hqueue : db.pollerq = front :: rest)
    (hnew : front ∉ db.hadb) :
    ∃ db', processQueueLoop (sendFailure (depth + 1)) (n + 1) db = .ok db' ∧ db'.Settled ∧
      Carries db db' := by
  have hne : db.pollerdb ≠ [] := by simp [hsole]
  have hleast : db.pollerdb.least = some (poller, halist) := by
    rw [hsole]
    exact List.argmin_singleton
  have hcore' := hcore.assigned hnew (Bins.least_spec hcore.sorted hleast).1
  have hsole' : (db.assigned poller front).pollerdb = [(poller, halist ++ [front])] := by
    simp [assigned, hsole, Bins.place]
  let back := (db.assigned poller front).released poller (halist ++ [front])
  have hback : back.Core := hcore'.released (by rw [hsole']; exact List.mem_cons_self)
  have hnil : back.pollerdb = [] := by
    simp [back, released, hsole', Bins.erase]
  have hqueue' : (back.enqueued front).pollerq
      = front :: (rest ++ (halist ++ [front]) ++ [front]) := by
    show db.pollerq ++ _ ++ _ = _
    rw [hqueue]
    rfl
  rw [processQueueLoop_of_cons hqueue hne, assignHomeAgent_of_least hnew hleast, hdead,
    if_neg Bool.false_ne_true,
    sendFailure_of_sole hcore' hsole' fun _ h => (Option.some.inj h).le]
  show ∃ db', ((back.enqueued front).pop front >>= _) = _ ∧ _
  rw [pop_of_cons hqueue']
  let last := (back.enqueued front).dequeued front front (rest ++ (halist ++ [front]) ++ [front])
  have hlast : last.pollerdb = [] := hnil
  refine ⟨last, processQueueLoop_of_nil hlast n,
    ⟨⟨hback.sorted, hback.nodup, hback.hadb⟩, Or.inr hnil⟩, rfl, rfl,
    ⟨[(front, front)], rfl, List.forall_mem_singleton.mpr rfl⟩, fun x hx => Or.inr ?_⟩
  show x ∈ rest ++ (halist ++ [front]) ++ [front]
  rcases hx with hx | hx
  · rw [hcore.hadb, hsole] at hx
    simp only [Bins.items, List.flatMap_cons, List.flatMap_nil, List.append_nil] at hx
    simp [hx]
  · rw [hqueue] at hx
    rcases List.mem_cons.mp hx with rfl | hx
    · simp
    · simp [hx]

/-- **A sole dying poller gives everything back**: its names and the one it was handed are
queued again, and the entry popped is the one handed on. -/
theorem processQueueLoop_of_sole {depth poller : ℕ} {halist : List Bytes} (hcore : db.Core)
    (hsole : db.pollerdb = [(poller, halist)]) (hdead : db.connected poller = false)
    (hn : db.pollerq.length ≤ n) :
    ∃ db', processQueueLoop (sendFailure (depth + 1)) n db = .ok db' ∧ db'.Settled ∧
      Carries db db' := by
  have hne : db.pollerdb ≠ [] := by simp [hsole]
  induction n generalizing db with
  | zero =>
      have hnil : db.pollerq = [] := List.eq_nil_of_length_eq_zero (Nat.le_zero.mp hn)
      exact ⟨db, rfl, ⟨hcore, Or.inl hnil⟩, Carries.refl db⟩
  | succ n ih =>
      rcases hqueue : db.pollerq with _ | ⟨front, rest⟩
      · exact ⟨db, processQueueLoop_of_empty hqueue _, ⟨hcore, Or.inl hqueue⟩, Carries.refl db⟩
      · by_cases hmem : front ∈ db.hadb
        · rw [processQueueLoop_of_cons hqueue hne, assignHomeAgent_of_mem hmem]
          show ∃ db', (db.pop front >>= _) = _ ∧ _
          rw [pop_of_cons hqueue]
          have hlen : rest.length ≤ n := by
            rw [hqueue, List.length_cons] at hn
            omega
          have hcarries := carries_dequeued hqueue hmem (fun _ h => h) rfl rfl rfl
          obtain ⟨db', hloop, hsettled, hcarries'⟩ :=
            ih (show (db.dequeued front front rest).Core from
              ⟨hcore.sorted, hcore.nodup, hcore.hadb⟩) hsole hdead hlen hne
          exact ⟨db', hloop, hsettled, hcarries.trans hcarries'⟩
        · exact processQueueLoop_of_sole_new hcore hsole hdead hqueue hmem

/-! ## Operations -/

/-- The names in the queue can be redistributed: there is at most one poller, or the live
pollers take them all. -/
def Redistributes (db : Homeagentdb) (n : ℕ) : Prop := db.pollerdb.length ≤ 1 ∨ db.Absorbs n

/-- **`process_queue` keeps the invariant** where the queue can be redistributed. -/
theorem processQueue_settled {depth : ℕ} (hcore : db.Core)
    (hcond : db.Redistributes db.pollerq.length) (hdepth : db.pollerdb.length ≤ depth) :
    ∃ db', processQueue (sendFailure depth) db = .ok db' ∧ db'.Settled ∧ Carries db db' := by
  by_cases hnil : db.pollerdb = []
  · exact ⟨db, processQueueLoop_of_nil hnil _, ⟨hcore, Or.inr hnil⟩, Carries.refl db⟩
  · rcases hcond with hone | habs
    · have hpos := List.length_pos_iff.mpr hnil
      obtain ⟨⟨poller, halist⟩, hsole⟩ := List.length_eq_one_iff.mp (hone.antisymm hpos)
      cases hconn : db.connected poller with
      | true =>
          apply processQueue_of_absorbs hcore hnil
          intro d hd hdead
          rw [hsole, List.mem_singleton] at hd
          rw [hd, hconn] at hdead
          cases hdead
      | false =>
          obtain ⟨depth, rfl⟩ := Nat.exists_eq_add_of_le' (hpos.trans_le hdepth)
          exact processQueueLoop_of_sole hcore hsole hconn le_rfl
    · exact processQueue_of_absorbs hcore hnil habs

/-- The condition on an operation: the names that are queued again, those of the poller that is
disconnected or of the dying one that would be handed the new name, can be redistributed over
the other pollers. -/
def RedistributesAt (db : Homeagentdb) : Event → Prop
  | .pollerConnected _ => True
  | .pollerDisconnected ptr => ∀ halist, (ptr, halist) ∈ db.pollerdb →
      (db.released ptr halist).Redistributes halist.length
  | .addHomeAgent hahostname => hahostname ∉ db.hadb →
      ∀ ptr halist, db.pollerdb.least = some (ptr, halist) → db.connected ptr = false →
        (db.released ptr halist).Redistributes (halist.length + 1)
  | .store _ _ => True

theorem carries_released (db : Homeagentdb) (poller : ℕ) (halist : List Bytes) :
    Carries db (db.released poller halist) where
  connected := rfl
  staleRead := rfl
  popped := ⟨[], (List.append_nil _).symm, List.forall_mem_nil _⟩
  known _ h := known_released _ h

/-- With a poller there is nothing in the queue. -/
theorem Settled.queue_eq_nil (h : db.Settled) {e : ℕ × List Bytes} (he : e ∈ db.pollerdb) :
    db.pollerq = [] := by
  apply h.idle.resolve_right
  intro hnil
  rw [hnil] at he
  exact List.not_mem_nil he

theorem pollerConnected_settled (h : db.Settled) (ptr : ℕ) :
    ∃ db', perform db (.pollerConnected ptr) = .ok db' ∧ db'.Settled ∧ Carries db db' := by
  let opened : Homeagentdb := { db with pollerdb := db.pollerdb.insert ptr }
  have hcore : opened.Core := h.toCore.opened ptr
  have hcond : opened.Redistributes opened.pollerq.length := by
    rcases h.idle with hqueue | hnil
    · right
      intro d _ _
      show db.pollerq.length ≤ _
      rw [hqueue]
      exact Nat.zero_le _
    · left
      show (db.pollerdb.insert ptr).length ≤ 1
      rw [hnil]
      exact le_rfl
  obtain ⟨db', hok, hsettled, hcarries⟩ := processQueue_settled hcore hcond
    (Bins.length_insert_le ptr db.pollerdb)
  exact ⟨db', hok, hsettled, hcarries.connected, hcarries.staleRead, hcarries.popped,
    hcarries.known⟩

theorem pollerDisconnected_settled (h : db.Settled) {ptr : ℕ} (hptr : ptr ∈ db.pollerdb.keys)
    (hcond : db.RedistributesAt (.pollerDisconnected ptr)) :
    ∃ db', perform db (.pollerDisconnected ptr) = .ok db' ∧ db'.Settled ∧ Carries db db' := by
  obtain ⟨halist, hmem⟩ := Bins.mem_keys.mp hptr
  have hqueue : (db.released ptr halist).pollerq = halist := by
    show db.pollerq ++ halist = halist
    rw [h.queue_eq_nil hmem]
    rfl
  have hcond' := hcond halist hmem
  rw [← hqueue] at hcond'
  have hlen := Bins.length_erase h.sorted hmem
  obtain ⟨db', hok, hsettled, hcarries⟩ := processQueue_settled (h.toCore.released hmem) hcond'
    (show (db.pollerdb.erase ptr).length ≤ db.pollerdb.length by omega)
  refine ⟨db', ?_, hsettled, (carries_released db ptr halist).trans hcarries⟩
  rw [perform, pollerDisconnected_eq h.toCore hmem]
  exact hok

theorem carries_enqueued (db : Homeagentdb) (host : Bytes) : Carries db (db.enqueued host) where
  connected := rfl
  staleRead := rfl
  popped := ⟨[], (List.append_nil _).symm, List.forall_mem_nil _⟩
  known _ h := h.imp_right (List.mem_append_left _)

theorem carries_assigned (db : Homeagentdb) (poller : ℕ) (host : Bytes) :
    Carries db (db.assigned poller host) where
  connected := rfl
  staleRead := rfl
  popped := ⟨[], (List.append_nil _).symm, List.forall_mem_nil _⟩
  known _ h := h.imp_left Finset.mem_insert_of_mem

/-- Without a poller a name waits. -/
theorem addHomeAgent_settled_of_nil (h : db.Settled) (hnil : db.pollerdb = []) (host : Bytes) :
    ∃ db', addHomeAgent f db host = .ok db' ∧ db'.Settled ∧ Carries db db' ∧ db'.Known host := by
  refine ⟨_, addHomeAgent_of_nil hnil, ⟨⟨h.sorted, h.nodup, h.hadb⟩, Or.inr hnil⟩,
    carries_enqueued db host, Or.inr ?_⟩
  exact List.mem_append_right _ (List.mem_singleton_self _)

/-- Adding a name that is known already changes nothing, or queues it once more. -/
theorem addHomeAgent_settled_of_known (h : db.Settled) (hknown : db.Known host) :
    ∃ db', addHomeAgent f db host = .ok db' ∧ db'.Settled ∧ Carries db db' ∧ db'.Known host := by
  by_cases hnil : db.pollerdb = []
  · exact addHomeAgent_settled_of_nil h hnil host
  · have hmem : host ∈ db.hadb := by
      rcases hknown with hmem | hmem
      · exact hmem
      · rw [h.idle.resolve_right hnil] at hmem
        exact absurd hmem List.not_mem_nil
    rw [addHomeAgent, if_pos hnil]
    exact ⟨db, if_pos hmem, h, Carries.refl db, hknown⟩

/-- **The failure of a poller that has just been handed a new name**: all its names are
redistributed over the others. -/
theorem sendFailure_settled {depth ptr : ℕ} {halist : List Bytes} (h : db.Settled)
    (hnew : host ∉ db.hadb) (hptr : (ptr, halist) ∈ db.pollerdb)
    (hdepth : db.pollerdb.length = depth + 1)
    (hcond : (db.released ptr halist).Redistributes (halist.length + 1)) :
    ∃ db', sendFailure (depth + 1) (db.assigned ptr host) ptr ⟨host, none⟩ = .ok db' ∧
      db'.Settled ∧ Carries db db' ∧ db'.Known host := by
  let again := (db.assigned ptr host).released ptr (halist ++ [host])
  have hcore := h.toCore.assigned hnew hptr
  have hptr' := Bins.mem_place hptr host
  have hpollers : again.pollerdb = (db.released ptr halist).pollerdb :=
    Bins.erase_place ptr host db.pollerdb
  have hqueue : again.pollerq.length = halist.length + 1 := by
    show (db.pollerq ++ (halist ++ [host])).length = _
    rw [h.queue_eq_nil hptr, List.nil_append, List.length_append, List.length_singleton]
  have hlen : again.pollerdb.length ≤ depth := by
    have herase := Bins.length_erase h.sorted hptr
    rw [hpollers]
    show (db.pollerdb.erase ptr).length ≤ depth
    omega
  have hcond' : again.Redistributes again.pollerq.length := by
    rw [hqueue, Redistributes, Absorbs, hpollers]
    exact hcond
  obtain ⟨db₁, hok, hsettled, hcarries⟩ := processQueue_settled (hcore.released hptr') hcond' hlen
  have hknown : db₁.Known host :=
    hcarries.known host (known_released host (Or.inl (Finset.mem_insert_self _ _)))
  obtain ⟨db', hadd, hsettled', hcarries', hknown'⟩ :=
    addHomeAgent_settled_of_known (f := sendFailure depth) hsettled hknown
  refine ⟨db', ?_, hsettled', ?_, hknown'⟩
  · rw [sendFailure, pollerDisconnected_eq hcore hptr', hok]
    exact hadd
  · exact (carries_assigned db ptr host).trans
      ((carries_released _ _ _).trans (hcarries.trans hcarries'))

theorem addHomeAgent_settled (h : db.Settled) (hcond : db.RedistributesAt (.addHomeAgent host)) :
    ∃ db', perform db (.addHomeAgent host) = .ok db' ∧ db'.Settled ∧ Carries db db' ∧
      db'.Known host := by
  by_cases hnil : db.pollerdb = []
  · exact addHomeAgent_settled_of_nil h hnil host
  · rw [perform, addHomeAgent, if_pos hnil]
    by_cases hmem : host ∈ db.hadb
    · exact ⟨db, if_pos hmem, h, Carries.refl db, Or.inl hmem⟩
    · rcases hleast : db.pollerdb.least with _ | ⟨ptr, halist⟩
      · exact absurd (Bins.least_eq_none_iff.mp hleast) hnil
      · obtain ⟨hptr, -⟩ := Bins.least_spec h.sorted hleast
        rw [assignHomeAgent_of_least hmem hleast]
        cases hconn : db.connected ptr with
        | true =>
            exact ⟨_, if_pos rfl, ⟨h.toCore.assigned hmem hptr, Or.inl (h.queue_eq_nil hptr)⟩,
              carries_assigned db ptr host, Or.inl (Finset.mem_insert_self _ _)⟩
        | false =>
            obtain ⟨depth, hdepth⟩ := Nat.exists_eq_add_of_le' (List.length_pos_of_mem hptr)
            rw [if_neg Bool.false_ne_true, hdepth]
            exact sendFailure_settled h hmem hptr hdepth (hcond hmem ptr halist hleast hconn)

/-- **An operation whose names can be redistributed keeps the invariant.** -/
theorem perform_settled {e : Event} (h : db.Settled) (hallowed : db.Allowed e)
    (hcond : db.RedistributesAt e) (hop : ∀ ptr connected, e ≠ .store ptr connected) :
    ∃ db', db.perform e = .ok db' ∧ db'.Settled ∧ Carries db db' ∧
      ∀ host, e = .addHomeAgent host → db'.Known host := by
  cases e with
  | pollerConnected ptr =>
      obtain ⟨db', hok, hsettled, hcarries⟩ := pollerConnected_settled h ptr
      exact ⟨db', hok, hsettled, hcarries, fun host heq => by cases heq⟩
  | pollerDisconnected ptr =>
      obtain ⟨db', hok, hsettled, hcarries⟩ := pollerDisconnected_settled h hallowed hcond
      exact ⟨db', hok, hsettled, hcarries, fun host heq => by cases heq⟩
  | addHomeAgent hahostname =>
      obtain ⟨db', hok, hsettled, hcarries, hknown⟩ := addHomeAgent_settled h hcond
      refine ⟨db', hok, hsettled, hcarries, fun host heq => ?_⟩
      cases heq
      exact hknown
  | store ptr connected => exact absurd rfl (hop ptr connected)

/-! ## Runs without dying pollers -/

/-- Among live pollers everything can be redistributed. -/
theorem redistributesAt_of_connected (h : ∀ ptr, db.connected ptr = true) (e : Event) :
    db.RedistributesAt e := by
  have hall : ∀ ptr halist n, (db.released ptr halist).Redistributes n := by
    intro ptr halist n
    right
    intro d _ hdead
    exact Bool.noConfusion ((h d.1).symm.trans hdead)
  cases e with
  | pollerConnected ptr => trivial
  | pollerDisconnected ptr => exact fun halist _ => hall ptr halist _
  | addHomeAgent hahostname => exact fun _ ptr halist _ _ => hall ptr halist _
  | store ptr connected => trivial

theorem settled_initial : Settled {} where
  sorted := List.Pairwise.nil
  nodup := List.nodup_nil
  hadb host := iff_of_false (Finset.notMem_empty host) List.not_mem_nil
  idle := Or.inl rfl

/-- A step of the system is an allowed operation. -/
theorem step_eq_some_iff {s s' : Except Misuse Homeagentdb} {e : Event} :
    system.step s e = some s' ↔ ∃ db, s = .ok db ∧ db.Allowed e ∧ s' = db.perform e := by
  cases s with
  | error m => simp [system]
  | ok db =>
      simp only [system, Option.ite_none_right_eq_some, Option.some.injEq, Except.ok.injEq,
        exists_eq_left']
      exact and_congr_right fun _ => eq_comm

/-- What holds of the database in a run without dying pollers. -/
structure Sound (tr : List (Transition (Except Misuse Homeagentdb) Event)) (db : Homeagentdb) :
    Prop where
  settled : db.Settled
  live : ∀ ptr, db.connected ptr = true
  known : ∀ t ∈ tr, ∀ host, t.event = .addHomeAgent host → db.Known host

theorem Sound.step {tr : List (Transition (Except Misuse Homeagentdb) Event)} (h : Sound tr db)
    {e : Event} (hallowed : db.Allowed e) (hlive : ∀ ptr, e ≠ .store ptr false) :
    ∃ db', db.perform e = .ok db' ∧ Sound (tr ++ [⟨.ok db, e, .ok db'⟩]) db' := by
  by_cases hop : ∃ ptr connected, e = .store ptr connected
  · obtain ⟨ptr, connected, rfl⟩ := hop
    refine ⟨_, rfl, ⟨⟨h.settled.sorted, h.settled.nodup, h.settled.hadb⟩, h.settled.idle⟩, ?_, ?_⟩
    · intro ptr'
      have htrue : connected = true := by
        cases connected with
        | true => rfl
        | false => exact absurd rfl (hlive ptr)
      show Function.update db.connected ptr connected ptr' = true
      rw [Function.update_apply]
      split
      · exact htrue
      · exact h.live ptr'
    · intro t ht host heq
      rcases List.mem_append.mp ht with ht | ht
      · exact h.known t ht host heq
      · rw [List.mem_singleton.mp ht] at heq
        cases heq
  · push Not at hop
    obtain ⟨db', hok, hsettled, hcarries, hadded⟩ :=
      perform_settled h.settled hallowed (redistributesAt_of_connected h.live e) hop
    refine ⟨db', hok, hsettled, fun ptr => by rw [hcarries.connected, h.live], ?_⟩
    intro t ht host heq
    rcases List.mem_append.mp ht with ht | ht
    · exact hcarries.known host (h.known t ht host heq)
    · rw [List.mem_singleton.mp ht] at heq
      exact hadded host heq

/-- **Home agents are assigned once.**  In every run without dying pollers the lists of the
pollers are disjoint and without duplicates and hold exactly the names in `hadb_`, names wait
only while there is no poller, and every name ever added is assigned or waits. -/
theorem home_agents_assigned_once {tr : List (Transition (Except Misuse Homeagentdb) Event)}
    {s : Except Misuse Homeagentdb} (h : Run system tr s)
    (hlive : ∀ t ∈ tr, ∀ ptr, t.event ≠ .store ptr false) :
    ∃ db, s = .ok db ∧
      ((∀ e ∈ db.pollerdb, e.2.Nodup) ∧ db.pollerdb.Pairwise fun x y => x.2.Disjoint y.2) ∧
      (∀ host, host ∈ db.hadb ↔ ∃ e ∈ db.pollerdb, host ∈ e.2) ∧
      (db.pollerq ≠ [] → db.pollerdb = []) ∧
      ∀ t ∈ tr, ∀ host, t.event = .addHomeAgent host → db.Known host := by
  have hsound : ∃ db, s = .ok db ∧ Sound tr db := by
    refine Run.invariant_trace (J := fun tr s =>
      (∀ t ∈ tr, ∀ ptr, t.event ≠ .store ptr false) → ∃ db, s = .ok db ∧ Sound tr db)
      ?_ ?_ h hlive
    · rintro s rfl _
      exact ⟨{}, rfl, settled_initial, fun _ => rfl, List.forall_mem_nil _⟩
    · intro tr s e s' _ ih hstep hlive
      obtain ⟨db, rfl, hsound⟩ := ih fun t ht => hlive t (List.mem_append_left _ ht)
      obtain ⟨db₀, heq, hallowed, rfl⟩ := step_eq_some_iff.mp hstep
      cases heq
      obtain ⟨db', hok, hsound'⟩ := hsound.step hallowed (hlive _ (Run.last_mem tr _))
      rw [hok]
      exact ⟨db', rfl, hsound'⟩
  obtain ⟨db, rfl, hsound⟩ := hsound
  obtain ⟨hnodup, hdisjoint⟩ := List.nodup_flatMap.mp hsound.settled.nodup
  refine ⟨db, rfl, ⟨hnodup, hdisjoint⟩, fun host => ?_, ?_, hsound.known⟩
  · rw [hsound.settled.hadb, Bins.items, List.mem_flatMap]
  · exact fun hne => hsound.settled.idle.resolve_left hne

/-- Two pollers and two home agents; then the first poller is disconnected. -/
def firstPollerLeaves : List Event :=
  [.pollerConnected 0, .pollerConnected 1, .addHomeAgent [97], .addHomeAgent [98],
    .pollerDisconnected 0]

/-- The lists of the pollers, if no operation has gone wrong. -/
def lists (s : Except Misuse Homeagentdb) : Bins ℕ Bytes :=
  match s with
  | .ok db => db.pollerdb
  | .error _ => []

theorem firstPollerLeaves_assigned : ∃ tr db, Run system tr (.ok db) ∧
    tr.map Transition.event = firstPollerLeaves ∧ db.pollerdb = [(1, [[98], [97]])] ∧
    (db.pollerdb.Pairwise fun x y => x.2.Disjoint y.2) ∧
    ∀ t ∈ tr, ∀ host, t.event = .addHomeAgent host → db.Known host := by
  have hexec : (system.exec (.ok {}) firstPollerLeaves).map lists = some [(1, [[98], [97]])] := by
    decide
  obtain ⟨s, hs, hlists⟩ := Option.map_eq_some_iff.mp hexec
  obtain ⟨tr, hrun, hevents⟩ := Run.of_exec rfl hs
  have hlive : ∀ t ∈ tr, ∀ ptr, t.event ≠ .store ptr false := by
    intro t ht ptr heq
    have hmem : t.event ∈ firstPollerLeaves := hevents ▸ List.mem_map_of_mem ht
    rw [heq] at hmem
    simp [firstPollerLeaves] at hmem
  obtain ⟨db, rfl, ⟨-, hdisjoint⟩, -, -, hknown⟩ := home_agents_assigned_once hrun hlive
  exact ⟨tr, db, hrun, hevents, hlists, hdisjoint, hknown⟩

end Homeagentdb
