/-
# Registering names at the home agents

The test client registers a number of names at each home agent.  An `ha_register` takes
as many tokens from the counter that all of them share as it may have connections, and
starts a chain of requests for each: a request that succeeds is followed by the next
one of its chain until the names have run out, and then, or after an error, the chain
gives its token back.  An `ha_register` that received fewer tokens than it asked for
waits, and its `async_run` is called again by the counter.

`tokens_conserved` : in every run, the free tokens and the live chains make up the initial
tokens, no home agent has more chains than it may, and no name is issued twice.
-/
import Pweb.TestClient.HaChecker
import Pweb.TestClient.TokenCounter

namespace TestClient

/-- The home agents and the options of a run of the test client. -/
structure Options where
  halist : List Haconfig
  maxconn : UInt64
  maxconnha : UInt64
  numnames : UInt64

/-- `ha_register`, with the indices of the names it has issued so far. -/
structure HaRegister where
  maxconns : UInt64
  activeconns : UInt64
  namenum : UInt64
  issued : List UInt64

/-- The constructor of `ha_register`. -/
def HaRegister.new (numnames maxconns : UInt64) : HaRegister := ⟨maxconns, 0, numnames, []⟩

/-- `--namenum_`, which is the index of the next name. -/
def HaRegister.issue (r : HaRegister) : HaRegister :=
  { r with namenum := r.namenum - 1, issued := r.issued ++ [r.namenum - 1] }

/-- `activeconns_ += num`. -/
def HaRegister.activate (num : UInt64) (r : HaRegister) : HaRegister :=
  { r with activeconns := r.activeconns + num }

/-- `requestedtoks` of `async_run`. -/
def HaRegister.requestedtoks (r : HaRegister) : UInt64 :=
  min (r.maxconns - r.activeconns) r.namenum

/-- A request that has been fetched and has not completed: its home agent and its name. -/
structure HttpRequest where
  ha : ℕ
  name : UInt64

/-- The registrations: the shared counter, in whose queue a home agent stands for the
`async_run` bound to it, the `ha_register` of each home agent, the position of the loop of
`register_names`, and the requests in flight, one for each live chain. -/
structure Registration where
  counter : TokenCounter ℕ
  registers : ℕ → HaRegister
  first : ℕ
  inFlight : List HttpRequest

namespace Registration

/-- The live request chains of a home agent. -/
def live (w : Registration) (ha : ℕ) : ℕ := w.inFlight.countP (·.ha = ha)

/-- `ha_register::register_name`. -/
def registerName (ha : ℕ) (w : Registration) : Registration :=
  let r := (w.registers ha).issue
  { w with
    registers := Function.update w.registers ha r
    inFlight := w.inFlight ++ [⟨ha, r.namenum⟩] }

/-- The loop of `async_run`. -/
def registerNames (ha : ℕ) : ℕ → Registration → Registration
  | 0, w => w
  | k + 1, w => registerNames ha k (registerName ha w)

/-- `async_run` between its request and its last line: `received` chains are started. -/
def connect (ha : ℕ) (received : UInt64) (w : Registration) : Registration :=
  let w := registerNames ha received.toNat w
  { w with registers := Function.update w.registers ha ((w.registers ha).activate received) }

/-- `ha_register::async_run`. -/
def asyncRun (ha : ℕ) (w : Registration) : Registration :=
  let requested := (w.registers ha).requestedtoks
  let (received, counter) := w.counter.request requested
  let w := connect ha received { w with counter }
  if received < requested then { w with counter := w.counter.wait ha } else w

/-- `cbqueue_.pop()`. -/
def popQueue (w : Registration) : Registration := { w with counter := w.counter.pop }

/-- `token_counter::notify`, at most `fuel` rounds; `notify_next` : the queue is long
enough for all of them. -/
def notify : ℕ → Registration → Registration
  | 0, w => w
  | fuel + 1, w =>
    match w.counter.next with
    | none => w
    | some ha => notify fuel (popQueue (asyncRun ha w))

/-- `token_counter::release`. -/
def release (num : UInt64) (w : Registration) : Registration :=
  let counter := w.counter.add num
  notify counter.cbqueue.length { w with counter }

/-- `ha_register::handle_register_name`. -/
def handleRegisterName (ha : ℕ) (ok : Bool) (w : Registration) : Registration :=
  if ok then
    if (w.registers ha).namenum > 0 then registerName ha w else release 1 w
  else release 1 w

/-- The next round of the loop of `register_names`, or the completion of the `i`-th request
in flight. -/
inductive Event
  | next
  | complete (i : ℕ) (ok : Bool)

def step (opts : Options) (w : Registration) : Event → Option Registration
  | .next =>
    match opts.halist[w.first]? with
    | none => none
    | some haconfig =>
      let w' := { w with first := w.first + 1 }
      some (if haconfig.status = .good then asyncRun w.first w' else w')
  | .complete i ok =>
    match w.inFlight[i]? with
    | none => none
    | some request =>
      some (handleRegisterName request.ha ok { w with inFlight := w.inFlight.eraseIdx i })

/-- Before the loop of `register_names`. -/
def init (opts : Options) : Registration :=
  ⟨⟨opts.maxconn, []⟩, fun _ => .new opts.numnames opts.maxconnha, 0, []⟩

def system (opts : Options) : TransitionSystem Registration Event where
  init w := w = init opts
  step := step opts


end Registration

/-! ## What a register keeps -/

/-- The names that are left and those that have been issued: the issued ones are the
indices from `namenum` upwards. -/
structure HaRegister.Names (numnames : UInt64) (r : HaRegister) : Prop where
  namenum_le : r.namenum ≤ numnames
  descending : r.issued.Pairwise (· > ·)
  above : ∀ name ∈ r.issued, r.namenum ≤ name ∧ name < numnames

/-- A register with `live` chains. -/
structure HaRegister.Within (opts : Options) (r : HaRegister) (live : ℕ) : Prop where
  maxconns_eq : r.maxconns = opts.maxconnha
  live_le : live ≤ r.activeconns.toNat
  active_le : r.activeconns ≤ opts.maxconnha
  names : r.Names opts.numnames

namespace HaRegister

variable {r : HaRegister} {numnames : UInt64}

theorem toNat_namenum_issue (h : 0 < r.namenum) :
    r.issue.namenum.toNat = r.namenum.toNat - 1 := by
  have hle : 1 ≤ r.namenum := UInt64.le_iff_toNat_le.mpr (UInt64.lt_iff_toNat_lt.mp h)
  exact UInt64.toNat_sub_of_le _ _ hle

/-- Issuing the next name. -/
theorem Names.issue (h : r.Names numnames) (hpos : 0 < r.namenum) : r.issue.Names numnames := by
  have hnat := toNat_namenum_issue hpos
  have hpos' : 0 < r.namenum.toNat := UInt64.lt_iff_toNat_lt.mp hpos
  have hle := UInt64.le_iff_toNat_le.mp h.namenum_le
  have hlt : r.issue.namenum < r.namenum := UInt64.lt_iff_toNat_lt.mpr (by omega)
  refine ⟨UInt64.le_trans (UInt64.le_of_lt hlt) h.namenum_le, ?_, ?_⟩
  · apply List.pairwise_append.mpr
    refine ⟨h.descending, List.pairwise_singleton _ _, fun name hname last hlast => ?_⟩
    rw [List.mem_singleton.mp hlast]
    exact UInt64.lt_of_lt_of_le hlt (h.above name hname).1
  · intro name hname
    rcases List.mem_append.mp hname with hname | hname
    · obtain ⟨habove, hbelow⟩ := h.above name hname
      exact ⟨UInt64.le_trans (UInt64.le_of_lt hlt) habove, hbelow⟩
    · rw [List.mem_singleton.mp hname]
      exact ⟨UInt64.le_refl _, UInt64.lt_of_lt_of_le hlt h.namenum_le⟩

/-- Issuing as many names as are left, or fewer. -/
theorem Names.iterate {k : ℕ} (h : r.Names numnames) (hk : k ≤ r.namenum.toNat) :
    (HaRegister.issue^[k] r).Names numnames := by
  induction k generalizing r with
  | zero => exact h
  | succ k ih =>
      have hpos : 0 < r.namenum := UInt64.lt_iff_toNat_lt.mpr (Nat.lt_of_lt_of_le k.succ_pos hk)
      rw [Function.iterate_succ_apply]
      apply ih (h.issue hpos)
      rw [toNat_namenum_issue hpos]
      omega

theorem issue_iterate (r : HaRegister) (k : ℕ) :
    (HaRegister.issue^[k] r).maxconns = r.maxconns ∧
      (HaRegister.issue^[k] r).activeconns = r.activeconns := by
  induction k generalizing r with
  | zero => exact ⟨rfl, rfl⟩
  | succ k ih =>
      rw [Function.iterate_succ_apply]
      exact ih r.issue

/-- The names issued are distinct and among those there are. -/
theorem Names.issued_spec (h : r.Names numnames) :
    r.issued.Nodup ∧ ∀ name ∈ r.issued, 0 ≤ name ∧ name < numnames := by
  refine ⟨h.descending.imp fun hgt => (UInt64.ne_of_lt hgt).symm, fun name hname => ?_⟩
  exact ⟨UInt64.zero_le, (h.above name hname).2⟩

end HaRegister

namespace Registration

variable {opts : Options} {w w' : Registration} {ha : ℕ}

/-! ## Starting requests -/

/-- `k` chains of the home agent `ha` go on with a request. -/
structure Starts (ha k : ℕ) (w w' : Registration) : Prop where
  counter : w'.counter = w.counter
  registers : w'.registers =
    Function.update w.registers ha (HaRegister.issue^[k] (w.registers ha))
  length : w'.inFlight.length = w.inFlight.length + k
  live : ∀ ha', w'.live ha' = w.live ha' + if ha' = ha then k else 0

theorem registerName_starts (ha : ℕ) (w : Registration) : Starts ha 1 w (registerName ha w) := by
  refine ⟨rfl, rfl, by simp [registerName], fun ha' => ?_⟩
  simp only [Registration.live, registerName, List.countP_append, List.countP_singleton]
  by_cases h : ha' = ha
  · simp [h]
  · simp [h, Ne.symm h]

theorem registerNames_starts (ha k : ℕ) (w : Registration) :
    Starts ha k w (registerNames ha k w) := by
  induction k generalizing w with
  | zero => exact ⟨rfl, (Function.update_eq_self ha _).symm, rfl, by simp [registerNames]⟩
  | succ k ih =>
      have hone := registerName_starts ha w
      have hrest := ih (registerName ha w)
      refine ⟨hrest.counter.trans hone.counter, ?_, ?_, fun ha' => ?_⟩
      · rw [registerNames, hrest.registers, hone.registers, Function.update_self,
          Function.update_idem, Function.iterate_succ_apply]
        rfl
      · rw [registerNames, hrest.length, hone.length]
        omega
      · rw [registerNames, hrest.live, hone.live]
        split <;> omega

/-! ## The counter in `async_run` and `notify` -/

theorem connect_counter (ha : ℕ) (received : UInt64) (w : Registration) :
    (connect ha received w).counter = w.counter :=
  (registerNames_starts ha received.toNat w).counter

/-- Of the counter `async_run` changes what its request and its `wait` do. -/
theorem asyncRun_counter (ha : ℕ) (w : Registration) :
    (asyncRun ha w).counter.numtokens = 0 ∨
      (asyncRun ha w).counter.cbqueue = w.counter.cbqueue := by
  have hqueue := (w.counter.request_spec (w.registers ha).requestedtoks).2.2
  simp only [asyncRun]
  split
  · next hlt =>
      left
      show (connect ha _ _).counter.numtokens = 0
      rw [connect_counter]
      exact TokenCounter.request_lt hlt
  · right
    rw [connect_counter]
    exact hqueue

theorem notify_of_next_none {fuel : ℕ} (h : w.counter.next = none) : notify fuel w = w := by
  cases fuel with
  | zero => rfl
  | succ fuel => rw [notify, h]

theorem notify_of_next {fuel : ℕ} (h : w.counter.next = some ha) :
    notify (fuel + 1) w = notify fuel (popQueue (asyncRun ha w)) := by
  rw [notify, h]

/-- **`notify` ends** within as many rounds as there are callbacks in the queue: then no
token is free, or no one waits. -/
theorem notify_next {fuel : ℕ} (h : w.counter.cbqueue.length ≤ fuel) :
    (notify fuel w).counter.next = none := by
  induction fuel generalizing w with
  | zero =>
      have hempty := List.eq_nil_of_length_eq_zero (Nat.le_zero.mp h)
      exact TokenCounter.next_eq_none_iff.mpr (.inr hempty)
  | succ fuel ih =>
      cases hnext : w.counter.next with
      | none => rwa [notify_of_next_none hnext]
      | some ha =>
          rw [notify_of_next hnext]
          rcases asyncRun_counter ha w with hzero | hqueue
          · have hdone : (popQueue (asyncRun ha w)).counter.next = none :=
              TokenCounter.next_eq_none_iff.mpr (.inl hzero)
            rwa [notify_of_next_none hdone]
          · apply ih
            show (asyncRun ha w).counter.cbqueue.tail.length ≤ fuel
            rw [hqueue, List.length_tail]
            omega

/-! ## The invariant -/

/-- Tokens are neither lost nor made, where chains that are being handled hold `held` of
them, and every register is within its bounds. -/
structure Conserved (opts : Options) (held : ℕ) (w : Registration) : Prop where
  tokens : w.counter.numtokens.toNat + w.inFlight.length + held = opts.maxconn.toNat
  within : ∀ ha, (w.registers ha).Within opts (w.live ha)

/-- The queue and the position of the loop of `register_names` do not matter. -/
theorem Conserved.congr {held : ℕ} (h : Conserved opts held w) {counter : TokenCounter ℕ}
    (first : ℕ) (htokens : counter.numtokens = w.counter.numtokens) :
    Conserved opts held { w with counter, first } :=
  ⟨by rw [htokens]; exact h.tokens, h.within⟩

/-- A register that is within its bounds asks for no more connections than it may still
have, and for no more than there are names left. -/
theorem requestedtoks_le {r : HaRegister} {live : ℕ} (h : r.Within opts live) :
    r.activeconns.toNat + r.requestedtoks.toNat ≤ opts.maxconnha.toNat ∧
      r.requestedtoks.toNat ≤ r.namenum.toNat := by
  have hactive := h.active_le
  have hconns : r.requestedtoks ≤ r.maxconns - r.activeconns := Std.min_le_left
  have hnames : r.requestedtoks ≤ r.namenum := Std.min_le_right
  rw [h.maxconns_eq] at hconns
  have hsub := UInt64.toNat_sub_of_le _ _ hactive
  have hactive := UInt64.le_iff_toNat_le.mp hactive
  have hconns := UInt64.le_iff_toNat_le.mp hconns
  exact ⟨by omega, UInt64.le_iff_toNat_le.mp hnames⟩

/-- A register within its bounds that starts no more chains than it asked for. -/
theorem within_activate {r : HaRegister} {live : ℕ} {received : UInt64} (h : r.Within opts live)
    (hle : received ≤ r.requestedtoks) :
    ((HaRegister.issue^[received.toNat] r).activate received).Within opts
      (live + received.toNat) := by
  have hle := UInt64.le_iff_toNat_le.mp hle
  obtain ⟨hconns, hnames⟩ := requestedtoks_le h
  obtain ⟨hmaxconns, hactive⟩ := r.issue_iterate received.toNat
  have hsum : (r.activeconns + received).toNat = r.activeconns.toNat + received.toNat := by
    have hbound := opts.maxconnha.toNat_lt
    rw [UInt64.toNat_add, Nat.mod_eq_of_lt (by omega)]
  have hlive_le := h.live_le
  have hissued := h.names.iterate (hle.trans hnames)
  refine ⟨hmaxconns.trans h.maxconns_eq, ?_, ?_,
    ⟨hissued.namenum_le, hissued.descending, hissued.above⟩⟩
  · rw [HaRegister.activate, hactive, hsum]
    omega
  · rw [HaRegister.activate, hactive, UInt64.le_iff_toNat_le, hsum]
    omega

/-- Tokens that were taken from the counter become chains. -/
theorem Conserved.connect {counter : TokenCounter ℕ} {received : UInt64}
    (h : Conserved opts 0 w)
    (htokens : counter.numtokens.toNat + received.toNat = w.counter.numtokens.toNat)
    (hle : received ≤ (w.registers ha).requestedtoks) :
    Conserved opts 0 (connect ha received { w with counter }) := by
  have hstarts := registerNames_starts ha received.toNat { w with counter }
  refine ⟨?_, fun ha' => ?_⟩
  · have htotal := h.tokens
    show (registerNames ha _ _).counter.numtokens.toNat +
      (registerNames ha _ _).inFlight.length + 0 = _
    rw [hstarts.counter, hstarts.length]
    show counter.numtokens.toNat + (w.inFlight.length + received.toNat) + 0 = _
    omega
  · show (Function.update (registerNames ha _ _).registers ha _ ha').Within opts
      ((registerNames ha _ _).live ha')
    rw [hstarts.live, hstarts.registers]
    show HaRegister.Within opts _ (w.live ha' + _)
    by_cases hha : ha' = ha
    · subst hha
      rw [Function.update_self, if_pos rfl, Function.update_self]
      exact within_activate (h.within ha') hle
    · rw [Function.update_of_ne hha, if_neg hha, Function.update_of_ne hha]
      exact h.within ha'

theorem Conserved.asyncRun (h : Conserved opts 0 w) (ha : ℕ) :
    Conserved opts 0 (asyncRun ha w) := by
  obtain ⟨hle, htokens, -⟩ := w.counter.request_spec (w.registers ha).requestedtoks
  have hconnected := h.connect htokens hle
  simp only [Registration.asyncRun]
  split
  · exact hconnected.congr _ rfl
  · exact hconnected

theorem Conserved.notify (h : Conserved opts 0 w) (fuel : ℕ) :
    Conserved opts 0 (notify fuel w) := by
  induction fuel generalizing w with
  | zero => exact h
  | succ fuel ih =>
      cases hnext : w.counter.next with
      | none => rwa [notify_of_next_none hnext]
      | some ha =>
          rw [notify_of_next hnext]
          exact ih ((h.asyncRun ha).congr _ rfl)

/-- A chain that ends gives its token back. -/
theorem Conserved.release (h : Conserved opts 1 w) : Conserved opts 0 (release 1 w) := by
  have htotal := h.tokens
  have hsum : (w.counter.numtokens + 1).toNat = w.counter.numtokens.toNat + 1 := by
    have hbound := opts.maxconn.toNat_lt
    rw [UInt64.toNat_add, Nat.mod_eq_of_lt]
    · rfl
    · show w.counter.numtokens.toNat + 1 < 2 ^ 64
      omega
  apply Conserved.notify
  refine ⟨?_, h.within⟩
  show (w.counter.numtokens + 1).toNat + w.inFlight.length + 0 = _
  rw [hsum]
  omega

/-! ## Completions -/

theorem live_eraseIdx {i : ℕ} {request : HttpRequest} (h : w.inFlight[i]? = some request)
    (ha : ℕ) : w.live ha = live { w with inFlight := w.inFlight.eraseIdx i } ha +
      if ha = request.ha then 1 else 0 := by
  obtain ⟨hi, hrequest⟩ := List.getElem?_eq_some_iff.mp h
  rw [live, live, ← (List.getElem_cons_eraseIdx_perm hi).countP_eq, List.countP_cons, hrequest]
  by_cases hha : ha = request.ha
  · simp [hha]
  · simp [hha, Ne.symm hha]

theorem length_inFlight {i : ℕ} {request : HttpRequest} (h : w.inFlight[i]? = some request) :
    w.inFlight.length = (w.inFlight.eraseIdx i).length + 1 := by
  obtain ⟨hi, -⟩ := List.getElem?_eq_some_iff.mp h
  rw [List.length_eraseIdx_of_lt hi]
  omega

/-- The request of a chain has completed; the chain still holds its token. -/
theorem Conserved.completed {i : ℕ} {request : HttpRequest} (h : Conserved opts 0 w)
    (hrequest : w.inFlight[i]? = some request) :
    Conserved opts 1 { w with inFlight := w.inFlight.eraseIdx i } := by
  refine ⟨?_, fun ha => ?_⟩
  · rw [← h.tokens, length_inFlight hrequest]
    ring
  · have hlive := live_eraseIdx hrequest ha
    have hwithin := h.within ha
    have hle : live { w with inFlight := w.inFlight.eraseIdx i } ha ≤ w.live ha := by
      rw [hlive]
      exact Nat.le_add_right _ _
    exact ⟨hwithin.maxconns_eq, hle.trans hwithin.live_le, hwithin.active_le, hwithin.names⟩

/-- The next request of the chain. -/
theorem Conserved.registerName {i : ℕ} {request : HttpRequest} (h : Conserved opts 0 w)
    (hrequest : w.inFlight[i]? = some request) (hnames : 0 < (w.registers request.ha).namenum) :
    Conserved opts 0
      (registerName request.ha { w with inFlight := w.inFlight.eraseIdx i }) := by
  have hstarts := registerName_starts request.ha { w with inFlight := w.inFlight.eraseIdx i }
  refine ⟨?_, fun ha => ?_⟩
  · rw [hstarts.counter, hstarts.length, ← h.tokens, length_inFlight hrequest]
  · rw [hstarts.live, ← live_eraseIdx hrequest, hstarts.registers]
    by_cases hha : ha = request.ha
    · subst hha
      have hwithin := h.within request.ha
      rw [Function.update_self]
      exact ⟨hwithin.maxconns_eq, hwithin.live_le, hwithin.active_le,
        hwithin.names.issue hnames⟩
    · rw [Function.update_of_ne hha]
      exact h.within ha

theorem Conserved.handleRegisterName {i : ℕ} {request : HttpRequest} (h : Conserved opts 0 w)
    (hrequest : w.inFlight[i]? = some request) (ok : Bool) :
    Conserved opts 0
      (handleRegisterName request.ha ok { w with inFlight := w.inFlight.eraseIdx i }) := by
  rw [Registration.handleRegisterName]
  split
  · split
    · next hnames => exact h.registerName hrequest hnames
    · exact (h.completed hrequest).release
  · exact (h.completed hrequest).release

/-! ## Whole runs -/

theorem Conserved.init (opts : Options) : Conserved opts 0 (init opts) := by
  refine ⟨rfl, fun ha => ⟨rfl, Nat.le_refl _, UInt64.zero_le, UInt64.le_refl _, .nil, ?_⟩⟩
  rintro name ⟨⟩

theorem Conserved.step {e : Event} (h : Conserved opts 0 w) (hstep : step opts w e = some w') :
    Conserved opts 0 w' := by
  cases e with
  | next =>
      rw [Registration.step] at hstep
      cases hha : opts.halist[w.first]? with
      | none =>
          rw [hha] at hstep
          cases hstep
      | some haconfig =>
          rw [hha] at hstep
          have hnext : Conserved opts 0 { w with first := w.first + 1 } := h.congr _ rfl
          cases hstep
          split
          · exact hnext.asyncRun w.first
          · exact hnext
  | complete i ok =>
      rw [Registration.step] at hstep
      cases hrequest : w.inFlight[i]? with
      | none =>
          rw [hrequest] at hstep
          cases hstep
      | some request =>
          rw [hrequest] at hstep
          cases hstep
          exact h.handleRegisterName hrequest ok

theorem Conserved.of_run {tr : List (Transition Registration Event)}
    (h : Run (system opts) tr w) : Conserved opts 0 w := by
  apply h.invariant
  · rintro w rfl
    exact .init opts
  · intro w e w' hw hstep
    exact hw.step hstep

/-- **Token conservation.**  In every state of every run the free tokens and the live
chains make up the initial tokens, no home agent has more than `maxconnha` live chains, and
the names issued for a home agent are distinct and among its `numnames`. -/
theorem tokens_conserved {tr : List (Transition Registration Event)}
    (h : Run (system opts) tr w) :
    w.counter.numtokens.toNat + w.inFlight.length = opts.maxconn.toNat ∧
      (∀ ha, w.live ha ≤ opts.maxconnha.toNat) ∧
      ∀ ha, (w.registers ha).issued.Nodup ∧
        ∀ name ∈ (w.registers ha).issued, 0 ≤ name ∧ name < opts.numnames := by
  have hw := Conserved.of_run h
  refine ⟨hw.tokens, fun ha => ?_, fun ha => (hw.within ha).names.issued_spec⟩
  exact (hw.within ha).live_le.trans (UInt64.le_iff_toNat_le.mp (hw.within ha).active_le)

/-- Two home agents with one token: the second waits for the chain of the first. -/
theorem tokens_conserved_waiting :
    let haconfig : Haconfig := ⟨[], [], [], .v4 1, .good⟩
    let opts : Options := ⟨[haconfig, haconfig], 1, 1, 1⟩
    ∃ tr w, Run (system opts) tr w ∧
      tr.map Transition.event = [.next, .next, .complete 0 true, .complete 0 false] ∧
      w.counter.numtokens.toNat + w.inFlight.length = opts.maxconn.toNat ∧
      (∀ ha, w.live ha ≤ opts.maxconnha.toNat) ∧
      ∀ ha, (w.registers ha).issued.Nodup ∧
        ∀ name ∈ (w.registers ha).issued, 0 ≤ name ∧ name < opts.numnames := by
  intro haconfig opts
  have hinit : (system opts).init (init opts) := rfl
  have hpossible : ((system opts).exec (init opts)
      [.next, .next, .complete 0 true, .complete 0 false]).isSome := by decide
  obtain ⟨w, hexec⟩ := Option.isSome_iff_exists.mp hpossible
  obtain ⟨tr, hrun, hevents⟩ := Run.of_exec hinit hexec
  exact ⟨tr, w, hrun, hevents, tokens_conserved hrun⟩

end Registration

end TestClient
