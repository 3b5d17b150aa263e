/-
# Handing a query to a home agent

`hasendproxy::process_query` encodes the GET, registers the query and starts a connection.

* `composeGet_fst_eq_ok_iff` : the encoding succeeds exactly if the suffix of the name can be
  removed and the message fits into the buffer; otherwise an exception is thrown, before
  anything is written beyond the buffer (`composeGet_fst_eq_error`);
* `hand_off_all_or_nothing` : the query is handed over with all that belongs to it, or
  refused, or passed over because its id is taken.
-/
import Pweb.Dnsgw.OutstandingQueries
import Pweb.Dnsgw.GetAgreement

open ProtocolHelper

/-! ## Encoding -/

/-- A write that fails throws, and its bytes do not fit. -/
theorem Emits.of_error {ε : Type} {w : ByteWriter ε Unit} {bs out : List UInt8} {cap : ℕ}
    (h : Emits w True bs) (hout : out.length ≤ cap) {f : Fault ε} (hf : w cap out = .error f) :
    (∃ e, f = .thrown e) ∧ cap < out.length + bs.length := by
  by_cases hfit : out.length + bs.length ≤ cap
  · rw [h.run trivial hfit] at hf
    cases hf
  · obtain ⟨e, he⟩ := h.throws hout fun hp => hfit hp.2
    rw [he] at hf
    exact ⟨⟨e, (Except.error.inj hf).symm⟩, not_le.mp hfit⟩

namespace AbsMessage

/-- The bytes of a GET for a device name. -/
def encodeGet (hahostname : Bytes) (haport : UInt16) (nshostname : Bytes) (nsport : UInt16)
    (query : DnsQuery) (devicename : Bytes) : Bytes :=
  encodeAbsHeader absGet query.id.toUInt32 hahostname haport nshostname nsport ++
    encodeAbsString devicename

variable {hahostname : Bytes} {haport : UInt16} {nshostname : Bytes} {nsport : UInt16}
  {suffixes : List Bytes} {query : DnsQuery} {question : DnsQuestion} {rest : List DnsQuestion}

/-- **What stops the encoding** is an exception: the suffix cannot be removed, or the message
does not fit into the buffer. -/
theorem composeGet_fst_eq_error (hq : query.questions = question :: rest) {f : Fault Exn}
    (h : (composeGet hahostname haport nshostname nsport suffixes query).1 = .error f) :
    (∃ e, f = .thrown e) ∧ ∀ devicename, removeSuffix question.name suffixes = .ok devicename →
      256 < (encodeGet hahostname haport nshostname nsport query devicename).length := by
  have hheader := emits_writeAbsHeader absGet query.id.toUInt32 hahostname haport nshostname nsport
  unfold composeGet at h
  split at h
  · next f' herror =>
    -- the header does not fit
    obtain rfl := Except.error.inj h
    obtain ⟨hthrown, hlong⟩ := hheader.of_error (Nat.zero_le 256) herror
    refine ⟨hthrown, fun devicename _ => ?_⟩
    rw [encodeGet, List.length_append]
    rw [List.length_nil] at hlong
    omega
  · next hdr hok =>
    obtain ⟨-, hfit, rfl⟩ := (hheader.eq_ok_iff (Nat.zero_le 256)).mp hok
    rw [List.nil_append, writeAbsGet, hq] at h
    dsimp only at h
    split at h
    · next e hname =>
      obtain rfl := Except.error.inj h
      refine ⟨⟨e, rfl⟩, fun devicename hok => ?_⟩
      rw [hname] at hok
      cases hok
    · next devicename hname =>
      split at h
      · next f' herror =>
        -- the device name does not fit
        obtain rfl := Except.error.inj h
        obtain ⟨hthrown, hlong⟩ := (emits_writeAbsString devicename).of_error
          (by simpa using hfit) herror
        refine ⟨hthrown, fun devicename' hok => ?_⟩
        rw [hname] at hok
        obtain rfl := Except.ok.inj hok
        rwa [encodeGet, List.length_append]
      · cases h

/-- **When the encoding succeeds.** -/
theorem composeGet_fst_eq_ok_iff (hq : query.questions = question :: rest) {out : Bytes} :
    (composeGet hahostname haport nshostname nsport suffixes query).1 = .ok out ↔
      ∃ devicename, removeSuffix question.name suffixes = .ok devicename ∧
        out = encodeGet hahostname haport nshostname nsport query devicename ∧
        out.length ≤ 256 := by
  rcases hcompose : composeGet hahostname haport nshostname nsport suffixes query
    with ⟨result, query'⟩
  constructor
  · rintro rfl
    obtain ⟨devicename, hname, -, hout⟩ := composeGet_ok hcompose hq
    exact ⟨devicename, hname, hout, composeGet_length_le hcompose⟩
  · rintro ⟨devicename, hname, rfl, hfit⟩
    cases result with
    | error f =>
        have hlong := (composeGet_fst_eq_error hq (congrArg Prod.fst hcompose)).2 devicename hname
        omega
    | ok out =>
        obtain ⟨devicename', hname', -, rfl⟩ := composeGet_ok hcompose hq
        rw [hname] at hname'
        obtain rfl := Except.ok.inj hname'
        rfl

end AbsMessage

/-! ## Outcomes -/

namespace Gateway

open AbsMessage

variable {cfg : Config} {g g' : Gateway} {ha : HomeAgent} {q : ℕ}

/-- The GET for the query of number `q` and this device name. -/
def getFor (cfg : Config) (g : Gateway) (ha : HomeAgent) (q : ℕ) (devicename : Bytes) : Bytes :=
  encodeGet ha.hostname ha.port cfg.nshostname cfg.nsport (g.queries q) devicename

/-- The device name that the first question of a query asks for, if the name of the question
ends with a suffix. -/
def deviceNameOf (cfg : Config) (g : Gateway) (q : ℕ) : Option Bytes :=
  match (g.queries q).questions with
  | [] => none
  | question :: _ => (removeSuffix question.name cfg.suffixes).toOption

/-- The GET can be encoded completely. -/
def Encodable (cfg : Config) (g : Gateway) (ha : HomeAgent) (q : ℕ) : Prop :=
  ∃ devicename, deviceNameOf cfg g q = some devicename ∧
    (getFor cfg g ha q devicename).length ≤ 256

/-- The query is entered with a timer, and a connection with the whole GET in its buffer is
started. -/
structure HandedOver (cfg : Config) (g : Gateway) (ha : HomeAgent) (q : ℕ) (g' : Gateway) :
    Prop where
  free : g.map (g.queries q).id = none
  map : g'.map = Function.update g.map (g.queries q).id (some q)
  timers : g'.timers = Function.update g.timers q (.waiting (g.now + cfg.timeout))
  completed : g'.completed = g.completed
  connecting : ∃ devicename, deviceNameOf cfg g q = some devicename ∧
    (getFor cfg g ha q devicename).length ≤ 256 ∧
    g'.sendConns = Function.update g.sendConns q
      (some ⟨.connecting, getFor cfg g ha q devicename⟩)

/-- The query is completed with `R_NAME_ERROR`. -/
structure Refused (cfg : Config) (g : Gateway) (ha : HomeAgent) (q : ℕ) (g' : Gateway) :
    Prop where
  not_encodable : ¬ Encodable cfg g ha q
  map : g'.map = g.map
  timers : g'.timers = g.timers
  completed : g'.completed = g.completed ++ [⟨q, .nameError, .invalidRequest⟩]
  rcode : (g'.queries q).rcode = .nameError
  sendConns : g'.sendConns = g.sendConns

/-- The query is passed over, since its id is taken. -/
structure PassedOver (cfg : Config) (g : Gateway) (ha : HomeAgent) (q : ℕ) (g' : Gateway) :
    Prop where
  encodable : Encodable cfg g ha q
  taken : g.map (g.queries q).id ≠ none
  map : g'.map = g.map
  timers : g'.timers = g.timers
  completed : g'.completed = g.completed
  sendConns : g'.sendConns = g.sendConns

theorem deviceNameOf_eq_some_iff {question : DnsQuestion} {rest : List DnsQuestion}
    (hq : (g.queries q).questions = question :: rest) {devicename : Bytes} :
    deviceNameOf cfg g q = some devicename ↔
      removeSuffix question.name cfg.suffixes = .ok devicename := by
  rw [deviceNameOf, hq]
  dsimp only
  cases removeSuffix question.name cfg.suffixes with
  | error e => simp [Except.toOption]
  | ok name => simp [Except.toOption]

/-- Encoding can only set the metric, so the id stays the same. -/
theorem setQuery_metric_id (g : Gateway) (q : ℕ) (metric : Metric) :
    ((g.setQuery q { g.queries q with metric := metric }).queries q).id = (g.queries q).id := by
  rw [setQuery_queries]

/-- **What the proxy does** with a query that has a question. -/
theorem hasendproxyProcessQuery_cases (hq : (g.queries q).questions ≠ []) :
    HandedOver cfg g ha q (hasendproxyProcessQuery cfg g ha q) ∨
      Refused cfg g ha q (hasendproxyProcessQuery cfg g ha q) ∨
        PassedOver cfg g ha q (hasendproxyProcessQuery cfg g ha q) := by
  obtain ⟨question, rest, hquestions⟩ := List.exists_cons_of_ne_nil hq
  obtain ⟨metric, hmetric⟩ := composeGet_query ha.hostname ha.port cfg.nshostname cfg.nsport
    cfg.suffixes (g.queries q)
  unfold hasendproxyProcessQuery
  cases hget : composeGet ha.hostname ha.port cfg.nshostname cfg.nsport cfg.suffixes
      (g.queries q) with
  | mk result query =>
    obtain rfl : query = { g.queries q with metric := metric } := by rw [← hmetric, hget]
    cases result with
    | error f =>
        refine .inr (.inl ⟨?_, rfl, rfl, rfl, ?_, rfl⟩)
        · rintro ⟨devicename, hname, hfit⟩
          have hlong := (composeGet_fst_eq_error hquestions (congrArg Prod.fst hget)).2 devicename
            ((deviceNameOf_eq_some_iff hquestions).mp hname)
          exact absurd hfit (not_le.mpr hlong)
        · dsimp only
          rw [completeQuery_queries]
          rfl
    | ok sendBuf =>
        obtain ⟨devicename, hname, rfl, hfit⟩ :=
          (composeGet_fst_eq_ok_iff hquestions).mp (congrArg Prod.fst hget)
        have hdevice : deviceNameOf cfg g q = some devicename :=
          (deviceNameOf_eq_some_iff hquestions).mpr hname
        dsimp only
        rw [insert, setQuery_metric_id]
        cases hentry : g.map (g.queries q).id with
        | some q' =>
            have hmap : (g.setQuery q { g.queries q with metric := metric }).map
                (g.queries q).id = some q' := hentry
            rw [hmap]
            exact .inr (.inr ⟨⟨devicename, hdevice, hfit⟩, by rw [hentry]; exact Option.some_ne_none q',
              rfl, rfl, rfl, rfl⟩)
        | none =>
            have hmap : (g.setQuery q { g.queries q with metric := metric }).map
                (g.queries q).id = none := hentry
            rw [hmap]
            exact .inl ⟨hentry, rfl, rfl, rfl, devicename, hdevice, hfit, rfl⟩

/-- **All or nothing.**  A query with a question that is given to the proxy of a home agent ends
in exactly one of the three ways. -/
theorem hand_off_all_or_nothing (cfg : Config) (g : Gateway) (ha : HomeAgent) (q : ℕ)
    (hq : (g.queries q).questions ≠ []) :
    let g' := hasendproxyProcessQuery cfg g ha q
    (HandedOver cfg g ha q g' ∧ ¬ Refused cfg g ha q g' ∧ ¬ PassedOver cfg g ha q g') ∨
    (¬ HandedOver cfg g ha q g' ∧ Refused cfg g ha q g' ∧ ¬ PassedOver cfg g ha q g') ∨
    (¬ HandedOver cfg g ha q g' ∧ ¬ Refused cfg g ha q g' ∧ PassedOver cfg g ha q g') := by
  have hencodable : ∀ {g'}, HandedOver cfg g ha q g' → Encodable cfg g ha q := by
    rintro g' ⟨-, -, -, -, devicename, hname, hfit, -⟩
    exact ⟨devicename, hname, hfit⟩
  obtain hover | hrefused | hpassed := @hasendproxyProcessQuery_cases cfg g ha q hq
  · exact .inl ⟨hover, fun h => h.not_encodable (hencodable hover), fun h => h.taken hover.free⟩
  · exact .inr (.inl ⟨fun h => hrefused.not_encodable (hencodable h), hrefused,
      fun h => hrefused.not_encodable h.encodable⟩)
  · exact .inr (.inr ⟨fun h => hpassed.taken h.free, fun h => h.not_encodable hpassed.encodable,
      hpassed⟩)

/-- A gateway that the query for `a.b.` has just reached. -/
def reachedGateway : Gateway :=
  sampleGateway.arrived { sender := .tcp 0, questions := [⟨[97, 46, 98, 46], tA, cIn⟩], id := 5 } 1

/-- The query is handed over: its suffix is removed, and its id is free. -/
theorem reachedGateway_hands_over :
    HandedOver sampleConfig reachedGateway ⟨[104], 5000⟩ 0
      (hasendproxyProcessQuery sampleConfig reachedGateway ⟨[104], 5000⟩ 0) := by
  rcases hand_off_all_or_nothing sampleConfig reachedGateway ⟨[104], 5000⟩ 0 (by decide) with
    h | h | h
  · exact h.1
  · exact absurd ⟨[97, 46], rfl, by decide⟩ h.2.1.not_encodable
  · exact absurd rfl h.2.2.taken

end Gateway
