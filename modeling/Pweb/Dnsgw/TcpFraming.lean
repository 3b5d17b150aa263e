/-
# Framing on a TCP connection

A stream is framed if it consists of messages of 12 to 1036 bytes, each after its
length, and the connection has parsed the part after the header of each of them,
has started over after those that parse, and has stopped at the first that does not
or at a length outside the range.  The connection keeps to that except at a length
below 12, where it reads 1036 bytes instead of stopping, and after a query whose
processing throws (`framed_iff`).
-/
import Pweb.Dnsgw.DnsConnection
import Pweb.Foundation.PrefixCode

open ByteOrder

/-- A message that fits the header and the receive buffer of a connection. -/
structure TcpMessage where
  bytes : Bytes
  header_le : 12 ≤ bytes.length
  le_max : bytes.length ≤ 1036

namespace TcpMessage

/-- A message on the stream: its length and its bytes. -/
def frame (m : TcpMessage) : Bytes := toBE 2 m.bytes.length ++ m.bytes

/-- The part of the message after the header. -/
def body (m : TcpMessage) : Bytes := m.bytes.drop 12

/-- The header is that of a query. -/
def IsQuery (m : TcpMessage) : Prop := (receivedHeader m.bytes).IsQuery

instance (m : TcpMessage) : Decidable m.IsQuery :=
  inferInstanceAs (Decidable (DnsQueryHeader.IsQuery _))

/-- The header is that of a query and the body parses. -/
def Parses (conn : ℕ) (m : TcpMessage) : Prop :=
  m.IsQuery ∧ ∃ query, parseDnsQuery { sender := .tcp conn } (receivedHeader m.bytes) m.body
    = .ok query

theorem length_frame (m : TcpMessage) : m.frame.length = 2 + m.bytes.length := by
  rw [frame, List.length_append, length_toBE]

/-- Two bytes denote the length they were made of. -/
theorem eq_of_toBE_eq {l l' : ℕ} (hl : l < 65536) (hl' : l' < 65536) (h : toBE 2 l = toBE 2 l') :
    l = l' := by
  have hof := congrArg ofBE h
  rw [ofBE_toBE, ofBE_toBE] at hof
  omega

theorem prefixCode_frame : PrefixCode frame := by
  rintro ⟨m, hmin, hmax⟩ ⟨m', hmin', hmax'⟩ r r' h
  simp only [frame, List.append_assoc] at h
  obtain ⟨hlen, hrest⟩ := List.append_inj h (by rw [length_toBE, length_toBE])
  obtain ⟨rfl, rfl⟩ := List.append_inj hrest (eq_of_toBE_eq (by omega) (by omega) hlen)
  exact ⟨rfl, rfl⟩

/-- Messages and less than a message, in one way only. -/
theorem frames_append_inj {ms ms' : List TcpMessage} {t t' : Bytes} (ht : t.length ≤ 2)
    (ht' : t'.length ≤ 2) (h : ms.flatMap frame ++ t = ms'.flatMap frame ++ t') :
    ms = ms' ∧ t = t' := by
  refine prefixCode_frame.flatMap_append_inj ?_ ?_ h
  all_goals
    intro m
    have hmin := m.header_le
    rw [length_frame]
    omega

end TcpMessage

open TcpMessage

/-- The length announces a message that the connection takes. -/
def InRange (len : ℕ) : Prop := 12 ≤ len ∧ len ≤ 1036

/-- The bodies passed to `parse_dns_query`, in order. -/
def parsedBodies (calls : List RecvCall) : List Bytes :=
  calls.filterMap fun call =>
    match call with
    | .parse _ body => some body
    | .process _ => none

/-- How the bytes read end, by what the connection is doing: at the end of a message, after
the length it reads a message for, after a message that does not parse or a length out of
range, or anywhere in between once a read has failed. -/
def FramedAs (conn : ℕ) (ms : List TcpMessage) (consumed : Bytes) : RecvStage → Prop
  | .msgLen => consumed = ms.flatMap frame ∧ ∀ m ∈ ms, m.Parses conn
  | .query size => InRange size ∧ consumed = ms.flatMap frame ++ toBE 2 size ∧
      ∀ m ∈ ms, m.Parses conn
  | .stopped =>
      (consumed = ms.flatMap frame ∧ ∃ init last, ms = init ++ [last] ∧
        (∀ m ∈ init, m.Parses conn) ∧ ¬ last.Parses conn) ∨
      (∃ len < 65536, ¬ InRange len ∧ consumed = ms.flatMap frame ++ toBE 2 len ∧
        ∀ m ∈ ms, m.Parses conn)
  | .failed => ∃ rest, rest.length ≤ 2 ∧ consumed = ms.flatMap frame ++ rest ∧
      ∀ m ∈ ms, m.Parses conn

/-- **The framing of a connection.**  The bytes it has read are messages, its position in
the stream is the one the last length and the last message call for, and the bodies it has
passed to the parser are those of the messages with a query header. -/
def Framed (conn : ℕ) (s : Feed RecvState RecvCall) : Prop :=
  ∃ ms : List TcpMessage, FramedAs conn ms s.consumed s.reader.stage ∧
    parsedBodies s.emitted = (ms.filter fun m => m.IsQuery).map body

/-- The steps at which the connection keeps the framing: a length that is read is at least
that of the header, and a query that parses is processed without an exception. -/
def KeepsFraming (conn : ℕ) (processor : ℕ → DnsQuery → Option ProtocolHelper.Exn)
    (t : Transition (Feed RecvState RecvCall) FeedEvent) : Prop :=
  t.event = .complete →
    match t.pre.reader.stage with
    | .msgLen => 12 ≤ ofBE (t.pre.unread.take 2)
    | .query size => (receivedHeader (t.pre.unread.take size)).IsQuery →
        ∀ query, parseDnsQuery { sender := .tcp conn } (receivedHeader (t.pre.unread.take size))
          ((t.pre.unread.take size).drop 12) = .ok query →
        processor t.pre.reader.calls query = none
    | _ => True

/-! ## Steps -/

namespace DnsConnection

variable {conn : ℕ} {processor : ℕ → DnsQuery → Option ProtocolHelper.Exn}
  {s s' : Feed RecvState RecvCall}

@[simp] theorem parsedBodies_append (calls calls' : List RecvCall) :
    parsedBodies (calls ++ calls') = parsedBodies calls ++ parsedBodies calls' :=
  List.filterMap_append

/-- A length keeps the framing exactly if it is not below the header. -/
theorem framed_complete_msgLen_iff (h : Framed conn s) (hstage : s.reader.stage = .msgLen)
    (hstep : (reader conn processor).complete s = some s') :
    Framed conn s' ↔ 12 ≤ ofBE (s.unread.take 2) := by
  obtain ⟨ms, hframed, hparsed⟩ := h
  obtain ⟨bs, hwant, hunread, hs'⟩ := StreamReader.complete_eq_some_iff.mp hstep
  rw [hstage] at hframed
  obtain ⟨hconsumed, hall⟩ := hframed
  simp only [reader, hstage, Option.some.injEq] at hwant hs'
  have htake : s.unread.take 2 = bs := by rw [hunread, hwant, List.take_left]
  have hbound := ofBE_lt bs
  have hbs := toBE_ofBE bs
  rw [← hwant] at hbound hbs
  rw [htake]
  constructor
  · rintro ⟨ms', hframed', -⟩
    by_contra hlt
    rw [handleMsgLenRead_of_lt (by omega)] at hs'
    rw [hs'] at hframed'
    -- the connection reads 1036 bytes, so the two bytes would have to announce them
    obtain ⟨-, heq, -⟩ := hframed'
    dsimp only at heq
    rw [hconsumed] at heq
    obtain ⟨-, hlen⟩ := frames_append_inj (by omega) (by rw [length_toBE]) heq
    rw [hlen, ofBE_toBE] at hlt
    omega
  · intro hmin
    by_cases hmax : ofBE bs ≤ 1036
    · rw [handleMsgLenRead_of_le hmin hmax] at hs'
      rw [hs']
      refine ⟨ms, ⟨⟨hmin, hmax⟩, ?_, hall⟩, ?_⟩
      · rw [hconsumed, hbs]
      · rw [List.append_nil, hparsed]
    · rw [handleMsgLenRead_of_gt hwant.symm (by omega)] at hs'
      rw [hs']
      refine ⟨ms, Or.inr ⟨ofBE bs, by omega, fun hr => hmax hr.2, ?_, hall⟩, ?_⟩
      · rw [hconsumed, hbs]
      · rw [List.append_nil, hparsed]

/-- A message extends the parsed bodies by its body exactly if its header is a query's. -/
theorem parsedBodies_message {ms : List TcpMessage} {m : TcpMessage} {calls new : List RecvCall}
    (h : parsedBodies calls = (ms.filter fun m => m.IsQuery).map body)
    (hnew : parsedBodies new = if m.IsQuery then [m.body] else []) :
    parsedBodies (calls ++ new) = ((ms ++ [m]).filter fun m => m.IsQuery).map body := by
  rw [parsedBodies_append, h, hnew, List.filter_append, List.map_append]
  by_cases hm : m.IsQuery
  · rw [if_pos hm, List.filter_singleton, decide_eq_true hm]
    rfl
  · rw [if_neg hm, List.filter_singleton, decide_eq_false hm]
    rfl

/-- A stream that ends with a message that parses is not framed for a connection that has
stopped. -/
theorem not_framedAs_stopped {ms ms' : List TcpMessage} {m : TcpMessage} (hm : m.Parses conn) :
    ¬ FramedAs conn ms' ((ms ++ [m]).flatMap frame) .stopped := by
  rintro (⟨heq, init, last, rfl, -, hlast⟩ | ⟨len, -, -, heq, -⟩)
  · have hms : ms ++ [m] = init ++ [last] := by
      have heq' : (ms ++ [m]).flatMap frame ++ [] = (init ++ [last]).flatMap frame ++ [] := by
        rw [heq]
      exact (frames_append_inj (Nat.zero_le _) (Nat.zero_le _) heq').1
    obtain ⟨-, hlast'⟩ := List.append_inj' hms rfl
    cases hlast'
    exact hlast hm
  · rw [← List.append_nil (List.flatMap _ _)] at heq
    obtain ⟨-, hnil⟩ := frames_append_inj (Nat.zero_le _) (by rw [length_toBE]) heq
    have hlen := congrArg List.length hnil
    rw [length_toBE] at hlen
    cases hlen

/-- A message keeps the framing exactly if its query, where it is one, is processed without
an exception. -/
theorem framed_complete_query_iff {size : ℕ} (h : Framed conn s)
    (hstage : s.reader.stage = .query size)
    (hstep : (reader conn processor).complete s = some s') :
    Framed conn s' ↔ ((receivedHeader (s.unread.take size)).IsQuery →
      ∀ query, parseDnsQuery { sender := .tcp conn } (receivedHeader (s.unread.take size))
        ((s.unread.take size).drop 12) = .ok query → processor s.reader.calls query = none) := by
  obtain ⟨ms, hframed, hparsed⟩ := h
  obtain ⟨bs, hwant, hunread, hs'⟩ := StreamReader.complete_eq_some_iff.mp hstep
  rw [hstage] at hframed
  obtain ⟨hrange, hconsumed, hall⟩ := hframed
  simp only [reader, hstage, Option.some.injEq] at hwant hs'
  subst hwant
  rw [hunread, List.take_left]
  let m : TcpMessage := ⟨bs, hrange.1, hrange.2⟩
  have hframes : s.consumed ++ bs = (ms ++ [m]).flatMap frame := by
    rw [hconsumed, List.flatMap_append, List.flatMap_singleton, List.append_assoc]
    rfl
  rw [hframes] at hs'
  by_cases hquery : (receivedHeader bs).IsQuery
  · cases hparse : parseDnsQuery { sender := .tcp conn } (receivedHeader bs) (bs.drop 12) with
    | error e =>
        -- a body that does not parse is the last
        have hnot : ¬ m.Parses conn := by
          rintro ⟨-, query, hok⟩
          cases hparse.symm.trans hok
        rw [handleQueryRead_of_error hrange.1 hquery hparse] at hs'
        rw [hs']
        refine iff_of_true ⟨ms ++ [m], Or.inl ⟨rfl, ms, m, rfl, hall, hnot⟩, ?_⟩ ?_
        · exact parsedBodies_message hparsed (if_pos hquery).symm
        · intro _ query hok
          cases hok
    | ok query =>
        have hm : m.Parses conn := ⟨hquery, query, hparse⟩
        rw [handleQueryRead_of_ok hrange.1 hquery hparse] at hs'
        rw [hs']
        constructor
        · rintro ⟨ms', hframed', -⟩ _ query' hok
          cases hok
          by_contra hthrows
          dsimp only at hframed'
          rw [if_neg hthrows] at hframed'
          exact not_framedAs_stopped hm hframed'
        · intro hnone
          rw [if_pos (hnone hquery query rfl)]
          refine ⟨ms ++ [m], ⟨rfl, ?_⟩, parsedBodies_message hparsed (if_pos hquery).symm⟩
          exact List.forall_mem_append.mpr ⟨hall, List.forall_mem_singleton.mpr hm⟩
  · -- any other header stops the connection before the body is parsed
    have hnot : ¬ m.Parses conn := fun hm => hquery hm.1
    rw [handleQueryRead_of_not_isQuery hquery] at hs'
    rw [hs']
    refine iff_of_true ⟨ms ++ [m], Or.inl ⟨rfl, ms, m, rfl, hall, hnot⟩, ?_⟩ ?_
    · exact parsedBodies_message hparsed (if_neg hquery).symm
    · exact fun hq => absurd hq hquery

/-- A failed read leaves the stream framed. -/
theorem framed_fail (h : Framed conn s) (hstep : (reader conn processor).fail s = some s') :
    Framed conn s' := by
  obtain ⟨ms, hframed, hparsed⟩ := h
  obtain ⟨hwant, rfl⟩ := StreamReader.fail_eq_some_iff.mp hstep
  simp only [reader] at hwant ⊢
  refine ⟨ms, ?_, by rw [List.append_nil, hparsed]⟩
  cases hstage : s.reader.stage with
  | msgLen =>
      rw [hstage] at hframed
      exact ⟨[], Nat.zero_le _, hframed.1.trans (List.append_nil _).symm, hframed.2⟩
  | query size =>
      rw [hstage] at hframed
      exact ⟨toBE 2 size, by rw [length_toBE], hframed.2.1, hframed.2.2⟩
  | stopped =>
      rw [hstage] at hwant
      cases hwant
  | failed =>
      rw [hstage] at hwant
      cases hwant

/-- **A step from a framed state** leads to a framed state exactly if it meets the condition. -/
theorem framed_step_iff (h : Framed conn s) {e : FeedEvent}
    (hstep : (reader conn processor).system.step s e = some s') :
    Framed conn s' ↔ KeepsFraming conn processor ⟨s, e, s'⟩ := by
  cases e with
  | arrive segment =>
      cases hstep
      exact iff_of_true h fun he => by cases he
  | fail => exact iff_of_true (framed_fail h hstep) fun he => by cases he
  | complete =>
      cases hstage : s.reader.stage with
      | msgLen =>
          rw [framed_complete_msgLen_iff h hstage hstep, KeepsFraming]
          simp only [hstage, true_implies]
      | query size =>
          rw [framed_complete_query_iff h hstage hstep, KeepsFraming]
          simp only [hstage, true_implies]
      | stopped =>
          obtain ⟨_, hwant, -⟩ := StreamReader.complete_eq_some_iff.mp hstep
          simp only [reader, hstage] at hwant
          cases hwant
      | failed =>
          obtain ⟨_, hwant, -⟩ := StreamReader.complete_eq_some_iff.mp hstep
          simp only [reader, hstage] at hwant
          cases hwant

theorem framed_initial (conn : ℕ) (processor : ℕ → DnsQuery → Option ProtocolHelper.Exn) :
    Framed conn (reader conn processor).initial :=
  ⟨[], ⟨rfl, List.forall_mem_nil _⟩, rfl⟩

end DnsConnection

open DnsConnection

/-! ## Runs -/

/-- **When TCP framing holds.**  Whatever arrives on a connection, in whatever segments: it
keeps to the framing of the stream at every step exactly if no length that it reads is
below that of the header and no query that parses makes the processor throw. -/
theorem framed_iff (conn : ℕ) (processor : ℕ → DnsQuery → Option ProtocolHelper.Exn)
    {tr : List (Transition (Feed RecvState RecvCall) FeedEvent)} {s : Feed RecvState RecvCall}
    (h : Run (reader conn processor).system tr s) :
    (∀ t ∈ tr, Framed conn t.post) ↔ ∀ t ∈ tr, KeepsFraming conn processor t := by
  refine Run.forall_iff (P := fun t => Framed conn t.post) ?_ h
  intro tr s e s' hrun hgood hstep
  have hframed : Framed conn s := by
    refine hrun.invariant_when (C := KeepsFraming conn processor) ?_ ?_ hgood
    · rintro s rfl
      exact framed_initial conn processor
    · intro _ s e s' _ hpre hC hs
      exact (framed_step_iff hpre hs).mpr hC
  exact framed_step_iff hframed hstep

/-! ## Two streams -/

/-- A connection with a processor that never throws. -/
def sampleReader : StreamReader RecvState RecvCall := reader 0 fun _ _ => none

/-- A length of 5. -/
def shortLength : Feed RecvState RecvCall := sampleReader.initial.arrive [0, 5]

/-- **Framing can be lost**: after a length of 5 the connection waits for 1036 bytes. -/
theorem framing_can_be_lost : ∃ tr s, Run sampleReader.system tr s ∧
    s.reader.stage = .query 1036 ∧ ¬ ∀ t ∈ tr, Framed 0 t.post := by
  have h₁ : sampleReader.system.step sampleReader.initial (.arrive [0, 5]) = some shortLength := rfl
  have h₂ : sampleReader.system.step shortLength .complete
      = some ⟨⟨.query 1036, 0⟩, [0, 5], [], []⟩ := by decide
  refine ⟨_, _, ((Run.start rfl).extend h₁).extend h₂, rfl, fun hall => ?_⟩
  have hframed := hall _ (Run.last_mem _ _)
  have hbefore : Framed 0 shortLength :=
    (framed_step_iff (framed_initial 0 _) h₁).mpr fun he => by cases he
  have hmin := (framed_complete_msgLen_iff hbefore rfl h₂).mp hframed
  revert hmin
  decide

/-- A query without questions, in two segments. -/
def sampleArrived : Feed RecvState RecvCall :=
  (sampleReader.initial.arrive [0]).arrive [12, 0, 7, 0, 0, 0, 0, 0, 0, 0, 0, 0, 0]

theorem sampleQuery_framed : ∃ tr s, Run sampleReader.system tr s ∧ s.reader = ⟨.msgLen, 1⟩ ∧
    ∀ t ∈ tr, Framed 0 t.post := by
  have h₁ : sampleReader.system.step sampleReader.initial (.arrive [0])
      = some (sampleReader.initial.arrive [0]) := rfl
  have h₂ : sampleReader.system.step (sampleReader.initial.arrive [0])
      (.arrive [12, 0, 7, 0, 0, 0, 0, 0, 0, 0, 0, 0, 0]) = some sampleArrived := rfl
  have h₃ : sampleReader.system.step sampleArrived .complete
      = some ⟨⟨.query 12, 0⟩, [0, 12], [0, 7, 0, 0, 0, 0, 0, 0, 0, 0, 0, 0], []⟩ := by decide
  have h₄ : (sampleReader.system.step
      ⟨⟨.query 12, 0⟩, [0, 12], [0, 7, 0, 0, 0, 0, 0, 0, 0, 0, 0, 0], []⟩ .complete).map Feed.reader
      = some ⟨.msgLen, 1⟩ := by decide
  obtain ⟨s, hs, hreader⟩ := Option.map_eq_some_iff.mp h₄
  have hrun := ((((Run.start rfl).extend h₁).extend h₂).extend h₃).extend hs
  refine ⟨_, s, hrun, hreader, (framed_iff 0 _ hrun).mpr ?_⟩
  -- the one length that is read is 12, and the processor never throws
  simp only [List.nil_append, List.cons_append, List.forall_mem_cons]
  refine ⟨fun he => ?_, fun he => ?_, fun _ => ?_, fun _ _ _ _ => rfl, List.forall_mem_nil _⟩
  · cases he
  · cases he
  · show 12 ≤ ofBE [0, 12]
    decide
