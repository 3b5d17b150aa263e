/-
# Framing of crawler messages

A `bufwrite` writes messages and a `bufread` with handlers for both types reads what
it has written, in whatever segments it arrives.  The length field holds the length
of the body modulo 65536, and the handler is given the body up to its first null.

`framing_iff` : the messages are read back without corruption exactly if, before the
first one whose length field is above 255, every body is at most 255 bytes long and
has no null.
-/
import Pweb.Crawler.BufRead
import Pweb.Crawler.BufWrite

open CrawlerProtocol

/-! ## What is written -/

namespace BufItem

/-- The bytes of a message on the stream. -/
def frame (item : BufItem) : Bytes := item.header.buf.toList ++ item.body

/-- The message as the caller of `sendmsg` sees it. -/
def message (item : BufItem) : MessageType × Bytes := (item.header.type, item.body)

/-- The header is the one that `sendmsg` builds for a message of the protocol. -/
structure Formed (item : BufItem) : Prop where
  header : item.header = .ofMessage item.header.type item.body
  type : item.header.type ≠ .notAMessage

/-- The length field passes the test of the reader. -/
def FieldFits (item : BufItem) : Prop := item.body.length % 65536 ≤ 255

/-- The body fits the buffer of the reader and is a C string. -/
def Exact (item : BufItem) : Prop := item.body.length ≤ 255 ∧ 0 ∉ item.body

instance : DecidablePred FieldFits := fun _ => inferInstanceAs (Decidable (_ ≤ _))

instance : DecidablePred Exact := fun _ => inferInstanceAs (Decidable (_ ∧ _))

/-- The body as the reader hands it on. -/
def received (item : BufItem) : Bytes :=
  (item.body.take (item.body.length % 65536)).takeWhile (· ≠ 0)

theorem Exact.fieldFits {item : BufItem} (h : item.Exact) : item.FieldFits :=
  (Nat.mod_le _ _).trans h.1

/-- An exact body is received as it is, and no other body is. -/
theorem received_eq_iff {item : BufItem} (h : item.FieldFits) :
    item.received = item.body ↔ item.Exact := by
  have hshort : item.body.length ≤ 255 →
      item.body.take (item.body.length % 65536) = item.body := by
    intro hlen
    rw [Nat.mod_eq_of_lt (by omega), List.take_length]
  constructor
  · intro heq
    have hlen : item.body.length ≤ 255 := by
      have htake := (List.takeWhile_prefix (p := fun b : UInt8 => b ≠ 0)
        (l := item.body.take (item.body.length % 65536))).length_le
      rw [← received, heq, List.length_take] at htake
      exact htake.trans ((Nat.min_le_left _ _).trans h)
    rw [received, hshort hlen, List.takeWhile_eq_self_iff] at heq
    exact ⟨hlen, fun hzero => by simpa using heq 0 hzero⟩
  · rintro ⟨hlen, hzero⟩
    rw [received, hshort hlen, List.takeWhile_eq_self_iff]
    intro b hb
    exact decide_eq_true fun heq => hzero (heq ▸ hb)

theorem Formed.length_eq {item : BufItem} (h : item.Formed) :
    item.header.length.toNat = item.body.length % 65536 := by
  rw [h.header, Header.length_ofMessage, UInt16.toNat_ofNat']

end BufItem

open BufItem

namespace BufWrite

/-- The bytes handed to the socket. -/
def written (w : BufWrite) : Bytes := w.handed.flatMap frame

/-- The messages handed to the socket. -/
def messages (w : BufWrite) : List (MessageType × Bytes) := w.handed.map message

/-- Nothing is altered on the way: before the first message whose length field does not pass
the test of the reader, every body is exact. -/
def Clean (w : BufWrite) : Prop := ∀ item ∈ w.handed.takeWhile FieldFits, item.Exact

variable {w : BufWrite} {cbs : BufWriteCallbacks}

/-- What is handed on or waits is what did so before, and the new item. -/
theorem mem_sendBufitem {item x : BufItem}
    (h : x ∈ (w.sendBufitem item).handed ++ (w.sendBufitem item).sendQueue) :
    x = item ∨ x ∈ w.handed ++ w.sendQueue := by
  unfold sendBufitem at h
  split at h
  · simp only [List.mem_append, List.mem_singleton] at h ⊢
    rcases h with (h | h) | h
    · exact Or.inr (Or.inl h)
    · exact Or.inl h
    · exact Or.inr (Or.inr h)
  · simp only [List.mem_append, List.mem_singleton] at h ⊢
    rcases h with h | h | h
    · exact Or.inr (Or.inl h)
    · exact Or.inr (Or.inr h)
    · exact Or.inl h

theorem mem_sendNextBufitem {x : BufItem}
    (h : x ∈ w.sendNextBufitem.handed ++ w.sendNextBufitem.sendQueue) :
    x ∈ w.handed ++ w.sendQueue := by
  unfold sendNextBufitem at h
  split at h
  · exact h
  · next item rest hqueue =>
    rw [hqueue, List.mem_append, List.mem_cons]
    rcases mem_sendBufitem h with rfl | hx
    · exact Or.inr (Or.inl rfl)
    · rcases List.mem_append.mp hx with hx | hx
      · exact Or.inl hx
      · exact Or.inr (Or.inr hx)

/-- Every message of a run is one that `sendmsg` has built. -/
theorem formed_of_run {tr : List (Transition BufWrite BufWriteEvent)} (h : Run (system cbs) tr w)
    (htypes : ∀ t ∈ tr, ∀ str, t.event ≠ .sendmsg .notAMessage str) :
    ∀ item ∈ w.handed ++ w.sendQueue, item.Formed := by
  refine h.invariant_when (I := fun w => ∀ item ∈ w.handed ++ w.sendQueue, item.Formed)
    (C := fun t => ∀ str, t.event ≠ .sendmsg .notAMessage str) ?_ ?_ htypes
  · rintro w rfl
    exact List.forall_mem_nil _
  · intro _ w e w' _ ih htype hstep
    cases e with
    | sendmsg type str =>
        cases hstep
        intro x hx
        rcases mem_sendBufitem hx with rfl | hx
        · refine ⟨?_, ?_⟩
          · rw [newBufitem, Header.type_ofMessage]
          · rw [newBufitem, Header.type_ofMessage]
            rintro rfl
            exact htype str rfl
        · exact ih x hx
    | connected =>
        cases hstep
        intro x hx
        have hpre := mem_sendNextBufitem hx
        exact ih x hpre
    | sent item ec =>
        obtain ⟨-, heq⟩ := Option.ite_none_right_eq_some.mp hstep
        cases heq
        cases ec with
        | true =>
            intro x hx
            apply ih
            exact List.mem_append_left _ (by simpa [handleBufitemSent] using hx)
        | false =>
            intro x hx
            simp only [handleBufitemSent, Bool.false_eq_true, if_false] at hx
            have hpre := mem_sendNextBufitem hx
            exact ih x hpre

end BufWrite

/-! ## What is read -/

namespace BufRead

/-- Handlers for both types of message and for errors. -/
def bothHandlers : BufReadHandlers := ⟨[.homeAgentDiscovered, .homeAgentAssignment], true⟩

/-- The messages delivered to the handlers. -/
def delivered (calls : List BufReadCall) : List (MessageType × Bytes) :=
  calls.filterMap fun call =>
    match call with
    | .handler type str => some (type, str)
    | .error => none

/-- The call that a message is to lead to. -/
def call (item : BufItem) : BufReadCall := .handler item.header.type item.body

/-- What is read for messages that are received as sent: header and body of each. -/
def chunks (items : List BufItem) : List Bytes :=
  items.flatMap fun item => [item.header.buf.toList, item.body]

theorem delivered_call (items : List BufItem) : delivered (items.map call) = items.map message := by
  rw [delivered, List.filterMap_map]
  show List.filterMap (some ∘ message) items = items.map message
  rw [List.filterMap_eq_map]

theorem flatten_chunks (items : List BufItem) : (chunks items).flatten = items.flatMap frame := by
  induction items with
  | nil => rfl
  | cons item items ih =>
      rw [chunks, List.flatMap_cons, List.flatten_append, ← chunks, ih, List.flatMap_cons]
      simp [frame]

theorem mem_bothHandlers {item : BufItem} (h : item.Formed) :
    item.header.type ∈ bothHandlers.cbmap := by
  have htype := h.type
  revert htype
  cases item.header.type with
  | notAMessage => exact fun hne => absurd rfl hne
  | homeAgentDiscovered => exact fun _ => List.mem_cons_self
  | homeAgentAssignment => exact fun _ => List.mem_cons_of_mem _ List.mem_cons_self

section

variable {item : BufItem} {r : BufRead}

/-- The header of a message whose length field fits makes the reader ask for as many bytes. -/
theorem asks_header (h : item.Formed) (hfits : item.FieldFits) (hstage : r.stage = .header) :
    (reader bothHandlers).want r = some item.header.buf.toList.length ∧
      (reader bothHandlers).handle r item.header.buf.toList
        = ({ r with stage := .body, header := item.header }, []) := by
  have hlen : item.header.length.toNat ≤ 255 := by
    rw [h.length_eq]
    exact hfits
  refine ⟨?_, handle_header_of_le _ hstage hlen (mem_bothHandlers h)⟩
  rw [want_header _ hstage, Vector.length_toList]

/-- **One message**: the reader asks for its header and for as many bytes of its body as the
length field says, and hands on what it receives. -/
theorem plays_message (h : item.Formed) (hfits : item.FieldFits) (hstage : r.stage = .header) :
    let cut := item.body.take (item.body.length % 65536)
    (reader bothHandlers).Asks r [item.header.buf.toList, cut] ∧
      ((reader bothHandlers).play r [item.header.buf.toList, cut]).1.stage = .header ∧
      ((reader bothHandlers).play r [item.header.buf.toList, cut]).2
        = [.handler item.header.type item.received] := by
  intro cut
  obtain ⟨hwant, hheader⟩ := asks_header h hfits hstage
  have hlen : item.header.length.toNat = cut.length := by
    rw [h.length_eq, List.length_take, Nat.min_eq_left (Nat.mod_le _ _)]
  have hbody := handle_body bothHandlers
    (r := { r with stage := .body, header := item.header }) rfl (mem_bothHandlers h) cut
  refine ⟨⟨hwant, ?_, trivial⟩, ?_, ?_⟩
  · rw [hheader, ← hlen]
    apply want_body
    · rfl
    · show item.header.length.toNat ≤ 255
      rw [h.length_eq]
      exact hfits
  · simp only [StreamReader.play, hheader, hbody]
  · simp only [StreamReader.play, hheader, hbody]
    rfl

end

/-- Exact messages, one after the other. -/
theorem plays_chunks {items : List BufItem} (h : ∀ item ∈ items, item.Formed)
    (hexact : ∀ item ∈ items, item.Exact) : ∀ {r : BufRead}, r.stage = .header →
    (reader bothHandlers).Asks r (chunks items) ∧
      ((reader bothHandlers).play r (chunks items)).1.stage = .header ∧
      ((reader bothHandlers).play r (chunks items)).2 = items.map call := by
  induction items with
  | nil =>
      intro r hstage
      exact ⟨trivial, hstage, rfl⟩
  | cons item items ih =>
      intro r hstage
      rw [List.forall_mem_cons] at h hexact
      have hlen : item.body.length % 65536 = item.body.length :=
        Nat.mod_eq_of_lt (by have := hexact.1.1; omega)
      obtain ⟨hasks, hnext, hemits⟩ := plays_message h.1 hexact.1.fieldFits hstage
      rw [hlen, List.take_length] at hasks hnext hemits
      rw [(received_eq_iff hexact.1.fieldFits).mpr hexact.1] at hemits
      obtain ⟨hasks', hnext', hemits'⟩ := ih h.2 hexact.2 hnext
      rw [chunks, List.flatMap_cons, ← chunks]
      refine ⟨StreamReader.asks_append.mpr ⟨hasks, hasks'⟩, ?_, ?_⟩
      · rw [StreamReader.play_append]
        exact hnext'
      · rw [StreamReader.play_append, hemits, hemits']
        rfl

section

variable {items good tail : List BufItem} {item : BufItem}
  {tr : List (Transition (Feed BufRead BufReadCall) FeedEvent)} {s : Feed BufRead BufReadCall}

/-- **Exact messages** are all delivered. -/
theorem emitted_of_exact (h : ∀ item ∈ items, item.Formed) (hexact : ∀ item ∈ items, item.Exact)
    (hrun : Run (reader bothHandlers).system tr s) (hfail : ∀ t ∈ tr, t.event ≠ .fail)
    (harrived : Feed.arrived tr <+: items.flatMap frame) :
    s.emitted <+: items.map call ∧
      (Feed.arrived tr = items.flatMap frame → (reader bothHandlers).complete s = none →
        s.emitted = items.map call) := by
  obtain ⟨hasks, hstage, hemits⟩ := plays_chunks h hexact (r := {}) rfl
  have hread := StreamReader.emitted_of_run (K := fun r => r.stage = .header) [] hasks hstage
    (fun r more bs hr hwant hpre => by
      -- the reader waits for a header, and nothing is left to read it from
      rw [List.prefix_nil, List.append_eq_nil_iff] at hpre
      rw [want_header _ hr, hpre.2] at hwant
      cases hwant) hrun hfail
    (by rwa [flatten_chunks, List.append_nil])
  rw [flatten_chunks, List.append_nil] at hread
  rw [← hemits]
  exact hread

/-- **A length field that does not fit** stops the reader with an error, after all messages
before it. -/
theorem emitted_of_too_long (h : ∀ item ∈ good, item.Formed) (hexact : ∀ item ∈ good, item.Exact)
    (hitem : item.Formed) (hlong : ¬ item.FieldFits)
    (hrun : Run (reader bothHandlers).system tr s) (hfail : ∀ t ∈ tr, t.event ≠ .fail)
    (harrived : Feed.arrived tr <+: (good ++ item :: tail).flatMap frame) :
    s.emitted <+: good.map call ++ [.error] ∧
      (Feed.arrived tr = (good ++ item :: tail).flatMap frame →
        (reader bothHandlers).complete s = none → s.emitted = good.map call ++ [.error]) := by
  obtain ⟨hasks, hstage, hemits⟩ := plays_chunks h hexact (r := {}) rfl
  have hlen : 255 < item.header.length.toNat := by
    rw [hitem.length_eq]
    exact Nat.not_le.mp hlong
  have hstops := handle_header_of_gt bothHandlers hstage hlen
  have hplay := (reader bothHandlers).play_append (chunks good) [item.header.buf.toList] {}
  simp only [StreamReader.play, hstops, hemits, List.append_nil] at hplay
  have hasks' : (reader bothHandlers).Asks {} (chunks good ++ [item.header.buf.toList]) := by
    refine StreamReader.asks_append.mpr ⟨hasks, ?_, trivial⟩
    rw [want_header _ hstage, Vector.length_toList]
  have hflat : (chunks good ++ [item.header.buf.toList]).flatten
      ++ (item.body ++ tail.flatMap frame) = (good ++ item :: tail).flatMap frame := by
    rw [List.flatten_append, flatten_chunks, List.flatMap_append, List.flatMap_cons]
    simp [frame]
  have hread := StreamReader.emitted_of_run (K := fun r => r.stage = .stopped)
    (item.body ++ tail.flatMap frame) hasks' (by
      show ((reader bothHandlers).play {} _).1.stage = _
      rw [hplay]) (fun r more bs hr hwant _ => by
      simp only [reader, hr] at hwant
      cases hwant) hrun hfail (by rwa [hflat])
  rw [hflat] at hread
  have htotal : ((reader bothHandlers).play (reader bothHandlers).start
      (chunks good ++ [item.header.buf.toList])).2 = good.map call ++ [.error] := by
    show ((reader bothHandlers).play {} _).2 = _
    rw [hplay]
    rfl
  rwa [htotal] at hread

/-- **A message that is not exact** although its length field fits is delivered altered. -/
theorem emitted_of_altered (h : ∀ item ∈ good, item.Formed) (hexact : ∀ item ∈ good, item.Exact)
    (hitem : item.Formed) (hfits : item.FieldFits)
    (hrun : Run (reader bothHandlers).system tr s) (hfail : ∀ t ∈ tr, t.event ≠ .fail)
    (harrived : Feed.arrived tr = (good ++ item :: tail).flatMap frame)
    (hrest : (reader bothHandlers).complete s = none) :
    ∃ later, s.emitted
      = good.map call ++ .handler item.header.type item.received :: later := by
  obtain ⟨hasks, hstage, hemits⟩ := plays_chunks h hexact (r := {}) rfl
  obtain ⟨hasks', -, hemits'⟩ := plays_message hitem hfits hstage
  generalize hcut : item.body.take (item.body.length % 65536) = cut at hasks' hemits'
  have hplay := (reader bothHandlers).play_append (chunks good) [item.header.buf.toList, cut] {}
  have hflat : (chunks good ++ [item.header.buf.toList, cut]).flatten
      ++ (item.body.drop (item.body.length % 65536) ++ tail.flatMap frame)
        = (good ++ item :: tail).flatMap frame := by
    rw [List.flatten_append, flatten_chunks, List.flatMap_append, List.flatMap_cons, frame, ← hcut]
    simp only [List.flatten_cons, List.flatten_nil, List.append_nil, List.append_assoc,
      List.append_cancel_left_eq]
    rw [← List.append_assoc, List.take_append_drop]
  have hasksAll := StreamReader.asks_append.mpr ⟨hasks, hasks'⟩
  have hprogress := StreamReader.progress_of_run (K := fun _ => True) (Q := fun _ => True)
    (item.body.drop (item.body.length % 65536) ++ tail.flatMap frame) hasksAll trivial
    (fun _ _ _ _ _ _ => ⟨trivial, fun _ _ => trivial⟩) hrun hfail (by rw [hflat, harrived])
  obtain ⟨more, later, -, -, -, hemitted⟩ := StreamReader.past_of_rest hasksAll hprogress
    ((StreamReader.consumed_append_unread hrun).trans (harrived.trans hflat.symm)) hrest
  refine ⟨later, ?_⟩
  rw [hemitted]
  show ((reader bothHandlers).play {} _).2 ++ later = _
  rw [hplay]
  show (_ ++ _) ++ later = _
  rw [hemits, hemits', List.append_assoc]
  rfl

end

/-- Reading on from any state comes to an end. -/
theorem comes_to_rest {tr : List (Transition (Feed BufRead BufReadCall) FeedEvent)}
    {s : Feed BufRead BufReadCall} (h : Run (reader bothHandlers).system tr s) :
    ∃ tr' s', Run (reader bothHandlers).system (tr ++ tr') s' ∧
      (∀ t ∈ tr', t.event = .complete) ∧ (reader bothHandlers).complete s' = none := by
  apply StreamReader.exists_quiescent (fun r => if r.stage = .body then 1 else 0) ?_ h
  -- only a body can be empty, and a header is read after it
  intro r hwant
  cases hstage : r.stage with
  | header =>
      rw [want_header _ hstage] at hwant
      cases hwant
  | body =>
      simp only [reader, hstage, handleBodyRead]
      split
      · simp
      · split <;> simp [reportError]
  | stopped =>
      simp only [reader, hstage] at hwant
      cases hwant

end BufRead

open BufRead

/-! ## Both together -/

/-- **Messages are read back** so far: what the handlers have been given is a prefix of what
has been sent; and if all of that has arrived, the reader comes to rest when it has delivered
everything, or has called the error handler if a body is longer than 255 bytes. -/
def ReadsBack (w : BufWrite) (tr : List (Transition (Feed BufRead BufReadCall) FeedEvent))
    (s : Feed BufRead BufReadCall) : Prop :=
  delivered s.emitted <+: w.messages ∧
    (Feed.arrived tr = w.written → ∃ tr' s', Run (reader bothHandlers).system (tr ++ tr') s' ∧
      (∀ t ∈ tr', t.event = .complete) ∧ (reader bothHandlers).complete s' = none ∧
      ((∀ m ∈ w.messages, m.2.length ≤ 255) → delivered s'.emitted = w.messages) ∧
      ((∃ m ∈ w.messages, 255 < m.2.length) → .error ∈ s'.emitted))

/-- The first message that is not exact, if there is one. -/
theorem exact_or_split (items : List BufItem) : (∀ item ∈ items, item.Exact) ∨
    ∃ good item tail, items = good ++ item :: tail ∧ (∀ item ∈ good, item.Exact) ∧
      ¬ item.Exact := by
  induction items with
  | nil => exact Or.inl (List.forall_mem_nil _)
  | cons item items ih =>
      by_cases hitem : item.Exact
      · rcases ih with hall | ⟨good, item', tail, rfl, hgood, hnot⟩
        · exact Or.inl (List.forall_mem_cons.mpr ⟨hitem, hall⟩)
        · exact Or.inr ⟨item :: good, item', tail, rfl, List.forall_mem_cons.mpr ⟨hitem, hgood⟩,
            hnot⟩
      · exact Or.inr ⟨[], item, items, rfl, List.forall_mem_nil _, hitem⟩

theorem takeWhile_fieldFits {good tail : List BufItem} {item : BufItem}
    (hgood : ∀ item ∈ good, item.Exact) :
    (good ++ item :: tail).takeWhile FieldFits
      = good ++ (item :: tail).takeWhile FieldFits := by
  apply List.takeWhile_append_of_pos
  intro x hx
  exact decide_eq_true (hgood x hx).fieldFits

section

variable {w : BufWrite} {tr : List (Transition (Feed BufRead BufReadCall) FeedEvent)}
  {s : Feed BufRead BufReadCall}

/-- Reading goes on to a state of rest, in a run of the same bytes. -/
theorem rest_of_run (hrun : Run (reader bothHandlers).system tr s)
    (hfail : ∀ t ∈ tr, t.event ≠ .fail) :
    ∃ tr' s', Run (reader bothHandlers).system (tr ++ tr') s' ∧
      (∀ t ∈ tr', t.event = .complete) ∧ (reader bothHandlers).complete s' = none ∧
      (∀ t ∈ tr ++ tr', t.event ≠ .fail) ∧ Feed.arrived (tr ++ tr') = Feed.arrived tr := by
  obtain ⟨tr', s', hrun', hcomplete, hrest⟩ := comes_to_rest hrun
  refine ⟨tr', s', hrun', hcomplete, hrest, ?_, ?_⟩
  · refine List.forall_mem_append.mpr ⟨hfail, fun t ht => ?_⟩
    rw [hcomplete t ht]
    exact FeedEvent.noConfusion
  · rw [Feed.arrived_append, Feed.arrived_of_complete hcomplete, List.append_nil]

/-- What a clean stream makes the reader call: the handlers for the messages up to the first
one that is too long, and then the error handler. -/
theorem emitted_of_clean (hformed : ∀ item ∈ w.handed, item.Formed) (hclean : w.Clean) :
    ∃ calls, delivered calls <+: w.messages ∧
      ((∀ m ∈ w.messages, m.2.length ≤ 255) → delivered calls = w.messages) ∧
      ((∃ m ∈ w.messages, 255 < m.2.length) → .error ∈ calls) ∧
      ∀ {tr s}, Run (reader bothHandlers).system tr s → (∀ t ∈ tr, t.event ≠ .fail) →
        Feed.arrived tr <+: w.written →
        s.emitted <+: calls ∧ (Feed.arrived tr = w.written →
          (reader bothHandlers).complete s = none → s.emitted = calls) := by
  rcases exact_or_split w.handed with hexact | ⟨good, item, tail, hsplit, hgood, hnot⟩
  · refine ⟨w.handed.map call, ?_, ?_, ?_, emitted_of_exact hformed hexact⟩
    · rw [delivered_call]
      exact List.prefix_rfl
    · intro _
      apply delivered_call
    · rintro ⟨m, hm, hlong⟩
      obtain ⟨item, hitem, rfl⟩ := List.mem_map.mp hm
      exact absurd (hexact item hitem).1 (Nat.not_le.mpr hlong)
  · have hlong : ¬ item.FieldFits := by
      intro hfits
      apply hnot
      apply hclean
      rw [hsplit, takeWhile_fieldFits hgood, List.takeWhile_cons, decide_eq_true hfits]
      exact List.mem_append_right _ List.mem_cons_self
    rw [hsplit, List.forall_mem_append, List.forall_mem_cons] at hformed
    have hdelivered : delivered (good.map call ++ [.error]) = good.map message := by
      rw [delivered, List.filterMap_append, ← delivered, delivered_call]
      exact List.append_nil _
    have hmessages : w.messages = good.map message ++ item.message :: tail.map message := by
      rw [BufWrite.messages, hsplit, List.map_append, List.map_cons]
    refine ⟨good.map call ++ [.error], ?_, ?_, ?_, ?_⟩
    · rw [hdelivered, hmessages]
      apply List.prefix_append
    · intro hshort
      have hle := hshort item.message (by rw [hmessages]; simp)
      exact absurd ((Nat.mod_le _ _).trans hle) hlong
    · intro _
      simp
    · intro tr s hrun hfail harrived
      rw [BufWrite.written, hsplit] at harrived ⊢
      exact emitted_of_too_long hformed.1 hgood hformed.2.1 hlong hrun hfail harrived

theorem readsBack_of_clean (hformed : ∀ item ∈ w.handed, item.Formed) (hclean : w.Clean)
    (hrun : Run (reader bothHandlers).system tr s) (hfail : ∀ t ∈ tr, t.event ≠ .fail)
    (harrived : Feed.arrived tr <+: w.written) : ReadsBack w tr s := by
  obtain ⟨calls, hpre, hshort, hlong, hreads⟩ := emitted_of_clean hformed hclean
  refine ⟨((hreads hrun hfail harrived).1.filterMap _).trans hpre, fun hall => ?_⟩
  obtain ⟨tr', s', hrun', hcomplete, hrest, hfail', harrived'⟩ := rest_of_run hrun hfail
  have hemitted : s'.emitted = calls := by
    rw [← harrived'] at hall harrived
    exact (hreads hrun' hfail' harrived).2 hall hrest
  refine ⟨tr', s', hrun', hcomplete, hrest, ?_, ?_⟩
  · rw [hemitted]
    exact hshort
  · rw [hemitted]
    exact hlong

/-- A stream that is not clean is delivered altered when all of it has arrived. -/
theorem clean_of_readsBack (hformed : ∀ item ∈ w.handed, item.Formed)
    (hreads : ∀ tr s, Run (reader bothHandlers).system tr s → (∀ t ∈ tr, t.event ≠ .fail) →
      Feed.arrived tr <+: w.written → ReadsBack w tr s) : w.Clean := by
  rcases exact_or_split w.handed with hexact | ⟨good, item, tail, hsplit, hgood, hnot⟩
  · intro item hmem
    exact hexact item (List.takeWhile_prefix _ |>.subset hmem)
  · have hitem : item.Formed := hformed item (by rw [hsplit]; simp)
    have hformed' : ∀ item ∈ good, item.Formed := fun x hx => hformed x (by
      rw [hsplit]
      exact List.mem_append_left _ hx)
    by_cases hfits : item.FieldFits
    · -- the whole stream arrives in one segment
      have harrive : Run (reader bothHandlers).system
          ([] ++ [⟨_, .arrive w.written, (reader bothHandlers).initial.arrive w.written⟩]) _ :=
        (Run.start rfl).extend rfl
      obtain ⟨tr', s', hrun, -, hrest, hfail, harrived⟩ := rest_of_run harrive (by simp)
      rw [Feed.arrived_extend] at harrived
      replace harrived : Feed.arrived _ = w.written := harrived
      obtain ⟨later, hemitted⟩ := emitted_of_altered hformed' hgood hitem hfits hrun hfail
        (by rw [harrived, BufWrite.written, hsplit]) hrest
      obtain ⟨hpre, -⟩ := hreads _ _ hrun hfail (by rw [harrived])
      rw [hemitted, BufWrite.messages, hsplit, List.map_append, List.map_cons, delivered,
        List.filterMap_append, ← delivered, delivered_call, List.prefix_append_right_inj] at hpre
      obtain ⟨hmessage, -⟩ := List.cons_prefix_cons.mp hpre
      exact absurd ((received_eq_iff hfits).mp (congrArg Prod.snd hmessage)) hnot
    · -- the reader is meant to stop at the message that is not exact
      intro x hmem
      rw [hsplit, takeWhile_fieldFits hgood, List.takeWhile_cons, decide_eq_false hfits] at hmem
      rw [if_neg Bool.false_ne_true, List.append_nil] at hmem
      exact hgood x hmem

end

/-- **When framing does not corrupt.**  Whatever messages of the two types a `bufwrite` has
handed to its socket: a `bufread` with handlers for both types reads them back, in whatever
segments they arrive, exactly if every body before the first whose length modulo 65536 is
above 255 is at most 255 bytes long and has no null. -/
theorem framing_iff {cbs : BufWriteCallbacks} {trw : List (Transition BufWrite BufWriteEvent)}
    {w : BufWrite} (hw : Run (BufWrite.system cbs) trw w)
    (htypes : ∀ t ∈ trw, ∀ str, t.event ≠ .sendmsg .notAMessage str) :
    (∀ tr s, Run (reader bothHandlers).system tr s → (∀ t ∈ tr, t.event ≠ .fail) →
      Feed.arrived tr <+: w.written → ReadsBack w tr s) ↔ w.Clean := by
  have hformed : ∀ item ∈ w.handed, item.Formed := fun item hmem =>
    BufWrite.formed_of_run hw htypes item (List.mem_append_left _ hmem)
  constructor
  · exact clean_of_readsBack hformed
  · intro hclean tr s hrun hfail harrived
    exact readsBack_of_clean hformed hclean hrun hfail harrived

/-! ## Two messages -/

/-- A connected writer that has sent one message. -/
def wrote (str : Bytes) : BufWrite := (BufWrite.setConnected {}).sendmsg .homeAgentDiscovered str

theorem run_wrote (str : Bytes) : ∃ trw, Run (BufWrite.system ⟨true, true⟩) trw (wrote str) ∧
    ∀ t ∈ trw, ∀ str, t.event ≠ .sendmsg .notAMessage str := by
  have hconn := (Run.start (M := BufWrite.system ⟨true, true⟩) rfl).extend (e := .connected) rfl
  refine ⟨_, hconn.extend (e := .sendmsg .homeAgentDiscovered str) rfl, ?_⟩
  intro t ht str' hevent
  simp only [List.nil_append, List.cons_append, List.mem_cons, List.not_mem_nil, or_false] at ht
  rcases ht with rfl | rfl
  · cases hevent
  · cases hevent

/-- A host name is read back. -/
theorem hostName_read_back : (wrote [104, 97]).messages = [(.homeAgentDiscovered, [104, 97])] ∧
    ∀ tr s, Run (reader bothHandlers).system tr s → (∀ t ∈ tr, t.event ≠ .fail) →
      Feed.arrived tr <+: (wrote [104, 97]).written → ReadsBack (wrote [104, 97]) tr s := by
  obtain ⟨trw, hw, htypes⟩ := run_wrote [104, 97]
  refine ⟨rfl, (framing_iff hw htypes).mpr ?_⟩
  show ∀ item ∈ (wrote [104, 97]).handed.takeWhile FieldFits, item.Exact
  decide

/-- **A body with a null is cut off**: `a\0b` is delivered as `a`. -/
theorem null_cuts_body : ∃ trw, Run (BufWrite.system ⟨true, true⟩) trw (wrote [97, 0, 98]) ∧
    ∃ tr s, Run (reader bothHandlers).system tr s ∧ (∀ t ∈ tr, t.event ≠ .fail) ∧
      Feed.arrived tr = (wrote [97, 0, 98]).written ∧
      delivered s.emitted = [(.homeAgentDiscovered, [97])] ∧
      ¬ ReadsBack (wrote [97, 0, 98]) tr s := by
  obtain ⟨trw, hw, -⟩ := run_wrote [97, 0, 98]
  refine ⟨trw, hw, ?_⟩
  have hexec : (((reader bothHandlers).system.exec (reader bothHandlers).initial
      [.arrive [1, 0, 3, 97, 0, 98], .complete, .complete]).map Feed.emitted)
        = some [.handler .homeAgentDiscovered [97]] := by decide +kernel
  obtain ⟨s, hs, hemitted⟩ := Option.map_eq_some_iff.mp hexec
  obtain ⟨tr, hrun, hevents⟩ := Run.of_exec rfl hs
  have hdelivered : delivered s.emitted = [(.homeAgentDiscovered, [97])] := by
    rw [hemitted]
    rfl
  refine ⟨tr, s, hrun, ?_, ?_, hdelivered, ?_⟩
  · intro t ht hfail
    have hmem : t.event ∈ tr.map Transition.event := List.mem_map_of_mem ht
    rw [hevents, hfail] at hmem
    revert hmem
    decide
  · rw [Feed.arrived_of_events hevents]
    decide
  · rintro ⟨hpre, -⟩
    rw [hdelivered] at hpre
    revert hpre
    decide
