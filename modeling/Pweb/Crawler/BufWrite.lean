/-
# Sending crawler messages (`bufwrite`, `crawler_protocol/bufreadwrite.cpp`)

A `bufwrite` passes one message at a time to the socket; the others wait in a
queue, also before the connection exists.  A write that succeeds takes up the next
message, a write that fails reports its message and the whole queue to the error
handler.  A message is given the number of its `sendmsg` call, which stands for the
object that the call allocates.

`fate_of_messages` : in every run each message is in exactly one place, at most one
write is outstanding, and the queue of a connected writer without a write is empty;
messages are passed on in the order of their `sendmsg` calls unless `connected()` is
called while a write is outstanding and two messages wait (`order_can_be_lost`).
-/
import Pweb.Crawler.Messages
import Pweb.Foundation.Runs

open CrawlerProtocol

/-- `bufitem_t`, with the number of its `sendmsg` call. -/
structure BufItem where
  number : ℕ
  header : Header
  body : Bytes
  deriving DecidableEq, Repr

/-- `succb_` and `errcb_`: which of the two callbacks are set. -/
structure BufWriteCallbacks where
  succb : Bool
  errcb : Bool

/-- The members of a `bufwrite`, the writes that have not completed, the messages passed to
`sendmsg`, those handed to the socket, and those reported to the two callbacks. -/
structure BufWrite where
  connected : Bool := false
  sendInProgress : Bool := false
  sendQueue : List BufItem := []
  outstanding : List BufItem := []
  submitted : List BufItem := []
  handed : List BufItem := []
  succeeded : List BufItem := []
  failed : List BufItem := []
  deriving DecidableEq, Repr

/-- What can happen to a `bufwrite`: a call of `sendmsg`, a call of `connected`, or the
completion of a write, with or without an error. -/
inductive BufWriteEvent where
  | sendmsg (type : MessageType) (str : Bytes)
  | connected
  | sent (item : BufItem) (ec : Bool)
  deriving DecidableEq, Repr

namespace BufWrite

/-- `send_bufitem`. -/
def sendBufitem (w : BufWrite) (item : BufItem) : BufWrite :=
  if w.connected ∧ ¬ w.sendInProgress then
    { w with
      sendInProgress := true
      outstanding := w.outstanding ++ [item]
      handed := w.handed ++ [item] }
  else { w with sendQueue := w.sendQueue ++ [item] }

/-- `send_next_bufitem`. -/
def sendNextBufitem (w : BufWrite) : BufWrite :=
  match w.sendQueue with
  | [] => w
  | item :: rest => sendBufitem { w with sendQueue := rest } item

/-- The item that the next call of `sendmsg` allocates. -/
def newBufitem (w : BufWrite) (type : MessageType) (str : Bytes) : BufItem :=
  ⟨w.submitted.length, .ofMessage type str, str⟩

/-- `sendmsg`, whose function runs when the strand is free. -/
def sendmsg (w : BufWrite) (type : MessageType) (str : Bytes) : BufWrite :=
  sendBufitem { w with submitted := w.submitted ++ [w.newBufitem type str] }
    (w.newBufitem type str)

/-- `connected()`. -/
def setConnected (w : BufWrite) : BufWrite := sendNextBufitem { w with connected := true }

/-- `handle_bufitem_sent` of the write of `item`. -/
def handleBufitemSent (cbs : BufWriteCallbacks) (w : BufWrite) (ec : Bool) (item : BufItem) :
    BufWrite :=
  if ec then
    { w with
      sendInProgress := false
      sendQueue := []
      failed := w.failed ++ if cbs.errcb then item :: w.sendQueue else [] }
  else
    sendNextBufitem { w with
      sendInProgress := false
      succeeded := w.succeeded ++ if cbs.succb then [item] else [] }

/-- A `bufwrite` with these callbacks; a write completes if it is outstanding. -/
def system (cbs : BufWriteCallbacks) : TransitionSystem BufWrite BufWriteEvent where
  init w := w = {}
  step w
    | .sendmsg type str => some (w.sendmsg type str)
    | .connected => some w.setConnected
    | .sent item ec =>
      if item ∈ w.outstanding then
        some (handleBufitemSent cbs { w with outstanding := w.outstanding.erase item } ec item)
      else none

theorem step_sent {cbs : BufWriteCallbacks} {w : BufWrite} (item : BufItem) (ec : Bool)
    (h : item ∈ w.outstanding) : (system cbs).step w (.sent item ec)
      = some (handleBufitemSent cbs { w with outstanding := w.outstanding.erase item } ec item) :=
  if_pos h

/-! ## Places -/

/-- The places a message can be in: waiting, being written, reported through the success
handler, reported through the error handler. -/
def places (w : BufWrite) : List BufItem := w.sendQueue ++ w.outstanding ++ w.succeeded ++ w.failed

/-- The flag says whether the one write is outstanding, which takes a connection. -/
structure SingleWrite (w : BufWrite) : Prop where
  flag : w.sendInProgress = true ↔ w.outstanding ≠ []
  single : w.outstanding.length ≤ 1
  connected : w.outstanding ≠ [] → w.connected = true

/-- A connected writer without a write has nothing to send. -/
def Drained (w : BufWrite) : Prop := w.connected = true → w.outstanding = [] → w.sendQueue = []

section

variable (w : BufWrite) (item : BufItem)

/-- Either the item is handed to the socket, or it waits. -/
theorem sendBufitem_cases (h : w.SingleWrite) :
    (w.connected = true ∧ w.outstanding = [] ∧ w.sendBufitem item = { w with
      sendInProgress := true, outstanding := [item], handed := w.handed ++ [item] }) ∨
    ((w.connected = true → w.outstanding ≠ []) ∧
      w.sendBufitem item = { w with sendQueue := w.sendQueue ++ [item] }) := by
  unfold sendBufitem
  by_cases hfree : w.connected ∧ ¬ w.sendInProgress
  · have hnone : w.outstanding = [] := by
      by_contra hne
      exact hfree.2 (h.flag.mpr hne)
    left
    refine ⟨hfree.1, hnone, ?_⟩
    rw [if_pos hfree, hnone]
    rfl
  · right
    rw [if_neg hfree]
    refine ⟨fun hconn hnone => hfree ⟨hconn, fun hflag => ?_⟩, rfl⟩
    exact h.flag.mp hflag hnone

theorem places_sendBufitem (h : w.SingleWrite) :
    (w.sendBufitem item).places.Perm (item :: w.places) := by
  rcases sendBufitem_cases w item h with ⟨-, hnone, heq⟩ | ⟨-, heq⟩
  · rw [heq]
    simp only [places, hnone, List.append_nil, List.append_assoc]
    apply List.perm_middle
  · rw [heq]
    simp only [places, List.append_assoc]
    apply List.perm_middle

theorem singleWrite_sendBufitem (h : w.SingleWrite) : (w.sendBufitem item).SingleWrite := by
  rcases sendBufitem_cases w item h with ⟨hconn, -, heq⟩ | ⟨-, heq⟩
  · rw [heq]
    exact ⟨by simp, le_rfl, fun _ => hconn⟩
  · rw [heq]
    exact ⟨h.flag, h.single, h.connected⟩

theorem drained_sendBufitem (h : w.SingleWrite) : (w.sendBufitem item).Drained := by
  rcases sendBufitem_cases w item h with ⟨-, -, heq⟩ | ⟨hbusy, heq⟩
  · rw [heq]
    intro _ hnone
    simp at hnone
  · rw [heq]
    intro hconn hnone
    exact absurd hnone (hbusy hconn)

theorem places_sendNextBufitem (h : w.SingleWrite) : w.sendNextBufitem.places.Perm w.places := by
  unfold sendNextBufitem
  split
  · apply List.Perm.refl
  · next item rest hqueue =>
    have hplaces : w.places = item :: places { w with sendQueue := rest } := by
      simp only [places, hqueue, List.cons_append]
    rw [hplaces]
    apply places_sendBufitem
    exact ⟨h.flag, h.single, h.connected⟩

theorem singleWrite_sendNextBufitem (h : w.SingleWrite) : w.sendNextBufitem.SingleWrite := by
  unfold sendNextBufitem
  split
  · exact h
  · apply singleWrite_sendBufitem
    exact ⟨h.flag, h.single, h.connected⟩

theorem drained_sendNextBufitem (h : w.SingleWrite) : w.sendNextBufitem.Drained := by
  unfold sendNextBufitem
  split
  · next hqueue => exact fun _ _ => hqueue
  · apply drained_sendBufitem
    exact ⟨h.flag, h.single, h.connected⟩

@[simp] theorem submitted_sendBufitem : (w.sendBufitem item).submitted = w.submitted := by
  unfold sendBufitem
  split <;> rfl

@[simp] theorem submitted_sendNextBufitem : w.sendNextBufitem.submitted = w.submitted := by
  unfold sendNextBufitem
  split
  · rfl
  · apply submitted_sendBufitem

end

/-! ## Steps -/

/-- **The invariant of a writer**: the places hold exactly the messages passed to `sendmsg`,
which are numbered in the order of the calls. -/
structure Conserves (w : BufWrite) : Prop extends w.SingleWrite where
  drained : w.Drained
  places : w.places.Perm w.submitted
  numbered : w.submitted.map BufItem.number = List.range w.submitted.length

theorem Conserves.nodup {w : BufWrite} (h : w.Conserves) : w.submitted.Nodup := by
  apply List.Nodup.of_map BufItem.number
  rw [h.numbered]
  exact List.nodup_range

theorem conserves_initial : Conserves {} where
  flag := by simp
  single := Nat.zero_le _
  connected := by simp
  drained _ _ := rfl
  places := List.Perm.refl _
  numbered := rfl

section

variable {w : BufWrite} {cbs : BufWriteCallbacks}

theorem conserves_sendmsg (h : w.Conserves) (type : MessageType) (str : Bytes) :
    (w.sendmsg type str).Conserves := by
  have hsingle : SingleWrite { w with submitted := w.submitted ++ [w.newBufitem type str] } :=
    ⟨h.flag, h.single, h.connected⟩
  refine ⟨singleWrite_sendBufitem _ _ hsingle, drained_sendBufitem _ _ hsingle, ?_, ?_⟩
  · have hperm := places_sendBufitem _ (w.newBufitem type str) hsingle
    rw [sendmsg, submitted_sendBufitem]
    exact hperm.trans ((h.places.cons _).trans (List.perm_append_singleton _ _).symm)
  · rw [sendmsg, submitted_sendBufitem, List.map_append, h.numbered, List.length_append]
    exact List.range_succ.symm

theorem conserves_setConnected (h : w.Conserves) : w.setConnected.Conserves := by
  have hsingle : SingleWrite { w with connected := true } := ⟨h.flag, h.single, fun _ => rfl⟩
  refine ⟨singleWrite_sendNextBufitem _ hsingle, drained_sendNextBufitem _ hsingle, ?_, ?_⟩
  · rw [setConnected, submitted_sendNextBufitem]
    exact (places_sendNextBufitem _ hsingle).trans h.places
  · rw [setConnected, submitted_sendNextBufitem]
    exact h.numbered

/-- The outstanding write is the one that completes. -/
theorem SingleWrite.outstanding_eq (h : w.SingleWrite) {item : BufItem}
    (hmem : item ∈ w.outstanding) : w.outstanding = [item] := by
  have hsingle := h.single
  have hpos := List.length_pos_of_mem hmem
  obtain ⟨item', heq⟩ := List.length_eq_one_iff.mp (show w.outstanding.length = 1 by omega)
  rw [heq, List.mem_singleton] at hmem
  rw [heq, hmem]

theorem conserves_handleBufitemSent (h : w.Conserves) {item : BufItem} (ec : Bool)
    (hmem : item ∈ w.outstanding) :
    (handleBufitemSent ⟨true, true⟩ { w with outstanding := w.outstanding.erase item } ec
      item).Conserves := by
  have heq := h.outstanding_eq hmem
  have hnone : w.outstanding.erase item = [] := by
    rw [heq]
    apply List.erase_cons_head
  rw [hnone]
  cases ec with
  | true =>
      -- the message and everything that waits behind it are reported
      refine ⟨⟨by simp [handleBufitemSent], Nat.zero_le _, by simp [handleBufitemSent]⟩, ?_, ?_, ?_⟩
      · exact fun _ _ => rfl
      · refine List.Perm.trans ?_ h.places
        rw [List.perm_iff_count]
        intro a
        simp only [handleBufitemSent, places, heq, if_true, List.count_append, List.count_cons,
          List.count_nil]
        omega
      · exact h.numbered
  | false =>
      have hsingle : SingleWrite { w with
          outstanding := [], sendInProgress := false, succeeded := w.succeeded ++ [item] } :=
        ⟨by simp, Nat.zero_le _, fun hne => absurd rfl hne⟩
      refine ⟨singleWrite_sendNextBufitem _ hsingle, drained_sendNextBufitem _ hsingle, ?_, ?_⟩
      · simp only [handleBufitemSent, Bool.false_eq_true, if_false, if_true,
          submitted_sendNextBufitem]
        refine (places_sendNextBufitem _ hsingle).trans (List.Perm.trans ?_ h.places)
        rw [List.perm_iff_count]
        intro a
        simp only [places, heq, List.count_append, List.count_nil]
        omega
      · simp only [handleBufitemSent, Bool.false_eq_true, if_false, submitted_sendNextBufitem]
        exact h.numbered

/-- Every step keeps the invariant. -/
theorem conserves_step {w' : BufWrite} {e : BufWriteEvent} (h : w.Conserves)
    (hstep : (system ⟨true, true⟩).step w e = some w') : w'.Conserves := by
  cases e with
  | sendmsg type str =>
      cases hstep
      exact conserves_sendmsg h type str
  | connected =>
      cases hstep
      exact conserves_setConnected h
  | sent item ec =>
      obtain ⟨hmem, heq⟩ := Option.ite_none_right_eq_some.mp hstep
      cases heq
      exact conserves_handleBufitemSent h ec hmem

theorem conserves_of_run {tr : List (Transition BufWrite BufWriteEvent)}
    (h : Run (system ⟨true, true⟩) tr w) : w.Conserves := by
  apply h.invariant
  · rintro w rfl
    exact conserves_initial
  · intro w e w' hw hstep
    exact conserves_step hw hstep

end

/-! ## Order -/

/-- What has been handed to the socket and what waits is in the order of the calls. -/
def InOrder (w : BufWrite) : Prop := (w.handed ++ w.sendQueue).Sublist w.submitted

/-- `connected()` leaves the queue as it is: no write is outstanding, or at most one message
waits. -/
def KeepsQueue (t : Transition BufWrite BufWriteEvent) : Prop :=
  t.event = .connected → t.pre.outstanding = [] ∨ t.pre.sendQueue.length ≤ 1

section

variable {w : BufWrite} {cbs : BufWriteCallbacks}

/-- The next message is handed on from the front of the queue. -/
theorem inOrder_sendNextBufitem (h : w.SingleWrite) (hconn : w.connected = true)
    (hfree : w.outstanding = [] ∨ w.sendQueue.length ≤ 1) (horder : w.InOrder) :
    w.sendNextBufitem.InOrder := by
  unfold sendNextBufitem
  split
  · exact horder
  · next item rest hqueue =>
    rw [InOrder, hqueue] at horder
    have hsingle : SingleWrite { w with sendQueue := rest } := ⟨h.flag, h.single, h.connected⟩
    rcases sendBufitem_cases _ item hsingle with ⟨-, -, heq⟩ | ⟨hbusy, heq⟩
    · rw [heq, InOrder, List.append_assoc]
      exact horder
    · -- only a queue of one message is left in order by a pop and a push
      have hrest : rest = [] := by
        rcases hfree with hnone | hshort
        · exact absurd hnone (hbusy hconn)
        · rw [hqueue, List.length_cons] at hshort
          exact List.eq_nil_of_length_eq_zero (by omega)
      rw [heq, InOrder, hrest]
      rwa [hrest] at horder

theorem inOrder_sendmsg (h : w.Conserves) (horder : w.InOrder) (type : MessageType) (str : Bytes) :
    (w.sendmsg type str).InOrder := by
  have hsingle : SingleWrite { w with submitted := w.submitted ++ [w.newBufitem type str] } :=
    ⟨h.flag, h.single, h.connected⟩
  rcases sendBufitem_cases _ (w.newBufitem type str) hsingle with ⟨hconn, hnone, heq⟩ | ⟨-, heq⟩
  · have hempty : w.sendQueue = [] := h.drained hconn hnone
    rw [InOrder, hempty, List.append_nil] at horder
    rw [sendmsg, heq, InOrder]
    show (w.handed ++ [w.newBufitem type str] ++ w.sendQueue).Sublist _
    rw [hempty, List.append_nil]
    exact horder.append_right _
  · rw [sendmsg, heq, InOrder]
    show (w.handed ++ (w.sendQueue ++ [w.newBufitem type str])).Sublist _
    rw [← List.append_assoc]
    exact List.Sublist.append_right horder _

theorem inOrder_handleBufitemSent (h : w.Conserves) (horder : w.InOrder) {item : BufItem}
    (ec : Bool) (hmem : item ∈ w.outstanding) :
    (handleBufitemSent cbs { w with outstanding := w.outstanding.erase item } ec item).InOrder := by
  have heq := h.outstanding_eq hmem
  have hnone : w.outstanding.erase item = [] := by
    rw [heq]
    apply List.erase_cons_head
  have hconn : w.connected = true := h.connected (by simp [heq])
  rw [hnone]
  cases ec with
  | true =>
      show (w.handed ++ []).Sublist w.submitted
      rw [List.append_nil]
      exact (List.sublist_append_left _ _).trans horder
  | false =>
      apply inOrder_sendNextBufitem
      · exact ⟨by simp, Nat.zero_le _, fun hne => absurd rfl hne⟩
      · exact hconn
      · exact Or.inl rfl
      · exact horder

theorem inOrder_step {w' : BufWrite} {e : BufWriteEvent} (h : w.Conserves) (horder : w.InOrder)
    (hkeep : KeepsQueue ⟨w, e, w'⟩) (hstep : (system cbs).step w e = some w') : w'.InOrder := by
  cases e with
  | sendmsg type str =>
      cases hstep
      exact inOrder_sendmsg h horder type str
  | connected =>
      cases hstep
      apply inOrder_sendNextBufitem
      · exact ⟨h.flag, h.single, fun _ => rfl⟩
      · rfl
      · exact hkeep rfl
      · exact horder
  | sent item ec =>
      obtain ⟨hmem, heq⟩ := Option.ite_none_right_eq_some.mp hstep
      cases heq
      exact inOrder_handleBufitemSent h horder ec hmem

end

/-- **The fate of messages.**  In every run of a `bufwrite` with both callbacks: each message
passed to `sendmsg` is in exactly one place, at most one write is outstanding, and a connected
writer without a write has nothing waiting.  Messages are handed to the socket in the order of
the calls, provided that no `connected()` comes while a write is outstanding and two messages
wait. -/
theorem fate_of_messages {tr : List (Transition BufWrite BufWriteEvent)} {w : BufWrite}
    (h : Run (system ⟨true, true⟩) tr w) :
    (w.submitted.Nodup ∧ ∀ item ∈ w.submitted, w.places.count item = 1) ∧
      w.outstanding.length ≤ 1 ∧
      (w.connected = true → w.outstanding = [] → w.sendQueue = []) ∧
      ((∀ t ∈ tr, KeepsQueue t) → w.handed.Sublist w.submitted) := by
  have hw := conserves_of_run h
  refine ⟨⟨hw.nodup, fun item hmem => ?_⟩, hw.single, hw.drained, fun hkeep => ?_⟩
  · rw [hw.places.count_eq]
    exact List.count_eq_one_of_mem hw.nodup hmem
  · have horder : w.InOrder := by
      refine h.invariant_when (C := KeepsQueue) ?_ ?_ hkeep
      · rintro w rfl
        exact List.Sublist.refl _
      · intro tr w e w' hrun horder hC hstep
        exact inOrder_step (conserves_of_run hrun) horder hC hstep
    exact (List.sublist_append_left _ _).trans horder

/-- Two messages, the first of which cannot be written: both are reported to the error handler. -/
theorem fate_of_failed_write : ∃ tr w, Run (system ⟨true, true⟩) tr w ∧
    w.failed.map BufItem.number = [0, 1] ∧ (∀ item ∈ w.submitted, w.places.count item = 1) ∧
    w.handed.Sublist w.submitted := by
  have hstart : Run (system ⟨true, true⟩) [] {} := Run.start rfl
  have hfirst := hstart.extend (e := .sendmsg .homeAgentAssignment [97]) rfl
  have hconn := hfirst.extend (e := .connected) rfl
  have hsecond := hconn.extend (e := .sendmsg .homeAgentAssignment [98]) rfl
  have hfailed := hsecond.extend
    (step_sent ⟨0, .ofMessage .homeAgentAssignment [97], [97]⟩ true (by decide))
  obtain ⟨⟨-, hplaces⟩, -, -, horder⟩ := fate_of_messages hfailed
  refine ⟨_, _, hfailed, by decide, hplaces, horder ?_⟩
  intro t ht hevent
  simp only [List.nil_append, List.cons_append, List.mem_cons, List.not_mem_nil, or_false] at ht
  rcases ht with rfl | rfl | rfl | rfl
  · cases hevent
  · exact Or.inl rfl
  · cases hevent
  · cases hevent

/-- Three messages, `connected()` after the first, and again while the other two wait. -/
def twiceConnected : List BufWriteEvent :=
  [.sendmsg .homeAgentAssignment [97], .connected, .sendmsg .homeAgentAssignment [98],
    .sendmsg .homeAgentAssignment [99], .connected,
    .sent ⟨0, .ofMessage .homeAgentAssignment [97], [97]⟩ false,
    .sent ⟨2, .ofMessage .homeAgentAssignment [99], [99]⟩ false]

/-- **Order can be lost**: the second `connected()` moves the second message behind the third. -/
theorem order_can_be_lost : ∃ tr w, Run (system ⟨true, true⟩) tr w ∧
    w.handed.map BufItem.number = [0, 2, 1] ∧ ¬ w.handed.Sublist w.submitted := by
  have hexec : ((system ⟨true, true⟩).exec {} twiceConnected).map
      (fun w => (w.handed.map BufItem.number, decide (w.handed.Sublist w.submitted)))
        = some ([0, 2, 1], false) := by decide
  obtain ⟨w, hw, heq⟩ := Option.map_eq_some_iff.mp hexec
  obtain ⟨hnumbers, hlost⟩ := Prod.mk.inj heq
  obtain ⟨tr, hrun, -⟩ := Run.of_exec rfl hw
  exact ⟨tr, w, hrun, hnumbers, of_decide_eq_false hlost⟩

end BufWrite
