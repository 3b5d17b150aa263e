/-
# Where the reply reader stays in its buffer

The home agent port accepts anyone, so the lengths in a reply can be any signed
32-bit integers.  A chunk that is sized by a length between -8 and -5 is shorter than the
field at its end, and the handler reads bytes before the buffer; every other access of
every handler is in bounds (`accesses_in_bounds_iff`).
-/
import Pweb.Dnsgw.HaReplyReader

open ByteOrder

namespace HaReplyReader

/-- The accesses to the buffer, in order. -/
def accesses (actions : List HaAction) : List BufAccess :=
  actions.filterMap fun action =>
    match action with
    | .access a => some a
    | _ => none

@[simp] theorem accesses_append (actions actions' : List HaAction) :
    accesses (actions ++ actions') = accesses actions ++ accesses actions' :=
  List.filterMap_append

/-- The length field that was read last. -/
def lastInt (consumed : Bytes) : Int32 := absInt (consumed.drop (consumed.length - 4))

/-- A length that makes a chunk too short for the field at its end. -/
def TooShort (len : Int32) : Prop := -8 ≤ len.toInt ∧ len.toInt ≤ -5

/-- A step at which the handler of a chunk of variable size finds its field in the chunk:
the length that the chunk was sized by is not between -8 and -5. -/
def FieldArrives (t : Transition (Feed HaReplyReader HaAction) FeedEvent) : Prop :=
  t.event = .complete →
    t.pre.reader.stage = .srchostlen ∨ t.pre.reader.stage = .devicenamelen →
    ¬ TooShort (lastInt t.pre.consumed)

/-- What the reader asks for, by the chunk it is reading. -/
structure SizeSound (r : HaReplyReader) (consumed : Bytes) : Prop where
  le_max : r.size ≤ 256
  desthostlen : r.stage = .desthostlen → r.size = 9
  replyhostlen : r.stage = .replyhostlen → r.size = 40
  sized : r.stage = .srchostlen ∨ r.stage = .devicenamelen →
    r.size = bufferSize bufLen (sizeT ((lastInt consumed).toInt + 4 + 4))

variable {outstanding : UInt16 → Bool} {r : HaReplyReader} {consumed bs : Bytes}

/-- A completed read is as long as the reader asked for. -/
theorem size_of_want {n : ℕ} (h : (reader outstanding).want r = some n) : n = r.size := by
  simp only [reader] at h
  split_ifs at h
  exact (Option.some.inj h).symm

/-- Only the size of a chunk with a field at its end matters. -/
theorem SizeSound.of_other (hmax : r.size ≤ 256)
    (hstage : r.stage = .absheader ∨ r.stage = .devicename ∨ r.stage = .closed) :
    SizeSound r consumed := by
  refine ⟨hmax, fun h => ?_, fun h => ?_, fun h => ?_⟩
  · rw [h] at hstage
    rcases hstage with h | h | h <;> cases h
  · rw [h] at hstage
    rcases hstage with h | h | h <;> cases h
  · rcases hstage with h' | h' | h' <;> rw [h'] at h <;> rcases h with h | h <;> cases h

theorem SizeSound.closed (hsize : r.size ≤ 256) (consumed : Bytes) :
    SizeSound { r with stage := .closed } consumed :=
  of_other hsize (Or.inr (Or.inr rfl))

/-- Asking for a chunk of variable size by the field just read. -/
theorem SizeSound.next_sized (hlen : 4 ≤ bs.length) {stage : ReadStage}
    (hstage : stage = .srchostlen ∨ stage = .devicenamelen) (r : HaReplyReader) :
    SizeSound (r.next stage ((absInt (bs.drop (bs.length - 4))).toInt + 4 + 4))
      (consumed ++ bs) where
  le_max := Nat.min_le_left _ _
  desthostlen h := by
    rcases hstage with rfl | rfl <;> cases h
  replyhostlen h := by
    rcases hstage with rfl | rfl <;> cases h
  sized _ := by rw [lastInt, absInt_append hlen, next]

/-- Asking for any chunk without a field that is checked by its size. -/
theorem SizeSound.next_other {stage : ReadStage} (hstage : stage = .absheader ∨ stage = .devicename)
    (r : HaReplyReader) (size : ℤ) : SizeSound (r.next stage size) consumed := by
  apply of_other (Nat.min_le_left _ _)
  exact hstage.imp_right Or.inl

/-- **Every handler** sizes the next chunk by the field it has read. -/
theorem SizeSound.handle (h : SizeSound r consumed) (hsize : bs.length = r.size) :
    SizeSound ((reader outstanding).handle r bs).1 (consumed ++ bs) := by
  simp only [reader]
  split
  next hstage =>
    have hlen : 4 ≤ bs.length := by
      rw [hsize, h.desthostlen hstage]
      decide
    by_cases htype : bs.headD 0 = AbsMessage.absReply
    · rw [handleReadToDesthostlen_of_reply (trailingInt_of_le hlen) htype]
      exact next_sized hlen (Or.inl rfl) _
    · rw [handleReadToDesthostlen_of_ne htype]
      exact closed h.le_max _
  next hstage =>
    unfold handleReadToSrchostlen
    split
    · exact next_other (Or.inl rfl) r _
    · exact closed h.le_max _
  next hstage =>
    refine ⟨Nat.min_le_left _ _, fun h => ?_, fun _ => rfl, fun h => ?_⟩
    · cases h
    · rcases h with h | h <;> cases h
  next hstage =>
    unfold handleReadToReplyhostlen
    have hlen : 4 ≤ bs.length := by
      rw [hsize, h.replyhostlen hstage]
      decide
    rw [trailingInt_of_le hlen]
    exact next_sized hlen (Or.inr rfl) _
  next hstage =>
    unfold handleReadToDevicenamelen
    split
    · exact next_other (Or.inr rfl) r _
    · exact closed h.le_max _
  next => exact closed h.le_max _
  next hstage => exact of_other h.le_max (Or.inr (Or.inr hstage))

theorem sizeSound_of_run {tr : List (Transition (Feed HaReplyReader HaAction) FeedEvent)}
    {s : Feed HaReplyReader HaAction} (h : Run (reader outstanding).system tr s) :
    SizeSound s.reader s.consumed := by
  refine StreamReader.invariant (J := fun r consumed _ => SizeSound r consumed) ?_ ?_ ?_ h
  · refine ⟨by simp [reader], fun _ => rfl, fun h => ?_, fun h => ?_⟩
    · cases h
    · rcases h with h | h <;> cases h
  · intro r consumed _ bs hr hwant
    exact hr.handle (size_of_want hwant)
  · intro r consumed _ hr _
    exact SizeSound.closed hr.le_max consumed

/-! ## One step -/

theorem trailingAccess_inBounds_iff (hmax : bs.length ≤ 256) (before after : List HaAction)
    (hbefore : ∀ a ∈ accesses before, a.InBounds) (hafter : ∀ a ∈ accesses after, a.InBounds) :
    (∀ a ∈ accesses (before ++ trailingAccess bs :: after), a.InBounds) ↔ 4 ≤ bs.length := by
  have hhere : (BufAccess.field ((bs.length : ℤ) - 4) 4 bs.length).InBounds ↔ 4 ≤ bs.length := by
    unfold BufAccess.InBounds
    omega
  rw [accesses_append, List.forall_mem_append, iff_true_intro hbefore, true_and]
  show (∀ a ∈ _ :: accesses after, a.InBounds) ↔ _
  rw [List.forall_mem_cons, hhere, iff_true_intro hafter, and_true]

/-- The mark behind the host name is made in the buffer. -/
theorem handleReadToDevicenamelen_accesses (outstanding : UInt16 → Bool) (r : HaReplyReader)
    (bs : Bytes) : ∃ after,
      (r.handleReadToDevicenamelen outstanding bs).2 = trailingAccess bs :: after ∧
      ∀ a ∈ accesses after, a.InBounds := by
  unfold handleReadToDevicenamelen
  cases trailingInt bs with
  | none => exact ⟨[], rfl, List.forall_mem_nil _⟩
  | some devicenamelen =>
      by_cases hmark : outstanding r.sequence ∧ r.hostlen ≠ 0 ∧ bufLen > r.hostlen
      · refine ⟨[.access (.index r.hostlen), .reply r.sequence r.hostlen bs], ?_, ?_⟩
        · simp only [if_pos hmark, List.cons_append, List.nil_append]
        · exact List.forall_mem_singleton.mpr hmark.2.2
      · refine ⟨[.reply r.sequence r.hostlen bs], ?_, ?_⟩
        · simp only [if_neg hmark, List.append_nil, List.singleton_append]
        · exact List.forall_mem_nil _

/-- The fields of the first chunk are in it. -/
theorem handleReadToDesthostlen_inBounds (r : HaReplyReader) (hlen : bs.length = 9) :
    ∀ a ∈ accesses (r.handleReadToDesthostlen bs).2, a.InBounds := by
  have hfield : ∀ offset size : ℕ, offset + size ≤ 9 →
      (BufAccess.field offset size bs.length).InBounds := by
    intro offset size hle
    unfold BufAccess.InBounds
    omega
  by_cases htype : bs.headD 0 = AbsMessage.absReply
  · rw [handleReadToDesthostlen_of_reply (trailingInt_of_le (by omega)) htype]
    refine (trailingAccess_inBounds_iff (by omega) [_, _] [] ?_ (List.forall_mem_nil _)).mpr
      (by omega)
    exact List.forall_mem_cons.mpr ⟨hfield 0 1 (by omega),
      List.forall_mem_singleton.mpr (hfield 1 4 (by omega))⟩
  · rw [handleReadToDesthostlen_of_ne htype]
    exact List.forall_mem_singleton.mpr (hfield 0 1 (by omega))

/-- **One handler** stays in bounds exactly if the field at the end of its chunk, where it
reads one, has arrived. -/
theorem handle_inBounds_iff (h : SizeSound r consumed) (hsize : bs.length = r.size) :
    (∀ a ∈ accesses ((reader outstanding).handle r bs).2, a.InBounds) ↔
      (r.stage = .srchostlen ∨ r.stage = .devicenamelen → ¬ TooShort (lastInt consumed)) := by
  have hmax : bs.length ≤ 256 := hsize.trans_le h.le_max
  have hfour : (r.stage = .srchostlen ∨ r.stage = .devicenamelen) →
      (4 ≤ bs.length ↔ ¬ TooShort (lastInt consumed)) := by
    intro hstage
    have hiff := bufferSize_lt_four_iff (lastInt consumed)
    rw [← h.sized hstage, ← hsize] at hiff
    unfold TooShort
    omega
  simp only [reader]
  cases hstage : r.stage with
  | desthostlen =>
      have hlen : bs.length = 9 := hsize.trans (h.desthostlen hstage)
      refine iff_of_true ?_ (by rintro (h | h) <;> cases h)
      exact handleReadToDesthostlen_inBounds r hlen
  | srchostlen =>
      have hacc : (handleReadToSrchostlen r bs).2 = [trailingAccess bs] := by
        unfold handleReadToSrchostlen
        split <;> rfl
      rw [hacc, ← hfour (Or.inl hstage)]
      simpa using trailingAccess_inBounds_iff hmax [] [] (List.forall_mem_nil _)
        (List.forall_mem_nil _)
  | absheader => exact iff_of_true (List.forall_mem_nil _) (by rintro (h | h) <;> cases h)
  | replyhostlen =>
      have hlen : bs.length = 40 := hsize.trans (h.replyhostlen hstage)
      have hacc : (handleReadToReplyhostlen r bs).2 = [trailingAccess bs] := by
        unfold handleReadToReplyhostlen
        split <;> rfl
      rw [hacc]
      refine iff_of_true ?_ (by rintro (h | h) <;> cases h)
      exact (trailingAccess_inBounds_iff hmax [] [] (List.forall_mem_nil _)
        (List.forall_mem_nil _)).mpr (by omega)
  | devicenamelen =>
      rw [← hfour (Or.inr hstage)]
      obtain ⟨after, hacc, hafter⟩ := handleReadToDevicenamelen_accesses outstanding r bs
      rw [hacc]
      simpa using trailingAccess_inBounds_iff hmax [] after (List.forall_mem_nil _) hafter
  | devicename => exact iff_of_true (List.forall_mem_nil _) (by rintro (h | h) <;> cases h)
  | closed => exact iff_of_true (List.forall_mem_nil _) (by rintro (h | h) <;> cases h)

/-! ## Runs -/

/-- **When the reply reader is safe.**  Whatever arrives at the home agent port, in whatever
segments: all accesses to the buffer are in bounds exactly if no chunk has been read whose
size was given by a host name length between -8 and -5. -/
theorem accesses_in_bounds_iff (outstanding : UInt16 → Bool)
    {tr : List (Transition (Feed HaReplyReader HaAction) FeedEvent)}
    {s : Feed HaReplyReader HaAction} (h : Run (reader outstanding).system tr s) :
    (∀ a ∈ accesses s.emitted, a.InBounds) ↔ ∀ t ∈ tr, FieldArrives t := by
  refine Run.invariant_trace
    (J := fun tr s => (∀ a ∈ accesses s.emitted, a.InBounds) ↔ ∀ t ∈ tr, FieldArrives t) ?_ ?_ h
  · rintro s rfl
    exact iff_of_true (List.forall_mem_nil _) (List.forall_mem_nil _)
  · intro tr s e s' hrun ih hstep
    rw [List.forall_mem_append, List.forall_mem_singleton, ← ih]
    cases e with
    | arrive segment =>
        cases hstep
        exact (and_iff_left fun he => by cases he).symm
    | complete =>
        obtain ⟨bs, hwant, -, hs'⟩ := StreamReader.complete_eq_some_iff.mp hstep
        rw [hs', accesses_append, List.forall_mem_append,
          handle_inBounds_iff (sizeSound_of_run hrun) (size_of_want hwant)]
        exact and_congr_right fun _ => ⟨fun hstage _ => hstage, fun hstage => hstage rfl⟩
    | fail =>
        obtain ⟨-, hs'⟩ := StreamReader.fail_eq_some_iff.mp hstep
        have hnone : accesses ((reader outstanding).handleError s.reader).2 = [] := by
          simp only [reader]
          split_ifs <;> rfl
        rw [hs', accesses_append, hnone, List.append_nil]
        exact (and_iff_left fun he => by cases he).symm

/-! ## Two replies -/

/-- A reply with sequence number 7 whose destination host name has length -8. -/
def negativeLength : Bytes := [43, 7, 0, 0, 0, 0xF8, 0xFF, 0xFF, 0xFF]

/-- **The reader can leave its buffer**: after a length of -8 the second chunk is empty, and
its handler reads the four bytes before the buffer. -/
theorem reader_can_leave_buffer : ∃ tr s, Run (reader fun _ => false).system tr s ∧
    Feed.arrived tr = negativeLength ∧ .field (-4) 4 0 ∈ accesses s.emitted ∧
    ¬ ∀ a ∈ accesses s.emitted, a.InBounds := by
  have hexec : ((reader fun _ => false).system.exec (reader fun _ => false).initial
      [.arrive negativeLength, .complete, .complete]).map
        (fun s => decide (.field (-4) 4 0 ∈ accesses s.emitted)) = some true := by decide
  obtain ⟨s, hs, hmem⟩ := Option.map_eq_some_iff.mp hexec
  obtain ⟨tr, hrun, hevents⟩ := Run.of_exec rfl hs
  have hfield := of_decide_eq_true hmem
  refine ⟨tr, s, hrun, Feed.arrived_of_events hevents, hfield, fun hall => ?_⟩
  have hneg := (hall _ hfield).1
  omega

/-- The first chunk of a reply with empty host names. -/
def emptyLength : Feed HaReplyReader HaAction :=
  (reader fun _ => false).initial.arrive [43, 7, 0, 0, 0, 0, 0, 0, 0]

theorem emptyLength_in_bounds : ∃ tr s, Run (reader fun _ => false).system tr s ∧
    s.reader.stage = .srchostlen ∧ ∀ a ∈ accesses s.emitted, a.InBounds := by
  have h₁ : (reader fun _ => false).system.step (reader fun _ => false).initial
      (.arrive [43, 7, 0, 0, 0, 0, 0, 0, 0]) = some emptyLength := rfl
  have h₂ : ((reader fun _ => false).system.step emptyLength .complete).map
      (fun s => s.reader.stage) = some .srchostlen := by decide
  obtain ⟨s, hs, hstage⟩ := Option.map_eq_some_iff.mp h₂
  have hrun := ((Run.start rfl).extend h₁).extend hs
  refine ⟨_, s, hrun, hstage, (accesses_in_bounds_iff _ hrun).mpr ?_⟩
  simp only [List.nil_append, List.cons_append, List.forall_mem_cons]
  refine ⟨fun he => ?_, fun _ hchunk => ?_, List.forall_mem_nil _⟩
  · cases he
  · rcases hchunk with h | h <;> cases h

end HaReplyReader
