/-
# Layouts of byte strings and the readers that walk along them

A layout is a list of slots, each of which takes a fixed number of bytes or begins with a
count of the bytes that follow.  `extent` walks along a byte string and says where the layout
ends in it, or that the string is too short; the string is `Complete` if it is not.

`Scans p fs` says that an unchecked reader does the same: it stops at the end of the layout,
and overruns the string exactly if that is incomplete.  `Takes p P` says how many bytes the
reader takes for the value it returns.  Both have rules along the structure of a reader, and
there is one about loops whose rounds look at more bytes than they take.
-/
import Pweb.Foundation.ByteReader

/-! ## Layouts -/

/-- A number of bytes, or a count and as many bytes as it says. -/
inductive Slot where
  | fixed (width : ℕ)
  | counted (width : ℕ) (count : List UInt8 → ℕ)

/-- The bytes that the slot takes at the front of a string. -/
def Slot.extent : Slot → List UInt8 → Option ℕ
  | fixed width, bs => if width ≤ bs.length then some width else none
  | counted width count, bs =>
    if width ≤ bs.length ∧ width + count (bs.take width) ≤ bs.length then
      some (width + count (bs.take width))
    else none

/-- The bytes that the slots take, one after the other. -/
def extent : List Slot → List UInt8 → Option ℕ
  | [], _ => some 0
  | f :: fs, bs => (f.extent bs).bind fun n => (extent fs (bs.drop n)).map fun m => n + m

/-- All slots end inside the string. -/
def Complete (fs : List Slot) (bs : List UInt8) : Prop := (extent fs bs).isSome

instance (fs : List Slot) (bs : List UInt8) : Decidable (Complete fs bs) :=
  inferInstanceAs (Decidable (_ = true))

theorem Slot.extent_le {f : Slot} {bs : List UInt8} {n : ℕ} (h : f.extent bs = some n) :
    n ≤ bs.length := by
  rcases f with width | ⟨width, count⟩
  · rw [Slot.extent] at h
    split_ifs at h with hle
    cases h
    exact hle
  · rw [Slot.extent] at h
    split_ifs at h with hle
    cases h
    exact hle.2

theorem extent_append (fs gs : List Slot) (bs : List UInt8) :
    extent (fs ++ gs) bs =
      (extent fs bs).bind fun n => (extent gs (bs.drop n)).map fun m => n + m := by
  induction fs generalizing bs with
  | nil => simp [extent]
  | cons f fs ih =>
      rw [List.cons_append, extent, extent]
      rcases f.extent bs with _ | n
      · rfl
      · rw [Option.bind_some, Option.bind_some, ih]
        rcases extent fs (bs.drop n) with _ | m
        · rfl
        · rw [Option.bind_some, Option.map_some, Option.bind_some, List.drop_drop, Option.map_map]
          exact congrArg (Option.map · _) (funext fun k => (Nat.add_assoc n m k).symm)

theorem extent_singleton (f : Slot) (bs : List UInt8) : extent [f] bs = f.extent bs := by
  rw [extent]
  rcases f.extent bs with _ | n
  · rfl
  · rfl

theorem extent_le {fs : List Slot} {bs : List UInt8} {n : ℕ} (h : extent fs bs = some n) :
    n ≤ bs.length := by
  induction fs generalizing bs n with
  | nil =>
      cases h
      exact Nat.zero_le _
  | cons f fs ih =>
      obtain ⟨m, hm, hrest⟩ := Option.bind_eq_some_iff.mp h
      obtain ⟨k, hk, rfl⟩ := Option.map_eq_some_iff.mp hrest
      have hfirst := Slot.extent_le hm
      have hle := ih hk
      rw [List.length_drop] at hle
      omega

/-! ## Readers without checks -/

namespace ByteReader

variable {ε : Type}

/-- Copy the next `n` bytes without advancing. -/
def peek (n : ℕ) : ByteReader ε (List UInt8) := fun msg buf =>
  if buf + n ≤ msg.length then .ok ((msg.drop buf).take n, buf) else .error .overrun

/-- Advance the cursor. -/
def advance (n : ℕ) : ByteReader ε Unit := fun _ buf => .ok ((), buf + n)

end ByteReader

/-- **Scanning.**  From a cursor inside the string, `p` stops after the layout `fs`, or overruns
if the layout is not complete. -/
structure Scans {ε α : Type} (p : ByteReader ε α) (fs : List Slot) : Prop where
  stops : ∀ {msg : List UInt8} {buf n : ℕ}, buf ≤ msg.length →
    extent fs (msg.drop buf) = some n → ∃ a, p msg buf = .ok (a, buf + n)
  overruns : ∀ {msg : List UInt8} {buf : ℕ}, buf ≤ msg.length →
    extent fs (msg.drop buf) = none → p msg buf = .error .overrun

namespace Scans

variable {ε α β : Type} {fs gs : List Slot}

/-- A reader of a whole string stays inside exactly if the string is complete. -/
theorem overrun_iff {p : ByteReader ε α} (h : Scans p fs) (msg : List UInt8) :
    p msg 0 = .error .overrun ↔ ¬ Complete fs msg := by
  rw [Complete, Bool.not_eq_true, Option.isSome_eq_false_iff, Option.isNone_iff_eq_none]
  constructor
  · intro hp
    rcases hextent : extent fs msg with _ | n
    · rfl
    · obtain ⟨a, ha⟩ := h.stops (Nat.zero_le msg.length) (by rwa [List.drop_zero])
      rw [hp] at ha
      cases ha
  · exact fun hextent => h.overruns (Nat.zero_le _) (by rwa [List.drop_zero])

theorem pure (a : α) : Scans (Pure.pure a : ByteReader ε α) [] where
  stops _ h := by
    cases h
    exact ⟨a, rfl⟩
  overruns _ h := by cases h

/-- A reader that needs `n` bytes and takes them. -/
theorem of_fixed {p : ByteReader ε α} {n : ℕ}
    (hinside : ∀ {msg : List UInt8} {buf : ℕ}, buf + n ≤ msg.length →
      ∃ a, p msg buf = .ok (a, buf + n))
    (houtside : ∀ {msg : List UInt8} {buf : ℕ}, ¬ buf + n ≤ msg.length →
      p msg buf = .error .overrun) : Scans p [.fixed n] where
  stops := by
    intro msg buf m hbuf h
    rw [extent_singleton, Slot.extent, List.length_drop] at h
    split_ifs at h with hle
    cases h
    exact hinside (by omega)
  overruns := by
    intro msg buf hbuf h
    rw [extent_singleton, Slot.extent, List.length_drop] at h
    split_ifs at h with hle
    exact houtside (by omega)

theorem memcpy (n : ℕ) : Scans (ByteReader.memcpy n : ByteReader ε (List UInt8)) [.fixed n] :=
  of_fixed (fun hle => ⟨_, if_pos hle⟩) fun hle => if_neg hle

theorem deref : Scans (ByteReader.deref : ByteReader ε UInt8) [.fixed 1] := by
  refine of_fixed (fun {msg buf} hlt => ⟨msg[buf], ?_⟩) fun {msg buf} hlt => ?_
  · rw [ByteReader.deref, List.getElem?_eq_getElem hlt]
  · rw [ByteReader.deref, List.getElem?_eq_none (not_lt.mp hlt)]

/-- **Sequencing.** -/
theorem bind {p : ByteReader ε α} {q : α → ByteReader ε β} (hp : Scans p fs)
    (hq : ∀ a, Scans (q a) gs) : Scans (p >>= q) (fs ++ gs) where
  stops := by
    intro msg buf n hbuf h
    rw [extent_append] at h
    obtain ⟨m, hm, hrest⟩ := Option.bind_eq_some_iff.mp h
    obtain ⟨k, hk, rfl⟩ := Option.map_eq_some_iff.mp hrest
    obtain ⟨a, ha⟩ := hp.stops hbuf hm
    have hle := extent_le hm
    rw [List.length_drop] at hle
    rw [List.drop_drop] at hk
    obtain ⟨b, hb⟩ := (hq a).stops (by omega) hk
    exact ⟨b, by rw [ByteReader.bind_run_ok ha, hb, Nat.add_assoc]⟩
  overruns := by
    intro msg buf hbuf h
    rw [extent_append] at h
    rcases hm : extent fs (msg.drop buf) with _ | m
    · exact ByteReader.bind_run_error (hp.overruns hbuf hm)
    · rw [hm, Option.bind_some, Option.map_eq_none_iff, List.drop_drop] at h
      obtain ⟨a, ha⟩ := hp.stops hbuf hm
      have hle := extent_le hm
      rw [List.length_drop] at hle
      rw [ByteReader.bind_run_ok ha]
      exact (hq a).overruns (by omega) h

/-- The last step of a reader, which makes its value. -/
theorem map {p : ByteReader ε α} (hp : Scans p fs) (f : α → β) :
    Scans (do let a ← p; return f a) fs := by
  have h := hp.bind fun a => pure (f a)
  rwa [List.append_nil] at h

end Scans

/-! ## Loops that look ahead -/

/-- One round of a loop: `width` bytes must be there, and the first one is appended. -/
structure LooksAhead {ε : Type} (f : List UInt8 → ByteReader ε (List UInt8)) (width : ℕ) : Prop where
  pos : 0 < width
  inside : ∀ {msg : List UInt8} {buf : ℕ} (str : List UInt8), buf + width ≤ msg.length →
    f str msg buf = .ok (str ++ (msg.drop buf).take 1, buf + 1)
  outside : ∀ {msg : List UInt8} {buf : ℕ} (str : List UInt8), ¬ buf + width ≤ msg.length →
    f str msg buf = .error .overrun

namespace LooksAhead

variable {ε : Type} {f : List UInt8 → ByteReader ε (List UInt8)} {width : ℕ}

/-- A round that reads one byte. -/
theorem deref : LooksAhead (fun str => do
    let ch ← (ByteReader.deref : ByteReader ε UInt8)
    return str ++ [ch]) 1 where
  pos := Nat.one_pos
  inside := by
    intro msg buf str hlt
    have hread : (ByteReader.deref : ByteReader ε UInt8) msg buf = .ok (msg[buf], buf + 1) := by
      rw [ByteReader.deref, List.getElem?_eq_getElem hlt]
    rw [ByteReader.bind_run_ok hread, List.drop_eq_getElem_cons hlt]
    rfl
  outside := by
    intro msg buf str hlt
    have hread : (ByteReader.deref : ByteReader ε UInt8) msg buf = .error .overrun := by
      rw [ByteReader.deref, List.getElem?_eq_none (by omega)]
    exact ByteReader.bind_run_error hread

/-- A round that copies `width` bytes and advances by one. -/
theorem peek (hwidth : 0 < width) : LooksAhead (fun str => do
    let bs ← (ByteReader.peek width : ByteReader ε (List UInt8))
    ByteReader.advance 1
    return str ++ bs.take 1) width where
  pos := hwidth
  inside := by
    intro msg buf str hle
    have hread : (ByteReader.peek width : ByteReader ε (List UInt8)) msg buf
        = .ok ((msg.drop buf).take width, buf) := if_pos hle
    have hadvance : (ByteReader.advance 1 : ByteReader ε Unit) msg buf = .ok ((), buf + 1) := rfl
    rw [ByteReader.bind_run_ok hread, ByteReader.bind_run_ok hadvance,
      List.take_take, Nat.min_eq_left hwidth]
    rfl
  outside := by
    intro msg buf str hle
    have hread : (ByteReader.peek width : ByteReader ε (List UInt8)) msg buf
        = .error .overrun := if_neg hle
    exact ByteReader.bind_run_error hread

/-- **The loop** copies as many bytes as it has rounds, if the last round finds its bytes. -/
theorem loop_inside (h : LooksAhead f width) {msg : List UInt8} (n : ℕ) :
    ∀ {buf : ℕ} (str : List UInt8), n = 0 ∨ buf + n + width ≤ msg.length + 1 →
      ByteReader.forLoop f n str msg buf = .ok (str ++ (msg.drop buf).take n, buf + n) := by
  induction n with
  | zero =>
      intro buf str _
      rw [List.take_zero, List.append_nil]
      rfl
  | succ n ih =>
      intro buf str hle
      have hpos := h.pos
      have hround := h.inside str (by omega : buf + width ≤ msg.length)
      rw [ByteReader.forLoop, ByteReader.bind_run_ok hround, ih _ (by omega), List.append_assoc,
        ← List.drop_drop, Nat.add_comm n 1, List.take_add, Nat.add_assoc]

theorem loop_outside (h : LooksAhead f width) {msg : List UInt8} (n : ℕ) :
    ∀ {buf : ℕ} (str : List UInt8), ¬ (n = 0 ∨ buf + n + width ≤ msg.length + 1) →
      ByteReader.forLoop f n str msg buf = .error .overrun := by
  induction n with
  | zero => exact fun _ hle => absurd (Or.inl rfl) hle
  | succ n ih =>
      intro buf str hle
      rw [ByteReader.forLoop]
      by_cases hfirst : buf + width ≤ msg.length
      · rw [ByteReader.bind_run_ok (h.inside str hfirst)]
        exact ih _ (by omega)
      · exact ByteReader.bind_run_error (h.outside str hfirst)

end LooksAhead

/-- `p` reads a count: it copies `width` bytes and makes its value of them. -/
structure ReadsCount {ε α : Type} (p : ByteReader ε α) (width : ℕ) (value : List UInt8 → α) :
    Prop where
  inside : ∀ {msg : List UInt8} {buf : ℕ}, buf + width ≤ msg.length →
    p msg buf = .ok (value ((msg.drop buf).take width), buf + width)
  outside : ∀ {msg : List UInt8} {buf : ℕ}, ¬ buf + width ≤ msg.length →
    p msg buf = .error .overrun

theorem ReadsCount.memcpy_map {ε α : Type} (width : ℕ) (value : List UInt8 → α) :
    ReadsCount (do let bs ← (ByteReader.memcpy width : ByteReader ε _); return value bs)
      width value where
  inside h := ByteReader.bind_run_ok (if_pos h)
  outside h := ByteReader.bind_run_error (if_neg h)

namespace Scans

variable {ε α β γ : Type} {p : ByteReader ε α} {f : List UInt8 → ByteReader ε (List UInt8)}
  {width ahead : ℕ} {value : List UInt8 → α}

/-- A count, and a loop of as many rounds. -/
theorem counted (hp : ReadsCount p width value) (rounds : α → ℕ) (hf : LooksAhead f 1) :
    Scans (do let a ← p; ByteReader.forLoop f (rounds a) [])
      [.counted width fun bs => rounds (value bs)] where
  stops := by
    intro msg buf n hbuf h
    rw [extent_singleton, Slot.extent, List.length_drop] at h
    split_ifs at h with hle
    cases h
    rw [ByteReader.bind_run_ok (hp.inside (by omega)), hf.loop_inside _ _ (by omega),
      Nat.add_assoc]
    exact ⟨_, rfl⟩
  overruns := by
    intro msg buf hbuf h
    rw [extent_singleton, Slot.extent, List.length_drop] at h
    split_ifs at h with hle
    by_cases hcount : buf + width ≤ msg.length
    · rw [ByteReader.bind_run_ok (hp.inside hcount)]
      exact hf.loop_outside _ _ (by omega)
    · exact ByteReader.bind_run_error (hp.outside hcount)

/-- A loop may look into the slot that follows. -/
theorem counted_fixed (hp : ReadsCount p width value) (rounds : α → ℕ) (hf : LooksAhead f ahead)
    {q : ByteReader ε β} {rest : ℕ} (hq : Scans q [.fixed rest]) (hahead : ahead ≤ rest + 1)
    (make : List UInt8 → β → γ) :
    Scans (do
        let a ← p
        let str ← ByteReader.forLoop f (rounds a) []
        let b ← q
        return make str b)
      [.counted width fun bs => rounds (value bs), .fixed rest] where
  stops := by
    intro msg buf n hbuf h
    rw [extent, Slot.extent, List.length_drop] at h
    obtain ⟨k, hk, hrest⟩ := Option.bind_eq_some_iff.mp h
    split_ifs at hk with hle
    cases hk
    obtain ⟨m, hm, rfl⟩ := Option.map_eq_some_iff.mp hrest
    have hfits := hm
    rw [extent_singleton, Slot.extent, List.length_drop, List.length_drop] at hfits
    split_ifs at hfits with hrest'
    cases hfits
    rw [List.drop_drop] at hm
    obtain ⟨b, hb⟩ := hq.stops (by omega) hm
    rw [ByteReader.bind_run_ok (hp.inside (by omega)),
      ByteReader.bind_run_ok (hf.loop_inside _ _ (by omega)), Nat.add_assoc,
      ByteReader.bind_run_ok hb, Nat.add_assoc]
    exact ⟨_, rfl⟩
  overruns := by
    intro msg buf hbuf h
    by_cases hcount : buf + width ≤ msg.length
    · rw [ByteReader.bind_run_ok (hp.inside hcount)]
      by_cases hloop : rounds (value ((msg.drop buf).take width)) = 0 ∨
          buf + width + rounds (value ((msg.drop buf).take width)) + ahead ≤ msg.length + 1
      · -- the loop has stayed inside, so the last slot is too short
        have hpos := hf.pos
        rw [extent, Slot.extent, List.length_drop, if_pos (by omega), Option.bind_some,
          Option.map_eq_none_iff, List.drop_drop] at h
        rw [ByteReader.bind_run_ok (hf.loop_inside _ _ hloop), Nat.add_assoc]
        exact ByteReader.bind_run_error (hq.overruns (by omega) h)
      · exact ByteReader.bind_run_error (hf.loop_outside _ _ hloop)
    · exact ByteReader.bind_run_error (hp.outside hcount)

end Scans

/-! ## How much is taken -/

/-- A returning run of `p` takes `n` bytes for its value `a`, where `P a n`. -/
structure Takes {ε α : Type} (p : ByteReader ε α) (P : α → ℕ → Prop) : Prop where
  run : ∀ {msg : List UInt8} {buf buf' : ℕ} {a : α}, p msg buf = .ok (a, buf') →
    ∃ n, buf' = buf + n ∧ P a n

namespace Takes

variable {ε α β : Type}

theorem pure {a : α} {P : α → ℕ → Prop} (h : P a 0) :
    Takes (Pure.pure a : ByteReader ε α) P where
  run h' := by
    cases h'
    exact ⟨0, rfl, h⟩

theorem deref : Takes (ByteReader.deref : ByteReader ε UInt8) fun _ n => n = 1 where
  run := by
    intro msg buf buf' a h
    unfold ByteReader.deref at h
    split at h
    · cases h
      exact ⟨1, rfl, rfl⟩
    · cases h

theorem memcpy (width : ℕ) :
    Takes (ByteReader.memcpy width : ByteReader ε (List UInt8)) fun _ n => n = width where
  run := by
    intro msg buf buf' a h
    unfold ByteReader.memcpy at h
    split at h
    · cases h
      exact ⟨width, rfl, rfl⟩
    · cases h

theorem bind {p : ByteReader ε α} {q : α → ByteReader ε β} {P : α → ℕ → Prop}
    {Q : β → ℕ → Prop} (hp : Takes p P)
    (hq : ∀ a n, P a n → Takes (q a) fun b m => Q b (n + m)) : Takes (p >>= q) Q where
  run := by
    intro msg buf buf' b h
    obtain ⟨a, mid, ha, hb⟩ := ByteReader.bind_eq_ok h
    obtain ⟨n, rfl, hn⟩ := hp.run ha
    obtain ⟨m, rfl, hm⟩ := (hq a n hn).run hb
    exact ⟨n + m, Nat.add_assoc _ _ _, hm⟩

theorem mono {p : ByteReader ε α} {P Q : α → ℕ → Prop} (hp : Takes p P)
    (h : ∀ a n, P a n → Q a n) : Takes p Q where
  run hrun := (hp.run hrun).imp fun n hn => ⟨hn.1, h _ n hn.2⟩

/-- The loop takes as many bytes as it appends. -/
theorem loop {f : List UInt8 → ByteReader ε (List UInt8)} {width : ℕ} (h : LooksAhead f width)
    (n : ℕ) (str : List UInt8) :
    Takes (ByteReader.forLoop f n str) fun str' m => str'.length = str.length + m where
  run := by
    intro msg buf buf' str' hrun
    have hpos := h.pos
    by_cases hle : n = 0 ∨ buf + n + width ≤ msg.length + 1
    · rw [h.loop_inside n str hle] at hrun
      cases hrun
      refine ⟨n, rfl, ?_⟩
      rw [List.length_append, List.length_take, List.length_drop]
      omega
    · rw [h.loop_outside n str hle] at hrun
      cases hrun

/-- Setting the cursor to where it is. -/
theorem seek_eq {p : ByteReader ε α} {q : α → ByteReader ε β} {size : α → ℕ}
    (hp : Takes p fun a n => n = size a) (msg : List UInt8) :
    (do let a ← p; ByteReader.seek (size a); q a) msg 0 = (p >>= q) msg 0 := by
  rcases h : p msg 0 with e | ⟨a, buf'⟩
  · rw [ByteReader.bind_run_error h, ByteReader.bind_run_error h]
  · obtain ⟨n, rfl, rfl⟩ := hp.run h
    rw [ByteReader.bind_run_ok h, ByteReader.bind_run_ok h, Nat.zero_add]
    rfl

end Takes
