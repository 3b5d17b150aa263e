/-
# Bounded byte writers and what they emit

A `ByteWriter` fills a buffer of `cap` bytes from the front; its state is the list
of bytes written so far, whose length is the position of the write pointer.
A run returns, throws, or writes at or beyond the end of the buffer (`overrun`).

`Emits w ok bs` says that `w` appends exactly `bs` when its precondition `ok`
holds and `bs` fits into the rest of the buffer, and throws in every other
case; in particular it never overruns.
-/
import Pweb.Foundation.ByteReader

/-- A writer into a buffer: its capacity, then the bytes written so far. -/
abbrev ByteWriter (ε α : Type) := ReaderT ℕ (StateT (List UInt8) (Except (Fault ε))) α

namespace ByteWriter

variable {ε X : Type}

/-- Throw an exception. -/
def fail (e : ε) : ByteWriter ε Unit := fun _ _ => .error (.thrown e)

/-- Copy `bs` to the write pointer and advance, with no check of any kind. -/
def put (bs : List UInt8) : ByteWriter ε Unit := fun cap out =>
  if out.length + bs.length ≤ cap then .ok ((), out ++ bs) else .error .overrun

/-- Throw unless the write pointer differs from the end: the equality test `buf == end`. -/
def throwAtEnd (e : ε) : ByteWriter ε Unit := fun cap out =>
  if out.length = cap then .error (.thrown e) else .ok ((), out)

/-- Throw if fewer than `n` bytes are left: the signed test `(end - buf) < n`. -/
def throwIfShort (n : ℤ) (e : ε) : ByteWriter ε Unit := fun cap out =>
  if (cap : ℤ) - out.length < n then .error (.thrown e) else .ok ((), out)

/-- Run over each element of a list, in order. -/
def forEach (w : X → ByteWriter ε Unit) : List X → ByteWriter ε Unit
  | [] => pure ()
  | x :: xs => do
    w x
    forEach w xs

theorem bind_run_ok {w : ByteWriter ε Unit} {v : Unit → ByteWriter ε Unit} {cap : ℕ}
    {out mid : List UInt8} (h : w cap out = .ok ((), mid)) : (w >>= v) cap out = v () cap mid := by
  show (w cap out >>= fun r => v r.1 cap r.2) = v () cap mid
  rw [h]
  rfl

theorem bind_run_error {w : ByteWriter ε Unit} {v : Unit → ByteWriter ε Unit} {cap : ℕ}
    {out : List UInt8} {e : Fault ε} (h : w cap out = .error e) : (w >>= v) cap out = .error e := by
  show (w cap out >>= fun r => v r.1 cap r.2) = .error e
  rw [h]
  rfl

end ByteWriter

/-! ## Emission -/

/-- **Emission.**  From any write pointer inside the buffer, `w` appends `bs` if
`ok` holds and `bs` fits, and throws otherwise. -/
structure Emits {ε : Type} (w : ByteWriter ε Unit) (ok : Prop) (bs : List UInt8) : Prop where
  run : ∀ {cap : ℕ} {out : List UInt8}, ok → out.length + bs.length ≤ cap →
    w cap out = .ok ((), out ++ bs)
  throws : ∀ {cap : ℕ} {out : List UInt8}, out.length ≤ cap →
    ¬ (ok ∧ out.length + bs.length ≤ cap) → ∃ e, w cap out = .error (.thrown e)

namespace Emits

variable {ε X : Type}

/-- An emitting writer returns exactly on the inputs its specification names. -/
theorem eq_ok_iff {w : ByteWriter ε Unit} {ok : Prop} {bs : List UInt8} (h : Emits w ok bs)
    {cap : ℕ} {out out' : List UInt8} (hout : out.length ≤ cap) :
    w cap out = .ok ((), out') ↔ ok ∧ out.length + bs.length ≤ cap ∧ out' = out ++ bs := by
  by_cases hfit : ok ∧ out.length + bs.length ≤ cap
  · rw [h.run hfit.1 hfit.2]
    constructor
    · intro heq
      cases heq
      exact ⟨hfit.1, hfit.2, rfl⟩
    · rintro ⟨-, -, rfl⟩
      rfl
  · obtain ⟨e, he⟩ := h.throws hout hfit
    rw [he]
    constructor
    · intro heq
      cases heq
    · rintro ⟨h1, h2, -⟩
      exact absurd ⟨h1, h2⟩ hfit

theorem congr {w : ByteWriter ε Unit} {ok ok' : Prop} {bs bs' : List UInt8} (h : Emits w ok bs)
    (hok : ok ↔ ok') (hbs : bs = bs') : Emits w ok' bs' := by
  subst hbs
  exact ⟨fun hp => h.run (hok.mpr hp),
    fun hout hn => h.throws hout fun hp => hn ⟨hok.mp hp.1, hp.2⟩⟩

theorem pure : Emits (Pure.pure () : ByteWriter ε Unit) True [] where
  run _ _ := by
    rw [List.append_nil]
    rfl
  throws hout hn := absurd ⟨trivial, by simpa using hout⟩ hn

/-- **Sequencing**: what is emitted is concatenated. -/
theorem bind {w v : ByteWriter ε Unit} {ok ok' : Prop} {bs bs' : List UInt8} (hw : Emits w ok bs)
    (hv : Emits v ok' bs') : Emits (do w; v) (ok ∧ ok') (bs ++ bs') where
  run := by
    rintro cap out ⟨h, h'⟩ hfit
    rw [List.length_append] at hfit
    have h1 : w cap out = .ok ((), out ++ bs) := hw.run h (by omega)
    rw [ByteWriter.bind_run_ok h1, hv.run h' (by rw [List.length_append]; omega), List.append_assoc]
  throws := by
    intro cap out hout hn
    -- the first that does not fit throws
    by_cases hfst : ok ∧ out.length + bs.length ≤ cap
    · rw [ByteWriter.bind_run_ok (hw.run hfst.1 hfst.2)]
      refine hv.throws (by rw [List.length_append]; exact hfst.2) ?_
      rintro ⟨h', hfit⟩
      rw [List.length_append] at hfit
      refine hn ⟨⟨hfst.1, h'⟩, ?_⟩
      rw [List.length_append]
      omega
    · obtain ⟨e, he⟩ := hw.throws hout hfst
      exact ⟨e, ByteWriter.bind_run_error he⟩

/-- A guarded exception: `if (c) throw e;` followed by `w`. -/
theorem throwIf {c : Prop} [Decidable c] {e : ε} {w : ByteWriter ε Unit} {ok : Prop}
    {bs : List UInt8} (hw : ¬ c → Emits w ok bs) :
    Emits (if c then ByteWriter.fail e else w) (¬ c ∧ ok) bs := by
  by_cases hc : c
  · rw [if_pos hc]
    exact ⟨fun h => absurd hc h.1, fun _ _ => ⟨e, rfl⟩⟩
  · rw [if_neg hc]
    exact (hw hc).congr ⟨fun h => ⟨hc, h⟩, fun h => h.2⟩ rfl

/-- One byte behind the equality test. -/
theorem throwAtEnd_put (e : ε) (b : UInt8) :
    Emits (do ByteWriter.throwAtEnd e; ByteWriter.put [b]) True [b] where
  run := by
    intro cap out _ hfit
    have hlen : out.length + 1 ≤ cap := hfit
    have h1 : ByteWriter.throwAtEnd e cap out = .ok ((), out) := if_neg (by omega)
    rw [ByteWriter.bind_run_ok h1]
    exact if_pos hfit
  throws := by
    intro cap out hout hn
    have hlen : ¬ out.length + 1 ≤ cap := fun h => hn ⟨trivial, h⟩
    have h1 : ByteWriter.throwAtEnd e cap out = .error (.thrown e) := if_pos (by omega)
    exact ⟨e, ByteWriter.bind_run_error h1⟩

/-- One byte behind the equality test and a guarded exception. -/
theorem throwAtEnd_throwIf_put (e e' : ε) (c : Prop) [Decidable c] (b : UInt8) :
    Emits (do ByteWriter.throwAtEnd e; if c then ByteWriter.fail e' else ByteWriter.put [b])
      (¬ c) [b] := by
  by_cases hc : c
  · simp only [if_pos hc]
    refine ⟨fun h => absurd hc h, ?_⟩
    intro cap out _ _
    by_cases hend : out.length = cap
    · exact ⟨e, ByteWriter.bind_run_error (if_pos hend)⟩
    · refine ⟨e', ?_⟩
      rw [ByteWriter.bind_run_ok (if_neg hend)]
      rfl
  · simp only [if_neg hc]
    exact (throwAtEnd_put e b).congr ⟨fun _ => hc, fun _ => trivial⟩ rfl

/-- A block of bytes behind the signed length test. -/
theorem throwIfShort_put (e : ε) (bs : List UInt8) :
    Emits (do ByteWriter.throwIfShort bs.length e; ByteWriter.put bs) True bs where
  run := by
    intro cap out _ hfit
    have h1 : ByteWriter.throwIfShort bs.length e cap out = .ok ((), out) := if_neg (by omega)
    rw [ByteWriter.bind_run_ok h1]
    exact if_pos hfit
  throws := by
    intro cap out hout hn
    have hlen : ¬ out.length + bs.length ≤ cap := fun h => hn ⟨trivial, h⟩
    have h1 : ByteWriter.throwIfShort bs.length e cap out = .error (.thrown e) :=
      if_pos (by omega)
    exact ⟨e, ByteWriter.bind_run_error h1⟩

/-- **Loops over a list**: every element is emitted, in order. -/
theorem forEach {w : X → ByteWriter ε Unit} {ok : X → Prop} {enc : X → List UInt8}
    (hw : ∀ x, Emits (w x) (ok x) (enc x)) (xs : List X) :
    Emits (ByteWriter.forEach w xs) (∀ x ∈ xs, ok x) (xs.flatMap enc) := by
  induction xs with
  | nil => exact pure.congr (by simp) rfl
  | cons x xs ih =>
      exact ((hw x).bind ih).congr (by simp) (by rw [List.flatMap_cons])

end Emits
