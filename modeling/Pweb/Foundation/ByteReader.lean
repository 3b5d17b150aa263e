/-
# Bounded byte readers and the grammars they recognise

A `ByteReader` runs over a byte string `msg` with a cursor `buf` into it; the end
of the string plays the part of the `end` pointer of a C-style reader.  A run
either returns a value and the advanced cursor, or stops with a `Fault`: an
exception `thrown` by the reader, or an `overrun`, the access to a byte at or
beyond the end, which a correct reader never makes.

`Recognizes p G` says that `p` accepts exactly the byte strings of the grammar
`G` and never overruns.  The rules below build such facts along the structure
of a reader: `pure`, `fail`, `bind`, a guarded `throw`, a read behind each of the two
end tests, and a counted loop.  Weaker facts have rules along the same structure:
`Reads p bs a`, that `p` reads the bytes `bs` as `a`, `Gives p bs r`, that it ends on them
with the outcome `r`, and `ThrowsOnly p E`, that every exception it throws satisfies `E`.
-/
import Mathlib

/-- How a run over a buffer can stop without returning. -/
inductive Fault (ε : Type*) where
  | thrown (e : ε)
  | overrun
  deriving DecidableEq, Repr

/-- A reader of byte strings: the whole string, then the cursor into it. -/
abbrev ByteReader (ε α : Type) := ReaderT (List UInt8) (StateT ℕ (Except (Fault ε))) α

namespace ByteReader

variable {ε α β σ X : Type}

/-- Throw an exception. -/
def fail (e : ε) : ByteReader ε α := fun _ _ => .error (.thrown e)

/-- Read the byte under the cursor and advance, with no check of any kind. -/
def deref : ByteReader ε UInt8 := fun msg buf =>
  match msg[buf]? with
  | some b => .ok (b, buf + 1)
  | none => .error .overrun

/-- An outcome that needs no bytes. -/
def lift (r : Except (Fault ε) α) : ByteReader ε α := fun _ buf => r.map fun a => (a, buf)

/-- Set the cursor. -/
def seek (n : ℕ) : ByteReader ε Unit := fun _ _ => .ok ((), n)

/-- Copy the next `n` bytes and advance, with no check of any kind. -/
def memcpy (n : ℕ) : ByteReader ε (List UInt8) := fun msg buf =>
  if buf + n ≤ msg.length then .ok ((msg.drop buf).take n, buf + n) else .error .overrun

/-- Throw unless the cursor differs from the end: the equality test `buf == end`. -/
def throwAtEnd (e : ε) : ByteReader ε Unit := fun msg buf =>
  if buf = msg.length then .error (.thrown e) else .ok ((), buf)

/-- Throw if fewer than `n` bytes are left: the signed test `(end - buf) < n`. -/
def throwIfShort (n : ℤ) (e : ε) : ByteReader ε Unit := fun msg buf =>
  if (msg.length : ℤ) - buf < n then .error (.thrown e) else .ok ((), buf)

/-- `for (i = 0; i < n; ++i) s = f(s)`. -/
def forLoop (f : σ → ByteReader ε σ) : ℕ → σ → ByteReader ε σ
  | 0, s => pure s
  | n + 1, s => do
    let s' ← f s
    forLoop f n s'

/-! ## Symbolic execution -/

theorem pure_run (a : α) (msg : List UInt8) (buf : ℕ) :
    (pure a : ByteReader ε α) msg buf = .ok (a, buf) := rfl

theorem bind_run_ok {p : ByteReader ε α} {q : α → ByteReader ε β} {msg : List UInt8} {buf buf' : ℕ}
    {a : α} (h : p msg buf = .ok (a, buf')) : (p >>= q) msg buf = q a msg buf' := by
  show (p msg buf >>= fun r => q r.1 msg r.2) = q a msg buf'
  rw [h]
  rfl

theorem bind_run_error {p : ByteReader ε α} {q : α → ByteReader ε β} {msg : List UInt8} {buf : ℕ}
    {e : Fault ε} (h : p msg buf = .error e) : (p >>= q) msg buf = .error e := by
  show (p msg buf >>= fun r => q r.1 msg r.2) = .error e
  rw [h]
  rfl

/-- A sequence that returned did so through a returning first half. -/
theorem bind_eq_ok {p : ByteReader ε α} {q : α → ByteReader ε β} {msg : List UInt8} {buf buf' : ℕ}
    {b : β} (h : (p >>= q) msg buf = .ok (b, buf')) :
    ∃ a mid, p msg buf = .ok (a, mid) ∧ q a msg mid = .ok (b, buf') := by
  cases hp : p msg buf with
  | error e =>
      rw [bind_run_error hp] at h
      cases h
  | ok r =>
      obtain ⟨a, mid⟩ := r
      rw [bind_run_ok hp] at h
      exact ⟨a, mid, rfl, h⟩

end ByteReader

/-! ## Recognition -/

/-- **Recognition.**  From any cursor inside the string, `p` returns `a` exactly
when some `bs` with `G a bs` starts at the cursor, it then stops right after
`bs`, and it never overruns. -/
structure Recognizes {ε α : Type} (p : ByteReader ε α) (G : α → List UInt8 → Prop) : Prop where
  sound : ∀ {msg : List UInt8} {buf : ℕ} {a : α} {buf' : ℕ}, buf ≤ msg.length →
    p msg buf = .ok (a, buf') →
    ∃ pre bs rest, msg = pre ++ (bs ++ rest) ∧ buf = pre.length ∧
      buf' = pre.length + bs.length ∧ G a bs
  complete : ∀ (pre : List UInt8) {a : α} {bs : List UInt8} (rest : List UInt8), G a bs →
    p (pre ++ (bs ++ rest)) pre.length = .ok (a, pre.length + bs.length)
  safe : ∀ {msg : List UInt8} {buf : ℕ}, buf ≤ msg.length → p msg buf ≠ .error .overrun

namespace Recognizes

variable {ε α β σ X : Type}

/-- A recogniser that returns leaves the cursor inside the string. -/
theorem le_length {p : ByteReader ε α} {G : α → List UInt8 → Prop} (h : Recognizes p G)
    {msg : List UInt8} {buf buf' : ℕ} {a : α} (hbuf : buf ≤ msg.length)
    (hp : p msg buf = .ok (a, buf')) : buf' ≤ msg.length := by
  obtain ⟨pre, bs, rest, rfl, -, rfl, -⟩ := h.sound hbuf hp
  simp only [List.length_append]
  omega

theorem congr {p : ByteReader ε α} {G H : α → List UInt8 → Prop} (h : Recognizes p G)
    (hGH : ∀ a bs, G a bs ↔ H a bs) : Recognizes p H where
  sound hbuf hp := by
    obtain ⟨pre, bs, rest, h1, h2, h3, hG⟩ := h.sound hbuf hp
    exact ⟨pre, bs, rest, h1, h2, h3, (hGH _ _).mp hG⟩
  complete pre _ _ rest hH := h.complete pre rest ((hGH _ _).mpr hH)
  safe := h.safe

theorem pure (a : α) : Recognizes (Pure.pure a : ByteReader ε α) (fun b bs => b = a ∧ bs = []) where
  sound := by
    intro msg buf b buf' hbuf hp
    rw [ByteReader.pure_run] at hp
    cases hp
    refine ⟨msg.take buf, [], msg.drop buf, ?_, ?_, ?_, rfl, rfl⟩
    · rw [List.nil_append, List.take_append_drop]
    · rw [List.length_take, Nat.min_eq_left hbuf]
    · rw [List.length_take, Nat.min_eq_left hbuf, List.length_nil, Nat.add_zero]
  complete := by
    rintro pre b bs rest ⟨rfl, rfl⟩
    rfl
  safe := by
    intro msg buf _ h
    cases h

theorem fail (e : ε) : Recognizes (ByteReader.fail e : ByteReader ε α) (fun _ _ => False) where
  sound := by
    intro msg buf b buf' _ hp
    cases hp
  complete := by
    intro pre b bs rest h
    exact h.elim
  safe := by
    intro msg buf _ h
    cases h

/-- **Sequencing**: the second reader need only recognise its grammar after values
of the first. -/
theorem bind {p : ByteReader ε α} {q : α → ByteReader ε β} {G : α → List UInt8 → Prop}
    {H : α → β → List UInt8 → Prop} (hp : Recognizes p G)
    (hq : ∀ a xs, G a xs → Recognizes (q a) (H a)) :
    Recognizes (p >>= q) (fun b bs => ∃ a xs ys, bs = xs ++ ys ∧ G a xs ∧ H a b ys) where
  sound := by
    intro msg buf b buf' hbuf h
    obtain ⟨a, mid, hpa, hqb⟩ := ByteReader.bind_eq_ok h
    have hmid := hp.le_length hbuf hpa
    obtain ⟨pre, xs, rest, rfl, rfl, rfl, hG⟩ := hp.sound hbuf hpa
    obtain ⟨pre', ys, rest', heq, hlen, rfl, hH⟩ := (hq a xs hG).sound hmid hqb
    -- both splits of the message are at `mid`
    have hsplit : pre ++ xs = pre' ∧ rest = ys ++ rest' := by
      rw [← List.append_assoc] at heq
      exact List.append_inj heq (by rw [List.length_append, hlen])
    obtain ⟨rfl, rfl⟩ := hsplit
    refine ⟨pre, xs ++ ys, rest', by simp, rfl, ?_, a, xs, ys, rfl, hG, hH⟩
    simp only [List.length_append]
    omega
  complete := by
    rintro pre b bs rest ⟨a, xs, ys, rfl, hG, hH⟩
    have h1 := hp.complete pre (ys ++ rest) hG
    have h2 := (hq a xs hG).complete (pre ++ xs) rest hH
    rw [List.append_assoc, List.length_append] at h2
    rw [List.append_assoc, ByteReader.bind_run_ok h1, h2, List.length_append, Nat.add_assoc]
  safe := by
    intro msg buf hbuf h
    cases hpr : p msg buf with
    | error e =>
        rw [ByteReader.bind_run_error hpr] at h
        cases h
        exact hp.safe hbuf hpr
    | ok r =>
        obtain ⟨a, mid⟩ := r
        rw [ByteReader.bind_run_ok hpr] at h
        obtain ⟨_, xs, _, -, -, -, hG⟩ := hp.sound hbuf hpr
        exact (hq a xs hG).safe (hp.le_length hbuf hpr) h

/-- A guarded exception: `if (c) throw e;` followed by `p`. -/
theorem throwIf {c : Prop} [Decidable c] {e : ε} {p : ByteReader ε α} {G : α → List UInt8 → Prop}
    (hp : ¬ c → Recognizes p G) :
    Recognizes (if c then ByteReader.fail e else p) (fun a bs => ¬ c ∧ G a bs) := by
  by_cases hc : c
  · rw [if_pos hc]
    exact (fail e).congr fun a bs => ⟨False.elim, fun h => h.1 hc⟩
  · rw [if_neg hc]
    exact (hp hc).congr fun a bs => ⟨fun h => ⟨hc, h⟩, fun h => h.2⟩

/-- A byte read behind the equality test: the test is enough because the cursor
never passes the end. -/
theorem throwAtEnd_deref (e : ε) :
    Recognizes (do ByteReader.throwAtEnd e; ByteReader.deref) (fun b bs => bs = [b]) where
  sound := by
    intro msg buf b buf' hbuf h
    obtain ⟨_, mid, h1, h2⟩ := ByteReader.bind_eq_ok h
    unfold ByteReader.throwAtEnd at h1
    split at h1
    · cases h1
    · cases h1
      unfold ByteReader.deref at h2
      cases hget : msg[buf]? with
      | none =>
          rw [hget] at h2
          cases h2
      | some c =>
          rw [hget] at h2
          cases h2
          obtain ⟨hlt, hc⟩ := List.getElem?_eq_some_iff.mp hget
          refine ⟨msg.take buf, [b], msg.drop (buf + 1), ?_, ?_, ?_, rfl⟩
          · rw [List.singleton_append, ← hc, ← List.drop_eq_getElem_cons hlt,
              List.take_append_drop]
          · rw [List.length_take, Nat.min_eq_left hbuf]
          · rw [List.length_take, Nat.min_eq_left hbuf, List.length_singleton]
  complete := by
    rintro pre b bs rest rfl
    have hne : ¬ pre.length = (pre ++ ([b] ++ rest)).length := by
      simp only [List.length_append, List.length_singleton]
      omega
    have h1 : ByteReader.throwAtEnd e (pre ++ ([b] ++ rest)) pre.length = .ok ((), pre.length) :=
      if_neg hne
    rw [ByteReader.bind_run_ok h1, ByteReader.deref]
    simp
  safe := by
    intro msg buf hbuf h
    -- a cursor that is not at the end is before it
    by_cases hend : buf = msg.length
    · rw [ByteReader.bind_run_error (if_pos hend)] at h
      cases h
    · rw [ByteReader.bind_run_ok (if_neg hend), ByteReader.deref,
        List.getElem?_eq_getElem (by omega)] at h
      cases h

/-- A copy of `n` bytes behind the signed length test. -/
theorem throwIfShort_memcpy (n : ℕ) (e : ε) :
    Recognizes (do ByteReader.throwIfShort n e; ByteReader.memcpy n)
      (fun bs' bs => bs' = bs ∧ bs.length = n) where
  sound := by
    intro msg buf b buf' hbuf h
    obtain ⟨_, mid, h1, h2⟩ := ByteReader.bind_eq_ok h
    unfold ByteReader.throwIfShort at h1
    split at h1
    · cases h1
    · cases h1
      unfold ByteReader.memcpy at h2
      split at h2
      · next hle =>
        cases h2
        refine ⟨msg.take buf, (msg.drop buf).take n, (msg.drop buf).drop n, ?_, ?_, ?_, rfl, ?_⟩
        · rw [List.take_append_drop, List.take_append_drop]
        all_goals
          simp only [List.length_take, List.length_drop]
          omega
      · cases h2
  complete := by
    rintro pre b bs rest ⟨rfl, rfl⟩
    have hlen : (pre ++ (b ++ rest)).length = pre.length + (b.length + rest.length) := by
      simp only [List.length_append]
    have h1 : ByteReader.throwIfShort b.length e (pre ++ (b ++ rest)) pre.length
        = .ok ((), pre.length) := if_neg (by omega)
    rw [ByteReader.bind_run_ok h1, ByteReader.memcpy, if_pos (by omega), List.drop_left,
      List.take_left]
  safe := by
    intro msg buf hbuf h
    by_cases hshort : (msg.length : ℤ) - buf < n
    · rw [ByteReader.bind_run_error (if_pos hshort)] at h
      cases h
    · rw [ByteReader.bind_run_ok (if_neg hshort), ByteReader.memcpy, if_pos (by omega)] at h
      cases h

/-- `throwAtEnd_deref` at the head of a longer reader. -/
theorem throwAtEnd_deref_bind {e : ε} {q : UInt8 → ByteReader ε β}
    {H : UInt8 → β → List UInt8 → Prop} (hq : ∀ b, Recognizes (q b) (H b)) :
    Recognizes (do ByteReader.throwAtEnd e; let b ← ByteReader.deref; q b)
      (fun a bs => ∃ b ys, bs = b :: ys ∧ H b a ys) := by
  have h := (throwAtEnd_deref e).bind fun b _ _ => hq b
  rw [bind_assoc] at h
  refine h.congr fun a bs => ⟨?_, ?_⟩
  · rintro ⟨b, xs, ys, rfl, rfl, hH⟩
    exact ⟨b, ys, rfl, hH⟩
  · rintro ⟨b, ys, rfl, hH⟩
    exact ⟨b, [b], ys, rfl, rfl, hH⟩

/-- `throwIfShort_memcpy` at the head of a longer reader. -/
theorem throwIfShort_memcpy_bind {n : ℕ} {e : ε} {q : List UInt8 → ByteReader ε β}
    {H : List UInt8 → β → List UInt8 → Prop} (hq : ∀ xs, Recognizes (q xs) (H xs)) :
    Recognizes (do ByteReader.throwIfShort n e; let xs ← ByteReader.memcpy n; q xs)
      (fun a bs => ∃ xs ys, bs = xs ++ ys ∧ xs.length = n ∧ H xs a ys) := by
  have h := (throwIfShort_memcpy n e).bind fun xs _ _ => hq xs
  rw [bind_assoc] at h
  refine h.congr fun a bs => ⟨?_, ?_⟩
  · rintro ⟨xs, _, ys, rfl, ⟨rfl, hlen⟩, hH⟩
    exact ⟨xs, ys, rfl, hlen, hH⟩
  · rintro ⟨xs, ys, rfl, hlen, hH⟩
    exact ⟨xs, xs, ys, rfl, ⟨rfl, hlen⟩, hH⟩

/-- **Counted loops.**  If one round reads the encoding `enc x` of some `x` and
adds it to the state, then `n` rounds read the encodings of `n` of them. -/
theorem forLoop {f : σ → ByteReader ε σ} {enc : X → List UInt8} {push : σ → X → σ}
    (hf : ∀ s, Recognizes (f s) (fun s' bs => ∃ x, bs = enc x ∧ s' = push s x)) (n : ℕ) :
    ∀ s, Recognizes (ByteReader.forLoop f n s)
      (fun s' bs => ∃ xs : List X, xs.length = n ∧ bs = xs.flatMap enc ∧ s' = xs.foldl push s) := by
  induction n with
  | zero =>
      intro s
      refine (Recognizes.pure s).congr fun s' bs => ⟨?_, ?_⟩
      · rintro ⟨rfl, rfl⟩
        exact ⟨[], rfl, rfl, rfl⟩
      · rintro ⟨xs, hxs, rfl, rfl⟩
        rw [List.length_eq_zero_iff.mp hxs]
        exact ⟨rfl, rfl⟩
  | succ n ih =>
      intro s
      refine ((hf s).bind fun s' _ _ => ih s').congr fun s' bs => ⟨?_, ?_⟩
      · rintro ⟨a, ys, zs, rfl, ⟨x, rfl, rfl⟩, xs, hxs, rfl, rfl⟩
        exact ⟨x :: xs, by rw [List.length_cons, hxs], by rw [List.flatMap_cons], rfl⟩
      · rintro ⟨xs, hxs, rfl, rfl⟩
        cases xs with
        | nil => cases hxs
        | cons x xs =>
            refine ⟨push s x, enc x, xs.flatMap enc, by rw [List.flatMap_cons], ⟨x, rfl, rfl⟩,
              xs, ?_, rfl, rfl⟩
            simpa using hxs

end Recognizes

/-! ## Reading back -/

/-- From any position at which the bytes `bs` stand, `p` returns `a` and stops after them. -/
structure Reads {ε α : Type} (p : ByteReader ε α) (bs : List UInt8) (a : α) : Prop where
  run : ∀ pre rest, p (pre ++ (bs ++ rest)) pre.length = .ok (a, pre.length + bs.length)

namespace Reads

variable {ε α β σ X : Type}

theorem pure (a : α) : Reads (Pure.pure a : ByteReader ε α) [] a where
  run _ _ := rfl

theorem bind {p : ByteReader ε α} {q : α → ByteReader ε β} {xs ys : List UInt8} {a : α} {b : β}
    (hp : Reads p xs a) (hq : Reads (q a) ys b) : Reads (p >>= q) (xs ++ ys) b where
  run pre rest := by
    have h1 := hp.run pre (ys ++ rest)
    have h2 := hq.run (pre ++ xs) rest
    rw [List.append_assoc, List.length_append] at h2
    rw [List.append_assoc, ByteReader.bind_run_ok h1, h2, List.length_append, Nat.add_assoc]

/-- The last step of a reader, which makes its value. -/
theorem map {p : ByteReader ε α} {xs : List UInt8} {a : α} (hp : Reads p xs a) (f : α → β) :
    Reads (do let a ← p; return f a) xs (f a) := by
  have h := hp.bind (q := fun a => Pure.pure (f a)) (pure (f a))
  rwa [List.append_nil] at h

theorem deref (b : UInt8) : Reads (ByteReader.deref : ByteReader ε UInt8) [b] b where
  run pre rest := by
    rw [ByteReader.deref]
    simp

theorem memcpy {n : ℕ} {bs : List UInt8} (h : bs.length = n) :
    Reads (ByteReader.memcpy n : ByteReader ε (List UInt8)) bs bs where
  run pre rest := by
    subst h
    have hle : pre.length + bs.length ≤ (pre ++ (bs ++ rest)).length := by
      simp only [List.length_append]
      omega
    rw [ByteReader.memcpy, if_pos hle, List.drop_left, List.take_left]

/-- A counted loop that reads the encoding of one of the values a round. -/
theorem forLoop_of_mem {f : σ → ByteReader ε σ} {enc : X → List UInt8} {push : σ → X → σ}
    {xs : List X} (hf : ∀ x ∈ xs, ∀ s, Reads (f s) (enc x) (push s x)) :
    ∀ s, Reads (ByteReader.forLoop f xs.length s) (xs.flatMap enc) (xs.foldl push s) := by
  induction xs with
  | nil => exact fun s => pure s
  | cons x xs ih =>
      intro s
      rw [List.forall_mem_cons] at hf
      rw [List.flatMap_cons, List.foldl_cons]
      exact (hf.1 s).bind (ih hf.2 _)

/-- A counted loop that can read the encoding of any value. -/
theorem forLoop {f : σ → ByteReader ε σ} {enc : X → List UInt8} {push : σ → X → σ}
    (hf : ∀ s x, Reads (f s) (enc x) (push s x)) (xs : List X) :
    ∀ s, Reads (ByteReader.forLoop f xs.length s) (xs.flatMap enc) (xs.foldl push s) :=
  forLoop_of_mem fun x _ s => hf s x

end Reads

/-! ## Outcomes -/

/-- On the bytes `bs`, whatever stands around them, `p` ends with the outcome `r`, and right
after `bs` if that is a value. -/
structure Gives {ε α : Type} (p : ByteReader ε α) (bs : List UInt8) (r : Except (Fault ε) α) :
    Prop where
  run : ∀ pre rest, p (pre ++ (bs ++ rest)) pre.length =
    r.map fun a => (a, pre.length + bs.length)

namespace Gives

variable {ε α β : Type}

theorem of_reads {p : ByteReader ε α} {bs : List UInt8} {a : α} (h : Reads p bs a) :
    Gives p bs (.ok a) :=
  ⟨h.run⟩

theorem lift (r : Except (Fault ε) α) : Gives (ByteReader.lift r) [] r :=
  ⟨fun _ _ => rfl⟩

/-- Sequencing: after an error the rest of the bytes does not matter. -/
theorem bind {p : ByteReader ε α} {q : α → ByteReader ε β} {xs ys : List UInt8}
    {r : Except (Fault ε) α} {s : α → Except (Fault ε) β} (hp : Gives p xs r)
    (hq : ∀ a, Gives (q a) ys (s a)) : Gives (p >>= q) (xs ++ ys) (r >>= s) where
  run pre rest := by
    have h1 := hp.run pre (ys ++ rest)
    rw [List.append_assoc]
    cases r with
    | error e => rw [ByteReader.bind_run_error h1]; rfl
    | ok a =>
        have h2 := (hq a).run (pre ++ xs) rest
        rw [List.append_assoc, List.length_append] at h2
        rw [ByteReader.bind_run_ok h1, h2, List.length_append, Nat.add_assoc]
        rfl

/-- Sequencing, behind a value that is known. -/
theorem bind_reads {p : ByteReader ε α} {q : α → ByteReader ε β} {xs ys : List UInt8} {a : α}
    {r : Except (Fault ε) β} (hp : Reads p xs a) (hq : Gives (q a) ys r) :
    Gives (p >>= q) (xs ++ ys) r where
  run pre rest := by
    have h1 := hp.run pre (ys ++ rest)
    have h2 := hq.run (pre ++ xs) rest
    rw [List.append_assoc, List.length_append] at h2
    rw [List.append_assoc, ByteReader.bind_run_ok h1, h2, List.length_append, Nat.add_assoc]

end Gives

/-! ## Thrown exceptions -/

/-- Every exception that `p` throws satisfies `E`, whatever it reads. -/
structure ThrowsOnly {ε α : Type} (p : ByteReader ε α) (E : ε → Prop) : Prop where
  thrown : ∀ {msg : List UInt8} {buf : ℕ} {e : ε}, p msg buf = .error (.thrown e) → E e

namespace ThrowsOnly

variable {ε α β σ : Type} {E : ε → Prop}

theorem pure (a : α) : ThrowsOnly (Pure.pure a : ByteReader ε α) E where
  thrown := by
    intro msg buf e h
    cases h

theorem fail {e : ε} (he : E e) : ThrowsOnly (ByteReader.fail e : ByteReader ε α) E where
  thrown := by
    intro msg buf e' h
    cases h
    exact he

theorem deref : ThrowsOnly (ByteReader.deref : ByteReader ε UInt8) E where
  thrown := by
    intro msg buf e h
    unfold ByteReader.deref at h
    split at h
    · cases h
    · cases h

theorem memcpy (n : ℕ) : ThrowsOnly (ByteReader.memcpy n : ByteReader ε (List UInt8)) E where
  thrown := by
    intro msg buf e h
    unfold ByteReader.memcpy at h
    split at h
    · cases h
    · cases h

theorem throwAtEnd {e : ε} (he : E e) : ThrowsOnly (ByteReader.throwAtEnd e) E where
  thrown := by
    intro msg buf e' h
    unfold ByteReader.throwAtEnd at h
    split at h
    · cases h
      exact he
    · cases h

theorem throwIfShort {e : ε} (n : ℤ) (he : E e) : ThrowsOnly (ByteReader.throwIfShort n e) E where
  thrown := by
    intro msg buf e' h
    unfold ByteReader.throwIfShort at h
    split at h
    · cases h
      exact he
    · cases h

theorem bind {p : ByteReader ε α} {q : α → ByteReader ε β} (hp : ThrowsOnly p E)
    (hq : ∀ a, ThrowsOnly (q a) E) : ThrowsOnly (p >>= q) E where
  thrown := by
    intro msg buf e h
    cases hpr : p msg buf with
    | error f =>
        rw [ByteReader.bind_run_error hpr] at h
        cases h
        exact hp.thrown hpr
    | ok r =>
        rw [ByteReader.bind_run_ok hpr] at h
        exact (hq r.1).thrown h

theorem ite {c : Prop} [Decidable c] {p q : ByteReader ε α} (hp : ThrowsOnly p E)
    (hq : ThrowsOnly q E) : ThrowsOnly (if c then p else q) E := by
  by_cases hc : c
  · rwa [if_pos hc]
  · rwa [if_neg hc]

theorem forLoop {f : σ → ByteReader ε σ} (hf : ∀ s, ThrowsOnly (f s) E) (n : ℕ) :
    ∀ s, ThrowsOnly (ByteReader.forLoop f n s) E := by
  induction n with
  | zero => exact fun s => pure s
  | succ n ih => exact fun s => (hf s).bind ih

end ThrowsOnly
