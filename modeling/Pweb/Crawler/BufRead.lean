/-
# Receiving crawler messages (`bufread`, `crawler_protocol/bufreadwrite.cpp`)

A `bufread` reads a header and then a body of the length it announces, inserts a
null behind the body and passes the C string at the front of its buffer to the
handler for the type.  It reports an error and stops reading when the length is
above 255, when no handler is there for the type, and when a read fails.
-/
import Pweb.Crawler.Messages
import Pweb.Foundation.StreamReader
import Pweb.Shared.ProtocolHelper

open CrawlerProtocol

/-- `cbmap_` and `errcb_`: the types that have a handler, and whether the error handler is
set. -/
structure BufReadHandlers where
  cbmap : List MessageType
  errcb : Bool

/-- What a `bufread` is reading; it has stopped after an error or an exception. -/
inductive BufReadStage where
  | header
  | body
  | stopped
  deriving DecidableEq, Repr

/-- The members of a `bufread`. -/
structure BufRead where
  stage : BufReadStage := .header
  header : Header := ⟨Vector.replicate 3 0⟩
  buf : Bytes := List.replicate 256 0
  deriving DecidableEq, Repr

/-- The callbacks that a `bufread` calls. -/
inductive BufReadCall where
  | handler (type : MessageType) (str : Bytes)
  | error
  deriving DecidableEq, Repr

namespace BufRead

/-- `sizeof buf_`. -/
def bufSize : ℕ := 256

/-- An error is reported and nothing more is read. -/
def reportError (hs : BufReadHandlers) (r : BufRead) : BufRead × List BufReadCall :=
  ({ r with stage := .stopped }, if hs.errcb then [.error] else [])

/-- `handle_header_read` without an error. -/
def handleHeaderRead (hs : BufReadHandlers) (r : BufRead) (bs : Bytes) :
    BufRead × List BufReadCall :=
  let r := { r with header := .ofBytes bs }
  if r.header.length.toNat > bufSize - 1 then reportError hs r
  else if r.header.type ∈ hs.cbmap then ({ r with stage := .body }, [])
  else reportError hs r

/-- `handle_body_read` without an error. -/
def handleBodyRead (hs : BufReadHandlers) (r : BufRead) (bs : Bytes) :
    BufRead × List BufReadCall :=
  let r := { r with buf := bs ++ 0 :: r.buf.drop (bs.length + 1) }
  match ProtocolHelper.parseString (bs.length + 1) r.buf 0 with
  | .error _ => ({ r with stage := .stopped }, [])
  | .ok (str, _) =>
    if r.header.type ∈ hs.cbmap then ({ r with stage := .header }, [.handler r.header.type str])
    else reportError hs r

/-- A `bufread` with these handlers, from `start()`. -/
def reader (hs : BufReadHandlers) : StreamReader BufRead BufReadCall where
  start := {}
  want r :=
    match r.stage with
    | .header => some 3
    | .body => some (bufferSize bufSize r.header.length.toNat)
    | .stopped => none
  handle r bs :=
    match r.stage with
    | .header => handleHeaderRead hs r bs
    | .body => handleBodyRead hs r bs
    | .stopped => (r, [])
  handleError r := reportError hs r

/-! ## Headers and bodies -/

section

variable (hs : BufReadHandlers) {r : BufRead}

theorem want_header (hstage : r.stage = .header) : (reader hs).want r = some 3 := by
  simp only [reader, hstage]

/-- A length above 255 stops the reader. -/
theorem handle_header_of_gt (hstage : r.stage = .header) {h : Header}
    (hlen : 255 < h.length.toNat) :
    (reader hs).handle r h.buf.toList
      = ({ r with stage := .stopped, header := h }, if hs.errcb then [.error] else []) := by
  simp only [reader, hstage, handleHeaderRead, Header.ofBytes_toList, reportError]
  rw [if_pos (show bufSize - 1 < h.length.toNat from hlen)]

/-- A header with a handler makes the reader ask for a body of the length announced. -/
theorem handle_header_of_le (hstage : r.stage = .header) {h : Header}
    (hlen : h.length.toNat ≤ 255) (htype : h.type ∈ hs.cbmap) :
    (reader hs).handle r h.buf.toList = ({ r with stage := .body, header := h }, []) := by
  have hnot : ¬ bufSize - 1 < h.length.toNat := Nat.not_lt.mpr hlen
  simp only [reader, hstage, handleHeaderRead, Header.ofBytes_toList]
  rw [if_neg hnot, if_pos htype]

theorem want_body (hstage : r.stage = .body) (hlen : r.header.length.toNat ≤ 255) :
    (reader hs).want r = some r.header.length.toNat := by
  simp only [reader, hstage, bufferSize]
  rw [Nat.min_eq_right (by unfold bufSize; omega)]

/-- **What a handler is given**: the body up to its first null. -/
theorem handle_body (hstage : r.stage = .body) (htype : r.header.type ∈ hs.cbmap) (bs : Bytes) :
    (reader hs).handle r bs
      = ({ r with stage := .header, buf := bs ++ 0 :: r.buf.drop (bs.length + 1) },
        [.handler r.header.type (bs.takeWhile (· ≠ 0))]) := by
  simp only [reader, hstage, handleBodyRead, ProtocolHelper.parseString_terminated]
  rw [if_pos htype]

end

/-! ## Rejection -/

/-- The bytes are rejected: their header announces too long a body or a type without a handler. -/
def Rejects (hs : BufReadHandlers) (r : BufRead) (bs : Bytes) : Prop :=
  match r.stage with
  | .header =>
    bufSize - 1 < (Header.ofBytes bs).length.toNat ∨ (Header.ofBytes bs).type ∉ hs.cbmap
  | .body => r.header.type ∉ hs.cbmap
  | .stopped => False

section

variable {hs : BufReadHandlers} {r : BufRead} {bs : Bytes}

/-- Rejected bytes are reported as an error. -/
theorem calls_of_rejects (h : Rejects hs r bs) :
    ((reader hs).handle r bs).2 = if hs.errcb then [.error] else [] := by
  rcases hstage : r.stage with _ | _ | _
  · simp only [Rejects, hstage] at h
    simp only [reader, hstage, handleHeaderRead]
    by_cases hlen : bufSize - 1 < (Header.ofBytes bs).length.toNat
    · rw [if_pos hlen]
      rfl
    · rw [if_neg hlen, if_neg (h.resolve_left hlen)]
      rfl
  · simp only [Rejects, hstage] at h
    simp only [reader, hstage, handleBodyRead, ProtocolHelper.parseString_terminated]
    rw [if_neg h]
    rfl
  · simp only [Rejects, hstage] at h

/-- Other bytes are not, and the reader goes on. -/
theorem handle_of_not_rejects (h : ¬ Rejects hs r bs) (hgo : r.stage ≠ .stopped) :
    ((reader hs).handle r bs).1.stage ≠ .stopped ∧
      ∀ call ∈ ((reader hs).handle r bs).2, call ≠ .error := by
  rcases hstage : r.stage with _ | _ | _
  · simp only [Rejects, hstage, not_or, not_not] at h
    simp only [reader, hstage, handleHeaderRead]
    rw [if_neg h.1, if_pos h.2]
    exact ⟨BufReadStage.noConfusion, List.forall_mem_nil _⟩
  · simp only [Rejects, hstage, not_not] at h
    rw [handle_body hs hstage h]
    refine ⟨BufReadStage.noConfusion, List.forall_mem_singleton.mpr ?_⟩
    exact BufReadCall.noConfusion
  · exact absurd hstage hgo

theorem want_isSome_iff : ((reader hs).want r).isSome ↔ r.stage ≠ .stopped := by
  unfold reader
  dsimp only
  split
  · next hstage => simp [hstage]
  · next hstage => simp [hstage]
  · next hstage => simp [hstage]

end

end BufRead
