/-
# Messages of the crawler protocol (`crawler_protocol/messages.hpp`)

A message is a header of three bytes, the type and the length of the body in
network order, and the body.  The length is taken from a `size_t` and cut down to
16 bits; the type reads back as `NOT_A_MESSAGE` unless it is one of the other two.
-/
import Pweb.Foundation.ByteOrder
import Pweb.Shared.Buffers

open ByteOrder

namespace CrawlerProtocol

/-- `message_type`. -/
inductive MessageType where
  | notAMessage
  | homeAgentDiscovered
  | homeAgentAssignment
  deriving DecidableEq, Repr

/-- The value of the enumerator, as a byte. -/
def MessageType.toUInt8 : MessageType → UInt8
  | .notAMessage => 0
  | .homeAgentDiscovered => 1
  | .homeAgentAssignment => 2

/-- `header`. -/
structure Header where
  buf : Vector UInt8 3
  deriving DecidableEq, Repr

namespace Header

/-- `type(type)`. -/
def setType (h : Header) (type : MessageType) : Header := ⟨h.buf.set 0 type.toUInt8⟩

/-- `type()`. -/
def type (h : Header) : MessageType :=
  match h.buf[0] with
  | 1 => .homeAgentDiscovered
  | 2 => .homeAgentAssignment
  | _ => .notAMessage

/-- `length(length)`: `htons` and `memcpy`. -/
def setLength (h : Header) (length : UInt16) : Header :=
  ⟨(h.buf.set 1 (UInt8.ofNat (length.toNat / 256))).set 2 (UInt8.ofNat length.toNat)⟩

/-- `length()`: `memcpy` and `ntohs`. -/
def length (h : Header) : UInt16 := UInt16.ofNat (ofBE [h.buf[1], h.buf[2]])

/-- The header that `async_read` fills with the bytes read. -/
def ofBytes (bs : Bytes) : Header := ⟨Vector.ofFn fun i => bs.getD i 0⟩

/-- The header that `sendmsg` builds. -/
def ofMessage (type : MessageType) (str : Bytes) : Header :=
  ((⟨Vector.replicate 3 0⟩ : Header).setType type).setLength (UInt16.ofNat str.length)

theorem ofBytes_toList (h : Header) : ofBytes h.buf.toList = h := by
  obtain ⟨buf⟩ := h
  apply congrArg Header.mk
  apply Vector.ext
  intro i hi
  simp

@[simp] theorem type_ofMessage (type : MessageType) (str : Bytes) :
    (ofMessage type str).type = type := by
  cases type with
  | notAMessage => rfl
  | homeAgentDiscovered => rfl
  | homeAgentAssignment => rfl

@[simp] theorem length_ofMessage (type : MessageType) (str : Bytes) :
    (ofMessage type str).length = UInt16.ofNat str.length := by
  show UInt16.ofNat (ofBE (toBE 2 (UInt16.ofNat str.length).toNat)) = UInt16.ofNat str.length
  apply ofNat_ofBE_toBE_16

end Header

end CrawlerProtocol
