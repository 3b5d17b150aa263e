/-
# Received messages and the end of their buffer

`deserialize` is given the length of the buffer and does not use it.  It goes from field to
field, over strings whose lengths the sender has chosen, and stays inside the buffer exactly if
this begins with a complete message of the class (`deserialize_stays_inside_iff`).

Offsets are natural numbers here.  They are `int`s in the code, like the length of the buffer,
so an offset that overflows has left the buffer before.
-/
import Pweb.Klink.MessageRoundTrip

namespace Klink

open ByteOrder

/-- `deserialize`, on a buffer with these bytes, reads none behind its end. -/
def StaysInside {M : Type} (deserialize : ByteReader Empty M) (buffer : Bytes) : Prop :=
  deserialize buffer 0 ≠ .error .overrun

/-- A message that round trips is read inside its bytes. -/
theorem MessageClass.RoundTrips.staysInside {M : Type} {c : MessageClass M} {m : M}
    (h : c.RoundTrips m) : StaysInside c.deserialize (c.serialize m) := by
  rw [StaysInside, h.recovered]
  exact fun heq => by cases heq

/-! ## Layouts -/

/-- A string: an `int`, and as many characters; none if it is negative. -/
def stringSlot : Slot := .counted 4 fun bs => (UInt32.ofNat (ofLE bs)).toInt32.toInt.toNat

/-- An overlay identifier. -/
def oidSlots : List Slot := [.fixed 4, .fixed 4, .fixed 4]

/-- `ABSMessage`. -/
def ABSMessage.layout : List Slot :=
  [.fixed 1, .fixed 4, stringSlot, .fixed 4, stringSlot, .fixed 4, .fixed 1, .fixed 1, .fixed 4,
    .fixed 8] ++ (oidSlots ++ oidSlots)

/-- `MessagePUT`. -/
def MessagePUT.layout : List Slot :=
  ABSMessage.layout ++ (oidSlots ++ [stringSlot, stringSlot, .fixed 4])

/-- `MessageGET_REPLY`. -/
def MessageGET_REPLY.layout : List Slot :=
  ABSMessage.layout ++ ([.fixed 4, .fixed 4, .fixed 4, .fixed 8, .fixed 4] ++
    (oidSlots ++ [stringSlot, .fixed 4, stringSlot]))

/-- `PeerInitiateGET`. -/
def PeerInitiateGET.layout : List Slot := ABSMessage.layout ++ [stringSlot]

/-- `PeerInitiatePUT`. -/
def PeerInitiatePUT.layout : List Slot :=
  ABSMessage.layout ++ [stringSlot, stringSlot, .fixed 4]

/-! ## Fields -/

theorem scans_getInt : Scans getInt [.fixed 4] := (Scans.memcpy 4).map _

theorem scans_getUInt : Scans getUInt [.fixed 4] := (Scans.memcpy 4).map _

theorem scans_getDouble : Scans getDouble [.fixed 8] := (Scans.memcpy 8).map _

theorem scans_getOid : Scans getOid oidSlots :=
  scans_getInt.bind fun _ => scans_getInt.bind fun _ => scans_getInt.map _

theorem scans_getString : Scans getString [stringSlot] :=
  .counted (.memcpy_map 4 _) (fun length : Int32 => length.toInt.toNat) .deref

theorem scans_getHostAddress : Scans getHostAddress [stringSlot, .fixed 4] :=
  .counted_fixed (.memcpy_map 4 _) (fun length : Int32 => length.toInt.toNat)
    (.peek (by decide)) scans_getInt (by decide) HostAddress.mk

/-! ## The common part -/

theorem ABSMessage.scans_deserialize : Scans ABSMessage.deserialize ABSMessage.layout :=
  Scans.deref.bind fun _ => scans_getUInt.bind fun _ => scans_getString.bind fun _ =>
    scans_getInt.bind fun _ => scans_getString.bind fun _ => scans_getInt.bind fun _ =>
      Scans.deref.bind fun _ => Scans.deref.bind fun _ => scans_getInt.bind fun _ =>
        scans_getDouble.bind fun _ => scans_getOid.bind fun _ => scans_getOid.map _

theorem takes_getInt : Takes getInt fun _ n => n = 4 :=
  (Takes.memcpy 4).bind fun _ _ h => .pure h

theorem takes_getUInt : Takes getUInt fun _ n => n = 4 :=
  (Takes.memcpy 4).bind fun _ _ h => .pure h

theorem takes_getDouble : Takes getDouble fun _ n => n = 8 :=
  (Takes.memcpy 8).bind fun _ _ h => .pure h

theorem takes_getOid : Takes getOid fun _ n => n = 12 := by
  refine takes_getInt.bind fun _ _ h₁ => takes_getInt.bind fun _ _ h₂ =>
    takes_getInt.bind fun _ _ h₃ => .pure ?_
  omega

theorem takes_getString : Takes getString fun str n => n = 4 + str.length := by
  refine takes_getInt.bind fun length n hn => ?_
  refine (Takes.loop .deref length.toInt.toNat []).mono fun str m hm => ?_
  rw [List.length_nil, Nat.zero_add] at hm
  rw [hn, hm]

/-- The common part ends at the base size of the message read. -/
theorem ABSMessage.takes_deserialize :
    Takes ABSMessage.deserialize fun m n => n = m.getBaseSize := by
  refine Takes.deref.bind fun _ _ h₁ => takes_getUInt.bind fun _ _ h₂ =>
    takes_getString.bind fun destHost _ h₃ => takes_getInt.bind fun _ _ h₄ =>
      takes_getString.bind fun sourceHost _ h₅ => takes_getInt.bind fun _ _ h₆ =>
        Takes.deref.bind fun _ _ h₇ => Takes.deref.bind fun _ _ h₈ =>
          takes_getInt.bind fun _ _ h₉ => takes_getDouble.bind fun _ _ h₁₀ =>
            takes_getOid.bind fun _ _ h₁₁ => takes_getOid.bind fun _ _ h₁₂ => .pure ?_
  dsimp only [getBaseSize]
  omega

/-- **The rule for a class** whose reader goes on at the base size. -/
theorem staysInside_iff {M : Type} {deserialize : ByteReader Empty M}
    {q : ABSMessage → ByteReader Empty M} {slots : List Slot}
    (hdeserialize : deserialize = do
      let base ← ABSMessage.deserialize
      ByteReader.seek base.getBaseSize
      q base)
    (hq : ∀ base, Scans (q base) slots) (buffer : Bytes) :
    StaysInside deserialize buffer ↔ Complete (ABSMessage.layout ++ slots) buffer := by
  have hscans := ABSMessage.scans_deserialize.bind hq
  rw [StaysInside, hdeserialize, ABSMessage.takes_deserialize.seek_eq, Ne, hscans.overrun_iff,
    not_not]

/-! ## The classes -/

theorem ABSMessage.deserialize_staysInside_iff (buffer : Bytes) :
    StaysInside deserialize buffer ↔ Complete layout buffer := by
  rw [StaysInside, Ne, scans_deserialize.overrun_iff, not_not]

theorem MessagePUT.deserialize_staysInside_iff (buffer : Bytes) :
    StaysInside deserialize buffer ↔ Complete layout buffer :=
  staysInside_iff rfl (fun _ => scans_getOid.bind fun _ => scans_getString.bind fun _ =>
    scans_getString.bind fun _ => scans_getInt.map _) buffer

theorem MessageGET_REPLY.deserialize_staysInside_iff (buffer : Bytes) :
    StaysInside deserialize buffer ↔ Complete layout buffer :=
  staysInside_iff rfl (fun _ => scans_getInt.bind fun _ => scans_getInt.bind fun _ =>
    scans_getInt.bind fun _ => scans_getDouble.bind fun _ => scans_getInt.bind fun _ =>
      scans_getOid.bind fun _ => scans_getHostAddress.bind fun _ => scans_getString.map _) buffer

theorem PeerInitiateGET.deserialize_staysInside_iff (buffer : Bytes) :
    StaysInside deserialize buffer ↔ Complete layout buffer :=
  staysInside_iff rfl (fun _ => scans_getString.map _) buffer

theorem PeerInitiatePUT.deserialize_staysInside_iff (buffer : Bytes) :
    StaysInside deserialize buffer ↔ Complete layout buffer :=
  staysInside_iff rfl (fun _ => scans_getString.bind fun _ => scans_getString.bind fun _ =>
    scans_getInt.map _) buffer

/-- **The end of the buffer.**  Each of the classes stays inside the buffer exactly if this begins
with a complete message. -/
theorem deserialize_stays_inside_iff (buffer : Bytes) :
    (StaysInside ABSMessage.deserialize buffer ↔ Complete ABSMessage.layout buffer) ∧
    (StaysInside MessagePUT.deserialize buffer ↔ Complete MessagePUT.layout buffer) ∧
    (StaysInside MessageGET_REPLY.deserialize buffer ↔ Complete MessageGET_REPLY.layout buffer) ∧
    (StaysInside PeerInitiateGET.deserialize buffer ↔ Complete PeerInitiateGET.layout buffer) ∧
    (StaysInside PeerInitiatePUT.deserialize buffer ↔ Complete PeerInitiatePUT.layout buffer) :=
  ⟨ABSMessage.deserialize_staysInside_iff buffer, MessagePUT.deserialize_staysInside_iff buffer,
    MessageGET_REPLY.deserialize_staysInside_iff buffer,
    PeerInitiateGET.deserialize_staysInside_iff buffer,
    PeerInitiatePUT.deserialize_staysInside_iff buffer⟩

/-- The common part of a message whose host names are empty, with a destination host name of one
character announced. -/
def truncated : Bytes := [44, 0, 0, 0, 0, 1, 0, 0, 0] ++ List.replicate 50 0

theorem truncated_leaves_buffer :
    ¬ StaysInside ABSMessage.deserialize truncated ∧ ¬ StaysInside MessagePUT.deserialize truncated ∧
    ¬ StaysInside MessageGET_REPLY.deserialize truncated ∧
    ¬ StaysInside PeerInitiateGET.deserialize truncated ∧
    ¬ StaysInside PeerInitiatePUT.deserialize truncated := by
  rw [ABSMessage.deserialize_staysInside_iff, MessagePUT.deserialize_staysInside_iff,
    MessageGET_REPLY.deserialize_staysInside_iff, PeerInitiateGET.deserialize_staysInside_iff,
    PeerInitiatePUT.deserialize_staysInside_iff]
  decide +kernel

end Klink
