/-
# Overlay messages (`plnode/message/message.h` of the test home agent)

The fields that all messages of the overlay share, and the functions that write
them to a buffer and read them back.  They copy every field with `memcpy`, in the
byte order of the machine, which is little endian; a `double` is its eight bytes.
-/
import Pweb.Foundation.ByteOrder
import Pweb.Foundation.ByteReader
import Pweb.Shared.Buffers

open ByteOrder

namespace Klink

/-! ## Fields -/

/-- `OverlayID`; `overlay_id` is a `long`. -/
structure OverlayId where
  overlayId : Int64
  prefixLength : Int32
  maxLength : Int32
  deriving DecidableEq, Repr

/-- `HostAddress`. -/
structure HostAddress where
  hostName : Bytes
  hostPort : Int32
  deriving DecidableEq, Repr

/-- `memcpy` of an `int`. -/
def putInt (val : Int32) : Bytes := toLE 4 val.toUInt32.toNat

/-- `memcpy` of an `unsigned int`. -/
def putUInt (val : UInt32) : Bytes := toLE 4 val.toNat

/-- `memcpy` of a `double`. -/
def putDouble (val : UInt64) : Bytes := toLE 8 val.toNat

/-- The length of a string as an `int`, then its characters in a loop up to that length. -/
def putString (str : Bytes) : Bytes :=
  let length := Int32.ofNat str.length
  putInt length ++ str.take length.toInt.toNat

/-- The three integers of an `OverlayID`; `GetOverlay_id` narrows the identifier. -/
def putOid (oid : OverlayId) : Bytes :=
  putInt oid.overlayId.toInt32 ++ (putInt oid.prefixLength ++ putInt oid.maxLength)

/-- `memcpy` into an `int`. -/
def getInt : ByteReader Empty Int32 := do
  let bs ← ByteReader.memcpy 4
  return (UInt32.ofNat (ofLE bs)).toInt32

/-- `memcpy` into an `unsigned int`. -/
def getUInt : ByteReader Empty UInt32 := do
  let bs ← ByteReader.memcpy 4
  return UInt32.ofNat (ofLE bs)

/-- `memcpy` into a `double`. -/
def getDouble : ByteReader Empty UInt64 := do
  let bs ← ByteReader.memcpy 8
  return UInt64.ofNat (ofLE bs)

/-- The loop that appends `length` characters to an empty string. -/
def getChars (length : Int32) : ByteReader Empty Bytes :=
  ByteReader.forLoop (fun str => do let ch ← ByteReader.deref; return str ++ [ch])
    length.toInt.toNat []

/-- A length and as many characters. -/
def getString : ByteReader Empty Bytes := do
  let length ← getInt
  getChars length

/-- Three integers, stored in an `OverlayID`; `SetOverlay_id` widens the identifier. -/
def getOid : ByteReader Empty OverlayId := do
  let oId ← getInt
  let pLen ← getInt
  let mLen ← getInt
  return ⟨oId.toInt64, pLen, mLen⟩

/-! ## Reading fields back -/

theorem reads_getInt (val : Int32) : Reads getInt (putInt val) val := by
  have h : Reads getInt (putInt val) _ := (Reads.memcpy (length_toLE 4 val.toUInt32.toNat)).map _
  have hval : (UInt32.ofNat (ofLE (toLE 4 val.toUInt32.toNat))).toInt32 = val := by
    have hlt := val.toUInt32.toNat_lt
    rw [ofLE_toLE, Nat.mod_eq_of_lt (by simpa using hlt), UInt32.ofNat_toNat]
    exact Int32.toInt32_toUInt32 val
  rwa [hval] at h

theorem reads_getUInt (val : UInt32) : Reads getUInt (putUInt val) val := by
  have h : Reads getUInt (putUInt val) _ := (Reads.memcpy (length_toLE 4 val.toNat)).map _
  have hval : UInt32.ofNat (ofLE (toLE 4 val.toNat)) = val := by
    have hlt := val.toNat_lt
    rw [ofLE_toLE, Nat.mod_eq_of_lt (by simpa using hlt), UInt32.ofNat_toNat]
  rwa [hval] at h

theorem reads_getDouble (val : UInt64) : Reads getDouble (putDouble val) val := by
  have h : Reads getDouble (putDouble val) _ := (Reads.memcpy (length_toLE 8 val.toNat)).map _
  have hval : UInt64.ofNat (ofLE (toLE 8 val.toNat)) = val := by
    have hlt := val.toNat_lt
    rw [ofLE_toLE, Nat.mod_eq_of_lt (by simpa using hlt), UInt64.ofNat_toNat]
  rwa [hval] at h

/-- A length that fits an `int` is kept by it. -/
theorem toNat_length {str : Bytes} (h : str.length < 2 ^ 31) :
    (Int32.ofNat str.length).toInt.toNat = str.length := by
  rw [Int32.toInt_ofNat_of_lt h]
  rfl

theorem putString_of_lt {str : Bytes} (h : str.length < 2 ^ 31) :
    putString str = putInt (Int32.ofNat str.length) ++ str := by
  simp only [putString, toNat_length h, List.take_length]

/-- The character loop reads back a string of the length it is given. -/
theorem reads_getChars {str : Bytes} (h : str.length < 2 ^ 31) :
    Reads (getChars (Int32.ofNat str.length)) str str := by
  have hround : ∀ (s : Bytes) (ch : UInt8),
      Reads (do let ch ← ByteReader.deref; return s ++ [ch] : ByteReader Empty Bytes) [ch]
        (s ++ [ch]) := fun s ch => (Reads.deref ch).map fun ch => s ++ [ch]
  have hloop := Reads.forLoop hround str []
  rw [List.flatMap_singleton', List.foldl_append_eq_append, ← List.flatMap_def,
    List.flatMap_singleton', List.nil_append] at hloop
  rw [getChars, toNat_length h]
  exact hloop

theorem reads_getString {str : Bytes} (h : str.length < 2 ^ 31) :
    Reads getString (putString str) str := by
  rw [putString_of_lt h]
  exact (reads_getInt _).bind (reads_getChars h)

/-- An identifier within 32 bits survives the narrowing. -/
def OverlayId.Narrow (oid : OverlayId) : Prop := oid.overlayId.toInt32.toInt64 = oid.overlayId

/-- Of an identifier the lower 32 bits are read back. -/
theorem reads_getOid_lower (oid : OverlayId) : Reads getOid (putOid oid)
    ⟨oid.overlayId.toInt32.toInt64, oid.prefixLength, oid.maxLength⟩ :=
  (reads_getInt oid.overlayId.toInt32).bind ((reads_getInt oid.prefixLength).bind
    ((reads_getInt oid.maxLength).map _))

theorem reads_getOid {oid : OverlayId} (h : oid.Narrow) : Reads getOid (putOid oid) oid := by
  have hread := reads_getOid_lower oid
  rw [h] at hread
  exact hread

@[simp] theorem length_putInt (val : Int32) : (putInt val).length = 4 := length_toLE _ _

@[simp] theorem length_putUInt (val : UInt32) : (putUInt val).length = 4 := length_toLE _ _

@[simp] theorem length_putDouble (val : UInt64) : (putDouble val).length = 8 := length_toLE _ _

@[simp] theorem length_putOid (oid : OverlayId) : (putOid oid).length = 12 := by
  simp [putOid]

theorem length_putString {str : Bytes} (h : str.length < 2 ^ 31) :
    (putString str).length = 4 + str.length := by
  rw [putString_of_lt h, List.length_append, length_putInt]

/-! ## The common part of a message -/

/-- `ABSMessage`. -/
structure ABSMessage where
  messageType : UInt8
  sequenceNo : UInt32
  destHost : Bytes
  destPort : Int32
  sourceHost : Bytes
  sourcePort : Int32
  overlayHops : UInt8
  overlayTtl : UInt8
  ipHops : Int32
  latency : UInt64
  dstOid : OverlayId
  srcOid : OverlayId
  deriving DecidableEq, Repr

namespace ABSMessage

/-- `getBaseSize`. -/
def getBaseSize (m : ABSMessage) : ℕ :=
  1 * 3 + 4 * 12 + 1 * (m.destHost.length + m.sourceHost.length) + 8

/-- `ABSMessage::serialize`. -/
def serialize (m : ABSMessage) : Bytes :=
  [m.messageType] ++ (putUInt m.sequenceNo ++ (putString m.destHost ++ (putInt m.destPort ++
    (putString m.sourceHost ++ (putInt m.sourcePort ++ ([m.overlayHops] ++ ([m.overlayTtl] ++
      (putInt m.ipHops ++ (putDouble m.latency ++ (putOid m.dstOid ++ putOid m.srcOid))))))))))

/-- `ABSMessage::deserialize`: it sets every field. -/
def deserialize : ByteReader Empty ABSMessage := do
  let messageType ← ByteReader.deref
  let sequenceNo ← getUInt
  let destHost ← getString
  let destPort ← getInt
  let sourceHost ← getString
  let sourcePort ← getInt
  let overlayHops ← ByteReader.deref
  let overlayTtl ← ByteReader.deref
  let ipHops ← getInt
  let latency ← getDouble
  let dstOid ← getOid
  let srcOid ← getOid
  return { messageType, sequenceNo, destHost, destPort, sourceHost, sourcePort, overlayHops,
           overlayTtl, ipHops, latency, dstOid, srcOid }

/-- The messages whose fields fit the types they are written as. -/
structure Fits (m : ABSMessage) : Prop where
  destHost : m.destHost.length < 2 ^ 31
  sourceHost : m.sourceHost.length < 2 ^ 31
  dstOid : m.dstOid.Narrow
  srcOid : m.srcOid.Narrow

theorem length_serialize_of_lt {m : ABSMessage} (hdest : m.destHost.length < 2 ^ 31)
    (hsource : m.sourceHost.length < 2 ^ 31) : m.serialize.length = m.getBaseSize := by
  simp only [serialize, List.length_append, length_putUInt, length_putString hdest,
    length_putInt, length_putString hsource, List.length_singleton, length_putDouble,
    length_putOid, getBaseSize]
  omega

theorem length_serialize {m : ABSMessage} (h : m.Fits) : m.serialize.length = m.getBaseSize :=
  length_serialize_of_lt h.destHost h.sourceHost

/-- Reading the common part, given what is read of the identifiers. -/
theorem reads_deserialize_of_oids {m : ABSMessage} {dstOid srcOid : OverlayId}
    (hdest : m.destHost.length < 2 ^ 31) (hsource : m.sourceHost.length < 2 ^ 31)
    (hdst : Reads getOid (putOid m.dstOid) dstOid) (hsrc : Reads getOid (putOid m.srcOid) srcOid) :
    Reads deserialize m.serialize { m with dstOid, srcOid } :=
  (Reads.deref m.messageType).bind ((reads_getUInt m.sequenceNo).bind
    ((reads_getString hdest).bind ((reads_getInt m.destPort).bind
      ((reads_getString hsource).bind ((reads_getInt m.sourcePort).bind
        ((Reads.deref m.overlayHops).bind ((Reads.deref m.overlayTtl).bind
          ((reads_getInt m.ipHops).bind ((reads_getDouble m.latency).bind
            (hdst.bind (hsrc.map fun srcOid => { m with dstOid, srcOid })))))))))))

/-- **The common part round trips.** -/
theorem reads_deserialize {m : ABSMessage} (h : m.Fits) : Reads deserialize m.serialize m :=
  reads_deserialize_of_oids h.destHost h.sourceHost (reads_getOid h.dstOid)
    (reads_getOid h.srcOid)

end ABSMessage

end Klink
