/-
# The messages about devices (`plnode/message/p2p`, `plnode/message/control`)

The messages that register a device, ask for one and answer, each with its size, its writer and
its reader.  A reader begins with the common part and goes on at the base size, wherever that
part has ended.
-/
import Pweb.Foundation.ByteLayout
import Pweb.Klink.MessageGetReply
import Pweb.Klink.PeerInitiateGet
import Pweb.Klink.SetNextHop

namespace Klink

/-- The host name and the port in a reply.  The loop copies an `int` into the character, which
is its first byte, and advances by one. -/
def getHostAddress : ByteReader Empty HostAddress := do
  let hostLength ← getInt
  let host ← ByteReader.forLoop (fun host => do
    let ch ← ByteReader.peek 4
    ByteReader.advance 1
    return host ++ ch.take 1) hostLength.toInt.toNat []
  let port ← getInt
  return ⟨host, port⟩

/-! ## `message_get_reply.h` -/

/-- `MessageGET_REPLY::deserialize`. -/
def MessageGET_REPLY.deserialize : ByteReader Empty MessageGET_REPLY := do
  let base ← ABSMessage.deserialize
  ByteReader.seek base.getBaseSize
  let resolutionStatus ← getInt
  let resolutionHops ← getInt
  let resolutionIpHops ← getInt
  let resolutionLatency ← getDouble
  let originSeqNo ← getInt
  let targetOid ← getOid
  let hostAddress ← getHostAddress
  let deviceName ← getString
  return { base with resolutionStatus, resolutionHops, resolutionIpHops, resolutionLatency,
                     originSeqNo, targetOid, hostAddress, deviceName }

/-! ## `message_put.h` -/

namespace MessagePUT

/-- `MessagePUT::getSize`. -/
def getSize (m : MessagePUT) : ℕ :=
  m.getBaseSize + (4 * 4 + 1 * m.deviceName.length) + (4 * 2 + 1 * m.hostAddress.hostName.length)

/-- `MessagePUT::serialize`. -/
def serialize (m : MessagePUT) : Bytes :=
  m.toABSMessage.serialize ++ (putOid m.targetOid ++ (putString m.deviceName ++
    (putString m.hostAddress.hostName ++ putInt m.hostAddress.hostPort)))

/-- `MessagePUT::deserialize`. -/
def deserialize : ByteReader Empty MessagePUT := do
  let base ← ABSMessage.deserialize
  ByteReader.seek base.getBaseSize
  let targetOid ← getOid
  let deviceName ← getString
  let hostAddrName ← getString
  let hPort ← getInt
  return { base with targetOid, deviceName, hostAddress := ⟨hostAddrName, hPort⟩ }

end MessagePUT

/-! ## `message_put_reply.h` -/

/-- `MessagePUT_REPLY`. -/
structure MessagePUT_REPLY extends ABSMessage where
  resolutionStatus : Int32
  resolutionHops : Int32
  resolutionIpHops : Int32
  resolutionLatency : UInt64
  originSeqNo : Int32
  targetOid : OverlayId
  deviceName : Bytes
  deriving DecidableEq, Repr

namespace MessagePUT_REPLY

/-- `MessagePUT_REPLY::getSize`. -/
def getSize (m : MessagePUT_REPLY) : ℕ := m.getBaseSize + (4 * 8 + 1 * m.deviceName.length + 8)

/-- `MessagePUT_REPLY::serialize`. -/
def serialize (m : MessagePUT_REPLY) : Bytes :=
  m.toABSMessage.serialize ++ (putInt m.resolutionStatus ++ (putInt m.resolutionHops ++
    (putInt m.resolutionIpHops ++ (putDouble m.resolutionLatency ++ (putInt m.originSeqNo ++
      (putOid m.targetOid ++ putString m.deviceName))))))

/-- `MessagePUT_REPLY::deserialize`. -/
def deserialize : ByteReader Empty MessagePUT_REPLY := do
  let base ← ABSMessage.deserialize
  ByteReader.seek base.getBaseSize
  let resolutionStatus ← getInt
  let resolutionHops ← getInt
  let resolutionIpHops ← getInt
  let resolutionLatency ← getDouble
  let originSeqNo ← getInt
  let targetOid ← getOid
  let deviceName ← getString
  return { base with resolutionStatus, resolutionHops, resolutionIpHops, resolutionLatency,
                     originSeqNo, targetOid, deviceName }

end MessagePUT_REPLY

/-! ## `RetrieveMessage.h` -/

/-- `RetrieveMessage`. -/
structure RetrieveMessage extends ABSMessage where
  deviceName : Bytes
  deriving DecidableEq, Repr

namespace RetrieveMessage

/-- The sum in `RetrieveMessage::getSize`. -/
def size (m : RetrieveMessage) : ℕ := m.getBaseSize + (4 + m.deviceName.length * 1)

/-- `RetrieveMessage::getSize`, whose `ret` is an `int`. -/
def getSize (m : RetrieveMessage) : ℕ := throughInt m.size

/-- `RetrieveMessage::serialize`. -/
def serialize (m : RetrieveMessage) : Bytes := m.toABSMessage.serialize ++ putString m.deviceName

/-- `RetrieveMessage::deserialize`. -/
def deserialize : ByteReader Empty RetrieveMessage := do
  let base ← ABSMessage.deserialize
  ByteReader.seek base.getBaseSize
  let deviceName ← getString
  return { base with deviceName }

end RetrieveMessage

/-! ## `MessageRetrieveReply.h` -/

/-- `MessageRetrieveReply`. -/
structure MessageRetrieveReply extends ABSMessage where
  resolutionStatus : Int32
  resolutionHops : Int32
  resolutionIpHops : Int32
  resolutionLatency : UInt64
  originSeqNo : Int32
  hostAddress : HostAddress
  deviceName : Bytes
  deriving DecidableEq, Repr

namespace MessageRetrieveReply

/-- The sum in `MessageRetrieveReply::getSize`. -/
def size (m : MessageRetrieveReply) : ℕ :=
  m.getBaseSize + (4 * 7 + 1 * m.hostAddress.hostName.length + 1 * m.deviceName.length + 8)

/-- `MessageRetrieveReply::getSize`, whose `ret` is an `int`. -/
def getSize (m : MessageRetrieveReply) : ℕ := throughInt m.size

/-- `MessageRetrieveReply::serialize`. -/
def serialize (m : MessageRetrieveReply) : Bytes :=
  m.toABSMessage.serialize ++ (putInt m.resolutionStatus ++ (putInt m.resolutionHops ++
    (putInt m.resolutionIpHops ++ (putDouble m.resolutionLatency ++ (putInt m.originSeqNo ++
      (putString m.hostAddress.hostName ++
        (putInt m.hostAddress.hostPort ++ putString m.deviceName)))))))

/-- `MessageRetrieveReply::deserialize`. -/
def deserialize : ByteReader Empty MessageRetrieveReply := do
  let base ← ABSMessage.deserialize
  ByteReader.seek base.getBaseSize
  let resolutionStatus ← getInt
  let resolutionHops ← getInt
  let resolutionIpHops ← getInt
  let resolutionLatency ← getDouble
  let originSeqNo ← getInt
  let hostAddress ← getHostAddress
  let deviceName ← getString
  return { base with resolutionStatus, resolutionHops, resolutionIpHops, resolutionLatency,
                     originSeqNo, hostAddress, deviceName }

end MessageRetrieveReply

/-! ## `peer_initiate_put.h` -/

/-- `PeerInitiatePUT`. -/
structure PeerInitiatePUT extends ABSMessage where
  deviceName : Bytes
  hostAddress : HostAddress
  deriving DecidableEq, Repr

namespace PeerInitiatePUT

/-- `PeerInitiatePUT::getSize`. -/
def getSize (m : PeerInitiatePUT) : ℕ :=
  m.getBaseSize + (4 + 1 * m.deviceName.length) + (4 + 1 * m.hostAddress.hostName.length) + 4

/-- `PeerInitiatePUT::serialize`: the loop over the device name goes up to its size, not up to
the `int` that was written. -/
def serialize (m : PeerInitiatePUT) : Bytes :=
  m.toABSMessage.serialize ++ (putInt (Int32.ofNat m.deviceName.length) ++ (m.deviceName ++
    (putString m.hostAddress.hostName ++ putInt m.hostAddress.hostPort)))

/-- `PeerInitiatePUT::deserialize`. -/
def deserialize : ByteReader Empty PeerInitiatePUT := do
  let base ← ABSMessage.deserialize
  ByteReader.seek base.getBaseSize
  let deviceName ← getString
  let hostName ← getString
  let hostPort ← getInt
  return { base with deviceName, hostAddress := ⟨hostName, hostPort⟩ }

end PeerInitiatePUT

end Klink
