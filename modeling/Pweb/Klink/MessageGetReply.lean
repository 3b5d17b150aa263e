/-
# The reply to a lookup (`plnode/message/p2p/message_get_reply.h`)

The message with which a home agent answers a gateway: the common part, the outcome of
the lookup, the address of the device and its name.
-/
import Pweb.Klink.Message

namespace Klink

/-- `MSG_PLEXUS_GET_REPLY`. -/
def msgPlexusGetReply : UInt8 := 43

/-- A `size_t` that is kept in an `int` and returned as a `size_t` again. -/
def throughInt (n : ℕ) : ℕ := sizeT (Int32.ofNat n).toInt

/-- `MessageGET_REPLY`. -/
structure MessageGET_REPLY extends ABSMessage where
  resolutionStatus : Int32
  resolutionHops : Int32
  resolutionIpHops : Int32
  resolutionLatency : UInt64
  originSeqNo : Int32
  targetOid : OverlayId
  hostAddress : HostAddress
  deviceName : Bytes
  deriving DecidableEq, Repr

namespace MessageGET_REPLY

/-- The sum in `MessageGET_REPLY::getSize`. -/
def size (m : MessageGET_REPLY) : ℕ :=
  m.getBaseSize + (4 * 10 + 1 * m.hostAddress.hostName.length + 1 * m.deviceName.length + 8)

/-- `MessageGET_REPLY::getSize`, whose `ret` is an `int`. -/
def getSize (m : MessageGET_REPLY) : ℕ := throughInt m.size

/-- `MessageGET_REPLY::serialize`. -/
def serialize (m : MessageGET_REPLY) : Bytes :=
  m.toABSMessage.serialize ++ (putInt m.resolutionStatus ++ (putInt m.resolutionHops ++
    (putInt m.resolutionIpHops ++ (putDouble m.resolutionLatency ++ (putInt m.originSeqNo ++
      (putOid m.targetOid ++ (putString m.hostAddress.hostName ++
        (putInt m.hostAddress.hostPort ++ putString m.deviceName))))))))

end MessageGET_REPLY

end Klink
