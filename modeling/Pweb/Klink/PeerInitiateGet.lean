/-
# The request for a lookup (`plnode/message/control/peer_initiate_get.h`)

The message with which a gateway asks a home agent to resolve a device name.
-/
import Pweb.Klink.Message

namespace Klink

/-- `MSG_PEER_INITIATE_GET`. -/
def msgPeerInitiateGet : UInt8 := 5

/-- `PeerInitiateGET`. -/
structure PeerInitiateGET extends ABSMessage where
  deviceName : Bytes
  deriving DecidableEq, Repr

namespace PeerInitiateGET

/-- `PeerInitiateGET::getSize`. -/
def getSize (m : PeerInitiateGET) : ℕ := m.getBaseSize + 4 + 1 * m.deviceName.length

/-- `PeerInitiateGET::serialize`. -/
def serialize (m : PeerInitiateGET) : Bytes := m.toABSMessage.serialize ++ putString m.deviceName

/-- `PeerInitiateGET::deserialize`: the device name is read from the base size on, wherever
the common part has ended. -/
def deserialize : ByteReader Empty PeerInitiateGET := do
  let base ← ABSMessage.deserialize
  ByteReader.seek base.getBaseSize
  let deviceName ← getString
  return { base with deviceName }

/-- The cursor the device name is read from is where the common part ends. -/
theorem deserialize_serialize {m : PeerInitiateGET} (hbase : m.toABSMessage.Fits)
    (hname : m.deviceName.length < 2 ^ 31) :
    deserialize m.serialize 0 = .ok (m, m.serialize.length) := by
  have hlen := ABSMessage.length_serialize hbase
  have hread := (ABSMessage.reads_deserialize hbase).run [] (putString m.deviceName)
  have hstring := (reads_getString hname).run m.toABSMessage.serialize []
  rw [List.append_nil] at hstring
  rw [List.nil_append, List.length_nil, Nat.zero_add] at hread
  rw [deserialize, serialize, ByteReader.bind_run_ok hread, ByteReader.bind_run_ok (a := ()) rfl,
    ← hlen, ByteReader.bind_run_ok hstring, List.length_append]
  rfl

end PeerInitiateGET

end Klink
