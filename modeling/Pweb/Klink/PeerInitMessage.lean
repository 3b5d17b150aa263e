/-
# The network initialisation message (`plnode/message/control/peer_init_message.h`)

`PeerInitMessage` tells a node its routing table, its name, the log server and the numbers
of a run.  `deserialize` copies each of the three names to a new block of memory and makes
a string of the characters up to the first null.  It writes a null behind the peer name,
but not behind the name and the user of the log server, where the block holds whatever the
allocator has left there.

`roundTrips_iff` : for which messages and which contents of these blocks the message round
trips.
-/
import Pweb.Foundation.Outcome
import Pweb.Foundation.Tokens
import Pweb.Klink.MessageRoundTrip

namespace Klink

/-- `MSG_PEER_INIT`. -/
def msgPeerInit : UInt8 := 4

/-- `PeerInitMessage`. -/
structure PeerInitMessage extends ABSMessage where
  routingTable : LookupTable OverlayId HostAddress
  nPeers : Int32
  k : Int32
  alpha : UInt64
  publishNameRangeStart : Int32
  publishNameRangeEnd : Int32
  lookupNameRangeStart : Int32
  lookupNameRangeEnd : Int32
  webserverPort : Int32
  runSequenceNo : Int32
  logServerName : Bytes
  logServerUser : Bytes
  peerName : Bytes

/-- What `new char[]` returns for `str_lg_name` and `str_lg_user` : the bytes by their place. -/
structure NewBlocks where
  strLgName : ℕ → UInt8
  strLgUser : ℕ → UInt8

/-- The length of a name as an `int`, and `memcpy` of as many characters. -/
def putName (name : Bytes) : Bytes :=
  let length := Int32.ofNat name.length
  putInt length ++ name.take (sizeT length.toInt)

/-- An entry of the routing table. -/
def putEntry (e : OverlayId × HostAddress) : Bytes :=
  putOid e.1 ++ (putString e.2.hostName ++ putInt e.2.hostPort)

/-- `string(block)` : the characters up to the first null, which has to be in the block. -/
def stringOf (block : Bytes) : Except (Fault Empty) Bytes :=
  if 0 ∈ block then .ok (block.takeWhile (· ≠ 0)) else .error .overrun

/-- A name is copied to a block that is one byte longer, whose last byte is `last length`, and
made a string. -/
def getName (last : ℕ → UInt8) : ByteReader Empty Bytes := do
  let length ← getInt
  let name ← ByteReader.memcpy (sizeT length.toInt)
  ByteReader.lift (stringOf (name ++ [last name.length]))

/-- An entry is added to the routing table. -/
def getEntry (table : LookupTable OverlayId HostAddress) :
    ByteReader Empty (LookupTable OverlayId HostAddress) := do
  let key ← getOid
  let hostname ← getString
  let hostport ← getInt
  return table.add key ⟨hostname, hostport⟩

namespace PeerInitMessage

/-- `PeerInitMessage::getSize`. -/
def getSize (m : PeerInitMessage) : ℕ :=
  m.getBaseSize + 4 * 5 + 8 + 4 * 4 + 4 * 3 +
    1 * (m.logServerName.length + m.logServerUser.length + m.peerName.length) +
    (m.routingTable.table.map fun e => 4 * 5 + 1 * e.2.hostName.length).sum

/-- `PeerInitMessage::serialize` behind the common part; the value of each key is looked up,
which is the one in its entry. -/
def serializeOwn (m : PeerInitMessage) : Bytes :=
  putInt m.nPeers ++ (putInt m.k ++ (putDouble m.alpha ++
    (putInt m.publishNameRangeStart ++ (putInt m.publishNameRangeEnd ++
      (putInt m.lookupNameRangeStart ++ (putInt m.lookupNameRangeEnd ++
        (putInt m.webserverPort ++ (putInt m.runSequenceNo ++ (putName m.peerName ++
          (putName m.logServerName ++ (putName m.logServerUser ++
            (putInt (Int32.ofNat m.routingTable.table.length) ++
              m.routingTable.table.flatMap putEntry))))))))))))

/-- `PeerInitMessage::serialize`. -/
def serialize (m : PeerInitMessage) : Bytes := m.toABSMessage.serialize ++ m.serializeOwn

/-- `PeerInitMessage::deserialize` behind the common part. -/
def deserializeOwn (blocks : NewBlocks) (base : ABSMessage) :
    ByteReader Empty PeerInitMessage := do
  let nPeers ← getInt
  let k ← getInt
  let alpha ← getDouble
  let publishNameRangeStart ← getInt
  let publishNameRangeEnd ← getInt
  let lookupNameRangeStart ← getInt
  let lookupNameRangeEnd ← getInt
  let webserverPort ← getInt
  let runSequenceNo ← getInt
  let peerName ← getName fun _ => 0
  let logServerName ← getName blocks.strLgName
  let logServerUser ← getName blocks.strLgUser
  let routingTableSize ← getInt
  let routingTable ← ByteReader.forLoop getEntry routingTableSize.toInt.toNat LookupTable.empty
  return { base with routingTable, nPeers, k, alpha, publishNameRangeStart, publishNameRangeEnd,
                     lookupNameRangeStart, lookupNameRangeEnd, webserverPort, runSequenceNo,
                     logServerName, logServerUser, peerName }

/-- `PeerInitMessage::deserialize`. -/
def deserialize (blocks : NewBlocks) : ByteReader Empty PeerInitMessage := do
  let base ← ABSMessage.deserialize
  ByteReader.seek base.getBaseSize
  deserializeOwn blocks base

def messageClass (blocks : NewBlocks) : MessageClass PeerInitMessage :=
  ⟨toABSMessage, fun m => m.routingTable.table.map Prod.fst, getSize, getSize, serialize,
    deserialize blocks⟩

end PeerInitMessage

/-! ## Names -/

theorem putName_of_lt {name : Bytes} (h : name.length < 2 ^ 31) :
    putName name = putInt (Int32.ofNat name.length) ++ name := by
  rw [putName, Int32.toInt_ofNat_of_lt h, sizeT_natCast (by omega), List.take_length]

theorem length_putName {name : Bytes} (h : name.length < 2 ^ 31) :
    (putName name).length = 4 + name.length := by
  rw [putName_of_lt h, List.length_append, length_putInt]

/-- A name comes back as the string in its block. -/
theorem gives_getName {name : Bytes} (h : name.length < 2 ^ 31) (last : ℕ → UInt8) :
    Gives (getName last) (putName name) (stringOf (name ++ [last name.length])) := by
  have hmemcpy : Reads (ByteReader.memcpy (sizeT (Int32.ofNat name.length).toInt) :
      ByteReader Empty Bytes) name name := by
    apply Reads.memcpy
    rw [Int32.toInt_ofNat_of_lt h, sizeT_natCast (by omega)]
  have hblock : Gives (do
      let block ← ByteReader.memcpy (sizeT (Int32.ofNat name.length).toInt)
      ByteReader.lift (stringOf (block ++ [last block.length]))) (name ++ [])
      (stringOf (name ++ [last name.length])) :=
    Gives.bind_reads hmemcpy (Gives.lift _)
  rw [List.append_nil] at hblock
  rw [putName_of_lt h]
  exact Gives.bind_reads (reads_getInt _) hblock

/-- **When a name comes back** : it has no null, and there is one behind it. -/
theorem stringOf_eq_ok_iff {name : Bytes} {last : UInt8} :
    stringOf (name ++ [last]) = .ok name ↔ 0 ∉ name ∧ last = 0 := by
  rw [stringOf]
  constructor
  · intro h
    split at h
    · next hmem =>
        have hself : (name ++ [last]).takeWhile (· ≠ 0) = name := Except.ok.inj h
        have hnot : 0 ∉ name := by
          intro hname
          rw [← hself] at hname
          simpa using List.mem_takeWhile_imp hname
        refine ⟨hnot, ?_⟩
        rcases List.mem_append.mp hmem with hname | hlast
        · exact absurd hname hnot
        · exact (List.mem_singleton.mp hlast).symm
    · cases h
  · rintro ⟨hnot, rfl⟩
    rw [if_pos (by simp), List.takeWhile_append_of_pos (Tokens.ne_of_free hnot)]
    simp

/-! ## The routing table -/

/-- What becomes of the keys of a routing table. -/
def rebuilt (table : LookupTable OverlayId HostAddress) : LookupTable OverlayId HostAddress :=
  table.table.foldl (fun t e => t.add e.1.narrowed e.2) LookupTable.empty

/-- The keys of a table to which entries have been added. -/
theorem key_of_mem_foldl_add {es : List (OverlayId × HostAddress)}
    {t : LookupTable OverlayId HostAddress} {e : OverlayId × HostAddress}
    (h : e ∈ (es.foldl (fun t e => t.add e.1.narrowed e.2) t).table) :
    e ∈ t.table ∨ ∃ e' ∈ es, e.1 = e'.1.narrowed := by
  induction es generalizing t with
  | nil => exact .inl h
  | cons f es ih =>
      rcases ih h with hadd | ⟨e', he', hkey⟩
      · rw [LookupTable.mem_table_add] at hadd
        rcases hadd with hold | ⟨-, rfl⟩
        · exact .inl hold
        · exact .inr ⟨f, List.mem_cons_self, rfl⟩
      · exact .inr ⟨e', List.mem_cons_of_mem f he', hkey⟩

theorem OverlayId.narrow_narrowed (oid : OverlayId) : oid.narrowed.Narrow := by
  show oid.overlayId.toInt32.toInt64.toInt32.toInt64 = oid.overlayId.toInt32.toInt64
  rw [Int32.toInt32_toInt64]

theorem OverlayId.Narrow.narrowed_eq {oid : OverlayId} (h : oid.Narrow) : oid.narrowed = oid := by
  show { oid with overlayId := oid.overlayId.toInt32.toInt64 } = oid
  rw [h]

/-- **When a routing table comes back** : all of its keys are within 32 bits. -/
theorem rebuilt_eq_iff {table : LookupTable OverlayId HostAddress} :
    rebuilt table = table ↔ ∀ e ∈ table.table, e.1.Narrow := by
  constructor
  · intro h e he
    rw [← h] at he
    rcases key_of_mem_foldl_add he with hempty | ⟨e', -, hkey⟩
    · cases hempty
    · rw [hkey]
      exact e'.1.narrow_narrowed
  · intro h
    have hsame : rebuilt table =
        table.table.foldl (fun t e => t.add e.1 e.2) LookupTable.empty := by
      apply List.foldl_ext
      intro t e he
      rw [(h e he).narrowed_eq]
    rw [hsame, LookupTable.foldl_add_table]

theorem reads_getEntry {e : OverlayId × HostAddress} (h : e.2.hostName.length < 2 ^ 31)
    (table : LookupTable OverlayId HostAddress) :
    Reads (getEntry table) (putEntry e) (table.add e.1.narrowed e.2) :=
  (reads_getOid_lower e.1).bind ((reads_getString h).bind ((reads_getInt e.2.hostPort).map
    fun hostport => table.add e.1.narrowed ⟨e.2.hostName, hostport⟩))

theorem length_putEntry {e : OverlayId × HostAddress} (h : e.2.hostName.length < 2 ^ 31) :
    (putEntry e).length = 4 * 5 + 1 * e.2.hostName.length := by
  simp only [putEntry, List.length_append, length_putOid, length_putString h, length_putInt]
  omega

namespace PeerInitMessage

variable {m m' : PeerInitMessage} {blocks : NewBlocks}

/-! ## Sizes -/

/-- The lengths in a message whose size is an `int`. -/
structure Sized (m : PeerInitMessage) : Prop where
  destHost : m.destHost.length < 2 ^ 31
  sourceHost : m.sourceHost.length < 2 ^ 31
  peerName : m.peerName.length < 2 ^ 31
  logServerName : m.logServerName.length < 2 ^ 31
  logServerUser : m.logServerUser.length < 2 ^ 31
  hostName : ∀ e ∈ m.routingTable.table, e.2.hostName.length < 2 ^ 31
  entries : m.routingTable.table.length < 2 ^ 31

theorem Sized.of_getSize (h : m.getSize < 2 ^ 31) : m.Sized := by
  rw [getSize, ABSMessage.getBaseSize] at h
  have hentry : ∀ e ∈ m.routingTable.table, 4 * 5 + 1 * e.2.hostName.length ≤
      (m.routingTable.table.map fun e => 4 * 5 + 1 * e.2.hostName.length).sum := by
    intro e he
    apply List.single_le_sum
    · intro n _
      exact Nat.zero_le n
    · exact List.mem_map_of_mem he
  have hentries : m.routingTable.table.length ≤
      (m.routingTable.table.map fun e => 4 * 5 + 1 * e.2.hostName.length).sum := by
    have hle := List.length_le_sum_of_one_le
      (m.routingTable.table.map fun e => 4 * 5 + 1 * e.2.hostName.length) (by
        intro n hn
        obtain ⟨e, -, rfl⟩ := List.mem_map.mp hn
        omega)
    rwa [List.length_map] at hle
  refine ⟨by omega, by omega, by omega, by omega, by omega, fun e he => ?_, by omega⟩
  have hle := hentry e he
  omega

theorem length_serializeOwn (h : m.Sized) :
    m.getBaseSize + m.serializeOwn.length = m.getSize := by
  have hentries : (m.routingTable.table.flatMap putEntry).length =
      (m.routingTable.table.map fun e => 4 * 5 + 1 * e.2.hostName.length).sum := by
    rw [List.length_flatMap]
    congr 1
    apply List.map_congr_left
    intro e he
    exact length_putEntry (h.hostName e he)
  simp only [serializeOwn, List.length_append, length_putInt, length_putDouble,
    length_putName h.peerName, length_putName h.logServerName, length_putName h.logServerUser,
    hentries, getSize]
  omega

/-- `serialize` writes as many bytes as `getSize` says. -/
theorem length_serialize (h : m.Sized) : m.serialize.length = m.getSize := by
  rw [serialize, List.length_append, ABSMessage.length_serialize_of_lt h.destHost h.sourceHost]
  exact length_serializeOwn h

/-! ## What is read back -/

/-- The common part as it is read back. -/
def baseRead (m : PeerInitMessage) : ABSMessage :=
  { m.toABSMessage with dstOid := m.dstOid.narrowed, srcOid := m.srcOid.narrowed }

/-- The outcome of `deserialize` on a message whose size is an `int`. -/
def outcome (blocks : NewBlocks) (m : PeerInitMessage) : Except (Fault Empty) PeerInitMessage := do
  let peerName ← stringOf (m.peerName ++ [0])
  let logServerName ← stringOf (m.logServerName ++ [blocks.strLgName m.logServerName.length])
  let logServerUser ← stringOf (m.logServerUser ++ [blocks.strLgUser m.logServerUser.length])
  return { m with toABSMessage := m.baseRead, routingTable := rebuilt m.routingTable,
                  peerName, logServerName, logServerUser }

theorem gives_deserializeOwn (h : m.Sized) (blocks : NewBlocks) :
    Gives (deserializeOwn blocks m.baseRead) m.serializeOwn (outcome blocks m) := by
  have hentries : Reads (ByteReader.forLoop getEntry
      (Int32.ofNat m.routingTable.table.length).toInt.toNat LookupTable.empty)
      (m.routingTable.table.flatMap putEntry) (rebuilt m.routingTable) := by
    rw [Int32.toInt_ofNat_of_lt h.entries]
    exact Reads.forLoop_of_mem (fun e he table => reads_getEntry (h.hostName e he) table) _
  rw [deserializeOwn, serializeOwn, outcome]
  refine .bind_reads (reads_getInt _) (.bind_reads (reads_getInt _)
    (.bind_reads (reads_getDouble _) (.bind_reads (reads_getInt _) (.bind_reads (reads_getInt _)
      (.bind_reads (reads_getInt _) (.bind_reads (reads_getInt _) (.bind_reads (reads_getInt _)
        (.bind_reads (reads_getInt _) ?_))))))))
  refine .bind (gives_getName h.peerName _) fun peerName => .bind (gives_getName h.logServerName _)
    fun logServerName => .bind (gives_getName h.logServerUser _) fun logServerUser => ?_
  exact .of_reads ((reads_getInt _).bind (hentries.map _))

/-- **What `deserialize` makes of a serialized message.** -/
theorem deserialize_serialize (h : m.Sized) (blocks : NewBlocks) :
    deserialize blocks m.serialize 0 = (outcome blocks m).map fun m' => (m', m.getSize) := by
  have hbase := (ABSMessage.reads_deserialize_of_oids h.destHost h.sourceHost
    (reads_getOid_lower m.dstOid) (reads_getOid_lower m.srcOid)).run [] m.serializeOwn
  have hown := (gives_deserializeOwn h blocks).run m.toABSMessage.serialize []
  rw [List.append_nil, ABSMessage.length_serialize_of_lt h.destHost h.sourceHost,
    length_serializeOwn h] at hown
  rw [List.nil_append, List.length_nil] at hbase
  rw [deserialize, serialize, ByteReader.bind_run_ok hbase, ByteReader.bind_run_ok (a := ()) rfl]
  exact hown

/-! ## When the message round trips -/

/-- The messages, and the contents of new blocks, for which everything comes back behind the
common part: the size is an `int`, the keys of the routing table are within 32 bits, no name
has a null, and one stands where the log server's names end. -/
structure Recoverable (blocks : NewBlocks) (m : PeerInitMessage) : Prop where
  size_lt : m.getSize < 2 ^ 31
  keys : ∀ e ∈ m.routingTable.table, e.1.Narrow
  peerName : 0 ∉ m.peerName
  logServerName : 0 ∉ m.logServerName ∧ blocks.strLgName m.logServerName.length = 0
  logServerUser : 0 ∉ m.logServerUser ∧ blocks.strLgUser m.logServerUser.length = 0

/-- `serialize` writes `getSize` bytes and announces as many, and `deserialize` recovers all
fields from them, where the identifiers of the common part may be others. -/
structure RecoversFields (blocks : NewBlocks) (m : PeerInitMessage) : Prop where
  written : m.serialize.length = m.getSize
  announced : (Int32.ofNat m.getSize).toInt = m.getSize
  recovered : ∃ dstOid srcOid,
    deserialize blocks m.serialize 0 = .ok ({ m with dstOid, srcOid }, m.getSize)

/-- A size that is announced as it is is an `int`. -/
theorem getSize_lt_of_announced (h : (Int32.ofNat m.getSize).toInt = m.getSize) :
    m.getSize < 2 ^ 31 := by
  have hlt := (Int32.ofNat m.getSize).toInt_lt
  rw [h] at hlt
  exact_mod_cast hlt

/-- Everything but the identifiers of the common part comes back under the condition only. -/
theorem outcome_fields_iff (hsize : m.getSize < 2 ^ 31) :
    (∃ dstOid srcOid, outcome blocks m = .ok { m with dstOid, srcOid }) ↔
      Recoverable blocks m := by
  constructor
  · rintro ⟨dstOid, srcOid, h⟩
    rw [outcome] at h
    obtain ⟨peerName, hpeer, h⟩ := Except.bind_eq_ok_iff.mp h
    obtain ⟨logServerName, hname, h⟩ := Except.bind_eq_ok_iff.mp h
    obtain ⟨logServerUser, huser, h⟩ := Except.bind_eq_ok_iff.mp h
    have hm := Except.ok.inj h
    have htable : rebuilt m.routingTable = m.routingTable := congrArg routingTable hm
    obtain rfl : peerName = m.peerName := congrArg PeerInitMessage.peerName hm
    obtain rfl : logServerName = m.logServerName := congrArg PeerInitMessage.logServerName hm
    obtain rfl : logServerUser = m.logServerUser := congrArg PeerInitMessage.logServerUser hm
    exact ⟨hsize, rebuilt_eq_iff.mp htable, (stringOf_eq_ok_iff.mp hpeer).1,
      stringOf_eq_ok_iff.mp hname, stringOf_eq_ok_iff.mp huser⟩
  · intro h
    refine ⟨m.dstOid.narrowed, m.srcOid.narrowed, ?_⟩
    rw [outcome, stringOf_eq_ok_iff.mpr ⟨h.peerName, rfl⟩, stringOf_eq_ok_iff.mpr h.logServerName,
      stringOf_eq_ok_iff.mpr h.logServerUser, rebuilt_eq_iff.mpr h.keys]
    rfl

/-- The identifiers of the common part come back within 32 bits. -/
theorem outcome_oids (h : outcome blocks m = .ok m') :
    m'.dstOid = m.dstOid.narrowed ∧ m'.srcOid = m.srcOid.narrowed := by
  rw [outcome] at h
  obtain ⟨peerName, -, h⟩ := Except.bind_eq_ok_iff.mp h
  obtain ⟨logServerName, -, h⟩ := Except.bind_eq_ok_iff.mp h
  obtain ⟨logServerUser, -, h⟩ := Except.bind_eq_ok_iff.mp h
  cases h
  exact ⟨rfl, rfl⟩

theorem outcome_self_iff (hsize : m.getSize < 2 ^ 31) :
    outcome blocks m = .ok m ↔ Recoverable blocks m ∧ m.dstOid.Narrow ∧ m.srcOid.Narrow := by
  constructor
  · intro h
    obtain ⟨hdst, hsrc⟩ := outcome_oids h
    refine ⟨(outcome_fields_iff hsize).mp ⟨m.dstOid, m.srcOid, h⟩, ?_, ?_⟩
    · rw [hdst]
      exact m.dstOid.narrow_narrowed
    · rw [hsrc]
      exact m.srcOid.narrow_narrowed
  · rintro ⟨hrecoverable, hdst, hsrc⟩
    obtain ⟨dstOid, srcOid, h⟩ := (outcome_fields_iff hsize).mpr hrecoverable
    obtain ⟨rfl, rfl⟩ := outcome_oids h
    rwa [hdst.narrowed_eq, hsrc.narrowed_eq] at h

theorem deserialize_eq_ok_iff (hsize : m.getSize < 2 ^ 31) :
    deserialize blocks m.serialize 0 = .ok (m', m.getSize) ↔ outcome blocks m = .ok m' := by
  rw [deserialize_serialize (.of_getSize hsize)]
  cases outcome blocks m with
  | error e => exact ⟨nofun, nofun⟩
  | ok a =>
      constructor
      · intro h
        cases h
        rfl
      · intro h
        cases h
        rfl

theorem recoversFields_iff : RecoversFields blocks m ↔ Recoverable blocks m := by
  constructor
  · intro h
    have hsize := getSize_lt_of_announced h.announced
    obtain ⟨dstOid, srcOid, hrecovered⟩ := h.recovered
    exact (outcome_fields_iff hsize).mp
      ⟨dstOid, srcOid, (deserialize_eq_ok_iff hsize).mp hrecovered⟩
  · intro h
    obtain ⟨dstOid, srcOid, houtcome⟩ := (outcome_fields_iff h.size_lt).mpr h
    exact ⟨length_serialize (.of_getSize h.size_lt), Int32.toInt_ofNat_of_lt h.size_lt,
      dstOid, srcOid, (deserialize_eq_ok_iff h.size_lt).mpr houtcome⟩

/-- **The round trip of the initialisation message.**  For all messages and whatever new blocks
contain: all fields behind the common part come back exactly if the message is recoverable, and
the whole message does if also the identifiers of the common part are within 32 bits. -/
theorem roundTrips_iff (blocks : NewBlocks) (m : PeerInitMessage) :
    (RecoversFields blocks m ↔ Recoverable blocks m) ∧
      ((messageClass blocks).RoundTrips m ↔
        Recoverable blocks m ∧ m.dstOid.Narrow ∧ m.srcOid.Narrow) := by
  refine ⟨recoversFields_iff, ?_⟩
  constructor
  · intro h
    have hsize := getSize_lt_of_announced h.announced
    exact (outcome_self_iff hsize).mp ((deserialize_eq_ok_iff hsize).mp h.recovered)
  · intro h
    have hsize := h.1.size_lt
    exact ⟨length_serialize (.of_getSize hsize), Int32.toInt_ofNat_of_lt hsize,
      (deserialize_eq_ok_iff hsize).mpr ((outcome_self_iff hsize).mpr h)⟩

/-- Without a null behind it in its block, the log server's name does not come back. -/
theorem unterminated_name_not_recovered :
    ¬ ∀ blocks m, RecoversFields blocks m := by
  intro hall
  have h := recoversFields_iff.mp (hall ⟨fun _ => 98, fun _ => 0⟩
    { toABSMessage := .init msgPeerInit 0 [97] 1 ⟨1, 4, 4⟩ ⟨2, 4, 4⟩
      routingTable := LookupTable.empty
      nPeers := 1, k := 1, alpha := 0
      publishNameRangeStart := 0, publishNameRangeEnd := 0
      lookupNameRangeStart := 0, lookupNameRangeEnd := 0
      webserverPort := 80, runSequenceNo := 1
      logServerName := [97], logServerUser := [], peerName := [] })
  have hlast := h.logServerName.2
  revert hlast
  decide

end PeerInitMessage

end Klink
