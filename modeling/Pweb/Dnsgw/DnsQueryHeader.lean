/-
# The DNS message header (`dns_query_header` in `dnsgw/dnsspeaker.hpp`)

Twelve bytes with accessors for the fields.  `composeDnsHeader_id`,
`composeDnsHeader_rd` and the four counts say that a composed header reads back
what the query holds.
-/
import Pweb.Dnsgw.DnsQuery
import Pweb.Foundation.ByteOrder

open ByteOrder

/-- `dns_query_header`. -/
structure DnsQueryHeader where
  buf : Vector UInt8 12
  deriving DecidableEq, Repr

namespace DnsQueryHeader

/-- `length()`: `HEADER_LENGTH`. -/
def length : ℕ := 12

/-- `clear()`. -/
def clear : DnsQueryHeader := ⟨Vector.replicate 12 0⟩

/-! ## Bits and shorts -/

/-- `get_bit`. -/
def getBit (h : DnsQueryHeader) (byte : ℕ) (mask : UInt8)
    (hbyte : byte < 12 := by decide) : Bool :=
  h.buf[byte] &&& mask ≠ 0

/-- `set_bit`. -/
def setBit (h : DnsQueryHeader) (byte : ℕ) (mask : UInt8) (val : Bool)
    (hbyte : byte < 12 := by decide) : DnsQueryHeader :=
  ⟨h.buf.set byte (if val then h.buf[byte] ||| mask else h.buf[byte] &&& ~~~mask)⟩

/-- `read_short`. -/
def readShort (h : DnsQueryHeader) (offset : ℕ) (hoff : offset + 1 < 12 := by decide) : UInt16 :=
  UInt16.ofNat (ofBE [h.buf[offset], h.buf[offset + 1]])

/-- `write_short`. -/
def writeShort (h : DnsQueryHeader) (offset : ℕ) (val : UInt16)
    (hoff : offset + 1 < 12 := by decide) : DnsQueryHeader :=
  ⟨(h.buf.set offset (UInt8.ofNat (val.toNat / 256))).set (offset + 1) (UInt8.ofNat val.toNat)⟩

/-! ## Fields -/

/-- `id()`. -/
def id (h : DnsQueryHeader) : UInt16 := h.readShort 0

/-- `qr()`. -/
def qr (h : DnsQueryHeader) : Bool := h.getBit 2 0x80

/-- `opcode()`. -/
def opcode (h : DnsQueryHeader) : Opcode :=
  match ((h.buf[2] &&& 0x78) >>> 3).toNat with
  | 0 => .query
  | 1 => .iquery
  | 2 => .status
  | _ => .reserved

/-- `rd()`. -/
def rd (h : DnsQueryHeader) : Bool := h.getBit 2 0x01

/-- `z()`. -/
def z (h : DnsQueryHeader) : ℕ := ((h.buf[3] &&& 0x40) >>> 6).toNat

/-- `rcode(code)`: the code is or-ed into the low bits. -/
def setRcode (h : DnsQueryHeader) (code : Rcode) : DnsQueryHeader :=
  ⟨h.buf.set 3 (h.buf[3] ||| code.code)⟩

/-- `qdcount()`. -/
def qdcount (h : DnsQueryHeader) : UInt16 := h.readShort 4

/-- `ancount()`. -/
def ancount (h : DnsQueryHeader) : UInt16 := h.readShort 6

/-- `nscount()`. -/
def nscount (h : DnsQueryHeader) : UInt16 := h.readShort 8

/-- `arcount()`. -/
def arcount (h : DnsQueryHeader) : UInt16 := h.readShort 10

end DnsQueryHeader

open DnsQueryHeader in
/-- `compose_dns_header`: every section count is cast to 16 bits. -/
def composeDnsHeader (query : DnsQuery) : DnsQueryHeader :=
  let header := clear
  let header := header.writeShort 0 query.id
  let header := header.setBit 2 0x80 true
  let header := header.setBit 2 0x04 true
  let header := header.setBit 2 0x01 query.rd
  let header := header.setRcode query.rcode
  let header := header.writeShort 4 (UInt16.ofNat query.questions.length)
  let header := header.writeShort 6 (UInt16.ofNat query.answers.length)
  let header := header.writeShort 8 (UInt16.ofNat query.authorities.length)
  header.writeShort 10 (UInt16.ofNat query.additionals.length)

/-! ## Reading a composed header -/

namespace DnsQueryHeader

/-- The two bytes of a short denote it. -/
theorem ofBE_bytes (v : UInt16) :
    UInt16.ofNat (ofBE [UInt8.ofNat (v.toNat / 256), UInt8.ofNat v.toNat]) = v := by
  have h := ofNat_ofBE_toBE_16 v
  rwa [show toBE 2 v.toNat = [UInt8.ofNat (v.toNat / 256), UInt8.ofNat v.toNat] from rfl] at h

/-- A short that was written reads back. -/
theorem readShort_writeShort (h : DnsQueryHeader) (offset : ℕ) (val : UInt16)
    (hoff : offset + 1 < 12) :
    (h.writeShort offset val hoff).readShort offset hoff = val := by
  rw [readShort, writeShort]
  simp only [Vector.getElem_set_self, Vector.getElem_set_ne _ _ (Nat.succ_ne_self offset)]
  exact ofBE_bytes val

/-- Writing a short leaves the others alone. -/
theorem readShort_writeShort_ne (h : DnsQueryHeader) {i j : ℕ} (val : UInt16)
    (hi : i + 1 < 12) (hj : j + 1 < 12) (hij : i + 1 < j ∨ j + 1 < i) :
    (h.writeShort j val hj).readShort i hi = h.readShort i hi := by
  rw [readShort, readShort, writeShort]
  simp only [Vector.getElem_set]
  rw [if_neg (by omega), if_neg (by omega), if_neg (by omega), if_neg (by omega)]

/-- A flag byte is not part of the other shorts. -/
theorem readShort_setBit (h : DnsQueryHeader) {i byte : ℕ} (mask : UInt8) (val : Bool)
    (hi : i + 1 < 12) (hbyte : byte < 12) (hij : i + 1 < byte ∨ byte < i) :
    (h.setBit byte mask val hbyte).readShort i hi = h.readShort i hi := by
  have h₀ : ¬ byte = i := by omega
  have h₁ : ¬ byte = i + 1 := by omega
  simp only [setBit, readShort, Vector.getElem_set]
  rw [if_neg h₀, if_neg h₁]

theorem readShort_setRcode (h : DnsQueryHeader) {i : ℕ} (code : Rcode)
    (hi : i + 1 < 12) (hij : i + 1 < 2 ∨ 3 < i) :
    (h.setRcode code).readShort i hi = h.readShort i hi := by
  simp only [setRcode, readShort, Vector.getElem_set]
  rw [if_neg (by omega), if_neg (by omega)]

/-- The flag bytes survive a short written elsewhere. -/
theorem getBit_writeShort (h : DnsQueryHeader) {j byte : ℕ} (mask : UInt8) (val : UInt16)
    (hbyte : byte < 12) (hj : j + 1 < 12) (hne : byte < j ∨ j + 1 < byte) :
    (h.writeShort j val hj).getBit byte mask hbyte = h.getBit byte mask hbyte := by
  simp only [getBit, writeShort, Vector.getElem_set]
  rw [if_neg (by omega), if_neg (by omega)]

theorem getBit_setRcode (h : DnsQueryHeader) {byte : ℕ} (mask : UInt8) (code : Rcode)
    (hbyte : byte < 12) (hne : byte ≠ 3) :
    (h.setRcode code).getBit byte mask hbyte = h.getBit byte mask hbyte := by
  simp only [getBit, setRcode, Vector.getElem_set]
  rw [if_neg (by omega)]

/-- The lowest bit of a byte reads back after it was set or cleared. -/
theorem getBit_setBit_one (h : DnsQueryHeader) {byte : ℕ} (val : Bool) (hbyte : byte < 12) :
    (h.setBit byte 0x01 val hbyte).getBit byte 0x01 hbyte = val := by
  have hset : ∀ b : UInt8, (b ||| 0x01) &&& 0x01 ≠ 0 := by decide +kernel
  have hclear : ∀ b : UInt8, b &&& ~~~(0x01 : UInt8) &&& 0x01 = 0 := by decide +kernel
  cases val
  · simp [setBit, getBit, hclear]
  · simp [setBit, getBit, hset]

end DnsQueryHeader

open DnsQueryHeader

theorem composeDnsHeader_id (query : DnsQuery) : (composeDnsHeader query).id = query.id := by
  simp only [composeDnsHeader, DnsQueryHeader.id]
  rw [readShort_writeShort_ne _ _ _ _ (by decide), readShort_writeShort_ne _ _ _ _ (by decide),
    readShort_writeShort_ne _ _ _ _ (by decide), readShort_writeShort_ne _ _ _ _ (by decide),
    readShort_setRcode _ _ _ (by decide), readShort_setBit _ _ _ _ _ (by decide),
    readShort_setBit _ _ _ _ _ (by decide), readShort_setBit _ _ _ _ _ (by decide),
    readShort_writeShort]

theorem composeDnsHeader_rd (query : DnsQuery) : (composeDnsHeader query).rd = query.rd := by
  simp only [composeDnsHeader, DnsQueryHeader.rd]
  rw [getBit_writeShort _ _ _ _ _ (by decide), getBit_writeShort _ _ _ _ _ (by decide),
    getBit_writeShort _ _ _ _ _ (by decide), getBit_writeShort _ _ _ _ _ (by decide),
    getBit_setRcode _ _ _ _ (by decide), getBit_setBit_one]

theorem composeDnsHeader_qdcount (query : DnsQuery) :
    (composeDnsHeader query).qdcount = UInt16.ofNat query.questions.length := by
  simp only [composeDnsHeader, qdcount]
  rw [readShort_writeShort_ne _ _ _ _ (by decide), readShort_writeShort_ne _ _ _ _ (by decide),
    readShort_writeShort_ne _ _ _ _ (by decide), readShort_writeShort]

theorem composeDnsHeader_ancount (query : DnsQuery) :
    (composeDnsHeader query).ancount = UInt16.ofNat query.answers.length := by
  simp only [composeDnsHeader, ancount]
  rw [readShort_writeShort_ne _ _ _ _ (by decide), readShort_writeShort_ne _ _ _ _ (by decide),
    readShort_writeShort]

theorem composeDnsHeader_nscount (query : DnsQuery) :
    (composeDnsHeader query).nscount = UInt16.ofNat query.authorities.length := by
  simp only [composeDnsHeader, nscount]
  rw [readShort_writeShort_ne _ _ _ _ (by decide), readShort_writeShort]

theorem composeDnsHeader_arcount (query : DnsQuery) :
    (composeDnsHeader query).arcount = UInt16.ofNat query.additionals.length := by
  simp only [composeDnsHeader, arcount]
  rw [readShort_writeShort]
