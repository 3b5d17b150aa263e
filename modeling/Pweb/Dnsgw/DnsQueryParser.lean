/-
# Parsing DNS messages (`dns_query_parser` in `dnsgw/dnsspeaker.cpp`)

The parser of a received message body.  The body is the byte string of a
`ByteReader`; names become strings in which every label is followed by a dot.
-/
import Pweb.Dnsgw.DnsQueryHeader
import Pweb.Shared.ProtocolHelper

open ProtocolHelper

/-- The separator of labels in a name string. -/
def dot : UInt8 := 0x2E

namespace DnsQueryParser

/-! ## Names -/

/-- `"Invalid label length: "` and `"Invalid name length: "`. -/
def invalidLength (what : String) (len : ℕ) : Exn :=
  .parseError ("Invalid " ++ what ++ " length: " ++ toString len)

/-- `parse_label_len`. -/
def parseLabelLen : ByteReader Exn ℕ := do
  checkEnd
  let len ← ByteReader.deref
  if len.toNat > 63 then ByteReader.fail (invalidLength "label" len.toNat)
  else return len.toNat

/-- `parse_label`: append `len` bytes and a dot to `name`. -/
def parseLabel : Bytes → ℕ → ByteReader Exn Bytes
  | name, 0 => return name ++ [dot]
  | name, len + 1 => do
    checkEnd
    let c ← ByteReader.deref
    parseLabel (name ++ [c]) len

/-- The `while ( label_len )` loop of `parse_name`; only label bytes count
towards `nameLen`. -/
def parseNameLoop (nameLen : ℕ) (sname : Bytes) (labelLen : ℕ) : ByteReader Exn Bytes :=
  if labelLen = 0 then pure sname
  else if nameLen + labelLen > 255 then
    ByteReader.fail (.parseError "Name exceeds 255 octets")
  else do
    let sname ← parseLabel sname labelLen
    let nextLen ← parseLabelLen
    parseNameLoop (nameLen + labelLen) sname nextLen
termination_by 256 - nameLen

/-- `parse_name`. -/
def parseName : ByteReader Exn Bytes := do
  let labelLen ← parseLabelLen
  parseNameLoop 0 [] labelLen

/-! ## Sections -/

/-- `parse_qtype`: every value is accepted. -/
def parseQtype : ByteReader Exn Qtype := parseShort

/-- `parse_qclass`: every value is accepted. -/
def parseQclass : ByteReader Exn Qclass := parseShort

/-- `MAX_RDATA`. -/
def maxRdata : ℕ := 1024

/-- `parse_rr`. -/
def parseRr : ByteReader Exn DnsRr := do
  let name ← parseName
  let rtype ← parseQtype
  let rclass ← parseQclass
  let ttl ← parseUlong
  let rdlength ← parseShort
  if rdlength.toNat > maxRdata then
    ByteReader.fail (.parseError "Error parsing DNS RR: rdlength > MAX_RDATA")
  else do
    checkEndLen rdlength.toNat
    let rdata ← ByteReader.memcpy rdlength.toNat
    return { name, rtype, rclass, ttl, rdlength, rdata }

/-- `parse_question`. -/
def parseQuestion (query : DnsQuery) : ByteReader Exn DnsQuery := do
  let name ← parseName
  let qtype ← parseQtype
  let qclass ← parseQclass
  return query.addQuestion { name, qtype, qclass }

/-- `parse_answer`. -/
def parseAnswer (query : DnsQuery) : ByteReader Exn DnsQuery := do
  let rr ← parseRr
  return query.addAnswer rr

/-- `parse_authority`. -/
def parseAuthority (query : DnsQuery) : ByteReader Exn DnsQuery := do
  let rr ← parseRr
  return query.addAuthority rr

/-- `parse_additional`: the record is logged and dropped. -/
def parseAdditional (query : DnsQuery) : ByteReader Exn DnsQuery := do
  let _ ← parseRr
  return query

/-- The four counted loops of `parse_dns_query`. -/
def parseSections (query : DnsQuery) (header : DnsQueryHeader) : ByteReader Exn DnsQuery := do
  let query ← ByteReader.forLoop parseQuestion header.qdcount.toNat query
  let query ← ByteReader.forLoop parseAnswer header.ancount.toNat query
  let query ← ByteReader.forLoop parseAuthority header.nscount.toNat query
  ByteReader.forLoop parseAdditional header.arcount.toNat query

end DnsQueryParser

open DnsQueryParser in
/-- `parse_dns_query` on a message body. -/
def parseDnsQuery (query : DnsQuery) (header : DnsQueryHeader) (body : Bytes) :
    Except (Fault Exn) DnsQuery :=
  match parseSections { query with id := header.id, rd := header.rd } header body 0 with
  | .error e => .error e
  | .ok (query, buf) =>
    if buf ≠ body.length then
      .error (.thrown (.parseError "Additional data at end of query message"))
    else .ok query
