/-
# Composing DNS responses (`write_name`, `write_rr` and `compose_dns_response`)

The writers of `dnsgw/dnsspeaker.cpp`.  A name string is cut at its dots again
and the empty pieces are dropped, as `boost::char_separator` does by default.
-/
import Pweb.Dnsgw.DnsQueryParser
import Pweb.Foundation.Tokens

open ProtocolHelper

namespace DnsQueryParser

/-- `write_label_len`. -/
def writeLabelLen (len : ℕ) : ByteWriter Exn Unit := do
  checkEndOut
  if len > 63 then ByteWriter.fail (invalidLength "label" len)
  else ByteWriter.put [UInt8.ofNat len]

/-- `write_label`. -/
def writeLabel (label : Bytes) : ByteWriter Exn Unit := do
  writeLabelLen label.length
  checkEndLenOut label.length
  ByteWriter.put label

/-- `write_name`. -/
def writeName (name : Bytes) : ByteWriter Exn Unit :=
  if name.length > 255 then ByteWriter.fail (invalidLength "name" name.length)
  else do
    ByteWriter.forEach writeLabel (Tokens.tokenize dot name)
    checkEndOut
    ByteWriter.put [0]

/-- `write_rr(dnsquestion const&, ...)`. -/
def writeQuestion (question : DnsQuestion) : ByteWriter Exn Unit := do
  writeName question.name
  writeShort question.qtype
  writeShort question.qclass

/-- The end of `write_rr(dnsrr const&, ...)`: the data, after its length. -/
def writeRdata (rr : DnsRr) : ByteWriter Exn Unit :=
  if rr.rdlength.toNat > rr.rdata.length then
    ByteWriter.fail (.parseError "Error writing DNS RR: rdlength > rdata.size()")
  else do
    checkEndLenOut rr.rdlength.toNat
    ByteWriter.put (rr.rdata.take rr.rdlength.toNat)

/-- `write_rr(dnsrr const&, ...)`. -/
def writeRr (rr : DnsRr) : ByteWriter Exn Unit := do
  writeName rr.name
  writeShort rr.rtype
  writeShort rr.rclass
  writeUlong rr.ttl
  writeShort rr.rdlength
  writeRdata rr

/-- The first loop of `compose_dns_response`, which writes the question section. -/
def writeQuestions (query : DnsQuery) : ByteWriter Exn Unit :=
  ByteWriter.forEach writeQuestion query.questions

/-- The four loops of `compose_dns_response`. -/
def writeSections (query : DnsQuery) : ByteWriter Exn Unit := do
  writeQuestions query
  ByteWriter.forEach writeRr query.answers
  ByteWriter.forEach writeRr query.authorities
  ByteWriter.forEach writeRr query.additionals

end DnsQueryParser

open DnsQueryParser in
/-- `compose_dns_response` into a buffer of `size` bytes; returns the bytes written. -/
def composeDnsResponse (query : DnsQuery) (size : ℕ) : Except (Fault Exn) Bytes :=
  match writeSections query size [] with
  | .error e => .error e
  | .ok (_, out) => .ok out
