/-
# Queries of the DNS gateway (`dnsgw/dnsquery.hpp`)

The sections of a DNS message, the query object that collects them, the metric
it carries, and the part of `complete_query` that changes the query; sending
the reply is the caller's business.
-/
import Pweb.Shared.Buffers

/-! ## Enumerations -/

/-- `opcode_t`. -/
inductive Opcode where
  | query
  | iquery
  | status
  | reserved
  deriving DecidableEq, Repr

/-- `rcode_t`. -/
inductive Rcode where
  | success
  | formatError
  | serverFailure
  | nameError
  | notImplemented
  | refused
  | reserved
  deriving DecidableEq, Repr

/-- The value of an `rcode_t`, as it is written into the header. -/
def Rcode.code : Rcode → UInt8
  | .success => 0
  | .formatError => 1
  | .serverFailure => 2
  | .nameError => 3
  | .notImplemented => 4
  | .refused => 5
  | .reserved => 6

/-- `qtype_t`: any 16-bit value is cast to it. -/
abbrev Qtype := UInt16

/-- `qclass_t`: any 16-bit value is cast to it. -/
abbrev Qclass := UInt16

/-- `T_A`. -/
def tA : Qtype := 1

/-- `T_AAAA`. -/
def tAaaa : Qtype := 28

/-- `C_IN`. -/
def cIn : Qclass := 1

/-- `instrumentation::result_t`. -/
inductive MetricResult where
  | success
  | haConnectionError
  | haReturnedError
  | timeout
  | invalidRequest
  | unknown
  deriving DecidableEq, Repr

/-! ## Sections and queries -/

/-- `dnsquestion`. -/
structure DnsQuestion where
  name : Bytes
  qtype : Qtype
  qclass : Qclass
  deriving DecidableEq, Repr

/-- `dnsrr`. -/
structure DnsRr where
  name : Bytes
  rtype : Qtype
  rclass : Qclass
  ttl : UInt32
  rdlength : UInt16
  rdata : Bytes
  deriving DecidableEq, Repr

/-- `boost::asio::ip::address`. -/
inductive IpAddress where
  | v4 (bytes : Vector UInt8 4)
  | v6 (bytes : Vector UInt8 16)
  deriving DecidableEq, Repr

/-- `boost::asio::ip::udp::endpoint`. -/
structure Endpoint where
  address : IpAddress
  port : UInt16
  deriving DecidableEq, Repr

/-- `boost::variant< udp_connection_t, dns_connection_ptr >`: the gateway has one
UDP speaker, so its pointer is left out; a TCP connection is known by its number. -/
inductive Sender where
  | udp (endpoint : Endpoint)
  | tcp (connection : ℕ)
  deriving DecidableEq, Repr

/-- The fields of `instrumentation::metric` that the query handling sets. -/
structure Metric where
  deviceName : Bytes := []
  result : MetricResult := .unknown
  deriving DecidableEq, Repr

/-- `dnsquery`, without the deadline timer. -/
structure DnsQuery where
  sender : Sender
  metric : Metric := {}
  questions : List DnsQuestion := []
  answers : List DnsRr := []
  authorities : List DnsRr := []
  additionals : List DnsRr := []
  rcode : Rcode := .success
  id : UInt16 := 0
  rd : Bool := false
  deriving DecidableEq, Repr

namespace DnsQuery

/-- `add_question`. -/
def addQuestion (query : DnsQuery) (question : DnsQuestion) : DnsQuery :=
  { query with questions := query.questions ++ [question] }

/-- `add_answer`. -/
def addAnswer (query : DnsQuery) (answer : DnsRr) : DnsQuery :=
  { query with answers := query.answers ++ [answer] }

/-- `add_authority`. -/
def addAuthority (query : DnsQuery) (authority : DnsRr) : DnsQuery :=
  { query with authorities := query.authorities ++ [authority] }

/-- `remote_udp_endpoint`: a default endpoint for a query received over TCP. -/
def remoteUdpEndpoint (query : DnsQuery) : Endpoint :=
  match query.sender with
  | .udp endpoint => endpoint
  | .tcp _ => ⟨.v4 #v[0, 0, 0, 0], 0⟩

/-- What `complete_query` does to the query before it hands it to its sender. -/
def complete (query : DnsQuery) (rcode : Rcode) (result : MetricResult) : DnsQuery :=
  { query with rcode := rcode, metric := { query.metric with result := result } }

@[simp] theorem complete_id (query : DnsQuery) (rcode : Rcode) (result : MetricResult) :
    (query.complete rcode result).id = query.id := rfl

/-! ## What the client asked -/

/-- The part of a query that no handler changes once it has been sent to a home agent. -/
structure SameRequest (query' query : DnsQuery) : Prop where
  id : query'.id = query.id
  sender : query'.sender = query.sender
  questions : query'.questions = query.questions
  deviceName : query'.metric.deviceName = query.metric.deviceName

theorem SameRequest.refl (query : DnsQuery) : query.SameRequest query := ⟨rfl, rfl, rfl, rfl⟩

theorem SameRequest.complete {query' query : DnsQuery} (h : query'.SameRequest query)
    (rcode : Rcode) (result : MetricResult) : (query'.complete rcode result).SameRequest query :=
  ⟨h.id, h.sender, h.questions, h.deviceName⟩

theorem SameRequest.addAnswer {query' query : DnsQuery} (h : query'.SameRequest query)
    (answer : DnsRr) : (query'.addAnswer answer).SameRequest query :=
  ⟨h.id, h.sender, h.questions, h.deviceName⟩

end DnsQuery
