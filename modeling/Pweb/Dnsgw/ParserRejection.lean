/-
# What the DNS parser rejects

The exceptions of the parser are parse errors, and together with the grammar of
what it accepts this settles every outcome: a body is the encoding of a message
that the header announces and is decoded, or it is not and a parse error is thrown.
-/
import Pweb.Dnsgw.ParserGrammar

open ProtocolHelper DnsQueryParser Wire

namespace ProtocolHelper

/-- The exceptions of type `parse_error`. -/
def IsParseError (e : Exn) : Prop := ∃ what, e = .parseError what

theorem isParseError (what : String) : IsParseError (.parseError what) := ⟨what, rfl⟩

theorem throws_checkEnd : ThrowsOnly checkEnd IsParseError :=
  ThrowsOnly.throwAtEnd (isParseError _)

theorem throws_checkEndLen (len : ℤ) : ThrowsOnly (checkEndLen len) IsParseError :=
  ThrowsOnly.throwIfShort len (isParseError _)

theorem throws_parseShort : ThrowsOnly parseShort IsParseError :=
  (throws_checkEndLen 2).bind fun _ => (ThrowsOnly.memcpy 2).bind fun _ => ThrowsOnly.pure _

theorem throws_parseUlong : ThrowsOnly parseUlong IsParseError :=
  (throws_checkEndLen 4).bind fun _ => (ThrowsOnly.memcpy 4).bind fun _ => ThrowsOnly.pure _

end ProtocolHelper

namespace DnsQueryParser

theorem throws_parseLabelLen : ThrowsOnly parseLabelLen IsParseError :=
  throws_checkEnd.bind fun _ => ThrowsOnly.deref.bind fun _ =>
    ThrowsOnly.ite (ThrowsOnly.fail (isParseError _)) (ThrowsOnly.pure _)

theorem throws_parseLabel (len : ℕ) : ∀ name, ThrowsOnly (parseLabel name len) IsParseError := by
  induction len with
  | zero => exact fun name => ThrowsOnly.pure _
  | succ len ih =>
      intro name
      exact throws_checkEnd.bind fun _ => ThrowsOnly.deref.bind fun c => ih (name ++ [c])

theorem throws_parseNameLoop (nameLen : ℕ) (sname : Bytes) (labelLen : ℕ) :
    ThrowsOnly (parseNameLoop nameLen sname labelLen) IsParseError := by
  induction nameLen, sname, labelLen using parseNameLoop.induct with
  | case1 nameLen sname =>
      rw [parseNameLoop, if_pos rfl]
      exact ThrowsOnly.pure sname
  | case2 nameLen sname labelLen hne hgt =>
      rw [parseNameLoop, if_neg hne, if_pos hgt]
      exact ThrowsOnly.fail (isParseError _)
  | case3 nameLen sname labelLen hne hle ih =>
      rw [parseNameLoop, if_neg hne, if_neg hle]
      exact (throws_parseLabel labelLen sname).bind fun sname' =>
        throws_parseLabelLen.bind fun nextLen => ih sname' nextLen

theorem throws_parseName : ThrowsOnly parseName IsParseError :=
  throws_parseLabelLen.bind fun labelLen => throws_parseNameLoop 0 [] labelLen

theorem throws_parseRr : ThrowsOnly parseRr IsParseError :=
  throws_parseName.bind fun _ => throws_parseShort.bind fun _ => throws_parseShort.bind fun _ =>
    throws_parseUlong.bind fun _ => throws_parseShort.bind fun _ =>
      ThrowsOnly.ite (ThrowsOnly.fail (isParseError _))
        ((throws_checkEndLen _).bind fun _ => (ThrowsOnly.memcpy _).bind fun _ =>
          ThrowsOnly.pure _)

theorem throws_parseQuestion (query : DnsQuery) : ThrowsOnly (parseQuestion query) IsParseError :=
  throws_parseName.bind fun _ => throws_parseShort.bind fun _ => throws_parseShort.bind fun _ =>
    ThrowsOnly.pure _

theorem throws_parseAnswer (query : DnsQuery) : ThrowsOnly (parseAnswer query) IsParseError :=
  throws_parseRr.bind fun _ => ThrowsOnly.pure _

theorem throws_parseAuthority (query : DnsQuery) :
    ThrowsOnly (parseAuthority query) IsParseError :=
  throws_parseRr.bind fun _ => ThrowsOnly.pure _

theorem throws_parseAdditional (query : DnsQuery) :
    ThrowsOnly (parseAdditional query) IsParseError :=
  throws_parseRr.bind fun _ => ThrowsOnly.pure _

theorem throws_parseSections (query : DnsQuery) (header : DnsQueryHeader) :
    ThrowsOnly (parseSections query header) IsParseError :=
  (ThrowsOnly.forLoop throws_parseQuestion _ _).bind fun _ =>
    (ThrowsOnly.forLoop throws_parseAnswer _ _).bind fun _ =>
      (ThrowsOnly.forLoop throws_parseAuthority _ _).bind fun _ =>
        ThrowsOnly.forLoop throws_parseAdditional _ _

end DnsQueryParser

/-- The parser throws nothing but parse errors. -/
theorem parseDnsQuery_thrown {query : DnsQuery} {header : DnsQueryHeader} {body : Bytes} {e : Exn}
    (h : parseDnsQuery query header body = .error (.thrown e)) : IsParseError e := by
  unfold parseDnsQuery at h
  split at h
  · next f heq =>
    cases h
    exact (throws_parseSections _ header).thrown heq
  · split at h
    · cases h
      exact isParseError _
    · cases h

/-- A body that is not the encoding of an announced message is rejected. -/
theorem parseDnsQuery_rejects {header : DnsQueryHeader} {body : Bytes}
    (hnone : ∀ m : Message, m.Announced header → body ≠ m.encode) (query : DnsQuery) :
    ∃ what, parseDnsQuery query header body = .error (.thrown (.parseError what)) := by
  cases hres : parseDnsQuery query header body with
  | ok query' =>
      obtain ⟨m, hm, hbody, -⟩ := (parseDnsQuery_eq_ok_iff query header body query').mp hres
      exact absurd hbody (hnone m hm)
  | error f =>
      cases f with
      | overrun => exact absurd hres (parseDnsQuery_ne_overrun query header body)
      | thrown e =>
          obtain ⟨what, rfl⟩ := parseDnsQuery_thrown hres
          exact ⟨what, rfl⟩

/-- **The parser accepts exactly its grammar and stays in bounds.**  On a new query it
never reads beyond the body; it returns exactly for the encodings of the announced
messages, then with the sections decoded in order and no additional record; and it
throws a parse error for every other body. -/
theorem parser_accepts_exactly_grammar (sender : Sender) (header : DnsQueryHeader)
    (body : Bytes) :
    parseDnsQuery { sender } header body ≠ .error .overrun ∧
    ((∃ query, parseDnsQuery { sender } header body = .ok query) ↔
      ∃ m : Message, m.Announced header ∧ body = m.encode) ∧
    (∀ m : Message, m.Announced header → body = m.encode →
      ∃ query, parseDnsQuery { sender } header body = .ok query ∧
        query.questions = m.questions.map Question.decode ∧
        query.answers = m.answers.map Rr.decode ∧
        query.authorities = m.authorities.map Rr.decode ∧
        query.additionals = []) ∧
    ((¬ ∃ m : Message, m.Announced header ∧ body = m.encode) →
      ∃ what, parseDnsQuery { sender } header body = .error (.thrown (.parseError what))) := by
  have haccept := parseDnsQuery_eq_ok_iff { sender } header body
  refine ⟨parseDnsQuery_ne_overrun _ header body, ⟨?_, ?_⟩, ?_, ?_⟩
  · rintro ⟨query, hquery⟩
    obtain ⟨m, hm, hbody, -⟩ := (haccept query).mp hquery
    exact ⟨m, hm, hbody⟩
  · rintro ⟨m, hm, hbody⟩
    exact ⟨_, (haccept _).mpr ⟨m, hm, hbody, rfl⟩⟩
  · intro m hm hbody
    exact ⟨_, (haccept _).mpr ⟨m, hm, hbody, rfl⟩, List.nil_append _, List.nil_append _,
      List.nil_append _, rfl⟩
  · intro hnone
    exact parseDnsQuery_rejects (fun m hm hbody => hnone ⟨m, hm, hbody⟩) _
