/-
# The parser recognises the wire format

Every parser of `DnsQueryParser` recognises its part of the wire format, so
`parseDnsQuery` accepts exactly the encodings of the messages that the header
announces (`parseDnsQuery_eq_ok_iff`), keeps `Wire.Message.decode` of them, and
never reads a byte beyond the end (`parseDnsQuery_ne_overrun`).
-/
import Pweb.Dnsgw.WireFormat

open ProtocolHelper DnsQueryParser ByteOrder Tokens Wire

/-! ## Names -/

theorem recognizes_parseLabelLen :
    Recognizes parseLabelLen (fun len bs => len ≤ 63 ∧ bs = [UInt8.ofNat len]) := by
  refine (Recognizes.throwAtEnd_deref_bind fun b =>
    Recognizes.throwIf fun _ => Recognizes.pure b.toNat).congr fun len bs => ⟨?_, ?_⟩
  · rintro ⟨b, ys, rfl, hle, rfl, rfl⟩
    exact ⟨by omega, by rw [UInt8.ofNat_toNat]⟩
  · rintro ⟨hle, rfl⟩
    have hlen : (UInt8.ofNat len).toNat = len := by
      rw [UInt8.toNat_ofNat']
      omega
    exact ⟨UInt8.ofNat len, [], rfl, by omega, hlen.symm, rfl⟩

theorem recognizes_parseLabel (len : ℕ) : ∀ name,
    Recognizes (parseLabel name len) (fun s bs => bs.length = len ∧ s = name ++ bs ++ [dot]) := by
  induction len with
  | zero =>
      intro name
      refine (Recognizes.pure (name ++ [dot])).congr fun s bs => ⟨?_, ?_⟩
      · rintro ⟨rfl, rfl⟩
        exact ⟨rfl, by rw [List.append_nil]⟩
      · rintro ⟨hlen, rfl⟩
        rw [List.length_eq_zero_iff.mp hlen]
        exact ⟨by rw [List.append_nil], rfl⟩
  | succ len ih =>
      intro name
      refine (Recognizes.throwAtEnd_deref_bind fun b => ih (name ++ [b])).congr
        fun s bs => ⟨?_, ?_⟩
      · rintro ⟨b, ys, rfl, hlen, rfl⟩
        exact ⟨by rw [List.length_cons, hlen], by simp⟩
      · rintro ⟨hlen, rfl⟩
        cases bs with
        | nil => cases hlen
        | cons b bs => exact ⟨b, bs, rfl, by simpa using hlen, by simp⟩

/-- The bytes after a length byte are a label list exactly when the length is zero
and nothing follows, or the label of that length and a label list follow. -/
theorem ofNat_cons_eq_encodeLabels {labelLen : ℕ} (hlabel : labelLen ≤ 63) (bs : Bytes)
    (ls : List Bytes) (hls : ValidLabels ls) :
    UInt8.ofNat labelLen :: bs = encodeLabels ls ↔
      (labelLen = 0 ∧ ls = [] ∧ bs = []) ∨
      (labelLen ≠ 0 ∧ ∃ l ls', ls = l :: ls' ∧ l.length = labelLen ∧
        bs = l ++ encodeLabels ls') := by
  -- a length of at most 63 is not cut by the cast to a byte
  have hbyte : (UInt8.ofNat labelLen).toNat = labelLen := by
    rw [UInt8.toNat_ofNat']
    omega
  constructor
  · intro h
    cases ls with
    | nil =>
        obtain ⟨h0, hbs⟩ := List.cons.inj h
        rw [h0] at hbyte
        exact Or.inl ⟨hbyte.symm, rfl, hbs⟩
    | cons l ls =>
        rw [encodeLabels_cons] at h
        obtain ⟨h0, hbs⟩ := List.cons.inj h
        have hl := hls l List.mem_cons_self
        have hlen : l.length = labelLen := by rw [← hbyte, h0, toNat_ofNat_length hl.2]
        have hpos : l.length ≠ 0 := fun hz => hl.1 (List.length_eq_zero_iff.mp hz)
        exact Or.inr ⟨by omega, l, ls, rfl, hlen, hbs⟩
  · rintro (⟨rfl, rfl, rfl⟩ | ⟨_, l, ls', rfl, rfl, rfl⟩)
    · rfl
    · rw [encodeLabels_cons]

/-- **The label loop.**  With the length byte of the next label already read, the
loop reads the rest of a label list whose bytes still fit the limit of 255. -/
theorem recognizes_parseNameLoop (nameLen : ℕ) (sname : Bytes) (labelLen : ℕ)
    (hname : nameLen ≤ 255) (hlabel : labelLen ≤ 63) :
    Recognizes (parseNameLoop nameLen sname labelLen) (fun s bs => ∃ ls, ValidLabels ls ∧
      nameLen + (ls.map List.length).sum ≤ 255 ∧ s = sname ++ terminate dot ls ∧
      UInt8.ofNat labelLen :: bs = encodeLabels ls) := by
  induction nameLen, sname, labelLen using parseNameLoop.induct with
  | case1 nameLen sname =>
      rw [parseNameLoop, if_pos rfl]
      refine (Recognizes.pure sname).congr fun s bs => ⟨?_, ?_⟩
      · rintro ⟨rfl, rfl⟩
        exact ⟨[], List.forall_mem_nil _, hname, by simp, rfl⟩
      · rintro ⟨ls, hls, -, rfl, henc⟩
        rcases (ofNat_cons_eq_encodeLabels hlabel bs ls hls).mp henc with h | h
        · obtain ⟨-, rfl, rfl⟩ := h
          exact ⟨by simp, rfl⟩
        · exact absurd rfl h.1
  | case2 nameLen sname labelLen hne hgt =>
      rw [parseNameLoop, if_neg hne, if_pos hgt]
      refine (Recognizes.fail _).congr fun s bs => ⟨False.elim, ?_⟩
      rintro ⟨ls, hls, hsum, -, henc⟩
      rcases (ofNat_cons_eq_encodeLabels hlabel bs ls hls).mp henc with h | h
      · exact hne h.1
      · obtain ⟨-, l, ls', rfl, hlen, -⟩ := h
        rw [List.map_cons, List.sum_cons] at hsum
        omega
  | case3 nameLen sname labelLen hne hle ih =>
      rw [parseNameLoop, if_neg hne, if_neg hle]
      refine ((recognizes_parseLabel labelLen sname).bind fun sname' _ _ =>
        recognizes_parseLabelLen.bind fun nextLen _ hnext =>
          ih sname' nextLen (by omega) hnext.1).congr fun s bs => ⟨?_, ?_⟩
      · rintro ⟨_, l, _, rfl, ⟨hlen, rfl⟩, nextLen, _, bs, rfl, ⟨hnext, rfl⟩,
          ls, hls, hsum, rfl, henc⟩
        have hl : l ≠ [] ∧ l.length ≤ 63 := by
          refine ⟨fun hnil => hne ?_, by omega⟩
          rw [← hlen, hnil, List.length_nil]
        refine ⟨l :: ls, List.forall_mem_cons.mpr ⟨hl, hls⟩, ?_, by simp, ?_⟩
        · rw [List.map_cons, List.sum_cons]
          omega
        · rw [encodeLabels_cons, ← henc, hlen]
          rfl
      · rintro ⟨ls, hls, hsum, rfl, henc⟩
        rcases (ofNat_cons_eq_encodeLabels hlabel bs ls hls).mp henc with h | h
        · exact absurd h.1 hne
        · obtain ⟨-, l, ls', rfl, hlen, rfl⟩ := h
          obtain ⟨-, hls'⟩ := List.forall_mem_cons.mp hls
          rw [List.map_cons, List.sum_cons] at hsum
          -- the first byte of what follows is the length byte the loop reads next
          obtain ⟨nextLen, bs', hnext, henc'⟩ := encodeLabels_eq_cons hls'
          refine ⟨_, l, encodeLabels ls', rfl, ⟨hlen, rfl⟩, nextLen, [UInt8.ofNat nextLen], bs',
            by rw [henc', List.singleton_append], ⟨hnext, rfl⟩, ls', hls', by omega, by simp,
            henc'.symm⟩

theorem recognizes_parseName :
    Recognizes parseName (fun s bs => ∃ n : Name, s = n.toString ∧ bs = n.encode) := by
  refine (recognizes_parseLabelLen.bind fun labelLen _ hlen =>
    recognizes_parseNameLoop 0 [] labelLen (by omega) hlen.1).congr fun s bs => ⟨?_, ?_⟩
  · rintro ⟨labelLen, _, bs, rfl, ⟨-, rfl⟩, ls, hls, hsum, rfl, henc⟩
    exact ⟨⟨ls, hls, by omega⟩, rfl, henc⟩
  · rintro ⟨n, rfl, rfl⟩
    obtain ⟨labelLen, bs, hlen, henc⟩ := encodeLabels_eq_cons n.valid
    have hsum := n.sum_le
    exact ⟨labelLen, [UInt8.ofNat labelLen], bs, henc, ⟨hlen, rfl⟩, n.labels, n.valid,
      by omega, rfl, henc.symm⟩

/-! ## Questions and records -/

theorem recognizes_parseQuestion (query : DnsQuery) :
    Recognizes (parseQuestion query)
      (fun query' bs => ∃ w : Question, bs = w.encode ∧ query' = query.addQuestion w.decode) := by
  refine (recognizes_parseName.bind fun name _ _ =>
    recognizes_parseShort.bind fun qtype _ _ =>
      recognizes_parseShort.bind fun qclass _ _ =>
        Recognizes.pure (query.addQuestion ⟨name, qtype, qclass⟩)).congr fun query' bs => ⟨?_, ?_⟩
  · rintro ⟨_, _, _, rfl, ⟨n, rfl, rfl⟩, qtype, _, _, rfl, rfl, qclass, _, _, rfl, rfl, rfl, rfl⟩
    exact ⟨⟨n, qtype, qclass⟩, by simp [Question.encode], rfl⟩
  · rintro ⟨w, rfl, rfl⟩
    exact ⟨_, _, _, rfl, ⟨w.name, rfl, rfl⟩, w.qtype, _, _, rfl, rfl, w.qclass, _, [],
      (List.append_nil _).symm, rfl, rfl, rfl⟩

theorem recognizes_parseRr :
    Recognizes parseRr (fun rr bs => ∃ w : Rr, bs = w.encode ∧ rr = w.decode) := by
  refine (recognizes_parseName.bind fun name _ _ =>
    recognizes_parseShort.bind fun rtype _ _ =>
      recognizes_parseShort.bind fun rclass _ _ =>
        recognizes_parseUlong.bind fun ttl _ _ =>
          recognizes_parseShort.bind fun rdlength _ _ =>
            Recognizes.throwIf fun _ =>
              Recognizes.throwIfShort_memcpy_bind fun rdata =>
                Recognizes.pure (⟨name, rtype, rclass, ttl, rdlength, rdata⟩ : DnsRr)).congr
    fun rr bs => ⟨?_, ?_⟩
  · rintro ⟨_, _, _, rfl, ⟨n, rfl, rfl⟩, rtype, _, _, rfl, rfl, rclass, _, _, rfl, rfl,
      ttl, _, _, rfl, rfl, rdlength, _, _, rfl, rfl, hle, rdata, _, rfl, hlen, rfl, rfl⟩
    -- the length field is the length of the data that was copied
    have hrd : UInt16.ofNat rdata.length = rdlength := by rw [hlen, UInt16.ofNat_toNat]
    refine ⟨⟨n, rtype, rclass, ttl, rdata, by omega⟩, ?_, ?_⟩
    · simp [Rr.encode, Rr.rdlength, hrd]
    · simp [Rr.decode, Rr.rdlength, hrd]
  · rintro ⟨w, rfl, rfl⟩
    have hrd := w.toNat_rdlength
    have hle := w.rdata_le
    exact ⟨_, _, _, rfl, ⟨w.name, rfl, rfl⟩, w.rtype, _, _, rfl, rfl, w.rclass, _, _, rfl, rfl,
      w.ttl, _, _, rfl, rfl, w.rdlength, _, _, rfl, rfl, by omega, w.rdata, [],
      (List.append_nil _).symm, hrd.symm, rfl, rfl⟩

theorem recognizes_parseAnswer (query : DnsQuery) :
    Recognizes (parseAnswer query)
      (fun query' bs => ∃ w : Rr, bs = w.encode ∧ query' = query.addAnswer w.decode) := by
  refine (recognizes_parseRr.bind fun rr _ _ => Recognizes.pure (query.addAnswer rr)).congr
    fun query' bs => ⟨?_, ?_⟩
  · rintro ⟨_, _, _, rfl, ⟨w, rfl, rfl⟩, rfl, rfl⟩
    exact ⟨w, by simp, rfl⟩
  · rintro ⟨w, rfl, rfl⟩
    exact ⟨_, _, [], (List.append_nil _).symm, ⟨w, rfl, rfl⟩, rfl, rfl⟩

theorem recognizes_parseAuthority (query : DnsQuery) :
    Recognizes (parseAuthority query)
      (fun query' bs => ∃ w : Rr, bs = w.encode ∧ query' = query.addAuthority w.decode) := by
  refine (recognizes_parseRr.bind fun rr _ _ => Recognizes.pure (query.addAuthority rr)).congr
    fun query' bs => ⟨?_, ?_⟩
  · rintro ⟨_, _, _, rfl, ⟨w, rfl, rfl⟩, rfl, rfl⟩
    exact ⟨w, by simp, rfl⟩
  · rintro ⟨w, rfl, rfl⟩
    exact ⟨_, _, [], (List.append_nil _).symm, ⟨w, rfl, rfl⟩, rfl, rfl⟩

theorem recognizes_parseAdditional (query : DnsQuery) :
    Recognizes (parseAdditional query)
      (fun query' bs => ∃ w : Rr, bs = w.encode ∧ query' = query) := by
  refine (recognizes_parseRr.bind fun _ _ _ => Recognizes.pure query).congr
    fun query' bs => ⟨?_, ?_⟩
  · rintro ⟨_, _, _, rfl, ⟨w, rfl, rfl⟩, rfl, rfl⟩
    exact ⟨w, by simp, rfl⟩
  · rintro ⟨w, rfl, rfl⟩
    exact ⟨w.decode, _, [], (List.append_nil _).symm, ⟨w, rfl, rfl⟩, rfl, rfl⟩

/-! ## Messages -/

theorem foldl_addQuestion (ws : List Question) : ∀ query : DnsQuery,
    ws.foldl (fun query w => query.addQuestion w.decode) query
      = { query with questions := query.questions ++ ws.map Question.decode } := by
  induction ws with
  | nil => intro query; simp
  | cons w ws ih => intro query; rw [List.foldl_cons, ih]; simp [DnsQuery.addQuestion]

theorem foldl_addAnswer (ws : List Rr) : ∀ query : DnsQuery,
    ws.foldl (fun query w => query.addAnswer w.decode) query
      = { query with answers := query.answers ++ ws.map Rr.decode } := by
  induction ws with
  | nil => intro query; simp
  | cons w ws ih => intro query; rw [List.foldl_cons, ih]; simp [DnsQuery.addAnswer]

theorem foldl_addAuthority (ws : List Rr) : ∀ query : DnsQuery,
    ws.foldl (fun query w => query.addAuthority w.decode) query
      = { query with authorities := query.authorities ++ ws.map Rr.decode } := by
  induction ws with
  | nil => intro query; simp
  | cons w ws ih => intro query; rw [List.foldl_cons, ih]; simp [DnsQuery.addAuthority]

theorem foldl_drop (ws : List Rr) (query : DnsQuery) :
    ws.foldl (fun query _ => query) query = query := by
  induction ws with
  | nil => rfl
  | cons w ws ih => rw [List.foldl_cons, ih]

/-- The question loop on its own. -/
theorem recognizes_questionLoop (query : DnsQuery) (n : ℕ) :
    Recognizes (ByteReader.forLoop parseQuestion n query)
      (fun query' bs => ∃ ws : List Question, ws.length = n ∧ bs = ws.flatMap Question.encode ∧
        query' = { query with questions := query.questions ++ ws.map Question.decode }) := by
  refine (Recognizes.forLoop recognizes_parseQuestion n query).congr fun query' bs => ?_
  simp only [foldl_addQuestion]

theorem recognizes_parseSections (query : DnsQuery) (header : DnsQueryHeader) :
    Recognizes (parseSections { query with id := header.id, rd := header.rd } header)
      (fun query' bs => ∃ m : Message, m.Announced header ∧ bs = m.encode ∧
        query' = m.decode query header) := by
  refine ((recognizes_questionLoop _ header.qdcount.toNat).bind fun query₁ _ _ =>
    (Recognizes.forLoop recognizes_parseAnswer header.ancount.toNat query₁).bind fun query₂ _ _ =>
      (Recognizes.forLoop recognizes_parseAuthority header.nscount.toNat query₂).bind
        fun query₃ _ _ => Recognizes.forLoop recognizes_parseAdditional header.arcount.toNat
          query₃).congr fun query' bs => ⟨?_, ?_⟩
  · rintro ⟨_, _, _, rfl, ⟨qs, hqs, rfl, rfl⟩, _, _, _, rfl, ⟨ans, hans, rfl, rfl⟩,
      _, _, _, rfl, ⟨aus, haus, rfl, rfl⟩, ads, hads, rfl, rfl⟩
    refine ⟨⟨qs, ans, aus, ads⟩, ⟨hqs, hans, haus, hads⟩, rfl, ?_⟩
    rw [foldl_drop, foldl_addAuthority, foldl_addAnswer]
    rfl
  · rintro ⟨m, hm, rfl, rfl⟩
    refine ⟨_, _, _, rfl, ⟨m.questions, hm.questions, rfl, rfl⟩, _, _, _, rfl,
      ⟨m.answers, hm.answers, rfl, rfl⟩, _, _, _, rfl, ⟨m.authorities, hm.authorities, rfl, rfl⟩,
      m.additionals, hm.additionals, rfl, ?_⟩
    rw [foldl_drop, foldl_addAuthority, foldl_addAnswer]
    rfl

/-- **Acceptance.**  `parseDnsQuery` accepts exactly the encodings of the messages the
header announces, and keeps what `decode` keeps of them. -/
theorem parseDnsQuery_eq_ok_iff (query : DnsQuery) (header : DnsQueryHeader) (body : Bytes)
    (query' : DnsQuery) :
    parseDnsQuery query header body = .ok query' ↔
      ∃ m : Message, m.Announced header ∧ body = m.encode ∧ query' = m.decode query header := by
  have hrec := recognizes_parseSections query header
  constructor
  · intro h
    unfold parseDnsQuery at h
    split at h
    · cases h
    · next q buf heq =>
      split at h
      · cases h
      · next hend =>
        cases h
        obtain ⟨pre, bs, rest, rfl, hpre, rfl, m, hm, rfl, rfl⟩ :=
          hrec.sound (Nat.zero_le _) heq
        -- nothing is read before the body, and the last test leaves nothing after it
        have hnil : pre = [] := List.length_eq_zero_iff.mp hpre.symm
        subst hnil
        refine ⟨m, hm, ?_, rfl⟩
        have hrest : rest = [] := by
          apply List.length_eq_zero_iff.mp
          simp only [List.length_append, List.length_nil] at hend
          omega
        rw [hrest]
        simp
  · rintro ⟨m, hm, rfl, rfl⟩
    have h := hrec.complete [] [] ⟨m, hm, rfl, rfl⟩
    simp only [List.nil_append, List.append_nil, List.length_nil, Nat.zero_add] at h
    rw [parseDnsQuery, h]
    simp

/-- The parser never reads a byte at or beyond the end of the body. -/
theorem parseDnsQuery_ne_overrun (query : DnsQuery) (header : DnsQueryHeader) (body : Bytes) :
    parseDnsQuery query header body ≠ .error .overrun := by
  intro h
  unfold parseDnsQuery at h
  split at h
  · next e heq =>
    cases h
    exact (recognizes_parseSections query header).safe (Nat.zero_le _) heq
  · split at h
    · cases h
    · cases h
