/-
# Lookups return what has been registered

A node keeps the first address that is registered under a name, so that the addresses with which
it answers lookups of the name do not change.  Which node answers depends on the routes, and two
nodes may have been given different addresses.

`Overlay.answers_agree` : in every run, every address in an answer has been registered under the
name, and all answers of one node agree.
-/
import Pweb.Klink.OverlayNetwork

namespace Klink

/-- What a message registers: a name and an address. -/
def OverlayMessage.registration : OverlayMessage → Option (Bytes × HostAddress)
  | request (.put msg) => some (msg.deviceName, msg.hostAddress)
  | _ => none

/-- What a message answers: the node that answers, the name and the address. -/
def OverlayMessage.answer : OverlayMessage → Option (HostAddress × Bytes × HostAddress)
  | getReply msg =>
    if msg.resolutionStatus = success then some (msg.source, msg.deviceName, msg.hostAddress)
    else none
  | _ => none

theorem OverlayMessage.answer_success {msg : MessageGET_REPLY}
    (h : msg.resolutionStatus = success) :
    (getReply msg).answer = some (msg.source, msg.deviceName, msg.hostAddress) := if_pos h

theorem OverlayMessage.answer_failed {msg : MessageGET_REPLY} (h : msg.resolutionStatus ≠ success) :
    (getReply msg).answer = none := if_neg h

namespace Node

variable {n n' : Node} {g : Uninitialised} {msg : OverlayMessage} {out : List OverlayMessage}
  {name : Bytes} {ha : HostAddress}

/-! ## Turns -/

/-- The address that a node has for a name. -/
def registered (n : Node) (name : Bytes) : Option HostAddress := n.peer.indexTable.lookup name

theorem lookup_add_of_some {t : LookupTable Bytes HostAddress} {name' : Bytes} {ha' : HostAddress}
    (h : t.lookup name = some ha) : (t.add name' ha').lookup name = some ha := by
  rw [LookupTable.lookup_add]
  split_ifs with hsame
  · rw [← rank_string_inj.mp hsame, h]
    rfl
  · exact h

theorem of_lookup_add {t : LookupTable Bytes HostAddress} {name' : Bytes} {ha' : HostAddress}
    (h : (t.add name' ha').lookup name = some ha) :
    t.lookup name = some ha ∨ (name', ha') = (name, ha) := by
  rw [LookupTable.lookup_add] at h
  split_ifs at h with hsame
  · obtain rfl := rank_string_inj.mp hsame
    cases hold : t.lookup name with
    | none =>
        rw [hold] at h
        cases h
        exact Or.inr rfl
    | some ha₀ =>
        rw [hold] at h
        exact Or.inl h
  · exact Or.inl h

theorem registered_congr (h : n'.peer.indexTable = n.peer.indexTable) :
    n'.registered name = n.registered name := by
  rw [registered, registered, h]

theorem registered_cacheSender (n : Node) (m : ABSMessage) :
    (n.cacheSender m).registered name = n.registered name := by
  apply registered_congr
  rw [cacheSender]
  split <;> rfl

theorem registered_processCacheMe (n : Node) (m : ABSMessage) :
    (n.processCacheMe m).1.registered name = n.registered name := by
  rw [processCacheMe]
  dsimp only
  split_ifs
  · exact registered_cacheSender n _
  · exact registered_cacheSender n _
  · rfl

/-- What a turn makes of the addresses: the node keeps those it has, a new one has been in the
message; a registration goes on as it is; an answer goes on, or has the address of the node. -/
structure Relays (n : Node) (msg : OverlayMessage) (n' : Node) (out : List OverlayMessage) :
    Prop where
  keeps : ∀ {name ha}, n.registered name = some ha → n'.registered name = some ha
  registers : ∀ {name ha}, n'.registered name = some ha →
    n.registered name = some ha ∨ msg.registration = some (name, ha)
  registration : ∀ m ∈ out, ∀ x, m.registration = some x → msg.registration = some x
  answer : ∀ m ∈ out, ∀ x, m.answer = some x →
    msg.answer = some x ∨ x.1 = n.address ∧ n.registered x.2.1 = some x.2.2

/-- A turn in which the index table stays and nothing is registered or answered. -/
theorem Relays.of_silent (htable : ∀ name, n'.registered name = n.registered name)
    (hsilent : ∀ m ∈ out, m.registration = none ∧ m.answer = none) : Relays n msg n' out where
  keeps h := (htable _).trans h
  registers h := Or.inl ((htable _).symm.trans h)
  registration m hm x hx := by
    rw [(hsilent m hm).1] at hx
    cases hx
  answer m hm x hx := by
    rw [(hsilent m hm).2] at hx
    cases hx

theorem silent_announce {sourceHost : Bytes} {sourcePort : Int32} {srcOid : OverlayId}
    {ttl : UInt8} : ∀ m ∈ (n.announce sourceHost sourcePort srcOid ttl).2,
      m.registration = none ∧ m.answer = none := by
  intro m hm
  obtain ⟨e, -, rfl⟩ := List.mem_map.mp hm
  exact ⟨rfl, rfl⟩

theorem Routed.source {m m' : ABSMessage} (h : n.Routed m m') : m'.source = m.source := by
  obtain rfl | ⟨-, hop, oid, rfl⟩ := h
  · rfl
  · rfl

theorem Turn.relays (h : Turn n g msg n' out) (hretrieve : ¬ msg.IsRetrieve) :
    Relays n msg n' out := by
  cases h with
  | @forwardRequest msg cache hop oid httl =>
      refine ⟨id, Or.inl, List.forall_mem_singleton.mpr fun x hx => ?_,
        List.forall_mem_singleton.mpr nofun⟩
      cases msg with
      | get m => cases hx
      | put m => exact hx
  | register cache hrouted =>
      exact ⟨lookup_add_of_some, fun h => (of_lookup_add h).imp_right (congrArg some),
        List.forall_mem_singleton.mpr nofun, List.forall_mem_singleton.mpr nofun⟩
  | @found msg cache ha m hlookup hrouted =>
      refine ⟨id, Or.inl, List.forall_mem_singleton.mpr nofun,
        List.forall_mem_singleton.mpr fun x hx => Or.inr ?_⟩
      have hsource : m.source = n.address := hrouted.source
      rw [OverlayMessage.answer_success rfl] at hx
      cases hx
      exact ⟨hsource, hlookup⟩
  | missing cache hlookup =>
      have hfailed : errorGetFailed ≠ success := by decide
      exact .of_silent (fun _ => rfl)
        (List.forall_mem_singleton.mpr ⟨rfl, OverlayMessage.answer_failed hfailed⟩)
  | forwardGetReply cache hop oid hpath httl =>
      exact ⟨id, Or.inl, List.forall_mem_singleton.mpr nofun,
        List.forall_mem_singleton.mpr fun x hx => Or.inl hx⟩
  | logGetReply cache => exact .of_silent (fun _ => rfl) (List.forall_mem_nil _)
  | forwardPutReply cache hop oid hpath httl =>
      exact .of_silent (fun _ => rfl) (List.forall_mem_singleton.mpr ⟨rfl, rfl⟩)
  | logPutReply cache => exact .of_silent (fun _ => rfl) (List.forall_mem_nil _)
  | @cacheMe m =>
      refine .of_silent (fun _ => registered_processCacheMe n m) ?_
      rw [processCacheMe]
      dsimp only
      split_ifs
      · exact silent_announce
      · exact List.forall_mem_nil _
      · exact List.forall_mem_nil _
  | retrieve => exact absurd trivial hretrieve
  | retrieveReply => exact absurd trivial hretrieve

end Node

namespace Overlay

open Node

variable {costs : ℕ → Costs} {net : ℕ → Node} {s s' : Overlay} {e : Event}
  {tr : List (Transition Overlay Event)} {name : Bytes} {ha : HostAddress}

/-! ## Runs -/

@[simp] theorem registration_forwarded (c : Costs) (msg : OverlayMessage) :
    (msg.forwarded c).registration = msg.registration := by
  cases msg with
  | request msg => cases msg <;> rfl
  | _ => rfl

@[simp] theorem answer_forwarded (c : Costs) (msg : OverlayMessage) :
    (msg.forwarded c).answer = msg.answer := by
  cases msg with
  | request msg => cases msg <;> rfl
  | _ => rfl

/-- A node registers the address under the name in one of the events. -/
def Registered (tr : List (Transition Overlay Event)) (name : Bytes) (ha : HostAddress) : Prop :=
  ∃ t ∈ tr, ∃ i g, t.event = .ask i g (.put name ha)

theorem Registered.append (h : Registered tr name ha) (tr' : List (Transition Overlay Event)) :
    Registered (tr ++ tr') name ha := by
  obtain ⟨t, ht, hevent⟩ := h
  exact ⟨t, List.mem_append_left tr' ht, hevent⟩

/-- The node has the address under the name. -/
def Has (s : Overlay) (x : HostAddress × Bytes × HostAddress) : Prop :=
  ∃ i, (s.nodes i).address = x.1 ∧ (s.nodes i).registered x.2.1 = some x.2.2

/-- Addresses in tables and registrations have been registered; those in answers are in the table
of the node that has answered, which stays as it is from the start only if it is set up once. -/
structure Truthful (tr : List (Transition Overlay Event)) (s : Overlay) : Prop where
  unset : ∀ i, (s.nodes i).initRcvd = false → ∀ name, (s.nodes i).registered name = none
  tables : ∀ i name ha, (s.nodes i).registered name = some ha → Registered tr name ha
  registrations : ∀ msg ∈ s.flying, ∀ x, msg.registration = some x → Registered tr x.1 x.2
  flying : ∀ msg ∈ s.flying, ∀ x, msg.answer = some x → s.Has x
  answers : ∀ t ∈ tr, ∀ msg ∈ t.post.flying, ∀ x, msg.answer = some x → s.Has x

/-- No node is set up twice. -/
def SetUpOnce (tr : List (Transition Overlay Event)) : Prop :=
  ∀ t ∈ tr, ∀ i msg, t.event = .init i msg → (t.pre.nodes i).initRcvd = false

/-- A node after a turn. -/
theorem Truthful.send {i : ℕ} {r : Node × List OverlayMessage} {t : Transition Overlay Event}
    (h : Truthful tr s) (hpost : t.post = s.send costs i r)
    (haddress : r.1.address = (s.nodes i).address)
    (hunset : r.1.initRcvd = false → ∀ name, r.1.registered name = none)
    (hkeeps : ∀ {name ha}, (s.nodes i).registered name = some ha → r.1.registered name = some ha)
    (htable : ∀ {name ha}, r.1.registered name = some ha → Registered (tr ++ [t]) name ha)
    (hregistration : ∀ m ∈ r.2, ∀ x, m.registration = some x → Registered (tr ++ [t]) x.1 x.2)
    (hanswer : ∀ m ∈ r.2, ∀ x, m.answer = some x →
      s.Has x ∨ x.1 = (s.nodes i).address ∧ (s.nodes i).registered x.2.1 = some x.2.2) :
    Truthful (tr ++ [t]) (s.send costs i r) := by
  have hself : (s.send costs i r).nodes i = r.1 := Function.update_self _ _ _
  have hother : ∀ {j}, j ≠ i → (s.send costs i r).nodes j = s.nodes j :=
    fun hne => Function.update_of_ne hne _ _
  have hhas : ∀ {x}, s.Has x → (s.send costs i r).Has x := by
    rintro x ⟨j, hj, hx⟩
    refine ⟨j, ?_⟩
    rcases eq_or_ne j i with rfl | hne
    · rw [hself]
      exact ⟨haddress.trans hj, hkeeps hx⟩
    · rw [hother hne]
      exact ⟨hj, hx⟩
  have hflying : ∀ msg ∈ (s.send costs i r).flying, ∀ x, msg.answer = some x →
      (s.send costs i r).Has x := by
    intro msg hmsg x hx
    rcases List.mem_append.mp hmsg with hold | hnew
    · exact hhas (h.flying msg hold x hx)
    · obtain ⟨m, hm, rfl⟩ := List.mem_map.mp hnew
      rw [answer_forwarded] at hx
      rcases hanswer m hm x hx with hhad | ⟨hx, hx'⟩
      · exact hhas hhad
      · exact hhas ⟨i, hx.symm, hx'⟩
  refine ⟨fun j => ?_, fun j name ha hj => ?_, fun msg hmsg x hx => ?_, hflying, ?_⟩
  · rcases eq_or_ne j i with rfl | hne
    · rw [hself]
      exact hunset
    · rw [hother hne]
      exact h.unset j
  · rcases eq_or_ne j i with rfl | hne
    · rw [hself] at hj
      exact htable hj
    · rw [hother hne] at hj
      exact (h.tables j name ha hj).append [t]
  · rcases List.mem_append.mp hmsg with hold | hnew
    · exact (h.registrations msg hold x hx).append [t]
    · obtain ⟨m, hm, rfl⟩ := List.mem_map.mp hnew
      rw [registration_forwarded] at hx
      exact hregistration m hm x hx
  · intro t' ht'
    rcases List.mem_append.mp ht' with hold | hnew
    · exact fun msg hmsg x hx => hhas (h.answers t' hold msg hmsg x hx)
    · rw [List.mem_singleton.mp hnew, hpost]
      exact hflying

theorem Truthful.erase (h : Truthful tr s) (msg : OverlayMessage) (lost : List OverlayMessage) :
    Truthful tr { s with flying := s.flying.erase msg, lost := lost } where
  unset := h.unset
  tables := h.tables
  registrations m hm := h.registrations m (List.mem_of_mem_erase hm)
  flying m hm := h.flying m (List.mem_of_mem_erase hm)
  answers := h.answers

theorem registered_processInit (n : Node) (msg : PeerInitMessage) (name : Bytes) :
    (n.processInit msg).1.registered name = none := by
  rw [Node.processInit]
  dsimp only
  split_ifs <;> rfl

theorem initRcvd_processInit (n : Node) (msg : PeerInitMessage) :
    (n.processInit msg).1.initRcvd = true := by
  rw [Node.processInit]
  dsimp only
  split_ifs <;> rfl

theorem silent_processInit (n : Node) (msg : PeerInitMessage) :
    ∀ m ∈ (n.processInit msg).2, m.registration = none ∧ m.answer = none := by
  rw [Node.processInit]
  dsimp only
  split_ifs
  · exact silent_announce
  · exact List.forall_mem_nil _

/-- A turn after which the node keeps what it has registered. -/
theorem Truthful.turn {i : ℕ} {n n' : Node} {g : Uninitialised} {msg : OverlayMessage}
    {out : List OverlayMessage} {t : Transition Overlay Event} (h : Truthful tr s)
    (hpost : t.post = s.send costs i (n', out)) (hturn : Turn n g msg n' out)
    (hretrieve : ¬ msg.IsRetrieve) (hinit : (s.nodes i).initRcvd = true)
    (hsame : (s.nodes i).Keeps n) (htable : n.peer.indexTable = (s.nodes i).peer.indexTable)
    (hregistration : ∀ x, msg.registration = some x → Registered (tr ++ [t]) x.1 x.2)
    (hanswer : ∀ x, msg.answer = some x → s.Has x) :
    Truthful (tr ++ [t]) (s.send costs i (n', out)) := by
  have hrelays := hturn.relays hretrieve
  have hkeeps := hsame.trans hturn.keeps
  have hregistered : ∀ name, n.registered name = (s.nodes i).registered name :=
    fun _ => registered_congr htable
  refine h.send hpost hkeeps.address ?_ ?_ ?_ ?_ ?_
  · intro hno
    rw [hkeeps.initRcvd, hinit] at hno
    cases hno
  · exact fun hx => hrelays.keeps ((hregistered _).trans hx)
  · intro name ha hx
    rcases hrelays.registers hx with hold | hnew
    · exact (h.tables i name ha ((hregistered _).symm.trans hold)).append [t]
    · exact hregistration _ hnew
  · exact fun m hm x hx => hregistration x (hrelays.registration m hm x hx)
  · intro m hm x hx
    rcases hrelays.answer m hm x hx with hold | ⟨haddress, hnew⟩
    · exact Or.inl (hanswer x hold)
    · exact Or.inr ⟨haddress.trans hsame.address, (hregistered _).symm.trans hnew⟩

/-- **An event keeps the network truthful.** -/
theorem Truthful.advances (h : Truthful tr s) (hretrieve : ∀ m ∈ s.flying, ¬ m.IsRetrieve)
    (honce : ∀ i msg, e = .init i msg → (s.nodes i).initRcvd = false)
    (hs : Advances costs s e s') : Truthful (tr ++ [⟨s, e, s'⟩]) s' := by
  have hlast : ∀ {s'}, (⟨s, e, s'⟩ : Transition Overlay Event) ∈ tr ++ [⟨s, e, s'⟩] :=
    Run.last_mem tr _
  cases hs with
  | init i msg =>
      have hnone := h.unset i (honce i msg rfl)
      have hsame : SameNode (s.nodes i) ((s.nodes i).processInit msg).1 :=
        SameNode.processInit ⟨rfl, rfl, rfl⟩ msg
      refine h.send rfl hsame.address ?_ ?_ ?_ ?_ ?_
      · intro hno
        rw [initRcvd_processInit] at hno
        cases hno
      · intro name ha hx
        rw [hnone] at hx
        cases hx
      · intro name ha hx
        rw [registered_processInit] at hx
        cases hx
      · intro m hm x hx
        rw [(silent_processInit _ msg m hm).1] at hx
        cases hx
      · intro m hm x hx
        rw [(silent_processInit _ msg m hm).2] at hx
        cases hx
  | @ask i g r n₀ n' msg out hinit hstarts hturn =>
      refine h.turn rfl hturn not_false hinit hstarts.keeps ?_ ?_ nofun
      · obtain ⟨u, rfl⟩ := hstarts.node
        rfl
      · intro x hx
        have hkind := hstarts.kind
        have hname := hstarts.name
        cases msg with
        | get m => cases hx
        | put m =>
            cases hx
            cases r with
            | get name => cases hkind
            | getForClient message => cases hkind
            | put name ha =>
                obtain ⟨m', hm', rfl⟩ := hstarts.hostAddress name ha rfl
                cases hm'
                obtain rfl : m.deviceName = name := hname
                exact ⟨_, hlast, i, g, rfl⟩
  | @receive i g msg n' out hmem hinit hdest hturn =>
      refine (h.erase msg s.lost).turn rfl hturn (hretrieve msg hmem) hinit
        ⟨rfl, rfl, rfl, rfl, rfl, rfl⟩ rfl ?_ (h.flying msg hmem)
      exact fun x hx => (h.registrations msg hmem x hx).append _
  | @lose msg hmem =>
      have herased := h.erase msg (s.lost ++ [msg])
      refine ⟨h.unset, fun j name ha hj => (h.tables j name ha hj).append _,
        fun m hm x hx => (herased.registrations m hm x hx).append _, herased.flying, ?_⟩
      intro t' ht'
      rcases List.mem_append.mp ht' with hold | hnew
      · exact h.answers t' hold
      · rw [List.mem_singleton.mp hnew]
        exact herased.flying

theorem truthful (hnet : Starting net) (h : Run (system net costs) tr s) (honce : SetUpOnce tr) :
    Truthful tr s := by
  have hresult : SetUpOnce tr → Truthful tr s := by
    apply h.invariant_trace (J := fun tr s => SetUpOnce tr → Truthful tr s)
    · rintro _ rfl -
      have hnone : ∀ i name, (net i).registered name = none := by
        intro i name
        rw [registered, hnet.indexTable i]
        rfl
      refine ⟨fun i _ => hnone i, fun i name ha hx => ?_, fun _ hm => absurd hm List.not_mem_nil,
        fun _ hm => absurd hm List.not_mem_nil, fun _ ht => absurd ht List.not_mem_nil⟩
      rw [hnone] at hx
      cases hx
    · intro tr s e s' hrun ih hstep honce
      refine (ih fun t ht => honce t (List.mem_append_left _ ht)).advances (sameNodes hrun).flying
        ?_ (perform_advances hstep)
      exact honce ⟨s, e, s'⟩ (Run.last_mem tr _)
  exact hresult honce

/-- **Lookups return what has been registered.**  In a run in which no node is set up twice, the
address in an answer on its way has been registered under the name, and two answers that one node
has given for a name, at whatever times, have the same address. -/
theorem answers_agree (hnet : Starting net) (h : Run (system net costs) tr s)
    (honce : SetUpOnce tr) :
    (∀ msg, .getReply msg ∈ s.flying → msg.resolutionStatus = success →
      ∃ t ∈ tr, ∃ i g, t.event = .ask i g (.put msg.deviceName msg.hostAddress)) ∧
    ∀ t ∈ tr, ∀ t' ∈ tr, ∀ msg msg', .getReply msg ∈ t.post.flying →
      .getReply msg' ∈ t'.post.flying → msg.resolutionStatus = success →
      msg'.resolutionStatus = success → msg.source = msg'.source →
      msg.deviceName = msg'.deviceName → msg.hostAddress = msg'.hostAddress := by
  have htruthful := truthful hnet h honce
  refine ⟨fun msg hmem hstatus => ?_, fun t ht t' ht' msg msg' hmem hmem' hstatus hstatus' hsource
    hname => ?_⟩
  · obtain ⟨i, -, htable⟩ :=
      htruthful.flying _ hmem _ (OverlayMessage.answer_success hstatus)
    exact htruthful.tables i _ _ htable
  · obtain ⟨i, hi, htable⟩ :=
      htruthful.answers t ht _ hmem _ (OverlayMessage.answer_success hstatus)
    obtain ⟨j, hj, htable'⟩ :=
      htruthful.answers t' ht' _ hmem' _ (OverlayMessage.answer_success hstatus')
    have hsame := sameNodes h
    obtain rfl : i = j := by
      apply hnet.distinct
      rw [← (hsame.nodes i).address, ← (hsame.nodes j).address, hi, hj]
      exact hsource
    dsimp only at htable htable'
    rw [hname, htable'] at htable
    exact (Option.some.inj htable).symm

/-- A lookup of the name `0`. -/
theorem perform_get {i : ℕ} (hinit : (s.nodes i).initRcvd = true) (costs : ℕ → Costs)
    (g : Uninitialised) : s.perform costs (.ask i g (.get [48])) =
      ((s.nodes i).nextSequenceNo.processRequest g
        (.get { (s.nodes i).newMessage msgPlexusGet g.oid with
          targetOid := ⟨0, 12, 12⟩, deviceName := [48] })).map (s.send costs i) := by
  have hoid : OverlayId.ofPattern (0 : Int32).toInt64 = some ⟨0, 12, 12⟩ := ofPattern_zero
  rw [perform, if_pos hinit, Node.ask, Node.get, show atoi [48] = some 0 by decide,
    Option.bind_eq_bind, Option.bind_some, hoid]
  rfl

/-- The lookup as it leaves the second of three nodes in a line. -/
def lineLookup : OverlayMessage := .request (.get
  { ABSMessage.init msgPlexusGet 3 [97] 1 (lineId 1) (lineId 0) with
    destPort := 1
    overlayHops := 1
    overlayTtl := 9
    targetOid := ⟨0, 12, 12⟩
    deviceName := [48] })

/-- The second node has sent its registration. -/
def lineRegistered : Overlay :=
  lineUp.send noCosts 1 ((lineUp.nodes 1).nextSequenceNo, [lineRequest.setBase fun m =>
    { m with overlayHops := 0 }])

/-- A registration and a lookup, which the first node answers. -/
def lineLookupEvents : List Event :=
  [.ask 1 blank (.put [48] ⟨[98], 2⟩), .ask 1 blank (.get [48]), .receive 0 blank lineRequest,
    .receive 0 blank lineLookup]

theorem isSome_lineLookupEvents :
    ((system newNode noCosts).exec lineUp lineLookupEvents).isSome = true := by
  have hput : lineUp.perform noCosts (.ask 1 blank (.put [48] ⟨[98], 2⟩)) =
      some lineRegistered := by
    rw [perform_put rfl]
    rfl
  rw [lineLookupEvents, exec_cons, hput, Option.bind_some, exec_cons, perform_get rfl]
  decide +kernel

theorem setUpOnce_lineTrace : SetUpOnce lineTrace := by
  refine List.forall_mem_cons.mpr ⟨?_, List.forall_mem_cons.mpr
    ⟨?_, List.forall_mem_singleton.mpr ?_⟩⟩
  · rintro _ _ ⟨⟩
    rfl
  · rintro _ _ ⟨⟩
    rfl
  · rintro _ _ ⟨⟩
    rfl

/-- The answer to the lookup. -/
theorem line_answers : ∃ tr s, Run (system newNode noCosts) (lineTrace ++ tr) s ∧
    tr.map Transition.event = lineLookupEvents ∧
    (∀ msg, .getReply msg ∈ s.flying → msg.resolutionStatus = success →
      ∃ t ∈ lineTrace ++ tr, ∃ i g,
        t.event = .ask i g (.put msg.deviceName msg.hostAddress)) ∧
    ∀ t ∈ lineTrace ++ tr, ∀ t' ∈ lineTrace ++ tr, ∀ msg msg', .getReply msg ∈ t.post.flying →
      .getReply msg' ∈ t'.post.flying → msg.resolutionStatus = success →
      msg'.resolutionStatus = success → msg.source = msg'.source →
      msg.deviceName = msg'.deviceName → msg.hostAddress = msg'.hostAddress := by
  obtain ⟨s, hs⟩ := Option.isSome_iff_exists.mp isSome_lineLookupEvents
  obtain ⟨tr, hrun, hevents⟩ := run_lineUp.exec_extends hs
  refine ⟨tr, s, hrun, hevents, answers_agree starting_newNode hrun ?_⟩
  intro t ht i msg heq
  rcases List.mem_append.mp ht with hsetUp | hlookup
  · exact setUpOnce_lineTrace t hsetUp i msg heq
  · have hevent : t.event ∈ lineLookupEvents := hevents ▸ List.mem_map_of_mem hlookup
    rw [heq] at hevent
    simp [lineLookupEvents] at hevent

end Overlay

end Klink
