/-
# The overlay comes to rest

Every message has a weight that bounds what can still follow from it: a request may be forwarded
and answered, a reply forwarded, an announcement passed on to the neighbours of its receiver.
The time to live is what makes the weights finite; `local_live` : no message on its way has
used it up, so no decrement of the unsigned byte wraps around.

`Overlay.settles` : receiving and losing messages goes on for as many events as the weights of
the messages on their way allow.
-/
import Pweb.Klink.OverlayNetwork

namespace Klink

/-! ## Time to live -/

/-- The time to live of a new message. -/
def OverlayMessage.initialTtl : OverlayMessage → ℕ
  | cacheMe _ => 2
  | _ => 10

/-- The message may still be decremented. -/
structure OverlayMessage.Live (msg : OverlayMessage) : Prop where
  pos : 0 < msg.base.overlayTtl.toNat
  le : msg.base.overlayTtl.toNat ≤ msg.initialTtl

theorem toNat_sub_one {ttl : UInt8} (h : 0 < ttl.toNat) : (ttl - 1).toNat + 1 = ttl.toNat := by
  have hle : (1 : UInt8) ≤ ttl := UInt8.le_iff_toNat_le.mpr h
  rw [UInt8.toNat_sub_of_le _ _ hle]
  exact Nat.sub_add_cancel h

/-- A decrement that leaves some time to live. -/
theorem OverlayMessage.Live.decrement {msg msg' : OverlayMessage} (h : msg.Live)
    (hne : msg.base.overlayTtl ≠ 1) (hsame : msg'.initialTtl = msg.initialTtl)
    (hstep : msg'.base.overlayTtl = msg.base.overlayTtl - 1) : msg'.Live := by
  have hnat := toNat_sub_one h.pos
  have hne' : msg.base.overlayTtl.toNat ≠ 1 := fun hone => hne (UInt8.toNat_inj.mp hone)
  have hle := h.le
  refine ⟨?_, ?_⟩
  · rw [hstep]
    omega
  · rw [hstep, hsame]
    omega

/-- A new message. -/
theorem OverlayMessage.Live.new {msg : OverlayMessage}
    (h : msg.base.overlayTtl.toNat = msg.initialTtl) : msg.Live := by
  refine ⟨?_, h.le⟩
  rw [h]
  cases msg <;> exact Nat.succ_pos _

namespace Node

variable {n n' : Node} {g : Uninitialised} {m m' : ABSMessage} {msg : OverlayMessage}
  {out : List OverlayMessage}

theorem Routed.overlayTtl (h : n.Routed m m') : m'.overlayTtl = m.overlayTtl := by
  obtain rfl | ⟨-, hop, oid, rfl⟩ := h
  · rfl
  · rfl

theorem overlayTtl_announce {sourceHost : Bytes} {sourcePort : Int32} {srcOid : OverlayId}
    {ttl : UInt8} (h : msg ∈ (n.announce sourceHost sourcePort srcOid ttl).2) :
    ∃ m, msg = .cacheMe m ∧ m.overlayTtl = ttl := by
  obtain ⟨e, -, rfl⟩ := List.mem_map.mp h
  exact ⟨_, rfl, rfl⟩

theorem overlayTtl_setDest (msg : PlexusMessage) (hop : HostAddress) (oid : OverlayId) :
    (msg.decrementOverlayTtl.setDest hop oid).base.overlayTtl = msg.base.overlayTtl - 1 := by
  cases msg <;> rfl

/-- What a node sends is live. -/
theorem Turn.live (h : Turn n g msg n' out) (hlive : msg.Live) : ∀ m ∈ out, m.Live := by
  cases h with
  | forwardRequest cache hop oid httl =>
      exact List.forall_mem_singleton.mpr
        (hlive.decrement httl rfl (overlayTtl_setDest _ hop oid))
  | register cache hrouted =>
      exact List.forall_mem_singleton.mpr (.new (congrArg UInt8.toNat hrouted.overlayTtl))
  | found cache hlookup hrouted =>
      exact List.forall_mem_singleton.mpr (.new (congrArg UInt8.toNat hrouted.overlayTtl))
  | missing cache hlookup => exact List.forall_mem_singleton.mpr (.new rfl)
  | forwardGetReply cache hop oid hpath httl =>
      exact List.forall_mem_singleton.mpr (hlive.decrement httl rfl rfl)
  | forwardPutReply cache hop oid hpath httl =>
      exact List.forall_mem_singleton.mpr (hlive.decrement httl rfl rfl)
  | logGetReply cache => exact List.forall_mem_nil _
  | logPutReply cache => exact List.forall_mem_nil _
  | @cacheMe m =>
      intro m' hm
      rw [processCacheMe] at hm
      dsimp only at hm
      split_ifs at hm with htype httl
      · obtain ⟨m₁, rfl, hm₁⟩ := overlayTtl_announce hm
        refine hlive.decrement (fun hone => ?_) rfl hm₁
        have hzero : m.decrementOverlayTtl.overlayTtl = 0 := sub_eq_zero.mpr hone
        rw [hzero] at httl
        exact absurd httl (by decide)
      · exact absurd hm List.not_mem_nil
      · exact absurd hm List.not_mem_nil
  | retrieve => exact List.forall_mem_singleton.mpr (.new rfl)
  | retrieveReply =>
      intro m' hm
      rw [processRetrieveReply] at hm
      dsimp only at hm
      split at hm
      · exact absurd hm List.not_mem_nil
      · rw [List.mem_singleton.mp hm]
        exact .new rfl

end Node

/-! ## Weights -/

/-- How many events can follow from an announcement with a time to live, where no node has more
than `degree` neighbours. -/
def spread (degree : ℕ) : ℕ → ℕ
  | 0 => 0
  | ttl + 1 => 1 + degree * spread degree ttl

/-- How many events can follow from a message. -/
def OverlayMessage.weight (degree : ℕ) : OverlayMessage → ℕ
  | request msg => msg.base.overlayTtl.toNat + 10
  | getReply msg => msg.overlayTtl.toNat
  | putReply msg => msg.overlayTtl.toNat
  | cacheMe msg => spread degree msg.overlayTtl.toNat
  | retrieve _ => 12
  | retrieveReply _ => 11

/-- The weight of several messages. -/
def totalWeight (degree : ℕ) (out : List OverlayMessage) : ℕ :=
  (out.map (OverlayMessage.weight degree)).sum

@[simp] theorem totalWeight_nil (degree : ℕ) : totalWeight degree [] = 0 := rfl

@[simp] theorem totalWeight_singleton (degree : ℕ) (msg : OverlayMessage) :
    totalWeight degree [msg] = msg.weight degree := List.sum_singleton

@[simp] theorem totalWeight_append (degree : ℕ) (out out' : List OverlayMessage) :
    totalWeight degree (out ++ out') = totalWeight degree out + totalWeight degree out' := by
  rw [totalWeight, List.map_append, List.sum_append]
  rfl

theorem totalWeight_erase (degree : ℕ) {out : List OverlayMessage} {msg : OverlayMessage}
    (h : msg ∈ out) :
    totalWeight degree (out.erase msg) + msg.weight degree = totalWeight degree out := by
  rw [totalWeight, totalWeight, ((List.perm_cons_erase h).map _).sum_eq, List.map_cons,
    List.sum_cons, Nat.add_comm]

theorem weight_forwarded (degree : ℕ) (costs : Costs) (msg : OverlayMessage) :
    (msg.forwarded costs).weight degree = msg.weight degree := by
  cases msg with
  | request msg => cases msg <;> rfl
  | _ => rfl

theorem totalWeight_forwarded (degree : ℕ) (costs : Costs) (out : List OverlayMessage) :
    totalWeight degree (out.map (OverlayMessage.forwarded costs)) = totalWeight degree out := by
  rw [totalWeight, List.map_map]
  exact congrArg List.sum (List.map_congr_left fun msg _ => weight_forwarded degree costs msg)

theorem OverlayMessage.Live.weight_pos {msg : OverlayMessage} (h : msg.Live) (degree : ℕ) :
    0 < msg.weight degree := by
  cases msg with
  | request msg => exact Nat.succ_pos _
  | getReply m => exact h.pos
  | putReply m => exact h.pos
  | cacheMe m =>
      have hstep : (m.overlayTtl - 1).toNat + 1 = m.overlayTtl.toNat := toNat_sub_one h.pos
      rw [weight, ← hstep, spread]
      omega
  | retrieve m => exact Nat.succ_pos 11
  | retrieveReply m => exact Nat.succ_pos 10

theorem OverlayMessage.Live.weight_le {degree : ℕ} {msg : OverlayMessage} (h : msg.Live) :
    msg.weight degree ≤ 20 + degree := by
  have hle := h.le
  cases msg with
  | request msg =>
      exact (Nat.add_le_add_right hle 10).trans (Nat.le_add_right 20 degree)
  | getReply m => exact hle.trans ((by decide : 10 ≤ 20).trans (Nat.le_add_right 20 degree))
  | putReply m => exact hle.trans ((by decide : 10 ≤ 20).trans (Nat.le_add_right 20 degree))
  | cacheMe m =>
      change m.overlayTtl.toNat ≤ 2 at hle
      rw [weight]
      interval_cases m.overlayTtl.toNat
      · exact Nat.zero_le _
      · show 1 + degree * 0 ≤ _
        omega
      · show 1 + degree * (1 + degree * 0) ≤ _
        rw [Nat.mul_zero, Nat.add_zero, Nat.mul_one]
        omega
  | retrieve m => exact (by decide : 12 ≤ 20).trans (Nat.le_add_right _ _)
  | retrieveReply m => exact (by decide : 11 ≤ 20).trans (Nat.le_add_right _ _)

namespace Node

variable {n n' : Node} {g : Uninitialised} {msg : OverlayMessage} {out : List OverlayMessage}
  {degree : ℕ}

theorem totalWeight_announce (sourceHost : Bytes) (sourcePort : Int32) (srcOid : OverlayId)
    (ttl : UInt8) (hdegree : n.peer.routingTable.table.length ≤ degree) :
    totalWeight degree (n.announce sourceHost sourcePort srcOid ttl).2 ≤
      degree * spread degree ttl.toNat := by
  have heach : ∀ w ∈ (n.announce sourceHost sourcePort srcOid ttl).2.map
      (OverlayMessage.weight degree), w ≤ spread degree ttl.toNat := by
    intro w hw
    obtain ⟨m, hm, rfl⟩ := List.mem_map.mp hw
    obtain ⟨m, rfl, rfl⟩ := overlayTtl_announce hm
    exact le_rfl
  have hlength : (n.announce sourceHost sourcePort srcOid ttl).2.length =
      n.peer.routingTable.table.length := by
    rw [announce, List.length_map, List.length_zipIdx]
  calc totalWeight degree (n.announce sourceHost sourcePort srcOid ttl).2
      ≤ n.peer.routingTable.table.length * spread degree ttl.toNat := by
        have hsum := List.sum_le_card_nsmul _ _ heach
        rwa [List.length_map, hlength, smul_eq_mul] at hsum
    _ ≤ degree * spread degree ttl.toNat := Nat.mul_le_mul_right _ hdegree

/-- **A turn uses up weight.** -/
theorem Turn.totalWeight_lt (h : Turn n g msg n' out) (hlive : msg.Live)
    (hdegree : n.peer.routingTable.table.length ≤ degree) :
    totalWeight degree out < msg.weight degree := by
  have hpos := hlive.pos
  have hstep := toNat_sub_one hpos
  cases h with
  | forwardRequest cache hop oid =>
      rw [totalWeight_singleton, OverlayMessage.weight, OverlayMessage.weight, overlayTtl_setDest]
      rw [OverlayMessage.base] at hstep
      omega
  | register cache hrouted =>
      rw [totalWeight_singleton, OverlayMessage.weight, OverlayMessage.weight, hrouted.overlayTtl]
      exact Nat.lt_add_of_pos_left hpos
  | found cache hlookup hrouted =>
      rw [totalWeight_singleton, OverlayMessage.weight, OverlayMessage.weight, hrouted.overlayTtl]
      exact Nat.lt_add_of_pos_left hpos
  | missing cache hlookup =>
      rw [totalWeight_singleton]
      exact Nat.lt_add_of_pos_left hpos
  | forwardGetReply cache hop oid =>
      rw [totalWeight_singleton]
      exact Nat.lt_of_succ_le hstep.le
  | forwardPutReply cache hop oid =>
      rw [totalWeight_singleton]
      exact Nat.lt_of_succ_le hstep.le
  | logGetReply cache => exact hpos
  | logPutReply cache => exact hpos
  | @cacheMe m =>
      rw [OverlayMessage.weight, ← show (m.overlayTtl - 1).toNat + 1 = m.overlayTtl.toNat from hstep,
        spread, processCacheMe, Nat.add_comm 1]
      dsimp only
      split_ifs
      · have hle := totalWeight_announce (n := n.cacheSender m.decrementOverlayTtl)
          m.sourceHost m.sourcePort m.srcOid (m.overlayTtl - 1)
          ((congrArg (·.table.length) (keeps_cacheSender n _).routingTable).trans_le hdegree)
        exact Nat.lt_succ_of_le hle
      · exact Nat.succ_pos _
      · exact Nat.succ_pos _
  | retrieve => exact Nat.lt_succ_self 11
  | retrieveReply =>
      rw [processRetrieveReply]
      dsimp only
      split
      · exact Nat.succ_pos 10
      · exact Nat.lt_succ_self 10

end Node

namespace Overlay

open Node

variable {costs : ℕ → Costs} {net : ℕ → Node} {s s' : Overlay}
  {tr : List (Transition Overlay Event)} {degree : ℕ}

theorem Live.forwarded {costs : Costs} {msg : OverlayMessage} (h : msg.Live) :
    (msg.forwarded costs).Live := by
  obtain ⟨hpos, hle⟩ := h
  cases msg with
  | request msg => cases msg <;> exact ⟨hpos, hle⟩
  | _ => exact ⟨hpos, hle⟩

/-- Messages are live. -/
theorem local_live : Local costs (fun _ _ => True) OverlayMessage.Live where
  setUp {i n msg} _ := by
    refine ⟨trivial, fun m hm => ?_⟩
    rw [Node.processInit] at hm
    dsimp only at hm
    split_ifs at hm
    · obtain ⟨m', rfl, httl⟩ := overlayTtl_announce hm
      exact .new (congrArg UInt8.toNat httl)
    · exact absurd hm List.not_mem_nil
  number _ := trivial
  start _ hstarts := ⟨trivial, .new (congrArg UInt8.toNat hstarts.ttl)⟩
  turn _ hlive hturn := ⟨trivial, hturn.live hlive⟩
  forward := Live.forwarded

theorem live (h : Run (system net costs) tr s) : ∀ msg ∈ s.flying, msg.Live :=
  (local_live.invariant (fun _ => trivial) h).flying

/-- A message is received or lost. -/
def Event.Moves : Event → Prop
  | .receive _ _ _ => True
  | .lose _ => True
  | _ => False

/-- The messages are live, and no routing table has more than `degree` entries. -/
structure Bounded (degree : ℕ) (s : Overlay) : Prop where
  live : ∀ msg ∈ s.flying, msg.Live
  degree : ∀ i, (s.nodes i).peer.routingTable.table.length ≤ degree

/-- An event in which a message moves uses up weight. -/
theorem Bounded.advances {e : Event} (h : s.Bounded degree) (he : e.Moves)
    (hs : Advances costs s e s') : s'.Bounded degree ∧
      totalWeight degree s'.flying < totalWeight degree s.flying := by
  cases hs with
  | init i msg => exact he.elim
  | ask hinit hstarts hturn => exact he.elim
  | @receive i g msg n' out hmem hinit hdest hturn =>
      have hlive := h.live msg hmem
      refine ⟨⟨fun m hm => ?_, fun j => ?_⟩, ?_⟩
      · rcases List.mem_append.mp hm with hold | hnew
        · exact h.live m (List.mem_of_mem_erase hold)
        · obtain ⟨m', hout, rfl⟩ := List.mem_map.mp hnew
          exact Live.forwarded (hturn.live hlive m' hout)
      · show (Function.update s.nodes i n' j).peer.routingTable.table.length ≤ degree
        rcases eq_or_ne j i with rfl | hne
        · rw [Function.update_self, hturn.keeps.routingTable]
          exact h.degree j
        · rw [Function.update_of_ne hne]
          exact h.degree j
      · have hlt := hturn.totalWeight_lt hlive (h.degree i)
        have herase := totalWeight_erase degree hmem
        rw [send, totalWeight_append, totalWeight_forwarded]
        dsimp only
        omega
  | @lose msg hmem =>
      refine ⟨⟨fun m hm => h.live m (List.mem_of_mem_erase hm), h.degree⟩, ?_⟩
      have herase := totalWeight_erase degree hmem
      have hpos := (h.live msg hmem).weight_pos degree
      dsimp only
      omega

/-- **The overlay comes to rest**: from every state that can be reached, without new requests and
nodes, the messages on their way are received or lost, in whatever order, after at most
`20 + degree` events for each of them, where `degree` bounds the sizes of the routing tables. -/
theorem settles (h : Run (system net costs) tr s)
    (hdegree : ∀ i, (s.nodes i).peer.routingTable.table.length ≤ degree) {es : List Event}
    (hes : ∀ e ∈ es, e.Moves) (hexec : (system net costs).exec s es = some s') :
    es.length ≤ s.flying.length * (20 + degree) := by
  have hbounded : s.Bounded degree := ⟨live h, hdegree⟩
  have huse := (Run.exec_potential (I := Bounded degree)
    (fun _ _ _ hs he hstep => hs.advances he (perform_advances hstep)) hbounded hes hexec).2
  have heach : ∀ w ∈ s.flying.map (OverlayMessage.weight degree), w ≤ 20 + degree := by
    intro w hw
    obtain ⟨m, hm, rfl⟩ := List.mem_map.mp hw
    exact (live h m hm).weight_le
  have hsum := List.sum_le_card_nsmul _ _ heach
  rw [List.length_map, smul_eq_mul] at hsum
  exact (Nat.le_of_add_right_le huse).trans hsum

/-- The announcement of the first of three nodes in a line, and the second one passes it on. -/
def lineNews : OverlayMessage := .cacheMe { ABSMessage.init msgCacheMe 0 [] 1 (lineId 0) (lineId 1) with
  destHost := [97], destPort := 1, overlayHops := 1, overlayTtl := 2 }

def lineNewsOfNews : OverlayMessage :=
  .cacheMe { ABSMessage.init msgCacheMe 4 [] 1 (lineId 0) (lineId 2) with
    destHost := [97, 97], destPort := 1, overlayHops := 1, overlayTtl := 1 }

def lineNewsEvents : List Event := [.receive 1 blank lineNews, .receive 2 blank lineNewsOfNews]

theorem isSome_lineNewsEvents :
    ((system newNode noCosts).exec lineUp lineNewsEvents).isSome = true := by
  decide +kernel

theorem degree_lineUp : ∀ i, (lineUp.nodes i).peer.routingTable.table.length ≤ 2
  | 0 => by decide
  | 1 => by decide
  | 2 => by decide
  | _ + 3 => Nat.zero_le 2

/-- Two of the events that can follow. -/
theorem line_settles : lineNewsEvents.length ≤ lineUp.flying.length * (20 + 2) := by
  obtain ⟨s, hs⟩ := Option.isSome_iff_exists.mp isSome_lineNewsEvents
  exact settles run_lineUp degree_lineUp
    (List.forall_mem_cons.mpr ⟨trivial, List.forall_mem_singleton.mpr trivial⟩) hs

end Overlay

end Klink
