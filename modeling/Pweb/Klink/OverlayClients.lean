/-
# Clients of the overlay

A node that looks a name up for a client (`get_for_client`) remembers the client in
`unresolved_get`, and forgets it when the home agent of the device has answered a
`RetrieveMessage`.  The branch of `processMessage` that sent one, for a reply to the lookup,
is commented out.

`client_lookups_unresolved` : in no run is a client answered.
-/
import Pweb.Klink.OverlayDefined

namespace Klink

namespace Overlay

open Node

variable {costs : ℕ → Costs} {net : ℕ → Node} {s s' : Overlay} {e : Event} {i : ℕ}
  {tr : List (Transition Overlay Event)}

/-! ## A turn -/

theorem unresolvedGet_cacheSender (n : Node) (m : ABSMessage) :
    (n.cacheSender m).unresolvedGet = n.unresolvedGet := by
  rw [cacheSender]
  split
  · rfl
  · rfl

theorem unresolvedGet_processCacheMe (n : Node) (m : ABSMessage) :
    (n.processCacheMe m).1.unresolvedGet = n.unresolvedGet := by
  rw [processCacheMe]
  dsimp only
  split_ifs
  · exact unresolvedGet_cacheSender n _
  · exact unresolvedGet_cacheSender n _
  · rfl

theorem unresolvedGet_processInit (n : Node) (msg : PeerInitMessage) :
    (n.processInit msg).1.unresolvedGet = n.unresolvedGet := by
  rw [Node.processInit]
  dsimp only
  split_ifs
  · rfl
  · rfl

/-- Only the answer of a home agent makes a node forget a client. -/
theorem unresolvedGet_turn {n n' : Node} {g : Uninitialised} {msg : OverlayMessage}
    {out : List OverlayMessage} (h : Turn n g msg n' out) (hretrieve : ¬ msg.IsRetrieve) :
    n'.unresolvedGet = n.unresolvedGet := by
  cases h with
  | @cacheMe m => exact unresolvedGet_processCacheMe n m
  | retrieve => exact absurd trivial hretrieve
  | retrieveReply => exact absurd trivial hretrieve
  | _ => rfl

/-! ## Runs -/

/-- The clients that node `i` remembers are remembered. -/
def Remembers (i : ℕ) (s s' : Overlay) : Prop :=
  ∀ index requester, (s.nodes i).unresolvedGet.lookup index = some requester →
    (s'.nodes i).unresolvedGet.lookup index = some requester

theorem remembers_send {j : ℕ} {r : Node × List OverlayMessage} {flying : List OverlayMessage}
    (h : ∀ index requester, (s.nodes j).unresolvedGet.lookup index = some requester →
      r.1.unresolvedGet.lookup index = some requester) :
    Remembers i s (send costs { s with flying := flying } j r) := by
  intro index requester hlookup
  show (Function.update s.nodes j r.1 i).unresolvedGet.lookup index = some requester
  rcases eq_or_ne i j with rfl | hne
  · rw [Function.update_self]
    exact h index requester hlookup
  · rw [Function.update_of_ne hne]
    exact hlookup

theorem lookup_unresolvedFor {n : Node} {r : Request} {index : MessageStateIndex}
    {requester : HostAddress × Bytes} (h : n.unresolvedGet.lookup index = some requester) :
    (n.unresolvedFor r).lookup index = some requester := by
  cases r with
  | get name => exact h
  | put name ha => exact h
  | getForClient message =>
      rw [unresolvedFor, LookupTable.lookup_add]
      split_ifs with hsame
      · rw [← LookupTable.lookup_congr hsame, h, Option.getD_some]
      · exact h

theorem remembers_advances (hretrieve : ∀ m ∈ s.flying, ¬ m.IsRetrieve)
    (hs : Advances costs s e s') : Remembers i s s' := by
  cases hs with
  | init j msg =>
      refine remembers_send fun index requester hlookup => ?_
      rwa [unresolvedGet_processInit]
  | ask hinit hstarts hturn =>
      refine remembers_send fun index requester hlookup => ?_
      rw [unresolvedGet_turn hturn not_false, hstarts.unresolvedGet]
      exact lookup_unresolvedFor hlookup
  | @receive j g msg n' out hmem hinit hdest hturn =>
      refine remembers_send fun index requester hlookup => ?_
      rwa [unresolvedGet_turn hturn (hretrieve msg hmem)]
  | lose hmem => exact fun _ _ => id

/-- A lookup for a client puts the client into the table, if there is none for the same home agent
and number. -/
theorem exists_client {g : Uninitialised} {message : PeerInitiateGET}
    (hs : Advances costs s (.ask i g (.getForClient message)) s') :
    ∃ requester, (s'.nodes i).unresolvedGet.lookup (clientIndex message) = some requester := by
  cases hs with
  | @ask _ _ _ n₀ n' msg out hinit hstarts hturn =>
      show ∃ requester, (Function.update s.nodes i n' i).unresolvedGet.lookup _ = some requester
      rw [Function.update_self, unresolvedGet_turn hturn not_false, hstarts.unresolvedGet,
        unresolvedFor, LookupTable.lookup_add, if_pos rfl]
      exact ⟨_, rfl⟩

/-- **No client is answered.**  After a lookup for a client, the table of the node has its entry
for ever: no home agent is asked about a device, and none answers. -/
theorem client_lookups_unresolved (h : Run (system net costs) tr s)
    {t : Transition Overlay Event} (ht : t ∈ tr) {g : Uninitialised} {message : PeerInitiateGET}
    (hasks : t.event = .ask i g (.getForClient message)) :
    (∃ requester, (t.post.nodes i).unresolvedGet.lookup (clientIndex message) = some requester ∧
      (s.nodes i).unresolvedGet.lookup (clientIndex message) = some requester) ∧
    ∀ msg ∈ s.flying ++ s.lost, ¬ msg.IsRetrieve := by
  have hkept : ∀ t ∈ tr, Remembers i t.post s := by
    refine h.kept (fun _ _ _ => id) (fun _ _ _ h h' index requester hlookup =>
      h' index requester (h index requester hlookup)) ?_
    exact fun tr s e s' hrun hstep =>
      remembers_advances (sameNodes hrun).flying (perform_advances hstep)
  refine ⟨?_, fun msg hmsg => ?_⟩
  · obtain ⟨past, future, -, hrun, hstep⟩ := h.split ht
    rw [hasks] at hstep
    obtain ⟨requester, hrequester⟩ := exists_client (perform_advances hstep)
    exact ⟨requester, hrequester, hkept t ht _ _ hrequester⟩
  · rcases List.mem_append.mp hmsg with hmsg | hmsg
    · exact (sameNodes h).flying msg hmsg
    · exact (sameNodes h).lost msg hmsg

theorem step_ask {g : Uninitialised} {r : Request} {result : Node × List OverlayMessage}
    (hinit : (s.nodes i).initRcvd = true) (hask : (s.nodes i).ask g r = some result) :
    (system net costs).step s (.ask i g r) = some (s.send costs i result) := by
  show s.perform costs (.ask i g r) = some (s.send costs i result)
  rw [perform, if_pos hinit, hask, Option.map_some]

/-- A lookup of `phone.home` for a client. -/
def lineClient : PeerInitiateGET where
  toABSMessage := .init msgPeerInitiateGet 7 [99] 53 ⟨0, 0, 0⟩ ⟨0, 0, 0⟩
  deviceName := text "phone.home"

theorem line_client : ∃ t s, Run (system newNode noCosts) (lineTrace ++ [t]) s ∧
    t.event = .ask 1 blank (.getForClient lineClient) ∧
    (∃ requester, (t.post.nodes 1).unresolvedGet.lookup (clientIndex lineClient) = some requester ∧
      (s.nodes 1).unresolvedGet.lookup (clientIndex lineClient) = some requester) ∧
    ∀ msg ∈ s.flying ++ s.lost, ¬ msg.IsRetrieve := by
  have hinit : (lineUp.nodes 1).initRcvd = true := rfl
  have hready := (prepared starting_newNode run_lineUp sizes_lineTrace).nodes 1 hinit
  obtain ⟨result, hask⟩ := (hready.ask_iff blank (.getForClient lineClient)).mpr trivial
  have hstep : (system newNode noCosts).step lineUp (.ask 1 blank (.getForClient lineClient)) =
      some (lineUp.send noCosts 1 result) := step_ask hinit hask
  have hrun := run_lineUp.extend hstep
  generalize lineUp.send noCosts 1 result = s at hrun
  refine ⟨⟨lineUp, .ask 1 blank (.getForClient lineClient), s⟩, s, hrun, rfl, ?_⟩
  exact client_lookups_unresolved hrun (Run.last_mem lineTrace _) rfl

end Overlay

end Klink
