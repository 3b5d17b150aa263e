/-
# The check of a home agent

Before it registers names the test client looks up the address of every home agent and
compares it with the configured one.  The loop of `handle_resolve` that searches the
endpoints does not advance its iterator, so it is left only through the first of them.

`checksAddress_iff` : the check ends and decides membership exactly when there is no
endpoint or the first one has the address.
-/
import Pweb.Foundation.WhileLoop
import Pweb.Shared.Buffers

namespace TestClient

/-- `hastate_t`. -/
inductive HaState
  | good
  | dnsLookupFailed
  | urlIpMismatch
  | unableToConnect
  | unknown
deriving DecidableEq

/-- `ip::address`; two addresses are equal if their kinds and their contents are. -/
inductive IpAddress
  | v4 (bytes : BitVec 32)
  | v6 (bytes : BitVec 128) (scopeId : UInt32)
deriving DecidableEq

/-- `ip::tcp::endpoint`. -/
structure Endpoint where
  address : IpAddress
  port : UInt16
deriving DecidableEq

/-- `haconfig` : a line of the home agent list. -/
structure Haconfig where
  url : Bytes
  port : Bytes
  haname : Bytes
  ip : IpAddress
  status : HaState
deriving DecidableEq

namespace HaChecker

/-- What a handler of `ha_checker_impl` does besides setting the status. -/
inductive Action
  | setStatus (status : HaState)
  | asyncConnect (endpoints : List Endpoint)
  | done
deriving DecidableEq

/-- The end of a check : the status is set and `done` is called. -/
def report (status : HaState) (haconfig : Haconfig) : Haconfig × List Action :=
  ({ haconfig with status }, [.setStatus status, .done])

/-- A round of the loop `while ( begin != end ) if ( ... ) goto success;` : the loop is
left behind the end of the list or at an endpoint with the address, and else the iterator
stays where it is. -/
def round (ip : IpAddress) : List Endpoint → List Endpoint ⊕ Bool
  | [] => .inr false
  | endpoint :: rest => if endpoint.address = ip then .inr true else .inl (endpoint :: rest)

/-- `ha_checker_impl::handle_resolve`, if its loop is left within `fuel` rounds. -/
def handleResolve (fuel : ℕ) (ok : Bool) (endpoints : List Endpoint) (haconfig : Haconfig) :
    Option (Haconfig × List Action) :=
  if ok then
    match whileLoop (round haconfig.ip) fuel endpoints with
    | none => none
    | some true => some (haconfig, [.asyncConnect endpoints])
    | some false => some (report .urlIpMismatch haconfig)
  else some (report .dnsLookupFailed haconfig)

/-- `ha_checker_impl::handle_connect`. -/
def handleConnect (ok : Bool) (haconfig : Haconfig) : Haconfig × List Action :=
  report (if ok then .good else .unableToConnect) haconfig

/-- The address of some endpoint is the configured one. -/
def Matches (haconfig : Haconfig) (endpoints : List Endpoint) : Prop :=
  ∃ endpoint ∈ endpoints, endpoint.address = haconfig.ip

/-- What the check of an address is for: it ends, connects exactly if some endpoint has
the address, and else reports the mismatch once. -/
def ChecksAddress (haconfig : Haconfig) (endpoints : List Endpoint) : Prop :=
  ∃ fuel after actions, handleResolve fuel true endpoints haconfig = some (after, actions) ∧
    (.asyncConnect endpoints ∈ actions ↔ Matches haconfig endpoints) ∧
    (¬ Matches haconfig endpoints → after.status = .urlIpMismatch ∧
      actions.count (.setStatus .urlIpMismatch) = 1)

variable {haconfig : Haconfig} {endpoints : List Endpoint}

/-- The loop is left exactly at the end of the list or at a matching first endpoint. -/
theorem returns_round_iff {ip : IpAddress} {found : Bool} :
    Returns (round ip) endpoints found ↔
      endpoints = [] ∧ found = false ∨
        ∃ endpoint rest, endpoints = endpoint :: rest ∧ endpoint.address = ip ∧ found = true := by
  cases endpoints with
  | nil =>
      have hleave : Returns (round ip) [] false := .leave rfl
      constructor
      · intro h
        exact .inl ⟨rfl, h.unique hleave⟩
      · rintro (⟨-, rfl⟩ | ⟨endpoint, rest, h, -⟩)
        · exact hleave
        · cases h
  | cons endpoint rest =>
      by_cases haddress : endpoint.address = ip
      · have hleave : Returns (round ip) (endpoint :: rest) true :=
          .leave (by rw [round, if_pos haddress])
        constructor
        · intro h
          exact .inr ⟨endpoint, rest, rfl, haddress, h.unique hleave⟩
        · rintro (⟨h, -⟩ | ⟨_, _, -, -, rfl⟩)
          · cases h
          · exact hleave
      · -- the iterator stays at this endpoint for ever
        have hstays : ∀ s, s = endpoint :: rest → ∃ s', round ip s = .inl s' ∧
            s' = endpoint :: rest := by
          rintro s rfl
          exact ⟨_, by rw [round, if_neg haddress], rfl⟩
        constructor
        · intro h
          exact absurd h (not_returns hstays rfl)
        · rintro (⟨h, -⟩ | ⟨_, _, h, hip, -⟩)
          · cases h
          · cases h
            exact absurd hip haddress

/-- How `handle_resolve` ends, for a lookup that succeeded. -/
theorem handleResolve_cases {fuel : ℕ} {after : Haconfig} {actions : List Action}
    (h : handleResolve fuel true endpoints haconfig = some (after, actions)) :
    ∃ found, Returns (round haconfig.ip) endpoints found ∧
      (after, actions) = if found then (haconfig, [.asyncConnect endpoints])
        else report .urlIpMismatch haconfig := by
  rw [handleResolve, if_pos rfl] at h
  cases hloop : whileLoop (round haconfig.ip) fuel endpoints with
  | none =>
      rw [hloop] at h
      cases h
  | some found =>
      rw [hloop] at h
      refine ⟨found, ⟨fuel, hloop⟩, ?_⟩
      cases found with
      | true => exact (Option.some.inj h).symm
      | false => exact (Option.some.inj h).symm

/-- **When the check decides membership.** -/
theorem checksAddress_iff :
    ChecksAddress haconfig endpoints ↔
      endpoints = [] ∨
        ∃ endpoint rest, endpoints = endpoint :: rest ∧ endpoint.address = haconfig.ip := by
  constructor
  · rintro ⟨fuel, after, actions, h, -⟩
    obtain ⟨found, hreturns, -⟩ := handleResolve_cases h
    rcases returns_round_iff.mp hreturns with ⟨hnil, -⟩ | ⟨endpoint, rest, hcons, hip, -⟩
    · exact .inl hnil
    · exact .inr ⟨endpoint, rest, hcons, hip⟩
  · rintro (rfl | ⟨endpoint, rest, rfl, hip⟩)
    · have hmatch : ¬ Matches haconfig [] := by simp [Matches]
      refine ⟨1, _, _, rfl, ?_, fun _ => ⟨rfl, by decide⟩⟩
      simp [hmatch]
    · have hmatch : Matches haconfig (endpoint :: rest) := ⟨endpoint, List.mem_cons_self, hip⟩
      have hloop : whileLoop (round haconfig.ip) 1 (endpoint :: rest) = some true :=
        whileLoop_leave (by rw [round, if_pos hip]) 0
      have hresolve : handleResolve 1 true (endpoint :: rest) haconfig =
          some (haconfig, [.asyncConnect (endpoint :: rest)]) := by
        rw [handleResolve, if_pos rfl, hloop]
      refine ⟨1, _, _, hresolve, ?_, fun h => absurd hmatch h⟩
      simp [hmatch]

/-- A single endpoint with another address is compared for ever. -/
theorem other_address_never_decided :
    ¬ ∀ haconfig endpoints, ChecksAddress haconfig endpoints := by
  intro hall
  obtain ⟨fuel, after, actions, h, -⟩ :=
    hall ⟨[], [], [], .v4 1, .unknown⟩ [⟨.v4 2, 20005⟩]
  obtain ⟨found, hreturns, -⟩ := handleResolve_cases h
  rcases returns_round_iff.mp hreturns with ⟨hnil, -⟩ | ⟨endpoint, rest, hcons, hip, -⟩
  · cases hnil
  · cases hcons
    revert hip
    decide

end HaChecker

end TestClient
