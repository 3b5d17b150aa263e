/-
# The index of devices

All pollers post to one index, which has one document for every `r_key`.  The key of a
device is its name, which is unique only within a home agent: `keepsEveryDevice_iff`.
-/
import Pweb.Crawler.Poller
import Pweb.Foundation.KeyedIndex

namespace Poller

open KeyedIndex

/-- The documents of devices that an action posts. -/
def Action.devicesPosted : Action → List SolrDoc
  | .postDevices docs _ => docs
  | _ => []

/-- The documents posted after an answer. -/
def postedDevices (gall : Getall) : List SolrDoc :=
  (handlePoll (some gall)).flatMap Action.devicesPosted

/-- The index after the posts for these answers, in this order: a document replaces the one with
the same `r_key`. -/
def deviceIndex (galls : List Getall) : List SolrDoc :=
  build (SolrDoc.field · .rKey) (galls.flatMap postedDevices)

/-- The records posted, each with the name of its home agent. -/
def postedRecords (galls : List Getall) : List (Bytes × Device) :=
  galls.flatMap fun gall => gall.devices.map (gall.haname, ·)

/-- A document of the device `name` of the home agent `haname`. -/
def IsDeviceOf (haname name : Bytes) (doc : SolrDoc) : Prop :=
  doc.field .dHome = some haname ∧ doc.field .dName = some (name ++ (text "." ++ haname))

instance (haname name : Bytes) (doc : SolrDoc) : Decidable (IsDeviceOf haname name doc) :=
  inferInstanceAs (Decidable (_ ∧ _))

/-- The last record posted for a device of a home agent. -/
def lastRecord (galls : List Getall) (haname name : Bytes) : Option (Bytes × Device) :=
  ((postedRecords galls).filter fun r => r.1 = haname ∧ r.2.name = name).getLast?

/-- Every device of every home agent has one document, made of its last record. -/
def KeepsEveryDevice (galls : List Getall) : Prop :=
  ∀ haname name r, lastRecord galls haname name = some r →
    (deviceIndex galls).filter (IsDeviceOf haname name) = [deviceDoc haname r.2]

/-! ## Documents and records -/

variable {galls : List Getall} {haname name : Bytes} {i : Device} {doc : SolrDoc}

@[simp] theorem field_rKey_deviceDoc : (deviceDoc haname i).field .rKey = some i.name := rfl

@[simp] theorem field_dHome_deviceDoc : (deviceDoc haname i).field .dHome = some haname := rfl

@[simp] theorem field_dName_deviceDoc :
    (deviceDoc haname i).field .dName = some (i.name ++ (text "." ++ haname)) := rfl

theorem isDeviceOf_deviceDoc {r : Bytes × Device} :
    IsDeviceOf haname name (deviceDoc r.1 r.2) ↔ r.1 = haname ∧ r.2.name = name := by
  rw [IsDeviceOf, field_dHome_deviceDoc, field_dName_deviceDoc, Option.some_inj, Option.some_inj]
  refine and_congr_right fun hha => ?_
  rw [hha]
  exact List.append_left_inj _

theorem postedDevices_eq (gall : Getall) :
    postedDevices gall = gall.devices.map (deviceDoc gall.haname) := by
  rw [postedDevices,
    flatMap_handlePoll _ (fun _ => rfl) (fun _ _ => rfl) rfl (fun _ _ => rfl) gall]
  split_ifs with hnone
  · rw [hnone]
    rfl
  · rfl

/-- The documents posted are those of the records. -/
theorem flatMap_postedDevices (galls : List Getall) :
    galls.flatMap postedDevices = (postedRecords galls).map fun r => deviceDoc r.1 r.2 := by
  rw [postedRecords, List.map_flatMap]
  congr 1
  funext gall
  rw [postedDevices_eq, List.map_map]
  rfl

/-- The documents in the index are those of records. -/
theorem mem_deviceIndex (h : doc ∈ deviceIndex galls) :
    ∃ r ∈ postedRecords galls, doc = deviceDoc r.1 r.2 := by
  rw [deviceIndex, mem_build_iff, flatMap_postedDevices] at h
  have hmem := (List.mem_filter.mp (List.mem_of_getLast? h)).1
  obtain ⟨r, hr, rfl⟩ := List.mem_map.mp hmem
  exact ⟨r, hr, rfl⟩

/-- The index has the last record of every name. -/
theorem filter_name_deviceIndex (galls : List Getall) (name : Bytes) :
    (deviceIndex galls).filter (fun doc => doc.field .rKey = some name) =
      (((postedRecords galls).filter (·.2.name = name)).getLast?.map
        fun r => deviceDoc r.1 r.2).toList := by
  rw [deviceIndex, filter_build, flatMap_postedDevices, List.filter_map, List.getLast?_map]
  congr 3
  apply List.filter_congr
  intro r _
  rw [Function.comp_apply, field_rKey_deviceDoc, decide_eq_decide, Option.some_inj]

/-! ## Shared names -/

/-- If the index keeps every device, it has a document of this home agent for the name. -/
theorem KeepsEveryDevice.mem (h : KeepsEveryDevice galls) {r : Bytes × Device}
    (hr : r ∈ postedRecords galls) :
    ∃ i, deviceDoc r.1 i ∈ (deviceIndex galls).filter fun doc => doc.field .rKey = some r.2.name := by
  obtain ⟨last, hlast⟩ : ∃ last, lastRecord galls r.1 r.2.name = some last := by
    rw [← Option.ne_none_iff_exists', lastRecord, Ne, List.getLast?_eq_none_iff]
    exact List.ne_nil_of_mem (List.mem_filter.mpr ⟨hr, by simp⟩)
  have hname := (List.mem_filter.mp (List.mem_of_getLast? hlast)).2
  rw [decide_eq_true_iff] at hname
  have hmem : deviceDoc r.1 last.2 ∈ (deviceIndex galls).filter (IsDeviceOf r.1 r.2.name) := by
    rw [h _ _ _ hlast]
    exact List.mem_singleton_self _
  refine ⟨last.2, List.mem_filter.mpr ⟨(List.mem_filter.mp hmem).1, ?_⟩⟩
  rw [decide_eq_true_iff, field_rKey_deviceDoc, hname.2]

/-- **The index keeps every device** exactly if no two home agents use the same device name. -/
theorem keepsEveryDevice_iff (galls : List Getall) :
    KeepsEveryDevice galls ↔ ∀ r ∈ postedRecords galls, ∀ r' ∈ postedRecords galls,
      r.2.name = r'.2.name → r.1 = r'.1 := by
  constructor
  · intro hkeeps r hr r' hr' hname
    obtain ⟨i, hi⟩ := hkeeps.mem hr
    obtain ⟨i', hi'⟩ := hkeeps.mem hr'
    -- the index has one document for the name
    rw [filter_name_deviceIndex, Option.mem_toList] at hi hi'
    rw [hname, hi', Option.some_inj] at hi
    have hhome := congrArg (SolrDoc.field · .dHome) hi
    exact (Option.some.inj hhome).symm
  · intro hunique haname name r hlast
    have hr := List.mem_filter.mp (List.mem_of_getLast? hlast)
    rw [decide_eq_true_iff] at hr
    obtain ⟨hr, rfl, rfl⟩ := hr
    -- all records of this name are of this home agent
    have hrecords : (postedRecords galls).filter (fun r' => r'.1 = r.1 ∧ r'.2.name = r.2.name)
        = (postedRecords galls).filter (·.2.name = r.2.name) := by
      apply List.filter_congr
      intro r' hr'
      rw [decide_eq_decide]
      exact ⟨fun h => h.2, fun h => ⟨hunique r' hr' r hr h, h⟩⟩
    have hdocs : (deviceIndex galls).filter (IsDeviceOf r.1 r.2.name)
        = (deviceIndex galls).filter fun doc => doc.field .rKey = some r.2.name := by
      apply List.filter_congr
      intro doc hdoc
      obtain ⟨r', hr', rfl⟩ := mem_deviceIndex hdoc
      rw [decide_eq_decide, isDeviceOf_deviceDoc, field_rKey_deviceDoc, Option.some_inj]
      exact ⟨fun h => h.2, fun h => ⟨hunique r' hr' r hr h, h⟩⟩
    rw [lastRecord, hrecords] at hlast
    rw [hdocs, filter_name_deviceIndex, hlast]
    rfl

/-- An answer with one device. -/
def oneDevice (haname name : Bytes) : Getall :=
  ⟨haname, [], [⟨[], name, [], [], 2, [], []⟩], []⟩

/-- **Two home agents with a device of the same name**: the index keeps the one posted last. -/
theorem shared_name_not_kept : ¬ KeepsEveryDevice [oneDevice [97] [120], oneDevice [98] [120]] := by
  intro h
  have hlost := h [97] [120] ([97], ⟨[], [120], [], [], 2, [], []⟩) (by decide)
  have hnone : (deviceIndex [oneDevice [97] [120], oneDevice [98] [120]]).filter
      (IsDeviceOf [97] [120]) = [] := by decide +kernel
  rw [hnone] at hlost
  cases hlost

end Poller
