/-
# The status export (`crawler_poller/instrumentation.cpp`)

The instrumentation database keeps a record for every home agent that has been discovered, in
the order of the host names, and writes itself out as a text that is meant to be JSON.

* `status_export_valid_iff` : the text is JSON, and then has the fields of the records, as long
  as no home agent has been discovered;
* `denotes_serializeRecord` : the object written for a record is right if no string in it needs
  an escape.
-/
import Pweb.Foundation.Json
import Pweb.Shared.Text

namespace Instrumentation

/-! ## Records -/

/-- `query_result`. -/
inductive QueryResult where
  | success
  | networkError
  | timeout
  | parseError
  | na
  deriving DecidableEq, Repr

/-- `query_result_str`. -/
def queryResultStr : QueryResult → Bytes
  | .success => text "Success"
  | .networkError => text "Network Error"
  | .timeout => text "Timeout"
  | .parseError => text "Parse Error"
  | .na => text "Not Applicable"

/-- `impl::record`, its time points in nanoseconds since the epoch. -/
structure Record where
  name : Bytes := []
  description : Bytes := []
  lastfailureMsg : Bytes := []
  discoveredTs : Int64
  lastsuccessTs : Int64 := 0
  lastfailureTs : Int64 := 0
  lastpollResult : QueryResult := .na
  deriving DecidableEq, Repr

/-- `operator<` of the host names. -/
def Before (hostname hostname' : Bytes) : Prop :=
  hostname.map UInt8.toNat < hostname'.map UInt8.toNat

instance (hostname hostname' : Bytes) : Decidable (Before hostname hostname') :=
  inferInstanceAs (Decidable (_ < _))

/-- `database`: a `std::map`. -/
structure Database where
  db : List (Bytes × Record)
  sorted : db.Pairwise fun e f => Before e.1 f.1

/-- `ms_since_epoch`. -/
def msSinceEpoch (timestamp : Int64) : UInt64 := UInt64.ofInt (timestamp.toInt.tdiv 1000000)

/-! ## Operations -/

/-- `insert` of the map: a record that is there stays. -/
def insertEntry (hostname : Bytes) (record : Record) :
    List (Bytes × Record) → List (Bytes × Record)
  | [] => [(hostname, record)]
  | e :: es =>
    if Before hostname e.1 then (hostname, record) :: e :: es
    else if Before e.1 hostname then e :: insertEntry hostname record es
    else e :: es

/-- Change the record that `at` finds; no record, no change. -/
def modifyEntry (hostname : Bytes) (f : Record → Record) (db : List (Bytes × Record)) :
    List (Bytes × Record) :=
  db.map fun e => if e.1 = hostname then (e.1, f e.2) else e

theorem mem_insertEntry {hostname : Bytes} {record : Record} {es : List (Bytes × Record)}
    {e : Bytes × Record} (h : e ∈ insertEntry hostname record es) :
    e = (hostname, record) ∨ e ∈ es := by
  induction es with
  | nil => exact Or.inl (List.mem_singleton.mp h)
  | cons e' es ih =>
      rw [insertEntry] at h
      split_ifs at h
      · exact List.mem_cons.mp h
      · rcases List.mem_cons.mp h with rfl | h
        · exact Or.inr List.mem_cons_self
        · exact (ih h).imp_right (List.mem_cons_of_mem e')
      · exact Or.inr h

theorem sorted_insertEntry (hostname : Bytes) (record : Record) {es : List (Bytes × Record)}
    (h : es.Pairwise fun e f => Before e.1 f.1) :
    (insertEntry hostname record es).Pairwise fun e f => Before e.1 f.1 := by
  induction es with
  | nil => exact List.pairwise_singleton _ _
  | cons e es ih =>
      obtain ⟨hfirst, hrest⟩ := List.pairwise_cons.mp h
      rw [insertEntry]
      split_ifs with hlt hgt
      · refine List.pairwise_cons.mpr ⟨fun e' he' => ?_, h⟩
        rcases List.mem_cons.mp he' with rfl | he'
        · exact hlt
        · exact hlt.trans (hfirst e' he')
      · refine List.pairwise_cons.mpr ⟨fun e' he' => ?_, ih hrest⟩
        rcases mem_insertEntry he' with rfl | he'
        · exact hgt
        · exact hfirst e' he'
      · exact h

theorem sorted_modifyEntry (hostname : Bytes) (f : Record → Record) {es : List (Bytes × Record)}
    (h : es.Pairwise fun e f => Before e.1 f.1) :
    (modifyEntry hostname f es).Pairwise fun e f => Before e.1 f.1 := by
  have hkey : ∀ e : Bytes × Record, (if e.1 = hostname then (e.1, f e.2) else e).1 = e.1 := by
    intro e
    split_ifs
    · rfl
    · rfl
  refine List.pairwise_map.mpr (h.imp fun {e e'} hlt => ?_)
  rwa [hkey, hkey]

/-- `insert_record_`. -/
def Database.insertRecord (database : Database) (hostname : Bytes) (record : Record) : Database :=
  ⟨insertEntry hostname record database.db, sorted_insertEntry hostname record database.sorted⟩

/-- `update_record_`, at a time. -/
def Database.updateRecord (database : Database) (now : Int64) (hostname : Bytes)
    (result : QueryResult) (msg : Bytes) : Database where
  db := modifyEntry hostname (fun record =>
    if result = .success then
      { record with lastsuccessTs := now, name := msg, lastpollResult := result }
    else { record with lastfailureTs := now, lastfailureMsg := msg, lastpollResult := result })
    database.db
  sorted := sorted_modifyEntry _ _ database.sorted

/-- `set_description_`. -/
def Database.setDescription (database : Database) (hostname description : Bytes) : Database where
  db := modifyEntry hostname (fun record => { record with description := description }) database.db
  sorted := sorted_modifyEntry _ _ database.sorted

/-! ## The export -/

/-- What the loop of `serialize_as_json_` writes for a record, up to the comma after it. -/
def serializeRecord (it : Bytes × Record) : Bytes :=
  [text "\x7b\n\t\"name\":\"", it.2.name,
    text "\",\n\t\"hostname\":\"", it.1,
    text "\",\n\t\"description\":\"", it.2.description,
    text "\",\n\t\"lastpoll_result\":\"", queryResultStr it.2.lastpollResult,
    text "\",\n\t\"discovered_ts\":\"", decimal (msSinceEpoch it.2.discoveredTs).toNat,
    text "\",\n\t\"lastsuccess_ts\":\"", decimal (msSinceEpoch it.2.lastsuccessTs).toNat,
    text "\",\n\t\"lastfailure_ts\":\"", decimal (msSinceEpoch it.2.lastfailureTs).toNat,
    text "\",\n\t\"lastfailure_msg\":\"", it.2.lastfailureMsg,
    text "\"\n\x7d"].flatten

/-- `serialize_as_json_`. -/
def Database.serializeAsJson (database : Database) : Bytes :=
  text "[\n" ++ (database.db.flatMap (fun it => serializeRecord it ++ text ",\n") ++ text "]\n")

/-- The fields of a record and their values. -/
def fields (it : Bytes × Record) : List (Bytes × Bytes) :=
  [(text "name", it.2.name), (text "hostname", it.1), (text "description", it.2.description),
    (text "lastpoll_result", queryResultStr it.2.lastpollResult),
    (text "discovered_ts", decimal (msSinceEpoch it.2.discoveredTs).toNat),
    (text "lastsuccess_ts", decimal (msSinceEpoch it.2.lastsuccessTs).toNat),
    (text "lastfailure_ts", decimal (msSinceEpoch it.2.lastfailureTs).toNat),
    (text "lastfailure_msg", it.2.lastfailureMsg)]

/-- The object that stands for a record. -/
def exported (it : Bytes × Record) : Json :=
  .object ((fields it).map fun field => (field.1, .string field.2))

/-- The text is a JSON array with the objects of the records, in order. -/
def Database.Exported (database : Database) : Prop :=
  Json.Document database.serializeAsJson (.array (database.db.map exported))

/-! ## The object of a record -/

/-- A string that can stand between quotes as it is. -/
def Clean (s : Bytes) : Prop := ∀ b ∈ s, 32 ≤ b ∧ b ≠ Json.quote ∧ b ≠ Json.backslash

instance (s : Bytes) : Decidable (Clean s) := List.decidableBAll _ s

/-- A field on a line of its own. -/
def fieldText (field : Bytes × Bytes) : Bytes :=
  text "\n\t" ++ (Json.quoted field.1 ++ Json.colon :: Json.quoted field.2)

/-- Fields in braces. -/
def objectText (fields : List (Bytes × Bytes)) : Bytes :=
  123 :: (Json.separated (fields.map fieldText) ++ text "\n\x7d")

/-- A field that needs no escapes. -/
abbrev CleanField := {field : Bytes × Bytes // Clean field.1 ∧ Clean field.2}

/-- A field as a member of an object. -/
def memberOf (after : Bytes) (hafter : Json.Blank after) (field : CleanField) : Json.Member where
  name := field.1.1
  key := ⟨text "\n\t", Json.quoted field.1.1, [], by decide +kernel, List.forall_mem_nil _⟩
  value := ⟨[], Json.quoted field.1.2, after, List.forall_mem_nil _, hafter⟩
  key_text := ⟨field.1.1, rfl, Json.chars_self field.2.1⟩

theorem whole_memberOf {after : Bytes} (hafter : Json.Blank after) (field : CleanField) :
    (memberOf after hafter field).whole = fieldText field ++ after := by
  simp [memberOf, Json.Member.whole, Json.Padded.whole, fieldText]

theorem denotes_memberOf {after : Bytes} (hafter : Json.Blank after) (field : CleanField) :
    Json.Denotes (memberOf after hafter field).value.text (.string field.1.2) :=
  .string (Json.chars_self field.2.2)

/-- Fields in braces are an object. -/
theorem denotes_objectText {fields : List (Bytes × Bytes)} (hne : fields ≠ [])
    (hclean : ∀ field ∈ fields, Clean field.1 ∧ Clean field.2) :
    Json.Denotes (objectText fields)
      (.object (fields.map fun field => (field.1, .string field.2))) := by
  lift fields to List CleanField using hclean
  obtain ⟨front, last, rfl⟩ :=
    (List.eq_nil_or_concat fields).resolve_left (by rintro rfl; exact hne rfl)
  have hblank : Json.Blank (text "\n") := by decide +kernel
  -- the line break before the brace belongs to the last member
  let members := (front.map fun field =>
      (memberOf [] (List.forall_mem_nil _) field, Json.string field.1.2)) ++
    [(memberOf (text "\n") hblank last, Json.string last.1.2)]
  have hmembers : ∀ m ∈ members, Json.Denotes m.1.value.text m.2 := by
    intro m hm
    rcases List.mem_append.mp hm with hm | hm
    · obtain ⟨field, -, rfl⟩ := List.mem_map.mp hm
      exact denotes_memberOf _ field
    · obtain rfl := List.mem_singleton.mp hm
      exact denotes_memberOf hblank last
  have htext : members.map (fun m => m.1.whole)
      = (front.map Subtype.val).map fieldText ++ [fieldText last ++ text "\n"] := by
    rw [List.map_append, List.map_map, List.map_map, List.map_singleton, whole_memberOf]
    refine congrArg (· ++ _) (List.map_congr_left fun field _ => ?_)
    exact (whole_memberOf _ field).trans (List.append_nil _)
  have hfields : (front.concat last).map Subtype.val = front.map Subtype.val ++ [last.1] := by
    rw [List.concat_eq_append, List.map_append]
    rfl
  have hvalue : members.map (fun m => (m.1.name, m.2))
      = (front.map Subtype.val ++ [last.1]).map fun field => (field.1, .string field.2) := by
    rw [List.map_append, List.map_append, List.map_map, List.map_map]
    rfl
  have hclose : text "\n\x7d" = text "\n" ++ [125] := by decide +kernel
  have hobject := Json.Denotes.object (by simp [members]) hmembers
  rw [htext, hvalue, ← Json.separated_concat_append, List.append_assoc, ← hclose] at hobject
  have hfieldTexts : (front.map Subtype.val ++ [last.1]).map fieldText
      = (front.map Subtype.val).map fieldText ++ [fieldText last] := List.map_append
  rwa [hfields, objectText, hfieldTexts]

/-- The text of a record. -/
theorem serializeRecord_eq (it : Bytes × Record) :
    serializeRecord it = objectText (fields it) := by
  have hopen : text "\x7b\n\t\"name\":\""
      = 123 :: (text "\n\t" ++ 34 :: (text "name" ++ [34, 58, 34])) := by decide +kernel
  have hnext : ∀ p ∈ [(text "\",\n\t\"hostname\":\"", text "hostname"),
      (text "\",\n\t\"description\":\"", text "description"),
      (text "\",\n\t\"lastpoll_result\":\"", text "lastpoll_result"),
      (text "\",\n\t\"discovered_ts\":\"", text "discovered_ts"),
      (text "\",\n\t\"lastsuccess_ts\":\"", text "lastsuccess_ts"),
      (text "\",\n\t\"lastfailure_ts\":\"", text "lastfailure_ts"),
      (text "\",\n\t\"lastfailure_msg\":\"", text "lastfailure_msg")],
      p.1 = 34 :: 44 :: (text "\n\t" ++ 34 :: (p.2 ++ [34, 58, 34])) := by decide +kernel
  have hclose : text "\"\n\x7d" = 34 :: text "\n\x7d" := by decide +kernel
  simp only [List.forall_mem_cons] at hnext
  obtain ⟨h₁, h₂, h₃, h₄, h₅, h₆, h₇, -⟩ := hnext
  rw [serializeRecord, hopen, h₁, h₂, h₃, h₄, h₅, h₆, h₇, hclose]
  simp [objectText, fields, fieldText, Json.separated, Json.quoted, Json.quote, Json.colon,
    Json.comma]

/-- **The object of a record** is right if its strings need no escapes. -/
theorem denotes_serializeRecord {it : Bytes × Record} (hname : Clean it.2.name)
    (hhostname : Clean it.1) (hdescription : Clean it.2.description)
    (hmsg : Clean it.2.lastfailureMsg) : Json.Denotes (serializeRecord it) (exported it) := by
  have hkeys : ∀ key ∈ (fields it).map Prod.fst, Clean key := by
    show ∀ key ∈ [text "name", text "hostname", text "description", text "lastpoll_result",
      text "discovered_ts", text "lastsuccess_ts", text "lastfailure_ts", text "lastfailure_msg"],
      Clean key
    decide +kernel
  have hresult : ∀ result, Clean (queryResultStr result) := by
    intro result
    cases result <;> decide +kernel
  have hnumber : ∀ n : ℕ, Clean (decimal n) := by
    intro n b hb
    have hdigit : 48 ≤ b.toNat ∧ b.toNat ≤ 57 := mem_decimalNat hb
    refine ⟨UInt8.le_iff_toNat_le.mpr ?_, ?_, ?_⟩
    · exact le_trans (by decide) hdigit.1
    · rintro rfl
      exact absurd hdigit (by decide)
    · rintro rfl
      exact absurd hdigit (by decide)
  rw [serializeRecord_eq]
  refine denotes_objectText (by simp [fields]) fun field hfield =>
    ⟨hkeys _ (List.mem_map_of_mem hfield), ?_⟩
  simp only [fields, List.mem_cons, List.not_mem_nil, or_false] at hfield
  rcases hfield with rfl | rfl | rfl | rfl | rfl | rfl | rfl | rfl
  · exact hname
  · exact hhostname
  · exact hdescription
  · exact hresult _
  · exact hnumber _
  · exact hnumber _
  · exact hnumber _
  · exact hmsg

/-! ## The whole text -/

/-- After the first record the text ends with a comma and a bracket. -/
theorem serializeAsJson_of_ne_nil {database : Database} (h : database.db ≠ []) :
    ∃ s, database.serializeAsJson = s ++ Json.comma :: (text "\n" ++ 93 :: text "\n") := by
  obtain ⟨front, last, hdb⟩ := (List.eq_nil_or_concat database.db).resolve_left h
  have hend : text ",\n" ++ text "]\n" = Json.comma :: (text "\n" ++ 93 :: text "\n") := by
    decide +kernel
  refine ⟨text "[\n" ++ (front.flatMap (fun it => serializeRecord it ++ text ",\n") ++
    serializeRecord last), ?_⟩
  rw [← hend, Database.serializeAsJson, hdb]
  simp

/-- The text of an empty database. -/
theorem exported_of_nil {database : Database} (h : database.db = []) : database.Exported := by
  have htext : database.serializeAsJson = [91, 10, 93, 10] := by
    rw [Database.serializeAsJson, h]
    decide +kernel
  have harray : Json.Denotes [91, 10, 93] (.array []) :=
    .emptyArray (List.forall_mem_singleton.mpr (by decide : Json.IsBlank 10))
  rw [Database.Exported, htext, h]
  exact ⟨⟨[], [91, 10, 93], [10], by decide, by decide⟩, rfl, harray⟩

/-- **The export of a database** is JSON exactly if the database is empty. -/
theorem document_serializeAsJson_iff (database : Database) :
    (∃ v, Json.Document database.serializeAsJson v) ↔ database.db = [] := by
  constructor
  · rintro ⟨v, hv⟩
    by_contra hne
    obtain ⟨s, hs⟩ := serializeAsJson_of_ne_nil hne
    rw [hs] at hv
    exact Json.not_document_of_trailing_comma (by decide +kernel) (by decide +kernel) v hv
  · exact fun h => ⟨_, exported_of_nil h⟩

/-! ## Runs -/

/-- What the pollers report, with the time at which it is recorded. -/
inductive Report where
  | homeAgentDiscovered (hostname : Bytes) (now : Int64)
  | queryResult (hostname : Bytes) (result : QueryResult) (msg : Bytes) (now : Int64)
  | setDescription (hostname description : Bytes)
  deriving DecidableEq, Repr

/-- Record a report. -/
def Database.record (database : Database) : Report → Database
  | .homeAgentDiscovered hostname now => database.insertRecord hostname { discoveredTs := now }
  | .queryResult hostname result msg now => database.updateRecord now hostname result msg
  | .setDescription hostname description => database.setDescription hostname description

/-- The database after reports one after the other. -/
def databaseAfter (reports : List Report) : Database :=
  reports.foldl Database.record ⟨[], List.Pairwise.nil⟩

/-- The report is that a home agent was discovered. -/
def Report.IsDiscovery (report : Report) : Prop :=
  ∃ hostname now, report = .homeAgentDiscovered hostname now

/-- **One report.**  Only a discovery adds a record, and no report removes one. -/
theorem db_record_eq_nil_iff (database : Database) (report : Report) :
    (database.record report).db = [] ↔ database.db = [] ∧ ¬ report.IsDiscovery := by
  rcases report with ⟨hostname, now⟩ | ⟨hostname, result, msg, now⟩ | ⟨hostname, description⟩
  · have hinsert : ∀ (record : Record) (es : List (Bytes × Record)),
        insertEntry hostname record es ≠ [] := by
      intro record es
      rcases es with _ | ⟨e, es⟩
      · exact List.cons_ne_nil _ _
      · rw [insertEntry]
        split_ifs
        · exact List.cons_ne_nil _ _
        · exact List.cons_ne_nil _ _
        · exact List.cons_ne_nil _ _
    exact iff_of_false (hinsert _ _) fun h => h.2 ⟨hostname, now, rfl⟩
  · refine List.map_eq_nil_iff.trans (and_iff_left ?_).symm
    rintro ⟨_, _, h⟩
    cases h
  · refine List.map_eq_nil_iff.trans (and_iff_left ?_).symm
    rintro ⟨_, _, h⟩
    cases h

/-- **A run** leaves the database empty exactly if it makes no discovery. -/
theorem databaseAfter_eq_nil_iff (reports : List Report) :
    (databaseAfter reports).db = [] ↔ ∀ report ∈ reports, ¬ report.IsDiscovery := by
  have hrun : ∀ (database : Database), (reports.foldl Database.record database).db = [] ↔
      database.db = [] ∧ ∀ report ∈ reports, ¬ report.IsDiscovery := by
    induction reports with
    | nil => exact fun database => (and_iff_left (List.forall_mem_nil _)).symm
    | cons report reports ih =>
        intro database
        rw [List.foldl_cons, ih, db_record_eq_nil_iff, List.forall_mem_cons, and_assoc]
  exact (hrun _).trans (and_iff_right rfl)

/-- **The status export.**  Whatever has been reported, the export is the JSON array of the
records exactly if no home agent has been discovered, and it is no JSON at all otherwise. -/
theorem status_export_valid_iff (reports : List Report) :
    ((databaseAfter reports).Exported ↔ ∀ report ∈ reports, ¬ report.IsDiscovery) ∧
    ((∃ v, Json.Document (databaseAfter reports).serializeAsJson v) ↔
      ∀ report ∈ reports, ¬ report.IsDiscovery) := by
  have hvalid := document_serializeAsJson_iff (databaseAfter reports)
  rw [databaseAfter_eq_nil_iff] at hvalid
  refine ⟨⟨fun h => hvalid.mp ⟨_, h⟩, fun h => ?_⟩, hvalid⟩
  exact exported_of_nil ((databaseAfter_eq_nil_iff reports).mpr h)

/-- One home agent. -/
theorem oneHomeAgent_not_valid :
    ¬ (databaseAfter [.homeAgentDiscovered (text "h") 0]).Exported := by
  intro h
  have hempty := (document_serializeAsJson_iff _).mp ⟨_, h⟩
  rw [databaseAfter_eq_nil_iff] at hempty
  exact hempty _ List.mem_cons_self ⟨_, _, rfl⟩

end Instrumentation
