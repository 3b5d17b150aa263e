/-
# The tags of a document for the search index (`crawler_poller/poller.cpp`)

The documents are written without escaping, so what a home agent or a device puts into a string
must not open a tag.  The grammars of the answers see to that: no string they yield contains `<`.

`no_tag_injection` : the tags of what is posted are determined by the devices that have a port,
and by the number of public videos.
-/
import Pweb.Foundation.Markup
import Pweb.Crawler.Parser

namespace CrawlerParser

open Poller Markup

/-! ## The text of a document -/

/-- The name of a field. -/
def SolrField.name : SolrField → Bytes
  | .rType => text "r_type"
  | .rKey => text "r_key"
  | .dOwner => text "d_owner"
  | .dName => text "d_name"
  | .dHome => text "d_home"
  | .dPort => text "d_port"
  | .dType => text "d_type"
  | .dTimestamp => text "d_timestamp"
  | .dLocation => text "d_location"
  | .description => text "description"
  | .cCtid => text "c_ctid"
  | .cId => text "c_id"
  | .cDeviceName => text "c_device_name"
  | .cTitle => text "c_title"
  | .cFilesize => text "c_filesize"
  | .cMimetype => text "c_mimetype"

/-- A field of a document. -/
def fieldText (field : SolrField × Bytes) : Bytes :=
  text "<field name=\"" ++ (SolrField.name field.1 ++ (text "\">" ++ (field.2 ++ text "</field>")))

/-- A document. -/
def docText (doc : SolrDoc) : Bytes := text "<doc>" ++ (doc.flatMap fieldText ++ text "</doc>")

/-- The documents of a post. -/
def addText (docs : List SolrDoc) : Bytes :=
  text "<add overwrite=\"true\">" ++ (docs.flatMap docText ++ text "</add>")

/-- The tags of a text. -/
def tagsOf (s : Bytes) : List Bytes := tags 60 62 s

/-! ## Its tags -/

/-- The tags of a field. -/
def fieldTags (field : SolrField) : List Bytes :=
  [text "<field name=\"" ++ (SolrField.name field ++ text "\">"), text "</field>"]

/-- The tags of a document with these fields. -/
def docTags (fields : List SolrField) : List Bytes :=
  text "<doc>" :: (fields.flatMap fieldTags ++ [text "</doc>"])

/-- The tags of documents. -/
def addTags (docs : List (List SolrField)) : List Bytes :=
  text "<add overwrite=\"true\">" :: (docs.flatMap docTags ++ [text "</add>"])

/-- The fields of a device. -/
def deviceFields (hasPort : Bool) : List SolrField :=
  .rType :: .rKey :: .dOwner :: .dName :: .dHome ::
    ((if hasPort then [.dPort] else []) ++ [.dType, .dTimestamp, .dLocation, .description])

/-- The fields of a video. -/
def contentFields : List SolrField :=
  [.rType, .rKey, .cCtid, .cId, .cDeviceName, .cTitle, .cFilesize, .cMimetype, .description]

/-- No tag begins in the string. -/
def Plain (s : Bytes) : Prop := 60 ∉ s

instance (s : Bytes) : Decidable (Plain s) := inferInstanceAs (Decidable (¬ _))

/-- A literal that is a tag. -/
theorem hasTags_literal {s : Bytes} (inside : Bytes) (hs : s = 60 :: (inside ++ [62]))
    (hopen : 60 ∉ inside) (hclose : 62 ∉ inside) : HasTags 60 62 s [s] := by
  rw [hs]
  exact .tag (by decide) hopen hclose

theorem hasTags_field {field : SolrField × Bytes} (h : Plain field.2) :
    HasTags 60 62 (fieldText field) (fieldTags field.1) := by
  have hopen : HasTags 60 62 (text "<field name=\"" ++ (SolrField.name field.1 ++ text "\">"))
      [text "<field name=\"" ++ (SolrField.name field.1 ++ text "\">")] := by
    refine hasTags_literal (text "field name=\"" ++ (SolrField.name field.1 ++ text "\"")) ?_ ?_ ?_
    · have hbegin : text "<field name=\"" = 60 :: text "field name=\"" := by decide +kernel
      have hend : text "\">" = text "\"" ++ [62] := by decide +kernel
      rw [hbegin, hend]
      simp
    · cases field.1 <;> decide +kernel
    · cases field.1 <;> decide +kernel
  have hclose : HasTags 60 62 (text "</field>") [text "</field>"] :=
    hasTags_literal (text "/field") (by decide +kernel) (by decide +kernel) (by decide +kernel)
  have hfield := hopen.trans ((HasTags.content h).trans hclose)
  rwa [List.append_assoc, List.append_assoc, List.nil_append] at hfield

theorem hasTags_doc {doc : SolrDoc} (h : ∀ field ∈ doc, Plain field.2) :
    HasTags 60 62 (docText doc) (docTags (doc.map Prod.fst)) := by
  have hopen : HasTags 60 62 (text "<doc>") [text "<doc>"] :=
    hasTags_literal (text "doc") (by decide +kernel) (by decide +kernel) (by decide +kernel)
  have hclose : HasTags 60 62 (text "</doc>") [text "</doc>"] :=
    hasTags_literal (text "/doc") (by decide +kernel) (by decide +kernel) (by decide +kernel)
  have hfields := HasTags.flatMap fun field hfield => hasTags_field (h field hfield)
  rw [docTags, List.flatMap_map]
  exact hopen.trans (hfields.trans hclose)

/-- **The tags of a post** depend only on the names of the fields, if no value opens a tag. -/
theorem hasTags_add {docs : List SolrDoc} (h : ∀ doc ∈ docs, ∀ field ∈ doc, Plain field.2) :
    HasTags 60 62 (addText docs) (addTags (docs.map fun doc => doc.map Prod.fst)) := by
  have hopen : HasTags 60 62 (text "<add overwrite=\"true\">") [text "<add overwrite=\"true\">"] :=
    hasTags_literal (text "add overwrite=\"true\"") (by decide +kernel) (by decide +kernel)
      (by decide +kernel)
  have hclose : HasTags 60 62 (text "</add>") [text "</add>"] :=
    hasTags_literal (text "/add") (by decide +kernel) (by decide +kernel) (by decide +kernel)
  have hdocs := HasTags.flatMap fun doc hdoc => hasTags_doc (h doc hdoc)
  rw [addTags, List.flatMap_map]
  exact hopen.trans (hdocs.trans hclose)

/-! ## What the grammars yield -/

/-- The strings of a device. -/
structure PlainDevice (i : Device) : Prop where
  owner : Plain i.owner
  name : Plain i.name
  port : Plain i.port
  type : Plain i.type
  location : Plain i.location
  description : Plain i.description

/-- The strings of an answer that are sent to the search index. -/
structure PlainGetall (gall : Getall) : Prop where
  haname : Plain gall.haname
  devices : ∀ i ∈ gall.devices, PlainDevice i
  updates : ∀ i ∈ gall.updates, Plain i

/-- The strings of a video. -/
structure PlainVideo (i : Video) : Prop where
  title : Plain i.title
  mimetype : Plain i.mimetype
  description : Plain i.description

theorem yields_str : Yields str Plain where
  run hrun hmem := by
    have hchar := (Yields.lexeme space (Yields.many _)).run hrun 60 hmem
    exact absurd hchar (by decide)

theorem yields_str2 : Yields str2 Plain where
  run hrun hmem := by
    have hchar := (Yields.lexeme space (Yields.many _)).run hrun 60 hmem
    exact absurd hchar (by decide)

theorem yields_device : Yields device PlainDevice :=
  yields_tagged _ <| (yields_tagged _ yields_str).bind fun _ howner =>
    (yields_tagged _ yields_str).bind fun _ hname => (yields_tagged _ yields_str).bind fun _ hport =>
      (yields_tagged _ yields_str).bind fun _ htype => (Yields.trivial _).bind fun _ _ =>
        (yields_tagged _ yields_str).bind fun _ hlocation =>
          (yields_tagged _ yields_str).bind fun _ hdescription =>
            .pure ⟨howner, hname, hport, htype, hlocation, hdescription⟩

theorem yields_getallParser : Yields getallParser PlainGetall :=
  yields_tagged _ <| (yields_tagged _ yields_str).bind fun _ hhaname =>
    (Yields.trivial neighbours).bind fun _ _ =>
      (yields_tagged _ (.kleene yields_device)).bind fun _ hdevices =>
        (yields_tagged _ (.list yields_str2)).bind fun _ hupdates =>
          .pure ⟨hhaname, hdevices, hupdates⟩

theorem yields_video : Yields video PlainVideo :=
  yields_tagged _ <| (Yields.trivial _).bind fun _ _ =>
    (yields_tagged _ yields_str).bind fun _ htitle => (Yields.trivial _).bind fun _ _ =>
      (yields_tagged _ yields_str).bind fun _ hmimetype =>
        (yields_tagged _ yields_str).bind fun _ hdescription =>
          (Yields.trivial _).bind fun _ _ => .pure ⟨htitle, hmimetype, hdescription⟩

theorem yields_contmetaParser : Yields contmetaParser fun videos => ∀ i ∈ videos, PlainVideo i :=
  yields_tagged _ (yields_tagged _ (yields_tagged _ (.kleene yields_video)))

/-! ## The documents -/

theorem plain_decimal (z : ℤ) : Plain (decimal z) := fun hmem =>
  absurd (mem_decimal hmem) (by decide)

theorem Plain.append {s t : Bytes} (hs : Plain s) (ht : Plain t) : Plain (s ++ t) := fun hmem =>
  (List.mem_append.mp hmem).elim hs ht

theorem plain_deviceDoc {haname : Bytes} {i : Device} (hhaname : Plain haname)
    (hi : PlainDevice i) : ∀ field ∈ deviceDoc haname i, Plain field.2 := by
  have hdevice : Plain (text "device") := by decide +kernel
  have hdot : Plain (text ".") := by decide +kernel
  intro field hfield
  simp only [deviceDoc, List.mem_append, List.mem_cons, List.not_mem_nil, or_false] at hfield
  rcases hfield with (rfl | rfl | rfl | rfl | rfl) | hport | rfl | rfl | rfl | rfl
  · exact hdevice
  · exact hi.name
  · exact hi.owner
  · exact hi.name.append (hdot.append hhaname)
  · exact hhaname
  · split_ifs at hport
    · exact absurd hport List.not_mem_nil
    · obtain rfl := List.mem_singleton.mp hport
      exact hi.port
  · exact hi.type
  · exact plain_decimal _
  · exact hi.location
  · exact hi.description

theorem plain_contentDoc {device : Bytes} {i : Video} (hdevice : Plain device)
    (hi : PlainVideo i) : ∀ field ∈ contentDoc device i, Plain field.2 := by
  have hcontent : Plain (text "content") := by decide +kernel
  have hvid : Plain (text "-vid") := by decide +kernel
  have hkey : Plain (contentKey device i.id) := hdevice.append (hvid.append (plain_decimal _))
  intro field hfield
  simp only [contentDoc, List.mem_cons, List.not_mem_nil, or_false] at hfield
  rcases hfield with rfl | rfl | rfl | rfl | rfl | rfl | rfl | rfl | rfl
  · exact hcontent
  · exact hkey
  · exact hkey
  · exact plain_decimal _
  · exact hdevice
  · exact hi.title
  · exact plain_decimal _
  · exact hi.mimetype
  · exact hi.description

theorem fields_deviceDoc (haname : Bytes) (i : Device) :
    (deviceDoc haname i).map Prod.fst = deviceFields (i.port ≠ []) := by
  rw [deviceDoc, deviceFields]
  by_cases hport : i.port = []
  · simp [hport]
  · simp [hport]

theorem fields_contentDoc (device : Bytes) (i : Video) :
    (contentDoc device i).map Prod.fst = contentFields := rfl

/-- The documents that `handle_poll` posts. -/
theorem eq_of_postDevices_mem {gall : Getall} {docs : List SolrDoc} {newtimestamp : ℤ}
    (h : Action.postDevices docs newtimestamp ∈ handlePoll (some gall)) :
    docs = gall.devices.map (deviceDoc gall.haname) := by
  rw [handlePoll, deviceLoop_eq, List.nil_append] at h
  obtain hagent | h := List.mem_append.mp h
  · obtain ⟨i, _, hi⟩ := List.mem_flatMap.mp hagent
    simp at hi
  obtain hpost | hupdate := List.mem_append.mp h
  · split_ifs at hpost
    · simp at hpost
    · exact (Action.postDevices.inj (List.mem_singleton.mp hpost)).1
  · simp at hupdate

/-- The tags of a post of devices, from whether each has a port. -/
def deviceTags (hasPort : List Bool) : List Bytes := addTags (hasPort.map deviceFields)

/-- The tags of a post of `n` videos. -/
def contentTags (n : ℕ) : List Bytes := addTags (List.replicate n contentFields)

theorem tagsOf_devices {haname : Bytes} {devices : List Device} (hhaname : Plain haname)
    (hdevices : ∀ i ∈ devices, PlainDevice i) :
    tagsOf (addText (devices.map (deviceDoc haname))) =
      deviceTags (devices.map fun i => i.port ≠ []) := by
  have hplain : ∀ doc ∈ devices.map (deviceDoc haname), ∀ field ∈ doc, Plain field.2 := by
    intro doc hdoc
    obtain ⟨i, hi, rfl⟩ := List.mem_map.mp hdoc
    exact plain_deviceDoc hhaname (hdevices i hi)
  rw [tagsOf, (hasTags_add hplain).tags_eq, deviceTags, List.map_map, List.map_map]
  exact congrArg addTags (List.map_congr_left fun i _ => fields_deviceDoc haname i)

theorem tagsOf_videos {device : Bytes} {videos : List Video} (hdevice : Plain device)
    (hvideos : ∀ i ∈ videos, PlainVideo i) {docs : List SolrDoc}
    (h : handleGetcontentlist device videos = some docs) :
    tagsOf (addText docs) = contentTags (videos.countP (·.access = .isPublic)) := by
  have hdocs : docs = (videos.filter (·.access = .isPublic)).map (contentDoc device) := by
    rw [← handleGetcontentlist_eq, h, Option.getD_some]
  have hplain : ∀ doc ∈ docs, ∀ field ∈ doc, Plain field.2 := by
    intro doc hdoc
    rw [hdocs] at hdoc
    obtain ⟨i, hi, rfl⟩ := List.mem_map.mp hdoc
    exact plain_contentDoc hdevice (hvideos i (List.mem_of_mem_filter hi))
  have hfields : (fun doc : SolrDoc => doc.map Prod.fst) ∘ contentDoc device =
      Function.const Video contentFields := by
    funext i
    exact fields_contentDoc device i
  rw [tagsOf, (hasTags_add hplain).tags_eq, contentTags, hdocs, List.map_map, hfields,
    List.countP_eq_length_filter, List.map_const]

/-- **No tag injection.**  Whatever the answers contain, the tags of what is posted are those of
the devices with and without a port, and of the number of public videos. -/
theorem no_tag_injection {content : Bytes} {gall : Getall} (h : parseGetall content = some gall) :
    (∀ docs newtimestamp, Action.postDevices docs newtimestamp ∈ handlePoll (parseGetall content) →
      tagsOf (addText docs) = deviceTags (gall.devices.map fun i => i.port ≠ [])) ∧
    ∀ update ∈ gall.updates, ∀ body videos, parseContmeta body = some videos →
      ∀ docs, handleGetcontentlist (update ++ (text "." ++ gall.haname)) videos = some docs →
        tagsOf (addText docs) = contentTags (videos.countP (·.access = .isPublic)) := by
  have hgall := of_parseAll yields_getallParser h
  refine ⟨fun docs newtimestamp hmem => ?_, fun update hupdate body videos hbody docs hdocs => ?_⟩
  · rw [h] at hmem
    rw [eq_of_postDevices_mem hmem]
    exact tagsOf_devices hgall.haname hgall.devices
  · have hdot : Plain (text ".") := by decide +kernel
    have hdevice := (hgall.updates update hupdate).append (hdot.append hgall.haname)
    exact tagsOf_videos hdevice (of_parseAll yields_contmetaParser hbody) hdocs

/-- An answer with closing brackets in its names. -/
def closingBrackets : Bytes :=
  text "<getall><name>></name><neighbours></neighbours><devices><device>" ++
  (text "<owner></owner><name>/field></name><port></port><type></type><timestamp>7</timestamp>" ++
  (text "<location></location><description></description></device></devices>" ++
  text "<content updates>a</content updates></getall>"))

theorem closingBrackets_not_injected : ∃ gall, parseGetall closingBrackets = some gall ∧
    ∀ docs newtimestamp, Action.postDevices docs newtimestamp ∈ handlePoll (parseGetall closingBrackets) →
      tagsOf (addText docs) = deviceTags (gall.devices.map fun i => i.port ≠ []) := by
  have hparse : parseGetall closingBrackets = some ⟨[62], [], [⟨[], text "/field>", [], [], 7, [], []⟩],
      [text "a"]⟩ := by
    decide +kernel
  exact ⟨_, hparse, (no_tag_injection hparse).1⟩

end CrawlerParser
