/-
# Pollers (`crawler_poller/poller.cpp`)

A poller asks its home agent for the devices that have changed, sends these to the
search index as documents of `Solr`, and fetches the lists of videos of the devices
whose content has changed; of a list it sends the public videos.

The handlers are functions from a parsed answer to what they send.  Logging and the
instrumentation of the queries are left out.
-/
import Pweb.Shared.Text

namespace Poller

/-! ## Parsed answers (`crawler_parser/parser.hpp`) -/

/-- `parser::homeagent`. -/
structure HomeAgent where
  hostname : Bytes
  description : Bytes
  port : Bytes
  deriving DecidableEq, Repr

/-- `parser::device`. -/
structure Device where
  owner : Bytes
  name : Bytes
  port : Bytes
  type : Bytes
  timestamp : ℤ
  location : Bytes
  description : Bytes
  deriving DecidableEq, Repr

/-- `parser::getall`. -/
structure Getall where
  haname : Bytes
  homeagents : List HomeAgent
  devices : List Device
  updates : List Bytes
  deriving DecidableEq, Repr

/-- `parser::ACCESS_LEVEL`. -/
inductive AccessLevel where
  | isPublic
  | isPrivate
  | notShared
  deriving DecidableEq, Repr

/-- `parser::video`. -/
structure Video where
  id : ℤ
  title : Bytes
  filesize : ℤ
  mimetype : Bytes
  description : Bytes
  access : AccessLevel
  deriving DecidableEq, Repr

/-! ## Documents -/

/-- The names of the fields of a document. -/
inductive SolrField where
  | rType | rKey | dOwner | dName | dHome | dPort | dType | dTimestamp | dLocation | description
  | cCtid | cId | cDeviceName | cTitle | cFilesize | cMimetype
  deriving DecidableEq, Repr

/-- A `<doc>`: its fields, in order. -/
abbrev SolrDoc := List (SolrField × Bytes)

/-- The value of a field. -/
def SolrDoc.field (doc : SolrDoc) (name : SolrField) : Option Bytes :=
  (doc.find? fun f => f.1 = name).map Prod.snd

/-- The document of a device. -/
def deviceDoc (haname : Bytes) (i : Device) : SolrDoc :=
  [(.rType, text "device"), (.rKey, i.name), (.dOwner, i.owner),
    (.dName, i.name ++ (text "." ++ haname)), (.dHome, haname)] ++
  ((if i.port = [] then [] else [(.dPort, i.port)]) ++
  [(.dType, i.type), (.dTimestamp, decimal i.timestamp), (.dLocation, i.location),
    (.description, i.description)])

/-- The key of a video in the index. -/
def contentKey (device : Bytes) (id : ℤ) : Bytes := device ++ (text "-vid" ++ decimal id)

/-- The document of a video. -/
def contentDoc (device : Bytes) (i : Video) : SolrDoc :=
  [(.rType, text "content"), (.rKey, contentKey device i.id), (.cCtid, contentKey device i.id),
    (.cId, decimal i.id), (.cDeviceName, device), (.cTitle, i.title),
    (.cFilesize, decimal i.filesize), (.cMimetype, i.mimetype), (.description, i.description)]

/-! ## Handlers -/

/-- What a handler does. -/
inductive Action where
  /-- `signals::home_agent_discovered`. -/
  | homeAgentDiscovered (hostname : Bytes)
  /-- `instrumenter.set_description`. -/
  | setDescription (hostname description : Bytes)
  /-- Post documents; `handle_post` receives the new time stamp. -/
  | postDevices (docs : List SolrDoc) (newtimestamp : ℤ)
  /-- Wait for the next poll. -/
  | start
  /-- Fetch the videos of an updated device. -/
  | getContentList (update device : Bytes)
  deriving DecidableEq, Repr

/-- The loop of `handle_poll` over the devices, with the documents written so far and the
largest time stamp. -/
def deviceLoop (haname : Bytes) : List Device → List SolrDoc → ℤ → List SolrDoc × ℤ
  | [], out, newtimestamp => (out, newtimestamp)
  | i :: devices, out, newtimestamp =>
    deviceLoop haname devices (out ++ [deviceDoc haname i])
      (if i.timestamp > newtimestamp then i.timestamp else newtimestamp)

/-- `handle_poll` after an answer; `none` if it does not parse. -/
def handlePoll (parsed : Option Getall) : List Action :=
  match parsed with
  | none => [.start]
  | some gall =>
    gall.homeagents.flatMap
      (fun i => [.homeAgentDiscovered i.hostname, .setDescription i.hostname i.description]) ++
    ((if gall.devices = [] then [.start]
      else
        let (docs, newtimestamp) := deviceLoop gall.haname gall.devices [] 0
        [.postDevices docs newtimestamp]) ++
    (gall.updates.filter (· ≠ [])).map
      fun i => .getContentList i (i ++ (text "." ++ gall.haname)))

/-- The value of `timestamp_` after `handle_post`; whether `code` is `CURLE_OK` decides. -/
def handlePost (ok : Bool) (newtimestamp timestamp : ℤ) : ℤ :=
  if ok then newtimestamp + 1 else timestamp

/-- The loop of `handle_getcontentlist`, with the documents written so far and their number. -/
def videoLoop (device : Bytes) : List Video → List SolrDoc → ℕ → List SolrDoc × ℕ
  | [], out, pubcount => (out, pubcount)
  | i :: videos, out, pubcount =>
    if i.access = .isPublic then
      videoLoop device videos (out ++ [contentDoc device i]) (pubcount + 1)
    else videoLoop device videos out pubcount

/-- `handle_getcontentlist` after an answer that parses: the documents posted, if any. -/
def handleGetcontentlist (device : Bytes) (videos : List Video) : Option (List SolrDoc) :=
  let (docs, pubcount) := videoLoop device videos [] 0
  if pubcount > 0 then some docs else none

/-! ## What the loops compute -/

theorem deviceLoop_eq (haname : Bytes) (devices : List Device) (out : List SolrDoc) (t : ℤ) :
    deviceLoop haname devices out t =
      (out ++ devices.map (deviceDoc haname), (devices.map Device.timestamp).foldl max t) := by
  induction devices generalizing out t with
  | nil => rw [deviceLoop, List.map_nil, List.append_nil, List.map_nil, List.foldl_nil]
  | cons i devices ih =>
      have hmax : (if i.timestamp > t then i.timestamp else t) = max t i.timestamp := by
        rw [max_def]
        split_ifs with h h'
        · rfl
        · omega
        · omega
        · rfl
      rw [deviceLoop, ih, hmax, List.map_cons, List.map_cons, List.foldl_cons, List.append_assoc,
        List.singleton_append]

theorem videoLoop_eq (device : Bytes) (videos : List Video) (out : List SolrDoc) (n : ℕ) :
    videoLoop device videos out n =
      (out ++ (videos.filter (·.access = .isPublic)).map (contentDoc device),
        n + (videos.filter (·.access = .isPublic)).length) := by
  induction videos generalizing out n with
  | nil =>
      rw [videoLoop, List.filter_nil, List.map_nil, List.append_nil, List.length_nil, Nat.add_zero]
  | cons i videos ih =>
      rw [videoLoop]
      split_ifs with hpublic
      · rw [ih, List.filter_cons_of_pos (by simpa using hpublic), List.map_cons, List.length_cons,
          List.append_assoc, List.singleton_append, Nat.add_right_comm, Nat.add_assoc]
      · rw [ih, List.filter_cons_of_neg (by simpa using hpublic)]

/-- A list without public videos is not posted. -/
theorem handleGetcontentlist_eq (device : Bytes) (videos : List Video) :
    (handleGetcontentlist device videos).getD [] =
      (videos.filter (·.access = .isPublic)).map (contentDoc device) := by
  rw [handleGetcontentlist, videoLoop_eq]
  dsimp only
  rw [List.nil_append, Nat.zero_add]
  split_ifs with hpos
  · rfl
  · rw [List.length_eq_zero_iff.mp (Nat.eq_zero_of_not_pos hpos)]
    rfl

/-- **The posts of `handle_poll`**: what is collected from posts of documents only comes from the
one post that is made if there are devices. -/
theorem flatMap_handlePoll {β : Type} (f : Action → List β)
    (hdiscovered : ∀ hostname, f (.homeAgentDiscovered hostname) = [])
    (hdescription : ∀ hostname description, f (.setDescription hostname description) = [])
    (hstart : f .start = []) (hcontent : ∀ update device, f (.getContentList update device) = [])
    (gall : Getall) : (handlePoll (some gall)).flatMap f =
      if gall.devices = [] then []
      else f (.postDevices (gall.devices.map (deviceDoc gall.haname))
        ((gall.devices.map Device.timestamp).foldl max 0)) := by
  have hagents : (gall.homeagents.flatMap fun i => [Action.homeAgentDiscovered i.hostname,
      .setDescription i.hostname i.description]).flatMap f = [] := by
    rw [List.flatMap_assoc]
    refine List.flatMap_eq_nil_iff.mpr fun i _ => ?_
    rw [List.flatMap_cons, List.flatMap_singleton, hdiscovered, hdescription, List.nil_append]
  have hupdates : ((gall.updates.filter (· ≠ [])).map fun i =>
      Action.getContentList i (i ++ (text "." ++ gall.haname))).flatMap f = [] := by
    rw [List.flatMap_map]
    exact List.flatMap_eq_nil_iff.mpr fun i _ => hcontent _ _
  rw [handlePoll, List.flatMap_append, List.flatMap_append, hagents, hupdates,
    List.nil_append, List.append_nil, deviceLoop_eq, List.nil_append]
  split_ifs with hnone
  · rw [List.flatMap_singleton, hstart]
  · rw [List.flatMap_singleton]

end Poller
