/-
# The index of videos

For a list of videos the poller adds documents of the public ones; nothing removes a
document.  So the index has a document for every video that has been public at some
time, as it was when it was last public: `mem_contentOf_iff`.
-/
import Pweb.Crawler.Poller
import Pweb.Foundation.KeyedIndex

namespace Poller

open KeyedIndex

/-- An answer to a request for the videos of a device. -/
structure ContentAnswer where
  device : Bytes
  videos : List Video

/-- The index after the posts for these answers, in this order. -/
def contentIndex (answers : List ContentAnswer) : List SolrDoc :=
  build (SolrDoc.field · .rKey)
    (answers.flatMap fun a => (handleGetcontentlist a.device a.videos).getD [])

/-- The documents of a device in the index. -/
def contentOf (device : Bytes) (answers : List ContentAnswer) : List SolrDoc :=
  (contentIndex answers).filter fun doc => doc.field .cDeviceName = some device

/-- The public videos in the answers for a device, in the order of the answers. -/
def publicVideos (device : Bytes) (answers : List ContentAnswer) : List Video :=
  (answers.filter fun a => a.device = device).flatMap fun a =>
    a.videos.filter fun i => i.access = .isPublic

/-- The video `id` of a device, when it was last public. -/
def lastPublic (device : Bytes) (answers : List ContentAnswer) (id : ℤ) : Option Video :=
  ((publicVideos device answers).filter fun i => i.id = id).getLast?

/-- The index shows exactly the public videos of the latest answer for a device. -/
def ShowsLatest (past : List ContentAnswer) (latest : ContentAnswer) : Prop :=
  ∀ doc, doc ∈ contentOf latest.device (past ++ [latest]) ↔
    ∃ i ∈ latest.videos, i.access = .isPublic ∧ doc = contentDoc latest.device i

/-! ## Keys -/

variable {device device' : Bytes} {answers : List ContentAnswer} {id id' : ℤ} {i : Video}
  {doc : SolrDoc}

@[simp] theorem field_rKey_contentDoc :
    (contentDoc device i).field .rKey = some (contentKey device i.id) := rfl

@[simp] theorem field_cDeviceName_contentDoc :
    (contentDoc device i).field .cDeviceName = some device := rfl

/-- The last occurrence of a byte splits a string. -/
theorem append_cons_inj_of_not_mem {a b s s' : Bytes} {x : UInt8} (hs : x ∉ s) (hs' : x ∉ s')
    (h : a ++ x :: s = b ++ x :: s') : a = b ∧ s = s' := by
  rcases List.append_eq_append_iff.mp h with ⟨c, hb, hc⟩ | ⟨c, ha, hc⟩
  · cases c with
    | nil => exact ⟨by rw [hb, List.append_nil], (List.cons.inj hc).2⟩
    | cons y c =>
        obtain ⟨-, rfl⟩ := List.cons.inj hc
        exact absurd (List.mem_append_right c List.mem_cons_self) hs
  · cases c with
    | nil => exact ⟨by rw [ha, List.append_nil], (List.cons.inj hc).2.symm⟩
    | cons y c =>
        obtain ⟨-, rfl⟩ := List.cons.inj hc
        exact absurd (List.mem_append_right c List.mem_cons_self) hs'

/-- **The key tells the device and the video.** -/
theorem contentKey_inj (h : contentKey device id = contentKey device' id') :
    device = device' ∧ id = id' := by
  have hletter : ∀ z : ℤ, (100 : UInt8) ∉ decimal z := fun z hmem =>
    absurd (mem_decimal hmem) (by decide)
  have htext : text "-vid" = [45, 118, 105] ++ [100] := by decide +kernel
  rw [contentKey, contentKey, htext, List.append_assoc, List.append_assoc, ← List.append_assoc,
    ← List.append_assoc device', List.singleton_append, List.singleton_append] at h
  obtain ⟨hdevice, hid⟩ := append_cons_inj_of_not_mem (hletter id) (hletter id') h
  exact ⟨List.append_cancel_right hdevice, decimal_injective hid⟩

/-! ## Documents in the index -/

theorem publicVideos_cons (device : Bytes) (a : ContentAnswer) (answers : List ContentAnswer) :
    publicVideos device (a :: answers) =
      (if a.device = device then a.videos.filter fun i => i.access = .isPublic else []) ++
        publicVideos device answers := by
  rw [publicVideos, List.filter_cons]
  by_cases hdevice : a.device = device
  · rw [if_pos (decide_eq_true hdevice), if_pos hdevice, List.flatMap_cons]
    rfl
  · rw [if_neg (by simpa using hdevice), if_neg hdevice]
    rfl

/-- The documents posted under the key of a video. -/
theorem filter_posted (device : Bytes) (answers : List ContentAnswer) (id : ℤ) :
    ((answers.flatMap fun a => (handleGetcontentlist a.device a.videos).getD []).filter fun doc =>
      doc.field .rKey = some (contentKey device id)) =
        ((publicVideos device answers).filter fun i => i.id = id).map (contentDoc device) := by
  induction answers with
  | nil => rfl
  | cons a answers ih =>
      rw [List.flatMap_cons, List.filter_append, ih, handleGetcontentlist_eq, publicVideos_cons,
        List.filter_append, List.map_append, List.append_left_inj]
      split_ifs with hdevice
      · obtain rfl := hdevice
        rw [List.filter_map]
        congr 1
        apply List.filter_congr
        intro i _
        rw [Function.comp_apply, field_rKey_contentDoc, decide_eq_decide, Option.some_inj]
        exact ⟨fun h => (contentKey_inj h).2, fun h => by rw [h]⟩
      · apply List.filter_eq_nil_iff.mpr
        intro doc hdoc
        obtain ⟨i, -, rfl⟩ := List.mem_map.mp hdoc
        rw [field_rKey_contentDoc, decide_eq_true_iff, Option.some_inj]
        intro h
        exact hdevice (contentKey_inj h).1

theorem mem_contentIndex_iff : contentDoc device i ∈ contentIndex answers ↔
    (lastPublic device answers i.id).map (contentDoc device) = some (contentDoc device i) := by
  rw [contentIndex, mem_build_iff, field_rKey_contentDoc, filter_posted, List.getLast?_map]
  rfl

/-- **The documents of a device** are those of the videos that have been public, as they were
when they were last public; no document occurs twice. -/
theorem mem_contentOf_iff (device : Bytes) (answers : List ContentAnswer) :
    (contentOf device answers).Nodup ∧ ∀ doc, doc ∈ contentOf device answers ↔
      ∃ i, lastPublic device answers i.id = some i ∧ doc = contentDoc device i := by
  constructor
  · exact (List.Nodup.of_map _ (nodup_build _ _)).filter _
  intro doc
  rw [contentOf, List.mem_filter, decide_eq_true_iff]
  constructor
  · rintro ⟨hdoc, hdevice⟩
    obtain ⟨j, rfl⟩ : ∃ j, doc = contentDoc device j := by
      rw [contentIndex, mem_build_iff] at hdoc
      obtain ⟨a, -, ha⟩ := List.mem_flatMap.mp (List.mem_filter.mp (List.mem_of_getLast? hdoc)).1
      rw [handleGetcontentlist_eq] at ha
      obtain ⟨j, -, rfl⟩ := List.mem_map.mp ha
      rw [field_cDeviceName_contentDoc, Option.some_inj] at hdevice
      exact ⟨j, by rw [hdevice]⟩
    obtain ⟨i, hi, heq⟩ := Option.map_eq_some_iff.mp (mem_contentIndex_iff.mp hdoc)
    have hid := (List.mem_filter.mp (List.mem_of_getLast? hi)).2
    rw [decide_eq_true_iff] at hid
    exact ⟨i, by rwa [hid], heq.symm⟩
  · rintro ⟨i, hi, rfl⟩
    exact ⟨mem_contentIndex_iff.mpr (by rw [hi]; rfl), rfl⟩

/-- **A video that has become private** is still shown. -/
theorem private_video_still_shown : ¬ ShowsLatest
    [⟨[100], [⟨1, [], 0, [], [], .isPublic⟩]⟩] ⟨[100], [⟨1, [], 0, [], [], .isPrivate⟩]⟩ := by
  intro h
  have hshown : contentDoc [100] ⟨1, [], 0, [], [], .isPublic⟩ ∈ contentOf [100]
      [⟨[100], [⟨1, [], 0, [], [], .isPublic⟩]⟩, ⟨[100], [⟨1, [], 0, [], [], .isPrivate⟩]⟩] := by
    decide +kernel
  obtain ⟨i, hi, hpublic, -⟩ := (h _).mp hshown
  obtain rfl := List.mem_singleton.mp hi
  cases hpublic

end Poller
