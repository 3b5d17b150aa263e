/-
# Removing suffixes from names

A name ends with a suffix if it does so when the case of ASCII letters is ignored; the
configured suffixes are turned into lower case by `main` before `remove_suffix` uses them.

`removesFirst_iff` : `remove_suffix` strips the first suffix that the name ends with, unless
a suffix that is longer than the name stands before it: then it throws.
-/
import Pweb.Dnsgw.AbsMessage

open ProtocolHelper

namespace AbsMessage

/-- The loop over the suffixes in `main`: `std::transform` with `::tolower`. -/
def lowerSuffixes (suffixes : List Bytes) : List Bytes := suffixes.map (·.map toLower)

/-! ## What should be removed -/

/-- The name ends with the suffix, whatever the case of the letters. -/
def EndsWith (name suffix : Bytes) : Prop := suffix.map toLower <:+ name.map toLower

instance (name suffix : Bytes) : Decidable (EndsWith name suffix) :=
  inferInstanceAs (Decidable (_ <:+ _))

/-- The name without the first suffix that it ends with, or an exception if there is none. -/
def RemovesFirst (name : Bytes) (suffixes : List Bytes) (result : Except Exn Bytes) : Prop :=
  match suffixes.find? fun suffix => EndsWith name suffix with
  | some suffix => result = .ok (name.take (name.length - suffix.length))
  | none => ∃ e, result = .error e

/-- If the name ends with one of the suffixes, none that is longer than the name stands before
the first such suffix. -/
def NoLongerBefore (name : Bytes) (suffixes : List Bytes) : Prop :=
  (∃ suffix ∈ suffixes, EndsWith name suffix) →
    ∀ suffix ∈ suffixes.takeWhile fun suffix => ¬ EndsWith name suffix,
      suffix.length ≤ name.length

variable {name suffix : Bytes} {suffixes : List Bytes}

theorem EndsWith.length_le (h : EndsWith name suffix) : suffix.length ≤ name.length := by
  have hle := List.IsSuffix.length_le h
  rwa [List.length_map, List.length_map] at hle

/-- The comparison in the loop: the end of the name, in lower case. -/
theorem map_drop_eq_iff :
    (name.drop (name.length - suffix.length)).map toLower = suffix.map toLower ↔
      EndsWith name suffix := by
  rw [EndsWith, List.suffix_iff_eq_drop, List.map_drop, List.length_map, List.length_map]
  exact eq_comm

/-! ## What is removed -/

/-- A suffix that the name ends with is stripped. -/
theorem removeSuffix_of_endsWith (h : EndsWith name suffix) :
    removeSuffix name (lowerSuffixes (suffix :: suffixes))
      = .ok (name.take (name.length - suffix.length)) := by
  rw [lowerSuffixes, List.map_cons, removeSuffix, List.length_map,
    if_neg (not_lt.mpr h.length_le), if_pos (map_drop_eq_iff.mpr h)]

/-- A suffix that is longer than the name ends the search. -/
theorem removeSuffix_of_longer (h : name.length < suffix.length) :
    removeSuffix name (lowerSuffixes (suffix :: suffixes)) = .error .outOfRange := by
  rw [lowerSuffixes, List.map_cons, removeSuffix, List.length_map, if_pos h]

/-- Any other suffix is passed over. -/
theorem removeSuffix_of_shorter (hle : suffix.length ≤ name.length)
    (h : ¬ EndsWith name suffix) :
    removeSuffix name (lowerSuffixes (suffix :: suffixes))
      = removeSuffix name (lowerSuffixes suffixes) := by
  rw [lowerSuffixes, List.map_cons, removeSuffix, List.length_map, if_neg (not_lt.mpr hle),
    if_neg (fun heq => h (map_drop_eq_iff.mp heq))]
  rfl

theorem removesFirst_cons_of_not (h : ¬ EndsWith name suffix) (result : Except Exn Bytes) :
    RemovesFirst name (suffix :: suffixes) result ↔ RemovesFirst name suffixes result := by
  rw [RemovesFirst, List.find?_cons_of_neg (by simpa using h), RemovesFirst]

/-- An exception is right if the name ends with none of the suffixes. -/
theorem removesFirst_error_iff {e : Exn} :
    RemovesFirst name suffixes (.error e) ↔ ¬ ∃ suffix ∈ suffixes, EndsWith name suffix := by
  rw [RemovesFirst]
  cases hfind : suffixes.find? fun suffix => EndsWith name suffix with
  | none =>
      have hnone := List.find?_eq_none.mp hfind
      simp only [decide_eq_true_eq] at hnone
      constructor
      · rintro - ⟨suffix, hmem, hends⟩
        exact hnone suffix hmem hends
      · exact fun _ => ⟨e, rfl⟩
  | some suffix =>
      have hends := List.find?_some hfind
      constructor
      · rintro ⟨⟩
      · intro h
        exact absurd ⟨suffix, List.mem_of_find?_eq_some hfind, of_decide_eq_true hends⟩ h

/-- **Suffix removal.**  For every name and list of suffixes, the first suffix that the name
ends with is removed exactly if no suffix longer than the name stands before it. -/
theorem removesFirst_iff (name : Bytes) (suffixes : List Bytes) :
    RemovesFirst name suffixes (removeSuffix name (lowerSuffixes suffixes)) ↔
      NoLongerBefore name suffixes := by
  induction suffixes with
  | nil =>
      constructor
      · rintro - ⟨suffix, hmem, -⟩
        cases hmem
      · exact fun _ => ⟨_, rfl⟩
  | cons suffix suffixes ih =>
      by_cases hends : EndsWith name suffix
      · -- the first suffix is removed, and none stands before it
        have hnone : (suffix :: suffixes).takeWhile (fun suffix => ¬ EndsWith name suffix) = [] :=
          List.takeWhile_cons_of_neg (by simpa using hends)
        rw [removeSuffix_of_endsWith hends, RemovesFirst,
          List.find?_cons_of_pos (by simpa using hends), NoLongerBefore, hnone]
        simp
      · have htake : (suffix :: suffixes).takeWhile (fun suffix => ¬ EndsWith name suffix)
            = suffix :: suffixes.takeWhile fun suffix => ¬ EndsWith name suffix :=
          List.takeWhile_cons_of_pos (by simpa using hends)
        have hexists : (∃ s ∈ suffix :: suffixes, EndsWith name s) ↔
            ∃ s ∈ suffixes, EndsWith name s := by
          rw [List.exists_mem_cons_iff]
          exact or_iff_right hends
        rw [NoLongerBefore, hexists, htake, List.forall_mem_cons]
        rcases Nat.lt_or_ge name.length suffix.length with hlong | hle
        · -- the search ends with `std::out_of_range`
          rw [removeSuffix_of_longer hlong, removesFirst_error_iff, hexists]
          constructor
          · exact fun hno hsome => absurd hsome hno
          · intro h hsome
            exact absurd (h hsome).1 (not_le.mpr hlong)
        · rw [removeSuffix_of_shorter hle hends, removesFirst_cons_of_not hends, ih,
            NoLongerBefore]
          simp only [hle, true_and]

/-- **A longer suffix can hide a suffix**: the name `a.b` ends with `.b`, but the suffix `.long`
is tried first. -/
theorem suffix_can_be_hidden :
    ¬ RemovesFirst [97, 46, 98] [[46, 108, 111, 110, 103], [46, 98]]
      (removeSuffix [97, 46, 98] (lowerSuffixes [[46, 108, 111, 110, 103], [46, 98]])) := by
  have herror : removeSuffix [97, 46, 98] (lowerSuffixes [[46, 108, 111, 110, 103], [46, 98]])
      = .error .outOfRange := rfl
  rw [herror, removesFirst_error_iff, not_not]
  exact ⟨[46, 98], by decide, by decide⟩

end AbsMessage
