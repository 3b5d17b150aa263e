/-
# The query strings of the web interface (`common/query_string_parser.h`)

`QueryStringParser::parse` cuts a query string at every `&` and each piece at every `=`,
reading it with `getline`, and adds the first two parts of each piece to a table.  It does
not check that there are two: behind a last separator `getline` returns no empty line, so a
piece that is empty, has no `=` or ends with its first one has fewer.

`parses_iff` : a query string is parsed, with the first value for each key, exactly if all
of its pieces are complete.
-/
import Pweb.Foundation.Tokens
import Pweb.Klink.NameDb
import Pweb.Shared.Text

namespace Klink

open Tokens

/-- `'&'`. -/
def ampersand : UInt8 := 38

/-- `'='`. -/
def equals : UInt8 := 61

/-- `QueryStringParser` : its `key_value_store`. -/
abbrev QueryStringParser := LookupTable Bytes Bytes

namespace QueryStringParser

/-- The constructor. -/
def new : QueryStringParser := LookupTable.empty

/-- `split`. -/
def split (s : Bytes) (delim : UInt8) : List Bytes := getlines delim s

/-- A round of the loop of `parse`; `none` for a part that is not there. -/
def addPair (qsp : QueryStringParser) (kvp : Bytes) : Option QueryStringParser := do
  let kv := split kvp equals
  let key ← kv[0]?
  let value ← kv[1]?
  return qsp.add key value

/-- `parse`. -/
def parse (qsp : QueryStringParser) (queryString : Bytes) : Option QueryStringParser :=
  (split queryString ampersand).foldlM addPair qsp

/-- `get_value`. -/
def getValue (qsp : QueryStringParser) (key : Bytes) : Option Bytes := qsp.lookup key

/-! ## What the parser is for -/

/-- The text before the first `=`. -/
def keyOf (piece : Bytes) : Bytes := piece.takeWhile (· ≠ equals)

/-- The text between the first `=` and the second one, or the end. -/
def valueOf (piece : Bytes) : Bytes :=
  ((piece.dropWhile (· ≠ equals)).drop 1).takeWhile (· ≠ equals)

/-- The value of a key: that of the first piece with the key before its first `=`. -/
def valueFor (queryString key : Bytes) : Option Bytes :=
  ((queryString.splitOn ampersand).find? fun piece => equals ∈ piece ∧ keyOf piece = key).map
    valueOf

/-- The query string is parsed, and every key has its value. -/
def Parses (queryString : Bytes) : Prop :=
  ∃ qsp, new.parse queryString = some qsp ∧ ∀ key, qsp.getValue key = valueFor queryString key

/-- There is something behind the first `=`. -/
def Complete (piece : Bytes) : Prop :=
  ∃ key value, piece = key ++ equals :: value ∧ equals ∉ key ∧ value ≠ []

/-- All pieces are complete, except that the last one may be empty. -/
def CompletePieces (queryString : Bytes) : Prop :=
  ∀ u piece v, queryString.splitOn ampersand = u ++ piece :: v →
    Complete piece ∨ piece = [] ∧ v = []

variable {piece key value queryString : Bytes} {pieces : List Bytes} {qsp : QueryStringParser}

/-! ## A piece -/

theorem keyOf_eq (h : equals ∉ key) (value : Bytes) : keyOf (key ++ equals :: value) = key := by
  rw [keyOf, List.takeWhile_append_of_pos (ne_of_free h)]
  simp

theorem valueOf_eq (h : equals ∉ key) (value : Bytes) :
    valueOf (key ++ equals :: value) = value.takeWhile (· ≠ equals) := by
  rw [valueOf, List.dropWhile_append_of_pos (ne_of_free h)]
  simp

/-- The first line of a string that is not empty. -/
theorem head?_split (hne : value ≠ []) :
    (split value equals).head? = some (value.takeWhile (· ≠ equals)) := by
  by_cases hmem : equals ∈ value
  · obtain ⟨u, rest, rfl, hu⟩ := List.eq_append_cons_of_mem hmem
    have hkey := keyOf_eq hu rest
    rw [keyOf] at hkey
    rw [split, getlines_append_cons hu, List.head?_cons, hkey]
  · rw [split, getlines_of_free hmem, if_neg hne, List.head?_cons,
      List.takeWhile_eq_self_iff.mpr (ne_of_free hmem)]

/-- A complete piece has a key and a value. -/
theorem addPair_of_complete (h : Complete piece) (qsp : QueryStringParser) :
    addPair qsp piece = some (qsp.add (keyOf piece) (valueOf piece)) := by
  obtain ⟨key, value, rfl, hkey, hne⟩ := h
  have hvalue := head?_split hne
  rw [List.head?_eq_getElem?] at hvalue
  rw [keyOf_eq hkey, valueOf_eq hkey, addPair, split, getlines_append_cons hkey]
  show (some key).bind (fun key => (split value equals)[0]?.bind _) = _
  rw [hvalue]
  rfl

/-- Any other piece has fewer than two parts. -/
theorem addPair_of_not_complete (h : ¬ Complete piece) (qsp : QueryStringParser) :
    addPair qsp piece = none := by
  have hsecond : (split piece equals)[1]? = none := by
    by_cases hmem : equals ∈ piece
    · obtain ⟨key, rest, rfl, hkey⟩ := List.eq_append_cons_of_mem hmem
      obtain rfl : rest = [] := by
        by_contra hne
        exact h ⟨key, rest, rfl, hkey, hne⟩
      rw [split, getlines_append_cons hkey]
      rfl
    · rw [split, getlines_of_free hmem]
      split
      · rfl
      · rfl
  rw [addPair, hsecond]
  cases (split piece equals)[0]? <;> rfl

/-! ## The loop -/

/-- **The loop of `parse`** ends if all pieces are complete. -/
theorem foldlM_addPair_isSome (qsp : QueryStringParser) :
    (pieces.foldlM addPair qsp).isSome ↔ ∀ piece ∈ pieces, Complete piece := by
  induction pieces generalizing qsp with
  | nil => simp
  | cons piece pieces ih =>
      rw [List.foldlM_cons, List.forall_mem_cons]
      by_cases hpiece : Complete piece
      · rw [addPair_of_complete hpiece]
        exact (ih _).trans (and_iff_right hpiece).symm
      · rw [addPair_of_not_complete hpiece]
        exact iff_of_false Bool.noConfusion fun h => hpiece h.1

theorem foldlM_addPair (h : ∀ piece ∈ pieces, Complete piece) (qsp : QueryStringParser) :
    pieces.foldlM addPair qsp =
      some ((pieces.map fun piece => (keyOf piece, valueOf piece)).foldl
        (fun qsp e => qsp.add e.1 e.2) qsp) := by
  induction pieces generalizing qsp with
  | nil => rfl
  | cons piece pieces ih =>
      rw [List.forall_mem_cons] at h
      rw [List.foldlM_cons, addPair_of_complete h.1]
      exact ih h.2 _

/-- The first value of a key among complete pieces. -/
theorem findEntry_pairs (h : ∀ piece ∈ pieces, Complete piece) (key : Bytes) :
    LookupTable.findEntry key (pieces.map fun piece => (keyOf piece, valueOf piece)) =
      (pieces.find? fun piece => equals ∈ piece ∧ keyOf piece = key).map valueOf := by
  induction pieces with
  | nil => rfl
  | cons piece pieces ih =>
      rw [List.forall_mem_cons] at h
      have hequals : equals ∈ piece := by
        obtain ⟨key, value, rfl, -⟩ := h.1
        simp
      rw [List.map_cons, LookupTable.findEntry_cons, ih h.2, List.find?_cons]
      simp only [rank_string_inj, hequals, true_and]
      by_cases hkey : keyOf piece = key
      · rw [if_pos hkey, decide_eq_true hkey, Option.map_some]
      · rw [if_neg hkey, decide_eq_false hkey]

theorem parse_isSome_iff (qsp : QueryStringParser) :
    (qsp.parse queryString).isSome ↔ CompletePieces queryString :=
  (foldlM_addPair_isSome qsp).trans forall_mem_getlines_iff

/-- A query string that is parsed gives every key its value. -/
theorem getValue_of_parse (hparse : new.parse queryString = some qsp) (key : Bytes) :
    qsp.getValue key = valueFor queryString key := by
  have hpieces : ∀ piece ∈ split queryString ampersand, Complete piece := by
    rw [← foldlM_addPair_isSome new]
    exact Option.isSome_of_mem hparse
  rw [parse, foldlM_addPair hpieces] at hparse
  obtain rfl := Option.some.inj hparse
  rw [getValue, LookupTable.lookup_foldl_add_eq, findEntry_pairs hpieces, new,
    LookupTable.lookup_empty, Option.none_or, valueFor, split, getlines_eq,
    find?_dropTrailing (by simp)]

/-- **The query strings that are parsed**, with the first value of each key: those whose pieces
are complete. -/
theorem parses_iff (queryString : Bytes) : Parses queryString ↔ CompletePieces queryString := by
  rw [← parse_isSome_iff new, Option.isSome_iff_exists]
  constructor
  · rintro ⟨qsp, hparse, -⟩
    exact ⟨qsp, hparse⟩
  · rintro ⟨qsp, hparse⟩
    exact ⟨qsp, hparse, getValue_of_parse hparse⟩

/-- A query without a value reads beyond the parts of its piece. -/
theorem method_not_parsed : ¬ ∀ queryString, Parses queryString := by
  intro hall
  obtain ⟨qsp, hparse, -⟩ := hall (text "method")
  have hnone : new.parse (text "method") = none := by decide +kernel
  rw [hnone] at hparse
  cases hparse

end QueryStringParser

end Klink
