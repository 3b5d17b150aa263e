/-
# Indexes with one entry a key

Adding an entry replaces the one with the same key.  After a number of additions the
index has, for every key that occurred, exactly the last entry added under it.
-/
import Mathlib

namespace KeyedIndex

variable {α κ : Type} [DecidableEq κ]

/-- Add an entry, in place of the one with its key. -/
def put (key : α → κ) (index : List α) (x : α) : List α := index.filter (key · ≠ key x) ++ [x]

/-- The index after the entries `xs` have been added. -/
def build (key : α → κ) (xs : List α) : List α := xs.foldl (put key) []

variable {key : α → κ} {xs : List α} {x : α}

theorem build_concat (key : α → κ) (xs : List α) (x : α) :
    build key (xs ++ [x]) = put key (build key xs) x := by
  rw [build, List.foldl_append, build, List.foldl_cons, List.foldl_nil]

theorem filter_put (key : α → κ) (index : List α) (x : α) (k : κ) :
    (put key index x).filter (key · = k) =
      if key x = k then [x] else index.filter (key · = k) := by
  rw [put, List.filter_append, List.filter_filter]
  split_ifs with hk
  · have hnone : index.filter (fun y => decide (key y = k) && decide (key y ≠ key x)) = [] := by
      apply List.filter_eq_nil_iff.mpr
      intro y _
      simp [hk]
    rw [hnone, List.nil_append, List.filter_cons_of_pos (by simpa using hk), List.filter_nil]
  · have hsame : index.filter (fun y => decide (key y = k) && decide (key y ≠ key x))
        = index.filter (key · = k) := by
      apply List.filter_congr
      intro y _
      by_cases hy : key y = k
      · simp [hy, Ne.symm hk]
      · simp [hy]
    rw [hsame, List.filter_cons_of_neg (by simpa using hk), List.filter_nil, List.append_nil]

/-- **The last entry of every key.** -/
theorem filter_build (key : α → κ) (xs : List α) (k : κ) :
    (build key xs).filter (key · = k) = (xs.filter (key · = k)).getLast?.toList := by
  induction xs using List.reverseRecOn with
  | nil => rfl
  | append_singleton xs x ih =>
      rw [build_concat, filter_put, List.filter_append]
      split_ifs with hk
      · rw [List.filter_cons_of_pos (by simpa using hk), List.filter_nil, List.getLast?_concat]
        rfl
      · rw [List.filter_cons_of_neg (by simpa using hk), List.filter_nil, List.append_nil, ih]

/-- An entry is in the index if it is the last one of its key. -/
theorem mem_build_iff : x ∈ build key xs ↔ (xs.filter (key · = key x)).getLast? = some x := by
  have hmem : x ∈ build key xs ↔ x ∈ (build key xs).filter (key · = key x) := by
    simp
  rw [hmem, filter_build, Option.mem_toList]

/-- No two entries have the same key. -/
theorem nodup_build (key : α → κ) (xs : List α) : ((build key xs).map key).Nodup := by
  induction xs using List.reverseRecOn with
  | nil => exact List.nodup_nil
  | append_singleton xs x ih =>
      rw [build_concat, put, List.map_append, List.map_singleton, ← List.concat_eq_append,
        List.nodup_concat]
      constructor
      · rintro hmem
        obtain ⟨y, hy, heq⟩ := List.mem_map.mp hmem
        simpa [heq] using (List.mem_filter.mp hy).2
      · exact ih.sublist (List.filter_sublist.map key)

end KeyedIndex
