/-
# Separator-terminated strings and their tokens

`terminate sep ls` writes each string of `ls` followed by `sep`; `tokenize sep s`
cuts `s` at every `sep` and drops the empty pieces.  On strings that are
nonempty and free of `sep` the second undoes the first
(`tokenize_terminate_of_free`); in general tokenizing what `terminate` wrote
splits every string further (`tokenize_terminate`), never costs more room
(`cost_tokenize_le`, `cost_tokenize_add_count`), and gives back the strings only if none of them contains
the separator (`tokenize_terminate_eq_iff`).

`getlines sep s` is what reading line after line up to the end of input gives: the pieces
between separators, without an empty one at the end (`getlines_eq`).
-/
import Mathlib

namespace Tokens

variable {α : Type}

/-- Each string followed by the separator. -/
def terminate (sep : α) (ls : List (List α)) : List α := ls.flatMap (fun l => l ++ [sep])

/-- The room a list of strings takes when each one needs one place more than its length. -/
def cost (ts : List (List α)) : ℕ := (ts.map (fun t => t.length + 1)).sum

@[simp] theorem terminate_nil (sep : α) : terminate sep [] = [] := rfl

@[simp] theorem terminate_cons (sep : α) (l : List α) (ls : List (List α)) :
    terminate sep (l :: ls) = l ++ sep :: terminate sep ls := by
  simp [terminate]

@[simp] theorem cost_nil : cost ([] : List (List α)) = 0 := rfl

@[simp] theorem cost_cons (t : List α) (ts : List (List α)) :
    cost (t :: ts) = t.length + 1 + cost ts := by
  simp [cost]

@[simp] theorem cost_append (ts us : List (List α)) : cost (ts ++ us) = cost ts + cost us := by
  simp [cost]

/-- A terminated list is as long as the room of its strings. -/
theorem length_terminate (sep : α) (ls : List (List α)) :
    (terminate sep ls).length = cost ls := by
  induction ls with
  | nil => rfl
  | cons l ls ih =>
      rw [terminate_cons, List.length_append, List.length_cons, ih, cost_cons]
      omega

theorem cost_filter_le (p : List α → Bool) (ts : List (List α)) :
    cost (ts.filter p) ≤ cost ts := by
  induction ts with
  | nil => rfl
  | cons t ts ih =>
      rw [List.filter_cons]
      split
      · simp only [cost_cons]
        omega
      · rw [cost_cons]
        omega

variable [DecidableEq α]

/-- The nonempty pieces between separators. -/
def tokenize (sep : α) (s : List α) : List (List α) :=
  (s.splitOn sep).filter (fun t => t ≠ [])

/-! ## Cutting at a separator -/

/-- In a string without the separator every element is another one. -/
theorem ne_of_free {sep : α} {s : List α} (h : sep ∉ s) : ∀ c ∈ s, decide (c ≠ sep) = true := by
  intro c hc
  rw [decide_eq_true_iff]
  rintro rfl
  exact h hc

@[simp] theorem tokenize_nil (sep : α) : tokenize sep [] = [] := by
  simp [tokenize]

theorem tokenize_append_sep (sep : α) (l s : List α) :
    tokenize sep (l ++ sep :: s) = tokenize sep l ++ tokenize sep s := by
  rw [tokenize, List.splitOn_append_cons_self, List.filter_append]
  rfl

/-- Tokenizing a terminated list splits each string on its own. -/
theorem tokenize_terminate (sep : α) (ls : List (List α)) :
    tokenize sep (terminate sep ls) = ls.flatMap (tokenize sep) := by
  induction ls with
  | nil => simp
  | cons l ls ih => rw [terminate_cons, tokenize_append_sep, ih, List.flatMap_cons]

/-- A nonempty string without the separator is its own only token. -/
theorem tokenize_of_free {sep : α} {l : List α} (hne : l ≠ []) (hfree : sep ∉ l) :
    tokenize sep l = [l] := by
  rw [tokenize, List.splitOn_eq_singleton hfree]
  simp [hne]

/-- Strings that are nonempty and free of the separator come back unchanged. -/
theorem tokenize_terminate_of_free {sep : α} {ls : List (List α)}
    (h : ∀ l ∈ ls, l ≠ [] ∧ sep ∉ l) : tokenize sep (terminate sep ls) = ls := by
  rw [tokenize_terminate]
  induction ls with
  | nil => rfl
  | cons l ls ih =>
      obtain ⟨hl, hls⟩ := List.forall_mem_cons.mp h
      rw [List.flatMap_cons, tokenize_of_free hl.1 hl.2, ih hls, List.singleton_append]

/-! ## What the tokens are made of -/

/-- Pieces of a cut string contain no separator and are no longer than the string. -/
theorem mem_splitOn {sep : α} : ∀ {s t : List α}, t ∈ s.splitOn sep →
    sep ∉ t ∧ t.length ≤ s.length := by
  intro s
  induction s with
  | nil =>
      intro t ht
      rw [List.splitOn_nil, List.mem_singleton] at ht
      simp [ht]
  | cons a s ih =>
      intro t ht
      rw [List.splitOn_cons_eq_if_modifyHead] at ht
      by_cases ha : (a == sep) = true
      · rw [if_pos ha] at ht
        rcases List.mem_cons.mp ht with rfl | ht
        · simp
        · have h := ih ht
          exact ⟨h.1, by rw [List.length_cons]; omega⟩
      · rw [if_neg ha] at ht
        cases hs : s.splitOn sep with
        | nil => exact absurd hs (List.splitOn_ne_nil sep s)
        | cons p ps =>
            rw [hs] at ht ih
            rcases List.mem_cons.mp ht with rfl | ht
            · have h := ih List.mem_cons_self
              have hne : sep ≠ a := fun heq => ha (by simp [heq])
              exact ⟨by simp [hne, h.1], by simpa using h.2⟩
            · have h := ih (List.mem_cons_of_mem _ ht)
              exact ⟨h.1, by rw [List.length_cons]; omega⟩

/-- Tokens are nonempty, contain no separator and are no longer than the string. -/
theorem mem_tokenize {sep : α} {s t : List α} (ht : t ∈ tokenize sep s) :
    t ≠ [] ∧ sep ∉ t ∧ t.length ≤ s.length := by
  obtain ⟨hmem, hne⟩ := List.mem_filter.mp ht
  exact ⟨by simpa using hne, mem_splitOn hmem⟩

/-- A terminated list tokenizes to itself only if no string contains the separator. -/
theorem tokenize_terminate_eq_iff {sep : α} {ls : List (List α)} (hne : ∀ l ∈ ls, l ≠ []) :
    tokenize sep (terminate sep ls) = ls ↔ ∀ l ∈ ls, sep ∉ l := by
  constructor
  · intro heq l hl
    rw [← heq] at hl
    exact (mem_tokenize hl).2.1
  · intro hfree
    exact tokenize_terminate_of_free fun l hl => ⟨hne l hl, hfree l hl⟩

/-! ## Room -/

/-- Cutting trades every separator for the extra place of the piece before it. -/
theorem cost_splitOn (sep : α) (s : List α) : cost (s.splitOn sep) = s.length + 1 := by
  induction s with
  | nil => simp [cost]
  | cons a s ih =>
      rw [List.splitOn_cons_eq_if_modifyHead]
      by_cases ha : (a == sep) = true
      · rw [if_pos ha, cost_cons, ih, List.length_cons, List.length_nil]
        omega
      · rw [if_neg ha]
        cases hs : s.splitOn sep with
        | nil => exact absurd hs (List.splitOn_ne_nil sep s)
        | cons p ps =>
            rw [hs, cost_cons] at ih
            simp only [List.modifyHead_cons, cost_cons, List.length_cons]
            omega

/-- The tokens of a string need at most one place more than the string. -/
theorem cost_tokenize_le_succ (sep : α) (s : List α) : cost (tokenize sep s) ≤ s.length + 1 :=
  (cost_filter_le _ _).trans_eq (cost_splitOn sep s)

/-- Dropping the empty pieces saves one place each. -/
theorem cost_filter_add_count (ts : List (List α)) :
    cost (ts.filter fun t => t ≠ []) + ts.count [] = cost ts := by
  induction ts with
  | nil => rfl
  | cons t ts ih =>
      rw [cost_cons, ← ih]
      by_cases ht : t = []
      · subst ht
        rw [List.filter_cons_of_neg (by simp), List.count_cons_self, List.length_nil]
        omega
      · rw [List.filter_cons_of_pos (by simp [ht]), List.count_cons_of_ne ht, cost_cons]
        omega

/-- The room of the tokens: every empty piece saves the place of its separator. -/
theorem cost_tokenize_add_count (sep : α) (s : List α) :
    cost (tokenize sep s) + (s.splitOn sep).count [] = s.length + 1 := by
  rw [← cost_splitOn sep s]
  exact cost_filter_add_count (s.splitOn sep)

/-- Tokenizing a terminated list never needs more room than the list itself. -/
theorem cost_tokenize_le (sep : α) (ls : List (List α)) :
    cost (tokenize sep (terminate sep ls)) ≤ cost ls := by
  rw [tokenize_terminate]
  induction ls with
  | nil => simp
  | cons l ls ih =>
      have h := cost_tokenize_le_succ sep l
      rw [List.flatMap_cons, cost_append, cost_cons]
      omega

/-! ## Lines -/

/-- Reading lines up to the end of input, of which `item` has been read of the next one.  At the
end a line counts only if anything of it was there. -/
def getlinesFrom (sep : α) (item : List α) : List α → List (List α)
  | [] => if item = [] then [] else [item]
  | c :: cs =>
    if c = sep then item :: getlinesFrom sep [] cs else getlinesFrom sep (item ++ [c]) cs

/-- `while (getline(s, item, sep)) elems.push_back(item);` -/
def getlines (sep : α) (s : List α) : List (List α) := getlinesFrom sep [] s

/-- The pieces without an empty one at the end. -/
def dropTrailing (ps : List (List α)) : List (List α) :=
  if ps.getLast? = some [] then ps.dropLast else ps

theorem getlinesFrom_of_free {sep : α} {s : List α} (h : sep ∉ s) (item : List α) :
    getlinesFrom sep item s = if item ++ s = [] then [] else [item ++ s] := by
  induction s generalizing item with
  | nil => rw [getlinesFrom, List.append_nil]
  | cons c s ih =>
      rw [List.mem_cons, not_or] at h
      rw [getlinesFrom, if_neg (Ne.symm h.1), ih h.2, List.append_assoc, List.singleton_append]

theorem getlinesFrom_append_cons {sep : α} {s : List α} (h : sep ∉ s) (item rest : List α) :
    getlinesFrom sep item (s ++ sep :: rest) = (item ++ s) :: getlines sep rest := by
  induction s generalizing item with
  | nil =>
      rw [List.nil_append, getlinesFrom, if_pos rfl, List.append_nil]
      rfl
  | cons c s ih =>
      rw [List.mem_cons, not_or] at h
      rw [List.cons_append, getlinesFrom, if_neg (Ne.symm h.1), ih h.2, List.append_assoc,
        List.singleton_append]

/-- Without a separator there is one line, unless nothing is there. -/
theorem getlines_of_free {sep : α} {s : List α} (h : sep ∉ s) :
    getlines sep s = if s = [] then [] else [s] := getlinesFrom_of_free h []

/-- The first line. -/
theorem getlines_append_cons {sep : α} {s : List α} (h : sep ∉ s) (rest : List α) :
    getlines sep (s ++ sep :: rest) = s :: getlines sep rest := getlinesFrom_append_cons h [] rest

theorem dropTrailing_cons {ps : List (List α)} (hne : ps ≠ []) (p : List α) :
    dropTrailing (p :: ps) = p :: dropTrailing ps := by
  obtain ⟨q, ps, rfl⟩ := List.exists_cons_of_ne_nil hne
  rw [dropTrailing, dropTrailing, List.getLast?_cons_cons, List.dropLast_cons_cons]
  split
  · rfl
  · rfl

/-- **Lines are the pieces**, without an empty one at the end. -/
theorem getlines_eq (sep : α) (s : List α) : getlines sep s = dropTrailing (s.splitOn sep) := by
  induction hn : s.length using Nat.strong_induction_on generalizing s with
  | _ n ih =>
      by_cases hmem : sep ∈ s
      · obtain ⟨u, rest, rfl, hu⟩ := List.eq_append_cons_of_mem hmem
        have hlt : rest.length < n := by
          rw [← hn, List.length_append, List.length_cons]
          omega
        rw [getlines_append_cons hu, List.splitOn_append_cons_self_of_not_mem hu,
          dropTrailing_cons (List.splitOn_ne_nil sep rest), ih _ hlt rest rfl]
      · rw [getlines_of_free hmem, List.splitOn_eq_singleton hmem, dropTrailing]
        by_cases hs : s = []
        · simp [hs]
        · simp [hs]

theorem forall_mem_dropTrailing_iff {ps : List (List α)} {P : List α → Prop} :
    (∀ p ∈ dropTrailing ps, P p) ↔
      ∀ u p v, ps = u ++ p :: v → P p ∨ p = [] ∧ v = [] := by
  induction ps with
  | nil => simp [dropTrailing]
  | cons q ps ih =>
      rcases eq_or_ne ps [] with rfl | hne
      · have hsingle : dropTrailing [q] = if q = [] then [] else [q] := by
          by_cases hq : q = []
          · simp [dropTrailing, hq]
          · simp [dropTrailing, hq]
        rw [hsingle]
        constructor
        · intro h u p v heq
          obtain ⟨rfl, hpv⟩ : u = [] ∧ [q] = p :: v := by
            cases u with
            | nil => exact ⟨rfl, heq⟩
            | cons _ _ => simp at heq
          obtain ⟨rfl, rfl⟩ := List.cons.inj hpv
          by_cases hq : q = []
          · exact .inr ⟨hq, rfl⟩
          · rw [if_neg hq] at h
            exact .inl (h q List.mem_cons_self)
        · intro h p hp
          split at hp
          · cases hp
          · next hq =>
              obtain rfl := List.mem_singleton.mp hp
              exact (h [] p [] rfl).resolve_right fun hnil => hq hnil.1
      · rw [dropTrailing_cons hne, List.forall_mem_cons, ih]
        constructor
        · rintro ⟨hq, hps⟩ u p v heq
          cases u with
          | nil =>
              obtain ⟨rfl, rfl⟩ := List.cons.inj heq
              exact .inl hq
          | cons _ u => exact hps u p v (List.cons.inj heq).2
        · intro h
          refine ⟨(h [] q ps rfl).resolve_right fun hnil => hne hnil.2, fun u p v heq => ?_⟩
          exact h (q :: u) p v (by rw [heq, List.cons_append])

/-- What holds of the lines holds of every piece but an empty one at the end. -/
theorem forall_mem_getlines_iff {sep : α} {s : List α} {P : List α → Prop} :
    (∀ line ∈ getlines sep s, P line) ↔
      ∀ u piece v, s.splitOn sep = u ++ piece :: v → P piece ∨ piece = [] ∧ v = [] := by
  rw [getlines_eq]
  exact forall_mem_dropTrailing_iff

/-- A search for something that is not empty does not notice the empty piece. -/
theorem find?_dropTrailing {ps : List (List α)} {p : List α → Bool} (hnil : p [] = false) :
    (dropTrailing ps).find? p = ps.find? p := by
  rw [dropTrailing]
  split
  · next hlast =>
      obtain ⟨init, rfl⟩ := List.getLast?_eq_some_iff.mp hlast
      rw [List.dropLast_concat, List.find?_append]
      simp [hnil]
  · rfl

end Tokens
