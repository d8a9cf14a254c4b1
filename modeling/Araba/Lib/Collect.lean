import Mathlib.Data.Finset.Card
import Mathlib.Data.Finset.Range
import Std.Data.ExtTreeMap

/-!
# Pieces of a list, collected in a table

A list cut into pieces of one size (`piece`), a table filled entry by entry from a log (`fill`,
`latest`), and when the number of keys that were logged tells that none of them is missing.
-/

namespace Collect

/-! ## Pieces -/

section Pieces

variable {α : Type*}

/-- The `i`-th piece of `n` elements; the last one may be shorter. -/
def piece (n : ℕ) (l : List α) (i : ℕ) : List α := (l.drop (n * i)).take n

theorem length_piece (n : ℕ) (l : List α) (i : ℕ) :
    (piece n l i).length = min n (l.length - n * i) := by
  simp [piece]

/-- The first `k` pieces make up the front of the list. -/
theorem flatMap_piece (n : ℕ) (l : List α) (k : ℕ) :
    (List.range k).flatMap (piece n l) = l.take (n * k) := by
  induction k with
  | zero => simp
  | succ k ih =>
    rw [List.range_succ, List.flatMap_append, ih, Nat.mul_succ, List.take_add]
    simp [piece]

end Pieces

/-! ## A table and its log -/

section Table

variable {κ α : Type*} {cmp : κ → κ → Ordering} [Std.TransCmp cmp]

/-- The table after all entries of a log have been inserted. -/
def fill (log : List (κ × α)) : Std.ExtTreeMap κ α cmp :=
  log.foldl (fun t e => t.insert e.1 e.2) ∅

@[simp] theorem fill_nil : fill ([] : List (κ × α)) = (∅ : Std.ExtTreeMap κ α cmp) := rfl

@[simp] theorem fill_concat (log : List (κ × α)) (e : κ × α) :
    (fill (log ++ [e]) : Std.ExtTreeMap κ α cmp) = (fill log).insert e.1 e.2 := by
  simp [fill]

theorem size_insert (t : Std.ExtTreeMap κ α cmp) (k : κ) (a : α) :
    (t.insert k a).size = t.size + if k ∈ t then 0 else 1 := by
  rw [Std.ExtTreeMap.size_insert]
  by_cases h : k ∈ t
  · rw [if_pos (Std.ExtTreeMap.mem_iff_contains.1 h), if_pos h, Nat.add_zero]
  · rw [if_neg fun c => h (Std.ExtTreeMap.mem_iff_contains.2 c), if_neg h]

/-- Writing what stands there already changes nothing. -/
theorem insert_eq_self [Std.LawfulEqCmp cmp] {t : Std.ExtTreeMap κ α cmp} {k : κ} {a : α}
    (h : t[k]? = some a) : t.insert k a = t := by
  refine Std.ExtTreeMap.ext_getElem? fun k' => ?_
  rw [Std.ExtTreeMap.getElem?_insert]
  split_ifs with same
  · rw [← Std.LawfulEqCmp.eq_of_compare same, h]
  · rfl

variable [Std.LawfulEqCmp cmp] [DecidableEq κ]

/-- What the log says last about a key. -/
def latest (log : List (κ × α)) (k : κ) : Option α :=
  (log.reverse.find? fun e => e.1 = k).map Prod.snd

theorem latest_concat (log : List (κ × α)) (e : κ × α) (k : κ) :
    latest (log ++ [e]) k = if e.1 = k then some e.2 else latest log k := by
  simp only [latest, List.reverse_append, List.reverse_singleton, List.singleton_append,
    List.find?_cons]
  by_cases h : e.1 = k <;> simp [h]

/-- The table says what the log says last. -/
theorem getElem?_fill (log : List (κ × α)) (k : κ) :
    (fill log : Std.ExtTreeMap κ α cmp)[k]? = latest log k := by
  induction log using List.reverseRecOn with
  | nil => simp [latest]
  | append_singleton log e ih =>
    rw [fill_concat, latest_concat, Std.ExtTreeMap.getElem?_insert, ih]
    by_cases h : e.1 = k
    · rw [if_pos h, if_pos (by simp [h])]
    · rw [if_neg h, if_neg (by simpa using h)]

theorem latest_eq_none_iff (log : List (κ × α)) (k : κ) :
    latest log k = none ↔ ∀ e ∈ log, e.1 ≠ k := by
  simp [latest]

/-- Where all entries of a key agree, the last one is any of them. -/
theorem latest_eq_some {log : List (κ × α)} {k : κ} {a : α} (some' : ∃ e ∈ log, e.1 = k)
    (agree : ∀ e ∈ log, e.1 = k → e.2 = a) : latest log k = some a := by
  obtain ⟨e, he, hk⟩ := some'
  cases h : latest log k with
  | none => exact absurd hk ((latest_eq_none_iff log k).1 h e he)
  | some b =>
    obtain ⟨e', h', rfl⟩ := Option.map_eq_some_iff.1 h
    have mem := List.mem_of_find?_eq_some h'
    have key := List.find?_some h'
    rw [agree e' (List.mem_reverse.1 mem) (by simpa using key)]

/-- The table has one entry for each key of the log. -/
theorem size_fill (log : List (κ × α)) :
    (fill log : Std.ExtTreeMap κ α cmp).size = (log.map Prod.fst).toFinset.card := by
  induction log using List.reverseRecOn with
  | nil => simp
  | append_singleton log e ih =>
    have mem : e.1 ∈ (fill log : Std.ExtTreeMap κ α cmp) ↔ e.1 ∈ (log.map Prod.fst).toFinset := by
      rw [Std.ExtTreeMap.mem_iff_isSome_getElem?, getElem?_fill, Option.isSome_iff_ne_none, ne_eq,
        latest_eq_none_iff]
      simp
    rw [fill_concat, size_insert, ih, List.map_append, List.toFinset_append,
      List.map_singleton, Finset.union_comm, List.toFinset_cons, List.toFinset_nil, insert_empty_eq,
      Finset.singleton_union]
    by_cases h : e.1 ∈ (log.map Prod.fst).toFinset
    · rw [if_pos (mem.2 h), Finset.insert_eq_of_mem h, Nat.add_zero]
    · rw [if_neg fun m => h (mem.1 m), Finset.card_insert_of_notMem h]

end Table

/-! ## Counting what is there -/

/-- With no number outside `0, …, n - 1`, none of these is missing iff there are `n`. -/
theorem card_eq_iff_of_lt {S : Finset ℕ} {n : ℕ} (h : ∀ i ∈ S, i < n) :
    S.card = n ↔ ∀ i < n, i ∈ S := by
  have sub : S ⊆ Finset.range n := fun i hi => Finset.mem_range.2 (h i hi)
  constructor
  · intro hc i hi
    have eq : S = Finset.range n := Finset.eq_of_subset_of_card_le sub (by simp [hc])
    rw [eq]
    exact Finset.mem_range.2 hi
  · intro all
    have eq : S = Finset.range n :=
      sub.antisymm fun i hi => all i (Finset.mem_range.1 hi)
    rw [eq, Finset.card_range]

/-- Counting to `n` tells whether `0, …, n - 1` are all there exactly when nothing else is, or when
neither holds. -/
theorem card_eq_iff_iff (S : Finset ℕ) (n : ℕ) :
    (S.card = n ↔ ∀ i < n, i ∈ S) ↔ (∀ i ∈ S, i < n) ∨ (S.card ≠ n ∧ ¬ ∀ i < n, i ∈ S) := by
  constructor
  · intro h
    by_cases all : ∀ i < n, i ∈ S
    · refine .inl fun i hi => Finset.mem_range.1 ?_
      have sub : Finset.range n ⊆ S := fun i hi => all i (Finset.mem_range.1 hi)
      rwa [Finset.eq_of_subset_of_card_le sub (by simp [h.2 all])]
    · exact .inr ⟨fun hc => all (h.1 hc), all⟩
  · rintro (h | ⟨hc, all⟩)
    · exact card_eq_iff_of_lt h
    · exact iff_of_false hc all

/-! ## The first moment -/

/-- What holds of a sequence and not of the empty one begins to hold at some element. -/
theorem exists_first {α : Type*} {P : List α → Prop} (nil : ¬ P []) {l : List α} (h : P l) :
    ∃ pre x post, l = pre ++ x :: post ∧ ¬ P pre ∧ P (pre ++ [x]) := by
  induction l using List.reverseRecOn with
  | nil => exact absurd h nil
  | append_singleton l x ih =>
    by_cases hl : P l
    · obtain ⟨pre, y, post, rfl, before, at'⟩ := ih hl
      exact ⟨pre, y, post ++ [x], by simp, before, at'⟩
    · exact ⟨l, x, [], rfl, hl, h⟩

end Collect
