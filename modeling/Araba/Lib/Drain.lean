import Mathlib.Data.List.Perm.Basic
import Mathlib.Tactic.Common

/-!
# Draining a list

Entries with a property `p` are taken out of a list one by one. Each time the first entry that meets
a test `q` goes, where `q` holds of no entry without `p`: as long as the entries with `p` are worked
off in their order, this is the entry that was meant, and the entries without `p` stay.
-/

namespace Drain

variable {α : Type*} {p q : α → Bool} {l rest : List α} {a : α}

/-- When `a` is the first entry with `p`, a test that holds of `a` and of no entry without `p` takes
out `a`. -/
theorem exists_split (h : l.filter p = a :: rest) (only : ∀ x, q x → p x) (meets : q a) :
    ∃ before after, l = before ++ a :: after ∧ l.eraseP q = before ++ after ∧
      (∀ x ∈ before, p x = false) ∧ after.filter p = rest := by
  obtain ⟨before, after, rfl, none', -, others⟩ := List.filter_eq_cons_iff.1 h
  refine ⟨before, after, rfl, ?_, fun x hx => by simpa using none' x hx, others⟩
  rw [List.eraseP_append_right _ fun x hx => fun hq => none' x hx (only x hq),
    List.eraseP_cons_of_pos meets]

/-- The entry goes, whatever else is in the list stays. -/
theorem perm_eraseP (h : l.filter p = a :: rest) (only : ∀ x, q x → p x) (meets : q a) :
    (a :: l.eraseP q).Perm l := by
  obtain ⟨before, after, split, erased, -, -⟩ := exists_split h only meets
  rw [erased, split]
  exact List.perm_middle.symm

/-- The next entries with `p` are those that came after it. -/
theorem filter_eraseP (h : l.filter p = a :: rest) (only : ∀ x, q x → p x) (meets : q a) :
    (l.eraseP q).filter p = rest := by
  obtain ⟨before, after, -, erased, none', others⟩ := exists_split h only meets
  rw [erased, List.filter_append, others, List.filter_eq_nil_iff.2 fun x hx => by simp [none' x hx],
    List.nil_append]

/-- The entries without `p` stay as they are. -/
theorem filter_not_eraseP (h : l.filter p = a :: rest) (only : ∀ x, q x → p x) (meets : q a) :
    ((l.eraseP q).filter fun x => !p x) = l.filter fun x => !p x := by
  obtain ⟨before, after, split, erased, -, -⟩ := exists_split h only meets
  have gone : (!p a) = false := by rw [only a meets]; rfl
  rw [erased, split, List.filter_append, List.filter_append, List.filter_cons, gone]
  rfl

/-- When the entries with `p` are worked off in their order, the others are what is left. -/
theorem foldl_eraseP (test : α → α → Bool) (only : ∀ a x, p a → test a x → p x)
    (meets : ∀ a, test a a) (todo l : List α) (order : todo.filter p = l.filter p) :
    todo.foldl (fun l a => if p a then l.eraseP (test a) else l) l = l.filter fun x => !p x := by
  induction todo generalizing l with
  | nil =>
    refine (List.filter_eq_self.2 fun x hx => ?_).symm
    have := List.filter_eq_nil_iff.1 order.symm x hx
    simpa using this
  | cons a todo ih =>
    rw [List.foldl_cons]
    by_cases h : p a
    · rw [List.filter_cons_of_pos h] at order
      rw [if_pos h, ih _ (filter_eraseP order.symm (only a · h) (meets a)).symm,
        filter_not_eraseP order.symm (only a · h) (meets a)]
    · rw [List.filter_cons_of_neg h] at order
      rw [if_neg h, ih _ order]

/-- What goes is an occurrence of `a` exactly when the first entry that meets the test is one. -/
theorem eraseP_eq_eraseIdx_iff (h : a ∈ l) (meets : q a) :
    (∃ i, l[i]? = some a ∧ l.eraseP q = l.eraseIdx i) ↔ l.find? q = some a := by
  obtain ⟨b, before, after, none', first, split, erased⟩ := List.exists_of_eraseP h meets
  have found : l.find? q = some b :=
    List.find?_eq_some_iff_append.2 ⟨first, before, after, split, by simpa using none'⟩
  rw [found, Option.some_inj, erased]
  constructor
  · rintro ⟨i, here, same⟩
    obtain ⟨hi, rfl⟩ := List.getElem?_eq_some_iff.1 here
    have perm : (b :: (before ++ after)).Perm (l[i] :: l.eraseIdx i) :=
      List.perm_middle.symm.trans (split ▸ (List.getElem_cons_eraseIdx_perm hi).symm)
    rw [← same] at perm
    exact List.singleton_perm_singleton.1 ((List.perm_append_right_iff (before ++ after)).1 perm)
  · rintro rfl
    refine ⟨before.length, by simp [split], ?_⟩
    rw [split, List.eraseIdx_append_of_length_le (Nat.le_refl _), Nat.sub_self]
    rfl

/-- Every entry has an index of its own that meets a condition iff all indices meet it. -/
theorem count_le_countP_zipIdx_iff [DecidableEq α] (l : List α) (ok : ℕ → Bool) :
    (∀ a, l.count a ≤ l.zipIdx.countP fun c => c.1 = a ∧ ok c.2 = true) ↔
      ∀ i < l.length, ok i = true := by
  have count (a : α) : l.count a = l.zipIdx.countP fun c => c.1 = a := by
    conv_lhs => rw [← List.zipIdx_map_fst 0 l, List.count, List.countP_map]
    exact List.countP_congr fun c _ => by simp
  constructor
  · intro h i hi
    have enough := h l[i]
    rw [count, List.countP_eq_length_filter, List.countP_eq_length_filter] at enough
    have fewer : (l.zipIdx.filter fun c => c.1 = l[i] ∧ ok c.2 = true).Sublist
        (l.zipIdx.filter fun c => c.1 = l[i]) :=
      List.monotone_filter_right _ fun c hc => by
        simp only [decide_eq_true_eq] at hc ⊢
        exact hc.1
    have here : (l[i], i) ∈ l.zipIdx.filter fun c => c.1 = l[i] := by
      simp [List.mem_zipIdx_iff_getElem?, hi]
    rw [← fewer.eq_of_length_le enough] at here
    simpa using (List.mem_filter.1 here).2
  · intro h a
    rw [count]
    refine List.countP_mono_left fun c hc => ?_
    obtain ⟨-, bound, -⟩ := List.mem_zipIdx hc
    simp only [decide_eq_true_eq]
    exact fun e => ⟨e, h _ (by omega)⟩

end Drain
