import Mathlib.Algebra.BigOperators.Group.Finset.Basic
import Mathlib.Algebra.GroupWithZero.Nat
import Mathlib.Algebra.Order.BigOperators.Group.Finset
import Mathlib.Data.Finset.Prod

/-!
# Chain reactions

Items are laid down in a list. Each of finitely many consumers may take up each item once, and lays
down further items when it does. Every item has a yield, which is to cover all that may follow when one
consumer takes it up; the yields that have not been collected yet are then a bound for all that is
laid down later, in whatever order the consumers work.
-/

namespace Reactions

variable {α ι : Type} [DecidableEq ι] (gain : α → ℕ) (consumers : Finset ι)

/-- An item, and all that may follow when every consumer takes it up. -/
def cost (a : α) : ℕ := 1 + consumers.card * gain a

/-- The yield of the item at a place. -/
def gainAt (items : List α) (i : ℕ) : ℕ := (items[i]?.map gain).getD 0

/-- What may follow when the items are taken up that have not been, `used` being the others. -/
def outstanding (used : Finset (ι × ℕ)) (items : List α) : ℕ :=
  ∑ x ∈ (consumers ×ˢ Finset.range items.length) \ used, gainAt gain items x.2

/-- What is there, what the consumers may lay down of their own, and what may follow. -/
def budget (used : Finset (ι × ℕ)) (items : List α) (reserve : ℕ) : ℕ :=
  items.length + reserve + outstanding gain consumers used items

variable {gain : α → ℕ} {consumers : Finset ι} {used : Finset (ι × ℕ)} {items : List α}

theorem length_le_budget (reserve : ℕ) : items.length ≤ budget gain consumers used items reserve := by
  unfold budget
  omega

theorem gainAt_append_of_lt {i : ℕ} (old : i < items.length) (more : List α) :
    gainAt gain (items ++ more) i = gainAt gain items i := by
  rw [gainAt, gainAt, List.getElem?_append_left old]

/-- A new item can be taken up by every consumer. -/
theorem outstanding_concat_le (used : Finset (ι × ℕ)) (items : List α) (a : α) :
    outstanding gain consumers used (items ++ [a]) ≤
      outstanding gain consumers used items + consumers.card * gain a := by
  have split : (consumers ×ˢ Finset.range (items ++ [a]).length) \ used ⊆
      (consumers ×ˢ Finset.range items.length) \ used ∪ consumers ×ˢ {items.length} := by
    intro x mem
    simp only [Finset.mem_sdiff, Finset.mem_product, Finset.mem_range, List.length_append,
      List.length_singleton, Finset.mem_union, Finset.mem_singleton] at mem ⊢
    obtain ⟨⟨consumer, place⟩, fresh⟩ := mem
    rcases Nat.lt_succ_iff_lt_or_eq.1 place with old | new
    · exact Or.inl ⟨⟨consumer, old⟩, fresh⟩
    · exact Or.inr ⟨consumer, new⟩
  have apart : Disjoint ((consumers ×ˢ Finset.range items.length) \ used)
      (consumers ×ˢ {items.length}) := by
    refine Finset.disjoint_left.2 fun x old new => ?_
    simp only [Finset.mem_sdiff, Finset.mem_product, Finset.mem_range, Finset.mem_singleton] at old new
    omega
  have olds : ∑ x ∈ (consumers ×ˢ Finset.range items.length) \ used, gainAt gain (items ++ [a]) x.2 =
      outstanding gain consumers used items := by
    refine Finset.sum_congr rfl fun x mem => gainAt_append_of_lt ?_ [a]
    exact Finset.mem_range.1 (Finset.mem_product.1 (Finset.mem_sdiff.1 mem).1).2
  have news : ∑ x ∈ consumers ×ˢ {items.length}, gainAt gain (items ++ [a]) x.2 =
      consumers.card * gain a := by
    have last : gainAt gain (items ++ [a]) items.length = gain a := by simp [gainAt]
    rw [Finset.sum_product, Finset.sum_congr rfl fun c _ => Finset.sum_singleton _ _]
    exact Finset.sum_const_nat fun _ _ => last
  calc outstanding gain consumers used (items ++ [a])
      ≤ ∑ x ∈ (consumers ×ˢ Finset.range items.length) \ used ∪ consumers ×ˢ {items.length},
          gainAt gain (items ++ [a]) x.2 := Finset.sum_le_sum_of_subset split
    _ = _ := by rw [Finset.sum_union apart, olds, news]

theorem outstanding_append_le (used : Finset (ι × ℕ)) (items more : List α) :
    outstanding gain consumers used (items ++ more) ≤
      outstanding gain consumers used items + consumers.card * (more.map gain).sum := by
  induction more generalizing items with
  | nil => simp
  | cons a more ih =>
    calc outstanding gain consumers used (items ++ a :: more)
        = outstanding gain consumers used ((items ++ [a]) ++ more) := by
          rw [List.append_assoc, List.singleton_append]
      _ ≤ outstanding gain consumers used (items ++ [a]) + consumers.card * (more.map gain).sum := ih _
      _ ≤ outstanding gain consumers used items + consumers.card * gain a +
          consumers.card * (more.map gain).sum :=
        Nat.add_le_add_right (outstanding_concat_le used items a) _
      _ = _ := by rw [List.map_cons, List.sum_cons, Nat.mul_add, Nat.add_assoc]

/-- A yield is collected. -/
theorem outstanding_insert {c : ι} {i : ℕ} {a : α} (consumer : c ∈ consumers)
    (here : items[i]? = some a) (fresh : (c, i) ∉ used) :
    gain a + outstanding gain consumers (insert (c, i) used) items =
      outstanding gain consumers used items := by
  have place : i < items.length := (List.getElem?_eq_some_iff.1 here).1
  have mem : (c, i) ∈ (consumers ×ˢ Finset.range items.length) \ used :=
    Finset.mem_sdiff.2 ⟨Finset.mem_product.2 ⟨consumer, Finset.mem_range.2 place⟩, fresh⟩
  have worth : gainAt gain items i = gain a := by
    rw [gainAt, here]
    rfl
  rw [outstanding, outstanding, ← Finset.add_sum_erase _ _ mem, Finset.sdiff_insert, worth]

/-- Whoever takes up an item lays down no more than its yield and its own reserve pay for. -/
theorem budget_take {c : ι} {i : ℕ} {a : α} {more : List α} {reserve reserve' : ℕ}
    (consumer : c ∈ consumers) (here : items[i]? = some a) (fresh : (c, i) ∉ used)
    (paid : (more.map (cost gain consumers)).sum + reserve' ≤ gain a + reserve) :
    budget gain consumers (insert (c, i) used) (items ++ more) reserve' ≤
      budget gain consumers used items reserve := by
  have costs : (more.map (cost gain consumers)).sum =
      more.length + consumers.card * (more.map gain).sum := by
    clear paid
    induction more with
    | nil => rfl
    | cons b more ih =>
      simp only [List.map_cons, List.sum_cons, List.length_cons, ih, cost, Nat.mul_add]
      omega
  have collected : gain a + outstanding gain consumers (insert (c, i) used) items =
      outstanding gain consumers used items := outstanding_insert consumer here fresh
  have laid : outstanding gain consumers (insert (c, i) used) (items ++ more) ≤
      outstanding gain consumers (insert (c, i) used) items + consumers.card * (more.map gain).sum :=
    outstanding_append_le _ items more
  unfold budget
  rw [List.length_append]
  omega

/-- Taking up what is not there changes nothing. -/
theorem budget_insert_le {x : ι × ℕ} (reserve : ℕ) :
    budget gain consumers (insert x used) items reserve ≤ budget gain consumers used items reserve :=
  Nat.add_le_add_left (Finset.sum_le_sum_of_subset
    (Finset.sdiff_subset_sdiff (Finset.Subset.refl _) (Finset.subset_insert x used))) _

theorem budget_empty_le (reserve : ℕ) :
    budget gain consumers ∅ items reserve ≤
      items.length + reserve + consumers.card * (items.map gain).sum := by
  have all : outstanding gain consumers ∅ ([] ++ items) ≤
      outstanding gain consumers ∅ [] + consumers.card * (items.map gain).sum :=
    outstanding_append_le ∅ [] items
  have nothing : outstanding gain consumers ∅ ([] : List α) = 0 := by simp [outstanding]
  rw [List.nil_append, nothing, Nat.zero_add] at all
  exact Nat.add_le_add_left all _

end Reactions
