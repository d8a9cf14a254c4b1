import Mathlib.Tactic.Common

/-!
# A place that only improves

A place is empty at first, and what is put there later is better than what it replaces. When only so
many ranks are possible, only so many values are ever there.
-/

/-- What the place holds is left alone, or replaced by something of a lower rank. -/
def Improves {α : Type} (rank : α → ℕ) (old new : Option α) : Prop :=
  new = old ∨ ∃ a, new = some a ∧ ∀ b, old = some b → rank a < rank b

namespace Improves

variable {α : Type} {rank : α → ℕ}

theorem refl (x : Option α) : Improves rank x x := Or.inl rfl

theorem trans {x y z : Option α} (h : Improves rank x y) (h' : Improves rank y z) :
    Improves rank x z := by
  rcases h' with rfl | ⟨c, rfl, better⟩
  · exact h
  · refine Or.inr ⟨c, rfl, fun a here => ?_⟩
    rcases h with rfl | ⟨b, rfl, better'⟩
    · exact better a here
    · exact Nat.lt_trans (better b rfl) (better' a here)

/-- The values that were there until now, and how many can still come. -/
def Seen (rank : α → ℕ) (most : ℕ) (values : List α) (x : Option α) : Prop :=
  (∀ a, x = some a → a ∈ values ∧ values.length + rank a ≤ most) ∧ (x = none → values = [])

theorem Seen.next {most : ℕ} {values : List α} {x y : Option α} (h : Seen rank most values x)
    (improves : Improves rank x y) (bounded : ∀ a, y = some a → rank a < most) :
    ∃ values', values ⊆ values' ∧ Seen rank most values' y := by
  rcases improves with rfl | ⟨a, rfl, better⟩
  · exact ⟨values, List.Subset.refl values, h⟩
  · refine ⟨a :: values, List.subset_cons_self a values, fun b here => ?_, fun h => by cases h⟩
    obtain rfl := Option.some.inj here
    refine ⟨List.mem_cons_self, ?_⟩
    rw [List.length_cons]
    cases old : x with
    | none =>
      have first := bounded a rfl
      rw [h.2 old, List.length_nil]
      omega
    | some b =>
      have room := (h.1 b old).2
      have less := better b old
      omega

/-- Along a run, at most as many values as there are ranks. -/
theorem exists_values (run : ℕ → Option α) {least most : ℕ} (start : run 0 = none)
    (improves : ∀ k, Improves rank (run k) (run (k + 1)))
    (bounds : ∀ k a, run k = some a → least ≤ rank a ∧ rank a < most) (n : ℕ) :
    ∃ values : List α, values.length ≤ most - least ∧ ∀ k ≤ n, ∀ a, run k = some a → a ∈ values := by
  have seen : ∃ values, Seen rank most values (run n) ∧ ∀ k ≤ n, ∀ a, run k = some a → a ∈ values := by
    induction n with
    | zero =>
      refine ⟨[], ⟨fun a here => ?_, fun _ => rfl⟩, fun k le a here => ?_⟩
      · rw [start] at here
        cases here
      · rw [Nat.le_zero.1 le, start] at here
        cases here
    | succ n ih =>
      obtain ⟨values, seen, all⟩ := ih
      obtain ⟨values', more, seen'⟩ := seen.next (improves n) fun a here => (bounds _ a here).2
      refine ⟨values', seen', fun k le a here => ?_⟩
      rcases Nat.le_succ_iff.1 le with before | rfl
      · exact more (all k before a here)
      · exact (seen'.1 a here).1
  obtain ⟨values, seen, all⟩ := seen
  refine ⟨values, ?_, all⟩
  cases last : run n with
  | none =>
    rw [seen.2 last]
    exact Nat.zero_le _
  | some a =>
    have room := (seen.1 a last).2
    have least := (bounds n a last).1
    omega

end Improves
