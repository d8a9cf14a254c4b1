import Araba.Lib.Traced
import Mathlib.Data.List.Forall2

/-!
# Computations that match

Two computations that return the same and leave the same state, and whose events match one by one. What
is matched part by part is matched as a whole.
-/

namespace Traced

variable {σ ε α β : Type}

/-- Every event of the one is matched by one of the other. -/
theorem exists_matched {R : ε → ε → Prop} {es es' : List ε} (h : List.Forall₂ R es es') {e : ε}
    (mem : e ∈ es) : ∃ e' ∈ es', R e e' := by
  induction h with
  | nil => cases mem
  | @cons a b as bs here rest ih =>
    rcases List.mem_cons.1 mem with rfl | mem
    · exact ⟨b, List.mem_cons_self, here⟩
    · obtain ⟨e', mem', matched⟩ := ih mem
      exact ⟨e', List.mem_cons_of_mem _ mem', matched⟩

/-- From every state the two do the same, up to what `R` says of their events. -/
def Matches (R : ε → ε → Prop) (m n : Traced σ ε α) : Prop :=
  ∀ s, n.value s = m.value s ∧ n.post s = m.post s ∧ List.Forall₂ R (m.trace s) (n.trace s)

namespace Matches

variable {R : ε → ε → Prop}

theorem refl (same : ∀ e, R e e) (m : Traced σ ε α) : Matches R m m := fun _ =>
  ⟨rfl, rfl, List.forall₂_same.2 fun e _ => same e⟩

theorem of_eq (same : ∀ e, R e e) {m n : Traced σ ε α} (h : m = n) : Matches R m n :=
  h ▸ refl same m

theorem emit {e e' : ε} (h : R e e') :
    Matches R (Traced.emit e : Traced σ ε Unit) (Traced.emit e') := fun _ =>
  ⟨rfl, rfl, .cons h .nil⟩

theorem bind {m n : Traced σ ε α} {f g : α → Traced σ ε β} (h : Matches R m n)
    (next : ∀ a, Matches R (f a) (g a)) : Matches R (m >>= f) (n >>= g) := by
  intro s
  obtain ⟨value, post, trace⟩ := h s
  obtain ⟨value', post', trace'⟩ := next (m.value s) (m.post s)
  rw [value_bind, value_bind, post_bind, post_bind, trace_bind, trace_bind, value, post]
  exact ⟨value', post', List.rel_append trace trace'⟩

theorem ite {c : Prop} [Decidable c] {m₁ m₂ n₁ n₂ : Traced σ ε α} (h₁ : Matches R m₁ n₁)
    (h₂ : Matches R m₂ n₂) : Matches R (if c then m₁ else m₂) (if c then n₁ else n₂) := by
  split_ifs
  · exact h₁
  · exact h₂

end Matches

end Traced
