import Araba.Lib.Traced

/-!
# Triples with a history

Assertions about a computation that speak of the state and of everything that was emitted so far. A
protocol that a program keeps with the outside is a property of that history.
-/

namespace Traced

variable {σ ε α β : Type}

/-- Where `P` holds of the history and the state, `Q` holds of them, and of the value returned,
after `m` ran. -/
def Triple (P : List ε → σ → Prop) (m : Traced σ ε α) (Q : α → List ε → σ → Prop) : Prop :=
  ∀ history s, P history s → Q (m.value s) (history ++ m.trace s) (m.post s)

namespace Triple

variable {P P' : List ε → σ → Prop}

theorem mono {m : Traced σ ε α} {Q Q' : α → List ε → σ → Prop} (h : Triple P m Q)
    (before : ∀ history s, P' history s → P history s)
    (after : ∀ a history s, Q a history s → Q' a history s) : Triple P' m Q' :=
  fun history s hs => after _ _ _ (h history s (before history s hs))

theorem pure {a : α} {Q : α → List ε → σ → Prop} (h : ∀ history s, P history s → Q a history s) :
    Triple P (Pure.pure a) Q := by
  intro history s hs
  simpa using h history s hs

theorem bind {m : Traced σ ε α} {f : α → Traced σ ε β} {R : α → List ε → σ → Prop}
    {Q : β → List ε → σ → Prop} (hm : Triple P m R) (hf : ∀ a, Triple (R a) (f a) Q) :
    Triple P (m >>= f) Q := by
  intro history s hs
  have first := hm history s hs
  have second := hf (m.value s) (history ++ m.trace s) (m.post s) first
  rwa [List.append_assoc] at second

theorem ite {c : Prop} [Decidable c] {m₁ m₂ : Traced σ ε α} {Q : α → List ε → σ → Prop}
    (h₁ : c → Triple P m₁ Q) (h₂ : ¬ c → Triple P m₂ Q) : Triple P (if c then m₁ else m₂) Q := by
  by_cases hc : c
  · rw [if_pos hc]
    exact h₁ hc
  · rw [if_neg hc]
    exact h₂ hc

theorem get : Triple P (Traced.get : Traced σ ε σ) (fun a history s => P history s ∧ a = s) := by
  intro history s hs
  simpa using hs

theorem modify {g : σ → σ} {Q : Unit → List ε → σ → Prop}
    (h : ∀ history s, P history s → Q () history (g s)) :
    Triple P (Traced.modify g : Traced σ ε Unit) Q := by
  intro history s hs
  simpa using h history s hs

/-- What each of the computations keeps, all of them keep. -/
theorem runAll {ms : List (Traced σ ε Unit)} (h : ∀ m ∈ ms, Triple P m (fun _ => P)) :
    Triple P (Traced.runAll ms) (fun _ => P) := by
  induction ms with
  | nil => exact pure fun _ _ hs => hs
  | cons m ms ih =>
    exact (h m List.mem_cons_self).bind fun _ => ih fun n hn => h n (List.mem_cons_of_mem _ hn)

end Triple

end Traced
