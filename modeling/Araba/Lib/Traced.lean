import Mathlib.Tactic.Common

/-!
# Computations that change a state and emit events

`Traced σ ε α` is a computation over a state `σ` that returns a value and, as it runs, emits the
events `ε` by which the outside sees it. A computation is read through three functions of the state
it starts in: `value`, `post` (the state it ends in) and `trace` (the events, oldest first).
-/

/-- A computation over a state that emits events as it runs. -/
def Traced (σ ε α : Type) : Type := σ → α × σ × List ε

namespace Traced

variable {σ ε α β : Type}

/-- The value a computation returns. -/
def value (m : Traced σ ε α) (s : σ) : α := (m s).1

/-- The state a computation ends in. -/
def post (m : Traced σ ε α) (s : σ) : σ := (m s).2.1

/-- The events a computation emits, oldest first. -/
def trace (m : Traced σ ε α) (s : σ) : List ε := (m s).2.2

instance : Monad (Traced σ ε) where
  pure a := fun s => (a, s, [])
  bind m f := fun s => (value (f (m.value s)) (m.post s), post (f (m.value s)) (m.post s),
    m.trace s ++ trace (f (m.value s)) (m.post s))

instance : LawfulMonad (Traced σ ε) := LawfulMonad.mk' (Traced σ ε)
  (by
    intro α m
    funext s
    show (m.value s, m.post s, m.trace s ++ []) = m s
    rw [List.append_nil]
    rfl)
  (by
    intro α β a f
    rfl)
  (by
    intro α β γ m f g
    funext s
    refine Prod.ext rfl (Prod.ext rfl ?_)
    exact List.append_assoc _ _ _)

/-- Emit one event. -/
def emit (e : ε) : Traced σ ε Unit := fun s => ((), s, [e])

/-- Read the state. -/
def get : Traced σ ε σ := fun s => (s, s, [])

/-- Change the state. -/
def modify (f : σ → σ) : Traced σ ε Unit := fun s => ((), f s, [])

/-! ## How a computation is read -/

section Read

variable (m : Traced σ ε α) (f : α → Traced σ ε β) (s : σ)

@[simp] theorem value_pure (a : α) : value (pure a : Traced σ ε α) s = a := rfl
@[simp] theorem post_pure (a : α) : post (pure a : Traced σ ε α) s = s := rfl
@[simp] theorem trace_pure (a : α) : trace (pure a : Traced σ ε α) s = [] := rfl

@[simp] theorem value_bind : value (m >>= f) s = (f (m.value s)).value (m.post s) := rfl
@[simp] theorem post_bind : post (m >>= f) s = (f (m.value s)).post (m.post s) := rfl
@[simp] theorem trace_bind :
    trace (m >>= f) s = m.trace s ++ (f (m.value s)).trace (m.post s) := rfl

@[simp] theorem value_emit (e : ε) : value (emit e : Traced σ ε Unit) s = () := rfl
@[simp] theorem post_emit (e : ε) : post (emit e : Traced σ ε Unit) s = s := rfl
@[simp] theorem trace_emit (e : ε) : trace (emit e : Traced σ ε Unit) s = [e] := rfl

@[simp] theorem value_get : value (get : Traced σ ε σ) s = s := rfl
@[simp] theorem post_get : post (get : Traced σ ε σ) s = s := rfl
@[simp] theorem trace_get : trace (get : Traced σ ε σ) s = [] := rfl

@[simp] theorem value_modify (g : σ → σ) : value (modify g : Traced σ ε Unit) s = () := rfl
@[simp] theorem post_modify (g : σ → σ) : post (modify g : Traced σ ε Unit) s = g s := rfl
@[simp] theorem trace_modify (g : σ → σ) : trace (modify g : Traced σ ε Unit) s = [] := rfl

theorem value_ite (c : Prop) [Decidable c] (m₁ m₂ : Traced σ ε α) :
    value (if c then m₁ else m₂) s = if c then m₁.value s else m₂.value s := by
  split_ifs <;> rfl

theorem post_ite (c : Prop) [Decidable c] (m₁ m₂ : Traced σ ε α) :
    post (if c then m₁ else m₂) s = if c then m₁.post s else m₂.post s := by
  split_ifs <;> rfl

theorem trace_ite (c : Prop) [Decidable c] (m₁ m₂ : Traced σ ε α) :
    trace (if c then m₁ else m₂) s = if c then m₁.trace s else m₂.trace s := by
  split_ifs <;> rfl

/-- What follows is only run where the first computation ends. -/
theorem bind_congr_at {f g : α → Traced σ ε β}
    (same : f (m.value s) (m.post s) = g (m.value s) (m.post s)) : (m >>= f) s = (m >>= g) s :=
  congrArg (fun r => (r.1, r.2.1, m.trace s ++ r.2.2)) same

/-- What does nothing can be left out. -/
theorem bind_of_idle {m : Traced σ ε α} {s : σ} {a : α} (idle : m s = (a, s, []))
    (f : α → Traced σ ε β) : (m >>= f) s = f a s := by
  have value : m.value s = a := congrArg Prod.fst idle
  have post : m.post s = s := congrArg (fun r => r.2.1) idle
  have trace : m.trace s = [] := congrArg (fun r => r.2.2) idle
  show (Traced.value (f (m.value s)) (m.post s), Traced.post (f (m.value s)) (m.post s),
    m.trace s ++ Traced.trace (f (m.value s)) (m.post s)) = _
  rw [value, post, trace, List.nil_append]
  rfl

end Read

/-! ## Invariants and events of a computation -/

/-- Every run of `m` from a state with `I` ends in a state with `I`, and emits only events with
`E`. -/
def Preserves (I : σ → Prop) (E : ε → Prop) (m : Traced σ ε α) : Prop :=
  ∀ s, I s → I (m.post s) ∧ ∀ e ∈ m.trace s, E e

section Preserves

variable {I : σ → Prop} {E : ε → Prop}

theorem Preserves.pure (a : α) : Preserves I E (Pure.pure a : Traced σ ε α) := by
  intro s hs
  exact ⟨hs, by simp⟩

theorem Preserves.bind {m : Traced σ ε α} {f : α → Traced σ ε β} (hm : Preserves I E m)
    (hf : ∀ a, Preserves I E (f a)) : Preserves I E (m >>= f) := by
  intro s hs
  obtain ⟨h1, e1⟩ := hm s hs
  obtain ⟨h2, e2⟩ := hf (m.value s) (m.post s) h1
  refine ⟨h2, fun e he => ?_⟩
  rcases List.mem_append.1 he with he | he
  · exact e1 e he
  · exact e2 e he

theorem Preserves.emit {e : ε} (he : E e) : Preserves I E (Traced.emit e : Traced σ ε Unit) := by
  intro s hs
  exact ⟨hs, by simpa using he⟩

theorem Preserves.get : Preserves I E (Traced.get : Traced σ ε σ) := by
  intro s hs
  exact ⟨hs, by simp⟩

theorem Preserves.modify {g : σ → σ} (hg : ∀ s, I s → I (g s)) :
    Preserves I E (Traced.modify g : Traced σ ε Unit) := by
  intro s hs
  exact ⟨hg s hs, by simp⟩

theorem Preserves.ite {c : Prop} [Decidable c] {m₁ m₂ : Traced σ ε α} (h₁ : Preserves I E m₁)
    (h₂ : Preserves I E m₂) : Preserves I E (if c then m₁ else m₂) := by
  split_ifs
  · exact h₁
  · exact h₂

end Preserves

/-! ## Runs -/

/-- Run a list of computations, one after the other. -/
def runAll : List (Traced σ ε Unit) → Traced σ ε Unit
  | [] => pure ()
  | m :: ms => do
    m
    runAll ms

theorem runAll_append (ms ns : List (Traced σ ε Unit)) (s : σ) :
    (runAll (ms ++ ns)).post s = (runAll ns).post ((runAll ms).post s) ∧
      (runAll (ms ++ ns)).trace s =
        (runAll ms).trace s ++ (runAll ns).trace ((runAll ms).post s) := by
  induction ms generalizing s with
  | nil => simp [runAll]
  | cons m ms ih =>
    obtain ⟨h1, h2⟩ := ih (m.post s)
    simp only [List.cons_append, runAll, post_bind, trace_bind, h1, h2, List.append_assoc,
      and_self]

theorem post_runAll_concat (ms : List (Traced σ ε Unit)) (n : Traced σ ε Unit) (s : σ) :
    (runAll (ms ++ [n])).post s = n.post ((runAll ms).post s) :=
  (runAll_append ms [n] s).1

theorem Preserves.runAll {I : σ → Prop} {E : ε → Prop} {ms : List (Traced σ ε Unit)}
    (h : ∀ m ∈ ms, Preserves I E m) : Preserves I E (Traced.runAll ms) := by
  induction ms with
  | nil => exact Preserves.pure ()
  | cons m ms ih =>
    exact (h m List.mem_cons_self).bind fun _ => ih fun n hn => h n (List.mem_cons_of_mem _ hn)

/-! ## Parts of the state that a computation leaves alone -/

/-- No run of `m` changes what `f` reads of the state. -/
def Leaves {γ : Type} (f : σ → γ) (m : Traced σ ε α) : Prop := ∀ s, f (m.post s) = f s

section Leaves

variable {γ : Type} {f : σ → γ}

theorem Leaves.post {m : Traced σ ε α} (h : Leaves f m) (s : σ) : f (m.post s) = f s := h s

/-- What every invariant of the form `f s = c` says. -/
theorem Preserves.leaves {E : ε → Prop} {m : Traced σ ε α}
    (h : ∀ c, Preserves (fun s => f s = c) E m) : Leaves f m := fun s => (h (f s) s rfl).1

theorem Leaves.preserves {m : Traced σ ε α} (h : Leaves f m) (c : γ) :
    Preserves (fun s => f s = c) (fun _ => True) m := fun s hs =>
  ⟨(h s).trans hs, fun _ _ => trivial⟩

theorem Leaves.pure (a : α) : Leaves f (Pure.pure a : Traced σ ε α) := fun _ => rfl

theorem Leaves.bind {m : Traced σ ε α} {k : α → Traced σ ε β} (hm : Leaves f m)
    (hk : ∀ a, Leaves f (k a)) : Leaves f (m >>= k) := by
  intro s
  rw [post_bind, hk (m.value s) (m.post s), hm s]

theorem Leaves.ite {c : Prop} [Decidable c] {m₁ m₂ : Traced σ ε α} (h₁ : Leaves f m₁)
    (h₂ : Leaves f m₂) : Leaves f (if c then m₁ else m₂) := by
  split_ifs
  · exact h₁
  · exact h₂

end Leaves

end Traced
