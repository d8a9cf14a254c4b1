import Mathlib.Tactic.Common

/-!
# A mutex that is not recursive

One thread acquires and releases one mutex as it runs. `Reenters` says that somewhere in the run the
thread requests the mutex while it holds it, which for a mutex that is not recursive is a deadlock
with itself.
-/

namespace Mutex

/-- What a thread does to the mutex. -/
inductive Op
  | acquire
  | release
  deriving DecidableEq

variable {ε : Type*} (op : ε → Option Op)

/-- Whether the thread holds the mutex after the events. -/
def heldAfter : Bool → List ε → Bool
  | held, [] => held
  | held, e :: es =>
    match op e with
    | none => heldAfter held es
    | some .acquire => heldAfter true es
    | some .release => heldAfter false es

/-- Somewhere in the events the thread requests the mutex while it holds it. -/
def Reenters : Bool → List ε → Prop
  | _, [] => False
  | held, e :: es =>
    match op e with
    | none => Reenters held es
    | some .acquire => held = true ∨ Reenters true es
    | some .release => Reenters false es

variable {op}

theorem heldAfter_append (held : Bool) (es fs : List ε) :
    heldAfter op held (es ++ fs) = heldAfter op (heldAfter op held es) fs := by
  induction es generalizing held with
  | nil => rfl
  | cons e es ih =>
    simp only [List.cons_append, heldAfter]
    split <;> exact ih _

theorem reenters_append (held : Bool) (es fs : List ε) :
    Reenters op held (es ++ fs) ↔
      Reenters op held es ∨ Reenters op (heldAfter op held es) fs := by
  induction es generalizing held with
  | nil => simp [Reenters, heldAfter]
  | cons e es ih =>
    simp only [List.cons_append, Reenters, heldAfter]
    split
    · exact ih _
    · rw [ih, or_assoc]
    · exact ih _

/-- Events that are not about the mutex change nothing. -/
theorem heldAfter_of_none {es : List ε} (h : ∀ e ∈ es, op e = none) (held : Bool) :
    heldAfter op held es = held := by
  induction es with
  | nil => rfl
  | cons e es ih =>
    simp only [heldAfter, h e List.mem_cons_self]
    exact ih fun e he => h e (List.mem_cons_of_mem _ he)

theorem not_reenters_of_none {es : List ε} (h : ∀ e ∈ es, op e = none) (held : Bool) :
    ¬ Reenters op held es := by
  induction es with
  | nil => exact id
  | cons e es ih =>
    simp only [Reenters, h e List.mem_cons_self]
    exact ih fun e he => h e (List.mem_cons_of_mem _ he)

/-- A run made of sections, each of which starts and ends with the mutex free, reenters iff one of
the sections does. -/
theorem reenters_flatten {sections : List (List ε)}
    (h : ∀ es ∈ sections, heldAfter op false es = false) :
    Reenters op false sections.flatten ↔ ∃ es ∈ sections, Reenters op false es := by
  induction sections with
  | nil => simp [Reenters]
  | cons es rest ih =>
    have ht := ih fun fs hfs => h fs (List.mem_cons_of_mem _ hfs)
    rw [List.flatten_cons, reenters_append, h es List.mem_cons_self, ht]
    simp

end Mutex
