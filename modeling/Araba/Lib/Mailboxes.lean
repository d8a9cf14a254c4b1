import Mathlib.Data.List.Basic
import Mathlib.Logic.Function.Basic

/-!
# Mailboxes

One mailbox for each address: something is put behind what waits there, or a mailbox is emptied by
whoever it is for. What was put into a mailbox is what was taken out of it and what still waits, in
this order. A machine whose steps do this to what it keeps has the same law.
-/

namespace Mailboxes

variable {κ β : Type*} [DecidableEq κ]

/-- What happens to the mailboxes in a step. -/
inductive Op (κ β : Type*)
  | idle
  | put (key : κ) (b : β)
  | collect (key : κ)

namespace Op

/-- The mailboxes after the step. -/
def apply (boxes : κ → List β) : Op κ β → κ → List β
  | idle => boxes
  | put key b => Function.update boxes key (boxes key ++ [b])
  | collect key => Function.update boxes key []

/-- What is put into the mailbox. -/
def posted (key : κ) : Op κ β → List β
  | put key' b => if key' = key then [b] else []
  | _ => []

/-- What is taken out of the mailbox. -/
def collected (key : κ) (boxes : κ → List β) : Op κ β → List β
  | collect key' => if key' = key then boxes key else []
  | _ => []

theorem append_posted (key : κ) (boxes : κ → List β) (op : Op κ β) :
    boxes key ++ op.posted key = op.collected key boxes ++ op.apply boxes key := by
  cases op with
  | idle => exact List.append_nil _
  | put key' b =>
    by_cases same : key' = key
    · subst same
      simp [posted, collected, apply]
    · simp [posted, collected, apply, same, Ne.symm same]
  | collect key' =>
    by_cases same : key' = key
    · subst same
      simp [posted, collected, apply]
    · simp [posted, collected, apply, same, Ne.symm same]

end Op

/-! ## Machines that keep mailboxes -/

variable {σ ι : Type*}

/-- In states with `I`, every step of the machine does to the mailboxes what `op` says, and gives out
what is collected. -/
structure Keeps (I : σ → Prop) (next : σ → ι → σ) (out : κ → σ → ι → List β)
    (boxes : σ → κ → List β) (op : ι → Op κ β) : Prop where
  invariant : ∀ s i, I s → I (next s i)
  state : ∀ s i, I s → boxes (next s i) = (op i).apply (boxes s)
  output : ∀ key s i, I s → out key s i = (op i).collected key (boxes s)

/-- What the machine gives out in a run. -/
def outputs (next : σ → ι → σ) (out : κ → σ → ι → List β) (key : κ) : σ → List ι → List β
  | _, [] => []
  | s, i :: is => out key s i ++ outputs next out key (next s i) is

variable {I : σ → Prop} {next : σ → ι → σ} {out : κ → σ → ι → List β} {boxes : σ → κ → List β}
  {op : ι → Op κ β}

theorem Keeps.run (h : Keeps I next out boxes op) (is : List ι) {s : σ} (hs : I s) :
    I (is.foldl next s) := by
  induction is generalizing s with
  | nil => exact hs
  | cons i is ih => exact ih (h.invariant s i hs)

/-- What nobody collects is not given out. -/
theorem Keeps.outputs_eq_nil (h : Keeps I next out boxes op) (key : κ) (is : List ι) {s : σ}
    (hs : I s) (none' : ∀ i ∈ is, op i ≠ .collect key) : outputs next out key s is = [] := by
  induction is generalizing s with
  | nil => rfl
  | cons i is ih =>
    have here : (op i).collected key (boxes s) = [] := by
      have other := none' i List.mem_cons_self
      cases got : op i with
      | collect key' => exact if_neg fun same => other (by rw [got, same])
      | _ => rfl
    rw [outputs, h.output key s i hs, here, List.nil_append]
    exact ih (h.invariant s i hs) fun i hi => none' i (List.mem_cons_of_mem _ hi)

/-- First in, first out: nothing is lost, doubled or overtaken. -/
theorem Keeps.fifo (h : Keeps I next out boxes op) (key : κ) (is : List ι) {s : σ} (hs : I s) :
    boxes s key ++ is.flatMap (fun i => (op i).posted key) =
      outputs next out key s is ++ boxes (is.foldl next s) key := by
  induction is generalizing s with
  | nil => exact List.append_nil _
  | cons i is ih =>
    have step := (op i).append_posted key (boxes s)
    rw [← h.state s i hs, ← h.output key s i hs] at step
    rw [List.flatMap_cons, ← List.append_assoc, step, List.append_assoc, ih (h.invariant s i hs),
      outputs, List.foldl_cons, List.append_assoc]

end Mailboxes
