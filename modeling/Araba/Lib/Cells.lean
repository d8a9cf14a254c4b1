import Araba.Lib.Traced
import Mathlib.Data.List.Basic

/-!
# Programs over arrays of bytes

A program reads and writes the cells of named arrays, and every access is emitted as it is made. An
array has no end here: an access behind the end of the real one is made and emitted like any other,
so that it is seen in the trace whether a program stays inside its arrays.
-/

namespace Cells

open Traced

variable {β ε : Type}

/-- A cell is read or written, or something else is called for. -/
inductive Access (β ε : Type)
  | load (array : β) (index : ℕ)
  | store (array : β) (index : ℕ)
  | call (event : ε)
  deriving DecidableEq

/-- What stands in the cells. -/
abbrev Memory (β : Type) := β → ℕ → UInt8

/-- A program over the arrays `β` that may call for the events `ε`. -/
abbrev Program (β ε α : Type) := Traced (Memory β) (Access β ε) α

/-! ## Ranges of cells -/

namespace Memory

/-- The bytes in `n` cells from `off` on. -/
def bytes (m : Memory β) (b : β) (off n : ℕ) : List UInt8 := (List.range' off n).map (m b)

@[simp] theorem length_bytes (m : Memory β) (b : β) (off n : ℕ) : (m.bytes b off n).length = n := by
  simp [bytes]

theorem getElem?_bytes (m : Memory β) (b : β) (off : ℕ) {n i : ℕ} (hi : i < n) :
    (m.bytes b off n)[i]? = some (m b (off + i)) := by
  simp [bytes, hi]

theorem bytes_add (m : Memory β) (b : β) (off n k : ℕ) :
    m.bytes b off (n + k) = m.bytes b off n ++ m.bytes b (off + n) k := by
  rw [bytes, bytes, bytes, ← List.map_append, List.range'_append_1]

variable [DecidableEq β]

/-- The memory after `bs` has been written to the cells from `off` on. -/
def put (m : Memory β) (b : β) (off : ℕ) (bs : List UInt8) : Memory β := fun b' i =>
  if b' = b ∧ off ≤ i then bs[i - off]?.getD (m b' i) else m b' i

theorem put_of_ne (m : Memory β) {b b' : β} (ne : b' ≠ b) (off : ℕ) (bs : List UInt8) :
    m.put b off bs b' = m b' := by
  funext i
  rw [put, if_neg fun h => ne h.1]

@[simp] theorem put_nil (m : Memory β) (b : β) (off : ℕ) : m.put b off [] = m := by
  funext b' i
  simp [put]

/-- Writes that continue one another. -/
theorem put_append (m : Memory β) (b : β) (off : ℕ) (xs ys : List UInt8) :
    m.put b off (xs ++ ys) = (m.put b off xs).put b (off + xs.length) ys := by
  funext b' i
  simp only [put]
  by_cases own : b' = b
  · subst own
    rcases Nat.lt_or_ge i off with before | after
    · rw [if_neg (by omega), if_neg (by omega), if_neg (by omega)]
    · rw [if_pos ⟨rfl, after⟩]
      rcases Nat.lt_or_ge i (off + xs.length) with first | second
      · rw [if_neg (by omega), if_pos ⟨rfl, after⟩, List.getElem?_append_left (by omega)]
      · rw [if_pos ⟨rfl, second⟩, if_pos ⟨rfl, after⟩, List.getElem?_append_right (by omega),
          List.getElem?_eq_none (show xs.length ≤ i - off by omega), Nat.sub_sub, Option.getD_none]
  · rw [if_neg fun h => own h.1, if_neg fun h => own h.1, if_neg fun h => own h.1]

theorem put_cons (m : Memory β) (b : β) (off : ℕ) (v : UInt8) (vs : List UInt8) :
    m.put b off (v :: vs) = (m.put b off [v]).put b (off + 1) vs :=
  m.put_append b off [v] vs

/-- A write of as many bytes to the same cells replaces the first. -/
theorem put_put (m : Memory β) (b : β) (off : ℕ) {xs ys : List UInt8} (same : xs.length = ys.length) :
    (m.put b off xs).put b off ys = m.put b off ys := by
  funext b' i
  simp only [put]
  split_ifs with here
  · rcases Nat.lt_or_ge (i - off) ys.length with inside | outside
    · rw [List.getElem?_eq_getElem inside, Option.getD_some, Option.getD_some]
    · rw [List.getElem?_eq_none (by omega), List.getElem?_eq_none (by omega), Option.getD_none]
  · rfl

theorem bytes_put_of_ne (m : Memory β) {b b' : β} (ne : b' ≠ b) (off : ℕ) (bs : List UInt8)
    (off' n : ℕ) : (m.put b off bs).bytes b' off' n = m.bytes b' off' n := by
  rw [bytes, put_of_ne m ne, bytes]

/-- What stands behind the bytes that are written stays. -/
theorem bytes_put_behind (m : Memory β) (b : β) {off off' : ℕ} {bs : List UInt8}
    (behind : off + bs.length ≤ off') (n : ℕ) :
    (m.put b off bs).bytes b off' n = m.bytes b off' n := by
  refine List.map_congr_left fun i hi => ?_
  have after := (List.mem_range'_1.1 hi).1
  rw [put, if_pos ⟨rfl, by omega⟩, List.getElem?_eq_none (by omega), Option.getD_none]

theorem bytes_put_before (m : Memory β) (b : β) {off off' n : ℕ} (bs : List UInt8)
    (before : off' + n ≤ off) : (m.put b off bs).bytes b off' n = m.bytes b off' n := by
  refine List.map_congr_left fun i hi => ?_
  have here := List.mem_range'_1.1 hi
  rw [put, if_neg (by omega)]

/-- What was written is read back, also in parts. -/
theorem bytes_put (m : Memory β) (b : β) (off : ℕ) (bs : List UInt8) {k n : ℕ}
    (h : k + n ≤ bs.length) : (m.put b off bs).bytes b (off + k) n = (bs.drop k).take n := by
  apply List.ext_getElem?
  intro i
  rcases Nat.lt_or_ge i n with inside | outside
  · have here : i + k < bs.length := by omega
    rw [getElem?_bytes _ _ _ inside, put, if_pos ⟨rfl, by omega⟩, List.getElem?_take, if_pos inside,
      List.getElem?_drop, show off + k + i - off = k + i by omega,
      List.getElem?_eq_getElem (by omega), Option.getD_some]
  · rw [List.getElem?_eq_none (by rw [length_bytes]; omega),
      List.getElem?_eq_none (by rw [List.length_take]; omega)]

theorem bytes_put_self (m : Memory β) (b : β) (off : ℕ) (bs : List UInt8) :
    (m.put b off bs).bytes b off bs.length = bs := by
  have read := m.bytes_put b off bs (k := 0) (n := bs.length) (by omega)
  rwa [Nat.add_zero, List.drop_zero, List.take_length] at read

end Memory

/-! ## Accesses -/

section Accesses

/-- The reads of a range, in order. -/
def loads (b : β) (off n : ℕ) : List (Access β ε) := (List.range' off n).map (.load b)

/-- The writes of a range, in order. -/
def stores (b : β) (off n : ℕ) : List (Access β ε) := (List.range' off n).map (.store b)

theorem stores_add (b : β) (off n k : ℕ) :
    (stores b off (n + k) : List (Access β ε)) = stores b off n ++ stores b (off + n) k := by
  rw [stores, stores, stores, ← List.map_append, List.range'_append_1]

variable {b b' : β} {off n i : ℕ}

@[simp] theorem load_mem_loads :
    (.load b' i : Access β ε) ∈ loads b off n ↔ b' = b ∧ off ≤ i ∧ i < off + n := by
  simp [loads, List.mem_range'_1, eq_comm, and_comm]

@[simp] theorem store_mem_stores :
    (.store b' i : Access β ε) ∈ stores b off n ↔ b' = b ∧ off ≤ i ∧ i < off + n := by
  simp [stores, List.mem_range'_1, eq_comm, and_comm]

@[simp] theorem store_mem_loads : (.store b' i : Access β ε) ∉ loads b off n := by
  simp [loads]

@[simp] theorem load_mem_stores : (.load b' i : Access β ε) ∉ stores b off n := by
  simp [stores]

/-- The events that are called for. -/
def calls (as : List (Access β ε)) : List ε :=
  as.filterMap fun
    | .call e => some e
    | _ => none

@[simp] theorem calls_append (as bs : List (Access β ε)) : calls (as ++ bs) = calls as ++ calls bs :=
  List.filterMap_append

@[simp] theorem calls_loads : calls (loads b off n : List (Access β ε)) = [] := by
  simp [calls, loads]

end Accesses

/-! ## Programs -/

/-- Read a cell. -/
def load (b : β) (i : ℕ) : Program β ε UInt8 := do
  emit (.load b i)
  let m ← get
  return m b i

/-- Read the cells from `off` on. -/
def loadAll (b : β) : ℕ → ℕ → Program β ε (List UInt8)
  | _, 0 => pure []
  | off, n + 1 => do
    let v ← load b off
    let vs ← loadAll b (off + 1) n
    return v :: vs

@[simp] theorem value_load (b : β) (i : ℕ) (m : Memory β) :
    (load b i : Program β ε UInt8).value m = m b i := rfl

@[simp] theorem post_load (b : β) (i : ℕ) (m : Memory β) :
    (load b i : Program β ε UInt8).post m = m := rfl

@[simp] theorem trace_load (b : β) (i : ℕ) (m : Memory β) :
    (load b i : Program β ε UInt8).trace m = [.load b i] := rfl

@[simp] theorem post_loadAll (b : β) (off n : ℕ) (m : Memory β) :
    (loadAll b off n : Program β ε (List UInt8)).post m = m := by
  induction n generalizing off with
  | zero => rfl
  | succ n ih => exact ih (off + 1)

@[simp] theorem value_loadAll (b : β) (off n : ℕ) (m : Memory β) :
    (loadAll b off n : Program β ε (List UInt8)).value m = m.bytes b off n := by
  induction n generalizing off with
  | zero => rfl
  | succ n ih =>
    simp only [loadAll, value_bind, post_load, value_load, ih, value_pure, Memory.bytes,
      List.range'_succ, List.map_cons]

@[simp] theorem trace_loadAll (b : β) (off n : ℕ) (m : Memory β) :
    (loadAll b off n : Program β ε (List UInt8)).trace m = loads b off n := by
  induction n generalizing off with
  | zero => rfl
  | succ n ih =>
    simp only [loadAll, trace_bind, post_load, trace_load, ih, trace_pure, List.append_nil, loads,
      List.range'_succ, List.map_cons, List.singleton_append]

variable [DecidableEq β]

/-- Write a cell. -/
def store (b : β) (i : ℕ) (v : UInt8) : Program β ε Unit := do
  emit (.store b i)
  modify fun m => m.put b i [v]

/-- Write to the cells from `off` on. -/
def storeAll (b : β) : ℕ → List UInt8 → Program β ε Unit
  | _, [] => pure ()
  | off, v :: vs => do
    store b off v
    storeAll b (off + 1) vs

/-- The copy of `n` bytes from one array to another. -/
def memcpy (dst : β) (dstOff : ℕ) (src : β) (srcOff n : ℕ) : Program β ε Unit := do
  let bytes ← loadAll src srcOff n
  storeAll dst dstOff bytes

@[simp] theorem post_store (b : β) (i : ℕ) (v : UInt8) (m : Memory β) :
    (store b i v : Program β ε Unit).post m = m.put b i [v] := rfl

@[simp] theorem trace_store (b : β) (i : ℕ) (v : UInt8) (m : Memory β) :
    (store b i v : Program β ε Unit).trace m = [.store b i] := rfl

@[simp] theorem post_storeAll (b : β) (off : ℕ) (vs : List UInt8) (m : Memory β) :
    (storeAll b off vs : Program β ε Unit).post m = m.put b off vs := by
  induction vs generalizing off m with
  | nil => exact (m.put_nil b off).symm
  | cons v vs ih => exact (ih (off + 1) _).trans (m.put_cons b off v vs).symm

@[simp] theorem trace_storeAll (b : β) (off : ℕ) (vs : List UInt8) (m : Memory β) :
    (storeAll b off vs : Program β ε Unit).trace m = stores b off vs.length := by
  induction vs generalizing off m with
  | nil => rfl
  | cons v vs ih =>
    simp only [storeAll, trace_bind, trace_store, ih, stores, List.length_cons, List.range'_succ,
      List.map_cons, List.singleton_append]

@[simp] theorem post_memcpy (dst : β) (dstOff : ℕ) (src : β) (srcOff n : ℕ) (m : Memory β) :
    (memcpy dst dstOff src srcOff n : Program β ε Unit).post m =
      m.put dst dstOff (m.bytes src srcOff n) := by
  simp only [memcpy, post_bind, post_loadAll, value_loadAll, post_storeAll]

@[simp] theorem trace_memcpy (dst : β) (dstOff : ℕ) (src : β) (srcOff n : ℕ) (m : Memory β) :
    (memcpy dst dstOff src srcOff n : Program β ε Unit).trace m =
      loads src srcOff n ++ stores dst dstOff n := by
  simp only [memcpy, trace_bind, trace_loadAll, post_loadAll, value_loadAll, trace_storeAll,
    Memory.length_bytes]

end Cells
