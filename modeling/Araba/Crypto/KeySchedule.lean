import Araba.Crypto.Conformance
import Araba.Lib.Cells

/-!
# The arrays of the key expansion

`key_expansion` cell by cell. The first loop lays the bytes of a word of the key on the first bytes of
four words of the schedule, and gathers them again; what it leaves behind in the later words is
written over before it is read. Every access stays inside its array.
-/

namespace Araba

open Traced Cells

/-- The arrays that `key_expansion` works on. -/
inductive KeyArray
  | key
  | roundKeys
  | temp
  deriving DecidableEq

/-- The number of bytes in the array. -/
def KeyArray.size : KeyArray → ℕ
  | key => 32
  | roundKeys => 240
  | temp => 4

/-! ## The code -/

/-- `round_keys[i][j * 4 + 0] = key[i * 4 + j]`. -/
def scatterByteCells (i j : ℕ) : Program KeyArray Empty Unit := do
  let v ← load .key (4 * i + j)
  store .roundKeys (4 * i + 4 * j) v

/-- The spread bytes are read back and stored as word `i`. -/
def gatherWordCells (i : ℕ) : Program KeyArray Empty Unit := do
  let w0 ← load .roundKeys (4 * i)
  let w1 ← load .roundKeys (4 * i + 4)
  let w2 ← load .roundKeys (4 * i + 8)
  let w3 ← load .roundKeys (4 * i + 12)
  storeAll .roundKeys (4 * i) [w0, w1, w2, w3]

/-- One step of the first loop. -/
def copyWordCells (i : ℕ) : Program KeyArray Empty Unit := do
  runAll ((List.range 4).map (scatterByteCells i))
  gatherWordCells i

/-- `w[j] = w[k]`. -/
def moveByteCells (j k : ℕ) : Program KeyArray Empty Unit := do
  let v ← load .temp k
  store .temp j v

/-- `rot_word(temp)`. -/
def rotWordCells : Program KeyArray Empty Unit := do
  let t ← load .temp 0
  moveByteCells 0 1
  moveByteCells 1 2
  moveByteCells 2 3
  store .temp 3 t

/-- `w[j] = sbox[w[j]]`. -/
def subByteCells (j : ℕ) : Program KeyArray Empty Unit := do
  let v ← load .temp j
  store .temp j (sbox v)

/-- `sub_word(temp)`. -/
def subWordCells : Program KeyArray Empty Unit := runAll ((List.range 4).map subByteCells)

/-- `temp[0] ^= rcon[i / 8]`. -/
def addRconCells (i : ℕ) : Program KeyArray Empty Unit := do
  let v ← load .temp 0
  store .temp 0 (v ^^^ rcon (i / 8))

/-- `temp[j] = round_keys[i - 1][j]`. -/
def loadTempCells (i j : ℕ) : Program KeyArray Empty Unit := do
  let v ← load .roundKeys (4 * (i - 1) + j)
  store .temp j v

/-- `round_keys[i][j] = round_keys[i - 8][j] ^ temp[j]`. -/
def xorByteCells (i j : ℕ) : Program KeyArray Empty Unit := do
  let a ← load .roundKeys (4 * (i - 8) + j)
  let b ← load .temp j
  store .roundKeys (4 * i + j) (a ^^^ b)

/-- The word in front of word `i`, as it goes into word `i`. -/
def tempCells (i : ℕ) : Program KeyArray Empty Unit :=
  if i % 8 = 0 then do
    rotWordCells
    subWordCells
    addRconCells i
  else if i % 8 = 4 then subWordCells
  else pure ()

/-- One step of the second loop. -/
def expandWordCells (i : ℕ) : Program KeyArray Empty Unit := do
  runAll ((List.range 4).map (loadTempCells i))
  tempCells i
  runAll ((List.range 4).map (xorByteCells i))

/-- `key_expansion`: its two loops, cell by cell. -/
def keyExpansionCells : Program KeyArray Empty Unit := do
  runAll ((List.range 8).map copyWordCells)
  runAll ((List.range' 8 52).map expandWordCells)

/-! ## What the arrays hold -/

/-- The key that is in its array. -/
def keyOf (m : Memory KeyArray) : Key := Vector.ofFn fun k => m .key k.val

/-- What is in `round_keys`. -/
def roundKeysOf (m : Memory KeyArray) : RoundKeys := Vector.ofFn fun k => m .roundKeys k.val

/-- What is in `temp`. -/
def tempOf (m : Memory KeyArray) : Word := Vector.ofFn fun k => m .temp k.val

section Arrays

variable (m : Memory KeyArray)

theorem getElem?_keyOf {k : ℕ} (h : k < 32) : (keyOf m)[k]?.getD 0 = m .key k := by
  simp [keyOf, h]

theorem getElem?_roundKeysOf {k : ℕ} (h : k < 240) :
    (roundKeysOf m)[k]?.getD 0 = m .roundKeys k := by
  simp [roundKeysOf, h]

theorem put_one (b : KeyArray) (k : ℕ) (v : UInt8) (k' : ℕ) :
    m.put b k [v] b k' = if k' = k then v else m b k' := by
  simp only [Memory.put, true_and]
  split_ifs with after here here
  · simp [here]
  · rw [List.getElem?_eq_none (by simp; omega), Option.getD_none]
  · omega
  · rfl

theorem roundKeysOf_put (k : ℕ) (v : UInt8) :
    roundKeysOf (m.put .roundKeys k [v]) = (roundKeysOf m).setIfInBounds k v := by
  apply Vector.ext
  intro k' h
  rw [Vector.getElem_setIfInBounds]
  simp only [roundKeysOf, Vector.getElem_ofFn, put_one, eq_comm]

theorem roundKeysOf_put_ne {b : KeyArray} (ne : .roundKeys ≠ b) (k : ℕ) (vs : List UInt8) :
    roundKeysOf (m.put b k vs) = roundKeysOf m := by
  rw [roundKeysOf, m.put_of_ne ne, roundKeysOf]

theorem keyOf_put_ne {b : KeyArray} (ne : .key ≠ b) (k : ℕ) (vs : List UInt8) :
    keyOf (m.put b k vs) = keyOf m := by
  rw [keyOf, m.put_of_ne ne, keyOf]

theorem tempOf_put {k : ℕ} (h : k < 4) (v : UInt8) :
    tempOf (m.put .temp k [v]) = (tempOf m).set k v := by
  apply Vector.ext
  intro k' h'
  rw [Vector.getElem_set]
  simp only [tempOf, Vector.getElem_ofFn, put_one, eq_comm]

theorem getElem_tempOf {k : ℕ} (h : k < 4) : (tempOf m)[k] = m .temp k := by
  simp [tempOf]

/-! ## What the steps do -/

theorem post_scatterByteCells {i j : ℕ} (hi : i < 8) (hj : j < 4) :
    roundKeysOf ((scatterByteCells i j).post m) =
        (roundKeysOf m).setIfInBounds (4 * i + 4 * j) ((keyOf m)[4 * i + j]?.getD 0) ∧
      keyOf ((scatterByteCells i j).post m) = keyOf m := by
  have post : (scatterByteCells i j).post m =
      m.put .roundKeys (4 * i + 4 * j) [m .key (4 * i + j)] := rfl
  rw [post, roundKeysOf_put, keyOf_put_ne m (by decide), getElem?_keyOf m (by omega)]
  exact ⟨rfl, rfl⟩

/-- The bytes of a word of the key are spread as by `scatterKey`. -/
theorem post_scatterCells {i : ℕ} (hi : i < 8) :
    roundKeysOf ((runAll ((List.range 4).map (scatterByteCells i))).post m) =
        scatterKey (keyOf m) (roundKeysOf m) i ∧
      keyOf ((runAll ((List.range 4).map (scatterByteCells i))).post m) = keyOf m := by
  have run (js : List ℕ) (inside : ∀ j ∈ js, j < 4) (m : Memory KeyArray) :
      roundKeysOf ((runAll (js.map (scatterByteCells i))).post m) =
          js.foldl (fun rk j => rk.setIfInBounds (4 * i + 4 * j) ((keyOf m)[4 * i + j]?.getD 0))
            (roundKeysOf m) ∧
        keyOf ((runAll (js.map (scatterByteCells i))).post m) = keyOf m := by
    induction js generalizing m with
    | nil => exact ⟨rfl, rfl⟩
    | cons j js ih =>
      obtain ⟨keys, key⟩ := post_scatterByteCells m hi (inside j List.mem_cons_self)
      obtain ⟨keys', key'⟩ := ih (fun k hk => inside k (List.mem_cons_of_mem j hk))
        ((scatterByteCells i j).post m)
      rw [List.map_cons, runAll, post_bind, List.foldl_cons, keys', key', keys, key]
      exact ⟨rfl, rfl⟩
  exact run (List.range 4) (fun j hj => List.mem_range.1 hj) m

theorem roundKeysOf_put_word (i : ℕ) (w0 w1 w2 w3 : UInt8) :
    roundKeysOf (m.put .roundKeys (4 * i) [w0, w1, w2, w3]) =
      (roundKeysOf m).setWord i #v[w0, w1, w2, w3] := by
  rw [Memory.put_cons, Memory.put_cons, Memory.put_cons, roundKeysOf_put, roundKeysOf_put,
    roundKeysOf_put, roundKeysOf_put]
  simp [RoundKeys.setWord]

theorem post_gatherWordCells (i : ℕ) :
    (gatherWordCells i).post m = m.put .roundKeys (4 * i)
      [m .roundKeys (4 * i), m .roundKeys (4 * i + 4), m .roundKeys (4 * i + 8),
        m .roundKeys (4 * i + 12)] := by
  rw [gatherWordCells, post_bind, post_load, value_load, post_bind, post_load, value_load, post_bind,
    post_load, value_load, post_bind, post_load, value_load, post_storeAll]

theorem post_copyWordCells {i : ℕ} (hi : i < 8) :
    roundKeysOf ((copyWordCells i).post m) = copyWord (keyOf m) (roundKeysOf m) i ∧
      keyOf ((copyWordCells i).post m) = keyOf m := by
  obtain ⟨keys, key⟩ := post_scatterCells m hi
  rw [copyWordCells, post_bind, post_gatherWordCells, copyWord_eq, ← keys,
    keyOf_put_ne _ (by decide), key, roundKeysOf_put_word]
  generalize (runAll ((List.range 4).map (scatterByteCells i))).post m = m'
  rw [getElem?_roundKeysOf m' (show 4 * i < 240 by omega),
    getElem?_roundKeysOf m' (show 4 * i + 4 < 240 by omega),
    getElem?_roundKeysOf m' (show 4 * i + 8 < 240 by omega),
    getElem?_roundKeysOf m' (show 4 * i + 12 < 240 by omega)]
  exact ⟨rfl, rfl⟩

theorem runAll_four (f : ℕ → Program KeyArray Empty Unit) :
    (runAll ((List.range 4).map f)).post m =
      (f 3).post ((f 2).post ((f 1).post ((f 0).post m))) := rfl

theorem post_loadTempCells {i j : ℕ} (pos : 1 ≤ i) (hi : i < 60) (hj : j < 4) :
    roundKeysOf ((loadTempCells i j).post m) = roundKeysOf m ∧
      tempOf ((loadTempCells i j).post m) =
        (tempOf m).set j ((roundKeysOf m).word (i - 1))[j] := by
  have post : (loadTempCells i j).post m = m.put .temp j [m .roundKeys (4 * (i - 1) + j)] := rfl
  rw [post, roundKeysOf_put_ne m (by decide), tempOf_put m hj, RoundKeys.getElem_word,
    getElem?_roundKeysOf m (by omega)]
  exact ⟨rfl, rfl⟩

theorem post_loadTemp {i : ℕ} (pos : 1 ≤ i) (hi : i < 60) :
    roundKeysOf ((runAll ((List.range 4).map (loadTempCells i))).post m) = roundKeysOf m ∧
      tempOf ((runAll ((List.range 4).map (loadTempCells i))).post m) =
        (roundKeysOf m).word (i - 1) := by
  have byte (m : Memory KeyArray) {j : ℕ} (hj : j < 4) := post_loadTempCells m pos hi hj
  rw [runAll_four]
  refine ⟨?_, ?_⟩
  · rw [(byte _ (by decide)).1, (byte _ (by decide)).1, (byte _ (by decide)).1,
      (byte _ (by decide)).1]
  · rw [(byte _ (by decide)).2, (byte _ (by decide)).1, (byte _ (by decide)).2,
      (byte _ (by decide)).1, (byte _ (by decide)).2, (byte _ (by decide)).1,
      (byte _ (by decide)).2]
    generalize (roundKeysOf m).word (i - 1) = w
    apply Vector.ext
    intro k hk
    interval_cases k <;> simp

theorem post_rotWordCells :
    roundKeysOf (rotWordCells.post m) = roundKeysOf m ∧
      tempOf (rotWordCells.post m) = rotWord (tempOf m) := by
  have post : rotWordCells.post m =
      (((m.put .temp 0 [m .temp 1]).put .temp 1 [m .temp 2]).put .temp 2 [m .temp 3]).put .temp 3
        [m .temp 0] := rfl
  rw [post]
  refine ⟨?_, ?_⟩
  · simp only [roundKeysOf_put_ne _ (b := .temp) nofun]
  · rw [tempOf_put _ (by decide), tempOf_put _ (by decide), tempOf_put _ (by decide),
      tempOf_put _ (by decide)]
    apply Vector.ext
    intro k hk
    interval_cases k <;> simp [rotWord, getElem_tempOf]

theorem post_subByteCells {j : ℕ} (hj : j < 4) :
    roundKeysOf ((subByteCells j).post m) = roundKeysOf m ∧
      tempOf ((subByteCells j).post m) = (tempOf m).set j (sbox (tempOf m)[j]) := by
  have post : (subByteCells j).post m = m.put .temp j [sbox (m .temp j)] := rfl
  rw [post, roundKeysOf_put_ne m (by decide), tempOf_put m hj, getElem_tempOf]
  exact ⟨rfl, rfl⟩

theorem post_subWordCells :
    roundKeysOf (subWordCells.post m) = roundKeysOf m ∧
      tempOf (subWordCells.post m) = subWord (tempOf m) := by
  have byte (m : Memory KeyArray) {j : ℕ} (hj : j < 4) := post_subByteCells m hj
  rw [subWordCells, runAll_four]
  refine ⟨?_, ?_⟩
  · rw [(byte _ (by decide)).1, (byte _ (by decide)).1, (byte _ (by decide)).1,
      (byte _ (by decide)).1]
  · rw [(byte _ (by decide)).2, (byte _ (by decide)).2, (byte _ (by decide)).2,
      (byte _ (by decide)).2]
    generalize tempOf m = w
    apply Vector.ext
    intro k hk
    interval_cases k <;> simp [subWord]

theorem post_addRconCells (i : ℕ) :
    roundKeysOf ((addRconCells i).post m) = roundKeysOf m ∧
      tempOf ((addRconCells i).post m) =
        (tempOf m).set 0 ((tempOf m).get 0 ^^^ rcon (i / 8)) (Nat.zero_lt_succ 3) := by
  have post : (addRconCells i).post m = m.put .temp 0 [m .temp 0 ^^^ rcon (i / 8)] := rfl
  have first : (tempOf m).get 0 = m .temp 0 := getElem_tempOf m (Nat.zero_lt_succ 3)
  rw [post, roundKeysOf_put_ne m (by decide), tempOf_put m (Nat.zero_lt_succ 3), first]
  exact ⟨rfl, rfl⟩

theorem post_tempCells (i : ℕ) :
    roundKeysOf ((tempCells i).post m) = roundKeysOf m ∧
      tempOf ((tempCells i).post m) = temp i (tempOf m) := by
  rw [tempCells, temp]
  split_ifs with first middle
  · rw [post_bind, post_bind, (post_addRconCells _ i).1, (post_addRconCells _ i).2,
      (post_subWordCells _).1, (post_subWordCells _).2, (post_rotWordCells m).1,
      (post_rotWordCells m).2]
    exact ⟨rfl, rfl⟩
  · exact post_subWordCells m
  · exact ⟨rfl, rfl⟩

theorem xorBytes_word_tempOf {k : ℕ} (h : k < 60) :
    xorBytes ((roundKeysOf m).word k) (tempOf m) =
      #v[m .roundKeys (4 * k) ^^^ m .temp 0, m .roundKeys (4 * k + 1) ^^^ m .temp 1,
        m .roundKeys (4 * k + 2) ^^^ m .temp 2, m .roundKeys (4 * k + 3) ^^^ m .temp 3] := by
  apply Vector.ext
  intro j hj
  rw [getElem_xorBytes, RoundKeys.getElem_word, getElem?_roundKeysOf m (by omega), getElem_tempOf]
  interval_cases j <;> rfl

/-- The word is stored byte by byte; what it is made from stays meanwhile. -/
theorem post_xorCells {i : ℕ} (late : 8 ≤ i) (hi : i < 60) :
    roundKeysOf ((runAll ((List.range 4).map (xorByteCells i))).post m) =
      (roundKeysOf m).setWord i (xorBytes ((roundKeysOf m).word (i - 8)) (tempOf m)) := by
  have byte (m : Memory KeyArray) (j : ℕ) : (xorByteCells i j).post m =
      m.put .roundKeys (4 * i + j) [m .roundKeys (4 * (i - 8) + j) ^^^ m .temp j] := rfl
  have old (m : Memory KeyArray) (k k' : ℕ) (v : UInt8) (ne : k' < k) :
      m.put .roundKeys k [v] .roundKeys k' = m .roundKeys k' := by
    rw [put_one, if_neg (by omega)]
  have kept (m : Memory KeyArray) (k : ℕ) (v : UInt8) :
      m.put .roundKeys k [v] .temp = m .temp := m.put_of_ne (by decide) _ _
  rw [xorBytes_word_tempOf m (by omega), ← roundKeysOf_put_word, runAll_four, byte, byte, byte, byte,
    Memory.put_cons _ _ _ _ [_, _, _], Memory.put_cons _ _ _ _ [_, _], Memory.put_cons _ _ _ _ [_]]
  simp (disch := omega) only [kept, old, Nat.add_zero, Nat.add_assoc, Nat.reduceAdd]

theorem post_expandWordCells {i : ℕ} (late : 8 ≤ i) (hi : i < 60) :
    roundKeysOf ((expandWordCells i).post m) = expandWord (roundKeysOf m) i := by
  obtain ⟨keys, front⟩ := post_loadTemp m (show 1 ≤ i by omega) hi
  rw [expandWordCells, post_bind, post_bind, post_xorCells _ late hi, (post_tempCells _ i).1,
    (post_tempCells _ i).2, keys, front, expandWord]

/-! ## Both loops -/

theorem post_firstLoop {n : ℕ} (hn : n ≤ 8) :
    roundKeysOf ((runAll ((List.range n).map copyWordCells)).post m) =
        (List.range n).foldl (copyWord (keyOf m)) (roundKeysOf m) ∧
      keyOf ((runAll ((List.range n).map copyWordCells)).post m) = keyOf m := by
  induction n with
  | zero => exact ⟨rfl, rfl⟩
  | succ n ih =>
    obtain ⟨keys, key⟩ := ih (by omega)
    obtain ⟨keys', key'⟩ := post_copyWordCells ((runAll ((List.range n).map copyWordCells)).post m)
      (show n < 8 by omega)
    rw [List.range_succ, List.map_append, List.map_singleton, post_runAll_concat, List.foldl_concat,
      keys', key', keys, key]
    exact ⟨rfl, rfl⟩

theorem post_secondLoop {n : ℕ} (hn : n ≤ 52) :
    roundKeysOf ((runAll ((List.range' 8 n).map expandWordCells)).post m) =
      (List.range' 8 n).foldl expandWord (roundKeysOf m) := by
  induction n with
  | zero => rfl
  | succ n ih =>
    rw [List.range'_1_concat, List.map_append, List.map_singleton, post_runAll_concat,
      List.foldl_concat, ← ih (by omega), post_expandWordCells _ (by omega) (by omega)]

/-- The array ends as `keyExpansion` says. -/
theorem keyExpansion_eq_cells :
    keyExpansion (keyOf m) (roundKeysOf m) = roundKeysOf (keyExpansionCells.post m) := by
  rw [keyExpansionCells, post_bind, post_secondLoop _ le_rfl, (post_firstLoop m le_rfl).1,
    keyExpansion]

end Arrays

/-! ## Accesses -/

/-- The access is to a cell of the array. -/
def Inside : Access KeyArray Empty → Prop
  | .load b k => k < b.size
  | .store b k => k < b.size
  | .call _ => False

section Accesses

/-- Whatever the arrays hold. -/
abbrev StaysInside (prog : Program KeyArray Empty Unit) : Prop :=
  Preserves (fun _ => True) Inside prog

theorem inside_load {b : KeyArray} {k : ℕ} (h : k < b.size) :
    Preserves (fun _ => True) Inside (load b k : Program KeyArray Empty UInt8) :=
  .bind (.emit h) fun _ => .bind .get fun _ => .pure _

theorem inside_store {b : KeyArray} {k : ℕ} (h : k < b.size) (v : UInt8) :
    StaysInside (store b k v) :=
  .bind (.emit h) fun _ => .modify fun _ _ => trivial

theorem inside_four {f : ℕ → Program KeyArray Empty Unit} (h : ∀ j < 4, StaysInside (f j)) :
    StaysInside (runAll ((List.range 4).map f)) := by
  refine .runAll fun prog mem => ?_
  obtain ⟨j, hj, rfl⟩ := List.mem_map.1 mem
  exact h j (List.mem_range.1 hj)

theorem inside_copyWordCells {i : ℕ} (hi : i < 8) : StaysInside (copyWordCells i) := by
  have cell (k : ℕ) (hk : k < 60) : k < KeyArray.roundKeys.size := by
    simp only [KeyArray.size]
    omega
  have byte (j : ℕ) (hj : j < 4) : StaysInside (scatterByteCells i j) :=
    .bind (inside_load (by simp only [KeyArray.size]; omega)) fun v =>
      inside_store (cell _ (by omega)) v
  refine .bind (inside_four byte) fun _ => ?_
  refine .bind (inside_load (cell _ (by omega))) fun w0 =>
    .bind (inside_load (cell _ (by omega))) fun w1 =>
    .bind (inside_load (cell _ (by omega))) fun w2 =>
    .bind (inside_load (cell _ (by omega))) fun w3 => ?_
  exact .bind (inside_store (cell _ (by omega)) w0) fun _ =>
    .bind (inside_store (cell _ (by omega)) w1) fun _ =>
    .bind (inside_store (cell _ (by omega)) w2) fun _ =>
    .bind (inside_store (cell _ (by omega)) w3) fun _ => .pure ()

theorem inside_tempCells (i : ℕ) : StaysInside (tempCells i) := by
  have move (j k : ℕ) (hj : j < 4) (hk : k < 4) : StaysInside (moveByteCells j k) :=
    .bind (inside_load hk) fun v => inside_store hj v
  have rot : StaysInside rotWordCells :=
    .bind (inside_load (by decide)) fun t => .bind (move 0 1 (by decide) (by decide)) fun _ =>
      .bind (move 1 2 (by decide) (by decide)) fun _ =>
      .bind (move 2 3 (by decide) (by decide)) fun _ => inside_store (by decide) t
  have sub : StaysInside subWordCells :=
    inside_four fun j hj => .bind (inside_load hj) fun v => inside_store hj _
  have add : StaysInside (addRconCells i) :=
    .bind (inside_load (by decide)) fun v => inside_store (by decide) _
  exact .ite (.bind rot fun _ => .bind sub fun _ => add) (.ite sub (.pure ()))

theorem inside_expandWordCells {i : ℕ} (hi : i < 60) :
    StaysInside (expandWordCells i) := by
  have word (k j : ℕ) (hk : k < 60) (hj : j < 4) : 4 * k + j < KeyArray.roundKeys.size := by
    simp only [KeyArray.size]
    omega
  have load (j : ℕ) (hj : j < 4) : StaysInside (loadTempCells i j) :=
    .bind (inside_load (word _ _ (by omega) hj)) fun v => inside_store hj v
  have xor (j : ℕ) (hj : j < 4) : StaysInside (xorByteCells i j) :=
    .bind (inside_load (word _ _ (by omega) hj)) fun a => .bind (inside_load hj) fun b =>
      inside_store (word _ _ hi hj) _
  exact .bind (inside_four load) fun _ => .bind (inside_tempCells i) fun _ => inside_four xor

theorem inside_keyExpansionCells : StaysInside keyExpansionCells := by
  refine .bind (.runAll fun prog mem => ?_) fun _ => .runAll fun prog mem => ?_
  · obtain ⟨i, hi, rfl⟩ := List.mem_map.1 mem
    exact inside_copyWordCells (List.mem_range.1 hi)
  · obtain ⟨i, hi, rfl⟩ := List.mem_map.1 mem
    exact inside_expandWordCells (List.mem_range'_1.1 hi).2

end Accesses

/-! ## The schedule -/

theorem keyOf_put (m : Memory KeyArray) (key : Key) : keyOf (m.put .key 0 key.toList) = key := by
  apply Vector.ext
  intro k hk
  simp [keyOf, Memory.put]

/-- For every key, and whatever the other arrays hold before, the schedule is that of the standard and
no access leaves its array; in particular all writes to `round_keys` are below 240. -/
theorem keySchedule (key : Key) (m : Memory KeyArray) :
    (∀ i < 60, (roundKeysOf (keyExpansionCells.post (m.put .key 0 key.toList))).word i =
        Standard.word key i) ∧
      ∀ access ∈ keyExpansionCells.trace (m.put .key 0 key.toList), Inside access := by
  refine ⟨fun i hi => ?_, (inside_keyExpansionCells _ trivial).2⟩
  rw [← keyExpansion_eq_cells, keyOf_put]
  exact word_keyExpansion key _ hi

/-- A key of zeros, on arrays of zeros. -/
theorem keySchedule_zero :
    (∀ i < 60, (roundKeysOf (keyExpansionCells.post
        (Memory.put (fun _ _ => 0) .key 0 (Vector.replicate 32 0).toList))).word i =
          Standard.word (Vector.replicate 32 0) i) ∧
      ∀ access ∈ keyExpansionCells.trace
        (Memory.put (fun _ _ => 0) .key 0 (Vector.replicate 32 0).toList), Inside access :=
  keySchedule (Vector.replicate 32 0) fun _ _ => 0

end Araba
