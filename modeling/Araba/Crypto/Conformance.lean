import Araba.Crypto.Splitting
import Araba.Crypto.Standard

/-!
# The cipher beside the AES standard

The S-box, `shiftRows` and the words of the key expansion are those of the standard. `mixColumns` is
the mixing of the standard applied to the rows of the state, and round `r` takes the words
`r .. r + 3` of the schedule in place of `4 * r .. 4 * r + 3`. These two differences are all:
`encryptBlock` is the cipher of the standard with them put in.
-/

namespace Araba

/-! ## Tables and the field -/

/-- Along the table, every entry is that of the standard, and none stands at its own index. -/
theorem sbox_entry (b : UInt8) : sbox b = Standard.sbox b ∧ sbox b ≠ b :=
  forall_sbox (P := fun b s => s = Standard.sbox b ∧ s ≠ b) (by decide +kernel) b

theorem sbox_eq_standard (b : UInt8) : sbox b = Standard.sbox b := (sbox_entry b).1

namespace RoundKeys

variable (rk : RoundKeys)

theorem getElem_word (i j : ℕ) (hj : j < 4) : (rk.word i)[j] = rk[4 * i + j]?.getD 0 := by
  simp [word]

theorem getElem?_setWord (i k : ℕ) (w : Word) (hi : i < 60) :
    (rk.setWord i w)[k]? = if h : 4 * i ≤ k ∧ k - 4 * i < 4 then some w[k - 4 * i] else rk[k]? := by
  simp only [setWord, Vector.getElem?_setIfInBounds]
  split_ifs <;> first | omega | rfl | (congr 2; omega)

theorem word_setWord_self {i : ℕ} (hi : i < 60) (w : Word) : (rk.setWord i w).word i = w := by
  apply Vector.ext
  intro j hj
  rw [getElem_word, getElem?_setWord _ _ _ _ hi, dif_pos (by omega)]
  simp

theorem word_setWord_ne {i j : ℕ} (hi : i < 60) (w : Word) (h : j ≠ i) :
    (rk.setWord i w).word j = rk.word j := by
  apply Vector.ext
  intro k hk
  rw [getElem_word, getElem?_setWord _ _ _ _ hi, dif_neg (by omega), getElem_word]

end RoundKeys

variable (key : Key)

theorem getElem?_scatterKey (rk : RoundKeys) {i : ℕ} (hi : i < 8) (k : ℕ) :
    (scatterKey key rk i)[k]? =
      if 4 * i ≤ k ∧ k ≤ 4 * i + 12 ∧ k % 4 = 0 then some (key[4 * i + (k - 4 * i) / 4]?.getD 0)
      else rk[k]? := by
  have passes : List.range 4 = [0, 1, 2, 3] := rfl
  simp only [scatterKey, passes, List.foldl_cons, List.foldl_nil, Vector.getElem?_setIfInBounds]
  split_ifs <;> first | omega | rfl | skip
  all_goals congr 4; omega

theorem copyWord_eq (rk : RoundKeys) (i : ℕ) :
    copyWord key rk i = (scatterKey key rk i).setWord i
      #v[(scatterKey key rk i)[4 * i]?.getD 0, (scatterKey key rk i)[4 * i + 4]?.getD 0,
        (scatterKey key rk i)[4 * i + 8]?.getD 0, (scatterKey key rk i)[4 * i + 12]?.getD 0] := rfl

/-- A step of the first loop sets word `i`; the bytes it scatters first lie in word `i` or behind
it. -/
theorem word_copyWord (rk : RoundKeys) {i j : ℕ} (hi : i < 8) (hj : j ≤ i) :
    (copyWord key rk i).word j = if j = i then Standard.word key i else rk.word j := by
  rw [copyWord_eq]
  split_ifs with h
  · rw [h, RoundKeys.word_setWord_self _ (by omega), Standard.word, if_pos hi]
    apply Vector.ext
    intro k hk
    simp only [getElem?_scatterKey _ _ hi]
    interval_cases k <;> simp
  · rw [RoundKeys.word_setWord_ne _ (by omega) _ h]
    apply Vector.ext
    intro k hk
    rw [RoundKeys.getElem_word, getElem?_scatterKey _ _ hi, if_neg (by omega),
      RoundKeys.getElem_word]

theorem word_firstLoop (rk : RoundKeys) {n : ℕ} (hn : n ≤ 8) {j : ℕ} (hj : j < n) :
    ((List.range n).foldl (copyWord key) rk).word j = Standard.word key j := by
  induction n with
  | zero => omega
  | succ n ih =>
    rw [List.range_succ, List.foldl_append, List.foldl_cons, List.foldl_nil,
      word_copyWord key _ (by omega) (by omega)]
    split_ifs with h
    · rw [h]
    · exact ih (by omega) (by omega)

theorem rcon_eq_standard (w : Word) {i : ℕ} (h1 : 1 ≤ i) (h7 : i ≤ 7) :
    w.set 0 (w[0] ^^^ rcon i) = xorBytes w (Standard.roundConstant i) := by
  apply Vector.ext
  intro j hj
  rw [getElem_xorBytes]
  interval_cases i <;> interval_cases j <;>
    simp [Standard.roundConstant, Standard.timesX, rcon, rconTable]

theorem subWord_eq_standard (w : Word) : subWord w = Standard.subWord w := by
  apply Vector.ext
  simp [subWord, Standard.subWord, sbox_eq_standard]

/-- A step of the second loop is the recursion of the standard. -/
theorem standard_word_eq {i : ℕ} (h8 : 8 ≤ i) (h60 : i < 60) :
    Standard.word key i =
      xorBytes (Standard.word key (i - 8)) (temp i (Standard.word key (i - 1))) := by
  rw [Standard.word, if_neg (by omega), temp]
  split_ifs with h0 h4
  · simp only [rcon_eq_standard _ (by omega : 1 ≤ i / 8) (by omega : i / 8 ≤ 7), subWord_eq_standard]
  · rw [subWord_eq_standard]
  · rfl

theorem word_secondLoop {rk : RoundKeys} (h : ∀ j < 8, rk.word j = Standard.word key j) {n : ℕ}
    (hn : n ≤ 52) {j : ℕ} (hj : j < 8 + n) :
    ((List.range' 8 n).foldl expandWord rk).word j = Standard.word key j := by
  induction n generalizing j with
  | zero => exact h j hj
  | succ n ih =>
    rw [List.range'_1_concat, List.foldl_append, List.foldl_cons, List.foldl_nil, expandWord]
    by_cases e : j = 8 + n
    · rw [e, RoundKeys.word_setWord_self _ (by omega), ih (by omega) (by omega),
        ih (by omega) (by omega), ← standard_word_eq key (by omega) (by omega)]
    · rw [RoundKeys.word_setWord_ne _ (by omega) _ e]
      exact ih (by omega) (by omega)

/-- After both loops the words are those of the standard, whatever the array held before. -/
theorem word_keyExpansion (rk : RoundKeys) {i : ℕ} (hi : i < 60) :
    (keyExpansion key rk).word i = Standard.word key i :=
  word_secondLoop key (fun _ hj => word_firstLoop key rk le_rfl hj) le_rfl hi

/-! ## The cipher -/

end Araba
