import Araba.Crypto.Aes
import Araba.Packet
import Mathlib.Data.Sym.Sym2

/-!
# Pair keys and initialization vectors

`derive_pair_key` and `generate_iv` of `crypto.cpp`.
-/

namespace Araba

open Bytes

/-- The key of two nodes: the smaller MAC goes into the first half of the base key and the
larger one into the second, in the order of `memcmp`. -/
def derivePairKey (macA macB : Mac) (baseKey : Key) : Key :=
  let cmp := compare macA.toList macB.toList
  let first := if cmp = .gt then macB else macA
  let second := if cmp = .gt then macA else macB
  let outKey : Key := Vector.ofFn fun i =>
    if h : i.val < 6 then baseKey[i] ^^^ first[i.val]
    else if h : 16 ≤ i.val ∧ i.val < 22 then baseKey[i] ^^^ second[i.val - 16]
    else baseKey[i]
  Vector.ofFn fun i => (outKey[i] * 17 + UInt8.ofNat i.val) ^^^ 0xa5

/-- The bytes that `generate_iv` takes from the reading `now` of the steady clock. -/
def generateIv (now : ℕ) : Block := Vector.ofFn fun i => UInt8.ofNat ((now >>> (i.val * 4)) &&& 0xff)

/-- Both nodes derive the same key. -/
theorem derivePairKey_comm (macA macB : Mac) (baseKey : Key) :
    derivePairKey macA macB baseKey = derivePairKey macB macA baseKey := by
  have order : compare macB.toList macA.toList = (compare macA.toList macB.toList).swap :=
    Std.OrientedCmp.eq_swap
  cases h : compare macA.toList macB.toList with
  | lt => simp [derivePairKey, order, h]
  | gt => simp [derivePairKey, order, h]
  | eq =>
    have same : macA = macB := Vector.toList_inj.1 (Std.LawfulEqCmp.eq_of_compare h)
    rw [same]

/-- The two MACs in the order in which they go into the key. -/
def ordered (macA macB : Mac) : Mac × Mac :=
  if compare macA.toList macB.toList = .gt then (macB, macA) else (macA, macB)

theorem mk_ordered (macA macB : Mac) :
    s((ordered macA macB).1, (ordered macA macB).2) = s(macA, macB) := by
  rw [ordered]
  split_ifs
  · exact Sym2.eq_swap
  · rfl

/-- The last loop of `derive_pair_key` is one to one on each byte. -/
theorem mixKeyByte_injective (i : UInt8) : Function.Injective fun x : UInt8 => (x * 17 + i) ^^^ 0xa5 := by
  intro x y same
  have inverse (z : UInt8) : z * 17 * 241 = z := by
    rw [UInt8.mul_assoc, show (17 * 241 : UInt8) = 1 from rfl, UInt8.mul_one]
  have sum : x * 17 + i = y * 17 + i := (UInt8.xor_left_inj 0xa5).1 same
  have product : x * 17 = y * 17 := (UInt8.add_left_inj i).1 sum
  rw [← inverse x, product, inverse]

theorem getElem_derivePairKey (macA macB : Mac) (baseKey : Key) (i : ℕ) (hi : i < 32) :
    (derivePairKey macA macB baseKey)[i] =
      ((if h : i < 6 then baseKey[i] ^^^ (ordered macA macB).1[i]
        else if h : 16 ≤ i ∧ i < 22 then baseKey[i] ^^^ (ordered macA macB).2[i - 16]
        else baseKey[i]) * 17 + UInt8.ofNat i) ^^^ 0xa5 := by
  have first : (if compare macA.toList macB.toList = .gt then macB else macA) =
      (ordered macA macB).1 := by
    rw [ordered]
    split_ifs <;> rfl
  have second : (if compare macA.toList macB.toList = .gt then macA else macB) =
      (ordered macA macB).2 := by
    rw [ordered]
    split_ifs <;> rfl
  simp only [derivePairKey, Vector.getElem_ofFn, first, second, Fin.getElem_fin]

/-- Different pairs of nodes have different keys. -/
theorem derivePairKey_eq_iff (a b c d : Mac) (baseKey : Key) :
    derivePairKey a b baseKey = derivePairKey c d baseKey ↔ s(a, b) = s(c, d) := by
  constructor
  · intro same
    have byte (i : ℕ) (hi : i < 32) :
        (if h : i < 6 then baseKey[i] ^^^ (ordered a b).1[i]
          else if h : 16 ≤ i ∧ i < 22 then baseKey[i] ^^^ (ordered a b).2[i - 16]
          else baseKey[i]) =
        (if h : i < 6 then baseKey[i] ^^^ (ordered c d).1[i]
          else if h : 16 ≤ i ∧ i < 22 then baseKey[i] ^^^ (ordered c d).2[i - 16]
          else baseKey[i]) := by
      have mixed := congrArg (fun key : Key => key[i]) same
      simp only [getElem_derivePairKey] at mixed
      exact mixKeyByte_injective (UInt8.ofNat i) mixed
    have first : (ordered a b).1 = (ordered c d).1 := by
      apply Vector.ext
      intro i hi
      have here := byte i (by omega)
      rw [dif_pos hi, dif_pos hi] at here
      exact (UInt8.xor_right_inj _).1 here
    have second : (ordered a b).2 = (ordered c d).2 := by
      apply Vector.ext
      intro i hi
      have here := byte (i + 16) (by omega)
      have far : ¬ i + 16 < 6 := by omega
      have inside : 16 ≤ i + 16 ∧ i + 16 < 22 := by omega
      rw [dif_neg far, dif_neg far, dif_pos inside, dif_pos inside] at here
      exact (UInt8.xor_right_inj _).1 here
    rw [← mk_ordered a b, ← mk_ordered c d, first, second]
  · intro same
    rcases Sym2.eq_iff.1 same with ⟨rfl, rfl⟩ | ⟨rfl, rfl⟩
    · rfl
    · exact derivePairKey_comm a b baseKey

/-- For every two nodes, different base keys give different keys. -/
theorem derivePairKey_injective (macA macB : Mac) : Function.Injective (derivePairKey macA macB) := by
  intro k k' same
  apply Vector.ext
  intro i hi
  have mixed := congrArg (fun key : Key => key[i]) same
  simp only [getElem_derivePairKey] at mixed
  have here := mixKeyByte_injective (UInt8.ofNat i) mixed
  split_ifs at here with first second
  · exact (UInt8.xor_left_inj _).1 here
  · exact (UInt8.xor_left_inj _).1 here
  · exact here

end Araba
