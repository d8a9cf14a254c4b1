import Araba.Crypto.Aes
import Araba.Lib.BlockCipher
import Mathlib.Data.Fintype.EquivFin
import Mathlib.Data.Nat.Bitwise
import Mathlib.Tactic.FinCases
import Mathlib.Tactic.IntervalCases

/-!
# The cipher is undone

`decryptBlock` and `encryptBlock` are inverse to one another, and so are the two CBC loops: the
tables are inverse, `mixColumns` is linear over the field of 256 elements with the inverse matrix
in `invMixColumns`, and the rounds are undone in the opposite order.
-/

namespace Araba

open BlockCipher

/-! ## Tables -/

theorem forall_sbox {P : UInt8 → UInt8 → Prop}
    (h : ∀ e ∈ sboxTable.toList.zipIdx, P (UInt8.ofNat e.2) e.1) (b : UInt8) : P b (sbox b) := by
  have hb : b.toNat < 256 := b.toNat_lt
  have entry : sboxTable.toList[b.toNat]? = some (sbox b) := by
    rw [Vector.getElem?_toList, Vector.getElem?_eq_getElem hb]
    rfl
  have there := h (sbox b, b.toNat) (List.mk_mem_zipIdx_iff_getElem?.2 entry)
  rwa [UInt8.ofNat_toNat] at there

/-- An entry of the inverse table, as a digit of the number that the table spells. -/
theorem invSbox_eq_digit (b : UInt8) :
    invSbox b = UInt8.ofNat (Bytes.leNat invSboxTable.toList / 256 ^ b.toNat) := by
  have hb : b.toNat < invSboxTable.toList.length := by
    rw [Vector.length_toList]
    exact b.toNat_lt
  rw [Bytes.digit_leNat _ hb, Vector.getElem_toList]
  rfl

theorem invSbox_sbox (b : UInt8) : invSbox (sbox b) = b := by
  rw [invSbox_eq_digit]
  exact forall_sbox
    (P := fun b s => UInt8.ofNat (Bytes.leNat invSboxTable.toList / 256 ^ s.toNat) = b)
    (by decide +kernel) b

theorem sbox_invSbox (b : UInt8) : sbox (invSbox b) = b := by
  have : Finite UInt8 := Finite.of_injective UInt8.toFin fun _ _ => UInt8.toFin_inj.1
  have onto : Function.Surjective sbox :=
    Finite.surjective_of_injective (Function.LeftInverse.injective invSbox_sbox)
  obtain ⟨a, rfl⟩ := onto b
  rw [invSbox_sbox]

/-! ## The field -/

theorem xor_xor_cancel (a b : UInt8) : a ^^^ b ^^^ b = a := by
  rw [UInt8.xor_assoc, UInt8.xor_self, UInt8.xor_zero]

theorem and_128 (a : UInt8) : a &&& 0x80 = if a.toNat < 128 then 0 else 0x80 := by
  apply UInt8.toNat_inj.1
  have lt : a.toNat < 256 := a.toNat_lt
  have bit : a.toNat &&& 2 ^ 7 = (a.toNat.testBit 7).toNat * 2 ^ 7 := Nat.and_two_pow ..
  have top : a.toNat.testBit 7 = decide (128 ≤ a.toNat) := by
    rw [Nat.testBit_eq_decide_div_mod_eq]
    exact decide_eq_decide.2 (by omega)
  rw [UInt8.toNat_and]
  refine bit.trans ?_
  rw [top]
  by_cases small : a.toNat < 128
  · rw [if_pos small, decide_eq_false (by omega)]
    rfl
  · rw [if_neg small, decide_eq_true (by omega)]
    rfl

theorem xtime_xor (a b : UInt8) : xtime (a ^^^ b) = xtime a ^^^ xtime b := by
  have high (a : UInt8) : a &&& 0x80 = 0 ∨ a &&& 0x80 = 0x80 := by
    rw [and_128]
    exact (ite_eq_or_eq _ _ _).imp id id
  have split : (a ^^^ b) &&& 0x80 = (a &&& 0x80) ^^^ (b &&& 0x80) := by
    apply UInt8.toBitVec_inj.1
    apply BitVec.eq_of_getLsbD_eq
    intro i _
    simp [Bool.and_xor_distrib_right]
  have shift : (a ^^^ b) <<< 1 = (a <<< 1) ^^^ (b <<< 1) := UInt8.shiftLeft_xor
  have swap (x y z : UInt8) : x ^^^ y ^^^ z = x ^^^ z ^^^ y := by ac_rfl
  rcases high a with ha | ha <;> rcases high b with hb | hb <;>
    simp only [xtime, split, shift, ha, hb]
  · rfl
  · exact (UInt8.xor_assoc ..)
  · exact swap ..
  · calc (a <<< 1) ^^^ (b <<< 1)
        = (a <<< 1) ^^^ (b <<< 1) ^^^ 0x1b ^^^ 0x1b := (xor_xor_cancel _ 0x1b).symm
      _ = ((a <<< 1) ^^^ (0x1b : UInt8)) ^^^ ((b <<< 1) ^^^ (0x1b : UInt8)) := by ac_rfl

theorem gmulLoop_xor (k : ℕ) (a a' b p p' : UInt8) :
    gmulLoop k (a ^^^ a') b (p ^^^ p') = gmulLoop k a b p ^^^ gmulLoop k a' b p' := by
  induction k generalizing a a' b p p' with
  | zero => rfl
  | succ k ih =>
    simp only [gmulLoop, xtime_xor]
    split_ifs with h
    · rw [← ih]
      congr 1
      ac_rfl
    · exact ih ..

theorem gmul_2 (a : UInt8) : gmul a 2 = xtime a := by
  show 0 ^^^ xtime a = _
  rw [UInt8.zero_xor]

theorem gmul_3 (a : UInt8) : gmul a 3 = a ^^^ xtime a := by
  show 0 ^^^ a ^^^ xtime a = _
  rw [UInt8.zero_xor]

theorem gmul_9 (a : UInt8) : gmul a 0x09 = a ^^^ xtime (xtime (xtime a)) := by
  show 0 ^^^ a ^^^ xtime (xtime (xtime a)) = _
  rw [UInt8.zero_xor]

theorem gmul_b (a : UInt8) : gmul a 0x0b = a ^^^ xtime a ^^^ xtime (xtime (xtime a)) := by
  show 0 ^^^ a ^^^ xtime a ^^^ xtime (xtime (xtime a)) = _
  rw [UInt8.zero_xor]

theorem gmul_d (a : UInt8) : gmul a 0x0d = a ^^^ xtime (xtime a) ^^^ xtime (xtime (xtime a)) := by
  show 0 ^^^ a ^^^ xtime (xtime a) ^^^ xtime (xtime (xtime a)) = _
  rw [UInt8.zero_xor]

theorem gmul_e (a : UInt8) :
    gmul a 0x0e = xtime a ^^^ xtime (xtime a) ^^^ xtime (xtime (xtime a)) := by
  show 0 ^^^ xtime a ^^^ xtime (xtime a) ^^^ xtime (xtime (xtime a)) = _
  rw [UInt8.zero_xor]

theorem gmul_xor (a a' b : UInt8) : gmul (a ^^^ a') b = gmul a b ^^^ gmul a' b := by
  simpa [gmul] using gmulLoop_xor 8 a a' b 0 0

/-! ## Columns -/

theorem getElem_xorBytes {n : ℕ} (a b : Vector UInt8 n) (i : ℕ) (hi : i < n) :
    (xorBytes a b)[i] = a[i] ^^^ b[i] := by
  simp [xorBytes]

theorem xorBytes_xorBytes_cancel {n : ℕ} (a b : Vector UInt8 n) :
    xorBytes (xorBytes a b) b = a := by
  apply Vector.ext
  intro i hi
  rw [getElem_xorBytes, getElem_xorBytes, xor_xor_cancel]

/-- A map of columns that respects `xorBytes`. -/
def Additive (f : Word → Word) : Prop := ∀ a b, f (xorBytes a b) = xorBytes (f a) (f b)

theorem Additive.comp {f g : Word → Word} (hf : Additive f) (hg : Additive g) :
    Additive fun w => f (g w) := by
  intro a b
  show f (g _) = _
  rw [hg, hf]

/-- The word with one byte that may be other than zero. -/
def unitWord : Fin 4 → UInt8 → Word
  | 0, b => #v[b, 0, 0, 0]
  | 1, b => #v[0, b, 0, 0]
  | 2, b => #v[0, 0, b, 0]
  | 3, b => #v[0, 0, 0, b]

theorem word_eq_xor_unitWord (w : Word) :
    w = xorBytes (xorBytes (unitWord 0 (w.get 0)) (unitWord 1 (w.get 1)))
      (xorBytes (unitWord 2 (w.get 2)) (unitWord 3 (w.get 3))) := by
  apply Vector.ext
  intro i hi
  simp only [getElem_xorBytes, unitWord]
  interval_cases i <;> simp <;> rfl

/-- A map of columns that respects `rotWord`. -/
def Rotates (f : Word → Word) : Prop := ∀ w, f (rotWord w) = rotWord (f w)

theorem Rotates.comp {f g : Word → Word} (hf : Rotates f) (hg : Rotates g) :
    Rotates fun w => f (g w) := by
  intro w
  show f (g _) = _
  rw [hg, hf]

/-- An additive map that respects rotations is the identity when it fixes the words whose first byte
is all there is. -/
theorem Additive.eq_self {f : Word → Word} (hf : Additive f) (rotates : Rotates f)
    (first : ∀ b, f (unitWord 0 b) = unitWord 0 b) (w : Word) : f w = w := by
  have next {v v' : Word} (rotated : rotWord v = v') (fixed : f v = v) : f v' = v' := by
    rw [← rotated, rotates, fixed]
  have fourth (b : UInt8) : f (unitWord 3 b) = unitWord 3 b := next rfl (first b)
  have third (b : UInt8) : f (unitWord 2 b) = unitWord 2 b := next rfl (fourth b)
  have second (b : UInt8) : f (unitWord 1 b) = unitWord 1 b := next rfl (third b)
  conv_lhs => rw [word_eq_xor_unitWord w]
  rw [hf, hf, hf, first, second, third, fourth]
  exact (word_eq_xor_unitWord w).symm

theorem additive_mixWord : Additive mixWord := by
  intro a b
  apply Vector.ext
  intro i hi
  simp only [mixWord, getElem_xorBytes, gmul_xor]
  interval_cases i <;> simp only [Vector.getElem_mk, List.getElem_toArray, List.getElem_cons_zero,
    List.getElem_cons_succ] <;> ac_rfl

theorem additive_invMixWord : Additive invMixWord := by
  intro a b
  apply Vector.ext
  intro i hi
  simp only [invMixWord, getElem_xorBytes, gmul_xor]
  interval_cases i <;> simp only [Vector.getElem_mk, List.getElem_toArray, List.getElem_cons_zero,
    List.getElem_cons_succ] <;> ac_rfl

theorem rotates_mixWord : Rotates mixWord := by
  intro w
  apply Vector.ext
  intro i hi
  simp only [mixWord, rotWord]
  interval_cases i <;> simp only [Vector.getElem_mk, List.getElem_toArray, List.getElem_cons_zero,
    List.getElem_cons_succ] <;> ac_rfl

theorem rotates_invMixWord : Rotates invMixWord := by
  intro w
  apply Vector.ext
  intro i hi
  simp only [invMixWord, rotWord]
  interval_cases i <;> simp only [Vector.getElem_mk, List.getElem_toArray, List.getElem_cons_zero,
    List.getElem_cons_succ] <;> ac_rfl

theorem xor_left_comm (a b c : UInt8) : a ^^^ (b ^^^ c) = b ^^^ (a ^^^ c) := by
  ac_rfl

theorem xtime_zero : xtime 0 = 0 := rfl

theorem invMixWord_mixWord (w : Word) : invMixWord (mixWord w) = w := by
  refine (additive_invMixWord.comp additive_mixWord).eq_self
    (rotates_invMixWord.comp rotates_mixWord) (fun b => ?_) w
  simp [invMixWord, mixWord, unitWord, gmul_2, gmul_3, gmul_9, gmul_b, gmul_d, gmul_e, xtime_xor,
    xtime_zero, UInt8.xor_comm, xor_left_comm]

theorem mixWord_invMixWord (w : Word) : mixWord (invMixWord w) = w := by
  refine (additive_mixWord.comp additive_invMixWord).eq_self
    (rotates_mixWord.comp rotates_invMixWord) (fun b => ?_) w
  simp [invMixWord, mixWord, unitWord, gmul_2, gmul_3, gmul_9, gmul_b, gmul_d, gmul_e, xtime_xor,
    xtime_zero, UInt8.xor_comm, xor_left_comm]

/-! ## Gathered bytes -/

@[simp] theorem getElem_gather (s : Block) (c : Fin 4) (i : ℕ) (hi : i < 4) :
    (gather s c)[i] = s[i * 4 + c.val] := by
  simp [gather]

theorem block_ext {s t : Block} (h : ∀ c, gather s c = gather t c) : s = t := by
  apply Vector.ext
  intro k hk
  have e : k / 4 * 4 + k % 4 = k := Nat.div_add_mod' k 4
  have := congrArg (fun w : Word => w[k / 4]) (h ⟨k % 4, Nat.mod_lt _ (by decide)⟩)
  simpa only [getElem_gather, e] using this

theorem gather_scatter_self (s : Block) (c : Fin 4) (w : Word) : gather (scatter s c w) c = w := by
  apply Vector.ext
  intro i hi
  simp only [getElem_gather, scatter, Vector.getElem_set]
  interval_cases i <;> simp

theorem gather_scatter_ne (s : Block) {c d : Fin 4} (w : Word) (h : c ≠ d) :
    gather (scatter s c w) d = gather s d := by
  apply Vector.ext
  intro i hi
  simp only [getElem_gather, scatter, Vector.getElem_set]
  repeat rw [if_neg (by omega)]

theorem gather_mapGathered (mix : Word → Word) (s : Block) (c : Fin 4) :
    gather (mapGathered mix s) c = mix (gather s c) := by
  have passes : List.finRange 4 = [0, 1, 2, 3] := rfl
  simp only [mapGathered, passes, List.foldl_cons, List.foldl_nil]
  fin_cases c <;> simp [gather_scatter_self, gather_scatter_ne]

/-! ## Rounds -/

theorem invSubBytes_subBytes (s : Block) : invSubBytes (subBytes s) = s := by
  apply Vector.ext
  simp [invSubBytes, subBytes, invSbox_sbox]

theorem subBytes_invSubBytes (s : Block) : subBytes (invSubBytes s) = s := by
  apply Vector.ext
  simp [invSubBytes, subBytes, sbox_invSbox]

theorem invShiftRows_shiftRows (s : Block) : invShiftRows (shiftRows s) = s := by
  apply Vector.ext
  intro i hi
  interval_cases i <;> rfl

theorem shiftRows_invShiftRows (s : Block) : shiftRows (invShiftRows s) = s := by
  apply Vector.ext
  intro i hi
  interval_cases i <;> rfl

theorem invMixColumns_mixColumns (s : Block) : invMixColumns (mixColumns s) = s :=
  block_ext fun c => by
    rw [invMixColumns, gather_mapGathered, mixColumns, gather_mapGathered, invMixWord_mixWord]

theorem mixColumns_invMixColumns (s : Block) : mixColumns (invMixColumns s) = s :=
  block_ext fun c => by
    rw [mixColumns, gather_mapGathered, invMixColumns, gather_mapGathered, mixWord_invMixWord]

theorem addRoundKey_addRoundKey (rk : RoundKeys) (round : ℕ) (s : Block) :
    addRoundKey rk round (addRoundKey rk round s) = s :=
  xorBytes_xorBytes_cancel s _

namespace AES256

variable (aes : AES256)

theorem decryptRound_encryptRound (s : Block) (round : ℕ) :
    aes.decryptRound (shiftRows (subBytes (aes.encryptRound s round))) round =
      shiftRows (subBytes s) := by
  rw [decryptRound, invShiftRows_shiftRows, invSubBytes_subBytes, encryptRound,
    addRoundKey_addRoundKey, invMixColumns_mixColumns]

theorem encryptRound_decryptRound (s : Block) (round : ℕ) :
    aes.encryptRound (invSubBytes (invShiftRows (aes.decryptRound s round))) round =
      invSubBytes (invShiftRows s) := by
  rw [encryptRound, subBytes_invSubBytes, shiftRows_invShiftRows, decryptRound,
    mixColumns_invMixColumns, addRoundKey_addRoundKey]

theorem decryptBlock_encryptBlock (block : Block) :
    aes.decryptBlock (aes.encryptBlock block) = block := by
  simp only [decryptBlock, encryptBlock, addRoundKey_addRoundKey]
  rw [foldl_reverse_foldl (u := fun s => shiftRows (subBytes s)) aes.decryptRound_encryptRound,
    invShiftRows_shiftRows, invSubBytes_subBytes, addRoundKey_addRoundKey]

theorem encryptBlock_decryptBlock (block : Block) :
    aes.encryptBlock (aes.decryptBlock block) = block := by
  simp only [decryptBlock, encryptBlock, addRoundKey_addRoundKey]
  have rounds := foldl_reverse_foldl (u := fun s => invSubBytes (invShiftRows s))
    aes.encryptRound_decryptRound (List.range' 1 (aesRounds - 1)).reverse
    (addRoundKey aes.roundKeys aesRounds block)
  rw [List.reverse_reverse] at rounds
  rw [rounds, subBytes_invSubBytes, shiftRows_invShiftRows, addRoundKey_addRoundKey]

/-! ## CBC -/

/-- The first `k` blocks of a buffer. -/
def blocks : ℕ → List UInt8 → List Block
  | 0, _ => []
  | k + 1, data => loadBlock data :: blocks k (data.drop 16)

/-- The bytes of a list of blocks. -/
def unblocks (bs : List Block) : List UInt8 := bs.flatMap Vector.toList

@[simp] theorem length_unblocks (bs : List Block) : (unblocks bs).length = 16 * bs.length := by
  induction bs with
  | nil => rfl
  | cons b bs ih =>
    rw [unblocks, List.flatMap_cons, List.length_append, ← unblocks, ih, Vector.length_toList,
      List.length_cons]
    omega

theorem loadBlock_append (b : Block) (rest : List UInt8) : loadBlock (b.toList ++ rest) = b := by
  apply Vector.ext
  intro i hi
  simp [loadBlock, List.getElem?_append]

theorem toList_loadBlock {data : List UInt8} (h : 16 ≤ data.length) :
    (loadBlock data).toList = data.take 16 := by
  apply List.ext_getElem
  · simp [h]
  · intro i h1 h2
    have hi : i < data.length := by simp at h1; omega
    simp [loadBlock, hi]

theorem drop_append_toList (b : Block) (rest : List UInt8) : (b.toList ++ rest).drop 16 = rest := by
  simp

theorem unblocks_blocks {k : ℕ} {data : List UInt8} (h : data.length = 16 * k) :
    unblocks (blocks k data) = data := by
  induction k generalizing data with
  | zero => simpa [blocks, unblocks] using (List.eq_nil_of_length_eq_zero h).symm
  | succ k ih =>
    rw [blocks, unblocks, List.flatMap_cons, ← unblocks, ih (by simp; omega),
      toList_loadBlock (by omega), List.take_append_drop]

/-- On a buffer of whole blocks the loop of `encrypt_cbc` is the CBC mode. -/
theorem encryptCbcLoop_unblocks (bs : List Block) (prev : Block) :
    aes.encryptCbcLoop bs.length prev (unblocks bs) =
      unblocks (cbcEncrypt aes.encryptBlock xorBytes prev bs) := by
  induction bs generalizing prev with
  | nil => rfl
  | cons b bs ih =>
    simp only [unblocks, List.flatMap_cons, List.length_cons, encryptCbcLoop, cbcEncrypt,
      loadBlock_append, drop_append_toList] at ih ⊢
    rw [ih]

theorem decryptCbcLoop_unblocks (cs : List Block) (prev : Block) :
    aes.decryptCbcLoop cs.length prev (unblocks cs) =
      unblocks (cbcDecrypt aes.decryptBlock xorBytes prev cs) := by
  induction cs generalizing prev with
  | nil => rfl
  | cons c cs ih =>
    simp only [unblocks, List.flatMap_cons, List.length_cons, decryptCbcLoop, cbcDecrypt,
      loadBlock_append, drop_append_toList] at ih ⊢
    rw [ih]

theorem encryptCbc_unblocks (bs : List Block) (iv : Block) :
    aes.encryptCbc (unblocks bs) (unblocks bs).length iv =
      unblocks (cbcEncrypt aes.encryptBlock xorBytes iv bs) := by
  have k : ((unblocks bs).length + 15) / 16 = bs.length := by rw [length_unblocks]; omega
  rw [encryptCbc, k, encryptCbcLoop_unblocks]

theorem decryptCbc_unblocks (cs : List Block) (iv : Block) :
    aes.decryptCbc (unblocks cs) (unblocks cs).length iv =
      unblocks (cbcDecrypt aes.decryptBlock xorBytes iv cs) := by
  have k : ((unblocks cs).length + 15) / 16 = cs.length := by rw [length_unblocks]; omega
  rw [decryptCbc, k, decryptCbcLoop_unblocks]

theorem exists_unblocks {data : List UInt8} (h : data.length % 16 = 0) :
    ∃ bs, data = unblocks bs :=
  ⟨blocks (data.length / 16) data, (unblocks_blocks (by omega)).symm⟩

theorem length_encryptCbc {data : List UInt8} (h : data.length % 16 = 0) (iv : Block) :
    (aes.encryptCbc data data.length iv).length = data.length := by
  obtain ⟨bs, rfl⟩ := exists_unblocks h
  rw [encryptCbc_unblocks, length_unblocks, length_cbcEncrypt, length_unblocks]

theorem length_decryptCbc {data : List UInt8} (h : data.length % 16 = 0) (iv : Block) :
    (aes.decryptCbc data data.length iv).length = data.length := by
  obtain ⟨cs, rfl⟩ := exists_unblocks h
  rw [decryptCbc_unblocks, length_unblocks, length_cbcDecrypt, length_unblocks]

theorem decryptCbc_encryptCbc {data : List UInt8} (h : data.length % 16 = 0) (iv : Block) :
    aes.decryptCbc (aes.encryptCbc data data.length iv) data.length iv = data := by
  obtain ⟨bs, rfl⟩ := exists_unblocks h
  have len : (unblocks bs).length =
      (unblocks (cbcEncrypt aes.encryptBlock xorBytes iv bs)).length := by simp
  rw [encryptCbc_unblocks, len, decryptCbc_unblocks,
    cbcDecrypt_cbcEncrypt aes.decryptBlock_encryptBlock xorBytes_xorBytes_cancel]

theorem encryptCbc_decryptCbc {data : List UInt8} (h : data.length % 16 = 0) (iv : Block) :
    aes.encryptCbc (aes.decryptCbc data data.length iv) data.length iv = data := by
  obtain ⟨cs, rfl⟩ := exists_unblocks h
  have len : (unblocks cs).length =
      (unblocks (cbcDecrypt aes.decryptBlock xorBytes iv cs)).length := by simp
  rw [decryptCbc_unblocks, len, encryptCbc_unblocks,
    cbcEncrypt_cbcDecrypt aes.encryptBlock_decryptBlock xorBytes_xorBytes_cancel]

end AES256

/-- Under every key, single blocks and CBC over any number of whole blocks go through unchanged, in
both directions. -/
theorem cipher_roundTrip (key : Key) :
    (∀ block, (AES256.new key).decryptBlock ((AES256.new key).encryptBlock block) = block) ∧
    (∀ block, (AES256.new key).encryptBlock ((AES256.new key).decryptBlock block) = block) ∧
    ∀ (iv : Block) (data : List UInt8), data.length % aesBlockSize = 0 →
      (AES256.new key).decryptCbc ((AES256.new key).encryptCbc data data.length iv) data.length iv =
          data ∧
        (AES256.new key).encryptCbc ((AES256.new key).decryptCbc data data.length iv) data.length
          iv = data :=
  ⟨AES256.decryptBlock_encryptBlock _, AES256.encryptBlock_decryptBlock _, fun iv _ h =>
    ⟨AES256.decryptCbc_encryptCbc _ h iv, AES256.encryptCbc_decryptCbc _ h iv⟩⟩

/-- The message of `test_crypto.cpp`, filled up to two blocks, under the zero key. -/
theorem cipher_roundTrip_two_blocks :
    let data := Bytes.text "Hello ARABA Mesh!!" ++ List.replicate 14 0
    let aes := AES256.new (Vector.replicate 32 0)
    let iv := Vector.replicate 16 7
    aes.decryptCbc (aes.encryptCbc data data.length iv) data.length iv = data :=
  ((cipher_roundTrip (Vector.replicate 32 0)).2.2 (Vector.replicate 16 7)
    (Bytes.text "Hello ARABA Mesh!!" ++ List.replicate 14 0) (by decide)).1

end Araba
