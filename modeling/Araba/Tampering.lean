import Araba.Delivery

/-!
# Packets altered on the way

Nothing in a packet vouches for its payload. Who flips bits in what is sent, without a key, flips the
same bits in the message that is reported.
-/

namespace Araba

open Bytes BlockCipher

theorem mod_sixteen_lt (k : ℕ) : k % 16 < 16 := Nat.mod_lt k (by decide)

/-- The bytes with `δ` combined into their `j`th block. -/
def flipBlock (j : ℕ) (δ : Block) (data : List UInt8) : List UInt8 :=
  data.mapIdx fun k b => if k / 16 = j then b ^^^ δ.get ⟨k % 16, mod_sixteen_lt k⟩ else b

@[simp] theorem length_flipBlock (j : ℕ) (δ : Block) (data : List UInt8) :
    (flipBlock j δ data).length = data.length :=
  List.length_mapIdx

theorem getElem?_flipBlock (j : ℕ) (δ : Block) (data : List UInt8) (k : ℕ) :
    (flipBlock j δ data)[k]? = data[k]?.map fun b =>
      if k / 16 = j then b ^^^ δ.get ⟨k % 16, mod_sixteen_lt k⟩ else b :=
  List.getElem?_mapIdx

/-! ## Blocks and bytes -/

namespace AES256

theorem getElem?_unblocks (bs : List Block) (k : ℕ) :
    (unblocks bs)[k]? = bs[k / 16]?.map fun b => b.get ⟨k % 16, mod_sixteen_lt k⟩ := by
  induction bs generalizing k with
  | nil => simp [unblocks]
  | cons b bs ih =>
    rw [unblocks, List.flatMap_cons]
    by_cases first : k < 16
    · have size : k < b.toList.length := by rw [Vector.length_toList]; exact first
      rw [List.getElem?_append_left size]
      have block : k / 16 = 0 := by omega
      have byte : k % 16 = k := by omega
      simp only [block, byte, List.getElem?_cons_zero, Option.map_some, Vector.getElem?_toList,
        Vector.getElem?_eq_getElem first]
      rfl
    · rw [List.getElem?_append_right (by rw [Vector.length_toList]; omega), Vector.length_toList]
      have step := ih (k - 16)
      rw [unblocks] at step
      rw [step]
      have block : k / 16 = (k - 16) / 16 + 1 := by omega
      have byte : (k - 16) % 16 = k % 16 := by omega
      simp [block, byte]

theorem get_xorBytes (a b : Block) (i : Fin 16) : (xorBytes a b).get i = a.get i ^^^ b.get i :=
  getElem_xorBytes a b i i.isLt

theorem flipBlock_unblocks (j : ℕ) (δ : Block) (bs : List Block) :
    flipBlock j δ (unblocks bs) = unblocks (bs.modify j fun b => xorBytes b δ) := by
  refine List.ext_getElem? fun k => ?_
  rw [getElem?_flipBlock, getElem?_unblocks, getElem?_unblocks, List.getElem?_modify]
  by_cases here : k / 16 = j
  · simp [here, Option.map_map, Function.comp_def, get_xorBytes]
  · cases bs[k / 16]? with
    | none => rfl
    | some b => simp [here, Ne.symm here]

theorem xorBytes_assoc (a b c : Block) : xorBytes a (xorBytes b c) = xorBytes (xorBytes a b) c := by
  refine Vector.ext fun i hi => ?_
  simp only [getElem_xorBytes, UInt8.xor_assoc]

end AES256

open AES256

/-- What is encrypted is the vector and the blocks of the padded message, chained. -/
theorem encryptWith_eq_unblocks {message : List UInt8} (short : message.length ≤ 1007) (aes : AES256)
    (iv : Block) :
    ∃ k bs, 0 < k ∧ k ≤ 16 ∧ (message.length + k) % 16 = 0 ∧ message.length + k ≤ 1008 ∧
      message ++ List.replicate k (UInt8.ofNat k) = unblocks bs ∧
      encryptWith iv message 1024 aes =
        .ok (unblocks (iv :: cbcEncrypt aes.encryptBlock xorBytes iv bs)) := by
  obtain ⟨more, le, small, whole⟩ := paddedLength_facts short
  set k := paddedLength message.length - message.length with k_def
  have len : (message ++ List.replicate k (UInt8.ofNat k)).length = message.length + k := by simp
  obtain ⟨bs, split⟩ : ∃ bs, message ++ List.replicate k (UInt8.ofNat k) = unblocks bs :=
    exists_unblocks (by rw [len]; omega)
  refine ⟨k, bs, by omega, by omega, by omega, by omega, split, ?_⟩
  have fits : ¬ (unblocks bs).length + aesBlockSize > 1024 := by
    rw [← split, len]
    simp only [aesBlockSize]
    omega
  rw [encryptWith, padData_eq short, ← k_def, split]
  simp only [bind, Except.bind, pure, Except.pure, if_neg fits, encryptCbc_unblocks]
  rfl

/-- The bytes that are decrypted from altered ones, next to those that would have been. -/
theorem getElem?_unblocks_cbcDecrypt {aes : AES256} {iv iv' : Block} {cs cs' : List Block} {j : ℕ}
    {δ : Block} (altered : iv' :: cs' = (iv :: cs).modify j fun c => xorBytes c δ) {k : ℕ}
    (next : k / 16 + 1 ≠ j) :
    (unblocks (cbcDecrypt aes.decryptBlock xorBytes iv' cs'))[k]? =
      (flipBlock j δ (unblocks (cbcDecrypt aes.decryptBlock xorBytes iv cs)))[k]? := by
  rw [flipBlock_unblocks, getElem?_unblocks, getElem?_unblocks, List.getElem?_modify]
  by_cases here : k / 16 = j
  · rw [here, getElem?_cbcDecrypt_modify_self xorBytes_assoc δ altered]
    simp
  · rw [getElem?_cbcDecrypt_modify_of_ne altered here next]
    simp [Ne.symm here]

theorem decryptPayload_unblocks {iv : Block} {cs : List Block} (some' : cs ≠ [])
    (fits : 16 * cs.length ≤ 1024) (maxOut : ℕ) (aes : AES256) :
    decryptPayload (unblocks (iv :: cs)) maxOut aes =
      .ok (unpadData (unblocks (cbcDecrypt aes.decryptBlock xorBytes iv cs)) maxOut) := by
  have blocks := List.length_pos_of_ne_nil some'
  have split : unblocks (iv :: cs) = iv.toList ++ unblocks cs := List.flatMap_cons
  have size : (unblocks (iv :: cs)).length = 16 + (unblocks cs).length := by
    rw [split, List.length_append, Vector.length_toList]
  have long := length_unblocks cs
  have same : (unblocks (cbcDecrypt aes.decryptBlock xorBytes iv cs)).length =
      (unblocks cs).length := by simp
  have room : ¬ (unblocks cs).length > localBufferSize := by
    simp only [localBufferSize]
    omega
  have short : ¬ 16 + (unblocks cs).length < 16 + 16 := by omega
  simp only [decryptPayload, size, aesBlockSize, Nat.add_sub_cancel_left, if_neg short, if_neg room]
  rw [split, loadBlock_append, drop_append_toList, decryptCbc_unblocks, ← same, List.take_length]

/-- Flipping bits in a block of what is sent, within the message, flips the same bits in that block
of the message, and spoils only the block in front of it. -/
theorem decryptPayload_flipBlock {message enc : List UInt8} (short : message.length ≤ 1007)
    {aes : AES256} {iv : Block} (made : encryptWith iv message 1024 aes = .ok enc) {j : ℕ} {δ : Block}
    (inside : 16 * j < message.length) (within : ∀ i : Fin 16, message.length ≤ 16 * j + i → δ.get i = 0) :
    ∃ message', message'.length = message.length ∧
      (∀ k, k / 16 + 1 ≠ j → message'[k]? = (flipBlock j δ message)[k]?) ∧
      ∀ maxOut, message.length ≤ maxOut →
        decryptPayload (flipBlock j δ enc) maxOut aes = .ok message' := by
  obtain ⟨k, bs, pos, le, whole, fits, padded, enc_eq⟩ := encryptWith_eq_unblocks short aes iv
  obtain rfl := Except.ok.inj (made.symm.trans enc_eq)
  set cs := cbcEncrypt aes.encryptBlock xorBytes iv bs with cs_def
  have plain : cbcDecrypt aes.decryptBlock xorBytes iv cs = bs :=
    cbcDecrypt_cbcEncrypt aes.decryptBlock_encryptBlock xorBytes_xorBytes_cancel iv bs
  have size : message.length + k = 16 * bs.length := by
    have := congrArg List.length padded
    simpa using this
  have count : cs.length = bs.length := length_cbcEncrypt iv bs
  obtain ⟨iv', cs', altered⟩ : ∃ iv' cs', iv' :: cs' = (iv :: cs).modify j fun c => xorBytes c δ := by
    obtain ⟨iv', cs', e⟩ := List.exists_cons_of_ne_nil
      (l := (iv :: cs).modify j fun c => xorBytes c δ) (by simp)
    exact ⟨iv', cs', e.symm⟩
  have count' : cs'.length = cs.length := by
    have := congrArg List.length altered
    simpa using this
  have bytes (i : ℕ) (next : i / 16 + 1 ≠ j) :
      (unblocks (cbcDecrypt aes.decryptBlock xorBytes iv' cs'))[i]? =
        (flipBlock j δ (unblocks bs))[i]? := by
    rw [getElem?_unblocks_cbcDecrypt altered next, plain]
  have long : (unblocks (cbcDecrypt aes.decryptBlock xorBytes iv' cs')).length = message.length + k := by
    rw [length_unblocks, length_cbcDecrypt, count', count, size]
  generalize opened_def : unblocks (cbcDecrypt aes.decryptBlock xorBytes iv' cs') = opened at bytes long
  -- the padding is behind the message, so none of its bits is flipped
  have padding : opened.drop message.length = List.replicate k (UInt8.ofNat k) := by
    refine List.ext_getElem? fun i => ?_
    have behind : (unblocks bs)[message.length + i]? = (List.replicate k (UInt8.ofNat k))[i]? := by
      rw [← padded, List.getElem?_append_right (by omega), Nat.add_sub_cancel_left]
    rw [List.getElem?_drop, bytes _ (by omega), getElem?_flipBlock, behind]
    by_cases here : (message.length + i) / 16 = j
    · have zero : δ.get ⟨(message.length + i) % 16, mod_sixteen_lt _⟩ = 0 :=
        within ⟨(message.length + i) % 16, mod_sixteen_lt _⟩ (by
          show message.length ≤ 16 * j + (message.length + i) % 16
          omega)
      simp [here, zero]
    · simp [here]
  have opened_eq : opened = opened.take message.length ++ List.replicate k (UInt8.ofNat k) := by
    rw [← padding, List.take_append_drop]
  have front : (opened.take message.length).length = message.length := by
    rw [List.length_take, long]
    omega
  refine ⟨opened.take message.length, front, fun i next => ?_, fun maxOut room => ?_⟩
  · by_cases in' : i < message.length
    · have same : (unblocks bs)[i]? = message[i]? := by
        rw [← padded, List.getElem?_append_left in']
      rw [List.getElem?_take_of_lt in', bytes i next, getElem?_flipBlock, getElem?_flipBlock, same]
    · rw [List.getElem?_eq_none (by omega), List.getElem?_eq_none (by simp; omega)]
  · rw [flipBlock_unblocks, ← altered]
    have some' : cs' ≠ [] := List.ne_nil_of_length_pos (by omega)
    have unpadded : unpadData (opened.take message.length ++ List.replicate k (UInt8.ofNat k)) maxOut =
        opened.take message.length :=
      unpadData_append_replicate pos le (by rw [front]; exact whole) (by rw [front]; exact room)
    rw [← opened_eq] at unpadded
    rw [decryptPayload_unblocks some' (by omega), opened_def, unpadded]

/-! ## From one node to another -/

section BetweenNodes

variable {a b : NodeEnv} (distinct : a.myMac ≠ b.myMac) (shared : a.baseKey = b.baseKey)
  {message : List UInt8} (short : message.length ≤ 1007) (clock : Clock) (s : NodeState a) {j : ℕ}
  {δ : Block} (inside : 16 * j < message.length)
  (within : ∀ i : Fin 16, message.length ≤ 16 * j + i → δ.get i = 0)

include distinct shared short inside within

/-- A message is sent, and someone without a key flips bits in one block of it: what the addressee
reports is the message with these bits flipped. Only the block in front of it is
spoiled; behind the vector, which is block 0, there is none. -/
theorem flipped_is_reported :
    ∃ encrypted message', (prepareMessage b.myMac message clock).value s =
        some (sendingOf s b.myMac encrypted).packets ∧
      message'.length = message.length ∧
      (∀ k, k / 16 + 1 ≠ j → message'[k]? = (flipBlock j δ message)[k]?) ∧
      ∀ (t : NodeState b) (arrivals : List (Packet × Clock)),
        (arrivals.map Prod.fst).Perm (sendingOf s b.myMac (flipBlock j δ encrypted)).packets →
        (∀ p ∈ (sendingOf s b.myMac (flipBlock j δ encrypted)).packets, p.IsFragment →
          464 ≤ message.length ∧ t.fragMgr.partials[p.fragHeader.msgId]? = none) →
        messages ((deliverAll arrivals).trace t) = [(macToString a.myMac, message')] := by
  obtain ⟨encrypted, ok, len, -, -⟩ :=
    decryptPayload_encryptPayload short (a.cipher b.myMac) clock.steady
  obtain ⟨message', size, bytes, dec⟩ := decryptPayload_flipBlock short
    ((encryptPayload_eq _ _ _ _).symm.trans ok) inside within
  have some' : message' ≠ [] := List.ne_nil_of_length_pos (by omega)
  have some'' : encrypted ≠ [] := List.ne_nil_of_length_pos (by omega)
  refine ⟨encrypted, message', value_prepareMessage ok some'' s, size, bytes,
    fun t arrivals perm unknown => ?_⟩
  rw [cipher_comm shared] at dec
  set sent := sendingOf s b.myMac (flipBlock j δ encrypted)
  have data : sent.data.length = 16 + paddedLength message.length := (length_flipBlock _ _ _).trans len
  rw [paddedLength] at data
  by_cases big : 464 ≤ message.length
  · have h : sent.Fragmented := by
      rw [Sending.Fragmented, data, maxFragPayload]
      omega
    have first : sent.nth 0 ∈ sent.packets :=
      (h.mem_packets_iff _).2 ⟨0, by have := h.lt_total; omega, rfl⟩
    have unseen := (unknown _ first (h.isFragment_of_mem first)).2
    rw [Sending.fragHeader_nth] at unseen
    exact (deliveredByLast rfl distinct rfl some' h (by rw [data]; omega) (dec 2048 (by omega))
      arrivals t perm unseen).messages_eq
  · have single : sent.data.length ≤ maxFragPayload := by
      rw [data, maxFragPayload]
      omega
    have only : (Packet.init sent.type sent.src sent.dst sent.seqNum).fill sent.data ∈ sent.packets := by
      rw [Sending.packets, FragmentManager.fragmentMessage, if_pos single]
      exact List.mem_singleton_self _
    have arrive := deliveredByLast_single rfl distinct rfl some' single (dec 1024 (by omega))
      arrivals t perm fun p mem frag => absurd (unknown p mem frag).1 big
    rw [if_neg fun frag => big (unknown _ only frag).1] at arrive
    exact arrive.messages_eq

end BetweenNodes

/-- The lowest bit of the first byte. -/
def lowBit : Block := Vector.ofFn fun i => if i.val = 0 then 1 else 0

theorem flipped_is_reported_hi :
    ∃ encrypted message', (prepareMessage receiverEnv.myMac (text "hi") ⟨0, 0⟩).value
          (NodeState.start senderEnv none) =
        some (sendingOf (NodeState.start senderEnv none) receiverEnv.myMac encrypted).packets ∧
      message'.length = (text "hi").length ∧
      (∀ k, k / 16 + 1 ≠ 0 → message'[k]? = (flipBlock 0 lowBit (text "hi"))[k]?) ∧
      ∀ (t : NodeState receiverEnv) (arrivals : List (Packet × Clock)),
        (arrivals.map Prod.fst).Perm (sendingOf (NodeState.start senderEnv none) receiverEnv.myMac
          (flipBlock 0 lowBit encrypted)).packets →
        (∀ p ∈ (sendingOf (NodeState.start senderEnv none) receiverEnv.myMac
            (flipBlock 0 lowBit encrypted)).packets, p.IsFragment →
          464 ≤ (text "hi").length ∧ t.fragMgr.partials[p.fragHeader.msgId]? = none) →
        messages ((deliverAll arrivals).trace t) = [(macToString senderEnv.myMac, message')] := by
  have distinct : senderEnv.myMac ≠ receiverEnv.myMac := by decide
  have short : (text "hi").length ≤ 1007 := by decide
  have inside : 16 * 0 < (text "hi").length := by decide
  have within : ∀ i : Fin 16, (text "hi").length ≤ 16 * 0 + i → lowBit.get i = 0 := by decide
  exact flipped_is_reported distinct rfl short ⟨0, 0⟩ (NodeState.start senderEnv none) inside within

end Araba
