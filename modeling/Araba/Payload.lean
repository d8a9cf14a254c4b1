import Araba.Crypto.PairKey
import Araba.Crypto.RoundTrip

/-!
# Encrypted payloads

Padding and encryption of `araba_node.cpp`. A buffer that a function fills is its first bytes, as
many as the function returns. A copy past the end of a local array has no defined outcome and is an
`Overrun`.
-/

namespace Araba

/-- A write past the end of a local array. -/
inductive Overrun
  | overrun
  deriving DecidableEq

/-- The size of `padded` in `encrypt_payload` and of `decrypted` in `decrypt_payload`. -/
def localBufferSize : ℕ := 1024

/-- `output` has room for `maxOut` bytes. -/
def padData (input : List UInt8) (maxOut : ℕ) : Except Overrun (List UInt8) :=
  let len := input.length
  let paddedLen := (len + aesBlockSize) / aesBlockSize * aesBlockSize
  let paddedLen := if paddedLen > maxOut then maxOut else paddedLen
  if len > maxOut then .error .overrun
  else
    let padByte := UInt8.ofNat (paddedLen - len)
    .ok (input ++ List.replicate (paddedLen - len) padByte)

/-- Nothing when the padding is wrong. -/
def unpadData (input : List UInt8) (maxOut : ℕ) : List UInt8 :=
  let len := input.length
  if len = 0 ∨ len % aesBlockSize ≠ 0 then []
  else
    let padByte := input[len - 1]?.getD 0
    if padByte.toNat > aesBlockSize ∨ padByte = 0 then []
    else
      let outLen := len - padByte.toNat
      let outLen := if outLen > maxOut then maxOut else outLen
      input.take outLen

/-- `now` is what `generate_iv` reads; nothing is returned when the result does not fit. -/
def encryptPayload (plaintext : List UInt8) (maxOut : ℕ) (aes : AES256) (now : ℕ) :
    Except Overrun (List UInt8) := do
  let iv := generateIv now
  let padded ← padData plaintext localBufferSize
  if padded.length + aesBlockSize > maxOut then return []
  return iv.toList ++ aes.encryptCbc padded padded.length iv

/-- Nothing is returned when the payload is too short or its padding is wrong. -/
def decryptPayload (encrypted : List UInt8) (maxOut : ℕ) (aes : AES256) :
    Except Overrun (List UInt8) :=
  if encrypted.length < aesBlockSize + aesBlockSize then .ok []
  else
    let iv := AES256.loadBlock encrypted
    let cipherLen := encrypted.length - aesBlockSize
    if cipherLen > localBufferSize then .error .overrun
    else
      let decrypted := aes.decryptCbc (encrypted.drop aesBlockSize) cipherLen iv
      .ok (unpadData (decrypted.take cipherLen) maxOut)

/-! ## The way there and back -/

/-- The length of a padded message. -/
def paddedLength (len : ℕ) : ℕ := 16 * (len / 16 + 1)

theorem padData_eq {input : List UInt8} (h : input.length ≤ 1007) :
    padData input localBufferSize =
      .ok (input ++ List.replicate (paddedLength input.length - input.length)
        (UInt8.ofNat (paddedLength input.length - input.length))) := by
  have len : (input.length + aesBlockSize) / aesBlockSize * aesBlockSize =
      paddedLength input.length := by
    simp only [aesBlockSize, paddedLength]
    omega
  have fits : ¬ paddedLength input.length > localBufferSize := by
    simp only [paddedLength, localBufferSize]
    omega
  have room : ¬ input.length > localBufferSize := by
    simp only [localBufferSize]
    omega
  simp only [padData, len, if_neg fits, if_neg room]

theorem unpadData_append_replicate {input : List UInt8} {k maxOut : ℕ} (pos : 0 < k) (le : k ≤ 16)
    (whole : (input.length + k) % 16 = 0) (room : input.length ≤ maxOut) :
    unpadData (input ++ List.replicate k (UInt8.ofNat k)) maxOut = input := by
  have len : (input ++ List.replicate k (UInt8.ofNat k)).length = input.length + k := by simp
  have last : (input ++ List.replicate k (UInt8.ofNat k))[input.length + k - 1]?.getD 0 =
      UInt8.ofNat k := by
    rw [List.getElem?_append_right (by omega), List.getElem?_replicate, if_pos (by omega),
      Option.getD_some]
  have byte : (UInt8.ofNat k).toNat = k := by
    rw [UInt8.toNat_ofNat']
    omega
  have nonzero : UInt8.ofNat k ≠ 0 := by
    intro zero
    have := congrArg UInt8.toNat zero
    rw [byte] at this
    simp at this
    omega
  simp only [unpadData, len, last, byte, aesBlockSize]
  rw [if_neg (by omega), if_neg (by simp [nonzero]; omega), Nat.add_sub_cancel, if_neg (by omega),
    List.take_left']
  rfl

theorem paddedLength_facts {len : ℕ} (h : len ≤ 1007) :
    len < paddedLength len ∧ paddedLength len ≤ len + 16 ∧ paddedLength len ≤ 1008 ∧
      paddedLength len % 16 = 0 := by
  simp only [paddedLength]
  omega

/-- `encrypt_payload` when `generate_iv` has filled `iv`. -/
def encryptWith (iv : Block) (plaintext : List UInt8) (maxOut : ℕ) (aes : AES256) :
    Except Overrun (List UInt8) := do
  let padded ← padData plaintext localBufferSize
  if padded.length + aesBlockSize > maxOut then return []
  return iv.toList ++ aes.encryptCbc padded padded.length iv

theorem encryptPayload_eq (plaintext : List UInt8) (maxOut : ℕ) (aes : AES256) (now : ℕ) :
    encryptPayload plaintext maxOut aes now = encryptWith (generateIv now) plaintext maxOut aes :=
  rfl

/-- A message of at most 1007 bytes is encrypted behind its vector, and decrypted again. -/
theorem decryptPayload_encryptWith {plaintext : List UInt8} (h : plaintext.length ≤ 1007)
    (aes : AES256) (iv : Block) :
    ∃ enc, encryptWith iv plaintext 1024 aes = .ok enc ∧
      enc.length = 16 + paddedLength plaintext.length ∧ (∃ rest, enc = iv.toList ++ rest) ∧
      ∀ maxOut, plaintext.length ≤ maxOut → decryptPayload enc maxOut aes = .ok plaintext := by
  obtain ⟨more, le, small, whole⟩ := paddedLength_facts h
  set k := paddedLength plaintext.length - plaintext.length with k_def
  set padded := plaintext ++ List.replicate k (UInt8.ofNat k) with padded_def
  have len : padded.length = paddedLength plaintext.length := by
    rw [padded_def, List.length_append, List.length_replicate]
    omega
  have blocks : padded.length % 16 = 0 := by rw [len, whole]
  have cipher : (aes.encryptCbc padded padded.length iv).length = padded.length :=
    aes.length_encryptCbc blocks _
  have total : (iv.toList ++ aes.encryptCbc padded padded.length iv).length = 16 + padded.length := by
    rw [List.length_append, Vector.length_toList, cipher]
  refine ⟨_, ?_, total.trans (by rw [len]), ⟨_, rfl⟩, fun maxOut room => ?_⟩
  · have fits : ¬ padded.length + aesBlockSize > 1024 := by
      simp only [aesBlockSize]
      omega
    simp only [encryptWith, padData_eq h, bind, Except.bind, pure, Except.pure]
    rw [if_neg fits]
  · simp only [decryptPayload, total, aesBlockSize, localBufferSize, Nat.add_sub_cancel_left,
      AES256.loadBlock_append, AES256.drop_append_toList, AES256.decryptCbc_encryptCbc _ blocks,
      List.take_length]
    rw [if_neg (by omega), if_neg (by omega), padded_def,
      unpadData_append_replicate (by omega) (by omega) (by omega) room]

theorem decryptPayload_encryptPayload {plaintext : List UInt8} (h : plaintext.length ≤ 1007)
    (aes : AES256) (now : ℕ) :
    ∃ enc, encryptPayload plaintext 1024 aes now = .ok enc ∧
      enc.length = 16 + paddedLength plaintext.length ∧
      (∃ rest, enc = (generateIv now).toList ++ rest) ∧
      ∀ maxOut, plaintext.length ≤ maxOut → decryptPayload enc maxOut aes = .ok plaintext :=
  decryptPayload_encryptWith h aes (generateIv now)

theorem length_padData {input padded : List UInt8} (ok : padData input localBufferSize = .ok padded)
    (long : 1007 < input.length) : 1024 ≤ padded.length := by
  have whole : (input.length + aesBlockSize) / aesBlockSize * aesBlockSize ≥ 1024 := by
    simp only [aesBlockSize]
    omega
  generalize len : (input.length + aesBlockSize) / aesBlockSize * aesBlockSize = n at whole
  simp only [padData, len, localBufferSize] at ok
  split_ifs at ok
  all_goals
    rw [← Except.ok.inj ok, List.length_append, List.length_replicate]
    omega

theorem encryptWith_of_long {plaintext padded : List UInt8} {iv : Block} {aes : AES256}
    (made : padData plaintext localBufferSize = .ok padded) (long : 1007 < plaintext.length) :
    encryptWith iv plaintext 1024 aes = .ok [] := by
  have full : padded.length + aesBlockSize > 1024 := by
    have := length_padData made long
    simp only [aesBlockSize]
    omega
  simp only [encryptWith, made, bind, Except.bind, pure, Except.pure, if_pos full]

theorem length_le_of_encryptPayload {plaintext enc : List UInt8} {aes : AES256} {now : ℕ}
    (ok : encryptPayload plaintext 1024 aes now = .ok enc) (some' : enc ≠ []) :
    plaintext.length ≤ 1007 := by
  by_contra long
  rw [encryptPayload_eq] at ok
  cases made : padData plaintext localBufferSize with
  | error e =>
    rw [encryptWith, made] at ok
    cases ok
  | ok padded =>
    rw [encryptWith_of_long made (not_le.1 long)] at ok
    exact some' (Except.ok.inj ok).symm

theorem facts_of_encryptPayload {plaintext enc : List UInt8} {aes : AES256} {now : ℕ}
    (ok : encryptPayload plaintext 1024 aes now = .ok enc) (some' : enc ≠ []) :
    plaintext.length ≤ 1007 ∧ enc.length = 16 + paddedLength plaintext.length ∧
      (∃ rest, enc = (generateIv now).toList ++ rest) ∧
      ∀ maxOut, plaintext.length ≤ maxOut → decryptPayload enc maxOut aes = .ok plaintext := by
  have short := length_le_of_encryptPayload ok some'
  obtain ⟨enc', ok', facts⟩ := decryptPayload_encryptPayload short aes now
  obtain rfl : enc = enc' := Except.ok.inj (ok.symm.trans ok')
  exact ⟨short, facts⟩

/-- Every message of 1 to 1007 bytes is encrypted and decrypted again, under every key and with every
initialization vector; one of 1008 to 1024 bytes is not encrypted. -/
theorem payload_roundTrip (key : Key) (iv : Block) (plaintext : List UInt8) :
    (1 ≤ plaintext.length → plaintext.length ≤ 1007 →
      ∃ enc, encryptWith iv plaintext 1024 (AES256.new key) = .ok enc ∧
        enc.length = 16 + 16 * (plaintext.length / 16 + 1) ∧ enc.length ≤ 1024 ∧
        ∀ maxOut, plaintext.length ≤ maxOut →
          decryptPayload enc maxOut (AES256.new key) = .ok plaintext) ∧
      (1008 ≤ plaintext.length → plaintext.length ≤ 1024 →
        encryptWith iv plaintext 1024 (AES256.new key) = .ok []) := by
  refine ⟨fun _ short => ?_, fun long fits => ?_⟩
  · obtain ⟨enc, made, len, -, back⟩ := decryptPayload_encryptWith short (AES256.new key) iv
    refine ⟨enc, made, len, ?_, back⟩
    rw [len, paddedLength]
    omega
  · have room : ¬ plaintext.length > localBufferSize := by
      simp only [localBufferSize]
      omega
    have made : ∃ padded, padData plaintext localBufferSize = .ok padded := by
      simp only [padData, if_neg room]
      exact ⟨_, rfl⟩
    obtain ⟨padded, made⟩ := made
    exact encryptWith_of_long made (by omega)

/-- The longest message that is encrypted, and the shortest that is not. -/
theorem payload_roundTrip_limit :
    (∃ enc, encryptWith (Vector.replicate 16 0) (List.replicate 1007 0) 1024
          (AES256.new (Vector.replicate 32 0)) = .ok enc ∧
        decryptPayload enc 1007 (AES256.new (Vector.replicate 32 0)) =
          .ok (List.replicate 1007 0)) ∧
      encryptWith (Vector.replicate 16 0) (List.replicate 1008 0) 1024
        (AES256.new (Vector.replicate 32 0)) = .ok [] := by
  have long : (List.replicate 1007 (0 : UInt8)).length = 1007 := List.length_replicate
  have longer : (List.replicate 1008 (0 : UInt8)).length = 1008 := List.length_replicate
  obtain ⟨enc, made, -, -, back⟩ := (payload_roundTrip (Vector.replicate 32 0) (Vector.replicate 16 0)
    (List.replicate 1007 0)).1 (by omega) (by omega)
  exact ⟨⟨enc, made, back 1007 (by omega)⟩, (payload_roundTrip (Vector.replicate 32 0)
    (Vector.replicate 16 0) (List.replicate 1008 0)).2 (by omega) (by omega)⟩

end Araba
