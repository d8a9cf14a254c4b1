import Araba.Lib.Cells
import Araba.Payload

/-!
# The buffers of `encrypt_payload`

`pad_data` and `encrypt_payload` cell by cell. `pad_data` clamps the padded length to the size of its
output, but copies the whole message there first, and its caller looks at the length afterwards.
-/

namespace Araba

open Bytes Traced Cells

/-- The arrays that `encrypt_payload` works on. -/
inductive EncryptArray
  | plaintext
  | iv
  | padded
  | out
  deriving DecidableEq

/-! ## The code -/

section Code

variable {β ε : Type} [DecidableEq β]

/-- `pad_byte` is the low byte of the difference, which wraps when the message is longer than the
output. -/
def padDataCells (input : β) (len : ℕ) (output : β) (maxOut : ℕ) : Program β ε ℕ := do
  let paddedLen := (len + aesBlockSize) / aesBlockSize * aesBlockSize
  let paddedLen := if paddedLen > maxOut then maxOut else paddedLen
  memcpy output 0 input 0 len
  let padByte := UInt8.ofNat paddedLen - UInt8.ofNat len
  storeAll output len (List.replicate (paddedLen - len) padByte)
  return paddedLen

/-- `data[i + j] ^= prev[j]` for all `j`. -/
def xorInto (data : β) (i : ℕ) (prev : Block) : Program β ε Unit := do
  let bytes ← loadAll data i aesBlockSize
  storeAll data i (xorBytes (AES256.loadBlock bytes) prev).toList

/-- `encrypt_block(data + i)`, in place. -/
def encryptBlockCells (aes : AES256) (data : β) (i : ℕ) : Program β ε Unit := do
  let bytes ← loadAll data i aesBlockSize
  storeAll data i (aes.encryptBlock (AES256.loadBlock bytes)).toList

/-- The loop of `encrypt_cbc` from `i` on, with the blocks that are left. -/
def encryptCbcLoopCells (aes : AES256) (data : β) : ℕ → ℕ → Block → Program β ε Unit
  | 0, _, _ => pure ()
  | k + 1, i, prev => do
    xorInto data i prev
    encryptBlockCells aes data i
    let bytes ← loadAll data i aesBlockSize
    encryptCbcLoopCells aes data k (i + aesBlockSize) (AES256.loadBlock bytes)

/-- `data` is the array from `off` on. -/
def encryptCbcCells (aes : AES256) (data : β) (off dataLen : ℕ) (iv : β) : Program β ε Unit := do
  let prev ← loadAll iv 0 aesBlockSize
  encryptCbcLoopCells aes data ((dataLen + 15) / 16) off (AES256.loadBlock prev)

end Code

/-- The length of what is returned; the message is the first `plainLen` bytes of `plaintext`. -/
def encryptPayloadCells (plainLen maxOut : ℕ) (aes : AES256) (now : ℕ) :
    Program EncryptArray Empty ℕ := do
  storeAll .iv 0 (generateIv now).toList
  memcpy .out 0 .iv 0 aesBlockSize
  let paddedLen ← padDataCells .plaintext plainLen .padded localBufferSize
  if paddedLen + aesBlockSize > maxOut then return 0
  else do
    memcpy .out aesBlockSize .padded 0 paddedLen
    encryptCbcCells aes .out aesBlockSize paddedLen .iv
    return aesBlockSize + paddedLen

/-! ## What a call does -/

/-- The length to which `pad_data` fills up. -/
def clampedLength (len maxOut : ℕ) : ℕ :=
  if (len + aesBlockSize) / aesBlockSize * aesBlockSize > maxOut then maxOut
  else (len + aesBlockSize) / aesBlockSize * aesBlockSize

theorem clampedLength_eq (len maxOut : ℕ) :
    clampedLength len maxOut = min (paddedLength len) maxOut := by
  have whole : (len + aesBlockSize) / aesBlockSize * aesBlockSize = paddedLength len := by
    simp only [aesBlockSize, paddedLength]
    omega
  rw [clampedLength, whole]
  split_ifs <;> omega

namespace AES256

theorem loadBlock_toList (b : Block) : loadBlock b.toList = b := by
  have read := loadBlock_append b []
  rwa [List.append_nil] at read

theorem loadBlock_append_of_length {data : List UInt8} (rest : List UInt8) (h : data.length = 16) :
    loadBlock (data ++ rest) = loadBlock data := by
  apply Vector.ext
  intro i hi
  simp only [loadBlock, Vector.getElem_ofFn, List.getElem?_append_left (show i < data.length by omega)]

end AES256

section Spec

variable {β ε : Type} [DecidableEq β] (m : Memory β)

theorem value_padDataCells (input : β) (len : ℕ) (output : β) (maxOut : ℕ) :
    (padDataCells input len output maxOut : Program β ε ℕ).value m = clampedLength len maxOut :=
  rfl

theorem trace_padDataCells (input : β) (len : ℕ) (output : β) (maxOut : ℕ) :
    (padDataCells input len output maxOut : Program β ε ℕ).trace m =
      loads input 0 len ++ (stores output 0 len ++
        stores output len (clampedLength len maxOut - len)) := by
  simp only [padDataCells, clampedLength, trace_bind, trace_memcpy, trace_storeAll, trace_pure,
    List.length_replicate, List.append_nil, List.append_assoc]

/-- What stands in the output, when the message is not longer than that. -/
theorem post_padDataCells (input : β) {len : ℕ} (output : β) {maxOut : ℕ} (room : len ≤ maxOut) :
    (padDataCells input len output maxOut : Program β ε ℕ).post m =
      m.put output 0 (m.bytes input 0 len ++
        List.replicate (clampedLength len maxOut - len)
          (UInt8.ofNat (clampedLength len maxOut - len))) := by
  have fits : len ≤ clampedLength len maxOut := by
    rw [clampedLength_eq, paddedLength]
    omega
  rw [UInt8.ofNat_sub fits, Memory.put_append]
  simp only [padDataCells, post_bind, post_memcpy, post_storeAll, post_pure, Memory.length_bytes,
    Nat.zero_add]
  rfl

theorem bytes_put_block (b : β) (i : ℕ) (block : Block) :
    (m.put b i block.toList).bytes b i 16 = block.toList := by
  have read := m.bytes_put_self b i block.toList
  rwa [Vector.length_toList] at read

theorem post_xorInto (data : β) (i : ℕ) (prev : Block) :
    (xorInto data i prev : Program β ε Unit).post m =
      m.put data i (xorBytes (AES256.loadBlock (m.bytes data i 16)) prev).toList := by
  rw [xorInto, post_bind, post_loadAll, value_loadAll, post_storeAll, aesBlockSize]

theorem post_encryptBlockCells (aes : AES256) (data : β) (i : ℕ) :
    (encryptBlockCells aes data i : Program β ε Unit).post m =
      m.put data i (aes.encryptBlock (AES256.loadBlock (m.bytes data i 16))).toList := by
  rw [encryptBlockCells, post_bind, post_loadAll, value_loadAll, post_storeAll, aesBlockSize]

theorem trace_xorInto (data : β) (i : ℕ) (prev : Block) :
    (xorInto data i prev : Program β ε Unit).trace m = loads data i 16 ++ stores data i 16 := by
  rw [xorInto, trace_bind, trace_loadAll, trace_storeAll, Vector.length_toList, aesBlockSize]

theorem trace_encryptBlockCells (aes : AES256) (data : β) (i : ℕ) :
    (encryptBlockCells aes data i : Program β ε Unit).trace m =
      loads data i 16 ++ stores data i 16 := by
  rw [encryptBlockCells, trace_bind, trace_loadAll, trace_storeAll, Vector.length_toList,
    aesBlockSize]

/-- The loop replaces the blocks by what `encrypt_cbc` makes of them. -/
theorem post_encryptCbcLoopCells (aes : AES256) (data : β) (k i : ℕ) (prev : Block) :
    (encryptCbcLoopCells aes data k i prev : Program β ε Unit).post m =
      m.put data i (aes.encryptCbcLoop k prev (m.bytes data i (16 * k))) := by
  induction k generalizing m i prev with
  | zero => exact (m.put_nil data i).symm
  | succ k ih =>
    have whole : m.bytes data i (16 * (k + 1)) = m.bytes data i 16 ++ m.bytes data (i + 16) (16 * k) := by
      rw [Nat.mul_succ, Nat.add_comm, m.bytes_add]
    have first : (m.bytes data i 16).length = 16 := m.length_bytes data i 16
    rw [encryptCbcLoopCells, post_bind, post_bind, post_bind, post_loadAll, value_loadAll,
      post_xorInto, post_encryptBlockCells, aesBlockSize, bytes_put_block, bytes_put_block,
      AES256.loadBlock_toList, AES256.loadBlock_toList]
    generalize mixed : xorBytes (AES256.loadBlock (m.bytes data i 16)) prev = x
    generalize encrypted : aes.encryptBlock x = block
    have both : (m.put data i x.toList).put data i block.toList = m.put data i block.toList :=
      m.put_put data i (Vector.length_toList.trans Vector.length_toList.symm)
    rw [both, ih, Memory.bytes_put_behind _ _ (by rw [Vector.length_toList]), whole,
      AES256.encryptCbcLoop, AES256.loadBlock_append_of_length _ first, mixed, encrypted,
      List.drop_left' first, Memory.put_append, Vector.length_toList]

theorem store_mem_encryptCbcLoopCells (aes : AES256) (data b : β) (k i : ℕ) (prev : Block) (j : ℕ) :
    .store b j ∈ (encryptCbcLoopCells aes data k i prev : Program β ε Unit).trace m ↔
      b = data ∧ i ≤ j ∧ j < i + 16 * k := by
  induction k generalizing m i prev with
  | zero =>
    refine iff_of_false (List.not_mem_nil) ?_
    omega
  | succ k ih =>
    rw [encryptCbcLoopCells, trace_bind, trace_bind, trace_bind, trace_xorInto,
      trace_encryptBlockCells, trace_loadAll]
    simp only [List.mem_append, store_mem_loads, store_mem_stores, ih, false_or, aesBlockSize]
    constructor
    · rintro (⟨rfl, here⟩ | ⟨rfl, here⟩ | ⟨rfl, here⟩)
      · exact ⟨rfl, by omega⟩
      · exact ⟨rfl, by omega⟩
      · exact ⟨rfl, by omega⟩
    · rintro ⟨rfl, here⟩
      rcases Nat.lt_or_ge j (i + 16) with first | later
      · exact .inl ⟨rfl, by omega⟩
      · exact .inr (.inr ⟨rfl, by omega⟩)

end Spec

section Payload

variable (m : Memory EncryptArray) (plainLen maxOut : ℕ) (aes : AES256) (now : ℕ)

theorem value_encryptPayloadCells :
    (encryptPayloadCells plainLen maxOut aes now).value m =
      if clampedLength plainLen localBufferSize + aesBlockSize > maxOut then 0
      else aesBlockSize + clampedLength plainLen localBufferSize := by
  rw [encryptPayloadCells, value_bind, value_bind, value_bind, value_padDataCells, value_ite]
  rfl

/-- The accesses of a call; those of `encrypt_cbc` depend on the number of its blocks only. -/
theorem store_mem_encryptPayloadCells (b : EncryptArray) (i : ℕ) :
    .store b i ∈ (encryptPayloadCells plainLen maxOut aes now).trace m ↔
      (b = .iv ∧ i < 16) ∨ (b = .out ∧ i < 16) ∨
      (b = .padded ∧ i < max plainLen (clampedLength plainLen localBufferSize)) ∨
      (clampedLength plainLen localBufferSize + 16 ≤ maxOut ∧ b = .out ∧ 16 ≤ i ∧
        i < 16 + 16 * ((clampedLength plainLen localBufferSize + 15) / 16)) := by
  set n := clampedLength plainLen localBufferSize with n_def
  have block : aesBlockSize = 16 := rfl
  have pad : b = .padded ∧ 0 ≤ i ∧ i < 0 + plainLen ∨ b = .padded ∧ plainLen ≤ i ∧
      i < plainLen + (n - plainLen) ↔ b = .padded ∧ i < max plainLen n := by
    rw [← and_or_left]
    exact and_congr_right fun _ => by omega
  have cells : b = .out ∧ aesBlockSize ≤ i ∧ i < aesBlockSize + n ∨
      b = .out ∧ aesBlockSize ≤ i ∧ i < aesBlockSize + 16 * ((n + 15) / 16) ↔
      b = .out ∧ 16 ≤ i ∧ i < 16 + 16 * ((n + 15) / 16) := by
    rw [← and_or_left]
    exact and_congr_right fun _ => by omega
  rw [encryptPayloadCells, trace_bind, trace_bind, trace_bind, value_padDataCells, trace_ite, ← n_def]
  by_cases full : n + aesBlockSize > maxOut
  · have more : ¬ n + 16 ≤ maxOut := not_le.2 full
    rw [if_pos full]
    simp only [trace_storeAll, trace_memcpy, trace_padDataCells, trace_pure, List.mem_append,
      store_mem_loads, store_mem_stores, Vector.length_toList, ← n_def, pad, more]
    simp [block]
  · have less : n + 16 ≤ maxOut := not_lt.1 full
    rw [if_neg full, encryptCbcCells, trace_bind, trace_bind, trace_bind]
    simp only [trace_storeAll, trace_memcpy, trace_padDataCells, trace_loadAll, trace_pure,
      List.mem_append, store_mem_loads, store_mem_stores, store_mem_encryptCbcLoopCells,
      Vector.length_toList, ← n_def, pad, less, List.not_mem_nil, false_or, or_false, cells]
    simp [block]

end Payload

/-- The arrays of a call for a message; what is not initialized stays as it is in `m`. -/
def withMessage (m : Memory EncryptArray) (message : Str) : Memory EncryptArray :=
  m.put .plaintext 0 message

section Refines

variable (m : Memory EncryptArray) (message : Str) (aes : AES256) (now : ℕ)

/-- The padded message. -/
def paddedMessage (message : Str) : List UInt8 :=
  message ++ List.replicate (clampedLength message.length localBufferSize - message.length)
    (UInt8.ofNat (clampedLength message.length localBufferSize - message.length))

variable {message}

theorem length_paddedMessage (short : message.length ≤ localBufferSize) :
    (paddedMessage message).length = clampedLength message.length localBufferSize := by
  have clamped := clampedLength_eq message.length localBufferSize
  rw [paddedLength] at clamped
  rw [paddedMessage, List.length_append, List.length_replicate]
  omega

theorem length_paddedMessage_mod (short : message.length ≤ localBufferSize) :
    (paddedMessage message).length % 16 = 0 := by
  have size := length_paddedMessage short
  have clamped := clampedLength_eq message.length localBufferSize
  have local' : localBufferSize = 1024 := rfl
  rw [paddedLength] at clamped
  omega

theorem padData_eq_paddedMessage (short : message.length ≤ localBufferSize) :
    padData message localBufferSize = .ok (paddedMessage message) := by
  show (if message.length > localBufferSize then _ else _) = _
  rw [if_neg (not_lt.2 short)]
  rfl

/-- What stands in the arrays after a call for a message that fits. -/
theorem post_encryptPayloadCells (short : message.length ≤ localBufferSize)
    (fits : ¬ clampedLength message.length localBufferSize + aesBlockSize > 1024) :
    (encryptPayloadCells message.length 1024 aes now).post (withMessage m message) =
      ((((((withMessage m message).put .iv 0 (generateIv now).toList).put .out 0
        (generateIv now).toList).put .padded 0 (paddedMessage message)).put .out aesBlockSize
          (paddedMessage message)).put .out aesBlockSize
            (aes.encryptCbc (paddedMessage message) (paddedMessage message).length
              (generateIv now))) := by
  have size := length_paddedMessage short
  have blocks := length_paddedMessage_mod short
  have whole : 16 * (((paddedMessage message).length + 15) / 16) = (paddedMessage message).length := by
    omega
  have plain : (m.put .plaintext 0 message).bytes .plaintext 0 message.length = message :=
    m.bytes_put_self _ _ _
  have ne₁ : EncryptArray.plaintext ≠ .iv := nofun
  have ne₂ : EncryptArray.plaintext ≠ .out := nofun
  have ne₃ : EncryptArray.iv ≠ .out := nofun
  have ne₄ : EncryptArray.iv ≠ .padded := nofun
  rw [encryptPayloadCells, post_bind, post_bind, post_bind, value_padDataCells, if_neg fits,
    post_storeAll, post_memcpy, aesBlockSize, bytes_put_block, post_padDataCells _ _ _ short,
    Memory.bytes_put_of_ne _ ne₂, Memory.bytes_put_of_ne _ ne₁, withMessage, plain, ← paddedMessage,
    ← size, post_bind, post_memcpy, Memory.bytes_put_self, post_bind, encryptCbcCells, post_bind,
    post_loadAll, value_loadAll, aesBlockSize, Memory.bytes_put_of_ne _ ne₃,
    Memory.bytes_put_of_ne _ ne₄, Memory.bytes_put_of_ne _ ne₃, bytes_put_block,
    AES256.loadBlock_toList, post_encryptCbcLoopCells, whole, Memory.bytes_put_self, post_pure,
    AES256.encryptCbc]

/-- A message that is not longer than the buffer is encrypted as `encryptPayload` says. -/
theorem encryptPayload_eq_cells (short : message.length ≤ localBufferSize) :
    encryptPayload message 1024 aes now =
      .ok (((encryptPayloadCells message.length 1024 aes now).post (withMessage m message)).bytes .out 0
        ((encryptPayloadCells message.length 1024 aes now).value (withMessage m message))) := by
  have size := length_paddedMessage short
  have call : encryptPayload message 1024 aes now =
      if (paddedMessage message).length + aesBlockSize > 1024 then .ok []
      else .ok ((generateIv now).toList ++
        aes.encryptCbc (paddedMessage message) (paddedMessage message).length (generateIv now)) := by
    rw [encryptPayload, padData_eq_paddedMessage short]
    rfl
  rw [call, value_encryptPayloadCells, ← size]
  by_cases full : (paddedMessage message).length + aesBlockSize > 1024
  · rw [if_pos full, if_pos full]
    rfl
  · have same := aes.length_encryptCbc (length_paddedMessage_mod short) (generateIv now)
    have ne : EncryptArray.out ≠ .padded := nofun
    have read := Memory.bytes_put_self (((((withMessage m message).put .iv 0
      (generateIv now).toList).put .out 0 (generateIv now).toList).put .padded 0
        (paddedMessage message)).put .out aesBlockSize (paddedMessage message)) .out aesBlockSize
          (aes.encryptCbc (paddedMessage message) (paddedMessage message).length (generateIv now))
    rw [if_neg full, if_neg full, post_encryptPayloadCells m aes now short (by rwa [size] at full),
      Memory.bytes_add, Nat.zero_add]
    rw [same] at read
    have front : 0 + aesBlockSize ≤ aesBlockSize := Nat.le_of_eq (Nat.zero_add _)
    rw [read, Memory.bytes_put_before _ _ _ front, Memory.bytes_put_before _ _ _ front,
      Memory.bytes_put_of_ne _ ne, aesBlockSize, bytes_put_block]

theorem encryptPayload_eq_error_iff (message : Str) :
    encryptPayload message 1024 aes now = .error .overrun ↔ localBufferSize < message.length := by
  unfold encryptPayload
  by_cases long : message.length > localBufferSize
  · have stopped : padData message localBufferSize = .error .overrun := if_pos long
    rw [stopped]
    exact iff_of_true rfl long
  · rw [padData_eq_paddedMessage (not_lt.1 long)]
    refine iff_of_false ?_ long
    simp only [bind, Except.bind]
    split_ifs <;> nofun

end Refines

/-! ## Every message -/

/-- The call that the `send` command makes for a message writes within both arrays, and returns zero
when the padded message does not fit behind the vector. -/
def EncryptsInBuffers (aes : AES256) (now : ℕ) (m : Memory EncryptArray) (message : Str) : Prop :=
  (∀ i, .store .padded i ∈
      (encryptPayloadCells message.length 1024 aes now).trace (withMessage m message) →
        i < localBufferSize) ∧
    (∀ i, .store .out i ∈
      (encryptPayloadCells message.length 1024 aes now).trace (withMessage m message) → i < 1024) ∧
    (aesBlockSize + paddedLength message.length > 1024 →
      (encryptPayloadCells message.length 1024 aes now).value (withMessage m message) = 0)

/-- A call stays within its arrays exactly when the message is not longer than the one that it is
copied to. -/
theorem encryptsInBuffers_iff (aes : AES256) (now : ℕ) (m : Memory EncryptArray) (message : Str) :
    EncryptsInBuffers aes now m message ↔ message.length ≤ 1024 := by
  have block : aesBlockSize = 16 := rfl
  have local' : localBufferSize = 1024 := rfl
  have clamped := clampedLength_eq message.length localBufferSize
  simp only [EncryptsInBuffers, store_mem_encryptPayloadCells, value_encryptPayloadCells, reduceCtorEq,
    false_and, and_false, true_and, false_or, or_false]
  constructor
  · rintro ⟨inside, -, -⟩
    by_contra long
    have last := inside 1024 (by omega)
    omega
  · intro short
    rw [paddedLength] at clamped ⊢
    refine ⟨fun i hi => by omega, fun i hi => by omega, fun large => ?_⟩
    rw [if_pos (by omega)]

/-- The message of 1025 bytes. -/
theorem long_message_overruns :
    ¬ EncryptsInBuffers (AES256.new (Vector.replicate 32 0)) 0 (fun _ _ => 0)
      (List.replicate 1025 0x61) := by
  rintro ⟨inside, -, -⟩
  have written := inside 1024 ((store_mem_encryptPayloadCells _ _ _ _ _ .padded 1024).2
    (.inr (.inr (.inl ⟨rfl, by rw [List.length_replicate]; omega⟩))))
  exact absurd written (by decide)

end Araba
