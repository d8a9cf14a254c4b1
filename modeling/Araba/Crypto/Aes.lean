import Araba.Lib.Bytes

/-!
# AES256

The cipher of `crypto.cpp`: the tables, the round transformations on a state of sixteen bytes, the
key expansion over the flat array of 240 round-key bytes, single blocks and CBC.
-/

namespace Araba

/-- `AES_BLOCK_SIZE` bytes: a state. -/
abbrev Block := Vector UInt8 16

/-- `AES_KEY_SIZE` bytes. -/
abbrev Key := Vector UInt8 32

/-- `round_keys`, read as one contiguous array: byte `j` of word `i` is at `4 * i + j`. -/
abbrev RoundKeys := Vector UInt8 240

/-- `AES_BLOCK_SIZE`. -/
def aesBlockSize : ℕ := 16

/-- `AES_ROUNDS`. -/
def aesRounds : ℕ := 14

/-! ## Tables -/

set_option maxRecDepth 4000 in
/-- `sbox[256]`. -/
def sboxTable : Vector UInt8 256 := #v[
  0x63, 0x7c, 0x77, 0x7b, 0xf2, 0x6b, 0x6f, 0xc5, 0x30, 0x01, 0x67, 0x2b, 0xfe, 0xd7, 0xab, 0x76,
  0xca, 0x82, 0xc9, 0x7d, 0xfa, 0x59, 0x47, 0xf0, 0xad, 0xd4, 0xa2, 0xaf, 0x9c, 0xa4, 0x72, 0xc0,
  0xb7, 0xfd, 0x93, 0x26, 0x36, 0x3f, 0xf7, 0xcc, 0x34, 0xa5, 0xe5, 0xf1, 0x71, 0xd8, 0x31, 0x15,
  0x04, 0xc7, 0x23, 0xc3, 0x18, 0x96, 0x05, 0x9a, 0x07, 0x12, 0x80, 0xe2, 0xeb, 0x27, 0xb2, 0x75,
  0x09, 0x83, 0x2c, 0x1a, 0x1b, 0x6e, 0x5a, 0xa0, 0x52, 0x3b, 0xd6, 0xb3, 0x29, 0xe3, 0x2f, 0x84,
  0x53, 0xd1, 0x00, 0xed, 0x20, 0xfc, 0xb1, 0x5b, 0x6a, 0xcb, 0xbe, 0x39, 0x4a, 0x4c, 0x58, 0xcf,
  0xd0, 0xef, 0xaa, 0xfb, 0x43, 0x4d, 0x33, 0x85, 0x45, 0xf9, 0x02, 0x7f, 0x50, 0x3c, 0x9f, 0xa8,
  0x51, 0xa3, 0x40, 0x8f, 0x92, 0x9d, 0x38, 0xf5, 0xbc, 0xb6, 0xda, 0x21, 0x10, 0xff, 0xf3, 0xd2,
  0xcd, 0x0c, 0x13, 0xec, 0x5f, 0x97, 0x44, 0x17, 0xc4, 0xa7, 0x7e, 0x3d, 0x64, 0x5d, 0x19, 0x73,
  0x60, 0x81, 0x4f, 0xdc, 0x22, 0x2a, 0x90, 0x88, 0x46, 0xee, 0xb8, 0x14, 0xde, 0x5e, 0x0b, 0xdb,
  0xe0, 0x32, 0x3a, 0x0a, 0x49, 0x06, 0x24, 0x5c, 0xc2, 0xd3, 0xac, 0x62, 0x91, 0x95, 0xe4, 0x79,
  0xe7, 0xc8, 0x37, 0x6d, 0x8d, 0xd5, 0x4e, 0xa9, 0x6c, 0x56, 0xf4, 0xea, 0x65, 0x7a, 0xae, 0x08,
  0xba, 0x78, 0x25, 0x2e, 0x1c, 0xa6, 0xb4, 0xc6, 0xe8, 0xdd, 0x74, 0x1f, 0x4b, 0xbd, 0x8b, 0x8a,
  0x70, 0x3e, 0xb5, 0x66, 0x48, 0x03, 0xf6, 0x0e, 0x61, 0x35, 0x57, 0xb9, 0x86, 0xc1, 0x1d, 0x9e,
  0xe1, 0xf8, 0x98, 0x11, 0x69, 0xd9, 0x8e, 0x94, 0x9b, 0x1e, 0x87, 0xe9, 0xce, 0x55, 0x28, 0xdf,
  0x8c, 0xa1, 0x89, 0x0d, 0xbf, 0xe6, 0x42, 0x68, 0x41, 0x99, 0x2d, 0x0f, 0xb0, 0x54, 0xbb, 0x16]

set_option maxRecDepth 4000 in
/-- `inv_sbox[256]`. -/
def invSboxTable : Vector UInt8 256 := #v[
  0x52, 0x09, 0x6a, 0xd5, 0x30, 0x36, 0xa5, 0x38, 0xbf, 0x40, 0xa3, 0x9e, 0x81, 0xf3, 0xd7, 0xfb,
  0x7c, 0xe3, 0x39, 0x82, 0x9b, 0x2f, 0xff, 0x87, 0x34, 0x8e, 0x43, 0x44, 0xc4, 0xde, 0xe9, 0xcb,
  0x54, 0x7b, 0x94, 0x32, 0xa6, 0xc2, 0x23, 0x3d, 0xee, 0x4c, 0x95, 0x0b, 0x42, 0xfa, 0xc3, 0x4e,
  0x08, 0x2e, 0xa1, 0x66, 0x28, 0xd9, 0x24, 0xb2, 0x76, 0x5b, 0xa2, 0x49, 0x6d, 0x8b, 0xd1, 0x25,
  0x72, 0xf8, 0xf6, 0x64, 0x86, 0x68, 0x98, 0x16, 0xd4, 0xa4, 0x5c, 0xcc, 0x5d, 0x65, 0xb6, 0x92,
  0x6c, 0x70, 0x48, 0x50, 0xfd, 0xed, 0xb9, 0xda, 0x5e, 0x15, 0x46, 0x57, 0xa7, 0x8d, 0x9d, 0x84,
  0x90, 0xd8, 0xab, 0x00, 0x8c, 0xbc, 0xd3, 0x0a, 0xf7, 0xe4, 0x58, 0x05, 0xb8, 0xb3, 0x45, 0x06,
  0xd0, 0x2c, 0x1e, 0x8f, 0xca, 0x3f, 0x0f, 0x02, 0xc1, 0xaf, 0xbd, 0x03, 0x01, 0x13, 0x8a, 0x6b,
  0x3a, 0x91, 0x11, 0x41, 0x4f, 0x67, 0xdc, 0xea, 0x97, 0xf2, 0xcf, 0xce, 0xf0, 0xb4, 0xe6, 0x73,
  0x96, 0xac, 0x74, 0x22, 0xe7, 0xad, 0x35, 0x85, 0xe2, 0xf9, 0x37, 0xe8, 0x1c, 0x75, 0xdf, 0x6e,
  0x47, 0xf1, 0x1a, 0x71, 0x1d, 0x29, 0xc5, 0x89, 0x6f, 0xb7, 0x62, 0x0e, 0xaa, 0x18, 0xbe, 0x1b,
  0xfc, 0x56, 0x3e, 0x4b, 0xc6, 0xd2, 0x79, 0x20, 0x9a, 0xdb, 0xc0, 0xfe, 0x78, 0xcd, 0x5a, 0xf4,
  0x1f, 0xdd, 0xa8, 0x33, 0x88, 0x07, 0xc7, 0x31, 0xb1, 0x12, 0x10, 0x59, 0x27, 0x80, 0xec, 0x5f,
  0x60, 0x51, 0x7f, 0xa9, 0x19, 0xb5, 0x4a, 0x0d, 0x2d, 0xe5, 0x7a, 0x9f, 0x93, 0xc9, 0x9c, 0xef,
  0xa0, 0xe0, 0x3b, 0x4d, 0xae, 0x2a, 0xf5, 0xb0, 0xc8, 0xeb, 0xbb, 0x3c, 0x83, 0x53, 0x99, 0x61,
  0x17, 0x2b, 0x04, 0x7e, 0xba, 0x77, 0xd6, 0x26, 0xe1, 0x69, 0x14, 0x63, 0x55, 0x21, 0x0c, 0x7d]

/-- `rcon[11]`. -/
def rconTable : Vector UInt8 11 :=
  #v[0x00, 0x01, 0x02, 0x04, 0x08, 0x10, 0x20, 0x40, 0x80, 0x1b, 0x36]

/-- `sbox[b]`. -/
def sbox (b : UInt8) : UInt8 := sboxTable.get b.toFin

/-- `inv_sbox[b]`. -/
def invSbox (b : UInt8) : UInt8 := invSboxTable.get b.toFin

/-- `rcon[i]`. -/
def rcon (i : ℕ) : UInt8 := rconTable[i]?.getD 0

/-! ## Field multiplication -/

/-- Multiplication by `x`: the shift of `a` in the loop of `gmul`. -/
def xtime (a : UInt8) : UInt8 :=
  if a &&& 0x80 ≠ 0 then (a <<< 1) ^^^ 0x1b else a <<< 1

/-- The loop of `gmul`, with the iterations that are left. -/
def gmulLoop : ℕ → UInt8 → UInt8 → UInt8 → UInt8
  | 0, _, _, p => p
  | k + 1, a, b, p => gmulLoop k (xtime a) (b >>> 1) (if b &&& 1 ≠ 0 then p ^^^ a else p)

/-- `gmul`: the product in the field of 256 elements. -/
def gmul (a b : UInt8) : UInt8 := gmulLoop 8 a b 0

/-! ## Key expansion -/

/-- A word of the key schedule. -/
abbrev Word := Vector UInt8 4

/-- Byte by byte, the bits that differ. -/
def xorBytes {n : ℕ} (a b : Vector UInt8 n) : Vector UInt8 n := Vector.zipWith (· ^^^ ·) a b

/-- `rot_word`: a rotation to the left by one byte. -/
def rotWord (w : Word) : Word := #v[w[1], w[2], w[3], w[0]]

/-- `sub_word`: each byte goes through the S-box. -/
def subWord (w : Word) : Word := w.map sbox

/-- The four bytes of word `i`. -/
def RoundKeys.word (rk : RoundKeys) (i : ℕ) : Word := Vector.ofFn fun j => rk[4 * i + j]?.getD 0

/-- `round_keys[i][0..3] = w`. -/
def RoundKeys.setWord (rk : RoundKeys) (i : ℕ) (w : Word) : RoundKeys :=
  (((rk.setIfInBounds (4 * i) w[0]).setIfInBounds (4 * i + 1) w[1]).setIfInBounds (4 * i + 2)
    w[2]).setIfInBounds (4 * i + 3) w[3]

/-- The inner loop of the first loop: byte `j` of word `i` of the key goes to
`round_keys[i][j * 4]`, so the four bytes lie in the words `i` to `i + 3`. -/
def scatterKey (key : Key) (rk : RoundKeys) (i : ℕ) : RoundKeys :=
  (List.range 4).foldl (fun rk j => rk.setIfInBounds (4 * i + 4 * j) (key[4 * i + j]?.getD 0)) rk

/-- One step of the first loop: the scattered bytes are read back and stored as word `i`. -/
def copyWord (key : Key) (rk : RoundKeys) (i : ℕ) : RoundKeys :=
  let rk := scatterKey key rk i
  let w : Word := #v[rk[4 * i]?.getD 0, rk[4 * i + 4]?.getD 0, rk[4 * i + 8]?.getD 0,
    rk[4 * i + 12]?.getD 0]
  rk.setWord i w

/-- What `key_expansion` makes of the word in front of word `i`. -/
def temp (i : ℕ) (w : Word) : Word :=
  if i % 8 = 0 then
    let w := subWord (rotWord w)
    w.set 0 (w[0] ^^^ rcon (i / 8))
  else if i % 8 = 4 then subWord w
  else w

/-- One step of the second loop. -/
def expandWord (rk : RoundKeys) (i : ℕ) : RoundKeys :=
  rk.setWord i (xorBytes (rk.word (i - 8)) (temp i (rk.word (i - 1))))

/-- `rk` is what the array holds before. -/
def keyExpansion (key : Key) (rk : RoundKeys) : RoundKeys :=
  (List.range' 8 52).foldl expandWord ((List.range 8).foldl (copyWord key) rk)

/-! ## Round transformations -/

/-- `round_keys[round][i]` for `i < 16`: the index runs on into the words after word `round`. -/
def RoundKeys.window (rk : RoundKeys) (round : ℕ) : Block :=
  Vector.ofFn fun i => rk[4 * round + i]?.getD 0

/-- `add_round_key`. -/
def addRoundKey (rk : RoundKeys) (round : ℕ) (state : Block) : Block :=
  xorBytes state (rk.window round)

/-- `sub_bytes`. -/
def subBytes (state : Block) : Block := state.map sbox

/-- `inv_sub_bytes`. -/
def invSubBytes (state : Block) : Block := state.map invSbox

/-- `shift_rows`: the bytes whose index is `r` modulo four are a row, and move by `r` places. -/
def shiftRows (temp : Block) : Block :=
  #v[temp[0], temp[5], temp[10], temp[15],
    temp[4], temp[9], temp[14], temp[3],
    temp[8], temp[13], temp[2], temp[7],
    temp[12], temp[1], temp[6], temp[11]]

/-- `inv_shift_rows`: the rows move back. -/
def invShiftRows (temp : Block) : Block :=
  #v[temp[0], temp[13], temp[10], temp[7],
    temp[4], temp[1], temp[14], temp[11],
    temp[8], temp[5], temp[2], temp[15],
    temp[12], temp[9], temp[6], temp[3]]

/-- The bytes `state[i * 4 + c]` for `i < 4`. -/
def gather (state : Block) (c : Fin 4) : Word := Vector.ofFn fun i => state[i.val * 4 + c.val]

/-- Write the bytes `state[i * 4 + c]` for `i < 4`. -/
def scatter (state : Block) (c : Fin 4) (w : Word) : Block :=
  (((state.set (0 * 4 + c.val) w[0]).set (1 * 4 + c.val) w[1]).set (2 * 4 + c.val) w[2]).set
    (3 * 4 + c.val) w[3]

/-- What `mix_columns` makes of the four bytes `a`. -/
def mixWord (a : Word) : Word :=
  #v[gmul a[0] 2 ^^^ gmul a[1] 3 ^^^ a[2] ^^^ a[3],
    a[0] ^^^ gmul a[1] 2 ^^^ gmul a[2] 3 ^^^ a[3],
    a[0] ^^^ a[1] ^^^ gmul a[2] 2 ^^^ gmul a[3] 3,
    gmul a[0] 3 ^^^ a[1] ^^^ a[2] ^^^ gmul a[3] 2]

/-- What `inv_mix_columns` makes of the four bytes `a`. -/
def invMixWord (a : Word) : Word :=
  #v[gmul a[0] 0x0e ^^^ gmul a[1] 0x0b ^^^ gmul a[2] 0x0d ^^^ gmul a[3] 0x09,
    gmul a[0] 0x09 ^^^ gmul a[1] 0x0e ^^^ gmul a[2] 0x0b ^^^ gmul a[3] 0x0d,
    gmul a[0] 0x0d ^^^ gmul a[1] 0x09 ^^^ gmul a[2] 0x0e ^^^ gmul a[3] 0x0b,
    gmul a[0] 0x0b ^^^ gmul a[1] 0x0d ^^^ gmul a[2] 0x09 ^^^ gmul a[3] 0x0e]

/-- The loop of `mix_columns` and `inv_mix_columns`: for each `c`, the bytes `state[i * 4 + c]` go
through `mix`. -/
def mapGathered (mix : Word → Word) (state : Block) : Block :=
  (List.finRange 4).foldl (fun s c => scatter s c (mix (gather s c))) state

/-- `mix_columns`. -/
def mixColumns (state : Block) : Block := mapGathered mixWord state

/-- `inv_mix_columns`. -/
def invMixColumns (state : Block) : Block := mapGathered invMixWord state

/-! ## Blocks -/

/-- `class AES256`: the key schedule is all that it keeps. -/
structure AES256 where
  roundKeys : RoundKeys
  deriving DecidableEq

/-- The constructor. The member array is not initialised before `key_expansion`, which writes each
of its bytes; zero stands for what it holds. -/
def AES256.new (key : Key) : AES256 := ⟨keyExpansion key (Vector.replicate 240 0)⟩

namespace AES256

variable (aes : AES256)

/-- One pass of the loop of `encrypt_block`. -/
def encryptRound (block : Block) (round : ℕ) : Block :=
  addRoundKey aes.roundKeys round (mixColumns (shiftRows (subBytes block)))

/-- `encrypt_block`: the last round does not mix. -/
def encryptBlock (block : Block) : Block :=
  let block := addRoundKey aes.roundKeys 0 block
  let block := (List.range' 1 (aesRounds - 1)).foldl aes.encryptRound block
  addRoundKey aes.roundKeys aesRounds (shiftRows (subBytes block))

/-- One pass of the loop of `decrypt_block`. -/
def decryptRound (block : Block) (round : ℕ) : Block :=
  invMixColumns (addRoundKey aes.roundKeys round (invSubBytes (invShiftRows block)))

/-- `decrypt_block`: the rounds of `encrypt_block`, undone from the last one on. -/
def decryptBlock (block : Block) : Block :=
  let block := addRoundKey aes.roundKeys aesRounds block
  let block := (List.range' 1 (aesRounds - 1)).reverse.foldl aes.decryptRound block
  addRoundKey aes.roundKeys 0 (invSubBytes (invShiftRows block))

/-! ## CBC -/

/-- The sixteen bytes at the front of a buffer. Where fewer are left, zero stands for what lies
behind them. -/
def loadBlock (data : List UInt8) : Block := Vector.ofFn fun i => data[i.val]?.getD 0

/-- The loop of `encrypt_cbc`, with the blocks that are left. -/
def encryptCbcLoop : ℕ → Block → List UInt8 → List UInt8
  | 0, _, data => data
  | k + 1, prev, data =>
    let block := aes.encryptBlock (xorBytes (loadBlock data) prev)
    block.toList ++ encryptCbcLoop k block (data.drop 16)

/-- `data` is the buffer, of which the first `dataLen` bytes are to be encrypted. -/
def encryptCbc (data : List UInt8) (dataLen : ℕ) (iv : Block) : List UInt8 :=
  aes.encryptCbcLoop ((dataLen + 15) / 16) iv data

/-- The loop of `decrypt_cbc`, with the blocks that are left. -/
def decryptCbcLoop : ℕ → Block → List UInt8 → List UInt8
  | 0, _, data => data
  | k + 1, prev, data =>
    let temp := loadBlock data
    (xorBytes (aes.decryptBlock temp) prev).toList ++ decryptCbcLoop k temp (data.drop 16)

/-- `data` is the buffer, of which the first `dataLen` bytes are to be decrypted. -/
def decryptCbc (data : List UInt8) (dataLen : ℕ) (iv : Block) : List UInt8 :=
  aes.decryptCbcLoop ((dataLen + 15) / 16) iv data

end AES256

end Araba
