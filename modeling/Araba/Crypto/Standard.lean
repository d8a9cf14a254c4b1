import Araba.Crypto.RoundTrip

/-!
# The cipher of the AES standard

AES-256 as the standard states it: the S-box from inverses in the field of 256 elements and an affine
map, a state whose columns are the words `4 * c .. 4 * c + 3`, the key expansion as a recursion over
words, and the cipher. `cipherWith` leaves open how the state is mixed and which words a round takes,
so that a variant of the cipher can be compared with it.
-/

namespace Araba

namespace Standard

/-! ## The field -/

/-- Multiplication by `x` modulo `x ^ 8 + x ^ 4 + x ^ 3 + x + 1`, on polynomials over the field of
two elements that are written as numbers. -/
def timesX (a : ℕ) : ℕ := if a < 128 then 2 * a else 2 * a ^^^ 0x11b

/-- The sum of the products of `a` with the `k` lowest powers of `x` in `b`. -/
def product : ℕ → ℕ → ℕ → ℕ
  | 0, _, _ => 0
  | k + 1, a, b =>
    if b % 2 = 1 then a ^^^ product k (timesX a) (b / 2) else product k (timesX a) (b / 2)

/-- The product in the field of 256 elements. -/
def mul (a b : UInt8) : UInt8 := UInt8.ofNat (product 8 a.toNat b.toNat)

/-- The product of `acc` with the powers of `b` whose exponents are `2`, `4`, .., `2 ^ k`. -/
def powers : ℕ → ℕ → ℕ → ℕ
  | 0, acc, _ => acc
  | k + 1, acc, b => powers k (product 8 acc (product 8 b b)) (product 8 b b)

/-- The multiplicative inverse, and `0` for `0`: the power with exponent
`254 = 2 + 4 + 8 + 16 + 32 + 64 + 128`. -/
def inverse (b : UInt8) : UInt8 := UInt8.ofNat (powers 7 1 b.toNat)

/-- Bit `i` of the result is the sum of the bits `i`, `i + 4`, `i + 5`, `i + 6` and `i + 7`, taken
modulo `8`, and bit `i` of `0x63`. -/
def affine (b : UInt8) : UInt8 :=
  UInt8.ofNat ((List.range 8).foldl (fun acc i =>
    let bit (j : ℕ) := b.toNat.testBit (j % 8)
    if (bit i ^^ bit (i + 4) ^^ bit (i + 5) ^^ bit (i + 6) ^^ bit (i + 7) ^^ (0x63).testBit i)
    then acc + 2 ^ i else acc) 0)

/-- The S-box: the inverse, and then the affine map. -/
def sbox (b : UInt8) : UInt8 := affine (inverse b)

/-! ## Transformations of the state -/

/-- The byte in row `r` and column `c` of the state. -/
def entry (s : Block) (r c : ℕ) : UInt8 := s[r + 4 * c]?.getD 0

/-- The state with the byte `f r c` in row `r` and column `c`. -/
def ofEntries (f : ℕ → ℕ → UInt8) : Block := Vector.ofFn fun i => f (i.val % 4) (i.val / 4)

/-- Column `c` of the state. -/
def column (s : Block) (c : ℕ) : Word := #v[entry s 0 c, entry s 1 c, entry s 2 c, entry s 3 c]

/-- Each byte goes through the S-box. -/
def subBytes (s : Block) : Block := s.map sbox

/-- Row `r` is shifted left by `r`. -/
def shiftRows (s : Block) : Block := ofEntries fun r c => entry s r ((c + r) % 4)

/-- The product with the matrix of the standard. -/
def mixColumn (a : Word) : Word :=
  let s := a.get
  #v[mul (s 0) 2 ^^^ mul (s 1) 3 ^^^ s 2 ^^^ s 3,
    s 0 ^^^ mul (s 1) 2 ^^^ mul (s 2) 3 ^^^ s 3,
    s 0 ^^^ s 1 ^^^ mul (s 2) 2 ^^^ mul (s 3) 3,
    mul (s 0) 3 ^^^ s 1 ^^^ s 2 ^^^ mul (s 3) 2]

/-- Each column is multiplied with the matrix. -/
def mixColumns (s : Block) : Block := ofEntries fun r c => (mixColumn (column s c))[r]?.getD 0

/-- Each byte of the word goes through the S-box. -/
def subWord (w : Word) : Word := w.map sbox

/-- The power of `x` with exponent `i - 1`, in the first byte. -/
def roundConstant (i : ℕ) : Word := #v[UInt8.ofNat (timesX^[i - 1] 1), 0, 0, 0]

/-- The words of the key expansion. -/
def word (key : Key) (i : ℕ) : Word :=
  if i < 8 then Vector.ofFn fun j => key[4 * i + j.val]?.getD 0
  else if i % 8 = 0 then
    xorBytes (word key (i - 8))
      (xorBytes (subWord (rotWord (word key (i - 1)))) (roundConstant (i / 8)))
  else if i % 8 = 4 then xorBytes (word key (i - 8)) (subWord (word key (i - 1)))
  else xorBytes (word key (i - 8)) (word key (i - 1))
termination_by i

/-- Four words from word `i` on, as the columns of a state. -/
def words (w : ℕ → Word) (i : ℕ) : Block := ofEntries fun r c => (w (i + c))[r]?.getD 0

/-! ## The cipher -/

/-- The cipher with `mix` for the mixing of the state and `roundKey r` for the key of round `r`. -/
def cipherWith (mix : Block → Block) (roundKey : ℕ → Block) (input : Block) : Block :=
  let state := xorBytes input (roundKey 0)
  let state := (List.range' 1 13).foldl
    (fun s r => xorBytes (mix (shiftRows (subBytes s))) (roundKey r)) state
  xorBytes (shiftRows (subBytes state)) (roundKey 14)

/-- AES-256: round `r` takes the words `4 * r .. 4 * r + 3`. -/
def cipher (key : Key) : Block → Block :=
  cipherWith mixColumns fun r => words (word key) (4 * r)

/-- The state of AES-256 after round `r`, for the rounds that mix. -/
def stateAfter (key : Key) (input : Block) : ℕ → Block
  | 0 => xorBytes input (words (word key) 0)
  | r + 1 =>
    xorBytes (mixColumns (shiftRows (subBytes (stateAfter key input r))))
      (words (word key) (4 * (r + 1)))

end Standard

end Araba
