import Araba.Crypto.RoundTrip

/-!
# The cipher splits

`shiftRows` moves a byte by a multiple of four positions and `mixColumns` mixes the bytes
`state[i * 4 + c]`, which also lie four apart. So no step of a round carries a byte into a position
with another remainder modulo four: `encryptBlock` is four ciphers on four bytes each, side by side.
-/

namespace Araba

open BlockCipher

/-- The step works on the four groups of bytes `state[i * 4 + c]` separately. -/
abbrev SplitsByRow (f : Block → Block) : Prop :=
  Splits (fun (c : Fin 4) (s : Block) => gather s c) f

/-- A step splits when each gathered word of the result is a function of the same word. -/
theorem splitsByRow_of {f : Block → Block} (g : Fin 4 → Word → Word)
    (h : ∀ s c, gather (f s) c = g c (gather s c)) : SplitsByRow f := by
  intro c x y e
  show gather (f x) c = gather (f y) c
  rw [h, h]
  exact congrArg (g c) e

theorem splits_subBytes : SplitsByRow subBytes :=
  splitsByRow_of (fun _ w => w.map sbox) fun s c => by
    apply Vector.ext
    simp [subBytes]

theorem splits_shiftRows : SplitsByRow shiftRows :=
  splitsByRow_of (fun c w => Vector.ofFn fun i => w[(i.val + c.val) % 4]) fun s c => by
    apply Vector.ext
    intro i hi
    simp only [getElem_gather, Vector.getElem_ofFn]
    fin_cases c <;> interval_cases i <;> rfl

theorem splits_mapGathered (mix : Word → Word) : SplitsByRow (mapGathered mix) :=
  splitsByRow_of (fun _ => mix) (gather_mapGathered mix)

theorem splits_addRoundKey (rk : RoundKeys) (round : ℕ) : SplitsByRow (addRoundKey rk round) :=
  splitsByRow_of (fun c w => xorBytes w (gather (rk.window round) c)) fun s c => by
    apply Vector.ext
    simp [addRoundKey, xorBytes]

namespace AES256

variable (aes : AES256)

theorem splits_encryptRound (round : ℕ) : SplitsByRow fun s => aes.encryptRound s round :=
  (splits_addRoundKey _ _).comp ((splits_mapGathered _).comp (splits_shiftRows.comp splits_subBytes))

theorem splits_encryptBlock : SplitsByRow aes.encryptBlock :=
  (splits_addRoundKey _ _).comp (splits_shiftRows.comp (splits_subBytes.comp
    ((Splits.foldl aes.splits_encryptRound _).comp (splits_addRoundKey _ _))))

/-- Some change of input byte `p` alone changes output byte `q`. -/
def Reaches (p q : Fin 16) : Prop :=
  ∃ x y : Block, (∀ i : Fin 16, i ≠ p → x[i] = y[i]) ∧
    (aes.encryptBlock x)[q] ≠ (aes.encryptBlock y)[q]

/-- Every output byte depends on every input byte. -/
def Diffuses : Prop := ∀ p q, aes.Reaches p q

theorem not_reaches {p q : Fin 16} (h : p.val % 4 ≠ q.val % 4) : ¬ aes.Reaches p q := by
  rintro ⟨x, y, same, differ⟩
  have view : gather x ⟨q.val % 4, by omega⟩ = gather y ⟨q.val % 4, by omega⟩ := by
    apply Vector.ext
    intro i hi
    simp only [getElem_gather]
    exact same ⟨i * 4 + q.val % 4, by omega⟩ fun e => h (by rw [← e]; simp)
  have out := congrArg (fun w : Word => w[q.val / 4]) (aes.splits_encryptBlock _ x y view)
  simp only [getElem_gather, Nat.div_add_mod'] at out
  exact differ out

end AES256

/-- Under no key does the cipher diffuse: it splits into four ciphers on the groups of byte positions
that agree modulo four, and across these groups no output byte depends on an input byte. -/
theorem cipher_never_diffuses (key : Key) :
    ¬ (AES256.new key).Diffuses ∧ SplitsByRow (AES256.new key).encryptBlock ∧
      ∀ p q : Fin 16, p.val % 4 ≠ q.val % 4 → ¬ (AES256.new key).Reaches p q :=
  ⟨fun all => AES256.not_reaches _ (p := 0) (q := 1) (by decide) (all 0 1),
    AES256.splits_encryptBlock _, fun _ _ => AES256.not_reaches _⟩

/-- Under the zero key, output byte 1 does not depend on input byte 0. -/
theorem zero_key_does_not_diffuse :
    ¬ ∀ (key : Key) (p q : Fin 16), (AES256.new key).Reaches p q := fun all =>
  AES256.not_reaches (AES256.new (Vector.replicate 32 0)) (p := 0) (q := 1) (by decide)
    (all (Vector.replicate 32 0) 0 1)

end Araba
