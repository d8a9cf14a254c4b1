import Mathlib.Tactic.Common

/-!
# Block ciphers

Facts about ciphers over an arbitrary type of blocks: rounds that undo one another, ciphers that
split into independent ciphers on parts of the block, and the CBC mode.
-/

namespace BlockCipher

variable {B ι : Type*}

/-! ## Rounds -/

/-- Undoing each round, the last one first, undoes them all. Between the rounds `f` and their
inverses `g` the block may be seen through a map `u`. -/
theorem foldl_reverse_foldl {C : Type*} {f : B → ι → B} {g : C → ι → C} {u : B → C}
    (h : ∀ b r, g (u (f b r)) r = u b) (rs : List ι) (b : B) :
    rs.reverse.foldl g (u (rs.foldl f b)) = u b := by
  induction rs generalizing b with
  | nil => rfl
  | cons r rs ih =>
    calc (r :: rs).reverse.foldl g (u ((r :: rs).foldl f b))
        = g (rs.reverse.foldl g (u (rs.foldl f (f b r)))) r := by
          rw [List.reverse_cons, List.foldl_append, List.foldl_cons, List.foldl_cons, List.foldl_nil]
      _ = u b := by rw [ih, h]

/-! ## Ciphers that split -/

section Splits

variable {C : ι → Type*} (view : ∀ i, B → C i)

/-- Each part `view i` of the result depends on the same part of the argument only. -/
def Splits (f : B → B) : Prop :=
  ∀ i x y, view i x = view i y → view i (f x) = view i (f y)

variable {view}

theorem Splits.comp {f g : B → B} (hf : Splits view f) (hg : Splits view g) :
    Splits view fun b => f (g b) :=
  fun i x y h => hf i _ _ (hg i x y h)

theorem Splits.foldl {κ : Type*} {f : B → κ → B} (hf : ∀ r, Splits view fun b => f b r)
    (rs : List κ) : Splits view fun b => rs.foldl f b := by
  induction rs with
  | nil => exact fun _ _ _ h => h
  | cons r rs ih => exact ih.comp (hf r)

end Splits

/-! ## CBC -/

section Cbc

variable (enc dec : B → B) (xor : B → B → B)

/-- CBC encryption: a block is combined with the ciphertext in front of it. -/
def cbcEncrypt : B → List B → List B
  | _, [] => []
  | prev, b :: bs => enc (xor b prev) :: cbcEncrypt (enc (xor b prev)) bs

/-- CBC decryption: what is decrypted is combined with the ciphertext in front of it. -/
def cbcDecrypt : B → List B → List B
  | _, [] => []
  | prev, c :: cs => xor (dec c) prev :: cbcDecrypt c cs

variable {enc dec xor}

@[simp] theorem length_cbcEncrypt (iv : B) (bs : List B) :
    (cbcEncrypt enc xor iv bs).length = bs.length := by
  induction bs generalizing iv with
  | nil => rfl
  | cons b bs ih => simp [cbcEncrypt, ih]

@[simp] theorem length_cbcDecrypt (iv : B) (cs : List B) :
    (cbcDecrypt dec xor iv cs).length = cs.length := by
  induction cs generalizing iv with
  | nil => rfl
  | cons c cs ih => simp [cbcDecrypt, ih]

theorem cbcDecrypt_cbcEncrypt (hd : ∀ b, dec (enc b) = b) (hx : ∀ a b, xor (xor a b) b = a) (iv : B)
    (bs : List B) : cbcDecrypt dec xor iv (cbcEncrypt enc xor iv bs) = bs := by
  induction bs generalizing iv with
  | nil => rfl
  | cons b bs ih => rw [cbcEncrypt, cbcDecrypt, hd, hx, ih]

theorem cbcEncrypt_cbcDecrypt (he : ∀ b, enc (dec b) = b) (hx : ∀ a b, xor (xor a b) b = a) (iv : B)
    (cs : List B) : cbcEncrypt enc xor iv (cbcDecrypt dec xor iv cs) = cs := by
  induction cs generalizing iv with
  | nil => rfl
  | cons c cs ih => rw [cbcDecrypt, cbcEncrypt, hx, he, ih]

/-- A block of the plaintext is made from two blocks of what was sent. -/
theorem getElem?_cbcDecrypt (iv : B) (cs : List B) (i : ℕ) :
    (cbcDecrypt dec xor iv cs)[i]? =
      cs[i]?.bind fun c => (iv :: cs)[i]?.map fun prev => xor (dec c) prev := by
  induction cs generalizing iv i with
  | nil => rfl
  | cons c cs ih =>
    cases i with
    | zero => rfl
    | succ i => simpa [cbcDecrypt] using ih c i

/-- When one block of what was sent is altered, the vector counted as the first, two blocks of the
plaintext are. -/
theorem getElem?_cbcDecrypt_modify_of_ne {iv iv' : B} {cs cs' : List B} {j : ℕ} {f : B → B}
    (altered : iv' :: cs' = (iv :: cs).modify j f) {i : ℕ} (here : i ≠ j) (next : i + 1 ≠ j) :
    (cbcDecrypt dec xor iv' cs')[i]? = (cbcDecrypt dec xor iv cs)[i]? := by
  have block (k : ℕ) (other : k ≠ j) : (iv' :: cs')[k]? = (iv :: cs)[k]? := by
    rw [altered, List.getElem?_modify]
    simp [Ne.symm other]
  have ahead : cs'[i]? = cs[i]? := block (i + 1) next
  rw [getElem?_cbcDecrypt, getElem?_cbcDecrypt, block i here, ahead]

/-- And what is combined with that block is combined with its block of the plaintext. -/
theorem getElem?_cbcDecrypt_modify_self (hx : ∀ a b c, xor a (xor b c) = xor (xor a b) c) {iv iv' : B}
    {cs cs' : List B} {j : ℕ} (d : B) (altered : iv' :: cs' = (iv :: cs).modify j fun c => xor c d) :
    (cbcDecrypt dec xor iv' cs')[j]? = (cbcDecrypt dec xor iv cs)[j]?.map fun b => xor b d := by
  have front : (iv' :: cs')[j]? = (iv :: cs)[j]?.map fun c => xor c d := by
    rw [altered, List.getElem?_modify]
    simp
  have ahead : cs'[j]? = cs[j]? := by
    have block : (iv' :: cs')[j + 1]? = (iv :: cs)[j + 1]? := by
      rw [altered, List.getElem?_modify]
      simp
    exact block
  rw [getElem?_cbcDecrypt, getElem?_cbcDecrypt, front, ahead]
  cases cs[j]? with
  | none => rfl
  | some c => simp [Option.map_map, Function.comp_def, hx]

end Cbc

end BlockCipher
