import Mathlib.Tactic.Ring
import Mathlib.Data.List.Basic

/-!
# Byte buffers

Arrays of a fixed size with the copies that C code makes into them (`memcpy`), the ranges it
reads back (`slice`), writes into a buffer that a caller provides (`overwrite`), and
little-endian words (`leBytes`, `leNat`).
-/

namespace Bytes

/-- The bytes of a string literal. -/
def text (s : String) : List UInt8 := s.toUTF8.data.toList

section Arrays

variable {α : Type*} {n : ℕ}

/-- The array after `src` has been copied to offset `off`; what would lie past its end is cut. -/
def memcpy (dst : Vector α n) (off : ℕ) (src : List α) : Vector α n :=
  ⟨((dst.toList.take off ++ src ++ dst.toList.drop (off + src.length)).take n).toArray, by
    simp only [List.size_toArray, List.length_take, List.length_append, List.length_drop,
      Vector.length_toList]
    omega⟩

/-- The `len` elements of an array from offset `off`. -/
def slice (v : Vector α n) (off len : ℕ) : List α := (v.toList.drop off).take len

theorem toList_memcpy (dst : Vector α n) (off : ℕ) (src : List α) :
    (memcpy dst off src).toList =
      (dst.toList.take off ++ src ++ dst.toList.drop (off + src.length)).take n := by
  simp [memcpy]

@[simp] theorem length_slice (v : Vector α n) (off len : ℕ) :
    (slice v off len).length = min len (n - off) := by
  simp [slice]

theorem slice_eq_drop (v : Vector α n) (off len : ℕ) :
    slice v off len = (slice v 0 (off + len)).drop off := by
  simp only [slice, List.drop_zero, List.drop_take, Nat.add_sub_cancel_left]

theorem getElem_memcpy (dst : Vector α n) (off : ℕ) (src : List α) (i : ℕ) (hi : i < n) :
    (memcpy dst off src)[i] =
      if h : off ≤ i ∧ i - off < src.length then src.get ⟨i - off, h.2⟩ else dst[i] := by
  have bound : i < (memcpy dst off src).toList.length := by simpa using hi
  have e : (memcpy dst off src)[i] = (memcpy dst off src).toList[i] := by simp
  rw [e]
  simp only [toList_memcpy, List.getElem_take, List.getElem_append, List.length_take,
    List.length_append, Vector.length_toList, List.getElem_drop, Vector.getElem_toList,
    List.get_eq_getElem]
  split_ifs with h1 h2 h3 h3 h3
  all_goals first | rfl | omega | skip
  · congr 1; omega
  · congr 1; omega

/-- What has just been copied is read back. -/
theorem slice_memcpy_self (dst : Vector α n) (off : ℕ) (src : List α) (h : off + src.length ≤ n) :
    slice (memcpy dst off src) off src.length = src := by
  apply List.ext_getElem
  · simp only [length_slice]; omega
  · intro i h1 h2
    simp only [slice, List.getElem_take, List.getElem_drop, Vector.getElem_toList, getElem_memcpy,
      List.get_eq_getElem]
    rw [dif_pos (by omega)]
    congr 1; omega

end Arrays

section Overwrite

variable {α : Type*}

/-- The buffer after `src` has been written at offset `off`. A write past the end of the buffer
shows as a longer list. -/
def overwrite (dst : List α) (off : ℕ) (src : List α) : List α :=
  dst.take off ++ src ++ dst.drop (off + src.length)

/-- Writes that continue one another at the front of a buffer. -/
theorem overwrite_append (front src rest : List α) :
    overwrite (front ++ rest) front.length src = (front ++ src) ++ rest.drop src.length := by
  simp [overwrite, List.drop_append]

/-- The bytes of a file after `src` has been written at offset `off`: where the file ends before
`off`, zeros fill the hole. -/
def writeAt (file : List UInt8) (off : ℕ) (src : List UInt8) : List UInt8 :=
  overwrite (file ++ List.replicate (off - file.length) 0) off src

theorem writeAt_of_le {file : List UInt8} {off : ℕ} (src : List UInt8) (h : off ≤ file.length) :
    writeAt file off src = overwrite file off src := by
  rw [writeAt, Nat.sub_eq_zero_of_le h, List.replicate_zero, List.append_nil]

theorem length_writeAt (file : List UInt8) (off : ℕ) (src : List UInt8) :
    (writeAt file off src).length = max file.length (off + src.length) := by
  simp only [writeAt, overwrite, List.length_append, List.length_take, List.length_drop,
    List.length_replicate]
  omega

end Overwrite

section Fields

variable {α : Type*}

/-- A field of `l` bytes at offset `o` of a record. -/
theorem take_drop_append (a b c : List α) {o l : ℕ} (ho : a.length = o) (hl : b.length = l) :
    ((a ++ (b ++ c)).drop o).take l = b := by
  subst ho hl
  simp

/-- A field that is an array of bytes at offset `o` of a record. -/
theorem ofFn_getElem?_append {n : ℕ} (a c : List α) (v : Vector α n) (d : α) {o : ℕ}
    (ho : a.length = o) :
    (Vector.ofFn fun i : Fin n => (a ++ (v.toList ++ c))[o + i.val]?.getD d) = v := by
  subst ho
  apply Vector.ext
  intro i hi
  rw [Vector.getElem_ofFn, List.getElem?_append_right (by omega), Nat.add_sub_cancel_left,
    List.getElem?_append_left (by simpa using hi)]
  simp [hi]

/-- An array of bytes read at offset `o` of a record. -/
theorem toList_ofFn_getElem? (b : List α) (d : α) {n o : ℕ} (h : o + n ≤ b.length) :
    (Vector.ofFn fun i : Fin n => b[o + i.val]?.getD d).toList = (b.drop o).take n := by
  apply List.ext_getElem
  · simp only [Vector.length_toList, List.length_take, List.length_drop]
    omega
  · intro i h1 h2
    have h1 : i < n := by simpa using h1
    rw [Vector.getElem_toList, Vector.getElem_ofFn, List.getElem_take, List.getElem_drop,
      List.getElem?_eq_getElem (by omega), Option.getD_some]

/-- Two ranges of a list agree iff their entries do. -/
theorem take_drop_eq_iff (b : List α) (m k n : ℕ) :
    (b.drop m).take n = (b.drop k).take n ↔ ∀ i < n, b[m + i]? = b[k + i]? := by
  constructor
  · intro h i hi
    have e := congrArg (fun l => l[i]?) h
    simpa only [List.getElem?_take, List.getElem?_drop, hi, if_true] using e
  · intro h
    apply List.ext_getElem?
    intro i
    simp only [List.getElem?_take, List.getElem?_drop]
    split_ifs with hi
    · exact h i hi
    · rfl

/-- Records of one size that stand one behind the other. -/
theorem length_flatMap_of_length {β : Type*} {f : β → List α} {n : ℕ} (size : ∀ x, (f x).length = n)
    (xs : List β) : (xs.flatMap f).length = n * xs.length := by
  induction xs with
  | nil => rfl
  | cons x xs ih =>
    rw [List.flatMap_cons, List.length_append, ih, size, List.length_cons, Nat.mul_succ, Nat.add_comm]

theorem drop_flatMap_of_length {β : Type*} {f : β → List α} {n : ℕ} (size : ∀ x, (f x).length = n)
    (xs : List β) (i : ℕ) : (xs.flatMap f).drop (n * i) = (xs.drop i).flatMap f := by
  induction i generalizing xs with
  | zero => simp
  | succ i ih =>
    cases xs with
    | nil => simp
    | cons x xs =>
      rw [List.flatMap_cons, List.drop_succ_cons, ← ih, Nat.mul_succ, Nat.add_comm,
        ← List.drop_drop, List.drop_left' (size x)]

end Fields

/-! ## Little-endian words -/

/-- The `w` low bytes of a number, least significant first. -/
def leBytes : ℕ → ℕ → List UInt8
  | 0, _ => []
  | w + 1, x => UInt8.ofNat x :: leBytes w (x / 256)

/-- The number whose bytes, least significant first, are given. -/
def leNat : List UInt8 → ℕ
  | [] => 0
  | b :: bs => b.toNat + 256 * leNat bs

@[simp] theorem length_leBytes (w x : ℕ) : (leBytes w x).length = w := by
  induction w generalizing x with
  | zero => rfl
  | succ w ih => simp [leBytes, ih]

theorem leNat_lt (bs : List UInt8) : leNat bs < 256 ^ bs.length := by
  induction bs with
  | nil => simp [leNat]
  | cons b bs ih =>
    have hb : b.toNat < 256 := b.toNat_lt
    simp only [leNat, List.length_cons, pow_succ]
    omega

/-- `w` bytes, or what there is of them, make a number of `w` bytes. -/
theorem leNat_take_lt (w : ℕ) (bs : List UInt8) : leNat (bs.take w) < 256 ^ w :=
  lt_of_lt_of_le (leNat_lt _) (Nat.pow_le_pow_right (by decide) (List.length_take_le w bs))

theorem leNat_leBytes (w x : ℕ) : leNat (leBytes w x) = x % 256 ^ w := by
  induction w generalizing x with
  | zero => simp [leBytes, leNat, Nat.mod_one]
  | succ w ih =>
    rw [leBytes, leNat, ih, pow_succ, mul_comm (256 ^ w) 256, Nat.mod_mul]
    simp

theorem leNat_leBytes_of_lt {w x : ℕ} (h : x < 256 ^ w) : leNat (leBytes w x) = x := by
  rw [leNat_leBytes, Nat.mod_eq_of_lt h]

/-- The bytes are the digits of the number. -/
theorem digit_leNat (bs : List UInt8) {i : ℕ} (hi : i < bs.length) :
    UInt8.ofNat (leNat bs / 256 ^ i) = bs[i] := by
  induction bs generalizing i with
  | nil => exact absurd hi (Nat.not_lt_zero i)
  | cons b bs ih =>
    have hb : b.toNat < 256 := b.toNat_lt
    cases i with
    | zero =>
      apply UInt8.toNat_inj.1
      rw [UInt8.toNat_ofNat', leNat, List.getElem_cons_zero]
      omega
    | succ i =>
      have rest : leNat (b :: bs) / 256 = leNat bs := by
        simp only [leNat]
        omega
      rw [pow_succ', ← Nat.div_div_eq_div_mul, rest, List.getElem_cons_succ]
      exact ih (Nat.lt_of_succ_lt_succ hi)

theorem leBytes_leNat {w : ℕ} {bs : List UInt8} (h : bs.length = w) :
    leBytes w (leNat bs) = bs := by
  subst h
  induction bs with
  | nil => rfl
  | cons b bs ih =>
    have hb : b.toNat < 256 := b.toNat_lt
    have hq : leNat (b :: bs) / 256 = leNat bs := by
      simp only [leNat]; omega
    have hr : UInt8.ofNat (leNat (b :: bs)) = b := by
      apply UInt8.toNat_inj.1
      rw [UInt8.toNat_ofNat', leNat]
      omega
    rw [List.length_cons, leBytes, hq, ih, hr]

end Bytes
