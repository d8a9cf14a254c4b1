import Araba.Lib.Istream

/-!
# Numbers in strings

`std::stoul` in base 10 and in the "C" locale, for an `unsigned long` of 64 bits. White space, a sign
and digits are read, and what follows is not looked at. It throws when there is no digit, and when
the digits write a number that does not fit; a number behind a minus is taken modulo `2 ^ 64`.
-/

namespace Stoul

open Istream

/-- The exceptions that `stoul` throws. -/
inductive StoulError
  | invalidArgument
  | outOfRange
  deriving DecidableEq

/-- Whether the byte is a decimal digit. -/
def isDigit (c : UInt8) : Bool := 0x30 ≤ c && c ≤ 0x39

/-- The value of a run of digits. -/
def digitsValue (ds : List UInt8) : ℕ := ds.foldl (fun v c => 10 * v + (c.toNat - 0x30)) 0

/-- Whether there is a minus, and the value of the digits behind it. -/
def leadingNumber (s : List UInt8) : Option (Bool × ℕ) :=
  let (neg, s) := readSign (skipWs s)
  let ds := s.takeWhile isDigit
  if ds = [] then none else some (neg, digitsValue ds)

/-- `std::stoul`: a minus negates modulo `2 ^ 64`. -/
def stoul (s : List UInt8) : Except StoulError UInt64 :=
  match leadingNumber s with
  | none => .error .invalidArgument
  | some (neg, n) =>
    if 2 ^ 64 ≤ n then .error .outOfRange
    else .ok (if neg then 0 - UInt64.ofNat n else UInt64.ofNat n)

/-- The number that stands at the front of a string. -/
def written (s : List UInt8) : Option ℤ :=
  (leadingNumber s).map fun r => if r.1 then -(r.2 : ℤ) else r.2

/-- A number that fits is returned as it is written. -/
theorem stoul_of_written {s : List UInt8} {z : ℤ} (num : written s = some z) (pos : 0 ≤ z)
    (fits : z < 2 ^ 64) : ∃ x, stoul s = .ok x ∧ (x.toNat : ℤ) = z := by
  obtain ⟨⟨neg, n⟩, lead, value⟩ := Option.map_eq_some_iff.1 num
  cases neg with
  | false =>
    replace value : (n : ℤ) = z := value
    have small : n < 2 ^ 64 := by omega
    refine ⟨UInt64.ofNat n, ?_, ?_⟩
    · simp only [stoul, lead, if_neg (not_le.2 small), Bool.false_eq_true, if_false]
    · rw [UInt64.toNat_ofNat', Nat.mod_eq_of_lt small, value]
  | true =>
    replace value : -(n : ℤ) = z := value
    obtain rfl : n = 0 := by omega
    refine ⟨0, ?_, ?_⟩
    · simp [stoul, lead]
    · rw [← value]
      rfl

end Stoul
