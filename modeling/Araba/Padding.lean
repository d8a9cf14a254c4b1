import Araba.Payload

/-!
# What passes for padding

`unpad_data` looks at the last byte only, and takes it for the number of bytes to take off. The bytes
in front of it may be anything, though `pad_data` fills all of them with their number.
-/

namespace Araba

/-! ## What padding looks like -/

/-- The byte that `unpad_data` takes for the number of bytes to take off. -/
def padByte (b : List UInt8) : UInt8 := b[b.length - 1]?.getD 0

/-- The last byte says that 1 to 16 bytes are padding, and not all of them. -/
def LooksPadded (b : List UInt8) : Prop :=
  padByte b ≠ 0 ∧ (padByte b).toNat ≤ aesBlockSize ∧ (padByte b).toNat < b.length

instance (b : List UInt8) : Decidable (LooksPadded b) := by
  unfold LooksPadded
  infer_instance

theorem unpadData_ne_nil_iff {b : List UInt8} (whole : b.length % aesBlockSize = 0) {maxOut : ℕ}
    (room : 0 < maxOut) : unpadData b maxOut ≠ [] ↔ LooksPadded b := by
  have pad : b[b.length - 1]?.getD 0 = padByte b := rfl
  unfold LooksPadded
  by_cases empty : b.length = 0
  · rw [unpadData, if_pos (.inl empty)]
    exact iff_of_false (not_not.2 rfl) fun h => by omega
  · simp only [unpadData, pad, if_neg (not_or.2 ⟨empty, not_not.2 whole⟩)]
    by_cases bad : (padByte b).toNat > aesBlockSize ∨ padByte b = 0
    · rw [if_pos bad]
      refine iff_of_false (not_not.2 rfl) fun h => ?_
      exact bad.elim (fun large => absurd h.2.1 (not_le.2 large)) h.1
    · rw [if_neg bad]
      obtain ⟨small, nonzero⟩ := not_or.1 bad
      rw [and_iff_right nonzero, and_iff_right (not_lt.1 small), Ne, List.take_eq_nil_iff, not_or]
      have some' : b ≠ [] := by
        rintro rfl
        exact empty rfl
      rw [and_iff_left some']
      split_ifs <;> omega

theorem unpadData_of_looksPadded {b : List UInt8} (whole : b.length % aesBlockSize = 0)
    (looks : LooksPadded b) {maxOut : ℕ} (room : b.length ≤ maxOut) :
    unpadData b maxOut = b.take (b.length - (padByte b).toNat) := by
  have pad : b[b.length - 1]?.getD 0 = padByte b := rfl
  obtain ⟨nonzero, small, some'⟩ := looks
  have length : ¬ (b.length = 0 ∨ b.length % aesBlockSize ≠ 0) :=
    not_or.2 ⟨by omega, not_not.2 whole⟩
  have byte : ¬ ((padByte b).toNat > aesBlockSize ∨ padByte b = 0) :=
    not_or.2 ⟨not_lt.2 small, nonzero⟩
  simp only [unpadData, pad, if_neg length, if_neg byte]
  rw [if_neg (by omega)]

/-! ## Padding again -/

/-- Of a message that was cut off behind whole blocks, `pad_data` fills up what is missing. -/
theorem padData_take {b : List UInt8} (whole : b.length % aesBlockSize = 0) {k : ℕ} (pos : 0 < k)
    (small : k ≤ aesBlockSize) (some' : k < b.length) :
    padData (b.take (b.length - k)) b.length =
      .ok (b.take (b.length - k) ++ List.replicate k (UInt8.ofNat k)) := by
  have len : (b.take (b.length - k)).length = b.length - k := by
    rw [List.length_take]
    omega
  have up : (b.length - k + aesBlockSize) / aesBlockSize * aesBlockSize = b.length := by
    simp only [aesBlockSize] at *
    omega
  have rest : b.length - (b.length - k) = k := by omega
  have room : ¬ b.length - k > b.length := by omega
  simp only [padData, len, up, lt_irrefl, gt_iff_lt, if_false, rest]
  rw [if_neg room]

/-- If anything is left of a buffer, it is what `pad_data` makes of that again. -/
def Strict (b : List UInt8) (maxOut : ℕ) : Prop :=
  (unpadData b maxOut).length ≠ 0 →
    unpadData b maxOut = b.take (unpadData b maxOut).length ∧
      padData (b.take (unpadData b maxOut).length) b.length = .ok b

/-- Every byte that is taken off says how many there are. -/
def PaddedThroughout (b : List UInt8) : Prop :=
  b.drop (b.length - (padByte b).toNat) = List.replicate (padByte b).toNat (padByte b)

theorem strict_of_not_looksPadded {b : List UInt8} {maxOut : ℕ}
    (bad : b.length % aesBlockSize ≠ 0 ∨ ¬ LooksPadded b) (room : b.length ≤ maxOut) :
    Strict b maxOut := by
  have nothing : unpadData b maxOut = [] := by
    by_cases whole : b.length % aesBlockSize = 0
    · have looks := bad.resolve_left (not_not.2 whole)
      by_cases empty : b.length = 0
      · rw [unpadData, if_pos (.inl empty)]
      · by_contra some'
        exact looks ((unpadData_ne_nil_iff whole (by omega)).1 some')
    · rw [unpadData, if_pos (.inr whole)]
  intro some'
  exact absurd (congrArg List.length nothing) some'

theorem strict_of_looksPadded {b : List UInt8} {maxOut : ℕ} (whole : b.length % aesBlockSize = 0)
    (looks : LooksPadded b) (room : b.length ≤ maxOut) :
    Strict b maxOut ↔ PaddedThroughout b := by
  have left := unpadData_of_looksPadded whole looks room
  obtain ⟨nonzero, small, some'⟩ := looks
  have pos : 0 < (padByte b).toNat := by
    rw [Nat.pos_iff_ne_zero]
    exact fun zero => nonzero (UInt8.toNat_inj.1 zero)
  have len : (unpadData b maxOut).length = b.length - (padByte b).toNat := by
    rw [left, List.length_take]
    omega
  have again := padData_take whole pos small some'
  rw [UInt8.ofNat_toNat] at again
  have split := List.take_append_drop (b.length - (padByte b).toNat) b
  rw [Strict, len, left, again, PaddedThroughout]
  constructor
  · intro strict
    have same := Except.ok.inj (strict (by omega)).2
    exact List.append_cancel_left (split.trans same.symm)
  · intro all _
    rw [← all, split]
    exact ⟨rfl, rfl⟩

/-- A buffer that is accepted without being the result of `pad_data` has whole blocks, a last byte
that says how many bytes to take off, and another byte among those. -/
theorem strict_iff (b : List UInt8) {maxOut : ℕ} (room : b.length ≤ maxOut) :
    Strict b maxOut ↔ b.length % aesBlockSize ≠ 0 ∨ ¬ LooksPadded b ∨ PaddedThroughout b := by
  by_cases accepted : b.length % aesBlockSize = 0 ∧ LooksPadded b
  · obtain ⟨whole, looks⟩ := accepted
    rw [strict_of_looksPadded whole looks room, or_iff_right (not_not.2 whole),
      or_iff_right (not_not.2 looks)]
  · have bad : b.length % aesBlockSize ≠ 0 ∨ ¬ LooksPadded b := not_and_or.1 accepted
    exact iff_of_true (strict_of_not_looksPadded bad room) (bad.imp_right .inl)

/-- Fourteen bytes of a message, and a padding of two bytes of which the first is wrong. -/
def wronglyPadded : List UInt8 := List.replicate 14 0x61 ++ [0, 2]

theorem strict_iff_wronglyPadded : Strict wronglyPadded 16 ↔
    wronglyPadded.length % aesBlockSize ≠ 0 ∨ ¬ LooksPadded wronglyPadded ∨
      PaddedThroughout wronglyPadded :=
  strict_iff wronglyPadded (by decide)

/-- It is accepted: the byte in front of the last one is not looked at. -/
theorem wronglyPadded_not_strict : unpadData wronglyPadded 16 = List.replicate 14 0x61 ∧
    ¬ Strict wronglyPadded 16 := by
  refine ⟨by decide, fun strict => ?_⟩
  obtain ⟨-, again⟩ := strict (by decide)
  exact absurd again (by decide)

end Araba
