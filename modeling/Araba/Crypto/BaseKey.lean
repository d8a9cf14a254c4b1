import Araba.Crypto.PairKey
import Mathlib.Data.List.TakeWhile

/-!
# The base key

`derive_key` of `crypto.cpp`. The passphrase is a C string: its bytes are read up to the first NUL, and
repeated until the key is full. Where they are none, the remainder that picks a byte is one by zero.
-/

namespace Araba

open Bytes

/-! ## The code -/

/-- What has no defined outcome. -/
inductive KeyFault
  | outside
  | divisionByZero
  deriving DecidableEq

/-- `c_str()`: the bytes of a string with a NUL behind them. -/
def cStr (s : Str) : List UInt8 := s ++ [0]

/-- `std::strlen`, which has to find a NUL inside the string. -/
def strlen : List UInt8 → Except KeyFault ℕ
  | [] => .error .outside
  | c :: s => if c = 0 then .ok 0 else (strlen s).map (· + 1)

/-- `i % len`. -/
def remainder (i len : ℕ) : Except KeyFault ℕ :=
  if len = 0 then .error .divisionByZero else .ok (i % len)

/-- `s[i]`. -/
def readAt (s : List UInt8) (i : ℕ) : Except KeyFault UInt8 :=
  match s[i]? with
  | none => .error .outside
  | some c => .ok c

/-- What the loop writes to `key[i]`. -/
def keyByte (passphrase : List UInt8) (len i : ℕ) : Except KeyFault UInt8 := do
  let j ← remainder i len
  let c ← readAt passphrase j
  return (c * 31 + UInt8.ofNat i) ^^^ 0x5a

/-- `derive_key`. -/
def deriveKey (passphrase : List UInt8) : Except KeyFault Key := do
  let len ← strlen passphrase
  (List.range 32).foldlM (fun key i => do
    let b ← keyByte passphrase len i
    return key.setIfInBounds i b) (Vector.replicate 32 0)

/-! ## What it computes -/

/-- The bytes of a string in front of its first NUL. -/
def beforeNul (s : Str) : Str := s.takeWhile (· ≠ 0)

/-- A string, repeated to the length of a key. -/
def repeated (s : Str) : Key := Vector.ofFn fun i => s[i.val % s.length]?.getD 0

/-- The map that each byte of the key has gone through. -/
def mixed (k : Key) : Key := Vector.ofFn fun i => (k.get i * 31 + UInt8.ofNat i.val) ^^^ 0x5a

theorem getElem_mixed (k : Key) {i : ℕ} (hi : i < 32) :
    (mixed k)[i] = (k[i] * 31 + UInt8.ofNat i) ^^^ 0x5a := by
  rw [mixed, Vector.getElem_ofFn]
  rfl

theorem strlen_cStr (s : Str) : strlen (cStr s) = .ok (beforeNul s).length := by
  induction s with
  | nil => rfl
  | cons c s ih =>
    rw [cStr] at ih
    rw [cStr, List.cons_append, strlen, ih]
    by_cases nul : c = 0
    · simp [nul, beforeNul]
    · simp [nul, beforeNul, Except.map]

theorem readAt_cStr {s : Str} {j : ℕ} (hj : j < (beforeNul s).length) :
    readAt (cStr s) j = .ok ((beforeNul s)[j]?.getD 0) := by
  obtain ⟨rest, whole⟩ : beforeNul s <+: s := List.takeWhile_prefix _
  have read : (cStr s)[j]? = (beforeNul s)[j]? := by
    conv_lhs => rw [cStr, ← whole, List.append_assoc, List.getElem?_append_left hj]
  rw [readAt, read, List.getElem?_eq_getElem hj, Option.getD_some]

theorem keyByte_cStr {s : Str} (some' : beforeNul s ≠ []) {i : ℕ} (hi : i < 32) :
    keyByte (cStr s) (beforeNul s).length i = .ok (mixed (repeated (beforeNul s)))[i] := by
  have pos : 0 < (beforeNul s).length := List.length_pos_of_ne_nil some'
  rw [keyByte, remainder, if_neg (by omega)]
  show (readAt (cStr s) (i % (beforeNul s).length) >>= _) = _
  rw [readAt_cStr (Nat.mod_lt i pos), getElem_mixed]
  simp [repeated, bind, Except.bind, pure, Except.pure]

theorem foldlM_setIfInBounds {ε : Type} {f : ℕ → Except ε UInt8} {k : Key}
    (each : ∀ i (hi : i < 32), f i = .ok k[i]) (n : ℕ) (hn : n ≤ 32) (k' : Key) :
    (List.range n).foldlM (fun key i => do
      let b ← f i
      return key.setIfInBounds i b) k' =
        .ok (Vector.ofFn fun i => if i.val < n then k[i] else k'[i]) := by
  induction n with
  | zero =>
    refine congrArg Except.ok (Vector.ext fun i hi => ?_)
    simp
  | succ n ih =>
    rw [List.range_succ, List.foldlM_append, ih (by omega)]
    simp only [bind, Except.bind, List.foldlM_cons, List.foldlM_nil, each n (by omega), pure,
      Except.pure, Except.ok.injEq]
    apply Vector.ext
    intro i hi
    simp only [Vector.getElem_setIfInBounds, Vector.getElem_ofFn, Fin.getElem_fin]
    split_ifs with here below below' <;> first | omega | rfl | (subst here; rfl)

theorem deriveKey_cStr {s : Str} (some' : beforeNul s ≠ []) :
    deriveKey (cStr s) = .ok (mixed (repeated (beforeNul s))) := by
  have loop := foldlM_setIfInBounds (fun i hi => keyByte_cStr some' hi) 32 le_rfl
    (Vector.replicate 32 0)
  rw [deriveKey, strlen_cStr]
  refine Eq.trans loop (congrArg Except.ok (Vector.ext fun i hi => ?_))
  simp

theorem deriveKey_cStr_of_empty {s : Str} (empty : beforeNul s = []) :
    deriveKey (cStr s) = .error .divisionByZero := by
  rw [deriveKey, strlen_cStr, empty]
  rfl

/-! ## Different passphrases -/

/-- A passphrase that fits into the key and is used whole. -/
def IsPassphrase (s : Str) : Prop := s ≠ [] ∧ 0 ∉ s ∧ s.length ≤ 32

instance (s : Str) : Decidable (IsPassphrase s) := inferInstanceAs (Decidable (_ ∧ _ ∧ _))

/-- The passphrases give different base keys, and different keys for every pair of MACs. -/
def Separate (p q : Str) : Prop :=
  ∃ k k', deriveKey (cStr p) = .ok k ∧ deriveKey (cStr q) = .ok k' ∧ k ≠ k' ∧
    ∀ macA macB, derivePairKey macA macB k ≠ derivePairKey macA macB k'

theorem IsPassphrase.beforeNul {s : Str} (h : IsPassphrase s) : beforeNul s = s := by
  refine List.takeWhile_eq_self_iff.2 fun c hc => ?_
  rw [decide_eq_true_eq]
  rintro rfl
  exact h.2.1 hc

theorem IsPassphrase.deriveKey {s : Str} (h : IsPassphrase s) :
    deriveKey (cStr s) = .ok (mixed (repeated s)) := by
  have some' : Araba.beforeNul s ≠ [] := by
    rw [h.beforeNul]
    exact h.1
  rw [deriveKey_cStr some', h.beforeNul]

/-- The second line of the loop of `derive_key` is one to one on each byte. -/
theorem mixed_injective : Function.Injective mixed := by
  intro k k' same
  apply Vector.ext
  intro i hi
  have inverse (z : UInt8) : z * 31 * 223 = z := by
    rw [UInt8.mul_assoc, show (31 * 223 : UInt8) = 1 from rfl, UInt8.mul_one]
  have here := congrArg (fun key : Key => key[i]) same
  simp only [getElem_mixed] at here
  have product : k[i] * 31 = k'[i] * 31 :=
    (UInt8.add_left_inj _).1 ((UInt8.xor_left_inj 0x5a).1 here)
  rw [← inverse k[i], product, inverse]

/-- Passphrases of one length are not the same when they are repeated. -/
theorem repeated_inj {p q : Str} (short : p.length ≤ 32) (len : p.length = q.length)
    (same : repeated p = repeated q) : p = q := by
  apply List.ext_getElem len
  intro i hp hq
  have inside : i < 32 := by omega
  have here := congrArg (fun key : Key => key[i]) same
  simpa [repeated, Nat.mod_eq_of_lt hp, Nat.mod_eq_of_lt hq, hp, hq] using here

/-- Two passphrases give different keys, to the whole network and to every pair of nodes, exactly when
they are not the same when they are repeated to the length of the key. Different ones of the same
length never are. -/
theorem separate_iff {p q : Str} (hp : IsPassphrase p) (hq : IsPassphrase q) :
    (Separate p q ↔ repeated p ≠ repeated q) ∧
      (p.length = q.length → p ≠ q → Separate p q) := by
  have iff' : Separate p q ↔ repeated p ≠ repeated q := by
    constructor
    · rintro ⟨k, k', hk, hk', ne, -⟩ same
      rw [hp.deriveKey, same, ← hq.deriveKey, hk'] at hk
      exact ne (Except.ok.inj hk).symm
    · intro ne
      have keys : mixed (repeated p) ≠ mixed (repeated q) := fun same => ne (mixed_injective same)
      exact ⟨_, _, hp.deriveKey, hq.deriveKey, keys, fun macA macB same =>
        keys (derivePairKey_injective macA macB same)⟩
  exact ⟨iff', fun len ne => iff'.2 fun same => ne (repeated_inj hp.2.2 len same)⟩

/-- Two passphrases of a length. -/
theorem separate_iff_named :
    (Separate (text "north") (text "south") ↔
        repeated (text "north") ≠ repeated (text "south")) ∧
      ((text "north").length = (text "south").length → text "north" ≠ text "south" →
        Separate (text "north") (text "south")) :=
  separate_iff (by decide) (by decide)

/-- A passphrase and the same one twice. -/
theorem twice_not_separate :
    ¬ ∀ p q : Str, IsPassphrase p → IsPassphrase q → p ≠ q → Separate p q := by
  intro all
  obtain ⟨k, k', hk, hk', ne, -⟩ :=
    all (text "mesh") (text "meshmesh") (by decide) (by decide) (by decide)
  have same : repeated (text "mesh") = repeated (text "meshmesh") := by decide
  rw [IsPassphrase.deriveKey (by decide), same, ← IsPassphrase.deriveKey (by decide), hk'] at hk
  exact ne (Except.ok.inj hk).symm

end Araba
