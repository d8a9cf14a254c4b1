import Araba.Lib.Bytes
import Mathlib.Data.List.TakeWhile

/-!
# Formatted input

The extractions of a C++ `istringstream` in the "C" locale: a character, an `int` in hexadecimal,
and a word. An extraction takes the bytes that are left and returns what it read with the bytes left
after it, or nothing when it fails.
-/

namespace Istream

/-- White space in the C locale. -/
def isSpace (c : UInt8) : Bool := c == 0x20 || (0x09 ≤ c && c ≤ 0x0d)

/-- Skipped in front of every extraction. -/
def skipWs (s : List UInt8) : List UInt8 := s.dropWhile isSpace

/-- `iss >> c` for a `char`. -/
def readChar (s : List UInt8) : Option (UInt8 × List UInt8) :=
  match skipWs s with
  | [] => none
  | c :: rest => some (c, rest)

/-- The value of a hexadecimal digit. -/
def hexDigit (c : UInt8) : Option ℕ :=
  if 0x30 ≤ c ∧ c ≤ 0x39 then some (c.toNat - 0x30)
  else if 0x61 ≤ c ∧ c ≤ 0x66 then some (c.toNat - 0x61 + 10)
  else if 0x41 ≤ c ∧ c ≤ 0x46 then some (c.toNat - 0x41 + 10)
  else none

/-- Whether the byte is a hexadecimal digit. -/
def isHexDigit (c : UInt8) : Bool := (hexDigit c).isSome

/-- The value of a run of digits. -/
def hexValue (ds : List UInt8) : ℕ :=
  ds.foldl (fun v c => 16 * v + (hexDigit c).getD 0) 0

/-- An optional sign: whether it is a minus. -/
def readSign : List UInt8 → Bool × List UInt8
  | 0x2b :: s => (false, s)
  | 0x2d :: s => (true, s)
  | s => (false, s)

/-- An optional `0x`. -/
def skip0x : List UInt8 → List UInt8
  | 0x30 :: 0x78 :: s => s
  | 0x30 :: 0x58 :: s => s
  | s => s

/-- `iss >> std::hex >> n` for an `int`: a failure without a digit or outside 32 bits. -/
def readHex (s : List UInt8) : Option (ℤ × List UInt8) :=
  let (neg, s) := readSign (skipWs s)
  let s := skip0x s
  let ds := s.takeWhile isHexDigit
  let v : ℤ := if neg then -hexValue ds else hexValue ds
  if ds = [] ∨ v < -2 ^ 31 ∨ 2 ^ 31 ≤ v then none else some (v, s.dropWhile isHexDigit)

/-- A character that is no white space is read as it is. -/
theorem readChar_cons {c : UInt8} (h : isSpace c = false) (rest : List UInt8) :
    readChar (c :: rest) = some (c, rest) := by
  simp [readChar, skipWs, h]

/-- A digit is no white space, no sign and no `x`. -/
theorem isHexDigit_ne (c : UInt8) : isHexDigit c = true →
    isSpace c = false ∧ c ≠ 0x2b ∧ c ≠ 0x2d ∧ c ≠ 0x78 ∧ c ≠ 0x58 := by
  intro digit
  have range : 0x30 ≤ c.toNat ∧ c.toNat ≤ 0x39 ∨ 0x61 ≤ c.toNat ∧ c.toNat ≤ 0x66 ∨
      0x41 ≤ c.toNat ∧ c.toNat ≤ 0x46 := by
    simp only [isHexDigit, hexDigit] at digit
    split_ifs at digit with decimal small capital
    · exact .inl decimal
    · exact .inr (.inl small)
    · exact .inr (.inr capital)
    · exact absurd digit Bool.noConfusion
  refine ⟨?_, ?_, ?_, ?_, ?_⟩
  · simp only [isSpace, Bool.or_eq_false_iff, beq_eq_false_iff_ne, Bool.and_eq_false_iff,
      decide_eq_false_iff_not, UInt8.le_iff_toNat_le]
    refine ⟨?_, ?_⟩
    · rintro rfl
      revert range
      decide
    · have low : (0x0d : UInt8).toNat = 13 := rfl
      omega
  all_goals
    rintro rfl
    revert range
    decide

theorem hexDigit_lt (c : UInt8) : (hexDigit c).getD 0 < 16 := by
  have range : c.toNat < 256 := c.toNat_lt
  simp only [hexDigit, UInt8.le_iff_toNat_le, UInt8.toNat_ofNat]
  split_ifs <;> simp <;> omega

/-- Each digit of a run multiplies the values that it can have by sixteen. -/
theorem hexValue_lt (ds : List UInt8) : hexValue ds < 16 ^ ds.length := by
  have from' (v : ℕ) : ds.foldl (fun v c => 16 * v + (hexDigit c).getD 0) v <
      (v + 1) * 16 ^ ds.length := by
    induction ds generalizing v with
    | nil => simp
    | cons c ds ih =>
      have digit := hexDigit_lt c
      calc ds.foldl (fun v c => 16 * v + (hexDigit c).getD 0) (16 * v + (hexDigit c).getD 0)
          < (16 * v + (hexDigit c).getD 0 + 1) * 16 ^ ds.length := ih _
        _ ≤ (16 * (v + 1)) * 16 ^ ds.length := Nat.mul_le_mul_right _ (by omega)
        _ = (v + 1) * 16 ^ (c :: ds).length := by
          rw [List.length_cons, pow_succ, Nat.mul_comm 16, Nat.mul_assoc, Nat.mul_comm 16]
  simpa [hexValue] using from' 0

/-- A run of digits is read as one number, when neither a digit nor an `x` follows. -/
theorem readHex_digits {ds rest : List UInt8} (some' : ds ≠ [])
    (digits : ∀ c ∈ ds, isHexDigit c = true) (small : hexValue ds < 2 ^ 31)
    (stop : ∀ e ∈ rest.head?, isHexDigit e = false ∧ e ≠ 0x78 ∧ e ≠ 0x58) :
    readHex (ds ++ rest) = some ((hexValue ds : ℤ), rest) := by
  obtain ⟨c, ds, rfl⟩ := List.exists_cons_of_ne_nil some'
  obtain ⟨c1, c2, c3, -, -⟩ := isHexDigit_ne c (digits c List.mem_cons_self)
  have ws : skipWs (c :: ds ++ rest) = c :: ds ++ rest := by simp [skipWs, c1]
  have sign : readSign (c :: ds ++ rest) = (false, c :: ds ++ rest) := by
    rw [List.cons_append]
    unfold readSign
    split <;> simp_all
  have next : ∀ e ∈ (ds ++ rest).head?, e ≠ 0x78 ∧ e ≠ 0x58 := by
    intro e he
    cases ds with
    | nil => exact (stop e he).2
    | cons d ds =>
      obtain rfl : d = e := Option.some.inj he
      obtain ⟨-, -, -, d4, d5⟩ := isHexDigit_ne d (digits d (by simp))
      exact ⟨d4, d5⟩
  have pre : skip0x (c :: ds ++ rest) = c :: ds ++ rest := by
    rw [List.cons_append]
    generalize ds ++ rest = more at next
    unfold skip0x
    split <;> simp_all
  have run : (c :: ds ++ rest).takeWhile isHexDigit = c :: ds ∧
      (c :: ds ++ rest).dropWhile isHexDigit = rest := by
    have none' : rest.takeWhile isHexDigit = [] ∧ rest.dropWhile isHexDigit = rest := by
      cases rest with
      | nil => simp
      | cons e rest => simp [(stop e (by simp)).1]
    rw [List.takeWhile_append_of_pos digits, List.dropWhile_append_of_pos digits, none'.1, none'.2,
      List.append_nil]
    exact ⟨rfl, rfl⟩
  simp only [readHex, ws, sign, pre, run, Bool.false_eq_true, if_false]
  rw [if_neg]
  simp only [reduceCtorEq, false_or]
  omega

/-! ## Words -/

/-- `iss >> s` for a string: the word, which is empty when there is none, and what is left. -/
def readWord (s : List UInt8) : List UInt8 × List UInt8 :=
  ((skipWs s).takeWhile fun c => !isSpace c, (skipWs s).dropWhile fun c => !isSpace c)

/-- `getline(iss >> std::ws, s)`. -/
def readLine (s : List UInt8) : List UInt8 := (skipWs s).takeWhile (· ≠ 0x0a)

/-- White space only. -/
def Blank (s : List UInt8) : Prop := ∀ c ∈ s, isSpace c = true

/-- A text that is read as one word. -/
structure IsWord (w : List UInt8) : Prop where
  nonempty : w ≠ []
  solid : ∀ c ∈ w, isSpace c = false

/-- The text ends here, or white space follows. -/
def Ends (rest : List UInt8) : Prop := ∀ c ∈ rest.head?, isSpace c = true

/-- Where a list is cut by a predicate on its elements. -/
theorem cut_iff {α : Type*} {p : α → Bool} {l a b : List α} :
    l.takeWhile p = a ∧ l.dropWhile p = b ↔
      l = a ++ b ∧ (∀ x ∈ a, p x = true) ∧ ∀ x ∈ b.head?, p x = false := by
  constructor
  · rintro ⟨rfl, rfl⟩
    refine ⟨List.takeWhile_append_dropWhile.symm, fun x hx => List.mem_takeWhile_imp hx, ?_⟩
    intro x hx
    have stop := List.head?_dropWhile_not p l
    rw [Option.mem_def.1 hx] at stop
    simpa using stop
  · rintro ⟨rfl, all, stop⟩
    have none' : b.takeWhile p = [] ∧ b.dropWhile p = b := by
      cases b with
      | nil => simp
      | cons x b => simp [stop x (by simp)]
    rw [List.takeWhile_append_of_pos all, List.dropWhile_append_of_pos all, none'.1, none'.2,
      List.append_nil]
    exact ⟨rfl, rfl⟩

/-- What is left behind white space. -/
theorem skipWs_eq_iff {s m : List UInt8} :
    skipWs s = m ↔ (∀ c ∈ m.head?, isSpace c = false) ∧ ∃ ws, Blank ws ∧ s = ws ++ m := by
  constructor
  · intro h
    obtain ⟨split, blank, stop⟩ := cut_iff.1 ⟨rfl, h⟩
    exact ⟨stop, _, blank, split⟩
  · rintro ⟨stop, ws, blank, split⟩
    exact (cut_iff.2 ⟨split, blank, stop⟩).2

theorem readWord_eq_iff {s w rest : List UInt8} (some' : w ≠ []) :
    readWord s = (w, rest) ↔ IsWord w ∧ Ends rest ∧ ∃ ws, Blank ws ∧ s = ws ++ w ++ rest := by
  rw [readWord, Prod.mk.injEq, cut_iff, skipWs_eq_iff]
  constructor
  · rintro ⟨⟨-, ws, blank, rfl⟩, solid, stop⟩
    exact ⟨⟨some', fun c hc => by simpa using solid c hc⟩, fun c hc => by simpa using stop c hc, ws,
      blank, (List.append_assoc _ _ _).symm⟩
  · rintro ⟨word, ends, ws, blank, rfl⟩
    refine ⟨⟨?_, ws, blank, List.append_assoc _ _ _⟩, fun c hc => by simp [word.solid c hc],
      fun c hc => by simp [ends c hc]⟩
    obtain ⟨c, w, rfl⟩ := List.exists_cons_of_ne_nil some'
    intro d hd
    obtain rfl : c = d := by simpa using hd
    exact word.solid c List.mem_cons_self

theorem IsWord.head {w : List UInt8} (word : IsWord w) : ∀ c ∈ w.head?, isSpace c = false :=
  fun c hc => word.solid c (List.mem_of_mem_head? hc)

/-- A word ends where white space is left in front of the next one. -/
theorem ends_append_iff {ws m : List UInt8} (blank : Blank ws) (some' : m ≠ [])
    (solid : ∀ c ∈ m.head?, isSpace c = false) : Ends (ws ++ m) ↔ ws ≠ [] := by
  cases ws with
  | nil =>
    obtain ⟨c, m, rfl⟩ := List.exists_cons_of_ne_nil some'
    simp only [Ends, List.nil_append, List.head?_cons, Option.mem_some_iff, forall_eq', ne_eq,
      not_true, iff_false, Bool.not_eq_true]
    exact solid c (by simp)
  | cons c ws =>
    simpa [Ends] using blank c List.mem_cons_self

/-- A line without a line feed is read from its first character that is no white space. -/
theorem readLine_eq_iff {s m : List UInt8} (line : 0x0a ∉ s) :
    readLine s = m ↔ (∀ c ∈ m.head?, isSpace c = false) ∧ ∃ ws, Blank ws ∧ s = ws ++ m := by
  have whole : readLine s = skipWs s := by
    refine List.takeWhile_eq_self_iff.2 fun c hc => ?_
    have mem := (List.dropWhile_sublist _).mem hc
    simp only [ne_eq, decide_not, Bool.not_eq_true', decide_eq_false_iff_not]
    rintro rfl
    exact line mem
  rw [whole, skipWs_eq_iff]

end Istream
