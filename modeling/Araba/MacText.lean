import Araba.Lib.Istream
import Araba.Packet

/-!
# MACs and their text

`mac_to_string` and `string_to_mac` of `packet.hpp`.
-/

namespace Araba

open Bytes Istream

/-- A digit under `std::hex`. -/
def hexChar (d : ℕ) : UInt8 := if d < 10 then UInt8.ofNat (0x30 + d) else UInt8.ofNat (0x61 + (d - 10))

/-- A byte as `setfill('0') << setw(2) << (int)b` prints it. -/
def hexByte (b : UInt8) : Str := [hexChar (b.toNat / 16), hexChar (b.toNat % 16)]

/-- `mac_to_string`. -/
def macToString (mac : Mac) : Str :=
  hexByte mac[0] ++ text ":" ++ hexByte mac[1] ++ text ":" ++ hexByte mac[2] ++ text ":" ++
    hexByte mac[3] ++ text ":" ++ hexByte mac[4] ++ text ":" ++ hexByte mac[5]

/-- One turn of the loop: a separator in front of every octet but the first, which may be any
character, and the octet. -/
def readOctet (i : ℕ) (s : Str) : Option (UInt8 × Str) := do
  let s ← if i > 0 then (readChar s).map Prod.snd else some s
  let (v, s) ← readHex s
  some (UInt8.ofInt v, s)

/-- The turns from `i` on; the first that fails ends the loop. -/
def stringToMacLoop : ℕ → ℕ → Str → Mac → Mac
  | 0, _, _, macOut => macOut
  | n + 1, i, s, macOut =>
    match readOctet i s with
    | none => macOut
    | some (b, s) => stringToMacLoop n (i + 1) s (macOut.setIfInBounds i b)

/-- `string_to_mac`, into a MAC of zeros. -/
def stringToMac (macStr : Str) : Mac := stringToMacLoop 6 0 macStr (Vector.replicate 6 0)

/-! ## Groups of digits -/

/-- One or two hexadecimal digits. -/
def IsGroup (g : Str) : Prop := (g.length = 1 ∨ g.length = 2) ∧ ∀ c ∈ g, isHexDigit c = true

instance (g : Str) : Decidable (IsGroup g) := inferInstanceAs (Decidable (_ ∧ _))

/-- The octet that a group writes. -/
def octet (g : Str) : UInt8 := UInt8.ofNat (hexValue g)

/-- Six groups of one or two hexadecimal digits with colons between them. -/
def IsMacText (s : Str) : Prop :=
  (s.splitOn 0x3a).length = 6 ∧ ∀ g ∈ s.splitOn 0x3a, IsGroup g

instance (s : Str) : Decidable (IsMacText s) := inferInstanceAs (Decidable (_ ∧ _))

/-- The octets that the groups of a text write. -/
def octets (s : Str) : Mac := Vector.ofFn fun i => octet ((s.splitOn 0x3a)[i.val]?.getD [])

theorem hexValue_group {g : Str} (h : IsGroup g) : hexValue g < 256 := by
  have lt := hexValue_lt g
  rcases h.1 with one | two
  · rw [one] at lt
    omega
  · rw [two] at lt
    omega

theorem readHex_group {g rest : Str} (h : IsGroup g) (stop : ∀ e ∈ rest.head?, e = 0x3a) :
    readHex (g ++ rest) = some ((hexValue g : ℤ), rest) := by
  have some' : g ≠ [] := by
    rintro rfl
    rcases h.1 with one | two
    · cases one
    · cases two
  have small := hexValue_group h
  refine readHex_digits some' h.2 (by omega) fun e he => ?_
  rw [stop e he]
  decide

theorem ofInt_hexValue {g : Str} (h : IsGroup g) : UInt8.ofInt (hexValue g : ℤ) = octet g := by
  have small : (hexValue g : ℤ) % 256 = hexValue g :=
    Int.emod_eq_of_lt (by omega) (by exact_mod_cast hexValue_group h)
  simp [UInt8.ofInt, small, octet]

theorem readOctet_zero {g rest : Str} (h : IsGroup g) (stop : ∀ e ∈ rest.head?, e = 0x3a) :
    readOctet 0 (g ++ rest) = some (octet g, rest) := by
  simp [readOctet, readHex_group h stop, ofInt_hexValue h]

theorem readOctet_succ (i : ℕ) {g rest : Str} (h : IsGroup g)
    (stop : ∀ e ∈ rest.head?, e = 0x3a) :
    readOctet (i + 1) (text ":" ++ (g ++ rest)) = some (octet g, rest) := by
  have sep : readChar (text ":" ++ (g ++ rest)) = some (0x3a, g ++ rest) :=
    readChar_cons (by decide) _
  simp [readOctet, sep, readHex_group h stop, ofInt_hexValue h]

theorem stringToMac_groups {g : Vector Str 6} (h : ∀ i (hi : i < 6), IsGroup g[i]) :
    stringToMac (g[0] ++ text ":" ++ g[1] ++ text ":" ++ g[2] ++ text ":" ++ g[3] ++ text ":" ++
      g[4] ++ text ":" ++ g[5]) = g.map octet := by
  have colon (s : Str) : ∀ e ∈ (text ":" ++ s).head?, e = 0x3a := by
    have head : (text ":" ++ s).head? = some 0x3a := rfl
    simp only [head, Option.mem_some_iff, forall_eq']
  have last : readOctet 5 (text ":" ++ g[5]) = some (octet g[5], []) := by
    have stop : ∀ e ∈ ([] : Str).head?, e = 0x3a := by simp
    simpa using readOctet_succ 4 (h 5 (by decide)) stop
  have written : (((((((Vector.replicate 6 (0 : UInt8)).setIfInBounds 0 (octet g[0])).setIfInBounds 1
      (octet g[1])).setIfInBounds 2 (octet g[2])).setIfInBounds 3 (octet g[3])).setIfInBounds 4
      (octet g[4])).setIfInBounds 5 (octet g[5])) = g.map octet := by
    apply Vector.ext
    intro i hi
    interval_cases i <;> simp
  simp only [stringToMac, List.append_assoc, stringToMacLoop, zero_add,
    readOctet_zero (h 0 (by decide)) (colon _), readOctet_succ _ (h 1 (by decide)) (colon _),
    readOctet_succ _ (h 2 (by decide)) (colon _), readOctet_succ _ (h 3 (by decide)) (colon _),
    readOctet_succ _ (h 4 (by decide)) (colon _), last]
  exact written

theorem stringToMac_of_isMacText {s : Str} (h : IsMacText s) : stringToMac s = octets s := by
  obtain ⟨six, each⟩ := h
  have whole : (text ":").intercalate (s.splitOn 0x3a) = s := List.intercalate_splitOn 0x3a
  have group (i : ℕ) (hi : i < 6) : IsGroup ((s.splitOn 0x3a)[i]?.getD []) := by
    rw [List.getElem?_eq_getElem (by omega), Option.getD_some]
    exact each _ (List.getElem_mem _)
  generalize split : s.splitOn 0x3a = gs at six whole group
  have read := stringToMac_groups (g := Vector.ofFn fun i => gs[i.val]?.getD []) fun i hi => by
    rw [Vector.getElem_ofFn]
    exact group i hi
  have list : gs = [gs[0]?.getD [], gs[1]?.getD [], gs[2]?.getD [], gs[3]?.getD [], gs[4]?.getD [],
      gs[5]?.getD []] := by
    apply List.ext_getElem (by simpa using six)
    intro i hi _
    rw [six] at hi
    interval_cases i <;> simp [six]
  rw [list] at whole
  simp only [List.intercalate, List.intersperse, List.flatten_cons, List.flatten_nil,
    List.append_nil] at whole
  simp only [Vector.getElem_ofFn, List.append_assoc, whole] at read
  rw [read, octets, split]
  apply Vector.ext
  intro i hi
  simp only [Vector.getElem_map, Vector.getElem_ofFn]

/-! ## The text is read back -/

theorem hexDigit_hexChar {d : ℕ} (h : d < 16) : hexDigit (hexChar d) = some d := by
  have all : ∀ d : Fin 16, hexDigit (hexChar d.val) = some d.val := by decide
  exact all ⟨d, h⟩

theorem isGroup_hexByte (b : UInt8) : IsGroup (hexByte b) := by
  refine ⟨.inr rfl, fun c hc => ?_⟩
  have lt : b.toNat < 256 := b.toNat_lt
  have digit {d : ℕ} (h : d < 16) : isHexDigit (hexChar d) = true := by
    rw [isHexDigit, hexDigit_hexChar h]
    rfl
  rcases List.mem_cons.1 hc with rfl | hc
  · exact digit (by omega)
  · rw [List.mem_singleton.1 hc]
    exact digit (by omega)

theorem octet_hexByte (b : UInt8) : octet (hexByte b) = b := by
  have lt : b.toNat < 256 := b.toNat_lt
  have hi := hexDigit_hexChar (d := b.toNat / 16) (by omega)
  have lo := hexDigit_hexChar (d := b.toNat % 16) (by omega)
  have value : hexValue (hexByte b) = b.toNat := by
    simp only [hexValue, hexByte, List.foldl_cons, List.foldl_nil, hi, lo, Option.getD_some]
    omega
  rw [octet, value, UInt8.ofNat_toNat]

theorem stringToMac_macToString (mac : Mac) : stringToMac (macToString mac) = mac := by
  have read := stringToMac_groups (g := mac.map hexByte) fun i hi => by
    rw [Vector.getElem_map]
    exact isGroup_hexByte _
  simp only [Vector.getElem_map, Vector.map_map] at read
  refine Eq.trans read ?_
  apply Vector.ext
  intro i hi
  rw [Vector.getElem_map]
  exact octet_hexByte mac[i]

theorem macToString_injective : Function.Injective macToString :=
  Function.LeftInverse.injective stringToMac_macToString

end Araba
