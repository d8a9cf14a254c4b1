import Araba.Node

/-!
# MACs as keys

The routes, the neighbours and the ciphers are kept under the text of a MAC. The text is read back as
the MAC, so no two MACs share an entry; and it is one of many spellings that are read as the same MAC.
-/

namespace Araba

open Bytes

variable {a b : Mac}

theorem compare_macToString_ne (ne : a ≠ b) : ¬ compare (macToString a) (macToString b) = .eq := by
  rwa [Std.LawfulEqCmp.compare_eq_iff_eq, macToString_injective.eq_iff]

/-- What is kept for one MAC in each of the maps is left alone by what is put there for another. -/
structure Apart (a b : Mac) : Prop where
  route : ∀ (t : RoutingTable) (nextHop : Mac) (hops : UInt8) (now : UInt64),
    (t.addRoute a nextHop hops now).table[RoutingTable.macToKey b]? =
      t.table[RoutingTable.macToKey b]?
  neighbor : ∀ known : Std.ExtTreeSet Str,
    macToString b ∈ known.insert (macToString a) ↔ macToString b ∈ known
  cipher : ∀ (env : NodeEnv) (c : PairCiphers env),
    (c.find a).2.ciphers[macToString b]? = c.ciphers[macToString b]?

theorem apart (ne : a ≠ b) : Apart a b where
  route t nextHop hops now := by
    have key : ¬ compare (RoutingTable.macToKey a) (RoutingTable.macToKey b) = .eq := by
      rwa [RoutingTable.compare_macToKey_eq_iff]
    simp only [RoutingTable.addRoute]
    split_ifs <;> rw [Std.ExtTreeMap.getElem?_insert, if_neg key]
  neighbor known := by
    rw [Std.ExtTreeSet.mem_insert, or_iff_right (compare_macToString_ne ne)]
  cipher env c := by
    simp only [PairCiphers.find]
    cases c.ciphers[macToString a]? with
    | some aes => rfl
    | none => rw [Std.ExtTreeMap.getElem?_insert, if_neg (compare_macToString_ne ne)]

/-- The text of a MAC is read back, both functions that write it agree, different MACs have different
texts and share no entry, and every spelling of six octets is read as these octets. -/
theorem macText_faithful :
    (∀ m, stringToMac (macToString m) = m) ∧
      (∀ m, RoutingTable.macToKey m = macToString m) ∧
      Function.Injective macToString ∧ Function.Injective RoutingTable.macToKey ∧
      (∀ a b, a ≠ b → Apart a b) ∧
      ∀ s, IsMacText s → stringToMac s = octets s :=
  ⟨stringToMac_macToString, fun _ => rfl, macToString_injective, macToString_injective,
    fun _ _ => apart, fun _ => stringToMac_of_isMacText⟩

set_option maxRecDepth 2000 in
/-- Capitals, single digits and leading zeros. -/
theorem macText_faithful_spelled :
    Apart #v[2, 0, 0, 0, 0, 1] #v[2, 0, 0, 0, 0, 2] ∧
      stringToMac (text "A:bC:07:0:ff:9") = octets (text "A:bC:07:0:ff:9") ∧
      octets (text "A:bC:07:0:ff:9") = #v[0x0a, 0xbc, 0x07, 0x00, 0xff, 0x09] :=
  ⟨macText_faithful.2.2.2.2.1 _ _ (by decide), macText_faithful.2.2.2.2.2 _ (by decide), by decide⟩

end Araba
