import Araba.Delivery

/-!
# Ciphers of pairs

The ciphers that two nodes keep for one another, whatever they have been asked for before, and for
nobody else.
-/

namespace Araba

open Traced

variable {env : NodeEnv}

/-- The state after calls of `get_pair_cipher`. -/
def afterCiphers (s : NodeState env) (calls : List Mac) : NodeState env :=
  calls.foldl (fun s theirMac => (getPairCipher theirMac).post s) s

/-- Whatever ciphers two nodes have asked for before, they have one and the same key for each other;
and different pairs of nodes have different keys. -/
theorem pairKeys_agree_and_differ (baseKey : Key) (configA configB : NodeConfig) :
    (∀ (a b : Mac) (s : NodeState ⟨a, baseKey, configA⟩) (t : NodeState ⟨b, baseKey, configB⟩)
        (callsA callsB : List Mac), ∃ key : Key, key = derivePairKey a b baseKey ∧
          (getPairCipher b).value (afterCiphers s callsA) = AES256.new key ∧
          (getPairCipher a).value (afterCiphers t callsB) = AES256.new key) ∧
      ∀ a b c d : Mac, derivePairKey a b baseKey = derivePairKey c d baseKey ↔ s(a, b) = s(c, d) := by
  refine ⟨fun a b s t callsA callsB => ⟨_, rfl, ?_, ?_⟩, fun a b c d =>
    derivePairKey_eq_iff a b c d baseKey⟩
  · exact value_getPairCipher b (afterCiphers s callsA)
  · rw [value_getPairCipher, NodeEnv.cipher, derivePairKey_comm]

end Araba
