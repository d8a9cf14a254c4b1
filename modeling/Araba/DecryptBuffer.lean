import Araba.Delivery
import Araba.Locking

/-!
# The buffer of `decrypt_payload`

`decrypt_payload` copies the ciphertext to a local array of 1024 bytes, whose size is compared with
nothing. A single packet always fits; a reassembled message may be twice as long.
-/

namespace Araba

open Bytes Traced

/-! ## What a call touches -/

/-- The indices that `decrypt_cbc` reads and writes, block by block. -/
def touchedIndices (dataLen : ℕ) : List ℕ :=
  (List.range ((dataLen + 15) / 16)).flatMap fun k => (List.range 16).map fun j => 16 * k + j

/-- What a call of `decrypt_payload` copies to its local array, and what is decrypted there, lies in
the array. A call for less than two blocks returns before it copies. -/
def StaysInBuffer (encrypted : List UInt8) : Prop :=
  encrypted.length < aesBlockSize + aesBlockSize ∨
    (encrypted.length - aesBlockSize ≤ localBufferSize ∧
      ∀ i ∈ touchedIndices (encrypted.length - aesBlockSize), i + 1 ≤ localBufferSize)

theorem mem_touchedIndices {dataLen i : ℕ} :
    i ∈ touchedIndices dataLen ↔ i < 16 * ((dataLen + 15) / 16) := by
  simp only [touchedIndices, List.mem_flatMap, List.mem_map, List.mem_range]
  constructor
  · rintro ⟨k, hk, j, hj, rfl⟩
    omega
  · intro h
    exact ⟨i / 16, by omega, i % 16, by omega, by omega⟩

theorem staysInBuffer_iff (encrypted : List UInt8) :
    StaysInBuffer encrypted ↔ encrypted.length ≤ 1040 := by
  simp only [StaysInBuffer, mem_touchedIndices, aesBlockSize, localBufferSize]
  constructor
  · rintro (short | ⟨copied, -⟩)
    · omega
    · omega
  · intro fits
    by_cases short : encrypted.length < 32
    · exact .inl short
    · exact .inr ⟨by omega, fun i hi => by omega⟩

instance (encrypted : List UInt8) : Decidable (StaysInBuffer encrypted) :=
  decidable_of_iff _ (staysInBuffer_iff encrypted).symm

/-- A call that does not stay in the array has no defined outcome. -/
theorem decryptPayload_eq_error_iff (encrypted : List UInt8) (maxOut : ℕ) (aes : AES256) :
    decryptPayload encrypted maxOut aes = .error .overrun ↔ ¬ StaysInBuffer encrypted := by
  have block : aesBlockSize = 16 := rfl
  have size : localBufferSize = 1024 := rfl
  rw [staysInBuffer_iff]
  simp only [decryptPayload]
  by_cases short : encrypted.length < aesBlockSize + aesBlockSize
  · rw [if_pos short]
    exact iff_of_false (fun h => by cases h) (by omega)
  · rw [if_neg short]
    by_cases long : encrypted.length - aesBlockSize > localBufferSize
    · rw [if_pos long]
      exact iff_of_true rfl (by omega)
    · rw [if_neg long]
      exact iff_of_false (fun h => by cases h) (by omega)

/-! ## The calls of the DATA branch -/

section Calls

variable {env : NodeEnv} {p : Packet} {clock : Clock} {s : NodeState env}

/-- What the handler passes to `decrypt_payload`, if it calls it. -/
def decryptCall (env : NodeEnv) (p : Packet) (clock : Clock) (mgr : FragmentManager) :
    Option (List UInt8) :=
  if p.header.source = env.myMac ∨ p.header.type ≠ .data then none
  else if p.IsFragment then
    let r := (reassembleCall p clock).run mgr
    if r.complete then some (r.outBuf.take r.outLen) else none
  else some p.body

/-- What is done with the message that was decrypted stays in its own buffers. -/
theorem overrun_mem_decryptThen_iff {encrypted : List UInt8} {maxOut : ℕ}
    {next : List UInt8 → Action env Unit}
    (safe : ∀ d, Preserves (fun _ => True) (fun e => e ≠ .overrun) (next d)) :
    .overrun ∈ (decryptThen p encrypted maxOut next).trace s ↔ ¬ StaysInBuffer encrypted := by
  have locked : (getPairCipher p.header.source : Action env AES256).trace s = [.lock, .unlock] := rfl
  have quiet : Effect.overrun ∉ [Effect.lock, Effect.unlock] := by decide
  rw [← decryptPayload_eq_error_iff encrypted maxOut (env.cipher p.header.source), decryptThen,
    trace_bind,
    value_getPairCipher, List.mem_append, locked, or_iff_right quiet]
  cases decryptPayload encrypted maxOut (env.cipher p.header.source) with
  | error e =>
    cases e
    exact iff_of_true (List.mem_singleton_self _) rfl
  | ok d => exact iff_of_false (fun mem => (safe d _ trivial).2 _ mem rfl) fun h => by cases h

/-- The DATA branch overruns exactly when the call that it makes does. -/
theorem overrun_mem_handleData_iff (other : p.header.source ≠ env.myMac) :
    .overrun ∈ (handleData p clock).trace s ↔
      ∃ encrypted ∈ decryptCall env p clock s.fragMgr, ¬ StaysInBuffer encrypted := by
  have ack : Preserves (fun _ => True) (fun e => e ≠ .overrun)
      (sendAck p.header.source p.header.sequenceId : Action env Unit) := .emit nofun
  have reassembled (d : List UInt8) : Preserves (fun _ => True) (fun e => e ≠ .overrun)
      (deliverReassembled p d : Action env Unit) :=
    preserves_deliverReassembled (fun _ _ => nofun) (fun _ => ack) d
  have single (d : List UInt8) : Preserves (fun _ => True) (fun e => e ≠ .overrun)
      (deliverSingle p clock d : Action env Unit) :=
    preserves_deliverSingle (fun _ _ => nofun) (fun _ => ack) (fun _ _ => nofun) d
  rw [handleData, decryptCall]
  by_cases data : p.header.type = .data
  · rw [if_pos data, if_neg (not_or.2 ⟨other, not_not.2 data⟩)]
    by_cases frag : p.IsFragment
    · rw [if_pos frag, if_pos frag]
      cases done : ((reassembleCall p clock).run s.fragMgr).complete with
      | true =>
        rw [handleFragment_of_complete done, overrun_mem_decryptThen_iff reassembled]
        simp [done]
      | false =>
        rw [(handleFragment_of_incomplete done).1]
        simp [done]
    · rw [if_neg frag, if_neg frag, handleSingle, overrun_mem_decryptThen_iff single]
      simp
  · rw [if_neg data, if_pos (.inr data)]
    simp

end Calls

/-! ## How much is reassembled -/

/-- The fragments of a message, with the one that the packet brings. -/
def collected (mgr : FragmentManager) (p : Packet) : Std.ExtTreeMap UInt8 (List UInt8) :=
  ((mgr.partials[p.fragHeader.msgId]?.map PartialMsg.fragments).getD ∅).insert p.fragHeader.fragIndex
    p.fragData

/-- The fragments that the header of the packet counts, one after the other. -/
def joined (mgr : FragmentManager) (p : Packet) : List UInt8 :=
  (List.range p.fragHeader.fragTotal.toNat).flatMap fun i => (collected mgr p)[UInt8.ofNat i]?.getD []

theorem outBuf_eq_of_complete {c : FragCall} {mgr : FragmentManager} (frag : c.frag.IsFragment)
    (done : (c.run mgr).complete = true) :
    (c.run mgr).outBuf.take (c.run mgr).outLen = (joined mgr c.frag).take c.totalLen := by
  obtain ⟨size, fits⟩ := (FragCall.complete_iff frag).1 done
  obtain ⟨long, several⟩ := frag
  have copied := FragmentManager.copyFragments_append (collected mgr c.frag) c.totalLen
    ((List.range c.fragTotal).map UInt8.ofNat) [] c.outBuf
  simp only [List.flatMap_map, List.nil_append, List.length_nil, Nat.sub_zero, Nat.zero_add] at copied
  have run := c.run_eq mgr
  rw [if_neg (not_lt.2 long), if_neg (UInt8.not_le.2 several)] at run
  dsimp only at run
  rw [if_neg (not_not.2 size), if_neg (not_lt.2 fits)] at run
  have same : c.run mgr = ⟨true, { mgr with partials := mgr.partials.erase c.msgId },
      (joined mgr c.frag).take c.totalLen ++ c.outBuf.drop ((joined mgr c.frag).take c.totalLen).length,
      ((joined mgr c.frag).take c.totalLen).length⟩ := by
    rw [run]
    exact congrArg (fun r : List UInt8 × ℕ => Reassembly.mk true _ r.1 r.2) copied
  rw [same, List.take_left']
  rfl

/-- The packet is a fragment from another node that completes a message, and both the announced length
and the fragments are longer than the buffer of `decrypt_payload` and one block. -/
def CompletesLong (env : NodeEnv) (mgr : FragmentManager) (p : Packet) : Prop :=
  p.header.source ≠ env.myMac ∧ p.header.type = .data ∧ p.IsFragment ∧ Completes mgr p ∧
    1040 < p.fragHeader.totalLen.toNat ∧ 1040 < (joined mgr p).length

variable {env : NodeEnv} {p : Packet} {clock : Clock}

/-- A call leaves its buffer exactly when it is made for such a packet. -/
theorem decryptCall_staysInBuffer_iff (mgr : FragmentManager) :
    (∀ encrypted ∈ decryptCall env p clock mgr, StaysInBuffer encrypted) ↔
      ¬ CompletesLong env mgr p := by
  rw [decryptCall, CompletesLong]
  by_cases here : p.header.source = env.myMac ∨ p.header.type ≠ .data
  · rw [if_pos here]
    refine iff_of_true nofun fun long => ?_
    exact here.elim long.1 fun type => type long.2.1
  · obtain ⟨other, data⟩ := not_or.1 here
    rw [if_neg here, and_iff_right other, and_iff_right (not_not.1 data)]
    by_cases frag : p.IsFragment
    · have complete := complete_reassembleCall_iff clock frag mgr
      rw [if_pos frag, and_iff_right frag]
      cases done : ((reassembleCall p clock).run mgr).complete with
      | true =>
        have out := outBuf_eq_of_complete (c := reassembleCall p clock) (by exact frag) done
        simp only [done, if_true, Option.mem_def, Option.some.injEq, forall_eq', staysInBuffer_iff, out,
          List.length_take]
        rw [and_iff_right (complete.1 done)]
        show min p.fragHeader.totalLen.toNat (joined mgr p).length ≤ 1040 ↔ _
        omega
      | false =>
        have few : ¬ Completes mgr p := fun h => by
          rw [complete.2 h] at done
          cases done
        simp only [done]
        exact iff_of_true nofun fun long => few long.1
    · have small : p.body.length ≤ 512 := by
        rw [Packet.body, length_slice]
        omega
      rw [if_neg frag]
      refine iff_of_true (fun encrypted call => ?_) fun long => frag long.1
      obtain rfl := Option.some.inj call
      rw [staysInBuffer_iff]
      omega

/-! ## Runs -/

/-- Every call of `decrypt_payload` in the run stays in its buffer. -/
def DecryptsInBuffer (start : NodeState env) (steps : List NodeStep) : Prop :=
  ∀ pre p clock post, steps = pre ++ .network (.packet p clock) :: post →
    ∀ encrypted ∈ decryptCall env p clock (stateAfter start pre).fragMgr, StaysInBuffer encrypted

/-- In every run, every call of `decrypt_payload` stays in its buffer exactly when no packet completes
a message of more than 1040 bytes. -/
theorem decryptsInBuffer_iff (start : NodeState env) (steps : List NodeStep) :
    DecryptsInBuffer start steps ↔
      ∀ pre p clock post, steps = pre ++ .network (.packet p clock) :: post →
        ¬ CompletesLong env (stateAfter start pre).fragMgr p := by
  refine forall_congr' fun pre => forall_congr' fun p => forall_congr' fun clock =>
    forall_congr' fun post => imp_congr_right fun _ => ?_
  exact decryptCall_staysInBuffer_iff _

/-- A fragment of 506 bytes of a message that announces three fragments and 1041 bytes, as a peer may
send it. -/
def longFragment (index : UInt8) : Packet :=
  (Packet.init .data (sampleMac 1) (sampleMac 2) 0).fill
    ((FragHeader.mk 7 index 3 1041).toBytes ++ List.replicate 506 0)

/-- The three fragments reach a fresh node. -/
def longFragments : List NodeStep :=
  [.network (.packet (longFragment 0) ⟨0, 0⟩), .network (.packet (longFragment 1) ⟨0, 0⟩),
    .network (.packet (longFragment 2) ⟨0, 0⟩)]

/-- The third fragment makes `decrypt_payload` copy 1025 bytes. -/
theorem long_message_leaves_buffer :
    ¬ DecryptsInBuffer (NodeState.start receiverEnv none) longFragments := by
  intro safe
  have call : (decryptCall receiverEnv (longFragment 2) ⟨0, 0⟩
      (stateAfter (NodeState.start receiverEnv none) (longFragments.take 2)).fragMgr).map List.length =
        some 1041 := by
    decide +kernel
  obtain ⟨encrypted, made, length⟩ := Option.map_eq_some_iff.1 call
  have fits := safe (longFragments.take 2) (longFragment 2) ⟨0, 0⟩ [] rfl encrypted made
  rw [staysInBuffer_iff] at fits
  omega

end Araba
