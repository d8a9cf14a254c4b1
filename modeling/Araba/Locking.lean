import Araba.Lib.Mutex
import Araba.SendCommand

/-!
# The mutex and the network thread

`net_mutex` is held while a packet is handled, and `get_pair_cipher`, which the DATA branch calls,
locks it again. So the network thread deadlocks with itself on every DATA packet that it tries to
decrypt, and on no other.
-/

namespace Araba

open Traced Mutex

variable {env : NodeEnv}

/-- What an effect does to `net_mutex`. -/
def lockOp : Effect → Option Op
  | .lock => some .acquire
  | .unlock => some .release
  | _ => none

theorem lockOp_of_quiet {e : Effect} (h : e.Quiet) : lockOp e = none := by
  cases e with
  | lock => exact h.elim
  | unlock => exact h.elim
  | send | log | overrun => rfl

/-- The computation does nothing to the mutex. -/
def Unlocked {α : Type} (m : Action env α) : Prop :=
  Preserves (fun _ => True) (fun e => lockOp e = none) m

/-- The packet completes a message: its index included there are as many indices as its header says,
and the announced length fits the buffer. -/
def Completes (mgr : FragmentManager) (p : Packet) : Prop :=
  let stored := (mgr.partials[p.fragHeader.msgId]?.map PartialMsg.fragments).getD ∅
  stored.size + (if p.fragHeader.fragIndex ∈ stored then 0 else 1) =
      p.fragHeader.fragTotal.toNat ∧
    p.fragHeader.totalLen.toNat ≤ 2048

/-- A DATA packet from another node that is not a fragment or completes a message. -/
def NeedsCipher (s : NodeState env) (p : Packet) : Prop :=
  p.header.source ≠ env.myMac ∧ p.header.type = .data ∧
    (¬ p.IsFragment ∨ Completes s.fragMgr p)

variable {received : Packet} {clock : Clock}

theorem complete_reassembleCall_iff (clock : Clock) (frag : received.IsFragment) (mgr : FragmentManager) :
    ((reassembleCall received clock).run mgr).complete = true ↔ Completes mgr received := by
  rw [FragCall.complete_iff (by exact frag), Collect.size_insert]
  exact Iff.rfl

/-! ## Parts that do not touch the mutex -/

theorem unlocked_sendHello : Unlocked (sendHello : Action env Unit) :=
  preserves_sendHello (fun _ _ _ => trivial) fun _ _ _ => rfl

theorem unlocked_retryPass : Unlocked (retryPass clock : Action env Unit) :=
  preserves_retryPass (fun _ _ _ => trivial) fun _ => rfl

theorem unlocked_cleanupTick : Unlocked (cleanupTick clock : Action env Unit) :=
  preserves_cleanupTick fun _ _ _ _ => trivial

/-! ## The packet handler -/

/-- Whoever decrypts while the mutex is held requests it again. -/
theorem reenters_decryptThen (encrypted : List UInt8) (maxOut : ℕ)
    (next : List UInt8 → Action env Unit) (s : NodeState env) :
    Reenters lockOp true ((decryptThen received encrypted maxOut next).trace s) := by
  have cipher : (getPairCipher received.header.source : Action env AES256).trace s =
      [.lock, .unlock] := rfl
  rw [decryptThen, trace_bind, cipher, reenters_append]
  exact .inl (.inl rfl)

theorem reenters_handleData_iff (received : Packet) (clock : Clock) (s : NodeState env) :
    Reenters lockOp true ((handleData received clock).trace s) ↔
      received.header.type = .data ∧ (¬ received.IsFragment ∨ Completes s.fragMgr received) := by
  unfold handleData
  by_cases data : received.header.type = .data
  · by_cases frag : received.IsFragment
    · have complete := complete_reassembleCall_iff clock frag s.fragMgr
      rw [if_pos data, if_pos frag]
      cases done : ((reassembleCall received clock).run s.fragMgr).complete with
      | true =>
        rw [handleFragment_of_complete done]
        exact iff_of_true (reenters_decryptThen _ _ _ _) ⟨data, .inr (complete.1 done)⟩
      | false =>
        rw [(handleFragment_of_incomplete done).1]
        refine iff_of_false id ?_
        rintro ⟨-, single | all⟩
        · exact single frag
        · rw [complete.2 all] at done
          cases done
    · rw [if_pos data, if_neg frag]
      exact iff_of_true (reenters_decryptThen _ _ _ _) ⟨data, .inl frag⟩
  · rw [if_neg data]
    exact iff_of_false id fun h => data h.1

/-- A packet makes the thread request the mutex while it holds it iff it needs a cipher, and leaves
the mutex free in any case. -/
theorem reenters_handlePacket_iff (received : Packet) (clock : Clock) (s : NodeState env) :
    (Reenters lockOp false ((handlePacket received clock).trace s) ↔ NeedsCipher s received) ∧
      heldAfter lockOp false ((handlePacket received clock).trace s) = false := by
  unfold NeedsCipher
  by_cases own : received.header.source = env.myMac
  · rw [handlePacket, if_pos own]
    exact ⟨iff_of_false id fun h => h.1 own, rfl⟩
  · obtain ⟨same, quiet⟩ := handleControl_quiet received clock s s rfl
    have none' : ∀ e ∈ (handleControl received clock).trace s, lockOp e = none :=
      fun e he => lockOp_of_quiet (quiet e he)
    have data := reenters_handleData_iff received clock
      ((handleControl received clock).post s)
    rw [same] at data
    rw [trace_handlePacket own, List.singleton_append]
    constructor
    · unfold Reenters
      simp only [lockOp, Bool.false_eq_true, false_or, reenters_append, heldAfter_of_none none',
        not_reenters_of_none none', data, own, ne_eq, not_false_eq_true, true_and, Reenters, or_false]
    · simp only [heldAfter, lockOp, heldAfter_append]

/-! ## Runs -/

theorem unlocked_networkStep {step : NetworkStep} (h : ∀ p clock, step ≠ .packet p clock) :
    Unlocked (step.action : Action env Unit) := by
  cases step with
  | hello => exact unlocked_sendHello
  | packet p clock => exact absurd rfl (h p clock)
  | retry clock => exact unlocked_retryPass
  | cleanup clock => exact unlocked_cleanupTick

/-- A step of the network thread starts and ends with the mutex free. -/
theorem heldAfter_networkStep (step : NetworkStep) (s : NodeState env) :
    heldAfter lockOp false (step.action.trace s) = false := by
  by_cases h : ∃ p clock, step = .packet p clock
  · obtain ⟨p, clock, rfl⟩ := h
    exact (reenters_handlePacket_iff p clock s).2
  · push Not at h
    exact heldAfter_of_none (unlocked_networkStep h s trivial).2 false

/-- In every run of both threads, the network thread requests the mutex while it holds it iff it gets
a packet that it has to decrypt. -/
theorem reenters_network_thread_iff (start : NodeState env) (steps : List NodeStep) :
    Reenters lockOp false (networkTraces start steps).flatten ↔
      ∃ pre p clock post, steps = pre ++ .network (.packet p clock) :: post ∧
        NeedsCipher (stateAfter start pre) p := by
  have free : ∀ es ∈ networkTraces start steps, heldAfter lockOp false es = false := by
    intro es hes
    obtain ⟨pre, step, post, -, rfl⟩ := mem_networkTraces.1 hes
    exact heldAfter_networkStep step _
  rw [reenters_flatten free]
  constructor
  · rintro ⟨es, hes, again⟩
    obtain ⟨pre, step, post, split, rfl⟩ := mem_networkTraces.1 hes
    by_cases h : ∃ p clock, step = .packet p clock
    · obtain ⟨p, clock, rfl⟩ := h
      exact ⟨pre, p, clock, post, split, (reenters_handlePacket_iff p clock _).1.1 again⟩
    · push Not at h
      exact absurd again (not_reenters_of_none (unlocked_networkStep h _ trivial).2 false)
  · rintro ⟨pre, p, clock, post, split, needs⟩
    exact ⟨_, mem_networkTraces.2 ⟨pre, .packet p clock, post, split, rfl⟩,
      (reenters_handlePacket_iff p clock _).1.2 needs⟩

/-- An empty DATA packet from a node to another. -/
def emptyData : Packet := Packet.init .data (sampleMac 1) (sampleMac 2) 0

/-- The first DATA packet that a fresh node gets makes it lock the mutex twice. -/
theorem empty_data_reenters :
    Reenters lockOp false (networkTraces (NodeState.start receiverEnv none)
      [.network (.packet emptyData ⟨0, 0⟩)]).flatten := by
  have needs : NeedsCipher (NodeState.start receiverEnv none) emptyData :=
    ⟨by decide, rfl, .inl (by decide)⟩
  have again := (reenters_handlePacket_iff emptyData ⟨0, 0⟩ _).1.2 needs
  simpa [networkTraces, NetworkStep.action] using again

end Araba
