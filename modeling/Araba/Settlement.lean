import Araba.Retries

/-!
# What becomes of a pending message

A message that waits for its acknowledgement does not wait for ever. The loop over the pending
messages runs again and again, and when four of its passes have come that are at least four seconds
apart, the message has been acknowledged or reported as failed.
-/

namespace Araba

open Bytes Traced

/-- The times at which the loop passes over the pending messages. -/
def passTimes (steps : List NodeStep) : List ℕ :=
  steps.filterMap fun
    | .network (.retry clock) => some clock.steady
    | _ => none

/-- Among the passes there are as many as the entry needs, four seconds apart or more. -/
def PendingAck.Due (pa : PendingAck) (times : List ℕ) : Prop :=
  ∃ ts : List ℕ, ts.Sublist times ∧ Spaced (pa.sentTime :: ts) ∧ ts ≠ [] ∧
    4 ≤ ts.length + pa.retries.toNat

/-! ## One pass -/

section Pass

variable {pa : PendingAck} {t : ℕ} {times : List ℕ}

theorem PendingAck.lt_of_keep (keep : pa.turn t = .keep) : t < pa.sentTime + 4 * second := by
  unfold PendingAck.turn at keep
  split_ifs at keep with old
  unfold PendingAck.age at old
  unfold second
  omega

theorem PendingAck.Due.keep (h : pa.Due (t :: times)) (keep : pa.turn t = .keep) : pa.Due times := by
  obtain ⟨ts, sub, spaced, some', enough⟩ := h
  have early := pa.lt_of_keep keep
  rcases List.sublist_cons_iff.1 sub with later | ⟨r, rfl, -⟩
  · exact ⟨ts, later, spaced, some', enough⟩
  · have := (List.isChain_cons_cons.1 spaced).1
    omega

/-- After a retry the next passes do, for the pass comes no later than the first of those that were
counted on. -/
theorem PendingAck.Due.retry (h : pa.Due (t :: times)) (ordered : ∀ t' ∈ times, t ≤ t')
    (retry : pa.turn t = .retry) :
    ({ pa with
        retries := pa.retries + 1
        sentTime := t } : PendingAck).Due times := by
  obtain ⟨ts, sub, spaced, some', enough⟩ := h
  have few := pa.retries_of_retry retry
  have more : (pa.retries + 1).toNat = pa.retries.toNat + 1 := by
    rw [UInt8.toNat_add]
    show (pa.retries.toNat + 1) % 256 = _
    omega
  obtain ⟨t₁, r, rfl⟩ := List.exists_cons_of_ne_nil some'
  have first : t ≤ t₁ ∧ r.Sublist times := by
    rcases List.sublist_cons_iff.1 sub with later | ⟨r', same, rest⟩
    · exact ⟨ordered t₁ (later.subset List.mem_cons_self), (List.sublist_cons_self t₁ r).trans later⟩
    · obtain ⟨rfl, rfl⟩ := List.cons.inj same
      exact ⟨le_rfl, rest⟩
  rw [List.length_cons] at enough
  refine ⟨r, first.2, ?_, List.ne_nil_of_length_pos (by omega), ?_⟩
  · cases r with
    | nil => exact List.isChain_singleton t
    | cons t₂ r =>
      obtain ⟨next, rest⟩ := List.isChain_cons_cons.1 (List.isChain_cons_cons.1 spaced).2
      exact List.isChain_cons_cons.2 ⟨(Nat.add_le_add_right first.1 _).trans next, rest⟩
  · show 4 ≤ r.length + (pa.retries + 1).toNat
    omega

end Pass

/-! ## A run -/

section Run

variable {env : NodeEnv} {key : UInt32}

/-- How the message ends: its ACK is handled, or its failure is reported. -/
def Settles (s : NodeState env) (key : UInt32) (pa : PendingAck) (step : NodeStep) : Prop :=
  (∃ p clock, step = .network (.packet p clock) ∧ p.header.source ≠ env.myMac ∧ p.Acks key) ∨
    ∃ clock, step = .network (.retry clock) ∧
      .log (.deliveryFailed (macToString pa.destMac) pa.originalMsg) ∈
        (step.action : Action env Unit).trace s

theorem settles_of_gone {s : NodeState env} {pa : PendingAck} {step : NodeStep}
    (pending : s.pendingAcks[key]? = some pa)
    (gone : step.onEntry env.myMac key (some pa) = none) : Settles s key pa step := by
  refine (NodeStep.removes_cases gone).imp_right ?_
  rintro ⟨clock, rfl, turn⟩
  refine ⟨clock, rfl, ?_⟩
  show _ ∈ (retryPass clock).trace s
  rw [trace_retryPass]
  refine List.mem_flatMap.2 ⟨(key, pa), Std.ExtTreeMap.mem_toList_iff_getElem?_eq_some.2 pending, ?_⟩
  rw [PendingAck.report, turn]
  exact List.mem_singleton_self _

/-- A step that leaves the entry there leaves its destination and its message, and the passes that come
after it are enough. -/
theorem exists_onEntry {mac : Mac} {pa : PendingAck} {step : NodeStep} {steps : List NodeStep}
    (unregistered : step.registers ≠ some key) (ordered : (passTimes (step :: steps)).Pairwise (· ≤ ·))
    (due : pa.Due (passTimes (step :: steps))) :
    step.onEntry mac key (some pa) = none ∨
      ∃ pa' : PendingAck, step.onEntry mac key (some pa) = some pa' ∧ pa'.destMac = pa.destMac ∧
        pa'.originalMsg = pa.originalMsg ∧ pa'.Due (passTimes steps) := by
  have idle (same : step.onEntry mac key (some pa) = some pa)
      (times : passTimes (step :: steps) = passTimes steps) :
      ∃ pa' : PendingAck, step.onEntry mac key (some pa) = some pa' ∧ pa'.destMac = pa.destMac ∧
        pa'.originalMsg = pa.originalMsg ∧ pa'.Due (passTimes steps) :=
    ⟨pa, same, rfl, rfl, times ▸ due⟩
  cases step with
  | network step =>
    cases step with
    | packet p clock =>
      by_cases acked : p.header.source ≠ mac ∧ p.Acks key
      · exact .inl (if_pos acked)
      · exact .inr (idle (if_neg acked) rfl)
    | retry clock =>
      have times : passTimes (.network (.retry clock) :: steps) = clock.steady :: passTimes steps := rfl
      rw [times] at due ordered
      have handled : (NodeStep.network (.retry clock)).onEntry mac key (some pa) =
          pa.handled clock.steady := rfl
      rw [handled, PendingAck.handled]
      cases turn : pa.turn clock.steady with
      | keep => exact .inr ⟨pa, rfl, rfl, rfl, due.keep turn⟩
      | retry => exact .inr ⟨_, rfl, rfl, rfl, due.retry (List.pairwise_cons.1 ordered).1 turn⟩
      | fail => exact .inl rfl
    | _ => exact .inr (idle rfl rfl)
  | main step =>
    cases step with
    | registerAck ackSeq destMac message clock =>
      exact .inr (idle (if_neg fun same => unregistered (congrArg some same)) rfl)
    | _ => exact .inr (idle rfl rfl)

theorem not_pending_stateAfter {s : NodeState env} (none' : s.pendingAcks[key]? = none)
    (steps : List NodeStep) (unregistered : key ∉ steps.filterMap NodeStep.registers) :
    (stateAfter s steps).pendingAcks[key]? = none := by
  induction steps generalizing s with
  | nil => exact none'
  | cons step steps ih =>
    have other : step.registers ≠ some key := fun same =>
      unregistered (List.mem_filterMap.2 ⟨step, List.mem_cons_self, same⟩)
    refine ih ?_ fun later => unregistered ?_
    · rw [getElem?_step, none']
      unfold NodeStep.onEntry
      split
      · exact if_neg fun same => other (congrArg some same)
      · rfl
      · split_ifs <;> rfl
      · rfl
    · obtain ⟨step', mem, same⟩ := List.mem_filterMap.1 later
      exact List.mem_filterMap.2 ⟨step', List.mem_cons_of_mem _ mem, same⟩

/-- Every pending message is acknowledged or reported as failed, and not pending any more, when the
loop has passed four times, less one for each retry so far, at intervals of four seconds or more. -/
theorem pending_settles (steps : List NodeStep) (s : NodeState env) (key : UInt32) (pa : PendingAck)
    (pending : s.pendingAcks[key]? = some pa)
    (unregistered : key ∉ steps.filterMap NodeStep.registers)
    (ordered : (passTimes steps).Pairwise (· ≤ ·)) (due : pa.Due (passTimes steps)) :
    (stateAfter s steps).pendingAcks[key]? = none ∧
      ∃ pre step post, steps = pre ++ step :: post ∧ Settles (stateAfter s pre) key pa step := by
  induction steps generalizing s pa with
  | nil =>
    obtain ⟨ts, sub, -, some', -⟩ := due
    exact absurd (List.sublist_nil.1 sub) some'
  | cons step steps ih =>
    have other : step.registers ≠ some key := fun same =>
      unregistered (List.mem_filterMap.2 ⟨step, List.mem_cons_self, same⟩)
    have unregistered' : key ∉ steps.filterMap NodeStep.registers := fun later => by
      obtain ⟨step', mem, same⟩ := List.mem_filterMap.1 later
      exact unregistered (List.mem_filterMap.2 ⟨step', List.mem_cons_of_mem _ mem, same⟩)
    have entry : (step.action.post s).pendingAcks[key]? = step.onEntry env.myMac key (some pa) := by
      rw [getElem?_step, pending]
    rcases exists_onEntry other ordered due with gone | ⟨pa', kept, dest, msg, due'⟩
    · rw [gone] at entry
      exact ⟨not_pending_stateAfter entry steps unregistered',
        [], step, steps, rfl, settles_of_gone pending gone⟩
    · rw [kept] at entry
      have ordered' : (passTimes steps).Pairwise (· ≤ ·) :=
        ordered.sublist ((List.sublist_cons_self step steps).filterMap _)
      obtain ⟨gone, pre, last, post, rfl, settles⟩ :=
        ih (step.action.post s) pa' entry unregistered' ordered' due'
      refine ⟨gone, step :: pre, last, post, rfl, ?_⟩
      rw [Settles, dest, msg] at settles
      exact settles

end Run

/-- A message that is registered and never acknowledged is reported as failed. -/
theorem pending_settles_unanswered :
    ∃ pa : PendingAck, (stateAfter (NodeState.start senderEnv none)
        (unanswered.take 1)).pendingAcks[(1 : UInt32)]? = some pa ∧
      ∃ pre step post, unanswered.drop 1 = pre ++ step :: post ∧
        Settles (stateAfter (stateAfter (NodeState.start senderEnv none) (unanswered.take 1)) pre) 1 pa
          step := by
  have times : passTimes (unanswered.drop 1) = [4 * second, 8 * second, 12 * second, 16 * second] := rfl
  have spaced : Spaced [0, 4 * second, 8 * second, 12 * second, 16 * second] := by
    simp [Spaced]
    omega
  have due : PendingAck.Due ⟨receiverEnv.myMac, 0, 0, text "hi", 1⟩ (passTimes (unanswered.drop 1)) :=
    ⟨_, List.Sublist.refl _, times ▸ spaced, by rw [times]; exact List.cons_ne_nil _ _,
      by rw [times]; decide⟩
  have ordered : (passTimes (unanswered.drop 1)).Pairwise (· ≤ ·) := by
    rw [times]
    simp [second]
  have settled := pending_settles (unanswered.drop 1)
    (stateAfter (NodeState.start senderEnv none) (unanswered.take 1)) 1
    ⟨receiverEnv.myMac, 0, 0, text "hi", 1⟩ Std.ExtTreeMap.getElem?_insert_self List.not_mem_nil
    ordered due
  exact ⟨_, Std.ExtTreeMap.getElem?_insert_self, settled.2⟩

end Araba
