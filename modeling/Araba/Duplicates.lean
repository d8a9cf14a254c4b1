import Araba.FalseAcks
import Araba.Ledger
import Araba.Locking

/-!
# Duplicates

A packet that arrives again is handled again: nothing remembers the sequence numbers of what was
delivered. So a message is delivered as often as all of its packets arrive.
-/

namespace Araba

open Bytes Collect Traced

section Run

variable {env : NodeEnv}

/-! ## The fragments in a run -/

/-- What a step does to the entries of the fragments. -/
def NodeStep.fragOps (s : NodeState env) : NodeStep → List FragOp
  | .network (.packet p clock) =>
    if p.header.source ≠ env.myMac ∧ p.header.type = .data ∧ p.IsFragment then
      [.reassemble (reassembleCall p clock)]
    else []
  | .network (.cleanup clock) =>
    if s.cleanupCounter + 1 ≥ 100 then [.cleanup env.config.fragmentTimeoutSec clock.steady] else []
  | _ => []

/-- The operations on the fragment manager in a run of the node. -/
def fragOpsOf : NodeState env → List NodeStep → List FragOp
  | _, [] => []
  | s, step :: steps => step.fragOps s ++ fragOpsOf (step.action.post s) steps

theorem fragOpsOf_append (s : NodeState env) (pre post : List NodeStep) :
    fragOpsOf s (pre ++ post) = fragOpsOf s pre ++ fragOpsOf (stateAfter s pre) post := by
  induction pre generalizing s with
  | nil => rfl
  | cons step pre ih => rw [List.cons_append, fragOpsOf, ih, fragOpsOf, List.append_assoc]; rfl

/-- The entries after an operation depend on the entries before. -/
theorem FragOp.partials_congr (op : FragOp) {mgr mgr' : FragmentManager}
    (same : mgr.partials = mgr'.partials) : (op.apply mgr).partials = (op.apply mgr').partials := by
  cases op with
  | cleanup maxAge now =>
    show mgr.partials.filter _ = mgr'.partials.filter _
    rw [same]
  | reassemble c =>
    show (c.run mgr).mgr.partials = (c.run mgr').mgr.partials
    rw [FragCall.run_eq, FragCall.run_eq, same]
    dsimp only
    split_ifs
    · exact same
    · exact same
    · rfl
    · rfl
    · rfl

theorem partials_encryptWithCipher (destMac : Mac) (message : Str) (clock : Clock)
    (s : NodeState env) :
    ((encryptWithCipher destMac message clock).post s).fragMgr.partials = s.fragMgr.partials := by
  obtain ⟨seqNum, nextMsgId, post⟩ := exists_post_encryptWithCipher destMac message clock s
  rw [post]

theorem partials_step (step : NodeStep) {s : NodeState env} {mgr : FragmentManager}
    (same : s.fragMgr.partials = mgr.partials) :
    (step.action.post s).fragMgr.partials = ((step.fragOps s).foldl FragOp.apply mgr).partials := by
  have still (kept : (step.action.post s).fragMgr.partials = s.fragMgr.partials)
      (none' : step.fragOps s = []) :
      (step.action.post s).fragMgr.partials =
        ((step.fragOps s).foldl FragOp.apply mgr).partials := by
    rw [kept, none', same]
    rfl
  cases step with
  | network step =>
    cases step with
    | hello => exact still rfl rfl
    | packet p clock =>
      show ((handlePacket p clock).post s).fragMgr.partials = _
      by_cases own : p.header.source = env.myMac
      · refine still ?_ (if_neg fun h => h.1 own)
        show ((handlePacket p clock).post s).fragMgr.partials = _
        rw [handlePacket, if_pos own]
        rfl
      · rw [fragMgr_handlePacket clock s own, NodeStep.fragOps]
        simp only [ne_eq, own, not_false_eq_true, true_and]
        split_ifs
        · exact FragOp.partials_congr (.reassemble (reassembleCall p clock)) same
        · exact same
    | retry clock =>
      exact still (leaves_retryPass (f := fun s => s.fragMgr.partials) (fun _ _ => rfl) s) rfl
    | cleanup clock =>
      show ((cleanupTick clock).post s).fragMgr.partials = _
      unfold cleanupTick NodeStep.fragOps
      rw [post_bind, post_get, value_get, post_ite]
      split_ifs
      · exact FragOp.partials_congr (.cleanup env.config.fragmentTimeoutSec clock.steady) same
      · exact same
  | main step =>
    cases step with
    | encryptWithCipher destMac message clock =>
      exact still (partials_encryptWithCipher destMac message clock s) rfl
    | _ => exact still rfl rfl

/-- In every run the entries are those of the operations. -/
theorem partials_stateAfter (steps : List NodeStep) {s : NodeState env} {mgr : FragmentManager}
    (same : s.fragMgr.partials = mgr.partials) :
    (stateAfter s steps).fragMgr.partials =
      ((fragOpsOf s steps).foldl FragOp.apply mgr).partials := by
  induction steps generalizing s mgr with
  | nil => exact same
  | cons step steps ih =>
    rw [fragOpsOf, List.foldl_append]
    exact ih (partials_step step same)

/-! ## What one packet delivers -/

section OnePacket

variable {p : Packet} {clock : Clock} {s : NodeState env}

theorem length_messages_decryptThen {encrypted : List UInt8} {maxOut : ℕ}
    {next : List UInt8 → Action env Unit}
    (one : ∀ d t, (messages ((next d).trace t)).length ≤ 1) :
    (messages ((decryptThen p encrypted maxOut next).trace s)).length ≤ 1 := by
  cases dec : decryptPayload encrypted maxOut (env.cipher p.header.source) with
  | ok d =>
    rw [messages_decryptThen dec]
    exact one d _
  | error e =>
    rw [decryptThen, trace_bind, value_getPairCipher, dec]
    cases e
    exact Nat.zero_le 1

theorem length_messages_deliverReassembled (d : List UInt8) (s : NodeState env) :
    (messages ((deliverReassembled p d).trace s)).length ≤ 1 := by
  unfold deliverReassembled
  rw [trace_ite, trace_ite]
  split_ifs
  · exact Nat.zero_le 1
  · exact Nat.zero_le 1
  · exact le_rfl

theorem messages_forward (s : NodeState env) : messages ((forward p clock).trace s) = [] := by
  unfold forward
  rw [trace_bind, trace_get, value_get, post_get, List.nil_append]
  cases s.table.findNextHop p.header.dest clock.time with
  | none => rfl
  | some route =>
    dsimp only
    rw [trace_ite]
    split_ifs <;> rfl

theorem length_messages_deliverSingle (d : List UInt8) (s : NodeState env) :
    (messages ((deliverSingle p clock d).trace s)).length ≤ 1 := by
  unfold deliverSingle
  rw [trace_ite, trace_ite]
  split_ifs
  · exact Nat.zero_le 1
  · rw [messages_forward]
    exact Nat.zero_le 1
  · exact le_rfl

/-- A packet delivers at most one message, and a fragment only when it completes one. -/
theorem messages_handlePacket_le (p : Packet) (clock : Clock) (s : NodeState env) :
    (messages ((handlePacket p clock).trace s)).length ≤ 1 ∧
      (messages ((handlePacket p clock).trace s) ≠ [] → p.header.source ≠ env.myMac ∧
        p.header.type = .data ∧
          (p.IsFragment → ((reassembleCall p clock).run s.fragMgr).complete = true)) := by
  by_cases own : p.header.source = env.myMac
  · rw [handlePacket, if_pos own]
    exact ⟨Nat.zero_le 1, fun some' => absurd rfl some'⟩
  obtain ⟨s', mgr, same, -⟩ := handlePacket_eq clock s own
  rw [same, ← mgr, handleData, trace_ite, trace_ite]
  split_ifs with data frag
  · cases done : ((reassembleCall p clock).run s'.fragMgr).complete with
    | true =>
      rw [handleFragment_of_complete done]
      exact ⟨length_messages_decryptThen length_messages_deliverReassembled,
        fun _ => ⟨own, data, fun _ => rfl⟩⟩
    | false =>
      rw [(handleFragment_of_incomplete done).1]
      exact ⟨Nat.zero_le 1, fun some' => absurd rfl some'⟩
  · exact ⟨length_messages_decryptThen length_messages_deliverSingle,
      fun _ => ⟨own, data, fun frag' => absurd frag' frag⟩⟩
  · exact ⟨Nat.zero_le 1, fun some' => absurd rfl some'⟩

end OnePacket

/-! ## What a message is delivered as -/

/-- The packet bears the source and the sequence number of one of the packets. -/
def Bears (packets : List Packet) (p : Packet) : Prop :=
  ∃ q ∈ packets, p.header.source = q.header.source ∧ p.header.sequenceId = q.header.sequenceId

instance (packets : List Packet) (p : Packet) : Decidable (Bears packets p) := by
  unfold Bears
  infer_instance

/-- What the step delivers, if it handles a packet with the source and a sequence number of the
message. -/
def NodeStep.receives (packets : List Packet) (s : NodeState env) : NodeStep → List (Mac × Str)
  | .network (.packet p clock) =>
    if Bears packets p then (NodeStep.network (.packet p clock)).deliveries s else []
  | _ => []

/-- The MESSAGE RECEIVED events that a message causes in a run. -/
def receivedOf (packets : List Packet) : NodeState env → List NodeStep → List (Mac × Str)
  | _, [] => []
  | s, step :: steps => step.receives packets s ++ receivedOf packets (step.action.post s) steps

theorem length_receives (packets : List Packet) (step : NodeStep) (s : NodeState env) :
    (step.receives packets s).length ≤ 1 := by
  unfold NodeStep.receives
  split
  · split_ifs
    · unfold NodeStep.deliveries
      rw [List.length_map]
      exact (messages_handlePacket_le _ _ s).1
    · exact Nat.zero_le 1
  · exact Nat.zero_le 1

theorem exists_receives {packets : List Packet} {s : NodeState env} {steps : List NodeStep}
    (once : receivedOf packets s steps ≠ []) :
    ∃ pre step post, steps = pre ++ step :: post ∧ step.receives packets (stateAfter s pre) ≠ [] := by
  induction steps generalizing s with
  | nil => exact absurd rfl once
  | cons step steps ih =>
    by_cases here : step.receives packets s = []
    · rw [receivedOf, here] at once
      obtain ⟨pre, step', post, rfl, later⟩ := ih once
      exact ⟨step :: pre, step', post, rfl, later⟩
    · exact ⟨[], step, steps, rfl, here⟩

theorem exists_receives_twice {packets : List Packet} {s : NodeState env} {steps : List NodeStep}
    (twice : 1 < (receivedOf packets s steps).length) :
    ∃ pre step mid step' post, steps = pre ++ step :: (mid ++ step' :: post) ∧
      step.receives packets (stateAfter s pre) ≠ [] ∧
      step'.receives packets (stateAfter s (pre ++ step :: mid)) ≠ [] := by
  induction steps generalizing s with
  | nil => exact absurd twice (Nat.not_lt_zero 1)
  | cons step steps ih =>
    have one := length_receives packets step s
    rw [receivedOf, List.length_append] at twice
    by_cases here : step.receives packets s = []
    · rw [here, List.length_nil, Nat.zero_add] at twice
      obtain ⟨pre, step₁, mid, step₂, post, rfl, first, second⟩ := ih twice
      exact ⟨step :: pre, step₁, mid, step₂, post, rfl, first, second⟩
    · have later : receivedOf packets (step.action.post s) steps ≠ [] := by
        apply List.ne_nil_of_length_pos
        omega
      obtain ⟨mid, step', post, rfl, second⟩ := exists_receives later
      exact ⟨[], step, mid, step', post, rfl, here, second⟩

/-! ## When a message arrives -/

/-- Every packet of the message arrives. -/
def AllArrive (packets : List Packet) (steps : List NodeStep) : Prop :=
  ∀ q ∈ packets, ∃ p clock, .network (.packet p clock) ∈ steps ∧ p.CopyOf q

/-- What the network and the other nodes do to a message. -/
structure Regular (env : NodeEnv) (queueFile : Option (List UInt8)) (packets : List Packet)
    (steps : List NodeStep) : Prop where
  /-- A packet with the source and a sequence number of the message is one of its packets. -/
  genuine : ∀ p clock, .network (.packet p clock) ∈ steps → Bears packets p →
    ∃ q ∈ packets, p.CopyOf q
  /-- When all of its packets have arrived, not all of them arrive again. -/
  notAgain : ∀ pre post, steps = pre ++ post → AllArrive packets pre → ¬ AllArrive packets post
  /-- When one of its fragments completes an entry, this holds no fragments of other messages. -/
  apart : ∀ pre p clock post, steps = pre ++ .network (.packet p clock) :: post →
    Bears packets p → p.IsFragment →
    Completes (stateAfter (NodeState.start env queueFile) pre).fragMgr p →
      ∀ c ∈ counted (fragOpsOf (NodeState.start env queueFile) pre) (reassembleCall p clock),
        ∃ q ∈ packets, c.frag.CopyOf q

theorem Packet.CopyOf.fragHeader_eq {p q : Packet} (h : p.CopyOf q) : p.fragHeader = q.fragHeader := by
  obtain ⟨ttl, rfl⟩ := h
  rfl

theorem Packet.CopyOf.isFragment_iff {p q : Packet} (h : p.CopyOf q) : p.IsFragment ↔ q.IsFragment := by
  obtain ⟨ttl, rfl⟩ := h
  exact Iff.rfl

theorem Sending.Fragmented.forall_mem_counted {m : Sending} (h : m.Fragmented) {ops : List FragOp}
    {c : FragCall} (own : ∀ c' ∈ counted ops c, ∃ q ∈ m.packets, c'.frag.CopyOf q)
    (complete : (c.run (after ops)).complete = true) :
    ∀ q ∈ m.packets, ∃ c' ∈ counted ops c, c'.frag.CopyOf q := by
  have header (c' : FragCall) (hc' : c' ∈ counted ops c) : ∃ j < m.total, c'.frag.CopyOf (m.nth j) ∧
      c'.frag.fragHeader.fragIndex.toNat = j ∧ c'.fragTotal = m.total := by
    obtain ⟨q, hq, copy⟩ := own c' hc'
    obtain ⟨j, hj, rfl⟩ := (h.mem_packets_iff q).1 hq
    rw [FragCall.fragTotal, copy.fragHeader_eq, fragHeader_nth]
    exact ⟨j, hj, copy, h.toNat_index hj, h.toNat_fragTotal⟩
  obtain ⟨-, -, -, -, total⟩ := header c (List.mem_append_right _ (List.mem_singleton_self c))
  have frag := FragCall.isFragment_of_complete complete
  have lt : ∀ i ∈ indices (counted ops c), i < m.total := by
    intro i hi
    obtain ⟨c', hc', rfl⟩ := (mem_indices _ _).1 hi
    obtain ⟨j, hj, -, index, -⟩ := header c' hc'
    rwa [index]
  have all := (card_eq_iff_of_lt lt).1 ((card_of_complete frag complete).trans total)
  intro q hq
  obtain ⟨i, hi, rfl⟩ := (h.mem_packets_iff q).1 hq
  obtain ⟨c', hc', index⟩ := (mem_indices _ _).1 (all i hi)
  obtain ⟨j, -, copy, index', -⟩ := header c' hc'
  obtain rfl := index.symm.trans index'
  exact ⟨c', hc', copy⟩

theorem exists_packet_of_mem_fragOpsOf {c : FragCall} {s : NodeState env} {steps : List NodeStep}
    (mem : .reassemble c ∈ fragOpsOf s steps) :
    ∃ p clock, .network (.packet p clock) ∈ steps ∧ c.frag = p := by
  induction steps generalizing s with
  | nil => exact absurd mem List.not_mem_nil
  | cons step steps ih =>
    rcases List.mem_append.1 mem with here | later
    · unfold NodeStep.fragOps at here
      split at here
      · split_ifs at here
        · obtain rfl := FragOp.reassemble.inj (List.mem_singleton.1 here)
          exact ⟨_, _, List.mem_cons_self, rfl⟩
        · exact absurd here List.not_mem_nil
      · split_ifs at here
        · cases List.mem_singleton.1 here
        · exact absurd here List.not_mem_nil
      · exact absurd here List.not_mem_nil
    · obtain ⟨p, clock, mem', same⟩ := ih later
      exact ⟨p, clock, List.mem_cons_of_mem _ mem', same⟩

theorem AllArrive.append {packets : List Packet} {steps : List NodeStep} (h : AllArrive packets steps)
    (more : List NodeStep) : AllArrive packets (steps ++ more) := by
  intro q hq
  obtain ⟨p, clock, mem, copy⟩ := h q hq
  exact ⟨p, clock, List.mem_append_left _ mem, copy⟩

/-- When all packets count and were called for in a part of the run, they have arrived in that part. -/
theorem allArrive_of_counted {packets : List Packet} {s : NodeState env} {steps : List NodeStep}
    {p : Packet} {clock : Clock} {id : UInt16} {log : List FragCall}
    (called : ∀ c ∈ log, c ∈ callsFor id (fragOpsOf s steps))
    (count : ∀ q ∈ packets, ∃ c ∈ log ++ [reassembleCall p clock], c.frag.CopyOf q) :
    AllArrive packets (steps ++ [.network (.packet p clock)]) := by
  intro q hq
  obtain ⟨c, hc, copy⟩ := count q hq
  rcases List.mem_append.1 hc with before | last
  · obtain ⟨p', clock', mem, same⟩ :=
      exists_packet_of_mem_fragOpsOf (mem_callsFor.1 (called c before)).1
    exact ⟨p', clock', List.mem_append_left _ mem, same ▸ copy⟩
  · obtain rfl := List.mem_singleton.1 last
    exact ⟨p, clock, List.mem_append_right _ (List.mem_singleton_self _), copy⟩

theorem exists_packet_of_receives {packets : List Packet} {step : NodeStep} {s : NodeState env}
    (some' : step.receives packets s ≠ []) :
    ∃ p clock, step = .network (.packet p clock) ∧ Bears packets p ∧
      p.header.source ≠ env.myMac ∧ p.header.type = .data ∧
        (p.IsFragment → ((reassembleCall p clock).run s.fragMgr).complete = true) := by
  unfold NodeStep.receives at some'
  split at some'
  · rename_i p clock
    split_ifs at some' with bears
    · have delivers : messages ((handlePacket p clock).trace s) ≠ [] := mt List.map_eq_nil_iff.2 some'
      exact ⟨p, clock, rfl, bears, (messages_handlePacket_le p clock s).2 delivers⟩
    · exact absurd rfl some'
  · exact absurd rfl some'

section Message

variable {m : Sending} {queueFile : Option (List UInt8)} {steps : List NodeStep}

/-- A fragment that completes its message after a part of the run. -/
theorem Regular.complete (h : m.Fragmented) (regular : Regular env queueFile m.packets steps)
    {pre post : List NodeStep} {p : Packet} {clock : Clock}
    (split : steps = pre ++ .network (.packet p clock) :: post) (bears : Bears m.packets p)
    (completes : p.IsFragment → ((reassembleCall p clock).run
      (stateAfter (NodeState.start env queueFile) pre).fragMgr).complete = true) :
    p.IsFragment ∧ (reassembleCall p clock).msgId = m.msgId ∧
      ((reassembleCall p clock).run
        (after (fragOpsOf (NodeState.start env queueFile) pre))).complete = true ∧
      ∀ q ∈ m.packets, ∃ c ∈ counted (fragOpsOf (NodeState.start env queueFile) pre)
        (reassembleCall p clock), c.frag.CopyOf q := by
  have mem : .network (.packet p clock) ∈ steps := by
    rw [split]
    exact List.mem_append_right _ List.mem_cons_self
  obtain ⟨q, hq, copy⟩ := regular.genuine p clock mem bears
  have frag : p.IsFragment := copy.isFragment_iff.2 (h.isFragment_of_mem hq)
  have id : (reassembleCall p clock).msgId = m.msgId := by
    obtain ⟨i, -, rfl⟩ := (h.mem_packets_iff q).1 hq
    show p.fragHeader.msgId = _
    rw [copy.fragHeader_eq, Sending.fragHeader_nth]
  have entries : (stateAfter (NodeState.start env queueFile) pre).fragMgr.partials =
      (after (fragOpsOf (NodeState.start env queueFile) pre)).partials := partials_stateAfter pre rfl
  have complete : ((reassembleCall p clock).run
      (after (fragOpsOf (NodeState.start env queueFile) pre))).complete = true := by
    rw [← completes frag]
    exact ((reassembleCall p clock).run_congr (by rw [entries])).1
  exact ⟨frag, id, complete,
    h.forall_mem_counted (regular.apart pre p clock post split bears frag
      ((complete_reassembleCall_iff clock frag _).1 (completes frag))) complete⟩

theorem allArrive_of_single (one : m.data.length ≤ maxFragPayload) {p : Packet} {clock : Clock}
    (mem : .network (.packet p clock) ∈ steps) (own : ∃ q ∈ m.packets, p.CopyOf q) :
    AllArrive m.packets steps := by
  rw [Sending.packets, FragmentManager.fragmentMessage, if_pos one] at own ⊢
  obtain ⟨q, hq, copy⟩ := own
  intro q' hq'
  rw [List.mem_singleton.1 hq', ← List.mem_singleton.1 hq]
  exact ⟨p, clock, mem, copy⟩

theorem Regular.length_receivedOf (fits : m.data.length ≤ 65535)
    (regular : Regular env queueFile m.packets steps) :
    (receivedOf m.packets (NodeState.start env queueFile) steps).length ≤ 1 := by
  by_contra twice
  obtain ⟨pre, step, mid, step', post, split, first, second⟩ :=
    exists_receives_twice (not_le.1 twice)
  obtain ⟨p, clock, rfl, bears, other, data, completes⟩ := exists_packet_of_receives first
  obtain ⟨p', clock', rfl, bears', -, -, completes'⟩ := exists_packet_of_receives second
  have whole : steps = (pre ++ [.network (.packet p clock)]) ++
      (mid ++ .network (.packet p' clock') :: post) := by
    rw [split, List.append_assoc]
    rfl
  have split' : steps = (pre ++ .network (.packet p clock) :: mid) ++
      .network (.packet p' clock') :: post := by
    rw [split, List.append_assoc]
    rfl
  by_cases one : m.data.length ≤ maxFragPayload
  · have here : .network (.packet p clock) ∈ pre ++ [.network (.packet p clock)] :=
      List.mem_append_right _ (List.mem_singleton_self _)
    have later : .network (.packet p' clock') ∈ mid ++ .network (.packet p' clock') :: post :=
      List.mem_append_right _ List.mem_cons_self
    refine regular.notAgain _ _ whole
      (allArrive_of_single one here (regular.genuine p clock ?_ bears))
      (allArrive_of_single one later (regular.genuine p' clock' ?_ bears'))
    · rw [whole]
      exact List.mem_append_left _ here
    · rw [whole]
      exact List.mem_append_right _ later
  · have h : m.Fragmented := ⟨not_le.1 one, fits⟩
    obtain ⟨frag, id, complete, all⟩ := regular.complete h split bears completes
    obtain ⟨-, id', -, all'⟩ := regular.complete h split' bears' completes'
    set start := NodeState.start env queueFile
    have arrived : AllArrive m.packets (pre ++ [.network (.packet p clock)]) :=
      allArrive_of_counted (fun _ => mem_callsFor_of_mem_sinceCreated) all
    have made : fragOpsOf start (pre ++ [.network (.packet p clock)]) =
        fragOpsOf start pre ++ [.reassemble (reassembleCall p clock)] := by
      rw [fragOpsOf_append, fragOpsOf, fragOpsOf, List.append_nil, NodeStep.fragOps,
        if_pos ⟨other, data, frag⟩]
    have anew : sinceCreated (reassembleCall p' clock').msgId
        (fragOpsOf start (pre ++ [.network (.packet p clock)])) = [] := by
      rw [made, id', ← id]
      exact sinceCreated_of_complete complete
    have since (c : FragCall) (hc : c ∈ sinceCreated (reassembleCall p' clock').msgId
        (fragOpsOf start (pre ++ .network (.packet p clock) :: mid))) :
        c ∈ callsFor (reassembleCall p' clock').msgId
          (fragOpsOf (stateAfter start (pre ++ [.network (.packet p clock)])) mid) := by
      rw [List.append_cons, fragOpsOf_append] at hc
      rcases mem_sinceCreated_append hc with before | later
      · rw [anew] at before
        exact absurd before List.not_mem_nil
      · exact later
    have again : AllArrive m.packets (mid ++ [.network (.packet p' clock')]) :=
      allArrive_of_counted since all'
    refine regular.notAgain _ _ whole arrived ?_
    rw [List.append_cons]
    exact again.append post

end Message

end Run

/-! ## Messages of one packet -/

/-- The step handles a packet with the source and a sequence number of the message. -/
def NodeStep.brings (packets : List Packet) : NodeStep → Bool
  | .network (.packet p _) => Bears packets p
  | _ => false

section Single

variable {a b : NodeEnv} {message : Str} {built : Clock} {t : NodeState a} {packet : Packet}

theorem decryptPayload_single (shared : a.baseKey = b.baseKey)
    (sent : (prepareMessage b.myMac message built).value t = some [packet]) :
    decryptPayload packet.body 1024 (b.cipher a.myMac) = .ok message := by
  obtain ⟨encrypted, made, some', only⟩ := exists_encrypted sent
  obtain ⟨short, len, -, dec⟩ := facts_of_encryptPayload made some'
  unfold paddedLength at len
  set m := sendingOf t b.myMac encrypted
  have data : m.data = encrypted := rfl
  have count := Sending.length_packets (s := m) (by rw [data]; omega)
  have one : m.data.length ≤ maxFragPayload := by
    rw [only, List.length_singleton, Sending.total] at count
    unfold maxFragPayload
    omega
  rw [Sending.packets, FragmentManager.fragmentMessage, if_pos one] at only
  rw [← List.singleton_inj.1 only, Packet.body_fill _ _ (one.trans (by decide)), data,
    ← cipher_comm shared]
  exact dec 1024 (by omega)

/-- Every copy of the packet that is handled delivers the message. -/
theorem messages_copy (distinct : a.myMac ≠ b.myMac) (shared : a.baseKey = b.baseKey)
    (some' : message ≠ []) (recognized : (generateIv built.steady).get 3 ≤ 1)
    (sent : (prepareMessage b.myMac message built).value t = some [packet]) {p : Packet}
    (copy : p.CopyOf packet) (clock : Clock) (s : NodeState b) :
    messages ((handlePacket p clock).trace s) = [(macToString a.myMac, message)] := by
  obtain ⟨src, dst, type, frag, -⟩ := exists_single sent
  have dec := decryptPayload_single shared sent
  have single : ¬ p.IsFragment := fun h =>
    UInt8.not_lt.2 recognized (frag.1 (copy.isFragment_iff.1 h))
  obtain ⟨ttl, rfl⟩ := copy
  rw [← src] at dec ⊢
  exact messages_handlePacket_of_single (p := packet.withTtl ttl) (src.trans_ne distinct) type dst
    single dec some'

/-- In every run, a message of one packet that is not taken for a fragment is delivered as often as its
packet is handled. -/
theorem length_receivedOf_single (distinct : a.myMac ≠ b.myMac) (shared : a.baseKey = b.baseKey)
    (some' : message ≠ []) (recognized : (generateIv built.steady).get 3 ≤ 1)
    (sent : (prepareMessage b.myMac message built).value t = some [packet]) (steps : List NodeStep)
    (genuine : ∀ p clock, .network (.packet p clock) ∈ steps → Bears [packet] p → p.CopyOf packet)
    (s : NodeState b) :
    (receivedOf [packet] s steps).length = steps.countP (NodeStep.brings [packet]) := by
  induction steps generalizing s with
  | nil => rfl
  | cons step steps ih =>
    have rest := ih (fun p clock mem => genuine p clock (List.mem_cons_of_mem _ mem))
      (step.action.post s)
    rw [receivedOf, List.length_append, rest, List.countP_cons, Nat.add_comm]
    refine congrArg _ ?_
    unfold NodeStep.receives NodeStep.brings
    split
    · rename_i p clock
      by_cases bears : Bears [packet] p
      · have copy := genuine p clock List.mem_cons_self bears
        rw [if_pos bears, NodeStep.deliveries, List.length_map,
          messages_copy distinct shared some' recognized sent copy]
        simp [bears]
      · simp [bears]
    · rfl

end Single

/-! ## At most once -/

/-- In every run of a node in which the packets of a message do not all arrive a second time, it is
delivered at most once. -/
theorem receivedOf_atMostOnce {sender : NodeEnv} {t : NodeState sender} {destMac : Mac} {message : Str}
    {built : Clock} {packets : List Packet}
    (sent : (prepareMessage destMac message built).value t = some packets) (env : NodeEnv)
    (queueFile : Option (List UInt8)) (steps : List NodeStep)
    (regular : Regular env queueFile packets steps) :
    (receivedOf packets (NodeState.start env queueFile) steps).length ≤ 1 := by
  obtain ⟨encrypted, made, some', rfl⟩ := exists_encrypted sent
  obtain ⟨short, len, -⟩ := facts_of_encryptPayload made some'
  unfold paddedLength at len
  exact regular.length_receivedOf (show encrypted.length ≤ 65535 by omega)

/-- The step handles a packet with the sequence number. -/
def NodeStep.numbered (n : UInt32) : NodeStep → Bool
  | .network (.packet p _) => p.header.sequenceId == n
  | _ => false

/-- A message does not arrive again when one of its packets arrives once at most. -/
theorem notAgain_of_countP {packets : List Packet} {steps : List NodeStep} {q : Packet}
    (hq : q ∈ packets) (once : steps.countP (NodeStep.numbered q.header.sequenceId) ≤ 1)
    (pre post : List NodeStep) (split : steps = pre ++ post) (arrived : AllArrive packets pre) :
    ¬ AllArrive packets post := by
  intro again
  have counted {part : List NodeStep} (all : AllArrive packets part) :
      0 < part.countP (NodeStep.numbered q.header.sequenceId) := by
    obtain ⟨p, clock, mem, ttl, rfl⟩ := all q hq
    exact List.countP_pos_iff.2 ⟨_, mem, beq_self_eq_true _⟩
  have first := counted arrived
  have second := counted again
  rw [split, List.countP_append] at once
  omega

theorem Regular.of_copies {packets : List Packet} {arrivals : List (Packet × Clock)}
    (own : ∀ a ∈ arrivals, ∃ q ∈ packets, a.1.CopyOf q) {q : Packet} (hq : q ∈ packets)
    (once : (arrivals.map fun a => NodeStep.network (.packet a.1 a.2)).countP
      (NodeStep.numbered q.header.sequenceId) ≤ 1)
    (env : NodeEnv) (queueFile : Option (List UInt8)) :
    Regular env queueFile packets (arrivals.map fun a => .network (.packet a.1 a.2)) := by
  have copies {p : Packet} {clock : Clock}
      (mem : NodeStep.network (.packet p clock) ∈
        arrivals.map fun a => NodeStep.network (.packet a.1 a.2)) :
      ∃ q ∈ packets, p.CopyOf q := by
    obtain ⟨a, ha, same⟩ := List.mem_map.1 mem
    cases same
    exact own a ha
  refine ⟨fun p clock mem _ => copies mem, notAgain_of_countP hq once, ?_⟩
  intro pre p clock post split _ _ _ c hc
  rcases List.mem_append.1 hc with before | last
  · obtain ⟨p', clock', mem, same⟩ := exists_packet_of_mem_fragOpsOf
      (mem_callsFor.1 (mem_callsFor_of_mem_sinceCreated before)).1
    exact same ▸ copies (split ▸ List.mem_append_left _ mem)
  · obtain rfl := List.mem_singleton.1 last
    have here : NodeStep.network (.packet p clock) ∈
        arrivals.map fun a => NodeStep.network (.packet a.1 a.2) :=
      split ▸ List.mem_append_right _ List.mem_cons_self
    exact copies here

/-- Of two packets, the second one arrives first, and once more at the end. -/
theorem receivedOf_atMostOnce_reordered :
    ∃ p q, (prepareMessage receiverEnv.myMac longText ⟨0, 0⟩).value
        (NodeState.start senderEnv none) = some [p, q] ∧
      (receivedOf [p, q] (NodeState.start receiverEnv none)
        [.network (.packet q ⟨0, 0⟩), .network (.packet p ⟨0, 1000⟩),
          .network (.packet (q.withTtl 63) ⟨1, 2000⟩)]).length ≤ 1 := by
  have size := length_longText
  obtain ⟨p, q, sent, first, second⟩ := exists_twoPackets (by omega : 464 ≤ longText.length)
    (by omega) receiverEnv.myMac ⟨0, 0⟩ (NodeState.start senderEnv none)
  have zero : p.header.sequenceId = 0 := first
  have one : q.header.sequenceId = 1 := second
  have own : ∀ a ∈ [(q, (⟨0, 0⟩ : Clock)), (p, ⟨0, 1000⟩), (q.withTtl 63, ⟨1, 2000⟩)],
      ∃ r ∈ [p, q], a.1.CopyOf r := by
    intro a ha
    simp only [List.mem_cons, List.not_mem_nil, or_false] at ha
    obtain rfl | rfl | rfl := ha
    · exact ⟨q, by simp, q.header.ttl, rfl⟩
    · exact ⟨p, by simp, p.header.ttl, rfl⟩
    · exact ⟨q, by simp, 63, rfl⟩
  have once : (List.map (fun a : Packet × Clock => NodeStep.network (.packet a.1 a.2))
      [(q, ⟨0, 0⟩), (p, ⟨0, 1000⟩), (q.withTtl 63, ⟨1, 2000⟩)]).countP
        (NodeStep.numbered p.header.sequenceId) ≤ 1 := by
    simp [NodeStep.numbered, Packet.withTtl, zero, one]
  exact ⟨p, q, sent, receivedOf_atMostOnce sent receiverEnv none _
    (.of_copies own List.mem_cons_self once _ _)⟩

/-- Handled twice, the same packet is reported twice. -/
theorem duplicate_is_received_again :
    ∃ packet, (prepareMessage receiverEnv.myMac (text "hi") ⟨0, 0⟩).value
        (NodeState.start senderEnv none) = some [packet] ∧
      ¬ (receivedOf [packet] (NodeState.start receiverEnv none)
        [.network (.packet packet ⟨0, 0⟩), .network (.packet packet ⟨0, 0⟩)]).length ≤ 1 := by
  obtain ⟨packet, sent⟩ := exists_packet (by decide : (text "hi").length ≤ 463) receiverEnv.myMac
    ⟨0, 0⟩ (NodeState.start senderEnv none)
  have distinct : senderEnv.myMac ≠ receiverEnv.myMac := by decide
  have some' : text "hi" ≠ [] := by decide
  have recognized : (generateIv (Clock.mk 0 0).steady).get 3 ≤ 1 := by decide
  have genuine (p : Packet) (clock : Clock) (mem : .network (.packet p clock) ∈
      [NodeStep.network (.packet packet ⟨0, 0⟩), .network (.packet packet ⟨0, 0⟩)])
      (_ : Bears [packet] p) : p.CopyOf packet := by
    rcases List.mem_pair.1 mem with same | same
    · cases same
      exact ⟨packet.header.ttl, rfl⟩
    · cases same
      exact ⟨packet.header.ttl, rfl⟩
  have bears : Bears [packet] packet := ⟨packet, List.mem_singleton_self _, rfl, rfl⟩
  have twice := length_receivedOf_single distinct rfl some' recognized sent _ genuine
    (NodeState.start receiverEnv none)
  refine ⟨packet, sent, ?_⟩
  rw [twice]
  simp [NodeStep.brings, bears]

end Araba
