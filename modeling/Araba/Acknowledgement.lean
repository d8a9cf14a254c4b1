import Araba.Delivery

/-!
# Acknowledgements

The ACK that a delivered message is answered with, and what an ACK does at the node that handles it.
The first carries the sequence number of the packet that completed the message; the second removes
the pending message whose key it carries, and keys are counted apart from sequence numbers.
-/

namespace Araba

open Bytes Traced

variable {env : NodeEnv}

/-! ## What an ACK does -/

/-- The number that the ACK branch reads. -/
def Packet.ackedSeq (p : Packet) : UInt32 := UInt32.ofNat (leNat (slice p.payload 0 4))

/-- The packet is an ACK that carries `key`. -/
def Packet.Acks (p : Packet) (key : UInt32) : Prop :=
  p.header.type = .ack ∧ 4 ≤ p.header.payloadLen.toNat ∧ p.ackedSeq = key

instance (p : Packet) (key : UInt32) : Decidable (p.Acks key) := by
  unfold Packet.Acks
  infer_instance

/-- Whoever sent it and whoever it is for, an ACK removes the entry of the key that it carries, and
no other packet removes any. -/
theorem pendingAcks_handlePacket {received : Packet} (clock : Clock) (s : NodeState env)
    (other : received.header.source ≠ env.myMac) (key : UInt32) :
    ((handlePacket received clock).post s).pendingAcks[key]? =
      if received.Acks key then none else s.pendingAcks[key]? := by
  have keeps : ((handleRouteAdv received clock).post ((handleDiscovery received).post
      ((autoDeliver received).post ((learnNeighbor received clock).post s)))).pendingAcks =
        s.pendingAcks := by
    rw [(leaves_handleRouteAdv (f := NodeState.pendingAcks) fun _ _ => rfl).post,
      (leaves_handleDiscovery (f := NodeState.pendingAcks) fun _ _ => rfl).post,
      (leaves_autoDeliver (f := NodeState.pendingAcks) fun _ _ _ => rfl).post,
      (leaves_learnNeighbor (f := NodeState.pendingAcks) fun _ _ _ => rfl).post]
  rw [post_handlePacket_parts other,
    (leaves_handleData (f := NodeState.pendingAcks) fun _ _ _ => rfl).post]
  generalize (handleRouteAdv received clock).post _ = s₄ at keeps
  unfold handleAck
  by_cases ack : received.header.type = .ack ∧ 4 ≤ received.header.payloadLen.toNat
  · have same : received.Acks key ↔ received.ackedSeq = key := by
      rw [Packet.Acks, ← and_assoc, and_iff_right ack]
    rw [if_pos ack, post_bind, post_get, value_get, post_ite, ← keeps]
    by_cases pending : s₄.pendingAcks.contains received.ackedSeq
    · refine (congrArg (fun s : NodeState env => s.pendingAcks[key]?) (if_pos pending)).trans ?_
      show (s₄.pendingAcks.erase received.ackedSeq)[key]? = _
      simp only [Std.ExtTreeMap.getElem?_erase, Std.LawfulEqCmp.compare_eq_iff_eq, same]
    · refine (congrArg (fun s : NodeState env => s.pendingAcks[key]?) (if_neg pending)).trans ?_
      split_ifs with mine
      · rw [same.1 mine, Std.ExtTreeMap.contains_eq_isSome_getElem?, Bool.not_eq_true,
          Option.isSome_eq_false_iff, Option.isNone_iff_eq_none] at pending
        exact pending
      · rfl
  · rw [if_neg ack, if_neg fun h => ack ⟨h.1, h.2.1⟩, ← keeps]
    rfl

theorem mem_pendingAcks_handlePacket {received : Packet} (clock : Clock) (s : NodeState env)
    (other : received.header.source ≠ env.myMac) (key : UInt32) :
    key ∈ ((handlePacket received clock).post s).pendingAcks ↔
      ¬ received.Acks key ∧ key ∈ s.pendingAcks := by
  rw [Std.ExtTreeMap.mem_iff_isSome_getElem?, pendingAcks_handlePacket clock s other,
    Std.ExtTreeMap.mem_iff_isSome_getElem?]
  split_ifs with mine
  · exact iff_of_false Bool.false_ne_true fun h => h.1 mine
  · exact (and_iff_right mine).symm

/-! ## The ACKs that are sent -/

/-- The ACKs of a trace, with their link destinations. -/
def acks (es : List Effect) : List (Packet × Mac) :=
  es.filterMap fun
    | .send packet link => if packet.header.type = .ack then some (packet, link) else none
    | _ => none

@[simp] theorem acks_append (es fs : List Effect) : acks (es ++ fs) = acks es ++ acks fs := by
  simp [acks]

theorem acks_of_quiet {es : List Effect} (h : ∀ e ∈ es, e.Quiet) : acks es = [] := by
  rw [acks, List.filterMap_eq_nil_iff]
  intro e he
  cases e with
  | send packet link => exact if_neg (h _ he)
  | _ => rfl

/-- What `send_ack` sends to answer a packet. -/
def ackFor (env : NodeEnv) (received : Packet) : Packet :=
  (Packet.init .ack env.myMac received.header.source received.header.sequenceId).fill
    (leBytes 4 received.header.sequenceId.toNat)

/-- Every message delivered is answered with an ACK to its source, and nothing else is. -/
def Answered (env : NodeEnv) (received : Packet) (es : List Effect) : Prop :=
  acks es = (messages es).map fun _ => (ackFor env received, received.header.source)

section Answered

variable {received : Packet} {clock : Clock} {s : NodeState env}

theorem Answered.append {es fs : List Effect} (h₁ : Answered env received es)
    (h₂ : Answered env received fs) : Answered env received (es ++ fs) := by
  rw [Answered, acks_append, messages_append, List.map_append, h₁, h₂]

theorem answered_of_quiet {es : List Effect} (h : ∀ e ∈ es, e.Quiet) : Answered env received es := by
  rw [Answered, acks_of_quiet h, messages_of_quiet h, List.map_nil]

theorem answered_decryptThen {encrypted : List UInt8} {maxOut : ℕ}
    {next : List UInt8 → Action env Unit}
    (h : ∀ d s, Answered env received ((next d).trace s)) :
    Answered env received ((decryptThen received encrypted maxOut next).trace s) := by
  rw [decryptThen, trace_bind]
  refine Answered.append rfl ?_
  cases decryptPayload encrypted maxOut (value (getPairCipher received.header.source) s) with
  | error e => exact rfl
  | ok d => exact h d _

theorem answered_deliverReassembled (d : List UInt8) (s : NodeState env) :
    Answered env received ((deliverReassembled received d).trace s) := by
  rw [deliverReassembled, trace_ite, trace_ite]
  split_ifs
  · rfl
  · rfl
  · rfl

theorem answered_deliverSingle (data : received.header.type = .data) (d : List UInt8)
    (s : NodeState env) : Answered env received ((deliverSingle received clock d).trace s) := by
  have notAck : received.header.type ≠ .ack := data ▸ by decide
  rw [deliverSingle, trace_ite, trace_ite]
  split_ifs
  · rfl
  · rw [forward, trace_bind, value_get]
    refine Answered.append rfl ?_
    cases s.table.findNextHop received.header.dest clock.time with
    | none => rfl
    | some route =>
      show Answered env received (trace (if _ then _ else _) _)
      rw [trace_ite]
      split_ifs
      · refine answered_of_quiet fun e he => ?_
        rcases List.mem_cons.1 he with rfl | he
        · exact notAck
        · rw [List.mem_singleton.1 he]
          trivial
      · rfl
  · rfl

theorem answered_handleData (s : NodeState env) :
    Answered env received ((handleData received clock).trace s) := by
  rw [handleData, trace_ite, trace_ite]
  split_ifs with data frag
  · cases done : ((reassembleCall received clock).run s.fragMgr).complete with
    | true =>
      rw [handleFragment_of_complete done]
      exact answered_decryptThen answered_deliverReassembled
    | false =>
      rw [(handleFragment_of_incomplete done).1]
      rfl
  · exact answered_decryptThen fun d s => answered_deliverSingle data d s
  · rfl

theorem answered_handlePacket (received : Packet) (clock : Clock) (s : NodeState env) :
    Answered env received ((handlePacket received clock).trace s) := by
  by_cases own : received.header.source = env.myMac
  · rw [handlePacket, if_pos own]
    rfl
  · rw [trace_handlePacket own]
    have quiet := (handleControl_quiet received clock s s rfl).2
    exact .append rfl (.append (answered_of_quiet quiet) (.append (answered_handleData _) rfl))

end Answered

theorem acks_ackFor_iff (received : Packet) (key : UInt32) :
    (ackFor env received).Acks key ↔ received.header.sequenceId = key := by
  have four : (leBytes 4 received.header.sequenceId.toNat).length = 4 := length_leBytes ..
  have len : (ackFor env received).header.payloadLen.toNat = 4 := by
    rw [ackFor, Packet.payloadLen_fill _ _ (by omega), four]
  have body : (ackFor env received).body = leBytes 4 received.header.sequenceId.toNat :=
    Packet.body_fill _ _ (by omega)
  have number : (ackFor env received).ackedSeq = received.header.sequenceId := by
    rw [Packet.body, len] at body
    have lt : received.header.sequenceId.toNat < 256 ^ 4 := received.header.sequenceId.toNat_lt
    rw [Packet.ackedSeq, body, leNat_leBytes_of_lt lt, UInt32.ofNat_toNat]
  rw [Packet.Acks, len, number, and_iff_right (show (ackFor env received).header.type = .ack from rfl),
    and_iff_right (le_refl 4)]

/-! ## From one node to the other and back -/

section BetweenNodes

variable {a b : NodeEnv} (distinct : a.myMac ≠ b.myMac) (shared : a.baseKey = b.baseKey)
  {message : List UInt8} (pos : 1 ≤ message.length) (short : message.length ≤ 1007) (clock : Clock)
  (s₀ : NodeState a)

include distinct shared pos short in
/-- Packet `j` of a message completes it at the addressee, after whatever packets came before. The
ACK that answers it removes the pending message from the sender exactly when the message's key is the
sequence number at the start of the message plus `j`. -/
theorem acknowledged_iff :
    ∃ packets, (prepareMessage b.myMac message clock).value s₀ = some packets ∧
      ∀ (j : ℕ) (last ack : Packet) (link : Mac) (pre : List (Packet × Clock)) (t : NodeState b)
        (at' later : Clock) (s₁ s₂ : NodeState a),
        packets[j]? = some last →
        messages ((handlePacket last at').trace ((deliverAll pre).post t)) =
          [(macToString a.myMac, message)] →
        (ack, link) ∈ acks ((handlePacket last at').trace ((deliverAll pre).post t)) →
        takeAckSeq.value s₁ ∈ s₂.pendingAcks →
        (takeAckSeq.value s₁ ∉ ((handlePacket ack later).post s₂).pendingAcks ↔
          s₀.seqNum + UInt32.ofNat j = s₁.nextAckSeq) := by
  obtain ⟨packets, sent, ⟨encrypted, rfl, -⟩, -⟩ := exists_sent distinct shared pos short clock s₀
  refine ⟨_, sent, fun j last ack link pre t at' later s₁ s₂ nth delivered answer pending => ?_⟩
  have answered := answered_handlePacket last at' ((deliverAll pre).post t)
  rw [Answered, delivered, List.map_singleton] at answered
  rw [answered, List.mem_singleton] at answer
  obtain ⟨rfl, -⟩ := Prod.mk.inj answer
  have other : (ackFor b last).header.source ≠ a.myMac := distinct.symm
  have number : last.header.sequenceId = s₀.seqNum + UInt32.ofNat j :=
    Sending.sequenceId_of_getElem? nth
  rw [mem_pendingAcks_handlePacket later s₂ other, acks_ackFor_iff, number, not_and', not_not]
  exact ⟨fun h => h pending, fun same _ => same⟩

include distinct shared pos in
/-- The one packet of a short message is delivered and answered. -/
theorem exists_answered (single : message.length ≤ 463) (recognized : Recognized message clock) :
    ∃ packet, (prepareMessage b.myMac message clock).value s₀ = some [packet] ∧
      packet.header.sequenceId = s₀.seqNum ∧
      ∀ (t : NodeState b) (later : Clock), t.fragMgr.partials = ∅ →
        messages ((handlePacket packet later).trace t) = [(macToString a.myMac, message)] ∧
          acks ((handlePacket packet later).trace t) = [(ackFor b packet, a.myMac)] := by
  have short : message.length ≤ 1007 := by omega
  obtain ⟨packets, sent, ⟨encrypted, rfl, len⟩, arrive⟩ :=
    exists_sent distinct shared pos short clock s₀
  set s := sendingOf s₀ b.myMac encrypted
  have one : s.data.length ≤ maxFragPayload := by
    rw [paddedLength] at len
    show encrypted.length ≤ 480
    omega
  set p := (Packet.init s.type s.src s.dst s.seqNum).fill s.data
  have only : s.packets = [p] := by
    rw [Sending.packets, FragmentManager.fragmentMessage, if_pos one]
  rw [only] at sent arrive
  refine ⟨p, sent, rfl, fun t later empty => ?_⟩
  have outcome := arrive t [(p, later)] (List.Perm.refl _) fun p _ _ => by
    rw [empty]
    exact Std.ExtTreeMap.getElem?_empty
  rw [if_pos recognized] at outcome
  have delivered := outcome.messages_eq
  rw [deliverAll_cons, show (deliverAll []).trace _ = [] from rfl, List.append_nil] at delivered
  have answered := answered_handlePacket p later t
  rw [Answered, delivered] at answered
  exact ⟨delivered, answered⟩

end BetweenNodes

/-! A fresh node broadcasts some times, sends a message of one packet to another fresh node and
registers it; the other one answers. -/

/-- The state after the broadcasts. -/
def afterHellos (n : ℕ) : NodeState senderEnv :=
  stateAfter (NodeState.start senderEnv none) (List.replicate n (.network .hello))

/-- A moment at which the fourth byte of the initialization vector is 0. -/
def atNoon : Clock := ⟨0, 0⟩

/-- The state after the message has been prepared. -/
def afterPrepare (n : ℕ) : NodeState senderEnv :=
  (prepareMessage receiverEnv.myMac (text "hi") atNoon).post (afterHellos n)

/-- The state after the message has been registered. -/
def afterRegister (n : ℕ) : NodeState senderEnv :=
  (registerAck (takeAckSeq.value (afterPrepare n)) receiverEnv.myMac (text "hi") atNoon).post
    (takeAckSeq.post (afterPrepare n))

theorem takeAckSeq_afterPrepare (n : ℕ) : takeAckSeq.value (afterPrepare n) = 1 := by
  have start : (afterHellos n).nextAckSeq = 1 := by
    rw [afterHellos]
    induction n with
    | zero => rfl
    | succ n ih =>
      rw [List.replicate_succ', stateAfter, List.foldl_append]
      exact ih
  have same : (afterPrepare n).nextAckSeq = (afterHellos n).nextAckSeq :=
    leaves_prepareMessage (fun _ _ _ _ => rfl) (afterHellos n)
  exact same.trans start

theorem mem_afterRegister (n : ℕ) : takeAckSeq.value (afterPrepare n) ∈ (afterRegister n).pendingAcks :=
  Std.ExtTreeMap.mem_insert_self

theorem exists_answered_hi (n : ℕ) :
    ∃ last, (prepareMessage receiverEnv.myMac (text "hi") atNoon).value (afterHellos n) = some [last] ∧
      last.header.sequenceId = (afterHellos n).seqNum ∧
      messages ((handlePacket last atNoon).trace (NodeState.start receiverEnv none)) =
        [(macToString senderEnv.myMac, text "hi")] ∧
      acks ((handlePacket last atNoon).trace (NodeState.start receiverEnv none)) =
        [(ackFor receiverEnv last, senderEnv.myMac)] := by
  have distinct : senderEnv.myMac ≠ receiverEnv.myMac := by decide
  have pos : 1 ≤ (text "hi").length := by decide
  have recognized : Recognized (text "hi") atNoon := by decide
  obtain ⟨last, sent, number, answered⟩ :=
    exists_answered distinct rfl pos atNoon (afterHellos n) (by decide) recognized
  exact ⟨last, sent, number, answered (NodeState.start receiverEnv none) atNoon rfl⟩

/-- After one broadcast the two numbers agree. -/
theorem acknowledged_iff_hi :
    takeAckSeq.value (afterPrepare 1) ∈ (afterRegister 1).pendingAcks ∧
      ∃ last, takeAckSeq.value (afterPrepare 1) ∉
        ((handlePacket (ackFor receiverEnv last) atNoon).post (afterRegister 1)).pendingAcks := by
  have distinct : senderEnv.myMac ≠ receiverEnv.myMac := by decide
  have pos : 1 ≤ (text "hi").length := by decide
  obtain ⟨packets, sent, removed⟩ :=
    acknowledged_iff distinct rfl pos (by decide) atNoon (afterHellos 1)
  obtain ⟨last, sent', -, delivered, answer⟩ := exists_answered_hi 1
  obtain rfl : packets = [last] := Option.some.inj (sent.symm.trans sent')
  refine ⟨mem_afterRegister 1, last, (removed 0 last _ senderEnv.myMac [] _ atNoon atNoon _ _ rfl
    delivered ?_ (mem_afterRegister 1)).2 (takeAckSeq_afterPrepare 1).symm⟩
  show _ ∈ acks ((handlePacket last atNoon).trace (NodeState.start receiverEnv none))
  rw [answer]
  exact List.mem_singleton_self _

/-- After two broadcasts the message has the sequence number 2 and the key 1: it is delivered, it is
answered, and it stays pending. -/
theorem answered_and_still_pending :
    ∃ packets last,
      (prepareMessage receiverEnv.myMac (text "hi") atNoon).value (afterHellos 2) = some packets ∧
        packets[0]? = some last ∧
        messages ((handlePacket last atNoon).trace (NodeState.start receiverEnv none)) =
          [(macToString senderEnv.myMac, text "hi")] ∧
        acks ((handlePacket last atNoon).trace (NodeState.start receiverEnv none)) =
          [(ackFor receiverEnv last, senderEnv.myMac)] ∧
        takeAckSeq.value (afterPrepare 2) ∈
          ((handlePacket (ackFor receiverEnv last) atNoon).post (afterRegister 2)).pendingAcks := by
  obtain ⟨last, sent, number, delivered, answer⟩ := exists_answered_hi 2
  have other : (ackFor receiverEnv last).header.source ≠ senderEnv.myMac :=
    (by decide : receiverEnv.myMac ≠ senderEnv.myMac)
  refine ⟨[last], last, sent, rfl, delivered, answer, ?_⟩
  rw [mem_pendingAcks_handlePacket atNoon (afterRegister 2) other, acks_ackFor_iff, number,
    takeAckSeq_afterPrepare]
  exact ⟨(by decide : (2 : UInt32) ≠ 1), takeAckSeq_afterPrepare 2 ▸ mem_afterRegister 2⟩

/-! ## Transmitted, then registered -/

/-- The steps of the network thread that handle packets. -/
def packetSteps (arrivals : List (Packet × Clock)) : List NodeStep :=
  arrivals.map fun p => .network (.packet p.1 p.2)

/-- Somebody's ACK for `key` is among the packets. -/
def AckArrives (env : NodeEnv) (key : UInt32) (arrivals : List (Packet × Clock)) : Prop :=
  ∃ p ∈ arrivals, p.1.header.source ≠ env.myMac ∧ p.1.Acks key

theorem mem_pendingAcks_packetSteps (arrivals : List (Packet × Clock)) (key : UInt32)
    (s : NodeState env) :
    key ∈ (stateAfter s (packetSteps arrivals)).pendingAcks ↔
      key ∈ s.pendingAcks ∧ ¬ AckArrives env key arrivals := by
  induction arrivals generalizing s with
  | nil => simp [packetSteps, stateAfter, AckArrives]
  | cons p arrivals ih =>
    have first : AckArrives env key (p :: arrivals) ↔
        (p.1.header.source ≠ env.myMac ∧ p.1.Acks key) ∨ AckArrives env key arrivals := by
      simp [AckArrives]
    have step : key ∈ ((handlePacket p.1 p.2).post s).pendingAcks ↔
        key ∈ s.pendingAcks ∧ ¬ (p.1.header.source ≠ env.myMac ∧ p.1.Acks key) := by
      by_cases own : p.1.header.source = env.myMac
      · rw [handlePacket, if_pos own, post_pure]
        exact (and_iff_left fun h => h.1 own).symm
      · rw [mem_pendingAcks_handlePacket p.2 s own, and_iff_right own, and_comm]
    refine (ih ((handlePacket p.1 p.2).post s)).trans ?_
    rw [step, first, not_or, and_assoc]

theorem stateAfter_append (s : NodeState env) (steps steps' : List NodeStep) :
    stateAfter s (steps ++ steps') = stateAfter (stateAfter s steps) steps' :=
  List.foldl_append

/-- The network thread handles `between` when the last packet of a message has been transmitted and
`later` when the message has been registered. The message is not pending in the end exactly when its
ACK is among the latter. -/
theorem not_pending_iff (start : NodeState env) (before : List NodeStep) (destMac : Mac)
    (pkt : Packet) (between later : List (Packet × Clock)) (key : UInt32) (message : Str)
    (clock : Clock) :
    key ∉ (stateAfter start (before ++ [.main (.transmitPacket destMac pkt)] ++ packetSteps between ++
        [.main (.registerAck key destMac message clock)] ++ packetSteps later)).pendingAcks ↔
      AckArrives env key later := by
  rw [stateAfter_append, mem_pendingAcks_packetSteps, stateAfter_append]
  have registered (s : NodeState env) :
      key ∈ (stateAfter s [.main (.registerAck key destMac message clock)]).pendingAcks :=
    Std.ExtTreeMap.mem_insert_self
  rw [and_iff_right (registered _), not_not]

/-- A packet with the sequence number 1. -/
def firstPacket : Packet := Packet.init .data senderEnv.myMac receiverEnv.myMac 1

/-- The ACK for the key 1, handled between the two sections, leaves the message pending. -/
theorem early_ack_is_lost :
    AckArrives senderEnv 1 [(ackFor receiverEnv firstPacket, atNoon)] ∧
      1 ∈ (stateAfter (afterHellos 1)
        ([.main (.transmitPacket receiverEnv.myMac firstPacket)] ++
          packetSteps [(ackFor receiverEnv firstPacket, atNoon)] ++
          [.main (.registerAck 1 receiverEnv.myMac (text "hi") atNoon)])).pendingAcks := by
  have number : (ackFor receiverEnv firstPacket).Acks 1 := (acks_ackFor_iff _ _).2 rfl
  have other : receiverEnv.myMac ≠ senderEnv.myMac := by decide
  exact ⟨⟨_, List.mem_singleton_self _, other, number⟩, Std.ExtTreeMap.mem_insert_self⟩

end Araba
