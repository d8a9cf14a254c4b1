import Araba.Lib.Drain
import Araba.NetworkLoop
import Araba.QueueFile

/-!
# Auto-delivery

When a node hears from another one, it sends all that is queued for it, and takes every entry off the
queue when it has called `send_packet`, whatever the call returned.
-/

namespace Araba

open Bytes Traced RueQueue

variable {env : NodeEnv}

/-- The calls of `send_packet` in a trace. -/
def sendCalls (es : List Effect) : List (Packet × Mac) :=
  es.filterMap fun
    | .send packet link => some (packet, link)
    | _ => none

@[simp] theorem sendCalls_append (es fs : List Effect) :
    sendCalls (es ++ fs) = sendCalls es ++ sendCalls fs := by
  simp [sendCalls]

/-- The entry is for the node and is not longer than a payload. -/
def Sendable (mac : Mac) (e : RueEntry) : Bool :=
  e.destMac == mac && decide (e.payloadLen.toNat ≤ maxPayloadSize)

/-- The entries whose payloads are sent when a packet is handled, in the order of the calls. -/
def carried (s : NodeState env) (received : Packet) : List RueEntry :=
  s.queue.getAll.filter (Sendable received.header.source)

/-- The call carries the payload of the entry to its destination. -/
def Carries (call : Packet × Mac) (e : RueEntry) : Prop :=
  call.2 = e.destMac ∧ call.1.header.dest = e.destMac ∧ call.1.header.type = .data ∧
    call.1.header.payloadLen = e.payloadLen ∧
    call.1.body = slice e.payload 0 e.payloadLen.toNat

/-! ## One entry -/

/-- The packet for an entry. -/
def queuedPacket (env : NodeEnv) (seqNum : UInt32) (e : RueEntry) : Packet :=
  let fwd := Packet.init .data env.myMac e.destMac seqNum
  { header := { fwd.header with payloadLen := e.payloadLen }
    payload := memcpy fwd.payload 0 (slice e.payload 0 e.payloadLen.toNat) }

section Entry

variable {e : RueEntry} {s : NodeState env}

theorem deliverEntry_eq (e : RueEntry) (s : NodeState env) :
    (deliverEntry e : Action env Unit) s =
      (if e.payloadLen.toNat > maxPayloadSize then emit .overrun
      else do
        emit (.send (queuedPacket env s.seqNum e) e.destMac)
        modify fun s => { s with queue := (s.queue.removeEntry e).2 } : Action env Unit)
          { s with seqNum := s.seqNum + 1 } :=
  rfl

theorem trace_deliverEntry (e : RueEntry) (s : NodeState env) :
    (deliverEntry e : Action env Unit).trace s =
      if e.payloadLen.toNat > maxPayloadSize then [.overrun]
      else [.send (queuedPacket env s.seqNum e) e.destMac] := by
  refine (congrArg (fun r => r.2.2) (deliverEntry_eq e s)).trans ?_
  split_ifs <;> rfl

theorem deliverEntry_of_long (long : e.payloadLen.toNat > maxPayloadSize) :
    sendCalls ((deliverEntry e).trace s) = [] ∧ ((deliverEntry e).post s).queue = s.queue := by
  have step := deliverEntry_eq e s
  rw [if_pos long] at step
  exact ⟨congrArg (fun r => sendCalls r.2.2) step, congrArg (fun r => r.2.1.queue) step⟩

theorem carries_queuedPacket (short : e.payloadLen.toNat ≤ maxPayloadSize) (seqNum : UInt32) :
    Carries (queuedPacket env seqNum e, e.destMac) e := by
  have size : (slice e.payload 0 e.payloadLen.toNat).length = e.payloadLen.toNat := by
    rw [length_slice]
    rw [maxPayloadSize] at short
    omega
  refine ⟨rfl, rfl, rfl, rfl, ?_⟩
  have read := slice_memcpy_self (Vector.replicate 512 (0 : UInt8)) 0
    (slice e.payload 0 e.payloadLen.toNat) (by rw [size]; rw [maxPayloadSize] at short; omega)
  rw [size] at read
  exact read

theorem deliverEntry_of_short (short : e.payloadLen.toNat ≤ maxPayloadSize) :
    sendCalls ((deliverEntry e).trace s) = [(queuedPacket env s.seqNum e, e.destMac)] ∧
      ((deliverEntry e).post s).queue = (s.queue.removeEntry e).2 := by
  have step := deliverEntry_eq e s
  rw [if_neg (not_lt.2 short)] at step
  exact ⟨congrArg (fun r => sendCalls r.2.2) step, congrArg (fun r => r.2.1.queue) step⟩

end Entry

/-! ## All entries -/

/-- The entries are worked off one by one; those that are too long stay. -/
theorem deliverEntries (mac : Mac) (entries : List RueEntry) (mine : ∀ e ∈ entries, e.destMac = mac)
    (s : NodeState env) :
    List.Forall₂ Carries (sendCalls ((runAll (entries.map deliverEntry)).trace s))
        (entries.filter (Sendable mac)) ∧
      ((runAll (entries.map deliverEntry)).post s).queue.getAll =
        entries.foldl (fun l e => if Sendable mac e then l.eraseP (isTarget e) else l)
          s.queue.getAll := by
  induction entries generalizing s with
  | nil => exact ⟨.nil, rfl⟩
  | cons e entries ih =>
    have own := mine e List.mem_cons_self
    obtain ⟨calls, rest⟩ := ih (fun e he => mine e (List.mem_cons_of_mem _ he))
      ((deliverEntry e).post s)
    have trace : (runAll ((e :: entries).map deliverEntry)).trace s = (deliverEntry e).trace s ++
        (runAll (entries.map deliverEntry)).trace ((deliverEntry e).post s) := rfl
    have post : (runAll ((e :: entries).map deliverEntry)).post s =
        (runAll (entries.map deliverEntry)).post ((deliverEntry e).post s) := rfl
    rw [trace, post, sendCalls_append, rest, List.foldl_cons]
    by_cases short : e.payloadLen.toNat ≤ maxPayloadSize
    · have sendable : Sendable mac e = true := by simp [Sendable, own, short]
      obtain ⟨call, queue⟩ := deliverEntry_of_short (s := s) short
      rw [call, queue, getAll_removeEntry_eq, List.filter_cons_of_pos sendable, if_pos sendable]
      exact ⟨.cons (carries_queuedPacket short _) calls, rfl⟩
    · have kept : ¬ Sendable mac e = true := by simp [Sendable, short]
      obtain ⟨none', queue⟩ := deliverEntry_of_long (s := s) (not_le.1 short)
      rw [none', queue, List.filter_cons_of_neg kept, if_neg kept]
      exact ⟨calls, rfl⟩

/-- What is queued for the source is looked up by the bytes that its text stands for: its own. -/
theorem autoDeliver_eq (received : Packet) (s : NodeState env) :
    (autoDeliver received : Action env Unit) s =
      (if (s.queue.getPending received.header.source).isEmpty then pure () else do
        emit (.log (.autoDelivering (s.queue.getPending received.header.source).length
          (macToString received.header.source)))
        runAll ((s.queue.getPending received.header.source).map deliverEntry) : Action env Unit) s := by
  have back := stringToMac_macToString received.header.source
  show (if (s.queue.getPending (stringToMac (macToString received.header.source))).isEmpty then
    _ else _ : Action env Unit) s = _
  rw [back]
  rfl

theorem trace_autoDeliver (received : Packet) (s : NodeState env) :
    (autoDeliver received).trace s =
      if (s.queue.getPending received.header.source).isEmpty then [] else
        .log (.autoDelivering (s.queue.getPending received.header.source).length
            (macToString received.header.source)) ::
          (runAll ((s.queue.getPending received.header.source).map deliverEntry)).trace s := by
  refine (congrArg (fun r => r.2.2) (autoDeliver_eq received s)).trans ?_
  split_ifs <;> rfl

/-- The loop makes one call for each entry that it carries, in their order, and what is left is the
queue without them. -/
theorem autoDeliver_spec (received : Packet) (s : NodeState env) :
    List.Forall₂ Carries (sendCalls ((autoDeliver received).trace s)) (carried s received) ∧
      ((autoDeliver received).post s).queue.getAll =
        s.queue.getAll.filter fun e => !Sendable received.header.source e := by
  set mac := received.header.source
  set pending := s.queue.getAll.filter fun e => e.destMac == mac with pending_def
  have found : s.queue.getPending mac = pending := getPending_eq_filter s.queue mac
  have mine : ∀ e ∈ pending, e.destMac = mac := fun e he => by
    simpa using (List.mem_filter.1 he).2
  have order : pending.filter (Sendable mac) = s.queue.getAll.filter (Sendable mac) := by
    rw [pending_def, List.filter_filter]
    refine List.filter_congr fun e _ => ?_
    simp only [Sendable, Bool.and_right_comm, Bool.and_self]
  obtain ⟨calls, queue⟩ := deliverEntries mac pending mine s
  have only (e x : RueEntry) (he : Sendable mac e = true) (same : isTarget e x = true) :
      Sendable mac x = true := by
    simp only [Sendable, isTarget, Bool.and_eq_true, beq_iff_eq] at he same ⊢
    rw [same.1.1, same.2]
    exact he
  have left := Drain.foldl_eraseP isTarget only (fun e => by simp [isTarget]) pending
    s.queue.getAll order
  rw [order] at calls
  rw [left] at queue
  have step := autoDeliver_eq received s
  rw [found] at step
  by_cases none' : pending.isEmpty
  · rw [if_pos none'] at step
    rw [List.isEmpty_iff.1 none'] at calls queue
    exact ⟨(congrArg (fun r => sendCalls r.2.2) step).symm ▸ calls,
      (congrArg (fun r => r.2.1.queue.getAll) step).trans queue⟩
  · rw [if_neg none'] at step
    exact ⟨(congrArg (fun r => sendCalls r.2.2) step).symm ▸ calls,
      (congrArg (fun r => r.2.1.queue.getAll) step).trans queue⟩

/-! ## A queue that `enqueue` has filled -/

/-- Where no entry is too long, those that are sent are those for the node. -/
theorem sendable_eq {es : List RueEntry} (short : NoneTooLong es) (mac : Mac) {e : RueEntry}
    (he : e ∈ es) : Sendable mac e = (e.destMac == mac) := by
  simp [Sendable, short e he]

/-- The loop sends all that is queued for the source, in the order in which it was queued, and leaves
everything else on the queue. -/
theorem drains_destination (ops : List QueueOp) (wf : ∀ op ∈ ops, op.WellFormed) (received : Packet)
    (s : NodeState env) (filled : s.queue = afterOps (RueQueue.mk none).ensureHeader.2 ops) :
    List.Forall₂ Carries (sendCalls ((autoDeliver received).trace s))
        (s.queue.getAll.filter fun e => e.destMac == received.header.source) ∧
      ((autoDeliver received).post s).queue.getAll =
        s.queue.getAll.filter fun e => e.destMac != received.header.source := by
  have entries : s.queue.getAll = specAfter [] ops :=
    filled ▸ getAll_of_represents (represents_afterOps (.inl ⟨rfl, rfl⟩) wf)
  have short : NoneTooLong s.queue.getAll := entries ▸ noneTooLong_specAfter (by simp [NoneTooLong]) ops
  have all : carried s received =
      s.queue.getAll.filter fun e => e.destMac == received.header.source :=
    List.filter_congr fun e he => sendable_eq short _ he
  have others : (s.queue.getAll.filter fun e => !Sendable received.header.source e) =
      s.queue.getAll.filter fun e => e.destMac != received.header.source :=
    List.filter_congr fun e he => congrArg not (sendable_eq short _ he)
  obtain ⟨calls, queue⟩ := autoDeliver_spec received s
  exact ⟨all ▸ calls, queue.trans others⟩

/-- Another node's broadcast. -/
def helloFrom (mac : Mac) : Packet :=
  (Packet.init .discovery mac broadcast 0).fill (text "ARABA Hello!")

/-- Three messages of two bytes that are queued within a second, the last of them for another node. -/
def queuedAtOnce : List QueueOp :=
  [.enqueue receiverEnv.myMac (text "hi") 2 100 0, .enqueue receiverEnv.myMac (text "ho") 2 100 0,
    .enqueue (sampleMac 9) (text "hi") 2 100 0]

theorem drains_destination_queuedAtOnce :
    ((autoDeliver (helloFrom receiverEnv.myMac)).post
        { NodeState.start senderEnv none with
          queue := afterOps (RueQueue.mk none).ensureHeader.2 queuedAtOnce }).queue.getAll =
      [queuedEntry #v[2, 0, 0, 0, 0, 9] (text "hi") 2 100] := by
  have wf : ∀ op ∈ queuedAtOnce, op.WellFormed := by decide
  rw [(drains_destination queuedAtOnce wf (helloFrom receiverEnv.myMac) _ rfl).2,
    getAll_of_represents (represents_afterOps (.inl ⟨rfl, rfl⟩) wf)]
  rfl

/-! ## A packet -/

/-- No entry leaves the queue without a call of its own that returned true: `ok i` is what the `i`th
call of the loop returns, and that call carries the `i`th of the carried entries. -/
def NoLoss (s : NodeState env) (received : Packet) (clock : Clock) (ok : ℕ → Bool) : Prop :=
  ∀ e, s.queue.getAll.count e ≤
    ((handlePacket received clock).post s).queue.getAll.count e +
      (carried s received).zipIdx.countP fun call => call.1 = e ∧ ok call.2 = true

/-- When a packet is handled, the queue changes in the loop only. -/
theorem queue_handlePacket {received : Packet} {clock : Clock} {s : NodeState env}
    (other : received.header.source ≠ env.myMac) :
    ((handlePacket received clock).post s).queue.getAll =
      s.queue.getAll.filter fun e => !Sendable received.header.source e := by
  rw [post_handlePacket_parts other,
    (leaves_handleData (f := NodeState.queue) fun _ _ _ => rfl).post,
    (leaves_handleAck (f := NodeState.queue) fun _ _ => rfl).post,
    (leaves_handleRouteAdv (f := NodeState.queue) fun _ _ => rfl).post,
    (leaves_handleDiscovery (f := NodeState.queue) fun _ _ => rfl).post,
    (autoDeliver_spec received _).2,
    (leaves_learnNeighbor (f := NodeState.queue) fun _ _ _ => rfl).post]

/-- The loop makes its calls one for each carried entry, and loses none exactly when all of them
return true. -/
theorem noLoss_iff (received : Packet) (clock : Clock) (s : NodeState env)
    (other : received.header.source ≠ env.myMac) (ok : ℕ → Bool) :
    List.Forall₂ Carries
        (sendCalls ((autoDeliver received).trace ((learnNeighbor received clock).post s)))
        (carried s received) ∧
      (NoLoss s received clock ok ↔ ∀ i < (carried s received).length, ok i = true) := by
  have calls := (autoDeliver_spec received ((learnNeighbor received clock).post s)).1
  rw [carried, leaves_learnNeighbor (f := NodeState.queue) (fun _ _ _ => rfl) s] at calls
  refine ⟨calls, ?_⟩
  rw [← Drain.count_le_countP_zipIdx_iff]
  have parts (e : RueEntry) : s.queue.getAll.count e = (carried s received).count e +
      (s.queue.getAll.filter fun e => !Sendable received.header.source e).count e := by
    rw [carried, ← List.count_append]
    exact ((List.filter_append_perm _ _).count_eq e).symm
  refine forall_congr' fun e => ?_
  rw [queue_handlePacket other, parts]
  omega

/-- A node with one message queued for another node. -/
def withQueued : NodeState senderEnv :=
  NodeState.start senderEnv (some (image [queuedEntry receiverEnv.myMac (text "hi") 2 100]))

theorem carried_withQueued :
    carried withQueued (helloFrom receiverEnv.myMac) =
      [queuedEntry receiverEnv.myMac (text "hi") 2 100] := by
  have queue : withQueued.queue.getAll = [queuedEntry receiverEnv.myMac (text "hi") 2 100] :=
    getAll_of_represents (show Represents withQueued.queue _ from rfl)
  rw [carried, queue]
  rfl

theorem noLoss_iff_withQueued :
    NoLoss withQueued (helloFrom receiverEnv.myMac) ⟨0, 0⟩ fun _ => true := by
  have other : receiverEnv.myMac ≠ senderEnv.myMac := by decide
  exact (noLoss_iff (helloFrom receiverEnv.myMac) ⟨0, 0⟩ withQueued other _).2.2 fun _ _ => rfl

/-- When `send_packet` fails, the message has left the queue all the same. -/
theorem unsent_message_leaves :
    ¬ NoLoss withQueued (helloFrom receiverEnv.myMac) ⟨0, 0⟩ fun _ => false := by
  have other : (helloFrom receiverEnv.myMac).header.source ≠ senderEnv.myMac :=
    (by decide : receiverEnv.myMac ≠ senderEnv.myMac)
  set e := queuedEntry receiverEnv.myMac (text "hi") 2 100
  have queue : withQueued.queue.getAll = [e] :=
    getAll_of_represents (show Represents withQueued.queue _ from rfl)
  have sendable : Sendable receiverEnv.myMac e = true := by
    simp only [Sendable, Bool.and_eq_true, beq_iff_eq, decide_eq_true_eq]
    exact ⟨rfl, (by decide : 2 ≤ maxPayloadSize)⟩
  intro h
  have lost := h e
  rw [queue_handlePacket other, carried_withQueued, queue, List.filter_cons_of_neg (by
    rw [show (helloFrom receiverEnv.myMac).header.source = receiverEnv.myMac from rfl, sendable]
    exact Bool.false_ne_true), List.filter_nil, List.count_singleton_self] at lost
  simp at lost

end Araba
