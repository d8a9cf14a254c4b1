import Araba.Lib.Mailboxes
import Araba.SendPoint

/-!
# The order of the queue

What a node has stored for a destination goes out in the order in which it was stored, whatever else
the node does in between and however often it is stopped and started again. Each destination has a
mailbox: what is in the file for it.
-/

namespace Araba

open Bytes Traced RueQueue

/-- The bytes of an entry that count. -/
def RueEntry.body (e : RueEntry) : List UInt8 := slice e.payload 0 e.payloadLen.toNat

/-! ## A file that the node has written -/

/-- The file is the image of what is read from it, and no entry is longer than a payload. -/
structure RueQueue.WellKept (q : RueQueue) : Prop where
  represents : q.Represents q.getAll
  short : NoneTooLong q.getAll

namespace RueQueue

variable {q : RueQueue}

theorem wellKept_of_represents {es : List RueEntry} (h : q.Represents es) (short : NoneTooLong es) :
    q.WellKept where
  represents := by rw [getAll_of_represents h]; exact h
  short := by rw [getAll_of_represents h]; exact short

theorem noneTooLong_nil : NoneTooLong [] := fun _ mem => absurd mem List.not_mem_nil

theorem wellKept_start {file : Option (List UInt8)} {es : List RueEntry} (valid : ValidStart file es)
    (short : NoneTooLong es) :
    (RueQueue.mk file).ensureHeader.2.WellKept ∧ (RueQueue.mk file).ensureHeader.2.getAll = es :=
  ⟨wellKept_of_represents (represents_start valid) short, getAll_of_represents (represents_start valid)⟩

/-- A node that is started again finds the queue as it has left it. -/
theorem WellKept.ensureHeader (h : q.WellKept) : (RueQueue.mk q.file).ensureHeader.2 = q := by
  have file : q = ⟨some (image q.getAll)⟩ := congrArg RueQueue.mk h.represents
  rw [file]
  rfl

theorem WellKept.removeEntry (h : q.WellKept) (target : RueEntry) :
    (q.removeEntry target).2.WellKept := by
  have wf : (QueueOp.remove target).WellFormed := trivial
  exact wellKept_of_represents (apply_of_represents h.represents wf).2.1
    (noneTooLong_spec h.short (.remove target))

theorem body_queuedEntry (dest : Mac) {data : List UInt8} (fits : data.length ≤ 512) (now : UInt64) :
    (queuedEntry dest data (UInt16.ofNat data.length) now).body = data := by
  have len : (UInt16.ofNat data.length).toNat = data.length := by
    rw [UInt16.toNat_ofNat']
    omega
  have size : (UInt16.ofNat (min (UInt16.ofNat data.length).toNat 512)).toNat = data.length := by
    rw [len, Nat.min_eq_left fits, len]
  rw [RueEntry.body, queuedEntry, size]
  apply List.ext_getElem
  · rw [length_slice]
    omega
  · intro i _ hi
    simp [slice, len, hi]

theorem WellKept.enqueue (h : q.WellKept) (dest : Mac) {data : List UInt8} (fits : data.length ≤ 512)
    (now : UInt64) (junk : UInt32) :
    (q.enqueue dest data now junk).2.WellKept ∧
      (q.enqueue dest data now junk).2.getAll =
        q.getAll ++ [queuedEntry dest data (UInt16.ofNat data.length) now] := by
  have len : (UInt16.ofNat data.length).toNat = data.length := by
    rw [UInt16.toNat_ofNat']
    omega
  have stored := (enqueue_of_represents h.represents dest data now junk len.le).2
  rw [len, List.take_length] at stored
  exact ⟨wellKept_of_represents stored (noneTooLong_spec h.short
    (.enqueue dest data (UInt16.ofNat data.length) now junk)), getAll_of_represents stored⟩

end RueQueue

/-! ## A node -/

section Node

variable {env : NodeEnv}

/-- A step of a node, or its being stopped and started again on the file that it has left. -/
inductive LifeStep
  | node (step : NodeStep)
  | restart

namespace LifeStep

/-- The node after the step: what is on disk survives a restart. -/
def post (s : NodeState env) : LifeStep → NodeState env
  | node step => step.action.post s
  | restart => NodeState.start env s.queue.file

/-- The payloads that the main thread stores for the destination. -/
def stores (d : Mac) : LifeStep → List (List UInt8)
  | node (.main (.enqueueFragment destMac _ _ pkt)) => if destMac = d then [pkt.body] else []
  | _ => []

end LifeStep

/-- A call that sends a DATA packet of the node itself to the destination. -/
def OwnDataTo (env : NodeEnv) (d : Mac) (call : Packet × Mac) : Bool :=
  decide (call.1.header.type = .data) && decide (call.1.header.source = env.myMac) &&
    decide (call.2 = d)

/-- The payloads that the network thread sends to the destination in a step. -/
def LifeStep.sends (d : Mac) (s : NodeState env) : LifeStep → List (List UInt8)
  | node (.network step) =>
    ((sendCalls (step.action.trace s)).filter (OwnDataTo env d)).map fun call => call.1.body
  | _ => []

/-- The payloads that wait for each destination. -/
def mailboxes (s : NodeState env) (d : Mac) : List (List UInt8) :=
  (s.queue.getAll.filter fun e => e.destMac == d).map RueEntry.body

/-- What a step does to the mailboxes. -/
def LifeStep.op (env : NodeEnv) : LifeStep → Mailboxes.Op Mac (List UInt8)
  | node (.main (.enqueueFragment destMac _ _ pkt)) => .put destMac pkt.body
  | node (.network (.packet p _)) =>
    if p.header.source = env.myMac then .idle else .collect p.header.source
  | _ => .idle

/-! ### The queue in a step -/

theorem length_body (p : Packet) : p.body.length ≤ 512 := by
  rw [Packet.body, length_slice]
  omega

theorem wellKept_autoDeliver {s : NodeState env} (received : Packet) (h : s.queue.WellKept) :
    ((autoDeliver received).post s).queue.WellKept := by
  have one (e : RueEntry) : Preserves (fun s : NodeState env => s.queue.WellKept) (fun _ => True)
      (deliverEntry e) :=
    .bind .get fun _ => .bind (.modify fun _ hs => hs) fun _ => .ite (.emit trivial)
      (.bind (.emit trivial) fun _ => .modify fun _ hs => hs.removeEntry e)
  have all : Preserves (fun s : NodeState env => s.queue.WellKept) (fun _ => True)
      (autoDeliver received) := by
    refine .bind .get fun s => .ite (.pure ()) (.bind (.emit trivial) fun _ => .runAll fun m hm => ?_)
    obtain ⟨e, -, rfl⟩ := List.mem_map.1 hm
    exact one e
  exact (all s h).1

theorem queue_handlePacket_eq {received : Packet} {clock : Clock} {s : NodeState env}
    (other : received.header.source ≠ env.myMac) :
    ((handlePacket received clock).post s).queue =
      ((autoDeliver received).post ((learnNeighbor received clock).post s)).queue := by
  rw [post_handlePacket_parts other,
    (leaves_handleData (f := NodeState.queue) fun _ _ _ => rfl).post,
    (leaves_handleAck (f := NodeState.queue) fun _ _ => rfl).post,
    (leaves_handleRouteAdv (f := NodeState.queue) fun _ _ => rfl).post,
    (leaves_handleDiscovery (f := NodeState.queue) fun _ _ => rfl).post]

theorem wellKept_handlePacket {s : NodeState env} (received : Packet) (clock : Clock)
    (h : s.queue.WellKept) : ((handlePacket received clock).post s).queue.WellKept := by
  by_cases own : received.header.source = env.myMac
  · rw [handlePacket, if_pos own]
    exact h
  · rw [queue_handlePacket_eq own]
    refine wellKept_autoDeliver received ?_
    rw [(leaves_learnNeighbor (f := NodeState.queue) fun _ _ _ => rfl).post]
    exact h

/-- The steps that neither handle a packet nor store one leave the queue alone. -/
theorem queue_step_of_idle (step : NodeStep) (s : NodeState env)
    (noPacket : ∀ p clock, step ≠ .network (.packet p clock))
    (noStore : ∀ d clock junk pkt, step ≠ .main (.enqueueFragment d clock junk pkt)) :
    (step.action.post s).queue = s.queue := by
  cases step with
  | network step =>
    cases step with
    | hello => rfl
    | packet p clock => exact absurd rfl (noPacket p clock)
    | retry clock => exact leaves_retryPass (f := NodeState.queue) (fun _ _ => rfl) s
    | cleanup clock => exact leaves_cleanupTick (f := NodeState.queue) (fun _ _ _ => rfl) s
  | main step =>
    cases step with
    | enqueueFragment d clock junk pkt => exact absurd rfl (noStore d clock junk pkt)
    | encryptWithCipher destMac message clock =>
      exact leaves_encryptWithCipher (f := NodeState.queue) (fun _ _ _ => rfl) s
    | _ => rfl

/-! ### What the network thread sends -/

theorem ownData_eq_nil {es : List Effect} (d : Mac)
    (h : ∀ e ∈ es, e.Sends fun p => ¬ (p.header.type = .data ∧ p.header.source = env.myMac)) :
    (sendCalls es).filter (OwnDataTo env d) = [] := by
  refine List.filter_eq_nil_iff.2 fun call hcall own => forall_mem_sendCalls h call hcall ?_
  simp only [OwnDataTo, Bool.and_eq_true, decide_eq_true_eq] at own
  exact own.1

/-- What a call has from the entry that it carries can be read off the entries. -/
theorem map_eq_of_carries {β : Type} {f : Packet × Mac → β} {g : RueEntry → β}
    (same : ∀ call e, Carries call e → f call = g e) {calls : List (Packet × Mac)}
    {es : List RueEntry} (h : List.Forall₂ Carries calls es) : calls.map f = es.map g := by
  induction h with
  | nil => rfl
  | cons carries _ ih => rw [List.map_cons, List.map_cons, ih, same _ _ carries]

theorem filter_autoDeliver (received : Packet) (d : Mac) (s : NodeState env) :
    (sendCalls ((autoDeliver received).trace s)).filter (OwnDataTo env d) =
      if received.header.source = d then sendCalls ((autoDeliver received).trace s) else [] := by
  have calls := (autoDeliver_spec received s).1
  have own : Preserves (fun _ => True) (Effect.Sends fun p => p.header.type = .data ∧
      p.header.source = env.myMac) (autoDeliver received : Action env Unit) :=
    preserves_autoDeliver (fun _ _ _ _ => trivial) (fun _ => trivial) trivial
      fun _ _ data own => ⟨data, own⟩
  have mine : ∀ call ∈ sendCalls ((autoDeliver received).trace s),
      OwnDataTo env d call = decide (received.header.source = d) := by
    intro call hcall
    obtain ⟨data, source⟩ := forall_mem_sendCalls (own s trivial).2 call hcall
    have links : call.2 ∈ (carried s received).map RueEntry.destMac :=
      map_eq_of_carries (fun _ _ carries => carries.1) calls ▸ List.mem_map_of_mem hcall
    obtain ⟨e, he, dest⟩ := List.mem_map.1 links
    have sendable := (List.mem_filter.1 he).2
    simp only [Sendable, Bool.and_eq_true, beq_iff_eq] at sendable
    simp [OwnDataTo, data, source, ← dest, sendable.1]
  rw [List.filter_congr mine]
  split_ifs with same
  · simp only [same, decide_true, List.filter_true]
  · simp only [same, decide_false, List.filter_false]

/-- The DATA packets of its own that a node sends to a destination when it handles a packet are those
for what is queued, and the packet is from the destination then. -/
theorem filter_handlePacket (received : Packet) (clock : Clock) (d : Mac) (s : NodeState env) :
    (sendCalls ((handlePacket received clock).trace s)).filter (OwnDataTo env d) =
      if received.header.source ≠ env.myMac ∧ received.header.source = d then
        sendCalls ((autoDeliver received).trace ((learnNeighbor received clock).post s))
      else [] := by
  by_cases own : received.header.source = env.myMac
  · rw [handlePacket, if_pos own, if_neg fun h => h.1 own]
    rfl
  have learned : Preserves (fun _ => True)
      (Effect.Sends fun p => ¬ (p.header.type = .data ∧ p.header.source = env.myMac))
      (learnNeighbor received clock : Action env Unit) :=
    preserves_learnNeighbor (fun _ _ _ _ => trivial) trivial
  have advert : PacketType.routeAdv ≠ .data := by decide
  have ack : PacketType.ack ≠ .data := by decide
  have control : Preserves (fun _ => True)
      (Effect.Sends fun p => ¬ (p.header.type = .data ∧ p.header.source = env.myMac)) (do
        handleDiscovery received
        handleRouteAdv received clock
        handleAck received : Action env Unit) :=
    .bind (preserves_handleDiscovery (fun _ _ _ => trivial) fun _ _ h => advert h.1) fun _ =>
      .bind (preserves_handleRouteAdv (fun _ _ _ => trivial) trivial) fun _ =>
      preserves_handleAck (fun _ _ _ => trivial) fun _ => trivial
  have data : Preserves (fun _ => True)
      (Effect.Sends fun p => ¬ (p.header.type = .data ∧ p.header.source = env.myMac))
      (handleData received clock : Action env Unit) :=
    preserves_handleData (fun _ _ _ _ => trivial) trivial trivial trivial (fun _ _ => trivial)
      (fun _ _ => .emit fun h => ack h.1) fun _ _ _ h => own h.2
  set s₁ := (learnNeighbor received clock).post s
  have trace : (handleControl received clock).trace s = (learnNeighbor received clock).trace s ++
      ((autoDeliver received).trace s₁ ++ (do
        handleDiscovery received
        handleRouteAdv received clock
        handleAck received : Action env Unit).trace ((autoDeliver received).post s₁)) := rfl
  have lock : sendCalls [Effect.lock] = [] := rfl
  have unlock : sendCalls [Effect.unlock] = [] := rfl
  rw [trace_handlePacket own, trace]
  simp only [sendCalls_append, List.filter_append, ownData_eq_nil d (learned s trivial).2,
    ownData_eq_nil d (control _ trivial).2, ownData_eq_nil d (data _ trivial).2, lock, unlock,
    filter_autoDeliver, List.append_nil, List.nil_append, ne_eq, own,
    not_false_eq_true, true_and]

/-- To the source of the packet goes what waits for it, and to others nothing. -/
theorem sends_packet {s : NodeState env} (received : Packet) (clock : Clock) (d : Mac)
    (h : s.queue.WellKept) :
    (LifeStep.node (.network (.packet received clock))).sends d s =
      if received.header.source ≠ env.myMac ∧ received.header.source = d then mailboxes s d else [] := by
  show ((sendCalls ((handlePacket received clock).trace s)).filter (OwnDataTo env d)).map _ = _
  rw [filter_handlePacket]
  split_ifs with heard
  · set s₁ := (learnNeighbor received clock).post s
    have queue : s₁.queue = s.queue := leaves_learnNeighbor (f := NodeState.queue) (fun _ _ _ => rfl) s
    have all : carried s₁ received = s.queue.getAll.filter fun e => e.destMac == d := by
      rw [carried, queue]
      exact List.filter_congr fun e he => heard.2 ▸ sendable_eq h.short _ he
    rw [map_eq_of_carries (fun _ _ carries => carries.2.2.2.2) (autoDeliver_spec received s₁).1, all,
      mailboxes]
    rfl
  · rfl

/-- The steps of the network thread that handle no packet send no DATA packets. -/
theorem sends_of_ne (step : NetworkStep) (d : Mac) (s : NodeState env)
    (noPacket : ∀ p clock, step ≠ .packet p clock) :
    (LifeStep.node (.network step)).sends d s = [] := by
  have quiet : Preserves (fun _ => True)
      (Effect.Sends fun p => ¬ (p.header.type = .data ∧ p.header.source = env.myMac))
      (step.action : Action env Unit) := by
    cases step with
    | hello =>
      have hello : PacketType.discovery ≠ .data := by decide
      exact preserves_sendHello (fun _ _ _ => trivial) fun p type _ h => hello (type.symm.trans h.1)
    | packet p clock => exact absurd rfl (noPacket p clock)
    | retry clock => exact preserves_retryPass (fun _ _ _ => trivial) fun _ => trivial
    | cleanup clock => exact preserves_cleanupTick fun _ _ _ _ => trivial
  show ((sendCalls (step.action.trace s)).filter (OwnDataTo env d)).map _ = []
  rw [ownData_eq_nil d (quiet s trivial).2]
  rfl

/-! ### Every step does to the queue what is done to mailboxes -/

theorem mailboxes_congr {s s' : NodeState env} (same : s'.queue = s.queue) :
    mailboxes s' = mailboxes s := by
  funext d
  rw [mailboxes, same, mailboxes]

/-- A stored packet goes behind what waits for its destination. -/
theorem mailboxes_enqueueFragment {s : NodeState env} (h : s.queue.WellKept) (destMac : Mac)
    (clock : Clock) (junk : UInt32) (pkt : Packet) :
    mailboxes ((enqueueFragment destMac clock junk pkt).post s) =
      (Mailboxes.Op.put destMac pkt.body).apply (mailboxes s) := by
  have fits := length_body pkt
  have body := body_queuedEntry destMac fits clock.time
  have entries : ((enqueueFragment destMac clock junk pkt).post s).queue.getAll = _ :=
    (h.enqueue destMac fits clock.time junk).2
  funext d
  rw [mailboxes, entries, List.filter_append, List.map_append, Mailboxes.Op.apply]
  by_cases same : d = destMac
  · subst same
    rw [Function.update_self, List.filter_cons_of_pos (by exact beq_self_eq_true d), List.filter_nil,
      List.map_singleton, body]
    rfl
  · rw [Function.update_of_ne same, List.filter_cons_of_neg (by simpa [queuedEntry] using Ne.symm same)]
    exact List.append_nil _

/-- When a node hears from a destination, nothing waits for it any more. -/
theorem mailboxes_handlePacket {s : NodeState env} (h : s.queue.WellKept) {received : Packet}
    (clock : Clock) (other : received.header.source ≠ env.myMac) :
    mailboxes ((handlePacket received clock).post s) =
      (Mailboxes.Op.collect received.header.source).apply (mailboxes s) := by
  have left : (s.queue.getAll.filter fun e => !Sendable received.header.source e) =
      s.queue.getAll.filter fun e => e.destMac != received.header.source :=
    List.filter_congr fun e he => congrArg not (sendable_eq h.short _ he)
  funext d
  rw [mailboxes, queue_handlePacket other, left, List.filter_filter, Mailboxes.Op.apply]
  by_cases same : d = received.header.source
  · rw [same, Function.update_self, List.filter_eq_nil_iff.2 fun e _ => by simp]
    rfl
  · rw [Function.update_of_ne same, mailboxes]
    refine congrArg (List.map RueEntry.body) (List.filter_congr fun e _ => ?_)
    by_cases mine : e.destMac = d
    · simp [mine, same]
    · simp [mine]

theorem keeps_mailboxes : Mailboxes.Keeps (fun s : NodeState env => s.queue.WellKept) LifeStep.post
    LifeStep.sends mailboxes (LifeStep.op env) where
  invariant s step h := by
    cases step with
    | restart => exact (congrArg RueQueue.WellKept h.ensureHeader).mpr h
    | node step =>
      by_cases packet : ∃ p clock, step = .network (.packet p clock)
      · obtain ⟨p, clock, rfl⟩ := packet
        exact wellKept_handlePacket p clock h
      by_cases store : ∃ d clock junk pkt, step = .main (.enqueueFragment d clock junk pkt)
      · obtain ⟨d, clock, junk, pkt, rfl⟩ := store
        exact (h.enqueue d (length_body pkt) clock.time junk).1
      · have same := queue_step_of_idle step s (fun p clock e => packet ⟨p, clock, e⟩)
          fun d clock junk pkt e => store ⟨d, clock, junk, pkt, e⟩
        exact (congrArg RueQueue.WellKept same).mpr h
  state s step h := by
    cases step with
    | restart => exact mailboxes_congr h.ensureHeader
    | node step =>
      cases step with
      | network step =>
        cases step with
        | packet p clock =>
          show mailboxes ((handlePacket p clock).post s) = (if _ then _ else _ : Mailboxes.Op _ _).apply _
          split_ifs with own
          · rw [handlePacket, if_pos own]
            rfl
          · exact mailboxes_handlePacket h clock own
        | _ => exact mailboxes_congr (queue_step_of_idle (.network _) s (fun _ _ e => by cases e)
            fun _ _ _ _ e => by cases e)
      | main step =>
        cases step with
        | enqueueFragment d clock junk pkt => exact mailboxes_enqueueFragment h d clock junk pkt
        | _ => exact mailboxes_congr (queue_step_of_idle (.main _) s (fun _ _ e => by cases e)
            fun _ _ _ _ e => by cases e)
  output d s step h := by
    cases step with
    | restart => rfl
    | node step =>
      cases step with
      | network step =>
        cases step with
        | packet p clock =>
          rw [sends_packet p clock d h]
          show _ = (if _ then _ else _ : Mailboxes.Op _ _).collected d (mailboxes s)
          by_cases own : p.header.source = env.myMac
          · rw [if_neg fun h => h.1 own, if_pos own]
            rfl
          · rw [if_neg own]
            simp only [ne_eq, own, not_false_eq_true, true_and]
            rfl
        | _ => exact sends_of_ne _ d s fun _ _ e => by cases e
      | main step => cases step <;> rfl

/-! ### A run -/

/-- The node after the steps of its life. -/
def lifeAfter (s : NodeState env) (steps : List LifeStep) : NodeState env := steps.foldl LifeStep.post s

/-- The payloads that the network thread sends to the destination in a run. -/
def sentTo (d : Mac) : NodeState env → List LifeStep → List (List UInt8) :=
  Mailboxes.outputs LifeStep.post LifeStep.sends d

theorem posted_op (d : Mac) (step : LifeStep) : (step.op env).posted d = step.stores d := by
  cases step with
  | restart => rfl
  | node step =>
    cases step with
    | network step =>
      cases step with
      | packet p clock =>
        show (if _ then _ else _ : Mailboxes.Op _ _).posted d = []
        split_ifs <;> rfl
      | _ => rfl
    | main step => cases step <;> rfl

/-- For every destination, what was in the file at first and what was stored since is what has been
sent and what still waits, in this order. Each `enqueue` and each handling of a packet is one step, and
no entry that was in the file at first is longer than a payload. -/
theorem queue_fifo (file : Option (List UInt8)) (es₀ : List RueEntry) (valid : ValidStart file es₀)
    (short : NoneTooLong es₀) (steps : List LifeStep) (d : Mac) :
    (es₀.filter fun e => e.destMac == d).map RueEntry.body ++ steps.flatMap (LifeStep.stores d) =
      sentTo d (NodeState.start env file) steps ++
        mailboxes (lifeAfter (NodeState.start env file) steps) d := by
  obtain ⟨kept, entries⟩ := wellKept_start valid short
  have start : mailboxes (NodeState.start env file) d =
      (es₀.filter fun e => e.destMac == d).map RueEntry.body := by
    rw [← entries]
    rfl
  have fifo := keeps_mailboxes.fifo d steps (s := NodeState.start env file) kept
  simp only [posted_op] at fifo
  rw [← start]
  exact fifo

end Node

/-- One more message is stored for the other node, the node is stopped and started again, and then it
hears from the other node. -/
def storedAndHeard : List LifeStep :=
  [.node (.main (.enqueueFragment receiverEnv.myMac ⟨200, 0⟩ 0
      ((Packet.init .data senderEnv.myMac receiverEnv.myMac 7).fill (text "ho")))), .restart,
    .node (.network (.packet (helloFrom receiverEnv.myMac) ⟨300, 0⟩))]

theorem queue_fifo_storedAndHeard :
    [text "hi", text "ho"] =
      sentTo receiverEnv.myMac (NodeState.start senderEnv
          (some (image [queuedEntry receiverEnv.myMac (text "hi") 2 100]))) storedAndHeard ++
        mailboxes (lifeAfter (NodeState.start senderEnv
          (some (image [queuedEntry receiverEnv.myMac (text "hi") 2 100]))) storedAndHeard)
          receiverEnv.myMac := by
  have short : NoneTooLong [queuedEntry receiverEnv.myMac (text "hi") 2 100] := by
    intro e he
    rw [List.mem_singleton.1 he]
    decide
  have first : ([queuedEntry receiverEnv.myMac (text "hi") 2 100].filter fun e =>
      e.destMac == receiverEnv.myMac).map RueEntry.body = [text "hi"] := by
    rw [List.filter_cons_of_pos (by exact beq_self_eq_true receiverEnv.myMac), List.filter_nil,
      List.map_singleton]
    have fits : (text "hi").length ≤ 512 := by decide
    exact congrArg (fun b => [b]) (body_queuedEntry receiverEnv.myMac fits 100)
  have second : storedAndHeard.flatMap (LifeStep.stores receiverEnv.myMac) = [text "ho"] := by
    have body := Packet.body_fill (Packet.init .data senderEnv.myMac receiverEnv.myMac 7) (text "ho")
      (by decide)
    simp only [storedAndHeard, List.flatMap_cons, List.flatMap_nil, LifeStep.stores, if_true,
      List.append_nil, body]
  have fifo := @queue_fifo senderEnv _ _ (.inr rfl) short storedAndHeard receiverEnv.myMac
  rw [first, second] at fifo
  exact fifo

end Araba
