import Araba.QueueOrder

/-!
# Messages that were stored

A message for a node that is offline goes into the queue. When the other node is heard, possibly
after the sender has been stopped and started again, it is sent as it would have been sent then: the
packets are those of the `send` command, numbered from the present sequence number on. So it arrives
as a message that is sent at once.
-/

namespace Araba

open Bytes Collect Traced

/-- The DATA packets of a node with these payloads, numbered from `seqNum` on. -/
def numberedFrom (src dst : Mac) : UInt32 → List (List UInt8) → List Packet
  | _, [] => []
  | seqNum, body :: bodies =>
    (Packet.init .data src dst seqNum).fill body :: numberedFrom src dst (seqNum + 1) bodies

theorem map_body_numberedFrom (src dst : Mac) (seqNum : UInt32) {bodies : List (List UInt8)}
    (fit : ∀ b ∈ bodies, b.length ≤ 512) :
    (numberedFrom src dst seqNum bodies).map Packet.body = bodies := by
  induction bodies generalizing seqNum with
  | nil => rfl
  | cons body bodies ih =>
    rw [numberedFrom, List.map_cons, Packet.body_fill _ _ (fit body List.mem_cons_self),
      ih _ fun b hb => fit b (List.mem_cons_of_mem _ hb)]

theorem numberedFrom_map_range (src dst : Mac) (f : ℕ → List UInt8) (n : ℕ) (seqNum : UInt32) :
    numberedFrom src dst seqNum ((List.range n).map f) =
      (List.range n).map fun i => (Packet.init .data src dst (seqNum + UInt32.ofNat i)).fill (f i) := by
  induction n generalizing f seqNum with
  | zero => rfl
  | succ n ih =>
    have next (i : ℕ) : seqNum + 1 + UInt32.ofNat i = seqNum + UInt32.ofNat (i + 1) := by
      rw [UInt32.ofNat_add, UInt32.add_assoc, UInt32.add_comm 1]
      rfl
    rw [List.range_succ_eq_map, List.map_cons, List.map_cons, numberedFrom, List.map_map, ih,
      List.map_map]
    simp only [Function.comp_apply, next]
    simp

/-! ## The packets of a message -/

/-- The packets of a message differ from one time to another in their numbers only. -/
theorem exists_bodies (s : Sending) (data : s.type = .data) (fits : s.data.length ≤ 65535) :
    ∃ bodies : List (List UInt8), (∀ b ∈ bodies, b.length ≤ 512) ∧
      ∀ n, { s with seqNum := n }.packets = numberedFrom s.src s.dst n bodies := by
  by_cases one : s.data.length ≤ maxFragPayload
  · refine ⟨[s.data], fun b hb => ?_, fun n => ?_⟩
    · rw [List.mem_singleton.1 hb]
      exact one.trans (by decide)
    · rw [Sending.packets, FragmentManager.fragmentMessage, if_pos one, data]
      rfl
  · refine ⟨(List.range s.total).map fun i => (FragHeader.mk s.msgId (UInt8.ofNat i)
      (FragmentManager.fragTotal s.data.length) (UInt16.ofNat s.data.length)).toBytes ++
        piece maxFragPayload s.data i, fun b hb => ?_, fun n => ?_⟩
    · obtain ⟨i, -, rfl⟩ := List.mem_map.1 hb
      exact Sending.length_fill_nth _ i
    · have h : Sending.Fragmented { s with seqNum := n } := ⟨not_le.1 one, fits⟩
      rw [h.packets_eq, numberedFrom_map_range]
      refine List.map_congr_left fun i _ => ?_
      rw [Sending.nth_eq_fill, ← data]
      rfl

section Node

variable {env : NodeEnv}

/-! ## What the loop sends -/

theorem queuedPacket_eq_fill {e : RueEntry} (short : e.payloadLen.toNat ≤ maxPayloadSize)
    (seqNum : UInt32) :
    queuedPacket env seqNum e = (Packet.init .data env.myMac e.destMac seqNum).fill e.body := by
  have len : e.body.length = e.payloadLen.toNat := by
    rw [maxPayloadSize] at short
    rw [RueEntry.body, length_slice]
    omega
  rw [Packet.fill, len, UInt16.ofNat_toNat]
  rfl

theorem seqNum_deliverEntry (e : RueEntry) (s : NodeState env) :
    ((deliverEntry e).post s).seqNum = s.seqNum + 1 := by
  refine (congrArg (fun r => r.2.1.seqNum) (deliverEntry_eq e s)).trans ?_
  split_ifs <;> rfl

theorem packets_deliverEntries (mac : Mac) (entries : List RueEntry)
    (mine : ∀ e ∈ entries, e.destMac = mac) (short : RueQueue.NoneTooLong entries)
    (s : NodeState env) :
    (sendCalls ((runAll (entries.map deliverEntry)).trace s)).map Prod.fst =
      numberedFrom env.myMac mac s.seqNum (entries.map RueEntry.body) := by
  induction entries generalizing s with
  | nil => rfl
  | cons e entries ih =>
    have fits := short e List.mem_cons_self
    have rest := ih (fun e he => mine e (List.mem_cons_of_mem _ he))
      (fun e he => short e (List.mem_cons_of_mem _ he)) ((deliverEntry e).post s)
    have trace : (runAll ((e :: entries).map deliverEntry)).trace s = (deliverEntry e).trace s ++
        (runAll (entries.map deliverEntry)).trace ((deliverEntry e).post s) := rfl
    rw [seqNum_deliverEntry] at rest
    rw [trace, sendCalls_append, (deliverEntry_of_short fits).1, List.map_append, rest,
      List.map_singleton, queuedPacket_eq_fill fits, mine e List.mem_cons_self]
    rfl

/-- What waits for the source of the packet is sent with the next sequence numbers. -/
theorem packets_autoDeliver {s : NodeState env} (h : s.queue.WellKept) (received : Packet) :
    (sendCalls ((autoDeliver received).trace s)).map Prod.fst =
      numberedFrom env.myMac received.header.source s.seqNum (mailboxes s received.header.source) := by
  have pending := RueQueue.getPending_eq_filter s.queue received.header.source
  have sent := packets_deliverEntries received.header.source (s.queue.getPending received.header.source)
    (fun e he => by rw [pending] at he; simpa using (List.mem_filter.1 he).2)
    (fun e he => by rw [pending] at he; exact h.short e (List.mem_filter.1 he).1) s
  rw [trace_autoDeliver]
  split_ifs with none'
  · rw [mailboxes, ← pending, List.isEmpty_iff.1 none']
    rfl
  · rw [mailboxes, ← pending, ← sent]
    rfl

/-! ## What the command stores -/

/-- The steps in which packets are stored. -/
def storeSteps (destMac : Mac) (clock : Clock) (junk : UInt32) (packets : List Packet) : List LifeStep :=
  packets.map fun pkt => .node (.main (.enqueueFragment destMac clock junk pkt))

theorem post_runAll_enqueueFragment (destMac : Mac) (clock : Clock) (junk : UInt32)
    (packets : List Packet) (s : NodeState env) :
    (runAll (packets.map (enqueueFragment destMac clock junk))).post s =
      lifeAfter s (storeSteps destMac clock junk packets) := by
  induction packets generalizing s with
  | nil => rfl
  | cons pkt packets ih => exact ih ((enqueueFragment destMac clock junk pkt).post s)

/-- The command for a node that is offline stores the packets of the message. -/
theorem post_sendCommand_of_offline {targetMac message : Str} {clock : Clock}
    {s : NodeState env} {packets : List Packet} (junk : UInt32) (named : targetMac ≠ [])
    (some' : message ≠ [])
    (offline : (isReachable targetMac (stringToMac targetMac) clock).value s = false)
    (made : (prepareMessage (stringToMac targetMac) message clock).value s = some packets) :
    (sendCommand targetMac message clock junk).post s =
      lifeAfter ((prepareMessage (stringToMac targetMac) message clock).post s)
        (storeSteps (stringToMac targetMac) clock junk packets) := by
  have entered : ¬ (targetMac.length = 0 ∨ message.length = 0) := by
    rw [not_or, List.length_eq_zero_iff, List.length_eq_zero_iff]
    exact ⟨named, some'⟩
  have same : (isReachable targetMac (stringToMac targetMac) clock).post s = s := rfl
  rw [sendCommand, if_neg entered, ← post_runAll_enqueueFragment]
  dsimp only
  rw [post_bind, same, offline, post_bind, made]
  rfl

/-- While the node stores nothing else for the destination and does not hear from it, what it has
stored waits. -/
theorem mailboxes_lifeAfter {s : NodeState env} (h : s.queue.WellKept) (d : Mac)
    (steps : List LifeStep)
    (unheard : ∀ p clock, .node (.network (.packet p clock)) ∈ steps → p.header.source ≠ d) :
    mailboxes (lifeAfter s steps) d = mailboxes s d ++ steps.flatMap (LifeStep.stores d) := by
  have none' : sentTo d s steps = [] := by
    refine keeps_mailboxes.outputs_eq_nil d steps h fun step hstep collect => ?_
    cases step with
    | restart => cases collect
    | node step =>
      cases step with
      | network step =>
        cases step with
        | packet p clock =>
          have collect' : (if p.header.source = env.myMac then .idle else .collect p.header.source :
              Mailboxes.Op Mac (List UInt8)) = .collect d := collect
          split_ifs at collect'
          exact unheard p clock hstep (Mailboxes.Op.collect.inj collect')
        | _ => cases collect
      | main step => cases step <;> cases collect
  have fifo := keeps_mailboxes.fifo d steps h
  simp only [posted_op] at fifo
  rw [fifo]
  show _ = sentTo d s steps ++ _
  rw [none']
  rfl

theorem wellKept_lifeAfter {s : NodeState env} (h : s.queue.WellKept) (steps : List LifeStep) :
    (lifeAfter s steps).queue.WellKept := keeps_mailboxes.run steps h

theorem stores_storeSteps (destMac : Mac) (clock : Clock) (junk : UInt32) (packets : List Packet) :
    (storeSteps destMac clock junk packets).flatMap (LifeStep.stores destMac) =
      packets.map Packet.body := by
  induction packets with
  | nil => rfl
  | cons pkt packets ih =>
    rw [storeSteps, List.map_cons, List.flatMap_cons]
    show (if destMac = destMac then [pkt.body] else []) ++ _ = _
    rw [if_pos rfl, List.map_cons, ← ih]
    rfl

end Node

/-! ## From one node to the other -/

/-- The packets that a node sends for a destination from its queue when it handles a packet. -/
def sentFromQueue {env : NodeEnv} (d : Mac) (s : NodeState env) (received : Packet) (clock : Clock) :
    List Packet :=
  ((sendCalls ((handlePacket received clock).trace s)).filter (OwnDataTo env d)).map Prod.fst

/-- The sequence number that the loop for the queue starts from. -/
theorem seqNum_learnNeighbor {env : NodeEnv} (received : Packet) (clock : Clock) (s : NodeState env) :
    ((learnNeighbor received clock).post s).seqNum = s.seqNum :=
  leaves_learnNeighbor (f := NodeState.seqNum) (fun _ _ _ => rfl) s

section BetweenNodes

variable {a b : NodeEnv} (distinct : a.myMac ≠ b.myMac) (shared : a.baseKey = b.baseKey)

include distinct in
/-- When the other node is heard, the packets of the message are sent as the command would have made
them at this moment. -/
theorem sentFromQueue_eq {targetMac message : Str} {clock : Clock} {s : NodeState a} (junk : UInt32)
    (kept : s.queue.WellKept) (nothing : mailboxes s b.myMac = [])
    (target : stringToMac targetMac = b.myMac) (named : targetMac ≠ []) (some' : message ≠ [])
    (offline : (isReachable targetMac b.myMac clock).value s = false) {packets : List Packet}
    (made : (prepareMessage b.myMac message clock).value s = some packets) (steps : List LifeStep)
    (unheard : ∀ p clock, .node (.network (.packet p clock)) ∈ steps → p.header.source ≠ b.myMac)
    (unstored : steps.flatMap (LifeStep.stores b.myMac) = []) (received : Packet) (later : Clock)
    (source : received.header.source = b.myMac) :
    let s' := lifeAfter ((sendCommand targetMac message clock junk).post s) steps
    (prepareMessage b.myMac message clock).value { s with seqNum := s'.seqNum } =
      some (sentFromQueue b.myMac s' received later) := by
  intro s'
  obtain ⟨encrypted, ok, nonempty, rfl⟩ := exists_encrypted made
  set m := sendingOf s b.myMac encrypted
  have fits : m.data.length ≤ 65535 := by
    obtain ⟨short, len, -⟩ := facts_of_encryptPayload ok nonempty
    show encrypted.length ≤ 65535
    rw [len, paddedLength]
    omega
  obtain ⟨bodies, small, numbered⟩ := exists_bodies m rfl fits
  have queue : ((prepareMessage b.myMac message clock).post s).queue = s.queue :=
    leaves_prepareMessage (f := NodeState.queue) (fun _ _ _ _ => rfl) s
  set s₁ := (sendCommand targetMac message clock junk).post s with s₁_def
  have stored : s₁ = lifeAfter ((prepareMessage b.myMac message clock).post s)
      (storeSteps b.myMac clock junk m.packets) := by
    have command := post_sendCommand_of_offline junk named some' (target.symm ▸ offline)
      (target.symm ▸ made)
    rwa [target] at command
  have waits : s₁.queue.WellKept ∧ mailboxes s₁ b.myMac = bodies := by
    have kept' : ((prepareMessage b.myMac message clock).post s).queue.WellKept := queue ▸ kept
    have own : m.packets = numberedFrom m.src m.dst m.seqNum bodies := numbered m.seqNum
    rw [stored]
    refine ⟨wellKept_lifeAfter kept' _, ?_⟩
    rw [mailboxes_lifeAfter kept' b.myMac _ fun p clock mem => ?_, stores_storeSteps,
      mailboxes_congr queue, nothing, own, map_body_numberedFrom _ _ _ small, List.nil_append]
    obtain ⟨pkt, -, e⟩ := List.mem_map.1 mem
    cases e
  have still : mailboxes s' b.myMac = bodies := by
    rw [mailboxes_lifeAfter waits.1 b.myMac steps unheard, unstored, List.append_nil, waits.2]
  have other : received.header.source ≠ a.myMac := source ▸ distinct.symm
  set s₂ := (learnNeighbor received later).post s'
  have kept₂ : s₂.queue.WellKept := by
    have same : s₂.queue = s'.queue := leaves_learnNeighbor (f := NodeState.queue) (fun _ _ _ => rfl) s'
    rw [same]
    exact wellKept_lifeAfter waits.1 steps
  have boxes : mailboxes s₂ = mailboxes s' :=
    mailboxes_congr (leaves_learnNeighbor (f := NodeState.queue) (fun _ _ _ => rfl) s')
  have sent := packets_autoDeliver kept₂ received
  rw [boxes, source, still, seqNum_learnNeighbor] at sent
  rw [value_prepareMessage ok nonempty, sentFromQueue, filter_handlePacket, if_pos ⟨other, source⟩, sent]
  exact congrArg some (numbered s'.seqNum)

include distinct shared in
/-- A message for a node that is offline, and for which nothing waits, arrives once that node has been
heard, as a message that is sent at once does. However often the sender is started again in between and
whatever else it does, it does not hear the node and stores nothing else for it, and the node holds no
fragments under the ids of the packets. -/
theorem stored_message_arrives {targetMac message : Str} {clock : Clock} {s : NodeState a}
    (junk : UInt32) (kept : s.queue.WellKept) (nothing : mailboxes s b.myMac = [])
    (target : stringToMac targetMac = b.myMac) (named : targetMac ≠ []) (pos : 1 ≤ message.length)
    (short : message.length ≤ 1007) (offline : (isReachable targetMac b.myMac clock).value s = false)
    (steps : List LifeStep)
    (unheard : ∀ p clock, .node (.network (.packet p clock)) ∈ steps → p.header.source ≠ b.myMac)
    (unstored : steps.flatMap (LifeStep.stores b.myMac) = []) (received : Packet) (later : Clock)
    (source : received.header.source = b.myMac) :
    let packets := sentFromQueue b.myMac
      (lifeAfter ((sendCommand targetMac message clock junk).post s) steps) received later
    ∀ (t : NodeState b) (arrivals : List (Packet × Clock)), (arrivals.map Prod.fst).Perm packets →
      (∀ p ∈ packets, p.IsFragment → t.fragMgr.partials[p.fragHeader.msgId]? = none) →
      (messages ((deliverAll arrivals).trace t) = [(macToString a.myMac, message)] ↔
        Recognized message clock) := by
  intro packets t arrivals perm unknown
  obtain ⟨packets₀, made, -⟩ := exists_sent distinct shared pos short clock s
  have renumbered := sentFromQueue_eq distinct junk kept nothing target named
    (List.ne_nil_of_length_pos pos) offline made steps unheard unstored received later source
  obtain ⟨packets', made', -, arrive⟩ := exists_sent distinct shared pos short clock { s with
    seqNum := (lifeAfter ((sendCommand targetMac message clock junk).post s) steps).seqNum }
  obtain rfl : packets' = packets := Option.some.inj (made'.symm.trans renumbered)
  have outcome := arrive t arrivals perm unknown
  split_ifs at outcome with recognized
  · exact iff_of_true outcome.messages_eq recognized
  · refine iff_of_false (fun h => ?_) recognized
    rw [outcome] at h
    exact List.cons_ne_nil _ _ h.symm

end BetweenNodes

/-- The sender is started again before the other node is heard. -/
theorem stored_message_arrives_hi :
    messages ((deliverAll ((sentFromQueue receiverEnv.myMac
        (lifeAfter ((sendCommand (macToString receiverEnv.myMac) (text "hi") atNoon 0).post
          (NodeState.start senderEnv none)) [.restart]) (helloFrom receiverEnv.myMac) atNoon).map
        fun p => (p, atNoon))).trace (NodeState.start receiverEnv none)) =
      [(macToString senderEnv.myMac, text "hi")] := by
  obtain ⟨kept, entries⟩ := RueQueue.wellKept_start (.inl ⟨rfl, rfl⟩) RueQueue.noneTooLong_nil
  have nothing : mailboxes (NodeState.start senderEnv none) receiverEnv.myMac = [] :=
    congrArg (fun es => (es.filter fun e => e.destMac == receiverEnv.myMac).map RueEntry.body) entries
  have distinct : senderEnv.myMac ≠ receiverEnv.myMac := by decide
  have pos : 1 ≤ (text "hi").length := by decide
  have named : macToString receiverEnv.myMac ≠ [] := by decide
  have offline : (isReachable (macToString receiverEnv.myMac) receiverEnv.myMac atNoon).value
      (NodeState.start senderEnv none) = false := rfl
  have unheard : ∀ p clock, LifeStep.node (.network (.packet p clock)) ∈ [LifeStep.restart] →
      p.header.source ≠ receiverEnv.myMac := fun p clock mem => by
    cases List.mem_singleton.1 mem
  have order (packets : List Packet) :
      ((packets.map fun p => (p, atNoon)).map Prod.fst).Perm packets := by
    simp [List.map_map, Function.comp_def]
  have arrives := stored_message_arrives distinct rfl 0 kept nothing
    (stringToMac_macToString receiverEnv.myMac) named pos (by decide) offline [.restart] unheard rfl
    (helloFrom receiverEnv.myMac) atNoon rfl (NodeState.start receiverEnv none) _ (order _)
    fun p _ _ => Std.ExtTreeMap.getElem?_empty
  exact arrives.2 (.inr (by decide))

end Araba
