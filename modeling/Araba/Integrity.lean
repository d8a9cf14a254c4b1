import Araba.Duplicates
import Araba.QueueOrder

/-!
# Integrity

In a mesh with one base key, what a node reports as received from another one in a single packet was
typed there for it. The packets that the main threads hold, the entries of the queues and the DATA
packets on the air all carry payloads that were made for typed messages.
-/

namespace Araba

open Bytes Traced

/-- A message that was typed at a node for a destination. -/
structure Typed where
  source : Mac
  dest : Mac
  message : Str
  deriving DecidableEq

/-- The payload of a packet that a typed message was made into. -/
def Genuine (E : MeshEnv) (typed : List Typed) (source dest : Mac) (body : List UInt8) : Prop :=
  ∃ message, ⟨source, dest, message⟩ ∈ typed ∧ message ≠ [] ∧
    ∃ (clock : Clock) (s : NodeState (E.env source)) (packets : List Packet),
      (prepareMessage dest message clock).value s = some packets ∧ ∃ p ∈ packets, p.body = body

theorem Genuine.mono {E : MeshEnv} {typed typed' : List Typed} {source dest : Mac} {body : List UInt8}
    (more : typed ⊆ typed') (h : Genuine E typed source dest body) :
    Genuine E typed' source dest body := by
  obtain ⟨message, mem, made⟩ := h
  exact ⟨message, more mem, made⟩

/-- Whether a packet is taken for a fragment can be seen from the bytes that count. -/
theorem Packet.isFragment_iff_body (p : Packet) :
    p.IsFragment ↔
      FragHeader.sizeof ≤ p.body.length ∧ 1 < (FragHeader.ofBytes p.body).fragTotal := by
  have len : p.body.length = min p.header.payloadLen.toNat 512 := by
    rw [Packet.body, length_slice, Nat.sub_zero]
  rw [Packet.IsFragment, len, FragHeader.sizeof]
  by_cases long : 6 ≤ p.header.payloadLen.toNat
  · have fourth : p.body[3]? = p.payload.toList[3]? := by
      rw [Packet.body, slice, List.drop_zero, List.getElem?_take_of_lt (by omega)]
    have same : (FragHeader.ofBytes p.body).fragTotal = p.fragHeader.fragTotal := by
      show p.body[3]?.getD 0 = p.payload.toList[3]?.getD 0
      rw [fourth]
    rw [same]
    exact and_congr_left fun _ => iff_of_true long (by omega)
  · exact iff_of_false (fun h => long h.1) fun h => by omega

/-- A payload that was made for a typed message and is not taken for a fragment is decrypted to the
message, where the keys agree. -/
theorem Genuine.decrypt {E : MeshEnv} {typed : List Typed} {source dest : Mac}
    (shared : E.baseKey source = E.baseKey dest) {p : Packet} (h : Genuine E typed source dest p.body)
    (single : ¬ p.IsFragment) :
    ∃ message, ⟨source, dest, message⟩ ∈ typed ∧ message ≠ [] ∧
      decryptPayload p.body 1024 ((E.env dest).cipher source) = .ok message := by
  obtain ⟨message, mem, some', clock, s, packets, sent, q, hq, body⟩ := h
  obtain ⟨encrypted, made, nonempty, rfl⟩ := exists_encrypted sent
  obtain ⟨short, len, -, back⟩ := facts_of_encryptPayload made nonempty
  have keys : (E.env source).cipher dest = (E.env dest).cipher source :=
    cipher_comm (a := E.env source) (b := E.env dest) shared
  have same : q.IsFragment ↔ p.IsFragment := by
    rw [q.isFragment_iff_body, p.isFragment_iff_body, body]
  refine ⟨message, mem, some', ?_⟩
  set m := sendingOf s dest encrypted
  by_cases one : encrypted.length ≤ maxFragPayload
  · have only : m.packets = [(Packet.init .data source dest s.seqNum).fill encrypted] := by
      rw [Sending.packets, FragmentManager.fragmentMessage]
      exact congrArg Prod.fst (if_pos one)
    rw [only, List.mem_singleton] at hq
    have whole : p.body = encrypted := by
      rw [← body, hq]
      exact Packet.body_fill _ _ (one.trans (by decide))
    rw [whole, ← keys]
    exact back 1024 (by omega)
  · have fragmented : m.Fragmented := by
      refine ⟨not_le.1 one, ?_⟩
      show encrypted.length ≤ 65535
      rw [len, paddedLength]
      omega
    exact absurd (same.1 (fragmented.isFragment_of_mem hq)) single

/-! ## What a node holds -/

/-- The entries of a node's queue carry payloads of messages that were typed at it. -/
structure GenuineQueue (E : MeshEnv) (typed : List Typed) (m : Mac) (q : RueQueue) : Prop where
  kept : q.WellKept
  genuine : ∀ e ∈ q.getAll, Genuine E typed m e.destMac e.body

/-- The packets that the main thread has still to transmit or to store carry such payloads too. -/
def SendPoint.Genuine (E : MeshEnv) (typed : List Typed) (m : Mac) : SendPoint → Prop
  | idle => True
  | checked _ destMac message => ⟨m, destMac, message⟩ ∈ typed ∧ message ≠ []
  | keyed _ destMac message => ⟨m, destMac, message⟩ ∈ typed ∧ message ≠ []
  | prepared destMac _ fragments => ∀ p ∈ fragments, Araba.Genuine E typed m destMac p.body
  | transmitting _ destMac _ _ rest => ∀ p ∈ rest, Araba.Genuine E typed m destMac p.body
  | enqueuing destMac rest => ∀ p ∈ rest, Araba.Genuine E typed m destMac p.body

/-- A DATA packet carries a payload of a message that was typed at its source for its destination. -/
def GenuineData (E : MeshEnv) (typed : List Typed) (p : Packet) : Prop :=
  p.header.type = .data → Genuine E typed p.header.source p.header.dest p.body

section Node

variable {E : MeshEnv} {typed typed' : List Typed} {m : Mac}

theorem GenuineQueue.mono {q : RueQueue} (more : typed ⊆ typed') (h : GenuineQueue E typed m q) :
    GenuineQueue E typed' m q where
  kept := h.kept
  genuine e he := (h.genuine e he).mono more

theorem SendPoint.Genuine.mono {point : SendPoint} (more : typed ⊆ typed')
    (h : point.Genuine E typed m) : point.Genuine E typed' m := by
  cases point with
  | idle => trivial
  | checked reachable destMac message => exact ⟨more h.1, h.2⟩
  | keyed reachable destMac message => exact ⟨more h.1, h.2⟩
  | prepared destMac message fragments => exact fun p hp => (h p hp).mono more
  | transmitting ackSeq destMac message fragments rest => exact fun p hp => (h p hp).mono more
  | enqueuing destMac rest => exact fun p hp => (h p hp).mono more

/-- The packets that are prepared are those of the message that was typed. -/
theorem SendPoint.Genuine.advance {point : SendPoint} (h : point.Genuine E typed m) (clock : Clock)
    (junk : UInt32) (s : NodeState (E.env m)) :
    ((point.advance clock junk).value s).Genuine E typed m := by
  cases point with
  | idle => trivial
  | checked reachable destMac message => exact h
  | keyed reachable destMac message =>
    rw [SendPoint.value_advance_keyed]
    cases made : (prepareMessage destMac message clock).value s with
    | none => trivial
    | some fragments =>
      have genuine : ∀ p ∈ fragments, Araba.Genuine E typed m destMac p.body := fun p hp =>
        ⟨message, h.1, h.2, clock, s, fragments, made, p, hp, rfl⟩
      show SendPoint.Genuine E typed m (if reachable then _ else _)
      split_ifs
      · exact genuine
      · exact genuine
  | prepared destMac message fragments => exact h
  | transmitting ackSeq destMac message fragments rest =>
    cases rest with
    | nil => trivial
    | cons pkt rest => exact fun p hp => h p (List.mem_cons_of_mem _ hp)
  | enqueuing destMac rest =>
    cases rest with
    | nil => trivial
    | cons pkt rest => exact fun p hp => h p (List.mem_cons_of_mem _ hp)

theorem GenuineQueue.advance {point : SendPoint} {s : NodeState (E.env m)}
    (h : GenuineQueue E typed m s.queue) (holds : point.Genuine E typed m) (clock : Clock)
    (junk : UInt32) : GenuineQueue E typed m ((point.advance clock junk).post s).queue := by
  cases point with
  | idle => exact h
  | checked reachable destMac message => exact h
  | keyed reachable destMac message =>
    rw [SendPoint.post_advance_keyed, (leaves_encryptWithCipher (f := NodeState.queue)
      fun _ _ _ => rfl).post]
    exact h
  | prepared destMac message fragments => exact h
  | transmitting ackSeq destMac message fragments rest => cases rest <;> exact h
  | enqueuing destMac rest =>
    cases rest with
    | nil => exact h
    | cons pkt rest =>
      have fits := length_body pkt
      obtain ⟨kept, entries⟩ := h.kept.enqueue destMac fits clock.time junk
      have body := RueQueue.body_queuedEntry destMac fits clock.time
      refine ⟨kept, fun e he => ?_⟩
      have mem : e ∈ s.queue.getAll ++ [_] := entries ▸ he
      rcases List.mem_append.1 mem with old | new
      · exact h.genuine e old
      · rw [List.mem_singleton.1 new, body]
        exact holds pkt List.mem_cons_self

/-- What a node sends when it handles a packet: what the loop sends for queued entries, advertisements,
acknowledgements, and the packet itself. -/
theorem sends_handlePacket {env : NodeEnv} {P : Packet → Prop} {s : NodeState env} {received : Packet}
    {clock : Clock} (other : received.header.source ≠ env.myMac)
    (queued : ∀ e ∈ (autoDeliver received).trace ((learnNeighbor received clock).post s), e.Sends P)
    (advert : ∀ p : Packet, p.header.type = .routeAdv → P p)
    (ack : ∀ p : Packet, p.header.type = .ack → P p)
    (relay : received.header.type = .data → P (received.withTtl (received.header.ttl - 1))) :
    ∀ e ∈ (handlePacket received clock).trace s, e.Sends P := by
  have learned : Preserves (fun _ => True) (Effect.Sends P)
      (learnNeighbor received clock : Action env Unit) :=
    preserves_learnNeighbor (fun _ _ _ _ => trivial) trivial
  have control : Preserves (fun _ => True) (Effect.Sends P) (do
      handleDiscovery received
      handleRouteAdv received clock
      handleAck received : Action env Unit) :=
    .bind (preserves_handleDiscovery (fun _ _ _ => trivial) fun _ _ => advert _ rfl) fun _ =>
      .bind (preserves_handleRouteAdv (fun _ _ _ => trivial) trivial) fun _ =>
      preserves_handleAck (fun _ _ _ => trivial) fun _ => trivial
  have data : Preserves (fun _ => True) (Effect.Sends P) (handleData received clock : Action env Unit) :=
    preserves_handleData (fun _ _ _ _ => trivial) trivial trivial trivial (fun _ _ => trivial)
      (fun _ _ => .emit (ack _ rfl)) fun data _ _ => relay data
  intro e he
  rw [trace_handlePacket other] at he
  simp only [List.mem_append, List.mem_singleton] at he
  obtain rfl | he | he | rfl := he
  · trivial
  · rcases List.mem_append.1 he with he | he
    · exact (learned s trivial).2 e he
    · rcases List.mem_append.1 he with he | he
      · exact queued e he
      · exact (control _ trivial).2 e he
  · exact (data _ trivial).2 e he
  · trivial

theorem genuine_autoDeliver {s : NodeState (E.env m)} (received : Packet)
    (h : GenuineQueue E typed m s.queue) :
    ∀ e ∈ (autoDeliver received).trace s, e.Sends (GenuineData E typed) := by
  have own : Preserves (fun _ => True) (Effect.Sends fun p => p.header.source = m)
      (autoDeliver received : Action (E.env m) Unit) :=
    preserves_autoDeliver (fun _ _ _ _ => trivial) (fun _ => trivial) trivial fun _ _ _ own => own
  intro effect he
  cases effect with
  | send packet link =>
    have call : (packet, link) ∈ sendCalls ((autoDeliver received).trace s) :=
      List.mem_filterMap.2 ⟨_, he, rfl⟩
    have read : (packet.header.dest, packet.body) ∈
        (carried s received).map fun e => (e.destMac, e.body) :=
      map_eq_of_carries (f := fun call => (call.1.header.dest, call.1.body))
        (g := fun e => (e.destMac, e.body)) (fun _ _ carries => Prod.ext carries.2.1 carries.2.2.2.2)
        (autoDeliver_spec received s).1 ▸ List.mem_map_of_mem call
    obtain ⟨e, mem, same⟩ := List.mem_map.1 read
    obtain ⟨dest, body⟩ := Prod.mk.inj same
    have source : packet.header.source = m := (own s trivial).2 _ he
    intro _
    rw [source, ← dest, ← body]
    exact h.genuine e (List.mem_filter.1 mem).1
  | _ => trivial

/-- A node that handles a genuine packet sends genuine ones, and keeps such entries only. -/
theorem genuine_handlePacket {s : NodeState (E.env m)} {received : Packet} (clock : Clock)
    (h : GenuineQueue E typed m s.queue) (genuine : GenuineData E typed received) :
    GenuineQueue E typed m ((handlePacket received clock).post s).queue ∧
      ∀ e ∈ (handlePacket received clock).trace s, e.Sends (GenuineData E typed) := by
  by_cases own : received.header.source = (E.env m).myMac
  · rw [handlePacket, if_pos own]
    exact ⟨h, fun e he => absurd he List.not_mem_nil⟩
  refine ⟨⟨wellKept_handlePacket received clock h.kept, fun e he => ?_⟩, fun e he => ?_⟩
  · rw [queue_handlePacket own] at he
    exact h.genuine e (List.mem_filter.1 he).1
  have queue : ((learnNeighbor received clock).post s).queue = s.queue :=
    leaves_learnNeighbor (f := NodeState.queue) (fun _ _ _ => rfl) s
  refine sends_handlePacket own (genuine_autoDeliver received (queue ▸ h)) (fun p type data => ?_)
    (fun p type data => ?_) (fun _ => genuine) e he
  · exact absurd (type.symm.trans data) (by decide)
  · exact absurd (type.symm.trans data) (by decide)

end Node

/-! ## The mesh -/

namespace Mesh

variable {E : MeshEnv} {M : Mesh E} {typed typed' : List Typed}

/-- The message that is typed in a step: a command that is complete, at a node that is at its
prompt. -/
def typedIn (M : Mesh E) : MeshStep → List Typed
  | .command m targetMac message _ =>
    match (M.sites m).main with
    | .idle =>
      if targetMac.length = 0 ∨ message.length = 0 then []
      else [⟨m, stringToMac targetMac, message⟩]
    | _ => []
  | _ => []

/-- The messages that are typed in a run. -/
def typedOf : Mesh E → List MeshStep → List Typed
  | _, [] => []
  | M, op :: steps => M.typedIn op ++ typedOf (M.step op) steps

/-- All that the nodes hold and all that is on the air was made for typed messages. -/
structure Authentic (M : Mesh E) (typed : List Typed) : Prop where
  main : ∀ m, (M.sites m).main.Genuine E typed m
  queued : ∀ m, GenuineQueue E typed m (M.sites m).state.queue
  air : ∀ t ∈ M.air, GenuineData E typed t.packet

theorem authentic_put {m : Mac} {x : Site (E.env m)} {ts : List Transmission} (h : M.Authentic typed)
    (more : typed ⊆ typed') (main : x.main.Genuine E typed' m)
    (queued : GenuineQueue E typed' m x.state.queue) (air : ∀ t ∈ ts, GenuineData E typed' t.packet) :
    (M.put m x ts).Authentic typed' where
  main := forall_sites_put (P := fun n y => y.main.Genuine E typed' n)
    (fun n => (h.main n).mono more) main
  queued := forall_sites_put (P := fun n y => GenuineQueue E typed' n y.state.queue)
    (fun n => (h.queued n).mono more) queued
  air t ht := by
    rcases List.mem_append.1 ht with old | new
    · exact fun data => (h.air t old data).mono more
    · exact air t new

theorem genuine_transmissions {m : Mac} {cause : Option Packet} {es : List Effect}
    (h : ∀ e ∈ es, e.Sends (GenuineData E typed)) :
    ∀ t ∈ transmissions m cause es, GenuineData E typed t.packet := by
  intro t ht
  obtain ⟨call, hcall, rfl⟩ := List.mem_map.1 ht
  exact forall_mem_sendCalls h call hcall

/-- A part of the network thread that leaves the queue alone and sends no DATA packets. -/
theorem authentic_quiet {m : Mac} {a : Action (E.env m) Unit} (h : M.Authentic typed)
    (quiet : Preserves (fun s => s.queue = (M.sites m).state.queue)
      (Effect.Sends fun p => p.header.type ≠ .data) a) : (M.network m none a).Authentic typed := by
  obtain ⟨queue, sent⟩ := quiet (M.sites m).state rfl
  refine authentic_put h (List.Subset.refl _) (h.main m) (queue ▸ h.queued m)
    (genuine_transmissions fun e he => ?_)
  have other := sent e he
  cases e with
  | send p link => exact fun data => absurd data other
  | _ => trivial

/-- What was typed before stays typed, and a step adds what is typed in it. -/
theorem authentic_step (op : MeshStep) (traceable : M.Traceable) (h : M.Authentic typed) :
    (M.step op).Authentic (typed ++ M.typedIn op) := by
  have same {op : MeshStep} (none' : M.typedIn op = []) (h : (M.step op).Authentic typed) :
      (M.step op).Authentic (typed ++ M.typedIn op) := by
    rw [none', List.append_nil]
    exact h
  cases op with
  | hello m =>
    have hello : PacketType.discovery ≠ .data := by decide
    exact same rfl (authentic_quiet h (preserves_sendHello (fun _ _ hs => hs)
      fun p type _ data => hello (type.symm.trans data)))
  | hear m i clock =>
    refine same rfl ?_
    cases got : M.air[i]? with
    | none =>
      rw [step, got]
      exact h
    | some t =>
      obtain ⟨queued, sent⟩ := genuine_handlePacket clock (h.queued m)
        (h.air t (List.mem_of_getElem? got))
      rw [step, got]
      exact authentic_put h (List.Subset.refl _) (h.main m) queued (genuine_transmissions sent)
  | retry m clock =>
    exact same rfl (authentic_quiet h (preserves_retryPass (fun _ _ hs => hs) fun _ => trivial))
  | cleanup m clock =>
    exact same rfl (authentic_quiet h (preserves_cleanupTick fun _ _ _ hs => hs))
  | command m targetMac message clock =>
    cases point : (M.sites m).main with
    | idle =>
      have typed_eq : M.typedIn (.command m targetMac message clock) =
          if targetMac.length = 0 ∨ message.length = 0 then []
          else [⟨m, stringToMac targetMac, message⟩] := by
        simp only [typedIn, point]
      have leaves : Leaves NodeState.queue
          (SendPoint.start targetMac message clock : Action (E.env m) SendPoint) :=
        SendPoint.leaves_start _ targetMac message
      have silent : Preserves (fun _ => True) (Effect.Sends (GenuineData E (typed ++ M.typedIn
          (.command m targetMac message clock))))
          (SendPoint.start targetMac message clock : Action (E.env m) SendPoint) :=
        SendPoint.preserves_start trivial trivial targetMac message
      have more : typed ⊆ typed ++ M.typedIn (.command m targetMac message clock) :=
        List.subset_append_left _ _
      have stepped : M.step (.command m targetMac message clock) =
          M.mainThread m (SendPoint.start targetMac message clock) := by
        rw [step, point]
      rw [stepped]
      refine authentic_put h more ?_ ?_ (genuine_transmissions (silent _ trivial).2)
      · rw [typed_eq, SendPoint.start, value_ite]
        split_ifs with empty
        · trivial
        · rw [not_or] at empty
          exact ⟨List.mem_append_right _ (List.mem_singleton_self _),
            fun none' => empty.2 (congrArg List.length none')⟩
      · show GenuineQueue E _ m ((SendPoint.start targetMac message clock).post _).queue
        rw [leaves.post]
        exact (h.queued m).mono more
    | _ =>
      have stepped : M.step (.command m targetMac message clock) = M := by rw [step, point]
      refine same ?_ ?_
      · simp only [typedIn, point]
      · rw [stepped]
        exact h
  | advance m clock junk =>
    refine same rfl (authentic_put h (List.Subset.refl _) ((h.main m).advance clock junk _)
      ((h.queued m).advance (h.main m) clock junk) (genuine_transmissions ?_))
    have sends : Preserves (fun _ => True) (Effect.Sends (GenuineData E typed))
        ((M.sites m).main.advance clock junk : Action (E.env m) SendPoint) := by
      refine SendPoint.preserves_advance _ (fun _ _ _ _ _ _ _ _ => trivial) trivial trivial trivial ?_
      intro ackSeq destMac message fragments pkt rest next
      obtain ⟨-, source, dest⟩ := (traceable.prepared m).isMessage next
      have holds := h.main m
      rw [next] at holds
      intro _
      rw [dest, show pkt.header.source = m from source]
      exact holds pkt List.mem_cons_self
    exact (sends _ trivial).2

theorem authentic_start : (start fun _ => none : Mesh E).Authentic [] where
  main _ := trivial
  queued m := by
    obtain ⟨kept, entries⟩ := RueQueue.wellKept_start (.inl ⟨rfl, rfl⟩) RueQueue.noneTooLong_nil
    refine ⟨kept, fun e he => ?_⟩
    have none' : e ∈ ([] : List RueEntry) := entries ▸ he
    exact absurd none' List.not_mem_nil
  air t ht := absurd ht List.not_mem_nil

/-- In every run. -/
theorem authentic_after (steps : List MeshStep) (traceable : M.Traceable) (h : M.Authentic typed) :
    (M.after steps).Authentic (typed ++ typedOf M steps) := by
  induction steps generalizing M typed with
  | nil =>
    rw [typedOf, List.append_nil]
    exact h
  | cons op steps ih =>
    rw [typedOf, ← List.append_assoc]
    exact ih (traceable_step op traceable) (authentic_step op traceable h)

end Mesh

/-! ## What is reported -/

/-- A packet that is not taken for a fragment is reported when it is for the node and can be
decrypted. -/
theorem exists_decrypted_of_reported {env : NodeEnv} {p : Packet} {clock : Clock} {s : NodeState env}
    (single : ¬ p.IsFragment) {src msg : Str}
    (reported : (src, msg) ∈ messages ((handlePacket p clock).trace s)) :
    p.header.type = .data ∧ p.header.dest = env.myMac ∧ src = macToString p.header.source ∧
      decryptPayload p.body 1024 (env.cipher p.header.source) = .ok msg := by
  by_cases own : p.header.source = env.myMac
  · rw [handlePacket, if_pos own] at reported
    exact absurd reported List.not_mem_nil
  obtain ⟨s', -, same, -⟩ := handlePacket_eq clock s own
  rw [same, handleData] at reported
  by_cases data : p.header.type = .data
  · rw [if_pos data, if_neg single, handleSingle] at reported
    cases dec : decryptPayload p.body 1024 (env.cipher p.header.source) with
    | error e =>
      rw [decryptThen, trace_bind, value_getPairCipher, dec] at reported
      cases e
      exact absurd reported List.not_mem_nil
    | ok d =>
      rw [messages_decryptThen dec, deliverSingle, trace_ite, trace_ite] at reported
      split_ifs at reported with empty notMine
      · exact absurd reported List.not_mem_nil
      · rw [messages_forward] at reported
        exact absurd reported List.not_mem_nil
      · obtain ⟨rfl, rfl⟩ := Prod.mk.inj (List.mem_singleton.1 reported)
        exact ⟨data, not_not.1 notMine, rfl, rfl⟩
  · rw [if_neg data] at reported
    exact absurd reported List.not_mem_nil

theorem GenuineData.typed_of_reported {E : MeshEnv} (shared : ∀ m n, E.baseKey m = E.baseKey n)
    {typed : List Typed} {p : Packet} (genuine : GenuineData E typed p) (single : ¬ p.IsFragment)
    {m : Mac} {clock : Clock} {s : NodeState (E.env m)} {src msg : Str}
    (reported : (src, msg) ∈ messages ((handlePacket p clock).trace s)) :
    ∃ source, src = macToString source ∧ ⟨source, m, msg⟩ ∈ typed := by
  obtain ⟨data, mine, name, dec⟩ := exists_decrypted_of_reported single reported
  have made := genuine data
  rw [mine] at made
  obtain ⟨message, mem, -, dec'⟩ := made.decrypt (shared _ _) single
  have same : msg = message := Except.ok.inj (dec.symm.trans dec')
  exact ⟨p.header.source, name, same ▸ mem⟩

namespace Mesh

variable {E : MeshEnv}

/-- In every run of a mesh with one base key whose queues are empty at first, whatever a node reports
when it handles a packet from the air that is not taken for a fragment was typed before at the node
that is named, for the node that reports it. -/
theorem reported_was_typed (shared : ∀ m n, E.baseKey m = E.baseKey n) (steps : List MeshStep) (m : Mac)
    (clock : Clock) (t : Transmission) (heard : t ∈ ((start fun _ => none : Mesh E).after steps).air)
    (single : ¬ t.packet.IsFragment) (src msg : Str)
    (reported : (src, msg) ∈ messages ((handlePacket t.packet clock).trace
      (((start fun _ => none : Mesh E).after steps).sites m).state)) :
    ∃ source, src = macToString source ∧
      ⟨source, m, msg⟩ ∈ typedOf (start fun _ => none : Mesh E) steps := by
  have authentic := authentic_after steps (traceable_start fun _ => none) (authentic_start (E := E))
  exact (authentic.air t heard).typed_of_reported shared single reported

/-- A message of one packet that is recognized is not taken for a fragment. -/
theorem not_isFragment_of_prepared {env : NodeEnv} {destMac : Mac} {message : Str} {clock : Clock}
    {s : NodeState env} {p : Packet}
    (sent : (prepareMessage destMac message clock).value s = some [p])
    (short : message.length ≤ 463) (recognized : (generateIv clock.steady).get 3 ≤ 1) :
    ¬ p.IsFragment := by
  obtain ⟨encrypted, made, some', packets⟩ := exists_encrypted sent
  obtain ⟨-, len, ⟨rest, front⟩, -⟩ := facts_of_encryptPayload made some'
  have one : encrypted.length ≤ maxFragPayload := by
    rw [len, paddedLength, maxFragPayload]
    omega
  set m := sendingOf s destMac encrypted
  have only : m.packets = [(Packet.init m.type m.src m.dst m.seqNum).fill m.data] := by
    rw [Sending.packets, FragmentManager.fragmentMessage, if_pos (show m.data.length ≤ _ from one)]
  rw [only] at packets
  obtain rfl := List.singleton_inj.1 packets
  have small : m.data.length ≤ 512 := one.trans (by decide)
  rw [Sending.isFragment_single small front]
  exact UInt8.not_lt.2 recognized

/-- Of two nodes that have met, the first one sends a message of two bytes. -/
theorem exists_hi_on_air :
    ∃ (steps : List MeshStep) (p : Packet),
      ⟨firstMac, p, secondMac, none⟩ ∈ ((start fun _ => none : Mesh smallMesh).after steps).air ∧
        ¬ p.IsFragment ∧
        (((start fun _ => none : Mesh smallMesh).after steps).sites secondMac).state.fragMgr.partials =
          ∅ ∧
        ∀ s : NodeState (smallMesh.env secondMac), s.fragMgr.partials = ∅ →
          (macToString firstMac, text "hi") ∈ messages ((handlePacket p atNoon).trace s) := by
  set x := introduced.sites firstMac
  obtain ⟨p, made, -, answered⟩ :=
    exists_answered (a := smallMesh.env firstMac) (b := smallMesh.env secondMac) distinct_macs rfl
      (show 1 ≤ (text "hi").length by decide) atNoon x.state (by decide) (by decide)
  obtain ⟨y, sent, -⟩ :=
    after_send_introduced (show text "hi" ≠ [] by decide) made (show _ = 1 from rfl)
  set N := introduced.put firstMac y [⟨firstMac, p, secondMac, none⟩]
  set steps : List MeshStep :=
    [.hello secondMac, .hear firstMac 0 atNoon] ++ sendSteps firstMac secondMac (text "hi") atNoon 1
  have reached : (start fun _ => none : Mesh smallMesh).after steps = N := by
    rw [after_append]
    exact sent
  have site : N.sites secondMac = introduced.sites secondMac := sites_put_of_ne (by decide)
  refine ⟨steps, p, ?_, not_isFragment_of_prepared made (by decide) (by decide), ?_, fun s fresh => ?_⟩
  · rw [reached]
    exact List.mem_append_right _ (List.mem_singleton_self _)
  · rw [reached, site]
    rfl
  · rw [(answered s atNoon fresh).1]
    exact List.mem_singleton_self _

/-- A message that is typed at one node and reported by the other. -/
theorem reported_was_typed_hi :
    ∃ (steps : List MeshStep) (t : Transmission),
      t ∈ ((start fun _ => none : Mesh smallMesh).after steps).air ∧
        (macToString firstMac, text "hi") ∈ messages ((handlePacket t.packet atNoon).trace
          (((start fun _ => none : Mesh smallMesh).after steps).sites secondMac).state) ∧
        ∃ source, macToString firstMac = macToString source ∧
          ⟨source, secondMac, text "hi"⟩ ∈ typedOf (start fun _ => none : Mesh smallMesh) steps := by
  obtain ⟨steps, p, heard, single, fresh, reported⟩ := exists_hi_on_air
  exact ⟨steps, _, heard, reported _ fresh, reported_was_typed (fun _ _ => rfl) steps secondMac atNoon _
    heard single _ _ (reported _ fresh)⟩

end Mesh

end Araba
