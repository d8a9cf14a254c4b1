import Araba.AutoDelivery
import Araba.Delivery
import Araba.Padding

/-!
# Relaying

A node that gets a single packet for another node looks for a fragment header in its payload and
decrypts it with the key that it shares with the packet's source before it thinks of forwarding it. So
whether it forwards the packet depends on bytes that mean nothing to it.
-/

namespace Araba

open Bytes Traced

/-! ## The packets that a node sends on -/

/-- The calls of `send_packet` for packets of a source. -/
def relayed (source : Mac) (es : List Effect) : List (Packet × Mac) :=
  (sendCalls es).filter fun call => call.1.header.source == source

@[simp] theorem relayed_append (source : Mac) (es fs : List Effect) :
    relayed source (es ++ fs) = relayed source es ++ relayed source fs := by
  simp [relayed]

/-- The packet as it is sent on. -/
def Packet.withTtl (p : Packet) (ttl : UInt8) : Packet :=
  { p with header := { p.header with ttl := ttl } }

variable {env : NodeEnv} {p : Packet} {clock : Clock} {s : NodeState env}

theorem relayed_of_sentBy {source : Mac} (other : source ≠ env.myMac) {es : List Effect}
    (own : ∀ e ∈ es, e.SentBy env.myMac) : relayed source es = [] := by
  rw [relayed, List.filter_eq_nil_iff]
  intro call hcall
  obtain ⟨e, he, sent⟩ := List.mem_filterMap.1 hcall
  cases e with
  | send packet link =>
    obtain rfl := Option.some.inj sent
    have mine : packet.header.source = env.myMac := own _ he
    simp [mine, other.symm]
  | _ => cases sent

theorem relayed_handlePacket (other : p.header.source ≠ env.myMac) :
    relayed p.header.source ((handlePacket p clock).trace s) =
      relayed p.header.source ((handleData p clock).trace ((handleControl p clock).post s)) := by
  have control := relayed_of_sentBy other (sentBy_handleControl p clock s trivial).2
  rw [trace_handlePacket other, relayed_append, relayed_append, relayed_append, control]
  simp [relayed, sendCalls]

/-- The DATA branch finds the routes as they are after the source has become a neighbour. -/
theorem table_handleControl (data : p.header.type = .data) :
    ((handleControl p clock).post s).table = ((learnNeighbor p clock).post s).table := by
  have notAdv : p.header.type ≠ .routeAdv := data ▸ by decide
  have idle : (handleRouteAdv p clock : Action env Unit) = pure () := if_neg notAdv
  rw [handleControl, idle, post_bind, post_bind, post_bind, post_bind, post_pure,
    (leaves_handleAck (f := NodeState.table) fun _ _ => rfl).post,
    (leaves_handleDiscovery (f := NodeState.table) fun _ _ => rfl).post,
    (leaves_autoDeliver (f := NodeState.table) fun _ _ _ => rfl).post]

/-- A packet goes to the next hop of the route to its destination. -/
theorem sendCalls_forward {route : RouteEntry}
    (found : s.table.findNextHop p.header.dest clock.time = some route) (alive : 1 < p.header.ttl) :
    sendCalls ((forward p clock).trace s) =
      [(p.withTtl (p.header.ttl - 1), route.nextHop)] := by
  rw [forward, trace_bind, value_get, post_get, found]
  show sendCalls ([] ++ trace (if p.header.ttl > 1 then _ else _) _) = _
  rw [if_pos (show p.header.ttl > 1 from alive)]
  rfl

section ForAnother

variable (notMine : p.header.dest ≠ env.myMac)

include notMine

theorem sendCalls_handleFragment : sendCalls ((handleFragment p clock).trace s) = [] := by
  cases done : ((reassembleCall p clock).run s.fragMgr).complete with
  | false =>
    rw [(handleFragment_of_incomplete done).1]
    rfl
  | true =>
    rw [handleFragment_of_complete done, decryptThen, trace_bind, sendCalls_append]
    have quiet (d : List UInt8) (s : NodeState env) :
        sendCalls ((deliverReassembled p d).trace s) = [] := by
      rw [deliverReassembled, if_pos notMine, trace_ite]
      split_ifs <;> rfl
    generalize decryptPayload _ _ _ = result
    cases result with
    | error e => rfl
    | ok d => exact quiet d _

theorem relayed_of_isFragment (other : p.header.source ≠ env.myMac) (data : p.header.type = .data)
    (frag : p.IsFragment) : relayed p.header.source ((handlePacket p clock).trace s) = [] := by
  rw [relayed_handlePacket other, handleData, if_pos data, if_pos frag, relayed,
    sendCalls_handleFragment notMine, List.filter_nil]

/-- A single packet that decrypts to something is sent on, when there is a next hop. -/
theorem sendCalls_handleSingle {message : List UInt8} {route : RouteEntry}
    (dec : decryptPayload p.body 1024 (env.cipher p.header.source) = .ok message)
    (found : s.table.findNextHop p.header.dest clock.time = some route)
    (alive : 1 < p.header.ttl) :
    sendCalls ((handleSingle p clock).trace s) =
      if message = [] then [] else [(p.withTtl (p.header.ttl - 1), route.nextHop)] := by
  have table : ((getPairCipher p.header.source : Action env AES256).post s).table = s.table := rfl
  rw [handleSingle, trace_decryptThen dec, sendCalls_append, deliverSingle, if_pos notMine]
  by_cases empty : message = []
  · rw [if_pos empty, if_pos (List.length_eq_zero_iff.2 empty)]
    rfl
  · rw [if_neg empty, if_neg fun h => empty (List.length_eq_zero_iff.1 h),
      sendCalls_forward (by rw [table, found]) alive]
    rfl

end ForAnother

/-! ## A packet for another node -/

/-- What decryption with the key that the node shares with the packet's source makes of the payload,
padding included. -/
def NodeEnv.opened (env : NodeEnv) (p : Packet) : List UInt8 :=
  (env.cipher p.header.source).decryptCbc (p.body.drop aesBlockSize) (p.body.length - aesBlockSize)
    (AES256.loadBlock p.body)

theorem decryptPayload_body {maxOut : ℕ} (room : 0 < maxOut)
    (long : aesBlockSize + aesBlockSize ≤ p.body.length) (small : p.body.length ≤ 512)
    (whole : p.body.length % aesBlockSize = 0) :
    ∃ message, decryptPayload p.body maxOut (env.cipher p.header.source) = .ok message ∧
      (message ≠ [] ↔ LooksPadded (env.opened p)) := by
  have rest : (p.body.drop aesBlockSize).length = p.body.length - aesBlockSize := List.length_drop
  have blocks : (p.body.drop aesBlockSize).length % 16 = 0 := by
    simp only [aesBlockSize] at *
    omega
  have len : (env.opened p).length = p.body.length - aesBlockSize := by
    rw [NodeEnv.opened, ← rest, AES256.length_decryptCbc _ blocks]
  have fits : ¬ p.body.length - aesBlockSize > localBufferSize := by
    simp only [aesBlockSize, localBufferSize]
    omega
  refine ⟨unpadData (env.opened p) maxOut, ?_, unpadData_ne_nil_iff ?_ room⟩
  · have all : (env.opened p).take (p.body.length - aesBlockSize) = env.opened p := by
      rw [← len, List.take_length]
    simp only [decryptPayload]
    rw [if_neg (not_lt.2 long), if_neg fits, ← NodeEnv.opened, all]
  · rw [len, ← rest]
    exact blocks

theorem exists_single {source : NodeEnv} {destMac : Mac} {message : Str} {built : Clock}
    {t : NodeState source} {packet : Packet}
    (sent : (prepareMessage destMac message built).value t = some [packet]) :
    packet.header.source = source.myMac ∧ packet.header.dest = destMac ∧
      packet.header.type = .data ∧ (packet.IsFragment ↔ (1 : UInt8) < (generateIv built.steady).get 3) ∧
      aesBlockSize + aesBlockSize ≤ packet.body.length ∧ packet.body.length ≤ 512 ∧
      packet.body.length % aesBlockSize = 0 := by
  obtain ⟨encrypted, made, some', only⟩ := exists_encrypted sent
  obtain ⟨short, len, ⟨rest, front⟩, -⟩ := facts_of_encryptPayload made some'
  obtain ⟨more, -, small, whole⟩ := paddedLength_facts short
  set s := sendingOf t destMac encrypted
  have data : s.data.length = encrypted.length := rfl
  by_cases one : s.data.length ≤ maxFragPayload
  · have fits : s.data.length ≤ 512 := one.trans (by decide)
    rw [Sending.packets, FragmentManager.fragmentMessage, if_pos one] at only
    obtain rfl : (Packet.init s.type s.src s.dst s.seqNum).fill s.data = packet :=
      List.singleton_inj.1 only
    rw [Packet.body_fill _ _ fits]
    simp only [aesBlockSize]
    exact ⟨rfl, rfl, rfl, Sending.isFragment_single fits front, by omega, fits, by omega⟩
  · have several : s.Fragmented := ⟨not_le.1 one, by omega⟩
    have count := several.lt_total
    have length : s.packets.length = s.total := by
      rw [several.packets_eq, List.length_map, List.length_range]
    rw [length.symm.trans (congrArg List.length only)] at count
    exact absurd count (lt_irrefl 1)

/-- The one packet of a message, as it was sent but with any time to live, handled by a node that has
a route to the destination: one copy goes to the next hop exactly when the fourth byte of the
initialization vector is 0 or 1 and what the node decrypts with a key of its own happens to look
padded. -/
theorem relayed_iff {source relay : NodeEnv} (other : source.myMac ≠ relay.myMac) (destMac : Mac)
    (notMine : destMac ≠ relay.myMac) (message : Str) (built clock : Clock) (t : NodeState source)
    (packet : Packet) (sent : (prepareMessage destMac message built).value t = some [packet])
    (ttl : UInt8) (alive : 1 < ttl) (s : NodeState relay) (route : RouteEntry)
    (found : ((learnNeighbor (packet.withTtl ttl) clock).post s).table.findNextHop destMac clock.time =
      some route) :
    relayed source.myMac ((handlePacket (packet.withTtl ttl) clock).trace s) =
        [(packet.withTtl (ttl - 1), route.nextHop)] ↔
      (generateIv built.steady).get 3 ≤ 1 ∧ LooksPadded (relay.opened packet) := by
  obtain ⟨src, dst, type, frag, long, small, whole⟩ := exists_single sent
  set p := packet.withTtl ttl with p_def
  have src' : p.header.source = source.myMac := src
  have other' : p.header.source ≠ relay.myMac := src'.trans_ne other
  have notMine' : p.header.dest ≠ relay.myMac := (show p.header.dest = destMac from dst).trans_ne notMine
  rw [← src']
  by_cases fourth : (1 : UInt8) < (generateIv built.steady).get 3
  · rw [relayed_of_isFragment notMine' other' type (frag.2 fourth)]
    exact iff_of_false (fun h => List.cons_ne_nil _ _ h.symm) fun h => UInt8.not_le.2 fourth h.1
  · have single : ¬ p.IsFragment := fun h => fourth (frag.1 h)
    obtain ⟨opened, dec, padded⟩ : ∃ opened,
        decryptPayload p.body 1024 (relay.cipher p.header.source) = .ok opened ∧
          (opened ≠ [] ↔ LooksPadded (relay.opened packet)) :=
      decryptPayload_body (p := p) (by decide) long small whole
    have found' : ((handleControl p clock).post s).table.findNextHop p.header.dest clock.time =
        some route := by
      rw [table_handleControl (p := p) type, show p.header.dest = destMac from dst, found]
    rw [relayed_handlePacket other', handleData, if_pos (show p.header.type = .data from type),
      if_neg single, relayed, sendCalls_handleSingle notMine' dec found' alive,
      and_iff_right (UInt8.not_lt.1 fourth), ← padded]
    by_cases empty : opened = []
    · rw [if_pos empty]
      exact iff_of_false (fun h => List.cons_ne_nil _ _ h.symm) fun h => h empty
    · have kept : (p.withTtl (p.header.ttl - 1)).header.source = p.header.source := rfl
      rw [if_neg empty]
      refine iff_of_true ?_ empty
      rw [List.filter_cons_of_pos (by simp [kept]), List.filter_nil]
      rfl

theorem exists_packet {source : NodeEnv} {message : Str} (short : message.length ≤ 463)
    (destMac : Mac) (built : Clock) (t : NodeState source) :
    ∃ packet, (prepareMessage destMac message built).value t = some [packet] := by
  have fits : message.length ≤ 1007 := by omega
  obtain ⟨encrypted, made, len, -, -⟩ :=
    decryptPayload_encryptPayload fits (source.cipher destMac) built.steady
  rw [paddedLength] at len
  have some' : encrypted ≠ [] := by
    apply List.ne_nil_of_length_pos
    omega
  have one : (sendingOf t destMac encrypted).data.length ≤ maxFragPayload := by
    show encrypted.length ≤ 480
    omega
  exact ⟨_, by rw [value_prepareMessage made some' t, Sending.packets,
    FragmentManager.fragmentMessage, if_pos one]⟩

theorem exists_twoPackets {source : NodeEnv} {message : Str} (long : 464 ≤ message.length)
    (short : message.length ≤ 943) (destMac : Mac) (built : Clock) (t : NodeState source) :
    ∃ p q, (prepareMessage destMac message built).value t = some [p, q] ∧
      p.header.sequenceId = t.seqNum ∧ q.header.sequenceId = t.seqNum + 1 := by
  obtain ⟨encrypted, made, len, -, -⟩ :=
    decryptPayload_encryptPayload (show message.length ≤ 1007 by omega) (source.cipher destMac)
      built.steady
  rw [paddedLength] at len
  have some' : encrypted ≠ [] := by
    apply List.ne_nil_of_length_pos
    omega
  set m := sendingOf t destMac encrypted
  have count : m.packets.length = 2 := by
    have total : m.total = (encrypted.length + 479) / 480 := rfl
    rw [Sending.length_packets (show encrypted.length ≤ 65535 by omega), total]
    omega
  obtain ⟨p, q, both⟩ := List.length_eq_two.1 count
  have first : m.packets[0]? = some p := by rw [both]; rfl
  have second : m.packets[1]? = some q := by rw [both]; rfl
  have none' : m.seqNum + UInt32.ofNat 0 = t.seqNum := UInt32.add_zero t.seqNum
  refine ⟨p, q, ?_, (Sending.sequenceId_of_getElem? first).trans none',
    Sending.sequenceId_of_getElem? second⟩
  rw [value_prepareMessage made some' t, ← both]

/-- A message of two packets. -/
def longText : Str := List.replicate 500 0x61

theorem length_longText : longText.length = 500 := List.length_replicate

/-- What a node learns from a packet about its source says nothing about other destinations. -/
theorem findNextHop_learnNeighbor {dest : Mac} (h : p.header.source ≠ dest) (now : UInt64) :
    ((learnNeighbor p clock).post s).table.findNextHop dest now = s.table.findNextHop dest now := by
  unfold learnNeighbor
  rw [post_bind, post_get, value_get, post_ite]
  split_ifs
  · rfl
  · show (s.table.addRoute p.header.source p.header.source 1 clock.time).findNextHop dest now = _
    rw [RoutingTable.findNextHop_eq_filter, RoutingTable.getRoute_addRoute_of_ne _ h,
      RoutingTable.findNextHop_eq_filter]

/-! Sent by one node to another, and handled by a third one that knows the way. -/

/-- A third node, with the same key. -/
def relayEnv : NodeEnv where
  myMac := sampleMac 3
  baseKey := Vector.replicate 32 0

/-- The way to the other node, which is a neighbour. -/
def theWay : RouteEntry where
  destination := receiverEnv.myMac
  nextHop := receiverEnv.myMac
  hops := 1
  lastUpdated := 0
  isValid := true

/-- The node that has this route. -/
def knowsTheWay : NodeState relayEnv :=
  { NodeState.start relayEnv none with
    table := RoutingTable.addRoute {} receiverEnv.myMac receiverEnv.myMac 1 0 }

theorem findNextHop_knowsTheWay (p : Packet) (sent : p.header.source = senderEnv.myMac) :
    ((learnNeighbor p ⟨0, 0⟩).post knowsTheWay).table.findNextHop receiverEnv.myMac 0 =
      some theWay := by
  have other : p.header.source ≠ receiverEnv.myMac := by
    rw [sent]
    decide
  rw [findNextHop_learnNeighbor other]
  show (RoutingTable.addRoute {} _ _ 1 0).findNextHop _ _ = _
  simp [RoutingTable.findNextHop, RoutingTable.addRoute, RoutingTable.isStale, theWay]

theorem relayed_iff_hi :
    ∃ packet, (prepareMessage receiverEnv.myMac (text "hi") ⟨0, 0⟩).value
        (NodeState.start senderEnv none) = some [packet] ∧
      (relayed senderEnv.myMac ((handlePacket (packet.withTtl 64) ⟨0, 0⟩).trace knowsTheWay) =
          [(packet.withTtl 63, receiverEnv.myMac)] ↔
        (generateIv 0).get 3 ≤ 1 ∧ LooksPadded (relayEnv.opened packet)) := by
  have other : senderEnv.myMac ≠ relayEnv.myMac := by decide
  have notMine : receiverEnv.myMac ≠ relayEnv.myMac := by decide
  have short : (text "hi").length ≤ 463 := by decide
  have alive : (1 : UInt8) < 64 := by decide
  obtain ⟨packet, sent⟩ :=
    exists_packet short receiverEnv.myMac ⟨0, 0⟩ (NodeState.start senderEnv none)
  exact ⟨packet, sent, relayed_iff other _ notMine _ _ ⟨0, 0⟩ _ packet sent 64 alive knowsTheWay theWay
    (findNextHop_knowsTheWay (packet.withTtl 64) (exists_single sent).1)⟩

/-- Sent when the fourth byte of the vector is 2, the message is not relayed, although the node has a
route. -/
theorem hi_not_relayed :
    ∃ packet, (prepareMessage receiverEnv.myMac (text "hi") ⟨0, 0x2000⟩).value
        (NodeState.start senderEnv none) = some [packet] ∧
      ((learnNeighbor (packet.withTtl 64) ⟨0, 0⟩).post knowsTheWay).table.findNextHop
        receiverEnv.myMac 0 = some theWay ∧
      relayed senderEnv.myMac ((handlePacket (packet.withTtl 64) ⟨0, 0⟩).trace knowsTheWay) = [] := by
  have short : (text "hi").length ≤ 463 := by decide
  obtain ⟨packet, sent⟩ :=
    exists_packet short receiverEnv.myMac ⟨0, 0x2000⟩ (NodeState.start senderEnv none)
  obtain ⟨src, dst, type, frag, -⟩ := exists_single sent
  have other : packet.header.source ≠ relayEnv.myMac := by
    rw [src]
    decide
  have notMine : packet.header.dest ≠ relayEnv.myMac := by
    rw [dst]
    decide
  have mistaken : (packet.withTtl 64).IsFragment := frag.2 (by decide)
  refine ⟨packet, sent, findNextHop_knowsTheWay (packet.withTtl 64) src, ?_⟩
  rw [← src]
  exact relayed_of_isFragment (p := packet.withTtl 64) notMine other type mistaken

end Araba
