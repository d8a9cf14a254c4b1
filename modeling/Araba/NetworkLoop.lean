import Araba.Node
import Araba.Reassembly

/-!
# The network thread

The handling of a packet by `network_loop`, part by part, and what the loop does between packets.
-/

namespace Araba

open Bytes Traced

/-- `sizeof adv_payload`. -/
def advPayloadSize : ℕ := 512

/-- The entries that `pack_routes` writes from `offset` on. -/
def packEntries (maxSize : ℕ) : List Str → ℕ → List (List UInt8)
  | [], _ => []
  | n :: ns, offset =>
    if offset + 7 > maxSize then []
    else ((stringToMac n).toList ++ [1]) :: packEntries maxSize ns (offset + 7)

/-- The bytes that `pack_routes` fills: the count and the entries. -/
def packRoutes (neighbors : List Str) (maxSize : ℕ) : List UInt8 :=
  let entries := packEntries maxSize neighbors 1
  UInt8.ofNat entries.length :: entries.flatten

/-- The loop of `unpack_routes`, with the turns that are left. -/
def unpackLoop (payload : List UInt8) (via : Mac) (now : UInt64) :
    ℕ → ℕ → RoutingTable → RoutingTable
  | 0, _, table => table
  | n + 1, offset, table =>
    if offset + 7 > payload.length then table
    else
      let dest : Mac := Vector.ofFn fun i => payload[offset + i.val]?.getD 0
      let hops := payload[offset + 6]?.getD 0
      unpackLoop payload via now n (offset + 7) (table.addRoute dest via (hops + 1) now)

/-- `payload` is the bytes up to `len`. -/
def unpackRoutes (payload : List UInt8) (via : Mac) (table : RoutingTable) (now : UInt64) :
    RoutingTable :=
  if payload.length < 1 then table
  else unpackLoop payload via now (payload[0]?.getD 0).toNat 1 table

variable {env : NodeEnv}

/-- `get_pair_cipher`, which takes the mutex itself. -/
def getPairCipher (theirMac : Mac) : Action env AES256 := do
  emit .lock
  let s ← get
  modify fun s => { s with pairCiphers := (s.pairCiphers.find theirMac).2 }
  emit .unlock
  return (s.pairCiphers.find theirMac).1

/-- `send_ack`: the number stands in the header and in the payload. -/
def sendAck (destMac : Mac) (ackSeq : UInt32) : Action env Unit :=
  emit (.send ((Packet.init .ack env.myMac destMac ackSeq).fill (leBytes 4 ackSeq.toNat)) destMac)

/-! ## A packet -/

section Handler

variable (received : Packet) (clock : Clock)

/-- A source that is not known is a new neighbour, with a route of one hop. -/
def learnNeighbor : Action env Unit := do
  let srcMac := macToString received.header.source
  let s ← get
  if s.knownNeighbors.contains srcMac then pure ()
  else do
    modify fun s => { s with
      knownNeighbors := s.knownNeighbors.insert srcMac
      table := s.table.addRoute received.header.source received.header.source 1 clock.time }
    emit (.log (.newNeighbor srcMac))

/-- One turn of the loop that sends queued messages. The copy runs past both arrays when the file
says that the entry is longer than a payload. -/
def deliverEntry (entry : RueEntry) : Action env Unit := do
  let s ← get
  let fwd := Packet.init .data env.myMac entry.destMac s.seqNum
  let fwd : Packet :=
    { header := { fwd.header with payloadLen := entry.payloadLen }
      payload := memcpy fwd.payload 0 (slice entry.payload 0 entry.payloadLen.toNat) }
  modify fun s => { s with seqNum := s.seqNum + 1 }
  if entry.payloadLen.toNat > maxPayloadSize then emit .overrun
  else do
    emit (.send fwd entry.destMac)
    modify fun s => { s with queue := (s.queue.removeEntry entry).2 }

/-- What waits in the queue for the source of the packet is sent to it. -/
def autoDeliver : Action env Unit := do
  let srcMac := macToString received.header.source
  let srcBytes := stringToMac srcMac
  let s ← get
  let pending := s.queue.getPending srcBytes
  if pending.isEmpty then pure ()
  else do
    emit (.log (.autoDelivering pending.length srcMac))
    runAll (pending.map deliverEntry)

/-- The DISCOVERY branch: the neighbours are sent back to the source. -/
def handleDiscovery : Action env Unit :=
  if received.header.type = .discovery then do
    let s ← get
    modify fun s => { s with seqNum := s.seqNum + 1 }
    emit (.send ((Packet.init .routeAdv env.myMac received.header.source s.seqNum).fill
      (packRoutes s.knownNeighbors.toList advPayloadSize)) received.header.source)
  else pure ()

/-- The ROUTE_ADV branch: the routes that are listed go through the source. -/
def handleRouteAdv : Action env Unit :=
  if received.header.type = .routeAdv then do
    modify fun s => { s with
      table := unpackRoutes received.body received.header.source s.table clock.time }
    emit (.log (.routeAdv (macToString received.header.source)))
  else pure ()

/-- The ACK branch: the message with this number is no longer pending. -/
def handleAck : Action env Unit :=
  if received.header.type = .ack ∧ 4 ≤ received.header.payloadLen.toNat then do
    let ackedSeq := UInt32.ofNat (leNat (slice received.payload 0 4))
    let s ← get
    if s.pendingAcks.contains ackedSeq then do
      emit (.log (.ackReceived ackedSeq (macToString received.header.source)))
      modify fun s => { s with pendingAcks := s.pendingAcks.erase ackedSeq }
    else pure ()
  else pure ()

/-- The call that the handler makes; `reassembled_enc` is not initialized, zero stands for what it
holds. -/
def reassembleCall : FragCall where
  frag := received
  outBuf := List.replicate 2048 0
  maxOut := 2048
  outLen := 0
  now := clock.steady

/-- What happens to a reassembled message that has been decrypted. -/
def deliverReassembled (decrypted : List UInt8) : Action env Unit :=
  if decrypted.length = 0 then
    emit (.log (.failedReassembled (macToString received.header.source)))
  else if received.header.dest ≠ env.myMac then emit (.log .droppedFragmented)
  else do
    emit (.log (.messageReceived (macToString received.header.source) decrypted))
    sendAck received.header.source received.header.sequenceId

/-- A packet for another node. -/
def forward : Action env Unit := do
  let s ← get
  match s.table.findNextHop received.header.dest clock.time with
  | none => pure ()
  | some route =>
    if received.header.ttl > 1 then do
      emit (.send { received with header := { received.header with ttl := received.header.ttl - 1 } }
        route.nextHop)
      emit (.log (.forwarded (macToString route.nextHop)))
    else pure ()

/-- What happens to a single packet that has been decrypted. -/
def deliverSingle (decrypted : List UInt8) : Action env Unit :=
  if decrypted.length = 0 then
    emit (.log (.failedDecrypt (macToString received.header.source)))
  else if received.header.dest ≠ env.myMac then forward received clock
  else do
    emit (.log (.messageReceived (macToString received.header.source) decrypted))
    sendAck received.header.source received.header.sequenceId

/-- Decrypt with the cipher for the source and go on with the result. -/
def decryptThen (encrypted : List UInt8) (maxOut : ℕ) (next : List UInt8 → Action env Unit) :
    Action env Unit := do
  let aes ← getPairCipher received.header.source
  match decryptPayload encrypted maxOut aes with
  | .error .overrun => emit .overrun
  | .ok decrypted => next decrypted

/-- The DATA branch for a fragment: a message that is complete is decrypted and handed over. -/
def handleFragment : Action env Unit := do
  let s ← get
  let r := (reassembleCall received clock).run s.fragMgr
  modify fun s => { s with fragMgr := r.mgr }
  if r.complete then
    decryptThen received (r.outBuf.take r.outLen) 2048 (deliverReassembled received)
  else pure ()

/-- The DATA branch for a message of one packet. -/
def handleSingle : Action env Unit :=
  decryptThen received received.body 1024 (deliverSingle received clock)

/-- The DATA branch. -/
def handleData : Action env Unit :=
  if received.header.type = .data then
    if received.IsFragment then handleFragment received clock
    else handleSingle received clock
  else pure ()

/-- What happens to a packet of any type before the DATA branch. -/
def handleControl : Action env Unit := do
  learnNeighbor received clock
  autoDeliver received
  handleDiscovery received
  handleRouteAdv received clock
  handleAck received

/-- The body of the loop for a packet that `receive_packet` returned. -/
def handlePacket : Action env Unit :=
  if received.header.source = env.myMac then pure ()
  else do
    emit .lock
    handleControl received clock
    handleData received clock
    emit .unlock

end Handler

/-! ## Between packets -/

/-- The address that stands for all nodes. -/
def broadcast : Mac := Vector.replicate 6 0xff

/-- The packet at the top of the loop. -/
def sendHello : Action env Unit := do
  let s ← get
  let helloPkt := Packet.init .discovery env.myMac broadcast s.seqNum
  let helloPkt : Packet :=
    { helloPkt with header := { helloPkt.header with ttl := env.config.discoveryTtl } }
  modify fun s => { s with seqNum := s.seqNum + 1 }
  emit (.send (helloPkt.fill (text "ARABA Hello!")) broadcast)

/-- The turn of the retry loop for one entry. -/
def retryOne (now : ℕ) (key : UInt32) : Action env Unit := do
  let s ← get
  match s.pendingAcks[key]? with
  | none => pure ()
  | some pa =>
    if (now - pa.sentTime) / 1000000000 > 3 then
      if pa.retries ≥ 3 then do
        emit (.log (.deliveryFailed (macToString pa.destMac) pa.originalMsg))
        modify fun s => { s with pendingAcks := s.pendingAcks.erase key }
      else do
        emit (.log (.retry (pa.retries.toNat + 1) pa.seqNum (macToString pa.destMac)))
        modify fun s => { s with
          pendingAcks := s.pendingAcks.insert key
            { pa with
              retries := pa.retries + 1
              sentTime := now } }
    else pure ()

/-- The loop over `pending_acks`, in the order of the keys. -/
def retryPass (clock : Clock) : Action env Unit := do
  let s ← get
  runAll (s.pendingAcks.keys.map (retryOne clock.steady))

/-- Every hundredth time, the stale fragments go. -/
def cleanupTick (clock : Clock) : Action env Unit := do
  let s ← get
  if s.cleanupCounter + 1 ≥ 100 then
    modify fun s => { s with
      fragMgr := s.fragMgr.cleanupStale env.config.fragmentTimeoutSec clock.steady
      cleanupCounter := 0 }
  else
    modify fun s => { s with cleanupCounter := s.cleanupCounter + 1 }

/-- A step of the network thread. -/
inductive NetworkStep
  | hello
  | packet (received : Packet) (clock : Clock)
  | retry (clock : Clock)
  | cleanup (clock : Clock)

/-- What the network thread does in the step. -/
def NetworkStep.action : NetworkStep → Action env Unit
  | hello => sendHello
  | packet received clock => handlePacket received clock
  | retry clock => retryPass clock
  | cleanup clock => cleanupTick clock

theorem trace_handlePacket {received : Packet} {clock : Clock} {s : NodeState env}
    (other : received.header.source ≠ env.myMac) :
    (handlePacket received clock).trace s =
      [.lock] ++ ((handleControl received clock).trace s ++
        ((handleData received clock).trace ((handleControl received clock).post s) ++ [.unlock])) := by
  rw [handlePacket, if_neg other]
  rfl

theorem post_handlePacket {received : Packet} {clock : Clock} {s : NodeState env}
    (other : received.header.source ≠ env.myMac) :
    (handlePacket received clock).post s =
      (handleData received clock).post ((handleControl received clock).post s) := by
  rw [handlePacket, if_neg other]
  rfl

theorem post_handlePacket_parts {received : Packet} {clock : Clock} {s : NodeState env}
    (other : received.header.source ≠ env.myMac) :
    (handlePacket received clock).post s =
      (handleData received clock).post
        ((handleAck received).post
          ((handleRouteAdv received clock).post
            ((handleDiscovery received).post
              ((autoDeliver received).post ((learnNeighbor received clock).post s))))) :=
  post_handlePacket other

/-! ## The fragment branch -/

section Fragment

variable (received : Packet) (clock : Clock) (s : NodeState env)

theorem handleFragment_eq :
    (handleFragment received clock : Action env Unit) s =
      (if ((reassembleCall received clock).run s.fragMgr).complete then
        decryptThen received
          (((reassembleCall received clock).run s.fragMgr).outBuf.take
            ((reassembleCall received clock).run s.fragMgr).outLen) 2048 (deliverReassembled received)
      else pure ())
        { s with fragMgr := ((reassembleCall received clock).run s.fragMgr).mgr } :=
  rfl

/-- A fragment that does not complete its message is stored and that is all. -/
theorem handleFragment_of_incomplete {received : Packet} {clock : Clock} {s : NodeState env}
    (h : ((reassembleCall received clock).run s.fragMgr).complete = false) :
    (handleFragment received clock).trace s = [] ∧
      (handleFragment received clock).post s =
        { s with fragMgr := ((reassembleCall received clock).run s.fragMgr).mgr } := by
  have e := handleFragment_eq received clock s
  rw [if_neg (by rw [h]; exact Bool.false_ne_true)] at e
  exact ⟨congrArg (fun r => r.2.2) e, congrArg (fun r => r.2.1) e⟩

theorem handleFragment_of_complete {received : Packet} {clock : Clock} {s : NodeState env}
    (h : ((reassembleCall received clock).run s.fragMgr).complete = true) :
    (handleFragment received clock).trace s =
        (decryptThen received
          (((reassembleCall received clock).run s.fragMgr).outBuf.take
            ((reassembleCall received clock).run s.fragMgr).outLen) 2048
          (deliverReassembled received)).trace
          { s with fragMgr := ((reassembleCall received clock).run s.fragMgr).mgr } := by
  have e := handleFragment_eq received clock s
  rw [if_pos h] at e
  exact congrArg (fun r => r.2.2) e

end Fragment

/-! ## What the parts do

What each part can do to the state and the events that it can emit. An invariant that survives these
changes survives the part. -/

/-- What the DATA branch logs when it handles a packet. -/
def LogEvent.About (received : Packet) : LogEvent → Prop
  | failedReassembled srcMac => srcMac = macToString received.header.source
  | droppedFragmented => True
  | messageReceived srcMac _ => srcMac = macToString received.header.source
  | failedDecrypt srcMac => srcMac = macToString received.header.source
  | forwarded nextHop => ∃ mac, nextHop = macToString mac
  | _ => False

section Parts

variable {I : NodeState env → Prop} {E : Effect → Prop} {received : Packet} {clock : Clock}

theorem preserves_learnNeighbor
    (state : ∀ s known table, I s → I { s with knownNeighbors := known, table := table })
    (log : E (.log (.newNeighbor (macToString received.header.source)))) :
    Preserves I E (learnNeighbor received clock) :=
  .bind .get fun _ => .ite (.pure ()) (.bind (.modify fun s => state s _ _) fun _ => .emit log)

/-- The packets that are sent for queued messages are DATA packets of the node. -/
theorem preserves_autoDeliver
    (state : ∀ s n queue, I s → I { s with seqNum := n, queue := queue })
    (log : ∀ count, E (.log (.autoDelivering count (macToString received.header.source))))
    (overrun : E .overrun)
    (send : ∀ p link, p.header.type = .data → p.header.source = env.myMac → E (.send p link)) :
    Preserves I E (autoDeliver received) := by
  refine .bind .get fun s => .ite (.pure ()) (.bind (.emit (log _)) fun _ => .runAll fun m hm => ?_)
  obtain ⟨entry, -, rfl⟩ := List.mem_map.1 hm
  exact .bind .get fun _ => .bind (.modify fun s => state s _ s.queue) fun _ => .ite (.emit overrun)
    (.bind (.emit (send _ _ rfl rfl)) fun _ => .modify fun s => state s s.seqNum _)

theorem preserves_handleDiscovery (state : ∀ s n, I s → I { s with seqNum := n })
    (send : ∀ s, I s → E (.send ((Packet.init .routeAdv env.myMac received.header.source s.seqNum).fill
      (packRoutes s.knownNeighbors.toList advPayloadSize)) received.header.source)) :
    Preserves I E (handleDiscovery received) := by
  refine .ite (fun s hs => ⟨state s _ hs, fun e he => ?_⟩) (.pure ())
  obtain rfl : e = _ := List.mem_singleton.1 he
  exact send s hs

theorem preserves_handleRouteAdv (state : ∀ s table, I s → I { s with table := table })
    (log : E (.log (.routeAdv (macToString received.header.source)))) :
    Preserves I E (handleRouteAdv received clock) :=
  .ite (.bind (.modify fun s => state s _) fun _ => .emit log) (.pure ())

theorem preserves_handleAck (state : ∀ s pending, I s → I { s with pendingAcks := pending })
    (log : ∀ seq, E (.log (.ackReceived seq (macToString received.header.source)))) :
    Preserves I E (handleAck received) :=
  .ite (.bind .get fun _ => .ite (.bind (.emit (log _)) fun _ => .modify fun s => state s _) (.pure ()))
    (.pure ())

theorem preserves_decryptThen {encrypted : List UInt8} {maxOut : ℕ}
    {next : List UInt8 → Action env Unit}
    (state : ∀ s ciphers, I s → I { s with pairCiphers := ciphers }) (lock : E .lock)
    (unlock : E .unlock) (overrun : E .overrun) (hnext : ∀ d, Preserves I E (next d)) :
    Preserves I E (decryptThen received encrypted maxOut next) := by
  refine .bind (.bind (.emit lock) fun _ => .bind .get fun _ => .bind (.modify fun s => state s _)
    fun _ => .bind (.emit unlock) fun _ => .pure _) fun aes => ?_
  cases decryptPayload encrypted maxOut aes with
  | error e => exact .emit overrun
  | ok d => exact hnext d

theorem preserves_deliverReassembled (log : ∀ event, event.About received → E (.log event))
    (ack : received.header.dest = env.myMac → Preserves I E
      (sendAck received.header.source received.header.sequenceId : Action env Unit))
    (d : List UInt8) : Preserves I E (deliverReassembled received d) := by
  unfold deliverReassembled
  split_ifs with empty notMine
  · exact .emit (log _ rfl)
  · exact .emit (log _ trivial)
  · exact .bind (.emit (log _ rfl)) fun _ => ack (not_not.1 notMine)

theorem preserves_deliverSingle (log : ∀ event, event.About received → E (.log event))
    (ack : received.header.dest = env.myMac → Preserves I E
      (sendAck received.header.source received.header.sequenceId : Action env Unit))
    (relay : 1 < received.header.ttl → ∀ link, E (.send
      { received with header := { received.header with ttl := received.header.ttl - 1 } } link))
    (d : List UInt8) : Preserves I E (deliverSingle received clock d) := by
  unfold deliverSingle
  split_ifs with empty notMine
  · exact .emit (log _ rfl)
  · refine .bind .get fun s => ?_
    cases s.table.findNextHop received.header.dest clock.time with
    | none => exact .pure ()
    | some route =>
      show Preserves I E (if received.header.ttl > 1 then _ else _)
      split_ifs with alive
      · exact .bind (.emit (relay alive _)) fun _ => .emit (log _ ⟨_, rfl⟩)
      · exact .pure ()
  · exact .bind (.emit (log _ rfl)) fun _ => ack (not_not.1 notMine)

theorem preserves_handleData
    (state : ∀ s mgr ciphers, I s → I { s with fragMgr := mgr, pairCiphers := ciphers })
    (lock : E .lock) (unlock : E .unlock) (overrun : E .overrun)
    (log : ∀ event, event.About received → E (.log event))
    (ack : received.header.type = .data → received.header.dest = env.myMac → Preserves I E
      (sendAck received.header.source received.header.sequenceId : Action env Unit))
    (relay : received.header.type = .data → 1 < received.header.ttl → ∀ link, E (.send
      { received with header := { received.header with ttl := received.header.ttl - 1 } } link)) :
    Preserves I E (handleData received clock) := by
  have ciphers (s : NodeState env) (ciphers : PairCiphers env) (hs : I s) :
      I { s with pairCiphers := ciphers } := state s s.fragMgr ciphers hs
  unfold handleData
  split_ifs with data frag
  · exact .bind .get fun _ => .bind (.modify fun s => state s _ s.pairCiphers) fun _ =>
      .ite (preserves_decryptThen ciphers lock unlock overrun
        (preserves_deliverReassembled log (ack data))) (.pure ())
  · exact preserves_decryptThen ciphers lock unlock overrun
      (preserves_deliverSingle log (ack data) (relay data))
  · exact .pure ()

theorem preserves_sendHello (state : ∀ s n, I s → I { s with seqNum := n })
    (send : ∀ p, p.header.type = .discovery → p.header.source = env.myMac → E (.send p broadcast)) :
    Preserves I E sendHello :=
  .bind .get fun _ => .bind (.modify fun s => state s _) fun _ => .emit (send _ rfl rfl)

theorem preserves_retryPass (state : ∀ s pending, I s → I { s with pendingAcks := pending })
    (log : ∀ event, E (.log event)) : Preserves I E (retryPass clock) := by
  refine .bind .get fun s => .runAll fun m hm => ?_
  obtain ⟨key, -, rfl⟩ := List.mem_map.1 hm
  refine .bind .get fun s => ?_
  cases s.pendingAcks[key]? with
  | none => exact .pure ()
  | some pa =>
    exact .ite (.ite (.bind (.emit (log _)) fun _ => .modify fun s => state s _)
      (.bind (.emit (log _)) fun _ => .modify fun s => state s _)) (.pure ())

theorem preserves_cleanupTick
    (state : ∀ s mgr n, I s → I { s with fragMgr := mgr, cleanupCounter := n }) :
    Preserves I E (cleanupTick clock) :=
  .bind .get fun _ => .ite (.modify fun s => state s _ _) (.modify fun s => state s s.fragMgr _)

end Parts

/-! ## What the parts leave alone -/

section Leaves

variable {γ : Type} {f : NodeState env → γ} {received : Packet} {clock : Clock}

theorem leaves_learnNeighbor
    (h : ∀ s known table, f { s with knownNeighbors := known, table := table } = f s) :
    Leaves f (learnNeighbor received clock) :=
  Preserves.leaves fun _ => preserves_learnNeighbor (E := fun _ => True)
    (fun s _ _ hs => (h s _ _).trans hs) trivial

theorem leaves_autoDeliver (h : ∀ s n queue, f { s with seqNum := n, queue := queue } = f s) :
    Leaves f (autoDeliver received) :=
  Preserves.leaves fun _ => preserves_autoDeliver (E := fun _ => True)
    (fun s _ _ hs => (h s _ _).trans hs) (fun _ => trivial) trivial fun _ _ _ _ => trivial

theorem leaves_handleDiscovery (h : ∀ s n, f { s with seqNum := n } = f s) :
    Leaves f (handleDiscovery received) :=
  Preserves.leaves fun _ => preserves_handleDiscovery (E := fun _ => True)
    (fun s _ hs => (h s _).trans hs) fun _ _ => trivial

theorem leaves_handleRouteAdv (h : ∀ s table, f { s with table := table } = f s) :
    Leaves f (handleRouteAdv received clock) :=
  Preserves.leaves fun _ => preserves_handleRouteAdv (E := fun _ => True)
    (fun s _ hs => (h s _).trans hs) trivial

theorem leaves_handleAck (h : ∀ s pending, f { s with pendingAcks := pending } = f s) :
    Leaves f (handleAck received) :=
  Preserves.leaves fun _ => preserves_handleAck (E := fun _ => True)
    (fun s _ hs => (h s _).trans hs) fun _ => trivial

theorem leaves_decryptThen {encrypted : List UInt8} {maxOut : ℕ}
    {next : List UInt8 → Action env Unit} (h : ∀ s ciphers, f { s with pairCiphers := ciphers } = f s)
    (hnext : ∀ d, Leaves f (next d)) : Leaves f (decryptThen received encrypted maxOut next) :=
  Preserves.leaves fun c => preserves_decryptThen (fun s _ hs => (h s _).trans hs) trivial trivial
    trivial fun d => (hnext d).preserves c

theorem leaves_deliverReassembled (d : List UInt8) : Leaves f (deliverReassembled received d) :=
  Preserves.leaves fun _ => preserves_deliverReassembled (E := fun _ => True) (fun _ _ => trivial)
    (fun _ => .emit trivial) d

theorem leaves_deliverSingle (d : List UInt8) : Leaves f (deliverSingle received clock d) :=
  Preserves.leaves fun _ => preserves_deliverSingle (E := fun _ => True) (fun _ _ => trivial)
    (fun _ => .emit trivial) (fun _ _ => trivial) d

theorem leaves_handleData
    (h : ∀ s mgr ciphers, f { s with fragMgr := mgr, pairCiphers := ciphers } = f s) :
    Leaves f (handleData received clock) :=
  Preserves.leaves fun _ => preserves_handleData (E := fun _ => True)
    (fun s _ _ hs => (h s _ _).trans hs) trivial trivial trivial (fun _ _ => trivial)
    (fun _ _ => .emit trivial) fun _ _ _ => trivial

theorem leaves_retryPass (h : ∀ s pending, f { s with pendingAcks := pending } = f s) :
    Leaves f (retryPass clock) :=
  Preserves.leaves fun _ => preserves_retryPass (E := fun _ => True)
    (fun s _ hs => (h s _).trans hs) fun _ => trivial

theorem leaves_cleanupTick (h : ∀ s mgr n, f { s with fragMgr := mgr, cleanupCounter := n } = f s) :
    Leaves f (cleanupTick clock) :=
  Preserves.leaves fun _ => preserves_cleanupTick (E := fun _ => True)
    fun s _ _ hs => (h s _ _).trans hs

end Leaves

/-! ## What the parts before the DATA branch emit -/

/-- Neither an operation on the mutex, nor a delivered message, nor an acknowledgement. -/
def Effect.Quiet : Effect → Prop
  | lock => False
  | unlock => False
  | send packet _ => packet.header.type ≠ .ack
  | log (.messageReceived _ _) => False
  | _ => True

theorem handleControl_quiet (received : Packet) (clock : Clock) (s₀ : NodeState env) :
    Preserves (fun s : NodeState env => s.fragMgr = s₀.fragMgr) Effect.Quiet
      (handleControl received clock) := by
  have data (p : Packet) (link : Mac) (type : p.header.type = .data) : (Effect.send p link).Quiet := by
    show p.header.type ≠ .ack
    rw [type]
    decide
  have advert : PacketType.routeAdv ≠ .ack := by decide
  exact .bind (preserves_learnNeighbor (fun _ _ _ hs => hs) trivial) fun _ =>
    .bind (preserves_autoDeliver (fun _ _ _ hs => hs) (fun _ => trivial) trivial
      fun p link type _ => data p link type) fun _ =>
    .bind (preserves_handleDiscovery (fun _ _ hs => hs) fun _ _ => advert) fun _ =>
    .bind (preserves_handleRouteAdv (fun _ _ hs => hs) trivial) fun _ =>
    preserves_handleAck (fun _ _ hs => hs) fun _ => trivial

/-- Decrypting and delivering leaves the fragments as the call has left them. -/
theorem fragMgr_handleFragment (received : Packet) (clock : Clock) (s : NodeState env) :
    ((handleFragment received clock).post s).fragMgr =
      ((reassembleCall received clock).run s.fragMgr).mgr := by
  have post := congrArg (fun r => r.2.1.fragMgr) (handleFragment_eq received clock s)
  refine post.trans ?_
  exact Leaves.ite (f := NodeState.fragMgr)
    (leaves_decryptThen (fun _ _ => rfl) leaves_deliverReassembled) (.pure ()) _

theorem fragMgr_handlePacket {received : Packet} (clock : Clock) (s : NodeState env)
    (other : received.header.source ≠ env.myMac) :
    ((handlePacket received clock).post s).fragMgr =
      if received.header.type = .data ∧ received.IsFragment then
        ((reassembleCall received clock).run s.fragMgr).mgr
      else s.fragMgr := by
  have same := (handleControl_quiet received clock s s rfl).1
  rw [post_handlePacket other, ← same, handleData]
  by_cases data : received.header.type = .data
  · rw [if_pos data]
    by_cases frag : received.IsFragment
    · rw [if_pos frag, if_pos ⟨data, frag⟩, fragMgr_handleFragment]
    · rw [if_neg frag, if_neg fun h => frag h.2]
      exact leaves_decryptThen (f := NodeState.fragMgr) (fun _ _ => rfl) leaves_deliverSingle _
  · rw [if_neg data, if_neg fun h => data h.1]
    rfl

/-- A packet that is sent names `mac` as its source. -/
def Effect.SentBy (mac : Mac) : Effect → Prop
  | send packet _ => packet.header.source = mac
  | _ => True

/-- Before the DATA branch a node sends packets of its own only. -/
theorem sentBy_handleControl (received : Packet) (clock : Clock) :
    Preserves (fun _ => True) (Effect.SentBy env.myMac)
      (handleControl received clock : Action env Unit) :=
  .bind (preserves_learnNeighbor (fun _ _ _ _ => trivial) trivial) fun _ =>
    .bind (preserves_autoDeliver (fun _ _ _ _ => trivial) (fun _ => trivial) trivial
      fun _ _ _ own => own) fun _ =>
    .bind (preserves_handleDiscovery (fun _ _ _ => trivial) fun _ _ => rfl) fun _ =>
    .bind (preserves_handleRouteAdv (fun _ _ _ => trivial) trivial) fun _ =>
    preserves_handleAck (fun _ _ _ => trivial) fun _ => trivial

end Araba
