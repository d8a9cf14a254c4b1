import Araba.DelayedDelivery
import Araba.Frames
import Araba.InvalidPackets
import Araba.Mesh
import Araba.Process

/-!
# On the link

The programs of several hosts on a link that carries the buffers of `sendto` as they are. The receiver
skips 14 bytes that the sender has not put in front, and so reads the source of a packet out of its
number, its length and its payload. Who is met on such a link.
-/

namespace Araba

open Bytes Traced

/-! ## What a frame says -/

/-- What `receive_packet` takes for the source of the packet in a frame. -/
def sourceIn (frame : List UInt8) : Mac := (PacketHeader.ofBytes (frame.drop 14)).source

/-- A MAC that the payload length of a packet leaves room for: the fourth byte is its upper half. -/
structure Phantom (d : Mac) : Prop where
  fourth : d.get 3 ≤ 2

/-- The length of the packet is one that its payload has room for. -/
def Packet.Fits (p : Packet) : Prop := p.header.payloadLen.toNat ≤ maxPayloadSize

theorem Packet.fits_fill (p : Packet) {bytes : List UInt8} (h : bytes.length ≤ 512) :
    (p.fill bytes).Fits := by
  rw [Packet.Fits, Packet.payloadLen_fill p bytes h]
  exact h

theorem getElem?_toBytes_lengthByte (p : Packet) :
    p.toBytes[20]? = some (UInt8.ofNat (p.header.payloadLen.toNat / 256)) := by
  have front : 20 < p.header.toBytes.length := by
    rw [PacketHeader.length_toBytes]
    omega
  rw [Packet.toBytes, List.getElem?_append_left front]
  simp [PacketHeader.toBytes, leBytes]

theorem phantom_sourceIn {p : Packet} (fits : p.Fits) : Phantom (sourceIn p.toBytes) := by
  have byte : (sourceIn p.toBytes).get 3 = p.toBytes[20]?.getD 0 := by
    have index : (sourceIn p.toBytes).get 3 = (p.toBytes.drop 14)[6]?.getD 0 := Vector.getElem_ofFn _
    rw [index, List.getElem?_drop]
  have half : p.header.payloadLen.toNat / 256 ≤ 2 := by
    unfold Packet.Fits maxPayloadSize at fits
    omega
  constructor
  rw [byte, getElem?_toBytes_lengthByte, Option.getD_some, UInt8.le_iff_toNat_le, UInt8.toNat_ofNat']
  exact (Nat.mod_le _ _).trans half

theorem source_of_received {net : NetworkInterface} {frame : List UInt8} {prior p : Packet}
    (got : net.receivePacket (some frame) prior = (true, p)) :
    p.header.source = sourceIn frame ∧ p.Fits := by
  have open' : 0 ≤ net.sockFd := by
    by_contra closed
    rw [NetworkInterface.receivePacket, if_pos (not_le.1 closed)] at got
    cases got
  rw [NetworkInterface.receivePacket_eq open' frame prior rfl] at got
  split_ifs at got with short large whole
  · cases got
  · cases got
  · obtain rfl := (Prod.mk.inj got).2
    exact ⟨rfl, not_lt.1 large⟩
  · obtain rfl := (Prod.mk.inj got).2
    exact ⟨rfl, not_lt.1 large⟩

/-! ## A node that hears phantoms only -/

/-- The neighbours and the next hops are phantoms. -/
structure Deceived {env : NodeEnv} (s : NodeState env) : Prop where
  neighbor : ∀ n ∈ s.knownNeighbors, ∃ d, n = macToString d ∧ Phantom d
  route : ∀ d e, s.table.getRoute d = some e → Phantom e.nextHop

/-- What is not a greeting or a message is sent to a phantom, and what is reported comes from one. -/
def Effect.Astray : Effect → Prop
  | send p link =>
    p.Fits ∧ (p.header.type = .discovery ∨ p.header.type = .data ∨ Phantom link)
  | log (.messageReceived srcMac _) => ∃ d, srcMac = macToString d ∧ Phantom d
  | _ => True

section Node

variable {env : NodeEnv} {received : Packet} {clock : Clock}

theorem deceived_start (queueFile : Option (List UInt8)) :
    Deceived (NodeState.start env queueFile) where
  neighbor n mem := absurd mem Std.ExtTreeSet.not_mem_empty
  route d e found := by
    rw [RoutingTable.getRoute_eq_some_iff] at found
    cases found.1

theorem Deceived.addRoute {s : NodeState env} (h : Deceived s) {via : Mac} (phantom : Phantom via)
    (d : Mac) (hops : UInt8) (now : UInt64) :
    Deceived { s with table := s.table.addRoute d via hops now } where
  neighbor := h.neighbor
  route d' e found := by
    rcases RoutingTable.getRoute_addRoute_cases found with before | ⟨-, same, -⟩
    · exact h.route d' e before
    · rw [same]
      exact phantom

theorem Deceived.unpackRoutes {s : NodeState env} (h : Deceived s) {via : Mac} (phantom : Phantom via)
    (payload : List UInt8) (now : UInt64) :
    Deceived { s with table := unpackRoutes payload via s.table now } := by
  rw [unpackRoutes_eq_foldl]
  generalize listedRoutes payload = routes
  induction routes generalizing s with
  | nil => exact h
  | cons r routes ih => exact ih (h.addRoute phantom r.1 (r.2 + 1) now)

theorem deceives_learnNeighbor (phantom : Phantom received.header.source) :
    Preserves Deceived Effect.Astray (learnNeighbor received clock : Action env Unit) := by
  refine .bind .get fun _ => .ite (.pure ()) (.bind (.modify fun s h => ⟨fun n mem => ?_, ?_⟩)
    fun _ => .emit trivial)
  · rcases Std.ExtTreeSet.mem_insert.1 mem with new | old
    · exact ⟨_, (Std.LawfulEqCmp.eq_of_compare new).symm, phantom⟩
    · exact h.neighbor n old
  · exact (h.addRoute phantom received.header.source 1 clock.time).route

theorem deceives_autoDeliver :
    Preserves Deceived Effect.Astray (autoDeliver received : Action env Unit) := by
  refine .bind .get fun s => .ite (.pure ()) (.bind (.emit trivial) fun _ => .runAll fun m hm => ?_)
  obtain ⟨entry, -, rfl⟩ := List.mem_map.1 hm
  unfold deliverEntry
  refine .bind .get fun _ => .bind (.modify fun s h => ⟨h.neighbor, h.route⟩) fun _ => ?_
  split_ifs with long
  · exact .emit trivial
  · exact .bind (.emit ⟨not_lt.1 long, Or.inr (Or.inl rfl)⟩) fun _ =>
      .modify fun s h => ⟨h.neighbor, h.route⟩

theorem deceives_handlePacket (phantom : Phantom received.header.source) (fits : received.Fits) :
    Preserves Deceived Effect.Astray (handlePacket received clock : Action env Unit) := by
  have advert (p : Packet) (ns : List Str) : (p.fill (packRoutes ns advPayloadSize)).Fits := by
    refine p.fits_fill ?_
    have entries := length_flatten_packEntries advPayloadSize ns 1 (by decide)
    rw [packRoutes, List.length_cons]
    rw [advPayloadSize] at entries ⊢
    omega
  have control : Preserves Deceived Effect.Astray (handleControl received clock : Action env Unit) :=
    (deceives_learnNeighbor phantom).bind fun _ => deceives_autoDeliver.bind fun _ =>
      (preserves_handleDiscovery (fun _ _ h => ⟨h.neighbor, h.route⟩) fun s _ =>
        ⟨advert _ _, Or.inr (Or.inr phantom)⟩).bind fun _ =>
      (Preserves.ite (.bind (.modify fun s h => h.unpackRoutes phantom received.body clock.time)
        fun _ => .emit trivial) (.pure ())).bind fun _ =>
      preserves_handleAck (fun _ _ h => ⟨h.neighbor, h.route⟩) fun _ => trivial
  have log (event : LogEvent) (about : event.About received) : Effect.Astray (.log event) := by
    cases event with
    | messageReceived srcMac message => exact ⟨_, about, phantom⟩
    | _ => trivial
  have data : Preserves Deceived Effect.Astray (handleData received clock : Action env Unit) :=
    preserves_handleData (fun _ _ _ h => ⟨h.neighbor, h.route⟩) trivial trivial trivial log
      (fun _ _ => .emit ⟨Packet.fits_fill _ (by simp), Or.inr (Or.inr phantom)⟩)
      fun data _ _ => ⟨fits, Or.inr (Or.inl data)⟩
  exact .ite (.pure ()) (.bind (.emit trivial) fun _ => control.bind fun _ => data.bind fun _ =>
    .emit trivial)

theorem deceives_sendHello : Preserves Deceived Effect.Astray (sendHello : Action env Unit) :=
  .bind .get fun _ => .bind (.modify fun _ h => ⟨h.neighbor, h.route⟩) fun _ =>
    .emit ⟨Packet.fits_fill _ (by decide), Or.inl rfl⟩

theorem deceives_retryPass :
    Preserves Deceived Effect.Astray (retryPass clock : Action env Unit) := by
  refine .bind .get fun s => .runAll fun m hm => ?_
  obtain ⟨key, -, rfl⟩ := List.mem_map.1 hm
  refine .bind .get fun s => ?_
  cases s.pendingAcks[key]? with
  | none => exact .pure ()
  | some pa =>
    exact .ite (.ite (.bind (.emit trivial) fun _ => .modify fun s h => ⟨h.neighbor, h.route⟩)
      (.bind (.emit trivial) fun _ => .modify fun s h => ⟨h.neighbor, h.route⟩)) (.pure ())

/-! ## The main thread -/

/-- The packets that are still to be transmitted are messages of the right length. -/
def SendPoint.Fits : SendPoint → Prop
  | prepared _ _ fragments => ∀ p ∈ fragments, p.Fits ∧ p.header.type = .data
  | transmitting _ _ _ _ rest => ∀ p ∈ rest, p.Fits ∧ p.header.type = .data
  | _ => True

theorem Sending.fits_of_mem {s : Sending} {p : Packet} (h : p ∈ s.packets) : p.Fits := by
  rw [packets, FragmentManager.fragmentMessage] at h
  split_ifs at h with one
  · rw [List.mem_singleton] at h
    rw [h]
    exact Packet.fits_fill _ (one.trans (by decide))
  · obtain ⟨i, -, rfl⟩ := List.mem_map.1 h
    refine Packet.fits_fill _ ?_
    rw [List.length_append, FragHeader.length_toBytes, List.length_take, List.length_drop,
      maxFragPayload]
    split_ifs <;> omega

theorem fits_of_prepared {destMac : Mac} {message : Str} {s : NodeState env} {packets : List Packet}
    (sent : (prepareMessage destMac message clock).value s = some packets) :
    ∀ p ∈ packets, p.Fits ∧ p.header.type = .data := by
  intro p mem
  have data := (SendPoint.isMessage_of_prepared sent p mem).1
  obtain ⟨encrypted, -, -, rfl⟩ := exists_encrypted sent
  exact ⟨Sending.fits_of_mem mem, data⟩

theorem SendPoint.Fits.advance {point : SendPoint} (h : point.Fits) (junk : UInt32)
    (s : NodeState env) : ((point.advance clock junk).value s).Fits := by
  cases point with
  | checked reachable destMac message => trivial
  | keyed reachable destMac message =>
    rw [SendPoint.value_advance_keyed]
    cases made : (prepareMessage destMac message clock).value s with
    | none => trivial
    | some fragments =>
      show SendPoint.Fits (if reachable then _ else _)
      split_ifs
      · exact fits_of_prepared made
      · trivial
  | idle => trivial
  | prepared destMac message fragments => exact h
  | transmitting ackSeq destMac message fragments rest =>
    cases rest with
    | nil => trivial
    | cons pkt rest => exact fun p mem => h p (List.mem_cons_of_mem _ mem)
  | enqueuing destMac rest => cases rest <;> trivial

theorem deceives_advance {point : SendPoint} (h : point.Fits) (junk : UInt32) :
    Preserves Deceived Effect.Astray (point.advance clock junk : Action env SendPoint) := by
  refine point.preserves_advance (fun _ _ _ _ _ _ _ h => ⟨h.neighbor, h.route⟩) trivial trivial
    trivial fun ackSeq destMac message fragments pkt rest next => ?_
  subst next
  obtain ⟨fits, data⟩ := h pkt List.mem_cons_self
  exact ⟨fits, Or.inr (Or.inl data)⟩

end Node

/-! ## A program -/

/-- What the program knows of others are phantoms. -/
structure Process.Deceived {env : NodeEnv} (p : Process env) : Prop where
  node : Araba.Deceived p.node
  main : ∀ point, p.main = .inLoop point → point.Fits

/-- The frame that is received in the step, if any, was handed to `sendto` as the image of a packet. -/
def ProcessStep.OffTheLink : ProcessStep → Prop
  | network (some frame) _ _ => ∃ p : Packet, p.Fits ∧ frame = p.toBytes
  | _ => True

section Program

variable {env : NodeEnv} {net : NetworkInterface}

theorem Process.deceives_onNode {a : Action env Unit}
    (h : Preserves Araba.Deceived Effect.Astray a) :
    Preserves Process.Deceived Effect.Astray (Process.onNode a) := fun p deceived =>
  ⟨⟨(h p.node deceived.node).1, deceived.main⟩, (h p.node deceived.node).2⟩

theorem Process.deceives_setNetwork (network : NetworkAt) :
    Preserves (@Process.Deceived env) Effect.Astray (Process.setNetwork network) :=
  .modify fun _ h => ⟨h.node, h.main⟩

theorem Process.deceives_runCommand (clock : Clock) (command : Command) :
    Preserves (@Process.Deceived env) Effect.Astray (Process.runCommand clock command) := by
  intro p h
  cases command with
  | send targetMac message =>
    obtain ⟨kept, astray⟩ := (SendPoint.preserves_start trivial trivial targetMac message :
      Preserves Araba.Deceived Effect.Astray
        (SendPoint.start targetMac message clock)) p.node h.node
    have entered : ((SendPoint.start targetMac message clock : Action env SendPoint).value
        p.node).Fits := by
      rw [SendPoint.start, value_ite]
      split_ifs <;> trivial
    refine ⟨⟨kept, fun point here => ?_⟩, fun e mem => astray e ?_⟩
    · rw [← MainAt.inLoop.inj here]
      exact entered
    · rwa [← List.append_nil (Traced.trace _ p.node)]
  | quit => exact ⟨⟨h.node, fun _ here => by cases here⟩, fun e mem => by cases mem⟩
  | list => exact Preserves.bind (.emit trivial) (fun _ => .emit trivial) p h
  | pending => exact Preserves.bind (.emit trivial) (fun _ => .emit trivial) p h
  | _ => exact ⟨h, fun e mem => by cases mem⟩

theorem Process.deceives_networkTurn {frame : Option (List UInt8)} (junk : Packet) (clock : Clock)
    (off : (ProcessStep.network frame junk clock).OffTheLink) (p : Process env) :
    Preserves Process.Deceived Effect.Astray (Process.networkTurn net frame junk clock p) := by
  unfold Process.networkTurn
  cases p.network with
  | entry => exact .bind (.emit trivial) fun _ => deceives_setNetwork _
  | top =>
    exact .ite (deceives_setNetwork _) (.bind (.emit trivial) fun _ => deceives_setNetwork _)
  | greeting => exact .bind (deceives_onNode deceives_sendHello) fun _ => deceives_setNetwork _
  | inner i received => exact .ite (deceives_setNetwork _) (deceives_setNetwork _)
  | receiving i received =>
    have handled : Preserves Araba.Deceived Effect.Astray
        (if (net.receivePacket frame received).1 = true then
          handlePacket (net.receivePacket frame received).2 clock else pure () : Action env Unit) := by
      split_ifs with ok
      · cases frame with
        | none =>
          rw [NetworkInterface.receivePacket] at ok
          split_ifs at ok
        | some frame =>
          obtain ⟨q, fits, rfl⟩ := off
          obtain ⟨source, fits'⟩ := source_of_received (Prod.ext ok rfl)
          exact deceives_handlePacket (source ▸ phantom_sourceIn fits) fits'
      · exact .pure ()
    exact .bind (deceives_onNode handled) fun _ => deceives_setNetwork _
  | retrying =>
    exact .bind (deceives_onNode deceives_retryPass) fun _ => deceives_setNetwork _
  | cleaning =>
    exact .bind (deceives_onNode (preserves_cleanupTick fun _ _ _ h => ⟨h.neighbor, h.route⟩))
      fun _ => deceives_setNetwork _
  | stopped => exact .pure ()

theorem Process.deceives_step {step : ProcessStep} (off : step.OffTheLink) :
    Preserves (@Process.Deceived env) Effect.Astray (Process.step net step) := by
  intro p h
  cases step with
  | line input clock =>
    obtain ⟨node, running, main, network⟩ := p
    cases main with
    | inLoop point =>
      cases point with
      | idle =>
        cases input with
        | none => exact ⟨⟨h.node, fun _ here => by cases here⟩, fun e mem => by cases mem⟩
        | some inputLine => exact deceives_runCommand clock (parseCommand inputLine) _ h
      | _ => exact ⟨h, fun e mem => by cases mem⟩
    | _ => exact ⟨h, fun e mem => by cases mem⟩
  | goOn clock junk =>
    obtain ⟨node, running, main, network⟩ := p
    cases main with
    | inLoop point =>
      have fits : point.Fits := h.main point rfl
      obtain ⟨kept, astray⟩ := (deceives_advance fits junk :
        Preserves Araba.Deceived Effect.Astray (point.advance clock junk)) node h.node
      refine ⟨⟨kept, fun next here => ?_⟩, fun e mem => astray e ?_⟩
      · rw [← MainAt.inLoop.inj here]
        exact fits.advance junk node
      · rwa [← List.append_nil (Traced.trace _ node)]
    | _ => exact ⟨h, fun e mem => by cases mem⟩
  | join =>
    obtain ⟨node, running, main, network⟩ := p
    cases main with
    | joining =>
      cases network with
      | stopped => exact ⟨⟨h.node, fun _ here => by cases here⟩, fun e mem => by cases mem⟩
      | _ => exact ⟨h, fun e mem => by cases mem⟩
    | _ => exact ⟨h, fun e mem => by cases mem⟩
  | network frame junk clock => exact deceives_networkTurn junk clock off p p h

end Program

/-! ## The hosts -/

/-- The programs, the buffers that were handed to `sendto`, and what each program has done. -/
structure Link (E : MeshEnv) where
  programs : (m : Mac) → Process (E.env m)
  frames : List (List UInt8) := []
  done : List (Mac × Effect) := []

/-- A step of one of the programs. What is received is named by its place among the buffers that were
sent; it can be received by any host, any number of times, late or never. -/
inductive LinkStep
  | line (m : Mac) (input : Option Str) (clock : Clock)
  | goOn (m : Mac) (clock : Clock) (junk : UInt32)
  | join (m : Mac)
  | network (m : Mac) (i : ℕ) (junk : Packet) (clock : Clock)

namespace Link

variable {E : MeshEnv}

/-- The programs have just started, and nothing is on the link. -/
def start (queueFiles : Mac → Option (List UInt8)) : Link E where
  programs m := Process.start (E.env m) (queueFiles m)

/-- The buffers that `sendto` is given for what a program sends. -/
def handedOver (net : NetworkInterface) (es : List Effect) : List (List UInt8) :=
  (sendCalls es).filterMap fun call => (net.sendPacket call.1 call.2 fun _ => 0).2.map SendTo.buffer

/-- The program of a host takes a step. -/
def act (nets : Mac → NetworkInterface) (L : Link E) (m : Mac) (step : ProcessStep) : Link E :=
  let es := (Process.step (nets m) step).trace (L.programs m)
  { programs := Function.update L.programs m ((Process.step (nets m) step).post (L.programs m))
    frames := L.frames ++ handedOver (nets m) es
    done := L.done ++ es.map fun e => (m, e) }

/-- `wire` is what the link makes of a buffer. -/
def step (wire : List UInt8 → List UInt8) (nets : Mac → NetworkInterface) (L : Link E) :
    LinkStep → Link E
  | .line m input clock => L.act nets m (.line input clock)
  | .goOn m clock junk => L.act nets m (.goOn clock junk)
  | .join m => L.act nets m .join
  | .network m i junk clock => L.act nets m (.network (L.frames[i]?.map wire) junk clock)

/-- The programs and the link after the steps. -/
def after (wire : List UInt8 → List UInt8) (nets : Mac → NetworkInterface) (L : Link E)
    (steps : List LinkStep) : Link E :=
  steps.foldl (step wire nets) L

/-- Every frame is the image of a packet, and nobody knows of anybody but phantoms. -/
structure Haunted (L : Link E) : Prop where
  programs : ∀ m, (L.programs m).Deceived
  frames : ∀ frame ∈ L.frames, ∃ p : Packet, p.Fits ∧ frame = p.toBytes
  done : ∀ x ∈ L.done, x.2.Astray

variable {nets : Mac → NetworkInterface} {L : Link E}

theorem haunted_start (queueFiles : Mac → Option (List UInt8)) :
    (start queueFiles : Link E).Haunted where
  programs m := ⟨deceived_start _, fun point here => by
    obtain rfl := MainAt.inLoop.inj here
    trivial⟩
  frames frame mem := absurd mem List.not_mem_nil
  done x mem := absurd mem List.not_mem_nil

theorem handedOver_fits {net : NetworkInterface} {es : List Effect} (astray : ∀ e ∈ es, e.Astray) :
    ∀ frame ∈ handedOver net es, ∃ p : Packet, p.Fits ∧ frame = p.toBytes := by
  intro frame mem
  obtain ⟨call, sent, buffer⟩ := List.mem_filterMap.1 mem
  obtain ⟨args, handed, rfl⟩ := Option.map_eq_some_iff.1 buffer
  refine ⟨call.1, ?_, NetworkInterface.buffer_of_sendPacket handed⟩
  obtain ⟨e, mem', here⟩ := List.mem_filterMap.1 sent
  cases e with
  | send p link =>
    obtain rfl := Option.some.inj here
    exact (astray _ mem').1
  | _ => cases here

theorem Haunted.act (h : L.Haunted) (m : Mac) {step : ProcessStep} (off : step.OffTheLink) :
    (L.act nets m step).Haunted := by
  have deceives : Preserves (@Process.Deceived (E.env m)) Effect.Astray
      (Process.step (nets m) step) := Process.deceives_step off
  obtain ⟨kept, astray⟩ := deceives (L.programs m) (h.programs m)
  refine ⟨fun n => ?_, fun frame mem => ?_, fun x mem => ?_⟩
  · by_cases same : n = m
    · subst same
      show (Function.update L.programs n _ n).Deceived
      rwa [Function.update_self]
    · show (Function.update L.programs m _ n).Deceived
      rw [Function.update_of_ne same]
      exact h.programs n
  · rcases List.mem_append.1 mem with old | new
    · exact h.frames frame old
    · exact handedOver_fits astray frame new
  · rcases List.mem_append.1 mem with old | new
    · exact h.done x old
    · obtain ⟨e, mem', rfl⟩ := List.mem_map.1 new
      exact astray e mem'

theorem Haunted.step (h : L.Haunted) (op : LinkStep) : (L.step id nets op).Haunted := by
  cases op with
  | line m input clock => exact h.act m trivial
  | goOn m clock junk => exact h.act m trivial
  | join m => exact h.act m trivial
  | network m i junk clock =>
    refine h.act m ?_
    rw [Option.map_id_apply]
    cases got : L.frames[i]? with
    | none => trivial
    | some frame => exact h.frames frame (List.mem_of_getElem? got)

theorem Haunted.after (h : L.Haunted) (steps : List LinkStep) : (L.after id nets steps).Haunted := by
  induction steps generalizing L with
  | nil => exact h
  | cons op steps ih => exact ih (h.step op)

/-- On a link that carries the buffers of `sendto` as they are, and that nobody else uses, a host with a
fourth byte above 2 in its MAC is never met: in no run it becomes a neighbour or a next hop of anybody,
no message is reported as its, and nothing but greetings and messages is sent to it, so that its own
greetings are never answered and its messages never acknowledged. -/
theorem nobody_is_met (nets : Mac → NetworkInterface) (queueFiles : Mac → Option (List UInt8))
    (steps : List LinkStep) {d : Mac} (vendor : 2 < d.get 3) (m : Mac) :
    macToString d ∉ (((start queueFiles : Link E).after id nets steps).programs m).node.knownNeighbors ∧
      (∀ dest e, (((start queueFiles : Link E).after id nets steps).programs m).node.table.getRoute dest =
        some e → e.nextHop ≠ d) ∧
      (∀ message, (m, .log (.messageReceived (macToString d) message)) ∉
        ((start queueFiles : Link E).after id nets steps).done) ∧
      ∀ p, (m, .send p d) ∈ ((start queueFiles : Link E).after id nets steps).done →
        p.header.type = .discovery ∨ p.header.type = .data := by
  have h : ((start queueFiles : Link E).after id nets steps).Haunted :=
    (haunted_start queueFiles).after steps
  have real : ¬ Phantom d := fun phantom => UInt8.not_le.2 vendor phantom.fourth
  refine ⟨fun mem => ?_, fun dest e found same => ?_, fun message mem => ?_, fun p mem => ?_⟩
  · obtain ⟨d', name, phantom⟩ := (h.programs m).node.neighbor _ mem
    exact real (macToString_injective name ▸ phantom)
  · exact real (same ▸ (h.programs m).node.route dest e found)
  · obtain ⟨d', name, phantom⟩ := h.done _ mem
    exact real (macToString_injective name ▸ phantom)
  · obtain ⟨-, type⟩ := h.done _ mem
    rcases type with greeting | data | phantom
    · exact Or.inl greeting
    · exact Or.inr data
    · exact absurd phantom real

/-- Two hosts as they are sold. -/
def vendorMac (last : UInt8) : Mac := #v[0x00, 0xe9, 0x3a, 0xc4, 0x5d, last]

/-- One of them greets, and the other one receives the frame. -/
def greetingOnTheLink : List LinkStep :=
  List.replicate 3 (.network (vendorMac 0xc9) 0 NetworkInterface.helloPacket ⟨0, 0⟩) ++
    List.replicate 5 (.network (vendorMac 0xca) 0 NetworkInterface.helloPacket ⟨0, 0⟩)

theorem nobody_is_met_greeting :
    macToString (vendorMac 0xc9) ∉ (((start fun _ => none : Link smallMesh).after id
        (fun _ => NetworkInterface.openInterface) greetingOnTheLink).programs
          (vendorMac 0xca)).node.knownNeighbors ∧
      (∀ dest e, (((start fun _ => none : Link smallMesh).after id
        (fun _ => NetworkInterface.openInterface) greetingOnTheLink).programs
          (vendorMac 0xca)).node.table.getRoute dest = some e → e.nextHop ≠ vendorMac 0xc9) ∧
      (∀ message, (vendorMac 0xca, .log (.messageReceived (macToString (vendorMac 0xc9)) message)) ∉
        ((start fun _ => none : Link smallMesh).after id
          (fun _ => NetworkInterface.openInterface) greetingOnTheLink).done) ∧
      ∀ p, (vendorMac 0xca, .send p (vendorMac 0xc9)) ∈ ((start fun _ => none : Link smallMesh).after id
          (fun _ => NetworkInterface.openInterface) greetingOnTheLink).done →
        p.header.type = .discovery ∨ p.header.type = .data := by
  have vendor : 2 < (vendorMac 0xc9).get 3 := by decide
  exact nobody_is_met (fun _ => NetworkInterface.openInterface) (fun _ => none) greetingOnTheLink
    vendor (vendorMac 0xca)

end Link

end Araba
