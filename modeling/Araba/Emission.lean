import Araba.Acknowledgement
import Araba.Relay

/-!
# What a node sends

Everything that a node sends when it handles a packet: queued messages, the advertisement of its
neighbours, the packet itself sent on, and an acknowledgement.
-/

namespace Araba

open Bytes Traced

/-- What a node sends when it handles a packet, `known` being its neighbours by then. -/
inductive Emission (env : NodeEnv) (known : List Str) (received : Packet) : Packet → Prop
  | queued {p : Packet} (data : p.header.type = .data) (own : p.header.source = env.myMac) :
      Emission env known received p
  | advert (seqNum : UInt32) : Emission env known received
      ((Packet.init .routeAdv env.myMac received.header.source seqNum).fill
        (packRoutes known advPayloadSize))
  | relayed (data : received.header.type = .data) :
      Emission env known received (received.withTtl (received.header.ttl - 1))
  | ack (data : received.header.type = .data) (mine : received.header.dest = env.myMac) :
      Emission env known received (ackFor env received)

/-- What is sent has the property. -/
def Effect.Sends (P : Packet → Prop) : Effect → Prop
  | send packet _ => P packet
  | _ => True

theorem forall_mem_sendCalls {P : Packet → Prop} {es : List Effect} (h : ∀ e ∈ es, e.Sends P) :
    ∀ call ∈ sendCalls es, P call.1 := by
  intro call hcall
  obtain ⟨e, he, sent⟩ := List.mem_filterMap.1 hcall
  cases e with
  | send packet link =>
    obtain rfl := Option.some.inj sent
    exact h _ he
  | _ => cases sent

section Emission

variable {env : NodeEnv} {received : Packet} {clock : Clock} {known : Std.ExtTreeSet Str}

/-- A part of the handler that leaves the neighbours alone and sends nothing but what a node sends
then. -/
def Emits (received : Packet) (known : Std.ExtTreeSet Str) {α : Type} (m : Action env α) : Prop :=
  Preserves (fun s => s.knownNeighbors = known) (Effect.Sends (Emission env known.toList received)) m

theorem emits_autoDeliver : Emits received known (autoDeliver received : Action env Unit) :=
  preserves_autoDeliver (fun _ _ _ hs => hs) (fun _ => trivial) trivial
    fun _ _ data own => .queued data own

theorem emits_handleDiscovery : Emits received known (handleDiscovery received : Action env Unit) :=
  preserves_handleDiscovery (fun _ _ hs => hs) fun s hs => hs ▸ .advert s.seqNum

theorem emits_handleData : Emits received known (handleData received clock : Action env Unit) :=
  preserves_handleData (fun _ _ _ hs => hs) trivial trivial trivial (fun _ _ => trivial)
    (fun data mine => .emit (.ack data mine)) fun data _ _ => .relayed data

/-- Whatever a node sends when it handles a packet is one of these. -/
theorem emissions_handlePacket (received : Packet) (clock : Clock) (s : NodeState env)
    (other : received.header.source ≠ env.myMac) :
    ∀ e ∈ (handlePacket received clock).trace s,
      e.Sends (Emission env ((learnNeighbor received clock).post s).knownNeighbors.toList received) := by
  set s₁ := (learnNeighbor received clock).post s
  have control : Emits received s₁.knownNeighbors (do
      autoDeliver received
      handleDiscovery received
      handleRouteAdv received clock
      handleAck received : Action env Unit) :=
    .bind emits_autoDeliver fun _ => .bind emits_handleDiscovery fun _ =>
      .bind (preserves_handleRouteAdv (fun _ _ hs => hs) trivial) fun _ =>
      preserves_handleAck (fun _ _ hs => hs) fun _ => trivial
  obtain ⟨known, sent⟩ := control s₁ rfl
  have learned : Preserves (fun _ => True)
      (Effect.Sends (Emission env s₁.knownNeighbors.toList received))
      (learnNeighbor received clock : Action env Unit) :=
    preserves_learnNeighbor (fun _ _ _ _ => trivial) trivial
  intro e he
  rw [trace_handlePacket other] at he
  simp only [List.mem_append, List.mem_singleton] at he
  obtain rfl | he | he | rfl := he
  · trivial
  · rcases List.mem_append.1 he with he | he
    · exact (learned s trivial).2 e he
    · exact sent e he
  · exact (emits_handleData _ known).2 e he
  · trivial

theorem knownNeighbors_handlePacket (received : Packet) (clock : Clock) (s : NodeState env)
    (other : received.header.source ≠ env.myMac) :
    ((handlePacket received clock).post s).knownNeighbors =
      ((learnNeighbor received clock).post s).knownNeighbors := by
  rw [post_handlePacket_parts other,
    (leaves_handleData (f := NodeState.knownNeighbors) fun _ _ _ => rfl).post,
    (leaves_handleAck (f := NodeState.knownNeighbors) fun _ _ => rfl).post,
    (leaves_handleRouteAdv (f := NodeState.knownNeighbors) fun _ _ => rfl).post,
    (leaves_handleDiscovery (f := NodeState.knownNeighbors) fun _ _ => rfl).post,
    (leaves_autoDeliver (f := NodeState.knownNeighbors) fun _ _ _ => rfl).post]

theorem mem_knownNeighbors_learnNeighbor (received : Packet) (clock : Clock) (s : NodeState env)
    (n : Str) :
    n ∈ ((learnNeighbor received clock).post s).knownNeighbors ↔
      n = macToString received.header.source ∨ n ∈ s.knownNeighbors := by
  unfold learnNeighbor
  rw [post_bind, post_get, value_get, post_ite]
  split_ifs with old
  · refine ⟨.inr, fun h => h.elim (fun same => ?_) id⟩
    rw [same]
    exact old
  · show n ∈ s.knownNeighbors.insert (macToString received.header.source) ↔ _
    rw [Std.ExtTreeSet.mem_insert, Std.LawfulEqCmp.compare_eq_iff_eq, eq_comm]

end Emission

end Araba
