import Araba.RouteBuffer
import Araba.StoreAndForward

/-!
# Meeting a neighbour

A greeting is answered with the neighbours of the node that hears it, and the answer is taken over as
routes through that node. What the two nodes know of one another after the exchange, whatever they did
before and do later.
-/

namespace Araba

open Bytes Traced

/-! ## The routes of an answer -/

theorem packRoutes_eq_routeImage (ns : List Str) :
    packRoutes ns advPayloadSize = routeImage (ns.take 73) := by
  have room : roomFrom advPayloadSize 1 = 73 := rfl
  rw [packRoutes, packEntries_eq, room, routeImage, List.length_map, List.flatMap_def]

/-- What is packed is unpacked as routes of two hops to the first 73 names. -/
theorem unpackRoutes_packRoutes_eq (ns : List Str) (via : Mac) (table : RoutingTable) (now : UInt64) :
    unpackRoutes (packRoutes ns advPayloadSize) via table now =
      table.withCalls ((ns.take 73).map fun n => ⟨stringToMac n, via, 2, now⟩) := by
  have few : (ns.take 73).length < 256 := by
    rw [List.length_take]
    omega
  set m : Cells.Memory RouteArray := fun _ _ => 0
  have unpacked := (unpacks_routeImage m via now table few).1
  rw [value_unpackRoutesCells, Cells.Memory.bytes_put_self] at unpacked
  rw [packRoutes_eq_routeImage, unpacked]

namespace RoutingTable

variable {t : RoutingTable} {d via : Mac} {hops : UInt8} {now : UInt64}

theorem hasRoute_iff_distance_le : t.HasRoute d hops ↔ t.distance d ≤ hops.toNat := by
  constructor
  · rintro ⟨e, found, short⟩
    rw [distance_of_getRoute found]
    exact UInt8.le_iff_toNat_le.1 short
  · intro near
    cases found : t.getRoute d with
    | none =>
      rw [distance, found] at near
      exact absurd near (not_le.2 hops.toNat_lt)
    | some e =>
      rw [distance_of_getRoute found] at near
      exact ⟨e, found, UInt8.le_iff_toNat_le.2 near⟩

theorem HasRoute.withCalls (h : t.HasRoute d hops) (calls : List AddRoute) :
    (t.withCalls calls).HasRoute d hops := by
  induction calls generalizing t with
  | nil => exact h
  | cons c calls ih =>
    refine ih (hasRoute_iff_distance_le.2 ?_)
    exact (distance_addRoute_le t c.dest c.nextHop c.hops c.now d).trans (hasRoute_iff_distance_le.1 h)

theorem getRoute_addRoute_of_not (new : ¬ t.HasRoute d hops) :
    (t.addRoute d via hops now).getRoute d = some ⟨d, via, hops, now, true⟩ := by
  obtain ⟨e, found, -⟩ := t.getRoute_addRoute_self d via hops now
  simp only [addRoute] at found ⊢
  split_ifs at found ⊢ with better
  · exact getRoute_eq_some_iff.2 ⟨Std.ExtTreeMap.getElem?_insert_self, rfl⟩
  · rw [not_or, UInt8.not_lt] at better
    cases entry : t.table[macToKey d]? with
    | none => simp [entry] at better
    | some old =>
      rw [entry, Option.getD_some] at better
      exact absurd ⟨old, getRoute_eq_some_iff.2 ⟨entry, by simpa using better.1⟩, better.2⟩ new

theorem getRoute_withCalls_of_le {e : RouteEntry} (found : t.getRoute d = some e) (short : e.hops ≤ hops)
    (ds : List Mac) :
    (t.withCalls (ds.map fun d => ⟨d, via, hops, now⟩)).getRoute d = some e := by
  induction ds generalizing t with
  | nil => exact found
  | cons c ds ih =>
    refine ih (t := t.addRoute c via hops now) ?_
    by_cases same : c = d
    · rw [same]
      exact getRoute_addRoute_of_le found short
    · rw [getRoute_addRoute_of_ne t same, found]

/-- A destination that is listed, and to which there was no route as short, gets the listed one. -/
theorem getRoute_withCalls_of_not {ds : List Mac} (mem : d ∈ ds) (new : ¬ t.HasRoute d hops) :
    (t.withCalls (ds.map fun d => ⟨d, via, hops, now⟩)).getRoute d =
      some ⟨d, via, hops, now, true⟩ := by
  induction ds generalizing t with
  | nil => cases mem
  | cons c ds ih =>
    by_cases same : c = d
    · rw [same]
      exact getRoute_withCalls_of_le (t := t.addRoute d via hops now) (getRoute_addRoute_of_not new)
        (UInt8.le_refl _) ds
    · have rest : d ∈ ds := (List.mem_cons.1 mem).resolve_left (Ne.symm same)
      refine ih (t := t.addRoute c via hops now) rest ?_
      rwa [HasRoute, getRoute_addRoute_of_ne t same]

end RoutingTable

/-! ## The two nodes -/

section Answer

variable {env : NodeEnv} {received : Packet} {clock : Clock} {s : NodeState env}

/-- The answer to a greeting lists the neighbours that are known when it has been handled. -/
theorem answer_mem_trace (clock : Clock) (s : NodeState env)
    (other : received.header.source ≠ env.myMac)
    (greets : received.header.type = .discovery) :
    ∃ seqNum, .send ((Packet.init .routeAdv env.myMac received.header.source seqNum).fill
        (packRoutes ((handlePacket received clock).post s).knownNeighbors.toList advPayloadSize))
        received.header.source ∈ (handlePacket received clock).trace s := by
  have known := knownNeighbors_handlePacket received clock s other
  have leaves : Leaves NodeState.knownNeighbors
      (autoDeliver received : Traced (NodeState env) Effect Unit) :=
    leaves_autoDeliver fun _ _ _ => rfl
  have kept := leaves.post ((learnNeighbor received clock).post s)
  refine ⟨((autoDeliver received).post ((learnNeighbor received clock).post s)).seqNum, ?_⟩
  rw [known, ← kept, trace_handlePacket other]
  have answered : .send ((Packet.init .routeAdv env.myMac received.header.source
        ((autoDeliver received).post ((learnNeighbor received clock).post s)).seqNum).fill
        (packRoutes ((autoDeliver received).post
          ((learnNeighbor received clock).post s)).knownNeighbors.toList advPayloadSize))
        received.header.source ∈ (handleDiscovery received).trace
          ((autoDeliver received).post ((learnNeighbor received clock).post s)) := by
    rw [handleDiscovery, if_pos greets]
    exact List.mem_singleton_self _
  have inside : .send ((Packet.init .routeAdv env.myMac received.header.source
        ((autoDeliver received).post ((learnNeighbor received clock).post s)).seqNum).fill
        (packRoutes ((autoDeliver received).post
          ((learnNeighbor received clock).post s)).knownNeighbors.toList advPayloadSize))
        received.header.source ∈ (handleControl received clock).trace s := by
    simp only [handleControl, trace_bind, List.mem_append]
    exact Or.inr (Or.inr (Or.inl answered))
  simp only [List.mem_append]
  exact Or.inr (Or.inl inside)

theorem table_of_answer {ns : List Str} (clock : Clock) (s : NodeState env)
    (other : received.header.source ≠ env.myMac) (adv : received.header.type = .routeAdv)
    (body : received.body = packRoutes ns advPayloadSize) :
    ((handlePacket received clock).post s).table =
      ((learnNeighbor received clock).post s).table.withCalls
        ((ns.take 73).map fun n => ⟨stringToMac n, received.header.source, 2, clock.time⟩) := by
  refine (congrArg Prod.snd (routing_handlePacket clock s other)).trans ?_
  show ((handleRouteAdv received clock).post ((learnNeighbor received clock).post s)).table = _
  rw [handleRouteAdv, if_pos adv, ← unpackRoutes_packRoutes_eq, ← body]
  rfl

theorem hasRoute_learnNeighbor_of_ne {d : Mac} {hops : UInt8} (other : received.header.source ≠ d) :
    ((learnNeighbor received clock).post s).table.HasRoute d hops ↔ s.table.HasRoute d hops := by
  unfold learnNeighbor
  rw [post_bind, post_get, value_get, post_ite]
  split_ifs
  · rfl
  · show (s.table.addRoute received.header.source received.header.source 1 clock.time).HasRoute d hops ↔ _
    rw [RoutingTable.HasRoute, RoutingTable.getRoute_addRoute_of_ne _ other]
    rfl

theorem learns_from_answer {ns : List Str} (clock : Clock) (s : NodeState env)
    (other : received.header.source ≠ env.myMac) (adv : received.header.type = .routeAdv)
    (body : received.body = packRoutes ns advPayloadSize) {d : Mac}
    (listed : macToString d ∈ ns.take 73) :
    ((handlePacket received clock).post s).table.HasRoute d 2 ∧
      (received.header.source ≠ d → ¬ s.table.HasRoute d 2 →
        ((handlePacket received clock).post s).table.getRoute d =
          some ⟨d, received.header.source, 2, clock.time, true⟩) := by
  set learnt := ((learnNeighbor received clock).post s).table
  have mem : d ∈ (ns.take 73).map stringToMac :=
    List.mem_map.2 ⟨macToString d, listed, stringToMac_macToString d⟩
  have table := table_of_answer clock s other adv body
  have calls : ((ns.take 73).map fun n =>
        (⟨stringToMac n, received.header.source, 2, clock.time⟩ : AddRoute)) =
      ((ns.take 73).map stringToMac).map fun d => ⟨d, received.header.source, 2, clock.time⟩ := by
    rw [List.map_map]
    rfl
  rw [table, calls]
  refine ⟨?_, fun apart new => ?_⟩
  · by_cases old : learnt.HasRoute d 2
    · exact old.withCalls _
    · exact ⟨_, RoutingTable.getRoute_withCalls_of_not mem old, UInt8.le_refl 2⟩
  · exact RoutingTable.getRoute_withCalls_of_not mem
      fun old => new ((hasRoute_learnNeighbor_of_ne apart).1 old)

end Answer

/-- A greeting is heard and answered, and the answer is heard: from then on, whatever steps follow,
each of the two nodes has the other as a neighbour, and the one that heard the answer has a route of at
most two hops to each of the first 73 nodes that the other listed in it. Where it had none, the route
goes through the other when the answer has been handled; later a shorter one may replace it. -/
theorem discovery_exchange {a b : NodeEnv} (distinct : a.myMac ≠ b.myMac)
    (queueFile : Option (List UInt8)) (steps : List NodeStep) {hello : Packet}
    (greets : hello.header.type = .discovery) (source : hello.header.source = a.myMac)
    (clock : Clock) :
    ∃ answer, .send answer a.myMac ∈ (handlePacket hello clock).trace
        (stateAfter (NodeState.start b queueFile) steps) ∧
      (∀ later : List NodeStep, macToString a.myMac ∈ (stateAfter (NodeState.start b queueFile)
        (steps ++ [.network (.packet hello clock)] ++ later)).knownNeighbors) ∧
      ∀ (s : NodeState a) (clock' : Clock) (later : List NodeStep),
        macToString b.myMac ∈
            (stateAfter ((handlePacket answer clock').post s) later).knownNeighbors ∧
          ∀ d, macToString d ∈ (stateAfter (NodeState.start b queueFile)
                (steps ++ [.network (.packet hello clock)])).knownNeighbors.toList.take 73 →
            (stateAfter ((handlePacket answer clock').post s) later).table.HasRoute d 2 ∧
              (¬ s.table.HasRoute d 2 → ((handlePacket answer clock').post s).table.getRoute d =
                some ⟨d, b.myMac, 2, clock'.time, true⟩) := by
  set heard := steps ++ [NodeStep.network (.packet hello clock)] with heard_def
  set t := stateAfter (NodeState.start b queueFile) steps with t_def
  have after : stateAfter (NodeState.start b queueFile) heard = (handlePacket hello clock).post t := by
    rw [heard_def, stateAfter_append]
    rfl
  have other : hello.header.source ≠ b.myMac := by rwa [source]
  obtain ⟨seqNum, sent⟩ := answer_mem_trace clock t other greets
  rw [source, ← after] at sent
  refine ⟨_, sent, fun later => ?_, fun s clock' later => ?_⟩
  · refine (mem_knownNeighbors_run queueFile _ _).2 ⟨hello, clock, ?_, other, by rw [source]⟩
    rw [heard_def]
    exact List.mem_append_left _ (List.mem_append_right _ (List.mem_singleton_self _))
  generalize names_def : (stateAfter (NodeState.start b queueFile) heard).knownNeighbors.toList = names
  set answer := (Packet.init .routeAdv b.myMac a.myMac seqNum).fill (packRoutes names advPayloadSize)
  have body : answer.body = packRoutes names advPayloadSize := body_advert _ names
  refine ⟨?_, fun d listed => ?_⟩
  · refine (mem_knownNeighbors_stateAfter _ later _).2 (Or.inl ?_)
    rw [knownNeighbors_handlePacket answer clock' s distinct.symm, mem_knownNeighbors_learnNeighbor]
    exact Or.inl rfl
  · obtain ⟨has, route⟩ := learns_from_answer clock' s distinct.symm rfl body listed
    refine ⟨?_, fun new => route ?_ new⟩
    · rw [table_stateAfter]
      exact has.withCalls _
    · -- a node does not list itself: it ignores its own packets
      have mem := List.mem_of_mem_take listed
      rw [← names_def, Std.ExtTreeSet.mem_toList, mem_knownNeighbors_run] at mem
      obtain ⟨p, clock'', -, apart, name⟩ := mem
      rintro rfl
      exact apart (macToString_injective name)

/-- The greeting of another node is the only packet. -/
def helloHeard : List NodeStep := [.network (.packet (helloFrom senderEnv.myMac) ⟨0, 0⟩)]

/-- A node that has just started is heard by another one, which lists it in its answer. -/
theorem discovery_exchange_hello :
    ∃ answer, .send answer senderEnv.myMac ∈ (handlePacket (helloFrom senderEnv.myMac) ⟨0, 0⟩).trace
        (NodeState.start receiverEnv none) ∧
      (∀ later : List NodeStep, macToString senderEnv.myMac ∈
        (stateAfter (NodeState.start receiverEnv none) (helloHeard ++ later)).knownNeighbors) ∧
      ∀ (s : NodeState senderEnv) (clock' : Clock) (later : List NodeStep),
        macToString receiverEnv.myMac ∈
            (stateAfter ((handlePacket answer clock').post s) later).knownNeighbors ∧
          ∀ d, macToString d ∈ (stateAfter (NodeState.start receiverEnv none)
                helloHeard).knownNeighbors.toList.take 73 →
            (stateAfter ((handlePacket answer clock').post s) later).table.HasRoute d 2 ∧
              (¬ s.table.HasRoute d 2 → ((handlePacket answer clock').post s).table.getRoute d =
                some ⟨d, receiverEnv.myMac, 2, clock'.time, true⟩) := by
  have distinct : senderEnv.myMac ≠ receiverEnv.myMac := by decide
  exact discovery_exchange distinct none [] rfl rfl ⟨0, 0⟩

end Araba
