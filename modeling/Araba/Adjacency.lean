import Araba.OpenMesh

/-!
# Adjacency

A node takes the source of whatever it receives for a neighbour. When packets are sent on, their source
need not be the node that transmitted them.
-/

namespace Araba

open Bytes Traced

/-- No packets but DATA packets are put on the air from outside, each by its source, and the routing
tables are left to the nodes. -/
def OpenStep.Honest : OpenStep → Prop
  | run _ => True
  | inject m p _ => p.header.type = .data ∧ p.header.source = m
  | reroute _ _ => False

section Node

variable {env : NodeEnv} {received : Packet} {clock : Clock}

/-- The neighbours, and the destinations that are one hop away, are nodes that were heard. -/
structure Learned (heard : Mac → Prop) (s : NodeState env) : Prop where
  neighbor : ∀ n ∈ s.knownNeighbors, ∃ d, n = macToString d ∧ heard d
  route : ∀ d e, s.table.getRoute d = some e → e.hops = 1 → heard d

variable {heard : Mac → Prop} {s : NodeState env}

theorem Learned.mono {heard' : Mac → Prop} (more : ∀ d, heard d → heard' d) (h : Learned heard s) :
    Learned heard' s where
  neighbor n hn := (h.neighbor n hn).imp fun _ both => ⟨both.1, more _ both.2⟩
  route d e found one := more d (h.route d e found one)

theorem Learned.congr {s' : NodeState env} (same : routing s' = routing s) (h : Learned heard s) :
    Learned heard s' := by
  obtain ⟨known, table⟩ := Prod.mk.inj same
  refine ⟨?_, ?_⟩
  · rw [known]
    exact h.neighbor
  · rw [table]
    exact h.route

theorem Learned.learnNeighbor (h : Learned heard s) (src : heard received.header.source) :
    Learned heard ((learnNeighbor received clock).post s) := by
  unfold Araba.learnNeighbor
  rw [post_bind, post_get, value_get, post_ite]
  split_ifs with old
  · exact h
  · refine ⟨fun n hn => ?_, fun d e found one => ?_⟩
    · rcases Std.ExtTreeSet.mem_insert.1 hn with new | old
      · exact ⟨_, (Std.LawfulEqCmp.eq_of_compare new).symm, src⟩
      · exact h.neighbor n old
    · rcases RoutingTable.getRoute_addRoute_cases found with before | ⟨rfl, -, -⟩
      · exact h.route d e before one
      · exact src

theorem Learned.handleRouteAdv (ns : List Str) (h : Learned heard s)
    (adv : received.header.type = .routeAdv → received.body = packRoutes ns advPayloadSize) :
    Learned heard ((handleRouteAdv received clock).post s) := by
  unfold Araba.handleRouteAdv
  rw [post_ite]
  split_ifs with isAdv
  · have all : Learned heard { s with
        table := unpackRoutes (packRoutes ns advPayloadSize) received.header.source s.table
          clock.time } := by
      refine unpackRoutes_packRoutes (P := fun t => Learned heard { s with table := t })
        (fun t n _ learned => ⟨learned.neighbor, fun d e found one => ?_⟩) h
      rcases RoutingTable.getRoute_addRoute_cases found with before | ⟨-, -, two⟩
      · exact learned.route d e before one
      · rw [one] at two
        exact absurd two (by decide)
    rw [← adv isAdv] at all
    exact all
  · exact h

end Node

/-- An open mesh, with what each of its nodes has received so far. -/
structure Watched (E : MeshEnv) where
  mesh : Mesh E
  heard : Mac → List Transmission := fun _ => []

namespace Watched

variable {E : MeshEnv} {W : Watched E}

/-- What a node receives in a step. -/
def hears (M : Mesh E) (n : Mac) : OpenStep → List Transmission
  | .run (.hear m i _) => if m = n then M.air[i]?.toList else []
  | _ => []

/-- A step of the mesh, with what the node hears in it. -/
def step (W : Watched E) (op : OpenStep) : Watched E where
  mesh := W.mesh.openStep op
  heard n := W.heard n ++ hears W.mesh n op

/-- Nothing has been heard yet. -/
def start (queueFiles : Mac → Option (List UInt8)) : Watched E where
  mesh := Mesh.start queueFiles

/-- The mesh after the steps, with what each node has heard in them. -/
def after (W : Watched E) (steps : List OpenStep) : Watched E := steps.foldl step W

theorem after_append (steps steps' : List OpenStep) :
    W.after (steps ++ steps') = (W.after steps).after steps' :=
  List.foldl_append

/-- The node has received a packet that `d` transmitted. -/
def Heard (W : Watched E) (m d : Mac) : Prop := ∃ t ∈ W.heard m, t.transmitter = d

/-- The neighbours of every node have been received by it. -/
def Adjacent (W : Watched E) : Prop := ∀ m, Learned (W.Heard m) (W.mesh.sites m).state

/-- A packet of another node that is received was transmitted by its source, or an earlier one was. -/
def InSight (W : Watched E) : OpenStep → Prop
  | .run (.hear m i _) => ∀ t, W.mesh.air[i]? = some t → t.packet.header.source ≠ m →
    t.packet.header.source = t.transmitter ∨ W.Heard m t.packet.header.source
  | _ => True

theorem Heard.step {m d : Mac} (h : W.Heard m d) (op : OpenStep) : (W.step op).Heard m d := by
  obtain ⟨t, mem, transmitted⟩ := h
  exact ⟨t, List.mem_append_left _ mem, transmitted⟩

/-- One node may have changed, but not its neighbours and its routes. -/
theorem Adjacent.of_routing {op : OpenStep} {m : Mac} {x : Site (E.env m)} {ts : List Transmission}
    (h : W.Adjacent) (put : W.mesh.openStep op = W.mesh.put m x ts)
    (same : routing x.state = routing (W.mesh.sites m).state) : (W.step op).Adjacent := by
  intro n
  have kept : Learned (W.Heard n) ((W.mesh.put m x ts).sites n).state :=
    Mesh.forall_sites_put (P := fun n x => Learned (W.Heard n) x.state) h ((h m).congr same) n
  rw [← put] at kept
  exact kept.mono fun d heard => heard.step op

theorem Adjacent.of_idle {op : OpenStep} (h : W.Adjacent) (idle : W.mesh.openStep op = W.mesh) :
    (W.step op).Adjacent :=
  h.of_routing (idle.trans (Mesh.put_self W.mesh broadcast).symm) rfl

theorem adjacent_hear {m : Mac} {i : ℕ} {clock : Clock} {t : Transmission}
    (got : W.mesh.air[i]? = some t) (traceable : W.mesh.Traceable) (h : W.Adjacent)
    (inSight : W.InSight (.run (.hear m i clock))) :
    (W.step (.run (.hear m i clock))).Adjacent := by
  set op : OpenStep := .run (.hear m i clock) with op_def
  set s := (W.mesh.sites m).state
  have handled : W.mesh.openStep op =
      W.mesh.network m (some t.packet) (handlePacket t.packet clock) := by
    rw [op_def, Mesh.openStep, Mesh.step, got]
  by_cases own : t.packet.header.source = m
  · have nothing : (handlePacket t.packet clock : Action (E.env m) Unit) = pure () := if_pos own
    rw [nothing] at handled
    exact h.of_routing handled rfl
  · have received : t ∈ (W.step op).heard m := by
      refine List.mem_append_right _ ?_
      rw [op_def, hears, if_pos rfl, got]
      exact List.mem_singleton_self t
    have source : (W.step op).Heard m t.packet.header.source := by
      rcases inSight t got own with direct | before
      · exact ⟨t, received, direct.symm⟩
      · exact before.step op
    have learned : Learned ((W.step op).Heard m) ((handlePacket t.packet clock).post s) := by
      refine Learned.congr (routing_handlePacket clock s own) ?_
      have one : Learned ((W.step op).Heard m) ((learnNeighbor t.packet clock).post s) :=
        ((h m).mono fun d heard => heard.step op).learnNeighbor source
      by_cases adv : t.packet.header.type = .routeAdv
      · obtain ⟨ns, packed, -⟩ := (traceable.accounted t (List.mem_of_getElem? got)).advert adv
        exact one.handleRouteAdv ns fun _ => packed
      · exact one.handleRouteAdv [] fun isAdv => absurd isAdv adv
    intro n
    show Learned ((W.step op).Heard n) ((W.mesh.openStep op).sites n).state
    rw [handled]
    exact Mesh.forall_sites_put (P := fun n x => Learned ((W.step op).Heard n) x.state)
      (fun n => (h n).mono fun d heard => heard.step op) learned n

theorem adjacent_step (op : OpenStep) (honest : op.Honest) (traceable : W.mesh.Traceable)
    (h : W.Adjacent) (inSight : W.InSight op) : (W.step op).Adjacent := by
  cases op with
  | run op =>
    cases op with
    | hello m => exact h.of_routing rfl rfl
    | hear m i clock =>
      cases got : W.mesh.air[i]? with
      | none =>
        refine h.of_idle ?_
        rw [Mesh.openStep, Mesh.step, got]
      | some t => exact adjacent_hear got traceable h inSight
    | retry m clock =>
      exact h.of_routing rfl
        (leaves_retryPass (f := routing) (fun _ _ => rfl) (W.mesh.sites m).state)
    | cleanup m clock =>
      exact h.of_routing rfl
        (leaves_cleanupTick (f := routing) (fun _ _ _ => rfl) (W.mesh.sites m).state)
    | command m targetMac message clock =>
      cases point : (W.mesh.sites m).main with
      | idle =>
        refine h.of_routing (by rw [Mesh.openStep, Mesh.step, point]; rfl)
          (SendPoint.leaves_start routing targetMac message (W.mesh.sites m).state)
      | _ =>
        refine h.of_idle ?_
        rw [Mesh.openStep, Mesh.step, point]
    | advance m clock junk =>
      exact h.of_routing rfl ((W.mesh.sites m).main.leaves_advance (f := routing)
        (fun _ _ _ _ _ _ _ => rfl) (W.mesh.sites m).state)
  | inject m p link =>
    by_cases fits : p.header.payloadLen.toNat ≤ maxPayloadSize
    · exact h.of_routing (if_pos fits) rfl
    · exact h.of_idle (if_neg fits)
  | reroute m table => exact honest.elim

theorem traceable_openStep {M : Mesh E} (op : OpenStep) (honest : op.Honest) (h : M.Traceable) :
    (M.openStep op).Traceable := by
  cases op with
  | run op => exact Mesh.traceable_step op h
  | inject m p link =>
    obtain ⟨data, own⟩ := honest
    rw [Mesh.openStep]
    split_ifs
    · refine Mesh.traceable_put h (h.prepared m) (fun n hn => hn) fun t ht => ?_
      obtain rfl := List.mem_singleton.1 ht
      exact .own (.inl data) own
    · exact h
  | reroute m table => exact honest.elim

theorem adjacent_start (queueFiles : Mac → Option (List UInt8)) :
    (start queueFiles : Watched E).Adjacent := by
  intro m
  refine ⟨fun n hn => absurd hn Std.ExtTreeSet.not_mem_empty, fun d e found => ?_⟩
  have none' : RoutingTable.getRoute {} d = none := rfl
  exact absurd (none'.symm.trans found) nofun

theorem adjacent_after (queueFiles : Mac → Option (List UInt8)) {steps : List OpenStep}
    (honest : ∀ op ∈ steps, op.Honest)
    (inSight : ∀ before op, before ++ [op] <+: steps →
      ((start queueFiles : Watched E).after before).InSight op) :
    ((start queueFiles : Watched E).after steps).mesh.Traceable ∧
      ((start queueFiles : Watched E).after steps).Adjacent := by
  induction steps using List.reverseRecOn with
  | nil => exact ⟨Mesh.traceable_start queueFiles, adjacent_start queueFiles⟩
  | append_singleton before op ih =>
    have honest' := honest op (List.mem_append_right _ (List.mem_singleton_self op))
    obtain ⟨traceable, adjacent⟩ := ih (fun op hop => honest op (List.mem_append_left _ hop))
      fun earlier op h => inSight earlier op (h.trans (List.prefix_append _ _))
    rw [after_append]
    exact ⟨traceable_openStep op honest' traceable,
      adjacent_step op honest' traceable adjacent (inSight before op (List.prefix_refl _))⟩

/-- Whoever a packet comes from is a neighbour when it has been handled. -/
theorem inSight_of_adjacent {op : OpenStep} (h : (W.step op).Adjacent) : W.InSight op := by
  cases op with
  | run op =>
    cases op with
    | hear m i clock =>
      intro t got other
      have learned : macToString t.packet.header.source ∈
          ((W.step (.run (.hear m i clock))).mesh.sites m).state.knownNeighbors := by
        show _ ∈ ((W.mesh.step (.hear m i clock)).sites m).state.knownNeighbors
        rw [Mesh.step, got]
        show _ ∈ ((W.mesh.network m (some t.packet) (handlePacket t.packet clock)).sites
          m).state.knownNeighbors
        rw [Mesh.network, Mesh.sites_put_self]
        show _ ∈ ((handlePacket t.packet clock).post (W.mesh.sites m).state).knownNeighbors
        rw [knownNeighbors_handlePacket t.packet clock _ other, mem_knownNeighbors_learnNeighbor]
        exact .inl rfl
      obtain ⟨d, name, t', mem, transmitted⟩ := (h m).neighbor _ learned
      obtain rfl := macToString_injective name
      rcases List.mem_append.1 mem with before | now
      · exact .inr ⟨t', before, transmitted⟩
      · rw [hears, if_pos rfl, got] at now
        obtain rfl := List.mem_singleton.1 now
        exact .inl transmitted.symm
    | _ => trivial
  | _ => trivial

/-- In a run that puts nothing but DATA packets on the air, each by its source, all neighbours are
adjacent in every mesh that is reached exactly when no node ever receives a packet that was sent on
before it has received one that the packet's source transmitted. -/
theorem adjacent_iff (queueFiles : Mac → Option (List UInt8)) (steps : List OpenStep)
    (honest : ∀ op ∈ steps, op.Honest) :
    (∀ before, before <+: steps → ((start queueFiles : Watched E).after before).Adjacent) ↔
      ∀ before op, before ++ [op] <+: steps →
        ((start queueFiles : Watched E).after before).InSight op := by
  refine ⟨fun h before op reached => ?_, fun h before reached => ?_⟩
  · have adjacent := h _ reached
    rw [after_append] at adjacent
    exact inSight_of_adjacent adjacent
  · obtain ⟨rest, rfl⟩ := reached
    exact (adjacent_after queueFiles (fun op hop => honest op (List.mem_append_left _ hop))
      fun earlier op h' => h earlier op (h'.trans (List.prefix_append _ _))).2

/-- The second node hears the third one. -/
theorem adjacent_iff_greeting :
    ((start fun _ => none : Watched smallMesh).after
      [.run (.hello thirdMac), .run (.hear secondMac 0 ⟨0, 0⟩)]).Adjacent := by
  refine (adjacent_iff (fun _ => none) _ fun op hop => ?_).2 (fun before op reached => ?_) _
    List.prefix_rfl
  · rcases List.mem_pair.1 hop with rfl | rfl <;> trivial
  · match before, reached with
    | [], reached =>
      obtain ⟨rfl, -⟩ := List.cons_prefix_cons.1 reached
      trivial
    | [_], reached =>
      obtain ⟨rfl, last⟩ := List.cons_prefix_cons.1 reached
      obtain ⟨rfl, -⟩ := List.cons_prefix_cons.1 last
      intro t got _
      obtain rfl := Option.some.inj got
      exact .inl rfl
    | _ :: _ :: _, reached => simpa using reached.length_le

/-- The third node receives the packet that the second one has sent on for the first one, and takes the
first one for a neighbour, though it has received nothing else. -/
theorem relayed_source_is_taken_for_neighbor :
    ∃ enc, (∀ op ∈ Mesh.straySteps enc ++ [.run (.hear thirdMac 3 ⟨0, 0⟩)], op.Honest) ∧
      ¬ ((start fun _ => none : Watched smallMesh).after
        (Mesh.straySteps enc ++ [.run (.hear thirdMac 3 ⟨0, 0⟩)])).Adjacent := by
  obtain ⟨enc, stray⟩ := Mesh.exists_stray
  refine ⟨enc, fun op hop => ?_, fun adjacent => ?_⟩
  · simp only [Mesh.straySteps, List.cons_append, List.nil_append, List.mem_cons, List.not_mem_nil,
      or_false] at hop
    rcases hop with rfl | rfl | rfl | rfl | rfl
    · trivial
    · trivial
    · exact ⟨rfl, rfl⟩
    · trivial
    · trivial
  · rw [after_append] at adjacent
    set W : Watched smallMesh := (start fun _ => none).after (Mesh.straySteps enc)
    have got : W.mesh.air[3]? = some ⟨secondMac, (Mesh.strayPacket enc).withTtl 63, thirdMac,
        some (Mesh.strayPacket enc)⟩ := by
      have air : W.mesh.air = _ := Mesh.air_straySteps stray
      rw [air]
      rfl
    rcases inSight_of_adjacent adjacent _ got (show firstMac ≠ thirdMac by decide) with direct | before
    · exact absurd (show firstMac = secondMac from direct) (by decide)
    · obtain ⟨t, mem, -⟩ := before
      have nothing : W.heard thirdMac = [] := rfl
      rw [nothing] at mem
      exact List.not_mem_nil mem

end Watched

end Araba
