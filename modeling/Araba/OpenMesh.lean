import Araba.NextHops

/-!
# The open mesh

A mesh with packets on the air that no node has made, and with routing tables that are changed from
outside. However the routes run, the time to live bounds how often a packet is sent on.
-/

namespace Araba

open Bytes Traced

/-- A step of an open mesh. -/
inductive OpenStep
  | run (op : MeshStep)
  | inject (m : Mac) (p : Packet) (link : Mac)
  | reroute (m : Mac) (table : RoutingTable)

/-- The packet that the forwarding branch makes of a packet. -/
structure Packet.Relays (q p : Packet) : Prop where
  data : p.header.type = .data
  alive : 1 < p.header.ttl
  eq : q = p.withTtl (p.header.ttl - 1)

section Node

variable {env : NodeEnv}

/-- A node sends a packet of another source only when it sends on what it handles. -/
theorem relays_handlePacket (received : Packet) (clock : Clock) (s : NodeState env) :
    ∀ e ∈ (handlePacket received clock).trace s,
      e.Sends fun q => q.header.source ≠ env.myMac → q.Relays received := by
  by_cases own : received.header.source = env.myMac
  · rw [handlePacket, if_pos own]
    exact fun e he => absurd he List.not_mem_nil
  · have control := (sentBy_handleControl received clock s trivial).2
    have data : Preserves (fun _ => True)
        (Effect.Sends fun q => q.header.source ≠ env.myMac → q.Relays received)
        (handleData received clock : Action env Unit) :=
      preserves_handleData (fun _ _ _ _ => trivial) trivial trivial trivial (fun _ _ => trivial)
        (fun _ _ => .emit fun other => absurd rfl other) fun type alive _ _ => ⟨type, alive, rfl⟩
    intro e he
    rw [trace_handlePacket own] at he
    simp only [List.mem_append, List.mem_singleton] at he
    obtain rfl | he | he | rfl := he
    · trivial
    · have mine := control e he
      cases e with
      | send packet link => exact fun other => absurd mine other
      | _ => trivial
    · exact (data _ trivial).2 e he
    · trivial

/-- Before the DATA branch nothing is sent for a message when nothing is queued for its source. -/
theorem sendCalls_handleControl {p : Packet} {clock : Clock} {s : NodeState env}
    (data : p.header.type = .data) (none' : s.queue.getPending p.header.source = []) :
    sendCalls ((handleControl p clock).trace s) = [] := by
  have deliver : Preserves (fun s : NodeState env => s.queue.getPending p.header.source = [])
      (Effect.Sends fun _ => False) (autoDeliver p) := by
    intro s hs
    have idle : (autoDeliver p : Action env Unit) s = ((), s, []) := by
      rw [autoDeliver_eq, hs]
      rfl
    rw [Traced.post, Traced.trace, idle]
    exact ⟨hs, fun e he => absurd he List.not_mem_nil⟩
  have greet : (handleDiscovery p : Action env Unit) = pure () := if_neg (data ▸ by decide)
  have silent : Preserves (fun s : NodeState env => s.queue.getPending p.header.source = [])
      (Effect.Sends fun _ => False) (handleControl p clock) :=
    .bind (preserves_learnNeighbor (fun _ _ _ hs => hs) trivial) fun _ => .bind deliver fun _ =>
      .bind (greet ▸ .pure ()) fun _ =>
      .bind (preserves_handleRouteAdv (fun _ _ hs => hs) trivial) fun _ =>
      preserves_handleAck (fun _ _ hs => hs) fun _ => trivial
  exact List.eq_nil_iff_forall_not_mem.2 (forall_mem_sendCalls (silent s none').2)

/-- A single packet that the node decrypts to something goes to the next hop. -/
theorem sendCalls_handlePacket (p : Packet) (clock : Clock) (s : NodeState env)
    {message : List UInt8} {route : RouteEntry} (other : p.header.source ≠ env.myMac)
    (notMine : p.header.dest ≠ env.myMac) (data : p.header.type = .data) (single : ¬ p.IsFragment)
    (dec : decryptPayload p.body 1024 (env.cipher p.header.source) = .ok message)
    (some' : message ≠ []) (none' : s.queue.getPending p.header.source = [])
    (apart : p.header.source ≠ p.header.dest)
    (found : s.table.findNextHop p.header.dest clock.time = some route) (alive : 1 < p.header.ttl) :
    sendCalls ((handlePacket p clock).trace s) =
      [(p.withTtl (p.header.ttl - 1), route.nextHop)] := by
  have found' : ((handleControl p clock).post s).table.findNextHop p.header.dest clock.time =
      some route := by
    rw [table_handleControl data, findNextHop_learnNeighbor apart, found]
  rw [trace_handlePacket other, sendCalls_append, sendCalls_append, sendCalls_append,
    sendCalls_handleControl data none', handleData, if_pos data, if_neg single,
    sendCalls_handleSingle notMine dec found' alive, if_neg some']
  rfl

end Node

namespace Mesh

variable {E : MeshEnv} {M : Mesh E}

/-- A packet that is longer than a payload is not received by anyone. -/
def openStep (M : Mesh E) : OpenStep → Mesh E
  | .run op => M.step op
  | .inject m p link =>
    if p.header.payloadLen.toNat ≤ maxPayloadSize then M.put m (M.sites m) [⟨m, p, link, none⟩] else M
  | .reroute m table =>
    let x := M.sites m
    M.put m { x with state := { x.state with table := table } } []

/-- The mesh after the steps. -/
def openAfter (M : Mesh E) (steps : List OpenStep) : Mesh E := steps.foldl openStep M

theorem openAfter_run (steps : List MeshStep) :
    M.openAfter (steps.map .run) = M.after steps := by
  rw [openAfter, List.foldl_map]
  rfl

/-! ## Sending on -/

/-- A node has sent `q` on when it handled `p`. Only the forwarding branch sends a packet of another
source. -/
def Forwarded (M : Mesh E) (p q : Packet) : Prop :=
  ∃ t ∈ M.air, t.cause = some p ∧ t.packet = q ∧ q.header.source ≠ t.transmitter

/-- `q` is what became of `p` when it had been sent on `k` times. -/
inductive Chain (M : Mesh E) (p : Packet) : ℕ → Packet → Prop
  | nil : Chain M p 0 p
  | forward {k : ℕ} {q r : Packet} (before : Chain M p k q) (last : M.Forwarded q r) :
      Chain M p (k + 1) r

/-- What was sent when a packet was handled is the sender's own or sent on. -/
def Relaying (M : Mesh E) : Prop := ∀ p q, M.Forwarded p q → q.Relays p

theorem relaying_put {m : Mac} {x : Site (E.env m)} {ts : List Transmission} (h : M.Relaying)
    (sent : ∀ t ∈ ts, ∀ p, t.cause = some p → t.packet.header.source ≠ t.transmitter →
      t.packet.Relays p) : (M.put m x ts).Relaying := by
  rintro p q ⟨t, mem, cause, rfl, other⟩
  rcases List.mem_append.1 mem with old | new
  · exact h p _ ⟨t, old, cause, rfl, other⟩
  · exact sent t new p cause other

theorem relaying_of_uncaused {m : Mac} {x : Site (E.env m)} {es : List Effect} (h : M.Relaying) :
    (M.put m x (transmissions m none es)).Relaying := by
  refine relaying_put h fun t ht p cause => ?_
  obtain ⟨call, -, rfl⟩ := List.mem_map.1 ht
  cases cause

theorem relaying_openStep (op : OpenStep) (h : M.Relaying) : (M.openStep op).Relaying := by
  cases op with
  | run op =>
    cases op with
    | hear m i clock =>
      rw [openStep, step]
      cases M.air[i]? with
      | none => exact h
      | some t =>
        refine relaying_put h fun t' ht' p cause other => ?_
        obtain ⟨call, hcall, rfl⟩ := List.mem_map.1 ht'
        obtain rfl := Option.some.inj cause
        exact forall_mem_sendCalls (relays_handlePacket t.packet clock (M.sites m).state) call hcall
          other
    | command m targetMac message clock =>
      rw [openStep, step]
      cases (M.sites m).main with
      | idle => exact relaying_of_uncaused h
      | _ => exact h
    | _ => exact relaying_of_uncaused h
  | inject m p link =>
    rw [openStep]
    split_ifs
    · refine relaying_put h fun t ht q cause => ?_
      obtain rfl := List.mem_singleton.1 ht
      cases cause
    · exact h
  | reroute m table => exact relaying_put h fun t ht => absurd ht List.not_mem_nil

theorem relaying_openAfter (sites : (m : Mac) → Site (E.env m)) (steps : List OpenStep) :
    (({ sites := sites } : Mesh E).openAfter steps).Relaying := by
  have run (N : Mesh E) (h : N.Relaying) : (N.openAfter steps).Relaying := by
    induction steps generalizing N with
    | nil => exact h
    | cons op steps ih => exact ih _ (relaying_openStep op h)
  refine run _ ?_
  rintro p q ⟨t, mem, -⟩
  exact absurd mem List.not_mem_nil

/-- Every time that a packet is sent on takes one off its time to live, and nothing else changes. -/
theorem Relaying.chain (h : M.Relaying) {p q : Packet} {k : ℕ} (chain : M.Chain p k q) :
    q = p.withTtl q.header.ttl ∧ q.header.ttl.toNat + k = p.header.ttl.toNat ∧
      (1 ≤ k → 1 ≤ q.header.ttl.toNat) := by
  induction chain with
  | nil => exact ⟨rfl, rfl, nofun⟩
  | @forward k q r before last ih =>
    obtain ⟨same, count, -⟩ := ih
    obtain ⟨-, alive, rfl⟩ := h q r last
    have more : 1 < q.header.ttl.toNat := alive
    have less : (q.header.ttl - 1).toNat = q.header.ttl.toNat - 1 :=
      UInt8.toNat_sub_of_le _ _ (UInt8.le_of_lt alive)
    refine ⟨?_, ?_, fun _ => ?_⟩
    · show q.withTtl (q.header.ttl - 1) = p.withTtl (q.header.ttl - 1)
      rw [same]
      rfl
    · show (q.header.ttl - 1).toNat + (k + 1) = _
      omega
    · show 1 ≤ (q.header.ttl - 1).toNat
      omega

/-- Whatever the nodes hold at first, whatever packets are put on the air and however the routing
tables are changed: a packet that was sent on `k` times is the first one with `k` taken off its time
to live, which is left at one or more. So a packet is sent on at most one time less than its time to
live says. -/
theorem forwards_bounded (sites : (m : Mac) → Site (E.env m)) (steps : List OpenStep) (p q : Packet)
    (k : ℕ) (chain : (({ sites := sites } : Mesh E).openAfter steps).Chain p k q) :
    k ≤ p.header.ttl.toNat - 1 ∧
      (1 ≤ k → q.header.ttl.toNat = p.header.ttl.toNat - k ∧ 1 ≤ q.header.ttl.toNat ∧
        q = p.withTtl q.header.ttl) := by
  obtain ⟨same, count, alive⟩ := (relaying_openAfter sites steps).chain chain
  refine ⟨?_, fun some' => ⟨by omega, alive some', same⟩⟩
  rcases Nat.eq_zero_or_pos k with rfl | pos
  · exact Nat.zero_le _
  · have := alive pos
    omega

/-! The second node has heard the third one, and gets a packet for it that it can decrypt itself. -/

/-- The third node has greeted, and the second one has heard it. -/
def greeted : Mesh smallMesh :=
  (start fun _ => none).after [.hello thirdMac, .hear secondMac 0 ⟨0, 0⟩]

/-- A packet of the first node for the third one. -/
def strayPacket (enc : List UInt8) : Packet := (Packet.init .data firstMac thirdMac 0).fill enc

/-- The second node decrypts the payload to something. -/
structure Stray (enc : List UInt8) : Prop where
  fits : (strayPacket enc).header.payloadLen.toNat ≤ maxPayloadSize
  single : ¬ (strayPacket enc).IsFragment
  opened : decryptPayload (strayPacket enc).body 1024
    ((smallMesh.env secondMac).cipher (strayPacket enc).header.source) = .ok (text "hi")

/-- After the greeting, a packet that nobody in the mesh has sent reaches the second node. -/
def straySteps (enc : List UInt8) : List OpenStep :=
  [.run (.hello thirdMac), .run (.hear secondMac 0 ⟨0, 0⟩),
    .inject firstMac (strayPacket enc) secondMac, .run (.hear secondMac 2 ⟨0, 0⟩)]

theorem exists_stray : ∃ enc, Stray enc := by
  have short : (text "hi").length ≤ 1007 := by decide
  have low : ¬ (1 : UInt8) < (Vector.replicate 16 (0 : UInt8))[3] := by decide
  obtain ⟨enc, made, len, ⟨rest, front⟩, dec⟩ := decryptPayload_encryptWith short
    ((smallMesh.env secondMac).cipher firstMac) (Vector.replicate 16 0)
  have len' : enc.length = 32 := len
  have fits : enc.length ≤ 512 := by omega
  have guess := Sending.isFragment_single (s := ⟨{}, enc, .data, firstMac, thirdMac, 0⟩) fits front
  refine ⟨enc, ?_, fun frag => low (guess.1 frag), ?_⟩
  · rw [strayPacket, Packet.payloadLen_fill _ _ fits, len']
    decide
  · rw [strayPacket, Packet.body_fill _ _ fits]
    exact dec 1024 (by decide)

theorem air_straySteps {enc : List UInt8} (stray : Stray enc) :
    ((start fun _ => none : Mesh smallMesh).openAfter (straySteps enc)).air =
      greeted.air ++ [⟨firstMac, strayPacket enc, secondMac, none⟩] ++
        [⟨secondMac, (strayPacket enc).withTtl 63, thirdMac, some (strayPacket enc)⟩] := by
  have found : (greeted.sites secondMac).state.table.findNextHop thirdMac 0 =
      some ⟨thirdMac, thirdMac, 1, 0, true⟩ := rfl
  have sent := sendCalls_handlePacket (strayPacket enc) ⟨0, 0⟩ (greeted.sites secondMac).state
    (show firstMac ≠ secondMac by decide) (show thirdMac ≠ secondMac by decide) rfl stray.single
    stray.opened (show text "hi" ≠ [] by decide) rfl (show firstMac ≠ thirdMac by decide) found
    (show (1 : UInt8) < 64 by decide)
  have same : (greeted.put firstMac (greeted.sites firstMac)
      [⟨firstMac, strayPacket enc, secondMac, none⟩]).sites secondMac = greeted.sites secondMac :=
    sites_put_of_ne (by decide)
  show (Mesh.step (greeted.openStep (.inject firstMac (strayPacket enc) secondMac))
    (.hear secondMac 2 ⟨0, 0⟩)).air = _
  rw [openStep, if_pos stray.fits]
  show _ ++ transmissions secondMac _ _ = _
  have less : (strayPacket enc).header.ttl - 1 = 63 := by
    show (64 : UInt8) - 1 = 63
    decide
  rw [same, transmissions, sent, less]
  rfl

theorem forwards_bounded_stray :
    ∃ enc, ((start fun _ => none : Mesh smallMesh).openAfter (straySteps enc)).Chain
        (strayPacket enc) 1 ((strayPacket enc).withTtl 63) ∧
      ((strayPacket enc).withTtl 63).header.ttl.toNat = (strayPacket enc).header.ttl.toNat - 1 := by
  obtain ⟨enc, stray⟩ := exists_stray
  have sentOn : ((start fun _ => none : Mesh smallMesh).openAfter (straySteps enc)).Chain
      (strayPacket enc) 1 ((strayPacket enc).withTtl 63) := by
    refine .forward .nil ⟨⟨secondMac, (strayPacket enc).withTtl 63, thirdMac,
      some (strayPacket enc)⟩, ?_, rfl, rfl, show firstMac ≠ secondMac by decide⟩
    rw [air_straySteps stray]
    exact List.mem_append_right _ (List.mem_singleton_self _)
  have bounded := forwards_bounded (fun m => (start fun _ => none).sites m) (straySteps enc) _ _ 1
    sentOn
  exact ⟨enc, sentOn, (bounded.2 (le_refl 1)).1⟩

end Mesh

end Araba
