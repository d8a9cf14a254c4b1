import Araba.Mesh

/-!
# Next hops

A node takes every other one that it hears for a neighbour, one hop away, and what a neighbour
advertises for two hops away. The routes that this leads to in the whole mesh: a next hop is either
the destination or a node that the destination is a neighbour of.
-/

namespace Araba

open Bytes Traced

/-! ## Routes -/

namespace RoutingTable

variable {t : RoutingTable} {dest nextHop : Mac} {hops : UInt8} {now : UInt64}

theorem getRoute_eq_some_iff {e : RouteEntry} :
    t.getRoute dest = some e ↔ t.table[macToKey dest]? = some e ∧ e.isValid = true := by
  unfold getRoute
  cases t.table[macToKey dest]? with
  | none => simp
  | some old =>
    show (if old.isValid then some old else none) = some e ↔ _
    by_cases valid : old.isValid = true
    · rw [if_pos valid]
      exact ⟨fun h => ⟨h, Option.some.inj h ▸ valid⟩, fun h => h.1⟩
    · rw [if_neg valid]
      exact iff_of_false (Option.some_ne_none e).symm fun h => valid (Option.some.inj h.1 ▸ h.2)

theorem getRoute_addRoute_of_le {old : RouteEntry} (found : t.getRoute dest = some old)
    (short : old.hops ≤ hops) : (t.addRoute dest nextHop hops now).getRoute dest = some old := by
  obtain ⟨entry, valid⟩ := getRoute_eq_some_iff.1 found
  have kept : ¬ ((!old.isValid) = true ∨ hops < old.hops) := by
    rw [valid, not_or]
    exact ⟨Bool.false_ne_true, UInt8.not_lt.2 short⟩
  simp only [addRoute, entry, Option.getD_some]
  rw [if_neg kept, getRoute_eq_some_iff]
  exact ⟨Std.ExtTreeMap.getElem?_insert_self, valid⟩

/-- The routes after a route has been added are the old ones and the new one. -/
theorem getRoute_addRoute_cases {d : Mac} {e : RouteEntry}
    (found : (t.addRoute dest nextHop hops now).getRoute d = some e) :
    t.getRoute d = some e ∨ d = dest ∧ e.nextHop = nextHop ∧ e.hops = hops := by
  by_cases same : dest = d
  · subst same
    simp only [addRoute] at found
    split_ifs at found with better
    · rw [getRoute_eq_some_iff, Std.ExtTreeMap.getElem?_insert_self] at found
      rw [← Option.some.inj found.1]
      exact .inr ⟨rfl, rfl, rfl⟩
    · rw [getRoute_eq_some_iff, Std.ExtTreeMap.getElem?_insert_self] at found
      obtain ⟨entry, valid⟩ := found
      refine .inl (getRoute_eq_some_iff.2 ⟨?_, valid⟩)
      cases old : t.table[macToKey dest]? with
      | none =>
        rw [old] at entry
        rw [← Option.some.inj entry] at valid
        cases valid
      | some old' =>
        rw [old] at entry
        exact entry
  · rw [getRoute_addRoute_of_ne t same] at found
    exact .inl found

end RoutingTable

/-! ## Route advertisements -/

/-- What every listed route keeps is kept by unpacking what was packed. -/
theorem unpackRoutes_packRoutes {P : RoutingTable → Prop} {ns : List Str} {via : Mac} {now : UInt64}
    (keeps : ∀ t, ∀ n ∈ ns, P t → P (t.addRoute (stringToMac n) via 2 now)) {t : RoutingTable}
    (h : P t) : P (unpackRoutes (packRoutes ns advPayloadSize) via t now) := by
  have loop (maxSize count : ℕ) (pre : List UInt8) (t : RoutingTable) (h : P t)
      (le : count ≤ (packEntries maxSize ns pre.length).length) :
      P (unpackLoop (pre ++ (packEntries maxSize ns pre.length).flatten) via now count pre.length t) := by
    induction ns generalizing count pre t with
    | nil =>
      rw [Nat.le_zero.1 le]
      exact h
    | cons n ns ih =>
      cases count with
      | zero => exact h
      | succ count =>
        by_cases full : pre.length + 7 > maxSize
        · rw [packEntries, if_pos full] at le
          cases le
        · set rest := packEntries maxSize ns (pre.length + 7)
          have entries : packEntries maxSize (n :: ns) pre.length =
              ((stringToMac n).toList ++ [1]) :: rest := by
            rw [packEntries, if_neg full]
          rw [entries, List.length_cons] at le
          rw [entries, List.flatten_cons]
          set payload := pre ++ ((stringToMac n).toList ++ [1] ++ rest.flatten)
          have inside : ¬ pre.length + 7 > payload.length := by
            simp [payload]
            omega
          have dest : (Vector.ofFn fun i : Fin 6 => payload[pre.length + i.val]?.getD 0) =
              stringToMac n := by
            simp only [payload, List.append_assoc]
            exact ofFn_getElem?_append _ _ _ 0 rfl
          have hops : payload[pre.length + 6]?.getD 0 = 1 := by
            simp [payload]
          have next : payload = (pre ++ ((stringToMac n).toList ++ [1])) ++ rest.flatten := by
            simp only [payload, List.append_assoc]
          have length : (pre ++ ((stringToMac n).toList ++ [1])).length = pre.length + 7 := by
            simp
          have kept := ih (fun t n' hn' => keeps t n' (List.mem_cons_of_mem _ hn')) count
            (pre ++ ((stringToMac n).toList ++ [1])) (t.addRoute (stringToMac n) via 2 now)
            (keeps t n List.mem_cons_self h)
          rw [length, ← next] at kept
          rw [unpackLoop, if_neg inside]
          simp only [dest, hops]
          exact kept (Nat.le_of_succ_le_succ le)
  have count : (UInt8.ofNat (packEntries advPayloadSize ns 1).length).toNat ≤
      (packEntries advPayloadSize ns 1).length := by
    rw [UInt8.toNat_ofNat']
    exact Nat.mod_le _ _
  rw [unpackRoutes, packRoutes]
  exact loop advPayloadSize _ [_] t h count

/-! ## A node -/

section Node

variable {env : NodeEnv} {received : Packet} {clock : Clock}

/-- The neighbours and the routes. -/
def routing (s : NodeState env) : Std.ExtTreeSet Str × RoutingTable := (s.knownNeighbors, s.table)

theorem routing_handlePacket (clock : Clock) (s : NodeState env)
    (other : received.header.source ≠ env.myMac) :
    routing ((handlePacket received clock).post s) =
      routing ((handleRouteAdv received clock).post ((learnNeighbor received clock).post s)) := by
  have adv (x y : NodeState env) (same : routing x = routing y) :
      routing ((handleRouteAdv received clock).post x) =
        routing ((handleRouteAdv received clock).post y) := by
    unfold handleRouteAdv
    rw [post_ite, post_ite]
    split_ifs
    · obtain ⟨known, table⟩ := Prod.mk.inj same
      exact Prod.ext known (congrArg (unpackRoutes _ _ · _) table)
    · exact same
  rw [post_handlePacket_parts other, (leaves_handleData (f := routing) fun _ _ _ => rfl).post,
    (leaves_handleAck (f := routing) fun _ _ => rfl).post]
  apply adv
  rw [(leaves_handleDiscovery (f := routing) fun _ _ => rfl).post,
    (leaves_autoDeliver (f := routing) fun _ _ _ => rfl).post]

/-- The node hears the destination itself. -/
def RouteEntry.Direct (e : RouteEntry) (d : Mac) : Prop := e.nextHop = d ∧ e.hops = 1

/-- The neighbours have direct routes, and every other route goes through a node that knows the
destination; `knows n d` says that `n` does. -/
structure Sound (knows : Mac → Mac → Prop) (s : NodeState env) : Prop where
  neighbor : ∀ n ∈ s.knownNeighbors, ∃ d e, n = macToString d ∧ s.table.getRoute d = some e ∧ e.Direct d
  route : ∀ d e, s.table.getRoute d = some e → e.Direct d ∨ e.hops = 2 ∧ knows e.nextHop d

variable {knows : Mac → Mac → Prop} {s : NodeState env}

theorem Sound.mono {knows' : Mac → Mac → Prop} (more : ∀ n d, knows n d → knows' n d)
    (h : Sound knows s) : Sound knows' s where
  neighbor := h.neighbor
  route d e found := (h.route d e found).imp_right fun two => ⟨two.1, more _ _ two.2⟩

theorem Sound.congr {s' : NodeState env} (same : routing s' = routing s) (h : Sound knows s) :
    Sound knows s' := by
  obtain ⟨known, table⟩ := Prod.mk.inj same
  refine ⟨?_, ?_⟩
  · rw [known, table]
    exact h.neighbor
  · rw [table]
    exact h.route

theorem exists_direct_addRoute {t : RoutingTable} {d dest nextHop : Mac} {hops : UInt8} {now : UInt64}
    {e : RouteEntry} (found : t.getRoute d = some e) (direct : e.Direct d) (long : 1 ≤ hops) :
    ∃ e, (t.addRoute dest nextHop hops now).getRoute d = some e ∧ e.Direct d := by
  by_cases same : dest = d
  · subst same
    exact ⟨e, RoutingTable.getRoute_addRoute_of_le found (direct.2 ▸ long), direct⟩
  · exact ⟨e, (RoutingTable.getRoute_addRoute_of_ne t same _ _ _).trans found, direct⟩

theorem Sound.learnNeighbor (h : Sound knows s) :
    Sound knows ((learnNeighbor received clock).post s) := by
  set src := received.header.source
  unfold Araba.learnNeighbor
  rw [post_bind, post_get, value_get, post_ite]
  split_ifs with old
  · exact h
  · refine ⟨fun n hn => ?_, fun d e found => ?_⟩
    · rcases Std.ExtTreeSet.mem_insert.1 hn with new | old
      · obtain rfl := Std.LawfulEqCmp.eq_of_compare new
        obtain ⟨e, found, le⟩ := s.table.getRoute_addRoute_self src src 1 clock.time
        refine ⟨src, e, rfl, found, ?_⟩
        rcases RoutingTable.getRoute_addRoute_cases found with before | ⟨-, next, hops⟩
        · rcases h.route src e before with direct | ⟨two, -⟩
          · exact direct
          · rw [two] at le
            exact absurd le (by decide)
        · exact ⟨next, hops⟩
      · obtain ⟨d, e, name, found, direct⟩ := h.neighbor n old
        obtain ⟨e', found', direct'⟩ :
            ∃ e', (s.table.addRoute src src 1 clock.time).getRoute d = some e' ∧ e'.Direct d :=
          exists_direct_addRoute found direct (UInt8.le_refl 1)
        exact ⟨d, e', name, found', direct'⟩
    · rcases RoutingTable.getRoute_addRoute_cases found with before | ⟨rfl, next, hops⟩
      · exact h.route d e before
      · exact .inl ⟨next, hops⟩

theorem Sound.addRoute {n : Mac} {d : Mac} {now : UInt64} (h : Sound knows s) (known : knows n d) :
    Sound knows { s with table := s.table.addRoute d n 2 now } := by
  refine ⟨fun x hx => ?_, fun d' e found => ?_⟩
  · have long : (1 : UInt8) ≤ 2 := by decide
    obtain ⟨d', e, name, found, direct⟩ := h.neighbor x hx
    obtain ⟨e', found', direct'⟩ :
        ∃ e', (s.table.addRoute d n 2 now).getRoute d' = some e' ∧ e'.Direct d' :=
      exists_direct_addRoute found direct long
    exact ⟨d', e', name, found', direct'⟩
  · rcases RoutingTable.getRoute_addRoute_cases found with before | ⟨rfl, rfl, hops⟩
    · exact h.route d' e before
    · exact .inr ⟨hops, known⟩

theorem Sound.handleRouteAdv (ns : List Str) (h : Sound knows s)
    (adv : received.header.type = .routeAdv → received.body = packRoutes ns advPayloadSize ∧
      ∀ n ∈ ns, knows received.header.source (stringToMac n)) :
    Sound knows ((handleRouteAdv received clock).post s) := by
  unfold Araba.handleRouteAdv
  rw [post_ite]
  split_ifs with isAdv
  · obtain ⟨packed, known⟩ := adv isAdv
    have all : Sound knows { s with
        table := unpackRoutes (packRoutes ns advPayloadSize) received.header.source s.table
          clock.time } :=
      unpackRoutes_packRoutes (P := fun t => Sound knows { s with table := t })
        (fun t n hn sound => sound.addRoute (known n hn)) h
    rw [← packed] at all
    exact all
  · exact h

end Node

/-! ## The mesh -/

theorem length_flatten_packEntries (maxSize : ℕ) (ns : List Str) (offset : ℕ) (le : offset ≤ maxSize) :
    offset + (packEntries maxSize ns offset).flatten.length ≤ maxSize := by
  induction ns generalizing offset with
  | nil => exact le
  | cons n ns ih =>
    unfold packEntries
    split_ifs with full
    · exact le
    · have rest := ih (offset + 7) (not_lt.1 full)
      simp only [List.flatten_cons, List.length_append, Vector.length_toList, List.length_singleton]
      omega

theorem body_advert (p : Packet) (ns : List Str) :
    (p.fill (packRoutes ns advPayloadSize)).body = packRoutes ns advPayloadSize := by
  have fits := length_flatten_packEntries advPayloadSize ns 1 (by decide)
  refine Packet.body_fill _ _ ?_
  rw [packRoutes, List.length_cons]
  rw [advPayloadSize] at fits ⊢
  omega

namespace Mesh

variable {E : MeshEnv} {M : Mesh E}

/-- The destination is a neighbour of the node. -/
def Knows (M : Mesh E) (n d : Mac) : Prop := macToString d ∈ (M.sites n).state.knownNeighbors

/-- The node that a packet for `d` goes to next from `a`, by the table of `a`. -/
def follow (M : Mesh E) (d a : Mac) : Mac :=
  if a = d then d
  else
    match (M.sites a).state.table.getRoute d with
    | some e => e.nextHop
    | none => a

theorem Accounted.advert {t : Transmission} (h : M.Accounted t)
    (adv : t.packet.header.type = .routeAdv) :
    ∃ ns, t.packet.body = packRoutes ns advPayloadSize ∧
      ∀ n ∈ ns, n ∈ (M.sites t.packet.header.source).state.knownNeighbors := by
  cases h with
  | own type source =>
    rw [adv] at type
    exact absurd type (by decide)
  | heard t' mem cause other known neighbors emission =>
    generalize t.packet = p at adv emission ⊢
    cases emission with
    | queued data own =>
      rw [adv] at data
      exact absurd data (by decide)
    | advert seqNum => exact ⟨known, body_advert _ known, neighbors⟩
    | relayed data =>
      have adv' : t'.packet.header.type = .routeAdv := adv
      rw [data] at adv'
      exact absurd adv' (by decide)
    | ack data mine =>
      have adv' : PacketType.ack = .routeAdv := adv
      exact absurd adv' (by decide)

/-- The routes of all nodes are sound. -/
def Coherent (M : Mesh E) : Prop := ∀ m, Sound M.Knows (M.sites m).state

theorem coherent_put {m : Mac} {x : Site (E.env m)} {ts : List Transmission} (h : M.Coherent)
    (grow : ∀ n ∈ (M.sites m).state.knownNeighbors, n ∈ x.state.knownNeighbors)
    (one : Sound M.Knows x.state) : (M.put m x ts).Coherent := by
  have more (n d : Mac) (knows : M.Knows n d) : (M.put m x ts).Knows n d := by
    unfold Knows at knows ⊢
    by_cases same : n = m
    · subst same
      rw [sites_put_self]
      exact grow _ knows
    · rwa [sites_put_of_ne same]
  intro n
  exact (forall_sites_put (P := fun n x => Sound M.Knows x.state) h one n).mono more

/-- A step that leaves the neighbours and the routes of its node alone. -/
theorem coherent_of_routing {m : Mac} {x : Site (E.env m)} {ts : List Transmission} (h : M.Coherent)
    (same : routing x.state = routing (M.sites m).state) : (M.put m x ts).Coherent := by
  have known := (Prod.mk.inj same).1
  exact coherent_put h (fun n hn => known ▸ hn) ((h m).congr same)

theorem coherent_hear {m : Mac} {t : Transmission} (clock : Clock) (mem : t ∈ M.air)
    (traceable : M.Traceable) (h : M.Coherent) :
    (M.network m (some t.packet) (handlePacket t.packet clock)).Coherent := by
  set s := (M.sites m).state
  by_cases own : t.packet.header.source = m
  · have nothing : (handlePacket t.packet clock : Action (E.env m) Unit) = pure () := if_pos own
    rw [network, nothing]
    exact coherent_of_routing h rfl
  · refine coherent_put h (fun n hn => ?_) ?_
    · show n ∈ ((handlePacket t.packet clock).post s).knownNeighbors
      rw [knownNeighbors_handlePacket t.packet clock s own, mem_knownNeighbors_learnNeighbor]
      exact .inr hn
    · refine Sound.congr (routing_handlePacket clock s own) ?_
      by_cases adv : t.packet.header.type = .routeAdv
      · obtain ⟨ns, packed, neighbors⟩ := (traceable.accounted t mem).advert adv
        refine Sound.handleRouteAdv ns (h m).learnNeighbor fun _ => ⟨packed, fun n hn => ?_⟩
        obtain ⟨d, -, rfl, -⟩ := (h _).neighbor n (neighbors n hn)
        rw [stringToMac_macToString]
        exact neighbors _ hn
      · exact Sound.handleRouteAdv [] (h m).learnNeighbor fun isAdv => absurd isAdv adv

theorem coherent_step (op : MeshStep) (traceable : M.Traceable) (h : M.Coherent) :
    (M.step op).Coherent := by
  cases op with
  | hello m => exact coherent_of_routing h rfl
  | hear m i clock =>
    cases got : M.air[i]? with
    | none =>
      rw [step, got]
      exact h
    | some t =>
      rw [step, got]
      exact coherent_hear clock (List.mem_of_getElem? got) traceable h
  | retry m clock =>
    exact coherent_of_routing h
      (leaves_retryPass (f := routing) (fun _ _ => rfl) (M.sites m).state)
  | cleanup m clock =>
    exact coherent_of_routing h
      (leaves_cleanupTick (f := routing) (fun _ _ _ => rfl) (M.sites m).state)
  | command m targetMac message clock =>
    cases point : (M.sites m).main with
    | idle =>
      rw [step, point]
      exact coherent_of_routing h
        (SendPoint.leaves_start routing targetMac message (M.sites m).state)
    | _ =>
      rw [step, point]
      exact h
  | advance m clock junk =>
    exact coherent_of_routing h ((M.sites m).main.leaves_advance (f := routing)
      (fun _ _ _ _ _ _ _ => rfl) (M.sites m).state)

theorem coherent_start (queueFiles : Mac → Option (List UInt8)) :
    (start queueFiles : Mesh E).Coherent := by
  intro m
  refine ⟨fun n hn => absurd hn Std.ExtTreeSet.not_mem_empty, fun d e found => ?_⟩
  have none' : RoutingTable.getRoute {} d = none := rfl
  exact absurd (none'.symm.trans found) nofun

theorem coherent_after (queueFiles : Mac → Option (List UInt8)) (steps : List MeshStep) :
    ((start queueFiles : Mesh E).after steps).Coherent := by
  have both := after_induction (P := fun M : Mesh E => M.Traceable ∧ M.Coherent)
    ⟨traceable_start queueFiles, coherent_start queueFiles⟩
    (fun _ op h => ⟨traceable_step op h.1, coherent_step op h.1 h.2⟩) steps
  exact both.2

theorem Coherent.direct_of_knows (h : M.Coherent) {n d : Mac} (knows : M.Knows n d) :
    ∃ e, (M.sites n).state.table.getRoute d = some e ∧ e.Direct d := by
  obtain ⟨d', e, name, found, direct⟩ := (h n).neighbor _ knows
  obtain rfl := macToString_injective name
  exact ⟨e, found, direct⟩

theorem follow_eq {a d : Mac} {e : RouteEntry} (other : a ≠ d)
    (found : (M.sites a).state.table.getRoute d = some e) : M.follow d a = e.nextHop := by
  rw [follow, if_neg other, found]

theorem Coherent.follow_follow (h : M.Coherent) {a d : Mac} {e : RouteEntry}
    (found : (M.sites a).state.table.getRoute d = some e) : M.follow d (M.follow d a) = d := by
  have there : M.follow d d = d := if_pos rfl
  by_cases same : a = d
  · rw [same, there, there]
  · rw [follow_eq same found]
    rcases (h a).route d e found with direct | ⟨-, knows⟩
    · rw [direct.1, there]
    · obtain ⟨e', found', direct⟩ := h.direct_of_knows knows
      by_cases arrived : e.nextHop = d
      · rw [arrived, there]
      · rw [follow_eq arrived found', direct.1]

/-- In every mesh that a run reaches, a next hop is the destination itself, or a node that has the
destination for a neighbour and a direct route to it; so the next hops lead to the destination in at
most two steps. -/
theorem nextHop_loopFree (queueFiles : Mac → Option (List UInt8)) (steps : List MeshStep)
    (M : Mesh E) (reached : M = (start queueFiles).after steps) (a d : Mac) (e : RouteEntry)
    (found : (M.sites a).state.table.getRoute d = some e) :
    (e.nextHop = d ∧ e.hops = 1 ∨
        e.hops = 2 ∧ macToString d ∈ (M.sites e.nextHop).state.knownNeighbors ∧
          ∃ e', (M.sites e.nextHop).state.table.getRoute d = some e' ∧ e'.nextHop = d ∧ e'.hops = 1) ∧
      M.follow d (M.follow d a) = d := by
  have h : M.Coherent := reached ▸ coherent_after queueFiles steps
  refine ⟨?_, h.follow_follow found⟩
  rcases (h a).route d e found with direct | ⟨two, knows⟩
  · exact .inl direct
  · exact .inr ⟨two, knows, h.direct_of_knows knows⟩

/-! Three nodes: the second hears the third, the first broadcasts, the second answers with its
neighbours. -/

/-- The third node has greeted and then the first one, and the first has heard the answer, which lists
the third. -/
def advertised : Mesh smallMesh :=
  (start fun _ => none).after
    [.hello thirdMac, .hear secondMac 0 ⟨0, 0⟩, .hello firstMac, .hear secondMac 2 ⟨0, 0⟩,
      .hear firstMac 3 ⟨0, 0⟩]

theorem nextHop_loopFree_advertised :
    (advertised.sites firstMac).state.table.getRoute thirdMac =
        some ⟨thirdMac, secondMac, 2, 0, true⟩ ∧
      advertised.follow thirdMac (advertised.follow thirdMac firstMac) = thirdMac :=
  ⟨rfl, (nextHop_loopFree (fun _ => none) _ advertised rfl firstMac thirdMac
    ⟨thirdMac, secondMac, 2, 0, true⟩ rfl).2⟩

end Mesh

end Araba
