import Araba.InvalidPackets
import Araba.RouteAge

/-!
# Store and forward

A message goes into the queue when its destination is neither a neighbour nor has a route. Routes go
stale, but the set of neighbours only grows, so a node that was heard once is never offline again.
-/

namespace Araba

open Bytes Traced

section Run

variable {env : NodeEnv}

/-- The calls of `add_route` in a step. -/
def NodeStep.addRoutes (s : NodeState env) : NodeStep → List AddRoute
  | .network (.packet p clock) =>
    if p.header.source = env.myMac then []
    else
      (if s.knownNeighbors.contains (macToString p.header.source) then []
        else [⟨p.header.source, p.header.source, 1, clock.time⟩]) ++
      if p.header.type = .routeAdv then
        (listedRoutes p.body).map fun r => ⟨r.1, p.header.source, r.2 + 1, clock.time⟩
      else []
  | _ => []

/-- The calls of `add_route` in a run. -/
def addRoutesOf : NodeState env → List NodeStep → List AddRoute
  | _, [] => []
  | s, step :: steps => step.addRoutes s ++ addRoutesOf (step.action.post s) steps

/-- A table after some more calls. -/
def RoutingTable.withCalls (t : RoutingTable) (calls : List AddRoute) : RoutingTable :=
  calls.foldl (fun t c => t.addRoute c.dest c.nextHop c.hops c.now) t

theorem RoutingTable.withCalls_append (t : RoutingTable) (calls calls' : List AddRoute) :
    t.withCalls (calls ++ calls') = (t.withCalls calls).withCalls calls' :=
  List.foldl_append

/-- The steps that handle no packet leave the neighbours and the routes alone. -/
theorem routing_step_of_ne {step : NodeStep} (s : NodeState env)
    (other : ∀ p clock, step ≠ .network (.packet p clock)) :
    routing (step.action.post s) = routing s := by
  cases step with
  | network step =>
    cases step with
    | hello => rfl
    | packet p clock => exact absurd rfl (other p clock)
    | retry clock => exact leaves_retryPass (f := routing) (fun _ _ => rfl) s
    | cleanup clock => exact leaves_cleanupTick (f := routing) (fun _ _ _ => rfl) s
  | main step =>
    cases step with
    | encryptWithCipher destMac message clock =>
      exact leaves_encryptWithCipher (f := routing) (fun _ _ _ => rfl) s
    | _ => rfl

theorem table_handlePacket (p : Packet) (clock : Clock) (s : NodeState env) :
    ((handlePacket p clock).post s).table =
      s.table.withCalls ((NodeStep.network (.packet p clock)).addRoutes s) := by
  by_cases own : p.header.source = env.myMac
  · rw [handlePacket, if_pos own, NodeStep.addRoutes, if_pos own]
    rfl
  · have learned : ((learnNeighbor p clock).post s).table = s.table.withCalls
        (if s.knownNeighbors.contains (macToString p.header.source) then []
          else [⟨p.header.source, p.header.source, 1, clock.time⟩]) := by
      unfold learnNeighbor
      rw [post_bind, post_get, value_get, post_ite]
      split_ifs <;> rfl
    have table := congrArg Prod.snd (routing_handlePacket clock s own)
    rw [NodeStep.addRoutes, if_neg own, RoutingTable.withCalls_append, ← learned]
    refine table.trans ?_
    show ((handleRouteAdv p clock).post ((learnNeighbor p clock).post s)).table = _
    unfold handleRouteAdv
    rw [post_ite]
    split_ifs with adv
    · show unpackRoutes p.body p.header.source ((learnNeighbor p clock).post s).table clock.time = _
      rw [unpackRoutes_eq_foldl, RoutingTable.withCalls, List.foldl_map]
    · rfl

theorem table_step (step : NodeStep) (s : NodeState env) :
    (step.action.post s).table = s.table.withCalls (step.addRoutes s) := by
  by_cases packet : ∃ p clock, step = .network (.packet p clock)
  · obtain ⟨p, clock, rfl⟩ := packet
    exact table_handlePacket p clock s
  · have other (p : Packet) (clock : Clock) : step ≠ .network (.packet p clock) :=
      fun same => packet ⟨p, clock, same⟩
    have none' : step.addRoutes s = [] := by
      unfold NodeStep.addRoutes
      split
      · exact absurd rfl (other _ _)
      · rfl
    rw [none']
    exact congrArg Prod.snd (routing_step_of_ne s other)

/-- In every run the routes are those of the calls. -/
theorem table_stateAfter (s : NodeState env) (steps : List NodeStep) :
    (stateAfter s steps).table = s.table.withCalls (addRoutesOf s steps) := by
  induction steps generalizing s with
  | nil => rfl
  | cons step steps ih =>
    show (stateAfter (step.action.post s) steps).table = _
    rw [ih, table_step, addRoutesOf, RoutingTable.withCalls_append]

/-- A packet of another node with that name is handled in the run. -/
def HeardName (env : NodeEnv) (steps : List NodeStep) (name : Str) : Prop :=
  ∃ p clock, .network (.packet p clock) ∈ steps ∧ p.header.source ≠ env.myMac ∧
    macToString p.header.source = name

theorem mem_knownNeighbors_step (step : NodeStep) (s : NodeState env) (name : Str) :
    name ∈ (step.action.post s).knownNeighbors ↔
      name ∈ s.knownNeighbors ∨ HeardName env [step] name := by
  by_cases packet : ∃ p clock, step = .network (.packet p clock)
  · obtain ⟨p, clock, rfl⟩ := packet
    have heard : HeardName env [.network (.packet p clock)] name ↔
        p.header.source ≠ env.myMac ∧ macToString p.header.source = name := by
      constructor
      · rintro ⟨p', clock', mem, other, same⟩
        cases List.mem_singleton.1 mem
        exact ⟨other, same⟩
      · exact fun ⟨other, same⟩ => ⟨p, clock, List.mem_singleton_self _, other, same⟩
    show name ∈ ((handlePacket p clock).post s).knownNeighbors ↔ _
    rw [heard]
    by_cases own : p.header.source = env.myMac
    · rw [handlePacket, if_pos own]
      exact (or_iff_left fun h => h.1 own).symm
    · rw [knownNeighbors_handlePacket p clock s own, mem_knownNeighbors_learnNeighbor, or_comm,
        and_iff_right own, eq_comm]
  · have none' : ¬ HeardName env [step] name := by
      rintro ⟨p, clock, mem, -⟩
      exact packet ⟨p, clock, (List.mem_singleton.1 mem).symm⟩
    have known := congrArg Prod.fst (routing_step_of_ne s fun p clock same => packet ⟨p, clock, same⟩)
    rw [or_iff_left none']
    exact iff_of_eq (congrArg (name ∈ ·) known)

theorem mem_knownNeighbors_stateAfter (s : NodeState env) (steps : List NodeStep) (name : Str) :
    name ∈ (stateAfter s steps).knownNeighbors ↔
      name ∈ s.knownNeighbors ∨ HeardName env steps name := by
  induction steps generalizing s with
  | nil =>
    refine (or_iff_left ?_).symm
    rintro ⟨p, clock, mem, -⟩
    exact List.not_mem_nil mem
  | cons step steps ih =>
    have split : HeardName env (step :: steps) name ↔
        HeardName env [step] name ∨ HeardName env steps name := by
      simp only [HeardName, List.mem_cons, List.not_mem_nil, or_false, or_and_right, exists_or]
    show name ∈ (stateAfter (step.action.post s) steps).knownNeighbors ↔ _
    rw [ih, mem_knownNeighbors_step, split, or_assoc]

theorem mem_knownNeighbors_run (queueFile : Option (List UInt8)) (steps : List NodeStep)
    (name : Str) :
    name ∈ (stateAfter (NodeState.start env queueFile) steps).knownNeighbors ↔
      HeardName env steps name :=
  (mem_knownNeighbors_stateAfter _ steps name).trans (or_iff_right Std.ExtTreeSet.not_mem_empty)

/-- A call is made when a packet is handled, and takes the time then. -/
theorem clock_of_mem_addRoutes {step : NodeStep} {s : NodeState env} {c : AddRoute}
    (mem : c ∈ step.addRoutes s) :
    ∃ p clock, step = .network (.packet p clock) ∧ c.now = clock.time := by
  unfold NodeStep.addRoutes at mem
  split at mem
  · rename_i p clock
    refine ⟨p, clock, rfl, ?_⟩
    split_ifs at mem with own known adv adv
    · exact absurd mem List.not_mem_nil
    · obtain ⟨r, -, rfl⟩ := List.mem_map.1 ((List.mem_append.1 mem).resolve_left List.not_mem_nil)
      rfl
    · exact absurd mem List.not_mem_nil
    · rcases List.mem_append.1 mem with here | listed
      · rw [List.mem_singleton.1 here]
      · obtain ⟨r, -, rfl⟩ := List.mem_map.1 listed
        rfl
    · rw [List.append_nil] at mem
      rw [List.mem_singleton.1 mem]
  · exact absurd mem List.not_mem_nil

end Run

/-! ## The destination is gone -/

/-- In the last 30 seconds no packet of the destination was received and no route to it was added. -/
structure Vanished (env : NodeEnv) (queueFile : Option (List UInt8)) (steps : List NodeStep) (d : Mac)
    (now : UInt64) : Prop where
  unheard : ∀ p clock, .network (.packet p clock) ∈ steps → p.header.source = d →
    30 < now.toNat - clock.time.toNat
  unrouted : ∀ c ∈ addRoutesOf (NodeState.start env queueFile) steps, c.dest = d → ¬ c.Recent now

section Gone

variable {env : NodeEnv} {queueFile : Option (List UInt8)} {steps : List NodeStep}

theorem Vanished.findNextHop {d : Mac} {now : UInt64} (gone : Vanished env queueFile steps d now) :
    (stateAfter (NodeState.start env queueFile) steps).table.findNextHop d now = none := by
  have calls : (stateAfter (NodeState.start env queueFile) steps).table =
      RoutingTable.afterCalls (addRoutesOf (NodeState.start env queueFile) steps) :=
    table_stateAfter _ _
  rw [calls, RoutingTable.findNextHop, RoutingTable.table_afterCalls]
  cases best : RoutingTable.shortest d (addRoutesOf (NodeState.start env queueFile) steps) with
  | none => rfl
  | some c =>
    obtain ⟨mem, dest⟩ := (RoutingTable.mem_callsFor d _ c).1 (List.argmin_mem best)
    have old := gone.unrouted c mem dest
    unfold AddRoute.Recent at old
    have past : c.now ≤ now := by
      rw [UInt64.le_iff_toNat_le]
      omega
    have stale : RoutingTable.isStale c.now now = true := by
      rw [← Bool.not_eq_false]
      exact fun fresh => old ((RoutingTable.isStale_iff past).1 fresh)
    simp [AddRoute.entry, stale]

theorem Vanished.isReachable {targetMac : Str} {clock : Clock}
    (gone : Vanished env queueFile steps (stringToMac targetMac) clock.time) :
    (isReachable targetMac (stringToMac targetMac) clock).value
        (stateAfter (NodeState.start env queueFile) steps) = true ↔ HeardName env steps targetMac := by
  show ((stateAfter (NodeState.start env queueFile) steps).knownNeighbors.contains targetMac ||
    ((stateAfter (NodeState.start env queueFile) steps).table.findNextHop _ clock.time).isSome) =
      true ↔ _
  rw [gone.findNextHop, Option.isSome_none, Bool.or_false]
  exact mem_knownNeighbors_run queueFile steps targetMac

end Gone

/-! ## The command -/

/-- While a command is run, the network thread may take any step between two sections. -/
inductive CommandStep
  | network (step : NetworkStep)
  | main (clock : Clock) (junk : UInt32)

/-- The packet that the next section puts into the queue. -/
def SendPoint.storing : SendPoint → List (Mac × Packet)
  | enqueuing destMac (pkt :: _) => [(destMac, pkt)]
  | _ => []

/-- A command that is being run, with the packets that it has made, transmitted and stored so far. -/
structure Underway (env : NodeEnv) where
  state : NodeState env
  point : SendPoint
  packets : List Packet := []
  transmitted : List (Packet × Mac) := []
  stored : List (Mac × Packet) := []

namespace Underway

variable {env : NodeEnv}

/-- The command is entered. -/
def enter (s : NodeState env) (targetMac message : Str) (clock : Clock) : Underway env where
  state := (SendPoint.start targetMac message clock).post s
  point := (SendPoint.start targetMac message clock).value s

/-- The packets of the message, which are made in the section after the look at the cipher. -/
def made (u : Underway env) (clock : Clock) : List Packet :=
  match u.point with
  | .keyed _ destMac message => ((encryptWithCipher destMac message clock).value u.state).getD []
  | _ => u.packets

/-- A step of one of the threads, with what the command has sent and stored. -/
def step (u : Underway env) : CommandStep → Underway env
  | .network step => { u with state := step.action.post u.state }
  | .main clock junk =>
    { state := (u.point.advance clock junk).post u.state
      point := (u.point.advance clock junk).value u.state
      packets := u.made clock
      transmitted := u.transmitted ++ sendCalls ((u.point.advance clock junk).trace u.state)
      stored := u.stored ++ u.point.storing }

/-- The command and the node after the steps. -/
def run (u : Underway env) (later : List CommandStep) : Underway env := later.foldl step u

/-- The whole message was put into the queue for the destination, packet by packet. -/
def Stored (u : Underway env) (d : Mac) : Prop := u.stored = u.packets.map fun p => (d, p)

theorem queue_step_main (u : Underway env) (clock : Clock) (junk : UInt32) :
    (u.step (.main clock junk)).state.queue =
      u.point.storing.foldl (fun q e => (q.enqueue e.1 e.2.body clock.time junk).2)
        u.state.queue := by
  show ((u.point.advance clock junk).post u.state).queue = _
  cases u.point with
  | idle => rfl
  | checked reachable destMac message => rfl
  | keyed reachable destMac message =>
    rw [SendPoint.post_advance_keyed]
    exact leaves_encryptWithCipher (f := NodeState.queue) (fun _ _ _ => rfl) u.state
  | prepared destMac message fragments => rfl
  | transmitting ackSeq destMac message fragments rest =>
    cases rest with
    | nil => rfl
    | cons pkt rest => rfl
  | enqueuing destMac rest =>
    cases rest with
    | nil => rfl
    | cons pkt rest => rfl

/-- The packets that a message is made into, by some state of the node. -/
def MadeOf (env : NodeEnv) (d : Mac) (message : Str) (packets : List Packet) : Prop :=
  ∃ (clock : Clock) (s : NodeState env),
    packets = ((prepareMessage d message clock).value s).getD []

/-- What a command for a message has done, by where it is. -/
def Tracks (reachable : Bool) (d : Mac) (message : Str) : Underway env → Prop
  | ⟨_, .checked reachable' d' message', _, transmitted, stored⟩ =>
    reachable' = reachable ∧ d' = d ∧ message' = message ∧ transmitted = [] ∧ stored = []
  | ⟨_, .keyed reachable' d' message', _, transmitted, stored⟩ =>
    reachable' = reachable ∧ d' = d ∧ message' = message ∧ transmitted = [] ∧ stored = []
  | ⟨_, .prepared d' _ fragments, packets, transmitted, stored⟩ =>
    MadeOf env d message packets ∧ reachable = true ∧ d' = d ∧ fragments = packets ∧
      transmitted = [] ∧ stored = []
  | ⟨_, .transmitting _ d' _ _ rest, packets, transmitted, stored⟩ =>
    MadeOf env d message packets ∧ reachable = true ∧ d' = d ∧
      transmitted ++ rest.map (fun p => (p, d)) = packets.map (fun p => (p, d)) ∧ stored = []
  | ⟨_, .enqueuing d' rest, packets, transmitted, stored⟩ =>
    MadeOf env d message packets ∧ reachable = false ∧ d' = d ∧ transmitted = [] ∧
      stored ++ rest.map (fun p => (d, p)) = packets.map fun p => (d, p)
  | ⟨_, .idle, packets, transmitted, stored⟩ =>
    MadeOf env d message packets ∧
      transmitted = (if reachable then packets.map fun p => (p, d) else []) ∧
      stored = if reachable then [] else packets.map fun p => (d, p)

section Invariant

variable {u : Underway env} {reachable : Bool} {d : Mac} {message : Str}

/-- Whatever the network thread does, it does not touch what the command holds. -/
theorem Tracks.network (h : u.Tracks reachable d message) (step : NetworkStep) :
    (u.step (.network step)).Tracks reachable d message := by
  obtain ⟨state, point, packets, transmitted, stored⟩ := u
  cases point <;> exact h

theorem Tracks.main (h : u.Tracks reachable d message) (clock : Clock) (junk : UInt32) :
    (u.step (.main clock junk)).Tracks reachable d message := by
  obtain ⟨state, point, packets, transmitted, stored⟩ := u
  cases point with
  | idle =>
    obtain ⟨made, sent, kept⟩ := h
    exact ⟨made, (List.append_nil _).trans sent, (List.append_nil _).trans kept⟩
  | checked reachable' d' message' =>
    obtain ⟨rfl, rfl, rfl, rfl, rfl⟩ := h
    exact ⟨rfl, rfl, rfl, rfl, rfl⟩
  | keyed reachable' d' message' =>
    obtain ⟨rfl, rfl, rfl, rfl, rfl⟩ := h
    have made : MadeOf env d' message'
        (((prepareMessage d' message' clock).value state).getD []) := ⟨clock, state, rfl⟩
    unfold Underway.step
    dsimp only
    rw [SendPoint.trace_advance_keyed, SendPoint.sendCalls_encryptWithCipher,
      SendPoint.value_advance_keyed]
    show Tracks reachable' d' message'
      ⟨_, _, ((encryptWithCipher d' message' clock).value state).getD [], [], []⟩
    rw [value_encryptWithCipher]
    cases got : (prepareMessage d' message' clock).value state with
    | none =>
      rw [got] at made
      exact ⟨made, (ite_self _).symm, (ite_self _).symm⟩
    | some fragments =>
      rw [got] at made
      cases reachable' with
      | true => exact ⟨made, rfl, rfl, rfl, rfl, rfl⟩
      | false => exact ⟨made, rfl, rfl, rfl, rfl⟩
  | prepared d' message' fragments =>
    obtain ⟨made, here, rfl, rfl, rfl, rfl⟩ := h
    exact ⟨made, here, rfl, rfl, rfl⟩
  | transmitting ackSeq d' message' fragments rest =>
    obtain ⟨made, rfl, rfl, sent, rfl⟩ := h
    cases rest with
    | nil => exact ⟨made, sent, rfl⟩
    | cons pkt rest =>
      refine ⟨made, rfl, rfl, (List.append_cons _ _ _).symm.trans sent, rfl⟩
  | enqueuing d' rest =>
    obtain ⟨made, rfl, rfl, rfl, kept⟩ := h
    cases rest with
    | nil => exact ⟨made, rfl, kept⟩
    | cons pkt rest =>
      refine ⟨made, rfl, rfl, rfl, (List.append_cons _ _ _).symm.trans kept⟩

theorem Tracks.run (h : u.Tracks reachable d message) (later : List CommandStep) :
    (u.run later).Tracks reachable d message := by
  induction later generalizing u with
  | nil => exact h
  | cons step later ih =>
    cases step with
    | network step => exact ih (h.network step)
    | main clock junk => exact ih (h.main clock junk)

end Invariant

/-- A message of at most 1007 bytes is made into one to three packets, a longer one into none. -/
theorem MadeOf.length {d : Mac} {message : Str} {packets : List Packet}
    (made : MadeOf env d message packets) :
    packets.length ≤ 3 ∧ (packets = [] ↔ 1007 < message.length) := by
  obtain ⟨clock, s, rfl⟩ := made
  by_cases short : message.length ≤ 1007
  · obtain ⟨encrypted, ok, len, -, -⟩ :=
      decryptPayload_encryptPayload short (env.cipher d) clock.steady
    unfold paddedLength at len
    have some' : encrypted ≠ [] := by
      apply List.ne_nil_of_length_pos
      omega
    have count := Sending.length_packets (s := sendingOf s d encrypted)
      (show encrypted.length ≤ 65535 by omega)
    have total : (sendingOf s d encrypted).total = (encrypted.length + 479) / 480 := rfl
    rw [value_prepareMessage ok some' s, Option.getD_some, ← List.length_eq_zero_iff, count, total]
    omega
  · have none' : (prepareMessage d message clock).value s = none := by
      refine Option.eq_none_iff_forall_ne_some.2 fun packets got => ?_
      obtain ⟨encrypted, ok, some', -⟩ := exists_encrypted got
      exact short (length_le_of_encryptPayload ok some')
    rw [none', Option.getD_none]
    exact ⟨Nat.zero_le _, iff_of_true rfl (not_le.1 short)⟩

/-! ### Its end -/

/-- At most how many sections are left. -/
def sectionsLeft : SendPoint → ℕ
  | .idle => 0
  | .checked .. => 7
  | .keyed .. => 6
  | .prepared _ _ fragments => fragments.length + 2
  | .transmitting _ _ _ _ rest | .enqueuing _ rest => rest.length + 1

/-- How many of the steps are sections of the command. -/
def sections (later : List CommandStep) : ℕ :=
  later.countP fun
    | .main _ _ => true
    | .network _ => false

theorem sectionsLeft_advance (point : SendPoint) (clock : Clock) (junk : UInt32) (s : NodeState env) :
    sectionsLeft ((point.advance clock junk).value s) ≤ sectionsLeft point - 1 := by
  cases point with
  | idle => exact le_rfl
  | checked reachable d message => exact le_rfl
  | keyed reachable d message =>
    have made : MadeOf env d message (((prepareMessage d message clock).value s).getD []) :=
      ⟨clock, s, rfl⟩
    rw [SendPoint.value_advance_keyed]
    cases got : (prepareMessage d message clock).value s with
    | none => exact Nat.zero_le _
    | some fragments =>
      rw [got] at made
      have few : fragments.length ≤ 3 := made.length.1
      show sectionsLeft (if reachable then _ else _) ≤ 5
      split_ifs
      · exact Nat.add_le_add_right few 2
      · exact (Nat.add_le_add_right few 1).trans (by omega)
  | prepared d message fragments => exact le_rfl
  | transmitting ackSeq d message fragments rest => cases rest <;> exact le_rfl
  | enqueuing d rest => cases rest <;> exact le_rfl

theorem sectionsLeft_run (u : Underway env) (later : List CommandStep) :
    sectionsLeft (u.run later).point ≤ sectionsLeft u.point - sections later := by
  induction later generalizing u with
  | nil => exact le_rfl
  | cons step later ih =>
    have rest := ih (u.step step)
    have count : sections (step :: later) = sections later + sections [step] := by
      unfold sections
      rw [List.countP_cons, List.countP_cons, List.countP_nil, Nat.zero_add]
    rw [count]
    cases step with
    | network step => exact rest
    | main clock junk =>
      have here : sectionsLeft (u.step (.main clock junk)).point ≤ sectionsLeft u.point - 1 :=
        sectionsLeft_advance u.point clock junk u.state
      have one : sections [.main clock junk] = 1 := rfl
      show sectionsLeft ((u.step (.main clock junk)).run later).point ≤ _
      omega

theorem over_of_sections (s : NodeState env) (targetMac message : Str) (clock : Clock)
    {later : List CommandStep} (enough : 7 ≤ sections later) :
    ((enter s targetMac message clock).run later).point = .idle := by
  have start : sectionsLeft (enter s targetMac message clock).point ≤ 7 := by
    show sectionsLeft ((SendPoint.start targetMac message clock).value s) ≤ 7
    unfold SendPoint.start
    rw [value_ite]
    split_ifs
    · exact Nat.zero_le _
    · exact le_rfl
  have left := sectionsLeft_run (enter s targetMac message clock) later
  have none' : sectionsLeft ((enter s targetMac message clock).run later).point = 0 := by omega
  cases point : ((enter s targetMac message clock).run later).point with
  | idle => rfl
  | _ =>
    rw [point] at none'
    cases none'

/-! ### When the destination is gone -/

theorem tracks_enter (s : NodeState env) {targetMac message : Str} (clock : Clock)
    (name : targetMac ≠ []) (some' : message ≠ []) :
    (enter s targetMac message clock).Tracks
      ((isReachable targetMac (stringToMac targetMac) clock).value s) (stringToMac targetMac)
      message := by
  have entered : ¬ (targetMac.length = 0 ∨ message.length = 0) := by
    rw [List.length_eq_zero_iff, List.length_eq_zero_iff]
    exact not_or.2 ⟨name, some'⟩
  have point : (SendPoint.start targetMac message clock).value s = .checked
      ((isReachable targetMac (stringToMac targetMac) clock).value s) (stringToMac targetMac)
      message := by
    rw [SendPoint.start, if_neg entered]
    rfl
  unfold enter
  rw [point]
  exact ⟨rfl, rfl, rfl, rfl, rfl⟩

/-- When the command is over, the packets were all transmitted or all stored. -/
theorem Tracks.ended {u : Underway env} {reachable : Bool} {d : Mac} {message : Str}
    (h : u.Tracks reachable d message) (ended : u.point = .idle) :
    MadeOf env d message u.packets ∧
      u.transmitted = (if reachable then u.packets.map fun p => (p, d) else []) ∧
      u.stored = if reachable then [] else u.packets.map fun p => (d, p) := by
  obtain ⟨state, point, packets, transmitted, stored⟩ := u
  obtain rfl := ended
  exact h

theorem Tracks.stored_of_ended {u : Underway env} {reachable : Bool} {d : Mac} {message : Str}
    (h : u.Tracks reachable d message) (ended : u.point = .idle) :
    u.Stored d ↔ reachable = false ∨ 1007 < message.length := by
  obtain ⟨made, -, kept⟩ := h.ended ended
  unfold Stored
  rw [kept, ← made.length.2]
  cases reachable with
  | false => exact iff_of_true rfl (.inl rfl)
  | true =>
    rw [if_pos rfl, eq_comm, List.map_eq_nil_iff]
    exact (or_iff_right Bool.noConfusion).symm

theorem stored_run_idle {u : Underway env} {d : Mac} (idle : u.point = .idle) (nothing : u.Stored d)
    (later : List CommandStep) : (u.run later).Stored d := by
  induction later generalizing u with
  | nil => exact nothing
  | cons step later ih =>
    obtain ⟨state, point, packets, transmitted, stored⟩ := u
    obtain rfl := idle
    cases step with
    | network step => exact ih rfl nothing
    | main clock junk => exact ih rfl ((List.append_nil _).trans nothing)

/-- In every run of the node, a command for a destination that is gone stores the message exactly when
the name of the destination was never heard, or there is nothing to be stored. -/
theorem stored_iff (queueFile : Option (List UInt8)) (steps : List NodeStep) (targetMac message : Str)
    (clock : Clock) (later : List CommandStep)
    (gone : Vanished env queueFile steps (stringToMac targetMac) clock.time)
    (ended : ((enter (stateAfter (NodeState.start env queueFile) steps) targetMac message clock).run
      later).point = .idle) :
    ((enter (stateAfter (NodeState.start env queueFile) steps) targetMac message clock).run
        later).Stored (stringToMac targetMac) ↔
      ¬ HeardName env steps targetMac ∨ targetMac = [] ∨ message = [] ∨ 1007 < message.length := by
  by_cases entered : targetMac ≠ [] ∧ message ≠ []
  · obtain ⟨name, some'⟩ := entered
    rw [((tracks_enter _ clock name some').run later).stored_of_ended ended, ← gone.isReachable,
      Bool.not_eq_true, or_iff_right name, or_iff_right some']
  · have empty : targetMac = [] ∨ message = [] := by
      rwa [not_and_or, not_not, not_not] at entered
    have start : (SendPoint.start targetMac message clock : Action env SendPoint) = pure .idle := by
      rw [SendPoint.start, if_pos]
      rwa [List.length_eq_zero_iff, List.length_eq_zero_iff]
    have idle : (enter (stateAfter (NodeState.start env queueFile) steps) targetMac message
        clock).point = .idle := by
      unfold enter
      rw [start]
      rfl
    have nothing : (enter (stateAfter (NodeState.start env queueFile) steps) targetMac message
        clock).Stored (stringToMac targetMac) := rfl
    exact iff_of_true (stored_run_idle idle nothing later) (.inr (or_assoc.1 (.inl empty)))

end Underway

/-! A node hears another one at the time 0, and writes to it at the time 100. -/

/-- A greeting of the other node has been heard. -/
def greetingOnce : List NodeStep :=
  [.network (.packet (helloFrom receiverEnv.myMac) ⟨0, 0⟩)]

theorem vanished_greetingOnce :
    Vanished senderEnv none greetingOnce (stringToMac (macToString receiverEnv.myMac))
      (Clock.mk 100 0).time := by
  constructor
  · intro p clock mem _
    cases List.mem_singleton.1 mem
    decide
  · intro c mem _
    have once : c ∈ (NodeStep.network (.packet (helloFrom receiverEnv.myMac) ⟨0, 0⟩)).addRoutes
        (NodeState.start senderEnv none) := by
      rw [← List.append_nil (NodeStep.addRoutes _ _)]
      exact mem
    obtain ⟨p, clock, same, now⟩ := clock_of_mem_addRoutes once
    cases same
    unfold AddRoute.Recent
    rw [now]
    decide

theorem heard_greetingOnce : HeardName senderEnv greetingOnce (macToString receiverEnv.myMac) :=
  ⟨helloFrom receiverEnv.myMac, ⟨0, 0⟩, List.mem_singleton_self _, by decide, rfl⟩

/-- The network thread does nothing in between. -/
def undisturbed : List CommandStep := List.replicate 7 (.main ⟨100, 0⟩ 0)

/-- The command `send` for a name, 100 seconds after the greeting. -/
def writing (targetMac : Str) : Underway senderEnv :=
  (Underway.enter (stateAfter (NodeState.start senderEnv none) greetingOnce) targetMac (text "hi")
    ⟨100, 0⟩).run undisturbed

theorem over_writing (targetMac : Str) : (writing targetMac).point = .idle :=
  Underway.over_of_sections _ _ _ _ (by decide)

/-- The node that was heard 100 seconds ago is written to under another spelling of its MAC. -/
theorem Underway.stored_iff_respelled :
    HeardName senderEnv greetingOnce (macToString receiverEnv.myMac) ∧
      stringToMac (text "2:0:0:0:0:2") = stringToMac (macToString receiverEnv.myMac) ∧
      (writing (text "2:0:0:0:0:2")).Stored (stringToMac (text "2:0:0:0:0:2")) := by
  have same : stringToMac (text "2:0:0:0:0:2") = stringToMac (macToString receiverEnv.myMac) := by
    decide
  refine ⟨heard_greetingOnce, same, ?_⟩
  refine (Underway.stored_iff none greetingOnce _ _ ⟨100, 0⟩ undisturbed (same ▸ vanished_greetingOnce)
    (over_writing _)).2 (.inl ?_)
  rintro ⟨p, clock, mem, -, name⟩
  cases List.mem_singleton.1 mem
  exact absurd name (by decide)

/-- The command with the spelling of the program. -/
def writingBack : Underway senderEnv := writing (macToString receiverEnv.myMac)

/-- The node that was heard 100 seconds ago is still taken for a neighbour: the message is transmitted,
and nothing is stored. -/
theorem vanished_neighbor_is_not_stored :
    Vanished senderEnv none greetingOnce (stringToMac (macToString receiverEnv.myMac)) 100 ∧
      writingBack.point = .idle ∧ writingBack.transmitted ≠ [] ∧
      writingBack.stored = [] ∧
      ¬ writingBack.Stored (stringToMac (macToString receiverEnv.myMac)) := by
  have gone := vanished_greetingOnce
  have reachable := gone.isReachable.2 heard_greetingOnce
  have tracks := (Underway.tracks_enter (stateAfter (NodeState.start senderEnv none) greetingOnce)
    ⟨100, 0⟩ (by decide : macToString receiverEnv.myMac ≠ []) (by decide : text "hi" ≠ [])).run
      undisturbed
  rw [reachable] at tracks
  obtain ⟨made, sent, kept⟩ := tracks.ended (over_writing _)
  rw [if_pos rfl] at sent kept
  have some' : writingBack.packets ≠ [] := mt made.length.2.1 (by decide)
  refine ⟨gone, over_writing _, ?_, kept, fun whole => ?_⟩
  · exact sent ▸ mt List.map_eq_nil_iff.1 some'
  · exact some' (List.map_eq_nil_iff.1 (whole.symm.trans kept))

end Araba
