import Araba.Relay
import Araba.StoreAndForward

/-!
# The target of the `send` command

The command takes any word for a target: it looks the word up among the neighbours as it was typed,
and reads it as a MAC for the routes, and the packets go to that MAC, whatever the next hop is.
-/

namespace Araba

open Bytes Traced

variable {env : NodeEnv}

/-! ## The next hop -/

/-- Every packet of the message is for the destination and is handed on with the next hop of the route,
as the node does with a packet of another node for that destination. -/
structure AgreesWithRelay (s : NodeState env) (u : Underway env) (d : Mac) (clock : Clock)
    (route : RouteEntry) : Prop where
  origin : u.transmitted = u.packets.map fun p => (p, route.nextHop)
  dest : ∀ p ∈ u.packets, p.header.dest = d
  relay : ∀ received : Packet, received.header.dest = d → 1 < received.header.ttl →
    sendCalls ((forward received clock).trace s) =
      [(received.withTtl (received.header.ttl - 1), route.nextHop)]

/-- A command for a destination with a route hands every packet on with the destination itself. -/
theorem Underway.transmitted_of_route {s : NodeState env} {targetMac message : Str} {clock : Clock}
    {route : RouteEntry} {later : List CommandStep} (name : targetMac ≠ []) (some' : message ≠ [])
    (found : s.table.findNextHop (stringToMac targetMac) clock.time = some route)
    (ended : ((enter s targetMac message clock).run later).point = .idle) :
    MadeOf env (stringToMac targetMac) message ((enter s targetMac message clock).run later).packets ∧
      ((enter s targetMac message clock).run later).transmitted =
        ((enter s targetMac message clock).run later).packets.map fun p =>
          (p, stringToMac targetMac) := by
  have reachable : (isReachable targetMac (stringToMac targetMac) clock).value s = true := by
    show (s.knownNeighbors.contains targetMac || (s.table.findNextHop _ clock.time).isSome) = true
    rw [found, Option.isSome_some, Bool.or_true]
  have tracks := (tracks_enter s clock name some').run later
  rw [reachable] at tracks
  obtain ⟨made, sent, -⟩ := tracks.ended ended
  exact ⟨made, sent⟩

theorem link_eq_of_map_eq {ps : List Packet} (some' : ps ≠ []) {a b : Mac}
    (same : (ps.map fun p => (p, a)) = ps.map fun p => (p, b)) : a = b := by
  obtain ⟨p, ps, rfl⟩ := List.exists_cons_of_ne_nil some'
  rw [List.map_cons, List.map_cons, List.cons.injEq] at same
  exact congrArg Prod.snd same.1

theorem Underway.MadeOf.dest {d : Mac} {message : Str} {packets : List Packet}
    (made : MadeOf env d message packets) : ∀ p ∈ packets, p.header.dest = d := by
  obtain ⟨clock, s, rfl⟩ := made
  intro p hp
  cases got : (prepareMessage d message clock).value s with
  | none =>
    rw [got] at hp
    exact absurd hp List.not_mem_nil
  | some fragments =>
    rw [got] at hp
    exact (SendPoint.isMessage_of_prepared got p hp).2.2

/-- When the destination has a route, and whatever the network thread does while the command is run,
origin and relay agree exactly when the destination is its own next hop, or there is nothing to be
sent. -/
theorem agreesWithRelay_iff {s : NodeState env} {targetMac message : Str} {clock : Clock}
    {route : RouteEntry} {later : List CommandStep} (name : targetMac ≠ []) (some' : message ≠ [])
    (found : s.table.findNextHop (stringToMac targetMac) clock.time = some route)
    (ended : ((Underway.enter s targetMac message clock).run later).point = .idle) :
    AgreesWithRelay s ((Underway.enter s targetMac message clock).run later) (stringToMac targetMac)
        clock route ↔ route.nextHop = stringToMac targetMac ∨ 1007 < message.length := by
  obtain ⟨made, sent⟩ := Underway.transmitted_of_route name some' found ended
  generalize (Underway.enter s targetMac message clock).run later = u at made sent
  have count := made.length.2
  constructor
  · rintro ⟨origin, -, -⟩
    rw [or_iff_not_imp_right, ← count]
    exact fun packets => link_eq_of_map_eq packets (origin.symm.trans sent)
  · intro agree
    refine ⟨?_, made.dest, fun received dest alive => sendCalls_forward (dest ▸ found) alive⟩
    rcases agree with same | long
    · rw [sent, same]
    · rw [sent, count.2 long]
      rfl

/-- A node with a neighbour that has told it a route to a third node. -/
def toldRoute : NodeState senderEnv := { NodeState.start senderEnv none with
  knownNeighbors := (∅ : Std.ExtTreeSet Str).insert (macToString receiverEnv.myMac)
  table := (({} : RoutingTable).addRoute receiverEnv.myMac receiverEnv.myMac 1 0).addRoute
    (sampleMac 3) receiverEnv.myMac 2 0 }

/-- The route to the third node, and the one to the neighbour. -/
def routeVia (dest : Mac) (hops : UInt8) : RouteEntry where
  destination := dest
  nextHop := receiverEnv.myMac
  hops := hops
  lastUpdated := 0
  isValid := true

theorem findNextHop_toldRoute :
    toldRoute.table.findNextHop (stringToMac (text "02:00:00:00:00:02")) 10 =
        some (routeVia receiverEnv.myMac 1) ∧
      toldRoute.table.findNextHop (stringToMac (text "02:00:00:00:00:03")) 10 =
        some (routeVia #v[2, 0, 0, 0, 0, 3] 2) := by
  decide

/-- The command `send` with a target, and nothing in between its sections. -/
def sendingTo (targetMac : Str) : Underway senderEnv :=
  (Underway.enter toldRoute targetMac (text "hi") ⟨10, 0⟩).run (List.replicate 7 (.main ⟨10, 0⟩ 0))

theorem ended_sendingTo (targetMac : Str) : (sendingTo targetMac).point = .idle :=
  Underway.over_of_sections _ _ _ _ (by decide)

theorem agreesWithRelay_iff_neighbor :
    AgreesWithRelay toldRoute (sendingTo (text "02:00:00:00:00:02"))
        (stringToMac (text "02:00:00:00:00:02")) ⟨10, 0⟩ (routeVia receiverEnv.myMac 1) ↔
      (routeVia receiverEnv.myMac 1).nextHop = stringToMac (text "02:00:00:00:00:02") ∨
        1007 < (text "hi").length :=
  agreesWithRelay_iff (by decide) (by decide) findNextHop_toldRoute.1 (ended_sendingTo _)

/-- The third node is not in reach, but the packets are handed on with its MAC. -/
theorem third_node_is_addressed_directly :
    text "02:00:00:00:00:03" ∉ toldRoute.knownNeighbors ∧
      (sendingTo (text "02:00:00:00:00:03")).point = .idle ∧
      ¬ AgreesWithRelay toldRoute (sendingTo (text "02:00:00:00:00:03"))
        (stringToMac (text "02:00:00:00:00:03")) ⟨10, 0⟩ (routeVia #v[2, 0, 0, 0, 0, 3] 2) := by
  have ended := ended_sendingTo (text "02:00:00:00:00:03")
  refine ⟨by decide, ended, fun agrees => ?_⟩
  obtain ⟨made, sent⟩ := Underway.transmitted_of_route (by decide) (by decide)
    findNextHop_toldRoute.2 ended
  have packets := mt made.length.2.1 (by decide)
  have same : receiverEnv.myMac = stringToMac (text "02:00:00:00:00:03") :=
    link_eq_of_map_eq packets (agrees.origin.symm.trans sent)
  exact absurd same (by decide)

/-! ## Spellings -/

/-- The commands for both targets take them for reachable, or both do not. -/
def SameDecision (s : NodeState env) (clock : Clock) (s1 s2 : Str) : Prop :=
  (isReachable s1 (stringToMac s1) clock).value s = (isReachable s2 (stringToMac s2) clock).value s

theorem isReachable_iff {s : NodeState env} {clock : Clock} {target : Str} :
    (isReachable target (stringToMac target) clock).value s = true ↔
      target ∈ s.knownNeighbors ∨
        (s.table.findNextHop (stringToMac target) clock.time).isSome = true := by
  show (s.knownNeighbors.contains target || _) = true ↔ _
  rw [Bool.or_eq_true]
  exact Iff.rfl

/-- For two spellings of a MAC the decision is the same exactly when both are names of neighbours, or
none is, or the MAC has a route that is not stale. -/
theorem sameDecision_iff (s : NodeState env) (clock : Clock) {s1 s2 : Str}
    (same : stringToMac s1 = stringToMac s2) :
    SameDecision s clock s1 s2 ↔ (s1 ∈ s.knownNeighbors ↔ s2 ∈ s.knownNeighbors) ∨
      (s.table.findNextHop (stringToMac s1) clock.time).isSome = true := by
  rw [SameDecision, Bool.eq_iff_iff, isReachable_iff, isReachable_iff, ← same]
  by_cases route : (s.table.findNextHop (stringToMac s1) clock.time).isSome = true
  · exact iff_of_true (iff_of_true (.inr route) (.inr route)) (.inr route)
  · rw [or_iff_left route, or_iff_left route, or_iff_left route]

/-- With leading zeros and without. -/
theorem sameDecision_iff_zeros :
    SameDecision toldRoute ⟨10, 0⟩ (text "02:00:00:00:00:03") (text "2:0:0:0:0:3") ↔
      (text "02:00:00:00:00:03" ∈ toldRoute.knownNeighbors ↔
        text "2:0:0:0:0:3" ∈ toldRoute.knownNeighbors) ∨
        (toldRoute.table.findNextHop (stringToMac (text "02:00:00:00:00:03")) 10).isSome = true :=
  sameDecision_iff toldRoute ⟨10, 0⟩ (by decide)

/-- A neighbour that was heard 100 seconds ago is reachable under one spelling only. -/
theorem neighbor_by_spelling :
    stringToMac (text "02:00:00:00:00:02") = stringToMac (text "2:0:0:0:0:2") ∧
      ¬ SameDecision (stateAfter (NodeState.start senderEnv none) greetingOnce) ⟨100, 0⟩
        (text "02:00:00:00:00:02") (text "2:0:0:0:0:2") := by
  have same : stringToMac (text "02:00:00:00:00:02") = stringToMac (text "2:0:0:0:0:2") := by decide
  have name : macToString receiverEnv.myMac = text "02:00:00:00:00:02" := by decide
  have gone := vanished_greetingOnce
  have heard := heard_greetingOnce
  rw [name] at gone heard
  refine ⟨same, fun decision => ?_⟩
  rw [SameDecision, gone.isReachable.2 heard] at decision
  rw [same] at gone
  obtain ⟨p, clock, mem, -, spelled⟩ := gone.isReachable.1 decision.symm
  cases List.mem_singleton.1 mem
  rw [show (helloFrom receiverEnv.myMac).header.source = receiverEnv.myMac from rfl, name] at spelled
  exact absurd spelled (by decide)

/-- In every run, a MAC that was heard and has no route any more is decided by its spelling: one that is
what `mac_to_string` writes, and only that one, is taken for reachable. -/
theorem sameDecision_stateAfter_iff (queueFile : Option (List UInt8)) (steps : List NodeStep)
    (clock : Clock) {s1 s2 : Str} (same : stringToMac s1 = stringToMac s2)
    (heard : HeardName env steps (macToString (stringToMac s1)))
    (stale : (stateAfter (NodeState.start env queueFile) steps).table.findNextHop (stringToMac s1)
      clock.time = none) :
    SameDecision (stateAfter (NodeState.start env queueFile) steps) clock s1 s2 ↔
      (s1 = macToString (stringToMac s1) ↔ s2 = macToString (stringToMac s2)) := by
  have known {t : Str} (spelled : stringToMac t = stringToMac s1) :
      t ∈ (stateAfter (NodeState.start env queueFile) steps).knownNeighbors ↔
        t = macToString (stringToMac t) := by
    rw [mem_knownNeighbors_run]
    constructor
    · rintro ⟨p, clock, -, -, rfl⟩
      rw [stringToMac_macToString]
    · intro canonical
      rw [canonical, spelled]
      exact heard
  rw [sameDecision_iff _ _ same, stale, Option.isSome_none, or_iff_left Bool.false_ne_true,
    known rfl, known same.symm]

/-! ## Targets that are no MAC -/

section NoEffect

variable {s : NodeState env} {targetMac message : Str} {clock : Clock} {junk : UInt32}

/-- The command transmits no packet, adds no pending ACK and leaves the queue as it is. -/
structure NoEffect (s : NodeState env) (targetMac message : Str) (clock : Clock) (junk : UInt32) :
    Prop where
  silent : sendCalls ((sendCommand targetMac message clock junk).trace s) = []
  pending : ((sendCommand targetMac message clock junk).post s).pendingAcks = s.pendingAcks
  queue : ((sendCommand targetMac message clock junk).post s).queue = s.queue

theorem sendCalls_prepareMessage (d : Mac) :
    sendCalls ((prepareMessage d message clock).trace s) = [] := by
  have quiet : Preserves (fun _ => True) (Effect.Sends fun _ => False)
      (prepareMessage d message clock : Action env _) :=
    preserves_prepareMessage (fun _ _ _ _ _ => trivial) trivial trivial trivial
  exact List.eq_nil_iff_forall_not_mem.2 (forall_mem_sendCalls (quiet s trivial).2)

theorem noEffect_of_empty (empty : targetMac.length = 0 ∨ message.length = 0) :
    NoEffect s targetMac message clock junk := by
  have nothing : (sendCommand targetMac message clock junk : Action env Unit) = pure () := by
    rw [sendCommand, if_pos empty]
  constructor
  all_goals rw [nothing]; rfl

/-- What is left of the command when the message is prepared. -/
def sendPrepared (reachable : Bool) (d : Mac) (message : Str) (clock : Clock) (junk : UInt32) :
    Option (List Packet) → Action env Unit
  | none => pure ()
  | some fragments =>
    if reachable then do
      let ackSeq ← takeAckSeq
      runAll (fragments.map (transmitPacket d))
      registerAck ackSeq d message clock
    else runAll (fragments.map (enqueueFragment d clock junk))

theorem sendCommand_entered (entered : ¬ (targetMac.length = 0 ∨ message.length = 0)) :
    (sendCommand targetMac message clock junk : Action env Unit) = (do
      let reachable ← isReachable targetMac (stringToMac targetMac) clock
      let prepared ← prepareMessage (stringToMac targetMac) message clock
      sendPrepared reachable (stringToMac targetMac) message clock junk prepared) := by
  rw [sendCommand, if_neg entered]
  refine congrArg (isReachable targetMac (stringToMac targetMac) clock >>= ·) (funext fun _ => ?_)
  refine congrArg (prepareMessage (stringToMac targetMac) message clock >>= ·) (funext fun made => ?_)
  cases made <;> rfl

theorem post_isReachable (d : Mac) : (isReachable targetMac d clock).post s = s := rfl

theorem post_sendCommand (entered : ¬ (targetMac.length = 0 ∨ message.length = 0)) :
    (sendCommand targetMac message clock junk).post s =
      (sendPrepared ((isReachable targetMac (stringToMac targetMac) clock).value s)
        (stringToMac targetMac) message clock junk
        ((prepareMessage (stringToMac targetMac) message clock).value s)).post
        ((prepareMessage (stringToMac targetMac) message clock).post s) := by
  rw [sendCommand_entered entered, post_bind, post_bind, post_isReachable]

theorem sendCalls_sendCommand (entered : ¬ (targetMac.length = 0 ∨ message.length = 0)) :
    sendCalls ((sendCommand targetMac message clock junk).trace s) =
      sendCalls ((sendPrepared ((isReachable targetMac (stringToMac targetMac) clock).value s)
        (stringToMac targetMac) message clock junk
        ((prepareMessage (stringToMac targetMac) message clock).value s)).trace
        ((prepareMessage (stringToMac targetMac) message clock).post s)) := by
  have locks : (isReachable targetMac (stringToMac targetMac) clock).trace s = [.lock, .unlock] := rfl
  rw [sendCommand_entered entered, trace_bind, trace_bind, post_isReachable, locks, sendCalls_append,
    sendCalls_append, sendCalls_prepareMessage]
  rfl

theorem noEffect_of_unprepared
    (none' : (prepareMessage (stringToMac targetMac) message clock).value s = none) :
    NoEffect s targetMac message clock junk := by
  by_cases empty : targetMac.length = 0 ∨ message.length = 0
  · exact noEffect_of_empty empty
  · have post : (sendCommand targetMac message clock junk).post s =
        (prepareMessage (stringToMac targetMac) message clock).post s := by
      rw [post_sendCommand empty, none', sendPrepared, post_pure]
    constructor
    · rw [sendCalls_sendCommand empty, none', sendPrepared, trace_pure]
      rfl
    · rw [post]
      exact (leaves_prepareMessage (f := NodeState.pendingAcks) fun _ _ _ _ => rfl).post s
    · rw [post]
      exact (leaves_prepareMessage (f := NodeState.queue) fun _ _ _ _ => rfl).post s

theorem sendCalls_transmitAll (d : Mac) (ps : List Packet) (s : NodeState env) :
    sendCalls ((runAll (ps.map (transmitPacket d))).trace s) = ps.map fun p => (p, d) := by
  induction ps with
  | nil => rfl
  | cons p ps ih =>
    rw [List.map_cons, runAll, trace_bind, sendCalls_append]
    exact congrArg (List.cons (p, d)) ih

/-- The queue file grows by a record at least with every packet. -/
theorem length_file_enqueueAll (clock : Clock) (junk : UInt32) (d : Mac) (ps : List Packet)
    (s : NodeState env) :
    (s.queue.file.getD []).length + 528 * ps.length ≤
      (((runAll (ps.map (enqueueFragment d clock junk))).post s).queue.file.getD []).length := by
  induction ps generalizing s with
  | nil => exact le_rfl
  | cons p ps ih =>
    have grown : (((enqueueFragment d clock junk p).post s).queue.file.getD []).length =
        max (s.queue.file.getD []).length 9 + 528 :=
      s.queue.length_file_enqueue d p.body clock.time junk
    have rest := ih ((enqueueFragment d clock junk p).post s)
    rw [List.map_cons, runAll, post_bind, List.length_cons]
    omega

theorem not_noEffect_of_prepared (entered : ¬ (targetMac.length = 0 ∨ message.length = 0))
    {fragments : List Packet} (some' : fragments ≠ [])
    (made : (prepareMessage (stringToMac targetMac) message clock).value s = some fragments) :
    ¬ NoEffect s targetMac message clock junk := by
  rintro ⟨silent, -, queue⟩
  cases reachable : (isReachable targetMac (stringToMac targetMac) clock).value s with
  | true =>
    rw [sendCalls_sendCommand entered, made, reachable, sendPrepared, if_pos rfl, trace_bind,
      trace_bind, sendCalls_append, sendCalls_append, sendCalls_transmitAll] at silent
    have sent := (List.append_eq_nil_iff.1 (List.append_eq_nil_iff.1 silent).2).1
    exact some' (List.map_eq_nil_iff.1 sent)
  | false =>
    rw [post_sendCommand entered, made, reachable, sendPrepared, if_neg Bool.false_ne_true] at queue
    have kept : ((prepareMessage (stringToMac targetMac) message clock).post s).queue = s.queue :=
      (leaves_prepareMessage (f := NodeState.queue) fun _ _ _ _ => rfl).post s
    have longer := length_file_enqueueAll clock junk (stringToMac targetMac) fragments
      ((prepareMessage (stringToMac targetMac) message clock).post s)
    have pos := List.length_pos_of_ne_nil some'
    rw [queue, kept] at longer
    omega

/-- Whatever the target is, the command has an effect unless a word or the message is wanting, or the
message is too long to be encrypted. -/
theorem noEffect_iff :
    NoEffect s targetMac message clock junk ↔
      targetMac = [] ∨ message = [] ∨ 1007 < message.length := by
  by_cases empty : targetMac.length = 0 ∨ message.length = 0
  · refine iff_of_true (noEffect_of_empty empty) ?_
    rw [List.length_eq_zero_iff, List.length_eq_zero_iff] at empty
    exact or_assoc.1 (.inl empty)
  · have entered := not_or.1 empty
    rw [List.length_eq_zero_iff, List.length_eq_zero_iff] at entered
    rw [or_iff_right entered.1, or_iff_right entered.2]
    have packets : Underway.MadeOf env (stringToMac targetMac) message
        (((prepareMessage (stringToMac targetMac) message clock).value s).getD []) := ⟨clock, s, rfl⟩
    have count := packets.length.2
    cases made : (prepareMessage (stringToMac targetMac) message clock).value s with
    | none =>
      rw [made] at count
      exact iff_of_true (noEffect_of_unprepared made) (count.1 rfl)
    | some fragments =>
      obtain ⟨encrypted, ok, whole, -⟩ := exists_encrypted made
      have short := not_lt.2 (length_le_of_encryptPayload ok whole)
      rw [made, Option.getD_some] at count
      exact iff_of_false (not_noEffect_of_prepared empty (mt count.1 short) made) short

/-- A target that is no MAC has no effect exactly when the command has none with any target. -/
theorem malformed_iff (s : NodeState env) (targetMac message : Str) (clock : Clock) (junk : UInt32) :
    (¬ IsMacText targetMac → NoEffect s targetMac message clock junk) ↔
      IsMacText targetMac ∨ targetMac = [] ∨ message = [] ∨ 1007 < message.length := by
  rw [noEffect_iff, imp_iff_not_or, not_not]

/-- The message to a target of which nothing can be read is kept for the MAC of zeros. -/
theorem misspelled_target_has_effect :
    ¬ IsMacText (text "nobody") ∧ stringToMac (text "nobody") = Vector.replicate 6 0 ∧
      ¬ NoEffect (NodeState.start senderEnv none) (text "nobody") (text "hi") ⟨0, 0⟩ 0 := by
  refine ⟨by decide, by decide, fun nothing => ?_⟩
  rcases noEffect_iff.1 nothing with name | some' | long
  · exact absurd name (by decide)
  · exact absurd some' (by decide)
  · exact absurd long (by decide)

end NoEffect

end Araba
