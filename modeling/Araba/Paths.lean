import Araba.Integrity
import Araba.Ledger

/-!
# Paths

A message that takes one packet goes from relay to relay, with one less to live each time. Every relay
takes it apart with the key that it shares with the source, and sends it on when that looks right. What
takes several packets stays where its source is heard.
-/

namespace Araba

open Bytes Traced

/-! ## Relay after relay -/

/-- A node on the way, as it is when it gets the packet. -/
structure Relay where
  env : NodeEnv
  state : NodeState env
  clock : Clock

/-- The packets of the source that the relay sends when it handles one. -/
def Relay.passes (r : Relay) (p : Packet) : List Packet :=
  (relayed p.header.source ((handlePacket p r.clock).trace r.state)).map Prod.fst

/-- What comes out at the end of a path. -/
def carry : List Relay → Packet → List Packet
  | [], p => [p]
  | r :: path, p => (r.passes p).flatMap (carry path)

/-- A relay between two others, with a route to the second. -/
structure Relay.Between (r : Relay) (source dest : Mac) : Prop where
  notSource : source ≠ r.env.myMac
  notDest : dest ≠ r.env.myMac
  route : (r.state.table.findNextHop dest r.clock.time).isSome

/-- What holds of the one packet of a message, with any time to live. -/
structure Lone (source dest : Mac) (p : Packet) : Prop where
  src : p.header.source = source
  dst : p.header.dest = dest
  data : p.header.type = .data
  long : aesBlockSize + aesBlockSize ≤ p.body.length
  small : p.body.length ≤ 512
  whole : p.body.length % aesBlockSize = 0

section Path

variable {source dest : Mac} {p : Packet} {r : Relay}

theorem Lone.withTtl (h : Lone source dest p) (ttl : UInt8) : Lone source dest (p.withTtl ttl) :=
  ⟨h.src, h.dst, h.data, h.long, h.small, h.whole⟩

theorem passes_of_isFragment (h : Lone source dest p) (between : r.Between source dest)
    (frag : p.IsFragment) : r.passes p = [] := by
  have other : p.header.source ≠ r.env.myMac := h.src.trans_ne between.notSource
  have notMine : p.header.dest ≠ r.env.myMac := h.dst.trans_ne between.notDest
  rw [Relay.passes, relayed_of_isFragment notMine other h.data frag, List.map_nil]

/-- A relay sends the packet on when it can decrypt it to something. -/
theorem passes_of_single (h : Lone source dest p) (distinct : source ≠ dest)
    (between : r.Between source dest) (alive : 1 < p.header.ttl) (single : ¬ p.IsFragment) :
    r.passes p = if LooksPadded (r.env.opened p) then [p.withTtl (p.header.ttl - 1)] else [] := by
  have other : p.header.source ≠ r.env.myMac := h.src.trans_ne between.notSource
  have notMine : p.header.dest ≠ r.env.myMac := h.dst.trans_ne between.notDest
  obtain ⟨route, found⟩ := Option.isSome_iff_exists.1 between.route
  have found' : ((handleControl p r.clock).post r.state).table.findNextHop p.header.dest
      r.clock.time = some route := by
    rw [table_handleControl h.data, h.dst, findNextHop_learnNeighbor (h.src.trans_ne distinct), found]
  obtain ⟨opened, dec, padded⟩ : ∃ opened,
      decryptPayload p.body 1024 (r.env.cipher p.header.source) = .ok opened ∧
        (opened ≠ [] ↔ LooksPadded (r.env.opened p)) :=
    decryptPayload_body (by decide) h.long h.small h.whole
  have kept : (p.withTtl (p.header.ttl - 1)).header.source = p.header.source := rfl
  rw [Relay.passes, relayed_handlePacket other, handleData, if_pos h.data, if_neg single, relayed,
    sendCalls_handleSingle notMine dec found' alive]
  by_cases empty : opened = []
  · rw [if_pos empty, if_neg fun looks => padded.2 looks empty]
    rfl
  · rw [if_neg empty, if_pos (padded.1 empty), List.filter_cons_of_pos (by simp [kept])]
    rfl

/-- Every relay takes one off the time to live, or stops the packet. -/
theorem carry_of_single (distinct : source ≠ dest) {path : List Relay}
    (between : ∀ r ∈ path, r.Between source dest) (h : Lone source dest p) (single : ¬ p.IsFragment)
    (alive : path.length < p.header.ttl.toNat) :
    (∀ q ∈ carry path p, ∃ ttl, q = p.withTtl ttl) ∧
      (carry path p ≠ [] ↔ ∀ r ∈ path, LooksPadded (r.env.opened p)) := by
  induction path generalizing p with
  | nil =>
    refine ⟨fun q mem => ⟨p.header.ttl, List.mem_singleton.1 mem⟩, ?_⟩
    exact iff_of_true (List.cons_ne_nil _ _) fun r mem => absurd mem List.not_mem_nil
  | cons r path ih =>
    rw [List.length_cons] at alive
    have more : 1 < p.header.ttl := UInt8.lt_iff_toNat_lt.2 (show 1 < _ by omega)
    have here := passes_of_single h distinct (between r List.mem_cons_self) more single
    rw [carry, here, List.forall_mem_cons]
    by_cases looks : LooksPadded (r.env.opened p)
    · have less : (p.header.ttl - 1).toNat = p.header.ttl.toNat - 1 :=
        UInt8.toNat_sub_of_le _ _ (UInt8.le_iff_toNat_le.2 (UInt8.lt_iff_toNat_lt.1 more).le)
      obtain ⟨copies, through⟩ := ih (p := p.withTtl (p.header.ttl - 1))
        (fun r mem => between r (List.mem_cons_of_mem _ mem)) (h.withTtl _) single
        (show path.length < (p.header.ttl - 1).toNat by omega)
      rw [if_pos looks, List.flatMap_cons, List.flatMap_nil, List.append_nil, and_iff_right looks]
      exact ⟨copies, through⟩
    · rw [if_neg looks, List.flatMap_nil]
      exact ⟨fun q mem => absurd mem List.not_mem_nil, iff_of_false (not_not.2 rfl) fun h => looks h.1⟩

theorem carry_of_isFragment {path : List Relay} (some' : path ≠ [])
    (between : ∀ r ∈ path, r.Between source dest) (h : Lone source dest p) (frag : p.IsFragment) :
    carry path p = [] := by
  obtain ⟨r, path, rfl⟩ := List.exists_cons_of_ne_nil some'
  rw [carry, passes_of_isFragment h (between r List.mem_cons_self) frag, List.flatMap_nil]

end Path

section BetweenNodes

variable {a b : NodeEnv} (distinct : a.myMac ≠ b.myMac) (shared : a.baseKey = b.baseKey)
  {message : Str} (pos : 1 ≤ message.length) (short : message.length ≤ 463) (clock : Clock)
  (s : NodeState a)

include shared pos short in
/-- A message of at most 463 bytes takes one packet, and the addressee can decrypt it. -/
theorem exists_lone :
    ∃ packet, (prepareMessage b.myMac message clock).value s = some [packet] ∧
      Lone a.myMac b.myMac packet ∧ packet.header.ttl = 64 ∧
      (packet.IsFragment ↔ (1 : UInt8) < (generateIv clock.steady).get 3) ∧
      decryptPayload packet.body 1024 (b.cipher a.myMac) = .ok message := by
  obtain ⟨packet, sent⟩ := exists_packet short b.myMac clock s
  obtain ⟨src, dst, data, frag, long, small, whole⟩ := exists_single sent
  obtain ⟨encrypted, made, some', only⟩ := exists_encrypted sent
  obtain ⟨-, len, -, back⟩ := facts_of_encryptPayload made some'
  have one : encrypted.length ≤ maxFragPayload := by
    rw [len, paddedLength, maxFragPayload]
    omega
  set m := sendingOf s b.myMac encrypted
  rw [Sending.packets, FragmentManager.fragmentMessage, if_pos (show m.data.length ≤ _ from one)] at only
  obtain rfl : (Packet.init m.type m.src m.dst m.seqNum).fill m.data = packet :=
    List.singleton_inj.1 only
  refine ⟨_, sent, ⟨src, dst, data, long, small, whole⟩, rfl, frag, ?_⟩
  rw [Packet.body_fill _ _ (show m.data.length ≤ 512 from one.trans (by decide)), ← cipher_comm shared]
  exact back 1024 (by omega)

include distinct shared pos short in
/-- A message of at most 463 bytes comes through a path of up to 63 relays, each with a route to the
addressee, exactly when the fourth byte of its initialization vector is 0 or 1 and at every relay what
it decrypts with a key of its own happens to look padded. -/
theorem comes_through_iff {path : List Relay} (some' : path ≠ []) (fits : path.length ≤ 63)
    (between : ∀ r ∈ path, r.Between a.myMac b.myMac) :
    ∃ packet, (prepareMessage b.myMac message clock).value s = some [packet] ∧
      ∀ (t : NodeState b) (now : Clock),
        (∃ p ∈ carry path packet,
            (macToString a.myMac, message) ∈ messages ((handlePacket p now).trace t)) ↔
          (generateIv clock.steady).get 3 ≤ 1 ∧ ∀ r ∈ path, LooksPadded (r.env.opened packet) := by
  obtain ⟨packet, sent, lone, ttl, frag, dec⟩ := exists_lone shared pos short clock s
  refine ⟨packet, sent, fun t now => ?_⟩
  by_cases fourth : (1 : UInt8) < (generateIv clock.steady).get 3
  · rw [carry_of_isFragment some' between lone (frag.2 fourth)]
    exact iff_of_false (fun ⟨p, mem, _⟩ => absurd mem List.not_mem_nil)
      fun h => UInt8.not_le.2 fourth h.1
  · have single : ¬ packet.IsFragment := fun h => fourth (frag.1 h)
    have alive : path.length < packet.header.ttl.toNat := by
      rw [ttl]
      exact Nat.lt_succ_of_le fits
    obtain ⟨copies, through⟩ := carry_of_single distinct between lone single alive
    rw [and_iff_right (UInt8.not_lt.1 fourth), ← through]
    constructor
    · rintro ⟨p, mem, -⟩ nothing
      rw [nothing] at mem
      exact absurd mem List.not_mem_nil
    · intro something
      obtain ⟨p, mem⟩ := List.exists_mem_of_ne_nil _ something
      obtain ⟨ttl', rfl⟩ := copies p mem
      have other : (packet.withTtl ttl').header.source ≠ b.myMac := lone.src.trans_ne distinct
      have dec' : decryptPayload (packet.withTtl ttl').body 1024
          (b.cipher (packet.withTtl ttl').header.source) = .ok message := by
        rw [show (packet.withTtl ttl').header.source = a.myMac from lone.src]
        exact dec
      refine ⟨_, mem, ?_⟩
      rw [messages_handlePacket_of_single other lone.data lone.dst single dec'
        (List.ne_nil_of_length_pos pos), List.mem_singleton,
        show (packet.withTtl ttl').header.source = a.myMac from lone.src]

end BetweenNodes

/-- Two bytes, through the node that knows the way. -/
theorem comes_through_iff_hi :
    ∃ packet, (prepareMessage receiverEnv.myMac (text "hi") ⟨0, 0⟩).value
        (NodeState.start senderEnv none) = some [packet] ∧
      ∀ (t : NodeState receiverEnv) (now : Clock),
        (∃ p ∈ carry [⟨relayEnv, knowsTheWay, ⟨0, 0⟩⟩] packet,
            (macToString senderEnv.myMac, text "hi") ∈ messages ((handlePacket p now).trace t)) ↔
          (generateIv 0).get 3 ≤ 1 ∧
            ∀ r ∈ [(⟨relayEnv, knowsTheWay, ⟨0, 0⟩⟩ : Relay)], LooksPadded (r.env.opened packet) := by
  have distinct : senderEnv.myMac ≠ receiverEnv.myMac := by decide
  have pos : 1 ≤ (text "hi").length := by decide
  have short : (text "hi").length ≤ 463 := by decide
  have route : (knowsTheWay.table.findNextHop receiverEnv.myMac 0).isSome := by
    simp [knowsTheWay, RoutingTable.findNextHop, RoutingTable.addRoute, RoutingTable.isStale]
  have between : ∀ r ∈ [(⟨relayEnv, knowsTheWay, ⟨0, 0⟩⟩ : Relay)],
      r.Between senderEnv.myMac receiverEnv.myMac := by
    intro r mem
    obtain rfl := List.mem_singleton.1 mem
    exact ⟨by decide, by decide, route⟩
  exact comes_through_iff distinct rfl pos short ⟨0, 0⟩ (NodeState.start senderEnv none)
    (List.cons_ne_nil _ _) (by decide) between

/-! ## What only its source sends -/

/-- A packet that looks like a fragment is one of the node's own. -/
def OwnFragment (m : Mac) (p : Packet) : Prop := p.IsFragment → p.header.source = m

section Node

variable {env : NodeEnv} {received : Packet} {clock : Clock}

theorem sends_ownFragment {es : List Effect} (own : ∀ e ∈ es, e.SentBy env.myMac) :
    ∀ e ∈ es, e.Sends (OwnFragment env.myMac) := by
  intro e mem
  have source := own e mem
  cases e with
  | send p link => exact fun _ => source
  | _ => trivial

/-- A fragment that is handled is never sent on, whomever it is for. -/
theorem sentBy_handleFragment (s : NodeState env) :
    ∀ e ∈ (handleFragment received clock).trace s, e.SentBy env.myMac := by
  have ack : Preserves (fun _ => True) (Effect.SentBy env.myMac)
      (sendAck received.header.source received.header.sequenceId : Action env Unit) :=
    .emit (show Effect.SentBy env.myMac (.send _ _) from rfl)
  have acks (d : List UInt8) : Preserves (fun _ => True) (Effect.SentBy env.myMac)
      (deliverReassembled received d : Action env Unit) :=
    preserves_deliverReassembled (fun _ _ => trivial) (fun _ => ack) d
  have all : Preserves (fun _ => True) (Effect.SentBy env.myMac)
      (handleFragment received clock : Action env Unit) :=
    .bind .get fun _ => .bind (.modify fun _ _ => trivial) fun _ =>
      .ite (preserves_decryptThen (fun _ _ _ => trivial) trivial trivial trivial acks) (.pure ())
  exact (all s trivial).2

theorem sends_handleSingle (single : ¬ received.IsFragment) (s : NodeState env) :
    ∀ e ∈ (handleSingle received clock).trace s, e.Sends (OwnFragment env.myMac) := by
  have relays (d : List UInt8) : Preserves (fun _ => True) (Effect.Sends (OwnFragment env.myMac))
      (deliverSingle received clock d : Action env Unit) :=
    preserves_deliverSingle (fun _ _ => trivial) (fun _ => .emit fun _ => rfl)
      (fun _ _ frag => absurd frag single) d
  have all : Preserves (fun _ => True) (Effect.Sends (OwnFragment env.myMac))
      (handleSingle received clock : Action env Unit) :=
    preserves_decryptThen (fun _ _ _ => trivial) trivial trivial trivial relays
  exact (all s trivial).2

theorem sends_handlePacket_ownFragment (received : Packet) (clock : Clock) (s : NodeState env) :
    ∀ e ∈ (handlePacket received clock).trace s, e.Sends (OwnFragment env.myMac) := by
  by_cases own : received.header.source = env.myMac
  · rw [handlePacket, if_pos own]
    exact fun e mem => absurd mem List.not_mem_nil
  have data (t : NodeState env) : ∀ e ∈ (handleData received clock).trace t,
      e.Sends (OwnFragment env.myMac) := by
    unfold handleData
    split_ifs with isData frag
    · exact sends_ownFragment (sentBy_handleFragment t)
    · exact sends_handleSingle frag t
    · exact fun e mem => absurd mem List.not_mem_nil
  intro e mem
  rw [trace_handlePacket own] at mem
  simp only [List.mem_append, List.mem_singleton] at mem
  obtain rfl | mem | mem | rfl := mem
  · trivial
  · exact sends_ownFragment (sentBy_handleControl received clock s trivial).2 e mem
  · exact data _ e mem
  · trivial

theorem length_unpadData_le (b : List UInt8) (maxOut : ℕ) :
    (unpadData b maxOut).length ≤ b.length - 1 := by
  unfold unpadData
  dsimp only
  split_ifs with bad refused large
  · exact Nat.zero_le _
  · exact Nat.zero_le _
  all_goals
    have pos : 0 < (b[b.length - 1]?.getD 0).toNat :=
      Nat.pos_of_ne_zero fun zero => refused (Or.inr (UInt8.toNat_inj.1 zero))
    rw [List.length_take]
    omega

theorem length_of_reported {p : Packet} {s : NodeState env} (single : ¬ p.IsFragment) {src msg : Str}
    (reported : (src, msg) ∈ messages ((handlePacket p clock).trace s)) : msg.length ≤ 495 := by
  obtain ⟨-, -, -, dec⟩ := exists_decrypted_of_reported single reported
  have small : p.body.length ≤ 512 := length_body p
  have fits : ¬ p.body.length - aesBlockSize > localBufferSize := by
    rw [aesBlockSize, localBufferSize]
    omega
  by_cases short : p.body.length < aesBlockSize + aesBlockSize
  · rw [decryptPayload, if_pos short] at dec
    rw [← Except.ok.inj dec]
    exact Nat.zero_le _
  · rw [decryptPayload, if_neg short] at dec
    dsimp only at dec
    rw [if_neg fits] at dec
    rw [← Except.ok.inj dec]
    refine (length_unpadData_le _ 1024).trans ?_
    rw [List.length_take, aesBlockSize]
    omega

theorem source_of_reported {p : Packet} {s : NodeState env} {src msg : Str}
    (reported : (src, msg) ∈ messages ((handlePacket p clock).trace s)) :
    src = macToString p.header.source := by
  have delivered : messages ((handlePacket p clock).trace s) =
      ((NodeStep.network (.packet p clock)).deliveries s).map fun d => (macToString d.1, d.2) :=
    messages_step (.network (.packet p clock)) s
  rw [delivered, List.mem_map] at reported
  obtain ⟨d, mem, same⟩ := reported
  obtain ⟨e, -, rfl⟩ := List.mem_map.1 mem
  exact (congrArg Prod.fst same).symm

end Node

namespace Mesh

variable {E : MeshEnv} {M : Mesh E}

/-- On the air. -/
def OwnFragments (M : Mesh E) : Prop := ∀ t ∈ M.air, OwnFragment t.transmitter t.packet

theorem ownFragments_put {m : Mac} {x : Site (E.env m)} {cause : Option Packet} {es : List Effect}
    (h : M.OwnFragments) (own : ∀ e ∈ es, e.Sends (OwnFragment m)) :
    (M.put m x (transmissions m cause es)).OwnFragments := by
  intro t mem
  rcases List.mem_append.1 mem with old | new
  · exact h t old
  · obtain ⟨call, mem', rfl⟩ := List.mem_map.1 new
    exact forall_mem_sendCalls own call mem'

theorem ownFragments_step (op : MeshStep) (traceable : M.Traceable) (h : M.OwnFragments) :
    (M.step op).OwnFragments := by
  cases op with
  | hello m =>
    have sent : Preserves (fun _ => True) (Effect.Sends (OwnFragment m))
        (sendHello : Action (E.env m) Unit) :=
      preserves_sendHello (fun _ _ _ => trivial) fun _ _ source _ => source
    exact ownFragments_put h (sent _ trivial).2
  | hear m i clock =>
    rw [step]
    cases M.air[i]? with
    | none => exact h
    | some t => exact ownFragments_put h (sends_handlePacket_ownFragment t.packet clock _)
  | retry m clock =>
    have sent : Preserves (fun _ => True) (Effect.Sends (OwnFragment m))
        (retryPass clock : Action (E.env m) Unit) :=
      preserves_retryPass (fun _ _ _ => trivial) fun _ => trivial
    exact ownFragments_put h (sent _ trivial).2
  | cleanup m clock =>
    have sent : Preserves (fun _ => True) (Effect.Sends (OwnFragment m))
        (cleanupTick clock : Action (E.env m) Unit) := preserves_cleanupTick fun _ _ _ _ => trivial
    exact ownFragments_put h (sent _ trivial).2
  | command m targetMac message clock =>
    have sent : Preserves (fun _ => True) (Effect.Sends (OwnFragment m))
        (SendPoint.start targetMac message clock : Action (E.env m) SendPoint) :=
      SendPoint.preserves_start trivial trivial targetMac message
    cases point : (M.sites m).main with
    | idle =>
      rw [step, point]
      exact ownFragments_put h (sent _ trivial).2
    | _ =>
      rw [step, point]
      exact h
  | advance m clock junk =>
    refine ownFragments_put h (SendPoint.preserves_advance (I := fun _ => True) _
      (fun _ _ _ _ _ _ _ _ => trivial) trivial trivial trivial ?_ _ trivial).2
    intro ackSeq destMac message fragments pkt rest next
    exact fun _ => ((traceable.prepared m).isMessage next).2.1

theorem ownFragments_after (queueFiles : Mac → Option (List UInt8)) (steps : List MeshStep) :
    ((start queueFiles : Mesh E).after steps).OwnFragments := by
  have both : ((start queueFiles : Mesh E).after steps).Traceable ∧
      ((start queueFiles : Mesh E).after steps).OwnFragments :=
    after_induction (P := fun M => M.Traceable ∧ M.OwnFragments)
      ⟨traceable_start queueFiles, fun t mem => absurd mem List.not_mem_nil⟩
      (fun _ op h => ⟨traceable_step op h.1, ownFragments_step op h.1 h.2⟩) steps
  exact both.2

/-- Long messages are not relayed. In every run of the mesh, a message of more than 495 bytes is
reported only by nodes that hear its source itself: whatever state the node is in, a text that it
reports when it handles a transmission is of at most 495 bytes, or is reported as from the node that
transmitted. -/
theorem long_from_transmitter (queueFiles : Mac → Option (List UInt8)) (steps : List MeshStep)
    (t : Transmission) (heard : t ∈ ((start queueFiles : Mesh E).after steps).air) (m : Mac)
    (clock : Clock) (s : NodeState (E.env m)) (src msg : Str)
    (reported : (src, msg) ∈ messages ((handlePacket t.packet clock).trace s)) :
    msg.length ≤ 495 ∨ src = macToString t.transmitter := by
  by_cases frag : t.packet.IsFragment
  · have own := ownFragments_after queueFiles steps t heard frag
    have source := source_of_reported reported
    exact Or.inr (own ▸ source)
  · exact Or.inl (length_of_reported frag reported)

/-- A message of 500 bytes, reported when the second of its two packets is handled. -/
theorem long_from_transmitter_longText :
    ∃ (steps : List MeshStep) (t : Transmission),
      t ∈ ((start fun _ => none : Mesh smallMesh).after steps).air ∧
        (macToString firstMac, longText) ∈ messages ((handlePacket t.packet atNoon).trace
          (((start fun _ => none : Mesh smallMesh).after steps).sites secondMac).state) ∧
        (longText.length ≤ 495 ∨ macToString firstMac = macToString t.transmitter) := by
  have size := length_longText
  -- only the length matters from here on
  generalize longText = message at size ⊢
  set x := introduced.sites firstMac
  obtain ⟨p, q, made, -, -⟩ := exists_twoPackets (by omega : 464 ≤ message.length) (by omega)
    (smallMesh.env secondMac).myMac atNoon x.state
  obtain ⟨packets, made', -, arrive⟩ :=
    exists_sent distinct_macs rfl (by omega : 1 ≤ message.length) (by omega) atNoon x.state
  obtain rfl : [p, q] = packets := Option.some.inj (made.symm.trans made')
  obtain ⟨y, sent, -⟩ :=
    after_send_introduced (List.ne_nil_of_length_pos (by omega)) made (show _ = 2 from rfl)
  set N := introduced.put firstMac y
    [⟨firstMac, p, secondMac, none⟩, ⟨firstMac, q, secondMac, none⟩]
  have site : N.sites secondMac = introduced.sites secondMac := sites_put_of_ne (by decide)
  set sends := sendSteps firstMac secondMac message atNoon 2
  set t : Transmission := ⟨firstMac, q, secondMac, none⟩
  have reached : (start fun _ => none : Mesh smallMesh).after
      ([.hello secondMac, .hear firstMac 0 atNoon] ++ (sends ++ [.hear secondMac 2 atNoon])) =
        N.step (.hear secondMac 2 atNoon) := by
    rw [after_append, after_append]
    show (introduced.after sends).after _ = _
    rw [sent]
    rfl
  have state : ((N.step (.hear secondMac 2 atNoon)).sites secondMac).state =
      (handlePacket p atNoon).post (introduced.sites secondMac).state := by
    rw [state_hear (show N.air[2]? = some ⟨firstMac, p, secondMac, none⟩ from rfl), site]
  have heard : t ∈ (N.step (.hear secondMac 2 atNoon)).air :=
    List.mem_append_left _ (List.mem_append_right _ (by simp [t]))
  have fresh : (introduced.sites secondMac).state.fragMgr.partials = ∅ := rfl
  have outcome := arrive (introduced.sites secondMac).state [(p, atNoon), (q, atNoon)]
    (List.Perm.refl _) fun _ _ _ => by rw [fresh, Std.ExtTreeMap.getElem?_empty]
  have several : Recognized message atNoon := Or.inl (by omega)
  rw [if_pos several] at outcome
  obtain ⟨pre, last, split, -, delivered⟩ := outcome
  obtain ⟨first, second⟩ : [(p, atNoon)] = pre ∧ [(q, atNoon)] = [last] :=
    List.append_inj' split rfl
  obtain rfl := List.singleton_inj.1 second
  have reported : (macToString firstMac, message) ∈ messages ((handlePacket t.packet atNoon).trace
      ((N.step (.hear secondMac 2 atNoon)).sites secondMac).state) := by
    rw [state]
    rw [← first] at delivered
    exact delivered ▸ List.mem_singleton_self _
  rw [← reached] at heard reported
  exact ⟨_, t, heard, reported, long_from_transmitter (fun _ => none) _ t heard secondMac atNoon _ _ _
    reported⟩

end Mesh

end Araba
