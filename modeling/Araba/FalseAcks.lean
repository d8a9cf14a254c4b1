import Araba.Mesh

/-!
# False acknowledgements

An ACK names a packet by its sequence number, and a pending message is kept under a number of
another counter; neither the sender nor the addressee of an ACK is compared with anything. When an
ACK stands for the message that it takes off the list.
-/

namespace Araba

open Bytes Traced

/-- The packet, but for its time to live. -/
def Packet.CopyOf (q p : Packet) : Prop := ∃ ttl, q = p.withTtl ttl

/-! ## What a node does to the pending messages -/

/-- The packets noted for the pending messages go to their destinations. -/
def Recorded {env : NodeEnv} (registered : UInt32 → List Packet) (s : NodeState env) : Prop :=
  ∀ (key : UInt32) (pa : PendingAck), s.pendingAcks[key]? = some pa →
    ∀ p ∈ registered key, p.header.dest = pa.destMac

section Node

variable {env : NodeEnv} {registered : UInt32 → List Packet} {s : NodeState env} {clock : Clock}

theorem Recorded.congr {s' : NodeState env} (same : s'.pendingAcks = s.pendingAcks)
    (h : Recorded registered s) : Recorded registered s' := by
  rw [Recorded, same]
  exact h

theorem Recorded.handlePacket {p : Packet} (h : Recorded registered s)
    (other : p.header.source ≠ env.myMac) : Recorded registered ((handlePacket p clock).post s) := by
  intro key pa found
  rw [pendingAcks_handlePacket clock s other] at found
  split_ifs at found with erased
  exact h key pa found

theorem Recorded.insert {key : UInt32} {pa : PendingAck} (h : Recorded registered s)
    (mine : ∀ p ∈ registered key, p.header.dest = pa.destMac) :
    Recorded registered { s with pendingAcks := s.pendingAcks.insert key pa } := by
  intro key' pa' found
  rw [Std.ExtTreeMap.getElem?_insert] at found
  split_ifs at found with same
  · obtain rfl := Std.LawfulEqCmp.eq_of_compare same
    rw [← Option.some.inj found]
    exact mine
  · exact h key' pa' found

theorem Recorded.erase (h : Recorded registered s) (key : UInt32) :
    Recorded registered { s with pendingAcks := s.pendingAcks.erase key } := by
  intro key' pa' found
  rw [Std.ExtTreeMap.getElem?_erase] at found
  split_ifs at found
  exact h key' pa' found

theorem Recorded.retryPass (h : Recorded registered s) :
    Recorded registered ((retryPass clock).post s) := by
  have one (key : UInt32) : Preserves (Recorded registered) (fun _ => True)
      (retryOne clock.steady key : Action env Unit) := by
    intro s hs
    refine ⟨?_, fun _ _ => trivial⟩
    cases entry : s.pendingAcks[key]? with
    | none =>
      have idle : (retryOne clock.steady key : Action env Unit).post s = s := by
        rw [retryOne, post_bind, value_get, entry]
        rfl
      rwa [idle]
    | some pa =>
      rw [retryOne, post_bind, value_get, entry]
      show Recorded registered (Traced.post (if _ then (if _ then _ else _) else _) s)
      rw [post_ite, post_ite]
      split_ifs
      · exact hs.erase key
      · exact hs.insert fun p hp => hs key pa entry p hp
      · exact hs
  have all : Preserves (Recorded registered) (fun _ => True)
      (Araba.retryPass clock : Action env Unit) := by
    refine .bind .get fun s => .runAll fun m hm => ?_
    obtain ⟨key, -, rfl⟩ := List.mem_map.1 hm
    exact one key
  exact (all s h).1

theorem Recorded.advance {point : SendPoint} {junk : UInt32} (prepared : point.Prepared env)
    (h : Recorded registered s) :
    Recorded (point.noteRegistered registered) ((point.advance clock junk).post s) := by
  cases point with
  | idle => exact h
  | checked reachable destMac message => exact h
  | keyed reachable destMac message =>
    rw [SendPoint.post_advance_keyed]
    exact h.congr (leaves_encryptWithCipher (f := NodeState.pendingAcks) (fun _ _ _ => rfl) s)
  | prepared destMac message fragments => exact h
  | transmitting ackSeq destMac message fragments rest =>
    cases rest with
    | nil =>
      intro key pa found
      have entry : (s.pendingAcks.insert ackSeq ⟨destMac, 0, clock.steady, message, ackSeq⟩)[key]? =
          some pa := found
      rw [Std.ExtTreeMap.getElem?_insert] at entry
      show ∀ p ∈ Function.update registered ackSeq fragments key, _
      split_ifs at entry with same
      · obtain rfl := Std.LawfulEqCmp.eq_of_compare same
        rw [Function.update_self, ← Option.some.inj entry]
        exact fun p hp => (prepared.1 p hp).2.2
      · have other : key ≠ ackSeq := fun e => same (e ▸ Std.ReflCmp.compare_self)
        rw [Function.update_of_ne other]
        exact h key pa entry
    | cons pkt rest => exact h
  | enqueuing destMac rest => cases rest <;> exact h

end Node

/-! ## The mesh -/

namespace Mesh

variable {E : MeshEnv} {M : Mesh E}

/-- What is noted of the pending messages of all nodes is right. -/
def WellRecorded (M : Mesh E) : Prop := ∀ m, Recorded (M.sites m).registered (M.sites m).state

theorem wellRecorded_put {m : Mac} {x : Site (E.env m)} {ts : List Transmission}
    (h : M.WellRecorded) (one : Recorded x.registered x.state) : (M.put m x ts).WellRecorded :=
  forall_sites_put (P := fun _ x => Recorded x.registered x.state) h one

theorem wellRecorded_step (op : MeshStep) (traceable : M.Traceable) (h : M.WellRecorded) :
    (M.step op).WellRecorded := by
  cases op with
  | hello m => exact wellRecorded_put h (h m)
  | hear m i clock =>
    cases got : M.air[i]? with
    | none =>
      rw [step, got]
      exact h
    | some t =>
      rw [step, got]
      refine wellRecorded_put h ?_
      by_cases own : t.packet.header.source = m
      · have nothing : (handlePacket t.packet clock : Action (E.env m) Unit) = pure () := if_pos own
        rw [nothing]
        exact h m
      · exact (h m).handlePacket own
  | retry m clock => exact wellRecorded_put h (h m).retryPass
  | cleanup m clock =>
    have leaves : Leaves NodeState.pendingAcks (cleanupTick clock : Action (E.env m) Unit) :=
      leaves_cleanupTick fun _ _ _ => rfl
    exact wellRecorded_put h ((h m).congr (leaves (M.sites m).state))
  | command m targetMac message clock =>
    cases point : (M.sites m).main with
    | idle =>
      have leaves : Leaves NodeState.pendingAcks
          (SendPoint.start targetMac message clock : Action (E.env m) SendPoint) :=
        SendPoint.leaves_start _ targetMac message
      rw [step, point]
      refine wellRecorded_put h (Recorded.congr (leaves (M.sites m).state) ?_)
      rw [point]
      exact h m
    | _ =>
      rw [step, point]
      exact h
  | advance m clock junk =>
    exact wellRecorded_put h ((h m).advance (traceable.prepared m))

theorem wellRecorded_start (queueFiles : Mac → Option (List UInt8)) :
    (start queueFiles : Mesh E).WellRecorded := by
  intro m key pa found
  have none' : ((start queueFiles : Mesh E).sites m).state.pendingAcks[key]? = none := rfl
  rw [none'] at found
  cases found

theorem Accounted.ack {t : Transmission} (h : M.Accounted t) (ack : t.packet.header.type = .ack) :
    ∃ t' ∈ M.air, t.cause = some t'.packet ∧ t'.packet.header.type = .data ∧
      t'.packet.header.dest = t.packet.header.source ∧
      t.packet.header.dest = t'.packet.header.source ∧
      ∀ key, t.packet.Acks key → t'.packet.header.sequenceId = key := by
  cases h with
  | own type source =>
    rw [ack] at type
    exact absurd type (by decide)
  | heard t' mem cause other known neighbors emission =>
    refine ⟨t', mem, cause, ?_⟩
    generalize t.packet = p at ack emission ⊢
    cases emission with
    | queued data own =>
      rw [ack] at data
      exact absurd data (by decide)
    | advert seqNum =>
      have ack' : PacketType.routeAdv = .ack := ack
      exact absurd ack' (by decide)
    | relayed data =>
      have ack' : t'.packet.header.type = .ack := ack
      rw [data] at ack'
      exact absurd ack' (by decide)
    | ack data mine => exact ⟨data, mine, rfl, fun key acks => (acks_ackFor_iff _ key).1 acks⟩

/-! ## The ACKs that a node handles -/

/-- An ACK for `key` is heard by `m`, at which a message is pending under the key. -/
structure Erases (M : Mesh E) (m : Mac) (t : Transmission) (key : UInt32) (pa : PendingAck) : Prop where
  other : t.packet.header.source ≠ m
  acks : t.packet.Acks key
  pending : (M.sites m).state.pendingAcks[key]? = some pa

/-- The ACK is addressed to the node, and what the node has sent to the sender of the ACK under the
ACK's number belongs to the message that is registered under it. -/
def Unambiguous (M : Mesh E) (m : Mac) (ack : Packet) : Prop :=
  ack.header.dest = m ∧
    ∀ t ∈ M.air, t.packet.header.type = .data → t.packet.header.source = m →
      t.packet.header.dest = ack.header.source → t.packet.header.sequenceId = ack.ackedSeq →
        ∃ p ∈ (M.sites m).registered ack.ackedSeq, t.packet.CopyOf p

/-- If the step handles an ACK that erases an entry, the ACK is unambiguous. -/
def Careful (M : Mesh E) : MeshStep → Prop
  | .hear m i _ => ∀ t key pa, M.air[i]? = some t → M.Erases m t key pa → M.Unambiguous m t.packet
  | _ => True

/-- If the step handles an ACK that erases an entry, the ACK comes from the destination of the entry
and was sent for a packet of its message. -/
def RightlyErased (M : Mesh E) : MeshStep → Prop
  | .hear m i clock => ∀ t key pa, M.air[i]? = some t → (M.sites m).state.pendingAcks[key]? = some pa →
      ((M.step (.hear m i clock)).sites m).state.pendingAcks[key]? = none →
        t.packet.header.source = pa.destMac ∧
          ∃ q, t.cause = some q ∧ ∃ p ∈ (M.sites m).registered key, q.CopyOf p
  | _ => True

theorem state_hear {m : Mac} {i : ℕ} {clock : Clock} {t : Transmission} (got : M.air[i]? = some t) :
    ((M.step (.hear m i clock)).sites m).state =
      (handlePacket t.packet clock).post (M.sites m).state := by
  rw [step, got]
  exact congrArg Site.state sites_put_self

theorem sites_hear_of_ne {m n : Mac} {i : ℕ} {clock : Clock} (h : n ≠ m) :
    (M.step (.hear m i clock)).sites n = M.sites n := by
  rw [step]
  cases M.air[i]? with
  | none => rfl
  | some t => exact sites_put_of_ne h

theorem erases_of_gone {m : Mac} {i : ℕ} {clock : Clock} {t : Transmission} {key : UInt32}
    {pa : PendingAck} (got : M.air[i]? = some t)
    (pending : (M.sites m).state.pendingAcks[key]? = some pa)
    (gone : ((M.step (.hear m i clock)).sites m).state.pendingAcks[key]? = none) :
    M.Erases m t key pa := by
  rw [state_hear got] at gone
  by_cases own : t.packet.header.source = m
  · have nothing : (handlePacket t.packet clock : Action (E.env m) Unit) = pure () := if_pos own
    rw [nothing, post_pure, pending] at gone
    cases gone
  · rw [pendingAcks_handlePacket clock _ own] at gone
    split_ifs at gone with acks
    · exact ⟨own, acks, pending⟩
    · rw [pending] at gone
      cases gone

theorem rightlyErased_of_careful {op : MeshStep} (traceable : M.Traceable)
    (recorded : M.WellRecorded) (careful : M.Careful op) : M.RightlyErased op := by
  cases op with
  | hear m i clock =>
    intro t key pa got pending gone
    have erases := erases_of_gone got pending gone
    obtain ⟨toMe, mine⟩ := careful t key pa got erases
    obtain ⟨t', mem, cause, data, dest, source, number⟩ :=
      (traceable.accounted t (List.mem_of_getElem? got)).ack erases.acks.1
    have key_eq : t.packet.ackedSeq = key := erases.acks.2.2
    obtain ⟨p, hp, ttl, copy⟩ := mine t' mem data (source.symm.trans toMe) dest
      ((number key erases.acks).trans key_eq.symm)
    rw [key_eq] at hp
    have same : t'.packet.header.dest = p.header.dest := by
      rw [copy]
      rfl
    refine ⟨?_, t'.packet, cause, p, hp, ttl, copy⟩
    rw [← dest, same]
    exact recorded m key pa pending p hp
  | _ => trivial

/-- Every step of the run, with the mesh that it is taken in, has the property. -/
def Throughout (P : Mesh E → MeshStep → Prop) : Mesh E → List MeshStep → Prop
  | _, [] => True
  | M, op :: steps => P M op ∧ Throughout P (M.step op) steps

theorem throughout_append {P : Mesh E → MeshStep → Prop} (steps steps' : List MeshStep) :
    Throughout P M (steps ++ steps') ↔ Throughout P M steps ∧ Throughout P (M.after steps) steps' := by
  induction steps generalizing M with
  | nil =>
    rw [List.nil_append, Throughout, true_and]
    rfl
  | cons op steps ih =>
    rw [List.cons_append, Throughout, Throughout, ih, and_assoc]
    rfl

theorem careful_of_none {m : Mac} {i : ℕ} {clock : Clock}
    (none' : ∀ key : UInt32, (M.sites m).state.pendingAcks[key]? = none) :
    M.Careful (.hear m i clock) := by
  intro t key pa _ erases
  have pending := erases.pending
  rw [none' key] at pending
  cases pending

theorem exists_ack_on_air {m : Mac} {i : ℕ} {clock : Clock} {t : Transmission} {ack : Packet}
    {link : Mac} (got : M.air[i]? = some t)
    (answer : acks ((handlePacket t.packet clock).trace (M.sites m).state) = [(ack, link)]) :
    ∃ k : ℕ, (M.step (.hear m i clock)).air[k]? =
      some { transmitter := m, packet := ack, link := link, cause := some t.packet } := by
  apply List.getElem?_of_mem
  rw [step, got]
  refine List.mem_append_right _ (List.mem_map.2 ⟨(ack, link), ?_, rfl⟩)
  have only : (ack, link) ∈ acks ((handlePacket t.packet clock).trace (M.sites m).state) :=
    answer ▸ List.mem_singleton_self _
  obtain ⟨e, he, isAck⟩ := List.mem_filterMap.1 only
  refine List.mem_filterMap.2 ⟨e, he, ?_⟩
  cases e with
  | send packet link' =>
    by_cases type : packet.header.type = .ack
    · exact (if_pos type).symm.trans isAck
    · exact absurd ((if_neg type).symm.trans isAck) (Option.some_ne_none _).symm
  | _ => cases isAck

/-- A node that others send to stays as it is while one of them answers. -/
theorem exists_ack_heard {m n : Mac} (far : n ≠ m) {y : Site (E.env m)} {ts : List Transmission}
    {i : ℕ} {clock : Clock} {t : Transmission} {ack : Packet} {link : Mac}
    (got : (M.put m y ts).air[i]? = some t)
    (answer : acks ((handlePacket t.packet clock).trace (M.sites n).state) = [(ack, link)]) :
    ∃ k : ℕ, ((M.put m y ts).step (.hear n i clock)).air[k]? =
        some { transmitter := n, packet := ack, link := link, cause := some t.packet } ∧
      ((M.put m y ts).step (.hear n i clock)).sites m = y := by
  rw [← sites_put_of_ne far] at answer
  obtain ⟨k, heard⟩ := exists_ack_on_air got answer
  exact ⟨k, heard, (sites_hear_of_ne far.symm).trans sites_put_self⟩

/-- One node has heard the other. -/
def introduced : Mesh smallMesh :=
  (start fun _ => none).after [.hello secondMac, .hear firstMac 0 atNoon]

theorem distinct_macs : (smallMesh.env firstMac).myMac ≠ (smallMesh.env secondMac).myMac := by decide

theorem near_introduced : macToString secondMac ∈ (introduced.sites firstMac).state.knownNeighbors :=
  rfl

/-- The first node sends a message to the second one. -/
theorem after_send_introduced {message : Str} {packets : List Packet} {count : ℕ}
    (some' : message ≠ [])
    (made : (prepareMessage secondMac message atNoon).value (introduced.sites firstMac).state =
      some packets) (counted : packets.length = count) :
    ∃ y : Site (smallMesh.env firstMac),
      introduced.after (sendSteps firstMac secondMac message atNoon count) =
        introduced.put firstMac y (packets.map fun p => ⟨firstMac, p, secondMac, none⟩) ∧
      y.state.pendingAcks = (introduced.sites firstMac).state.pendingAcks.insert 1
        ⟨secondMac, 0, atNoon.steady, message, 1⟩ ∧
      y.registered = Function.update (introduced.sites firstMac).registered 1 packets := by
  obtain ⟨y, run, -, -, -, -, pending, registered⟩ :=
    after_sendSteps (M := introduced) (d := secondMac) [] rfl near_introduced some' made counted
  rw [put_self, List.nil_append] at run
  exact ⟨y, run, pending, registered⟩

theorem types_introduced :
    introduced.air.map (fun t => t.packet.header.type) = [.discovery, .routeAdv] :=
  rfl

/-- An answer is unambiguous when the packet that it answers is registered under its number and is,
but for copies of it, the only one of the node with that number. -/
theorem unambiguous_ackFor {m n : Mac} {p : Packet} (source : p.header.source = m)
    (registered : p ∈ (M.sites m).registered (ackFor (E.env n) p).ackedSeq)
    (only : ∀ t ∈ M.air, t.packet.header.type = .data → t.packet.header.source = m →
      t.packet.CopyOf p) : M.Unambiguous m (ackFor (E.env n) p) :=
  ⟨source, fun t ht data source' _ _ => ⟨p, registered, only t ht data source'⟩⟩

theorem copyOf_of_answer {m n : Mac} {p : Packet} {clock : Clock} {s : NodeState (E.env n)}
    (other : p.header.source ≠ n) {t : Transmission}
    (ht : t ∈ transmissions n (some p) ((handlePacket p clock).trace s))
    (data : t.packet.header.type = .data) (source : t.packet.header.source = m) (far : m ≠ n) :
    t.packet.CopyOf p := by
  obtain ⟨call, hcall, rfl⟩ := List.mem_map.1 ht
  have emission := forall_mem_sendCalls (emissions_handlePacket p clock s other) call hcall
  obtain ⟨packet, link⟩ := call
  cases emission with
  | queued data own => exact absurd (source.symm.trans own) far
  | advert seqNum =>
    have data' : PacketType.routeAdv = .data := data
    exact absurd data' (by decide)
  | relayed data => exact ⟨_, rfl⟩
  | ack data' mine =>
    have data'' : PacketType.ack = .data := data
    exact absurd data'' (by decide)

theorem throughout_rightlyErased (steps : List MeshStep) {M : Mesh E} (traceable : M.Traceable)
    (recorded : M.WellRecorded) (careful : Throughout Careful M steps) :
    Throughout RightlyErased M steps := by
  induction steps generalizing M with
  | nil => trivial
  | cons op steps ih =>
    exact ⟨rightlyErased_of_careful traceable recorded careful.1,
      ih (traceable_step op traceable) (wellRecorded_step op traceable recorded) careful.2⟩

/-- In every run in which the ACKs that erase entries are unambiguous, every one of them comes from the
destination of the entry that it erases and was sent for a packet of its message. -/
theorem noFalseAck_of_careful (queueFiles : Mac → Option (List UInt8)) (steps : List MeshStep)
    (careful : Throughout Careful (start queueFiles : Mesh E) steps) :
    Throughout RightlyErased (start queueFiles : Mesh E) steps :=
  throughout_rightlyErased steps (traceable_start queueFiles) (wellRecorded_start queueFiles) careful

/-- The ACK for the first message of the node. -/
theorem noFalseAck_of_careful_hi :
    ∃ (steps : List MeshStep) (k : ℕ) (t : Transmission) (pa : PendingAck),
      ((start fun _ => none : Mesh smallMesh).after steps).air[k]? = some t ∧
        ((start fun _ => none : Mesh smallMesh).after steps).Erases firstMac t 1 pa ∧
        Throughout RightlyErased (start fun _ => none : Mesh smallMesh)
          (steps ++ [.hear firstMac k atNoon]) := by
  set x := introduced.sites firstMac
  obtain ⟨p, made, number, answered⟩ :=
    exists_answered (a := smallMesh.env firstMac) (b := smallMesh.env secondMac) distinct_macs rfl
      (show 1 ≤ (text "hi").length by decide) atNoon x.state (by decide) (by decide)
  have source := (SendPoint.isMessage_of_prepared made p (List.mem_singleton_self p)).2.1
  obtain ⟨y, sent, pending, registered⟩ :=
    after_send_introduced (show text "hi" ≠ [] by decide) made (show _ = 1 from rfl)
  set N := introduced.put firstMac y [⟨firstMac, p, secondMac, none⟩]
  have site : N.sites secondMac = introduced.sites secondMac := sites_put_of_ne (by decide)
  have got : N.air[2]? = some ⟨firstMac, p, secondMac, none⟩ := rfl
  obtain ⟨k, heard, here⟩ :=
    exists_ack_heard (by decide) got (answered (introduced.sites secondMac).state atNoon rfl).2
  set greetings : List MeshStep := [.hello secondMac, .hear firstMac 0 atNoon]
  set sends := sendSteps firstMac secondMac (text "hi") atNoon 1
  replace sent : introduced.after sends = N := sent
  have reached : (start fun _ => none : Mesh smallMesh).after
      (greetings ++ (sends ++ [.hear secondMac 2 atNoon])) = N.step (.hear secondMac 2 atNoon) := by
    rw [after_append, after_append]
    show (introduced.after sends).after _ = _
    rw [sent]
    rfl
  have acks : (ackFor (smallMesh.env secondMac) p).Acks 1 := (acks_ackFor_iff p 1).2 number
  have entry : y.state.pendingAcks[(1 : UInt32)]? = some ⟨secondMac, 0, 0, text "hi", 1⟩ := by
    rw [pending]
    exact Std.ExtTreeMap.getElem?_insert_self
  refine ⟨greetings ++ (sends ++ [.hear secondMac 2 atNoon]), k, _,
    ⟨secondMac, 0, 0, text "hi", 1⟩, reached ▸ heard, ?_, noFalseAck_of_careful (fun _ => none) _ ?_⟩
  · rw [reached]
    exact ⟨distinct_macs.symm, acks, by rw [here]; exact entry⟩
  · rw [throughout_append, reached, throughout_append, throughout_append]
    refine ⟨⟨⟨trivial, careful_of_none fun _ => rfl, trivial⟩,
      ⟨trivial, trivial, trivial, trivial, trivial, trivial, trivial⟩, ?_, trivial⟩, ?_, trivial⟩
    · show ((introduced.after sends).Careful _)
      rw [sent]
      exact careful_of_none fun _ => by rw [site]; rfl
    · intro t key pa got' _
      obtain rfl := Option.some.inj (heard.symm.trans got')
      refine unambiguous_ackFor source ?_ fun t ht data src => ?_
      · rw [here, registered, acks.2.2]
        exact List.mem_singleton_self p
      · rcases List.mem_append.1 ht with before | after
        · rcases List.mem_append.1 before with early | sent'
          · have type := List.mem_map_of_mem (f := fun t => t.packet.header.type) early
            rw [types_introduced, data] at type
            exact absurd type (by decide)
          · rw [List.mem_singleton.1 sent']
            exact ⟨p.header.ttl, rfl⟩
        · exact copyOf_of_answer (source ▸ distinct_macs) after data src distinct_macs

/-- After the node has broadcast once more, its messages have numbers that are one above their keys:
the ACK for the first of two messages takes the second one off the list. -/
theorem second_message_acknowledged :
    ∃ (steps : List MeshStep) (op : MeshStep),
      ¬ RightlyErased ((start fun _ => none : Mesh smallMesh).after steps) op := by
  set M := introduced.step (.hello firstMac) with M_def
  set x := M.sites firstMac with x_def
  have idle : x.main = .idle := rfl
  have near : macToString secondMac ∈ x.state.knownNeighbors := rfl
  obtain ⟨p, made, number, answered⟩ :=
    exists_answered (a := smallMesh.env firstMac) (b := smallMesh.env secondMac) distinct_macs rfl
      (show 1 ≤ (text "hi").length by decide) atNoon x.state (by decide) (by decide)
  obtain ⟨y, run, idle', known, seqNum, next, -, -⟩ :=
    after_sendSteps (M := M) (d := secondMac) [] idle near (show text "hi" ≠ [] by decide) made
      (show _ = 1 from rfl)
  obtain ⟨p', made', number', -⟩ :=
    exists_answered (a := smallMesh.env firstMac) (b := smallMesh.env secondMac) distinct_macs rfl
      (show 1 ≤ (text "ho").length by decide) atNoon y.state (by decide) (by decide)
  obtain ⟨z, run', -, -, -, -, pending, registered⟩ :=
    after_sendSteps (M := M) (d := secondMac) [⟨firstMac, p, secondMac, none⟩] idle'
      (known ▸ near) (show text "ho" ≠ [] by decide) made' (show _ = 1 from rfl)
  set N := M.put firstMac z [⟨firstMac, p, secondMac, none⟩, ⟨firstMac, p', secondMac, none⟩]
  -- the second node hears the first message and answers it
  have got : N.air[3]? = some ⟨firstMac, p, secondMac, none⟩ := rfl
  obtain ⟨k, heard, here⟩ :=
    exists_ack_heard (by decide) got (answered (M.sites secondMac).state atNoon rfl).2
  set steps : List MeshStep := [.hello secondMac, .hear firstMac 0 atNoon, .hello firstMac] ++
    (sendSteps firstMac secondMac (text "hi") atNoon 1 ++
      (sendSteps firstMac secondMac (text "ho") atNoon 1 ++ [.hear secondMac 3 atNoon]))
  have reached : (start fun _ => none : Mesh smallMesh).after steps =
      N.step (.hear secondMac 3 atNoon) := by
    rw [after_append, after_append, after_append]
    show ((M.after _).after _).after _ = _
    rw [← put_self M firstMac, run, List.nil_append, List.map_singleton, run', List.map_singleton]
    rfl
  refine ⟨steps, .hear firstMac k atNoon, fun right => ?_⟩
  rw [reached] at right
  have key : y.state.nextAckSeq = 2 := next
  have entry : z.state.pendingAcks[(2 : UInt32)]? =
      some ⟨secondMac, 0, atNoon.steady, text "ho", 2⟩ := by
    rw [pending, key, Std.ExtTreeMap.getElem?_insert_self]
  have gone : ((handlePacket (ackFor (smallMesh.env secondMac) p) atNoon).post
      z.state).pendingAcks[(2 : UInt32)]? = none := by
    have acks : (ackFor (smallMesh.env secondMac) p).Acks 2 := (acks_ackFor_iff p 2).2 number
    rw [pendingAcks_handlePacket atNoon z.state distinct_macs.symm, if_pos acks]
  obtain ⟨-, q, cause, p'', hp'', ttl, copy⟩ := right _ 2 _ heard (by rw [here]; exact entry)
    (by rw [state_hear heard, here]; exact gone)
  rw [here, registered, key, Function.update_self, List.mem_singleton] at hp''
  have same : p.header.sequenceId = p'.header.sequenceId := by
    have first : p = q := Option.some.inj cause
    rw [first, copy, hp'']
    rfl
  rw [number, number', seqNum] at same
  exact absurd same (by decide)

end Mesh

end Araba
