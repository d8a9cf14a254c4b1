import Araba.SendPoint
import Mathlib.Logic.Function.Basic

/-!
# The mesh

All the nodes, and the packets on the air. A node runs its network thread and the `send` command of
its main thread, section by section; a packet that was sent can be received by any node, any number
of times, late or never. There is one node for each MAC; the nodes that are not there are the ones
that take no steps.
-/

namespace Araba

open Traced

/-- The keys and the configurations of the nodes. -/
structure MeshEnv where
  baseKey : Mac → Key
  config : Mac → NodeConfig := fun _ => {}

/-- The node with a MAC. -/
def MeshEnv.env (E : MeshEnv) (m : Mac) : NodeEnv where
  myMac := m
  baseKey := E.baseKey m
  config := E.config m

/-! ## The nodes and the air -/

/-- A node with its two threads. `registered` is kept for the proofs only: the packets of the message
that was registered last under a key. -/
structure Site (env : NodeEnv) where
  state : NodeState env
  main : SendPoint := .idle
  registered : UInt32 → List Packet := fun _ => []

/-- A packet on the air. Who transmitted it and the packet that was being handled then are kept for
the proofs only. -/
structure Transmission where
  transmitter : Mac
  packet : Packet
  link : Mac
  cause : Option Packet

/-- The nodes, and all that has been transmitted so far. -/
structure Mesh (E : MeshEnv) where
  sites : (m : Mac) → Site (E.env m)
  air : List Transmission := []

/-- A step of one node. What it hears is named by its place in the air. -/
inductive MeshStep
  | hello (m : Mac)
  | hear (m : Mac) (i : ℕ) (clock : Clock)
  | retry (m : Mac) (clock : Clock)
  | cleanup (m : Mac) (clock : Clock)
  | command (m : Mac) (targetMac message : Str) (clock : Clock)
  | advance (m : Mac) (clock : Clock) (junk : UInt32)

/-- A mesh with one base key, and three of its nodes. -/
def smallMesh : MeshEnv where
  baseKey _ := Vector.replicate 32 0

/-- The first of three nodes. -/
def firstMac : Mac := sampleMac 1

/-- The second of them. -/
def secondMac : Mac := sampleMac 2

/-- The third of them. -/
def thirdMac : Mac := sampleMac 3

namespace Mesh

variable {E : MeshEnv}

/-- The nodes have just been started, each on its queue file. -/
def start (queueFiles : Mac → Option (List UInt8)) : Mesh E where
  sites m := { state := NodeState.start (E.env m) (queueFiles m) }

/-- What a node sends goes on the air. -/
def transmissions (m : Mac) (cause : Option Packet) (es : List Effect) : List Transmission :=
  (sendCalls es).map fun call => ⟨m, call.1, call.2, cause⟩

/-- One node changes, and something goes on the air. -/
def put (M : Mesh E) (m : Mac) (x : Site (E.env m)) (ts : List Transmission) : Mesh E where
  sites := Function.update M.sites m x
  air := M.air ++ ts

/-- The network thread of a node does something. -/
def network (M : Mesh E) (m : Mac) (cause : Option Packet) (a : Action (E.env m) Unit) : Mesh E :=
  let x := M.sites m
  M.put m { x with state := a.post x.state } (transmissions m cause (a.trace x.state))

/-- The main thread of a node runs a section. -/
def mainThread (M : Mesh E) (m : Mac) (a : Action (E.env m) SendPoint) : Mesh E :=
  let x := M.sites m
  M.put m
    { state := a.post x.state
      main := a.value x.state
      registered := x.main.noteRegistered x.registered }
    (transmissions m none (a.trace x.state))

/-- What a step does to the mesh. A packet that is not on the air is not heard, and a command waits for
the end of the one before. -/
def step (M : Mesh E) : MeshStep → Mesh E
  | .hello m => M.network m none sendHello
  | .hear m i clock =>
    match M.air[i]? with
    | none => M
    | some t => M.network m (some t.packet) (handlePacket t.packet clock)
  | .retry m clock => M.network m none (retryPass clock)
  | .cleanup m clock => M.network m none (cleanupTick clock)
  | .command m targetMac message clock =>
    match (M.sites m).main with
    | .idle => M.mainThread m (SendPoint.start targetMac message clock)
    | _ => M
  | .advance m clock junk => M.mainThread m ((M.sites m).main.advance clock junk)

/-- The mesh after the steps of a run. -/
def after (M : Mesh E) (steps : List MeshStep) : Mesh E := steps.foldl step M

variable {M : Mesh E} {m : Mac} {x : Site (E.env m)} {ts : List Transmission}

theorem after_cons (op : MeshStep) (steps : List MeshStep) :
    M.after (op :: steps) = (M.step op).after steps :=
  rfl

theorem after_append (steps steps' : List MeshStep) :
    M.after (steps ++ steps') = (M.after steps).after steps' :=
  List.foldl_append

@[simp] theorem sites_put_self : (M.put m x ts).sites m = x := by
  show Function.update M.sites m x m = x
  rw [Function.update_self]

theorem sites_put_of_ne {n : Mac} (h : n ≠ m) : (M.put m x ts).sites n = M.sites n := by
  show Function.update M.sites m x n = M.sites n
  rw [Function.update_of_ne h]

theorem put_self (M : Mesh E) (m : Mac) : M.put m (M.sites m) [] = M := by
  simp only [put, Function.update_eq_self, List.append_nil]

theorem put_put {y : Site (E.env m)} {us : List Transmission} :
    (M.put m x ts).put m y us = M.put m y (ts ++ us) := by
  simp only [put, Function.update_idem, List.append_assoc]

/-- What holds of all nodes holds when one of them has changed and it holds of that one. -/
theorem forall_sites_put {P : (n : Mac) → Site (E.env n) → Prop} (all : ∀ n, P n (M.sites n))
    (one : P m x) (n : Mac) : P n ((M.put m x ts).sites n) := by
  by_cases same : n = m
  · subst same
    rwa [sites_put_self]
  · rw [sites_put_of_ne same]
    exact all n

/-- What holds at the start and is kept by every step holds after every run. -/
theorem after_induction {P : Mesh E → Prop} {M : Mesh E} (start : P M)
    (keeps : ∀ M op, P M → P (M.step op)) (steps : List MeshStep) : P (M.after steps) := by
  induction steps generalizing M with
  | nil => exact start
  | cons op steps ih => exact ih (keeps M op start)

/-! ## Every node for itself -/

theorem exists_nodeSteps_put (one : ∃ steps, x.state = stateAfter (M.sites m).state steps) (n : Mac) :
    ∃ steps, ((M.put m x ts).sites n).state = stateAfter (M.sites n).state steps :=
  forall_sites_put (P := fun n y => ∃ steps, y.state = stateAfter (M.sites n).state steps)
    (fun _ => ⟨[], rfl⟩) one n

theorem exists_nodeSteps_step (op : MeshStep) (n : Mac) :
    ∃ steps, ((M.step op).sites n).state = stateAfter (M.sites n).state steps := by
  cases op with
  | hello m => exact exists_nodeSteps_put ⟨[.network .hello], rfl⟩ n
  | hear m i clock =>
    rw [step]
    cases M.air[i]? with
    | none => exact ⟨[], rfl⟩
    | some t => exact exists_nodeSteps_put ⟨[.network (.packet t.packet clock)], rfl⟩ n
  | retry m clock => exact exists_nodeSteps_put ⟨[.network (.retry clock)], rfl⟩ n
  | cleanup m clock => exact exists_nodeSteps_put ⟨[.network (.cleanup clock)], rfl⟩ n
  | command m targetMac message clock =>
    cases point : (M.sites m).main with
    | idle =>
      rw [step, point]
      exact exists_nodeSteps_put ⟨[], SendPoint.leaves_start id targetMac message (M.sites m).state⟩ n
    | _ =>
      rw [step, point]
      exact ⟨[], rfl⟩
  | advance m clock junk =>
    obtain ⟨steps, post⟩ := (M.sites m).main.exists_mainSteps (M.sites m).state
    exact exists_nodeSteps_put ⟨_, post⟩ n

/-- In every run of the mesh, each node goes through a run of its own. -/
theorem exists_nodeSteps (steps : List MeshStep) (n : Mac) :
    ∃ nodeSteps, ((M.after steps).sites n).state = stateAfter (M.sites n).state nodeSteps := by
  refine after_induction (P := fun N => ∃ nodeSteps,
    (N.sites n).state = stateAfter (M.sites n).state nodeSteps) ⟨[], rfl⟩ ?_ steps
  rintro N op ⟨before, reached⟩
  obtain ⟨here, stepped⟩ := N.exists_nodeSteps_step op n
  exact ⟨before ++ here, by rw [stepped, reached, stateAfter_append]⟩

/-! ## Where packets come from -/

/-- A packet on the air is either a message or a greeting of its transmitter, or what the transmitter
sent when it handled another packet from the air. -/
inductive Accounted (M : Mesh E) (t : Transmission) : Prop
  | own (type : t.packet.header.type = .data ∨ t.packet.header.type = .discovery)
      (source : t.packet.header.source = t.transmitter)
  | heard (t' : Transmission) (mem : t' ∈ M.air) (cause : t.cause = some t'.packet)
      (other : t'.packet.header.source ≠ t.transmitter) (known : List Str)
      (neighbors : ∀ n ∈ known, n ∈ (M.sites t.transmitter).state.knownNeighbors)
      (emission : Emission (E.env t.transmitter) known t'.packet t.packet)

/-- The packets that the main threads hold belong to messages, and those on the air are accounted
for. -/
structure Traceable (M : Mesh E) : Prop where
  prepared : ∀ m, (M.sites m).main.Prepared (E.env m)
  accounted : ∀ t ∈ M.air, M.Accounted t

theorem Accounted.put {t : Transmission} (h : M.Accounted t)
    (grow : ∀ n ∈ (M.sites m).state.knownNeighbors, n ∈ x.state.knownNeighbors) :
    (M.put m x ts).Accounted t := by
  cases h with
  | own type source => exact .own type source
  | heard t' mem cause other known neighbors emission =>
    refine .heard t' (List.mem_append_left _ mem) cause other known (fun n hn => ?_) emission
    have old := neighbors n hn
    by_cases same : t.transmitter = m
    · rw [same] at old ⊢
      rw [sites_put_self]
      exact grow n old
    · rwa [sites_put_of_ne same]

theorem traceable_put (h : M.Traceable) (prepared : x.main.Prepared (E.env m))
    (grow : ∀ n ∈ (M.sites m).state.knownNeighbors, n ∈ x.state.knownNeighbors)
    (sent : ∀ t ∈ ts, (M.put m x ts).Accounted t) : (M.put m x ts).Traceable := by
  refine ⟨forall_sites_put (P := fun n x => x.main.Prepared (E.env n)) h.prepared prepared,
    fun t ht => ?_⟩
  rcases List.mem_append.1 ht with old | new
  · exact (h.accounted t old).put grow
  · exact sent t new

theorem accounted_of_sends {cause : Option Packet} {es : List Effect}
    (own : ∀ e ∈ es, e.Sends fun p =>
      (p.header.type = .data ∨ p.header.type = .discovery) ∧ p.header.source = m) :
    ∀ t ∈ transmissions m cause es, M.Accounted t := by
  intro t ht
  obtain ⟨call, hcall, rfl⟩ := List.mem_map.1 ht
  obtain ⟨type, source⟩ := forall_mem_sendCalls own call hcall
  exact .own type source

theorem traceable_start (queueFiles : Mac → Option (List UInt8)) :
    (start queueFiles : Mesh E).Traceable where
  prepared _ := trivial
  accounted _ ht := absurd ht List.not_mem_nil

theorem traceable_hear {t : Transmission} (clock : Clock) (mem : t ∈ M.air) (h : M.Traceable) :
    (M.network m (some t.packet) (handlePacket t.packet clock)).Traceable := by
  set s := (M.sites m).state
  by_cases own : t.packet.header.source = m
  · have nothing : (handlePacket t.packet clock : Action (E.env m) Unit) = pure () := if_pos own
    rw [network, nothing]
    exact traceable_put h (h.prepared m) (fun n hn => hn) fun t ht => absurd ht List.not_mem_nil
  · have known := knownNeighbors_handlePacket t.packet clock s own
    have sent := emissions_handlePacket t.packet clock s own
    refine traceable_put h (h.prepared m) (fun n hn => ?_) fun t' ht' => ?_
    · show n ∈ ((handlePacket t.packet clock).post s).knownNeighbors
      rw [known, mem_knownNeighbors_learnNeighbor]
      exact .inr hn
    · obtain ⟨call, hcall, rfl⟩ := List.mem_map.1 ht'
      refine .heard t (List.mem_append_left _ mem) rfl own _ (fun n hn => ?_)
        (forall_mem_sendCalls sent call hcall)
      rw [sites_put_self]
      show n ∈ ((handlePacket t.packet clock).post s).knownNeighbors
      rw [known]
      exact Std.ExtTreeSet.mem_toList.1 hn

/-- A part of a node that leaves its neighbours alone and sends messages and greetings of its own. -/
theorem traceable_own {α : Type} {a : Action (E.env m) α} (h : M.Traceable)
    (own : ∀ known, Preserves (fun s => s.knownNeighbors = known) (Effect.Sends fun p =>
      (p.header.type = .data ∨ p.header.type = .discovery) ∧ p.header.source = m) a)
    (state : x.state = a.post (M.sites m).state) (prepared : x.main.Prepared (E.env m)) :
    (M.put m x (transmissions m none (a.trace (M.sites m).state))).Traceable := by
  obtain ⟨same, sent⟩ := own _ (M.sites m).state rfl
  rw [← state] at same
  exact traceable_put h prepared (fun n hn => same ▸ hn) (accounted_of_sends sent)

theorem traceable_step (op : MeshStep) (h : M.Traceable) : (M.step op).Traceable := by
  cases op with
  | hello m =>
    exact traceable_own h (fun _ => preserves_sendHello (fun _ _ hs => hs)
      fun _ type source => ⟨.inr type, source⟩) rfl (h.prepared m)
  | hear m i clock =>
    cases got : M.air[i]? with
    | none =>
      rw [step, got]
      exact h
    | some t =>
      rw [step, got]
      exact traceable_hear clock (List.mem_of_getElem? got) h
  | retry m clock =>
    exact traceable_own h (fun _ => preserves_retryPass (fun _ _ hs => hs) fun _ => trivial) rfl
      (h.prepared m)
  | cleanup m clock =>
    exact traceable_own h (fun _ => preserves_cleanupTick fun _ _ _ hs => hs) rfl (h.prepared m)
  | command m targetMac message clock =>
    cases point : (M.sites m).main with
    | idle =>
      rw [step, point]
      exact traceable_own h (fun _ => SendPoint.preserves_start trivial trivial targetMac message) rfl
        (SendPoint.prepared_start targetMac message _)
    | _ =>
      rw [step, point]
      exact h
  | advance m clock junk =>
    refine traceable_own h (fun _ => SendPoint.preserves_advance _ (fun _ _ _ _ _ _ _ hs => hs) trivial
      trivial trivial ?_) rfl ((M.sites m).main.prepared_advance _ (h.prepared m))
    intro ackSeq destMac message fragments pkt rest next
    obtain ⟨type, source, -⟩ := (h.prepared m).isMessage next
    exact ⟨.inl type, source⟩

theorem traceable_after (queueFiles : Mac → Option (List UInt8)) (steps : List MeshStep) :
    ((start queueFiles : Mesh E).after steps).Traceable :=
  after_induction (traceable_start queueFiles) (fun _ op h => traceable_step op h) steps

/-! ## A command that is not interrupted -/

section SendWhole

variable {m d : Mac} {x : Site (E.env m)} {ts : List Transmission} {message : Str} {clock : Clock}
  {packets : List Packet}

theorem step_advance_put (clock : Clock) (junk : UInt32) :
    (M.put m x ts).step (.advance m clock junk) =
      M.put m
        { state := (x.main.advance clock junk).post x.state
          main := (x.main.advance clock junk).value x.state
          registered := x.main.noteRegistered x.registered }
        (ts ++ transmissions m none ((x.main.advance clock junk).trace x.state)) := by
  have site : (M.put m x ts).sites m = x := sites_put_self
  show (M.put m x ts).mainThread m (((M.put m x ts).sites m).main.advance clock junk) = _
  rw [mainThread, site, put_put]

/-- The packets that are left are transmitted, and the message is registered. -/
theorem after_transmitting (s : NodeState (E.env m)) (ackSeq : UInt32) (fragments rest : List Packet)
    (registered : UInt32 → List Packet) (ts : List Transmission) :
    (M.put m ⟨s, .transmitting ackSeq d message fragments rest, registered⟩ ts).after
        (List.replicate (rest.length + 1) (.advance m clock 0)) =
      M.put m
        { state := { s with
            pendingAcks := s.pendingAcks.insert ackSeq
              { destMac := d
                retries := 0
                sentTime := clock.steady
                originalMsg := message
                seqNum := ackSeq } }
          main := .idle
          registered := Function.update registered ackSeq fragments }
        (ts ++ rest.map fun p => ⟨m, p, d, none⟩) := by
  induction rest generalizing ts with
  | nil =>
    rw [List.length_nil, List.replicate_succ, after_cons, step_advance_put]
    rfl
  | cons p rest ih =>
    have one : (M.put m ⟨s, .transmitting ackSeq d message fragments (p :: rest), registered⟩ ts).step
        (.advance m clock 0) =
          M.put m ⟨s, .transmitting ackSeq d message fragments rest, registered⟩
            (ts ++ [⟨m, p, d, none⟩]) := by
      rw [step_advance_put]
      rfl
    rw [List.length_cons, List.replicate_succ, after_cons, one, ih, List.append_assoc]
    rfl

/-- The steps of a `send` command for a message of so many packets. -/
def sendSteps (m d : Mac) (message : Str) (clock : Clock) (count : ℕ) : List MeshStep :=
  .command m (macToString d) message clock :: List.replicate (count + 4) (.advance m clock 0)

theorem after_sendSteps (ts : List Transmission) (idle : x.main = .idle)
    (near : macToString d ∈ x.state.knownNeighbors) (some' : message ≠ [])
    (made : (prepareMessage d message clock).value x.state = some packets) {count : ℕ}
    (counted : packets.length = count) :
    ∃ y : Site (E.env m), (M.put m x ts).after (sendSteps m d message clock count) =
        M.put m y (ts ++ packets.map fun p => ⟨m, p, d, none⟩) ∧
      y.main = .idle ∧ y.state.knownNeighbors = x.state.knownNeighbors ∧
      y.state.seqNum = x.state.seqNum + UInt32.ofNat count ∧
      y.state.nextAckSeq = x.state.nextAckSeq + 1 ∧
      y.state.pendingAcks = x.state.pendingAcks.insert x.state.nextAckSeq
        ⟨d, 0, clock.steady, message, x.state.nextAckSeq⟩ ∧
      y.registered = Function.update x.registered x.state.nextAckSeq packets := by
  subst counted
  set s := (prepareMessage d message clock).post x.state
  have leaves {γ : Type} {f : NodeState (E.env m) → γ}
      (h : ∀ s seqNum mgr ciphers, f { s with
        seqNum := seqNum
        fragMgr := mgr
        pairCiphers := ciphers } = f s) : f s = f x.state := leaves_prepareMessage h x.state
  set t := (getPairCipher d : Action (E.env m) AES256).post x.state
  have post : (encryptWithCipher d message clock).post t = s :=
    (post_prepareMessage_eq d message clock x.state).symm
  have value : (prepareMessage d message clock).value t = some packets := by
    rw [← value_encryptWithCipher, ← value_prepareMessage_eq, made]
  have silent : sendCalls ((encryptWithCipher d message clock).trace t) = [] :=
    SendPoint.sendCalls_encryptWithCipher d message t
  have prompt : (M.put m x ts).step (.command m (macToString d) message clock) =
      M.put m { x with main := .checked true d message } ts := by
    have site : (M.put m x ts).sites m = x := sites_put_self
    have entered : (SendPoint.start (macToString d) message clock : Action (E.env m) SendPoint) x.state =
        (.checked true d message, x.state, [.lock, .unlock]) := SendPoint.start_eq some' near
    rw [step, site, idle]
    show (M.put m x ts).mainThread m (SendPoint.start (macToString d) message clock) = _
    rw [mainThread, site, put_put, Traced.post, Traced.value, Traced.trace, entered, idle]
    exact congrArg (M.put m _) (List.append_nil ts)
  have keyed : (M.put m { x with main := .checked true d message } ts).step (.advance m clock 0) =
      M.put m
        { state := t
          main := .keyed true d message
          registered := x.registered } ts := by
    rw [step_advance_put]
    exact congrArg (M.put m _) (List.append_nil ts)
  have prepared : (M.put m ⟨t, .keyed true d message, x.registered⟩ ts).step (.advance m clock 0) =
      M.put m
        { state := s
          main := .prepared d message packets
          registered := x.registered } ts := by
    rw [step_advance_put, SendPoint.value_advance_keyed, SendPoint.post_advance_keyed,
      SendPoint.trace_advance_keyed, value, post, transmissions, silent]
    exact congrArg (M.put m _) (List.append_nil ts)
  have next : s.nextAckSeq = x.state.nextAckSeq := leaves fun _ _ _ _ => rfl
  have pending : s.pendingAcks = x.state.pendingAcks := leaves fun _ _ _ _ => rfl
  have known : s.knownNeighbors = x.state.knownNeighbors := leaves fun _ _ _ _ => rfl
  have seqNum : s.seqNum = x.state.seqNum + UInt32.ofNat packets.length := seqNum_prepareMessage made
  clear_value s
  have numbered : (M.put m ⟨s, .prepared d message packets, x.registered⟩ ts).step (.advance m clock 0) =
      M.put m
        { state := { s with nextAckSeq := s.nextAckSeq + 1 }
          main := .transmitting s.nextAckSeq d message packets packets
          registered := x.registered } ts := by
    rw [step_advance_put]
    exact congrArg (M.put m _) (List.append_nil ts)
  have run : (M.put m x ts).after (sendSteps m d message clock packets.length) =
      (M.put m
        { state := { s with nextAckSeq := s.nextAckSeq + 1 }
          main := .transmitting s.nextAckSeq d message packets packets
          registered := x.registered } ts).after
        (List.replicate (packets.length + 1) (.advance m clock 0)) := by
    rw [sendSteps, after_cons, prompt, List.replicate_succ, after_cons, keyed, List.replicate_succ,
      after_cons, prepared, List.replicate_succ, after_cons, numbered]
  refine ⟨_, run.trans (after_transmitting _ _ _ _ _ _), rfl, known, seqNum, ?_, ?_, ?_⟩
  · rw [← next]
  · rw [← next, ← pending]
  · rw [← next]

end SendWhole

end Mesh

end Araba
