import Araba.Lib.Reactions
import Araba.Mesh

/-!
# Silence

A packet that is handled can make the node transmit others, and these are handled in turn. How much can
come of what is on the air and in the queues, when nobody greets, no command is entered and none that
is under way goes on.
-/

namespace Araba

open Reactions Traced

/-! ## What a packet sets off -/

/-- What can come of one node handling a DATA packet, among `n` nodes: it acknowledges the packet, or
sends it on with one less to live, to be handled by all of them. -/
def relays (n : ℕ) : ℕ → ℕ
  | 0 => 1
  | 1 => 1
  | ttl + 2 => 1 + n * relays n (ttl + 1)

theorem one_le_relays (n : ℕ) : ∀ ttl, 1 ≤ relays n ttl
  | 0 => le_rfl
  | 1 => le_rfl
  | _ + 2 => Nat.le_add_right 1 _

/-- What can come of one node handling the packet. -/
def Packet.setsOff (n : ℕ) (p : Packet) : ℕ :=
  if p.header.type = .discovery then 1
  else if p.header.type = .data then relays n p.header.ttl.toNat
  else 0

theorem setsOff_of_data {n : ℕ} {p : Packet} (data : p.header.type = .data) :
    p.setsOff n = relays n p.header.ttl.toNat := by
  rw [Packet.setsOff, if_neg (by rw [data]; decide), if_pos data]

/-- What a queued message comes to. -/
def queuedCost (n : ℕ) : ℕ := 1 + n * relays n 64

/-- What the packets come to that are sent. -/
def spent (n : ℕ) (es : List Effect) : ℕ :=
  ((sendCalls es).map fun call => 1 + n * call.1.setsOff n).sum

@[simp] theorem spent_nil (n : ℕ) : spent n [] = 0 := rfl

@[simp] theorem spent_append (n : ℕ) (es fs : List Effect) :
    spent n (es ++ fs) = spent n es + spent n fs := by
  rw [spent, sendCalls_append, List.map_append, List.sum_append]
  rfl

theorem spent_send (n : ℕ) (p : Packet) (link : Mac) :
    spent n [.send p link] = 1 + n * p.setsOff n :=
  Nat.add_zero _

/-! ## What an action spends -/

section Actions

variable {env : NodeEnv} {α β : Type} {n b b' : ℕ}

/-- No run of the action spends more. -/
def Spends (n b : ℕ) (m : Action env α) : Prop := ∀ s, spent n (m.trace s) ≤ b

theorem Spends.mono {m : Action env α} (h : Spends n b m) (le : b ≤ b') : Spends n b' m :=
  fun s => (h s).trans le

theorem Spends.pure (a : α) : Spends n b (Pure.pure a : Action env α) := fun _ => Nat.zero_le _

theorem Spends.bind {m : Action env α} {f : α → Action env β} (hm : Spends n b m)
    (hf : ∀ a, Spends n b' (f a)) : Spends n (b + b') (m >>= f) := by
  intro s
  rw [trace_bind, spent_append]
  exact Nat.add_le_add (hm s) (hf (m.value s) (m.post s))

theorem Spends.ite {c : Prop} [Decidable c] {m₁ m₂ : Action env α} (h₁ : Spends n b m₁)
    (h₂ : Spends n b m₂) : Spends n b (if c then m₁ else m₂) := by
  split_ifs
  · exact h₁
  · exact h₂

theorem Spends.get : Spends n 0 (Traced.get : Action env (NodeState env)) := fun _ => le_rfl

theorem Spends.modify (g : NodeState env → NodeState env) :
    Spends n 0 (Traced.modify g : Action env Unit) :=
  fun _ => le_rfl

theorem Spends.emit {e : Effect} (le : spent n [e] ≤ b) : Spends n b (Traced.emit e : Action env Unit) :=
  fun _ => le

theorem Spends.log (event : LogEvent) : Spends n 0 (Traced.emit (.log event) : Action env Unit) :=
  .emit le_rfl

theorem Spends.of_preserves {m : Action env α}
    (silent : Preserves (fun _ => True) (Effect.Sends fun _ => False) m) : Spends n 0 m := by
  intro s
  have none' : sendCalls (m.trace s) = [] :=
    List.eq_nil_iff_forall_not_mem.2 (forall_mem_sendCalls (silent s trivial).2)
  rw [spent, none']
  exact le_rfl

end Actions

/-! ## What the handling of a packet spends -/

section Packet

variable {env : NodeEnv} {n : ℕ} {received : Packet} {clock : Clock}

theorem spends_handleDiscovery :
    Spends n (if received.header.type = .discovery then 1 else 0)
      (handleDiscovery received : Action env Unit) := by
  unfold handleDiscovery
  split_ifs with greets
  · exact .mono (.bind .get fun s => .bind (.modify _) fun _ => .emit (spent_send _ _ _).le) le_rfl
  · exact .pure ()

theorem spends_decryptThen {encrypted : List UInt8} {maxOut b : ℕ} {next : List UInt8 → Action env Unit}
    (h : ∀ d, Spends n b (next d)) : Spends n b (decryptThen received encrypted maxOut next) := by
  refine .mono (.bind (.of_preserves (.bind (.emit trivial) fun _ => .bind .get fun _ =>
    .bind (.modify fun _ _ => trivial) fun _ => .bind (.emit trivial) fun _ => .pure _)) fun aes => ?_)
    (Nat.zero_add b).le
  cases decryptPayload encrypted maxOut aes with
  | error e => exact .emit (Nat.zero_le b)
  | ok d => exact h d

theorem spends_sendAck (ttl : ℕ) :
    Spends n (relays n ttl)
      (sendAck received.header.source received.header.sequenceId : Action env Unit) := by
  refine .emit ?_
  rw [spent_send]
  exact one_le_relays n ttl

theorem spent_relay (data : received.header.type = .data) (alive : received.header.ttl > 1)
    (link : Mac) :
    spent n [.send (received.withTtl (received.header.ttl - 1)) link] =
      relays n received.header.ttl.toNat := by
  have long : 1 < received.header.ttl.toNat := UInt8.lt_iff_toNat_lt.1 alive
  have less : (received.header.ttl - 1).toNat = received.header.ttl.toNat - 1 :=
    UInt8.toNat_sub_of_le _ _ (UInt8.le_iff_toNat_le.2 long.le)
  obtain ⟨k, ttl⟩ : ∃ k, received.header.ttl.toNat = k + 2 := ⟨_, (Nat.sub_add_cancel long).symm⟩
  have rest : (received.withTtl (received.header.ttl - 1)).setsOff n = relays n (k + 1) :=
    (setsOff_of_data (p := received.withTtl (received.header.ttl - 1)) data).trans
      (congrArg (relays n) (less.trans (by omega)))
  rw [spent_send, rest, ttl, relays]

theorem spends_forward (data : received.header.type = .data) :
    Spends n (relays n received.header.ttl.toNat) (forward received clock : Action env Unit) := by
  refine .mono (.bind .get fun s => ?_) (Nat.zero_add _).le
  cases s.table.findNextHop received.header.dest clock.time with
  | none => exact .pure ()
  | some route =>
    show Spends n _ (if received.header.ttl > 1 then _ else _)
    split_ifs with alive
    · exact .mono (.bind (.emit (spent_relay data alive _).le) fun _ => .log _) (Nat.add_zero _).le
    · exact .pure ()

theorem spends_handleData :
    Spends n (if received.header.type = .data then relays n received.header.ttl.toNat else 0)
      (handleData received clock : Action env Unit) := by
  unfold handleData
  split_ifs with data frag
  · refine .mono (.bind .get fun s => .bind (.modify _) fun _ => .ite (spends_decryptThen
      (b := relays n received.header.ttl.toNat) fun d => ?_) (.pure ())) (by simp)
    refine .ite (.emit (Nat.zero_le _)) (.ite (.emit (Nat.zero_le _)) ?_)
    exact .mono (.bind (.log _) fun _ => spends_sendAck _) (Nat.zero_add _).le
  · refine spends_decryptThen fun d => .ite (.emit (Nat.zero_le _)) (.ite (spends_forward data) ?_)
    exact .mono (.bind (.log _) fun _ => spends_sendAck _) (Nat.zero_add _).le
  · exact .pure ()

/-- The packets for the queued messages are messages with a full time to live. -/
theorem spent_autoDeliver (received : Packet) (s : NodeState env) :
    spent n ((autoDeliver received).trace s) = (carried s received).length * queuedCost n := by
  have messages : Preserves (fun _ : NodeState env => True)
      (Effect.Sends fun p => p.header.type = .data ∧ p.header.ttl = defaultTtl)
      (autoDeliver received) := by
    refine .bind .get fun s => .ite (.pure ()) (.bind (.emit trivial) fun _ => .runAll fun m hm => ?_)
    obtain ⟨entry, -, rfl⟩ := List.mem_map.1 hm
    exact .bind .get fun _ => .bind (.modify fun _ _ => trivial) fun _ => .ite (.emit trivial)
      (.bind (.emit ⟨rfl, rfl⟩) fun _ => .modify fun _ _ => trivial)
  have each : ∀ call ∈ sendCalls ((autoDeliver received).trace s),
      1 + n * call.1.setsOff n = queuedCost n := by
    intro call mem
    obtain ⟨data, ttl⟩ := forall_mem_sendCalls (messages s trivial).2 call mem
    rw [setsOff_of_data data, ttl]
    rfl
  rw [spent, List.map_congr_left each, List.map_const', List.sum_replicate, smul_eq_mul,
    (autoDeliver_spec received s).1.length_eq]

/-- What is sent when a packet is handled is paid for by the packet, and by what leaves the queue. -/
theorem spent_handlePacket_le (received : Packet) (clock : Clock) (s : NodeState env) :
    spent n ((handlePacket received clock).trace s) +
        ((handlePacket received clock).post s).queue.getAll.length * queuedCost n ≤
      received.setsOff n + s.queue.getAll.length * queuedCost n := by
  by_cases own : received.header.source = env.myMac
  · rw [handlePacket, if_pos own]
    exact Nat.add_le_add_right (Nat.zero_le _) _
  obtain ⟨s₁, learnt⟩ : ∃ s₁, (learnNeighbor received clock).post s = s₁ := ⟨_, rfl⟩
  have queue : s₁.queue = s.queue :=
    learnt ▸ leaves_learnNeighbor (f := NodeState.queue) (fun _ _ _ => rfl) s
  have entries : s.queue.getAll.length = (carried s₁ received).length +
      ((handlePacket received clock).post s).queue.getAll.length := by
    rw [queue_handlePacket own, carried, queue]
    exact List.length_eq_length_filter_add _
  have learned : Spends n 0 (learnNeighbor received clock : Action env Unit) :=
    .of_preserves (preserves_learnNeighbor (fun _ _ _ _ => trivial) trivial)
  have rest : Spends n (if received.header.type = .discovery then 1 else 0) (do
      handleDiscovery received
      handleRouteAdv received clock
      handleAck received : Action env Unit) :=
    .mono (.bind spends_handleDiscovery fun _ =>
      .bind (.of_preserves (preserves_handleRouteAdv (fun _ _ _ => trivial) trivial)) fun _ =>
      .of_preserves (preserves_handleAck (fun _ _ _ => trivial) fun _ => trivial)) le_rfl
  have control : spent n ((handleControl received clock).trace s) ≤
      (carried s₁ received).length * queuedCost n +
        if received.header.type = .discovery then 1 else 0 := by
    rw [handleControl, trace_bind, spent_append, trace_bind, spent_append, learnt, spent_autoDeliver]
    have first := learned s
    have last := rest ((autoDeliver received).post s₁)
    omega
  have data : spent n ((handleData received clock).trace ((handleControl received clock).post s)) ≤
      if received.header.type = .data then relays n received.header.ttl.toNat else 0 :=
    spends_handleData _
  have parts : (if received.header.type = .discovery then 1 else 0) +
      (if received.header.type = .data then relays n received.header.ttl.toNat else 0) =
        received.setsOff n := by
    unfold Packet.setsOff
    by_cases greets : received.header.type = .discovery
    · rw [if_pos greets, if_pos greets, if_neg (by rw [greets]; decide)]
    · rw [if_neg greets, if_neg greets, Nat.zero_add]
  rw [trace_handlePacket own, spent_append, spent_append, spent_append, entries, Nat.add_mul]
  have lock : spent n [.lock] = 0 := rfl
  have unlock : spent n [.unlock] = 0 := rfl
  omega

end Packet

/-! ## The mesh -/

/-- What can come of one node hearing the transmission. -/
def Transmission.setsOff (n : ℕ) (t : Transmission) : ℕ := t.packet.setsOff n

/-- The step neither greets nor enters a command nor goes on with one that is under way, and what is
heard is heard by one of the nodes. -/
def MeshStep.Passive (nodes : Finset Mac) : MeshStep → Prop
  | hear m _ _ => m ∈ nodes
  | retry _ _ => True
  | cleanup _ _ => True
  | _ => False

/-- Who hears which packet. -/
def MeshStep.hearing : MeshStep → Option (Mac × ℕ)
  | hear m i _ => some (m, i)
  | _ => none

/-- What has been heard after the step. -/
def MeshStep.mark (heard : Finset (Mac × ℕ)) : MeshStep → Finset (Mac × ℕ)
  | hear m i _ => insert (m, i) heard
  | _ => heard

namespace Mesh

variable {E : MeshEnv} {M : Mesh E} {nodes : Finset Mac} {heard : Finset (Mac × ℕ)}

/-- How many messages wait in the queues of the nodes. -/
def stored (M : Mesh E) (nodes : Finset Mac) : ℕ :=
  ∑ m ∈ nodes, (M.sites m).state.queue.getAll.length

/-- What is on the air, and what can still come of it and of the queues. -/
def total (M : Mesh E) (nodes : Finset Mac) (heard : Finset (Mac × ℕ)) : ℕ :=
  budget (Transmission.setsOff nodes.card) nodes heard M.air (M.stored nodes * queuedCost nodes.card)

theorem stored_put {m : Mac} {x : Site (E.env m)} {ts : List Transmission} (mem : m ∈ nodes) :
    (M.put m x ts).stored nodes + (M.sites m).state.queue.getAll.length =
      M.stored nodes + x.state.queue.getAll.length := by
  have others : ∑ n ∈ nodes.erase m, ((M.put m x ts).sites n).state.queue.getAll.length =
      ∑ n ∈ nodes.erase m, (M.sites n).state.queue.getAll.length := by
    refine Finset.sum_congr rfl fun n hn => ?_
    rw [sites_put_of_ne (Finset.ne_of_mem_erase hn)]
  rw [stored, stored, ← Finset.add_sum_erase _ _ mem, ← Finset.add_sum_erase nodes _ mem, others,
    sites_put_self]
  omega

/-- A part of the network thread that leaves the queue alone and sends nothing. -/
theorem total_network_of_silent {m : Mac} {cause : Option Packet} {a : Action (E.env m) Unit}
    (queue : Leaves NodeState.queue a)
    (silent : Preserves (fun _ => True) (Effect.Sends fun _ => False) a) :
    (M.network m cause a).total nodes heard = M.total nodes heard := by
  have none' : sendCalls (a.trace (M.sites m).state) = [] :=
    List.eq_nil_iff_forall_not_mem.2 (forall_mem_sendCalls (silent _ trivial).2)
  have air : (M.network m cause a).air = M.air := by
    show M.air ++ transmissions m cause _ = M.air
    rw [transmissions, none', List.map_nil, List.append_nil]
  have queues : (M.network m cause a).stored nodes = M.stored nodes := by
    refine Finset.sum_congr rfl fun n _ => congrArg (fun q : RueQueue => q.getAll.length) ?_
    by_cases same : n = m
    · subst same
      show ((M.put n _ _).sites n).state.queue = _
      rw [sites_put_self]
      exact queue _
    · show ((M.put m _ _).sites n).state.queue = _
      rw [sites_put_of_ne same]
  rw [total, air, queues, total]

/-- What is transmitted when a packet is heard is taken from the total. -/
theorem total_network_le {m : Mac} {i : ℕ} {t : Transmission} {cause : Option Packet}
    {a : Action (E.env m) Unit} (mem : m ∈ nodes) (here : M.air[i]? = some t)
    (fresh : (m, i) ∉ heard)
    (paid : spent nodes.card (a.trace (M.sites m).state) +
        (a.post (M.sites m).state).queue.getAll.length * queuedCost nodes.card ≤
      t.packet.setsOff nodes.card +
        (M.sites m).state.queue.getAll.length * queuedCost nodes.card) :
    (M.network m cause a).total nodes (insert (m, i) heard) ≤ M.total nodes heard := by
  have queues : (M.network m cause a).stored nodes + (M.sites m).state.queue.getAll.length =
      M.stored nodes + (a.post (M.sites m).state).queue.getAll.length := stored_put mem
  have laid : ((transmissions m cause (a.trace (M.sites m).state)).map
      (cost (Transmission.setsOff nodes.card) nodes)).sum =
        spent nodes.card (a.trace (M.sites m).state) := by
    rw [transmissions, List.map_map]
    rfl
  refine budget_take mem here fresh ?_
  have worth := congrArg (· * queuedCost nodes.card) queues
  simp only [Nat.add_mul] at worth
  rw [laid, Transmission.setsOff]
  omega

theorem total_hear_le {m : Mac} {i : ℕ} {clock : Clock} (mem : m ∈ nodes) (fresh : (m, i) ∉ heard) :
    (M.step (.hear m i clock)).total nodes (insert (m, i) heard) ≤ M.total nodes heard := by
  cases here : M.air[i]? with
  | none =>
    have idle : M.step (.hear m i clock) = M := by simp only [step, here]
    rw [idle]
    exact budget_insert_le _
  | some t =>
    have handles : M.step (.hear m i clock) =
        M.network m (some t.packet) (handlePacket t.packet clock) := by simp only [step, here]
    rw [handles]
    exact total_network_le mem here fresh (spent_handlePacket_le t.packet clock _)

theorem total_step_le {op : MeshStep} (passive : op.Passive nodes)
    (fresh : ∀ x, op.hearing = some x → x ∉ heard) :
    (M.step op).total nodes (op.mark heard) ≤ M.total nodes heard := by
  cases op with
  | hear m i clock => exact total_hear_le passive (fresh _ rfl)
  | retry m clock =>
    exact (total_network_of_silent (leaves_retryPass fun _ _ => rfl)
      (preserves_retryPass (fun _ _ _ => trivial) fun _ => trivial)).le
  | cleanup m clock =>
    exact (total_network_of_silent (leaves_cleanupTick fun _ _ _ => rfl)
      (preserves_cleanupTick fun _ _ _ _ => trivial)).le
  | _ => cases passive

theorem total_after_le {steps : List MeshStep} (passive : ∀ op ∈ steps, op.Passive nodes)
    (once : (steps.filterMap MeshStep.hearing).Nodup)
    (fresh : ∀ x ∈ steps.filterMap MeshStep.hearing, x ∉ heard) :
    ∃ heard', (M.after steps).total nodes heard' ≤ M.total nodes heard := by
  induction steps generalizing M heard with
  | nil => exact ⟨heard, le_rfl⟩
  | cons op steps ih =>
    obtain ⟨first, rest⟩ := List.forall_mem_cons.1 passive
    have step (new : ∀ x, op.hearing = some x → x ∉ heard)
        (once : (steps.filterMap MeshStep.hearing).Nodup)
        (fresh : ∀ x ∈ steps.filterMap MeshStep.hearing, x ∉ op.mark heard) :
        ∃ heard', (M.after (op :: steps)).total nodes heard' ≤ M.total nodes heard := by
      obtain ⟨heard', le⟩ := ih (M := M.step op) rest once fresh
      exact ⟨heard', le.trans (total_step_le first new)⟩
    cases op with
    | hear m i clock =>
      have hears : (MeshStep.hear m i clock).hearing = some (m, i) := rfl
      rw [List.filterMap_cons_some hears] at once fresh
      obtain ⟨other, once⟩ := List.nodup_cons.1 once
      obtain ⟨new, fresh⟩ := List.forall_mem_cons.1 fresh
      refine step (fun x here => Option.some.inj here ▸ new) once fun x mem marked => ?_
      rcases Finset.mem_insert.1 marked with rfl | old
      · exact other mem
      · exact fresh x mem old
    | _ => exact step (fun x here => by cases here) once fresh

/-- When nobody greets and no main thread does anything, neither for a new command nor for one that is
under way, a mesh falls silent. However the packets are delayed, reordered and lost, if each of the
nodes hears each transmission once at most, what is ever on the air is bounded by what is on the air
and in the queues at first. -/
theorem falls_silent (M : Mesh E) (nodes : Finset Mac) (steps : List MeshStep)
    (passive : ∀ op ∈ steps, op.Passive nodes)
    (once : (steps.filterMap MeshStep.hearing).Nodup) :
    (M.after steps).air.length ≤
      M.air.length + M.stored nodes * queuedCost nodes.card +
        nodes.card * (M.air.map (Transmission.setsOff nodes.card)).sum := by
  obtain ⟨heard', le⟩ : ∃ heard', (M.after steps).total nodes heard' ≤ M.total nodes ∅ :=
    total_after_le passive once fun x _ => Finset.notMem_empty x
  exact (length_le_budget _).trans (le.trans (budget_empty_le _))

/-- The first node has greeted. -/
def firstGreets : Mesh smallMesh := (Mesh.start fun _ => none).after [.hello firstMac]

/-- The second one answers, and the answer is heard. -/
def greetingAnswered : List MeshStep :=
  [.hear secondMac 0 ⟨0, 0⟩, .retry secondMac ⟨0, 0⟩, .hear firstMac 1 ⟨0, 0⟩]

theorem falls_silent_greeting :
    (firstGreets.after greetingAnswered).air.length ≤
      firstGreets.air.length + firstGreets.stored {firstMac, secondMac} *
          queuedCost ({firstMac, secondMac} : Finset Mac).card +
        ({firstMac, secondMac} : Finset Mac).card * (firstGreets.air.map
          (Transmission.setsOff ({firstMac, secondMac} : Finset Mac).card)).sum := by
  have passive : ∀ op ∈ greetingAnswered, op.Passive {firstMac, secondMac} := by
    simp [greetingAnswered, MeshStep.Passive]
  have once : (greetingAnswered.filterMap MeshStep.hearing).Nodup := by decide
  exact falls_silent firstGreets {firstMac, secondMac} greetingAnswered passive once

end Mesh

end Araba
