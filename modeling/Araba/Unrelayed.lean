import Araba.Blocking

/-!
# What never comes through

A program whose mutex blocks gets stuck with the first packet that it would have to decrypt. So it
reports, acknowledges and sends on no message of another node, in no run.
-/

namespace Araba

open Bytes Traced

/-- The line is written for a DATA packet that has been decrypted, or could not be. -/
def LogEvent.OfData : LogEvent → Prop
  | failedReassembled _ => True
  | droppedFragmented => True
  | messageReceived _ _ => True
  | failedDecrypt _ => True
  | forwarded _ => True
  | _ => False

/-- The event is not what becomes of another node's message: no such line, no acknowledgement, and no
packet of others. -/
def Effect.Unrelayed (env : NodeEnv) : Effect → Prop
  | send p _ => p.header.source = env.myMac ∧ p.header.type ≠ .ack
  | log event => ¬ event.OfData
  | _ => True

section Parts

variable {env : NodeEnv} {received : Packet} {clock : Clock}

/-- Whatever is done has the property. -/
def Unrelays {α : Type} (a : Action env α) : Prop :=
  Preserves (fun _ => True) (Effect.Unrelayed env) a

theorem unrelays_handleControl : Unrelays (handleControl received clock : Action env Unit) :=
  .bind (preserves_learnNeighbor (fun _ _ _ => id) id) fun _ =>
    .bind (preserves_autoDeliver (fun _ _ _ => id) (fun _ => id) trivial
      fun p _ data own => ⟨own, by rw [data]; nofun⟩) fun _ =>
    .bind (preserves_handleDiscovery (fun _ _ => id) fun _ _ => ⟨rfl, nofun⟩) fun _ =>
    .bind (preserves_handleRouteAdv (fun _ _ => id) id) fun _ =>
    preserves_handleAck (fun _ _ => id) fun _ => id

theorem unrelays_handleUntilCipher : Unrelays (handleUntilCipher received clock : Action env Unit) :=
  .bind (.emit trivial) fun _ => .bind unrelays_handleControl fun _ =>
    .ite (.modify fun _ => id) (.pure ())

theorem unrelays_retryPass : Unrelays (retryPass clock : Action env Unit) := by
  refine .bind .get fun s => .runAll fun m hm => ?_
  obtain ⟨key, -, rfl⟩ := List.mem_map.1 hm
  refine .bind .get fun s => ?_
  cases s.pendingAcks[key]? with
  | none => exact .pure ()
  | some pa =>
    exact .ite (.ite (.bind (.emit id) fun _ => .modify fun _ => id)
      (.bind (.emit id) fun _ => .modify fun _ => id)) (.pure ())

theorem trace_handleData_of_unneeded {s : NodeState env} (unneeded : ¬ NeedsCipher s received)
    (other : received.header.source ≠ env.myMac) (clock : Clock) :
    (handleData received clock).trace s = [] := by
  unfold handleData
  by_cases data : received.header.type = .data
  · by_cases frag : received.IsFragment
    · have waits : ¬ Completes s.fragMgr received := fun all => unneeded ⟨other, data, Or.inr all⟩
      have incomplete := (complete_reassembleCall_iff clock frag s.fragMgr).not.2 waits
      rw [if_pos data, if_pos frag]
      exact (handleFragment_of_incomplete (Bool.eq_false_iff.2 incomplete)).1
    · exact absurd ⟨other, data, Or.inl frag⟩ unneeded
  · rw [if_neg data]
    rfl

theorem unrelayed_of_unneeded {s : NodeState env} (unneeded : ¬ NeedsCipher s received) :
    ∀ e ∈ (handlePacket received clock).trace s, e.Unrelayed env := by
  by_cases own : received.header.source = env.myMac
  · rw [handlePacket, if_pos own]
    exact fun e mem => absurd mem List.not_mem_nil
  · have same := (handleControl_quiet received clock s s rfl).1
    have still : ¬ NeedsCipher ((handleControl received clock).post s) received := by
      rw [NeedsCipher, same]
      exact unneeded
    rw [trace_handlePacket own, trace_handleData_of_unneeded still own]
    intro e mem
    rcases List.mem_append.1 mem with first | rest
    · rw [List.mem_singleton.1 first]
      trivial
    · rcases List.mem_append.1 rest with control | last
      · exact (unrelays_handleControl s trivial).2 e control
      · rw [List.mem_singleton.1 last]
        trivial

/-- The messages that the main thread holds are the node's own. -/
def Process.HoldsOwn (p : Process env) : Prop := ∀ point, p.main = .inLoop point → point.Prepared env

theorem unrelays_advance {point : SendPoint} (own : point.Prepared env) (junk : UInt32) :
    Unrelays (point.advance clock junk : Action env SendPoint) := by
  refine point.preserves_advance (fun _ _ _ _ _ _ _ => id) trivial trivial trivial
    fun ackSeq destMac message fragments pkt rest next => ?_
  obtain ⟨data, source, -⟩ := own.isMessage next
  exact ⟨source, by rw [data]; nofun⟩

theorem Process.unrelays_main {net : NetworkInterface} {op : ProcessStep} (main : op.isNetwork = false)
    {p : Process env} (own : p.HoldsOwn) :
    ((Process.step net op).post p).HoldsOwn ∧
      ∀ e ∈ (Process.step net op).trace p, e.Unrelayed env := by
  obtain ⟨node, running, at', network⟩ := p
  have stays : (⟨node, running, at', network⟩ : Process env).HoldsOwn ∧
      ∀ e ∈ ([] : List Effect), e.Unrelayed env := ⟨own, fun e mem => absurd mem List.not_mem_nil⟩
  cases op with
  | network frame junk clock => cases main
  | join =>
    cases at' with
    | joining =>
      cases network with
      | stopped => exact ⟨(fun _ here => by cases here), stays.2⟩
      | _ => exact stays
    | _ => exact stays
  | goOn clock junk =>
    cases at' with
    | inLoop point =>
      have prepared : point.Prepared env := own point rfl
      refine ⟨fun next here => ?_, fun e mem => ?_⟩
      · rw [← MainAt.inLoop.inj here]
        exact SendPoint.prepared_advance point node prepared
      · have sends : Unrelays (point.advance clock junk : Action env SendPoint) :=
          unrelays_advance prepared junk
        refine (sends node trivial).2 e ?_
        rwa [← List.append_nil (Traced.trace _ node)]
    | _ => exact stays
  | line input clock =>
    cases at' with
    | inLoop point =>
      cases point with
      | idle =>
        cases input with
        | none => exact ⟨(fun _ here => by cases here), stays.2⟩
        | some inputLine =>
          show ((Process.runCommand clock (parseCommand inputLine)).post _).HoldsOwn ∧
            ∀ e ∈ (Process.runCommand clock (parseCommand inputLine)).trace _, e.Unrelayed env
          cases parseCommand inputLine with
          | send targetMac message =>
            refine ⟨fun next here => ?_, fun e mem => ?_⟩
            · rw [← MainAt.inLoop.inj here]
              exact SendPoint.prepared_start targetMac message node
            · have start : Unrelays (SendPoint.start targetMac message clock : Action env SendPoint) :=
                SendPoint.preserves_start trivial trivial targetMac message
              refine (start node trivial).2 e ?_
              rwa [← List.append_nil (Traced.trace _ node)]
          | quit => exact ⟨(fun _ here => by cases here), stays.2⟩
          | list => exact ⟨own, by simp [runCommand, Effect.Unrelayed]⟩
          | pending => exact ⟨own, by simp [runCommand, Effect.Unrelayed]⟩
          | _ => exact stays
      | _ => exact stays
    | _ => exact stays

/-- A step of the network thread in which no packet is handled that needs a cipher. -/
theorem Process.unrelays_network {net : NetworkInterface} {frame : Option (List UInt8)} {junk : Packet}
    {clock : Clock} {p : Process env}
    (unneeded : ∀ packet ∈ handledBy net p (.network frame junk clock), ¬ NeedsCipher p.node packet) :
    ∀ e ∈ (Process.step net (.network frame junk clock)).trace p, e.Unrelayed env := by
  obtain ⟨node, running, main, network⟩ := p
  have part {a : Action env Unit} (unrelays : Unrelays a) (next : NetworkAt) :
      ∀ e ∈ (onNode a >>= fun _ => setNetwork next).trace ⟨node, running, main, network⟩,
        e.Unrelayed env := by
    intro e mem
    refine (unrelays node trivial).2 e ?_
    rwa [← List.append_nil (Traced.trace _ node)]
  cases network with
  | greeting =>
    exact part (preserves_sendHello (fun _ _ => id) fun p greets own => ⟨own, by rw [greets]; nofun⟩) _
  | retrying => exact part unrelays_retryPass _
  | cleaning => exact part (preserves_cleanupTick fun _ _ _ => id) _
  | receiving i received =>
    show ∀ e ∈ (receiveTurn net frame i received clock).trace _, e.Unrelayed env
    cases got : net.receivePacket frame received with
    | mk ok packet =>
    rw [trace_receiveTurn got]
    cases ok with
    | false => exact fun e mem => absurd mem List.not_mem_nil
    | true =>
      refine unrelayed_of_unneeded (unneeded packet ?_)
      simp [handledBy, got]
  | entry => exact fun e mem => by obtain rfl := List.mem_singleton.1 mem; exact id
  | top =>
    cases running with
    | true => exact fun e mem => absurd mem List.not_mem_nil
    | false => exact fun e mem => by obtain rfl := List.mem_singleton.1 mem; exact id
  | inner i received =>
    show ∀ e ∈ Traced.trace (if i < 10 ∧ running = true then setNetwork _ else setNetwork _) _,
      e.Unrelayed env
    rw [trace_ite]
    split_ifs <;> exact fun e mem => absurd mem List.not_mem_nil
  | stopped => exact fun e mem => absurd mem List.not_mem_nil

end Parts

namespace Blocking

variable {net : NetworkInterface} {env : NodeEnv}

theorem unrelays_step (op : ProcessStep) :
    Preserves (fun b : Blocking env => b.program.HoldsOwn) (Effect.Unrelayed env) (step net op) := by
  intro b own
  rw [Traced.post, Traced.trace]
  rcases step_cases net op b with
    ⟨-, stays | waits⟩ | ⟨-, stays⟩ | ⟨-, frame, junk, clock, packet, rfl, -, -, sticks⟩ |
      ⟨-, unneeded, moves⟩
  · rw [stays]
    exact ⟨own, fun e mem => absurd mem List.not_mem_nil⟩
  · rw [waits]
    exact ⟨own, fun e mem => absurd mem List.not_mem_nil⟩
  · rw [stays]
    exact ⟨own, fun e mem => absurd mem List.not_mem_nil⟩
  · rw [sticks]
    exact ⟨own, (unrelays_handleUntilCipher b.program.node trivial).2⟩
  · rw [moves]
    cases main : op.isNetwork with
    | false => exact Process.unrelays_main main own
    | true =>
      cases op with
      | network frame junk clock =>
        refine ⟨fun point here => own point ?_, Process.unrelays_network unneeded⟩
        exact (Process.networkTurn_leaves net b.program frame junk clock).2.symm.trans here
      | _ => cases main

/-- No message of another node ever comes through. Whatever is typed and received, however the threads
are interleaved, a program whose mutex blocks reports no message, decrypts none, acknowledges none and
sends none on: every packet that it sends is its own, and no acknowledgement. -/
theorem nothing_comes_through (net : NetworkInterface) (env : NodeEnv)
    (queueFile : Option (List UInt8)) (steps : List ProcessStep) :
    ∀ e ∈ (run net steps).trace (start env queueFile), e.Unrelayed env := by
  have unrelays : Preserves (fun b : Blocking env => b.program.HoldsOwn) (Effect.Unrelayed env)
      (run net steps) := by
    refine .runAll fun m mem => ?_
    obtain ⟨op, -, rfl⟩ := List.mem_map.1 mem
    exact unrelays_step op
  refine (unrelays (start env queueFile) fun point here => ?_).2
  rw [← MainAt.inLoop.inj here]
  trivial

/-- A node hears of another one by a packet that it would have to decrypt. -/
def dataArrives : List ProcessStep :=
  List.replicate 4 (.network none emptyData ⟨0, 0⟩) ++
    [.network (some (List.replicate 14 0 ++ emptyData.toBytes)) emptyData ⟨0, 0⟩]

theorem nothing_comes_through_dataArrives :
    Effect.log (.newNeighbor (macToString (sampleMac 1))) ∈
        (run NetworkInterface.openInterface dataArrives).trace (start receiverEnv none) ∧
      (Effect.log (.newNeighbor (macToString (sampleMac 1)))).Unrelayed receiverEnv := by
  have heard : Effect.log (.newNeighbor (macToString (sampleMac 1))) ∈
      (run NetworkInterface.openInterface dataArrives).trace (start receiverEnv none) := by
    decide +kernel
  exact ⟨heard, nothing_comes_through NetworkInterface.openInterface receiverEnv none dataArrives _ heard⟩

end Blocking

end Araba
