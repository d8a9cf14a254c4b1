import Araba.DamagedQueue
import Araba.DecryptBuffer
import Araba.EncryptBuffer
import Araba.Process
import Araba.QueueOrder

/-!
# The buffers of the whole program

When a run of the program writes past one of its arrays: on the way out, on the way in, and for the
queue, which only ever holds what the program itself has stored.
-/

namespace Araba

open Bytes Traced

variable {env : NodeEnv}

/-- An effect that is not an overrun. -/
def Effect.Safe (e : Effect) : Prop := e ≠ .overrun

theorem Effect.safe_log (event : LogEvent) : (Effect.log event).Safe := by
  intro h
  cases h

theorem Effect.safe_send (p : Packet) (link : Mac) : (Effect.send p link).Safe := by
  intro h
  cases h

theorem overrun_not_mem {α : Type} {m : Action env α} {I : NodeState env → Prop}
    (h : Preserves I Effect.Safe m) {s : NodeState env} (hs : I s) : .overrun ∉ m.trace s :=
  fun mem => (h s hs).2 _ mem rfl

/-! ## A packet -/

section Packet

variable {s : NodeState env}

theorem wellKept_stateAfter (h : s.queue.WellKept) (steps : List NodeStep) :
    (stateAfter s steps).queue.WellKept := by
  induction steps generalizing s with
  | nil => exact h
  | cons step steps ih => exact ih (keeps_mailboxes.invariant s (.node step) h)

theorem overrun_not_mem_autoDeliver (h : s.queue.WellKept) (received : Packet) :
    .overrun ∉ (autoDeliver received).trace s := by
  rw [overrun_mem_autoDeliver (fun _ _ => 0)]
  rintro ⟨e, pending, unsafe'⟩
  rw [safeToSend_iff] at unsafe'
  rw [RueQueue.getPending_eq_filter] at pending
  exact unsafe' (h.short e (List.mem_filter.1 pending).1)

theorem overrun_not_mem_handleControl (h : s.queue.WellKept) (received : Packet) (clock : Clock) :
    .overrun ∉ (handleControl received clock).trace s := by
  have learn : Preserves (fun s : NodeState env => s.queue.WellKept) Effect.Safe
      (learnNeighbor received clock) :=
    preserves_learnNeighbor (fun _ _ _ hs => hs) (Effect.safe_log _)
  have deliver : Preserves (fun s : NodeState env => s.queue.WellKept) Effect.Safe
      (autoDeliver received) := by
    intro s hs
    refine ⟨wellKept_autoDeliver received hs, ?_⟩
    rintro e mem rfl
    exact overrun_not_mem_autoDeliver hs received mem
  exact overrun_not_mem (learn.bind fun _ => deliver.bind fun _ =>
    (preserves_handleDiscovery (fun _ _ hs => hs) fun _ _ => Effect.safe_send _ _).bind fun _ =>
    (preserves_handleRouteAdv (fun _ _ hs => hs) (Effect.safe_log _)).bind fun _ =>
    preserves_handleAck (fun _ _ hs => hs) fun _ => Effect.safe_log _) h

/-- Handling a packet overruns exactly when it completes a message that is too long to decrypt. -/
theorem overrun_mem_handlePacket_iff (h : s.queue.WellKept) (received : Packet) (clock : Clock) :
    .overrun ∈ (handlePacket received clock).trace s ↔ CompletesLong env s.fragMgr received := by
  by_cases own : received.header.source = env.myMac
  · rw [handlePacket, if_pos own]
    exact iff_of_false (List.not_mem_nil) fun long => long.1 own
  · have frags := ((handleControl_quiet received clock s) s rfl).1
    have calls : ¬ (∀ encrypted ∈ decryptCall env received clock s.fragMgr, StaysInBuffer encrypted) ↔
        ¬ ¬ CompletesLong env s.fragMgr received := (decryptCall_staysInBuffer_iff s.fragMgr).not
    rw [not_not, not_forall] at calls
    simp only [Classical.not_imp] at calls
    rw [trace_handlePacket own, ← calls]
    simp only [List.mem_append, List.mem_singleton, reduceCtorEq, false_or, or_false,
      overrun_not_mem_handleControl h, overrun_mem_handleData_iff own, frags]

end Packet

/-! ## The other steps -/

section Steps

variable {s : NodeState env} {clock : Clock}

theorem overrun_not_mem_sendHello : .overrun ∉ (sendHello : Action env Unit).trace s :=
  overrun_not_mem (I := fun _ => True) (preserves_sendHello (fun _ _ _ => trivial)
    fun _ _ _ => Effect.safe_send _ _) trivial

theorem overrun_not_mem_retryPass : .overrun ∉ (retryPass clock : Action env Unit).trace s :=
  overrun_not_mem (I := fun _ => True) (preserves_retryPass (fun _ _ _ => trivial)
    fun _ => Effect.safe_log _) trivial

theorem overrun_not_mem_cleanupTick : .overrun ∉ (cleanupTick clock : Action env Unit).trace s :=
  overrun_not_mem (I := fun _ => True) (preserves_cleanupTick fun _ _ _ _ => trivial) trivial

/-- Encrypting a message overruns exactly when it is longer than the array that it is padded in. -/
theorem overrun_mem_encryptMessage_iff (aes : AES256) (destMac : Mac) (message : Str) :
    .overrun ∈ (encryptMessage aes destMac message clock).trace s ↔ 1024 < message.length := by
  have refused : encryptPayload message 1024 aes clock.steady = .error .overrun ↔
      1024 < message.length := encryptPayload_eq_error_iff _ _ message
  rw [← refused, encryptMessage]
  cases encryptPayload message 1024 aes clock.steady with
  | error e =>
    cases e
    exact iff_of_true (List.mem_singleton_self _) rfl
  | ok encrypted =>
    refine iff_of_false ?_ fun h => by cases h
    have quiet : Preserves (fun _ : NodeState env => True) Effect.Safe
        (if encrypted.length = 0 then pure none else do
          let s ← get
          let fragments := s.fragMgr.fragmentMessage encrypted .data env.myMac destMac s.seqNum
          modify fun s => { s with
            fragMgr := fragments.2.1
            seqNum := fragments.2.2 }
          return some fragments.1) :=
      .ite (.pure none) (.bind .get fun _ => .bind (.modify fun _ _ => trivial) fun _ => .pure _)
    exact overrun_not_mem quiet trivial

theorem overrun_mem_encryptWithCipher_iff (destMac : Mac) (message : Str) :
    .overrun ∈ (encryptWithCipher destMac message clock).trace s ↔ 1024 < message.length := by
  rw [encryptWithCipher, trace_bind, trace_get, List.nil_append, overrun_mem_encryptMessage_iff]

theorem overrun_mem_advance_iff (point : SendPoint) (junk : UInt32) :
    .overrun ∈ (point.advance clock junk).trace s ↔
      ∃ reachable destMac message, point = .keyed reachable destMac message ∧
        1024 < message.length := by
  cases point with
  | checked reachable destMac message =>
    have quiet : Effect.overrun ∉ [Effect.lock, .unlock] := by simp
    exact iff_of_false quiet (by simp)
  | keyed reachable destMac message =>
    rw [SendPoint.trace_advance_keyed, overrun_mem_encryptWithCipher_iff]
    simp
  | idle => exact iff_of_false List.not_mem_nil (by simp)
  | prepared destMac message fragments => exact iff_of_false List.not_mem_nil (by simp)
  | transmitting ackSeq destMac message fragments rest =>
    cases rest with
    | nil =>
      have quiet : Effect.overrun ∉ [Effect.lock, .unlock] := by simp
      exact iff_of_false quiet (by simp)
    | cons pkt rest =>
      have quiet : Effect.overrun ∉ [.lock, .send pkt destMac, .unlock] := by simp
      exact iff_of_false quiet (by simp)
  | enqueuing destMac rest =>
    cases rest with
    | nil => exact iff_of_false List.not_mem_nil (by simp)
    | cons pkt rest => exact iff_of_false List.not_mem_nil (by simp)

end Steps

/-! ## A run of the program -/

namespace Process

variable {net : NetworkInterface}

/-- The main thread is about to prepare a message that is longer than the array it is padded in. -/
def PreparesLong (p : Process env) : ProcessStep → Prop
  | .goOn _ _ => ∃ reachable destMac message, p.main = .inLoop (.keyed reachable destMac message) ∧
      1024 < message.length
  | _ => False

/-- The network thread receives the last fragment of a message that is too long to decrypt. -/
def ReceivesLong (net : NetworkInterface) (p : Process env) : ProcessStep → Prop
  | .network frame _ _ => ∃ i received packet, p.network = .receiving i received ∧
      net.receivePacket frame received = (true, packet) ∧ CompletesLong env p.node.fragMgr packet
  | _ => False

theorem overrun_mem_networkTurn_iff {p : Process env} (kept : p.node.queue.WellKept)
    (frame : Option (List UInt8)) (junk : Packet) (clock : Clock) :
    .overrun ∈ (networkTurn net frame junk clock p).trace p ↔
      ReceivesLong net p (.network frame junk clock) := by
  obtain ⟨node, running, main, network⟩ := p
  have other (quiet : .overrun ∉ (networkTurn net frame junk clock
      (⟨node, running, main, network⟩ : Process env)).trace ⟨node, running, main, network⟩)
      (place : ∀ i received, network ≠ .receiving i received) :
      .overrun ∈ (networkTurn net frame junk clock
        (⟨node, running, main, network⟩ : Process env)).trace ⟨node, running, main, network⟩ ↔
        ReceivesLong net ⟨node, running, main, network⟩ (.network frame junk clock) := by
    refine iff_of_false quiet ?_
    rintro ⟨i, received, packet, here, -⟩
    exact place i received here
  cases network with
  | receiving i received =>
    show .overrun ∈ (receiveTurn net frame i received clock).trace _ ↔ _
    cases got : net.receivePacket frame received with
    | mk ok packet =>
    rw [trace_receiveTurn got]
    cases ok with
    | false => simp [ReceivesLong, got]
    | true =>
      rw [if_pos rfl, overrun_mem_handlePacket_iff kept]
      simp [ReceivesLong, got]
  | entry => exact other (by simp [networkTurn, setNetwork]) (by simp)
  | top =>
    cases running with
    | true => exact other List.not_mem_nil (by simp)
    | false => exact other (by simp [networkTurn, setNetwork]) (by simp)
  | greeting =>
    refine other ?_ (by simp)
    show .overrun ∉ (sendHello : Action env Unit).trace node ++ []
    rw [List.append_nil]
    exact overrun_not_mem_sendHello
  | inner i received =>
    refine other ?_ (by simp)
    show .overrun ∉ Traced.trace (if i < 10 ∧ running = true then setNetwork _ else setNetwork _) _
    split_ifs
    · exact List.not_mem_nil
    · exact List.not_mem_nil
  | retrying =>
    refine other ?_ (by simp)
    show .overrun ∉ (retryPass clock : Action env Unit).trace node ++ []
    rw [List.append_nil]
    exact overrun_not_mem_retryPass
  | cleaning =>
    refine other ?_ (by simp)
    show .overrun ∉ (cleanupTick clock : Action env Unit).trace node ++ []
    rw [List.append_nil]
    exact overrun_not_mem_cleanupTick
  | stopped => exact other List.not_mem_nil (by simp)

theorem overrun_not_mem_runCommand (clock : Clock) (command : Command) (p : Process env) :
    .overrun ∉ (runCommand clock command).trace p := by
  cases command with
  | send targetMac message =>
    show .overrun ∉ (SendPoint.start targetMac message clock : Action env SendPoint).trace p.node ++ []
    rw [List.append_nil]
    exact overrun_not_mem (I := fun _ => True) (SendPoint.preserves_start (fun h => by cases h)
      (fun h => by cases h) targetMac message) trivial
  | list => simp [runCommand]
  | pending => simp [runCommand]
  | _ => exact List.not_mem_nil

theorem overrun_mem_step_iff {p : Process env} (kept : p.node.queue.WellKept) (step : ProcessStep) :
    .overrun ∈ (Process.step net step).trace p ↔ PreparesLong p step ∨ ReceivesLong net p step := by
  cases step with
  | line input clock =>
    refine iff_of_false ?_ (by simp [PreparesLong, ReceivesLong])
    obtain ⟨node, running, main, network⟩ := p
    cases main with
    | inLoop point =>
      cases point with
      | idle =>
        cases input with
        | none => exact List.not_mem_nil
        | some inputLine => exact overrun_not_mem_runCommand clock (parseCommand inputLine) _
      | _ => exact List.not_mem_nil
    | _ => exact List.not_mem_nil
  | goOn clock junk =>
    obtain ⟨node, running, main, network⟩ := p
    cases main with
    | inLoop point =>
      show .overrun ∈ (point.advance clock junk : Action env SendPoint).trace node ++ [] ↔ _
      rw [List.append_nil, overrun_mem_advance_iff]
      simp [PreparesLong, ReceivesLong]
    | _ => exact iff_of_false List.not_mem_nil (by simp [PreparesLong, ReceivesLong])
  | join =>
    refine iff_of_false ?_ (by simp [PreparesLong, ReceivesLong])
    obtain ⟨node, running, main, network⟩ := p
    cases main with
    | joining =>
      cases network with
      | _ => exact List.not_mem_nil
    | _ => exact List.not_mem_nil
  | network frame junk clock =>
    rw [or_iff_right (show ¬ PreparesLong p (.network frame junk clock) from id)]
    exact overrun_mem_networkTurn_iff kept frame junk clock

/-- However the program is used, from a queue file of entries that fit into a packet: a step writes
past an array exactly when a message of more than 1024 bytes is prepared, or when a packet completes
a message of more than 1040 bytes. -/
theorem overrun_iff {queueFile : Option (List UInt8)} {entries : List RueEntry}
    (valid : RueQueue.ValidStart queueFile entries) (short : RueQueue.NoneTooLong entries)
    (steps : List ProcessStep) (step : ProcessStep) :
    .overrun ∈ (Process.step net step).trace ((run net steps).post (start env queueFile)) ↔
      PreparesLong ((run net steps).post (start env queueFile)) step ∨
        ReceivesLong net ((run net steps).post (start env queueFile)) step := by
  obtain ⟨nodeSteps, rounds, done, history⟩ := (scheduled_start net env queueFile).run steps
  refine overrun_mem_step_iff ?_ step
  rw [history.node]
  exact wellKept_stateAfter (RueQueue.wellKept_start valid short).1 nodeSteps

/-- The steps of a program that is told to send a message, up to its encryption. -/
def beforeEncryption (inputLine : Str) : List ProcessStep :=
  [.line (some inputLine) ⟨0, 0⟩, .goOn ⟨0, 0⟩ 0]

theorem main_beforeEncryption (queueFile : Option (List UInt8)) {inputLine message : Str}
    (parsed : parseCommand inputLine = .send (text "02:00:00:00:00:02") message)
    (some' : message ≠ []) :
    ((run net (beforeEncryption inputLine)).post (start senderEnv queueFile)).main =
      .inLoop (.keyed false #v[2, 0, 0, 0, 0, 2] message) := by
  have entered : ¬ ((text "02:00:00:00:00:02").length = 0 ∨ message.length = 0) := by
    rw [List.length_eq_zero_iff (l := message), not_or]
    exact ⟨by decide, some'⟩
  show ((step net (.goOn ⟨0, 0⟩ 0)).post
    ((runCommand ⟨0, 0⟩ (parseCommand inputLine)).post (start senderEnv queueFile))).main = _
  rw [parsed, runCommand, SendPoint.start, if_neg entered]
  rfl

/-- A message that is one byte longer than the array that it is padded in. -/
def longMessage : Str := List.replicate 1025 0x61

theorem parseCommand_longMessage :
    parseCommand (text "send 02:00:00:00:00:02 " ++ longMessage) =
      .send (text "02:00:00:00:00:02") longMessage := by
  decide +kernel

/-- The message is sent by a program that has an entry in its queue. -/
theorem overrun_iff_long :
    .overrun ∈ (Process.step NetworkInterface.openInterface (.goOn ⟨0, 0⟩ 0)).trace
      ((run NetworkInterface.openInterface
        (beforeEncryption (text "send 02:00:00:00:00:02 " ++ longMessage))).post
          (start senderEnv (some (RueQueue.image [queuedEntry (sampleMac 3) (text "ho") 2 100])))) := by
  have some' : longMessage ≠ [] := List.replicate_succ_ne_nil
  have short : RueQueue.NoneTooLong [queuedEntry (sampleMac 3) (text "ho") 2 100] := by
    intro e mem
    obtain rfl := List.mem_singleton.1 mem
    decide
  refine (overrun_iff (Or.inr rfl) short _ (.goOn ⟨0, 0⟩ 0)).2
    (Or.inl ⟨_, _, _, main_beforeEncryption _ parseCommand_longMessage some', ?_⟩)
  rw [longMessage, List.length_replicate]
  omega

end Process

end Araba
