import Araba.Emission

/-!
# The sections of the `send` command

The command is interrupted between its sections, so the main thread is at one of several points when
the network thread runs. What it holds in its local variables at each of them. The sections that do
not take `net_mutex`, which are the encryption with `fragment_message` and each call of `enqueue`, are
single steps like the others; `SharedQueue` takes the calls on the queue apart.
-/

namespace Araba

open Traced

/-- The packet belongs to a message that the node sends to the destination. -/
def Packet.IsMessage (env : NodeEnv) (destMac : Mac) (p : Packet) : Prop :=
  p.header.type = .data ∧ p.header.source = env.myMac ∧ p.header.dest = destMac

/-- How far the main thread is in the `send` command, with its local variables. -/
inductive SendPoint
  | idle
  | checked (reachable : Bool) (destMac : Mac) (message : Str)
  | keyed (reachable : Bool) (destMac : Mac) (message : Str)
  | prepared (destMac : Mac) (message : Str) (fragments : List Packet)
  | transmitting (ackSeq : UInt32) (destMac : Mac) (message : Str) (fragments rest : List Packet)
  | enqueuing (destMac : Mac) (rest : List Packet)

namespace SendPoint

variable {env : NodeEnv}

/-- The command is entered. -/
def start (targetMac message : Str) (clock : Clock) : Action env SendPoint :=
  if targetMac.length = 0 ∨ message.length = 0 then return idle
  else do
    let destMac := stringToMac targetMac
    let reachable ← isReachable targetMac destMac clock
    return checked reachable destMac message

/-- The next section of the command. -/
def advance (clock : Clock) (junk : UInt32) : SendPoint → Action env SendPoint
  | idle => return idle
  | checked reachable destMac message => do
    let _ ← getPairCipher destMac
    return keyed reachable destMac message
  | keyed reachable destMac message => do
    let prepared ← encryptWithCipher destMac message clock
    match prepared with
    | none => return idle
    | some fragments =>
      return if reachable then .prepared destMac message fragments else enqueuing destMac fragments
  | prepared destMac message fragments => do
    let ackSeq ← takeAckSeq
    return transmitting ackSeq destMac message fragments fragments
  | transmitting ackSeq destMac message fragments (pkt :: rest) => do
    transmitPacket destMac pkt
    return transmitting ackSeq destMac message fragments rest
  | transmitting ackSeq destMac message _ [] => do
    registerAck ackSeq destMac message clock
    return idle
  | enqueuing destMac (pkt :: rest) => do
    enqueueFragment destMac clock junk pkt
    return enqueuing destMac rest
  | enqueuing _ [] => return idle

/-- The next `n` sections of the command, the network thread not running in between. -/
def finish (clock : Clock) (junk : UInt32) : ℕ → SendPoint → Action env Unit
  | 0, _ => pure ()
  | n + 1, point => do
    let next ← point.advance clock junk
    finish clock junk n next

/-- The packets are those of a message for the destination. -/
def Prepared (env : NodeEnv) : SendPoint → Prop
  | prepared destMac _ fragments => ∀ p ∈ fragments, p.IsMessage env destMac
  | transmitting _ destMac _ fragments rest =>
    (∀ p ∈ fragments, p.IsMessage env destMac) ∧ ∀ p ∈ rest, p.IsMessage env destMac
  | _ => True

/-- What is known of the messages that are registered, when the next section has been run. -/
def noteRegistered (registered : UInt32 → List Packet) : SendPoint → UInt32 → List Packet
  | transmitting ackSeq _ _ fragments [] => Function.update registered ackSeq fragments
  | _ => registered

end SendPoint

/-! ## What the sections do -/

section MainThread

variable {env : NodeEnv} {clock : Clock} {junk : UInt32}

namespace SendPoint

theorem sendCalls_encryptWithCipher (destMac : Mac) (message : Str) (s : NodeState env) :
    sendCalls ((encryptWithCipher destMac message clock).trace s) = [] := by
  have sends : Preserves (fun _ => True) (Effect.Sends fun _ => False)
      (encryptWithCipher destMac message clock : Action env (Option (List Packet))) :=
    preserves_encryptWithCipher (fun _ _ _ _ => trivial) trivial
  exact List.eq_nil_iff_forall_not_mem.2 (forall_mem_sendCalls (sends s trivial).2)

/-- What follows once the packets have been made, or have not. -/
theorem then_eq (encrypt : Action env (Option (List Packet))) (next : List Packet → SendPoint)
    (s : NodeState env) :
    (do
      let prepared ← encrypt
      match prepared with
      | none => return idle
      | some fragments => return next fragments : Action env SendPoint) s =
        ((encrypt.value s).elim idle next, encrypt.post s, encrypt.trace s) := by
  rw [← List.append_nil (encrypt.trace s)]
  show (Traced.value (match encrypt.value s with | none => _ | some fragments => _) (encrypt.post s),
    Traced.post (match encrypt.value s with | none => _ | some fragments => _) (encrypt.post s),
    encrypt.trace s ++
      Traced.trace (match encrypt.value s with | none => _ | some fragments => _) (encrypt.post s)) = _
  cases encrypt.value s with
  | none => rfl
  | some fragments => rfl

theorem advance_keyed (reachable : Bool) (destMac : Mac) (message : Str) (s : NodeState env) :
    (keyed reachable destMac message).advance clock junk s =
      (((prepareMessage destMac message clock).value s).elim idle fun fragments =>
          if reachable then prepared destMac message fragments else enqueuing destMac fragments,
        (encryptWithCipher destMac message clock).post s,
        (encryptWithCipher destMac message clock).trace s) := by
  rw [← value_encryptWithCipher]
  exact then_eq (encryptWithCipher destMac message clock) (fun fragments =>
    if reachable then prepared destMac message fragments else enqueuing destMac fragments) s

theorem value_advance_keyed (reachable : Bool) (destMac : Mac) (message : Str) (s : NodeState env) :
    ((keyed reachable destMac message).advance clock junk).value s =
      ((prepareMessage destMac message clock).value s).elim idle fun fragments =>
        if reachable then prepared destMac message fragments else enqueuing destMac fragments := by
  rw [Traced.value, advance_keyed]

theorem post_advance_keyed (reachable : Bool) (destMac : Mac) (message : Str) (s : NodeState env) :
    ((keyed reachable destMac message).advance clock junk).post s =
      (encryptWithCipher destMac message clock).post s := by
  rw [Traced.post, advance_keyed]

theorem trace_advance_keyed (reachable : Bool) (destMac : Mac) (message : Str) (s : NodeState env) :
    ((keyed reachable destMac message).advance clock junk).trace s =
      (encryptWithCipher destMac message clock).trace s := by
  rw [Traced.trace, advance_keyed]

/-- The main thread changes neither the neighbours nor the routes, and sends the packets that it
holds. -/
theorem preserves_advance {I : NodeState env → Prop} {E : Effect → Prop} (point : SendPoint)
    (state : ∀ s seqNum queue mgr ciphers pending next, I s → I { s with
      seqNum := seqNum
      queue := queue
      fragMgr := mgr
      pairCiphers := ciphers
      pendingAcks := pending
      nextAckSeq := next })
    (lock : E .lock) (unlock : E .unlock) (overrun : E .overrun)
    (send : ∀ ackSeq destMac message fragments pkt rest,
      point = transmitting ackSeq destMac message fragments (pkt :: rest) → E (.send pkt destMac)) :
    Preserves I E (point.advance clock junk) := by
  cases point with
  | idle => exact .pure _
  | checked reachable destMac message =>
    have cipher : Preserves I E (getPairCipher destMac) :=
      preserves_getPairCipher (fun s ciphers =>
        state s s.seqNum s.queue s.fragMgr ciphers s.pendingAcks s.nextAckSeq) lock unlock
    exact .bind cipher fun _ => .pure _
  | keyed reachable destMac message =>
    have encrypt : Preserves I E (encryptWithCipher destMac message clock) :=
      preserves_encryptWithCipher (fun s seqNum mgr =>
        state s seqNum s.queue mgr s.pairCiphers s.pendingAcks s.nextAckSeq) overrun
    refine .bind encrypt fun prepared => ?_
    cases prepared with
    | none => exact .pure _
    | some fragments => exact .pure _
  | prepared destMac message fragments =>
    exact .bind (.bind .get fun s => .bind (.modify fun s =>
      state s s.seqNum s.queue s.fragMgr s.pairCiphers s.pendingAcks _) fun _ => .pure _)
      fun _ => .pure _
  | transmitting ackSeq destMac message fragments rest =>
    cases rest with
    | nil =>
      exact .bind (.bind (.emit lock) fun _ => .bind (.modify fun s =>
        state s s.seqNum s.queue s.fragMgr s.pairCiphers _ s.nextAckSeq) fun _ => .emit unlock)
        fun _ => .pure _
    | cons pkt rest =>
      exact .bind (.bind (.emit lock) fun _ => .bind (.emit (send _ _ _ _ _ _ rfl)) fun _ =>
        .emit unlock) fun _ => .pure _
  | enqueuing destMac rest =>
    cases rest with
    | nil => exact .pure _
    | cons pkt rest =>
      exact .bind (.modify fun s =>
        state s s.seqNum _ s.fragMgr s.pairCiphers s.pendingAcks s.nextAckSeq) fun _ => .pure _

theorem leaves_advance {γ : Type} {f : NodeState env → γ}
    (h : ∀ s seqNum queue mgr ciphers pending next, f { s with
      seqNum := seqNum
      queue := queue
      fragMgr := mgr
      pairCiphers := ciphers
      pendingAcks := pending
      nextAckSeq := next } = f s) (point : SendPoint) : Leaves f (point.advance clock junk) :=
  Preserves.leaves fun _ => preserves_advance (E := fun _ => True) point
    (fun s _ _ _ _ _ _ hs => (h s _ _ _ _ _ _).trans hs) trivial trivial trivial
    fun _ _ _ _ _ _ _ => trivial

theorem preserves_start {I : NodeState env → Prop} {E : Effect → Prop} (lock : E .lock)
    (unlock : E .unlock) (targetMac message : Str) :
    Preserves I E (start targetMac message clock) :=
  .ite (.pure _) (.bind (.bind (.emit lock) fun _ => .bind .get fun _ => .bind (.emit unlock)
    fun _ => .pure _) fun _ => .pure _)

theorem leaves_start {γ : Type} (f : NodeState env → γ) (targetMac message : Str) :
    Leaves f (start targetMac message clock) :=
  Preserves.leaves fun _ => preserves_start (E := fun _ => True) trivial trivial targetMac message

theorem prepared_start (targetMac message : Str) (s : NodeState env) :
    ((start targetMac message clock).value s).Prepared env := by
  rw [start, value_ite]
  split_ifs <;> trivial

theorem isMessage_of_prepared {destMac : Mac} {message : Str} {s : NodeState env}
    {packets : List Packet} (sent : (prepareMessage destMac message clock).value s = some packets) :
    ∀ p ∈ packets, p.IsMessage env destMac := by
  obtain ⟨encrypted, -, -, rfl⟩ := exists_encrypted sent
  intro p hp
  obtain ⟨source, dest, type⟩ := Sending.header_of_mem hp
  exact ⟨type, source, dest⟩

theorem prepared_advance (point : SendPoint) (s : NodeState env) (h : point.Prepared env) :
    ((point.advance clock junk).value s).Prepared env := by
  cases point with
  | idle => trivial
  | checked reachable destMac message => trivial
  | keyed reachable destMac message =>
    rw [value_advance_keyed]
    cases made : (prepareMessage destMac message clock).value s with
    | none => trivial
    | some fragments =>
      show Prepared env (if reachable then _ else _)
      split_ifs
      · exact isMessage_of_prepared made
      · trivial
  | prepared destMac message fragments => exact ⟨h, h⟩
  | transmitting ackSeq destMac message fragments rest =>
    cases rest with
    | nil => trivial
    | cons pkt rest => exact ⟨h.1, fun p hp => h.2 p (List.mem_cons_of_mem _ hp)⟩
  | enqueuing destMac rest => cases rest <;> trivial

theorem Prepared.isMessage {point : SendPoint} (h : point.Prepared env) {ackSeq : UInt32}
    {destMac : Mac} {message : Str} {fragments rest : List Packet} {pkt : Packet}
    (next : point = transmitting ackSeq destMac message fragments (pkt :: rest)) :
    pkt.IsMessage env destMac := by
  subst next
  exact h.2 pkt List.mem_cons_self

theorem start_eq {d : Mac} {message : Str} {s : NodeState env} (some' : message ≠ [])
    (near : macToString d ∈ s.knownNeighbors) :
    (start (macToString d) message clock : Action env SendPoint) s =
      (.checked true d message, s, [.lock, .unlock]) := by
  have entered : ¬ ((macToString d).length = 0 ∨ message.length = 0) := by
    have name : (macToString d).length ≠ 0 := by
      simp only [macToString, List.length_append, hexByte, List.length_cons]
      omega
    rw [not_or, List.length_eq_zero_iff (l := message)]
    exact ⟨name, some'⟩
  rw [start, if_neg entered]
  show (checked (s.knownNeighbors.contains (macToString d) || _) (stringToMac (macToString d)) message,
    s, _) = _
  rw [stringToMac_macToString, show s.knownNeighbors.contains (macToString d) = true from near]
  rfl

/-- What a section does to the state is what the main thread does in a run of the node. -/
theorem exists_mainSteps (point : SendPoint) (s : NodeState env) :
    ∃ steps : List MainStep,
      (point.advance clock junk).post s = stateAfter s (steps.map NodeStep.main) := by
  cases point with
  | idle => exact ⟨[], rfl⟩
  | checked reachable destMac message => exact ⟨[.getPairCipher destMac], rfl⟩
  | keyed reachable destMac message =>
    exact ⟨[.encryptWithCipher destMac message clock], post_advance_keyed reachable destMac message s⟩
  | prepared destMac message fragments => exact ⟨[.takeAckSeq], rfl⟩
  | transmitting ackSeq destMac message fragments rest =>
    cases rest with
    | nil => exact ⟨[.registerAck ackSeq destMac message clock], rfl⟩
    | cons pkt rest => exact ⟨[.transmitPacket destMac pkt], rfl⟩
  | enqueuing destMac rest =>
    cases rest with
    | nil => exact ⟨[], rfl⟩
    | cons pkt rest => exact ⟨[.enqueueFragment destMac clock junk pkt], rfl⟩

/-! ### The command that is not interrupted -/

theorem finish_idle (n : ℕ) : (finish clock junk n idle : Action env Unit) = pure () := by
  induction n with
  | zero => rfl
  | succ n ih => rw [finish, advance, pure_bind, ih]

theorem finish_transmitting (ackSeq : UInt32) (destMac : Mac) (message : Str)
    (fragments rest : List Packet) (n : ℕ) :
    (finish clock junk (rest.length + 1 + n)
        (transmitting ackSeq destMac message fragments rest) : Action env Unit) =
      (do
        runAll (rest.map (transmitPacket destMac))
        registerAck ackSeq destMac message clock) := by
  induction rest with
  | nil =>
    rw [List.length_nil, zero_add, Nat.add_comm, finish, advance]
    simp only [bind_assoc, pure_bind, finish_idle, List.map_nil, runAll, bind_pure_unit]
  | cons pkt rest ih =>
    rw [List.length_cons, Nat.add_right_comm _ 1 n, Nat.add_right_comm _ 1 n, finish, advance]
    simp only [bind_assoc, pure_bind, List.map_cons, runAll, Nat.add_right_comm _ n 1, ih]

theorem finish_enqueuing (destMac : Mac) (rest : List Packet) (n : ℕ) :
    (finish clock junk (rest.length + n) (enqueuing destMac rest) : Action env Unit) =
      runAll (rest.map (enqueueFragment destMac clock junk)) := by
  induction rest with
  | nil =>
    cases n with
    | zero => rfl
    | succ n => rw [List.length_nil, zero_add, finish, advance, pure_bind, finish_idle]; rfl
  | cons pkt rest ih =>
    rw [List.length_cons, Nat.add_right_comm, finish, advance]
    simp only [bind_assoc, pure_bind, List.map_cons, runAll, ih]

/-- Run to its end without an interruption, the sections are the command. -/
theorem exists_finish_start (targetMac message : Str) (s : NodeState env) :
    ∃ n, ∀ k, (do
      let point ← start targetMac message clock
      finish clock junk (n + k) point : Action env Unit) s =
        sendCommand targetMac message clock junk s := by
  by_cases empty : targetMac.length = 0 ∨ message.length = 0
  · refine ⟨0, fun k => ?_⟩
    rw [start, sendCommand, if_pos empty, if_pos empty, pure_bind, finish_idle]
  · rw [start, sendCommand, if_neg empty, if_neg empty]
    simp only [bind_assoc, pure_bind]
    set destMac := stringToMac targetMac
    set check : Action env Bool := isReachable targetMac destMac clock
    simp only [prepareMessage_eq, bind_assoc]
    set cipher : Action env AES256 := getPairCipher destMac
    set encrypt : Action env (Option (List Packet)) := encryptWithCipher destMac message clock
    cases made : encrypt.value (cipher.post (check.post s)) with
    | none =>
      refine ⟨2, fun k => bind_congr_at check s ?_⟩
      rw [Nat.add_comm, finish, advance, bind_assoc]
      refine bind_congr_at cipher _ ?_
      rw [pure_bind, finish, advance, bind_assoc]
      refine bind_congr_at encrypt _ ?_
      rw [made, pure_bind, finish_idle]
    | some fragments =>
      refine ⟨fragments.length + 4, fun k => bind_congr_at check s ?_⟩
      rw [Nat.add_right_comm _ 4 k, finish, advance, bind_assoc]
      refine bind_congr_at cipher _ ?_
      rw [pure_bind, finish, advance, bind_assoc]
      refine bind_congr_at encrypt _ ?_
      rw [made]
      simp only [pure_bind]
      cases check.value s with
      | false =>
        rw [if_neg Bool.false_ne_true, if_neg Bool.false_ne_true, Nat.add_assoc, finish_enqueuing]
      | true =>
        rw [if_pos rfl, if_pos rfl, finish, advance]
        simp only [bind_assoc, pure_bind, Nat.add_right_comm _ k 1, finish_transmitting]

end SendPoint

end MainThread

end Araba
