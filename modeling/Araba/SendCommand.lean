import Araba.NetworkLoop

/-!
# The main thread

The `send` command of `main`: its sections, between which the network thread may run, and the whole
command.
-/

namespace Araba

open Bytes Traced

variable {env : NodeEnv}

/-- The first locked section: is there a neighbour of that name or a route? -/
def isReachable (targetMac : Str) (destMac : Mac) (clock : Clock) : Action env Bool := do
  emit .lock
  let s ← get
  emit .unlock
  return s.knownNeighbors.contains targetMac || (s.table.findNextHop destMac clock.time).isSome

/-- Encrypt and fragment; nothing when the encryption fails. -/
def encryptMessage (aes : AES256) (destMac : Mac) (message : Str) (clock : Clock) :
    Action env (Option (List Packet)) :=
  match encryptPayload message 1024 aes clock.steady with
  | .error .overrun => do
    emit .overrun
    return none
  | .ok encrypted =>
    if encrypted.length = 0 then return none
    else do
      let s ← get
      let fragments := s.fragMgr.fragmentMessage encrypted .data env.myMac destMac s.seqNum
      modify fun s => { s with
        fragMgr := fragments.2.1
        seqNum := fragments.2.2 }
      return some fragments.1

/-- From the look at `pair_ciphers` to the packets. -/
def prepareMessage (destMac : Mac) (message : Str) (clock : Clock) :
    Action env (Option (List Packet)) := do
  let aes ← getPairCipher destMac
  encryptMessage aes destMac message clock

/-- The same once the cipher is in `pair_ciphers`, where `aes` points to it. -/
def encryptWithCipher (destMac : Mac) (message : Str) (clock : Clock) :
    Action env (Option (List Packet)) := do
  let s ← get
  encryptMessage (s.pairCiphers.find destMac).1 destMac message clock

/-- `next_ack_seq++`. -/
def takeAckSeq : Action env UInt32 := do
  let s ← get
  modify fun s => { s with nextAckSeq := s.nextAckSeq + 1 }
  return s.nextAckSeq

/-- A packet is sent under the mutex. -/
def transmitPacket (destMac : Mac) (pkt : Packet) : Action env Unit := do
  emit .lock
  emit (.send pkt destMac)
  emit .unlock

/-- The message is entered in `pending_acks`, under the mutex. -/
def registerAck (ackSeq : UInt32) (destMac : Mac) (message : Str) (clock : Clock) :
    Action env Unit := do
  emit .lock
  modify fun s => { s with
    pendingAcks := s.pendingAcks.insert ackSeq
      { destMac := destMac
        retries := 0
        sentTime := clock.steady
        originalMsg := message
        seqNum := ackSeq } }
  emit .unlock

/-- `junk` is the count that `enqueue` starts from when the file has none. -/
def enqueueFragment (destMac : Mac) (clock : Clock) (junk : UInt32) (pkt : Packet) :
    Action env Unit :=
  modify fun s => { s with queue := (s.queue.enqueue destMac pkt.body clock.time junk).2 }

/-- The command, when the network thread does not run in between. -/
def sendCommand (targetMac message : Str) (clock : Clock) (junk : UInt32) : Action env Unit :=
  if targetMac.length = 0 ∨ message.length = 0 then pure ()
  else do
    let destMac := stringToMac targetMac
    let reachable ← isReachable targetMac destMac clock
    let prepared ← prepareMessage destMac message clock
    match prepared with
    | none => pure ()
    | some fragments =>
      if reachable then do
        let ackSeq ← takeAckSeq
        runAll (fragments.map (transmitPacket destMac))
        registerAck ackSeq destMac message clock
      else runAll (fragments.map (enqueueFragment destMac clock junk))

/-! ## What preparing a message changes -/

section Prepare

variable {I : NodeState env → Prop} {E : Effect → Prop} {destMac : Mac} {message : Str} {clock : Clock}

theorem preserves_getPairCipher
    (state : ∀ s ciphers, I s → I { s with pairCiphers := ciphers }) (lock : E .lock)
    (unlock : E .unlock) : Preserves I E (getPairCipher destMac) :=
  .bind (.emit lock) fun _ => .bind .get fun _ => .bind (.modify fun s => state s _) fun _ =>
    .bind (.emit unlock) fun _ => .pure _

theorem preserves_encryptMessage
    (state : ∀ s seqNum mgr, I s → I { s with
      seqNum := seqNum
      fragMgr := mgr })
    (overrun : E .overrun) (aes : AES256) :
    Preserves I E (encryptMessage aes destMac message clock) := by
  unfold encryptMessage
  cases encryptPayload message 1024 aes clock.steady with
  | error e => exact .bind (.emit overrun) fun _ => .pure none
  | ok encrypted =>
    exact .ite (.pure none) (.bind .get fun _ => .bind (.modify fun s => state s _ _) fun _ =>
      .pure _)

theorem preserves_encryptWithCipher
    (state : ∀ s seqNum mgr, I s → I { s with
      seqNum := seqNum
      fragMgr := mgr })
    (overrun : E .overrun) : Preserves I E (encryptWithCipher destMac message clock) :=
  .bind .get fun _ => preserves_encryptMessage state overrun _

theorem preserves_prepareMessage
    (state : ∀ s seqNum mgr ciphers, I s → I { s with
      seqNum := seqNum
      fragMgr := mgr
      pairCiphers := ciphers })
    (lock : E .lock) (unlock : E .unlock) (overrun : E .overrun) :
    Preserves I E (prepareMessage destMac message clock) :=
  .bind (preserves_getPairCipher (fun s => state s s.seqNum s.fragMgr) lock unlock) fun aes =>
    preserves_encryptMessage (fun s seqNum mgr => state s seqNum mgr s.pairCiphers) overrun aes

/-- Encrypting a message uses up numbers, and changes nothing else. -/
theorem exists_post_encryptMessage (aes : AES256) (destMac : Mac) (message : Str) (clock : Clock)
    (s : NodeState env) :
    ∃ seqNum nextMsgId, (encryptMessage aes destMac message clock).post s = { s with
      seqNum := seqNum
      fragMgr := { s.fragMgr with nextMsgId := nextMsgId } } := by
  unfold encryptMessage
  cases encryptPayload message 1024 aes clock.steady with
  | error e =>
    cases e
    exact ⟨s.seqNum, s.fragMgr.nextMsgId, rfl⟩
  | ok encrypted =>
    dsimp only
    rw [post_ite]
    split_ifs with failed
    · exact ⟨s.seqNum, s.fragMgr.nextMsgId, rfl⟩
    · obtain ⟨next, mgr⟩ : ∃ next, (s.fragMgr.fragmentMessage encrypted .data env.myMac destMac
          s.seqNum).2.1 = { s.fragMgr with nextMsgId := next } := by
        unfold FragmentManager.fragmentMessage
        split_ifs
        · exact ⟨s.fragMgr.nextMsgId, rfl⟩
        · exact ⟨_, rfl⟩
      refine ⟨(s.fragMgr.fragmentMessage encrypted .data env.myMac destMac s.seqNum).2.2, next, ?_⟩
      rw [← mgr]
      rfl

theorem exists_post_encryptWithCipher (destMac : Mac) (message : Str) (clock : Clock)
    (s : NodeState env) :
    ∃ seqNum nextMsgId, (encryptWithCipher destMac message clock).post s = { s with
      seqNum := seqNum
      fragMgr := { s.fragMgr with nextMsgId := nextMsgId } } := by
  rw [encryptWithCipher, post_bind]
  exact exists_post_encryptMessage _ destMac message clock s

variable {γ : Type} {f : NodeState env → γ}

theorem leaves_encryptWithCipher
    (h : ∀ s seqNum mgr, f { s with
      seqNum := seqNum
      fragMgr := mgr } = f s) : Leaves f (encryptWithCipher destMac message clock) :=
  Preserves.leaves fun _ => preserves_encryptWithCipher (E := fun _ => True)
    (fun s _ _ hs => (h s _ _).trans hs) trivial

theorem leaves_prepareMessage
    (h : ∀ s seqNum mgr ciphers, f { s with
      seqNum := seqNum
      fragMgr := mgr
      pairCiphers := ciphers } = f s) : Leaves f (prepareMessage destMac message clock) :=
  Preserves.leaves fun _ => preserves_prepareMessage (E := fun _ => True)
    (fun s _ _ _ hs => (h s _ _ _).trans hs) trivial trivial trivial

end Prepare

/-! ## Runs of the node -/

/-- A section of the command. -/
inductive MainStep
  | isReachable (targetMac : Str) (destMac : Mac) (clock : Clock)
  | getPairCipher (destMac : Mac)
  | encryptWithCipher (destMac : Mac) (message : Str) (clock : Clock)
  | takeAckSeq
  | transmitPacket (destMac : Mac) (pkt : Packet)
  | registerAck (ackSeq : UInt32) (destMac : Mac) (message : Str) (clock : Clock)
  | enqueueFragment (destMac : Mac) (clock : Clock) (junk : UInt32) (pkt : Packet)

/-- What the main thread does in the section. -/
def MainStep.action : MainStep → Action env Unit
  | isReachable targetMac destMac clock => do
    let _ ← Araba.isReachable targetMac destMac clock
    pure ()
  | getPairCipher destMac => do
    let _ ← Araba.getPairCipher destMac
    pure ()
  | encryptWithCipher destMac message clock => do
    let _ ← Araba.encryptWithCipher destMac message clock
    pure ()
  | takeAckSeq => do
    let _ ← Araba.takeAckSeq
    pure ()
  | transmitPacket destMac pkt => Araba.transmitPacket destMac pkt
  | registerAck ackSeq destMac message clock => Araba.registerAck ackSeq destMac message clock
  | enqueueFragment destMac clock junk pkt => Araba.enqueueFragment destMac clock junk pkt

/-- A step of either thread. -/
inductive NodeStep
  | network (step : NetworkStep)
  | main (step : MainStep)

/-- What the step does. -/
def NodeStep.action : NodeStep → Action env Unit
  | network step => step.action
  | main step => step.action

/-- The state after the steps of a run. -/
def stateAfter (s : NodeState env) (steps : List NodeStep) : NodeState env :=
  steps.foldl (fun s step => step.action.post s) s

/-- What the network thread does in the steps of a run, step by step. -/
def networkTraces : NodeState env → List NodeStep → List (List Effect)
  | _, [] => []
  | s, .network step :: steps => step.action.trace s :: networkTraces (step.action.post s) steps
  | s, .main step :: steps => networkTraces (step.action.post s) steps

theorem mem_networkTraces {s : NodeState env} {steps : List NodeStep} {es : List Effect} :
    es ∈ networkTraces s steps ↔
      ∃ pre step post, steps = pre ++ .network step :: post ∧
        es = step.action.trace (stateAfter s pre) := by
  induction steps generalizing s with
  | nil => simp [networkTraces]
  | cons first steps ih =>
    have later (pre : List NodeStep) (step : NetworkStep) (post : List NodeStep) :
        first :: steps = pre ++ .network step :: post ↔
          (pre = [] ∧ first = .network step ∧ steps = post) ∨
            ∃ pre', pre = first :: pre' ∧ steps = pre' ++ .network step :: post := by
      cases pre with
      | nil => simp
      | cons x pre => simp [eq_comm]
    simp only [later]
    cases first with
    | main step' =>
      rw [networkTraces, ih]
      constructor
      · rintro ⟨pre, step, post, rfl, rfl⟩
        exact ⟨.main step' :: pre, step, post, .inr ⟨pre, rfl, rfl⟩, rfl⟩
      · rintro ⟨pre, step, post, ⟨-, h, -⟩ | ⟨pre', rfl, rfl⟩, rfl⟩
        · cases h
        · exact ⟨pre', step, post, rfl, rfl⟩
    | network step' =>
      rw [networkTraces, List.mem_cons, ih]
      constructor
      · rintro (rfl | ⟨pre, step, post, rfl, rfl⟩)
        · exact ⟨[], step', steps, .inl ⟨rfl, rfl, rfl⟩, rfl⟩
        · exact ⟨.network step' :: pre, step, post, .inr ⟨pre, rfl, rfl⟩, rfl⟩
      · rintro ⟨pre, step, post, ⟨rfl, h, rfl⟩ | ⟨pre', rfl, rfl⟩, rfl⟩
        · cases h
          exact .inl rfl
        · exact .inr ⟨pre', step, post, rfl, rfl⟩

end Araba
