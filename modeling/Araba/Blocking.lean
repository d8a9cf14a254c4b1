import Araba.Locking
import Araba.Process

/-!
# The mutex that blocks

The program when a thread that requests `net_mutex` waits until it is free. The network thread, which
requests it a second time for a packet that needs a cipher, waits for itself, and the main thread at
its next section that takes the mutex.
-/

namespace Araba

open Bytes Traced Mutex

instance (mgr : FragmentManager) (p : Packet) : Decidable (Completes mgr p) :=
  inferInstanceAs (Decidable (_ ∧ _))

instance {env : NodeEnv} (s : NodeState env) (p : Packet) : Decidable (NeedsCipher s p) :=
  inferInstanceAs (Decidable (_ ∧ _ ∧ _))

/-! ## The handler up to the second request -/

section Handler

variable {env : NodeEnv} {received : Packet} {clock : Clock} {s : NodeState env}

/-- What is done with a packet before its cipher is looked up. -/
def handleUntilCipher (received : Packet) (clock : Clock) : Action env Unit := do
  emit .lock
  handleControl received clock
  if received.IsFragment then
    modify fun s => { s with fragMgr := ((reassembleCall received clock).run s.fragMgr).mgr }
  else pure ()

/-- The handler comes so far, and then requests the mutex that it holds. -/
theorem exists_trace_of_needsCipher (needs : NeedsCipher s received) :
    ∃ rest, (handlePacket received clock).trace s =
        (handleUntilCipher received clock).trace s ++ .lock :: rest ∧
      heldAfter lockOp false ((handleUntilCipher received clock).trace s) = true := by
  obtain ⟨other, data, cause⟩ := needs
  obtain ⟨same, quiet⟩ := handleControl_quiet received clock s s rfl
  have none' : ∀ e ∈ (handleControl received clock).trace s, lockOp e = none :=
    fun e he => lockOp_of_quiet (quiet e he)
  have until' : (handleUntilCipher received clock).trace s =
      .lock :: (handleControl received clock).trace s := by
    rw [handleUntilCipher, trace_bind, trace_bind, trace_ite]
    split_ifs
    · exact congrArg (Effect.lock :: ·) (List.append_nil _)
    · exact congrArg (Effect.lock :: ·) (List.append_nil _)
  have held : heldAfter lockOp false ((handleUntilCipher received clock).trace s) = true := by
    rw [until', ← List.singleton_append, heldAfter_append, heldAfter_of_none none']
    rfl
  have cipher (encrypted : List UInt8) (maxOut : ℕ) (next : List UInt8 → Action env Unit)
      (t : NodeState env) :
      ∃ rest, (decryptThen received encrypted maxOut next).trace t = .lock :: rest := by
    rw [decryptThen, trace_bind]
    exact ⟨_, rfl⟩
  obtain ⟨rest, locks⟩ : ∃ rest, (handleData received clock).trace
      ((handleControl received clock).post s) = .lock :: rest := by
    unfold handleData
    by_cases frag : received.IsFragment
    · have all : Completes ((handleControl received clock).post s).fragMgr received := by
        rw [same]
        exact cause.resolve_left (not_not.2 frag)
      rw [if_pos data, if_pos frag,
        handleFragment_of_complete ((complete_reassembleCall_iff clock frag _).2 all)]
      exact cipher _ _ _ _
    · rw [if_pos data, if_neg frag]
      exact cipher _ _ _ _
  refine ⟨rest ++ [.unlock], ?_, held⟩
  rw [trace_handlePacket other, locks, until']
  rfl

end Handler

/-! ## The two threads -/

/-- The step requests the mutex. -/
def Asks {env : NodeEnv} (net : NetworkInterface) (step : ProcessStep) (p : Process env) : Prop :=
  ∃ e ∈ (Process.step net step).trace p, lockOp e = some .acquire

instance {env : NodeEnv} (net : NetworkInterface) (step : ProcessStep) (p : Process env) :
    Decidable (Asks net step p) :=
  inferInstanceAs (Decidable (∃ e ∈ _, _))

/-- The program, and which of its threads waits for the mutex. The network thread keeps it while it is
stuck; the sections of the main thread end with it free. -/
structure Blocking (env : NodeEnv) where
  program : Process env
  stuck : Bool := false
  waiting : Bool := false

namespace Blocking

variable {env : NodeEnv}

/-- The step is made. -/
def proceed (net : NetworkInterface) (step : ProcessStep) : Traced (Blocking env) Effect Unit :=
  fun b => ((), { b with program := (Process.step net step).post b.program },
    (Process.step net step).trace b.program)

/-- The network thread comes as far as to the second request. -/
def stick (packet : Packet) (clock : Clock) : Traced (Blocking env) Effect Unit := fun b =>
  ((), { b with
    program := { b.program with node := (handleUntilCipher packet clock).post b.program.node }
    stuck := true }, (handleUntilCipher packet clock).trace b.program.node)

/-- A thread that waits makes no step. -/
def step (net : NetworkInterface) : ProcessStep → Traced (Blocking env) Effect Unit
  | .network frame junk clock => do
    let b ← get
    if b.stuck then pure ()
    else
      match (Process.handledBy net b.program (.network frame junk clock)).find?
          fun packet => NeedsCipher b.program.node packet with
      | some packet => stick packet clock
      | none => proceed net (.network frame junk clock)
  | main => do
    let b ← get
    if b.waiting then pure ()
    else if b.stuck ∧ Asks net main b.program then modify fun b => { b with waiting := true }
    else proceed net main

/-- The steps, one after the other. -/
def run (net : NetworkInterface) (steps : List ProcessStep) : Traced (Blocking env) Effect Unit :=
  runAll (steps.map (step net))

/-- The program has just started, and no thread waits. -/
def start (env : NodeEnv) (queueFile : Option (List UInt8)) : Blocking env where
  program := .start env queueFile

variable {net : NetworkInterface} {b : Blocking env}

/-- A step of the main thread begins with the mutex, unless nobody else sees what it does. -/
theorem trace_main {op : ProcessStep} (main : op.isNetwork = false) (p : Process env) :
    (∀ e ∈ (Process.step net op).trace p, e = .overrun) ∨
      ∃ rest, (Process.step net op).trace p = .lock :: rest := by
  obtain ⟨node, running, at', network⟩ := p
  have silent : ∀ e ∈ ([] : List Effect), e = .overrun := fun e mem => absurd mem List.not_mem_nil
  cases op with
  | network frame junk clock => cases main
  | join =>
    cases at' with
    | joining => cases network <;> exact Or.inl silent
    | _ => exact Or.inl silent
  | goOn clock junk =>
    cases at' with
    | inLoop point =>
      cases point with
      | checked reachable destMac message => exact Or.inr ⟨_, rfl⟩
      | keyed reachable destMac message =>
        refine Or.inl fun e mem => ?_
        have encrypts : Preserves (fun _ => True) (· = .overrun)
            (encryptWithCipher destMac message clock : Action env _) :=
          preserves_encryptWithCipher (fun _ _ _ _ => trivial) rfl
        have same : ((SendPoint.keyed reachable destMac message).advance clock junk).trace node =
            (encryptWithCipher destMac message clock).trace node :=
          SendPoint.trace_advance_keyed reachable destMac message node
        refine (encrypts node trivial).2 e ?_
        rw [← same, ← List.append_nil (Traced.trace _ node)]
        exact mem
      | transmitting ackSeq destMac message fragments rest =>
        cases rest <;> exact Or.inr ⟨_, rfl⟩
      | enqueuing destMac rest => cases rest <;> exact Or.inl silent
      | _ => exact Or.inl silent
    | _ => exact Or.inl silent
  | line input clock =>
    cases at' with
    | inLoop point =>
      cases point with
      | idle =>
        cases input with
        | none => exact Or.inl silent
        | some inputLine =>
          show (∀ e ∈ (Process.runCommand clock (parseCommand inputLine)).trace _, e = .overrun) ∨
            ∃ rest, (Process.runCommand clock (parseCommand inputLine)).trace _ = .lock :: rest
          cases parseCommand inputLine with
          | list => exact Or.inr ⟨_, rfl⟩
          | pending => exact Or.inr ⟨_, rfl⟩
          | send targetMac message =>
            rw [Process.runCommand, trace_bind]
            show (∀ e ∈ (SendPoint.start targetMac message clock).trace node ++ [], e = .overrun) ∨
              ∃ rest, (SendPoint.start targetMac message clock).trace node ++ [] = .lock :: rest
            unfold SendPoint.start
            rw [trace_ite]
            split_ifs
            · exact Or.inl silent
            · exact Or.inr ⟨_, rfl⟩
          | _ => exact Or.inl silent
      | _ => exact Or.inl silent
    | _ => exact Or.inl silent

theorem step_network (frame : Option (List UInt8)) (junk : Packet) (clock : Clock) :
    step net (.network frame junk clock) b =
      if b.stuck then ((), b, [])
      else
        ((Process.handledBy net b.program (.network frame junk clock)).find?
          fun packet => NeedsCipher b.program.node packet).elim
            (proceed net (.network frame junk clock) b) fun packet => stick packet clock b := by
  have read := bind_of_idle (rfl : (get : Traced (Blocking env) Effect _) b = (b, b, [])) fun b =>
    if b.stuck then pure ()
    else
      match (Process.handledBy net b.program (.network frame junk clock)).find?
          fun packet => NeedsCipher b.program.node packet with
      | some packet => stick packet clock
      | none => proceed net (.network frame junk clock)
  refine read.trans ?_
  split_ifs
  · rfl
  · cases (Process.handledBy net b.program (.network frame junk clock)).find?
        fun packet => NeedsCipher b.program.node packet with
    | _ => rfl

theorem step_main {op : ProcessStep} (main : op.isNetwork = false) :
    step net op b =
      if b.waiting then ((), b, [])
      else if b.stuck ∧ Asks net op b.program then ((), { b with waiting := true }, [])
      else proceed net op b := by
  have read := bind_of_idle (rfl : (get : Traced (Blocking env) Effect _) b = (b, b, [])) fun b =>
    if b.waiting then pure ()
    else if b.stuck ∧ Asks net op b.program then modify fun b => { b with waiting := true }
    else proceed net op
  cases op with
  | network frame junk clock => cases main
  | _ =>
    refine read.trans ?_
    split_ifs <;> rfl

theorem step_cases (net : NetworkInterface) (op : ProcessStep) (b : Blocking env) :
    (b.stuck = true ∧
        (step net op b = ((), b, []) ∨ step net op b = ((), { b with waiting := true }, []))) ∨
      (b.waiting = true ∧ step net op b = ((), b, [])) ∨
      (b.stuck = false ∧ ∃ frame junk clock packet, op = .network frame junk clock ∧
        packet ∈ Process.handledBy net b.program op ∧ NeedsCipher b.program.node packet ∧
        step net op b = stick packet clock b) ∨
      ((b.stuck = true → op.isNetwork = false ∧
          ∀ e ∈ (Process.step net op).trace b.program, e = .overrun) ∧
        (∀ packet ∈ Process.handledBy net b.program op, ¬ NeedsCipher b.program.node packet) ∧
        step net op b = proceed net op b) := by
  cases main : op.isNetwork with
  | true =>
    cases op with
    | network frame junk clock =>
      cases stuck : b.stuck with
      | true =>
        refine Or.inl ⟨rfl, Or.inl ?_⟩
        rw [step_network, if_pos stuck]
      | false =>
        rw [step_network, if_neg (by simp [stuck])]
        cases found : (Process.handledBy net b.program (.network frame junk clock)).find?
            fun packet => NeedsCipher b.program.node packet with
        | some packet =>
          exact Or.inr (Or.inr (Or.inl ⟨rfl, frame, junk, clock, packet, rfl,
            List.mem_of_find?_eq_some found, by simpa using List.find?_some found, rfl⟩))
        | none =>
          refine Or.inr (Or.inr (Or.inr ⟨by simp, fun packet mem => ?_, rfl⟩))
          simpa using List.find?_eq_none.1 found packet mem
    | _ => cases main
  | false =>
    rw [step_main main]
    split_ifs with waiting asked
    · exact Or.inr (Or.inl ⟨waiting, rfl⟩)
    · exact Or.inl ⟨asked.1, Or.inr rfl⟩
    · refine Or.inr (Or.inr (Or.inr ⟨fun stuck => ⟨rfl, ?_⟩, ?_, rfl⟩))
      · rcases trace_main main b.program with quiet | ⟨rest, first⟩
        · exact quiet
        · exact absurd ⟨stuck, .lock, first ▸ List.mem_cons_self, rfl⟩ asked
      · intro packet mem
        cases op with
        | network frame junk clock => cases main
        | _ => cases mem

/-! ## Once it is stuck -/

theorem sound_withNode {p : Process env} (h : Process.Sound p) (node : NodeState env) :
    Process.Sound { p with node := node } := by
  rcases h with running | stopping
  · exact Or.inl running
  · exact Or.inr ⟨stopping.running, stopping.main⟩

/-- The network thread waits for the mutex that it holds. -/
structure Held (b : Blocking env) : Prop where
  stuck : b.stuck = true
  receiving : ∃ i received, b.program.network = .receiving i received
  sound : Process.Sound b.program

theorem Held.not_exited (h : Held b) : b.program.main ≠ .exited := by
  intro exited
  obtain ⟨i, received, network⟩ := h.receiving
  rcases h.sound with ⟨-, point, main⟩ | stopping
  · rw [exited] at main
    cases main
  · rcases stopping.main with main | ⟨-, stopped⟩
    · rw [exited] at main
      cases main
    · rw [network] at stopped
      cases stopped

/-- The states differ at most in what the main thread changes without the mutex: the queue, and the
numbers of packets and messages. -/
def Unlocked (s s' : NodeState env) : Prop :=
  ∃ queue seqNum nextMsgId nextAckSeq, s' = { s with
    queue := queue
    seqNum := seqNum
    fragMgr := { s.fragMgr with nextMsgId := nextMsgId }
    nextAckSeq := nextAckSeq }

theorem Unlocked.refl (s : NodeState env) : Unlocked s s :=
  ⟨s.queue, s.seqNum, s.fragMgr.nextMsgId, s.nextAckSeq, rfl⟩

theorem Unlocked.trans {s t u : NodeState env} (h : Unlocked s t) (h' : Unlocked t u) :
    Unlocked s u := by
  obtain ⟨queue, seqNum, nextMsgId, nextAckSeq, rfl⟩ := h
  obtain ⟨queue', seqNum', nextMsgId', nextAckSeq', rfl⟩ := h'
  exact ⟨queue', seqNum', nextMsgId', nextAckSeq', rfl⟩

theorem unlocked_main {op : ProcessStep} (main : op.isNetwork = false) {p : Process env}
    (quiet : ∀ e ∈ (Process.step net op).trace p, e = .overrun) :
    Unlocked p.node ((Process.step net op).post p).node := by
  obtain ⟨node, running, at', network⟩ := p
  have same : Unlocked node node := .refl node
  have locks {es : List Effect} (all : ∀ e ∈ Effect.lock :: es, e = .overrun) : False :=
    absurd (all .lock List.mem_cons_self) (by decide)
  cases op with
  | network frame junk clock => cases main
  | join =>
    cases at' with
    | joining => cases network <;> exact same
    | _ => exact same
  | goOn clock junk =>
    cases at' with
    | inLoop point =>
      cases point with
      | idle => exact same
      | checked reachable destMac message => exact (locks quiet).elim
      | keyed reachable destMac message =>
        show Unlocked node (((SendPoint.keyed reachable destMac message).advance clock junk).post node)
        obtain ⟨seqNum, nextMsgId, post⟩ := exists_post_encryptWithCipher destMac message clock node
        rw [SendPoint.post_advance_keyed, post]
        exact ⟨node.queue, seqNum, nextMsgId, node.nextAckSeq, rfl⟩
      | prepared destMac message fragments =>
        exact ⟨node.queue, node.seqNum, node.fragMgr.nextMsgId, _, rfl⟩
      | transmitting ackSeq destMac message fragments rest =>
        cases rest <;> exact (locks quiet).elim
      | enqueuing destMac rest =>
        cases rest with
        | nil => exact same
        | cons pkt rest => exact ⟨_, node.seqNum, node.fragMgr.nextMsgId, node.nextAckSeq, rfl⟩
    | _ => exact same
  | line input clock =>
    cases at' with
    | inLoop point =>
      cases point with
      | idle =>
        cases input with
        | none => exact same
        | some inputLine =>
          show Unlocked node ((Process.runCommand clock (parseCommand inputLine)).post _).node
          cases parseCommand inputLine with
          | send targetMac message =>
            have kept : (SendPoint.start targetMac message clock : Action env SendPoint).post node =
              node := SendPoint.leaves_start id targetMac message node
            show Unlocked node ((SendPoint.start targetMac message clock).post node)
            rw [kept]
            exact same
          | _ => exact same
      | _ => exact same
    | _ => exact same

theorem Held.next (h : Held b) (net : NetworkInterface) (op : ProcessStep) :
    Held ((step net op).post b) ∧ (∀ e ∈ (step net op).trace b, e = .overrun) ∧
      Unlocked b.program.node ((step net op).post b).program.node := by
  have same : Unlocked b.program.node b.program.node := .refl _
  have silent : ∀ e ∈ ([] : List Effect), e = .overrun := fun e mem => absurd mem List.not_mem_nil
  rw [Traced.post, Traced.trace]
  rcases step_cases net op b with ⟨-, stays | waits⟩ | ⟨-, stays⟩ | ⟨free, -⟩ | ⟨main, -, moves⟩
  · rw [stays]
    exact ⟨h, silent, same⟩
  · rw [waits]
    exact ⟨⟨h.stuck, h.receiving, h.sound⟩, silent, same⟩
  · rw [stays]
    exact ⟨h, silent, same⟩
  · rw [h.stuck] at free
    cases free
  · obtain ⟨main, quiet⟩ := main h.stuck
    rw [moves]
    refine ⟨⟨h.stuck, ?_, h.sound.step op⟩, quiet, unlocked_main main quiet⟩
    obtain ⟨i, received, network⟩ := h.receiving
    exact ⟨i, received, (Process.network_step main).trans network⟩

theorem Held.after (h : Held b) (net : NetworkInterface) (steps : List ProcessStep) :
    Held ((run net steps).post b) ∧ (∀ e ∈ (run net steps).trace b, e = .overrun) ∧
      Unlocked b.program.node ((run net steps).post b).program.node := by
  induction steps generalizing b with
  | nil => exact ⟨h, fun e mem => absurd mem List.not_mem_nil, .refl _⟩
  | cons op steps ih =>
    obtain ⟨held, quiet, node⟩ := h.next net op
    obtain ⟨held', quiet', node'⟩ := ih held
    refine ⟨held', fun e mem => ?_, node.trans node'⟩
    have events : e ∈ (step net op).trace b ++ (run net steps).trace ((step net op).post b) := mem
    rcases List.mem_append.1 events with first | later
    · exact quiet e first
    · exact quiet' e later

/-! ## Until it is stuck -/

/-- In the run of a program whose mutex would not block, a packet that needs a cipher is handled. -/
def NeedsIn (net : NetworkInterface) : Process env → List ProcessStep → Prop
  | _, [] => False
  | p, op :: steps => (∃ packet ∈ Process.handledBy net p op, NeedsCipher p.node packet) ∨
      NeedsIn net ((Process.step net op).post p) steps

/-- No thread waits, and `main` is where it can be. -/
structure Free (b : Blocking env) : Prop where
  stuck : b.stuck = false
  waiting : b.waiting = false
  sound : Process.Sound b.program

theorem free_start (queueFile : Option (List UInt8)) : Free (start env queueFile) :=
  ⟨rfl, rfl, Or.inl ⟨rfl, .idle, rfl⟩⟩

/-- A step of a program that is not stuck: the step of one whose mutex would not block, or the one in
which it gets stuck. -/
theorem Free.next (h : Free b) (net : NetworkInterface) (op : ProcessStep) :
    ((∀ packet ∈ Process.handledBy net b.program op, ¬ NeedsCipher b.program.node packet) ∧
        step net op b = proceed net op b ∧ Free ((step net op).post b)) ∨
      ((∃ packet ∈ Process.handledBy net b.program op, NeedsCipher b.program.node packet) ∧
        Held ((step net op).post b)) := by
  rw [Traced.post]
  rcases step_cases net op b with
    ⟨stuck, -⟩ | ⟨waiting, -⟩ | ⟨-, frame, junk, clock, packet, rfl, mem, needs, sticks⟩ |
      ⟨-, unneeded, moves⟩
  · rw [h.stuck] at stuck
    cases stuck
  · rw [h.waiting] at waiting
    cases waiting
  · refine Or.inr ⟨⟨packet, mem, needs⟩, ?_⟩
    rw [sticks]
    refine ⟨rfl, ?_, sound_withNode h.sound _⟩
    have handled : packet ∈ Process.handledBy net b.program (.network frame junk clock) := mem
    unfold Process.handledBy at handled
    show ∃ i received, b.program.network = .receiving i received
    cases at' : b.program.network with
    | receiving i received => exact ⟨i, received, rfl⟩
    | _ =>
      rw [at'] at handled
      cases handled
  · rw [moves]
    exact Or.inl ⟨unneeded, rfl, h.stuck, h.waiting, h.sound.step op⟩

theorem Free.after (h : Free b) (net : NetworkInterface) (steps : List ProcessStep) :
    (¬ NeedsIn net b.program steps ∧ Free ((run net steps).post b) ∧
        ((run net steps).post b).program = (Process.run net steps).post b.program ∧
        (run net steps).trace b = (Process.run net steps).trace b.program) ∨
      (NeedsIn net b.program steps ∧ Held ((run net steps).post b)) := by
  induction steps generalizing b with
  | nil => exact Or.inl ⟨id, h, rfl, rfl⟩
  | cons op steps ih =>
    rcases h.next net op with ⟨unneeded, moves, free⟩ | ⟨needs, held⟩
    · have post : ((step net op).post b).program = (Process.step net op).post b.program := by
        rw [Traced.post, moves]
        rfl
      have trace : (step net op).trace b = (Process.step net op).trace b.program := by
        rw [Traced.trace, moves]
        rfl
      rcases ih free with ⟨unneeded', free', program, events⟩ | ⟨needs, held⟩
      · rw [post] at unneeded' program events
        refine Or.inl ⟨?_, free', program, ?_⟩
        · rintro (⟨packet, mem, needs⟩ | later)
          · exact unneeded packet mem needs
          · exact unneeded' later
        · show (step net op).trace b ++
            (run net steps).trace ((step net op).post b) = _
          rw [trace, events]
          rfl
      · rw [post] at needs
        exact Or.inr ⟨Or.inr needs, held⟩
    · exact Or.inr ⟨Or.inl needs, (held.after net steps).1⟩

theorem post_run_append (steps later : List ProcessStep) (b : Blocking env) :
    (run net (steps ++ later)).post b = (run net later).post ((run net steps).post b) := by
  rw [run, List.map_append, (runAll_append _ _ _).1]
  rfl

/-- When a program gets stuck. Until it takes a packet off the wire that needs a cipher, it does what
it would do if the mutex did not block. From then on it sends and logs nothing and never ends, whatever
is typed and received: the main thread can still make its packets and store them, and pad a message
that is too long for its array, but of the node only the queue and the numbers of packets and messages
can change. -/
theorem stuck_iff (net : NetworkInterface) (env : NodeEnv) (queueFile : Option (List UInt8))
    (steps : List ProcessStep) :
    (((run net steps).post (start env queueFile)).stuck = true ↔
        NeedsIn net (Process.start env queueFile) steps) ∧
      (((run net steps).post (start env queueFile)).stuck = false →
        ((run net steps).post (start env queueFile)).program =
            (Process.run net steps).post (Process.start env queueFile) ∧
          (run net steps).trace (start env queueFile) =
            (Process.run net steps).trace (Process.start env queueFile)) ∧
      (((run net steps).post (start env queueFile)).stuck = true → ∀ later : List ProcessStep,
        (∀ e ∈ (run net later).trace ((run net steps).post (start env queueFile)), e = .overrun) ∧
          ((run net (steps ++ later)).post (start env queueFile)).program.main ≠ .exited ∧
          Unlocked ((run net steps).post (start env queueFile)).program.node
            ((run net (steps ++ later)).post (start env queueFile)).program.node) := by
  rcases (free_start queueFile).after net steps with ⟨unneeded, free, program, events⟩ | ⟨needs, held⟩
  · refine ⟨iff_of_false (by simp [free.stuck]) unneeded, fun _ => ⟨program, events⟩, fun stuck => ?_⟩
    rw [free.stuck] at stuck
    cases stuck
  · refine ⟨iff_of_true held.stuck needs, fun free => ?_, fun _ later => ?_⟩
    · rw [held.stuck] at free
      cases free
    · obtain ⟨held', quiet, node⟩ := held.after net later
      rw [post_run_append]
      exact ⟨quiet, held'.not_exited, node⟩

/-! ## The end of the program -/

/-- The packets that the network thread takes off the wire in a run. -/
def handledIn (net : NetworkInterface) : Blocking env → List ProcessStep → List Packet
  | _, [] => []
  | b, op :: steps => (if b.stuck then [] else Process.handledBy net b.program op) ++
      handledIn net ((step net op).post b) steps

theorem handledIn_of_held (h : Held b) (steps : List ProcessStep) : handledIn net b steps = [] := by
  induction steps generalizing b with
  | nil => rfl
  | cons op steps ih => rw [handledIn, if_pos h.stuck, ih (h.next net op).1]; rfl

theorem handledIn_of_free (h : Free b) (steps : List ProcessStep) :
    handledIn net b steps <+: Process.handledIn net b.program steps := by
  induction steps generalizing b with
  | nil => exact List.prefix_refl _
  | cons op steps ih =>
    rw [handledIn, if_neg (by simp [h.stuck]), Process.handledIn, List.prefix_append_right_inj]
    rcases h.next net op with ⟨-, moves, free⟩ | ⟨-, held⟩
    · have post : ((step net op).post b).program = (Process.step net op).post b.program := by
        rw [Traced.post, moves]
        rfl
      rw [← post]
      exact ih free
    · rw [handledIn_of_held held]
      exact List.nil_prefix

theorem run_of_exited (h : Free b) (main : b.program.main = .exited)
    (network : b.program.network = .stopped) (steps : List ProcessStep) :
    run net steps b = ((), b, []) := by
  induction steps with
  | nil => rfl
  | cons op steps ih =>
    have idle : step net op b = ((), b, []) := by
      rcases h.next net op with ⟨-, moves, -⟩ | ⟨⟨packet, mem, -⟩, -⟩
      · rw [moves, proceed, Traced.post, Traced.trace, Process.step_of_exited main network]
      · unfold Process.handledBy at mem
        rw [network] at mem
        cases op <;> cases mem
    exact (bind_of_idle idle fun _ => run net steps).trans ih

/-- Once `main` has left its loop, the network thread handles at most the packet that it is waiting
for. If the thread does not get stuck with it, and is not stuck already, five of its steps and the join
end the program; otherwise it never ends. When it has ended, nothing is done any more. -/
theorem shutdown {queueFile : Option (List UInt8)} {before : List ProcessStep}
    (quit : ((run net before).post (start env queueFile)).program.running = false)
    (after : List ProcessStep) :
    (handledIn net ((run net before).post (start env queueFile)) after).length ≤ 1 ∧
      (5 ≤ after.countP ProcessStep.isNetwork →
        (((run net (before ++ (after ++ [.join]))).post (start env queueFile)).program.main = .exited ↔
          ((run net (before ++ after)).post (start env queueFile)).stuck = false)) ∧
      (((run net (before ++ after)).post (start env queueFile)).program.main = .exited →
        ∀ later, run net later ((run net (before ++ after)).post (start env queueFile)) =
          ((), (run net (before ++ after)).post (start env queueFile), [])) := by
  simp only [post_run_append]
  have reached := (free_start queueFile : Free (start env queueFile)).after net before
  generalize (run net before).post (start env queueFile) = b at quit reached ⊢
  rcases reached with ⟨-, free, -, -⟩ | ⟨-, held⟩
  · have stopping : Process.Stopping b.program := by
      rcases free.sound with ⟨running, -⟩ | stopping
      · rw [quit] at running
        cases running
      · exact stopping
    have few : (handledIn net b after).length ≤ 1 := by
      refine (handledIn_of_free free after).length_le.trans ((stopping.handledIn after).trans ?_)
      cases b.program.network with
      | receiving i received => exact le_rfl
      | _ => exact Nat.zero_le _
    refine ⟨few, fun enough => ?_, fun exited => ?_⟩
    · rcases free.after net after with ⟨-, free', program, -⟩ | ⟨-, held⟩
      · refine iff_of_true ?_ free'.stuck
        rcases free'.next net .join with ⟨-, moves, -⟩ | ⟨⟨packet, mem, -⟩, -⟩
        · show (((step net .join).post ((run net after).post b)).program).main = .exited
          rw [Traced.post, moves, proceed, program]
          exact (stopping.exits enough).1
        · cases mem
      · refine iff_of_false ?_ (by simp [held.stuck])
        exact (held.after net [.join]).1.not_exited
    · rcases free.after net after with ⟨-, free', program, -⟩ | ⟨-, held⟩
      · rw [program] at exited
        have network : ((Process.run net after).post b.program).network = .stopped := by
          rcases (stopping.run after).main with main | ⟨-, network⟩
          · rw [exited] at main
            cases main
          · exact network
        exact run_of_exited free' (program ▸ exited) (program ▸ network)
      · exact absurd exited held.not_exited
  · have held' := (held.after net after).1
    refine ⟨?_, fun _ => iff_of_false ?_ (by simp [held'.stuck]), fun exited => ?_⟩
    · rw [handledIn_of_held held]
      exact Nat.zero_le _
    · exact (held'.after net [.join]).1.not_exited
    · exact absurd exited held'.not_exited

/-- The network thread's first steps, up to its first call of `receive_packet`, and `quit`. -/
def quitWhileWaiting : List ProcessStep :=
  List.replicate 4 (.network none emptyData ⟨0, 0⟩) ++ [.line (some (text "quit")) ⟨0, 0⟩]

/-- Nothing more is received. -/
def lastTurns : List ProcessStep := List.replicate 5 (.network none emptyData ⟨0, 0⟩)

theorem shutdown_quitWhileWaiting :
    (handledIn NetworkInterface.openInterface
        ((run NetworkInterface.openInterface quitWhileWaiting).post (start senderEnv none))
        lastTurns).length ≤ 1 ∧
      (5 ≤ lastTurns.countP ProcessStep.isNetwork →
        (((run NetworkInterface.openInterface (quitWhileWaiting ++ (lastTurns ++ [.join]))).post
            (start senderEnv none)).program.main = .exited ↔
          ((run NetworkInterface.openInterface (quitWhileWaiting ++ lastTurns)).post
            (start senderEnv none)).stuck = false)) ∧
      (((run NetworkInterface.openInterface (quitWhileWaiting ++ lastTurns)).post
          (start senderEnv none)).program.main = .exited →
        ∀ later, run NetworkInterface.openInterface later
            ((run NetworkInterface.openInterface (quitWhileWaiting ++ lastTurns)).post
              (start senderEnv none)) =
          ((), (run NetworkInterface.openInterface (quitWhileWaiting ++ lastTurns)).post
            (start senderEnv none), [])) :=
  shutdown rfl lastTurns

end Blocking

end Araba
