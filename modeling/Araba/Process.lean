import Araba.Acknowledgement
import Araba.Network
import Araba.SendPoint

/-!
# The program

`main` after its start, and the schedule of `network_loop`: the two threads over one node, each at
its place in the source. What the outside gives to a step (a line, a frame, the clocks) comes with
the step, so a list of steps is one interleaving of the threads. What runs without `net_mutex` is
taken whole too, as if it were a section of its own: the greeting, the pass over the unacknowledged
messages, the clean-up, `fragment_message` and each `enqueue`.
-/

namespace Araba

open Bytes Traced Istream

/-! ## The command line -/

/-- What `main` does for a line. -/
inductive Command
  | quit
  | list
  | table
  | status
  | receive
  | queue
  | pending
  | send (targetMac message : Str)
  | unknown
  | none
  deriving DecidableEq

/-- The command that the word names, with the rest of the line behind it. -/
def commandOf (command rest : Str) : Command :=
  if command = text "quit" ∨ command = text "exit" then .quit
  else if command = text "list" then .list
  else if command = text "table" then .table
  else if command = text "status" then .status
  else if command = text "receive" ∨ command = text "recv" then .receive
  else if command = text "queue" then .queue
  else if command = text "pending" then .pending
  else if command = text "send" then
    let (targetMac, rest) := readWord rest
    .send targetMac (readLine rest)
  else if command.length ≠ 0 then .unknown
  else .none

/-- The first word of the line names the command. -/
def parseCommand (inputLine : Str) : Command :=
  commandOf (readWord inputLine).1 (readWord inputLine).2

theorem commandOf_send (rest : Str) :
    commandOf (text "send") rest = .send (readWord rest).1 (readLine (readWord rest).2) := by
  obtain ⟨quit, list, table, status, receive, queue, pending⟩ :
      ¬ (text "send" = text "quit" ∨ text "send" = text "exit") ∧ text "send" ≠ text "list" ∧
        text "send" ≠ text "table" ∧ text "send" ≠ text "status" ∧
        ¬ (text "send" = text "receive" ∨ text "send" = text "recv") ∧ text "send" ≠ text "queue" ∧
        text "send" ≠ text "pending" := by
    decide
  rw [commandOf, if_neg quit, if_neg list, if_neg table, if_neg status, if_neg receive, if_neg queue,
    if_neg pending, if_pos rfl]

theorem commandOf_eq_send {command rest targetMac message : Str}
    (h : commandOf command rest = .send targetMac message) : command = text "send" := by
  unfold commandOf at h
  split_ifs at h with quit list table status receive queue pending send some'
  exact send

/-- The lines that send a message: the word, the target and the message, in this order, with white
space between them. -/
theorem parseCommand_eq_send_iff {inputLine targetMac message : Str} (line : 0x0a ∉ inputLine)
    (target : targetMac ≠ []) (some' : message ≠ []) :
    parseCommand inputLine = .send targetMac message ↔
      IsWord targetMac ∧ (∀ c ∈ message.head?, isSpace c = false) ∧
        ∃ ws₁ ws₂ ws₃, Blank ws₁ ∧ Blank ws₂ ∧ Blank ws₃ ∧ ws₂ ≠ [] ∧ ws₃ ≠ [] ∧
          inputLine = ws₁ ++ text "send" ++ ws₂ ++ targetMac ++ ws₃ ++ message := by
  have letters : text "send" = [0x73, 0x65, 0x6e, 0x64] := by decide
  have send : IsWord (text "send") := ⟨by simp [letters], by simp [letters, isSpace]⟩
  constructor
  · intro h
    obtain ⟨rest, word⟩ : ∃ rest, readWord inputLine = (text "send", rest) :=
      ⟨_, Prod.ext (commandOf_eq_send h) rfl⟩
    rw [parseCommand, word, commandOf_send] at h
    obtain ⟨first, last⟩ := Command.send.inj h
    obtain ⟨rest', word'⟩ : ∃ rest', readWord rest = (targetMac, rest') := ⟨_, Prod.ext first rfl⟩
    obtain ⟨-, ends, ws₁, blank₁, rfl⟩ := (readWord_eq_iff send.nonempty).1 word
    obtain ⟨solid, ends', ws₂, blank₂, rfl⟩ := (readWord_eq_iff target).1 word'
    rw [word'] at last
    obtain ⟨head, ws₃, blank₃, rfl⟩ := (readLine_eq_iff fun mem => line (by simp [mem])).1 last
    refine ⟨solid, head, ws₁, ws₂, ws₃, blank₁, blank₂, blank₃, ?_,
      (ends_append_iff blank₃ some' head).1 ends', by simp⟩
    rw [List.append_assoc] at ends
    refine (ends_append_iff blank₂ (List.append_ne_nil_of_left_ne_nil target _) ?_).1 ends
    intro c hc
    rw [List.head?_append_of_ne_nil _ target] at hc
    exact solid.head c hc
  · rintro ⟨solid, head, ws₁, ws₂, ws₃, blank₁, blank₂, blank₃, gap₂, gap₃, rfl⟩
    have word' : readWord (ws₂ ++ targetMac ++ (ws₃ ++ message)) = (targetMac, ws₃ ++ message) :=
      (readWord_eq_iff target).2
        ⟨solid, (ends_append_iff blank₃ some' head).2 gap₃, ws₂, blank₂, rfl⟩
    have word : readWord (ws₁ ++ text "send" ++ (ws₂ ++ targetMac ++ (ws₃ ++ message))) =
        (text "send", ws₂ ++ targetMac ++ (ws₃ ++ message)) := by
      refine (readWord_eq_iff send.nonempty).2 ⟨send, ?_, ws₁, blank₁, rfl⟩
      rw [List.append_assoc]
      refine (ends_append_iff blank₂ (List.append_ne_nil_of_left_ne_nil target _) ?_).2 gap₂
      intro c hc
      rw [List.head?_append_of_ne_nil _ target] at hc
      exact solid.head c hc
    have last : readLine (ws₃ ++ message) = message :=
      (readLine_eq_iff fun mem => line (by simp [mem])).2 ⟨head, ws₃, blank₃, rfl⟩
    simp only [List.append_assoc] at word word' ⊢
    rw [parseCommand, word, commandOf_send, word', last]

theorem parseCommand_eq_send_iff_hi :
    parseCommand (text "send 02:00:00:00:00:02  hi there") =
        .send (text "02:00:00:00:00:02") (text "hi there") ↔
      IsWord (text "02:00:00:00:00:02") ∧ (∀ c ∈ (text "hi there").head?, isSpace c = false) ∧
        ∃ ws₁ ws₂ ws₃, Blank ws₁ ∧ Blank ws₂ ∧ Blank ws₃ ∧ ws₂ ≠ [] ∧ ws₃ ≠ [] ∧
          text "send 02:00:00:00:00:02  hi there" =
            ws₁ ++ text "send" ++ ws₂ ++ text "02:00:00:00:00:02" ++ ws₃ ++ text "hi there" :=
  parseCommand_eq_send_iff (by decide) (by decide) (by decide)

/-! ## The two threads -/

/-- Where the main thread is. At `inLoop .idle` it reads the next line. -/
inductive MainAt
  | inLoop (point : SendPoint)
  | joining
  | exited

/-- Where the network thread is. The turns of the inner loop share `received`. -/
inductive NetworkAt
  | entry
  | top
  | greeting
  | inner (i : ℕ) (received : Packet)
  | receiving (i : ℕ) (received : Packet)
  | retrying
  | cleaning
  | stopped

/-- A running program: its node, the flag `running`, and where each thread is. -/
structure Process (env : NodeEnv) where
  node : NodeState env
  running : Bool := true
  main : MainAt := .inLoop .idle
  network : NetworkAt := .entry

/-- A step of one of the threads. `junk` in a step of the network thread is what stands where
`received` is declared. -/
inductive ProcessStep
  | line (input : Option Str) (clock : Clock)
  | goOn (clock : Clock) (junk : UInt32)
  | join
  | network (frame : Option (List UInt8)) (junk : Packet) (clock : Clock)

namespace Process

variable {env : NodeEnv}

/-- What a thread does to the node. -/
def onNode {α : Type} (a : Action env α) : Traced (Process env) Effect α := fun p =>
  (a.value p.node, { p with node := a.post p.node }, a.trace p.node)

/-- The main thread goes on to another place. -/
def setMain (main : MainAt) : Traced (Process env) Effect Unit := modify fun p => { p with main }

/-- The network thread goes on to another place. -/
def setNetwork (network : NetworkAt) : Traced (Process env) Effect Unit :=
  modify fun p => { p with network }

/-- `running = false`, and the way to the end of `main`. -/
def leaveLoop : Traced (Process env) Effect Unit :=
  modify fun p => { p with
    running := false
    main := .joining }

/-- What a command does to the node; what it prints is left out. -/
def runCommand (clock : Clock) : Command → Traced (Process env) Effect Unit
  | .quit => leaveLoop
  | .list => do
    emit .lock
    emit .unlock
  | .pending => do
    emit .lock
    emit .unlock
  | .send targetMac message => do
    let point ← onNode (SendPoint.start targetMac message clock)
    setMain (.inLoop point)
  | _ => pure ()

/-- The main thread at the top of its loop, with what `getline` gives it. -/
def readCommand (input : Option Str) (clock : Clock) : Traced (Process env) Effect Unit :=
  match input with
  | none => leaveLoop
  | some inputLine => runCommand clock (parseCommand inputLine)

/-- `if (net.receive_packet(received))`, and the next turn of the inner loop. -/
def receiveTurn (net : NetworkInterface) (frame : Option (List UInt8)) (i : ℕ) (received : Packet)
    (clock : Clock) : Traced (Process env) Effect Unit := do
  let r := net.receivePacket frame received
  onNode (if r.1 then handlePacket r.2 clock else pure ())
  setNetwork (.inner (i + 1) r.2)

/-- The next step of `network_loop`. -/
def networkTurn (net : NetworkInterface) (frame : Option (List UInt8)) (junk : Packet)
    (clock : Clock) (p : Process env) : Traced (Process env) Effect Unit :=
  match p.network with
  | .entry => do
    emit (.log (.loopStarted (macToString env.myMac)))
    setNetwork .top
  | .top =>
    if p.running then setNetwork .greeting
    else do
      emit (.log .loopStopped)
      setNetwork .stopped
  | .greeting => do
    onNode sendHello
    setNetwork (.inner 0 junk)
  | .inner i received =>
    if i < 10 ∧ p.running then setNetwork (.receiving i received) else setNetwork .retrying
  | .receiving i received => receiveTurn net frame i received clock
  | .retrying => do
    onNode (retryPass clock)
    setNetwork .cleaning
  | .cleaning => do
    onNode (cleanupTick clock)
    setNetwork .top
  | .stopped => pure ()

/-- A step that its thread is not ready for does nothing. -/
def step (net : NetworkInterface) : ProcessStep → Traced (Process env) Effect Unit
  | .line input clock => do
    let p ← get
    match p.main with
    | .inLoop .idle => readCommand input clock
    | _ => pure ()
  | .goOn clock junk => do
    let p ← get
    match p.main with
    | .inLoop point => do
      let next ← onNode (point.advance clock junk)
      setMain (.inLoop next)
    | _ => pure ()
  | .join => do
    let p ← get
    match p.main, p.network with
    | .joining, .stopped => setMain .exited
    | _, _ => pure ()
  | .network frame junk clock => do
    let p ← get
    networkTurn net frame junk clock p

theorem post_receiveTurn {net : NetworkInterface} {frame : Option (List UInt8)} {i : ℕ}
    {received packet : Packet} {ok : Bool} {clock : Clock}
    (got : net.receivePacket frame received = (ok, packet)) (p : Process env) :
    (receiveTurn net frame i received clock).post p =
      { p with
        node := (if ok then handlePacket packet clock else pure () : Action env Unit).post p.node
        network := .inner (i + 1) packet } := by
  rw [receiveTurn, got]
  rfl

theorem trace_receiveTurn {net : NetworkInterface} {frame : Option (List UInt8)} {i : ℕ}
    {received packet : Packet} {ok : Bool} {clock : Clock}
    (got : net.receivePacket frame received = (ok, packet)) (p : Process env) :
    (receiveTurn net frame i received clock).trace p =
      (if ok then handlePacket packet clock else pure () : Action env Unit).trace p.node := by
  rw [receiveTurn, got]
  exact List.append_nil _

/-- An interleaving of the two threads. -/
def run (net : NetworkInterface) (steps : List ProcessStep) : Traced (Process env) Effect Unit :=
  runAll (steps.map (step net))

/-! ## The schedule -/

end Process

/-- The packet is what `receive_packet` made of a frame. -/
def Packet.Arrived (net : NetworkInterface) (p : Packet) : Prop :=
  ∃ frame prior, net.receivePacket frame prior = (true, p)

/-- What the network thread does in a turn of its outer loop before the retries. -/
def greeted (packets : List (Packet × Clock)) : List NetworkStep :=
  .hello :: packets.map fun x => .packet x.1 x.2

/-- A turn of the outer loop. -/
structure Round where
  packets : List (Packet × Clock)
  retryClock : Clock
  cleanupClock : Clock

namespace Round

/-- What the network thread does in the round. -/
def steps (r : Round) : List NetworkStep :=
  greeted r.packets ++ [.retry r.retryClock, .cleanup r.cleanupClock]

/-- At most ten packets, each of them off the wire. -/
def Fits (net : NetworkInterface) (r : Round) : Prop :=
  r.packets.length ≤ 10 ∧ ∀ x ∈ r.packets, x.1.Arrived net

end Round

/-- What the thread has done in the turn that it is in. -/
def NetworkAt.Done (net : NetworkInterface) (done : List NetworkStep) : NetworkAt → Prop
  | inner i _ => i ≤ 10 ∧ ∃ packets : List (Packet × Clock), packets.length ≤ i ∧
      (∀ x ∈ packets, x.1.Arrived net) ∧ done = greeted packets
  | receiving i _ => i < 10 ∧ ∃ packets : List (Packet × Clock), packets.length ≤ i ∧
      (∀ x ∈ packets, x.1.Arrived net) ∧ done = greeted packets
  | retrying => ∃ packets : List (Packet × Clock), packets.length ≤ 10 ∧
      (∀ x ∈ packets, x.1.Arrived net) ∧ done = greeted packets
  | cleaning => ∃ packets : List (Packet × Clock), packets.length ≤ 10 ∧
      (∀ x ∈ packets, x.1.Arrived net) ∧ ∃ clock, done = greeted packets ++ [.retry clock]
  | _ => done = []

/-- The steps of a run that the network thread makes. -/
def networkSteps (steps : List NodeStep) : List NetworkStep :=
  steps.filterMap fun
    | .network step => some step
    | .main _ => none

/-- What the program has done to the node: whole turns of the outer loop, the turn that the network
thread is in, and the steps of the main thread among them. -/
structure History (net : NetworkInterface) {env : NodeEnv} (s₀ : NodeState env) (p : Process env)
    (steps : List NodeStep) (rounds : List Round) (done : List NetworkStep) : Prop where
  node : p.node = stateAfter s₀ steps
  network : networkSteps steps = rounds.flatMap Round.steps ++ done
  fits : ∀ r ∈ rounds, r.Fits net
  place : p.network.Done net done
  counter : p.node.cleanupCounter = rounds.length % 100

/-- The program has come here by whole rounds, with the steps of the main thread in between. -/
def Scheduled (net : NetworkInterface) {env : NodeEnv} (s₀ : NodeState env) (p : Process env) :
    Prop :=
  ∃ steps rounds done, History net s₀ p steps rounds done

section Schedule

variable {net : NetworkInterface} {env : NodeEnv} {s₀ : NodeState env} {p p' : Process env}
  {steps : List NodeStep} {rounds : List Round} {done : List NetworkStep}

theorem networkSteps_append (steps steps' : List NodeStep) :
    networkSteps (steps ++ steps') = networkSteps steps ++ networkSteps steps' :=
  List.filterMap_append

theorem networkSteps_main (steps : List MainStep) :
    networkSteps (steps.map NodeStep.main) = [] := by
  simp [networkSteps, List.filterMap_map]

theorem counter_cleanupTick (clock : Clock) (s : NodeState env) :
    ((cleanupTick clock).post s).cleanupCounter =
      if s.cleanupCounter + 1 ≥ 100 then 0 else s.cleanupCounter + 1 := by
  show (Traced.post (if s.cleanupCounter + 1 ≥ 100 then modify _ else modify _ : Action env Unit)
    s).cleanupCounter = _
  split_ifs <;> rfl

theorem History.stay (h : History net s₀ p steps rounds done) (node : p'.node = p.node)
    (place : p'.network.Done net done) : Scheduled net s₀ p' :=
  ⟨steps, rounds, done, node.trans h.node, h.network, h.fits, place, by rw [node, h.counter]⟩

theorem History.does (h : History net s₀ p steps rounds done) (step : NetworkStep)
    (node : p'.node = step.action.post p.node)
    (kept : p'.node.cleanupCounter = p.node.cleanupCounter)
    (place : p'.network.Done net (done ++ [step])) : Scheduled net s₀ p' := by
  refine ⟨steps ++ [.network step], rounds, done ++ [step], ?_, ?_, h.fits, place,
    kept.trans h.counter⟩
  · rw [stateAfter_append, node, h.node]
    rfl
  · rw [networkSteps_append, h.network, List.append_assoc]
    rfl

theorem History.closes (h : History net s₀ p steps rounds done) {r : Round} (fits : r.Fits net)
    (whole : done ++ [.cleanup r.cleanupClock] = r.steps)
    (node : p'.node = (cleanupTick r.cleanupClock).post p.node) (place : p'.network.Done net []) :
    Scheduled net s₀ p' := by
  refine ⟨steps ++ [.network (.cleanup r.cleanupClock)], rounds ++ [r], [], ?_, ?_, ?_, place, ?_⟩
  · rw [stateAfter_append, node, h.node]
    rfl
  · rw [networkSteps_append, h.network, List.append_assoc, List.flatMap_append]
    simp only [List.flatMap_singleton, ← whole, List.append_nil]
    rfl
  · intro r' mem
    rcases List.mem_append.1 mem with mem | mem
    · exact h.fits r' mem
    · rwa [List.mem_singleton.1 mem]
  · rw [node, List.length_append, List.length_singleton]
    have counter := h.counter
    rw [counter_cleanupTick]
    split_ifs <;> omega

theorem History.main (h : History net s₀ p steps rounds done) (mainSteps : List MainStep)
    (node : p'.node = stateAfter p.node (mainSteps.map NodeStep.main))
    (kept : p'.node.cleanupCounter = p.node.cleanupCounter) (same : p'.network = p.network) :
    Scheduled net s₀ p' := by
  refine ⟨steps ++ mainSteps.map NodeStep.main, rounds, done, ?_, ?_, h.fits, same ▸ h.place,
    kept.trans h.counter⟩
  · rw [stateAfter_append, node, h.node]
  · rw [networkSteps_append, h.network, networkSteps_main, List.append_nil]

theorem counter_handlePacket (received : Packet) (clock : Clock) :
    Leaves NodeState.cleanupCounter (handlePacket received clock : Action env Unit) := by
  have control : Leaves NodeState.cleanupCounter (handleControl received clock : Action env Unit) :=
    (leaves_learnNeighbor fun _ _ _ => rfl).bind fun _ =>
      (leaves_autoDeliver fun _ _ _ => rfl).bind fun _ =>
      (leaves_handleDiscovery fun _ _ => rfl).bind fun _ =>
      (leaves_handleRouteAdv fun _ _ => rfl).bind fun _ => leaves_handleAck fun _ _ => rfl
  refine .ite (.pure ()) (.bind (fun _ => rfl) fun _ => control.bind fun _ =>
    (leaves_handleData fun _ _ _ => rfl).bind fun _ => fun _ => rfl)

theorem Scheduled.networkTurn (h : Scheduled net s₀ p) (frame : Option (List UInt8)) (junk : Packet)
    (clock : Clock) : Scheduled net s₀ ((p.networkTurn net frame junk clock).post p) := by
  obtain ⟨steps, rounds, done, h⟩ := h
  obtain ⟨node, running, main, network⟩ := p
  have place := h.place
  cases network with
  | entry => exact h.stay rfl place
  | top =>
    cases running with
    | true => exact h.stay rfl place
    | false => exact h.stay rfl place
  | greeting =>
    obtain rfl : done = [] := place
    exact h.does .hello rfl rfl ⟨by omega, [], by simp, by simp, rfl⟩
  | inner i received =>
    obtain ⟨bound, packets, few, arrived, rfl⟩ := place
    show Scheduled net s₀ (Traced.post (if i < 10 ∧ running = true then _ else _) _)
    split_ifs with go
    · exact h.stay rfl ⟨go.1, packets, few, arrived, rfl⟩
    · exact h.stay rfl ⟨packets, by omega, arrived, rfl⟩
  | receiving i received =>
    obtain ⟨below, packets, few, arrived, rfl⟩ := place
    show Scheduled net s₀ ((Process.receiveTurn net frame i received clock).post _)
    cases got : net.receivePacket frame received with
    | mk ok packet =>
    cases ok with
    | false =>
      rw [Process.post_receiveTurn got]
      exact h.stay rfl ⟨below, packets, by omega, arrived, rfl⟩
    | true =>
      rw [Process.post_receiveTurn got]
      refine h.does (.packet packet clock) rfl (counter_handlePacket packet clock node)
        ⟨below, packets ++ [(packet, clock)], ?_, ?_, by simp [greeted]⟩
      · rw [List.length_append, List.length_singleton]
        omega
      · intro x mem
        rcases List.mem_append.1 mem with mem | mem
        · exact arrived x mem
        · rw [List.mem_singleton.1 mem]
          exact ⟨frame, received, got⟩
  | retrying =>
    obtain ⟨packets, few, arrived, rfl⟩ := place
    exact h.does (.retry clock) rfl (leaves_retryPass (fun _ _ => rfl) node)
      ⟨packets, few, arrived, clock, rfl⟩
  | cleaning =>
    obtain ⟨packets, few, arrived, retryClock, rfl⟩ := place
    exact h.closes (r := ⟨packets, retryClock, clock⟩) ⟨few, arrived⟩ (by simp [Round.steps]) rfl rfl
  | stopped => exact h.stay rfl place

/-- A command changes the node only when it is entered, and then not at all. -/
theorem Scheduled.runCommand (h : Scheduled net s₀ p) (clock : Clock) (command : Command) :
    Scheduled net s₀ ((Process.runCommand clock command).post p) := by
  obtain ⟨steps, rounds, done, h⟩ := h
  have unchanged (targetMac message : Str) :
      (SendPoint.start targetMac message clock : Action env SendPoint).post p.node = p.node :=
    SendPoint.leaves_start id targetMac message p.node
  cases command with
  | send targetMac message => exact h.stay (unchanged targetMac message) h.place
  | _ => exact h.stay rfl h.place

theorem Scheduled.step (h : Scheduled net s₀ p) (step : ProcessStep) :
    Scheduled net s₀ ((Process.step net step).post p) := by
  cases step with
  | line input clock =>
    obtain ⟨node, running, main, network⟩ := p
    cases main with
    | inLoop point =>
      cases point with
      | idle =>
        cases input with
        | none =>
          obtain ⟨steps, rounds, done, h⟩ := h
          exact h.stay rfl h.place
        | some inputLine => exact h.runCommand clock (parseCommand inputLine)
      | _ => exact h
    | _ => exact h
  | goOn clock junk =>
    obtain ⟨node, running, main, network⟩ := p
    cases main with
    | inLoop point =>
      obtain ⟨steps, rounds, done, h⟩ := h
      obtain ⟨mainSteps, same⟩ : ∃ steps : List MainStep, (point.advance clock junk).post node =
          stateAfter node (steps.map NodeStep.main) := point.exists_mainSteps node
      exact h.main mainSteps same (SendPoint.leaves_advance (fun _ _ _ _ _ _ _ => rfl) point node) rfl
    | _ => exact h
  | join =>
    obtain ⟨node, running, main, network⟩ := p
    cases main with
    | joining =>
      cases network with
      | stopped =>
        obtain ⟨steps, rounds, done, h⟩ := h
        exact h.stay rfl h.place
      | _ => exact h
    | _ => exact h
  | network frame junk clock => exact h.networkTurn frame junk clock

theorem Scheduled.run (h : Scheduled net s₀ p) (steps : List ProcessStep) :
    Scheduled net s₀ ((Process.run net steps).post p) := by
  have kept : Preserves (Scheduled net s₀) (fun _ => True) (Process.run net steps) := by
    refine Preserves.runAll fun m mem p h => ?_
    obtain ⟨step, -, rfl⟩ := List.mem_map.1 mem
    exact ⟨h.step step, fun _ _ => trivial⟩
  exact (kept p h).1

end Schedule

/-- A node that has just been started, with both threads at their beginning. -/
def Process.start (env : NodeEnv) (queueFile : Option (List UInt8)) : Process env where
  node := .start env queueFile

theorem scheduled_start (net : NetworkInterface) (env : NodeEnv)
    (queueFile : Option (List UInt8)) :
    Scheduled net (NodeState.start env queueFile) (Process.start env queueFile) :=
  ⟨[], [], [], rfl, rfl, by simp, rfl, rfl⟩

/-- Whatever is typed and received, and however the threads are interleaved: the program does to its
node what a run of steps does, in which the network thread greets, handles at most ten packets off
the wire, makes one pass over the unacknowledged messages and counts the turn, again and again; and
the stale fragments go in every hundredth turn. A step is a section of one thread, taken whole also
where it does not hold `net_mutex`. -/
theorem process_schedule (net : NetworkInterface) (env : NodeEnv) (queueFile : Option (List UInt8))
    (steps : List ProcessStep) :
    Scheduled net (NodeState.start env queueFile)
      ((Process.run net steps).post (Process.start env queueFile)) := by
  exact (scheduled_start net env queueFile).run steps

/-! ## The end of the program -/

/-- Whether the network thread takes the step. -/
def ProcessStep.isNetwork : ProcessStep → Bool
  | network _ _ _ => true
  | _ => false

/-- The steps that the network thread still makes when `running` is false. -/
def NetworkAt.turnsLeft : NetworkAt → ℕ
  | entry => 2
  | top => 1
  | greeting => 5
  | inner _ _ => 4
  | receiving _ _ => 5
  | retrying => 3
  | cleaning => 2
  | stopped => 0

/-- Whether a call of `receive_packet` is under way. -/
def NetworkAt.expects : NetworkAt → ℕ
  | receiving _ _ => 1
  | _ => 0

namespace Process

variable {net : NetworkInterface} {env : NodeEnv}

/-- The packet that is handled in a step, if there is one. -/
def handledBy (net : NetworkInterface) (p : Process env) : ProcessStep → List Packet
  | .network frame _ _ =>
    match p.network with
    | .receiving _ received =>
      if (net.receivePacket frame received).1 then [(net.receivePacket frame received).2] else []
    | _ => []
  | _ => []

/-- The packets that are handled in a run. -/
def handledIn (net : NetworkInterface) : Process env → List ProcessStep → List Packet
  | _, [] => []
  | p, step :: steps => handledBy net p step ++ handledIn net ((Process.step net step).post p) steps

/-- The loop of `main` has been left. -/
structure Stopping (p : Process env) : Prop where
  running : p.running = false
  main : p.main = .joining ∨ p.main = .exited ∧ p.network = .stopped

/-- In its loop `main` leaves `running` alone; it waits for the network thread only after it. -/
def Sound (p : Process env) : Prop :=
  (p.running = true ∧ ∃ point, p.main = .inLoop point) ∨ Stopping p

theorem networkTurn_leaves (net : NetworkInterface) (p : Process env) (frame : Option (List UInt8))
    (junk : Packet) (clock : Clock) :
    ((p.networkTurn net frame junk clock).post p).running = p.running ∧
      ((p.networkTurn net frame junk clock).post p).main = p.main := by
  obtain ⟨node, running, main, network⟩ := p
  cases network with
  | top =>
    cases running with
    | true => exact ⟨rfl, rfl⟩
    | false => exact ⟨rfl, rfl⟩
  | inner i received =>
    show (Traced.post (if i < 10 ∧ running = true then setNetwork _ else setNetwork _) _).running =
        running ∧
      (Traced.post (if i < 10 ∧ running = true then setNetwork _ else setNetwork _) _).main = main
    split_ifs with go
    · exact ⟨rfl, rfl⟩
    · exact ⟨rfl, rfl⟩
  | _ => exact ⟨rfl, rfl⟩

/-- When `running` is false the network thread is a step nearer to its end, and waits for no packet
after the one it may be waiting for. -/
theorem networkTurn_stopping (net : NetworkInterface) (p : Process env)
    (stopping : p.running = false) (frame : Option (List UInt8)) (junk : Packet) (clock : Clock) :
    ((p.networkTurn net frame junk clock).post p).network.turnsLeft = p.network.turnsLeft - 1 ∧
      ((p.networkTurn net frame junk clock).post p).network.expects = 0 := by
  obtain ⟨node, running, main, network⟩ := p
  obtain rfl : running = false := stopping
  cases network with
  | inner i received =>
    show (Traced.post (if i < 10 ∧ false = true then setNetwork _ else setNetwork _) _).network.turnsLeft =
        3 ∧
      (Traced.post (if i < 10 ∧ false = true then setNetwork _ else setNetwork _) _).network.expects = 0
    rw [if_neg (by simp)]
    exact ⟨rfl, rfl⟩
  | _ => exact ⟨rfl, rfl⟩

theorem stopping_leaveLoop (p : Process env) : Stopping ((leaveLoop : Traced _ Effect Unit).post p) :=
  ⟨rfl, Or.inl rfl⟩

theorem Stopping.step {p : Process env} (h : Stopping p) (net : NetworkInterface) (step : ProcessStep) :
    Stopping ((Process.step net step).post p) := by
  obtain ⟨node, running, main, network⟩ := p
  obtain ⟨running', place⟩ := h
  cases step with
  | line input clock =>
    rcases place with rfl | ⟨rfl, ended⟩
    · exact ⟨running', Or.inl rfl⟩
    · exact ⟨running', Or.inr ⟨rfl, ended⟩⟩
  | goOn clock junk =>
    rcases place with rfl | ⟨rfl, ended⟩
    · exact ⟨running', Or.inl rfl⟩
    · exact ⟨running', Or.inr ⟨rfl, ended⟩⟩
  | join =>
    rcases place with rfl | ⟨rfl, ended⟩
    · cases network with
      | stopped => exact ⟨running', Or.inr ⟨rfl, rfl⟩⟩
      | _ => exact ⟨running', Or.inl rfl⟩
    · exact ⟨running', Or.inr ⟨rfl, ended⟩⟩
  | network frame junk clock =>
    obtain ⟨same, stays⟩ := networkTurn_leaves net ⟨node, running, main, network⟩ frame junk clock
    refine ⟨same.trans running', ?_⟩
    rcases place with rfl | ⟨rfl, ended⟩
    · exact Or.inl stays
    · obtain rfl : network = .stopped := ended
      exact Or.inr ⟨rfl, rfl⟩

theorem Sound.step {p : Process env} (h : Sound p) (step : ProcessStep) :
    Sound ((Process.step net step).post p) := by
  rcases h with ⟨running, point, main⟩ | stopping
  · obtain ⟨node, _, _, network⟩ := p
    obtain rfl : _ = true := running
    obtain rfl : _ = MainAt.inLoop point := main
    cases step with
    | line input clock =>
      cases point with
      | idle =>
        cases input with
        | none => exact Or.inr (stopping_leaveLoop _)
        | some inputLine =>
          show Sound ((runCommand clock (parseCommand inputLine)).post _)
          cases parseCommand inputLine with
          | quit => exact Or.inr (stopping_leaveLoop _)
          | send targetMac message => exact Or.inl ⟨rfl, _, rfl⟩
          | _ => exact Or.inl ⟨rfl, _, rfl⟩
      | _ => exact Or.inl ⟨rfl, _, rfl⟩
    | goOn clock junk => exact Or.inl ⟨rfl, _, rfl⟩
    | join => exact Or.inl ⟨rfl, _, rfl⟩
    | network frame junk clock =>
      obtain ⟨same, stays⟩ := networkTurn_leaves net ⟨node, true, .inLoop point, network⟩ frame junk
        clock
      exact Or.inl ⟨same, point, stays⟩
  · exact Or.inr (stopping.step net step)

/-- Steps of the main thread leave the network thread where it is. -/
theorem network_step {p : Process env} {step : ProcessStep} (other : step.isNetwork = false) :
    ((Process.step net step).post p).network = p.network := by
  obtain ⟨node, running, main, network⟩ := p
  cases step with
  | line input clock =>
    cases main with
    | inLoop point =>
      cases point with
      | idle =>
        cases input with
        | none => rfl
        | some inputLine =>
          show ((runCommand clock (parseCommand inputLine)).post _).network = network
          cases parseCommand inputLine with
          | _ => rfl
      | _ => rfl
    | _ => rfl
  | goOn clock junk =>
    cases main with
    | _ => rfl
  | join =>
    cases main with
    | joining =>
      cases network with
      | _ => rfl
    | _ => rfl
  | network frame junk clock => exact absurd other (by simp [ProcessStep.isNetwork])

theorem post_run_cons (step : ProcessStep) (steps : List ProcessStep) (p : Process env) :
    (run net (step :: steps)).post p = (run net steps).post ((Process.step net step).post p) :=
  rfl

theorem Stopping.run {p : Process env} (h : Stopping p) (steps : List ProcessStep) :
    Stopping ((Process.run net steps).post p) := by
  have kept : Preserves Stopping (fun _ => True) (Process.run net steps : Traced (Process env) _ _) := by
    refine Preserves.runAll fun m mem p h => ?_
    obtain ⟨step, -, rfl⟩ := List.mem_map.1 mem
    exact ⟨h.step net step, fun _ _ => trivial⟩
  exact (kept p h).1

/-- No step of the network thread is wasted on its way to the end. -/
theorem Stopping.turnsLeft {p : Process env} (h : Stopping p) (steps : List ProcessStep) :
    ((Process.run net steps).post p).network.turnsLeft =
      p.network.turnsLeft - steps.countP ProcessStep.isNetwork := by
  induction steps generalizing p with
  | nil => rfl
  | cons step steps ih =>
    rw [post_run_cons, ih (h.step net step), List.countP_cons]
    cases other : step.isNetwork with
    | false => simp [network_step other]
    | true =>
      cases step with
      | network frame junk clock =>
        have nearer := (networkTurn_stopping net p h.running frame junk clock).1
        show ((p.networkTurn net frame junk clock).post p).network.turnsLeft - _ = _
        rw [nearer, if_pos rfl]
        omega
      | _ => cases other

theorem Stopping.handledIn {p : Process env} (h : Stopping p) (steps : List ProcessStep) :
    (Process.handledIn net p steps).length ≤ p.network.expects := by
  induction steps generalizing p with
  | nil => exact Nat.zero_le _
  | cons step steps ih =>
    have later := ih (h.step net step)
    rw [Process.handledIn, List.length_append]
    cases other : step.isNetwork with
    | false =>
      rw [network_step other] at later
      cases step with
      | network frame junk clock => cases other
      | _ => simpa [handledBy] using later
    | true =>
      cases step with
      | network frame junk clock =>
        have none' := (networkTurn_stopping net p h.running frame junk clock).2
        have only : (handledBy net p (.network frame junk clock)).length ≤ p.network.expects := by
          unfold handledBy
          cases p.network with
          | receiving i received =>
            show (if _ then _ else _ : List Packet).length ≤ 1
            split_ifs <;> simp
          | _ => simp
        have later : (Process.handledIn net _ steps).length ≤
          ((p.networkTurn net frame junk clock).post p).network.expects := later
        rw [none'] at later
        omega
      | _ => cases other

theorem eq_stopped_of_turnsLeft {network : NetworkAt} (h : network.turnsLeft = 0) :
    network = .stopped := by
  cases network with
  | stopped => rfl
  | _ => cases h

theorem step_of_exited {p : Process env} (main : p.main = .exited) (network : p.network = .stopped)
    (step : ProcessStep) : Process.step net step p = ((), p, []) := by
  obtain ⟨node, running, _, _⟩ := p
  obtain rfl : _ = MainAt.exited := main
  obtain rfl : _ = NetworkAt.stopped := network
  cases step with
  | _ => rfl

/-- Five steps of the network thread bring it to its end, and the join behind them brings `main` to its
end. -/
theorem Stopping.exits {p : Process env} (h : Stopping p) {after : List ProcessStep}
    (enough : 5 ≤ after.countP ProcessStep.isNetwork) :
    ((Process.step net .join).post ((Process.run net after).post p)).main = .exited ∧
      ((Process.step net .join).post ((Process.run net after).post p)).network = .stopped := by
  have few : p.network.turnsLeft ≤ 5 := by
    cases p.network with
    | _ => simp [NetworkAt.turnsLeft]
  have network : ((Process.run net after).post p).network = .stopped := by
    apply eq_stopped_of_turnsLeft
    rw [h.turnsLeft after]
    omega
  have stays : Stopping ((Process.run net after).post p) := h.run after
  generalize (Process.run net after).post p = ended at stays network ⊢
  obtain ⟨node, running, main, _⟩ := ended
  obtain rfl : _ = NetworkAt.stopped := network
  rcases stays.main with main | ⟨main, -⟩
  · obtain rfl : _ = MainAt.joining := main
    exact ⟨rfl, rfl⟩
  · obtain rfl : _ = MainAt.exited := main
    exact ⟨rfl, rfl⟩

end Process

end Araba
