import Araba.Alike
import Araba.Ledger
import Araba.Link

/-!
# The programs make up the mesh

On a link that puts in front of every buffer the 14 bytes that `receive_packet` skips, whatever the
programs do is a run of the mesh: the commands that are typed are its commands, and the packets come as
they were sent, up to what does not count. The steps on both sides are the sections of the threads, each
taken whole, also those that do not hold `net_mutex`.
-/

namespace Araba

open Bytes Traced

/-! ## A frame with a header in front -/

section Frame

variable {net : NetworkInterface} {header : List UInt8} (len : header.length = 14) {p : Packet}

include len

theorem drop_framed (k : ℕ) : (header ++ p.toBytes).drop (14 + k) = p.toBytes.drop k := by
  rw [List.drop_append, len, List.drop_of_length_le (by omega), List.nil_append,
    Nat.add_sub_cancel_left]

theorem header_framed : PacketHeader.ofBytes ((header ++ p.toBytes).drop 14) = p.header := by
  rw [drop_framed len 0]
  exact PacketHeader.ofBytes_toBytes_append _ _

theorem exists_received (open' : 0 ≤ net.sockFd) (fits : p.Fits) (prior : Packet) :
    ∃ q, net.receivePacket (some (header ++ p.toBytes)) prior = (true, q) ∧ q.Alike p := by
  have small : p.header.payloadLen.toNat ≤ 512 := fits
  have size : (header ++ p.toBytes).length = 547 := by
    rw [List.length_append, len, Packet.length_toBytes]
  obtain ⟨ok, head, body⟩ := NetworkInterface.body_receivePacket open' prior (header_framed len) small
    (by rw [size]; omega)
  refine ⟨_, Prod.ext ok rfl, head, body.trans ?_⟩
  rw [drop_framed len 21, Packet.body_eq_take_drop_toBytes]

theorem alike_of_received {prior q : Packet}
    (received : net.receivePacket (some (header ++ p.toBytes)) prior = (true, q)) : q.Alike p := by
  have open' : 0 ≤ net.sockFd := by
    by_contra closed
    rw [NetworkInterface.receivePacket, if_pos (not_le.1 closed)] at received
    cases received
  by_cases fits : p.Fits
  · obtain ⟨q', received', alike⟩ := exists_received len open' fits prior
    obtain rfl := (Prod.mk.inj (received'.symm.trans received)).2
    exact alike
  · have long : ¬ (header ++ p.toBytes).length < 35 := by
      rw [List.length_append, len, Packet.length_toBytes]
      omega
    rw [NetworkInterface.receivePacket_eq open' _ _ (header_framed len), if_neg long,
      if_pos (show p.header.payloadLen.toNat > 512 from not_le.1 fits)] at received
    cases received

end Frame

/-! ## What a step of a program is to the node -/

/-- Where the main thread is with a message. -/
def MainAt.point : MainAt → SendPoint
  | inLoop point => point
  | _ => .idle

namespace Process

variable {env : NodeEnv} {net : NetworkInterface}

/-- The step changes nothing that the mesh knows of. -/
structure Silent (m : Traced (Process env) Effect Unit) (p : Process env) : Prop where
  node : (m.post p).node = p.node
  point : (m.post p).main.point = p.main.point
  sent : sendCalls (m.trace p) = []
  reported : messages (m.trace p) = []

/-- The step does to the node what the action does. -/
structure Does (m : Traced (Process env) Effect Unit) (p : Process env) {α : Type} (a : Action env α)
    (point : SendPoint) : Prop where
  node : (m.post p).node = a.post p.node
  point : (m.post p).main.point = point
  trace : m.trace p = a.trace p.node

/-- The target and the message of a `send` command, when one is entered. -/
def entered (p : Process env) (input : Option Str) : Option (Str × Str) :=
  match p.main, input.map parseCommand with
  | .inLoop .idle, some (.send targetMac message) => some (targetMac, message)
  | _, _ => none

theorem entered_eq_some {p : Process env} {input : Option Str} {targetMac message : Str}
    (sends : p.entered input = some (targetMac, message)) :
    p.main = .inLoop .idle ∧
      ∃ inputLine, input = some inputLine ∧ parseCommand inputLine = .send targetMac message := by
  unfold entered at sends
  split at sends
  · next idle command =>
    obtain ⟨rfl, rfl⟩ := Prod.mk.inj (Option.some.inj sends)
    exact ⟨idle, Option.map_eq_some_iff.1 command⟩
  · cases sends

theorem post_line (net : NetworkInterface) {p : Process env} {input : Option Str}
    {targetMac message : Str} (sends : p.entered input = some (targetMac, message)) (clock : Clock) :
    (step net (.line input clock)).post p =
        { p with
          node := (SendPoint.start targetMac message clock : Action env SendPoint).post p.node
          main := .inLoop ((SendPoint.start targetMac message clock : Action env SendPoint).value
            p.node) } ∧
      (step net (.line input clock)).trace p =
        (SendPoint.start targetMac message clock : Action env SendPoint).trace p.node := by
  obtain ⟨idle, inputLine, rfl, parsed⟩ := entered_eq_some sends
  obtain ⟨node, running, _, network⟩ := p
  obtain rfl : _ = MainAt.inLoop .idle := idle
  have run : step net (.line (some inputLine) clock) ⟨node, running, .inLoop .idle, network⟩ =
      runCommand clock (.send targetMac message) ⟨node, running, .inLoop .idle, network⟩ := by
    rw [← parsed]
    rfl
  constructor
  · rw [Traced.post, run]
    rfl
  · rw [Traced.trace, run]
    exact List.append_nil _

theorem does_line {p : Process env} {input : Option Str} {targetMac message : Str}
    (sends : p.entered input = some (targetMac, message)) (clock : Clock) :
    Does (step net (.line input clock)) p (SendPoint.start targetMac message clock : Action env _)
      ((SendPoint.start targetMac message clock : Action env SendPoint).value p.node) where
  node := congrArg Process.node (post_line net sends clock).1
  point := congrArg (fun p => p.main.point) (post_line net sends clock).1
  trace := (post_line net sends clock).2

theorem silent_line {p : Process env} {input : Option Str} (none' : p.entered input = none)
    (clock : Clock) : Silent (step net (.line input clock)) p := by
  obtain ⟨node, running, main, network⟩ := p
  cases main with
  | inLoop point =>
    cases point with
    | idle =>
      cases input with
      | none => exact ⟨rfl, rfl, rfl, rfl⟩
      | some inputLine =>
        have run : step net (.line (some inputLine) clock) ⟨node, running, .inLoop .idle, network⟩ =
          runCommand clock (parseCommand inputLine) ⟨node, running, .inLoop .idle, network⟩ := rfl
        have quiet : Silent (runCommand clock (parseCommand inputLine))
            (⟨node, running, .inLoop .idle, network⟩ : Process env) := by
          cases parsed : parseCommand inputLine with
          | send targetMac message => simp [entered, parsed] at none'
          | _ => exact ⟨rfl, rfl, rfl, rfl⟩
        exact ⟨quiet.node, quiet.point, quiet.sent, quiet.reported⟩
    | _ => exact ⟨rfl, rfl, rfl, rfl⟩
  | _ => exact ⟨rfl, rfl, rfl, rfl⟩

theorem post_goOn (net : NetworkInterface) {p : Process env} {point : SendPoint}
    (here : p.main = .inLoop point) (clock : Clock) (junk : UInt32) :
    (step net (.goOn clock junk)).post p =
        { p with
          node := (point.advance clock junk : Action env SendPoint).post p.node
          main := .inLoop ((point.advance clock junk : Action env SendPoint).value p.node) } ∧
      (step net (.goOn clock junk)).trace p =
        (point.advance clock junk : Action env SendPoint).trace p.node := by
  obtain ⟨node, running, _, network⟩ := p
  obtain rfl : _ = MainAt.inLoop point := here
  exact ⟨rfl, List.append_nil _⟩

/-- The main thread goes on with the message that it has, if it has not left its loop. -/
theorem does_goOn {p : Process env} {point : SendPoint} (here : p.main = .inLoop point) (clock : Clock)
    (junk : UInt32) :
    Does (step net (.goOn clock junk)) p (point.advance clock junk : Action env SendPoint)
      ((point.advance clock junk : Action env SendPoint).value p.node) where
  node := congrArg Process.node (post_goOn net here clock junk).1
  point := congrArg (fun p => p.main.point) (post_goOn net here clock junk).1
  trace := (post_goOn net here clock junk).2

theorem silent_goOn {p : Process env} (left : ∀ point, p.main ≠ .inLoop point) (clock : Clock)
    (junk : UInt32) : Silent (step net (.goOn clock junk)) p := by
  obtain ⟨node, running, main, network⟩ := p
  cases main with
  | inLoop point => exact absurd rfl (left point)
  | _ => exact ⟨rfl, rfl, rfl, rfl⟩

theorem silent_join (p : Process env) : Silent (step net .join) p := by
  obtain ⟨node, running, main, network⟩ := p
  cases main with
  | joining =>
    cases network with
    | _ => exact ⟨rfl, rfl, rfl, rfl⟩
  | _ => exact ⟨rfl, rfl, rfl, rfl⟩

theorem network_cases (net : NetworkInterface) (p : Process env) (frame : Option (List UInt8))
    (junk : Packet) (clock : Clock) :
    Silent (step net (.network frame junk clock)) p ∨
      Does (step net (.network frame junk clock)) p (sendHello : Action env Unit) p.main.point ∨
      Does (step net (.network frame junk clock)) p (retryPass clock : Action env Unit) p.main.point ∨
      Does (step net (.network frame junk clock)) p (cleanupTick clock : Action env Unit)
        p.main.point ∨
      ∃ prior packet, net.receivePacket frame prior = (true, packet) ∧
        Does (step net (.network frame junk clock)) p (handlePacket packet clock : Action env Unit)
          p.main.point := by
  obtain ⟨node, running, main, network⟩ := p
  cases network with
  | entry => exact Or.inl ⟨rfl, rfl, rfl, rfl⟩
  | top =>
    cases running with
    | true => exact Or.inl ⟨rfl, rfl, rfl, rfl⟩
    | false => exact Or.inl ⟨rfl, rfl, rfl, rfl⟩
  | greeting => exact Or.inr (Or.inl ⟨rfl, rfl, List.append_nil _⟩)
  | inner i received =>
    refine Or.inl ?_
    have both : ∀ network', Silent (setNetwork network')
        (⟨node, running, main, .inner i received⟩ : Process env) := fun _ => ⟨rfl, rfl, rfl, rfl⟩
    have turn : Silent (if i < 10 ∧ running = true then setNetwork (.receiving i received)
        else setNetwork .retrying) (⟨node, running, main, .inner i received⟩ : Process env) := by
      split_ifs
      · exact both _
      · exact both _
    exact ⟨turn.node, turn.point, turn.sent, turn.reported⟩
  | receiving i received =>
    cases got : net.receivePacket frame received with
    | mk ok packet =>
    have post : (receiveTurn net frame i received clock).post
      ⟨node, running, main, .receiving i received⟩ = _ := post_receiveTurn got _
    have trace : (receiveTurn net frame i received clock).trace
      ⟨node, running, main, .receiving i received⟩ = _ := trace_receiveTurn got _
    cases ok with
    | false =>
      refine Or.inl ⟨(congrArg Process.node post).trans rfl,
        (congrArg (fun p => p.main.point) post).trans rfl, (congrArg sendCalls trace).trans rfl,
        (congrArg messages trace).trans rfl⟩
    | true =>
      refine Or.inr (Or.inr (Or.inr (Or.inr ⟨received, packet, got, ?_⟩)))
      exact ⟨(congrArg Process.node post).trans rfl,
        (congrArg (fun p => p.main.point) post).trans rfl, trace⟩
  | retrying => exact Or.inr (Or.inr (Or.inl ⟨rfl, rfl, List.append_nil _⟩))
  | cleaning => exact Or.inr (Or.inr (Or.inr (Or.inl ⟨rfl, rfl, List.append_nil _⟩)))
  | stopped => exact Or.inl ⟨rfl, rfl, rfl, rfl⟩

end Process

/-! ## What is reported and typed -/

/-- The reported messages, with the host that reports them. -/
def reports (done : List (Mac × Effect)) : List (Mac × Str × Str) :=
  done.filterMap fun
    | (m, .log (.messageReceived srcMac msg)) => some (m, srcMac, msg)
    | _ => none

theorem reports_append (done done' : List (Mac × Effect)) :
    reports (done ++ done') = reports done ++ reports done' :=
  List.filterMap_append

theorem reports_map (m : Mac) (es : List Effect) :
    reports (es.map fun e => (m, e)) = (messages es).map fun d => (m, d) := by
  rw [reports, messages, List.filterMap_map, List.map_filterMap]
  refine List.filterMap_congr fun e _ => ?_
  cases e with
  | log event => cases event <;> rfl
  | _ => rfl

/-- No message is reported by the event. -/
def Effect.Unreported (e : Effect) : Prop := messages [e] = []

theorem messages_of_unreported {es : List Effect} (h : ∀ e ∈ es, e.Unreported) : messages es = [] := by
  induction es with
  | nil => rfl
  | cons e es ih =>
    obtain ⟨first, rest⟩ := List.forall_mem_cons.1 h
    rw [← List.singleton_append, messages_append, first, ih rest]
    rfl

theorem messages_congr {es es' : List Effect} (alike : List.Forall₂ Effect.Alike es es') :
    messages es = messages es' := by
  induction alike with
  | nil => rfl
  | @cons e e' es es' same _ ih =>
    have here : messages [e] = messages [e'] := by
      cases e with
      | send p link =>
        cases e' with
        | send q link' => rfl
        | _ => cases same
      | _ =>
        cases e' with
        | send q link' => cases same
        | _ => rw [show _ = _ from same]
    rw [← List.singleton_append, messages_append, here, ih, ← messages_append, List.singleton_append]

namespace Mesh

variable {E : MeshEnv}

/-- The messages that are reported in a step. -/
def reportedIn (M : Mesh E) : MeshStep → List (Mac × Str × Str)
  | .hear m i clock =>
    match M.air[i]? with
    | none => []
    | some t => (messages ((handlePacket t.packet clock).trace (M.sites m).state)).map fun d => (m, d)
  | _ => []

/-- The messages that are reported in a run. -/
def reportsOf : Mesh E → List MeshStep → List (Mac × Str × Str)
  | _, [] => []
  | M, op :: steps => M.reportedIn op ++ reportsOf (M.step op) steps

theorem reportsOf_append (M : Mesh E) (steps steps' : List MeshStep) :
    M.reportsOf (steps ++ steps') = M.reportsOf steps ++ (M.after steps).reportsOf steps' := by
  induction steps generalizing M with
  | nil => rfl
  | cons op steps ih => rw [List.cons_append, reportsOf, reportsOf, ih, List.append_assoc, after_cons]

theorem typedOf_append (M : Mesh E) (steps steps' : List MeshStep) :
    M.typedOf (steps ++ steps') = M.typedOf steps ++ (M.after steps).typedOf steps' := by
  induction steps generalizing M with
  | nil => rfl
  | cons op steps ih => rw [List.cons_append, typedOf, typedOf, ih, List.append_assoc, after_cons]

end Mesh

namespace Link

variable {E : MeshEnv}

/-- The message that is typed in a step. -/
def typedIn (L : Link E) : LinkStep → List Typed
  | .line m input _ =>
    ((L.programs m).entered input).elim [] fun (targetMac, message) =>
      if targetMac.length = 0 ∨ message.length = 0 then []
      else [⟨m, stringToMac targetMac, message⟩]
  | _ => []

/-- The messages that are typed in a run. -/
def typedOf (wire : List UInt8 → List UInt8) (nets : Mac → NetworkInterface) :
    Link E → List LinkStep → List Typed
  | _, [] => []
  | L, op :: steps => L.typedIn op ++ typedOf wire nets (L.step wire nets op) steps

/-- The mesh is in the state that the programs are in. -/
structure Follows (L : Link E) (M : Mesh E) : Prop where
  node : ∀ m, (M.sites m).state = (L.programs m).node
  main : ∀ m, (M.sites m).main = (L.programs m).main.point
  frames : ∀ frame ∈ L.frames, ∃ t ∈ M.air, ∃ p : Packet, p.Alike t.packet ∧ frame = p.toBytes

/-- A step of the programs comes to some steps of the mesh. -/
structure Explains (L L' : Link E) (M : Mesh E) (typed : List Typed) (ops : List MeshStep) : Prop where
  follows : L'.Follows (M.after ops)
  reported : reports L'.done = reports L.done ++ M.reportsOf ops
  typed : M.typedOf ops = typed

variable {wire : List UInt8 → List UInt8} {nets : Mac → NetworkInterface} {L : Link E} {M : Mesh E}

theorem exists_transmission {net : NetworkInterface} {m : Mac} {cause : Option Packet}
    {es es' : List Effect} (alike : List.Forall₂ Effect.Alike es es') :
    ∀ frame ∈ handedOver net es, ∃ t ∈ Mesh.transmissions m cause es', ∃ p : Packet,
      p.Alike t.packet ∧ frame = p.toBytes := by
  intro frame mem
  obtain ⟨call, sent, buffer⟩ := List.mem_filterMap.1 mem
  obtain ⟨args, handed, rfl⟩ := Option.map_eq_some_iff.1 buffer
  have image : args.buffer = call.1.toBytes := NetworkInterface.buffer_of_sendPacket handed
  obtain ⟨e, mem', here⟩ := List.mem_filterMap.1 sent
  obtain ⟨e', mem'', same⟩ := exists_matched alike mem'
  cases e with
  | send p link =>
    obtain rfl := Option.some.inj here
    cases e' with
    | send q link' =>
      have call' : (q, link') ∈ sendCalls es' := List.mem_filterMap.2 ⟨_, mem'', rfl⟩
      exact ⟨_, List.mem_map_of_mem call', p, same.1, image⟩
    | _ => cases same
  | _ => cases here

/-- What the program of a host does when its node and the host's site in the mesh do the same. -/
theorem Follows.act (h : L.Follows M) {m : Mac} {step : ProcessStep} {x : Site (E.env m)}
    {cause : Option Packet} {es : List Effect}
    (node : x.state = ((Process.step (nets m) step).post (L.programs m)).node)
    (main : x.main = ((Process.step (nets m) step).post (L.programs m)).main.point)
    (alike : List.Forall₂ Effect.Alike ((Process.step (nets m) step).trace (L.programs m)) es) :
    (L.act nets m step).Follows (M.put m x (Mesh.transmissions m cause es)) where
  node n := by
    show _ = (Function.update L.programs m _ n).node
    by_cases same : n = m
    · subst same
      rw [Mesh.sites_put_self, Function.update_self, node]
    · rw [Mesh.sites_put_of_ne same, Function.update_of_ne same, h.node]
  main n := by
    show _ = (Function.update L.programs m _ n).main.point
    by_cases same : n = m
    · subst same
      rw [Mesh.sites_put_self, Function.update_self, main]
    · rw [Mesh.sites_put_of_ne same, Function.update_of_ne same, h.main]
  frames frame mem := by
    rcases List.mem_append.1 mem with old | new
    · obtain ⟨t, mem', p, same, image⟩ := h.frames frame old
      exact ⟨t, List.mem_append_left _ mem', p, same, image⟩
    · obtain ⟨t, mem', p, same, image⟩ := exists_transmission alike frame new
      exact ⟨t, List.mem_append_right _ mem', p, same, image⟩

theorem explains_silent (h : L.Follows M) {m : Mac} {step : ProcessStep}
    (silent : Process.Silent (Process.step (nets m) step) (L.programs m)) :
    Explains L (L.act nets m step) M [] [] where
  follows := by
    have nothing : handedOver (nets m) ((Process.step (nets m) step).trace (L.programs m)) = [] := by
      rw [handedOver, silent.sent, List.filterMap_nil]
    refine ⟨fun n => ?_, fun n => ?_, fun frame mem => ?_⟩
    · show (M.sites n).state = (Function.update L.programs m _ n).node
      by_cases same : n = m
      · subst same
        rw [Function.update_self, silent.node, h.node]
      · rw [Function.update_of_ne same, h.node]
    · show (M.sites n).main = (Function.update L.programs m _ n).main.point
      by_cases same : n = m
      · subst same
        rw [Function.update_self, silent.point, h.main]
      · rw [Function.update_of_ne same, h.main]
    · have old : frame ∈ L.frames ++ handedOver (nets m) _ := mem
      rw [nothing, List.append_nil] at old
      exact h.frames frame old
  reported := by
    show reports (L.done ++ _) = _
    rw [reports_append, reports_map, silent.reported]
    rfl
  typed := rfl

theorem explains_one (h : L.Follows M) {m : Mac} {step : ProcessStep} {op : MeshStep} {α : Type}
    {a a' : Action (E.env m) α} {point : SendPoint} {typed : List Typed} (cause : Option Packet)
    (registered : UInt32 → List Packet)
    (does : Process.Does (Process.step (nets m) step) (L.programs m) a point)
    (matched : Matches Effect.Alike a a')
    (stepped : M.step op = M.put m ⟨a'.post (M.sites m).state, point, registered⟩
      (Mesh.transmissions m cause (a'.trace (M.sites m).state)))
    (reported : M.reportedIn op = (messages (a.trace (L.programs m).node)).map fun d => (m, d))
    (typed_eq : M.typedIn op = typed) : Explains L (L.act nets m step) M typed [op] where
  follows := by
    obtain ⟨-, post, trace⟩ := matched (L.programs m).node
    show (L.act nets m step).Follows (M.step op)
    rw [stepped, h.node]
    refine h.act ?_ ?_ ?_
    · rw [does.node, ← post]
    · rw [does.point]
    · rw [does.trace]
      exact trace
  reported := by
    show reports (L.done ++ _) = _
    rw [reports_append, reports_map, does.trace, Mesh.reportsOf, reported, Mesh.reportsOf,
      List.append_nil]
  typed := by rw [Mesh.typedOf, typed_eq, Mesh.typedOf, List.append_nil]

theorem explains_command (h : L.Follows M) {m : Mac} {input : Option Str} {targetMac message : Str}
    (sends : (L.programs m).entered input = some (targetMac, message)) (clock : Clock) :
    Explains L (L.act nets m (.line input clock)) M (L.typedIn (.line m input clock))
      [.command m targetMac message clock] := by
  have idle : (M.sites m).main = .idle := by
    rw [h.main, (Process.entered_eq_some sends).1]
    rfl
  have unreported : Preserves (fun _ => True) Effect.Unreported
      (SendPoint.start targetMac message clock : Action (E.env m) SendPoint) :=
    SendPoint.preserves_start (show Effect.Unreported .lock from rfl) rfl targetMac message
  have silent := messages_of_unreported (unreported (L.programs m).node trivial).2
  refine explains_one h none ((M.sites m).main.noteRegistered (M.sites m).registered)
    (Process.does_line sends clock) (.refl .refl _) ?_ ?_ ?_
  · rw [← h.node, Mesh.step, idle]
    rw [Mesh.mainThread, idle]
  · rw [silent]
    rfl
  · rw [Mesh.typedIn, idle, typedIn, sends]
    rfl

theorem explains_advance (h : L.Follows M) {m : Mac} {point : SendPoint}
    (here : (L.programs m).main = .inLoop point) (clock : Clock) (junk : UInt32) :
    Explains L (L.act nets m (.goOn clock junk)) M [] [.advance m clock junk] := by
  have main : (M.sites m).main = point := by
    rw [h.main, here]
    rfl
  have unreported : Preserves (fun _ => True) Effect.Unreported
      (point.advance clock junk : Action (E.env m) SendPoint) :=
    SendPoint.preserves_advance point (fun _ _ _ _ _ _ _ _ => trivial)
      (show Effect.Unreported .lock from rfl) rfl rfl fun _ _ _ _ _ _ _ => rfl
  have silent := messages_of_unreported (unreported (L.programs m).node trivial).2
  refine explains_one h none ((M.sites m).main.noteRegistered (M.sites m).registered)
    (Process.does_goOn here clock junk) (.refl .refl _) ?_ ?_ rfl
  · rw [← h.node, Mesh.step, Mesh.mainThread, main]
  · rw [silent]
    rfl

theorem messages_between {env : NodeEnv} {part : NetworkStep}
    (between : ∀ p clock, part ≠ .packet p clock) (s : NodeState env) :
    messages ((part.action : Action env Unit).trace s) = [] := by
  have delivered : messages ((part.action : Action env Unit).trace s) =
      ((NodeStep.network part).deliveries s).map fun d => (macToString d.1, d.2) :=
    messages_step (.network part) s
  rw [delivered]
  cases part with
  | packet p clock => exact absurd rfl (between p clock)
  | _ => rfl

theorem explains_between (h : L.Follows M) {m : Mac} {step : ProcessStep} {op : MeshStep}
    (part : NetworkStep) (between : ∀ p clock, part ≠ .packet p clock)
    (does : Process.Does (Process.step (nets m) step) (L.programs m) (part.action : Action (E.env m) Unit)
      (L.programs m).main.point)
    (stepped : M.step op = M.network m none part.action) (reported : M.reportedIn op = [])
    (typed : M.typedIn op = []) : Explains L (L.act nets m step) M [] [op] := by
  have silent := messages_between between (L.programs m).node
  refine explains_one h none (M.sites m).registered does (.refl .refl _) ?_ ?_ typed
  · rw [stepped, ← h.main]
    rfl
  · rw [reported, silent]
    rfl

theorem explains_packet (h : L.Follows M) {m : Mac} {step : ProcessStep} {j : ℕ} {t : Transmission}
    {packet : Packet} {clock : Clock} (here : M.air[j]? = some t) (alike : packet.Alike t.packet)
    (does : Process.Does (Process.step (nets m) step) (L.programs m)
      (handlePacket packet clock : Action (E.env m) Unit) (L.programs m).main.point) :
    Explains L (L.act nets m step) M [] [.hear m j clock] := by
  refine explains_one h (some t.packet) (M.sites m).registered does (matches_handlePacket alike clock)
    ?_ ?_ rfl
  · rw [Mesh.step, here, ← h.main]
    rfl
  · rw [Mesh.reportedIn, here, h.node]
    exact congrArg _ (messages_congr (matches_handlePacket alike clock _).2.2).symm

theorem Explains.trans {L' L'' : Link E} {typed typed' : List Typed} {ops ops' : List MeshStep}
    (h : Explains L L' M typed ops) (h' : Explains L' L'' (M.after ops) typed' ops') :
    Explains L L'' M (typed ++ typed') (ops ++ ops') where
  follows := by
    rw [Mesh.after_append]
    exact h'.follows
  reported := by rw [h'.reported, h.reported, Mesh.reportsOf_append, List.append_assoc]
  typed := by rw [Mesh.typedOf_append, h.typed, h'.typed]

theorem follows_start (queueFiles : Mac → Option (List UInt8)) :
    (start queueFiles : Link E).Follows (Mesh.start queueFiles) :=
  ⟨fun _ => rfl, fun _ => rfl, fun _ mem => absurd mem List.not_mem_nil⟩

section Run

variable
  (framing : ∀ buffer, ∃ header : List UInt8, header.length = 14 ∧ wire buffer = header ++ buffer)

include framing

/-- What is received was sent, and is on the air in the mesh. -/
theorem Follows.exists_sent (h : L.Follows M) {net : NetworkInterface} {i : ℕ} {prior packet : Packet}
    (received : net.receivePacket (L.frames[i]?.map wire) prior = (true, packet)) :
    ∃ p : Packet, L.frames[i]? = some p.toBytes ∧ packet.Alike p ∧
      ∃ (j : ℕ) (t : Transmission), M.air[j]? = some t ∧ p.Alike t.packet := by
  cases got : L.frames[i]? with
  | none =>
    have nothing : (net.receivePacket none prior).1 = false := by
      rw [NetworkInterface.receivePacket]
      split_ifs <;> rfl
    rw [got, Option.map_none] at received
    rw [received] at nothing
    cases nothing
  | some buffer =>
    obtain ⟨t, mem, p, same, rfl⟩ := h.frames buffer (List.mem_of_getElem? got)
    obtain ⟨header, len, framed⟩ := framing p.toBytes
    rw [got, Option.map_some, framed] at received
    obtain ⟨j, here⟩ := List.mem_iff_getElem?.1 mem
    exact ⟨p, rfl, alike_of_received len received, j, t, here, same⟩

/-- Every step of the programs is explained. -/
theorem exists_explains (h : L.Follows M) (op : LinkStep) :
    ∃ ops, Explains L (L.step wire nets op) M (L.typedIn op) ops := by
  cases op with
  | line m input clock =>
    cases sends : (L.programs m).entered input with
    | none =>
      have typed : L.typedIn (.line m input clock) = [] := by rw [typedIn, sends]; rfl
      rw [typed]
      exact ⟨[], explains_silent h (Process.silent_line sends clock)⟩
    | some command => exact ⟨_, explains_command h sends clock⟩
  | goOn m clock junk =>
    cases main : (L.programs m).main with
    | inLoop point => exact ⟨_, explains_advance h main clock junk⟩
    | _ => exact ⟨[], explains_silent h (Process.silent_goOn (by simp [main]) clock junk)⟩
  | join m => exact ⟨[], explains_silent h (Process.silent_join _)⟩
  | network m i junk clock =>
    rcases Process.network_cases (nets m) (L.programs m) (L.frames[i]?.map wire) junk clock with
      silent | hello | retry | cleanup | ⟨prior, packet, received, handles⟩
    · exact ⟨[], explains_silent h silent⟩
    · exact ⟨[.hello m], explains_between h .hello (by simp) hello rfl rfl rfl⟩
    · exact ⟨[.retry m clock], explains_between h (.retry clock) (by simp) retry rfl rfl rfl⟩
    · exact ⟨[.cleanup m clock],
        explains_between h (.cleanup clock) (by simp) cleanup rfl rfl rfl⟩
    · obtain ⟨p, -, alike, j, t, here, same⟩ := h.exists_sent framing received
      exact ⟨[.hear m j clock], explains_packet h here (alike.trans same) handles⟩

theorem exists_explains_after (nets : Mac → NetworkInterface) (h : L.Follows M)
    (steps : List LinkStep) :
    ∃ ops, Explains L (L.after wire nets steps) M (typedOf wire nets L steps) ops := by
  induction steps generalizing L M with
  | nil => exact ⟨[], h, (List.append_nil _).symm, rfl⟩
  | cons op steps ih =>
    obtain ⟨ops, first⟩ := exists_explains framing h op
    obtain ⟨ops', rest⟩ := ih first.follows
    exact ⟨ops ++ ops', first.trans rest⟩

/-- The programs make up the mesh. On a link that puts 14 bytes in front of every buffer, each run of
the programs, their command lines and both of their threads, is a run of the mesh: there are steps of
the mesh in which the same messages are typed and the same are reported, in the same order, and after
which every node is in the same state and every main thread has come as far with its message; and the
frames on the link are packets that the mesh has on the air. The greeting, the pass over the
unacknowledged messages, `fragment_message` and each `enqueue`, which hold no mutex, are single steps
of both. -/
theorem exists_mesh_run (nets : Mac → NetworkInterface) (queueFiles : Mac → Option (List UInt8))
    (steps : List LinkStep) :
    ∃ ops, ((start queueFiles : Link E).after wire nets steps).Follows
        ((Mesh.start queueFiles).after ops) ∧
      reports ((start queueFiles : Link E).after wire nets steps).done =
        (Mesh.start queueFiles : Mesh E).reportsOf ops ∧
      (Mesh.start queueFiles : Mesh E).typedOf ops =
        typedOf wire nets (start queueFiles : Link E) steps := by
  obtain ⟨ops, explains⟩ := exists_explains_after framing nets (follows_start (E := E) queueFiles) steps
  exact ⟨ops, explains.follows, explains.reported, explains.typed⟩

end Run

/-! Two hosts on such a link. -/

/-- Fourteen bytes in front. -/
def zerosInFront (buffer : List UInt8) : List UInt8 := List.replicate 14 0 ++ buffer

theorem framing_zerosInFront (buffer : List UInt8) :
    ∃ header : List UInt8, header.length = 14 ∧ zerosInFront buffer = header ++ buffer :=
  ⟨List.replicate 14 0, List.length_replicate, rfl⟩

/-- The second host greets, and the first one hears it. -/
def meeting : List LinkStep :=
  List.replicate 3 (.network secondMac 0 NetworkInterface.helloPacket atNoon) ++
    List.replicate 5 (.network firstMac 0 NetworkInterface.helloPacket atNoon)

theorem exists_mesh_run_meeting :
    ∃ ops, ((start fun _ => none : Link smallMesh).after zerosInFront
          (fun _ => NetworkInterface.openInterface) meeting).Follows
        ((Mesh.start fun _ => none).after ops) ∧
      reports ((start fun _ => none : Link smallMesh).after zerosInFront
          (fun _ => NetworkInterface.openInterface) meeting).done =
        (Mesh.start fun _ => none : Mesh smallMesh).reportsOf ops ∧
      (Mesh.start fun _ => none : Mesh smallMesh).typedOf ops =
        typedOf zerosInFront (fun _ => NetworkInterface.openInterface)
          (start fun _ => none : Link smallMesh) meeting :=
  exists_mesh_run framing_zerosInFront (fun _ => NetworkInterface.openInterface) (fun _ => none) meeting

end Link

end Araba
