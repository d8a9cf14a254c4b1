import Araba.Simulation
import Araba.Targets

/-!
# From command line to log

What the program of a host reports was entered at the program of the host that is named. That the
programs make up the mesh carries what holds of the messages in the mesh over to them.
-/

namespace Araba

open Bytes Traced

theorem Packet.alike_of_toBytes_eq {p q : Packet} (same : p.toBytes = q.toBytes) : p.Alike q := by
  have header : p.header = q.header := by
    have front (r : Packet) : PacketHeader.ofBytes r.toBytes = r.header :=
      PacketHeader.ofBytes_toBytes_append _ _
    rw [← front p, same, front]
  refine ⟨header, ?_⟩
  rw [p.body_eq_take_drop_toBytes, q.body_eq_take_drop_toBytes, same, header]

namespace Link

variable {E : MeshEnv} {wire : List UInt8 → List UInt8} {nets : Mac → NetworkInterface} {L : Link E}

/-! ## A message that is put on the link and taken off it -/

section Send

variable {m d : Mac} {message : Str} {packet : Packet} {clock : Clock}

/-- Only the program of `m` has run: it is at `p`, and has put the frames on the link. -/
structure Moved (L L' : Link E) (m : Mac) (p : Process (E.env m)) (frames : List (List UInt8)) :
    Prop where
  program : L'.programs m = p
  others : ∀ n, n ≠ m → L'.programs n = L.programs n
  frames : L'.frames = L.frames ++ frames

theorem Moved.next {L' : Link E} {p p' : Process (E.env m)} {frames : List (List UInt8)}
    {es : List Effect} (h : Moved L L' m p frames) (nets : Mac → NetworkInterface) {step : ProcessStep}
    (moves : (Process.step (nets m) step).post p = p' ∧ (Process.step (nets m) step).trace p = es) :
    Moved L (L'.act nets m step) m p' (frames ++ handedOver (nets m) es) where
  program := by
    rw [Link.act, h.program, moves.1]
    exact Function.update_self ..
  others n other := (Function.update_of_ne other _ _).trans (h.others n other)
  frames := by rw [Link.act, h.program, moves.2, h.frames, List.append_assoc]

/-- The steps of a host whose message of one packet is not interrupted. -/
def sendingSteps (m : Mac) (input : Str) (clock : Clock) : List LinkStep :=
  .line m (some input) clock :: List.replicate 4 (.goOn m clock 0)

/-- The packet goes on the link, and the other programs do nothing. -/
theorem after_sendingSteps {input : Str}
    (sends : (L.programs m).entered (some input) = some (macToString d, message)) (some' : message ≠ [])
    (near : macToString d ∈ (L.programs m).node.knownNeighbors)
    (opened : ¬ ((nets m).sockFd < 0 ∨ (nets m).ifIndex = 0))
    (made : (prepareMessage d message clock).value (L.programs m).node = some [packet]) :
    ∃ p, Moved L (L.after wire nets (sendingSteps m input clock)) m p [packet.toBytes] := by
  have prompt : (SendPoint.start (macToString d) message clock : Action (E.env m) SendPoint)
      (L.programs m).node = (.checked true d message, (L.programs m).node, [.lock, .unlock]) :=
    SendPoint.start_eq some' near
  have checked := Process.post_line (nets m) sends clock
  generalize (SendPoint.start (macToString d) message clock : Action (E.env m) SendPoint) = a at *
  rw [show a.value (L.programs m).node = .checked true d message from congrArg Prod.fst prompt,
    show a.post (L.programs m).node = (L.programs m).node from congrArg (fun r => r.2.1) prompt,
    show a.trace (L.programs m).node = [.lock, .unlock] from congrArg (fun r => r.2.2) prompt] at checked
  have start : Moved L L m (L.programs m) [] := ⟨rfl, fun _ _ => rfl, (List.append_nil _).symm⟩
  set t := (getPairCipher d : Action (E.env m) AES256).post (L.programs m).node
  have value : (prepareMessage d message clock).value t = some [packet] := by
    rw [← value_encryptWithCipher, ← value_prepareMessage_eq, made]
  have silent : handedOver (nets m) ((encryptWithCipher d message clock).trace t) = [] := by
    rw [handedOver, SendPoint.sendCalls_encryptWithCipher]
    rfl
  have sent : handedOver (nets m) [.lock, .send packet d, .unlock] = [packet.toBytes] := by
    show List.filterMap _ [(packet, d)] = _
    rw [List.filterMap_cons, List.filterMap_nil, NetworkInterface.sendPacket, if_neg opened]
    rfl
  have keyed : Moved L _ m
      { L.programs m with
        node := t
        main := .inLoop (.keyed true d message) } ([] ++ [] ++ []) :=
    (start.next nets checked).next nets (Process.post_goOn (nets m) rfl clock 0)
  have prepared := keyed.next nets (Process.post_goOn (nets m) rfl clock 0)
  rw [SendPoint.value_advance_keyed, SendPoint.trace_advance_keyed, value, silent] at prepared
  have numbered := prepared.next nets (Process.post_goOn (nets m) rfl clock 0)
  have transmitted := numbered.next nets (Process.post_goOn (nets m) rfl clock 0)
  exact ⟨_, transmitted.program, transmitted.others, transmitted.frames.trans (congrArg _ sent)⟩

/-- A host that looks for packets takes the one that is on the link. -/
theorem handled_after_turn
    (framing : ∀ buffer, ∃ header : List UInt8, header.length = 14 ∧ wire buffer = header ++ buffer)
    (nets : Mac → NetworkInterface) (opened : 0 ≤ (nets m).sockFd) {i : ℕ} {prior : Packet}
    (turn : (L.programs m).network = .inner 0 prior) (running : (L.programs m).running = true)
    (frame : L.frames[i]? = some packet.toBytes) (fits : packet.Fits) (junk : Packet) (clock : Clock) :
    (L.step wire nets (.network m i junk clock)).frames[i]? = some packet.toBytes ∧
      ∃ q : Packet, q.Alike packet ∧
        (Process.step (nets m) (.network (some (wire packet.toBytes)) junk clock)).trace
            ((L.step wire nets (.network m i junk clock)).programs m) =
          (handlePacket q clock).trace (L.programs m).node := by
  constructor
  · show (L.frames ++ _)[i]? = _
    rw [List.getElem?_append_left (List.getElem?_eq_some_iff.1 frame).1, frame]
  · obtain ⟨header, len, framed⟩ := framing packet.toBytes
    obtain ⟨q, received, alike⟩ := exists_received len opened fits prior
    refine ⟨q, alike, ?_⟩
    have moved : (L.step wire nets (.network m i junk clock)).programs m =
        { L.programs m with network := .receiving 0 prior } := by
      refine (Function.update_self ..).trans ?_
      generalize (L.programs m) = p at turn running
      obtain ⟨node, _, main, _⟩ := p
      obtain rfl : _ = true := running
      obtain rfl : _ = NetworkAt.inner 0 prior := turn
      rfl
    rw [moved, framed]
    exact Process.trace_receiveTurn received _

end Send

/-! ## What is reported was entered -/

/-- On a link that puts 14 bytes in front of every buffer, with one base key and no messages queued at
first, whatever a program reports when it takes a frame off the link that does not look like a fragment
was entered with `send` at the program of the host that is named, for the host that reports it. -/
theorem reported_was_entered
    (framing : ∀ buffer, ∃ header : List UInt8, header.length = 14 ∧ wire buffer = header ++ buffer)
    (shared : ∀ m n, E.baseKey m = E.baseKey n)
    (nets : Mac → NetworkInterface) (steps : List LinkStep) (reached : Link E)
    (run : reached = (start fun _ => none : Link E).after wire nets steps) (m : Mac) (i : ℕ)
    (junk : Packet) (clock : Clock)
    (single : ∀ p : Packet, reached.frames[i]? = some p.toBytes → ¬ p.IsFragment) (src msg : Str)
    (reported : (src, msg) ∈ messages ((Process.step (nets m)
      (.network (reached.frames[i]?.map wire) junk clock)).trace (reached.programs m))) :
    ∃ source, src = macToString source ∧
      ⟨source, m, msg⟩ ∈ typedOf wire nets (start fun _ => none : Link E) steps := by
  obtain ⟨ops, follows, -, typed⟩ :=
    exists_explains_after framing nets (follows_start (E := E) fun _ => none) steps
  have authentic := Mesh.authentic_after (E := E) ops (Mesh.traceable_start fun _ => none)
    Mesh.authentic_start
  rw [← run] at follows
  have reports {α : Type} {a : Action (E.env m) α} {point : SendPoint}
      (does : Process.Does (Process.step (nets m) (.network (reached.frames[i]?.map wire) junk clock))
        (reached.programs m) a point) : (src, msg) ∈ messages (a.trace (reached.programs m).node) :=
    does.trace ▸ reported
  have silent (part : NetworkStep) {point : SendPoint} (between : ∀ p clock, part ≠ .packet p clock)
      (does : Process.Does (Process.step (nets m) (.network (reached.frames[i]?.map wire) junk clock))
        (reached.programs m) (part.action : Action (E.env m) Unit) point) : False := by
    have report := reports does
    rw [messages_between between] at report
    exact List.not_mem_nil report
  rcases Process.network_cases (nets m) (reached.programs m) (reached.frames[i]?.map wire) junk clock with
    idle | hello | retry | cleanup | ⟨prior, packet, received, handles⟩
  · rw [idle.reported] at reported
    exact absurd reported List.not_mem_nil
  · exact (silent .hello (by simp) hello).elim
  · exact (silent (.retry clock) (by simp) retry).elim
  · exact (silent (.cleanup clock) (by simp) cleanup).elim
  · obtain ⟨p, frame, alike, j, t, here, same⟩ := follows.exists_sent framing received
    have genuine : GenuineData E (typedOf wire nets (start fun _ => none : Link E) steps) packet := by
      have made := authentic.air t (List.mem_of_getElem? here)
      rw [List.nil_append, typed] at made
      obtain ⟨header, body⟩ := alike.trans same
      unfold GenuineData
      rw [header, body]
      exact made
    exact genuine.typed_of_reported shared ((isFragment_congr alike).not.2 (single p frame))
      (reports handles)

/-- What is typed at the first host. -/
def hiLine : Str := text "send 02:00:00:00:00:02 hi"

/-- The steps until the second host takes the packet off the link. -/
def sendingHi : List LinkStep :=
  meeting ++ sendingSteps firstMac hiLine atNoon ++
    [.network secondMac 3 NetworkInterface.helloPacket atNoon]

theorem reported_was_entered_hi :
    ∃ reached : Link smallMesh,
      reached = (start fun _ => none).after zerosInFront (fun _ => NetworkInterface.openInterface)
        sendingHi ∧
      (macToString firstMac, text "hi") ∈ messages
        ((Process.step NetworkInterface.openInterface (.network (reached.frames[3]?.map zerosInFront)
          NetworkInterface.helloPacket atNoon)).trace (reached.programs secondMac)) ∧
      ∃ source, macToString firstMac = macToString source ∧
        ⟨source, secondMac, text "hi"⟩ ∈ typedOf zerosInFront
          (fun _ => NetworkInterface.openInterface) (start fun _ => none : Link smallMesh) sendingHi := by
  set nets : Mac → NetworkInterface := fun _ => NetworkInterface.openInterface
  set met : Link smallMesh := (start fun _ => none).after zerosInFront nets meeting
  obtain ⟨packet, made, -, answered⟩ :=
    exists_answered (a := smallMesh.env firstMac) (b := smallMesh.env secondMac) Mesh.distinct_macs rfl
      (show 1 ≤ (text "hi").length by decide) atNoon (met.programs firstMac).node (by decide) (by decide)
  have sends : (met.programs firstMac).entered (some hiLine) =
      some (macToString secondMac, text "hi") := by
    have parsed : parseCommand hiLine = .send (macToString secondMac) (text "hi") := by decide
    have idle : (met.programs firstMac).main = .inLoop .idle := rfl
    rw [Process.entered, idle, Option.map_some, parsed]
  have near : macToString secondMac ∈ (met.programs firstMac).node.knownNeighbors := by decide +kernel
  set sent := met.after zerosInFront nets (sendingSteps firstMac hiLine atNoon)
  obtain ⟨p, moved⟩ : ∃ p, Moved met sent firstMac p [packet.toBytes] :=
    after_sendingSteps sends (by decide) near (by decide) made
  have frame : sent.frames[3]? = some packet.toBytes := by
    have three : met.frames.length = 3 := by decide +kernel
    rw [moved.frames, List.getElem?_append_right (Nat.le_of_eq three), three]
    rfl
  have there : sent.programs secondMac = met.programs secondMac := moved.others secondMac (by decide)
  have turn : (sent.programs secondMac).network = .inner 0 NetworkInterface.helloPacket := by
    rw [there]
    rfl
  have running : (sent.programs secondMac).running = true := by
    rw [there]
    rfl
  have fresh : (sent.programs secondMac).node.fragMgr.partials = ∅ := by
    rw [there]
    rfl
  obtain ⟨frame', q, alike, handled⟩ := handled_after_turn framing_zerosInFront nets (by decide) turn
    running frame (fits_of_prepared made packet (List.mem_singleton_self packet)).1
    NetworkInterface.helloPacket atNoon
  set reached := sent.step zerosInFront nets (.network secondMac 3 NetworkInterface.helloPacket atNoon)
  have run : reached = (start fun _ => none).after zerosInFront nets sendingHi := by
    rw [sendingHi, after, List.foldl_append, List.foldl_append]
    rfl
  have reported : (macToString firstMac, text "hi") ∈ messages
      ((Process.step NetworkInterface.openInterface (.network (reached.frames[3]?.map zerosInFront)
        NetworkInterface.helloPacket atNoon)).trace (reached.programs secondMac)) := by
    rw [frame', Option.map_some, handled, messages_congr (matches_handlePacket alike atNoon _).2.2,
      (answered _ _ fresh).1]
    exact List.mem_singleton_self _
  have single (p : Packet) (same : reached.frames[3]? = some p.toBytes) : ¬ p.IsFragment := by
    rw [frame'] at same
    exact (isFragment_congr (Packet.alike_of_toBytes_eq (Option.some.inj same))).not.1
      (Mesh.not_isFragment_of_prepared made (by decide) (by decide))
  exact ⟨reached, run, reported, reported_was_entered framing_zerosInFront (fun _ _ => rfl) nets sendingHi
    reached run secondMac 3 NetworkInterface.helloPacket atNoon single _ _ reported⟩

end Link

end Araba
