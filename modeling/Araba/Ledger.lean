import Araba.Lib.Lines
import Araba.Retries

/-!
# The ledger

Every event goes into one log file as a line of text, and `receive` prints the lines in which it finds
the words that a delivered message is logged with.
-/

namespace Araba

open Bytes Traced Lines

/-- The byte that ends a line. -/
def newline : UInt8 := 0x0a

/-- `tm_hour`, `tm_min` and `tm_sec`. -/
structure Stamp where
  hour : ℕ
  min : ℕ
  sec : ℕ

/-- The time in square brackets that stands in front of a line. -/
def Stamp.prefixed (t : Stamp) : Str :=
  text "[" ++ text (Nat.repr t.hour) ++ text ":" ++ text (Nat.repr t.min) ++ text ":" ++
    text (Nat.repr t.sec) ++ text "] "

/-- What `log_event` writes. -/
def logLine (t : Stamp) (event : LogEvent) : Str := t.prefixed ++ event.message ++ [newline]

/-- The log file, which was empty, after a list of events. -/
def logFile (stamps : ℕ → Stamp) : List LogEvent → Str
  | [] => []
  | e :: es => logLine (stamps 0) e ++ logFile (fun i => stamps (i + 1)) es

/-- What `receive` looks for in a line. -/
def marker : Str := text "MESSAGE RECEIVED"

/-- The lines that `receive` prints. -/
def receive (log : Str) : List Str := grep newline marker log

/-! ## The texts of the events -/

/-- Neither a newline nor the letter that the marker begins with. -/
def Inert (s : Str) : Prop := ∀ b ∈ s, b ≠ newline ∧ b ≠ 0x4d

instance (s : Str) : Decidable (Inert s) := List.decidableBAll (fun b => b ≠ newline ∧ b ≠ 0x4d) s

theorem Inert.append {s s' : Str} (h : Inert s) (h' : Inert s') : Inert (s ++ s') := by
  intro b hb
  exact (List.mem_append.1 hb).elim (h b) (h' b)

theorem Inert.newline_not_mem {s : Str} (h : Inert s) : newline ∉ s := fun mem => (h _ mem).1 rfl

theorem Inert.letter_not_mem {s : Str} (h : Inert s) : 0x4d ∉ s := fun mem => (h _ mem).2 rfl

theorem inert_repr (n : ℕ) : Inert (text (Nat.repr n)) := by
  intro b hb
  rw [Nat.repr_eq_ofList_toDigits, text, String.toUTF8, String.toByteArray_ofList, List.utf8Encode,
    List.data_toByteArray] at hb
  obtain ⟨c, hc, hb⟩ := List.mem_flatMap.1 hb
  have digit := Nat.isDigit_of_mem_toDigits (by decide) (by decide) hc
  unfold Char.isDigit at digit
  rw [Bool.and_eq_true, decide_eq_true_iff, decide_eq_true_iff] at digit
  obtain ⟨low, high⟩ := digit
  have low' : 48 ≤ c.val.toNat := low
  have high' : c.val.toNat ≤ 57 := high
  have ascii : String.utf8EncodeChar c = [UInt8.ofNat c.val.toNat] := if_pos (by omega)
  rw [ascii, List.mem_singleton] at hb
  have value : b.toNat = c.val.toNat := by
    rw [hb, UInt8.toNat_ofNat']
    omega
  refine ⟨fun e => ?_, fun e => ?_⟩
  · rw [e] at value
    exact absurd (value.symm.trans (by decide : newline.toNat = 10)) (by omega)
  · rw [e] at value
    exact absurd (value.symm.trans (by decide : (0x4d : UInt8).toNat = 77)) (by omega)

theorem inert_macToString (mac : Mac) : Inert (macToString mac) := by
  have digit : ∀ d < 16, hexChar d ≠ newline ∧ hexChar d ≠ 0x4d := by decide
  have byte (b : UInt8) : Inert (hexByte b) := by
    have lt := b.toNat_lt
    intro c hc
    rcases List.mem_pair.1 hc with rfl | rfl
    · exact digit _ (by omega)
    · exact digit _ (by omega)
  have colon : Inert (text ":") := by decide
  unfold macToString
  exact (((((((((((byte _).append colon).append (byte _)).append colon).append (byte _)).append
    colon).append (byte _)).append colon).append (byte _)).append colon).append (byte _))

theorem inert_prefixed (t : Stamp) : Inert t.prefixed := by
  have colon : Inert (text ":") := by decide
  have opening : Inert (text "[") := by decide
  have closing : Inert (text "] ") := by decide
  unfold Stamp.prefixed
  exact ((((((opening.append (inert_repr _)).append colon).append (inert_repr _)).append colon).append
    (inert_repr _)).append closing)

/-- The nodes that the event names are named by their MACs. -/
def LogEvent.Named : LogEvent → Prop
  | loopStarted name | newNeighbor name | autoDelivering _ name | routeAdv name | ackReceived _ name
  | failedReassembled name | messageReceived name _ | failedDecrypt name | forwarded name
  | deliveryFailed name _ | retry _ _ name => ∃ mac, name = macToString mac
  | loopStopped | droppedFragmented => True

theorem inert_message {e : LogEvent} (named : e.Named)
    (other : ∀ name msg, e ≠ .messageReceived name msg)
    (other' : ∀ name msg, e ≠ .deliveryFailed name msg) : Inert e.message := by
  cases e with
  | messageReceived name msg => exact absurd rfl (other name msg)
  | deliveryFailed name msg => exact absurd rfl (other' name msg)
  | loopStopped => exact (by decide : Inert (text "Network loop stopped."))
  | droppedFragmented =>
    exact (by decide : Inert (text "DROPPED fragmented DATA — forwarding not yet supported"))
  | loopStarted name =>
    obtain ⟨mac, rfl⟩ := named
    exact (by decide : Inert (text "Network loop started on ")).append (inert_macToString mac)
  | newNeighbor name =>
    obtain ⟨mac, rfl⟩ := named
    exact (by decide : Inert (text "NEW NEIGHBOR: ")).append (inert_macToString mac)
  | autoDelivering count name =>
    obtain ⟨mac, rfl⟩ := named
    exact (((by decide : Inert (text "Auto-delivering ")).append (inert_repr count)).append
      (by decide : Inert (text " queued messages to "))).append (inert_macToString mac)
  | routeAdv name =>
    obtain ⟨mac, rfl⟩ := named
    exact (by decide : Inert (text "ROUTE_ADV from ")).append (inert_macToString mac)
  | ackReceived seq name =>
    obtain ⟨mac, rfl⟩ := named
    exact (((by decide : Inert (text "ACK received for seq ")).append (inert_repr _)).append
      (by decide : Inert (text " from "))).append (inert_macToString mac)
  | failedReassembled name =>
    obtain ⟨mac, rfl⟩ := named
    exact (by decide : Inert (text "Failed to decrypt reassembled DATA from ")).append
      (inert_macToString mac)
  | failedDecrypt name =>
    obtain ⟨mac, rfl⟩ := named
    exact (by decide : Inert (text "Failed to decrypt DATA from ")).append (inert_macToString mac)
  | forwarded name =>
    obtain ⟨mac, rfl⟩ := named
    exact (by decide : Inert (text "FORWARDED DATA to ")).append (inert_macToString mac)
  | retry count seq name =>
    obtain ⟨mac, rfl⟩ := named
    exact (((((by decide : Inert (text "RETRY ")).append (inert_repr _)).append
      (by decide : Inert (text " for seq "))).append (inert_repr _)).append
      (by decide : Inert (text " to "))).append (inert_macToString mac)

/-! ## What an event contributes -/

theorem newline_not_mem_marker : newline ∉ marker := by decide

theorem marker_eq : marker = 0x4d :: marker.tail := by decide

theorem receive_append (t : Stamp) (e : LogEvent) (rest : Str) :
    receive (logLine t e ++ rest) = receive (logLine t e) ++ receive rest := by
  unfold receive logLine
  rw [List.append_assoc, List.singleton_append]
  exact grep_append _ _

theorem receive_eq_nil_iff (t : Stamp) (e : LogEvent) :
    receive (logLine t e) = [] ↔ ¬ marker <:+: e.message := by
  have some' : marker ≠ [] := by decide
  unfold receive logLine
  rw [grep_eq_nil_iff newline_not_mem_marker some', infix_concat_iff newline_not_mem_marker some',
    marker_eq, infix_append_iff (inert_prefixed t).letter_not_mem]

theorem receive_of_inert (t : Stamp) {e : LogEvent} (inert : Inert e.message) :
    receive (logLine t e) = [] := by
  rw [receive_eq_nil_iff, marker_eq]
  exact fun inside => inert.letter_not_mem (inside.subset List.mem_cons_self)

theorem receive_of_received (t : Stamp) (mac : Mac) {msg : Str} (one : newline ∉ msg) :
    receive (logLine t (.messageReceived (macToString mac) msg)) =
      [t.prefixed ++ LogEvent.message (.messageReceived (macToString mac) msg)] := by
  have front : Inert (t.prefixed) := inert_prefixed t
  have words : newline ∉ text "MESSAGE RECEIVED from " := by decide
  have colon : Inert (text ": ") := by decide
  have whole : newline ∉ t.prefixed ++ LogEvent.message (.messageReceived (macToString mac) msg) := by
    unfold LogEvent.message
    simp only [List.mem_append, not_or]
    exact ⟨front.newline_not_mem, ⟨⟨words, (inert_macToString mac).newline_not_mem⟩,
      colon.newline_not_mem⟩, one⟩
  have found : marker <:+: t.prefixed ++ LogEvent.message (.messageReceived (macToString mac) msg) := by
    refine ⟨t.prefixed, text " from " ++ macToString mac ++ text ": " ++ msg, ?_⟩
    have split : text "MESSAGE RECEIVED from " = marker ++ text " from " := by decide
    unfold LogEvent.message
    rw [split]
    simp only [List.append_assoc]
  rw [receive, logLine, grep_of_not_mem whole, if_pos found]

theorem receive_received_ne_nil (t : Stamp) (name msg : Str) :
    receive (logLine t (.messageReceived name msg)) ≠ [] := by
  rw [Ne, receive_eq_nil_iff, not_not]
  have split : text "MESSAGE RECEIVED from " = marker ++ text " from " := by decide
  refine ⟨[], text " from " ++ name ++ text ": " ++ msg, ?_⟩
  unfold LogEvent.message
  rw [split]
  simp only [List.append_assoc, List.nil_append]

theorem receive_failed_eq_nil_iff (t : Stamp) (mac : Mac) (msg : Str) :
    receive (logLine t (.deliveryFailed (macToString mac) msg)) = [] ↔ ¬ marker <:+: msg := by
  have front : Inert (text "DELIVERY FAILED to " ++ macToString mac ++ text " after 3 retries: ") :=
    ((by decide : Inert (text "DELIVERY FAILED to ")).append (inert_macToString mac)).append (by decide)
  rw [receive_eq_nil_iff, marker_eq]
  exact not_congr (infix_append_iff front.letter_not_mem msg)

/-! ## The ledger of a list of events -/

/-- The message that an event reports as delivered. -/
def LogEvent.received : LogEvent → Option (Str × Str)
  | messageReceived srcMac msg => some (srcMac, msg)
  | _ => none

/-- The message that an event reports as failed. -/
def LogEvent.failedText : LogEvent → Option Str
  | deliveryFailed _ msg => some msg
  | _ => none

/-- The line contains the name of the source and the text of a message. -/
def Shows (line : Str) (d : Str × Str) : Prop := d.1 <:+: line ∧ d.2 <:+: line

theorem exists_mem_of_forall₂ {α β : Type} {R : α → β → Prop} {as : List α} {bs : List β}
    (all : List.Forall₂ R as bs) : ∀ b ∈ bs, ∃ a ∈ as, R a b := by
  induction all with
  | nil => exact fun b hb => absurd hb List.not_mem_nil
  | cons r _ ih =>
    refine List.forall_mem_cons.2 ⟨⟨_, List.mem_cons_self, r⟩, fun b hb => ?_⟩
    obtain ⟨a, ha, r'⟩ := ih b hb
    exact ⟨a, List.mem_cons_of_mem _ ha, r'⟩

section Events

variable {events : List LogEvent}

/-- The lines that are found cover the delivered messages and those failures that have the marker in
their texts. -/
theorem length_receive (stamps : ℕ → Stamp) (named : ∀ e ∈ events, e.Named) :
    (events.filterMap LogEvent.received).length +
        (events.filterMap LogEvent.failedText).countP (fun m => marker <:+: m) ≤
      (receive (logFile stamps events)).length := by
  induction events generalizing stamps with
  | nil => exact le_rfl
  | cons e events ih =>
    obtain ⟨name, named'⟩ := List.forall_mem_cons.1 named
    have rest := ih (fun i => stamps (i + 1)) named'
    rw [logFile, receive_append, List.length_append]
    cases e with
    | messageReceived src msg =>
      have here := List.length_pos_iff.2 (receive_received_ne_nil (stamps 0) src msg)
      simp only [List.filterMap_cons, LogEvent.received, LogEvent.failedText, List.length_cons]
      omega
    | deliveryFailed dest msg =>
      obtain ⟨mac, rfl⟩ := name
      simp only [List.filterMap_cons, LogEvent.received, LogEvent.failedText, List.countP_cons]
      by_cases found : marker <:+: msg
      · have here := List.length_pos_iff.2
          (mt (receive_failed_eq_nil_iff (stamps 0) mac msg).1 (not_not.2 found))
        rw [if_pos (decide_eq_true found)]
        omega
      · rw [if_neg (by simpa using found)]
        omega
    | _ =>
      simp only [List.filterMap_cons, LogEvent.received, LogEvent.failedText]
      omega

/-- The ledger shows the delivered messages, one line each and in their order, exactly when none of
them has a newline and no failure has the marker in its text. -/
theorem forall₂_shows_iff (stamps : ℕ → Stamp) (named : ∀ e ∈ events, e.Named) :
    List.Forall₂ Shows (receive (logFile stamps events)) (events.filterMap LogEvent.received) ↔
      (∀ d ∈ events.filterMap LogEvent.received, newline ∉ d.2) ∧
        ∀ m ∈ events.filterMap LogEvent.failedText, ¬ marker <:+: m := by
  constructor
  · intro faithful
    refine ⟨fun d hd mem => ?_, fun m hm found => ?_⟩
    · obtain ⟨line, hline, -, text⟩ := exists_mem_of_forall₂ faithful d hd
      exact not_mem_of_mem_lines (List.mem_of_mem_filter hline) (text.subset mem)
    · have count := length_receive stamps named
      rw [faithful.length_eq] at count
      have pos : 0 < (events.filterMap LogEvent.failedText).countP (fun m => marker <:+: m) :=
        List.countP_pos_iff.2 ⟨m, hm, decide_eq_true found⟩
      omega
  · rintro ⟨oneLine, unmarked⟩
    induction events generalizing stamps with
    | nil => exact .nil
    | cons e events ih =>
      obtain ⟨name, named'⟩ := List.forall_mem_cons.1 named
      rw [logFile, receive_append]
      cases e with
      | messageReceived src msg =>
        obtain ⟨mac, rfl⟩ := name
        simp only [List.filterMap_cons, LogEvent.received, LogEvent.failedText] at oneLine unmarked ⊢
        obtain ⟨here, later⟩ := List.forall_mem_cons.1 oneLine
        rw [receive_of_received (stamps 0) mac here]
        refine .cons ⟨⟨(stamps 0).prefixed ++ text "MESSAGE RECEIVED from ", text ": " ++ msg, ?_⟩,
          ⟨(stamps 0).prefixed ++ (text "MESSAGE RECEIVED from " ++ macToString mac ++ text ": "), [],
            ?_⟩⟩ (ih _ named' later unmarked)
        · simp only [LogEvent.message, List.append_assoc]
        · simp only [LogEvent.message, List.append_assoc, List.append_nil]
      | deliveryFailed dest msg =>
        obtain ⟨mac, rfl⟩ := name
        simp only [List.filterMap_cons, LogEvent.received, LogEvent.failedText] at oneLine unmarked ⊢
        obtain ⟨here, later⟩ := List.forall_mem_cons.1 unmarked
        rw [(receive_failed_eq_nil_iff (stamps 0) mac msg).2 here, List.nil_append]
        exact ih _ named' oneLine later
      | _ =>
        simp only [List.filterMap_cons, LogEvent.received, LogEvent.failedText] at oneLine unmarked ⊢
        rw [receive_of_inert (stamps 0) (inert_message name (fun _ _ => nofun) fun _ _ => nofun),
          List.nil_append]
        exact ih _ named' oneLine unmarked

end Events

/-! ## Runs -/

/-- The events that are logged. -/
def eventsIn (es : List Effect) : List LogEvent :=
  es.filterMap fun
    | .log event => some event
    | _ => none

/-- An event that is logged has the property. -/
def Effect.Logs (P : LogEvent → Prop) : Effect → Prop
  | log event => P event
  | _ => True

theorem mem_eventsIn {es : List Effect} {event : LogEvent} (mem : event ∈ eventsIn es) :
    .log event ∈ es := by
  obtain ⟨e, he, logged⟩ := List.mem_filterMap.1 mem
  cases e with
  | log event' =>
    obtain rfl := Option.some.inj logged
    exact he
  | _ => cases logged

theorem filterMap_eventsIn (es : List Effect) :
    (eventsIn es).filterMap LogEvent.received = messages es := by
  rw [eventsIn, List.filterMap_filterMap, messages]
  congr 1
  funext e
  cases e with
  | log event => cases event <;> rfl
  | _ => rfl

section Run

variable {env : NodeEnv}

/-- The nodes that an event names have names, and a message is reported with the name of the node that
the handled packet is from. -/
def NodeStep.Reports (step : NodeStep) (event : LogEvent) : Prop :=
  event.Named ∧ ∀ srcMac msg, event = .messageReceived srcMac msg →
    ∃ p clock, step = .network (.packet p clock) ∧ srcMac = macToString p.header.source

theorem reports_handlePacket (p : Packet) (clock : Clock) (s : NodeState env) :
    ∀ e ∈ (handlePacket p clock).trace s, e.Logs (NodeStep.network (.packet p clock)).Reports := by
  by_cases own : p.header.source = env.myMac
  · rw [handlePacket, if_pos own]
    exact fun e he => absurd he List.not_mem_nil
  · have about (event : LogEvent) (h : event.About p) :
        (NodeStep.network (.packet p clock)).Reports event := by
      cases event with
      | failedReassembled name => exact ⟨⟨_, h⟩, by simp⟩
      | droppedFragmented => exact ⟨trivial, by simp⟩
      | messageReceived name msg =>
        refine ⟨⟨_, h⟩, fun src text same => ⟨p, clock, rfl, ?_⟩⟩
        rw [← (LogEvent.messageReceived.inj same).1]
        exact h
      | failedDecrypt name => exact ⟨⟨_, h⟩, by simp⟩
      | forwarded name => exact ⟨h, by simp⟩
      | _ => exact h.elim
    have whole : Preserves (fun _ => True) (Effect.Logs (NodeStep.network (.packet p clock)).Reports)
        (handlePacket p clock : Action env Unit) := by
      rw [handlePacket, if_neg own]
      exact .bind (.emit trivial) fun _ =>
        .bind (.bind (preserves_learnNeighbor (fun _ _ _ _ => trivial) ⟨⟨_, rfl⟩, by simp⟩) fun _ =>
          .bind (preserves_autoDeliver (fun _ _ _ _ => trivial) (fun _ => ⟨⟨_, rfl⟩, by simp⟩) trivial
            fun _ _ _ _ => trivial) fun _ =>
          .bind (preserves_handleDiscovery (fun _ _ _ => trivial) fun _ _ => trivial) fun _ =>
          .bind (preserves_handleRouteAdv (fun _ _ _ => trivial) ⟨⟨_, rfl⟩, by simp⟩) fun _ =>
          preserves_handleAck (fun _ _ _ => trivial) fun _ => ⟨⟨_, rfl⟩, by simp⟩) fun _ =>
        .bind (preserves_handleData (fun _ _ _ _ => trivial) trivial trivial trivial about
          (fun _ _ => .emit trivial) fun _ _ _ => trivial) fun _ => .emit trivial
    exact (whole s trivial).2

theorem reports_step (step : NodeStep) (s : NodeState env) :
    ∀ e ∈ step.action.trace s, e.Logs step.Reports := by
  cases step with
  | network step =>
    cases step with
    | hello =>
      intro e he
      obtain rfl := List.mem_singleton.1 he
      trivial
    | packet p clock => exact reports_handlePacket p clock s
    | retry clock =>
      intro e he
      have he' : e ∈ (retryPass clock : Action env Unit).trace s := he
      rw [trace_retryPass] at he'
      obtain ⟨entry, -, mem⟩ := List.mem_flatMap.1 he'
      unfold PendingAck.report at mem
      cases turn : entry.2.turn clock.steady with
      | keep =>
        rw [turn] at mem
        exact absurd mem List.not_mem_nil
      | retry =>
        rw [turn] at mem
        obtain rfl := List.mem_singleton.1 mem
        exact ⟨⟨_, rfl⟩, nofun⟩
      | fail =>
        rw [turn] at mem
        obtain rfl := List.mem_singleton.1 mem
        exact ⟨⟨_, rfl⟩, nofun⟩
    | cleanup clock =>
      have quiet : Preserves (fun _ => True) (Effect.Logs (NodeStep.network (.cleanup clock)).Reports)
          (cleanupTick clock : Action env Unit) :=
        .bind .get fun _ => .ite (.modify fun _ _ => trivial) (.modify fun _ _ => trivial)
      exact (quiet s trivial).2
  | main step =>
    have quiet : Preserves (fun _ => True) (Effect.Logs (NodeStep.main step).Reports)
        (step.action : Action env Unit) := by
      cases step with
      | isReachable targetMac destMac clock =>
        exact .bind (.bind (.emit trivial) fun _ => .bind .get fun _ => .bind (.emit trivial)
          fun _ => .pure _) fun _ => .pure _
      | getPairCipher destMac =>
        exact .bind (preserves_getPairCipher (fun _ _ _ => trivial) trivial trivial) fun _ => .pure _
      | encryptWithCipher destMac message clock =>
        exact .bind (preserves_encryptWithCipher (fun _ _ _ _ => trivial) trivial) fun _ => .pure _
      | takeAckSeq =>
        exact .bind (.bind .get fun _ => .bind (.modify fun _ _ => trivial) fun _ => .pure _)
          fun _ => .pure _
      | transmitPacket destMac pkt =>
        exact .bind (.emit trivial) fun _ => .bind (.emit trivial) fun _ => .emit trivial
      | registerAck ackSeq destMac message clock =>
        exact .bind (.emit trivial) fun _ => .bind (.modify fun _ _ => trivial) fun _ => .emit trivial
      | enqueueFragment destMac clock junk pkt => exact .modify fun _ _ => trivial
    exact (quiet s trivial).2

/-- The messages that the DATA branch delivers in a step, with the node that they are from. -/
def NodeStep.deliveries (s : NodeState env) : NodeStep → List (Mac × Str)
  | .network (.packet p clock) =>
    (messages ((handlePacket p clock).trace s)).map fun d => (p.header.source, d.2)
  | _ => []

/-- Every message that is reported is delivered by the DATA branch, and is reported with its source. -/
theorem messages_step (step : NodeStep) (s : NodeState env) :
    messages (step.action.trace s) = (step.deliveries s).map fun d => (macToString d.1, d.2) := by
  have reports (d : Str × Str) (hd : d ∈ messages (step.action.trace s)) :
      ∃ p clock, step = .network (.packet p clock) ∧ d.1 = macToString p.header.source := by
    rw [← filterMap_eventsIn] at hd
    obtain ⟨event, mem, received⟩ := List.mem_filterMap.1 hd
    have reported := (reports_step step s _ (mem_eventsIn mem)).2
    cases event with
    | messageReceived srcMac msg =>
      obtain rfl := Option.some.inj received
      exact reported srcMac msg rfl
    | _ => cases received
  have silent (none' : ∀ p clock, step ≠ .network (.packet p clock)) :
      messages (step.action.trace s) = [] := by
    refine List.eq_nil_iff_forall_not_mem.2 fun d hd => ?_
    obtain ⟨p, clock, same, -⟩ := reports d hd
    exact none' p clock same
  cases step with
  | network step =>
    cases step with
    | packet p clock =>
      have kept (d : Str × Str) (hd : d ∈ messages ((handlePacket p clock).trace s)) :
          ((fun d : Mac × Str => (macToString d.1, d.2)) ∘
            fun d : Str × Str => (p.header.source, d.2)) d = id d := by
        obtain ⟨p', clock', same, name⟩ := reports d hd
        cases same
        exact Prod.ext name.symm rfl
      show messages ((handlePacket p clock).trace s) = List.map _ (List.map _ _)
      rw [List.map_map, List.map_congr_left kept, List.map_id]
    | _ => exact silent fun _ _ => nofun
  | main step => exact silent fun _ _ => nofun

/-- The events that are logged in a run. -/
def eventsOf : NodeState env → List NodeStep → List LogEvent
  | _, [] => []
  | s, step :: steps => eventsIn (step.action.trace s) ++ eventsOf (step.action.post s) steps

/-- The messages that are delivered in a run. -/
def deliveriesOf : NodeState env → List NodeStep → List (Mac × Str)
  | _, [] => []
  | s, step :: steps => step.deliveries s ++ deliveriesOf (step.action.post s) steps

/-- The messages of the node itself that are given up in a run. -/
def failedMessages (s : NodeState env) (steps : List NodeStep) : List Str :=
  (eventsOf s steps).filterMap LogEvent.failedText

theorem named_eventsOf (s : NodeState env) (steps : List NodeStep) :
    ∀ e ∈ eventsOf s steps, e.Named := by
  induction steps generalizing s with
  | nil => exact fun e he => absurd he List.not_mem_nil
  | cons step steps ih =>
    intro e he
    rcases List.mem_append.1 he with here | later
    · exact (reports_step step s _ (mem_eventsIn here)).1
    · exact ih _ e later

theorem received_eventsOf (s : NodeState env) (steps : List NodeStep) :
    (eventsOf s steps).filterMap LogEvent.received =
      (deliveriesOf s steps).map fun d => (macToString d.1, d.2) := by
  induction steps generalizing s with
  | nil => rfl
  | cons step steps ih =>
    rw [eventsOf, deliveriesOf, List.filterMap_append, filterMap_eventsIn, messages_step, ih,
      List.map_append]

/-- The log of a run of the network loop, which may have been stopped. -/
def runEvents (start : NodeState env) (steps : List NodeStep) (stopped : Bool) : List LogEvent :=
  .loopStarted (macToString env.myMac) ::
    (eventsOf start steps ++ if stopped then [.loopStopped] else [])

/-- What `receive` prints is one line for each message that the DATA branch has delivered, in order, with
the MAC of its source and its text, and nothing else. -/
def FaithfulLedger (stamps : ℕ → Stamp) (start : NodeState env) (steps : List NodeStep)
    (stopped : Bool) : Prop :=
  List.Forall₂ (fun line d => macToString d.1 <:+: line ∧ d.2 <:+: line)
    (receive (logFile stamps (runEvents start steps stopped))) (deliveriesOf start steps)

/-- In every run the ledger is faithful exactly when no message with a newline is delivered and no
message with the words of the marker is given up. -/
theorem faithfulLedger_iff (stamps : ℕ → Stamp) (start : NodeState env) (steps : List NodeStep)
    (stopped : Bool) :
    FaithfulLedger stamps start steps stopped ↔
      (∀ d ∈ deliveriesOf start steps, newline ∉ d.2) ∧
        ∀ m ∈ failedMessages start steps, ¬ marker <:+: m := by
  have ending : (if stopped then [LogEvent.loopStopped] else []).filterMap LogEvent.received = [] ∧
      (if stopped then [LogEvent.loopStopped] else []).filterMap LogEvent.failedText = [] ∧
      ∀ e ∈ (if stopped then [LogEvent.loopStopped] else []), e.Named := by
    cases stopped with
    | true => exact ⟨rfl, rfl, fun e he => List.mem_singleton.1 he ▸ trivial⟩
    | false => exact ⟨rfl, rfl, fun e he => absurd he List.not_mem_nil⟩
  obtain ⟨nothing, nothing', named'⟩ := ending
  have named : ∀ e ∈ runEvents start steps stopped, e.Named := by
    refine List.forall_mem_cons.2 ⟨⟨_, rfl⟩, fun e he => ?_⟩
    exact (List.mem_append.1 he).elim (named_eventsOf start steps e) (named' e)
  have received : (runEvents start steps stopped).filterMap LogEvent.received =
      (deliveriesOf start steps).map fun d => (macToString d.1, d.2) := by
    show (eventsOf start steps ++ _).filterMap LogEvent.received = _
    rw [List.filterMap_append, nothing, List.append_nil, received_eventsOf]
  have failed : (runEvents start steps stopped).filterMap LogEvent.failedText =
      failedMessages start steps := by
    show (eventsOf start steps ++ _).filterMap LogEvent.failedText = _
    rw [List.filterMap_append, nothing', List.append_nil, failedMessages]
  have shows := forall₂_shows_iff stamps named
  rw [received, failed, List.forall₂_map_right_iff, List.forall_mem_map] at shows
  exact shows

end Run

/-- A message with the words of the marker is sent, and never acknowledged. -/
def markedMessage : List NodeStep :=
  [.main (.registerAck 1 receiverEnv.myMac marker ⟨0, 0⟩),
    .network (.retry ⟨0, 4 * second⟩), .network (.retry ⟨0, 8 * second⟩),
    .network (.retry ⟨0, 12 * second⟩), .network (.retry ⟨0, 16 * second⟩)]

/-- The node has not received anything, and the message that it has given up is in its ledger. -/
theorem given_up_message_in_ledger :
    deliveriesOf (NodeState.start senderEnv none) markedMessage = [] ∧
      ¬ FaithfulLedger (fun _ => ⟨12, 0, 0⟩) (NodeState.start senderEnv none) markedMessage false := by
  have nothing : deliveriesOf (NodeState.start senderEnv none) markedMessage = [] := rfl
  have events : runEvents (NodeState.start senderEnv none) markedMessage false =
      [.loopStarted (macToString senderEnv.myMac), .retry 1 1 (macToString receiverEnv.myMac),
        .retry 2 1 (macToString receiverEnv.myMac), .retry 3 1 (macToString receiverEnv.myMac),
        .deliveryFailed (macToString receiverEnv.myMac) marker] := rfl
  refine ⟨nothing, fun faithful => ?_⟩
  have length := faithful.length_eq
  rw [nothing, events] at length
  exact absurd length (by decide +kernel)

end Araba
