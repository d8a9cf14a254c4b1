import Araba.Interleaving
import Araba.SendCommand

/-!
# From one node to another

A message that one node encrypts, fragments and sends, and what the other one delivers when it has
handled all the packets, in whatever order they arrive. The receiver tells a fragment from an
encrypted payload by the fourth byte, which in the latter is a byte of the initialization vector.
-/

namespace Araba

open Bytes Collect Traced

/-- The delivered messages of a trace, with the text of their source. -/
def messages (es : List Effect) : List (Str × Str) :=
  es.filterMap fun
    | .log (.messageReceived srcMac msg) => some (srcMac, msg)
    | _ => none

@[simp] theorem messages_append (es fs : List Effect) :
    messages (es ++ fs) = messages es ++ messages fs := by
  simp [messages]

theorem messages_of_quiet {es : List Effect} (h : ∀ e ∈ es, e.Quiet) : messages es = [] := by
  rw [messages, List.filterMap_eq_nil_iff]
  intro e he
  cases e with
  | log event =>
    cases event with
    | messageReceived => exact (h _ he).elim
    | _ => rfl
  | _ => rfl

variable {env : NodeEnv}

/-- The cipher of a node for its messages with another. -/
def NodeEnv.cipher (env : NodeEnv) (theirMac : Mac) : AES256 :=
  AES256.new (derivePairKey env.myMac theirMac env.baseKey)

theorem value_getPairCipher (theirMac : Mac) (s : NodeState env) :
    (getPairCipher theirMac : Action env AES256).value s = env.cipher theirMac :=
  s.pairCiphers.find_fst theirMac

/-! ## One packet -/

section OnePacket

variable {p : Packet} {clock : Clock} {s : NodeState env} {message : List UInt8}

theorem trace_decryptThen {encrypted : List UInt8} {maxOut : ℕ}
    {next : List UInt8 → Action env Unit}
    (dec : decryptPayload encrypted maxOut (env.cipher p.header.source) = .ok message) :
    (decryptThen p encrypted maxOut next).trace s =
      [.lock, .unlock] ++ (next message).trace ((getPairCipher p.header.source).post s) := by
  rw [decryptThen, trace_bind, value_getPairCipher, dec]
  rfl

theorem messages_decryptThen {encrypted : List UInt8} {maxOut : ℕ}
    {next : List UInt8 → Action env Unit}
    (dec : decryptPayload encrypted maxOut (env.cipher p.header.source) = .ok message) :
    messages ((decryptThen p encrypted maxOut next).trace s) =
      messages ((next message).trace ((getPairCipher p.header.source).post s)) := by
  rw [trace_decryptThen dec, messages_append]
  rfl

theorem messages_deliverReassembled (mine : p.header.dest = env.myMac) (some' : message ≠ []) :
    messages ((deliverReassembled p message).trace s) =
      [(macToString p.header.source, message)] := by
  rw [deliverReassembled, if_neg (by simpa using some'), if_neg (not_not.2 mine)]
  rfl

theorem messages_deliverSingle (mine : p.header.dest = env.myMac) (some' : message ≠ []) :
    messages ((deliverSingle p clock message).trace s) =
      [(macToString p.header.source, message)] := by
  rw [deliverSingle, if_neg (by simpa using some'), if_neg (not_not.2 mine)]
  rfl

/-- A packet from another node delivers what the DATA branch delivers, and that finds the fragments
as they were. -/
theorem handlePacket_eq (clock : Clock) (s : NodeState env) (other : p.header.source ≠ env.myMac) :
    ∃ s' : NodeState env, s'.fragMgr = s.fragMgr ∧
      messages ((handlePacket p clock).trace s) = messages ((handleData p clock).trace s') ∧
      (handlePacket p clock).post s = (handleData p clock).post s' := by
  obtain ⟨same, quiet⟩ := handleControl_quiet p clock s s rfl
  refine ⟨(handleControl p clock).post s, same, ?_, ?_⟩
  · rw [trace_handlePacket other, messages_append, messages_append, messages_of_quiet quiet,
      messages_append]
    simp [messages]
  · exact post_handlePacket other

theorem messages_handlePacket_of_single (other : p.header.source ≠ env.myMac)
    (data : p.header.type = .data) (mine : p.header.dest = env.myMac) (single : ¬ p.IsFragment)
    (dec : decryptPayload p.body 1024 (env.cipher p.header.source) = .ok message)
    (some' : message ≠ []) :
    messages ((handlePacket p clock).trace s) = [(macToString p.header.source, message)] := by
  obtain ⟨s', -, same, -⟩ := handlePacket_eq clock s other
  rw [same, handleData, if_pos data, if_neg single, handleSingle, messages_decryptThen dec,
    messages_deliverSingle mine some']

theorem messages_handlePacket_of_incomplete (other : p.header.source ≠ env.myMac)
    (data : p.header.type = .data) (frag : p.IsFragment)
    (missing : ((reassembleCall p clock).run s.fragMgr).complete = false) :
    messages ((handlePacket p clock).trace s) = [] ∧
      ((handlePacket p clock).post s).fragMgr = ((reassembleCall p clock).run s.fragMgr).mgr := by
  obtain ⟨s', mgr, same, post⟩ := handlePacket_eq clock s other
  rw [← mgr] at missing ⊢
  obtain ⟨quiet, stored⟩ := handleFragment_of_incomplete missing
  rw [same, post, handleData, if_pos data, if_pos frag, quiet, stored]
  exact ⟨rfl, rfl⟩

theorem messages_handlePacket_of_complete (other : p.header.source ≠ env.myMac)
    (data : p.header.type = .data) (mine : p.header.dest = env.myMac) (frag : p.IsFragment)
    (complete : ((reassembleCall p clock).run s.fragMgr).complete = true)
    (dec : decryptPayload (((reassembleCall p clock).run s.fragMgr).outBuf.take
      ((reassembleCall p clock).run s.fragMgr).outLen) 2048 (env.cipher p.header.source) =
        .ok message)
    (some' : message ≠ []) :
    messages ((handlePacket p clock).trace s) = [(macToString p.header.source, message)] := by
  obtain ⟨s', mgr, same, -⟩ := handlePacket_eq clock s other
  rw [← mgr] at complete dec
  rw [same, handleData, if_pos data, if_pos frag, handleFragment_of_complete complete,
    messages_decryptThen dec, messages_deliverReassembled mine some']

end OnePacket

/-! ## What is sent -/

/-- The packets that the `send` command hands on for an encrypted message. -/
def sendingOf (s : NodeState env) (destMac : Mac) (encrypted : List UInt8) : Sending where
  mgr := s.fragMgr
  data := encrypted
  type := .data
  src := env.myMac
  dst := destMac
  seqNum := s.seqNum

theorem value_prepareMessage {message encrypted : List UInt8} {destMac : Mac} {clock : Clock}
    (ok : encryptPayload message 1024 (env.cipher destMac) clock.steady = .ok encrypted)
    (some' : encrypted ≠ []) (s : NodeState env) :
    (prepareMessage destMac message clock).value s =
      some (sendingOf s destMac encrypted).packets := by
  have long : ¬ encrypted.length = 0 := by simpa using some'
  rw [prepareMessage, value_bind, value_getPairCipher, encryptMessage, ok]
  show Traced.value (if encrypted.length = 0 then _ else _) _ = _
  rw [if_neg long]
  rfl

/-- Preparing a message is the look at the cipher, and the rest with the cipher in `pair_ciphers`. -/
theorem prepareMessage_eq (destMac : Mac) (message : Str) (clock : Clock) :
    (prepareMessage destMac message clock : Action env (Option (List Packet))) = (do
      let _ ← getPairCipher destMac
      encryptWithCipher destMac message clock) := by
  funext s
  refine bind_congr_at (getPairCipher destMac) s ?_
  set t := (getPairCipher destMac : Action env AES256).post s
  have target : (t.pairCiphers.find destMac).1 = env.cipher destMac := t.pairCiphers.find_fst destMac
  show encryptMessage ((getPairCipher destMac).value s) destMac message clock t =
    encryptMessage (t.pairCiphers.find destMac).1 destMac message clock t
  rw [value_getPairCipher, target]

theorem value_prepareMessage_eq (destMac : Mac) (message : Str) (clock : Clock) (s : NodeState env) :
    (prepareMessage destMac message clock).value s =
      (encryptWithCipher destMac message clock).value ((getPairCipher destMac).post s) := by
  rw [prepareMessage_eq, value_bind]

theorem post_prepareMessage_eq (destMac : Mac) (message : Str) (clock : Clock) (s : NodeState env) :
    (prepareMessage destMac message clock).post s =
      (encryptWithCipher destMac message clock).post ((getPairCipher destMac).post s) := by
  rw [prepareMessage_eq, post_bind]

theorem value_encryptWithCipher (destMac : Mac) (message : Str) (clock : Clock) (s : NodeState env) :
    (encryptWithCipher destMac message clock).value s =
      (prepareMessage destMac message clock).value s := by
  have target : (s.pairCiphers.find destMac).1 = env.cipher destMac := s.pairCiphers.find_fst destMac
  rw [encryptWithCipher, value_bind, prepareMessage, value_bind, value_getPairCipher]
  show (encryptMessage (s.pairCiphers.find destMac).1 destMac message clock).value s = _
  rw [target]
  unfold encryptMessage
  cases encryptPayload message 1024 (env.cipher destMac) clock.steady with
  | error e => rfl
  | ok encrypted =>
    show (if _ then _ else _ : Action env _).value s = (if _ then _ else _ : Action env _).value _
    split_ifs <;> rfl

theorem exists_encrypted {message : List UInt8} {destMac : Mac} {clock : Clock} {s : NodeState env}
    {packets : List Packet} (sent : (prepareMessage destMac message clock).value s = some packets) :
    ∃ encrypted, encryptPayload message 1024 (env.cipher destMac) clock.steady = .ok encrypted ∧
      encrypted ≠ [] ∧ (sendingOf s destMac encrypted).packets = packets := by
  cases made : encryptPayload message 1024 (env.cipher destMac) clock.steady with
  | error e =>
    rw [prepareMessage, value_bind, value_getPairCipher, encryptMessage, made] at sent
    cases sent
  | ok encrypted =>
    have some' : encrypted ≠ [] := by
      rintro rfl
      rw [prepareMessage, value_bind, value_getPairCipher, encryptMessage, made] at sent
      cases sent
    rw [value_prepareMessage made some' s, Option.some.injEq] at sent
    exact ⟨encrypted, rfl, some', sent⟩

theorem seqNum_prepareMessage {message : List UInt8} {destMac : Mac} {clock : Clock}
    {s : NodeState env} {packets : List Packet}
    (sent : (prepareMessage destMac message clock).value s = some packets) :
    ((prepareMessage destMac message clock).post s).seqNum =
      s.seqNum + UInt32.ofNat packets.length := by
  obtain ⟨encrypted, made, some', rfl⟩ := exists_encrypted sent
  have long : ¬ encrypted.length = 0 := by simpa using some'
  rw [prepareMessage, post_bind, value_getPairCipher, encryptMessage, made]
  show (Traced.post (if encrypted.length = 0 then _ else _ : Action env _) _).seqNum = _
  rw [if_neg long]
  exact seqNum_fragmentMessage s.fragMgr encrypted .data env.myMac destMac s.seqNum

/-- Nodes with the same base key have the same cipher for each other. -/
theorem cipher_comm {a b : NodeEnv} (shared : a.baseKey = b.baseKey) :
    a.cipher b.myMac = b.cipher a.myMac := by
  rw [NodeEnv.cipher, NodeEnv.cipher, shared, derivePairKey_comm]

namespace Sending

variable {s : Sending}

/-- The one packet of a short message is taken for a fragment iff its fourth byte is above 1. -/
theorem isFragment_single (small : s.data.length ≤ 512) {iv : Block} {rest : List UInt8}
    (front : s.data = iv.toList ++ rest) :
    ((Packet.init s.type s.src s.dst s.seqNum).fill s.data).IsFragment ↔ (1 : UInt8) < iv[3] := by
  obtain ⟨zeros, payload⟩ :=
    Packet.toList_payload_fill (Packet.init s.type s.src s.dst s.seqNum) _ small
  have long : FragHeader.sizeof ≤ s.data.length := by
    rw [front, List.length_append, Vector.length_toList, FragHeader.sizeof]
    omega
  have byte : (FragHeader.ofBytes (s.data ++ zeros)).fragTotal = iv[3] := by
    have here : 3 < iv.toList.length := by rw [Vector.length_toList]; omega
    rw [front, List.append_assoc]
    show ((iv.toList ++ (rest ++ zeros))[3]?).getD 0 = _
    rw [List.getElem?_append_left here, List.getElem?_eq_getElem here, Option.getD_some,
      Vector.getElem_toList]
  rw [Packet.IsFragment, Packet.payloadLen_fill _ _ small, Packet.fragHeader, payload, byte]
  exact and_iff_right long

end Sending

/-! ## All packets -/

/-- The receiver handles packets one after the other. -/
def deliverAll (arrivals : List (Packet × Clock)) : Action env Unit :=
  runAll (arrivals.map fun a => handlePacket a.1 a.2)

/-- The calls of `reassemble_packet` for packets that arrive. -/
def callsOf (arrivals : List (Packet × Clock)) : List FragCall :=
  arrivals.map fun a => reassembleCall a.1 a.2

theorem deliverAll_cons (a : Packet × Clock) (arrivals : List (Packet × Clock)) (t : NodeState env) :
    (deliverAll (a :: arrivals)).trace t =
      (handlePacket a.1 a.2).trace t ++
        (deliverAll arrivals).trace ((handlePacket a.1 a.2).post t) :=
  rfl

theorem deliverAll_concat (arrivals : List (Packet × Clock)) (a : Packet × Clock)
    (t : NodeState env) :
    (deliverAll (arrivals ++ [a])).trace t =
      (deliverAll arrivals).trace t ++
        (handlePacket a.1 a.2).trace ((deliverAll arrivals).post t) := by
  rw [deliverAll, List.map_append, (runAll_append _ _ t).2]
  exact congrArg _ (List.append_nil _)

section Arrivals

variable {s : Sending} {message : List UInt8} (data : s.type = .data) (other : s.src ≠ env.myMac)
  (mine : s.dst = env.myMac) (some' : message ≠ [])

include data other mine some'

omit mine some' in
/-- While a fragment is missing, what was received is stored and nothing delivered. -/
theorem messages_deliverAll_of_missing (h : s.Fragmented) (fits : s.data.length ≤ 2048)
    (pre : List (Packet × Clock)) (log : List FragCall) (rest : List Packet) (t : NodeState env)
    (perm : (log.map FragCall.frag ++ (pre.map Prod.fst ++ rest)).Perm s.packets)
    (missing : rest ≠ []) (entry : t.fragMgr.partials[s.msgId]? = entryOf log) :
    messages ((deliverAll pre).trace t) = [] ∧
      ((deliverAll pre).post t).fragMgr.partials[s.msgId]? = entryOf (log ++ callsOf pre) := by
  induction pre generalizing log t with
  | nil => exact ⟨rfl, by rw [callsOf, List.map_nil, List.append_nil]; exact entry⟩
  | cons a pre ih =>
    set c := reassembleCall a.1 a.2
    have perm' : ((log ++ [c]).map FragCall.frag ++ (pre.map Prod.fst ++ rest)).Perm s.packets := by
      rw [List.map_append, List.append_assoc]
      exact perm
    have own : ∀ c' ∈ log ++ [c], c'.frag ∈ s.packets := fun c' hc' =>
      perm'.subset (List.mem_append_left _ (List.mem_map_of_mem hc'))
    have mem : a.1 ∈ s.packets := own c (by simp)
    obtain ⟨src, -, type⟩ := Sending.header_of_mem mem
    obtain ⟨card, total⟩ := h.card_indices perm'
    have few : ¬ ∀ i < s.total, i ∈ indices (log ++ [c]) := by
      have more := List.length_pos_of_ne_nil missing
      rw [← card_eq_iff_of_lt (h.index_lt own), card, total, List.length_append, List.length_append]
      omega
    have incomplete : ((reassembleCall a.1 a.2).run t.fragMgr).complete = false :=
      Bool.eq_false_iff.2 fun done => few ((h.run_of_own own fits entry).1.1 done)
    obtain ⟨quiet, stored⟩ := messages_handlePacket_of_incomplete (src ▸ other) (type.trans data)
      (h.isFragment_of_mem mem) incomplete
    obtain ⟨silent, kept⟩ := ih (log ++ [c]) ((handlePacket a.1 a.2).post t) perm' (by
      rw [stored]
      exact h.partials_run_of_missing own entry few)
    rw [deliverAll_cons, messages_append, quiet, silent]
    refine ⟨rfl, kept.trans ?_⟩
    rw [List.append_assoc]
    rfl

theorem messages_handlePacket_of_last (h : s.Fragmented) (fits : s.data.length ≤ 2048)
    (dec : decryptPayload s.data 2048 (env.cipher s.src) = .ok message) (log : List FragCall)
    (last : Packet × Clock) (t : NodeState env)
    (perm : (log.map FragCall.frag ++ [last.1]).Perm s.packets)
    (entry : t.fragMgr.partials[s.msgId]? = entryOf log) :
    messages ((handlePacket last.1 last.2).trace t) = [(macToString s.src, message)] := by
  set c := reassembleCall last.1 last.2
  have perm' : ((log ++ [c]).map FragCall.frag ++ []).Perm s.packets := by
    rw [List.map_append, List.append_nil]
    exact perm
  have own : ∀ c' ∈ log ++ [c], c'.frag ∈ s.packets := fun c' hc' =>
    perm'.subset (List.mem_append_left _ (List.mem_map_of_mem hc'))
  have mem : last.1 ∈ s.packets := own c (by simp)
  obtain ⟨src, dst, type⟩ := Sending.header_of_mem mem
  obtain ⟨card, total⟩ := h.card_indices perm'
  obtain ⟨complete, result⟩ := h.run_of_own own fits entry
  have done : (c.run t.fragMgr).complete = true := by
    rw [complete, ← card_eq_iff_of_lt (h.index_lt own), card, total]
    rfl
  obtain ⟨outLen, outBuf⟩ := result done
  have whole : decryptPayload ((c.run t.fragMgr).outBuf.take (c.run t.fragMgr).outLen) 2048
      (env.cipher last.1.header.source) = .ok message := by
    rw [outLen, outBuf, src, dec]
  rw [messages_handlePacket_of_complete (src ▸ other) (type.trans data) (dst.trans mine)
    (h.isFragment_of_mem mem) done whole some', src]

/-- The packets deliver the message, and that with the last of them. -/
def DeliveredByLast (env : NodeEnv) (arrivals : List (Packet × Clock)) (t : NodeState env)
    (srcMac : Str) (message : List UInt8) : Prop :=
  ∃ pre last, arrivals = pre ++ [last] ∧ messages ((deliverAll pre).trace t) = [] ∧
    messages ((handlePacket last.1 last.2).trace ((deliverAll pre).post t)) = [(srcMac, message)]

/-- The packets of a message of several, in any order, deliver it. -/
theorem deliveredByLast (h : s.Fragmented) (fits : s.data.length ≤ 2048)
    (dec : decryptPayload s.data 2048 (env.cipher s.src) = .ok message)
    (arrivals : List (Packet × Clock)) (t : NodeState env)
    (perm : (arrivals.map Prod.fst).Perm s.packets)
    (unknown : t.fragMgr.partials[s.msgId]? = none) :
    DeliveredByLast env arrivals t (macToString s.src) message := by
  rcases List.eq_nil_or_concat' arrivals with rfl | ⟨pre, last, rfl⟩
  · have count := perm.length_eq
    have total := h.lt_total
    simp only [h.packets_eq, List.length_map, List.length_range, List.length_nil] at count
    omega
  · rw [List.map_append] at perm
    obtain ⟨silent, kept⟩ := messages_deliverAll_of_missing data other h fits pre []
      [last.1] t perm (List.cons_ne_nil _ _) unknown
    have calls : (callsOf pre).map FragCall.frag = pre.map Prod.fst := by
      rw [callsOf, List.map_map]
      rfl
    refine ⟨pre, last, rfl, silent, messages_handlePacket_of_last data other mine some' h fits dec
      (callsOf pre) last _ ?_ kept⟩
    rw [calls]
    exact perm

/-- The one packet of a short message delivers it when it is not taken for a fragment, and delivers
nothing when it is. -/
theorem deliveredByLast_single (single : s.data.length ≤ maxFragPayload)
    (dec : decryptPayload s.data 1024 (env.cipher s.src) = .ok message)
    (arrivals : List (Packet × Clock)) (t : NodeState env)
    (perm : (arrivals.map Prod.fst).Perm s.packets)
    (unknown : ∀ p ∈ s.packets, p.IsFragment → t.fragMgr.partials[p.fragHeader.msgId]? = none) :
    if ((Packet.init s.type s.src s.dst s.seqNum).fill s.data).IsFragment then
      messages ((deliverAll arrivals).trace t) = []
    else DeliveredByLast env arrivals t (macToString s.src) message := by
  have small : s.data.length ≤ 512 := single.trans (by decide)
  set p := (Packet.init s.type s.src s.dst s.seqNum).fill s.data
  have only : s.packets = [p] := by rw [Sending.packets, FragmentManager.fragmentMessage, if_pos single]
  obtain ⟨clock, rfl⟩ : ∃ clock, arrivals = [(p, clock)] := by
    rw [only, List.perm_singleton] at perm
    obtain ⟨a, rfl, e⟩ := List.map_eq_singleton_iff.1 perm
    exact ⟨a.2, by rw [← e]⟩
  have fromOther : p.header.source ≠ env.myMac := other
  have isData : p.header.type = .data := data
  have body : p.body = s.data := Packet.body_fill _ _ small
  split_ifs with frag
  · have none' : t.fragMgr.partials[p.fragHeader.msgId]? = none := unknown p (by simp [only]) frag
    have missing : ((reassembleCall p clock).run t.fragMgr).complete = false := by
      have entry : t.fragMgr.partials[(reassembleCall p clock).msgId]? = entryOf [] := none'
      have several : 1 < (reassembleCall p clock).fragTotal := UInt8.lt_iff_toNat_lt.1 frag.2
      have one : (indices ([] ++ [reassembleCall p clock])).card = 1 := by
        rw [List.nil_append, indices, List.map_singleton]
        exact Finset.card_singleton _
      rw [FragCall.run_of_isFragment (c := reassembleCall p clock) frag entry, one,
        if_pos several.ne]
    rw [deliverAll_cons, messages_append,
      (messages_handlePacket_of_incomplete fromOther isData frag missing).1]
    rfl
  · exact ⟨[], (p, clock), rfl, rfl, messages_handlePacket_of_single fromOther isData mine frag
      (by rw [body]; exact dec) some'⟩

end Arrivals

theorem DeliveredByLast.messages_eq {arrivals : List (Packet × Clock)} {t : NodeState env}
    {srcMac message : Str} (h : DeliveredByLast env arrivals t srcMac message) :
    messages ((deliverAll arrivals).trace t) = [(srcMac, message)] := by
  obtain ⟨pre, last, rfl, silent, delivered⟩ := h
  rw [deliverAll_concat, messages_append, silent, delivered]
  rfl

/-! ## From one node to the other -/

/-- The message takes several packets, or its one packet is not taken for a fragment. -/
def Recognized (message : List UInt8) (clock : Clock) : Prop :=
  464 ≤ message.length ∨ (generateIv clock.steady).get 3 ≤ 1

instance (message : List UInt8) (clock : Clock) : Decidable (Recognized message clock) := by
  unfold Recognized
  infer_instance

section BetweenNodes

variable {a b : NodeEnv} (distinct : a.myMac ≠ b.myMac) (shared : a.baseKey = b.baseKey)
  {message : List UInt8} (pos : 1 ≤ message.length) (short : message.length ≤ 1007) (clock : Clock)
  (s : NodeState a)

include distinct shared pos short in
/-- What the addressee makes of the packets of a message. -/
theorem exists_sent :
    ∃ packets, (prepareMessage b.myMac message clock).value s = some packets ∧
      (∃ encrypted, packets = (sendingOf s b.myMac encrypted).packets ∧
        encrypted.length = 16 + paddedLength message.length) ∧
      ∀ (t : NodeState b) (arrivals : List (Packet × Clock)),
        (arrivals.map Prod.fst).Perm packets →
        (∀ p ∈ packets, p.IsFragment → t.fragMgr.partials[p.fragHeader.msgId]? = none) →
        if Recognized message clock then
          DeliveredByLast b arrivals t (macToString a.myMac) message
        else messages ((deliverAll arrivals).trace t) = [] := by
  obtain ⟨encrypted, ok, len, ⟨rest, front⟩, dec⟩ :=
    decryptPayload_encryptPayload short (a.cipher b.myMac) clock.steady
  rw [cipher_comm shared] at dec
  have some' : message ≠ [] := List.ne_nil_of_length_pos pos
  have some'' : encrypted ≠ [] := by
    apply List.ne_nil_of_length_pos
    omega
  refine ⟨_, value_prepareMessage ok some'' s, ⟨encrypted, rfl, len⟩,
    fun t arrivals perm unknown => ?_⟩
  rw [paddedLength] at len
  set sent := sendingOf s b.myMac encrypted
  have data : sent.data = encrypted := rfl
  by_cases big : 464 ≤ message.length
  · have h : sent.Fragmented := by
      rw [Sending.Fragmented, data, maxFragPayload]
      omega
    have unseen : t.fragMgr.partials[sent.msgId]? = none := by
      have first : sent.nth 0 ∈ sent.packets :=
        (h.mem_packets_iff _).2 ⟨0, by have := h.lt_total; omega, rfl⟩
      have := unknown _ first (h.isFragment_of_mem first)
      rwa [Sending.fragHeader_nth] at this
    rw [if_pos (.inl big)]
    exact deliveredByLast rfl distinct rfl some' h (by rw [data]; omega) (dec 2048 (by omega))
      arrivals t perm unseen
  · have single : sent.data.length ≤ maxFragPayload := by
      rw [data, maxFragPayload]
      omega
    have arrive := deliveredByLast_single rfl distinct rfl some' single (dec 1024 (by omega))
      arrivals t perm unknown
    have guess := Sending.isFragment_single (single.trans (by decide)) front
    by_cases fourth : (1 : UInt8) < (generateIv clock.steady)[3]
    · have lost : ¬ Recognized message clock := fun h => h.elim big (UInt8.not_le.2 fourth)
      rw [if_pos (guess.2 fourth)] at arrive
      rwa [if_neg lost]
    · rw [if_neg fun frag => fourth (guess.1 frag)] at arrive
      rwa [if_pos (.inr (UInt8.not_lt.1 fourth))]

include distinct shared pos short in
/-- A message arrives, in whatever order its packets are handled, exactly when it takes several of
them or the fourth byte of its initialization vector is 0 or 1. -/
theorem delivered_iff :
    ∃ packets, (prepareMessage b.myMac message clock).value s = some packets ∧
      ∀ (t : NodeState b) (arrivals : List (Packet × Clock)),
        (arrivals.map Prod.fst).Perm packets →
        (∀ p ∈ packets, p.IsFragment → t.fragMgr.partials[p.fragHeader.msgId]? = none) →
        (messages ((deliverAll arrivals).trace t) = [(macToString a.myMac, message)] ↔
          464 ≤ message.length ∨ (generateIv clock.steady)[3] ≤ 1) := by
  obtain ⟨packets, sent, -, arrive⟩ := exists_sent distinct shared pos short clock s
  refine ⟨packets, sent, fun t arrivals perm unknown => ?_⟩
  have outcome := arrive t arrivals perm unknown
  split_ifs at outcome with recognized
  · exact iff_of_true outcome.messages_eq recognized
  · refine iff_of_false (fun h => ?_) recognized
    rw [outcome] at h
    exact List.cons_ne_nil _ _ h.symm

end BetweenNodes

/-- Sent with a vector of zeros and handled by a fresh node, a message of two bytes arrives. -/
theorem delivered_iff_hi :
    ∃ packets, (prepareMessage receiverEnv.myMac (text "hi") ⟨0, 0⟩).value
        (NodeState.start senderEnv none) = some packets ∧
      messages ((deliverAll (packets.map fun p => (p, ⟨0, 0⟩))).trace
        (NodeState.start receiverEnv none)) = [(macToString senderEnv.myMac, text "hi")] := by
  have distinct : senderEnv.myMac ≠ receiverEnv.myMac := by decide
  have pos : 1 ≤ (text "hi").length := by decide
  obtain ⟨packets, sent, arrive⟩ :=
    delivered_iff distinct rfl pos (by decide) ⟨0, 0⟩ (NodeState.start senderEnv none)
  have order : ((packets.map fun p => (p, (⟨0, 0⟩ : Clock))).map Prod.fst).Perm packets := by
    simp [List.map_map, Function.comp_def]
  have unknown : ∀ p ∈ packets, p.IsFragment →
      (NodeState.start receiverEnv none).fragMgr.partials[p.fragHeader.msgId]? = none :=
    fun p _ _ => Std.ExtTreeMap.getElem?_empty
  exact ⟨packets, sent, (arrive _ _ order unknown).2 (.inr (by decide))⟩

/-- Sent when the fourth byte of the vector is 2, the same message is taken for the first of two
fragments and does not arrive. -/
theorem hi_not_delivered :
    ∃ packets, (prepareMessage receiverEnv.myMac (text "hi") ⟨0, 0x2000⟩).value
        (NodeState.start senderEnv none) = some packets ∧
      messages ((deliverAll (packets.map fun p => (p, ⟨0, 0x2000⟩))).trace
        (NodeState.start receiverEnv none)) ≠ [(macToString senderEnv.myMac, text "hi")] := by
  have distinct : senderEnv.myMac ≠ receiverEnv.myMac := by decide
  have pos : 1 ≤ (text "hi").length := by decide
  obtain ⟨packets, sent, -, arrive⟩ :=
    exists_sent distinct rfl pos (by decide) ⟨0, 0x2000⟩ (NodeState.start senderEnv none)
  have order : ((packets.map fun p => (p, (⟨0, 0x2000⟩ : Clock))).map Prod.fst).Perm packets := by
    simp [List.map_map, Function.comp_def]
  have outcome := arrive (NodeState.start receiverEnv none) _ order
    fun p _ _ => Std.ExtTreeMap.getElem?_empty
  have lost : ¬ Recognized (text "hi") ⟨0, 0x2000⟩ := by decide
  rw [if_neg lost] at outcome
  refine ⟨packets, sent, fun h => ?_⟩
  rw [outcome] at h
  exact List.cons_ne_nil _ _ h.symm

end Araba
