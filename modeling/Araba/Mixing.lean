import Araba.Interleaving

/-!
# Messages of several senders

Any number of nodes fragment messages, each counting its own message ids from 1, and their packets
reach one receiver in any order, with losses and repetitions. The receiver keys its entries on the
message id alone, so what it hands out is one node's message as long as no entry gets fragments of
two messages.
-/

namespace Araba

open Bytes Collect

/-- The senders by their MACs, the receiver, and what has happened: the messages that were
fragmented, the calls at the receiver, and the results of those that returned true, each with the
source of the completing packet. -/
structure Net where
  senders : Mac → FragmentManager := fun _ => {}
  receiver : FragmentManager := {}
  sent : List Sending := []
  ops : List FragOp := []
  delivered : List (Mac × List UInt8) := []

namespace Net

/-- A sender makes a message into packets. -/
def send (n : Net) (src dst : Mac) (data : List UInt8) (type : PacketType) (seqNum : UInt32) : Net :=
  { n with
    senders := Function.update n.senders src
      ((n.senders src).fragmentMessage data type src dst seqNum).2.1
    sent := n.sent ++ [⟨n.senders src, data, type, src, dst, seqNum⟩] }

/-- The node starts again with a new manager. -/
def restart (n : Net) (src : Mac) : Net := { n with senders := Function.update n.senders src {} }

/-- The receiver is called for a packet, and hands over what is complete. -/
def arrive (n : Net) (c : FragCall) : Net :=
  let r := c.run n.receiver
  { n with
    receiver := r.mgr
    ops := n.ops ++ [.reassemble c]
    delivered := if r.complete then n.delivered ++ [(c.frag.header.source, r.outBuf.take r.outLen)]
      else n.delivered }

/-- The receiver drops what is stale. -/
def cleanup (n : Net) (maxAge : UInt32) (now : ℕ) : Net :=
  { n with
    receiver := n.receiver.cleanupStale maxAge now
    ops := n.ops ++ [.cleanup maxAge now] }

/-- The states that runs reach in which every arrival meets `ok`. Only packets that were sent
arrive. -/
inductive Run (ok : Net → FragCall → Prop) : Net → Prop
  | start : Run ok {}
  | send {n} (h : Run ok n) (src dst data type seqNum) : Run ok (n.send src dst data type seqNum)
  | restart {n} (h : Run ok n) (src) : Run ok (n.restart src)
  | arrive {n} (h : Run ok n) (c) (sent : ∃ s ∈ n.sent, c.frag ∈ s.packets) (meets : ok n c) :
      Run ok (n.arrive c)
  | cleanup {n} (h : Run ok n) (maxAge now) : Run ok (n.cleanup maxAge now)

/-- Everything handed out is the data of one message of the node whose MAC the completing packet
bears. -/
def Intact (n : Net) : Prop := ∀ d ∈ n.delivered, ∃ s ∈ n.sent, s.src = d.1 ∧ s.data = d.2

/-- The packet comes from a message whose length fits into `total_len`, and whatever has reached the
entry of its message id since this was created comes from the same message. -/
def OneMessage (n : Net) (c : FragCall) : Prop :=
  ∃ s ∈ n.sent, s.data.length ≤ 65535 ∧ ∀ c' ∈ counted n.ops c, c'.frag ∈ s.packets

theorem receiver_eq_after {ok : Net → FragCall → Prop} {n : Net} (h : Run ok n) :
    n.receiver = after n.ops := by
  induction h with
  | start => rfl
  | send _ _ _ _ _ _ ih => exact ih
  | restart _ _ ih => exact ih
  | arrive _ c _ _ ih => rw [arrive, after_concat, ← ih, FragOp.apply]
  | cleanup _ maxAge now ih => rw [cleanup, after_concat, ← ih, FragOp.apply]

end Net

namespace Sending

variable {s : Sending}

theorem card_indices_le_one (single : s.data.length ≤ maxFragPayload) {log : List FragCall}
    (own : ∀ c ∈ log, c.frag ∈ s.packets) : (indices log).card ≤ 1 := by
  rw [Finset.card_le_one]
  intro i hi j hj
  obtain ⟨c, hc, rfl⟩ := (mem_indices _ _).1 hi
  obtain ⟨d, hd, rfl⟩ := (mem_indices _ _).1 hj
  have only (p : Packet) (hp : p ∈ s.packets) :
      p = (Packet.init s.type s.src s.dst s.seqNum).fill s.data := by
    rw [packets, FragmentManager.fragmentMessage, if_pos single] at hp
    exact List.mem_singleton.1 hp
  rw [only _ (own c hc), only _ (own d hd)]

/-- A call that completes an entry with packets of one message hands out its data. -/
theorem outBuf_of_complete {ops : List FragOp} {c : FragCall} (short : s.data.length ≤ 65535)
    (own : ∀ c' ∈ counted ops c, c'.frag ∈ s.packets)
    (complete : (c.run (after ops)).complete = true) :
    (c.run (after ops)).outBuf.take (c.run (after ops)).outLen = s.data := by
  have mem : c.frag ∈ s.packets := own c (by simp [counted])
  have frag := FragCall.isFragment_of_complete complete
  have count := card_of_complete frag complete
  by_cases single : s.data.length ≤ maxFragPayload
  · have one := card_indices_le_one single own
    have several : 1 < c.fragTotal := UInt8.lt_iff_toNat_lt.1 frag.2
    omega
  · have h : s.Fragmented := ⟨not_le.1 single, short⟩
    rw [h.fragTotal_of_mem mem] at count
    have all := (card_eq_iff_of_lt (h.index_lt own)).1 count
    rw [(take_outLen_of_complete frag complete).1, h.fragTotal_of_mem mem, h.totalLen_of_mem mem,
      h.concatenation_eq own all, List.take_length]

end Sending

namespace Net

/-- In every run in which each arriving packet finds only packets of its own message in its entry,
every message handed out is intact. -/
theorem intact_of_oneMessage {n : Net} (h : Run OneMessage n) : n.Intact := by
  induction h with
  | start => simp [Intact]
  | send _ src dst data type seqNum ih =>
    intro d hd
    obtain ⟨s, hs, e⟩ := ih d hd
    exact ⟨s, List.mem_append_left _ hs, e⟩
  | restart _ _ ih => exact ih
  | @arrive n run c _ one ih =>
    intro d hd
    simp only [arrive] at hd
    split_ifs at hd with complete
    · rcases List.mem_append.1 hd with old | new
      · exact ih d old
      · obtain ⟨s, hs, short, own⟩ := one
        have mem : c.frag ∈ s.packets := own c (by simp [counted])
        rw [receiver_eq_after run] at complete new
        rw [List.mem_singleton] at new
        refine ⟨s, hs, ?_, ?_⟩
        · rw [new, (Sending.header_of_mem mem).1]
        · rw [new, Sending.outBuf_of_complete short own complete]
    · exact ih d hd
  | cleanup _ _ _ ih => exact ih

/-- Two nodes have sent a message of two packets each; both messages have the id 1. -/
def twoSenders : Net :=
  let a := twoPackets 1 0x61
  let b := twoPackets 1 0x62
  (({} : Net).send a.src a.dst a.data a.type a.seqNum).send b.src b.dst b.data b.type b.seqNum

theorem sent_twoSenders : twoSenders.sent = [twoPackets 1 0x61, twoPackets 1 0x62] := by
  have other : (twoPackets 1 0x62).src ≠ (twoPackets 1 0x61).src := by decide
  simp only [twoSenders, send, Function.update_of_ne other]
  rfl

theorem run_twoSenders (ok : Net → FragCall → Prop) : Run ok twoSenders := .send (.send .start ..) ..

theorem intact_of_oneMessage_twoSenders :
    ((twoSenders.arrive (callWith (twoPackets 1 0x61) 1)).arrive
      (callWith (twoPackets 1 0x61) 0)).Intact := by
  have mem : twoPackets 1 0x61 ∈ twoSenders.sent := by
    rw [sent_twoSenders]
    exact List.mem_cons_self
  have short : (twoPackets 1 0x61).data.length ≤ 65535 := by
    rw [length_twoPackets]
    omega
  have own₀ : (callWith (twoPackets 1 0x61) 0).frag ∈ (twoPackets 1 0x61).packets :=
    (mem_packets_twoPackets ..).2 (.inl rfl)
  have own₁ : (callWith (twoPackets 1 0x61) 1).frag ∈ (twoPackets 1 0x61).packets :=
    (mem_packets_twoPackets ..).2 (.inr rfl)
  refine intact_of_oneMessage (.arrive (.arrive (run_twoSenders _) _ ⟨_, mem, own₁⟩ ?_) _
    ⟨_, mem, own₀⟩ ?_)
  · refine ⟨_, mem, short, fun c' hc' => ?_⟩
    obtain rfl : c' = callWith (twoPackets 1 0x61) 1 := by
      simpa [counted, sinceCreated, twoSenders, send] using hc'
    exact own₁
  · refine ⟨_, mem, short, fun c' hc' => ?_⟩
    rcases List.mem_append.1 hc' with old | new
    · have received := (mem_callsFor.1 (mem_callsFor_of_mem_sinceCreated old)).1
      obtain rfl : c' = callWith (twoPackets 1 0x61) 1 := by
        simpa [arrive, twoSenders, send] using received
      exact own₁
    · rw [List.mem_singleton.1 new]
      exact own₀

/-- The first packet of one node's message and the second of the other's pass for a message of the
latter. -/
theorem mixed_message_delivered : ∃ n, Run (fun _ _ => True) n ∧ ¬ n.Intact := by
  refine ⟨(twoSenders.arrive (callWith (twoPackets 1 0x61) 0)).arrive
    (callWith (twoPackets 1 0x62) 1), .arrive (.arrive (run_twoSenders _) _ ?_ trivial) _ ?_ trivial, ?_⟩
  · rw [sent_twoSenders]
    exact ⟨_, List.mem_cons_self, (mem_packets_twoPackets ..).2 (.inl rfl)⟩
  · refine ⟨twoPackets 1 0x62, ?_, (mem_packets_twoPackets ..).2 (.inr rfl)⟩
    show _ ∈ twoSenders.sent
    simp [sent_twoSenders]
  · unfold Intact
    decide +kernel

end Net

end Araba
