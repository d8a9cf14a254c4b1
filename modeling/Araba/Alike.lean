import Araba.Integrity
import Araba.Lib.Matching

/-!
# Packets that are alike

A packet that was received has in its payload what was sent as far as `payload_len` says, and behind it
what was there before. What `network_loop` does with the packet does not depend on that.
-/

namespace Araba

open Bytes Traced

/-- The packets differ at most in what does not count. -/
def Packet.Alike (p q : Packet) : Prop := p.header = q.header ∧ p.body = q.body

theorem Packet.Alike.refl (p : Packet) : p.Alike p := ⟨rfl, rfl⟩

theorem Packet.Alike.symm {p q : Packet} (h : p.Alike q) : q.Alike p := ⟨h.1.symm, h.2.symm⟩

theorem Packet.Alike.trans {p q r : Packet} (h : p.Alike q) (h' : q.Alike r) : p.Alike r :=
  ⟨h.1.trans h'.1, h.2.trans h'.2⟩

/-- The events differ at most in that. -/
def Effect.Alike : Effect → Effect → Prop
  | send p link, send q link' => p.Alike q ∧ link = link'
  | e, e' => e = e'

theorem Effect.Alike.refl (e : Effect) : e.Alike e := by
  cases e with
  | send p link => exact ⟨.refl p, rfl⟩
  | _ => rfl

theorem FragHeader.ofBytes_take_of_le (b : List UInt8) {k : ℕ} (long : FragHeader.sizeof ≤ k) :
    FragHeader.ofBytes (b.take k) = FragHeader.ofBytes b := by
  rw [FragHeader.sizeof] at long
  have front : (b.take k).take 2 = b.take 2 := by rw [List.take_take, min_eq_left (by omega)]
  have last : ((b.take k).drop 4).take 2 = (b.drop 4).take 2 := by
    rw [List.drop_take, List.take_take, min_eq_left (by omega)]
  rw [FragHeader.ofBytes, FragHeader.ofBytes, front, last, List.getElem?_take_of_lt (by omega),
    List.getElem?_take_of_lt (by omega)]

/-- The header of a fragment stands within the bytes that count. -/
theorem Packet.fragHeader_eq_body (p : Packet) (long : FragHeader.sizeof ≤ p.header.payloadLen.toNat) :
    p.fragHeader = FragHeader.ofBytes p.body := by
  rw [Packet.fragHeader, Packet.body, slice, List.drop_zero, FragHeader.ofBytes_take_of_le _ long]

section Handler

variable {env : NodeEnv} {p q : Packet} {clock : Clock}

theorem reassemblePacket_congr (same : p.Alike q) (mgr : FragmentManager) (outBuf : List UInt8)
    (maxOut outLen now : ℕ) :
    mgr.reassemblePacket p outBuf maxOut outLen now =
      mgr.reassemblePacket q outBuf maxOut outLen now := by
  obtain ⟨header, body⟩ := same
  have len : p.header.payloadLen = q.header.payloadLen := congrArg PacketHeader.payloadLen header
  unfold FragmentManager.reassemblePacket
  rw [len]
  by_cases short : q.header.payloadLen.toNat < FragHeader.sizeof
  · rw [if_pos short, if_pos short]
  · have long : FragHeader.sizeof ≤ q.header.payloadLen.toNat := not_lt.1 short
    have frag : FragHeader.ofBytes p.payload.toList = FragHeader.ofBytes q.payload.toList := by
      have first := p.fragHeader_eq_body (len ▸ long)
      rw [body, ← q.fragHeader_eq_body long] at first
      exact first
    have data : slice p.payload FragHeader.sizeof (q.header.payloadLen.toNat - FragHeader.sizeof) =
        slice q.payload FragHeader.sizeof (q.header.payloadLen.toNat - FragHeader.sizeof) := by
      have whole : slice p.payload 0 q.header.payloadLen.toNat =
          slice q.payload 0 q.header.payloadLen.toNat := by
        rw [← len]
        exact body.trans (by rw [Packet.body, len])
      rw [slice_eq_drop, slice_eq_drop q.payload, Nat.add_sub_cancel' long, whole]
    rw [if_neg short, if_neg short, frag, data]

theorem isFragment_congr (same : p.Alike q) : p.IsFragment ↔ q.IsFragment := by
  rw [p.isFragment_iff_body, q.isFragment_iff_body, same.2]

theorem handleAck_congr (same : p.Alike q) : (handleAck p : Action env Unit) = handleAck q := by
  obtain ⟨header, body⟩ := same
  unfold handleAck
  rw [header]
  by_cases ack : q.header.type = .ack ∧ 4 ≤ q.header.payloadLen.toNat
  · have front : slice p.payload 0 4 = slice q.payload 0 4 := by
      have shorter (r : Packet) (long : 4 ≤ r.header.payloadLen.toNat) :
          slice r.payload 0 4 = r.body.take 4 := by
        rw [Packet.body, slice, slice, List.take_take, min_eq_left long]
      rw [shorter p (header ▸ ack.2), shorter q ack.2, body]
    rw [front]
  · rw [if_neg ack, if_neg ack]

theorem handleControl_congr (same : p.Alike q) :
    (handleControl p clock : Action env Unit) = handleControl q clock := by
  have learn : (learnNeighbor p clock : Action env Unit) = learnNeighbor q clock := by
    unfold learnNeighbor
    rw [same.1]
  have auto : (autoDeliver p : Action env Unit) = autoDeliver q := by
    unfold autoDeliver
    rw [same.1]
  have discovery : (handleDiscovery p : Action env Unit) = handleDiscovery q := by
    unfold handleDiscovery
    rw [same.1]
  have adv : (handleRouteAdv p clock : Action env Unit) = handleRouteAdv q clock := by
    unfold handleRouteAdv
    rw [same.1, same.2]
  unfold handleControl
  rw [learn, auto, discovery, adv, handleAck_congr same]

theorem handleFragment_congr (same : p.Alike q) :
    (handleFragment p clock : Action env Unit) = handleFragment q clock := by
  have call (mgr : FragmentManager) : (reassembleCall p clock).run mgr =
      (reassembleCall q clock).run mgr := reassemblePacket_congr same mgr _ _ _ _
  have deliver (d : List UInt8) :
      (deliverReassembled p d : Action env Unit) = deliverReassembled q d := by
    unfold deliverReassembled
    rw [same.1]
  have decrypt (encrypted : List UInt8) (maxOut : ℕ) :
      (decryptThen p encrypted maxOut (deliverReassembled p) : Action env Unit) =
        decryptThen q encrypted maxOut (deliverReassembled q) := by
    unfold decryptThen
    rw [same.1, funext deliver]
  unfold handleFragment
  simp only [call, decrypt]

theorem matches_forward (same : p.Alike q) :
    Matches Effect.Alike (forward p clock : Action env Unit) (forward q clock) := by
  obtain ⟨header, payload⟩ := q
  obtain ⟨rfl, body⟩ := same
  refine .bind (.refl .refl _) fun s => ?_
  cases s.table.findNextHop p.header.dest clock.time with
  | none => exact .refl .refl _
  | some route =>
    exact .ite (.bind (.emit ⟨⟨rfl, body⟩, rfl⟩) fun _ => .refl .refl _) (.refl .refl _)

theorem matches_handleSingle (same : p.Alike q) :
    Matches Effect.Alike (handleSingle p clock : Action env Unit) (handleSingle q clock) := by
  unfold handleSingle decryptThen
  rw [← same.1, ← same.2]
  refine .bind (.refl .refl _) fun aes => ?_
  cases decryptPayload p.body 1024 aes with
  | error e => exact .refl .refl _
  | ok d =>
    show Matches Effect.Alike (deliverSingle p clock d) (deliverSingle q clock d)
    unfold deliverSingle
    rw [← same.1]
    exact .ite (.refl .refl _) (.ite (matches_forward same) (.refl .refl _))

/-- A node does the same with packets that are alike, except that what it sends on differs as they
do. -/
theorem matches_handlePacket (same : p.Alike q) (clock : Clock) :
    Matches Effect.Alike (handlePacket p clock : Action env Unit) (handlePacket q clock) := by
  have data : Matches Effect.Alike (handleData p clock : Action env Unit) (handleData q clock) := by
    unfold handleData
    rw [← same.1]
    split_ifs with isData fragP fragQ fragQ
    · exact .of_eq .refl (handleFragment_congr same)
    · exact absurd ((isFragment_congr same).1 fragP) fragQ
    · exact absurd ((isFragment_congr same).2 fragQ) fragP
    · exact matches_handleSingle same
    · exact .refl .refl _
  unfold handlePacket
  rw [← same.1, handleControl_congr same]
  exact .ite (.refl .refl _) (.bind (.refl .refl _) fun _ => .bind (.refl .refl _) fun _ =>
    .bind data fun _ => .refl .refl _)

end Handler

end Araba
