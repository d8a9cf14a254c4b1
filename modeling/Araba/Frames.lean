import Araba.Network

/-!
# What a frame decides

`receive_packet` fills the packet that its caller hands it, and `network_loop` hands it the same one
for every frame. The header always comes off the frame; the payload only if the frame is as long as
its header says, else it stays as an earlier frame has left it.
-/

namespace Araba

open Bytes

namespace NetworkInterface

/-- The frame is taken for a packet, but is shorter than its header says. -/
def Truncated (frame : List UInt8) : Prop :=
  35 ≤ frame.length ∧ (PacketHeader.ofBytes (frame.drop 14)).payloadLen.toNat ≤ 512 ∧
    frame.length < 35 + (PacketHeader.ofBytes (frame.drop 14)).payloadLen.toNat

instance (frame : List UInt8) : Decidable (Truncated frame) := by
  unfold Truncated
  infer_instance

/-- Whatever two packets are handed to it, `receive_packet` returns the same for the frame, and the
packet that it returns is the frame's: 21 bytes of header, and as much payload as these say, all of
it in the frame. -/
def DecidedByFrame (net : NetworkInterface) (frame : List UInt8) : Prop :=
  ∀ prior prior' : Packet,
    (net.receivePacket (some frame) prior).1 = (net.receivePacket (some frame) prior').1 ∧
      ((net.receivePacket (some frame) prior).1 = true →
        let p := (net.receivePacket (some frame) prior).2
        let p' := (net.receivePacket (some frame) prior').2
        p.header.toBytes = (frame.drop 14).take 21 ∧ p.header.payloadLen.toNat ≤ 512 ∧
          35 + p.header.payloadLen.toNat ≤ frame.length ∧
          p.body = (frame.drop 35).take p.header.payloadLen.toNat ∧
          p'.header = p.header ∧ p'.body = p.body)

/-! ## One frame -/

/-- The buffer is longer than any packet that is accepted, so that it makes no difference to a long
frame that only a part of it is read. -/
theorem ofBytes_take_drop (frame : List UInt8) (long : 35 ≤ frame.length) :
    PacketHeader.ofBytes ((frame.take receiveBufferSize).drop 14) =
      PacketHeader.ofBytes (frame.drop 14) := by
  apply PacketHeader.toBytes_injective
  rw [PacketHeader.toBytes_ofBytes, PacketHeader.toBytes_ofBytes, List.drop_take, List.take_take]
  · rfl
  · rw [List.length_drop]
    omega
  · simp only [List.length_drop, List.length_take, receiveBufferSize]
    omega

theorem receivePacket_eq {net : NetworkInterface} (open' : 0 ≤ net.sockFd) (frame : List UInt8)
    (prior : Packet) {h : PacketHeader} (hh : PacketHeader.ofBytes (frame.drop 14) = h) :
    net.receivePacket (some frame) prior =
      if frame.length < 35 then (false, prior)
      else if h.payloadLen.toNat > 512 then
        (false, { prior with header := { h with payloadLen := 0 } })
      else if h.payloadLen.toNat > 0 ∧ frame.length ≥ 35 + h.payloadLen.toNat then
        (true,
          { header := h
            payload := memcpy prior.payload 0 ((frame.drop 35).take h.payloadLen.toNat) })
      else (true, { prior with header := h }) := by
  have size : receiveBufferSize = 2048 := rfl
  have front : ethernetHeaderSize + PacketHeader.sizeof = 35 := rfl
  simp only [receivePacket, if_neg (not_lt.2 open'), front]
  by_cases short : frame.length < 35
  · have few : (frame.take receiveBufferSize).length < 35 := by
      rw [List.length_take]
      omega
    rw [if_pos short, if_pos few]
  · have enough : ¬ (frame.take receiveBufferSize).length < 35 := by
      rw [List.length_take]
      omega
    have header : PacketHeader.ofBytes ((frame.take receiveBufferSize).drop ethernetHeaderSize) = h :=
      (ofBytes_take_drop frame (not_lt.1 short)).trans hh
    rw [if_neg short, if_neg enough]
    simp only [header, maxPayloadSize]
    by_cases large : h.payloadLen.toNat > 512
    · rw [if_pos large, if_pos large]
    · have fits : (frame.take receiveBufferSize).length ≥ 35 + h.payloadLen.toNat ↔
          frame.length ≥ 35 + h.payloadLen.toNat := by
        rw [List.length_take]
        omega
      have copied : ((frame.take receiveBufferSize).drop 35).take h.payloadLen.toNat =
          (frame.drop 35).take h.payloadLen.toNat := by
        rw [List.drop_take, List.take_take, min_eq_left (by omega)]
      simp only [if_neg large, fits, copied]

/-- A frame that is as long as its header says is received as the packet in it. -/
theorem body_receivePacket {net : NetworkInterface} (open' : 0 ≤ net.sockFd) {frame : List UInt8}
    (prior : Packet) {h : PacketHeader} (hh : PacketHeader.ofBytes (frame.drop 14) = h)
    (small : h.payloadLen.toNat ≤ 512) (whole : 35 + h.payloadLen.toNat ≤ frame.length) :
    (net.receivePacket (some frame) prior).1 = true ∧
      (net.receivePacket (some frame) prior).2.header = h ∧
      (net.receivePacket (some frame) prior).2.body = (frame.drop 35).take h.payloadLen.toNat := by
  rw [receivePacket_eq open' frame prior hh, if_neg (by omega), if_neg (by omega)]
  rcases Nat.eq_zero_or_pos h.payloadLen.toNat with zero | pos
  · rw [if_neg (by omega)]
    simp [Packet.body, slice, zero]
  · have size : ((frame.drop 35).take h.payloadLen.toNat).length = h.payloadLen.toNat := by
      rw [List.length_take, List.length_drop]
      omega
    have read := slice_memcpy_self prior.payload 0 ((frame.drop 35).take h.payloadLen.toNat)
      (by omega)
    rw [size] at read
    rw [if_pos ⟨pos, whole⟩]
    exact ⟨rfl, rfl, read⟩

theorem receivePacket_of_truncated {net : NetworkInterface} (open' : 0 ≤ net.sockFd)
    {frame : List UInt8} (short : Truncated frame) (prior : Packet) :
    net.receivePacket (some frame) prior =
      (true, { prior with header := PacketHeader.ofBytes (frame.drop 14) }) := by
  obtain ⟨long, small, less⟩ := short
  rw [receivePacket_eq open' frame prior rfl, if_neg (by omega), if_neg (by omega), if_neg (by omega)]

theorem decidedByFrame_of_closed {net : NetworkInterface} (closed : net.sockFd < 0)
    (frame : List UInt8) : net.DecidedByFrame frame := by
  intro prior prior'
  simp only [receivePacket, if_pos closed]
  exact ⟨trivial, Bool.noConfusion⟩

theorem decidedByFrame_of_not_truncated (net : NetworkInterface) {frame : List UInt8}
    (whole : ¬ Truncated frame) : net.DecidedByFrame frame := by
  by_cases closed : net.sockFd < 0
  · exact decidedByFrame_of_closed closed frame
  · have open' : 0 ≤ net.sockFd := not_lt.1 closed
    generalize hh : PacketHeader.ofBytes (frame.drop 14) = h
    intro prior prior'
    by_cases short : frame.length < 35
    · simp only [receivePacket_eq open' frame _ hh, if_pos short]
      exact ⟨trivial, nofun⟩
    · by_cases large : h.payloadLen.toNat > 512
      · simp only [receivePacket_eq open' frame _ hh, if_neg short, if_pos large]
        exact ⟨trivial, nofun⟩
      · have long : 35 + h.payloadLen.toNat ≤ frame.length := by
          by_contra less
          exact whole ⟨not_lt.1 short, hh ▸ not_lt.1 large, hh ▸ not_le.1 less⟩
        obtain ⟨ok, header, body⟩ := body_receivePacket open' prior hh (not_lt.1 large) long
        obtain ⟨ok', header', body'⟩ := body_receivePacket open' prior' hh (not_lt.1 large) long
        have image : h.toBytes = (frame.drop 14).take 21 := by
          rw [← hh]
          exact PacketHeader.toBytes_ofBytes _ (by rw [List.length_drop]; omega)
        refine ⟨ok.trans ok'.symm, fun _ => ?_⟩
        simp only [header, header', body, body']
        exact ⟨image, not_lt.1 large, long, trivial, trivial, trivial⟩

/-- A received packet is the frame's alone exactly when the frame is not truncated, or the socket is
not open. -/
theorem decidedByFrame_iff (net : NetworkInterface) (frame : List UInt8) :
    net.DecidedByFrame frame ↔ net.sockFd < 0 ∨ ¬ Truncated frame := by
  constructor
  · intro decided
    by_contra h
    obtain ⟨open', truncated⟩ := not_or.1 h
    obtain ⟨-, own⟩ := decided helloPacket helloPacket
    rw [receivePacket_of_truncated (not_lt.1 open') (not_not.1 truncated)] at own
    exact absurd (own rfl).2.2.1 (not_le.2 (not_not.1 truncated).2.2)
  · rintro (closed | whole)
    · exact decidedByFrame_of_closed closed frame
    · exact decidedByFrame_of_not_truncated net whole

/-- A DATA packet of the smallest frame there is, whose header announces a full payload. -/
def truncatedFrame : List UInt8 :=
  List.replicate 14 0 ++
    { (Packet.init .data (sampleMac 2) (sampleMac 1) 7).header with
      payloadLen := 512 }.toBytes ++ List.replicate 25 0

/-- What the packet held before is taken for its payload. -/
theorem truncated_frame_is_received : ¬ openInterface.DecidedByFrame truncatedFrame := by
  intro decided
  have own := (decided helloPacket helloPacket).2 (by decide)
  have inside := own.2.2.1
  revert inside
  decide

end NetworkInterface

end Araba
