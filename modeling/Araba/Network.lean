import Araba.Packet

/-!
# The network interface

`send_packet` and `receive_packet` of `network.cpp`. What the kernel hands over is a parameter:
`sendto` returns the result of the call, and `frame` is what `recvfrom` finds, if anything.
-/

namespace Araba

open Bytes

/-- The parts of `NetworkInterface` that outlive a call. -/
structure NetworkInterface where
  sockFd : ℤ
  ifIndex : ℤ
  localMac : Mac

/-- `struct sockaddr_ll` as `send_packet` fills it, after a `memset` to zero. -/
structure SockaddrLl where
  sllFamily : ℕ
  sllProtocol : ℕ
  sllIfindex : ℤ
  sllHalen : UInt8
  sllAddr : Mac
  deriving DecidableEq

/-- The arguments of one call of `sendto`. -/
structure SendTo where
  buffer : List UInt8
  addr : SockaddrLl
  deriving DecidableEq

/-- `AF_PACKET`. -/
def afPacket : ℕ := 17

/-- `htons(ETH_P_ALL)` on a little-endian machine. -/
def ethPAll : ℕ := 0x0300

/-- The bytes that `receive_packet` skips. -/
def ethernetHeaderSize : ℕ := 14

/-- The size of the buffer of `receive_packet`. -/
def receiveBufferSize : ℕ := 2048

namespace NetworkInterface

/-- Whether the packet was sent, and the call of `sendto` that was made. -/
def sendPacket (net : NetworkInterface) (packet : Packet) (destMac : Mac) (sendto : SendTo → ℤ) :
    Bool × Option SendTo :=
  if net.sockFd < 0 ∨ net.ifIndex = 0 then (false, none)
  else
    let call : SendTo :=
      { buffer := packet.toBytes
        addr :=
          { sllFamily := afPacket
            sllProtocol := ethPAll
            sllIfindex := net.ifIndex
            sllHalen := 6
            sllAddr := destMac } }
    if sendto call < 0 then (false, some call) else (true, some call)

/-- Whether a packet was received, and what the call leaves in its argument `packet`. -/
def receivePacket (net : NetworkInterface) (frame : Option (List UInt8)) (packet : Packet) :
    Bool × Packet :=
  if net.sockFd < 0 then (false, packet)
  else
    match frame with
    | none => (false, packet)
    | some frame =>
      let buffer := frame.take receiveBufferSize
      if buffer.length < ethernetHeaderSize + PacketHeader.sizeof then (false, packet)
      else
        let packetOffset := ethernetHeaderSize
        let header := PacketHeader.ofBytes (buffer.drop packetOffset)
        if header.payloadLen.toNat > maxPayloadSize then
          (false, { packet with header := { header with payloadLen := 0 } })
        else
          let totalNeeded := packetOffset + PacketHeader.sizeof + header.payloadLen.toNat
          if header.payloadLen.toNat > 0 ∧ buffer.length ≥ totalNeeded then
            let payload := (buffer.drop (packetOffset + PacketHeader.sizeof)).take
              header.payloadLen.toNat
            (true, { header := header, payload := memcpy packet.payload 0 payload })
          else
            (true, { packet with header := header })

/-! ## What `sendto` was given, received -/

theorem buffer_of_sendPacket {net : NetworkInterface} {packet : Packet} {destMac : Mac}
    {sendto : SendTo → ℤ} {call : SendTo}
    (h : (net.sendPacket packet destMac sendto).2 = some call) : call.buffer = packet.toBytes := by
  simp only [sendPacket] at h
  split_ifs at h <;> cases h <;> rfl

/-- What `receive_packet` makes of a frame that is a packet's image, given the header `h` it finds
behind the first 14 bytes. -/
theorem receivePacket_toBytes {net : NetworkInterface} (open' : 0 ≤ net.sockFd) (p prior : Packet)
    {h : PacketHeader} (hh : PacketHeader.ofBytes (p.toBytes.drop 14) = h) :
    net.receivePacket (some p.toBytes) prior =
      if h.payloadLen.toNat > 512 then
        (false, { prior with header := { h with payloadLen := 0 } })
      else if h.payloadLen.toNat > 0 ∧ h.payloadLen.toNat ≤ 498 then
        (true,
          { header := h
            payload := memcpy prior.payload 0 ((p.toBytes.drop 35).take h.payloadLen.toNat) })
      else (true, { prior with header := h }) := by
  have whole : p.toBytes.take receiveBufferSize = p.toBytes :=
    List.take_of_length_le (by simp [receiveBufferSize])
  have long : ¬ (533 < ethernetHeaderSize + PacketHeader.sizeof) := by decide
  have fits : 533 ≥ ethernetHeaderSize + PacketHeader.sizeof + h.payloadLen.toNat ↔
      h.payloadLen.toNat ≤ 498 := by
    simp only [ethernetHeaderSize, PacketHeader.sizeof]
    omega
  simp only [receivePacket, whole, Packet.length_toBytes, if_neg (not_lt.2 open'), if_neg long]
  simp only [ethernetHeaderSize, PacketHeader.sizeof, maxPayloadSize] at fits ⊢
  simp only [hh, fits]

end NetworkInterface

namespace Packet

theorem take_toBytes (p : Packet) : p.toBytes.take 21 = p.header.toBytes := by
  simp [toBytes]

theorem body_eq_take_drop_toBytes (p : Packet) :
    p.body = (p.toBytes.drop 21).take p.header.payloadLen.toNat := by
  simp [body, slice, toBytes]

/-- The image of the packet repeats with period 14 as far as the receiver copies it, and the rest of
the payload stands already where the receiver copies to. -/
def SelfFramed (p prior : Packet) : Prop :=
  (∀ i < 21, p.toBytes[i + 14]? = p.toBytes[i]?) ∧
    if p.header.payloadLen.toNat ≤ 498 then
      ∀ i < p.header.payloadLen.toNat, p.toBytes[i + 35]? = p.toBytes[i + 21]?
    else slice prior.payload 0 p.header.payloadLen.toNat = p.body

/-- The header found behind 14 bytes is the packet's own iff the image repeats. -/
theorem ofBytes_drop_eq_header_iff (p : Packet) :
    PacketHeader.ofBytes (p.toBytes.drop 14) = p.header ↔
      ∀ i < 21, p.toBytes[i + 14]? = p.toBytes[i]? := by
  have image : (PacketHeader.ofBytes (p.toBytes.drop 14)).toBytes = (p.toBytes.drop 14).take 21 :=
    PacketHeader.toBytes_ofBytes _ (by simp)
  have period := take_drop_eq_iff p.toBytes 14 0 21
  rw [List.drop_zero, take_toBytes, ← image, PacketHeader.toBytes_injective.eq_iff] at period
  simpa only [zero_add, add_comm 14] using period

end Packet

namespace NetworkInterface

/-- The frame that was handed to `sendto` is received as the packet that was sent exactly when the
packet's image makes up for the 14 bytes of Ethernet header that only the receiver counts. -/
theorem receivePacket_sendPacket_iff (a b : NetworkInterface) (sendto : SendTo → ℤ)
    (p prior : Packet) (destMac : Mac) (call : SendTo) (len : p.header.payloadLen.toNat ≤ maxPayloadSize)
    (sent : (a.sendPacket p destMac sendto).2 = some call) (open' : 0 ≤ b.sockFd) :
    ((b.receivePacket (some call.buffer) prior).1 = true ∧
        (b.receivePacket (some call.buffer) prior).2.header = p.header ∧
        (b.receivePacket (some call.buffer) prior).2.body = p.body) ↔
      p.SelfFramed prior := by
  have len : ¬ (p.header.payloadLen.toNat > 512) := not_lt.2 len
  rw [buffer_of_sendPacket sent, receivePacket_toBytes open' p prior rfl]
  by_cases hh : PacketHeader.ofBytes (p.toBytes.drop 14) = p.header
  · have period := (Packet.ofBytes_drop_eq_header_iff p).1 hh
    rw [hh, if_neg len, Packet.SelfFramed, and_iff_right period]
    by_cases short : p.header.payloadLen.toNat ≤ 498
    · have copied := take_drop_eq_iff p.toBytes 35 21 p.header.payloadLen.toNat
      rw [← Packet.body_eq_take_drop_toBytes] at copied
      rcases Nat.eq_zero_or_pos p.header.payloadLen.toNat with zero | pos
      · simp [zero, Packet.body, slice]
      · have size : ((p.toBytes.drop 35).take p.header.payloadLen.toNat).length =
            p.header.payloadLen.toNat := by
          simp only [List.length_take, List.length_drop, Packet.length_toBytes]
          omega
        have read := slice_memcpy_self prior.payload 0
          ((p.toBytes.drop 35).take p.header.payloadLen.toNat) (by omega)
        rw [size] at read
        rw [if_pos ⟨pos, short⟩, if_pos short]
        simp only [true_and, Packet.body, read]
        simpa only [Packet.body, add_comm 35, add_comm 21] using copied
    · rw [if_neg fun h => short h.2, if_neg short]
      simp only [true_and, Packet.body]
  · have shift : ¬ ∀ i < 21, p.toBytes[i + 14]? = p.toBytes[i]? :=
      fun h => hh ((Packet.ofBytes_drop_eq_header_iff p).2 h)
    refine iff_of_false ?_ fun h => shift h.1
    rintro ⟨ok, header, -⟩
    split_ifs at ok header <;> exact hh header

/-- The packet of `test_network.cpp`: DISCOVERY, "ARABA Hello!". -/
def helloPacket : Packet :=
  (Packet.init .discovery #v[0x00, 0x1a, 0x2b, 0x3c, 0x4d, 0x5e]
    #v[0xff, 0xff, 0xff, 0xff, 0xff, 0xff] 1).fill (text "ARABA Hello!")

/-- An interface that has been opened. -/
def openInterface : NetworkInterface where
  sockFd := 3
  ifIndex := 2
  localMac := #v[0x00, 0x1a, 0x2b, 0x3c, 0x4d, 0x5e]

/-- The 14 bytes that the receiver skips are the front of the packet's own header: it takes the last
octet of the destination for the version, and the first bytes of the text for the source. -/
theorem hello_is_not_received :
    ¬ ((openInterface.receivePacket (some helloPacket.toBytes) helloPacket).1 = true ∧
      (openInterface.receivePacket (some helloPacket.toBytes) helloPacket).2.header =
        helloPacket.header ∧
      (openInterface.receivePacket (some helloPacket.toBytes) helloPacket).2.body =
        helloPacket.body) := by
  decide +kernel

/-- The call that broadcasts it. -/
def helloCall : SendTo where
  buffer := helloPacket.toBytes
  addr :=
    { sllFamily := afPacket
      sllProtocol := ethPAll
      sllIfindex := 2
      sllHalen := 6
      sllAddr := #v[0xff, 0xff, 0xff, 0xff, 0xff, 0xff] }

theorem receivePacket_sendPacket_hello :
    ((openInterface.receivePacket (some helloCall.buffer) helloPacket).1 = true ∧
        (openInterface.receivePacket (some helloCall.buffer) helloPacket).2.header =
          helloPacket.header ∧
        (openInterface.receivePacket (some helloCall.buffer) helloPacket).2.body =
          helloPacket.body) ↔
      helloPacket.SelfFramed helloPacket :=
  receivePacket_sendPacket_iff openInterface openInterface (fun _ => 533) helloPacket helloPacket
    #v[0xff, 0xff, 0xff, 0xff, 0xff, 0xff] helloCall (by decide)
    (by simp [sendPacket, openInterface, helloCall]) (by decide)

end NetworkInterface

end Araba
