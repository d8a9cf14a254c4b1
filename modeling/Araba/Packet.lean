import Araba.Lib.Bytes
import Mathlib.Tactic.FinCases
import Mathlib.Tactic.IntervalCases

/-!
# Packets

The packets of `packet.hpp` with their image in memory, which is also their image on the wire, and
the two conversions between a MAC and its text.
-/

namespace Araba

open Bytes

/-- A `std::string`: its bytes. -/
abbrev Str := List UInt8

/-- A MAC address. -/
abbrev Mac := Vector UInt8 6

/-- The MACs of sample nodes. -/
def sampleMac (last : UInt8) : Mac := #v[2, 0, 0, 0, 0, last]

/-- `enum class PacketType : uint8_t`. A header read off the wire may hold any byte. -/
structure PacketType where
  toByte : UInt8
  deriving DecidableEq

namespace PacketType

/-- `DISCOVERY`. -/
def discovery : PacketType := ⟨0x01⟩

/-- `ROUTE_ADV`. -/
def routeAdv : PacketType := ⟨0x02⟩

/-- `DATA`. -/
def data : PacketType := ⟨0x03⟩

/-- `ACK`. -/
def ack : PacketType := ⟨0x04⟩

end PacketType

/-- `MAX_PAYLOAD_SIZE`. -/
def maxPayloadSize : ℕ := 512

/-- `PROTOCOL_VERSION`. -/
def protocolVersion : UInt8 := 0x01

/-- `DEFAULT_TTL`. -/
def defaultTtl : UInt8 := 64

/-- `struct PacketHeader`. -/
structure PacketHeader where
  version : UInt8
  type : PacketType
  ttl : UInt8
  source : Mac
  dest : Mac
  sequenceId : UInt32
  payloadLen : UInt16
  deriving DecidableEq

/-- `struct Packet`: the payload array is there as a whole, whatever `payload_len` says. -/
structure Packet where
  header : PacketHeader
  payload : Vector UInt8 512
  deriving DecidableEq

namespace Packet

/-- `Packet::init`: the payload is empty and zeroed. -/
def init (type : PacketType) (src dst : Mac) (seq : UInt32) : Packet where
  header :=
    { version := protocolVersion
      type := type
      ttl := defaultTtl
      source := src
      dest := dst
      sequenceId := seq
      payloadLen := 0 }
  payload := Vector.replicate 512 0

/-- `Packet::is_valid`. -/
def isValid (p : Packet) : Bool :=
  p.header.version == protocolVersion &&
    (PacketType.discovery.toByte ≤ p.header.type.toByte &&
      p.header.type.toByte ≤ PacketType.ack.toByte) &&
    p.header.payloadLen.toNat ≤ maxPayloadSize

/-- The packet with `bytes` at the front of its payload and their number as its length. -/
def fill (p : Packet) (bytes : List UInt8) : Packet where
  header := { p.header with payloadLen := UInt16.ofNat bytes.length }
  payload := memcpy p.payload 0 bytes

/-- The payload as far as `payload_len` says. -/
def body (p : Packet) : List UInt8 := slice p.payload 0 p.header.payloadLen.toNat

theorem payloadLen_fill (p : Packet) (bytes : List UInt8) (h : bytes.length ≤ 512) :
    (p.fill bytes).header.payloadLen.toNat = bytes.length := by
  simp only [fill, UInt16.toNat_ofNat']
  omega

theorem body_fill (p : Packet) (bytes : List UInt8) (h : bytes.length ≤ 512) :
    (p.fill bytes).body = bytes := by
  rw [body, payloadLen_fill p bytes h]
  exact slice_memcpy_self _ _ _ (by omega)

theorem toList_payload_fill (p : Packet) (bytes : List UInt8) (h : bytes.length ≤ 512) :
    ∃ rest, (p.fill bytes).payload.toList = bytes ++ rest := by
  refine ⟨(p.payload.toList.drop bytes.length).take (512 - bytes.length), ?_⟩
  simp only [fill, toList_memcpy, List.take_zero, List.nil_append, zero_add, List.take_append,
    List.take_of_length_le h]

end Packet

/-! ## The image in memory -/

namespace PacketHeader

/-- The packed structure: 21 bytes. -/
def toBytes (h : PacketHeader) : List UInt8 :=
  [h.version, h.type.toByte, h.ttl] ++ h.source.toList ++ h.dest.toList ++
    leBytes 4 h.sequenceId.toNat ++ leBytes 2 h.payloadLen.toNat

/-- `sizeof(PacketHeader)`. -/
def sizeof : ℕ := 21

/-- The header whose packed structure is at the front of `b`. -/
def ofBytes (b : List UInt8) : PacketHeader where
  version := b[0]?.getD 0
  type := ⟨b[1]?.getD 0⟩
  ttl := b[2]?.getD 0
  source := Vector.ofFn fun i => b[3 + i.val]?.getD 0
  dest := Vector.ofFn fun i => b[9 + i.val]?.getD 0
  sequenceId := UInt32.ofNat (leNat ((b.drop 15).take 4))
  payloadLen := UInt16.ofNat (leNat ((b.drop 19).take 2))

@[simp] theorem length_toBytes (h : PacketHeader) : h.toBytes.length = 21 := by
  simp [toBytes]

theorem ofBytes_toBytes_append (h : PacketHeader) (rest : List UInt8) :
    ofBytes (h.toBytes ++ rest) = h := by
  obtain ⟨version, ⟨type⟩, ttl, source, dest, sequenceId, payloadLen⟩ := h
  have seq : leNat (leBytes 4 sequenceId.toNat) = sequenceId.toNat :=
    leNat_leBytes_of_lt sequenceId.toNat_lt
  have len : leNat (leBytes 2 payloadLen.toNat) = payloadLen.toNat :=
    leNat_leBytes_of_lt payloadLen.toNat_lt
  simp only [ofBytes, toBytes, PacketHeader.mk.injEq, PacketType.mk.injEq]
  refine ⟨rfl, rfl, rfl, ?_, ?_, ?_, ?_⟩
  · rw [List.append_assoc, List.append_assoc, List.append_assoc, List.append_assoc]
    exact ofFn_getElem?_append _ _ source 0 rfl
  · rw [List.append_assoc, List.append_assoc, List.append_assoc]
    exact ofFn_getElem?_append _ _ dest 0 (by simp)
  · rw [List.append_assoc, List.append_assoc, take_drop_append _ _ _ (by simp) (by simp), seq]
    exact UInt32.ofNat_toNat
  · rw [List.append_assoc, take_drop_append _ _ _ (by simp) (by simp), len]
    exact UInt16.ofNat_toNat

theorem toBytes_ofBytes (b : List UInt8) (h : 21 ≤ b.length) : (ofBytes b).toBytes = b.take 21 := by
  have front : [b[0]?.getD 0, b[1]?.getD 0, b[2]?.getD 0] = b.take 3 := by
    match b, h with
    | _ :: _ :: _ :: _, _ => rfl
  have seq : leBytes 4 (UInt32.ofNat (leNat ((b.drop 15).take 4))).toNat = (b.drop 15).take 4 := by
    have l : ((b.drop 15).take 4).length = 4 := by simp; omega
    have lt : leNat ((b.drop 15).take 4) < 2 ^ 32 := leNat_take_lt 4 _
    rw [UInt32.toNat_ofNat', Nat.mod_eq_of_lt lt]
    exact leBytes_leNat l
  have len : leBytes 2 (UInt16.ofNat (leNat ((b.drop 19).take 2))).toNat = (b.drop 19).take 2 := by
    have l : ((b.drop 19).take 2).length = 2 := by simp; omega
    have lt : leNat ((b.drop 19).take 2) < 2 ^ 16 := leNat_take_lt 2 _
    rw [UInt16.toNat_ofNat', Nat.mod_eq_of_lt lt]
    exact leBytes_leNat l
  simp only [toBytes, ofBytes]
  rw [front, seq, len, toList_ofFn_getElem? b 0 (by omega), toList_ofFn_getElem? b 0 (by omega),
    ← List.take_add, ← List.take_add, ← List.take_add, ← List.take_add]

theorem toBytes_injective : Function.Injective toBytes := by
  intro h h' e
  rw [← ofBytes_toBytes_append h [], e, ofBytes_toBytes_append]

end PacketHeader

namespace Packet

/-- The structure in memory: the header and the whole payload, 533 bytes. -/
def toBytes (p : Packet) : List UInt8 := p.header.toBytes ++ p.payload.toList

@[simp] theorem length_toBytes (p : Packet) : p.toBytes.length = 533 := by
  simp [toBytes]

end Packet

end Araba
