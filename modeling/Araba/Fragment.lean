import Araba.Lib.Collect
import Araba.Packet

/-!
# Fragmentation

`FragmentManager` of `fragment.cpp`: a message is cut into packets that carry a `FragHeader`, and the
receiver collects them by message id until it has as many as the header says.
-/

namespace Araba

open Bytes Collect

/-- `MAX_FRAG_PAYLOAD`: what of a message goes into one packet. -/
def maxFragPayload : ℕ := 480

/-- `struct FragHeader`, in front of the payload of a fragment. -/
structure FragHeader where
  msgId : UInt16
  fragIndex : UInt8
  fragTotal : UInt8
  totalLen : UInt16
  deriving DecidableEq

namespace FragHeader

/-- The packed structure: 6 bytes. -/
def toBytes (fh : FragHeader) : List UInt8 :=
  leBytes 2 fh.msgId.toNat ++ [fh.fragIndex, fh.fragTotal] ++ leBytes 2 fh.totalLen.toNat

/-- `sizeof(FragHeader)`. -/
def sizeof : ℕ := 6

/-- The header whose packed structure is at the front of `b`. -/
def ofBytes (b : List UInt8) : FragHeader where
  msgId := UInt16.ofNat (leNat (b.take 2))
  fragIndex := b[2]?.getD 0
  fragTotal := b[3]?.getD 0
  totalLen := UInt16.ofNat (leNat ((b.drop 4).take 2))

@[simp] theorem length_toBytes (fh : FragHeader) : fh.toBytes.length = 6 := by
  simp [toBytes]

theorem ofBytes_toBytes_append (fh : FragHeader) (rest : List UInt8) :
    ofBytes (fh.toBytes ++ rest) = fh := by
  obtain ⟨msgId, fragIndex, fragTotal, totalLen⟩ := fh
  have word (x : UInt16) : UInt16.ofNat (leNat (leBytes 2 x.toNat)) = x := by
    rw [leNat_leBytes_of_lt x.toNat_lt]
    exact UInt16.ofNat_toNat
  simp only [ofBytes, toBytes, List.append_assoc, FragHeader.mk.injEq]
  refine ⟨?_, rfl, rfl, ?_⟩
  · rw [List.take_left' (by simp), word]
  · rw [← List.append_assoc (leBytes 2 msgId.toNat), take_drop_append _ _ _ (by simp) (by simp), word]

end FragHeader

/-- `struct PartialMsg`; `received` is a reading of the steady clock in nanoseconds. -/
structure PartialMsg where
  fragments : Std.ExtTreeMap UInt8 (List UInt8)
  totalFrags : UInt8
  received : ℕ

/-- `class FragmentManager`: the messages of which fragments are missing, and the next id. -/
structure FragmentManager where
  partials : Std.ExtTreeMap UInt16 PartialMsg := ∅
  nextMsgId : UInt16 := 1

/-- What a call of `reassemble_packet` returns and leaves in its reference arguments. -/
structure Reassembly where
  complete : Bool
  mgr : FragmentManager
  outBuf : List UInt8
  outLen : ℕ

namespace FragmentManager

/-- Fragment `i` of a message, as the loop of `fragment_message` builds it. -/
def fragment (data : List UInt8) (type : PacketType) (src dst : Mac) (seqNum : UInt32)
    (msgId : UInt16) (total : UInt8) (i : ℕ) : Packet :=
  let fh : FragHeader :=
    { msgId := msgId
      fragIndex := UInt8.ofNat i
      fragTotal := total
      totalLen := UInt16.ofNat data.length }
  let offset := i * maxFragPayload
  let fragLen := if offset + maxFragPayload > data.length then data.length - offset
    else maxFragPayload
  (Packet.init type src dst (seqNum + UInt32.ofNat i)).fill
    (fh.toBytes ++ (data.drop offset).take fragLen)

/-- `uint8_t total`, with the cast as it is written. -/
def fragTotal (len : ℕ) : UInt8 :=
  let total := UInt8.ofNat ((len + maxFragPayload - 1) / maxFragPayload)
  if total = 0 then 1 else total

/-- The packets of a message, with the manager and the sequence number after the call. -/
def fragmentMessage (mgr : FragmentManager) (data : List UInt8) (type : PacketType)
    (src dst : Mac) (seqNum : UInt32) : List Packet × FragmentManager × UInt32 :=
  if data.length ≤ maxFragPayload then
    ([(Packet.init type src dst seqNum).fill data], mgr, seqNum + 1)
  else
    let total := fragTotal data.length
    ((List.range total.toNat).map (fragment data type src dst seqNum mgr.nextMsgId total),
      { mgr with nextMsgId := mgr.nextMsgId + 1 }, seqNum + UInt32.ofNat total.toNat)

/-- The loop that copies the fragments `is` to the caller's buffer, from `offset` on. -/
def copyFragments (fragments : Std.ExtTreeMap UInt8 (List UInt8)) (totalLen : ℕ) :
    List UInt8 → List UInt8 → ℕ → List UInt8 × ℕ
  | [], outBuf, offset => (outBuf, offset)
  | i :: is, outBuf, offset =>
    let f := fragments[i]?.getD []
    if offset ≥ totalLen then (outBuf, offset)
    else
      let remaining := totalLen - offset
      let copyLen := if f.length < remaining then f.length else remaining
      copyFragments fragments totalLen is (overwrite outBuf offset (f.take copyLen))
        (offset + copyLen)

/-- `reassemble_packet`. The reference arguments `outBuf` and `outLen` come back changed or as they
were. -/
def reassemblePacket (mgr : FragmentManager) (frag : Packet) (outBuf : List UInt8) (maxOut : ℕ)
    (outLen : ℕ) (now : ℕ) : Reassembly :=
  if frag.header.payloadLen.toNat < FragHeader.sizeof then ⟨false, mgr, outBuf, outLen⟩
  else
    let fh := FragHeader.ofBytes frag.payload.toList
    if fh.fragTotal ≤ 1 then ⟨false, mgr, outBuf, outLen⟩
    else
      let found := (mgr.partials[fh.msgId]?.map PartialMsg.fragments).getD ∅
      let fragData := slice frag.payload FragHeader.sizeof
        (frag.header.payloadLen.toNat - FragHeader.sizeof)
      let partialMsg : PartialMsg :=
        { fragments := found.insert fh.fragIndex fragData
          totalFrags := fh.fragTotal
          received := now }
      if partialMsg.fragments.size ≠ fh.fragTotal.toNat then
        ⟨false, { mgr with partials := mgr.partials.insert fh.msgId partialMsg }, outBuf, outLen⟩
      else if fh.totalLen.toNat > maxOut then
        ⟨false, { mgr with partials := mgr.partials.erase fh.msgId }, outBuf, outLen⟩
      else
        let copied := copyFragments partialMsg.fragments fh.totalLen.toNat
          ((List.range fh.fragTotal.toNat).map UInt8.ofNat) outBuf 0
        ⟨true, { mgr with partials := mgr.partials.erase fh.msgId }, copied.1, copied.2⟩

/-- Whether `cleanup_stale` takes the message for stale: its age in whole seconds is too large. -/
def stale (maxAgeSeconds : UInt32) (now : ℕ) (p : PartialMsg) : Bool :=
  (now - p.received) / 1000000000 > maxAgeSeconds.toNat

/-- `cleanup_stale`. -/
def cleanupStale (mgr : FragmentManager) (maxAgeSeconds : UInt32) (now : ℕ) : FragmentManager :=
  { mgr with partials := mgr.partials.filter fun _ p => !stale maxAgeSeconds now p }

end FragmentManager

end Araba
