import Araba.Reassembly

/-!
# The fragments of one message

What a call of `fragment_message` that needs several packets puts into them, and what a receiver
makes of calls that all bring fragments of it.
-/

namespace Araba

open Bytes Collect FragmentManager

theorem seqNum_fragmentMessage (mgr : FragmentManager) (data : List UInt8) (type : PacketType)
    (src dst : Mac) (seqNum : UInt32) :
    (mgr.fragmentMessage data type src dst seqNum).2.2 =
      seqNum + UInt32.ofNat (mgr.fragmentMessage data type src dst seqNum).1.length := by
  unfold fragmentMessage
  split_ifs
  · rfl
  · simp

/-- The arguments of a call of `fragment_message`. -/
structure Sending where
  mgr : FragmentManager
  data : List UInt8
  type : PacketType
  src : Mac
  dst : Mac
  seqNum : UInt32

namespace Sending

variable (s : Sending)

/-- The packets of the message. -/
def packets : List Packet :=
  (s.mgr.fragmentMessage s.data s.type s.src s.dst s.seqNum).1

/-- The message id of the call, when it needs one. -/
def msgId : UInt16 := s.mgr.nextMsgId

/-- How many packets the data take. -/
def total : ℕ := (s.data.length + 479) / 480

/-- The data take several packets and their length fits into `total_len`. -/
def Fragmented : Prop := maxFragPayload < s.data.length ∧ s.data.length ≤ 65535

/-- Fragment `i` of the message. -/
def nth (i : ℕ) : Packet :=
  fragment s.data s.type s.src s.dst s.seqNum s.msgId (fragTotal s.data.length) i

variable {s}

/-- What the packets of a message say about its sender and its addressee. -/
theorem header_of_mem {p : Packet} (h : p ∈ s.packets) :
    p.header.source = s.src ∧ p.header.dest = s.dst ∧ p.header.type = s.type := by
  rw [packets, FragmentManager.fragmentMessage] at h
  split_ifs at h
  · rw [List.mem_singleton] at h
    rw [h]
    exact ⟨rfl, rfl, rfl⟩
  · obtain ⟨i, -, rfl⟩ := List.mem_map.1 h
    exact ⟨rfl, rfl, rfl⟩

/-- The packets are numbered on from the sequence number of the call. -/
theorem sequenceId_of_getElem? {j : ℕ} {p : Packet} (h : s.packets[j]? = some p) :
    p.header.sequenceId = s.seqNum + UInt32.ofNat j := by
  rw [packets, FragmentManager.fragmentMessage] at h
  split_ifs at h
  · obtain ⟨hj, rfl⟩ := List.getElem?_eq_some_iff.1 h
    obtain rfl : j = 0 := by simpa using hj
    simp [Packet.fill, Packet.init]
  · rw [List.getElem?_map, Option.map_eq_some_iff] at h
    obtain ⟨i, hi, rfl⟩ := h
    obtain ⟨hj, rfl⟩ := List.getElem?_eq_some_iff.1 hi
    simp [fragment, Packet.fill, Packet.init]

theorem Fragmented.lt_total (h : s.Fragmented) : 1 < s.total := by
  have := h.1
  simp only [maxFragPayload, total] at *
  omega

theorem Fragmented.total_le (h : s.Fragmented) : s.total ≤ 137 := by
  have := h.2
  simp only [total]
  omega

theorem Fragmented.toNat_fragTotal (h : s.Fragmented) :
    (fragTotal s.data.length).toNat = s.total := by
  have le := h.total_le
  have lt := h.lt_total
  have count : (s.data.length + maxFragPayload - 1) / maxFragPayload = s.total := rfl
  have cast : (UInt8.ofNat s.total).toNat = s.total := by
    rw [UInt8.toNat_ofNat']
    omega
  rw [fragTotal, count]
  split_ifs with zero
  · rw [zero] at cast
    simp at cast
    omega
  · exact cast

theorem Fragmented.packets_eq (h : s.Fragmented) :
    s.packets = (List.range s.total).map s.nth := by
  rw [packets, fragmentMessage, if_neg (not_le.2 h.1)]
  simp only [h.toNat_fragTotal]
  rfl

theorem Fragmented.mem_packets_iff (h : s.Fragmented) (p : Packet) :
    p ∈ s.packets ↔ ∃ i < s.total, s.nth i = p := by
  rw [h.packets_eq]
  simp

theorem length_packets (fits : s.data.length ≤ 65535) : s.packets.length = max 1 s.total := by
  by_cases one : s.data.length ≤ maxFragPayload
  · rw [packets, fragmentMessage, if_pos one, List.length_singleton, total]
    rw [maxFragPayload] at one
    omega
  · have h : s.Fragmented := ⟨not_le.1 one, fits⟩
    have many := h.lt_total
    rw [h.packets_eq, List.length_map, List.length_range]
    omega

/-- What fragment `i` carries: its header and its piece of the data. -/
theorem nth_eq_fill (i : ℕ) :
    s.nth i = (Packet.init s.type s.src s.dst (s.seqNum + UInt32.ofNat i)).fill
      ((FragHeader.mk s.msgId (UInt8.ofNat i) (fragTotal s.data.length)
        (UInt16.ofNat s.data.length)).toBytes ++ piece maxFragPayload s.data i) := by
  have clamp : (s.data.drop (i * maxFragPayload)).take
      (if i * maxFragPayload + maxFragPayload > s.data.length
        then s.data.length - i * maxFragPayload else maxFragPayload) =
      piece maxFragPayload s.data i := by
    rw [piece, mul_comm]
    split_ifs with last
    · rw [List.take_of_length_le (by simp), List.take_of_length_le (by simp; omega)]
    · rfl
  simp only [nth, fragment, clamp]

theorem length_fill_nth (fh : FragHeader) (i : ℕ) :
    (fh.toBytes ++ piece maxFragPayload s.data i).length ≤ 512 := by
  rw [List.length_append, FragHeader.length_toBytes, length_piece, maxFragPayload]
  omega

theorem fragHeader_nth (i : ℕ) :
    (s.nth i).fragHeader =
      ⟨s.msgId, UInt8.ofNat i, fragTotal s.data.length, UInt16.ofNat s.data.length⟩ := by
  obtain ⟨rest, payload⟩ := Packet.toList_payload_fill
    (Packet.init s.type s.src s.dst (s.seqNum + UInt32.ofNat i)) _ (length_fill_nth
      (FragHeader.mk s.msgId (UInt8.ofNat i) (fragTotal s.data.length)
        (UInt16.ofNat s.data.length)) i)
  rw [Packet.fragHeader, nth_eq_fill, payload, List.append_assoc,
    FragHeader.ofBytes_toBytes_append]

theorem fragData_nth (i : ℕ) : (s.nth i).fragData = piece maxFragPayload s.data i := by
  rw [Packet.fragData_eq_drop_body, nth_eq_fill, Packet.body_fill _ _ (length_fill_nth _ i),
    List.drop_left' (FragHeader.length_toBytes _)]

theorem isFragment_nth (h : s.Fragmented) (i : ℕ) : (s.nth i).IsFragment := by
  constructor
  · rw [nth_eq_fill, Packet.payloadLen_fill _ _ (length_fill_nth _ i), List.length_append,
      FragHeader.length_toBytes, FragHeader.sizeof]
    omega
  · rw [fragHeader_nth, UInt8.lt_iff_toNat_lt, h.toNat_fragTotal]
    exact h.lt_total

/-! ## Calls that bring fragments of the message -/

variable {c : FragCall}

theorem Fragmented.msgId_of_mem (h : s.Fragmented) (own : c.frag ∈ s.packets) :
    c.msgId = s.msgId := by
  obtain ⟨i, -, e⟩ := (h.mem_packets_iff _).1 own
  rw [FragCall.msgId, ← e, fragHeader_nth]

theorem Fragmented.isFragment_of_mem (h : s.Fragmented) {p : Packet} (own : p ∈ s.packets) :
    p.IsFragment := by
  obtain ⟨i, -, rfl⟩ := (h.mem_packets_iff _).1 own
  exact isFragment_nth h i

theorem Fragmented.fragTotal_of_mem (h : s.Fragmented) (own : c.frag ∈ s.packets) :
    c.fragTotal = s.total := by
  obtain ⟨i, -, e⟩ := (h.mem_packets_iff _).1 own
  rw [FragCall.fragTotal, ← e, fragHeader_nth]
  exact h.toNat_fragTotal

theorem Fragmented.totalLen_of_mem (h : s.Fragmented) (own : c.frag ∈ s.packets) :
    c.totalLen = s.data.length := by
  obtain ⟨i, -, e⟩ := (h.mem_packets_iff _).1 own
  have le := h.2
  rw [FragCall.totalLen, ← e, fragHeader_nth]
  show (UInt16.ofNat s.data.length).toNat = _
  rw [UInt16.toNat_ofNat']
  omega

theorem Fragmented.toNat_index (h : s.Fragmented) {i : ℕ} (hi : i < s.total) :
    (UInt8.ofNat i).toNat = i := by
  have le := h.total_le
  rw [UInt8.toNat_ofNat']
  omega

theorem Fragmented.index_lt (h : s.Fragmented) {log : List FragCall}
    (own : ∀ c ∈ log, c.frag ∈ s.packets) : ∀ i ∈ indices log, i < s.total := by
  intro i hi
  obtain ⟨c, hc, rfl⟩ := (mem_indices _ _).1 hi
  obtain ⟨j, hj, e⟩ := (h.mem_packets_iff _).1 (own c hc)
  rw [← e, fragHeader_nth]
  show (UInt8.ofNat j).toNat < _
  rwa [h.toNat_index hj]

theorem Fragmented.map_index_packets (h : s.Fragmented) :
    s.packets.map (fun p => p.fragHeader.fragIndex.toNat) = List.range s.total := by
  rw [h.packets_eq, List.map_map]
  refine (List.map_congr_left fun i hi => ?_).trans (List.map_id _)
  rw [Function.comp_apply, fragHeader_nth]
  exact h.toNat_index (List.mem_range.1 hi)

/-- While packets of the message are received at most once each, every one brings a new index. -/
theorem Fragmented.card_indices (h : s.Fragmented) {log : List FragCall} {rest : List Packet}
    (perm : (log.map FragCall.frag ++ rest).Perm s.packets) :
    (indices log).card = log.length ∧ s.total = log.length + rest.length := by
  have order := perm.map fun p => p.fragHeader.fragIndex.toNat
  rw [h.map_index_packets, List.map_append, List.map_map] at order
  have distinct := (List.nodup_append'.1 (order.nodup_iff.2 List.nodup_range)).1
  have count := order.length_eq
  rw [List.length_append, List.length_map, List.length_map, List.length_range] at count
  refine ⟨?_, count.symm⟩
  rw [indices, List.toFinset_card_of_nodup (by exact distinct), List.length_map]

/-- A fragment of the message is its own piece of the data, however often it was received. -/
theorem Fragmented.lastFragment_eq (h : s.Fragmented) {log : List FragCall}
    (own : ∀ c ∈ log, c.frag ∈ s.packets) {i : ℕ} (hi : i < s.total) (received : i ∈ indices log) :
    lastFragment log i = some (piece maxFragPayload s.data i) := by
  apply latest_eq_some
  · obtain ⟨c, hc, e⟩ := (mem_indices _ _).1 received
    refine ⟨c.frag.fragEntry, List.mem_map_of_mem hc, ?_⟩
    rw [Packet.fragEntry, ← UInt8.toNat_inj, e, h.toNat_index hi]
  · intro e he key
    obtain ⟨c, hc, rfl⟩ := List.mem_map.1 he
    obtain ⟨j, hj, e⟩ := (h.mem_packets_iff _).1 (own c hc)
    rw [Packet.fragEntry, ← e, fragHeader_nth, ← UInt8.toNat_inj] at key
    have same : j = i := by rwa [h.toNat_index hj, h.toNat_index hi] at key
    rw [Packet.fragEntry, ← e, fragData_nth, same]

theorem Fragmented.concatenation_eq (h : s.Fragmented) {log : List FragCall}
    (own : ∀ c ∈ log, c.frag ∈ s.packets) (all : ∀ i < s.total, i ∈ indices log) :
    concatenation log s.total = s.data := by
  have pieces : concatenation log s.total =
      (List.range s.total).flatMap (piece maxFragPayload s.data) := by
    refine List.flatMap_congr fun i hi => ?_
    have hi := List.mem_range.1 hi
    rw [h.lastFragment_eq own hi (all i hi), Option.getD_some]
  rw [pieces, flatMap_piece]
  apply List.take_of_length_le
  simp only [maxFragPayload, total]
  omega

/-- A call that brings a fragment to an entry with fragments of the same message only: it completes
the message iff no index is missing any more, and then hands out the data. -/
theorem Fragmented.run_of_own (h : s.Fragmented) {mgr : FragmentManager} {log : List FragCall}
    (own : ∀ c' ∈ log ++ [c], c'.frag ∈ s.packets) (fits : s.data.length ≤ c.maxOut)
    (entry : mgr.partials[s.msgId]? = entryOf log) :
    ((c.run mgr).complete = true ↔ ∀ i < s.total, i ∈ indices (log ++ [c])) ∧
      ((c.run mgr).complete = true →
        (c.run mgr).outLen = s.data.length ∧ (c.run mgr).outBuf.take s.data.length = s.data) := by
  have mem : c.frag ∈ s.packets := own c (by simp)
  have counts := card_eq_iff_of_lt (h.index_lt own)
  rw [← h.msgId_of_mem mem] at entry
  rw [c.run_of_isFragment (h.isFragment_of_mem mem) entry, h.fragTotal_of_mem mem,
    h.totalLen_of_mem mem, if_neg (not_lt.2 fits)]
  split_ifs with missing
  · exact ⟨iff_of_false id fun all => missing (counts.2 all), False.elim⟩
  · have all := counts.1 (not_not.1 missing)
    refine ⟨iff_of_true rfl all, fun _ => ?_⟩
    rw [h.concatenation_eq own all]
    simp [overwrite]

end Sending

end Araba
