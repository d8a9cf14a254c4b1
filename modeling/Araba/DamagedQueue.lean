import Araba.AutoDelivery
import Araba.Lib.Cells
import Araba.TornAppend

/-!
# Damaged queue files

What the program makes of a queue file that it has not written itself. The header is checked, but
`enqueue` goes on whatever the checks say; the lengths in the records are not checked at all, and
auto-delivery copies as many bytes as they say.
-/

namespace Araba

open Bytes Cells RueQueue Traced

namespace RueQueue

/-! ## The header -/

/-- The file is too short for a header, does not begin with the magic, or is of another version. -/
def Corrupted (b : List UInt8) : Prop :=
  b.length < 9 ∨ b.take 4 ≠ rueMagic ∨ b[4]? ≠ some rueVersion

/-- A queue is constructed on the file, and `enqueue` fails and leaves the file as it is. -/
def Refuses (b : List UInt8) (c : EnqueueCall) : Prop :=
  (c.op.apply (RueQueue.mk (some b)).ensureHeader.2).1 = false ∧
    (c.op.apply (RueQueue.mk (some b)).ensureHeader.2).2.file = some b

/-- There is no file, be it damaged or not, for which `enqueue` reports a failure, and none that it
leaves alone. -/
theorem not_refuses (b : List UInt8) (c : EnqueueCall) :
    ¬ Refuses b c ∧ (c.op.apply (RueQueue.mk (some b)).ensureHeader.2).1 = true ∧
      (c.op.apply (RueQueue.mk (some b)).ensureHeader.2).2.file ≠ some b := by
  set q : RueQueue := (RueQueue.mk (some b)).ensureHeader.2
  have ok : (c.op.apply q).1 = true := rfl
  have longer : ((c.op.apply q).2.file.getD []).length = max b.length 9 + 528 :=
    q.length_file_enqueue c.dest (c.data.take c.len.toNat) c.now c.junk
  refine ⟨fun refused => ?_, ok, fun same => ?_⟩
  · exact Bool.noConfusion (ok.symm.trans refused.1)
  · rw [same, Option.getD_some] at longer
    omega

/-- The header of an empty queue of another version. -/
def otherVersion : List UInt8 := rueMagic ++ [2] ++ leBytes 4 0

theorem other_version_is_not_refused : ¬ ∀ b, Corrupted b → ∀ c, Refuses b c := by
  intro refuses
  have bad : Corrupted otherVersion := .inr (.inr (by decide))
  have failed : true = false := (refuses otherVersion bad nextCall).1
  exact Bool.noConfusion failed

/-! ## The records -/

theorem mem_readEntries {b : List UInt8} {e : RueEntry} :
    e ∈ readEntries b ↔ ∃ i, 528 * (i + 1) ≤ b.length ∧ RueEntry.ofBytes (b.drop (528 * i)) = e := by
  have whole (i : ℕ) : i < b.length / 528 ↔ 528 * (i + 1) ≤ b.length := by omega
  simp only [readEntries, RueEntry.recordSize, List.mem_map, List.mem_range, whole]

theorem destMac_ofBytes {b : List UInt8} (long : 528 ≤ b.length) (dest : Mac) :
    (RueEntry.ofBytes b).destMac = dest ↔ b.take 6 = dest.toList := by
  have read : (RueEntry.ofBytes b).destMac.toList = b.take 6 := by
    rw [RueEntry.ofBytes, toList_ofFn_getElem? b 0 (by omega), List.drop_zero]
  rw [← Vector.toList_inj, read]

end RueQueue

/-! ## The copy of a payload -/

/-- The arrays of the copy: the payload of an entry and that of a packet, each of 512 bytes. -/
inductive DeliveryArray
  | entry
  | fwd
  deriving DecidableEq

/-- The copy that auto-delivery makes for an entry, cell by cell. -/
def copyEntryCells (e : RueEntry) : Program DeliveryArray Empty Unit :=
  memcpy .fwd 0 .entry 0 e.payloadLen.toNat

/-- The entry is in memory, and a packet that `init` has filled with zeros. -/
def withEntry (m : Memory DeliveryArray) (e : RueEntry) : Memory DeliveryArray :=
  (m.put .entry 0 e.payload.toList).put .fwd 0 (List.replicate 512 0)

/-- The entry is not longer than a payload, the copy stays inside both arrays, and the packet is
valid. -/
def SafeToSend (env : NodeEnv) (m : Memory DeliveryArray) (e : RueEntry) : Prop :=
  e.payloadLen.toNat ≤ maxPayloadSize ∧
    (∀ i, .load .entry i ∈ (copyEntryCells e).trace (withEntry m e) → i < 512) ∧
    (∀ i, .store .fwd i ∈ (copyEntryCells e).trace (withEntry m e) → i < 512) ∧
    ∀ seqNum, (queuedPacket env seqNum e).isValid = true

section Copy

variable {env : NodeEnv} (m : Memory DeliveryArray) {e : RueEntry}

theorem load_mem_copyEntryCells (i : ℕ) :
    .load .entry i ∈ (copyEntryCells e).trace m ↔ i < e.payloadLen.toNat := by
  simp [copyEntryCells]

theorem store_mem_copyEntryCells (i : ℕ) :
    .store .fwd i ∈ (copyEntryCells e).trace m ↔ i < e.payloadLen.toNat := by
  simp [copyEntryCells]

theorem bytes_copyEntryCells (short : e.payloadLen.toNat ≤ maxPayloadSize) (seqNum : UInt32) :
    ((copyEntryCells e).post (withEntry m e)).bytes .fwd 0 512 =
      (queuedPacket env seqNum e).payload.toList := by
  have limit : maxPayloadSize = 512 := rfl
  have ne : DeliveryArray.entry ≠ .fwd := by decide
  have back := m.bytes_put .entry 0 e.payload.toList (k := 0) (n := e.payloadLen.toNat)
    (by rw [Vector.length_toList]; omega)
  have read : (withEntry m e).bytes .entry 0 e.payloadLen.toNat = slice e.payload 0 e.payloadLen.toNat :=
    (Memory.bytes_put_of_ne _ ne _ _ _ _).trans back
  have packet : (queuedPacket env seqNum e).payload =
      memcpy (Vector.replicate 512 0) 0 (slice e.payload 0 e.payloadLen.toNat) := rfl
  rw [copyEntryCells, post_memcpy, read, packet]
  generalize slice e.payload 0 e.payloadLen.toNat = copied
  apply List.ext_getElem?
  intro i
  rcases Nat.lt_or_ge i 512 with inside | outside
  · have zero : withEntry m e .fwd i = 0 := by
      rw [withEntry, Memory.put, if_pos ⟨rfl, Nat.zero_le i⟩, Nat.sub_zero,
        List.getElem?_replicate_of_lt inside, Option.getD_some]
    rw [Memory.getElem?_bytes _ _ _ inside, Nat.zero_add, Memory.put, if_pos ⟨rfl, Nat.zero_le i⟩,
      Nat.sub_zero, zero, Vector.getElem?_toList, Vector.getElem?_eq_getElem inside, getElem_memcpy]
    by_cases new : i < copied.length
    · rw [dif_pos ⟨Nat.zero_le i, new⟩, List.getElem?_eq_getElem new]
      rfl
    · rw [dif_neg fun h => new h.2, List.getElem?_eq_none (not_lt.1 new), Vector.getElem_replicate]
      rfl
  · rw [List.getElem?_eq_none (by rwa [Memory.length_bytes]),
      List.getElem?_eq_none (by rwa [Vector.length_toList])]

theorem isValid_queuedPacket (seqNum : UInt32) :
    (queuedPacket env seqNum e).isValid = true ↔ e.payloadLen.toNat ≤ maxPayloadSize := by
  rw [Packet.isValid, Bool.and_eq_true, decide_eq_true_eq]
  exact and_iff_right rfl

theorem safeToSend_iff : SafeToSend env m e ↔ e.payloadLen.toNat ≤ maxPayloadSize := by
  have limit : maxPayloadSize = 512 := rfl
  simp only [SafeToSend, load_mem_copyEntryCells, store_mem_copyEntryCells, isValid_queuedPacket]
  constructor
  · exact fun safe => safe.1
  · intro short
    exact ⟨short, fun i hi => by omega, fun i hi => by omega, fun _ => short⟩

/-- The loop leaves its arrays for an entry exactly when the entry is not safe. -/
theorem overrun_mem_deliverEntry (s : NodeState env) :
    .overrun ∈ (deliverEntry e).trace s ↔ ¬ SafeToSend env m e := by
  rw [safeToSend_iff, not_le, trace_deliverEntry]
  split_ifs with long
  · exact iff_of_true (List.mem_singleton_self _) long
  · exact iff_of_false (fun h => nomatch List.mem_singleton.1 h) long

theorem overrun_mem_runAll (entries : List RueEntry) (s : NodeState env) :
    .overrun ∈ (runAll (entries.map deliverEntry)).trace s ↔ ∃ e ∈ entries, ¬ SafeToSend env m e := by
  induction entries generalizing s with
  | nil => simp [runAll]
  | cons e entries ih =>
    rw [List.map_cons, runAll, trace_bind, List.mem_append, overrun_mem_deliverEntry m, ih,
      List.exists_mem_cons_iff]

/-- Auto-delivery leaves its arrays exactly when an entry that it works off is not safe to send. -/
theorem overrun_mem_autoDeliver (received : Packet) (s : NodeState env) :
    .overrun ∈ (autoDeliver received).trace s ↔
      ∃ e ∈ s.queue.getPending received.header.source, ¬ SafeToSend env m e := by
  rw [trace_autoDeliver, ← overrun_mem_runAll m _ s]
  split_ifs with none'
  · rw [List.isEmpty_iff.1 none']
    rfl
  · rw [List.mem_cons]
    exact or_iff_right nofun

end Copy

/-! ## What is read back -/

/-- The bytes of a file from its `i`th record on. -/
def recordAt (b : List UInt8) (i : ℕ) : List UInt8 := b.drop (9 + 528 * i)

/-- The entries that are read back for a node are safe to send exactly when no whole record for it
announces more bytes than a payload has. -/
theorem pendingSafe_iff (env : NodeEnv) (m : Memory DeliveryArray) (b : List UInt8) (dest : Mac) :
    (∀ e ∈ getPending ⟨some b⟩ dest, SafeToSend env m e) ↔
      ∀ i, 9 + 528 * (i + 1) ≤ b.length → (recordAt b i).take 6 = dest.toList →
        leNat (((recordAt b i).drop 6).take 2) ≤ maxPayloadSize := by
  have record (i : ℕ) : (b.drop 9).drop (528 * i) = recordAt b i := List.drop_drop
  have whole (i : ℕ) : 528 * (i + 1) ≤ (b.drop 9).length ↔ 9 + 528 * (i + 1) ≤ b.length := by
    rw [List.length_drop]
    omega
  have long {i : ℕ} (hi : 9 + 528 * (i + 1) ≤ b.length) : 528 ≤ (recordAt b i).length := by
    rw [recordAt, List.length_drop]
    exact Nat.le_sub_of_add_le (by omega)
  simp only [getPending, List.mem_filter, beq_iff_eq, mem_readEntries, record, whole, safeToSend_iff]
  constructor
  · intro safe i hi own
    rw [← RueEntry.payloadLen_ofBytes]
    exact safe (RueEntry.ofBytes (recordAt b i)) ⟨⟨i, hi, rfl⟩, (destMac_ofBytes (long hi) dest).2 own⟩
  · rintro fits e ⟨⟨i, hi, rfl⟩, own⟩
    rw [RueEntry.payloadLen_ofBytes]
    exact fits i hi ((destMac_ofBytes (long hi) dest).1 own)

/-- An entry whose length is one byte more than a payload has. -/
def overlongEntry : RueEntry where
  destMac := receiverEnv.myMac
  payloadLen := 513

theorem overlong_entry_is_read_back :
    ¬ ∀ e ∈ getPending ⟨some (image [overlongEntry])⟩ receiverEnv.myMac,
      SafeToSend senderEnv (fun _ _ => 0) e := by
  intro safe
  have queued : overlongEntry ∈ getPending ⟨some (image [overlongEntry])⟩ receiverEnv.myMac := by
    rw [getPending_eq_filter, getAll_of_represents rfl]
    exact List.mem_filter.2 ⟨List.mem_cons_self, beq_self_eq_true _⟩
  exact absurd (safe overlongEntry queued).1 (by decide)

end Araba
