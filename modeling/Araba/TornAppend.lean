import Araba.QueueFile

/-!
# A record that was cut short

What a process that is killed while it appends a record leaves behind, and what the queue makes of it
when it is opened again. Records bear no mark, so everything that is appended later is read at the
wrong place.
-/

namespace Araba

open Bytes

namespace RueEntry

/-- The four reads and the four writes agree on what a record is. -/
theorem toBytes_ofBytes (b : List UInt8) (h : 528 ≤ b.length) : (ofBytes b).toBytes = b.take 528 := by
  have len : leBytes 2 (ofBytes b).payloadLen.toNat = (b.drop 6).take 2 := by
    rw [payloadLen_ofBytes]
    exact leBytes_leNat (by simp; omega)
  have time : leBytes 8 (ofBytes b).timestamp.toNat = (b.drop 520).take 8 := by
    rw [timestamp_ofBytes]
    exact leBytes_leNat (by simp; omega)
  rw [toBytes, len, time, ofBytes, toList_ofFn_getElem? b 0 (by omega),
    toList_ofFn_getElem? b 0 (by omega), List.drop_zero, ← List.take_add, ← List.take_add,
    ← List.take_add]

end RueEntry

namespace RueQueue

/-! ## Reading at a stride of 528 bytes -/

theorem readEntries_eq_nil {b : List UInt8} (short : b.length < 528) : readEntries b = [] := by
  rw [readEntries, RueEntry.recordSize, Nat.div_eq_of_lt short]
  rfl

theorem readEntries_cons {b : List UInt8} (long : 528 ≤ b.length) :
    readEntries b = RueEntry.ofBytes b :: readEntries (b.drop 528) := by
  have count : b.length / 528 = (b.drop 528).length / 528 + 1 := by
    rw [List.length_drop]
    omega
  simp only [readEntries, RueEntry.recordSize, count, List.range_succ_eq_map, List.map_cons,
    List.map_map, Nat.mul_zero, List.drop_zero]
  refine congrArg _ (List.map_congr_left fun i _ => ?_)
  rw [Function.comp_apply, Nat.succ_eq_add_one, List.drop_drop, Nat.mul_add, Nat.mul_one, Nat.add_comm]

theorem readEntries_flatMap_append (es : List RueEntry) (b : List UInt8) :
    readEntries (es.flatMap RueEntry.toBytes ++ b) = es ++ readEntries b := by
  induction es with
  | nil => rfl
  | cons e es ih =>
    have long : 528 ≤ (e.toBytes ++ (es.flatMap RueEntry.toBytes ++ b)).length := by
      rw [List.length_append, RueEntry.length_toBytes]
      omega
    rw [List.flatMap_cons, List.append_assoc, readEntries_cons long, RueEntry.ofBytes_toBytes_append,
      List.drop_left' (RueEntry.length_toBytes e), ih]
    rfl

/-- What is read are some records iff these are what the bytes begin with. -/
theorem readEntries_eq_iff {b : List UInt8} {es : List RueEntry} (count : b.length / 528 = es.length) :
    readEntries b = es ↔ es.flatMap RueEntry.toBytes <+: b := by
  induction es generalizing b with
  | nil =>
    have short : b.length < 528 := by
      rw [List.length_nil] at count
      omega
    exact iff_of_true (readEntries_eq_nil short) (List.nil_prefix)
  | cons e es ih =>
    have long : 528 ≤ b.length := by
      rw [List.length_cons] at count
      omega
    have rest : (b.drop 528).length / 528 = es.length := by
      rw [List.length_drop]
      rw [List.length_cons] at count
      omega
    have first : RueEntry.ofBytes b = e ↔ b.take 528 = e.toBytes := by
      rw [← RueEntry.toBytes_ofBytes b long]
      constructor
      · exact congrArg RueEntry.toBytes
      · intro same
        rw [← RueEntry.ofBytes_toBytes_append (RueEntry.ofBytes b) [], same,
          RueEntry.ofBytes_toBytes_append]
    have split : e.toBytes ++ es.flatMap RueEntry.toBytes <+: b ↔
        b.take 528 = e.toBytes ∧ es.flatMap RueEntry.toBytes <+: b.drop 528 := by
      conv_lhs => rw [← List.take_append_drop 528 b]
      constructor
      · rintro ⟨tail, same⟩
        rw [List.append_assoc] at same
        have sizes : e.toBytes.length = (b.take 528).length := by
          rw [RueEntry.length_toBytes, List.length_take]
          omega
        obtain ⟨front, back⟩ := List.append_inj same sizes
        exact ⟨front.symm, tail, back⟩
      · rintro ⟨front, tail, back⟩
        exact ⟨tail, by rw [front, List.append_assoc, back]⟩
    rw [readEntries_cons long, List.cons.injEq, first, ih rest, List.flatMap_cons, split]

/-! ## Appending to what was cut short -/

/-- The arguments of a call of `enqueue`. -/
structure EnqueueCall where
  dest : Mac
  data : List UInt8
  len : UInt16
  now : UInt64
  junk : UInt32

namespace EnqueueCall

/-- The call as an operation on the queue. -/
def op (c : EnqueueCall) : QueueOp := .enqueue c.dest c.data c.len c.now c.junk

/-- The entry that the call writes. -/
def entry (c : EnqueueCall) : RueEntry := queuedEntry c.dest c.data c.len c.now

end EnqueueCall

/-- The bytes of the records that the calls write. -/
def records (calls : List EnqueueCall) : List UInt8 :=
  (calls.map EnqueueCall.entry).flatMap RueEntry.toBytes

/-- The file after calls of `enqueue`, whatever stood behind the header. -/
theorem afterOps_header_append (count : UInt32) (body : List UInt8) (calls : List EnqueueCall)
    (wf : ∀ c ∈ calls, c.op.WellFormed) :
    ∃ count', afterOps ⟨some (rueHeader count ++ body)⟩ (calls.map EnqueueCall.op) =
      ⟨some (rueHeader count' ++ (body ++ records calls))⟩ := by
  induction calls generalizing count body with
  | nil =>
    refine ⟨count, ?_⟩
    rw [show records [] = [] from rfl, List.append_nil]
    rfl
  | cons c calls ih =>
    obtain ⟨first, rest⟩ := List.forall_mem_cons.1 wf
    obtain ⟨count', after⟩ := ih (count + 1) (body ++ c.entry.toBytes) rest
    refine ⟨count', ?_⟩
    have call : (c.op.apply ⟨some (rueHeader count ++ body)⟩).2 =
        ⟨some (rueHeader (count + 1) ++ (body ++ c.entry.toBytes))⟩ :=
      congrArg Prod.snd (enqueue_header_append count body c.dest c.data c.now c.junk first)
    rw [List.map_cons, afterOps, List.foldl_cons, call, ← afterOps, after, records, records,
      List.map_cons, List.flatMap_cons, List.append_assoc]

/-- The file of a queue of entries with a part of one more record, whose `enqueue` was cut short. The
count in the header, which no reader asks for, is that of the entries. -/
def tornFile (es : List RueEntry) (torn : List UInt8) : Option (List UInt8) := some (image es ++ torn)

/-- The queue that is opened on the file returns the old entries, and then the ones that the calls
have queued. -/
def Recovers (es : List RueEntry) (torn : List UInt8) (calls : List EnqueueCall) : Prop :=
  (afterOps (RueQueue.mk (tornFile es torn)).ensureHeader.2 (calls.map EnqueueCall.op)).getAll =
    es ++ calls.map EnqueueCall.entry

/-- After an append that was cut short, the queue recovers exactly when the bytes that are written
afterwards happen to repeat what is left of the record, over and over; in particular when nothing is
written. -/
theorem recovers_iff (es : List RueEntry) (torn : List UInt8) (some' : 0 < torn.length)
    (short : torn.length < 528) (calls : List EnqueueCall) (wf : ∀ c ∈ calls, c.op.WellFormed) :
    Recovers es torn calls ↔ records calls <+: torn ++ records calls := by
  have opened : (RueQueue.mk (tornFile es torn)).ensureHeader.2 =
      ⟨some (rueHeader (UInt32.ofNat es.length) ++ (es.flatMap RueEntry.toBytes ++ torn))⟩ := by
    rw [← List.append_assoc, ← image_eq]
    rfl
  obtain ⟨count, after⟩ := afterOps_header_append (UInt32.ofNat es.length)
    (es.flatMap RueEntry.toBytes ++ torn) calls wf
  have count' : (torn ++ records calls).length / 528 = (calls.map EnqueueCall.entry).length := by
    rw [List.length_append, records, length_flatMap_toBytes]
    omega
  have read : (afterOps (RueQueue.mk (tornFile es torn)).ensureHeader.2
      (calls.map EnqueueCall.op)).getAll = es ++ readEntries (torn ++ records calls) := by
    rw [opened, after]
    show readEntries ((rueHeader count ++ _).drop 9) = _
    rw [List.drop_left' (length_rueHeader count), List.append_assoc, readEntries_flatMap_append]
  rw [Recovers, read, List.append_cancel_left_eq, readEntries_eq_iff count']
  rfl

/-- Of a record for a message of two bytes, only the first byte has been written when the process is
killed. -/
def tornRecord : List UInt8 :=
  (queuedEntry (sampleMac 1) (text "hi") 2 100).toBytes.take 1

/-- The next message that is queued. -/
def nextCall : EnqueueCall where
  dest := sampleMac 2
  data := text "ho"
  len := 2
  now := 200
  junk := 0

/-- An empty message for the MAC of zeros, whose record is all zeros. -/
def zeroCall : EnqueueCall where
  dest := Vector.replicate 6 0
  data := []
  len := 0
  now := 0
  junk := 0

/-- Behind half a record of zeros, another one is read although it was written at the wrong place. -/
theorem recovers_iff_zeros : Recovers twoQueued (List.replicate 264 0) [zeroCall] := by
  have wf : ∀ c ∈ [zeroCall], c.op.WellFormed := by
    intro c hc
    obtain rfl := List.mem_singleton.1 hc
    exact Nat.zero_le _
  have zeros : records [zeroCall] = List.replicate 528 0 := by
    decide +kernel
  have size : (List.replicate 264 (0 : UInt8)).length = 264 := List.length_replicate
  refine (recovers_iff twoQueued (List.replicate 264 0) (by omega) (by omega) [zeroCall] wf).2 ?_
  rw [zeros, List.replicate_append_replicate, Nat.add_comm, ← List.replicate_append_replicate]
  exact List.prefix_append _ _

/-- The message that is queued after the stop is read at the wrong place. -/
theorem torn_queue_does_not_recover : ¬ Recovers [] tornRecord [nextCall] := by
  unfold Recovers
  decide +kernel

end RueQueue

end Araba
