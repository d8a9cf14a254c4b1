import Araba.Lib.Drain
import Araba.Persistence

/-!
# The queue file as a list

The queue is a list of entries: `enqueue` appends one and `remove_entry` deletes the first that
agrees with its target. The file that the operations read and write represents this list.
-/

namespace Araba

open Bytes

/-! ## The list -/

/-- The entry that is queued for the first `len` bytes of a buffer. -/
def queuedEntry (dest : Mac) (data : List UInt8) (len : UInt16) (now : UInt64) : RueEntry where
  destMac := dest
  payloadLen := UInt16.ofNat (min len.toNat 512)
  payload := Vector.ofFn fun i => if i.val < len.toNat then data[i.val]?.getD 0 else 0
  timestamp := now

/-- The calls that change the queue. `junk` is what a variable of the caller holds before it is
set. -/
inductive QueueOp
  | enqueue (dest : Mac) (data : List UInt8) (len : UInt16) (now : UInt64) (junk : UInt32)
  | remove (target : RueEntry)

namespace QueueOp

/-- The buffer has the bytes that the call is told to read. -/
def WellFormed : QueueOp → Prop
  | enqueue _ data len _ _ => len.toNat ≤ data.length
  | remove _ => True

instance : DecidablePred WellFormed
  | enqueue _ data len _ _ => inferInstanceAs (Decidable (len.toNat ≤ data.length))
  | remove _ => inferInstanceAs (Decidable True)

/-- The call as the code makes it. -/
def apply (q : RueQueue) : QueueOp → Bool × RueQueue
  | enqueue dest data len now junk => q.enqueue dest (data.take len.toNat) now junk
  | remove target => q.removeEntry target

/-- The call as it is meant: what it returns, and the list after it. -/
def spec (es : List RueEntry) : QueueOp → Bool × List RueEntry
  | enqueue dest data len now _ => (true, es ++ [queuedEntry dest data len now])
  | remove target =>
    (es.any (RueQueue.isTarget target), es.eraseP (RueQueue.isTarget target))

end QueueOp

namespace RueQueue

/-- The queue after the calls of a run. -/
def afterOps (q : RueQueue) (ops : List QueueOp) : RueQueue :=
  ops.foldl (fun q op => (op.apply q).2) q

/-- The list after the calls of a run. -/
def specAfter (es : List RueEntry) (ops : List QueueOp) : List RueEntry :=
  ops.foldl (fun es op => (op.spec es).2) es

/-- The magic, the version, the number of entries and the entries. -/
def image (es : List RueEntry) : List UInt8 :=
  rueMagic ++ [rueVersion] ++ leBytes 4 es.length ++ es.flatMap RueEntry.toBytes

/-- The file is the image of the list. -/
def Represents (q : RueQueue) (es : List RueEntry) : Prop := q.file = some (image es)

/-! ## One call -/

theorem leBytes_ofNat (n : ℕ) : leBytes 4 (UInt32.ofNat n).toNat = leBytes 4 n := by
  have bytes (m : ℕ) : leBytes 4 (m % 256 ^ 4) = leBytes 4 m := by
    rw [← leNat_leBytes, leBytes_leNat (length_leBytes 4 m)]
  rw [UInt32.toNat_ofNat']
  exact bytes n

theorem rueHeader_ofNat (n : ℕ) :
    rueHeader (UInt32.ofNat n) = rueMagic ++ [rueVersion] ++ leBytes 4 n := by
  rw [rueHeader, leBytes_ofNat]

theorem image_eq (es : List RueEntry) :
    image es = rueHeader (UInt32.ofNat es.length) ++ es.flatMap RueEntry.toBytes := by
  rw [image, rueHeader_ofNat]

theorem getAll_of_represents {q : RueQueue} {es : List RueEntry} (h : q.Represents es) :
    q.getAll = es := by
  have file : q = ⟨some (image es)⟩ := congrArg RueQueue.mk h
  rw [file, image_eq]
  exact getAll_header_append _ _

theorem getPending_eq_filter (q : RueQueue) (dest : Mac) :
    q.getPending dest = q.getAll.filter fun e => e.destMac == dest := by
  unfold getPending getAll
  cases q.file <;> rfl

theorem removeFirst_eq (target : RueEntry) (es : List RueEntry) :
    removeFirst target es = (es.any (isTarget target), es.eraseP (isTarget target)) := by
  induction es with
  | nil => rfl
  | cons e es ih =>
    rw [removeFirst, List.any_cons, List.eraseP_cons, ih]
    cases isTarget target e <;> rfl

theorem getAll_removeEntry_eq (q : RueQueue) (target : RueEntry) :
    (q.removeEntry target).2.getAll = q.getAll.eraseP (isTarget target) := by
  rw [getAll_removeEntry, removeFirst_eq]
  cases found : q.getAll.any (isTarget target) with
  | true => rfl
  | false =>
    rw [if_neg Bool.false_ne_true, eq_comm, List.eraseP_eq_self_iff]
    simpa using found

/-- The entry of `enqueue` is the truncated buffer, filled up with zeros. -/
theorem entry_enqueue (dest : Mac) (data : List UInt8) {len : UInt16} (now : UInt64)
    (enough : len.toNat ≤ data.length) :
    (⟨dest, UInt16.ofNat ((data.take len.toNat).take maxPayloadSize).length,
      memcpy (Vector.replicate 512 0) 0 ((data.take len.toNat).take maxPayloadSize), now⟩ : RueEntry) =
      queuedEntry dest data len now := by
  have size : ((data.take len.toNat).take maxPayloadSize).length = min len.toNat 512 := by
    simp only [List.length_take, maxPayloadSize]
    omega
  have payload : memcpy (Vector.replicate 512 0) 0 ((data.take len.toNat).take maxPayloadSize) =
      (queuedEntry dest data len now).payload := by
    apply Vector.ext
    intro i hi
    rw [getElem_memcpy, queuedEntry, Vector.getElem_ofFn]
    by_cases inside : i < len.toNat
    · have here : i < data.length := by omega
      rw [dif_pos ⟨Nat.zero_le i, by rw [size]; omega⟩, if_pos inside]
      simp [here]
    · rw [dif_neg (by rw [size]; omega), if_neg inside, Vector.getElem_replicate]
  rw [payload, size]
  rfl

theorem readHeader_append (count : UInt32) (rest : List UInt8) :
    readHeader ⟨some (rueHeader count ++ rest)⟩ = some count := by
  have front : rueHeader count ++ rest = (rueMagic ++ [rueVersion]) ++
      (leBytes 4 count.toNat ++ rest) := List.append_assoc ..
  have read : ((rueHeader count ++ rest).drop 5).take 4 = leBytes 4 count.toNat := by
    rw [front]
    exact take_drop_append _ _ _ rfl (length_leBytes ..)
  have version : (rueHeader count ++ rest)[4]? = some rueVersion := by
    rw [front]
    rfl
  have long : ¬ (rueHeader count ++ rest).length < 9 := by
    rw [List.length_append, length_rueHeader]
    omega
  have lt : count.toNat < 256 ^ 4 := count.toNat_lt
  simp only [readHeader]
  rw [if_neg (not_or.2 ⟨not_not.2 version, long⟩), read, leNat_leBytes_of_lt lt,
    UInt32.ofNat_toNat]

theorem writeHeader_append (count count' : UInt32) (rest : List UInt8) :
    writeHeader ⟨some (rueHeader count ++ rest)⟩ count' =
      (true, ⟨some (rueHeader count' ++ rest)⟩) := by
  have five : (rueMagic ++ [rueVersion]).length = 5 := rfl
  have written := overwrite_append (rueMagic ++ [rueVersion]) (leBytes 4 count'.toNat)
    (leBytes 4 count.toNat ++ rest)
  have inside : 5 ≤ (rueHeader count ++ rest).length := by
    rw [List.length_append, length_rueHeader]
    omega
  rw [five, length_leBytes, List.drop_left' (length_leBytes ..), ← List.append_assoc] at written
  simp only [writeHeader, writeAt_of_le _ inside]
  exact congrArg (fun b => (true, RueQueue.mk (some b))) written

/-- The entry is counted and goes to the end of the file, whatever stands behind the header. -/
theorem enqueue_header_append (count : UInt32) (body : List UInt8) (dest : Mac) (data : List UInt8)
    {len : UInt16} (now : UInt64) (junk : UInt32) (enough : len.toNat ≤ data.length) :
    enqueue ⟨some (rueHeader count ++ body)⟩ dest (data.take len.toNat) now junk =
      (true, ⟨some (rueHeader (count + 1) ++ (body ++ (queuedEntry dest data len now).toBytes))⟩) := by
  have entry := entry_enqueue dest data now enough
  have counted : writeHeader ⟨some (rueHeader count ++ body)⟩
      ((readHeader ⟨some (rueHeader count ++ body)⟩).getD junk + 1) =
        (true, ⟨some (rueHeader (count + 1) ++ body)⟩) := by
    rw [readHeader_append, Option.getD_some, writeHeader_append]
  simp only [enqueue, Option.getD_some, counted, entry, List.append_assoc]

theorem enqueue_of_represents {q : RueQueue} {es : List RueEntry} (h : q.Represents es) (dest : Mac)
    (data : List UInt8) {len : UInt16} (now : UInt64) (junk : UInt32)
    (enough : len.toNat ≤ data.length) :
    (q.enqueue dest (data.take len.toNat) now junk).1 = true ∧
      (q.enqueue dest (data.take len.toNat) now junk).2.Represents
        (es ++ [queuedEntry dest data len now]) := by
  have file : q = ⟨some (image es)⟩ := congrArg RueQueue.mk h
  have next : UInt32.ofNat es.length + 1 = UInt32.ofNat (es.length + 1) := by
    simp [UInt32.ofNat_add]
  rw [file, image_eq, enqueue_header_append _ _ dest data now junk enough, next,
    ← List.flatMap_singleton RueEntry.toBytes, ← List.flatMap_append]
  refine ⟨rfl, ?_⟩
  rw [Represents, image_eq, List.length_append, List.length_singleton]

/-- A call of the code does to the file what the call is meant to do to the list. -/
theorem apply_of_represents {q : RueQueue} {es : List RueEntry} (h : q.Represents es) {op : QueueOp}
    (wf : op.WellFormed) :
    (op.apply q).1 = (op.spec es).1 ∧ (op.apply q).2.Represents (op.spec es).2 ∧
      ((op.spec es).1 = false → (op.apply q).2 = q) := by
  cases op with
  | enqueue dest data len now junk =>
    obtain ⟨ok, stored⟩ := enqueue_of_represents h dest data now junk wf
    exact ⟨ok, stored, fun h => absurd h Bool.noConfusion⟩
  | remove target =>
    simp only [QueueOp.apply, QueueOp.spec, removeEntry, getAll_of_represents h, removeFirst_eq]
    cases found : es.any (isTarget target) with
    | false =>
      have same : es.eraseP (isTarget target) = es := by
        rw [List.eraseP_eq_self_iff]
        simpa using found
      rw [same]
      exact ⟨rfl, h, fun _ => rfl⟩
    | true =>
      refine ⟨rfl, ?_, fun h => absurd h Bool.noConfusion⟩
      rw [Represents, image_eq]
      rfl

/-! ## Runs -/

/-- The file that a queue is constructed on, and the entries in it. -/
def ValidStart (file : Option (List UInt8)) (es : List RueEntry) : Prop :=
  file = none ∧ es = [] ∨ file = some (image es)

theorem represents_start {file : Option (List UInt8)} {es : List RueEntry}
    (valid : ValidStart file es) : (RueQueue.mk file).ensureHeader.2.Represents es := by
  rcases valid with ⟨rfl, rfl⟩ | rfl
  · rfl
  · rfl

theorem represents_afterOps {file : Option (List UInt8)} {es₀ : List RueEntry}
    (valid : ValidStart file es₀) {ops : List QueueOp} (wf : ∀ op ∈ ops, op.WellFormed) :
    (afterOps (RueQueue.mk file).ensureHeader.2 ops).Represents (specAfter es₀ ops) :=
  List.foldl_rel (represents_start valid) fun op hop _ _ h => (apply_of_represents h (wf op hop)).2.1

/-- After every run on a file that was absent or valid, the file is the image of the list, the readers
return the list and its part for a destination, and `remove_entry` fails exactly when no entry agrees
with its target, and then leaves the file as it is. -/
theorem refines_list (file : Option (List UInt8)) (es₀ : List RueEntry) (valid : ValidStart file es₀)
    (ops : List QueueOp) (wf : ∀ op ∈ ops, op.WellFormed)
    (few : (specAfter es₀ ops).length < 2 ^ 32) :
    let q := afterOps (RueQueue.mk file).ensureHeader.2 ops
    let es := specAfter es₀ ops
    q.file = some (rueMagic ++ [rueVersion] ++ leBytes 4 es.length ++ es.flatMap RueEntry.toBytes) ∧
      leNat (leBytes 4 es.length) = es.length ∧ (∀ e ∈ es, e.toBytes.length = 528) ∧
      q.getAll = es ∧ (∀ dest, q.getPending dest = es.filter fun e => e.destMac == dest) ∧
      ∀ target, (q.removeEntry target).1 = es.any (isTarget target) ∧
        (es.any (isTarget target) = false → (q.removeEntry target).2 = q) := by
  intro q es
  have h : q.Represents es := represents_afterOps valid wf
  refine ⟨h, leNat_leBytes_of_lt few, fun e _ => e.length_toBytes, getAll_of_represents h,
    fun dest => ?_, fun target => ?_⟩
  · rw [getPending_eq_filter, getAll_of_represents h]
  · have wf : (QueueOp.remove target).WellFormed := trivial
    obtain ⟨found, -, same⟩ := apply_of_represents h wf
    exact ⟨found, same⟩

/-- Two messages queued on a new file, the first of them removed. -/
def queuedTwice : List QueueOp :=
  [.enqueue (sampleMac 1) (text "hi") 2 100 0, .enqueue (sampleMac 2) (text "ho") 2 100 0,
    .remove { destMac := sampleMac 1, payloadLen := 2, timestamp := 100 }]

theorem refines_list_queuedTwice :
    (afterOps (RueQueue.mk none).ensureHeader.2 queuedTwice).getAll =
      [queuedEntry #v[2, 0, 0, 0, 0, 2] (text "ho") 2 100] := by
  have wf : ∀ op ∈ queuedTwice, op.WellFormed := by decide
  have one : specAfter [] queuedTwice = [queuedEntry #v[2, 0, 0, 0, 0, 2] (text "ho") 2 100] := rfl
  have refined := refines_list none [] (.inl ⟨rfl, rfl⟩) queuedTwice wf (by rw [one]; decide)
  exact one ▸ refined.2.2.2.1

/-! ## The length of the entries -/

/-- No entry is longer than a payload. -/
def NoneTooLong (es : List RueEntry) : Prop := ∀ e ∈ es, e.payloadLen.toNat ≤ maxPayloadSize

theorem noneTooLong_spec {es : List RueEntry} (short : NoneTooLong es) (op : QueueOp) :
    NoneTooLong (op.spec es).2 := by
  cases op with
  | enqueue dest data len now junk =>
    have limit : maxPayloadSize = 512 := rfl
    intro e he
    rcases List.mem_append.1 he with he | he
    · exact short e he
    · rw [List.mem_singleton.1 he, queuedEntry, UInt16.toNat_ofNat']
      omega
  | remove target => exact fun e he => short e (List.mem_of_mem_eraseP he)

theorem noneTooLong_specAfter {es : List RueEntry} (short : NoneTooLong es) (ops : List QueueOp) :
    NoneTooLong (specAfter es ops) := by
  induction ops generalizing es with
  | nil => exact short
  | cons op ops ih => exact ih (noneTooLong_spec short op)

/-! ## The entry that goes -/

/-- `remove_entry` succeeds, and takes an entry that is equal to its target out of the list. -/
def RemovesIt (q : RueQueue) (e : RueEntry) : Prop :=
  (q.removeEntry e).1 = true ∧
    ∃ i, q.getAll[i]? = some e ∧ (q.removeEntry e).2.getAll = q.getAll.eraseIdx i

@[simp] theorem isTarget_self (e : RueEntry) : isTarget e e = true := by
  simp [isTarget]

theorem removeEntry_of_mem {q : RueQueue} {e : RueEntry} (mem : e ∈ q.getAll) :
    (q.removeEntry e).1 = true := by
  have found : (removeFirst e q.getAll).1 = true := by
    rw [removeFirst_eq]
    exact List.any_eq_true.2 ⟨e, mem, isTarget_self e⟩
  simp only [removeEntry, found]
  rfl

/-- An entry of the queue is the one that `remove_entry` takes out for it exactly when it is the first
of the entries with its destination, length and timestamp. -/
theorem removesIt_iff {q : RueQueue} {e : RueEntry} (mem : e ∈ q.getAll) :
    q.RemovesIt e ↔ q.getAll.find? (isTarget e) = some e := by
  rw [RemovesIt, removeEntry_of_mem mem, getAll_removeEntry_eq]
  simp only [true_and]
  exact Drain.eraseP_eq_eraseIdx_iff mem (isTarget_self e)

/-- Two messages of two bytes that are queued for a node within a second. -/
def twoAtOnce : RueQueue :=
  ⟨some (image [queuedEntry (sampleMac 1) (text "hi") 2 100,
    queuedEntry (sampleMac 1) (text "ho") 2 100])⟩

theorem getAll_twoAtOnce :
    twoAtOnce.getAll = [queuedEntry #v[2, 0, 0, 0, 0, 1] (text "hi") 2 100,
      queuedEntry #v[2, 0, 0, 0, 0, 1] (text "ho") 2 100] :=
  getAll_of_represents (show Represents twoAtOnce _ from rfl)

theorem removesIt_iff_twoAtOnce :
    twoAtOnce.RemovesIt (queuedEntry #v[2, 0, 0, 0, 0, 1] (text "hi") 2 100) :=
  (removesIt_iff (by rw [getAll_twoAtOnce]; exact List.mem_cons_self)).2 (by
    rw [getAll_twoAtOnce, List.find?_cons_of_pos (isTarget_self _)])

/-- The first message goes when the second is to be removed. -/
theorem other_message_removed :
    ¬ twoAtOnce.RemovesIt (queuedEntry #v[2, 0, 0, 0, 0, 1] (text "ho") 2 100) := by
  rintro ⟨-, i, here, left⟩
  rw [getAll_removeEntry_eq] at left
  rw [getAll_twoAtOnce] at here left
  have first := (Drain.eraseP_eq_eraseIdx_iff (List.mem_of_getElem? here) (isTarget_self _)).1
    ⟨i, here, left⟩
  have alike : isTarget (queuedEntry #v[2, 0, 0, 0, 0, 1] (text "ho") 2 100)
      (queuedEntry #v[2, 0, 0, 0, 0, 1] (text "hi") 2 100) = true := rfl
  rw [List.find?_cons_of_pos alike, Option.some_inj] at first
  have second := congrArg (fun e => e.payload[1]) first
  simp only [queuedEntry, Vector.getElem_ofFn] at second
  revert second
  decide

/-! ## When `remove_entry` is stopped -/

/-- The queue when `remove_entry` has written `written` bytes of the new file. -/
def removeEntryStopped (q : RueQueue) (target : RueEntry) (written : ℕ) : RueQueue :=
  let r := q.removeEntry target
  if r.1 then { file := r.2.file.map (List.take written) } else q

theorem readEntries_take (es : List RueEntry) (n : ℕ) :
    readEntries ((es.flatMap RueEntry.toBytes).take n) = es.take (n / 528) := by
  have records : ((es.flatMap RueEntry.toBytes).take n).length / 528 = min (n / 528) es.length := by
    rw [List.length_take, length_flatMap_toBytes]
    omega
  apply List.ext_getElem
  · rw [readEntries, List.length_map, List.length_range, RueEntry.recordSize, records,
      List.length_take]
  · intro i _ hi
    rw [List.length_take] at hi
    have whole : n - 528 * i = 528 + (n - 528 * i - 528) := by omega
    have here : i < es.length := by omega
    simp only [readEntries, List.getElem_map, List.getElem_range, RueEntry.recordSize,
      List.getElem_take]
    rw [List.drop_take, drop_flatMap_toBytes, List.drop_eq_getElem_cons here, List.flatMap_cons,
      whole, List.take_append, RueEntry.length_toBytes, List.take_of_length_le (by simp),
      RueEntry.ofBytes_toBytes_append]

theorem getAll_take_image (es : List RueEntry) (n : ℕ) :
    getAll ⟨some ((image es).take n)⟩ = es.take ((n - 9) / 528) := by
  simp only [getAll]
  rw [image_eq, List.drop_take, List.drop_left' (length_rueHeader _), readEntries_take]

/-- After a stop the entries other than the target are all returned by the queue that is opened
next. -/
def Survives (q : RueQueue) (target : RueEntry) (written : ℕ) : Prop :=
  (q.getAll.eraseP (isTarget target)).Sublist (q.removeEntryStopped target written).ensureHeader.2.getAll

/-- A stopped `remove_entry` loses no other entry exactly when there is nothing to remove, nothing
else in the queue, or the whole of the new file has been written. -/
theorem survives_iff {q : RueQueue} {es : List RueEntry} (h : q.Represents es) (target : RueEntry)
    (written : ℕ) :
    q.Survives target written ↔
      es.any (isTarget target) = false ∨ es.length ≤ 1 ∨ 9 + 528 * (es.length - 1) ≤ written := by
  have wf : (QueueOp.remove target).WellFormed := trivial
  obtain ⟨result, stored, -⟩ := apply_of_represents h wf
  simp only [QueueOp.apply, QueueOp.spec] at result stored
  rw [Survives, getAll_of_represents h, removeEntryStopped, result]
  cases found : es.any (isTarget target) with
  | false =>
    have file : q = ⟨some (image es)⟩ := congrArg RueQueue.mk h
    have same : es.eraseP (isTarget target) = es := by
      rw [List.eraseP_eq_self_iff]
      simpa using found
    have kept : q.ensureHeader.2.getAll = es := by
      rw [← getAll_of_represents h, file]
      rfl
    rw [same]
    exact iff_of_true (kept.symm ▸ List.Sublist.refl es) (.inl rfl)
  | true =>
    have rewritten : (RueQueue.mk (some ((image (es.eraseP (isTarget target))).take written))
        ).ensureHeader.2.getAll = (es.eraseP (isTarget target)).take ((written - 9) / 528) :=
      getAll_take_image _ _
    have fewer : (es.eraseP (isTarget target)).length = es.length - 1 := by
      rw [List.length_eraseP, if_pos found]
    have all (l : List RueEntry) (n : ℕ) : l.Sublist (l.take n) ↔ l.length ≤ n := by
      refine ⟨fun h => ?_, fun h => (List.take_of_length_le h).symm ▸ List.Sublist.refl l⟩
      have := h.length_le
      rw [List.length_take] at this
      omega
    simp only [if_true]
    rw [stored, Option.map_some, rewritten, all, fewer, Bool.true_eq_false, false_or]
    omega

/-- Two queued messages, the first of which is to be removed. -/
def twoQueued : List RueEntry :=
  [{ destMac := sampleMac 1, payloadLen := 2 },
    { destMac := sampleMac 2, payloadLen := 2 }]

theorem survives_iff_twoQueued :
    Survives ⟨some (image twoQueued)⟩ { destMac := #v[2, 0, 0, 0, 0, 1], payloadLen := 2 } 537 :=
  (survives_iff (show Represents ⟨some (image twoQueued)⟩ twoQueued from rfl) _ 537).2
    (.inr (.inr (by decide)))

/-- When the process is killed after it has opened the file for writing, the second message is lost
too. -/
theorem truncated_queue_does_not_survive :
    ¬ Survives ⟨some (image twoQueued)⟩ { destMac := #v[2, 0, 0, 0, 0, 1], payloadLen := 2 } 0 := by
  unfold Survives
  decide +kernel

end RueQueue

end Araba
