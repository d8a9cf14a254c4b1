import Araba.Packet

/-!
# The queue file

`RueQueue` of `persistence.cpp`. The file is its bytes, or `none` when there is no such file; the
operations of the file system on it succeed.
-/

namespace Araba

open Bytes

/-- `RUE_MAGIC`, with the NUL that ends it. -/
def rueMagic : List UInt8 := text "RUE" ++ [0]

/-- `RUE_VERSION`. -/
def rueVersion : UInt8 := 0x01

/-- `struct RueEntry`: a message for a destination, and when it was stored. -/
structure RueEntry where
  destMac : Mac := Vector.replicate 6 0
  payloadLen : UInt16 := 0
  payload : Vector UInt8 512 := Vector.replicate 512 0
  timestamp : UInt64 := 0
  deriving DecidableEq

namespace RueEntry

/-- The four writes of `enqueue`: 528 bytes. -/
def toBytes (e : RueEntry) : List UInt8 :=
  e.destMac.toList ++ leBytes 2 e.payloadLen.toNat ++ e.payload.toList ++
    leBytes 8 e.timestamp.toNat

/-- The bytes that an entry takes in the file. -/
def recordSize : ℕ := 528

/-- The four reads of `get_all`, from the bytes at the front of `b`. -/
def ofBytes (b : List UInt8) : RueEntry where
  destMac := Vector.ofFn fun i => b[0 + i.val]?.getD 0
  payloadLen := UInt16.ofNat (leNat ((b.drop 6).take 2))
  payload := Vector.ofFn fun i => b[8 + i.val]?.getD 0
  timestamp := UInt64.ofNat (leNat ((b.drop 520).take 8))

@[simp] theorem length_toBytes (e : RueEntry) : e.toBytes.length = 528 := by
  simp [toBytes]

theorem payloadLen_ofBytes (b : List UInt8) :
    (ofBytes b).payloadLen.toNat = leNat ((b.drop 6).take 2) := by
  rw [ofBytes, UInt16.toNat_ofNat']
  exact Nat.mod_eq_of_lt (leNat_take_lt 2 _)

theorem timestamp_ofBytes (b : List UInt8) :
    (ofBytes b).timestamp.toNat = leNat ((b.drop 520).take 8) := by
  rw [ofBytes, UInt64.toNat_ofNat']
  exact Nat.mod_eq_of_lt (leNat_take_lt 8 _)

theorem ofBytes_toBytes_append (e : RueEntry) (rest : List UInt8) :
    ofBytes (e.toBytes ++ rest) = e := by
  obtain ⟨destMac, payloadLen, payload, timestamp⟩ := e
  have len : leNat (leBytes 2 payloadLen.toNat) = payloadLen.toNat :=
    leNat_leBytes_of_lt payloadLen.toNat_lt
  have time : leNat (leBytes 8 timestamp.toNat) = timestamp.toNat :=
    leNat_leBytes_of_lt timestamp.toNat_lt
  simp only [ofBytes, toBytes, RueEntry.mk.injEq]
  refine ⟨?_, ?_, ?_, ?_⟩
  · rw [List.append_assoc, List.append_assoc, List.append_assoc]
    exact ofFn_getElem?_append [] _ destMac 0 rfl
  · rw [List.append_assoc, List.append_assoc, List.append_assoc,
      take_drop_append _ _ _ (by simp) (by simp), len]
    exact UInt16.ofNat_toNat
  · rw [List.append_assoc, List.append_assoc]
    exact ofFn_getElem?_append _ _ payload 0 (by simp)
  · rw [List.append_assoc, take_drop_append _ _ _ (by simp) (by simp), time]
    exact UInt64.ofNat_toNat

end RueEntry

/-- The records of a file from `b` on: a record that is cut short ends the reading. -/
def readEntries (b : List UInt8) : List RueEntry :=
  (List.range (b.length / RueEntry.recordSize)).map fun i =>
    RueEntry.ofBytes (b.drop (RueEntry.recordSize * i))

/-- The bytes of a header. -/
def rueHeader (count : UInt32) : List UInt8 := rueMagic ++ [rueVersion] ++ leBytes 4 count.toNat

/-- `class RueQueue`: the bytes of its file, if there is one. -/
structure RueQueue where
  file : Option (List UInt8)

namespace RueQueue

/-- The constructor's call: a file that is not there is created; the result is only reported. -/
def ensureHeader (q : RueQueue) : Bool × RueQueue :=
  match q.file with
  | none => (true, { file := some (rueHeader 0) })
  | some b => (b.take 4 == rueMagic, q)

/-- The count, unless the file is missing, too short or of another version. -/
def readHeader (q : RueQueue) : Option UInt32 :=
  match q.file with
  | none => none
  | some b =>
    if b[4]? ≠ some rueVersion ∨ b.length < 9 then none
    else some (UInt32.ofNat (leNat ((b.drop 5).take 4)))

/-- Four bytes are written behind the version, also where the file is shorter than that. -/
def writeHeader (q : RueQueue) (count : UInt32) : Bool × RueQueue :=
  match q.file with
  | none => (false, q)
  | some b => (true, { file := some (writeAt b 5 (leBytes 4 count.toNat)) })

/-- The call in the order in which it reaches the file. The stream that it opens first creates a
file that is not there, but keeps the record in its buffer until it is destroyed, which is after the
count has been read and written. `junk` is what the variable `count` holds when `read_header` fails. -/
def enqueue (q : RueQueue) (dest : Mac) (data : List UInt8) (now : UInt64) (junk : UInt32) :
    Bool × RueQueue :=
  let data := data.take maxPayloadSize
  let entry : RueEntry :=
    { destMac := dest
      payloadLen := UInt16.ofNat data.length
      payload := memcpy (Vector.replicate 512 0) 0 data
      timestamp := now }
  let q : RueQueue := { file := some (q.file.getD []) }
  let count := (q.readHeader.getD junk) + 1
  let written := q.writeHeader count
  (written.1, { file := some (written.2.file.getD [] ++ entry.toBytes) })

/-- `get_all`: the entries behind the header, whatever the header says. -/
def getAll (q : RueQueue) : List RueEntry :=
  match q.file with
  | none => []
  | some b => readEntries (b.drop 9)

/-- `get_pending`: the entries for the destination, in the order of the file. -/
def getPending (q : RueQueue) (dest : Mac) : List RueEntry :=
  match q.file with
  | none => []
  | some b => (readEntries (b.drop 9)).filter fun e => e.destMac == dest

/-- Whether `remove_entry` takes the entry for its target. -/
def isTarget (target e : RueEntry) : Bool :=
  e.destMac == target.destMac && e.timestamp == target.timestamp &&
    e.payloadLen == target.payloadLen

/-- The loop of `remove_entry`: whether an entry was found, and the entries that are kept. -/
def removeFirst (target : RueEntry) : List RueEntry → Bool × List RueEntry
  | [] => (false, [])
  | e :: es =>
    if isTarget target e then (true, es)
    else
      let rest := removeFirst target es
      (rest.1, e :: rest.2)

/-- `remove_entry`: without the first entry that is the target, the file is written anew. -/
def removeEntry (q : RueQueue) (target : RueEntry) : Bool × RueQueue :=
  let filtered := removeFirst target q.getAll
  if !filtered.1 then (false, q)
  else
    (true,
      { file := some (rueHeader (UInt32.ofNat filtered.2.length) ++
          filtered.2.flatMap RueEntry.toBytes) })

/-! ## What is read back -/

theorem length_flatMap_toBytes (es : List RueEntry) :
    (es.flatMap RueEntry.toBytes).length = 528 * es.length :=
  length_flatMap_of_length RueEntry.length_toBytes es

theorem drop_flatMap_toBytes (es : List RueEntry) (i : ℕ) :
    (es.flatMap RueEntry.toBytes).drop (528 * i) = (es.drop i).flatMap RueEntry.toBytes :=
  drop_flatMap_of_length RueEntry.length_toBytes es i

theorem readEntries_flatMap (es : List RueEntry) :
    readEntries (es.flatMap RueEntry.toBytes) = es := by
  apply List.ext_getElem
  · simp [readEntries, RueEntry.recordSize]
  · intro i _ hi
    simp only [readEntries, List.getElem_map, List.getElem_range, RueEntry.recordSize]
    rw [drop_flatMap_toBytes, List.drop_eq_getElem_cons hi, List.flatMap_cons,
      RueEntry.ofBytes_toBytes_append]

theorem length_rueHeader (count : UInt32) : (rueHeader count).length = 9 := by
  rw [rueHeader, List.length_append, length_leBytes]
  rfl

theorem getAll_header_append (count : UInt32) (es : List RueEntry) :
    getAll ⟨some (rueHeader count ++ es.flatMap RueEntry.toBytes)⟩ = es := by
  simp only [getAll]
  rw [List.drop_left' (length_rueHeader count), readEntries_flatMap]

theorem getAll_removeEntry (q : RueQueue) (target : RueEntry) :
    (q.removeEntry target).2.getAll =
      if (removeFirst target q.getAll).1 then (removeFirst target q.getAll).2 else q.getAll := by
  simp only [removeEntry]
  cases found : (removeFirst target q.getAll).1 with
  | false => rfl
  | true => exact getAll_header_append _ _

/-- Four bytes are written where the count should be, and then a record goes to the end of the file. -/
theorem exists_enqueue (q : RueQueue) (dest : Mac) (data : List UInt8) (now : UInt64)
    (junk : UInt32) :
    ∃ (e : RueEntry) (count : UInt32), q.enqueue dest data now junk =
      (true, ⟨some (writeAt (q.file.getD []) 5 (leBytes 4 count.toNat) ++ e.toBytes)⟩) :=
  ⟨_, _, rfl⟩

/-- The file grows by a record, and by what is wanting of a header. -/
theorem length_file_enqueue (q : RueQueue) (dest : Mac) (data : List UInt8) (now : UInt64)
    (junk : UInt32) :
    ((q.enqueue dest data now junk).2.file.getD []).length =
      max (q.file.getD []).length 9 + 528 := by
  obtain ⟨e, count, call⟩ := q.exists_enqueue dest data now junk
  rw [call, Option.getD_some, List.length_append, length_writeAt, length_leBytes,
    RueEntry.length_toBytes]

end RueQueue

end Araba
