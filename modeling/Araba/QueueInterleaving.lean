import Araba.Lib.Drain
import Araba.QueueFile

/-!
# Two threads on the queue file

The main thread queues messages while the network thread works off the entries for a node that it
has heard from. Each operation on the file is one step, in the order in which they reach the file:
`enqueue` takes three of them and `remove_entry` two, and no mutex is held by the main thread in
between.
-/

namespace Araba

open Bytes RueQueue

namespace RueQueue

/-! ## The operations on the file -/

/-- The entry that `enqueue` writes. -/
def enqueuedEntry (dest : Mac) (data : List UInt8) (now : UInt64) : RueEntry where
  destMac := dest
  payloadLen := UInt16.ofNat (data.take maxPayloadSize).length
  payload := memcpy (Vector.replicate 512 0) 0 (data.take maxPayloadSize)
  timestamp := now

/-- The stream is opened for appending, which creates a file that is not there. -/
def opened (q : RueQueue) : RueQueue := { file := some (q.file.getD []) }

/-- The record leaves the buffer of the stream. -/
def append (q : RueQueue) (e : RueEntry) : RueQueue := { file := some (q.file.getD [] ++ e.toBytes) }

/-- The count that `enqueue` is going to write. -/
def nextCount (q : RueQueue) (junk : UInt32) : UInt32 := q.readHeader.getD junk + 1

/-- The file is truncated and written anew. -/
def rewrite (es : List RueEntry) : RueQueue where
  file := some (rueHeader (UInt32.ofNat es.length) ++ es.flatMap RueEntry.toBytes)

/-- `enqueue` reads the count, writes the next one and then appends the record. -/
theorem enqueue_eq (q : RueQueue) (dest : Mac) (data : List UInt8) (now : UInt64) (junk : UInt32) :
    q.enqueue dest data now junk =
      let written := q.opened.writeHeader (q.opened.nextCount junk)
      (written.1, written.2.append (enqueuedEntry dest data now)) :=
  rfl

/-- `remove_entry` reads the entries and then rewrites the file. -/
theorem removeEntry_eq (q : RueQueue) (target : RueEntry) :
    q.removeEntry target =
      if !(removeFirst target q.getAll).1 then (false, q)
      else (true, rewrite (removeFirst target q.getAll).2) :=
  rfl

end RueQueue

/-- Where the main thread is: `e` is in the buffer of the stream, and `ok` is what the call will
return. -/
inductive MainPoint
  | idle
  | counted (e : RueEntry) (count : UInt32)
  | written (e : RueEntry) (ok : Bool)
  deriving DecidableEq

/-- Where the network thread is: `todo` is what is left of the entries that `get_pending` returned
for `dest`, and `filtered` is to be written. -/
inductive NetworkPoint
  | idle
  | delivering (dest : Mac) (todo : List RueEntry)
  | rewriting (dest : Mac) (target : RueEntry) (filtered todo : List RueEntry)
  deriving DecidableEq

/-- The queue and the two threads, with the entries whose `enqueue` returned true and the targets of
`remove_entry` so far. -/
structure SharedQueue where
  queue : RueQueue
  main : MainPoint := .idle
  network : NetworkPoint := .idle
  enqueued : List RueEntry := []
  targets : List RueEntry := []

/-- An operation on the file, or the end of the network thread's loop. -/
inductive FileStep
  | readCount (dest : Mac) (data : List UInt8) (now : UInt64) (junk : UInt32)
  | writeCount
  | append
  | getPending (dest : Mac)
  | readAll
  | rewrite
  | finish

namespace SharedQueue

/-- What a step does, if its thread is where it can make it. -/
def step (s : SharedQueue) : FileStep → Option SharedQueue
  | .readCount dest data now junk =>
    match s.main with
    | .idle =>
      some { s with
        queue := s.queue.opened
        main := .counted (enqueuedEntry dest data now) (s.queue.opened.nextCount junk) }
    | _ => none
  | .writeCount =>
    match s.main with
    | .counted e count =>
      let r := s.queue.writeHeader count
      some { s with
        queue := r.2
        main := .written e r.1 }
    | _ => none
  | .append =>
    match s.main with
    | .written e ok =>
      some { s with
        queue := s.queue.append e
        main := .idle
        enqueued := if ok then s.enqueued ++ [e] else s.enqueued }
    | _ => none
  | .getPending dest =>
    match s.network with
    | .idle => some { s with network := .delivering dest (s.queue.getPending dest) }
    | _ => none
  | .readAll =>
    match s.network with
    | .delivering dest (target :: todo) =>
      let r := removeFirst target s.queue.getAll
      some { s with
        network := if r.1 then .rewriting dest target r.2 todo else .delivering dest todo
        targets := s.targets ++ [target] }
    | _ => none
  | .rewrite =>
    match s.network with
    | .rewriting dest _ filtered todo =>
      some { s with
        queue := RueQueue.rewrite filtered
        network := .delivering dest todo }
    | _ => none
  | .finish =>
    match s.network with
    | .delivering _ [] => some { s with network := .idle }
    | _ => none

/-- The states that runs from a valid file reach in which every step meets `ok`. -/
inductive Run (ok : SharedQueue → FileStep → Prop) (es₀ : List RueEntry) : SharedQueue → Prop
  | start : Run ok es₀ { queue := ⟨some (image es₀)⟩ }
  | step {s s'} (h : Run ok es₀ s) (op : FileStep) (meets : ok s op) (made : s.step op = some s') :
      Run ok es₀ s'

/-- Both threads are done. -/
def Finished (s : SharedQueue) : Prop := s.main = .idle ∧ s.network = .idle

/-- Every entry that was queued is there or was the target of a `remove_entry`, and the header says how
many there are. -/
def NoLostUpdate (es₀ : List RueEntry) (s : SharedQueue) : Prop :=
  (∀ e, (es₀ ++ s.enqueued).count e ≤ s.queue.getAll.count e + s.targets.count e) ∧
    s.queue.readHeader = some (UInt32.ofNat s.queue.getAll.length)

/-- No entry is appended between a `remove_entry`'s reading and its rewriting, and nothing is rewritten
between an `enqueue`'s reading of the count and its appending. -/
def Apart (s : SharedQueue) : FileStep → Prop
  | .append => ∀ dest target filtered todo, s.network ≠ .rewriting dest target filtered todo
  | .rewrite => s.main = .idle
  | _ => True

/-! ## The invariant -/

/-- The count in the file is the number of entries, or one more when it has been written for an entry
that is still in the buffer. -/
def CountOk (count : UInt32) (es : List RueEntry) : MainPoint → Prop
  | .idle => count = UInt32.ofNat es.length
  | .counted _ next => count = UInt32.ofNat es.length ∧ next = UInt32.ofNat (es.length + 1)
  | .written _ _ => count = UInt32.ofNat (es.length + 1)

/-- What the network thread has still to do is at the front of what the file has for the node. -/
def TodoOk (es : List RueEntry) : NetworkPoint → Prop
  | .idle => True
  | .delivering dest todo => ∃ later, es.filter (fun e => e.destMac == dest) = todo ++ later
  | .rewriting dest target filtered todo =>
    (∃ later, es.filter (fun e => e.destMac == dest) = target :: (todo ++ later)) ∧
      filtered = es.eraseP (isTarget target)

/-- The targets that are still in the file. -/
def toRemove : NetworkPoint → List RueEntry
  | .rewriting _ target _ _ => [target]
  | _ => []

/-- The file is a header and entries, and the threads agree with them. -/
def Inv (es₀ : List RueEntry) (s : SharedQueue) : Prop :=
  ∃ count es, s.queue.file = some (rueHeader count ++ es.flatMap RueEntry.toBytes) ∧
    CountOk count es s.main ∧ TodoOk es s.network ∧
    ∀ e, (es₀ ++ s.enqueued).count e + (toRemove s.network).count e ≤
      es.count e + s.targets.count e

theorem getAll_of_file {q : RueQueue} {count : UInt32} {es : List RueEntry}
    (file : q.file = some (rueHeader count ++ es.flatMap RueEntry.toBytes)) : q.getAll = es := by
  have e : q = ⟨some (rueHeader count ++ es.flatMap RueEntry.toBytes)⟩ := congrArg RueQueue.mk file
  rw [e]
  exact getAll_header_append _ _

theorem file_append {q : RueQueue} {count : UInt32} {es : List RueEntry} (e : RueEntry)
    (file : q.file = some (rueHeader count ++ es.flatMap RueEntry.toBytes)) :
    (q.append e).file = some (rueHeader count ++ (es ++ [e]).flatMap RueEntry.toBytes) := by
  rw [RueQueue.append, file, List.flatMap_append, List.flatMap_singleton, ← List.append_assoc]
  rfl

theorem ofNat_succ (n : ℕ) : UInt32.ofNat n + 1 = UInt32.ofNat (n + 1) := by
  simp [UInt32.ofNat_add]

variable {es₀ : List RueEntry}

/-- One step keeps the invariant. -/
theorem inv_step {s s' : SharedQueue} (inv : Inv es₀ s) {op : FileStep} (apart : Apart s op)
    (made : s.step op = some s') : Inv es₀ s' := by
  obtain ⟨queue, main, network, enqueued, targets⟩ := s
  obtain ⟨count, es, file, counted, todo, account⟩ := inv
  simp only at file counted todo account
  have whole : queue = ⟨some (rueHeader count ++ es.flatMap RueEntry.toBytes)⟩ :=
    congrArg RueQueue.mk file
  cases op with
  | readCount dest data now junk =>
    cases main with
    | idle =>
      obtain rfl := Option.some.inj made
      have same : queue.opened = queue := by
        rw [opened, file, Option.getD_some, ← file]
      have read : queue.readHeader = some count := by
        rw [whole]
        exact readHeader_append _ _
      have counted : count = UInt32.ofNat es.length := counted
      refine ⟨count, es, ?_, ⟨counted, ?_⟩, todo, account⟩
      · exact same ▸ file
      · rw [same, nextCount, read, Option.getD_some, counted, ofNat_succ]
    | counted => cases made
    | written => cases made
  | writeCount =>
    cases main with
    | counted e next =>
      obtain rfl := Option.some.inj made
      have written : queue.writeHeader next =
          (true, ⟨some (rueHeader next ++ es.flatMap RueEntry.toBytes)⟩) := by
        rw [whole]
        exact writeHeader_append _ _ _
      refine ⟨next, es, ?_, counted.2, todo, account⟩
      simp only [written]
    | idle => cases made
    | written => cases made
  | append =>
    cases main with
    | written e ok =>
      obtain rfl := Option.some.inj made
      refine ⟨count, es ++ [e], file_append e file, ?_, ?_, fun x => ?_⟩
      · have counted : count = UInt32.ofNat (es.length + 1) := counted
        rw [CountOk, counted, List.length_append, List.length_singleton]
      · cases network with
        | idle => trivial
        | delivering dest' todo' =>
          obtain ⟨later, front⟩ := todo
          exact ⟨later ++ [e].filter fun e => e.destMac == dest', by
            rw [List.filter_append, front, List.append_assoc]⟩
        | rewriting dest' target filtered todo' => exact absurd rfl (apart dest' target filtered todo')
      · have := account x
        cases ok with
        | true =>
          simp only [if_true, List.count_append] at this ⊢
          omega
        | false =>
          simp only [Bool.false_eq_true, if_false, List.count_append] at this ⊢
          omega
    | idle => cases made
    | counted => cases made
  | getPending dest =>
    cases network with
    | idle =>
      obtain rfl := Option.some.inj made
      refine ⟨count, es, file, counted, ⟨[], ?_⟩, account⟩
      rw [getPending_eq_filter, getAll_of_file file, List.append_nil]
    | delivering => cases made
    | rewriting => cases made
  | readAll =>
    cases network with
    | delivering dest todo' =>
      cases todo' with
      | cons target todo' =>
        obtain rfl := Option.some.inj made
        obtain ⟨later, front⟩ := todo
        have mem : target ∈ es.filter fun e => e.destMac == dest := by
          rw [front]
          exact List.mem_cons_self
        have found : es.any (isTarget target) = true :=
          List.any_eq_true.2 ⟨target, (List.mem_filter.1 mem).1, by simp [isTarget]⟩
        simp only [getAll_of_file file, removeFirst_eq, found, if_true]
        refine ⟨count, es, file, counted, ⟨⟨later, front⟩, rfl⟩, fun x => ?_⟩
        have := account x
        simp only [toRemove, List.count_nil, List.count_append] at this ⊢
        omega
      | nil => cases made
    | idle => cases made
    | rewriting => cases made
  | rewrite =>
    cases network with
    | rewriting dest target filtered todo' =>
      obtain rfl := Option.some.inj made
      obtain ⟨⟨later, front⟩, rfl⟩ := todo
      obtain rfl : main = .idle := apart
      have mem : target ∈ es.filter fun e => e.destMac == dest := by
        rw [front]
        exact List.mem_cons_self
      have only (x : RueEntry) (h : isTarget target x = true) : (x.destMac == dest) = true := by
        have mine := (List.mem_filter.1 mem).2
        simp only [isTarget, Bool.and_eq_true, beq_iff_eq] at h mine ⊢
        rw [h.1.1, mine]
      have meets : isTarget target target = true := by simp [isTarget]
      refine ⟨_, es.eraseP (isTarget target), rfl, rfl, ⟨later, ?_⟩, fun x => ?_⟩
      · exact Drain.filter_eraseP front only meets
      · have := account x
        have split := (Drain.perm_eraseP front only meets).count_eq x
        rw [← List.singleton_append, List.count_append] at split
        simp only [toRemove, List.count_nil] at this ⊢
        omega
    | idle => cases made
    | delivering => cases made
  | finish =>
    cases network with
    | delivering dest todo' =>
      cases todo' with
      | nil =>
        obtain rfl := Option.some.inj made
        exact ⟨count, es, file, counted, trivial, account⟩
      | cons => cases made
    | idle => cases made
    | rewriting => cases made

/-- In every run whose steps are apart, the invariant holds. -/
theorem inv_of_run {s : SharedQueue} (h : Run Apart es₀ s) : Inv es₀ s := by
  induction h with
  | start =>
    refine ⟨_, es₀, congrArg some (image_eq es₀), rfl, trivial, fun e => ?_⟩
    simp [toRemove]
  | step _ op apart made ih => exact inv_step ih apart made

theorem step_getPending {s : SharedQueue} (idle : s.network = .idle) (dest : Mac) :
    s.step (.getPending dest) =
      some { s with network := .delivering dest (s.queue.getPending dest) } := by
  simp only [step, idle]

theorem step_readAll {s : SharedQueue} {dest : Mac} {target : RueEntry} {todo : List RueEntry}
    (here : s.network = .delivering dest (target :: todo)) :
    s.step .readAll = some { s with
      network := if (removeFirst target s.queue.getAll).1 then
          .rewriting dest target (removeFirst target s.queue.getAll).2 todo
        else .delivering dest todo
      targets := s.targets ++ [target] } := by
  simp only [step, here]

/-- A queue with one entry. -/
def oneEntry : SharedQueue := { queue := ⟨some (image [{ destMac := sampleMac 1 }])⟩ }

/-- The network thread has read the file for the removal of the entry. -/
def removing : SharedQueue :=
  { oneEntry with
    network := .rewriting (sampleMac 1) { destMac := sampleMac 1 } [] []
    targets := [{ destMac := sampleMac 1 }] }

theorem run_removing {ok : SharedQueue → FileStep → Prop}
    (get : ∀ s dest, ok s (.getPending dest)) (read : ∀ s, ok s .readAll) :
    Run ok [{ destMac := sampleMac 1 }] removing := by
  have all : oneEntry.queue.getAll = [{ destMac := sampleMac 1 }] :=
    getAll_of_represents (show Represents oneEntry.queue _ from rfl)
  let delivering : SharedQueue := { oneEntry with
    network := .delivering (sampleMac 1) [{ destMac := sampleMac 1 }] }
  have pending : oneEntry.step (.getPending (sampleMac 1)) = some delivering := by
    rw [step_getPending rfl, getPending_eq_filter, all]
    rfl
  have reads : delivering.step .readAll = some removing := by
    rw [step_readAll rfl, show delivering.queue.getAll = _ from all]
    rfl
  exact .step (.step .start _ (get _ _) pending) _ (read _) reads

/-- In every run whose steps are apart, no update is lost when both threads are done. -/
theorem noLostUpdate_of_apart {s : SharedQueue} (h : Run Apart es₀ s) (done : s.Finished) :
    NoLostUpdate es₀ s := by
  obtain ⟨count, es, file, counted, -, account⟩ := inv_of_run h
  have whole : s.queue = ⟨some (rueHeader count ++ es.flatMap RueEntry.toBytes)⟩ :=
    congrArg RueQueue.mk file
  rw [done.1] at counted
  have counted : count = UInt32.ofNat es.length := counted
  refine ⟨fun e => ?_, ?_⟩
  · have := account e
    rw [done.2] at this
    rw [getAll_of_file file]
    simpa [toRemove] using this
  · rw [getAll_of_file file, whole, readHeader_append, counted]

/-- The main thread queues a message as soon as the file has been rewritten, and the network thread
goes on in between. -/
theorem noLostUpdate_of_apart_removed :
    ∃ s, s.Finished ∧ s.targets.length = 1 ∧ s.enqueued.length = 1 ∧
      NoLostUpdate [{ destMac := #v[2, 0, 0, 0, 0, 1] }] s := by
  have before : Run Apart [{ destMac := sampleMac 1 }] removing :=
    run_removing (fun _ _ => trivial) fun _ => trivial
  have free : ∀ dest target filtered todo,
      NetworkPoint.idle ≠ .rewriting dest target filtered todo := fun _ _ _ _ h => nomatch h
  have counted : Run Apart [{ destMac := sampleMac 1 }] _ :=
    .step (.step before .rewrite rfl rfl)
      (.readCount (sampleMac 2) (text "hi") 100 0) trivial rfl
  have written : Run Apart [{ destMac := sampleMac 1 }] _ :=
    .step (.step counted .finish trivial rfl) .writeCount trivial rfl
  have returned : Run Apart [{ destMac := sampleMac 1 }] _ := .step written .append free rfl
  exact ⟨_, ⟨rfl, rfl⟩, rfl, rfl, noLostUpdate_of_apart returned ⟨rfl, rfl⟩⟩

/-- A message that is queued between the reading and the rewriting of a `remove_entry` is not in the
file, though its `enqueue` returned true. -/
theorem overtaken_message_lost :
    ∃ s, Run (fun _ _ => True) [{ destMac := #v[2, 0, 0, 0, 0, 1] }] s ∧ s.Finished ∧
      ¬ NoLostUpdate [{ destMac := #v[2, 0, 0, 0, 0, 1] }] s := by
  have before : Run (fun _ _ => True) [{ destMac := #v[2, 0, 0, 0, 0, 1] }] removing :=
    run_removing (fun _ _ => trivial) fun _ => trivial
  have queued : Run (fun _ _ => True) [{ destMac := #v[2, 0, 0, 0, 0, 1] }] _ :=
    .step (.step (.step before (.readCount #v[2, 0, 0, 0, 0, 2] (text "hi") 100 0) trivial rfl)
      .writeCount trivial rfl) .append trivial rfl
  refine ⟨_, .step (.step queued .rewrite trivial rfl) .finish trivial rfl, ⟨rfl, rfl⟩, fun h => ?_⟩
  set e := enqueuedEntry #v[2, 0, 0, 0, 0, 2] (text "hi") 100
  have gone : (RueQueue.rewrite []).getAll = [] := getAll_header_append _ []
  have other : ([{ destMac := #v[2, 0, 0, 0, 0, 1] }] : List RueEntry).count e = 0 := by
    rw [List.count_eq_zero, List.mem_singleton]
    intro same
    have macs : (#v[2, 0, 0, 0, 0, 2] : Mac) = #v[2, 0, 0, 0, 0, 1] := congrArg RueEntry.destMac same
    revert macs
    decide
  have lost : (([{ destMac := #v[2, 0, 0, 0, 0, 1] }] : List RueEntry) ++ [e]).count e ≤
      (RueQueue.rewrite []).getAll.count e +
        ([{ destMac := #v[2, 0, 0, 0, 0, 1] }] : List RueEntry).count e := h.1 e
  rw [gone, List.count_append, other, List.count_singleton_self, List.count_nil] at lost
  omega

end SharedQueue

end Araba
