import Araba.Fragment

/-!
# Runs of the reassembly

Any sequence of `reassemble_packet` and `cleanup_stale` calls. The entry of a message id is a
function of the calls that reached it since it was created (`sinceCreated`), and so is the result of
the next call: it completes the message iff as many indices have been received as its header says.
-/

namespace Araba

open Bytes Collect

namespace Packet

/-- The `FragHeader` that `reassemble_packet` reads off the payload. -/
def fragHeader (p : Packet) : FragHeader := FragHeader.ofBytes p.payload.toList

/-- The bytes behind it. -/
def fragData (p : Packet) : List UInt8 :=
  slice p.payload FragHeader.sizeof (p.header.payloadLen.toNat - FragHeader.sizeof)

theorem fragData_eq_drop_body (p : Packet) : p.fragData = p.body.drop 6 := by
  rw [fragData, slice_eq_drop, body]
  simp only [FragHeader.sizeof]
  rcases le_total 6 p.header.payloadLen.toNat with long | short
  · rw [Nat.add_sub_cancel' long]
  · rw [Nat.sub_eq_zero_of_le short, List.drop_eq_nil_of_le, List.drop_eq_nil_of_le]
    · rw [length_slice]
      omega
    · rw [length_slice]
      omega

/-- What `reassemble_packet` stores. -/
def fragEntry (p : Packet) : UInt8 × List UInt8 := (p.fragHeader.fragIndex, p.fragData)

/-- The packet gets past the first two checks of `reassemble_packet`. -/
def IsFragment (p : Packet) : Prop :=
  FragHeader.sizeof ≤ p.header.payloadLen.toNat ∧ 1 < p.fragHeader.fragTotal

instance (p : Packet) : Decidable p.IsFragment := by
  unfold IsFragment
  infer_instance

end Packet

/-- The arguments of a call of `reassemble_packet`, with the reading of the clock that it takes. -/
structure FragCall where
  frag : Packet
  outBuf : List UInt8
  maxOut : ℕ
  outLen : ℕ
  now : ℕ

namespace FragCall

/-- What the call does. -/
def run (c : FragCall) (mgr : FragmentManager) : Reassembly :=
  mgr.reassemblePacket c.frag c.outBuf c.maxOut c.outLen c.now

/-- The id of the message that the fragment belongs to. -/
def msgId (c : FragCall) : UInt16 := c.frag.fragHeader.msgId

/-- How many fragments the message has, by the fragment. -/
def fragTotal (c : FragCall) : ℕ := c.frag.fragHeader.fragTotal.toNat

/-- How long the message is, by the fragment. -/
def totalLen (c : FragCall) : ℕ := c.frag.fragHeader.totalLen.toNat

end FragCall

/-! ## The log of an entry -/

/-- The fragment indices that the calls of a log bring. -/
def indices (log : List FragCall) : Finset ℕ :=
  (log.map fun c => c.frag.fragHeader.fragIndex.toNat).toFinset

/-- Fragment `i` as it was received last. -/
def lastFragment (log : List FragCall) (i : ℕ) : Option (List UInt8) :=
  latest (log.map fun c => c.frag.fragEntry) (UInt8.ofNat i)

/-- Fragments `0, …, total - 1`, one after the other. -/
def concatenation (log : List FragCall) (total : ℕ) : List UInt8 :=
  (List.range total).flatMap fun i => (lastFragment log i).getD []

/-- The entry that the calls of a log leave behind, `last` the last of them. -/
def entryWith (log : List FragCall) (last : FragCall) : PartialMsg where
  fragments := fill (log.map fun c => c.frag.fragEntry)
  totalFrags := last.frag.fragHeader.fragTotal
  received := last.now

/-- The entry of a message after the calls for it since it was created. -/
def entryOf (log : List FragCall) : Option PartialMsg := log.getLast?.map (entryWith log)

theorem entryOf_concat (log : List FragCall) (c : FragCall) :
    entryOf (log ++ [c]) = some (entryWith (log ++ [c]) c) := by
  simp [entryOf]

theorem fragments_entryOf (log : List FragCall) :
    ((entryOf log).map PartialMsg.fragments).getD ∅ = fill (log.map fun c => c.frag.fragEntry) := by
  cases log using List.reverseRecOn with
  | nil => rfl
  | append_singleton log c => rw [entryOf_concat]; rfl

theorem entryOf_eq_none_iff (log : List FragCall) : entryOf log = none ↔ log = [] := by
  simp [entryOf]

theorem mem_indices (log : List FragCall) (i : ℕ) :
    i ∈ indices log ↔ ∃ c ∈ log, c.frag.fragHeader.fragIndex.toNat = i := by
  simp [indices]

theorem size_fill_fragEntry (log : List FragCall) :
    (fill (log.map fun c => c.frag.fragEntry) : Std.ExtTreeMap UInt8 (List UInt8)).size =
      (indices log).card := by
  have image : indices log =
      ((log.map fun c => c.frag.fragEntry).map Prod.fst).toFinset.image UInt8.toNat := by
    ext i
    simp [indices, Packet.fragEntry]
  rw [size_fill, image, Finset.card_image_of_injective _ fun _ _ => UInt8.toNat_inj.1]

/-! ## One call -/

namespace FragmentManager

/-- The copying loop writes the fragments one after the other, and no more than `totalLen` bytes. -/
theorem copyFragments_append (fragments : Std.ExtTreeMap UInt8 (List UInt8)) (totalLen : ℕ)
    (is front rest : List UInt8) :
    copyFragments fragments totalLen is (front ++ rest) front.length =
      let src := (is.flatMap fun i => fragments[i]?.getD []).take (totalLen - front.length)
      (front ++ src ++ rest.drop src.length, front.length + src.length) := by
  induction is generalizing front rest with
  | nil => simp [copyFragments]
  | cons i is ih =>
    simp only [copyFragments, List.flatMap_cons]
    set f := fragments[i]?.getD []
    by_cases full : totalLen ≤ front.length
    · simp [if_pos full, Nat.sub_eq_zero_of_le full]
    · set copyLen := if f.length < totalLen - front.length then f.length
        else totalLen - front.length with copyLen_def
      have clamp : copyLen = min f.length (totalLen - front.length) := by
        rw [copyLen_def]
        split_ifs <;> omega
      have copied : f.take copyLen = f.take (totalLen - front.length) := by
        rw [clamp, min_comm, ← List.take_take, List.take_length]
      have size : (f.take copyLen).length = copyLen := by
        rw [List.length_take]
        omega
      have more : totalLen - (front.length + copyLen) = totalLen - front.length - f.length := by
        omega
      rw [if_neg full, overwrite_append, size, show front.length + copyLen =
        (front ++ f.take copyLen).length by rw [List.length_append, size], ih]
      simp only [List.length_append, size, more, List.take_append, ← copied, List.drop_drop,
        List.append_assoc, add_assoc]

end FragmentManager

namespace FragCall

variable {c : FragCall} {mgr : FragmentManager} {log : List FragCall}

theorem run_eq (c : FragCall) (mgr : FragmentManager) :
    c.run mgr =
      if c.frag.header.payloadLen.toNat < FragHeader.sizeof then ⟨false, mgr, c.outBuf, c.outLen⟩
      else if c.frag.fragHeader.fragTotal ≤ 1 then ⟨false, mgr, c.outBuf, c.outLen⟩
      else
        let fragments := ((mgr.partials[c.msgId]?.map PartialMsg.fragments).getD ∅).insert
          c.frag.fragHeader.fragIndex c.frag.fragData
        let entry : PartialMsg := ⟨fragments, c.frag.fragHeader.fragTotal, c.now⟩
        if fragments.size ≠ c.fragTotal then
          ⟨false, { mgr with partials := mgr.partials.insert c.msgId entry }, c.outBuf, c.outLen⟩
        else if c.totalLen > c.maxOut then
          ⟨false, { mgr with partials := mgr.partials.erase c.msgId }, c.outBuf, c.outLen⟩
        else
          let copied := FragmentManager.copyFragments fragments c.totalLen
            ((List.range c.fragTotal).map UInt8.ofNat) c.outBuf 0
          ⟨true, { mgr with partials := mgr.partials.erase c.msgId }, copied.1, copied.2⟩ :=
  rfl

theorem run_of_not_isFragment (h : ¬ c.frag.IsFragment) :
    c.run mgr = ⟨false, mgr, c.outBuf, c.outLen⟩ := by
  rw [Packet.IsFragment, not_and_or, not_le, UInt8.not_lt] at h
  rw [run_eq]
  rcases h with short | single
  · rw [if_pos short]
  · rw [if_pos single, ite_self]

theorem isFragment_of_complete (h : (c.run mgr).complete = true) : c.frag.IsFragment := by
  by_contra none'
  rw [run_of_not_isFragment none'] at h
  exact Bool.false_ne_true h

/-- A call completes a message iff there are then as many fragments as its header says and the
caller has room for them. -/
theorem complete_iff (frag : c.frag.IsFragment) :
    (c.run mgr).complete = true ↔
      (((mgr.partials[c.msgId]?.map PartialMsg.fragments).getD ∅).insert
        c.frag.fragHeader.fragIndex c.frag.fragData).size = c.fragTotal ∧ c.totalLen ≤ c.maxOut := by
  obtain ⟨long, several⟩ := frag
  rw [run_eq, if_neg (not_lt.2 long), if_neg (UInt8.not_le.2 several)]
  dsimp only
  split_ifs with few large
  · exact iff_of_false id fun h => few h.1
  · exact iff_of_false id fun h => absurd h.2 (not_le.2 large)
  · exact iff_of_true rfl ⟨not_not.1 few, not_lt.1 large⟩

theorem run_of_isFragment (h : c.frag.IsFragment) (entry : mgr.partials[c.msgId]? = entryOf log) :
    c.run mgr =
      if (indices (log ++ [c])).card ≠ c.fragTotal then
        ⟨false, { mgr with partials := mgr.partials.insert c.msgId (entryWith (log ++ [c]) c) },
          c.outBuf, c.outLen⟩
      else if c.totalLen > c.maxOut then
        ⟨false, { mgr with partials := mgr.partials.erase c.msgId }, c.outBuf, c.outLen⟩
      else
        let out := (concatenation (log ++ [c]) c.fragTotal).take c.totalLen
        ⟨true, { mgr with partials := mgr.partials.erase c.msgId }, overwrite c.outBuf 0 out,
          out.length⟩ := by
  obtain ⟨long, several⟩ := h
  have found : ((mgr.partials[c.msgId]?.map PartialMsg.fragments).getD ∅).insert
      c.frag.fragHeader.fragIndex c.frag.fragData =
        fill ((log ++ [c]).map fun c => c.frag.fragEntry) := by
    rw [entry, fragments_entryOf, List.map_append, List.map_singleton, fill_concat]
    rfl
  have copied := FragmentManager.copyFragments_append
    (fill ((log ++ [c]).map fun c => c.frag.fragEntry)) c.totalLen
    ((List.range c.fragTotal).map UInt8.ofNat) [] c.outBuf
  simp only [getElem?_fill, List.flatMap_map, List.nil_append, List.length_nil, Nat.sub_zero,
    zero_add] at copied
  rw [run_eq, if_neg (not_lt.2 long), if_neg (UInt8.not_le.2 several), found]
  simp only [size_fill_fragEntry, copied]
  simp [overwrite, entryWith, concatenation, lastFragment]

theorem partials_run_of_ne {id : UInt16} (h : c.msgId ≠ id) :
    (c.run mgr).mgr.partials[id]? = mgr.partials[id]? := by
  have other : ¬ compare c.msgId id = .eq := by simpa using h
  rw [run_eq]
  dsimp only
  split_ifs
  · rfl
  · rfl
  · simp only [Std.ExtTreeMap.getElem?_insert, if_neg other]
  · simp only [Std.ExtTreeMap.getElem?_erase, if_neg other]
  · simp only [Std.ExtTreeMap.getElem?_erase, if_neg other]

theorem partials_run_of_not (c : FragCall) {id : UInt16} (h : ¬ (c.frag.IsFragment ∧ c.msgId = id)) :
    (c.run mgr).mgr.partials[id]? = mgr.partials[id]? := by
  by_cases frag : c.frag.IsFragment
  · exact partials_run_of_ne fun e => h ⟨frag, e⟩
  · rw [run_of_not_isFragment frag]

/-- A call depends on nothing in the manager but the entry of its own message id. -/
theorem run_congr (c : FragCall) {mgr mgr' : FragmentManager}
    (same : mgr.partials[c.msgId]? = mgr'.partials[c.msgId]?) :
    (c.run mgr).complete = (c.run mgr').complete ∧ (c.run mgr).outBuf = (c.run mgr').outBuf ∧
      (c.run mgr).outLen = (c.run mgr').outLen ∧
      (c.run mgr).mgr.partials[c.msgId]? = (c.run mgr').mgr.partials[c.msgId]? := by
  rw [run_eq, run_eq, same]
  dsimp only
  split_ifs <;> simp [same]

end FragCall

/-! ## Runs -/

/-- An operation on the fragment manager. -/
inductive FragOp
  | reassemble (c : FragCall)
  | cleanup (maxAgeSeconds : UInt32) (now : ℕ)

namespace FragOp

/-- The manager after the operation. -/
def apply (mgr : FragmentManager) : FragOp → FragmentManager
  | reassemble c => (c.run mgr).mgr
  | cleanup maxAgeSeconds now => mgr.cleanupStale maxAgeSeconds now

/-- The call, when it is one that reaches the entry of `id`. -/
def callsFor (id : UInt16) : FragOp → List FragCall
  | reassemble c => if c.frag.IsFragment ∧ c.msgId = id then [c] else []
  | cleanup _ _ => []

/-- What an operation can do to an entry: remove it, or add to it what it brings. -/
theorem partials_apply (op : FragOp) {mgr : FragmentManager} {id : UInt16} {log : List FragCall}
    (entry : mgr.partials[id]? = entryOf log) :
    (op.apply mgr).partials[id]? = none ∨
      (op.apply mgr).partials[id]? = entryOf (log ++ op.callsFor id) := by
  cases op with
  | cleanup maxAgeSeconds now =>
    simp only [apply, FragmentManager.cleanupStale, callsFor, List.append_nil,
      Std.ExtTreeMap.getElem?_filter', entry]
    cases entryOf log with
    | none => exact .inl rfl
    | some e =>
      by_cases keep : FragmentManager.stale maxAgeSeconds now e = true <;> simp [keep]
  | reassemble c =>
    simp only [apply, callsFor]
    by_cases own : c.frag.IsFragment ∧ c.msgId = id
    · obtain ⟨frag, rfl⟩ := own
      rw [FragCall.run_of_isFragment frag entry, if_pos (And.intro frag rfl)]
      split_ifs <;> simp [entryOf_concat]
    · rw [FragCall.partials_run_of_not c own, if_neg own, List.append_nil]
      exact .inr entry

end FragOp

/-- The manager of the receiver after a run, from its construction on. -/
def after (ops : List FragOp) : FragmentManager := ops.foldl FragOp.apply {}

/-- The calls that have reached the entry of `id` since it was last created, none if there is no
entry now. -/
def sinceCreated (id : UInt16) (ops : List FragOp) : List FragCall :=
  (ops.foldl (fun s op =>
    let mgr := op.apply s.1
    (mgr, if mgr.partials.contains id then s.2 ++ op.callsFor id else []))
    (({} : FragmentManager), ([] : List FragCall))).2

@[simp] theorem after_concat (ops : List FragOp) (op : FragOp) :
    after (ops ++ [op]) = op.apply (after ops) := by
  simp [after]

theorem sinceCreated_concat (id : UInt16) (ops : List FragOp) (op : FragOp) :
    sinceCreated id (ops ++ [op]) =
      if (after (ops ++ [op])).partials.contains id then sinceCreated id ops ++ op.callsFor id
      else [] := by
  have state (ops : List FragOp) : (ops.foldl (fun s op =>
      let mgr := op.apply s.1
      (mgr, if mgr.partials.contains id then s.2 ++ op.callsFor id else []))
      (({} : FragmentManager), ([] : List FragCall))).1 = after ops := by
    induction ops using List.reverseRecOn with
    | nil => rfl
    | append_singleton ops op ih => rw [List.foldl_append, List.foldl_cons, List.foldl_nil, ih,
        after_concat]
  rw [sinceCreated, List.foldl_append, List.foldl_cons, List.foldl_nil, state, after_concat]
  rfl

/-- In every run, an entry is what the calls since its creation make of it. -/
theorem partials_after (id : UInt16) (ops : List FragOp) :
    (after ops).partials[id]? = entryOf (sinceCreated id ops) := by
  induction ops using List.reverseRecOn with
  | nil => simp [after, sinceCreated, entryOf]
  | append_singleton ops op ih =>
    rw [sinceCreated_concat]
    rcases op.partials_apply ih with none' | stored
    · rw [← after_concat] at none'
      have gone : (after (ops ++ [op])).partials.contains id = false := by
        rw [Std.ExtTreeMap.contains_eq_isSome_getElem?, none', Option.isSome_none]
      rw [none', if_neg (by simp only [gone, Bool.false_eq_true, not_false_eq_true])]
      rfl
    · rw [← after_concat] at stored
      rw [stored]
      split_ifs with present
      · rfl
      · rw [Std.ExtTreeMap.contains_eq_isSome_getElem?, stored] at present
        rw [Option.not_isSome_iff_eq_none] at present
        rw [present]
        rfl

/-! ## When a message is complete -/

/-- The fragments that count for a call: those received for its message id since the entry was
created, and its own. -/
def counted (ops : List FragOp) (c : FragCall) : List FragCall := sinceCreated c.msgId ops ++ [c]

theorem complete_iff_card {ops : List FragOp} {c : FragCall} (frag : c.frag.IsFragment)
    (fits : c.totalLen ≤ c.maxOut) :
    (c.run (after ops)).complete = true ↔ (indices (counted ops c)).card = c.fragTotal := by
  rw [c.run_of_isFragment frag (partials_after c.msgId ops), if_neg (not_lt.2 fits), counted]
  split_ifs with more
  · simp only [false_iff]
    exact more
  · simpa using more

theorem card_of_complete {ops : List FragOp} {c : FragCall} (frag : c.frag.IsFragment)
    (complete : (c.run (after ops)).complete = true) :
    (indices (counted ops c)).card = c.fragTotal := by
  rw [c.run_of_isFragment frag (partials_after c.msgId ops)] at complete
  split_ifs at complete with more
  exact not_not.1 more

theorem take_outLen_of_complete {ops : List FragOp} {c : FragCall} (frag : c.frag.IsFragment)
    (complete : (c.run (after ops)).complete = true) :
    (c.run (after ops)).outBuf.take (c.run (after ops)).outLen =
        (concatenation (counted ops c) c.fragTotal).take c.totalLen ∧
      (c.run (after ops)).outLen =
        ((concatenation (counted ops c) c.fragTotal).take c.totalLen).length := by
  rw [c.run_of_isFragment frag (partials_after c.msgId ops)] at complete ⊢
  split_ifs at complete ⊢
  simp [counted, overwrite]

/-- The call returns true exactly when every index below the announced total has been received,
and then hands out these fragments in order, up to the announced length. -/
def CompletesExactly (ops : List FragOp) (c : FragCall) : Prop :=
  ((c.run (after ops)).complete = true ↔ ∀ i < c.fragTotal, i ∈ indices (counted ops c)) ∧
    ((c.run (after ops)).complete = true →
      (∀ i < c.fragTotal, i ∈ indices (counted ops c)) ∧
        (c.run (after ops)).outBuf.take (c.run (after ops)).outLen =
          (concatenation (counted ops c) c.fragTotal).take c.totalLen)

/-- In every run, the number of stored fragments tells that all of them are there exactly when no
index beyond the announced total was received, or when there are neither enough nor the right
ones. -/
theorem completesExactly_iff (ops : List FragOp) (c : FragCall) (frag : c.frag.IsFragment)
    (fits : c.totalLen ≤ c.maxOut) :
    CompletesExactly ops c ↔
      (∀ i ∈ indices (counted ops c), i < c.fragTotal) ∨
        ((indices (counted ops c)).card ≠ c.fragTotal ∧
          ¬ ∀ i < c.fragTotal, i ∈ indices (counted ops c)) := by
  rw [← card_eq_iff_iff, ← complete_iff_card frag fits]
  refine ⟨And.left, fun h => ⟨h, fun complete => ⟨h.1 complete, ?_⟩⟩⟩
  exact (take_outLen_of_complete frag complete).1

/-- A fragment of eight bytes that announces two fragments, as a peer may send it. -/
def strayFragment (index : UInt8) : Packet :=
  (Packet.init .data (sampleMac 1) (sampleMac 2) 0).fill
    ((FragHeader.mk 7 index 2 4).toBytes ++ text "ab")

/-- The call for such a fragment, with a buffer of eight bytes. -/
def strayCall (index : UInt8) : FragCall where
  frag := strayFragment index
  outBuf := List.replicate 8 0
  maxOut := 8
  outLen := 0
  now := 0

/-- Fragments 1 and 0 of the same message, in this order. -/
theorem completesExactly_iff_reversed :
    CompletesExactly [.reassemble (strayCall 1)] (strayCall 0) ∧
      ((strayCall 0).run (after [.reassemble (strayCall 1)])).complete = true := by
  have whole : ∀ i ∈ indices (counted [.reassemble (strayCall 1)] (strayCall 0)),
      i < (strayCall 0).fragTotal := by
    decide
  have exactly := (completesExactly_iff [.reassemble (strayCall 1)] (strayCall 0) (by decide)
    (by decide)).2 (.inl whole)
  exact ⟨exactly, exactly.1.2 (by decide)⟩

/-- Fragments 5 and 7 of a message of two pass for the whole message. -/
theorem stray_fragments_complete :
    ¬ CompletesExactly [.reassemble (strayCall 5)] (strayCall 7) := by
  have differ : ¬ (((strayCall 7).run (after [.reassemble (strayCall 5)])).complete = true ↔
      ∀ i < (strayCall 7).fragTotal,
        i ∈ indices (counted [.reassemble (strayCall 5)] (strayCall 7))) := by
    decide
  exact fun h => differ h.1

end Araba
