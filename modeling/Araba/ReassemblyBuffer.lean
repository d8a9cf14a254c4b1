import Araba.Lib.Cells
import Araba.Reassembly

/-!
# The buffers of `reassemble_packet`

`reassemble_packet` cell by cell. The fragments that it copies are as long as a peer has made them,
and the length that bounds the copies is the one that the last fragment announces.
-/

namespace Araba

open Bytes Collect Traced Cells

/-- The payload of the packet that is passed and the buffer of the caller. -/
inductive FragArray
  | payload
  | outBuf
  deriving DecidableEq

/-- The bytes that a call hands out, if it completes a message. -/
def Reassembly.handedOut (r : Reassembly) : List UInt8 :=
  if r.complete then r.outBuf.take r.outLen else []

/-! ## The code -/

namespace FragmentManager

/-- The loop that copies the fragments `is`, from `offset` on. -/
def copyFragmentsCells (fragments : Std.ExtTreeMap UInt8 (List UInt8)) (totalLen : ℕ) :
    List UInt8 → ℕ → Program FragArray Empty ℕ
  | [], offset => pure offset
  | i :: is, offset =>
    let f := fragments[i]?.getD []
    if offset ≥ totalLen then pure offset
    else do
      let remaining := totalLen - offset
      let copyLen := if f.length < remaining then f.length else remaining
      storeAll .outBuf offset (f.take copyLen)
      copyFragmentsCells fragments totalLen is (offset + copyLen)

/-- What follows when the fragment has been stored. -/
def finishPacketCells (mgr : FragmentManager) (fh : FragHeader) (partialMsg : PartialMsg)
    (maxOut outLen : ℕ) : Program FragArray Empty (Bool × FragmentManager × ℕ) :=
  if partialMsg.fragments.size ≠ fh.fragTotal.toNat then
    return (false, { mgr with partials := mgr.partials.insert fh.msgId partialMsg }, outLen)
  else if fh.totalLen.toNat > maxOut then
    return (false, { mgr with partials := mgr.partials.erase fh.msgId }, outLen)
  else do
    let offset ← copyFragmentsCells partialMsg.fragments fh.totalLen.toNat
      ((List.range fh.fragTotal.toNat).map UInt8.ofNat) 0
    return (true, { mgr with partials := mgr.partials.erase fh.msgId }, offset)

/-- The result, the manager and `out_len` after the call. -/
def reassemblePacketCells (mgr : FragmentManager) (payloadLen maxOut outLen now : ℕ) :
    Program FragArray Empty (Bool × FragmentManager × ℕ) :=
  if payloadLen < FragHeader.sizeof then return (false, mgr, outLen)
  else do
    let header ← loadAll .payload 0 FragHeader.sizeof
    let fh := FragHeader.ofBytes header
    if fh.fragTotal ≤ 1 then return (false, mgr, outLen)
    else do
      let found := (mgr.partials[fh.msgId]?.map PartialMsg.fragments).getD ∅
      let fragData ← loadAll .payload FragHeader.sizeof (payloadLen - FragHeader.sizeof)
      let partialMsg : PartialMsg :=
        { fragments := found.insert fh.fragIndex fragData
          totalFrags := fh.fragTotal
          received := now }
      finishPacketCells mgr fh partialMsg maxOut outLen

/-! ## What a call does -/

/-- The bytes that the loop copies. -/
def copiedBytes (fragments : Std.ExtTreeMap UInt8 (List UInt8)) (totalLen : ℕ) (is : List UInt8)
    (offset : ℕ) : List UInt8 :=
  (is.flatMap fun i => fragments[i]?.getD []).take (totalLen - offset)

/-- The loop writes these bytes, one cell after the other, and nothing else. -/
theorem copyFragmentsCells_eq (fragments : Std.ExtTreeMap UInt8 (List UInt8)) (totalLen : ℕ)
    (is : List UInt8) (offset : ℕ) (m : Memory FragArray) :
    (copyFragmentsCells fragments totalLen is offset).value m =
        offset + (copiedBytes fragments totalLen is offset).length ∧
      (copyFragmentsCells fragments totalLen is offset).post m =
        m.put .outBuf offset (copiedBytes fragments totalLen is offset) ∧
      (copyFragmentsCells fragments totalLen is offset).trace m =
        stores .outBuf offset (copiedBytes fragments totalLen is offset).length := by
  induction is generalizing offset m with
  | nil =>
    rw [copiedBytes, List.flatMap_nil, List.take_nil, Memory.put_nil]
    exact ⟨rfl, rfl, rfl⟩
  | cons i is ih =>
    unfold copyFragmentsCells
    set f := fragments[i]?.getD [] with f_def
    by_cases full : offset ≥ totalLen
    · rw [if_pos full, copiedBytes, Nat.sub_eq_zero_of_le full, List.take_zero, Memory.put_nil]
      exact ⟨rfl, rfl, rfl⟩
    · set copyLen := if f.length < totalLen - offset then f.length else totalLen - offset
        with copyLen_def
      have clamp : copyLen = min f.length (totalLen - offset) := by
        rw [copyLen_def]
        split_ifs <;> omega
      have size : (f.take copyLen).length = copyLen := by
        rw [List.length_take]
        omega
      have split : copiedBytes fragments totalLen (i :: is) offset =
          f.take copyLen ++ copiedBytes fragments totalLen is (offset + copyLen) := by
        have copied : f.take copyLen = f.take (totalLen - offset) := by
          rw [clamp, min_comm, ← List.take_take, List.take_length]
        have more : totalLen - offset - f.length = totalLen - (offset + copyLen) := by omega
        rw [copiedBytes, copiedBytes, List.flatMap_cons, ← f_def, List.take_append, more, copied]
      obtain ⟨value, post, trace⟩ := ih (offset + copyLen) (m.put .outBuf offset (f.take copyLen))
      rw [if_neg full, split, List.length_append, size, Memory.put_append, size, stores_add,
        value_bind, post_bind, trace_bind, post_storeAll, trace_storeAll, value, post, trace, size]
      exact ⟨Nat.add_assoc .., rfl, rfl⟩

theorem finishPacketCells_spec (mgr : FragmentManager) (fh : FragHeader) (partialMsg : PartialMsg)
    (maxOut outLen : ℕ) (outBuf : List UInt8) (m : Memory FragArray) {r : Reassembly}
    (run : r =
      if partialMsg.fragments.size ≠ fh.fragTotal.toNat then
        ⟨false, { mgr with partials := mgr.partials.insert fh.msgId partialMsg }, outBuf, outLen⟩
      else if fh.totalLen.toNat > maxOut then
        ⟨false, { mgr with partials := mgr.partials.erase fh.msgId }, outBuf, outLen⟩
      else
        let copied := copyFragments partialMsg.fragments fh.totalLen.toNat
          ((List.range fh.fragTotal.toNat).map UInt8.ofNat) outBuf 0
        ⟨true, { mgr with partials := mgr.partials.erase fh.msgId }, copied.1, copied.2⟩) :
    (finishPacketCells mgr fh partialMsg maxOut outLen).value m = (r.complete, r.mgr, r.outLen) ∧
      (finishPacketCells mgr fh partialMsg maxOut outLen).post m = m.put .outBuf 0 r.handedOut ∧
      (finishPacketCells mgr fh partialMsg maxOut outLen).trace m =
        stores .outBuf 0 r.handedOut.length := by
  unfold finishPacketCells
  by_cases few : partialMsg.fragments.size ≠ fh.fragTotal.toNat
  · rw [if_pos few] at run ⊢
    rw [run]
    exact ⟨rfl, (m.put_nil _ _).symm, rfl⟩
  · rw [if_neg few] at run ⊢
    by_cases large : fh.totalLen.toNat > maxOut
    · rw [if_pos large] at run ⊢
      rw [run]
      exact ⟨rfl, (m.put_nil _ _).symm, rfl⟩
    · set is := (List.range fh.fragTotal.toNat).map UInt8.ofNat
      have copied := copyFragments_append partialMsg.fragments fh.totalLen.toNat is [] outBuf
      simp only [List.nil_append, List.length_nil, Nat.zero_add, Nat.sub_zero] at copied
      obtain ⟨value, post, trace⟩ :=
        copyFragmentsCells_eq partialMsg.fragments fh.totalLen.toNat is 0 m
      rw [if_neg large] at run ⊢
      rw [copied] at run
      have out : r.handedOut = copiedBytes partialMsg.fragments fh.totalLen.toNat is 0 := by
        rw [run, Reassembly.handedOut, if_pos rfl, List.take_left']
        · rfl
        · rfl
      rw [value_bind, post_bind, trace_bind, value, post, trace, out, run]
      exact ⟨by rw [Nat.zero_add]; rfl, rfl, List.append_nil _⟩

end FragmentManager

theorem FragHeader.ofBytes_take (b : List UInt8) : ofBytes (b.take 6) = ofBytes b := by
  simp only [ofBytes, List.take_take, List.drop_take, List.getElem?_take]
  rfl

/-- The arrays of a call; what the caller's buffer holds stays as it is in `m`. -/
def withPacket (m : Memory FragArray) (p : Packet) : Memory FragArray :=
  m.put .payload 0 p.payload.toList

theorem bytes_withPacket (m : Memory FragArray) (p : Packet) {off n : ℕ} (inside : off + n ≤ 512) :
    (withPacket m p).bytes .payload off n = slice p.payload off n := by
  have read := m.bytes_put .payload 0 p.payload.toList (k := off) (n := n)
    (by rwa [Vector.length_toList])
  rwa [Nat.zero_add] at read

namespace FragCall

/-- The call, cell by cell. -/
def cells (c : FragCall) (mgr : FragmentManager) : Program FragArray Empty (Bool × FragmentManager × ℕ) :=
  mgr.reassemblePacketCells c.frag.header.payloadLen.toNat c.maxOut c.outLen c.now

theorem cells_spec (c : FragCall) (mgr : FragmentManager) (m : Memory FragArray)
    (small : c.frag.header.payloadLen.toNat ≤ 512) :
    (c.cells mgr).value (withPacket m c.frag) =
        ((c.run mgr).complete, (c.run mgr).mgr, (c.run mgr).outLen) ∧
      (c.cells mgr).post (withPacket m c.frag) =
        (withPacket m c.frag).put .outBuf 0 (c.run mgr).handedOut ∧
      (∀ b i, .load b i ∈ (c.cells mgr).trace (withPacket m c.frag) →
        b = .payload ∧ i < c.frag.header.payloadLen.toNat) ∧
      ∀ b i, .store b i ∈ (c.cells mgr).trace (withPacket m c.frag) ↔
        b = .outBuf ∧ i < (c.run mgr).handedOut.length := by
  have header : FragHeader.ofBytes ((withPacket m c.frag).bytes .payload 0 FragHeader.sizeof) =
      c.frag.fragHeader := by
    rw [bytes_withPacket _ _ (by simp [FragHeader.sizeof])]
    exact FragHeader.ofBytes_take _
  have run := c.run_eq mgr
  rw [cells, FragmentManager.reassemblePacketCells]
  by_cases short : c.frag.header.payloadLen.toNat < FragHeader.sizeof
  · rw [if_pos short] at run ⊢
    simp [Reassembly.handedOut, run]
  · have data : (withPacket m c.frag).bytes .payload FragHeader.sizeof
        (c.frag.header.payloadLen.toNat - FragHeader.sizeof) = c.frag.fragData :=
      bytes_withPacket _ _ (by omega)
    rw [if_neg short] at run ⊢
    simp only [value_bind, post_bind, trace_bind, value_loadAll, post_loadAll, trace_loadAll, header]
    by_cases single : c.frag.fragHeader.fragTotal ≤ 1
    · rw [if_pos single] at run
      simp only [if_pos single, run, trace_pure, List.append_nil, load_mem_loads, store_mem_loads]
      refine ⟨rfl, (Memory.put_nil _ _ _).symm, fun b i read => ⟨read.1, by omega⟩, fun b i => ?_⟩
      exact iff_of_false id fun h => absurd h.2 (Nat.not_lt_zero i)
    · rw [if_neg single] at run
      obtain ⟨value, post, trace⟩ := FragmentManager.finishPacketCells_spec mgr c.frag.fragHeader
        ⟨((mgr.partials[c.frag.fragHeader.msgId]?.map PartialMsg.fragments).getD ∅).insert
          c.frag.fragHeader.fragIndex c.frag.fragData, c.frag.fragHeader.fragTotal, c.now⟩
        c.maxOut c.outLen c.outBuf (withPacket m c.frag) run
      simp only [if_neg single, value_bind, post_bind, trace_bind, value_loadAll, post_loadAll,
        trace_loadAll, data, List.mem_append, load_mem_loads, store_mem_loads, false_or]
      rw [value, post, trace]
      refine ⟨rfl, rfl, fun b i read => ?_, fun b i => ?_⟩
      · rcases read with ⟨own, here⟩ | ⟨own, here⟩ | other
        · exact ⟨own, by omega⟩
        · exact ⟨own, by omega⟩
        · exact absurd other load_mem_stores
      · simp only [store_mem_stores, Nat.zero_le, true_and, Nat.zero_add]

theorem outLen_run_of_incomplete {c : FragCall} {mgr : FragmentManager}
    (h : (c.run mgr).complete = false) : (c.run mgr).outLen = c.outLen := by
  rw [run_eq] at h ⊢
  dsimp only at h ⊢
  split_ifs at h ⊢ <;> rfl

end FragCall

/-! ## Runs -/

theorem length_concatenation (log : List FragCall) (total : ℕ) :
    (concatenation log total).length =
      ((List.range total).map fun i => ((lastFragment log i).getD []).length).sum := by
  rw [concatenation, List.length_flatMap]

/-- A call after the calls of a run reads the payload as far as its length says, and writes no more
than the announced length and the room of the caller allow. When it completes a message, it has
written all that it says it has: the stored fragments, cut off at the announced length. Otherwise it
changes nothing of the caller's, and never the entry of another message. -/
def StaysInBuffers (ops : List FragOp) (c : FragCall) (m : Memory FragArray) : Prop :=
  let start := withPacket m c.frag
  let trace := (c.cells (after ops)).trace start
  let result := (c.cells (after ops)).value start
  let outLen := result.2.2
  (∀ b i, .load b i ∈ trace → b = .payload ∧ i < c.frag.header.payloadLen.toNat) ∧
    (∀ b i, .store b i ∈ trace → b = .outBuf ∧ i < min c.totalLen c.maxOut) ∧
    (result.1 = true →
      outLen = min c.totalLen (((List.range c.fragTotal).map fun i =>
        ((lastFragment (counted ops c) i).getD []).length).sum) ∧
      outLen ≤ c.maxOut ∧ ∀ i < outLen, .store .outBuf i ∈ trace) ∧
    (result.1 = false →
      outLen = c.outLen ∧ (c.cells (after ops)).post start .outBuf = start .outBuf) ∧
    ∀ id, id ≠ c.msgId → result.2.1.partials[id]? = (after ops).partials[id]?

/-- In every run, every call stays in its buffers. -/
theorem reassembly_staysInBuffers (ops : List FragOp) (c : FragCall)
    (small : c.frag.header.payloadLen.toNat ≤ 512) (m : Memory FragArray) :
    StaysInBuffers ops c m := by
  obtain ⟨value, post, loads', stores'⟩ := c.cells_spec (after ops) m small
  rw [StaysInBuffers, value, post]
  cases done : (c.run (after ops)).complete with
  | false =>
    have nothing : (c.run (after ops)).handedOut = [] := by
      rw [Reassembly.handedOut, done]
      rfl
    rw [nothing] at stores' ⊢
    refine ⟨loads', fun b i h => ?_, nofun, fun _ => ?_, fun id other => ?_⟩
    · exact absurd ((stores' b i).1 h).2 (Nat.not_lt_zero i)
    · exact ⟨FragCall.outLen_run_of_incomplete done, by rw [Memory.put_nil]⟩
    · exact c.partials_run_of_ne other.symm
  | true =>
    have frag := FragCall.isFragment_of_complete done
    obtain ⟨out, length⟩ := take_outLen_of_complete frag done
    have fits := ((FragCall.complete_iff frag).1 done).2
    have handed : (c.run (after ops)).handedOut.length = (c.run (after ops)).outLen := by
      rw [Reassembly.handedOut, done, if_pos rfl, out, length]
    have size : (c.run (after ops)).outLen = min c.totalLen
        (((List.range c.fragTotal).map fun i =>
          ((lastFragment (counted ops c) i).getD []).length).sum) := by
      rw [length, List.length_take, length_concatenation]
    have room : (c.run (after ops)).outLen ≤ c.maxOut := by omega
    rw [handed] at stores'
    refine ⟨loads', fun b i h => ?_, fun _ => ⟨size, room, fun i hi => (stores' _ i).2 ⟨rfl, hi⟩⟩,
      nofun, fun id other => ?_⟩
    · obtain ⟨own, inside⟩ := (stores' b i).1 h
      exact ⟨own, by omega⟩
    · exact c.partials_run_of_ne other.symm

theorem reassembly_staysInBuffers_stray :
    StaysInBuffers [.reassemble (strayCall 5)] (strayCall 7) fun _ _ => 0 :=
  reassembly_staysInBuffers [.reassemble (strayCall 5)] (strayCall 7) (by decide) _

end Araba
