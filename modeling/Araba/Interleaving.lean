import Araba.Sending

/-!
# Reassembly under any interleaving

The fragments of several messages with different ids arrive in any order, any number of times and
interleaved with one another, and stale entries are cleaned up in between. As long as no message is
cleaned up while it waits for fragments, the call that supplies the last missing fragment of a
message is the first that completes it, and hands out its data.
-/

namespace Araba

open Bytes Collect

/-- The calls of a run that reach the entry of `id`. -/
def callsFor (id : UInt16) (ops : List FragOp) : List FragCall := ops.flatMap (FragOp.callsFor id)

theorem callsFor_append (id : UInt16) (ops ops' : List FragOp) :
    callsFor id (ops ++ ops') = callsFor id ops ++ callsFor id ops' := by
  simp [callsFor]

theorem callsFor_concat (id : UInt16) (ops : List FragOp) (op : FragOp) :
    callsFor id (ops ++ [op]) = callsFor id ops ++ op.callsFor id := by
  simp [callsFor]

theorem mem_callsFor {id : UInt16} {ops : List FragOp} {c : FragCall} :
    c ∈ callsFor id ops ↔ .reassemble c ∈ ops ∧ c.frag.IsFragment ∧ c.msgId = id := by
  simp only [callsFor, List.mem_flatMap]
  constructor
  · rintro ⟨op, hop, hc⟩
    cases op with
    | cleanup => simp [FragOp.callsFor] at hc
    | reassemble c' =>
      simp only [FragOp.callsFor] at hc
      split_ifs at hc with h
      · rw [List.mem_singleton] at hc
        subst hc
        exact ⟨hop, h⟩
      · simp at hc
  · rintro ⟨hop, h⟩
    exact ⟨_, hop, by simp [FragOp.callsFor, h]⟩

theorem mem_callsFor_of_mem_sinceCreated {id : UInt16} {ops : List FragOp} {c : FragCall}
    (h : c ∈ sinceCreated id ops) : c ∈ callsFor id ops := by
  induction ops using List.reverseRecOn with
  | nil => simp [sinceCreated] at h
  | append_singleton ops op ih =>
    rw [sinceCreated_concat] at h
    rw [callsFor_concat]
    split_ifs at h
    · rcases List.mem_append.1 h with old | new
      · exact List.mem_append_left _ (ih old)
      · exact List.mem_append_right _ new
    · simp at h

/-- What an entry was made of was there before or has been received since. -/
theorem mem_sinceCreated_append {id : UInt16} {ops ops' : List FragOp} {c : FragCall}
    (h : c ∈ sinceCreated id (ops ++ ops')) : c ∈ sinceCreated id ops ∨ c ∈ callsFor id ops' := by
  induction ops' using List.reverseRecOn with
  | nil =>
    rw [List.append_nil] at h
    exact .inl h
  | append_singleton ops' op ih =>
    rw [← List.append_assoc, sinceCreated_concat] at h
    rw [callsFor_concat, List.mem_append, ← or_assoc]
    split_ifs at h
    · exact (List.mem_append.1 h).imp_left ih
    · exact absurd h List.not_mem_nil

theorem sinceCreated_of_complete {ops : List FragOp} {c : FragCall}
    (complete : (c.run (after ops)).complete = true) :
    sinceCreated c.msgId (ops ++ [.reassemble c]) = [] := by
  have frag := FragCall.isFragment_of_complete complete
  rw [← entryOf_eq_none_iff, ← partials_after, after_concat, FragOp.apply]
  rw [c.run_of_isFragment frag (partials_after c.msgId ops)] at complete ⊢
  split_ifs at complete ⊢
  exact Std.ExtTreeMap.getElem?_erase_self

namespace Sending

variable (s : Sending)

/-- Every fragment of the message has been received. -/
def Supplied (ops : List FragOp) : Prop := ∀ i < s.total, i ∈ indices (callsFor s.msgId ops)

/-- The call supplies the last fragment that was missing. -/
def SuppliesLast (pre : List FragOp) (c : FragCall) : Prop :=
  ¬ s.Supplied pre ∧ s.Supplied (pre ++ [.reassemble c])

/-- The call is the first for the message id that returns true. -/
def FirstToComplete (pre : List FragOp) (c : FragCall) : Prop :=
  (c.run (after pre)).complete = true ∧
    ∀ pre' c' post', pre = pre' ++ .reassemble c' :: post' → c'.msgId = s.msgId →
      (c'.run (after pre')).complete = false

/-- Only fragments of the message reach its entry, and the callers have room for it. -/
def Alone (ops : List FragOp) : Prop :=
  ∀ c ∈ callsFor s.msgId ops, c.frag ∈ s.packets ∧ s.data.length ≤ c.maxOut

/-- No clean-up comes when the message has been started, is not completed and has been idle for more
seconds than the clean-up allows. -/
def KeptFresh (ops : List FragOp) : Prop :=
  ∀ pre maxAge now post, ops = pre ++ .cleanup maxAge now :: post → ¬ s.Supplied pre →
    ∀ c ∈ (callsFor s.msgId pre).getLast?, (now - c.now) / 1000000000 ≤ maxAge.toNat

variable {s}

theorem Supplied.append {ops : List FragOp} (h : s.Supplied ops) (ops' : List FragOp) :
    s.Supplied (ops ++ ops') := by
  intro i hi
  obtain ⟨c, hc, e⟩ := (mem_indices _ _).1 (h i hi)
  rw [callsFor_append]
  exact (mem_indices _ _).2 ⟨c, List.mem_append_left _ hc, e⟩

theorem Alone.of_append {ops ops' : List FragOp} (h : s.Alone (ops ++ ops')) : s.Alone ops :=
  fun c hc => h c (by rw [callsFor_append]; exact List.mem_append_left _ hc)

theorem KeptFresh.of_append {ops ops' : List FragOp} (h : s.KeptFresh (ops ++ ops')) :
    s.KeptFresh ops := by
  rintro pre maxAge now post rfl
  exact h pre maxAge now (post ++ ops') (by simp)

theorem Fragmented.not_supplied_nil (h : s.Fragmented) : ¬ s.Supplied [] := by
  intro all
  have := all 0 (by have := h.lt_total; omega)
  simp [callsFor, indices] at this

/-- A clean-up keeps an entry that has not been idle for too long. -/
theorem partials_cleanup {mgr : FragmentManager} {id : UInt16} {log : List FragCall}
    {maxAge : UInt32} {now : ℕ} (entry : mgr.partials[id]? = entryOf log)
    (fresh : ∀ c ∈ log.getLast?, (now - c.now) / 1000000000 ≤ maxAge.toNat) :
    (mgr.cleanupStale maxAge now).partials[id]? = entryOf log := by
  simp only [FragmentManager.cleanupStale, Std.ExtTreeMap.getElem?_filter', entry]
  cases log using List.reverseRecOn with
  | nil => rfl
  | append_singleton log c =>
    have young := fresh c (by simp)
    simp [entryOf_concat, FragmentManager.stale, entryWith, young]

theorem Fragmented.partials_run_of_missing (h : s.Fragmented) {mgr : FragmentManager}
    {log : List FragCall} {c : FragCall} (own : ∀ c' ∈ log ++ [c], c'.frag ∈ s.packets)
    (entry : mgr.partials[s.msgId]? = entryOf log)
    (missing : ¬ ∀ i < s.total, i ∈ indices (log ++ [c])) :
    (c.run mgr).mgr.partials[s.msgId]? = entryOf (log ++ [c]) := by
  have mem : c.frag ∈ s.packets := own c (by simp)
  have few : (indices (log ++ [c])).card ≠ s.total :=
    fun e => missing ((card_eq_iff_of_lt (h.index_lt own)).1 e)
  rw [← h.msgId_of_mem mem] at entry ⊢
  rw [c.run_of_isFragment (h.isFragment_of_mem mem) entry, h.fragTotal_of_mem mem, if_pos few]
  simp [entryOf_concat]

/-- While a fragment is missing, the entry holds all that was received. -/
theorem Fragmented.sinceCreated_eq (h : s.Fragmented) {ops : List FragOp} (alone : s.Alone ops)
    (fresh : s.KeptFresh ops) (missing : ¬ s.Supplied ops) :
    sinceCreated s.msgId ops = callsFor s.msgId ops := by
  induction ops using List.reverseRecOn with
  | nil => rfl
  | append_singleton ops op ih =>
    have before : ¬ s.Supplied ops := fun all => missing (all.append [op])
    have log := ih alone.of_append fresh.of_append before
    have entry := partials_after s.msgId ops
    rw [log] at entry
    have stored : (after (ops ++ [op])).partials[s.msgId]? =
        entryOf (callsFor s.msgId (ops ++ [op])) := by
      rw [after_concat]
      cases op with
      | cleanup maxAge now =>
        rw [callsFor_concat, FragOp.callsFor, List.append_nil]
        exact partials_cleanup entry fun c hc => fresh ops maxAge now [] rfl before c hc
      | reassemble c =>
        by_cases own : c.frag.IsFragment ∧ c.msgId = s.msgId
        · have more : callsFor s.msgId (ops ++ [.reassemble c]) = callsFor s.msgId ops ++ [c] := by
            rw [callsFor_concat, FragOp.callsFor, if_pos own]
          rw [Supplied, more] at missing
          rw [Alone, more] at alone
          rw [more]
          exact h.partials_run_of_missing (fun c' hc' => (alone c' hc').1) entry missing
        · rw [callsFor_concat, FragOp.callsFor, if_neg own, List.append_nil, ← entry]
          exact FragCall.partials_run_of_not c own
    rw [sinceCreated_concat, log, ← callsFor_concat]
    split_ifs with present
    · rfl
    · rw [Std.ExtTreeMap.contains_eq_isSome_getElem?, stored, Option.not_isSome_iff_eq_none,
        entryOf_eq_none_iff] at present
      exact present.symm

/-- While a fragment is missing, a call completes the message iff it brings the last one. -/
theorem Fragmented.complete_iff (h : s.Fragmented) {pre : List FragOp} {c : FragCall}
    (mem : c.frag ∈ s.packets) (alone : s.Alone (pre ++ [.reassemble c])) (fresh : s.KeptFresh pre)
    (missing : ¬ s.Supplied pre) :
    ((c.run (after pre)).complete = true ↔ s.Supplied (pre ++ [.reassemble c])) ∧
      ((c.run (after pre)).complete = true →
        (c.run (after pre)).outLen = s.data.length ∧
          (c.run (after pre)).outBuf.take s.data.length = s.data) := by
  have more : callsFor s.msgId (pre ++ [.reassemble c]) = callsFor s.msgId pre ++ [c] := by
    rw [callsFor_concat, FragOp.callsFor,
      if_pos (And.intro (h.isFragment_of_mem mem) (h.msgId_of_mem mem))]
  have entry := partials_after s.msgId pre
  rw [h.sinceCreated_eq alone.of_append fresh missing] at entry
  rw [Alone, more] at alone
  rw [Supplied, more]
  exact h.run_of_own (fun c' hc' => (alone c' hc').1) (alone c (by simp)).2 entry

/-- Something in a run that receives every fragment supplies the last one. -/
theorem Fragmented.exists_suppliesLast (h : s.Fragmented) {ops : List FragOp}
    (all : s.Supplied ops) :
    ∃ pre c post, ops = pre ++ .reassemble c :: post ∧ c ∈ callsFor s.msgId ops ∧
      s.SuppliesLast pre c := by
  obtain ⟨pre, op, post, rfl, before, at'⟩ := exists_first h.not_supplied_nil all
  cases op with
  | cleanup =>
    rw [Supplied, callsFor_concat, FragOp.callsFor, List.append_nil] at at'
    exact absurd at' before
  | reassemble c =>
    refine ⟨pre, c, post, rfl, ?_, before, at'⟩
    by_cases own : c.frag.IsFragment ∧ c.msgId = s.msgId
    · exact mem_callsFor.2 ⟨by simp, own⟩
    · rw [Supplied, callsFor_concat, FragOp.callsFor, if_neg own, List.append_nil] at at'
      exact absurd at' before

/-- The first call that completes the message is the one that supplies its last fragment. -/
theorem Fragmented.firstToComplete_iff (h : s.Fragmented) {pre : List FragOp} {c : FragCall}
    (mem : c.frag ∈ s.packets) (alone : s.Alone (pre ++ [.reassemble c]))
    (fresh : s.KeptFresh pre) : s.FirstToComplete pre c ↔ s.SuppliesLast pre c := by
  constructor
  · rintro ⟨complete, first⟩
    have missing : ¬ s.Supplied pre := by
      intro all
      obtain ⟨pre', c', post', rfl, hc', before, at'⟩ := h.exists_suppliesLast all
      have mem' := (alone.of_append c' hc').1
      have whole : s.Alone (pre' ++ [.reassemble c'] ++ post') := by
        rw [List.append_assoc]
        exact alone.of_append
      have alone' : s.Alone (pre' ++ [.reassemble c']) := whole.of_append
      have done := ((h.complete_iff mem' alone' fresh.of_append before).1).2 at'
      rw [first pre' c' post' rfl (mem_callsFor.1 hc').2.2] at done
      exact Bool.false_ne_true done
    exact ⟨missing, ((h.complete_iff mem alone fresh missing).1).1 complete⟩
  · rintro ⟨missing, all⟩
    refine ⟨((h.complete_iff mem alone fresh missing).1).2 all, ?_⟩
    rintro pre' c' post' rfl hid
    have before : ¬ s.Supplied (pre' ++ [.reassemble c']) := by
      intro all'
      have := all'.append post'
      rw [List.append_assoc] at this
      exact missing this
    by_cases frag : c'.frag.IsFragment
    · have hc' : c' ∈ callsFor s.msgId (pre' ++ .reassemble c' :: post') :=
        mem_callsFor.2 ⟨by simp, frag, hid⟩
      have whole : s.Alone (pre' ++ [.reassemble c'] ++ post') := by
        rw [List.append_assoc]
        exact alone.of_append
      have alone' : s.Alone (pre' ++ [.reassemble c']) := whole.of_append
      have iff := (h.complete_iff (alone.of_append c' hc').1 alone' fresh.of_append
        fun all' => before (all'.append _)).1
      exact Bool.eq_false_iff.2 fun done => before (iff.1 done)
    · rw [FragCall.run_of_not_isFragment frag]

end Sending

/-! ## Other message ids do not matter -/

/-- What the calls that reach the entry of `id` return, in a run from `mgr` on. -/
def resultsFor (id : UInt16) : FragmentManager → List FragOp → List (Bool × List UInt8 × ℕ)
  | _, [] => []
  | mgr, op :: ops =>
    (op.callsFor id).map (fun c =>
      ((c.run mgr).complete, (c.run mgr).outBuf, (c.run mgr).outLen)) ++
        resultsFor id (op.apply mgr) ops

/-- The operation is a clean-up or a call that reaches the entry of `id`. -/
def FragOp.concerns (id : UInt16) : FragOp → Bool
  | reassemble c => c.frag.IsFragment ∧ c.msgId = id
  | cleanup _ _ => true

/-- Without the calls for other message ids, the results are the same. -/
theorem resultsFor_filter (id : UInt16) (ops : List FragOp) {mgr mgr' : FragmentManager}
    (same : mgr.partials[id]? = mgr'.partials[id]?) :
    resultsFor id mgr ops = resultsFor id mgr' (ops.filter (FragOp.concerns id)) := by
  induction ops generalizing mgr mgr' with
  | nil => rfl
  | cons op ops ih =>
    cases op with
    | cleanup maxAge now =>
      rw [List.filter_cons_of_pos rfl]
      simp only [resultsFor, FragOp.callsFor, List.map_nil, List.nil_append]
      apply ih
      simp only [FragOp.apply, FragmentManager.cleanupStale, Std.ExtTreeMap.getElem?_filter', same]
    | reassemble c =>
      by_cases own : c.frag.IsFragment ∧ c.msgId = id
      · have keep : FragOp.concerns id (.reassemble c) = true := by simpa [FragOp.concerns] using own
        obtain ⟨frag, rfl⟩ := own
        obtain ⟨h1, h2, h3, h4⟩ := c.run_congr same
        rw [List.filter_cons_of_pos keep, resultsFor, resultsFor, FragOp.callsFor,
          if_pos (And.intro frag rfl)]
        simp only [List.map_singleton, h1, h2, h3, FragOp.apply, ih h4]
      · have skip : ¬ FragOp.concerns id (.reassemble c) = true := by simpa [FragOp.concerns] using own
        rw [List.filter_cons_of_neg skip, resultsFor, FragOp.callsFor, if_neg own, List.map_nil,
          List.nil_append]
        apply ih
        rw [FragOp.apply, FragCall.partials_run_of_not c own, same]

/-! ## The result -/

/-- In the run, the message is completed, first by the call that supplies its last missing fragment
and with its own data, and what its calls return does not depend on the calls for other ids. -/
def Sending.Reassembled (s : Sending) (ops : List FragOp) : Prop :=
  (∃ pre c post, ops = pre ++ .reassemble c :: post ∧ s.FirstToComplete pre c) ∧
    (∀ pre c post, ops = pre ++ .reassemble c :: post → c.msgId = s.msgId →
      (s.FirstToComplete pre c ↔ s.SuppliesLast pre c) ∧
        (s.FirstToComplete pre c → (c.run (after pre)).outLen = s.data.length ∧
          (c.run (after pre)).outBuf.take s.data.length = s.data)) ∧
    resultsFor s.msgId {} ops = resultsFor s.msgId {} (ops.filter (FragOp.concerns s.msgId))

/-- Messages with different ids are all reassembled, whatever the order in which their fragments
arrive. -/
theorem reassembled_of_interleaved (msgs : List Sending) (ops : List FragOp)
    (big : ∀ s ∈ msgs, s.Fragmented) (distinct : (msgs.map Sending.msgId).Nodup)
    (only : ∀ c, .reassemble c ∈ ops → ∃ s ∈ msgs, c.frag ∈ s.packets ∧ s.data.length ≤ c.maxOut)
    (every : ∀ s ∈ msgs, ∀ p ∈ s.packets, ∃ c, .reassemble c ∈ ops ∧ c.frag = p)
    (fresh : ∀ s ∈ msgs, s.KeptFresh ops) : ∀ s ∈ msgs, s.Reassembled ops := by
  intro s hs
  have h := big s hs
  have alone : s.Alone ops := by
    intro c hc
    obtain ⟨hop, -, hid⟩ := mem_callsFor.1 hc
    obtain ⟨s', hs', mem, fits⟩ := only c hop
    have same : s' = s :=
      List.inj_on_of_nodup_map distinct hs' hs (((big s' hs').msgId_of_mem mem).symm.trans hid)
    exact same ▸ ⟨mem, fits⟩
  have all : s.Supplied ops := by
    intro i hi
    obtain ⟨c, hop, e⟩ := every s hs (s.nth i) ((h.mem_packets_iff _).2 ⟨i, hi, rfl⟩)
    have mem : c.frag ∈ s.packets := e ▸ (h.mem_packets_iff _).2 ⟨i, hi, rfl⟩
    refine (mem_indices _ _).2 ⟨c, mem_callsFor.2 ⟨hop, h.isFragment_of_mem mem,
      h.msgId_of_mem mem⟩, ?_⟩
    rw [e, Sending.fragHeader_nth]
    exact h.toNat_index hi
  have upTo {pre : List FragOp} {c : FragCall} {post : List FragOp}
      (e : ops = pre ++ .reassemble c :: post) :
      s.Alone (pre ++ [.reassemble c]) ∧ s.KeptFresh pre := by
    subst e
    have whole : s.Alone (pre ++ [.reassemble c] ++ post) := by simpa using alone
    exact ⟨whole.of_append, (fresh s hs).of_append⟩
  refine ⟨?_, ?_, resultsFor_filter s.msgId ops rfl⟩
  · obtain ⟨pre, c, post, e, hc, last⟩ := h.exists_suppliesLast all
    obtain ⟨alone', fresh'⟩ := upTo e
    exact ⟨pre, c, post, e, (h.firstToComplete_iff (alone c hc).1 alone' fresh').2 last⟩
  · intro pre c post e hid
    obtain ⟨alone', fresh'⟩ := upTo e
    obtain ⟨s', hs', mem, -⟩ := only c (by simp [e])
    have same : s' = s :=
      List.inj_on_of_nodup_map distinct hs' hs (((big s' hs').msgId_of_mem mem).symm.trans hid)
    rw [same] at mem
    have iff := h.firstToComplete_iff mem alone' fresh'
    exact ⟨iff, fun first => (h.complete_iff mem alone' fresh' (iff.1 first).1).2 first.1⟩

/-- A message of 481 bytes, which takes two packets. -/
def twoPackets (id : UInt16) (b : UInt8) : Sending where
  mgr := { nextMsgId := id }
  data := List.replicate 481 b
  type := .data
  src := sampleMac b
  dst := sampleMac 2
  seqNum := 0

/-- The call for fragment `i`, with an empty buffer. -/
def callWith (s : Sending) (i : ℕ) : FragCall where
  frag := s.nth i
  outBuf := List.replicate 1024 0
  maxOut := 1024
  outLen := 0
  now := 0

/-- Two messages interleaved, one of them back to front, with a clean-up after a second. -/
def interleavedRun : List FragOp :=
  [.reassemble (callWith (twoPackets 1 0x61) 1), .reassemble (callWith (twoPackets 2 0x62) 0),
    .cleanup 60 1000000000, .reassemble (callWith (twoPackets 1 0x61) 0),
    .reassemble (callWith (twoPackets 2 0x62) 1)]

theorem length_twoPackets (id : UInt16) (b : UInt8) : (twoPackets id b).data.length = 481 :=
  List.length_replicate

theorem fragmented_twoPackets (id : UInt16) (b : UInt8) : (twoPackets id b).Fragmented := by
  rw [Sending.Fragmented, length_twoPackets]
  decide

theorem mem_packets_twoPackets (id : UInt16) (b : UInt8) (p : Packet) :
    p ∈ (twoPackets id b).packets ↔
      p = (twoPackets id b).nth 0 ∨ p = (twoPackets id b).nth 1 := by
  have total : (twoPackets id b).total = 2 := by rw [Sending.total, length_twoPackets]
  rw [(fragmented_twoPackets id b).mem_packets_iff, total]
  constructor
  · rintro ⟨i, hi, rfl⟩
    interval_cases i <;> simp
  · rintro (rfl | rfl)
    · exact ⟨0, by omega, rfl⟩
    · exact ⟨1, by omega, rfl⟩

theorem keptFresh_interleavedRun (s : Sending) : s.KeptFresh interleavedRun := by
  intro pre maxAge now post e _ c hc
  have hclean : FragOp.cleanup maxAge now ∈ interleavedRun := by simp [e]
  have hcall : FragOp.reassemble c ∈ interleavedRun := by
    have := (mem_callsFor.1 (List.mem_of_getLast? hc)).1
    simp [e, this]
  obtain ⟨rfl, rfl⟩ : maxAge = 60 ∧ now = 1000000000 := by simpa [interleavedRun] using hclean
  have early : c.now = 0 := by
    simp only [interleavedRun, List.mem_cons, FragOp.reassemble.injEq, reduceCtorEq,
      List.not_mem_nil, or_false, false_or] at hcall
    rcases hcall with rfl | rfl | rfl | rfl <;> rfl
  rw [early]
  decide

theorem reassembled_of_interleaved_two :
    (twoPackets 1 0x61).Reassembled interleavedRun ∧
      (twoPackets 2 0x62).Reassembled interleavedRun := by
  have room (id : UInt16) (b : UInt8) (s : Sending) (i : ℕ) :
      (twoPackets id b).data.length ≤ (callWith s i).maxOut := by
    rw [length_twoPackets]
    show 481 ≤ 1024
    omega
  have own (id : UInt16) (b : UInt8) :
      (callWith (twoPackets id b) 0).frag ∈ (twoPackets id b).packets ∧
        (callWith (twoPackets id b) 1).frag ∈ (twoPackets id b).packets :=
    ⟨(mem_packets_twoPackets ..).2 (.inl rfl), (mem_packets_twoPackets ..).2 (.inr rfl)⟩
  have both := reassembled_of_interleaved [twoPackets 1 0x61, twoPackets 2 0x62] interleavedRun ?_
    (by decide) ?_ ?_ fun s _ => keptFresh_interleavedRun s
  · exact ⟨both _ (by simp), both _ (by simp)⟩
  · rintro s hs
    obtain rfl | rfl : s = _ ∨ s = _ := by simpa only [List.mem_cons, List.not_mem_nil, or_false] using hs
    · exact fragmented_twoPackets ..
    · exact fragmented_twoPackets ..
  · intro c hc
    simp only [interleavedRun, List.mem_cons, FragOp.reassemble.injEq, reduceCtorEq,
      List.not_mem_nil, or_false, false_or] at hc
    rcases hc with rfl | rfl | rfl | rfl
    · exact ⟨_, List.mem_cons_self, (own 1 0x61).2, room ..⟩
    · exact ⟨_, List.mem_cons_of_mem _ List.mem_cons_self, (own 2 0x62).1, room ..⟩
    · exact ⟨_, List.mem_cons_self, (own 1 0x61).1, room ..⟩
    · exact ⟨_, List.mem_cons_of_mem _ List.mem_cons_self, (own 2 0x62).2, room ..⟩
  · rintro s hs p hp
    obtain rfl | rfl : s = _ ∨ s = _ := by simpa only [List.mem_cons, List.not_mem_nil, or_false] using hs
    all_goals
      rw [mem_packets_twoPackets] at hp
      rcases hp with rfl | rfl
    · exact ⟨callWith (twoPackets 1 0x61) 0, by simp [interleavedRun], rfl⟩
    · exact ⟨callWith (twoPackets 1 0x61) 1, by simp [interleavedRun], rfl⟩
    · exact ⟨callWith (twoPackets 2 0x62) 0, by simp [interleavedRun], rfl⟩
    · exact ⟨callWith (twoPackets 2 0x62) 1, by simp [interleavedRun], rfl⟩

end Araba
