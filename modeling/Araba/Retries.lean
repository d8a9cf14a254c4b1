import Araba.SendPoint
import Mathlib.Data.List.Sort

/-!
# Retries

The loop over the pending messages, which erases while it iterates, and what it makes of one message
over whole runs of a node.
-/

namespace Araba

open Bytes Traced

/-! ## The turn of one entry -/

/-- What the loop does with an entry. -/
inductive Turn
  | keep
  | retry
  | fail
  deriving DecidableEq

namespace PendingAck

/-- The age in whole seconds; none when the clock is behind. -/
def age (pa : PendingAck) (now : ℕ) : ℕ := (now - pa.sentTime) / 1000000000

/-- What the pass does with an entry. -/
def turn (pa : PendingAck) (now : ℕ) : Turn :=
  if pa.age now > 3 then if pa.retries ≥ 3 then .fail else .retry else .keep

/-- What is left of the entry. -/
def handled (pa : PendingAck) (now : ℕ) : Option PendingAck :=
  match pa.turn now with
  | .keep => some pa
  | .retry => some
    { pa with
      retries := pa.retries + 1
      sentTime := now }
  | .fail => none

/-- What is logged for the entry. -/
def report (pa : PendingAck) (now : ℕ) : List Effect :=
  match pa.turn now with
  | .keep => []
  | .retry => [.log (.retry (pa.retries.toNat + 1) pa.seqNum (macToString pa.destMac))]
  | .fail => [.log (.deliveryFailed (macToString pa.destMac) pa.originalMsg)]

theorem fail_of_handled {pa : PendingAck} {now : ℕ} (gone : pa.handled now = none) :
    pa.turn now = .fail := by
  unfold handled at gone
  cases turn : pa.turn now with
  | fail => rfl
  | _ =>
    rw [turn] at gone
    cases gone

theorem old_of_turn {pa : PendingAck} {now : ℕ} (turn : pa.turn now ≠ .keep) : 3 < pa.age now := by
  unfold PendingAck.turn at turn
  split_ifs at turn with old
  · exact old
  · exact old
  · exact absurd rfl turn

theorem retries_of_fail {pa : PendingAck} {now : ℕ} (turn : pa.turn now = .fail) :
    3 ≤ pa.retries.toNat := by
  unfold PendingAck.turn at turn
  split_ifs at turn with old many
  exact many

theorem retries_of_retry {pa : PendingAck} {now : ℕ} (turn : pa.turn now = .retry) :
    pa.retries.toNat < 3 := by
  unfold PendingAck.turn at turn
  split_ifs at turn with old many
  exact not_le.1 many

end PendingAck

section Pass

variable {env : NodeEnv} {s : NodeState env} {key : UInt32}

theorem retryOne_of_none (now : ℕ) (none' : s.pendingAcks[key]? = none) :
    (retryOne now key : Action env Unit) s = ((), s, []) := by
  have read : (get : Action env (NodeState env)) s = (s, s, []) := rfl
  rw [retryOne, bind_of_idle read, none']
  rfl

theorem retryOne_of_some (now : ℕ) {pa : PendingAck} (entry : s.pendingAcks[key]? = some pa) :
    (retryOne now key : Action env Unit).trace s = pa.report now ∧
      ∀ k, ((retryOne now key : Action env Unit).post s).pendingAcks[k]? =
        if key = k then pa.handled now else s.pendingAcks[k]? := by
  have turns : (retryOne now key : Action env Unit) s =
      (if pa.age now > 3 then
        if pa.retries ≥ 3 then do
          emit (.log (.deliveryFailed (macToString pa.destMac) pa.originalMsg))
          modify fun s => { s with pendingAcks := s.pendingAcks.erase key }
        else do
          emit (.log (.retry (pa.retries.toNat + 1) pa.seqNum (macToString pa.destMac)))
          modify fun s => { s with
            pendingAcks := s.pendingAcks.insert key
              { pa with
                retries := pa.retries + 1
                sentTime := now } }
      else pure () : Action env Unit) s := by
    have read : (get : Action env (NodeState env)) s = (s, s, []) := rfl
    rw [retryOne, bind_of_idle read, entry]
    rfl
  have trace := congrArg (fun r => r.2.2) turns
  have post := congrArg (fun r => r.2.1.pendingAcks) turns
  refine ⟨trace.trans ?_, fun k => (congrArg (·[k]?) post).trans ?_⟩
  · unfold PendingAck.report PendingAck.turn
    split_ifs <;> rfl
  · have order : compare key k = .eq ↔ key = k := Std.LawfulEqCmp.compare_eq_iff_eq
    unfold PendingAck.handled PendingAck.turn
    split_ifs with old many same same same
    · show (s.pendingAcks.erase key)[k]? = _
      rw [Std.ExtTreeMap.getElem?_erase, if_pos (order.2 same)]
    · show (s.pendingAcks.erase key)[k]? = _
      rw [Std.ExtTreeMap.getElem?_erase, if_neg fun e => same (order.1 e)]
    · show (s.pendingAcks.insert key _)[k]? = _
      rw [Std.ExtTreeMap.getElem?_insert, if_pos (order.2 same)]
    · show (s.pendingAcks.insert key _)[k]? = _
      rw [Std.ExtTreeMap.getElem?_insert, if_neg fun e => same (order.1 e)]
    · rw [← same]
      exact entry
    · rfl

theorem retryAll {now : ℕ} {keys : List UInt32} (distinct : keys.Nodup) (s : NodeState env) :
    (runAll (keys.map (retryOne now)) : Action env Unit).trace s =
        keys.flatMap (fun key => ((s.pendingAcks[key]?).map fun pa => pa.report now).getD []) ∧
      ∀ k, ((runAll (keys.map (retryOne now)) : Action env Unit).post s).pendingAcks[k]? =
        if k ∈ keys then (s.pendingAcks[k]?).bind fun pa => pa.handled now
        else s.pendingAcks[k]? := by
  induction keys generalizing s with
  | nil => exact ⟨rfl, fun k => (if_neg List.not_mem_nil).symm⟩
  | cons key keys ih =>
    obtain ⟨new, rest⟩ := List.nodup_cons.1 distinct
    set s' := (retryOne now key : Action env Unit).post s
    have first : (retryOne now key : Action env Unit).trace s =
          ((s.pendingAcks[key]?).map fun pa => pa.report now).getD [] ∧
        ∀ k, s'.pendingAcks[k]? =
          if key = k then (s.pendingAcks[k]?).bind fun pa => pa.handled now
          else s.pendingAcks[k]? := by
      cases entry : s.pendingAcks[key]? with
      | none =>
        have idle := retryOne_of_none now entry
        have same : s' = s := congrArg (fun r => r.2.1) idle
        refine ⟨congrArg (fun r => r.2.2) idle, fun k => ?_⟩
        rw [same]
        split_ifs with here
        · rw [← here, entry, Option.bind_none]
        · rfl
      | some pa =>
        obtain ⟨trace, post⟩ := retryOne_of_some now entry
        refine ⟨trace, fun k => (post k).trans ?_⟩
        split_ifs with here
        · rw [← here, entry, Option.bind_some]
        · rfl
    obtain ⟨trace, post⟩ := ih rest s'
    have others (k : UInt32) (mem : k ∈ keys) : s'.pendingAcks[k]? = s.pendingAcks[k]? := by
      have other : key ≠ k := fun same => new (same ▸ mem)
      rw [first.2 k, if_neg other]
    refine ⟨?_, fun k => ?_⟩
    · show (retryOne now key : Action env Unit).trace s ++
        (runAll (keys.map (retryOne now)) : Action env Unit).trace s' = _
      rw [first.1, trace, List.flatMap_cons, List.flatMap_congr fun k mem => by rw [others k mem]]
    · show ((runAll (keys.map (retryOne now)) : Action env Unit).post s').pendingAcks[k]? = _
      rw [post k]
      by_cases later : k ∈ keys
      · rw [if_pos later, if_pos (List.mem_cons_of_mem _ later), others k later]
      · rw [if_neg later, first.2 k]
        by_cases here : key = k
        · rw [if_pos here, if_pos (List.mem_cons.2 (.inl here.symm))]
        · rw [if_neg here, if_neg fun mem => (List.mem_cons.1 mem).elim (fun e => here e.symm) later]

/-- A pass handles every entry once, as it was before the pass. -/
theorem trace_retryPass (clock : Clock) (s : NodeState env) :
    (retryPass clock).trace s =
      s.pendingAcks.toList.flatMap fun entry => entry.2.report clock.steady := by
  have distinct := s.pendingAcks.nodup_keys
  show (runAll (s.pendingAcks.keys.map (retryOne clock.steady)) : Action env Unit).trace s = _
  rw [(retryAll distinct s).1, ← Std.ExtTreeMap.map_fst_toList_eq_keys, List.flatMap_map]
  refine List.flatMap_congr fun entry mem => ?_
  rw [Std.ExtTreeMap.mem_toList_iff_getElem?_eq_some.1 mem]
  rfl

theorem getElem?_retryPass (clock : Clock) (s : NodeState env) (key : UInt32) :
    ((retryPass clock).post s).pendingAcks[key]? =
      (s.pendingAcks[key]?).bind fun pa => pa.handled clock.steady := by
  have distinct := s.pendingAcks.nodup_keys
  show ((runAll (s.pendingAcks.keys.map (retryOne clock.steady)) : Action env Unit).post
    s).pendingAcks[key]? = _
  rw [(retryAll distinct s).2 key]
  split_ifs with mem
  · rfl
  · rw [Std.ExtTreeMap.mem_keys, Std.ExtTreeMap.mem_iff_isSome_getElem?, Bool.not_eq_true,
      Option.isSome_eq_false_iff, Option.isNone_iff_eq_none] at mem
    rw [mem, Option.bind_none]

end Pass

/-! ## The iterator -/

/-- The entry after the one with the key: where `++it` leads to, and what `erase` returns. -/
def nextKey (m : Std.ExtTreeMap UInt32 PendingAck) (key : UInt32) : Option UInt32 :=
  m.keys.find? fun k => key < k

section Iterator

variable {env : NodeEnv}

/-- The loop with its iterator, which is at the end when there is none, and the turns that are left. -/
def retryFrom (now : ℕ) : ℕ → Option UInt32 → Action env Unit
  | 0, _ => pure ()
  | _ + 1, none => pure ()
  | n + 1, some key => do
    retryOne now key
    let s ← get
    retryFrom now n (nextKey s.pendingAcks key)

theorem nextKey_eq_head? {m : Std.ExtTreeMap UInt32 PendingAck} {key : UInt32} {keys : List UInt32}
    (sorted : keys.Pairwise (· < ·)) (mem : ∀ k, k ∈ keys ↔ k ∈ m ∧ key < k) :
    nextKey m key = keys.head? := by
  have ordered : m.keys.Pairwise (· < ·) :=
    m.ordered_keys.imp fun lt => Std.compare_eq_lt.1 lt
  have same : m.keys.filter (fun k => decide (key < k)) = keys := by
    refine List.Pairwise.eq_of_mem_iff (ordered.filter _) sorted fun k => ?_
    rw [List.mem_filter, Std.ExtTreeMap.mem_keys, mem, decide_eq_true_iff]
  rw [nextKey, ← List.head?_filter, same]

theorem mem_retryOne_iff {s : NodeState env} {now : ℕ} {key k : UInt32} (other : key ≠ k) :
    k ∈ ((retryOne now key : Action env Unit).post s).pendingAcks ↔ k ∈ s.pendingAcks := by
  rw [Std.ExtTreeMap.mem_iff_isSome_getElem?, Std.ExtTreeMap.mem_iff_isSome_getElem?]
  cases entry : s.pendingAcks[key]? with
  | none =>
    have idle := retryOne_of_none now entry
    rw [Traced.post, idle]
  | some pa => rw [(retryOne_of_some now entry).2 k, if_neg other]

/-- From an iterator on, the loop handles the keys that come then, in their order. -/
theorem retryFrom_eq {now : ℕ} {keys : List UInt32} (sorted : keys.Pairwise (· < ·)) (n : ℕ)
    (enough : keys.length ≤ n) (s : NodeState env)
    (rest : ∀ key tail, keys = key :: tail → ∀ k, k ∈ tail ↔ k ∈ s.pendingAcks ∧ key < k) :
    (retryFrom now n keys.head? : Action env Unit) s =
      (runAll (keys.map (retryOne now)) : Action env Unit) s := by
  induction keys generalizing n s with
  | nil => cases n <;> rfl
  | cons key keys ih =>
    cases n with
    | zero => exact absurd enough (Nat.not_succ_le_zero _)
    | succ n =>
      obtain ⟨first, sorted'⟩ := List.pairwise_cons.1 sorted
      set s' := (retryOne now key : Action env Unit).post s
      have kept (k : UInt32) (later : key < k) : k ∈ s'.pendingAcks ↔ k ∈ s.pendingAcks :=
        mem_retryOne_iff (UInt32.ne_of_lt later)
      have next : nextKey s'.pendingAcks key = keys.head? := by
        refine nextKey_eq_head? sorted' fun k => ?_
        rw [rest key keys rfl k]
        exact and_congr_left fun later => (kept k later).symm
      refine bind_congr_at _ _ ?_
      show (retryFrom now n (nextKey s'.pendingAcks key) : Action env Unit) s' = _
      rw [next]
      refine ih sorted' n (Nat.le_of_succ_le_succ enough) s' fun key' tail split k => ?_
      subst split
      obtain ⟨after, -⟩ := List.pairwise_cons.1 sorted'
      constructor
      · intro mem
        have later := first k (List.mem_cons_of_mem _ mem)
        exact ⟨(kept k later).2 ((rest key _ rfl k).1 (List.mem_cons_of_mem _ mem)).1, after k mem⟩
      · rintro ⟨mem, later⟩
        have later' := UInt32.lt_trans (first key' List.mem_cons_self) later
        have mem' := (rest key _ rfl k).2 ⟨(kept k later').1 mem, later'⟩
        exact (List.mem_cons.1 mem').resolve_left (UInt32.ne_of_lt later).symm

/-- The loop, with at least as many turns as there are entries, does what a pass does. -/
theorem retryFrom_begin (clock : Clock) (s : NodeState env) (n : ℕ)
    (enough : s.pendingAcks.keys.length ≤ n) :
    (retryFrom clock.steady n s.pendingAcks.keys.head? : Action env Unit) s = retryPass clock s := by
  have sorted : s.pendingAcks.keys.Pairwise (· < ·) :=
    s.pendingAcks.ordered_keys.imp fun lt => Std.compare_eq_lt.1 lt
  refine retryFrom_eq sorted n enough s fun key tail split k => ?_
  rw [split] at sorted
  obtain ⟨first, -⟩ := List.pairwise_cons.1 sorted
  rw [← Std.ExtTreeMap.mem_keys, split, List.mem_cons]
  constructor
  · exact fun mem => ⟨.inr mem, first k mem⟩
  · rintro ⟨rfl | mem, later⟩
    · exact absurd later (UInt32.lt_irrefl _)
    · exact mem

end Iterator

/-! ## The steps of a run -/

/-- A second, in the nanoseconds of the steady clock. -/
def second : ℕ := 1000000000

/-- What happened to an entry, and when. -/
inductive Mark
  | registered (time : ℕ)
  | retried (time : ℕ)
  | failed (time : ℕ)

/-- The times at which the message was registered. -/
def registrationsOf (marks : List Mark) : List ℕ :=
  marks.filterMap fun | .registered time => some time | _ => none

/-- The times at which it was retried. -/
def retriesOf (marks : List Mark) : List ℕ :=
  marks.filterMap fun | .retried time => some time | _ => none

/-- The times at which it was given up. -/
def failuresOf (marks : List Mark) : List ℕ :=
  marks.filterMap fun | .failed time => some time | _ => none

/-- What a turn of the loop means for the entry. -/
def PendingAck.mark (pa : PendingAck) (now : ℕ) : List Mark :=
  match pa.turn now with
  | .keep => []
  | .retry => [.retried now]
  | .fail => [.failed now]

namespace NodeStep

/-- The key that a step registers a message under. -/
def registers : NodeStep → Option UInt32
  | .main (.registerAck ackSeq _ _ _) => some ackSeq
  | _ => none

/-- What a step of a node does to the entry of a key. -/
def onEntry (mac : Mac) (key : UInt32) (entry : Option PendingAck) : NodeStep → Option PendingAck
  | .main (.registerAck ackSeq destMac message clock) =>
    if ackSeq = key then some ⟨destMac, 0, clock.steady, message, ackSeq⟩ else entry
  | .network (.retry clock) => entry.bind fun pa => pa.handled clock.steady
  | .network (.packet p _) => if p.header.source ≠ mac ∧ p.Acks key then none else entry
  | _ => entry

/-- What happens to the entry of a key in a step. -/
def marks (key : UInt32) (entry : Option PendingAck) : NodeStep → List Mark
  | .main (.registerAck ackSeq _ _ clock) => if ackSeq = key then [.registered clock.steady] else []
  | .network (.retry clock) => (entry.map fun pa => pa.mark clock.steady).getD []
  | _ => []

end NodeStep

section Run

variable {env : NodeEnv}

theorem getElem?_step (step : NodeStep) (s : NodeState env) (key : UInt32) :
    (step.action.post s).pendingAcks[key]? = step.onEntry env.myMac key (s.pendingAcks[key]?) := by
  cases step with
  | network step =>
    cases step with
    | hello => rfl
    | packet p clock =>
      show ((handlePacket p clock).post s).pendingAcks[key]? =
        if p.header.source ≠ env.myMac ∧ p.Acks key then none else s.pendingAcks[key]?
      by_cases own : p.header.source = env.myMac
      · rw [handlePacket, if_pos own, if_neg fun h => h.1 own]
        rfl
      · rw [pendingAcks_handlePacket clock s own]
        simp only [ne_eq, own, not_false_eq_true, true_and]
    | retry clock => exact getElem?_retryPass clock s key
    | cleanup clock =>
      exact congrArg (·[key]?) (leaves_cleanupTick (f := NodeState.pendingAcks) (fun _ _ _ => rfl) s)
  | main step =>
    cases step with
    | encryptWithCipher destMac message clock =>
      exact congrArg (·[key]?) (leaves_encryptWithCipher (f := NodeState.pendingAcks)
        (fun _ _ _ => rfl) s)
    | registerAck ackSeq destMac message clock =>
      have order : compare ackSeq key = .eq ↔ ackSeq = key := Std.LawfulEqCmp.compare_eq_iff_eq
      show (s.pendingAcks.insert ackSeq _)[key]? = if ackSeq = key then _ else _
      rw [Std.ExtTreeMap.getElem?_insert]
      split_ifs with same apart apart
      · rfl
      · exact absurd (order.1 same) apart
      · exact absurd (order.2 apart) same
      · rfl
    | _ => rfl

/-- What happens to the entry of a key in a run. -/
def marksOf (key : UInt32) : NodeState env → List NodeStep → List Mark
  | _, [] => []
  | s, step :: steps => step.marks key (s.pendingAcks[key]?) ++ marksOf key (step.action.post s) steps

theorem marksOf_concat (key : UInt32) (s : NodeState env) (steps : List NodeStep) (step : NodeStep) :
    marksOf key s (steps ++ [step]) =
      marksOf key s steps ++ step.marks key ((stateAfter s steps).pendingAcks[key]?) := by
  induction steps generalizing s with
  | nil => exact List.append_nil _
  | cons first steps ih =>
    rw [List.cons_append, marksOf, ih, marksOf, List.append_assoc]
    rfl

end Run

/-! ## The life of an entry -/

/-- At least four seconds lie between one time and the next. -/
def Spaced (times : List ℕ) : Prop := times.IsChain fun t t' => t + 4 * second ≤ t'

/-- What can have happened to the entry of a key in a run, and what the entry is then: it was
registered, it was retried up to three times, and it is gone when it was acknowledged or has
failed. -/
inductive Life (steps : List NodeStep) (key : UInt32) : List Mark → Option PendingAck → Prop
  | unknown (new : key ∉ steps.filterMap NodeStep.registers) : Life steps key [] none
  | pending {t₀ : ℕ} {ts : List ℕ} {pa : PendingAck}
      (old : key ∈ steps.filterMap NodeStep.registers)
      (last : (t₀ :: ts).getLast? = some pa.sentTime)
      (spaced : Spaced (t₀ :: ts))
      (count : pa.retries.toNat = ts.length) (few : ts.length ≤ 3) :
      Life steps key (.registered t₀ :: ts.map .retried) (some pa)
  | acked {t₀ : ℕ} {ts : List ℕ} (old : key ∈ steps.filterMap NodeStep.registers)
      (spaced : Spaced (t₀ :: ts)) (few : ts.length ≤ 3) :
      Life steps key (.registered t₀ :: ts.map .retried) none
  | failed {t₀ t : ℕ} {ts : List ℕ} (old : key ∈ steps.filterMap NodeStep.registers)
      (spaced : Spaced (t₀ :: ts ++ [t])) (three : ts.length = 3) :
      Life steps key (.registered t₀ :: ts.map .retried ++ [.failed t]) none

section Life

variable {steps : List NodeStep} {step : NodeStep} {key : UInt32} {marks : List Mark}
  {entry : Option PendingAck}

theorem mem_registers_concat (mem : key ∈ steps.filterMap NodeStep.registers) (step : NodeStep) :
    key ∈ (steps ++ [step]).filterMap NodeStep.registers := by
  rw [List.filterMap_append]
  exact List.mem_append_left _ mem

theorem Life.extend (h : Life steps key marks entry) (other : step.registers ≠ some key) :
    Life (steps ++ [step]) key marks entry := by
  cases h with
  | unknown new =>
    refine .unknown fun mem => ?_
    rw [List.filterMap_append, List.mem_append] at mem
    obtain ⟨only, mem, register⟩ := List.mem_filterMap.1 (mem.resolve_left new)
    rw [List.mem_singleton.1 mem] at register
    exact other register
  | pending mem last spaced count few =>
    exact .pending (mem_registers_concat mem step) last spaced count few
  | acked mem spaced few => exact .acked (mem_registers_concat mem step) spaced few
  | failed mem spaced three => exact .failed (mem_registers_concat mem step) spaced three

theorem Life.register {destMac : Mac} {message : Str} {clock : Clock}
    (h : Life steps key marks entry)
    (fresh : ((steps ++ [NodeStep.main (.registerAck key destMac message clock)]).filterMap
      NodeStep.registers).Nodup) :
    Life (steps ++ [.main (.registerAck key destMac message clock)]) key
      (marks ++ [.registered clock.steady]) (some ⟨destMac, 0, clock.steady, message, key⟩) := by
  have new : key ∉ steps.filterMap NodeStep.registers := by
    rw [List.filterMap_append] at fresh
    exact fun mem => List.disjoint_of_nodup_append fresh mem (List.mem_singleton_self key)
  cases h with
  | unknown _ =>
    have old : key ∈ (steps ++ [NodeStep.main (.registerAck key destMac message clock)]).filterMap
        NodeStep.registers := by
      rw [List.filterMap_append]
      exact List.mem_append_right _ (List.mem_singleton_self key)
    have spaced : Spaced (clock.steady :: []) := List.isChain_singleton _
    exact .pending old rfl spaced rfl (Nat.zero_le 3)
  | pending old => exact absurd old new
  | acked old => exact absurd old new
  | failed old => exact absurd old new

theorem PendingAck.elapsed {pa : PendingAck} {now : ℕ} (turn : pa.turn now ≠ .keep) :
    pa.sentTime + 4 * second ≤ now := by
  have old := PendingAck.old_of_turn turn
  unfold PendingAck.age at old
  unfold second
  omega

theorem Life.pass {clock : Clock} (h : Life steps key marks entry) :
    Life (steps ++ [.network (.retry clock)]) key
      (marks ++ (entry.map fun pa => pa.mark clock.steady).getD [])
      (entry.bind fun pa => pa.handled clock.steady) := by
  have other : (NodeStep.network (.retry clock)).registers ≠ some key := nofun
  cases h with
  | pending mem last spaced count few =>
    rename_i t₀ ts pa
    have old := mem_registers_concat mem (.network (.retry clock))
    have later (turn : pa.turn clock.steady ≠ .keep) : Spaced (t₀ :: ts ++ [clock.steady]) := by
      have elapsed := PendingAck.elapsed turn
      refine List.isChain_append.2 ⟨spaced, List.isChain_singleton _, fun x hx y hy => ?_⟩
      obtain rfl := Option.some.inj (last.symm.trans hx)
      obtain rfl := Option.some.inj hy
      exact elapsed
    show Life _ key (_ ++ pa.mark clock.steady) (pa.handled clock.steady)
    unfold PendingAck.mark PendingAck.handled
    cases turn : pa.turn clock.steady with
    | keep =>
      rw [List.append_nil]
      exact (Life.pending mem last spaced count few).extend other
    | retry =>
      have more := PendingAck.retries_of_retry turn
      have next : (pa.retries + 1).toNat = (ts ++ [clock.steady]).length := by
        rw [UInt8.toNat_add, List.length_append, List.length_singleton, ← count]
        have one : (1 : UInt8).toNat = 1 := rfl
        omega
      have marks : Mark.registered t₀ :: ts.map .retried ++ [.retried clock.steady] =
          .registered t₀ :: (ts ++ [clock.steady]).map .retried := by
        rw [List.map_append]
        rfl
      rw [marks]
      refine .pending old ?_ (later (by rw [turn]; decide)) next ?_
      · rw [← List.cons_append, List.getLast?_concat]
      · rw [List.length_append, List.length_singleton]
        omega
    | fail =>
      have many := PendingAck.retries_of_fail turn
      exact .failed old (later (by rw [turn]; decide)) (by omega)
  | unknown new =>
    rw [Option.map_none, Option.getD_none, List.append_nil]
    exact (Life.unknown new).extend other
  | acked mem spaced few =>
    rw [Option.map_none, Option.getD_none, List.append_nil]
    exact (Life.acked mem spaced few).extend other
  | failed mem spaced three =>
    rw [Option.map_none, Option.getD_none, List.append_nil]
    exact (Life.failed mem spaced three).extend other

theorem Life.acknowledge (h : Life steps key marks entry) : Life steps key marks none := by
  cases h with
  | unknown new => exact .unknown new
  | pending mem last spaced count few => exact .acked mem spaced few
  | acked mem spaced few => exact .acked mem spaced few
  | failed mem spaced three => exact .failed mem spaced three

theorem Life.advance (mac : Mac) (h : Life steps key marks entry)
    (fresh : ((steps ++ [step]).filterMap NodeStep.registers).Nodup) :
    Life (steps ++ [step]) key (marks ++ step.marks key entry) (step.onEntry mac key entry) := by
  have idle (quiet : step.marks key entry = []) (other : step.registers ≠ some key) :
      Life (steps ++ [step]) key (marks ++ step.marks key entry) entry := by
    rw [quiet, List.append_nil]
    exact h.extend other
  cases step with
  | network step =>
    cases step with
    | hello => exact idle rfl nofun
    | packet p clock =>
      show Life _ key _ (if p.header.source ≠ mac ∧ p.Acks key then none else entry)
      split_ifs
      · exact (idle rfl nofun).acknowledge
      · exact idle rfl nofun
    | retry clock => exact h.pass
    | cleanup clock => exact idle rfl nofun
  | main step =>
    cases step with
    | registerAck ackSeq destMac message clock =>
      show Life _ key (_ ++ if ackSeq = key then _ else _) (if ackSeq = key then _ else entry)
      by_cases same : ackSeq = key
      · subst same
        rw [if_pos rfl, if_pos rfl]
        exact h.register fresh
      · rw [if_neg same, if_neg same, List.append_nil]
        exact h.extend fun register => same (Option.some.inj register)
    | _ => exact idle rfl nofun

end Life

section Run

variable {env : NodeEnv}

theorem life_stateAfter {start : NodeState env} (none' : start.pendingAcks = ∅)
    {steps : List NodeStep} (fresh : (steps.filterMap NodeStep.registers).Nodup) (key : UInt32) :
    Life steps key (marksOf key start steps) ((stateAfter start steps).pendingAcks[key]?) := by
  induction steps using List.reverseRecOn with
  | nil =>
    show Life [] key [] (start.pendingAcks[key]?)
    rw [none', Std.ExtTreeMap.getElem?_empty]
    exact .unknown List.not_mem_nil
  | append_singleton steps step ih =>
    have fresh' : (steps.filterMap NodeStep.registers).Nodup := by
      rw [List.filterMap_append] at fresh
      exact fresh.of_append_left
    have last : stateAfter start (steps ++ [step]) = step.action.post (stateAfter start steps) :=
      stateAfter_append start steps [step]
    rw [marksOf_concat, last, getElem?_step]
    exact (ih fresh').advance env.myMac fresh

@[simp] theorem retriesOf_life (t₀ : ℕ) (ts : List ℕ) (rest : List Mark) :
    retriesOf (.registered t₀ :: ts.map .retried ++ rest) = ts ++ retriesOf rest := by
  simp [retriesOf, List.filterMap_map]

@[simp] theorem failuresOf_life (t₀ : ℕ) (ts : List ℕ) (rest : List Mark) :
    failuresOf (.registered t₀ :: ts.map .retried ++ rest) = failuresOf rest := by
  simp [failuresOf, List.filterMap_map]

theorem Life.few {steps : List NodeStep} {key : UInt32} {marks : List Mark} {pa : PendingAck}
    (h : Life steps key marks (some pa)) : pa.retries ≤ 3 := by
  cases h with
  | pending mem last spaced count few =>
    show pa.retries.toNat ≤ 3
    omega

/-- At most three retries, four seconds apart or more, and then, if at all, one failure. -/
theorem Life.facts {steps : List NodeStep} {key : UInt32} {marks : List Mark}
    {entry : Option PendingAck} (h : Life steps key marks entry) :
    Spaced (retriesOf marks) ∧ (failuresOf marks).length ≤ 1 ∧
      ∀ t ∈ failuresOf marks, (retriesOf marks).length = 3 ∧
        (∀ t' ∈ retriesOf marks, t' + 4 * second ≤ t) ∧
        ∃ t₀ ∈ registrationsOf marks, t₀ + 16 * second ≤ t := by
  have running {t₀ : ℕ} {ts : List ℕ} (spaced : Spaced (t₀ :: ts)) :
      Spaced (retriesOf (.registered t₀ :: ts.map .retried)) ∧
        (failuresOf (.registered t₀ :: ts.map .retried)).length = 0 := by
    have retries := retriesOf_life t₀ ts []
    have failures := failuresOf_life t₀ ts []
    rw [List.append_nil] at retries failures
    rw [retries, failures]
    refine ⟨?_, rfl⟩
    rw [show retriesOf [] = [] from rfl, List.append_nil]
    exact spaced.tail
  have silent {l : List ℕ} {P : ℕ → Prop} (none' : l.length = 0) : ∀ t ∈ l, P t := by
    rw [List.length_eq_zero_iff.1 none']
    exact fun t ht => absurd ht List.not_mem_nil
  cases h with
  | unknown new => exact ⟨List.isChain_nil, Nat.zero_le 1, silent rfl⟩
  | pending mem last spaced count few =>
    obtain ⟨apart, none'⟩ := running spaced
    exact ⟨apart, none'.le.trans (Nat.zero_le 1), silent none'⟩
  | acked mem spaced few =>
    obtain ⟨apart, none'⟩ := running spaced
    exact ⟨apart, none'.le.trans (Nat.zero_le 1), silent none'⟩
  | @failed t₀ t ts mem spaced three =>
    obtain ⟨a, b, c, rfl⟩ := List.length_eq_three.1 three
    simp only [Spaced, List.cons_append, List.nil_append, List.isChain_cons_cons,
      List.isChain_singleton, and_true] at spaced
    obtain ⟨first, second', third, last⟩ := spaced
    rw [retriesOf_life, failuresOf_life]
    refine ⟨?_, le_rfl, fun t' ht' => ?_⟩
    · exact List.isChain_cons_cons.2 ⟨second', List.isChain_cons_cons.2
        ⟨third, List.isChain_singleton _⟩⟩
    · obtain rfl := List.mem_singleton.1 ht'
      refine ⟨rfl, fun r hr => ?_, t₀, List.mem_cons_self, by omega⟩
      have hr' : r = a ∨ r = b ∨ r = c := by simpa [retriesOf] using hr
      omega

/-- What the retry loop may do to the entry of a key in a run: it is retried three times at most, it
goes only when an ACK with its key is handled or when a pass finds that it has been retried three times
and is more than three seconds old, there are four seconds at least from one retry to the next, it
fails at most once, after three retries and no earlier than sixteen seconds after it was registered,
and every pass of the loop with its iterator handles each entry once, by itself. -/
structure Disciplined (start : NodeState env) (steps : List NodeStep) (key : UInt32) : Prop where
  few : ∀ pa : PendingAck, (stateAfter start steps).pendingAcks[key]? = some pa → pa.retries ≤ 3
  removed : ∀ (pa : PendingAck) (step : NodeStep),
    (stateAfter start steps).pendingAcks[key]? = some pa →
    (stateAfter start (steps ++ [step])).pendingAcks[key]? = none →
    (∃ (p : Packet) (clock : Clock), step = .network (.packet p clock) ∧
        p.header.source ≠ env.myMac ∧ p.Acks key) ∨
      ∃ clock : Clock, step = .network (.retry clock) ∧ pa.retries = 3 ∧ 3 < pa.age clock.steady
  spaced : Spaced (retriesOf (marksOf key start steps))
  once : (failuresOf (marksOf key start steps)).length ≤ 1
  late : ∀ t ∈ failuresOf (marksOf key start steps),
    (retriesOf (marksOf key start steps)).length = 3 ∧
      (∀ t' ∈ retriesOf (marksOf key start steps), t' + 4 * second ≤ t) ∧
      ∃ t₀ ∈ registrationsOf (marksOf key start steps), t₀ + 16 * second ≤ t
  pass : ∀ (clock : Clock) (n : ℕ), (stateAfter start steps).pendingAcks.keys.length ≤ n →
    (retryFrom clock.steady n (stateAfter start steps).pendingAcks.keys.head? :
        Action env Unit).trace (stateAfter start steps) =
      (stateAfter start steps).pendingAcks.toList.flatMap (fun e => e.2.report clock.steady) ∧
    ∀ k : UInt32, ((retryFrom clock.steady n (stateAfter start steps).pendingAcks.keys.head? :
        Action env Unit).post (stateAfter start steps)).pendingAcks[k]? =
      ((stateAfter start steps).pendingAcks[k]?).bind fun pa => pa.handled clock.steady

theorem NodeStep.removes_cases {step : NodeStep} {mac : Mac} {key : UInt32} {pa : PendingAck}
    (gone : step.onEntry mac key (some pa) = none) :
    (∃ p clock, step = .network (.packet p clock) ∧ p.header.source ≠ mac ∧ p.Acks key) ∨
      ∃ clock, step = .network (.retry clock) ∧ pa.turn clock.steady = .fail := by
  cases step with
  | network step =>
    cases step with
    | packet p clock =>
      have gone' : (if p.header.source ≠ mac ∧ p.Acks key then none else some pa) = none := gone
      split_ifs at gone' with acked
      exact .inl ⟨p, clock, rfl, acked⟩
    | retry clock => exact .inr ⟨clock, rfl, PendingAck.fail_of_handled gone⟩
    | _ => cases gone
  | main step =>
    cases step with
    | registerAck ackSeq destMac message clock =>
      have gone' : (if ackSeq = key then _ else some pa) = none := gone
      split_ifs at gone'
    | _ => cases gone

/-- In every run that starts without pending messages and registers none twice under one key. -/
theorem retries_disciplined (start : NodeState env) (none' : start.pendingAcks = ∅)
    (steps : List NodeStep) (fresh : (steps.filterMap NodeStep.registers).Nodup) (key : UInt32) :
    Disciplined start steps key := by
  have life := life_stateAfter none' fresh key
  obtain ⟨spaced, once, late⟩ := life.facts
  have few (pa : PendingAck) (entry : (stateAfter start steps).pendingAcks[key]? = some pa) :
      pa.retries ≤ 3 := by
    rw [entry] at life
    exact life.few
  refine ⟨few, fun pa step entry gone => ?_, spaced, once, late, fun clock n enough => ?_⟩
  · have last : stateAfter start (steps ++ [step]) = step.action.post (stateAfter start steps) :=
      stateAfter_append start steps [step]
    rw [last, getElem?_step, entry] at gone
    refine (NodeStep.removes_cases gone).imp_right ?_
    rintro ⟨clock, rfl, turn⟩
    have three : pa.retries = 3 :=
      UInt8.le_antisymm (few pa entry) (PendingAck.retries_of_fail turn)
    exact ⟨clock, rfl, three, PendingAck.old_of_turn (by rw [turn]; decide)⟩
  · have loop := retryFrom_begin clock (stateAfter start steps) n enough
    refine ⟨?_, fun k => ?_⟩
    · rw [Traced.trace, loop]
      exact trace_retryPass clock _
    · rw [Traced.post, loop]
      exact getElem?_retryPass clock _ k

end Run

/-- A message that is registered at once and never acknowledged. -/
def unanswered : List NodeStep :=
  [.main (.registerAck 1 receiverEnv.myMac (text "hi") ⟨0, 0⟩),
    .network (.retry ⟨0, 4 * second⟩), .network (.retry ⟨0, 8 * second⟩),
    .network (.retry ⟨0, 12 * second⟩), .network (.retry ⟨0, 16 * second⟩)]

theorem retries_disciplined_unanswered :
    marksOf 1 (NodeState.start senderEnv none) unanswered =
        [.registered 0, .retried (4 * second), .retried (8 * second), .retried (12 * second),
          .failed (16 * second)] ∧
      Disciplined (NodeState.start senderEnv none) unanswered 1 :=
  ⟨rfl, retries_disciplined _ rfl unanswered (List.nodup_singleton 1) 1⟩

end Araba
