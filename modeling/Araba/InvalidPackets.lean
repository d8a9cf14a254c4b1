import Araba.Emission
import Araba.Network
import Araba.NextHops

/-!
# Invalid packets

`isValid` is never called, so a frame that is no packet of the protocol is handled like one. When it
leaves the node as it was.
-/

namespace Araba

open Bytes Traced

/-! ## The routes that an advertisement lists -/

/-- The destinations and hops that `unpack_routes` reads from `offset` on. -/
def listedFrom (payload : List UInt8) : ℕ → ℕ → List (Mac × UInt8)
  | 0, _ => []
  | n + 1, offset =>
    if offset + 7 > payload.length then []
    else
      (Vector.ofFn fun i => payload[offset + i.val]?.getD 0, payload[offset + 6]?.getD 0) ::
        listedFrom payload n (offset + 7)

/-- The destinations and hops that `unpack_routes` reads from a payload. -/
def listedRoutes (payload : List UInt8) : List (Mac × UInt8) :=
  if payload.length < 1 then [] else listedFrom payload (payload[0]?.getD 0).toNat 1

theorem unpackRoutes_eq_foldl (payload : List UInt8) (via : Mac) (table : RoutingTable)
    (now : UInt64) :
    unpackRoutes payload via table now =
      (listedRoutes payload).foldl (fun t r => t.addRoute r.1 via (r.2 + 1) now) table := by
  have loop (n offset : ℕ) (t : RoutingTable) :
      unpackLoop payload via now n offset t =
        (listedFrom payload n offset).foldl (fun t r => t.addRoute r.1 via (r.2 + 1) now) t := by
    induction n generalizing offset t with
    | zero => rfl
    | succ n ih =>
      rw [unpackLoop, listedFrom]
      split_ifs
      · rfl
      · exact ih _ _
  rw [unpackRoutes, listedRoutes]
  split_ifs
  · rfl
  · exact loop _ _ _

namespace RoutingTable

variable {t : RoutingTable} {d via : Mac} {hops : UInt8} {now : UInt64}

/-- There is a route to the destination that is no longer. -/
def HasRoute (t : RoutingTable) (d : Mac) (hops : UInt8) : Prop :=
  ∃ e, t.getRoute d = some e ∧ e.hops ≤ hops

/-- How far away the destination is. -/
def distance (t : RoutingTable) (d : Mac) : ℕ :=
  match t.getRoute d with
  | some e => e.hops.toNat
  | none => 256

theorem distance_of_getRoute {e : RouteEntry} (found : t.getRoute d = some e) :
    t.distance d = e.hops.toNat := by
  rw [distance, found]

theorem addRoute_eq_self (h : t.HasRoute d hops) : t.addRoute d via hops now = t := by
  obtain ⟨e, found, short⟩ := h
  obtain ⟨entry, valid⟩ := getRoute_eq_some_iff.1 found
  have kept : ¬ ((!e.isValid) = true ∨ hops < e.hops) := by
    rw [valid, not_or]
    exact ⟨Bool.false_ne_true, UInt8.not_lt.2 short⟩
  simp only [addRoute, entry, Option.getD_some]
  rw [if_neg kept, Collect.insert_eq_self entry]

/-- A route that the table does not have brings the destination closer. -/
theorem distance_addRoute_lt (h : ¬ t.HasRoute d hops) :
    (t.addRoute d via hops now).distance d < t.distance d := by
  obtain ⟨e, found, le⟩ := t.getRoute_addRoute_self d via hops now
  rw [distance_of_getRoute found]
  have le' : e.hops.toNat ≤ hops.toNat := UInt8.le_iff_toNat_le.1 le
  cases old : t.getRoute d with
  | none =>
    rw [distance, old]
    exact e.hops.toNat_lt
  | some e' =>
    have short : hops < e'.hops := UInt8.not_le.1 fun le => h ⟨e', old, le⟩
    rw [distance_of_getRoute old]
    exact le'.trans_lt (UInt8.lt_iff_toNat_lt.1 short)

theorem distance_addRoute_le (t : RoutingTable) (d via : Mac) (hops : UInt8) (now : UInt64) (x : Mac) :
    (t.addRoute d via hops now).distance x ≤ t.distance x := by
  by_cases same : d = x
  · subst same
    by_cases has : t.HasRoute d hops
    · rw [addRoute_eq_self has]
    · exact (distance_addRoute_lt has).le
  · rw [distance, distance, getRoute_addRoute_of_ne t same]

/-- Adding routes leaves the table alone iff it has every one of them. -/
theorem foldl_addRoute_eq_self_iff (rs : List (Mac × UInt8)) (t : RoutingTable) :
    rs.foldl (fun t r => t.addRoute r.1 via (r.2 + 1) now) t = t ↔
      ∀ r ∈ rs, t.HasRoute r.1 (r.2 + 1) := by
  have farther (rs : List (Mac × UInt8)) (t : RoutingTable) (x : Mac) :
      (rs.foldl (fun t r => t.addRoute r.1 via (r.2 + 1) now) t).distance x ≤ t.distance x := by
    induction rs generalizing t with
    | nil => exact le_refl _
    | cons r rs ih => exact (ih _).trans (distance_addRoute_le t r.1 via (r.2 + 1) now x)
  induction rs with
  | nil => simp
  | cons r rs ih =>
    rw [List.forall_mem_cons, List.foldl_cons]
    by_cases has : t.HasRoute r.1 (r.2 + 1)
    · rw [addRoute_eq_self has, and_iff_right has]
      exact ih
    · refine iff_of_false (fun same => ?_) fun all => has all.1
      have closer := (farther rs (t.addRoute r.1 via (r.2 + 1) now) r.1).trans_lt
        (distance_addRoute_lt has)
      rw [same] at closer
      exact lt_irrefl _ closer

end RoutingTable

/-! ## The fragments that are stored again -/

namespace FragCall

variable {c : FragCall} {mgr : FragmentManager}

/-- The entry holds the fragment and was last written at this very moment, by a call for as many
fragments, and they are not complete. -/
def AlreadyStored (c : FragCall) (mgr : FragmentManager) : Prop :=
  ∃ e, mgr.partials[c.msgId]? = some e ∧
    e.fragments[c.frag.fragHeader.fragIndex]? = some c.frag.fragData ∧
    e.totalFrags = c.frag.fragHeader.fragTotal ∧ e.received = c.now ∧ e.fragments.size ≠ c.fragTotal

/-- A fragment leaves the entries alone iff it is already stored. -/
theorem partials_run_eq_self_iff (frag : c.frag.IsFragment) :
    (c.run mgr).mgr.partials = mgr.partials ↔ c.AlreadyStored mgr := by
  obtain ⟨long, several⟩ := frag
  have several' : 1 < c.fragTotal := UInt8.lt_iff_toNat_lt.1 several
  rw [run_eq, if_neg (not_lt.2 long), if_neg (UInt8.not_le.2 several)]
  dsimp only
  set found := (mgr.partials[c.msgId]?.map PartialMsg.fragments).getD ∅ with found_def
  set fragments := found.insert c.frag.fragHeader.fragIndex c.frag.fragData with fragments_def
  set entry : PartialMsg := ⟨fragments, c.frag.fragHeader.fragTotal, c.now⟩
  have stored : c.AlreadyStored mgr ↔
      mgr.partials[c.msgId]? = some entry ∧ fragments.size ≠ c.fragTotal := by
    constructor
    · rintro ⟨e, there, fragment, total, received, few⟩
      have same : fragments = e.fragments := by
        rw [fragments_def, found_def, there]
        exact Collect.insert_eq_self fragment
      rw [there, same]
      refine ⟨congrArg some ?_, few⟩
      obtain ⟨fragments', totalFrags, received'⟩ := e
      simp only [entry, PartialMsg.mk.injEq]
      exact ⟨same.symm, total, received⟩
    · rintro ⟨there, few⟩
      exact ⟨entry, there, Std.ExtTreeMap.getElem?_insert_self, rfl, rfl, few⟩
  rw [stored]
  by_cases few : fragments.size ≠ c.fragTotal
  · rw [if_pos few, and_iff_left few]
    refine ⟨fun same => ?_, fun there => Collect.insert_eq_self there⟩
    rw [← same]
    exact Std.ExtTreeMap.getElem?_insert_self
  · -- the entry is erased, and there was one because it has more than one fragment
    have erased : mgr.partials.erase c.msgId ≠ mgr.partials := by
      intro same
      have none' : mgr.partials[c.msgId]? = none := by
        rw [← same]
        exact Std.ExtTreeMap.getElem?_erase_self
      have one : fragments.size ≤ 1 := by
        rw [fragments_def, found_def, none']
        exact Std.ExtTreeMap.size_insert_le
      omega
    rw [if_neg few, apply_ite Reassembly.mgr, ite_self]
    exact iff_of_false erased fun h => few h.2

theorem incomplete_of_alreadyStored (frag : c.frag.IsFragment) (h : c.AlreadyStored mgr) :
    (c.run mgr).complete = false := by
  obtain ⟨e, there, fragment, -, -, few⟩ := h
  refine Bool.eq_false_iff.2 fun complete => few ?_
  have count := ((complete_iff frag).1 complete).1
  rw [there] at count
  rw [← Collect.insert_eq_self fragment]
  exact count

end FragCall

/-! ## A packet that changes nothing -/

/-- A packet is sent, or there is no telling what happens. -/
def Effect.Disturbing : Effect → Prop
  | send _ _ => True
  | overrun => True
  | _ => False

variable {env : NodeEnv}

/-- Nothing that other nodes or later packets could notice happens. -/
structure Undisturbed (m : Action env Unit) (s : NodeState env) : Prop where
  knownNeighbors : (m.post s).knownNeighbors = s.knownNeighbors
  table : (m.post s).table = s.table
  queue : (m.post s).queue = s.queue
  pendingAcks : (m.post s).pendingAcks = s.pendingAcks
  partials : (m.post s).fragMgr.partials = s.fragMgr.partials
  silent : ∀ e ∈ m.trace s, ¬ e.Disturbing

/-- The payload decrypts to nothing, or the packet is for another node to which there is no way. -/
def Ignored (p : Packet) (clock : Clock) (s : NodeState env) : Prop :=
  decryptPayload p.body 1024 (env.cipher p.header.source) = .ok [] ∨
    p.header.dest ≠ env.myMac ∧
      (s.table.findNextHop p.header.dest clock.time = none ∨ p.header.ttl ≤ 1)

/-- The branch for the type of the packet has nothing to do. -/
structure Idle (p : Packet) (clock : Clock) (s : NodeState env) : Prop where
  discovery : p.header.type ≠ .discovery
  routeAdv : p.header.type = .routeAdv → ∀ r ∈ listedRoutes p.body, s.table.HasRoute r.1 (r.2 + 1)
  ack : p.header.type = .ack → 4 ≤ p.header.payloadLen.toNat → p.ackedSeq ∉ s.pendingAcks
  fragment : p.header.type = .data → p.IsFragment → (reassembleCall p clock).AlreadyStored s.fragMgr
  single : p.header.type = .data → ¬ p.IsFragment → Ignored p clock s

/-- The node has sent the packet itself, or its source is known, nothing is queued for it, and the
branch for the type of the packet has nothing to do. -/
def Harmless (p : Packet) (clock : Clock) (s : NodeState env) : Prop :=
  p.header.source = env.myMac ∨
    macToString p.header.source ∈ s.knownNeighbors ∧ s.queue.getPending p.header.source = [] ∧
      Idle p clock s

section Branches

variable {p : Packet} {clock : Clock} {s : NodeState env}

theorem undisturbed_pure (s : NodeState env) : Undisturbed (pure () : Action env Unit) s :=
  ⟨rfl, rfl, rfl, rfl, rfl, fun _ he => absurd he List.not_mem_nil⟩

theorem Undisturbed.congr {m n : Action env Unit} (same : m s = n s) (h : Undisturbed m s) :
    Undisturbed n s := by
  have post : m.post s = n.post s := congrArg (fun r => r.2.1) same
  have trace : m.trace s = n.trace s := congrArg (fun r => r.2.2) same
  refine ⟨?_, ?_, ?_, ?_, ?_, ?_⟩
  · rw [← post, h.knownNeighbors]
  · rw [← post, h.table]
  · rw [← post, h.queue]
  · rw [← post, h.pendingAcks]
  · rw [← post, h.partials]
  · rw [← trace]
    exact h.silent

theorem undisturbed_congr {m n : Action env Unit} (same : m s = n s) :
    Undisturbed m s ↔ Undisturbed n s :=
  ⟨.congr same, .congr same.symm⟩

theorem undisturbed_seq_iff {m n : Action env Unit} (h : m = pure () ∨ n = pure ()) :
    Undisturbed (do m; n) s ↔ Undisturbed m s ∧ Undisturbed n s := by
  rcases h with rfl | rfl
  · exact (and_iff_right (undisturbed_pure s)).symm
  · rw [and_iff_left (undisturbed_pure s)]
    exact undisturbed_congr (congrFun (bind_pure_unit (x := m)) s)

theorem undisturbed_locked_iff {m : Action env Unit} :
    Undisturbed (do emit .lock; m; emit .unlock) s ↔ Undisturbed m s := by
  have silent : (∀ e ∈ trace (do emit .lock; m; emit .unlock) s, ¬ e.Disturbing) ↔
      ∀ e ∈ m.trace s, ¬ e.Disturbing := by
    simp [Effect.Disturbing, or_imp, forall_and]
  exact ⟨fun h => ⟨h.1, h.2, h.3, h.4, h.5, silent.1 h.silent⟩,
    fun h => ⟨h.1, h.2, h.3, h.4, h.5, silent.2 h.silent⟩⟩

theorem undisturbed_handleDiscovery_iff :
    Undisturbed (handleDiscovery p) s ↔ p.header.type ≠ .discovery := by
  unfold handleDiscovery
  split_ifs with type
  · exact iff_of_false (fun h => h.silent _ (List.mem_singleton_self _) trivial) (not_not.2 type)
  · exact iff_of_true (undisturbed_pure s) type

theorem undisturbed_handleRouteAdv_iff :
    Undisturbed (handleRouteAdv p clock) s ↔
      (p.header.type = .routeAdv → ∀ r ∈ listedRoutes p.body, s.table.HasRoute r.1 (r.2 + 1)) := by
  unfold handleRouteAdv
  split_ifs with type
  · rw [forall_prop_of_true type, ← RoutingTable.foldl_addRoute_eq_self_iff,
      ← unpackRoutes_eq_foldl]
    refine ⟨fun h => h.table, fun same => ⟨rfl, same, rfl, rfl, rfl, fun e he => ?_⟩⟩
    obtain rfl := List.mem_singleton.1 he
    exact id
  · exact iff_of_true (undisturbed_pure s) fun h => absurd h type

theorem undisturbed_handleAck_iff :
    Undisturbed (handleAck p) s ↔
      (p.header.type = .ack → 4 ≤ p.header.payloadLen.toNat → p.ackedSeq ∉ s.pendingAcks) := by
  by_cases ack : p.header.type = .ack ∧ 4 ≤ p.header.payloadLen.toNat
  · have look : (handleAck p : Action env Unit) s = (if s.pendingAcks.contains p.ackedSeq then do
          emit (.log (.ackReceived p.ackedSeq (macToString p.header.source)))
          modify fun s => { s with pendingAcks := s.pendingAcks.erase p.ackedSeq }
        else pure () : Action env Unit) s := by
      rw [handleAck, if_pos ack]
      rfl
    rw [forall_prop_of_true ack.1, forall_prop_of_true ack.2, undisturbed_congr look]
    split_ifs with pending
    · rw [Std.ExtTreeMap.contains_iff_mem] at pending
      refine iff_of_false (fun h => ?_) (not_not.2 pending)
      have gone : p.ackedSeq ∉ s.pendingAcks.erase p.ackedSeq := by simp
      rw [show s.pendingAcks.erase p.ackedSeq = s.pendingAcks from h.pendingAcks] at gone
      exact gone pending
    · rw [Std.ExtTreeMap.contains_iff_mem] at pending
      exact iff_of_true (undisturbed_pure s) pending
  · rw [handleAck, if_neg ack]
    exact iff_of_true (undisturbed_pure s) fun type long => absurd ⟨type, long⟩ ack

theorem undisturbed_handleFragment_iff (frag : p.IsFragment) :
    Undisturbed (handleFragment p clock) s ↔ (reassembleCall p clock).AlreadyStored s.fragMgr := by
  have stored : ((reassembleCall p clock).run s.fragMgr).mgr.partials = s.fragMgr.partials ↔
      (reassembleCall p clock).AlreadyStored s.fragMgr := FragCall.partials_run_eq_self_iff frag
  constructor
  · intro h
    rw [← stored, ← fragMgr_handleFragment]
    exact h.partials
  · intro already
    have incomplete := FragCall.incomplete_of_alreadyStored (c := reassembleCall p clock) frag already
    obtain ⟨trace, post⟩ := handleFragment_of_incomplete incomplete
    rw [← stored] at already
    refine ⟨by rw [post], by rw [post], by rw [post], by rw [post], by rw [post, already], ?_⟩
    rw [trace]
    exact fun _ he => absurd he List.not_mem_nil

theorem silent_forward_iff :
    (∀ e ∈ (forward p clock : Action env Unit).trace s, ¬ e.Disturbing) ↔
      s.table.findNextHop p.header.dest clock.time = none ∨ p.header.ttl ≤ 1 := by
  rw [forward, trace_bind, trace_get, value_get, post_get, List.nil_append]
  cases s.table.findNextHop p.header.dest clock.time with
  | none => exact iff_of_true (fun e he => absurd he List.not_mem_nil) (.inl rfl)
  | some route =>
    rw [or_iff_right (Option.some_ne_none route), ← UInt8.not_lt]
    show (∀ e ∈ trace (if p.header.ttl > 1 then _ else _) s, _) ↔ _
    split_ifs with alive
    · exact iff_of_false (fun h => h _ List.mem_cons_self trivial) (not_not.2 alive)
    · exact iff_of_true (fun e he => absurd he List.not_mem_nil) alive

theorem undisturbed_handleSingle_iff :
    Undisturbed (handleSingle p clock) s ↔ Ignored p clock s := by
  have keeps {γ : Type} (f : NodeState env → γ)
      (h : ∀ s ciphers, f { s with pairCiphers := ciphers } = f s) :
      f ((handleSingle p clock).post s) = f s := leaves_decryptThen h leaves_deliverSingle s
  have small : p.body.length - aesBlockSize ≤ localBufferSize := by
    rw [Packet.body, length_slice]
    simp only [aesBlockSize, localBufferSize]
    omega
  obtain ⟨message, dec⟩ : ∃ message,
      decryptPayload p.body 1024 (env.cipher p.header.source) = .ok message := by
    simp only [decryptPayload, if_neg (not_lt.2 small)]
    split_ifs
    · exact ⟨_, rfl⟩
    · exact ⟨_, rfl⟩
  have silent : (∀ e ∈ (handleSingle p clock).trace s, ¬ e.Disturbing) ↔ Ignored p clock s := by
    have locks : ∀ e ∈ ([.lock, .unlock] : List Effect), ¬ e.Disturbing := by
      simp [Effect.Disturbing]
    rw [handleSingle, trace_decryptThen dec, List.forall_mem_append, and_iff_right locks, Ignored, dec,
      Except.ok.injEq]
    have table : ((getPairCipher p.header.source : Action env AES256).post s).table = s.table := rfl
    generalize (getPairCipher p.header.source : Action env AES256).post s = t at table
    rw [deliverSingle, ← table]
    split_ifs with empty notMine
    · refine iff_of_true (fun e he => ?_) (.inl (List.length_eq_zero_iff.1 empty))
      obtain rfl := List.mem_singleton.1 he
      exact id
    · rw [List.length_eq_zero_iff] at empty
      rw [or_iff_right empty, and_iff_right notMine]
      exact silent_forward_iff
    · rw [List.length_eq_zero_iff] at empty
      refine iff_of_false (fun h => h _ (List.mem_cons_of_mem _ List.mem_cons_self) trivial) ?_
      exact not_or.2 ⟨empty, fun h => notMine h.1⟩
  refine ⟨fun h => silent.1 h.silent, fun h => ⟨?_, ?_, ?_, ?_, ?_, silent.2 h⟩⟩
  · exact keeps _ fun _ _ => rfl
  · exact keeps _ fun _ _ => rfl
  · exact keeps _ fun _ _ => rfl
  · exact keeps _ fun _ _ => rfl
  · exact keeps (fun s => s.fragMgr.partials) fun _ _ => rfl

theorem undisturbed_handleData_iff :
    Undisturbed (handleData p clock) s ↔
      (p.header.type = .data → p.IsFragment → (reassembleCall p clock).AlreadyStored s.fragMgr) ∧
        (p.header.type = .data → ¬ p.IsFragment → Ignored p clock s) := by
  unfold handleData
  split_ifs with data frag
  · rw [undisturbed_handleFragment_iff frag, forall_prop_of_true data, forall_prop_of_true data,
      forall_prop_of_true frag, and_iff_left fun single => absurd frag single]
  · rw [undisturbed_handleSingle_iff, forall_prop_of_true data, forall_prop_of_true data,
      forall_prop_of_true frag, and_iff_right fun several => absurd several frag]
  · exact iff_of_true (undisturbed_pure s) ⟨fun h => absurd h data, fun h => absurd h data⟩

/-- The branches of the handler. -/
def branches (p : Packet) (clock : Clock) : Action env Unit := do
  handleDiscovery p
  handleRouteAdv p clock
  handleAck p
  handleData p clock

theorem undisturbed_branches_iff : Undisturbed (branches p clock) s ↔ Idle p clock s := by
  have discovery (h : p.header.type ≠ .discovery) : (handleDiscovery p : Action env Unit) = pure () :=
    if_neg h
  have routeAdv (h : p.header.type ≠ .routeAdv) :
      (handleRouteAdv p clock : Action env Unit) = pure () := if_neg h
  have ack (h : p.header.type ≠ .ack) : (handleAck p : Action env Unit) = pure () :=
    if_neg fun both => h both.1
  have data (h : p.header.type ≠ .data) : (handleData p clock : Action env Unit) = pure () := if_neg h
  rw [branches, undisturbed_seq_iff, undisturbed_seq_iff, undisturbed_seq_iff,
    undisturbed_handleDiscovery_iff, undisturbed_handleRouteAdv_iff, undisturbed_handleAck_iff,
    undisturbed_handleData_iff]
  · exact ⟨fun h => ⟨h.1, h.2.1, h.2.2.1, h.2.2.2.1, h.2.2.2.2⟩,
      fun h => ⟨h.1, h.2, h.3, h.4, h.5⟩⟩
  · by_cases type : p.header.type = .ack
    · exact .inr (data (type ▸ by decide))
    · exact .inl (ack type)
  · by_cases type : p.header.type = .routeAdv
    · rw [ack (type ▸ by decide), data (type ▸ by decide)]
      exact .inr rfl
    · exact .inl (routeAdv type)
  · by_cases type : p.header.type = .discovery
    · rw [routeAdv (type ▸ by decide), ack (type ▸ by decide), data (type ▸ by decide)]
      exact .inr rfl
    · exact .inl (discovery type)

end Branches

/-! ## The whole handler -/

section Handler

variable {p : Packet} {clock : Clock} {s : NodeState env}

theorem learnNeighbor_eq (known : macToString p.header.source ∈ s.knownNeighbors) :
    (learnNeighbor p clock : Action env Unit) s = ((), s, []) := by
  have look : (learnNeighbor p clock : Action env Unit) s =
      (if s.knownNeighbors.contains (macToString p.header.source) then pure () else do
        modify fun s => { s with
          knownNeighbors := s.knownNeighbors.insert (macToString p.header.source)
          table := s.table.addRoute p.header.source p.header.source 1 clock.time }
        emit (.log (.newNeighbor (macToString p.header.source))) : Action env Unit) s := rfl
  rw [look]
  split_ifs with old
  · rfl
  · exact absurd known old

theorem disturbing_autoDeliver (queued : s.queue.getPending p.header.source ≠ []) :
    ∃ e ∈ (autoDeliver p).trace s, e.Disturbing := by
  obtain ⟨entry, entries, pending⟩ := List.exists_cons_of_ne_nil queued
  have felt : ∃ e ∈ (deliverEntry entry).trace s, e.Disturbing := by
    rw [trace_deliverEntry]
    split_ifs
    · exact ⟨.overrun, List.mem_cons_self, trivial⟩
    · exact ⟨.send _ _, List.mem_cons_self, trivial⟩
  obtain ⟨e, he, disturbing⟩ := felt
  rw [trace_autoDeliver, pending, List.isEmpty_cons, if_neg Bool.false_ne_true, List.map_cons, runAll,
    trace_bind]
  exact ⟨e, List.mem_cons_of_mem _ (List.mem_append_left _ he), disturbing⟩

/-- A packet leaves the node undisturbed iff it is harmless. -/
theorem undisturbed_handlePacket_iff :
    Undisturbed (handlePacket p clock) s ↔ Harmless p clock s := by
  by_cases own : p.header.source = env.myMac
  · rw [handlePacket, if_pos own]
    exact iff_of_true (undisturbed_pure s) (.inl own)
  rw [Harmless, or_iff_right own]
  by_cases known : macToString p.header.source ∈ s.knownNeighbors
  · have parts : (handlePacket p clock : Action env Unit) s =
        (do
          emit .lock
          (do learnNeighbor p clock; autoDeliver p; branches p clock)
          emit .unlock : Action env Unit) s := by
      rw [handlePacket, if_neg own]
      simp only [handleControl, branches, bind_assoc]
    rw [undisturbed_congr parts, undisturbed_locked_iff,
      undisturbed_congr (bind_of_idle (learnNeighbor_eq known) _), and_iff_right known]
    by_cases queued : s.queue.getPending p.header.source = []
    · have idle : (autoDeliver p : Action env Unit) s = ((), s, []) := by
        rw [autoDeliver_eq, queued]
        rfl
      rw [undisturbed_congr (bind_of_idle idle _), and_iff_right queued, undisturbed_branches_iff]
    · obtain ⟨e, he, disturbing⟩ := disturbing_autoDeliver queued
      exact iff_of_false (fun h => h.silent e (List.mem_append_left _ he) disturbing) fun h => queued h.1
  · refine iff_of_false (fun h => ?_) fun h => known h.1
    have same := h.knownNeighbors
    rw [knownNeighbors_handlePacket p clock s own] at same
    rw [← same, mem_knownNeighbors_learnNeighbor] at known
    exact known (.inl rfl)

end Handler

/-! ## Frames -/

/-- A frame that is received and makes no valid packet leaves the node undisturbed. -/
def IgnoresInvalid (net : NetworkInterface) (frame : Option (List UInt8)) (prior : Packet)
    (clock : Clock) (s : NodeState env) : Prop :=
  (net.receivePacket frame prior).1 = true → (net.receivePacket frame prior).2.isValid = false →
    Undisturbed (handlePacket (net.receivePacket frame prior).2 clock) s

/-- A frame is ignored exactly when it is not received, or its packet is valid or harmless. -/
theorem ignoresInvalid_iff (net : NetworkInterface) (frame : Option (List UInt8)) (prior : Packet)
    (clock : Clock) (s : NodeState env) :
    IgnoresInvalid net frame prior clock s ↔
      ((net.receivePacket frame prior).1 = true →
        (net.receivePacket frame prior).2.isValid = false →
          Harmless (net.receivePacket frame prior).2 clock s) := by
  rw [IgnoresInvalid, undisturbed_handlePacket_iff]

/-- A frame with the beginning of an IP packet of 40 bytes. -/
def ipFrame : List UInt8 :=
  List.replicate 12 2 ++ [0x08, 0x00] ++
    [0x45, 0x00, 0x00, 0x28, 0x76, 0x90, 0x40, 0x00, 0x2a, 0x06, 0x24, 0x7c, 192, 168, 0, 1,
      192, 168, 0, 104, 0x01, 0xbb, 0xc0, 0x00]

/-- The node takes it for a packet of a new neighbour, `28:76:90:40:00:2a`. -/
theorem ip_packet_is_not_ignored :
    ¬ IgnoresInvalid NetworkInterface.openInterface (some ipFrame) NetworkInterface.helloPacket ⟨0, 0⟩
      (NodeState.start receiverEnv none) := by
  intro ignored
  have undisturbed := ignored (by decide) (by decide)
  rw [undisturbed_handlePacket_iff] at undisturbed
  obtain own | ⟨known, -⟩ := undisturbed
  · exact absurd own (by decide)
  · exact Std.ExtTreeSet.not_mem_empty known

end Araba
