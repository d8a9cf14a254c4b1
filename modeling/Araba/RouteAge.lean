import Araba.Routing
import Mathlib.Data.List.MinMax

/-!
# The age of a route

What a routing table holds after any sequence of `add_route` calls. A route is replaced only by a
strictly shorter one, and its timestamp is only set when it is replaced, so the table keeps the
earliest of the shortest routes with the time of that call, however often the same route is
advertised afterwards.
-/

namespace Araba

open Bytes

/-- The arguments of a call of `add_route`, with the reading of the clock that it takes. -/
structure AddRoute where
  dest : Mac
  nextHop : Mac
  hops : UInt8
  now : UInt64
  deriving DecidableEq

namespace AddRoute

/-- The entry that the call writes. -/
def entry (c : AddRoute) : RouteEntry where
  destination := c.dest
  nextHop := c.nextHop
  hops := c.hops
  lastUpdated := c.now
  isValid := true

/-- The call was made within the last 30 seconds. -/
def Recent (c : AddRoute) (now : UInt64) : Prop := now.toNat - c.now.toNat ≤ 30

instance (c : AddRoute) (now : UInt64) : Decidable (c.Recent now) := by
  unfold Recent
  infer_instance

end AddRoute

namespace RoutingTable

/-- The table after a sequence of calls. -/
def afterCalls (calls : List AddRoute) : RoutingTable :=
  calls.foldl (fun t c => t.addRoute c.dest c.nextHop c.hops c.now) {}

/-- The calls for a destination. -/
def callsFor (d : Mac) (calls : List AddRoute) : List AddRoute := calls.filter fun c => c.dest = d

/-- The first of the calls for a destination that announce the fewest hops. -/
def shortest (d : Mac) (calls : List AddRoute) : Option AddRoute :=
  (callsFor d calls).argmin fun c => c.hops.toNat

theorem afterCalls_concat (calls : List AddRoute) (c : AddRoute) :
    afterCalls (calls ++ [c]) = (afterCalls calls).addRoute c.dest c.nextHop c.hops c.now := by
  simp [afterCalls]

theorem callsFor_concat (d : Mac) (calls : List AddRoute) (c : AddRoute) :
    callsFor d (calls ++ [c]) = callsFor d calls ++ if c.dest = d then [c] else [] := by
  simp only [callsFor, List.filter_append, List.filter_singleton, Bool.cond_decide]

theorem mem_callsFor (d : Mac) (calls : List AddRoute) (c : AddRoute) :
    c ∈ callsFor d calls ↔ c ∈ calls ∧ c.dest = d := by
  simp [callsFor]

theorem shortest_concat (d : Mac) (calls : List AddRoute) (c : AddRoute) :
    shortest d (calls ++ [c]) =
      if c.dest = d then
        some ((shortest d calls).elim c fun best => if c.hops < best.hops then c else best)
      else shortest d calls := by
  rw [shortest, shortest, callsFor_concat]
  split_ifs with same
  · rw [List.argmin_concat]
    cases List.argmin (fun c : AddRoute => c.hops.toNat) (callsFor d calls) with
    | none => rfl
    | some best =>
      simp only [Option.elim_some, ← UInt8.lt_iff_toNat_lt]
      split_ifs <;> rfl
  · rw [List.append_nil]

theorem table_addRoute (t : RoutingTable) (c : AddRoute) (d : Mac) :
    (t.addRoute c.dest c.nextHop c.hops c.now).table[macToKey d]? =
      if c.dest = d then
        let old := t.table[macToKey d]?.getD {}
        some (if !old.isValid ∨ c.hops < old.hops then c.entry else old)
      else t.table[macToKey d]? := by
  by_cases same : c.dest = d
  · subst same
    simp only [addRoute, if_true]
    split_ifs <;> simp [AddRoute.entry]
  · have key : ¬ compare (macToKey c.dest) (macToKey d) = .eq := by rwa [compare_macToKey_eq_iff]
    simp only [addRoute, if_neg same]
    split_ifs <;> rw [Std.ExtTreeMap.getElem?_insert, if_neg key]

/-- In every run, the table holds the first of the shortest routes. -/
theorem table_afterCalls (calls : List AddRoute) (d : Mac) :
    (afterCalls calls).table[macToKey d]? = (shortest d calls).map AddRoute.entry := by
  induction calls using List.reverseRecOn with
  | nil => simp [afterCalls, shortest, callsFor]
  | append_singleton calls c ih =>
    rw [afterCalls_concat, table_addRoute, ih, shortest_concat]
    split_ifs with same
    · cases shortest d calls with
      | none => simp
      | some best =>
        have valid : best.entry.isValid = true := rfl
        have hops : best.entry.hops = best.hops := rfl
        simp only [Option.map_some, Option.getD_some, Option.elim_some, valid, hops, Bool.not_true,
          Bool.false_eq_true, false_or]
        split_ifs <;> rfl
    · rfl

theorem isStale_iff {c : AddRoute} {now : UInt64} (past : c.now ≤ now) :
    isStale c.now now = false ↔ c.Recent now := by
  have difference : (now - c.now).toNat = now.toNat - c.now.toNat := UInt64.toNat_sub_of_le _ _ past
  rw [isStale, decide_eq_false_iff_not, gt_iff_lt, UInt64.lt_iff_toNat_lt, not_lt, difference]
  rfl

/-- The first of the shortest routes is found while it is at most 30 seconds old. -/
theorem findNextHop_afterCalls {calls : List AddRoute} {now : UInt64}
    (past : ∀ c ∈ calls, c.now ≤ now) (d : Mac) :
    (afterCalls calls).findNextHop d now =
      ((shortest d calls).filter fun c => c.Recent now).map AddRoute.entry := by
  rw [findNextHop, table_afterCalls]
  cases h : shortest d calls with
  | none => rfl
  | some best =>
    have mem := ((mem_callsFor d calls best).1 (List.argmin_mem h)).1
    have fresh := isStale_iff (past best mem)
    by_cases recent : best.Recent now
    · simp [AddRoute.entry, fresh.2 recent, recent]
    · have stale : isStale best.now now = true :=
        Bool.not_eq_false _ ▸ fun e => recent (fresh.1 e)
      simp [AddRoute.entry, stale, recent]

/-- When a route to the destination was announced within the last 30 seconds, one is found, and its
next hop was announced within the last 30 seconds. -/
def SelfHealing (calls : List AddRoute) (d : Mac) (now : UInt64) : Prop :=
  (∃ c ∈ calls, c.dest = d ∧ c.Recent now) →
    ∃ e, (afterCalls calls).findNextHop d now = some e ∧
      ∃ c ∈ calls, c.dest = d ∧ c.Recent now ∧ c.nextHop = e.nextHop

/-- In every run with a clock that does not go back, the table heals itself exactly when the first of
the shortest routes is recent, or no route is. -/
theorem selfHealing_iff (calls : List AddRoute) (d : Mac) (now : UInt64)
    (order : (calls.map AddRoute.now ++ [now]).Pairwise (· ≤ ·)) :
    SelfHealing calls d now ↔
      (∃ c ∈ calls, c.dest = d ∧ c.Recent now) → ∃ c ∈ shortest d calls, c.Recent now := by
  have past : ∀ c ∈ calls, c.now ≤ now := fun c hc =>
    (List.pairwise_append.1 order).2.2 _ (List.mem_map_of_mem hc) _ (List.mem_singleton_self _)
  refine imp_congr_right fun _ => ?_
  rw [findNextHop_afterCalls past]
  cases h : shortest d calls with
  | none => simp
  | some best =>
    obtain ⟨mem, dest⟩ := (mem_callsFor d calls best).1 (List.argmin_mem h)
    by_cases recent : best.Recent now
    · refine iff_of_true ⟨best.entry, by simp [recent], best, mem, dest, recent, rfl⟩ ?_
      exact ⟨best, rfl, recent⟩
    · exact iff_of_false (by simp [recent]) (by simp [recent])

/-- A neighbour's route, announced again 20 seconds later. -/
def announcedTwice : List AddRoute :=
  [⟨sampleMac 2, sampleMac 2, 1, 0⟩,
    ⟨sampleMac 2, sampleMac 2, 1, 20⟩]

theorem selfHealing_iff_announcedTwice :
    SelfHealing announcedTwice #v[2, 0, 0, 0, 0, 2] 25 :=
  (selfHealing_iff announcedTwice #v[2, 0, 0, 0, 0, 2] 25 (by decide)).2 fun _ =>
    ⟨⟨#v[2, 0, 0, 0, 0, 2], #v[2, 0, 0, 0, 0, 2], 1, 0⟩, by decide, by decide⟩

/-- After 40 seconds the route is stale, though it was announced 20 seconds ago. -/
theorem announced_and_stale : ¬ SelfHealing announcedTwice #v[2, 0, 0, 0, 0, 2] 40 := by
  intro heals
  obtain ⟨e, found, -⟩ := heals (by decide)
  have past : ∀ c ∈ announcedTwice, c.now ≤ 40 := by decide
  have none' : ((shortest #v[2, 0, 0, 0, 0, 2] announcedTwice).filter fun c => c.Recent 40) = none := by
    decide
  rw [findNextHop_afterCalls past, none'] at found
  exact Option.some_ne_none _ found.symm

/-! ## What the table holds -/

/-- The call is the earliest of those for the destination that announce the fewest hops. -/
def FirstShortest (d : Mac) (calls : List AddRoute) (c : AddRoute) : Prop :=
  ∃ pre post, calls = pre ++ c :: post ∧ c.dest = d ∧
    (∀ c' ∈ pre, c'.dest = d → c.hops < c'.hops) ∧ ∀ c' ∈ post, c'.dest = d → c.hops ≤ c'.hops

theorem hops_le_of_firstShortest {d : Mac} {calls : List AddRoute} {c : AddRoute}
    (first : FirstShortest d calls c) : ∀ c' ∈ calls, c'.dest = d → c.hops ≤ c'.hops := by
  obtain ⟨pre, post, rfl, -, before, after⟩ := first
  intro c' mem own
  rcases List.mem_append.1 mem with mem | mem
  · exact UInt8.le_of_lt (before c' mem own)
  · rcases List.mem_cons.1 mem with rfl | mem
    · exact UInt8.le_refl _
    · exact after c' mem own

theorem shortest_eq_none_iff (d : Mac) (calls : List AddRoute) :
    shortest d calls = none ↔ ∀ c ∈ calls, c.dest ≠ d := by
  rw [shortest, List.argmin_eq_none, callsFor, List.filter_eq_nil_iff]
  simp

theorem firstShortest_of_shortest {d : Mac} {calls : List AddRoute} {c : AddRoute}
    (h : shortest d calls = some c) : FirstShortest d calls c := by
  induction calls using List.reverseRecOn generalizing c with
  | nil => cases h
  | append_singleton calls x ih =>
    rw [shortest_concat] at h
    split_ifs at h with own
    · obtain rfl := Option.some.inj h
      cases best : shortest d calls with
      | none =>
        have none' := (shortest_eq_none_iff d calls).1 best
        exact ⟨calls, [], rfl, own, fun c' mem same => absurd same (none' c' mem), nofun⟩
      | some b =>
        have first := ih best
        simp only [Option.elim_some]
        split_ifs with shorter
        · exact ⟨calls, [], rfl, own, fun c' mem same =>
            UInt8.lt_of_lt_of_le shorter (hops_le_of_firstShortest first c' mem same), nofun⟩
        · obtain ⟨pre, post, rfl, dest, before, after⟩ := first
          refine ⟨pre, post ++ [x], by simp, dest, before, fun c' mem same => ?_⟩
          rcases List.mem_append.1 mem with mem | mem
          · exact after c' mem same
          · rw [List.mem_singleton.1 mem]
            exact UInt8.not_lt.1 shorter
    · obtain ⟨pre, post, rfl, dest, before, after⟩ := ih h
      refine ⟨pre, post ++ [x], by simp, dest, before, fun c' mem same => ?_⟩
      rcases List.mem_append.1 mem with mem | mem
      · exact after c' mem same
      · rw [List.mem_singleton.1 mem] at same
        exact absurd same own

theorem getRoute_afterCalls (calls : List AddRoute) (d : Mac) :
    (afterCalls calls).getRoute d = (shortest d calls).map AddRoute.entry := by
  rw [getRoute, table_afterCalls]
  cases shortest d calls <;> rfl

/-- The age is taken modulo 2⁶⁴. -/
theorem isStale_eq (timestamp now : UInt64) :
    isStale timestamp now = decide (30 < (2 ^ 64 - timestamp.toNat + now.toNat) % 2 ^ 64) := by
  have age : (now - timestamp).toNat = (2 ^ 64 - timestamp.toNat + now.toNat) % 2 ^ 64 :=
    UInt64.toNat_sub now timestamp
  rw [isStale, decide_eq_decide, gt_iff_lt, UInt64.lt_iff_toNat_lt, age]
  rfl

/-- After every run, there is no route to a destination that no call has named. To another one there
is the route of the earliest of the calls for it that announce the fewest hops, and it is found while
it is at most 30 seconds old. The calls for other destinations make no difference. -/
theorem routes_afterCalls (calls : List AddRoute) (d : Mac) (t : UInt64) :
    ((∀ c ∈ calls, c.dest ≠ d) →
      (afterCalls calls).getRoute d = none ∧ (afterCalls calls).findNextHop d t = none) ∧
    ((∃ c ∈ calls, c.dest = d) → ∃ c, FirstShortest d calls c ∧
      (∀ c' ∈ calls, c'.dest = d → c.hops ≤ c'.hops) ∧
      (afterCalls calls).getRoute d = some ⟨d, c.nextHop, c.hops, c.now, true⟩ ∧
      (afterCalls calls).findNextHop d t =
        if (2 ^ 64 - c.now.toNat + t.toNat) % 2 ^ 64 ≤ 30 then
          some ⟨d, c.nextHop, c.hops, c.now, true⟩ else none) ∧
    ∀ calls', callsFor d calls' = callsFor d calls →
      (afterCalls calls').getRoute d = (afterCalls calls).getRoute d ∧
        (afterCalls calls').findNextHop d t = (afterCalls calls).findNextHop d t := by
  refine ⟨fun none' => ?_, fun ⟨c', mem, own⟩ => ?_, fun calls' same => ?_⟩
  · rw [findNextHop_eq_filter, getRoute_afterCalls, (shortest_eq_none_iff d calls).2 none']
    exact ⟨rfl, rfl⟩
  · cases best : shortest d calls with
    | none => exact absurd own ((shortest_eq_none_iff d calls).1 best c' mem)
    | some c =>
      have first := firstShortest_of_shortest best
      have route : (afterCalls calls).getRoute d = some ⟨d, c.nextHop, c.hops, c.now, true⟩ := by
        obtain ⟨-, -, -, rfl, -⟩ := first
        rw [getRoute_afterCalls, best]
        rfl
      refine ⟨c, first, hops_le_of_firstShortest first, route, ?_⟩
      rw [findNextHop_eq_filter, route, Option.filter_some, isStale_eq]
      by_cases fresh : (2 ^ 64 - c.now.toNat + t.toNat) % 2 ^ 64 ≤ 30
      · rw [if_pos fresh, decide_eq_false (not_lt.2 fresh)]
        rfl
      · rw [if_neg fresh, decide_eq_true (not_le.1 fresh)]
        rfl
  · have shortest' : shortest d calls' = shortest d calls := by rw [shortest, same, shortest]
    rw [findNextHop_eq_filter, findNextHop_eq_filter, getRoute_afterCalls, getRoute_afterCalls,
      shortest']
    exact ⟨rfl, rfl⟩

end RoutingTable

end Araba
