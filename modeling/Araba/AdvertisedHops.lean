import Araba.InvalidPackets
import Araba.RouteAge

/-!
# The hops of an advertised route

`unpack_routes` takes the hop byte off the wire unchecked and adds one to it in eight bits, so that
the farthest destination that a peer can announce becomes the nearest one, for good.
-/

namespace Araba

open RoutingTable

/-! ## Hops -/

namespace RoutingTable

/-- The route to the destination after a call is the new one, if it is the first or shorter. -/
theorem getRoute_addRoute (t : RoutingTable) (d via : Mac) (hops : UInt8) (now : UInt64) :
    (t.addRoute d via hops now).getRoute d =
      some ((t.getRoute d).elim ⟨d, via, hops, now, true⟩ fun e =>
        if hops < e.hops then ⟨d, via, hops, now, true⟩ else e) := by
  have call := table_addRoute t ⟨d, via, hops, now⟩ d
  rw [if_pos rfl] at call
  rw [getRoute, call, getRoute]
  cases t.table[macToKey d]? with
  | none => rfl
  | some e =>
    cases valid : e.isValid with
    | false => simp [valid, AddRoute.entry]
    | true =>
      by_cases shorter : hops < e.hops <;> simp [valid, shorter, AddRoute.entry]

/-- The table says that the destination is no hop away. -/
def NoHops (t : RoutingTable) (d : Mac) : Prop := ∃ e, t.getRoute d = some e ∧ e.hops = 0

/-- The call for one record of an advertisement. -/
def addListed (via : Mac) (now : UInt64) (t : RoutingTable) (r : Mac × UInt8) : RoutingTable :=
  t.addRoute r.1 via (r.2 + 1) now

/-- The stored hop count of a route that a record installs or replaces is greater than the advertised
one, and a direct route is not replaced. -/
def Grows (via : Mac) (now : UInt64) (t : RoutingTable) (r : Mac × UInt8) : Prop :=
  ((t.addListed via now r).getRoute r.1 ≠ t.getRoute r.1 →
      ∃ e, (t.addListed via now r).getRoute r.1 = some e ∧ r.2 < e.hops) ∧
    ∀ e, t.getRoute r.1 = some e → e.hops = 1 → (t.addListed via now r).getRoute r.1 = some e

variable {via : Mac} {now : UInt64} {t : RoutingTable} {r : Mac × UInt8}

theorem toNat_add_one {b : UInt8} (small : b ≠ 255) : (b + 1).toNat = b.toNat + 1 := by
  have less : b.toNat < 255 := by
    have lt := b.toNat_lt
    have ne : b.toNat ≠ 255 := fun e => small (UInt8.toNat_inj.1 e)
    omega
  rw [UInt8.toNat_add]
  exact Nat.mod_eq_of_lt (show b.toNat + 1 < 256 by omega)

theorem lt_add_one {b : UInt8} : b < b + 1 ↔ b ≠ 255 := by
  constructor
  · rintro less rfl
    exact absurd less (by decide)
  · intro small
    rw [UInt8.lt_iff_toNat_lt, toNat_add_one small]
    exact Nat.lt_succ_self _

theorem noHops_iff_of_some {e : RouteEntry} (route : t.getRoute r.1 = some e) :
    t.NoHops r.1 ↔ e.hops = 0 := by
  rw [NoHops, route]
  simp

/-- A record grows unless its hop byte wraps, and even then if there is a route of no hops already. -/
theorem grows_iff : Grows via now t r ↔ (r.2 = 255 → t.NoHops r.1) := by
  have call := getRoute_addRoute t r.1 via (r.2 + 1) now
  rw [Grows, addListed, call]
  cases route : t.getRoute r.1 with
  | none =>
    have absent : ¬ t.NoHops r.1 := by
      rintro ⟨e, here, -⟩
      rw [route] at here
      cases here
    simp [absent, lt_add_one]
  | some e =>
    rw [noHops_iff_of_some route]
    simp only [Option.elim_some, Option.some.injEq, ne_eq, forall_eq', exists_eq_left']
    by_cases shorter : r.2 + 1 < e.hops
    · have other : (⟨r.1, via, r.2 + 1, now, true⟩ : RouteEntry) ≠ e := by
        rintro rfl
        exact absurd shorter (UInt8.lt_irrefl _)
      have far : e.hops ≠ 0 := by
        intro zero
        rw [zero] at shorter
        exact absurd shorter (UInt8.not_lt.2 (UInt8.zero_le))
      simp only [if_pos shorter, other, not_false_eq_true, true_imp_iff, far, imp_false, lt_add_one]
      refine and_iff_left_of_imp fun small one => ?_
      rw [one, UInt8.lt_iff_toNat_lt, toNat_add_one small] at shorter
      exact absurd shorter (by simp)
    · simp only [if_neg shorter, not_true_eq_false, false_imp_iff, true_and, implies_true,
        true_iff]
      intro wraps
      rw [wraps] at shorter
      exact UInt8.toNat_inj.1 (by
        have := UInt8.not_lt.1 shorter
        rw [UInt8.le_iff_toNat_le] at this
        simpa using this)

/-- After a record there is a route of no hops iff there was one before, or the record has made it. -/
theorem noHops_addListed {d : Mac} :
    (t.addListed via now r).NoHops d ↔ t.NoHops d ∨ r.1 = d ∧ r.2 = 255 := by
  by_cases own : r.1 = d
  · subst own
    have zero : r.2 + 1 = 0 ↔ r.2 = 255 := by
      constructor
      · intro wraps
        by_contra small
        have grown := toNat_add_one small
        rw [wraps] at grown
        cases grown
      · intro wraps
        rw [wraps]
        rfl
    rw [NoHops, addListed, getRoute_addRoute]
    cases route : t.getRoute r.1 with
    | none =>
      have absent : ¬ t.NoHops r.1 := by
        rintro ⟨e, here, -⟩
        rw [route] at here
        cases here
      simp [absent, zero]
    | some e =>
      rw [noHops_iff_of_some route]
      by_cases shorter : r.2 + 1 < e.hops
      · have far : e.hops ≠ 0 := by
          intro none'
          rw [none'] at shorter
          exact absurd shorter (UInt8.not_lt.2 UInt8.zero_le)
        simp [shorter, zero, far]
      · have none' : r.2 = 255 → e.hops = 0 := by
          intro wraps
          rw [zero.2 wraps] at shorter
          exact UInt8.le_antisymm (UInt8.not_lt.1 shorter) UInt8.zero_le
        simpa [shorter] using none'
  · have same := getRoute_addRoute_of_ne t own via (r.2 + 1) now
    rw [NoHops, addListed, same, or_iff_left fun h => own h.1, NoHops]

end RoutingTable

/-- Every record of the advertisement grows when its turn comes. -/
def HopsGrow (payload : List UInt8) (via : Mac) (now : UInt64) (t : RoutingTable) : Prop :=
  ∀ pre r post, listedRoutes payload = pre ++ r :: post →
    (pre.foldl (addListed via now) t).Grows via now r

/-- What holds of the records of a list in turn, one record at a time. -/
theorem grows_iff_forall (via : Mac) (now : UInt64) (rs : List (Mac × UInt8)) (t : RoutingTable) :
    (∀ pre r post, rs = pre ++ r :: post → (pre.foldl (addListed via now) t).Grows via now r) ↔
      ∀ r ∈ rs, r.2 = 255 → t.NoHops r.1 := by
  induction rs generalizing t with
  | nil => simp
  | cons r rs ih =>
    have turns : (∀ pre r' post, r :: rs = pre ++ r' :: post →
        (pre.foldl (addListed via now) t).Grows via now r') ↔
        t.Grows via now r ∧ ∀ pre r' post, rs = pre ++ r' :: post →
          (pre.foldl (addListed via now) (t.addListed via now r)).Grows via now r' := by
      constructor
      · intro all
        exact ⟨all [] r rs rfl, fun pre r' post split => all (r :: pre) r' post (by rw [split]; rfl)⟩
      · rintro ⟨first, rest⟩ pre r' post split
        cases pre with
        | nil =>
          obtain ⟨rfl, -⟩ := List.cons.inj split
          exact first
        | cons p pre =>
          obtain ⟨rfl, tail⟩ := List.cons.inj split
          exact rest pre r' post tail
    rw [turns, ih, grows_iff, List.forall_mem_cons]
    refine and_congr_right fun first => forall₂_congr fun r' _ => imp_congr_right fun _ => ?_
    rw [noHops_addListed]
    refine or_iff_left_of_imp ?_
    rintro ⟨same, wraps⟩
    exact same ▸ first wraps

/-- `unpack_routes` adds the records in turn, and the hop counts grow each time exactly when the only
destinations that are advertised at 255 hops are those that the table takes to be no hop away. -/
theorem hopsGrow_iff (payload : List UInt8) (via : Mac) (now : UInt64) (t : RoutingTable) :
    unpackRoutes payload via t now = (listedRoutes payload).foldl (addListed via now) t ∧
      (HopsGrow payload via now t ↔ ∀ r ∈ listedRoutes payload, r.2 = 255 → t.NoHops r.1) :=
  ⟨unpackRoutes_eq_foldl payload via t now, grows_iff_forall via now (listedRoutes payload) t⟩

/-- An advertisement of one node at 255 hops. -/
def farAdvert : List UInt8 := [1, 2, 0, 0, 0, 0, 3, 255]

/-- A table with a direct route to this node. -/
def directTable : RoutingTable := ({} : RoutingTable).addRoute (sampleMac 3) (sampleMac 3) 1 100

/-- The direct route gives way to one that is stored as no hops. -/
theorem far_route_replaces_direct : ¬ HopsGrow farAdvert #v[2, 0, 0, 0, 0, 2] 110 directTable := by
  intro grow
  have kept := (grow [] (#v[2, 0, 0, 0, 0, 3], 255) [] rfl).2
    ⟨#v[2, 0, 0, 0, 0, 3], #v[2, 0, 0, 0, 0, 3], 1, 100, true⟩ (by decide) rfl
  revert kept
  decide

end Araba
