import Araba.Discovery
import Araba.Lib.Improving

/-!
# How long there is a route

A route is only written when there is none that is as short, and is used for 30 seconds after it was
written. As the routes of a mesh have one hop or two, there is a route to a destination twice at most.
-/

namespace Araba

namespace RoutingTable

variable {t : RoutingTable}

/-- What the routes to a destination are compared by. -/
def hopsOf (e : RouteEntry) : ℕ := e.hops.toNat

theorem improves_addRoute (dest via : Mac) (hops : UInt8) (now : UInt64) (d : Mac) :
    Improves hopsOf (t.getRoute d) ((t.addRoute dest via hops now).getRoute d) := by
  by_cases same : dest = d
  · subst same
    by_cases has : t.HasRoute dest hops
    · rw [addRoute_eq_self has]
      exact .refl _
    · refine Or.inr ⟨_, getRoute_addRoute_of_not has, fun e found => ?_⟩
      have longer : ¬ e.hops ≤ hops := fun short => has ⟨e, found, short⟩
      exact UInt8.lt_iff_toNat_lt.1 (UInt8.not_le.1 longer)
  · rw [getRoute_addRoute_of_ne t same]
    exact .refl _

theorem improves_withCalls (calls : List AddRoute) (d : Mac) :
    Improves hopsOf (t.getRoute d) ((t.withCalls calls).getRoute d) := by
  induction calls generalizing t with
  | nil => exact .refl _
  | cons c calls ih => exact (improves_addRoute c.dest c.nextHop c.hops c.now d).trans ih

end RoutingTable

namespace Mesh

open RoutingTable

variable {E : MeshEnv}

/-- No step of the mesh makes a route longer, or writes it again. -/
theorem improves_step (M : Mesh E) (op : MeshStep) (m d : Mac) :
    Improves hopsOf ((M.sites m).state.table.getRoute d)
      (((M.step op).sites m).state.table.getRoute d) := by
  obtain ⟨nodeSteps, state⟩ := M.exists_nodeSteps_step op m
  rw [state, table_stateAfter]
  exact improves_withCalls _ d

theorem improves_take (M : Mesh E) (steps : List MeshStep) (m d : Mac) (k : ℕ) :
    Improves hopsOf (((M.after (steps.take k)).sites m).state.table.getRoute d)
      (((M.after (steps.take (k + 1))).sites m).state.table.getRoute d) := by
  rw [List.take_add_one, after_append]
  cases steps[k]? with
  | none => exact .refl _
  | some op => exact improves_step _ op m d

/-- In every run of the mesh there are two times, such that whenever a node finds a next hop for a
destination, it is within 30 seconds of one of the two. -/
theorem routable_briefly (queueFiles : Mac → Option (List UInt8)) (steps : List MeshStep) (m d : Mac) :
    ∃ times : List UInt64, times.length ≤ 2 ∧ ∀ before, before <+: steps → ∀ now,
      ((((start queueFiles : Mesh E).after before).sites m).state.table.findNextHop d now).isSome →
        ∃ t ∈ times, now - t ≤ 30 := by
  set run : ℕ → Option RouteEntry := fun k =>
    (((start queueFiles : Mesh E).after (steps.take k)).sites m).state.table.getRoute d with run_def
  have bounds (k : ℕ) (e : RouteEntry) (found : run k = some e) : 1 ≤ hopsOf e ∧ hopsOf e < 3 := by
    rcases (coherent_after queueFiles (steps.take k) m).route d e found with direct | ⟨two, -⟩
    · rw [hopsOf, direct.2]
      decide
    · rw [hopsOf, two]
      decide
  obtain ⟨entries, few, all⟩ := Improves.exists_values run rfl
    (fun k => improves_take _ steps m d k) bounds steps.length
  refine ⟨entries.map RouteEntry.lastUpdated, by rwa [List.length_map], fun before early now found => ?_⟩
  obtain ⟨e, found⟩ := Option.isSome_iff_exists.1 found
  rw [findNextHop_eq_filter, Option.filter_eq_some_iff] at found
  obtain ⟨entry, fresh⟩ := found
  have here : run before.length = some e := by
    rw [run_def]
    dsimp only
    rw [← List.prefix_iff_eq_take.1 early, entry]
  refine ⟨e.lastUpdated, List.mem_map_of_mem (all _ early.length_le e here), ?_⟩
  simpa [isStale] using fresh

end Mesh

end Araba
