import Araba.MacText
import Std.Data.ExtTreeMap

/-!
# The routing table

`RoutingTable` of `routing.cpp`, with the readings of `std::time` as arguments.
-/

namespace Araba

open Bytes

/-- `struct RouteEntry`, with the values of its constructor. -/
structure RouteEntry where
  destination : Mac := Vector.replicate 6 0
  nextHop : Mac := Vector.replicate 6 0
  hops : UInt8 := 255
  lastUpdated : UInt64 := 0
  isValid : Bool := false
  deriving DecidableEq

/-- `class RoutingTable`: the routes by the text of their destination. -/
structure RoutingTable where
  table : Std.ExtTreeMap Str RouteEntry := ∅

namespace RoutingTable

/-- `mac_to_key`. -/
def macToKey (mac : Mac) : Str :=
  hexByte (mac.get 0) ++ text ":" ++ hexByte (mac.get 1) ++ text ":" ++ hexByte (mac.get 2) ++
    text ":" ++ hexByte (mac.get 3) ++ text ":" ++ hexByte (mac.get 4) ++ text ":" ++
    hexByte (mac.get 5)

theorem macToKey_eq_macToString : macToKey = macToString := rfl

/-- `add_route`: only a route with fewer hops replaces a valid one. -/
def addRoute (t : RoutingTable) (dest nextHop : Mac) (hops : UInt8) (now : UInt64) : RoutingTable :=
  let key := macToKey dest
  let entry := t.table[key]?.getD {}
  if !entry.isValid ∨ hops < entry.hops then
    { table := t.table.insert key
        { destination := dest
          nextHop := nextHop
          hops := hops
          lastUpdated := now
          isValid := true } }
  else { table := t.table.insert key entry }

/-- `get_route`, which does not ask for the age. -/
def getRoute (t : RoutingTable) (dest : Mac) : Option RouteEntry :=
  match t.table[macToKey dest]? with
  | some entry => if entry.isValid then some entry else none
  | none => none

/-- Unsigned arithmetic: a timestamp ahead of the clock is stale. -/
def isStale (timestamp now : UInt64) : Bool := now - timestamp > 30

/-- `find_next_hop`: a route that is stale is not taken. -/
def findNextHop (t : RoutingTable) (dest : Mac) (now : UInt64) : Option RouteEntry :=
  match t.table[macToKey dest]? with
  | some entry => if entry.isValid && !isStale entry.lastUpdated now then some entry else none
  | none => none

theorem findNextHop_eq_filter (t : RoutingTable) (dest : Mac) (now : UInt64) :
    t.findNextHop dest now = (t.getRoute dest).filter fun e => !isStale e.lastUpdated now := by
  simp only [findNextHop, getRoute]
  cases t.table[macToKey dest]? with
  | none => rfl
  | some entry => cases hv : entry.isValid <;> simp [hv, Option.filter_some]

theorem compare_macToKey_eq_iff (a b : Mac) : compare (macToKey a) (macToKey b) = .eq ↔ a = b := by
  rw [Std.LawfulEqCmp.compare_eq_iff_eq, macToKey_eq_macToString, macToString_injective.eq_iff]

theorem getRoute_addRoute_of_ne (t : RoutingTable) {dest other : Mac} (h : dest ≠ other)
    (nextHop : Mac) (hops : UInt8) (now : UInt64) :
    (t.addRoute dest nextHop hops now).getRoute other = t.getRoute other := by
  have key : ¬ compare (macToKey dest) (macToKey other) = .eq := by
    rwa [compare_macToKey_eq_iff]
  simp only [getRoute, addRoute]
  split_ifs <;> rw [Std.ExtTreeMap.getElem?_insert, if_neg key]

/-- After a route to a destination has been added there is one, no longer than it. -/
theorem getRoute_addRoute_self (t : RoutingTable) (dest nextHop : Mac) (hops : UInt8)
    (now : UInt64) :
    ∃ e, (t.addRoute dest nextHop hops now).getRoute dest = some e ∧ e.hops ≤ hops := by
  simp only [getRoute, addRoute]
  split_ifs with better
  · exact ⟨⟨dest, nextHop, hops, now, true⟩, by simp, UInt8.le_refl _⟩
  · rw [not_or, UInt8.not_lt] at better
    exact ⟨t.table[macToKey dest]?.getD {}, by simpa using better.1, better.2⟩

end RoutingTable

end Araba
