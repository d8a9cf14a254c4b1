import Araba.Lib.Cells
import Araba.StoreAndForward

/-!
# The buffers of `pack_routes` and `unpack_routes`

Both functions cell by cell, with the calls of `add_route` that the second makes. A record is seven
bytes long; the number of records that fit behind the count is the same for both.
-/

namespace Araba

open Bytes Traced Cells RoutingTable

/-- The payload that is filled or read. -/
inductive RouteArray
  | payload
  deriving DecidableEq

/-! ## The code -/

/-- The loop of `pack_routes`: the offset and the count when it ends. -/
def packLoopCells (maxSize : ℕ) : List Str → ℕ → UInt8 → Program RouteArray AddRoute (ℕ × UInt8)
  | [], offset, count => return (offset, count)
  | n :: ns, offset, count =>
    if offset + 7 > maxSize then return (offset, count)
    else do
      storeAll .payload offset (stringToMac n).toList
      store .payload (offset + 6) 1
      packLoopCells maxSize ns (offset + 7) (count + 1)

/-- The number of bytes that are filled. -/
def packRoutesCells (neighbors : List Str) (maxSize : ℕ) : Program RouteArray AddRoute ℕ := do
  let (offset, count) ← packLoopCells maxSize neighbors 1 0
  store .payload 0 count
  return offset

/-- The loop of `unpack_routes`, with the turns that are left. -/
def unpackLoopCells (len : ℕ) (via : Mac) (now : UInt64) :
    ℕ → ℕ → RoutingTable → Program RouteArray AddRoute RoutingTable
  | 0, _, table => return table
  | n + 1, offset, table =>
    if offset + 7 > len then return table
    else do
      let dest ← loadAll .payload offset 6
      let hops ← load .payload (offset + 6)
      let route : AddRoute := ⟨Vector.ofFn fun i => dest[i.val]?.getD 0, via, hops + 1, now⟩
      emit (.call route)
      unpackLoopCells len via now n (offset + 7)
        (table.addRoute route.dest route.nextHop route.hops route.now)

/-- The table after the calls that are made. -/
def unpackRoutesCells (len : ℕ) (via : Mac) (table : RoutingTable) (now : UInt64) :
    Program RouteArray AddRoute RoutingTable :=
  if len < 1 then return table
  else do
    let count ← load .payload 0
    unpackLoopCells len via now count.toNat 1 table

/-! ## Packing -/

/-- The bytes of a record. -/
def routeRecord (n : Str) : List UInt8 := (stringToMac n).toList ++ [1]

theorem length_routeRecord (n : Str) : (routeRecord n).length = 7 := by
  simp [routeRecord]

/-- The number of records that fit from `offset` on. -/
def roomFrom (maxSize offset : ℕ) : ℕ := (maxSize - offset) / 7

theorem length_records (ns : List Str) : (ns.flatMap routeRecord).length = 7 * ns.length :=
  length_flatMap_of_length length_routeRecord ns

/-- The loop fills the cells from `offset` on with the records that fit, and nothing else. -/
theorem packLoopCells_eq (maxSize : ℕ) (ns : List Str) (offset : ℕ) (count : UInt8)
    (m : Memory RouteArray) :
    (packLoopCells maxSize ns offset count).value m =
        (offset + 7 * (ns.take (roomFrom maxSize offset)).length,
          count + UInt8.ofNat (ns.take (roomFrom maxSize offset)).length) ∧
      (packLoopCells maxSize ns offset count).post m =
        m.put .payload offset ((ns.take (roomFrom maxSize offset)).flatMap routeRecord) ∧
      (packLoopCells maxSize ns offset count).trace m =
        stores .payload offset (7 * (ns.take (roomFrom maxSize offset)).length) := by
  induction ns generalizing offset count m with
  | nil => simp [packLoopCells, stores]
  | cons n ns ih =>
    unfold packLoopCells
    by_cases full : offset + 7 > maxSize
    · have none' : roomFrom maxSize offset = 0 := by
        unfold roomFrom
        omega
      rw [if_pos full, none', List.take_zero]
      simp [stores]
    · have one : roomFrom maxSize offset = roomFrom maxSize (offset + 7) + 1 := by
        rw [roomFrom, roomFrom]
        omega
      obtain ⟨value, post, trace⟩ := ih (offset + 7) (count + 1)
        ((m.put .payload offset (stringToMac n).toList).put .payload (offset + 6) [1])
      have record : m.put .payload offset (routeRecord n) =
          (m.put .payload offset (stringToMac n).toList).put .payload (offset + 6) [1] := by
        rw [routeRecord, Memory.put_append, Vector.length_toList]
      rw [if_neg full, one, List.take_succ_cons, List.flatMap_cons, List.length_cons,
        Memory.put_append, length_routeRecord, record, value_bind, value_bind, post_bind, post_bind,
        trace_bind, trace_bind, post_storeAll, post_store, trace_storeAll, trace_store, value, post,
        trace, Vector.length_toList, Nat.mul_succ, Nat.add_comm (7 * _) 7, stores_add]
      refine ⟨Prod.ext (Nat.add_assoc ..) ?_, rfl, rfl⟩
      simp only [Nat.add_comm _ 1, UInt8.ofNat_add, UInt8.add_assoc]
      rfl

theorem packRoutesCells_eq (ns : List Str) (maxSize : ℕ) (m : Memory RouteArray) :
    (packRoutesCells ns maxSize).value m = 1 + 7 * (ns.take (roomFrom maxSize 1)).length ∧
      ((packRoutesCells ns maxSize).post m).bytes .payload 0
          (1 + 7 * (ns.take (roomFrom maxSize 1)).length) =
        UInt8.ofNat (ns.take (roomFrom maxSize 1)).length ::
          (ns.take (roomFrom maxSize 1)).flatMap routeRecord ∧
      (packRoutesCells ns maxSize).trace m =
        stores .payload 1 (7 * (ns.take (roomFrom maxSize 1)).length) ++ [.store .payload 0] := by
  obtain ⟨value, post, trace⟩ := packLoopCells_eq maxSize ns 1 0 m
  set packed := ns.take (roomFrom maxSize 1)
  have records := m.bytes_put_self .payload 1 (packed.flatMap routeRecord)
  rw [length_records] at records
  have count := (m.put .payload 1 (packed.flatMap routeRecord)).bytes_put_self .payload 0
    [0 + UInt8.ofNat packed.length]
  rw [packRoutesCells, value_bind, post_bind, trace_bind, value, post, trace]
  refine ⟨rfl, ?_, rfl⟩
  have front : 0 + [0 + UInt8.ofNat packed.length].length ≤ 1 := Nat.le_refl 1
  have behind := (m.put .payload 1 (packed.flatMap routeRecord)).bytes_put_behind .payload front
    (7 * packed.length)
  rw [List.length_singleton] at count
  rw [post_bind, post_store, post_pure, Memory.bytes_add, count, Nat.zero_add, behind, records,
    UInt8.zero_add, List.singleton_append]

theorem packEntries_eq (maxSize : ℕ) (ns : List Str) (offset : ℕ) :
    packEntries maxSize ns offset = (ns.take (roomFrom maxSize offset)).map routeRecord := by
  induction ns generalizing offset with
  | nil => simp [packEntries]
  | cons n ns ih =>
    unfold packEntries
    by_cases full : offset + 7 > maxSize
    · have none' : roomFrom maxSize offset = 0 := by
        unfold roomFrom
        omega
      rw [if_pos full, none']
      rfl
    · have one : roomFrom maxSize offset = roomFrom maxSize (offset + 7) + 1 := by
        rw [roomFrom, roomFrom]
        omega
      rw [if_neg full, one, ih]
      rfl

/-- The cells hold what the list of neighbours is packed to. -/
theorem bytes_packRoutesCells (ns : List Str) (maxSize : ℕ) (m : Memory RouteArray) :
    ((packRoutesCells ns maxSize).post m).bytes .payload 0 ((packRoutesCells ns maxSize).value m) =
      packRoutes ns maxSize := by
  obtain ⟨value, bytes, -⟩ := packRoutesCells_eq ns maxSize m
  rw [value, bytes, packRoutes, packEntries_eq, List.length_map, List.flatMap_def]

/-! ## Unpacking -/

section Unpack

variable (m : Memory RouteArray) (len : ℕ) (via : Mac) (now : UInt64)

/-- The call for the record at `offset`. -/
def routeAt (offset : ℕ) : AddRoute where
  dest := Vector.ofFn fun i => (m.bytes .payload offset 6)[i.val]?.getD 0
  nextHop := via
  hops := m .payload (offset + 6) + 1
  now := now

/-- The calls for `k` records from `offset` on. -/
def routesFrom (offset k : ℕ) : List AddRoute :=
  (List.range k).map fun j => routeAt m via now (offset + 7 * j)

theorem routesFrom_succ (offset k : ℕ) :
    routesFrom m via now offset (k + 1) =
      routeAt m via now offset :: routesFrom m via now (offset + 7) k := by
  rw [routesFrom, List.range_succ_eq_map, List.map_cons, List.map_map, routesFrom, Nat.mul_zero,
    Nat.add_zero]
  refine congrArg _ (List.map_congr_left fun j _ => ?_)
  rw [Function.comp_apply, Nat.succ_eq_add_one, Nat.mul_succ, Nat.add_comm (7 * j), Nat.add_assoc]

/-- A program of `unpack_routes` makes these calls and leaves the payload alone, which it reads below
`len` only. -/
structure Unpacks (calls' : List AddRoute) (table : RoutingTable)
    (p : Program RouteArray AddRoute RoutingTable) : Prop where
  value : p.value m = table.withCalls calls'
  calls : Cells.calls (p.trace m) = calls'
  load : ∀ b i, .load b i ∈ p.trace m → i < len
  store : ∀ b i, .store b i ∉ p.trace m

theorem unpackLoopCells_succ {n offset : ℕ} (inside : ¬ offset + 7 > len) (table : RoutingTable) :
    let rest := unpackLoopCells len via now n (offset + 7)
      (table.addRoute (routeAt m via now offset).dest via (routeAt m via now offset).hops now)
    (unpackLoopCells len via now (n + 1) offset table).value m = rest.value m ∧
      (unpackLoopCells len via now (n + 1) offset table).trace m =
        loads .payload offset 6 ++ ([.load .payload (offset + 6)] ++
          ([.call (routeAt m via now offset)] ++ rest.trace m)) := by
  rw [unpackLoopCells, if_neg inside, value_bind, trace_bind, value_loadAll, post_loadAll,
    trace_loadAll, value_bind, trace_bind, value_load, post_load, trace_load, value_bind, trace_bind,
    post_emit, trace_emit]
  exact ⟨rfl, rfl⟩

theorem unpackLoopCells_spec (n offset : ℕ) (table : RoutingTable) :
    Unpacks m len (routesFrom m via now offset (min n ((len - offset) / 7))) table
      (unpackLoopCells len via now n offset table) := by
  induction n generalizing offset table with
  | zero => exact ⟨by rw [Nat.zero_min]; rfl, by rw [Nat.zero_min]; rfl, nofun, nofun⟩
  | succ n ih =>
    by_cases past : offset + 7 > len
    · have none' : min (n + 1) ((len - offset) / 7) = 0 := by omega
      rw [unpackLoopCells, if_pos past, none']
      exact ⟨rfl, rfl, nofun, nofun⟩
    · have one : min (n + 1) ((len - offset) / 7) = min n ((len - (offset + 7)) / 7) + 1 := by omega
      obtain ⟨value, calls, load, store⟩ := ih (offset + 7)
        (table.addRoute (routeAt m via now offset).dest via (routeAt m via now offset).hops now)
      obtain ⟨value', trace'⟩ := unpackLoopCells_succ m len via now (n := n) past table
      rw [one, routesFrom_succ]
      refine ⟨?_, ?_, fun b i read => ?_, fun b i written => ?_⟩
      · rw [value', value, withCalls, withCalls, List.foldl_cons]
        rfl
      · rw [trace', calls_append, calls_loads, calls_append, calls_append, calls]
        rfl
      · simp only [trace', List.mem_append, List.mem_singleton, load_mem_loads, reduceCtorEq,
          false_or, Access.load.injEq] at read
        rcases read with here | here | read
        · omega
        · omega
        · exact load b i read
      · simp only [trace', List.mem_append, List.mem_singleton, store_mem_loads, reduceCtorEq,
          false_or] at written
        exact store b i written

theorem unpackRoutesCells_spec (table : RoutingTable) :
    Unpacks m len (if len = 0 then []
      else routesFrom m via now 1 (min (m .payload 0).toNat ((len - 1) / 7))) table
      (unpackRoutesCells len via table now) := by
  unfold unpackRoutesCells
  by_cases empty : len = 0
  · rw [if_pos empty, if_pos (by omega)]
    exact ⟨rfl, rfl, nofun, nofun⟩
  · obtain ⟨value, calls, load, store⟩ := unpackLoopCells_spec m len via now (m .payload 0).toNat 1 table
    rw [if_neg empty, if_neg (by omega)]
    refine ⟨value, calls, fun b i read => ?_, fun b i written => ?_⟩
    · rw [trace_bind, trace_load, List.singleton_append, List.mem_cons] at read
      rcases read with here | read
      · cases here
        omega
      · exact load b i read
    · rw [trace_bind, trace_load, List.singleton_append, List.mem_cons] at written
      rcases written with here | written
      · cases here
      · exact store b i written

theorem value_unpackRoutesCells (table : RoutingTable) :
    (unpackRoutesCells len via table now).value m =
      unpackRoutes (m.bytes .payload 0 len) via table now := by
  have loop (n offset : ℕ) (table : RoutingTable) :
      (unpackLoopCells len via now n offset table).value m =
        unpackLoop (m.bytes .payload 0 len) via now n offset table := by
    induction n generalizing offset table with
    | zero => rfl
    | succ n ih =>
      rw [unpackLoop, Memory.length_bytes]
      by_cases past : offset + 7 > len
      · rw [unpackLoopCells, if_pos past, if_pos past]
        rfl
      · have cell {i : ℕ} (hi : i < 7) :
            (m.bytes .payload 0 len)[offset + i]?.getD 0 = m .payload (offset + i) := by
          rw [Memory.getElem?_bytes _ _ _ (by omega), Nat.zero_add, Option.getD_some]
        have dest : (routeAt m via now offset).dest =
            Vector.ofFn fun i : Fin 6 => (m.bytes .payload 0 len)[offset + i.val]?.getD 0 := by
          apply Vector.ext
          intro i hi
          rw [routeAt, Vector.getElem_ofFn, Vector.getElem_ofFn, Memory.getElem?_bytes _ _ _ hi,
            Option.getD_some, cell (by omega)]
        have hops : (routeAt m via now offset).hops =
            (m.bytes .payload 0 len)[offset + 6]?.getD 0 + 1 := by
          rw [cell (by omega), routeAt]
        rw [if_neg past, (unpackLoopCells_succ m len via now past table).1, ih, dest, hops]
  rw [unpackRoutesCells, unpackRoutes, Memory.length_bytes]
  by_cases empty : len < 1
  · rw [if_pos empty, if_pos empty]
    rfl
  · have first : (m.bytes .payload 0 len)[0]?.getD 0 = m .payload 0 := by
      rw [Memory.getElem?_bytes _ _ _ (by omega), Option.getD_some]
    rw [if_neg empty, if_neg empty, first]
    exact loop _ _ _

end Unpack

/-! ## There and back -/

/-- Records that stand in the payload are called for one by one. -/
theorem routesFrom_records (m : Memory RouteArray) (via : Mac) (now : UInt64) (ns : List Str)
    (offset : ℕ) (h : m.bytes .payload offset (7 * ns.length) = ns.flatMap routeRecord) :
    routesFrom m via now offset ns.length = ns.map fun n => ⟨stringToMac n, via, 2, now⟩ := by
  induction ns generalizing offset with
  | nil => rfl
  | cons n ns ih =>
    rw [List.length_cons, Nat.mul_succ, Nat.add_comm, m.bytes_add, List.flatMap_cons] at h
    obtain ⟨first, rest⟩ := List.append_inj h (by rw [Memory.length_bytes, length_routeRecord])
    have split : m.bytes .payload offset 6 ++ m.bytes .payload (offset + 6) 1 =
        (stringToMac n).toList ++ [1] := (m.bytes_add .payload offset 6 1).symm.trans first
    obtain ⟨dest, hops⟩ := List.append_inj split (by rw [Memory.length_bytes, Vector.length_toList])
    have one : m .payload (offset + 6) = 1 := List.head_eq_of_cons_eq hops
    have route : routeAt m via now offset = ⟨stringToMac n, via, 2, now⟩ := by
      have same := ofFn_getElem?_append [] [] (stringToMac n) 0 (o := 0) rfl
      simp only [List.nil_append, List.append_nil, Nat.zero_add] at same
      rw [routeAt, dest, same, one]
      rfl
    rw [List.length_cons, routesFrom_succ, ih _ rest, route]
    rfl

/-- The bytes that some texts are packed to. -/
def routeImage (ns : List Str) : List UInt8 := UInt8.ofNat ns.length :: ns.flatMap routeRecord

theorem length_routeImage (ns : List Str) : (routeImage ns).length = 1 + 7 * ns.length := by
  rw [routeImage, List.length_cons, length_records, Nat.add_comm]

/-- Where the bytes of an advertisement stand, each of its records is called for. -/
theorem unpacks_routeImage (m : Memory RouteArray) (via : Mac) (now : UInt64) (table : RoutingTable)
    {ns : List Str} (few : ns.length < 256) :
    Unpacks (m.put .payload 0 (routeImage ns)) (routeImage ns).length
      (ns.map fun n => ⟨stringToMac n, via, 2, now⟩) table
      (unpackRoutesCells (routeImage ns).length via table now) := by
  have size := length_routeImage ns
  have whole := m.bytes_put .payload 0 (routeImage ns) (k := 0) (n := 1) (by omega)
  have rest := m.bytes_put .payload 0 (routeImage ns) (k := 1) (n := 7 * ns.length) (by omega)
  have count : (m.put .payload 0 (routeImage ns)) .payload 0 = UInt8.ofNat ns.length :=
    List.head_eq_of_cons_eq whole
  have records : (m.put .payload 0 (routeImage ns)).bytes .payload 1 (7 * ns.length) =
      ns.flatMap routeRecord := by
    rw [Nat.zero_add] at rest
    rw [rest, routeImage, List.drop_succ_cons, List.drop_zero, ← length_records, List.take_length]
  have turns : min (UInt8.ofNat ns.length).toNat (((routeImage ns).length - 1) / 7) = ns.length := by
    rw [UInt8.toNat_ofNat', size]
    omega
  have unpacks :=
    unpackRoutesCells_spec (m.put .payload 0 (routeImage ns)) (routeImage ns).length via now table
  rwa [if_neg (by omega), count, turns, routesFrom_records _ via now ns 1 records] at unpacks

/-- The text of a MAC is the text of the MAC that it is read as. -/
theorem map_macToString_stringToMac {ns : List Str} (texts : ∀ n ∈ ns, ∃ mac, n = macToString mac) :
    (ns.map stringToMac).map macToString = ns := by
  rw [List.map_map]
  refine (List.map_congr_left fun n hn => ?_).trans (List.map_id ns)
  obtain ⟨mac, rfl⟩ := texts n hn
  rw [Function.comp_apply, stringToMac_macToString, id]

/-- A set of neighbours is packed into the 512 bytes, and what is unpacked, whatever else stands in
the array, is a route of two hops to each of the first 73 of them. -/
def AdvertRoundTrip (neighbors : Std.ExtTreeSet Str) : Prop :=
  ∀ (m m' : Memory RouteArray) (via : Mac) (table : RoutingTable) (now : UInt64),
    let pack := packRoutesCells neighbors.toList advPayloadSize
    let packed := (pack.post m).bytes .payload 0 (pack.value m)
    let unpack := unpackRoutesCells packed.length via table now
    let start := m'.put .payload 0 packed
    (∀ b i, .store b i ∈ pack.trace m → i < 512) ∧
      ∃ macs : List Mac, macs.map macToString = neighbors.toList.take (min neighbors.size 73) ∧
        calls (unpack.trace start) = macs.map (fun mac => ⟨mac, via, 2, now⟩) ∧
        unpack.value start = macs.foldl (fun t mac => t.addRoute mac via 2 now) table

/-- Whatever stands in the payload, its bytes below `len` are all that is read, and as many calls are
made as these bytes hold records and the count says. -/
def UnpacksInside (len : ℕ) : Prop :=
  ∀ (m : Memory RouteArray) (via : Mac) (table : RoutingTable) (now : UInt64),
    let unpack := unpackRoutesCells len via table now
    (∀ b i, .load b i ∈ unpack.trace m → i < len) ∧
      (calls (unpack.trace m)).length =
        (if len = 0 then 0 else min (m .payload 0).toNat ((len - 1) / 7)) ∧
      unpack.value m = table.withCalls (calls (unpack.trace m))

theorem unpacksInside (len : ℕ) : UnpacksInside len := by
  intro m via table now
  obtain ⟨value, calls', load, -⟩ := unpackRoutesCells_spec m len via now table
  refine ⟨load, ?_, by rw [value, calls']⟩
  rw [calls']
  split_ifs
  · rfl
  · rw [routesFrom, List.length_map, List.length_range]

/-- What is advertised for texts of MACs is what is learnt, and an advertisement of any bytes is read
within its length. -/
theorem advert_roundTrip (neighbors : Std.ExtTreeSet Str)
    (texts : ∀ n ∈ neighbors, ∃ mac, n = macToString mac) (len : ℕ) :
    AdvertRoundTrip neighbors ∧ UnpacksInside len := by
  refine ⟨fun m m' via table now => ?_, unpacksInside len⟩
  obtain ⟨value, bytes, trace⟩ := packRoutesCells_eq neighbors.toList advPayloadSize m
  have room : roomFrom advPayloadSize 1 = 73 := rfl
  rw [room] at value bytes trace
  set packed := neighbors.toList.take 73 with packed_def
  have few : packed.length ≤ 73 := List.length_take_le _ _
  have countable : packed.length < 256 := by omega
  have same : ((packRoutesCells neighbors.toList advPayloadSize).post m).bytes .payload 0
      ((packRoutesCells neighbors.toList advPayloadSize).value m) = routeImage packed := by
    rw [value, bytes, routeImage]
  have back : (packed.map stringToMac).map macToString = packed :=
    map_macToString_stringToMac fun n hn =>
      texts n (Std.ExtTreeSet.mem_toList.1 (List.mem_of_mem_take hn))
  have first : neighbors.toList.take (min neighbors.size 73) = packed := by
    rw [← Std.ExtTreeSet.length_toList, min_comm, ← List.take_take, List.take_length]
  obtain ⟨value', calls', -, -⟩ := unpacks_routeImage m' via now table countable
  dsimp only
  rw [same, trace, value', calls', withCalls]
  refine ⟨fun b i written => ?_, packed.map stringToMac, back.trans first.symm, ?_, ?_⟩
  · rcases List.mem_append.1 written with record | first
    · have below := (store_mem_stores.1 record).2.2
      omega
    · cases List.mem_singleton.1 first
      omega
  · rw [List.map_map]
    rfl
  · rw [List.foldl_map, List.foldl_map]

/-- One neighbour, and an advertisement that breaks off in the record of the second. -/
theorem advert_roundTrip_one :
    AdvertRoundTrip (Std.ExtTreeSet.ofList [macToString #v[2, 0, 0, 0, 0, 2]]) ∧ UnpacksInside 10 :=
  advert_roundTrip _ (fun n mem => by
    have same : macToString #v[2, 0, 0, 0, 0, 2] = n := by simpa using mem
    exact ⟨_, same.symm⟩) 10

end Araba
