import Araba.Fragment
import Araba.Lib.Traced
import Araba.Payload
import Araba.Persistence
import Araba.Routing
import Std.Data.ExtTreeSet

/-!
# The node

`araba_node.cpp`: the state that the two threads share, the handling of a packet by `network_loop`
and what else the loop does, and the sections of the `send` command of the main thread. What a node
does is a computation that emits its effects: the operations on `net_mutex`, the packets it hands to
`send_packet` with their link destination, and the events it logs. A mutex that is requested while it
is held is taken for granted, and what comes after an overrun has no counterpart in the program.
-/

namespace Araba

open Bytes Traced

/-- The members of `NodeConfig` that the node reads while it runs. -/
structure NodeConfig where
  fragmentTimeoutSec : UInt32 := 60
  discoveryTtl : UInt8 := 64

/-- What does not change while a node runs. -/
structure NodeEnv where
  myMac : Mac
  baseKey : Key
  config : NodeConfig := {}

/-- `sent_time` is a reading of the steady clock in nanoseconds. -/
structure PendingAck where
  destMac : Mac
  retries : UInt8
  sentTime : ℕ
  originalMsg : Str
  seqNum : UInt32

/-! ## Effects -/

/-- The events that `log_event` is called for. -/
inductive LogEvent
  | loopStarted (myMac : Str)
  | loopStopped
  | newNeighbor (srcMac : Str)
  | autoDelivering (count : ℕ) (srcMac : Str)
  | routeAdv (srcMac : Str)
  | ackReceived (ackedSeq : UInt32) (srcMac : Str)
  | failedReassembled (srcMac : Str)
  | droppedFragmented
  | messageReceived (srcMac msg : Str)
  | failedDecrypt (srcMac : Str)
  | forwarded (nextHop : Str)
  | deliveryFailed (destMac msg : Str)
  | retry (count : ℕ) (seqNum : UInt32) (destMac : Str)
  deriving DecidableEq

/-- The text that is logged. -/
def LogEvent.message : LogEvent → Str
  | loopStarted myMac => text "Network loop started on " ++ myMac
  | loopStopped => text "Network loop stopped."
  | newNeighbor srcMac => text "NEW NEIGHBOR: " ++ srcMac
  | autoDelivering count srcMac =>
    text "Auto-delivering " ++ text (Nat.repr count) ++ text " queued messages to " ++ srcMac
  | routeAdv srcMac => text "ROUTE_ADV from " ++ srcMac
  | ackReceived ackedSeq srcMac =>
    text "ACK received for seq " ++ text (Nat.repr ackedSeq.toNat) ++ text " from " ++ srcMac
  | failedReassembled srcMac => text "Failed to decrypt reassembled DATA from " ++ srcMac
  | droppedFragmented => text "DROPPED fragmented DATA — forwarding not yet supported"
  | messageReceived srcMac msg => text "MESSAGE RECEIVED from " ++ srcMac ++ text ": " ++ msg
  | failedDecrypt srcMac => text "Failed to decrypt DATA from " ++ srcMac
  | forwarded nextHop => text "FORWARDED DATA to " ++ nextHop
  | deliveryFailed destMac msg =>
    text "DELIVERY FAILED to " ++ destMac ++ text " after 3 retries: " ++ msg
  | retry count seqNum destMac =>
    text "RETRY " ++ text (Nat.repr count) ++ text " for seq " ++ text (Nat.repr seqNum.toNat) ++
      text " to " ++ destMac

/-- What the threads do that is seen outside the node, and a write past the end of an array. -/
inductive Effect
  | lock
  | unlock
  | send (packet : Packet) (link : Mac)
  | log (event : LogEvent)
  | overrun
  deriving DecidableEq

/-! ## State -/

/-- `pair_ciphers`. Each cipher is the one of the pair key with the node that it is kept for. -/
structure PairCiphers (env : NodeEnv) where
  ciphers : Std.ExtTreeMap Str AES256
  derived : ∀ (mac : Mac) (aes : AES256), ciphers[macToString mac]? = some aes →
    aes = AES256.new (derivePairKey env.myMac mac env.baseKey)

/-- What the two threads share. -/
structure NodeState (env : NodeEnv) where
  knownNeighbors : Std.ExtTreeSet Str := ∅
  table : RoutingTable := {}
  seqNum : UInt32 := 0
  queue : RueQueue
  fragMgr : FragmentManager := {}
  pairCiphers : PairCiphers env
  pendingAcks : Std.ExtTreeMap UInt32 PendingAck := ∅
  nextAckSeq : UInt32 := 1
  cleanupCounter : ℕ := 0

/-- The readings of `std::time` and of the steady clock during a step. -/
structure Clock where
  time : UInt64
  steady : ℕ

/-- What a part of the program does to a node's state. -/
abbrev Action (env : NodeEnv) (α : Type) := Traced (NodeState env) Effect α

namespace PairCiphers

variable {env : NodeEnv}

/-- No cipher has been made yet. -/
def empty : PairCiphers env where
  ciphers := ∅
  derived := by simp

/-- The body of `get_pair_cipher`. -/
def find (c : PairCiphers env) (theirMac : Mac) : AES256 × PairCiphers env :=
  let key := macToString theirMac
  match c.ciphers[key]? with
  | some aes => (aes, c)
  | none =>
    let aes := AES256.new (derivePairKey env.myMac theirMac env.baseKey)
    (aes,
      { ciphers := c.ciphers.insert key aes
        derived := by
          intro mac aes' h
          rw [Std.ExtTreeMap.getElem?_insert] at h
          split_ifs at h with same
          · have mac_eq := macToString_injective (Std.LawfulEqCmp.eq_of_compare same)
            rw [← Option.some.inj h, ← mac_eq]
          · exact c.derived mac aes' h })

theorem find_fst (c : PairCiphers env) (theirMac : Mac) :
    (c.find theirMac).1 = AES256.new (derivePairKey env.myMac theirMac env.baseKey) := by
  simp only [find]
  cases h : c.ciphers[macToString theirMac]? with
  | none => rfl
  | some aes => exact c.derived theirMac aes h

end PairCiphers

/-- The state of a node that has just been started on a queue file. -/
def NodeState.start (env : NodeEnv) (queueFile : Option (List UInt8)) : NodeState env where
  queue := (RueQueue.mk queueFile).ensureHeader.2
  pairCiphers := .empty

/-- Two nodes with the same base key. -/
def senderEnv : NodeEnv where
  myMac := sampleMac 1
  baseKey := Vector.replicate 32 0

/-- A second node, with the same key. -/
def receiverEnv : NodeEnv where
  myMac := sampleMac 2
  baseKey := Vector.replicate 32 0

end Araba
