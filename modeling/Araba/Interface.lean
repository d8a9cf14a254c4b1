import Araba.Lib.Triple
import Araba.Network
import Araba.MacText

/-!
# The life of the interface

`open`, `open_auto`, `close`, `fetch_mac_from_interface` and `get_local_mac` of `network.cpp`, with
`send_packet` and `receive_packet` as they stand among them. The kernel is a parameter: it answers
every system call as it likes, from a state that the rest of the machine changes as well.
-/

namespace Araba

open Bytes Traced

/-- The system calls that `network.cpp` makes. A call of `recvfrom` that fails gives no frame. -/
structure Kernel where
  State : Type
  socket : ℕ → ℕ → ℕ → State → ℤ × State
  ifNametoindex : Str → State → UInt32 × State
  ioctlHwaddr : ℤ → Str → State → (ℤ × Mac) × State
  close : ℤ → State → State
  sendto : ℤ → SendTo → State → ℤ × State
  recvfrom : ℤ → State → Option (List UInt8) × State

/-- `socket` answers with a descriptor or with -1. -/
def Kernel.Posix (k : Kernel) : Prop :=
  ∀ family type protocol s, -1 ≤ (k.socket family type protocol s).1

/-- A system call as the kernel sees it, with the answers that the caller acts on. -/
inductive SysCall where
  | socket (family type protocol : ℕ) (fd : ℤ)
  | ifNametoindex (name : Str) (index : UInt32)
  | ioctlHwaddr (fd : ℤ) (name : Str) (result : ℤ) (mac : Mac)
  | close (fd : ℤ)
  | sendto (fd : ℤ) (call : SendTo)
  | recvfrom (fd : ℤ)

/-- `AF_INET`. -/
def afInet : ℕ := 2

/-- `SOCK_RAW`. -/
def sockRaw : ℕ := 3

/-- `SOCK_DGRAM`. -/
def sockDgram : ℕ := 2

/-- `IFNAMSIZ`. -/
def ifNameSize : ℕ := 16

/-- What a callee reads of `s.c_str()`. -/
def untilNul (s : Str) : Str := s.takeWhile (· ≠ 0)

/-- The interface and the kernel under it. -/
structure Host (k : Kernel) where
  net : NetworkInterface
  kernel : k.State

namespace Host

variable {k : Kernel}

/-- One system call. -/
def ask {α : Type} (query : k.State → α × k.State) (call : α → SysCall) :
    Traced (Host k) SysCall α := fun host =>
  ((query host.kernel).1, { host with kernel := (query host.kernel).2 },
    [call (query host.kernel).1])

/-- `::socket`. -/
def socket (family type protocol : ℕ) : Traced (Host k) SysCall ℤ :=
  ask (k.socket family type protocol) (SysCall.socket family type protocol)

/-- `if_nametoindex`. -/
def ifNametoindex (name : Str) : Traced (Host k) SysCall UInt32 :=
  ask (k.ifNametoindex name) (SysCall.ifNametoindex name)

/-- `ioctl` with `SIOCGIFHWADDR`: its result, and the address that it leaves in the request. -/
def ioctlHwaddr (fd : ℤ) (name : Str) : Traced (Host k) SysCall (ℤ × Mac) :=
  ask (k.ioctlHwaddr fd name) fun answer => SysCall.ioctlHwaddr fd name answer.1 answer.2

/-- `::close`. -/
def closeFd (fd : ℤ) : Traced (Host k) SysCall Unit :=
  ask (fun s => ((), k.close fd s)) fun _ => SysCall.close fd

/-- The members of the interface change. -/
def setNet (f : NetworkInterface → NetworkInterface) : Traced (Host k) SysCall Unit :=
  modify fun host => { host with net := f host.net }

/-- `NetworkInterface()`. -/
def init (s : k.State) : Host k where
  net := { sockFd := -1, ifIndex := 0, localMac := Vector.replicate 6 0 }
  kernel := s

/-- `NetworkInterface::close`. -/
def close : Traced (Host k) SysCall Unit := do
  let host ← get
  if host.net.sockFd ≠ -1 then do
    closeFd host.net.sockFd
    setNet fun net => { net with sockFd := -1 }
  else pure ()

/-- Whether the address was found, and what the call leaves in its argument `mac`. -/
def fetchMacFromInterface (ifname : Str) (mac : Mac) : Traced (Host k) SysCall (Bool × Mac) := do
  let ifrName := (untilNul ifname).take (ifNameSize - 1)
  let tempSock ← socket afInet sockDgram 0
  if tempSock < 0 then pure (false, mac)
  else do
    let answer ← ioctlHwaddr tempSock ifrName
    -- both branches of the source close the socket first
    closeFd tempSock
    if answer.1 < 0 then pure (false, mac) else pure (true, answer.2)

/-- The first line of `open`. -/
def closeOld : Traced (Host k) SysCall Unit := do
  let host ← get
  if host.net.sockFd ≠ -1 then close else pure ()

/-- `NetworkInterface::open`. -/
def openInterface (interfaceName : Str) : Traced (Host k) SysCall Bool := do
  closeOld
  let sockFd ← socket afPacket sockRaw ethPAll
  setNet fun net => { net with sockFd }
  if sockFd < 0 then pure false
  else do
    let index ← ifNametoindex (untilNul interfaceName)
    setNet fun net => { net with ifIndex := index.toInt32.toInt }
    if index.toInt32.toInt = 0 then do
      close
      pure false
    else do
      let host ← get
      let fetched ← fetchMacFromInterface interfaceName host.net.localMac
      setNet fun net => { net with localMac := fetched.2 }
      if fetched.1 then pure true
      else do
        close
        pure false

/-- `common_interfaces`, the names that `open_auto` tries. -/
def commonInterfaces : List Str :=
  [text "wlo1", text "wlan0", text "wlp2s0", text "wlx", text "eth0"]

/-- The loop of `open_auto`. -/
def openFirst : List Str → Traced (Host k) SysCall Bool
  | [] => pure false
  | iface :: rest => do
    let index ← ifNametoindex iface
    if index ≠ 0 then openInterface iface else openFirst rest

/-- `NetworkInterface::open_auto`. -/
def openAuto : Traced (Host k) SysCall Bool := openFirst commonInterfaces

/-- `NetworkInterface::send_packet` under a kernel. -/
def sendPacket (packet : Packet) (destMac : Mac) : Traced (Host k) SysCall Bool := do
  let host ← get
  let fd := host.net.sockFd
  let sent := host.net.sendPacket packet destMac fun call => (k.sendto fd call host.kernel).1
  match sent.2 with
  | none => pure sent.1
  | some call => do
    let _ ← ask (k.sendto fd call) fun _ => SysCall.sendto fd call
    pure sent.1

/-- `NetworkInterface::receive_packet` under a kernel. -/
def receivePacket (packet : Packet) : Traced (Host k) SysCall (Bool × Packet) := do
  let host ← get
  if host.net.sockFd < 0 then pure (false, packet)
  else do
    let frame ← ask (k.recvfrom host.net.sockFd) fun _ => SysCall.recvfrom host.net.sockFd
    pure (host.net.receivePacket frame packet)

/-- Whether there is an address, and what the call leaves in its argument `mac`. -/
def getLocalMac (mac : Mac) : Traced (Host k) SysCall (Bool × Mac) := do
  let host ← get
  if host.net.sockFd = -1 then pure (false, mac) else pure (true, host.net.localMac)

end Host

/-- What a program may do with the interface, and what the machine does meanwhile. -/
inductive InterfaceCall (k : Kernel) where
  | openInterface (name : Str)
  | openAuto
  | close
  | sendPacket (packet : Packet) (destMac : Mac)
  | receivePacket (packet : Packet)
  | getLocalMac (mac : Mac)
  | machine (f : k.State → k.State)

/-- What the call does, its result left aside. -/
def InterfaceCall.run {k : Kernel} : InterfaceCall k → Traced (Host k) SysCall Unit
  | openInterface name => do let _ ← Host.openInterface name
  | openAuto => do let _ ← Host.openAuto
  | close => Host.close
  | sendPacket packet destMac => do let _ ← Host.sendPacket packet destMac
  | receivePacket packet => do let _ ← Host.receivePacket packet
  | getLocalMac mac => do let _ ← Host.getLocalMac mac
  | machine f => modify fun host => { host with kernel := f host.kernel }

/-! ## What the kernel sees -/

/-- The descriptors that a call leaves open, where `fds` were open before it. -/
def SysCall.hold (fds : List ℤ) : SysCall → List ℤ
  | socket _ _ _ fd => if fd < 0 then fds else fd :: fds
  | close fd => fds.erase fd
  | _ => fds

/-- The descriptors that were opened and not closed, the last one first. -/
def held (history : List SysCall) : List ℤ := history.foldl SysCall.hold []

/-- A descriptor is only used while it is open, and a frame goes only to an interface that the
kernel knows by name. -/
def SysCall.Allowed (before : List SysCall) : SysCall → Prop
  | socket _ _ _ _ => True
  | ifNametoindex _ _ => True
  | ioctlHwaddr fd _ _ _ => fd ∈ held before
  | close fd => fd ∈ held before
  | sendto fd call => fd ∈ held before ∧ ∃ name index, ifNametoindex name index ∈ before ∧
      index ≠ 0 ∧ call.addr.sllIfindex = index.toInt32.toInt
  | recvfrom fd => fd ∈ held before

/-- Every call was allowed when it was made. -/
def Orderly (history : List SysCall) : Prop :=
  ∀ before call after, history = before ++ call :: after → call.Allowed before

/-- What is called between `open` and `close`. -/
def SysCall.Traffic (fd : ℤ) : SysCall → Prop
  | ifNametoindex _ _ => True
  | sendto fd' _ => fd' = fd
  | recvfrom fd' => fd' = fd
  | _ => False

/-- The last socket is the interface's, and its index and address are what the kernel answered for
one name when it was opened; since then there was only traffic. -/
def Opened (history : List SysCall) (net : NetworkInterface) : Prop :=
  ∃ before name index temp result after,
    history = before ++ [.socket afPacket sockRaw ethPAll net.sockFd, .ifNametoindex name index,
      .socket afInet sockDgram 0 temp, .ioctlHwaddr temp (name.take 15) result net.localMac,
      .close temp] ++ after ∧
    index ≠ 0 ∧ net.ifIndex = index.toInt32.toInt ∧ 0 ≤ result ∧
    ∀ call ∈ after, call.Traffic net.sockFd

/-- The calls were allowed and leave these descriptors open. -/
structure Tracked (history : List SysCall) (fds : List ℤ) : Prop where
  orderly : Orderly history
  held : held history = fds

/-- No descriptor is open. -/
structure Closed (history : List SysCall) (net : NetworkInterface) : Prop where
  tracked : Tracked history []
  sockFd : net.sockFd = -1

/-- The interface's socket is open, and nothing else. -/
structure Holding (history : List SysCall) (net : NetworkInterface) : Prop where
  tracked : Tracked history [net.sockFd]
  sockFd : 0 ≤ net.sockFd

/-- The interface between two calls of the program. -/
def Kept (history : List SysCall) (net : NetworkInterface) : Prop :=
  Closed history net ∨ Holding history net ∧ Opened history net

theorem held_concat (history : List SysCall) (call : SysCall) :
    held (history ++ [call]) = call.hold (held history) := by
  simp [held]

theorem orderly_nil : Orderly [] := by
  intro before call after split
  simp at split

theorem Orderly.concat {history : List SysCall} {call : SysCall} (orderly : Orderly history)
    (allowed : call.Allowed history) : Orderly (history ++ [call]) := by
  intro before call' after split
  rcases List.eq_nil_or_concat after with rfl | ⟨after, last, rfl⟩
  · obtain ⟨rfl, same⟩ := List.append_inj' split rfl
    cases same
    exact allowed
  · have longer : history ++ [call] = (before ++ call' :: after) ++ [last] := by
      simpa using split
    obtain ⟨rfl, -⟩ := List.append_inj' longer rfl
    exact orderly before call' after rfl

theorem Tracked.concat {history : List SysCall} {fds : List ℤ} {c : SysCall}
    (tracked : Tracked history fds) (allowed : c.Allowed history) :
    Tracked (history ++ [c]) (c.hold fds) := by
  refine ⟨tracked.orderly.concat allowed, ?_⟩
  rw [held_concat, tracked.held]

theorem Tracked.named {history : List SysCall} {fds : List ℤ} (tracked : Tracked history fds)
    (name : Str) (index : UInt32) : Tracked (history ++ [.ifNametoindex name index]) fds :=
  tracked.concat (c := .ifNametoindex name index) trivial

theorem Tracked.socket {history : List SysCall} {fds : List ℤ} (tracked : Tracked history fds)
    (family type protocol : ℕ) (fd : ℤ) : Tracked (history ++ [.socket family type protocol fd])
      (if fd < 0 then fds else fd :: fds) :=
  tracked.concat (c := .socket family type protocol fd) trivial

theorem Tracked.close {history : List SysCall} {fds : List ℤ} {fd : ℤ}
    (tracked : Tracked history (fd :: fds)) : Tracked (history ++ [.close fd]) fds := by
  have allowed : SysCall.Allowed history (.close fd) := by simp [SysCall.Allowed, tracked.held]
  simpa [SysCall.hold] using tracked.concat allowed

theorem Tracked.recvfrom {history : List SysCall} {fd : ℤ} (tracked : Tracked history [fd]) :
    Tracked (history ++ [.recvfrom fd]) [fd] := by
  have allowed : SysCall.Allowed history (.recvfrom fd) := by simp [SysCall.Allowed, tracked.held]
  exact tracked.concat allowed

theorem Opened.concat {history : List SysCall} {net : NetworkInterface} {call : SysCall}
    (opened : Opened history net) (traffic : call.Traffic net.sockFd) :
    Opened (history ++ [call]) net := by
  obtain ⟨before, name, index, temp, result, after, rfl, known, same, answered, since⟩ := opened
  refine ⟨before, name, index, temp, result, after ++ [call], by simp, known, same, answered, ?_⟩
  intro call' mem
  rcases List.mem_append.1 mem with mem | mem
  · exact since call' mem
  · rwa [List.mem_singleton.1 mem]

theorem Opened.indexed {history : List SysCall} {net : NetworkInterface}
    (opened : Opened history net) : ∃ name index, SysCall.ifNametoindex name index ∈ history ∧
      index ≠ 0 ∧ net.ifIndex = index.toInt32.toInt := by
  obtain ⟨before, name, index, temp, result, after, rfl, known, same, -, -⟩ := opened
  exact ⟨name, index, by simp, known, same⟩

theorem NetworkInterface.indexed_of_sendPacket {net : NetworkInterface} {packet : Packet}
    {destMac : Mac} {sendto : SendTo → ℤ} {call : SendTo}
    (h : (net.sendPacket packet destMac sendto).2 = some call) :
    0 ≤ net.sockFd ∧ call.addr.sllIfindex = net.ifIndex := by
  simp only [NetworkInterface.sendPacket] at h
  split_ifs at h with shut
  all_goals
    cases h
    exact ⟨by omega, rfl⟩

theorem toInt_toInt32_eq_zero {index : UInt32} : index.toInt32.toInt = 0 ↔ index = 0 := by
  constructor
  · intro h
    have bits : index.toInt32 = 0 := Int32.toInt_inj.1 h
    have back := congrArg Int32.toUInt32 bits
    rwa [UInt32.toUInt32_toInt32] at back
  · rintro rfl
    rfl

/-- `open` has succeeded iff the interface is open afterwards. -/
def AfterOpen (ok : Bool) (history : List SysCall) (net : NetworkInterface) : Prop :=
  if ok then Holding history net ∧ Opened history net else Closed history net

/-- `open` once it has a socket and an index. -/
def HasIndex (interfaceName : Str) (index : UInt32) (history : List SysCall)
    (net : NetworkInterface) : Prop :=
  Holding history net ∧ ∃ before, history = before ++ [.socket afPacket sockRaw ethPAll net.sockFd,
    .ifNametoindex (untilNul interfaceName) index]

theorem AfterOpen.kept {ok : Bool} {history : List SysCall} {net : NetworkInterface}
    (h : AfterOpen ok history net) : Kept history net := by
  cases ok with
  | true => exact Or.inr h
  | false => exact Or.inl h

theorem Kept.closed_or_holding {history : List SysCall} {net : NetworkInterface}
    (kept : Kept history net) : Closed history net ∨ Holding history net :=
  kept.imp id And.left

theorem Kept.named {history : List SysCall} {net : NetworkInterface} (kept : Kept history net)
    (name : Str) (index : UInt32) : Kept (history ++ [.ifNametoindex name index]) net := by
  rcases kept with closed | ⟨holding, opened⟩
  · exact Or.inl ⟨closed.tracked.named name index, closed.sockFd⟩
  · exact Or.inr ⟨⟨holding.tracked.named name index, holding.sockFd⟩, opened.concat trivial⟩

/-! ## One call -/

namespace Host

variable {k : Kernel}

/-- An assertion about the interface, as one about the host. -/
def On (P : List SysCall → NetworkInterface → Prop) (history : List SysCall) (host : Host k) :
    Prop :=
  P history host.net

section Rules

variable {α : Type} {P : List SysCall → NetworkInterface → Prop}

theorem triple_ask {query : k.State → α × k.State} {call : α → SysCall}
    {Q : α → List SysCall → NetworkInterface → Prop}
    (h : ∀ history net s, P history net → Q (query s).1 (history ++ [call (query s).1]) net) :
    Triple (On P) (ask query call : Traced (Host k) SysCall α) fun a => On (Q a) :=
  fun history host holds => h history host.net host.kernel holds

theorem triple_setNet {f : NetworkInterface → NetworkInterface}
    {Q : List SysCall → NetworkInterface → Prop}
    (h : ∀ history net, P history net → Q history (f net)) :
    Triple (On P) (setNet f : Traced (Host k) SysCall Unit) fun _ => On Q :=
  Triple.modify fun history host holds => h history host.net holds

theorem triple_socket (posix : k.Posix) {family type protocol : ℕ}
    {Q : ℤ → List SysCall → NetworkInterface → Prop}
    (h : ∀ history net fd, -1 ≤ fd → P history net →
      Q fd (history ++ [.socket family type protocol fd]) net) :
    Triple (On P) (socket family type protocol : Traced (Host k) SysCall ℤ) fun fd => On (Q fd) :=
  triple_ask fun history net s holds => h history net _ (posix family type protocol s) holds

theorem triple_get {f : Host k → Traced (Host k) SysCall α} {Q : α → List SysCall → Host k → Prop}
    (h : ∀ host, Triple (On fun history net => P history net ∧ net = host.net) (f host) Q) :
    Triple (On P) (get >>= f) Q := by
  refine Triple.get.bind fun host => (h host).mono ?_ fun _ _ _ holds => holds
  rintro history s ⟨holds, rfl⟩
  exact ⟨holds, rfl⟩

/-- Only the kernel's part of the host is left to the assertion. -/
theorem triple_pure {a : α} {Q : α → List SysCall → NetworkInterface → Prop}
    (h : ∀ history net, P history net → Q a history net) :
    Triple (On P) (pure a : Traced (Host k) SysCall α) fun a => On (Q a) :=
  Triple.pure fun history host holds => h history host.net holds

theorem triple_conseq {m : Traced (Host k) SysCall α} {P' : List SysCall → NetworkInterface → Prop}
    {Q : α → List SysCall → Host k → Prop} (h : Triple (On P') m Q)
    (before : ∀ history net, P history net → P' history net) : Triple (On P) m Q :=
  h.mono (fun history host => before history host.net) fun _ _ _ holds => holds

theorem triple_of_each {m : Traced (Host k) SysCall α} {Q : α → List SysCall → Host k → Prop}
    (h : ∀ history₀ net₀, P history₀ net₀ →
      Triple (On fun history net => history = history₀ ∧ net = net₀) m Q) : Triple (On P) m Q :=
  fun history host holds => h history host.net holds history host ⟨rfl, rfl⟩

end Rules

/-- Closing ends in the closed state, whatever the interface held. -/
theorem triple_close :
    Triple (On fun history net => Closed history net ∨ Holding history net)
      (close : Traced (Host k) SysCall Unit) fun _ => On Closed := by
  refine triple_get fun host => Triple.ite (fun used => ?_) fun unused => ?_
  · refine Triple.bind (R := fun _ => On fun history _ => Tracked history [])
      (triple_ask ?_) fun _ => triple_setNet ?_
    · rintro history net - ⟨closed | holding, same⟩
      · exact absurd (same ▸ closed.sockFd) used
      · rw [← same]
        exact holding.tracked.close
    · rintro history net tracked
      exact ⟨tracked, rfl⟩
  · refine triple_pure ?_
    rintro history net ⟨closed | holding, same⟩
    · exact closed
    · have := holding.sockFd
      rw [same] at this
      omega

/-- The socket that asks for the address is closed again, whatever the answer. -/
theorem triple_fetchMacFromInterface (posix : k.Posix) (ifname : Str) (mac : Mac)
    (history₀ : List SysCall) (net₀ : NetworkInterface) :
    Triple (On fun history net => Holding history net ∧ history = history₀ ∧ net = net₀)
      (fetchMacFromInterface ifname mac : Traced (Host k) SysCall (Bool × Mac))
      fun fetched => On fun history net => Holding history net ∧ net = net₀ ∧
        (fetched.1 = true → ∃ temp result, 0 ≤ result ∧
          history = history₀ ++ [.socket afInet sockDgram 0 temp,
            .ioctlHwaddr temp ((untilNul ifname).take 15) result fetched.2, .close temp]) := by
  refine Triple.bind (R := fun temp => On fun history net => Holding history₀ net ∧ net = net₀ ∧
    -1 ≤ temp ∧ history = history₀ ++ [.socket afInet sockDgram 0 temp])
    (triple_socket posix ?_) fun temp => Triple.ite (fun failed => ?_) fun opened => ?_
  · rintro history net fd answer ⟨holding, rfl, rfl⟩
    exact ⟨holding, rfl, answer, rfl⟩
  · refine triple_pure ?_
    rintro history net ⟨holding, rfl, -, rfl⟩
    have tracked := holding.tracked.socket afInet sockDgram 0 temp
    rw [if_pos failed] at tracked
    exact ⟨⟨tracked, holding.sockFd⟩, rfl, by simp⟩
  · refine Triple.bind (R := fun answer => On fun history net => Holding history₀ net ∧ net = net₀ ∧
      Tracked history [temp, net.sockFd] ∧
      history = history₀ ++ [.socket afInet sockDgram 0 temp,
        .ioctlHwaddr temp ((untilNul ifname).take 15) answer.1 answer.2])
      (triple_ask ?_) fun answer => Triple.bind (R := fun _ => On fun history net =>
        Holding history net ∧ net = net₀ ∧
        history = history₀ ++ [.socket afInet sockDgram 0 temp,
          .ioctlHwaddr temp ((untilNul ifname).take 15) answer.1 answer.2, .close temp])
      (triple_ask ?_) fun _ => Triple.ite (fun failed => triple_pure ?_) fun found => triple_pure ?_
    · rintro history net s ⟨holding, rfl, -, rfl⟩
      have tracked := holding.tracked.socket afInet sockDgram 0 temp
      rw [if_neg opened] at tracked
      refine ⟨holding, rfl, tracked.concat ?_, by simp [ifNameSize]⟩
      simp [SysCall.Allowed, tracked.held]
    · rintro history net s ⟨holding, rfl, tracked, rfl⟩
      exact ⟨⟨tracked.close, holding.sockFd⟩, rfl, by simp⟩
    · rintro history net ⟨holding, same, -⟩
      exact ⟨holding, same, by simp⟩
    · rintro history net ⟨holding, same, split⟩
      exact ⟨holding, same, fun _ => ⟨temp, answer.1, by omega, split⟩⟩

theorem triple_closeOld :
    Triple (On fun history net => Closed history net ∨ Holding history net)
      (closeOld : Traced (Host k) SysCall Unit) fun _ => On Closed := by
  refine triple_get fun host => Triple.ite (fun used => ?_) fun unused => triple_pure ?_
  · exact triple_conseq triple_close fun _ _ holds => holds.1
  · rintro history net ⟨closed | holding, same⟩
    · exact closed
    · have := holding.sockFd
      rw [same] at this
      omega

theorem triple_giveUp :
    Triple (On Holding) (do close; pure false : Traced (Host k) SysCall Bool)
      fun ok => On (AfterOpen ok) := by
  refine (triple_conseq triple_close fun _ _ => Or.inr).bind fun _ => triple_pure ?_
  rintro history net closed
  simpa [AfterOpen] using closed

theorem triple_takeAddress (posix : k.Posix) {interfaceName : Str} {index : UInt32}
    (known : index.toInt32.toInt ≠ 0) :
    Triple
      (On fun history net => HasIndex interfaceName index history net ∧
        net.ifIndex = index.toInt32.toInt)
      (do
        let host ← get
        let fetched ← fetchMacFromInterface interfaceName host.net.localMac
        setNet fun net => { net with localMac := fetched.2 }
        if fetched.1 then pure true
        else do
          close
          pure false : Traced (Host k) SysCall Bool)
      fun ok => On (AfterOpen ok) := by
  refine triple_get fun host => triple_of_each ?_
  rintro history₀ net₀ ⟨⟨⟨holding, before, split⟩, indexed⟩, rfl⟩
  refine Triple.bind (R := fun fetched => On fun history net => Holding history net ∧
      net = host.net ∧ (fetched.1 = true → ∃ temp result, 0 ≤ result ∧
        history = history₀ ++ [.socket afInet sockDgram 0 temp,
          .ioctlHwaddr temp ((untilNul interfaceName).take 15) result fetched.2, .close temp]))
    (triple_conseq (triple_fetchMacFromInterface posix interfaceName _ history₀ host.net) ?_)
    fun fetched => Triple.bind (R := fun _ => On fun history net => Holding history net ∧
      (fetched.1 = true → Opened history net)) (triple_setNet ?_)
    fun _ => Triple.ite (fun found => triple_pure ?_) fun failed => ?_
  · rintro history net ⟨rfl, rfl⟩
    exact ⟨holding, rfl, rfl⟩
  · rintro history net ⟨holding, rfl, asked⟩
    refine ⟨⟨holding.tracked, holding.sockFd⟩, fun found => ?_⟩
    obtain ⟨temp, result, answered, rfl⟩ := asked found
    exact ⟨before, untilNul interfaceName, index, temp, result, [], by simp [split],
      toInt_toInt32_eq_zero.not.1 known, indexed, answered, by simp⟩
  · rintro history net ⟨holding, opened⟩
    exact ⟨holding, opened found⟩
  · exact triple_conseq triple_giveUp fun _ _ holds => holds.1

theorem triple_openInterface (posix : k.Posix) (interfaceName : Str) :
    Triple (On fun history net => Closed history net ∨ Holding history net)
      (openInterface interfaceName : Traced (Host k) SysCall Bool)
      fun ok => On (AfterOpen ok) := by
  refine triple_closeOld.bind fun _ => Triple.bind (R := fun fd => On fun history _ => -1 ≤ fd ∧
      Tracked history (if fd < 0 then [] else [fd]) ∧
      ∃ before, history = before ++ [.socket afPacket sockRaw ethPAll fd]) (triple_socket posix ?_)
    fun fd => Triple.bind (R := fun _ => On fun history net => net.sockFd = fd ∧ -1 ≤ fd ∧
      Tracked history (if fd < 0 then [] else [fd]) ∧
      ∃ before, history = before ++ [.socket afPacket sockRaw ethPAll fd]) (triple_setNet ?_)
    fun _ => Triple.ite (fun failed => triple_pure ?_) fun opened => ?_
  · intro history net fd answer closed
    exact ⟨answer, closed.tracked.socket afPacket sockRaw ethPAll fd, history, rfl⟩
  · intro history net holds
    exact ⟨rfl, holds⟩
  · rintro history net ⟨rfl, answer, tracked, -⟩
    rw [if_pos failed] at tracked
    exact ⟨tracked, by omega⟩
  · refine Triple.bind (R := fun index => On (HasIndex interfaceName index)) (triple_ask ?_)
      fun index => Triple.bind (R := fun _ => On fun history net =>
        HasIndex interfaceName index history net ∧ net.ifIndex = index.toInt32.toInt)
      (triple_setNet ?_) fun _ => Triple.ite (fun unknown => ?_) fun known => ?_
    · rintro history net s ⟨rfl, -, tracked, before, rfl⟩
      rw [if_neg opened] at tracked
      exact ⟨⟨tracked.named _ _, by omega⟩, before, by simp⟩
    · rintro history net ⟨holding, before, split⟩
      exact ⟨⟨⟨holding.tracked, holding.sockFd⟩, before, split⟩, rfl⟩
    · exact triple_conseq triple_giveUp fun _ _ holds => holds.1.1
    · exact triple_takeAddress posix known

theorem triple_openFirst (posix : k.Posix) (names : List Str) :
    Triple (On Kept) (openFirst names : Traced (Host k) SysCall Bool) fun _ => On Kept := by
  induction names with
  | nil => exact triple_pure fun _ _ kept => kept
  | cons iface rest ih =>
    refine Triple.bind (R := fun _ => On Kept) (triple_ask fun _ _ _ kept => Kept.named kept _ _)
      fun index => Triple.ite (fun found => ?_) fun unknown => ih
    exact (triple_conseq (triple_openInterface posix iface) fun _ _ => Kept.closed_or_holding).mono
      (fun _ _ kept => kept) fun _ _ _ holds => holds.kept

theorem triple_sendPacket (packet : Packet) (destMac : Mac) :
    Triple (On Kept) (sendPacket packet destMac : Traced (Host k) SysCall Bool)
      fun _ => On Kept := by
  refine triple_get fun host => ?_
  dsimp only
  split
  · exact triple_pure fun _ _ holds => holds.1
  · rename_i call sent
    obtain ⟨usable, index⟩ := NetworkInterface.indexed_of_sendPacket sent
    refine Triple.bind (R := fun _ => On Kept) (triple_ask ?_)
      fun _ => triple_pure fun _ _ kept => kept
    rintro history net s ⟨closed | ⟨holding, session⟩, rfl⟩
    · have := closed.sockFd
      omega
    · have allowed : SysCall.Allowed history (.sendto host.net.sockFd call) := by
        obtain ⟨name, known, asked, found, same⟩ := session.indexed
        exact ⟨by simp [holding.tracked.held], name, known, asked, found, index.trans same⟩
      exact Or.inr ⟨⟨holding.tracked.concat allowed, holding.sockFd⟩, session.concat rfl⟩

theorem triple_receivePacket (packet : Packet) :
    Triple (On Kept) (receivePacket packet : Traced (Host k) SysCall (Bool × Packet))
      fun _ => On Kept := by
  refine triple_get fun host => Triple.ite (fun shut => triple_pure fun _ _ holds => holds.1)
    fun opened => Triple.bind (R := fun _ => On Kept) (triple_ask ?_)
      fun frame => triple_pure fun _ _ kept => kept
  rintro history net s ⟨closed | ⟨holding, session⟩, rfl⟩
  · have := closed.sockFd
    omega
  · exact Or.inr ⟨⟨holding.tracked.recvfrom, holding.sockFd⟩, session.concat rfl⟩

end Host

/-! ## A whole life -/

section Life

variable {k : Kernel}

/-- Whatever the program calls, the interface is closed with nothing left open, or open on one
socket. -/
theorem InterfaceCall.triple_run (posix : k.Posix) (call : InterfaceCall k) :
    Triple (Host.On Kept) call.run fun _ => Host.On Kept := by
  cases call with
  | openInterface name =>
    refine Triple.bind (R := fun _ => Host.On Kept) ?_ fun _ => Host.triple_pure fun _ _ kept => kept
    refine (Host.triple_conseq (Host.triple_openInterface posix name)
      fun _ _ => Kept.closed_or_holding).mono (fun _ _ kept => kept) ?_
    exact fun _ _ _ holds => AfterOpen.kept holds
  | openAuto =>
    exact (Host.triple_openFirst posix Host.commonInterfaces).bind
      fun _ => Host.triple_pure fun _ _ kept => kept
  | close =>
    refine (Host.triple_conseq Host.triple_close fun _ _ => Kept.closed_or_holding).mono
      (fun _ _ kept => kept) ?_
    exact fun _ _ _ closed => Or.inl closed
  | sendPacket packet destMac =>
    exact (Host.triple_sendPacket packet destMac).bind
      fun _ => Host.triple_pure fun _ _ kept => kept
  | receivePacket packet =>
    exact (Host.triple_receivePacket packet).bind fun _ => Host.triple_pure fun _ _ kept => kept
  | getLocalMac mac =>
    refine Triple.bind (R := fun _ => Host.On Kept) ?_ fun _ => Host.triple_pure fun _ _ kept => kept
    exact Host.triple_get fun host => Triple.ite
      (fun _ => Host.triple_pure fun _ _ holds => holds.1)
      fun _ => Host.triple_pure fun _ _ holds => holds.1
  | machine f => exact Triple.modify fun _ _ kept => kept

/-- The calls of a program, one after the other. -/
def life (calls : List (InterfaceCall k)) : Traced (Host k) SysCall Unit :=
  runAll (calls.map InterfaceCall.run)

/-- A life up to the destructor, which calls `close`. -/
def destroyedAfter (calls : List (InterfaceCall k)) : Traced (Host k) SysCall Unit := do
  life calls
  Host.close

/-- A life that ends with `open`. -/
def openedAfter (calls : List (InterfaceCall k)) (name : Str) : Traced (Host k) SysCall Bool := do
  life calls
  Host.openInterface name

theorem triple_life (posix : k.Posix) (calls : List (InterfaceCall k)) :
    Triple (Host.On Kept) (life calls) fun _ => Host.On Kept := by
  refine Triple.runAll fun m mem => ?_
  obtain ⟨call, -, rfl⟩ := List.mem_map.1 mem
  exact call.triple_run posix

theorem kept_init (s : k.State) : Host.On Kept [] (Host.init s) :=
  Or.inl ⟨⟨orderly_nil, rfl⟩, rfl⟩

/-- Over every sequence of calls, on every kernel: no descriptor is used or closed that is not open,
no frame goes to an unknown interface, and the open descriptors are the interface's socket, or
none. Nothing is left open by the destructor, and `open` says whether the interface is open. -/
theorem interface_life (posix : k.Posix) (s : k.State) (calls : List (InterfaceCall k))
    (name : Str) :
    Kept ((life calls).trace (Host.init s)) ((life calls).post (Host.init s)).net ∧
      Closed ((destroyedAfter calls).trace (Host.init s))
        ((destroyedAfter calls).post (Host.init s)).net ∧
      AfterOpen ((openedAfter calls name).value (Host.init s))
        ((openedAfter calls name).trace (Host.init s))
        ((openedAfter calls name).post (Host.init s)).net := by
  have kept := triple_life posix calls
  have closes := kept.bind fun _ =>
    Host.triple_conseq Host.triple_close fun _ _ => Kept.closed_or_holding
  have opens := kept.bind fun _ =>
    Host.triple_conseq (Host.triple_openInterface posix name) fun _ _ => Kept.closed_or_holding
  exact ⟨kept [] _ (kept_init s), closes [] _ (kept_init s), opens [] _ (kept_init s)⟩

end Life

/-- A machine with the interface wlan0, where descriptors are numbered from 3 on. -/
def sampleKernel : Kernel where
  State := ℕ
  socket _ _ _ s := (s + 3, s + 1)
  ifNametoindex name s := (if name = text "wlan0" then 2 else 0, s)
  ioctlHwaddr _ _ s := ((0, sampleMac 2), s)
  close _ s := s - 1
  sendto _ call s := (call.buffer.length, s)
  recvfrom _ s := (none, s)

theorem sampleKernel_posix : sampleKernel.Posix := by
  intro family type protocol (s : ℕ)
  show -1 ≤ (s : ℤ) + 3
  omega

/-- The calls of `test_network` on that machine. -/
def sampleCalls : List (InterfaceCall sampleKernel) :=
  [.openInterface (text "wlo1"), .openInterface (text "wlan0"), .getLocalMac (sampleMac 0),
    .sendPacket NetworkInterface.helloPacket (sampleMac 9),
    .receivePacket NetworkInterface.helloPacket]

theorem interface_life_sample :
    Kept ((life sampleCalls).trace (Host.init (0 : ℕ)))
        ((life sampleCalls).post (Host.init (0 : ℕ))).net ∧
      Closed ((destroyedAfter sampleCalls).trace (Host.init (0 : ℕ)))
        ((destroyedAfter sampleCalls).post (Host.init (0 : ℕ))).net ∧
      AfterOpen ((openedAfter sampleCalls (text "eth0")).value (Host.init (0 : ℕ)))
        ((openedAfter sampleCalls (text "eth0")).trace (Host.init (0 : ℕ)))
        ((openedAfter sampleCalls (text "eth0")).post (Host.init (0 : ℕ))).net :=
  interface_life sampleKernel_posix (0 : ℕ) sampleCalls (text "eth0")

end Araba
