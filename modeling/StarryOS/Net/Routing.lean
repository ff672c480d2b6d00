/-
  StarryOS.Net.Routing — SOURCE ADDRESSES AND THE ROUTER
  (`axnet-ng/src/router.rs`, `service.rs`, `tcp.rs`, `udp.rs`).

  A socket fixes the source address of its packets when it is bound or
  connected, and `Router::dispatch` asserts that it is the `src` of the rule
  for the destination.  `get_source_address` panics without a rule, and
  `ListenTable::listen` without a port.  What arrives smoltcp answers, on behalf
  of a listening socket or by itself (RST, ICMP), from the address that the packet
  was sent to or, if that is a broadcast address, from one of its own
  (`routed_calls_never_panic`, `bound_socket_panics_the_router`).
-/
import StarryOS.Net.Frames
import StarryOS.Lib.Transition

namespace StarryOS.Net

open Lib Function

/-! ## §1. The routes. -/

/-- A route. -/
structure Rule where
  /-- `filter.contains_addr`. -/
  filter : IpAddress → Bool
  via : Option IpAddress
  dev : Nat
  src : IpAddress

/-- `RouteTable::lookup`; `add_rule` keeps longer prefixes in front. -/
def lookup (rules : List Rule) (dst : IpAddress) : Option Rule :=
  rules.find? (fun rule => rule.filter dst)

/-- `Service::get_source_address`, which panics without a rule. -/
def getSourceAddress (rules : List Rule) (dst : IpAddress) : Option IpAddress :=
  (lookup rules dst).map Rule.src

/-- Broadcast and multicast packets go to every device. -/
def IpAddress.toAllDevices : IpAddress → Bool
  | .v4 a => a == ipv4Broadcast
  | .v6 a => a.head? == some 255

/-- `Router::dispatch` of one packet: whether the assertion holds. -/
def dispatches (rules : List Rule) (src dst : IpAddress) : Bool :=
  dst.toAllDevices ||
  match lookup rules dst with
  | none => true
  | some rule => rule.src == src

/-- The address of an `IpListenEndpoint`. -/
def IpAddress.specified : IpAddress → Option IpAddress
  | .v4 a => if a.all (· == 0) then none else some (.v4 a)
  | .v6 a => if a.all (· == 0) then none else some (.v6 a)

/-! ## §2. The sockets. -/

inductive TcpState where
  | idle
  | connecting
  | listening
  deriving DecidableEq

/-- A TCP socket with its bound endpoint. -/
structure TcpSocket where
  state : TcpState
  addr : Option IpAddress
  hasPort : Bool

/-- A UDP socket: the peer with its port, and the source address chosen for it. -/
structure UdpSocket where
  bound : Bool
  peer : Option ((IpAddress × Nat) × IpAddress)

/-- The sockets of the interface. -/
structure NetStack where
  tcp : Nat → TcpSocket
  udp : Nat → UdpSocket
  /-- The source and destination addresses that smoltcp sends packets with. -/
  flows : List (IpAddress × IpAddress)
  panicked : Bool

def newStack : NetStack where
  tcp _ := ⟨.idle, none, false⟩
  udp _ := ⟨false, none⟩
  flows := []
  panicked := false

/-- The calls on sockets; `port` says that a port is to be had, `ok` that smoltcp or the
tables accept the addresses, and for UDP both. -/
inductive NetStep where
  | tcpBind (i : Nat) (addr : IpAddress) (ok : Bool)
  | tcpConnect (i : Nat) (remote : IpAddress) (port ok : Bool)
  | tcpListen (i : Nat) (ok : Bool)
  /-- A packet from `remote` arrives, over a device or looped back, and is answered from
  `addr`: by a connection of a listening socket, or by smoltcp itself. -/
  | arrive (addr remote : IpAddress)
  | udpBind (i : Nat) (ok : Bool)
  | udpConnect (i : Nat) (remote : IpAddress × Nat) (ok : Bool)
  | udpSend (i : Nat) (dest : Option (IpAddress × Nat)) (ok : Bool)
  /-- `Service::poll` takes a packet from smoltcp to the router. -/
  | poll (src dst : IpAddress)

namespace NetStack

variable (rules : List Rule) (st : NetStack)

def setTcp (i : Nat) (s : TcpSocket) : NetStack := { st with tcp := update st.tcp i s }
def setUdp (i : Nat) (s : UdpSocket) : NetStack := { st with udp := update st.udp i s }
def panic : NetStack := { st with panicked := true }
def addFlow (src dst : IpAddress) : NetStack := { st with flows := (src, dst) :: st.flows }

/-- `TcpSocket::connect` of an idle socket, once it has a source address. -/
def tcpConnectFrom (i : Nat) (src remote : IpAddress) (port ok : Bool) : NetStack :=
  if (st.tcp i).hasPort = false ∧ port = false then st
  else if ok then (st.setTcp i ⟨.connecting, some src, true⟩).addFlow src remote
  else st.setTcp i ⟨.idle, some src, true⟩

/-- `UdpSocket::send`, once it has a destination and a source address. -/
def udpSendFrom (i : Nat) (remote : IpAddress × Nat) (src : IpAddress) (ok : Bool) : NetStack :=
  if remote.2 = 0 ∨ remote.1.specified = none ∨ ok = false then st
  else (st.setUdp i { st.udp i with bound := true }).addFlow src remote.1

/-- What a call does; one that is refused changes nothing. -/
def call : NetStep → NetStack
  | .tcpBind i addr ok =>
    if (st.tcp i).state = .idle ∧ (st.tcp i).hasPort = false ∧ ok then
      st.setTcp i ⟨.idle, addr.specified, true⟩
    else st
  | .tcpConnect i remote port ok =>
    if (st.tcp i).state = .idle then
      match (st.tcp i).addr with
      | some src => st.tcpConnectFrom i src remote port ok
      | none =>
        match getSourceAddress rules remote with
        | none => st.panic
        | some src => st.tcpConnectFrom i src remote port ok
    else st
  | .tcpListen i ok =>
    if (st.tcp i).state = .idle then
      -- `assert_ne!(port, 0)` of the table
      if (st.tcp i).hasPort = false then st.panic
      else if ok then st.setTcp i { st.tcp i with state := .listening }
      else st
    else st
  | .arrive addr remote => st.addFlow addr remote
  | .udpBind i ok => if ok then st.setUdp i { st.udp i with bound := true } else st
  | .udpConnect i remote ok =>
    if (st.udp i).bound = true ∨ ok then
      match getSourceAddress rules remote.1 with
      | none => st.panic
      | some src => st.setUdp i ⟨true, some (remote, src)⟩
    else st
  | .udpSend i (some dest) ok =>
    match getSourceAddress rules dest.1 with
    | none => st.panic
    | some src => st.udpSendFrom i dest src ok
  | .udpSend i none ok =>
    match (st.udp i).peer with
    | none => st
    | some (remote, src) => st.udpSendFrom i remote src ok
  | .poll src dst =>
    if (src, dst) ∈ st.flows ∧ dispatches rules src dst = false then st.panic else st

def step (op : NetStep) : Option NetStack := some (st.call rules op)

/-- The remote address has a route, a source address that is already fixed is that of the
route, and a socket that listens has a port. -/
def Routed : NetStep → Prop
  | .tcpConnect i remote _ _ => (st.tcp i).state = .idle →
    match (st.tcp i).addr with
    | some src => dispatches rules src remote
    | none => getSourceAddress rules remote ≠ none
  | .tcpListen i _ => (st.tcp i).state = .idle → (st.tcp i).hasPort = true
  | .arrive addr remote => dispatches rules addr remote
  | .udpConnect _ remote _ => getSourceAddress rules remote.1 ≠ none
  | .udpSend _ (some dest) _ => getSourceAddress rules dest.1 ≠ none
  | _ => True

/-! ## §3. No run panics. -/

/-- Every packet that smoltcp may send passes the router. -/
@[grind cases] structure Safe : Prop where
  running : st.panicked = false
  flows : ∀ src dst, (src, dst) ∈ st.flows → dispatches rules src dst
  peers : ∀ i remote src, (st.udp i).peer = some (remote, src) → dispatches rules src remote.1

end NetStack

open NetStack

section Run

variable {rules : List Rule} {st st' : NetStack} {i : Nat} {src dst : IpAddress}

theorem dispatches_getSourceAddress (h : getSourceAddress rules dst = some src) :
    dispatches rules src dst := by
  obtain ⟨rule, hrule, rfl⟩ := Option.map_eq_some_iff.mp h
  simp [dispatches, hrule]

namespace NetStack.Safe

variable (h : st.Safe rules)
include h

theorem setTcp (s : TcpSocket) : (st.setTcp i s).Safe rules :=
  ⟨h.running, h.flows, h.peers⟩

theorem addFlow (hd : dispatches rules src dst) : (st.addFlow src dst).Safe rules := by
  refine ⟨h.running, ?_, h.peers⟩
  intro src' dst' hmem
  rcases List.mem_cons.mp hmem with heq | hmem
  · cases heq
    exact hd
  · exact h.flows src' dst' hmem

theorem setUdp {s : UdpSocket}
    (hpeer : ∀ remote src, s.peer = some (remote, src) → dispatches rules src remote.1) :
    (st.setUdp i s).Safe rules := by
  refine ⟨h.running, h.flows, ?_⟩
  intro j remote src hj
  unfold NetStack.setUdp at hj
  grind

theorem bindUdp : (st.setUdp i { st.udp i with bound := true }).Safe rules :=
  h.setUdp (h.peers i)

theorem tcpConnectFrom {port ok : Bool} (hd : dispatches rules src dst) :
    (st.tcpConnectFrom i src dst port ok).Safe rules := by
  unfold NetStack.tcpConnectFrom
  split
  · exact h
  split
  · exact (h.setTcp _).addFlow hd
  · exact h.setTcp _

theorem udpSendFrom {ok : Bool} {remote : IpAddress × Nat}
    (hd : dispatches rules src remote.1) : (st.udpSendFrom i remote src ok).Safe rules := by
  unfold NetStack.udpSendFrom
  split
  · exact h
  · exact h.bindUdp.addFlow hd

theorem call {op : NetStep} (hok : st.Routed rules op) : (st.call rules op).Safe rules := by
  cases op with
  | tcpBind i addr ok =>
    dsimp only [NetStack.call]
    split
    · exact h.setTcp _
    · exact h
  | tcpConnect i remote port ok =>
    dsimp only [NetStack.Routed, NetStack.call] at hok ⊢
    split
    next hidle =>
      have hok := hok hidle
      split
      next src hsrc =>
        rw [hsrc] at hok
        exact h.tcpConnectFrom hok
      next hsrc =>
        rw [hsrc] at hok
        split
        next hnone => exact absurd hnone hok
        next src hroute => exact h.tcpConnectFrom (dispatches_getSourceAddress hroute)
    · exact h
  | tcpListen i ok =>
    dsimp only [NetStack.Routed, NetStack.call] at hok ⊢
    split
    next hidle =>
      rw [hok hidle, if_neg (by decide)]
      split
      · exact h.setTcp _
      · exact h
    · exact h
  | arrive addr remote => exact h.addFlow hok
  | udpBind i ok =>
    dsimp only [NetStack.call]
    split
    · exact h.bindUdp
    · exact h
  | udpConnect i remote ok =>
    dsimp only [NetStack.call]
    split
    · split
      next hnone => exact absurd hnone hok
      next src hroute =>
        refine h.setUdp ?_
        rintro _ _ ⟨⟩
        exact dispatches_getSourceAddress hroute
    · exact h
  | udpSend i dest ok =>
    cases dest with
    | some dest =>
      dsimp only [NetStack.call]
      split
      next hnone => exact absurd hnone hok
      next src hroute => exact h.udpSendFrom (dispatches_getSourceAddress hroute)
    | none =>
      dsimp only [NetStack.call]
      split
      · exact h
      next remote src hpeer => exact h.udpSendFrom (h.peers i remote src hpeer)
  | poll src dst =>
    dsimp only [NetStack.call]
    grind

end NetStack.Safe

/-- For every routing table, and in every run whose calls and arrivals are all routed,
nothing panics and the router's assertion holds for every packet. -/
theorem routed_calls_never_panic (rules : List Rule) (st : NetStack)
    (h : Reach (step rules) (Routed rules) newStack st) :
    st.panicked = false ∧ ∀ src dst, (src, dst) ∈ st.flows → dispatches rules src dst := by
  have hstart : newStack.Safe rules := ⟨rfl, nofun, nofun⟩
  have hsafe : st.Safe rules := by
    refine h.invariant (Safe rules) hstart ?_
    rintro st op _ hsafe hok ⟨⟩
    exact hsafe.call hok
  exact ⟨hsafe.running, hsafe.flows⟩

end Run

/-- The loopback device and a network `10.0.2.0/24`. -/
def twoRoutes : List Rule :=
  [⟨fun dst => dst matches .v4 [10, 0, 2, _], none, 1, .v4 [10, 0, 2, 15]⟩,
    ⟨fun dst => dst matches .v4 (127 :: _), none, 0, .v4 [127, 0, 0, 1]⟩]

/-- A datagram is sent, and a connection request for this machine is answered. -/
theorem udp_send_is_routed : ∃ st, Reach (step twoRoutes) (Routed twoRoutes) newStack st
      ∧ st.flows.length = 2 ∧ st.panicked = false := by
  have hsend : Reach (step twoRoutes) (Routed twoRoutes) newStack _ :=
    .next (.udpSend 0 (some (.v4 [10, 0, 2, 2], 53)) true) .start
      (by simp [Routed]; decide) rfl
  have hr : Reach (step twoRoutes) (Routed twoRoutes) newStack _ :=
    .next (.arrive (.v4 [10, 0, 2, 15]) (.v4 [10, 0, 2, 7])) hsend rfl rfl
  exact ⟨_, hr, by decide, (routed_calls_never_panic twoRoutes _ hr).1⟩

/-- A socket bound to `127.0.0.1` connects to `10.0.2.2`; one that is not bound connects to
`192.168.0.1`; one connects to `127.255.255.255`, which the loopback device brings back and
smoltcp refuses; one that is not bound listens. -/
theorem bound_socket_panics_the_router :
    (∃ st, Reach (step twoRoutes) Always newStack st ∧ st.panicked = true
        ∧ st.flows = [(.v4 [127, 0, 0, 1], .v4 [10, 0, 2, 2])])
      ∧ (∃ st, Reach (step twoRoutes) Always newStack st ∧ st.panicked = true
        ∧ st.flows = [])
      ∧ (∃ st, Reach (step twoRoutes) Always newStack st ∧ st.panicked = true
        ∧ st.flows = [(.v4 [127, 255, 255, 255], .v4 [127, 0, 0, 1]),
          (.v4 [127, 0, 0, 1], .v4 [127, 255, 255, 255])])
      ∧ ∃ st, Reach (step twoRoutes) Always newStack st ∧ st.panicked = true
        ∧ st.flows = [] := by
  refine ⟨?_, ?_, ?_, ?_⟩
  · exact exists_reach (step twoRoutes) newStack
      [.tcpBind 0 (.v4 [127, 0, 0, 1]) true, .tcpConnect 0 (.v4 [10, 0, 2, 2]) true true,
        .poll (.v4 [127, 0, 0, 1]) (.v4 [10, 0, 2, 2])] _ (by decide)
  · exact exists_reach (step twoRoutes) newStack
      [.tcpConnect 0 (.v4 [192, 168, 0, 1]) true true] _ (by decide)
  · exact exists_reach (step twoRoutes) newStack
      [.tcpConnect 0 (.v4 [127, 255, 255, 255]) true true,
        .poll (.v4 [127, 0, 0, 1]) (.v4 [127, 255, 255, 255]),
        .arrive (.v4 [127, 255, 255, 255]) (.v4 [127, 0, 0, 1]),
        .poll (.v4 [127, 255, 255, 255]) (.v4 [127, 0, 0, 1])] _ (by decide)
  · exact exists_reach (step twoRoutes) newStack [.tcpListen 0 true] _ (by decide)

end StarryOS.Net
