/-
  StarryOS.Net.Frames — RECEIVED FRAMES
  (`modules/axnet-ng/src/device/ethernet.rs`, `loopback.rs`, `Router::poll` and
  `snoop_tcp_packet` of `modules/axnet-ng/src/router.rs`).

      poll           for every device: while the buffer is not full, `recv`
      recv           frames, until one is put into the buffer
      handle_frame   parse, filter; an IPv4 payload goes into the buffer, and an
                     ARP payload to `process_arp`
      snoop          what the interface does with a packet it takes out

  `None` is a panic.  There are three sources of it: the `unwrap` of `enqueue`,
  which asks for CONTIGUOUS ROOM after a test of the SLOTS only, that of
  `recycle_rx_buffer`, and the unchecked views of `snoop_tcp_packet`
  (`receiving_returns_iff`).  The buffer is a parameter; of `smoltcp` only field
  offsets are used.
-/
import Mathlib.Logic.Function.Basic
import Mathlib.Tactic.Tauto
import StarryOS.Lib.ByteString

namespace StarryOS.Net

open Lib Function

/-! ## §1. Addresses and views. -/

/-- Octets in network order. -/
inductive IpAddress where
  | v4 (octets : Bytes)
  | v6 (octets : Bytes)
  deriving DecidableEq, Repr

def ipv4Unspecified : Bytes := [0, 0, 0, 0]

def ipv4Broadcast : Bytes := [255, 255, 255, 255]

def EMPTY_MAC : Bytes := List.replicate 6 0

def macBroadcast : Bytes := List.replicate 6 255

/-- `EthernetAddress::is_unicast`. -/
def isUnicastMac (a : Bytes) : Bool := a ≠ macBroadcast && a.headD 0 &&& 1 == 0

/-- `data[start..stop]`. -/
def view (data : Bytes) (start stop : Nat) : Option Bytes :=
  if start ≤ stop ∧ stop ≤ data.length then some (slice data start (stop - start)) else none

/-- `data[i]`. -/
def octet (data : Bytes) (i : Nat) : Option Nat := data[i]?.map UInt8.toNat

/-- `NetworkEndian::read_u16(&data[i..i + 2])`. -/
def word16 (data : Bytes) (i : Nat) : Option Nat := do
  return (← octet data i) * 256 + (← octet data (i + 1))

/-- A packet buffer: slots for packets, and a ring for their bytes. -/
structure Buffers (β : Type) where
  isFull : β → Bool
  /-- `enqueue(packet.len())`, and the copy. -/
  enqueue : β → Bytes → Option β

/-! ## §2. ARP. -/

/-- A resolved neighbour. -/
structure Neighbor where
  hardwareAddress : Bytes
  expiresAt : Nat

structure EthernetDevice where
  hardwareAddress : Bytes
  ip : Bytes
  neighbors : IpAddress → Option (Option Neighbor)
  pendingPackets : List (IpAddress × Bytes)

/-- A parsed ARP packet. -/
structure ArpRepr where
  operation : Nat
  sourceHardwareAddr : Bytes
  sourceProtocolAddr : Bytes
  targetHardwareAddr : Bytes
  targetProtocolAddr : Bytes

/-- `ArpPacket::new_checked` and `ArpRepr::parse`: Ethernet and IPv4 only. -/
def arpRepr (p : Bytes) : Option ArpRepr :=
  if slice p 0 6 = [0, 1, 8, 0, 6, 4] ∧ 28 ≤ p.length then
    (word16 p 6).map fun operation =>
      ⟨operation, slice p 8 6, slice p 14 4, slice p 18 6, slice p 24 4⟩
  else none

namespace EthernetDevice

variable (dev : EthernetDevice)

/-- `NEIGHBOR_TTL`, in microseconds. -/
def neighborTtl : Nat := 60 * 1000000

/-- `request_arp`. -/
def requestArp : IpAddress → EthernetDevice
  | .v4 a => { dev with neighbors := update dev.neighbors (.v4 a) (some none) }
  | .v6 _ => dev

/-- The packets that wait for a neighbour are sent, up to the first one that has to wait on. -/
def sendPending (now : Nat) (dev : EthernetDevice) :
    List (IpAddress × Bytes) → EthernetDevice
  | [] => { dev with pendingPackets := [] }
  | (nextHop, packet) :: rest =>
    match dev.neighbors nextHop with
    | some (some neighbor) =>
      if neighbor.expiresAt ≤ now then
        { dev with pendingPackets := (nextHop, packet) :: rest }.requestArp nextHop
      else sendPending now dev rest
    | _ => { dev with pendingPackets := (nextHop, packet) :: rest }

/-- `process_arp`: learns the sender. -/
def processArp (payload : Bytes) (now : Nat) : EthernetDevice :=
  match arpRepr payload with
  | none => dev
  | some r =>
    -- only packets that are for us
    if (r.targetHardwareAddr ≠ EMPTY_MAC ∧ r.targetHardwareAddr ≠ macBroadcast)
      ∧ dev.hardwareAddress ≠ r.targetHardwareAddr then dev
    else if r.operation ≠ 1 ∧ r.operation ≠ 2 then dev
    else if isUnicastMac r.sourceHardwareAddr = false ∨ r.sourceProtocolAddr = ipv4Broadcast
      ∨ r.sourceProtocolAddr.headD 0 &&& 0xf0 = 224
        ∨ r.sourceProtocolAddr = ipv4Unspecified then dev
    else if dev.ip ≠ r.targetProtocolAddr then dev
    else
      let source := IpAddress.v4 r.sourceProtocolAddr
      let neighbor : Neighbor := ⟨r.sourceHardwareAddr, now + neighborTtl⟩
      let dev :=
        { dev with neighbors := update dev.neighbors source (some (some neighbor)) }
      if (dev.pendingPackets.head?.map Prod.fst) = some source then
        dev.sendPending now dev.pendingPackets
      else dev

/-! ## §3. Frames. -/

/-- `handle_frame`; whether the payload went into the buffer. -/
def handleFrame {β : Type} (B : Buffers β) (now : Nat) (dev : EthernetDevice) (b : β)
    (frame : Bytes) : Option (Bool × EthernetDevice × β) :=
  -- `EthernetRepr::parse` checks the length
  if frame.length < 14 then some (false, dev, b)
  else if slice frame 0 6 ≠ macBroadcast ∧ slice frame 0 6 ≠ EMPTY_MAC
    ∧ slice frame 0 6 ≠ dev.hardwareAddress then some (false, dev, b)
  else if slice frame 12 2 = [0x08, 0x00] then
    (B.enqueue b (frame.drop 14)).map fun b => (true, dev, b)
  else if slice frame 12 2 = [0x08, 0x06] then
    some (false, dev.processArp (frame.drop 14) now, b)
  else some (false, dev, b)

/-- `while !rx_buffer.is_full() && dev.recv(..)`, once the buffer was seen not to be full.  `recv`
itself goes on until a frame goes into the buffer; the driver's answer to `recycle_rx_buffer` is
unwrapped. -/
def recvWhile {β : Type} (B : Buffers β) (now : Nat) (dev : EthernetDevice) (b : β) :
    List (Bytes × Bool) → Option (EthernetDevice × β)
  | [] => some (dev, b)
  | (frame, recycled) :: rest => do
    let (accepted, dev, b) ← dev.handleFrame B now b frame
    if recycled = false then none
    else if accepted && B.isFull b then return (dev, b) else dev.recvWhile B now b rest

end EthernetDevice

/-- The same for the loopback device and the packets in its buffer. -/
def loopbackWhile {β : Type} (B : Buffers β) (b : β) : List Bytes → Option β
  | [] => some b
  | packet :: rest => do
    let b ← B.enqueue b packet
    if B.isFull b then return b else loopbackWhile B b rest

/-- The devices. -/
inductive NetDevice where
  | loopback (packets : List Bytes)
  /-- With the frames that its driver has, each with whether the buffer can be recycled. -/
  | ethernet (dev : EthernetDevice) (frames : List (Bytes × Bool))

def NetDevice.recvWhile {β : Type} (B : Buffers β) (now : Nat) (b : β) : NetDevice → Option β
  | .loopback packets => loopbackWhile B b packets
  | .ethernet dev frames => (dev.recvWhile B now b frames).map Prod.snd

/-- `Router::poll`; what is in the receive buffer afterwards. -/
def Router.poll {β : Type} (B : Buffers β) (now : Nat) : List NetDevice → β → Option β
  | [], b => some b
  | dev :: devices, b => do
    let b ← if B.isFull b then pure b else dev.recvWhile B now b
    Router.poll B now devices b

/-! ## §4. `snoop_tcp_packet`. -/

/-- `LISTEN_QUEUE_SIZE`. -/
def listenQueueSize : Nat := 512

/-- `incoming_tcp_packet`; the table has the lengths of the SYN queues. -/
def incomingTcpPacket (table : Nat → Option Nat) (port : Nat) : Nat → Option Nat :=
  match table port with
  | none => table
  | some n => if listenQueueSize ≤ n ∨ port = 0 then table
      else update table port (some (n + 1))

/-- The protocol and the payload of an IP packet, by unchecked views. -/
def ipPayload (buf : Bytes) : Option (Nat × Bytes) := do
  let first ← octet buf 0
  if first / 16 = 4 then
    let protocol ← octet buf 9
    let _src ← view buf 12 16
    let _dst ← view buf 16 20
    return (protocol, ← view buf (first % 16 * 4) (← word16 buf 2))
  else if first / 16 = 6 then
    let protocol ← octet buf 6
    let _src ← view buf 8 24
    let _dst ← view buf 24 40
    return (protocol, ← view buf 40 (40 + (← word16 buf 4)))
  else none

/-- The ports and the flags of a TCP segment, the same way. -/
def tcpHeader (segment : Bytes) : Option (Nat × Nat × Nat) := do
  return (← word16 segment 0, ← word16 segment 2, ← word16 segment 12)

/-- A SYN is told to the listen table. -/
def snoopTcpPacket (table : Nat → Option Nat) (buf : Bytes) : Option (Nat → Option Nat) := do
  let (protocol, payload) ← ipPayload buf
  if protocol = 6 then
    let (_, dstPort, flags) ← tcpHeader payload
    -- SYN and not ACK
    return if flags / 2 % 2 = 1 ∧ flags / 16 % 2 = 0 then incomingTcpPacket table dstPort else table
  else return table

/-! ## §5. When they return. -/

/-- The packet of a frame that is for us. -/
def EthernetDevice.accepts (dev : EthernetDevice) (frame : Bytes) : Option Bytes :=
  if 14 ≤ frame.length ∧ (slice frame 0 6 = macBroadcast ∨ slice frame 0 6 = EMPTY_MAC
      ∨ slice frame 0 6 = dev.hardwareAddress) ∧ slice frame 12 2 = [0x08, 0x00] then
    some (frame.drop 14)
  else none

/-- What `recv` comes by: the packet of a frame, if it is accepted, and whether the frame's buffer
can be recycled. -/
def NetDevice.received : NetDevice → List (Option Bytes × Bool)
  | .loopback packets => packets.map fun p => (some p, true)
  | .ethernet dev frames => frames.map fun f => (dev.accepts f.1, f.2)

/-- All that is received is dealt with, and the packets in it do not fill the buffer. -/
inductive Stored {β : Type} (B : Buffers β) : β → List (Option Bytes × Bool) → β → Prop
  | nil (b : β) : Stored B b [] b
  | skip {b b' : β} {rest} : Stored B b rest b' → Stored B b ((none, true) :: rest) b'
  | enqueue {b b₁ b' : β} {p rest} : B.enqueue b p = some b₁ → B.isFull b₁ = false →
      Stored B b₁ rest b' → Stored B b ((some p, true) :: rest) b'

/-- What comes next after any number of frames can be recycled, and its packet finds room. -/
def Fits {β : Type} (B : Buffers β) (b : β) (received : List (Option Bytes × Bool)) : Prop :=
  ∀ before packet recycled after b', received = before ++ (packet, recycled) :: after →
    Stored B b before b' → recycled = true ∧ ∀ p, packet = some p → (B.enqueue b' p).isSome = true

/-- The header is there, and the lengths it gives are those of the packet. -/
def Snoopable (buf : Bytes) : Prop :=
  ∃ first, octet buf 0 = some first
    ∧ (first / 16 = 4 ∧ 20 ≤ buf.length
        ∧ (∃ total, word16 buf 2 = some total ∧ first % 16 * 4 ≤ total ∧ total ≤ buf.length
          ∧ (octet buf 9 = some 6 → first % 16 * 4 + 14 ≤ total))
      ∨ first / 16 = 6 ∧ 40 ≤ buf.length
        ∧ ∃ length, word16 buf 4 = some length ∧ 40 + length ≤ buf.length
          ∧ (octet buf 6 = some 6 → 14 ≤ length))

section Returns

variable {β : Type} {B : Buffers β} {now : Nat} {dev : EthernetDevice} {b : β}

theorem handleFrame_of_accepts {frame p : Bytes} (h : dev.accepts frame = some p) :
    dev.handleFrame B now b frame = (B.enqueue b p).map (fun b => (true, dev, b)) := by
  unfold EthernetDevice.accepts at h
  split at h
  next hacc =>
    cases h
    obtain ⟨hlen, hdst, htype⟩ := hacc
    unfold EthernetDevice.handleFrame
    rw [if_neg (Nat.not_lt.mpr hlen), if_neg (by tauto), if_pos htype]
  · cases h

/-- ARP changes only what the device knows of its neighbours. -/
theorem processArp_hardwareAddress (payload : Bytes) :
    (dev.processArp payload now).hardwareAddress = dev.hardwareAddress := by
  have hpending : ∀ (l : List (IpAddress × Bytes)) (d : EthernetDevice),
      (d.sendPending now l).hardwareAddress = d.hardwareAddress := by
    intro l
    induction l with
    | nil => exact fun _ => rfl
    | cons e rest ih =>
      intro d
      obtain ⟨nextHop, packet⟩ := e
      unfold EthernetDevice.sendPending
      split
      · split
        · cases nextHop <;> rfl
        · exact ih d
      · rfl
  unfold EthernetDevice.processArp
  split
  · rfl
  · grind

/-- A frame that is not accepted does not come near the buffer. -/
theorem handleFrame_of_not_accepts (B : Buffers β) (now : Nat) (b : β) {frame : Bytes}
    (h : dev.accepts frame = none) : ∃ dev', dev.handleFrame B now b frame = some (false, dev', b)
      ∧ dev'.hardwareAddress = dev.hardwareAddress := by
  unfold EthernetDevice.accepts at h
  split at h
  · cases h
  unfold EthernetDevice.handleFrame
  split
  · exact ⟨dev, rfl, rfl⟩
  split
  · exact ⟨dev, rfl, rfl⟩
  · split
    · grind
    · grind [processArp_hardwareAddress]

/-- The loops of both devices, over what `recv` comes by. -/
def recvLoop {β : Type} (B : Buffers β) (b : β) : List (Option Bytes × Bool) → Option β
  | [] => some b
  | (none, recycled) :: rest => if recycled = false then none else recvLoop B b rest
  | (some p, recycled) :: rest => do
    let b ← B.enqueue b p
    if recycled = false then none else if B.isFull b then return b else recvLoop B b rest

/-- **A device of frames is a device of packets.** -/
theorem recvWhile_eq (frames : List (Bytes × Bool)) (dev : EthernetDevice) (b : β) :
    (dev.recvWhile B now b frames).map Prod.snd
      = recvLoop B b (frames.map fun f => (dev.accepts f.1, f.2)) := by
  induction frames generalizing dev b with
  | nil => rfl
  | cons f rest ih =>
    obtain ⟨frame, recycled⟩ := f
    unfold EthernetDevice.recvWhile
    rw [List.map_cons]
    cases hacc : dev.accepts frame with
    | none =>
      obtain ⟨dev', heq, hmac⟩ := handleFrame_of_not_accepts B now b hacc
      have hsame : dev'.accepts = dev.accepts := by
        funext f
        simp only [EthernetDevice.accepts, hmac]
      have hrest := ih dev' b
      rw [hsame] at hrest
      cases recycled with
      | false => simp [heq, recvLoop]
      | true => simpa [heq, recvLoop] using hrest
    | some p =>
      rw [handleFrame_of_accepts hacc]
      unfold recvLoop
      cases B.enqueue b p with
      | none => rfl
      | some b' =>
        cases recycled with
        | false => rfl
        | true =>
          show Option.map Prod.snd (if (true && B.isFull b') = true then _ else _) = _
          grind

theorem NetDevice.recvWhile_eq (d : NetDevice) (b : β) :
    d.recvWhile B now b = recvLoop B b d.received := by
  cases d with
  | loopback packets =>
    show loopbackWhile B b packets = recvLoop B b (packets.map fun p => (some p, true))
    induction packets generalizing b with
    | nil => rfl
    | cons p rest ih => simp [loopbackWhile, recvLoop, ih]
  | ethernet dev frames => exact Net.recvWhile_eq frames dev b

/-- Once the buffer is full nothing more is received. -/
theorem recvLoop_append (xs ys : List (Option Bytes × Bool)) (hb : B.isFull b = false) :
    recvLoop B b (xs ++ ys)
      = (recvLoop B b xs).bind fun b' => if B.isFull b' then some b' else recvLoop B b' ys := by
  induction xs generalizing b with
  | nil => simp [recvLoop, hb]
  | cons x xs ih =>
    obtain ⟨packet, recycled⟩ := x
    cases packet with
    | none => grind [recvLoop]
    | some p =>
      simp only [List.cons_append, recvLoop]
      cases B.enqueue b p with
      | none => rfl
      | some b' => cases recycled <;> cases hfull : B.isFull b' <;> simp [hfull, ih]

/-- The devices one after the other are one device. -/
theorem poll_eq (devices : List NetDevice) (b : β) : Router.poll B now devices b
    = if B.isFull b then some b else recvLoop B b (devices.flatMap NetDevice.received) := by
  induction devices generalizing b with
  | nil => simp [Router.poll, recvLoop]
  | cons d devices ih =>
    cases hfull : B.isFull b with
    | true => simp [Router.poll, hfull, ih]
    | false => simp [Router.poll, hfull, d.recvWhile_eq, recvLoop_append _ _ hfull, ih]

/-- The loop returns if all that it comes by fits. -/
theorem recvLoop_isSome (received : List (Option Bytes × Bool)) (hb : B.isFull b = false) :
    (recvLoop B b received).isSome = true ↔ Fits B b received := by
  induction received generalizing b with
  | nil =>
    refine ⟨?_, fun _ => rfl⟩
    intro _ before _ _ _ _ heq
    simp at heq
  | cons x rest ih =>
    obtain ⟨packet, recycled⟩ := x
    constructor
    · intro hret before packet' recycled' after b' heq hstored
      cases hstored with
      | nil =>
        cases heq
        cases packet with
        | none => grind [recvLoop]
        | some p => cases hput : B.enqueue b p <;> cases recycled <;> simp_all [recvLoop]
      | skip hrest => grind [recvLoop, Fits]
      | enqueue hput hfull hrest => grind [recvLoop, Fits]
    · intro hfits
      obtain ⟨rfl, hroom⟩ := hfits [] packet recycled rest b rfl (.nil b)
      cases packet with
      | none =>
        refine (ih hb).mpr ?_
        intro before packet recycled after b' heq hstored
        exact hfits (_ :: before) packet recycled after b' (by rw [heq]; rfl) (.skip hstored)
      | some p =>
        obtain ⟨b₁, hput⟩ := Option.isSome_iff_exists.mp (hroom p rfl)
        cases hfull : B.isFull b₁ with
        | true => simp [recvLoop, hput, hfull]
        | false =>
          have hrest : (recvLoop B b₁ rest).isSome = true := by
            refine (ih hfull).mpr ?_
            intro before packet recycled after b' heq hstored
            exact hfits (_ :: before) packet recycled after b' (by rw [heq]; rfl)
              (.enqueue hput hfull hstored)
          simpa [recvLoop, hput, hfull] using hrest

theorem poll_isSome (devices : List NetDevice) (b : β) : (Router.poll B now devices b).isSome = true
      ↔ B.isFull b = true ∨ Fits B b (devices.flatMap NetDevice.received) := by
  rw [poll_eq]
  cases hfull : B.isFull b with
  | true => simp
  | false => simp [recvLoop_isSome _ hfull]

end Returns

theorem octet_isSome {data : Bytes} {i : Nat} : (octet data i).isSome = true ↔ i < data.length := by
  simp [octet]

theorem word16_isSome {data : Bytes} {i : Nat} :
    (word16 data i).isSome = true ↔ i + 1 < data.length := by
  have h0 : (octet data i).isSome = true ↔ i < data.length := octet_isSome
  have h1 : (octet data (i + 1)).isSome = true ↔ i + 1 < data.length := octet_isSome
  revert h0 h1
  unfold word16
  cases octet data i <;> cases octet data (i + 1) <;> grind

theorem tcpHeader_isSome {segment : Bytes} :
    (tcpHeader segment).isSome = true ↔ 14 ≤ segment.length := by
  have h0 : (word16 segment 0).isSome = true ↔ 0 + 1 < segment.length := word16_isSome
  have h2 : (word16 segment 2).isSome = true ↔ 2 + 1 < segment.length := word16_isSome
  have h12 : (word16 segment 12).isSome = true ↔ 12 + 1 < segment.length := word16_isSome
  revert h0 h2 h12
  unfold tcpHeader
  cases word16 segment 0 <;> cases word16 segment 2 <;> cases word16 segment 12 <;> simp <;> omega

theorem view_eq_some {data segment : Bytes} {start stop : Nat} : view data start stop = some segment
      ↔ start ≤ stop ∧ stop ≤ data.length ∧ slice data start (stop - start) = segment := by
  simp [view, and_assoc]

theorem ipPayload_eq_some {buf payload : Bytes} {protocol : Nat} :
    ipPayload buf = some (protocol, payload) ↔ ∃ first, octet buf 0 = some first
      ∧ (first / 16 = 4 ∧ 20 ≤ buf.length ∧ octet buf 9 = some protocol
          ∧ (∃ total, word16 buf 2 = some total ∧ view buf (first % 16 * 4) total = some payload)
        ∨ first / 16 = 6 ∧ 40 ≤ buf.length ∧ octet buf 6 = some protocol
          ∧ ∃ length, word16 buf 4 = some length ∧ view buf 40 (40 + length) = some payload) := by
  unfold ipPayload
  cases octet buf 0 with
  | none => simp
  | some first =>
    by_cases h4 : first / 16 = 4
    · simp [h4, view_eq_some, Option.bind_eq_some_iff]
      grind
    · by_cases h6 : first / 16 = 6
      · simp [h6, view_eq_some, Option.bind_eq_some_iff]
        grind
      · simp [h4, h6]

/-- What the views need. -/
theorem snoopTcpPacket_isSome (table : Nat → Option Nat) (buf : Bytes) :
    (snoopTcpPacket table buf).isSome = true ↔ Snoopable buf := by
  have hsnoop : (snoopTcpPacket table buf).isSome = true ↔ ∃ protocol payload,
      ipPayload buf = some (protocol, payload) ∧ (protocol = 6 → 14 ≤ payload.length) := by
    unfold snoopTcpPacket
    cases ipPayload buf with
    | none => simp
    | some r =>
      obtain ⟨protocol, payload⟩ := r
      have hheader : (tcpHeader payload).isSome = true ↔ 14 ≤ payload.length := tcpHeader_isSome
      have hsingle : (∃ p q, some (protocol, payload) = some (p, q) ∧ (p = 6 → 14 ≤ q.length))
          ↔ (protocol = 6 → 14 ≤ payload.length) := by grind
      rw [hsingle, ← hheader]
      by_cases htcp : protocol = 6
      · simp [htcp, Option.isSome_bind]
      · simp [htcp]
  rw [hsnoop]
  constructor
  · rintro ⟨protocol, payload, hip, htcp⟩
    obtain ⟨first, h0, hcase⟩ := ipPayload_eq_some.mp hip
    refine ⟨first, h0, ?_⟩
    rcases hcase with ⟨hv, hlen, hp, total, hw, hview⟩ | ⟨hv, hlen, hp, total, hw, hview⟩
    · obtain ⟨hle, htot, rfl⟩ := view_eq_some.mp hview
      simp only [slice, List.length_take, List.length_drop] at htcp
      grind
    · obtain ⟨hle, htot, rfl⟩ := view_eq_some.mp hview
      simp only [slice, List.length_take, List.length_drop] at htcp
      grind
  · rintro ⟨first, h0, ⟨hv, hlen, total, hw, hle, htot, htcp⟩ | ⟨hv, hlen, total, hw, htot, htcp⟩⟩
    · obtain ⟨protocol, hp⟩ := Option.isSome_iff_exists.mp
        (octet_isSome.mpr (show 9 < buf.length by omega))
      refine ⟨protocol, _, ipPayload_eq_some.mpr ⟨first, h0, .inl ⟨hv, hlen, hp, total, hw,
        view_eq_some.mpr ⟨hle, htot, rfl⟩⟩⟩, ?_⟩
      rintro rfl
      have := htcp hp
      simp only [slice, List.length_take, List.length_drop]
      omega
    · obtain ⟨protocol, hp⟩ := Option.isSome_iff_exists.mp
        (octet_isSome.mpr (show 6 < buf.length by omega))
      refine ⟨protocol, _, ipPayload_eq_some.mpr ⟨first, h0, .inr ⟨hv, hlen, hp, total, hw,
        view_eq_some.mpr ⟨by omega, htot, rfl⟩⟩⟩, ?_⟩
      rintro rfl
      have := htcp hp
      simp only [slice, List.length_take, List.length_drop]
      omega

/-- **WHEN RECEIVED FRAMES DO NOT PANIC.**  `handle_frame` returns unless the packet of an accepted
frame finds no room, `poll` if the buffer is full at once or all that it receives until then fits,
and `snoop_tcp_packet` if the headers and the lengths in them fit the packet. -/
theorem receiving_returns_iff {β : Type} (B : Buffers β) (now : Nat) :
    (∀ (dev : EthernetDevice) (b : β) (frame : Bytes),
      (dev.handleFrame B now b frame).isSome = true
        ↔ ∀ p, dev.accepts frame = some p → (B.enqueue b p).isSome = true)
    ∧ (∀ (devices : List NetDevice) (b : β), (Router.poll B now devices b).isSome = true
        ↔ B.isFull b = true ∨ Fits B b (devices.flatMap NetDevice.received))
    ∧ ∀ (table : Nat → Option Nat) (buf : Bytes),
        (snoopTcpPacket table buf).isSome = true ↔ Snoopable buf := by
  refine ⟨fun dev b frame => ?_, poll_isSome, snoopTcpPacket_isSome⟩
  cases hacc : dev.accepts frame with
  | none =>
    obtain ⟨dev', heq, -⟩ := handleFrame_of_not_accepts B now b hacc
    simp [heq]
  | some p => simp [handleFrame_of_accepts hacc]

/-- The receive buffer by the lengths of the packets in it: `SOCKET_BUFFER_SIZE` slots, and
`STANDARD_MTU` bytes for each. -/
def rxBuffers : Buffers (List Nat) where
  isFull b := b.length == 64
  enqueue b packet :=
    if b.length < 64 ∧ b.sum + packet.length ≤ 1500 * 64 then some (b ++ [packet.length]) else none

/-- A frame that ends with its header is put into the empty buffer, and the packet of no bytes
panics in `snoop_tcp_packet`.  And with 63 long packets in the buffer there is a slot for the next
one, but not the room: `poll` panics. -/
theorem two_frames_panic :
    let dev : EthernetDevice := ⟨[2, 0, 0, 0, 0, 1], [10, 0, 2, 15], fun _ => none, []⟩
    let header := macBroadcast ++ [2, 0, 0, 0, 0, 2, 8, 0]
    (dev.handleFrame rxBuffers 0 [] header).map (fun r => (r.1, r.2.2)) = some (true, [0])
      ∧ (snoopTcpPacket (fun _ => none) (header.drop 14)).isSome = false
      ∧ rxBuffers.isFull (List.replicate 63 1520) = false
      ∧ Router.poll rxBuffers 0 [.ethernet dev [(header ++ List.replicate 241 0, true)]]
          (List.replicate 63 1520) = none := by
  decide +kernel

end StarryOS.Net
