/-
  StarryOS.Net.Vsock — VSOCK RECEIVE PATH (`modules/axnet-ng/src/device/vsock.rs`,
  `modules/axnet-ng/src/vsock/connection_manager.rs`, `recv` of
  `modules/axnet-ng/src/vsock/stream.rs`).

  The device keeps the bytes of a connection and raises ONE event for a packet.
  The poll task handles an event by moving bytes into the ring of the connection:

      Received(c, len)   no room: back to PENDING_EVENTS
                         else: dev.recv of at most min(free, 4 KiB) bytes
      Disconnected(c)    rx_closed := true
      recv               rx_closed and the ring is empty: Ok(0)

  The event is gone after that, whatever is left of the packet, and `len` is not
  looked at.  And a `Disconnected` overtakes the events that wait in
  `PENDING_EVENTS`.  The bytes arrive in order in every run; they are complete at
  end-of-file in the runs where no event leaves bytes behind that no other event
  announces, and no connection is closed while the device has bytes of it
  (`vsock_delivers_announced_bytes`, `long_packet_is_cut_off`).
-/
import StarryOS.File.Pipe

namespace StarryOS.Net

open Lib Function RingBuffer Option
open File.PipeState (copied copied_le)

/-! ## §1. Connections. -/

structure VsockAddr where
  cid : Nat
  port : Nat
  deriving Repr, DecidableEq

structure VsockConnId where
  peerAddr : VsockAddr
  localPort : Nat
  deriving Repr, DecidableEq

/-- The states of a socket. -/
inductive ConnectionState where
  | idle
  | listening
  | connecting
  | connected
  | closed
  deriving Repr, DecidableEq

structure Connection where
  state : ConnectionState
  /-- `rx_producer` and `rx_consumer`. -/
  rx : RingBuffer UInt8
  rxClosed : Bool
  txClosed : Bool

namespace Connection

variable (k : Connection)

/-- `VSOCK_RX_BUFFER_SIZE`. -/
def rxBufferSize : Nat := 64 * 1024

def new (state : ConnectionState) : Connection where
  state := state
  rx := .new rxBufferSize (by decide) 0
  rxClosed := false
  txClosed := false

def rxBufferFree : Nat := k.rx.vacantLen

def rxBufferUsed : Nat := k.rx.len

/-- `push_rx_data`: what does not fit is dropped. -/
def pushRxData (data : Bytes) : Connection :=
  { k with rx := k.rx.pushSlice (data.take k.rxBufferFree) }

/-- An attempt of `recv`: its result, and how much it takes out of the ring. -/
def recv (peek : Bool) (left right : AxResult Nat) :
    Option (AxResult Nat × Nat) :=
  if k.rxClosed = true ∧ k.rxBufferUsed = 0 then some (.ok 0, 0)
  else if k.state ≠ .connected ∧ k.state ≠ .closed then some (.error .notConnected, 0)
  else if k.rxBufferUsed = 0 then some (.error .wouldBlock, 0)
  else
    let slices := k.rx.asSlices
    (copied slices left (if slices.2.isEmpty then .ok 0 else right)).map fun
      | .error e => (.error e, 0)
      | .ok count =>
        (if 0 < count then .ok count else .error .wouldBlock, if peek then 0 else count)

end Connection

/-- What the driver reports. -/
inductive VsockDriverEvent where
  | connectionRequest (c : VsockConnId)
  | received (c : VsockConnId) (len : Nat)
  | disconnected (c : VsockConnId)
  | connected (c : VsockConnId)
  | creditUpdate (c : VsockConnId)
  | unknown
  deriving Repr, DecidableEq

/-- Manager, driver and threads. -/
structure Vsock where
  /-- The connections of the manager. -/
  connections : VsockConnId → Option Connection
  /-- The accept queues of `listen_queues`. -/
  listenQueues : Nat → Option (List VsockConnId)
  /-- `PENDING_EVENTS`. -/
  pendingEvents : List VsockDriverEvent
  /-- While `poll_vsock_interfaces` runs: what is left of the pending events it has taken. -/
  polling : Option (List VsockDriverEvent)
  /-- The poll task is about to receive, with this `max_read`. -/
  receiving : Option (VsockConnId × Nat)
  /-- The device: the events it has raised and the bytes it has. -/
  events : List VsockDriverEvent
  available : VsockConnId → Bytes
  /-- The device has raised `Disconnected`; nobody reads this. -/
  raised : VsockConnId → Bool
  /-- The bytes of all packets; nobody reads this. -/
  announced : VsockConnId → Bytes
  /-- The bytes that reads have taken out; nobody reads this. -/
  delivered : VsockConnId → Bytes

namespace Vsock

def start : Vsock where
  connections := fun _ => none
  listenQueues := fun _ => none
  pendingEvents := []
  polling := none
  receiving := none
  events := []
  available := fun _ => []
  raised := fun _ => false
  announced := fun _ => []
  delivered := fun _ => []

variable (st : Vsock)

variable (c : VsockConnId)

def setConnection (k : Connection) : Vsock :=
  { st with connections := update st.connections c (some k) }

/-! ## §2. The poll task. -/

/-- `VSOCK_ACCEPT_QUEUE_SIZE`. -/
def acceptQueueSize : Nat := 128

/-- `on_connection_request`; the connection is removed again if the accept queue is full. -/
def onConnectionRequest : Vsock :=
  match st.listenQueues c.localPort with
  | none => st
  | some queue =>
    if (st.connections c).isSome ∨ acceptQueueSize ≤ queue.length then st
    else { st.setConnection c (.new .connected) with
      listenQueues := update st.listenQueues c.localPort (some (queue ++ [c])) }

/-- `on_data_received`. -/
def onDataReceived (data : Bytes) : Vsock :=
  match st.connections c with
  | none => st
  | some k => st.setConnection c (k.pushRxData data)

/-- `on_disconnected`. -/
def onDisconnected : Vsock :=
  match st.connections c with
  | none => st
  | some k => st.setConnection c { k with state := .closed, rxClosed := true, txClosed := true }

/-- `on_connected`. -/
def onConnected : Vsock :=
  match st.connections c with
  | none => st
  | some k => st.setConnection c { k with state := .connected }

/-- `VSOCK_RX_TMPBUF_SIZE`. -/
def rxTmpbufSize : Nat := 0x1000

/-- `handle_vsock_event`, up to the receive. -/
def handleVsockEvent : VsockDriverEvent → Vsock
  | .connectionRequest c => st.onConnectionRequest c
  | .received c len =>
    match st.connections c with
    | none => st
    | some k =>
      if k.rxBufferFree = 0 then
        { st with pendingEvents := st.pendingEvents ++ [.received c len] }
      else { st with receiving := some (c, min k.rxBufferFree rxTmpbufSize) }
  | .disconnected c => st.onDisconnected c
  | .connected c => st.onConnected c
  | .creditUpdate _ => st
  | .unknown => st

/-- The event that `poll_vsock_interfaces` handles next: the pending ones it has taken come before
those of the device. -/
def nextEvent : Option (VsockDriverEvent × Vsock) :=
  match st.polling, st.receiving with
  | some (e :: rest), none => some (e, { st with polling := some rest })
  | some [], none =>
    match st.events with
    | [] => none
    | e :: rest => some (e, { st with events := rest })
  | _, _ => none

/-- `dev.recv` and `on_data_received`. -/
def receive : Option Vsock :=
  st.receiving.map fun (c, maxRead) =>
    ({ st with
      receiving := none
      available := update st.available c ((st.available c).drop maxRead) }).onDataReceived
        c ((st.available c).take maxRead)

/-- An attempt of `recv` on a connection. -/
def recv (st : Vsock) (c : VsockConnId) (peek : Bool) (left right : AxResult Nat) :
    Option (AxResult Nat × Vsock) :=
  (st.connections c).bind fun k =>
    (k.recv peek left right).map fun (result, count) =>
      (result, { st.setConnection c { k with rx := k.rx.advanceRead count } with
        delivered := update st.delivered c
          (st.delivered c ++ k.rx.contents.take count) })

end Vsock

/-- What may happen. -/
inductive VsockOp where
  /-- The device receives a packet. -/
  | packet (c : VsockConnId) (bytes : Bytes)
  /-- The device raises `Disconnected`. -/
  | disconnect (c : VsockConnId)
  /-- The device raises one of the other events. -/
  | request (c : VsockConnId)
  | establish (c : VsockConnId)
  | credit (c : VsockConnId)
  /-- The application. -/
  | listen (port : Nat)
  | accept (port : Nat)
  | connect (c : VsockConnId)
  | recv (c : VsockConnId) (peek : Bool) (left right : AxResult Nat)
  /-- `poll_vsock_interfaces` takes the pending events. -/
  | startPoll
  | handle
  | receive
  | endPoll

namespace Vsock

variable (st : Vsock)

def raise (e : VsockDriverEvent) : Vsock := { st with events := st.events ++ [e] }

def step : VsockOp → Option Vsock
  | .packet c bytes => some { st.raise (.received c bytes.length) with
      available := update st.available c (st.available c ++ bytes)
      announced := update st.announced c (st.announced c ++ bytes) }
  | .disconnect c => some { st.raise (.disconnected c) with
      raised := update st.raised c true }
  | .request c => some (st.raise (.connectionRequest c))
  | .establish c => some (st.raise (.connected c))
  | .credit c => some (st.raise (.creditUpdate c))
  | .listen port =>
    if (st.listenQueues port).isSome then none
    else some { st with listenQueues := update st.listenQueues port (some []) }
  | .accept port =>
    match st.listenQueues port with
    | some (_ :: queue) =>
      some { st with listenQueues := update st.listenQueues port (some queue) }
    | _ => none
  | .connect c =>
    if (st.connections c).isSome then none else some (st.setConnection c (.new .connecting))
  | .recv c peek left right => (st.recv c peek left right).map Prod.snd
  | .startPoll =>
    if st.polling.isSome then none
    else some { st with polling := some st.pendingEvents, pendingEvents := [] }
  | .handle => st.nextEvent.map (fun (e, st) => st.handleVsockEvent e)
  | .receive => st.receive
  | .endPoll =>
    if st.polling = some [] ∧ st.receiving = none then some { st with polling := none } else none

/-! ## §3. Bytes keep their order. -/

/-- What is in the ring of a connection. -/
def contents (c : VsockConnId) : Bytes :=
  match st.connections c with
  | none => []
  | some k => k.rx.contents

/-- **Every announced byte is read, in the ring or with the device**, in this order; and what the
poll task is about to receive fits. -/
@[grind cases] structure Ordered : Prop where
  bytes : ∀ c, st.announced c = st.delivered c ++ st.contents c ++ st.available c
  room : ∀ c n, st.receiving = some (c, n) →
    ∃ k, st.connections c = some k ∧ n ≤ k.rxBufferFree

/-- All events that are not handled yet. -/
def queue : List VsockDriverEvent :=
  st.events ++ st.polling.getD [] ++ st.pendingEvents

section Events

variable {st st' : Vsock} {c : VsockConnId} {k : Connection}

/-- The next event leaves the queue, and nothing else changes. -/
theorem nextEvent_spec {e : VsockDriverEvent} (h : st.nextEvent = some (e, st')) :
    st.receiving = none ∧ (∀ f, f ∈ st.queue ↔ f = e ∨ f ∈ st'.queue)
      ∧ ∃ polling events, st' = { st with polling := polling, events := events } := by
  unfold nextEvent at h
  split at h
  · cases h
    grind [queue]
  · split at h
    · cases h
    · cases h
      grind [queue]
  · cases h

theorem contents_of_some (h : st.connections c = some k) : st.contents c = k.rx.contents := by
  unfold contents
  rw [h]

theorem contents_of_none (h : st.connections c = none) : st.contents c = [] := by
  unfold contents
  rw [h]

theorem connections_setConnection (k' : Connection) (d : VsockConnId) :
    (st.setConnection c k').connections d = if d = c then some k' else st.connections d :=
  update_apply ..

theorem contents_setConnection (k' : Connection) (d : VsockConnId) :
    (st.setConnection c k').contents d = if d = c then k'.rx.contents else st.contents d := by
  unfold contents setConnection
  grind

/-- **The ring of a connection takes over what it had**, with no less room than before. -/
theorem Ordered.setConnection (h : st.Ordered) {k' : Connection}
    (hcontents : k'.rx.contents = st.contents c)
    (hroom : ∀ k, st.connections c = some k → k.rxBufferFree ≤ k'.rxBufferFree) :
    (st.setConnection c k').Ordered where
  bytes d := by
    rw [contents_setConnection]
    split
    next hd =>
      subst hd
      rw [hcontents]
      exact h.bytes d
    · exact h.bytes d
  room d n hd := by
    obtain ⟨k, hk, hle⟩ := h.room d n hd
    rw [connections_setConnection]
    split
    next hdc => exact ⟨k', rfl, Nat.le_trans hle (hroom k (hdc ▸ hk))⟩
    · exact ⟨k, hk, hle⟩

theorem Ordered.create (h : st.Ordered) (hnew : st.connections c = none)
    (state : ConnectionState) : (st.setConnection c (.new state)).Ordered := by
  refine h.setConnection ?_ ?_
  · rw [contents_of_none hnew]
    rfl
  · intro k hk
    cases hnew.symm.trans hk

theorem Ordered.onConnectionRequest (h : st.Ordered) : (st.onConnectionRequest c).Ordered := by
  unfold Vsock.onConnectionRequest
  split
  · exact h
  split
  · exact h
  next hnew =>
    rw [not_or] at hnew
    have hordered := h.create (not_isSome_iff_eq_none.mp hnew.1) .connected
    exact ⟨hordered.bytes, hordered.room⟩

theorem Ordered.handle (h : st.Ordered) (e : VsockDriverEvent) :
    (st.handleVsockEvent e).Ordered := by
  cases e with
  | connectionRequest c => exact h.onConnectionRequest
  | received c len =>
    simp only [handleVsockEvent]
    split
    · exact h
    next k hk =>
      split
      · exact ⟨h.bytes, h.room⟩
      · refine ⟨h.bytes, fun d n hd => ?_⟩
        cases hd
        exact ⟨k, hk, Nat.min_le_left _ _⟩
  | disconnected c | connected c =>
    simp only [handleVsockEvent, onDisconnected, onConnected]
    split
    · exact h
    next k hk =>
      refine h.setConnection (contents_of_some hk).symm (fun k' hk' => ?_)
      cases hk.symm.trans hk'
      exact le_rfl
  | creditUpdate c => exact h
  | unknown => exact h

/-- What the device gives the ring takes: `max_read` was no more than the room. -/
theorem contents_pushRxData {data : Bytes} (h : data.length ≤ k.rxBufferFree) :
    (k.pushRxData data).rx.contents = k.rx.contents ++ data := by
  unfold Connection.pushRxData
  rw [contents_pushSlice, List.take_of_length_le h,
    List.take_of_length_le (show data.length ≤ k.rx.vacantLen from h)]

theorem Ordered.receive (h : st.Ordered) (hs : st.receive = some st') : st'.Ordered := by
  obtain ⟨⟨c, n⟩, hreceiving, rfl⟩ := map_eq_some_iff.mp hs
  obtain ⟨k, hk, hle⟩ := h.room c n hreceiving
  have hfits : ((st.available c).take n).length ≤ k.rxBufferFree :=
    Nat.le_trans (List.length_take_le _ _) hle
  simp only [onDataReceived, hk]
  refine ⟨fun d => ?_, nofun⟩
  rw [contents_setConnection]
  show st.announced d = st.delivered d ++ _ ++ update st.available c _ d
  by_cases hd : d = c
  · subst hd
    rw [if_pos rfl, contents_pushRxData hfits, update_self, h.bytes d, contents_of_some hk]
    simp only [List.append_assoc, List.take_append_drop]
  · rw [if_neg hd, update_of_ne hd]
    exact h.bytes d

/-- No attempt takes out more than the ring has, and `Ok(0)` is end-of-file. -/
theorem Connection.recv_spec {peek : Bool} {left right result : AxResult Nat} {count : Nat}
    (h : k.recv peek left right = some (result, count)) :
    count ≤ k.rx.len ∧ (result = .ok 0 → k.rxClosed = true ∧ k.rx.len = 0) := by
  unfold Connection.recv at h
  split at h
  next heof =>
    cases h
    exact ⟨Nat.zero_le _, fun _ => heof⟩
  split at h
  · cases h
    exact ⟨Nat.zero_le _, nofun⟩
  split at h
  · cases h
    exact ⟨Nat.zero_le _, nofun⟩
  obtain ⟨answer, hcopied, heq⟩ := map_eq_some_iff.mp h
  cases answer with
  | error e =>
    cases heq
    exact ⟨Nat.zero_le _, nofun⟩
  | ok n =>
    have hle := copied_le hcopied
    rw [length_asSlices] at hle
    grind

theorem Ordered.recv (h : st.Ordered) {peek : Bool} {left right result : AxResult Nat}
    (hs : st.recv c peek left right = some (result, st')) : st'.Ordered := by
  obtain ⟨k, hk, hs⟩ := bind_eq_some_iff.mp hs
  obtain ⟨⟨result, count⟩, hrecv, heq⟩ := map_eq_some_iff.mp hs
  cases heq
  have hle := (Connection.recv_spec hrecv).1
  refine ⟨fun d => ?_, fun d n hd => ?_⟩
  · show st.announced d = update st.delivered c _ d
      ++ (st.setConnection c { k with rx := k.rx.advanceRead count }).contents d ++ st.available d
    rw [contents_setConnection]
    by_cases hd : d = c
    · subst hd
      rw [if_pos rfl, update_self, h.bytes d, contents_of_some hk, contents_advanceRead _ hle]
      rw [List.append_assoc (st.delivered d) (k.rx.contents.take count), List.take_append_drop]
    · rw [if_neg hd, update_of_ne hd]
      exact h.bytes d
  · obtain ⟨k', hk', hle'⟩ := h.room d n hd
    by_cases hdc : d = c
    · subst hdc
      cases hk.symm.trans hk'
      refine ⟨_, update_self .., Nat.le_trans hle' ?_⟩
      show k.rx.capacity - k.rx.len ≤ k.rx.capacity - (k.rx.len - count)
      omega
    · exact ⟨k', (update_of_ne hdc ..).trans hk', hle'⟩

end Events

/-! ## §4. Bytes are not forgotten. -/

/-- Some event announces bytes of the connection. -/
def awaited (st : Vsock) (c : VsockConnId) : Bool :=
  st.queue.any fun
    | .received d _ => d = c
    | _ => false

theorem awaited_iff {st : Vsock} {c : VsockConnId} :
    st.awaited c = true ↔ ∃ len, .received c len ∈ st.queue := by
  unfold awaited
  rw [List.any_eq_true]
  grind

/-- What the code does not look after: the rest of a packet that is longer than `max_read`, a packet
for a connection that is not known yet, a `Disconnected` that comes before the bytes are received.
And no packet comes after `Disconnected`. -/
def attended (st : Vsock) : VsockOp → Bool
  | .packet c bytes => !st.raised c || bytes.isEmpty
  | .handle =>
    match st.nextEvent with
    | some (.received c _, rest) =>
      (st.connections c).isSome || (st.available c).isEmpty || rest.awaited c
    | some (.disconnected c, _) => (st.connections c).isNone || (st.available c).isEmpty
    | _ => true
  | .receive =>
    match st.receiving with
    | some (c, maxRead) => decide ((st.available c).length ≤ maxRead) || st.awaited c
    | none => true
  | _ => true

/-- **Whoever has bytes at the device is announced**, and a closed connection has none there. -/
@[grind cases] structure Attended (st : Vsock) : Prop where
  announced : ∀ c, st.available c ≠ [] →
    st.awaited c = true ∨ ∃ n, st.receiving = some (c, n)
  raised : ∀ c, .disconnected c ∈ st.queue → st.raised c = true
  closed : ∀ c k, st.connections c = some k → k.rxClosed = true →
    st.available c = [] ∧ st.raised c = true

section Attending

variable {st st' : Vsock} {c : VsockConnId}

theorem awaited_mono (h : ∀ e, e ∈ st.queue → e ∈ st'.queue) (hc : st.awaited c = true) :
    st'.awaited c = true := by
  obtain ⟨len, hlen⟩ := awaited_iff.mp hc
  exact awaited_iff.mpr ⟨len, h _ hlen⟩

/-- Events come that close nothing, and no connection is closed. -/
theorem Attended.keep (h : st.Attended) (havailable : st'.available = st.available)
    (hraised : st'.raised = st.raised) (hreceiving : st'.receiving = st.receiving)
    (hmono : ∀ e, e ∈ st.queue → e ∈ st'.queue)
    (hnew : ∀ c, .disconnected c ∈ st'.queue → .disconnected c ∈ st.queue)
    (hclosed : ∀ c k', st'.connections c = some k' → k'.rxClosed = true →
      ∃ k, st.connections c = some k ∧ k.rxClosed = true) : st'.Attended where
  announced c hc := by
    rw [havailable] at hc
    rw [hreceiving]
    exact (h.announced c hc).imp_left (awaited_mono hmono)
  raised c hc := by
    rw [hraised]
    exact h.raised c (hnew c hc)
  closed c k' hk' hk'closed := by
    obtain ⟨k, hk, hkclosed⟩ := hclosed c k' hk' hk'closed
    rw [havailable, hraised]
    exact h.closed c k hk hkclosed

theorem mem_queue_raise (e f : VsockDriverEvent) : f ∈ (st.raise e).queue
    ↔ f ∈ st.queue ∨ f = e := by
  simp only [queue, raise, List.mem_append, List.mem_singleton]
  tauto

variable (h : st.Attended)
include h

theorem Attended.raise {e : VsockDriverEvent}
    (he : ∀ c, e ≠ .disconnected c) : (st.raise e).Attended := by
  refine h.keep rfl rfl rfl (fun f hf => (mem_queue_raise e f).mpr (.inl hf)) (fun c hc => ?_)
    (fun _ k hk hclosed => ⟨k, hk, hclosed⟩)
  exact ((mem_queue_raise e _).mp hc).resolve_right (fun heq => he c heq.symm)

/-- A connection changes that is not closed by it. -/
theorem Attended.setConnection (k' : Connection)
    (hk' : k'.rxClosed = true → ∃ k, st.connections c = some k ∧ k.rxClosed = true) :
    (st.setConnection c k').Attended := by
  refine h.keep rfl rfl rfl (fun _ => id) (fun _ => id) (fun d k hd hk => ?_)
  rw [connections_setConnection] at hd
  split at hd
  next hdc =>
    cases hd
    exact hdc ▸ hk' hk
  · exact ⟨k, hd, hk⟩

/-- **An event is handled**: what `nextEvent` has taken out of the queue is looked after. -/
theorem Attended.handle (hok : st.attended .handle = true)
    (hs : st.step .handle = some st') : st'.Attended := by
  obtain ⟨⟨e, st₁⟩, hnext, rfl⟩ := map_eq_some_iff.mp hs
  simp only [attended, hnext] at hok
  obtain ⟨hidle, hqueue, polling, events, rfl⟩ := nextEvent_spec hnext
  have hraised : ∀ c, .disconnected c ∈ Vsock.queue { st with polling := polling, events := events }
      → st.raised c = true := fun c hc => h.raised c ((hqueue _).mpr (.inr hc))
  -- for all connections but that of a `Received` nothing is lost with the event
  have hrest : ∀ c, (∀ len, e ≠ .received c len) → st.available c ≠ [] →
      Vsock.awaited { st with polling := polling, events := events } c = true := by
    intro c hne hc
    rcases h.announced c hc with hawaited | ⟨n, hn⟩
    · obtain ⟨len, hlen⟩ := awaited_iff.mp hawaited
      exact awaited_iff.mpr ⟨len, ((hqueue _).mp hlen).resolve_left (fun heq => hne len heq.symm)⟩
    · cases hidle.symm.trans hn
  have hkept : (∀ c len, e ≠ .received c len) →
      Vsock.Attended { st with polling := polling, events := events } :=
    fun hne => ⟨fun c hc => .inl (hrest c (hne c) hc), hraised, h.closed⟩
  cases e with
  | connectionRequest c =>
    have hnow := hkept nofun
    show (Vsock.onConnectionRequest _ c).Attended
    unfold onConnectionRequest
    split
    · exact hnow
    · split
      · exact hnow
      · have hset := hnow.setConnection (c := c) (.new .connected) nofun
        exact ⟨hset.announced, hset.raised, hset.closed⟩
  | received c len =>
    have hothers : ∀ d, d ≠ c → st.available d ≠ [] →
        Vsock.awaited { st with polling := polling, events := events } d = true := by grind
    simp only [handleVsockEvent]
    split
    next hnone =>
      simp only [hnone, isSome_none, Bool.false_or, Bool.or_eq_true, List.isEmpty_iff] at hok
      refine ⟨fun d hd => ?_, hraised, h.closed⟩
      grind
    split
    · -- the event goes back to the end of `PENDING_EVENTS`
      have hmem : ∀ f, f ∈ Vsock.queue { st with
          polling := polling, events := events,
          pendingEvents := st.pendingEvents ++ [.received c len] } ↔
          f ∈ Vsock.queue { st with polling := polling, events := events }
            ∨ f = .received c len := by
        intro f
        simp only [queue, List.mem_append, List.mem_singleton]
        tauto
      refine ⟨fun d hd => .inl ?_, fun d hd => ?_, h.closed⟩
      · grind [awaited_mono]
      · exact hraised d (((hmem _).mp hd).resolve_right (fun he => nomatch he))
    · refine ⟨fun d hd => ?_, hraised, h.closed⟩
      by_cases hdc : d = c
      · subst hdc
        exact .inr ⟨_, rfl⟩
      · exact .inl (hothers d hdc hd)
  | disconnected c =>
    have hnow := hkept nofun
    simp only [handleVsockEvent, onDisconnected]
    split
    · exact hnow
    have hempty : st.available c = [] := by grind
    refine ⟨hnow.announced, hnow.raised, fun d k' hd hk' => ?_⟩
    rw [connections_setConnection] at hd
    split at hd
    next hdc =>
      subst hdc
      exact ⟨hempty, h.raised d ((hqueue _).mpr (.inl rfl))⟩
    · exact h.closed d k' hd hk'
  | connected c =>
    have hnow := hkept nofun
    simp only [handleVsockEvent, onConnected]
    split
    · exact hnow
    next k hk => exact hnow.setConnection _ (fun hclosed => ⟨k, hk, hclosed⟩)
  | creditUpdate c | unknown => exact hkept nofun

theorem Attended.receive (hok : st.attended .receive = true)
    (hs : st.receive = some st') : st'.Attended := by
  obtain ⟨⟨c, n⟩, hreceiving, rfl⟩ := map_eq_some_iff.mp hs
  simp only [attended, hreceiving, Bool.or_eq_true, decide_eq_true_eq] at hok
  -- the state after `dev.recv`
  have hnow : Vsock.Attended { st with
      receiving := none
      available := update st.available c ((st.available c).drop n) } := by
    refine ⟨fun d hd => ?_, h.raised, fun d k hk hclosed => ?_⟩
    · by_cases hdc : d = c
      · subst hdc
        have hleft : (st.available d).drop n ≠ [] := by simpa only [update_self] using hd
        rcases hok with hall | hawaited
        · exact absurd (List.drop_eq_nil_of_le hall) hleft
        · exact .inl hawaited
      · have hleft : st.available d ≠ [] := by simpa only [update_of_ne hdc] using hd
        rcases h.announced d hleft with hawaited | ⟨m, hm⟩
        · exact .inl hawaited
        · cases hreceiving.symm.trans hm
          exact absurd rfl hdc
    · grind
  simp only [onDataReceived]
  split
  · exact hnow
  next k hk => exact hnow.setConnection _ (fun hclosed => ⟨k, hk, hclosed⟩)

end Attending

theorem Attended.packet {st : Vsock} {c : VsockConnId} {bytes : Bytes} (h : st.Attended)
    (hok : st.attended (.packet c bytes) = true) :
    Vsock.Attended { st.raise (.received c bytes.length) with
      available := update st.available c (st.available c ++ bytes)
      announced := update st.announced c (st.announced c ++ bytes) } := by
  have hnow : (st.raise (.received c bytes.length)).Attended := h.raise nofun
  simp only [attended, Bool.or_eq_true, Bool.not_eq_true', List.isEmpty_iff] at hok
  refine ⟨fun d hd => ?_, hnow.raised, fun d k hk hclosed => ?_⟩
  · by_cases hdc : d = c
    · subst hdc
      exact .inl (awaited_iff.mpr ⟨bytes.length, (mem_queue_raise _ _).mpr (.inr rfl)⟩)
    · have hsame : st.available d ≠ [] := by simpa only [update_of_ne hdc] using hd
      exact hnow.announced d hsame
  obtain ⟨hempty, hraised⟩ := hnow.closed d k hk hclosed
  refine ⟨?_, hraised⟩
  show update st.available c _ d = []
  by_cases hdc : d = c
  · subst hdc
    rcases hok with hopen | hnothing
    · cases hopen.symm.trans hraised
    · rw [update_self, hnothing, List.append_nil]
      exact hempty
  · rw [update_of_ne hdc]
    exact hempty

/-- **In every step that is attended to.** -/
theorem step_keeps {st st' : Vsock} {op : VsockOp} (ho : st.Ordered) (h : st.Attended)
    (hok : st.attended op = true) (hs : st.step op = some st') : st'.Ordered ∧ st'.Attended := by
  cases op with
  | packet c bytes =>
    cases hs
    refine ⟨⟨fun d => ?_, ho.room⟩, h.packet hok⟩
    show update st.announced c _ d = st.delivered d ++ st.contents d ++ update st.available c _ d
    grind
  | disconnect c =>
    cases hs
    refine ⟨⟨ho.bytes, ho.room⟩, fun d hd => (h.announced d hd).imp_left (awaited_mono (fun f hf =>
      (mem_queue_raise _ f).mpr (.inl hf))), fun d hd => ?_, fun d k hk hclosed => ?_⟩
    · show update st.raised c true d = true
      by_cases hdc : d = c
      · subst hdc
        exact update_self ..
      · rw [update_of_ne hdc]
        refine h.raised d (((mem_queue_raise _ _).mp hd).resolve_right (fun he => ?_))
        cases he
        exact hdc rfl
    · obtain ⟨hempty, hraised⟩ := h.closed d k hk hclosed
      refine ⟨hempty, ?_⟩
      show update st.raised c true d = true
      grind
  | request c | establish c | credit c =>
    cases hs
    exact ⟨⟨ho.bytes, ho.room⟩, h.raise nofun⟩
  | listen port =>
    obtain ⟨-, rfl⟩ := unless_eq_some hs
    exact ⟨⟨ho.bytes, ho.room⟩, h.announced, h.raised, h.closed⟩
  | accept port =>
    simp only [Vsock.step] at hs
    split at hs
    · cases hs
      exact ⟨⟨ho.bytes, ho.room⟩, h.announced, h.raised, h.closed⟩
    · cases hs
  | connect c =>
    obtain ⟨hnew, rfl⟩ := unless_eq_some hs
    exact ⟨ho.create (not_isSome_iff_eq_none.mp hnew) .connecting, h.setConnection _ nofun⟩
  | recv c peek left right =>
    obtain ⟨⟨result, st''⟩, hrecv, rfl⟩ := map_eq_some_iff.mp hs
    refine ⟨ho.recv hrecv, ?_⟩
    obtain ⟨k, hk, hrecv⟩ := bind_eq_some_iff.mp hrecv
    obtain ⟨⟨result', count⟩, -, heq⟩ := map_eq_some_iff.mp hrecv
    cases heq
    have hset := h.setConnection { k with rx := k.rx.advanceRead count }
      (fun hclosed => ⟨k, hk, hclosed⟩)
    exact ⟨hset.announced, hset.raised, hset.closed⟩
  | startPoll =>
    obtain ⟨hnone, rfl⟩ := unless_eq_some hs
    have hmem : ∀ f, f ∈ Vsock.queue { st with
        polling := some st.pendingEvents, pendingEvents := [] } ↔ f ∈ st.queue := by
      intro f
      simp only [queue, not_isSome_iff_eq_none.mp hnone, getD_some,
        getD_none, List.append_nil]
    exact ⟨⟨ho.bytes, ho.room⟩, h.keep rfl rfl rfl (fun f => (hmem f).mpr) (fun c => (hmem _).mp)
      (fun _ k hk hclosed => ⟨k, hk, hclosed⟩)⟩
  | handle =>
    refine ⟨?_, h.handle hok hs⟩
    obtain ⟨⟨e, st₁⟩, hnext, rfl⟩ := map_eq_some_iff.mp hs
    obtain ⟨-, -, polling, events, rfl⟩ := nextEvent_spec hnext
    have hnow : ({ st with polling := polling, events := events } : Vsock).Ordered :=
      ⟨ho.bytes, ho.room⟩
    exact hnow.handle e
  | receive => exact ⟨ho.receive hs, h.receive hok hs⟩
  | endPoll =>
    obtain ⟨⟨hpolling, -⟩, rfl⟩ := guard_eq_some hs
    have hmem : ∀ f, f ∈ Vsock.queue { st with polling := none } ↔ f ∈ st.queue := by
      intro f
      simp only [queue, hpolling, getD_some, getD_none]
    exact ⟨⟨ho.bytes, ho.room⟩, h.keep rfl rfl rfl (fun f => (hmem f).mpr) (fun c => (hmem _).mp)
      (fun _ k hk hclosed => ⟨k, hk, hclosed⟩)⟩

/-! ## §5. What an application reads. -/

/-- **What is read is what was announced.**  In order; complete when end-of-file is reported; and
complete but for the ring when no event is left that announces bytes. -/
def Delivers (st : Vsock) (c : VsockConnId) : Prop :=
  st.delivered c <+: st.announced c
    ∧ (∀ peek left right st', st.recv c peek left right = some (.ok 0, st') →
        st.delivered c = st.announced c)
    ∧ (st.awaited c = false → (∀ n, st.receiving ≠ some (c, n)) →
        st.announced c = st.delivered c ++ st.contents c)

/-- **VSOCK DELIVERS EVERY ANNOUNCED BYTE** in every run that is attended to, at every moment and
for every connection. -/
theorem vsock_delivers_announced_bytes (st : Vsock)
    (h : Reach step (fun st op => st.attended op = true) start st) (c : VsockConnId) :
    st.Delivers c := by
  have hstart : start.Ordered ∧ start.Attended := ⟨⟨fun _ => rfl, nofun⟩,
      ⟨fun _ => absurd rfl, nofun, nofun⟩⟩
  obtain ⟨hordered, hattended⟩ := h.invariant (fun st => st.Ordered ∧ st.Attended) hstart
    (fun _ _ _ hinv => step_keeps hinv.1 hinv.2)
  have hbytes := hordered.bytes c
  refine ⟨?_, ?_, ?_⟩
  · rw [hbytes, List.append_assoc]
    exact List.prefix_append _ _
  · intro peek left right st' hrecv
    obtain ⟨k, hk, hrecv⟩ := bind_eq_some_iff.mp hrecv
    obtain ⟨⟨result, count⟩, hattempt, heq⟩ := map_eq_some_iff.mp hrecv
    obtain ⟨rfl, -⟩ := heq
    obtain ⟨hclosed, hempty⟩ := (Connection.recv_spec hattempt).2 rfl
    have hring : k.rx.contents = [] :=
      List.eq_nil_of_length_eq_zero (by rw [length_contents, hempty])
    rw [hbytes, (hattended.closed c k hk hclosed).1, contents_of_some hk, hring, List.append_nil,
      List.append_nil]
  · intro hnone hidle
    have hnothing : st.available c = [] := by
      by_contra hsome
      rcases hattended.announced c hsome with hawaited | ⟨n, hn⟩
      · cases hnone.symm.trans hawaited
      · exact hidle n hn
    rw [hbytes, hnothing, List.append_nil]

/-- A connection from context 2, port 1024, to port 80. -/
def exampleConn : VsockConnId := ⟨⟨2, 1024⟩, 80⟩

/-- Two packets, a disconnect, and the reads up to end-of-file. -/
theorem two_packets_are_read : ∃ st, Reach step (fun st op => st.attended op = true) start st
      ∧ st.delivered exampleConn = [1, 2, 3] ∧ st.Delivers exampleConn
      ∧ ∃ st', st.recv exampleConn false (.ok 0) (.ok 0) = some (.ok 0, st') := by
  obtain ⟨st, hst, hc⟩ := exists_reach_guarded step start attended
    [.listen 80, .request exampleConn, .packet exampleConn [1, 2], .packet exampleConn [3],
      .disconnect exampleConn, .startPoll, .handle, .handle, .receive, .handle, .receive, .handle,
      .endPoll, .accept 80, .recv exampleConn false (.ok 3) (.ok 0)]
    (fun st => st.delivered exampleConn = [1, 2, 3]
      ∧ (st.recv exampleConn false (.ok 0) (.ok 0)).map Prod.fst = some (.ok 0))
    (by decide +kernel)
  obtain ⟨⟨_, st'⟩, hrecv, rfl⟩ := map_eq_some_iff.mp hc.2
  exact ⟨st, hst, hc.1, vsock_delivers_announced_bytes st hst exampleConn, st', hrecv⟩

/-- **A packet of 4097 bytes is cut off**: the event takes 4096 bytes out of the device, the last
one stays there when the peer disconnects, and `recv` reports end-of-file without it. -/
theorem long_packet_is_cut_off : ∃ st st', Reach step Always start st
      ∧ st.recv exampleConn false (.ok 0) (.ok 0) = some (.ok 0, st')
      ∧ (st.announced exampleConn).length = 4097 ∧ (st.delivered exampleConn).length = 4096
      ∧ ¬ st.Delivers exampleConn := by
  obtain ⟨st, hst, hannounced, hdelivered, heof⟩ := exists_reach step start
    [.listen 80, .request exampleConn, .packet exampleConn (List.replicate 4097 7),
      .disconnect exampleConn, .startPoll, .handle, .handle, .receive, .handle, .endPoll,
      .accept 80, .recv exampleConn false (.ok 4096) (.ok 0)]
    (fun st => (st.announced exampleConn).length = 4097 ∧ (st.delivered exampleConn).length = 4096
      ∧ (st.recv exampleConn false (.ok 0) (.ok 0)).map Prod.fst = some (.ok 0))
    (by decide +kernel)
  obtain ⟨⟨_, st'⟩, hrecv, rfl⟩ := map_eq_some_iff.mp heof
  refine ⟨st, st', hst, hrecv, hannounced, hdelivered, fun hdelivers => ?_⟩
  have hequal := congrArg List.length (hdelivers.2.1 false (.ok 0) (.ok 0) st' hrecv)
  omega

end Vsock

end StarryOS.Net
