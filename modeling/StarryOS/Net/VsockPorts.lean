/-
  StarryOS.Net.VsockPorts — EPHEMERAL VSOCK PORTS (`allocate_port` of
  `modules/axnet-ng/src/vsock/connection_manager.rs`).

  The search goes round the range from a cursor that outlives the call, and gives
  up when the cursor is back where the call found it.
-/
import StarryOS.Net.Vsock

namespace StarryOS.Net

/-- From `EPHEMERAL_PORT_START` to `EPHEMERAL_PORT_END`. -/
def Ephemeral (port : Nat) : Prop := 0xc000 ≤ port ∧ port ≤ 0xffff

/-- Where the cursor goes from `port`. -/
def nextPort (port : Nat) : Nat := if 0xffff ≤ port then 0xc000 else port + 1

/-- `VsockConnectionManager`, as far as ports go: the keys of its maps and the cursor. -/
structure VsockConnectionManager where
  connections : List VsockConnId
  listenQueues : List Nat
  nextEphemeralPort : Nat
  ephemeral : Ephemeral nextEphemeralPort

namespace VsockConnectionManager

def new : VsockConnectionManager := ⟨[], [], 0xc000, le_rfl, Nat.le_of_ble_eq_true rfl⟩

variable (m : VsockConnectionManager)

def portInUse (port : Nat) : Bool :=
  m.listenQueues.contains port || m.connections.any (fun id => id.localPort == port)

/-- The loop of `allocate_port`, with a bound on its rounds: the result and the cursor. -/
def allocateLoop (start : Nat) : Nat → Nat → Option (AxResult Nat × Nat)
  | 0, _ => none
  | rounds + 1, port =>
    if m.portInUse port = false then some (.ok port, nextPort port)
    else if nextPort port = start then some (.error .addrInUse, nextPort port)
    else allocateLoop start rounds (nextPort port)

def allocatePort (rounds : Nat) : Option (AxResult Nat × Nat) :=
  m.allocateLoop m.nextEphemeralPort rounds m.nextEphemeralPort

/-- How many steps of the cursor lead from `start` to `port`. -/
def stepsFrom (start port : Nat) : Nat := (port + 0x4000 - start) % 0x4000

variable {m} {start port : Nat}

/-- A step of the cursor: round the range, and back to `start` after all of it. -/
theorem nextPort_spec (hs : Ephemeral start) (hp : Ephemeral port) :
    Ephemeral (nextPort port) ∧ if nextPort port = start then stepsFrom start port = 0x3fff
      else stepsFrom start (nextPort port) = stepsFrom start port + 1 := by
  unfold Ephemeral at *
  unfold nextPort stepsFrom
  split
  · split <;> omega
  · split <;> omega

theorem eq_of_stepsFrom_eq {other : Nat} (hs : Ephemeral start) (hp : Ephemeral port)
    (ho : Ephemeral other) (h : stepsFrom start other = stepsFrom start port) : other = port := by
  unfold Ephemeral at *
  unfold stepsFrom at h
  omega

/-- **The loop**, when the ports from `start` up to the cursor are in use: it examines the others,
one round each. -/
theorem allocateLoop_exact (hs : Ephemeral start) : ∀ (left port : Nat), Ephemeral port →
    stepsFrom start port + left = 0x4000 →
    (∀ p, Ephemeral p → stepsFrom start p < stepsFrom start port → m.portInUse p = true) →
    ∃ result cursor, (∀ rounds, left ≤ rounds →
        m.allocateLoop start rounds port = some (result, cursor)) ∧ Ephemeral cursor
      ∧ ((∃ p, result = .ok p ∧ Ephemeral p ∧ m.portInUse p = false)
        ∨ result = .error .addrInUse ∧ ∀ p, Ephemeral p → m.portInUse p = true) := by
  intro left
  induction left with
  | zero =>
    intro port _ hleft
    unfold stepsFrom at hleft
    omega
  | succ left ih =>
    intro port hp hleft hbefore
    obtain ⟨hnext, hstep⟩ := nextPort_spec hs hp
    by_cases hfree : m.portInUse port = false
    · refine ⟨.ok port, nextPort port, ?_, hnext, .inl ⟨port, rfl, hp, hfree⟩⟩
      intro rounds hrounds
      obtain ⟨n, rfl⟩ := Nat.exists_eq_add_of_le' hrounds
      exact if_pos hfree
    -- the port under the cursor is in use as well
    have hupto : ∀ p, Ephemeral p → stepsFrom start p ≤ stepsFrom start port →
        m.portInUse p = true := by
      intro p hpe hle
      rcases Nat.lt_or_eq_of_le hle with hlt | heq
      · exact hbefore p hpe hlt
      · rw [eq_of_stepsFrom_eq hs hp hpe heq]
        exact Bool.eq_true_of_not_eq_false hfree
    split at hstep
    next hback =>
      refine ⟨.error .addrInUse, nextPort port, ?_, hnext, .inr ⟨rfl, ?_⟩⟩
      · intro rounds hrounds
        obtain ⟨n, rfl⟩ := Nat.exists_eq_add_of_le' hrounds
        exact (if_neg hfree).trans (if_pos hback)
      · intro p hpe
        refine hupto p hpe ?_
        unfold stepsFrom at hstep ⊢
        omega
    next hback =>
      obtain ⟨result, cursor, hloop, hrest⟩ := ih (nextPort port) hnext (by omega) (by
        intro p hpe hlt
        exact hupto p hpe (by omega))
      refine ⟨result, cursor, ?_, hrest⟩
      intro rounds hrounds
      obtain ⟨n, rfl⟩ := Nat.exists_eq_add_of_le' hrounds
      exact (if_neg hfree).trans ((if_neg hback).trans (hloop (n + left) (Nat.le_add_left _ _)))

theorem portInUse_iff : m.portInUse port = true
    ↔ port ∈ m.listenQueues ∨ ∃ id ∈ m.connections, id.localPort = port := by
  simp [portInUse]

/-- **PORT ALLOCATION IS EXACT.**  Within one round of the range it returns a free port, or fails
because there is none; the cursor stays in the range. -/
theorem allocate_port_is_exact (m : VsockConnectionManager) : ∃ result cursor,
    (∀ rounds, 0x4000 ≤ rounds → m.allocatePort rounds = some (result, cursor)) ∧ Ephemeral cursor
      ∧ ((∃ p, result = .ok p ∧ Ephemeral p
          ∧ p ∉ m.listenQueues ∧ ∀ id ∈ m.connections, id.localPort ≠ p)
        ∨ result = .error .addrInUse ∧ ∀ p, Ephemeral p →
          p ∈ m.listenQueues ∨ ∃ id ∈ m.connections, id.localPort = p) := by
  have hself : stepsFrom m.nextEphemeralPort m.nextEphemeralPort = 0 := by
    unfold stepsFrom
    omega
  have hexact := allocateLoop_exact (m := m) m.ephemeral 0x4000 m.nextEphemeralPort m.ephemeral
    (by omega) (fun p _ hlt => by omega)
  simpa only [allocatePort, ← Bool.not_eq_true, portInUse_iff, not_or, not_exists, not_and, ne_eq]
    using hexact

end VsockConnectionManager

end StarryOS.Net
