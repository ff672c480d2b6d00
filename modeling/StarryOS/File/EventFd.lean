/-
  StarryOS.File.EventFd — A COUNTER TO READ AND WRITE (`kernel/src/file/event.rs`,
  `sys_eventfd2` of `kernel/src/syscall/fs/event.rs`).

      read     count -= (semaphore ? 1 : count); dst.write(count as it was); poll_tx.wake()
      write    src.read(value); count += value, below u64::MAX; poll_rx.wake()

  What a reader takes out of the counter and what is copied to it come from two
  expressions.  In semaphore mode they differ as soon as the counter is above 1,
  and a copy that faults loses what was taken (`semaphore_read_delivers_three`).
  Without either the account is balanced (`eventfd_conserves`).
-/
import StarryOS.Lib.Transition
import StarryOS.Task.PollIo

namespace StarryOS.File

open Lib StarryOS.Task Threads IoPoint

/-! ## §1. The file. -/

/-- The two calls. -/
inductive EventIo where
  | read
  | write (value : UInt64)
  deriving Repr, DecidableEq

/-- The closures of `read` and `write`, cut where another thread can come in between. -/
inductive EventPos where
  /-- Before `fetch_update`. -/
  | update
  /-- The update of `read` has returned `count`; `dst.write` is next. -/
  | deliver (count : UInt64)
  /-- The other side is woken next. -/
  | wake
  deriving Repr, DecidableEq

/-- Where a thread is. -/
abbrev EventPoint := IoPoint EventIo EventPos

/-- An eventfd and its threads. -/
structure EventFd where
  count : UInt64
  semaphore : Bool
  nonBlocking : Bool
  /-- The threads whose wakers are registered. -/
  pollRx : List Nat
  pollTx : List Nat
  threads : Threads EventPoint
  /-- The values of the writes that have succeeded; nobody reads this. -/
  written : List UInt64
  /-- The values that were copied to readers; nobody reads this. -/
  delivered : List UInt64

namespace EventFd

def new (initval : UInt64) (semaphore : Bool) : EventFd :=
  ⟨initval, semaphore, false, [], [], .initial, [], []⟩

variable (fd : EventFd)

def setNonblocking (nonBlocking : Bool) : EventFd :=
  { fd with nonBlocking := nonBlocking }

/-- `sys_eventfd2`, up to the descriptor. -/
def sysEventfd2 (initval : UInt32) (semaphore nonBlocking : Bool) : EventFd :=
  (new initval.toUInt64 semaphore).setNonblocking nonBlocking

/-- The update of `read`. -/
def takes (semaphore : Bool) (count : UInt64) : Option UInt64 :=
  if count > 0 then
    let dec := if semaphore then 1 else count
    some (count - dec)
  else none

/-- The update of `write`; `u64::MAX - count` does not underflow. -/
def adds (value count : UInt64) : Option UInt64 :=
  if 2 ^ 64 - 1 - count.toNat > value.toNat then some (count + value) else none

/-! ## §2. Steps. -/

/-- The thread goes on at `p`; wakers that a finished call leaves behind only unpark. -/
def settle (t : Nat) (p : EventPoint) : EventFd :=
  { fd with
    threads := fd.threads.goto t p
    pollRx := if p.atRest then fd.pollRx.filter (· ≠ t) else fd.pollRx
    pollTx := if p.atRest then fd.pollTx.filter (· ≠ t) else fd.pollTx }

def wakeRx : EventFd :=
  { fd with threads := fd.threads.updateAll IoPoint.wake fd.pollRx, pollRx := [] }

def wakeTx : EventFd :=
  { fd with threads := fd.threads.updateAll IoPoint.wake fd.pollTx, pollTx := [] }

/-- `register`, with the events of the call. -/
def register (t : Nat) : EventIo → EventFd
  | .read => { fd with pollRx := t :: fd.pollRx }
  | .write _ => { fd with pollTx := t :: fd.pollTx }

/-- `fetch_update` of `read`. -/
def readUpdate (t : Nat) (call : IoCall EventIo EventPos) : EventFd :=
  match takes fd.semaphore fd.count with
  | some rest => { fd with
      count := rest
      threads := fd.threads.goto t (.inside (call.goto (.deliver fd.count))) }
  | none => fd.settle t (call.finish (.error .wouldBlock))

/-- `fetch_update` of `write`. -/
def writeUpdate (t : Nat) (call : IoCall EventIo EventPos) (value : UInt64) :
    EventFd :=
  match adds value fd.count with
  | some count => { fd with
      count := count
      threads := fd.threads.goto t (.inside (call.goto .wake))
      written := value :: fd.written }
  | none => fd.settle t (call.finish (.error .wouldBlock))

/-- The next step of the closure; `dst.write` is another event. -/
def closure (t : Nat) (call : IoCall EventIo EventPos) :
    EventPos → Option EventFd
  | .update =>
    match call.io with
    | .read => some (fd.readUpdate t call)
    | .write value => some (fd.writeUpdate t call value)
  | .deliver _ => none
  | .wake =>
    match call.io with
    | .read => some (fd.wakeTx.settle t (.returned (.ok 8)))
    | .write _ => some (fd.wakeRx.settle t (.returned (.ok 8)))

/-- The next step of a thread. -/
def next (t : Nat) : Option EventFd :=
  match fd.threads.pc t with
  | .returned _ => none
  | .inside call =>
    match call.phase with
    | .first pos => fd.closure t call pos
    | .second pos => fd.closure t call pos
    | .registering =>
      some ((fd.register t call.io).settle t (.inside { call with phase := .second .update }))
    | _ => (call.loop .update).map (fun call => fd.settle t (.inside call))

/-- `dst.write(&count.to_ne_bytes())?` has returned `result`. -/
def copyOut (t : Nat) (result : AxResult Nat) : Option EventFd :=
  match fd.threads.pc t with
  | .returned _ => none
  | .inside call =>
    match call.pos? with
    | some (.deliver count) =>
      match result with
      | .ok n => some { fd with
          threads := fd.threads.goto t (.inside (call.goto .wake))
          delivered := if n = 8 then count :: fd.delivered else fd.delivered }
      | .error e => some (fd.settle t (call.finish (.error e)))
    | _ => none

/-- `read`, up to `block_on`. -/
def read (fd : EventFd) (t remaining : Nat) : EventFd :=
  if remaining < 8 then fd.settle t (.returned (.error .invalidInput))
  else fd.settle t (.inside (.start .read fd.nonBlocking))

/-- `write`, up to `block_on`; `src` is what the source answers. -/
def write (fd : EventFd) (t remaining : Nat) (src : AxResult UInt64) : EventFd :=
  if remaining < 8 then fd.settle t (.returned (.error .invalidInput))
  else
    match src with
    | .error e => fd.settle t (.returned (.error e))
    | .ok value =>
      if value = 0xffffffffffffffff then fd.settle t (.returned (.error .invalidInput))
      else fd.settle t (.inside (.start (.write value) fd.nonBlocking))

end EventFd

/-- What may happen. -/
inductive EventOp where
  | read (t remaining : Nat)
  | write (t remaining : Nat) (src : AxResult UInt64)
  | next (t : Nat)
  | copyOut (t : Nat) (result : AxResult Nat)
  /-- `poll_interrupt` says that the thread was interrupted. -/
  | interrupted (t : Nat)
  | unpark (t : Nat)
  | setNonblocking (nonBlocking : Bool)

namespace EventFd

def step (fd : EventFd) : EventOp → Option EventFd
  | .read t remaining => if (fd.threads.pc t).atRest then some (fd.read t remaining) else none
  | .write t remaining src =>
    if (fd.threads.pc t).atRest then some (fd.write t remaining src) else none
  | .next t => fd.next t
  | .copyOut t result => fd.copyOut t result
  | .interrupted t =>
    match fd.threads.pc t with
    | .inside ⟨_, _, _, .polling⟩ => some (fd.settle t (.returned (.error .interrupted)))
    | _ => none
  | .unpark t => (fd.threads.pc t).unpark.map (fd.settle t)
  | .setNonblocking nonBlocking => some (fd.setNonblocking nonBlocking)

/-! ## §3. The account. -/

/-- What a thread has taken out of the counter and is copying to its reader. -/
def hand (p : EventPoint) : Option UInt64 :=
  match p.pos? with
  | some (.deliver count) => some count
  | _ => none

/-- What a reader has taken and not yet copied out. -/
def load (p : EventPoint) : Nat := ((hand p).map UInt64.toNat).getD 0

/-- All of this. -/
def inHand (fd : EventFd) : Nat := fd.threads.total load

def sum (values : List UInt64) : Nat := (values.map UInt64.toNat).sum

/-- **The account is balanced.**  A value on its way to a reader counts as delivered. -/
def Conserved (initval : UInt32) (fd : EventFd) : Prop :=
  initval.toNat + sum fd.written = fd.count.toNat + (sum fd.delivered + fd.inHand)

/-- A reader in semaphore mode finds the counter at most 1, and no copy fails. -/
def heeds (fd : EventFd) : EventOp → Bool
  | .next t =>
    match fd.threads.pc t with
    | .inside ⟨.read, _, _, .first .update⟩ => !fd.semaphore || fd.count ≤ 1
    | .inside ⟨.read, _, _, .second .update⟩ => !fd.semaphore || fd.count ≤ 1
    | _ => true
  | .copyOut _ (.ok n) => n = 8
  | .copyOut _ (.error _) => false
  | _ => true

theorem takes_all {semaphore : Bool} {count rest : UInt64} (h : takes semaphore count = some rest)
    (hone : semaphore = true → count ≤ 1) : rest = 0 ∧ (semaphore = true → count = 1) := by
  unfold takes at h
  split at h
  · injection h with h
    cases semaphore with
    | false => exact ⟨h.symm.trans (UInt64.sub_self (a := count)), fun h => by cases h⟩
    | true => grind
  · cases h

theorem adds_spec {value count sum : UInt64} (h : adds value count = some sum) :
    sum.toNat = count.toNat + value.toNat ∧ sum.toNat ≤ 2 ^ 64 - 2 := by
  unfold adds at h
  split at h
  · injection h with h
    have hsum : sum.toNat = count.toNat + value.toNat := by
      rw [← h, UInt64.toNat_add, Nat.mod_eq_of_lt (by omega)]
    exact ⟨hsum, by omega⟩
  · cases h

/-- **What a step does to the account.** -/
inductive Effect (fd fd' : EventFd) : Prop
  | same (hmode : fd'.semaphore = fd.semaphore) (hcount : fd'.count = fd.count)
      (hwritten : fd'.written = fd.written) (hdelivered : fd'.delivered = fd.delivered)
      (hload : fd'.inHand = fd.inHand)
      (hhand : ∀ t c, hand (fd'.threads.pc t) = some c → hand (fd.threads.pc t) = some c)
  /-- A reader takes. -/
  | take (hmode : fd'.semaphore = fd.semaphore)
      (htakes : takes fd.semaphore fd.count = some fd'.count)
      (hone : fd.semaphore = true → fd.count ≤ 1) (hwritten : fd'.written = fd.written)
      (hdelivered : fd'.delivered = fd.delivered) (hload : fd'.inHand = fd.inHand + fd.count.toNat)
      (hhand : ∀ t c, hand (fd'.threads.pc t) = some c →
        hand (fd.threads.pc t) = some c ∨ c = fd.count)
  /-- What it took has arrived. -/
  | deliver (hmode : fd'.semaphore = fd.semaphore) (t : Nat) (c : UInt64)
      (hc : hand (fd.threads.pc t) = some c) (hcount : fd'.count = fd.count)
      (hwritten : fd'.written = fd.written)
      (hdelivered : fd'.delivered = c :: fd.delivered) (hload : fd'.inHand + c.toNat = fd.inHand)
      (hhand : ∀ t c, hand (fd'.threads.pc t) = some c → hand (fd.threads.pc t) = some c)
  /-- A writer adds. -/
  | add (hmode : fd'.semaphore = fd.semaphore) (value : UInt64)
      (hadds : adds value fd.count = some fd'.count)
      (hwritten : fd'.written = value :: fd.written) (hdelivered : fd'.delivered = fd.delivered)
      (hload : fd'.inHand = fd.inHand)
      (hhand : ∀ t c, hand (fd'.threads.pc t) = some c → hand (fd.threads.pc t) = some c)

section Effects

variable {fd fd' : EventFd} {t : Nat} {p : EventPoint} {l : List Nat}
    (call : IoCall EventIo EventPos)

theorem hand_wake (p : EventPoint) : hand p.wake = hand p := by
  unfold hand
  rw [pos?_wake]

theorem hand_of_pos {pos : Option EventPos} (h : p.pos? = pos)
    (hpos : ∀ c, pos ≠ some (.deliver c)) : hand p = none := by
  unfold hand
  grind

theorem hand_of_deliver {c : UInt64} (h : p.pos? = some (.deliver c)) : hand p = some c := by
  unfold hand
  rw [h]

theorem load_wake (p : EventPoint) : load p.wake = load p := by
  unfold load
  rw [hand_wake]

theorem load_of_none (h : hand p = none) : load p = 0 := by
  unfold load
  rw [h]
  rfl

theorem load_of_some {c : UInt64} (h : hand p = some c) : load p = c.toNat := by
  unfold load
  rw [h]
  rfl

section

variable (ht : fd'.threads = (fd.threads.updateAll IoPoint.wake l).goto t p)
include ht

/-- The points of the others do not change but for being woken. -/
theorem hand_moved (u : Nat) :
    hand (fd'.threads.pc u) = if u = t then hand p else hand (fd.threads.pc u) := by
  rw [ht]
  exact wake_goto hand_wake fd.threads l t p u

theorem inHand_moved {a b : Nat}
    (ha : load (fd.threads.pc t) = a) (hb : load p = b) : fd'.inHand + a = fd.inHand + b := by
  have hmove := total_goto load rfl (fd.threads.updateAll wake l) t p
  have hself : load ((fd.threads.updateAll wake l).pc t) = load (fd.threads.pc t) := by
    rw [pc_updateAll wake_wake]
    split
    · exact load_wake _
    · rfl
  rw [hself, total_updateAll load rfl load_wake, ha, hb] at hmove
  unfold inHand
  rw [ht]
  exact hmove

theorem Effect.quiet (hmode : fd'.semaphore = fd.semaphore)
    (hp : hand p = none) (hpc : hand (fd.threads.pc t) = none) (hcount : fd'.count = fd.count)
    (hwritten : fd'.written = fd.written) (hdelivered : fd'.delivered = fd.delivered) :
    Effect fd fd' := by
  refine .same hmode hcount hwritten hdelivered
    (inHand_moved ht (load_of_none hpc) (load_of_none hp)) ?_
  intro u c hu
  rw [hand_moved ht, hp] at hu
  split at hu
  · cases hu
  · exact hu

end

theorem Effect.settled (hp : hand p = none) (hpc : hand (fd.threads.pc t) = none) :
    Effect fd (fd.settle t p) :=
  .quiet (l := []) rfl rfl hp hpc rfl rfl rfl

theorem hand_finish (result : AxResult Nat) : hand (call.finish result) = none :=
  hand_of_pos (pos?_finish call result) nofun

theorem hand_goto_wake : hand (.inside (call.goto .wake)) = none :=
  hand_of_pos (call.pos?_goto .wake) nofun

theorem hand_atRest (h : p.atRest = true) : hand p = none :=
  hand_of_pos (pos?_atRest h) nofun

theorem readUpdate_effect (hfree : hand (fd.threads.pc t) = none)
    (hone : fd.semaphore = true → fd.count ≤ 1) : Effect fd (fd.readUpdate t call) := by
  unfold readUpdate
  cases htakes : takes fd.semaphore fd.count with
  | none => exact .settled (hand_finish call _) hfree
  | some rest =>
    -- the whole counter goes into the hands of the reader
    have hp : hand (.inside (call.goto (.deliver fd.count))) = some fd.count :=
      hand_of_deliver (call.pos?_goto (.deliver fd.count))
    refine .take rfl htakes hone rfl rfl ?_ (by grind)
    rw [← Nat.add_zero (inHand _)]
    exact inHand_moved (l := []) rfl (load_of_none hfree) (load_of_some hp)

theorem writeUpdate_effect (value : UInt64)
    (hfree : hand (fd.threads.pc t) = none) : Effect fd (fd.writeUpdate t call value) := by
  unfold writeUpdate
  cases hadds : adds value fd.count with
  | none => exact .settled (hand_finish call _) hfree
  | some count =>
    have hp := hand_goto_wake call
    refine .add rfl value hadds rfl rfl ?_ (by grind)
    rw [← Nat.add_zero (inHand _)]
    exact inHand_moved (l := []) rfl (load_of_none hfree) (load_of_none hp)

/-- **The closures.** -/
theorem closure_effect {call : IoCall EventIo EventPos} {pos : EventPos}
    (hpc : fd.threads.pc t = .inside call) (hpos : call.pos? = some pos)
    (hone : call.io = .read → pos = .update → fd.semaphore = true → fd.count ≤ 1)
    (hs : fd.closure t call pos = some fd') : Effect fd fd' := by
  have hfree : (∀ c, pos ≠ .deliver c) → hand (fd.threads.pc t) = none := by
    intro hne
    rw [hpc]
    exact hand_of_pos hpos (fun c h => hne c (Option.some.inj h))
  unfold EventFd.closure at hs
  cases pos with
  | deliver c => cases hs
  | wake =>
    have hfree := hfree nofun
    cases hio : call.io with
    | read =>
      simp only [hio] at hs
      cases hs
      exact .quiet (l := fd.pollTx) rfl rfl rfl hfree rfl rfl rfl
    | write value =>
      simp only [hio] at hs
      cases hs
      exact .quiet (l := fd.pollRx) rfl rfl rfl hfree rfl rfl rfl
  | update =>
    have hfree := hfree nofun
    cases hio : call.io with
    | read =>
      simp only [hio] at hs
      cases hs
      exact readUpdate_effect call hfree (hone hio rfl)
    | write value =>
      simp only [hio] at hs
      cases hs
      exact writeUpdate_effect call value hfree

theorem next_effect (hok : fd.heeds (.next t) = true) (hs : fd.next t = some fd') :
    Effect fd fd' := by
  unfold EventFd.next at hs
  split at hs
  · cases hs
  next call hpc =>
    obtain ⟨io, nonBlocking, woke, phase⟩ := call
    simp only [heeds, hpc] at hok
    cases phase with
    | first pos | second pos =>
      refine closure_effect hpc rfl ?_ hs
      rintro rfl rfl hsem
      simpa [hsem] using hok
    | registering =>
      cases hs
      cases io <;> exact .quiet (l := []) rfl rfl rfl (by rw [hpc]; rfl) rfl rfl rfl
    | polling =>
      cases hs
      exact .settled rfl (by rw [hpc]; rfl)
    | parking =>
      cases hs
      refine .settled ?_ (by rw [hpc]; rfl)
      cases woke <;> rfl
    | parked => cases hs

theorem copyOut_effect (hs : fd.copyOut t (.ok 8) = some fd') : Effect fd fd' := by
  unfold EventFd.copyOut at hs
  split at hs
  · cases hs
  next call hpc =>
    split at hs
    next c hpos =>
      cases hs
      have hp := hand_goto_wake call
      have hc : hand (fd.threads.pc t) = some c := hpc ▸ hand_of_deliver hpos
      exact .deliver rfl t c hc rfl rfl rfl
        (inHand_moved (l := []) rfl (load_of_some hc) (load_of_none hp)) (by grind)
    · cases hs

/-- **One step.** -/
theorem step_effect {op : EventOp} (hok : fd.heeds op = true) (hs : fd.step op = some fd') :
    Effect fd fd' := by
  cases op with
  | read t remaining =>
    obtain ⟨hrest, rfl⟩ := guard_eq_some hs
    unfold EventFd.read
    split <;> exact .settled rfl (hand_atRest hrest)
  | write t remaining src =>
    obtain ⟨hrest, rfl⟩ := guard_eq_some hs
    unfold EventFd.write
    split
    · exact .settled rfl (hand_atRest hrest)
    cases src with
    | error e => exact .settled rfl (hand_atRest hrest)
    | ok value =>
      simp only
      split <;> exact .settled rfl (hand_atRest hrest)
  | next t => exact next_effect hok hs
  | copyOut t result =>
    cases result with
    | error e => cases hok
    | ok n =>
      obtain rfl : n = 8 := of_decide_eq_true hok
      exact copyOut_effect hs
  | interrupted t =>
    simp only [EventFd.step] at hs
    split at hs
    next io nonBlocking woke hpc =>
      cases hs
      exact .settled rfl (by rw [hpc]; rfl)
    · cases hs
  | unpark t =>
    obtain ⟨p, hp, rfl⟩ := Option.map_eq_some_iff.mp hs
    unfold IoPoint.unpark at hp
    split at hp
    next io nonBlocking woke hpc =>
      cases hp
      exact .settled rfl (by rw [hpc]; rfl)
    · cases hp
  | setNonblocking nonBlocking =>
    cases hs
    exact .same rfl rfl rfl rfl rfl (fun _ _ => id)

end Effects

/-! ## §4. Every run. -/

/-- **The invariant.** -/
@[grind cases] structure Balanced (initval : UInt32) (semaphore : Bool) (fd : EventFd) : Prop where
  mode : fd.semaphore = semaphore
  conserved : fd.Conserved initval
  bound : fd.count.toNat ≤ 2 ^ 64 - 2
  ones : semaphore = true → ∀ v ∈ fd.delivered, v = 1
  carried : semaphore = true → ∀ t c, hand (fd.threads.pc t) = some c → c = 1

theorem Balanced.step {initval : UInt32} {semaphore : Bool} {fd fd' : EventFd} {op : EventOp}
    (h : fd.Balanced initval semaphore) (hok : fd.heeds op = true) (hs : fd.step op = some fd') :
    fd'.Balanced initval semaphore := by
  have hconserved := h.conserved
  have hbound := h.bound
  unfold Conserved at hconserved
  cases step_effect hok hs with
  | same hmode hcount hwritten hdelivered hload hhand =>
    refine ⟨hmode.trans h.mode, ?_, ?_, ?_, ?_⟩
    · unfold Conserved
      rw [hcount, hwritten, hdelivered, hload]
      exact hconserved
    · rw [hcount]
      exact hbound
    · rw [hdelivered]
      exact h.ones
    · exact fun hsem u c hu => h.carried hsem u c (hhand u c hu)
  | take hmode htakes hone hwritten hdelivered hload hhand =>
    obtain ⟨hzero, hcount⟩ := takes_all htakes hone
    refine ⟨hmode.trans h.mode, ?_, ?_, ?_, ?_⟩
    · unfold Conserved
      rw [hzero, hwritten, hdelivered, UInt64.toNat_zero]
      omega
    · rw [hzero]
      exact Nat.zero_le _
    · rw [hdelivered]
      exact h.ones
    · grind
  | deliver hmode t c hc hcount hwritten hdelivered hload hhand =>
    refine ⟨hmode.trans h.mode, ?_, ?_, ?_, ?_⟩
    · have hsum : sum (c :: fd.delivered) = c.toNat + sum fd.delivered := rfl
      unfold Conserved
      rw [hcount, hwritten, hdelivered]
      omega
    · rw [hcount]
      exact hbound
    · grind
    · exact fun hsem u d hu => h.carried hsem u d (hhand u d hu)
  | add hmode value hadds hwritten hdelivered hload hhand =>
    obtain ⟨hsum, hle⟩ := adds_spec hadds
    refine ⟨hmode.trans h.mode, ?_, hle, ?_, ?_⟩
    · have hnew : sum (value :: fd.written) = value.toNat + sum fd.written := rfl
      unfold Conserved
      rw [hwritten, hdelivered]
      omega
    · rw [hdelivered]
      exact h.ones
    · exact fun hsem u c hu => h.carried hsem u c (hhand u c hu)

theorem new_balanced (initval : UInt32) (semaphore nonBlocking : Bool) :
    (sysEventfd2 initval semaphore nonBlocking).Balanced initval semaphore := by
  have hlt := initval.toNat_lt
  refine ⟨rfl, ?_, ?_, ?_, ?_⟩
  · show initval.toNat + 0 = initval.toUInt64.toNat + (0 + 0)
    rw [UInt32.toNat_toUInt64]
  · show initval.toUInt64.toNat ≤ _
    rw [UInt32.toNat_toUInt64]
    omega
  · intro _ v hv
    cases hv
  · intro _ t c hc
    cases hc

/-- **AN EVENTFD CONSERVES WHAT IS WRITTEN TO IT**, at every point of every run in which a reader
in semaphore mode finds the counter at most 1 and no copy to a reader fails. -/
theorem eventfd_conserves (initval : UInt32) (semaphore nonBlocking : Bool) (fd : EventFd)
    (h : Reach step (fun fd op => fd.heeds op = true)
      (sysEventfd2 initval semaphore nonBlocking) fd) :
    fd.Conserved initval ∧ fd.count.toNat ≤ 2 ^ 64 - 2
      ∧ (semaphore = true → ∀ v ∈ fd.delivered, v = 1) := by
  have hinv := h.invariant (Balanced initval semaphore) (new_balanced initval semaphore nonBlocking)
    (fun _ _ _ hinv => hinv.step)
  exact ⟨hinv.conserved, hinv.bound, hinv.ones⟩

def readOnce : List EventOp := [.read 1 8, .next 1, .next 1, .copyOut 1 (.ok 8), .next 1]

/-- A counter is written and read, a semaphore of value 1 is read: both accounts are balanced. -/
theorem counter_and_semaphore_balance :
    (∃ fd, Reach step (fun fd op => fd.heeds op = true) (sysEventfd2 5 false false) fd
      ∧ fd.delivered = [12] ∧ fd.count = 0 ∧ fd.Conserved 5)
    ∧ ∃ fd, Reach step (fun fd op => fd.heeds op = true) (sysEventfd2 1 true false) fd
      ∧ fd.delivered = [1] ∧ ∀ v ∈ fd.delivered, v = 1 := by
  constructor
  · obtain ⟨fd, hfd, hc⟩ := exists_reach_guarded step (sysEventfd2 5 false false) heeds
      ([.write 0 8 (.ok 7), .next 0, .next 0, .next 0] ++ readOnce)
      (fun fd => fd.delivered = [12] ∧ fd.count = 0) (by decide +kernel)
    exact ⟨fd, hfd, hc.1, hc.2, (eventfd_conserves 5 false false fd hfd).1⟩
  · obtain ⟨fd, hfd, hc⟩ := exists_reach_guarded step (sysEventfd2 1 true false) heeds
      readOnce (fun fd => fd.delivered = [1]) (by decide +kernel)
    exact ⟨fd, hfd, hc, (eventfd_conserves 1 true false fd hfd).2.2 rfl⟩

/-- **A semaphore of value 3 delivers 3 to its first reader** and keeps 2; and a counter of value
3 whose reader's buffer faults has lost 3. -/
theorem semaphore_read_delivers_three : (∃ fd, Reach step Always (sysEventfd2 3 true false) fd
      ∧ fd.delivered = [3] ∧ fd.count = 2 ∧ ¬ fd.Conserved 3)
    ∧ ∃ fd, Reach step Always (sysEventfd2 3 false false) fd
      ∧ fd.delivered = [] ∧ fd.count = 0 ∧ ¬ fd.Conserved 3 := by
  constructor
  · obtain ⟨fd, hfd, hdelivered, hcount, hwritten, hhand⟩ :=
      exists_reach step (sysEventfd2 3 true false)
      readOnce
      (fun fd => fd.delivered = [3] ∧ fd.count = 2 ∧ fd.written = [] ∧ fd.inHand = 0)
      (by decide +kernel)
    refine ⟨fd, hfd, hdelivered, hcount, ?_⟩
    unfold Conserved
    rw [hdelivered, hcount, hwritten, hhand]
    decide
  · obtain ⟨fd, hfd, hdelivered, hcount, hwritten, hhand⟩ :=
      exists_reach step (sysEventfd2 3 false false)
      [.read 1 8, .next 1, .next 1, .copyOut 1 (.error .badAddress)]
      (fun fd => fd.delivered = [] ∧ fd.count = 0 ∧ fd.written = [] ∧ fd.inHand = 0)
      (by decide +kernel)
    refine ⟨fd, hfd, hdelivered, hcount, ?_⟩
    unfold Conserved
    rw [hdelivered, hcount, hwritten, hhand]
    decide

end EventFd

end StarryOS.File
