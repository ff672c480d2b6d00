/-
  StarryOS.Task.FutexWaiters — ONE QUEUE ENTRY FOR EVERY PARKED THREAD, and what
  `wake` wakes.

  A thread that parks in `wait_if` has pushed its waker.  From then on the
  waker is in the queue where the thread counts as waiting, or in the hands of
  a requeue that has drained that queue; `placed` counts both.  The invariant

      placed e (thread, bitset)  =  1 if the thread is parked there, else 0

  holds until a thread leaves `wait_if` while its waker is queued: nothing ever
  removes the entry of a thread that timed out or was interrupted, and the next
  `wake` spends itself on it.  A `wake` between the two sections of a requeue
  does not find the waiters in hand at all (`wake_misses_a_waiter`).
-/
import StarryOS.Task.FutexSteps
import StarryOS.Lib.Transition

namespace StarryOS.Task

open Lib Threads

/-! ## §1. What `wake` takes out of a queue. -/

/-- The bitset of the waiter intersects the mask. -/
def intersects (mask : UInt32) (w : Waiter) : Bool := w.2 &&& mask != 0

section WakeLoop

variable (count : Nat) (mask : UInt32)

theorem wakeLoop_count : ∀ (q : List Waiter) (woke : Nat) (w : Waiter),
    q.count w = (wakeLoop count mask q woke).1.count w
      + (wakeLoop count mask q woke).2.count w := by
  intro q
  induction q with
  | nil =>
    intro woke w
    rfl
  | cons v rest ih => grind [wakeLoop]

theorem wakeLoop_sublist : ∀ (q : List Waiter) (woke : Nat),
    (wakeLoop count mask q woke).2.Sublist q := by
  intro q
  induction q with
  | nil =>
    intro woke
    exact .slnil
  | cons v rest ih => grind [wakeLoop]

theorem wakeLoop_intersects : ∀ (q : List Waiter) (woke : Nat),
    ∀ w ∈ (wakeLoop count mask q woke).2, intersects mask w = true := by
  intro q
  induction q with
  | nil =>
    intro woke w hw
    cases hw
  | cons v rest ih =>
    intro woke w hw
    unfold wakeLoop at hw
    split at hw
    · exact ih woke w hw
    next hgo =>
      rcases List.mem_cons.mp hw with rfl | hw
      · unfold intersects
        rw [bne_iff_ne]
        exact fun h => hgo (.inr h)
      · exact ih (woke + 1) w hw

/-- It wakes as many as there are, up to `count`. -/
theorem wakeLoop_length : ∀ (q : List Waiter) (woke : Nat),
    (wakeLoop count mask q woke).2.length = min (count - woke) (q.countP (intersects mask)) := by
  intro q
  induction q with
  | nil =>
    intro woke
    rw [List.countP_nil, Nat.min_zero]
    rfl
  | cons v rest ih =>
    intro woke
    unfold wakeLoop
    rw [List.countP_cons]
    split
    next hstay =>
      show (wakeLoop count mask rest woke).2.length = _
      rw [ih]
      rcases hstay with hfull | hmiss
      · omega
      have hno : intersects mask v = false := by
        unfold intersects
        rw [bne_eq_false_iff_eq]
        exact hmiss
      rw [if_neg (by simp [hno]), Nat.add_zero]
    next hgo =>
      have hyes : intersects mask v = true := by
        unfold intersects
        rw [bne_iff_ne]
        exact fun h => hgo (.inr h)
      grind

end WakeLoop

/-! ## §2. Placed and parked. -/

/-- How often a requeue from queue `e` has waiter `w` in hand. -/
def inFlight (e : Nat) (w : Waiter) : FutexPoint → Nat
  | .extending g _ tasks _ => if g.entry = e then tasks.count w else 0
  | _ => 0

/-- Parked in queue `e` with this bitset. -/
def parkedAt (e : Nat) (bitset : UInt32) : FutexPoint → Nat
  | .blocked _ b home => if b = bitset ∧ home = e then 1 else 0
  | _ => 0

variable {p : FutexPoint}

theorem inFlight_of_plain (h : p.plain = true) (e : Nat) (w : Waiter) : inFlight e w p = 0 := by
  cases p with
  | extending g g2 tasks count => cases h
  | _ => rfl

theorem parkedAt_of_plain (h : p.plain = true) (e : Nat) (bitset : UInt32) :
    parkedAt e bitset p = 0 := by
  cases p with
  | blocked g b home => cases h
  | _ => rfl

theorem parkedAt_unpark (e : Nat) (bitset : UInt32) (p : FutexPoint) :
    parkedAt e bitset (unpark p) = 0 := by
  cases p <;> rfl

theorem inFlight_unpark (e : Nat) (w : Waiter) (p : FutexPoint) :
    inFlight e w (unpark p) = inFlight e w p := by
  cases p <;> rfl

theorem inFlight_rehome (source target e : Nat) (w : Waiter) (p : FutexPoint) :
    inFlight e w (rehome source target p) = inFlight e w p := by
  cases p <;> rfl

/-- A thread is parked in one place, with one bitset. -/
theorem eq_blocked_of_parkedAt {e : Nat} {bitset : UInt32} (h : 0 < parkedAt e bitset p) :
    ∃ g, p = .blocked g bitset e := by
  cases p with
  | blocked g b home =>
    have h : 0 < if b = bitset ∧ home = e then 1 else 0 := h
    grind
  | _ => cases h

namespace FutexTable

/-- The entries of waiter `w` that belong to queue `e`. -/
def placed (st : FutexTable) (e : Nat) (w : Waiter) : Nat :=
  (st.queue e).count w + st.threads.total (inFlight e w)

/-- **The invariant**: a waiter is placed where its thread is parked. -/
def Matched (st : FutexTable) : Prop :=
  ∀ e w, st.placed e w = parkedAt e w.2 (st.threads.pc w.1)

section Matching

variable {st st' : FutexTable} {t : Nat} {p : FutexPoint}

theorem queue_setQueue_of_empty {e : Nat} {wq : List Waiter} (h : st.queue e = [] → wq = [])
    (e' : Nat) : (st.setQueue e wq).queue e' = if e' = e then wq else st.queue e' := by
  rw [queue_setQueue]
  by_cases he : e' = e
  · subst he
    by_cases hlt : e' < st.entries.length
    · rw [if_pos ⟨rfl, hlt⟩, if_pos rfl]
    have hempty : st.queue e' = [] := by
      unfold queue
      rw [List.getElem?_eq_none (by omega)]
      rfl
    rw [if_neg (fun h' => hlt h'.2), if_pos rfl, h hempty, hempty]
  · rw [if_neg (fun h' => he h'.1), if_neg he]

theorem count_push {e : Nat} (hlt : e < st.entries.length) (ws : List Waiter) (e' : Nat)
    (w : Waiter) : ((st.setQueue e (st.queue e ++ ws)).queue e').count w
      = (st.queue e').count w + if e' = e then ws.count w else 0 := by
  rw [queue_setQueue]
  grind

theorem count_of_not_mem {ws : List Waiter} {w : Waiter} (h : w.1 ∉ ws.map Prod.fst) :
    ws.count w = 0 := by
  rw [List.count_eq_zero]
  intro hw
  exact h (List.mem_map.mpr ⟨w, hw, rfl⟩)

theorem Matched.congr (h : Matched st) (hqueue : ∀ e, st'.queue e = st.queue e)
    (hthreads : st'.threads = st.threads) : Matched st' := by
  intro e w
  have hold := h e w
  unfold placed at hold ⊢
  rw [hqueue, hthreads]
  exact hold

/-- A thread that is not parked goes on: what it places, in a queue or in its hands, it takes
from there or is parked for. -/
theorem Matched.balance (h : Matched st) (hthreads : st'.threads = st.threads)
    (hbefore : ∀ e bitset, parkedAt e bitset (st.threads.pc t) = 0)
    (hbalance : ∀ e w, (st'.queue e).count w + inFlight e w p
      = (st.queue e).count w + inFlight e w (st.threads.pc t)
        + if w.1 = t then parkedAt e w.2 p else 0) : Matched (st'.goto t p) := by
  intro e w
  have hold := h e w
  have hmove := total_goto (inFlight e w) rfl st.threads t p
  have hnew := hbalance e w
  show (st'.queue e).count w + (st'.threads.goto t p).total (inFlight e w)
    = parkedAt e w.2 ((st'.threads.goto t p).pc w.1)
  rw [hthreads, pc_goto]
  unfold placed at hold
  by_cases ht : w.1 = t
  · rw [if_pos ht] at hnew ⊢
    rw [ht, hbefore] at hold
    omega
  · rw [if_neg ht] at hnew ⊢
    omega

theorem Matched.goto (h : Matched st) (hbefore : (st.threads.pc t).plain = true)
    (hafter : p.plain = true) : Matched (st.goto t p) := by
  refine h.balance rfl (parkedAt_of_plain hbefore) ?_
  intro e w
  rw [inFlight_of_plain hbefore, inFlight_of_plain hafter, parkedAt_of_plain hafter, ite_self]

/-- **`wake`** unparks exactly the threads whose entries it takes. -/
theorem Matched.wake (h : Matched st) (e count : Nat) (mask : UInt32) :
    Matched (st.wake e count mask).1 := by
  intro e' w
  have hloop := wakeLoop_count count mask (st.queue e) 0
  have hqueue : ∀ e', (st.wake e count mask).1.queue e'
      = if e' = e then (wakeLoop count mask (st.queue e) 0).1 else st.queue e' := by
    refine queue_setQueue_of_empty ?_
    intro hempty
    rw [hempty]
    rfl
  have htotal : (st.wake e count mask).1.threads.total (inFlight e' w)
      = st.threads.total (inFlight e' w) :=
    total_updateAll _ rfl (inFlight_unpark e' w) _ _
  have hle : ((st.wake e count mask).1.queue e').count w ≤ (st.queue e').count w := by grind
  have hold := h e' w
  unfold placed at hold ⊢
  rw [pc_wake]
  split
  next hwoken =>
    -- its entry is in the queue, so the thread is parked here
    obtain ⟨v, hv, hvt⟩ := List.mem_map.mp hwoken
    have hcount : 0 < (st.queue e).count v :=
      List.count_pos_iff.mpr ((wakeLoop_sublist count mask (st.queue e) 0).subset hv)
    have hv₀ := h e v
    unfold placed at hv₀
    obtain ⟨g, hpc⟩ := eq_blocked_of_parkedAt (show 0 < parkedAt e v.2 (st.threads.pc v.1) by omega)
    rw [hvt] at hpc
    rw [parkedAt_unpark]
    rw [hpc] at hold
    by_cases hsame : v.2 = w.2 ∧ e = e'
    · -- the one entry is gone
      obtain ⟨hbits, rfl⟩ := hsame
      have hvw : v = w := Prod.ext hvt hbits
      subst hvw
      have hone : parkedAt e v.2 (.blocked g v.2 e) = 1 := if_pos ⟨rfl, rfl⟩
      grind
    · have hzero : parkedAt e' w.2 (.blocked g v.2 e) = 0 := if_neg hsame
      omega
  · -- none of its entries is taken
    grind

variable {g g2 : FutexGuard} {count : Nat} {tasks : List Waiter}

theorem Matched.park (h : Matched st) {value bitset : UInt32}
    (hpc : st.threads.pc t = .guarded g value bitset) (hlt : g.entry < st.entries.length) :
    Matched ((st.setQueue g.entry (st.queue g.entry ++ [(t, bitset)])).goto t
      (.blocked g bitset g.entry)) := by
  refine h.balance rfl (fun _ _ => by rw [hpc]; rfl) ?_
  intro e w
  rw [hpc, count_push hlt, List.count_singleton]
  show _ + 0 = _ + 0 + if w.1 = t then (if bitset = w.2 ∧ g.entry = e then 1 else 0) else 0
  grind

theorem Matched.drain (h : Matched st) {value2 : Nat} (n : Nat)
    (hpc : st.threads.pc t = .draining g g2 count value2) :
    Matched ((st.drain g.entry value2).1.goto t
      (.extending g g2 (st.drain g.entry value2).2 n)) := by
  refine h.balance rfl (fun _ _ => by rw [hpc]; rfl) ?_
  intro e w
  have hqueue : (st.drain g.entry value2).1.queue e = if e = g.entry
      then (st.queue g.entry).drop (min value2 (st.queue g.entry).length) else st.queue e := by
    refine queue_setQueue_of_empty ?_ e
    intro hempty
    rw [hempty, List.drop_nil]
  have hsplit : (st.queue g.entry).count w = (st.drain g.entry value2).2.count w
      + ((st.queue g.entry).drop (min value2 (st.queue g.entry).length)).count w := by
    show _ = ((st.queue g.entry).take _).count w + _
    rw [← List.count_append, List.take_append_drop]
  rw [hpc, hqueue]
  show _ + (if g.entry = e then (st.drain g.entry value2).2.count w else 0)
    = _ + 0 + if w.1 = t then 0 else 0
  grind

/-- The waiters that a requeue has in hand are parked at its source. -/
theorem Matched.blocked_of_mem (h : Matched st)
    (hpc : st.threads.pc t = .extending g g2 tasks count) {v : Waiter} (hv : v ∈ tasks) :
    ∃ g', st.threads.pc v.1 = .blocked g' v.2 g.entry := by
  apply eq_blocked_of_parkedAt
  rw [← h]
  have hle := le_total (inFlight g.entry v) rfl st.threads t
  rw [hpc] at hle
  have hflight : inFlight g.entry v (.extending g g2 tasks count) = tasks.count v := if_pos rfl
  have hpos := List.count_pos_iff.mpr hv
  unfold placed
  omega

/-- A thread whose waiter is in hand has that waiter in hand, once. -/
theorem Matched.count_tasks (h : Matched st) (hpc : st.threads.pc t = .extending g g2 tasks count)
    {v w : Waiter} (hv : v ∈ tasks) (hvt : v.1 = w.1) :
    tasks.count w = if v.2 = w.2 then 1 else 0 := by
  obtain ⟨g', hblocked⟩ := h.blocked_of_mem hpc hv
  rw [hvt] at hblocked
  have hsource := h g.entry w
  have hle := le_total (inFlight g.entry w) rfl st.threads t
  have hflight : inFlight g.entry w (.extending g g2 tasks count) = tasks.count w := if_pos rfl
  have hparked : parkedAt g.entry w.2 (.blocked g' v.2 g.entry)
      = if v.2 = w.2 ∧ g.entry = g.entry then 1 else 0 := rfl
  rw [hpc] at hle
  rw [hblocked, hparked] at hsource
  unfold placed at hsource
  by_cases hbits : v.2 = w.2
  · grind
  · rw [if_neg (fun h' => hbits h'.1)] at hsource
    rw [if_neg hbits]
    omega

theorem total_extend (r : AxResult Nat) (hpc : st.threads.pc t = .extending g g2 tasks count)
    (e : Nat) (w : Waiter) :
    ((st.extend g.entry g2.entry tasks).threads.goto t (.dropping [g, g2] r)).total (inFlight e w)
      + (if g.entry = e then tasks.count w else 0) = st.threads.total (inFlight e w) := by
  -- the thread itself is not parked, so the requeue leaves it where it is
  have hself : (st.extend g.entry g2.entry tasks).threads.pc t = .extending g g2 tasks count := by
    rw [pc_extend, hpc]
    exact ite_self _
  have hgoto := total_goto (inFlight e w) rfl
    (st.extend g.entry g2.entry tasks).threads t (.dropping [g, g2] r)
  have hflight : inFlight e w (.extending g g2 tasks count)
      = if g.entry = e then tasks.count w else 0 := rfl
  have hdrop : inFlight e w (.dropping [g, g2] r) = 0 := rfl
  have htotal : (st.extend g.entry g2.entry tasks).threads.total (inFlight e w)
      = st.threads.total (inFlight e w) :=
    total_updateAll _ rfl (inFlight_rehome g.entry g2.entry e w) _ _
  rw [hself] at hgoto
  omega

/-- The waiters in hand reach the target queue, and count as waiting there. -/
theorem Matched.extend (h : Matched st) (r : AxResult Nat)
    (hpc : st.threads.pc t = .extending g g2 tasks count) (hlt : g2.entry < st.entries.length) :
    Matched ((st.extend g.entry g2.entry tasks).goto t (.dropping [g, g2] r)) := by
  intro e w
  have hold := h e w
  have hmove := total_extend r hpc e w
  have hqueue : ((st.extend g.entry g2.entry tasks).queue e).count w
      = (st.queue e).count w + if e = g2.entry then tasks.count w else 0 := count_push hlt tasks e w
  show ((st.extend g.entry g2.entry tasks).queue e).count w
      + ((st.extend g.entry g2.entry tasks).threads.goto t (.dropping [g, g2] r)).total
        (inFlight e w)
    = parkedAt e w.2
      (((st.extend g.entry g2.entry tasks).threads.goto t (.dropping [g, g2] r)).pc w.1)
  rw [hqueue, pc_goto]
  unfold placed at hold
  by_cases hmem : w.1 ∈ tasks.map Prod.fst
  · -- its thread is parked at the source, and is not the one that requeues
    obtain ⟨v, hv, hvt⟩ := List.mem_map.mp hmem
    obtain ⟨g', hblocked⟩ := h.blocked_of_mem hpc hv
    have hcount := h.count_tasks hpc hv hvt
    rw [hvt] at hblocked
    have ht : w.1 ≠ t := by
      intro ht
      rw [ht, hpc] at hblocked
      cases hblocked
    have hbefore : parkedAt e w.2 (.blocked g' v.2 g.entry)
        = if v.2 = w.2 ∧ g.entry = e then 1 else 0 := rfl
    have hafter : parkedAt e w.2 (rehome g.entry g2.entry (.blocked g' v.2 g.entry))
        = if v.2 = w.2 ∧ g2.entry = e then 1 else 0 := by
      show (if v.2 = w.2 ∧ (if g.entry = g.entry then g2.entry else g.entry) = e then 1 else 0) = _
      rw [if_pos rfl]
    rw [if_neg ht, pc_extend, if_pos hmem, hblocked, hafter]
    rw [hblocked, hbefore] at hold
    rw [hcount] at hmove ⊢
    -- one entry or none, at the source before and at the target after
    by_cases hbits : v.2 = w.2
    · have hparked : (if v.2 = w.2 ∧ g2.entry = e then 1 else 0) = if e = g2.entry then 1 else 0 :=
        if_congr ⟨fun h' => h'.2.symm, fun h' => ⟨hbits, h'.symm⟩⟩ rfl rfl
      grind
    · simp only [hbits, false_and, if_false, ite_self] at hold hmove ⊢
      omega
  · have hnone := count_of_not_mem hmem
    have hparked : parkedAt e w.2 (if w.1 = t then .dropping [g, g2] r
        else (st.extend g.entry g2.entry tasks).threads.pc w.1)
        = parkedAt e w.2 (st.threads.pc w.1) := by
      split
      next ht =>
        rw [ht, hpc]
        rfl
      · rw [pc_extend, if_neg hmem]
    rw [hnone, ite_self] at hmove ⊢
    omega

/-- **Every move keeps waiters and parked threads matched**, unless it takes a
parked thread away. -/
theorem Matched.move {early : Prop} (h : Matched st) (hkeys : WellKeyed st) (hearly : ¬ early)
    (hm : Move st t early st') : Matched st' := by
  cases hm with
  | go hgo => exact h.goto hgo.before hgo.after
  | get key hbefore hafter hguards haims =>
    have hget : Matched (st.getOrInsert key).1 :=
      h.congr (queue_getOrInsert st key) (threads_getOrInsert st key)
    refine hget.goto ?_ hafter
    rw [threads_getOrInsert]
    exact hbefore
  | mark e b hgo =>
    have hmark : Matched (st.setOwnerDead e b) :=
      h.congr (fun e' => queue_setOwnerDead st e e' b) rfl
    exact hmark.goto hgo.before hgo.after
  | enqueue g value bitset hpc hp =>
    rcases hp with rfl | ⟨hleaves, -⟩
    · refine h.park hpc (lt_of_keyOf (hkeys.guards t g ?_))
      rw [hpc]
      exact List.mem_singleton.mpr rfl
    · exact absurd hleaves hearly
  | wake e count mask hgo =>
    refine (h.wake e count mask).goto ?_ hgo.after
    rw [pc_wake, unpark_of_plain hgo.before, ite_self]
    exact hgo.before
  | drain g g2 count value2 n hpc => exact h.drain n hpc
  | extend g g2 tasks count hpc =>
    refine h.extend (.ok count) hpc (lt_of_keyOf (hkeys.guards t g2 ?_))
    rw [hpc]
    exact List.mem_cons_of_mem g (List.mem_singleton.mpr rfl)
  | remove g gs r hpc =>
    have hremove : Matched { st with table := st.table.erase g.key } := h.congr (fun _ => rfl) rfl
    refine hremove.goto ?_ rfl
    show (st.threads.pc t).plain = true
    rw [hpc]
    rfl
  | stir g bitset home hpc hleaves => exact absurd hleaves hearly

end Matching

/-! ## §3. Waiting threads. -/

variable (st : FutexTable)

/-- Parked in queue `e` with a bitset that intersects the mask. -/
def waitsFor (e : Nat) (mask : UInt32) : FutexPoint → Bool
  | .blocked _ bitset home => home == e && intersects mask (0, bitset)
  | _ => false

/-- The threads still blocked in queue `e` whose bitset intersects the mask. -/
def waiting (e : Nat) (mask : UInt32) : List Nat :=
  st.threads.those (waitsFor e mask)

/-- A requeue has drained queue `e` and holds some of its waiters. -/
def movesFrom (e : Nat) : FutexPoint → Bool
  | .extending g _ tasks _ => g.entry == e && !tasks.isEmpty
  | _ => false

/-- The `wake` that the step makes: the queue, how many, and the mask. -/
def wakesAt : FutexOp → Option (Nat × Nat × UInt32)
  | .advance t =>
    match st.threads.pc t with
    | .waking g count mask _ => some (g.entry, count, mask)
    | .requeueWake (some g) _ value _ => some (g.entry, value, anyBit)
    | _ => none
  | _ => none

/-- **The condition on a step**: it takes no thread out of `wait_if` whose waker is
queued, and wakes no queue of which a requeue has waiters in hand. -/
def Undisturbed (op : FutexOp) : Prop :=
  ¬ LeavesEarly st op ∧ ∀ r, st.wakesAt op = some r →
    ∀ t, movesFrom r.1 (st.threads.pc t) = false

/-- **The queue is exact, and so is a wake of it.**  It has one entry for every
thread parked there and no other, and `wake` wakes as many of the threads that
wait for the mask as it is asked to, or all of them. -/
def WakeExact (e count : Nat) (mask : UInt32) : Prop :=
  (∀ task bitset, (task, bitset) ∈ st.queue e ↔ ∃ g, st.threads.pc task = .blocked g bitset e)
    ∧ ((st.queue e).map Prod.fst).Nodup
    ∧ (st.wake e count mask).2 = min count (st.waiting e mask).length
    ∧ ((st.wake e count mask).1.waiting e mask).length + (st.wake e count mask).2
      = (st.waiting e mask).length

section Exactness

variable {st : FutexTable} {e : Nat}

theorem mem_waiting (st : FutexTable) (e : Nat) (mask : UInt32) (t : Nat) :
    t ∈ st.waiting e mask ↔ ∃ g bitset, st.threads.pc t = .blocked g bitset e
      ∧ intersects mask (t, bitset) = true := by
  unfold waiting
  rw [mem_those _ rfl]
  cases st.threads.pc t with
  | blocked g bitset home =>
    simp only [waitsFor, Bool.and_eq_true, beq_iff_eq]
    constructor
    · intro h
      exact ⟨g, bitset, by rw [h.1], h.2⟩
    · rintro ⟨g', bitset', heq, hbits⟩
      injection heq with _ hbitset hhome
      exact ⟨hhome, hbitset ▸ hbits⟩
  | _ => simp [waitsFor]

section

variable (h : Matched st) (hmoves : ∀ t, movesFrom e (st.threads.pc t) = false)
include h hmoves

/-- Nothing is in flight, so the queue itself is matched. -/
theorem Matched.count_queue
    (w : Waiter) : (st.queue e).count w = parkedAt e w.2 (st.threads.pc w.1) := by
  have hflight : st.threads.total (inFlight e w) = 0 := by
    by_contra hne
    obtain ⟨t, ht⟩ := exists_of_total_pos (inFlight e w) (Nat.pos_of_ne_zero hne)
    have hstill := hmoves t
    cases hpc : st.threads.pc t with
    | extending g g2 tasks count =>
      rw [hpc] at ht hstill
      have ht : 0 < if g.entry = e then tasks.count w else 0 := ht
      split at ht
      next heq =>
        have hmem := List.count_pos_iff.mp ht
        simp only [movesFrom, heq, beq_self_eq_true, Bool.true_and, Bool.not_eq_false',
          List.isEmpty_iff] at hstill
        rw [hstill] at hmem
        cases hmem
      · exact absurd ht (by omega)
    | _ =>
      rw [hpc] at ht
      cases ht
  have hold := h e w
  unfold placed at hold
  omega

theorem Matched.mem_queue (task : Nat) (bitset : UInt32) :
    (task, bitset) ∈ st.queue e ↔ ∃ g, st.threads.pc task = .blocked g bitset e := by
  rw [← List.count_pos_iff, h.count_queue hmoves]
  constructor
  · exact eq_blocked_of_parkedAt
  rintro ⟨g, hpc⟩
  show 0 < parkedAt e bitset (st.threads.pc task)
  rw [hpc]
  show 0 < if bitset = bitset ∧ e = e then 1 else 0
  rw [if_pos ⟨rfl, rfl⟩]
  exact Nat.one_pos

theorem Matched.nodup_queue : ((st.queue e).map Prod.fst).Nodup := by
  refine List.Nodup.map_on ?_ ?_
  · -- a thread is parked with one bitset only
    intro v hv w hw heq
    obtain ⟨g, hpc⟩ := (h.mem_queue hmoves v.1 v.2).mp hv
    obtain ⟨g', hpc'⟩ := (h.mem_queue hmoves w.1 w.2).mp hw
    grind
  rw [List.nodup_iff_count_le_one]
  intro w
  rw [h.count_queue hmoves]
  cases st.threads.pc w.1 with
  | blocked g b home =>
    show (if b = w.2 ∧ home = e then 1 else 0) ≤ 1
    split <;> omega
  | _ => exact Nat.zero_le 1

/-- The waiting threads are those of the matching queue entries. -/
theorem Matched.length_waiting (mask : UInt32) :
    (st.waiting e mask).length = (st.queue e).countP (intersects mask) := by
  have hperm : (st.waiting e mask).Perm (((st.queue e).filter (intersects mask)).map Prod.fst) := by
    refine (List.perm_ext_iff_of_nodup (nodup_those _ _)
      ((List.filter_sublist.map Prod.fst).nodup (h.nodup_queue hmoves))).mpr ?_
    intro t
    have hthose : t ∈ st.threads.those (waitsFor e mask) ↔ t ∈ st.waiting e mask := Iff.rfl
    rw [hthose, mem_waiting, List.mem_map]
    constructor
    · rintro ⟨g, bitset, hpc, hbits⟩
      exact ⟨(t, bitset), List.mem_filter.mpr ⟨(h.mem_queue hmoves t bitset).mpr ⟨g, hpc⟩, hbits⟩,
        rfl⟩
    · rintro ⟨w, hw, rfl⟩
      obtain ⟨hmem, hbits⟩ := List.mem_filter.mp hw
      obtain ⟨g, hpc⟩ := (h.mem_queue hmoves w.1 w.2).mp hmem
      exact ⟨g, w.2, hpc, hbits⟩
  rw [hperm.length_eq, List.length_map, List.countP_eq_length_filter]

/-- The threads that `wake` wakes no longer wait; the others still do. -/
theorem Matched.waiting_wake (count : Nat) (mask : UInt32) :
    ((st.wake e count mask).1.waiting e mask).length + (st.wake e count mask).2
      = (st.waiting e mask).length := by
  have hsub := wakeLoop_sublist count mask (st.queue e) 0
  have hwoken : ∀ t, t ∈ (wakeLoop count mask (st.queue e) 0).2.map Prod.fst →
      t ∈ st.waiting e mask := by
    intro t ht
    obtain ⟨w, hw, rfl⟩ := List.mem_map.mp ht
    obtain ⟨g, hpc⟩ := (h.mem_queue hmoves w.1 w.2).mp (hsub.subset hw)
    exact (mem_waiting st e mask w.1).mpr
      ⟨g, w.2, hpc, wakeLoop_intersects count mask (st.queue e) 0 w hw⟩
  have hafter : ∀ t, t ∈ (st.wake e count mask).1.waiting e mask ↔ t ∈ st.waiting e mask
      ∧ t ∉ (wakeLoop count mask (st.queue e) 0).2.map Prod.fst := by
    intro t
    rw [mem_waiting, mem_waiting, pc_wake]
    split
    next hmem =>
      constructor
      · rintro ⟨g, bitset, hpc, -⟩
        exact absurd hpc (by cases st.threads.pc t <;> simp [unpark])
      · intro hb
        exact absurd hmem hb.2
    next hmem => exact ⟨fun hb => ⟨hb, hmem⟩, fun hb => hb.1⟩
  have hperm : (st.waiting e mask).Perm ((st.wake e count mask).1.waiting e mask
      ++ (wakeLoop count mask (st.queue e) 0).2.map Prod.fst) := by
    refine (List.perm_ext_iff_of_nodup (nodup_those _ _) ?_).mpr ?_
    · refine List.nodup_append.mpr ⟨nodup_those _ _,
        (hsub.map Prod.fst).nodup (h.nodup_queue hmoves), ?_⟩
      intro t ht u hu heq
      exact ((hafter t).mp ht).2 (heq ▸ hu)
    · intro t
      have hthose : t ∈ st.threads.those (waitsFor e mask) ↔ t ∈ st.waiting e mask := Iff.rfl
      grind
  rw [hperm.length_eq, List.length_append, List.length_map]
  rfl

theorem Matched.wakeExact (count : Nat) (mask : UInt32) : WakeExact st e count mask := by
  refine ⟨h.mem_queue hmoves, h.nodup_queue hmoves, ?_, h.waiting_wake hmoves count mask⟩
  show (wakeLoop count mask (st.queue e) 0).2.length = _
  rw [wakeLoop_length, h.length_waiting hmoves, Nat.sub_zero]

end

end Exactness

/-! ## §4. The system. -/

theorem newFutexTable_matched : Matched newFutexTable := by
  intro e w
  rfl

/-- **WAKE-UPS REACH LIVE WAITERS in every undisturbed run.**  In every state, every
parked thread has one entry, in its queue or in the hands of a requeue from
there, and no other thread has one; and every `wake` of the run is exact. -/
theorem futex_wake_exact (st : FutexTable) (hst : Reach futexStep Undisturbed newFutexTable st) :
    Matched st ∧ ∀ op e count mask, Undisturbed st op →
      st.wakesAt op = some (e, count, mask) → WakeExact st e count mask := by
  have hinv : WellKeyed st ∧ Matched st := by
    refine hst.invariant (fun st => WellKeyed st ∧ Matched st)
      ⟨newFutexTable_wellKeyed, newFutexTable_matched⟩ ?_
    intro s op s' h hok hs
    exact ⟨h.1.move (move_of_step hs), h.2.move h.1 hok.1 (move_of_step hs)⟩
  refine ⟨hinv.2, ?_⟩
  intro op e count mask hok hwakes
  exact hinv.2.wakeExact (hok.2 _ hwakes) count mask

/-- No thread is stirred or late, and no requeue is on its way where one wakes. -/
def calm (st : FutexTable) (op : FutexOp) : Bool :=
  (match op with
    | .stir _ => false
    | .poll _ _ _ expired => !expired
    | _ => true) && (st.wakesAt op).all (fun r => !st.threads.any (movesFrom r.1))

theorem undisturbed_of_calm (st : FutexTable) (op : FutexOp) (h : st.calm op = true) :
    Undisturbed st op := by
  obtain ⟨hg, hwakes⟩ := Bool.and_eq_true_iff.mp h
  refine ⟨?_, ?_⟩
  · intro hearly
    cases op with
    | stir t => cases hg
    | poll t interrupted word expired =>
      rw [hearly.1] at hg
      cases hg
    | _ => exact hearly
  · intro r hr t
    rw [hr, Option.all_some, Bool.not_eq_true'] at hwakes
    exact eq_false_of_any rfl hwakes t

/-- Two threads wait, one is requeued, and a wake of one is about to find the other. -/
theorem wake_finds_the_second_waiter : ∃ st, Reach futexStep Undisturbed newFutexTable st
      ∧ st.queue 0 = [(2, anyBit)] ∧ st.queue 1 = [(1, anyBit)] ∧ WakeExact st 0 1 anyBit := by
  obtain ⟨st, hst, hzero, hone, hcalm, hwakes⟩ :=
    exists_reach_guarded futexStep newFutexTable _
      [.wait 1 5 0 anyBit (.ok 0), .poll 1 false (.ok 0) false, .wait 2 5 0 anyBit (.ok 0),
        .poll 2 false (.ok 0) false, .requeue 3 5 6 0 1 true, .advance 3, .advance 3, .advance 3,
        .advance 3, .wake 4 5 1 anyBit]
      (fun st => st.queue 0 = [(2, anyBit)] ∧ st.queue 1 = [(1, anyBit)]
        ∧ st.calm (.advance 4) = true ∧ st.wakesAt (.advance 4) = some (0, 1, anyBit))
      (by decide +kernel) undisturbed_of_calm
  exact ⟨st, hst, hzero, hone, (futex_wake_exact st hst).2 (.advance 4) 0 1 anyBit
    (undisturbed_of_calm st _ hcalm) hwakes⟩

/-- **A wake-up misses the one thread that waits.**  Thread 1 has timed out and
returned, and its entry is still queued: a wake of one goes to it, and thread 2
sleeps on.  Or a requeue has thread 1 in hand: a wake of one wakes nobody. -/
theorem wake_misses_a_waiter : (∃ st, Reach futexStep Always newFutexTable st
      ∧ st.wakesAt (.advance 3) = some (0, 1, anyBit) ∧ st.waiting 0 anyBit = [2]
      ∧ (st.wake 0 1 anyBit).2 = 1 ∧ (st.wake 0 1 anyBit).1.waiting 0 anyBit = [2])
    ∧ ∃ st, Reach futexStep Always newFutexTable st
      ∧ st.wakesAt (.advance 3) = some (0, 1, anyBit) ∧ st.waiting 0 anyBit = [1]
      ∧ (st.wake 0 1 anyBit).2 = 0 := by
  refine ⟨?_, ?_⟩
  · exact exists_reach futexStep newFutexTable
      [.wait 1 5 0 anyBit (.ok 0), .poll 1 false (.ok 0) false, .stir 1,
        .poll 1 false (.ok 0) false, .advance 1, .advance 1, .advance 1, .advance 1, .advance 1,
        .wait 2 5 0 anyBit (.ok 0), .poll 2 false (.ok 0) false, .wake 3 5 1 anyBit]
      _ (by decide +kernel)
  · exact exists_reach futexStep newFutexTable
      [.wait 1 5 0 anyBit (.ok 0), .poll 1 false (.ok 0) false, .requeue 2 5 6 0 1 true,
        .advance 2, .advance 2, .advance 2, .wake 3 5 1 anyBit] _ (by decide +kernel)

end FutexTable

end StarryOS.Task
