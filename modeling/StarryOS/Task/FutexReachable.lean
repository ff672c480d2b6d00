/-
  StarryOS.Task.FutexReachable — A WAITER CAN BE FOUND under its key.

  `FutexGuard::drop` reads the reference count, then looks whether the queue is
  empty, and then removes its KEY from the table, each under another lock or
  none.  An entry is in use when its queue has waiters or a thread may still add
  some; as long as every removal finds the entry that the table has at that
  moment unused (`RemovesUnused`), an entry in use is the one in the table.
  Between the tests and the removal another thread can get the same entry and
  park in it (`dropped_guard_hides_waiter`).
-/
import StarryOS.Task.FutexSteps
import StarryOS.Lib.Transition

namespace StarryOS.Task

open Lib Threads

theorem exists_guard_of_aims {p : FutexPoint} {e : Nat} (h : p.aims = some e) :
    ∃ g ∈ p.guards, g.entry = e := by
  cases p with
  | guarded g value bitset => exact ⟨g, List.mem_singleton.mpr rfl, Option.some.inj h⟩
  | requeueWake g g2 value value2 =>
    exact ⟨g2, List.mem_append_right _ (List.mem_singleton.mpr rfl), Option.some.inj h⟩
  | draining g g2 count value2 | extending g g2 tasks count =>
    exact ⟨g2, List.mem_cons_of_mem g (List.mem_singleton.mpr rfl), Option.some.inj h⟩
  | _ => cases h

namespace FutexTable

/-! ## §1. Entries in use. -/

/-- The entry has waiters, or a thread may still add some. -/
def InUse (st : FutexTable) (e : Nat) : Prop :=
  st.queue e ≠ [] ∨ ∃ t, (st.threads.pc t).aims = some e

/-- **The invariant**: an entry in use is the one that the table has. -/
def Mapped (st : FutexTable) : Prop :=
  ∀ e key, st.keyOf e = some key → st.InUse e → st.table.lookup key = some e

/-- The key that a dropped guard removes leads to an entry that nobody uses. -/
def RemovesUnused (st : FutexTable) (op : FutexOp) : Prop :=
  ∀ g gs r, st.threads.pc op.thread = .removing g gs r → ∀ e, st.table.lookup g.key = some e →
    st.queue e = [] ∧ ∀ t, (st.threads.pc t).aims ≠ some e

section Uses

variable {st st' : FutexTable} {t : Nat} {p : FutexPoint} {e : Nat}

theorem Mapped.congr (h : Mapped st) (hkeys : ∀ e, st'.keyOf e = st.keyOf e)
    (htable : st'.table = st.table) (huse : ∀ e, st'.InUse e → st.InUse e) : Mapped st' := by
  intro e key hkey hin
  rw [htable]
  rw [hkeys] at hkey
  exact h e key hkey (huse e hin)

theorem InUse.of_goto (haims : p.aims = none ∨ p.aims = (st.threads.pc t).aims)
    (h : (st.goto t p).InUse e) : st.InUse e := by
  rcases h with hqueue | ⟨u, hu⟩
  · exact .inl hqueue
  have hu : ((st.threads.goto t p).pc u).aims = some e := hu
  rw [pc_goto] at hu
  split at hu
  · rcases haims with hnone | hsame
    · rw [hnone] at hu
      cases hu
    · exact .inr ⟨t, hsame ▸ hu⟩
  · exact .inr ⟨u, hu⟩

/-- Queues that only lose waiters, or gain them from a thread that aims there. -/
theorem InUse.of_queue (h : st'.InUse e) (hqueue : st'.queue e ≠ [] → st.InUse e)
    (haims : ∀ u, (st'.threads.pc u).aims = (st.threads.pc u).aims) : st.InUse e := by
  rcases h with hne | ⟨u, hu⟩
  · exact hqueue hne
  · exact .inr ⟨u, haims u ▸ hu⟩

theorem aims_wake (st : FutexTable) (e count : Nat) (mask : UInt32) (u : Nat) :
    ((st.wake e count mask).1.threads.pc u).aims = (st.threads.pc u).aims := by
  rw [pc_wake]
  split
  · exact aims_unpark _
  · rfl

theorem aims_extend (st : FutexTable) (source target : Nat) (tasks : List Waiter) (u : Nat) :
    ((st.extend source target tasks).threads.pc u).aims = (st.threads.pc u).aims := by
  rw [pc_extend]
  split
  · exact aims_rehome source target _
  · rfl

/-- An update of one queue is a use of the other queues, or of that one. -/
theorem InUse.of_setQueue {wq : List Waiter} {e' : Nat} (h : (st.setQueue e' wq).queue e ≠ [])
    (hnew : e = e' → wq ≠ [] → st.InUse e) : st.InUse e := by
  rw [queue_setQueue] at h
  split at h
  next heq => exact hnew heq.1 h
  · exact .inl h

theorem InUse.of_wake {i count : Nat} {mask : UInt32} (h : (st.wake i count mask).1.InUse e) :
    st.InUse e := by
  refine h.of_queue (fun hqueue => InUse.of_setQueue hqueue ?_) (aims_wake st i count mask)
  intro heq hne
  left
  intro hempty
  rw [← heq, hempty] at hne
  exact hne rfl

theorem InUse.of_drain {i count : Nat} (h : (st.drain i count).1.InUse e) : st.InUse e := by
  refine h.of_queue (fun hqueue => InUse.of_setQueue hqueue ?_) (fun _ => rfl)
  intro heq hne
  left
  intro hempty
  rw [← heq, hempty, List.drop_nil] at hne
  exact hne rfl

/-- Waiters come from a thread that aims at their queue. -/
theorem InUse.of_push {i : Nat} {tasks : List Waiter} (haims : (st.threads.pc t).aims = some i)
    (h : (st.setQueue i (st.queue i ++ tasks)).InUse e) : st.InUse e := by
  refine h.of_queue (fun hqueue => InUse.of_setQueue hqueue ?_) (fun _ => rfl)
  intro heq _
  exact .inr ⟨t, heq ▸ haims⟩

theorem InUse.of_extend {source target : Nat} {tasks : List Waiter}
    (haims : (st.threads.pc t).aims = some target)
    (h : (st.extend source target tasks).InUse e) : st.InUse e := by
  refine h.of_queue (fun hqueue => InUse.of_setQueue hqueue ?_) (aims_extend st source target tasks)
  intro heq _
  exact .inr ⟨t, heq ▸ haims⟩

/-- An entry in use exists, unless the key of nothing leads there. -/
theorem WellKeyed.keyOf_of_inUse (hkeys : WellKeyed st) (h : st.InUse e) :
    ∃ key, st.keyOf e = some key := by
  rcases h with hqueue | ⟨t, ht⟩
  · cases hentry : st.entries[e]? with
    | none =>
      unfold queue at hqueue
      rw [hentry] at hqueue
      exact absurd rfl hqueue
    | some entry => exact ⟨entry.key, by unfold keyOf; rw [hentry]; rfl⟩
  · obtain ⟨g, hg, rfl⟩ := exists_guard_of_aims ht
    exact ⟨g.key, hkeys.guards t g hg⟩

/-- `get_or_insert` keeps what the table has. -/
theorem lookup_getOrInsert_of_some {key k : Nat} (h : st.table.lookup k = some e) :
    (st.getOrInsert key).1.table.lookup k = some e := by
  obtain ⟨-, -, hold⟩ := lookup_getOrInsert st key
  by_cases hk : k = key
  · subst hk
    unfold getOrInsert
    rw [h]
    exact h
  · rw [hold k hk]
    exact h

/-- A guard is taken, and its thread may add waiters. -/
theorem Mapped.get (h : Mapped st) (hkeys : WellKeyed st) (key : Nat)
    (haims : p.aims = some (st.getOrInsert key).2.entry) :
    Mapped ((st.getOrInsert key).1.goto t p) := by
  intro e k hk hin
  have hk : (st.getOrInsert key).1.keyOf e = some k := hk
  show (st.getOrInsert key).1.table.lookup k = some e
  -- what was in use before
  have hbefore : st.InUse e → (st.getOrInsert key).1.table.lookup k = some e := by
    intro huse
    obtain ⟨k', hk'⟩ := hkeys.keyOf_of_inUse huse
    have hsame := keyOf_getOrInsert key hk'
    rw [hk] at hsame
    cases hsame
    exact lookup_getOrInsert_of_some (h e k hk' huse)
  rcases hin with hqueue | ⟨u, hu⟩
  · have hqueue : (st.getOrInsert key).1.queue e ≠ [] := hqueue
    rw [queue_getOrInsert] at hqueue
    exact hbefore (.inl hqueue)
  have hu : (((st.getOrInsert key).1.threads.goto t p).pc u).aims = some e := hu
  rw [pc_goto, threads_getOrInsert] at hu
  split at hu
  · -- the new guard: the table has its entry, under its key
    rw [haims] at hu
    cases hu
    obtain ⟨-, hlook, -⟩ := lookup_getOrInsert st key
    have hown := (hkeys.getOrInsert key).table key _ hlook
    rw [hk] at hown
    cases hown
    exact hlook
  · exact hbefore (.inr ⟨u, hu⟩)

theorem Mapped.remove (h : Mapped st) {key : Nat}
    (hunused : ∀ e, st.table.lookup key = some e → ¬ st.InUse e) :
    Mapped { st with table := st.table.erase key } := by
  intro e k hk hin
  have hlook := h e k hk hin
  show (st.table.erase key).lookup k = some e
  rw [Table.lookup_erase]
  split
  next heq =>
    subst heq
    exact absurd hin (hunused e hlook)
  · exact hlook

/-- **Every move keeps entries in use in the table**, if a removal finds its
entry unused. -/
theorem Mapped.move {early : Prop} (h : Mapped st) (hkeys : WellKeyed st)
    (hok : ∀ g gs r, st.threads.pc t = .removing g gs r → ∀ e, st.table.lookup g.key = some e →
      st.queue e = [] ∧ ∀ u, (st.threads.pc u).aims ≠ some e)
    (hm : Move st t early st') : Mapped st' := by
  cases hm with
  | go hgo => exact h.congr (fun _ => rfl) rfl (fun _ huse => huse.of_goto hgo.aims)
  | get key hbefore hafter hguards haims => exact h.get hkeys key haims
  | mark e b hgo =>
    refine h.congr (fun e' => keyOf_setOwnerDead st e e' b) rfl ?_
    intro e' huse
    have huse : (st.setOwnerDead e b).InUse e' := huse.of_goto hgo.aims
    refine huse.of_queue ?_ (fun _ => rfl)
    intro hne
    rw [queue_setOwnerDead] at hne
    exact .inl hne
  | enqueue g value bitset hpc hp =>
    refine h.congr (fun e' => keyOf_setQueue st _ e' _) rfl ?_
    intro e' huse
    have haims : (st.threads.pc t).aims = some g.entry := by
      rw [hpc]
      rfl
    refine InUse.of_push haims (InUse.of_goto (.inl ?_) huse)
    rcases hp with rfl | ⟨-, r, rfl⟩
    · rfl
    · rfl
  | wake e count mask hgo =>
    refine h.congr (fun e' => keyOf_setQueue st _ e' _) rfl ?_
    intro e' huse
    refine InUse.of_wake (InUse.of_goto ?_ huse)
    rw [aims_wake]
    exact hgo.aims
  | drain g g2 count value2 n hpc =>
    refine h.congr (fun e' => keyOf_setQueue st _ e' _) rfl ?_
    intro e' huse
    refine InUse.of_drain (InUse.of_goto (.inr ?_) huse)
    show some g2.entry = (st.threads.pc t).aims
    rw [hpc]
    rfl
  | extend g g2 tasks count hpc =>
    refine h.congr (fun e' => keyOf_setQueue st _ e' _) rfl ?_
    intro e' huse
    have haims : (st.threads.pc t).aims = some g2.entry := by
      rw [hpc]
      rfl
    exact InUse.of_extend haims (InUse.of_goto (.inl rfl) huse)
  | remove g gs r hpc =>
    have hremoved : Mapped { st with table := st.table.erase g.key } := by
      refine h.remove ?_
      intro e hlook huse
      obtain ⟨hempty, haims⟩ := hok g gs r hpc e hlook
      rcases huse with hqueue | ⟨u, hu⟩
      · exact hqueue hempty
      · exact haims u hu
    exact hremoved.congr (fun _ => rfl) rfl (fun _ huse => huse.of_goto (.inl rfl))
  | stir g bitset home hpc _ =>
    exact h.congr (fun _ => rfl) rfl (fun _ huse => huse.of_goto (.inl rfl))

end Uses

/-! ## §2. The system. -/

/-- **Whenever a thread is enqueued in the queue of an entry, the table maps the
entry's key to that entry.** -/
def WaitersReachable (st : FutexTable) : Prop :=
  ∀ (e : Nat) (entry : FutexEntry), st.entries[e]? = some entry → entry.wq ≠ [] →
    st.table.lookup entry.key = some e

theorem Mapped.waitersReachable {st : FutexTable} (h : Mapped st) : WaitersReachable st := by
  intro e entry hentry hne
  have hkey : st.keyOf e = some entry.key := by
    unfold keyOf
    rw [hentry]
    rfl
  have hqueue : st.queue e = entry.wq := by
    unfold queue
    rw [hentry]
    rfl
  exact h e entry.key hkey (.inl (hqueue ▸ hne))

theorem newFutexTable_mapped : Mapped newFutexTable := by
  intro e key hkey
  cases hkey

/-- **WAITERS STAY REACHABLE in every run whose guards remove keys of unused
entries only**, also when threads leave `wait_if` early. -/
theorem futex_waiters_reachable (st : FutexTable)
    (hst : Reach futexStep RemovesUnused newFutexTable st) : WaitersReachable st := by
  have hinv : WellKeyed st ∧ Mapped st := by
    refine hst.invariant (fun st => WellKeyed st ∧ Mapped st)
      ⟨newFutexTable_wellKeyed, newFutexTable_mapped⟩ ?_
    intro s op s' h hok hs
    exact ⟨h.1.move (move_of_step hs), h.2.move h.1 hok (move_of_step hs)⟩
  exact hinv.2.waitersReachable

/-- A guard that is dropped alone removes the key, and the next waiter gets an
entry of its own. -/
theorem next_waiter_gets_new_entry : ∃ st, Reach futexStep RemovesUnused newFutexTable st
      ∧ st.queue 1 = [(2, anyBit)] ∧ st.table.lookup 5 = some 1 ∧ WaitersReachable st := by
  have hguard : ∀ (st : FutexTable) (op : FutexOp), (match st.threads.pc op.thread with
      | .removing g _ _ => (st.table.lookup g.key).all (fun e =>
        st.queue e == [] && !st.threads.any (fun p => p.aims == some e))
      | _ => true) = true → RemovesUnused st op := by
    intro st op hg g gs r hpc e hlook
    simp only [hpc, hlook, Option.all_some, Bool.and_eq_true, beq_iff_eq, Bool.not_eq_true'] at hg
    refine ⟨hg.1, ?_⟩
    intro t
    simpa using eq_false_of_any rfl hg.2 t
  obtain ⟨st, hst, hc⟩ := exists_reach_guarded futexStep newFutexTable _
    [.wait 1 5 0 anyBit (.ok 0), .poll 1 false (.ok 1) false, .advance 1, .advance 1, .advance 1,
      .wait 2 5 0 anyBit (.ok 0), .poll 2 false (.ok 0) false]
    (fun st => st.queue 1 = [(2, anyBit)] ∧ st.table.lookup 5 = some 1) (by decide +kernel) hguard
  exact ⟨st, hst, hc.1, hc.2, futex_waiters_reachable st hst⟩

/-- **A dropped guard hides a waiter.**  Thread 1 has seen a count of 2 and an
empty queue; before it removes the key, thread 2 gets the same entry and parks
there. -/
theorem dropped_guard_hides_waiter :
    ∃ st, Reach futexStep Always newFutexTable st ∧ st.queue 0 = [(2, anyBit)]
      ∧ st.table.lookup 5 = none ∧ ¬ WaitersReachable st := by
  obtain ⟨st, hst, hqueue, hlook, hkey⟩ := exists_reach futexStep newFutexTable
    [.wait 1 5 0 anyBit (.ok 0), .poll 1 false (.ok 1) false, .advance 1, .advance 1,
      .wait 2 5 0 anyBit (.ok 0), .poll 2 false (.ok 0) false, .advance 1]
    (fun st => st.queue 0 = [(2, anyBit)] ∧ st.table.lookup 5 = none
      ∧ st.keyOf 0 = some 5) (by decide +kernel)
  refine ⟨st, hst, hqueue, hlook, ?_⟩
  intro hreach
  obtain ⟨entry, hentry, hkey⟩ := Option.map_eq_some_iff.mp hkey
  have hwq : st.queue 0 = entry.wq := by
    unfold queue
    rw [hentry]
    rfl
  have hfound := hreach 0 entry hentry (by rw [← hwq, hqueue]; simp)
  rw [hkey, hlook] at hfound
  cases hfound

end FutexTable

end StarryOS.Task
