/-
  StarryOS.Task.FutexSteps — WHAT A STEP OF A FUTEX CALL CAN DO.

  The system has some twenty-five program points, but only nine kinds of moves
  (`Move`): a thread goes on, gets a guard, marks an owner, pushes its waker,
  wakes, drains, extends, removes a key, or is stirred.  `move_of_step` sorts
  every step into one of them, and every invariant of futexes is then proved by
  cases on the move.  The first one is here: guards and table know under which
  key an entry was made (`WellKeyed`).
-/
import StarryOS.Task.Futex

namespace StarryOS.Task

open Lib Threads

/-! ## §1. Points. -/

namespace FutexPoint

/-- Neither parked nor with waiters in hand. -/
def plain : FutexPoint → Bool
  | .blocked _ _ _ => false
  | .extending _ _ _ _ => false
  | _ => true

/-- The queue to which the thread may still add waiters. -/
def aims : FutexPoint → Option Nat
  | .guarded g _ _ => some g.entry
  | .requeueWake _ g2 _ _ => some g2.entry
  | .draining _ g2 _ _ => some g2.entry
  | .extending _ g2 _ _ => some g2.entry
  | _ => none

end FutexPoint

theorem unpark_unpark (p : FutexPoint) : unpark (unpark p) = unpark p := by
  cases p <;> rfl

theorem unpark_of_plain {p : FutexPoint} (h : p.plain = true) : unpark p = p := by
  cases p with
  | blocked g bitset home => cases h
  | _ => rfl

theorem guards_unpark (p : FutexPoint) : (unpark p).guards = p.guards := by
  cases p <;> rfl

theorem aims_unpark (p : FutexPoint) : (unpark p).aims = p.aims := by
  cases p <;> rfl

variable (source target : Nat)

theorem rehome_rehome (p : FutexPoint) :
    rehome source target (rehome source target p) = rehome source target p := by
  cases p with
  | blocked g bitset home =>
    show FutexPoint.blocked g bitset _ = FutexPoint.blocked g bitset _
    grind
  | _ => rfl

theorem guards_rehome (p : FutexPoint) : (rehome source target p).guards = p.guards := by
  cases p <;> rfl

theorem aims_rehome (p : FutexPoint) : (rehome source target p).aims = p.aims := by
  cases p <;> rfl

namespace FutexTable

/-! ## §2. Queues and keys. -/

/-- The key under which an entry was made. -/
def keyOf (st : FutexTable) (e : Nat) : Option Nat := st.entries[e]?.map (fun entry => entry.key)

/-- What an update of an entry leaves alone. -/
private theorem map_getElem?_modify {β : Type} {f : FutexEntry → FutexEntry} {g : FutexEntry → β}
    (hg : ∀ entry, g (f entry) = g entry) (entries : List FutexEntry) (e e' : Nat) :
    (entries.modify e f)[e']?.map g = entries[e']?.map g := by grind

variable (st : FutexTable) (e e' : Nat)

theorem queue_setQueue (wq : List Waiter) :
    (st.setQueue e wq).queue e' = if e' = e ∧ e < st.entries.length then wq else st.queue e' := by
  unfold queue setQueue
  simp only [List.getElem?_modify]
  cases hentry : st.entries[e']? with
  | none => grind
  | some entry => grind

@[simp] theorem keyOf_setQueue (wq : List Waiter) : (st.setQueue e wq).keyOf e' = st.keyOf e' := by
  apply map_getElem?_modify
  intro entry
  rfl

@[simp] theorem queue_setOwnerDead (b : Bool) : (st.setOwnerDead e b).queue e' = st.queue e' := by
  unfold queue
  congr 1
  apply map_getElem?_modify
  intro entry
  rfl

@[simp] theorem keyOf_setOwnerDead (b : Bool) : (st.setOwnerDead e b).keyOf e' = st.keyOf e' := by
  apply map_getElem?_modify
  intro entry
  rfl

theorem lt_of_keyOf {st : FutexTable} {e key : Nat} (h : st.keyOf e = some key) :
    e < st.entries.length := by
  unfold keyOf at h
  grind

theorem queue_getOrInsert (key e : Nat) : (st.getOrInsert key).1.queue e = st.queue e := by
  unfold getOrInsert
  cases st.table.lookup key with
  | some e' => rfl
  | none =>
    unfold queue
    grind

theorem keyOf_getOrInsert {st : FutexTable} {e k : Nat} (key : Nat) (h : st.keyOf e = some k) :
    (st.getOrInsert key).1.keyOf e = some k := by
  grind [getOrInsert, keyOf]

theorem threads_getOrInsert (key : Nat) : (st.getOrInsert key).1.threads = st.threads := by
  unfold getOrInsert
  cases st.table.lookup key <;> rfl

theorem lookup_getOrInsert (key : Nat) : (st.getOrInsert key).2.key = key
      ∧ (st.getOrInsert key).1.table.lookup key = some (st.getOrInsert key).2.entry
      ∧ ∀ k, k ≠ key → (st.getOrInsert key).1.table.lookup k = st.table.lookup k := by
  unfold getOrInsert
  cases h : st.table.lookup key with
  | some e => exact ⟨rfl, h, fun _ _ => rfl⟩
  | none => grind

/-! ## §3. Moves. -/

/-- Where a thread goes on: it keeps guards it has, or takes one that the table
has, and aims at no new queue. -/
structure GoesOn (st : FutexTable) (p p' : FutexPoint) : Prop where
  before : p.plain = true
  after : p'.plain = true
  guards : ∀ g ∈ p'.guards, g ∈ p.guards ∨ st.table.lookup g.key = some g.entry
  aims : p'.aims = none ∨ p'.aims = p.aims

/-- **The moves of thread `t`**; `early` says that the step may take a parked
thread out of `wait_if`. -/
inductive Move (st : FutexTable) (t : Nat) (early : Prop) : FutexTable → Prop
  | go {p : FutexPoint} (h : GoesOn st (st.threads.pc t) p) : Move st t early (st.goto t p)
  | get {p : FutexPoint} (key : Nat) (hbefore : (st.threads.pc t).plain = true)
      (hafter : p.plain = true)
      (hguards : ∀ g ∈ p.guards, g ∈ (st.threads.pc t).guards ∨ g = (st.getOrInsert key).2)
      (haims : p.aims = some (st.getOrInsert key).2.entry) :
      Move st t early ((st.getOrInsert key).1.goto t p)
  | mark {p : FutexPoint} (e : Nat) (b : Bool) (h : GoesOn st (st.threads.pc t) p) :
      Move st t early ((st.setOwnerDead e b).goto t p)
  | enqueue {p : FutexPoint} (g : FutexGuard) (value bitset : UInt32)
      (hpc : st.threads.pc t = .guarded g value bitset)
      (hp : p = .blocked g bitset g.entry ∨ early ∧ ∃ r, p = .dropping [g] r) :
      Move st t early ((st.setQueue g.entry (st.queue g.entry ++ [(t, bitset)])).goto t p)
  | wake {p : FutexPoint} (e count : Nat) (mask : UInt32) (h : GoesOn st (st.threads.pc t) p) :
      Move st t early ((st.wake e count mask).1.goto t p)
  | drain (g g2 : FutexGuard) (count value2 n : Nat)
      (hpc : st.threads.pc t = .draining g g2 count value2) :
      Move st t early ((st.drain g.entry value2).1.goto t
        (.extending g g2 (st.drain g.entry value2).2 n))
  | extend (g g2 : FutexGuard) (tasks : List Waiter) (count : Nat)
      (hpc : st.threads.pc t = .extending g g2 tasks count) :
      Move st t early ((st.extend g.entry g2.entry tasks).goto t (.dropping [g, g2] (.ok count)))
  | remove (g : FutexGuard) (gs : List FutexGuard) (r : AxResult Nat)
      (hpc : st.threads.pc t = .removing g gs r) :
      Move st t early ({ st with table := st.table.erase g.key }.goto t (.releasing g gs r))
  | stir (g : FutexGuard) (bitset : UInt32) (home : Nat)
      (hpc : st.threads.pc t = .blocked g bitset home) (hearly : early) :
      Move st t early (st.goto t (.runnable g))

/-- The step takes a thread out of `wait_if` while its waker is in a queue: it is
stirred, or pushes its waker with a deadline that has passed. -/
def LeavesEarly (st : FutexTable) : FutexOp → Prop
  | .stir t => ∃ g bitset home, st.threads.pc t = .blocked g bitset home
  | .poll t interrupted word expired => expired = true ∧ interrupted = false
      ∧ ∃ g value bitset, st.threads.pc t = .guarded g value bitset ∧ word.toOption = some value
  | _ => False

section Sorting

variable {st st' : FutexTable} {t : Nat} {early : Prop}

theorem GoesOn.returned {p : FutexPoint} (h : p.plain = true) (r : AxResult Nat) :
    GoesOn st p (.returned r) :=
  ⟨h, rfl, fun _ hg => absurd hg List.not_mem_nil, .inl rfl⟩

/-- From `q` to `p'` with no guard that is new. -/
theorem GoesOn.keeping {p q p' : FutexPoint} (hpc : p = q) (hq : q.plain = true)
    (hp' : p'.plain = true) (hguards : ∀ g ∈ p'.guards, g ∈ q.guards)
    (haims : p'.aims = none ∨ p'.aims = q.aims) : GoesOn st p p' := by
  subst hpc
  exact ⟨hq, hp', fun g hg => .inl (hguards g hg), haims⟩

theorem plain_of_atRest {p : FutexPoint} (h : p.atRest = true) : p.plain = true := by
  cases p with
  | returned r => rfl
  | _ => cases h

/-- A guard that `get` found. -/
theorem lookup_of_get {key : Nat} {g : FutexGuard} (h : st.get key = some g) :
    st.table.lookup g.key = some g.entry := by
  obtain ⟨e, he, rfl⟩ := Option.map_eq_some_iff.mp h
  exact he

theorem move_of_begin {op : FutexOp} (hrest : (st.threads.pc op.thread).atRest = true)
    (hs : st.begin op = some st') : Move st op.thread early st' := by
  have hplain := plain_of_atRest hrest
  have hret : ∀ r, Move st op.thread early (st.goto op.thread (.returned r)) :=
    fun r => .go (.returned hplain r)
  cases op with
  | wait t key value bitset word =>
    cases word with
    | error e =>
      cases hs
      exact hret _
    | ok w =>
      simp only [begin] at hs
      split at hs
      · cases hs
        exact hret _
      · injection hs with hs
        refine hs ▸ .get key hplain rfl ?_ rfl
        intro g hg
        exact .inr (List.mem_singleton.mp hg)
  | wake t key count mask | death t key =>
    simp only [begin] at hs
    generalize hget : st.get key = p at hs
    cases p with
    | none =>
      cases hs
      exact hret _
    | some g =>
      injection hs with hs
      refine hs ▸ .go ⟨hplain, rfl, ?_, .inl rfl⟩
      intro g' hg
      rw [List.mem_singleton.mp hg]
      exact .inr (lookup_of_get hget)
  | requeue t key key2 value value2 same =>
    simp only [begin] at hs
    split at hs
    · cases hs
      exact hret _
    split at hs
    · cases hs
      exact hret _
    split at hs
    · cases hs
      exact hret _
    · injection hs with hs
      refine hs ▸ .go ⟨hplain, rfl, ?_, .inl rfl⟩
      intro g hg
      exact .inr (lookup_of_get (Option.mem_toList.mp hg))
  | poll t interrupted word expired | stir t | advance t => cases hs

theorem move_of_poll {interrupted expired : Bool} {word : AxResult UInt32}
    (hs : st.poll t interrupted word expired (st.threads.pc t) = some st') :
    Move st t (LeavesEarly st (.poll t interrupted word expired)) st' := by
  generalize hpc : st.threads.pc t = p at hs
  cases p with
  | guarded g value bitset =>
    have hdrop : ∀ r, GoesOn st (st.threads.pc t) (.dropping [g] r) := by
      intro r
      exact .keeping hpc rfl rfl (fun _ => id) (.inl rfl)
    simp only [poll] at hs
    split at hs
    · cases hs
      exact .go (hdrop _)
    next hint =>
      split at hs
      · cases hs
        exact .go (hdrop _)
      next hword =>
        split at hs
        next hexp =>
          injection hs with hs
          refine hs ▸ .enqueue g value bitset hpc
            (.inr ⟨⟨hexp, by simpa using hint, g, value, bitset, hpc, ?_⟩, _, rfl⟩)
          simpa using hword
        · cases hs
          exact .enqueue g value bitset hpc (.inl rfl)
  | runnable g =>
    simp only [poll] at hs
    split at hs
    all_goals
      cases hs
      exact .go (.keeping hpc rfl rfl (fun _ => id) (.inl rfl))
  | _ => cases hs

theorem move_of_advance (hs : st.advance t (st.threads.pc t) = some st') : Move st t early st' := by
  generalize hpc : st.threads.pc t = p at hs
  cases p with
  | resumed g =>
    simp only [advance] at hs
    split at hs
    · cases hs
    · cases hs
      exact .mark _ _ (.keeping hpc rfl rfl (fun _ => id) (.inl rfl))
  | dying g =>
    cases hs
    exact .mark _ _ (.keeping hpc rfl rfl (fun _ => id) (.inl rfl))
  | waking g count mask report =>
    cases hs
    exact .wake _ _ _ (.keeping hpc rfl rfl (fun _ => id) (.inl rfl))
  | requeueGet g key2 value value2 =>
    injection hs with hs
    refine hs ▸ .get key2 (by rw [hpc]; rfl) rfl ?_ rfl
    intro g' hg
    rw [hpc]
    rcases List.mem_append.mp hg with hg | hg
    · exact .inl hg
    · exact .inr (List.mem_singleton.mp hg)
  | requeueWake g g2 value value2 =>
    cases g with
    | none =>
      cases hs
      exact .go (.keeping hpc rfl rfl (fun _ => id) (.inl rfl))
    | some g =>
      simp only [advance] at hs
      split at hs
      · cases hs
        exact .wake _ _ _ (.keeping hpc rfl rfl (fun _ => id) (.inr rfl))
      · cases hs
        exact .wake _ _ _ (.keeping hpc rfl rfl (fun _ => id) (.inl rfl))
  | draining g g2 count value2 =>
    cases hs
    exact .drain g g2 count value2 _ hpc
  | extending g g2 tasks count =>
    cases hs
    exact .extend g g2 tasks count hpc
  | dropping gs r =>
    cases gs with
    | nil =>
      injection hs with hs
      refine hs ▸ .go ?_
      rw [hpc]
      exact .returned rfl r
    | cons g gs =>
      simp only [advance] at hs
      split at hs
      all_goals
        cases hs
        exact .go (.keeping hpc rfl rfl (fun _ => id) (.inl rfl))
  | counted g gs r =>
    simp only [advance] at hs
    split at hs
    all_goals
      cases hs
      exact .go (.keeping hpc rfl rfl (fun _ => id) (.inl rfl))
  | removing g gs r =>
    cases hs
    exact .remove g gs r hpc
  | releasing g gs r =>
    cases hs
    exact .go (.keeping hpc rfl rfl (fun _ => List.mem_cons_of_mem g) (.inl rfl))
  | _ => cases hs

/-- **Every step is a move** of the thread that takes it. -/
theorem move_of_step {op : FutexOp} (hs : futexStep st op = some st') :
    Move st op.thread (LeavesEarly st op) st' := by
  have hbegin : ∀ op : FutexOp, (if (st.threads.pc op.thread).atRest then st.begin op else none)
      = some st' → Move st op.thread (LeavesEarly st op) st' := by
    intro op hs
    rw [Option.ite_none_right_eq_some] at hs
    exact move_of_begin hs.1 hs.2
  cases op with
  | poll t interrupted word expired => exact move_of_poll hs
  | advance t => exact move_of_advance hs
  | stir t =>
    simp only [futexStep] at hs
    split at hs
    next g bitset home hpc =>
      cases hs
      exact .stir g bitset home hpc ⟨g, bitset, home, hpc⟩
    · cases hs
  | wait t key value bitset word | wake t key count mask | requeue t key key2 value value2 same
  | death t key => exact hbegin _ hs

end Sorting

/-! ## §4. Guards and table know the keys. -/

/-- Guards and table point to entries that were made under their key. -/
@[grind cases] structure WellKeyed (st : FutexTable) : Prop where
  guards : ∀ t, ∀ g ∈ (st.threads.pc t).guards, st.keyOf g.entry = some g.key
  table : ∀ key e, st.table.lookup key = some e → st.keyOf e = some key

section Keys

variable {st st' : FutexTable} {t : Nat} {p : FutexPoint}

theorem WellKeyed.goto (h : WellKeyed st) (hguards : ∀ g ∈ p.guards, g ∈ (st.threads.pc t).guards
      ∨ st.table.lookup g.key = some g.entry) : WellKeyed (st.goto t p) := by
  refine ⟨?_, h.table⟩
  intro u g hg
  have hg : g ∈ ((st.threads.goto t p).pc u).guards := hg
  rw [pc_goto] at hg
  split at hg
  · rcases hguards g hg with hold | htable
    · exact h.guards t g hold
    · exact h.table g.key g.entry htable
  · exact h.guards u g hg

theorem WellKeyed.congr (h : WellKeyed st) (hkeys : ∀ e, st'.keyOf e = st.keyOf e)
    (htable : ∀ key e, st'.table.lookup key = some e → st.table.lookup key = some e)
    (hguards : ∀ u, (st'.threads.pc u).guards = (st.threads.pc u).guards) : WellKeyed st' := by
  refine ⟨?_, ?_⟩
  · intro u g hg
    rw [hguards] at hg
    rw [hkeys]
    exact h.guards u g hg
  · intro key e he
    rw [hkeys]
    exact h.table key e (htable key e he)

theorem pc_wake (st : FutexTable) (e count : Nat) (mask : UInt32) (u : Nat) :
    (st.wake e count mask).1.threads.pc u
      = if u ∈ (wakeLoop count mask (st.queue e) 0).2.map Prod.fst then unpark (st.threads.pc u)
        else st.threads.pc u :=
  pc_updateAll unpark_unpark _ _ u

theorem pc_extend (st : FutexTable) (source target : Nat) (tasks : List Waiter) (u : Nat) :
    (st.extend source target tasks).threads.pc u
      = if u ∈ tasks.map Prod.fst then rehome source target (st.threads.pc u)
        else st.threads.pc u :=
  pc_updateAll (rehome_rehome source target) _ _ u

section

variable (h : WellKeyed st)
include h

theorem WellKeyed.wake (e count : Nat) (mask : UInt32) : WellKeyed (st.wake e count mask).1 := by
  refine h.congr (fun e' => keyOf_setQueue st e e' _) (fun _ _ => id) ?_
  intro u
  rw [pc_wake]
  split
  · exact guards_unpark _
  · rfl

theorem WellKeyed.extend (source target : Nat) (tasks : List Waiter) :
    WellKeyed (st.extend source target tasks) := by
  refine h.congr (fun e' => keyOf_setQueue st target e' _) (fun _ _ => id) ?_
  intro u
  rw [pc_extend]
  split
  · exact guards_rehome source target _
  · rfl

theorem WellKeyed.getOrInsert (key : Nat) : WellKeyed (st.getOrInsert key).1 := by
  refine ⟨?_, ?_⟩
  · intro u g hg
    rw [threads_getOrInsert] at hg
    exact keyOf_getOrInsert key (h.guards u g hg)
  intro k e he
  obtain ⟨-, hnew, hold⟩ := lookup_getOrInsert st key
  by_cases hk : k = key
  · subst hk
    rw [hnew] at he
    cases he
    grind [FutexTable.getOrInsert, keyOf]
  · rw [hold k hk] at he
    exact keyOf_getOrInsert key (h.table k e he)

theorem WellKeyed.move {early : Prop} (hm : Move st t early st') : WellKeyed st' := by
  cases hm with
  | go hgo => exact h.goto hgo.guards
  | get key hbefore hafter hguards haims =>
    refine (h.getOrInsert key).goto ?_
    intro g hg
    rw [threads_getOrInsert]
    rcases hguards g hg with hold | hnew
    · exact .inl hold
    · obtain ⟨hkey, hlook, -⟩ := lookup_getOrInsert st key
      rw [hnew, hkey]
      exact .inr hlook
  | mark e b hgo =>
    have hmark : WellKeyed (st.setOwnerDead e b) :=
      h.congr (fun e' => keyOf_setOwnerDead st e e' b) (fun _ _ => id) (fun _ => rfl)
    exact hmark.goto hgo.guards
  | enqueue g value bitset hpc hp =>
    have hpush : WellKeyed (st.setQueue g.entry (st.queue g.entry ++ [(t, bitset)])) :=
      h.congr (fun e' => keyOf_setQueue st _ e' _) (fun _ _ => id) (fun _ => rfl)
    refine hpush.goto ?_
    intro g' hg
    have hpc' : (st.setQueue g.entry (st.queue g.entry ++ [(t, bitset)])).threads.pc t
        = .guarded g value bitset := hpc
    rw [hpc']
    rcases hp with rfl | ⟨-, r, rfl⟩
    · exact .inl hg
    · exact .inl hg
  | wake e count mask hgo =>
    refine (h.wake e count mask).goto ?_
    intro g hg
    rw [pc_wake, unpark_of_plain hgo.before, ite_self]
    exact hgo.guards g hg
  | drain g g2 count value2 n hpc =>
    have hdrain : WellKeyed (st.drain g.entry value2).1 :=
      h.congr (fun e' => keyOf_setQueue st _ e' _) (fun _ _ => id) (fun _ => rfl)
    refine hdrain.goto ?_
    intro g' hg
    left
    show g' ∈ (st.threads.pc t).guards
    rw [hpc]
    exact hg
  | extend g g2 tasks count hpc =>
    refine (h.extend _ _ _).goto ?_
    intro g' hg
    left
    rw [pc_extend]
    have hpc' : ∀ source target, (rehome source target (st.threads.pc t)).guards
        = (st.threads.pc t).guards := fun source target => guards_rehome source target _
    split
    · rw [hpc]
      exact hg
    · rw [hpc]
      exact hg
  | remove g gs r hpc =>
    have hremove : WellKeyed { st with table := st.table.erase g.key } := by
      refine h.congr (fun _ => rfl) ?_ (fun _ => rfl)
      simp [Table.lookup_erase]
    refine hremove.goto ?_
    intro g' hg
    left
    show g' ∈ (st.threads.pc t).guards
    rw [hpc]
    exact hg
  | stir g bitset home hpc _ =>
    refine h.goto ?_
    intro g hg
    rw [hpc]
    exact .inl hg

end

theorem newFutexTable_wellKeyed : WellKeyed newFutexTable where
  guards t g hg := absurd hg List.not_mem_nil
  table key e he := absurd he (by simp [newFutexTable])

end Keys

end FutexTable

end StarryOS.Task
