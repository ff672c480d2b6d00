/-
  StarryOS.Task.AlarmList — THE ALARM TASK AND ITS LIST
  (`kernel/src/task/timer.rs`).

  `alarm_task` looks at the earliest entry, polls its task without the lock, and
  then pops what is the earliest entry THEN.  `renew_timer` computes a deadline
  before it takes the lock, so an entry that is earlier than the one being polled
  may come in between; one with the same deadline does not take its place.
-/
import StarryOS.Lib.Transition
import StarryOS.Lib.Threads

namespace StarryOS.Task

open Lib

/-- `Entry`; the number tells entries with equal fields apart. -/
structure AlarmEntry where
  id : Nat
  deadline : Nat
  task : Nat
  deriving DecidableEq

/-- `ALARM_LIST`, with what its users have in hand. -/
structure AlarmState where
  now : Nat
  /-- The root of the heap. -/
  top : Option AlarmEntry
  rest : List AlarmEntry
  nextId : Nat
  /-- The deadline that a thread in `renew_timer` has computed. -/
  deadlines : Threads (Option Nat)
  /-- The entry that `alarm_task` has peeked and polls. -/
  polling : Option AlarmEntry
  /-- What it peeked and what it popped. -/
  removed : List (AlarmEntry × Option AlarmEntry)

inductive AlarmOp where
  | tick (n : Nat)
  /-- `wall_time() + remained_ns`, by a thread or by `poll_timer`. -/
  | deadline (t remained : Nat)
  /-- The lock, `push`, and the end of `renew_timer`. -/
  | push (t : Nat)
  | peek
  /-- `pop`; the place in `rest` of the next root. -/
  | pop (next : Nat)

namespace AlarmState

def initial : AlarmState := ⟨0, none, [], 0, .initial, none, []⟩

variable (st : AlarmState)

/-- `BinaryHeap::push`: a new entry rises to the root if it is earlier, not if it is as early. -/
def push (e : AlarmEntry) : AlarmState :=
  match st.top with
  | none => { st with top := some e }
  | some root =>
    if e.deadline < root.deadline then { st with top := some e, rest := root :: st.rest }
    else { st with rest := e :: st.rest }

/-- `BinaryHeap::pop`: one of the earliest entries that are left is the next root. -/
def pop (next : Nat) : Option AlarmState :=
  if st.rest = [] then some { st with top := none }
  else (st.rest[next]?).bind fun root =>
    if st.rest.all (fun e => root.deadline ≤ e.deadline) then
      some { st with top := some root, rest := st.rest.eraseIdx next }
    else none

def step : AlarmOp → Option AlarmState
  | .tick n => some { st with now := st.now + n }
  | .deadline t remained =>
    if (st.deadlines.pc t).isNone ∧ 0 < remained then
      some { st with deadlines := st.deadlines.goto t (some (st.now + remained)) }
    else none
  | .push t => (st.deadlines.pc t).map fun d =>
    { st.push ⟨st.nextId, d, t⟩ with
      nextId := st.nextId + 1, deadlines := st.deadlines.goto t none }
  | .peek =>
    if st.polling = none ∧ st.top.any (fun e => e.deadline ≤ st.now) then
      some { st with polling := st.top }
    else none
  | .pop next => st.polling.bind fun e =>
    (st.pop next).map fun st' => { st' with polling := none, removed := (e, st.top) :: st.removed }

/-- No entry is pushed that is earlier than the one being polled. -/
def inOrder : AlarmOp → Bool
  | .push t => st.polling.all (fun e => (st.deadlines.pc t).all (fun d => e.deadline ≤ d))
  | _ => true

/-- The entry being polled is the root, and every pop so far took the entry that was peeked. -/
structure Exact : Prop where
  polled : ∀ e, st.polling = some e → st.top = some e
  popped : ∀ e x, (e, x) ∈ st.removed → x = some e

variable {st} {st' : AlarmState}

@[simp] theorem push_polling (e : AlarmEntry) : (st.push e).polling = st.polling := by
  grind [push]

@[simp] theorem push_removed (e : AlarmEntry) : (st.push e).removed = st.removed := by
  grind [push]

/-- An entry that is not earlier leaves the root in its place. -/
theorem push_top {e root : AlarmEntry} (htop : st.top = some root)
    (hle : root.deadline ≤ e.deadline) : (st.push e).top = some root := by
  simp only [push, htop]
  rw [if_neg (Nat.not_lt.mpr hle)]

theorem push_top_of_lt {e root : AlarmEntry} (htop : st.top = some root)
    (hlt : e.deadline < root.deadline) : (st.push e).top = some e := by
  simp only [push, htop]
  rw [if_pos hlt]

theorem Exact.step {op : AlarmOp} (h : st.Exact) (hok : st.inOrder op = true)
    (hs : st.step op = some st') : st'.Exact := by
  cases op with
  | tick n =>
    cases hs
    exact ⟨h.polled, h.popped⟩
  | deadline t remained =>
    obtain ⟨-, rfl⟩ := guard_eq_some hs
    exact ⟨h.polled, h.popped⟩
  | push t =>
    obtain ⟨d, hd, rfl⟩ := Option.map_eq_some_iff.mp hs
    refine ⟨fun e he => ?_, fun e x hx => h.popped e x ?_⟩
    · have he : st.polling = some e := by simpa using he
      simp only [inOrder, he, hd, Option.all_some, decide_eq_true_eq] at hok
      exact push_top (h.polled e he) hok
    · simpa using hx
  | peek =>
    obtain ⟨-, rfl⟩ := guard_eq_some hs
    exact ⟨fun _ => id, h.popped⟩
  | pop next =>
    obtain ⟨e, he, hpop⟩ := Option.bind_eq_some_iff.mp hs
    obtain ⟨st₁, -, rfl⟩ := Option.map_eq_some_iff.mp hpop
    refine ⟨fun _ hn => absurd hn (by simp), fun e' x hx => ?_⟩
    rcases List.mem_cons.mp hx with heq | hx
    · cases heq
      exact h.polled e he
    · exact h.popped e' x hx

/-- **THE ALARM TASK POPS WHAT IT PEEKED** in every run in which nothing earlier is pushed in
between; from any state of such a run a push that is earlier makes the next pop fail. -/
theorem alarm_task_pops_what_it_peeked
    (hreach : Reach step (fun st op => st.inOrder op = true) initial st) :
    (∀ e x, (e, x) ∈ st.removed → x = some e)
      ∧ ∀ t e d next st₁ st₂, st.polling = some e → st.deadlines.pc t = some d → d < e.deadline →
        st.step (.push t) = some st₁ → st₁.step (.pop next) = some st₂ →
        ∃ x, (e, some x) ∈ st₂.removed ∧ x.deadline ≠ e.deadline := by
  have h : st.Exact := hreach.invariant Exact
    ⟨fun _ hn => absurd hn (by simp [initial]), fun _ _ hx => absurd hx List.not_mem_nil⟩
    (fun _ _ _ h => h.step)
  refine ⟨h.popped, fun t e d next st₁ st₂ he hd hlt hpush hpop => ?_⟩
  obtain ⟨d', hd', rfl⟩ := Option.map_eq_some_iff.mp hpush
  cases hd.symm.trans hd'
  obtain ⟨e', he', hpop⟩ := Option.bind_eq_some_iff.mp hpop
  obtain ⟨st₂, -, rfl⟩ := Option.map_eq_some_iff.mp hpop
  have hsame : st.polling = some e' := by simpa using he'
  cases he.symm.trans hsame
  refine ⟨⟨st.nextId, d, t⟩, ?_, Nat.ne_of_lt hlt⟩
  have htop := push_top_of_lt (e := ⟨st.nextId, d, t⟩) (h.polled e he) hlt
  exact List.mem_cons.mpr (.inl (by rw [← htop]))

/-- Two entries with one deadline, the second pushed while the first is polled. -/
theorem equal_deadlines_are_popped_in_order :
    ∃ st, Reach step (fun st op => st.inOrder op = true) initial st
      ∧ st.removed.length = 1 ∧ ∀ e x, (e, x) ∈ st.removed → x = some e := by
  obtain ⟨st, hr, hc⟩ := exists_reach_guarded step initial inOrder
    [.deadline 1 5, .deadline 2 5, .push 1, .tick 5, .peek, .push 2, .pop 0]
    (fun st => st.removed.length = 1) (by decide)
  exact ⟨st, hr, hc, (alarm_task_pops_what_it_peeked hr).1⟩

/-- A deadline is computed first and pushed last. -/
theorem delayed_push_is_popped : ∃ st, Reach step Always initial st
    ∧ ∃ e x, (e, some x) ∈ st.removed ∧ x.deadline ≠ e.deadline := by
  obtain ⟨st, hr, hc⟩ := exists_reach step initial
    [.deadline 1 5, .deadline 2 6, .push 2, .tick 6, .peek, .push 1, .pop 0]
    (fun st => st.removed = [(⟨0, 6, 2⟩, some ⟨1, 5, 1⟩)]) (by decide)
  exact ⟨st, hr, ⟨0, 6, 2⟩, ⟨1, 5, 1⟩, by simp [hc], by decide⟩

end AlarmState

end StarryOS.Task
