/-
  StarryOS.Lib.LockOrder — LOCKS, REQUESTS AND RANKS.

  `Locking` says what every thread holds and which lock it asks for next.  A
  set of threads is DEADLOCKED if each of them asks for a lock that one of the
  set holds.

  The rule of ranks: when every thread asks only for locks that rank above all
  it holds (`Ascending`), nobody asks for a lock of its own, no set of threads
  is deadlocked, and the order in which locks are taken is acyclic.

  The rule of exclusion: a thread that takes only the lock it asks for, and only
  while it is free, leaves every lock with one holder (`Exclusive.move`).
-/
import Mathlib.Algebra.Order.Ring.Nat
import Mathlib.Data.Finset.Max
import Mathlib.Logic.Relation

namespace StarryOS.Lib

variable {T L : Type}

/-- What every thread holds and what it asks for. -/
structure Locking (T L : Type) where
  held : T → List L
  request : T → Option L

/-- No cycle, not even of one lock, in the order in which locks are taken. -/
def AcyclicOrder (taken : L → L → Prop) : Prop := ∀ l, ¬ Relation.TransGen taken l l

theorem acyclicOrder_of_rank {taken : L → L → Prop} (rank : L → Nat)
    (h : ∀ a b, taken a b → rank a < rank b) : AcyclicOrder taken := by
  have hpath : ∀ a b, Relation.TransGen taken a b → rank a < rank b := by
    intro a b hab
    induction hab with
    | single hab => exact h _ _ hab
    | tail _ hbc ih => exact Nat.lt_trans ih (h _ _ hbc)
  intro l hcycle
  exact Nat.lt_irrefl _ (hpath l l hcycle)

namespace Locking

variable (w : Locking T L)

/-- No thread asks for a lock that it holds. -/
def NoSelfRequest : Prop := ∀ t l, w.request t = some l → l ∉ w.held t

/-- No lock is held by two threads. -/
def Exclusive : Prop := ∀ t u l, l ∈ w.held t → l ∈ w.held u → t = u

/-- Each of the threads asks for a lock that one of them holds. -/
def Deadlocked (ts : Finset T) : Prop :=
  ts.Nonempty ∧ ∀ t ∈ ts, ∃ l, w.request t = some l ∧ ∃ u ∈ ts, l ∈ w.held u

/-- Every thread asks above all it holds. -/
def Ascending (rank : L → Nat) : Prop :=
  ∀ t l, w.request t = some l → ∀ m ∈ w.held t, rank m < rank l

variable {w} {rank : L → Nat}

/-- **A thread that takes a free lock** leaves every lock with one holder. -/
theorem Exclusive.move {w w' : Locking T L} (h : w.Exclusive) (t : T) (l : L)
    (hfree : ∀ u, l ∉ w.held u) (hself : ∀ m ∈ w'.held t, m = l ∨ m ∈ w.held t)
    (hother : ∀ u, u ≠ t → w'.held u = w.held u) : w'.Exclusive := by
  -- what `t` holds now, nobody else held
  have hmine : ∀ u m, u ≠ t → m ∈ w'.held t → m ∉ w'.held u := by
    intro u m hu hm hm'
    rw [hother u hu] at hm'
    rcases hself m hm with rfl | hold
    · exact hfree u hm'
    · exact hu (h u t m hm' hold)
  intro u v m hu hv
  by_cases hut : u = t
  · grind
  by_cases hvt : v = t
  · rw [hvt] at hv
    exact absurd hu (hmine u m hut hv)
  · rw [hother u hut] at hu
    rw [hother v hvt] at hv
    exact h u v m hu hv

theorem Ascending.noSelfRequest (h : w.Ascending rank) : w.NoSelfRequest := by
  intro t l hreq hheld
  exact Nat.lt_irrefl _ (h t l hreq l hheld)

/-- **Nobody is deadlocked** while all who wait ask above what they hold: the holder of
the highest lock waited for would have to wait for a higher one. -/
theorem not_deadlocked_of_rank (rank : L → Nat) (h : ∀ t u l, w.request t = some l → l ∈ w.held u →
    ∀ m ∈ w.held t, rank m < rank l) (ts : Finset T) : ¬ w.Deadlocked ts := by
  rintro ⟨hne, hwait⟩
  obtain ⟨t, ht, hmax⟩ := Finset.exists_max_image ts (fun t => ((w.request t).map rank).getD 0) hne
  obtain ⟨l, hl, u, hu, hheld⟩ := hwait t ht
  obtain ⟨l', hl', v, -, hheld'⟩ := hwait u hu
  have hup := h u v l' hl' hheld' l hheld
  grind

theorem Ascending.not_deadlocked (h : w.Ascending rank) : ∀ ts, ¬ w.Deadlocked ts :=
  not_deadlocked_of_rank rank fun t _ l hl _ => h t l hl

theorem deadlocked_pair [DecidableEq T] {t u : T} {l m : L} (ht : w.request t = some l)
    (hu : w.request u = some m) (hlu : l ∈ w.held u) (hmt : m ∈ w.held t) :
    w.Deadlocked {t, u} := by
  refine ⟨⟨t, Finset.mem_insert_self t _⟩, fun v hv => ?_⟩
  rcases Finset.mem_insert.mp hv with rfl | hv
  · exact ⟨l, ht, u, Finset.mem_insert_of_mem (Finset.mem_singleton_self u), hlu⟩
  · rw [Finset.mem_singleton.mp hv]
    exact ⟨m, hu, t, Finset.mem_insert_self t _, hmt⟩

end Locking

end StarryOS.Lib
