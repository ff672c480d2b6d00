/-
  StarryOS.Lib.Threads — THREADS AT PROGRAM POINTS.

  A concurrent program is a state shared by threads, each at a program point of
  type `P`; a thread that nobody has seen yet rests at `default`.  One thread
  moves at a time (`goto`).

  Threads CARRY things between two accesses to the shared state: an item taken
  from one queue and not yet put into another, a reference, a lock.  `total f`
  adds up what all threads carry when a program point `p` carries `f p`, and
  `total_goto` says how a move changes it; invariants of the form "what is in
  the queue plus what is carried" follow from that one lemma.
-/
import StarryOS.Lib.Table

namespace StarryOS.Lib

/-- The program points of all threads. -/
structure Threads (P : Type) where
  points : Table Nat P

namespace Threads

variable {P : Type}

/-- Nobody has moved yet. -/
def initial : Threads P := ⟨.empty⟩

/-- Where thread `t` is. -/
def pc [Inhabited P] (ts : Threads P) (t : Nat) : P := (ts.points.lookup t).getD default

/-- Thread `t` moves to `p`. -/
def goto (ts : Threads P) (t : Nat) (p : P) : Threads P := ⟨ts.points.insert t p⟩

/-- What happens to thread `t` is done to every thread of a list. -/
def updateAll [Inhabited P] (f : P → P) (ts : Threads P) : List Nat → Threads P
  | [] => ts
  | t :: rest => updateAll f (ts.goto t (f (ts.pc t))) rest

/-- The threads that have moved and are at a point with property `f`. -/
def those (f : P → Bool) (ts : Threads P) : List Nat :=
  (ts.points.entries.filter (fun e => f e.2)).map Prod.fst

/-- Whether some thread that has moved is at a point with property `f`. -/
def any (ts : Threads P) (f : P → Bool) : Bool := ts.points.entries.any (fun e => f e.2)

/-- What all threads carry together. -/
def total (f : P → Nat) (ts : Threads P) : Nat := (ts.points.entries.map (fun e => f e.2)).sum

variable [Inhabited P]

@[simp, grind =] theorem pc_initial (t : Nat) : (initial : Threads P).pc t = default := rfl

@[simp, grind =] theorem pc_goto (ts : Threads P) (t u : Nat) (p : P) :
    (ts.goto t p).pc u = if u = t then p else ts.pc u := by
  unfold pc goto
  grind

/-- `any` asks every thread, also those that rest. -/
theorem any_eq_true_iff (ts : Threads P) (f : P → Bool) (hf : f default = false) :
    ts.any f = true ↔ ∃ t, f (ts.pc t) = true := by
  unfold any
  rw [List.any_eq_true]
  constructor
  · rintro ⟨e, he, hp⟩
    refine ⟨e.1, ?_⟩
    unfold pc
    rw [(ts.points.lookup_eq_some_iff e.1 e.2).mpr he]
    exact hp
  rintro ⟨t, ht⟩
  unfold pc at ht
  generalize hl : ts.points.lookup t = q at ht
  cases q with
  | none => exact absurd ht (by simp [hf])
  | some p => exact ⟨(t, p), (ts.points.lookup_eq_some_iff t p).mp hl, ht⟩

theorem eq_false_of_any {ts : Threads P} {f : P → Bool} (hf : f default = false)
    (h : ts.any f = false) (t : Nat) : f (ts.pc t) = false := by
  by_contra hyes
  rw [Bool.not_eq_false] at hyes
  have hany := (any_eq_true_iff ts f hf).mpr ⟨t, hyes⟩
  rw [h] at hany
  cases hany

omit [Inhabited P] in
theorem nodup_those (f : P → Bool) (ts : Threads P) : (ts.those f).Nodup :=
  (List.filter_sublist.map _).nodup ts.points.nodup

theorem mem_those (f : P → Bool) (hf : f default = false) (ts : Threads P) (t : Nat) :
    t ∈ ts.those f ↔ f (ts.pc t) = true := by
  unfold those pc
  rw [List.mem_map]
  constructor
  · rintro ⟨e, he, rfl⟩
    rw [List.mem_filter] at he
    rw [(ts.points.lookup_eq_some_iff e.1 e.2).mpr he.1]
    exact he.2
  · intro h
    generalize hl : ts.points.lookup t = q at h
    cases q with
    | none => exact absurd h (by simp [hf])
    | some p =>
      exact ⟨(t, p), List.mem_filter.mpr ⟨(ts.points.lookup_eq_some_iff t p).mp hl, h⟩, rfl⟩

/-- Doing it twice is doing it once, so only membership in the list counts. -/
theorem pc_updateAll {f : P → P} (hf : ∀ p, f (f p) = f p) : ∀ (l : List Nat) (ts : Threads P)
    (u : Nat), (ts.updateAll f l).pc u = if u ∈ l then f (ts.pc u) else ts.pc u := by
  intro l
  induction l with
  | nil =>
    intro ts u
    rfl
  | cons t rest ih =>
    intro ts u
    show (updateAll f (ts.goto t (f (ts.pc t))) rest).pc u = _
    grind

section Total

variable (f : P → Nat)

omit [Inhabited P] in
/-- Taking one entry out of a list with distinct keys. -/
private theorem sum_filter_add : ∀ (es : List (Nat × P)) (t : Nat) (p : P),
    (es.map Prod.fst).Nodup → (t, p) ∈ es →
    ((es.filter (fun e => e.1 ≠ t)).map (fun e => f e.2)).sum + f p
      = (es.map (fun e => f e.2)).sum := by
  intro es
  induction es with
  | nil =>
    intro t p _ hmem
    cases hmem
  | cons e es ih =>
    intro t p hnd hmem
    rw [List.map_cons, List.nodup_cons] at hnd
    obtain ⟨hnew, hnd⟩ := hnd
    rcases List.mem_cons.mp hmem with heq | hmem
    · subst heq
      -- no other entry has this key, so the filter takes only the head
      have hrest : es.filter (fun e => e.1 ≠ t) = es := by
        rw [List.filter_eq_self]
        grind
      grind
    · grind

/-- **A move exchanges what the thread carries.** -/
theorem total_goto (hf : f default = 0) (ts : Threads P) (t : Nat) (p : P) :
    total f (ts.goto t p) + f (ts.pc t) = total f ts + f p := by
  have hinsert : total f (ts.goto t p)
      = f p + ((ts.points.erase t).entries.map (fun e => f e.2)).sum := rfl
  unfold pc
  cases hl : ts.points.lookup t with
  | none =>
    have herase : (ts.points.erase t).entries = ts.points.entries := Table.erase_of_lookup_none hl
    rw [hinsert, herase]
    show f p + total f ts + f default = _
    omega
  | some q =>
    have hmem := (ts.points.lookup_eq_some_iff t q).mp hl
    have hsum := sum_filter_add f ts.points.entries t q ts.points.nodup hmem
    have herase : ((ts.points.erase t).entries.map (fun e => f e.2)).sum + f q = total f ts := hsum
    show _ + f q = _
    omega

theorem total_updateAll (hf : f default = 0) {g : P → P} (hg : ∀ p, f (g p) = f p) :
    ∀ (l : List Nat) (ts : Threads P), total f (ts.updateAll g l) = total f ts := by
  intro l
  induction l with
  | nil =>
    intro ts
    rfl
  | cons t rest ih =>
    intro ts
    show total f (updateAll g (ts.goto t (g (ts.pc t))) rest) = _
    have hmove := total_goto f hf ts t (g (ts.pc t))
    rw [hg] at hmove
    rw [ih]
    omega

theorem le_total (hf : f default = 0) (ts : Threads P) (t : Nat) : f (ts.pc t) ≤ total f ts := by
  have hmove := total_goto f hf ts t default
  omega

theorem exists_of_total_pos {ts : Threads P} (h : 0 < total f ts) : ∃ t, 0 < f (ts.pc t) := by
  obtain ⟨n, hn, hpos⟩ := List.sum_pos_iff_exists_pos_nat.mp h
  obtain ⟨e, he, rfl⟩ := List.mem_map.mp hn
  refine ⟨e.1, ?_⟩
  unfold pc
  rw [(ts.points.lookup_eq_some_iff e.1 e.2).mpr he]
  exact hpos

end Total

end Threads

end StarryOS.Lib
