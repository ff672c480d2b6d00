/-
  StarryOS.File.PipeWrite — WHAT A PIPE WRITE RETURNS (`Pipe::write` of
  `kernel/src/file/pipe.rs` in `poll_io` and `interruptible` of
  `modules/axtask/src/future`).

  `total_written` lives in the closure.  The closure is tried again after every
  partial transfer, and four things end the call WITHOUT looking at it:

      the read end is closed                     BrokenPipe
      the source faults                          its error
      the thread is interrupted                  Interrupted
      the call is non-blocking, and the flag     WouldBlock
      was cleared after the call began

  Unless one of them meets a write that has put bytes into the pipe, the result
  is what was put there (`failing_write_has_written_nothing`).
-/
import StarryOS.File.Pipe
import StarryOS.Lib.Ledger

namespace StarryOS.File

open Lib StarryOS.Task IoPoint Threads

namespace PipeState

/-! ## §1. Bytes and the calls they belong to. -/

/-- How many bytes a call has put into the pipe. -/
def putBy (st : PipeState) (id : Nat) : Nat := st.accepted.countP (fun e => e.1 = id)

/-- What a write that has put `n` bytes into the pipe may return: their number, or an error if
there are none. -/
def Returns (n : Nat) : AxResult Nat → Prop
  | .ok m => n = m
  | .error _ => n = 0

/-- Every write that has returned did so. -/
def Honest (st : PipeState) : Prop := ∀ e ∈ st.finished, Returns (st.putBy e.1) e.2

/-- Nothing breaks off a write that has put bytes into the pipe. -/
def unbroken (st : PipeState) : PipeOp → Bool
  | .next t =>
    match (st.threads.pc t).call? with
    | some call =>
      match call.io, call.pos? with
      | .write _ _ total, some .check => total = 0 || !st.closed call.io
      | .write _ size total, some .flag => !call.nonBlocking || st.writeNonBlocking || total = size
      | _, _ => true
    | none => true
  | .interrupted t =>
    match (st.threads.pc t).call? with
    | some ⟨.write _ _ total, _, _, _⟩ => total = 0
    | _ => true
  | .copyIn t left right =>
    match (st.threads.pc t).call? with
    | some ⟨.write _ _ total, _, _, _⟩ => total = 0 || left.isOk && right.isOk
    | _ => true
  | _ => true

/-- Bytes that are in the ring and not yet in `total_written`. -/
def moved : Option PipePos → Nat
  | some (.wake n) => n
  | _ => 0

/-- The write that a thread is in, and what it has put into the pipe. -/
def transferred (p : PipePoint) : Option (Nat × Nat) :=
  match p.call? with
  | some call =>
    match call.io with
    | .write id _ total => some (id, total + moved call.pos?)
    | .read => none
  | none => none

/-- A non-blocking write makes one attempt, and counts only at its end. -/
def Polite (p : PipePoint) : Prop :=
  ∀ call id size total, p = .inside call → call.io = .write id size total →
    call.nonBlocking = true →
    (call.phase = .polling ∧ total = 0) ∨ ∃ pos, call.phase = .first pos ∧ (total = 0 ∨ pos = .flag)

theorem transferred_wake (p : PipePoint) : transferred p.wake = transferred p := by
  cases p with
  | returned result => rfl
  | inside call =>
    obtain ⟨io, nonBlocking, woke, phase⟩ := call
    cases phase <;> rfl

theorem Polite.wake {p : PipePoint} (h : Polite p) : Polite p.wake := by
  cases p with
  | returned result =>
    intro call id size total hcall
    cases hcall
  | inside c =>
    obtain ⟨io, nonBlocking, woke, phase⟩ := c
    intro call id size total hcall hio hnb
    have hold := h ⟨io, nonBlocking, woke, phase⟩ id size total rfl
    cases hcall
    grind

theorem transferred_atRest {p : PipePoint} (h : p.atRest = true) : transferred p = none := by
  cases p with
  | returned result => rfl
  | inside call => cases h

theorem polite_returned (result : AxResult Nat) : Polite (.returned result) := by
  intro call id size total hcall
  cases hcall

theorem polite_blocking {call : PipeCall} (h : call.nonBlocking = false) :
    Polite (.inside call) := by
  intro call' id size total hcall _ hnb
  cases hcall
  rw [h] at hnb
  cases hnb

theorem polite_read {call : PipeCall} (h : call.io = .read) : Polite (.inside call) := by
  intro call' id size total hcall hio
  cases hcall
  rw [h] at hio
  cases hio

/-! ## §2. What a step does to the calls. -/

/-- **The tally of a step**: no call ends or grows, one ends, one grows, one begins, or one is
refused at once. -/
inductive Tally (st st' : PipeState) : Prop
  | same (hids : st'.nextId = st.nextId) (haccepted : st'.accepted = st.accepted)
      (hfinished : st'.finished = st.finished)
      (hthreads : ∀ u, transferred (st'.threads.pc u) = transferred (st.threads.pc u))
  | ended (t id n : Nat) (result : AxResult Nat)
      (hpc : transferred (st.threads.pc t) = some (id, n))
      (hresult : Returns n result)
      (hids : st'.nextId = st.nextId) (haccepted : st'.accepted = st.accepted)
      (hfinished : st'.finished = (id, result) :: st.finished)
      (hthreads : ∀ u, transferred (st'.threads.pc u)
        = if u = t then none else transferred (st.threads.pc u))
  | grew (t id n : Nat) (bytes : Bytes)
      (hpc : transferred (st.threads.pc t) = some (id, n)) (hids : st'.nextId = st.nextId)
      (haccepted : st'.accepted = st.accepted ++ bytes.map (fun b => (id, b)))
      (hfinished : st'.finished = st.finished)
      (hthreads : ∀ u, transferred (st'.threads.pc u)
        = if u = t then some (id, n + bytes.length) else transferred (st.threads.pc u))
  | began (t : Nat) (hids : st'.nextId = st.nextId + 1) (haccepted : st'.accepted = st.accepted)
      (hfinished : st'.finished = st.finished)
      (hthreads : ∀ u, transferred (st'.threads.pc u)
        = if u = t then some (st.nextId, 0) else transferred (st.threads.pc u))
  | refused (result : AxResult Nat) (hresult : Returns 0 result)
      (hids : st'.nextId = st.nextId + 1) (haccepted : st'.accepted = st.accepted)
      (hfinished : st'.finished = (st.nextId, result) :: st.finished)
      (hthreads : ∀ u, transferred (st'.threads.pc u) = transferred (st.threads.pc u))

section Steps

variable {st st' : PipeState} {t : Nat} {p : PipePoint} {l : List Nat}

theorem transferred_moved (ht : st'.threads = (st.threads.updateAll wake l).goto t p)
    (u : Nat) : transferred (st'.threads.pc u)
      = if u = t then transferred p else transferred (st.threads.pc u) := by
  rw [ht]
  exact wake_goto transferred_wake st.threads l t p u

theorem polite_moved (h : ∀ u, Polite (st.threads.pc u))
    (ht : st'.threads = (st.threads.updateAll wake l).goto t p) (hp : Polite p) (u : Nat) :
    Polite (st'.threads.pc u) := by
  rw [ht]
  exact forall_wake_goto (fun _ h => h.wake) h l t hp u

/-- The calls are as they were. -/
structure SameCalls (st st' : PipeState) : Prop where
  ids : st'.nextId = st.nextId
  accepted : st'.accepted = st.accepted
  finished : st'.finished = st.finished

theorem sameCalls_read (p : PipePoint) : SameCalls st (st.settle t .read p) :=
  ⟨st.settle_nextId t _ p, st.settle_accepted t _ p, st.settle_finished_read t p⟩

/-- The call of the thread goes on with what it has put. -/
theorem Tally.stay (ht : st'.threads = (st.threads.updateAll wake l).goto t p)
    (hp : transferred p = transferred (st.threads.pc t)) (hsame : SameCalls st st') :
    Tally st st' := by
  refine .same hsame.ids hsame.accepted hsame.finished (fun u => ?_)
  rw [transferred_moved ht]
  split
  next heq => rw [heq, hp]
  · rfl

/-- What a step needs to show: its tally, and that the threads stay polite. -/
def Fair (st st' : PipeState) : Prop := Tally st st' ∧ ∀ u, Polite (st'.threads.pc u)

variable {call : PipeCall} {id size total : Nat} {pos : PipePos}

theorem transferred_read (h : call.io = .read) : transferred (.inside call) = none := by
  simp only [transferred, call?, h]

theorem transferred_write (h : call.io = .write id size total) :
    transferred (.inside call) = some (id, total + moved call.pos?) := by
  simp only [transferred, call?, h]

theorem finish_read (h : call.io = .read) (result : AxResult Nat) :
    (∃ r, call.finish result = .returned r)
      ∨ ∃ call', call.finish result = .inside call' ∧ call'.io = .read := by
  rcases call.finish_cases result with hret | ⟨-, -, heq⟩ | heq
  · exact .inl hret
  · exact .inr ⟨_, heq, h⟩
  · exact .inr ⟨_, heq, h⟩

/-- Where a non-blocking write is while it is in its closure. -/
theorem first_of_polite (h : Polite (st.threads.pc t)) (hpc : st.threads.pc t = .inside call)
    (hio : call.io = .write id size total) (hpos : call.pos? = some pos)
    (hnb : call.nonBlocking = true) : call.phase = .first pos ∧ (total = 0 ∨ pos = .flag) := by
  unfold IoCall.pos? at hpos
  rcases h call id size total hpc hio hnb with ⟨hphase, -⟩ | ⟨pos', hphase, htotal⟩
  · rw [hphase] at hpos
    cases hpos
  · rw [hphase] at hpos
    cases hpos
    exact ⟨hphase, htotal⟩

variable (h : ∀ u, Polite (st.threads.pc u))

include h

/-- A read moves, or the pipe changes around the threads. -/
theorem Fair.stay (ht : st'.threads = (st.threads.updateAll wake l).goto t p)
    (hp : transferred p = transferred (st.threads.pc t)) (hpolite : Polite p)
    (hsame : SameCalls st st') : Fair st st' :=
  ⟨.stay ht hp hsame, polite_moved h ht hpolite⟩

theorem Fair.still (ht : st'.threads = st.threads) (hsame : SameCalls st st') : Fair st st' := by
  refine ⟨.same hsame.ids hsame.accepted hsame.finished (fun u => by rw [ht]), fun u => ?_⟩
  rw [ht]
  exact h u

/-- **The closure of a write returns**: with what it has put, with an error if that is nothing,
or to try again. -/
theorem Fair.finish {r : AxResult Nat}
    (hpc : st.threads.pc t = .inside call) (hio : call.io = .write id size total)
    (hmoved : moved call.pos? = 0) (hresult : Returns total r
      ∨ (r = .error .wouldBlock ∧ (call.nonBlocking = true → total = 0))) :
    Fair st (st.settle t call.io (call.finish r)) := by
  have htr : transferred (st.threads.pc t) = some (id, total) := by
    rw [hpc]
    simp only [transferred, call?, hio, hmoved, Nat.add_zero]
  -- the call returns
  have hends : Returns total r → Fair st (st.settle t call.io (.returned r)) := by
    intro hres
    have ht : (st.settle t call.io (.returned r)).threads = st.threads.goto t (.returned r) := rfl
    refine ⟨.ended t id total r htr hres rfl rfl ?_ (transferred_moved (l := []) ht),
      polite_moved (l := []) h ht (polite_returned r)⟩
    simp only [settle, hio]
  -- the call goes on
  have hstays : ∀ phase, phase = .parking ∨ phase = .registering → call.nonBlocking = false →
      Fair st (st.settle t call.io (.inside { call with phase := phase })) := by
    intro phase hphase hblocking
    refine .stay (l := []) h rfl ?_ (polite_blocking hblocking) ⟨rfl, rfl, rfl⟩
    rw [htr]
    rcases hphase with rfl | rfl <;>
      simp only [transferred, call?, hio, IoCall.pos?, moved, Nat.add_zero]
  cases r with
  | ok n =>
    refine hends ?_
    rcases hresult with hok | ⟨he, -⟩
    · exact hok
    · cases he
  | error e =>
    have hzero : e ≠ .wouldBlock ∨ call.nonBlocking = true → total = 0 := by
      intro hcase
      rcases hresult with hzero | ⟨he, hnb⟩
      · exact hzero
      · grind
    by_cases hwould : e = .wouldBlock
    · subst hwould
      simp only [IoCall.finish]
      split
      next pos hphase =>
        refine hstays .parking (.inl rfl) ?_
        cases hnb : call.nonBlocking with
        | false => rfl
        | true =>
          -- a non-blocking call makes no second attempt
          rcases h t call id size total hpc hio hnb with ⟨hfirst, -⟩ | ⟨pos', hfirst, -⟩
          · rw [hphase] at hfirst
            cases hfirst
          · rw [hphase] at hfirst
            cases hfirst
      · split
        next hnb => exact hends (hzero (.inr hnb))
        next hnb => exact hstays .registering (.inr rfl) (Bool.not_eq_true _ ▸ hnb)
    · have hret : call.finish (.error e) = .returned (.error e) := by
        cases e with
        | wouldBlock => exact absurd rfl hwould
        | _ => rfl
      rw [hret]
      exact hends (hzero (.inl hwould))

theorem Fair.woken (ht : st'.threads = st.threads.updateAll wake l) (hsame : SameCalls st st') :
    Fair st st' := by
  have hpc := pc_updateAll wake_wake l st.threads
  refine ⟨.same hsame.ids hsame.accepted hsame.finished (fun u => ?_), fun u => ?_⟩
  · rw [ht, hpc u]
    split
    · exact transferred_wake _
    · rfl
  · rw [ht, hpc u]
    split
    · exact (h u).wake
    · exact h u

theorem Fair.reading (ht : st'.threads = (st.threads.updateAll wake l).goto t p)
    (hpc : transferred (st.threads.pc t) = none)
    (hp : (∃ r, p = .returned r) ∨ ∃ call, p = .inside call ∧ call.io = .read)
    (hsame : SameCalls st st') : Fair st st' := by
  rcases hp with ⟨r, rfl⟩ | ⟨call, rfl, hio⟩
  · exact .stay h ht hpc.symm (polite_returned r) hsame
  · refine .stay h ht ?_ (polite_read hio) hsame
    rw [hpc]
    simp only [transferred, call?, hio]

theorem Fair.goto {total' : Nat} {pos' : PipePos}
    (hpc : st.threads.pc t = .inside call) (hio : call.io = .write id size total)
    (hpos : call.pos? = some pos) (ht : st'.threads = (st.threads.updateAll wake l).goto t
      (.inside { call.goto pos' with io := .write id size total' }))
    (htotal : total' + moved (some pos') = total + moved (some pos))
    (hzero : (total = 0 ∨ pos = .flag) → total' = 0 ∨ pos' = .flag) (hsame : SameCalls st st') :
    Fair st st' := by
  refine .stay h ht ?_ ?_ hsame
  · have hnew : IoCall.pos? { call.goto pos' with io := PipeIo.write id size total' } = some pos' :=
      call.pos?_goto pos'
    rw [hpc, transferred_write hio, hpos, transferred_write rfl, hnew, htotal]
  intro call' id' size' total'' hcall hio' hnb
  cases hcall
  cases hio'
  obtain ⟨hphase, hz⟩ := first_of_polite (h t) hpc hio hpos hnb
  refine .inr ⟨pos', ?_, hzero hz⟩
  simp only [IoCall.goto, hphase]

/-- **The closure of `write`.** -/
theorem closure_fair_write (hok : st.unbroken (.next t) = true)
    (hpc : st.threads.pc t = .inside call) (hio : call.io = .write id size total)
    (hpos : call.pos? = some pos) (hs : st.closure t call pos = some st') : Fair st st' := by
  have hcall : (st.threads.pc t).call? = some call := by
    rw [hpc]
    rfl
  simp only [unbroken, hcall, hpos] at hok
  simp only [closure, hio] at hs hok
  cases pos with
  | lock => cases hs
  | check =>
    simp only [Bool.or_eq_true, decide_eq_true_eq, Bool.not_eq_true'] at hok hs
    split at hs
    next hclosed =>
      cases hs
      rw [← hio]
      refine .finish h hpc hio (by rw [hpos]; rfl) (.inl ?_)
      rcases hok with hzero | hopen
      · exact hzero
      · rw [hopen] at hclosed
        cases hclosed
    · cases hs
      have hsame : call.goto .lock = { call.goto .lock with io := .write id size total } := by
        rw [← hio]
        rfl
      rw [hsame]
      refine .goto (l := []) h hpc hio hpos rfl rfl ?_ ⟨rfl, rfl, rfl⟩
      intro hz
      rcases hz with hz | hz
      · exact .inl hz
      · cases hz
  | wake n =>
    cases hs
    exact .goto (l := st.pollRx) h hpc hio hpos rfl rfl (fun _ => .inr rfl) ⟨rfl, rfl, rfl⟩
  | flag =>
    cases hs
    rw [← hio]
    refine .finish h hpc hio (by rw [hpos]; rfl) ?_
    split
    · exact .inl rfl
    · refine .inr ⟨rfl, fun hnb => ?_⟩
      -- the flag was cleared after the call began
      grind

theorem closure_fair_read (hpc : st.threads.pc t = .inside call)
    (hio : call.io = .read) (hs : st.closure t call pos = some st') : Fair st st' := by
  have hnone : transferred (st.threads.pc t) = none := by
    rw [hpc]
    exact transferred_read hio
  simp only [closure, hio] at hs
  cases pos with
  | lock => cases hs
  | flag => cases hs
  | check =>
    cases hs
    exact .reading (l := []) h (st.settle_threads t _ _) hnone (finish_read hio _)
      (sameCalls_read _)
  | wake n =>
    cases hs
    exact .reading (l := st.pollTx) h (settle_threads _ t _ _) hnone (finish_read hio _)
      ⟨settle_nextId _ t _ _, settle_accepted _ t _ _, settle_finished_read _ t _⟩

theorem closure_fair (hok : st.unbroken (.next t) = true)
    (hpc : st.threads.pc t = .inside call) (hpos : call.pos? = some pos)
    (hs : st.closure t call pos = some st') : Fair st st' := by
  cases hio : call.io with
  | read => exact closure_fair_read h hpc hio hs
  | write id size total => exact closure_fair_write h hok hpc hio hpos hs

/-- A thread outside of the closure: its call stays what it is. -/
theorem Fair.outside {call' : PipeCall}
    (ht : st'.threads = st.threads.goto t (.inside call')) (hpc : st.threads.pc t = .inside call)
    (hpos : call.pos? = none) (hio : call'.io = call.io)
    (hnb : call'.nonBlocking = call.nonBlocking) (hmoved : moved call'.pos? = 0)
    (hphase : call.phase = .polling → ∃ pos, call'.phase = .first pos) (hsame : SameCalls st st') :
    Fair st st' := by
  refine .stay (l := []) h ht ?_ ?_ hsame
  · rw [hpc]
    cases hcase : call.io with
    | read => rw [transferred_read hcase, transferred_read (hio.trans hcase)]
    | write id size total =>
      rw [transferred_write hcase, transferred_write (hio.trans hcase), hpos, hmoved]
      rfl
  intro c id size total hc hcio hcnb
  cases hc
  rcases h t call id size total hpc (hio.symm.trans hcio) (hnb.symm.trans hcnb) with
    ⟨hpolling, hzero⟩ | ⟨pos, hfirst, -⟩
  · grind
  · unfold IoCall.pos? at hpos
    rw [hfirst] at hpos
    cases hpos

theorem next_fair (hok : st.unbroken (.next t) = true)
    (hs : st.next t = some st') : Fair st st' := by
  unfold next at hs
  split at hs
  · cases hs
  next call hpc =>
    obtain ⟨io, nonBlocking, woke, phase⟩ := call
    cases phase with
    | first pos | second pos => exact closure_fair h hok hpc rfl hs
    | registering =>
      cases hs
      cases io <;> exact .outside h rfl hpc rfl rfl rfl rfl nofun ⟨rfl, rfl, rfl⟩
    | polling =>
      cases hs
      refine .outside h rfl hpc rfl rfl rfl ?_ (fun _ => ⟨_, rfl⟩) ⟨rfl, rfl, rfl⟩
      cases io <;> rfl
    | parking =>
      cases hs
      refine .outside h rfl hpc rfl rfl rfl ?_ nofun ⟨rfl, rfl, rfl⟩
      cases woke <;> rfl
    | parked => cases hs

theorem copyOut_fair {left right : AxResult Nat}
    (hs : st.copyOut t left right = some st') : Fair st st' := by
  unfold copyOut at hs
  split at hs
  · cases hs
  next call hpc =>
    split at hs
    next hpos hio =>
      have hnone : transferred (st.threads.pc t) = none := by
        rw [hpc]
        exact transferred_read hio
      obtain ⟨result, -, rfl⟩ := Option.map_eq_some_iff.mp hs
      cases result with
      | error e =>
        rw [hio]
        exact .reading (l := []) h (st.settle_threads t _ _) hnone (finish_read hio _)
          (sameCalls_read _)
      | ok count => exact .reading (l := []) h rfl hnone (.inr ⟨_, rfl, hio⟩) ⟨rfl, rfl, rfl⟩
    · cases hs

theorem Fair.grow {left right : Bytes}
    (hpc : st.threads.pc t = .inside call) (hio : call.io = .write id size total)
    (hpos : call.pos? = some .lock) (ht : st'.threads
      = st.threads.goto t (.inside (call.goto (.wake (left.length + right.length)))))
    (hids : st'.nextId = st.nextId)
    (haccepted : st'.accepted = st.accepted ++ (left ++ right).map (fun b => (id, b)))
    (hfinished : st'.finished = st.finished) : Fair st st' := by
  constructor
  · refine .grew t id total (left ++ right) ?_ hids haccepted hfinished (fun u => ?_)
    · rw [hpc, transferred_write hio, hpos]
      rfl
    · have hnew : transferred (.inside (call.goto (.wake (left.length + right.length)))) = _ :=
        transferred_write hio
      rw [transferred_moved (l := []) ht, hnew, IoCall.pos?_goto, List.length_append]
      rfl
  · refine polite_moved (l := []) h ht ?_
    intro call' id' size' total' hcall hio' hnb
    cases hcall
    obtain ⟨hphase, hz⟩ := first_of_polite (h t) hpc hio hpos hnb
    have htotal : total' = total := by
      have hsame := hio.symm.trans hio'
      injection hsame with _ _ hsame
      exact hsame.symm
    grind [IoCall.goto]

/-- **The lock section of `write`**: the only place where a call grows. -/
theorem copyIn_fair {left right : AxResult Bytes}
    (hok : st.unbroken (.copyIn t left right) = true) (hs : st.copyIn t left right = some st') :
    Fair st st' := by
  unfold copyIn at hs
  split at hs
  · cases hs
  next call hpc =>
    split at hs
    next id size total hpos hio =>
      have hmoved : moved call.pos? = 0 := by
        rw [hpos]
        rfl
      obtain ⟨result, hfilled, rfl⟩ := Option.map_eq_some_iff.mp hs
      cases result with
      | error e =>
        refine .finish h hpc hio hmoved (.inl ?_)
        obtain ⟨io, nonBlocking, woke, phase⟩ := call
        simp only at hio
        subst hio
        simp only [unbroken, hpc, call?, Bool.or_eq_true, decide_eq_true_eq] at hok
        rcases hok with hzero | hgood
        · exact hzero
        -- a source that never fails gives bytes
        rw [Bool.and_eq_true] at hgood
        rcases (filled_error hfilled).2 with ⟨e', rfl⟩ | ⟨e', rfl⟩
        · cases hgood.1
        · cases hgood.2
      | ok bytes =>
        simp only [put]
        split
        · refine .finish h hpc hio hmoved (.inr ⟨rfl, fun hnb => ?_⟩)
          rcases (first_of_polite (h t) hpc hio hpos hnb).2 with hz | hz
          · exact hz
          · cases hz
        · exact .grow h hpc hio hpos rfl rfl rfl rfl
    · cases hs

/-- `read` begins, or returns at once. -/
theorem read_fair {isRead isFull : Bool}
    (hrest : (st.threads.pc t).atRest = true) : Fair st (st.read t isRead isFull) := by
  have hnone := transferred_atRest hrest
  have hgoes : ∀ p, ((∃ r, p = .returned r)
      ∨ ∃ call : PipeCall, p = .inside call ∧ call.io = .read) →
      Fair st (st.settle t .read p) :=
    fun p hp => .reading (l := []) h (st.settle_threads t _ _) hnone hp (sameCalls_read p)
  unfold read
  split
  · exact hgoes _ (.inl ⟨_, rfl⟩)
  · split
    · exact hgoes _ (.inl ⟨_, rfl⟩)
    · exact hgoes _ (.inr ⟨_, rfl, rfl⟩)

/-- `write` begins, or returns at once. -/
theorem write_fair {isWrite : Bool}
    (hrest : (st.threads.pc t).atRest = true) : Fair st (st.write t isWrite size) := by
  have hnone := transferred_atRest hrest
  have hrefused : ∀ result, Returns 0 result →
      Fair st (settle { st with nextId := st.nextId + 1 } t (.write st.nextId size 0)
        (.returned result)) := by
    intro result hresult
    refine ⟨.refused result hresult rfl rfl rfl (fun u => ?_),
      polite_moved (l := []) h rfl (polite_returned result)⟩
    show transferred ((st.threads.goto t (.returned result)).pc u) = _
    rw [pc_goto]
    split
    next heq =>
      rw [heq, hnone]
      rfl
    · rfl
  simp only [write]
  split
  · exact hrefused _ rfl
  split
  · exact hrefused _ rfl
  refine ⟨.began t rfl rfl rfl (fun u => ?_), polite_moved (l := []) h rfl ?_⟩
  · show transferred ((st.threads.goto t _).pc u) = _
    rw [pc_goto]
    split
    · rfl
    · rfl
  · intro call id size' total hcall hio _
    cases hcall
    cases hio
    exact .inl ⟨rfl, rfl⟩

theorem interrupted_fair
    (hok : st.unbroken (.interrupted t) = true) (hs : st.step (.interrupted t) = some st') :
    Fair st st' := by
  simp only [step] at hs
  split at hs
  next io nonBlocking woke hpc =>
    cases hs
    cases io with
    | read => exact .reading (l := []) h rfl (by rw [hpc]; rfl) (.inl ⟨_, rfl⟩) ⟨rfl, rfl, rfl⟩
    | write id size total =>
      simp only [unbroken, hpc, call?, decide_eq_true_eq] at hok
      exact .finish (r := .error .interrupted) h hpc rfl rfl (.inl hok)
  · cases hs

/-- **One step.** -/
theorem step_fair {op : PipeOp}
    (hok : st.unbroken op = true) (hs : st.step op = some st') : Fair st st' := by
  cases op with
  | read t isRead isFull =>
    obtain ⟨⟨hrest, -⟩, rfl⟩ := guard_eq_some hs
    exact read_fair h hrest
  | write t isWrite size =>
    obtain ⟨⟨hrest, -⟩, rfl⟩ := guard_eq_some hs
    exact write_fair h hrest
  | next t => exact next_fair h hok hs
  | copyOut t left right => exact copyOut_fair h hs
  | copyIn t left right => exact copyIn_fair h hok hs
  | interrupted t => exact interrupted_fair h hok hs
  | unpark t =>
    obtain ⟨p, hp, rfl⟩ := Option.map_eq_some_iff.mp hs
    unfold IoPoint.unpark at hp
    split at hp
    next io nonBlocking woke hpc =>
      cases hp
      exact .outside h rfl hpc rfl rfl rfl rfl nofun ⟨rfl, rfl, rfl⟩
    · cases hp
  | setNonblocking isRead nonBlocking =>
    cases hs
    cases isRead <;> exact .still h rfl ⟨rfl, rfl, rfl⟩
  | resize newSize memory =>
    simp only [step] at hs
    split at hs
    · cases hs
    · cases hs
      exact .still h rfl ⟨rfl, rfl, rfl⟩
    · cases hs
      exact .still h rfl ⟨rfl, rfl, rfl⟩
  | drop isRead =>
    cases isRead <;>
    · obtain ⟨-, rfl⟩ := guard_eq_some hs
      exact .woken (l := st.pollClose) h rfl ⟨rfl, rfl, rfl⟩
  | release isRead =>
    cases isRead <;>
    · obtain ⟨-, rfl⟩ := guard_eq_some hs
      exact .still h rfl ⟨rfl, rfl, rfl⟩

end Steps

/-! ## §3. Every run. -/

/-- **The invariant**: the bytes of a call are counted by the thread that makes it, or by what it
has returned. -/
structure Tallied (st : PipeState) : Prop where
  polite : ∀ t, Polite (st.threads.pc t)
  fresh : ∀ id, st.nextId ≤ id → st.putBy id = 0
  active : ∀ t id n, transferred (st.threads.pc t) = some (id, n) → id < st.nextId ∧ st.putBy id = n
  unique : ∀ t u id n m, transferred (st.threads.pc t) = some (id, n) →
    transferred (st.threads.pc u) = some (id, m) → t = u
  past : ∀ e ∈ st.finished, e.1 < st.nextId ∧ ∀ t n, transferred (st.threads.pc t) ≠ some (e.1, n)
  honest : st.Honest

/-- The calls of the writers. -/
def ledger (st : PipeState) : Ledger (AxResult Nat) :=
  ⟨st.nextId, Ledger.inLog st.accepted, fun t => transferred (st.threads.pc t), st.finished⟩

variable {st : PipeState}

theorem tallied_iff :
    st.Tallied ↔ (∀ t, Polite (st.threads.pc t)) ∧ st.ledger.Balanced Returns := by
  constructor
  · intro h
    exact ⟨h.polite, h.fresh, h.active, h.unique,
      fun e he => ⟨(h.past e he).1, h.honest e he, (h.past e he).2⟩⟩
  · rintro ⟨hpolite, h⟩
    exact ⟨hpolite, h.fresh, h.active, h.unique,
      fun e he => ⟨(h.past e he).1, (h.past e he).2.2⟩, fun e he => (h.past e he).2.1⟩

/-- **The tally of a step is posted.** -/
theorem Tally.balanced {st' : PipeState} (h : Tally st st') (hb : st.ledger.Balanced Returns) :
    st'.ledger.Balanced Returns := by
  cases h with
  | same hids haccepted hfinished hthreads =>
    have heq : st'.ledger = st.ledger :=
      Ledger.ext hids (congrArg Ledger.inLog haccepted) (funext hthreads) hfinished
    exact heq ▸ hb
  | ended t id n result hpc hresult hids haccepted hfinished hthreads =>
    have heq : st'.ledger = st.ledger.close t id result := by
      refine Ledger.ext hids (congrArg Ledger.inLog haccepted) (funext fun u => ?_) hfinished
      exact (hthreads u).trans (Function.update_apply st.ledger.active t none u).symm
    exact heq ▸ hb.close hpc hresult
  | grew t id n bytes hpc hids haccepted hfinished hthreads =>
    have heq : st'.ledger = st.ledger.put t id n bytes.length := by
      refine Ledger.ext hids (funext fun i => ?_) (funext fun u => ?_) hfinished
      · have hcount : Ledger.inLog st.accepted id = n := (hb.active t id n hpc).2
        show Ledger.inLog st'.accepted i = Function.update (Ledger.inLog st.accepted) id _ i
        rw [haccepted, Ledger.inLog_append, Function.update_apply]
        split
        next heq => rw [heq, hcount]
        · rfl
      · exact (hthreads u).trans (Function.update_apply st.ledger.active t _ u).symm
    exact heq ▸ hb.put hpc bytes.length
  | began t hids haccepted hfinished hthreads =>
    have heq : st'.ledger = st.ledger.begin t := by
      refine Ledger.ext hids (congrArg Ledger.inLog haccepted) (funext fun u => ?_) hfinished
      exact (hthreads u).trans (Function.update_apply st.ledger.active t _ u).symm
    exact heq ▸ hb.begin t
  | refused result hresult hids haccepted hfinished hthreads =>
    have heq : st'.ledger = st.ledger.refuse result :=
      Ledger.ext hids (congrArg Ledger.inLog haccepted) (funext hthreads) hfinished
    exact heq ▸ hb.refuse hresult

theorem Tallied.step {st' : PipeState} {op : PipeOp} (h : st.Tallied) (hok : st.unbroken op = true)
    (hs : st.step op = some st') : st'.Tallied := by
  obtain ⟨htally, hpolite⟩ := step_fair h.polite hok hs
  exact tallied_iff.mpr ⟨hpolite, htally.balanced (tallied_iff.mp h).2⟩

theorem new_tallied : new.Tallied := by
  refine ⟨fun _ => polite_returned _, fun _ _ => rfl, ?_, ?_, ?_, ?_⟩
  · intro t id n ht
    cases ht
  · intro t u id n m ht
    cases ht
  · intro e he
    cases he
  · intro e he
    cases he

/-- **A FAILING PIPE WRITE HAS WRITTEN NOTHING**, and one that has written returns how much: in
every run in which no write that has put bytes into the pipe meets a closed read end, a fault, an
interruption, or a `non_blocking` that was cleared after it began. -/
theorem failing_write_has_written_nothing (st : PipeState)
    (h : Reach step (fun st op => st.unbroken op = true) new st) : st.Honest :=
  (h.invariant Tallied new_tallied (fun _ _ _ hinv => hinv.step)).honest

/-- A write of a page and a byte to a pipe of one page, until it waits. -/
def longWrite : List PipeOp :=
  [.resize 1 true, .write 0 true 4097, .next 0, .next 0,
    .copyIn 0 (.ok (List.replicate 4096 7)) (.ok []), .next 0, .next 0, .next 0, .next 0,
    .copyIn 0 (.ok []) (.ok []), .next 0]

/-- It waits for a reader and returns with all it has written. -/
theorem long_write_returns_its_size : ∃ st, Reach step (fun st op => st.unbroken op = true) new st
      ∧ (0, .ok 4097) ∈ st.finished ∧ st.putBy 0 = 4097 := by
  obtain ⟨st, hst, he⟩ := exists_reach_guarded step new unbroken
    (longWrite ++ [.read 1 true false, .next 1, .copyOut 1 (.ok 1) (.ok 0), .next 1,
      .next 0, .next 0, .copyIn 0 (.ok [7]) (.ok []), .next 0, .next 0])
    (fun st => (0, .ok 4097) ∈ st.finished) (by decide +kernel)
  exact ⟨st, hst, he, failing_write_has_written_nothing st hst _ he⟩

/-- **The same write, interrupted while it waits, returns `Interrupted`** with a page of its bytes
in the pipe and the read end open. -/
theorem interrupted_write_leaves_its_bytes :
    ∃ st, Reach step Always new st ∧ (0, .error .interrupted) ∈ st.finished
      ∧ st.readEnd = .opened ∧ st.buffer.len = 4096 ∧ st.putBy 0 = 4096 ∧ ¬ st.Honest := by
  obtain ⟨st, hst, he, hopen, hlen, hput⟩ := exists_reach step new
    (longWrite ++ [.unpark 0, .interrupted 0])
    (fun st => (0, .error .interrupted) ∈ st.finished ∧ st.readEnd = .opened
      ∧ st.buffer.len = 4096 ∧ st.putBy 0 = 4096) (by decide +kernel)
  refine ⟨st, hst, he, hopen, hlen, hput, fun hhonest => ?_⟩
  have hzero : st.putBy 0 = 0 := hhonest _ he
  omega

end PipeState

end StarryOS.File
