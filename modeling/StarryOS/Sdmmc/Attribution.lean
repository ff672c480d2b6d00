/-
  StarryOS.Sdmmc.Attribution — WHOSE EVENTS a snapshot holds.

  `snapshot_bits(g)` is meant to return events of transfer `g` only.  Two
  things tie a record to a transfer: `begin_transfer` zeroes the words and
  moves the generation on, and `record_irq` tags what it records with the
  generation it LOADS.  But the handler loads the generation after it has read
  the registers, and nothing keeps a transfer from beginning in between:

      handler  reads RINTSTS, IDSTS            (events of transfer 1)
      driver   sees them in the registers, validates, finishes transfer 1,
               begins and submits transfer 2
      handler  loads generation 2, records, publishes

  and the snapshot of transfer 2 holds the end of transfer 1
  (`snapshot_of_the_next_transfer_holds_old_events`).

  It is right in every run in which a transfer begins with clean registers and a
  handler that carries nothing, and the controller is silent until the command
  is written (`snapshot_holds_own_events`).
-/
import StarryOS.Sdmmc.Completion

namespace StarryOS.Sdmmc

open Lib StatusBit

/-! ## §1. Where a bit may be. -/

/-- A transfer is starting from the first step of `begin_transfer` to the write
of the command, and running until its status is cleared. -/
inductive Phase where
  | outside
  | starting
  | running (generation : BitVec 64)
  deriving DecidableEq, Repr

/-- Where the transfer is. -/
def DriverPoint.phase : DriverPoint → Phase
  | .storeRintsts _ | .storeIdsts _ | .fetchAdd _ | .submit _ _ => .starting
  | .accepted _ g | .resume _ g | .resumeRead _ g | .resumeClear _ g _ | .abnormal _ g
  | .poll _ g _ _ => .running g
  | _ => .outside

/-- The event bit may be around: not while a transfer starts, and while it runs
only if the controller has raised it since. -/
def Phase.allows (b : StatusBit) (history : List Happening) : Phase → Prop
  | .outside => True
  | .starting => False
  | .running g => b.set (raisedSince g history) = true

/-- The same for the point the driver is at. -/
def DriverPoint.allows (b : StatusBit) (history : List Happening) (p : DriverPoint) : Prop :=
  p.phase.allows b history

/-- `begin_transfer` has zeroed the word of the bit. -/
def DriverPoint.zeroed (b : StatusBit) : DriverPoint → Prop
  | .storeRintsts _ => False
  | .storeIdsts _ => ∃ k, b = .rintsts k
  | _ => True

/-- What `snapshot_bits` has loaded of the record. -/
def DriverPoint.polled : DriverPoint → StatusWords
  | .poll _ _ _ (.loadIdsts _ r) => ⟨r, 0⟩
  | .poll _ _ _ (.recheck _ s) => s
  | .poll _ _ _ (.done _ (some s)) => s
  | _ => .empty

/-- Wherever the bit is, it may be. -/
structure Own (b : StatusBit) (m : Machine) : Prop where
  regs : b.set m.regs = true → m.driver.allows b m.history
  carried : b.set m.handler.carried = true → m.driver.allows b m.history
  bits : m.driver.zeroed b → b.set m.bits = true → m.driver.allows b m.history
  polled : b.set m.driver.polled = true → m.driver.allows b m.history

variable {b : StatusBit}

/-- There is no bit in the empty words. -/
theorem nothing {P : Prop} (hs : b.set .empty = true) : P := by
  rw [set_empty] at hs
  cases hs

theorem Own.of_allows {m : Machine} (h : m.driver.allows b m.history) : Own b m :=
  ⟨fun _ => h, fun _ => h, fun _ _ => h, fun _ => h⟩

/-- A step of the driver during a transfer: registers are at most cleared, and
what the poll loads comes from the record. -/
theorem Own.move {m m' : Machine} (h : Own b m)
    (hallow : m.driver.allows b m.history → m'.driver.allows b m'.history)
    (hzero : m.driver.zeroed b) (hregs : b.set m'.regs = true → b.set m.regs = true)
    (hhandler : m'.handler = m.handler) (hbits : m'.bits = m.bits)
    (hpolled : b.set m'.driver.polled = true →
      b.set m.driver.polled = true ∨ b.set m.bits = true) : Own b m' where
  regs hs := hallow (h.regs (hregs hs))
  carried hs := hallow (h.carried (hhandler ▸ hs))
  bits _ hs := hallow (h.bits hzero (hbits ▸ hs))
  polled hs := hallow ((hpolled hs).elim h.polled (h.bits hzero))

/-- A step of the driver that goes on with the transfer, or leaves it. -/
theorem Own.proceed {m : Machine} (h : Own b m) {p : DriverPoint}
    {regs : StatusWords} (hzero : m.driver.zeroed b)
    (hphase : p.phase = m.driver.phase ∨ p.phase = .outside) (hpolled : p.polled = .empty)
    (hregs : b.set regs = true → b.set m.regs = true) : Own b { m with regs, driver := p } := by
  refine h.move (fun ha => ?_) hzero hregs rfl rfl (fun hs => nothing (hpolled ▸ hs))
  show Phase.allows b m.history p.phase
  rcases hphase with hp | hp
  · rw [hp]
    exact ha
  · rw [hp]
    trivial

/-! ## §2. The steps. -/

/-- The condition on a step: the controller is silent while a transfer starts,
and `begin_transfer` finds no event in the registers or with the handler. -/
def apart (m : Machine) : Label → Bool
  | .raise s => m.driver.phase != .starting || s.events == .empty
  | .run _ =>
    match m.driver with
    | .storeSnapshot _ => m.regs.events == .empty && m.handler.carried.events == .empty
    | _ => true
  | _ => true

section Steps

variable {b : StatusBit} {m : Machine}

/-- What is allowed stays allowed when the controller raises more. -/
theorem allows_raised {p : Phase} {h : List Happening} (s : StatusWords) (ha : p.allows b h) :
    p.allows b (.raised s :: h) := by
  cases p with
  | outside => trivial
  | starting => exact ha
  | running g =>
    show b.set (s.join (raisedSince g h)) = true
    rw [set_join, ha, Bool.or_true]

/-- A bit that is raised is allowed, except while a transfer starts. -/
theorem allows_of_raised {p : Phase} {h : List Happening} {s : StatusWords}
    (hp : p ≠ .starting) (hs : b.set s = true) : p.allows b (.raised s :: h) := by
  cases p with
  | outside => trivial
  | starting => exact absurd rfl hp
  | running g =>
    show b.set (s.join (raisedSince g h)) = true
    rw [set_join, hs, Bool.true_or]

theorem Own.raise {s : StatusWords} (h : Own b m) (hok : apart m (.raise s) = true) :
    Own b { m with regs := m.regs.join s.events, history := .raised s.events :: m.history } where
  regs hs := by
    rw [set_join, Bool.or_eq_true] at hs
    rcases hs with hs | hs
    · exact allows_raised _ (h.regs hs)
    refine allows_of_raised (fun hstart => ?_) hs
    -- while a transfer starts the controller raises nothing
    simp only [apart, hstart, bne_self_eq_false, Bool.false_or, beq_iff_eq] at hok
    exact nothing (hok ▸ hs)
  carried hs := allows_raised _ (h.carried hs)
  bits hz hs := allows_raised _ (h.bits hz hs)
  polled hs := allows_raised _ (h.polled hs)

/-- The handler moves bits from the registers into the record. -/
theorem Own.irq (h : Own b m) : Own b m.irq := by
  have hc := h.carried
  unfold Machine.irq
  generalize m.handler = p at hc
  cases p with
  | idle =>
    refine { h with carried := fun hs => ?_ }
    cases b with
    | rintsts k => exact h.regs hs
    | idsts k => cases BitVec.getLsbD_zero.symm.trans hs
  | readIdsts r =>
    refine { h with carried := fun hs => ?_ }
    cases b with
    | rintsts k => exact hc hs
    | idsts k => exact h.regs hs
  | flagError s =>
    exact { h with carried := hc }
  | clearIdsts s =>
    refine { h with carried := hc, regs := fun hs => h.regs ?_ }
    simp only at hs
    split at hs
    · exact set_of_clearIdsts hs
    · exact hs
  | clearRintsts s =>
    refine { h with carried := hc, regs := fun hs => h.regs ?_ }
    simp only at hs
    split at hs
    · exact set_of_clearRintsts hs
    · exact hs
  | loadGeneration s =>
    refine { h with carried := fun hs => ?_ }
    simp only at hs
    split at hs
    · exact nothing hs
    · exact hc hs
  | orRintsts g s =>
    refine { h with carried := hc, bits := fun hz hs => ?_ }
    cases b with
    | rintsts k =>
      have hk : (m.bits.rintsts ||| s.rintsts).getLsbD k = true := hs
      rw [BitVec.getLsbD_or, Bool.or_eq_true] at hk
      exact hk.elim (h.bits hz) hc
    | idsts k => exact h.bits hz hs
  | orIdsts g s =>
    refine { h with carried := nothing, bits := fun hz hs => ?_ }
    cases b with
    | rintsts k => exact h.bits hz hs
    | idsts k =>
      have hk : (m.bits.idsts ||| s.idsts).getLsbD k = true := hs
      rw [BitVec.getLsbD_or, Bool.or_eq_true] at hk
      exact hk.elim (h.bits hz) hc
  | publish g => exact { h with carried := nothing }

/-- A poll loads from the record, which is zeroed before the transfer runs. -/
theorem Own.poll {t : Transfer} {g : BitVec 64} {site : PollSite} {p : PollPoint} {turn : Turn}
    (h : Own b m) (hd : m.driver = .poll t g site p) : Own b (m.poll t g site turn p) := by
  have hzero : m.driver.zeroed b := by rw [hd]; trivial
  have hsame : ∀ site' p', m.driver.allows b m.history →
      DriverPoint.allows b m.history (.poll t g site' p') := by
    intro site' p' ha
    rw [hd] at ha
    exact ha
  cases p with
  | readRintsts | readIdsts r => exact h.move (hsame _ _) hzero id rfl rfl nothing
  | loadSnapshot current =>
    refine h.move (hsame _ _) hzero id rfl rfl (fun hs => ?_)
    simp only [Machine.poll] at hs
    split at hs
    · exact nothing hs
    · exact nothing hs
  | loadRintsts current =>
    refine h.move (hsame _ _) hzero id rfl rfl (fun hs => .inr ?_)
    cases b with
    | rintsts k => exact hs
    | idsts k => cases BitVec.getLsbD_zero.symm.trans hs
  | loadIdsts current r =>
    refine h.move (hsame _ _) hzero id rfl rfl (fun hs => ?_)
    rw [hd]
    cases b with
    | rintsts k => exact .inl hs
    | idsts k => exact .inr hs
  | recheck current s =>
    refine h.move (hsame _ _) hzero id rfl rfl (fun hs => ?_)
    rw [hd]
    simp only [Machine.poll] at hs
    split at hs
    · exact .inl hs
    · exact nothing hs
  | done current snapshot =>
    simp only [Machine.poll]
    rcases afterPoll_cases t g site (pollResult current snapshot) m.errorFlag turn with
      ⟨site', he⟩ | ⟨abort, he⟩
    · rw [he]
      exact h.move (hsame _ _) hzero id rfl rfl nothing
    · rw [he]
      exact .of_allows trivial

/-- The driver.  `begin_transfer` starts from clean registers; its stores zero
the record; after the command every bit counts. -/
theorem Own.run (hb : b.isEvent = true) {turn : Turn} (h : Own b m)
    (hok : apart m (.run turn) = true) : Own b (m.run turn) := by
  unfold Machine.run
  cases hd : m.driver with
  | idle => exact h
  | faulted => exact h
  | plainClear r | staleRead t | staleClear t r | idstsClear t i | finishRintsts abort
  | finishIdsts abort r | finishClear abort s => exact .of_allows trivial
  | staleIdsts t | idstsRead t =>
    refine .of_allows ?_
    simp only
    split <;> trivial
  | flagClear t =>
    refine .of_allows ?_
    cases turn <;> trivial
  | storeSnapshot t =>
    simp only [apart, hd, Bool.and_eq_true, beq_iff_eq] at hok
    have clean : ∀ s : StatusWords, s.events = .empty → b.set s = false := by
      intro s hs
      rw [← set_events hb, hs, set_empty]
    refine ⟨fun hs => ?_, fun hs => ?_, fun hz => hz.elim, nothing⟩
    · exact nomatch (clean _ hok.1).symm.trans hs
    · exact nomatch (clean _ hok.2).symm.trans hs
  | storeRintsts t =>
    have hr := h.regs
    have hc := h.carried
    rw [hd] at hr hc
    refine ⟨hr, hc, fun ⟨k, hk⟩ hs => ?_, nothing⟩
    subst hk
    exact nomatch BitVec.getLsbD_zero.symm.trans hs
  | storeIdsts t =>
    have hr := h.regs
    have hc := h.carried
    have hb' := h.bits
    rw [hd] at hr hc hb'
    refine ⟨hr, hc, fun _ hs => ?_, nothing⟩
    cases b with
    | rintsts k => exact hb' ⟨k, rfl⟩ hs
    | idsts k => exact nomatch BitVec.getLsbD_zero.symm.trans hs
  | fetchAdd t =>
    refine h.move ?_ ?_ id rfl rfl nothing
    · rw [hd]
      exact id
    · rw [hd]
      trivial
  | submit t g =>
    -- up to here the bit was nowhere
    refine h.move ?_ ?_ id rfl rfl nothing
    · rw [hd]
      exact False.elim
    · rw [hd]
      trivial
  | accepted t g =>
    refine h.proceed (by rw [hd]; trivial) ?_ ?_ id
    · rw [hd]
      split
      · exact .inl rfl
      · exact .inr rfl
    · split <;> rfl
  | resume t g | resumeRead t g =>
    refine h.proceed (by rw [hd]; trivial) (.inl ?_) ?_ id
    · rw [hd]
      split <;> rfl
    · split <;> rfl
  | resumeClear t g i =>
    refine h.proceed (by rw [hd]; trivial) (.inl ?_) rfl set_of_clearIdsts
    rw [hd]
    rfl
  | abnormal t g =>
    refine h.proceed (by rw [hd]; trivial) ?_ ?_ id
    · rw [hd]
      split
      · exact .inr rfl
      · exact .inl rfl
    · split <;> rfl
  | poll t g site p => exact h.poll hd
  | finishClearIdsts abort i =>
    refine .of_allows ?_
    cases abort <;> trivial

end Steps

theorem Own.step {m m' : Machine} (hb : b.isEvent = true) (l : Label)
    (h : Own b m) (hok : apart m l = true) (hs : m.step l = some m') : Own b m' := by
  cases l with
  | raise s =>
    cases hs
    exact h.raise hok
  | settle v =>
    cases hs
    exact { h with regs := fun hset => h.regs ((set_settle hb).symm.trans hset) }
  | irq =>
    cases hs
    exact h.irq
  | begin t | plain =>
    obtain ⟨-, rfl⟩ := guard_eq_some hs
    exact .of_allows trivial
  | run turn =>
    cases hs
    exact h.run hb hok

/-! ## §3. Runs. -/

/-- **Attribution.**  In every run whose transfers begin with clean registers
and a handler that carries no event, and in which the controller is silent
until the command is written, each event bit that `snapshot_bits(g)` returns
has been raised since transfer `g` was submitted. -/
theorem snapshot_holds_own_events {m : Machine}
    (hr : Reach Machine.step (fun m l => apart m l = true) Machine.start m)
    {t : Transfer} {g : BitVec 64} {site : PollSite} {current s : StatusWords}
    (hd : m.driver = .poll t g site (.done current (some s)))
    (hb : b.isEvent = true) (hs : b.set s = true) : b.set (raisedSince g m.history) = true := by
  have hstart : Own b Machine.start := .of_allows trivial
  have h : Own b m := hr.invariant (Own b) hstart (fun _ l _ h => h.step hb l)
  have hallowed := h.polled
  rw [hd] at hallowed
  exact hallowed hs

/-- A transfer whose interrupt is handled before it is polled. -/
theorem handled_read_holds_its_end :
    ∃ m, Reach Machine.step (fun m l => apart m l = true) Machine.start m ∧
      m.driver = .poll .readOne 1 (.command false) (.done ⟨4, 0⟩ (some readEnd)) ∧
      (StatusBit.rintsts 3).set (raisedSince 1 m.history) = true := by
  obtain ⟨m, hr, hd⟩ := exists_reach_guarded Machine.step Machine.start apart
    (submission ++ [.raise readEnd] ++ List.replicate 9 .irq ++ List.replicate 9 (.run .fine))
    (fun m => m.driver =
      .poll .readOne 1 (.command false) (.done ⟨4, 0⟩ (some readEnd))) (by decide +kernel)
  exact ⟨m, hr, hd, snapshot_holds_own_events hr hd rfl rfl⟩

/-- **A snapshot of transfer 2 with the end of transfer 1.**  The handler has
read the registers when the driver, which sees the same events there,
finishes the first transfer and submits the second; it then records what it
carries under the new generation. -/
theorem snapshot_of_the_next_transfer_holds_old_events :
    ∃ (m : Machine) (current s : StatusWords) (b : StatusBit),
      Reach Machine.step Always Machine.start m ∧
      m.driver = .poll .readOne 2 (.command false) (.done current (some s)) ∧
      b.isEvent = true ∧ b.set s = true ∧ b.set (raisedSince 1 m.history) = true ∧
      b.set (raisedSince 2 m.history) = false := by
  obtain ⟨m, hr, hd, hold, hnew⟩ := exists_reach Machine.step Machine.start
    (submission ++ [.raise readEnd, .irq, .irq] ++ List.replicate 36 (.run .fine) ++
      submission ++ List.replicate 7 .irq ++ List.replicate 9 (.run .fine))
    (fun m => m.driver = .poll .readOne 2 (.command false) (.done .empty (some readEnd)) ∧
      (rintsts 3).set (raisedSince 1 m.history) = true ∧
      (rintsts 3).set (raisedSince 2 m.history) = false) (by decide +kernel)
  exact ⟨m, _, _, .rintsts 3, hr, hd, rfl, rfl, hold, hnew⟩

end StarryOS.Sdmmc
