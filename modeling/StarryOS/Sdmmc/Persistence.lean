/-
  StarryOS.Sdmmc.Persistence — DO OBSERVED EVENTS STAY VISIBLE?

  A poll joins the registers with the record of the handler, so an event
  should stay visible when the handler takes it out of the registers: it is
  in the record then.  But the handler clears first and records LAST.  In
  between the event is nowhere a poll looks:

      driver   wait_transfer_sync sees all terminal events: accepted
      handler  (which had read them too) clears IDSTS, clears RINTSTS
      driver   validate_idmac_terminal polls: events missing, transfer
               aborted, driver faulted
      handler  records and publishes

  (`cleared_events_are_missed`).  In every run in which no poll reads a
  register while the handler is between its first clear and its publication,
  and the generation has not wrapped to zero, what was seen is seen again, and
  an accepted transfer is not rejected for a missing event
  (`observed_events_persist`).
-/
import StarryOS.Sdmmc.Completion

namespace StarryOS.Sdmmc

open Lib StatusBit

/-! ## §1. Where a seen bit is. -/

variable (b : StatusBit)

variable (m : Machine)

/-- The bit is in the record, and the record belongs to this transfer. -/
def Published : Prop :=
  m.snapshotGeneration = m.generation ∧ b.set m.bits = true

/-- The handler has taken the bit out of the registers and will publish it. -/
def Held : Prop :=
  match m.handler with
  | .clearRintsts s | .loadGeneration s | .orRintsts _ s => b.set s = true
  | .orIdsts _ s => b.set m.bits = true ∨ b.set ⟨0, s.idsts⟩ = true
  | .publish _ => b.set m.bits = true
  | _ => False

/-- In the registers, the record or the handler. -/
def Around : Prop :=
  b.set m.regs = true ∨ Published b m ∨ Held b m

/-- A handler in flight will publish for this transfer. -/
def Fresh : Prop :=
  m.generation ≠ 0 ∧ ∀ g, m.handler.loaded = some g → g = m.generation

/-- The words `current` have been read from the registers: what is in them is
around, and what was seen before is in them or published. -/
def Read (current : StatusWords) : Prop :=
  (b.set current = true → Around b m) ∧ (b.set m.seen = true → b.set current = true ∨ Published b m)

/-- What a poll knows of the bit at each of its steps. -/
def PollKept : PollPoint → Prop
  | .readRintsts => True
  | .readIdsts r => (∃ k, b = .rintsts k) → Read b m ⟨r, 0⟩
  | .loadSnapshot current => Read b m current
  | .loadRintsts current => m.snapshotGeneration = m.generation ∧ Read b m current
  | .loadIdsts current r =>
    m.snapshotGeneration = m.generation ∧ (b.set ⟨r, 0⟩ = true → b.set m.bits = true) ∧
      (b.set current = true → Around b m) ∧
      (b.set m.seen = true → b.set current = true ∨ b.set ⟨r, 0⟩ = true ∨
        (∃ k, b = .idsts k) ∧ b.set m.bits = true)
  | .recheck current s =>
    m.snapshotGeneration = m.generation ∧ (b.set s = true → b.set m.bits = true) ∧
      (b.set current = true → Around b m) ∧
      (b.set m.seen = true → b.set current = true ∨ b.set s = true)
  | .done current snapshot =>
    (b.set (pollResult current snapshot) = true → Around b m) ∧
      (b.set m.seen = true → b.set (pollResult current snapshot) = true)

/-- The invariant, at the point the driver is at. -/
def KeptAt : DriverPoint → Prop
  | .submit _ g => m.generation = g
  | .accepted _ g | .resume _ g | .resumeRead _ g | .resumeClear _ g _ | .abnormal _ g =>
    m.generation = g ∧ b.set m.seen = false
  | .poll _ g _ p =>
    m.generation = g ∧ (p ≠ .readRintsts ∨ b.set m.seen = true → Fresh m) ∧
      (b.set m.seen = true → Around b m) ∧ PollKept b m p
  | _ => True

def Kept : Prop := KeptAt b m m.driver

/-! ## §2. Steps of the others. -/

variable {b : StatusBit} {m : Machine}

section Frame

variable {m m' : Machine}

/-- What the other parties leave as it is, or add to. -/
@[grind cases] structure Frame (b : StatusBit) (m m' : Machine) : Prop where
  fresh : Fresh m'
  around : Around b m → Around b m'
  snapshot : m.snapshotGeneration = m.generation → m'.snapshotGeneration = m'.generation
  bits : b.set m.bits = true → b.set m'.bits = true

theorem Frame.published (h : Frame b m m') (hp : Published b m) : Published b m' :=
  ⟨h.snapshot hp.1, h.bits hp.2⟩

theorem Read.frame {current : StatusWords} (h : Read b m current) (hf : Frame b m m')
    (hseen : m'.seen = m.seen) : Read b m' current := by
  refine ⟨fun hs => hf.around (h.1 hs), fun hs => ?_⟩
  rw [hseen] at hs
  exact (h.2 hs).imp_right hf.published

theorem PollKept.frame {p : PollPoint} (h : PollKept b m p) (hf : Frame b m m')
    (hseen : m'.seen = m.seen) : PollKept b m' p := by
  cases p with
  | readRintsts => trivial
  | readIdsts r => exact fun hk => (h hk).frame hf hseen
  | loadSnapshot current => exact Read.frame h hf hseen
  | loadRintsts current => exact ⟨hf.snapshot h.1, h.2.frame hf hseen⟩
  | loadIdsts current r =>
    refine ⟨hf.snapshot h.1, fun hs => hf.bits (h.2.1 hs), fun hs => hf.around (h.2.2.1 hs),
      fun hs => ?_⟩
    rw [hseen] at hs
    exact (h.2.2.2 hs).imp_right (·.imp_right (fun hb => ⟨hb.1, hf.bits hb.2⟩))
  | recheck current s =>
    refine ⟨hf.snapshot h.1, fun hs => hf.bits (h.2.1 hs), fun hs => hf.around (h.2.2.1 hs),
      fun hs => ?_⟩
    rw [hseen] at hs
    exact h.2.2.2 hs
  | done current snapshot =>
    refine ⟨fun hs => hf.around (h.1 hs), fun hs => ?_⟩
    rw [hseen] at hs
    exact h.2 hs

/-- **A step that is not the driver's** keeps the invariant. -/
theorem Kept.frame (h : Kept b m) (hdriver : m'.driver = m.driver)
    (hgen : m'.generation = m.generation) (hseen : m'.seen = m.seen)
    (hf : Fresh m → Frame b m m') : Kept b m' := by
  unfold Kept at h ⊢
  rw [hdriver]
  generalize hd : m.driver = q at h
  cases q with
  | submit t g => exact hgen.trans h
  | accepted t g | resume t g | resumeRead t g | resumeClear t g i | abnormal t g =>
    exact ⟨hgen.trans h.1, hseen ▸ h.2⟩
  | poll t g site p =>
    obtain ⟨hg, hfresh, haround, hp⟩ := h
    refine ⟨hgen.trans hg, fun hs => ?_, fun hs => ?_, ?_⟩
    · rw [hseen] at hs
      exact (hf (hfresh hs)).fresh
    · rw [hseen] at hs
      exact (hf (hfresh (.inr hs))).around (haround hs)
    · by_cases hstart : p = .readRintsts
      · rw [hstart]
        trivial
      · exact hp.frame (hf (hfresh (.inl hstart))) hseen
  | _ => trivial

theorem Frame.of_regs {regs : StatusWords} {history : List Happening} (hf : Fresh m)
    (h : b.set m.regs = true → b.set regs = true) : Frame b m { m with regs, history } :=
  ⟨hf, fun ha => ha.imp_left h, id, id⟩

end Frame

/-! ## §3. The handler. -/

section Handler

theorem Fresh.irq (h : Fresh m) : Fresh m.irq := by
  have hl := h.2
  unfold Machine.irq
  generalize m.handler = p at hl
  cases p with
  | idle | readIdsts r | flagError s | clearIdsts s | clearRintsts s | publish g =>
    exact ⟨h.1, nofun⟩
  | loadGeneration s =>
    refine ⟨h.1, fun g hg => ?_⟩
    simp only [h.1, if_false, HandlerPoint.loaded, Option.some.injEq] at hg
    exact hg.symm
  | orRintsts g s | orIdsts g s => exact ⟨h.1, hl⟩

theorem bits_irq (h : b.set m.bits = true) : b.set m.irq.bits = true := by
  unfold Machine.irq
  cases m.handler with
  | orRintsts g s =>
    cases b with
    | rintsts k =>
      show (m.bits.rintsts ||| s.rintsts).getLsbD k = true
      rw [BitVec.getLsbD_or, show m.bits.rintsts.getLsbD k = true from h, Bool.true_or]
    | idsts k => exact h
  | orIdsts g s =>
    cases b with
    | rintsts k => exact h
    | idsts k =>
      show (m.bits.idsts ||| s.idsts).getLsbD k = true
      rw [BitVec.getLsbD_or, show m.bits.idsts.getLsbD k = true from h, Bool.true_or]
  | _ => exact h

/-- Once the record is published for this transfer it stays so. -/
theorem snapshot_irq (hf : Fresh m) (h : m.snapshotGeneration = m.generation) :
    m.irq.snapshotGeneration = m.irq.generation := by
  have hl := hf.2
  unfold Machine.irq
  generalize m.handler = p at hl
  cases p with
  | publish g => exact hl g rfl
  | _ => exact h

/-- **The handler hands the bit on**: register, own hands, record. -/
theorem Around.irq (hf : Fresh m) (h : Around b m) : Around b m.irq := by
  rcases h with hr | hp | hh
  · -- a bit that the handler clears is a bit it has read
    unfold Machine.irq
    cases hm : m.handler with
    | clearIdsts s =>
      simp only
      split
      · rcases set_clearIdsts hr with hk | hk
        · exact .inl hk
        · exact .inr (.inr (set_of_idsts hk))
      · exact .inl hr
    | clearRintsts s =>
      simp only
      split
      · rcases set_clearRintsts hr with hk | hk
        · exact .inl hk
        · exact .inr (.inr (set_of_rintsts hk))
      · exact .inl hr
    | _ => exact .inl hr
  · exact .inr (.inl ⟨snapshot_irq hf hp.1, bits_irq hp.2⟩)
  · refine .inr ?_
    have hl := hf.2
    unfold Held at hh
    unfold Machine.irq
    generalize m.handler = p at hl hh
    cases p with
    | clearRintsts s => exact .inr hh
    | loadGeneration s =>
      refine .inr ?_
      simp only [Held, hf.1, if_false]
      exact hh
    | orRintsts g s =>
      refine .inr ?_
      cases b with
      | rintsts k =>
        refine .inl ?_
        show (m.bits.rintsts ||| s.rintsts).getLsbD k = true
        rw [BitVec.getLsbD_or, show s.rintsts.getLsbD k = true from hh, Bool.or_true]
      | idsts k => exact .inr hh
    | orIdsts g s =>
      refine .inr ?_
      cases b with
      | rintsts k =>
        rcases hh with hh | hh
        · exact hh
        · cases BitVec.getLsbD_zero.symm.trans hh
      | idsts k =>
        show (m.bits.idsts ||| s.idsts).getLsbD k = true
        rw [BitVec.getLsbD_or, Bool.or_eq_true]
        exact hh
    | publish g => exact .inl ⟨hl g rfl, hh⟩
    | _ => cases hh

theorem Kept.irq (h : Kept b m) : Kept b m.irq := by
  have hsame : m.irq.driver = m.driver ∧ m.irq.generation = m.generation ∧ m.irq.seen = m.seen := by
    unfold Machine.irq
    cases m.handler <;> exact ⟨rfl, rfl, rfl⟩
  exact h.frame hsame.1 hsame.2.1 hsame.2.2
    (fun hf => ⟨hf.irq, Around.irq hf, snapshot_irq hf, bits_irq⟩)

end Handler

/-! ## §4. The driver. -/

/-- The condition on a step: a poll reads a register only when the handler is
not between its first clear and its publication, and the generation is not
zero (`record_irq` drops what it finds then). -/
def calm (m : Machine) : Label → Bool
  | .run _ =>
    match m.driver with
    | .poll _ _ _ .readRintsts | .poll _ _ _ (.readIdsts _) =>
      !m.handler.holding && m.generation != 0
    | _ => true
  | _ => true

/-- The controller does not take the bit back: always so for an event. -/
def keeps (b : StatusBit) (m : Machine) : Label → Bool
  | .settle v => !b.set m.regs || b.set (m.regs.settle v)
  | _ => true

theorem keeps_of_isEvent {b : StatusBit} (hb : b.isEvent = true) (m : Machine) (l : Label) :
    keeps b m l = true := by
  cases l with
  | settle v =>
    simp only [keeps, set_settle hb]
    exact Bool.not_or_self _
  | _ => rfl

section Driver

/-- What a quiet handler means for a register that is read now. -/
theorem fresh_of_quiet (h : (!m.handler.holding && m.generation != 0) = true) :
    Fresh m ∧ ¬Held b m := by
  simp only [Bool.and_eq_true, Bool.not_eq_true', bne_iff_ne, ne_eq] at h
  cases hh : m.handler with
  | idle => exact ⟨⟨h.2, by rw [hh]; exact nofun⟩, by rw [Held, hh]; exact id⟩
  | readIdsts r | flagError s | clearIdsts s =>
    exact ⟨⟨h.2, by rw [hh]; exact nofun⟩, by rw [Held, hh]; exact id⟩
  | _ =>
    rw [hh] at h
    cases h.1

theorem read_of_quiet (hquiet : ¬Held b m) (haround : b.set m.seen = true → Around b m)
    {current : StatusWords} (hc : b.set current = b.set m.regs) : Read b m current := by
  refine ⟨fun hs => .inl (hc ▸ hs), fun hs => ?_⟩
  rcases haround hs with hr | hp | hh
  · exact .inl (hc.trans hr)
  · exact .inr hp
  · exact absurd hh hquiet

theorem Read.congr {s t : StatusWords} (h : Read b m s) (he : b.set s = b.set t) : Read b m t := by
  unfold Read at h ⊢
  rw [← he]
  exact h

/-- **A poll**, step by step. -/
theorem Kept.poll {t : Transfer} {g : BitVec 64} {site : PollSite} {p : PollPoint} {turn : Turn}
    (h : Kept b m) (hd : m.driver = .poll t g site p) (hok : calm m (.run turn) = true) :
    Kept b (m.poll t g site turn p) := by
  unfold Kept at h
  rw [hd] at h
  obtain ⟨hg, hfresh, haround, hp⟩ := h
  simp only [calm, hd] at hok
  cases p with
  | readRintsts =>
    obtain ⟨hf, hquiet⟩ := fresh_of_quiet (b := b) hok
    refine ⟨hg, fun _ => hf, haround, fun ⟨k, hk⟩ => ?_⟩
    exact read_of_quiet hquiet haround (by subst hk; rfl)
  | readIdsts r =>
    obtain ⟨hf, hquiet⟩ := fresh_of_quiet (b := b) hok
    refine ⟨hg, fun _ => hf, haround, ?_⟩
    cases b with
    | rintsts k =>
      have hread : Read (.rintsts k) m ⟨r, 0⟩ := hp ⟨k, rfl⟩
      exact hread.congr rfl
    | idsts k => exact read_of_quiet hquiet haround rfl
  | loadSnapshot current =>
    simp only [Machine.poll]
    split
    next heq => exact ⟨hg, fun _ => hfresh (.inl (by simp)), haround, heq.trans hg.symm, hp⟩
    next hne =>
      have hres : b.set (pollResult current none) = b.set current := by simp [pollResult]
      refine ⟨hg, fun _ => hfresh (.inl (by simp)), haround, fun hs => hp.1 (hres ▸ hs),
        fun hs => ?_⟩
      rw [hres]
      exact (hp.2 hs).resolve_right (fun hpub => hne (hpub.1.trans hg))
  | loadRintsts current =>
    refine ⟨hg, fun _ => hfresh (.inl (by simp)), haround, hp.1, fun hs => ?_, hp.2.1, fun hs => ?_⟩
    · cases b with
      | rintsts k => exact hs
      | idsts k => cases BitVec.getLsbD_zero.symm.trans hs
    · refine (hp.2.2 hs).imp_right (fun hpub => ?_)
      cases b with
      | rintsts k => exact .inl hpub.2
      | idsts k => exact .inr ⟨⟨k, rfl⟩, hpub.2⟩
  | loadIdsts current r =>
    refine ⟨hg, fun _ => hfresh (.inl (by simp)), haround, hp.1, fun hs => ?_, hp.2.2.1,
      fun hs => ?_⟩
    · cases b with
      | rintsts k => exact hp.2.1 hs
      | idsts k => exact hs
    refine (hp.2.2.2 hs).imp_right (fun hor => ?_)
    cases b with
    | rintsts k => exact hor.elim id (fun ⟨⟨_, hk⟩, _⟩ => nomatch hk)
    | idsts k =>
      rcases hor with hz | hk
      · cases BitVec.getLsbD_zero.symm.trans hz
      · exact hk.2
  | recheck current s =>
    have hres : b.set (pollResult current (some s)) = (b.set current || b.set s) := by
      simp [pollResult]
    -- the record has stayed published since the first load
    rw [Machine.poll, if_pos (hp.1.trans hg)]
    refine ⟨hg, fun _ => hfresh (.inl (by simp)), haround, fun hs => ?_, fun hs => ?_⟩
    · rw [hres, Bool.or_eq_true] at hs
      exact hs.elim hp.2.2.1 (fun hk => .inr (.inl ⟨hp.1, hp.2.1 hk⟩))
    · rw [hres, Bool.or_eq_true]
      exact hp.2.2.2 hs
  | done current snapshot =>
    simp only [Machine.poll]
    rcases afterPoll_cases t g site (pollResult current snapshot) m.errorFlag turn with
      ⟨site', he⟩ | ⟨abort, he⟩
    · rw [he]
      refine ⟨hg, fun _ => hfresh (.inl (by simp)), fun hs => ?_, trivial⟩
      rw [set_join, Bool.or_eq_true] at hs
      exact hp.1 (hs.elim hp.2 id)
    · rw [he]
      trivial

theorem Kept.run {turn : Turn} (h : Kept b m) (hok : calm m (.run turn) = true) :
    Kept b (m.run turn) := by
  have h' : KeptAt b m m.driver := h
  unfold Machine.run
  generalize hd : m.driver = q at h'
  cases q with
  | idle => exact h
  | faulted => exact h
  | staleIdsts t | idstsRead t =>
    simp only
    split <;> trivial
  | flagClear t => cases turn <;> trivial
  | fetchAdd t => exact rfl
  | submit t g => exact ⟨h', set_empty b⟩
  | accepted t g =>
    simp only
    split
    · exact h'
    · trivial
  | resume t g | resumeRead t g =>
    simp only
    split <;> exact h'
  | resumeClear t g i => exact h'
  | abnormal t g =>
    simp only
    split
    · trivial
    · -- the first poll: nothing has been seen
      refine ⟨h'.1, fun hs => ?_, fun hs => ?_, trivial⟩
      · exact hs.elim (absurd rfl) (fun hs => nomatch h'.2.symm.trans hs)
      · exact nomatch h'.2.symm.trans hs
  | poll t g site p => exact h.poll hd hok
  | finishClearIdsts abort i => cases abort <;> trivial
  | _ => trivial

theorem Kept.step {m' : Machine} (l : Label) (h : Kept b m) (hok : calm m l = true)
    (hkeep : keeps b m l = true) (hs : m.step l = some m') : Kept b m' := by
  cases l with
  | raise s =>
    cases hs
    refine h.frame rfl rfl rfl (fun hf => .of_regs hf (fun hset => ?_))
    rw [set_join, hset, Bool.true_or]
  | settle v =>
    cases hs
    refine h.frame rfl rfl rfl (fun hf => .of_regs hf (fun hset => ?_))
    simp only [keeps, hset, Bool.not_true, Bool.false_or] at hkeep
    exact hkeep
  | irq =>
    cases hs
    exact h.irq
  | begin t | plain =>
    obtain ⟨-, rfl⟩ := guard_eq_some hs
    trivial
  | run turn =>
    cases hs
    exact h.run hok

end Driver

/-! ## §5. An accepted transfer shows its terminal events. -/

/-- Every event of `s` is one of `s'`. -/
def Shows (s s' : StatusWords) : Prop := ∀ b : StatusBit, b.isEvent = true → b.set s = true →
  b.set s' = true

section Accepted

variable {s s' : StatusWords} {cmd : Cmd} {flag : Bool}

theorem shows_join_left (s t : StatusWords) : Shows s (s.join t) := by
  intro b _ hs
  rw [set_join, hs, Bool.true_or]

theorem shows_join_right (s t : StatusWords) : Shows t (s.join t) := by
  intro b _ hs
  rw [set_join, hs, Bool.or_true]

/-- The terminal events are events: more bits do not hide them. -/
theorem Shows.terminal (h : Shows s s') (ht : s.terminal cmd = true) : s'.terminal cmd = true := by
  simp only [StatusWords.terminal, terminalEvents, commandAnswered, autoStopDone, dmaDone,
    Bool.and_eq_true, Bool.or_eq_true] at ht ⊢
  obtain ⟨⟨⟨hcommand, hstop⟩, hdma⟩, hover⟩ := ht
  refine ⟨⟨⟨hcommand.imp_right (h (.rintsts 2) rfl), hstop.imp_right (h (.rintsts 14) rfl)⟩, ?_⟩,
    h (.rintsts 3) rfl hover⟩
  generalize hw : cmd.readWrite = p at hdma
  cases p with
  | true => exact h (.idsts 0) rfl hdma
  | false => exact h (.idsts 1) rfl hdma

theorem Shows.hasError (h : Shows s s') (he : s.hasError flag = true) :
    s'.hasError flag = true := by
  simp only [StatusWords.hasError, statusHasError, IdSts.abnormal, Bool.or_eq_true,
    RIntSts.error_eq_true] at he ⊢
  rcases he with (hflag | ⟨k, hk, hset⟩) | ((hais | hces) | hdu) | hfbe
  · exact .inl (.inl hflag)
  · exact .inl (.inr ⟨k, hk, h (.rintsts k) rfl hset⟩)
  · exact .inr (.inl (.inl (.inl (h (.idsts 9) rfl hais))))
  · exact .inr (.inl (.inl (.inr (h (.idsts 5) rfl hces))))
  · exact .inr (.inl (.inr (h (.idsts 4) rfl hdu)))
  · exact .inr (.inr (h (.idsts 2) rfl hfbe))

theorem hasError_flag (f : Bool) (he : s.hasError flag = true) : s.hasError (flag || f) = true := by
  cases flag with
  | false =>
    cases f with
    | false => exact he
    | true => rfl
  | true => exact he

/-- After the second wait the transfer has shown an error or its end; once the
last status is without error, its end. -/
def PollSite.accepted (seen : StatusWords) (flag : Bool) (cmd : Cmd) : PollSite → Prop
  | .terminalCheck false => seen.hasError flag = true ∨ seen.terminal cmd = true
  | .validate => seen.terminal cmd = true
  | _ => True

def DriverPoint.accepts (seen : StatusWords) (flag : Bool) : DriverPoint → Prop
  | .poll t _ site _ => site.accepted seen flag t.cmd
  | _ => True

/-- What the driver relies on has been seen. -/
def Accepted (m : Machine) : Prop := m.driver.accepts m.seen m.errorFlag

theorem accepts_flag {seen : StatusWords} {p : DriverPoint} (f : Bool)
    (h : p.accepts seen flag) : p.accepts seen (flag || f) := by
  cases p with
  | poll t g site q =>
    cases site with
    | terminalCheck timedOut =>
      cases timedOut with
      | false => exact h.imp_left (hasError_flag f)
      | true => trivial
    | validate => exact h
    | _ => trivial
  | _ => trivial

/-- The decision after a poll that shows all that was seen before. -/
theorem accepts_afterPoll {seen r : StatusWords} (t : Transfer) (g : BitVec 64)
    {site : PollSite} (turn : Turn) (h : site.accepted seen flag t.cmd) (hshows : Shows seen r) :
    (afterPoll t g site r flag turn).accepts (seen.join r) flag := by
  cases site with
  | command again =>
    simp only [afterPoll, resumeWait]
    repeat' split
    all_goals trivial
  | commandCheck =>
    simp only [afterPoll]
    split <;> trivial
  | terminal again =>
    simp only [afterPoll, resumeWait]
    split
    next hend =>
      -- an error or the end, in what has been seen from now on
      rw [Bool.or_eq_true] at hend
      exact hend.imp (shows_join_right _ _).hasError (shows_join_right _ _).terminal
    · repeat' split
      all_goals trivial
  | terminalCheck timedOut =>
    simp only [afterPoll]
    split
    · trivial
    next hok =>
      simp only [Bool.or_eq_true, not_or, Bool.not_eq_true] at hok
      obtain ⟨hin, hnoerror⟩ := hok
      subst hin
      refine (shows_join_left _ _).terminal ((h : _ ∨ _).resolve_left (fun he => ?_))
      cases hnoerror.symm.trans (hshows.hasError he)
  | validate => trivial
  | report => trivial

theorem Accepted.step {m m' : Machine} (l : Label) (h : Accepted m)
    (hkept : ∀ b : StatusBit, b.isEvent = true → Kept b m) (hs : m.step l = some m') :
    Accepted m' := by
  cases l with
  | raise s | settle v =>
    cases hs
    exact h
  | irq =>
    cases hs
    have hsame : m.irq.driver = m.driver ∧ m.irq.seen = m.seen ∧
        ∃ f, m.irq.errorFlag = (m.errorFlag || f) := by
      unfold Machine.irq
      cases m.handler with
      | flagError s => exact ⟨rfl, rfl, _, rfl⟩
      | _ => exact ⟨rfl, rfl, false, (Bool.or_false _).symm⟩
    obtain ⟨hdriver, hseen, f, hflag⟩ := hsame
    unfold Accepted
    rw [hdriver, hseen, hflag]
    exact accepts_flag f h
  | begin t | plain =>
    obtain ⟨-, rfl⟩ := guard_eq_some hs
    trivial
  | run turn =>
    cases hs
    unfold Accepted at h
    unfold Machine.run
    cases hd : m.driver with
    | poll t g site p =>
      rw [hd] at h
      cases p with
      | done current snapshot =>
        refine accepts_afterPoll t g turn h (fun b hb hset => ?_)
        have hk : KeptAt b m m.driver := hkept b hb
        rw [hd] at hk
        exact hk.2.2.2.2 hset
      | _ => exact h
    | abnormal t g =>
      simp only [firstSite]
      split
      · trivial
      · split <;> trivial
    | idle | faulted =>
      unfold Accepted
      trivial
    | staleIdsts t | idstsRead t | accepted t g | resume t g | resumeRead t g =>
      simp only
      split <;> trivial
    | flagClear t => cases turn <;> trivial
    | finishClearIdsts abort i => cases abort <;> trivial
    | _ => trivial

end Accepted

/-! ## §6. Runs. -/

/-- **Persistence.**  For every bit of the two registers, and every run in
which polls read the registers while the handler holds nothing back and the
controller does not itself take the bit away (it never takes back an event):
a poll returns the bit if an earlier poll of the transfer did.  And when
`validate_idmac_terminal` polls, no terminal event is missing. -/
theorem observed_events_persist (b : StatusBit) {m : Machine}
    (hr : Reach Machine.step (fun m l => calm m l = true ∧ keeps b m l = true) Machine.start m) :
    (∀ t g site current snapshot, m.driver = .poll t g site (.done current snapshot) →
        b.set m.seen = true → b.set (pollResult current snapshot) = true) ∧
      (∀ t g current snapshot, m.driver = .poll t g .validate (.done current snapshot) →
        (pollResult current snapshot).terminal t.cmd = true) := by
  have hstart : ∀ c : StatusBit, Kept c Machine.start := fun _ => trivial
  have haccepted : Accepted Machine.start := trivial
  have hkept : Kept b m := hr.invariant (Kept b) (hstart b)
    (fun _ l _ h hok => h.step l hok.1 hok.2)
  have hall : (∀ c : StatusBit, c.isEvent = true → Kept c m) ∧ Accepted m :=
    hr.invariant (fun m => (∀ c : StatusBit, c.isEvent = true → Kept c m) ∧ Accepted m)
      ⟨fun c _ => hstart c, haccepted⟩
      (fun m l _ h hok hs =>
        ⟨fun c hc => (h.1 c hc).step l hok.1 (keeps_of_isEvent hc m l) hs, h.2.step l h.1 hs⟩)
  refine ⟨fun t g site current snapshot hd hset => ?_, fun t g current snapshot hd => ?_⟩
  · unfold Kept at hkept
    rw [hd] at hkept
    exact hkept.2.2.2.2 hset
  have hseen : m.seen.terminal t.cmd = true := by
    have h := hall.2
    unfold Accepted at h
    rw [hd] at h
    exact h
  refine Shows.terminal (fun c hc hset => ?_) hseen
  have hk : KeptAt c m m.driver := hall.1 c hc
  rw [hd] at hk
  exact hk.2.2.2.2 hset

/-- The interrupt of a read is handled between two polls: the second finds the
end of the transfer in the record. -/
theorem handled_end_is_seen_again : ∃ m, Reach Machine.step
        (fun m l => calm m l = true ∧ keeps (.rintsts 3) m l = true) Machine.start m ∧
      m.driver = .poll .readOne 1 .validate (.done ⟨4, 0⟩ (some readEnd)) ∧
      (pollResult ⟨4, 0⟩ (some readEnd)).terminal Transfer.readOne.cmd = true := by
  obtain ⟨m, hr, hd⟩ := exists_reach_guarded Machine.step Machine.start
    (fun m l => calm m l && keeps (.rintsts 3) m l)
    (submission ++ [.raise readEnd] ++ List.replicate 19 (.run .fine) ++
      List.replicate 9 .irq ++ List.replicate 6 (.run .fine))
    (fun m => m.driver =
      .poll .readOne 1 .validate (.done ⟨4, 0⟩ (some readEnd))) (by decide +kernel)
    (fun _ _ => Bool.and_eq_true_iff.mp)
  exact ⟨m, hr, hd, (observed_events_persist (.rintsts 3) hr).2 _ _ _ _ hd⟩

/-- **The window.**  All polls of the wait have seen the end of the transfer;
the handler has cleared it and not published it when validation polls: the
events are missing, and a transfer that has ended well is aborted. -/
theorem cleared_events_are_missed :
    ∃ m current snapshot b, Reach Machine.step Always Machine.start m ∧
      m.driver = .poll .readOne 1 .validate (.done current snapshot) ∧
      StatusBit.set b m.seen = true ∧ StatusBit.set b (pollResult current snapshot) = false ∧
      m.seen.terminal Transfer.readOne.cmd = true ∧
      (pollResult current snapshot).terminal Transfer.readOne.cmd = false := by
  obtain ⟨m, hr, hd, hseen⟩ := exists_reach Machine.step Machine.start
    (submission ++ [.raise readEnd] ++ List.replicate 19 (.run .fine) ++
      List.replicate 5 .irq ++ List.replicate 3 (.run .fine))
    (fun m => m.driver = .poll .readOne 1 .validate (.done ⟨4, 0⟩ none) ∧
      m.seen = readEnd) (by decide +kernel)
  refine ⟨m, ⟨4, 0⟩, none, .rintsts 3, hr, hd, ?_, rfl, ?_, rfl⟩
  · rw [hseen]
    rfl
  · rw [hseen]
    rfl

end StarryOS.Sdmmc
