/-
  StarryOS.Task.WaitpidReaping — REAPED ONCE, NEVER MISSED.

  A child is in one place: among the children, in the hands of one call, or
  reaped (`places`).  `free` and the return of the pid only move it, so no pid is
  returned twice; this is `Reaping`.

  A call that sleeps has been told of every exit announced since it looked: it
  will look again, it has been woken, or it has registered and the announcement
  is still to come; this is `Waiting`.
-/
import StarryOS.Task.Waitpid

namespace StarryOS.Task.Waitpid

open Lib Threads Point List

/-! ## §1. One place for each child. -/

/-- The call has taken this child and not yet returned. -/
def frees (child : Nat) : Point → Nat
  | .copying call c _ => if c = child ∧ call.nowait = false then 1 else 0
  | _ => 0

/-- Every child is in at most one. -/
def places (w : World) (child : Nat) : Nat :=
  w.children.count child + w.threads.total (frees child) + w.reaped.count child

/-- What a call looks at is on its list. -/
def Point.Sound : Point → Prop
  | .returned _ => True
  | .scanning call rest _ => call.nowait = false ∧ rest ⊆ call.children
  | .found call child => call.nowait = false ∧ child ∈ call.children
  | .polling call | .copying call _ _ | .registering call _ | .parking call _
  | .parked call => call.nowait = false

/-- No child is taken twice. -/
@[grind cases] structure Reaping (w : World) : Prop where
  once : ∀ c, places w c ≤ 1
  known : ∀ c, 0 < places w c → ∃ child, w.procs.lookup c = some child
  listed : ∀ t call, (w.threads.pc t).call? = some call → ∀ c ∈ call.children,
    c ∈ w.children ∨ 0 < frees c (w.threads.pc t)
  sound : ∀ t, (w.threads.pc t).Sound
  unconsumed : w.consumed = []

variable {w w' : World} {t c child pgid : Nat} {p q : Point} {call : Call}

/-- One thread goes to `p`, and every child stays in one place.  Others keep what they
have on their lists. -/
theorem Reaping.goto (h : Reaping w) (hthreads : w'.threads = w.threads.goto t p)
    (hprocs : w'.procs = w.procs) (hconsumed : w'.consumed = w.consumed)
    (hplaces : ∀ c, places w' c = places w c) (hsound : p.Sound)
    (hself : ∀ call, p.call? = some call → ∀ c ∈ call.children, c ∈ w'.children ∨ 0 < frees c p)
    (hothers : ∀ u, u ≠ t → ∀ call, (w.threads.pc u).call? = some call → ∀ c ∈ call.children,
      c ∈ w.children → c ∈ w'.children) : Reaping w' := by
  have hpc : ∀ u, w'.threads.pc u = if u = t then p else w.threads.pc u := by
    intro u
    rw [hthreads, pc_goto]
  refine ⟨fun c => ?_, fun c hc => ?_, fun u call hcall c hc => ?_, fun u => ?_, ?_⟩
  · rw [hplaces c]
    exact h.once c
  · rw [hprocs]
    exact h.known c (hplaces c ▸ hc)
  · grind
  · rw [hpc]
    split
    · exact hsound
    · exact h.sound u
  · rw [hconsumed, h.unconsumed]

/-- Children, reaped pids and processes are left alone, and one thread goes on. -/
structure Moves (w : World) (t : Nat) (p : Point) (w' : World) : Prop where
  children : w'.children = w.children
  procs : w'.procs = w.procs
  threads : w'.threads = w.threads.goto t p
  reaped : w'.reaped = w.reaped
  consumed : w'.consumed = w.consumed

section

variable (h : Reaping w)
include h

/-- A thread that takes no child into its hands and gives none away. -/
theorem Reaping.move (hm : Moves w t p w')
    (hcarry : ∀ c, frees c p = frees c (w.threads.pc t)) (hsound : p.Sound)
    (hlisted : ∀ call, p.call? = some call → ∀ c ∈ call.children,
      c ∈ w.children ∨ 0 < frees c p) : Reaping w' := by
  have hplaces : ∀ c, places w' c = places w c := by
    intro c
    have hmove := total_goto (frees c) rfl w.threads t p
    rw [hcarry c] at hmove
    unfold places
    rw [hm.children, hm.reaped, hm.threads]
    omega
  refine h.goto hm.threads hm.procs hm.consumed hplaces hsound ?_ ?_
  · rw [hm.children]
    exact hlisted
  · rw [hm.children]
    exact fun _ _ _ _ _ _ hc => hc

/-- A call that looks at children has all of its list among the children. -/
theorem Reaping.mem_children (hpc : w.threads.pc t = q)
    (hcall : q.call? = some call) (hempty : ∀ c, frees c q = 0) (hc : c ∈ call.children) :
    c ∈ w.children := by grind

/-- A thread that goes from `q` to `p` within its call, empty-handed. -/
theorem Reaping.within (hpc : w.threads.pc t = q) (hm : Moves w t p w')
    (hsound : p.Sound) (hcall : p.call? = q.call? := by rfl)
    (hempty : ∀ c, frees c q = 0 := by exact fun _ => rfl)
    (hempty' : ∀ c, frees c p = 0 := by exact fun _ => rfl) : Reaping w' := by
  subst hpc
  refine h.move hm (fun c => (hempty' c).trans (hempty c).symm) hsound (fun call hp c hc => .inl ?_)
  exact h.mem_children rfl (hcall.symm.trans hp) hempty hc

/-- A call that returns from `q`, empty-handed. -/
theorem Reaping.leave {r : AxResult Nat} (hpc : w.threads.pc t = q)
    (hm : Moves w t (.returned r) w') (hempty : ∀ c, frees c q = 0) : Reaping w' := by
  subst hpc
  exact h.move hm (fun c => (hempty c).symm) trivial nofun

/-- `free`: a listed child goes into the hands of the one call that has it on its list. -/
theorem Reaping.free (hpc : w.threads.pc t = .found call child)
    (halone : ∀ u, (w.threads.pc u).lists child = true → u = t) (took : Bool) :
    Reaping { w.goto t (.copying call child took) with children := w.children.erase child } := by
  have hsound : (found call child).Sound := hpc ▸ h.sound t
  have hin : ∀ c ∈ call.children, c ∈ w.children :=
    fun _ hc => h.mem_children hpc rfl (fun _ => rfl) hc
  have hfree : ∀ c, frees c (.copying call child took) = if child = c then 1 else 0 := by
    intro c
    simp only [frees, hsound.1, and_true]
  refine h.goto rfl rfl rfl ?_ hsound.1 ?_ ?_
  · intro c
    have hmove := total_goto (frees c) rfl w.threads t (.copying call child took)
    rw [hpc, hfree c] at hmove
    simp only [frees, Nat.add_zero] at hmove
    unfold places World.goto
    rw [count_erase]
    by_cases hc : child = c
    · -- one less among the children, one more in hands
      subst hc
      have hpos : 0 < w.children.count child := count_pos_iff.mpr (hin child hsound.2)
      simp only [beq_self_eq_true, if_true] at hmove ⊢
      omega
    · simp only [beq_iff_eq, hc, if_false] at hmove ⊢
      omega
  · intro call' hcall c hc
    cases hcall
    rw [hfree c]
    by_cases he : child = c
    · -- the child itself is in the hands of this call
      rw [if_pos he]
      exact .inr Nat.one_pos
    · exact .inl ((mem_erase_of_ne (fun heq => he heq.symm)).mpr (hin c hc))
  · intro u hu call' hcall c hc hmem
    -- the others do not have this child on their lists
    have hne : c ≠ child := by
      intro he
      refine hu (halone u ?_)
      unfold lists
      rw [hcall]
      exact contains_iff_mem.mpr (he ▸ hc)
    exact (mem_erase_of_ne hne).mpr hmem

/-- The call returns the pid of the child in its hands. -/
theorem Reaping.reap {took : Bool} (hpc : w.threads.pc t = .copying call child took)
    {r : AxResult Nat} (hchildren : w'.children = w.children) (hprocs : w'.procs = w.procs)
    (hthreads : w'.threads = w.threads.goto t (.returned r))
    (hreaped : w'.reaped = child :: w.reaped) (hconsumed : w'.consumed = w.consumed) :
    Reaping w' := by
  have hsound : call.nowait = false := by
    have hs := h.sound t
    rwa [hpc] at hs
  have hplaces : ∀ c, places w' c = places w c := by
    intro c
    have hmove := total_goto (frees c) rfl w.threads t (.returned r)
    rw [hpc] at hmove
    simp only [frees, hsound, and_true, Nat.add_zero] at hmove
    unfold places
    grind
  refine h.goto hthreads hprocs hconsumed hplaces trivial nofun ?_
  rw [hchildren]
  exact fun _ _ _ _ _ _ hc => hc

theorem Reaping.procs {procs : Table Nat Child}
    (hkept : ∀ c child, w.procs.lookup c = some child → ∃ child', procs.lookup c = some child') :
    Reaping { w with procs := procs } := by
  refine ⟨h.once, fun c hc => ?_, h.listed, h.sound, h.unconsumed⟩
  obtain ⟨child, hchild⟩ := h.known c hc
  exact hkept c child hchild

end

theorem lookup_insert_kept (procs : Table Nat Child) (c : Nat) (new : Child) (c' : Nat)
    (child : Child) (h : procs.lookup c' = some child) :
    ∃ child', (procs.insert c new).lookup c' = some child' := by grind

theorem Reaping.addChild (h : Reaping w) (new : Child) (hnew : w.procs.lookup c = none) :
    Reaping { w with procs := w.procs.insert c new, children := c :: w.children } := by
  have hnone : places w c = 0 := by grind
  have hplaces : ∀ c', places
      { w with procs := w.procs.insert c new, children := c :: w.children } c'
        = places w c' + if c = c' then 1 else 0 := by
    intro c'
    unfold places
    simp only [count_cons, beq_iff_eq]
    omega
  refine ⟨fun c' => ?_, fun c' hc' => ?_, fun u call hcall c' hc' => ?_, h.sound, h.unconsumed⟩
  · grind
  · by_cases hc : c' = c
    · exact ⟨_, by rw [Table.lookup_insert, if_pos hc]⟩
    · grind
  · exact (h.listed u call hcall c' hc').imp_left (mem_cons_of_mem c)

theorem wake_wake (p : Point) : p.wake.wake = p.wake := by
  cases p <;> rfl

theorem wake_call (p : Point) : p.wake.call? = p.call? := by
  cases p <;> rfl

theorem frees_wake (c : Nat) (p : Point) : frees c p.wake = frees c p := by
  cases p <;> rfl

theorem Point.Sound.wake (h : p.Sound) : p.wake.Sound := by
  cases p with
  | parked call => exact h
  | _ => exact h

theorem pc_wakeAll (w : World) (u : Nat) : (w.threads.updateAll wake w.childExitEvent).pc u
      = if u ∈ w.childExitEvent then (w.threads.pc u).wake else w.threads.pc u :=
  pc_updateAll wake_wake w.childExitEvent w.threads u

theorem Reaping.wakeAll (h : Reaping w) :
    Reaping { w with
      threads := w.threads.updateAll wake w.childExitEvent
      childExitEvent := [] } := by
  have hplaces : ∀ c, places { w with
      threads := w.threads.updateAll wake w.childExitEvent
      childExitEvent := [] } c = places w c := by
    intro c
    unfold places
    rw [total_updateAll (frees c) rfl (frees_wake c)]
  have hpc : ∀ u, ∃ p, (w.threads.updateAll wake w.childExitEvent).pc u = p ∧
      p.call? = (w.threads.pc u).call? ∧ (∀ c, frees c p = frees c (w.threads.pc u)) ∧ p.Sound := by
    intro u
    refine ⟨_, pc_wakeAll w u, ?_⟩
    split
    · exact ⟨wake_call _, fun c => frees_wake c _, (h.sound u).wake⟩
    · exact ⟨rfl, fun _ => rfl, h.sound u⟩
  refine ⟨fun c => ?_, fun c hc => h.known c (hplaces c ▸ hc), fun u call hcall c hc => ?_,
    fun u => ?_, h.unconsumed⟩
  · rw [hplaces c]
    exact h.once c
  · obtain ⟨p, hp, hcall', hfrees, -⟩ := hpc u
    grind
  · obtain ⟨p, hp, -, -, hsound⟩ := hpc u
    show ((w.threads.updateAll _ _).pc u).Sound
    rw [hp]
    exact hsound

theorem careful_alone (hpc : w.threads.pc t = .found call child) (hok : careful w (.next t) = true)
    (u : Nat) (hu : (w.threads.pc u).lists child = true) : u = t := by
  have hmem := (mem_those (lists child) rfl w.threads u).mpr hu
  simp only [careful, hpc, all_eq_true, decide_eq_true_eq] at hok
  exact hok u hmem

/-! ## §2. Who sleeps has looked. -/

/-- Since it looked at this child, whose exit is announced, the call has been woken. -/
def Point.Aware (child : Nat) : Point → Prop
  | .scanning call rest woke => child ∈ call.children → child ∈ rest ∨ woke = true
  | .registering call woke | .parking call woke => child ∈ call.children → woke = true
  | .parked call => child ∉ call.children
  | _ => True

/-- Nothing but a wake brings the thread back. -/
def Point.sleeps : Point → Bool
  | .parking _ woke => !woke
  | .parked _ => true
  | _ => false

def World.Announced (w : World) (c : Nat) : Prop :=
  ∃ pgid, w.procs.lookup c = some ⟨pgid, .announced⟩

/-- No waiter overlooks a child. -/
@[grind cases] structure Waiting (w : World) : Prop where
  selected : ∀ t call, (w.threads.pc t).call? = some call → ∀ c ∈ w.children,
    w.selects call.pid c = true → c ∈ call.children
  aware : ∀ t c, w.Announced c → (w.threads.pc t).Aware c
  enrolled : ∀ t, (w.threads.pc t).sleeps = true → t ∈ w.childExitEvent

/-- One thread goes on; children may go, and registrations of others stay. -/
theorem Waiting.move (h : Waiting w) (hthreads : w'.threads = w.threads.goto t p)
    (hprocs : w'.procs = w.procs) (hchildren : ∀ c ∈ w'.children, c ∈ w.children)
    (hevent : ∀ u, u ≠ t → u ∈ w.childExitEvent → u ∈ w'.childExitEvent)
    (hcall : ∀ call, p.call? = some call → ∀ c ∈ w.children, w.selects call.pid c = true →
      c ∈ call.children) (haware : ∀ c, w.Announced c → p.Aware c)
    (hsleeps : p.sleeps = true → t ∈ w'.childExitEvent) : Waiting w' := by
  have hpc : ∀ u, w'.threads.pc u = if u = t then p else w.threads.pc u := by
    intro u
    rw [hthreads, pc_goto]
  have hselects : ∀ pid c, w'.selects pid c = w.selects pid c := by
    intro pid c
    unfold World.selects
    rw [hprocs]
  refine ⟨fun u call hu c hc hsel => ?_, fun u c hc => ?_, fun u hu => ?_⟩
  · grind
  · have hc : w.Announced c := by
      unfold World.Announced at hc ⊢
      rwa [hprocs] at hc
    rw [hpc]
    split
    · exact haware c hc
    · exact h.aware u c hc
  · grind

/-- A thread that goes from `q` to `p` within its call. -/
theorem Waiting.within (h : Waiting w) (hpc : w.threads.pc t = q) (hcall : p.call? = q.call?)
    (haware : ∀ c, w.Announced c → p.Aware c) (hsleeps : p.sleeps = true → t ∈ w.childExitEvent) :
    Waiting (w.goto t p) :=
  h.move rfl rfl (fun _ => id) (fun _ _ => id)
    (fun call hp => h.selected t call (by rw [hpc, ← hcall, hp])) haware hsleeps

theorem Waiting.leave (h : Waiting w) (r : AxResult Nat) : Waiting (w.ret t r) :=
  h.move rfl rfl (fun _ => id)
    (fun _ hu hin => mem_filter.mpr ⟨hin, decide_eq_true hu⟩) nofun
    (fun _ _ => trivial) nofun

theorem not_announced_of_not_zombie (h : ¬ w.isZombie c = true) : ¬ w.Announced c := by
  rintro ⟨pgid, hc⟩
  unfold World.isZombie at h
  rw [hc] at h
  exact h rfl

theorem selects_insert (w : World) (child : Nat) (new : Child) (pid : WaitPid) (c : Nat) :
    { w with procs := w.procs.insert child new }.selects pid c
      = if c = child then pid.apply child new.pgid else w.selects pid c := by
  unfold World.selects
  grind

/-- A child that stays in its group is selected as before. -/
theorem selects_insert_same {phase phase' : Phase}
    (hold : w.procs.lookup child = some ⟨pgid, phase⟩) (pid : WaitPid) :
    { w with procs := w.procs.insert child ⟨pgid, phase'⟩ }.selects pid c = w.selects pid c := by
  rw [selects_insert]
  unfold World.selects
  split
  next he => rw [he, hold]
  · rfl

theorem announced_insert {new : Child}
    (h : { w with procs := w.procs.insert child new }.Announced c) :
    c = child ∧ new.phase = .announced ∨ w.Announced c := by
  obtain ⟨pgid, hc⟩ := h
  rw [Table.lookup_insert] at hc
  split at hc
  next he =>
    cases hc
    exact .inl ⟨he, rfl⟩
  · exact .inr ⟨pgid, hc⟩

/-- A child that no call overlooks is new, or in a new group. -/
theorem Waiting.regroup (h : Waiting w) {new : Child}
    (hok : w.threads.any (overlooks child new.pgid) = false)
    (hann : new.phase = .announced → ∀ t, (w.threads.pc t).Aware child) {children : List Nat}
    (hchildren : ∀ c ∈ children, c = child ∨ c ∈ w.children) :
    Waiting { w with procs := w.procs.insert child new, children := children } := by
  refine ⟨fun t call hcall c hc hsel => ?_, fun t c hc => ?_, h.enrolled⟩
  · have hsel : (if c = child then call.pid.apply child new.pgid else w.selects call.pid c)
        = true := (selects_insert w child new call.pid c).symm.trans hsel
    split at hsel
    · have hno := eq_false_of_any rfl hok t
      unfold overlooks at hno
      grind
    next he => exact h.selected t call hcall c ((hchildren c hc).resolve_left he) hsel
  · rcases announced_insert (w := w) hc with ⟨he, hphase⟩ | hold
    · exact he ▸ hann hphase t
    · exact h.aware t c hold

/-- No call has listed a process that was not a child. -/
theorem Reaping.aware_of_new (h : Reaping w) (hnew : w.procs.lookup c = none) (t : Nat) :
    (w.threads.pc t).Aware c := by
  have hno : ∀ call, (w.threads.pc t).call? = some call → c ∉ call.children := by
    intro call hcall hin
    obtain ⟨old, hold⟩ : ∃ old, w.procs.lookup c = some old := by
      refine h.known c ?_
      unfold places
      rcases h.listed t call hcall c hin with hmem | hfrees
      · have := count_pos_iff.mpr hmem
        omega
      · have := le_total (frees c) rfl w.threads t
        omega
    rw [hnew] at hold
    cases hold
  generalize w.threads.pc t = p at hno
  cases p with
  | scanning call rest woke | registering call woke | parking call woke =>
    exact fun hin => absurd hin (hno call rfl)
  | parked call => exact hno call rfl
  | returned r | polling call | found call child | copying call child took => trivial

/-- `process.exit()`: the group stays, and nothing is announced yet. -/
theorem Waiting.exit (h : Waiting w) (hrun : w.procs.lookup child = some ⟨pgid, .running⟩) :
    Waiting { w with procs := w.procs.insert child ⟨pgid, .zombie⟩ } := by
  refine ⟨fun t call hcall c hc hsel => ?_, fun t c hc => ?_, h.enrolled⟩
  · rw [selects_insert_same hrun] at hsel
    exact h.selected t call hcall c hc hsel
  · rcases announced_insert hc with ⟨-, hphase⟩ | hold
    · cases hphase
    · exact h.aware t c hold

theorem aware_wake (p : Point) (c : Nat) : p.wake.Aware c := by
  cases p with
  | scanning call rest woke => exact fun _ => .inr rfl
  | registering call woke | parking call woke => exact fun _ => rfl
  | returned r | polling call | found call child | copying call child took | parked call => trivial

/-- Who has not registered, sleeps not, and has not passed the child, is aware of it. -/
theorem aware_of_not_passed (hpassed : p.passed c = false) (hsleeps : p.sleeps = false) :
    p.Aware c := by
  cases p with
  | scanning call rest woke =>
    intro hin
    grind [passed]
  | registering call woke =>
    intro hin
    grind [passed]
  | parking call woke =>
    intro _
    simpa only [sleeps, Bool.not_eq_false'] using hsleeps
  | parked call => cases hsleeps
  | returned r | polling call | found call child | copying call child took => trivial

theorem sleeps_wake (p : Point) : p.wake.sleeps = false := by
  cases p <;> rfl

/-- `child_exit_event.wake()`. -/
theorem Waiting.wakeAll (h : Waiting w) (hzombie : w.procs.lookup child = some ⟨pgid, .zombie⟩)
    (hok : careful w (.wake child) = true) :
    Waiting { w with
      procs := w.procs.insert child ⟨pgid, .announced⟩
      threads := w.threads.updateAll wake w.childExitEvent
      childExitEvent := [] } := by
  have hawake : ∀ u, u ∉ w.childExitEvent → (w.threads.pc u).sleeps = false := by grind
  have hpassed : ∀ u, u ∉ w.childExitEvent → (w.threads.pc u).passed child = false := by
    intro u hu
    by_contra hpass
    rw [Bool.not_eq_false] at hpass
    have hmem := (mem_those (passed child) rfl w.threads u).mpr hpass
    simp only [careful, all_eq_true, contains_iff_mem] at hok
    exact hu (hok u hmem)
  refine ⟨fun t call hcall c hc hsel => ?_, fun t c hc => ?_, fun t ht => ?_⟩
  · have hcall : (w.threads.pc t).call? = some call := by
      change ((w.threads.updateAll _ _).pc t).call? = _ at hcall
      rw [pc_wakeAll] at hcall
      grind [wake_call]
    exact h.selected t call hcall c hc ((selects_insert_same hzombie call.pid).symm.trans hsel)
  · show ((w.threads.updateAll _ _).pc t).Aware c
    rw [pc_wakeAll]
    split
    · exact aware_wake _ c
    next ht =>
      rcases announced_insert (w := w) hc with ⟨he, -⟩ | hold
      · exact he ▸ aware_of_not_passed (hpassed t ht) (hawake t ht)
      · exact h.aware t c hold
  · rw [pc_wakeAll] at ht
    split at ht
    · rw [sleeps_wake] at ht
      cases ht
    next hin =>
      rw [hawake t hin] at ht
      cases ht

/-! ## §3. Runs. -/

/-- A thread's own line; all but `free` leave it empty-handed as it was. -/
theorem advance_keeps (h : Reaping w) (hw : Waiting w) (hok : careful w (.next t) = true)
    (hs : w.advance t = some w') : Reaping w' ∧ Waiting w' := by
  have hsound := h.sound t
  have haware := hw.aware t
  have henrolled := hw.enrolled t
  unfold World.advance at hs
  generalize hpc : w.threads.pc t = p at hs hsound haware henrolled
  cases p with
  | returned r | copying call child took | parked call => cases hs
  | polling call =>
    cases hs
    exact ⟨h.within hpc ⟨rfl, rfl, rfl, rfl, rfl⟩ ⟨hsound, List.Subset.refl _⟩,
      hw.within hpc rfl (fun _ _ => .inl) nofun⟩
  | scanning call rest woke =>
    obtain ⟨hnowait, hsub⟩ := hsound
    cases rest with
    | nil =>
      simp only at hs
      split at hs
      · cases hs
        exact ⟨h.leave hpc ⟨rfl, rfl, rfl, rfl, rfl⟩ (fun _ => rfl), hw.leave _⟩
      · cases hs
        refine ⟨h.within hpc ⟨rfl, rfl, rfl, rfl, rfl⟩ hnowait,
          hw.within hpc rfl (fun c hc hin => ?_) nofun⟩
        exact (haware c hc hin).resolve_left not_mem_nil
    | cons child rest =>
      simp only at hs
      split at hs
      · cases hs
        exact ⟨h.within hpc ⟨rfl, rfl, rfl, rfl, rfl⟩ ⟨hnowait, hsub (.head _)⟩,
          hw.within hpc rfl (fun _ _ => trivial) nofun⟩
      rename_i hzombie
      cases hs
      refine ⟨h.within hpc ⟨rfl, rfl, rfl, rfl, rfl⟩
        ⟨hnowait, fun c hc => hsub (mem_cons_of_mem child hc)⟩,
        hw.within hpc rfl (fun c hc hin => ?_) nofun⟩
      -- what is announced is a zombie, so it is not the child just looked at
      have hne : c ≠ child := fun he => not_announced_of_not_zombie hzombie (he ▸ hc)
      exact (haware c hc hin).imp_left (mem_of_ne_of_mem hne)
  | found call child =>
    simp only [hsound.1, Bool.false_eq_true, if_false] at hs
    cases hs
    refine ⟨h.free hpc (careful_alone hpc hok) _, ?_⟩
    exact hw.move rfl rfl (fun _ => mem_of_mem_erase) (fun _ _ => id)
      (fun _ hp => hw.selected t _ (by rw [hpc]; exact hp)) (fun _ _ => trivial) nofun
  | registering call woke =>
    cases hs
    refine ⟨h.within hpc ⟨rfl, rfl, rfl, rfl, rfl⟩ hsound, ?_⟩
    exact hw.move rfl rfl (fun _ => id) (fun _ _ => mem_cons_of_mem t)
      (fun _ hp => hw.selected t _ (by rw [hpc]; exact hp)) haware (fun _ => (.head _))
  | parking call woke =>
    cases hs
    cases woke with
    | true =>
      exact ⟨h.within hpc ⟨rfl, rfl, rfl, rfl, rfl⟩ hsound,
        hw.within hpc rfl (fun _ _ => trivial) nofun⟩
    | false =>
      exact ⟨h.within hpc ⟨rfl, rfl, rfl, rfl, rfl⟩ hsound,
        hw.within hpc rfl (fun c hc hin => nomatch haware c hc hin) (fun _ => henrolled rfl)⟩

/-- A child is forked or adopted. -/
theorem addChild_keeps {new : Child} (h : Reaping w) (hw : Waiting w)
    (hok : w.threads.any (overlooks child new.pgid) = false) (hs : w.addChild child new = some w') :
    Reaping w' ∧ Waiting w' := by
  unfold World.addChild at hs
  split at hs
  · rename_i hnew
    cases hs
    exact ⟨h.addChild new hnew,
      hw.regroup hok (fun _ => h.aware_of_new hnew) (fun c => mem_cons.mp)⟩
  · cases hs

/-- **Every careful step keeps each child in one place and the sleepers informed.** -/
theorem step_keeps {e : Event} (h : Reaping w) (hw : Waiting w) (hok : careful w e = true)
    (hs : step w e = some w') : Reaping w' ∧ Waiting w' := by
  cases e with
  | call t pid nohang nowait exitCode =>
    simp only [step] at hs
    split at hs
    · rename_i r hpc
      cases hs
      unfold World.waitpid
      simp only
      split
      · exact ⟨h.leave hpc ⟨rfl, rfl, rfl, rfl, rfl⟩ (fun _ => rfl), hw.leave _⟩
      have hnowait : nowait = false := by simpa [careful] using hok
      constructor
      · refine h.move ⟨rfl, rfl, rfl, rfl, rfl⟩ (fun c => by rw [hpc]; rfl) hnowait ?_
        intro call hcall c hc
        cases hcall
        exact .inl (mem_of_mem_filter hc)
      · refine hw.move rfl rfl (fun _ => id) (fun _ _ => id) ?_ (fun _ _ => trivial) nofun
        intro call hcall c hc hsel
        cases hcall
        exact mem_filter.mpr ⟨hc, hsel⟩
    · cases hs
  | next t => exact advance_keeps h hw hok hs
  | interrupted t =>
    simp only [step] at hs
    split at hs
    · rename_i call hpc
      cases hs
      exact ⟨h.leave hpc ⟨rfl, rfl, rfl, rfl, rfl⟩ (fun _ => rfl), hw.leave _⟩
    · cases hs
  | write t fault =>
    simp only [step] at hs
    split at hs
    · rename_i call child took hpc
      have hwritten : (call.exitCode && fault) = false := by
        simpa only [careful, hpc, Bool.not_eq_true'] using hok
      have hnowait : call.nowait = false := by
        have hsound := h.sound t
        rwa [hpc] at hsound
      simp only [hwritten, hnowait, Bool.false_eq_true, if_false] at hs
      cases hs
      have hret := hw.leave (t := t) (.ok child)
      exact ⟨h.reap hpc rfl rfl rfl rfl rfl, hret.selected, hret.aware, hret.enrolled⟩
    · cases hs
  | unpark t =>
    simp only [step] at hs
    split at hs
    · rename_i call hpc
      cases hs
      have hsound := h.sound t
      rw [hpc] at hsound
      exact ⟨h.within hpc ⟨rfl, rfl, rfl, rfl, rfl⟩ hsound,
        hw.within hpc rfl (fun _ _ => trivial) nofun⟩
    · cases hs
  | fork child pgid | adopt child new => exact addChild_keeps h hw (by simpa [careful] using hok) hs
  | setpgid child pgid =>
    simp only [step] at hs
    split at hs
    · rename_i old hold
      cases hs
      refine ⟨h.procs (lookup_insert_kept w.procs child _),
        hw.regroup (by simpa [careful] using hok) (fun hphase t => hw.aware t child ⟨old.pgid, ?_⟩)
          (fun c => .inr)⟩
      rw [hold]
      exact congrArg some (congrArg (Child.mk old.pgid) hphase)
    · cases hs
  | exit child =>
    simp only [step] at hs
    split at hs
    · rename_i pgid hrun
      cases hs
      exact ⟨h.procs (lookup_insert_kept w.procs child _), hw.exit hrun⟩
    · cases hs
  | wake child =>
    simp only [step] at hs
    split at hs
    · rename_i pgid hzombie
      cases hs
      exact ⟨h.wakeAll.procs (lookup_insert_kept w.procs child _), hw.wakeAll hzombie hok⟩
    · cases hs

theorem start_reaping (pgid : Nat) : Reaping (.start pgid) :=
  ⟨fun _ => Nat.zero_le 1, fun _ h => absurd h (Nat.lt_irrefl 0), fun _ _ h => (nomatch h),
    fun _ => trivial, rfl⟩

theorem start_waiting (pgid : Nat) : Waiting (.start pgid) :=
  ⟨fun _ _ h => (nomatch h), fun _ _ _ => trivial, fun _ h => (nomatch h)⟩

/-- **Careful runs reap each child once and miss none**: no pid is returned twice, no call that
returned an error has taken a child, and no thread stays parked while a child it would select is
a zombie whose exit has been announced. -/
theorem children_are_reaped_once (pgid : Nat) (w : World)
    (hr : Reach step (fun w e => careful w e = true) (.start pgid) w) :
    w.reaped.Nodup ∧ w.consumed = [] ∧ ∀ t, ¬ w.Misses t := by
  obtain ⟨hreaping, hwaiting⟩ := hr.invariant (fun w => Reaping w ∧ Waiting w)
    ⟨start_reaping pgid, start_waiting pgid⟩ (fun _ _ _ h => step_keeps h.1 h.2)
  refine ⟨nodup_iff_count_le_one.mpr (fun c => ?_), hreaping.unconsumed, ?_⟩
  · have honce := hreaping.once c
    unfold places at honce
    omega
  rintro t ⟨call, child, group, hpc, hin, hchild, happly⟩
  have hselects : w.selects call.pid child = true := by
    unfold World.selects
    rw [hchild]
    exact happly
  have hlisted := hwaiting.selected t call (by rw [hpc]; rfl) child hin hselects
  have haware := hwaiting.aware t child ⟨group, hchild⟩
  rw [hpc] at haware
  exact haware hlisted

/-- Thread 0 waits for any child, is woken by the exit of child 2 and reaps it.  Then it reaps
child 3, which is a zombie when it is adopted. -/
def carefulRun : List Event :=
  [.fork 2 1, .call 0 (-1) false false true, .next 0, .next 0, .next 0, .next 0, .next 0,
    .exit 2, .wake 2, .next 0, .next 0, .next 0, .write 0 false, .adopt 3 ⟨5, .announced⟩,
    .call 0 (-1) false false false, .next 0, .next 0, .next 0, .write 0 false]

theorem children_are_reaped_once_run :
    ∃ w, Reach step (fun w e => careful w e = true) (.start 1) w ∧ w.reaped = [3, 2] ∧
      w.reaped.Nodup ∧ w.consumed = [] ∧ ∀ t, ¬ w.Misses t := by
  obtain ⟨w, hr, hc⟩ := exists_reach_guarded step
    (.start 1) careful carefulRun (fun w => w.reaped = [3, 2]) (by decide +kernel)
  exact ⟨w, hr, hc, children_are_reaped_once 1 w hr⟩

/-- Two threads list child 2 before it exits. -/
def twoWaiters : List Event :=
  [.fork 2 1, .call 0 (-1) false false false, .call 1 (-1) false false false, .exit 2, .wake 2,
    .next 0, .next 0, .next 0, .write 0 false, .next 1, .next 1, .next 1, .write 1 false]

/-- The status of child 2 goes to a pointer that faults. -/
def faultingStatus : List Event :=
  [.fork 2 1, .exit 2, .wake 2, .call 0 (-1) false false true, .next 0, .next 0, .next 0,
    .write 0 true]

/-- Child 2 exits between the look at it and the registration. -/
def lateRegistration : List Event :=
  [.fork 2 1, .call 0 (-1) false false false, .next 0, .next 0, .next 0, .exit 2, .wake 2,
    .next 0, .next 0]

/-- Child 3 is forked while thread 0 waits for any child. -/
def newChild : List Event :=
  [.fork 2 1, .call 0 (-1) false false false, .next 0, .next 0, .next 0, .next 0, .next 0,
    .fork 3 1, .exit 3, .wake 3, .next 0, .next 0, .next 0, .next 0, .next 0]

/-- Thread 0 is parked in a call for any child, and this child is a zombie nobody has taken. -/
def missesChild (child : Nat) (w : World) : Bool :=
  match w.threads.pc 0 with
  | .parked call => decide (call.pid = .any) && w.children.contains child
      && decide (w.procs.lookup child = some ⟨1, .announced⟩)
  | _ => false

theorem misses_of_missesChild (h : missesChild child w = true) : w.Misses 0 := by
  unfold missesChild at h
  split at h
  · rename_i call hpc
    simp only [Bool.and_eq_true, decide_eq_true_eq, contains_iff_mem] at h
    obtain ⟨⟨hany, hin⟩, hchild⟩ := h
    exact ⟨call, child, 1, hpc, hin, hchild, by rw [hany]; rfl⟩
  · cases h

/-- **Reaped twice, consumed by an error, and missed.**  (a) Two threads return pid 2.  (b) The
call fails with `EFAULT` and child 2 is gone.  (c) and (d) Thread 0 is parked while a child it
waits for is a zombie. -/
theorem children_reaped_twice_or_missed :
    (∃ w, Reach step Always (.start 1) w ∧ w.reaped = [2, 2]) ∧
    (∃ w, Reach step Always (.start 1) w ∧ w.consumed = [2] ∧ w.children = []) ∧
    (∃ w, Reach step Always (.start 1) w ∧ w.children = [2] ∧ w.Misses 0) ∧
    (∃ w, Reach step Always (.start 1) w ∧ w.children = [3, 2] ∧ w.Misses 0) := by
  refine ⟨?_, ?_, ?_, ?_⟩
  · exact exists_reach step (.start 1) twoWaiters
      (fun w => w.reaped = [2, 2]) (by decide +kernel)
  · exact exists_reach step (.start 1) faultingStatus
      (fun w => w.consumed = [2] ∧ w.children = []) (by decide +kernel)
  · obtain ⟨w, hr, hc⟩ := exists_reach step (.start 1) lateRegistration
      (fun w => w.children = [2] ∧ missesChild 2 w) (by decide +kernel)
    exact ⟨w, hr, hc.1, misses_of_missesChild hc.2⟩
  · obtain ⟨w, hr, hc⟩ := exists_reach step (.start 1) newChild
      (fun w => w.children = [3, 2] ∧ missesChild 3 w) (by decide +kernel)
    exact ⟨w, hr, hc.1, misses_of_missesChild hc.2⟩

end StarryOS.Task.Waitpid
