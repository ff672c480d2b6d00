/-
  StarryOS.File.EpollReadiness — NO READINESS IS LOST (`register_waker_only`,
  `check_and_register_waker`, `poll_events` and `InterestWaker::wake_by_ref` of
  `kernel/src/file/epoll.rs`).

  A file that becomes ready changes its state and then, in a second step, wakes
  the wakers that are registered AT THAT MOMENT; they are taken out of its set
  and called one by one:

      raise     events of a file become ready
      notify    its wakers for these events are taken out
      fire      one of them runs `wake_by_ref`

  `check_and_register_waker` polls again after it has registered.
  `register_waker_only` does not: between the poll of `consume` and the
  registration nobody listens (`ready_file_is_not_queued`).  As long as no file
  becomes ready in that window, and `modify` finds its interest unqueued, an
  interest whose file is ready is always on the way to the queue, and in a
  quiescent state it is there (`epoll_never_loses_readiness`).
-/
import StarryOS.File.EpollPoll

namespace StarryOS.File

open Lib Threads EpollInner

/-! ## §1. Files that become ready. -/

/-- A monitored file. -/
structure FileState where
  /-- `Weak::upgrade` of the file succeeds. -/
  isOpen : Bool
  /-- What `poll` answers. -/
  events : UInt32

/-- An epoll instance and the files. -/
structure Monitored where
  inner : EpollInner
  files : Nat → FileState
  /-- Files that have become ready and have not looked at their wakers yet. -/
  notices : List (Nat × UInt32)
  /-- Wakers that were taken out of the set of a file and not called yet. -/
  pending : List Nat
  /-- The interests that were reported since their file last became ready for them. -/
  reported : List Nat

/-- The interest is about these events of this file. -/
def EpollInner.wants (st : EpollInner) (file : Nat) (bits : UInt32) (id : Nat) : Bool :=
  st.objects[id]?.any (fun interest =>
    interest.key.file == file && interest.event.events &&& bits != 0)

/-- The event that is reported, if one is. -/
def ConsumeResult.event : ConsumeResult → Option EpollEvent
  | .eventAndKeep event => some event
  | .eventAndRemove event => some event
  | .noEvent => none

/-- The interest stays in the queue. -/
def ConsumeResult.keeps : ConsumeResult → Bool
  | .eventAndKeep _ => true
  | _ => false

namespace Monitored

variable (m : Monitored)

def setFile (file : Nat) (s : FileState) : Monitored :=
  { m with files := fun f => if f = file then s else m.files f }

/-- Events become ready, or ready once more: the reports of before do not count for them. -/
def raise (file : Nat) (bits : UInt32) : Monitored :=
  { m.setFile file { m.files file with events := (m.files file).events ||| bits } with
    notices := (file, bits) :: m.notices
    reported := m.reported.filter (fun id => !m.inner.wants file bits id) }

/-- The file takes out the wakers for events that have become ready. -/
def notify (file : Nat) (bits : UInt32) : Monitored :=
  { m with
    notices := m.notices.erase (file, bits)
    pending := m.inner.wakers.filter (m.inner.wants file bits) ++ m.pending
    inner := { m.inner with
      wakers := m.inner.wakers.filter (fun id => !m.inner.wants file bits id) } }

/-- What the file says to a thread at this point.  At `recheck` the thread still has the file
that it polled before. -/
def answer : EpollPoint → Option UInt32
  | .check id | .held id _ _ | .rearm id _ _ =>
    m.inner.objects[id]?.bind (fun interest =>
      if (m.files interest.key.file).isOpen then some (m.files interest.key.file).events else none)
  | .recheck id => m.inner.objects[id]?.map (fun interest => (m.files interest.key.file).events)
  | _ => none

/-- The interest that `consume` reports at this point. -/
def reports (p : EpollPoint) : List Nat :=
  match p with
  | .held id _ _ =>
    match m.inner.objects[id]?, m.answer p with
    | some interest, some current => if (interest.consume current).1.event.isSome then [id] else []
    | _, _ => []
  | _ => []

end Monitored

/-- What may happen to an epoll and its files. -/
inductive ReadyOp where
  /-- A thread begins `add`, `modify`, `delete` or `poll_events`. -/
  | call (op : EpollOp)
  /-- A thread takes the next step of its call. -/
  | advance (t : Nat)
  | raise (file : Nat) (bits : UInt32)
  /-- They are no longer ready. -/
  | lower (file : Nat) (bits : UInt32)
  | close (file : Nat)
  | notify (file : Nat) (bits : UInt32)
  /-- A waker is called for another reason. -/
  | spurious (id : Nat)
  /-- Thread `t` calls a waker that was taken out. -/
  | fire (t id : Nat)

namespace Monitored

def step (m : Monitored) : ReadyOp → Option Monitored
  | .call op =>
    match op with
    | .advance _ _ => none
    | .wake _ _ => none
    | op => (epollStep m.inner op).map (fun inner => { m with inner := inner })
  | .advance t =>
    let p := m.inner.threads.pc t
    (m.inner.advance t (m.answer p) p).map (fun inner =>
      { m with inner := inner, reported := m.reports p ++ m.reported })
  | .raise file bits =>
    if (m.files file).isOpen then some (m.raise file bits) else none
  | .lower file bits =>
    some (m.setFile file { m.files file with events := (m.files file).events &&& ~~~bits })
  | .close file => some (m.setFile file { m.files file with isOpen := false })
  | .notify file bits =>
    if (file, bits) ∈ m.notices then some (m.notify file bits) else none
  | .spurious id =>
    if id ∈ m.inner.wakers then
      some { m with
        pending := id :: m.pending
        inner := { m.inner with wakers := m.inner.wakers.erase id } }
    else none
  | .fire t id =>
    if id ∈ m.pending ∧ (m.inner.threads.pc t).atRest = true then
      some { m with pending := m.pending.erase id, inner := m.inner.wake t id }
    else none

def start (files : Nat → FileState) : Monitored := ⟨newEpoll, files, [], [], []⟩

/-- No call, no wake-up and no notice is in progress. -/
def Quiescent (m : Monitored) : Prop := m.inner.Idle ∧ m.notices = [] ∧ m.pending = []

/-- **A registered, enabled interest whose file is ready for it is in the ready queue**, or
it is not level-triggered and was reported since the file last became ready. -/
def NoneLost (m : Monitored) : Prop :=
  ∀ key id interest, m.inner.interests.lookup key = some id →
    m.inner.objects[id]? = some interest → interest.mode.isEnabled = true →
    (m.files interest.key.file).isOpen = true →
    (m.files interest.key.file).events &&& interest.event.events ≠ 0 →
    id ∈ m.inner.readyQueue ∨ (interest.mode.isLevel = false ∧ id ∈ m.reported)

end Monitored

/-! ## §2. On the way to the queue. -/

namespace EpollPoint

/-- The interest that the thread will bring to the queue, if its file is ready. -/
def brings : EpollPoint → Option Nat
  | .check id => some id
  | .arm id => some id
  | .waking id => some id
  | .marked id => some id
  | .popped id _ _ => some id
  | .held id _ _ => some id
  | .keep id _ _ => some id
  | _ => none

/-- `consume` is done, `register_waker_only` is not. -/
def settles : EpollPoint → Option Nat
  | .remove id _ _ => some id
  | .rearm id _ _ => some id
  | _ => none

/-- The interest in the hands of the thread. -/
def inHand (p : EpollPoint) : Option Nat := p.brings.or p.settles

theorem inHand_of {p : EpollPoint} {id : Nat} (h : p.brings = some id ∨ p.settles = some id) :
    p.inHand = some id := by
  rcases h with h | h
  · unfold inHand
    rw [h]
    rfl
  · cases p with
    | remove _ _ _ => exact h
    | rearm _ _ _ => exact h
    | _ => cases h

/-- The interest that is polled once more. -/
def rechecks : EpollPoint → Option Nat
  | .recheck id => some id
  | _ => none

/-- The interest that is dropped. -/
def closes : EpollPoint → Option Nat
  | .closing id _ _ => some id
  | _ => none

end EpollPoint

namespace Monitored

variable (m : Monitored)

/-- The file is not ready for the interest, or this was reported already. -/
def Covered (id file : Nat) (mask : UInt32) (level : Bool) : Prop :=
  (m.files file).events &&& mask = 0 ∨ (level = false ∧ id ∈ m.reported)

/-- **Where the readiness of an interest is.** -/
inductive Progress (id file : Nat) (mask : UInt32) (level : Bool) : Prop
  | queued (h : id ∈ m.inner.readyQueue)
  | fired (h : id ∈ m.pending)
  | brought (t : Nat) (h : (m.inner.threads.pc t).brings = some id)
  /-- The interest has just been consumed. -/
  | settling (t : Nat) (h : (m.inner.threads.pc t).settles = some id)
  /-- The waker is registered and the file will be asked again. -/
  | rechecked (hw : id ∈ m.inner.wakers) (t : Nat) (h : (m.inner.threads.pc t).rechecks = some id)
  /-- The waker is registered and the file has not become ready since. -/
  | listening (hw : id ∈ m.inner.wakers) (h : m.Covered id file mask level)
  /-- The waker is registered and the file will look for it. -/
  | noticed (hw : id ∈ m.inner.wakers) (bits : UInt32) (h : (file, bits) ∈ m.notices)
      (hm : mask &&& bits ≠ 0)

/-- **The invariant.** -/
@[grind cases] structure Attentive : Prop where
  accounted : m.inner.Accounted
  mapped : m.inner.Mapped
  progress : ∀ key id k event level, m.inner.interests.lookup key = some id →
    m.inner.watch id = some (k, event, level) → m.inner.enabled id = true →
    (m.files k.file).isOpen = true → m.Progress id k.file event.events level
  /-- Nothing has become ready since an interest was consumed. -/
  settled : ∀ t id k event level, (m.inner.threads.pc t).settles = some id →
    m.inner.watch id = some (k, event, level) → m.inner.enabled id = true →
    (m.files k.file).isOpen = true → m.Covered id k.file event.events level
  closed : ∀ t id k event level, (m.inner.threads.pc t).closes = some id →
    m.inner.watch id = some (k, event, level) → (m.files k.file).isOpen = false
  known : ∀ t id, (m.inner.threads.pc t).settles = some id
    ∨ (m.inner.threads.pc t).closes = some id → m.inner.watch id ≠ none

/-- The steps that lose nothing: a file does not become ready for an interest that was
consumed and whose waker is not registered yet, and `modify` finds its interest unqueued. -/
def heeds : ReadyOp → Bool
  | .raise file bits => !m.inner.threads.any (fun p => p.settles.any (m.inner.wants file bits))
  | .call (.modify _ fd (some file) _ _) =>
    (m.inner.interests.lookup ⟨fd, file⟩).all (fun old => m.inner.flag old != some true)
  | _ => true

/-! ## §3. A thread takes a step. -/

/-- The instance after a step inside a call that has reported `r`. -/
def moved (st' : EpollInner) (r : List Nat) : Monitored :=
  { m with inner := st', reported := r ++ m.reported }

/-- A registered interest that is enabled in `st'`, and whose file is open. -/
@[grind cases] structure Live (st' : EpollInner) (id : Nat) (k : EntryKey)
    (event : EpollEvent) (level : Bool) : Prop where
  registered : ∃ key, m.inner.interests.lookup key = some id
  watch : m.inner.watch id = some (k, event, level)
  enabled : st'.enabled id = true
  isOpen : (m.files k.file).isOpen = true

section Move

variable {m : Monitored} {st st' : EpollInner} {t : Nat} {p q : EpollPoint} {r : List Nat}
    {id file len : Nat} {mask : UInt32} {level : Bool} {k : EntryKey} {event : EpollEvent}
    {interest : EpollInterest} {out : List EpollEvent}

theorem Covered.moved (h : m.Covered id file mask level) :
    (m.moved st' r).Covered id file mask level := by
  rcases h with h | ⟨hlevel, h⟩
  · exact .inl h
  · exact .inr ⟨hlevel, List.mem_append_right _ h⟩

/-- What the other threads, the queue and the wakers say of an interest stays said. -/
theorem Progress.move (h : m.Progress id file mask level) (hpc : m.inner.threads.pc t = q)
    (ht : st'.threads = m.inner.threads.goto t p)
    (hqueue : id ∈ m.inner.readyQueue → id ∈ st'.readyQueue ∨ p.brings = some id)
    (hwakers : ∀ j ∈ m.inner.wakers, j ∈ st'.wakers)
    (hown : q.inHand = some id → (m.moved st' r).Progress id file mask level)
    (hrecheck : id ∈ m.inner.wakers → q.rechecks = some id →
      (m.moved st' r).Progress id file mask level) :
    (m.moved st' r).Progress id file mask level := by
  subst hpc
  have hother : ∀ u, u ≠ t → st'.threads.pc u = m.inner.threads.pc u := by
    intro u hu
    rw [ht, pc_goto, if_neg hu]
  have hself : st'.threads.pc t = p := by rw [ht, pc_goto, if_pos rfl]
  cases h with
  | queued h =>
    rcases hqueue h with h | h
    · exact .queued h
    · exact .brought t (hself.symm ▸ h)
  | fired h => exact .fired h
  | brought u h =>
    by_cases hu : u = t
    · exact hown (EpollPoint.inHand_of (.inl (hu ▸ h)))
    · exact .brought u ((hother u hu).symm ▸ h)
  | settling u h =>
    by_cases hu : u = t
    · exact hown (EpollPoint.inHand_of (.inr (hu ▸ h)))
    · exact .settling u ((hother u hu).symm ▸ h)
  | rechecked hw u h =>
    by_cases hu : u = t
    · exact hrecheck hw (hu ▸ h)
    · exact .rechecked (hwakers id hw) u ((hother u hu).symm ▸ h)
  | listening hw h => exact .listening (hwakers id hw) h.moved
  | noticed hw bits h hm => exact .noticed (hwakers id hw) bits h hm

section

variable (h : m.Attentive) (hacc : st'.Accounted) (hframe : Frame m.inner st')
  (hpc : m.inner.threads.pc t = q) (ht : st'.threads = m.inner.threads.goto t p)
  (hqueue : ∀ id ∈ m.inner.readyQueue, id ∈ st'.readyQueue ∨ p.brings = some id)
  (hwakers : ∀ id ∈ m.inner.wakers, id ∈ st'.wakers)
  (hown : ∀ id k event level, q.inHand = some id → m.Live st' id k event level →
    (m.moved st' r).Progress id k.file event.events level)
include h hacc hframe hpc ht hqueue hwakers hown

/-- **One thread moves from `q` to `p`.**  What remains to be said is about the interest in its
hands, before and after. -/
theorem Attentive.move
    (hrecheck : ∀ id k event level, q.rechecks = some id → m.Live st' id k event level →
      id ∈ m.inner.wakers → (m.moved st' r).Progress id k.file event.events level)
    (hsettles : ∀ id k event level, p.settles = some id →
      m.inner.watch id = some (k, event, level) → st'.enabled id = true →
      (m.files k.file).isOpen = true → (m.moved st' r).Covered id k.file event.events level)
    (hcloses : ∀ id k event level, p.closes = some id → m.inner.watch id = some (k, event, level) →
      (m.files k.file).isOpen = false)
    (hknown : ∀ id, p.settles = some id ∨ p.closes = some id → m.inner.watch id ≠ none) :
    (m.moved st' r).Attentive := by
  refine ⟨hacc, h.mapped.frame hframe, ?_, ?_, ?_, ?_⟩
  · intro key id k event level hlookup hwatch henabled hopen
    have hlookup := hframe.map key id hlookup
    rw [moved, hframe.watch id] at hwatch
    have hlive : m.Live st' id k event level := ⟨⟨key, hlookup⟩, hwatch, henabled, hopen⟩
    have hold := h.progress key id k event level hlookup hwatch (hframe.enabled id henabled) hopen
    exact hold.move hpc ht (hqueue id) hwakers (fun hq => hown id k event level hq hlive)
      (fun hw hq => hrecheck id k event level hq hlive hw)
  all_goals intro u id
  · intro k event level hu hwatch henabled hopen
    rw [moved, hframe.watch id] at hwatch
    simp only [moved, ht, pc_goto] at hu
    split at hu
    · exact hsettles id k event level hu hwatch henabled hopen
    · exact (h.settled u id k event level hu hwatch (hframe.enabled id henabled) hopen).moved
  · intro k event level hu hwatch
    rw [moved, hframe.watch id] at hwatch
    simp only [moved, ht, pc_goto] at hu
    split at hu
    · exact hcloses id k event level hu hwatch
    · exact h.closed u id k event level hu hwatch
  · intro hu
    rw [moved]
    grind [moved]

/-- A step to a point that neither settles nor closes. -/
theorem Attentive.pass (hp : p.settles = none ∧ p.closes = none)
    (hrecheck : q.rechecks = none ∨ ∀ id k event level, q.rechecks = some id →
      m.Live st' id k event level → id ∈ m.inner.wakers →
      (m.moved st' r).Progress id k.file event.events level) : (m.moved st' r).Attentive := by
  refine h.move hacc hframe hpc ht hqueue hwakers hown ?_ ?_ ?_ ?_
  · rcases hrecheck with hnone | hrecheck
    · simp only [hnone, reduceCtorEq, false_implies, implies_true]
    · exact hrecheck
  all_goals simp only [hp, reduceCtorEq, false_implies, implies_true, or_self]

end

/-- The thread has arrived at a point that brings the interest. -/
theorem brought_by (ht : st'.threads = m.inner.threads.goto t p) (hp : p.brings = some id) :
    (m.moved st' r).Progress id file mask level := by
  refine .brought t ?_
  show (st'.threads.pc t).brings = some id
  rw [ht, pc_goto, if_pos rfl]
  exact hp

theorem watch_iff :
    st.watch id = some (k, event, level) ↔ ∃ interest, st.objects[id]? = some interest
      ∧ interest.key = k ∧ interest.event = event ∧ interest.mode.isLevel = level := by
  unfold watch
  rw [Option.map_eq_some_iff]
  simp only [Prod.mk.injEq]

section

variable (hobj : st.objects[id]? = some interest)
include hobj

theorem watch_of_object : st.watch id ≠ none := by
  unfold watch
  rw [hobj]
  exact Option.some_ne_none _

theorem enabled_of_object : st.enabled id = interest.mode.isEnabled := by
  unfold enabled
  rw [hobj]
  rfl

theorem object_unique (hwatch : st.watch id = some (k, event, level)) :
    interest.key = k ∧ interest.event = event ∧ interest.mode.isLevel = level := by
  grind [watch_iff]

end

theorem answer_open {m : Monitored} {p : EpollPoint}
    (hp : p = .check id ∨ (∃ out len, p = .held id out len) ∨ ∃ out len, p = .rearm id out len)
    (hobj : m.inner.objects[id]? = some interest) :
    m.answer p = if (m.files interest.key.file).isOpen then some (m.files interest.key.file).events
      else none := by
  rcases hp with rfl | ⟨out, len, rfl⟩ | ⟨out, len, rfl⟩
  all_goals
    simp only [answer]
    rw [hobj]
    rfl

/-- The thread has arrived at a point that settles the interest. -/
theorem settled_at (ht : st'.threads = m.inner.threads.goto t p) (hp : p.settles = some id) :
    (m.moved st' r).Progress id file mask level := by
  refine .settling t ?_
  show (st'.threads.pc t).settles = some id
  rw [ht, pc_goto, if_pos rfl]
  exact hp

/-- What the object of a live interest says. -/
theorem Live.object (h : m.Live st' id k event level) (hframe : Frame m.inner st')
    (hobj : m.inner.objects[id]? = some interest) :
    interest.key = k ∧ interest.event = event ∧ interest.mode.isEnabled = true
      ∧ (m.files interest.key.file).isOpen = true := by
  obtain ⟨hkey, hevent, -⟩ := object_unique hobj h.watch
  refine ⟨hkey, hevent, ?_, hkey ▸ h.isOpen⟩
  rw [← enabled_of_object hobj]
  exact hframe.enabled id h.enabled

/-- A pointer that exists is in the queue or in somebody's hands. -/
theorem Attentive.pointed (h : m.Attentive) (hlive : m.Live st' id k event level)
    (hflag : m.inner.flag id = some true) :
    id ∈ m.inner.readyQueue ∨ ∃ u, (m.inner.threads.pc u).carries = some id
      ∧ ((m.inner.threads.pc u).brings = some id ∨ (m.inner.threads.pc u).settles = some id) := by
  have hone : m.inner.flagged id = 1 := if_pos hflag
  have hexact := h.accounted.exact id (.inl hlive.registered)
  rcases (m.inner.pointers_pos_iff id).mp (by omega) with hq | ⟨u, hu⟩
  · exact .inl hq
  refine .inr ⟨u, hu, ?_⟩
  generalize hpu : m.inner.threads.pc u = p at hu
  cases p with
  | closing j out len =>
    -- the file of a closing interest is closed
    have hshut := h.closed u id k event level (by rw [hpu]; exact hu) hlive.watch
    rw [hlive.isOpen] at hshut
    cases hshut
  | marked j | popped j out len | held j out len | keep j out len => exact .inl hu
  | remove j out len => exact .inr hu
  | _ => cases hu

/-- `consume` has removed the interest: either it was not ready, or it was reported and is not
level-triggered. -/
theorem consume_removes {current : UInt32} (hkeeps : (interest.consume current).1.keeps = false)
    (henabled : (interest.consume current).2.mode.isEnabled = true) :
    current &&& interest.event.events = 0
      ∨ (interest.mode.isLevel = false ∧ (interest.consume current).1.event.isSome = true) := by
  obtain ⟨key, event, mode, flag⟩ := interest
  simp only [EpollInterest.consume] at hkeeps henabled ⊢
  by_cases hmatch : current &&& event.events = 0
  · exact .inl hmatch
  refine .inr ?_
  simp only [if_neg hmatch] at hkeeps henabled ⊢
  cases mode with
  | level => cases hkeeps
  | edge => exact ⟨rfl, rfl⟩
  | oneShot fired =>
    -- a one-shot interest is disabled once it has fired
    cases fired <;> exact absurd henabled (by simp [TriggerMode.shouldNotify,
      TriggerMode.isEnabled])

section Advance

variable (h : m.Attentive) (hacc : st'.Accounted) (hframe : Frame m.inner st')
  (hs : m.inner.advance t (m.answer (m.inner.threads.pc t)) (m.inner.threads.pc t) = some st')

include h hacc hframe hs

/-- `check_and_register_waker`, before the file is asked. -/
theorem Attentive.check (hpc : m.inner.threads.pc t = .check id) : (m.moved st' []).Attentive := by
  rw [hpc] at hs
  simp only [advance, Option.bind_eq_bind, Option.bind_eq_some_iff] at hs
  obtain ⟨interest, hobj, hs⟩ := hs
  rw [answer_open (.inl rfl) hobj] at hs
  by_cases hopen : (m.files interest.key.file).isOpen = true
  · simp only [if_pos hopen, Option.pure_def] at hs
    split at hs
    next hdisabled =>
      cases hs
      refine h.pass hacc hframe hpc rfl (fun _ => .inl) (fun _ hw => hw) ?_ ⟨rfl, rfl⟩ (.inl rfl)
      rintro _ k event level ⟨⟩ hlive
      rw [(hlive.object hframe hobj).2.2.1] at hdisabled
      cases hdisabled
    split at hs
    all_goals
      cases hs
      refine h.pass hacc hframe hpc rfl (fun _ => .inl) (fun _ hw => hw) ?_ ⟨rfl, rfl⟩ (.inl rfl)
      rintro _ k event level ⟨⟩ _
      exact brought_by rfl rfl
  · simp only [if_neg hopen] at hs
    cases hs
    refine h.pass hacc hframe hpc rfl (fun _ => .inl) (fun _ hw => hw) ?_ ⟨rfl, rfl⟩ (.inl rfl)
    rintro _ k event level ⟨⟩ hlive
    exact absurd (hlive.object hframe hobj).2.2.2 hopen

/-- The waker is registered, and the file will be asked again. -/
theorem Attentive.arm (hpc : m.inner.threads.pc t = .arm id) : (m.moved st' []).Attentive := by
  rw [hpc] at hs
  cases hs
  refine h.pass hacc hframe hpc rfl (fun _ => .inl) (fun _ => .tail _) ?_ ⟨rfl, rfl⟩ (.inl rfl)
  rintro _ k event level ⟨⟩ _
  refine .rechecked (.head _) t ?_
  show ((m.inner.threads.goto t (.recheck id)).pc t).rechecks = some id
  rw [pc_goto, if_pos rfl]
  rfl

theorem Attentive.recheck (hpc : m.inner.threads.pc t = .recheck id) :
    (m.moved st' []).Attentive := by
  rw [hpc] at hs
  simp only [advance, Option.bind_eq_bind, Option.bind_eq_some_iff, answer,
    Option.map_eq_some_iff, Option.pure_def] at hs
  obtain ⟨interest, hobj, current, ⟨interest', hobj', hcur⟩, hs⟩ := hs
  cases hobj.symm.trans hobj'
  split at hs
  · cases hs
    refine h.pass hacc hframe hpc rfl (fun _ => .inl)
      (fun _ hw => hw) (by rintro _ _ _ _ ⟨⟩) ⟨rfl, rfl⟩ (.inr ?_)
    rintro _ k event level ⟨⟩ _ _
    exact brought_by rfl rfl
  next hnone =>
    cases hs
    refine h.pass hacc hframe hpc rfl (fun _ => .inl)
      (fun _ hw => hw) (by rintro _ _ _ _ ⟨⟩) ⟨rfl, rfl⟩ (.inr ?_)
    rintro _ k event level ⟨⟩ hlive hw
    obtain ⟨hkey, hevent, -⟩ := hlive.object hframe hobj
    refine .listening hw (.inl ?_)
    rw [not_not, ← hcur, hkey, hevent] at hnone
    exact hnone

/-- The compare-exchange of `try_mark_in_queue`. -/
theorem Attentive.waking (hpc : m.inner.threads.pc t = .waking id) :
    (m.moved st' []).Attentive := by
  rw [hpc] at hs
  simp only [advance] at hs
  split at hs
  · cases hs
    refine h.pass hacc hframe hpc rfl (fun _ => .inl) (fun _ hw => hw) ?_ ⟨rfl, rfl⟩ (.inl rfl)
    rintro _ k event level ⟨⟩ _
    exact brought_by rfl rfl
  next hflag =>
    cases hs
    refine h.pass hacc hframe hpc rfl (fun _ => .inl) (fun _ hw => hw) ?_ ⟨rfl, rfl⟩ (.inl rfl)
    rintro _ k event level ⟨⟩ hlive
    have hup : m.inner.flag id = some true := by
      obtain ⟨interest, hobj, -⟩ := watch_iff.mp hlive.watch
      unfold flag at hflag ⊢
      rw [hobj] at hflag ⊢
      simpa using hflag
    rcases h.pointed hlive hup with hq | ⟨u, hcar, hu⟩
    · exact .queued hq
    -- the one who carries the pointer is another thread
    have hne : u ≠ t := by
      rintro rfl
      rw [hpc] at hcar
      cases hcar
    have hsame : ((m.inner.ret t (.ok 0) []).threads.pc u) = m.inner.threads.pc u := by
      show (m.inner.threads.goto t _).pc u = _
      rw [pc_goto, if_neg hne]
    rcases hu with hu | hu
    · exact .brought u (by rw [moved, hsame]; exact hu)
    · exact .settling u (by rw [moved, hsame]; exact hu)

theorem Attentive.popped (hpc : m.inner.threads.pc t = .popped id out len) :
    (m.moved st' []).Attentive := by
  rw [hpc] at hs
  simp only [advance] at hs
  split at hs
  · cases hs
    refine h.pass hacc hframe hpc rfl (fun _ hq => .inl (.tail _ hq))
      (fun _ hw => hw) ?_ ⟨rfl, rfl⟩ (.inl rfl)
    rintro _ k event level ⟨⟩ _
    exact .queued (.head _)
  split at hs
  · cases hs
    refine h.pass hacc hframe hpc rfl (fun _ => .inl) (fun _ hw => hw) ?_ ⟨rfl, rfl⟩ (.inl rfl)
    rintro _ k event level ⟨⟩ _
    exact brought_by rfl rfl
  next hdead =>
    cases hs
    refine h.pass hacc hframe hpc rfl (fun _ => .inl) (fun _ hw => hw) ?_ ⟨rfl, rfl⟩ (.inl rfl)
    rintro _ k event level ⟨⟩ hlive
    exact absurd ((m.inner.upgrades_iff id).mpr (.inl hlive.registered)) hdead

theorem Attentive.held (hpc : m.inner.threads.pc t = .held id out len) :
    (m.moved st' (m.reports (.held id out len))).Attentive := by
  rw [hpc] at hs
  simp only [advance, Option.bind_eq_bind, Option.bind_eq_some_iff,
    Option.pure_def] at hs
  obtain ⟨interest, hobj, hs⟩ := hs
  have hanswer := answer_open (.inr (.inl ⟨out, len, rfl⟩)) hobj
  split at hanswer
  · rw [hanswer] at hs
    have hreports : m.reports (.held id out len)
        = if (interest.consume (m.files interest.key.file).events).1.event.isSome then [id]
          else [] := by simp only [reports, hobj, hanswer]
    -- removed from the queue: the file was asked just now
    have hremove : ∀ out', st' = { m.inner with
          objects := m.inner.objects.set id
            (interest.consume (m.files interest.key.file).events).2 }.goto t (.remove id out' len) →
        (interest.consume (m.files interest.key.file).events).1.keeps = false →
        (m.moved st' (m.reports (.held id out len))).Attentive := by
      intro out' hst' hkeeps
      subst hst'
      refine h.move hacc hframe hpc rfl (fun _ => .inl)
        (fun _ hw => hw) ?_ (by rintro _ _ _ _ ⟨⟩) ?_ (by rintro _ _ _ _ ⟨⟩) ?_
      · rintro _ k event level ⟨⟩ _
        exact settled_at rfl rfl
      · rintro _ k event level ⟨⟩ hwatch henabled _
        obtain ⟨hkey, hevent, hlevel⟩ := object_unique hobj hwatch
        have hlt := (getElem?_eq_some_iff.mp hobj).1
        have hon : (interest.consume (m.files interest.key.file).events).2.mode.isEnabled
          = true := by
          rw [← henabled]
          exact (enabled_of_object (List.getElem?_set_self hlt)).symm
        rcases consume_removes hkeeps hon with hzero | ⟨hnotlevel, hreported⟩
        · rw [hkey, hevent] at hzero
          exact .inl hzero
        · refine .inr ⟨hlevel.symm.trans hnotlevel, ?_⟩
          rw [hreports, if_pos hreported]
          exact List.mem_append_left _ (List.mem_singleton_self id)
      · rintro _ (⟨⟨⟩⟩ | ⟨⟨⟩⟩)
        exact watch_of_object hobj
    simp only at hs
    split at hs
    next event hresult =>
      cases hs
      refine h.pass hacc hframe hpc rfl (fun _ => .inl) (fun _ hw => hw) ?_ ⟨rfl, rfl⟩ (.inl rfl)
      rintro _ k event level ⟨⟩ _
      exact brought_by rfl rfl
    next event hresult =>
      injection hs with hs
      exact hremove _ hs.symm (by rw [hresult]; rfl)
    next hresult =>
      injection hs with hs
      exact hremove _ hs.symm (by rw [hresult]; rfl)
  next hopen =>
    rw [hanswer] at hs
    cases hs
    refine h.move hacc hframe hpc rfl (fun _ => .inl)
      (fun _ hw => hw) ?_ (by rintro _ _ _ _ ⟨⟩) (by rintro _ _ _ _ ⟨⟩) ?_ ?_
    · rintro _ k event level ⟨⟩ hlive
      exact absurd (hlive.object hframe hobj).2.2.2 hopen
    · rintro _ k event level ⟨⟩ hwatch
      rw [(object_unique hobj hwatch).1, Bool.not_eq_true] at hopen
      exact hopen
    · rintro _ (⟨⟨⟩⟩ | ⟨⟨⟩⟩)
      exact watch_of_object hobj

/-- `mark_not_in_queue`; `register_waker_only` is next. -/
theorem Attentive.remove (hpc : m.inner.threads.pc t = .remove id out len) :
    (m.moved st' []).Attentive := by
  rw [hpc] at hs
  cases hs
  have hhere : (m.inner.threads.pc t).settles = some id := by
    rw [hpc]
    rfl
  refine h.move hacc hframe hpc rfl (fun _ => .inl)
    (fun _ hw => hw) ?_ (by rintro _ _ _ _ ⟨⟩) ?_ (by rintro _ _ _ _ ⟨⟩) ?_
  · rintro _ k event level ⟨⟩ _
    exact settled_at rfl rfl
  · rintro _ k event level ⟨⟩ hwatch henabled hopen
    exact (h.settled t id k event level hhere hwatch (hframe.enabled id henabled) hopen).moved
  · rintro _ (⟨⟨⟩⟩ | ⟨⟨⟩⟩)
    exact h.known t id (.inl hhere)

/-- `register_waker_only`: nothing has become ready since the interest was consumed. -/
theorem Attentive.rearm (hpc : m.inner.threads.pc t = .rearm id out len) :
    (m.moved st' []).Attentive := by
  rw [hpc] at hs
  simp only [advance, Option.bind_eq_bind, Option.bind_eq_some_iff,
    Option.pure_def] at hs
  obtain ⟨interest, hobj, hs⟩ := hs
  rw [answer_open (.inr (.inr ⟨out, len, rfl⟩)) hobj] at hs
  by_cases hreg : ((if (m.files interest.key.file).isOpen
      then some (m.files interest.key.file).events else none).isSome
        && interest.mode.isEnabled) = true
  · rw [if_pos hreg] at hs
    cases hs
    refine h.pass hacc hframe hpc rfl (fun _ => .inl) (fun _ => .tail _) ?_ ⟨rfl, rfl⟩ (.inl rfl)
    rintro _ k event level ⟨⟩ hlive
    have hcovered := h.settled t id k event level (by rw [hpc]; rfl) hlive.watch
      (hframe.enabled id hlive.enabled) hlive.isOpen
    exact .listening (.head _) hcovered.moved
  · rw [if_neg hreg] at hs
    cases hs
    refine h.pass hacc hframe hpc rfl (fun _ => .inl) (fun _ hw => hw) ?_ ⟨rfl, rfl⟩ (.inl rfl)
    rintro _ k event level ⟨⟩ hlive
    obtain ⟨-, -, hon, hopen⟩ := hlive.object hframe hobj
    rw [if_pos hopen, hon] at hreg
    exact absurd rfl hreg

end Advance

/-- **The next step of a call.** -/
theorem Attentive.advance (h : m.Attentive)
    (hs : m.inner.advance t (m.answer (m.inner.threads.pc t)) (m.inner.threads.pc t) = some st') :
    (m.moved st' (m.reports (m.inner.threads.pc t))).Attentive := by
  obtain ⟨heffect, hframe⟩ := advance_does hs
  have hacc := h.accounted.of_effects heffect
  cases hpc : m.inner.threads.pc t with
  | returned result out =>
    rw [hpc] at hs
    cases hs
  | check id => exact h.check hacc hframe hs hpc
  | arm id => exact h.arm hacc hframe hs hpc
  | recheck id => exact h.recheck hacc hframe hs hpc
  | waking id => exact h.waking hacc hframe hs hpc
  | popped id out len => exact h.popped hacc hframe hs hpc
  | held id out len => exact h.held hacc hframe hs hpc
  | remove id out len => exact h.remove hacc hframe hs hpc
  | rearm id out len => exact h.rearm hacc hframe hs hpc
  | marked id | keep id out len =>
    rw [hpc] at hs
    cases hs
    refine h.pass hacc hframe hpc rfl (fun _ hq => .inl (List.mem_append_left _ hq))
      (fun _ hw => hw) ?_ ⟨rfl, rfl⟩ (.inl rfl)
    rintro _ k event level ⟨⟩ _
    exact .queued (List.mem_append_right _ (List.mem_singleton_self id))
  | closing id out len =>
    rw [hpc] at hs
    cases hs
    exact h.pass hacc hframe hpc rfl (fun _ => .inl)
      (fun _ hw => hw) (by rintro _ _ _ _ ⟨⟩) ⟨rfl, rfl⟩ (.inl rfl)
  | popping out len =>
    simp only [hpc, EpollInner.advance] at hs
    split at hs
    · cases hs
      exact h.pass hacc hframe hpc rfl (fun _ => .inl)
        (fun _ => id) (by rintro _ _ _ _ ⟨⟩) ⟨rfl, rfl⟩ (.inl rfl)
    next id rest hqueue =>
      cases hs
      refine h.pass hacc hframe hpc rfl ?_
        (fun _ hw => hw) (by rintro _ _ _ _ ⟨⟩) ⟨rfl, rfl⟩ (.inl rfl)
      intro j hj
      rw [hqueue] at hj
      rcases List.mem_cons.mp hj with rfl | hj
      · exact .inr rfl
      · exact .inl hj

end Move

/-! ## §4. A call begins, a waker fires. -/

section Calls

variable {m : Monitored} {st st' : EpollInner} {t : Nat}

theorem atRest_inHand {p : EpollPoint} (h : p.atRest = true) :
    p.inHand = none ∧ p.rechecks = none := by
  cases p with
  | returned _ _ => exact ⟨rfl, rfl⟩
  | _ => cases h

/-- A thread with nothing in its hands takes a step. -/
theorem Attentive.begins {p : EpollPoint} (h : m.Attentive) (hacc : st'.Accounted)
    (hframe : Frame m.inner st') (hrest : (m.inner.threads.pc t).atRest = true)
    (ht : st'.threads = m.inner.threads.goto t p) (hp : p.settles = none ∧ p.closes = none)
    (hqueue : st'.readyQueue = m.inner.readyQueue) (hwakers : st'.wakers = m.inner.wakers) :
    Attentive { m with inner := st' } := by
  obtain ⟨hhand, hre⟩ := atRest_inHand hrest
  refine h.pass (r := []) hacc hframe rfl ht (fun _ hq => .inl (hqueue ▸ hq))
    (fun _ hw => hwakers ▸ hw) ?_ hp (.inl hre)
  intro _ _ _ _ hq
  rw [hhand] at hq
  cases hq

/-- The interests that were there are the same after `place`. -/
theorem place_objects (t : Nat) (key : EntryKey) (interest : EpollInterest) {id : Nat}
    (h : st.watch id ≠ none) : (st.place t key interest).watch id = st.watch id
      ∧ (st.place t key interest).enabled id = st.enabled id := by
  have hlt : id < st.objects.length := by
    by_contra hge
    refine h ?_
    unfold watch
    rw [List.getElem?_eq_none (by omega)]
    rfl
  have hsame : (st.place t key interest).objects[id]? = st.objects[id]? :=
    List.getElem?_append_left hlt
  unfold watch enabled
  rw [hsame]
  exact ⟨rfl, rfl⟩

/-- A new interest is checked next, so its readiness is in good hands. -/
theorem Attentive.place (h : m.Attentive) {key : EntryKey} {interest : EpollInterest}
    (hkey : interest.key = key) (hrest : (m.inner.threads.pc t).atRest = true)
    (hacc : (m.inner.place t key interest).Accounted) :
    Attentive { m with inner := m.inner.place t key interest } := by
  have ht : (m.inner.place t key interest).threads
      = m.inner.threads.goto t (.check m.inner.objects.length) := rfl
  -- the points that matter below are those of other threads
  have hpoint : ∀ u id, ((m.inner.place t key interest).threads.pc u).settles = some id
      ∨ ((m.inner.place t key interest).threads.pc u).closes = some id →
      (m.inner.place t key interest).threads.pc u = m.inner.threads.pc u := by
    intro u id hu
    rw [ht, pc_goto] at hu ⊢
    split at hu
    · rcases hu with hu | hu
      · cases hu
      · cases hu
    next hne => rw [if_neg hne]
  refine ⟨hacc, h.mapped.place key hkey, ?_, ?_, ?_, ?_⟩
  · intro key' id k event level hlookup hwatch henabled hopen
    have hlookup : (m.inner.interests.insert key m.inner.objects.length).lookup key' = some id :=
      hlookup
    rw [Table.lookup_insert] at hlookup
    split at hlookup
    · cases hlookup
      exact brought_by (r := []) ht rfl
    obtain ⟨interest', hobj, -⟩ := h.mapped key' id hlookup
    have hold := place_objects t key interest (watch_of_object hobj)
    rw [hold.1] at hwatch
    rw [hold.2] at henabled
    have hnone := atRest_inHand hrest
    refine (h.progress key' id k event level hlookup hwatch henabled hopen).move (r := []) rfl ht
      .inl (fun _ hw => hw) ?_ ?_
    · intro hhand
      rw [hnone.1] at hhand
      cases hhand
    · intro _ hre
      rw [hnone.2] at hre
      cases hre
  · intro u id k event level hu hwatch henabled hopen
    rw [hpoint u id (.inl hu)] at hu
    have hold := place_objects t key interest (h.known u id (.inl hu))
    rw [hold.1] at hwatch
    rw [hold.2] at henabled
    exact h.settled u id k event level hu hwatch henabled hopen
  · intro u id k event level hu hwatch
    rw [hpoint u id (.inr hu)] at hu
    rw [(place_objects t key interest (h.known u id (.inr hu))).1] at hwatch
    exact h.closed u id k event level hu hwatch
  · intro u id hu
    rw [hpoint u id hu] at hu
    rw [(place_objects t key interest (h.known u id hu)).1]
    exact h.known u id hu

/-- **A call begins.** -/
theorem Attentive.call (h : m.Attentive) {op : EpollOp}
    (hadvance : ∀ t file, op ≠ .advance t file) (hok : m.heeds (.call op) = true)
    (hs : epollStep m.inner op = some st') : Attentive { m with inner := st' } := by
  have hsettled : ModifySettled m.inner op := by
    cases op with
    | modify t fd file event flags =>
      cases file with
      | none => trivial
      | some file =>
        intro old hold hflag
        have hok : (m.inner.interests.lookup ⟨fd, file⟩).all
          (fun old => m.inner.flag old != some true) = true := hok
        rw [hold, Option.all_some, hflag] at hok
        cases hok
    | _ => trivial
  have hacc := h.accounted.of_effects (step_effect hsettled hs)
  rcases step_cases hs with ⟨t, file, hop, -⟩ |
    ⟨hrest, hb | ⟨key, interest, hkey, -, rfl⟩⟩
  · exact absurd hop (hadvance t file)
  · have hframe := hb.frame
    cases hb with
    | returns | erases | wakes | polls => exact h.begins hacc hframe hrest rfl ⟨rfl, rfl⟩ rfl rfl
  · exact h.place hkey hrest hacc

/-- **A waker runs**: the interest of a waker that was taken out is brought to the queue. -/
theorem Attentive.fire (h : m.Attentive) {id : Nat} (hrest : (m.inner.threads.pc t).atRest = true) :
    Attentive { m with pending := m.pending.erase id, inner := m.inner.wake t id } := by
  have hacc := h.accounted.of_effects ((wake_begins m.inner t id).effect hrest)
  obtain ⟨p, hp, hwake, hbrings⟩ : ∃ p : EpollPoint, (p.settles = none ∧ p.closes = none)
      ∧ m.inner.wake t id = m.inner.goto t p ∧ (m.inner.Alive id → p.brings = some id) := by
    unfold wake
    split
    · exact ⟨.waking id, ⟨rfl, rfl⟩, rfl, fun _ => rfl⟩
    next hdead =>
      exact ⟨.returned (.ok 0) [], ⟨rfl, rfl⟩, rfl,
        fun halive => absurd ((m.inner.upgrades_iff id).mpr halive) hdead⟩
  rw [hwake] at hacc ⊢
  have hmoved : Attentive { m with inner := m.inner.goto t p } :=
    h.begins hacc (.of_eq rfl rfl) hrest rfl hp rfl rfl
  refine ⟨hmoved.accounted, hmoved.mapped, ?_, hmoved.settled, hmoved.closed, hmoved.known⟩
  intro key j k event level hlookup hwatch henabled hopen
  cases hmoved.progress key j k event level hlookup hwatch henabled hopen with
  | queued hq => exact .queued hq
  | fired hj =>
    by_cases hid : j = id
    · -- a registered interest can be upgraded
      subst hid
      exact brought_by (m := { m with pending := m.pending.erase j }) (r := []) rfl
        (hbrings (.inl ⟨key, hlookup⟩))
    · exact .fired ((List.mem_erase_of_ne hid).mpr hj)
  | brought u hu => exact .brought u hu
  | settling u hu => exact .settling u hu
  | rechecked hw u hu => exact .rechecked hw u hu
  | listening hw hc => exact .listening hw hc
  | noticed hw bits hn hm => exact .noticed hw bits hn hm

end Calls

/-! ## §5. The files. -/

section Files

variable {m m' : Monitored}

/-- **A step of the files**: no thread moves, and a waker is where it was or was taken out. -/
theorem Attentive.environment (h : m.Attentive) {wakers : List Nat}
    (hinner : m'.inner = { m.inner with wakers := wakers })
    (hopen : ∀ file, (m'.files file).isOpen = true → (m.files file).isOpen = true)
    (hpending : ∀ id ∈ m.pending, id ∈ m'.pending)
    (hwakers : ∀ id ∈ m.inner.wakers, id ∈ wakers ∨ id ∈ m'.pending)
    (hcovered : ∀ id k event level, m.inner.watch id = some (k, event, level) →
      id ∈ m.inner.wakers → m.Covered id k.file event.events level →
      m'.Progress id k.file event.events level)
    (hnoticed : ∀ id k event level bits, m.inner.watch id = some (k, event, level) →
      id ∈ m.inner.wakers → (k.file, bits) ∈ m.notices → event.events &&& bits ≠ 0 →
      m'.Progress id k.file event.events level)
    (hsettled : ∀ t id k event level, (m.inner.threads.pc t).settles = some id →
      m.inner.watch id = some (k, event, level) → m.Covered id k.file event.events level →
      m'.Covered id k.file event.events level) : m'.Attentive := by
  obtain ⟨inner', files', notices', pending', reported'⟩ := m'
  subst hinner
  refine ⟨⟨h.accounted.bound, h.accounted.exact⟩, h.mapped, ?_, ?_, ?_, h.known⟩
  · intro key id k event level hlookup hwatch henabled hopen'
    cases h.progress key id k event level hlookup hwatch henabled (hopen _ hopen') with
    | queued hq => exact .queued hq
    | fired hj => exact .fired (hpending id hj)
    | brought u hu => exact .brought u hu
    | settling u hu => exact .settling u hu
    | rechecked hw u hu =>
      rcases hwakers id hw with hw | hw
      · exact .rechecked hw u hu
      · exact .fired hw
    | listening hw hc => exact hcovered id k event level hwatch hw hc
    | noticed hw bits hn hm => exact hnoticed id k event level bits hwatch hw hn hm
  · intro u id k event level hu hwatch henabled hopen'
    exact hsettled u id k event level hu hwatch
      (h.settled u id k event level hu hwatch henabled (hopen _ hopen'))
  · intro u id k event level hu hwatch
    have hshut := h.closed u id k event level hu hwatch
    show (files' k.file).isOpen = false
    cases hopen' : (files' k.file).isOpen with
    | false => rfl
    | true =>
      rw [hopen k.file hopen'] at hshut
      cases hshut

theorem or_and_eq_zero {a b mask : UInt32} (ha : a &&& mask = 0) (hb : mask &&& b = 0) :
    (a ||| b) &&& mask = 0 := by
  rw [UInt32.and_comm] at hb
  rw [← UInt32.toBitVec_inj, UInt32.toBitVec_and] at ha hb ⊢
  rw [UInt32.toBitVec_or, BitVec.and_or_distrib_right, ha, hb]
  rfl

theorem and_not_and_eq_zero {a b mask : UInt32} (ha : a &&& mask = 0) :
    (a &&& ~~~b) &&& mask = 0 := by
  rw [UInt32.and_assoc, UInt32.and_comm _ mask, ← UInt32.and_assoc, ha, UInt32.zero_and]

theorem wants_of_watch {id file : Nat} {bits : UInt32} {k : EntryKey} {event : EpollEvent}
    {level : Bool} (hwatch : m.inner.watch id = some (k, event, level)) :
    m.inner.wants file bits id = (k.file == file && event.events &&& bits != 0) := by
  obtain ⟨interest, hobj, rfl, rfl, -⟩ := watch_iff.mp hwatch
  unfold wants
  rw [hobj]
  rfl

theorem isOpen_of_setFile {file f : Nat} {s : FileState}
    (hs : s.isOpen = true → (m.files file).isOpen = true)
    (h : ((m.setFile file s).files f).isOpen = true) : (m.files f).isOpen = true := by
  simp only [setFile] at h
  split at h
  next heq => exact heq ▸ hs h
  · exact h

variable (h : m.Attentive)
include h

theorem Attentive.raise {file : Nat} {bits : UInt32} (hok : m.heeds (.raise file bits) = true) :
    (m.raise file bits).Attentive := by
  -- an interest that does not want the events is covered as before
  have hcov : ∀ id k event level, m.inner.watch id = some (k, event, level) →
      m.inner.wants file bits id = false → m.Covered id k.file event.events level →
      (m.raise file bits).Covered id k.file event.events level := by
    intro id k event level hwatch hwants hc
    rcases hc with hzero | ⟨hlevel, hrep⟩
    · refine .inl ?_
      simp only [Monitored.raise, setFile]
      split
      next heq =>
        rw [wants_of_watch hwatch, heq, beq_self_eq_true, Bool.true_and,
          bne_eq_false_iff_eq] at hwants
        rw [heq] at hzero
        exact or_and_eq_zero hzero hwants
      · exact hzero
    · refine .inr ⟨hlevel, List.mem_filter.mpr ⟨hrep, ?_⟩⟩
      rw [hwants]
      rfl
  refine h.environment rfl (fun _ hf => isOpen_of_setFile
    (s := { m.files file with events := (m.files file).events ||| bits }) id hf) (fun _ => id)
    (fun _ => .inl) ?_ ?_ ?_
  · intro id k event level hwatch hw hc
    cases hwants : m.inner.wants file bits id with
    | false => exact .listening hw (hcov id k event level hwatch hwants hc)
    | true =>
      rw [wants_of_watch hwatch, Bool.and_eq_true, beq_iff_eq, bne_iff_ne] at hwants
      refine .noticed hw bits ?_ hwants.2
      rw [hwants.1]
      exact .head _
  · intro id k event level b _ hw hn hm
    exact .noticed hw b (.tail _ hn) hm
  · intro u id k event level hu hwatch hc
    refine hcov id k event level hwatch ?_ hc
    have hnone := eq_false_of_any rfl (by simpa [heeds] using hok) u
    rw [hu] at hnone
    exact hnone

/-- A file that is not readier than before. -/
theorem Attentive.setFile {file : Nat} {s : FileState}
    (hopen : s.isOpen = true → (m.files file).isOpen = true)
    (hevents : ∀ mask, (m.files file).events &&& mask = 0 → s.events &&& mask = 0) :
    (m.setFile file s).Attentive := by
  have hcov : ∀ id f mask level, m.Covered id f mask level →
      (m.setFile file s).Covered id f mask level := by
    intro id f mask level hc
    rcases hc with hzero | hrep
    · refine .inl ?_
      simp only [Monitored.setFile]
      grind
    · exact .inr hrep
  refine h.environment rfl (fun _ => isOpen_of_setFile hopen) (fun _ => id) (fun _ => .inl) ?_ ?_ ?_
  · exact fun id k event level _ hw hc => .listening hw (hcov _ _ _ _ hc)
  · exact fun id k event level b _ hw hn hm => .noticed hw b hn hm
  · exact fun u id k event level _ _ => hcov _ _ _ _

/-- **The file looks for its wakers**: those that want the events are taken out. -/
theorem Attentive.notify (file : Nat) (bits : UInt32) : (m.notify file bits).Attentive := by
  have hwakers : ∀ id ∈ m.inner.wakers,
      id ∈ m.inner.wakers.filter (fun id => !m.inner.wants file bits id)
        ∨ id ∈ m.inner.wakers.filter (m.inner.wants file bits) ++ m.pending := by grind
  refine h.environment rfl (fun _ => id) (fun _ => List.mem_append_right _) hwakers
    ?_ ?_ (fun _ _ _ _ _ _ _ => id)
  · intro id k event level _ hw hc
    rcases hwakers id hw with hw | hw
    · exact .listening hw hc
    · exact .fired hw
  intro id k event level b hwatch hw hn hm
  rcases hwakers id hw with hkept | hout
  · -- another notice: this one would have taken the waker out
    refine .noticed hkept b ((List.mem_erase_of_ne ?_).mpr hn) hm
    intro heq
    injection heq with hfile hbits
    have hwants := (List.mem_filter.mp hkept).2
    rw [wants_of_watch hwatch, hfile, beq_self_eq_true, ← hbits, bne_iff_ne.mpr hm] at hwants
    cases hwants
  · exact .fired hout

theorem Attentive.spurious (id : Nat) :
    Attentive { m with
      pending := id :: m.pending
      inner := { m.inner with wakers := m.inner.wakers.erase id } } := by
  have hwakers : ∀ j ∈ m.inner.wakers, j ∈ m.inner.wakers.erase id ∨ j ∈ id :: m.pending := by grind
  refine h.environment rfl (fun _ hf => hf) (fun _ => .tail _) hwakers
    ?_ ?_ (fun _ _ _ _ _ _ _ hc => hc)
  · intro j k event level _ hw hc
    rcases hwakers j hw with hw | hw
    · exact .listening hw hc
    · exact .fired hw
  · intro j k event level b _ hw hn hm
    rcases hwakers j hw with hw | hw
    · exact .noticed hw b hn hm
    · exact .fired hw

end Files

/-! ## §6. Every run. -/

variable {m : Monitored}

/-- **One step.** -/
theorem Attentive.step {m' : Monitored} {op : ReadyOp} (h : m.Attentive) (hok : m.heeds op = true)
    (hs : m.step op = some m') : m'.Attentive := by
  cases op with
  | call op =>
    cases op with
    | advance t file => cases hs
    | wake t id => cases hs
    | _ =>
      obtain ⟨st', hstep, rfl⟩ := Option.map_eq_some_iff.mp hs
      exact h.call (fun _ _ hop => by cases hop) hok hstep
  | advance t =>
    obtain ⟨st', hstep, rfl⟩ := Option.map_eq_some_iff.mp hs
    exact h.advance hstep
  | raise file bits =>
    obtain ⟨-, rfl⟩ := guard_eq_some hs
    exact h.raise hok
  | lower file bits =>
    cases hs
    exact h.setFile id (fun _ => and_not_and_eq_zero)
  | close file =>
    cases hs
    exact h.setFile nofun (fun _ => id)
  | notify file bits =>
    obtain ⟨-, rfl⟩ := guard_eq_some hs
    exact h.notify file bits
  | spurious id =>
    obtain ⟨-, rfl⟩ := guard_eq_some hs
    exact h.spurious id
  | fire t id =>
    obtain ⟨⟨-, hrest⟩, rfl⟩ := guard_eq_some hs
    exact h.fire hrest

theorem start_attentive (files : Nat → FileState) : (start files).Attentive :=
  ⟨newEpoll_accounted, nofun, nofun, nofun, nofun, by rintro t id (⟨⟨⟩⟩ | ⟨⟨⟩⟩)⟩

/-- In a quiescent state a waker that is registered has nothing to tell. -/
theorem Attentive.noneLost (h : m.Attentive) (hq : m.Quiescent) : m.NoneLost := by
  obtain ⟨hidle, hnotices, hpending⟩ := hq
  have hhand : ∀ t id, ¬ ((m.inner.threads.pc t).brings = some id
      ∨ (m.inner.threads.pc t).settles = some id) := by
    intro t id hu
    have hhand := EpollPoint.inHand_of hu
    rw [(atRest_inHand (hidle t)).1] at hhand
    cases hhand
  intro key id interest hlookup hobj henabled hopen hready
  have hwatch : m.inner.watch id = some (interest.key, interest.event, interest.mode.isLevel) :=
    watch_iff.mpr ⟨interest, hobj, rfl, rfl, rfl⟩
  rw [← enabled_of_object hobj] at henabled
  cases h.progress key id _ _ _ hlookup hwatch henabled hopen with
  | queued hq => exact .inl hq
  | fired hj =>
    rw [hpending] at hj
    cases hj
  | brought t hu => exact absurd (.inl hu) (hhand t id)
  | settling t hu => exact absurd (.inr hu) (hhand t id)
  | rechecked hw t hu =>
    rw [(atRest_inHand (hidle t)).2] at hu
    cases hu
  | listening hw hc =>
    rcases hc with hzero | hrep
    · exact absurd hzero hready
    · exact .inr hrep
  | noticed hw bits hn hm =>
    rw [hnotices] at hn
    cases hn

/-- **NO READINESS IS LOST.**  In every run in which no file becomes ready between the poll of
`consume` and the registration of `register_waker_only`, and `modify` finds its interest
unqueued, every quiescent state has all that is ready in the queue or reported. -/
theorem epoll_never_loses_readiness (files : Nat → FileState) (m : Monitored)
    (h : Reach step (fun m op => m.heeds op = true) (start files) m) (hq : m.Quiescent) :
    m.NoneLost :=
  (h.invariant Attentive (start_attentive files) (fun _ _ _ hinv => hinv.step)).noneLost hq

/-- What a run must show for its last state to be quiescent. -/
def rests (m : Monitored) : Bool :=
  !m.inner.threads.any (fun p => !p.atRest) && m.notices.isEmpty && m.pending.isEmpty

theorem quiescent_of_rests (h : m.rests = true) : m.Quiescent := by
  simp only [rests, Bool.and_eq_true, Bool.not_eq_true', List.isEmpty_iff] at h
  obtain ⟨⟨hrest, hnotices⟩, hpending⟩ := h
  refine ⟨?_, hnotices, hpending⟩
  intro t
  simpa using eq_false_of_any rfl hrest t

/-- File 7 becomes ready, and is unready again when it is consumed. -/
def consumedUnready : List ReadyOp :=
  [.call (.add 0 3 (some 7) ⟨1, 0⟩ ⟨false, false⟩), .advance 0, .advance 0, .advance 0, .raise 7 1,
    .notify 7 1, .fire 1 0, .advance 1, .advance 1, .lower 7 1, .call (.pollEvents 0 8), .advance 0,
    .advance 0, .advance 0]

/-- File 7 becomes ready and is unready again by the time it is consumed.  It becomes ready
once more when the waker is registered: the interest is queued. -/
theorem registered_waker_requeues :
    ∃ m, Reach step (fun m op => m.heeds op = true) (start fun _ => ⟨true, 0⟩) m ∧ m.Quiescent
      ∧ (m.files 7).events = 1 ∧ m.inner.readyQueue = [0] ∧ m.NoneLost := by
  obtain ⟨m, hm, hc⟩ := exists_reach_guarded step (start fun _ => ⟨true, 0⟩) heeds
    (consumedUnready ++ [.advance 0, .advance 0, .raise 7 1, .notify 7 1, .advance 0, .fire 1 0,
      .advance 1, .advance 1])
    (fun m => m.rests ∧ (m.files 7).events = 1 ∧ m.inner.readyQueue = [0])
    (by decide +kernel)
  have hq := quiescent_of_rests hc.1
  exact ⟨m, hm, hq, hc.2.1, hc.2.2, epoll_never_loses_readiness _ m hm hq⟩

/-- **Readiness is lost between `consume` and `register_waker_only`.**  The same run, but file 7
becomes ready while nobody listens: nothing is in progress, the file is ready for a registered
level-triggered interest, and the queue is empty. -/
theorem ready_file_is_not_queued : ∃ m, Reach step Always (start fun _ => ⟨true, 0⟩) m ∧ m.Quiescent
      ∧ m.inner.interests.lookup ⟨3, 7⟩ = some 0 ∧ m.inner.readyQueue = [] ∧ ¬ m.NoneLost := by
  obtain ⟨m, hm, hrests, hlookup, hqueue, interest, hobj, henabled, hlevel, hopen, hevents⟩ :=
    exists_reach step (start fun _ => ⟨true, 0⟩)
    (consumedUnready ++ [.raise 7 1, .notify 7 1, .advance 0, .advance 0, .advance 0])
    (fun m => m.rests ∧ m.inner.interests.lookup ⟨3, 7⟩ = some 0 ∧ m.inner.readyQueue = []
      ∧ ∃ interest ∈ m.inner.objects[0]?, interest.mode.isEnabled ∧ interest.mode.isLevel
        ∧ (m.files interest.key.file).isOpen
        ∧ (m.files interest.key.file).events &&& interest.event.events ≠ 0) (by decide +kernel)
  refine ⟨m, hm, quiescent_of_rests hrests, hlookup, hqueue, ?_⟩
  intro hnone
  rcases hnone _ 0 interest hlookup hobj henabled hopen hevents with hq | ⟨hedge, -⟩
  · rw [hqueue] at hq
    cases hq
  · rw [hlevel] at hedge
    cases hedge

end Monitored

end StarryOS.File
