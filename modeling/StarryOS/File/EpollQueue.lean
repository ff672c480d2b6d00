/-
  StarryOS.File.EpollQueue — FLAG AND READY QUEUE OF AN INTEREST AGREE.

  A pointer to an interest is in the ready queue, or a thread has just taken it
  out or is about to put it in: it CARRIES the pointer.  `pointers` counts both.
  Every step is, for every interest, one of five `Effect`s on that number and
  on the flag; the invariant

      pointers ≤ flag,   and equality while the interest can be upgraded

  is kept by each of them.  The one step that has no effect of this kind is
  `modify` on an interest that is queued: it copies the flag into a NEW object
  to which no pointer exists (`modify_strands_ready_interest`).
-/
import StarryOS.File.Epoll
import StarryOS.Lib.Transition

namespace StarryOS.File

open Lib Threads TriggerMode Option

def TriggerMode.isLevel : TriggerMode → Bool
  | .level => true
  | _ => false

namespace EpollInner

/-! ## §1. Pointers, flags, references. -/

variable (st : EpollInner)

/-- What a thread carries of interest `id`. -/
def load (id : Nat) (p : EpollPoint) : Nat := if p.carries = some id then 1 else 0

/-- The pointers to interest `id`, in the queue and in the hands of threads. -/
def pointers (id : Nat) : Nat :=
  st.readyQueue.count id + st.threads.total (load id)

/-- The flag as a number. -/
def flagged (id : Nat) : Nat := if st.flag id = some true then 1 else 0

/-- Somebody has a strong reference to interest `id`. -/
def Alive (id : Nat) : Prop :=
  (∃ key, st.interests.lookup key = some id) ∨ ∃ t, (st.threads.pc t).holds = some id

theorem upgrades_iff (id : Nat) : st.upgrades id = true ↔ st.Alive id := by
  unfold upgrades Alive
  rw [Bool.or_eq_true, any_eq_true_iff _ _ rfl, List.any_eq_true]
  simp only [decide_eq_true_eq]
  constructor
  · intro h
    rcases h with ⟨e, he, rfl⟩ | ht
    · exact .inl ⟨e.1, (st.interests.lookup_eq_some_iff e.1 e.2).mpr he⟩
    · exact .inr ht
  · intro h
    rcases h with ⟨key, hkey⟩ | ht
    · exact .inl ⟨(key, id), (st.interests.lookup_eq_some_iff key id).mp hkey, rfl⟩
    · exact .inr ht

variable {st st' : EpollInner} {t : Nat} {p : EpollPoint}

theorem flagged_congr {id : Nat} (h : st'.flag id = st.flag id) :
    st'.flagged id = st.flagged id := by
  unfold flagged
  rw [h]

theorem flag_setFlag (st : EpollInner) (id j : Nat) (b : Bool) :
    (st.setFlag id b).flag j = if j = id then (st.flag id).map (fun _ => b) else st.flag j := by
  unfold flag setFlag
  grind

theorem flagged_new (st : EpollInner) : st.flagged st.objects.length = 0 := by
  unfold flagged flag
  rw [List.getElem?_eq_none le_rfl]
  rfl

theorem flag_append (st : EpollInner) (interest : EpollInterest)
    (h : st'.objects = st.objects ++ [interest]) (j : Nat) :
    st'.flag j = if j = st.objects.length then some interest.inReadyQueue else st.flag j := by
  unfold flag
  rw [h, List.getElem?_append]
  split
  next hlt => rw [if_neg (Nat.ne_of_lt hlt)]
  · grind

/-! ## §2. Effects. -/

/-- **What a step does to one interest.** -/
inductive Effect (st st' : EpollInner) (id : Nat) : Prop
  /-- Its pointers may move, nothing else. -/
  | same (hpointers : st'.pointers id = st.pointers id) (hflag : st'.flagged id = st.flagged id)
      (halive : st'.Alive id → st.Alive id)
  /-- `try_mark_in_queue`. -/
  | mark (hpointers : st'.pointers id = st.pointers id + 1) (hflag : st.flagged id = 0)
      (hflag' : st'.flagged id = 1)
  /-- `mark_not_in_queue` by the thread that carries the pointer. -/
  | clear (hpointers : st'.pointers id + 1 = st.pointers id) (hflag' : st'.flagged id = 0)
  /-- A pointer that cannot be upgraded is thrown away. -/
  | lose (hpointers : st'.pointers id + 1 = st.pointers id) (hflag : st'.flagged id = st.flagged id)
      (hdead : ¬ st'.Alive id)
  /-- It is allocated. -/
  | fresh (hpointers : st'.pointers id = st.pointers id) (hflag : st.flagged id = 0)
      (hflag' : st'.flagged id = 0)

/-- The invariant: every pointer is accounted for by the flag. -/
@[grind cases] structure Accounted (st : EpollInner) : Prop where
  bound : ∀ id, st.pointers id ≤ st.flagged id
  exact : ∀ id, st.Alive id → st.pointers id = st.flagged id

theorem flagged_le_one (st : EpollInner) (id : Nat) : st.flagged id ≤ 1 := by
  unfold flagged
  split <;> omega

theorem Effect.bound {id : Nat} (h : Effect st st' id) (hb : st.pointers id ≤ st.flagged id) :
    st'.pointers id ≤ st'.flagged id := by
  have hone := st.flagged_le_one id
  cases h with
  | same hp hf _ => omega
  | mark hp hf hf' => omega
  | clear hp hf => omega
  | lose hp hf _ => omega
  | fresh hp hf hf' => omega

theorem Accounted.of_effects (h : Accounted st) (heff : ∀ id, Effect st st' id) :
    Accounted st' := by
  refine ⟨fun id => (heff id).bound (h.bound id), ?_⟩
  intro id halive
  have hb := h.bound id
  have hone := st.flagged_le_one id
  cases heff id with
  | same hp hf ha =>
    have heq := h.exact id (ha halive)
    omega
  | mark hp hf hf' => omega
  | clear hp hf => omega
  | lose hp hf hdead => exact absurd halive hdead
  | fresh hp hf hf' => omega

/-- What never changes about an interest: its key, its event, and whether it is
level-triggered. -/
def watch (st : EpollInner) (id : Nat) : Option (EntryKey × EpollEvent × Bool) :=
  st.objects[id]?.map (fun interest => (interest.key, interest.event, interest.mode.isLevel))

/-- It may be reported. -/
def enabled (st : EpollInner) (id : Nat) : Bool :=
  st.objects[id]?.any (fun interest => interest.mode.isEnabled)

section Frame

variable {t id : Nat}

theorem getElem?_setFlag {st : EpollInner} {id : Nat} (b : Bool) (j : Nat) :
    (st.setFlag id b).objects[j]?
      = if id = j then (st.objects[j]?).map (fun interest => { interest with inReadyQueue := b })
        else st.objects[j]? := by
  unfold setFlag
  grind

theorem consume_key (interest : EpollInterest) (current : UInt32) :
    (interest.consume current).2.key = interest.key := by
  unfold EpollInterest.consume
  simp only
  split
  · rfl
  · split
    · rfl
    · split <;> rfl

theorem lookup_of_erase {key k : EntryKey}
    (h : (st.interests.erase key).lookup k = some id) : st.interests.lookup k = some id := by
  rw [Table.lookup_erase] at h
  split at h
  · cases h
  · exact h

/-- **A step inside a call**: the map only shrinks, an interest keeps what it watches, and none
becomes enabled. -/
@[grind cases] structure Frame (st st' : EpollInner) : Prop where
  map : ∀ key id, st'.interests.lookup key = some id → st.interests.lookup key = some id
  watch : ∀ id, st'.watch id = st.watch id
  enabled : ∀ id, st'.enabled id = true → st.enabled id = true

theorem Frame.of_eq (hmap : st'.interests = st.interests) (hobjects : st'.objects = st.objects) :
    Frame st st' := by
  refine ⟨fun _ _ h => by rw [← hmap]; exact h, fun _ => ?_, fun _ h => ?_⟩
  · unfold EpollInner.watch
    rw [hobjects]
  · unfold EpollInner.enabled at h ⊢
    rw [← hobjects]
    exact h

theorem Frame.of_setFlag {b : Bool} (hmap : st'.interests = st.interests)
    (hobjects : st'.objects = (st.setFlag id b).objects) : Frame st st' := by
  refine ⟨fun _ _ h => by rw [← hmap]; exact h, fun j => ?_, fun j h => ?_⟩
  · unfold EpollInner.watch
    rw [hobjects, getElem?_setFlag]
    split
    · cases st.objects[j]? <;> rfl
    · rfl
  · unfold EpollInner.enabled at h ⊢
    rw [hobjects, getElem?_setFlag] at h
    grind

/-- `consume` changes a mode to the fired one, nothing else. -/
theorem consume_watch (interest : EpollInterest) (current : UInt32) :
    (interest.consume current).2.event = interest.event
      ∧ (interest.consume current).2.mode.isLevel = interest.mode.isLevel
      ∧ ((interest.consume current).2.mode.isEnabled = true → interest.mode.isEnabled = true) := by
  obtain ⟨key, event, mode, flag⟩ := interest
  simp only [EpollInterest.consume]
  by_cases hmatch : current &&& event.events = 0
  · simp [hmatch]
  cases mode with
  | level | edge => simp [hmatch, shouldNotify]
  | oneShot fired =>
    cases fired <;> simp [hmatch, shouldNotify, isLevel, isEnabled]

theorem Frame.of_consume {interest : EpollInterest} {current : UInt32}
    (hobj : st.objects[id]? = some interest) (hmap : st'.interests = st.interests)
    (hobjects : st'.objects = st.objects.set id (interest.consume current).2) : Frame st st' := by
  have hlt := (getElem?_eq_some_iff.mp hobj).1
  obtain ⟨hevent, hlevel, henabled⟩ := consume_watch interest current
  refine ⟨fun _ _ h => by rw [← hmap]; exact h, fun j => ?_, fun j h => ?_⟩
  · unfold EpollInner.watch
    rw [hobjects, List.getElem?_set]
    split
    next heq =>
      subst heq
      rw [hobj, map_some, map_some, consume_key, hevent, hlevel]
    · rfl
  · unfold EpollInner.enabled at h ⊢
    grind

theorem Frame.of_erase {key : EntryKey} (hmap : st'.interests = st.interests.erase key)
    (hobjects : st'.objects = st.objects) : Frame st st' := by
  have hsame : Frame st { st with objects := st'.objects } := .of_eq rfl hobjects
  refine ⟨fun k id h => ?_, hsame.watch, hsame.enabled⟩
  rw [hmap] at h
  exact lookup_of_erase h

end Frame

section Moves

/-- **Balance**: pointers leave and enter the queue and the hands of the thread
that moves. -/
theorem pointers_move (ht : st'.threads = st.threads.goto t p) (id : Nat) :
    st'.pointers id + (st.readyQueue.count id + load id (st.threads.pc t))
      = st.pointers id + (st'.readyQueue.count id + load id p) := by
  have hmove := total_goto (load id) rfl st.threads t p
  unfold pointers
  rw [ht]
  omega

variable {id : Nat}

theorem alive_of_move (ht : st'.threads = st.threads.goto t p)
    (hmap : ∀ key, st'.interests.lookup key = some id → st.Alive id)
    (hp : p.holds = some id → st.Alive id) (h : st'.Alive id) : st.Alive id := by
  rcases h with ⟨key, hkey⟩ | ⟨u, hu⟩
  · exact hmap key hkey
  · rw [ht, pc_goto] at hu
    split at hu
    · exact hp hu
    · exact .inr ⟨u, hu⟩

theorem not_held (hp : p.holds = none) (h : p.holds = some id) : st.Alive id := by
  rw [hp] at h
  cases h

theorem Effect.of_move (ht : st'.threads = st.threads.goto t p)
    (hmap : ∀ key, st'.interests.lookup key = some id → st.Alive id)
    (hp : p.holds = some id → st.Alive id) (hflag : st'.flag id = st.flag id)
    (hbal : st'.readyQueue.count id + load id p
      = st.readyQueue.count id + load id (st.threads.pc t)) : Effect st st' id := by
  have hmove := pointers_move ht id
  exact .same (by omega) (flagged_congr hflag) (alive_of_move ht hmap hp)

theorem Effect.of_goto (hp : p.holds = some id → st.Alive id)
    (hload : load id p = load id (st.threads.pc t)) : Effect st (st.goto t p) id :=
  .of_move rfl (fun key hkey => .inl ⟨key, hkey⟩) hp rfl (by rw [hload]; rfl)

theorem Effect.of_ret {result : AxResult Nat} {out : List EpollEvent}
    (hload : load id (st.threads.pc t) = 0) : Effect st (st.ret t result out) id :=
  .of_goto (not_held rfl) (by rw [hload]; rfl)

end Moves

/-! ## §3. Every step has an effect. -/

section Steps

variable {id i len : Nat} {fd : Int} {out : List EpollEvent} {file : Option UInt32}

theorem load_of_atRest (h : p.atRest = true) (id : Nat) : load id p = 0 := by
  cases p with
  | returned _ _ => rfl
  | _ => cases h

theorem alive_of_holds (hpc : st.threads.pc t = p) (h : p.holds = some id) : st.Alive id :=
  .inr ⟨t, hpc ▸ h⟩

theorem place_effect {key : EntryKey} {interest : EpollInterest}
    (hrest : (st.threads.pc t).atRest = true) (hclean : interest.inReadyQueue = false) (id : Nat) :
    Effect st (st.place t key interest) id := by
  have ht : (st.place t key interest).threads = st.threads.goto t (.check st.objects.length) := rfl
  have hobj : (st.place t key interest).objects = st.objects ++ [interest] := rfl
  have hload := load_of_atRest hrest id
  have hcheck : load id (.check st.objects.length) = 0 := rfl
  have hqueue : (st.place t key interest).readyQueue = st.readyQueue := rfl
  by_cases hid : id = st.objects.length
  · subst hid
    refine .fresh ?_ st.flagged_new ?_
    · have hmove := pointers_move ht st.objects.length
      rw [hqueue] at hmove
      omega
    · unfold flagged
      rw [flag_append st interest hobj, if_pos rfl, hclean]
      rfl
  · refine .of_move ht ?_ ?_ ?_ ?_
    · intro key' hkey
      have hkey : (st.interests.insert key st.objects.length).lookup key' = some id := hkey
      rw [Table.lookup_insert] at hkey
      split at hkey
      · injection hkey with hkey
        exact absurd hkey.symm hid
      · exact .inl ⟨key', hkey⟩
    · intro hp
      injection hp with hp
      exact absurd hp.symm hid
    · rw [flag_append st interest hobj, if_neg hid]
    · rw [hqueue, hload, hcheck]

theorem erase_effect {key : EntryKey} (hp : p.holds = some id → st.Alive id)
    (hload : load id p = load id (st.threads.pc t)) : Effect st { st with
      interests := st.interests.erase key, threads := st.threads.goto t p } id := by
  refine .of_move rfl ?_ hp rfl ?_
  · intro key' hkey
    simp only [Table.lookup_erase] at hkey
    split at hkey
    · cases hkey
    · exact .inl ⟨key', hkey⟩
  · rw [hload]

/-- A call begins.  `modify` must not find the old interest queued. -/
def ModifySettled (st : EpollInner) : EpollOp → Prop
  | .modify _ fd (some file) _ _ => ∀ old, st.interests.lookup ⟨fd, file⟩ = some old →
      st.flag old ≠ some true
  | _ => True

/-- **How a call begins** that stores no interest. -/
inductive Begins (st : EpollInner) (t : Nat) : EpollInner → Prop
  | returns (result : AxResult Nat) : Begins st t (st.ret t result [])
  | erases (key : EntryKey) : Begins st t { st with
      interests := st.interests.erase key
      threads := st.threads.goto t (.returned (.ok 0) []) }
  | wakes (i : Nat) (hup : st.upgrades i = true) : Begins st t (st.goto t (.waking i))
  | polls (len : Nat) : Begins st t (st.goto t (.popping [] len))

theorem wake_begins (st : EpollInner) (t i : Nat) : Begins st t (st.wake t i) := by
  unfold wake
  split
  next hup => exact .wakes i hup
  · exact .returns _

theorem begins_iff {rest : Bool} {next : Option EpollInner} :
    (if !rest then none else next) = some st' ↔ rest = true ∧ next = some st' := by
  cases rest <;> simp

/-- **A thread takes the next step of its call, or begins one.** -/
theorem step_cases {op : EpollOp} (hs : epollStep st op = some st') :
    (∃ t file, op = .advance t file ∧ st.advance t file (st.threads.pc t) = some st')
      ∨ (st.threads.pc op.thread).atRest = true ∧ (Begins st op.thread st'
        ∨ ∃ key interest, interest.key = key
          ∧ (ModifySettled st op → interest.inReadyQueue = false)
          ∧ st' = st.place op.thread key interest) := by
  cases op with
  | advance t file => exact .inl ⟨t, file, rfl, hs⟩
  | add t fd file event flags =>
    obtain ⟨hrest, hs⟩ := begins_iff.mp hs
    cases hs
    refine .inr ⟨hrest, ?_⟩
    unfold add
    cases file with
    | none => exact .inl (.returns _)
    | some file =>
      simp only
      cases st.interests.lookup ⟨fd, file⟩ with
      | some _ => exact .inl (.returns _)
      | none => exact .inr ⟨⟨fd, file⟩, _, rfl, fun _ => rfl, rfl⟩
  | modify t fd file event flags =>
    obtain ⟨hrest, hs⟩ := begins_iff.mp hs
    cases hs
    refine .inr ⟨hrest, ?_⟩
    unfold modify
    cases file with
    | none => exact .inl (.returns _)
    | some file =>
      simp only
      cases hold : st.interests.lookup ⟨fd, file⟩ with
      | none => exact .inl (.returns _)
      | some old =>
        refine .inr ⟨⟨fd, file⟩, _, ?_, fun hok => ?_, rfl⟩
        · split <;> rfl
        · -- the flag of the old interest is down, so the new one starts clean
          rw [if_neg (hok old hold)]
          rfl
  | delete t fd file =>
    obtain ⟨hrest, hs⟩ := begins_iff.mp hs
    cases hs
    refine .inr ⟨hrest, .inl ?_⟩
    unfold delete
    cases file with
    | none => exact .returns _
    | some file =>
      simp only
      cases st.interests.lookup ⟨fd, file⟩ with
      | none => exact .returns _
      | some _ => exact .erases _
  | wake t i =>
    obtain ⟨hrest, hs⟩ := begins_iff.mp hs
    obtain ⟨-, rfl⟩ := guard_eq_some hs
    exact .inr ⟨hrest, .inl (wake_begins st t i)⟩
  | pollEvents t len =>
    obtain ⟨hrest, hs⟩ := begins_iff.mp hs
    cases hs
    exact .inr ⟨hrest, .inl (.polls len)⟩

theorem Begins.effect (h : Begins st t st') (hrest : (st.threads.pc t).atRest = true) (id : Nat) :
    Effect st st' id := by
  have hload := load_of_atRest hrest id
  cases h with
  | returns result => exact .of_ret hload
  | erases key => exact erase_effect (not_held rfl) hload.symm
  | wakes i hup =>
    refine .of_goto (fun hp => ?_) hload.symm
    cases hp
    exact (st.upgrades_iff _).mp hup
  | polls len => exact .of_goto (not_held rfl) hload.symm

/-- `try_mark_in_queue` succeeds. -/
theorem mark_effect (hpc : st.threads.pc t = .waking i) (hflag : st.flag i = some false)
    (id : Nat) : Effect st ((st.setFlag i true).goto t (.marked i)) id := by
  have ht : ((st.setFlag i true).goto t (.marked i)).threads = st.threads.goto t (.marked i) := rfl
  have hset : ((st.setFlag i true).goto t (.marked i)).flag id = (st.setFlag i true).flag id := rfl
  rw [flag_setFlag] at hset
  have hmove := pointers_move ht id
  have hqueue : ((st.setFlag i true).goto t (.marked i)).readyQueue = st.readyQueue := rfl
  have hload : load id (st.threads.pc t) = 0 := by
    rw [hpc]
    rfl
  by_cases hid : id = i
  · subst hid
    have hmarked : load id (.marked id) = 1 := if_pos rfl
    rw [if_pos rfl, hflag] at hset
    refine .mark (by rw [hqueue] at hmove; omega) ?_ ?_
    · unfold flagged
      rw [hflag]
      rfl
    · unfold flagged
      rw [hset]
      rfl
  · have hmarked : load id (.marked i) = 0 := if_neg (fun h => hid (some.inj h).symm)
    rw [if_neg hid] at hset
    refine .of_move ht (fun key hkey => .inl ⟨key, hkey⟩) ?_ hset ?_
    · intro hp
      injection hp with hp
      exact absurd hp.symm hid
    · rw [hqueue, hload, hmarked]

/-- `mark_not_in_queue`, by the thread that carries the pointer. -/
theorem clear_effect {q : EpollPoint} (hpc : st.threads.pc t = p) (hcarry : p.carries = some i)
    (hholds : p.holds = some i) (hq : q.carries = none) (hqi : q.holds = none ∨ q.holds = some i)
    (id : Nat) : Effect st ((st.setFlag i false).goto t q) id := by
  have ht : ((st.setFlag i false).goto t q).threads = st.threads.goto t q := rfl
  have hset : ((st.setFlag i false).goto t q).flag id = (st.setFlag i false).flag id := rfl
  rw [flag_setFlag] at hset
  have hmove := pointers_move ht id
  have hqueue : ((st.setFlag i false).goto t q).readyQueue = st.readyQueue := rfl
  have hnone : load id q = 0 := by
    unfold load
    rw [hq]
    rfl
  by_cases hid : id = i
  · subst hid
    have hload : load id (st.threads.pc t) = 1 := by
      rw [hpc]
      exact if_pos hcarry
    rw [if_pos rfl] at hset
    refine .clear (by rw [hqueue] at hmove; omega) ?_
    unfold flagged
    rw [hset]
    cases st.flag id <;> rfl
  · have hload : load id (st.threads.pc t) = 0 := by
      rw [hpc]
      exact if_neg (fun h => hid (some.inj (hcarry.symm.trans h)).symm)
    rw [if_neg hid] at hset
    refine .of_move ht (fun key hkey => .inl ⟨key, hkey⟩) ?_ hset ?_
    · grind
    · rw [hqueue, hload, hnone]

/-- A pointer goes between the queue and the hands of the thread. -/
theorem queue_effect {queue : List Nat} (hp : p.holds = some id → st.Alive id)
    (hbal : queue.count id + load id p = st.readyQueue.count id + load id (st.threads.pc t)) :
    Effect st ({ st with readyQueue := queue }.goto t p) id :=
  .of_move rfl (fun key hkey => .inl ⟨key, hkey⟩) hp rfl hbal

theorem count_append_singleton (queue : List Nat) (i id : Nat) :
    (queue ++ [i]).count id = queue.count id + if some i = some id then 1 else 0 := by grind

theorem count_cons_pointer (queue : List Nat) (i id : Nat) :
    (i :: queue).count id = queue.count id + if some i = some id then 1 else 0 := by
  rw [List.count_cons]
  simp only [beq_iff_eq, some.injEq]

/-- A popped pointer that cannot be upgraded is dropped. -/
theorem lose_effect (hpc : st.threads.pc t = .popped i out len) (hdead : st.upgrades i = false)
    (id : Nat) : Effect st (st.goto t (.popping out len)) id := by
  have ht : (st.goto t (.popping out len)).threads = st.threads.goto t (.popping out len) := rfl
  have hmove := pointers_move ht id
  have hqueue : (st.goto t (.popping out len)).readyQueue = st.readyQueue := rfl
  have hnone : load id (.popping out len) = 0 := rfl
  by_cases hid : id = i
  · subst hid
    have hload : load id (st.threads.pc t) = 1 := by
      rw [hpc]
      exact if_pos rfl
    refine .lose (by rw [hqueue] at hmove; omega) rfl ?_
    intro halive
    have hold : st.Alive id := alive_of_move ht (fun key hkey => .inl ⟨key, hkey⟩)
      (not_held rfl) halive
    rw [← upgrades_iff, hdead] at hold
    cases hold
  · refine .of_goto (not_held rfl) ?_
    rw [hpc]
    exact (if_neg (fun h => hid (some.inj h).symm)).symm

/-- `consume` changes the mode of an interest, not its flag. -/
theorem consume_effect {interest : EpollInterest} {events : UInt32}
    (hpc : st.threads.pc t = .held i out len) (hobj : st.objects[i]? = some interest)
    (hcarry : p.carries = some i) (hholds : p.holds = some i) (id : Nat) :
    Effect st ({ st with objects := st.objects.set i (interest.consume events).2 }.goto t p)
      id := by
  refine .of_move rfl (fun key hkey => .inl ⟨key, hkey⟩) ?_ ?_ ?_
  · intro hp
    rw [hholds] at hp
    exact alive_of_holds hpc hp
  · show (st.objects.set i (interest.consume events).2)[id]?.map _ = st.objects[id]?.map _
    rw [List.getElem?_set]
    split
    next heq =>
      subst heq
      rw [if_pos (getElem?_eq_some_iff.mp hobj).1, hobj, map_some, map_some,
        interest.consume_inReadyQueue]
    · rfl
  · rw [hpc]
    show _ + load id p = _
    unfold load
    rw [hcarry]
    rfl

/-- `check_and_register_waker` polls the file. -/
theorem check_does (hpc : st.threads.pc t = .check i)
    (hs : st.advance t file (.check i) = some st') : (∀ id, Effect st st' id) ∧ Frame st st' := by
  have hload : ∀ id, load id (st.threads.pc t) = 0 := fun _ => by rw [hpc]; rfl
  have hown : ∀ id, (some i = some id) → st.Alive id := fun _ => alive_of_holds hpc
  simp only [advance, bind_eq_bind, bind_eq_some_iff] at hs
  obtain ⟨interest, hobj, hs⟩ := hs
  cases file with
  | none =>
    cases hs
    exact ⟨fun id => .of_ret (hload id), .of_eq rfl rfl⟩
  | some current =>
    simp only [pure_def] at hs
    split at hs
    · cases hs
      exact ⟨fun id => .of_ret (hload id), .of_eq rfl rfl⟩
    split at hs
    all_goals
      cases hs
      exact ⟨fun id => .of_goto (hown id) (hload id).symm, .of_eq rfl rfl⟩

/-- A popped pointer goes back when the buffer is full, is upgraded, or is
thrown away. -/
theorem popped_does (hpc : st.threads.pc t = .popped i out len)
    (hs : st.advance t file (.popped i out len) = some st') :
    (∀ id, Effect st st' id) ∧ Frame st st' := by
  simp only [advance] at hs
  split at hs
  · cases hs
    refine ⟨fun id => queue_effect (not_held rfl) ?_, .of_eq rfl rfl⟩
    rw [count_cons_pointer, hpc]
    rfl
  split at hs
  next hup =>
    cases hs
    refine ⟨fun id => .of_goto ?_ (by rw [hpc]; rfl), .of_eq rfl rfl⟩
    intro hp
    cases hp
    exact (st.upgrades_iff i).mp hup
  next hup =>
    cases hs
    exact ⟨lose_effect hpc (by simpa using hup), .of_eq rfl rfl⟩

/-- The held interest is consumed, or its key leaves the map. -/
theorem held_does (hpc : st.threads.pc t = .held i out len)
    (hs : st.advance t file (.held i out len) = some st') :
    (∀ id, Effect st st' id) ∧ Frame st st' := by
  simp only [advance, bind_eq_bind, bind_eq_some_iff, pure_def] at hs
  obtain ⟨interest, hobj, hs⟩ := hs
  cases file with
  | none =>
    cases hs
    refine ⟨fun id => erase_effect (fun h => alive_of_holds hpc h) ?_, .of_erase rfl rfl⟩
    rw [hpc]
    rfl
  | some current =>
    simp only at hs
    split at hs
    all_goals
      cases hs
      exact ⟨consume_effect hpc hobj rfl rfl, .of_consume hobj rfl rfl⟩

/-- **The next step of a call.** -/
theorem advance_does (hs : st.advance t file (st.threads.pc t) = some st') :
    (∀ id, Effect st st' id) ∧ Frame st st' := by
  -- one case for every program point
  generalize hpc : st.threads.pc t = p at hs
  cases p with
  | returned result out => cases hs
  | check i => exact check_does hpc hs
  | arm i =>
    cases hs
    exact ⟨fun id => .of_move rfl (fun key hkey => .inl ⟨key, hkey⟩)
      (fun h => alive_of_holds hpc h) rfl (by rw [hpc]; rfl), .of_eq rfl rfl⟩
  | recheck i =>
    have hload : ∀ id, load id (st.threads.pc t) = 0 := fun _ => by rw [hpc]; rfl
    simp only [advance, bind_eq_bind, bind_eq_some_iff, pure_def] at hs
    obtain ⟨interest, hobj, current, hcur, hs⟩ := hs
    split at hs
    · cases hs
      exact ⟨fun id => .of_goto (fun h => alive_of_holds hpc h) (hload id).symm, .of_eq rfl rfl⟩
    · cases hs
      exact ⟨fun id => .of_ret (hload id), .of_eq rfl rfl⟩
  | waking i =>
    simp only [advance] at hs
    split at hs
    next hflag =>
      cases hs
      exact ⟨mark_effect hpc hflag, .of_setFlag rfl rfl⟩
    · cases hs
      exact ⟨fun id => .of_ret (by rw [hpc]; rfl), .of_eq rfl rfl⟩
  | marked i | keep i out len =>
    -- the pointer goes from the hands of the thread to the end of the queue
    cases hs
    refine ⟨fun id => queue_effect (not_held rfl) ?_, .of_eq rfl rfl⟩
    rw [count_append_singleton, hpc]
    rfl
  | popping out len =>
    simp only [advance] at hs
    generalize hqueue : st.readyQueue = p at hs
    cases p with
    | nil =>
      cases hs
      exact ⟨fun id => .of_ret (by rw [hpc]; rfl), .of_eq rfl rfl⟩
    | cons i rest =>
      cases hs
      refine ⟨fun id => queue_effect (not_held rfl) ?_, .of_eq rfl rfl⟩
      rw [hqueue, count_cons_pointer, hpc]
      rfl
  | popped i out len => exact popped_does hpc hs
  | held i out len => exact held_does hpc hs
  | closing i out len =>
    cases hs
    exact ⟨clear_effect hpc rfl rfl rfl (.inl rfl), .of_setFlag rfl rfl⟩
  | remove i out len =>
    cases hs
    exact ⟨clear_effect hpc rfl rfl rfl (.inr rfl), .of_setFlag rfl rfl⟩
  | rearm i out len =>
    have hload : ∀ id, load id (st.threads.pc t) = 0 := fun _ => by rw [hpc]; rfl
    simp only [advance, bind_eq_bind, bind_eq_some_iff, pure_def] at hs
    obtain ⟨interest, hobj, hs⟩ := hs
    split at hs
    · cases hs
      exact ⟨fun id => .of_move rfl (fun key hkey => .inl ⟨key, hkey⟩) (not_held rfl) rfl
        (by rw [hload]; rfl), .of_eq rfl rfl⟩
    · cases hs
      exact ⟨fun id => .of_goto (not_held rfl) (hload id).symm, .of_eq rfl rfl⟩

theorem step_effect {op : EpollOp} (hok : ModifySettled st op) (hs : epollStep st op = some st')
    (id : Nat) : Effect st st' id := by
  rcases step_cases hs with ⟨t, file, rfl, hs⟩ | ⟨hrest, hb | ⟨key, interest, -, hclean, rfl⟩⟩
  · exact (advance_does hs).1 id
  · exact hb.effect hrest id
  · exact place_effect hrest (hclean hok) id

end Steps

/-! ## §4. The ready queue. -/

/-- A thread has taken the pointer to interest `id` out of the queue, or is
about to put it in. -/
def Carried (st : EpollInner) (id : Nat) : Prop := ∃ t, (st.threads.pc t).carries = some id

/-- No call and no wake-up is in progress. -/
def Idle (st : EpollInner) : Prop := ∀ t, (st.threads.pc t).atRest = true

/-- **For every registered interest, the flag is up exactly when a pointer to
that very object is in the ready queue**, or is being moved by a thread; between
calls, exactly when it is in the ready queue. -/
def ReadyExact (st : EpollInner) : Prop :=
  ∀ key id interest, st.interests.lookup key = some id → st.objects[id]? = some interest →
    (interest.inReadyQueue = true ↔ id ∈ st.readyQueue ∨ st.Carried id)
    ∧ (st.Idle → (interest.inReadyQueue = true ↔ id ∈ st.readyQueue))

theorem Idle.not_carried (h : st.Idle) (id : Nat) : ¬ st.Carried id := by
  rintro ⟨t, ht⟩
  have hrest := h t
  cases hpc : st.threads.pc t with
  | returned _ _ =>
    rw [hpc] at ht
    cases ht
  | _ =>
    rw [hpc] at hrest
    cases hrest

theorem pointers_pos_iff (st : EpollInner) (id : Nat) :
    0 < st.pointers id ↔ id ∈ st.readyQueue ∨ st.Carried id := by
  have hpos : ∀ p : EpollPoint, 0 < load id p ↔ p.carries = some id := by
    intro p
    unfold load
    grind
  constructor
  · intro h
    by_cases hq : 0 < st.readyQueue.count id
    · exact .inl (List.count_pos_iff.mp hq)
    · unfold pointers at h
      obtain ⟨t, ht⟩ := exists_of_total_pos (load id) (show 0 < st.threads.total (load id) by omega)
      exact .inr ⟨t, (hpos _).mp ht⟩
  · intro h
    unfold pointers
    rcases h with hq | ⟨t, ht⟩
    · have hcount := List.count_pos_iff.mpr hq
      omega
    · have hle := le_total (load id) rfl st.threads t
      have hone := (hpos _).mpr ht
      omega

theorem Accounted.readyExact (h : Accounted st) : ReadyExact st := by
  intro key id interest hkey hobj
  have hexact := h.exact id (.inl ⟨key, hkey⟩)
  have hflag : st.flagged id = if interest.inReadyQueue = true then 1 else 0 := by
    unfold flagged flag
    rw [hobj]
    simp only [map_some, some.injEq]
  have hiff : interest.inReadyQueue = true ↔ id ∈ st.readyQueue ∨ st.Carried id := by
    rw [← pointers_pos_iff, hexact]
    grind
  refine ⟨hiff, ?_⟩
  intro hidle
  rw [hiff, or_iff_left (hidle.not_carried id)]

theorem newEpoll_accounted : Accounted newEpoll := by
  constructor
  · intro id
    exact Nat.zero_le _
  · intro id _
    rfl

/-- **THE READY QUEUE IS EXACT in every run whose `modify` calls find the old
interest unqueued**, under any interleaving of the threads. -/
theorem epoll_ready_queue_exact (st : EpollInner)
    (hst : Reach epollStep ModifySettled newEpoll st) : ReadyExact st :=
  Accounted.readyExact (hst.invariant Accounted newEpoll_accounted
    (fun _ _ _ h hok hs => h.of_effects (step_effect hok hs)))

/-- An edge-triggered descriptor is reported, then modified while it is ready
again: the new interest is queued. -/
theorem modify_after_report_requeues : ∃ st, Reach epollStep ModifySettled newEpoll st
      ∧ st.interests.lookup ⟨3, 7⟩ = some 1 ∧ st.readyQueue = [1] ∧ ReadyExact st := by
  have hguard : ∀ (st : EpollInner) (op : EpollOp), (match op with
      | .modify _ fd (some file) _ _ =>
        (st.interests.lookup ⟨fd, file⟩).all (fun old => st.flag old != some true)
      | _ => true) = true → ModifySettled st op := by
    intro st op hg
    unfold ModifySettled
    split
    · intro old hold
      simp only [hold, all_some, bne_iff_ne] at hg
      exact hg
    · trivial
  obtain ⟨st, hst, hc⟩ := exists_reach_guarded epollStep newEpoll _
    [.add 0 3 (some 7) ⟨1, 0⟩ ⟨true, false⟩, .advance 0 (some 1), .advance 0 none, .advance 0 none,
      .pollEvents 0 8, .advance 0 none, .advance 0 none, .advance 0 (some 1), .advance 0 none,
      .advance 0 (some 1), .advance 0 none,
      .modify 0 3 (some 7) ⟨1, 0⟩ ⟨true, false⟩, .advance 0 (some 1), .advance 0 none,
      .advance 0 none]
    (fun st => st.interests.lookup ⟨3, 7⟩ = some 1 ∧ st.readyQueue = [1]) (by decide +kernel) hguard
  exact ⟨st, hst, hc.1, hc.2, epoll_ready_queue_exact st hst⟩

/-- **`modify` strands an interest that is ready.**  The new object inherits the
flag; the queue keeps a pointer to the old one, which is gone.  No wake-up can
queue the new interest any more. -/
theorem modify_strands_ready_interest :
    ∃ st, Reach epollStep Always newEpoll st ∧ st.Idle ∧ st.interests.lookup ⟨3, 7⟩ = some 1
      ∧ st.flag 1 = some true ∧ st.readyQueue = [0] ∧ ¬ ReadyExact st := by
  obtain ⟨st, hst, hkey, hflag, hqueue, hrest⟩ := exists_reach epollStep newEpoll
    [.add 0 3 (some 7) ⟨1, 0⟩ ⟨false, false⟩, .advance 0 (some 1), .advance 0 none,
      .advance 0 none, .modify 0 3 (some 7) ⟨1, 0⟩ ⟨false, false⟩, .advance 0 (some 1),
      .advance 0 none]
    (fun st => st.interests.lookup ⟨3, 7⟩ = some 1 ∧ st.flag 1 = some true
      ∧ st.readyQueue = [0] ∧ st.threads.any (fun p => !p.atRest) = false) (by decide +kernel)
  have hidle : st.Idle := by
    intro t
    simpa using eq_false_of_any rfl hrest t
  refine ⟨st, hst, hidle, hkey, hflag, hqueue, ?_⟩
  intro hexact
  obtain ⟨interest, hobj, hup⟩ := map_eq_some_iff.mp hflag
  have hq := ((hexact _ 1 interest hkey hobj).2 hidle).mp hup
  rw [hqueue] at hq
  exact absurd hq (by decide)

end EpollInner

end StarryOS.File
