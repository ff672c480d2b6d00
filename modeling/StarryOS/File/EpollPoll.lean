/-
  StarryOS.File.EpollPoll — WHAT ONE CALL OF `poll_events` REPORTS
  (`kernel/src/file/epoll.rs`).

  The loop takes a pointer from the FRONT of the ready queue.  Two kinds of
  interests are at the END of the same queue when their turn is over:

      level-triggered and ready      the loop itself puts them back
      enabled, of a file that calls the waker inside `register`
                                     an input device (`EventDev`), a terminal
                                     that is read by its reader (`Manual`)

  Nothing marks the end of the first pass, so they are met again and again until
  `out` is full, and for ever if they fill nothing.  A call reports each interest
  once exactly if the first pass fills the buffer, or nothing comes back
  (`poll_events_reports_once_iff`).

  The files answer the same throughout the call, and no waker is called but by
  its own registration.
-/
import StarryOS.File.EpollQueue

namespace StarryOS.File

open Lib TriggerMode

/-- What an open file does during the call: the events of `poll`, and whether `register` with
this mask calls the waker. -/
structure FileAnswer where
  current : UInt32
  wakes : UInt32 → Bool

/-- `EventDev::register` calls the waker if the mask has `IN`. -/
def FileAnswer.eventDev (current : UInt32) : FileAnswer where
  current := current
  wakes := fun events => events &&& 1 ≠ 0

/-- A file whose `register` keeps the waker for later. -/
def FileAnswer.plain (current : UInt32) : FileAnswer where
  current := current
  wakes := fun _ => false

variable (files : Nat → Option FileAnswer) (st : EpollInner) (id : Nat)

namespace EpollInner

/-! ## §1. The loop. -/

/-- `wake_by_ref`; the thread that registers holds the interest. -/
def wakeByRef : EpollInner :=
  if st.flag id = some false then
    { st.setFlag id true with readyQueue := st.readyQueue ++ [id] }
  else st

/-- `register_waker_only`, of an interest whose file is open. -/
def registerWakerOnly (interest : EpollInterest) (file : FileAnswer) : EpollInner :=
  if interest.mode.isEnabled then
    if file.wakes interest.event.events then (st.register id).wakeByRef id else st.register id
  else st

/-- The body of the loop, once `id` was popped and there is room: the state, and what was
written to `out`. -/
def iterate (rest : List Nat) : EpollInner × List (Nat × EpollEvent) :=
  let st := { st with readyQueue := rest }
  if !st.upgrades id then (st, [])
  else
    match st.objects[id]? with
    | none => (st, [])
    | some interest =>
      match files interest.key.file with
      | none => ({ st with interests := st.interests.erase interest.key }.setFlag id false, [])
      | some file =>
        let r := interest.consume file.current
        let st := { st with objects := st.objects.set id r.2 }
        match r.1 with
        | .eventAndKeep event => ({ st with readyQueue := rest ++ [id] }, [(id, event)])
        | .eventAndRemove event =>
          ((st.setFlag id false).registerWakerOnly id r.2 file, [(id, event)])
        | .noEvent => ((st.setFlag id false).registerWakerOnly id r.2 file, [])

/-- **The loop of `poll_events`**, run by one thread alone; `none` if it goes round more than
`fuel` times. -/
def pollLoop (len : Nat) :
    Nat → EpollInner → List (Nat × EpollEvent) → Option (List (Nat × EpollEvent) × EpollInner)
  | 0, _, _ => none
  | fuel + 1, st, out =>
    match st.readyQueue with
    | [] => some (out, st)
    | id :: rest =>
      -- the pointer goes back to the front
      if len ≤ out.length then some (out, st)
      else pollLoop len fuel (iterate files st id rest).1
        (out ++ (iterate files st id rest).2)

section Loop

variable {files st} {len : Nat} {out : List (Nat × EpollEvent)}

theorem pollLoop_done (h : st.readyQueue = [] ∨ len ≤ out.length) :
    pollLoop files len 1 st out = some (out, st) := by
  unfold pollLoop
  grind

theorem pollLoop_cons {id : Nat} {rest : List Nat} (hqueue : st.readyQueue = id :: rest)
    (hroom : out.length < len) (fuel : Nat) : pollLoop files len (fuel + 1) st out
      = pollLoop files len fuel (iterate files st id rest).1
          (out ++ (iterate files st id rest).2) := by
  rw [pollLoop]
  grind

end Loop

/-! ## §2. One turn. -/

end EpollInner

namespace EpollInterest

variable (interest : EpollInterest)

/-- The event of an interest that is ready and enabled. -/
def report (file : FileAnswer) : Option EpollEvent :=
  if file.current &&& interest.event.events ≠ 0 ∧ interest.mode.isEnabled then
    some ⟨file.current &&& interest.event.events, interest.event.userData⟩
  else none

/-- Its pointer is in the queue again when its turn is over.  A one-shot interest that has
reported its event is disabled and not registered. -/
def comesBack (file : FileAnswer) : Bool :=
  match interest.mode with
  | .level => file.current &&& interest.event.events ≠ 0 || file.wakes interest.event.events
  | .edge => file.wakes interest.event.events
  | .oneShot fired =>
    !fired && file.current &&& interest.event.events = 0 && file.wakes interest.event.events

/-- What `consume` answers, and what follows for the queue. -/
theorem consume_spec (file : FileAnswer) :
    let r := interest.consume file.current
    (∃ event, r.1 = .eventAndKeep event ∧ interest.report file = some event
        ∧ interest.comesBack file = true ∧ r.2 = interest)
      ∨ ((r.1 = .noEvent ∧ interest.report file = none
            ∨ ∃ event, r.1 = .eventAndRemove event ∧ interest.report file = some event)
          ∧ interest.comesBack file = (r.2.mode.isEnabled && file.wakes interest.event.events)
          ∧ r.2.key = interest.key ∧ r.2.event = interest.event
          ∧ (r.2.mode.isEnabled = true → r.2.mode = interest.mode)) := by
  obtain ⟨key, event, mode, flag⟩ := interest
  simp only [consume, report, comesBack]
  by_cases hmatch : file.current &&& event.events = 0
  · cases mode with
    | level | edge => simp [hmatch, isEnabled]
    | oneShot fired => cases fired <;> simp [hmatch, isEnabled]
  cases mode with
  | level | edge => simp [hmatch, shouldNotify, isEnabled]
  | oneShot fired => cases fired <;> simp [hmatch, shouldNotify, isEnabled]

end EpollInterest

namespace EpollInner

/-- The interest that a pointer leads to and the answers of its file, if the one is alive and
the other open. -/
def live : Option (EpollInterest × FileAnswer) :=
  if st.upgrades id then
    st.objects[id]?.bind (fun interest =>
      (files interest.key.file).map (fun file => (interest, file)))
  else none

/-- The event that an interest of the queue has to report. -/
def report : Option EpollEvent :=
  (live files st id).bind (fun p => p.1.report p.2)

/-- An interest of the queue is in the queue again when its turn is over. -/
def comesBack : Bool :=
  (live files st id).any (fun p => p.1.comesBack p.2)

/-- An interest is stored under its own key. -/
def KeysMatch (st : EpollInner) : Prop :=
  ∀ key id interest, st.interests.lookup key = some id → st.objects[id]? = some interest →
    interest.key = key

/-- What an iteration leaves as it is: the threads, the other interests, and the map but for
the key of a closed file. -/
@[grind cases] structure Untouched (st st' : EpollInner) (id : Nat) : Prop where
  threads : st'.threads = st.threads
  objects : ∀ j : Nat, j ≠ id → st'.objects[j]? = st.objects[j]?
  keys : ∀ j : Nat, st'.objects[j]?.map EpollInterest.key = st.objects[j]?.map EpollInterest.key
  interests : st'.interests = st.interests
    ∨ ∃ key, files key.file = none ∧ st'.interests = st.interests.erase key

/-- **What one iteration does.** -/
structure Iterates (rest : List Nat) (r : EpollInner × List (Nat × EpollEvent)) : Prop where
  out : r.2 = (report files st id).toList.map (fun event => (id, event))
  readyQueue : r.1.readyQueue = if comesBack files st id then rest ++ [id] else rest
  untouched : Untouched files st r.1 id
  /-- What comes back has the same to report, and will come back again. -/
  again : comesBack files st id = true →
    report files r.1 id = report files st id ∧ comesBack files r.1 id = true

/-- The interest is replaced, and is in the queue again or not. -/
structure Replaced (new : EpollInterest) (back : Bool) (st' : EpollInner) : Prop where
  threads : st'.threads = st.threads
  interests : st'.interests = st.interests
  readyQueue : st'.readyQueue = if back then st.readyQueue ++ [id] else st.readyQueue
  objects : ∀ j : Nat, st'.objects[j]?
    = if j = id then some new else st.objects[j]?

section Turn

variable {files st id} {rest : List Nat} {interest : EpollInterest} {file : FileAnswer}

/-- `mark_not_in_queue` and `register_waker_only`: a waker that is called finds the flag that was
just cleared. -/
theorem registerWakerOnly_replaced (st : EpollInner) (hobj : st.objects[id]? = some interest)
    (file : FileAnswer) :
    let back := interest.mode.isEnabled && file.wakes interest.event.events
    Replaced st id { interest with inReadyQueue := back } back
      ((st.setFlag id false).registerWakerOnly id interest file) := by
  intro back
  have hflag : ((st.setFlag id false).register id).flag id = some false := by
    show (st.setFlag id false).flag id = some false
    rw [flag_setFlag, if_pos rfl]
    unfold flag
    rw [hobj]
    rfl
  have hobjects : ∀ (b : Bool) (j : Nat), (st.setFlag id b).objects[j]?
      = if j = id then some { interest with inReadyQueue := b } else st.objects[j]? := by
    intro b j
    rw [getElem?_setFlag]
    grind
  unfold registerWakerOnly
  cases henabled : interest.mode.isEnabled with
  | false =>
    have hback : back = false := by simp [back, henabled]
    rw [hback]
    exact ⟨rfl, rfl, rfl, hobjects false⟩
  | true =>
    cases hwakes : file.wakes interest.event.events with
    | false =>
      have hback : back = false := by simp [back, hwakes]
      rw [hback]
      exact ⟨rfl, rfl, rfl, hobjects false⟩
    | true =>
      have hback : back = true := by simp [back, henabled, hwakes]
      rw [hback]
      simp only [if_true, wakeByRef, if_pos hflag]
      refine ⟨rfl, rfl, rfl, ?_⟩
      intro j
      show (((st.setFlag id false).register id).setFlag id true).objects[j]? = _
      rw [getElem?_setFlag]
      show (if id = j then ((st.setFlag id false).objects[j]?).map _
        else (st.setFlag id false).objects[j]?) = _
      grind

theorem live_eq_some : live files st id = some (interest, file) ↔ st.upgrades id = true
    ∧ st.objects[id]? = some interest ∧ files interest.key.file = some file := by
  unfold live
  rw [Option.ite_none_right_eq_some, Option.bind_eq_some_iff]
  simp only [Option.map_eq_some_iff, Prod.mk.injEq]
  grind

/-- The turn of an interest that `consume` may have changed the mode of. -/
theorem Iterates.of_replaced (new : EpollInterest) {r : EpollInner × List (Nat × EpollEvent)}
    (hlive : live files st id = some (interest, file)) (hkey : new.key = interest.key)
    (hevent : new.event = interest.event)
    (hmode : interest.comesBack file = true → new.mode = interest.mode)
    (hr : Replaced { st with readyQueue := rest } id new (interest.comesBack file) r.1)
    (hout : r.2 = (interest.report file).toList.map (fun event => (id, event))) :
    Iterates files st id rest r := by
  obtain ⟨hup, hobj, hfile⟩ := live_eq_some.mp hlive
  have hreport : report files st id = interest.report file := by
    unfold report
    rw [hlive]
    rfl
  have hcomes : comesBack files st id = interest.comesBack file := by
    unfold comesBack
    rw [hlive]
    rfl
  refine ⟨by rw [hout, hreport], by rw [hcomes]; exact hr.readyQueue, ⟨hr.threads, ?_, ?_,
    .inl hr.interests⟩, ?_⟩
  · intro j hne
    rw [hr.objects j, if_neg hne]
  · intro j
    rw [hr.objects j]
    split
    next h =>
      rw [h, hobj]
      exact congrArg some hkey
    · rfl
  · intro h
    rw [hcomes] at h
    have hlive' : live files r.1 id = some (new, file) := by
      refine live_eq_some.mpr ⟨?_, by rw [hr.objects id, if_pos rfl], by rw [hkey, hfile]⟩
      unfold upgrades at hup ⊢
      rw [hr.threads, hr.interests]
      exact hup
    unfold comesBack
    rw [hreport]
    unfold report
    rw [hlive']
    simp only [Option.any_some, Option.bind_some]
    have hmode := hmode h
    constructor
    · unfold EpollInterest.report
      rw [hmode, hevent]
    · unfold EpollInterest.comesBack at h ⊢
      rw [hmode, hevent]
      exact h

/-- The turn of an interest that leaves the queue and is registered again. -/
theorem iterates_rearmed {new : EpollInterest} {out : List (Nat × EpollEvent)}
    (hlive : live files st id = some (interest, file)) (hkey : new.key = interest.key)
    (hevent : new.event = interest.event)
    (hmode : new.mode.isEnabled = true → new.mode = interest.mode)
    (hback : interest.comesBack file = (new.mode.isEnabled && file.wakes interest.event.events))
    (hout : out = (interest.report file).toList.map (fun event => (id, event))) :
    Iterates files st id rest
      (({ st with readyQueue := rest, objects := st.objects.set id new }.setFlag id
        false).registerWakerOnly id new file, out) := by
  have hlt := (getElem?_eq_some_iff.mp (live_eq_some.mp hlive).2.1).1
  have h := registerWakerOnly_replaced
    { st with readyQueue := rest, objects := st.objects.set id new }
    (List.getElem?_set_self hlt) file
  simp only at h
  rw [hevent, ← hback] at h
  have hr : Replaced { st with readyQueue := rest } id
      { new with inReadyQueue := interest.comesBack file } (interest.comesBack file)
      (({ st with readyQueue := rest, objects := st.objects.set id new }.setFlag id
        false).registerWakerOnly id new file) := by
    refine ⟨h.threads, h.interests, h.readyQueue, ?_⟩
    intro j
    rw [h.objects j]
    grind
  have hmode' : interest.comesBack file = true → new.mode = interest.mode := by grind
  exact .of_replaced { new with inReadyQueue := interest.comesBack file } hlive hkey hevent
    hmode' hr hout

theorem iterates (files : Nat → Option FileAnswer) (st : EpollInner) (id : Nat) (rest : List Nat) :
    Iterates files st id rest (iterate files st id rest) := by
  have hnone : live files st id = none → ∀ st' : EpollInner, st'.readyQueue = rest →
      Untouched files st st' id → Iterates files st id rest (st', []) := by
    intro hlive st' hqueue hsame
    have hcomes : comesBack files st id = false := by
      unfold comesBack
      rw [hlive]
      rfl
    refine ⟨?_, by rw [hcomes]; exact hqueue, hsame, fun h => ?_⟩
    · unfold report
      rw [hlive]
      rfl
    · rw [hcomes] at h
      cases h
  have hlost : Untouched files st { st with readyQueue := rest } id :=
    ⟨rfl, fun _ _ => rfl, fun _ => rfl, .inl rfl⟩
  have hup : ({ st with readyQueue := rest } : EpollInner).upgrades id = st.upgrades id := rfl
  unfold iterate
  simp only [hup]
  cases halive : st.upgrades id with
  | false => exact hnone (by simp [live, halive]) _ rfl hlost
  | true =>
    simp only [Bool.not_true, Bool.false_eq_true, if_false]
    cases hobj : st.objects[id]? with
    | none => exact hnone (by simp [live, hobj]) _ rfl hlost
    | some interest =>
      simp only
      cases hfile : files interest.key.file with
      | none =>
        refine hnone (by simp [live, hobj, hfile]) _ rfl
          ⟨rfl, ?_, ?_, .inr ⟨interest.key, hfile, rfl⟩⟩
        · intro j hne
          rw [getElem?_setFlag, if_neg (fun h => hne h.symm)]
        · intro j
          rw [getElem?_setFlag]
          split
          · cases st.objects[j]? <;> rfl
          · rfl
      | some file =>
        have hlive := live_eq_some.mpr ⟨halive, hobj, hfile⟩
        have hlt := (getElem?_eq_some_iff.mp hobj).1
        simp only
        rcases interest.consume_spec file with ⟨event, hr, hreport, hback, hsame⟩
          | ⟨hr, hback, hkey, hevent, hmode⟩
        · -- put back by the loop itself
          rw [hr, hsame]
          refine .of_replaced interest hlive rfl rfl (fun _ => rfl) ⟨rfl, rfl, ?_, ?_⟩
            (by rw [hreport]; rfl)
          · rw [hback]
            rfl
          · intro j
            show (st.objects.set id interest)[j]? = _
            grind
        · rcases hr with ⟨hr, hreport⟩ | ⟨event, hr, hreport⟩
          · rw [hr]
            exact iterates_rearmed hlive hkey hevent hmode hback (by rw [hreport]; rfl)
          · rw [hr]
            exact iterates_rearmed hlive hkey hevent hmode hback (by rw [hreport]; rfl)

end Turn

/-! ## §3. The others are not touched. -/

section Frame

variable {files st id} {st' : EpollInner} (h : Untouched files st st' id) (hkeys : st.KeysMatch)
  {j : Nat} (hne : j ≠ id)
include h hkeys

theorem Untouched.keysMatch : st'.KeysMatch := by
  intro key j interest hlookup hobj
  have hold : st.interests.lookup key = some j := by grind
  have hmap := h.keys j
  rw [hobj] at hmap
  cases hobj' : st.objects[j]? with
  | none =>
    rw [hobj'] at hmap
    cases hmap
  | some interest' =>
    rw [hobj'] at hmap
    rw [Option.some.inj hmap]
    exact hkeys key j interest' hold hobj'

include hne

/-- **An iteration does not change what the others have to report.** -/
theorem Untouched.live : live files st' j = live files st j := by
  have hthreads : st'.threads.any (fun p => p.holds = some j)
      = st.threads.any (fun p => p.holds = some j) := by rw [h.threads]
  unfold EpollInner.live
  rw [h.objects j hne]
  cases hobj : st.objects[j]? with
  | none => simp
  | some interest =>
    cases hfile : files interest.key.file with
    | none => simp [hfile]
    | some file =>
      suffices hup : st'.upgrades j = st.upgrades j by rw [hup]
      rcases h.interests with heq | ⟨key, hclosed, heq⟩
      · unfold upgrades
        rw [heq, hthreads]
      -- the key that is gone is not the one of this interest
      apply Bool.eq_iff_iff.mpr
      rw [upgrades_iff, upgrades_iff]
      unfold Alive
      rw [h.threads]
      refine or_congr_left ?_
      constructor
      · grind
      rintro ⟨k, hk⟩
      refine ⟨k, ?_⟩
      rw [heq, Table.lookup_erase, if_neg]
      · exact hk
      · rintro rfl
        rw [hkeys k j interest hk hobj, hclosed] at hfile
        cases hfile

theorem Untouched.report : report files st' j = report files st j := by
  unfold EpollInner.report
  rw [h.live hkeys hne]

theorem Untouched.comesBack : comesBack files st' j = comesBack files st j := by
  unfold EpollInner.comesBack
  rw [h.live hkeys hne]

end Frame

/-! ## §4. The first pass, and the next. -/

/-- What the first pass reports. -/
def reports (queue : List Nat) : List (Nat × EpollEvent) :=
  queue.flatMap (fun id => (report files st id).toList.map (fun event => (id, event)))

section Pass

variable {files}

theorem reports_congr {st st' : EpollInner} {queue : List Nat}
    (h : ∀ id ∈ queue, report files st' id = report files st id) :
    reports files st' queue = reports files st queue := by
  unfold reports
  rw [List.flatMap_def]
  congr 1
  apply List.map_congr_left
  intro id hid
  rw [h id hid]

theorem reports_cons (queue : List Nat) : reports files st (id :: queue)
      = (report files st id).toList.map (fun event => (id, event)) ++ reports files st queue :=
  List.flatMap_cons

/-- The reports of a pass name interests of the queue, in order. -/
theorem reports_sublist (queue : List Nat) :
    ((reports files st queue).map Prod.fst).Sublist queue := by
  induction queue with
  | nil => exact List.Sublist.refl _
  | cons id queue ih =>
    rw [reports_cons]
    cases report files st id with
    | none => exact ih.cons id
    | some event => exact ih.cons_cons id

theorem length_reports (queue : List Nat) : (reports files st queue).length
    = queue.countP (fun id => (report files st id).isSome) := by
  induction queue with
  | nil => rfl
  | cons id queue ih =>
    rw [reports_cons, List.length_append, ih, List.countP_cons]
    cases report files st id with
    | none => simp
    | some event => simp [Nat.add_comm]

variable (files) (len : Nat)

/-- **The loop ends with the first pass** if this fills the buffer, or leaves the queue empty.
`kept` is what has come back so far. -/
theorem pollLoop_pass (queue : List Nat) : ∀ (st : EpollInner) (kept : List Nat)
    (out : List (Nat × EpollEvent)), st.readyQueue = queue ++ kept → queue.Nodup → st.KeysMatch →
    out.length ≤ len → (len ≤ out.length + (reports files st queue).length
      ∨ kept = [] ∧ ∀ id ∈ queue, comesBack files st id = false) →
    ∃ fuel st', pollLoop files len fuel st out
      = some (out ++ (reports files st queue).take (len - out.length), st') := by
  induction queue with
  | nil =>
    intro st kept out hqueue _ _ _ hend
    refine ⟨1, st, ?_⟩
    rw [pollLoop_done (by grind [reports])]
    simp [reports]
  | cons id queue ih =>
    intro st kept out hqueue hnodup hkeys hle hend
    rw [List.cons_append] at hqueue
    by_cases hroom : len ≤ out.length
    · refine ⟨1, st, ?_⟩
      rw [pollLoop_done (.inr hroom), Nat.sub_eq_zero_of_le hroom, List.take_zero, List.append_nil]
    rw [List.nodup_cons] at hnodup
    rw [reports_cons, List.length_append] at hend
    have hiter := iterates files st id (queue ++ kept)
    have hrest : ∀ j ∈ queue, j ≠ id := fun j hj heq => hnodup.1 (heq ▸ hj)
    have hreports : reports files (iterate files st id (queue ++ kept)).1 queue
        = reports files st queue :=
      reports_congr (fun j hj => hiter.untouched.report hkeys (hrest j hj))
    have hone : ((report files st id).toList.map (fun event => (id, event))).length ≤ 1 := by
      cases report files st id <;> simp
    obtain ⟨fuel, st', hloop⟩ := ih (iterate files st id (queue ++ kept)).1
      (kept ++ if comesBack files st id then [id] else [])
      (out ++ (iterate files st id (queue ++ kept)).2)
      (by
        rw [hiter.readyQueue]
        split
        · rw [List.append_assoc]
        · rw [List.append_nil])
      hnodup.2 (hiter.untouched.keysMatch hkeys)
      (by rw [List.length_append, hiter.out]; omega)
      (by
        rw [hreports, List.length_append, hiter.out]
        refine hend.imp (fun h => by omega) ?_
        rintro ⟨rfl, hnone⟩
        refine ⟨by rw [hnone id (.head _)]; rfl, ?_⟩
        intro j hj
        rw [hiter.untouched.comesBack hkeys (hrest j hj)]
        exact hnone j (.tail _ hj))
    refine ⟨fuel + 1, st', ?_⟩
    rw [pollLoop_cons hqueue (by omega), hloop, hreports, hiter.out, reports_cons,
      List.append_assoc, List.length_append, List.take_append, ← Nat.sub_sub,
      List.take_of_length_le (i := len - out.length) (by omega)]

/-- **While an interest comes back, the loop ends with a full buffer or not at all.** -/
theorem pollLoop_comesBack (fuel : Nat) : ∀ (st : EpollInner) (out : List (Nat × EpollEvent)),
    st.KeysMatch → (∃ id ∈ st.readyQueue, comesBack files st id = true) →
    ∀ r, pollLoop files len fuel st out = some r → len ≤ r.1.length := by
  induction fuel with
  | zero =>
    intro st out _ _ r hr
    cases hr
  | succ fuel ih =>
    rintro st out hkeys ⟨id, hid, hback⟩ r hr
    cases hqueue : st.readyQueue with
    | nil =>
      rw [hqueue] at hid
      cases hid
    | cons j rest =>
      by_cases hroom : len ≤ out.length
      · rw [pollLoop, hqueue] at hr
        simp only [if_pos hroom, Option.some.injEq] at hr
        rw [← hr]
        exact hroom
      rw [pollLoop_cons hqueue (by omega)] at hr
      have hiter := iterates files st j rest
      refine ih _ _ (hiter.untouched.keysMatch hkeys) ⟨id, ?_⟩ r hr
      rw [hiter.readyQueue]
      by_cases hj : id = j
      · subst hj
        rw [hback]
        exact ⟨by simp, (hiter.again hback).2⟩
      · rw [hiter.untouched.comesBack hkeys hj]
        refine ⟨?_, hback⟩
        have hrest : id ∈ rest := by grind
        split
        · exact List.mem_append_left _ hrest
        · exact hrest

/-- **It does not end if nobody has anything to report.** -/
theorem pollLoop_silent (hlen : 0 < len) (fuel : Nat) : ∀ st : EpollInner, st.KeysMatch →
    st.readyQueue.Nodup → (∀ id ∈ st.readyQueue, report files st id = none) →
    (∃ id ∈ st.readyQueue, comesBack files st id = true) →
    pollLoop files len fuel st [] = none := by
  induction fuel with
  | zero => exact fun _ _ _ _ _ => rfl
  | succ fuel ih =>
    rintro st hkeys hnodup hsilent ⟨id, hid, hback⟩
    cases hqueue : st.readyQueue with
    | nil =>
      rw [hqueue] at hid
      cases hid
    | cons j rest =>
      rw [hqueue] at hnodup hsilent hid
      rw [List.nodup_cons] at hnodup
      have hiter := iterates files st j rest
      have hrest : ∀ i ∈ rest, i ≠ j := fun i hi heq => hnodup.1 (heq ▸ hi)
      have hmem : ∀ i, i ∈ (iterate files st j rest).1.readyQueue
          ↔ i ∈ rest ∨ i = j ∧ comesBack files st j = true := by
        intro i
        rw [hiter.readyQueue]
        split <;> simp [*]
      rw [pollLoop_cons hqueue hlen, hiter.out, hsilent j (.head _)]
      refine ih _ (hiter.untouched.keysMatch hkeys) ?_ ?_ ?_
      · rw [hiter.readyQueue]
        split
        · exact List.nodup_append_comm.mp (List.nodup_cons.mpr hnodup)
        · exact hnodup.2
      · intro i hi
        rcases (hmem i).mp hi with hi | ⟨rfl, hi⟩
        · rw [hiter.untouched.report hkeys (hrest i hi)]
          exact hsilent i (.tail _ hi)
        · rw [(hiter.again hi).1]
          exact hsilent i (.head _)
      · refine ⟨id, (hmem id).mpr ?_, ?_⟩
        · grind
        · by_cases hj : id = j
          · subst hj
            exact (hiter.again hback).2
          · rw [hiter.untouched.comesBack hkeys hj]
            exact hback

end Pass

/-! ## §5. Once each. -/

/-- How many interests of the ready queue have an event to report. -/
def readyCount : Nat :=
  st.readyQueue.countP (fun id => (report files st id).isSome)

/-- **What a call promises**: it returns, no interest is reported twice, and a buffer that is
large enough gets one event for each ready interest. -/
def ReportsOnce (len : Nat) : Prop :=
  ∃ fuel out st', pollLoop files len fuel st [] = some (out, st') ∧ (out.map Prod.fst).Nodup
    ∧ (readyCount files st ≤ len → out.length = readyCount files st)

theorem reportsOnce_iff {files st}
    (hnodup : st.readyQueue.Nodup) (hkeys : st.KeysMatch) (len : Nat) : ReportsOnce files st len
      ↔ len ≤ readyCount files st ∨ ∀ id ∈ st.readyQueue, comesBack files st id = false := by
  have hcount : (reports files st st.readyQueue).length = readyCount files st := length_reports _ _
  constructor
  · rintro ⟨fuel, out, st', hloop, -, hall⟩
    by_contra hnot
    obtain ⟨hmore, hback⟩ := not_or.mp hnot
    have hfull := pollLoop_comesBack files len fuel st [] hkeys (by simpa using hback) _ hloop
    have := hall (by omega)
    simp only at hfull
    omega
  · intro hcond
    obtain ⟨fuel, st', hloop⟩ := pollLoop_pass files len st.readyQueue st [] []
      (List.append_nil _).symm hnodup hkeys (Nat.zero_le _)
      (hcond.imp (fun h => by simp only [List.length_nil]; omega) (fun h => ⟨rfl, h⟩))
    refine ⟨fuel, _, st', hloop, ?_, ?_⟩
    · simp only [List.nil_append, List.length_nil, Nat.sub_zero, List.map_take]
      exact (hnodup.sublist (reports_sublist st st.readyQueue)).sublist (List.take_sublist _ _)
    · intro hle
      simp only [List.nil_append, List.length_nil, Nat.sub_zero, List.length_take]
      omega

/-! ## §6. The states of a run. -/

/-- The map points to interests that are there, under their own keys. -/
def Mapped (st : EpollInner) : Prop :=
  ∀ key id, st.interests.lookup key = some id →
    ∃ interest, st.objects[id]? = some interest ∧ interest.key = key

theorem Mapped.keysMatch {st : EpollInner} (h : st.Mapped) : st.KeysMatch := by
  intro key id interest hlookup hobj
  obtain ⟨interest', hobj', hkey⟩ := h key id hlookup
  rw [Option.some.inj (hobj.symm.trans hobj')]
  exact hkey

section Runs

variable {st st' : EpollInner} {t : Nat}

theorem Mapped.place (h : st.Mapped) (key : EntryKey) {interest : EpollInterest}
    (hkey : interest.key = key) : (st.place t key interest).Mapped := by
  intro k id hlookup
  simp only [EpollInner.place, Table.lookup_insert] at hlookup
  show ∃ interest', (st.objects ++ [interest])[id]? = some interest' ∧ _
  split at hlookup
  · grind
  · obtain ⟨interest', hobj, hkey'⟩ := h k id hlookup
    grind

theorem Mapped.frame (h : st.Mapped) (hframe : Frame st st') : st'.Mapped := by
  intro key id hlookup
  obtain ⟨interest, hobj, hkey⟩ := h key id (hframe.map key id hlookup)
  have hwatch := hframe.watch id
  unfold EpollInner.watch at hwatch
  grind

theorem Begins.frame (h : Begins st t st') : Frame st st' := by
  cases h with
  | returns | wakes | polls => exact .of_eq rfl rfl
  | erases key => exact .of_erase rfl rfl

theorem Mapped.step {op : EpollOp} (h : st.Mapped) (hs : epollStep st op = some st') :
    st'.Mapped := by
  rcases step_cases hs with ⟨t, file, rfl, hs⟩ | ⟨-, hb | ⟨key, interest, hkey, -, rfl⟩⟩
  · exact h.frame (advance_does hs).2
  · exact h.frame hb.frame
  · exact h.place key hkey

/-- There is at most one pointer to an interest, whatever `modify` does. -/
def Bounded (st : EpollInner) : Prop := ∀ id, st.pointers id ≤ st.flagged id

theorem Bounded.place (h : st.Bounded) (key : EntryKey) (interest : EpollInterest) :
    (st.place t key interest).Bounded := by
  intro id
  have hthreads : (st.place t key interest).threads
      = st.threads.goto t (.check st.objects.length) := rfl
  have hmove := pointers_move hthreads id
  have hcheck : load id (.check st.objects.length) = 0 := rfl
  have hqueue : (st.place t key interest).readyQueue = st.readyQueue := rfl
  have hold := h id
  rw [hqueue] at hmove
  have hobjects : (st.place t key interest).objects = st.objects ++ [interest] := rfl
  have hflag : st.flagged id ≤ (st.place t key interest).flagged id := by
    by_cases hid : id = st.objects.length
    · -- the new interest had no flag before
      rw [hid, st.flagged_new]
      exact Nat.zero_le _
    · have hsame : (st.place t key interest).flag id = st.flag id := by
        rw [flag_append st interest hobjects, if_neg hid]
      exact Nat.le_of_eq (flagged_congr hsame).symm
  omega

theorem Bounded.step {op : EpollOp} (h : st.Bounded) (hs : epollStep st op = some st') :
    st'.Bounded := by
  rcases step_cases hs with ⟨t, file, rfl, hs⟩ | ⟨hrest, hb | ⟨key, interest, -, -, rfl⟩⟩
  · exact fun id => ((advance_does hs).1 id).bound (h id)
  · exact fun id => (hb.effect hrest id).bound (h id)
  · exact h.place key interest

theorem Bounded.nodup (h : st.Bounded) : st.readyQueue.Nodup := by
  rw [List.nodup_iff_count_le_one]
  intro id
  have hle := h id
  grind [flagged, pointers]

end Runs

theorem reach_mapped {st : EpollInner} (hst : Reach epollStep Always newEpoll st) : st.Mapped := by
  refine hst.invariant Mapped ?_ (fun _ _ _ h _ => h.step)
  intro key id h
  cases h

theorem reach_bounded {st : EpollInner} (hst : Reach epollStep Always newEpoll st) : st.Bounded :=
  hst.invariant Bounded (fun _ => Nat.zero_le _) (fun _ _ _ h _ => h.step)

/-- **No interest is queued twice in any run**, whatever `modify` does. -/
theorem ready_queue_nodup (st : EpollInner) (hst : Reach epollStep Always newEpoll st) :
    st.readyQueue.Nodup :=
  (reach_bounded hst).nodup

/-- **ONE `epoll_wait` REPORTS EACH INTEREST ONCE exactly if** the buffer has no more slots
than there are ready interests in the queue, or none of the queue comes back: no ready one is
level-triggered, and no enabled one is registered with a file that calls the waker at once.  For
every state of every run, every buffer and any answers of the files. -/
theorem poll_events_reports_once_iff (st : EpollInner) (hst : Reach epollStep Always newEpoll st)
    (files : Nat → Option FileAnswer) (len : Nat) : ReportsOnce files st len
      ↔ len ≤ readyCount files st ∨ ∀ id ∈ st.readyQueue, comesBack files st id = false :=
  reportsOnce_iff (reach_bounded hst).nodup (reach_mapped hst).keysMatch len

/-- Descriptor 3 is level-triggered, descriptor 4 edge-triggered; both are ready when they are
added. -/
def twoReady : List EpollOp :=
  [.add 0 3 (some 7) ⟨1, 30⟩ ⟨false, false⟩, .advance 0 (some 1), .advance 0 none, .advance 0 none,
   .add 0 4 (some 8) ⟨1, 40⟩ ⟨true, false⟩, .advance 0 (some 1), .advance 0 none, .advance 0 none]

theorem ready_queue_nodup_twoReady : ∃ st, Reach epollStep Always newEpoll st
    ∧ st.readyQueue = [0, 1] ∧ st.readyQueue.Nodup := by
  obtain ⟨st, hst, hc⟩ := exists_reach epollStep newEpoll twoReady
    (fun st => st.readyQueue = [0, 1]) (by decide +kernel)
  exact ⟨st, hst, hc, ready_queue_nodup st hst⟩

/-- Both files are ready, and their wakers are kept. -/
def allReady (_ : Nat) : Option FileAnswer := some (.plain 1)

/-- A buffer of two events gets one of each. -/
theorem two_slots_report_both : ∃ st, Reach epollStep Always newEpoll st
    ∧ ReportsOnce allReady st 2
    ∧ (pollLoop allReady 2 3 st []).map Prod.fst
        = some [(0, ⟨1, 30⟩), (1, ⟨1, 40⟩)] := by
  obtain ⟨st, hst, hc⟩ := exists_reach epollStep newEpoll twoReady
    (fun st => readyCount allReady st = 2
      ∧ (pollLoop allReady 2 3 st []).map Prod.fst
          = some [(0, ⟨1, 30⟩), (1, ⟨1, 40⟩)]) (by decide +kernel)
  exact ⟨st, hst, (poll_events_reports_once_iff st hst _ 2).mpr (.inl (Nat.le_of_eq hc.1.symm)),
    hc.2⟩

/-- File 8 is an input device with an event, the other file is not ready. -/
def inputDevice (file : Nat) : Option FileAnswer :=
  if file = 8 then some (.eventDev 1) else some (.plain 0)

/-- **With a third slot the level-triggered descriptor is reported twice.**  The edge-triggered
one fills the buffer alone if it is an input device with an event, and the call never returns if
both are input devices without one. -/
theorem third_slot_repeats_an_event : ∃ st, Reach epollStep Always newEpoll st
    ∧ (readyCount allReady st = 2
      ∧ (pollLoop allReady 3 4 st []).map Prod.fst
          = some [(0, ⟨1, 30⟩), (1, ⟨1, 40⟩), (0, ⟨1, 30⟩)]
      ∧ ¬ ReportsOnce allReady st 3)
    ∧ (readyCount inputDevice st = 1 ∧ (pollLoop inputDevice 2 4 st []).map Prod.fst
          = some [(1, ⟨1, 40⟩), (1, ⟨1, 40⟩)])
    ∧ ∀ fuel, pollLoop (fun _ => some (.eventDev 0)) 1 fuel st [] = none := by
  obtain ⟨st, hst, hc⟩ := exists_reach epollStep newEpoll twoReady
    (fun st => (readyCount allReady st = 2
      ∧ (pollLoop allReady 3 4 st []).map Prod.fst
          = some [(0, ⟨1, 30⟩), (1, ⟨1, 40⟩), (0, ⟨1, 30⟩)]
      ∧ ∃ id ∈ st.readyQueue, comesBack allReady st id = true)
      ∧ (readyCount inputDevice st = 1 ∧ (pollLoop inputDevice 2 4 st []).map Prod.fst
          = some [(1, ⟨1, 40⟩), (1, ⟨1, 40⟩)])
      ∧ (∀ id ∈ st.readyQueue, report (fun _ => some (.eventDev 0)) st id = none)
      ∧ ∃ id ∈ st.readyQueue, comesBack (fun _ => some (.eventDev 0)) st id = true)
    (by decide +kernel)
  obtain ⟨⟨hcount, hout, id, hid, hback⟩, hdev, hsilent, hagain⟩ := hc
  have hkeys := (reach_mapped hst).keysMatch
  have hnodup := (reach_bounded hst).nodup
  refine ⟨st, hst, ⟨hcount, hout, ?_⟩, hdev, ?_⟩
  · rw [reportsOnce_iff hnodup hkeys, hcount]
    rintro (hle | hnone)
    · exact absurd hle (by decide)
    · rw [hnone id hid] at hback
      cases hback
  · exact fun fuel => pollLoop_silent _ 1 Nat.one_pos fuel st hkeys hnodup hsilent hagain

end EpollInner

end StarryOS.File
