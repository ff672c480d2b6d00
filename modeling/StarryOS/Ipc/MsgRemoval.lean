/-
  StarryOS.Ipc.MsgRemoval — A REMOVED QUEUE STAYS REMOVED (`IPC_RMID` of
  `sys_msgctl`).

  `IPC_RMID` sets `mark_removed`.  A queue without messages it then takes out of
  the manager, in a section of its own; a queue with messages it leaves there,
  to be removed when it is drained.  Nobody drains it: `msgrcv` tests the mark,
  `msgsnd` does not, and `msgget` finds the old queue under its key for ever.

      mark_removed      lock of the queue      msgrcv, msgctl, msgget: EIDRM
      remove_msqid      lock of the manager    no call finds the queue again
      (in between)                             msgsnd goes through

  A send that has looked the queue up goes through after both.  Where the queue
  is empty, no send holds it, and no identifier is handed out twice, the removal
  is final (`removed_queue_stays_removed`).
-/
import StarryOS.Ipc.MsgConservation

namespace StarryOS.Ipc.Msg

open Lib Mm Threads Point QueueObject

/-! ## §1. The history of the removals. -/

/-- A call of `IPC_RMID` that has returned successfully. -/
structure Removal where
  msqid : BitVec 32
  /-- The queue that was removed, and its key. -/
  queue : Nat
  key : BitVec 32
  deriving Repr, DecidableEq

/-- The state and the removals so far. -/
structure History where
  world : World
  removed : List Removal

/-- The removal of queue `i`. -/
def removalOf (w : World) (msqid : BitVec 32) (i : Nat) : List Removal :=
  match w.objects[i]? with
  | some o => [⟨msqid, i, o.queue.msqidDs.msgPerm.key⟩]
  | none => []

/-- The removal that a step completes, if it does. -/
def completes (cfg : Config) (w : World) : Step → List Removal
  | .run t =>
    match w.threads.pc t with
    | .removing msqid =>
      match w.manager.msqidQueues.lookup msqid.toInt with
      | some i => removalOf w msqid i
      | none => []
    | .found i msqid who (.ctl .rmid) =>
      match w.objects[i]? with
      | none => []
      | some o =>
        match o.run cfg who (.ctl .rmid) with
        -- the queue has messages: the call returns and leaves it where it is
        | (.ok _, _, false) => removalOf w msqid i
        | _ => []
    | _ => []
  | _ => []

def History.step (cfg : Config) (h : History) (s : Step) : Option History :=
  (Msg.step cfg h.world s).map (fun w => ⟨w, h.removed ++ completes cfg h.world s⟩)

def History.initial : History := ⟨.initial, []⟩

/-- The point is in `msgsnd` or `msgrcv` on this identifier, with the queue in hand. -/
def Point.transfers (msqid : BitVec 32) : Point → Option (Nat × Caller × Call)
  | .found i id who (.snd a) => if id = msqid then some (i, who, .snd a) else none
  | .found i id who (.rcv a) => if id = msqid then some (i, who, .rcv a) else none
  | _ => none

/-- **What a removal promises.** -/
@[grind cases] structure StaysRemoved (cfg : Config) (w : World) (r : Removal) : Prop where
  /-- No send and no receive on the identifier succeeds. -/
  refused : ∀ t i who call o, (w.threads.pc t).transfers r.msqid = some (i, who, call) →
    w.objects[i]? = some o → ∀ n, (o.run cfg who call).1 ≠ .ok n
  /-- The old queue neither is found under its key nor counts as one of `MSGMNI`. -/
  forgotten : w.manager.keyMsqid.lookup r.key ≠ some r.msqid
    ∧ ∀ id, w.manager.msqidQueues.lookup id ≠ some r.queue
  /-- While no other queue has the key, `msgget` makes a new one. -/
  fresh : ∀ who msgflg, msgflg &&& IPC_CREAT ≠ 0 →
    w.manager.msqidQueues.entries.length < MSGMNI →
    (∀ id, w.manager.keyMsqid.lookup r.key = some id → id = r.msqid) →
    ∃ named, w.msgget who r.key msgflg
      = (.ok w.nextIpcId, w.create r.key (msgflg &&& 0o777).toNat who named)

/-! ## §2. What the calls do to a queue that is marked. -/

section Marked

variable (cfg : Config) (who : Caller) {o : QueueObject}

theorem alloc_preserves {P : MessageQueue → Prop} (n : Nat) : Preserves P (alloc cfg n) := by
  intro q hq
  refine wp_mono (alloc_spec n) ?_ ?_
  · rintro _ q' ⟨rfl, -⟩
    exact hq
  · rintro _ q' rfl
    exact hq

theorem answer_preserves {P : MessageQueue → Prop} {α : Type} (x : AxResult α) :
    Preserves P (answer x : QueueM α) := by
  cases x with
  | ok a => exact .pure a
  | error e => exact .throw _

theorem msgsnd_keeps_mark (a : SendArgs) (stamp : Nat) :
    Preserves (fun q => q.markRemoved = true) (msgsnd cfg who a stamp) := by
  have henqueue : ∀ m, Preserves (fun q => q.markRemoved = true) (enqueueMessage cfg m) := by
    intro m q hq
    unfold ends enqueueMessage
    refine wp_exit hq fun _ => ?_
    exact wp_seq (alloc_preserves cfg _ q hq) (fun _ _ _ => hq)
  refine Preserves.get.bind (fun q => .ite (.throw _) ?_)
  refine (answer_preserves _).bind (fun mtype => .ite (.throw _) ?_)
  refine (alloc_preserves cfg _).bind (fun _ => (answer_preserves _).bind (fun data => ?_))
  refine .ite (.throw _) ((henqueue _).bind (fun _ => ?_))
  refine Preserves.bind ?_ (fun _ => .pure _)
  exact Preserves.modify (fun _ => id)

/-- A receive from a marked queue fails and leaves it alone. -/
theorem msgrcv_of_marked {q : MessageQueue} (hq : q.markRemoved = true) (a : ReceiveArgs) :
    wp (msgrcv cfg who a) q (fun _ _ => False) (fun _ q' => q' = q) := by
  unfold msgrcv
  refine wp_exit rfl fun _ => ?_
  rw [if_pos hq]
  rfl

/-- So do the commands of `msgctl`. -/
theorem msgctl_of_marked {q : MessageQueue} (hq : q.markRemoved = true) (cmd : CtlCommand) :
    msgctl who cmd q = .error (.err .idRemoved) q := by
  show (if q.markRemoved = true then (throw (.err .idRemoved) : QueueM Bool) else _) q = _
  rw [if_pos hq]
  rfl

/-- **The mark stays.** -/
theorem run_marked (h : o.queue.markRemoved = true) (call : Call) :
    (o.run cfg who call).2.1.queue.markRemoved = true := by
  cases call with
  | snd a =>
    have hkeeps := msgsnd_keeps_mark cfg who a o.sent.length o.queue h
    simp only [run]
    split
    next m q hrun =>
      have hpost := wp_of_run hrun hkeeps
      exact hpost
    next e q hrun =>
      have hpost := wp_of_error hrun hkeeps
      exact hpost
  | rcv a =>
    obtain ⟨e, q, hrun, rfl⟩ := exists_error_of_wp (msgrcv_of_marked cfg who h a)
    simp only [run, hrun]
    exact h
  | ctl cmd =>
    simp only [run, msgctl_of_marked who h cmd]
    exact h

theorem rcv_refused (h : o.queue.markRemoved = true) (a : ReceiveArgs) (n : Int) :
    (o.run cfg who (.rcv a)).1 ≠ .ok n := by
  obtain ⟨e, q, hrun, -⟩ := exists_error_of_wp (msgrcv_of_marked cfg who h a)
  simp only [run, hrun]
  rintro ⟨⟩

/-- `IPC_RMID` marks; it asks for the removal exactly if there are no messages. -/
theorem msgctl_rmid (q : MessageQueue) : wp (msgctl who .rmid) q
      (fun remove q' => q'.markRemoved = true ∧ remove = decide (q.msqidDs.msgQnum = 0))
      (fun _ _ => True) := by
  unfold msgctl
  rw [wp_bind]
  refine wp_exit trivial fun _ => ?_
  refine wp_exit trivial fun _ => ?_
  rw [wp_bind]
  apply wp_ite
  · intro hempty
    exact ⟨rfl, (decide_eq_true hempty).symm⟩
  · intro hfull
    exact ⟨rfl, (decide_eq_false hfull).symm⟩

theorem msgctl_not_rmid (q : MessageQueue) (cmd : CtlCommand) (hcmd : cmd ≠ .rmid) :
    wp (msgctl who cmd) q (fun remove _ => remove = false) (fun _ _ => True) := by
  unfold msgctl
  refine wp_exit trivial fun _ => ?_
  cases cmd with
  | rmid => exact absurd rfl hcmd
  | stat write =>
    refine wp_exit trivial fun _ => ?_
    cases write with
    | ok u => rfl
    | error e => trivial
  | set buf =>
    refine wp_exit trivial fun _ => ?_
    cases buf with
    | error e => trivial
    | ok user =>
      simp only [answer, pure_bind]
      refine wp_exit trivial fun _ => ?_
      rfl

/-- Only `IPC_RMID` sends a thread to the manager, with the queue marked. -/
theorem marked_of_removing {call : Call} (h : (o.run cfg who call).2.2 = true) :
    (o.run cfg who call).2.1.queue.markRemoved = true := by
  cases call with
  | snd a | rcv a =>
    simp only [run] at h
    split at h
    · cases h
    · cases h
  | ctl cmd =>
    simp only [run] at h ⊢
    split at h
    next remove q hrun =>
      by_cases hcmd : cmd = .rmid
      · subst hcmd
        exact (wp_of_run hrun (msgctl_rmid who o.queue)).1
      · have hno := wp_of_run hrun (msgctl_not_rmid who o.queue cmd hcmd)
        cases h.symm.trans hno
    · cases h

/-- An `IPC_RMID` that returns without going to the manager has found messages. -/
theorem not_empty_of_kept {n : Int} {o' : QueueObject}
    (h : o.run cfg who (.ctl .rmid) = (.ok n, o', false)) : o.queue.msqidDs.msgQnum ≠ 0 := by
  intro hempty
  simp only [run] at h
  split at h
  next remove q hrun =>
    have hpost := (wp_of_run hrun (msgctl_rmid who o.queue)).2
    grind
  · cases (congrArg (fun r => r.1) h)

end Marked

/-! ## §3. Removals that are final. -/

/-- A send that has queue `i` in hand. -/
def Point.sends (i : Nat) : Point → Bool
  | .found j _ _ (.snd _) => j = i
  | _ => false

/-- The steps after which a removal is final:
* `IPC_RMID` marks a queue without messages,
* when the manager forgets the queue, no send has it in hand,
* the next identifier is not one that a queue has had. -/
def final (w : World) : Step → Bool
  | .msgget _ _ _ _ => !w.ids.contains w.nextIpcId
  | .run t =>
    match w.threads.pc t with
    | .found i _ _ (.ctl .rmid) => (w.objects[i]?).all (fun o => o.queue.msqidDs.msgQnum == 0)
    | .removing msqid =>
      (w.manager.msqidQueues.lookup msqid.toInt).all (fun i => !w.threads.any (Point.sends i))
    | _ => true
  | _ => true

/-- No two queues have had the same identifier, and manager and threads know a queue
under its own. -/
@[grind cases] structure Numbered (w : World) : Prop where
  count : w.ids.length = w.objects.length
  distinct : w.ids.Nodup
  listed : ∀ id i, w.manager.msqidQueues.lookup id = some i →
    ∃ msqid, w.ids[i]? = some msqid ∧ id = msqid.toInt
  found : ∀ t i msqid who call, w.threads.pc t = .found i msqid who call → w.ids[i]? = some msqid
  removing : ∀ t msqid, w.threads.pc t = .removing msqid →
    ∃ (i : Nat) (o : QueueObject), w.ids[i]? = some msqid ∧ w.objects[i]? = some o
      ∧ o.queue.markRemoved = true

/-- Queue `i` is out of reach. -/
@[grind cases] structure Gone (w : World) (i : Nat) : Prop where
  marked : ∃ o, w.objects[i]? = some o ∧ o.queue.markRemoved = true
  unlisted : ∀ id, w.manager.msqidQueues.lookup id ≠ some i
  unkeyed : ∀ k msqid, w.ids[i]? = some msqid → w.manager.keyMsqid.lookup k ≠ some msqid
  unsent : ∀ t, (w.threads.pc t).sends i = false

/-- **The invariant**: the queues that were removed are gone. -/
@[grind cases] structure Settled (h : History) : Prop where
  numbered : Numbered h.world
  gone : ∀ r ∈ h.removed, h.world.ids[r.queue]? = some r.msqid ∧ Gone h.world r.queue

/-- An identifier is that of one queue. -/
theorem Numbered.unique {w : World} (h : Numbered w) {i j : Nat} {msqid : BitVec 32}
    (hi : w.ids[i]? = some msqid) (hj : w.ids[j]? = some msqid) : i = j :=
  (h.distinct.getElem_inj_iff).mp
    ((getElem?_eq_some_iff.mp hi).2.trans (getElem?_eq_some_iff.mp hj).2.symm)

theorem Gone.lt {w : World} {i : Nat} (h : Gone w i) : i < w.objects.length := by
  obtain ⟨o, ho, -⟩ := h.marked
  exact (getElem?_eq_some_iff.mp ho).1

section Steps

variable {cfg : Config} {w : World} {t : Nat} {p : Point}

/-- The point is one that a thread reaches without a lock: outside, or with a queue that
the manager has. -/
def Point.reached (w : World) : Point → Prop
  | .returned _ => True
  | .found i msqid _ _ => w.manager.msqidQueues.lookup msqid.toInt = some i
  | .removing _ => False

theorem Numbered.move (h : Numbered w) (hp : p.reached w) :
    Numbered { w with threads := w.threads.goto t p } := by
  refine ⟨h.count, h.distinct, h.listed, ?_, ?_⟩
  · intro u i msqid who call hpc
    simp only [pc_goto] at hpc
    split at hpc
    · subst hpc
      obtain ⟨id, hid, heq⟩ := h.listed _ _ hp
      rw [BitVec.toInt_inj.mp heq]
      exact hid
    · exact h.found u i msqid who call hpc
  · intro u msqid hpc
    simp only [pc_goto] at hpc
    split at hpc
    · subst hpc
      exact hp.elim
    · exact h.removing u msqid hpc

variable {i : Nat} {o : QueueObject} {msqid : BitVec 32} {who : Caller} {call : Call}

theorem Gone.move (h : Gone w i) (hp : p.reached w) :
    Gone { w with threads := w.threads.goto t p } i := by
  refine ⟨h.marked, h.unlisted, h.unkeyed, ?_⟩
  intro u
  simp only [pc_goto]
  split
  · cases p with
    | returned r => rfl
    | removing msqid => rfl
    | found j msqid who call =>
      -- a queue that was just looked up is still listed
      have hne : j ≠ i := by
        rintro rfl
        exact h.unlisted _ hp
      cases call with
      | snd a => exact decide_eq_false hne
      | rcv a => rfl
      | ctl cmd => rfl
  · exact h.unsent u

section Create

variable (h : Numbered w) (hnew : w.nextIpcId ∉ w.ids) (key : BitVec 32) (mode : Nat)
  (who : Caller) (named : Bool)
include h hnew

theorem Numbered.create : Numbered (w.create key mode who named) := by
  have hids : ∀ (i : Nat) id, w.ids[i]? = some id →
    (w.ids ++ [w.nextIpcId])[i]? = some id := by grind
  refine ⟨?_, ?_, ?_, ?_, ?_⟩
  · simp [World.create, h.count]
  · exact h.distinct.append (List.nodup_singleton _) (List.disjoint_singleton.mpr hnew)
  · have hcount := h.count
    intro id i hlookup
    grind [World.create]
  · intro u i msqid caller call hpc
    exact hids i msqid (h.found u i msqid caller call hpc)
  · intro u msqid hpc
    obtain ⟨i, o, heq, ho, hmark⟩ := h.removing u msqid hpc
    refine ⟨i, o, hids i msqid heq, ?_, hmark⟩
    show (w.objects ++ _)[i]? = some o
    rw [List.getElem?_append_left (getElem?_eq_some_iff.mp ho).1]
    exact ho

theorem Gone.create (hgone : Gone w i) : Gone (w.create key mode who named) i := by
  have hlt := hgone.lt
  have hcount := h.count
  refine ⟨?_, ?_, ?_, hgone.unsent⟩
  · obtain ⟨o, ho, hmark⟩ := hgone.marked
    refine ⟨o, ?_, hmark⟩
    show (w.objects ++ _)[i]? = some o
    rw [List.getElem?_append_left hlt]
    exact ho
  · grind [World.create]
  · intro k msqid hid
    have hold : w.ids[i]? = some msqid := by
      rw [← List.getElem?_append_left (by omega)]
      exact hid
    have hne : w.nextIpcId ≠ msqid := by
      rintro rfl
      exact hnew (List.mem_of_getElem? hold)
    simp only [World.create]
    grind

end Create

/-- **`msgget`** creates a queue or changes nothing. -/
theorem msgget_cases (w : World) (who : Caller) (key msgflg : BitVec 32) :
    (w.msgget who key msgflg).2 = w
      ∨ ∃ mode named, (w.msgget who key msgflg).2 = w.create key mode who named := by
  unfold World.msgget
  split
  · exact .inl rfl
  · grind

theorem Numbered.msgget (h : Numbered w) (hnew : w.nextIpcId ∉ w.ids) (who : Caller)
    (key msgflg : BitVec 32) : Numbered (w.msgget who key msgflg).2
      ∧ ∀ i, Gone w i → Gone (w.msgget who key msgflg).2 i := by
  rcases msgget_cases w who key msgflg with heq | ⟨mode, named, heq⟩
  · rw [heq]
    exact ⟨h, fun _ => id⟩
  · rw [heq]
    exact ⟨h.create hnew key mode who named, fun _ => Gone.create h hnew key mode who named⟩

/-- A call runs under the lock of its queue. -/
def World.after (cfg : Config) (w : World) (t i : Nat) (msqid : BitVec 32) (who : Caller)
    (call : Call) (o : QueueObject) : World :=
  { w with
    objects := w.objects.set i (o.run cfg who call).2.1
    threads := w.threads.goto t
      (if (o.run cfg who call).2.2 then .removing msqid else .returned (o.run cfg who call).1) }

theorem marked_set (cfg : Config) (who : Caller) (call : Call) {j : Nat}
    (hi : w.objects[i]? = some o)
    (hj : ∃ o', w.objects[j]? = some o' ∧ o'.queue.markRemoved = true) :
    ∃ o', (w.objects.set i (o.run cfg who call).2.1)[j]? = some o'
      ∧ o'.queue.markRemoved = true := by
  obtain ⟨o', ho', hmark⟩ := hj
  have hlt := (getElem?_eq_some_iff.mp hi).1
  by_cases hij : i = j
  · subst hij
    cases hi.symm.trans ho'
    exact ⟨_, List.getElem?_set_self hlt, run_marked cfg who hmark call⟩
  · refine ⟨o', ?_, hmark⟩
    rw [List.getElem?_set_ne hij]
    exact ho'

theorem Numbered.after (h : Numbered w) (hpc : w.threads.pc t = .found i msqid who call)
    (ho : w.objects[i]? = some o) : Numbered (w.after cfg t i msqid who call o) := by
  refine ⟨h.count.trans List.length_set.symm, h.distinct, h.listed, ?_, ?_⟩
  · intro u j id caller c hu
    show w.ids[j]? = some id
    grind [World.after]
  · intro u id hu
    simp only [World.after, pc_goto] at hu
    split at hu
    · split at hu
      next hremove =>
        -- this call was the `IPC_RMID`
        cases hu
        have hlt := (getElem?_eq_some_iff.mp ho).1
        exact ⟨i, _, h.found t i msqid who call hpc, List.getElem?_set_self hlt,
          marked_of_removing cfg who hremove⟩
      · cases hu
    · obtain ⟨j, o', heq, ho', hmark⟩ := h.removing u id hu
      obtain ⟨o'', ho'', hmark'⟩ := marked_set cfg who call ho ⟨o', ho', hmark⟩
      exact ⟨j, o'', heq, ho'', hmark'⟩

theorem Gone.after {j : Nat} (h : Gone w j) (ho : w.objects[i]? = some o) :
    Gone (w.after cfg t i msqid who call o) j := by
  refine ⟨marked_set cfg who call ho h.marked, h.unlisted, h.unkeyed, ?_⟩
  intro u
  simp only [World.after, pc_goto]
  split
  · split
    · rfl
    · rfl
  · exact h.unsent u

/-- The manager forgets a queue. -/
def World.forget (w : World) (t : Nat) (msqid : BitVec 32) : World :=
  { w with
    manager := w.manager.removeMsqid msqid
    threads := w.threads.goto t (.returned (.ok 0)) }

theorem lookup_removeMsqid {m : MsgManager} {id : Int}
    (h : (m.removeMsqid msqid).msqidQueues.lookup id = some i) :
    m.msqidQueues.lookup id = some i ∧ id ≠ msqid.toInt := by
  simp only [MsgManager.removeMsqid, OrdMap.lookup_alter] at h
  split at h
  · cases h
  next hne => exact ⟨h, hne⟩

theorem lookup_key_removeMsqid {m : MsgManager} {id : BitVec 32} {k : BitVec 32}
    (h : (m.removeMsqid msqid).keyMsqid.lookup k = some id) :
    m.keyMsqid.lookup k = some id ∧ id ≠ msqid := by
  simp only [MsgManager.removeMsqid, Table.lookup_filterKeys] at h
  grind

theorem Numbered.forget (h : Numbered w) (msqid : BitVec 32) : Numbered (w.forget t msqid) := by
  have hmoved := h.move (t := t) (p := .returned (.ok 0)) trivial
  refine ⟨h.count, h.distinct, ?_, hmoved.found, hmoved.removing⟩
  intro id i hlookup
  exact h.listed id i (lookup_removeMsqid hlookup).1

theorem Gone.forget (h : Gone w i) (msqid : BitVec 32) : Gone (w.forget t msqid) i := by
  have hmoved := h.move (t := t) (p := .returned (.ok 0)) trivial
  refine ⟨h.marked, ?_, ?_, hmoved.unsent⟩
  · intro id hlookup
    exact h.unlisted id (lookup_removeMsqid hlookup).1
  · intro k id hid hlookup
    exact h.unkeyed k id hid (lookup_key_removeMsqid hlookup).1

/-- **The queue that the manager forgets is gone**, if no send has it in hand. -/
theorem Numbered.gone_of_forget (h : Numbered w) (hpc : w.threads.pc t = .removing msqid)
    (hlookup : w.manager.msqidQueues.lookup msqid.toInt = some i)
    (hsends : w.threads.any (sends i) = false) :
    w.ids[i]? = some msqid ∧ Gone (w.forget t msqid) i := by
  obtain ⟨id, hid, heq⟩ := h.listed _ _ hlookup
  rw [← BitVec.toInt_inj.mp heq] at hid
  obtain ⟨j, o, hj, ho, hmark⟩ := h.removing t msqid hpc
  -- the queue that was marked is the one that is listed
  obtain rfl := h.unique hj hid
  refine ⟨hid, ⟨o, ho, hmark⟩, ?_, ?_, ?_⟩
  · intro id' hafter
    obtain ⟨hbefore, hne⟩ := lookup_removeMsqid hafter
    obtain ⟨msqid', hj', heq'⟩ := h.listed id' j hbefore
    rw [Option.some.inj (hj'.symm.trans hj)] at heq'
    exact hne heq'
  · intro k msqid' hj' hafter
    exact (lookup_key_removeMsqid hafter).2 (Option.some.inj (hj'.symm.trans hj))
  · intro u
    simp only [World.forget, pc_goto]
    split
    · rfl
    · exact eq_false_of_any rfl hsends u

/-- Under the condition `IPC_RMID` never leaves a queue with messages behind. -/
theorem completes_found (hpc : w.threads.pc t = .found i msqid who call)
    (hok : final w (.run t) = true) : completes cfg w (.run t) = [] := by
  simp only [final, hpc] at hok
  simp only [completes, hpc]
  cases call with
  | snd a => rfl
  | rcv a => rfl
  | ctl cmd =>
    cases cmd with
    | stat write => rfl
    | set buf => rfl
    | rmid =>
      simp only
      split
      · rfl
      next o ho =>
        simp only [ho, Option.all_some, beq_iff_eq] at hok
        split
        next n o' hrun => exact absurd hok (not_empty_of_kept cfg who hrun)
        · rfl

theorem completes_removing (hpc : w.threads.pc t = .removing msqid) {r : Removal}
    (hr : r ∈ completes cfg w (.run t)) :
    r.msqid = msqid ∧ w.manager.msqidQueues.lookup msqid.toInt = some r.queue := by
  simp only [completes, hpc] at hr
  cases hlookup : w.manager.msqidQueues.lookup msqid.toInt with
  | none => simp [hlookup] at hr
  | some i =>
    simp only [hlookup, removalOf] at hr
    grind

/-- **One step.** -/
theorem Settled.step {h h' : History} {s : Step} (hinv : Settled h) (hok : final h.world s = true)
    (hs : h.step cfg s = some h') : Settled h' := by
  obtain ⟨w', hw', rfl⟩ := Option.map_eq_some_iff.mp hs
  obtain ⟨hnum, hgone⟩ := hinv
  -- a step that completes no removal and keeps what is numbered and what is gone
  have hquiet : completes cfg h.world s = [] → Numbered w' →
      (∀ (i : Nat) id, h.world.ids[i]? = some id → w'.ids[i]? = some id) →
      (∀ i, Gone h.world i → Gone w' i) →
      Settled ⟨w', h.removed ++ completes cfg h.world s⟩ := by
    intro hnone hnum' hids hkeep
    rw [hnone, List.append_nil]
    exact ⟨hnum', fun r hr => ⟨hids _ _ (hgone r hr).1, hkeep _ (hgone r hr).2⟩⟩
  cases s with
  | msgget t who key msgflg =>
    simp only [Msg.step] at hw'
    split at hw'
    · cases hw'
      have hnew : h.world.nextIpcId ∉ h.world.ids := by simpa [final] using hok
      obtain ⟨hnum', hkeep⟩ := hnum.msgget hnew who key msgflg
      refine hquiet rfl (hnum'.move trivial) ?_ (fun i hi => (hkeep i hi).move trivial)
      intro i id hid
      show (h.world.msgget who key msgflg).2.ids[i]? = some id
      rcases msgget_cases h.world who key msgflg with heq | ⟨mode, named, heq⟩
      · rw [heq]
        exact hid
      · rw [heq]
        exact (List.getElem?_append_left (getElem?_eq_some_iff.mp hid).1).trans hid
    · cases hw'
  | call t who msqid call =>
    simp only [Msg.step] at hw'
    split at hw'
    · cases hw'
      refine (fun (hreached : reached h.world _) =>
        hquiet rfl (hnum.move hreached) (fun _ _ => id) (fun i hi => hi.move hreached)) ?_
      split
      · trivial
      split
      next i hlookup => exact hlookup
      · trivial
    · cases hw'
  | info t who msqid cmd write =>
    simp only [Msg.step] at hw'
    split at hw'
    · cases hw'
      exact hquiet rfl (hnum.move trivial) (fun _ _ => id) (fun i hi => hi.move trivial)
    · cases hw'
  | run t =>
    simp only [Msg.step] at hw'
    split at hw'
    · cases hw'
    next msqid hpc =>
      cases hw'
      refine ⟨hnum.forget msqid, ?_⟩
      intro r hr
      rcases List.mem_append.mp hr with hold | hnew
      · exact ⟨(hgone r hold).1, (hgone r hold).2.forget msqid⟩
      · obtain ⟨hid, hlookup⟩ := completes_removing hpc hnew
        simp only [final, hpc, hlookup, Option.all_some, Bool.not_eq_true'] at hok
        rw [hid]
        exact hnum.gone_of_forget hpc hlookup hok
    next i msqid who call hpc =>
      split at hw'
      · cases hw'
      next o ho =>
        cases hw'
        exact hquiet (completes_found hpc hok) (hnum.after hpc ho) (fun _ _ => id)
          (fun i hi => hi.after ho)
  | drawId =>
    cases hw'
    exact hquiet rfl ⟨hnum.count, hnum.distinct, hnum.listed, hnum.found, hnum.removing⟩
      (fun _ _ => id) (fun i hi => ⟨hi.marked, hi.unlisted, hi.unkeyed, hi.unsent⟩)

end Steps

/-! ## §4. Whole runs. -/

theorem settled_initial : Settled .initial := by
  refine ⟨⟨rfl, .nil, ?_, ?_, ?_⟩, fun _ hr => absurd hr List.not_mem_nil⟩
  · intro id i h
    cases h
  · intro t i msqid who call h
    cases h
  · intro t msqid h
    cases h

theorem Settled.staysRemoved {cfg : Config} {h : History} (hinv : Settled h) {r : Removal}
    (hr : r ∈ h.removed) : StaysRemoved cfg h.world r := by
  obtain ⟨hid, hgone⟩ := hinv.gone r hr
  have hunkeyed := hgone.unkeyed r.key r.msqid hid
  refine ⟨?_, ⟨hunkeyed, hgone.unlisted⟩, ?_⟩
  · intro t i who call o htransfers ho n
    -- the only queue that has ever had this identifier
    have hqueue : ∀ j caller c, h.world.threads.pc t = .found j r.msqid caller c → j = r.queue := by
      intro j caller c hpc
      exact hinv.numbered.unique (hinv.numbered.found t j r.msqid caller c hpc) hid
    generalize hpc : h.world.threads.pc t = p at htransfers
    cases p with
    | returned x | removing x => cases htransfers
    | found j id caller c =>
      cases c with
      | ctl cmd => cases htransfers
      | snd a =>
        simp only [transfers] at htransfers
        split at htransfers
        next heq =>
          subst heq
          have hj := hqueue j caller _ hpc
          have hnone := hgone.unsent t
          rw [hpc] at hnone
          exact absurd hj (of_decide_eq_false hnone)
        · cases htransfers
      | rcv a =>
        simp only [transfers] at htransfers
        split at htransfers
        · grind [rcv_refused]
        · cases htransfers
  · intro who msgflg hcreat hroom honly
    have hfree : h.world.manager.keyMsqid.lookup r.key = none := by
      cases hlookup : h.world.manager.keyMsqid.lookup r.key with
      | none => rfl
      | some id => exact absurd (honly id hlookup ▸ hlookup) hunkeyed
    unfold World.msgget
    rw [if_neg (Nat.not_le.mpr hroom)]
    by_cases hprivate : r.key = IPC_PRIVATE
    · rw [if_pos hprivate]
      exact ⟨false, rfl⟩
    · rw [if_neg hprivate, hfree]
      exact ⟨true, if_neg hcreat⟩

/-- **A REMOVED QUEUE STAYS REMOVED.**  In every run whose removals find an empty queue that
no send has in hand, and in which no queue gets the identifier of an earlier one: after
`IPC_RMID` has succeeded no send or receive on the identifier does, and the key is free. -/
theorem removed_queue_stays_removed (cfg : Config) (h : History)
    (hh : Reach (History.step cfg) (fun h s => final h.world s = true) .initial h)
    (r : Removal) (hr : r ∈ h.removed) : StaysRemoved cfg h.world r :=
  (hh.invariant Settled settled_initial (fun _ _ _ hi => hi.step)).staysRemoved hr

/-- A queue with the key 77 is made and removed, and `shmget` draws an identifier; a receive
on the queue fails, and the key gets the next identifier. -/
theorem removed_key_is_free : ∃ h,
    Reach (History.step smallKernel) (fun h s => final h.world s = true) .initial h
    ∧ ∃ r ∈ h.removed, r.key = 77 ∧ StaysRemoved smallKernel h.world r
      ∧ (h.world.msgget root 77 IPC_CREAT).1.toOption = some 2 := by
  obtain ⟨h, hh, hc⟩ := exists_reach_guarded (History.step smallKernel) .initial
    (fun h => final h.world)
    [.msgget 0 root 77 IPC_CREAT, .drawId,
     .call 0 root 0 (.snd (sendOf 5)), .run 0,
     .call 0 root 0 (.rcv (receiveOf 5 ⟨false, false, false, false⟩)), .run 0,
     .call 1 root 0 (.rcv (receiveOf 5 ⟨false, false, false, false⟩)),
     .call 0 root 0 (.ctl .rmid), .run 0, .run 0, .run 1]
    (fun h => h.removed = [⟨0, 0, 77⟩]
      ∧ (h.world.msgget root 77 IPC_CREAT).1.toOption = some 2) (by decide +kernel)
  have hr : (⟨0, 0, 77⟩ : Removal) ∈ h.removed := by
    rw [hc.1]
    exact List.mem_singleton_self _
  exact ⟨h, hh, _, hr, rfl, removed_queue_stays_removed smallKernel h hh _ hr, hc.2⟩

def Point.isOk (n : Int) : Point → Bool
  | .returned (.ok m) => m == n
  | _ => false

theorem eq_of_isOk {n : Int} {p : Point} (h : p.isOk n = true) : p = .returned (.ok n) := by
  unfold isOk at h
  split at h
  · rw [beq_iff_eq.mp h]
  · cases h

/-- **A queue with a message outlives its removal.**  `IPC_RMID` succeeds; a send on the
identifier that starts afterwards succeeds, and `msgget` with the key fails because of the old
queue. -/
theorem removed_queue_accepts_a_message : ∃ h, Reach (History.step smallKernel) Always .initial h
    ∧ ∃ r ∈ h.removed, ¬ StaysRemoved smallKernel h.world r
      ∧ h.world.threads.pc 1 = .returned (.ok 0)
      ∧ (∃ o, h.world.objects[r.queue]? = some o ∧ o.sent.length = 2)
      ∧ (h.world.msgget root r.key IPC_CREAT).1 = .error .idRemoved := by
  obtain ⟨h, hh, hremoved, hkey, hsent, hcount, hget⟩ :=
    exists_reach (History.step smallKernel) .initial
    [.msgget 0 root 77 IPC_CREAT,
     .call 0 root 0 (.snd (sendOf 5)), .run 0,
     .call 0 root 0 (.ctl .rmid), .run 0,
     .call 1 root 0 (.snd (sendOf 5)), .run 1]
    (fun h => h.removed = [⟨0, 0, 77⟩] ∧ h.world.manager.keyMsqid.lookup 77 = some 0
      ∧ (h.world.threads.pc 1).isOk 0 = true
      ∧ (h.world.objects[0]?).any (fun o => o.sent.length == 2) = true
      ∧ (h.world.msgget root 77 IPC_CREAT).1 = .error .idRemoved)
    (by decide +kernel)
  have hr : (⟨0, 0, 77⟩ : Removal) ∈ h.removed := by
    rw [hremoved]
    exact List.mem_singleton_self _
  refine ⟨h, hh, _, hr, fun hstays => hstays.forgotten.1 hkey, eq_of_isOk hsent, ?_, hget⟩
  obtain ⟨o, ho, hlen⟩ := (Option.any_eq_true _ _).mp hcount
  exact ⟨o, ho, beq_iff_eq.mp hlen⟩

end StarryOS.Ipc.Msg
