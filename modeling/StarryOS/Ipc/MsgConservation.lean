/-
  StarryOS.Ipc.MsgConservation — NO MESSAGE IS LOST OR DUPLICATED, and the
  counters are right.

  The messages that were sent and not yet received, in the order in which they
  arrived, are a list: `undelivered`.  `Sound` says that the buckets of the
  queue hold this list and that the counters count it.  It is kept by every call
  under the lock of the queue, whether or not the call fails, so it holds of
  every queue in every run of any number of threads.
-/
import StarryOS.Ipc.Msg

namespace StarryOS.Ipc.Msg

open Lib Mm Message List

/-! ## §1. The calls, one by one. -/

/-- The messages that are stored, in the order of the map. -/
def MessageQueue.stored (q : MessageQueue) : List Message := q.messages.entries.flatMap Prod.snd

/-- The same messages and counters. -/
structure SameMessages (q q' : MessageQueue) : Prop where
  messages : q'.messages = q.messages
  totalBytes : q'.totalBytes = q.totalBytes
  cbytes : q'.msqidDs.msgCbytes = q.msqidDs.msgCbytes
  qnum : q'.msqidDs.msgQnum = q.msqidDs.msgQnum

/-- What a successful send does. -/
@[grind cases] structure Enqueued (cfg : Config) (q : MessageQueue) (m : Message)
    (q' : MessageQueue) : Prop where
  mtype : 0 < m.mtype ∧ m.mtype < 2 ^ 63
  fits : q.footprint + (32 + m.data.length) ≤ cfg.memory.bytes
  limit : addU64 q.totalBytes m.data.length ≤ q.msqidDs.msgQbytes
  messages : q'.messages = Buckets.push Message.mtype m q.messages
  totalBytes : q'.totalBytes = addU64 q.totalBytes m.data.length
  cbytes : q'.msqidDs.msgCbytes = addU64 q.msqidDs.msgCbytes m.data.length
  qnum : q'.msqidDs.msgQnum = addU64 q.msqidDs.msgQnum 1

/-- What a receive without `MSG_COPY` does, once it has selected `m`. -/
@[grind cases] structure Dequeued (q : MessageQueue) (m : Message) (q' : MessageQueue) : Prop where
  messages : q'.messages = Buckets.removeAt m.mtype 0 q.messages
  totalBytes : q'.totalBytes = subU64 q.totalBytes m.data.length
  cbytes : q'.msqidDs.msgCbytes = subU64 q.msqidDs.msgCbytes m.data.length
  qnum : q'.msqidDs.msgQnum = subU64 q.msqidDs.msgQnum 1

variable {cfg : Config} {q : MessageQueue}

section Calls

theorem answer_spec {α : Type} (x : AxResult α) :
    wp (answer x : QueueM α) q (fun a q' => x = .ok a ∧ q' = q) (fun _ q' => q' = q) := by
  cases x with
  | ok a => exact ⟨rfl, rfl⟩
  | error e => rfl

theorem alloc_spec (n : Nat) :
    wp (alloc cfg n) q (fun _ q' => q' = q ∧ q.footprint + n ≤ cfg.memory.bytes)
      (fun _ q' => q' = q) := by
  unfold alloc
  refine wp_exit rfl fun h => ?_
  exact ⟨rfl, Nat.not_lt.mp h⟩

theorem enqueueMessage_spec (m : Message) (hm : 0 < m.mtype ∧ m.mtype < 2 ^ 63) :
    wp (enqueueMessage cfg m) q (fun _ q' => Enqueued cfg q m q') (fun _ q' => q' = q) := by
  unfold enqueueMessage
  refine wp_exit rfl fun hlimit => ?_
  refine wp_seq (alloc_spec _) ?_
  rintro _ q' ⟨rfl, hfits⟩
  exact ⟨hm, hfits, Nat.not_lt.mp hlimit, rfl, rfl, rfl, rfl⟩

/-- **`msgsnd`** enqueues, or changes nothing. -/
theorem msgsnd_spec (who : Caller) (a : SendArgs) (stamp : Nat) :
    wp (msgsnd cfg who a stamp) q (fun m q' => m.stamp = stamp ∧ Enqueued cfg q m q')
      (fun _ q' => q' = q) := by
  unfold msgsnd
  refine wp_exit rfl fun _ => ?_
  refine wp_seq (answer_spec a.mtype) ?_
  rintro mtype q₁ ⟨-, rfl⟩
  refine wp_exit rfl fun htype => ?_
  refine wp_seq (alloc_spec a.msgsz) ?_
  rintro _ q₂ ⟨rfl, -⟩
  refine wp_seq (answer_spec _) ?_
  rintro data q₃ ⟨-, rfl⟩
  refine wp_exit rfl fun _ => ?_
  rw [wp_bind]
  have hrange : 0 < mtype.toInt ∧ mtype.toInt < 2 ^ 63 := ⟨by omega, BitVec.toInt_lt⟩
  refine wp_mono_ok (enqueueMessage_spec ⟨mtype.toInt, data, stamp⟩ hrange) ?_
  intro _ q₄ hpost
  simp only [wp_bind, wp_modify, wp_pure]
  exact ⟨trivial, hpost.mtype, hpost.fits, hpost.limit, hpost.messages, hpost.totalBytes,
    hpost.cbytes, hpost.qnum⟩

/-- A message that was selected by type is the first one of its list. -/
theorem select_by_type {msgtyp : BitVec 64} {flags : MsgRcvFlags} {mtype : Int} {m : Message}
    (h : q.select cfg msgtyp flags = .ok (mtype, m)) (hcopy : flags.copy = false) :
    (q.messages.lookup mtype).bind head? = some m := by
  have hbyType : ∀ t, q.findMessageByType t = some (mtype, m) →
      (q.messages.lookup mtype).bind head? = some m := by
    grind [MessageQueue.findMessageByType, Option.map_eq_some_iff]
  -- an iterator stops at an entry of the map
  have hscan : ∀ f : Int × List Message → Option (Int × Message),
      (∀ e r, f e = some r → e.2.head? = some r.2 ∧ e.1 = r.1) →
      q.messages.entries.findSome? f = some (mtype, m) →
      (q.messages.lookup mtype).bind head? = some m := by
    intro f hf hfind
    obtain ⟨e, he, hfe⟩ := exists_of_findSome?_eq_some hfind
    obtain ⟨hhead, hkey⟩ := hf e _ hfe
    simp only at hhead hkey
    have hlookup := (q.messages.lookup_eq_some_iff e.1 e.2).mpr he
    rw [← hkey, hlookup]
    exact hhead
  have hhead : ∀ (e : Int × List Message) (r : Int × Message),
      e.2.head?.map (fun m => (e.1, m)) = some r → e.2.head? = some r.2 ∧ e.1 = r.1 := by simp
  unfold MessageQueue.select at h
  simp only [hcopy, Bool.false_eq_true, if_false] at h
  split at h
  · split at h
    next hfirst =>
      obtain rfl := Except.ok.inj h
      exact hscan _ hhead hfirst
    · cases h
  split at h
  · split at h
    · split at h
      next hne =>
        obtain rfl := Except.ok.inj h
        refine hscan _ ?_ hne
        intro e r hr
        split at hr
        · exact hhead e r hr
        · cases hr
      · cases h
    · grind
  · split at h
    · cases h
    split at h
    next hle =>
      obtain rfl := Except.ok.inj h
      obtain ⟨t, -, ht⟩ := Option.bind_eq_some_iff.mp hle
      exact hbyType t ht
    · cases h

theorem removeMessage_spec (mtype : Int) : wp (removeMessage mtype 0) q
      (fun m q' => (q.messages.lookup mtype).bind head? = some m
        ∧ q'.messages = Buckets.removeAt mtype 0 q.messages
        ∧ q'.totalBytes = subU64 q.totalBytes m.data.length
        ∧ q'.msqidDs.msgCbytes = subU64 q.msqidDs.msgCbytes m.data.length
        ∧ q'.msqidDs.msgQnum = subU64 q.msqidDs.msgQnum 1)
      (fun _ q' => q' = q) := by
  unfold removeMessage
  rw [wp_bind, wp_get]
  cases hb : q.messages.lookup mtype with
  | none => rfl
  | some b =>
    cases b with
    | nil => rfl
    | cons m rest => exact ⟨rfl, rfl, rfl, rfl, rfl⟩

/-- **`msgrcv`** returns the message it has selected; an error changes nothing. -/
theorem msgrcv_spec (who : Caller) (a : ReceiveArgs) : wp (msgrcv cfg who a) q
      (fun r q' => ∃ mtype, q.select cfg a.msgtyp a.flags = .ok (mtype, r.1)
        ∧ (a.flags.copy = true → SameMessages q q')
        ∧ (a.flags.copy = false → r.1.mtype = mtype → Dequeued q r.1 q'))
      (fun _ q' => q' = q) := by
  unfold msgrcv
  refine wp_exit rfl fun _ => ?_
  refine wp_exit rfl fun _ => ?_
  cases hselect : q.select cfg a.msgtyp a.flags with
  | error e => rfl
  | ok r =>
    obtain ⟨mtype, m⟩ := r
    refine wp_exit rfl fun _ => ?_
    refine wp_seq (answer_spec a.writeMtype) ?_
    rintro _ q₁ ⟨-, rfl⟩
    refine wp_seq (answer_spec a.writeText) ?_
    rintro _ q₂ ⟨-, rfl⟩
    rw [wp_bind]
    apply wp_ite
    · intro hcopy
      refine ⟨mtype, rfl, fun _ => ⟨rfl, rfl, rfl, rfl⟩, fun hno => ?_⟩
      cases hcopy.symm.trans hno
    intro hcopy
    rw [Bool.not_eq_true] at hcopy
    refine wp_seq (removeMessage_spec mtype) ?_
    rintro m' q₃ ⟨hhead, hmessages, htotal, hcbytes, hqnum⟩
    obtain rfl := Option.some.inj (hhead.symm.trans (select_by_type hselect hcopy))
    refine ⟨mtype, rfl, fun hyes => absurd (hcopy.symm.trans hyes) (by simp), ?_⟩
    rintro - rfl
    exact ⟨hmessages, htotal, hcbytes, hqnum⟩

/-- `msgctl` touches neither messages nor counters. -/
theorem msgctl_spec (who : Caller) (cmd : CtlCommand) :
    ends (msgctl who cmd) q (SameMessages q) := by
  have hsame : SameMessages q q := ⟨rfl, rfl, rfl, rfl⟩
  unfold ends msgctl
  refine wp_exit hsame fun _ => ?_
  cases cmd with
  | stat write =>
    refine wp_exit hsame fun _ => ?_
    cases write with
    | ok u => exact hsame
    | error e => exact hsame
  | set buf =>
    refine wp_exit hsame fun _ => ?_
    cases buf with
    | error e => exact hsame
    | ok user =>
      simp only [answer, pure_bind]
      refine wp_exit ⟨rfl, rfl, rfl, rfl⟩ fun _ => ?_
      exact ⟨rfl, rfl, rfl, rfl⟩
  | rmid =>
    refine wp_exit hsame fun _ => ?_
    refine wp_exit ⟨rfl, rfl, rfl, rfl⟩ fun _ => ?_
    exact ⟨rfl, rfl, rfl, rfl⟩

end Calls

/-! ## §2. The queue and its history. -/

/-- **The single list of undelivered messages, in the order of arrival.** -/
def QueueObject.undelivered (o : QueueObject) : List Message :=
  o.sent.filter (fun m => decide (m ∉ o.received))

/-- The buckets hold the undelivered messages, and the counters count them. -/
@[grind cases] structure Sound (cfg : Config) (o : QueueObject) : Prop where
  held : Buckets.Holds Message.mtype o.queue.messages o.undelivered
  stamps : o.sent.map Message.stamp = range o.sent.length
  positive : ∀ m ∈ o.sent, 0 < m.mtype ∧ m.mtype < 2 ^ 63
  once : o.received.Nodup
  known : ∀ m ∈ o.received, m ∈ o.sent
  totalBytes : o.queue.totalBytes = (o.undelivered.map (fun m => m.data.length)).sum
  cbytes : o.queue.msqidDs.msgCbytes = o.queue.totalBytes
  qnum : o.queue.msqidDs.msgQnum = o.undelivered.length
  fits : (o.undelivered.map (fun m => 32 + m.data.length)).sum ≤ cfg.memory.bytes

section Invariant

variable {o : QueueObject}

theorem Sound.nodup_sent (h : Sound cfg o) : o.sent.Nodup := by
  have hstamps : (o.sent.map stamp).Nodup := by
    rw [h.stamps]
    exact nodup_range
  exact List.Nodup.of_map _ hstamps

theorem Sound.nodup_undelivered (h : Sound cfg o) : o.undelivered.Nodup :=
  h.nodup_sent.filter _

theorem sum_footprint (l : List Message) : (l.map (fun m => 32 + m.data.length)).sum
    = 32 * l.length + (l.map (fun m => m.data.length)).sum := by
  induction l with
  | nil => rfl
  | cons m l ih =>
    simp only [map_cons, sum_cons, length_cons, ih]
    omega

theorem Sound.footprint_eq (h : Sound cfg o) :
    o.queue.footprint = 32 * o.undelivered.length + o.queue.totalBytes := by
  rw [h.totalBytes, ← sum_footprint]
  exact h.held.total_eq (fun m => 32 + m.data.length)

theorem Sound.stored_perm (h : Sound cfg o) : o.queue.stored.Perm o.undelivered := h.held.perm

theorem sound_new (key : BitVec 32) (mode : Nat) (who : Caller) :
    Sound cfg ⟨.new key mode who, [], []⟩ where
  held := Buckets.holds_empty
  stamps := rfl
  positive := fun _ hm => absurd hm not_mem_nil
  once := nodup_nil
  known := fun _ hm => absurd hm not_mem_nil
  totalBytes := rfl
  cbytes := rfl
  qnum := rfl
  fits := Nat.zero_le _

theorem Sound.congr (h : Sound cfg o) (hsame : SameMessages o.queue q) :
    Sound cfg { o with queue := q } where
  held := by
    show Buckets.Holds mtype q.messages o.undelivered
    rw [hsame.messages]
    exact h.held
  stamps := h.stamps
  positive := h.positive
  once := h.once
  known := h.known
  totalBytes := hsame.totalBytes.trans h.totalBytes
  cbytes := hsame.cbytes.trans (h.cbytes.trans hsame.totalBytes.symm)
  qnum := hsame.qnum.trans h.qnum
  fits := h.fits

/-- A message with a new stamp arrives behind the others. -/
theorem Sound.undelivered_append (h : Sound cfg o) {m : Message} (hm : m.stamp = o.sent.length)
    (q : MessageQueue) : QueueObject.undelivered ⟨q, o.sent ++ [m], o.received⟩
      = o.undelivered ++ [m] := by
  have hfresh : m ∉ o.received := by
    intro hmem
    have hstamp : m.stamp ∈ o.sent.map stamp := mem_map.mpr ⟨m, h.known m hmem, rfl⟩
    rw [h.stamps, mem_range, hm] at hstamp
    exact absurd hstamp (Nat.lt_irrefl _)
  unfold QueueObject.undelivered
  simp [hfresh]

/-- **A send keeps the queue sound.** -/
theorem Sound.enqueue (h : Sound cfg o) {m : Message}
    (hstamp : m.stamp = o.sent.length) (hq : Enqueued cfg o.queue m q) :
    Sound cfg ⟨q, o.sent ++ [m], o.received⟩ := by
  have hlist := h.undelivered_append hstamp q
  have hfoot := h.footprint_eq
  have hbound := hq.fits
  have hmem := cfg.memory.addressable
  have htotal : addU64 o.queue.totalBytes m.data.length = o.queue.totalBytes + m.data.length :=
    addU64_of_lt (by omega)
  refine ⟨?_, ?_, ?_, h.once, ?_, ?_, ?_, ?_, ?_⟩
  · rw [hlist]
    show Buckets.Holds mtype q.messages _
    rw [hq.messages]
    exact h.held.push m
  · show (o.sent ++ [m]).map stamp = _
    rw [map_append, h.stamps, length_append, length_singleton, range_succ,
      map_singleton, hstamp]
  · grind
  · intro m' hm'
    exact mem_append_left _ (h.known m' hm')
  · grind
  · show q.msqidDs.msgCbytes = _
    rw [hq.cbytes, hq.totalBytes, h.cbytes]
  · rw [hlist, length_append]
    show q.msqidDs.msgQnum = _
    rw [hq.qnum, h.qnum]
    exact addU64_of_lt (by omega)
  · rw [hlist, map_append, sum_append, sum_footprint, ← h.totalBytes]
    simp only [map_singleton, sum_singleton]
    omega

/-- The first element of a kind is the first one that equals it. -/
theorem eraseP_eq_erase {α : Type} [DecidableEq α] {p : α → Bool} {x : α} : ∀ {l : List α},
    l.find? p = some x → l.eraseP p = l.erase x := by
  intro l
  induction l with
  | nil =>
    intro hfind
    cases hfind
  | cons y l ih =>
    intro hfind
    cases hp : p y with
    | true => grind
    | false => grind

/-- **A receive keeps the queue sound.** -/
theorem Sound.dequeue (h : Sound cfg o) {m : Message}
    (hfirst : (o.queue.messages.lookup m.mtype).bind head? = some m)
    (hq : Dequeued o.queue m q) : Sound cfg ⟨q, o.sent, o.received ++ [m]⟩ := by
  have hfind : o.undelivered.find? (fun x => x.mtype = m.mtype) = some m := by
    rw [← h.held.find?_bucket]
    exact hfirst
  have hmem := mem_of_find?_eq_some hfind
  obtain ⟨hsent, hnew⟩ := mem_filter.mp hmem
  rw [decide_eq_true_eq] at hnew
  -- the list without the message
  have hlist : QueueObject.undelivered ⟨q, o.sent, o.received ++ [m]⟩ = o.undelivered.erase m := by
    rw [h.nodup_undelivered.erase_eq_filter m]
    unfold QueueObject.undelivered
    rw [filter_filter]
    grind
  have herase : QueueObject.undelivered ⟨q, o.sent, o.received ++ [m]⟩
      = o.undelivered.eraseP (fun x => x.mtype = m.mtype) :=
    hlist.trans (eraseP_eq_erase hfind).symm
  have hperm : o.undelivered.Perm
      (m :: QueueObject.undelivered ⟨q, o.sent, o.received ++ [m]⟩) := by
    rw [hlist]
    exact perm_cons_erase hmem
  have hsum : ∀ f : Message → Nat, (o.undelivered.map f).sum
      = f m + ((QueueObject.undelivered ⟨q, o.sent, o.received ++ [m]⟩).map f).sum := by
    intro f
    rw [(hperm.map f).sum_eq, map_cons, sum_cons]
  have hlength := hperm.length_eq
  rw [length_cons] at hlength
  have hbytes := hsum (fun x => x.data.length)
  have hfoot := hsum (fun x => 32 + x.data.length)
  have hfits := h.fits
  have haddr := cfg.memory.addressable
  have hkey := sum_footprint o.undelivered
  have htotal := h.totalBytes
  have hlt : o.queue.totalBytes < 2 ^ 64 := by omega
  have hle : m.data.length ≤ o.queue.totalBytes := by omega
  refine ⟨?_, h.stamps, h.positive, ?_, ?_, ?_, ?_, ?_, ?_⟩
  · rw [herase]
    show Buckets.Holds mtype q.messages _
    rw [hq.messages]
    exact h.held.removeAt m.mtype
  · grind
  · grind
  · show q.totalBytes = _
    rw [hq.totalBytes, subU64_of_le hlt hle]
    omega
  · show q.msqidDs.msgCbytes = _
    rw [hq.cbytes, hq.totalBytes, h.cbytes]
  · show q.msqidDs.msgQnum = _
    rw [hq.qnum, h.qnum, subU64_of_le (by omega) (by omega)]
    omega
  · omega

/-- **Every call keeps its queue sound**, whether or not it fails. -/
theorem Sound.run (h : Sound cfg o) (who : Caller) (call : Call) :
    Sound cfg (o.run cfg who call).2.1 := by
  cases call with
  | snd a =>
    have hspec := @msgsnd_spec cfg o.queue who a o.sent.length
    simp only [QueueObject.run]
    split
    next m q hrun =>
      have hpost := wp_of_run hrun hspec
      exact h.enqueue hpost.1 hpost.2
    next e q hrun =>
      have hpost := wp_of_error hrun hspec
      rw [hpost]
      exact h
  | rcv a =>
    have hspec := @msgrcv_spec cfg o.queue who a
    simp only [QueueObject.run]
    split
    next m len q hrun =>
      obtain ⟨mtype, hselect, hcopied, htaken⟩ := wp_of_run hrun hspec
      cases hcopy : a.flags.copy with
      | true => exact h.congr (hcopied hcopy)
      | false =>
        have hfirst := select_by_type hselect hcopy
        -- the list of a type holds messages of this type
        have hmtype : m.mtype = mtype := by
          rw [h.held.find?_bucket] at hfirst
          simpa using find?_some hfirst
        subst hmtype
        exact h.dequeue hfirst (htaken hcopy rfl)
    next e q hrun =>
      have hpost := wp_of_error hrun hspec
      rw [hpost]
      exact h
  | ctl cmd =>
    have hspec := @msgctl_spec o.queue who cmd
    simp only [QueueObject.run]
    split
    next remove q hrun =>
      have hpost := wp_of_run hrun hspec
      exact h.congr hpost
    next e q hrun =>
      have hpost := wp_of_error hrun hspec
      exact h.congr hpost

end Invariant

/-! ## §3. Whole runs. -/

/-- A state in which every queue is sound. -/
def World.AllSound (cfg : Config) (w : World) : Prop := ∀ o ∈ w.objects, Sound cfg o

section Runs

variable {w : World}

section

variable (h : w.AllSound cfg)
include h

theorem World.AllSound.create (key : BitVec 32) (mode : Nat) (who : Caller)
    (named : Bool) : (w.create key mode who named).AllSound cfg := by
  intro o ho
  rcases mem_append.mp ho with ho | ho
  · exact h o ho
  · rw [mem_singleton.mp ho]
    exact sound_new key mode who

theorem World.AllSound.msgget (who : Caller) (key msgflg : BitVec 32) :
    (w.msgget who key msgflg).2.AllSound cfg := by
  unfold World.msgget
  split
  · exact h
  split
  · exact h.create _ _ _ _
  split
  · grind
  · split
    · exact h
    · exact h.create _ _ _ _

/-- A call by one thread leaves the queues of the others alone. -/
theorem World.AllSound.set {i : Nat} {o : QueueObject}
    (hi : w.objects[i]? = some o) (who : Caller) (call : Call) :
    ∀ o' ∈ w.objects.set i (o.run cfg who call).2.1, Sound cfg o' := by
  intro o' ho'
  rcases mem_or_eq_of_mem_set ho' with ho' | rfl
  · exact h o' ho'
  · exact (h o (mem_of_getElem? hi)).run who call

theorem allSound_step {w' : World} (i : Step)
    (hstep : step cfg w i = some w') : w'.AllSound cfg := by
  cases i with
  | msgget t who key msgflg =>
    simp only [step] at hstep
    split at hstep
    · cases hstep
      exact h.msgget who key msgflg
    · cases hstep
  | call t who msqid call | info t who msqid cmd write =>
    simp only [step] at hstep
    split at hstep
    · cases hstep
      exact h
    · cases hstep
  | run t =>
    simp only [step] at hstep
    split at hstep
    · cases hstep
    · cases hstep
      exact h
    · split at hstep
      · cases hstep
      · next hi =>
          cases hstep
          exact h.set hi _ _
  | drawId =>
    cases hstep
    exact h

end

/-- **Every queue of every run is sound.** -/
theorem allSound_of_reach (hw : Reach (step cfg) Always .initial w) : w.AllSound cfg :=
  hw.invariant (World.AllSound cfg) (fun _ ho => absurd ho not_mem_nil)
    (fun _ i _ h _ => allSound_step h i)

end Runs

/-- **What a user of a queue relies on.** -/
@[grind cases] structure Conserved (cfg : Config) (o : QueueObject) : Prop where
  totalBytes : o.queue.totalBytes = (o.queue.stored.map (fun m => m.data.length)).sum
  cbytes : o.queue.msqidDs.msgCbytes = o.queue.totalBytes
  qnum : o.queue.msqidDs.msgQnum = o.queue.stored.length
  /-- No type maps to an empty list. -/
  nonempty : ∀ mtype, o.queue.messages.lookup mtype ≠ some []
  /-- No two sends are the same, and no two receives return the same send. -/
  sentOnce : o.sent.Nodup
  receivedOnce : o.received.Nodup
  /-- What was sent has been received or is stored. -/
  accounted : o.sent.Perm (o.received ++ o.queue.stored)
  /-- A send that succeeds has met the limit in force. -/
  withinLimit : ∀ who a stamp m q', msgsnd cfg who a stamp o.queue = .ok m q' →
    q'.totalBytes ≤ o.queue.msqidDs.msgQbytes
  /-- A receive that fails has done nothing. -/
  failedReceive : ∀ who a e q', msgrcv cfg who a o.queue = .error e q' → q' = o.queue

theorem Sound.conserved {cfg : Config} {o : QueueObject} (h : Sound cfg o) : Conserved cfg o where
  totalBytes := by
    rw [h.totalBytes]
    exact (h.stored_perm.map _).sum_eq.symm
  cbytes := h.cbytes
  qnum := h.qnum.trans h.stored_perm.length_eq.symm
  nonempty := fun _ hnil => (h.held.bucket hnil).2 rfl
  sentOnce := h.nodup_sent
  receivedOnce := h.once
  accounted := by
    have hreceived : (o.sent.filter (fun m => decide (m ∈ o.received))).Perm o.received := by
      refine (perm_ext_iff_of_nodup (h.nodup_sent.filter _) h.once).mpr ?_
      intro m
      rw [mem_filter, decide_eq_true_eq]
      exact ⟨fun hm => hm.2, fun hm => ⟨h.known m hm, hm⟩⟩
    have hsplit := filter_append_perm (fun m => decide (m ∈ o.received)) o.sent
    refine hsplit.symm.trans (hreceived.append ?_)
    have hrest : o.sent.filter (fun m => !decide (m ∈ o.received)) = o.undelivered := by
      unfold QueueObject.undelivered
      simp only [decide_not]
    rw [hrest]
    exact h.stored_perm.symm
  withinLimit := by
    intro who a stamp m q' hrun
    have hpost := wp_of_run hrun (msgsnd_spec who a stamp)
    rw [hpost.2.totalBytes]
    exact hpost.2.limit
  failedReceive := by
    intro who a e q' hrun
    have hpost := wp_of_error hrun (msgrcv_spec who a)
    exact hpost

/-- **MESSAGES ARE CONSERVED.**  In every state that any number of threads reach with
any calls, of any flags and with any faults of user memory, every queue counts its
messages rightly, has delivered none of them twice and has lost none. -/
theorem message_queue_is_conserved (cfg : Config) (w : World)
    (hw : Reach (step cfg) Always .initial w) (o : QueueObject) (ho : o ∈ w.objects) :
    Conserved cfg o :=
  (allSound_of_reach hw o ho).conserved

/-- A root user. -/
def root : Caller := ⟨0, 0, 1, 0⟩

/-- One kibibyte of memory. -/
def smallKernel : Config := ⟨⟨1024, by decide⟩, false⟩

/-- A message of three bytes with a type. -/
def sendOf (mtype : BitVec 64) : SendArgs := ⟨.ok mtype, fun _ => some 7, 3⟩

/-- A new queue gets two messages. -/
def twoSends (first second : BitVec 64) : List Step :=
  [.msgget 0 root IPC_PRIVATE 0, .call 0 root 0 (.snd (sendOf first)), .run 0,
    .call 0 root 0 (.snd (sendOf second)), .run 0]

/-- A receive into a buffer that can hold three bytes. -/
def receiveOf (msgtyp : BitVec 64) (flags : MsgRcvFlags) : ReceiveArgs :=
  ⟨3, msgtyp, flags, .ok (), .ok ()⟩

/-- Two sends, a receive that faults and one that returns the second message. -/
theorem message_queue_is_conserved_run : ∃ w, Reach (step smallKernel) Always .initial w
    ∧ ∃ o ∈ w.objects, Conserved smallKernel o ∧ o.sent.length = 2 ∧ o.received.length = 1
      ∧ o.queue.totalBytes = 3 := by
  obtain ⟨w, hw, o, ho, hchecks⟩ := exists_reach (step smallKernel) .initial
    (twoSends 5 2 ++ [.call 0 root 0 (.rcv { receiveOf 2 ⟨false, false, false, false⟩ with
       writeText := .error .badAddress }), .run 0,
     .call 0 root 0 (.rcv (receiveOf 2 ⟨false, false, false, false⟩)), .run 0])
    (fun w => ∃ o ∈ w.objects, o.sent.length = 2 ∧ o.received.length = 1
      ∧ o.queue.totalBytes = 3) (by decide +kernel)
  exact ⟨w, hw, o, ho, message_queue_is_conserved smallKernel w hw o ho, hchecks⟩

end StarryOS.Ipc.Msg
