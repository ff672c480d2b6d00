/-
  StarryOS.Net.UnixSend — WHAT A UNIX STREAM SEND RETURNS (`StreamTransport::send`
  in `poll_io`).

  The closure is tried until it returns something else than `WouldBlock`.  It ends
  with

      total += count;
      if count == size || non_blocking { Ok(total) } else { Err(WouldBlock) }

  where `count` is what THIS attempt has moved and `size` is the whole buffer.

    • `total` is the number of bytes that have entered the ring, in every run
      (`Tallied`);
    • a blocking send whose first bytes go in without the rest never returns `Ok`:
      no later attempt moves `size` bytes.  It waits on when all are in
      (`torn_send_sleeps`);
    • a non-blocking send that finds no room returns `Ok(0)`.

  In the other runs the counts are right (`send_counts_are_exact`).
-/
import StarryOS.Lib.Ledger
import StarryOS.Net.UnixStream

namespace StarryOS.Net

open Lib StarryOS.Task Function List
open File.PipeState (copied filled)

namespace StreamPair

/-! ## §1. Counting. -/

/-- How many bytes of a send have entered the channel. -/
def enteredBy (st : StreamPair) (id : Nat) : Nat :=
  (st.sent .first).countP (fun e => e.1 = id) + (st.sent .second).countP (fun e => e.1 = id)

variable {st : StreamPair} {c : SendCall} {p : StreamPoint}

theorem Unchanged.enteredBy {st' : StreamPair} (h : Unchanged st st') :
    st'.enteredBy = st.enteredBy := by
  unfold StreamPair.enteredBy
  rw [h.sent]

theorem enteredBy_fillRing (st : StreamPair) (c : SendCall) (left right : Bytes) (count id : Nat) :
    (st.fillRing c left right count).enteredBy id
      = st.enteredBy id + if id = c.id then left.length + right.length else 0 := by
  have hgrown := Ledger.inLog_append (st.sent c.side) (left ++ right) c.id id
  rw [length_append] at hgrown
  unfold Ledger.inLog at hgrown
  unfold enteredBy fillRing
  cases hside : c.side with
  | first => grind
  | second => grind

/-- The sends that are in progress, and those that have returned. -/
def ledger (st : StreamPair) : Ledger SendCall where
  next := st.nextId
  count := st.enteredBy
  active := fun t => (sending (st.threads.pc t)).map (fun c => (c.id, c.total))
  past := st.finished.map (fun e => (e.1.id, e.1))

/-- **`total` is what has entered**, for the sends in progress and for those that have returned. -/
def Tallied (st : StreamPair) : Prop := st.ledger.Balanced (fun n c => n = c.total)

section Tallies

variable {st st' : StreamPair} {t : Nat} {c : SendCall}

theorem Tallied.inside (h : st.Tallied) (hc : sending (st.threads.pc t) = some c) :
    st.enteredBy c.id = c.total :=
  (h.active t c.id c.total (by simp only [ledger, hc, Option.map_some])).2

theorem Tallied.entered_put (h : st.Tallied) (hc : sending (st.threads.pc t) = some c)
    (left right : Bytes) (count : Nat) : (st.fillRing c left right count).enteredBy
      = update st.enteredBy c.id (c.total + (left.length + right.length)) := by
  funext id
  rw [enteredBy_fillRing, update_apply]
  split
  next heq => rw [heq, h.inside hc]
  · rfl

theorem Tallied.returned (h : st.Tallied) {e : SendCall × AxResult Nat}
    (he : e ∈ st.finished) : st.enteredBy e.1.id = e.1.total :=
  (h.past (e.1.id, e.1) (mem_map_of_mem (f := fun e => (e.1.id, e.1)) he)).2.1

variable {op : StreamOp}

/-- The threads that do not move are in the same sends as before. -/
theorem sending_moved (hs : st.step op = some st') {u : Nat} (hu : op.thread ≠ some u) :
    sending (st'.threads.pc u) = sending (st.threads.pc u) := by
  rcases (step_does hs).2 u hu with h | h
  · rw [h]
  · rw [h, sending_wake]

theorem active_moved (hs : st.step op = some st') (ho : op.thread = some t) :
    st'.ledger.active = update st.ledger.active t (st'.ledger.active t) := by
  funext u
  rw [update_apply]
  split
  next heq => rw [heq]
  next hne =>
    simp only [ledger]
    rw [sending_moved hs (fun he => hne (Option.some.inj (ho.symm.trans he)).symm)]

theorem active_of_sending (hc : sending (st.threads.pc t) = some c) :
    st.ledger.active t = some (c.id, c.total) := by
  simp only [ledger, hc, Option.map_some]

theorem active_of_rest (hc : sending (st.threads.pc t) = none) : st.ledger.active t = none := by
  simp only [ledger, hc, Option.map_none]

/-- Nobody's sends, and nobody's bytes, have changed. -/
theorem ledger_same (hs : st.step op = some st') (hn : st'.nextId = st.nextId)
    (he : st'.enteredBy = st.enteredBy) (hf : st'.finished = st.finished)
    (hown : ∀ u, op.thread = some u → sending (st'.threads.pc u) = sending (st.threads.pc u)) :
    st'.ledger = st.ledger := by
  refine Ledger.ext hn he (funext fun u => congrArg (Option.map _) ?_) (congrArg (map _) hf)
  by_cases ho : op.thread = some u
  · exact hown u ho
  · exact sending_moved hs ho

/-- **The sends of a step are posted.** -/
theorem Tallied.step (h : st.Tallied) (hs : st.step op = some st') : st'.Tallied := by
  have hactive := fun t => active_moved (t := t) hs
  unfold Tallied
  cases (step_does hs).1 with
  | idle hsame hstays =>
    have heq := ledger_same hs hsame.nextId hsame.enteredBy hsame.finished
      (fun u ho => (hstays u ho).1)
    exact heq ▸ h
  | took t side count ho hcount hsame hstays =>
    have heq : st'.ledger = st.ledger := by
      refine ledger_same hs hsame.nextId hsame.enteredBy hsame.finished (fun u hu => ?_)
      cases ho.symm.trans hu
      exact hstays.1
    exact heq ▸ h
  | begins t c ho hid htotal hsame hrest hcall hwait =>
    have heq : st'.ledger = st.ledger.begin t := by
      refine Ledger.ext hsame.nextId hsame.enteredBy ?_ (congrArg (map _) hsame.finished)
      rw [hactive t ho, active_of_sending hcall, hid, htotal]
      rfl
    exact heq ▸ h.begin t
  | refused t c e ho hid htotal hsame hrest hrest' =>
    have heq : st'.ledger = st.ledger.refuse c := by
      refine Ledger.ext hsame.nextId hsame.enteredBy ?_ ?_
      · rw [hactive t ho, active_of_rest hrest', ← active_of_rest hrest, update_eq_self]
        rfl
      · exact (congrArg (map _) hsame.finished).trans (by rw [map_cons, hid]; rfl)
    exact heq ▸ h.refuse htotal.symm
  | fails t c e ho hcall hsame hrest =>
    have heq : st'.ledger = st.ledger.close t c.id c := by
      refine Ledger.ext hsame.nextId hsame.enteredBy ?_ (congrArg (map _) hsame.finished)
      rw [hactive t ho, active_of_rest hrest]
      rfl
    exact heq ▸ h.close (active_of_sending hcall) rfl
  | waits t c a b left right hop hcall hfilled hresult hsame hcall' =>
    have heq : st'.ledger = st.ledger.put t c.id c.total (left.length + right.length) := by
      refine Ledger.ext hsame.nextId ?_ ?_ (congrArg (map _) hsame.finished)
      · exact hsame.enteredBy.trans (h.entered_put hcall left right (left.length + right.length))
      · rw [hactive t (hop ▸ rfl), active_of_sending hcall']
        rfl
    exact heq ▸ h.put (active_of_sending hcall) _
  | returns t c a b left right hop hcall hfilled hsame hrest =>
    have heq : st'.ledger = (st.ledger.put t c.id c.total (left.length + right.length)).close t c.id
        (c.add (left.length + right.length)) := by
      refine Ledger.ext hsame.nextId ?_ ?_ (congrArg (map _) hsame.finished)
      · exact hsame.enteredBy.trans (h.entered_put hcall left right (left.length + right.length))
      · rw [hactive t (hop ▸ rfl), active_of_rest hrest]
        exact (update_idem _ _ _).symm
    exact heq ▸ (h.put (active_of_sending hcall) _).close (update_self _ _ _) rfl

end Tallies

theorem newPair_tallied : newPair.Tallied where
  fresh _ _ := rfl
  active _ _ _ h := nomatch h
  unique _ _ _ _ _ h := nomatch h
  past _ h := nomatch h

/-! ## §2. Whole buffers. -/

/-- An attempt of a blocking send moves nothing or everything, one of a non-blocking send moves
something. -/
def whole (st : StreamPair) : StreamOp → Bool
  | .copyIn t a b =>
    match sending (st.threads.pc t) with
    | none => true
    | some c =>
      match filled (st.rings c.side).vacantSlices (c.size - c.total) a b with
      | some (.ok (left, right)) =>
        let count := left.length + right.length
        if c.nonBlocking then decide (0 < count) else decide (count = 0 ∨ count = c.size)
      | _ => true
  | _ => true

theorem whole_copyIn {t : Nat} {a b : AxResult Bytes} {left right : Bytes}
    (hok : st.whole (.copyIn t a b) = true) (hcall : sending (st.threads.pc t) = some c)
    (hfilled : filled (st.rings c.side).vacantSlices (c.size - c.total) a b
      = some (.ok (left, right))) : (c.nonBlocking = true → 0 < left.length + right.length)
      ∧ (c.nonBlocking = false → left.length + right.length = 0
        ∨ left.length + right.length = c.size) := by
  simp only [whole, hcall, hfilled] at hok
  cases hflag : c.nonBlocking with
  | true => grind
  | false => grind

/-- What a send should have returned, if `entered` of its bytes are in the channel. -/
def SentRight (c : SendCall) (entered : Nat) : AxResult Nat → Prop
  | .ok n => n = entered ∧ (c.nonBlocking = false → n = c.size) ∧ (c.nonBlocking = true → 0 < n)
  | .error _ => entered = 0

/-- **The counts are right**: every send that has returned has returned what it should, and no
thread waits in a send whose bytes are all transferred. -/
def CountsRight (st : StreamPair) : Prop :=
  (∀ e ∈ st.finished, SentRight e.1 (st.enteredBy e.1.id) e.2)
    ∧ ∀ t c, waiting (st.threads.pc t) = some c → st.enteredBy c.id < c.size

/-- In a run of whole attempts a send that is in progress has moved nothing. -/
def Whole (p : StreamPoint) : Prop :=
  (∀ c, sending p = some c → c.total = 0) ∧ ∀ c, waiting p = some c → 0 < c.size

/-- The invariant of a run. -/
@[grind cases] structure WholeSends (st : StreamPair) : Prop where
  inside : ∀ t, Whole (st.threads.pc t)
  returned : ∀ e ∈ st.finished, SentRight e.1 e.1.total e.2

theorem sending_of_waiting (h : waiting p = some c) : sending p = some c := by
  cases p with
  | returned result => cases h
  | inside call =>
    obtain ⟨io, nonBlocking, woke, phase⟩ := call
    cases io with
    | recv side timed => cases h
    | send d => cases phase <;> first | exact h | cases h

/-- A blocking attempt that has to wait has a buffer that is not empty. -/
theorem sendResult_wouldBlock {count : Nat} (h : sendResult c count = .error .wouldBlock) :
    count ≠ c.size ∧ c.nonBlocking = false := by
  unfold sendResult at h
  grind

theorem Whole.stays {p' : StreamPoint} (h : Whole p) (hstays : Stays p p') : Whole p' := by
  refine ⟨fun c hc => h.1 c (hstays.1 ▸ hc), fun c hc => ?_⟩
  rcases hstays.2 with hnone | hsame
  · cases hnone.symm.trans hc
  · exact h.2 c (hsame ▸ hc)

theorem Whole.of_none (h : sending p = none) : Whole p := by
  refine ⟨fun c hc => ?_, fun c hc => ?_⟩
  · cases h.symm.trans hc
  · cases h.symm.trans (sending_of_waiting hc)

theorem stays_wake (p : StreamPoint) : Stays p p.wake := ⟨sending_wake p, waiting_wake p⟩

theorem WholeSends.step {st' : StreamPair} {op : StreamOp} (h : st.WholeSends)
    (hok : st.whole op = true) (hs : st.step op = some st') : st'.WholeSends := by
  have hbystander : ∀ u, op.thread ≠ some u → Whole (st'.threads.pc u) := by
    intro u ho
    rcases (step_does hs).2 u ho with heq | heq
    · exact heq ▸ h.inside u
    · exact heq ▸ (h.inside u).stays (stays_wake _)
  -- so only the thread that moves, and what it has returned, is left to look at
  have assemble : ∀ t, op.thread = some t → Whole (st'.threads.pc t) →
      (∀ e ∈ st'.finished, SentRight e.1 e.1.total e.2) → st'.WholeSends := by
    intro t ho hown hreturned
    refine ⟨fun u => ?_, hreturned⟩
    grind
  cases (step_does hs).1 with
  | idle hsame hstays =>
    refine ⟨fun u => ?_, hsame.finished ▸ h.returned⟩
    by_cases ho : op.thread = some u
    · exact (h.inside u).stays (hstays u ho)
    · exact hbystander u ho
  | took t side count ho hcount hsame hstays =>
    exact assemble t ho ((h.inside t).stays hstays) (hsame.finished ▸ h.returned)
  | begins t c ho hid htotal hsame hrest hcall hwait =>
    refine assemble t ho ⟨fun d hd => ?_, fun d hd => ?_⟩ (hsame.finished ▸ h.returned)
    · cases hcall.symm.trans hd
      exact htotal
    · cases hwait.symm.trans hd
  | refused t c e ho hid htotal hsame hrest hrest' =>
    refine assemble t ho (.of_none hrest') ?_
    rw [hsame.finished, forall_mem_cons]
    exact ⟨htotal, h.returned⟩
  | fails t c e ho hcall hsame hrest =>
    refine assemble t ho (.of_none hrest) ?_
    rw [hsame.finished, forall_mem_cons]
    exact ⟨(h.inside t).1 c hcall, h.returned⟩
  | waits t c a b left right hop hcall hfilled hresult hsame hcall' =>
    subst hop
    obtain ⟨hne, hblocking⟩ := sendResult_wouldBlock hresult
    have hzero : left.length + right.length = 0 :=
      ((whole_copyIn hok hcall hfilled).2 hblocking).resolve_right hne
    have htotal : c.total = 0 := (h.inside t).1 c hcall
    refine assemble t rfl ⟨fun d hd => ?_, fun d hd => ?_⟩ (hsame.finished ▸ h.returned)
    · cases hcall'.symm.trans hd
      show c.total + (left.length + right.length) = 0
      omega
    · cases hcall'.symm.trans (sending_of_waiting hd)
      show 0 < c.size
      omega
  | returns t c a b left right hop hcall hfilled hsame hrest =>
    subst hop
    obtain ⟨hsome, hall⟩ := whole_copyIn hok hcall hfilled
    have htotal : c.total = 0 := (h.inside t).1 c hcall
    refine assemble t rfl (.of_none hrest) (fun e he => ?_)
    rcases mem_cons.mp (hsame.finished ▸ he) with rfl | he
    · -- the attempt has moved everything, or the send does not block
      show SentRight (c.add (left.length + right.length)) (c.total + (left.length + right.length))
        (sendResult c (left.length + right.length))
      unfold sendResult
      split
      next hdone =>
        refine ⟨rfl, fun hflag => ?_, fun hflag => ?_⟩
        · have hblocking : c.nonBlocking = false := hflag
          have hcount := hdone.resolve_right (by rw [hblocking]; exact Bool.false_ne_true)
          show c.total + (left.length + right.length) = c.size
          omega
        · have := hsome hflag
          omega
      next hmore =>
        rw [not_or] at hmore
        have hcount := (hall (by simpa using hmore.2)).resolve_right hmore.1
        show c.total + (left.length + right.length) = 0
        omega
    · exact h.returned e he

theorem newPair_wholeSends : newPair.WholeSends where
  inside _ := ⟨nofun, nofun⟩
  returned _ h := nomatch h

/-- **SEND COUNTS.**  In every run of whole attempts, in every state: a blocking send that has
returned `Ok` has returned its size, which is what has entered the channel, a non-blocking one the
number of its bytes that have entered, which is not 0; a send that has returned an error has put
nothing in; and no thread waits in a send whose bytes are all in the channel. -/
theorem send_counts_are_exact (st : StreamPair)
    (h : Reach step (fun st op => st.whole op = true) newPair st) : st.CountsRight := by
  have hinv := h.invariant (fun st => st.Tallied ∧ st.WholeSends)
    ⟨newPair_tallied, newPair_wholeSends⟩
    (fun _ _ _ hinv hok hs => ⟨hinv.1.step hs, hinv.2.step hok hs⟩)
  obtain ⟨htallied, hwhole⟩ := hinv
  refine ⟨?_, ?_⟩
  · intro e he
    rw [htallied.returned he]
    exact hwhole.returned e he
  · intro t c hc
    rw [htallied.inside (sending_of_waiting hc), (hwhole.inside t).1 c (sending_of_waiting hc)]
    exact (hwhole.inside t).2 c hc

/-- Two bytes are sent at once, and then one by a non-blocking send. -/
theorem short_sends_return_their_sizes :
    ∃ st, Reach step (fun st op => st.whole op = true) newPair st
      ∧ st.finished.map (fun e => (e.1.size, e.1.nonBlocking)) = [(1, true), (2, false)]
      ∧ st.CountsRight := by
  obtain ⟨st, hst, hc⟩ := exists_reach_guarded step newPair whole
    [.send 0 .first false 2 none, .next 0, .next 0, .copyIn 0 (.ok [1, 2]) (.ok []),
      .setNonblocking .first true, .send 0 .first false 1 none, .next 0, .next 0,
      .copyIn 0 (.ok [3]) (.ok [])]
    (fun st => st.finished.map (fun e => (e.1.size, e.1.nonBlocking)) = [(1, true), (2, false)])
    (by decide +kernel)
  exact ⟨st, hst, hc, send_counts_are_exact st hst⟩

/-! ## §3. Torn buffers. -/

/-- A copy of everything that the left slice has room for. -/
theorem copyIn_left (st : StreamPair) {t room : Nat} {call : StreamCall} {bytes : Bytes}
    (hpc : st.threads.pc t = .inside call) (hpos : call.pos? = some .copy) (hio : call.io = .send c)
    (hroom : (st.rings c.side).vacantSlices = (room, 0)) (hbytes : bytes.length = room)
    (hremains : room ≤ c.size - c.total) :
    st.step (.copyIn t (.ok bytes) (.ok [])) = some (st.put t call c bytes [] room) := by
  have hfilled : filled (room, 0) (c.size - c.total) (.ok bytes) (.ok [])
      = some (.ok (bytes, [])) := by
    simp only [filled, hbytes, length_nil]
    rw [if_neg (by omega), if_neg (by omega), if_neg (by omega)]
  simp only [step, copyIn, hpc, hpos, hio, hroom, hfilled, Option.map_some, hbytes, length_nil,
    Nat.add_zero]

/-- The left slice is taken whole and there is no right one. -/
theorem copyOut_left (st : StreamPair) (t : Nat) (call : StreamCall) {side : Side} {timed : Bool}
    (hpc : st.threads.pc t = .inside call) (hpos : call.pos? = some .copy)
    (hio : call.io = .recv side timed) (hhead : (st.rings side.peer).head = 0) :
    st.step (.copyOut t (.ok (st.rings side.peer).len) (.ok 0))
      = some (st.took t call side (st.rings side.peer).len) := by
  have hle := (st.rings side.peer).len_le
  have hcopied : copied (st.rings side.peer).asSlices (.ok (st.rings side.peer).len) (.ok 0)
      = some (.ok (st.rings side.peer).len) := by
    have hleft : (st.rings side.peer).asSlices.1.length = (st.rings side.peer).len := by
      simp only [RingBuffer.asSlices, length_map, length_range, hhead]
      omega
    simp only [copied, hleft]
    grind
  simp only [step, copyOut, hpc, hpos, hio, hcopied, Option.map_some]

/-- A blocking send of 65537 bytes is about to copy. -/
def tornStart : StreamPair :=
  (runs step newPair [.send 0 .first false 65537 none, .next 0, .next 0]).getD newPair

/-- It has filled the ring. -/
def tornFull : StreamPair :=
  tornStart.put 0 ⟨.send ⟨.first, false, 0, 65537, 0, false⟩, false, false, .first .copy⟩
    ⟨.first, false, 0, 65537, 0, false⟩ (replicate 65536 7) [] 65536

/-- It sleeps, and a receiver is about to copy. -/
def tornAsleep : StreamPair :=
  (runs step tornFull [.next 0, .next 0, .copyIn 0 (.ok []) (.ok []), .next 0, .recv 1 .second,
    .next 1, .next 1]).getD tornFull

/-- The receiver has emptied the ring. -/
def tornDrained : StreamPair :=
  tornAsleep.took 1 ⟨.recv .second false, false, false, .first .copy⟩ .second 65536

theorem reach_tornFull : Reach step Always newPair tornFull := by
  refine .next (.copyIn 0 (.ok (replicate 65536 7)) (.ok []))
    (Reach.start.run [.send 0 .first false 65537 none, .next 0, .next 0] (by decide +kernel))
    trivial ?_
  exact copyIn_left tornStart rfl rfl rfl (by decide +kernel) length_replicate (by decide)

theorem reach_tornDrained : Reach step Always newPair tornDrained := by
  refine .next (.copyOut 1 (.ok (tornAsleep.rings .first).len) (.ok 0))
    (reach_tornFull.run [.next 0, .next 0, .copyIn 0 (.ok []) (.ok []), .next 0, .recv 1 .second,
      .next 1, .next 1] (by decide +kernel)) trivial ?_
  have hlen : (tornAsleep.rings .first).len = 65536 := by decide +kernel
  have hstep := copyOut_left tornAsleep 1
    ⟨.recv .second false, false, false, .first .copy⟩ rfl rfl rfl
    (by decide +kernel)
  exact hstep

/-- **A blocking send of 65537 bytes sleeps when all of them are in the channel**: the ring takes
65536, and after the peer has drained it the last one; no attempt has moved 65537.  And a
non-blocking send that finds the ring full returns `Ok(0)`. -/
theorem torn_send_sleeps :
    (∃ st c, Reach step Always newPair st ∧ waiting (st.threads.pc 0) = some c
        ∧ c.nonBlocking = false ∧ c.size = 65537 ∧ st.enteredBy c.id = 65537 ∧ ¬ st.CountsRight)
      ∧ ∃ st e, Reach step Always newPair st ∧ e ∈ st.finished ∧ e.1.nonBlocking = true
        ∧ e.1.size = 1 ∧ e.2.toOption = some 0 ∧ ¬ st.CountsRight := by
  refine ⟨?_, ?_⟩
  · obtain ⟨st, hst, hc⟩ : ∃ st, Reach step Always newPair st
        ∧ waiting (st.threads.pc 0) = some ⟨.first, false, 0, 65537, 65537, false⟩ := by
      refine ⟨_, reach_tornDrained.run [.next 0, .next 0, .copyIn 0 (.ok [9]) (.ok []), .next 0,
        .next 0, .copyIn 0 (.ok []) (.ok []), .next 0] (by decide +kernel), by decide +kernel⟩
    have hinv := hst.invariant Tallied newPair_tallied (fun _ _ _ hinv _ => hinv.step)
    have hentered : st.enteredBy 0 = 65537 := Tallied.inside hinv (sending_of_waiting hc)
    refine ⟨st, _, hst, hc, rfl, rfl, hentered, fun hright => ?_⟩
    have hless : st.enteredBy 0 < 65537 := hright.2 0 _ hc
    omega
  · obtain ⟨st, hst, hc⟩ : ∃ st, Reach step Always newPair st
        ∧ (st.finished.any fun e => e.1.nonBlocking && e.1.size == 1 && e.2.toOption == some 0)
          = true := by
      refine ⟨_, reach_tornFull.run [.setNonblocking .first true, .send 1 .first false 1 none,
        .next 1, .next 1, .copyIn 1 (.ok []) (.ok [])] (by decide +kernel), by decide +kernel⟩
    obtain ⟨e, he, hcheck⟩ := any_eq_true.mp hc
    simp only [Bool.and_eq_true, beq_iff_eq] at hcheck
    obtain ⟨⟨hflag, hsize⟩, hzero⟩ := hcheck
    refine ⟨st, e, hst, he, hflag, hsize, hzero, fun hright => ?_⟩
    have hsent := hright.1 e he
    cases hresult : e.2 with
    | error err =>
      rw [hresult] at hzero
      cases hzero
    | ok n =>
      rw [hresult] at hsent hzero
      cases hzero
      exact Nat.lt_irrefl 0 (hsent.2.2 hflag)

end StreamPair

end StarryOS.Net
