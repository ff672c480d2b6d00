/-
  StarryOS.File.PipeClose — WHO WAITS FOR AN END THAT IS GONE (`Pipe::drop`,
  `closed`, `read` and `write` of `kernel/src/file/pipe.rs` in `block_on` and
  `poll_io` of `modules/axtask/src/future`).

  `closed()` looks at a reference count, and the count changes AFTER `drop` has
  woken the waiters:

      drop      poll_close.wake()          the waiters run ...
                                           ... see the old count, register, park
                release                    nobody is woken any more

  A thread that is woken in this window and makes both its attempts there sleeps
  for good (`woken_reader_parks_again`).  Without such an attempt no thread is
  parked once the peer is released (`closing_is_noticed`).
-/
import StarryOS.File.Pipe

namespace StarryOS.File

open Lib StarryOS.Task Threads IoPoint

namespace PipeState

/-! ## §1. Waiters. -/

variable (st : PipeState)

/-- Some thread is parked in a call whose peer is released. -/
def Deserted (t : Nat) : Prop :=
  ∃ call, st.threads.pc t = .inside call ∧ call.phase = .parked ∧ st.peer call.io = .released

/-- No thread makes its second attempt between the wake-up and the release, unless a wake-up has
come since it registered. -/
def attends : PipeOp → Bool
  | .next t =>
    match (st.threads.pc t).call? with
    | some call =>
      if call.phase = .second .check ∧ st.peer call.io = .woken then call.woke else true
    | none => true
  | _ => true

/-- The waker is registered. -/
def listens : IoPhase PipePos → Bool
  | .second _ | .parking | .parked => true
  | _ => false

/-- In this round `closed()` has said no for the last time. -/
def settledOpen : PipeIo → IoPhase PipePos → Bool
  | _, .parking => true
  | _, .parked => true
  | .write _ _ _, .second .check => false
  | .write _ _ _, .second _ => true
  | _, _ => false

/-- **What keeps thread `t` from missing the end of its peer.** -/
@[grind cases] structure Watches (t : Nat) (call : PipeCall) : Prop where
  registered : listens call.phase = true → st.peer call.io = .opened →
    t ∈ st.pollClose ∨ call.woke = true
  told : settledOpen call.io call.phase = true → st.peer call.io ≠ .opened → call.woke = true
  asleep : call.phase = .parked → call.woke = false

/-- The invariant. -/
def Watched : Prop :=
  ∀ t call, st.threads.pc t = .inside call → st.Watches t call

section Steps

variable {st st' : PipeState} {t : Nat} {call call' : PipeCall} {p : PipePoint} {l : List Nat}

/-- Before the waker is registered there is nothing to say. -/
theorem watches_early (h : listens call.phase = false) : st.Watches t call := by
  obtain ⟨io, nonBlocking, woke, phase⟩ := call
  cases phase with
  | second pos => cases h
  | parking => cases h
  | parked => cases h
  | _ =>
    refine ⟨fun hl => (by cases hl), fun hs => ?_, fun hp => (by cases hp)⟩
    cases io <;> cases hs

theorem watches_wake {p : PipePoint} (hp : p.wake = .inside call) : st.Watches t call := by
  cases p with
  | returned result => cases hp
  | inside c =>
    obtain ⟨io, nonBlocking, woke, phase⟩ := c
    cases hp
    refine ⟨fun _ _ => .inr rfl, fun _ _ => rfl, fun hp => ?_⟩
    cases phase <;> cases hp

theorem Watches.mono (h : st.Watches t call) (hclose : t ∈ st.pollClose → t ∈ st'.pollClose)
    (hread : st'.readEnd = st.readEnd) (hwrite : st'.writeEnd = st.writeEnd) :
    st'.Watches t call := by
  have hpeer : st'.peer call.io = st.peer call.io := by
    unfold peer
    rw [hread, hwrite]
  refine ⟨fun hl ho => ?_, fun hs hn => h.told hs (hpeer ▸ hn), h.asleep⟩
  grind

/-- **One thread moves**, others may be woken. -/
theorem Watched.move (h : st.Watched) (ht : st'.threads = (st.threads.updateAll wake l).goto t p)
    (hclose : ∀ u, u ≠ t → u ∈ st.pollClose → u ∈ st'.pollClose)
    (hread : st'.readEnd = st.readEnd) (hwrite : st'.writeEnd = st.writeEnd)
    (hp : ∀ call', p = .inside call' → st'.Watches t call') : st'.Watched := by
  intro u call hu
  rw [ht, pc_goto, pc_updateAll wake_wake] at hu
  split at hu
  next heq =>
    subst heq
    exact hp call hu
  next hne =>
    split at hu
    · exact watches_wake hu
    · exact (h u call hu).mono (hclose u hne) hread hwrite

theorem settle_pollClose (io : PipeIo) (p : PipePoint) {u : Nat} (hu : u ≠ t)
    (h : u ∈ st.pollClose) : u ∈ (st.settle t io p).pollClose := by
  cases p with
  | inside call => exact h
  | returned result => exact List.mem_filter.mpr ⟨h, by simpa using hu⟩

theorem Watched.settle (h : st.Watched) (io : PipeIo)
    (hp : ∀ call', p = .inside call' → (st.settle t io p).Watches t call') :
    (st.settle t io p).Watched :=
  h.move (l := []) (st.settle_threads t io p) (fun _ => settle_pollClose io p)
    (st.settle_readEnd t io p) (st.settle_writeEnd t io p) hp

/-- The call goes on as it was, in a phase where no more is asked of it. -/
theorem Watches.next (h : st.Watches t call) (hio : st.peer call'.io = st.peer call.io)
    (hwoke : call'.woke = call.woke) (hlistens : listens call.phase = true)
    (hsettled : settledOpen call'.io call'.phase = true → st.peer call.io ≠ .opened →
      settledOpen call.io call.phase = true ∨ call.woke = true)
    (hparked : call'.phase ≠ .parked) : st.Watches t call' := by
  refine ⟨fun _ ho => ?_, fun hs hn => ?_, fun hp => absurd hp hparked⟩
  · rw [hwoke]
    exact h.registered hlistens (hio ▸ ho)
  · grind

theorem phase_of_pos {pos : PipePos} (h : call.pos? = some pos) :
    call.phase = .first pos ∨ call.phase = .second pos := by
  obtain ⟨io, nonBlocking, woke, phase⟩ := call
  cases phase with
  | first q =>
    cases h
    exact .inl rfl
  | second q =>
    cases h
    exact .inr rfl
  | _ => cases h

theorem Watched.returned (h : st.Watched) {result : AxResult Nat}
    (ht : st'.threads = (st.threads.updateAll wake l).goto t (.returned result))
    (hclose : st'.pollClose = st.pollClose.filter (· ≠ t)) (hread : st'.readEnd = st.readEnd)
    (hwrite : st'.writeEnd = st.writeEnd) : st'.Watched := by
  refine h.move ht (fun u hu hc => ?_) hread hwrite nofun
  rw [hclose]
  exact List.mem_filter.mpr ⟨hc, by simpa using hu⟩

theorem Watched.goto (h : st.Watched) {pos pos' : PipePos} {io : PipeIo}
    (hpc : st.threads.pc t = .inside call) (hpos : call.pos? = some pos)
    (hpeer : st.peer io = st.peer call.io) (ht : st'.threads = (st.threads.updateAll wake l).goto t
      (.inside { call.goto pos' with io := io }))
    (hclose : st'.pollClose = st.pollClose) (hread : st'.readEnd = st.readEnd)
    (hwrite : st'.writeEnd = st.writeEnd)
    (hsettled : settledOpen io (.second pos') = true → call.phase = .second pos →
      st.peer call.io ≠ .opened →
      settledOpen call.io (.second pos) = true ∨ call.woke = true) : st'.Watched := by
  refine h.move ht (fun u _ hc => by rw [hclose]; exact hc) hread hwrite ?_
  intro call' hcall
  cases hcall
  have hphase := phase_of_pos hpos
  rcases hphase with hphase | hphase
  · refine watches_early ?_
    simp only [IoCall.goto, hphase]
    rfl
  have hnext : st.Watches t { call.goto pos' with io := io } := by
    refine (h t call hpc).next hpeer rfl (by rw [hphase]; rfl) ?_ ?_
    · simp only [IoCall.goto, hphase]
      exact fun hs => hsettled hs hphase
    · simp only [IoCall.goto, hphase]
      exact fun hp => by cases hp
  exact hnext.mono (fun hc => by rw [hclose]; exact hc) hread hwrite

/-- **The closure returns**: if it will be tried again, `closed()` has said no. -/
theorem Watched.finish (h : st.Watched) {pos : PipePos} {result : AxResult Nat}
    (hpc : st.threads.pc t = .inside call) (hpos : call.pos? = some pos)
    (hsettled : result = .error .wouldBlock → call.phase = .second pos → st.peer call.io ≠ .opened →
      settledOpen call.io (.second pos) = true ∨ call.woke = true) :
    (st.settle t call.io (call.finish result)).Watched := by
  refine h.settle call.io (fun call' hcall => ?_)
  rcases call.finish_cases result with ⟨r, hret⟩ | ⟨hwould, ⟨pos', hphase⟩, heq⟩ | heq
  · rw [hret] at hcall
    cases hcall
  · rw [heq] at hcall ⊢
    cases hcall
    have hsecond : call.phase = .second pos := by
      rcases phase_of_pos hpos with hfirst | hsecond
      · rw [hphase] at hfirst
        cases hfirst
      · exact hsecond
    have hnext : st.Watches t { call with phase := .parking } := by
      refine (h t call hpc).next rfl rfl (by rw [hphase]; rfl) ?_ nofun
      rw [hsecond]
      exact fun _ => hsettled hwould hsecond
    exact hnext.mono id rfl rfl
  · rw [heq] at hcall
    cases hcall
    exact watches_early rfl

/-- A second attempt that finds its peer half dropped has been woken. -/
theorem woke_of_attends (hok : st.attends (.next t) = true) (hpc : st.threads.pc t = .inside call)
    (hphase : call.phase = .second .check) (hopen : st.peer call.io ≠ .opened)
    (hclosed : st.closed call.io = false) : call.woke = true := by
  have hwoken : st.peer call.io = .woken := by
    unfold closed at hclosed
    cases hpeer : st.peer call.io with
    | opened => exact absurd hpeer hopen
    | woken => rfl
    | released =>
      rw [hpeer] at hclosed
      cases hclosed
  simp only [attends, hpc, call?] at hok
  rw [if_pos ⟨hphase, hwoken⟩] at hok
  exact hok

variable (h : st.Watched)
include h

/-- **The closures.** -/
theorem closure_watched {pos : PipePos} (hok : st.attends (.next t) = true)
    (hpc : st.threads.pc t = .inside call) (hpos : call.pos? = some pos)
    (hs : st.closure t call pos = some st') : st'.Watched := by
  unfold closure at hs
  cases hio : call.io with
  | read =>
    simp only [hio] at hs
    cases pos with
    | lock => cases hs
    | flag => cases hs
    | check =>
      cases hs
      rw [← hio]
      refine h.finish hpc hpos (fun hwould hsecond hopen => .inr ?_)
      refine woke_of_attends hok hpc hsecond hopen ?_
      grind
    | wake n =>
      cases hs
      exact h.returned (l := st.pollTx) rfl rfl rfl rfl
  | write id size total =>
    simp only [hio] at hs
    cases pos with
    | lock => cases hs
    | check =>
      simp only at hs
      split at hs
      · cases hs
        rw [← hio]
        exact h.finish hpc hpos nofun
      next hclosed =>
        cases hs
        refine h.goto (l := []) hpc hpos rfl rfl rfl rfl rfl (fun _ hsecond hopen => .inr ?_)
        rw [Bool.not_eq_true, ← hio] at hclosed
        exact woke_of_attends hok hpc hsecond hopen hclosed
    | wake n =>
      cases hs
      refine h.goto (l := st.pollRx) hpc hpos ?_ rfl rfl rfl rfl (fun _ _ _ => .inl ?_)
      · rw [hio]
        rfl
      · rw [hio]
        rfl
    | flag =>
      cases hs
      rw [← hio]
      refine h.finish hpc hpos (fun _ _ _ => .inl ?_)
      rw [hio]
      rfl

theorem next_watched (hok : st.attends (.next t) = true)
    (hs : st.next t = some st') : st'.Watched := by
  unfold next at hs
  split at hs
  · cases hs
  next call hpc =>
    obtain ⟨io, nonBlocking, woke, phase⟩ := call
    have hwatch := h t _ hpc
    cases phase with
    | first pos | second pos => exact closure_watched h hok hpc rfl hs
    | registering =>
      cases hs
      -- the waker is registered now, and `closed()` is still to be asked
      have hnew : ∀ w : PipeState, t ∈ w.pollClose →
          w.Watches t ⟨io, nonBlocking, woke, .second io.entry⟩ := by
        intro w hmem
        refine ⟨fun _ _ => .inl hmem, fun hsettled => ?_, fun hp => by cases hp⟩
        cases io <;> cases hsettled
      cases io with
      | read | write id size total =>
        refine h.move (l := []) rfl (fun u _ => .tail _) rfl rfl ?_
        rintro call' ⟨⟩
        exact hnew _ (.head _)
    | polling =>
      cases hs
      refine h.settle io ?_
      rintro call' ⟨⟩
      exact watches_early rfl
    | parking =>
      cases hs
      refine h.settle io ?_
      rintro call' ⟨⟩
      cases woke with
      | true => exact watches_early rfl
      | false =>
        -- nobody has woken it, so its peer is there and will
        refine ⟨fun _ => hwatch.registered rfl, fun _ => hwatch.told rfl, fun _ => rfl⟩
    | parked => cases hs

theorem copyOut_watched {left right : AxResult Nat}
    (hs : st.copyOut t left right = some st') : st'.Watched := by
  unfold copyOut at hs
  split at hs
  · cases hs
  next call hpc =>
    split at hs
    next hpos hio =>
      obtain ⟨result, hcopied, rfl⟩ := Option.map_eq_some_iff.mp hs
      cases result with
      | error e =>
        refine h.finish hpc hpos (fun hwould => ?_)
        injection hwould with hwould
        exact absurd hwould (copied_error hcopied)
      | ok count =>
        refine h.goto (l := []) hpc hpos rfl rfl rfl rfl rfl (fun hsettled => ?_)
        rw [hio] at hsettled
        split at hsettled <;> cases hsettled
    · cases hs

theorem copyIn_watched {left right : AxResult Bytes}
    (hs : st.copyIn t left right = some st') : st'.Watched := by
  unfold copyIn at hs
  split at hs
  · cases hs
  next call hpc =>
    split at hs
    next id size total hpos hio =>
      obtain ⟨result, hfilled, rfl⟩ := Option.map_eq_some_iff.mp hs
      have hsettled : settledOpen call.io (.second .lock) = true := by
        rw [hio]
        rfl
      cases result with
      | error e => exact h.finish hpc hpos (fun _ _ _ => .inl hsettled)
      | ok bytes =>
        simp only [put]
        split
        · exact h.finish hpc hpos (fun _ _ _ => .inl hsettled)
        · exact h.goto (l := []) hpc hpos rfl rfl rfl rfl rfl (fun _ _ _ => .inl hsettled)
    · cases hs

/-- **`poll_close.wake()`**: whoever has registered is told that its peer goes. -/
theorem Watched.drop (ht : st'.threads = st.threads.updateAll wake st.pollClose)
    (hends : ∀ u call, st.threads.pc u = .inside call →
      st.peer call.io = .opened ∧ st'.peer call.io ≠ .opened) : st'.Watched := by
  intro u call hu
  rw [ht, pc_updateAll wake_wake] at hu
  split at hu
  · exact watches_wake hu
  obtain ⟨hopen, hgone⟩ := hends u call hu
  have hold := h u call hu
  refine ⟨fun _ ho => absurd ho hgone, fun hsettled _ => ?_, hold.asleep⟩
  have hlistens : listens call.phase = true := by
    obtain ⟨io, nonBlocking, woke, phase⟩ := call
    cases phase with
    | second pos => rfl
    | parking => rfl
    | parked => rfl
    | _ => cases io <;> cases hsettled
  grind

theorem Watched.release (ht : st'.threads = st.threads) (hclose : st'.pollClose = st.pollClose)
    (hends : ∀ io, (st'.peer io = .opened → st.peer io = .opened)
      ∧ (st.peer io = .opened → st'.peer io = .opened)) : st'.Watched := by
  intro u call hu
  rw [ht] at hu
  have hold := h u call hu
  refine ⟨fun hl ho => ?_, fun hs hn => hold.told hs (fun ho => hn ((hends _).2 ho)), hold.asleep⟩
  rw [hclose]
  exact hold.registered hl ((hends _).1 ho)

/-- **One step.** -/
theorem Watched.step {op : PipeOp} (hok : st.attends op = true)
    (hs : st.step op = some st') : st'.Watched := by
  cases op with
  | read t isRead isFull =>
    obtain ⟨-, rfl⟩ := guard_eq_some hs
    have hgoes : ∀ p : PipePoint, (∀ call, p = .inside call → listens call.phase = false) →
        (st.settle t .read p).Watched :=
      fun p hp => h.settle .read (fun call hcall => watches_early (hp call hcall))
    unfold read
    split
    · exact hgoes _ (by rintro _ ⟨⟩)
    split
    · exact hgoes _ (by rintro _ ⟨⟩)
    · refine hgoes _ ?_
      rintro call ⟨⟩
      rfl
  | write t isWrite size =>
    obtain ⟨-, rfl⟩ := guard_eq_some hs
    simp only [write]
    split
    · exact h.returned (l := []) rfl rfl rfl rfl
    split
    · exact h.returned (l := []) rfl rfl rfl rfl
    · refine h.move (l := []) rfl (fun _ _ => id) rfl rfl ?_
      rintro call ⟨⟩
      exact watches_early rfl
  | next t => exact next_watched h hok hs
  | copyOut t left right => exact copyOut_watched h hs
  | copyIn t left right => exact copyIn_watched h hs
  | interrupted t =>
    simp only [PipeState.step] at hs
    split at hs
    · cases hs
      exact h.returned (l := []) rfl rfl rfl rfl
    · cases hs
  | unpark t =>
    obtain ⟨p, hp, rfl⟩ := Option.map_eq_some_iff.mp hs
    unfold IoPoint.unpark at hp
    split at hp
    · cases hp
      refine h.move (l := []) rfl (fun _ _ => id) rfl rfl ?_
      rintro call ⟨⟩
      exact watches_early rfl
    · cases hp
  | setNonblocking isRead nonBlocking =>
    cases hs
    cases isRead <;> exact h.release rfl rfl (fun io => ⟨fun ho => ho, fun ho => ho⟩)
  | resize newSize memory =>
    simp only [PipeState.step] at hs
    split at hs
    · cases hs
    · cases hs
      exact h
    · cases hs
      exact h.release rfl rfl (fun io => ⟨fun ho => ho, fun ho => ho⟩)
  | drop isRead =>
    cases isRead <;>
    · obtain ⟨⟨hopen, hnobody⟩, rfl⟩ := guard_eq_some hs
      refine h.drop rfl (fun u call hu => ?_)
      have hother := eq_false_of_any rfl hnobody u
      obtain ⟨io, nonBlocking, woke, phase⟩ := call
      rw [hu] at hother
      -- the end that goes is not in use
      cases io <;> first | exact ⟨hopen, by rintro ⟨⟩⟩ | cases hother
  | release isRead =>
    cases isRead <;>
    · obtain ⟨hwoken, rfl⟩ := guard_eq_some hs
      refine h.release rfl rfl (fun io => ?_)
      cases io <;> simp [peer, hwoken]

end Steps

/-! ## §2. Every run. -/

/-- **CLOSING A PIPE END IS NOTICED**: in every run in which no second attempt finds its peer half
dropped and its own `woke` down, no thread stays parked once the shared reference of its peer is
released. -/
theorem closing_is_noticed (st : PipeState)
    (h : Reach step (fun st op => st.attends op = true) new st) (t : Nat) : ¬ st.Deserted t := by
  have hstart : new.Watched := by
    intro u call hu
    cases hu
  have hinv := h.invariant Watched hstart (fun _ _ _ hinv => hinv.step)
  rintro ⟨call, hpc, hparked, hreleased⟩
  have hwatch := hinv t call hpc
  -- a parked thread has not been told, so its peer has not begun to go
  have hwoke := hwatch.told (by rw [hparked]; cases call.io <;> rfl) (by rw [hreleased]; decide)
  rw [hwatch.asleep hparked] at hwoke
  cases hwoke

/-- A reader parks, and the writer is dropped. -/
def parkedAndDropped : List PipeOp :=
  [.read 0 true false, .next 0, .copyOut 0 (.ok 0) (.ok 0), .next 0, .next 0,
    .copyOut 0 (.ok 0) (.ok 0), .next 0, .next 0, .drop false]

/-- A reader parks on an empty pipe, the write end is dropped and released, and the reader
returns 0. -/
theorem parked_reader_sees_the_end :
    ∃ st, Reach step (fun st op => st.attends op = true) new st ∧ st.writeEnd = .released
      ∧ (st.threads.pc 0).atRest = true ∧ ¬ st.Deserted 0 := by
  obtain ⟨st, hst, hc⟩ := exists_reach_guarded step new attends
    (parkedAndDropped ++ [.next 0, .copyOut 0 (.ok 0) (.ok 0), .release false, .next 0])
    (fun st => st.writeEnd = .released ∧ (st.threads.pc 0).atRest) (by decide +kernel)
  exact ⟨st, hst, hc.1, hc.2, closing_is_noticed st hst 0⟩

/-- **A reader that is woken parks again.**  It makes both its attempts between the wake-up and
the release, and sleeps on an empty pipe without a writer. -/
theorem woken_reader_parks_again :
    ∃ st, Reach step Always new st ∧ st.buffer.len = 0 ∧ st.Deserted 0 := by
  obtain ⟨st, hst, hempty, hparked, hgone⟩ := exists_reach step new
    (parkedAndDropped ++ [.next 0, .copyOut 0 (.ok 0) (.ok 0), .next 0, .next 0,
      .copyOut 0 (.ok 0) (.ok 0), .next 0, .next 0, .release false])
    (fun st => st.buffer.len = 0 ∧ st.threads.pc 0 = .inside ⟨.read, false, false, .parked⟩
      ∧ st.writeEnd = .released) (by decide +kernel)
  exact ⟨st, hst, hempty, _, hparked, rfl, hgone⟩

end PipeState

end StarryOS.File
