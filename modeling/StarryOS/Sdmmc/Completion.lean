/-
  StarryOS.Sdmmc.Completion — THE RACE between the interrupt handler and the
  waiting thread.

  A DMA transfer ends with events in RINTSTS and IDSTS.  Two parties look at
  these registers: `dma_irq_handler` on one CPU reads them, CLEARS them, and
  records what it has read in `IDMAC_COMPLETION`; the driver on another CPU
  polls `idmac_completion_status`, which joins the registers with the record.
  Nothing is locked: every register access and every atomic operation is a
  step of its own, and the steps interleave.

      handler   read RINTSTS · read IDSTS · error flag · clear IDSTS ·
                clear RINTSTS · load generation · or RINTSTS · or IDSTS ·
                publish generation
      driver    clear stale status · begin_transfer (4 steps) · command ·
                polls (6 steps each) · validation · clear status

  The third party is the controller, which raises events at any time.  What
  it has raised, and when the driver submitted a command, is kept in a
  history; `seen` joins the results of the polls of the current transfer.
  Both are there for the statements only.
-/
import StarryOS.Lib.Transition
import StarryOS.Sdmmc.Regs

namespace StarryOS.Sdmmc

open Lib

/-! ## §1. Status words. -/

/-- A value of RINTSTS together with one of IDSTS. -/
structure StatusWords where
  rintsts : BitVec 32
  idsts : BitVec 32
  deriving DecidableEq, Repr

namespace StatusWords

def empty : StatusWords := ⟨0, 0⟩

def join (s t : StatusWords) : StatusWords := ⟨s.rintsts ||| t.rintsts, s.idsts ||| t.idsts⟩

/-- Without the read-only fields of IDSTS. -/
def events (s : StatusWords) : StatusWords := ⟨s.rintsts, s.idsts &&& IdSts.events⟩

variable (s : StatusWords)

/-- The registers after `v` has been written to RINTSTS. -/
def clearRintsts (v : BitVec 32) : StatusWords :=
  { s with rintsts := clearOnes s.rintsts v }

/-- The registers after `v` has been written to IDSTS. -/
def clearIdsts (v : BitVec 32) : StatusWords :=
  { s with idsts := clearOnes s.idsts (v &&& IdSts.events) }

/-- The registers after the read-only fields of IDSTS have become those of `v`. -/
def settle (v : BitVec 32) : StatusWords :=
  { s with idsts := (s.idsts &&& IdSts.events) ||| (v &&& ~~~IdSts.events) }

/-- The handler and the driver clear IDSTS only if it shows an interrupt. -/
def hasIdsts : Bool := (IdSts.mk s.idsts).hasEvents

/-- `idmac_error` of the handler. -/
def idmacError : Bool :=
  (IdSts.mk s.idsts).abnormal || (RIntSts.mk s.rintsts).error

/-- `transfer_event` of the handler. -/
def transferEvent : Bool :=
  (IdSts.mk s.idsts).ri || (IdSts.mk s.idsts).ti || (RIntSts.mk s.rintsts).dataTransferOver
    || (RIntSts.mk s.rintsts).autoCommandDone

/-- The handler writes RINTSTS. -/
def acknowledges : Bool :=
  s.transferEvent || s.idmacError || (RIntSts.mk s.rintsts).receiveFifoDataRequest
    || (RIntSts.mk s.rintsts).transmitFifoDataRequest

/-- `idmac_status_has_error`. -/
def hasError (flag : Bool) : Bool := statusHasError flag ⟨s.rintsts⟩ ⟨s.idsts⟩

/-- The transfer shows all its terminal events. -/
def terminal (cmd : Cmd) : Bool := terminalEvents cmd ⟨s.rintsts⟩ ⟨s.idsts⟩

end StatusWords

/-- One bit of one of the two registers. -/
inductive StatusBit where
  | rintsts (k : Nat)
  | idsts (k : Nat)
  deriving DecidableEq, Repr

namespace StatusBit

/-- The bit is set in the words. -/
def set : StatusBit → StatusWords → Bool
  | rintsts k, s => s.rintsts.getLsbD k
  | idsts k, s => s.idsts.getLsbD k

/-- The bit reports an event: all of RINTSTS, and IDSTS without its read-only
fields. -/
def isEvent : StatusBit → Bool
  | rintsts _ => true
  | idsts k => IdSts.events.getLsbD k

variable {b : StatusBit} {s : StatusWords} {v : BitVec 32}

@[simp] theorem set_empty (b : StatusBit) : b.set .empty = false := by
  cases b with
  | rintsts k | idsts k => exact BitVec.getLsbD_zero

@[simp] theorem set_join (b : StatusBit) (s t : StatusWords) :
    b.set (s.join t) = (b.set s || b.set t) := by
  cases b with
  | rintsts k | idsts k => exact BitVec.getLsbD_or

theorem set_events (hb : b.isEvent = true) : b.set s.events = b.set s := by
  cases b with
  | rintsts k => rfl
  | idsts k =>
    show (s.idsts &&& IdSts.events).getLsbD k = s.idsts.getLsbD k
    rw [BitVec.getLsbD_and, show IdSts.events.getLsbD k = true from hb, Bool.and_true]

theorem set_settle (hb : b.isEvent = true) : b.set (s.settle v) = b.set s := by
  cases b with
  | rintsts k => rfl
  | idsts k =>
    have hk : IdSts.events.getLsbD k = true := hb
    show ((s.idsts &&& IdSts.events) ||| (v &&& ~~~IdSts.events)).getLsbD k = _
    rw [BitVec.getLsbD_or, BitVec.getLsbD_and, BitVec.getLsbD_and, BitVec.getLsbD_not, hk]
    simp [set]

theorem set_of_clearRintsts (h : b.set (s.clearRintsts v) = true) : b.set s = true := by
  cases b with
  | rintsts k => exact getLsbD_of_clearOnes h
  | idsts k => exact h

theorem set_of_clearIdsts (h : b.set (s.clearIdsts v) = true) : b.set s = true := by
  cases b with
  | rintsts k => exact h
  | idsts k => exact getLsbD_of_clearOnes h

/-- What a write to RINTSTS takes away, the written word names. -/
theorem set_clearRintsts (h : b.set s = true) :
    b.set (s.clearRintsts v) = true ∨ b.set ⟨v, 0⟩ = true := by
  cases b with
  | rintsts k => exact getLsbD_clearOnes h
  | idsts k => exact .inl h

theorem set_clearIdsts (h : b.set s = true) :
    b.set (s.clearIdsts v) = true ∨ b.set ⟨0, v⟩ = true := by
  cases b with
  | rintsts k => exact .inl h
  | idsts k =>
    rcases getLsbD_clearOnes h with hk | hk
    · exact .inl hk
    · rw [BitVec.getLsbD_and, Bool.and_eq_true] at hk
      exact .inr hk.1

/-- A word of which the bits are bits of `s`. -/
theorem set_of_rintsts {r : BitVec 32} (h : b.set ⟨s.rintsts &&& r, 0⟩ = true) :
    b.set s = true := by
  cases b with
  | rintsts k =>
    have hk : (s.rintsts &&& r).getLsbD k = true := h
    rw [BitVec.getLsbD_and, Bool.and_eq_true] at hk
    exact hk.1
  | idsts k => cases BitVec.getLsbD_zero.symm.trans h

theorem set_of_idsts (h : b.set ⟨0, s.idsts⟩ = true) : b.set s = true := by
  cases b with
  | rintsts k => cases BitVec.getLsbD_zero.symm.trans h
  | idsts k => exact h

end StatusBit

/-! ## §2. Where the two threads are. -/

/-- The next step of `dma_irq_handler`, with what it has read. -/
inductive HandlerPoint where
  | idle
  | readIdsts (rintsts : BitVec 32)
  | flagError (s : StatusWords)
  | clearIdsts (s : StatusWords)
  | clearRintsts (s : StatusWords)
  /-- `record_irq` begins. -/
  | loadGeneration (s : StatusWords)
  | orRintsts (generation : BitVec 64) (s : StatusWords)
  | orIdsts (generation : BitVec 64) (s : StatusWords)
  | publish (generation : BitVec 64)
  deriving DecidableEq, Repr

/-- What the handler has read and not recorded. -/
def HandlerPoint.carried : HandlerPoint → StatusWords
  | .idle => .empty
  | .readIdsts r => ⟨r, 0⟩
  | .flagError s | .clearIdsts s | .clearRintsts s | .loadGeneration s | .orRintsts _ s
  | .orIdsts _ s => s
  | .publish _ => .empty

/-- The handler is between its first clear and its publication. -/
def HandlerPoint.holding : HandlerPoint → Bool
  | .clearRintsts _ | .loadGeneration _ | .orRintsts _ _ | .orIdsts _ _ | .publish _ => true
  | _ => false

/-- The generation that the handler will publish. -/
def HandlerPoint.loaded : HandlerPoint → Option (BitVec 64)
  | .orRintsts g _ | .orIdsts g _ | .publish g => some g
  | _ => none

/-- A data command, and whether its end is awaited asynchronously. -/
structure Transfer where
  cmd : Cmd
  async : Bool
  deriving DecidableEq, Repr

/-- The next step of `idmac_completion_status` and the `snapshot_bits` in it;
`done` has the words of the registers and the snapshot. -/
inductive PollPoint where
  | readRintsts
  | readIdsts (rintsts : BitVec 32)
  | loadSnapshot (current : StatusWords)
  | loadRintsts (current : StatusWords)
  | loadIdsts (current : StatusWords) (rintstsBits : BitVec 32)
  | recheck (current bits : StatusWords)
  | done (current : StatusWords) (snapshot : Option StatusWords)
  deriving DecidableEq, Repr

/-- What a poll returns. -/
def pollResult (current : StatusWords) (snapshot : Option StatusWords) : StatusWords :=
  current.join (snapshot.getD .empty)

/-- The place of a poll in the code.  `again` is the second check of
`wait_timeout_until_async`, after the listener is there; `timedOut` is known
before the last status is read. -/
inductive PollSite where
  /-- `idmac_command_done_or_error` in the first wait. -/
  | command (again : Bool)
  /-- The status between the two waits. -/
  | commandCheck
  /-- `idmac_terminal_events_or_error` in the second wait. -/
  | terminal (again : Bool)
  /-- The status after the second wait. -/
  | terminalCheck (timedOut : Bool)
  /-- `validate_idmac_terminal`. -/
  | validate
  /-- The status for the error message. -/
  | report
  deriving DecidableEq, Repr

/-- The next step of the driver. -/
inductive DriverPoint where
  | idle
  /-- `idmac_faulted`: no transfer is begun any more. -/
  | faulted
  /-- A command without data clears RINTSTS. -/
  | plainClear (rintsts : BitVec 32)
  -- `prepare_idmac_transfer`
  | staleRead (t : Transfer)
  | staleClear (t : Transfer) (rintsts : BitVec 32)
  | staleIdsts (t : Transfer)
  | idstsRead (t : Transfer)
  | idstsClear (t : Transfer) (idsts : BitVec 32)
  | flagClear (t : Transfer)
  -- `begin_transfer`
  | storeSnapshot (t : Transfer)
  | storeRintsts (t : Transfer)
  | storeIdsts (t : Transfer)
  | fetchAdd (t : Transfer)
  -- `start_idmac_transfer`, from the command register on
  | submit (t : Transfer) (generation : BitVec 64)
  | accepted (t : Transfer) (generation : BitVec 64)
  | resume (t : Transfer) (generation : BitVec 64)
  | resumeRead (t : Transfer) (generation : BitVec 64)
  | resumeClear (t : Transfer) (generation : BitVec 64) (idsts : BitVec 32)
  | abnormal (t : Transfer) (generation : BitVec 64)
  | poll (t : Transfer) (generation : BitVec 64) (site : PollSite) (p : PollPoint)
  -- `finish_idmac_transfer`
  | finishRintsts (abort : Bool)
  | finishIdsts (abort : Bool) (rintsts : BitVec 32)
  | finishClear (abort : Bool) (s : StatusWords)
  | finishClearIdsts (abort : Bool) (idsts : BitVec 32)
  deriving DecidableEq, Repr

/-- What the controller and the driver have done. -/
inductive Happening where
  | submitted (generation : BitVec 64)
  | raised (events : StatusWords)
  deriving DecidableEq, Repr

/-- The events raised since transfer `g` was submitted; the history is kept
newest first. -/
def raisedSince (g : BitVec 64) : List Happening → StatusWords
  | [] => .empty
  | .submitted g' :: older => if g' = g then .empty else raisedSince g older
  | .raised s :: older => s.join (raisedSince g older)

/-- Driver, interrupt handler and card. -/
structure Machine where
  /-- RINTSTS and IDSTS. -/
  regs : StatusWords
  -- `IDMAC_COMPLETION`
  generation : BitVec 64
  snapshotGeneration : BitVec 64
  bits : StatusWords
  /-- `IDMAC_ERROR_FLAG`. -/
  errorFlag : Bool
  handler : HandlerPoint
  driver : DriverPoint
  history : List Happening
  /-- The join of what the polls of this transfer have returned. -/
  seen : StatusWords
  deriving DecidableEq, Repr

def Machine.start : Machine :=
  { regs := .empty, generation := 0, snapshotGeneration := 0, bits := .empty, errorFlag := false,
    handler := .idle, driver := .idle, history := [], seen := .empty }

/-! ## §3. Steps. -/

/-- What a step finds outside the two registers: a failure before submission
is a plain error (`fails`) or, of the publication, an abort. -/
inductive Turn where
  | fine | fails | aborts
  deriving DecidableEq, Repr

/-- Who moves. -/
inductive Label where
  /-- The controller raises events. -/
  | raise (s : StatusWords)
  /-- The read-only fields of IDSTS change. -/
  | settle (idsts : BitVec 32)
  /-- The handler takes its next step; when idle, it is entered. -/
  | irq
  /-- `send_cmd_idmac` or `send_cmd_idmac_async` is called. -/
  | begin (t : Transfer)
  /-- A command without data is sent. -/
  | plain
  /-- The driver takes its next step. -/
  | run (turn : Turn)
  deriving DecidableEq, Repr

/-- A step of `dma_irq_handler`, `record_irq` included. -/
def Machine.irq (m : Machine) : Machine :=
  match m.handler with
  | .idle => { m with handler := .readIdsts m.regs.rintsts }
  | .readIdsts r => { m with handler := .flagError ⟨r, m.regs.idsts⟩ }
  | .flagError s => { m with errorFlag := m.errorFlag || s.idmacError, handler := .clearIdsts s }
  | .clearIdsts s =>
    { m with
      regs := if s.hasIdsts then m.regs.clearIdsts s.idsts else m.regs
      handler := .clearRintsts s }
  | .clearRintsts s =>
    { m with
      regs := if s.acknowledges then
          m.regs.clearRintsts (RIntSts.clearRintsts ⟨s.rintsts⟩).bits
        else m.regs
      handler := .loadGeneration s }
  | .loadGeneration s =>
    { m with handler := if m.generation = 0 then .idle else .orRintsts m.generation s }
  | .orRintsts g s =>
    { m with
      bits := { m.bits with rintsts := m.bits.rintsts ||| s.rintsts }
      handler := .orIdsts g s }
  | .orIdsts g s =>
    { m with
      bits := { m.bits with idsts := m.bits.idsts ||| s.idsts }
      handler := .publish g }
  | .publish g => { m with snapshotGeneration := g, handler := .idle }

/-- The first poll of a wait. -/
def firstSite (cmd : Cmd) : PollSite := if cmd.responseExpect then .command false else .commandCheck

/-- The `.await` of an asynchronous wait: the future is polled again, or dropped. -/
def resumeWait (t : Transfer) (g : BitVec 64) (site : PollSite) (turn : Turn) : DriverPoint :=
  if turn = .aborts then .finishRintsts true else .poll t g site .readRintsts

/-- Where the driver goes with the result of a poll. -/
def afterPoll (t : Transfer) (g : BitVec 64) (site : PollSite) (s : StatusWords) (flag : Bool)
    (turn : Turn) : DriverPoint :=
  match site with
  | .command again =>
    if (RIntSts.mk s.rintsts).commandDone || s.hasError flag then
      .poll t g .commandCheck .readRintsts
    else if again then resumeWait t g (.command false) turn
    else if turn = .fine then .poll t g (.command t.async) .readRintsts
    else .poll t g .report .readRintsts
  | .commandCheck =>
    if s.hasError flag then .poll t g .report .readRintsts
    else .poll t g (.terminal false) .readRintsts
  | .terminal again =>
    if s.hasError flag || s.terminal t.cmd then .poll t g (.terminalCheck false) .readRintsts
    else if again then resumeWait t g (.terminal false) turn
    else if turn = .fine then .poll t g (.terminal t.async) .readRintsts
    else if t.async then .poll t g (.terminalCheck true) .readRintsts
    else .poll t g .report .readRintsts
  | .terminalCheck timedOut =>
    if timedOut || s.hasError flag then .poll t g .report .readRintsts
    else .poll t g .validate .readRintsts
  | .validate =>
    -- the descriptors and the response of the card are the `turn`
    .finishRintsts (s.hasError flag || !s.terminal t.cmd || turn != .fine)
  | .report => .finishRintsts true

/-- After a poll the driver polls again for the same transfer, or finishes it. -/
theorem afterPoll_cases (t : Transfer) (g : BitVec 64) (site : PollSite) (s : StatusWords)
    (flag : Bool) (turn : Turn) :
    (∃ site', afterPoll t g site s flag turn = .poll t g site' .readRintsts) ∨
      ∃ abort, afterPoll t g site s flag turn = .finishRintsts abort := by
  cases site with
  | command again =>
    simp only [afterPoll, resumeWait]
    split
    · exact .inl ⟨_, rfl⟩
    split
    · split
      · exact .inr ⟨_, rfl⟩
      · exact .inl ⟨_, rfl⟩
    · split
      · exact .inl ⟨_, rfl⟩
      · exact .inl ⟨_, rfl⟩
  | commandCheck | terminalCheck timedOut =>
    simp only [afterPoll]
    split
    · exact .inl ⟨_, rfl⟩
    · exact .inl ⟨_, rfl⟩
  | terminal again =>
    simp only [afterPoll, resumeWait]
    split
    · exact .inl ⟨_, rfl⟩
    split
    · split
      · exact .inr ⟨_, rfl⟩
      · exact .inl ⟨_, rfl⟩
    split
    · exact .inl ⟨_, rfl⟩
    · split
      · exact .inl ⟨_, rfl⟩
      · exact .inl ⟨_, rfl⟩
  | validate | report => exact .inr ⟨_, rfl⟩

/-- A step inside `idmac_completion_status`, and the decision after it. -/
def Machine.poll (m : Machine) (t : Transfer) (g : BitVec 64) (site : PollSite) (turn : Turn) :
    PollPoint → Machine
  | .readRintsts => { m with driver := .poll t g site (.readIdsts m.regs.rintsts) }
  | .readIdsts r => { m with driver := .poll t g site (.loadSnapshot ⟨r, m.regs.idsts⟩) }
  | .loadSnapshot current =>
    { m with
      driver := .poll t g site
        (if m.snapshotGeneration = g then .loadRintsts current else .done current none) }
  | .loadRintsts current => { m with driver := .poll t g site (.loadIdsts current m.bits.rintsts) }
  | .loadIdsts current r => { m with driver := .poll t g site (.recheck current ⟨r, m.bits.idsts⟩) }
  | .recheck current bits =>
    { m with
      driver := .poll t g site
        (.done current (if m.snapshotGeneration = g then some bits else none)) }
  | .done current snapshot =>
    { m with
      seen := m.seen.join (pollResult current snapshot)
      driver := afterPoll t g site (pollResult current snapshot) m.errorFlag turn }

/-- A step of the driver. -/
def Machine.run (m : Machine) (turn : Turn) : Machine :=
  match m.driver with
  | .idle => m
  | .faulted => m
  | .plainClear r => { m with regs := m.regs.clearRintsts r, driver := .idle }
  | .staleRead t => { m with driver := .staleClear t m.regs.rintsts }
  | .staleClear t r => { m with regs := m.regs.clearRintsts r, driver := .staleIdsts t }
  | .staleIdsts t => { m with driver := if m.regs.hasIdsts then .idstsRead t else .flagClear t }
  | .idstsRead t =>
    { m with driver := if m.regs.hasIdsts then .idstsClear t m.regs.idsts else .flagClear t }
  | .idstsClear t i => { m with regs := m.regs.clearIdsts i, driver := .flagClear t }
  | .flagClear t =>
    { m with
      errorFlag := false
      driver := match turn with
        | .fine => .storeSnapshot t
        | .fails => .idle
        | .aborts => .finishRintsts true }
  | .storeSnapshot t => { m with snapshotGeneration := 0, driver := .storeRintsts t }
  | .storeRintsts t => { m with bits := { m.bits with rintsts := 0 }, driver := .storeIdsts t }
  | .storeIdsts t => { m with bits := { m.bits with idsts := 0 }, driver := .fetchAdd t }
  | .fetchAdd t => { m with generation := m.generation + 1, driver := .submit t (m.generation + 1) }
  | .submit t g =>
    { m with history := .submitted g :: m.history, seen := .empty, driver := .accepted t g }
  | .accepted t g => { m with driver := if turn = .fine then .resume t g else .finishRintsts true }
  | .resume t g =>
    { m with
      driver := if (IdSts.mk m.regs.idsts).du then .resumeRead t g else .abnormal t g }
  | .resumeRead t g =>
    { m with
      driver := if m.regs.hasIdsts then .resumeClear t g m.regs.idsts else .abnormal t g }
  | .resumeClear t g i => { m with regs := m.regs.clearIdsts i, driver := .abnormal t g }
  | .abnormal t g =>
    { m with
      driver :=
        if (IdSts.mk m.regs.idsts).du || (IdSts.mk m.regs.idsts).ais
            || (IdSts.mk m.regs.idsts).fbe then .finishRintsts true
        else .poll t g (firstSite t.cmd) .readRintsts }
  | .poll t g site p => m.poll t g site turn p
  | .finishRintsts abort => { m with driver := .finishIdsts abort m.regs.rintsts }
  | .finishIdsts abort r => { m with driver := .finishClear abort ⟨r, m.regs.idsts⟩ }
  | .finishClear abort s =>
    { m with
      regs := m.regs.clearRintsts s.rintsts
      driver := .finishClearIdsts abort s.idsts }
  | .finishClearIdsts abort i =>
    { m with regs := m.regs.clearIdsts i, driver := if abort then .faulted else .idle }

/-- A step of the whole.  Only a command with data becomes a transfer. -/
def Machine.step (m : Machine) : Label → Option Machine
  | .raise s =>
    some { m with
      regs := m.regs.join s.events
      history := .raised s.events :: m.history }
  | .settle v => some { m with regs := m.regs.settle v }
  | .irq => some m.irq
  | .begin t =>
    if m.driver = .idle ∧ t.cmd.dataExpected = true then
      some { m with driver := .staleRead t }
    else none
  | .plain =>
    if m.driver = .idle then some { m with driver := .plainClear m.regs.rintsts } else none
  | .run turn => some (m.run turn)

/-! ## §4. A read, for the runs below. -/

/-- A read of one block. -/
def Transfer.readOne : Transfer := ⟨(Command.readSingleBlock 0 512).build.1, false⟩

/-- The driver from the call to the write of the command: no stale status. -/
def submission : List Label := .begin .readOne :: List.replicate 9 (.run .fine)

/-- The end of a read: command done, data transfer over, receive interrupt. -/
def readEnd : StatusWords := ⟨0xc, 0x102⟩

end StarryOS.Sdmmc
