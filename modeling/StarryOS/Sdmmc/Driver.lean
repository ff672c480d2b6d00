/-
  StarryOS.Sdmmc.Driver — THE BLOCK TRANSFERS of the SD/MMC driver
  (`simple-sdmmc-extended`, `sdmmc.rs`), from `read_blocks`, `write_blocks` and
  their asynchronous forms down to the single register accesses.

  THE HARDWARE IS A TAPE.  Whatever the driver cannot know in advance is read
  off a list of `Moment`s: each access takes the next moment and looks at the
  field it asks for — a register, the clock, an OWN bit that the controller may
  have changed in memory, the snapshot and the error flag that the interrupt
  handler keeps, the answer of the allocator, and, at an `.await`, whether the
  future is dropped there.

  A call ends in one of four ways: it returns, it fails with an error, its
  future is DROPPED at a suspension point (the destructors then run), or the
  tape ends and the call is still RUNNING.

  What the driver does to the outside is kept in a log, newest first:
  register writes, descriptor memory that is allocated, written and freed,
  the two checks that free it, and each time `idmac_faulted` is set.
-/
import StarryOS.Lib.Program
import StarryOS.Sdmmc.Regs

namespace StarryOS.Sdmmc

open Lib

/-! ## §1. The hardware, as it is read. -/

/-- The four response registers. -/
abbrev Response := Fin 4 → BitVec 32

/-- Everything that one access may find. -/
structure Moment where
  startCmd : Bool
  status : Status
  rintsts : RIntSts
  idsts : IdSts
  bmod : BMod
  ctrl : Ctrl
  blksiz : BitVec 32
  bytcnt : BitVec 32
  dbaddr : BitVec 32
  resp : Response
  fifo : Bytes
  /-- The clock, in nanoseconds. -/
  now : Nat
  /-- OWN and CES of the descriptor that is looked at. -/
  own : Bool
  ces : Bool
  /-- The bus address of a coherent allocation, or its failure. -/
  alloc : Option Nat
  /-- What `IDMAC_COMPLETION.snapshot_bits` returns. -/
  snapshot : Option (RIntSts × IdSts)
  /-- `IDMAC_ERROR_FLAG`. -/
  errorFlag : Bool
  /-- The bytes of the DMA buffer. -/
  dma : Nat → UInt8
  /-- The future is dropped at the suspension point reached here. -/
  dropped : Bool

/-- The registers that are written, the command register apart. -/
inductive Reg where
  | ctrl | bmod | blksiz | bytcnt | intmask | idinten | rintsts | idsts | cmdarg | dbaddr
  | pldmnd
  deriving DecidableEq, Repr

/-- A descriptor of the chain that the controller walks. -/
structure IdmacDescriptor where
  own : Bool
  ces : Bool
  er : Bool
  ch : Bool
  fs : Bool
  ld : Bool
  dic : Bool
  bs1 : Nat
  des2 : Nat
  des3 : Nat
  deriving DecidableEq, Repr

/-- What the driver does to the outside. -/
inductive Event where
  | write (reg : Reg) (value : BitVec 32)
  /-- Bytes are put where the controller takes them: the DMA buffer, the FIFO. -/
  | staged (bytes : Bytes)
  /-- The command register is written. -/
  | command (cmd : Cmd)
  /-- Descriptor memory is allocated; the chains are numbered. -/
  | allocated (chain : Nat)
  /-- The descriptors of a chain are written to it. -/
  | described (chain : Nat) (descriptors : List IdmacDescriptor)
  /-- `validate_idmac_terminal` succeeded for the chain. -/
  | validated (chain : Nat)
  /-- `reset_idmac` succeeded. -/
  | reset
  | deallocated (chain : Nat)
  /-- `idmac_faulted` is set. -/
  | faulted
  /-- A call of a block transfer begins. -/
  | call
  /-- The call turns to its next DMA chunk. -/
  | chunk (block : Nat)
  deriving DecidableEq, Repr

/-- Why a call is not at its normal end. -/
inductive Stop where
  | failed (error : SdMmcError)
  | dropped
  | running
  deriving DecidableEq, Repr

/-- The driver, with the tape and the log. -/
structure World where
  numBlocks : Nat
  rca : BitVec 16
  /-- The bus address of the DMA buffer. -/
  dmaBuffer : Option Nat
  idmacFaulted : Bool
  idmacResetFailed : Bool
  /-- The counter of `IDMAC_COMPLETION`. -/
  generation : BitVec 64
  /-- The number of the next chain. -/
  nextChain : Nat
  tape : List Moment
  log : List Event
  /-- How the last call ended, if not by returning. -/
  stopped : Option Stop

/-- A function of the driver. -/
abbrev Prog := EStateM Stop World

/-- One access to the hardware. -/
def observe {α : Type} (field : Moment → α) : Prog α := do
  let w ← get
  match w.tape with
  | [] => throw .running
  | m :: rest =>
    set { w with tape := rest }
    return field m

/-- One more entry of the log. -/
def World.emit (w : World) (e : Event) : World := { w with log := e :: w.log }

/-- Something is done to the outside. -/
def emit (e : Event) : Prog Unit := modify (·.emit e)

/-- A register is written. -/
def write (reg : Reg) (value : BitVec 32) : Prog Unit := emit (.write reg value)

/-- `self.idmac_faulted = true`. -/
def setFaulted : Prog Unit := modify fun w => { w.emit .faulted with idmacFaulted := true }

/-- `match` on a result: the error of `m` becomes a value. -/
def attempt {α : Type} (m : Prog α) : Prog (Except SdMmcError α) :=
  tryCatch (do
    let a ← m
    return .ok a) fun
    | .failed e => return .error e
    | stop => throw stop

/-- `if c { return Err(error) }`. -/
def failIf (c : Prop) [Decidable c] (error : SdMmcError) : Prog Unit :=
  if c then throw (.failed error) else pure ()

/-- `if c { m }`. -/
def onlyIf (c : Prop) [Decidable c] (m : Prog Unit) : Prog Unit :=
  if c then m else pure ()

/-- `?` on a result without effects. -/
def fromExcept {α : Type} : Except SdMmcError α → Prog α
  | .ok a => return a
  | .error e => throw (.failed e)

/-- At most `n` passes of a loop. -/
def loopFor {α β : Type} (body : β → Prog (β ⊕ α)) : Nat → β → Prog α
  | 0, _ => throw .running
  | n + 1, b => do
    match ← body b with
    | .inl b' => loopFor body n b'
    | .inr a => return a

/-- A loop of the source.  Every pass but the last accesses the hardware, so
the tape ends before the bound is met. -/
def loop {α β : Type} (body : β → Prog (β ⊕ α)) (b : β) : Prog α := do
  let w ← get
  loopFor body (w.tape.length + 1) b

/-- `Duration::from_micros`. -/
def micros (n : Nat) : Nat := n * 1000

/-- `Duration::from_millis`. -/
def millis (n : Nat) : Nat := n * 1000000

/-- `Duration::from_secs`. -/
def secs (n : Nat) : Nat := n * 1000000000

/-- `monotonic_time`. -/
def monotonicTime : Prog Nat := observe (·.now)

/-! ## §2. Registers. -/

/-- The bytes of a block. -/
def blockSize : Nat := 512

/-- The blocks of one DMA chunk. -/
def maxDmaBlocks : Nat := 32

/-- `DMA_BUFFER_SIZE`. -/
def dmaBufferSize : Nat := maxDmaBlocks * 512

/-- What one descriptor covers. -/
def idmacDescriptorBufferSize : Nat := 8 * 512

/-- Fewer blocks are read one by one. -/
def minMultiBlockReadBlocks : Nat := 4

/-- `size_of::<IdmacDescriptor>()`. -/
def descriptorSize : Nat := 16

/-- The command register is free. -/
def canSendCmd : Prog Bool := do
  return !(← observe (·.startCmd))

/-- The data path is free. -/
def canSendData : Prog Bool := observe (·.status.idle)

/-- The command is done, or has failed. -/
def commandFinished : Prog Bool := observe fun m => m.rintsts.commandDone || m.rintsts.error

/-- IDSTS is written back if it has events. -/
def clearIdsts : Prog Unit := do
  let idsts ← observe (·.idsts)
  onlyIf idsts.hasEvents (write .idsts idsts.bits)

/-- RINTSTS is read and written back. -/
def clearRintsts : Prog Unit := do
  write .rintsts (← observe (·.rintsts)).bits

/-- BLKSIZ and BYTCNT of a transfer. -/
def setTransactionSize (byteCnt : Nat) : Prog Unit := do
  let blksiz ← observe (·.blksiz)
  write .blksiz ((blksiz &&& 0xffff0000) ||| BitVec.ofNat 32 blockSize)
  write .bytcnt (BitVec.ofNat 32 byteCnt)

/-- The DMA controller is reset, for at most 100 ms. -/
def resetIdmac : Prog Bool := do
  let bmod ← observe (·.bmod)
  write .bmod ((bmod.withDe false).withSwr true).bits
  let ctrl ← observe (·.ctrl)
  write .ctrl ((ctrl.withDmaReset true).withUseInternalDmac false).bits
  let deadline := (← monotonicTime) + millis 100
  loop (fun _ => do
    let bmod ← observe (·.bmod)
    let ctrl ← observe (·.ctrl)
    if !bmod.swr && !ctrl.dmaReset then
      emit .reset
      return .inr true
    else if deadline ≤ (← monotonicTime) then
      return .inr false
    else
      return .inl ()) ()

/-! ## §3. Plain commands. -/

/-- `while !can_send_cmd()` of `send_cmd_with_deadline`: it gives up after a
million polls or at the deadline. -/
def spinUntilSendable (overallDeadline : Option Nat) : Prog Unit :=
  loop (fun count => do
    if ← canSendCmd then
      return .inr ()
    else if 1000000 < count + 1 then
      return .inr ()
    else
      match overallDeadline with
      | none => return .inl (count + 1)
      | some deadline =>
        if deadline ≤ (← monotonicTime) then return .inr () else return .inl (count + 1)) 0

/-- `can_send_data` is polled without a limit. -/
def spinUntilDataIdle : Prog Unit :=
  loop (fun _ => do
    if ← canSendData then return .inr () else return .inl ()) ()

/-- `while fifo_cnt() >= 2 && offset + 8 <= buf.len()`: eight bytes a pass. -/
def drainFifo (len : Nat) (read : Bytes) : Prog Bytes :=
  loop (fun (read : Bytes) => do
    let count ← observe (·.status.fifoCount)
    if 2 ≤ count ∧ read.length + 8 ≤ len then
      return .inl (read ++ ((← observe (·.fifo)).take 8))
    else
      return .inr read) read

/-- `while fifo_cnt() < 120 && offset + 8 <= buf.len()`. -/
def fillFifo (buf : Bytes) (offset : Nat) : Prog Nat :=
  loop (fun (offset : Nat) => do
    let count ← observe (·.status.fifoCount)
    if count < 120 ∧ offset + 8 ≤ buf.length then
      emit (.staged ((buf.drop offset).take 8))
      return .inl (offset + 8)
    else
      return .inr offset) offset

/-- The data phase through the FIFO. -/
def transferFifo : DataXfer → Prog Unit
  | .read len =>
    loop (fun (read : Bytes) => do
      let rintsts ← observe (·.rintsts)
      let read ← (if rintsts.receiveFifoDataRequest then drainFifo len read else pure read)
      return if rintsts.dataTransferOver || rintsts.error then .inr () else .inl read) []
  | .write buf =>
    loop (fun (offset : Nat) => do
      let rintsts ← observe (·.rintsts)
      let offset ←
        (if rintsts.transmitFifoDataRequest then fillFifo buf offset else pure offset)
      return if rintsts.dataTransferOver || rintsts.error then .inr () else .inl offset) 0

/-- The deadline of a phase: one second, but not after the overall deadline. -/
def phaseDeadline (overallDeadline : Option Nat) : Prog Nat := do
  let deadline := (← monotonicTime) + secs 1
  return (overallDeadline.map (min · deadline)).getD deadline

/-- `cond` is polled until it holds or the deadline has passed; the result
says whether it timed out. -/
def pollUntil (cond : Prog Bool) (deadline : Nat) : Prog Bool :=
  loop (fun _ => do
    if ← cond then return .inr false
    else if deadline ≤ (← monotonicTime) then return .inr true
    else return .inl ()) ()

/-- `send_cmd_with_deadline`, up to the acceptance of the command. -/
def submitPlain (cmd : Cmd) (arg : BitVec 32) (overallDeadline : Option Nat) : Prog Unit := do
  spinUntilSendable overallDeadline
  failIf (!(← canSendCmd)) .commandBusy
  onlyIf cmd.dataExpected spinUntilDataIdle
  clearRintsts
  write .cmdarg arg
  emit (.command cmd)
  spinUntilSendable overallDeadline
  onlyIf (!(← canSendCmd)) (do
    clearRintsts
    throw (.failed .commandStartTimeout))

/-- The command phase: `command_done` or an error bit, in time. -/
def commandPhase (overallDeadline : Option Nat) : Prog Unit := do
  let deadline ← phaseDeadline overallDeadline
  onlyIf (← pollUntil commandFinished deadline) (do
    clearRintsts
    throw (.failed .commandTimeout))

/-- An error before the data or busy phase. -/
def checkCommandStatus : Prog Unit := do
  let commandStatus ← observe (·.rintsts)
  onlyIf commandStatus.error (do
    write .rintsts commandStatus.bits
    throw (.failed .hardware))

/-- The busy phase of SELECT_CARD: whether it timed out. -/
def busyPhase (expectsBusy : Bool) (overallDeadline : Option Nat) : Prog Bool :=
  if expectsBusy then do
    let deadline ← phaseDeadline overallDeadline
    pollUntil canSendData deadline
  else pure false

/-- The data phase, if there is one. -/
def dataPhase : Option DataXfer → Prog Unit
  | some xfer => transferFifo xfer
  | none => pure ()

/-- The end of `send_cmd_with_deadline`: the response and the last status. -/
def collectResponse (command : Command) (busyTimedOut : Bool) : Prog Response := do
  let resp ← observe (·.resp)
  let rintsts ← observe (·.rintsts)
  write .rintsts rintsts.bits
  failIf busyTimedOut .cardBusyTimeout
  failIf rintsts.error (if rintsts.dataReadTimeout then .dataTimeout else .hardware)
  onlyIf command.hasR1Response
    (fromExcept (validateR1Response (resp 0) command.requiresAppCmdAccepted))
  return resp

/-- `RESET_CLOCK` has no command phase. -/
def Command.isResetClock : Command → Bool
  | .resetClock => true
  | _ => false

/-- `SELECT_CARD` has a busy phase. -/
def Command.expectsBusy : Command → Bool
  | .selectCard _ => true
  | _ => false

/-- `send_cmd_with_deadline`: a command without DMA. -/
def sendCmdWithDeadline (command : Command) (overallDeadline : Option Nat) :
    Prog Response := do
  submitPlain command.build.1 command.build.2.1 overallDeadline
  onlyIf (!command.isResetClock) (commandPhase overallDeadline)
  checkCommandStatus
  let busyTimedOut ← busyPhase command.expectsBusy overallDeadline
  dataPhase command.build.2.2
  collectResponse command busyTimedOut

/-! ## §4. A transfer through the DMA controller. -/

/-- `IdmacTransferContext`; `chain` stands for the descriptor memory. -/
structure IdmacTransferContext where
  cmd : Cmd
  arg : BitVec 32
  expectsR1 : Bool
  generation : BitVec 64
  chain : Nat
  descriptorCount : Nat

/-- The descriptor memory is freed. -/
def dealloc (chain : Nat) : Prog Unit := emit (.deallocated chain)

/-- Both status registers are read, then both are written back. -/
def clearStatus : Prog Unit := do
  let rintsts ← observe (·.rintsts)
  let idsts ← observe (·.idsts)
  write .rintsts rintsts.bits
  write .idsts idsts.bits

/-- The recovery of `finish_idmac_transfer`: interrupts off, then a reset.  If
that fails the descriptor is RETAINED: the controller may still use it. -/
def stopIdmac : Prog Unit := do
  write .intmask 0
  write .idinten 0
  onlyIf (!(← resetIdmac)) (do
    setFaulted
    modify fun w => { w with idmacResetFailed := true }
    clearStatus
    throw (.failed .recoveryFailed))

/-- The last lines of an aborted transfer. -/
def disableIdmac : Prog Unit := do
  let ctrl ← observe (·.ctrl)
  write .ctrl ((ctrl.withUseInternalDmac false).withIntEnable false).bits

variable (context : IdmacTransferContext)

/-- `finish_idmac_transfer`. -/
def finishIdmacTransfer (abort : Bool) : Prog Unit := do
  onlyIf abort stopIdmac
  clearStatus
  dealloc context.chain
  onlyIf abort disableIdmac

/-- `return Err(self.abort_idmac_transfer(context, error))`. -/
def abortIdmacTransfer {α : Type} (context : IdmacTransferContext) (error : SdMmcError) :
    Prog α := do
  setFaulted
  finishIdmacTransfer context true
  throw (.failed error)

/-- `wait_for_transfer_idle_short`. -/
def waitForTransferIdleShort : Prog Unit := do
  let deadline := (← monotonicTime) + micros 100
  loop (fun _ => do
    let commandIdle ← canSendCmd
    let dataIdle ← canSendData
    if commandIdle && dataIdle then
      return .inr ()
    else if deadline ≤ (← monotonicTime) then
      throw (.failed (if !commandIdle then .commandBusy else .dataBusy))
    else
      return .inl ()) ()

/-- `descriptor_owned_count`: the OWN bits are read one after the other. -/
def descriptorOwnedCount : Nat → Prog Nat
  | 0 => return 0
  | n + 1 => do
    let rest ← descriptorOwnedCount n
    return if ← observe (·.own) then rest + 1 else rest

/-- Some descriptor has its OWN bit. -/
def descriptorOwned : Prog Bool := do
  return (← descriptorOwnedCount context.descriptorCount) != 0

/-- `descriptor_card_error`: up to the first descriptor with CES set. -/
def descriptorCardError : Nat → Prog Bool
  | 0 => return false
  | n + 1 => do
    if ← observe (·.ces) then return true else descriptorCardError n

/-- The chain for `len` bytes at `busAddr`, with its own memory at `descAddr`. -/
def descriptorChain (len busAddr descAddr count : Nat) : List IdmacDescriptor :=
  (List.range count).map fun index =>
    let offset := index * idmacDescriptorBufferSize
    let last := index + 1 == count
    { own := true, ces := false, er := false, ch := !last, fs := index == 0, ld := last,
      dic := !last, bs1 := min (len - offset) idmacDescriptorBufferSize,
      des2 := busAddr + offset,
      des3 := if last then 0 else descAddr + (index + 1) * descriptorSize }

/-- The number of a fresh allocation. -/
def allocChain : Prog Nat := modifyGet fun w =>
  (w.nextChain, { w.emit (.allocated w.nextChain) with nextChain := w.nextChain + 1 })

/-- The part of `prepare_idmac_transfer` that establishes a clean status. -/
def clearStaleStatus : Prog Unit := do
  clearRintsts
  let staleIdsts ← observe (·.idsts)
  onlyIf staleIdsts.hasEvents clearIdsts

/-- The part of `prepare_idmac_transfer` from the descriptors on. -/
def publishChain (len busAddr descAddr : Nat) :
    Prog IdmacTransferContext := do
  let count := context.descriptorCount
  emit (.described context.chain (descriptorChain len busAddr descAddr count))
  write .bytcnt (BitVec.ofNat 32 len)
  write .dbaddr (BitVec.ofNat 32 descAddr)
  let programmedDbaddr ← observe (·.dbaddr)
  let programmedByteCount ← observe (·.bytcnt)
  let ownedDescriptors ← descriptorOwnedCount count
  if programmedDbaddr != BitVec.ofNat 32 descAddr || programmedByteCount != BitVec.ofNat 32 len
      || ownedDescriptors != count then
    abortIdmacTransfer context .descriptorPublication
  else
    return context

/-- The part of `prepare_idmac_transfer` from the allocation on. -/
def allocateChain (command : Command) (bufLen dmaBusAddr descAddr : Nat) :
    Prog IdmacTransferContext := do
  let descriptorCount := (bufLen + idmacDescriptorBufferSize - 1) / idmacDescriptorBufferSize
  let chain ← allocChain
  -- No descriptor has been written to this memory yet.
  if 2 ^ 32 ≤ descAddr then
    dealloc chain
    throw (.failed .dmaAddress)
  else if 2 ^ 32 ≤ descAddr + (descriptorCount - 1) * descriptorSize then
    dealloc chain
    throw (.failed .dmaAddress)
  else
    publishChain
      { cmd := command.build.1, arg := command.build.2.1, expectsR1 := command.hasR1Response,
        generation := 0, chain, descriptorCount }
      bufLen dmaBusAddr descAddr

/-- `prepare_idmac_transfer`: everything before the command. -/
def prepareIdmacTransfer (command : Command) (dmaBusAddr : Nat) :
    Prog IdmacTransferContext := do
  failIf (← get).idmacFaulted .driverFaulted
  failIf (!command.build.1.dataExpected) .invalidParameter
  match command.build.2.2 with
  | none => throw (.failed .invalidParameter)
  | some xfer =>
    waitForTransferIdleShort
    clearStaleStatus
    failIf (xfer.len = 0 ∨ dmaBufferSize < xfer.len) .invalidParameter
    failIf (2 ^ 32 ≤ dmaBusAddr + (xfer.len - 1)) .dmaAddress
    match ← observe (·.alloc) with
    | none => throw (.failed .dmaAllocation)
    | some descAddr => allocateChain command xfer.len dmaBusAddr descAddr

/-- `IDMAC_COMPLETION.begin_transfer()`, as far as it returns the generation. -/
def beginTransfer : Prog (BitVec 64) := modifyGet fun w =>
  (w.generation + 1, { w with generation := w.generation + 1 })

/-- Descriptor Unavailable after the command: the DMA controller is told to
look again. -/
def resumeIfUnavailable : Prog Unit := do
  onlyIf (← observe (·.idsts)).du (do
    clearIdsts
    write .pldmnd 1)

/-- The part of `start_idmac_transfer` after the command register is written. -/
def confirmStart : Prog IdmacTransferContext := do
  let deadline := (← monotonicTime) + millis 1
  if ← pollUntil canSendCmd deadline then
    abortIdmacTransfer context .commandStartTimeout
  else
    resumeIfUnavailable
    let idsts ← observe (·.idsts)
    if idsts.du then abortIdmacTransfer context .hardware
    else if idsts.ais || idsts.fbe then abortIdmacTransfer context .hardware
    else return context

/-- `start_idmac_transfer`: the command is submitted. -/
def startIdmacTransfer : Prog IdmacTransferContext := do
  let generation ← beginTransfer
  write .cmdarg context.arg
  emit (.command context.cmd)
  confirmStart { context with generation }

/-- The registers, with what the interrupt handler has kept. -/
def idmacCompletionStatus (_generation : BitVec 64) : Prog (RIntSts × IdSts) := do
  let rintsts ← observe (·.rintsts)
  let idsts ← observe (·.idsts)
  match ← observe (·.snapshot) with
  | none => return (rintsts, idsts)
  | some (r, i) => return (⟨rintsts.bits ||| r.bits⟩, ⟨idsts.bits ||| i.bits⟩)

/-- `idmac_status_has_error`. -/
def idmacStatusHasError (rintsts : RIntSts) (idsts : IdSts) : Prog Bool := do
  return statusHasError (← observe (·.errorFlag)) rintsts idsts

/-- The first wait is over. -/
def idmacCommandDoneOrError : Prog Bool := do
  let status ← idmacCompletionStatus context.generation
  if status.1.commandDone then return true else idmacStatusHasError status.1 status.2

/-- The second wait is over. -/
def idmacTerminalEventsOrError : Prog Bool := do
  let status ← idmacCompletionStatus context.generation
  let hasError ← idmacStatusHasError status.1 status.2
  return hasError || terminalEvents context.cmd status.1 status.2

/-- The transfer has ended as it should, in all registers and descriptors. -/
def validateIdmacTerminal : Prog Bool := do
  let status ← idmacCompletionStatus context.generation
  let hasError ← idmacStatusHasError status.1 status.2
  let owned ← descriptorOwned context
  let cardError ← descriptorCardError context.descriptorCount
  if !hasError && terminalEvents context.cmd status.1 status.2 && !owned && !cardError then
    emit (.validated context.chain)
    return true
  else
    return false

/-- The status is read once more; an error ends the transfer. -/
def checkStatus : Prog Unit := do
  let status ← idmacCompletionStatus context.generation
  failIf (← idmacStatusHasError status.1 status.2) .hardware

/-- The two waits of `send_cmd_idmac`. -/
def waitTransferSync : Prog Unit := do
  onlyIf context.cmd.responseExpect (do
    let deadline := (← monotonicTime) + secs 2
    failIf (← pollUntil (idmacCommandDoneOrError context) deadline) .commandTimeout)
  checkStatus context
  let deadline := (← monotonicTime) + secs 5
  failIf (← pollUntil (idmacTerminalEventsOrError context) deadline) .dataTimeout
  checkStatus context

/-- A suspension point: the future may be dropped here. -/
def await : Prog Unit := do
  if ← observe (·.dropped) then throw .dropped else return ()

/-- `WaitQueue::wait_timeout_until_async`: `true` if the wait timed out. -/
def waitTimeoutUntilAsync (dur : Nat) (condition : Prog Bool) : Prog Bool := do
  let deadline := (← monotonicTime) + dur
  loop (fun _ => do
    if ← condition then return .inr false
    else if deadline ≤ (← monotonicTime) then return .inr true
    else if ← condition then return .inr false
    else
      await
      return .inl ()) ()

/-- The two waits of `send_cmd_idmac_async`. -/
def waitTransferAsync : Prog Unit := do
  onlyIf context.cmd.responseExpect (do
    failIf (← waitTimeoutUntilAsync (secs 2) (idmacCommandDoneOrError context)) .commandTimeout)
  checkStatus context
  let dataTimedOut ← waitTimeoutUntilAsync (secs 5) (idmacTerminalEventsOrError context)
  let status ← idmacCompletionStatus context.generation
  failIf dataTimedOut .dataTimeout
  failIf (← idmacStatusHasError status.1 status.2) .hardware

/-! ## §5. The guards. -/

/-- `ActiveIdmacTransfer::drop`, with the context still in place. -/
def dropActiveTransfer : Prog Unit := do
  setFaulted
  let _ ← attempt (finishIdmacTransfer context true)

/-- A destructor runs when the future is dropped inside `m`. -/
def onDrop {α : Type} (m : Prog α) (destructor : Prog Unit) : Prog α :=
  tryCatch m fun
    | .dropped => do
      destructor
      throw .dropped
    | stop => throw stop

/-- `transfer.fault(); transfer.finish(true)?; return Err(error)`. -/
def failTransfer {α : Type} (context : IdmacTransferContext) (error : SdMmcError) :
    Prog α := do
  setFaulted
  finishIdmacTransfer context true
  throw (.failed error)

/-- `validated_response`. -/
def validatedResponse : Prog Response := do
  let response ← observe (·.resp)
  onlyIf context.expectsR1 (fromExcept (validateR1Response (response 0) false))
  return response

/-- The shape of `send_cmd_idmac` and `send_cmd_idmac_async`. -/
def sendCmdIdmacWith (wait : IdmacTransferContext → Prog Unit) (command : Command)
    (dmaBusAddr : Nat) : Prog Response := do
  let context ← prepareIdmacTransfer command dmaBusAddr
  let context ← startIdmacTransfer context
  match ← attempt (wait context) with
  | .error error => failTransfer context error
  | .ok () =>
    if !(← validateIdmacTerminal context) then
      failTransfer context .terminalValidation
    else
      match ← attempt (validatedResponse context) with
      | .error error => failTransfer context error
      | .ok response =>
        finishIdmacTransfer context false
        return response

/-- `send_cmd_idmac`. -/
def sendCmdIdmac : Command → Nat → Prog Response := sendCmdIdmacWith waitTransferSync

/-- `send_cmd_idmac_async`. -/
def sendCmdIdmacAsync : Command → Nat → Prog Response :=
  sendCmdIdmacWith fun context => onDrop (waitTransferAsync context) (dropActiveTransfer context)

/-- `wait_card_ready_after_write`. -/
def waitCardReadyAfterWrite : Prog Unit := do
  let deadline := (← monotonicTime) + secs 5
  onlyIf (← pollUntil canSendData deadline) (do
    setFaulted
    throw (.failed .cardBusyTimeout))

/-- The card is ready for the next data command. -/
def cardReady (cardStatus : R1CardStatus) (controllerStatus : Status) : Bool :=
  !cardStatus.hasError && cardStatus.readyForData
    && cardStatus.currentState == .transfer && controllerStatus.idle

/-- `guard.fault(); return Err(error)`. -/
def failBusy {α : Type} (error : SdMmcError) : Prog α := do
  setFaulted
  throw (.failed error)

/-- The deadline counts from the second pass on, when a card status is known. -/
def busyExpired (deadline : Nat) (seen : Bool) : Prog Bool :=
  if seen then do
    return decide (deadline ≤ (← monotonicTime))
  else pure false

/-- One pass of the loop of `wait_card_ready_after_write_async`; the state says
whether a card status has been seen. -/
def pollCardReady (rcaArg : BitVec 32) (deadline : Nat) (seen : Bool) :
    Prog (Bool ⊕ Unit) := do
  let expired ← busyExpired deadline seen
  onlyIf expired (failBusy .cardBusyTimeout)
  match ← attempt (sendCmdWithDeadline (.sendStatus rcaArg) (some deadline)) with
  | .error error => failBusy error
  | .ok response =>
    let status ← observe (·.status)
    if cardReady ⟨response 0⟩ status then
      return .inr ()
    else
      let now ← monotonicTime
      onlyIf (now < deadline) await
      return .inl true

/-- `AsyncWriteBusyGuard` faults the driver when the future is dropped before
the card has been seen ready. -/
def waitCardReadyAfterWriteAsync : Prog Unit := do
  let deadline := (← monotonicTime) + secs 5
  let rcaArg := (← get).rca.setWidth 32 <<< 16
  onDrop (loop (pollCardReady rcaArg deadline) false) setFaulted

/-! ## §6. Chunks and block transfers. -/

/-- `self.dma_buffer.as_ref().ok_or(DmaUnavailable)?`. -/
def dmaBufInfo : Prog Nat := do
  match (← get).dmaBuffer with
  | none => throw (.failed .dmaUnavailable)
  | some busAddr => return busAddr

/-- `u32::try_from(bus_addr)`. -/
def dmaBusAddr (busAddr : Nat) : Prog Nat :=
  if 2 ^ 32 ≤ busAddr then throw (.failed .dmaAddress) else return busAddr

/-- The command that reads a chunk. -/
def readCommand (block len : Nat) : Command :=
  if len = blockSize then .readSingleBlock block len else .readMultipleBlocks block len

/-- The command that writes a chunk. -/
def writeCommand (block : Nat) (buf : Bytes) : Command :=
  if buf.length = blockSize then .writeSingleBlock block buf else .writeMultipleBlocks block buf

/-- The shape of `read_dma_chunk` and `read_dma_chunk_async`. -/
def readDmaChunkWith (send : Command → Nat → Prog Response) (block len : Nat) :
    Prog Bytes := do
  emit (.chunk block)
  setTransactionSize len
  let busAddr ← dmaBusAddr (← dmaBufInfo)
  let _ ← send (readCommand block len) busAddr
  return (List.range len).map (← observe (·.dma))

/-- `read_dma_chunk`. -/
def readDmaChunk : Nat → Nat → Prog Bytes := readDmaChunkWith sendCmdIdmac

/-- `read_dma_chunk_async`. -/
def readDmaChunkAsync : Nat → Nat → Prog Bytes := readDmaChunkWith sendCmdIdmacAsync

/-- `write_dma_chunk`. -/
def writeDmaChunk (block : Nat) (buf : Bytes) : Prog Unit := do
  emit (.chunk block)
  setTransactionSize buf.length
  let busAddr ← dmaBusAddr (← dmaBufInfo)
  emit (.staged buf)
  let _ ← sendCmdIdmac (writeCommand block buf) busAddr
  waitCardReadyAfterWrite

/-- The asynchronous form fills the buffer BEFORE it looks at its address. -/
def writeDmaChunkAsync (block : Nat) (buf : Bytes) : Prog Unit := do
  emit (.chunk block)
  setTransactionSize buf.length
  let info ← dmaBufInfo
  emit (.staged buf)
  let busAddr ← dmaBusAddr info
  let _ ← sendCmdIdmacAsync (writeCommand block buf) busAddr
  waitCardReadyAfterWriteAsync

/-- `validate_block_buffer`. -/
def validateBlockBuffer (block len : Nat) : Prog Unit := do
  failIf (len = 0 ∨ len % blockSize ≠ 0) .invalidParameter
  let stop := block + len / blockSize
  failIf (2 ^ 64 ≤ stop) .outOfRange
  failIf ((← get).numBlocks < stop ∨ 2 ^ 32 < stop) .outOfRange

/-- `block.checked_add(chunk_blocks).ok_or(OutOfRange)?`, unless all is done. -/
def nextBlock (block chunkBlocks remaining : Nat) : Prog Nat :=
  if remaining = 0 then return block
  else if 2 ^ 32 ≤ block + chunkBlocks then throw (.failed .outOfRange)
  else return block + chunkBlocks

/-- How many blocks a read takes next. -/
def readChunkBlocks (remainingBlocks : Nat) : Nat :=
  if minMultiBlockReadBlocks ≤ remainingBlocks then min remainingBlocks maxDmaBlocks else 1

/-- One pass of the loop of `read_blocks`: `rest` bytes are left to read. -/
def readPass (chunk : Nat → Nat → Prog Bytes) :
    Nat × Nat × Bytes → Prog ((Nat × Nat × Bytes) ⊕ Bytes)
  | (block, rest, read) =>
    if rest = 0 then return .inr read
    else do
      let chunkBlocks := readChunkBlocks (rest / blockSize)
      let bytes ← chunk block (chunkBlocks * blockSize)
      let remaining := rest - chunkBlocks * blockSize
      let block ← nextBlock block chunkBlocks remaining
      return .inl (block, remaining, read ++ bytes)

/-- The shape of `read_blocks` and `read_blocks_async`. -/
def readBlocksWith (chunk : Nat → Nat → Prog Bytes) (block len : Nat) :
    Prog Bytes := do
  validateBlockBuffer block len
  loop (readPass chunk) (block, len, [])

/-- `read_blocks`. -/
def readBlocks : Nat → Nat → Prog Bytes := readBlocksWith readDmaChunk

/-- `read_blocks_async`. -/
def readBlocksAsync : Nat → Nat → Prog Bytes := readBlocksWith readDmaChunkAsync

/-- One pass of the loop of `write_blocks`. -/
def writePass (chunk : Nat → Bytes → Prog Unit) :
    Nat × Bytes → Prog ((Nat × Bytes) ⊕ Unit)
  | (block, buf) =>
    if buf = [] then return .inr ()
    else do
      let chunkBlocks := min (buf.length / blockSize) maxDmaBlocks
      chunk block (buf.take (chunkBlocks * blockSize))
      let remaining := buf.drop (chunkBlocks * blockSize)
      let block ← nextBlock block chunkBlocks remaining.length
      return .inl (block, remaining)

/-- The shape of `write_blocks` and `write_blocks_async`. -/
def writeBlocksWith (chunk : Nat → Bytes → Prog Unit) (block : Nat) (buf : Bytes) :
    Prog Unit := do
  validateBlockBuffer block buf.length
  loop (writePass chunk) (block, buf)

/-- `write_blocks`. -/
def writeBlocks : Nat → Bytes → Prog Unit := writeBlocksWith writeDmaChunk

/-- `write_blocks_async`. -/
def writeBlocksAsync : Nat → Bytes → Prog Unit := writeBlocksWith writeDmaChunkAsync

/-! ## §7. Runs. -/

/-- A call of the driver. -/
inductive Call where
  | readBlocks (block len : Nat)
  | readBlocksAsync (block len : Nat)
  | writeBlocks (block : Nat) (buf : Bytes)
  | writeBlocksAsync (block : Nat) (buf : Bytes)

/-- The function of a call. -/
def Call.run : Call → Prog Unit
  | .readBlocks block len => do
    let _ ← Sdmmc.readBlocks block len
  | .readBlocksAsync block len => do
    let _ ← Sdmmc.readBlocksAsync block len
  | .writeBlocks block buf => Sdmmc.writeBlocks block buf
  | .writeBlocksAsync block buf => Sdmmc.writeBlocksAsync block buf

/-- A driver that has been brought up, in whatever state. -/
def World.start (numBlocks : Nat) (rca : BitVec 16) (dmaBuffer : Option Nat)
    (faulted resetFailed : Bool) (generation : BitVec 64) : World :=
  { numBlocks, rca, dmaBuffer, idmacFaulted := faulted, idmacResetFailed := resetFailed,
    generation, nextChain := 0, tape := [], log := if faulted then [.faulted] else [],
    stopped := none }

/-- The next call, with the moments it meets.  While a call is running the
driver is borrowed and no other can begin. -/
def step (w : World) (next : Call × List Moment) : Option World :=
  if w.stopped = some .running then none
  else
    match next.1.run { w.emit .call with tape := next.2 } with
    | .ok _ w' => some { w' with stopped := none }
    | .error stop w' => some { w' with stopped := some stop }

end StarryOS.Sdmmc
