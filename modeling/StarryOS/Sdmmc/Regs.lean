/-
  StarryOS.Sdmmc.Regs — THE REGISTERS AND COMMANDS of the SD/MMC controller, as
  far as the block transfers read or write them (`regs.rs`, `cmd.rs`, `utils.rs`).

  The two status registers that report a transfer are words of sticky bits:

      RINTSTS  31:16 sdio   15 EBE   14 ACD   13 SBE   12 HLE   11 FRUN
               10 HTO   9 DRTO   8 RTO   7 DCRC   6 RCRC   5 RXDR   4 TXDR
               3 DTO   2 command done   1 RE   0 card detect
      IDSTS    16:13 fsm   12:10 ebe   9 AIS   8 NIS   5 CES   4 DU
               2 FBE   1 RI   0 TI
-/
import StarryOS.Lib.ByteString
import StarryOS.Lib.StatusBits

namespace StarryOS.Sdmmc

open Lib

/-! ## §1. RINTSTS. -/

/-- The raw interrupt status register. -/
structure RIntSts where
  bits : BitVec 32
  deriving DecidableEq, Repr

namespace RIntSts

variable (r : RIntSts)

def endBitError : Bool := r.bits.getLsbD 15
def autoCommandDone : Bool := r.bits.getLsbD 14
def startBitError : Bool := r.bits.getLsbD 13
def hardwareLockedWrite : Bool := r.bits.getLsbD 12
def fifoUnderOverRun : Bool := r.bits.getLsbD 11
def hostTimeout : Bool := r.bits.getLsbD 10
def dataReadTimeout : Bool := r.bits.getLsbD 9
def responseTimeout : Bool := r.bits.getLsbD 8
def dataCrcError : Bool := r.bits.getLsbD 7
def responseCrcError : Bool := r.bits.getLsbD 6
def receiveFifoDataRequest : Bool := r.bits.getLsbD 5
def transmitFifoDataRequest : Bool := r.bits.getLsbD 4
def dataTransferOver : Bool := r.bits.getLsbD 3
def commandDone : Bool := r.bits.getLsbD 2
def responseError : Bool := r.bits.getLsbD 1

/-- The positions of the bits that report an error. -/
def errorBits : List Nat := [8, 9, 11, 10, 13, 15, 7, 6, 1, 12]

def error : Bool :=
  r.responseTimeout || r.dataReadTimeout || r.fifoUnderOverRun || r.hostTimeout
    || r.startBitError || r.endBitError || r.dataCrcError || r.responseCrcError
    || r.responseError || r.hardwareLockedWrite

theorem error_eq_true {r : RIntSts} :
    r.error = true ↔ ∃ k ∈ errorBits, r.bits.getLsbD k = true := by
  simp only [error, errorBits, List.mem_cons, List.not_mem_nil, or_false, exists_eq_or_imp,
    exists_eq_left, Bool.or_eq_true, responseTimeout, dataReadTimeout, fifoUnderOverRun,
    hostTimeout, startBitError, endBitError, dataCrcError, responseCrcError, responseError,
    hardwareLockedWrite, or_assoc]

/-- The bits that the interrupt handler acknowledges: all of 15:0 but
`command_done` and `card_detect`, which stay for the waiting thread. -/
def acknowledged : BitVec 32 := 0xfffa

/-- `clear_rintsts` of the handler: what it writes back of the word it has read. -/
def clearRintsts : RIntSts := ⟨r.bits &&& acknowledged⟩

end RIntSts

/-! ## §2. IDSTS. -/

/-- The status register of the internal DMA controller. -/
structure IdSts where
  bits : BitVec 32
  deriving DecidableEq, Repr

namespace IdSts

variable (i : IdSts)

def ais : Bool := i.bits.getLsbD 9
def nis : Bool := i.bits.getLsbD 8
def ces : Bool := i.bits.getLsbD 5
def du : Bool := i.bits.getLsbD 4
def fbe : Bool := i.bits.getLsbD 2
def ri : Bool := i.bits.getLsbD 1
def ti : Bool := i.bits.getLsbD 0

/-- The interrupt bits.  The others, the state of the DMA engine and the kind
of a bus error, are READ-ONLY fields: no event, and no write clears them. -/
def events : BitVec 32 := 0x337

/-- `ais || nis || ces || du || fbe || ri || ti`, the test before every clear. -/
def hasEvents : Bool :=
  i.ais || i.nis || i.ces || i.du || i.fbe || i.ri || i.ti

/-- The DMA controller reports an abnormal end. -/
def abnormal : Bool := i.ais || i.ces || i.du || i.fbe

end IdSts

/-! ## §3. The other registers. -/

/-- One bit of a word set to `b`. -/
def withBit (v : BitVec 32) (k : Nat) (b : Bool) : BitVec 32 :=
  if b then v ||| (1#32 <<< k) else v &&& ~~~(1#32 <<< k)

/-- The bus mode register: `de` is bit 7, `swr` bit 0. -/
structure BMod where
  bits : BitVec 32
  deriving DecidableEq, Repr

def BMod.swr (r : BMod) : Bool := r.bits.getLsbD 0
def BMod.withDe (r : BMod) (b : Bool) : BMod := ⟨withBit r.bits 7 b⟩
def BMod.withSwr (r : BMod) (b : Bool) : BMod := ⟨withBit r.bits 0 b⟩

/-- The control register: `use_internal_dmac` is bit 25, `int_enable` bit 4
and `dma_reset` bit 2. -/
structure Ctrl where
  bits : BitVec 32
  deriving DecidableEq, Repr

def Ctrl.dmaReset (r : Ctrl) : Bool := r.bits.getLsbD 2
def Ctrl.withDmaReset (r : Ctrl) (b : Bool) : Ctrl := ⟨withBit r.bits 2 b⟩
def Ctrl.withUseInternalDmac (r : Ctrl) (b : Bool) : Ctrl := ⟨withBit r.bits 25 b⟩
def Ctrl.withIntEnable (r : Ctrl) (b : Bool) : Ctrl := ⟨withBit r.bits 4 b⟩

/-- The fields of the status register that the driver reads. -/
structure Status where
  dataBusy : Bool
  dataStateMcBusy : Bool
  fifoCount : Nat
  deriving DecidableEq, Repr

/-- The data path is idle: the test of `can_send_data`. -/
def Status.idle (s : Status) : Bool := !s.dataBusy && !s.dataStateMcBusy

/-- The command register, with the fields that some command sets.  A write
with `start_cmd` submits the command. -/
structure Cmd where
  startCmd : Bool := true
  useHoldReg : Bool := false
  updateClockRegistersOnly : Bool := false
  sendInitialization : Bool := false
  waitPrvdataComplete : Bool := true
  sendAutoStop : Bool := false
  readWrite : Bool := false
  dataExpected : Bool := false
  checkResponseCrc : Bool := false
  responseLength : Bool := false
  responseExpect : Bool := false
  cmdIndex : Nat := 0
  deriving DecidableEq, Repr

/-! ## §4. The events that end a transfer. -/

/-- `command_done`, unless the command expects no response. -/
def commandAnswered (cmd : Cmd) (r : RIntSts) : Bool := !cmd.responseExpect || r.commandDone

/-- The automatic stop command has ended, where one was asked for. -/
def autoStopDone (cmd : Cmd) (r : RIntSts) : Bool := !cmd.sendAutoStop || r.autoCommandDone

/-- The DMA interrupt of the direction of the command. -/
def dmaDone (cmd : Cmd) (i : IdSts) : Bool := if cmd.readWrite then i.ti else i.ri

/-- All the events that a transfer of `cmd` has to show at its end. -/
def terminalEvents (cmd : Cmd) (r : RIntSts) (i : IdSts) : Bool :=
  commandAnswered cmd r && autoStopDone cmd r && dmaDone cmd i && r.dataTransferOver

/-- `idmac_status_has_error`, for the value of `IDMAC_ERROR_FLAG` that it loads. -/
def statusHasError (flag : Bool) (r : RIntSts) (i : IdSts) : Bool :=
  flag || r.error || i.abnormal

/-! ## §5. Card status. -/

inductive R1CurrentState where
  | idle | ready | identification | standby | transfer | sendingData | receiveData
  | programming | disconnect
  | reserved (state : Nat)
  deriving DecidableEq, Repr

/-- The status that the card returns in an R1 response. -/
structure R1CardStatus where
  raw : BitVec 32
  deriving DecidableEq, Repr

namespace R1CardStatus

/-- `ERROR_MASK`: all bits that make a command unsuccessful. -/
def errorMask : BitVec 32 := 0xfff98088

variable (s : R1CardStatus)

def errorBits : BitVec 32 := s.raw &&& errorMask
def hasError : Bool := s.errorBits != 0
def readyForData : Bool := s.raw.getLsbD 8
def appCmd : Bool := s.raw.getLsbD 5

def currentState : R1CurrentState :=
  match ((s.raw >>> 9) &&& 0xf).toNat with
  | 0 => .idle
  | 1 => .ready
  | 2 => .identification
  | 3 => .standby
  | 4 => .transfer
  | 5 => .sendingData
  | 6 => .receiveData
  | 7 => .programming
  | 8 => .disconnect
  | state => .reserved state

end R1CardStatus

inductive SdMmcError where
  | initializationFailed | unsupportedCard
  | cardStatus (status : R1CardStatus)
  | appCommandRejected (status : R1CardStatus)
  | invalidParameter | outOfRange | dmaUnavailable | dmaAllocation | dmaAddress
  | driverFaulted | commandBusy | dataBusy | descriptorPublication | commandStartTimeout
  | commandTimeout | dataTimeout | hardware | terminalValidation | recoveryFailed
  | cardBusyTimeout
  deriving DecidableEq, Repr

/-- `validate_r1_response`. -/
def validateR1Response (raw : BitVec 32) (requireAppCmd : Bool) : Except SdMmcError Unit :=
  let status : R1CardStatus := ⟨raw⟩
  if status.hasError then .error (.cardStatus status)
  else if requireAppCmd && !status.appCmd then .error (.appCommandRejected status)
  else .ok ()

/-! ## §6. Commands. -/

/-- A command with its arguments.  A read has room for `len` bytes, a write
carries its bytes. -/
inductive Command where
  | goIdleState | allSendCid | sendRelativeAddr
  | selectCard (arg : BitVec 32) | sendIfCond (arg : BitVec 32) | sendCsd (arg : BitVec 32)
  | sendStatus (arg : BitVec 32)
  | readSingleBlock (block : Nat) (len : Nat) | readMultipleBlocks (block : Nat) (len : Nat)
  | writeSingleBlock (block : Nat) (buf : Bytes)
  | writeMultipleBlocks (block : Nat) (buf : Bytes)
  | sdSendOpCond (arg : BitVec 32) | sendScr (len : Nat) | appCmd (arg : BitVec 32)
  | resetClock
  deriving DecidableEq, Repr

/-- The data phase of a command. -/
inductive DataXfer where
  | read (len : Nat)
  | write (buf : Bytes)
  deriving DecidableEq, Repr

def DataXfer.len : DataXfer → Nat
  | .read len => len
  | .write buf => buf.length

namespace Command

def cmdIndex : Command → Nat
  | goIdleState => 0
  | allSendCid => 2
  | sendRelativeAddr => 3
  | selectCard _ => 7
  | sendIfCond _ => 8
  | sendCsd _ => 9
  | sendStatus _ => 13
  | readSingleBlock _ _ => 17
  | readMultipleBlocks _ _ => 18
  | writeSingleBlock _ _ => 24
  | writeMultipleBlocks _ _ => 25
  | sdSendOpCond _ => 41
  | sendScr _ => 51
  | appCmd _ => 55
  | resetClock => 0

def hasR1Response : Command → Bool
  | selectCard _ | sendStatus _ | readSingleBlock _ _ | readMultipleBlocks _ _
  | writeSingleBlock _ _ | writeMultipleBlocks _ _ | sendScr _ | appCmd _ => true
  | _ => false

def requiresAppCmdAccepted : Command → Bool
  | appCmd _ => true
  | _ => false

/-- The value of the command register, the argument and the data phase. -/
def build (command : Command) : Cmd × BitVec 32 × Option DataXfer :=
  let cmd : Cmd := { useHoldReg := true, cmdIndex := command.cmdIndex }
  let cmdResp : Cmd := { cmd with responseExpect := true }
  let cmdCrc : Cmd := { cmdResp with checkResponseCrc := true }
  match command with
  | goIdleState => ({ cmd with sendInitialization := true }, 0, none)
  | sendRelativeAddr => (cmdCrc, 0, none)
  | selectCard arg => (cmdCrc, arg, none)
  | sendIfCond arg => (cmdCrc, arg, none)
  | appCmd arg => (cmdCrc, arg, none)
  | allSendCid => ({ cmdCrc with responseLength := true }, 0, none)
  | sendCsd arg => ({ cmdCrc with responseLength := true }, arg, none)
  | sendStatus arg => ({ cmdCrc with waitPrvdataComplete := false }, arg, none)
  | sdSendOpCond arg => (cmdResp, arg, none)
  | readSingleBlock block len =>
    ({ cmdCrc with dataExpected := true }, BitVec.ofNat 32 block, some (.read len))
  | readMultipleBlocks block len =>
    ({ cmdCrc with dataExpected := true, sendAutoStop := true }, BitVec.ofNat 32 block,
      some (.read len))
  | sendScr len => ({ cmdCrc with dataExpected := true }, 0, some (.read len))
  | writeSingleBlock block buf =>
    ({ cmdCrc with dataExpected := true, readWrite := true }, BitVec.ofNat 32 block,
      some (.write buf))
  | writeMultipleBlocks block buf =>
    ({ cmdCrc with dataExpected := true, readWrite := true, sendAutoStop := true },
      BitVec.ofNat 32 block, some (.write buf))
  | resetClock => ({ updateClockRegistersOnly := true }, 0, none)

end Command

end StarryOS.Sdmmc
