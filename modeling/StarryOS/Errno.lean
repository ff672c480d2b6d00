/-
  StarryOS.Errno — the error codes that the modelled kernel paths return
  (`axerrno::AxError`; `VfsError` is the same type under its file-system name).
-/
import Mathlib.Algebra.Order.Ring.Nat

namespace StarryOS

/-- `AxError`, restricted to the codes that occur on the modelled paths. -/
inductive AxError where
  | addrInUse
  /-- `EAFNOSUPPORT`. -/
  | afNotSupported
  | alreadyExists
  | argumentListTooLong
  | badAddress
  | badFileDescriptor
  | badState
  | brokenPipe
  | connectionRefused
  | filesystemLoop
  /-- `EIDRM`. -/
  | idRemoved
  | interrupted
  | invalidData
  | invalidExecutable
  | invalidInput
  | io
  /-- `ECHILD`. -/
  | noChild
  | noMemory
  /-- `ENOMSG`. -/
  | noMessage
  | noSuchProcess
  | notADirectory
  | notATty
  | notConnected
  | notFound
  | operationNotPermitted
  | operationNotSupported
  | ownerDead
  | permissionDenied
  | resourceBusy
  | storageFull
  | timedOut
  | tooManyOpenFiles
  | wouldBlock
  deriving Repr, DecidableEq

/-- `AxResult`. -/
abbrev AxResult : Type → Type := Except AxError

end StarryOS
