/-
  StarryOS.Sdmmc.FailStop — FAIL-STOP of the block transfers.

  A transfer that has been submitted and does not reach its normal end takes the
  driver out of service: `idmac_faulted` is set and never cleared, and no data
  command is submitted again.  Descriptor memory is given back only when the
  controller cannot use it any more.

    • a chain that has been described to the controller is deallocated only
      after `validate_idmac_terminal` or `reset_idmac` has succeeded for it,
    • a chunk that fails or is dropped after a command was written for it
      leaves the driver faulted,
    • no data command is written after the driver has been faulted.

  Two readings of this do not hold.  Memory that was only ALLOCATED for a
  chain goes back at once when its bus address does not fit into 32 bits; and
  a call of several chunks may fail before the command of a later chunk, with
  the driver still in service.  `fail_stop_starts_at_submission` has a run of
  each.
-/
import StarryOS.Lib.Transition
import StarryOS.Sdmmc.Driver

namespace StarryOS.Sdmmc

open Lib

/-! ## §1. What the log says. -/

/-- A command has been written for the chunk that the call is at. -/
def submitted : List Event → Bool
  | [] => false
  | .call :: _ => false
  | .chunk _ :: _ => false
  | .command _ :: _ => true
  | _ :: older => submitted older

/-- Since the descriptors of the chain were written, its terminal state has
been validated or the DMA controller has been reset. -/
def released (chain : Nat) : List Event → Bool
  | [] => false
  | .validated c :: older => c == chain || released chain older
  | .reset :: _ => true
  | .described c _ :: older => c != chain && released chain older
  | _ :: older => released chain older

/-- What must have happened before an event. -/
def Justified (older : List Event) : Event → Prop
  | .deallocated chain => (∃ ds, .described chain ds ∈ older) → released chain older = true
  | .command cmd => cmd.dataExpected = true → .faulted ∉ older
  | _ => True

/-- Every event of the log is justified by what is older. -/
def Sound : List Event → Prop
  | [] => True
  | e :: older => Justified older e ∧ Sound older

variable {e : Event} {w : World} {P : World → Prop} {stop : Stop} {b : Bool}
    {Q : Unit → World → Prop} {E : Stop → World → Prop} {α : Type} (context : IdmacTransferContext)
    (error : SdMmcError)

theorem Sound.justified {older : List Event} :
    ∀ {newer : List Event}, Sound (newer ++ e :: older) → Justified older e
  | [], h => h.1
  | _ :: _, h => Sound.justified h.2

/-- The invariant of the driver. -/
@[grind cases] structure Safe (w : World) : Prop where
  sound : Sound w.log
  flag : w.idmacFaulted = true ↔ .faulted ∈ w.log
  fresh : ∀ chain ds, .described chain ds ∈ w.log → chain < w.nextChain

theorem Safe.emit (h : Safe w) (hj : Justified w.log e) (hf : e ≠ .faulted)
    (hd : ∀ chain ds, e = .described chain ds → chain < w.nextChain) :
    Safe (w.emit e) where
  sound := ⟨hj, h.sound⟩
  flag := by
    rw [show (w.emit e).idmacFaulted = w.idmacFaulted from rfl, h.flag]
    exact ⟨.tail _, fun hm => (List.mem_cons.mp hm).resolve_left hf.symm⟩
  fresh := by
    intro chain ds hm
    rcases List.mem_cons.mp hm with he | hm
    · exact hd chain ds he.symm
    · exact h.fresh chain ds hm

/-- An event that the last two fields of `Safe` are not about. -/
def Event.incidental : Event → Bool
  | .faulted => false
  | .described _ _ => false
  | _ => true

theorem Safe.emit_incidental (h : Safe w) (he : e.incidental = true) (hj : Justified w.log e) :
    Safe (w.emit e) := by
  refine h.emit hj ?_ ?_
  · rintro rfl
    cases he
  · rintro chain ds rfl
    cases he

theorem Safe.faulted (h : Safe w) :
    Safe { w.emit .faulted with idmacFaulted := true } where
  sound := ⟨trivial, h.sound⟩
  flag := ⟨fun _ => .head _, fun _ => rfl⟩
  fresh := by
    intro chain ds hm
    exact h.fresh chain ds ((List.mem_cons.mp hm).resolve_left (fun he => nomatch he))

/-! ## §2. Code that only looks. -/

/-- A register write, or bytes put into a buffer. -/
def Event.quiet : Event → Bool
  | .write _ _ => true
  | .staged _ => true
  | _ => false

/-- Quiet, or a command without data. -/
def Event.plain : Event → Bool
  | .command cmd => !cmd.dataExpected
  | e => e.quiet

/-- `P` depends neither on the tape nor on the events of the class `c`. -/
structure Inert (c : Event → Bool) (P : World → Prop) : Prop where
  tape : ∀ w tape, P w → P { w with tape }
  emit : ∀ w e, c e = true → P w → P (w.emit e)

theorem Event.plain_of_quiet (h : e.quiet = true) : e.plain = true := by
  cases e <;> first | exact h | cases h

theorem Inert.quiet (h : Inert Event.plain P) : Inert Event.quiet P :=
  ⟨h.tape, fun w e he => h.emit w e (Event.plain_of_quiet he)⟩

theorem Inert.and {c : Event → Bool} {R : World → Prop} (hP : Inert c P) (hR : Inert c R) :
    Inert c (fun w => P w ∧ R w) where
  tape w tape h := ⟨hP.tape w tape h.1, hR.tape w tape h.2⟩
  emit w e he h := ⟨hP.emit w e he h.1, hR.emit w e he h.2⟩

theorem safe_inert : Inert Event.plain Safe where
  tape _ _ h := ⟨h.sound, h.flag, h.fresh⟩
  emit w e he h := by
    cases e with
    | write _ _ | staged _ => exact h.emit_incidental rfl trivial
    | command cmd =>
      refine h.emit_incidental rfl (fun hd => ?_)
      -- a plain command has no data phase
      rw [show Event.plain (.command cmd) = !cmd.dataExpected from rfl, hd] at he
      cases he
    | _ => cases he

theorem submitted_inert : Inert Event.plain (fun w => submitted w.log = true) where
  tape _ _ h := h
  emit w e he h := by
    cases e with
    | write _ _ => exact h
    | staged _ => exact h
    | command _ => rfl
    | _ => cases he

theorem unsubmitted_inert (b : Bool) : Inert Event.quiet (fun w => submitted w.log = b) where
  tape _ _ h := h
  emit w e he h := by
    cases e with
    | write _ _ => exact h
    | staged _ => exact h
    | _ => cases he

theorem faulted_inert (b : Bool) : Inert Event.plain (fun w => w.idmacFaulted = b) where
  tape _ _ h := h
  emit _ _ _ h := h

theorem released_inert (chain : Nat) :
    Inert Event.quiet (fun w => released chain w.log = true) where
  tape _ _ h := h
  emit w e he h := by
    cases e with
    | write _ _ => exact h
    | staged _ => exact h
    | _ => cases he

/-- The exits of code that cannot fail: the tape has ended. -/
def OnlyRunning (stop : Stop) : Prop := stop = .running

/-- The exits of code without a suspension point. -/
def NotDropped (stop : Stop) : Prop := stop ≠ .dropped

theorem onlyRunning_running : OnlyRunning .running := rfl

theorem notDropped_running : NotDropped .running := nofun

theorem notDropped_failed (e : SdMmcError) : NotDropped (.failed e) := nofun

section Looking

variable {α β : Type} {P : World → Prop} {X : Stop → Prop}

theorem emit_keeps {c : Event → Bool} (hP : Inert c P) {e : Event} (he : c e = true) :
    Keeps P X (emit e) :=
  fun w => hP.emit w e he

theorem failIf_keeps {c : Prop} [Decidable c] {e : SdMmcError} (he : X (.failed e)) :
    Keeps P X (failIf c e) :=
  .ite (.throw he) (.pure _)

theorem onlyIf_keeps {c : Prop} [Decidable c] {m : Prog Unit} (hm : Keeps P X m) :
    Keeps P X (onlyIf c m) :=
  .ite hm (.pure _)

theorem fromExcept_keeps (hF : ∀ e, X (.failed e)) (r : Except SdMmcError α) :
    Keeps P X (fromExcept r) := by
  cases r with
  | ok a => exact .pure a
  | error e => exact .throw (hF e)

/-- **The rule for loops**, with an invariant of the state and the loop variable. -/
theorem wp_loop {body : β → Prog (β ⊕ α)} {Q : α → World → Prop} {E : Stop → World → Prop}
    (I : β → World → Prop) (hrun : ∀ b w, I b w → E .running w)
    (hbody : ∀ b w, I b w → wp (body b) w
      (fun r w' => Sum.elim (fun b' => I b' w') (fun a => Q a w') r) E)
    {b : β} {w : World} (h : I b w) : wp (loop body b) w Q E := by
  have bounded : ∀ n b w, I b w → wp (loopFor body n b) w Q E := by
    intro n
    induction n with
    | zero => exact hrun
    | succ n ih =>
      intro b w h
      simp only [loopFor, wp_bind]
      refine wp_mono_ok (hbody b w h) (fun r w' hr => ?_)
      cases r with
      | inl b' => exact ih b' w' hr
      | inr a => exact hr
  exact bounded _ b w h

/-- Looking does not change `P`, and the tape may end. -/
structure Watch (P : World → Prop) (X : Stop → Prop) : Prop where
  inert : Inert Event.quiet P
  running : X .running

variable (k : Watch P X)
include k

theorem Watch.loop {body : β → Prog (β ⊕ α)} (hb : ∀ b, Keeps P X (body b)) (b : β) :
    Keeps P X (loop body b) := by
  intro w h
  refine wp_loop (fun _ => P) (fun _ _ h => ⟨k.running, h⟩) (fun b w h => ?_) h
  refine (hb b).wp h (fun r w' hr => ?_) (fun _ _ hx h => ⟨hx, h⟩)
  cases r with
  | inl _ => exact hr
  | inr _ => exact hr

theorem Watch.write (reg : Reg) (value : BitVec 32) : Keeps P X (write reg value) :=
  emit_keeps k.inert rfl

theorem Watch.observe (field : Moment → α) : Keeps P X (observe field) := by
  intro w h
  simp only [Sdmmc.observe, wp_bind, wp_get]
  cases ht : w.tape with
  | nil => exact ⟨k.running, h⟩
  | cons m rest => exact k.inert.tape w rest h

theorem Watch.look {field : Moment → α} {f : α → Prog β} (hf : ∀ a, Keeps P X (f a)) :
    Keeps P X (Sdmmc.observe field >>= f) :=
  .bind (k.observe _) hf

theorem Watch.canSendCmd : Keeps P X canSendCmd :=
  k.look fun _ => .pure _

theorem Watch.clearIdsts : Keeps P X clearIdsts :=
  k.look fun _ => onlyIf_keeps (k.write _ _)

theorem Watch.clearRintsts : Keeps P X clearRintsts :=
  k.look fun _ => k.write _ _

theorem Watch.clearStatus : Keeps P X clearStatus :=
  k.look fun _ => k.look fun _ =>
    .bind (k.write _ _) fun _ => k.write _ _

theorem Watch.setTransactionSize (n : Nat) : Keeps P X (setTransactionSize n) :=
  k.look fun _ => .bind (k.write _ _) fun _ => k.write _ _

theorem Watch.disableIdmac : Keeps P X disableIdmac :=
  k.look fun _ => k.write _ _

theorem Watch.pollUntil {cond : Prog Bool} (hc : Keeps P X cond) (deadline : Nat) :
    Keeps P X (pollUntil cond deadline) :=
  k.loop (fun _ => .bind hc fun _ => .ite (.pure _)
    (k.look fun _ => .ite (.pure _) (.pure _))) ()

theorem Watch.phaseDeadline (overallDeadline : Option Nat) :
    Keeps P X (phaseDeadline overallDeadline) :=
  k.look fun _ => .pure _

theorem Watch.spinUntilSendable (overallDeadline : Option Nat) :
    Keeps P X (spinUntilSendable overallDeadline) := by
  refine k.loop (fun _ => .bind k.canSendCmd fun _ =>
    .ite (.pure _) (.ite (.pure _) ?_)) 0
  cases overallDeadline with
  | none => exact .pure _
  | some deadline => exact k.look fun _ => .ite (.pure _) (.pure _)

theorem Watch.spinUntilDataIdle : Keeps P X spinUntilDataIdle :=
  k.loop (fun _ => k.look fun _ => .ite (.pure _) (.pure _)) ()

theorem Watch.drainFifo (len : Nat) (read : Bytes) : Keeps P X (drainFifo len read) :=
  k.loop (fun _ => k.look fun _ =>
    .ite (k.look fun _ => .pure _) (.pure _)) read

theorem Watch.fillFifo (buf : Bytes) (offset : Nat) : Keeps P X (fillFifo buf offset) :=
  k.loop (fun _ => k.look fun _ =>
    .ite (.bind (emit_keeps k.inert rfl) fun _ => .pure _) (.pure _)) offset

theorem Watch.dataPhase (xfer : Option DataXfer) : Keeps P X (dataPhase xfer) := by
  cases xfer with
  | none => exact .pure _
  | some xfer =>
    cases xfer with
    | read len =>
      exact k.loop (fun _ => k.look fun _ =>
        .bind (.ite (k.drainFifo _ _) (.pure _)) fun _ => .pure _) []
    | write buf =>
      exact k.loop (fun _ => k.look fun _ =>
        .bind (.ite (k.fillFifo _ _) (.pure _)) fun _ => .pure _) 0

theorem Watch.busyPhase (expectsBusy : Bool) (overallDeadline : Option Nat) :
    Keeps P X (busyPhase expectsBusy overallDeadline) :=
  .ite (.bind (k.phaseDeadline _) fun _ => k.pollUntil (k.observe _) _) (.pure _)

theorem Watch.descriptorOwnedCount : ∀ n, Keeps P X (descriptorOwnedCount n)
  | 0 => .pure _
  | n + 1 => .bind (Watch.descriptorOwnedCount n) fun _ => k.look fun _ => .pure _

theorem Watch.descriptorCardError : ∀ n, Keeps P X (descriptorCardError n)
  | 0 => .pure _
  | n + 1 => k.look fun _ => .ite (.pure _) (Watch.descriptorCardError n)

theorem Watch.clearStaleStatus : Keeps P X clearStaleStatus :=
  .bind k.clearRintsts fun _ => k.look fun _ => onlyIf_keeps k.clearIdsts

theorem Watch.resumeIfUnavailable : Keeps P X resumeIfUnavailable :=
  k.look fun _ => onlyIf_keeps (.bind k.clearIdsts fun _ => k.write _ _)

theorem Watch.idmacCompletionStatus (g : BitVec 64) : Keeps P X (idmacCompletionStatus g) := by
  refine k.look fun _ => k.look fun _ =>
    k.look fun snapshot => ?_
  cases snapshot with
  | none | some _ => exact .pure _

theorem Watch.idmacStatusHasError (r : RIntSts) (i : IdSts) : Keeps P X (idmacStatusHasError r i) :=
  k.look fun _ => .pure _

theorem Watch.idmacCommandDoneOrError (context : IdmacTransferContext) :
    Keeps P X (idmacCommandDoneOrError context) :=
  .bind (k.idmacCompletionStatus _) fun _ => .ite (.pure _) (k.idmacStatusHasError _ _)

theorem Watch.idmacTerminalEventsOrError (context : IdmacTransferContext) :
    Keeps P X (idmacTerminalEventsOrError context) :=
  .bind (k.idmacCompletionStatus _) fun _ => .bind (k.idmacStatusHasError _ _) fun _ => .pure _

section Failing

/-! The same for code that may fail. -/

variable (hF : ∀ e, X (.failed e)) (context : IdmacTransferContext)
include hF

theorem Watch.commandPhase (overallDeadline : Option Nat) :
    Keeps P X (commandPhase overallDeadline) :=
  .bind (k.phaseDeadline _) fun _ => .bind (k.pollUntil (k.observe _) _) fun _ =>
    onlyIf_keeps (.bind k.clearRintsts fun _ => .throw (hF _))

theorem Watch.checkCommandStatus : Keeps P X checkCommandStatus :=
  k.look fun _ => onlyIf_keeps (.bind (k.write _ _) fun _ => .throw (hF _))

theorem Watch.collectResponse (command : Command) (busyTimedOut : Bool) :
    Keeps P X (collectResponse command busyTimedOut) :=
  k.look fun _ => k.look fun _ =>
    .bind (k.write _ _) fun _ => .bind (failIf_keeps (hF _)) fun _ =>
      .bind (failIf_keeps (hF _)) fun _ =>
        .bind (onlyIf_keeps (fromExcept_keeps hF _)) fun _ => .pure _

theorem Watch.waitForTransferIdleShort : Keeps P X waitForTransferIdleShort :=
  k.look fun _ => k.loop (fun _ =>
    .bind k.canSendCmd fun _ => k.look fun _ =>
      .ite (.pure _) (k.look fun _ =>
        .ite (.throw (hF _)) (.pure _))) ()

theorem Watch.checkStatus : Keeps P X (checkStatus context) :=
  .bind (k.idmacCompletionStatus _) fun _ =>
    .bind (k.idmacStatusHasError _ _) fun _ => failIf_keeps (hF _)

theorem Watch.validatedResponse : Keeps P X (validatedResponse context) :=
  k.look fun _ =>
    .bind (onlyIf_keeps (fromExcept_keeps hF _)) fun _ => .pure _

theorem Watch.waitTransferSync : Keeps P X (waitTransferSync context) :=
  .bind (onlyIf_keeps (k.look fun _ =>
      .bind (k.pollUntil (k.idmacCommandDoneOrError _) _) fun _ =>
        failIf_keeps (hF _))) fun _ =>
    .bind (k.checkStatus hF _) fun _ => k.look fun _ =>
      .bind (k.pollUntil (k.idmacTerminalEventsOrError _) _) fun _ =>
        .bind (failIf_keeps (hF _)) fun _ => k.checkStatus hF _

end Failing

/-! Code with a suspension point. -/

theorem Watch.await (hD : X .dropped) : Keeps P X await :=
  k.look fun _ => .ite (.throw hD) (.pure _)

theorem Watch.waitTimeoutUntilAsync (hD : X .dropped) (dur : Nat) {condition : Prog Bool}
    (hc : Keeps P X condition) : Keeps P X (waitTimeoutUntilAsync dur condition) :=
  k.look fun _ => k.loop (fun _ =>
    .bind hc fun _ => .ite (.pure _) (k.look fun _ =>
      .ite (.pure _) (.bind hc fun _ => .ite (.pure _)
        (.bind (k.await hD) fun _ => .pure _)))) ()

theorem Watch.waitTransferAsync (hF : ∀ e, X (.failed e)) (hD : X .dropped)
    (context : IdmacTransferContext) : Keeps P X (waitTransferAsync context) :=
  .bind (onlyIf_keeps (.bind (k.waitTimeoutUntilAsync hD _
      (k.idmacCommandDoneOrError _)) fun _ => failIf_keeps (hF _))) fun _ =>
    .bind (k.checkStatus hF _) fun _ =>
      .bind (k.waitTimeoutUntilAsync hD _
        (k.idmacTerminalEventsOrError _)) fun _ =>
        .bind (k.idmacCompletionStatus _) fun _ =>
          .bind (failIf_keeps (hF _)) fun _ =>
            .bind (k.idmacStatusHasError _ _) fun _ => failIf_keeps (hF _)

end Looking

/-! ## §3. Taking the driver out of service. -/

/-- The driver is out of service; `b` says whether a command has been written
for the chunk at hand. -/
structure OutOfService (b : Bool) (w : World) : Prop where
  safe : Safe w
  faulted : w.idmacFaulted = true
  submitted : submitted w.log = b

/-- How a chunk, or a call, may end without returning. -/
def Exit (stop : Stop) (w : World) : Prop :=
  Safe w ∧ (stop ≠ .running → submitted w.log = true → w.idmacFaulted = true)

theorem Safe.exit_running (h : Safe w) : Exit .running w :=
  ⟨h, absurd rfl⟩

theorem OnlyRunning.exit (hx : OnlyRunning stop) (h : Safe w) : Exit stop w := by
  cases hx
  exact h.exit_running

theorem Safe.exit_unsubmitted (h : Safe w) (hs : submitted w.log = false) : Exit stop w :=
  ⟨h, fun _ ht => absurd (hs.symm.trans ht) Bool.false_ne_true⟩

theorem OutOfService.exit (h : OutOfService b w) : Exit stop w :=
  ⟨h.safe, fun _ _ => h.faulted⟩

theorem outOfService_inert (b : Bool) : Inert Event.quiet (OutOfService b) where
  tape w t h := ⟨safe_inert.tape w t h.safe, h.faulted, h.submitted⟩
  emit w e he h := ⟨safe_inert.quiet.emit w e he h.safe, h.faulted,
    (unsubmitted_inert b).emit w e he h.submitted⟩

theorem outOfService_watch (b : Bool) : Watch (OutOfService b) (fun _ => True) :=
  ⟨outOfService_inert b, trivial⟩

/-- `self.idmac_faulted = true` takes a safe driver out of service. -/
theorem setFaulted_spec (h : Safe w) (hs : submitted w.log = b)
    (hQ : ∀ w', OutOfService b w' → Q () w') : wp setFaulted w Q E :=
  hQ _ ⟨h.faulted, rfl, hs⟩

@[simp] theorem wp_emit (e : Event) (w : World) (Q : Unit → World → Prop)
    (E : Stop → World → Prop) : wp (emit e) w Q E ↔ Q () (w.emit e) := Iff.rfl

@[simp] theorem wp_dealloc (chain : Nat) (w : World) (Q : Unit → World → Prop)
    (E : Stop → World → Prop) :
    wp (dealloc chain) w Q E ↔ Q () (w.emit (.deallocated chain)) := Iff.rfl

theorem wp_failIf {c : Prop} [Decidable c] {e : SdMmcError} (hE : c → E (.failed e) w)
    (hQ : ¬c → Q () w) : wp (failIf c e) w Q E :=
  wp_ite hE hQ

theorem wp_onlyIf {c : Prop} [Decidable c] {m : Prog Unit} (hm : c → wp m w Q E)
    (hQ : ¬c → Q () w) : wp (onlyIf c m) w Q E :=
  wp_ite hm hQ

/-- **A reset that succeeds releases every chain.** -/
theorem resetIdmac_spec (hP : Inert Event.quiet P) (hreset : ∀ w, P w → P (w.emit .reset))
    (chain : Nat) (h : P w) :
    wp resetIdmac w (fun ok w' => P w' ∧ (ok = true → released chain w'.log = true))
      (fun stop w' => OnlyRunning stop ∧ P w') := by
  have k : Watch P OnlyRunning := ⟨hP, rfl⟩
  have failed : ∀ (e : Stop) w', OnlyRunning e → P w' → OnlyRunning e ∧ P w' :=
    fun _ _ he h => ⟨he, h⟩
  simp only [resetIdmac, wp_bind]
  refine (k.observe _).wp h (fun _ w h => ?_) failed
  refine (k.write _ _).wp h (fun _ w h => ?_) failed
  refine (k.observe _).wp h (fun _ w h => ?_) failed
  refine (k.write _ _).wp h (fun _ w h => ?_) failed
  refine (k.observe _).wp h (fun _ w h => ?_) failed
  refine wp_loop (fun _ => P) (fun _ _ h => ⟨rfl, h⟩) (fun _ w h => ?_) h
  simp only [wp_bind]
  refine (k.observe _).wp h (fun _ w h => ?_) failed
  refine (k.observe _).wp h (fun _ w h => ?_) failed
  refine wp_ite (fun _ => ?_) (fun _ => ?_)
  · exact ⟨hreset w h, fun _ => rfl⟩
  · rw [wp_bind]
    refine (k.observe _).wp h (fun _ w h => ?_) failed
    exact wp_ite (fun _ => ⟨h, by rintro ⟨⟩⟩) (fun _ => h)

/-- The recovery, from a driver that is already out of service. -/
theorem stopIdmac_spec (chain : Nat) (h : OutOfService b w) :
    wp stopIdmac w (fun _ w' => OutOfService b w' ∧ released chain w'.log = true)
      (fun _ w' => OutOfService b w') := by
  have k := outOfService_watch b
  simp only [stopIdmac, wp_bind]
  refine (k.write _ _).wp h (fun _ w h => ?_) (fun _ _ _ => id)
  refine (k.write _ _).wp h (fun _ w h => ?_) (fun _ _ _ => id)
  refine wp_mono (resetIdmac_spec k.inert ?_ chain h) (fun ok w h => ?_) (fun _ _ h => h.2)
  · exact fun w h => ⟨h.safe.emit_incidental rfl trivial, h.faulted, h.submitted⟩
  refine wp_onlyIf (fun _ => ?_) (fun hok => ⟨h.1, h.2 (by simpa using hok)⟩)
  rw [wp_bind]
  refine setFaulted_spec h.1.safe h.1.submitted (fun w h => ?_)
  simp only [wp_bind, wp_modify]
  exact k.clearStatus.wp ⟨⟨h.safe.sound, h.safe.flag, h.safe.fresh⟩, h.faulted, h.submitted⟩
    (fun _ w h => h) (fun _ _ _ => id)

theorem Safe.dealloc {chain : Nat} (h : Safe w) (hr : released chain w.log = true) :
    Safe (w.emit (.deallocated chain)) :=
  h.emit_incidental rfl (fun _ => hr)

/-- **Aborting frees the chain only after the reset.** -/
theorem finish_abort_spec (h : OutOfService b w) :
    wp (finishIdmacTransfer context true) w (fun _ w' => OutOfService b w')
      (fun _ w' => OutOfService b w') := by
  have k : Watch _ (fun _ => True) :=
    ⟨(outOfService_inert b).and (released_inert context.chain), trivial⟩
  simp only [finishIdmacTransfer, wp_bind]
  refine wp_onlyIf (fun _ => ?_) (absurd rfl)
  refine wp_mono_ok (stopIdmac_spec context.chain h) (fun _ w h => ?_)
  refine k.clearStatus.wp h (fun _ w h => ?_) (fun _ _ _ h => h.1)
  have hfreed : OutOfService b (w.emit (.deallocated context.chain)) :=
    ⟨h.1.safe.dealloc h.2, h.1.faulted, h.1.submitted⟩
  exact (onlyIf_keeps (outOfService_watch b).disableIdmac).wp hfreed (fun _ _ => id)
    (fun _ _ _ => id)

/-- An aborted transfer never returns, and the driver is out of service. -/
theorem abortIdmacTransfer_spec (h : Safe w) (hs : submitted w.log = b) {Q : α → World → Prop} :
    wp (abortIdmacTransfer context error) w Q (fun _ w' => OutOfService b w') := by
  simp only [abortIdmacTransfer, wp_bind]
  refine setFaulted_spec h hs (fun w h => ?_)
  exact wp_mono_ok (finish_abort_spec context h) (fun _ _ => id)

theorem finish_spec (h : (Safe w ∧ submitted w.log = true) ∧ released context.chain w.log = true) :
    wp (finishIdmacTransfer context false) w (fun _ w' => Safe w' ∧ submitted w'.log = true)
      (fun stop w' => OnlyRunning stop ∧ Safe w') := by
  have k : Watch _ OnlyRunning :=
    ⟨(safe_inert.quiet.and (unsubmitted_inert true)).and (released_inert context.chain), rfl⟩
  simp only [finishIdmacTransfer, wp_bind]
  refine wp_onlyIf (by rintro ⟨⟩) (fun _ => ?_)
  refine k.clearStatus.wp h (fun _ w h => ?_) (fun _ _ hx h => ⟨hx, h.1.1⟩)
  rw [wp_dealloc]
  exact wp_onlyIf (by rintro ⟨⟩) (fun _ => ⟨h.1.1.dealloc h.2, h.1.2⟩)

/-! ## §4. One transfer. -/

theorem allocChain_spec (h : Safe w) {Q : Nat → World → Prop}
    (hQ : ∀ w', Safe w' → submitted w'.log = submitted w.log →
      w'.idmacFaulted = w.idmacFaulted → w.nextChain < w'.nextChain →
      (∀ ds, .described w.nextChain ds ∉ w'.log) → Q w.nextChain w') : wp allocChain w Q E := by
  have hlog : ∀ chain ds, .described chain ds ∈ (w.emit (.allocated w.nextChain)).log →
      .described chain ds ∈ w.log :=
    fun _ _ hm => (List.mem_cons.mp hm).resolve_left nofun
  refine hQ _ ⟨⟨trivial, h.sound⟩, ?_, ?_⟩ rfl rfl (Nat.lt_succ_self _) ?_
  · have hkept : Safe (w.emit (.allocated w.nextChain)) := h.emit_incidental rfl trivial
    exact hkept.flag
  · exact fun chain ds hm => Nat.lt_succ_of_lt (h.fresh chain ds (hlog chain ds hm))
  · exact fun ds hm => Nat.lt_irrefl _ (h.fresh _ ds (hlog _ ds hm))

/-- A driver in service that has not written a command for this chunk. -/
def Ready (w : World) : Prop := (Safe w ∧ submitted w.log = false) ∧ w.idmacFaulted = false

theorem ready_inert : Inert Event.quiet Ready :=
  (safe_inert.quiet.and (unsubmitted_inert false)).and (faulted_inert false).quiet

theorem Ready.exit (h : Ready w) : Exit stop w :=
  h.1.1.exit_unsubmitted h.1.2

theorem publishChain_spec (len busAddr descAddr : Nat)
    (h : Ready w) (hchain : context.chain < w.nextChain) :
    wp (publishChain context len busAddr descAddr) w (fun c w' => c = context ∧ Ready w')
      Exit := by
  have exit : ∀ (e : Stop) w', OnlyRunning e → Ready w' → Exit e w' := fun _ _ _ h => h.exit
  have k : Watch Ready OnlyRunning := ⟨ready_inert, rfl⟩
  have hdescribed : ∀ ds, Ready (w.emit (.described context.chain ds)) := fun ds =>
    ⟨⟨h.1.1.emit trivial nofun
        (fun _ _ he => by injection he with hc; exact hc ▸ hchain), h.1.2⟩, h.2⟩
  simp only [publishChain, wp_bind, wp_emit]
  refine (k.write _ _).wp (hdescribed _) (fun _ w h => ?_) exit
  refine (k.write _ _).wp h (fun _ w h => ?_) exit
  refine (k.observe _).wp h (fun _ w h => ?_) exit
  refine (k.observe _).wp h (fun _ w h => ?_) exit
  refine (k.descriptorOwnedCount _).wp h (fun _ w h => ?_) exit
  refine wp_ite (fun _ => ?_) (fun _ => ⟨rfl, h⟩)
  exact wp_mono_err (abortIdmacTransfer_spec context _ h.1.1 h.1.2)
    (fun _ _ => OutOfService.exit)

/-- Memory for a chain that nothing has been written to goes back at once. -/
theorem allocateChain_spec (command : Command) (bufLen dmaBusAddr descAddr : Nat) (h : Ready w) :
    wp (allocateChain command bufLen dmaBusAddr descAddr) w
      (fun c w' => c.cmd = command.build.1 ∧ Ready w') Exit := by
  simp only [allocateChain, wp_bind]
  refine allocChain_spec h.1.1 (fun w' hsafe hs hf hnext hfresh => ?_)
  have hready : Ready w' := ⟨⟨hsafe, hs.trans h.1.2⟩, hf.trans h.2⟩
  have hback : Ready (w'.emit (.deallocated w.nextChain)) :=
    ⟨⟨hsafe.emit_incidental rfl (fun hm => absurd hm (not_exists.mpr hfresh)), hready.1.2⟩,
      hready.2⟩
  refine wp_ite (fun _ => ?_) (fun _ => wp_ite (fun _ => ?_) (fun _ => ?_))
  · exact hback.exit
  · exact hback.exit
  · exact wp_mono_ok (publishChain_spec _ _ _ _ hready hnext) (fun c _ hc => ⟨by rw [hc.1], hc.2⟩)

/-- Before submission nothing is at stake: every exit is a plain error, and
the way on is open only for a driver in service. -/
theorem prepareIdmacTransfer_spec (command : Command) (busAddr : Nat) (h : Safe w)
    (hs : submitted w.log = false) : wp (prepareIdmacTransfer command busAddr) w
      (fun c w' => c.cmd.dataExpected = true ∧ Ready w') Exit := by
  have exit : ∀ (e : Stop) w', True → Ready w' → Exit e w' := fun _ _ _ h => h.exit
  have k : Watch Ready (fun _ => True) := ⟨ready_inert, trivial⟩
  simp only [prepareIdmacTransfer, wp_bind, wp_get]
  refine wp_failIf (fun _ => h.exit_unsubmitted hs) (fun hf => ?_)
  have hready : Ready w := ⟨⟨h, hs⟩, by simpa using hf⟩
  refine wp_failIf (fun _ => hready.exit) (fun hdata => ?_)
  cases command.build.2.2 with
  | none => exact hready.exit
  | some xfer =>
    simp only [wp_bind]
    refine (k.waitForTransferIdleShort (fun _ => trivial)).wp hready (fun _ w h => ?_) exit
    refine k.clearStaleStatus.wp h (fun _ w h => ?_) exit
    refine wp_failIf (fun _ => h.exit) (fun _ => ?_)
    refine wp_failIf (fun _ => h.exit) (fun _ => ?_)
    refine (k.observe _).wp h (fun alloc w h => ?_) exit
    cases alloc with
    | none => exact h.exit
    | some descAddr =>
      refine wp_mono_ok (allocateChain_spec command _ _ descAddr h) (fun c w' hc => ?_)
      exact ⟨by rw [hc.1]; simpa using hdata, hc.2⟩

/-- A driver whose chunk has been submitted. -/
def InFlight (w : World) : Prop := Safe w ∧ submitted w.log = true

theorem inFlight_inert : Inert Event.plain InFlight := safe_inert.and submitted_inert

theorem inFlight_watch {X : Stop → Prop} (hX : X .running) : Watch InFlight X :=
  ⟨inFlight_inert.quiet, hX⟩

/-- **Submission**: the driver is in service, so no fault is older than the
command; from here on every failure takes it out of service. -/
theorem startIdmacTransfer_spec (h : Ready w) : wp (startIdmacTransfer context) w
      (fun c w' => c.chain = context.chain ∧ InFlight w') Exit := by
  have exit : ∀ (e : Stop) w', OnlyRunning e → InFlight w' → Exit e w' :=
    fun _ _ hx h => hx.exit h.1
  have k := inFlight_watch onlyRunning_running
  have abort : ∀ (c : IdmacTransferContext) (e : SdMmcError) (w' : World), InFlight w' →
      wp (abortIdmacTransfer c e) w'
        (fun (c : IdmacTransferContext) w' => c.chain = context.chain ∧ InFlight w') Exit :=
    fun c e w' h => wp_mono_err (abortIdmacTransfer_spec c e h.1 h.2)
      (fun _ _ => OutOfService.exit)
  have hnofault : .faulted ∉ w.log := by
    intro hm
    have := h.1.1.flag.mpr hm
    rw [h.2] at this
    cases this
  -- the generation and the argument register do not show in the log's checks
  have hsent : InFlight ((({ w with generation := w.generation + 1 } : World).emit
      (.write .cmdarg context.arg)).emit (.command context.cmd)) := by
    refine ⟨⟨⟨fun _ hm => ?_, trivial, h.1.1.sound⟩, ?_, ?_⟩, rfl⟩
    · exact hnofault ((List.mem_cons.mp hm).resolve_left (fun he => nomatch he))
    · show w.idmacFaulted = true ↔ _
      rw [h.1.1.flag]
      simp [World.emit]
    · intro chain ds hm
      refine h.1.1.fresh chain ds ?_
      simpa [World.emit] using hm
  show wp (confirmStart _) _ _ _
  simp only [confirmStart, wp_bind]
  refine (k.observe _).wp hsent (fun _ w h => ?_) exit
  refine (k.pollUntil k.canSendCmd _).wp h (fun timedOut w h => ?_) exit
  refine wp_ite (fun _ => abort _ _ w h) (fun _ => ?_)
  simp only [wp_bind]
  refine k.resumeIfUnavailable.wp h (fun _ w h => ?_) exit
  refine (k.observe _).wp h (fun _ w h => ?_) exit
  refine wp_ite (fun _ => abort _ _ w h) (fun _ => ?_)
  exact wp_ite (fun _ => abort _ _ w h) (fun _ => ⟨rfl, h⟩)

/-- **Validation releases the chain it is about.** -/
theorem validateIdmacTerminal_spec (h : InFlight w) : wp (validateIdmacTerminal context) w
      (fun ok w' => InFlight w' ∧ (ok = true → released context.chain w'.log = true))
      (fun stop w' => OnlyRunning stop ∧ InFlight w') := by
  have k := inFlight_watch onlyRunning_running
  have failed : ∀ (e : Stop) w', OnlyRunning e → InFlight w' → OnlyRunning e ∧ InFlight w' :=
    fun _ _ he h => ⟨he, h⟩
  simp only [validateIdmacTerminal, descriptorOwned, wp_bind, wp_pure]
  refine (k.idmacCompletionStatus _).wp h (fun status w h => ?_) failed
  refine (k.idmacStatusHasError _ _).wp h (fun _ w h => ?_) failed
  refine (k.descriptorOwnedCount _).wp h (fun _ w h => ?_) failed
  refine (k.descriptorCardError _).wp h (fun _ w h => ?_) failed
  refine wp_ite (fun _ => ?_) (fun _ => ⟨h, by rintro ⟨⟩⟩)
  refine ⟨⟨h.1.emit_incidental rfl trivial, h.2⟩, fun _ => ?_⟩
  simp [World.emit, released]

/-- What a wait for the end of a transfer leaves behind when it does not
return: a dropped future has run its destructor. -/
def WaitExit : Stop → World → Prop
  | .failed _, w => InFlight w
  | .dropped, w => OutOfService true w
  | .running, w => Safe w

theorem OutOfService.inFlight (h : OutOfService true w) : InFlight w :=
  ⟨h.safe, h.submitted⟩

theorem OutOfService.waitExit (h : OutOfService true w) (stop : Stop) : WaitExit stop w := by
  cases stop with
  | failed _ => exact h.inFlight
  | dropped => exact h
  | running => exact h.safe

theorem wp_attempt {m : Prog α} {R : α → World → Prop} {F : Stop → World → Prop}
    {Q : Except SdMmcError α → World → Prop} (h : wp m w R F) (hok : ∀ a w', R a w' → Q (.ok a) w')
    (hfail : ∀ e w', F (.failed e) w' → Q (.error e) w')
    (hdrop : ∀ w', F .dropped w' → E .dropped w') (hrun : ∀ w', F .running w' → E .running w') :
    wp (attempt m) w Q E := by
  simp only [attempt, wp_tryCatch, wp_bind, wp_pure]
  refine wp_mono h hok (fun stop w' hf => ?_)
  cases stop with
  | failed e => exact hfail e w' hf
  | dropped => exact hdrop w' hf
  | running => exact hrun w' hf

theorem waitTransferSync_spec (h : InFlight w) :
    wp (waitTransferSync context) w (fun _ w' => InFlight w') WaitExit := by
  refine ((inFlight_watch notDropped_running).waitTransferSync notDropped_failed context).wp h
    (fun _ _ => id) (fun stop w' hx h => ?_)
  cases stop with
  | failed _ => exact h
  | dropped => exact absurd rfl hx
  | running => exact h.1

theorem dropActiveTransfer_spec (h : InFlight w) :
    wp (dropActiveTransfer context) w (fun _ w' => OutOfService true w')
      (fun _ w' => OutOfService true w') := by
  simp only [dropActiveTransfer, wp_bind, wp_pure]
  refine setFaulted_spec h.1 h.2 (fun w h => ?_)
  exact wp_attempt (finish_abort_spec context h) (fun _ _ => id) (fun _ _ => id)
    (fun _ => id) (fun _ => id)

/-- **Cancellation**: wherever the future is dropped, the destructor stops the
controller and faults the driver. -/
theorem waitAsync_spec (h : InFlight w) :
    wp (onDrop (waitTransferAsync context) (dropActiveTransfer context)) w
      (fun _ w' => InFlight w') WaitExit := by
  simp only [onDrop, wp_tryCatch]
  have k : Watch InFlight (fun _ => True) := inFlight_watch trivial
  refine (k.waitTransferAsync (fun _ => trivial) trivial context).wp h (fun _ _ => id)
    (fun stop w' _ h => ?_)
  cases stop with
  | failed _ => exact h
  | running => exact h.1
  | dropped =>
    simp only [wp_bind, wp_throw]
    exact wp_mono_err (dropActiveTransfer_spec context h)
      (fun stop _ h => OutOfService.waitExit h stop)

theorem sendCmdIdmacWith_spec {wait : IdmacTransferContext → Prog Unit}
    (hwait : ∀ context {w : World}, InFlight w →
      wp (wait context) w (fun _ w' => InFlight w') WaitExit) (command : Command) (busAddr : Nat)
    (h : Safe w) (hs : submitted w.log = false) :
    wp (sendCmdIdmacWith wait command busAddr) w (fun _ w' => InFlight w') Exit := by
  have fail : ∀ (c : IdmacTransferContext) (e : SdMmcError) (w' : World), InFlight w' →
      wp (failTransfer c e : Prog Response) w' (fun _ => InFlight) Exit :=
    -- `transfer.fault(); transfer.finish(true)?` does what aborting does
    fun c e w' h => wp_mono_err (abortIdmacTransfer_spec c e h.1 h.2)
      (fun _ _ => OutOfService.exit)
  simp only [sendCmdIdmacWith, wp_bind]
  refine wp_mono_ok (prepareIdmacTransfer_spec command busAddr h hs) (fun c w h => ?_)
  refine wp_mono_ok (startIdmacTransfer_spec c h.2) (fun c w h => ?_)
  refine wp_attempt (hwait c h.2) (fun _ w h => ?_) (fail c)
    (fun _ => OutOfService.exit) (fun _ => Safe.exit_running)
  simp only [wp_bind]
  refine wp_mono (validateIdmacTerminal_spec c h) (fun ok w h => ?_) (fun _ _ h => h.1.exit h.2.1)
  refine wp_ite (fun _ => fail c _ w h.1) (fun hok => ?_)
  have hreleased : released c.chain w.log = true := h.2 (by simpa using hok)
  have k : Watch _ NotDropped := ⟨inFlight_inert.quiet.and (released_inert c.chain), by rintro ⟨⟩⟩
  simp only [wp_bind]
  refine wp_attempt (k.validatedResponse notDropped_failed c w
    ⟨h.1, hreleased⟩) (fun _ w h => ?_) (fun e w h => fail c e w h.2.1)
    (fun _ h => absurd rfl h.1) (fun _ h => h.2.1.1.exit_running)
  simp only [wp_bind, wp_pure]
  exact wp_mono_err (finish_spec c h) (fun _ _ h => h.1.exit h.2)

/-! ## §5. Waiting for the card. -/

theorem submitPlain_keeps {X : Stop → Prop} (hP : Inert Event.plain P) (hX : X .running)
    (hF : ∀ e, X (.failed e)) {cmd : Cmd} (hcmd : cmd.dataExpected = false) (arg : BitVec 32)
    (deadline : Option Nat) : Keeps P X (submitPlain cmd arg deadline) := by
  have k : Watch P X := ⟨hP.quiet, hX⟩
  have hplain : Event.plain (.command cmd) = true := by
    rw [Event.plain, hcmd]
    rfl
  exact .bind (k.spinUntilSendable _) fun _ => .bind k.canSendCmd fun _ =>
    .bind (failIf_keeps (hF _)) fun _ => .bind (onlyIf_keeps k.spinUntilDataIdle) fun _ =>
      .bind k.clearRintsts fun _ => .bind (k.write _ _) fun _ =>
        .bind (emit_keeps hP hplain) fun _ => .bind (k.spinUntilSendable _) fun _ =>
          .bind k.canSendCmd fun _ =>
            onlyIf_keeps (.bind k.clearRintsts fun _ => .throw (hF _))

/-- A command without data touches nothing of the transfers. -/
theorem sendCmdWithDeadline_keeps {X : Stop → Prop} (hP : Inert Event.plain P) (hX : X .running)
    (hF : ∀ e, X (.failed e)) {command : Command} (hcmd : command.build.1.dataExpected = false)
    (deadline : Option Nat) : Keeps P X (sendCmdWithDeadline command deadline) := by
  have k : Watch P X := ⟨hP.quiet, hX⟩
  exact .bind (submitPlain_keeps hP hX hF hcmd _ _) fun _ =>
    .bind (onlyIf_keeps (k.commandPhase hF _)) fun _ =>
      .bind (k.checkCommandStatus hF) fun _ =>
        .bind (k.busyPhase _ _) fun _ => .bind (k.dataPhase _) fun _ =>
          k.collectResponse hF _ _

theorem failBusy_spec (h : InFlight w) {Q : α → World → Prop} :
    wp (failBusy error) w Q (fun _ w' => OutOfService true w') := by
  simp only [failBusy, wp_bind]
  exact setFaulted_spec h.1 h.2 (fun _ => id)

theorem waitCardReadyAfterWrite_spec (h : InFlight w) :
    wp waitCardReadyAfterWrite w (fun _ w' => InFlight w') Exit := by
  have k := inFlight_watch onlyRunning_running
  have running : ∀ (stop : Stop) w', OnlyRunning stop → InFlight w' → Exit stop w' :=
    fun _ _ hx h => hx.exit h.1
  simp only [waitCardReadyAfterWrite, wp_bind]
  refine (k.observe _).wp h (fun _ w h => ?_) running
  refine (k.pollUntil (k.observe _) _).wp h (fun _ w h => ?_) running
  refine wp_onlyIf (fun _ => ?_) (fun _ => h)
  exact wp_mono_err (failBusy_spec .cardBusyTimeout h) (fun _ _ => OutOfService.exit)

/-- How a pass of the asynchronous busy wait ends early: before the guard has
seen a dropped future, the driver is still in service. -/
def BusyExit : Stop → World → Prop
  | .failed _, w => OutOfService true w
  | .dropped, w => InFlight w
  | .running, w => Safe w

theorem OutOfService.busyExit (h : OutOfService true w) (stop : Stop) : BusyExit stop w := by
  cases stop with
  | failed _ => exact h
  | dropped => exact h.inFlight
  | running => exact h.safe

theorem pollCardReady_spec (rcaArg : BitVec 32) (deadline : Nat) (seen : Bool) (h : InFlight w) :
    wp (pollCardReady rcaArg deadline seen) w (fun _ w' => InFlight w') BusyExit := by
  have k := inFlight_watch onlyRunning_running
  have fail {α : Type} {Q : α → World → Prop} (e : SdMmcError) (w' : World) (h : InFlight w') :
      wp (failBusy e : Prog α) w' Q BusyExit :=
    wp_mono_err (failBusy_spec e h) (fun stop _ h => OutOfService.busyExit h stop)
  have running : ∀ (stop : Stop) w', OnlyRunning stop → InFlight w' → BusyExit stop w' := by
    intro stop w' hx h
    cases hx
    exact h.1
  have hexpired : Keeps InFlight OnlyRunning (busyExpired deadline seen) :=
    .ite (k.look fun _ => .pure _) (.pure _)
  simp only [pollCardReady, wp_bind]
  refine hexpired.wp h (fun _ w h => ?_) running
  refine wp_onlyIf (fun _ => fail _ w h) (fun _ => ?_)
  refine wp_attempt (sendCmdWithDeadline_keeps inFlight_inert notDropped_running
    notDropped_failed rfl _ w h) (fun response w h => ?_) (fun e w h => fail e w h.2)
    (fun _ h => absurd rfl h.1) (fun _ h => h.2.1)
  simp only [wp_bind]
  refine (k.observe _).wp h (fun _ w h => ?_) running
  refine wp_ite (fun _ => h) (fun _ => ?_)
  simp only [wp_bind, wp_pure]
  refine (k.observe _).wp h (fun _ w h => ?_) running
  have ka : Watch InFlight (fun stop => ∀ e, stop ≠ .failed e) := inFlight_watch (by rintro _ ⟨⟩)
  refine (onlyIf_keeps (ka.await (by rintro _ ⟨⟩))).wp h (fun _ _ => id) (fun stop w' hx h => ?_)
  cases stop with
  | failed e => exact absurd rfl (hx e)
  | dropped => exact h
  | running => exact h.1

/-- The guard turns a dropped future into a faulted driver. -/
theorem waitCardReadyAfterWriteAsync_spec (h : InFlight w) :
    wp waitCardReadyAfterWriteAsync w (fun _ w' => InFlight w') Exit := by
  simp only [waitCardReadyAfterWriteAsync, onDrop, wp_bind, wp_get, wp_tryCatch]
  refine ((inFlight_watch onlyRunning_running).observe _).wp h (fun _ w h => ?_)
    (fun _ _ hx h => hx.exit h.1)
  have hloop : ∀ rcaArg deadline, wp (loop (pollCardReady rcaArg deadline) false) w
      (fun _ => InFlight) BusyExit := by
    intro rcaArg deadline
    refine wp_loop (fun _ => InFlight) (fun _ _ h => h.1) (fun seen w h => ?_) h
    refine wp_mono_ok (pollCardReady_spec _ _ seen h) (fun r w' h => ?_)
    cases r with
    | inl _ => exact h
    | inr _ => exact h
  refine wp_mono_err (hloop _ _) (fun stop w' h => ?_)
  cases stop with
  | failed _ => exact OutOfService.exit h
  | running => exact Safe.exit_running h
  | dropped =>
    simp only [wp_bind, wp_throw]
    exact setFaulted_spec h.1 h.2 (fun _ h => h.exit)

/-! ## §6. Chunks and calls. -/

theorem Safe.chunk (h : Safe w) (block : Nat) :
    Safe (w.emit (.chunk block)) ∧ submitted (w.emit (.chunk block)).log = false :=
  ⟨h.emit_incidental rfl trivial, rfl⟩

/-- The address of the DMA buffer, or an error that changes nothing. -/
theorem dmaBufInfo_spec {Q : Nat → World → Prop} (hQ : ∀ a, Q a w) (hE : ∀ e, E (.failed e) w) :
    wp dmaBufInfo w Q E := by
  simp only [dmaBufInfo, wp_bind, wp_get]
  cases w.dmaBuffer with
  | none => exact hE _
  | some a => exact hQ a

theorem dmaBusAddr_spec {a : Nat} {Q : Nat → World → Prop} (hQ : Q a w)
    (hE : ∀ e, E (.failed e) w) : wp (dmaBusAddr a) w Q E :=
  wp_ite (fun _ => hE _) (fun _ => hQ)

/-- A way of sending a data command that is fail-stop. -/
def Sends (send : Command → Nat → Prog Response) : Prop :=
  ∀ command busAddr (w : World), Safe w → submitted w.log = false →
    wp (send command busAddr) w (fun _ w' => InFlight w') Exit

theorem sendCmdIdmac_sends : Sends sendCmdIdmac :=
  fun command busAddr _ h hs =>
    sendCmdIdmacWith_spec (fun context _ => waitTransferSync_spec context) command busAddr
      h hs

theorem sendCmdIdmacAsync_sends : Sends sendCmdIdmacAsync :=
  fun command busAddr _ h hs =>
    sendCmdIdmacWith_spec (fun context _ => waitAsync_spec context) command busAddr h hs

theorem setTransactionSize_spec (n : Nat) (h : Safe w ∧ submitted w.log = false)
    (hQ : ∀ w', Safe w' → submitted w'.log = false → Q () w') :
    wp (setTransactionSize n) w Q Exit := by
  have k : Watch _ OnlyRunning := ⟨safe_inert.quiet.and (unsubmitted_inert false), rfl⟩
  exact (k.setTransactionSize n).wp h (fun _ w' h => hQ w' h.1 h.2)
    (fun _ _ _ h => h.1.exit_unsubmitted h.2)

theorem readDmaChunkWith_spec {send : Command → Nat → Prog Response} (hsend : Sends send)
    (block len : Nat) (h : Safe w) :
    wp (readDmaChunkWith send block len) w (fun _ w' => Safe w') Exit := by
  simp only [readDmaChunkWith, wp_bind, wp_emit, wp_pure]
  refine setTransactionSize_spec len (h.chunk block) (fun w h hs => ?_)
  refine dmaBufInfo_spec (fun a => ?_) (fun _ => h.exit_unsubmitted hs)
  refine dmaBusAddr_spec ?_ (fun _ => h.exit_unsubmitted hs)
  refine wp_mono_ok (hsend _ a w h hs) (fun _ w h => ?_)
  exact ((inFlight_watch onlyRunning_running).observe _).wp h (fun _ w h => h.1)
    (fun _ _ hx h => hx.exit h.1)

theorem writeDmaChunk_spec (block : Nat) (buf : Bytes) (h : Safe w) :
    wp (writeDmaChunk block buf) w (fun _ w' => Safe w') Exit := by
  simp only [writeDmaChunk, wp_bind, wp_emit]
  refine setTransactionSize_spec buf.length (h.chunk block) (fun w h hs => ?_)
  refine dmaBufInfo_spec (fun a => ?_) (fun _ => h.exit_unsubmitted hs)
  refine dmaBusAddr_spec ?_ (fun _ => h.exit_unsubmitted hs)
  have hstaged : Safe (w.emit (.staged buf)) := safe_inert.emit w _ rfl h
  refine wp_mono_ok (sendCmdIdmac_sends _ a _ hstaged hs) (fun _ w h => ?_)
  exact wp_mono_ok (waitCardReadyAfterWrite_spec h) (fun _ _ h => h.1)

theorem writeDmaChunkAsync_spec (block : Nat) (buf : Bytes) (h : Safe w) :
    wp (writeDmaChunkAsync block buf) w (fun _ w' => Safe w') Exit := by
  simp only [writeDmaChunkAsync, wp_bind, wp_emit]
  refine setTransactionSize_spec buf.length (h.chunk block) (fun w h hs => ?_)
  refine dmaBufInfo_spec (fun a => ?_) (fun _ => h.exit_unsubmitted hs)
  have hstaged : Safe (w.emit (.staged buf)) := safe_inert.emit w _ rfl h
  refine dmaBusAddr_spec ?_ (fun _ => hstaged.exit_unsubmitted hs)
  refine wp_mono_ok (sendCmdIdmacAsync_sends _ a _ hstaged hs) (fun _ w h => ?_)
  exact wp_mono_ok (waitCardReadyAfterWriteAsync_spec h) (fun _ _ h => h.1)

/-- The blocks from `block` on are on the card: the numbers do not overflow. -/
def InRange (block len : Nat) : Prop := len % 512 = 0 ∧ block + len / 512 ≤ 2 ^ 32

theorem validateBlockBuffer_spec (block len : Nat) (hE : ∀ e, E (.failed e) w)
    (hQ : InRange block len → Q () w) : wp (validateBlockBuffer block len) w Q E := by
  simp only [validateBlockBuffer, wp_bind, wp_get]
  refine wp_failIf (fun _ => hE _) (fun hlen => ?_)
  refine wp_failIf (fun _ => hE _) (fun _ => ?_)
  refine wp_failIf (fun _ => hE _) (fun hstop => hQ ?_)
  simp only [blockSize, not_or, Nat.not_lt, not_not] at hlen hstop
  exact ⟨hlen.2, hstop.2⟩

/-- `checked_add` succeeds: what is left begins on the card. -/
theorem nextBlock_spec {block rest c : Nat} (hrange : InRange block rest) (hc : c ≤ rest / 512)
    {Q : Nat → World → Prop} (hQ : ∀ b, InRange b (rest - c * blockSize) → Q b w) :
    wp (nextBlock block c (rest - c * blockSize)) w Q E := by
  obtain ⟨hmod, hle⟩ := hrange
  refine wp_ite (fun hz => hQ block ⟨?_, ?_⟩) (fun hz => wp_ite (fun hbig => ?_) (fun _ => ?_))
  · rw [hz]
  · omega
  · exfalso
    simp only [blockSize] at hz
    omega
  · refine hQ (block + c) ⟨?_, ?_⟩
    · simp only [blockSize]
      omega
    · simp only [blockSize]
      omega

theorem readChunkBlocks_le {r : Nat} (h : r ≠ 0) : readChunkBlocks r ≤ r := by
  unfold readChunkBlocks
  split
  · exact Nat.min_le_left _ _
  · omega

theorem readBlocksWith_spec {chunk : Nat → Nat → Prog Bytes}
    (hchunk : ∀ block len (w : World), Safe w →
      wp (chunk block len) w (fun _ w' => Safe w') Exit) (block len : Nat) (h : Safe w)
    (hs : submitted w.log = false) :
    wp (readBlocksWith chunk block len) w (fun _ w' => Safe w') Exit := by
  simp only [readBlocksWith, wp_bind]
  refine validateBlockBuffer_spec block len (fun _ => h.exit_unsubmitted hs) (fun hrange => ?_)
  refine wp_loop (fun b w => Safe w ∧ InRange b.1 b.2.1) (fun _ _ h => h.1.exit_running)
    (fun b w h => ?_) ⟨h, hrange⟩
  obtain ⟨block, rest, read⟩ := b
  refine wp_ite (fun _ => h.1) (fun hrest => ?_)
  simp only [wp_bind]
  refine wp_mono_ok (hchunk _ _ w h.1) (fun bytes w' h' => ?_)
  have hblocks : rest / 512 ≠ 0 := by
    have := h.2.1
    simp only at this
    omega
  exact nextBlock_spec h.2 (readChunkBlocks_le hblocks) (fun b hb => ⟨h', hb⟩)

theorem writeBlocksWith_spec {chunk : Nat → Bytes → Prog Unit}
    (hchunk : ∀ block buf (w : World), Safe w →
      wp (chunk block buf) w (fun _ w' => Safe w') Exit) (block : Nat) (buf : Bytes)
    (h : Safe w) (hs : submitted w.log = false) :
    wp (writeBlocksWith chunk block buf) w (fun _ w' => Safe w') Exit := by
  simp only [writeBlocksWith, wp_bind]
  refine validateBlockBuffer_spec block buf.length (fun _ => h.exit_unsubmitted hs)
    (fun hrange => ?_)
  refine wp_loop (fun b w => Safe w ∧ InRange b.1 b.2.length) (fun _ _ h => h.1.exit_running)
    (fun b w h => ?_) ⟨h, hrange⟩
  refine wp_ite (fun _ => h.1) (fun _ => ?_)
  simp only [wp_bind]
  refine wp_mono_ok (hchunk _ _ w h.1) (fun _ w' h' => ?_)
  rw [List.length_drop]
  refine nextBlock_spec h.2 (Nat.min_le_left _ _) (fun b hb => ⟨h', ?_⟩)
  rw [List.length_drop]
  exact hb

theorem Call.run_spec (call : Call) (h : Safe w) (hs : submitted w.log = false) :
    wp call.run w (fun _ w' => Safe w') Exit := by
  cases call with
  | readBlocks block len =>
    simp only [Call.run, wp_bind, wp_pure]
    exact readBlocksWith_spec
      (fun block len _ => readDmaChunkWith_spec sendCmdIdmac_sends block len) block len h hs
  | readBlocksAsync block len =>
    simp only [Call.run, wp_bind, wp_pure]
    exact readBlocksWith_spec
      (fun block len _ => readDmaChunkWith_spec sendCmdIdmacAsync_sends block len)
      block len h hs
  | writeBlocks block buf =>
    exact writeBlocksWith_spec (fun block buf _ => writeDmaChunk_spec block buf) block buf h hs
  | writeBlocksAsync block buf =>
    exact writeBlocksWith_spec (fun block buf _ => writeDmaChunkAsync_spec block buf) block buf h hs

/-! ## §7. Runs. -/

/-- What holds after every call of a run. -/
def FailStop (w : World) : Prop := Safe w ∧ ∀ stop, w.stopped = some stop → Exit stop w

theorem start_failStop (numBlocks : Nat) (rca : BitVec 16) (dmaBuffer : Option Nat)
    (faulted resetFailed : Bool) (generation : BitVec 64) :
    FailStop (World.start numBlocks rca dmaBuffer faulted resetFailed generation) := by
  refine ⟨?_, nofun⟩
  cases faulted with
  | false => exact ⟨trivial, by simp [World.start], nofun⟩
  | true =>
    refine ⟨⟨trivial, trivial⟩, by simp [World.start], fun _ _ hm => ?_⟩
    simp [World.start] at hm

theorem FailStop.step {w' : World} {next : Call × List Moment} (h : FailStop w)
    (hs : step w next = some w') : FailStop w' := by
  have hcall : Safe (w.emit .call) := h.1.emit_incidental rfl trivial
  have hspec := next.1.run_spec (safe_inert.tape (w.emit .call) next.2 hcall) rfl
  unfold Sdmmc.step at hs
  split at hs
  · cases hs
  split at hs
  next w₁ he =>
    cases hs
    have hsafe := wp_of_run he hspec
    exact ⟨⟨hsafe.sound, hsafe.flag, hsafe.fresh⟩, nofun⟩
  next stop w₁ he =>
    cases hs
    have hexit := wp_of_error he hspec
    have hsafe : Safe { w₁ with stopped := some stop } :=
      ⟨hexit.1.sound, hexit.1.flag, hexit.1.fresh⟩
    refine ⟨hsafe, fun stop' h => ?_⟩
    cases h
    exact ⟨hsafe, hexit.2⟩

/-- **Fail-stop over whole runs.**  From any driver, after any calls and with
any hardware: a described chain is freed only once it is released; a call
that failed or was dropped after a command was written for its last chunk
has left `idmac_faulted` set; no data command is younger than a fault; and
the flag is the mark in the log, so it is never cleared. -/
theorem transfers_are_fail_stop (numBlocks : Nat) (rca : BitVec 16) (dmaBuffer : Option Nat)
    (faulted resetFailed : Bool) (generation : BitVec 64) {w : World} (hr : Reach step Always
      (World.start numBlocks rca dmaBuffer faulted resetFailed generation) w) :
    (∀ newer older chain ds, w.log = newer ++ .deallocated chain :: older →
        .described chain ds ∈ older → released chain older = true) ∧
      (∀ stop, w.stopped = some stop → stop ≠ .running → submitted w.log = true →
        w.idmacFaulted = true) ∧
      (∀ newer older cmd, w.log = newer ++ .command cmd :: older →
        cmd.dataExpected = true → .faulted ∉ older) ∧
      (w.idmacFaulted = true ↔ .faulted ∈ w.log) := by
  have h : FailStop w := hr.invariant FailStop
    (start_failStop numBlocks rca dmaBuffer faulted resetFailed generation)
    (fun _ _ _ h _ => h.step)
  refine ⟨fun newer older chain ds hlog hd => ?_, fun stop hstop => (h.2 stop hstop).2,
    fun newer older cmd hlog => ?_, h.1.flag⟩
  · have hj : Justified older (.deallocated chain) := Sound.justified (hlog ▸ h.1.sound)
    exact hj ⟨ds, hd⟩
  · have hj : Justified older (.command cmd) := Sound.justified (hlog ▸ h.1.sound)
    exact hj

/-- A controller at rest; a published descriptor is still owned by it. -/
def Moment.still : Moment :=
  { startCmd := false, status := ⟨false, false, 0⟩, rintsts := ⟨0⟩, idsts := ⟨0⟩, bmod := ⟨0⟩,
    ctrl := ⟨0⟩, blksiz := 512, bytcnt := 512, dbaddr := 0x1000, resp := fun _ => 0, fifo := [],
    now := 0, own := true, ces := false, alloc := some 0x1000, snapshot := none,
    errorFlag := false, dma := fun _ => 0, dropped := false }

/-- A read of one block has ended. -/
def Moment.done : Moment :=
  { Moment.still with rintsts := ⟨0xc⟩, idsts := ⟨0x102⟩, own := false }

/-- A read whose future is dropped while the controller is silent. -/
theorem dropped_read_ends_the_service :
    ∃ w, Reach step Always (World.start 8 1 (some 0x2000) false false 0) w ∧
      w.stopped = some .dropped ∧ submitted w.log = true ∧ w.idmacFaulted = true := by
  obtain ⟨w, hr, hc⟩ := exists_reach step (World.start 8 1 (some 0x2000) false false 0)
    [(.readBlocksAsync 0 512, List.replicate 40 { Moment.still with dropped := true })]
    (fun w => w.stopped = some .dropped ∧ submitted w.log) (by decide +kernel)
  exact ⟨w, hr, hc.1, hc.2, (transfers_are_fail_stop 8 1 (some 0x2000) false false 0 hr).2.1
    .dropped hc.1 nofun hc.2⟩

/-- **What does not hold.**  Memory allocated for a chain goes back without
validation or reset when the controller cannot address it; and a read of two
chunks, whose first has been transferred, fails before the second is
submitted and leaves the driver in service. -/
theorem fail_stop_starts_at_submission :
    (∃ w older chain, Reach step Always (World.start 8 1 (some 0x2000) false false 0) w ∧
        w.log = .deallocated chain :: older ∧ .validated chain ∉ older ∧ .reset ∉ older) ∧
      ∃ w cmd error, Reach step Always (World.start 8 1 (some 0x2000) false false 0) w ∧
        .command cmd ∈ w.log ∧ cmd.dataExpected = true ∧ w.stopped = some (.failed error) ∧
        w.idmacFaulted = false := by
  refine ⟨?_, ?_⟩
  · obtain ⟨w, hr, hhead, hrest⟩ := exists_reach step
      (World.start 8 1 (some 0x2000) false false 0)
      [(.readBlocks 0 512, List.replicate 8 { Moment.still with alloc := some (2 ^ 32) })]
      (fun w => w.log.head? = some (.deallocated 0) ∧ .validated 0 ∉ w.log.tail ∧
        .reset ∉ w.log.tail) (by decide +kernel)
    obtain ⟨older, hlog⟩ := List.head?_eq_some_iff.mp hhead
    rw [hlog] at hrest
    exact ⟨w, older, 0, hr, hlog, hrest⟩
  · obtain ⟨w, hr, hcmd, hstop, hflag⟩ := exists_reach step
      (World.start 8 1 (some 0x2000) false false 0)
      [(.readBlocks 0 1024, List.replicate 14 Moment.still ++ List.replicate 29 Moment.done ++
        List.replicate 3 { Moment.still with startCmd := true, now := 1000000 })]
      (fun w => .command (Command.readSingleBlock 0 512).build.1 ∈ w.log ∧
        w.stopped = some (.failed .commandBusy) ∧ w.idmacFaulted = false) (by decide +kernel)
    exact ⟨w, _, _, hr, hcmd, rfl, hstop, hflag⟩

end StarryOS.Sdmmc
