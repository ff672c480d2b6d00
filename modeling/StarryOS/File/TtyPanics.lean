/-
  StarryOS.File.TtyPanics — TERMINAL REQUESTS THAT PANIC
  (`kernel/src/pseudofs/dev/tty/mod.rs`, `job.rs` and the `read` of `ldisc.rs` in
  its `terminal`).

      TIOCSCTTY   assert!(set_terminal_with): the session has no terminal
                  assert! of set_session: the terminal has no living session
                  unwrap() of set_foreground: cannot fail, the session is set
      read        todo!() if VTIME is set and ICANON is not

  Nothing checks the first two conditions and the last one, and all of them
  depend on what was called before (`tty_request_returns_iff`, `run_returns_iff`).
-/
import StarryOS.Errno
import StarryOS.Lib.Transition

namespace StarryOS.File.Tty

open Lib Function

/-! ## §1. Terminals. -/

structure Session where
  /-- Two sessions of one leader are two objects. -/
  id : Nat
  sid : Nat
  deriving DecidableEq

structure ProcessGroup where
  id : Nat
  session : Session
  deriving DecidableEq

structure Process where
  pid : Nat
  group : ProcessGroup

structure Termios where
  cLflag : BitVec 32
  cCc : Fin 19 → UInt8

/-- `ICANON` is set. -/
def Termios.canonical (term : Termios) : Bool := term.cLflag &&& 2 ≠ 0

def Termios.vtime (term : Termios) : UInt8 := term.cCc 5

def Termios.vmin (term : Termios) : UInt8 := term.cCc 6

/-- A `Terminal` and its `JobControl`. -/
structure Terminal where
  termios : Termios
  /-- The weak pointers of `job_control`. -/
  foreground : Option ProcessGroup
  session : Option Session

/-- The two ends of a pty share a terminal; `isPtm` also says that input is not processed. -/
structure Device where
  terminal : Nat
  isPtm : Bool

/-- All that an ioctl looks at. -/
structure World where
  /-- The processes that there are; they keep their groups and sessions alive. -/
  procs : List Process
  /-- The `terminal` of a session. -/
  controlling : Session → Option Nat
  devices : Nat → Device
  terminals : Nat → Terminal

namespace World

variable (w : World) (d : Nat)

def term : Terminal := w.terminals (w.devices d).terminal

def setTerm (term : Terminal) : World :=
  { w with terminals := update w.terminals (w.devices d).terminal term }

theorem term_setTerm (term : Terminal) : (w.setTerm d term).term d = term :=
  update_self ..

/-- `Weak::upgrade` of the session. -/
def session : Option Session :=
  (w.term d).session.filter (fun s => w.procs.any (·.group.session = s))

/-- `JobControl::foreground`. -/
def foreground : Option ProcessGroup :=
  (w.term d).foreground.filter (fun pg => w.procs.any (·.group = pg))

/-- `JobControl::set_session`; `none` is a panic. -/
def setSession (s : Session) : Option World :=
  if (w.session d).isSome then none else some (w.setTerm d { w.term d with session := some s })

/-- `JobControl::set_foreground`. -/
def setForeground (pg : ProcessGroup) : AxResult World :=
  if (w.term d).foreground = some pg then .ok w
  else
    match w.session d with
    | none => .error .operationNotPermitted
    | some s =>
      if pg.session ≠ s then .error .operationNotPermitted
      else .ok (w.setTerm d { w.term d with foreground := some pg })

/-- `Tty::bind_to`. -/
def bindTo (p : Process) : Option (AxResult World) :=
  if p.group.session.sid ≠ p.pid then some (.error .operationNotPermitted)
  -- `set_terminal_with` returns false
  else if (w.controlling p.group.session).isSome then none
  else do
    let w ← w.setSession d p.group.session
    let w := { w with controlling := update w.controlling p.group.session (some d) }
    -- `unwrap()`
    let w ← (w.setForeground d p.group).toOption
    return .ok w

/-- `current_in_foreground`. -/
def inForeground (p : Process) : Bool := (w.foreground d).all (p.group = ·)

/-- `LineDiscipline::read` into `len` bytes, with what the ring has and what the wait comes to. -/
def ldiscRead (len popped : Nat) (waited : AxResult Nat) : Option (AxResult Nat) :=
  let term := (w.term d).termios
  if len = 0 then some (.ok 0)
  else if (w.devices d).isPtm then
    some (if popped = 0 then .error .wouldBlock else .ok popped)
  else if term.canonical then some waited
  else if 0 < term.vtime then none
  else if len < term.vmin.toNat then some (.error .wouldBlock)
  else some waited

end World

/-- The ioctls of `Tty`. -/
inductive Request where
  /-- `TCGETS`, `TCGETS2`, `TIOCGWINSZ`, `TIOCSWINSZ`, `TIOCGPTN`: user memory is copied. -/
  | copy (user : AxResult Unit)
  /-- `TCSETS` and the like. -/
  | setTermios (user : AxResult Termios)
  | getPgrp (user : AxResult Unit)
  | setPgrp
  | lockPt
  | setCtty
  | noTty
  | unknown
  /-- An attempt of `read_at`; after `WouldBlock` there is another one. -/
  | read (len popped : Nat) (waited : AxResult Nat)

/-- What `ioctl` and `read_at` of a device return to process `p`, and the world then. -/
def World.request (w : World) (d : Nat) (p : Process) :
    Request → Option (AxResult Nat × World)
  | .copy user => some (user.map (fun _ => 0), w)
  | .setTermios (.error e) => some (.error e, w)
  | .setTermios (.ok termios) => some (.ok 0, w.setTerm d { w.term d with termios := termios })
  | .getPgrp user =>
    some (if (w.foreground d).isNone then .error .noSuchProcess else user.map (fun _ => 0), w)
  | .setPgrp =>
    match w.setForeground d p.group with
    | .error e => some (.error e, w)
    | .ok w' => some (.ok 0, w')
  | .lockPt => some (.ok 0, w)
  | .setCtty => (w.bindTo d p).map fun
    | .error e => (.error e, w)
    | .ok w' => (.ok 0, w')
  | .noTty =>
    -- `unset_terminal`
    if w.controlling p.group.session = some d then
      some (.ok 0, { w with controlling := update w.controlling p.group.session none })
    else some (.ok 0, w)
  | .unknown => some (.error .notATty, w)
  | .read len popped waited =>
    if (w.devices d).isPtm || w.inForeground d p then
      (w.ldiscRead d len popped waited).map (fun r => (r, w))
    else some (.error .wouldBlock, w)

/-! ## §2. Which requests return. -/

/-- The request meets none of the three panics. -/
def World.Heeds (w : World) (d : Nat) (p : Process) : Request → Prop
  | .setCtty => p.group.session.sid = p.pid →
      w.controlling p.group.session = none ∧ w.session d = none
  | .read len _ _ => len ≠ 0 → (w.devices d).isPtm = false → w.inForeground d p = true →
      (w.term d).termios.canonical = false → (w.term d).termios.vtime = 0
  | _ => True

variable {w : World} {d : Nat} {p : Process}

/-- The session that was just set is alive, since the caller is in it. -/
theorem setForeground_after (hp : p ∈ w.procs) (hs : (w.term d).session = some p.group.session) :
    ∃ w', w.setForeground d p.group = .ok w' := by
  have hsession : w.session d = some p.group.session := by
    unfold World.session
    rw [hs, Option.filter_some, if_pos]
    exact List.any_eq_true.mpr ⟨p, hp, decide_eq_true rfl⟩
  unfold World.setForeground
  split
  · exact ⟨_, rfl⟩
  · rw [hsession]
    exact ⟨_, if_neg (not_not.mpr rfl)⟩

theorem bindTo_isSome_iff (hp : p ∈ w.procs) :
    (w.bindTo d p).isSome = true ↔ w.Heeds d p .setCtty := by
  unfold World.bindTo World.Heeds World.setSession
  by_cases hleader : p.group.session.sid = p.pid
  · cases hown : w.controlling p.group.session with
    | some d' => simp [hleader]
    | none =>
      cases hbound : w.session d with
      | some s => simp [hleader]
      | none =>
        obtain ⟨w', hw'⟩ := setForeground_after (d := d) (p := p)
          (w := { w.setTerm d { w.term d with
          session := some p.group.session } with
            controlling := update w.controlling p.group.session (some d) }) hp
          (congrArg Terminal.session (w.term_setTerm d _))
        simp only [World.setTerm] at hw'
        simp [World.setTerm, hleader, hw', Except.toOption]
  · simp [hleader]

theorem request_isSome_iff (hp : p ∈ w.procs) (r : Request) :
    (w.request d p r).isSome = true ↔ w.Heeds d p r := by
  cases r with
  | setCtty =>
    show ((w.bindTo d p).map _).isSome = true ↔ _
    rw [Option.isSome_map]
    exact bindTo_isSome_iff hp
  | read len popped waited =>
    simp only [World.request, World.ldiscRead, World.Heeds]
    grind
  | copy user | getPgrp user | lockPt | unknown => exact ⟨fun _ => trivial, fun _ => rfl⟩
  | setTermios user => cases user <;> exact ⟨fun _ => trivial, fun _ => rfl⟩
  | setPgrp | noTty =>
    simp only [World.request, World.Heeds, iff_true]
    split <;> rfl

/-- A request in a run, with the processes that there are when it is made. -/
structure Event where
  procs : List Process
  device : Nat
  caller : Process
  request : Request

def Event.world (e : Event) (w : World) : World := { w with procs := e.procs }

def World.step (w : World) (e : Event) : Option World :=
  ((e.world w).request e.device e.caller e.request).map Prod.snd

/-- **A run of requests returns if and only if** every one of them heeds the conditions in the state
that it finds. -/
theorem run_returns_iff (es : List Event) (hes : ∀ e ∈ es, e.caller ∈ e.procs) (w : World) :
    (runs World.step w es).isSome = true
      ↔ RunsOk World.step (fun w e => (e.world w).Heeds e.device e.caller e.request) w es := by
  refine runs_isSome_iff es ?_ w
  intro e he w
  unfold World.step
  rw [Option.isSome_map]
  exact request_isSome_iff (hes e he) e.request

/-- A process that leads a session of its own. -/
def leader (pid : Nat) : Process := ⟨pid, ⟨pid, ⟨pid, pid⟩⟩⟩

/-- A console that is bound to nobody, with `ICANON`. -/
def unbound : World where
  procs := [leader 1, leader 2]
  controlling := fun _ => none
  devices := fun _ => ⟨0, false⟩
  terminals := fun _ => ⟨⟨2, fun _ => 0⟩, none, none⟩

end StarryOS.File.Tty
