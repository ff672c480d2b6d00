/-
  StarryOS.Fs.Chroot — PATH RESOLUTION AND `chroot` (`FsContext` of
  `modules/axfs-ng/src/highlevel/fs.rs`, `sys_chdir`, `sys_fchdir` and
  `sys_chroot` of `kernel/src/syscall/fs/ctl.rs`).

  A context is a root and a current directory.  A path is walked component by
  component; a symbolic link is walked in turn, from the directory it stands in,
  up to 40 links in all.  `..` goes to `Location::parent`, and only where there
  is none, at the root of all file systems, to the root of the context.

  A walk that never does this stays below the root, whatever the links
  (`chroot_confines`).  The walk keeps one thing that is not in the code:
  whether it has `climbed`.  The tree of locations stands still; parsing paths
  is up to their crate.
-/
import StarryOS.Errno
import StarryOS.Lib.Program
import StarryOS.Lib.Transition
import Mathlib.Logic.Relation

namespace StarryOS.Fs.Chroot

open Lib

/-! ## §1. Locations. -/

/-- A component of a path. -/
inductive Component where
  | rootDir
  | curDir
  | parentDir
  | normal (name : String)
  deriving Repr, DecidableEq

inductive NodeType where
  | directory
  | symlink
  | other
  deriving Repr, DecidableEq

/-- Locations of all file systems, with what a walk asks them. -/
structure Tree (L : Type) where
  nodeType : L → NodeType
  name : L → String
  /-- `None` at the root of all file systems. -/
  parent : L → Option L
  lookupNoFollow : L → String → AxResult L
  readLink : L → AxResult (List Component)
  /-- What is found in a directory has it as its parent. -/
  child : ∀ d n l, lookupNoFollow d n = .ok l → parent l = some d

/-- `l` is `r` or a descendant of `r`. -/
def Tree.Within {L : Type} (t : Tree L) (r l : L) : Prop :=
  Relation.ReflTransGen (fun a b => t.parent b = some a) r l

variable {L : Type} {t : Tree L}

section Locations

variable {r l d : L}

theorem within_refl : t.Within r r := .refl

theorem within_child (h : t.Within r d) (hl : t.parent l = some d) : t.Within r l := h.tail hl

theorem within_cases (h : t.Within r l) : l = r ∨ ∃ d, t.parent l = some d ∧ t.Within r d := by
  cases h with
  | refl => exact .inl rfl
  | tail hd hl => exact .inr ⟨_, hl, hd⟩

theorem within_trans {s : L} (h : t.Within r s) (h' : t.Within s l) : t.Within r l := h.trans h'

end Locations

/-! ## §2. The walk. -/

/-- Root and working directory. -/
structure FsContext (L : Type) where
  rootDir : L
  currentDir : L

/-- `FsContext::new`. -/
def FsContext.new {L : Type} (rootDir : L) : FsContext L := ⟨rootDir, rootDir⟩

/-- Maximum number of symlinks that will be followed during path resolution. -/
def SYMLINKS_MAX : Nat := 40

/-- How far a resolution has come. -/
structure Walk (L : Type) where
  loc : L
  followCount : Nat
  /-- It has left the root of the context upwards. -/
  climbed : Bool
  deriving Repr, DecidableEq

section Resolution

variable (t : Tree L)

/-- `check_is_dir`. -/
def checkIsDir (l : L) : AxResult Unit :=
  if t.nodeType l = .directory then .ok () else .error .notADirectory

/-- `set_current_dir` and `with_current_dir`. -/
def FsContext.withCurrentDir (ctx : FsContext L) (dir : L) : AxResult (FsContext L) := do
  checkIsDir t dir
  return { ctx with currentDir := dir }

/-- How a list of components is resolved from the current directory. -/
abbrev Resolver (L : Type) := FsContext L → List Component → Walk L → AxResult (Walk L)

/-- `try_resolve_symlink`. -/
def tryResolveSymlink (resolver : Resolver L) (ctx : FsContext L) (w : Walk L) :
    AxResult (Walk L) := do
  if t.nodeType w.loc ≠ .symlink then return w
  else if SYMLINKS_MAX ≤ w.followCount then throw .filesystemLoop
  else do
    let target ← t.readLink w.loc
    if target = [] then throw .notFound
    else resolver ctx target { w with followCount := w.followCount + 1 }

/-- `lookup`, in the directory that the walk has reached. -/
def lookup (resolver : Resolver L) (ctx : FsContext L) (name : String) (w : Walk L) :
    AxResult (Walk L) := do
  let loc ← t.lookupNoFollow w.loc name
  let inDir ← ctx.withCurrentDir t w.loc
  tryResolveSymlink t resolver inDir { w with loc := loc }

variable [DecidableEq L]

/-- `..`: the parent directory, or the root of the context. -/
def goUp (ctx : FsContext L) (w : Walk L) : Walk L :=
  { w with
    loc := (t.parent w.loc).getD ctx.rootDir
    climbed := w.climbed || (w.loc = ctx.rootDir && (t.parent w.loc).isSome) }

/-- The loop of `resolve_components`. -/
def walkFrom (resolver : Resolver L) (ctx : FsContext L) :
    List Component → Walk L → AxResult (Walk L)
  | [], w => .ok w
  | .curDir :: rest, w => walkFrom resolver ctx rest w
  | .parentDir :: rest, w => walkFrom resolver ctx rest (goUp t ctx w)
  -- a link may be absolute as well: it starts again at the root of the context
  | .rootDir :: rest, w => walkFrom resolver ctx rest { w with loc := ctx.rootDir }
  | .normal name :: rest, w =>
    match lookup t resolver ctx name w with
    | .error e => .error e
    | .ok w' => walkFrom resolver ctx rest w'

/-- `resolve_components`, when no more than `fuel` links stand one within the other.
There are never more than 40 (`resolveComponents_congr`). -/
def resolveComponents : Nat → Resolver L
  | 0, ctx, comps, w => walkFrom t (fun _ _ _ => .error .filesystemLoop) ctx comps
      { w with loc := ctx.currentDir }
  | fuel + 1, ctx, comps, w => walkFrom t (resolveComponents fuel) ctx comps
      { w with loc := ctx.currentDir }

/-- `path.file_name()`. -/
def fileName (path : List Component) : Option String :=
  match path.getLast? with
  | some (.normal name) => some name
  | _ => none

variable (ctx : FsContext L) (path : List Component)

/-- `resolve_inner`. -/
def FsContext.resolveInner :
    AxResult (Walk L × Option String) := do
  let comps := if (fileName path).isSome then path.dropLast else path
  let w ← resolveComponents t SYMLINKS_MAX ctx comps ⟨ctx.currentDir, 0, false⟩
  checkIsDir t w.loc
  return (w, fileName path)

/-- `resolve`. -/
def FsContext.resolve : AxResult (Walk L) := do
  let r ← ctx.resolveInner t path
  match r.2 with
  | some name => lookup t (resolveComponents t SYMLINKS_MAX) ctx name r.1
  | none => return r.1

/-- `resolve_no_follow`. -/
def FsContext.resolveNoFollow :
    AxResult (Walk L) := do
  let r ← ctx.resolveInner t path
  match r.2 with
  | some name => do
    let loc ← t.lookupNoFollow r.1.loc name
    return { r.1 with loc := loc }
  | none => return r.1

/-- `resolve_parent`. -/
def FsContext.resolveParent :
    AxResult (Walk L × String) := do
  let r ← ctx.resolveInner t path
  match r.2 with
  | some name => return (r.1, name)
  | none =>
    if (t.parent r.1.loc).isSome then return (goUp t ctx r.1, t.name r.1.loc)
    else throw .invalidInput

/-- `resolve_nonexistent`. -/
def FsContext.resolveNonexistent :
    AxResult (Walk L × String) := do
  let r ← ctx.resolveInner t path
  match r.2 with
  | some name => return (r.1, name)
  | none => throw .invalidInput

/-- `sys_chdir`. -/
def sysChdir : AxResult (FsContext L) := do
  let w ← ctx.resolve t path
  ctx.withCurrentDir t w.loc

/-- `sys_chroot`. -/
def sysChroot : AxResult (FsContext L) := do
  let w ← ctx.resolve t path
  if t.nodeType w.loc ≠ .directory then throw .notADirectory
  else return .new w.loc

/-- What a process does to its context. -/
inductive Step (L : Type) where
  | chdir (path : List Component)
  /-- `sys_fchdir`, with the directory of the descriptor. -/
  | fchdir (dir : L)
  | chroot (path : List Component)

/-- A call that fails leaves the context as it is. -/
def ctxStep : Step L → Option (FsContext L)
  | .chdir path => (sysChdir t ctx path).toOption
  | .fchdir dir => (ctx.withCurrentDir t dir).toOption
  | .chroot path => (sysChroot t ctx path).toOption

end Resolution

/-! ## §3. Walks go on, and the fuel is enough. -/

section Fuel

/-- `w'` is further on: no link and no climb is taken back. -/
@[grind cases] structure Walk.Onward (w w' : Walk L) : Prop where
  count : w.followCount ≤ w'.followCount
  climbed : w'.climbed = false → w.climbed = false

theorem Walk.Onward.trans {w₁ w₂ w₃ : Walk L} (h : w₁.Onward w₂) (h' : w₂.Onward w₃) :
    w₁.Onward w₃ :=
  ⟨Nat.le_trans h.count h'.count, fun hc => h.climbed (h'.climbed hc)⟩

/-- What the resolver returns is further on. -/
def MovesOn (resolver : Resolver L) : Prop :=
  ∀ ctx comps w w', resolver ctx comps w = .ok w' → w.Onward w'

theorem withCurrentDir_eq {ctx ctx' : FsContext L} {dir : L}
    (h : ctx.withCurrentDir t dir = .ok ctx') : ctx' = { ctx with currentDir := dir } := by
  simp only [FsContext.withCurrentDir, bind_eq_ok] at h
  obtain ⟨-, -, h⟩ := h
  cases h
  rfl

variable {resolver : Resolver L}

/-- What a successful lookup has done: found an entry and, if it is a link, walked it from
the directory it stands in. -/
theorem lookup_cases {ctx : FsContext L} {name : String} {w w' : Walk L}
    (h : lookup t resolver ctx name w = .ok w') :
    ∃ loc, t.lookupNoFollow w.loc name = .ok loc ∧ (w' = { w with loc := loc } ∨
      ∃ target, resolver { ctx with currentDir := w.loc } target
        { w with loc := loc, followCount := w.followCount + 1 } = .ok w') := by
  simp only [lookup, bind_eq_ok] at h
  obtain ⟨loc, hloc, inDir, hdir, h⟩ := h
  rw [withCurrentDir_eq hdir] at h
  refine ⟨loc, hloc, ?_⟩
  unfold tryResolveSymlink at h
  split at h
  · -- not a link
    cases h
    exact .inl rfl
  split at h
  · -- too many links
    cases h
  rw [bind_eq_ok] at h
  obtain ⟨target, -, h⟩ := h
  split at h
  · cases h
  · exact .inr ⟨target, h⟩

theorem lookup_onward (hm : MovesOn resolver) {ctx : FsContext L}
    {name : String} {w w' : Walk L} (h : lookup t resolver ctx name w = .ok w') : w.Onward w' := by
  obtain ⟨loc, -, hfound | ⟨target, hlink⟩⟩ := lookup_cases h
  · subst hfound
    exact ⟨le_rfl, id⟩
  · have hwalk := hm _ _ _ _ hlink
    exact ⟨Nat.le_of_succ_le hwalk.count, hwalk.climbed⟩

theorem movesOn_error (e : AxError) : MovesOn (fun _ _ _ => .error e : Resolver L) :=
  nofun

/-- Two resolvers agree once `k` links have been followed.  Past the bound no link is
followed, so there is nothing to agree on. -/
def AgreeFrom (k : Nat) (r r' : Resolver L) : Prop :=
  ∀ ctx comps w, k ≤ w.followCount → w.followCount ≤ SYMLINKS_MAX →
    r ctx comps w = r' ctx comps w

theorem tryResolveSymlink_congr {k : Nat} {r r' : Resolver L} (hr : AgreeFrom (k + 1) r r')
    (ctx : FsContext L) {w : Walk L} (hk : k ≤ w.followCount) :
    tryResolveSymlink t r ctx w = tryResolveSymlink t r' ctx w := by
  unfold tryResolveSymlink
  by_cases hmax : SYMLINKS_MAX ≤ w.followCount
  · simp only [hmax, if_true]
  · have hagree : ∀ target, r ctx target { w with followCount := w.followCount + 1 }
        = r' ctx target { w with followCount := w.followCount + 1 } :=
      fun target => hr _ _ _ (Nat.succ_le_succ hk) (by show w.followCount + 1 ≤ _; omega)
    simp only [hagree]

variable [DecidableEq L]

theorem goUp_onward (ctx : FsContext L) (w : Walk L) : w.Onward (goUp t ctx w) :=
  ⟨le_rfl, fun h => (Bool.or_eq_false_iff.mp h).1⟩

theorem walkFrom_onward (hm : MovesOn resolver) (ctx : FsContext L) :
    ∀ (comps : List Component) (w w' : Walk L), walkFrom t resolver ctx comps w = .ok w' →
      w.Onward w' := by
  intro comps
  induction comps with
  | nil =>
    intro w w' h
    cases h
    exact ⟨le_rfl, id⟩
  | cons c rest ih =>
    intro w w' h
    cases c with
    | curDir => exact ih _ _ h
    | parentDir => exact (goUp_onward ctx w).trans (ih _ _ h)
    | rootDir =>
      have hrest := ih { w with loc := ctx.rootDir } _ h
      exact ⟨hrest.count, hrest.climbed⟩
    | normal name =>
      simp only [walkFrom] at h
      split at h
      · cases h
      · rename_i w₁ h₁
        exact (lookup_onward hm h₁).trans (ih _ _ h)

theorem resolveComponents_onward (fuel : Nat) : MovesOn (resolveComponents t fuel) := by
  induction fuel with
  | zero =>
    intro ctx comps w w' h
    have hwalk := walkFrom_onward (movesOn_error _) ctx _ _ _ h
    exact ⟨hwalk.count, hwalk.climbed⟩
  | succ fuel ih =>
    intro ctx comps w w' h
    have hwalk := walkFrom_onward ih ctx _ _ _ h
    exact ⟨hwalk.count, hwalk.climbed⟩

theorem walkFrom_congr {k : Nat} {r r' : Resolver L} (hr : AgreeFrom (k + 1) r r')
    (hm : MovesOn r) (ctx : FsContext L) :
    ∀ (comps : List Component) (w : Walk L), k ≤ w.followCount →
      walkFrom t r ctx comps w = walkFrom t r' ctx comps w := by
  intro comps
  induction comps with
  | nil => exact fun _ _ => rfl
  | cons c rest ih =>
    intro w hk
    cases c with
    | curDir => exact ih _ hk
    | parentDir => exact ih (goUp t ctx w) hk
    | rootDir => exact ih { w with loc := ctx.rootDir } hk
    | normal name =>
      have hl : lookup t r ctx name w = lookup t r' ctx name w := by
        grind [tryResolveSymlink_congr, lookup]
      simp only [walkFrom, ← hl]
      cases h : lookup t r ctx name w with
      | error e => rfl
      | ok w' => exact ih w' (Nat.le_trans hk (lookup_onward hm h).count)

/-- **Fuel never runs out**: `n` levels resolve what any larger number does, when at most `n`
of the 40 links are left to be followed. -/
theorem resolveComponents_congr (n m : Nat) :
    AgreeFrom (SYMLINKS_MAX - n) (resolveComponents t n) (resolveComponents t (m + n)) := by
  induction n with
  | zero =>
    intro ctx comps w hk _
    -- all 40 links are used up, so no resolver is called
    have hvacuous : ∀ r r' : Resolver L, AgreeFrom (SYMLINKS_MAX + 1) r r' :=
      fun _ _ _ _ _ h h' => by omega
    cases m with
    | zero => rfl
    | succ m => exact walkFrom_congr (hvacuous _ _) (movesOn_error _) ctx _ _ hk
  | succ n ih =>
    intro ctx comps w hk _
    have hrest : AgreeFrom (SYMLINKS_MAX - (n + 1) + 1) (resolveComponents t n)
        (resolveComponents t (m + n)) := fun ctx comps w h => ih ctx comps w (by omega)
    exact walkFrom_congr hrest (resolveComponents_onward n) ctx _ _ hk

end Fuel

/-! ## §4. Confinement. -/

section Confinement

variable {root : L}

/-- A walk that never climbed has come to a location below the root. -/
def Inside (t : Tree L) (root : L) (w : Walk L) : Prop := w.climbed = false → t.Within root w.loc

/-- A resolver that starts below the root ends there. -/
def Confines (t : Tree L) (root : L) (resolver : Resolver L) : Prop :=
  ∀ ctx comps w w', ctx.rootDir = root → t.Within root ctx.currentDir →
    resolver ctx comps w = .ok w' → Inside t root w'

variable {ctx : FsContext L}

theorem lookup_inside {resolver : Resolver L} (hm : MovesOn resolver)
    (hr : Confines t root resolver) (hctx : ctx.rootDir = root)
    {name : String} {w w' : Walk L} (hw : Inside t root w)
    (h : lookup t resolver ctx name w = .ok w') : Inside t root w' := by
  intro hclimbed
  have hin := hw ((lookup_onward hm h).climbed hclimbed)
  obtain ⟨loc, hloc, hfound | ⟨target, hlink⟩⟩ := lookup_cases h
  · subst hfound
    exact within_child hin (t.child _ _ _ hloc)
  · exact hr { ctx with currentDir := w.loc } _ _ _ hctx hin hlink hclimbed

variable [DecidableEq L] {path : List Component}

theorem goUp_inside (hctx : ctx.rootDir = root) {w : Walk L}
    (hw : Inside t root w) : Inside t root (goUp t ctx w) := by
  intro hclimbed
  subst hctx
  have hin := hw ((goUp_onward ctx w).climbed hclimbed)
  unfold goUp at hclimbed ⊢
  cases hp : t.parent w.loc with
  | none => exact within_refl
  | some d =>
    -- the walk was not at the root, so it had come through the parent
    have hne : w.loc ≠ ctx.rootDir := by
      intro h
      simp [← h, hp] at hclimbed
    rcases within_cases hin with h | ⟨d', hd', hd⟩
    · exact absurd h hne
    · rw [hp] at hd'
      cases hd'
      exact hd

theorem walkFrom_inside {resolver : Resolver L} (hm : MovesOn resolver)
    (hr : Confines t root resolver) (hctx : ctx.rootDir = root) :
    ∀ (comps : List Component) (w w' : Walk L), Inside t root w →
      walkFrom t resolver ctx comps w = .ok w' → Inside t root w' := by
  intro comps
  induction comps with
  | nil =>
    intro w w' hw h
    cases h
    exact hw
  | cons c rest ih =>
    intro w w' hw h
    cases c with
    | curDir => exact ih _ _ hw h
    | parentDir => exact ih _ _ (goUp_inside hctx hw) h
    | rootDir => exact ih { w with loc := ctx.rootDir } _ (fun _ => hctx ▸ within_refl) h
    | normal name => grind [walkFrom, lookup_inside]

theorem resolveComponents_confines (fuel : Nat) : Confines t root (resolveComponents t fuel) := by
  induction fuel with
  | zero =>
    intro ctx comps w w' hctx hin h
    exact walkFrom_inside (movesOn_error _) nofun hctx comps
      { w with loc := ctx.currentDir } w' (fun _ => hin) h
  | succ fuel ih =>
    intro ctx comps w w' hctx hin h
    exact walkFrom_inside (resolveComponents_onward fuel) ih hctx comps
      { w with loc := ctx.currentDir } w' (fun _ => hin) h

/-- A context whose current directory is below its root. -/
def FsContext.WellPlaced (t : Tree L) (ctx : FsContext L) : Prop :=
  t.Within ctx.rootDir ctx.currentDir

theorem resolveInner_inside (hctx : ctx.WellPlaced t)
    {r : Walk L × Option String} (h : ctx.resolveInner t path = .ok r) :
    Inside t ctx.rootDir r.1 := by
  simp only [FsContext.resolveInner, bind_eq_ok] at h
  obtain ⟨w, hw, -, -, h⟩ := h
  cases h
  exact resolveComponents_confines _ _ _ _ _ rfl hctx hw

/-- Whatever a context resolves without climbing is `R` or below it. -/
structure Confined (t : Tree L) (R : L) (ctx : FsContext L) : Prop where
  resolve : ∀ path w, ctx.resolve t path = .ok w → Inside t R w
  resolveNoFollow : ∀ path w, ctx.resolveNoFollow t path = .ok w → Inside t R w
  resolveParent : ∀ path r, ctx.resolveParent t path = .ok r → Inside t R r.1
  resolveNonexistent : ∀ path r, ctx.resolveNonexistent t path = .ok r → Inside t R r.1

theorem resolve_inside (hctx : ctx.WellPlaced t)
    {w : Walk L} (h : ctx.resolve t path = .ok w) : Inside t ctx.rootDir w := by
  simp only [FsContext.resolve, bind_eq_ok] at h
  obtain ⟨r, hr, h⟩ := h
  have hin := resolveInner_inside hctx hr
  split at h
  · exact lookup_inside (resolveComponents_onward _) (resolveComponents_confines _) rfl hin h
  · cases h
    exact hin

theorem FsContext.WellPlaced.confined (hctx : ctx.WellPlaced t) :
    Confined t ctx.rootDir ctx where
  resolve := fun _ _ => resolve_inside hctx
  resolveNoFollow := by
    intro path w h
    simp only [FsContext.resolveNoFollow, bind_eq_ok] at h
    obtain ⟨r, hr, h⟩ := h
    have hin := resolveInner_inside hctx hr
    split at h
    · rw [bind_eq_ok] at h
      obtain ⟨loc, hloc, h⟩ := h
      cases h
      exact fun hc => within_child (hin hc) (t.child _ _ _ hloc)
    · cases h
      exact hin
  resolveParent := by
    intro path r h
    simp only [FsContext.resolveParent, bind_eq_ok] at h
    obtain ⟨r₁, hr₁, h⟩ := h
    have hin := resolveInner_inside hctx hr₁
    split at h
    · cases h
      exact hin
    · split at h
      · cases h
        exact goUp_inside rfl hin
      · cases h
  resolveNonexistent := by
    intro path r h
    simp only [FsContext.resolveNonexistent, bind_eq_ok] at h
    obtain ⟨r₁, hr₁, h⟩ := h
    have hin := resolveInner_inside hctx hr₁
    split at h
    · cases h
      exact hin
    · cases h

/-- A call that resolves its path without climbing, or takes a directory below the root. -/
def staysInside (t : Tree L) (ctx : FsContext L) : Step L → Prop
  | .chdir path | .chroot path => ∀ w, ctx.resolve t path = .ok w → w.climbed = false
  | .fchdir dir => t.Within ctx.rootDir dir

/-- The root only moves down, and the current directory stays below it. -/
structure Placed (t : Tree L) (R : L) (ctx : FsContext L) : Prop where
  root : t.Within R ctx.rootDir
  current : ctx.WellPlaced t

theorem ctxStep_placed {R : L} {ctx' : FsContext L} {i : Step L} (h : Placed t R ctx)
    (hok : staysInside t ctx i) (hs : ctxStep t ctx i = some ctx') : Placed t R ctx' := by
  cases i with
  | chdir path =>
    have hs := toOption_eq_some hs
    simp only [sysChdir, bind_eq_ok] at hs
    obtain ⟨w, hw, hs⟩ := hs
    rw [withCurrentDir_eq hs]
    exact ⟨h.root, resolve_inside h.current hw (hok w hw)⟩
  | fchdir dir =>
    rw [withCurrentDir_eq (toOption_eq_some hs)]
    exact ⟨h.root, hok⟩
  | chroot path =>
    have hs := toOption_eq_some hs
    simp only [sysChroot, bind_eq_ok] at hs
    obtain ⟨w, hw, hs⟩ := hs
    split at hs
    · cases hs
    · cases hs
      exact ⟨within_trans h.root (resolve_inside h.current hw (hok w hw)), within_refl⟩

theorem sysChroot_placed {before : FsContext L}
    (h : sysChroot t before path = .ok ctx) : Placed t ctx.rootDir ctx := by
  simp only [sysChroot, bind_eq_ok] at h
  obtain ⟨w, -, h⟩ := h
  split at h
  · cases h
  · cases h
    exact ⟨within_refl, within_refl⟩

theorem Confined.mono {R R' : L} (hR : t.Within R R')
    (h : Confined t R' ctx) : Confined t R ctx where
  resolve path w hw hc := within_trans hR (h.resolve path w hw hc)
  resolveNoFollow path w hw hc := within_trans hR (h.resolveNoFollow path w hw hc)
  resolveParent path r hr hc := within_trans hR (h.resolveParent path r hr hc)
  resolveNonexistent path r hr hc := within_trans hR (h.resolveNonexistent path r hr hc)

/-- **A chroot confines what does not climb**: after `chroot`, over all calls that change the
context without climbing, whatever is resolved without climbing, from the current directory or
from any directory below the root, is the new root or below it. -/
theorem chroot_confines (t : Tree L) (before ctx₀ ctx : FsContext L) (path : List Component)
    (h₀ : sysChroot t before path = .ok ctx₀) (hr : Reach (ctxStep t) (staysInside t) ctx₀ ctx) :
    Confined t ctx₀.rootDir ctx ∧
      ∀ dir, t.Within ctx.rootDir dir → Confined t ctx₀.rootDir { ctx with currentDir := dir } := by
  have hplaced : Placed t ctx₀.rootDir ctx :=
    hr.invariant (Placed t ctx₀.rootDir) (sysChroot_placed h₀)
      (fun _ _ _ => ctxStep_placed)
  refine ⟨hplaced.current.confined.mono hplaced.root, fun dir hdir => ?_⟩
  have hat : FsContext.WellPlaced t { ctx with currentDir := dir } := hdir
  exact hat.confined.mono hplaced.root

end Confinement

/-! ## §5. A jail with a door. -/

/-- `/`, `/jail`, `/secret` and, in the jail, the link `door` to `../secret` and a directory
`cell` with a link `back` to `../cell`. -/
inductive Place where
  | slash
  | jail
  | secret
  | door
  | cell
  | back
  deriving Repr, DecidableEq

def jailTree : Tree Place where
  nodeType
    | .slash | .jail | .cell => .directory
    | .secret => .other
    | .door | .back => .symlink
  name
    | .slash => ""
    | .jail => "jail"
    | .secret => "secret"
    | .door => "door"
    | .cell => "cell"
    | .back => "back"
  parent
    | .slash => none
    | .jail | .secret => some .slash
    | .door | .cell => some .jail
    | .back => some .cell
  lookupNoFollow dir name :=
    match dir with
    | .slash => if name = "jail" then .ok .jail else if name = "secret" then .ok .secret
        else .error .notFound
    | .jail => if name = "door" then .ok .door else if name = "cell" then .ok .cell
        else .error .notFound
    | .cell => if name = "back" then .ok .back else .error .notFound
    | _ => .error .notADirectory
  readLink
    | .door => .ok [.parentDir, .normal "secret"]
    | .back => .ok [.parentDir, .normal "cell"]
    | _ => .error .invalidInput
  child d n l h := by cases d <;> simp only at h <;> (repeat' split at h) <;> cases h <;> rfl

/-- In the jail, after `chdir("cell")`, the path `back/../cell` follows the link and applies
`..` twice below the root. -/
theorem chroot_confines_jail :
    sysChroot jailTree (.new .slash) [.normal "jail"] = .ok (.new .jail) ∧
      ctxStep jailTree (.new .jail) (.chdir [.normal "cell"]) = some ⟨.jail, .cell⟩ ∧
      (⟨.jail, .cell⟩ : FsContext Place).resolve jailTree
        [.normal "back", .parentDir, .normal "cell"] = .ok ⟨.cell, 1, false⟩ ∧
      jailTree.Within .jail .cell := by
  have hchroot : sysChroot jailTree (.new .slash) [.normal "jail"] = .ok (.new .jail) := rfl
  have hchdir : ctxStep jailTree (.new .jail) (.chdir [.normal "cell"]) = some ⟨.jail, .cell⟩ :=
    rfl
  have hinside : staysInside jailTree (.new .jail) (.chdir [.normal "cell"]) := by
    intro w hw
    cases hw
    rfl
  have hconfined := (chroot_confines jailTree _ _ _ _ hchroot (.next _ .start hinside hchdir)).1
  exact ⟨hchroot, hchdir, rfl, hconfined.resolve [.normal "back", .parentDir, .normal "cell"]
    ⟨.cell, 1, false⟩ rfl rfl⟩

/-- **chroot does not confine**: in the jail `..` is `/`, `/../secret` is the secret, and so is
`door`, a link whose text goes up. -/
theorem chroot_does_not_confine :
    sysChroot jailTree (.new .slash) [.normal "jail"] = .ok (.new .jail) ∧
      ((FsContext.new Place.jail).resolve jailTree [.parentDir]).map Walk.loc = .ok .slash ∧
      ((FsContext.new Place.jail).resolve jailTree [.rootDir, .parentDir, .normal "secret"]).map
        Walk.loc = .ok .secret ∧
      ((FsContext.new Place.jail).resolve jailTree [.normal "door"]).map Walk.loc = .ok .secret ∧
      ¬ jailTree.Within .jail .slash ∧ ¬ jailTree.Within .jail .secret := by
  have hslash : ¬ jailTree.Within .jail .slash := by
    intro h
    rcases within_cases h with h | ⟨_, h, _⟩
    · cases h
    · cases h
  refine ⟨rfl, rfl, rfl, rfl, hslash, ?_⟩
  intro h
  rcases within_cases h with h | ⟨d, hd, h⟩
  · cases h
  · cases hd
    exact hslash h

end StarryOS.Fs.Chroot
