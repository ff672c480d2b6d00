/-
  StarryOS.Exec.Execve — `execve` (`kernel/src/syscall/task/execve.rs`).

  The system call loads the new program INTO THE ADDRESS SPACE OF THE CALLER and
  resolves the path a second time when that is done.  So it has two halves:

      findExecutable   up to `uspace.clear()`; an error leaves the process as it was
      replaceImage     from there on; the pages of the caller are gone, and an
                       error has nobody to return to

  A failed `execve` changes nothing exactly if the second half returns no error
  (`FailsLate`).  Since any allocation may fail, this means that the clear is not
  reached.
-/
import StarryOS.Exec.ScriptChains

namespace StarryOS.Exec

open Lib Mm

/-! ## §1. The system call. -/

structure FileDescriptor where
  file : Nat
  cloexec : Bool
  deriving Repr, DecidableEq

/-- What `execve` reads and sets of the calling process and its thread. -/
structure Process where
  /-- The number of its address space. -/
  space : Nat
  threads : Nat
  name : Str
  exePath : Str
  cmdline : List Str
  heapTop : Nat
  /-- The signal actions that are not the default one. -/
  actions : List (Nat × Nat)
  clearChildTid : Nat
  fds : List (Nat × FileDescriptor)
  deriving Repr, DecidableEq

/-- What the call changes. -/
structure ExecState where
  load : LoadState
  proc : Process
  /-- Of the user context, `ip` and `sp`. -/
  ip : Nat
  sp : Nat

abbrev ExecM := EStateM Stop ExecState

def onLoader {α : Type} (m : LoadM α) : ExecM α := fun st =>
  match m st.load with
  | .ok a load => .ok a { st with load := load }
  | .error e load => .error e { st with load := load }

/-- The arguments, as `vm_load_string` and `vm_load_until_nul` find them in user
memory. -/
structure ExecArgs where
  path : AxResult Str
  argv : AxResult (List Str)
  envp : AxResult (List Str)

section Functions

variable (lib : Elf) (cfg : Config) (env : LoadEnv) (fs : FileSystem)

/-- What `sys_execve` reads first. -/
structure ExecInput where
  space : Nat
  path : Str
  args : List Str
  envs : List Str

/-- `sys_execve`, up to `load_user_app`. -/
def readInput (a : ExecArgs) : ExecM ExecInput := do
  let path ← onLoader (ofExcept a.path)
  let args ← onLoader (ofExcept a.argv)
  let envs ← onLoader (ofExcept a.envp)
  let proc := (← get).proc
  if 1 < proc.threads then throw (.err .wouldBlock) else return ⟨proc.space, path, args, envs⟩

/-- `sys_execve` after `load_user_app`: the path is looked up once more. -/
def setProcess (x : ExecInput) (image : Nat × Nat) : ExecM Nat := do
  let loc ← onLoader (ofExcept (fs.resolve x.path))
  modify (fun st => { st with proc := { st.proc with name := fs.name loc } })
  let exePath ← onLoader (ofExcept (fs.absolutePath loc))
  modify (fun st => { st with proc := { st.proc with
    exePath := exePath, cmdline := x.args, heapTop := cfg.userHeapBase, actions := [],
    clearChildTid := 0, fds := st.proc.fds.filter (fun fd => !fd.2.cloexec) } })
  modify (fun st => { st with ip := image.1, sp := image.2 })
  return 0

/-- `sys_execve`. -/
def sysExecve (fuel : Nat) (a : ExecArgs) : ExecM Nat := do
  let x ← readInput a
  let image ← onLoader (loadUserApp lib cfg env fs x.space x.envs fuel (some x.path) x.args)
  -- the old program is gone
  setProcess cfg fs x image

/-! ## §2. Before and after the clear. -/

/-- `sys_execve` up to the clear; with the arguments of the last call of the chain. -/
def findExecutable (fuel : Nat) (a : ExecArgs) : ExecM (ExecInput × List Str) := do
  let x ← readInput a
  let lastArgs ← onLoader (findProgram lib env fs fuel ⟨some x.path, x.args⟩)
  return (x, lastArgs)

/-- `sys_execve` from the clear on. -/
def replaceImage (f : ExecInput × List Str) : ExecM Nat := do
  let image ← onLoader (buildProgram lib cfg env fs f.1.space f.2 f.1.envs)
  setProcess cfg fs f.1 image

/-- The call gets to the clear: the chain of the path ends in a file with headers. -/
def Reaches (fuel : Nat) (a : ExecArgs) (st : ExecState) : Prop :=
  st.proc.threads ≤ 1 ∧ ∃ path args envs, a.path = .ok path ∧ a.argv = .ok args ∧ a.envp = .ok envs
    ∧ ∃ c e tail, lastCall lib fs st.load.elfCache fuel ⟨some path, args⟩ = some c
      ∧ c.Clears lib fs st.load.elfCache e tail

/-- **The second half returns an error.** -/
def FailsLate (fuel : Nat) (a : ExecArgs) (st : ExecState) : Prop :=
  ∃ f st₁ err st', findExecutable lib env fs fuel a st = .ok f st₁
    ∧ replaceImage lib cfg env fs f st₁ = .error (.err err) st'

end Functions

/-- Areas, page frames, heap top, signal actions and descriptors are those of before. -/
def Unchanged (st st' : ExecState) : Prop :=
  st'.load.mm.spaces = st.load.mm.spaces ∧ st'.load.mm.mem.frames = st.load.mm.mem.frames
    ∧ st'.proc.heapTop = st.proc.heapTop ∧ st'.proc.actions = st.proc.actions
    ∧ st'.proc.fds = st.proc.fds

/-- The caller has a page in memory. -/
def HasPage (st : ExecState) (sp : AddrSpace Backend) : Prop :=
  ∃ a ∈ sp.areas.areas, ∃ v n, a.Has v ∧ st.load.mm.mem.frames (st.proc.space, v) = some n
    ∧ n < st.load.mm.mem.calls

/-! ## §3. The pages of the caller. -/

/-- The page at `v` is gone: what is there now was brought in later. -/
def PageGone (s v n : Nat) (mm : MmState LoadMem Backend) : Prop :=
  n ≤ mm.mem.calls ∧ ∀ k, mm.mem.frames (s, v) = some k → n ≤ k

variable {lib : Elf} {cfg : Config} {env : LoadEnv} {fs : FileSystem}

section Pages

variable {s v n : Nat}

theorem memCall_gone : Preserves (PageGone s v n) (memCall env) := by
  intro mm h
  unfold memCall ends
  simp only [wp_bind, wp_get, wp_modify]
  have h' : PageGone s v n (mm.withMem (fun m => { m with calls := m.calls + 1 })) :=
    ⟨Nat.le_succ_of_le h.1, h.2⟩
  exact wp_ite (fun _ => h') (fun _ => h')

/-- A page that is populated gets the number of the call. -/
theorem populate_gone (b : Backend) (u lo hi : Nat) (flags access : MappingFlags) :
    Preserves (PageGone s v n) ((ops env).populate b u lo hi flags access) := by
  intro mm h
  show ends (do
    let call := (← get).mem.calls
    memCall env
    modify _
    return ((hi - lo) / 4096, none)) mm _
  unfold ends
  rw [wp_bind, wp_get]
  refine wp_seq (memCall_gone mm h) ?_
  intro _ mm₁ h₁
  refine ⟨h₁.1, ?_⟩
  intro k hk
  change (mm₁.mem.frames (s, v)).or (if inRange u lo hi (s, v) then some mm.mem.calls else none)
    = some k at hk
  rw [Option.or_eq_some_iff] at hk
  rcases hk with hk | ⟨-, hk⟩
  · exact h₁.2 k hk
  · split at hk
    · rw [← Option.some.inj hk]
      exact h.1
    · cases hk

theorem getSpace_gone (u : Nat) :
    Preserves (PageGone s v n) (getSpace u : SpaceM (AddrSpace Backend)) := by
  refine .bind .get (fun mm => ?_)
  split
  · exact .pure _
  · exact .throw _

theorem validateRegion_gone (sp : AddrSpace Backend) (start size : Nat) :
    Preserves (PageGone s v n) (validateRegion sp start size : SpaceM Unit) :=
  .ite (.throw _) (.ite (.throw _) (.pure _))

theorem populateArea_gone (u start size : Nat) (access : MappingFlags) :
    Preserves (PageGone s v n) (populateArea (ops env) u start size access) := by
  have hloop : ∀ rounds lo, Preserves (PageGone s v n)
      (populateLoop (ops env) u (start + size) access rounds lo) := by
    intro rounds
    induction rounds with
    | zero => exact fun lo => .pure lo
    | succ rounds ih =>
      intro lo
      refine .bind (getSpace_gone u) (fun sp => ?_)
      split
      · exact .pure _
      · exact .bind (populate_gone _ _ _ _ _ _) (fun _ => .ite (.pure _) (ih _))
  refine .bind (getSpace_gone u) (fun sp => .bind (validateRegion_gone _ _ _) (fun _ => ?_))
  exact .bind (hloop _ _) (fun _ => .ite (.throw _) (.pure _))

theorem map_gone (u start size : Nat) (flags : MappingFlags) (populate : Bool) (b : Backend) :
    Preserves (PageGone s v n) (map (ops env) u start size flags populate b) := by
  refine .bind (getSpace_gone u) (fun sp => .bind (validateRegion_gone _ _ _) (fun _ => ?_))
  split
  · refine .bind (.bind (getSpace_gone u) (fun sp => .ite (.throw _) (.bind ?_ (fun _ => ?_))))
      (fun _ => ?_)
    · -- the error of a backend is replaced
      intro mm h
      unfold orBadState ends
      rw [wp_tryCatch]
      refine wp_mono_err (memCall_gone mm h) ?_
      intro e mm' h'
      cases e <;> exact h'
    · exact .modify (fun _ h => h)
    · exact .ite (populateArea_gone _ _ _ _) (.pure _)
  · exact .throw _

theorem writeSpace_gone (u start : Nat) (data : Bytes) :
    Preserves (PageGone s v n) (writeSpace u start data) := by
  refine .bind (getSpace_gone u) (fun sp => .ite (.bind .get (fun _ => ?_)) (.throw _))
  exact .ite (.pure _) (.throw _)

/-- **The clear takes the page away.** -/
theorem clear_gone {mm : MmState LoadMem Backend} {sp : AddrSpace Backend}
    (hsp : mm.spaces[s]? = some sp) {a : MemoryArea Backend} (ha : a ∈ sp.areas.areas)
    (hv : a.Has v) : ends (clear (ops env) s) mm (PageGone s v mm.mem.calls) := by
  have hloop : ∀ (rest : List (MemoryArea Backend)) (mm' : MmState LoadMem Backend),
      mm'.mem.calls = mm.mem.calls → (a ∈ rest ∨ mm'.mem.frames (s, v) = none) →
      wp (clearLoop (ops env) s rest) mm' (fun _ mm'' => mm''.mem.calls = mm.mem.calls
        ∧ mm''.mem.frames (s, v) = none) NoError := by
    intro rest
    induction rest with
    | nil =>
      intro mm' hcalls hgone
      exact ⟨hcalls, hgone.resolve_left (by simp)⟩
    | cons b rest ih =>
      intro mm' hcalls hgone
      refine ih _ hcalls ?_
      show a ∈ rest ∨ (if inRange s b.start b.stop (s, v) then none else mm'.mem.frames (s, v))
        = none
      rcases hgone with hmem | hnone
      · rcases List.mem_cons.mp hmem with rfl | hmem
        · refine .inr (if_pos ?_)
          unfold Area.Has at hv
          simp [inRange, hv.1, hv.2]
        · exact .inl hmem
      · right
        rw [hnone, ite_self]
  unfold ends
  refine wp_seq (wp_mono_err (getSpace_spec (E := NoError) hsp)
    (fun _ _ => False.elim)) ?_
  rintro sp₀ mm₀ ⟨rfl, rfl⟩
  refine wp_seq (wp_mono_err (hloop _ _ rfl (.inl ha)) (fun _ _ => False.elim)) ?_
  rintro _ mm₁ ⟨hcalls, hnone⟩
  refine ⟨Nat.le_of_eq hcalls.symm, fun k hk => ?_⟩
  cases hnone.symm.trans hk

variable {P : MmState LoadMem Backend → Prop}

/-- Looking at files leaves the page tables alone. -/
theorem preserves_mm {α : Type} {m : LoadM α}
    (h : ∀ st, ends m st (fun st' => st'.mm = st.mm)) : Preserves (fun st => P st.mm) m := by
  intro st hP
  have hsame : ∀ st' : LoadState, st'.mm = st.mm → P st'.mm := by
    intro st' hmm
    rw [hmm]
    exact hP
  exact wp_mono (h st) (fun _ => hsame) (fun _ => hsame)

theorem onSpace_preserves {α : Type} {m : SpaceM α}
    (h : Preserves P m) : Preserves (fun st => P st.mm) (onSpace m) := by
  intro st hP
  unfold ends
  rw [wp_onSpace]
  exact h st.mm hP

/-- **Wherever `load_user_app` ends after the clear, the page is gone.** -/
theorem buildProgram_gone {st : LoadState} {sp : AddrSpace Backend}
    (hsp : st.mm.spaces[s]? = some sp) {a : MemoryArea Backend} (ha : a ∈ sp.areas.areas)
    (hv : a.Has v) (args envs : List Str) : ends (buildProgram lib cfg env fs s args envs) st
      (fun st' => PageGone s v st.mm.mem.calls st'.mm) := by
  have hmap : ∀ (start size : Nat) (flags : MappingFlags) (populate : Bool) (b : Backend),
      Preserves (fun st' : LoadState => PageGone s v st.mm.mem.calls st'.mm)
        (onSpace (map (ops env) s start size flags populate b)) :=
    fun start size flags populate b => onSpace_preserves (map_gone s start size flags populate b)
  unfold buildProgram ends
  refine wp_seq (loadImage_ends ?_ ?_ (fun r => hmap _ _ _ _ _) ?_) ?_
  · exact fun loc n off => preserves_mm (fun st₁ => wp_mono (readFile_spec n off)
      (fun _ _ h => h.2.1) (fun _ _ h => h.2.2.1))
  · exact fun loc => preserves_mm (fun st₁ => wp_mono bringToFront_spec (fun _ _ h => h.1)
      (fun _ _ h => h.1.1))
  · unfold ends
    rw [wp_onSpace]
    exact clear_gone hsp ha hv
  · rintro ⟨entry, auxv⟩
    refine Preserves.bind (.bind (hmap _ _ _ _ _) (fun _ => .ite (.throw _) ?_)) (fun _ => .pure _)
    refine .bind (onSpace_preserves (populateArea_gone _ _ _ _)) (fun _ => ?_)
    exact .bind (onSpace_preserves (writeSpace_gone _ _ _)) (fun _ =>
      .bind (hmap _ _ _ _ _) (fun _ => .pure _))

end Pages

/-! ## §4. The first half. -/

section FirstHalf

variable {st : ExecState} {α β : Type} {Q : α → ExecState → Prop} {fuel : Nat} {a : ExecArgs}

theorem wp_onLoader {m : LoadM α} {E : Stop → ExecState → Prop} :
    wp (onLoader m) st Q E ↔ wp m st.load (fun a load => Q a { st with load := load })
      (fun e load => E e { st with load := load }) := by
  unfold wp onLoader
  cases m st.load with
  | ok a load | error e load => exact Iff.rfl

theorem onLoader_bind (m : LoadM α) (f : α → LoadM β) :
    onLoader (m >>= f) = onLoader m >>= fun a => onLoader (f a) := by
  funext st
  show (match EStateM.bind m f st.load with | .ok a load => _ | .error e load => _)
    = EStateM.bind (onLoader m) (fun a => onLoader (f a)) st
  unfold EStateM.bind onLoader
  cases m st.load <;> rfl

/-- **`sys_execve` is its two halves.** -/
theorem sysExecve_eq : sysExecve lib cfg env fs fuel a
    = findExecutable lib env fs fuel a >>= replaceImage lib cfg env fs := by
  unfold sysExecve findExecutable replaceImage
  simp only [bind_assoc, pure_bind]
  congr 1
  funext x
  have happ := @loadUserApp_eq lib cfg env fs x.envs x.space fuel ⟨some x.path, x.args⟩
  simp only at happ
  rw [happ, onLoader_bind, bind_assoc]

/-- A call gets to the clear with a file whose header can be sliced. -/
theorem Call.Clears.not_malformed {cache : List ElfCacheEntry} {c : Call} {e : ElfCacheEntry}
    {tail : List ElfCacheEntry} (h : c.Clears lib fs cache e tail) :
    ¬ c.Malformed lib fs cache := by
  obtain ⟨path, hloads, loc, hloc, hfront⟩ := h
  rintro ⟨path', loc', hloads', hloc', hfind, hrange⟩
  rw [hloads.unique hloc hloads' hloc'] at hfind hrange
  apply hrange
  intro start stop hph
  unfold frontOf touch at hfront
  rw [hfind] at hfront
  unfold headersOf at hfront
  grind

/-- **Up to the clear nothing changes.**  The first half returns if the call
reaches the clear, unless a read fails. -/
theorem findExecutable_spec : wp (findExecutable lib env fs fuel a) st
    (fun f st' => st'.load.mm = st.load.mm ∧ f.1.space = st.proc.space ∧ Reaches lib fs fuel a st)
    (fun _ st' => st'.load.mm = st.load.mm ∧ st'.proc = st.proc
      ∧ (Reaches lib fs fuel a st → env.ReadFails)) := by
  unfold findExecutable readInput Reaches
  cases a.path with
  | error err => exact ⟨rfl, rfl, by simp⟩
  | ok path =>
    cases a.argv with
    | error err => exact ⟨rfl, rfl, by simp⟩
    | ok args =>
      cases a.envp with
      | error err => exact ⟨rfl, rfl, by simp⟩
      | ok envs =>
        rw [wp_bind]
        show wp (if 1 < st.proc.threads then _ else _) st _ _
        apply wp_ite
        · intro hthreads
          exact ⟨rfl, rfl, fun h => absurd h.1 (by omega)⟩
        intro hthreads
        rw [wp_pure, wp_bind, wp_onLoader]
        refine wp_mono (findProgram_spec fuel ⟨some path, args⟩ st.load) ?_ ?_
        · rintro lastArgs load ⟨hmm, c, e, tail, hlast, rfl, -, hclears, -⟩
          exact ⟨hmm, rfl, by omega, path, args, envs, rfl, rfl, rfl, c, e, tail, hlast, hclears⟩
        · rintro err load ⟨hmm, hnot⟩
          refine ⟨hmm, rfl, ?_⟩
          rintro ⟨-, _, _, _, ⟨⟩, ⟨⟩, ⟨⟩, c, e, tail, hlast, hclears⟩
          cases err with
          | halt => exact absurd ⟨c, hlast, hclears.not_malformed⟩ hnot
          | err code => exact hnot.resolve_left (fun hno => hno.2 c e tail hlast hclears)

end FirstHalf

/-! ## §5. The law. -/

/-- Every read succeeds, and there is no memory. -/
def LoadEnv.starved : LoadEnv := ⟨fun _ => none, fun _ => false, false⟩

section Law

variable {st : ExecState} {sp : AddrSpace Backend} {fuel : Nat} {a : ExecArgs}
  {f : ExecInput × List Str}

theorem map_starved {mm : MmState LoadMem Backend} {s : Nat} (hsp : mm.spaces[s]? = some sp)
    (r : Region) : wp (map (ops .starved) s r.start r.size r.flags false r.backend) mm
      (fun _ _ => False) (fun e _ => e ≠ .halt) := by
  refine wp_mono (wp_and (map_spec hsp r) (?_ : wp _ mm (fun _ _ => False) (fun _ _ => True)))
    (fun _ _ => And.right) (fun _ _ h => h.1.1)
  have hthrow : ∀ mm', wp (memCall .starved) mm' (fun _ _ => False) (fun _ _ => True) :=
    fun _ => trivial
  unfold map
  refine wp_seq (wp_trivial _ _) (fun sp' mm₁ _ => wp_seq (wp_trivial _ _) (fun _ mm₂ _ => ?_))
  split
  · rw [wp_bind]
    unfold mapArea
    refine wp_seq (wp_trivial _ _) (fun sp'' mm₃ _ => wp_ite (fun _ => trivial) (fun _ => ?_))
    rw [wp_bind]
    unfold orBadState
    rw [wp_tryCatch]
    refine wp_mono (hthrow mm₃) (fun _ _ => False.elim) (fun e _ _ => ?_)
    cases e <;> trivial
  · trivial

/-- Without memory the second half fails with an error. -/
theorem replaceImage_starved (hsp : st.load.mm.spaces[f.1.space]? = some sp) :
    wp (replaceImage lib cfg .starved fs f) st (fun _ _ => False) (fun err _ => err ≠ .halt) := by
  unfold replaceImage buildProgram loadImage mapTrampoline
  rw [wp_bind, wp_onLoader, wp_bind, wp_bind, wp_onSpace]
  refine wp_mono (clear_spec hsp) ?_ (fun _ _ => False.elim)
  intro _ mm₁ hsp₁
  rw [wp_bind, wp_onSpace]
  exact wp_mono_ok (map_starved hsp₁ (trampoline cfg)) (fun _ _ => False.elim)

/-- Where the second half ends, the page of the caller is gone. -/
theorem replaceImage_gone {v : Nat} (hsp : st.load.mm.spaces[f.1.space]? = some sp)
    {area : MemoryArea Backend} (harea : area ∈ sp.areas.areas) (hv : area.Has v) :
    ends (replaceImage lib cfg env fs f) st
      (fun st' => PageGone f.1.space v st.load.mm.mem.calls st'.load.mm) := by
  have hkeep : ∀ {α : Type} (x : AxResult α), Preserves
      (fun st' : ExecState => PageGone f.1.space v st.load.mm.mem.calls st'.load.mm)
      (onLoader (ofExcept x)) := by
    intro α x st' h
    cases x <;> exact h
  unfold replaceImage ends
  rw [wp_bind, wp_onLoader]
  refine wp_mono_ok (buildProgram_gone hsp harea hv f.2 f.1.envs) ?_
  rintro ⟨entry, userSp⟩ load hload
  refine Preserves.bind (hkeep _) (fun loc => .bind (.modify ?_) (fun _ => .bind (hkeep _) ?_))
    ({ st with load := load } : ExecState) hload
  · exact fun _ h => h
  · exact fun _ => .bind (.modify (fun _ h => h)) (fun _ => .bind (.modify (fun _ h => h))
      (fun _ => .pure _))

/-- **The two halves decide.** -/
theorem unchanged_iff (hsp : st.load.mm.spaces[st.proc.space]? = some sp) (hpage : HasPage st sp) :
    (∀ err st', sysExecve lib cfg env fs fuel a st = .error (.err err) st' → Unchanged st st')
      ↔ ¬ FailsLate lib cfg env fs fuel a st := by
  have hfirst := @findExecutable_spec lib env fs st fuel a
  have hbind : sysExecve lib cfg env fs fuel a st
      = EStateM.bind (findExecutable lib env fs fuel a) (replaceImage lib cfg env fs) st := by
    rw [sysExecve_eq]
    rfl
  unfold EStateM.bind at hbind
  constructor
  · rintro h ⟨f, st₁, err, st', hfind, hlate⟩
    rw [hfind] at hbind
    obtain ⟨hmm, hspace, -⟩ := wp_of_run hfind hfirst
    obtain ⟨area, harea, v, n, hv, hframe, hold⟩ := hpage
    have hgone := wp_of_error hlate (replaceImage_gone (by rw [hmm, hspace]; exact hsp) harea hv)
    rw [hspace, hmm] at hgone
    have hsame := (h err st' (hbind.trans hlate)).2.1
    have := hgone.2 n (by rw [hsame]; exact hframe)
    omega
  · intro hlate err st' hrun
    cases hfind : findExecutable lib env fs fuel a st with
    | ok f st₁ =>
      rw [hfind] at hbind
      exact absurd ⟨f, st₁, err, st', hfind, hbind.symm.trans hrun⟩ hlate
    | error e st₁ =>
      rw [hfind] at hbind
      obtain ⟨hmm, hproc, -⟩ := wp_of_error hfind hfirst
      cases hbind.symm.trans hrun
      exact ⟨by rw [hmm], by rw [hmm], by rw [hproc], by rw [hproc], by rw [hproc]⟩

/-- **A FAILED `execve` CHANGES NOTHING exactly if the second half returns no
error.**  If reads and allocations may fail, that is the case exactly if the call
does not reach the clear. -/
theorem failed_execve_changes_nothing_iff (sp : AddrSpace Backend)
    (hsp : st.load.mm.spaces[st.proc.space]? = some sp) (hpage : HasPage st sp) (fuel : Nat)
    (a : ExecArgs) :
    (∀ env, (∀ err st', sysExecve lib cfg env fs fuel a st = .error (.err err) st' →
      Unchanged st st')
      ↔ ¬ FailsLate lib cfg env fs fuel a st)
    ∧ ((∀ env err st', sysExecve lib cfg env fs fuel a st = .error (.err err) st' →
        Unchanged st st')
      ↔ ¬ Reaches lib fs fuel a st) := by
  refine ⟨fun env => unchanged_iff hsp hpage, ?_, ?_⟩
  · intro h hreaches
    -- without memory the clear is reached, and the first mapping fails
    refine (unchanged_iff hsp hpage).mp (h .starved) ?_
    have hreads : ¬ LoadEnv.starved.ReadFails := by
      rintro ⟨_, _, herr⟩
      cases herr
    obtain ⟨f, st₁, hfind, hmm, hspace, -⟩ := exists_of_wp (wp_mono_err
      (@findExecutable_spec lib .starved fs st fuel a)
      (fun _ _ hpost => hreads (hpost.2.2 hreaches)))
    have hlate := @replaceImage_starved lib cfg fs st₁ sp f (by rw [hmm, hspace]; exact hsp)
    obtain ⟨err, st', hrun, hne⟩ := exists_error_of_wp hlate
    cases err with
    | halt => exact absurd rfl hne
    | err code => exact ⟨f, st₁, code, st', hfind, hrun⟩
  · intro hnever env
    refine (unchanged_iff hsp hpage).mpr ?_
    rintro ⟨f, st₁, err, st', hfind, -⟩
    exact hnever (wp_of_run hfind (@findExecutable_spec lib env fs st fuel a)).2.2

end Law

/-! ## §6. Calls that fail early and late. -/

/-- A script and a program that both name a file `/x` that is missing. -/
def execDisk : FileSystem := .ofFiles
  [(['/', 'm'], scriptFile ['/', 'x']), (['/', 'd'], interpFile ['/', 'x'] 3)]

/-- The same with a shell. -/
def shellDisk : FileSystem := .ofFiles [(binSh, segmentFile 0 0)]

/-- A process with a handler for signal 2 and one descriptor. -/
def execCaller : ExecState where
  load := .fresh
  proc := ⟨0, 1, [], [], [], 0x40008000, [(2, 0x10000)], 0, [(3, ⟨7, true⟩)]⟩
  ip := 0x10000
  sp := 0

def execArgs (path : Str) : ExecArgs := ⟨.ok path, .ok [path], .ok []⟩

theorem execCaller_hasPage : HasPage execCaller AddrSpace.onePage := by
  refine ⟨⟨0x10000, 0x11000, by decide, .rw, .alloc 0x10000⟩, ?_, 0x10000, 0, ?_, rfl, by decide⟩
  · exact (AreaSet.mem_insert rfl).mpr (.inl rfl)
  · unfold Area.Has
    decide

/-- The error of a call, and the ranges that are mapped when it is reported. -/
def failure (m : ExecM Nat) (st : ExecState) : Option (AxError × List (List (Nat × Nat))) :=
  match m st with
  | .error (.err e) st' =>
    some (e, st'.load.mm.spaces.map (fun sp => sp.areas.areas.map (fun a => (a.start, a.stop))))
  | _ => none

theorem exists_of_failure {m : ExecM Nat} {st : ExecState} {e : AxError}
    {ranges : List (List (Nat × Nat))} (h : failure m st = some (e, ranges)) :
    ∃ st', m st = .error (.err e) st' ∧ ranges
      = st'.load.mm.spaces.map (fun sp => sp.areas.areas.map (fun a => (a.start, a.stop))) := by
  unfold failure at h
  grind

/-- `execve` of the script `/m`, whose interpreter is missing, and of `/n.sh`, where neither it
nor a shell exists: the caller goes on as it was, whatever else fails. -/
theorem missing_script_interpreter_is_harmless :
    [['/', 'm'], ['/', 'n', '.', 's', 'h']].Forall fun path =>
      (∃ st', sysExecve Elf.elf64 .riscv64 .calm execDisk 3 (execArgs path) execCaller
        = .error (.err .notFound) st')
      ∧ ∀ env err st', sysExecve Elf.elf64 .riscv64 env execDisk 3 (execArgs path) execCaller
        = .error (.err err) st' → Unchanged execCaller st' := by
  have hruns : ∀ path ∈ [['/', 'm'], ['/', 'n', '.', 's', 'h']],
      failure (sysExecve Elf.elf64 .riscv64 .calm execDisk 3 (execArgs path)) execCaller
        = some (.notFound, [[(0x10000, 0x11000)]])
      ∧ ∃ c, lastCall Elf.elf64 execDisk [] 3 (callOf path) = some c
        ∧ ∃ p, c.program = some p ∧ execDisk.resolve p = .error .notFound := by
    intro path hpath
    rcases List.mem_pair.mp hpath with rfl | rfl
    · exact ⟨by decide +kernel, ⟨none, [['/', 'x'], ['/', 'm']]⟩, by decide +kernel, _, rfl, rfl⟩
    · exact ⟨by decide +kernel, ⟨none, [binSh, ['/', 'n', '.', 's', 'h']]⟩, by decide +kernel,
        _, rfl, rfl⟩
  rw [List.forall_iff_forall_mem]
  intro path hpath
  obtain ⟨hfails, c, hlast, p, hprogram, hlost⟩ := hruns path hpath
  obtain ⟨st', hrun, -⟩ := exists_of_failure hfails
  refine ⟨⟨st', hrun⟩, ?_⟩
  refine (failed_execve_changes_nothing_iff AddrSpace.onePage rfl execCaller_hasPage 3
    (execArgs path)).2.mpr ?_
  rintro ⟨-, _, _, _, ⟨⟩, ⟨⟩, -, c', e, tail, hlast', p', hloads, loc, hloc, -⟩
  obtain rfl := Option.some.inj (hlast.symm.trans hlast')
  obtain rfl := Option.some.inj (hprogram.symm.trans hloads.1)
  cases hlost.symm.trans hloc

/-- **A failed `execve` destroys the caller.**  The interpreter of `/d` is missing:
`NotFound` is reported to a process that has only the trampoline left.  The path
`/n.sh` is missing: `NotFound` is reported after the shell was loaded. -/
theorem failed_execve_replaces_the_caller :
    (∃ st', sysExecve Elf.elf64 .riscv64 .calm execDisk 3 (execArgs ['/', 'd']) execCaller
      = .error (.err .notFound) st' ∧ ¬ Unchanged execCaller st')
    ∧ ∃ st', sysExecve Elf.elf64 .riscv64 .calm shellDisk 3 (execArgs ['/', 'n', '.', 's', 'h'])
      execCaller = .error (.err .notFound) st' ∧ ¬ Unchanged execCaller st' := by
  have hruns :
      failure (sysExecve Elf.elf64 .riscv64 .calm execDisk 3 (execArgs ['/', 'd'])) execCaller
        = some (.notFound, [[(0x60001000, 0x60002000)]])
      ∧ failure (sysExecve Elf.elf64 .riscv64 .calm shellDisk 3
        (execArgs ['/', 'n', '.', 's', 'h']))
        execCaller = some (.notFound, [[(0x1000, 0x2000), (0x40000000, 0x40010000),
          (0x60001000, 0x60002000), (0x3fff80000, 0x400000000)]]) := by
    refine ⟨?_, ?_⟩ <;> decide +kernel
  -- the caller had one page at 0x10000
  have hchanged : ∀ (st' : ExecState) (ranges : List (List (Nat × Nat))),
      ranges ≠ [[(0x10000, 0x11000)]] → ranges = st'.load.mm.spaces.map
        (fun sp => sp.areas.areas.map (fun a => (a.start, a.stop))) →
      ¬ Unchanged execCaller st' := by
    intro st' ranges hne hranges hsame
    apply hne
    rw [hranges, hsame.1]
    rfl
  obtain ⟨hlate, hshell⟩ := hruns
  obtain ⟨st₁, hrun₁, hranges₁⟩ := exists_of_failure hlate
  obtain ⟨st₂, hrun₂, hranges₂⟩ := exists_of_failure hshell
  exact ⟨⟨st₁, hrun₁, hchanged st₁ _ (by decide) hranges₁⟩,
    ⟨st₂, hrun₂, hchanged st₂ _ (by decide) hranges₂⟩⟩

end StarryOS.Exec
