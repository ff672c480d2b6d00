/-
  StarryOS.Lib.Program — WEAKEST PRECONDITIONS for programs with a state and error
  exits.

  A program is an `EStateM ε σ α`: it ends with a value or with an error, and
  the state it leaves behind is kept IN BOTH CASES, as in code that returns
  early through `?` after it has already changed something.

  `wp m s Q E` says how `m` ends when it starts in `s`: in `Q` when it returns
  and in `E` when it fails.
-/
import Mathlib.Algebra.Order.Ring.Nat
import Mathlib.Logic.Basic

namespace StarryOS.Lib

variable {ε σ α β : Type}

/-- `m`, started in `s`, returns into `Q` or fails into `E`. -/
def wp (m : EStateM ε σ α) (s : σ) (Q : α → σ → Prop) (E : ε → σ → Prop) : Prop :=
  match m s with
  | .ok a s' => Q a s'
  | .error e s' => E e s'

/-- Both exits of `m`, started in `s`, lead into `P`. -/
def ends (m : EStateM ε σ α) (s : σ) (P : σ → Prop) : Prop :=
  wp m s (fun _ s' => P s') (fun _ s' => P s')

/-- The state that `m` leaves behind, whether or not it failed. -/
def stateAfter (m : EStateM ε σ α) (s : σ) : σ :=
  match m s with
  | .ok _ s' => s'
  | .error _ s' => s'

/-- No error exit is taken. -/
def NoError : ε → σ → Prop := fun _ _ => False

variable {m : EStateM ε σ α} {s : σ} {Q Q' : α → σ → Prop} {E : ε → σ → Prop}

variable {E' : ε → σ → Prop}

/-- **The consequence rule.** -/
theorem wp_mono (h : wp m s Q E) (hQ : ∀ a s', Q a s' → Q' a s')
    (hE : ∀ e s', E e s' → E' e s') : wp m s Q' E' := by
  unfold wp at h ⊢
  grind

theorem wp_trivial (m : EStateM ε σ α) (s : σ) : wp m s (fun _ _ => True) (fun _ _ => True) := by
  unfold wp
  cases m s with
  | ok _ _ => trivial
  | error _ _ => trivial

theorem wp_mono_err (h : wp m s Q E) (hE : ∀ e s', E e s' → E' e s') : wp m s Q E' :=
  wp_mono h (fun _ _ => id) hE

theorem wp_mono_ok (h : wp m s Q E) (hQ : ∀ a s', Q a s' → Q' a s') : wp m s Q' E :=
  wp_mono h hQ (fun _ _ => id)

theorem wp_of_forall (hQ : ∀ a s', Q a s') (hE : ∀ e s', E e s') : wp m s Q E := by
  unfold wp
  split
  next a s' _ => exact hQ a s'
  next e s' _ => exact hE e s'

/-- A program that meets a specification without errors returns. -/
theorem exists_of_wp (h : wp m s Q NoError) : ∃ a s', m s = .ok a s' ∧ Q a s' := by
  unfold wp at h
  split at h
  next a s' he => exact ⟨a, s', he, h⟩
  · exact h.elim

theorem exists_error_of_wp (h : wp m s (fun _ _ => False) E) :
    ∃ e s', m s = .error e s' ∧ E e s' := by
  unfold wp at h
  split at h
  · exact h.elim
  next e s' he => exact ⟨e, s', he, h⟩

/-- What a specification says about a run that returned. -/
theorem wp_of_run {s' : σ} {a : α} (h : m s = .ok a s') (hwp : wp m s Q E) : Q a s' := by
  unfold wp at hwp
  rw [h] at hwp
  exact hwp

theorem wp_of_error {s' : σ} {e : ε} (h : m s = .error e s') (hwp : wp m s Q E) : E e s' := by
  unfold wp at hwp
  rw [h] at hwp
  exact hwp

theorem wp_and (h : wp m s Q E) (h' : wp m s Q' E') :
    wp m s (fun a s' => Q a s' ∧ Q' a s') (fun e s' => E e s' ∧ E' e s') := by
  unfold wp at h h' ⊢
  grind

/-- A check of the result of `m`, where it returns. -/
def after (m : EStateM ε σ α) (s : σ) (c : α → σ → Bool) : Bool :=
  match m s with
  | .ok a s' => c a s'
  | .error _ _ => true

theorem after_of_wp {c : α → σ → Bool} (h : wp m s (fun a s' => c a s' = true) E) :
    after m s c = true := by
  unfold wp at h
  unfold after
  split
  next he =>
    rw [he] at h
    exact h
  · rfl

theorem wp_after {c : α → σ → Bool} (hc : after m s c = true) (h : wp m s Q E) :
    wp m s (fun a s' => Q a s' ∧ c a s' = true) E := by
  unfold wp at h ⊢
  unfold after at hc
  grind

/-- What holds at both exits holds of the state left behind. -/
theorem stateAfter_of_ends {P : σ → Prop} (h : ends m s P) : P (stateAfter m s) := by
  unfold ends wp at h
  unfold stateAfter
  revert h
  cases m s with
  | ok a s' | error e s' => exact fun h => h

@[simp] theorem wp_pure (a : α) (s : σ) (Q : α → σ → Prop) (E : ε → σ → Prop) :
    wp (pure a : EStateM ε σ α) s Q E ↔ Q a s := Iff.rfl

@[simp] theorem wp_throw (e : ε) (s : σ) (Q : α → σ → Prop) (E : ε → σ → Prop) :
    wp (throw e : EStateM ε σ α) s Q E ↔ E e s := Iff.rfl

@[simp] theorem wp_bind (m : EStateM ε σ α) (f : α → EStateM ε σ β) (s : σ)
    (Q : β → σ → Prop) (E : ε → σ → Prop) :
    wp (m >>= f) s Q E ↔ wp m s (fun a s' => wp (f a) s' Q E) E := by
  unfold wp
  show (match EStateM.bind m f s with | .ok a s' => Q a s' | .error e s' => E e s') ↔ _
  unfold EStateM.bind
  cases m s <;> exact Iff.rfl

variable {f : α → EStateM ε σ β}

/-- A specification of the first part, then the second from where it ends. -/
theorem wp_seq {R : β → σ → Prop} (h : wp m s Q E)
    (hf : ∀ a s', Q a s' → wp (f a) s' R E) : wp (m >>= f) s R E := by
  rw [wp_bind]
  exact wp_mono_ok h hf

@[simp] theorem wp_get (s : σ) (Q : σ → σ → Prop) (E : ε → σ → Prop) :
    wp (get : EStateM ε σ σ) s Q E ↔ Q s s := Iff.rfl

@[simp] theorem wp_set (t s : σ) (Q : PUnit → σ → Prop) (E : ε → σ → Prop) :
    wp (set t : EStateM ε σ PUnit) s Q E ↔ Q ⟨⟩ t := Iff.rfl

@[simp] theorem wp_modify (f : σ → σ) (s : σ) (Q : PUnit → σ → Prop) (E : ε → σ → Prop) :
    wp (modify f : EStateM ε σ PUnit) s Q E ↔ Q ⟨⟩ (f s) := Iff.rfl

@[simp] theorem wp_modifyGet (f : σ → α × σ) (s : σ) (Q : α → σ → Prop) (E : ε → σ → Prop) :
    wp (modifyGet f : EStateM ε σ α) s Q E ↔ Q (f s).1 (f s).2 := Iff.rfl

/-- A handler starts in the state in which the program failed. -/
@[simp] theorem wp_tryCatch (m : EStateM ε σ α) (handle : ε → EStateM ε σ α) (s : σ)
    (Q : α → σ → Prop) (E : ε → σ → Prop) :
    wp (tryCatch m handle) s Q E ↔ wp m s Q (fun e s' => wp (handle e) s' Q E) := by
  unfold wp
  show (match EStateM.tryCatch m handle s with | .ok a s' => Q a s' | .error e s' => E e s') ↔ _
  unfold EStateM.tryCatch
  cases m s <;> exact Iff.rfl

variable {n : EStateM ε σ α}

theorem wp_ite {c : Prop} [Decidable c] (hm : c → wp m s Q E)
    (hn : ¬c → wp n s Q E) : wp (if c then m else n) s Q E := by
  split
  next h => exact hm h
  next h => exact hn h

/-- An early exit, in front of the rest. -/
theorem wp_exit {c : Prop} [Decidable c] {m₁ m₂ : EStateM ε σ α} (h₁ : wp m₁ s Q E)
    (h₂ : ¬ c → wp m₂ s Q E) : wp (if c then m₁ else m₂) s Q E :=
  wp_ite (fun _ => h₁) h₂

/-! ## What a program keeps. -/

/-- `P`, where it held at the start, holds at both exits. -/
def Preserves (P : σ → Prop) (m : EStateM ε σ α) : Prop := ∀ s, P s → ends m s P

section Preserves

variable {P : σ → Prop}

theorem Preserves.bind {m : EStateM ε σ α} (hm : Preserves P m)
    (hf : ∀ a, Preserves P (f a)) : Preserves P (m >>= f) := by
  intro s h
  exact wp_seq (hm s h) hf

theorem Preserves.pure (a : α) : Preserves P (Pure.pure a : EStateM ε σ α) := fun _ h => h

theorem Preserves.throw (e : ε) : Preserves P (throw e : EStateM ε σ α) := fun _ h => h

theorem Preserves.get : Preserves P (get : EStateM ε σ σ) := fun _ h => h

theorem Preserves.modify {f : σ → σ} (hf : ∀ s, P s → P (f s)) :
    Preserves P (modify f : EStateM ε σ PUnit) := hf

theorem Preserves.ite {c : Prop} [Decidable c] {m : EStateM ε σ α} (hm : Preserves P m)
    (hn : Preserves P n) : Preserves P (if c then m else n) := by
  split
  · exact hm
  · exact hn

end Preserves

/-! ## What a program keeps, with its error exits known. -/

/-- `P`, where it held at the start, holds at both exits, and an error exit is
one of `X`. -/
def Keeps (P : σ → Prop) (X : ε → Prop) (m : EStateM ε σ α) : Prop :=
  ∀ s, P s → wp m s (fun _ s' => P s') (fun e s' => X e ∧ P s')

section Keeps

variable {P : σ → Prop} {X : ε → Prop}

variable {m : EStateM ε σ α}

theorem Keeps.wp {s : σ} {Q : α → σ → Prop} {E : ε → σ → Prop} (h : Keeps P X m) (hs : P s)
    (hQ : ∀ a s', P s' → Q a s') (hE : ∀ e s', X e → P s' → E e s') : Lib.wp m s Q E :=
  wp_mono (h s hs) hQ (fun e s' he => hE e s' he.1 he.2)

theorem Keeps.bind (hm : Keeps P X m) (hf : ∀ a, Keeps P X (f a)) : Keeps P X (m >>= f) := by
  intro s h
  rw [wp_bind]
  exact hm.wp h hf (fun _ _ hx h' => ⟨hx, h'⟩)

theorem Keeps.pure (a : α) : Keeps P X (Pure.pure a : EStateM ε σ α) := fun _ h => h

theorem Keeps.throw {e : ε} (he : X e) : Keeps P X (throw e : EStateM ε σ α) :=
  fun _ h => ⟨he, h⟩

theorem Keeps.ite {c : Prop} [Decidable c] (hm : Keeps P X m) (hn : Keeps P X n) :
    Keeps P X (if c then m else n) := by
  split
  · exact hm
  · exact hn

end Keeps

/-- A sequence without a state succeeds if both parts do. -/
theorem bind_eq_ok {x : Except ε α} {f : α → Except ε β} {b : β} :
    (x >>= f) = .ok b ↔ ∃ a, x = .ok a ∧ f a = .ok b := by
  cases x with
  | error e => exact ⟨fun h => (nomatch h), fun ⟨_, h, _⟩ => (nomatch h)⟩
  | ok a => exact ⟨fun h => ⟨a, rfl, h⟩, fun ⟨_, h, hf⟩ => by cases h; exact hf⟩

theorem toOption_eq_some {x : Except ε α} {a : α} (h : x.toOption = some a) : x = .ok a := by
  cases x with
  | error e => cases h
  | ok b =>
    cases h
    rfl

end StarryOS.Lib
