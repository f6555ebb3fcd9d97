/-
InferBridge/Lib/Returns.lean

Programs that work on a state and may fail: what one returns, and how the
results of two are related.

`Returns x P` says that every value that `x` returns, from any state, has
`P`.  `Related R x y` says that, from any state, `x` and `y` both fail or
return values related by `R`.  There is one rule for each way of building a
program; two programs with a common beginning are related if what follows
it is (`Related.bind_same`).
-/
import Mathlib

variable {σ ε α β : Type}

/-- Every value that `x` returns has `P`. -/
def Returns (x : ExceptT ε (StateM σ) α) (P : α → Prop) : Prop :=
  ∀ s a s', x.run.run s = (.ok a, s') → P a

theorem run_bind_of_run {x : ExceptT ε (StateM σ) α} {s t : σ} {result : Except ε α}
    (h : x.run.run s = (result, t)) (f : α → ExceptT ε (StateM σ) β) :
    (x >>= f).run.run s = match result with
      | .ok a => (f a).run.run t
      | .error e => (.error e, t) := by
  have h' : x s = (result, t) := h
  show (ExceptT.bind x f) s = _
  simp only [ExceptT.bind, ExceptT.mk, Bind.bind, StateT.bind, h']
  cases result <;> rfl

namespace Returns

variable {x : ExceptT ε (StateM σ) α} {f : α → ExceptT ε (StateM σ) β} {P : α → Prop}
variable {Q : β → Prop}

theorem pure {a : α} (h : P a) : Returns (Pure.pure a : ExceptT ε (StateM σ) α) P := by
  intro s b s' hrun
  have hval : (Except.ok a : Except ε α) = .ok b := congrArg Prod.fst hrun
  cases hval
  exact h

theorem throw (e : ε) : Returns (throw e : ExceptT ε (StateM σ) α) P := by
  intro s b s' hrun
  have hval : (Except.error e : Except ε α) = .ok b := congrArg Prod.fst hrun
  cases hval

theorem bind (hx : Returns x P) (hf : ∀ a, P a → Returns (f a) Q) : Returns (x >>= f) Q := by
  intro s b s' hrun
  rcases hfirst : x.run.run s with ⟨result, t⟩
  rw [run_bind_of_run hfirst f] at hrun
  cases result with
  | ok a => exact hf a (hx s a t hfirst) t b s' hrun
  | error e =>
    have hval := congrArg Prod.fst hrun
    cases hval

theorem trivial : Returns x fun _ => True := fun _ _ _ _ => True.intro

theorem ofExcept {r : Except ε α} (h : ∀ a, r = .ok a → P a) :
    Returns (MonadExcept.ofExcept r : ExceptT ε (StateM σ) α) P := by
  cases r with
  | ok a => exact pure (h a rfl)
  | error e => exact throw e

end Returns

/-- From any state, both fail or both return, values related by `R`. -/
def Related (R : α → β → Prop) (x : ExceptT ε (StateM σ) α) (y : ExceptT ε (StateM σ) β) : Prop :=
  ∀ s, match (x.run.run s).1, (y.run.run s).1 with
    | .ok a, .ok b => R a b
    | .error _, .error _ => True
    | _, _ => False

namespace Related

variable {γ : Type} {R : α → β → Prop}

theorem pure {a : α} {b : β} (h : R a b) :
    Related R (Pure.pure a : ExceptT ε (StateM σ) α) (Pure.pure b) := fun _ => h

theorem throw (e e' : ε) : Related R (throw e : ExceptT ε (StateM σ) α) (throw e') :=
  fun _ => True.intro

/-- A common beginning. -/
theorem bind_same {p : ExceptT ε (StateM σ) γ} {f : γ → ExceptT ε (StateM σ) α}
    {g : γ → ExceptT ε (StateM σ) β} {P : γ → Prop} (hp : Returns p P)
    (h : ∀ c, P c → Related R (f c) (g c)) : Related R (p >>= f) (p >>= g) := by
  intro s
  rcases hfirst : p.run.run s with ⟨result, t⟩
  rw [run_bind_of_run hfirst f, run_bind_of_run hfirst g]
  cases result with
  | ok c => exact h c (hp s c t hfirst) t
  | error e => exact True.intro

/-- Checks that pass together. -/
theorem bind_check {v w : Except ε Unit} {f : Unit → ExceptT ε (StateM σ) α}
    {g : Unit → ExceptT ε (StateM σ) β} (hvw : v = .ok () ↔ w = .ok ())
    (h : Related R (f ()) (g ())) :
    Related R (MonadExcept.ofExcept v >>= f) (MonadExcept.ofExcept w >>= g) := by
  rcases v with e | ⟨⟩
  · rcases w with e' | ⟨⟩
    · exact fun _ => True.intro
    · cases hvw.mpr rfl
  · rcases w with e' | ⟨⟩
    · cases hvw.mp rfl
    · exact h

/-- A handler that only raises other errors. -/
theorem tryCatch {x : ExceptT ε (StateM σ) α} {y : ExceptT ε (StateM σ) β} {rename : ε → ε}
    (h : Related R x y) : Related R x (tryCatch y fun e => MonadExcept.throw (rename e)) := by
  intro s
  have hs := h s
  rcases hy : y.run.run s with ⟨result, t⟩
  have hcatch : (MonadExcept.tryCatch y fun e => MonadExcept.throw (rename e)).run.run s =
      (match result with
        | .ok b => .ok b
        | .error e => .error (rename e), t) := by
    have hy' : y s = (result, t) := hy
    show (ExceptT.tryCatch y _) s = _
    simp only [ExceptT.tryCatch, ExceptT.mk, Bind.bind, StateT.bind, hy']
    cases result <;> rfl
  rw [hcatch]
  rw [hy] at hs
  cases result with
  | ok b => exact hs
  | error e =>
    rcases hx : (x.run.run s).1 with e' | a
    · exact True.intro
    · rw [hx] at hs
      exact hs

end Related
