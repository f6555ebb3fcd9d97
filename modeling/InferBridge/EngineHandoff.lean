/-
InferBridge/EngineHandoff.lean

The two decisions of `current_engine_lease` (app/engine_handoff_safety.py):
which engine an attempt waits for, and whether that engine is still the
right one once its lock was acquired.  A request repeats attempts until one
of them is conclusive; the world may change at every wait.

`currentEngineLease` runs one request against the list of what its attempts
read.
-/
import Mathlib

namespace InferBridge

variable {ε κ : Type*} [DecidableEq ε] [DecidableEq κ]

omit [DecidableEq ε] in
/-- The engine an attempt waits for: the installed one, or the requested engine itself when
its model is not in the catalog; `none` is `ModelNotLoaded`. -/
def leaseTarget (inCatalog : Bool) (requested : ε) : Option ε → Option ε
  | some engine => some engine
  | none => if inCatalog then none else some requested

/-- The second read of an attempt, made while it holds `lock`: the engine and the lock are
still the current ones. -/
def leaseStable (inCatalog : Bool) (requested current : ε) (lock : κ) (latest : Option ε)
    (latestLock : κ) : Bool :=
  (¬ inCatalog ∧ latest = none ∧ current = requested ∧ latestLock = lock) ∨
    (latest = some current ∧ latestLock = lock)

/-- What one attempt reads before it waits and after it holds the lock. -/
structure LeaseAttempt (ε κ : Type*) where
  inCatalog : Bool
  installed : Option ε
  lock : κ
  inCatalogLater : Bool
  latest : Option ε
  latestLock : κ

/-- The attempt ends with `engine` leased. -/
def LeaseAttempt.Grants (a : LeaseAttempt ε κ) (requested engine : ε) : Prop :=
  leaseTarget a.inCatalog requested a.installed = some engine ∧
    leaseStable a.inCatalogLater requested engine a.lock a.latest a.latestLock = true

/-- The attempt waited for an engine that was replaced meanwhile. -/
def LeaseAttempt.Retries (a : LeaseAttempt ε κ) (requested : ε) : Prop :=
  ∃ engine, leaseTarget a.inCatalog requested a.installed = some engine ∧
    leaseStable a.inCatalogLater requested engine a.lock a.latest a.latestLock = false

inductive LeaseOutcome (ε : Type*) where
  | yielded (engine : ε)
  | notLoaded
  | waiting
deriving DecidableEq, Repr

/-- `current_engine_lease`, given what its attempts read; with no attempt left the request
still waits. -/
def currentEngineLease (requested : ε) : List (LeaseAttempt ε κ) → LeaseOutcome ε
  | [] => .waiting
  | a :: rest =>
    match leaseTarget a.inCatalog requested a.installed with
    | none => .notLoaded
    | some engine =>
      if leaseStable a.inCatalogLater requested engine a.lock a.latest a.latestLock then
        .yielded engine
      else currentEngineLease requested rest

/-- A lease is granted exactly when a granting attempt comes after retries only. -/
theorem currentEngineLease_eq_yielded_iff {requested engine : ε}
    {attempts : List (LeaseAttempt ε κ)} :
    currentEngineLease requested attempts = .yielded engine ↔
      ∃ before a after, attempts = before ++ a :: after ∧
        (∀ b ∈ before, b.Retries requested) ∧ a.Grants requested engine := by
  induction attempts with
  | nil => simp [currentEngineLease]
  | cons a rest ih =>
    rcases e : leaseTarget a.inCatalog requested a.installed with - | target
    · simp only [currentEngineLease, e, reduceCtorEq, false_iff]
      rintro ⟨before, b, after, heq, hretry, hgrant⟩
      cases before with
      | nil =>
        obtain ⟨rfl, rfl⟩ := List.cons.inj heq
        simp [LeaseAttempt.Grants, e] at hgrant
      | cons c before =>
        obtain ⟨rfl, -⟩ := List.cons.inj heq
        obtain ⟨_, htarget, -⟩ := hretry a (by simp)
        simp [e] at htarget
    · cases hs : leaseStable a.inCatalogLater requested target a.lock a.latest a.latestLock with
      | true =>
        simp only [currentEngineLease, e, hs, if_true, LeaseOutcome.yielded.injEq]
        constructor
        · rintro rfl
          exact ⟨[], a, rest, rfl, by simp, e, hs⟩
        · rintro ⟨before, b, after, heq, hretry, hgrant⟩
          cases before with
          | nil =>
            obtain ⟨rfl, rfl⟩ := List.cons.inj heq
            exact Option.some.inj (e.symm.trans hgrant.1)
          | cons c before =>
            obtain ⟨rfl, -⟩ := List.cons.inj heq
            obtain ⟨_, htarget, hunstable⟩ := hretry a (by simp)
            rw [e, Option.some.injEq] at htarget
            subst htarget
            simp [hs] at hunstable
      | false =>
        simp only [currentEngineLease, e, hs, Bool.false_eq_true, if_false, ih]
        constructor
        · rintro ⟨before, b, after, rfl, hretry, hgrant⟩
          refine ⟨a :: before, b, after, rfl, ?_, hgrant⟩
          intro c hc
          rcases List.mem_cons.mp hc with rfl | hc
          · exact ⟨target, e, hs⟩
          · exact hretry c hc
        · rintro ⟨before, b, after, heq, hretry, hgrant⟩
          cases before with
          | nil =>
            obtain ⟨rfl, rfl⟩ := List.cons.inj heq
            obtain ⟨htarget, hstable⟩ := hgrant
            rw [e, Option.some.injEq] at htarget
            subst htarget
            simp [hs] at hstable
          | cons c before =>
            obtain ⟨rfl, rfl⟩ := List.cons.inj heq
            exact ⟨before, b, after, rfl, fun c hc => hretry c (by simp [hc]), hgrant⟩

end InferBridge
