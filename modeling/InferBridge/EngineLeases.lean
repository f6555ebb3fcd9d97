/-
InferBridge/EngineLeases.lean

Leases are safe: while a lease on a catalog model is held, its engine is the
installed one, nobody else closes it, replaces it or removes it, and no
other lease on the model is held.
-/
import InferBridge.EngineSegments

namespace InferBridge

variable {μ δ : Type*}

/-! ### Leases -/

/-- The model and the engine of the lease that a task holds; a rebuild happens under it. -/
def Activity.lease : Activity μ δ → Option (μ × Nat)
  | .request m _ (.leased e) | .request m _ (.rebuilding e) => some (m, e)
  | _ => none

/-- How often the holder of the lease has itself closed the engine. -/
def Activity.ownCloses : Activity μ δ → Nat
  | .request _ _ (.rebuilding _) => 1
  | _ => 0

/-- Task `t` holds a lease that yielded engine `e` for model `m`. -/
def Manager.Leases (s : Manager μ δ) (t : Nat) (m : μ) (e : Nat) : Prop :=
  (s.task t).activity.lease = some (m, e)

variable {cfg : ManagerSettings μ δ} {s s' : Manager μ δ} {t t' e e' : Nat} {m : μ}

/-- A lease on a catalog model holds the installed engine. -/
theorem During.leased (h : Inv cfg False s) (hm : cfg.catalog m = true) (hlease : s.Leases t m e) :
    s.Holds m (s.task t) e (s.task t).activity.ownCloses := by
  unfold Manager.Leases Activity.lease at hlease
  split at hlease
  · next m' requested e' hactivity =>
    obtain ⟨rfl, rfl⟩ : m' = m ∧ e' = e := by simpa using hlease
    have hok := h.request_stage hactivity
    have hholds := hok.2.2.2
    rw [if_pos hm] at hholds
    rw [hactivity]
    exact hholds
  · next m' requested e' hactivity =>
    obtain ⟨rfl, rfl⟩ : m' = m ∧ e' = e := by simpa using hlease
    have hok := h.request_stage hactivity
    rw [hactivity]
    exact hok.2.2.2.2
  · cases hlease

/-- Two leases on a catalog model are one. -/
theorem During.lease_unique (h : Inv cfg False s) (hm : cfg.catalog m = true)
    (hlease : s.Leases t m e) (hlease' : s.Leases t' m e') : t' = t := by
  obtain ⟨-, ⟨l, hl, hlock⟩, -⟩ := h.leased hm hlease
  by_contra hne
  exact h.core.nobody_holds hl hlock hne e' _ (h.leased hm hlease')

/-- Where nothing is ever installed, a lease yields the engine that was asked for. -/
theorem During.leased_unmanaged (h : Inv cfg False s) (hm : cfg.catalog m = false)
    (hlease : s.Leases t m e) : (s.task t).activity = .request m e (.leased e) := by
  unfold Manager.Leases Activity.lease at hlease
  split at hlease
  · next m' requested e' hactivity =>
    obtain ⟨rfl, rfl⟩ : m' = m ∧ e' = e := by simpa using hlease
    have hrequested := (h.request_stage hactivity).2.2.2
    rw [hm] at hrequested
    obtain rfl : e' = requested := hrequested
    exact hactivity
  · next m' requested e' hactivity =>
    obtain ⟨rfl, rfl⟩ : m' = m ∧ e' = e := by simpa using hlease
    have hcatalog := (h.request_stage hactivity).2.2.2.1
    simp [hm] at hcatalog
  · cases hlease

/-! ### Lease safety -/

variable [DecidableEq μ] [DecidableEq δ]

/-- **Lease safety.** In every reachable state the engine that a lease yielded for a catalog
model is the installed one and was closed by nobody but the holder of the lease, which does so
once, to rebuild it; no other lease on the model is held; and no step of another task replaces,
removes or closes the engine.  For any other model nothing is installed, and the lease yields
the engine that was asked for. -/
theorem lease_safe {es : List (Event μ δ)}
    (hrun : Transition.run (Manager.step cfg) Manager.initial es = some s)
    (hlease : s.Leases t m e) :
    if cfg.catalog m then
      s.engines m = some e ∧ (s.engine e).closes = (s.task t).activity.ownCloses ∧
        (∀ t' e', s.Leases t' m e' → t' = t) ∧
        ∀ event s', s.step cfg event = some s' → s'.task t = s.task t →
          s'.engines m = some e ∧ (s'.engine e).closes = (s.engine e).closes
    else s.engines m = none ∧ (s.task t).activity = .request m e (.leased e) := by
  have h := run_inv hrun
  split
  · next hm =>
    obtain ⟨hinstalled, -, hcloses⟩ := h.leased hm hlease
    refine ⟨hinstalled, hcloses, ?_, ?_⟩
    · intro t' e' hlease'
      exact h.lease_unique hm hlease hlease'
    · intro event s' hstep hsame
      -- the lease is still held in `s'`, which is reachable too
      have hlease' : s'.Leases t m e := by
        unfold Manager.Leases
        rwa [hsame]
      obtain ⟨hinstalled', -, hcloses'⟩ := (step_inv h False.elim hstep).leased hm hlease'
      rw [hcloses, hcloses', hsame]
      exact ⟨hinstalled', rfl⟩
  · next hm =>
    have hfalse : cfg.catalog m = false := by simpa using hm
    refine ⟨?_, h.leased_unmanaged hfalse hlease⟩
    rcases ee : s.engines m with - | installed
    · rfl
    · exact absurd (h.core.installed m installed ee).1 hm

/-- The events of a request that leases the engine loaded by task 0. -/
def leaseAfterLoad : List (Event Nat Nat) := loadsOn 0 0 1 ++ [.request 1 0 0, .grantLease 1]

theorem lease_safe_afterLoad : ∃ s : Manager Nat Nat,
    Transition.run (Manager.step oneModel) Manager.initial leaseAfterLoad = some s ∧
      s.engines 0 = some 0 ∧ (s.engine 0).closes = 0 := by
  let s := (Transition.run (Manager.step oneModel) Manager.initial leaseAfterLoad).get (by decide)
  have hrun : Transition.run (Manager.step oneModel) Manager.initial leaseAfterLoad = some s :=
    (Option.some_get _).symm
  have hsafe := lease_safe (t := 1) (m := 0) (e := 0) hrun rfl
  exact ⟨s, hrun, hsafe.1, hsafe.2.1⟩

/-- A lease on an engine whose model is not in the catalog yields an engine that is not
installed. -/
theorem lease_not_installed : ¬ ∀ (es : List (Event Nat Nat)) (s : Manager Nat Nat),
    Transition.run (Manager.step oneModel) Manager.initial es = some s →
      ∀ t m e, s.Leases t m e → s.engines m = some e := by
  intro h
  have hinstalled := h [.createEngine 0, .request 0 1 0, .grantLease 0]
    (Option.get _ (by decide)) (Option.some_get _).symm 0 1 0 rfl
  exact absurd hinstalled (by decide)

end InferBridge
