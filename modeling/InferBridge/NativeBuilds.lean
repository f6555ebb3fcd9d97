/-
InferBridge/NativeBuilds.lean

Native builds and cancellation.  A build runs in a worker thread that cannot
be interrupted, so a load task that is cancelled while it builds waits for
the worker, closes the engine and only then lets the cancellation through.

Main results.  As long as no second cancellation arrives during that wait,
no build is orphaned: while it runs its task holds the load lock, and once
build and task have ended the engine is installed or was closed exactly once
(`noOrphans_of_spared`).  A second cancellation does orphan the build
(`orphaned_by_second_cancel`).
-/
import InferBridge.EngineSegments

namespace InferBridge

variable {μ δ : Type*}

/-- The load task has run to its end. -/
def Task.loadEnded (k : Task μ δ) : Bool :=
  match k.activity with
  | .load _ _ .finished | .load _ _ .returned => true
  | _ => false

def Task.isLoad (k : Task μ δ) : Bool :=
  match k.activity with
  | .load _ _ _ => true
  | _ => false

/-- The native builds that load tasks have started are under control. -/
structure Manager.NoOrphans (s : Manager μ δ) : Prop where
  /-- The load lock is held while a build that was started under it runs. -/
  locked : ∀ e t, (s.engine e).builder = some t → (s.task t).isLoad = true →
    (s.engine e).build = .running → s.loadLock = some t
  /-- Once build and task have ended, the engine is installed or was closed. -/
  settled : ∀ e t, (s.engine e).builder = some t → (s.task t).loadEnded = true →
    (s.engine e).build = .built → (∃ m, s.engines m = some e) ∨ (s.engine e).closes = 1
  once : ∀ e, (s.engine e).closes ≤ 1

variable {cfg : ManagerSettings μ δ} {s : Manager μ δ} {t : Nat}

/-- A load task that waits for a build holds the load lock. -/
theorem During.builds_locked (h : Inv cfg True s) {e : Nat} (hload : (s.task t).isLoad = true)
    (hfuture : (s.task t).future = some e) : (s.task t).loadLock = true := by
  unfold Task.isLoad at hload
  split at hload
  · next m current stage hactivity =>
    obtain ⟨-, hok, -⟩ := h.load_stage hactivity
    cases stage with
    | building => exact hok.1
    | settling => exact hok.1
    | gotLoadLock => exact hok.1
    | converting => exact hok.1
    | waitHandoff previous l => exact hok.1
    | gotHandoff previous l => exact hok.1
    | queued => simp [hok.2.2.1] at hfuture
    | waitLoadLock => simp [hok.2.2.1] at hfuture
    | finished => simp [hok.2.2.1] at hfuture
    | returned => simp [hok.2.2.1] at hfuture
  · cases hload

/-- A load task that has ended holds nothing. -/
theorem During.ended_idle (h : Inv cfg True s) (hended : (s.task t).loadEnded = true) :
    (s.task t).Idle := by
  unfold Task.loadEnded at hended
  split at hended
  · next m current hactivity => exact (h.load_stage hactivity).2.1
  · next m current hactivity => exact (h.load_stage hactivity).2.1
  · cases hended

variable [DecidableEq μ] [DecidableEq δ]

/-- **No orphaned builds.** In every run in which no load task is cancelled while it already
waits for its build after a cancellation, unless that build has failed, and no stuck generation
has its engine quarantined, the native builds are under control in every state reached. -/
theorem noOrphans_of_spared {es : List (Event μ δ)}
    (hspared : Transition.meets (Manager.step cfg) sparesBuilds Manager.initial es = true)
    (hrun : Transition.run (Manager.step cfg) Manager.initial es = some s) : s.NoOrphans := by
  have h := run_tracked hspared hrun
  have htracked := h.tracked trivial
  refine ⟨?_, ?_, h.core.once⟩
  · intro e t hbuilder hload hrunning
    have hfuture := htracked.running e t hbuilder hrunning
    exact (h.core.loadLock t).mpr (h.builds_locked hload hfuture)
  · intro e t hbuilder hended hbuilt
    obtain ⟨-, -, hfuture, hreplacement⟩ := h.ended_idle hended
    rcases htracked.built e t hbuilder hbuilt with hwaits | hholds | hrest
    · simp [hfuture] at hwaits
    · simp [hreplacement] at hholds
    · exact hrest

/-- A load task is cancelled once while it builds, and waits. -/
def cancelledOnce : List (Event Nat Nat) :=
  [.scheduleLoad 0 0 (some 1), .startLoad 0 .downloaded, .grantLoadLock 0,
    .resumeLoad 0 .downloaded .downloaded, .cancel 0]

theorem noOrphans_of_spared_cancelledOnce : ∃ s : Manager Nat Nat,
    Transition.run (Manager.step oneModel) Manager.initial
      (cancelledOnce ++ [.endBuild 0 (some 1), .resumeLoad 0 .downloaded .downloaded]) = some s ∧
        s.NoOrphans ∧ (s.engine 0).closes = 1 := by
  have hends : (Transition.run (Manager.step oneModel) Manager.initial
      (cancelledOnce ++ [.endBuild 0 (some 1), .resumeLoad 0 .downloaded .downloaded])).isSome =
        true := by decide
  have hrun := (Option.some_get hends).symm
  exact ⟨_, hrun, noOrphans_of_spared (by decide) hrun, rfl⟩

/-- A second cancellation, say of the shutdown after one of the preparation watchdog, ends the
task and frees the load lock while the build still runs. -/
theorem orphaned_by_second_cancel : ¬ ∀ (es : List (Event Nat Nat)) (s : Manager Nat Nat),
    (∀ t, .endGeneration t .stuck ∉ es) →
      Transition.run (Manager.step oneModel) Manager.initial es = some s → s.NoOrphans := by
  intro h
  have horphans := h (cancelledOnce ++ [.cancel 0]) (Option.get _ (by decide))
    (by simp [cancelledOnce]) (Option.some_get _).symm
  exact absurd (horphans.locked 0 0 rfl rfl rfl) (by decide)

end InferBridge
