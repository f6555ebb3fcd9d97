/-
InferBridge/EngineSegments.lean

Every segment of the engine lifecycle keeps the invariant: one lemma for
each function of the source, `step_inv` for one event, `run_inv` for a run.
-/
import InferBridge.EngineInvariant
import InferBridge.Lib.Transition

namespace InferBridge

variable {μ δ : Type*} {cfg : ManagerSettings μ δ} {s s' : Manager μ δ} {t : Nat}

/-! ### Load tasks -/

section
variable [DecidableEq μ] {m : μ} {current : δ}

omit [DecidableEq μ] in
@[simp] theorem Manager.closeReplacement_engines : (s.closeReplacement t).engines = s.engines := by
  unfold Manager.closeReplacement
  split <;> rfl

omit [DecidableEq μ] in
@[simp] theorem Manager.releaseLock_engines : (s.releaseLock t).engines = s.engines := by
  unfold Manager.releaseLock
  split <;> rfl

omit [DecidableEq μ] in
@[simp] theorem Manager.releaseLoadLock_engines : (s.releaseLoadLock t).engines = s.engines := by
  unfold Manager.releaseLoadLock
  split <;> rfl

omit [DecidableEq μ] in
@[simp] theorem Manager.leaveLoad_task : (s.leaveLoad t).task t =
    { s.task t with loadLock := false, lock := none, replacement := none } := by
  simp [Manager.leaveLoad]

omit [DecidableEq μ] in
@[simp] theorem Manager.leaveLoad_engines : (s.leaveLoad t).engines = s.engines := by
  simp [Manager.leaveLoad]

omit [DecidableEq μ] in
theorem During.leaveLoad (h : During cfg strict s (some t)) : During cfg strict (s.leaveLoad t) (some t) :=
  h.closeReplacement.releaseLock.releaseLoadLock

omit [DecidableEq μ] in
/-- A task that waits for no build holds nothing once it has left. -/
theorem Manager.leaveLoad_idle (hfuture : (s.task t).future = none) :
    ((s.leaveLoad t).task t).Idle := by
  simp [Task.Idle, hfuture]

omit [DecidableEq μ] in
theorem Task.Quiet.of_activity {k k' : Task μ δ} (h : k.Quiet)
    (hsame : k'.activity = k.activity) : k'.Quiet := by
  unfold Task.Quiet
  rwa [hsame]

theorem During.finishLoad (h : During cfg strict s (some t)) (hquiet : (s.task t).Quiet)
    (hm : cfg.catalog m = true) (hidle : (s.task t).Idle) : Inv cfg strict (s.finishLoad t m current) := by
  have harrive : Inv cfg strict (s.goTo t (.load m current .finished)) :=
    h.arrive hquiet ⟨hm, hidle⟩
  exact harrive.note _ _ _

theorem During.failLoad (h : During cfg strict s (some t)) (hquiet : (s.task t).Quiet)
    (hm : cfg.catalog m = true) (hidle : (s.task t).Idle) : Inv cfg strict (s.failLoad t m current) := by
  unfold Manager.failLoad
  rcases ee : s.engines m with - | e
  · exact (h.popLock ee).finishLoad hquiet hm hidle
  · exact h.finishLoad hquiet hm hidle

variable [DecidableEq δ]

theorem During.loopTop (h : During cfg strict s (some t)) (hquiet : (s.task t).Quiet)
    (hm : cfg.catalog m = true) (hidle : (s.task t).Idle) (inspection : Manager.Inspection) :
    Inv cfg strict (s.loopTop cfg t m current inspection) := by
  unfold Manager.loopTop
  have hwait : Inv cfg strict (s.goTo t (.load m (s.latestTarget m current) .waitLoadLock)) :=
    h.arrive hquiet ⟨hm, hidle⟩
  dsimp only
  split
  · exact h.finishLoad hquiet hm hidle
  · cases inspection with
    | unavailable => exact h.failLoad hquiet hm hidle
    | missing =>
      dsimp only
      split
      · exact hwait
      · exact h.failLoad hquiet hm hidle
    | downloaded => exact hwait

/-- A retargeted task leaves and starts over. -/
theorem During.unlessRetargeted (h : During cfg strict s (some t)) (hquiet : (s.task t).Quiet)
    (hm : cfg.catalog m = true) (hfuture : (s.task t).future = none)
    (inspection : Manager.Inspection) {goOn : Manager μ δ} (hgoOn : Inv cfg strict goOn) :
    Inv cfg strict (s.unlessRetargeted cfg t m current inspection goOn) := by
  unfold Manager.unlessRetargeted
  split
  · exact hgoOn
  · apply h.leaveLoad.loopTop _ hm (Manager.leaveLoad_idle hfuture)
    exact hquiet.of_activity (by simp)

theorem During.compile (h : During cfg strict s (some t)) (hquiet : (s.task t).Quiet)
    (hm : cfg.catalog m = true) (hholds : (s.task t).HoldsLoadLock)
    (inspection : Manager.Inspection) : Inv cfg strict (s.compile cfg t m current inspection) := by
  obtain ⟨hload, hlock, hfuture, hreplacement⟩ := hholds
  apply h.unlessRetargeted hquiet hm hfuture inspection
  apply (h.startBuild (some current) hfuture hreplacement).arrive
  · exact hquiet.of_activity (by simp [Manager.startBuild])
  · refine ⟨hm, ?_⟩
    simp [LoadOk, Task.Builds, Manager.startBuild, hload, hlock, hreplacement]

theorem During.afterLoadLock (h : During cfg strict s (some t)) (hquiet : (s.task t).Quiet)
    (hm : cfg.catalog m = true) (hholds : (s.task t).HoldsLoadLock)
    (inspection : Manager.Inspection) : Inv cfg strict (s.afterLoadLock cfg t m current inspection) := by
  have hfuture := hholds.2.2.1
  have hquiet' : ((s.leaveLoad t).task t).Quiet := hquiet.of_activity (by simp)
  apply h.unlessRetargeted hquiet hm hfuture inspection
  split
  · exact h.leaveLoad.finishLoad hquiet' hm (Manager.leaveLoad_idle hfuture)
  · cases inspection with
    | unavailable => exact h.leaveLoad.failLoad hquiet' hm (Manager.leaveLoad_idle hfuture)
    | missing => exact h.arrive hquiet ⟨hm, hholds⟩
    | downloaded => exact h.compile hquiet hm hholds .downloaded

theorem During.afterConversion (h : During cfg strict s (some t)) (hquiet : (s.task t).Quiet)
    (hm : cfg.catalog m = true) (hholds : (s.task t).HoldsLoadLock)
    (first again : Manager.Inspection) :
    Inv cfg strict (s.afterConversion cfg t m current first again) := by
  have hfail : Inv cfg strict ((s.leaveLoad t).failLoad t m current) := by
    apply h.leaveLoad.failLoad _ hm (Manager.leaveLoad_idle hholds.2.2.1)
    exact hquiet.of_activity (by simp)
  cases first with
  | downloaded => exact h.compile hquiet hm hholds again
  | missing => exact hfail
  | unavailable => exact hfail

/-- The handoff: there is no engine, or the task holds the lock of the one it replaces. -/
theorem During.completeHandoff (h : During cfg strict s (some t)) (hquiet : (s.task t).Quiet)
    (hm : cfg.catalog m = true) (hfuture : (s.task t).future = none)
    (hreplacement : (s.task t).replacement ≠ none)
    (hlock : ∀ e, s.engines m = some e → ∃ l, s.locks m = some l ∧ (s.task t).lock = some l)
    (inspection : Manager.Inspection) :
    Inv cfg strict (s.completeHandoff cfg t m current (s.engines m) inspection) := by
  apply h.unlessRetargeted hquiet hm hfuture inspection
  apply (h.install hm hreplacement hlock hquiet).leaveLoad.finishLoad _ hm
  · exact Manager.leaveLoad_idle (by simp [hfuture])
  · exact hquiet.of_activity (by simp)

theorem During.handoff (h : During cfg strict s (some t)) (hquiet : (s.task t).Quiet)
    (hm : cfg.catalog m = true) (hload : (s.task t).loadLock = true)
    (hlock : (s.task t).lock = none) (hfuture : (s.task t).future = none)
    (hreplacement : (s.task t).replacement ≠ none) (inspection : Manager.Inspection) :
    Inv cfg strict (s.handoff cfg t m current inspection) := by
  unfold Manager.handoff
  rcases ee : s.engines m with - | previous
  · have hcomplete : Inv cfg strict (s.completeHandoff cfg t m current (s.engines m) inspection) :=
      h.completeHandoff hquiet hm hfuture hreplacement (by simp [ee]) inspection
    rwa [ee] at hcomplete
  · apply (h.getLock m).arrive
    · exact hquiet.of_activity (by simp)
    · exact ⟨hm, by simp [LoadOk, hload, hlock, hfuture, hreplacement]⟩

theorem During.afterHandoffLock (h : During cfg strict s (some t)) (hquiet : (s.task t).Quiet)
    (hm : cfg.catalog m = true) (hload : (s.task t).loadLock = true) {previous l : Nat}
    (hlock : (s.task t).lock = some l) (hfuture : (s.task t).future = none)
    (hreplacement : (s.task t).replacement ≠ none) (inspection : Manager.Inspection) :
    Inv cfg strict (s.afterHandoffLock cfg t m current previous l inspection) := by
  unfold Manager.afterHandoffLock
  have hlater := h.getLock m
  have hlocks := Manager.getLock_locks (s := s) m
  have htask := Manager.getLock_task (s := s) m
  generalize s.getLock m = later at *
  obtain ⟨later, latestLock⟩ := later
  dsimp only at *
  rw [← htask] at hquiet hload hlock hfuture hreplacement
  split
  · next hstable =>
    obtain ⟨hprevious, rfl⟩ := hstable
    have hcomplete : Inv cfg strict
        (later.completeHandoff cfg t m current (later.engines m) inspection) :=
      hlater.completeHandoff hquiet hm hfuture hreplacement
        (fun e _ => ⟨latestLock, hlocks, hlock⟩) inspection
    rwa [hprevious] at hcomplete
  · apply hlater.releaseLock.handoff _ hm
    · simpa using hload
    · simp
    · simpa using hfuture
    · simpa using hreplacement
    · exact hquiet.of_activity (by simp)

omit [DecidableEq μ] [DecidableEq δ] in
/-- The build that a task waits for, where it waits for one. -/
theorem Manager.awaited_eq {e : Nat} (hfuture : (s.task t).future = some e) :
    s.awaited t = (s.engine e).build := by
  simp [Manager.awaited, hfuture]

omit [DecidableEq μ] [DecidableEq δ] in
/-- Take the engine that a task has waited for. -/
theorem During.take (h : During cfg strict s (some t)) (hbuilt : s.awaited t = .built)
    (hreplacement : (s.task t).replacement = none) :
    During cfg strict (s.takeFuture t) (some t) := by
  apply h.takeFuture _ hreplacement
  intro e hfuture hrunning
  rw [Manager.awaited_eq hfuture, hrunning] at hbuilt
  cases hbuilt

omit [DecidableEq μ] [DecidableEq δ] in
/-- Leave a build that has failed. -/
theorem During.drop (h : During cfg strict s (some t))
    (hfailed : strict → s.awaited t = .failed) : During cfg strict (s.dropFuture t) (some t) := by
  apply h.dropFuture
  intro hs e hfuture
  rw [← Manager.awaited_eq hfuture]
  exact hfailed hs

theorem During.afterBuild (h : During cfg strict s (some t)) (hquiet : (s.task t).Quiet)
    (hm : cfg.catalog m = true) (hbuilds : (s.task t).Builds) {inspection : Manager.Inspection}
    (hstep : s.afterBuild cfg t m current (s.awaited t) inspection = some s') :
    Inv cfg strict s' := by
  obtain ⟨hload, hlock, hfuture, hreplacement⟩ := hbuilds
  rcases eb : s.awaited t with - | - | - | - <;> rw [eb] at hstep
  case built =>
    obtain rfl := Option.some.inj hstep
    have htake := h.take eb hreplacement
    have hquiet' : ((s.takeFuture t).task t).Quiet :=
      hquiet.of_activity (by simp [Manager.takeFuture])
    apply htake.unlessRetargeted hquiet' hm (by simp [Manager.takeFuture])
    apply htake.handoff hquiet' hm
    · simpa [Manager.takeFuture] using hload
    · simpa [Manager.takeFuture] using hlock
    · simp [Manager.takeFuture]
    · simpa [Manager.takeFuture] using hfuture
  case failed =>
    obtain rfl := Option.some.inj hstep
    apply (h.drop fun _ => eb).leaveLoad.failLoad _ hm
      (Manager.leaveLoad_idle (by simp [Manager.dropFuture]))
    exact hquiet.of_activity (by simp [Manager.dropFuture])
  case absent => cases hstep
  case running => cases hstep

omit [DecidableEq δ] in
theorem During.settle (h : During cfg strict s (some t)) (hquiet : (s.task t).Quiet)
    (hm : cfg.catalog m = true) (hbuilds : (s.task t).Builds)
    (hstep : s.settle t m current (s.awaited t) = some s') : Inv cfg strict s' := by
  rcases eb : s.awaited t with - | - | - | - <;> rw [eb] at hstep
  case built =>
    obtain rfl := Option.some.inj hstep
    apply (h.take eb hbuilds.2.2.2).closeReplacement.leaveLoad.finishLoad _ hm
      (Manager.leaveLoad_idle (by simp [Manager.takeFuture]))
    exact hquiet.of_activity (by simp [Manager.takeFuture])
  case failed =>
    obtain rfl := Option.some.inj hstep
    apply (h.drop fun _ => eb).leaveLoad.finishLoad _ hm
      (Manager.leaveLoad_idle (by simp [Manager.dropFuture]))
    exact hquiet.of_activity (by simp [Manager.dropFuture])
  case absent => cases hstep
  case running => cases hstep

omit [DecidableEq δ] in
theorem During.cancelLoad (h : During cfg strict s (some t)) (hquiet : (s.task t).Quiet)
    (hm : cfg.catalog m = true) {stage : LoadStage} (hstage : LoadOk (s.task t) stage)
    (hspared : strict → stage = .settling → s.awaited t = .failed)
    (hstep : s.cancelLoad t m current (s.awaited t) stage = some s') : Inv cfg strict s' := by
  have hleave (hfuture : (s.task t).future = none) :
      Inv cfg strict ((s.leaveLoad t).finishLoad t m current) := by
    apply h.leaveLoad.finishLoad _ hm (Manager.leaveLoad_idle hfuture)
    exact hquiet.of_activity (by simp)
  cases stage with
  | queued =>
    obtain rfl := Option.some.inj hstep
    exact h.arrive hquiet ⟨hm, hstage⟩
  | building =>
    unfold Manager.cancelLoad at hstep
    rcases es : s.settle t m current (s.awaited t) with - | settled
    · rw [es] at hstep
      obtain rfl := Option.some.inj hstep
      exact h.arrive hquiet ⟨hm, hstage⟩
    · rw [es] at hstep
      obtain rfl := Option.some.inj hstep
      exact h.settle hquiet hm hstage es
  | settling =>
    obtain rfl := Option.some.inj hstep
    apply (h.drop fun hs => hspared hs rfl).leaveLoad.finishLoad _ hm
      (Manager.leaveLoad_idle (by simp [Manager.dropFuture]))
    exact hquiet.of_activity (by simp [Manager.dropFuture])
  | waitLoadLock =>
    obtain rfl := Option.some.inj hstep
    exact hleave hstage.2.2.1
  | gotLoadLock =>
    obtain rfl := Option.some.inj hstep
    exact hleave hstage.2.2.1
  | converting =>
    obtain rfl := Option.some.inj hstep
    exact hleave hstage.2.2.1
  | waitHandoff previous l =>
    obtain rfl := Option.some.inj hstep
    exact hleave hstage.2.2.1
  | gotHandoff previous l =>
    obtain rfl := Option.some.inj hstep
    exact hleave hstage.2.2.1
  | finished => cases hstep
  | returned => cases hstep

end

/-! ### Requests -/

section
variable [DecidableEq μ] {m : μ} {requested : Nat}

/-- For a catalog model the second read of an attempt finds the same engine and lock. -/
theorem leaseStable_catalog {current l latestLock : Nat} {latest : Option Nat}
    (h : leaseStable true requested current l latest latestLock = true) :
    latest = some current ∧ latestLock = l := by
  simpa [leaseStable] using h

/-- Where nothing is installed, only the requested engine itself passes. -/
theorem leaseStable_unmanaged {inCatalog : Bool} {current l latestLock : Nat}
    (h : leaseStable inCatalog requested current l none latestLock = true) :
    current = requested := by
  simp only [leaseStable, reduceCtorEq, false_and, or_false, decide_eq_true_eq] at h
  exact h.2.2.1

theorem During.requestLease (h : During cfg strict s (some t)) (hquiet : (s.task t).Quiet)
    (hidle : (s.task t).Idle) : Inv cfg strict (s.requestLease cfg t m requested) := by
  unfold Manager.requestLease
  split
  · exact h.arrive hquiet hidle
  · apply (h.getLock m).arrive
    · exact hquiet.of_activity (by simp)
    · rw [Manager.getLock_task]
      exact hidle

theorem During.grantLease (h : During cfg strict s (some t)) (hquiet : (s.task t).Quiet)
    (hidle : (s.task t).Idle) {current l : Nat} (hfree : s.lockHolder l = none) :
    Inv cfg strict (s.grantLease cfg t m requested current l) := by
  obtain ⟨hload, hlock, hfuture, hreplacement⟩ := hidle
  unfold Manager.grantLease
  have hlater := (h.acquireLock hfree hlock).getLock m
  have hlocks := Manager.getLock_locks (s := s.acquireLock t l) m
  have htask : ((s.acquireLock t l).getLock m).1.task t = { s.task t with lock := some l } := by
    simp
  generalize (s.acquireLock t l).getLock m = later at *
  obtain ⟨later, latestLock⟩ := later
  dsimp only at *
  have hquiet' : (later.task t).Quiet := hquiet.of_activity (by rw [htask])
  split
  · next hstable =>
    apply hlater.arrive hquiet'
    rw [htask]
    refine ⟨hload, hfuture, hreplacement, ?_⟩
    rcases hm : cfg.catalog m with - | -
    · have hnone : later.engines m = none := by
        rcases ee : later.engines m with - | e
        · rfl
        · simpa [hm] using (hlater.core.installed m e ee).1
      simpa [hnone] using leaseStable_unmanaged (hnone ▸ hstable)
    rw [hm] at hstable
    obtain ⟨hinstalled, rfl⟩ := leaseStable_catalog hstable
    have hmine : (later.task t).lock = some latestLock := by rw [htask]
    refine ⟨hinstalled, ⟨latestLock, hlocks, rfl⟩, ?_⟩
    have hnotmine : ∀ t', some t' = some t → ∀ requested,
        (later.task t').activity ≠ .request m requested (.rebuilding current) := by
      intro t' heq requested
      obtain rfl : t' = t := by simpa using heq
      exact hquiet' m requested current
    rcases hlater.open_or_held hinstalled hnotmine with hopen | ⟨t', hne, hholds⟩
    · exact hopen
    · exact absurd hholds (hlater.core.nobody_holds hlocks hmine (by simpa using hne) current 1)
  · apply hlater.releaseLock.requestLease
    · exact hquiet'.of_activity (by simp)
    · simp [Task.Idle, htask, hload, hfuture, hreplacement]

omit [DecidableEq μ] in
theorem During.endLease (h : During cfg strict s (some t)) (hload : (s.task t).loadLock = false)
    (hfuture : (s.task t).future = none) (hreplacement : (s.task t).replacement = none)
    (hleft : ∀ m requested e, (s.task t).activity = .request m requested (.rebuilding e) →
      s.engines m ≠ some e) : Inv cfg strict (s.endLease t m requested) := by
  apply h.releaseLock.arriveFrom
  · simpa using hleft
  · simp [StageOk, RequestOk, Task.Idle, hload, hfuture, hreplacement]

omit [DecidableEq μ] in
/-- The task that holds the lock of a model starts to rebuild its engine. -/
theorem During.rebuild (h : During cfg strict s (some t)) (hquiet : (s.task t).Quiet)
    (hload : (s.task t).loadLock = false) (hfuture : (s.task t).future = none)
    (hreplacement : (s.task t).replacement = none) {e : Nat}
    (hholds : s.Holds m (s.task t) e 0) (target : Option δ) :
    Inv cfg strict (((s.goTo t (.request m requested (.rebuilding e))).close e).startBuild t target) := by
  obtain ⟨hinstalled, ⟨l, hl, hlock⟩, hopen⟩ := hholds
  obtain ⟨hm, hold, -⟩ := h.core.installed m e hinstalled
  have hgone : During cfg strict (s.goTo t (.request m requested (.rebuilding e))) (some t) := by
    apply h.goTo
    intro m requested e hrebuilds
    exact absurd hrebuilds (hquiet m requested e)
  have hclose : During cfg strict ((s.goTo t (.request m requested (.rebuilding e))).close e) (some t) := by
    apply hgone.close ((h.core.unowned hinstalled).goTo _) hopen
    · intro m' hinstalled'
      obtain rfl := h.core.injective m' m e hinstalled' hinstalled
      exact ⟨t, requested, by simp⟩
    · intro t' hne m' c hholds'
      obtain rfl := h.core.injective m' m e hholds'.1 hinstalled
      have hlock' : ((s.goTo t (.request m' requested (.rebuilding e))).task t).lock = some l := by
        simpa using hlock
      exact hgone.core.nobody_holds hl hlock' (by simpa using hne) e c hholds'
  apply (hclose.startBuild target (by simpa [Manager.close] using hfuture)
    (by simpa [Manager.close] using hreplacement)).finish
  have htask : (((s.goTo t (.request m requested (.rebuilding e))).close e).startBuild t
      target).task t = { s.task t with
        activity := .request m requested (.rebuilding e), future := some s.nextEngine } := by
    simp [Manager.startBuild, Manager.close, Manager.goTo]
  rw [htask]
  refine ⟨hload, by simp, hreplacement, hm, hinstalled, ⟨l, hl, hlock⟩, ?_⟩
  simp [Manager.startBuild, Manager.close, Manager.goTo, hold.ne, hopen]

omit [DecidableEq μ] in
theorem During.recoverNpu (h : During cfg strict s (some t)) (hquiet : (s.task t).Quiet)
    [DecidableEq δ] (hload : (s.task t).loadLock = false) (hfuture : (s.task t).future = none)
    (hreplacement : (s.task t).replacement = none) {e : Nat}
    (hholds : s.engines m = some e → s.Holds m (s.task t) e 0) :
    Inv cfg strict (s.recoverNpu cfg t m requested e) := by
  have hend : Inv cfg strict (s.endLease t m requested) := by
    apply h.endLease hload hfuture hreplacement
    intro m requested e hrebuilds
    exact absurd hrebuilds (hquiet m requested e)
  unfold Manager.recoverNpu
  split
  · exact hend
  · split
    · exact hend
    · split
      · next hinstalled => exact h.rebuild hquiet hload hfuture hreplacement (hholds hinstalled) _
      · exact hend

theorem During.endGeneration [DecidableEq δ] (h : During cfg strict s (some t)) {e : Nat}
    (hactivity : (s.task t).activity = .request m requested (.leased e))
    (hok : RequestOk cfg s m requested (s.task t) (.leased e)) (how : Manager.GenerationEnd)
    (hspared : strict → how ≠ .stuck) :
    Inv cfg strict (s.endGeneration cfg t m requested e how) := by
  obtain ⟨hload, hfuture, hreplacement, hlease⟩ := hok
  have hquiet : (s.task t).Quiet := by simp [Task.Quiet, hactivity]
  have hholds : s.engines m = some e → s.Holds m (s.task t) e 0 := by
    intro hinstalled
    rwa [if_pos (h.core.installed m e hinstalled).1] at hlease
  cases how with
  | completed =>
    apply h.endLease hload hfuture hreplacement
    intro m requested e hrebuilds
    exact absurd hrebuilds (hquiet m requested e)
  | interrupted => exact h.recoverNpu hquiet hload hfuture hreplacement hholds
  | stuck =>
    show Inv cfg strict ((s.quarantine m e).recoverNpu cfg t m requested e)
    unfold Manager.quarantine
    split
    · next hinstalled =>
      obtain ⟨-, ⟨l, hl, hlock⟩, -⟩ := hholds hinstalled
      have hpop : During cfg strict (s.popEngine m) (some t) := by
        apply h.popEngine
        · intro t' hne e' c
          exact h.core.nobody_holds hl hlock (by simpa using hne) e' c
        · intro hs
          exact absurd rfl (hspared hs)
      apply hpop.recoverNpu hquiet hload hfuture hreplacement
      simp [Manager.popEngine]
    · exact h.recoverNpu hquiet hload hfuture hreplacement hholds

theorem During.afterRebuild (h : During cfg strict s (some t)) {e : Nat}
    (hactivity : (s.task t).activity = .request m requested (.rebuilding e))
    (hok : RequestOk cfg s m requested (s.task t) (.rebuilding e))
    (hstep : s.afterRebuild t m requested e (s.awaited t) = some s') : Inv cfg strict s' := by
  obtain ⟨hload, hfuture, hreplacement, hm, hinstalled, ⟨l, hl, hlock⟩, honce⟩ := hok
  rcases eb : s.awaited t with - | - | - | - <;> rw [eb] at hstep
  case built =>
    obtain ⟨r, hr⟩ := Option.ne_none_iff_exists'.mp hfuture
    have htake := h.take eb hreplacement
    have htaken : ((s.takeFuture t).task t).replacement = some r := by
      simp [Manager.takeFuture, hr]
    have hlock' : ((s.takeFuture t).task t).lock = some l := by
      simpa [Manager.takeFuture] using hlock
    have hnobody : ∀ t', t' ≠ t → ∀ e c, ¬ (s.takeFuture t).Holds m ((s.takeFuture t).task t') e c :=
      fun t' hne e c => htake.core.nobody_holds hl hlock' hne e c
    have hclosed : ∀ e', (s.takeFuture t).engines m = some e' →
        ((s.takeFuture t).engine e').closes = 1 := by
      intro e' he'
      obtain rfl : e = e' := Option.some.inj (hinstalled.symm.trans he')
      exact honce
    have hput : During cfg strict ((s.takeFuture t).putReplacement t m) (some t) := by
      have hput := htake.putReplacement hm htaken hnobody (fun _ => hclosed) l s.nextLock
      have hsame : Function.update (s.takeFuture t).locks m (some l) = (s.takeFuture t).locks := by
        rw [Function.update_eq_self_iff]
        exact hl.symm
      rw [hsame] at hput
      unfold Manager.putReplacement
      rwa [htaken]
    have hstep' :
        some (((s.takeFuture t).putReplacement t m).endLease t m requested) = some s' := by
      simpa [Manager.afterRebuild, Manager.takeFuture, hinstalled] using hstep
    obtain rfl := Option.some.inj hstep'
    have hne : r ≠ e := by
      rintro rfl
      exact (h.core.owned t r (.inl hr)).2.2.2 m hinstalled
    apply hput.endLease
    · simpa [Manager.putReplacement, Manager.takeFuture] using hload
    · simp [Manager.putReplacement, Manager.takeFuture]
    · simp [Manager.putReplacement, Manager.takeFuture]
    · simpa [Manager.putReplacement, Manager.takeFuture, hactivity, hr] using hne
  case failed =>
    obtain rfl := Option.some.inj hstep
    have hdrop := h.drop fun _ => eb
    have hlock' : ((s.dropFuture t).task t).lock = some l := by
      simpa [Manager.dropFuture] using hlock
    have hpop : During cfg strict ((s.dropFuture t).popEngine m) (some t) := by
      apply hdrop.popEngine
      · intro t' hne e' c
        exact hdrop.core.nobody_holds hl hlock' (by simpa using hne) e' c
      · intro _ e' he'
        obtain rfl : e = e' := Option.some.inj (hinstalled.symm.trans he')
        exact honce
    apply hpop.endLease
    · simpa [Manager.popEngine, Manager.dropFuture] using hload
    · simp [Manager.popEngine, Manager.dropFuture]
    · simpa [Manager.popEngine, Manager.dropFuture] using hreplacement
    · simp [Manager.popEngine, Manager.dropFuture, hactivity]
  case absent => cases hstep
  case running => cases hstep

end

/-! ### Context changes -/

section
variable [DecidableEq μ] {m : μ}

theorem During.leaveConfigure (h : During cfg strict s (some t)) (hquiet : (s.task t).Quiet)
    (hm : cfg.catalog m = true) (hfuture : (s.task t).future = none) :
    Inv cfg strict (s.leaveConfigure t m) := by
  have harrive : Inv cfg strict ((((s.closeReplacement t).releaseLock t).releaseLoadLock t).goTo t
      (.configure m .finished)) := by
    apply h.closeReplacement.releaseLock.releaseLoadLock.arrive
    · exact hquiet.of_activity (by simp)
    · exact ⟨hm, by simp [ConfigureOk, Task.Idle, hfuture]⟩
  exact harrive.note _ _ _

theorem During.waitModelLock (h : During cfg strict s (some t)) (hquiet : (s.task t).Quiet)
    (hm : cfg.catalog m = true) (hload : (s.task t).loadLock = true)
    (hlock : (s.task t).lock = none) (hfuture : (s.task t).future = none) {old : Option Nat}
    (hold : ∀ e, old = some e → s.Unowned e) : Inv cfg strict (s.waitModelLock t m old) := by
  apply (h.getLock m).arrive
  · exact hquiet.of_activity (by simp)
  · refine ⟨hm, ?_⟩
    rw [Manager.getLock_task]
    refine ⟨hload, hlock, hfuture, ?_⟩
    intro e he
    exact ⟨(hold e he).getLock m, fun _ => Manager.getLock_locks m⟩

theorem During.configureLocked (h : During cfg strict s (some t)) (hquiet : (s.task t).Quiet)
    (hm : cfg.catalog m = true) (hidle : (s.task t).Idle) (hfree : s.loadLock = none)
    (refused rebuild : Bool) : Inv cfg strict (s.configureLocked t m refused rebuild) := by
  obtain ⟨-, hlock, hfuture, hreplacement⟩ := hidle
  have hlocked := h.acquireLoadLock hfree
  have hquiet' : ((s.acquireLoadLock t).task t).Quiet := hquiet.of_activity (by simp)
  have htask := Manager.acquireLoadLock_task (s := s) (t := t)
  unfold Manager.configureLocked
  generalize s.acquireLoadLock t = later at *
  dsimp only
  split
  · exact hlocked.leaveConfigure hquiet' hm (by rw [htask]; exact hfuture)
  · have hwait : Inv cfg strict (later.waitModelLock t m (later.engines m)) := by
      apply hlocked.waitModelLock hquiet' hm
      · rw [htask]
      · rw [htask]
        exact hlock
      · rw [htask]
        exact hfuture
      · intro e he
        exact hlocked.core.unowned he
    rcases hinstalled : later.engines m with - | old <;> rw [hinstalled] at hwait
    · exact hwait
    · cases rebuild with
      | false => exact hwait
      | true =>
        have hbuild := hlocked.startBuild (later.engine old).device
          (by rw [htask]; exact hfuture) (by rw [htask]; exact hreplacement)
        apply hbuild.arrive
        · exact hquiet'.of_activity (by simp [Manager.startBuild])
        · refine ⟨hm, ?_, (hlocked.core.unowned hinstalled).startBuild _⟩
          simp [Task.Builds, Manager.startBuild, htask, hlock, hreplacement]

theorem During.configureBuilt (h : During cfg strict s (some t)) (hquiet : (s.task t).Quiet)
    (hm : cfg.catalog m = true) {old : Nat} {cancelled : Bool} (hbuilds : (s.task t).Builds)
    (hold : s.Unowned old)
    (hstep : s.configureBuilt t m old cancelled (s.awaited t) = some s') : Inv cfg strict s' := by
  obtain ⟨hload, hlock, hfuture, hreplacement⟩ := hbuilds
  rcases eb : s.awaited t with - | - | - | - <;> rw [eb] at hstep
  case built =>
    have htake := h.take eb hreplacement
    have hquiet' : ((s.takeFuture t).task t).Quiet :=
      hquiet.of_activity (by simp [Manager.takeFuture])
    have hnone : ((s.takeFuture t).task t).future = none := by simp [Manager.takeFuture]
    cases cancelled with
    | true =>
      obtain rfl := Option.some.inj hstep
      exact htake.leaveConfigure hquiet' hm hnone
    | false =>
      obtain rfl := Option.some.inj hstep
      apply htake.waitModelLock hquiet' hm
      · simpa [Manager.takeFuture] using hload
      · simpa [Manager.takeFuture] using hlock
      · exact hnone
      · intro e he
        obtain rfl := Option.some.inj he
        exact hold.takeFuture
  case failed =>
    obtain rfl := Option.some.inj hstep
    apply (h.drop fun _ => eb).leaveConfigure _ hm (by simp [Manager.dropFuture])
    exact hquiet.of_activity (by simp [Manager.dropFuture])
  case absent => cases hstep
  case running => cases hstep

theorem During.configureHandoff (h : During cfg strict s (some t)) (hquiet : (s.task t).Quiet)
    (hm : cfg.catalog m = true) {old : Option Nat} {l : Nat}
    (hok : ConfigureOk s m (s.task t) (.waitLock old l)) (hfree : s.lockHolder l = none)
    (refused : Bool) : Inv cfg strict (s.configureHandoff t m old l refused) := by
  obtain ⟨hload, hlock, hfuture, hold⟩ := hok
  have hlocked := h.acquireLock hfree hlock
  have hquiet' : ((s.acquireLock t l).task t).Quiet := hquiet.of_activity (by simp)
  have htask := Manager.acquireLock_task (s := s) (t := t) (l := l)
  have hleave : Inv cfg strict ((s.acquireLock t l).leaveConfigure t m) :=
    hlocked.leaveConfigure hquiet' hm (by rw [htask]; exact hfuture)
  unfold Manager.configureHandoff
  dsimp only
  split
  · exact hleave
  · next hsame =>
    have hinstalled : s.engines m = old := by
      by_contra hne
      exact hsame (.inl hne)
    rcases hr : ((s.acquireLock t l).task t).replacement with - | r
    · exact hleave
    · have hinstall : During cfg strict ((s.acquireLock t l).install t m (s.engines m)) (some t) := by
        apply hlocked.install hm (by rw [hr]; exact Option.some_ne_none r) _ hquiet'
        intro e he
        -- the engine has stayed installed, so the lock is still the one waited for
        obtain ⟨-, hlocks⟩ := hold e (hinstalled ▸ he)
        exact ⟨l, hlocks he, by rw [htask]⟩
      rw [hinstalled] at hinstall
      apply hinstall.leaveConfigure _ hm (by simp [hfuture])
      exact hquiet'.of_activity (by simp)

theorem During.cancelConfigure (h : During cfg strict s (some t)) (hquiet : (s.task t).Quiet)
    (hm : cfg.catalog m = true) {stage : ConfigureStage} (hok : ConfigureOk s m (s.task t) stage)
    (hstep : s.cancelConfigure t m stage = some s') : Inv cfg strict s' := by
  cases stage with
  | waitLoadLock =>
    obtain rfl := Option.some.inj hstep
    exact h.leaveConfigure hquiet hm hok.2.2.1
  | building old cancelled =>
    obtain rfl := Option.some.inj hstep
    exact h.arrive hquiet ⟨hm, hok⟩
  | waitLock old l =>
    obtain rfl := Option.some.inj hstep
    exact h.leaveConfigure hquiet hm hok.2.2.1
  | finished => cases hstep

end

/-! ### Every segment -/

section
variable [DecidableEq μ]

/-- Unloading loses no build: the engine is closed. -/
theorem Tracked.unload (h : Tracked s) {m : μ} {e : Nat} (he : s.engines m = some e)
    (hopen : (s.engine e).closes = 0) : Tracked (((s.popEngine m).popLock m).close e) := by
  obtain ⟨hrunning, hbuilt⟩ := h
  refine ⟨?_, ?_⟩ <;>
    simp only [Manager.popEngine, Manager.popLock, Manager.close, Function.update_apply]
  · grind
  · intro e' t hbuilder hdone
    have hbefore := hbuilt e' t (by grind) (by grind)
    rcases hbefore with hfuture | hreplacement | ⟨m', hinstalled⟩ | honce
    · exact .inl hfuture
    · exact .inr (.inl hreplacement)
    · by_cases hmm : m' = m
      · subst hmm
        obtain rfl : e = e' := Option.some.inj (he.symm.trans hinstalled)
        simp [hopen]
      · exact .inr (.inr (.inl ⟨m', by simpa [hmm] using hinstalled⟩))
    · right
      right
      right
      grind

theorem inv_unload (h : Inv cfg strict s) (m : μ) : Inv cfg strict (s.unload m) := by
  unfold Manager.unload
  split
  · exact h
  · split
    · exact h
    · next hidle =>
      have hnobody : ∀ t, some t ≠ none → ∀ e c, ¬ s.Holds m (s.task t) e c := by
        rintro t - e c ⟨-, ⟨l, hl, hlock⟩, -⟩
        apply hidle
        simp [hl, (h.core.lock l t).mpr hlock]
      have hpopLock (h : Inv cfg strict (s.popEngine m)) :
          Inv cfg strict ((s.popEngine m).popLock m) := by
        apply h.popLock
        simp [Manager.popEngine]
      rcases ee : s.engines m with - | e
      · apply hpopLock
        apply h.popEngine hnobody
        simp [ee]
      · have hopen : (s.engine e).closes = 0 := by
          rcases h.open_or_held ee (by simp) with hopen | ⟨t, hne, hholds⟩
          · exact hopen
          · exact absurd hholds (hnobody t hne e 1)
        have hpop : Inv cfg False ((s.popEngine m).popLock m) := by
          apply (h.forget.popEngine hnobody False.elim).popLock
          simp [Manager.popEngine]
        refine During.track (hpop.closeLoose (h.core.unowned ee) hopen ?_)
          (fun hs => (h.tracked hs).unload ee hopen)
        intro m' hinstalled
        by_cases hmm : m' = m
        · subst hmm
          simp [Manager.popLock, Manager.popEngine] at hinstalled
        · have hother : s.engines m' = some e := by
            simpa [Manager.popLock, Manager.popEngine, hmm] using hinstalled
          exact hmm (h.core.injective m' m e hother ee)

end

/-- The end of a native build, and the creation of an engine that is not managed, leave alone
what was built and closed by whom. -/
theorem inv_engine (h : Inv cfg strict s) {e n : Nat} {object : Engine δ} (hnext : s.nextEngine ≤ n)
    (hbuilder : object.builder = (s.engine e).builder)
    (hcloses : object.closes = (s.engine e).closes)
    (hended : ∀ t, object.builder = some t →
      (s.engine e).build = .running ∧ object.build ≠ .running) :
    Inv cfg strict { s with engine := Function.update s.engine e object, nextEngine := n } := by
  obtain ⟨h1, h2, h3, h4, h5, h6, h7, h8, h9⟩ := h.core
  have hsame : ∀ e', (Function.update s.engine e object e').builder = (s.engine e').builder ∧
      (Function.update s.engine e object e').closes = (s.engine e').closes := by
    intro e'
    by_cases he : e' = e
    · subst he
      simp [hbuilder, hcloses]
    · simp [he]
  refine h.step ?_ ?_ ?_ ?_ ?_ ?_
  · refine ⟨h1, h2, h3, ?_, ?_, h6, ?_, ?_, ?_⟩
    · intro m e' hinstalled
      obtain ⟨hm, hold, hlock⟩ := h4 m e' hinstalled
      exact ⟨hm, hold.trans_le hnext, hlock⟩
    · intro t e' howner
      obtain ⟨hold, hb, hc, hloose⟩ := h5 t e' howner
      exact ⟨hold.trans_le hnext, by rw [(hsame e').1, hb], by rw [(hsame e').2, hc], hloose⟩
    · intro m e' hinstalled hclosed
      rw [(hsame e').2] at hclosed
      exact h7 m e' hinstalled hclosed
    · intro e'
      rw [(hsame e').2]
      exact h8 e'
    · intro e' he
      rw [(hsame e').1, (hsame e').2]
      exact h9 e' (hnext.trans he)
  · intro t _
    rfl
  · rintro t _ m e' c ⟨hinstalled, hlock, hcount⟩
    exact ⟨hinstalled, hlock, by rw [(hsame e').2, hcount]⟩
  · intro m e' _ hinstalled
    exact ⟨hinstalled, rfl⟩
  · intro e' he
    exact he.mono hnext (fun _ _ _ howner => howner)
  · rintro - ⟨hrunning, hbuilt⟩
    constructor <;> simp only [Function.update_apply] <;> grind

variable [DecidableEq μ] [DecidableEq δ]

/-- Nothing here leaves a native build behind: a load task that already waits for its build
after a cancellation is not cancelled again (unless the build has failed), and no generation
is stuck, whose engine the quarantine drops. -/
def sparesBuilds (s : Manager μ δ) : Event μ δ → Bool
  | .cancel t =>
    match (s.task t).activity with
    | .load _ _ .settling => s.awaited t = .failed
    | _ => true
  | .endGeneration _ .stuck => false
  | _ => true

/-- A new task starts out idle. -/
theorem During.schedule (h : Inv cfg strict s) {m : μ} (habsent : (s.task t).activity = .absent)
    (device : Option δ) : Inv cfg strict (s.scheduleLoad cfg t m device) := by
  unfold Manager.scheduleLoad
  split
  · next hm =>
    dsimp only
    split
    · exact h
    · split
      · exact h.note _ _ _
      · have hidle : (s.task t).Idle := by simpa [StageOk, habsent] using h.stage t
        have harrive : Inv cfg strict (s.goTo t (.load m (device.getD cfg.device) .queued)) := by
          apply (h.start t).arrive (by simp [Task.Quiet, habsent])
          exact ⟨hm, hidle⟩
        have htask : ({ activity := .load m (device.getD cfg.device) .queued } : Task μ δ) =
            { s.task t with activity := .load m (device.getD cfg.device) .queued } := by
          obtain ⟨h1, h2, h3, h4⟩ := hidle
          simp only [h1, h2, h3, h4]
        rw [htask]
        exact harrive.note _ _ _
  · exact h

omit [DecidableEq δ] in
theorem During.configure (h : Inv cfg strict s) {m : μ} (habsent : (s.task t).activity = .absent)
    (refused : Bool) : Inv cfg strict (s.configureContext cfg t m refused) := by
  unfold Manager.configureContext
  split
  · exact h
  · next hadmitted =>
    have hm : cfg.catalog m = true := by
      simpa using fun hfalse => hadmitted (.inl hfalse)
    have hidle : (s.task t).Idle := by simpa [StageOk, habsent] using h.stage t
    have harrive : Inv cfg strict (s.goTo t (.configure m .waitLoadLock)) := by
      apply (h.start t).arrive (by simp [Task.Quiet, habsent])
      exact ⟨hm, hidle⟩
    exact harrive.note _ _ _

omit [DecidableEq μ] [DecidableEq δ] in
theorem During.load_stage (h : Inv cfg strict s) {m : μ} {current : δ} {stage : LoadStage}
    (hactivity : (s.task t).activity = .load m current stage) :
    cfg.catalog m = true ∧ LoadOk (s.task t) stage ∧ (s.task t).Quiet := by
  have hstage := h.stage t
  rw [StageOk, hactivity] at hstage
  exact ⟨hstage.1, hstage.2, by simp [Task.Quiet, hactivity]⟩

omit [DecidableEq μ] [DecidableEq δ] in
theorem During.request_stage (h : Inv cfg strict s) {m : μ} {requested : Nat} {stage : RequestStage}
    (hactivity : (s.task t).activity = .request m requested stage) :
    RequestOk cfg s m requested (s.task t) stage := by
  have hstage := h.stage t
  rwa [StageOk, hactivity] at hstage

omit [DecidableEq μ] [DecidableEq δ] in
theorem During.configure_stage (h : Inv cfg strict s) {m : μ} {stage : ConfigureStage}
    (hactivity : (s.task t).activity = .configure m stage) :
    cfg.catalog m = true ∧ ConfigureOk s m (s.task t) stage ∧ (s.task t).Quiet := by
  have hstage := h.stage t
  rw [StageOk, hactivity] at hstage
  exact ⟨hstage.1, hstage.2, by simp [Task.Quiet, hactivity]⟩

theorem During.resumeLoad (h : Inv cfg strict s) {first again : Manager.Inspection}
    (hstep : s.step cfg (.resumeLoad t first again) = some s') : Inv cfg strict s' := by
  simp only [Manager.step] at hstep
  split at hstep
  case h_1 m current hactivity =>
    obtain ⟨hm, hok, hquiet⟩ := h.load_stage hactivity
    obtain rfl := Option.some.inj hstep
    exact (h.start t).afterLoadLock hquiet hm hok first
  case h_2 m current hactivity =>
    obtain ⟨hm, hok, hquiet⟩ := h.load_stage hactivity
    obtain rfl := Option.some.inj hstep
    exact (h.start t).afterConversion hquiet hm hok first again
  case h_3 m current hactivity =>
    obtain ⟨hm, hok, hquiet⟩ := h.load_stage hactivity
    exact (h.start t).afterBuild hquiet hm hok hstep
  case h_4 m current hactivity =>
    obtain ⟨hm, hok, hquiet⟩ := h.load_stage hactivity
    exact (h.start t).settle hquiet hm hok hstep
  case h_5 m current previous l hactivity =>
    obtain ⟨hm, ⟨hload, hlock, hfuture, hreplacement⟩, hquiet⟩ := h.load_stage hactivity
    obtain rfl := Option.some.inj hstep
    exact (h.start t).afterHandoffLock hquiet hm hload hlock hfuture hreplacement first
  case h_6 => cases hstep

theorem During.cancel (h : Inv cfg strict s)
    (hspared : strict → sparesBuilds s (.cancel t) = true)
    (hstep : s.step cfg (.cancel t) = some s') : Inv cfg strict s' := by
  simp only [Manager.step] at hstep
  split at hstep
  case h_1 m current stage hactivity =>
    obtain ⟨hm, hok, hquiet⟩ := h.load_stage hactivity
    apply (h.start t).cancelLoad hquiet hm hok _ hstep
    rintro hs rfl
    simpa [sparesBuilds, hactivity] using hspared hs
  case h_2 m requested current l hactivity =>
    have hidle : (s.task t).Idle := h.request_stage hactivity
    obtain rfl := Option.some.inj hstep
    exact (h.start t).arrive (by simp [Task.Quiet, hactivity]) hidle
  case h_3 m stage hactivity =>
    obtain ⟨hm, hok, hquiet⟩ := h.configure_stage hactivity
    exact (h.start t).cancelConfigure hquiet hm hok hstep
  case h_4 => cases hstep

/-- Every segment keeps the invariant. -/
theorem step_inv (h : Inv cfg strict s) {e : Event μ δ}
    (hspared : strict → sparesBuilds s e = true) (hstep : s.step cfg e = some s') :
    Inv cfg strict s' := by
  cases e with
  | resumeLoad t first again => exact h.resumeLoad hstep
  | cancel t => exact h.cancel hspared hstep
  | scheduleLoad t m device =>
    simp only [Manager.step] at hstep
    split at hstep
    · next habsent =>
      obtain rfl := Option.some.inj hstep
      exact h.schedule habsent device
    · cases hstep
  | startLoad t inspection =>
    simp only [Manager.step] at hstep
    split at hstep
    · next m current hactivity =>
      obtain rfl := Option.some.inj hstep
      obtain ⟨hm, hidle, hquiet⟩ := h.load_stage hactivity
      exact (h.start t).loopTop hquiet hm hidle inspection
    · cases hstep
  | grantLoadLock t =>
    simp only [Manager.step] at hstep
    split at hstep
    · next m current hactivity hfree =>
      obtain rfl := Option.some.inj hstep
      obtain ⟨hm, ⟨-, hlock, hfuture, hreplacement⟩, hquiet⟩ := h.load_stage hactivity
      apply ((h.start t).acquireLoadLock hfree).arrive
      · exact hquiet.of_activity (by simp)
      · exact ⟨hm, by simp [LoadOk, Task.HoldsLoadLock, hlock, hfuture, hreplacement]⟩
    · cases hstep
  | endBuild e result =>
    simp only [Manager.step] at hstep
    split at hstep
    · next hrunning =>
      obtain rfl := Option.some.inj hstep
      cases result with
      | none =>
        refine inv_engine h le_rfl rfl rfl ?_
        intro _ _
        exact ⟨hrunning, by intro hbuild; cases hbuild⟩
      | some device =>
        refine inv_engine h le_rfl rfl rfl ?_
        intro _ _
        exact ⟨hrunning, by intro hbuild; cases hbuild⟩
    · cases hstep
  | grantHandoffLock t =>
    simp only [Manager.step] at hstep
    split at hstep
    · next m current previous l hactivity =>
      obtain ⟨hm, ⟨hload, hlock, hfuture, hreplacement⟩, hquiet⟩ := h.load_stage hactivity
      split at hstep
      · next hfree =>
        obtain rfl := Option.some.inj hstep
        apply ((h.start t).acquireLock hfree hlock).arrive
        · exact hquiet.of_activity (by simp)
        · exact ⟨hm, by simp [LoadOk, hload, hfuture, hreplacement]⟩
      · cases hstep
    · cases hstep
  | returnLoad t =>
    simp only [Manager.step] at hstep
    split at hstep
    · next m current hactivity =>
      obtain rfl := Option.some.inj hstep
      obtain ⟨hm, hidle, hquiet⟩ := h.load_stage hactivity
      exact (h.start t).arrive hquiet ⟨hm, hidle⟩
    · cases hstep
  | createEngine device =>
    obtain rfl := Option.some.inj hstep
    obtain ⟨hbuilder, hcloses⟩ := h.core.fresh s.nextEngine le_rfl
    apply inv_engine h (Nat.le_succ _) hbuilder.symm hcloses.symm
    intro _ hbuilding
    cases hbuilding
  | request t m engine =>
    simp only [Manager.step] at hstep
    split at hstep
    · next habsent =>
      obtain rfl := Option.some.inj hstep
      have hidle : (s.task t).Idle := by simpa [StageOk, habsent] using h.stage t
      exact (h.start t).requestLease (by simp [Task.Quiet, habsent]) hidle
    · cases hstep
  | grantLease t =>
    simp only [Manager.step] at hstep
    split at hstep
    · next m requested current l hactivity =>
      have hidle : (s.task t).Idle := h.request_stage hactivity
      split at hstep
      · next hfree =>
        obtain rfl := Option.some.inj hstep
        exact (h.start t).grantLease (by simp [Task.Quiet, hactivity]) hidle hfree
      · cases hstep
    · cases hstep
  | endGeneration t how =>
    simp only [Manager.step] at hstep
    split at hstep
    · next m requested e hactivity =>
      obtain rfl := Option.some.inj hstep
      apply (h.start t).endGeneration hactivity (h.request_stage hactivity) how
      rintro hs rfl
      cases hspared hs
    · cases hstep
  | resumeRequest t =>
    simp only [Manager.step] at hstep
    split at hstep
    · next m requested e hactivity =>
      exact (h.start t).afterRebuild hactivity (h.request_stage hactivity) hstep
    · cases hstep
  | configureContext t m refused =>
    simp only [Manager.step] at hstep
    split at hstep
    · next habsent =>
      obtain rfl := Option.some.inj hstep
      exact h.configure habsent refused
    · cases hstep
  | configureLocked t refused rebuild =>
    simp only [Manager.step] at hstep
    split at hstep
    · next m hactivity hfree =>
      obtain rfl := Option.some.inj hstep
      obtain ⟨hm, hidle, hquiet⟩ := h.configure_stage hactivity
      exact (h.start t).configureLocked hquiet hm hidle hfree refused rebuild
    · cases hstep
  | resumeConfigure t =>
    simp only [Manager.step] at hstep
    split at hstep
    · next m old cancelled hactivity =>
      obtain ⟨hm, ⟨hbuilds, hold⟩, hquiet⟩ := h.configure_stage hactivity
      exact (h.start t).configureBuilt hquiet hm hbuilds hold hstep
    · cases hstep
  | configureHandoff t refused =>
    simp only [Manager.step] at hstep
    split at hstep
    · next m old l hactivity =>
      obtain ⟨hm, hok, hquiet⟩ := h.configure_stage hactivity
      split at hstep
      · next hfree =>
        obtain rfl := Option.some.inj hstep
        exact (h.start t).configureHandoff hquiet hm hok hfree refused
      · cases hstep
    · cases hstep
  | unload m =>
    obtain rfl := Option.some.inj hstep
    exact inv_unload h m

/-- Every reachable state satisfies the invariant. -/
theorem run_inv {es : List (Event μ δ)}
    (hrun : Transition.run (Manager.step cfg) Manager.initial es = some s) : Inv cfg False s :=
  Transition.run_always (fun _ _ _ h hstep => step_inv h False.elim hstep) inv_initial hrun

/-- In a run that spares the builds, every reachable state accounts for them. -/
theorem run_tracked {es : List (Event μ δ)}
    (hspared : Transition.meets (Manager.step cfg) sparesBuilds Manager.initial es = true)
    (hrun : Transition.run (Manager.step cfg) Manager.initial es = some s) : Inv cfg True s :=
  Transition.run_invariant (fun _ _ _ h hspared hstep => step_inv h (fun _ => hspared) hstep)
    inv_initial hspared hrun

end InferBridge
