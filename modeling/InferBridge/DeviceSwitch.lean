/-
InferBridge/DeviceSwitch.lean

A device switch that fails: what an exception before the installation
leaves behind (app/model_load_target.py).

The runs are those of the engine lifecycle, with one more kind of event: an
exception raised at the `await` where a load task is.  It goes through the
inner `finally` and then through `except Exception`.

Design.  `SwitchKeeps` compares the maps before and after one segment of a
load task; `SwitchSegment` adds that a task which has ended has closed its
replacement.  Every function of the task is shown to be a `SwitchSegment`
of itself, unless it installs the replacement.

Main result.  `failedSwitch_atomic`.  The one entry that a failure may
change is the lock of a model whose engine has been taken out of service
meanwhile (`failedSwitch_popsLock`).
-/
import InferBridge.LoadTargets

namespace InferBridge

variable {μ δ : Type*} [DecidableEq μ] [DecidableEq δ]

/-! ### Exceptions -/

omit [DecidableEq μ] [DecidableEq δ] in
/-- `devices`: written, and popped, next to `engines` by every function of the source. -/
def Manager.recordedDevice (s : Manager μ δ) (m : μ) : Option δ :=
  (s.engines m).bind fun e => (s.engine e).device

namespace Manager

omit [DecidableEq δ] in
/-- An exception is raised at the `await` where the load task is, before the installation. -/
def raiseLoad (s : Manager μ δ) (t : Nat) (m : μ) (current : δ) (build : Build) :
    LoadStage → Option (Manager μ δ)
  | .waitLoadLock | .gotLoadLock | .converting | .waitHandoff _ _ | .gotHandoff _ _ =>
    some ((s.leaveLoad t).failLoad t m current)
  | .building =>
    match build with
    -- the build has ended: `future.result()` raises, or what follows it
    | .built => some (((s.takeFuture t).leaveLoad t).failLoad t m current)
    | .failed => some (((s.dropFuture t).leaveLoad t).failLoad t m current)
    | .absent | .running => none
  -- after a cancellation, `suppress(Exception)`
  | .queued | .settling | .finished | .returned => none

end Manager

inductive SwitchEvent (μ δ : Type*) where
  | event (e : Event μ δ)
  | raise (t : Nat)
deriving DecidableEq, Repr

omit [DecidableEq μ] [DecidableEq δ] in
/-- The load task whose segment the event is. -/
def SwitchEvent.task : SwitchEvent μ δ → Option Nat
  | .event (.startLoad t _) => some t
  | .event (.grantLoadLock t) => some t
  | .event (.resumeLoad t _ _) => some t
  | .event (.grantHandoffLock t) => some t
  | .event (.cancel t) => some t
  | .event (.returnLoad t) => some t
  | .raise t => some t
  | _ => none

def Manager.switchStep (cfg : ManagerSettings μ δ) (s : Manager μ δ) :
    SwitchEvent μ δ → Option (Manager μ δ)
  | .event e => s.step cfg e
  | .raise t =>
    match (s.task t).activity with
    | .load m current stage => s.raiseLoad t m current (s.awaited t) stage
    | _ => none

omit [DecidableEq μ] [DecidableEq δ] in
/-- The engine that the task has had built for the switch. -/
def Manager.HasBuilt (s : Manager μ δ) (t r : Nat) : Prop :=
  (s.task t).replacement = some r ∨ (s.task t).future = some r ∧ (s.engine r).build = .built

omit [DecidableEq μ] [DecidableEq δ] in
/-- The load task of the model has ended. -/
def Manager.Ended (s : Manager μ δ) (t : Nat) (m : μ) : Prop :=
  ∃ current, (s.task t).activity = .load m current .finished ∨
    (s.task t).activity = .load m current .returned

variable {cfg : ManagerSettings μ δ} {strict : Prop} {s s' s'' : Manager μ δ} {t : Nat} {m : μ}
  {current : δ}

/-! ### The invariant -/

omit [DecidableEq δ] in
theorem During.raiseLoad (h : During cfg strict s (some t)) (hquiet : (s.task t).Quiet)
    (hm : cfg.catalog m = true) {stage : LoadStage} (hstage : LoadOk (s.task t) stage)
    (hstep : s.raiseLoad t m current (s.awaited t) stage = some s') : Inv cfg strict s' := by
  have hleave (hfuture : (s.task t).future = none) :
      Inv cfg strict ((s.leaveLoad t).failLoad t m current) := by
    apply h.leaveLoad.failLoad _ hm (Manager.leaveLoad_idle hfuture)
    exact hquiet.of_activity (by simp)
  cases stage with
  | queued => cases hstep
  | settling => cases hstep
  | finished => cases hstep
  | returned => cases hstep
  | building =>
    rcases eb : s.awaited t with - | - | - | - <;> rw [eb] at hstep
    case absent => cases hstep
    case running => cases hstep
    case built =>
      obtain rfl := Option.some.inj hstep
      apply (h.take eb hstage.2.2.2).leaveLoad.failLoad _ hm
        (Manager.leaveLoad_idle (by simp [Manager.takeFuture]))
      exact hquiet.of_activity (by simp [Manager.takeFuture])
    case failed =>
      obtain rfl := Option.some.inj hstep
      apply (h.drop fun _ => eb).leaveLoad.failLoad _ hm
        (Manager.leaveLoad_idle (by simp [Manager.dropFuture]))
      exact hquiet.of_activity (by simp [Manager.dropFuture])
  | waitLoadLock =>
    obtain rfl := Option.some.inj hstep
    exact hleave hstage.2.2.1
  | gotLoadLock =>
    obtain rfl := Option.some.inj hstep
    exact hleave hstage.2.2.1
  | converting =>
    obtain rfl := Option.some.inj hstep
    exact hleave hstage.2.2.1
  | waitHandoff previous l =>
    obtain rfl := Option.some.inj hstep
    exact hleave hstage.2.2.1
  | gotHandoff previous l =>
    obtain rfl := Option.some.inj hstep
    exact hleave hstage.2.2.1

theorem switchStep_inv (h : Inv cfg False s) {e : SwitchEvent μ δ}
    (hstep : s.switchStep cfg e = some s') : Inv cfg False s' := by
  cases e with
  | event e => exact step_inv h False.elim hstep
  | raise t =>
    simp only [Manager.switchStep] at hstep
    split at hstep
    · next m current stage hactivity =>
      obtain ⟨hm, hok, hquiet⟩ := h.load_stage hactivity
      exact (h.start t).raiseLoad hquiet hm hok hstep
    · cases hstep

theorem run_switch_inv {es : List (SwitchEvent μ δ)}
    (hrun : Transition.run (Manager.switchStep cfg) Manager.initial es = some s) :
    Inv cfg False s :=
  Transition.run_always (fun _ _ _ h hstep => switchStep_inv h hstep) inv_initial hrun

/-! ### What a segment keeps -/

/-- The maps are as before; the lock of `m` itself may differ where it has no engine. -/
structure SwitchKeeps (s s' : Manager μ δ) (m : μ) : Prop where
  engines : s'.engines = s.engines
  device : ∀ e < s.nextEngine, (s'.engine e).device = (s.engine e).device
  nextEngine : s.nextEngine ≤ s'.nextEngine
  locks : ∀ m', m' ≠ m ∨ s.engines m ≠ none → s'.locks m' = s.locks m'

omit [DecidableEq μ] [DecidableEq δ] in
theorem SwitchKeeps.refl : SwitchKeeps s s m :=
  ⟨rfl, fun _ _ => rfl, le_rfl, fun _ _ => rfl⟩

omit [DecidableEq μ] [DecidableEq δ] in
theorem SwitchKeeps.trans (h : SwitchKeeps s s' m) (h' : SwitchKeeps s' s'' m) :
    SwitchKeeps s s'' m := by
  refine ⟨h'.engines.trans h.engines, ?_, h.nextEngine.trans h'.nextEngine, ?_⟩
  · intro e he
    rw [h'.device e (he.trans_le h.nextEngine), h.device e he]
  · intro m' hm'
    have hmid : m' ≠ m ∨ s'.engines m ≠ none := by rwa [h.engines]
    rw [h'.locks m' hmid, h.locks m' hm']

omit [DecidableEq μ] [DecidableEq δ] in
theorem SwitchKeeps.devices (h : SwitchKeeps s s' m) (hcore : Core cfg s) :
    s'.recordedDevice = s.recordedDevice := by
  funext m'
  unfold Manager.recordedDevice
  rw [h.engines]
  rcases ee : s.engines m' with - | e
  · rfl
  · show (s'.engine e).device = (s.engine e).device
    exact h.device e (hcore.installed m' e ee).2.1

omit [DecidableEq μ] [DecidableEq δ] in
/-- Locks, close counts and the task itself are of no concern, nor is the lock map where it is
the same. -/
theorem Agrees.switchKeeps (h : Agrees s s' t) (hlocks : s'.locks = s.locks)
    (hnext : s'.nextEngine = s.nextEngine) : SwitchKeeps s s' m :=
  ⟨h.engines, fun e _ => h.device e, hnext.ge, fun m' _ => by rw [hlocks]⟩

/-- One segment of the task: the maps are as before, and a task that has ended has closed the
replacement it held. -/
structure SwitchSegment (s s' : Manager μ δ) (t : Nat) (m : μ) : Prop where
  keeps : SwitchKeeps s s' m
  closed : s'.Ended t m → ∀ r, (s.task t).replacement = some r →
    (s'.engine r).closes = (s.engine r).closes + 1

/-- What happens in a segment before the task leaves or goes on. -/
structure SwitchPrelude (s s' : Manager μ δ) (t : Nat) (m : μ) : Prop where
  keeps : SwitchKeeps s s' m
  replacement : (s'.task t).replacement = (s.task t).replacement
  closes : ∀ r, (s.task t).replacement = some r → (s'.engine r).closes = (s.engine r).closes

omit [DecidableEq μ] [DecidableEq δ] in
theorem SwitchPrelude.segment (h : SwitchPrelude s s' t m) (h' : SwitchSegment s' s'' t m) :
    SwitchSegment s s'' t m := by
  refine ⟨h.keeps.trans h'.keeps, ?_⟩
  intro hended r hr
  rw [h'.closed hended r (by rw [h.replacement, hr]), h.closes r hr]

omit [DecidableEq μ] [DecidableEq δ] in
theorem SwitchPrelude.refl : SwitchPrelude s s t m := ⟨.refl, rfl, fun _ _ => rfl⟩

omit [DecidableEq μ] [DecidableEq δ] in
/-- The task goes on. -/
theorem SwitchPrelude.goTo (h : SwitchPrelude s s' t m) {stage : LoadStage}
    (hstage : stage ≠ .finished ∧ stage ≠ .returned) :
    SwitchSegment s (s'.goTo t (.load m current stage)) t m := by
  refine ⟨h.keeps.trans ((agrees_goTo _).switchKeeps rfl rfl), ?_⟩
  rintro ⟨other, hended⟩
  simp only [Manager.goTo, Function.update_self, Activity.load.injEq, true_and] at hended
  tauto

omit [DecidableEq μ] [DecidableEq δ] in
theorem leaveLoad_locks : (s.leaveLoad t).locks = s.locks := by
  have hclose : (s.closeReplacement t).locks = s.locks := by
    unfold Manager.closeReplacement
    split <;> rfl
  have hrelease (x : Manager μ δ) : (x.releaseLock t).locks = x.locks := by
    unfold Manager.releaseLock
    split <;> rfl
  have hload (x : Manager μ δ) : (x.releaseLoadLock t).locks = x.locks := by
    unfold Manager.releaseLoadLock
    split <;> rfl
  unfold Manager.leaveLoad
  rw [hload, hrelease, hclose]

omit [DecidableEq μ] [DecidableEq δ] in
theorem leaveLoad_engine :
    (s.leaveLoad t).engine = (s.closeReplacement t).engine ∧
      (s.leaveLoad t).nextEngine = s.nextEngine := by
  have hclose : (s.closeReplacement t).nextEngine = s.nextEngine := by
    unfold Manager.closeReplacement
    split <;> rfl
  have hrelease (x : Manager μ δ) : (x.releaseLock t).engine = x.engine ∧
      (x.releaseLock t).nextEngine = x.nextEngine := by
    unfold Manager.releaseLock
    split <;> exact ⟨rfl, rfl⟩
  have hload (x : Manager μ δ) : (x.releaseLoadLock t).engine = x.engine ∧
      (x.releaseLoadLock t).nextEngine = x.nextEngine := by
    unfold Manager.releaseLoadLock
    split <;> exact ⟨rfl, rfl⟩
  unfold Manager.leaveLoad
  rw [(hload _).1, (hrelease _).1, (hload _).2, (hrelease _).2, hclose]
  exact ⟨rfl, rfl⟩

omit [DecidableEq μ] [DecidableEq δ] in
/-- The task has left: what follows keeps the maps and closes nothing more. -/
theorem SwitchKeeps.left (h : SwitchKeeps (s.leaveLoad t) s' m)
    (hengine : s'.engine = (s.leaveLoad t).engine) : SwitchSegment s s' t m := by
  refine ⟨(agrees_leaveLoad.switchKeeps leaveLoad_locks leaveLoad_engine.2).trans h, ?_⟩
  intro _ r hr
  rw [hengine, leaveLoad_engine.1]
  simp [Manager.closeReplacement, Manager.close, Manager.dropReplacement, hr]

/-! ### The functions of a load task -/

omit [DecidableEq δ] in
theorem finishLoad_keepsMaps : SwitchKeeps s (s.finishLoad t m current) m :=
  ⟨rfl, fun _ _ => rfl, le_rfl, fun _ _ => rfl⟩

omit [DecidableEq δ] in
theorem failLoad_keepsMaps : SwitchKeeps s (s.failLoad t m current) m ∧
    (s.failLoad t m current).engine = s.engine := by
  unfold Manager.failLoad
  rcases ee : s.engines m with - | e
  · refine ⟨⟨rfl, fun _ _ => rfl, le_rfl, ?_⟩, rfl⟩
    rintro m' (hne | hinstalled)
    · show Function.update s.locks m none m' = s.locks m'
      rw [Function.update_of_ne hne]
    · exact absurd ee hinstalled
  · exact ⟨finishLoad_keepsMaps, rfl⟩

theorem loopTop_keepsMaps (inspection : Manager.Inspection) :
    SwitchKeeps s (s.loopTop cfg t m current inspection) m ∧
      (s.loopTop cfg t m current inspection).engine = s.engine := by
  have hgoTo (activity : Activity μ δ) : SwitchKeeps s (s.goTo t activity) m ∧
      (s.goTo t activity).engine = s.engine :=
    ⟨(agrees_goTo _).switchKeeps rfl rfl, rfl⟩
  unfold Manager.loopTop
  dsimp only
  split
  · exact ⟨finishLoad_keepsMaps, rfl⟩
  · cases inspection with
    | unavailable => exact failLoad_keepsMaps
    | missing =>
      dsimp only
      split
      · exact hgoTo _
      · exact failLoad_keepsMaps
    | downloaded => exact hgoTo _

/-- `continue`, or what the check lets through. -/
theorem SwitchSegment.unlessRetargeted {goOn : Manager μ δ} (h : SwitchSegment s goOn t m)
    (inspection : Manager.Inspection) :
    SwitchSegment s (s.unlessRetargeted cfg t m current inspection goOn) t m := by
  unfold Manager.unlessRetargeted
  split
  · exact h
  · exact (loopTop_keepsMaps inspection).1.left (loopTop_keepsMaps inspection).2

theorem compile_segment (hfresh : ∀ r, (s.task t).replacement = some r → r < s.nextEngine)
    (inspection : Manager.Inspection) :
    SwitchSegment s (s.compile cfg t m current inspection) t m := by
  apply SwitchSegment.unlessRetargeted
  apply SwitchPrelude.goTo _ (by simp)
  refine ⟨⟨rfl, ?_, Nat.le_succ _, fun _ _ => rfl⟩, by simp [Manager.startBuild], ?_⟩
  · intro e he
    simp [Manager.startBuild, he.ne]
  · intro r hr
    simp [Manager.startBuild, (hfresh r hr).ne]

theorem afterLoadLock_segment (hfresh : ∀ r, (s.task t).replacement = some r → r < s.nextEngine)
    (inspection : Manager.Inspection) :
    SwitchSegment s (s.afterLoadLock cfg t m current inspection) t m := by
  apply SwitchSegment.unlessRetargeted
  split
  · exact finishLoad_keepsMaps.left rfl
  · cases inspection with
    | unavailable => exact failLoad_keepsMaps.1.left failLoad_keepsMaps.2
    | missing => exact SwitchPrelude.refl.goTo (by simp)
    | downloaded => exact compile_segment hfresh _

theorem afterConversion_segment (hfresh : ∀ r, (s.task t).replacement = some r → r < s.nextEngine)
    (first again : Manager.Inspection) :
    SwitchSegment s (s.afterConversion cfg t m current first again) t m := by
  cases first with
  | downloaded => exact compile_segment hfresh again
  | missing => exact failLoad_keepsMaps.1.left failLoad_keepsMaps.2
  | unavailable => exact failLoad_keepsMaps.1.left failLoad_keepsMaps.2

/-- The segment installs the replacement. -/
def Manager.Installs (s s' : Manager μ δ) (t : Nat) (m : μ) : Prop :=
  ∃ r, (s.task t).replacement = some r ∧ s'.engines m = some r

omit [DecidableEq δ] in
theorem install_engines {r : Nat} (hr : (s.task t).replacement = some r) (previous : Option Nat) :
    (s.install t m previous).engines m = some r := by
  cases previous with
  | none =>
    show Function.update s.engines m (s.task t).replacement m = some r
    rw [Function.update_self, hr]
  | some e =>
    show Function.update s.engines m (s.task t).replacement m = some r
    rw [Function.update_self, hr]

theorem completeHandoff_segment {r : Nat} (hr : (s.task t).replacement = some r)
    (previous : Option Nat) (inspection : Manager.Inspection) :
    SwitchSegment s (s.completeHandoff cfg t m current previous inspection) t m ∨
      s.Installs (s.completeHandoff cfg t m current previous inspection) t m := by
  unfold Manager.completeHandoff Manager.unlessRetargeted
  split
  · right
    refine ⟨r, hr, ?_⟩
    show ((s.install t m previous).leaveLoad t).engines m = some r
    rw [Manager.leaveLoad_engines, install_engines hr]
  · left
    exact (loopTop_keepsMaps inspection).1.left (loopTop_keepsMaps inspection).2

omit [DecidableEq δ] in
/-- `get_lock` creates nothing for a model that has an engine. -/
theorem getLock_prelude (hinstalled : s.engines m ≠ none → ∃ l, s.locks m = some l) :
    SwitchPrelude s (s.getLock m).1 t m := by
  rcases el : s.locks m with - | l
  · have hnone : s.engines m = none := by
      by_contra hengine
      obtain ⟨l, hl⟩ := hinstalled hengine
      simp [el] at hl
    rw [Manager.getLock, el]
    refine ⟨⟨rfl, fun _ _ => rfl, le_rfl, ?_⟩, rfl, fun _ _ => rfl⟩
    rintro m' (hne | hengine)
    · show Function.update s.locks m (some s.nextLock) m' = s.locks m'
      rw [Function.update_of_ne hne]
    · exact absurd hnone hengine
  · rw [Manager.getLock, el]
    exact .refl

theorem handoff_segment {r : Nat} (hr : (s.task t).replacement = some r)
    (hinstalled : s.engines m ≠ none → ∃ l, s.locks m = some l)
    (inspection : Manager.Inspection) :
    SwitchSegment s (s.handoff cfg t m current inspection) t m ∨
      s.Installs (s.handoff cfg t m current inspection) t m := by
  unfold Manager.handoff
  rcases ee : s.engines m with - | previous
  · exact completeHandoff_segment hr none inspection
  · left
    exact (getLock_prelude hinstalled).goTo (by simp)

omit [DecidableEq μ] [DecidableEq δ] in
theorem releaseLock_prelude : SwitchPrelude s (s.releaseLock t) t m := by
  have hsame : (s.releaseLock t).locks = s.locks ∧ (s.releaseLock t).engine = s.engine ∧
      (s.releaseLock t).nextEngine = s.nextEngine := by
    unfold Manager.releaseLock
    split <;> exact ⟨rfl, rfl, rfl⟩
  refine ⟨agrees_releaseLock.switchKeeps hsame.1 hsame.2.2, by simp, ?_⟩
  intro r _
  rw [hsame.2.1]

omit [DecidableEq μ] [DecidableEq δ] in
theorem SwitchPrelude.orInstalls (h : SwitchPrelude s s' t m)
    (h' : SwitchSegment s' s'' t m ∨ s'.Installs s'' t m) :
    SwitchSegment s s'' t m ∨ s.Installs s'' t m := by
  rcases h' with hsegment | ⟨r, hr, hinstalls⟩
  · exact .inl (h.segment hsegment)
  · exact .inr ⟨r, by rw [← h.replacement, hr], hinstalls⟩

theorem afterHandoffLock_segment {r : Nat} (hr : (s.task t).replacement = some r)
    (hinstalled : s.engines m ≠ none → ∃ l, s.locks m = some l) (previous l : Nat)
    (inspection : Manager.Inspection) :
    SwitchSegment s (s.afterHandoffLock cfg t m current previous l inspection) t m ∨
      s.Installs (s.afterHandoffLock cfg t m current previous l inspection) t m := by
  have hprelude : SwitchPrelude s (s.getLock m).1 t m := getLock_prelude hinstalled
  have hlocks := Manager.getLock_locks (s := s) m
  unfold Manager.afterHandoffLock
  generalize s.getLock m = later at *
  obtain ⟨later, latestLock⟩ := later
  dsimp only at *
  have hlater : (later.task t).replacement = some r := by rw [hprelude.replacement, hr]
  split
  · exact hprelude.orInstalls (completeHandoff_segment hlater _ _)
  · apply hprelude.orInstalls
    apply releaseLock_prelude.orInstalls
    apply handoff_segment (by simpa using hlater)
    intro _
    refine ⟨latestLock, ?_⟩
    rw [← hlocks]
    unfold Manager.releaseLock
    split <;> rfl

/-! ### One event of the switch -/

/-- One event of the load task: the maps are as before; where it ends the task and the build
is not left behind (`settled`), the engine it has had built is closed. -/
structure SwitchStep (s s' : Manager μ δ) (t : Nat) (m : μ) (settled : Prop) : Prop where
  keeps : SwitchKeeps s s' m
  closed : settled → s'.Ended t m → ∀ r, s.HasBuilt t r →
    (s'.engine r).closes = (s.engine r).closes + 1

omit [DecidableEq μ] [DecidableEq δ] in
theorem Task.Idle.hasBuilt (h : (s.task t).Idle) (r : Nat) : ¬ s.HasBuilt t r := by
  obtain ⟨-, -, hfuture, hreplacement⟩ := h
  rintro (hr | ⟨hr, -⟩)
  · simp [hreplacement] at hr
  · simp [hfuture] at hr

omit [DecidableEq μ] [DecidableEq δ] in
/-- The task has nothing to close. -/
theorem SwitchKeeps.idle {settled : Prop} (h : SwitchKeeps s s' m) (hidle : (s.task t).Idle) :
    SwitchStep s s' t m settled :=
  ⟨h, fun _ _ r hr => absurd hr (hidle.hasBuilt r)⟩

omit [DecidableEq μ] [DecidableEq δ] in
theorem SwitchSegment.step {settled : Prop} (h : SwitchSegment s s' t m)
    (hfuture : (s.task t).future = none) : SwitchStep s s' t m settled := by
  refine ⟨h.keeps, ?_⟩
  rintro - hended r (hr | ⟨hr, -⟩)
  · exact h.closed hended r hr
  · simp [hfuture] at hr

omit [DecidableEq μ] [DecidableEq δ] in
/-- A build that has not produced an engine leaves nothing to close. -/
theorem SwitchKeeps.unbuilt {settled : Prop} (h : SwitchKeeps s s' m)
    (hreplacement : (s.task t).replacement = none) (hunbuilt : s.awaited t ≠ .built) :
    SwitchStep s s' t m settled := by
  refine ⟨h, ?_⟩
  rintro - - r (hr | ⟨hr, hbuilt⟩)
  · simp [hreplacement] at hr
  · exact absurd (by rw [Manager.awaited_eq hr, hbuilt]) hunbuilt

omit [DecidableEq μ] [DecidableEq δ] in
/-- The engine built is the replacement from now on. -/
theorem SwitchSegment.taken {settled : Prop} (h : SwitchSegment (s.takeFuture t) s' t m)
    (hreplacement : (s.task t).replacement = none) : SwitchStep s s' t m settled := by
  have hkeeps : SwitchKeeps s (s.takeFuture t) m := agrees_takeFuture.switchKeeps rfl rfl
  refine ⟨hkeeps.trans h.keeps, ?_⟩
  rintro - hended r (hr | ⟨hr, -⟩)
  · simp [hreplacement] at hr
  · exact h.closed hended r (by simpa [Manager.takeFuture] using hr)

omit [DecidableEq μ] [DecidableEq δ] in
/-- The build has failed, and the task leaves. -/
theorem SwitchSegment.dropped {settled : Prop} (h : SwitchSegment (s.dropFuture t) s' t m)
    (hreplacement : (s.task t).replacement = none) (hfailed : s.awaited t = .failed) :
    SwitchStep s s' t m settled := by
  have hdrop : SwitchKeeps s (s.dropFuture t) m := ⟨rfl, fun _ _ => rfl, le_rfl, fun _ _ => rfl⟩
  exact (hdrop.trans h.keeps).unbuilt hreplacement (by simp [hfailed])

omit [DecidableEq μ] [DecidableEq δ] in
theorem leaveLoad_closed : ((s.closeReplacement t).leaveLoad t) = s.leaveLoad t := by
  have hagain : (s.closeReplacement t).closeReplacement t = s.closeReplacement t := by
    rw [Manager.closeReplacement, Manager.closeReplacement_task]
  unfold Manager.leaveLoad
  rw [hagain]

omit [DecidableEq μ] [DecidableEq δ] in
theorem Manager.Installs.taken (h : (s.takeFuture t).Installs s' t m) :
    ∃ r, (s.task t).future = some r ∧ s'.engines m = some r := by
  obtain ⟨r, hr, hinstalls⟩ := h
  exact ⟨r, by simpa [Manager.takeFuture] using hr, hinstalls⟩

omit [DecidableEq μ] [DecidableEq δ] in
/-- A task goes on from a lock it has waited for, or ends with nothing in hand. -/
theorem Agrees.going (h : Agrees s s' t) (hlocks : s'.locks = s.locks)
    (hnext : s'.nextEngine = s.nextEngine) {settled : Prop} {stage : LoadStage}
    (hstage : stage ≠ .finished ∧ stage ≠ .returned) :
    SwitchStep s (s'.goTo t (.load m current stage)) t m settled := by
  refine ⟨(h.switchKeeps hlocks hnext).trans ((agrees_goTo _).switchKeeps rfl rfl), ?_⟩
  rintro - ⟨other, hended⟩
  simp only [Manager.goTo, Function.update_self, Activity.load.injEq, true_and] at hended
  tauto

theorem afterBuild_step (hreplacement : (s.task t).replacement = none)
    (hinstalled : s.engines m ≠ none → ∃ l, s.locks m = some l) {settled : Prop}
    {inspection : Manager.Inspection}
    (hstep : s.afterBuild cfg t m current (s.awaited t) inspection = some s') :
    SwitchStep s s' t m settled ∨ ∃ r, s.HasBuilt t r ∧ s'.engines m = some r := by
  rcases eb : s.awaited t with - | - | - | - <;> rw [eb] at hstep
  case absent => cases hstep
  case running => cases hstep
  case failed =>
    obtain rfl := Option.some.inj hstep
    left
    apply SwitchSegment.dropped _ hreplacement eb
    exact failLoad_keepsMaps.1.left failLoad_keepsMaps.2
  case built =>
    obtain rfl := Option.some.inj hstep
    obtain ⟨e, hfuture⟩ : ∃ e, (s.task t).future = some e := by
      rcases ef : (s.task t).future with - | e
      · simp [Manager.awaited, ef] at eb
      · exact ⟨e, rfl⟩
    have hbuilt : s.HasBuilt t e := .inr ⟨hfuture, by rw [← Manager.awaited_eq hfuture, eb]⟩
    have htaken : ((s.takeFuture t).task t).replacement = some e := by
      simp [Manager.takeFuture, hfuture]
    unfold Manager.unlessRetargeted
    split
    · rcases handoff_segment htaken hinstalled inspection with hsegment | hinstalls
      · exact .inl (hsegment.taken hreplacement)
      · right
        obtain ⟨r, hr, hinstalled'⟩ := hinstalls.taken
        obtain rfl : r = e := by simpa [hfuture] using hr.symm
        exact ⟨r, hbuilt, hinstalled'⟩
    · left
      apply SwitchSegment.taken _ hreplacement
      exact (loopTop_keepsMaps inspection).1.left (loopTop_keepsMaps inspection).2

omit [DecidableEq δ] in
theorem settle_step (hreplacement : (s.task t).replacement = none) {settled : Prop}
    (hstep : s.settle t m current (s.awaited t) = some s') : SwitchStep s s' t m settled := by
  rcases eb : s.awaited t with - | - | - | - <;> rw [eb] at hstep
  case absent => cases hstep
  case running => cases hstep
  case failed =>
    obtain rfl := Option.some.inj hstep
    apply SwitchSegment.dropped _ hreplacement eb
    exact finishLoad_keepsMaps.left rfl
  case built =>
    obtain rfl := Option.some.inj hstep
    apply SwitchSegment.taken _ hreplacement
    -- the cleanup of the helper closes the engine before the `finally` would
    rw [leaveLoad_closed]
    exact finishLoad_keepsMaps.left rfl

omit [DecidableEq δ] in
theorem cancelLoad_step {stage : LoadStage} (hstage : LoadOk (s.task t) stage)
    (hstep : s.cancelLoad t m current (s.awaited t) stage = some s') :
    SwitchStep s s' t m (stage ≠ .settling) := by
  have hleave (hfuture : (s.task t).future = none) :
      SwitchStep s ((s.leaveLoad t).finishLoad t m current) t m (stage ≠ .settling) := by
    apply SwitchSegment.step _ hfuture
    exact finishLoad_keepsMaps.left rfl
  cases stage with
  | queued =>
    obtain rfl := Option.some.inj hstep
    exact ((agrees_goTo _).switchKeeps rfl rfl).idle hstage
  | building =>
    unfold Manager.cancelLoad at hstep
    rcases es : s.settle t m current (s.awaited t) with - | settled
    · rw [es] at hstep
      obtain rfl := Option.some.inj hstep
      exact Agrees.refl.going rfl rfl (by simp)
    · rw [es] at hstep
      obtain rfl := Option.some.inj hstep
      exact settle_step hstage.2.2.2 es
  | settling =>
    obtain rfl := Option.some.inj hstep
    have hdrop : SwitchKeeps s (s.dropFuture t) m := ⟨rfl, fun _ _ => rfl, le_rfl, fun _ _ => rfl⟩
    have hleft : SwitchSegment (s.dropFuture t)
        (((s.dropFuture t).leaveLoad t).finishLoad t m current) t m :=
      finishLoad_keepsMaps.left rfl
    exact ⟨hdrop.trans hleft.keeps, fun hne => absurd rfl hne⟩
  | waitLoadLock =>
    obtain rfl := Option.some.inj hstep
    exact hleave hstage.2.2.1
  | gotLoadLock =>
    obtain rfl := Option.some.inj hstep
    exact hleave hstage.2.2.1
  | converting =>
    obtain rfl := Option.some.inj hstep
    exact hleave hstage.2.2.1
  | waitHandoff previous l =>
    obtain rfl := Option.some.inj hstep
    exact hleave hstage.2.2.1
  | gotHandoff previous l =>
    obtain rfl := Option.some.inj hstep
    exact hleave hstage.2.2.1
  | finished => cases hstep
  | returned => cases hstep

omit [DecidableEq δ] in
theorem failLoad_locks : (s.failLoad t m current).locks =
    if s.engines m = none then Function.update s.locks m none else s.locks := by
  unfold Manager.failLoad
  rcases ee : s.engines m with - | e
  · rw [if_pos rfl]
    rfl
  · rw [if_neg nofun]
    rfl

omit [DecidableEq δ] in
theorem failLoad_ended : (s.failLoad t m current).Ended t m := by
  have hfinished (x : Manager μ δ) : (x.finishLoad t m current).Ended t m :=
    ⟨current, .inl (by simp [Manager.finishLoad, Manager.goTo])⟩
  unfold Manager.failLoad
  split
  · exact hfinished s
  · exact hfinished _

omit [DecidableEq δ] in
/-- An exception ends the task; only the lock of a model without an engine goes. -/
theorem raiseLoad_step {stage : LoadStage} (hstage : LoadOk (s.task t) stage)
    (hstep : s.raiseLoad t m current (s.awaited t) stage = some s') :
    SwitchStep s s' t m True ∧ s'.Ended t m ∧
      s'.locks = if s.engines m = none then Function.update s.locks m none else s.locks := by
  have hlocks (x : Manager μ δ) (hengines : x.engines = s.engines) (hsame : x.locks = s.locks) :
      ((x.leaveLoad t).failLoad t m current).locks =
        if s.engines m = none then Function.update s.locks m none else s.locks := by
    rw [failLoad_locks, Manager.leaveLoad_engines, leaveLoad_locks, hengines, hsame]
  have hleave (hfuture : (s.task t).future = none) :
      SwitchStep s ((s.leaveLoad t).failLoad t m current) t m True := by
    apply SwitchSegment.step _ hfuture
    exact failLoad_keepsMaps.1.left failLoad_keepsMaps.2
  cases stage with
  | queued => cases hstep
  | settling => cases hstep
  | finished => cases hstep
  | returned => cases hstep
  | building =>
    rcases eb : s.awaited t with - | - | - | - <;> rw [eb] at hstep
    case absent => cases hstep
    case running => cases hstep
    case built =>
      obtain rfl := Option.some.inj hstep
      refine ⟨?_, failLoad_ended, hlocks _ rfl rfl⟩
      apply SwitchSegment.taken _ hstage.2.2.2
      exact failLoad_keepsMaps.1.left failLoad_keepsMaps.2
    case failed =>
      obtain rfl := Option.some.inj hstep
      refine ⟨?_, failLoad_ended, hlocks _ rfl rfl⟩
      apply SwitchSegment.dropped _ hstage.2.2.2 eb
      exact failLoad_keepsMaps.1.left failLoad_keepsMaps.2
  | waitLoadLock =>
    obtain rfl := Option.some.inj hstep
    exact ⟨hleave hstage.2.2.1, failLoad_ended, hlocks s rfl rfl⟩
  | gotLoadLock =>
    obtain rfl := Option.some.inj hstep
    exact ⟨hleave hstage.2.2.1, failLoad_ended, hlocks s rfl rfl⟩
  | converting =>
    obtain rfl := Option.some.inj hstep
    exact ⟨hleave hstage.2.2.1, failLoad_ended, hlocks s rfl rfl⟩
  | waitHandoff previous l =>
    obtain rfl := Option.some.inj hstep
    exact ⟨hleave hstage.2.2.1, failLoad_ended, hlocks s rfl rfl⟩
  | gotHandoff previous l =>
    obtain rfl := Option.some.inj hstep
    exact ⟨hleave hstage.2.2.1, failLoad_ended, hlocks s rfl rfl⟩

/-- Every event of the load task keeps the maps, unless it installs the engine that the task
has had built. -/
theorem ownEvent_step (hinv : Inv cfg False s) {stage : LoadStage}
    (hactivity : (s.task t).activity = .load m current stage) {e : SwitchEvent μ δ}
    (hown : e.task = some t) (hstep : s.switchStep cfg e = some s') :
    SwitchStep s s' t m (e = .event (.cancel t) → stage ≠ .settling) ∨
      ∃ r, s.HasBuilt t r ∧ s'.engines m = some r := by
  obtain ⟨hm, hok, hquiet⟩ := hinv.load_stage hactivity
  have hinstalled : s.engines m ≠ none → ∃ l, s.locks m = some l := by
    intro hengine
    obtain ⟨e, he⟩ := Option.ne_none_iff_exists'.mp hengine
    exact (hinv.core.installed m e he).2.2
  have hfresh (r : Nat) (hr : (s.task t).replacement = some r) : r < s.nextEngine :=
    (hinv.core.owned t r (.inr hr)).1
  cases e with
  | raise t' =>
    obtain rfl := Option.some.inj hown
    simp only [Manager.switchStep, hactivity] at hstep
    obtain ⟨⟨hkeeps, hclosed⟩, -, -⟩ := raiseLoad_step hok hstep
    exact .inl ⟨hkeeps, fun _ => hclosed trivial⟩
  | event e =>
    cases e with
    | startLoad t' inspection =>
      obtain rfl := Option.some.inj hown
      simp only [Manager.switchStep, Manager.step, hactivity] at hstep
      cases stage <;> simp only [reduceCtorEq, Option.some.injEq] at hstep
      case queued =>
        subst hstep
        exact .inl ((loopTop_keepsMaps inspection).1.idle hok)
    | grantLoadLock t' =>
      obtain rfl := Option.some.inj hown
      simp only [Manager.switchStep, Manager.step, hactivity] at hstep
      split at hstep
      · next hcurrent _ =>
        obtain ⟨rfl, rfl, rfl⟩ := Activity.load.inj hcurrent
        obtain rfl := Option.some.inj hstep
        exact .inl (agrees_acquireLoadLock.going rfl rfl (by simp))
      · cases hstep
    | grantHandoffLock t' =>
      obtain rfl := Option.some.inj hown
      simp only [Manager.switchStep, Manager.step, hactivity] at hstep
      split at hstep
      · next previous l hcurrent =>
        obtain ⟨rfl, rfl, rfl⟩ := Activity.load.inj hcurrent
        split at hstep
        · obtain rfl := Option.some.inj hstep
          exact .inl ((agrees_acquireLock l).going rfl rfl (by simp))
        · cases hstep
      · cases hstep
    | cancel t' =>
      obtain rfl := Option.some.inj hown
      simp only [Manager.switchStep, Manager.step, hactivity] at hstep
      obtain ⟨hkeeps, hclosed⟩ := cancelLoad_step hok hstep
      exact .inl ⟨hkeeps, fun hsettled => hclosed (hsettled rfl)⟩
    | returnLoad t' =>
      obtain rfl := Option.some.inj hown
      simp only [Manager.switchStep, Manager.step, hactivity] at hstep
      split at hstep
      · next hcurrent =>
        obtain ⟨rfl, rfl, rfl⟩ := Activity.load.inj hcurrent
        obtain rfl := Option.some.inj hstep
        exact .inl (((agrees_goTo _).switchKeeps rfl rfl).idle hok)
      · cases hstep
    | resumeLoad t' first again =>
      obtain rfl := Option.some.inj hown
      simp only [Manager.switchStep, Manager.step, hactivity] at hstep
      split at hstep
      case h_1 hcurrent =>
        obtain ⟨rfl, rfl, rfl⟩ := Activity.load.inj hcurrent
        obtain rfl := Option.some.inj hstep
        exact .inl ((afterLoadLock_segment hfresh first).step hok.2.2.1)
      case h_2 hcurrent =>
        obtain ⟨rfl, rfl, rfl⟩ := Activity.load.inj hcurrent
        obtain rfl := Option.some.inj hstep
        exact .inl ((afterConversion_segment hfresh first again).step hok.2.2.1)
      case h_3 hcurrent =>
        obtain ⟨rfl, rfl, rfl⟩ := Activity.load.inj hcurrent
        exact afterBuild_step hok.2.2.2 hinstalled hstep
      case h_4 hcurrent =>
        obtain ⟨rfl, rfl, rfl⟩ := Activity.load.inj hcurrent
        exact .inl (settle_step hok.2.2.2 hstep)
      case h_5 previous l hcurrent =>
        obtain ⟨rfl, rfl, rfl⟩ := Activity.load.inj hcurrent
        obtain rfl := Option.some.inj hstep
        obtain ⟨-, -, hfuture, hreplacement⟩ := hok
        obtain ⟨r, hr⟩ := Option.ne_none_iff_exists'.mp hreplacement
        rcases afterHandoffLock_segment hr hinstalled previous l first with hsegment | ⟨r', hr', hi⟩
        · exact .inl (hsegment.step hfuture)
        · exact .inr ⟨r', .inl hr', hi⟩
      case h_6 => cases hstep
    | scheduleLoad t' m' device => cases hown
    | endBuild e result => cases hown
    | createEngine device => cases hown
    | request t' m' engine => cases hown
    | grantLease t' => cases hown
    | endGeneration t' how => cases hown
    | resumeRequest t' => cases hown
    | configureContext t' m' refused => cases hown
    | configureLocked t' refused rebuild => cases hown
    | resumeConfigure t' => cases hown
    | configureHandoff t' refused => cases hown
    | unload m' => cases hown

omit [DecidableEq μ] [DecidableEq δ] in
/-- A load task that has ended holds no lock. -/
theorem ended_locks (hinv : Inv cfg False s) (hended : s.Ended t m) :
    s.loadLock ≠ some t ∧ ∀ l, s.lockHolder l ≠ some t := by
  have hidle : (s.task t).Idle := by
    obtain ⟨current, hactivity | hactivity⟩ := hended
    · exact (hinv.load_stage hactivity).2.1
    · exact (hinv.load_stage hactivity).2.1
  obtain ⟨hload, hlock, -, -⟩ := hidle
  refine ⟨?_, ?_⟩
  · intro hholder
    simp [(hinv.core.loadLock t).mp hholder] at hload
  · intro l hholder
    simp [(hinv.core.lock l t).mp hholder] at hlock

omit [DecidableEq μ] [DecidableEq δ] in
/-- An engine that a task has had built is open and not installed. -/
theorem HasBuilt.loose (hinv : Inv cfg False s) {r : Nat} (hr : s.HasBuilt t r) :
    (s.engine r).closes = 0 ∧ ∀ m, s.engines m ≠ some r := by
  have howned : (s.task t).future = some r ∨ (s.task t).replacement = some r := by
    rcases hr with hreplacement | ⟨hfuture, -⟩
    · exact .inr hreplacement
    · exact .inl hfuture
  obtain ⟨-, -, hcloses, hnowhere⟩ := hinv.core.owned t r howned
  exact ⟨hcloses, hnowhere⟩

/-- **A device switch that does not install its replacement changes nothing**: in every
reachable state, an event of the load task of `m` that does not install the engine built for
it leaves the engines, the recorded devices and the locks of every model as they are, but for
the lock of `m` itself where `m` has no engine.  If the task ends there, it holds neither the
load lock nor a model lock, and the engine it has had built is closed, once; only a second
cancellation, while the first waits for the build, may leave a build behind.  An exception
raised at any `await` before the installation is such an event, it ends the task, and the
lock of an `m` without engine is popped. -/
theorem failedSwitch_atomic {es : List (SwitchEvent μ δ)}
    (hrun : Transition.run (Manager.switchStep cfg) Manager.initial es = some s)
    {stage : LoadStage} (hactivity : (s.task t).activity = .load m current stage)
    {e : SwitchEvent μ δ} (hown : e.task = some t) (hstep : s.switchStep cfg e = some s') :
    ((∀ r, s.HasBuilt t r → s'.engines m ≠ some r) →
      s'.engines = s.engines ∧ s'.recordedDevice = s.recordedDevice ∧
        (∀ m', m' ≠ m ∨ s.engines m ≠ none → s'.locks m' = s.locks m') ∧
        (s'.Ended t m → s'.loadLock ≠ some t ∧ (∀ l, s'.lockHolder l ≠ some t) ∧
          ((e = .event (.cancel t) → stage ≠ .settling) →
            ∀ r, s.HasBuilt t r → (s'.engine r).closes = 1))) ∧
    (e = .raise t →
      s'.Ended t m ∧ (∀ r, s.HasBuilt t r → ∀ m', s'.engines m' ≠ some r) ∧
        s'.locks = if s.engines m = none then Function.update s.locks m none else s.locks) := by
  have hinv := run_switch_inv hrun
  refine ⟨?_, ?_⟩
  · intro hnot
    rcases ownEvent_step hinv hactivity hown hstep with ⟨hkeeps, hclosed⟩ | ⟨r, hr, hinstalls⟩
    · refine ⟨hkeeps.engines, hkeeps.devices hinv.core, hkeeps.locks, ?_⟩
      intro hended
      obtain ⟨hload, hlock⟩ := ended_locks (switchStep_inv hinv hstep) hended
      refine ⟨hload, hlock, ?_⟩
      intro hsettled r hr
      rw [hclosed hsettled hended r hr, (HasBuilt.loose hinv hr).1]
    · exact absurd hinstalls (hnot r hr)
  · rintro rfl
    obtain ⟨-, hok, -⟩ := hinv.load_stage hactivity
    simp only [Manager.switchStep, hactivity] at hstep
    obtain ⟨⟨hkeeps, -⟩, hended, hlocks⟩ := raiseLoad_step hok hstep
    refine ⟨hended, ?_, hlocks⟩
    intro r hr m'
    rw [hkeeps.engines]
    exact (HasBuilt.loose hinv hr).2 m'

/-- The model runs on device 0; its replacement for device 1 waits for the handoff. -/
def switching : List (Event Nat Nat) :=
  loadsOn 0 0 0 ++
    [.scheduleLoad 1 0 (some 1), .startLoad 1 .downloaded, .grantLoadLock 1,
      .resumeLoad 1 .downloaded .downloaded, .endBuild 1 (some 1),
      .resumeLoad 1 .downloaded .downloaded]

theorem failedSwitch_atomic_waiting : ∃ s s' : Manager Nat Nat,
    Transition.run (Manager.switchStep oneModel) Manager.initial (switching.map .event) = some s ∧
      s.switchStep oneModel (.raise 1) = some s' ∧ s.HasBuilt 1 1 ∧
      s'.engines = s.engines ∧ s'.recordedDevice = s.recordedDevice ∧
      (s'.engine 1).closes = 1 := by
  have hbuilt : (Option.get (Transition.run (Manager.switchStep oneModel) Manager.initial
      (switching.map .event)) (by decide)).HasBuilt 1 1 := .inl (by decide)
  have hatomic := @failedSwitch_atomic _ _ _ _ oneModel (Option.get _ (by decide))
    (Option.get _ (by decide)) 1 0 1 (switching.map .event) (Option.some_get _).symm
    (.waitHandoff 0 0) (by decide) (.raise 1) rfl (Option.some_get _).symm
  obtain ⟨hended, hnowhere, -⟩ := hatomic.2 rfl
  obtain ⟨hengines, hdevices, -, hends⟩ := hatomic.1 fun r hr => hnowhere r hr 0
  exact ⟨_, _, (Option.some_get _).symm, (Option.some_get _).symm, hbuilt, hengines, hdevices,
    (hends hended).2.2 nofun 1 hbuilt⟩

/-- While the replacement is built, a generation on the old engine is stuck, and its engine is
taken out of service; then the build fails. -/
def quarantined : List (Event Nat Nat) :=
  loadsOn 0 0 0 ++
    [.request 1 0 0, .grantLease 1, .scheduleLoad 2 0 (some 1), .startLoad 2 .downloaded,
      .grantLoadLock 2, .resumeLoad 2 .downloaded .downloaded, .endGeneration 1 .stuck,
      .endBuild 1 none]

/-- The failure pops the lock of the model, whose engine is gone. -/
theorem failedSwitch_popsLock : ¬ ∀ (es : List (SwitchEvent Nat Nat)) (s s' : Manager Nat Nat)
    (t m current : Nat) (stage : LoadStage),
    Transition.run (Manager.switchStep oneModel) Manager.initial es = some s →
      (s.task t).activity = .load m current stage →
        s.switchStep oneModel (.raise t) = some s' →
          s'.engines = s.engines ∧ s'.locks = s.locks ∧ s'.recordedDevice = s.recordedDevice := by
  intro h
  have hkept := h (quarantined.map .event) (Option.get _ (by decide)) (Option.get _ (by decide))
    2 0 1 .building (Option.some_get _).symm (by decide) (Option.some_get _).symm
  exact absurd (congrFun hkept.2.1 0) (by decide)

end InferBridge
