/-
InferBridge/LoadTargets.lean

The newest explicit device wins: once the load tasks of a model have
finished, its engine runs on the device of the last request.

Design.  A run is looked at together with the last request of each model
(`last`).  `Targets` says that a registered load task works towards the last
request and that without one the installed engine is already there; the task
in the middle of a segment is left out.  The locks, the close counts and the
leases are of no concern (`Agrees`).

Main results.  `newestDevice_wins`, for runs in which no request is answered
from the installed engine while a switch to another device is in flight and
no build is moved to another device; `newestDevice_lost` is the run of two
requests that shows the first condition to be needed.
-/
import InferBridge.EngineSegments

namespace InferBridge

variable {μ δ : Type*} [DecidableEq μ] [DecidableEq δ]

/-! ### Requests and runs -/

/-- The device that an event requests for the model. -/
def requestedDevice (cfg : ManagerSettings μ δ) (m : μ) : Event μ δ → Option δ
  | .scheduleLoad _ m' device => if m' = m then some (device.getD cfg.device) else none
  | _ => none

def lastRequest (cfg : ManagerSettings μ δ) (m : μ) (es : List (Event μ δ)) : Option δ :=
  es.foldl (fun last e => (requestedDevice cfg m e).or last) none

omit [DecidableEq δ] in
theorem lastRequest_append {cfg : ManagerSettings μ δ} {m : μ} {es : List (Event μ δ)}
    {e : Event μ δ} :
    lastRequest cfg m (es ++ [e]) = (requestedDevice cfg m e).or (lastRequest cfg m es) := by
  simp [lastRequest]

/-- An inspection that does not fail the load. -/
def Manager.Inspection.passes (cfg : ManagerSettings μ δ) : Manager.Inspection → Bool
  | .unavailable => false
  | .missing => cfg.autoConvert
  | .downloaded => true

/-- Requests and load tasks, the requests accepted and the tasks successful, beside requests
that use the engine. -/
def loadsSucceed (cfg : ManagerSettings μ δ) (s : Manager μ δ) : Event μ δ → Bool
  | .scheduleLoad _ m _ => cfg.catalog m
  | .startLoad _ inspection => inspection.passes cfg
  | .resumeLoad t first again =>
    first.passes cfg && again.passes cfg &&
      match (s.task t).activity with
      | .load _ _ .converting => first == .downloaded
      | .load _ _ .building => s.awaited t == .built
      | .load _ _ .settling => false
      | _ => true
  | .endBuild _ result => result.isSome
  | .endGeneration _ how => how == .completed
  | .cancel t =>
    match (s.task t).activity with
    | .request _ _ _ => true
    | _ => false
  | .grantLoadLock _ | .grantHandoffLock _ | .returnLoad _ | .createEngine _ | .request _ _ _
  | .grantLease _ => true
  | .resumeRequest _ | .configureContext _ _ _ | .configureLocked _ _ _ | .resumeConfigure _
  | .configureHandoff _ _ | .unload _ => false

/-- No request is answered from the installed engine while a load task is on its way to
another device. -/
def keepsTargets (cfg : ManagerSettings μ δ) (s : Manager μ δ) : Event μ δ → Bool
  | .scheduleLoad _ m device =>
    !(s.runsOn m (device.getD cfg.device) && s.loadActive m &&
      (s.targets m != some (device.getD cfg.device)))
  | _ => true

/-- A build ends on the device it was asked for: the loader has not taken the NPU out of it. -/
def buildsAsAsked (s : Manager μ δ) : Event μ δ → Bool
  | .endBuild e (some device) => (s.engine e).target == some device
  | _ => true

/-! ### The invariant -/

/-- The engine was built for this device, or is on it. -/
def Manager.serves (s : Manager μ δ) (m : μ) (device : δ) : Bool :=
  match s.engines m with
  | none => false
  | some e => (s.engine e).device = some device || (s.engine e).target = some device

/-- The task has registered and not finished. -/
def LoadStage.live : LoadStage → Bool
  | .finished | .returned => false
  | _ => true

/-- The task is in no load, or has finished with it. -/
def Task.Passive (k : Task μ δ) : Prop :=
  ∀ m current stage, k.activity = .load m current stage → stage.live = false ∧ k.Idle

/-- The registered load tasks work towards the last requests; `running` is in the middle of a
segment.  Where `pinned` holds no build has been moved to another device. -/
structure Targets (pinned : Prop) (last : μ → Option δ) (s : Manager μ δ) (running : Option Nat) : Prop where
  registered : ∀ t m current stage, some t ≠ running →
    (s.task t).activity = .load m current stage → stage.live = true → s.loadTasks m = some t
  active : ∀ m t, some t ≠ running → s.loadTasks m = some t →
    ∃ current stage, (s.task t).activity = .load m current stage ∧ stage.live = true
  newest : ∀ m t, s.loadTasks m = some t → s.targets m = last m
  served : ∀ m device, s.loadTasks m = none → last m = some device → s.serves m device = true
  building : ∀ t m current stage e, some t ≠ running →
    (s.task t).activity = .load m current stage → (s.task t).future = some e →
      (s.engine e).target = some current
  holding : ∀ t m current stage e, some t ≠ running →
    (s.task t).activity = .load m current stage → (s.task t).replacement = some e →
      (s.engine e).target = some current ∧ (s.engine e).build = .built
  built : pinned → ∀ e device, (s.engine e).build = .built → (s.engine e).target = some device →
    (s.engine e).device = some device
  installed : ∀ m e, s.engines m = some e → (s.engine e).build = .built

/-- The states differ in locks, close counts and task `t` only. -/
structure Agrees (s s' : Manager μ δ) (t : Nat) : Prop where
  engines : s'.engines = s.engines
  loadTasks : s'.loadTasks = s.loadTasks
  targets : s'.targets = s.targets
  device : ∀ e, (s'.engine e).device = (s.engine e).device
  target : ∀ e, (s'.engine e).target = (s.engine e).target
  builder : ∀ e, (s'.engine e).builder = (s.engine e).builder
  build : ∀ e, (s'.engine e).build = (s.engine e).build
  others : ∀ t', t' ≠ t → s'.task t' = s.task t'

variable {pinned : Prop} {cfg : ManagerSettings μ δ} {last : μ → Option δ} {s s' s'' : Manager μ δ} {t : Nat}
  {m : μ} {current : δ}

omit [DecidableEq μ] [DecidableEq δ] in
theorem Agrees.refl : Agrees s s t :=
  ⟨rfl, rfl, rfl, fun _ => rfl, fun _ => rfl, fun _ => rfl, fun _ => rfl, fun _ _ => rfl⟩

omit [DecidableEq μ] [DecidableEq δ] in
theorem Agrees.trans (h : Agrees s s' t) (h' : Agrees s' s'' t) : Agrees s s'' t := by
  obtain ⟨h1, h2, h3, h4, h5, h6, h7, h8⟩ := h
  obtain ⟨k1, k2, k3, k4, k5, k6, k7, k8⟩ := h'
  refine ⟨k1.trans h1, k2.trans h2, k3.trans h3, ?_, ?_, ?_, ?_, ?_⟩
  · exact fun e => (k4 e).trans (h4 e)
  · exact fun e => (k5 e).trans (h5 e)
  · exact fun e => (k6 e).trans (h6 e)
  · exact fun e => (k7 e).trans (h7 e)
  · exact fun t' hne => (k8 t' hne).trans (h8 t' hne)

omit [DecidableEq μ] in
theorem Manager.runsOn_iff {device : δ} : s.runsOn m device = true ↔
    ∃ e, s.engines m = some e ∧ (s.engine e).device = some device := by
  unfold Manager.runsOn
  rcases s.engines m with - | e <;> simp

omit [DecidableEq μ] in
theorem Manager.serves_iff {device : δ} : s.serves m device = true ↔
    ∃ e, s.engines m = some e ∧
      ((s.engine e).device = some device ∨ (s.engine e).target = some device) := by
  unfold Manager.serves
  rcases s.engines m with - | e <;> simp

omit [DecidableEq μ] in
theorem Manager.serves_of_runsOn {device : δ} (h : s.runsOn m device = true) :
    s.serves m device = true := by
  obtain ⟨e, he, hdevice⟩ := Manager.runsOn_iff.mp h
  exact Manager.serves_iff.mpr ⟨e, he, .inl hdevice⟩

omit [DecidableEq μ] in
theorem Agrees.serves (h : Agrees s s' t) (m : μ) (device : δ) :
    s'.serves m device = s.serves m device := by
  unfold Manager.serves
  rw [h.engines]
  split
  · rfl
  · next e _ => rw [h.device e, h.target e]

omit [DecidableEq μ] in
theorem Targets.agrees (h : Targets pinned last s (some t)) (ha : Agrees s s' t) :
    Targets pinned last s' (some t) := by
  obtain ⟨h1, h2, h3, h4, h5, h6, h7, h8⟩ := h
  have hother : ∀ t', some t' ≠ some t → s'.task t' = s.task t' := by
    intro t' hne
    exact ha.others t' (by simpa using hne)
  refine ⟨?_, ?_, ?_, ?_, ?_, ?_, ?_, ?_⟩
  · intro t' m' current stage hne hactivity
    rw [hother t' hne] at hactivity
    rw [ha.loadTasks]
    exact h1 t' m' current stage hne hactivity
  · intro m' t' hne hregistered
    rw [ha.loadTasks] at hregistered
    rw [hother t' hne]
    exact h2 m' t' hne hregistered
  · rw [ha.loadTasks, ha.targets]
    exact h3
  · intro m' device hnone hlast
    rw [ha.loadTasks] at hnone
    rw [ha.serves]
    exact h4 m' device hnone hlast
  · intro t' m' current stage e hne hactivity hfuture
    rw [hother t' hne] at hactivity hfuture
    rw [ha.target]
    exact h5 t' m' current stage e hne hactivity hfuture
  · intro t' m' current stage e hne hactivity hreplacement
    rw [hother t' hne] at hactivity hreplacement
    rw [ha.target, ha.build]
    exact h6 t' m' current stage e hne hactivity hreplacement
  · intro hpinned e device hbuilt htarget
    rw [ha.build] at hbuilt
    rw [ha.target] at htarget
    rw [ha.device]
    exact h7 hpinned e device hbuilt htarget
  · intro m' e hinstalled
    rw [ha.engines] at hinstalled
    rw [ha.build]
    exact h8 m' e hinstalled

omit [DecidableEq μ] in
theorem Targets.start (h : Targets pinned last s none) (t : Nat) : Targets pinned last s (some t) := by
  obtain ⟨h1, h2, h3, h4, h5, h6, h7, h8⟩ := h
  exact ⟨fun t' m current stage _ => h1 t' m current stage nofun, fun m t' _ => h2 m t' nofun,
    h3, h4, fun t' m current stage e _ => h5 t' m current stage e nofun,
    fun t' m current stage e _ => h6 t' m current stage e nofun, h7, h8⟩

/-! ### Primitives -/

section

omit [DecidableEq μ] [DecidableEq δ]

theorem agrees_goTo (activity : Activity μ δ) : Agrees s (s.goTo t activity) t := by
  refine ⟨rfl, rfl, rfl, fun _ => rfl, fun _ => rfl, fun _ => rfl, fun _ => rfl, ?_⟩
  intro t' hne
  simp [Manager.goTo, hne]

theorem agrees_acquireLoadLock : Agrees s (s.acquireLoadLock t) t := by
  refine ⟨rfl, rfl, rfl, fun _ => rfl, fun _ => rfl, fun _ => rfl, fun _ => rfl, ?_⟩
  intro t' hne
  simp [Manager.acquireLoadLock, hne]

theorem agrees_releaseLoadLock : Agrees s (s.releaseLoadLock t) t := by
  unfold Manager.releaseLoadLock
  split
  · refine ⟨rfl, rfl, rfl, fun _ => rfl, fun _ => rfl, fun _ => rfl, fun _ => rfl, ?_⟩
    intro t' hne
    simp [hne]
  · exact .refl

theorem agrees_acquireLock (l : Nat) : Agrees s (s.acquireLock t l) t := by
  refine ⟨rfl, rfl, rfl, fun _ => rfl, fun _ => rfl, fun _ => rfl, fun _ => rfl, ?_⟩
  intro t' hne
  simp [Manager.acquireLock, hne]

theorem agrees_releaseLock : Agrees s (s.releaseLock t) t := by
  unfold Manager.releaseLock
  split
  · exact .refl
  · refine ⟨rfl, rfl, rfl, fun _ => rfl, fun _ => rfl, fun _ => rfl, fun _ => rfl, ?_⟩
    intro t' hne
    simp [hne]

theorem agrees_close (e : Nat) : Agrees s (s.close e) t := by
  have hsame : ∀ e', ((s.close e).engine e').device = (s.engine e').device ∧
      ((s.close e).engine e').target = (s.engine e').target ∧
      ((s.close e).engine e').builder = (s.engine e').builder ∧
      ((s.close e).engine e').build = (s.engine e').build := by
    intro e'
    by_cases he : e' = e
    · subst he
      simp [Manager.close]
    · simp [Manager.close, he]
  exact ⟨rfl, rfl, rfl, fun e' => (hsame e').1, fun e' => (hsame e').2.1,
    fun e' => (hsame e').2.2.1, fun e' => (hsame e').2.2.2, fun _ _ => rfl⟩

theorem agrees_closeReplacement : Agrees s (s.closeReplacement t) t := by
  unfold Manager.closeReplacement
  split
  · exact .refl
  · have hdrop : Agrees s (s.dropReplacement t) t := by
      refine ⟨rfl, rfl, rfl, fun _ => rfl, fun _ => rfl, fun _ => rfl, fun _ => rfl, ?_⟩
      intro t' hne
      simp [Manager.dropReplacement, hne]
    exact hdrop.trans (agrees_close _)

theorem agrees_takeFuture : Agrees s (s.takeFuture t) t := by
  refine ⟨rfl, rfl, rfl, fun _ => rfl, fun _ => rfl, fun _ => rfl, fun _ => rfl, ?_⟩
  intro t' hne
  simp [Manager.takeFuture, hne]

theorem agrees_leaveLoad : Agrees s (s.leaveLoad t) t :=
  (agrees_closeReplacement.trans agrees_releaseLock).trans agrees_releaseLoadLock

end

omit [DecidableEq δ] in
theorem agrees_getLock (m : μ) : Agrees s (s.getLock m).1 t := by
  unfold Manager.getLock
  split
  · exact .refl
  · exact ⟨rfl, rfl, rfl, fun _ => rfl, fun _ => rfl, fun _ => rfl, fun _ => rfl, fun _ _ => rfl⟩

/-! ### Segments of a load task -/

/-- The task is registered for this model and for no other. -/
def Manager.Registered (s : Manager μ δ) (t : Nat) (m : μ) : Prop :=
  ∀ m', s.loadTasks m' = some t ↔ m' = m

omit [DecidableEq μ] [DecidableEq δ] in
theorem Agrees.registered (ha : Agrees s s' t) (hown : s.Registered t m) : s'.Registered t m := by
  intro m'
  rw [ha.loadTasks]
  exact hown m'

omit [DecidableEq μ] in
theorem Targets.registered_start (h : Targets pinned last s none) {stage : LoadStage}
    (hactivity : (s.task t).activity = .load m current stage) (hlive : stage.live = true) :
    s.Registered t m := by
  intro m'
  constructor
  · intro hregistered
    obtain ⟨current', stage', hactivity', -⟩ := h.active m' t nofun hregistered
    have hsame : m' = m ∧ current' = current ∧ stage' = stage := by
      simpa [hactivity] using hactivity'.symm
    exact hsame.1
  · rintro rfl
    exact h.registered t m' current stage nofun hactivity hlive

omit [DecidableEq μ] in
/-- A segment ends at a live stage. -/
theorem Targets.arrive (h : Targets pinned last s (some t)) (hown : s.Registered t m)
    {stage : LoadStage} (hlive : stage.live = true)
    (hfuture : ∀ e, (s.task t).future = some e → (s.engine e).target = some current)
    (hreplacement : ∀ e, (s.task t).replacement = some e →
      (s.engine e).target = some current ∧ (s.engine e).build = .built) :
    Targets pinned last (s.goTo t (.load m current stage)) none := by
  have hgone := h.agrees (agrees_goTo (.load m current stage))
  have htask : (s.goTo t (.load m current stage)).task t =
      { s.task t with activity := .load m current stage } := Manager.goTo_task
  obtain ⟨h1, h2, h3, h4, h5, h6, h7, h8⟩ := hgone
  have hload : ∀ m' current' stage',
      ((s.goTo t (.load m current stage)).task t).activity = .load m' current' stage' →
        m = m' ∧ current = current' ∧ stage = stage' := by
    intro m' current' stage' hactivity
    rw [htask] at hactivity
    simpa using hactivity
  refine ⟨?_, ?_, h3, h4, ?_, ?_, h7, h8⟩
  · intro t' m' current' stage' _ hactivity hlive'
    by_cases ht' : t' = t
    · subst ht'
      obtain ⟨rfl, rfl, rfl⟩ := hload m' current' stage' hactivity
      exact (hown m).mpr rfl
    · exact h1 t' m' current' stage' (by simpa using ht') hactivity hlive'
  · intro m' t' _ hregistered
    by_cases ht' : t' = t
    · subst ht'
      obtain rfl := (hown m').mp hregistered
      exact ⟨current, stage, by rw [htask], hlive⟩
    · exact h2 m' t' (by simpa using ht') hregistered
  · intro t' m' current' stage' e _ hactivity hwaits
    by_cases ht' : t' = t
    · subst ht'
      obtain ⟨rfl, rfl, rfl⟩ := hload m' current' stage' hactivity
      exact hfuture e (by rw [htask] at hwaits; exact hwaits)
    · exact h5 t' m' current' stage' e (by simpa using ht') hactivity hwaits
  · intro t' m' current' stage' e _ hactivity hholds
    by_cases ht' : t' = t
    · subst ht'
      obtain ⟨rfl, rfl, rfl⟩ := hload m' current' stage' hactivity
      exact hreplacement e (by rw [htask] at hholds; exact hholds)
    · exact h6 t' m' current' stage' e (by simpa using ht') hactivity hholds

omit [DecidableEq μ] in
/-- Without anything in hand a task may go to any live stage. -/
theorem Targets.arriveIdle (h : Targets pinned last s (some t)) (hown : s.Registered t m)
    {stage : LoadStage} (hlive : stage.live = true) (hfuture : (s.task t).future = none)
    (hreplacement : (s.task t).replacement = none) :
    Targets pinned last (s.goTo t (.load m current stage)) none := by
  apply h.arrive hown hlive
  · simp [hfuture]
  · simp [hreplacement]

/-- A load task finishes where the engine runs on the device of the last request. -/
theorem Targets.finishLoad (h : Targets pinned last s (some t)) (hown : s.Registered t m)
    (hserved : ∀ device, last m = some device → s.serves m device = true)
    (hfuture : (s.task t).future = none) (hreplacement : (s.task t).replacement = none) :
    Targets pinned last (s.finishLoad t m current) none := by
  obtain ⟨h1, h2, h3, h4, h5, h6, h7, h8⟩ := h
  have hserves : ∀ m' device, (s.finishLoad t m current).serves m' device = s.serves m' device :=
    fun _ _ => rfl
  have hself : (s.finishLoad t m current).task t =
      { s.task t with activity := .load m current .finished } := by
    simp [Manager.finishLoad]
  have hother : ∀ t', t' ≠ t → (s.finishLoad t m current).task t' = s.task t' := by
    intro t' hne
    simp [Manager.finishLoad, Manager.goTo, hne]
  have hloadTasks : ∀ m', (s.finishLoad t m current).loadTasks m' =
      if m' = m then none else s.loadTasks m' := by
    intro m'
    simp [Manager.finishLoad, Function.update_apply]
  have htargets : ∀ m', m' ≠ m → (s.finishLoad t m current).targets m' = s.targets m' := by
    intro m' hne
    simp [Manager.finishLoad, hne]
  refine ⟨?_, ?_, ?_, ?_, ?_, ?_, h7, h8⟩
  · intro t' m' current' stage' _ hactivity hlive
    by_cases ht' : t' = t
    · subst ht'
      rw [hself] at hactivity
      obtain ⟨-, -, rfl⟩ : m = m' ∧ current = current' ∧ LoadStage.finished = stage' := by
        simpa using hactivity
      cases hlive
    · rw [hother t' ht'] at hactivity
      have hregistered := h1 t' m' current' stage' (by simpa using ht') hactivity hlive
      have hm' : m' ≠ m := by
        rintro rfl
        have hmine := (hown m').mpr rfl
        rw [hregistered] at hmine
        exact ht' (Option.some.inj hmine)
      rw [hloadTasks, if_neg hm']
      exact hregistered
  · intro m' t' _ hregistered
    rw [hloadTasks] at hregistered
    split at hregistered
    · cases hregistered
    · next hm' =>
      have ht' : t' ≠ t := by
        rintro rfl
        exact hm' ((hown m').mp hregistered)
      rw [hother t' ht']
      exact h2 m' t' (by simpa using ht') hregistered
  · intro m' t' hregistered
    rw [hloadTasks] at hregistered
    split at hregistered
    · cases hregistered
    · next hm' =>
      rw [htargets m' hm']
      exact h3 m' t' hregistered
  · intro m' device hnone hlast
    rw [hserves]
    by_cases hm' : m' = m
    · subst hm'
      exact hserved device hlast
    · rw [hloadTasks, if_neg hm'] at hnone
      exact h4 m' device hnone hlast
  · intro t' m' current' stage' e _ hactivity hwaits
    by_cases ht' : t' = t
    · subst ht'
      rw [hself] at hwaits
      simp [hfuture] at hwaits
    · rw [hother t' ht'] at hactivity hwaits
      exact h5 t' m' current' stage' e (by simpa using ht') hactivity hwaits
  · intro t' m' current' stage' e _ hactivity hholds
    by_cases ht' : t' = t
    · subst ht'
      rw [hself] at hholds
      simp [hreplacement] at hholds
    · rw [hother t' ht'] at hactivity hholds
      exact h6 t' m' current' stage' e (by simpa using ht') hactivity hholds

omit [DecidableEq μ] in
/-- The newest target of a registered task is the last request. -/
theorem Targets.latestTarget (h : Targets pinned last s (some t)) (hown : s.Registered t m) {device : δ}
    (hlast : last m = some device) : s.latestTarget m current = device := by
  have hnewest := h.newest m t ((hown m).mpr rfl)
  simp [Manager.latestTarget, hnewest, hlast]

theorem Targets.loopTop (h : Targets pinned last s (some t)) (hown : s.Registered t m)
    (hfuture : (s.task t).future = none) (hreplacement : (s.task t).replacement = none)
    {inspection : Manager.Inspection} (hpasses : inspection.passes cfg = true) :
    Targets pinned last (s.loopTop cfg t m current inspection) none := by
  unfold Manager.loopTop
  dsimp only
  split
  · next hruns =>
    apply h.finishLoad hown _ hfuture hreplacement
    intro device hlast
    rw [h.latestTarget hown hlast] at hruns
    exact Manager.serves_of_runsOn hruns
  · cases inspection with
    | unavailable => cases hpasses
    | missing =>
      rw [Manager.Inspection.passes] at hpasses
      simp only [hpasses, if_true]
      exact h.arriveIdle hown rfl hfuture hreplacement
    | downloaded => exact h.arriveIdle hown rfl hfuture hreplacement

theorem Targets.unlessRetargeted (h : Targets pinned last s (some t)) (hown : s.Registered t m)
    (hfuture : (s.task t).future = none) {inspection : Manager.Inspection}
    (hpasses : inspection.passes cfg = true) {goOn : Manager μ δ}
    (hgoOn : s.latestTarget m current = current → Targets pinned last goOn none) :
    Targets pinned last (s.unlessRetargeted cfg t m current inspection goOn) none := by
  unfold Manager.unlessRetargeted
  split
  · next hsame => exact hgoOn hsame
  · apply (h.agrees agrees_leaveLoad).loopTop (agrees_leaveLoad.registered hown) _ _ hpasses
    · simpa using hfuture
    · simp

omit [DecidableEq μ] in
/-- A new build is none of the engines that anybody has. -/
theorem Targets.startBuild (h : Targets pinned last s (some t)) (hcore : Core cfg s) (target : Option δ) :
    Targets pinned last (s.startBuild t target) (some t) := by
  obtain ⟨h1, h2, h3, h4, h5, h6, h7, h8⟩ := h
  have hother : ∀ t', some t' ≠ some t → (s.startBuild t target).task t' = s.task t' := by
    intro t' hne
    have ht' : t' ≠ t := by simpa using hne
    simp [Manager.startBuild, ht']
  have hengine : ∀ e, e < s.nextEngine → (s.startBuild t target).engine e = s.engine e := by
    intro e he
    simp [Manager.startBuild, he.ne]
  have hinstalled : ∀ m e, s.engines m = some e →
      (s.startBuild t target).engine e = s.engine e :=
    fun m e he => hengine e (hcore.installed m e he).2.1
  refine ⟨?_, ?_, h3, ?_, ?_, ?_, ?_, ?_⟩
  · intro t' m' current' stage' hne
    rw [hother t' hne]
    exact h1 t' m' current' stage' hne
  · intro m' t' hne
    rw [hother t' hne]
    exact h2 m' t' hne
  · intro m' device hnone hlast
    obtain ⟨e, he, hdevice⟩ := Manager.serves_iff.mp (h4 m' device hnone hlast)
    exact Manager.serves_iff.mpr ⟨e, he, by rwa [hinstalled m' e he]⟩
  · intro t' m' current' stage' e hne hactivity hwaits
    rw [hother t' hne] at hactivity hwaits
    rw [hengine e (hcore.owned t' e (.inl hwaits)).1]
    exact h5 t' m' current' stage' e hne hactivity hwaits
  · intro t' m' current' stage' e hne hactivity hholds
    rw [hother t' hne] at hactivity hholds
    rw [hengine e (hcore.owned t' e (.inr hholds)).1]
    exact h6 t' m' current' stage' e hne hactivity hholds
  · intro hpinned e device
    by_cases he : e = s.nextEngine
    · subst he
      simp [Manager.startBuild]
    · have hsame : (s.startBuild t target).engine e = s.engine e := by
        simp [Manager.startBuild, he]
      rw [hsame]
      exact h7 hpinned e device
  · intro m' e he
    rw [hinstalled m' e he]
    exact h8 m' e he

theorem Targets.compile (h : Targets pinned last s (some t)) (hcore : Core cfg s)
    (hown : s.Registered t m) (hfuture : (s.task t).future = none)
    (hreplacement : (s.task t).replacement = none) {inspection : Manager.Inspection}
    (hpasses : inspection.passes cfg = true) :
    Targets pinned last (s.compile cfg t m current inspection) none := by
  apply h.unlessRetargeted hown hfuture hpasses
  intro _
  apply (h.startBuild hcore (some current)).arrive hown rfl
  · intro e he
    obtain rfl : s.nextEngine = e := by simpa [Manager.startBuild] using he
    simp [Manager.startBuild]
  · simp [Manager.startBuild, hreplacement]

theorem Targets.afterLoadLock (h : Targets pinned last s (some t)) (hcore : Core cfg s)
    (hown : s.Registered t m) (hholds : (s.task t).HoldsLoadLock)
    {inspection : Manager.Inspection} (hpasses : inspection.passes cfg = true) :
    Targets pinned last (s.afterLoadLock cfg t m current inspection) none := by
  obtain ⟨-, -, hfuture, hreplacement⟩ := hholds
  apply h.unlessRetargeted hown hfuture hpasses
  intro hlatest
  split
  · next hruns =>
    apply (h.agrees agrees_leaveLoad).finishLoad (agrees_leaveLoad.registered hown)
    · intro device hlast
      rw [h.latestTarget hown hlast] at hlatest
      rw [agrees_leaveLoad.serves, hlatest]
      exact Manager.serves_of_runsOn hruns
    · simpa using hfuture
    · simp
  · cases inspection with
    | unavailable => cases hpasses
    | missing => exact h.arriveIdle hown rfl hfuture hreplacement
    | downloaded => exact h.compile hcore hown hfuture hreplacement hpasses

/-- Installing the replacement brings the engine of the model to its device. -/
theorem Targets.install (h : Targets pinned last s (some t)) (hown : s.Registered t m) {r : Nat}
    (hr : (s.task t).replacement = some r) (hbuilt : (s.engine r).build = .built)
    (previous : Option Nat) : Targets pinned last (s.install t m previous) (some t) := by
  have hput : Targets pinned last ((s.putReplacement t m).renewLock m) (some t) := by
    obtain ⟨h1, h2, h3, h4, h5, h6, h7, h8⟩ := h
    have hother : ∀ t', some t' ≠ some t →
        ((s.putReplacement t m).renewLock m).task t' = s.task t' := by
      intro t' hne
      have ht' : t' ≠ t := by simpa using hne
      simp [Manager.putReplacement, Manager.renewLock, Manager.dropReplacement, ht']
    have hengines : ∀ m', ((s.putReplacement t m).renewLock m).engines m' =
        if m' = m then some r else s.engines m' := by
      intro m'
      simp [Manager.putReplacement, Manager.renewLock, Function.update_apply, hr]
    refine ⟨?_, ?_, h3, ?_, ?_, ?_, h7, ?_⟩
    · intro t' m' current' stage' hne
      rw [hother t' hne]
      exact h1 t' m' current' stage' hne
    · intro m' t' hne
      rw [hother t' hne]
      exact h2 m' t' hne
    · intro m' device hnone hlast
      have hm' : m' ≠ m := by
        rintro rfl
        have hmine := (hown m').mpr rfl
        exact Option.some_ne_none t (hmine.symm.trans hnone)
      obtain ⟨e, he, hdevice⟩ := Manager.serves_iff.mp (h4 m' device hnone hlast)
      exact Manager.serves_iff.mpr ⟨e, by rw [hengines, if_neg hm', he], hdevice⟩
    · intro t' m' current' stage' e hne hactivity hwaits
      rw [hother t' hne] at hactivity hwaits
      exact h5 t' m' current' stage' e hne hactivity hwaits
    · intro t' m' current' stage' e hne hactivity hholds
      rw [hother t' hne] at hactivity hholds
      exact h6 t' m' current' stage' e hne hactivity hholds
    · intro m' e he
      rw [hengines] at he
      split at he
      · obtain rfl := Option.some.inj he
        exact hbuilt
      · exact h8 m' e he
  unfold Manager.install
  cases previous with
  | none => exact hput
  | some e => exact hput.agrees (agrees_close e)

theorem install_serves {r : Nat} (hr : (s.task t).replacement = some r)
    (htarget : (s.engine r).target = some current) (previous : Option Nat) :
    (s.install t m previous).serves m current = true := by
  have hput : ((s.putReplacement t m).renewLock m).serves m current = true := by
    simp [Manager.serves, Manager.putReplacement, Manager.renewLock, Manager.dropReplacement, hr,
      htarget]
  unfold Manager.install
  cases previous with
  | none => exact hput
  | some e => exact ((agrees_close (t := t) e).serves m current).trans hput

theorem Targets.completeHandoff (h : Targets pinned last s (some t)) (hown : s.Registered t m)
    (hfuture : (s.task t).future = none) {r : Nat} (hr : (s.task t).replacement = some r)
    (hready : (s.engine r).target = some current ∧ (s.engine r).build = .built)
    (previous : Option Nat) {inspection : Manager.Inspection}
    (hpasses : inspection.passes cfg = true) :
    Targets pinned last (s.completeHandoff cfg t m current previous inspection) none := by
  apply h.unlessRetargeted hown hfuture hpasses
  intro hlatest
  have hinstalled : (s.install t m previous).Registered t m := by
    intro m'
    unfold Manager.install
    cases previous <;> exact hown m'
  apply ((h.install hown hr hready.2 previous).agrees agrees_leaveLoad).finishLoad
    (agrees_leaveLoad.registered hinstalled)
  · intro device hlast
    rw [h.latestTarget hown hlast] at hlatest
    rw [agrees_leaveLoad.serves, hlatest]
    exact install_serves hr hready.1 previous
  · simpa using hfuture
  · simp

theorem Targets.handoff (h : Targets pinned last s (some t)) (hown : s.Registered t m)
    (hfuture : (s.task t).future = none) {r : Nat} (hr : (s.task t).replacement = some r)
    (hready : (s.engine r).target = some current ∧ (s.engine r).build = .built)
    {inspection : Manager.Inspection} (hpasses : inspection.passes cfg = true) :
    Targets pinned last (s.handoff cfg t m current inspection) none := by
  unfold Manager.handoff
  split
  · exact h.completeHandoff hown hfuture hr hready none hpasses
  · have hlock := agrees_getLock (s := s) (t := t) m
    apply (h.agrees hlock).arrive (hlock.registered hown) rfl
    · simp [hfuture]
    · intro e he
      obtain rfl : r = e := by simpa [hr] using he
      simpa using hready

theorem Targets.afterHandoffLock (h : Targets pinned last s (some t)) (hown : s.Registered t m)
    (hfuture : (s.task t).future = none) {r : Nat} (hr : (s.task t).replacement = some r)
    (hready : (s.engine r).target = some current ∧ (s.engine r).build = .built)
    {previous l : Nat} {inspection : Manager.Inspection}
    (hpasses : inspection.passes cfg = true) :
    Targets pinned last (s.afterHandoffLock cfg t m current previous l inspection) none := by
  have hlock := agrees_getLock (s := s) (t := t) m
  have hlater := h.agrees hlock
  have hownLater := hlock.registered hown
  unfold Manager.afterHandoffLock
  dsimp only
  split
  · apply hlater.completeHandoff hownLater _ (r := r) _ _ _ hpasses
    · simpa using hfuture
    · simpa using hr
    · simpa using hready
  · have hrelease := agrees_releaseLock (s := (s.getLock m).1) (t := t)
    apply (hlater.agrees hrelease).handoff (hrelease.registered hownLater) _ (r := r) _ _ hpasses
    · simpa using hfuture
    · simpa using hr
    · rw [hrelease.target, hrelease.build]
      simpa using hready

/-! ### Every segment -/

omit [DecidableEq μ] in
/-- A task that is passive before and after does not matter. -/
theorem Targets.bystander (h : Targets pinned last s none) (ha : Agrees s s' t)
    (hbefore : (s.task t).Passive) (hafter : (s'.task t).Passive) : Targets pinned last s' none := by
  have hmiddle := (h.start t).agrees ha
  obtain ⟨h1, h2, h3, h4, h5, h6, h7, h8⟩ := hmiddle
  refine ⟨?_, ?_, h3, h4, ?_, ?_, h7, h8⟩
  · intro t' m' current' stage' _ hactivity hlive
    have ht' : some t' ≠ some t := by
      rintro heq
      obtain rfl := Option.some.inj heq
      rw [(hafter m' current' stage' hactivity).1] at hlive
      cases hlive
    exact h1 t' m' current' stage' ht' hactivity hlive
  · intro m' t' _ hregistered
    have ht' : some t' ≠ some t := by
      rintro heq
      obtain rfl := Option.some.inj heq
      rw [ha.loadTasks] at hregistered
      obtain ⟨current', stage', hactivity, hlive⟩ := h.active m' t' nofun hregistered
      rw [(hbefore m' current' stage' hactivity).1] at hlive
      cases hlive
    exact h2 m' t' ht' hregistered
  · intro t' m' current' stage' e _ hactivity hwaits
    have ht' : some t' ≠ some t := by
      rintro heq
      obtain rfl := Option.some.inj heq
      obtain ⟨-, -, -, hfuture, -⟩ := hafter m' current' stage' hactivity
      rw [hfuture] at hwaits
      cases hwaits
    exact h5 t' m' current' stage' e ht' hactivity hwaits
  · intro t' m' current' stage' e _ hactivity hholds
    have ht' : some t' ≠ some t := by
      rintro heq
      obtain rfl := Option.some.inj heq
      obtain ⟨-, -, -, -, hreplacement⟩ := hafter m' current' stage' hactivity
      rw [hreplacement] at hholds
      cases hholds
    exact h6 t' m' current' stage' e ht' hactivity hholds

section
variable {requested : Nat}

omit [DecidableEq δ] in
theorem agrees_requestLease : Agrees s (s.requestLease cfg t m requested) t := by
  unfold Manager.requestLease
  split
  · exact agrees_goTo _
  · exact (agrees_getLock m).trans (agrees_goTo _)

omit [DecidableEq δ] in
theorem requestLease_passive : ((s.requestLease cfg t m requested).task t).Passive := by
  unfold Manager.requestLease
  split <;> simp [Task.Passive]

omit [DecidableEq δ] in
theorem agrees_grantLease (current l : Nat) :
    Agrees s (s.grantLease cfg t m requested current l) t := by
  have hlock := (agrees_acquireLock (s := s) (t := t) l).trans (agrees_getLock m)
  unfold Manager.grantLease
  dsimp only
  split
  · exact hlock.trans (agrees_goTo _)
  · exact (hlock.trans agrees_releaseLock).trans agrees_requestLease

omit [DecidableEq δ] in
theorem grantLease_passive (current l : Nat) :
    ((s.grantLease cfg t m requested current l).task t).Passive := by
  unfold Manager.grantLease
  dsimp only
  split
  · simp [Task.Passive]
  · exact requestLease_passive

omit [DecidableEq μ] [DecidableEq δ] in
theorem agrees_endLease : Agrees s (s.endLease t m requested) t :=
  agrees_releaseLock.trans (agrees_goTo _)

end

omit [DecidableEq μ] in
/-- A model has an active load task where one is registered. -/
theorem Targets.loadActive (h : Targets pinned last s none) :
    s.loadActive m = (s.loadTasks m).isSome := by
  unfold Manager.loadActive
  rcases e : s.loadTasks m with - | t
  · rfl
  · obtain ⟨current, stage, hactivity, hlive⟩ := h.active m t (Option.some_ne_none _) e
    dsimp only
    rw [hactivity]
    cases stage with
    | finished => cases hlive
    | returned => cases hlive
    | _ => rfl

/-- A request: the new target is the last request, and it is noted or served. -/
theorem Targets.schedule (h : Targets pinned last s none) (habsent : (s.task t).activity = .absent)
    (hm : cfg.catalog m = true) (hidle : (s.task t).Idle) {device : Option δ}
    (hkeeps : ¬ (s.runsOn m (device.getD cfg.device) = true ∧ s.loadActive m = true ∧
      s.targets m ≠ some (device.getD cfg.device))) :
    Targets pinned (Function.update last m (some (device.getD cfg.device)))
      (s.scheduleLoad cfg t m device) none := by
  have hactive := h.loadActive (m := m)
  obtain ⟨h1, h2, h3, h4, h5, h6, h7, h8⟩ := h
  unfold Manager.scheduleLoad
  rw [if_pos hm]
  generalize device.getD cfg.device = target at *
  dsimp only
  split
  · next hruns =>
    refine ⟨h1, h2, ?_, ?_, h5, h6, h7, h8⟩
    · intro m' t' hregistered
      by_cases hm' : m' = m
      · subst hm'
        rw [Function.update_self]
        by_contra hne
        exact hkeeps ⟨hruns, by rw [hactive, hregistered]; rfl, hne⟩
      · rw [Function.update_of_ne hm']
        exact h3 m' t' hregistered
    · intro m' device' hnone hlast
      by_cases hm' : m' = m
      · subst hm'
        obtain rfl : target = device' := by simpa using hlast
        exact Manager.serves_of_runsOn hruns
      · rw [Function.update_of_ne hm'] at hlast
        exact h4 m' device' hnone hlast
  · split
    · next hload =>
      refine ⟨h1, h2, ?_, ?_, h5, h6, h7, h8⟩
      · intro m' t' hregistered
        by_cases hm' : m' = m
        · subst hm'
          simp
        · simpa [hm'] using h3 m' t' hregistered
      · intro m' device' hnone hlast
        have hm' : m' ≠ m := by
          rintro rfl
          rw [hactive] at hload
          rw [show s.loadTasks m' = none from hnone] at hload
          cases hload
        rw [Function.update_of_ne hm'] at hlast
        exact h4 m' device' hnone hlast
    · next hload =>
      have hfree : s.loadTasks m = none := by
        simpa [hactive] using hload
      have hne : ∀ m', s.loadTasks m' ≠ some t := by
        intro m' hregistered
        obtain ⟨current', stage', hactivity, -⟩ := h2 m' t (Option.some_ne_none t) hregistered
        simp [habsent] at hactivity
      refine ⟨?_, ?_, ?_, ?_, ?_, ?_, h7, h8⟩
      · intro t' m' current' stage' _ hactivity hlive
        by_cases ht' : t' = t
        · subst ht'
          obtain ⟨rfl, -, -⟩ : m = m' ∧ target = current' ∧ LoadStage.queued = stage' := by
            simpa using hactivity
          simp
        · have hactivity' : (s.task t').activity = .load m' current' stage' := by
            simpa [ht'] using hactivity
          have hregistered := h1 t' m' current' stage' (Option.some_ne_none _) hactivity' hlive
          have hm' : m' ≠ m := by
            rintro rfl
            simp [hfree] at hregistered
          simpa [hm'] using hregistered
      · intro m' t' _ hregistered
        by_cases hm' : m' = m
        · subst hm'
          obtain rfl : t = t' := by simpa using hregistered
          exact ⟨target, .queued, by simp, rfl⟩
        · have hregistered' : s.loadTasks m' = some t' := by simpa [hm'] using hregistered
          have ht' : t' ≠ t := by
            rintro rfl
            exact hne m' hregistered'
          simpa [ht'] using h2 m' t' (Option.some_ne_none _) hregistered'
      · intro m' t' hregistered
        by_cases hm' : m' = m
        · subst hm'
          simp
        · have hregistered' : s.loadTasks m' = some t' := by simpa [hm'] using hregistered
          simpa [hm'] using h3 m' t' hregistered'
      · intro m' device' hnone hlast
        have hm' : m' ≠ m := by
          rintro rfl
          simp at hnone
        have hnone' : s.loadTasks m' = none := by simpa [hm'] using hnone
        rw [Function.update_of_ne hm'] at hlast
        exact h4 m' device' hnone' hlast
      · intro t' m' current' stage' e _ hactivity hwaits
        by_cases ht' : t' = t
        · subst ht'
          simp at hwaits
        · exact h5 t' m' current' stage' e (Option.some_ne_none _) (by simpa [ht'] using hactivity)
            (by simpa [ht'] using hwaits)
      · intro t' m' current' stage' e _ hactivity hholds
        by_cases ht' : t' = t
        · subst ht'
          simp at hholds
        · exact h6 t' m' current' stage' e (Option.some_ne_none _) (by simpa [ht'] using hactivity)
            (by simpa [ht'] using hholds)

omit [DecidableEq μ] in
/-- A build ends, on the device it was asked for where `pinned` holds. -/
theorem Targets.endBuild (h : Targets pinned last s none) {e : Nat} {device : δ}
    (hrunning : (s.engine e).build = .running)
    (htarget : pinned → (s.engine e).target = some device) :
    Targets pinned last (s.endBuild e (some device)) none := by
  obtain ⟨h1, h2, h3, h4, h5, h6, h7, h8⟩ := h
  have hengine : ∀ e', (s.engine e').build = .built →
      (s.endBuild e (some device)).engine e' = s.engine e' := by
    intro e' hbuilt
    have hne : e' ≠ e := by
      rintro rfl
      simp [hrunning] at hbuilt
    simp [Manager.endBuild, hne]
  have htargets : ∀ e', ((s.endBuild e (some device)).engine e').target =
      (s.engine e').target := by
    intro e'
    by_cases he : e' = e
    · subst he
      simp [Manager.endBuild]
    · simp [Manager.endBuild, he]
  refine ⟨h1, h2, h3, ?_, ?_, ?_, ?_, ?_⟩
  · intro m' device' hnone hlast
    obtain ⟨e', he', hdevice⟩ := Manager.serves_iff.mp (h4 m' device' hnone hlast)
    exact Manager.serves_iff.mpr ⟨e', he', by rwa [hengine e' (h8 m' e' he')]⟩
  · intro t' m' current' stage' e' _ hactivity hwaits
    rw [htargets]
    exact h5 t' m' current' stage' e' nofun hactivity hwaits
  · intro t' m' current' stage' e' _ hactivity hholds
    obtain ⟨hdevice, hbuilt⟩ := h6 t' m' current' stage' e' nofun hactivity hholds
    rw [hengine e' hbuilt]
    exact ⟨hdevice, hbuilt⟩
  · intro hpinned e' device'
    by_cases he : e' = e
    · subst he
      simp [Manager.endBuild, htarget hpinned]
    · have hsame : (s.endBuild e (some device)).engine e' = s.engine e' := by
        simp [Manager.endBuild, he]
      rw [hsame]
      exact h7 hpinned e' device'
  · intro m' e' he'
    rw [hengine e' (h8 m' e' he')]
    exact h8 m' e' he'

omit [DecidableEq μ] in
/-- An engine that is not managed does not matter. -/
theorem Targets.createEngine (h : Targets pinned last s none) (hcore : Core cfg s) (device : δ) :
    Targets pinned last
      { s with
        engine := Function.update s.engine s.nextEngine { device := some device, build := .built }
        nextEngine := s.nextEngine + 1 } none := by
  obtain ⟨h1, h2, h3, h4, h5, h6, h7, h8⟩ := h
  have hengine : ∀ e, e < s.nextEngine →
      Function.update s.engine s.nextEngine { device := some device, build := .built } e =
        s.engine e := by
    intro e he
    simp [he.ne]
  refine ⟨h1, h2, h3, ?_, ?_, ?_, ?_, ?_⟩
  · intro m' device' hnone hlast
    obtain ⟨e, he, hdevice⟩ := Manager.serves_iff.mp (h4 m' device' hnone hlast)
    refine Manager.serves_iff.mpr ⟨e, he, ?_⟩
    dsimp only
    rwa [hengine e (hcore.installed m' e he).2.1]
  · intro t' m' current' stage' e _ hactivity hwaits
    dsimp only
    rw [hengine e (hcore.owned t' e (.inl hwaits)).1]
    exact h5 t' m' current' stage' e nofun hactivity hwaits
  · intro t' m' current' stage' e _ hactivity hholds
    dsimp only
    rw [hengine e (hcore.owned t' e (.inr hholds)).1]
    exact h6 t' m' current' stage' e nofun hactivity hholds
  · intro hpinned e device'
    by_cases he : e = s.nextEngine
    · subst he
      simp
    · simpa [he] using h7 hpinned e device'
  · intro m' e he
    dsimp only
    rw [hengine e (hcore.installed m' e he).2.1]
    exact h8 m' e he

/-! ### Runs -/

theorem Targets.afterBuild (h : Targets pinned last s none) 
    (hactivity : (s.task t).activity = .load m current .building) (hbuilds : (s.task t).Builds)
    (hbuilt : s.awaited t = .built) {inspection : Manager.Inspection}
    (hpasses : inspection.passes cfg = true)
    (hstep : s.afterBuild cfg t m current (s.awaited t) inspection = some s') :
    Targets pinned last s' none := by
  obtain ⟨e, he⟩ := Option.ne_none_iff_exists'.mp hbuilds.2.2.1
  have htarget := h.building t m current .building e nofun hactivity he
  have hown := h.registered_start hactivity rfl
  have htake : Agrees s (s.takeFuture t) t := agrees_takeFuture
  rw [hbuilt] at hstep
  obtain rfl := Option.some.inj hstep
  have hmiddle := (h.start t).agrees htake
  have hownTake := htake.registered hown
  have hfuture : ((s.takeFuture t).task t).future = none := by simp [Manager.takeFuture]
  apply hmiddle.unlessRetargeted hownTake hfuture hpasses
  intro _
  apply hmiddle.handoff hownTake hfuture (r := e) _ _ hpasses
  · simp [Manager.takeFuture, he]
  · rw [htake.target, htake.build]
    rw [Manager.awaited_eq he] at hbuilt
    exact ⟨htarget, hbuilt⟩

theorem Targets.resumeLoad (h : Targets pinned last s none) (hinv : Inv cfg False s)
    {first again : Manager.Inspection}
    (hdomain : loadsSucceed cfg s (.resumeLoad t first again) = true)
    (hstep : s.step cfg (.resumeLoad t first again) = some s') :
    Targets pinned last s' none := by
  simp only [loadsSucceed, Bool.and_eq_true] at hdomain
  obtain ⟨⟨hfirst, hagain⟩, hactive⟩ := hdomain
  simp only [Manager.step] at hstep
  split at hstep
  case h_1 m current hactivity =>
    obtain ⟨-, hok, -⟩ := hinv.load_stage hactivity
    obtain rfl := Option.some.inj hstep
    exact (h.start t).afterLoadLock hinv.core (h.registered_start hactivity rfl) hok hfirst
  case h_2 m current hactivity =>
    obtain ⟨-, ⟨-, -, hfuture, hreplacement⟩, -⟩ := hinv.load_stage hactivity
    rw [hactivity] at hactive
    obtain rfl : first = .downloaded := by simpa using hactive
    obtain rfl := Option.some.inj hstep
    exact (h.start t).compile hinv.core (h.registered_start hactivity rfl) hfuture hreplacement
      hagain
  case h_3 m current hactivity =>
    obtain ⟨-, hok, -⟩ := hinv.load_stage hactivity
    rw [hactivity] at hactive
    have hbuilt : s.awaited t = .built := by simpa using hactive
    exact h.afterBuild hactivity hok hbuilt hfirst hstep
  case h_4 m current hactivity =>
    rw [hactivity] at hactive
    cases hactive
  case h_5 m current previous l hactivity =>
    obtain ⟨-, ⟨-, -, hfuture, hreplacement⟩, -⟩ := hinv.load_stage hactivity
    obtain ⟨e, he⟩ := Option.ne_none_iff_exists'.mp hreplacement
    have hready := h.holding t m current (.gotHandoff previous l) e (Option.some_ne_none t)
      hactivity he
    obtain rfl := Option.some.inj hstep
    exact (h.start t).afterHandoffLock (h.registered_start hactivity rfl) hfuture he hready hfirst
  case h_6 => cases hstep

omit [DecidableEq μ] in
/-- A task between two stages of a load, where it has changed its locks only. -/
theorem Targets.moveLoad (h : Targets pinned last s none) (hlocks : Agrees s s' t)
    (hsame : (s'.task t).future = (s.task t).future ∧
      (s'.task t).replacement = (s.task t).replacement)
    {stage stage' : LoadStage} (hactivity : (s.task t).activity = .load m current stage)
    (hlive : stage.live = true) (hlive' : stage'.live = true) :
    Targets pinned last (s'.goTo t (.load m current stage')) none := by
  apply ((h.start t).agrees hlocks).arrive (hlocks.registered (h.registered_start hactivity hlive))
    hlive'
  · intro e he
    rw [hsame.1] at he
    rw [hlocks.target]
    exact h.building t m current stage e nofun hactivity he
  · intro e he
    rw [hsame.2] at he
    rw [hlocks.target, hlocks.build]
    exact h.holding t m current stage e nofun hactivity he

/-- One event, of a run in which all loads succeed and no target is lost. -/
theorem Targets.step (h : Targets pinned last s none) (hinv : Inv cfg False s) {e : Event μ δ}
    (hdomain : loadsSucceed cfg s e = true) (hkeeps : keepsTargets cfg s e = true)
    (hpinned : pinned → buildsAsAsked s e = true) (hstep : s.step cfg e = some s') :
    Targets pinned (fun m => (requestedDevice cfg m e).or (last m)) s' none := by
  cases e with
  | scheduleLoad t m device =>
    simp only [Manager.step] at hstep
    split at hstep
    · next habsent =>
      obtain rfl := Option.some.inj hstep
      have hnew : (fun m' => (requestedDevice cfg m' (.scheduleLoad t m device)).or (last m')) =
          Function.update last m (some (device.getD cfg.device)) := by
        funext m'
        by_cases hm' : m = m'
        · subst hm'
          simp [requestedDevice]
        · have hne : ¬ m' = m := fun heq => hm' heq.symm
          simp [requestedDevice, hm', hne]
      rw [hnew]
      have hidle : (s.task t).Idle := by simpa [StageOk, habsent] using hinv.stage t
      apply h.schedule habsent hdomain hidle
      simpa [keepsTargets, or_iff_not_imp_left] using hkeeps
    · cases hstep
  | startLoad t inspection =>
    show Targets pinned last s' none
    simp only [Manager.step] at hstep
    split at hstep
    · next m current hactivity =>
      obtain ⟨-, ⟨-, -, hfuture, hreplacement⟩, -⟩ := hinv.load_stage hactivity
      obtain rfl := Option.some.inj hstep
      exact (h.start t).loopTop (h.registered_start hactivity rfl) hfuture hreplacement hdomain
    · cases hstep
  | grantLoadLock t =>
    show Targets pinned last s' none
    simp only [Manager.step] at hstep
    split at hstep
    · next m current hactivity _ =>
      obtain rfl := Option.some.inj hstep
      exact h.moveLoad agrees_acquireLoadLock (by simp) hactivity rfl rfl
    · cases hstep
  | resumeLoad t first again => exact h.resumeLoad hinv hdomain hstep
  | endBuild e result =>
    show Targets pinned last s' none
    simp only [Manager.step] at hstep
    split at hstep
    · next hrunning =>
      obtain rfl := Option.some.inj hstep
      cases result with
      | none => cases hdomain
      | some device =>
        apply h.endBuild hrunning
        intro hp
        simpa [buildsAsAsked] using hpinned hp
    · cases hstep
  | grantHandoffLock t =>
    show Targets pinned last s' none
    simp only [Manager.step] at hstep
    split at hstep
    · next m current previous l hactivity =>
      split at hstep
      · obtain rfl := Option.some.inj hstep
        exact h.moveLoad (agrees_acquireLock l) (by simp) hactivity rfl rfl
      · cases hstep
    · cases hstep
  | cancel t =>
    show Targets pinned last s' none
    simp only [Manager.step] at hstep
    simp only [loadsSucceed] at hdomain
    split at hstep
    case h_1 m current stage hactivity =>
      rw [hactivity] at hdomain
      cases hdomain
    case h_2 m requested current l hactivity =>
      obtain rfl := Option.some.inj hstep
      apply h.bystander (agrees_goTo _)
      · simp [Task.Passive, hactivity]
      · simp [Task.Passive]
    case h_3 m stage hactivity =>
      rw [hactivity] at hdomain
      cases hdomain
    case h_4 => cases hstep
  | returnLoad t =>
    show Targets pinned last s' none
    simp only [Manager.step] at hstep
    split at hstep
    · next m current hactivity =>
      obtain rfl := Option.some.inj hstep
      have hidle : (s.task t).Idle := (hinv.load_stage hactivity).2.1
      apply h.bystander (agrees_goTo _)
      · simp [Task.Passive, hactivity, LoadStage.live, hidle]
      · simpa [Task.Passive, LoadStage.live, Task.Idle] using hidle
    · cases hstep
  | createEngine device =>
    show Targets pinned last s' none
    obtain rfl := Option.some.inj hstep
    exact h.createEngine hinv.core device
  | request t m engine =>
    show Targets pinned last s' none
    simp only [Manager.step] at hstep
    split at hstep
    · next habsent =>
      obtain rfl := Option.some.inj hstep
      exact h.bystander agrees_requestLease (by simp [Task.Passive, habsent]) requestLease_passive
    · cases hstep
  | grantLease t =>
    show Targets pinned last s' none
    simp only [Manager.step] at hstep
    split at hstep
    · next m requested current l hactivity =>
      split at hstep
      · obtain rfl := Option.some.inj hstep
        exact h.bystander (agrees_grantLease current l) (by simp [Task.Passive, hactivity])
          (grantLease_passive current l)
      · cases hstep
    · cases hstep
  | endGeneration t how =>
    show Targets pinned last s' none
    simp only [Manager.step] at hstep
    split at hstep
    · next m requested e hactivity =>
      obtain rfl : how = .completed := by simpa [loadsSucceed] using hdomain
      obtain rfl := Option.some.inj hstep
      apply h.bystander agrees_endLease
      · simp [Task.Passive, hactivity]
      · simp [Manager.endLease, Task.Passive]
    · cases hstep
  | resumeRequest t => cases hdomain
  | configureContext t m refused => cases hdomain
  | configureLocked t refused rebuild => cases hdomain
  | resumeConfigure t => cases hdomain
  | configureHandoff t refused => cases hdomain
  | unload m => cases hdomain

omit [DecidableEq μ] in
theorem targets_initial :
    Targets pinned (fun _ => none) (Manager.initial : Manager μ δ) none := by
  constructor <;> simp [Manager.initial]

theorem run_targets (pinned : Bool) {es : List (Event μ δ)}
    (hmeets : Transition.meets (Manager.step cfg)
      (fun s e => loadsSucceed cfg s e && keepsTargets cfg s e && (!pinned || buildsAsAsked s e))
        Manager.initial es = true)
    (hrun : Transition.run (Manager.step cfg) Manager.initial es = some s) :
    Targets (pinned = true) (fun m => lastRequest cfg m es) s none := by
  have hreached := Transition.run_induction
    (P := fun es s => Inv cfg False s ∧
      Targets (pinned = true) (fun m => lastRequest cfg m es) s none)
    (b := []) ?_ ⟨inv_initial, targets_initial⟩ hmeets hrun
  · exact hreached.2
  · rintro before s e s' ⟨hinv, h⟩ hC hstep
    simp only [Bool.and_eq_true] at hC
    obtain ⟨⟨hdomain, hkeeps⟩, hasked⟩ := hC
    refine ⟨step_inv hinv False.elim hstep, ?_⟩
    simp only [lastRequest_append]
    apply h.step hinv hdomain hkeeps _ hstep
    rintro rfl
    simpa using hasked

/-- **The newest explicit device wins.** In every run of requests and successful load tasks in
which no request is answered from the installed engine while a load is on its way to another
device: once no load task of the model is left, its engine was built for the device of the last
request or is on it.  Where the loader has moved no build to another device, it is on it. -/
theorem newestDevice_wins {es : List (Event μ δ)} (hdomain : Transition.meets (Manager.step cfg)
      (loadsSucceed cfg) Manager.initial es = true)
    (hkeeps : Transition.meets (Manager.step cfg) (keepsTargets cfg) Manager.initial es = true)
    (hrun : Transition.run (Manager.step cfg) Manager.initial es = some s) {device : δ}
    (hlast : lastRequest cfg m es = some device) (hdone : s.loadTasks m = none) :
    s.serves m device = true ∧
      (Transition.meets (Manager.step cfg) buildsAsAsked Manager.initial es = true →
        s.runsOn m device = true) := by
  have hmeets := Transition.meets_and hdomain hkeeps
  constructor
  · have h := run_targets false (by simpa using hmeets) hrun
    exact h.served m device hdone hlast
  · intro hasked
    have h := run_targets true (by simpa using Transition.meets_and hmeets hasked) hrun
    obtain ⟨e, he, hdevice | htarget⟩ :=
      Manager.serves_iff.mp (h.served m device hdone hlast)
    · exact Manager.runsOn_iff.mpr ⟨e, he, hdevice⟩
    · exact Manager.runsOn_iff.mpr ⟨e, he, h.built rfl e device (h.installed m e he) htarget⟩

/-- A second request moves a load in flight from device 1 to device 2. -/
def retargeted : List (Event Nat Nat) :=
  [.scheduleLoad 0 0 (some 1), .startLoad 0 .downloaded, .grantLoadLock 0,
    .resumeLoad 0 .downloaded .downloaded, .scheduleLoad 1 0 (some 2), .endBuild 0 (some 1),
    .resumeLoad 0 .downloaded .downloaded, .grantLoadLock 0,
    .resumeLoad 0 .downloaded .downloaded, .endBuild 1 (some 2),
    .resumeLoad 0 .downloaded .downloaded]

theorem newestDevice_wins_retargeted : ∃ s : Manager Nat Nat,
    Transition.run (Manager.step oneModel) Manager.initial retargeted = some s ∧
      lastRequest oneModel 0 retargeted = some 2 ∧ s.runsOn 0 2 = true := by
  have hends : (Transition.run (Manager.step oneModel) Manager.initial retargeted).isSome = true :=
    by decide
  have hrun := (Option.some_get hends).symm
  exact ⟨_, hrun, rfl, (newestDevice_wins (by decide) (by decide) hrun rfl rfl).2 (by decide)⟩

/-- The installed engine is on device 0 and a switch to device 1 is being built when the last
request asks for device 0 again: it is answered from the installed engine, and the switch goes
on. -/
def overtaken : List (Event Nat Nat) :=
  loadsOn 0 0 0 ++
    [.scheduleLoad 1 0 (some 1), .startLoad 1 .downloaded, .grantLoadLock 1,
      .resumeLoad 1 .downloaded .downloaded, .scheduleLoad 2 0 (some 0), .endBuild 1 (some 1),
      .resumeLoad 1 .downloaded .downloaded, .grantHandoffLock 1,
      .resumeLoad 1 .downloaded .downloaded]

theorem newestDevice_lost : ¬ ∀ (es : List (Event Nat Nat)) (s : Manager Nat Nat) (device : Nat),
    Transition.meets (Manager.step oneModel) (loadsSucceed oneModel) Manager.initial es = true →
      Transition.run (Manager.step oneModel) Manager.initial es = some s →
        lastRequest oneModel 0 es = some device → s.loadTasks 0 = none →
          s.runsOn 0 device = true := by
  intro h
  have hwins := h overtaken (Option.get _ (by decide)) 0 (by decide) (Option.some_get _).symm rfl rfl
  exact absurd hwins (by decide)

end InferBridge
