/-
InferBridge/ModelPreparation.lean

Conversions, loads and deletions of models and their files, as one
transition system.

As in EngineLifecycle, an event is one segment of one task between two
`await`s, or a step of a worker thread or of the converter process.  Here
the view is on the model directories:

  * a conversion task is the whole chain of wrappers around the core body:
    the watchdog (app/model_preparation_timeouts.py), the access check
    (app/huggingface_manager_safety.py), the profile and the catalog entry
    (app/model_manager.py), and the converter process under the convert
    lock (app/model_manager_core.py); a load that finds no local model runs
    the same chain inline, as a conversion that it owns,
  * a load task checks, converts and compiles under the load lock and hands
    over (app/model_load_target.py); the choice of its target is
    EngineLifecycle's subject, so that the device is an input here,
  * scheduling goes through app/lifecycle_safety.py, and through
    app/storage_state.py where the storage guard is installed,
  * deletions and recovery removals (app/model_recovery.py) run in worker
    threads.

A lock is taken by the segment that resumes with it.  What a worker thread
writes appears when its task resumes; a thread whose task was cancelled is
not followed further.
-/
import InferBridge.Lib.Transition
import InferBridge.LoadSafety

namespace InferBridge

variable {μ : Type*} [DecidableEq μ]

/-! ### The state -/

structure PreparationSettings (μ : Type*) where
  catalog : μ → Bool
  hasSource : μ → Bool
  device : DeviceExpression
  autoConvert : Bool
  /-- A credential store is attached, so that access is checked before a conversion. -/
  checksAccess : Bool
  /-- `StorageRuntimeState` is installed, as in the desktop server. -/
  storageGuard : Bool
  available : List PhysicalDevice

/-- `status_overrides` -/
inductive Status where
  | queued
  | loading
  | queuedConvert
  | converting
  | cancelled
  | error
deriving DecidableEq, Repr

/-- `status in {"queued", "loading", "queued_convert", "converting"}` -/
def Status.preparing : Status → Bool
  | .queued | .loading | .queuedConvert | .converting => true
  | .cancelled | .error => false

/-- A complete OpenVINO directory: the settings it was exported with, and the marker in it. -/
structure Artifact where
  exported : ConversionProfile
  profile : Option LoadProfile := none
deriving DecidableEq

/-- A conversion; `owner` is the load task that runs it inline. -/
structure ConversionOrder (μ : Type*) where
  model : μ
  device : DeviceExpression
  request : Quantization := {}
  owner : Option Nat := none
deriving DecidableEq

/-- Where a conversion is.  `finished` is the end of the inner task, `returned` that of the
task that watches it. -/
inductive ConvertPhase where
  | queued
  | preflight
  | profiling (wasDownloaded : Bool)
  | waitLock (wasDownloaded : Bool) (profile : ConversionProfile)
  | converting (wasDownloaded : Bool) (profile exported : ConversionProfile) (published : Bool)
  | terminating (watchdog : Bool)
  | persisting (profile : ConversionProfile)
  | recording (profile : ConversionProfile)
  | measuring
  | finished (cancelled : Bool)
  | returned (cancelled : Bool)
deriving DecidableEq

/-- Where a load is; a build has the device that `safe_load_device` chose, `none` where it
refused. -/
inductive LoadPhase where
  | queued
  | waitLock
  | converting (conversion : Nat)
  | building (device : Option DeviceExpression)
  | settling
  | handoff (device : DeviceExpression)
  | finished
  | returned
deriving DecidableEq, Repr

inductive Work (μ : Type*) where
  | absent
  | load (model : μ) (phase : LoadPhase)
  | conversion (order : ConversionOrder μ) (phase : ConvertPhase)
deriving DecidableEq

def Work.done : Work μ → Bool
  | .load _ .returned | .conversion _ (.returned _) => true
  | _ => false

/-- What a worker thread removes a model directory for. -/
inductive Erasure where
  | delete
  | removal
deriving DecidableEq, Repr

structure Preparation (μ : Type*) where
  artifact : μ → Option Artifact
  /-- the format of the catalog entry -/
  weightFormat : μ → WeightFormat
  status : μ → Option Status
  engines : μ → Option DeviceExpression
  loadTasks : μ → Option Nat
  convertTasks : μ → Option Nat
  /-- `_post_conversion_loads` -/
  followups : μ → Option DeviceExpression
  /-- `_post_conversion_callbacks` -/
  callbacks : μ → Option Nat
  loadLock : Option Nat
  convertLock : Option Nat
  /-- `_cleaning_models` and `_mutating_models` of the storage guard -/
  cleaning : μ → Bool
  mutating : μ → Bool
  /-- the recovery locks -/
  recovering : μ → Bool
  /-- the threads that are removing the directory -/
  erasing : μ → List Erasure
  task : Nat → Work μ
  nextTask : Nat

/-- At the start the artifacts are the ones that the catalog describes; a marker says how an
artifact was exported. -/
def Preparation.initial (weightFormat : μ → WeightFormat)
    (exported : μ → Option (Quantization × Bool)) : Preparation μ where
  artifact m := (exported m).map fun (q, marked) =>
    let p : ConversionProfile := ⟨weightFormat m, q.groupSize, q.ratio, q.sym⟩
    { exported := p, profile := if marked then some (recordLoadProfile p) else none }
  weightFormat := weightFormat
  status _ := none
  engines _ := none
  loadTasks _ := none
  convertTasks _ := none
  followups _ := none
  callbacks _ := none
  loadLock := none
  convertLock := none
  cleaning _ := false
  mutating _ := false
  recovering _ := false
  erasing _ := []
  task _ := .absent
  nextTask := 0

namespace Preparation

/-! ### What a segment does to the state -/

omit [DecidableEq μ] in
def goTo (s : Preparation μ) (t : Nat) (work : Work μ) : Preparation μ :=
  { s with task := Function.update s.task t work }

/-- `asyncio.create_task` -/
def spawn (s : Preparation μ) (work : Work μ) : Preparation μ :=
  { s with task := Function.update s.task s.nextTask work, nextTask := s.nextTask + 1 }

def setStatus (s : Preparation μ) (m : μ) (status : Option Status) : Preparation μ :=
  { s with status := Function.update s.status m status }

/-- `self.convert_tasks.pop(model_id, None)` -/
def popConversion (s : Preparation μ) (m : μ) : Preparation μ :=
  { s with convertTasks := Function.update s.convertTasks m none }

def setArtifact (s : Preparation μ) (m : μ) (artifact : Option Artifact) : Preparation μ :=
  { s with artifact := Function.update s.artifact m artifact }

def releaseLoadLock (s : Preparation μ) (t : Nat) : Preparation μ :=
  if s.loadLock = some t then { s with loadLock := none } else s

def releaseConvertLock (s : Preparation μ) (t : Nat) : Preparation μ :=
  if s.convertLock = some t then { s with convertLock := none } else s

/-- `task and not task.done()` -/
def active (s : Preparation μ) : Option Nat → Bool
  | none => false
  | some t => !(s.task t).done

def loadActive (s : Preparation μ) (m : μ) : Bool := s.active (s.loadTasks m)

def conversionActive (s : Preparation μ) (m : μ) : Bool := s.active (s.convertTasks m)

def isDownloaded (s : Preparation μ) (m : μ) : Bool := (s.artifact m).isSome

/-! ### Scheduling -/

/-- `cleanup_blocks` -/
def cleanupBlocks (cfg : PreparationSettings μ) (s : Preparation μ) (m : μ) : Bool :=
  cfg.storageGuard && s.cleaning m

/-- `_remember_post_conversion_load` -/
def remember (s : Preparation μ) (m : μ) (conversion : Option Nat) (device : DeviceExpression) :
    Preparation μ :=
  { s with
    followups := Function.update s.followups m (some device)
    callbacks := Function.update s.callbacks m conversion }

/-- `coordinated_schedule_load` over `device_authoritative_schedule_load`, behind the storage
guard. -/
def scheduleLoad (cfg : PreparationSettings μ) (s : Preparation μ) (m : μ)
    (device : Option DeviceExpression) : Preparation μ :=
  let target := device.getD cfg.device
  if s.cleanupBlocks cfg m then s
  else if s.conversionActive m then s.remember m (s.convertTasks m) target
  else if cfg.catalog m = false then s
  else if s.engines m = some target then s.setStatus m none
  else if s.loadActive m then s
  else
    { (s.spawn (.load m .queued)).setStatus m (some .queued) with
      loadTasks := Function.update s.loadTasks m (some s.nextTask) }

/-- `coordinated_schedule_convert` over the core `schedule_convert`, behind the storage guard. -/
def scheduleConvert (cfg : PreparationSettings μ) (s : Preparation μ) (m : μ)
    (device : Option DeviceExpression) (loadAfter : Bool) (request : Quantization) :
    Preparation μ :=
  let target := device.getD cfg.device
  if s.cleanupBlocks cfg m then s
  else if s.conversionActive m then
    if loadAfter then s.remember m (s.convertTasks m) target else s
  else if cfg.catalog m = false ∨ (s.engines m).isSome then s
  else if s.isDownloaded m ∧ request.weightFormat = none then
    if loadAfter then s.scheduleLoad cfg m target else s
  else
    let order : ConversionOrder μ := { model := m, device := target, request }
    let s' : Preparation μ :=
      { (s.spawn (.conversion order .queued)).setStatus m (some .queuedConvert) with
        convertTasks := Function.update s.convertTasks m (some s.nextTask) }
    if loadAfter then s'.remember m (some s.nextTask) target else s'

/-! ### Conversions -/

/-- `_convert_task` of the subclass begins. -/
def beginConversion (s : Preparation μ) (t : Nat) (order : ConversionOrder μ) : Preparation μ :=
  s.goTo t (.conversion order (.profiling (s.isDownloaded order.model)))

/-- `convert_with_internal_preflight`, up to the access check. -/
def startConversion (cfg : PreparationSettings μ) (s : Preparation μ) (t : Nat)
    (order : ConversionOrder μ) : Preparation μ :=
  if cfg.checksAccess ∧ cfg.hasSource order.model ∧
      ¬ (s.isDownloaded order.model ∧ order.request.weightFormat = none) then
    s.goTo t (.conversion order .preflight)
  else s.beginConversion t order

/-- The access check is over. -/
def afterPreflight (s : Preparation μ) (t : Nat) (order : ConversionOrder μ) (granted : Bool) :
    Preparation μ :=
  if granted then s.beginConversion t order
  else
    ((s.setStatus order.model (some .error)).popConversion order.model).goTo t
      (.conversion order (.finished false))

/-- Resumed with the architecture of the NPU: resolve the profile, and remove the marker of an
artifact that will be replaced, which can fail. -/
def afterArchitecture (s : Preparation μ) (t : Nat) (order : ConversionOrder μ)
    (wasDownloaded : Bool) (npuGroupSize : Int) (invalidated : Bool) : Preparation μ :=
  let profile := resolveConversionProfile (s.weightFormat order.model) order.request order.device
    npuGroupSize
  let s' := s.goTo t (.conversion order (.waitLock wasDownloaded profile))
  if wasDownloaded = false ∨ order.request.weightFormat.isSome then
    if invalidated then
      s'.setArtifact order.model ((s.artifact order.model).map fun a => { a with profile := none })
    else
      (s.setStatus order.model (some .error)).goTo t (.conversion order (.finished false))
  else s'

/-- The core body has returned without an error: the rest of the subclass, up to its next
`await`. -/
def afterCore (s : Preparation μ) (t : Nat) (order : ConversionOrder μ) (wasDownloaded : Bool)
    (profile : ConversionProfile) : Preparation μ :=
  if wasDownloaded ∧ order.request.weightFormat = none then
    s.goTo t (.conversion order (.finished false))
  else if s.isDownloaded order.model then
    match order.request.weightFormat with
    | none => s.goTo t (.conversion order (.recording profile))
    | some format =>
      if s.weightFormat order.model = format then s.goTo t (.conversion order (.recording profile))
      else s.goTo t (.conversion order (.persisting profile))
  else
    (s.setStatus order.model (some .error)).goTo t (.conversion order (.finished false))

/-- The core body has failed; the subclass returns. -/
def failCore (s : Preparation μ) (t : Nat) (order : ConversionOrder μ) : Preparation μ :=
  ((s.setStatus order.model (some .error)).popConversion order.model).goTo t
    (.conversion order (.finished false))

/-- The core body with the convert lock, up to the start of the converter process.  The process
reads a format that was not requested from the catalog. -/
def enterConversion (cfg : PreparationSettings μ) (s : Preparation μ) (t : Nat)
    (order : ConversionOrder μ) (wasDownloaded : Bool) (profile : ConversionProfile) :
    Preparation μ :=
  if s.isDownloaded order.model ∧ order.request.weightFormat = none then
    ((s.setStatus order.model none).popConversion order.model).afterCore t order wasDownloaded
      profile
  else if cfg.hasSource order.model then
    let exported := { profile with
      weightFormat := order.request.weightFormat.getD (s.weightFormat order.model) }
    { (s.setStatus order.model (some .converting)).goTo t
        (.conversion order (.converting wasDownloaded profile exported false)) with
      convertLock := some t }
  else s.failCore t order

/-- The converter process moves its output to the model directory. -/
def publish (s : Preparation μ) (t : Nat) (order : ConversionOrder μ) (wasDownloaded : Bool)
    (profile exported : ConversionProfile) : Preparation μ :=
  (s.setArtifact order.model (some { exported })).goTo t
    (.conversion order (.converting wasDownloaded profile exported true))

/-- The converter process has exited. -/
def endProcess (s : Preparation μ) (t : Nat) (order : ConversionOrder μ) (wasDownloaded : Bool)
    (profile : ConversionProfile) (ok : Bool) : Preparation μ :=
  let s := s.releaseConvertLock t
  if ok then
    ((s.setStatus order.model none).popConversion order.model).afterCore t order wasDownloaded
      profile
  else s.failCore t order

/-- `_persist_converted_weight_format`, and on. -/
def persist (s : Preparation μ) (t : Nat) (order : ConversionOrder μ)
    (profile : ConversionProfile) (ok : Bool) : Preparation μ :=
  if ok then
    { s.goTo t (.conversion order (.recording profile)) with
      weightFormat := Function.update s.weightFormat order.model
        (order.request.weightFormat.getD (s.weightFormat order.model)) }
  else (s.setStatus order.model (some .error)).goTo t (.conversion order (.finished false))

/-- `record_load_profile`, and on; a failure is logged only. -/
def record (s : Preparation μ) (t : Nat) (order : ConversionOrder μ)
    (profile : ConversionProfile) (ok : Bool) : Preparation μ :=
  let s' := s.goTo t (.conversion order .measuring)
  if ok then
    s'.setArtifact order.model
      ((s.artifact order.model).map fun a => { a with profile := some (recordLoadProfile profile) })
  else s'

/-- A `CancelledError` is raised in the inner task, by the watchdog or by a cancellation of the
task itself, which then ends as cancelled. -/
def cancelConversion (s : Preparation μ) (t : Nat) (order : ConversionOrder μ) (watchdog : Bool) :
    ConvertPhase → Option (Preparation μ)
  | .queued | .preflight | .profiling _ | .persisting _ | .recording _ | .measuring =>
    some (s.goTo t (.conversion order (.finished !watchdog)))
  | .waitLock _ _ =>
    some (((s.setStatus order.model (some .cancelled)).popConversion order.model).goTo t
      (.conversion order (.finished !watchdog)))
  | .converting _ _ _ _ =>
    some ((s.releaseConvertLock t).goTo t (.conversion order (.terminating watchdog)))
  -- a cancellation while the process is being terminated is ignored
  | .terminating first => some (s.goTo t (.conversion order (.terminating (first && watchdog))))
  | .finished _ => some (s.goTo t (.conversion order (.finished !watchdog)))
  | .returned _ => none

/-- The converter process was terminated. -/
def endTermination (s : Preparation μ) (t : Nat) (order : ConversionOrder μ) (watchdog : Bool) :
    Preparation μ :=
  ((s.setStatus order.model (some .cancelled)).popConversion order.model).goTo t
    (.conversion order (.finished !watchdog))

/-- `resume_after_conversion` -/
def runCallback (cfg : PreparationSettings μ) (s : Preparation μ) (t : Nat) (m : μ)
    (cancelled : Bool) : Preparation μ :=
  if s.callbacks m = some t then
    let s' : Preparation μ :=
      { s with
        callbacks := Function.update s.callbacks m none
        followups := Function.update s.followups m none }
    match s.followups m with
    | none => s'
    | some device =>
      if cancelled ∨ s.status m = some .error then s' else s'.scheduleLoad cfg m (some device)
  else s

/-! ### Loads -/

/-- The end of a load task: its status, its lock and its entry. -/
def finishLoad (s : Preparation μ) (t : Nat) (m : μ) (status : Option Status) : Preparation μ :=
  { ((s.setStatus m status).releaseLoadLock t).goTo t (.load m .finished) with
    loadTasks := Function.update s.loadTasks m none }

/-- `except Exception`: a working engine is kept. -/
def failLoad (s : Preparation μ) (t : Nat) (m : μ) : Preparation μ :=
  s.finishLoad t m (if (s.engines m).isSome then none else some .error)

/-- `continue`, up to the next wait for the load lock. -/
def retarget (s : Preparation μ) (t : Nat) (m : μ) : Preparation μ :=
  (s.releaseLoadLock t).goTo t (.load m .waitLock)

/-- Up to the wait for the load lock; `go` is false where the engine is on the target already or
the target is not available. -/
def startLoad (cfg : PreparationSettings μ) (s : Preparation μ) (t : Nat) (m : μ) (go : Bool) :
    Preparation μ :=
  if go ∧ (s.isDownloaded m ∨ cfg.autoConvert) then
    (s.setStatus m (some .loading)).goTo t (.load m .waitLock)
  else s.failLoad t m

/-- `_build_engine` in the executor: the preflight of the device, then the native build. -/
def startBuild (cfg : PreparationSettings μ) (s : Preparation μ) (t : Nat) (m : μ)
    (device : DeviceExpression) : Preparation μ :=
  let chosen := safeLoadDevice (s.weightFormat m) ((s.artifact m).bind Artifact.profile)
    cfg.available device
  (s.setStatus m (some .loading)).goTo t (.load m (.building chosen))

/-- Resumed with the load lock. -/
def enterLoad (cfg : PreparationSettings μ) (s : Preparation μ) (t : Nat) (m : μ)
    (device : DeviceExpression) (go : Bool) : Preparation μ :=
  let s' : Preparation μ := { s with loadLock := some t }
  if go then
    if s.isDownloaded m then s'.startBuild cfg t m device
    else
      let order : ConversionOrder μ := { model := m, device, owner := some t }
      ((s'.spawn (.conversion order .queued)).setStatus m (some .converting)).goTo t
        (.load m (.converting s.nextTask))
  else s'.failLoad t m

/-- Resumed after the inline conversion; `go` is false where the target has moved on. -/
def afterConversion (cfg : PreparationSettings μ) (s : Preparation μ) (t : Nat) (m : μ)
    (device : DeviceExpression) (go cancelled : Bool) : Preparation μ :=
  if cancelled then s.finishLoad t m (s.status m)
  else if s.isDownloaded m then
    if go then s.startBuild cfg t m device else s.retarget t m
  else s.failLoad t m

/-- The native build has ended, or the device was refused. -/
def endBuild (s : Preparation μ) (t : Nat) (m : μ) (built : Bool) :
    Option DeviceExpression → Preparation μ
  | some device => if built then s.goTo t (.load m (.handoff device)) else s.failLoad t m
  | none => s.failLoad t m

/-- The handoff; `go` is false where the target has moved on. -/
def handoff (s : Preparation μ) (t : Nat) (m : μ) (device : DeviceExpression) (go : Bool) :
    Preparation μ :=
  if go then
    { s.finishLoad t m none with engines := Function.update s.engines m (some device) }
  else s.retarget t m

/-- A `CancelledError` is raised in the load task; an inline conversion receives it first, and
a native build is waited for. -/
def cancelLoad (s : Preparation μ) (t : Nat) (m : μ) : LoadPhase → Option (Preparation μ)
  | .queued => some (s.goTo t (.load m .finished))
  | .waitLock | .handoff _ | .settling => some (s.finishLoad t m (s.status m))
  | .building _ => some (s.goTo t (.load m .settling))
  | .converting c =>
    match s.task c with
    | .conversion order phase => s.cancelConversion c order false phase
    | _ => none
  | .finished | .returned => none

/-! ### Deletion and recovery -/

/-- A model that is being prepared. -/
def isActive (s : Preparation μ) (m : μ) : Bool :=
  (s.status m).any Status.preparing || s.loadActive m || s.conversionActive m

/-- `_external_mutation` raises. -/
def mutationRefused (cfg : PreparationSettings μ) (s : Preparation μ) (m : μ) : Bool :=
  cfg.storageGuard && (s.cleaning m || s.mutating m)

/-- `guarded_delete`, up to the removal of the directory. -/
def startDelete (cfg : PreparationSettings μ) (s : Preparation μ) (m : μ) : Preparation μ :=
  if cfg.catalog m = false ∨ s.mutationRefused cfg m ∨ (s.engines m).isSome ∨ s.isActive m then s
  else
    { s with
      followups := Function.update s.followups m none
      callbacks := Function.update s.callbacks m none
      cleaning := Function.update s.cleaning m cfg.storageGuard
      mutating := Function.update s.mutating m cfg.storageGuard
      erasing := Function.update s.erasing m (.delete :: s.erasing m) }

/-- `recover_model`, up to the removal of the incomplete output; two of its actions refuse a
loaded model. -/
def startRemoval (cfg : PreparationSettings μ) (s : Preparation μ) (m : μ) (refusesLoaded : Bool) :
    Preparation μ :=
  if cfg.catalog m = false ∨ s.mutationRefused cfg m ∨ s.recovering m ∨ s.isActive m ∨
      s.isDownloaded m ∨ (refusesLoaded ∧ (s.engines m).isSome) then s
  else
    { s with
      recovering := Function.update s.recovering m true
      mutating := Function.update s.mutating m cfg.storageGuard
      erasing := Function.update s.erasing m (.removal :: s.erasing m) }

/-- A thread has removed the directory; the rest of a deletion follows in it. -/
def endErasure (s : Preparation μ) (m : μ) (kind : Erasure) : Preparation μ :=
  let s' : Preparation μ :=
    { s.setArtifact m none with
      erasing := Function.update s.erasing m ((s.erasing m).erase kind) }
  match kind with
  | .removal => s'
  | .delete =>
    { (s'.setStatus m none).popConversion m with
      loadTasks := Function.update s.loadTasks m none
      cleaning := Function.update s.cleaning m false
      mutating := Function.update s.mutating m false }

/-- `recover_model` returns. -/
def endRecovery (s : Preparation μ) (m : μ) : Preparation μ :=
  { s with
    recovering := Function.update s.recovering m false
    mutating := Function.update s.mutating m false }

def unload (s : Preparation μ) (m : μ) : Preparation μ :=
  { s.setStatus m none with engines := Function.update s.engines m none }

end Preparation

/-! ### Events -/

inductive PreparationEvent (μ : Type*) where
  | scheduleLoad (m : μ) (device : Option DeviceExpression)
  | scheduleConvert (m : μ) (device : Option DeviceExpression) (loadAfter : Bool)
      (request : Quantization)
  | startConversion (t : Nat)
  | endPreflight (t : Nat) (granted : Bool)
  | readArchitecture (t : Nat) (npuGroupSize : Int) (invalidated : Bool)
  | enterConversion (t : Nat)
  | publish (t : Nat)
  | endProcess (t : Nat) (ok : Bool)
  | persist (t : Nat) (ok : Bool)
  | record (t : Nat) (ok : Bool)
  | measure (t : Nat)
  | endTermination (t : Nat)
  | returnConversion (t : Nat)
  | runCallback (t : Nat)
  | startLoad (t : Nat) (go : Bool)
  | enterLoad (t : Nat) (device : DeviceExpression) (go : Bool)
  | resumeLoad (t : Nat) (device : DeviceExpression) (go : Bool)
  | endBuild (t : Nat) (built : Bool)
  | handoff (t : Nat) (go : Bool)
  | returnLoad (t : Nat)
  | cancel (t : Nat) (watchdog : Bool)
  | startDelete (m : μ)
  | startRemoval (m : μ) (refusesLoaded : Bool)
  | endErasure (m : μ) (kind : Erasure)
  | endRecovery (m : μ)
  | unload (m : μ)
deriving DecidableEq

/-- One segment; `none` where it cannot happen. -/
def Preparation.step (cfg : PreparationSettings μ) (s : Preparation μ) :
    PreparationEvent μ → Option (Preparation μ)
  | .scheduleLoad m device => some (s.scheduleLoad cfg m device)
  | .scheduleConvert m device loadAfter request =>
    some (s.scheduleConvert cfg m device loadAfter request)
  | .startConversion t =>
    match s.task t with
    | .conversion order .queued => some (s.startConversion cfg t order)
    | _ => none
  | .endPreflight t granted =>
    match s.task t with
    | .conversion order .preflight => some (s.afterPreflight t order granted)
    | _ => none
  | .readArchitecture t npuGroupSize invalidated =>
    match s.task t with
    | .conversion order (.profiling wasDownloaded) =>
      some (s.afterArchitecture t order wasDownloaded npuGroupSize invalidated)
    | _ => none
  | .enterConversion t =>
    match s.task t, s.convertLock with
    | .conversion order (.waitLock wasDownloaded profile), none =>
      some (s.enterConversion cfg t order wasDownloaded profile)
    | _, _ => none
  | .publish t =>
    match s.task t with
    | .conversion order (.converting wasDownloaded profile exported false) =>
      some (s.publish t order wasDownloaded profile exported)
    | _ => none
  -- exit code 0 means that the output was published
  | .endProcess t ok =>
    match s.task t with
    | .conversion order (.converting wasDownloaded profile _ published) =>
      if ok ∧ published = false then none else some (s.endProcess t order wasDownloaded profile ok)
    | _ => none
  | .persist t ok =>
    match s.task t with
    | .conversion order (.persisting profile) => some (s.persist t order profile ok)
    | _ => none
  | .record t ok =>
    match s.task t with
    | .conversion order (.recording profile) => some (s.record t order profile ok)
    | _ => none
  | .measure t =>
    match s.task t with
    | .conversion order .measuring => some (s.goTo t (.conversion order (.finished false)))
    | _ => none
  | .endTermination t =>
    match s.task t with
    | .conversion order (.terminating watchdog) => some (s.endTermination t order watchdog)
    | _ => none
  | .returnConversion t =>
    match s.task t with
    | .conversion order (.finished cancelled) =>
      some (s.goTo t (.conversion order (.returned cancelled)))
    | _ => none
  | .runCallback t =>
    match s.task t with
    | .conversion order (.returned cancelled) => some (s.runCallback cfg t order.model cancelled)
    | _ => none
  | .startLoad t go =>
    match s.task t with
    | .load m .queued => some (s.startLoad cfg t m go)
    | _ => none
  | .enterLoad t device go =>
    match s.task t, s.loadLock with
    | .load m .waitLock, none => some (s.enterLoad cfg t m device go)
    | _, _ => none
  | .resumeLoad t device go =>
    match s.task t with
    | .load m (.converting c) =>
      match s.task c with
      | .conversion _ (.returned cancelled) => some (s.afterConversion cfg t m device go cancelled)
      | _ => none
    | _ => none
  | .endBuild t built =>
    match s.task t with
    | .load m (.building device) => some (s.endBuild t m built device)
    | .load m .settling => some (s.finishLoad t m (s.status m))
    | _ => none
  | .handoff t go =>
    match s.task t with
    | .load m (.handoff device) => some (s.handoff t m device go)
    | _ => none
  | .returnLoad t =>
    match s.task t with
    | .load m .finished => some (s.goTo t (.load m .returned))
    | _ => none
  | .cancel t watchdog =>
    match s.task t with
    | .load m phase => s.cancelLoad t m phase
    -- an inline conversion has no task of its own that could be cancelled
    | .conversion order phase =>
      if order.owner.isSome ∧ watchdog = false then none
      else s.cancelConversion t order watchdog phase
    | .absent => none
  | .startDelete m => some (s.startDelete cfg m)
  | .startRemoval m refusesLoaded => some (s.startRemoval cfg m refusesLoaded)
  | .endErasure m kind => if kind ∈ s.erasing m then some (s.endErasure m kind) else none
  | .endRecovery m =>
    if s.recovering m ∧ Erasure.removal ∉ s.erasing m then some (s.endRecovery m) else none
  | .unload m => if (s.engines m).isSome then some (s.unload m) else none

/-! ### A small instance -/

def cpuOnly : DeviceExpression := { kind := .physical { base := .cpu } }

def npuOnly : DeviceExpression := { kind := .physical { base := .npu } }

/-- One catalog model, numbered 0, on a machine with a CPU and an NPU. -/
def oneDirectory (storageGuard : Bool) : PreparationSettings Nat where
  catalog m := m == 0
  hasSource m := m == 0
  device := cpuOnly
  autoConvert := true
  checksAccess := false
  storageGuard := storageGuard
  available := [{ base := .cpu }, { base := .npu }]

/-- Its catalog entry says INT8, and nothing is downloaded. -/
def nothingDownloaded : Preparation Nat := Preparation.initial (fun _ => .int8) (fun _ => none)

/-- A conversion of the model up to the converter process; its task is `t`. -/
def convertsTo (t : Nat) (request : Quantization) : List (PreparationEvent Nat) :=
  [.scheduleConvert 0 none false request, .startConversion t, .readArchitecture t 128 true,
    .enterConversion t]

end InferBridge
