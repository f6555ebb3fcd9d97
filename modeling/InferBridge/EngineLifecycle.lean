/-
InferBridge/EngineLifecycle.lean

The engines of the model manager and every task that installs, replaces,
closes or leases one, as one transition system.

Asyncio runs a task without interruption from one `await` to the next, so
one event below is one such segment of one task (or a worker thread that
ends), and an interleaving is a list of events.  The tasks are

  * load tasks (app/model_load_target.py), which also switch devices,
  * requests that hold a lease (app/engine_handoff_safety.py), with the
    quarantine and the NPU rebuild after a stream (app/model_manager.py),
  * context changes (`configure_context` in app/model_manager.py),

and an unload is a segment of its own.  A task record has the source's
local variables: what it holds when it is at an `await`.

A lock is taken when it is free, by any of its waiters: this allows every
order in which asyncio wakes them, and more.  Engines and locks are objects
with an identity, numbered as they are created; an engine counts how often
it was closed.
-/
import InferBridge.EngineHandoff

namespace InferBridge

variable {μ δ : Type*} [DecidableEq μ] [DecidableEq δ]

/-! ### The state -/

/-- What the lifecycle reads of the settings, the catalog and the device names. -/
structure ManagerSettings (μ δ : Type*) where
  catalog : μ → Bool
  device : δ
  autoConvert : Bool
  forceMock : Bool
  isNpu : δ → Bool

inductive Build where
  | absent
  | running
  | built
  | failed
deriving DecidableEq, Repr

/-- An engine object.  `target` is the device its build was asked for, `device` the one it
runs on, known once the native build has ended. -/
structure Engine (δ : Type*) where
  target : Option δ := none
  device : Option δ := none
  builder : Option Nat := none
  build : Build := .absent
  closes : Nat := 0
deriving DecidableEq, Repr

/-- Where a load task waits.  `got…` is a lock that the waiter has acquired while the task
itself has not resumed yet. -/
inductive LoadStage where
  | queued
  | waitLoadLock
  | gotLoadLock
  | converting
  | building
  | settling
  | waitHandoff (previous lock : Nat)
  | gotHandoff (previous lock : Nat)
  | finished
  | returned
deriving DecidableEq, Repr

inductive RequestStage where
  | waiting (current lock : Nat)
  | leased (engine : Nat)
  | rebuilding (engine : Nat)
  | finished
deriving DecidableEq, Repr

inductive ConfigureStage where
  | waitLoadLock
  | building (old : Nat) (cancelled : Bool)
  | waitLock (old : Option Nat) (lock : Nat)
  | finished
deriving DecidableEq, Repr

inductive Activity (μ δ : Type*) where
  | absent
  | load (model : μ) (current : δ) (stage : LoadStage)
  | request (model : μ) (requested : Nat) (stage : RequestStage)
  | configure (model : μ) (stage : ConfigureStage)
deriving DecidableEq, Repr

/-- A task and what it holds: the load lock, a model lock, the future of a native build, and
a replacement that is built but not installed. -/
structure Task (μ δ : Type*) where
  activity : Activity μ δ := .absent
  loadLock : Bool := false
  lock : Option Nat := none
  future : Option Nat := none
  replacement : Option Nat := none
deriving DecidableEq, Repr

structure Manager (μ δ : Type*) where
  engines : μ → Option Nat
  locks : μ → Option Nat
  loadTasks : μ → Option Nat
  /-- `_requested_load_devices` -/
  targets : μ → Option δ
  /-- `_context_changes` -/
  contextChanges : μ → Bool
  /-- the holder of `_load_lock` -/
  loadLock : Option Nat
  lockHolder : Nat → Option Nat
  task : Nat → Task μ δ
  engine : Nat → Engine δ
  nextEngine : Nat
  nextLock : Nat

def Manager.initial : Manager μ δ where
  engines _ := none
  locks _ := none
  loadTasks _ := none
  targets _ := none
  contextChanges _ := false
  loadLock := none
  lockHolder _ := none
  task _ := {}
  engine _ := {}
  nextEngine := 0
  nextLock := 0

namespace Manager

/-! ### What a segment does to the state -/

omit [DecidableEq μ] [DecidableEq δ] in
/-- The task goes on to its next `await`. -/
def goTo (s : Manager μ δ) (t : Nat) (activity : Activity μ δ) : Manager μ δ :=
  { s with task := Function.update s.task t { s.task t with activity } }

def acquireLoadLock (s : Manager μ δ) (t : Nat) : Manager μ δ :=
  { s with
    loadLock := some t
    task := Function.update s.task t { s.task t with loadLock := true } }

def releaseLoadLock (s : Manager μ δ) (t : Nat) : Manager μ δ :=
  if (s.task t).loadLock then
    { s with
      loadLock := none
      task := Function.update s.task t { s.task t with loadLock := false } }
  else s

/-- `self.locks[model_id] = asyncio.Lock()` -/
def renewLock (s : Manager μ δ) (m : μ) : Manager μ δ :=
  { s with locks := Function.update s.locks m (some s.nextLock), nextLock := s.nextLock + 1 }

/-- `get_lock`: the lock of the model, created on first use. -/
def getLock (s : Manager μ δ) (m : μ) : Manager μ δ × Nat :=
  match s.locks m with
  | some l => (s, l)
  | none => (s.renewLock m, s.nextLock)

def acquireLock (s : Manager μ δ) (t l : Nat) : Manager μ δ :=
  { s with
    lockHolder := Function.update s.lockHolder l (some t)
    task := Function.update s.task t { s.task t with lock := some l } }

def releaseLock (s : Manager μ δ) (t : Nat) : Manager μ δ :=
  match (s.task t).lock with
  | none => s
  | some l =>
    { s with
      lockHolder := Function.update s.lockHolder l none
      task := Function.update s.task t { s.task t with lock := none } }

def close (s : Manager μ δ) (e : Nat) : Manager μ δ :=
  { s with engine := Function.update s.engine e { s.engine e with closes := (s.engine e).closes + 1 } }

def dropReplacement (s : Manager μ δ) (t : Nat) : Manager μ δ :=
  { s with task := Function.update s.task t { s.task t with replacement := none } }

def closeReplacement (s : Manager μ δ) (t : Nat) : Manager μ δ :=
  match (s.task t).replacement with
  | none => s
  | some e => (s.dropReplacement t).close e

/-- `run_in_executor` on a build for the device `target`: the worker starts. -/
def startBuild (s : Manager μ δ) (t : Nat) (target : Option δ) : Manager μ δ :=
  { s with
    engine := Function.update s.engine s.nextEngine { target, builder := some t, build := .running }
    task := Function.update s.task t { s.task t with future := some s.nextEngine }
    nextEngine := s.nextEngine + 1 }

/-- The worker ends, with an engine on a device or with an exception. -/
def endBuild (s : Manager μ δ) (e : Nat) : Option δ → Manager μ δ
  | some device =>
    { s with
      engine := Function.update s.engine e { s.engine e with device := some device, build := .built } }
  | none => { s with engine := Function.update s.engine e { s.engine e with build := .failed } }

/-- `replacement = future.result()` -/
def takeFuture (s : Manager μ δ) (t : Nat) : Manager μ δ :=
  { s with
    task := Function.update s.task t
      { s.task t with future := none, replacement := (s.task t).future } }

/-- The task leaves the future behind. -/
def dropFuture (s : Manager μ δ) (t : Nat) : Manager μ δ :=
  { s with task := Function.update s.task t { s.task t with future := none } }

/-- The replacement becomes the engine of the model. -/
def putReplacement (s : Manager μ δ) (t : Nat) (m : μ) : Manager μ δ :=
  { s.dropReplacement t with engines := Function.update s.engines m (s.task t).replacement }

/-- Install the replacement with a lock of its own and close the previous engine. -/
def install (s : Manager μ δ) (t : Nat) (m : μ) (previous : Option Nat) : Manager μ δ :=
  let s' := (s.putReplacement t m).renewLock m
  match previous with
  | none => s'
  | some e => s'.close e

/-- `self.engines.pop(model_id, None)` -/
def popEngine (s : Manager μ δ) (m : μ) : Manager μ δ :=
  { s with engines := Function.update s.engines m none }

/-- `self.locks.pop(model_id, None)` -/
def popLock (s : Manager μ δ) (m : μ) : Manager μ δ :=
  { s with locks := Function.update s.locks m none }

/-- The engine is on this device. -/
def runsOn (s : Manager μ δ) (m : μ) (device : δ) : Bool :=
  match s.engines m with
  | none => false
  | some e => (s.engine e).device = some device

/-- `task is not None and not task.done()` for the load task of the model. -/
def loadActive (s : Manager μ δ) (m : μ) : Bool :=
  match s.loadTasks m with
  | none => false
  | some t =>
    match (s.task t).activity with
    | .load _ _ .returned => false
    | _ => true

/-- `targets.get(model_id, current_device)` -/
def latestTarget (s : Manager μ δ) (m : μ) (current : δ) : δ := (s.targets m).getD current

/-! ### Load tasks -/

/-- The result of `_inspect_target`. -/
inductive Inspection where
  | unavailable
  | missing
  | downloaded
deriving DecidableEq, Repr

/-- `device_authoritative_schedule_load`; `t` is the task it may create. -/
def scheduleLoad (cfg : ManagerSettings μ δ) (s : Manager μ δ) (t : Nat) (m : μ)
    (device : Option δ) : Manager μ δ :=
  if cfg.catalog m then
    let target := device.getD cfg.device
    if s.runsOn m target then s
    else if s.loadActive m then { s with targets := Function.update s.targets m (some target) }
    else
      { s with
        targets := Function.update s.targets m (some target)
        loadTasks := Function.update s.loadTasks m (some t)
        task := Function.update s.task t { activity := .load m target .queued } }
  else s

/-- The last `finally` of a load task. -/
def finishLoad (s : Manager μ δ) (t : Nat) (m : μ) (current : δ) : Manager μ δ :=
  { s.goTo t (.load m current .finished) with
    loadTasks := Function.update s.loadTasks m none
    targets := Function.update s.targets m none }

/-- `except Exception`: a working engine is kept. -/
def failLoad (s : Manager μ δ) (t : Nat) (m : μ) (current : δ) : Manager μ δ :=
  match s.engines m with
  | some _ => s.finishLoad t m current
  | none => (s.popLock m).finishLoad t m current

/-- The inner `finally`: close what was not installed, release both locks. -/
def leaveLoad (s : Manager μ δ) (t : Nat) : Manager μ δ :=
  ((s.closeReplacement t).releaseLock t).releaseLoadLock t

/-- The top of the loop, up to the wait for the load lock.  There is no `await` between the
two reads of the target, so the second one does not differ from the first. -/
def loopTop (cfg : ManagerSettings μ δ) (s : Manager μ δ) (t : Nat) (m : μ) (current : δ)
    (inspection : Inspection) : Manager μ δ :=
  let current := s.latestTarget m current
  if s.runsOn m current then s.finishLoad t m current
  else
    match inspection with
    | .unavailable => s.failLoad t m current
    | .missing =>
      if cfg.autoConvert then s.goTo t (.load m current .waitLoadLock)
      else s.failLoad t m current
    | .downloaded => s.goTo t (.load m current .waitLoadLock)

/-- The check of the target that precedes a step for `current`: where the target has moved
on, `continue` with the newest one. -/
def unlessRetargeted (cfg : ManagerSettings μ δ) (s : Manager μ δ) (t : Nat) (m : μ) (current : δ)
    (inspection : Inspection) (goOn : Manager μ δ) : Manager μ δ :=
  if s.latestTarget m current = current then goOn
  else (s.leaveLoad t).loopTop cfg t m (s.latestTarget m current) inspection

/-- With the target confirmed, start the native build. -/
def compile (cfg : ManagerSettings μ δ) (s : Manager μ δ) (t : Nat) (m : μ) (current : δ)
    (inspection : Inspection) : Manager μ δ :=
  s.unlessRetargeted cfg t m current inspection
    ((s.startBuild t (some current)).goTo t (.load m current .building))

/-- Resumed with the load lock. -/
def afterLoadLock (cfg : ManagerSettings μ δ) (s : Manager μ δ) (t : Nat) (m : μ) (current : δ)
    (inspection : Inspection) : Manager μ δ :=
  s.unlessRetargeted cfg t m current inspection
    (if s.runsOn m current then (s.leaveLoad t).finishLoad t m current
    else
      match inspection with
      | .unavailable => (s.leaveLoad t).failLoad t m current
      | .missing => s.goTo t (.load m current .converting)
      | .downloaded => s.compile cfg t m current inspection)

/-- Resumed after the inline conversion; `first` is the inspection of
`_require_local_model`, a conversion that raised counts as one that failed. -/
def afterConversion (cfg : ManagerSettings μ δ) (s : Manager μ δ) (t : Nat) (m : μ) (current : δ)
    (first again : Inspection) : Manager μ δ :=
  match first with
  | .downloaded => s.compile cfg t m current again
  | .unavailable | .missing => (s.leaveLoad t).failLoad t m current

/-- The engine and its lock are settled, or there is no engine: install the replacement
unless the target has moved on. -/
def completeHandoff (cfg : ManagerSettings μ δ) (s : Manager μ δ) (t : Nat) (m : μ) (current : δ)
    (previous : Option Nat) (inspection : Inspection) : Manager μ δ :=
  s.unlessRetargeted cfg t m current inspection
    (((s.install t m previous).leaveLoad t).finishLoad t m current)

/-- `_acquire_stable_handoff_lock`, up to the wait for the lock. -/
def handoff (cfg : ManagerSettings μ δ) (s : Manager μ δ) (t : Nat) (m : μ) (current : δ)
    (inspection : Inspection) : Manager μ δ :=
  match s.engines m with
  | none => s.completeHandoff cfg t m current none inspection
  | some previous =>
    let (s, l) := s.getLock m
    s.goTo t (.load m current (.waitHandoff previous l))

/-- Resumed with the lock of the previous engine. -/
def afterHandoffLock (cfg : ManagerSettings μ δ) (s : Manager μ δ) (t : Nat) (m : μ) (current : δ)
    (previous l : Nat) (inspection : Inspection) : Manager μ δ :=
  let (s, latestLock) := s.getLock m
  if s.engines m = some previous ∧ latestLock = l then
    s.completeHandoff cfg t m current (some previous) inspection
  else (s.releaseLock t).handoff cfg t m current inspection

/-- Resumed after the native build. -/
def afterBuild (cfg : ManagerSettings μ δ) (s : Manager μ δ) (t : Nat) (m : μ) (current : δ)
    (build : Build) (inspection : Inspection) : Option (Manager μ δ) :=
  match build with
  | .built =>
    let s := s.takeFuture t
    some (s.unlessRetargeted cfg t m current inspection (s.handoff cfg t m current inspection))
  | .failed => some (((s.dropFuture t).leaveLoad t).failLoad t m current)
  | .absent | .running => none

/-- `except asyncio.CancelledError` of the build helper, once the future is done: close the
engine, then let the cancellation through. -/
def settle (s : Manager μ δ) (t : Nat) (m : μ) (current : δ) : Build → Option (Manager μ δ)
  | .built => some ((((s.takeFuture t).closeReplacement t).leaveLoad t).finishLoad t m current)
  | .failed => some (((s.dropFuture t).leaveLoad t).finishLoad t m current)
  | .absent | .running => none

/-- A `CancelledError` is raised at the `await` where the load task is. -/
def cancelLoad (s : Manager μ δ) (t : Nat) (m : μ) (current : δ) (build : Build) :
    LoadStage → Option (Manager μ δ)
  -- the body has not started, so neither has its `finally`
  | .queued => some (s.goTo t (.load m current .finished))
  | .waitLoadLock | .gotLoadLock | .converting | .waitHandoff _ _ | .gotHandoff _ _ =>
    some ((s.leaveLoad t).finishLoad t m current)
  | .building =>
    match s.settle t m current build with
    | some s' => some s'
    | none => some (s.goTo t (.load m current .settling))
  -- `suppress(Exception)` does not catch a second cancellation
  | .settling => some (((s.dropFuture t).leaveLoad t).finishLoad t m current)
  | .finished | .returned => none

/-! ### Requests -/

/-- `current_engine_lease`, up to the wait for the lock. -/
def requestLease (cfg : ManagerSettings μ δ) (s : Manager μ δ) (t : Nat) (m : μ) (requested : Nat) :
    Manager μ δ :=
  match leaseTarget (cfg.catalog m) requested (s.engines m) with
  | none => s.goTo t (.request m requested .finished)
  | some current =>
    let (s, l) := s.getLock m
    s.goTo t (.request m requested (.waiting current l))

/-- The lock is acquired: yield the engine if engine and lock are still current. -/
def grantLease (cfg : ManagerSettings μ δ) (s : Manager μ δ) (t : Nat) (m : μ)
    (requested current l : Nat) : Manager μ δ :=
  let (s, latestLock) := (s.acquireLock t l).getLock m
  if leaseStable (cfg.catalog m) requested current l (s.engines m) latestLock then
    s.goTo t (.request m requested (.leased current))
  else (s.releaseLock t).requestLease cfg t m requested

def endLease (s : Manager μ δ) (t : Nat) (m : μ) (requested : Nat) : Manager μ δ :=
  (s.releaseLock t).goTo t (.request m requested .finished)

/-- How the work under a lease ends: a `stuck` worker did not stop in time. -/
inductive GenerationEnd where
  | completed
  | interrupted
  | stuck
deriving DecidableEq, Repr

/-- The quarantine of `_finish_stream_handle`. -/
def quarantine (s : Manager μ δ) (m : μ) (e : Nat) : Manager μ δ :=
  if s.engines m = some e then s.popEngine m else s

/-- `_recover_cancelled_npu_engine`, up to the wait for the rebuild. -/
def recoverNpu (cfg : ManagerSettings μ δ) (s : Manager μ δ) (t : Nat) (m : μ) (requested e : Nat) :
    Manager μ δ :=
  if cfg.forceMock then s.endLease t m requested
  else if ((s.engine e).device.map cfg.isNpu).getD false = false then s.endLease t m requested
  else if s.engines m = some e then
    ((s.goTo t (.request m requested (.rebuilding e))).close e).startBuild t (s.engine e).device
  else s.endLease t m requested

def endGeneration (cfg : ManagerSettings μ δ) (s : Manager μ δ) (t : Nat) (m : μ)
    (requested e : Nat) : GenerationEnd → Manager μ δ
  | .completed => s.endLease t m requested
  | .interrupted => s.recoverNpu cfg t m requested e
  | .stuck => (s.quarantine m e).recoverNpu cfg t m requested e

/-- Resumed after the rebuild. -/
def afterRebuild (s : Manager μ δ) (t : Nat) (m : μ) (requested e : Nat) :
    Build → Option (Manager μ δ)
  | .built =>
    let s := s.takeFuture t
    if s.engines m = some e then some ((s.putReplacement t m).endLease t m requested)
    else some ((s.closeReplacement t).endLease t m requested)
  | .failed => some (((s.dropFuture t).popEngine m).endLease t m requested)
  | .absent | .running => none

/-! ### Context changes -/

/-- Leave `configure_context`, closing a replacement that was not installed. -/
def leaveConfigure (s : Manager μ δ) (t : Nat) (m : μ) : Manager μ δ :=
  { (((s.closeReplacement t).releaseLock t).releaseLoadLock t).goTo t (.configure m .finished) with
    contextChanges := Function.update s.contextChanges m false }

/-- `configure_context`, up to the wait for the load lock; `refused` stands for its checks of
the request and of the catalog. -/
def configureContext (cfg : ManagerSettings μ δ) (s : Manager μ δ) (t : Nat) (m : μ)
    (refused : Bool) : Manager μ δ :=
  if cfg.catalog m = false ∨ s.contextChanges m ∨ refused ∨ s.loadActive m then s
  else
    { s.goTo t (.configure m .waitLoadLock) with
      contextChanges := Function.update s.contextChanges m true }

/-- Wait for the lock of the model. -/
def waitModelLock (s : Manager μ δ) (t : Nat) (m : μ) (old : Option Nat) : Manager μ δ :=
  let (s, l) := s.getLock m
  s.goTo t (.configure m (.waitLock old l))

/-- The load lock is acquired; `rebuild` says that the change concerns a loaded engine. -/
def configureLocked (s : Manager μ δ) (t : Nat) (m : μ) (refused rebuild : Bool) : Manager μ δ :=
  let s := s.acquireLoadLock t
  if refused ∨ s.loadActive m then s.leaveConfigure t m
  else
    match s.engines m, rebuild with
    | some old, true =>
      (s.startBuild t (s.engine old).device).goTo t (.configure m (.building old false))
    | old, _ => s.waitModelLock t m old

/-- Resumed after the build. -/
def configureBuilt (s : Manager μ δ) (t : Nat) (m : μ) (old : Nat) (cancelled : Bool) :
    Build → Option (Manager μ δ)
  | .built =>
    let s := s.takeFuture t
    if cancelled then some (s.leaveConfigure t m) else some (s.waitModelLock t m (some old))
  | .failed => some ((s.dropFuture t).leaveConfigure t m)
  | .absent | .running => none

/-- The lock of the model is acquired: hand over, unless the engine or the catalog entry has
changed. -/
def configureHandoff (s : Manager μ δ) (t : Nat) (m : μ) (old : Option Nat) (l : Nat)
    (refused : Bool) : Manager μ δ :=
  let s := s.acquireLock t l
  if s.engines m ≠ old ∨ refused then s.leaveConfigure t m
  else
    match (s.task t).replacement with
    | none => s.leaveConfigure t m
    | some _ => (s.install t m old).leaveConfigure t m

/-- A `CancelledError` is raised where the context change is; during the build it is kept for
later. -/
def cancelConfigure (s : Manager μ δ) (t : Nat) (m : μ) : ConfigureStage → Option (Manager μ δ)
  | .waitLoadLock | .waitLock _ _ => some (s.leaveConfigure t m)
  | .building old _ => some (s.goTo t (.configure m (.building old true)))
  | .finished => none

/-! ### Unloading -/

/-- `unload_when_idle`; a busy model is left as it is. -/
def unload (s : Manager μ δ) (m : μ) : Manager μ δ :=
  if s.loadActive m then s
  else if (s.locks m).any (fun l => (s.lockHolder l).isSome) then s
  else
    let s' := (s.popEngine m).popLock m
    match s.engines m with
    | none => s'
    | some e => s'.close e

end Manager

open Manager

/-! ### Events -/

inductive Event (μ δ : Type*) where
  | scheduleLoad (t : Nat) (m : μ) (device : Option δ)
  | startLoad (t : Nat) (inspection : Inspection)
  | grantLoadLock (t : Nat)
  | resumeLoad (t : Nat) (first again : Inspection)
  | endBuild (e : Nat) (result : Option δ)
  | grantHandoffLock (t : Nat)
  | cancel (t : Nat)
  | returnLoad (t : Nat)
  | createEngine (device : δ)
  | request (t : Nat) (m : μ) (engine : Nat)
  | grantLease (t : Nat)
  | endGeneration (t : Nat) (how : GenerationEnd)
  | resumeRequest (t : Nat)
  | configureContext (t : Nat) (m : μ) (refused : Bool)
  | configureLocked (t : Nat) (refused rebuild : Bool)
  | resumeConfigure (t : Nat)
  | configureHandoff (t : Nat) (refused : Bool)
  | unload (m : μ)
deriving DecidableEq, Repr

/-- The build that the task waits for. -/
def Manager.awaited (s : Manager μ δ) (t : Nat) : Build :=
  match (s.task t).future with
  | none => .absent
  | some e => (s.engine e).build

/-- One segment of one task, or the end of a native build; `none` where it cannot happen. -/
def Manager.step (cfg : ManagerSettings μ δ) (s : Manager μ δ) : Event μ δ → Option (Manager μ δ)
  | .scheduleLoad t m device =>
    match (s.task t).activity with
    | .absent => some (s.scheduleLoad cfg t m device)
    | _ => none
  | .startLoad t inspection =>
    match (s.task t).activity with
    | .load m current .queued => some (s.loopTop cfg t m current inspection)
    | _ => none
  | .grantLoadLock t =>
    match (s.task t).activity, s.loadLock with
    | .load m current .waitLoadLock, none =>
      some ((s.acquireLoadLock t).goTo t (.load m current .gotLoadLock))
    | _, _ => none
  | .resumeLoad t first again =>
    match (s.task t).activity with
    | .load m current .gotLoadLock => some (s.afterLoadLock cfg t m current first)
    | .load m current .converting => some (s.afterConversion cfg t m current first again)
    | .load m current .building => s.afterBuild cfg t m current (s.awaited t) first
    | .load m current .settling => s.settle t m current (s.awaited t)
    | .load m current (.gotHandoff previous l) =>
      some (s.afterHandoffLock cfg t m current previous l first)
    | _ => none
  | .endBuild e result =>
    match (s.engine e).build with
    | .running => some (s.endBuild e result)
    | _ => none
  | .grantHandoffLock t =>
    match (s.task t).activity with
    | .load m current (.waitHandoff previous l) =>
      if s.lockHolder l = none then
        some ((s.acquireLock t l).goTo t (.load m current (.gotHandoff previous l)))
      else none
    | _ => none
  | .cancel t =>
    match (s.task t).activity with
    | .load m current stage => s.cancelLoad t m current (s.awaited t) stage
    | .request m requested (.waiting _ _) => some (s.goTo t (.request m requested .finished))
    | .configure m stage => s.cancelConfigure t m stage
    | _ => none
  | .returnLoad t =>
    match (s.task t).activity with
    | .load m current .finished => some (s.goTo t (.load m current .returned))
    | _ => none
  | .createEngine device =>
    some { s with
      engine := Function.update s.engine s.nextEngine { device := some device, build := .built }
      nextEngine := s.nextEngine + 1 }
  | .request t m engine =>
    match (s.task t).activity with
    | .absent => some (s.requestLease cfg t m engine)
    | _ => none
  | .grantLease t =>
    match (s.task t).activity with
    | .request m requested (.waiting current l) =>
      if s.lockHolder l = none then some (s.grantLease cfg t m requested current l) else none
    | _ => none
  | .endGeneration t how =>
    match (s.task t).activity with
    | .request m requested (.leased e) => some (s.endGeneration cfg t m requested e how)
    | _ => none
  | .resumeRequest t =>
    match (s.task t).activity with
    | .request m requested (.rebuilding e) => s.afterRebuild t m requested e (s.awaited t)
    | _ => none
  | .configureContext t m refused =>
    match (s.task t).activity with
    | .absent => some (s.configureContext cfg t m refused)
    | _ => none
  | .configureLocked t refused rebuild =>
    match (s.task t).activity, s.loadLock with
    | .configure m .waitLoadLock, none => some (s.configureLocked t m refused rebuild)
    | _, _ => none
  | .resumeConfigure t =>
    match (s.task t).activity with
    | .configure m (.building old cancelled) => s.configureBuilt t m old cancelled (s.awaited t)
    | _ => none
  | .configureHandoff t refused =>
    match (s.task t).activity with
    | .configure m (.waitLock old l) =>
      if s.lockHolder l = none then some (s.configureHandoff t m old l refused) else none
    | _ => none
  | .unload m => some (s.unload m)

/-! ### A small instance -/

/-- One catalog model, numbered 0; device 2 is the NPU. -/
def oneModel : ManagerSettings Nat Nat where
  catalog m := m == 0
  device := 0
  autoConvert := false
  forceMock := false
  isNpu d := d == 2

/-- Task `t` loads the model on a device, undisturbed; its build is engine `e`. -/
def loadsOn (t e device : Nat) : List (Event Nat Nat) :=
  [.scheduleLoad t 0 (some device), .startLoad t .downloaded, .grantLoadLock t,
    .resumeLoad t .downloaded .downloaded, .endBuild e (some device),
    .resumeLoad t .downloaded .downloaded, .returnLoad t]

end InferBridge
