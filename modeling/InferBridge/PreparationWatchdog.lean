/-
InferBridge/PreparationWatchdog.lean

The watchdogs of downloads, conversions and loads (app/model_preparation_timeouts.py), for one
model.

Every load and conversion runs as a task with a watcher beside it.  The watcher looks at the last
heartbeat at intervals; once the stage has been without progress for too long, or a load has been
in one stage for too long, it publishes a timeout and cancels the task.  From then on status and
progress are frozen, so that what the task does while it ends cannot replace the report.

An event is one segment of one of the tasks, or a call of one of the guarded methods by any other
code; time passes in between.  The progress store is the one of InferBridge/StructuredProgress.lean.

Design.  The state is that of one model: the two dictionaries of the watchdog have one entry each,
and the calls of `run_with_preparation_watchdog` are counted from the first.  What is proved of the
runs is in InferBridge/WatchdogSafety.lean.
-/
import InferBridge.Lib.Binary64
import InferBridge.StructuredProgress

namespace InferBridge.PreparationWatchdog

open Text StructuredProgress

/-! ### Stages -/

inductive OperationKind where
  | load
  | convert
deriving DecidableEq, Repr

inductive PreparationStage where
  | download
  | conversion
  | finalization
  | compilation
  | loading
deriving DecidableEq, Repr

/-- Seconds for each stage. -/
structure PreparationTimeouts where
  downloadStallSeconds : ℚ := 600
  conversionStallSeconds : ℚ := 900
  finalizationStallSeconds : ℚ := 300
  loadingSeconds : ℚ := 1800
  compilationSeconds : ℚ := 1800
  pollSeconds : ℚ := 1
deriving DecidableEq

def PreparationTimeouts.timeoutFor (config : PreparationTimeouts) : PreparationStage → ℚ
  | .download => config.downloadStallSeconds
  | .conversion => config.conversionStallSeconds
  | .finalization => config.finalizationStallSeconds
  | .compilation => config.compilationSeconds
  | .loading => config.loadingSeconds

/-- `stage in _CONVERSION_STAGES`; the other stages are `_LOAD_STAGES`. -/
def isInactivityTimeout : PreparationStage → Bool
  | .download | .conversion | .finalization => true
  | .compilation | .loading => false

/-- The stages that a watcher of an operation looks at. -/
def OperationKind.watches : OperationKind → PreparationStage → Bool
  | .convert, stage => isInactivityTimeout stage
  | .load, stage => !isInactivityTimeout stage

/-- `_classify_stage` -/
def classifyStage (phase message : Str) : Option PreparationStage :=
  let phase := lower (strip isSpace phase)
  if phase ∈ ["resolving".toList, "downloading".toList] then some .download
  else if phase = "converting".toList then some .conversion
  else if phase = "finalizing".toList then some .finalization
  else if mentionsAny ["compil"] (lower (strip isSpace message)) then some .compilation
  else if phase ∈ ["queued".toList, "loading".toList] then some .loading
  else none

structure PreparationHeartbeat where
  operationId : Option Str
  stage : PreparationStage
  stageStartedMonotonic : ℚ
  lastProgressMonotonic : ℚ
  lastProgressAt : ℚ
deriving DecidableEq

/-- The time from which a heartbeat counts. -/
def PreparationHeartbeat.reference (h : PreparationHeartbeat) : ℚ :=
  if isInactivityTimeout h.stage then h.lastProgressMonotonic else h.stageStartedMonotonic

/-- `task_identity` is the place of the operation in the run. -/
structure PreparationTimeoutRecord where
  operationKind : OperationKind
  operationId : Option Str
  stage : PreparationStage
  timeoutSeconds : ℚ
  elapsedSeconds : ℚ
  lastProgressAt : ℚ
  timedOutAt : ℚ
  inactivityTimeout : Bool
  taskIdentity : ℕ
  cleanupPending : Bool := true
deriving DecidableEq

/-! ### Texts -/

/-- What is fixed while the manager runs: the texts of a time of the wall clock and of the model,
and the parameters of the progress store. -/
structure Host where
  config : PreparationTimeouts
  isoTimestamp : ℚ → Str
  name : Str
  modelId : Str
  reword : Str → Str
  unicode : UnicodeTables
  reader : Str → Except DecodeError WireValue

/-- `max(0.001, float(config.poll_seconds))` -/
def Host.pollSeconds (host : Host) : ℚ := max (1 / 1000) host.config.pollSeconds

def Host.timeoutSeconds (host : Host) (stage : PreparationStage) : ℚ :=
  max (1 / 1000) (host.config.timeoutFor stage)

/-- `f"{n:02d}"` -/
def twoDigits (n : ℕ) : Str := (if n < 10 then ['0'] else []) ++ Nat.toDigits 10 n

/-- `_duration_label` -/
def durationLabel (seconds : ℚ) : Str :=
  let total := (max 1 (Binary64.roundHalfEven seconds)).toNat
  if total < 60 then
    Nat.toDigits 10 total ++ " second".toList ++ if total = 1 then [] else ['s']
  else if total / 60 < 60 then
    Nat.toDigits 10 (total / 60) ++ "m ".toList ++ twoDigits (total % 60) ++ ['s']
  else
    Nat.toDigits 10 (total / 60 / 60) ++ "h ".toList ++ twoDigits (total / 60 % 60) ++ ['m']

def stageLabel : PreparationStage → String
  | .download => "download"
  | .conversion => "conversion"
  | .finalization => "conversion finalization"
  | .compilation => "OpenVINO compilation"
  | .loading => "model loading"

def preservation (stage : PreparationStage) : String :=
  if isInactivityTimeout stage then
    "Downloaded cache entries and incomplete OpenVINO output were preserved."
  else "Converted model files and any previously loaded engine were preserved."

/-- `timeout_message` -/
def timeoutMessage (host : Host) (record : PreparationTimeoutRecord) : Str :=
  host.name ++ " timed out during ".toList ++ (stageLabel record.stage).toList ++
    " after ".toList ++ durationLabel record.elapsedSeconds ++ [' '] ++
    (if record.inactivityTimeout then "without new progress" else "in this stage").toList ++
    ". Last successful progress: ".toList ++ host.isoTimestamp record.lastProgressAt ++
    ". ".toList ++ (preservation record.stage).toList ++
    " Use Resume preparation or Retry failed stage after cleanup completes.".toList

/-- What `_progress_timeout_metadata` adds to the progress of the model, but for the constant
`resumable_files_preserved`. -/
structure TimeoutMetadata where
  stalledStage : PreparationStage
  lastProgressAt : Int
  lastProgressAtIso : Str
  timeoutSeconds : ℚ
  inactivity : Bool
  cleanupPending : Bool
deriving DecidableEq

/-- `int(value)` -/
def truncate (value : ℚ) : Int := if 0 ≤ value then ⌊value⌋ else ⌈value⌉

def progressTimeoutMetadata (host : Host) (record : PreparationTimeoutRecord) :
    TimeoutMetadata where
  stalledStage := record.stage
  lastProgressAt := truncate record.lastProgressAt
  lastProgressAtIso := host.isoTimestamp record.lastProgressAt
  timeoutSeconds := record.timeoutSeconds
  inactivity := record.inactivityTimeout
  cleanupPending := record.cleanupPending

/-! ### The state -/

/-- Where a watcher is: it has not run yet, it sleeps until `wake`, or it has ended. -/
inductive Watcher where
  | created (since : ℚ)
  | asleep (wake : ℚ)
  | ended
deriving DecidableEq

/-- How the task of an operation ends. -/
inductive Outcome where
  | returned
  | raised
  | cancelled
deriving DecidableEq, Repr

/-- What `run_with_preparation_watchdog` does in the end; `nothing` is its `None`. -/
inductive Ending where
  | result
  | nothing
  | raised
  | cancelled
deriving DecidableEq, Repr

/-- A call of `run_with_preparation_watchdog`. -/
structure WatchedRun where
  kind : OperationKind
  operationId : Option Str
  watcher : Watcher
  outcome : Option Outcome := none
  /-- the task has been asked to stop -/
  cancelRequested : Bool := false
  /-- `current.cancelling()` -/
  cancelling : Bool := false
  ending : Option Ending := none
deriving DecidableEq

/-- `now` is the monotonic clock.  `heartbeat` and `timeout` are the entries of the model in the
two dictionaries of the watchdog; `metadata` is what a timeout added to the progress record. -/
structure State where
  now : ℚ
  store : ProgressStore
  statusError : Option Str
  metadata : Option TimeoutMetadata
  heartbeat : Option PreparationHeartbeat
  timeout : Option PreparationTimeoutRecord
  loadActive : Bool
  convertActive : Bool
  runs : List WatchedRun

def State.initial (now : ℚ) : State where
  now := now
  store := .initial
  statusError := none
  metadata := none
  heartbeat := none
  timeout := none
  loadActive := false
  convertActive := false
  runs := []

namespace State

/-- `_active_operation` -/
def active (s : State) : Bool := s.loadActive || s.convertActive

/-- The operation that the progress record belongs to. -/
def operationId (s : State) : Option Str :=
  (s.store.record.map fun record => record.operation.operationId).filter (· ≠ [])

/-! ### Heartbeats -/

def nextHeartbeat (s : State) (stage : PreparationStage) (epoch : ℚ) : PreparationHeartbeat where
  operationId := s.operationId
  stage := stage
  stageStartedMonotonic :=
    match s.heartbeat with
    | some current =>
      if current.stage = stage ∧ current.operationId = s.operationId then
        current.stageStartedMonotonic
      else s.now
    | none => s.now
  lastProgressMonotonic := s.now
  lastProgressAt := epoch

/-- `record_preparation_heartbeat` -/
def recordHeartbeat (s : State) (phase message : Str) (epoch : ℚ) : State :=
  match classifyStage phase message with
  | none => s
  | some stage => { s with heartbeat := some (s.nextHeartbeat stage epoch) }

/-! ### The guarded methods -/

/-- A write of this phase passes the guard. -/
def accepts (s : State) (phase : Str) : Bool :=
  s.timeout.isNone || (phase = "ready".toList && !s.active)

variable (host : Host)

/-- `_set_progress` -/
def setProgress (s : State) (write : Write) (tick : Tick) (epoch : ℚ) : State :=
  if s.accepts write.phase then
    let s := if s.timeout.isSome then { s with timeout := none, heartbeat := none } else s
    let s := { s with
      store := StructuredProgress.setProgress host.reword s.store write tick
      metadata := none }
    s.recordHeartbeat write.phase write.message epoch
  else s

/-- `_clear_progress` -/
def clearProgress (s : State) : State :=
  if s.timeout.isSome && s.active then s
  else
    { s with
      timeout := none
      heartbeat := none
      store := StructuredProgress.clearProgress s.store
      metadata := none }

/-- The phase and the message of the write that a line of a converter leads to. -/
def lineReport (s : State) (raw : RawLine) (tick : Tick) : Option (Str × Str) :=
  match (StructuredProgress.readLine host.reword host.unicode host.reader host.modelId host.name
    s.store raw tick).2 with
  | .applied event _ => some (event.phase.text, eventMessage event)
  | .logged line =>
    let write := lineWrite host.unicode host.name s.store line
    some (write.phase, write.message)
  | _ => none

/-- A line that the reader takes while `_set_progress` does nothing. -/
def ignoredLine (host : Host) (s : ProgressStore) (raw : RawLine) : ProgressStore :=
  match raw with
  | .overlong => s
  | .text decoded =>
    if takesLine host.reader host.modelId s raw then
      match decodeProgressEvent (host.reader (strip isSpace decoded)) with
      | .ok (some event) =>
        { s with
          producer := s.producer.set event.operationId event.revision
          structured := true
          record := s.record.map fun record =>
            { record with
              completed := event.completed
              total := event.total } }
      | _ => s
    else s

/-- A line of a converter (`_read_conversion_stream`). -/
def readLine (s : State) (raw : RawLine) (tick : Tick) (epoch : ℚ) : State :=
  if s.timeout.isSome then { s with store := State.ignoredLine host s.store raw }
  else
    let read := StructuredProgress.readLine host.reword host.unicode host.reader host.modelId
      host.name s.store raw tick
    match s.lineReport host raw tick with
    | none => { s with store := read.1 }
    | some (phase, message) =>
      { s with store := read.1, metadata := none }.recordHeartbeat phase message epoch

/-! ### The watcher -/

def setWatcher (s : State) (i : ℕ) (watcher : Watcher) : State :=
  { s with runs := s.runs.modify i fun run => { run with watcher } }

/-- `publish_timeout` -/
def publishTimeout (s : State) (record : PreparationTimeoutRecord) (tick : Tick) : State :=
  let message := timeoutMessage host record
  { s with
    store := StructuredProgress.setProgress host.reword
      { s.store with status := some "error".toList } ⟨"error".toList, message, none, none⟩ tick
    statusError := some message
    metadata := some (progressTimeoutMetadata host record) }

/-- The record of a timeout of the run `i`. -/
def timeoutRecord (s : State) (i : ℕ) (run : WatchedRun) (h : PreparationHeartbeat) (epoch : ℚ) :
    PreparationTimeoutRecord where
  operationKind := run.kind
  operationId := h.operationId.or run.operationId
  stage := h.stage
  timeoutSeconds := host.timeoutSeconds h.stage
  elapsedSeconds := s.now - h.reference
  lastProgressAt := h.lastProgressAt
  timedOutAt := epoch
  inactivityTimeout := isInactivityTimeout h.stage
  taskIdentity := i

/-- The heartbeat is of another operation. -/
def foreign (run : WatchedRun) (h : PreparationHeartbeat) : Bool :=
  run.operationId.isSome && h.operationId.isSome && h.operationId ≠ run.operationId

/-- The heartbeat is one that the watcher acts on. -/
def due (s : State) (run : WatchedRun) (h : PreparationHeartbeat) : Bool :=
  run.kind.watches h.stage && host.timeoutSeconds h.stage ≤ s.now - h.reference

/-- The watcher of the run `i` publishes the timeout and cancels the task. -/
def fire (s : State) (i : ℕ) (run : WatchedRun) (h : PreparationHeartbeat) (tick : Tick)
    (epoch : ℚ) : State :=
  let record := s.timeoutRecord host i run h epoch
  let s := { s with timeout := some record }.publishTimeout host record tick
  { s with runs := s.runs.modify i fun run =>
      { run with
        cancelRequested := true
        watcher := .ended } }

/-- `_watch_operation` from one `sleep` to the next. -/
def watch (s : State) (i : ℕ) (run : WatchedRun) (tick : Tick) (epoch : ℚ) : Option State :=
  match run.watcher with
  | .ended => none
  | .created _ =>
    some (s.setWatcher i
      (if run.outcome.isSome then .ended else .asleep (s.now + host.pollSeconds)))
  | .asleep wake =>
    if s.now < wake then none
    else if run.outcome.isSome || s.timeout.isSome then some (s.setWatcher i .ended)
    else
      match s.heartbeat with
      | none => some (s.setWatcher i (.asleep (s.now + host.pollSeconds)))
      | some h =>
        if foreign run h then some (s.setWatcher i .ended)
        else if s.due host run h then some (s.fire host i run h tick epoch)
        else some (s.setWatcher i (.asleep (s.now + host.pollSeconds)))

/-! ### The watched call -/

def start (s : State) (kind : OperationKind) : State :=
  { s with runs := s.runs ++
      [{ kind := kind, operationId := s.operationId, watcher := .created s.now }] }

/-- The timeout is one of the run `i`. -/
def timedOut (s : State) (i : ℕ) : Bool := s.timeout.any fun record => record.taskIdentity = i

/-- `_mark_cleanup_complete` -/
def markCleanupComplete (s : State) : State :=
  { s with
    timeout := s.timeout.map fun record => { record with cleanupPending := false }
    metadata := s.metadata.map fun metadata => { metadata with cleanupPending := false } }

/-- The call ends, and its watcher with it. -/
def leave (s : State) (i : ℕ) (ending : Ending) : State :=
  { s with runs := s.runs.modify i fun run =>
      { run with
        ending := some ending
        watcher := .ended } }

/-- `run_with_preparation_watchdog` once its task has ended. -/
def resume (s : State) (i : ℕ) (run : WatchedRun) : Option State :=
  if run.ending.isSome then none
  else
    match run.outcome with
    | none => none
    | some .raised => some (s.leave i .raised)
    | some .returned =>
      some (if s.timedOut i then s.markCleanupComplete.leave i .result else s.leave i .result)
    | some .cancelled =>
      some (if s.timedOut i then
          s.markCleanupComplete.leave i (if run.cancelling then .cancelled else .nothing)
        else s.leave i .cancelled)

/-- The task of the run `i` ends. -/
def finish (s : State) (i : ℕ) (run : WatchedRun) (outcome : Outcome) : Option State :=
  if run.outcome.isSome then none
  else some { s with runs := s.runs.modify i fun run => { run with outcome := some outcome } }

/-- The call is cancelled from outside while it waits for its task. -/
def cancel (s : State) (i : ℕ) (run : WatchedRun) : Option State :=
  if run.ending.isSome then none
  else some { s with runs := s.runs.modify i fun run =>
      { run with
        cancelRequested := true
        cancelling := true } }

end State

/-- `tasks` sets which of the two registered tasks of the model are active. -/
inductive Event where
  | pass (seconds : ℚ)
  | tasks (load convert : Bool)
  | setStatus (status : Str) (error : Option Str)
  | clearStatus
  | setProgress (write : Write) (tick : Tick) (epoch : ℚ)
  | clearProgress
  | line (raw : RawLine) (tick : Tick) (epoch : ℚ)
  | start (kind : OperationKind)
  | watch (i : ℕ) (tick : Tick) (epoch : ℚ)
  | finish (i : ℕ) (outcome : Outcome)
  | cancel (i : ℕ)
  | resume (i : ℕ)

def step (host : Host) (s : State) : Event → Option State
  | .pass seconds => if 0 ≤ seconds then some { s with now := s.now + seconds } else none
  | .tasks load convert => some { s with loadActive := load, convertActive := convert }
  | .setStatus status error =>
    some (if s.timeout.isSome then s
      else { s with store := { s.store with status := some status }, statusError := error })
  | .clearStatus =>
    some (if s.timeout.isSome then s
      else { s with store := { s.store with status := none }, statusError := none })
  | .setProgress write tick epoch => some (s.setProgress host write tick epoch)
  | .clearProgress => some s.clearProgress
  | .line raw tick epoch => some (s.readLine host raw tick epoch)
  | .start kind => some (s.start kind)
  | .watch i tick epoch => (s.runs[i]?).bind fun run => s.watch host i run tick epoch
  | .finish i outcome => (s.runs[i]?).bind fun run => s.finish i run outcome
  | .cancel i => (s.runs[i]?).bind fun run => s.cancel i run
  | .resume i => (s.runs[i]?).bind fun run => s.resume i run

end InferBridge.PreparationWatchdog
