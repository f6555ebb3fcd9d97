/-
InferBridge/OnboardingJob.lean

The jobs of the guided preparation: their stages, the runner, and the cancel call
(`PreparationJob` and `OnboardingService` in app/onboarding_service.py).

A runner gives control away where it awaits: in the polling sleep, while a cancelled
task of the manager settles, in the benchmark and while its result is written, and in
the clean-up of a cancelled job.  What happens between two such points is one step.

Design.  A step is told how the awaited thing ended and what its surroundings answer
(`World`).  The body of the runner is cut at the awaits, and `conclude` is its two
exception handlers.  A run carries, besides the job, what has been observed of it: that
its model was reported loaded, that its benchmark succeeded, that a cancel was answered.
-/
import InferBridge.Lib.Transition

namespace InferBridge.OnboardingJob

open Transition

/-! ### The stages of a job -/

inductive PreparationStage where
  | preparing
  | downloading
  | converting
  | validating
  | compiling
  | loading
  | benchmarking
  | ready
  | cancelled
  | failed
deriving DecidableEq, Repr

/-- `_STAGE_ORDER` -/
def stageOrder : List PreparationStage :=
  [.preparing, .downloading, .converting, .validating, .compiling, .loading, .benchmarking, .ready]

/-- The status of a stage; the value of a final stage is a status as well. -/
inductive StageStatus where
  | pending
  | active
  | complete
  | value (stage : PreparationStage)
deriving DecidableEq, Repr

/-- `_StageState`; the stage is its key. -/
structure StageState where
  status : StageStatus
  startedAt : Option String
  finishedAt : Option String

inductive JobStatus where
  | running
  | ready
  | cancelled
  | failed
deriving DecidableEq, Repr

structure BenchmarkSummary where
  runId : Option String
  modelId : String
  requestedDevice : String
  actualDevice : String
  loadTimeMs : Option ℚ
  timeToFirstTokenMs : Option ℚ
  tokensSec : Option ℚ
  completionTokens : ℕ
  success : Bool
  mock : Bool

structure PreparationJob where
  modelId : String
  requestedDevice : String
  stage : PreparationStage
  status : JobStatus
  message : String
  percent : Option ℚ
  determinate : Bool
  actualDevice : Option String
  benchmark : Option BenchmarkSummary
  errorCode : Option String
  errorDetail : Option String
  safeLogTail : List String
  cancelRequested : Bool
  stages : PreparationStage → Option StageState
  wasDownloaded : Bool

/-- The texts that `_safe_message` makes of others. -/
structure Texts where
  safe : String → String

/-- `value or default` -/
def orText (value : Option String) (default : String) : String :=
  (value.filter (· ≠ "")).getD default

namespace PreparationJob

/-- A new job. -/
def new (modelId requestedDevice : String) (wasDownloaded : Bool) : PreparationJob where
  modelId
  requestedDevice
  stage := .preparing
  status := .running
  message := "Preparing model setup."
  percent := none
  determinate := false
  actualDevice := none
  benchmark := none
  errorCode := none
  errorDetail := none
  safeLogTail := []
  cancelRequested := false
  stages stage := if stage ∈ stageOrder then some ⟨.pending, none, none⟩ else none
  wasDownloaded

/-- The entry of a stage, if it has one, is changed. -/
def setStage (stages : PreparationStage → Option StageState) (stage : PreparationStage)
    (f : StageState → StageState) : PreparationStage → Option StageState :=
  Function.update stages stage ((stages stage).map f)

/-- `transition` -/
def transition (texts : Texts) (now : String) (stage : PreparationStage) (message : String)
    (percent : Option ℚ) (determinate : Bool) (job : PreparationJob) : PreparationJob :=
  let left := setStage job.stages job.stage fun previous =>
    if previous.status = .active ∧ job.stage ≠ stage then
      { previous with status := .complete, finishedAt := some now }
    else previous
  let stages := setStage left stage fun current =>
    { current with status := .active, startedAt := current.startedAt.or (some now) }
  { job with stage, message := texts.safe message, percent, stages
             determinate := determinate && percent.isSome }

/-- The status that a final stage gives to an entry. -/
def finalStatus (stage : PreparationStage) : StageStatus :=
  if stage = .ready then .complete else .value stage

/-- `terminal` -/
def terminal (texts : Texts) (now : String) (stage : PreparationStage) (message : String)
    (errorCode : Option String) (job : PreparationJob) : PreparationJob :=
  let left := setStage job.stages job.stage fun previous =>
    if previous.status = .active then
      { previous with status := finalStatus stage, finishedAt := some now }
    else previous
  let stages := setStage left stage fun current =>
    { status := finalStatus stage, startedAt := current.startedAt.or (some now)
      finishedAt := some now }
  { job with
    stage, message := texts.safe message, errorCode, stages
    status := if stage = .ready then .ready else if stage = .cancelled then .cancelled else .failed
    percent := if stage = .ready then some 100 else none
    determinate := stage = .ready }

/-- `safe_log_tail` is replaced. -/
def setLog (tail : List String) (job : PreparationJob) : PreparationJob :=
  { job with safeLogTail := tail }

/-- The benchmark is noted, with the device that it ran on. -/
def setBenchmark (summary : BenchmarkSummary) (job : PreparationJob) : PreparationJob :=
  { job with actualDevice := some summary.actualDevice, benchmark := some summary }

end PreparationJob

/-! ### The surroundings -/

/-- An exception: a cancellation, or an error with its text. -/
inductive Exc where
  | cancelled
  | error (detail : String)
deriving DecidableEq, Repr

/-- A task of the manager: it runs, or it has ended. -/
inductive TaskView where
  | running
  | done (ending : Except Exc Unit)

inductive Phase where
  | downloading
  | converting
  | other

/-- An entry of `manager.progress`. -/
structure ManagerProgress where
  phase : Phase
  message : Option String
  percent : Option ℚ
  logTail : List String

/-- What a catalog entry says of a loaded model. -/
structure CatalogEntry where
  isLoaded : Bool
  error : Option String
  device : Option String

/-- The row of a benchmark run that is about the model. -/
structure BenchmarkResult where
  success : Bool
  error : Option String
  actualDevice : Option String
  loadTimeMs : Option ℚ
  timeToFirstTokenMs : Option ℚ
  tokensSec : Option ℚ
  completionTokens : ℕ

structure BenchmarkRun where
  runId : Option String
  mock : Bool
  result : Option BenchmarkResult

/-- What the runner is answered between two awaits.  A call that raises is an error. -/
structure World where
  now : String
  /-- the name of the catalog entry, if there is one -/
  name : Option String
  forceMock : Bool
  /-- `is_downloaded` before the conversion -/
  downloaded : Except String Bool
  convertTask : Except String (Option TaskView)
  /-- `is_downloaded` after the conversion -/
  validated : Except String Bool
  loadTask : Except String (Option TaskView)
  /-- the awaited task, when the polling sleep is over -/
  polled : TaskView
  progress : ManagerProgress
  entry : Except String CatalogEntry
  /-- `manager.devices` -/
  device : Option String
  benchmarkRun : BenchmarkRun
  /-- the hardware fingerprint and the onboarding state -/
  recorded : Except String Unit
  /-- a conversion or a load of the model is registered and runs -/
  busy : Bool
  /-- `_quarantine_partial_model` of a model that was not there before -/
  quarantine : Except String Unit

/-! ### The runner -/

inductive Lifecycle where
  | conversion
  | load
deriving DecidableEq, Repr

/-- Where a runner has given control away. -/
inductive Point where
  | created
  | mock (rest : List (PreparationStage × String))
  | polling (lifecycle : Lifecycle)
  | settling (lifecycle : Lifecycle)
  | benchmarking
  | appending (run : BenchmarkRun)
  | cleaning
  | ended

/-- A job with its runner, and what was observed of it. -/
structure Run where
  job : PreparationJob
  name : String
  point : Point
  loaded : Bool
  succeeded : Bool
  cancelling : Bool

/-- How a piece of the body ends. -/
inductive Result where
  | suspend (point : Point)
  | raise (exc : Exc)
  | finished

section
variable (texts : Texts) (world : World)

/-- The device is noted. -/
def Run.setDevice (device : String) (run : Run) : Run :=
  { run with job := { run.job with actualDevice := some device } }

/-- The benchmark has succeeded. -/
def Run.succeed (summary : BenchmarkSummary) (run : Run) : Run :=
  { run with succeeded := true, job := run.job.setBenchmark summary }

/-- A transition without a percentage. -/
def Run.enter (stage : PreparationStage) (message : String) (run : Run) : Run :=
  { run with job := run.job.transition texts world.now stage message none false }

/-- The lines of the manager that are new at the end, the last twelve of all. -/
def appendLog (lines tail : List String) : List String :=
  lines.foldl (fun tail line =>
    let safe := texts.safe line
    if safe ≠ "" ∧ tail.getLast? ≠ some safe then (tail ++ [safe]).drop ((tail.length + 1) - 12)
    else tail) tail

/-- What the polling takes over from `manager.progress`. -/
def follow (job : PreparationJob) : PreparationJob :=
  let progress := world.progress
  let tail := appendLog texts progress.logTail job.safeLogTail
  match progress.phase with
  | .downloading =>
    (job.transition texts world.now .downloading
      (orText progress.message "Downloading model files.") progress.percent
      progress.percent.isSome).setLog tail
  | .converting =>
    (job.transition texts world.now .converting
      (orText progress.message "Converting model to OpenVINO.") progress.percent
      progress.percent.isSome).setLog tail
  | .other => job.setLog tail

/-- One round of `_await_lifecycle_task`, and what follows it. -/
def awaitRound (lifecycle : Lifecycle) (task : TaskView) (next : Run → Run × Result) (run : Run) :
    Run × Result :=
  match task with
  | .done (.ok ()) => next run
  | .done (.error exc) => (run, .raise exc)
  | .running =>
    if run.job.cancelRequested then (run, .suspend (.settling lifecycle))
    else ({ run with job := follow texts world run.job }, .suspend (.polling lifecycle))

/-- The body behind the load, to the benchmark. -/
def afterLoad (run : Run) : Run × Result :=
  match world.entry with
  | .error detail => (run, .raise (.error detail))
  | .ok entry =>
    if entry.isLoaded then
      let run := { run with loaded := true }.enter texts world .loading
        "Confirming the loaded runtime state."
      let device := orText entry.device (world.device.getD "")
      let run := run.setDevice device
      if device = "" then
        (run, .raise (.error "The loaded runtime did not report an actual OpenVINO device."))
      else if run.job.cancelRequested then (run, .raise .cancelled)
      else
        (run.enter texts world .benchmarking "Running a short local benchmark.",
          .suspend .benchmarking)
    else
      (run, .raise (.error (orText entry.error "The model did not reach the loaded state.")))

/-- The load. -/
def loadPhase (run : Run) : Run × Result :=
  let run := run.enter texts world .compiling
    ("Compiling " ++ run.name ++ " for " ++ run.job.requestedDevice ++
      ". This stage is indeterminate.")
  match world.loadTask with
  | .error detail => (run, .raise (.error detail))
  | .ok none => afterLoad texts world run
  | .ok (some task) => awaitRound texts world .load task (afterLoad texts world) run

/-- The body behind the conversion. -/
def afterConvert (run : Run) : Run × Result :=
  if run.job.cancelRequested then (run, .raise .cancelled)
  else
    let run := run.enter texts world .validating "Validating converted OpenVINO files."
    if world.forceMock then loadPhase texts world run
    else
      match world.validated with
      | .error detail => (run, .raise (.error detail))
      | .ok false =>
        (run, .raise (.error "Converted OpenVINO files did not pass validation."))
      | .ok true => loadPhase texts world run

/-- The conversion. -/
def convertPhase (run : Run) : Run × Result :=
  let run := run.enter texts world .downloading ("Downloading model files for " ++ run.name ++ ".")
  match world.convertTask with
  | .error detail => (run, .raise (.error detail))
  | .ok none => (run, .raise (.error "The model conversion task could not be started."))
  | .ok (some task) => awaitRound texts world .conversion task (afterConvert texts world) run

/-- The stages that mock mode goes through. -/
def mockStages : List (PreparationStage × String) :=
  [(.downloading, "Mock mode is validating the download stage."),
    (.converting, "Mock mode is validating the conversion stage."),
    (.validating, "Validating mock model files."),
    (.compiling, "Validating mock device compilation.")]

def mockNext (rest : List (PreparationStage × String)) (run : Run) : Run × Result :=
  match rest with
  | [] => afterConvert texts world run
  | (stage, message) :: rest => (run.enter texts world stage message, .suspend (.mock rest))

/-- The beginning of the body. -/
def body (run : Run) : Run × Result :=
  if run.job.cancelRequested then (run, .raise .cancelled)
  else if world.forceMock then mockNext texts world mockStages run
  else
    match world.downloaded with
    | .error detail => (run, .raise (.error detail))
    | .ok true => afterConvert texts world run
    | .ok false => convertPhase texts world run

/-- The body behind the benchmark. -/
def judge (benchmarkRun : BenchmarkRun) (run : Run) : Run × Result :=
  match benchmarkRun.result.filter (·.success) with
  | none =>
    let error := orText (benchmarkRun.result.bind (·.error)) "Short benchmark failed."
    (run, .raise (.error (texts.safe error)))
  | some result =>
    let device := orText result.actualDevice (run.job.actualDevice.getD "None")
    let summary : BenchmarkSummary :=
      { runId := benchmarkRun.runId, modelId := run.job.modelId
        requestedDevice := run.job.requestedDevice, actualDevice := device
        loadTimeMs := result.loadTimeMs, timeToFirstTokenMs := result.timeToFirstTokenMs
        tokensSec := result.tokensSec, completionTokens := result.completionTokens
        success := true, mock := benchmarkRun.mock }
    let run := run.succeed summary
    match world.recorded with
    | .error detail => (run, .raise (.error detail))
    | .ok () =>
      let message := run.name ++ " is ready on " ++ device ++ "."
      ({ run with job := run.job.terminal texts world.now .ready message none }, .finished)

/-- The body from an await on, by how that ended. -/
def resumeBody (wake : Except Exc Unit) (run : Run) : Run × Result :=
  match run.point, wake with
  | .mock rest, .ok () => mockNext texts world rest run
  | .polling .conversion, .ok () =>
    awaitRound texts world .conversion world.polled (afterConvert texts world) run
  | .polling .load, .ok () =>
    awaitRound texts world .load world.polled (afterLoad texts world) run
  | .settling _, .error (.error detail) => (run, .raise (.error detail))
  | .settling _, _ => (run, .raise .cancelled)
  | .benchmarking, .ok () => (run, .suspend (.appending world.benchmarkRun))
  | .appending benchmarkRun, .ok () => judge texts world benchmarkRun run
  | _, .error exc => (run, .raise exc)
  | _, .ok () => (run, .finished)

/-- `_quarantine_partial_model` -/
def quarantine (run : Run) : Except String Unit :=
  if run.job.wasDownloaded then .ok () else world.quarantine

/-- The end of the handler of a cancellation; an error in it leaves the job as it is. -/
def finishCancelled (run : Run) : Run :=
  match quarantine world run with
  | .error _ => { run with point := .ended }
  | .ok () =>
    { run with
      point := .ended
      job := run.job.terminal texts world.now .cancelled "Model preparation was cancelled." none }

/-- The handler of an error. -/
def finishFailed (detail : String) (run : Run) : Run :=
  let detail := texts.safe detail
  match quarantine world run with
  | .error _ => { run with point := .ended }
  | .ok () =>
    let detail := if detail = "" then "Model preparation failed." else detail
    { run with
      point := .ended
      job := { run.job with errorDetail := some detail }.terminal texts world.now .failed detail
        (some "preparation_failed") }

/-- The handlers around the body. -/
def conclude : Run × Result → Run
  | (run, .suspend point) => { run with point }
  | (run, .finished) => { run with point := .ended }
  | (run, .raise .cancelled) =>
    if world.busy then { run with point := .cleaning } else finishCancelled texts world run
  | (run, .raise (.error detail)) => finishFailed texts world detail run

/-- `_run_job` from an await on.  A task that is cancelled before it runs does not enter its
body, and the catalog is asked outside the handlers. -/
def resume (wake : Except Exc Unit) (run : Run) : Option Run :=
  match run.point, wake with
  | .ended, _ => none
  | .created, .error _ => some { run with point := .ended }
  | .created, .ok () =>
    match world.name with
    | none => some { run with point := .ended }
    | some name => some (conclude texts world (body texts world { run with name }))
  | .cleaning, .error (.error _) => some { run with point := .ended }
  | .cleaning, _ => some (finishCancelled texts world run)
  | _, _ => some (conclude texts world (resumeBody texts world wake run))

end

/-! ### The service -/

/-- A request, and what `start_preparation` is answered on its way. -/
structure StartRequest where
  modelId : String
  now : String
  /-- the parsed device -/
  device : Except String String
  known : Bool
  confirmLicense : Bool
  confirmDiskRequirement : Bool
  acknowledgeWarnings : Bool
  trustRemoteCode : Bool
  catalogTrust : Bool
  /-- what blocks the model, and its message -/
  blocking : Option (Option String)
  requiresConfirmation : Bool
  storage : Except String Unit
  wasDownloaded : Bool

/-- The checks before the lock. -/
def StartRequest.validate (texts : Texts) (request : StartRequest) : Except String String := do
  if !request.known then throw "Unknown model ID."
  let device ← request.device
  if !request.confirmLicense || !request.confirmDiskRequirement then
    throw "Confirm the model license and disk requirement before downloading."
  if let some message := request.blocking then
    throw (texts.safe (message.getD "The selected model is blocked by preflight checks."))
  if request.requiresConfirmation && !request.acknowledgeWarnings then
    throw "Acknowledge the model preflight warnings before continuing."
  if request.trustRemoteCode && !request.catalogTrust then
    throw "Remote code is not enabled for this reviewed catalog model."
  return device

/-- The jobs, in the order in which they were started. -/
abbrev State := List Run

/-- `start_preparation` -/
def startPreparation (texts : Texts) (request : StartRequest) (s : State) : Except String State := do
  let device ← request.validate texts
  if s.any fun run => run.job.status = .running then
    throw "Another first-run model preparation is already active."
  request.storage
  let job := (PreparationJob.new request.modelId device request.wasDownloaded).transition texts
    request.now .preparing "Checking model and device preflight." none false
  return s ++ [⟨job, "", .created, false, false, false⟩]

/-- `cancel`: whether it is answered with `cancelling`, and the run after it. -/
def cancel (run : Run) : Bool × Run :=
  if run.job.status ≠ .running ∨ run.job.stage = .benchmarking then (false, run)
  else (true, { run with cancelling := true, job := { run.job with cancelRequested := true } })

/-- A call, or a step of the runner of a job. -/
inductive Event where
  | start (request : StartRequest)
  | cancel (index : ℕ)
  | resume (index : ℕ) (wake : Except Exc Unit) (world : World)

def step (texts : Texts) (s : State) : Event → Option State
  | .start request =>
    match startPreparation texts request s with
    | .error _ => some s
    | .ok s' => some s'
  | .cancel index => s[index]?.map fun run => s.set index (OnboardingJob.cancel run).2
  | .resume index wake world =>
    (s[index]?.bind fun run => OnboardingJob.resume texts world wake run).map fun run =>
      s.set index run

end InferBridge.OnboardingJob
