/-
InferBridge/OnboardingRuns.lean

The jobs of the guided preparation over whole runs.

Design.  `Underway` holds of a run while its body is on its way, `Over` when it has
ended as it should.  Each piece of the body takes the one to the other, or gives
control away (`Piece`, one lemma for each piece); the handlers take what was raised to
`Over` (`sound_conclude`).  A runner at the benchmark was not cancelled and cannot be,
which is why a job that was told that it is being cancelled does not become ready.

Main result.  `jobs_coherent`: at most one job is running, at most one stage of a job is
active and it is the current one, a job that has ended has a final status, which stays,
and ready means loaded, benchmarked and not being cancelled.
-/
import InferBridge.OnboardingJob
import InferBridge.Lib.Accepted

namespace InferBridge.OnboardingJob

open Transition

/-! ### Stages -/

/-- The stage is active. -/
def PreparationJob.Active (job : PreparationJob) (stage : PreparationStage) : Prop :=
  ∃ entry, job.stages stage = some entry ∧ entry.status = .active

/-- No stage but the current one is active. -/
def PreparationJob.Current (job : PreparationJob) : Prop := ∀ stage, job.Active stage → stage = job.stage

section
variable {texts : Texts} {now message : String} {stage other : PreparationStage}
  {percent : Option ℚ} {determinate : Bool} {errorCode : Option String} {job : PreparationJob}

@[simp] theorem transition_status :
    (job.transition texts now stage message percent determinate).status = job.status := rfl

@[simp] theorem transition_cancelRequested :
    (job.transition texts now stage message percent determinate).cancelRequested =
      job.cancelRequested := rfl

@[simp] theorem transition_stage :
    (job.transition texts now stage message percent determinate).stage = stage := rfl

/-- Behind a transition only the new stage can be active, if the old one was the only one. -/
theorem current_transition (h : job.Current) :
    (job.transition texts now stage message percent determinate).Current := by
  rintro active ⟨entry, hentry, hactive⟩
  by_contra hother
  have hne : active ≠ stage := hother
  rw [PreparationJob.transition, PreparationJob.setStage] at hentry
  dsimp only at hentry
  rw [Function.update_of_ne hne, PreparationJob.setStage] at hentry
  by_cases hold : active = job.stage
  · -- the old stage is complete
    subst hold
    rw [Function.update_self] at hentry
    obtain ⟨previous, hprevious, rfl⟩ := Option.map_eq_some_iff.mp hentry
    split at hactive
    · cases hactive
    · next hkept => exact hkept ⟨hactive, hne⟩
  · rw [Function.update_of_ne hold] at hentry
    exact hold (h active ⟨entry, hentry, hactive⟩)

theorem current_setLog {tail : List String} (h : job.Current) : (job.setLog tail).Current := h

/-- A final stage leaves none active. -/
theorem not_active_terminal (h : job.Current) (active : PreparationStage) :
    ¬(job.terminal texts now stage message errorCode).Active active := by
  have hfinal : PreparationJob.finalStatus stage ≠ .active := by
    unfold PreparationJob.finalStatus
    split
    · nofun
    · nofun
  rintro ⟨entry, hentry, hactive⟩
  rw [PreparationJob.terminal, PreparationJob.setStage] at hentry
  dsimp only at hentry
  by_cases hnew : active = stage
  · subst hnew
    rw [Function.update_self] at hentry
    obtain ⟨current, -, rfl⟩ := Option.map_eq_some_iff.mp hentry
    exact hfinal hactive
  · rw [Function.update_of_ne hnew, PreparationJob.setStage] at hentry
    by_cases hold : active = job.stage
    · subst hold
      rw [Function.update_self] at hentry
      obtain ⟨previous, -, rfl⟩ := Option.map_eq_some_iff.mp hentry
      split at hactive
      · exact hfinal hactive
      · next hkept => exact hkept hactive
    · rw [Function.update_of_ne hold] at hentry
      exact hold (h active ⟨entry, hentry, hactive⟩)

theorem terminal_status_ne :
    (job.terminal texts now stage message errorCode).status ≠ .running := by
  show (if stage = .ready then JobStatus.ready
    else if stage = .cancelled then .cancelled else .failed) ≠ .running
  split
  · nofun
  · split
    · nofun
    · nofun

/-- Only the stage `READY` makes a job ready. -/
theorem terminal_status_eq_ready :
    (job.terminal texts now stage message errorCode).status = .ready ↔ stage = .ready := by
  show (if stage = .ready then JobStatus.ready
    else if stage = .cancelled then .cancelled else .failed) = .ready ↔ _
  split
  · next hready => exact ⟨fun _ => hready, fun _ => rfl⟩
  · next hready =>
    refine ⟨fun h => ?_, fun h => absurd h hready⟩
    split at h
    · cases h
    · cases h

end

/-! ### The body -/

/-- A run whose body is on its way; the model was there before, or was not. -/
structure Underway (was : Bool) (run : Run) : Prop where
  downloaded : run.job.wasDownloaded = was
  running : run.job.status = .running
  current : run.job.Current
  cancelling : run.cancelling = run.job.cancelRequested

/-- A run that has ended as it should. -/
structure Over (run : Run) : Prop where
  final : run.job.status ≠ .running
  inactive : ∀ stage, ¬run.job.Active stage
  ready : run.job.status = .ready → run.loaded = true ∧ run.succeeded = true ∧ run.cancelling = false

/-- A runner at the benchmark: the model was reported loaded, and it cannot be cancelled. -/
structure AtBenchmark (run : Run) : Prop where
  loaded : run.loaded = true
  stage : run.job.stage = .benchmarking
  uncancelled : run.job.cancelRequested = false

/-- The points at the benchmark. -/
def Point.benchmark : Point → Bool
  | .benchmarking => true
  | .appending _ => true
  | _ => false

def Point.isEnded : Point → Bool
  | .ended => true
  | _ => false

/-- What holds at the end of a piece of the body. -/
structure Piece (was : Bool) (outcome : Run × Result) : Prop where
  underway : outcome.2 ≠ .finished → Underway was outcome.1
  settled : outcome.2 = .finished → Over outcome.1
  suspended : ∀ point, outcome.2 = .suspend point → point.isEnded = false ∧
    (point.benchmark = true → AtBenchmark outcome.1)

section
variable {texts : Texts} {world : World} {run : Run} {was : Bool}

theorem Piece.raise (h : Underway was run) (exc : Exc) : Piece was (run, .raise exc) where
  underway _ := h
  settled := nofun
  suspended := nofun

theorem Piece.suspend {point : Point} (h : Underway was run) (hopen : point.isEnded = false)
    (hbenchmark : point.benchmark = true → AtBenchmark run) : Piece was (run, .suspend point) where
  underway _ := h
  settled := nofun
  suspended := by
    rintro p ⟨⟩
    exact ⟨hopen, hbenchmark⟩

theorem Underway.enter {stage : PreparationStage} {message : String} (h : Underway was run) :
    Underway was (run.enter texts world stage message) where
  downloaded := h.downloaded
  running := h.running
  current := current_transition h.current
  cancelling := h.cancelling

theorem Underway.setDevice {device : String} (h : Underway was run) :
    Underway was (run.setDevice device) where
  downloaded := h.downloaded
  running := h.running
  current := h.current
  cancelling := h.cancelling

theorem Underway.succeed {summary : BenchmarkSummary} (h : Underway was run) :
    Underway was (run.succeed summary) where
  downloaded := h.downloaded
  running := h.running
  current := h.current
  cancelling := h.cancelling

theorem underway_follow (h : Underway was run) :
    Underway was { run with job := follow texts world run.job } := by
  unfold follow
  dsimp only
  split
  · exact ⟨h.downloaded, h.running, current_setLog (current_transition h.current), h.cancelling⟩
  · exact ⟨h.downloaded, h.running, current_setLog (current_transition h.current), h.cancelling⟩
  · exact ⟨h.downloaded, h.running, current_setLog h.current, h.cancelling⟩

theorem piece_awaitRound {lifecycle : Lifecycle} {task : TaskView} {next : Run → Run × Result}
    (h : Underway was run) (hnext : Piece was (next run)) :
    Piece was (awaitRound texts world lifecycle task next run) := by
  unfold awaitRound
  split
  · exact hnext
  · exact .raise h _
  · split
    · exact .suspend h rfl nofun
    · exact .suspend (underway_follow h) rfl nofun

theorem piece_afterLoad (h : Underway was run) : Piece was (afterLoad texts world run) := by
  unfold afterLoad
  split
  · exact .raise h _
  · next entry hentry =>
    split
    · dsimp only
      have hloaded : Underway was { run with loaded := true } := ⟨h.downloaded, h.running, h.current, h.cancelling⟩
      split
      · exact .raise hloaded.enter.setDevice _
      · split
        · exact .raise hloaded.enter.setDevice _
        · next hrequested =>
          exact .suspend hloaded.enter.setDevice.enter rfl fun _ =>
            ⟨rfl, rfl, Bool.eq_false_iff.mpr hrequested⟩
    · exact .raise h _

theorem piece_loadPhase (h : Underway was run) : Piece was (loadPhase texts world run) := by
  unfold loadPhase
  dsimp only
  split
  · exact .raise h.enter _
  · exact piece_afterLoad h.enter
  · exact piece_awaitRound h.enter (piece_afterLoad h.enter)

theorem piece_afterConvert (h : Underway was run) : Piece was (afterConvert texts world run) := by
  unfold afterConvert
  split
  · exact .raise h _
  · dsimp only
    split
    · exact piece_loadPhase h.enter
    · split
      · exact .raise h.enter _
      · exact .raise h.enter _
      · exact piece_loadPhase h.enter

theorem piece_convertPhase (h : Underway was run) : Piece was (convertPhase texts world run) := by
  unfold convertPhase
  dsimp only
  split
  · exact .raise h.enter _
  · exact .raise h.enter _
  · exact piece_awaitRound h.enter (piece_afterConvert h.enter)

theorem piece_mockNext {rest : List (PreparationStage × String)} (h : Underway was run) :
    Piece was (mockNext texts world rest run) := by
  unfold mockNext
  split
  · exact piece_afterConvert h
  · exact .suspend h.enter rfl nofun

theorem piece_body (h : Underway was run) : Piece was (body texts world run) := by
  unfold body
  split
  · exact .raise h _
  · split
    · exact piece_mockNext h
    · split
      · exact .raise h _
      · exact piece_afterConvert h
      · exact piece_convertPhase h

theorem piece_judge {benchmarkRun : BenchmarkRun} (h : Underway was run) (hat : AtBenchmark run) :
    Piece was (judge texts world benchmarkRun run) := by
  unfold judge
  split
  · exact .raise h _
  · dsimp only
    split
    · exact .raise h.succeed _
    · refine ⟨fun hne => absurd rfl hne, fun _ => ?_, nofun⟩
      refine ⟨terminal_status_ne, not_active_terminal h.succeed.current, fun _ => ?_⟩
      exact ⟨hat.loaded, rfl, h.cancelling.trans hat.uncancelled⟩

/-- What holds of a run between its steps. -/
structure Sound (run : Run) : Prop where
  underway : run.point.isEnded = false → Underway run.job.wasDownloaded run
  benchmark : run.point.benchmark = true → AtBenchmark run
  settled : run.point.isEnded = true → Over run

theorem piece_resumeBody {wake : Except Exc Unit} (h : Underway was run)
    (hbenchmark : run.point.benchmark = true → AtBenchmark run)
    (hpoint : run.point ≠ .created ∧ run.point ≠ .cleaning ∧ run.point ≠ .ended) :
    Piece was (resumeBody texts world wake run) := by
  unfold resumeBody
  split
  · exact piece_mockNext h
  · exact piece_awaitRound h (piece_afterConvert h)
  · exact piece_awaitRound h (piece_afterLoad h)
  · exact .raise h _
  · exact .raise h _
  · next hat => exact .suspend h rfl fun _ => hbenchmark (by rw [hat]; rfl)
  · next hat => exact piece_judge h (hbenchmark (by rw [hat]; rfl))
  · exact .raise h _
  · -- no other point is left
    next hmock hconversion hload hsettling hbenchmarking happending =>
    exfalso
    rcases hcase : run.point with - | rest | ⟨-, -⟩ | lifecycle | - | benchmarkRun | - | -
    · exact hpoint.1 hcase
    · exact hmock rest hcase
    · exact hconversion hcase
    · exact hload hcase
    · exact hsettling lifecycle hcase
    · exact hbenchmarking hcase
    · exact happending benchmarkRun hcase
    · exact hpoint.2.1 hcase
    · exact hpoint.2.2 hcase

/-! ### The handlers -/

/-- The partial files of the model can be moved away. -/
def quarantines (world : World) (was : Bool) : Bool := was || world.quarantine.isOk

theorem quarantine_eq_ok (hrun : Underway was run) (h : quarantines world was = true) :
    quarantine world run = .ok () := by
  rw [quarantines, ← hrun.downloaded, Bool.or_eq_true] at h
  unfold quarantine
  split
  · rfl
  · next hnot =>
    cases hworld : world.quarantine with
    | ok u => rfl
    | error detail =>
        rw [hworld] at h
        rcases h with h | h
        · exact absurd h hnot
        · cases h

theorem over_finishCancelled (h : Underway was run) (hquarantine : quarantines world was = true) :
    Over (finishCancelled texts world run) := by
  unfold finishCancelled
  rw [quarantine_eq_ok h hquarantine]
  refine ⟨terminal_status_ne, not_active_terminal h.current, fun hready => ?_⟩
  cases terminal_status_eq_ready.mp hready

theorem over_finishFailed {detail : String} (h : Underway was run)
    (hquarantine : quarantines world was = true) : Over (finishFailed texts world detail run) := by
  unfold finishFailed
  rw [quarantine_eq_ok h hquarantine]
  have hcurrent : ∀ text, PreparationJob.Current { run.job with errorDetail := some text } :=
    fun _ => h.current
  refine ⟨terminal_status_ne, not_active_terminal (hcurrent _), fun hready => ?_⟩
  cases terminal_status_eq_ready.mp hready

theorem point_finishCancelled : (finishCancelled texts world run).point = .ended := by
  unfold finishCancelled
  split
  · rfl
  · rfl

theorem point_finishFailed {detail : String} :
    (finishFailed texts world detail run).point = .ended := by
  unfold finishFailed
  dsimp only
  split
  · rfl
  · rfl

/-- A run that has ended as it should is sound. -/
theorem Sound.of_over (h : Over run) (hpoint : run.point = .ended) : Sound run where
  underway hopen := by
    rw [hpoint] at hopen
    cases hopen
  benchmark hbenchmark := by
    rw [hpoint] at hbenchmark
    cases hbenchmark
  settled _ := h

theorem sound_conclude {outcome : Run × Result} (h : Piece was outcome)
    (hquarantine : quarantines world was = true) :
    Sound (conclude texts world outcome) := by
  obtain ⟨run, result⟩ := outcome
  rcases result with point | ⟨- | detail⟩ | -
  · have hunderway := h.underway nofun
    obtain ⟨hopen, hbenchmark⟩ := h.suspended point rfl
    refine ⟨fun _ => ⟨rfl, hunderway.running, hunderway.current, hunderway.cancelling⟩,
      fun hat => ?_, fun hended => ?_⟩
    · obtain ⟨hloaded, hstage, huncancelled⟩ := hbenchmark hat
      exact ⟨hloaded, hstage, huncancelled⟩
    · have hpoint : point.isEnded = true := hended
      rw [hopen] at hpoint
      cases hpoint
  · have hunderway := h.underway nofun
    unfold conclude
    dsimp only
    split
    · refine ⟨fun _ => ⟨rfl, hunderway.running, hunderway.current, hunderway.cancelling⟩, nofun, nofun⟩
    · exact .of_over (over_finishCancelled hunderway hquarantine) point_finishCancelled
  · have hunderway := h.underway nofun
    exact .of_over (over_finishFailed hunderway hquarantine) point_finishFailed
  · obtain ⟨hfinal, hinactive, hready⟩ := h.settled rfl
    exact .of_over ⟨hfinal, hinactive, hready⟩ rfl

/-! ### One step of a runner -/

/-- An await ended with an error that is no cancellation. -/
def isError : Except Exc Unit → Bool
  | .error (.error _) => true
  | _ => false

/-- The step enters the body, if it is the first, and its handlers do not raise: the partial files
can be moved away, and the task that a clean-up waits for does not end with an error. -/
def handled (run : Run) (wake : Except Exc Unit) (world : World) : Bool :=
  quarantines world run.job.wasDownloaded &&
    match run.point with
    | .created => wake.isOk && world.name.isSome
    | .cleaning => !isError wake
    | _ => true

theorem sound_resume {run' : Run} {wake : Except Exc Unit} (h : Sound run)
    (hhandled : handled run wake world = true)
    (hresume : resume texts world wake run = some run') : Sound run' := by
  unfold handled at hhandled
  rw [Bool.and_eq_true] at hhandled
  obtain ⟨hquarantine, hpoint⟩ := hhandled
  unfold resume at hresume
  split at hresume
  · cases hresume
  · next exc hat =>
    rw [hat] at hpoint
    cases hpoint
  · next hat =>
    have hunderway := h.underway (by rw [hat]; rfl)
    rw [hat, Bool.and_eq_true] at hpoint
    split at hresume
    · next hname =>
      rw [hname] at hpoint
      cases hpoint.2
    · next name hname =>
      obtain rfl := Option.some.inj hresume
      have hnamed : Underway run.job.wasDownloaded { run with name } :=
        ⟨rfl, hunderway.running, hunderway.current, hunderway.cancelling⟩
      exact sound_conclude (piece_body hnamed) hquarantine
  · next detail hat =>
    rw [hat] at hpoint
    cases hpoint
  · next hat hnotError =>
    obtain rfl := Option.some.inj hresume
    have hunderway := h.underway (by rw [hat]; rfl)
    exact .of_over (over_finishCancelled hunderway hquarantine) point_finishCancelled
  · next wake _ _ hnotEnded hnotCleaning hnotCancelled hnotStarted _ =>
    obtain rfl := Option.some.inj hresume
    have hopen : run.point ≠ .created ∧ run.point ≠ .cleaning ∧ run.point ≠ .ended := by
      refine ⟨fun hat => ?_, hnotCleaning, hnotEnded⟩
      cases hwake : wake with
      | ok _ => exact hnotStarted hat hwake
      | error exc => exact hnotCancelled exc hat hwake
    have hunderway := h.underway (by
      cases hcase : run.point with
      | ended => exact absurd hcase hopen.2.2
      | _ => rfl)
    exact sound_conclude (piece_resumeBody hunderway h.benchmark hopen) hquarantine

theorem sound_cancel (h : Sound run) : Sound (cancel run).2 := by
  unfold cancel
  split
  · exact h
  · next hopen =>
    rw [not_or, not_not] at hopen
    refine ⟨fun hpoint => ?_, fun hat => ?_, fun hended => ?_⟩
    · have hunderway := h.underway hpoint
      exact ⟨rfl, hunderway.running, hunderway.current, rfl⟩
    · -- at the benchmark the answer is another one
      exact absurd (h.benchmark hat).stage hopen.2
    · exact absurd hopen.1 (h.settled hended).final

end

/-! ### Runs of the service -/

section
variable {texts : Texts} {s s' : State} {event : Event}

/-- A new job. -/
theorem sound_new {now modelId device name : String} {was : Bool} :
    Sound ⟨(PreparationJob.new modelId device was).transition texts now .preparing
      "Checking model and device preflight." none false, name, .created, false, false, false⟩ where
  underway _ := by
    refine ⟨rfl, rfl, current_transition ?_, rfl⟩
    rintro stage ⟨entry, hentry, hactive⟩
    have hpending : (if stage ∈ stageOrder then some (⟨.pending, none, none⟩ : StageState)
        else none) = some entry := hentry
    split at hpending
    · obtain rfl := Option.some.inj hpending
      cases hactive
    · cases hpending
  benchmark := nofun
  settled := nofun

/-- A start adds a job where none is running, or changes nothing. -/
theorem step_start {request : StartRequest} (h : step texts s (.start request) = some s') :
    s' = s ∨ ∃ run, Sound run ∧ run.job.status = .running ∧ s' = s ++ [run] ∧
      ∀ other ∈ s, other.job.status ≠ .running := by
  unfold step at h
  dsimp only at h
  split at h
  · exact .inl (Option.some.inj h).symm
  · next started hstarted =>
    obtain rfl := Option.some.inj h
    unfold startPreparation at hstarted
    obtain ⟨device, -, hstarted⟩ := Accepted.bind_eq_ok.mp hstarted
    split at hstarted
    · cases hstarted
    · next hnone =>
      obtain ⟨_, -, hstarted⟩ := Accepted.bind_eq_ok.mp hstarted
      refine .inr ⟨_, sound_new, rfl, (Except.ok.inj hstarted).symm, fun other hmem hrunning => ?_⟩
      exact hnone (List.any_eq_true.mpr ⟨other, hmem, decide_eq_true hrunning⟩)

/-- The runners of the events are handled. -/
def condition (s : State) : Event → Bool
  | .resume index wake world => s[index]?.all fun run => handled run wake world
  | _ => true

/-- A final status is that of a run that has ended. -/
theorem Sound.ended {run : Run} (h : Sound run) (hfinal : run.job.status ≠ .running) :
    run.point = .ended := by
  by_contra hpoint
  apply hfinal
  refine (h.underway ?_).running
  cases hcase : run.point with
  | ended => exact absurd hcase hpoint
  | _ => rfl

/-- The other steps change one run, and not its final status. -/
theorem step_set {index : ℕ} (hsound : ∀ run ∈ s, Sound run) (hcondition : condition s event = true)
    (hevent : event = .cancel index ∨ ∃ wake world, event = .resume index wake world)
    (h : step texts s event = some s') :
    ∃ run run', s[index]? = some run ∧ s' = s.set index run' ∧ Sound run' ∧
      (run.job.status ≠ .running → run'.job.status = run.job.status) := by
  rcases hevent with rfl | ⟨wake, world, rfl⟩
  · obtain ⟨run, hrun, rfl⟩ := Option.map_eq_some_iff.mp h
    refine ⟨run, _, hrun, rfl, sound_cancel (hsound run (List.mem_of_getElem? hrun)),
      fun hfinal => ?_⟩
    rw [cancel, if_pos (.inl hfinal)]
  · obtain ⟨run', hrun', rfl⟩ := Option.map_eq_some_iff.mp h
    obtain ⟨run, hrun, hresume⟩ := Option.bind_eq_some_iff.mp hrun'
    have hbefore := hsound run (List.mem_of_getElem? hrun)
    unfold condition at hcondition
    dsimp only at hcondition
    rw [hrun, Option.all_some] at hcondition
    refine ⟨run, run', hrun, rfl, sound_resume hbefore hcondition hresume, fun hfinal => ?_⟩
    -- a run that has ended is not resumed
    have hended := hbefore.ended hfinal
    unfold resume at hresume
    rw [hended] at hresume
    cases hresume

/-- The jobs are as they should be. -/
structure Coherent (s : State) : Prop where
  single : ∀ (i j : ℕ) (run run' : Run), s[i]? = some run → s[j]? = some run' →
    run.job.status = .running → run'.job.status = .running → i = j
  stage : ∀ run ∈ s, ∀ stage, run.job.Active stage → stage = run.job.stage
  ended : ∀ run ∈ s, run.point = .ended →
    run.job.status ≠ .running ∧ ∀ stage, ¬run.job.Active stage
  ready : ∀ run ∈ s, run.job.status = .ready → run.loaded = true ∧ run.succeeded = true
  obeyed : ∀ run ∈ s, run.cancelling = true → run.job.status ≠ .ready

/-- A final status stays. -/
def Frozen (s : State) (_ : Event) (s' : State) : Prop :=
  ∀ (i : ℕ) (run : Run), s[i]? = some run → run.job.status ≠ .running →
    ∃ run', s'[i]? = some run' ∧ run'.job.status = run.job.status

/-- What the steps keep. -/
structure Kept (s : State) : Prop where
  sound : ∀ run ∈ s, Sound run
  single : ∀ (i j : ℕ) (run run' : Run), s[i]? = some run → s[j]? = some run' →
    run.job.status = .running → run'.job.status = .running → i = j

theorem Kept.coherent (h : Kept s) : Coherent s where
  single := h.single
  stage run hrun stage hactive := by
    have hsound := h.sound run hrun
    by_cases hfinal : run.job.status = .running
    · refine (hsound.underway ?_).current stage hactive
      cases hcase : run.point with
      | ended => exact absurd hfinal (hsound.settled (by rw [hcase]; rfl)).final
      | _ => rfl
    · exact absurd hactive ((hsound.settled (by rw [hsound.ended hfinal]; rfl)).inactive stage)
  ended run hrun hpoint := by
    have hover := (h.sound run hrun).settled (by rw [hpoint]; rfl)
    exact ⟨hover.final, hover.inactive⟩
  ready run hrun hready := by
    have hsound := h.sound run hrun
    have hended := hsound.ended (by rw [hready]; nofun)
    obtain ⟨hloaded, hsucceeded, -⟩ := (hsound.settled (by rw [hended]; rfl)).ready hready
    exact ⟨hloaded, hsucceeded⟩
  obeyed run hrun hcancelling hready := by
    have hsound := h.sound run hrun
    have hended := hsound.ended (by rw [hready]; nofun)
    obtain ⟨-, -, huncancelled⟩ := (hsound.settled (by rw [hended]; rfl)).ready hready
    rw [hcancelling] at huncancelled
    cases huncancelled

/-- A step keeps the jobs as they should be, and the final statuses. -/
theorem Kept.step (h : Kept s) (hcondition : condition s event = true)
    (hstep : OnboardingJob.step texts s event = some s') : Kept s' ∧ Frozen s event s' := by
  by_cases hstart : ∃ request, event = .start request
  · obtain ⟨request, rfl⟩ := hstart
    rcases step_start hstep with rfl | ⟨run, hsound, hrunning, rfl, hnone⟩
    · exact ⟨h, fun i run hrun _ => ⟨run, hrun, rfl⟩⟩
    · have hnew : ∀ (i : ℕ) (other : Run), (s ++ [run])[i]? = some other → other.job.status = .running →
          i = s.length := by
        intro i other hother hstatus
        by_contra hne
        by_cases hlt : i < s.length
        · rw [List.getElem?_append_left hlt] at hother
          exact hnone other (List.mem_of_getElem? hother) hstatus
        · rw [List.getElem?_eq_none (by rw [List.length_append, List.length_singleton]; omega)]
            at hother
          cases hother
      refine ⟨⟨fun other hmem => ?_, fun i j _ _ hi hj hrun hrun' => ?_⟩, fun i other hother _ => ?_⟩
      · rcases List.mem_append.mp hmem with hmem | hmem
        · exact h.sound other hmem
        · rw [List.mem_singleton.mp hmem]
          exact hsound
      · rw [hnew i _ hi hrun, hnew j _ hj hrun']
      · exact ⟨other, by rw [List.getElem?_append_left (List.getElem?_eq_some_iff.mp hother).1, hother],
          rfl⟩
  · obtain ⟨index, hevent⟩ : ∃ index,
        event = .cancel index ∨ ∃ wake world, event = .resume index wake world := by
      cases event with
      | start request => exact absurd ⟨request, rfl⟩ hstart
      | cancel index => exact ⟨index, .inl rfl⟩
      | resume index wake world => exact ⟨index, .inr ⟨wake, world, rfl⟩⟩
    obtain ⟨run, run', hrun, rfl, hsound, hfinal⟩ := step_set h.sound hcondition hevent hstep
    have hlt := (List.getElem?_eq_some_iff.mp hrun).1
    -- a run that is running after the step was running before it
    have hbefore : ∀ (i : ℕ) (other : Run), (s.set index run')[i]? = some other →
        other.job.status = .running → ∃ old, s[i]? = some old ∧ old.job.status = .running := by
      intro i other hother hstatus
      by_cases hi : index = i
      · subst hi
        rw [List.getElem?_set_self hlt] at hother
        obtain rfl := Option.some.inj hother
        refine ⟨run, hrun, ?_⟩
        by_contra hended
        rw [hfinal hended] at hstatus
        exact hended hstatus
      · rw [List.getElem?_set_ne hi] at hother
        exact ⟨other, hother, hstatus⟩
    refine ⟨⟨fun other hmem => ?_, fun i j _ _ hi hj hirun hjrun => ?_⟩, fun i other hother hstatus => ?_⟩
    · rcases List.mem_or_eq_of_mem_set hmem with hmem | rfl
      · exact h.sound other hmem
      · exact hsound
    · obtain ⟨old, hold, hrunning⟩ := hbefore i _ hi hirun
      obtain ⟨old', hold', hrunning'⟩ := hbefore j _ hj hjrun
      exact h.single i j old old' hold hold' hrunning hrunning'
    · by_cases hi : index = i
      · subst hi
        obtain rfl := Option.some.inj (hrun.symm.trans hother)
        exact ⟨run', List.getElem?_set_self hlt, hfinal hstatus⟩
      · exact ⟨other, by rw [List.getElem?_set_ne hi, hother], rfl⟩

end

/-- **In a run whose runners are handled the jobs are as they should be, and a final status
stays.** -/
theorem jobs_coherent (texts : Texts) (events : List Event) (s : State)
    (h : meets (step texts) condition [] events = true)
    (hrun : run (step texts) [] events = some s) :
    Coherent s ∧ eachStep (step texts) Frozen [] events := by
  have hstart : Kept [] := ⟨fun _ hmem => absurd hmem List.not_mem_nil, fun _ _ _ _ hi => by cases hi⟩
  refine ⟨Kept.coherent ?_, ?_⟩
  · exact run_invariant (I := Kept)
      (fun _ _ _ hkept hcondition hstep => (hkept.step hcondition hstep).1) hstart h hrun
  · exact eachStep_of_meets (I := Kept)
      (fun _ _ _ hkept hcondition hstep => (hkept.step hcondition hstep).1)
      (fun _ _ _ hkept hcondition hstep => (hkept.step hcondition hstep).2) hstart h

/-- Texts without anything to take out. -/
def plainTexts : Texts := ⟨fun text => text⟩

def plainRequest : StartRequest where
  modelId := "qwen3-8b"
  now := "t0"
  device := .ok "CPU"
  known := true
  confirmLicense := true
  confirmDiskRequirement := true
  acknowledgeWarnings := false
  trustRemoteCode := false
  catalogTrust := false
  blocking := none
  requiresConfirmation := false
  storage := .ok ()
  wasDownloaded := false

/-- A model that is converted, loaded and benchmarked without an error. -/
def plainWorld : World where
  now := "t1"
  name := some "Qwen3 8B"
  forceMock := false
  downloaded := .ok false
  convertTask := .ok (some .running)
  validated := .ok true
  loadTask := .ok (some (.done (.ok ())))
  polled := .done (.ok ())
  progress := ⟨.other, none, none, []⟩
  entry := .ok ⟨true, none, some "CPU"⟩
  device := none
  benchmarkRun := ⟨some "run-1", false, some ⟨true, none, some "CPU", none, none, none, 32⟩⟩
  recorded := .ok ()
  busy := true
  quarantine := .ok ()

/-- The conversion is polled once, and then everything succeeds. -/
def successful : List Event :=
  [.start plainRequest, .resume 0 (.ok ()) plainWorld, .resume 0 (.ok ()) plainWorld,
    .resume 0 (.ok ()) plainWorld, .resume 0 (.ok ()) plainWorld]

theorem jobs_coherent_successful : ∃ s, run (step plainTexts) [] successful = some s ∧
    s.map (fun run => run.job.status) = [.ready] ∧ Coherent s ∧
      eachStep (step plainTexts) Frozen [] successful := by
  have hstatus : (run (step plainTexts) [] successful).map
      (fun s => s.map fun run => run.job.status) = some [.ready] := by decide +kernel
  obtain ⟨s, hrun, hready⟩ := Option.map_eq_some_iff.mp hstatus
  exact ⟨s, hrun, hready, jobs_coherent plainTexts successful s (by decide +kernel) hrun⟩

/-- The task of the job is cancelled while the conversion runs, and the conversion answers its
cancellation with an error. -/
def raisingCleanup : List Event :=
  [.start plainRequest, .resume 0 (.ok ()) plainWorld, .resume 0 (.error .cancelled) plainWorld,
    .resume 0 (.error (.error "The conversion process could not be stopped.")) plainWorld]

/-- That job has ended and says that it is running. -/
theorem raisingCleanup_incoherent : ¬∀ (texts : Texts) (events : List Event) (s : State),
    run (step texts) [] events = some s → Coherent s := by
  intro hall
  have hlast : (run (step plainTexts) [] raisingCleanup).map
      (fun s => s.map fun run => (run.point.isEnded, run.job.status)) =
        some [(true, .running)] := by decide +kernel
  obtain ⟨s, hrun, hruns⟩ := Option.map_eq_some_iff.mp hlast
  obtain ⟨job, others, rfl, hjob, -⟩ := List.map_eq_cons_iff.mp hruns
  obtain ⟨hended, hrunning⟩ := Prod.mk.inj hjob
  have hpoint : job.point = .ended := by
    cases hcase : job.point with
    | ended => rfl
    | _ =>
        rw [hcase] at hended
        cases hended
  exact ((hall plainTexts raisingCleanup _ hrun).ended job List.mem_cons_self hpoint).1 hrunning

end InferBridge.OnboardingJob
