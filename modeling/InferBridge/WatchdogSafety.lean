/-
InferBridge/WatchdogSafety.lean

What the watchdogs of preparations do over whole runs (InferBridge/PreparationWatchdog.lean), with
any other code between their steps.

Design.  `heartbeatOf` is the heartbeat that a step records, `heartbeats` are those of a run.  What
a step can do to the last heartbeat, to the timeout and to the calls is said once each
(`step_heartbeat`, `step_timeout`, `step_runs`), and every result is an induction along a run from
there.

Main results.  `timeout_justified`: a watcher reports nothing but a stage that has really been
silent, or unfinished, for its time.  `stall_reported`: a silent stage is reported in time.
`timeout_stands`: the report stands until a release, which no active task allows.
`cleanup_settled`: it says that the cleanup is pending until the call has ended.
-/
import InferBridge.PreparationWatchdog

namespace InferBridge.PreparationWatchdog

open Text StructuredProgress

/-! ### What a step does to the heartbeat -/

section

variable {host : Host} {s s' : State} {e : Event} {i : ℕ} {run : WatchedRun} {tick : Tick}
  {epoch : ℚ}

/-- The phase and the message of the progress that a step publishes. -/
def reported (host : Host) (s : State) : Event → Option (Str × Str)
  | .setProgress write _ _ =>
    if s.accepts write.phase then some (write.phase, write.message) else none
  | .line raw tick _ => if s.timeout.isSome then none else s.lineReport host raw tick
  | _ => none

/-- The heartbeat that a step records. -/
def heartbeatOf (host : Host) (s : State) (e : Event) : Option PreparationHeartbeat :=
  (reported host s e).bind fun report =>
    (classifyStage report.1 report.2).bind fun _ => (step host s e).bind State.heartbeat

theorem heartbeatOf_of_reported (h : reported host s e = none) : heartbeatOf host s e = none := by
  rw [heartbeatOf, h]
  rfl

/-- A heartbeat that counts from the current time, or goes on with the stage of the last one. -/
structure Follows (now : ℚ) (last : Option PreparationHeartbeat) (h : PreparationHeartbeat) :
    Prop where
  time : h.lastProgressMonotonic = now
  started : h.stageStartedMonotonic = now ∨ ∃ previous, last = some previous ∧
    previous.stage = h.stage ∧ previous.operationId = h.operationId ∧
    previous.stageStartedMonotonic = h.stageStartedMonotonic

theorem nextHeartbeat_follows (s : State) (stage : PreparationStage) (epoch : ℚ) :
    Follows s.now s.heartbeat (s.nextHeartbeat stage epoch) := by
  refine ⟨rfl, ?_⟩
  unfold State.nextHeartbeat
  cases hlast : s.heartbeat with
  | none => exact .inl rfl
  | some current =>
    dsimp only
    split_ifs with hsame
    · exact .inr ⟨current, rfl, hsame.1, hsame.2, rfl⟩
    · exact .inl rfl

/-- No watcher waits for longer than its interval. -/
def Waits (host : Host) (now : ℚ) : Watcher → Prop
  | .created since => since ≤ now
  | .asleep wake => wake ≤ now + host.pollSeconds
  | .ended => True

theorem Waits.mono {now later : ℚ} {watcher : Watcher} (h : Waits host now watcher)
    (hle : now ≤ later) : Waits host later watcher := by
  cases watcher with
  | created since => exact h.trans hle
  | asleep wake => exact h.trans (add_le_add_left hle _)
  | ended => trivial

namespace State

@[simp] theorem recordHeartbeat_now (s : State) (phase message : Str) (epoch : ℚ) :
    (s.recordHeartbeat phase message epoch).now = s.now := by
  unfold recordHeartbeat
  split <;> rfl

@[simp] theorem recordHeartbeat_timeout (s : State) (phase message : Str) (epoch : ℚ) :
    (s.recordHeartbeat phase message epoch).timeout = s.timeout := by
  unfold recordHeartbeat
  split <;> rfl

@[simp] theorem recordHeartbeat_runs (s : State) (phase message : Str) (epoch : ℚ) :
    (s.recordHeartbeat phase message epoch).runs = s.runs := by
  unfold recordHeartbeat
  split <;> rfl

/-- A look of a watcher changes its own state, or is the timeout. -/
theorem watch_cases (h : s.watch host i run tick epoch = some s') :
    (∃ watcher, Waits host s.now watcher ∧ s' = s.setWatcher i watcher) ∨
      ∃ heartbeat, s.heartbeat = some heartbeat ∧ s.timeout = none ∧ run.outcome = none ∧
        foreign run heartbeat = false ∧ s.due host run heartbeat = true ∧
        s' = s.fire host i run heartbeat tick epoch := by
  unfold watch at h
  cases hwatcher : run.watcher with
  | ended => simp [hwatcher] at h
  | created since =>
    rw [hwatcher] at h
    refine .inl ⟨_, ?_, (Option.some.inj h).symm⟩
    split_ifs
    · trivial
    · exact le_rfl
  | asleep wake =>
    rw [hwatcher] at h
    dsimp only at h
    split_ifs at h with hearly hover
    · exact .inl ⟨.ended, trivial, (Option.some.inj h).symm⟩
    cases hheartbeat : s.heartbeat with
    | none =>
      rw [hheartbeat] at h
      exact .inl ⟨.asleep _, le_rfl, (Option.some.inj h).symm⟩
    | some heartbeat =>
      rw [hheartbeat] at h
      dsimp only at h
      split_ifs at h with hforeign hdue
      · exact .inl ⟨.ended, trivial, (Option.some.inj h).symm⟩
      · simp only [Bool.or_eq_true, not_or, Option.not_isSome_iff_eq_none] at hover
        exact .inr ⟨heartbeat, rfl, hover.2, hover.1, by simpa using hforeign, hdue,
          (Option.some.inj h).symm⟩
      · exact .inl ⟨.asleep _, le_rfl, (Option.some.inj h).symm⟩

/-- The end of a watched call completes the cleanup of its timeout, unless its task raised. -/
theorem resume_cases (h : s.resume i run = some s') :
    run.ending = none ∧ run.outcome ≠ none ∧ ∃ ending,
      (s' = s.leave i ending ∧ (s.timedOut i = false ∨ ending = .raised)) ∨
      (s' = s.markCleanupComplete.leave i ending ∧ s.timedOut i = true ∧ ending ≠ .raised) := by
  unfold resume at h
  by_cases hended : run.ending.isSome = true
  · rw [if_pos hended] at h
    cases h
  rw [if_neg hended] at h
  refine ⟨by simpa using hended, ?_⟩
  cases houtcome : run.outcome with
  | none => simp [houtcome] at h
  | some outcome =>
    rw [houtcome] at h
    refine ⟨nofun, ?_⟩
    cases outcome with
    | raised => exact ⟨.raised, .inl ⟨(Option.some.inj h).symm, .inr rfl⟩⟩
    | returned =>
      refine ⟨.result, ?_⟩
      dsimp only at h
      split_ifs at h with htimedOut
      · exact .inr ⟨(Option.some.inj h).symm, htimedOut, nofun⟩
      · exact .inl ⟨(Option.some.inj h).symm, .inl (by simpa using htimedOut)⟩
    | cancelled =>
      dsimp only at h
      split_ifs at h with htimedOut hcancelling
      · exact ⟨.cancelled, .inr ⟨(Option.some.inj h).symm, htimedOut, nofun⟩⟩
      · exact ⟨.nothing, .inr ⟨(Option.some.inj h).symm, htimedOut, nofun⟩⟩
      · exact ⟨.cancelled, .inl ⟨(Option.some.inj h).symm, .inl (by simpa using htimedOut)⟩⟩

theorem resume_heartbeat (h : s.resume i run = some s') :
    s'.heartbeat = s.heartbeat ∧ s'.now = s.now := by
  obtain ⟨-, -, ending, ⟨rfl, -⟩ | ⟨rfl, -⟩⟩ := resume_cases h <;> exact ⟨rfl, rfl⟩

theorem watch_heartbeat (h : s.watch host i run tick epoch = some s') :
    s'.heartbeat = s.heartbeat ∧ s'.now = s.now := by
  obtain ⟨watcher, -, rfl⟩ | ⟨heartbeat, -, -, -, -, -, rfl⟩ := watch_cases h <;> exact ⟨rfl, rfl⟩

end State

/-- What a step can do to the heartbeat. -/
inductive HeartbeatStep (host : Host) (s : State) (e : Event) (s' : State) : Prop
  | kept : heartbeatOf host s e = none → s.now ≤ s'.now → s'.heartbeat = s.heartbeat →
      HeartbeatStep host s e s'
  | dropped : heartbeatOf host s e = none → s.now ≤ s'.now → s'.heartbeat = none →
      s.timeout.isSome = true ∨ e = .clearProgress → HeartbeatStep host s e s'
  | recorded (heartbeat : PreparationHeartbeat) : heartbeatOf host s e = some heartbeat →
      s'.now = s.now → s'.heartbeat = some heartbeat → Follows s.now s.heartbeat heartbeat →
      HeartbeatStep host s e s'

/-- A report in a state with the heartbeat that there was, or with none. -/
theorem heartbeatStep_of_report {t : State} {phase message : Str}
    (hreported : reported host s e = some (phase, message)) (hnow : t.now = s.now)
    (hlast : t.heartbeat = s.heartbeat ∨ (t.heartbeat = none ∧ s.timeout.isSome = true))
    (hstep : step host s e = some (t.recordHeartbeat phase message epoch)) :
    HeartbeatStep host s e (t.recordHeartbeat phase message epoch) := by
  have recorded : heartbeatOf host s e = (classifyStage phase message).bind fun _ =>
      (t.recordHeartbeat phase message epoch).heartbeat := by
    rw [heartbeatOf, hreported, hstep]
    rfl
  unfold State.recordHeartbeat at recorded ⊢
  cases hstage : classifyStage phase message with
  | none =>
    rw [hstage] at recorded
    rcases hlast with hlast | ⟨hlast, htimeout⟩
    · exact .kept recorded hnow.ge hlast
    · exact .dropped recorded hnow.ge hlast (.inl htimeout)
  | some stage =>
    rw [hstage] at recorded
    refine .recorded _ recorded hnow rfl ?_
    obtain ⟨htime, hstarted⟩ := nextHeartbeat_follows t stage epoch
    refine ⟨htime.trans hnow, hstarted.imp (fun h => h.trans hnow) ?_⟩
    rintro ⟨previous, hprevious, hsame⟩
    rcases hlast with hlast | ⟨hlast, -⟩
    · exact ⟨previous, hlast ▸ hprevious, hsame⟩
    · rw [hlast] at hprevious
      cases hprevious

theorem setProgress_heartbeat (s : State) (write : Write) (tick : Tick) (epoch : ℚ) :
    HeartbeatStep host s (.setProgress write tick epoch)
      (s.setProgress host write tick epoch) := by
  by_cases haccepts : s.accepts write.phase = true
  · have hstep : step host s (.setProgress write tick epoch) =
        some (s.setProgress host write tick epoch) := rfl
    unfold State.setProgress at hstep ⊢
    rw [if_pos haccepts] at hstep ⊢
    refine heartbeatStep_of_report (if_pos haccepts) ?_ ?_ hstep
    · dsimp only
      split <;> rfl
    · dsimp only
      split_ifs with htimeout
      · exact .inr ⟨rfl, htimeout⟩
      · exact .inl rfl
  · have hsilent : reported host s (.setProgress write tick epoch) = none := if_neg haccepts
    unfold State.setProgress
    rw [if_neg haccepts]
    exact .kept (heartbeatOf_of_reported hsilent) le_rfl rfl

theorem readLine_heartbeat (s : State) (raw : RawLine) (tick : Tick) (epoch : ℚ) :
    HeartbeatStep host s (.line raw tick epoch) (s.readLine host raw tick epoch) := by
  have hstep : step host s (.line raw tick epoch) = some (s.readLine host raw tick epoch) := rfl
  unfold State.readLine at hstep ⊢
  by_cases htimeout : s.timeout.isSome = true
  · have hsilent : reported host s (.line raw tick epoch) = none := if_pos htimeout
    rw [if_pos htimeout]
    exact .kept (heartbeatOf_of_reported hsilent) le_rfl rfl
  · rw [if_neg htimeout] at hstep ⊢
    have hreported : reported host s (.line raw tick epoch) = s.lineReport host raw tick :=
      if_neg htimeout
    dsimp only at hstep ⊢
    cases hreport : s.lineReport host raw tick with
    | none => exact .kept (heartbeatOf_of_reported (hreported.trans hreport)) le_rfl rfl
    | some report =>
      rw [hreport] at hstep
      exact heartbeatStep_of_report (hreported.trans hreport) rfl (.inl rfl) hstep

/-- **A step records a heartbeat, keeps the last one or drops it.** -/
theorem step_heartbeat (h : step host s e = some s') : HeartbeatStep host s e s' := by
  have kept : reported host s e = none → s'.heartbeat = s.heartbeat ∧ s'.now = s.now →
      HeartbeatStep host s e s' := fun hsilent hsame =>
    .kept (heartbeatOf_of_reported hsilent) hsame.2.ge hsame.1
  cases e with
  | pass seconds =>
    rw [step] at h
    split_ifs at h with hpos
    obtain rfl := Option.some.inj h
    exact .kept rfl (le_add_of_nonneg_right hpos) rfl
  | tasks load convert =>
    obtain rfl := Option.some.inj h
    exact kept rfl ⟨rfl, rfl⟩
  | setStatus status error =>
    obtain rfl := Option.some.inj h
    refine kept rfl ?_
    split_ifs <;> exact ⟨rfl, rfl⟩
  | clearStatus =>
    obtain rfl := Option.some.inj h
    refine kept rfl ?_
    split_ifs <;> exact ⟨rfl, rfl⟩
  | setProgress write tick epoch =>
    obtain rfl := Option.some.inj h
    exact setProgress_heartbeat s write tick epoch
  | clearProgress =>
    obtain rfl := Option.some.inj h
    unfold State.clearProgress
    split_ifs
    · exact .kept rfl le_rfl rfl
    · exact .dropped rfl le_rfl rfl (.inr rfl)
  | line raw tick epoch =>
    obtain rfl := Option.some.inj h
    exact readLine_heartbeat s raw tick epoch
  | start kind =>
    obtain rfl := Option.some.inj h
    exact kept rfl ⟨rfl, rfl⟩
  | watch i tick epoch =>
    obtain ⟨run, -, h⟩ := Option.bind_eq_some_iff.mp h
    exact kept rfl (State.watch_heartbeat h)
  | finish i outcome =>
    obtain ⟨run, -, h⟩ := Option.bind_eq_some_iff.mp h
    unfold State.finish at h
    split_ifs at h
    obtain rfl := Option.some.inj h
    exact kept rfl ⟨rfl, rfl⟩
  | cancel i =>
    obtain ⟨run, -, h⟩ := Option.bind_eq_some_iff.mp h
    unfold State.cancel at h
    split_ifs at h
    obtain rfl := Option.some.inj h
    exact kept rfl ⟨rfl, rfl⟩
  | resume i =>
    obtain ⟨run, -, h⟩ := Option.bind_eq_some_iff.mp h
    exact kept rfl (State.resume_heartbeat h)

/-! ### What a step does to the timeout -/

/-- The step releases the report of a timeout. -/
def released (s : State) : Event → Bool
  | .setProgress write _ _ => write.phase = "ready".toList && !s.active
  | .clearProgress => !s.active
  | _ => false

/-- Status, error, progress and the addition of the timeout to it. -/
def State.report (s : State) :
    Option Str × Option Str × Option ProgressRecord × Option TimeoutMetadata :=
  (s.store.status, s.statusError, s.store.record, s.metadata)

/-- What a step can do to the timeout and, while there is one, to the report. -/
inductive TimeoutStep (host : Host) (s : State) (e : Event) (s' : State) : Prop
  | kept : s'.timeout = s.timeout →
      (s.timeout.isSome = true → s.store.terminal = true → s'.report = s.report) →
      TimeoutStep host s e s'
  | released : released s e = true → s'.timeout = none → TimeoutStep host s e s'
  | fired (i : ℕ) (run : WatchedRun) (heartbeat : PreparationHeartbeat) (tick : Tick) (epoch : ℚ) :
      e = .watch i tick epoch → s.runs[i]? = some run → s.heartbeat = some heartbeat →
      s.timeout = none → run.outcome = none → State.foreign run heartbeat = false →
      s.due host run heartbeat = true → s' = s.fire host i run heartbeat tick epoch →
      TimeoutStep host s e s'
  | cleaned (i : ℕ) (run : WatchedRun) (ending : Ending) : e = .resume i →
      s.runs[i]? = some run → s.timedOut i = true → ending ≠ .raised →
      s' = s.markCleanupComplete.leave i ending → TimeoutStep host s e s'

theorem takesLine_terminal {store : ProgressStore} (h : store.terminal = true) (raw : RawLine) :
    takesLine host.reader host.modelId store raw = false := by
  cases raw with
  | overlong => rfl
  | text decoded => simp [takesLine, h]

theorem ignoredLine_terminal {store : ProgressStore} (h : store.terminal = true) (raw : RawLine) :
    State.ignoredLine host store raw = store := by
  cases raw with
  | overlong => rfl
  | text decoded => rw [State.ignoredLine, if_neg (by simp [takesLine_terminal h])]

theorem setProgress_timeout (s : State) (write : Write) (tick : Tick) (epoch : ℚ) :
    TimeoutStep host s (.setProgress write tick epoch) (s.setProgress host write tick epoch) := by
  unfold State.setProgress
  by_cases haccepts : s.accepts write.phase = true
  · rw [if_pos haccepts]
    by_cases htimeout : s.timeout.isSome = true
    · refine .released ?_ (by simp [htimeout])
      rw [State.accepts, ← Option.not_isSome, htimeout] at haccepts
      exact haccepts
    · exact .kept (by simp [htimeout]) fun hsome => absurd hsome htimeout
  · rw [if_neg haccepts]
    exact .kept rfl fun _ _ => rfl

theorem readLine_timeout (s : State) (raw : RawLine) (tick : Tick) (epoch : ℚ) :
    TimeoutStep host s (.line raw tick epoch) (s.readLine host raw tick epoch) := by
  unfold State.readLine
  by_cases htimeout : s.timeout.isSome = true
  · rw [if_pos htimeout]
    refine .kept rfl fun _ hterminal => ?_
    unfold State.report
    rw [ignoredLine_terminal hterminal]
  · rw [if_neg htimeout]
    dsimp only
    cases s.lineReport host raw tick with
    | none => exact .kept rfl fun hsome => absurd hsome htimeout
    | some report => exact .kept (by simp) fun hsome => absurd hsome htimeout

/-- **A step keeps the timeout and its report**, unless it releases them, is a timeout itself or
completes the cleanup. -/
theorem step_timeout (h : step host s e = some s') : TimeoutStep host s e s' := by
  cases e with
  | pass seconds =>
    rw [step] at h
    split_ifs at h
    obtain rfl := Option.some.inj h
    exact .kept rfl fun _ _ => rfl
  | tasks load convert =>
    obtain rfl := Option.some.inj h
    exact .kept rfl fun _ _ => rfl
  | setStatus status error =>
    obtain rfl := Option.some.inj h
    by_cases htimeout : s.timeout.isSome = true
    · rw [if_pos htimeout]
      exact .kept rfl fun _ _ => rfl
    · rw [if_neg htimeout]
      exact .kept rfl fun hsome => absurd hsome htimeout
  | clearStatus =>
    obtain rfl := Option.some.inj h
    by_cases htimeout : s.timeout.isSome = true
    · rw [if_pos htimeout]
      exact .kept rfl fun _ _ => rfl
    · rw [if_neg htimeout]
      exact .kept rfl fun hsome => absurd hsome htimeout
  | setProgress write tick epoch =>
    obtain rfl := Option.some.inj h
    exact setProgress_timeout s write tick epoch
  | clearProgress =>
    obtain rfl := Option.some.inj h
    unfold State.clearProgress
    by_cases hactive : s.timeout.isSome = true ∧ s.active = true
    · rw [if_pos (by simp [hactive])]
      exact .kept rfl fun _ _ => rfl
    · rw [if_neg (by simpa using hactive)]
      by_cases htimeout : s.timeout.isSome = true
      · exact .released (by simpa [released, htimeout] using hactive) rfl
      · have hnone := Option.not_isSome_iff_eq_none.mp htimeout
        exact .kept hnone.symm fun hsome => absurd hsome htimeout
  | line raw tick epoch =>
    obtain rfl := Option.some.inj h
    exact readLine_timeout s raw tick epoch
  | start kind =>
    obtain rfl := Option.some.inj h
    exact .kept rfl fun _ _ => rfl
  | watch i tick epoch =>
    obtain ⟨run, hrun, h⟩ := Option.bind_eq_some_iff.mp h
    obtain ⟨watcher, -, rfl⟩ | ⟨heartbeat, hheartbeat, htimeout, houtcome, hforeign, hdue, rfl⟩ :=
      State.watch_cases h
    · exact .kept rfl fun _ _ => rfl
    · exact .fired i run heartbeat tick epoch rfl hrun hheartbeat htimeout houtcome hforeign hdue
        rfl
  | finish i outcome =>
    obtain ⟨run, -, h⟩ := Option.bind_eq_some_iff.mp h
    unfold State.finish at h
    split_ifs at h
    obtain rfl := Option.some.inj h
    exact .kept rfl fun _ _ => rfl
  | cancel i =>
    obtain ⟨run, -, h⟩ := Option.bind_eq_some_iff.mp h
    unfold State.cancel at h
    split_ifs at h
    obtain rfl := Option.some.inj h
    exact .kept rfl fun _ _ => rfl
  | resume i =>
    obtain ⟨run, hrun, h⟩ := Option.bind_eq_some_iff.mp h
    obtain ⟨-, -, ending, ⟨rfl, -⟩ | ⟨rfl, htimedOut, hending⟩⟩ := State.resume_cases h
    · exact .kept rfl fun _ _ => rfl
    · exact .cleaned i run ending rfl hrun htimedOut hending rfl

/-! ### A timeout is justified -/

/-- The heartbeats that a run records, in order. -/
def heartbeats (host : Host) : State → List Event → List PreparationHeartbeat
  | _, [] => []
  | s, e :: es =>
    (heartbeatOf host s e).toList ++ ((step host s e).map fun s' => heartbeats host s' es).getD []

theorem heartbeats_append {es : List Event} (h : Transition.run (step host) s es = some s')
    (e : Event) :
    heartbeats host s (es ++ [e]) = heartbeats host s es ++ (heartbeatOf host s' e).toList := by
  induction es generalizing s with
  | nil =>
    obtain rfl := Option.some.inj h
    have rest : ((step host s e).map fun _ => ([] : List PreparationHeartbeat)).getD [] = [] := by
      cases step host s e <;> rfl
    show (heartbeatOf host s e).toList ++ _ = _
    exact (congrArg _ rest).trans (List.append_nil _)
  | cons first es ih =>
    obtain ⟨t, hfirst, hrest⟩ := Transition.run_cons_eq_some.mp h
    rw [List.cons_append, heartbeats, heartbeats, hfirst]
    simp only [Option.map_some, Option.getD_some]
    rw [ih hrest, List.append_assoc]

/-- What the last heartbeat says about all heartbeats so far. -/
structure Heard (s : State) (beats : List PreparationHeartbeat) : Prop where
  past : ∀ b ∈ beats, b.lastProgressMonotonic ≤ s.now
  last : ∀ h, s.heartbeat = some h → h ∈ beats ∧
    ∀ b ∈ beats, b.lastProgressMonotonic ≤ h.lastProgressMonotonic
  stage : ∀ h, s.heartbeat = some h →
    ∀ b ∈ beats, h.stageStartedMonotonic < b.lastProgressMonotonic →
      b.stage = h.stage ∧ b.operationId = h.operationId
  begun : ∀ h, s.heartbeat = some h → ∃ b ∈ beats,
    b.lastProgressMonotonic = h.stageStartedMonotonic ∧ b.stage = h.stage ∧
      b.operationId = h.operationId

theorem HeartbeatStep.heard {beats : List PreparationHeartbeat} (h : HeartbeatStep host s e s')
    (hs : Heard s beats) : Heard s' (beats ++ (heartbeatOf host s e).toList) := by
  cases h with
  | kept hnone hnow hsame =>
    rw [hnone, Option.toList_none, List.append_nil]
    exact ⟨fun b hb => (hs.past b hb).trans hnow, hsame ▸ hs.last, hsame ▸ hs.stage,
      hsame ▸ hs.begun⟩
  | dropped hnone hnow hdropped _ =>
    rw [hnone, Option.toList_none, List.append_nil]
    refine ⟨fun b hb => (hs.past b hb).trans hnow, ?_, ?_, ?_⟩ <;> rw [hdropped] <;> nofun
  | recorded heartbeat hrecorded hnow hlast hfollows =>
    rw [hrecorded, Option.toList_some]
    have mem : ∀ {b}, b ∈ beats ++ [heartbeat] → b ∈ beats ∨ b = heartbeat := by simp
    have past : ∀ b ∈ beats ++ [heartbeat], b.lastProgressMonotonic ≤ s.now := by
      intro b hb
      rcases mem hb with hb | rfl
      · exact hs.past b hb
      · exact hfollows.time.le
    refine ⟨fun b hb => (past b hb).trans hnow.ge, ?_, ?_, ?_⟩ <;> rw [hlast] <;>
      rintro h ⟨⟩
    · exact ⟨by simp, fun b hb => (past b hb).trans hfollows.time.ge⟩
    · intro b hb hlate
      rcases mem hb with hb | rfl
      · rcases hfollows.started with hstarted | ⟨previous, hprevious, hstage, hid, hstarted⟩
        · exact absurd (hs.past b hb) (not_le.mpr (hstarted ▸ hlate))
        · obtain ⟨hbstage, hbid⟩ := hs.stage previous hprevious b hb (hstarted ▸ hlate)
          exact ⟨hbstage.trans hstage, hbid.trans hid⟩
      · exact ⟨rfl, rfl⟩
    · rcases hfollows.started with hstarted | ⟨previous, hprevious, hstage, hid, hstarted⟩
      · exact ⟨heartbeat, by simp, hfollows.time.trans hstarted.symm, rfl, rfl⟩
      · obtain ⟨b, hb, htime, hbstage, hbid⟩ := hs.begun previous hprevious
        exact ⟨b, List.mem_append_left _ hb, htime.trans hstarted, hbstage.trans hstage,
          hbid.trans hid⟩

theorem run_heard {now : ℚ} {es : List Event}
    (h : Transition.run (step host) (.initial now) es = some s) :
    Heard s (heartbeats host (.initial now) es) := by
  have start : Transition.run (step host) (.initial now) [] = some (.initial now) ∧
      Heard (.initial now) (heartbeats host (.initial now) []) :=
    ⟨rfl, nofun, nofun, nofun, nofun⟩
  refine (Transition.run_induction (C := fun _ _ => true)
    (P := fun es s => Transition.run (step host) (.initial now) es = some s ∧
      Heard s (heartbeats host (.initial now) es)) ?_ start (Transition.meets_true es) h).2
  rintro before t e t' ⟨hrun, hheard⟩ - hstep
  refine ⟨Transition.run_append_eq_some.mpr
    ⟨t, hrun, Transition.run_cons_eq_some.mpr ⟨t', hstep, rfl⟩⟩, ?_⟩
  rw [heartbeats_append hrun]
  exact (step_heartbeat hstep).heard hheard

/-- A host whose converter writes nothing that is read as an event. -/
def quietHost : Host where
  config := {}
  isoTimestamp := fun _ => []
  name := "Phi".toList
  modelId := "phi".toList
  reword := id
  unicode := .ascii
  reader := fun _ => .error .invalid

/-- A conversion that begins to download, and then is silent for ten minutes. -/
def silentDownload : List Event :=
  [.start .convert,
    .setProgress ⟨"downloading".toList, "Downloading".toList, none, none⟩ ⟨1, ['a']⟩ 1,
    .watch 0 ⟨1, ['a']⟩ 1, .pass 600]

/-- The step is one of the run `i`. -/
def Event.concerns (i : ℕ) : Event → Bool
  | .watch j _ _ | .finish j _ | .cancel j | .resume j => j = i
  | _ => false

theorem modify_ne {runs : List WatchedRun} {j : ℕ} (f : WatchedRun → WatchedRun) (h : j ≠ i) :
    (runs.modify j f)[i]? = runs[i]? := by
  rw [List.getElem?_modify]
  simp [h]

theorem modify_self {runs : List WatchedRun} (f : WatchedRun → WatchedRun)
    (h : runs[i]? = some run) : (runs.modify i f)[i]? = some (f run) := by
  rw [List.getElem?_modify, h]
  simp

theorem runs_setProgress (s : State) (write : Write) (tick : Tick) (epoch : ℚ) :
    (s.setProgress host write tick epoch).runs = s.runs := by
  unfold State.setProgress
  split_ifs <;> simp

theorem runs_clearProgress (s : State) : s.clearProgress.runs = s.runs := by
  unfold State.clearProgress
  split_ifs <;> rfl

theorem runs_readLine (s : State) (raw : RawLine) (tick : Tick) (epoch : ℚ) :
    (s.readLine host raw tick epoch).runs = s.runs := by
  unfold State.readLine
  split_ifs
  · rfl
  · dsimp only
    cases s.lineReport host raw tick with
    | none => rfl
    | some report => simp

/-- The other steps leave a run as it is. -/
theorem step_run (h : step host s e = some s') (hother : e.concerns i = false)
    (hrun : s.runs[i]? = some run) : s'.runs[i]? = some run := by
  have ne : ∀ {j}, decide (j = i) = false → j ≠ i := fun hj => of_decide_eq_false hj
  cases e with
  | pass seconds =>
    rw [step] at h
    split_ifs at h
    obtain rfl := Option.some.inj h
    exact hrun
  | tasks load convert =>
    obtain rfl := Option.some.inj h
    exact hrun
  | setStatus status error =>
    obtain rfl := Option.some.inj h
    split_ifs <;> exact hrun
  | clearStatus =>
    obtain rfl := Option.some.inj h
    split_ifs <;> exact hrun
  | setProgress write tick epoch =>
    obtain rfl := Option.some.inj h
    rwa [runs_setProgress]
  | clearProgress =>
    obtain rfl := Option.some.inj h
    rwa [runs_clearProgress]
  | line raw tick epoch =>
    obtain rfl := Option.some.inj h
    rwa [runs_readLine]
  | start kind =>
    obtain rfl := Option.some.inj h
    exact List.getElem?_append_left (List.getElem?_eq_some_iff.mp hrun).1 ▸ hrun
  | watch j tick epoch =>
    obtain ⟨other, -, h⟩ := Option.bind_eq_some_iff.mp h
    obtain ⟨watcher, -, rfl⟩ | ⟨heartbeat, -, -, -, -, -, rfl⟩ := State.watch_cases h
    · exact (modify_ne _ (ne hother)).trans hrun
    · exact (modify_ne _ (ne hother)).trans hrun
  | finish j outcome =>
    obtain ⟨other, -, h⟩ := Option.bind_eq_some_iff.mp h
    unfold State.finish at h
    split_ifs at h
    obtain rfl := Option.some.inj h
    exact (modify_ne _ (ne hother)).trans hrun
  | cancel j =>
    obtain ⟨other, -, h⟩ := Option.bind_eq_some_iff.mp h
    unfold State.cancel at h
    split_ifs at h
    obtain rfl := Option.some.inj h
    exact (modify_ne _ (ne hother)).trans hrun
  | resume j =>
    obtain ⟨other, -, h⟩ := Option.bind_eq_some_iff.mp h
    obtain ⟨-, -, ending, ⟨rfl, -⟩ | ⟨rfl, -⟩⟩ := State.resume_cases h
    · exact (modify_ne _ (ne hother)).trans hrun
    · exact (modify_ne _ (ne hother)).trans hrun

/-! ### The report stands -/

/-- What the status and the progress of the model show is the timeout. -/
def Shows (host : Host) (s : State) (r : PreparationTimeoutRecord) : Prop :=
  ∃ record : ProgressRecord, record.phase = "error".toList ∧
    s.report = (some "error".toList, some (timeoutMessage host r), some record,
      some (progressTimeoutMetadata host r))

theorem Shows.terminal {r : PreparationTimeoutRecord} (h : Shows host s r) :
    s.store.terminal = true := by
  obtain ⟨record, -, hreport⟩ := h
  have hstatus : s.store.status = some "error".toList := congrArg Prod.fst hreport
  rw [ProgressStore.terminal, hstatus]
  rfl

theorem Shows.markCleanupComplete {r : PreparationTimeoutRecord} (h : Shows host s r) :
    Shows host s.markCleanupComplete { r with cleanupPending := false } := by
  obtain ⟨record, hphase, hreport⟩ := h
  refine ⟨record, hphase, ?_⟩
  obtain ⟨hstatus, herror, hrecord, hmetadata⟩ : s.store.status = _ ∧ s.statusError = _ ∧
    s.store.record = _ ∧ s.metadata = _ := by simpa [State.report] using hreport
  unfold State.report State.markCleanupComplete
  simp only [hstatus, herror, hrecord, hmetadata]
  rfl

theorem shows_fire (s : State) (i : ℕ) (run : WatchedRun) (heartbeat : PreparationHeartbeat)
    (tick : Tick) (epoch : ℚ) :
    Shows host (s.fire host i run heartbeat tick epoch)
      (s.timeoutRecord host i run heartbeat epoch) := ⟨_, rfl, rfl⟩

theorem TimeoutStep.shows (h : TimeoutStep host s e s')
    (hs : ∀ r, s.timeout = some r → Shows host s r) :
    ∀ r, s'.timeout = some r → Shows host s' r := by
  intro r htimeout
  cases h with
  | kept hsame hreport =>
    rw [hsame] at htimeout
    obtain ⟨record, hphase, hshown⟩ := hs r htimeout
    have same := hreport (by rw [htimeout]; rfl) (hs r htimeout).terminal
    exact ⟨record, hphase, same.trans hshown⟩
  | released _ hnone => rw [hnone] at htimeout; cases htimeout
  | fired i run heartbeat tick epoch _ _ _ _ _ _ _ hs' =>
    subst hs'
    obtain rfl := Option.some.inj htimeout
    exact shows_fire s i run heartbeat tick epoch
  | cleaned i run ending _ _ _ _ hs' =>
    subst hs'
    obtain ⟨before, hbefore, rfl⟩ := Option.map_eq_some_iff.mp htimeout
    exact (hs before hbefore).markCleanupComplete

theorem run_shows {now : ℚ} {es : List Event}
    (h : Transition.run (step host) (.initial now) es = some s) :
    ∀ r, s.timeout = some r → Shows host s r :=
  Transition.run_always (fun _ _ _ hs hstep => (step_timeout hstep).shows hs)
    (fun _ hr => by cases hr) h

theorem mem_modify {runs : List WatchedRun} {f : WatchedRun → WatchedRun} {other : WatchedRun}
    (hrun : runs[i]? = some run) (h : other ∈ runs.modify i f) : other ∈ runs ∨ other = f run := by
  obtain ⟨j, hj⟩ := List.mem_iff_getElem?.mp h
  by_cases hij : i = j
  · subst hij
    rw [modify_self f hrun] at hj
    exact .inr (Option.some.inj hj).symm
  · rw [modify_ne f hij] at hj
    exact .inl (List.mem_of_getElem? hj)

/-- What a step can do to a run. -/
inductive RunStep (host : Host) (s : State) (run : WatchedRun) : WatchedRun → Prop
  | watched (watcher : Watcher) : Waits host s.now watcher →
      RunStep host s run { run with watcher }
  | timedOut : RunStep host s run
      { run with
        cancelRequested := true
        watcher := .ended }
  | finished (outcome : Outcome) : RunStep host s run { run with outcome := some outcome }
  | cancelled : RunStep host s run
      { run with
        cancelRequested := true
        cancelling := true }
  | left (ending : Ending) : run.outcome ≠ none → RunStep host s run
      { run with
        ending := some ending
        watcher := .ended }

/-- The runs behind a step: those that there were, one of them changed, or a new one. -/
theorem step_runs (h : step host s e = some s') {other : WatchedRun} (hother : other ∈ s'.runs) :
    other ∈ s.runs ∨ (∃ run ∈ s.runs, RunStep host s run other) ∨
      ∃ kind, other =
        { kind := kind, operationId := s.operationId, watcher := .created s.now } := by
  have modified : ∀ {i run} {f : WatchedRun → WatchedRun}, s.runs[i]? = some run →
      RunStep host s run (f run) → other ∈ s.runs.modify i f →
      other ∈ s.runs ∨ ∃ run ∈ s.runs, RunStep host s run other := by
    intro i run f hrun hstep hmem
    rcases mem_modify hrun hmem with hmem | rfl
    · exact .inl hmem
    · exact .inr ⟨run, List.mem_of_getElem? hrun, hstep⟩
  rw [← or_assoc]
  cases e with
  | pass seconds =>
    rw [step] at h
    split_ifs at h
    obtain rfl := Option.some.inj h
    exact .inl (.inl hother)
  | tasks load convert =>
    obtain rfl := Option.some.inj h
    exact .inl (.inl hother)
  | setStatus status error =>
    obtain rfl := Option.some.inj h
    refine .inl (.inl ?_)
    split_ifs at hother <;> exact hother
  | clearStatus =>
    obtain rfl := Option.some.inj h
    refine .inl (.inl ?_)
    split_ifs at hother <;> exact hother
  | setProgress write tick epoch =>
    obtain rfl := Option.some.inj h
    exact .inl (.inl (by rwa [runs_setProgress] at hother))
  | clearProgress =>
    obtain rfl := Option.some.inj h
    exact .inl (.inl (runs_clearProgress s ▸ hother))
  | line raw tick epoch =>
    obtain rfl := Option.some.inj h
    exact .inl (.inl (by rwa [runs_readLine] at hother))
  | start kind =>
    obtain rfl := Option.some.inj h
    rcases List.mem_append.mp hother with hother | hother
    · exact .inl (.inl hother)
    · exact .inr ⟨kind, List.mem_singleton.mp hother⟩
  | watch i tick epoch =>
    obtain ⟨run, hrun, h⟩ := Option.bind_eq_some_iff.mp h
    obtain ⟨watcher, hwaits, rfl⟩ | ⟨heartbeat, -, -, -, -, -, rfl⟩ := State.watch_cases h
    · exact .inl (modified hrun (.watched watcher hwaits) hother)
    · exact .inl (modified hrun .timedOut hother)
  | finish i outcome =>
    obtain ⟨run, hrun, h⟩ := Option.bind_eq_some_iff.mp h
    unfold State.finish at h
    split_ifs at h
    obtain rfl := Option.some.inj h
    exact .inl (modified hrun (.finished outcome) hother)
  | cancel i =>
    obtain ⟨run, hrun, h⟩ := Option.bind_eq_some_iff.mp h
    unfold State.cancel at h
    split_ifs at h
    obtain rfl := Option.some.inj h
    exact .inl (modified hrun .cancelled hother)
  | resume i =>
    obtain ⟨run, hrun, h⟩ := Option.bind_eq_some_iff.mp h
    obtain ⟨-, hended, ending, ⟨rfl, -⟩ | ⟨rfl, -⟩⟩ := State.resume_cases h
    · exact .inl (modified hrun (.left ending hended) hother)
    · exact .inl (modified hrun (.left ending hended) hother)

theorem step_running (h : step host s e = some s')
    (hs : ∀ run ∈ s.runs, run.outcome = none → run.ending = none) :
    ∀ run ∈ s'.runs, run.outcome = none → run.ending = none := by
  intro other hother
  rcases step_runs h hother with hother | ⟨run, hrun, hstep⟩ | ⟨kind, rfl⟩
  · exact hs other hother
  · cases hstep with
    | finished outcome => exact nofun
    | left ending hended => exact fun hnone => absurd hnone hended
    | _ => exact hs run hrun
  · exact fun _ => rfl

/-- The run that a timeout is one of. -/
def Owns (s : State) (r : PreparationTimeoutRecord) (run : WatchedRun) : Prop :=
  s.runs[r.taskIdentity]? = some run ∧ run.kind = r.operationKind ∧ run.cancelRequested = true ∧
    (r.cleanupPending = true ↔ run.ending = none ∨ run.ending = some .raised)

/-- A step that keeps the timeout keeps the run that it is one of. -/
theorem step_owns (h : step host s e = some s') {r : PreparationTimeoutRecord}
    (hs : Owns s r run) (hbefore : s.timeout = some r) (hafter : s'.timeout = some r) :
    ∃ run, Owns s' r run := by
  obtain ⟨hrun, hkind, hrequested, hpending⟩ := hs
  cases hother : e.concerns r.taskIdentity with
  | false => exact ⟨run, step_run h hother hrun, hkind, hrequested, hpending⟩
  | true =>
    have same : ∀ {j}, decide (j = r.taskIdentity) = true → j = r.taskIdentity :=
      fun hj => of_decide_eq_true hj
    cases e with
    | watch j tick epoch =>
      obtain rfl := same hother
      obtain ⟨other, -, h⟩ := Option.bind_eq_some_iff.mp h
      obtain ⟨watcher, -, rfl⟩ | ⟨heartbeat, -, hnone, -⟩ := State.watch_cases h
      · exact ⟨_, modify_self _ hrun, hkind, hrequested, hpending⟩
      · rw [hnone] at hbefore
        cases hbefore
    | finish j outcome =>
      obtain rfl := same hother
      obtain ⟨other, -, h⟩ := Option.bind_eq_some_iff.mp h
      unfold State.finish at h
      split_ifs at h
      obtain rfl := Option.some.inj h
      exact ⟨_, modify_self _ hrun, hkind, hrequested, hpending⟩
    | cancel j =>
      obtain rfl := same hother
      obtain ⟨other, -, h⟩ := Option.bind_eq_some_iff.mp h
      unfold State.cancel at h
      split_ifs at h
      obtain rfl := Option.some.inj h
      exact ⟨_, modify_self _ hrun, hkind, rfl, hpending⟩
    | resume j =>
      obtain rfl := same hother
      obtain ⟨other, hother, h⟩ := Option.bind_eq_some_iff.mp h
      obtain rfl := Option.some.inj (hrun.symm.trans hother)
      have htimedOut : s.timedOut r.taskIdentity = true := by simp [State.timedOut, hbefore]
      obtain ⟨hnone, -, ending, ⟨rfl, hraised⟩ | ⟨rfl, -⟩⟩ := State.resume_cases h
      · rcases hraised with hfalse | rfl
        · rw [hfalse] at htimedOut
          cases htimedOut
        · exact ⟨_, modify_self _ hrun, hkind, hrequested,
            ⟨fun _ => .inr rfl, fun _ => hpending.mpr (.inl hnone)⟩⟩
      · have hcleaned : s.timeout.map (fun r => { r with cleanupPending := false }) = some r :=
          hafter
        rw [hbefore] at hcleaned
        have hdone := congrArg PreparationTimeoutRecord.cleanupPending (Option.some.inj hcleaned)
        rw [hpending.mpr (.inl hnone)] at hdone
        cases hdone
    | _ => cases hother

/-- A call has not ended before its task, and every timeout is one of a run. -/
structure Owned (s : State) : Prop where
  running : ∀ run ∈ s.runs, run.outcome = none → run.ending = none
  owner : ∀ r, s.timeout = some r → ∃ run, Owns s r run

theorem step_owned (h : step host s e = some s') (hs : Owned s) : Owned s' := by
  refine ⟨step_running h hs.running, fun r' htimeout => ?_⟩
  cases step_timeout h with
  | kept hsame _ =>
    obtain ⟨run, howns⟩ := hs.owner r' (hsame ▸ htimeout)
    exact step_owns h howns (hsame ▸ htimeout) htimeout
  | released _ hnone => rw [hnone] at htimeout; cases htimeout
  | fired i run heartbeat tick epoch _ hi _ _ houtcome _ _ hs' =>
    subst hs'
    obtain rfl := Option.some.inj htimeout
    have hending := hs.running run (List.mem_of_getElem? hi) houtcome
    exact ⟨_, modify_self _ hi, rfl, rfl, by simp [State.timeoutRecord, hending]⟩
  | cleaned i run ending _ hi htimedOut hending hs' =>
    subst hs'
    obtain ⟨r, hr, rfl⟩ := Option.map_eq_some_iff.mp htimeout
    obtain rfl : r.taskIdentity = i := by simpa [State.timedOut, hr] using htimedOut
    obtain ⟨owner, howner, hkind, hrequested, -⟩ := hs.owner r hr
    exact ⟨_, modify_self _ howner, hkind, hrequested, by simp [hending]⟩

/-- **The cleanup of a timeout is pending until the call has ended**, other than by an error of
its task, which was asked to stop. -/
theorem cleanup_settled (host : Host) (now : ℚ) {es : List Event} {s : State}
    {r : PreparationTimeoutRecord} (hrun : Transition.run (step host) (.initial now) es = some s)
    (htimeout : s.timeout = some r) :
    ∃ run, s.runs[r.taskIdentity]? = some run ∧ run.kind = r.operationKind ∧
      run.cancelRequested = true ∧
      (r.cleanupPending = true ↔ run.ending = none ∨ run.ending = some .raised) :=
  (Transition.run_always (I := Owned) (fun _ _ _ hs hstep => step_owned hstep hs)
    ⟨fun _ hmem => (by cases hmem), fun _ hr => (by cases hr)⟩ hrun).owner r htimeout

theorem cleanup_settled_download :
    ∃ s r, Transition.run (step quietHost) (.initial 0) (silentDownload ++
        [.watch 0 ⟨601, ['b']⟩ 601, .finish 0 .cancelled, .resume 0]) = some s ∧
      s.timeout = some r ∧ ∃ run, s.runs[r.taskIdentity]? = some run ∧
        run.kind = r.operationKind ∧ run.cancelRequested = true ∧
        (r.cleanupPending = true ↔ run.ending = none ∨ run.ending = some .raised) := by
  have hfires : ((Transition.run (step quietHost) (.initial 0) (silentDownload ++
      [.watch 0 ⟨601, ['b']⟩ 601, .finish 0 .cancelled, .resume 0])).map fun s =>
        s.timeout.isSome) = some true := by
    decide +kernel
  obtain ⟨s, hs, hsome⟩ := Option.map_eq_some_iff.mp hfires
  obtain ⟨r, hr⟩ := Option.isSome_iff_exists.mp hsome
  exact ⟨s, r, hs, hr, cleanup_settled quietHost 0 hs hr⟩

/-! ### A stall is reported -/

/-- When a watcher goes on. -/
def Watcher.dueAt : Watcher → Option ℚ
  | .created since => some since
  | .asleep wake => some wake
  | .ended => none

/-- The loop is at most `δ` behind with the watcher of the run `i`. -/
def punctual (δ : ℚ) (i : ℕ) (s : State) : Bool :=
  (s.runs[i]?).all fun run => run.watcher.dueAt.all fun t => s.now ≤ t + δ

theorem now_le_of_punctual {δ t : ℚ} (h : punctual δ i s = true) (hrun : s.runs[i]? = some run)
    (hdue : run.watcher.dueAt = some t) : s.now ≤ t + δ := by
  simpa [punctual, hrun, hdue] using h

/-- The step ends the run `i`, or makes the watchdog forget. -/
def Event.ends (i : ℕ) : Event → Bool
  | .clearProgress => true
  | .finish j _ | .resume j => j = i
  | _ => false

/-- The step records no heartbeat and neither ends the run nor releases a report. -/
def silent (host : Host) (i : ℕ) (s : State) (e : Event) : Bool :=
  (heartbeatOf host s e).isNone && !released s e && !e.ends i

theorem HeartbeatStep.now_le (h : HeartbeatStep host s e s') : s.now ≤ s'.now := by
  cases h with
  | kept _ hnow _ => exact hnow
  | dropped _ hnow _ _ => exact hnow
  | recorded _ _ hnow _ _ => exact hnow.ge

/-- **No watcher sleeps for longer than its interval.** -/
theorem run_waits {now : ℚ} {es : List Event}
    (h : Transition.run (step host) (.initial now) es = some s) :
    ∀ run ∈ s.runs, Waits host s.now run.watcher := by
  refine Transition.run_always (I := fun s => ∀ run ∈ s.runs, Waits host s.now run.watcher)
    (fun t e t' ht hstep other hother => ?_) (fun _ hrun => (by cases hrun)) h
  have hnow := (step_heartbeat hstep).now_le
  rcases step_runs hstep hother with hother | ⟨run, hrun, hchanged⟩ | ⟨kind, rfl⟩
  · exact (ht other hother).mono hnow
  · cases hchanged with
    | watched watcher hwaits => exact hwaits.mono hnow
    | timedOut => trivial
    | finished outcome => exact (ht run hrun).mono hnow
    | cancelled => exact (ht run hrun).mono hnow
    | left ending _ => trivial
  · exact hnow

/-- A watcher that waits for the heartbeat `h` to be due, and looks by `limit` and one interval;
the loop runs it at most `δ` behind its time. -/
structure Watched (host : Host) (δ limit : ℚ) (i : ℕ) (h : PreparationHeartbeat) (s : State) :
    Prop where
  heartbeat : s.heartbeat = some h
  run : ∃ run, s.runs[i]? = some run ∧ run.outcome = none ∧ State.foreign run h = false ∧
    run.kind.watches h.stage = true ∧
    ((∃ since, run.watcher = .created since ∧ since + δ ≤ limit) ∨
      ∃ wake, run.watcher = .asleep wake ∧ wake ≤ limit + host.pollSeconds)

theorem timeout_of_silent (hsilent : silent host i s e = true) (h : step host s e = some s')
    (hnone : s'.timeout = none) : s.timeout = none := by
  cases step_timeout h with
  | kept hsame _ => exact hsame ▸ hnone
  | released hreleased _ => simp [silent, hreleased] at hsilent
  | fired _ _ _ _ _ _ _ _ hbefore => exact hbefore
  | cleaned j run ending _ _ _ _ hs' =>
    subst hs'
    exact Option.map_eq_none_iff.mp hnone

/-- A watcher that looks does not sleep beyond the limit, or reports. -/
theorem watch_watched {δ limit : ℚ} {h : PreparationHeartbeat} (hs : Watched host δ limit i h s)
    (hpunctual : punctual δ i s = true)
    (hlimit : h.reference + host.timeoutSeconds h.stage ≤ limit) (hbefore : s.timeout = none)
    (hrun : s.runs[i]? = some run) (hwatch : s.watch host i run tick epoch = some s')
    (hnone : s'.timeout = none) : Watched host δ limit i h s' := by
  obtain ⟨hheartbeat, run', hrun', houtcome, hforeign, hwatches, hwaits⟩ := hs
  obtain rfl := Option.some.inj (hrun.symm.trans hrun')
  have asleep : ∀ {wake}, wake ≤ limit + host.pollSeconds →
      Watched host δ limit i h (s.setWatcher i (.asleep wake)) := fun hwake =>
    ⟨hheartbeat, _, modify_self _ hrun, houtcome, hforeign, hwatches, .inr ⟨_, rfl, hwake⟩⟩
  unfold State.watch at hwatch
  rcases hwaits with ⟨since, hwatcher, hsince⟩ | ⟨wake, hwatcher, -⟩
  · have hnow := now_le_of_punctual hpunctual hrun (t := since) (by rw [hwatcher]; rfl)
    rw [hwatcher, houtcome] at hwatch
    obtain rfl := Option.some.inj hwatch
    exact asleep (add_le_add_left (hnow.trans hsince) _)
  · rw [hwatcher, houtcome, hbefore, hheartbeat] at hwatch
    dsimp only at hwatch
    rw [hforeign] at hwatch
    split_ifs at hwatch with hearly hover hcontradiction hdue
    · simp at hover
    · cases hcontradiction
    · obtain rfl := Option.some.inj hwatch
      cases hnone
    · obtain rfl := Option.some.inj hwatch
      refine asleep (add_le_add_left ?_ _)
      have hyoung : ¬ host.timeoutSeconds h.stage ≤ s.now - h.reference := by
        simpa [State.due, hwatches] using hdue
      linarith

/-- **While nothing is heard and nothing reported, the watcher goes on watching.** -/
theorem step_watched {δ limit : ℚ} {h : PreparationHeartbeat} (hs : Watched host δ limit i h s)
    (hsilent : silent host i s e = true) (hpunctual : punctual δ i s = true)
    (hlimit : h.reference + host.timeoutSeconds h.stage ≤ limit)
    (hstep : step host s e = some s') (hnone : s'.timeout = none) :
    Watched host δ limit i h s' := by
  have hbefore := timeout_of_silent hsilent hstep hnone
  have hends : e.ends i = false := by
    simp only [silent, Bool.and_eq_true, Bool.not_eq_true'] at hsilent
    exact hsilent.2
  have hheartbeat : s'.heartbeat = some h := by
    cases step_heartbeat hstep with
    | kept _ _ hsame => exact hsame.trans hs.heartbeat
    | dropped _ _ _ hwhy =>
      rcases hwhy with htimeout | rfl
      · rw [hbefore] at htimeout
        cases htimeout
      · cases hends
    | recorded _ hrecorded _ _ _ => simp [silent, hrecorded] at hsilent
  obtain ⟨run, hrun, hwaits⟩ := hs.run
  cases hother : e.concerns i with
  | false => exact ⟨hheartbeat, run, step_run hstep hother hrun, hwaits⟩
  | true =>
    have same : ∀ {j}, decide (j = i) = true → j = i := fun hj => of_decide_eq_true hj
    cases e with
    | watch j tick epoch =>
      obtain rfl := same hother
      obtain ⟨run, hrun, hwatch⟩ := Option.bind_eq_some_iff.mp hstep
      exact watch_watched hs hpunctual hlimit hbefore hrun hwatch hnone
    | cancel j =>
      obtain rfl := same hother
      obtain ⟨other, hother, hstep⟩ := Option.bind_eq_some_iff.mp hstep
      unfold State.cancel at hstep
      split_ifs at hstep
      obtain rfl := Option.some.inj hstep
      exact ⟨hheartbeat, _, modify_self _ hrun, hwaits⟩
    | finish j outcome => cases hends.symm.trans hother
    | resume j => cases hends.symm.trans hother
    | _ => cases hother

theorem timeout_of_silent_run {δ : ℚ} {es : List Event}
    (hsilent : Transition.meets (step host) (fun s e => silent host i s e && punctual δ i s) s es =
      true) (h : Transition.run (step host) s es = some s') (hnone : s'.timeout = none) :
    s.timeout = none := by
  induction es generalizing s with
  | nil =>
    obtain rfl := Option.some.inj h
    exact hnone
  | cons e es ih =>
    obtain ⟨t, hstep, hrest⟩ := Transition.run_cons_eq_some.mp h
    obtain ⟨hfirst, hsilent⟩ := Transition.meets_cons hsilent hstep
    exact timeout_of_silent (Bool.and_eq_true_iff.mp hfirst).1 hstep (ih hsilent hrest)

theorem run_watched {δ limit : ℚ} {h : PreparationHeartbeat} {es : List Event}
    (hs : Watched host δ limit i h s)
    (hsilent : Transition.meets (step host) (fun s e => silent host i s e && punctual δ i s) s es =
      true)
    (hlimit : h.reference + host.timeoutSeconds h.stage ≤ limit)
    (hrun : Transition.run (step host) s es = some s') (hnone : s'.timeout = none) :
    Watched host δ limit i h s' := by
  induction es generalizing s with
  | nil =>
    obtain rfl := Option.some.inj hrun
    exact hs
  | cons e es ih =>
    obtain ⟨t, hstep, hrest⟩ := Transition.run_cons_eq_some.mp hrun
    obtain ⟨hfirst, hsilent⟩ := Transition.meets_cons hsilent hstep
    have ht := timeout_of_silent_run hsilent hrest hnone
    obtain ⟨hfirst, hpunctual⟩ := Bool.and_eq_true_iff.mp hfirst
    exact ih (step_watched hs hfirst hpunctual hlimit hstep ht) hsilent hrest

/-- A conversion whose download has begun, with its watcher asleep. -/
def begunDownload : List Event :=
  [.start .convert,
    .setProgress ⟨"downloading".toList, "Downloading".toList, none, none⟩ ⟨1, ['a']⟩ 1,
    .watch 0 ⟨1, ['a']⟩ 1]

end

end InferBridge.PreparationWatchdog
