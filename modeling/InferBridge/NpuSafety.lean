/-
InferBridge/NpuSafety.lean

Unverified INT4 models and the NPU.

A build chooses its device by what the catalog says about the model and by
the marker in its directory (LoadSafety).  A conversion to another format
publishes its output first and writes the catalog afterwards, and a load that
is scheduled in between is not deferred any more.

`Formats` is the view of the state that matters here; `Formats.Moves` lists
what a step does to it.

Main results.  In a run in which no conversion to INT4 is abandoned between
its publication and the write of the catalog, no conversion of the model
starts there and no build on the NPU starts there, every build on the NPU
finds a directory that is not INT4 or carries a verified profile
(`npu_build_verified`).  Otherwise it does not (`npu_build_unverified`).
-/
import InferBridge.ConversionVisibility

namespace InferBridge

variable {μ : Type*}

/-! ### Formats -/

/-- The converter process of the task has been started and the catalog not yet been written. -/
def ConvertPhase.writes : ConvertPhase → Bool
  | .converting _ _ _ _ | .persisting _ => true
  | _ => false

def Work.writes : Work μ → Bool
  | .conversion _ phase => phase.writes
  | _ => false

/-- The conversions, the formats that the catalog names, and those of the directories. -/
structure Formats (μ : Type*) where
  task : Nat → Work μ
  convertLock : Option Nat
  weightFormat : μ → WeightFormat
  format : μ → Option WeightFormat

def Preparation.formats (s : Preparation μ) : Formats μ where
  task := s.task
  convertLock := s.convertLock
  weightFormat := s.weightFormat
  format m := (s.artifact m).map (·.exported.weightFormat)

/-- The model whose directory a conversion has filled in INT4 while its catalog entry still
names another format. -/
def Formats.undescribed [DecidableEq μ] (f : Formats μ) (t : Nat) : Option μ :=
  match f.task t with
  | .conversion order (.converting _ _ exported true) =>
    if exported.weightFormat = .int4 ∧ f.weightFormat order.model ≠ .int4 then some order.model
    else none
  | .conversion order (.persisting _) =>
    if order.request.weightFormat = some .int4 ∧ f.weightFormat order.model ≠ .int4 then
      some order.model
    else none
  | _ => none

/-- The converter process or the write of the catalog fails or is cancelled. -/
def Preparation.abandons (s : Preparation μ) (t : Nat) : PreparationEvent μ → Bool
  | .endProcess t' ok | .persist t' ok => t' = t && !ok
  | .cancel t' _ =>
    match s.task t' with
    | .load _ (.converting c) => c = t
    | .load _ _ => false
    | _ => t' = t
  | _ => false

/-- Nothing happens to the conversions that write, and directories may be removed. -/
structure Formats.Keeps (f f' : Formats μ) : Prop where
  weightFormat : f'.weightFormat = f.weightFormat
  format : ∀ m, f'.format m = f.format m ∨ f'.format m = none
  convertLock : f'.convertLock = f.convertLock
  task : ∀ t order phase, phase.writes = true →
    (f'.task t = .conversion order phase ↔ f.task t = .conversion order phase)

variable [DecidableEq μ]

/-- What a step does to the formats. -/
inductive Formats.Moves (cfg : PreparationSettings μ) (s : Preparation μ) (e : PreparationEvent μ) :
    Formats μ → Prop where
  | keep (f : Formats μ) (hkeeps : s.formats.Keeps f) : Moves cfg s e f
  | start (t : Nat) (order : ConversionOrder μ) (wasDownloaded : Bool)
      (profile exported : ConversionProfile) (he : e = .enterConversion t)
      (ht : s.task t = .conversion order (.waitLock wasDownloaded profile))
      (hneeded : ¬ (s.isDownloaded order.model ∧ order.request.weightFormat = none))
      (hlock : s.convertLock = none)
      (hexported : exported.weightFormat =
        order.request.weightFormat.getD (s.weightFormat order.model)) :
      Moves cfg s e
        { s.formats with
          task := Function.update s.task t
            (.conversion order (.converting wasDownloaded profile exported false))
          convertLock := some t }
  | publish (t : Nat) (order : ConversionOrder μ) (wasDownloaded : Bool)
      (profile exported : ConversionProfile)
      (ht : s.task t = .conversion order (.converting wasDownloaded profile exported false)) :
      Moves cfg s e
        { s.formats with
          task := Function.update s.task t
            (.conversion order (.converting wasDownloaded profile exported true))
          format := Function.update s.formats.format order.model (some exported.weightFormat) }
  | persisting (t : Nat) (order : ConversionOrder μ) (wasDownloaded : Bool)
      (profile exported : ConversionProfile) (format : WeightFormat)
      (ht : s.task t = .conversion order (.converting wasDownloaded profile exported true))
      (hformat : order.request.weightFormat = some format) :
      Moves cfg s e
        { s.formats with
          task := Function.update s.task t (.conversion order (.persisting profile))
          convertLock := (s.releaseConvertLock t).convertLock }
  | persist (t : Nat) (order : ConversionOrder μ) (profile : ConversionProfile)
      (ht : s.task t = .conversion order (.persisting profile)) :
      Moves cfg s e
        { s.formats with
          task := Function.update s.task t (.conversion order (.recording profile))
          weightFormat := Function.update s.weightFormat order.model
            (order.request.weightFormat.getD (s.weightFormat order.model)) }
  | leaveProcess (t : Nat) (order : ConversionOrder μ) (wasDownloaded : Bool)
      (profile exported : ConversionProfile) (published : Bool) (phase' : ConvertPhase)
      (ht : s.task t = .conversion order (.converting wasDownloaded profile exported published))
      (hphase' : phase'.writes = false)
      (hwhy : s.abandons t e = true ∨ order.request.weightFormat = none ∨
        order.request.weightFormat = some (s.weightFormat order.model) ∨
        s.artifact order.model = none) :
      Moves cfg s e
        { s.formats with
          task := Function.update s.task t (.conversion order phase')
          convertLock := (s.releaseConvertLock t).convertLock }
  | leavePersist (t : Nat) (order : ConversionOrder μ) (profile : ConversionProfile)
      (phase' : ConvertPhase) (ht : s.task t = .conversion order (.persisting profile))
      (hphase' : phase'.writes = false) (hwhy : s.abandons t e = true) :
      Moves cfg s e { s.formats with task := Function.update s.task t (.conversion order phase') }

variable {cfg : PreparationSettings μ} {s s' : Preparation μ} {e : PreparationEvent μ}
  {f f' f'' : Formats μ} {t : Nat} {m : μ} {order : ConversionOrder μ}

/-! ### Steps that keep the formats -/

section
variable {work : Work μ}

omit [DecidableEq μ] in
theorem Formats.Keeps.refl : f.Keeps f :=
  ⟨rfl, fun _ => .inl rfl, rfl, fun _ _ _ _ => Iff.rfl⟩

omit [DecidableEq μ] in
theorem Formats.Keeps.trans (h : f.Keeps f') (h' : f'.Keeps f'') : f.Keeps f'' where
  weightFormat := h'.weightFormat.trans h.weightFormat
  format := by
    intro m
    rcases h'.format m with hsame | hnone
    · rw [hsame]
      exact h.format m
    · exact .inr hnone
  convertLock := h'.convertLock.trans h.convertLock
  task := by
    intro t order phase hwrites
    rw [h'.task t order phase hwrites]
    exact h.task t order phase hwrites

omit [DecidableEq μ] in
/-- A task that does not write goes on without writing. -/
theorem goTo_keeps (hsame : s'.formats = s.formats) (ht : (s.task t).writes = false)
    (hwork : work.writes = false) : s.formats.Keeps (s'.goTo t work).formats := by
  have hformats : (s'.goTo t work).formats =
      { s.formats with task := Function.update s.task t work } := by
    rw [← show s'.task = s.task from congrArg Formats.task hsame, ← hsame]
    rfl
  rw [hformats]
  refine ⟨rfl, fun _ => .inl rfl, rfl, ?_⟩
  intro t' order phase hwrites
  show Function.update s.task t work t' = _ ↔ s.task t' = _
  rw [Function.update_apply]
  split
  · next heq =>
    subst heq
    constructor
    · rintro rfl
      rw [Work.writes, hwrites] at hwork
      cases hwork
    · intro heq
      rw [heq, Work.writes, hwrites] at ht
      cases ht
  · exact Iff.rfl

omit [DecidableEq μ] in
theorem keeps_spawn (h : s.registers.Ordered) (hwork : work.writes = false) :
    s.formats.Keeps (s.spawn work).formats := by
  have hfresh : s.task s.nextTask = .absent := h.fresh s.nextTask le_rfl
  exact goTo_keeps rfl (by rw [hfresh]; rfl) hwork

@[simp] theorem formats_setStatus {status : Option Status} :
    (s.setStatus m status).formats = s.formats := rfl

@[simp] theorem formats_popConversion : (s.popConversion m).formats = s.formats := rfl

omit [DecidableEq μ] in
@[simp] theorem formats_releaseLoadLock : (s.releaseLoadLock t).formats = s.formats := by
  unfold Preparation.releaseLoadLock
  split <;> rfl

omit [DecidableEq μ] in
theorem formats_releaseConvertLock : ((s.releaseConvertLock t).goTo t work).formats =
    { s.formats with
      task := Function.update s.task t work
      convertLock := (s.releaseConvertLock t).convertLock } := by
  unfold Preparation.releaseConvertLock
  split <;> rfl

omit [DecidableEq μ] in
theorem Preparation.format_apply : s.formats.format m =
    (s.artifact m).map (·.exported.weightFormat) := rfl

theorem formats_setArtifact {artifact : Option Artifact} :
    (s.setArtifact m artifact).formats =
      { s.formats with
        format := Function.update s.formats.format m
          (artifact.map (·.exported.weightFormat)) } := by
  unfold Preparation.formats Preparation.setArtifact
  congr 1
  funext m'
  show (Function.update s.artifact m artifact m').map _ = _
  rw [Function.update_apply, Function.update_apply]
  split <;> rfl

/-- The marker of a directory is not its format. -/
theorem setMarker_keeps {marker : Option LoadProfile} (h : s.formats.Keeps s'.formats)
    (hsame : s'.artifact = s.artifact) :
    s.formats.Keeps
      (s'.setArtifact m ((s.artifact m).map fun a => { a with profile := marker })).formats := by
  have hformat : ((s.artifact m).map fun a => { a with profile := marker }).map
      (·.exported.weightFormat) = s'.formats.format m := by
    rw [Preparation.format_apply, hsame, Option.map_map]
    rfl
  rw [formats_setArtifact, hformat, Function.update_eq_self]
  exact h

end

theorem scheduleLoad_keeps (ho : s.registers.Ordered) {device : Option DeviceExpression}
    {followups : μ → Option DeviceExpression} {callbacks : μ → Option Nat} :
    s.formats.Keeps
      (Preparation.scheduleLoad cfg { s with followups, callbacks } m device).formats := by
  unfold Preparation.scheduleLoad
  dsimp only
  split
  · exact .refl
  · split
    · exact .refl
    · split
      · exact .refl
      · split
        · exact .refl
        · split
          · exact .refl
          · exact keeps_spawn ho rfl

theorem scheduleConvert_keeps (ho : s.registers.Ordered) {device : Option DeviceExpression}
    {loadAfter : Bool} {request : Quantization} :
    s.formats.Keeps (s.scheduleConvert cfg m device loadAfter request).formats := by
  unfold Preparation.scheduleConvert
  dsimp only
  split
  · exact .refl
  · split
    · split <;> exact .refl
    · split
      · exact .refl
      · split
        · split
          · exact scheduleLoad_keeps ho
          · exact .refl
        · have hspawn : s.formats.Keeps
              (s.spawn (.conversion { model := m, device := device.getD cfg.device, request }
                .queued)).formats := keeps_spawn ho rfl
          split <;> exact hspawn

theorem finishLoad_keeps (hsame : s'.formats = s.formats) (ht : (s.task t).writes = false)
    {status : Option Status} : s.formats.Keeps (s'.finishLoad t m status).formats := by
  have hfinish : s.formats.Keeps
      (((s'.setStatus m status).releaseLoadLock t).goTo t (.load m .finished)).formats := by
    exact goTo_keeps (by simpa using hsame) ht rfl
  exact hfinish

theorem failLoad_keeps (hsame : s'.formats = s.formats) (ht : (s.task t).writes = false) :
    s.formats.Keeps (s'.failLoad t m).formats := finishLoad_keeps hsame ht

/-- A directory is removed. -/
theorem endErasure_keeps {kind : Erasure} : s.formats.Keeps (s.endErasure m kind).formats := by
  have hremoved : s.formats.Keeps (s.setArtifact m none).formats := by
    rw [formats_setArtifact]
    refine ⟨rfl, ?_, rfl, fun _ _ _ _ => Iff.rfl⟩
    intro m'
    show Function.update s.formats.format m (Option.map _ none) m' = _ ∨
      Function.update s.formats.format m (Option.map _ none) m' = none
    rw [Function.update_apply]
    split
    · exact .inr rfl
    · exact .inl rfl
  cases kind <;> exact hremoved

/-! ### Every step -/

theorem cancelConversion_formats {watchdog : Bool} {phase : ConvertPhase}
    (ht : s.task t = .conversion order phase) (hwhy : s.abandons t e = true)
    (hstep : s.cancelConversion t order watchdog phase = some s') :
    Formats.Moves cfg s e s'.formats := by
  have hkeeps (hphase : phase.writes = false) (s₁ : Preparation μ) (phase' : ConvertPhase)
      (hsame : s₁.formats = s.formats) (hphase' : phase'.writes = false) :
      Formats.Moves cfg s e (s₁.goTo t (.conversion order phase')).formats := by
    exact .keep _ (goTo_keeps hsame (by rw [ht]; exact hphase) hphase')
  cases phase with
  | converting wasDownloaded profile exported published =>
    obtain rfl := Option.some.inj hstep
    rw [formats_releaseConvertLock]
    exact .leaveProcess t order wasDownloaded profile exported published (.terminating watchdog) ht
      rfl (.inl hwhy)
  | persisting profile =>
    obtain rfl := Option.some.inj hstep
    exact .leavePersist t order profile (.finished !watchdog) ht rfl hwhy
  | returned cancelled => cases hstep
  | queued =>
    obtain rfl := Option.some.inj hstep
    exact hkeeps rfl s _ rfl rfl
  | preflight =>
    obtain rfl := Option.some.inj hstep
    exact hkeeps rfl s _ rfl rfl
  | profiling wasDownloaded =>
    obtain rfl := Option.some.inj hstep
    exact hkeeps rfl s _ rfl rfl
  | waitLock wasDownloaded profile =>
    obtain rfl := Option.some.inj hstep
    exact hkeeps rfl ((s.setStatus _ _).popConversion _) _ rfl rfl
  | terminating first =>
    obtain rfl := Option.some.inj hstep
    exact hkeeps rfl s _ rfl rfl
  | recording profile =>
    obtain rfl := Option.some.inj hstep
    exact hkeeps rfl s _ rfl rfl
  | measuring =>
    obtain rfl := Option.some.inj hstep
    exact hkeeps rfl s _ rfl rfl
  | finished cancelled =>
    obtain rfl := Option.some.inj hstep
    exact hkeeps rfl s _ rfl rfl

theorem cancelLoad_formats {phase : LoadPhase} {watchdog : Bool} (ht : s.task t = .load m phase)
    (hstep : s.cancelLoad t m phase = some s') :
    Formats.Moves cfg s (.cancel t watchdog) s'.formats := by
  have hidle : (s.task t).writes = false := by rw [ht]; rfl
  cases phase with
  | converting c =>
    unfold Preparation.cancelLoad at hstep
    dsimp only at hstep
    split at hstep
    · next order phase hc =>
      apply cancelConversion_formats hc _ hstep
      simp [Preparation.abandons, ht]
    · cases hstep
  | queued =>
    obtain rfl := Option.some.inj hstep
    exact .keep _ (goTo_keeps rfl hidle rfl)
  | waitLock =>
    obtain rfl := Option.some.inj hstep
    exact .keep _ (finishLoad_keeps rfl hidle)
  | handoff device =>
    obtain rfl := Option.some.inj hstep
    exact .keep _ (finishLoad_keeps rfl hidle)
  | settling =>
    obtain rfl := Option.some.inj hstep
    exact .keep _ (finishLoad_keeps rfl hidle)
  | building device =>
    obtain rfl := Option.some.inj hstep
    exact .keep _ (goTo_keeps rfl hidle rfl)
  | finished => cases hstep
  | returned => cases hstep

/-- The end of a core body that did not run the converter, or of one that failed before. -/
theorem afterCore_keeps {wasDownloaded : Bool} {profile : ConversionProfile}
    (hsame : s'.formats = s.formats) (ht : (s.task t).writes = false)
    (hrequest : order.request.weightFormat = none) :
    s.formats.Keeps (s'.afterCore t order wasDownloaded profile).formats := by
  unfold Preparation.afterCore
  simp only [hrequest]
  split
  · exact goTo_keeps hsame ht rfl
  · split
    · exact goTo_keeps hsame ht rfl
    · exact goTo_keeps (by simpa using hsame) ht rfl

theorem endProcess_formats {wasDownloaded published ok : Bool} {profile exported : ConversionProfile}
    (ht : s.task t = .conversion order (.converting wasDownloaded profile exported published))
    (hpublished : ok = true → published = true) :
    Formats.Moves cfg s (.endProcess t ok)
      (s.endProcess t order wasDownloaded profile ok).formats := by
  have hleave (phase' : ConvertPhase) (hphase' : phase'.writes = false)
      (hwhy : s.abandons t (.endProcess t ok) = true ∨ order.request.weightFormat = none ∨
        order.request.weightFormat = some (s.weightFormat order.model) ∨
        s.artifact order.model = none) :
      Formats.Moves cfg s (.endProcess t ok)
        ((s.releaseConvertLock t).goTo t (.conversion order phase')).formats := by
    rw [formats_releaseConvertLock]
    exact .leaveProcess t order wasDownloaded profile exported published phase' ht hphase' hwhy
  have hartifact : (s.releaseConvertLock t).artifact = s.artifact := by
    unfold Preparation.releaseConvertLock
    split <;> rfl
  have hformat : (s.releaseConvertLock t).weightFormat = s.weightFormat := by
    unfold Preparation.releaseConvertLock
    split <;> rfl
  unfold Preparation.endProcess
  dsimp only
  cases ok with
  | false =>
    rw [if_neg Bool.false_ne_true]
    exact hleave _ rfl (.inl (by simp [Preparation.abandons]))
  | true =>
    obtain rfl := hpublished rfl
    rw [if_pos rfl]
    unfold Preparation.afterCore
    split
    · next hskip => exact hleave _ rfl (.inr (.inl hskip.2))
    · split
      · split
        · next hrequest => exact hleave _ rfl (.inr (.inl hrequest))
        · next format hrequest =>
          split
          · next hsame =>
            have hsame' : s.weightFormat order.model = format := by
              rw [← hformat]
              exact hsame
            exact hleave _ rfl (.inr (.inr (.inl (by rw [hrequest, hsame']))))
          · have hpersisting : Formats.Moves cfg s (.endProcess t true)
                ((s.releaseConvertLock t).goTo t (.conversion order (.persisting profile))).formats := by
              rw [formats_releaseConvertLock]
              exact .persisting t order wasDownloaded profile exported format ht hrequest
            exact hpersisting
      · next hmissing =>
        have hmissing' : ¬ ((s.releaseConvertLock t).artifact order.model).isSome = true := hmissing
        rw [hartifact, Option.not_isSome_iff_eq_none] at hmissing'
        exact hleave _ rfl (.inr (.inr (.inr hmissing')))

theorem enterConversion_formats {wasDownloaded : Bool} {profile : ConversionProfile}
    (ht : s.task t = .conversion order (.waitLock wasDownloaded profile))
    (hlock : s.convertLock = none) :
    Formats.Moves cfg s (.enterConversion t)
      (s.enterConversion cfg t order wasDownloaded profile).formats := by
  have hidle : (s.task t).writes = false := by rw [ht]; rfl
  unfold Preparation.enterConversion
  split
  · next hskip => exact .keep _ (afterCore_keeps rfl hidle hskip.2)
  · next hneeded =>
    split
    · exact .start t order wasDownloaded profile _ rfl ht hneeded hlock rfl
    · exact .keep _ (goTo_keeps rfl hidle rfl)

/-- A step does one of the changes of `Formats.Moves`. -/
theorem step_formats (ho : s.registers.Ordered) (hstep : s.step cfg e = some s') :
    Formats.Moves cfg s e s'.formats := by
  cases e with
  | scheduleLoad m device =>
    obtain rfl := Option.some.inj hstep
    exact .keep _ (scheduleLoad_keeps ho)
  | scheduleConvert m device loadAfter request =>
    obtain rfl := Option.some.inj hstep
    exact .keep _ (scheduleConvert_keeps ho)
  | startConversion t =>
    simp only [Preparation.step] at hstep
    split at hstep
    · next order ht =>
      obtain rfl := Option.some.inj hstep
      have hidle : (s.task t).writes = false := by rw [ht]; rfl
      unfold Preparation.startConversion
      split <;> exact .keep _ (goTo_keeps rfl hidle rfl)
    · cases hstep
  | endPreflight t granted =>
    simp only [Preparation.step] at hstep
    split at hstep
    · next order ht =>
      obtain rfl := Option.some.inj hstep
      have hidle : (s.task t).writes = false := by rw [ht]; rfl
      unfold Preparation.afterPreflight
      split <;> exact .keep _ (goTo_keeps rfl hidle rfl)
    · cases hstep
  | readArchitecture t npuGroupSize invalidated =>
    simp only [Preparation.step] at hstep
    split at hstep
    · next order wasDownloaded ht =>
      obtain rfl := Option.some.inj hstep
      have hidle : (s.task t).writes = false := by rw [ht]; rfl
      unfold Preparation.afterArchitecture
      dsimp only
      split
      · split
        · exact .keep _ (setMarker_keeps (goTo_keeps rfl hidle rfl) rfl)
        · exact .keep _ (goTo_keeps rfl hidle rfl)
      · exact .keep _ (goTo_keeps rfl hidle rfl)
    · cases hstep
  | enterConversion t =>
    simp only [Preparation.step] at hstep
    split at hstep
    · next order wasDownloaded profile ht hfree =>
      obtain rfl := Option.some.inj hstep
      exact enterConversion_formats ht hfree
    · cases hstep
  | publish t =>
    simp only [Preparation.step] at hstep
    split at hstep
    · next order wasDownloaded profile exported ht =>
      obtain rfl := Option.some.inj hstep
      have hpublish : Formats.Moves cfg s (.publish t)
          ((s.goTo t (.conversion order (.converting wasDownloaded profile exported true))).setArtifact
            order.model (some { exported })).formats := by
        rw [formats_setArtifact]
        exact .publish t order wasDownloaded profile exported ht
      exact hpublish
    · cases hstep
  | endProcess t ok =>
    simp only [Preparation.step] at hstep
    split at hstep
    · next order wasDownloaded profile exported published ht =>
      split at hstep
      · cases hstep
      · next hpublished =>
        obtain rfl := Option.some.inj hstep
        apply endProcess_formats ht
        intro hok
        simpa [hok] using hpublished
    · cases hstep
  | persist t ok =>
    simp only [Preparation.step] at hstep
    split at hstep
    · next order profile ht =>
      obtain rfl := Option.some.inj hstep
      unfold Preparation.persist
      cases ok with
      | true => exact .persist t order profile ht
      | false =>
        exact .leavePersist t order profile (.finished false) ht rfl
          (by simp [Preparation.abandons])
    · cases hstep
  | record t ok =>
    simp only [Preparation.step] at hstep
    split at hstep
    · next order profile ht =>
      obtain rfl := Option.some.inj hstep
      have hmeasure : s.formats.Keeps (s.goTo t (.conversion order .measuring)).formats :=
        goTo_keeps rfl (by rw [ht]; rfl) rfl
      unfold Preparation.record
      dsimp only
      split
      · exact .keep _ (setMarker_keeps hmeasure rfl)
      · exact .keep _ hmeasure
    · cases hstep
  | measure t =>
    simp only [Preparation.step] at hstep
    split at hstep
    · next order ht =>
      obtain rfl := Option.some.inj hstep
      exact .keep _ (goTo_keeps rfl (by rw [ht]; rfl) rfl)
    · cases hstep
  | endTermination t =>
    simp only [Preparation.step] at hstep
    split at hstep
    · next order watchdog ht =>
      obtain rfl := Option.some.inj hstep
      exact .keep _ (goTo_keeps (by simp) (by rw [ht]; rfl) rfl)
    · cases hstep
  | returnConversion t =>
    simp only [Preparation.step] at hstep
    split at hstep
    · next order cancelled ht =>
      obtain rfl := Option.some.inj hstep
      exact .keep _ (goTo_keeps rfl (by rw [ht]; rfl) rfl)
    · cases hstep
  | runCallback t =>
    simp only [Preparation.step] at hstep
    split at hstep
    · obtain rfl := Option.some.inj hstep
      unfold Preparation.runCallback
      split
      · dsimp only
        split
        · exact .keep _ .refl
        · split
          · exact .keep _ .refl
          · exact .keep _ (scheduleLoad_keeps ho)
      · exact .keep _ .refl
    · cases hstep
  | startLoad t go =>
    simp only [Preparation.step] at hstep
    split at hstep
    · next m ht =>
      obtain rfl := Option.some.inj hstep
      have hidle : (s.task t).writes = false := by rw [ht]; rfl
      unfold Preparation.startLoad
      split
      · exact .keep _ (goTo_keeps rfl hidle rfl)
      · exact .keep _ (finishLoad_keeps rfl hidle)
    · cases hstep
  | enterLoad t device go =>
    simp only [Preparation.step] at hstep
    split at hstep
    · next m ht hfree =>
      obtain rfl := Option.some.inj hstep
      have hidle : (s.task t).writes = false := by rw [ht]; rfl
      unfold Preparation.enterLoad
      dsimp only
      split
      · split
        · exact .keep _ (goTo_keeps rfl hidle rfl)
        · have hspawn : s.formats.Keeps (s.spawn (.conversion { model := m, device, owner := some t }
              .queued)).formats := keeps_spawn ho rfl
          have hidle' : ((s.spawn (.conversion { model := m, device, owner := some t }
              .queued)).task t).writes = false := by
            show (Function.update s.task s.nextTask _ t).writes = false
            rw [Function.update_apply]
            split
            · rfl
            · exact hidle
          exact .keep _ (hspawn.trans (goTo_keeps rfl hidle' rfl))
      · exact .keep _ (failLoad_keeps rfl hidle)
    · cases hstep
  | resumeLoad t device go =>
    simp only [Preparation.step] at hstep
    split at hstep
    · next m c ht =>
      have hidle : (s.task t).writes = false := by rw [ht]; rfl
      split at hstep
      · obtain rfl := Option.some.inj hstep
        unfold Preparation.afterConversion
        split
        · exact .keep _ (finishLoad_keeps rfl hidle)
        · split
          · split
            · exact .keep _ (goTo_keeps rfl hidle rfl)
            · exact .keep _ (goTo_keeps (by simp) hidle rfl)
          · exact .keep _ (finishLoad_keeps rfl hidle)
      · cases hstep
    · cases hstep
  | endBuild t built =>
    simp only [Preparation.step] at hstep
    split at hstep
    · next m device ht =>
      obtain rfl := Option.some.inj hstep
      have hidle : (s.task t).writes = false := by rw [ht]; rfl
      unfold Preparation.endBuild
      split
      · split
        · exact .keep _ (goTo_keeps rfl hidle rfl)
        · exact .keep _ (finishLoad_keeps rfl hidle)
      · exact .keep _ (finishLoad_keeps rfl hidle)
    · next m ht =>
      obtain rfl := Option.some.inj hstep
      exact .keep _ (finishLoad_keeps rfl (by rw [ht]; rfl))
    · cases hstep
  | handoff t go =>
    simp only [Preparation.step] at hstep
    split at hstep
    · next m device ht =>
      obtain rfl := Option.some.inj hstep
      have hidle : (s.task t).writes = false := by rw [ht]; rfl
      unfold Preparation.handoff
      split
      · have hfinish : s.formats.Keeps (s.finishLoad t m none).formats := finishLoad_keeps rfl hidle
        exact .keep _ hfinish
      · exact .keep _ (goTo_keeps (by simp) hidle rfl)
    · cases hstep
  | returnLoad t =>
    simp only [Preparation.step] at hstep
    split at hstep
    · next m ht =>
      obtain rfl := Option.some.inj hstep
      exact .keep _ (goTo_keeps rfl (by rw [ht]; rfl) rfl)
    · cases hstep
  | cancel t watchdog =>
    simp only [Preparation.step] at hstep
    split at hstep
    · next m phase ht => exact cancelLoad_formats ht hstep
    · next order phase ht =>
      split at hstep
      · cases hstep
      · exact cancelConversion_formats ht (by simp [Preparation.abandons, ht]) hstep
    · cases hstep
  | startDelete m =>
    obtain rfl := Option.some.inj hstep
    unfold Preparation.startDelete
    split <;> exact .keep _ .refl
  | startRemoval m refusesLoaded =>
    obtain rfl := Option.some.inj hstep
    unfold Preparation.startRemoval
    split <;> exact .keep _ .refl
  | endErasure m kind =>
    simp only [Preparation.step] at hstep
    split at hstep
    · obtain rfl := Option.some.inj hstep
      exact .keep _ endErasure_keeps
    · cases hstep
  | endRecovery m =>
    simp only [Preparation.step] at hstep
    split at hstep
    · obtain rfl := Option.some.inj hstep
      exact .keep _ .refl
    · cases hstep
  | unload m =>
    simp only [Preparation.step] at hstep
    split at hstep
    · obtain rfl := Option.some.inj hstep
      exact .keep _ .refl
    · cases hstep

/-! ### What the catalog says -/

/-- The catalog describes the directories, up to the conversions that write. -/
structure Formats.Described (f : Formats μ) : Prop where
  /-- a converter process runs under the lock, -/
  lock : ∀ t order wasDownloaded profile exported published,
    f.task t = .conversion order (.converting wasDownloaded profile exported published) →
      f.convertLock = some t
  /-- with the format of its request or else of the catalog, -/
  exported : ∀ t order wasDownloaded profile exported published,
    f.task t = .conversion order (.converting wasDownloaded profile exported published) →
      exported.weightFormat = order.request.weightFormat.getD (f.weightFormat order.model)
  /-- which the directory has once it is published, -/
  published : ∀ t order wasDownloaded profile exported,
    f.task t = .conversion order (.converting wasDownloaded profile exported true) →
      f.format order.model = none ∨ f.format order.model = some exported.weightFormat
  /-- and which is then persisted; -/
  requested : ∀ t order profile, f.task t = .conversion order (.persisting profile) →
    f.format order.model = none ∨ f.format order.model = order.request.weightFormat
  /-- the conversions of a model take turns, -/
  turns : ∀ t t' order order' phase profile, f.task t = .conversion order phase →
    phase.writes = true → f.task t' = .conversion order' (.persisting profile) →
      order.model = order'.model → t = t'
  /-- and INT4 is in the catalog or about to be. -/
  int4 : ∀ m, f.format m = some .int4 →
    f.weightFormat m = .int4 ∨ ∃ t, f.undescribed t = some m

omit [DecidableEq μ] in
theorem Formats.Keeps.writes {f f' : Formats μ} (h : f.Keeps f') {phase : ConvertPhase}
    (ht : f'.task t = .conversion order phase) (hwrites : phase.writes = true) :
    f.task t = .conversion order phase :=
  (h.task t order phase hwrites).mp ht

/-- The models that a conversion has left undescribed. -/
theorem Formats.undescribed_eq_some {f : Formats μ} : f.undescribed t = some m ↔
    f.weightFormat m ≠ .int4 ∧ ∃ order phase, f.task t = .conversion order phase ∧
      order.model = m ∧
      ((∃ wasDownloaded profile exported, phase = .converting wasDownloaded profile exported true ∧
          exported.weightFormat = .int4) ∨
        ∃ profile, phase = .persisting profile ∧ order.request.weightFormat = some .int4) := by
  unfold Formats.undescribed
  constructor
  · intro h
    split at h
    · next order wasDownloaded profile exported ht =>
      split at h
      · next hint4 =>
        obtain rfl := Option.some.inj h
        exact ⟨hint4.2, order, _, ht, rfl, .inl ⟨_, _, exported, rfl, hint4.1⟩⟩
      · cases h
    · next order profile ht =>
      split at h
      · next hint4 =>
        obtain rfl := Option.some.inj h
        exact ⟨hint4.2, order, _, ht, rfl, .inr ⟨profile, rfl, hint4.1⟩⟩
      · cases h
    · cases h
  · rintro ⟨hcatalog, order, phase, ht, rfl, ⟨_, _, exported, rfl, hint4⟩ | ⟨profile, rfl, hint4⟩⟩
    · simp [ht, hint4, hcatalog]
    · simp [ht, hint4, hcatalog]

theorem Formats.Described.keep (h : f.Described) (hkeeps : f.Keeps f') : f'.Described where
  lock := by
    intro t order wasDownloaded profile exported published ht
    rw [hkeeps.convertLock]
    exact h.lock _ _ _ _ _ _ (hkeeps.writes ht rfl)
  exported := by
    intro t order wasDownloaded profile exported published ht
    rw [hkeeps.weightFormat]
    exact h.exported _ _ _ _ _ _ (hkeeps.writes ht rfl)
  published := by
    intro t order wasDownloaded profile exported ht
    rcases hkeeps.format order.model with hsame | hnone
    · rw [hsame]
      exact h.published _ _ _ _ _ (hkeeps.writes ht rfl)
    · exact .inl hnone
  requested := by
    intro t order profile ht
    rcases hkeeps.format order.model with hsame | hnone
    · rw [hsame]
      exact h.requested _ _ _ (hkeeps.writes ht rfl)
    · exact .inl hnone
  turns := by
    intro t t' order order' phase profile ht hwrites ht' hmodel
    exact h.turns _ _ _ _ _ _ (hkeeps.writes ht hwrites) hwrites (hkeeps.writes ht' rfl) hmodel
  int4 := by
    intro m hm
    rcases hkeeps.format m with hsame | hnone
    · rw [hsame] at hm
      rcases h.int4 m hm with hcatalog | ⟨t, ht⟩
      · left
        rw [hkeeps.weightFormat]
        exact hcatalog
      · right
        obtain ⟨hcatalog, order, phase, htask, hmodel, hphase⟩ := undescribed_eq_some.mp ht
        have hwrites : phase.writes = true := by
          rcases hphase with ⟨_, _, _, rfl, -⟩ | ⟨_, rfl, -⟩ <;> rfl
        refine ⟨t, undescribed_eq_some.mpr ⟨?_, order, phase, ?_, hmodel, hphase⟩⟩
        · rw [hkeeps.weightFormat]
          exact hcatalog
        · exact (hkeeps.task t order phase hwrites).mpr htask
    · rw [hnone] at hm
      cases hm

section
variable {wasDownloaded published : Bool} {profile exported : ConversionProfile}

omit [DecidableEq μ] in
/-- A task other than the one that goes on. -/
theorem task_of_update {work work' : Work μ} {t' : Nat}
    (ht' : Function.update f.task t work t' = work') (hne : t' ≠ t) : f.task t' = work' := by
  rwa [Function.update_of_ne hne] at ht'

omit [DecidableEq μ] in
theorem eq_of_update {work work' : Work μ} (ht : Function.update f.task t work t = work') :
    work = work' := by
  rwa [Function.update_self] at ht

/-- A model that is left undescribed stays so where its conversion does. -/
theorem Formats.undescribed_congr {t' : Nat} (hundescribed : f.undescribed t' = some m)
    (htask : f'.task t' = f.task t') (hcatalog : f'.weightFormat m = f.weightFormat m) :
    f'.undescribed t' = some m := by
  obtain ⟨hformat, order, phase, ht', hmodel, hphase⟩ := undescribed_eq_some.mp hundescribed
  refine undescribed_eq_some.mpr ⟨?_, order, phase, ?_, hmodel, hphase⟩
  · rw [hcatalog]
    exact hformat
  · rw [htask]
    exact ht'

omit [DecidableEq μ] in
theorem Formats.Described.lock_unique [DecidableEq μ] (h : f.Described) {t' : Nat}
    {order' : ConversionOrder μ} {wasDownloaded' published' : Bool}
    {profile' exported' : ConversionProfile}
    (ht : f.task t = .conversion order (.converting wasDownloaded profile exported published))
    (ht' : f.task t' = .conversion order' (.converting wasDownloaded' profile' exported' published')) :
    t' = t := by
  have hlock := h.lock t' order' wasDownloaded' profile' exported' published' ht'
  rw [h.lock t order wasDownloaded profile exported published ht] at hlock
  exact (Option.some.inj hlock).symm

/-- A converter process is started. -/
theorem Formats.Described.start (h : f.Described) (hwaits : (f.task t).writes = false)
    (hlock : f.convertLock = none)
    (hexported : exported.weightFormat =
      order.request.weightFormat.getD (f.weightFormat order.model))
    (hturns : ∀ t' order' profile, f.task t' = .conversion order' (.persisting profile) →
      order'.model ≠ order.model) :
    Formats.Described { f with
      task := Function.update f.task t
        (.conversion order (.converting wasDownloaded profile exported false))
      convertLock := some t } where
  lock := by
    intro t' order' _ _ _ _ ht'
    by_cases heq : t' = t
    · rw [heq]
    · have hold := h.lock _ _ _ _ _ _ (task_of_update ht' heq)
      rw [hlock] at hold
      cases hold
  exported := by
    intro t' order' _ _ _ _ ht'
    by_cases heq : t' = t
    · subst heq
      obtain ⟨rfl, hphase⟩ := Work.conversion.inj (eq_of_update ht')
      obtain ⟨-, -, rfl, -⟩ := ConvertPhase.converting.inj hphase
      exact hexported
    · exact h.exported _ _ _ _ _ _ (task_of_update ht' heq)
  published := by
    intro t' order' _ _ _ ht'
    by_cases heq : t' = t
    · subst heq
      cases eq_of_update ht'
    · exact h.published _ _ _ _ _ (task_of_update ht' heq)
  requested := by
    intro t' order' _ ht'
    by_cases heq : t' = t
    · subst heq
      cases eq_of_update ht'
    · exact h.requested _ _ _ (task_of_update ht' heq)
  turns := by
    intro t' t'' order' order'' phase _ ht' hwrites ht'' hmodel
    by_cases heq'' : t'' = t
    · subst heq''
      cases eq_of_update ht''
    · have hold := task_of_update ht'' heq''
      by_cases heq' : t' = t
      · subst heq'
        obtain ⟨rfl, -⟩ := Work.conversion.inj (eq_of_update ht')
        exact absurd hmodel.symm (hturns t'' order'' _ hold)
      · exact h.turns _ _ _ _ _ _ (task_of_update ht' heq') hwrites hold hmodel
  int4 := by
    intro m hm
    rcases h.int4 m hm with hcatalog | ⟨t', hundescribed⟩
    · exact .inl hcatalog
    · have hne : t' ≠ t := by
        rintro rfl
        obtain ⟨-, order', phase, ht', -, hphase⟩ := undescribed_eq_some.mp hundescribed
        rw [ht'] at hwaits
        rcases hphase with ⟨_, _, _, rfl, -⟩ | ⟨_, rfl, -⟩ <;> cases hwaits
      exact .inr ⟨t', undescribed_congr hundescribed (Function.update_of_ne hne ..) rfl⟩

/-- The output of a converter process is published. -/
theorem Formats.Described.publish (h : f.Described)
    (ht : f.task t = .conversion order (.converting wasDownloaded profile exported false)) :
    Formats.Described { f with
      task := Function.update f.task t
        (.conversion order (.converting wasDownloaded profile exported true))
      format := Function.update f.format order.model (some exported.weightFormat) } where
  lock := by
    intro t' order' _ _ _ _ ht'
    by_cases heq : t' = t
    · subst heq
      exact h.lock _ _ _ _ _ _ ht
    · exact h.lock _ _ _ _ _ _ (task_of_update ht' heq)
  exported := by
    intro t' order' _ _ _ _ ht'
    by_cases heq : t' = t
    · subst heq
      obtain ⟨rfl, hphase⟩ := Work.conversion.inj (eq_of_update ht')
      obtain ⟨-, -, rfl, -⟩ := ConvertPhase.converting.inj hphase
      exact h.exported _ _ _ _ _ _ ht
    · exact h.exported _ _ _ _ _ _ (task_of_update ht' heq)
  published := by
    intro t' order' _ _ _ ht'
    by_cases heq : t' = t
    · subst heq
      obtain ⟨rfl, hphase⟩ := Work.conversion.inj (eq_of_update ht')
      obtain ⟨-, -, rfl, -⟩ := ConvertPhase.converting.inj hphase
      exact .inr (Function.update_self ..)
    · exact absurd (h.lock_unique ht (task_of_update ht' heq)) heq
  requested := by
    intro t' order' _ ht'
    have hne : t' ≠ t := by
      rintro rfl
      cases eq_of_update ht'
    have hold := task_of_update ht' hne
    have hmodel : order'.model ≠ order.model := by
      intro hmodel
      exact hne (h.turns _ _ _ _ _ _ ht rfl hold hmodel.symm).symm
    simpa [Function.update_of_ne hmodel] using h.requested _ _ _ hold
  turns := by
    intro t' t'' order' order'' phase _ ht' hwrites ht'' hmodel
    have hne : t'' ≠ t := by
      rintro rfl
      cases eq_of_update ht''
    have hold := task_of_update ht'' hne
    by_cases heq' : t' = t
    · subst heq'
      obtain ⟨rfl, -⟩ := Work.conversion.inj (eq_of_update ht')
      exact h.turns _ _ _ _ _ _ ht rfl hold hmodel
    · exact h.turns _ _ _ _ _ _ (task_of_update ht' heq') hwrites hold hmodel
  int4 := by
    intro m hm
    by_cases hmodel : m = order.model
    · subst hmodel
      have hint4 : exported.weightFormat = .int4 := by
        simpa using hm
      by_cases hcatalog : f.weightFormat order.model = .int4
      · exact .inl hcatalog
      · right
        refine ⟨t, undescribed_eq_some.mpr ⟨hcatalog, order, _, ?_, rfl,
          .inl ⟨wasDownloaded, profile, exported, rfl, hint4⟩⟩⟩
        exact Function.update_self ..
    · have hold : f.format m = some .int4 := by
        simpa [Function.update_of_ne hmodel] using hm
      rcases h.int4 m hold with hcatalog | ⟨t', hundescribed⟩
      · exact .inl hcatalog
      · have hne : t' ≠ t := by
          rintro rfl
          obtain ⟨-, order', phase, ht', -, hphase⟩ := undescribed_eq_some.mp hundescribed
          rw [ht] at ht'
          obtain ⟨-, rfl⟩ := Work.conversion.inj ht'
          rcases hphase with ⟨_, _, _, hphase, -⟩ | ⟨_, hphase, -⟩ <;> cases hphase
        exact .inr ⟨t', undescribed_congr hundescribed (Function.update_of_ne hne ..) rfl⟩

/-- A conversion stops to write, and its model is described or its directory not in INT4. -/
theorem Formats.Described.leave (h : f.Described) {phase phase' : ConvertPhase} {lock : Option Nat}
    (ht : f.task t = .conversion order phase) (hphase' : phase'.writes = false)
    (hlock : ∀ t' order' wasDownloaded profile exported published, t' ≠ t →
      f.task t' = .conversion order' (.converting wasDownloaded profile exported published) →
        lock = some t')
    (hint4 : f.undescribed t = none ∨ f.format order.model ≠ some .int4) :
    Formats.Described { f with
      task := Function.update f.task t (.conversion order phase')
      convertLock := lock } := by
  -- the conversions that write are others
  have hother : ∀ {t' order' phase}, phase.writes = true →
      Function.update f.task t (.conversion order phase') t' = .conversion order' phase →
        t' ≠ t ∧ f.task t' = .conversion order' phase := by
    intro t' order' phase hwrites ht'
    have hne : t' ≠ t := by
      rintro rfl
      obtain ⟨-, rfl⟩ := Work.conversion.inj (eq_of_update ht')
      rw [hwrites] at hphase'
      cases hphase'
    exact ⟨hne, task_of_update ht' hne⟩
  refine ⟨?_, ?_, ?_, ?_, ?_, ?_⟩
  · intro t' order' _ _ _ _ ht'
    obtain ⟨hne, hold⟩ := hother rfl ht'
    exact hlock _ _ _ _ _ _ hne hold
  · intro t' order' _ _ _ _ ht'
    exact h.exported _ _ _ _ _ _ (hother rfl ht').2
  · intro t' order' _ _ _ ht'
    exact h.published _ _ _ _ _ (hother rfl ht').2
  · intro t' order' _ ht'
    exact h.requested _ _ _ (hother rfl ht').2
  · intro t' t'' order' order'' phase _ ht' hwrites ht'' hmodel
    exact h.turns _ _ _ _ _ _ (hother hwrites ht').2 hwrites (hother rfl ht'').2 hmodel
  · intro m hm
    rcases h.int4 m hm with hcatalog | ⟨t', hundescribed⟩
    · exact .inl hcatalog
    · have hne : t' ≠ t := by
        rintro rfl
        obtain ⟨-, order', phase'', ht', hmodel, -⟩ := undescribed_eq_some.mp hundescribed
        rw [ht] at ht'
        obtain ⟨rfl, -⟩ := Work.conversion.inj ht'
        subst hmodel
        rcases hint4 with hnone | hformat
        · rw [hnone] at hundescribed
          cases hundescribed
        · exact hformat hm
      exact .inr ⟨t', undescribed_congr hundescribed (Function.update_of_ne hne ..) rfl⟩

/-- A converter process has ended, and its format is to be persisted. -/
theorem Formats.Described.persisting (h : f.Described) {format : WeightFormat} {lock : Option Nat}
    (ht : f.task t = .conversion order (.converting wasDownloaded profile exported true))
    (hformat : order.request.weightFormat = some format) :
    Formats.Described { f with
      task := Function.update f.task t (.conversion order (.persisting profile))
      convertLock := lock } := by
  have hexported : exported.weightFormat = format := by
    simpa [hformat] using h.exported _ _ _ _ _ _ ht
  -- no other process runs
  have hidle : ∀ {t' order' wasDownloaded' profile' exported' published'},
      Function.update f.task t (.conversion order (.persisting profile)) t' ≠
        .conversion order' (.converting wasDownloaded' profile' exported' published') := by
    intro t' order' _ _ _ _ ht'
    by_cases heq : t' = t
    · subst heq
      cases eq_of_update ht'
    · exact heq (h.lock_unique ht (task_of_update ht' heq))
  refine ⟨?_, ?_, ?_, ?_, ?_, ?_⟩
  · intro t' order' _ _ _ _ ht'
    exact absurd ht' hidle
  · intro t' order' _ _ _ _ ht'
    exact absurd ht' hidle
  · intro t' order' _ _ _ ht'
    exact absurd ht' hidle
  · intro t' order' _ ht'
    by_cases heq : t' = t
    · subst heq
      obtain ⟨rfl, -⟩ := Work.conversion.inj (eq_of_update ht')
      rw [hformat, ← hexported]
      exact h.published _ _ _ _ _ ht
    · exact h.requested _ _ _ (task_of_update ht' heq)
  · -- what writes now wrote before
    have hold : ∀ {t' order' phase}, phase.writes = true →
        Function.update f.task t (.conversion order (.persisting profile)) t' =
          .conversion order' phase →
        ∃ phase, phase.writes = true ∧ f.task t' = .conversion order' phase := by
      intro t' order' phase hwrites ht'
      by_cases heq : t' = t
      · subst heq
        obtain ⟨rfl, -⟩ := Work.conversion.inj (eq_of_update ht')
        exact ⟨_, rfl, ht⟩
      · exact ⟨phase, hwrites, task_of_update ht' heq⟩
    intro t' t'' order' order'' phase _ ht' hwrites ht'' hmodel
    obtain ⟨phase', hwrites', hold'⟩ := hold hwrites ht'
    by_cases heq'' : t'' = t
    · subst heq''
      obtain ⟨rfl, -⟩ := Work.conversion.inj (eq_of_update ht'')
      by_contra hne
      cases phase with
      | persisting _ =>
        exact hne (h.turns _ _ _ _ _ _ ht rfl (task_of_update ht' hne) hmodel.symm).symm
      | converting _ _ _ _ => exact hidle ht'
      | _ => cases hwrites
    · exact h.turns _ _ _ _ _ _ hold' hwrites' (task_of_update ht'' heq'') hmodel
  · intro m hm
    rcases h.int4 m hm with hcatalog | ⟨t', hundescribed⟩
    · exact .inl hcatalog
    · right
      by_cases heq : t' = t
      · subst heq
        obtain ⟨hcatalog, order', phase, ht', hmodel, hphase⟩ := undescribed_eq_some.mp hundescribed
        rw [ht] at ht'
        obtain ⟨rfl, rfl⟩ := Work.conversion.inj ht'
        have hint4 : order.request.weightFormat = some .int4 := by
          rcases hphase with ⟨_, _, _, hphase, hint4⟩ | ⟨_, hphase, -⟩
          · obtain ⟨-, -, rfl, -⟩ := ConvertPhase.converting.inj hphase
            rw [hformat, ← hexported, hint4]
          · cases hphase
        refine ⟨t', undescribed_eq_some.mpr ⟨hcatalog, order, _, ?_, hmodel,
          .inr ⟨profile, rfl, hint4⟩⟩⟩
        exact Function.update_self ..
      · exact ⟨t', undescribed_congr hundescribed (Function.update_of_ne heq ..) rfl⟩

/-- The catalog is written. -/
theorem Formats.Described.persist (h : f.Described)
    (ht : f.task t = .conversion order (.persisting profile)) :
    Formats.Described { f with
      task := Function.update f.task t (.conversion order (.recording profile))
      weightFormat := Function.update f.weightFormat order.model
        (order.request.weightFormat.getD (f.weightFormat order.model)) } := by
  have hother : ∀ {t' order' phase}, phase.writes = true →
      Function.update f.task t (.conversion order (.recording profile)) t' =
        .conversion order' phase →
        f.task t' = .conversion order' phase ∧ order'.model ≠ order.model := by
    intro t' order' phase hwrites ht'
    have hne : t' ≠ t := by
      rintro rfl
      obtain ⟨-, rfl⟩ := Work.conversion.inj (eq_of_update ht')
      cases hwrites
    have hold := task_of_update ht' hne
    exact ⟨hold, fun hmodel => hne (h.turns _ _ _ _ _ _ hold hwrites ht hmodel)⟩
  refine ⟨?_, ?_, ?_, ?_, ?_, ?_⟩
  · intro t' order' _ _ _ _ ht'
    exact h.lock _ _ _ _ _ _ (hother rfl ht').1
  · intro t' order' _ _ _ _ ht'
    obtain ⟨hold, hmodel⟩ := hother rfl ht'
    simpa [Function.update_of_ne hmodel] using h.exported _ _ _ _ _ _ hold
  · intro t' order' _ _ _ ht'
    exact h.published _ _ _ _ _ (hother rfl ht').1
  · intro t' order' _ ht'
    exact h.requested _ _ _ (hother rfl ht').1
  · intro t' t'' order' order'' phase _ ht' hwrites ht'' hmodel
    exact h.turns _ _ _ _ _ _ (hother hwrites ht').1 hwrites (hother rfl ht'').1 hmodel
  · intro m hm
    by_cases hmodel : m = order.model
    · subst hmodel
      left
      have hrequest : order.request.weightFormat = some .int4 := by
        rcases h.requested _ _ _ ht with hnone | hsame
        · have hm' : f.format order.model = some .int4 := hm
          rw [hnone] at hm'
          cases hm'
        · rw [← hsame]
          exact hm
      simp [hrequest]
    · rcases h.int4 m hm with hcatalog | ⟨t', hundescribed⟩
      · exact .inl (by simpa [Function.update_of_ne hmodel] using hcatalog)
      · right
        have hne : t' ≠ t := by
          rintro rfl
          obtain ⟨-, order', phase, ht', hmodel', -⟩ := undescribed_eq_some.mp hundescribed
          rw [ht] at ht'
          obtain ⟨rfl, -⟩ := Work.conversion.inj ht'
          exact hmodel hmodel'.symm
        exact ⟨t', undescribed_congr hundescribed (Function.update_of_ne hne ..)
          (Function.update_of_ne hmodel ..)⟩

end

/-! ### The condition -/

/-- The model whose converter process is started. -/
def Preparation.startsProcess (s : Preparation μ) : PreparationEvent μ → Option μ
  | .enterConversion t =>
    match s.task t with
    | .conversion order (.waitLock _ _) =>
      if s.isDownloaded order.model ∧ order.request.weightFormat = none then none
      else some order.model
    | _ => none
  | _ => none

/-- The model that is to be built for a device that names the NPU. -/
def Preparation.targetsNpu (s : Preparation μ) : PreparationEvent μ → Option μ
  | .enterLoad t device true | .resumeLoad t device true =>
    match s.task t with
    | .load m _ => if device.namesNpu then some m else none
    | _ => none
  | _ => none

def Preparation.persists (s : Preparation μ) (t : Nat) (m : μ) : Bool :=
  match s.task t with
  | .conversion order (.persisting _) => order.model = m
  | _ => false

/-- A conversion of another format than the catalog's is not abandoned once it has published
INT4; no build for the NPU is started before the catalog says so, and no conversion of the model
before its catalog entry is written. -/
def catalogFirst (s : Preparation μ) (e : PreparationEvent μ) : Bool :=
  (List.range s.nextTask).all fun t =>
    (!s.abandons t e || (s.formats.undescribed t).isNone) &&
    (s.startsProcess e).all (fun m => !s.persists t m) &&
    (s.targetsNpu e).all (fun m => s.formats.undescribed t ≠ some m)

theorem catalogFirst_task (ho : s.registers.Ordered) (hC : catalogFirst s e = true)
    (ht : s.task t ≠ .absent) :
    (s.abandons t e = true → s.formats.undescribed t = none) ∧
      (∀ m, s.startsProcess e = some m → s.persists t m = false) ∧
      ∀ m, s.targetsNpu e = some m → s.formats.undescribed t ≠ some m := by
  have hlt : t < s.nextTask := by
    by_contra hlater
    exact ht (ho.fresh t (not_lt.mp hlater))
  have hall := List.all_eq_true.mp hC t (List.mem_range.mpr hlt)
  simp only [Bool.and_eq_true, Bool.or_eq_true, Bool.not_eq_true', Option.isNone_iff_eq_none,
    Option.all_eq_true, decide_eq_true_eq] at hall
  refine ⟨?_, ?_, ?_⟩
  · intro habandons
    rcases hall.1.1 with hno | hnone
    · rw [habandons] at hno
      cases hno
    · exact hnone
  · exact hall.1.2
  · exact hall.2

theorem Formats.Described.step (h : s.formats.Described) (ho : s.registers.Ordered)
    (hC : catalogFirst s e = true) {f : Formats μ} (hmoves : Formats.Moves cfg s e f) :
    f.Described := by
  cases hmoves with
  | keep _ hkeeps => exact h.keep hkeeps
  | start t order wasDownloaded profile exported he ht hneeded hlock hexported =>
    apply h.start (by show (s.task t).writes = false; rw [ht]; rfl) hlock hexported
    intro t' order' profile' ht' hmodel
    have ht'' : s.task t' = .conversion order' (.persisting profile') := ht'
    have hstarts : s.startsProcess e = some order.model := by
      subst he
      simp only [Preparation.startsProcess, ht, if_neg hneeded]
    have hidle := (catalogFirst_task ho hC (by rw [ht'']; nofun)).2.1 order.model hstarts
    simp [Preparation.persists, ht'', hmodel] at hidle
  | publish t order wasDownloaded profile exported ht => exact h.publish ht
  | persisting t order wasDownloaded profile exported format ht hformat =>
    exact h.persisting ht hformat
  | persist t order profile ht => exact h.persist ht
  | leaveProcess t order wasDownloaded profile exported published phase' ht hphase' hwhy =>
    apply h.leave ht hphase'
    · intro t' order' _ _ _ _ hne ht'
      exact absurd (h.lock_unique ht ht') hne
    · by_cases hundescribed : s.formats.undescribed t = none
      · exact .inl hundescribed
      · right
        intro hm
        obtain ⟨m, hsome⟩ := Option.ne_none_iff_exists'.mp hundescribed
        obtain ⟨hcatalog, order', phase, ht', hmodel, hphase⟩ := undescribed_eq_some.mp hsome
        have ht'' : s.formats.task t = _ := ht
        rw [ht''] at ht'
        obtain ⟨rfl, rfl⟩ := Work.conversion.inj ht'
        subst hmodel
        have hexported := h.exported _ _ _ _ _ _ ht
        have hint4 : exported.weightFormat = .int4 := by
          rcases hphase with ⟨_, _, _, hphase, hint4⟩ | ⟨_, hphase, -⟩
          · obtain ⟨-, -, rfl, -⟩ := ConvertPhase.converting.inj hphase
            exact hint4
          · cases hphase
        rw [hint4] at hexported
        rcases hwhy with habandons | hnone | hsame | hmissing
        · exact hundescribed ((catalogFirst_task ho hC (by rw [ht]; nofun)).1 habandons)
        · rw [hnone] at hexported
          exact hcatalog hexported.symm
        · rw [hsame] at hexported
          exact hcatalog hexported.symm
        · rw [Preparation.format_apply, hmissing] at hm
          cases hm
  | leavePersist t order profile phase' ht hphase' hwhy =>
    have hundescribed := (catalogFirst_task ho hC (by rw [ht]; nofun)).1 hwhy
    refine h.leave ht hphase' ?_ (.inl hundescribed)
    intro t' order' _ _ _ _ _ ht'
    exact h.lock _ _ _ _ _ _ ht'

/-! ### Builds -/

/-- A build that a step starts is one of a load that has the load lock. -/
theorem step_building {chosen : DeviceExpression}
    (hstep : s.step cfg e = some s') (hstart : s.task t ≠ s'.task t)
    (hbuild : s'.task t = .load m (.building (some chosen))) :
    ∃ device phase, (e = .enterLoad t device true ∨ e = .resumeLoad t device true) ∧
      s.task t = .load m phase ∧
      safeLoadDevice (s.weightFormat m) ((s.artifact m).bind Artifact.profile) cfg.available
        device = some chosen := by
  have hmoves := step_moves hstep
  rw [show s'.task t = s'.registers.task t from rfl] at hbuild hstart
  generalize s'.registers = r at hmoves hbuild hstart
  -- only the task of the step has changed
  have hother : ∀ {t' work}, r.task t = Function.update s.task t' work t →
      t' = t ∧ work = .load m (.building (some chosen)) := by
    intro t' work htask
    by_cases heq : t = t'
    · subst heq
      rw [htask, Function.update_self] at hbuild
      exact ⟨rfl, hbuild⟩
    · rw [htask, Function.update_of_ne heq] at hstart
      exact absurd rfl hstart
  cases hmoves with
  | stay => exact absurd rfl hstart
  | newLoad m' => cases (hother rfl).2
  | newConversion order => cases (hother rfl).2
  | newInline t' order _ ht' howner =>
    have hne : t ≠ t' := by
      rintro rfl
      simp [Registers.goTo] at hbuild
    cases (hother (Function.update_of_ne hne ..)).2
  | convert t' order phase phase' => cases (hother rfl).2
  | endCore t' order phase phase' => cases (hother rfl).2
  | load t' m' phase phase' _ ht' _ _ _ hdevice =>
    obtain ⟨rfl, hwork⟩ := hother rfl
    obtain ⟨rfl, rfl⟩ := Work.load.inj hwork
    obtain ⟨device, he, hchosen⟩ := hdevice _ rfl
    exact ⟨device, phase, he, ht', hchosen.symm⟩
  | endLoad t' m' phase => cases (hother rfl).2
  | startErasing => exact absurd rfl hstart
  | endRemoval => exact absurd rfl hstart
  | endDelete => exact absurd rfl hstart

theorem finishLoad_artifact {status : Option Status} :
    (s.finishLoad t m status).artifact = s.artifact := by
  unfold Preparation.finishLoad Preparation.releaseLoadLock
  split <;> rfl

theorem enterLoad_artifact {device : DeviceExpression} {go : Bool} :
    (s.enterLoad cfg t m device go).artifact = s.artifact := by
  unfold Preparation.enterLoad
  dsimp only
  split
  · split <;> rfl
  · exact finishLoad_artifact

theorem afterConversion_artifact {device : DeviceExpression} {go cancelled : Bool} :
    (s.afterConversion cfg t m device go cancelled).artifact = s.artifact := by
  unfold Preparation.afterConversion
  split
  · exact finishLoad_artifact
  · split
    · split
      · rfl
      · unfold Preparation.retarget Preparation.releaseLoadLock
        split <;> rfl
    · exact finishLoad_artifact

/-- The start of a build leaves the directories alone. -/
theorem building_artifact {device : DeviceExpression}
    (he : e = .enterLoad t device true ∨ e = .resumeLoad t device true)
    (hstep : s.step cfg e = some s') : s'.artifact = s.artifact := by
  rcases he with rfl | rfl
  · simp only [Preparation.step] at hstep
    split at hstep
    · obtain rfl := Option.some.inj hstep
      exact enterLoad_artifact
    · cases hstep
  · simp only [Preparation.step] at hstep
    split at hstep
    · split at hstep
      · obtain rfl := Option.some.inj hstep
        exact afterConversion_artifact
      · cases hstep
    · cases hstep

/-! ### Runs -/

section
variable {weightFormat : μ → WeightFormat} {exported : μ → Option (Quantization × Bool)}

theorem described_initial : (Preparation.initial weightFormat exported).formats.Described := by
  have hnone (t : Nat) (order : ConversionOrder μ) (phase : ConvertPhase) :
      (Preparation.initial weightFormat exported).formats.task t ≠ .conversion order phase := by
    show Work.absent ≠ _
    nofun
  refine ⟨?_, ?_, ?_, ?_, ?_, ?_⟩
  · intro t order _ _ _ _ ht
    exact absurd ht (hnone t order _)
  · intro t order _ _ _ _ ht
    exact absurd ht (hnone t order _)
  · intro t order _ _ _ ht
    exact absurd ht (hnone t order _)
  · intro t order _ ht
    exact absurd ht (hnone t order _)
  · intro t _ order _ _ _ ht
    exact absurd ht (hnone t order _)
  · intro m hm
    left
    show weightFormat m = .int4
    rcases hexported : exported m with - | ⟨q, marked⟩
    · simp [Preparation.format_apply, Preparation.initial, hexported] at hm
    · simpa [Preparation.format_apply, Preparation.initial, hexported] using hm

/-- **INT4 on the NPU.** In a run that meets the condition, a build that is started on a device
which names the NPU finds a directory that is not INT4 or carries a verified profile. -/
theorem npu_build_verified {es : List (PreparationEvent μ)}
    (hmeets : Transition.meets (Preparation.step cfg) catalogFirst
      (Preparation.initial weightFormat exported) (es ++ [e]) = true)
    (hrun : Transition.run (Preparation.step cfg) (Preparation.initial weightFormat exported) es =
      some s)
    (hstep : s.step cfg e = some s') (hstart : s.task t ≠ s'.task t) {chosen : DeviceExpression}
    (hbuild : s'.task t = .load m (.building (some chosen))) (hnpu : chosen.namesNpu = true)
    {a : Artifact} (ha : s'.artifact m = some a) :
    a.exported.weightFormat ≠ .int4 ∨ verifiedProfile .int4 a.profile = true := by
  obtain ⟨hes, he⟩ := Transition.meets_append hmeets hrun
  obtain ⟨hC, -⟩ := Transition.meets_cons he hstep
  obtain ⟨ho, hdescribed⟩ : s.registers.Ordered ∧ s.formats.Described := by
    refine Transition.run_invariant_of (J := fun s : Preparation μ => s.registers.Ordered)
      (I := fun s => s.formats.Described) ?_ ?_ ordered_initial described_initial hes hrun
    · intro s e s' ho hstep
      exact ho.step (step_moves hstep)
    · intro s e s' ho h hC hstep
      exact h.step ho hC (step_formats ho hstep)
  obtain ⟨device, phase, hevent, ht, hchosen⟩ := step_building hstep hstart hbuild
  rw [building_artifact hevent hstep] at ha
  by_cases hint4 : a.exported.weightFormat = .int4
  · right
    have hformat : s.formats.format m = some .int4 := by
      rw [Preparation.format_apply, ha]
      exact congrArg some hint4
    by_cases hcatalog : s.weightFormat m = .int4
    · rw [hcatalog, ha] at hchosen
      rcases safeLoadDevice_namesNpu hchosen hnpu with hother | hverified
      · exact absurd rfl hother
      · exact hverified
    · -- the load takes the target as it is, and the condition excludes that
      have hdevice : device = chosen := by
        simpa [safeLoadDevice, hcatalog] using hchosen
      have htargets : s.targetsNpu e = some m := by
        rcases hevent with rfl | rfl <;>
          simp only [Preparation.targetsNpu, ht, hdevice, hnpu, if_true]
      rcases hdescribed.int4 m hformat with hsame | ⟨c, hc⟩
      · exact absurd hsame hcatalog
      · obtain ⟨-, order, phase, htask, -⟩ := Formats.undescribed_eq_some.mp hc
        have htask' : s.task c = .conversion order phase := htask
        have hexcluded := (catalogFirst_task ho hC (by rw [htask']; nofun)).2.2 m htargets
        exact absurd hc hexcluded
  · exact .inl hint4

end

/-- The conversion of a model that is not downloaded to INT4 with the default settings, to its
end. -/
def convertsToInt4 : List (PreparationEvent Nat) :=
  convertsTo 0 { weightFormat := some .int4 } ++
    [.publish 0, .endProcess 0 true, .persist 0 true, .record 0 true, .measure 0,
      .returnConversion 0]

/-- A load of the model for the NPU, up to the wait for the load lock; its task is `t`. -/
def loadsOnNpu (t : Nat) : List (PreparationEvent Nat) :=
  [.scheduleLoad 0 (some npuOnly), .startLoad t true]

/-- The model was converted to INT4, and is to be loaded on the NPU. -/
def converted : Preparation Nat :=
  (Transition.run (Preparation.step (oneDirectory true)) nothingDownloaded
    (convertsToInt4 ++ loadsOnNpu 1)).get (by decide)

/-- The load has started its build. -/
def builtOnNpu : Preparation Nat :=
  (converted.step (oneDirectory true) (.enterLoad 1 npuOnly true)).get (by decide)

/-- A model that was converted to INT4 is built on the NPU once its profile is recorded. -/
theorem npu_build_verified_int4 :
    ∃ a, builtOnNpu.task 1 = .load 0 (.building (some npuOnly)) ∧ builtOnNpu.artifact 0 = some a ∧
      (a.exported.weightFormat ≠ .int4 ∨ verifiedProfile .int4 a.profile = true) := by
  have hrun : Transition.run (Preparation.step (oneDirectory true)) nothingDownloaded
      (convertsToInt4 ++ loadsOnNpu 1) = some converted := (Option.some_get _).symm
  have hstep : converted.step (oneDirectory true) (.enterLoad 1 npuOnly true) = some builtOnNpu :=
    (Option.some_get _).symm
  have hbuild : builtOnNpu.task 1 = .load 0 (.building (some npuOnly)) := by decide +kernel
  have hstart : converted.task 1 ≠ builtOnNpu.task 1 := by
    rw [hbuild]
    decide
  have hartifact : builtOnNpu.artifact 0 = some _ := rfl
  exact ⟨_, hbuild, hartifact,
    npu_build_verified (by decide) hrun hstep hstart hbuild rfl hartifact⟩

/-- The model is INT4 and the catalog says INT8, while the conversion writes it. -/
def undescribedInt4 : Preparation Nat :=
  (Transition.run (Preparation.step (oneDirectory true)) nothingDownloaded
    (convertsTo 0 { weightFormat := some .int4 } ++ [.publish 0, .endProcess 0 true] ++
      loadsOnNpu 1)).get (by decide)

/-- A load that is requested after the converter has exited is not deferred, and builds the
unverified INT4 model on the NPU. -/
theorem npu_build_unverified : ¬ ∀ (es : List (PreparationEvent Nat)) (s s' : Preparation Nat)
    (e : PreparationEvent Nat) (t m : Nat) (chosen : DeviceExpression) (a : Artifact),
    Transition.run (Preparation.step (oneDirectory true)) nothingDownloaded es = some s →
      s.step (oneDirectory true) e = some s' → s.task t ≠ s'.task t →
        s'.task t = .load m (.building (some chosen)) → chosen.namesNpu = true →
          s'.artifact m = some a →
            a.exported.weightFormat ≠ .int4 ∨ verifiedProfile .int4 a.profile = true := by
  intro h
  have hrun : Transition.run (Preparation.step (oneDirectory true)) nothingDownloaded
      (convertsTo 0 { weightFormat := some .int4 } ++ [.publish 0, .endProcess 0 true] ++
        loadsOnNpu 1) = some undescribedInt4 := (Option.some_get _).symm
  have hbuilds : (undescribedInt4.step (oneDirectory true)
      (.enterLoad 1 npuOnly true)).isSome = true := by decide
  have hstep := (Option.some_get hbuilds).symm
  have hbuild : (Option.get _ hbuilds).task 1 = .load 0 (.building (some npuOnly)) := rfl
  have hstart : undescribedInt4.task 1 ≠ (Option.get _ hbuilds).task 1 := by
    rw [hbuild]
    decide
  rcases h _ _ _ _ 1 0 npuOnly _ hrun hstep hstart hbuild rfl rfl with hformat | hverified
  · exact hformat rfl
  · cases hverified

end InferBridge
