/-
InferBridge/PreparationMoves.lean

What one segment of the model preparation can do to the tasks and to the
entries that register them.

`Moves` lists the changes with the guards that the code has checked;
`step_moves` says that there are no others.  What is proved about the tasks
afterwards goes by the cases of `Moves`.
-/
import InferBridge.ModelPreparation

namespace InferBridge

variable {μ : Type*}

/-! ### Phases -/

/-- The core body has not returned. -/
def ConvertPhase.early : ConvertPhase → Bool
  | .queued | .preflight | .profiling _ | .waitLock _ _ | .converting _ _ _ _ | .terminating _ =>
    true
  | .persisting _ | .recording _ | .measuring | .finished _ | .returned _ => false

def ConvertPhase.waits : ConvertPhase → Bool
  | .waitLock _ _ => true
  | _ => false

def ConvertPhase.isReturned : ConvertPhase → Bool
  | .returned _ => true
  | _ => false

theorem ConvertPhase.not_returned_of_early {phase : ConvertPhase} (h : phase.early = true) :
    phase.isReturned = false := by
  cases phase <;> first | rfl | cases h

/-- The load task is registered. -/
def LoadPhase.live : LoadPhase → Bool
  | .finished | .returned => false
  | _ => true

/-- What a conversion that ends pops: the entry of its model, its own one if it is not run
inline. -/
def ConversionOrder.entry (order : ConversionOrder μ) : μ × Bool :=
  (order.model, order.owner.isNone)

/-! ### Registers -/

/-- The tasks, the entries of the two task maps, and the threads that remove directories. -/
structure Registers (μ : Type*) where
  task : Nat → Work μ
  nextTask : Nat
  loadTasks : μ → Option Nat
  convertTasks : μ → Option Nat
  erasing : μ → List Erasure

namespace Registers

def goTo (r : Registers μ) (t : Nat) (work : Work μ) : Registers μ :=
  { r with task := Function.update r.task t work }

def spawn (r : Registers μ) (work : Work μ) : Registers μ :=
  { r with task := Function.update r.task r.nextTask work, nextTask := r.nextTask + 1 }

variable [DecidableEq μ]

def setLoad (r : Registers μ) (m : μ) (entry : Option Nat) : Registers μ :=
  { r with loadTasks := Function.update r.loadTasks m entry }

def setConversion (r : Registers μ) (m : μ) (entry : Option Nat) : Registers μ :=
  { r with convertTasks := Function.update r.convertTasks m entry }

def setErasing (r : Registers μ) (m : μ) (threads : List Erasure) : Registers μ :=
  { r with erasing := Function.update r.erasing m threads }

end Registers

namespace Preparation

def registers (s : Preparation μ) : Registers μ where
  task := s.task
  nextTask := s.nextTask
  loadTasks := s.loadTasks
  convertTasks := s.convertTasks
  erasing := s.erasing

variable [DecidableEq μ]

/-- The model whose conversion entry is popped by this step, because the core body of a
conversion or its access check ends or because a deletion does; with `true` it is the
conversion's own entry. -/
def popsEntry (cfg : PreparationSettings μ) (s : Preparation μ) :
    PreparationEvent μ → Option (μ × Bool)
  | .endPreflight t false =>
    match s.task t with
    | .conversion order .preflight => some order.entry
    | _ => none
  | .enterConversion t =>
    match s.task t with
    | .conversion order (.waitLock _ _) =>
      if s.isDownloaded order.model ∧ order.request.weightFormat = none then some order.entry
      else if cfg.hasSource order.model then none
      else some order.entry
    | _ => none
  | .endProcess t _ =>
    match s.task t with
    | .conversion order (.converting _ _ _ _) => some order.entry
    | _ => none
  | .endTermination t =>
    match s.task t with
    | .conversion order (.terminating _) => some order.entry
    | _ => none
  | .cancel t _ =>
    match s.task t with
    | .conversion order phase => if phase.waits then some order.entry else none
    | .load _ (.converting c) =>
      match s.task c with
      | .conversion order phase => if phase.waits then some order.entry else none
      | _ => none
    | _ => none
  | .endErasure m .delete => some (m, false)
  | _ => none

/-- The model that is to be loaded or converted. -/
def scheduled (s : Preparation μ) : PreparationEvent μ → Option μ
  | .scheduleLoad m _ | .scheduleConvert m _ _ _ => some m
  | .runCallback t =>
    match s.task t with
    | .conversion order _ => some order.model
    | _ => none
  | _ => none

/-! ### Changes -/

/-- What a step does to the registers. -/
inductive Moves (cfg : PreparationSettings μ) (s : Preparation μ) (e : PreparationEvent μ) :
    Registers μ → Prop where
  | stay (hpops : s.popsEntry cfg e = none) : Moves cfg s e s.registers
  | newLoad (m : μ) (hpops : s.popsEntry cfg e = none) (hscheduled : s.scheduled e = some m)
      (hblocks : s.cleanupBlocks cfg m = false) (hconvert : s.conversionActive m = false)
      (hload : s.loadActive m = false) :
      Moves cfg s e ((s.registers.spawn (.load m .queued)).setLoad m (some s.nextTask))
  | newConversion (order : ConversionOrder μ) (device : Option DeviceExpression) (loadAfter : Bool)
      (request : Quantization) (hpops : s.popsEntry cfg e = none)
      (he : e = .scheduleConvert order.model device loadAfter request)
      (howner : order.owner = none) (hblocks : s.cleanupBlocks cfg order.model = false)
      (hconvert : s.conversionActive order.model = false)
      (hengine : (s.engines order.model).isSome = false)
      (hneeded : ¬ (s.isDownloaded order.model ∧ request.weightFormat = none)) :
      Moves cfg s e
        ((s.registers.spawn (.conversion order .queued)).setConversion order.model
          (some s.nextTask))
  | newInline (t : Nat) (order : ConversionOrder μ) (hpops : s.popsEntry cfg e = none)
      (ht : s.task t = .load order.model .waitLock) (howner : order.owner = some t) :
      Moves cfg s e
        ((s.registers.spawn (.conversion order .queued)).goTo t
          (.load order.model (.converting s.nextTask)))
  | convert (t : Nat) (order : ConversionOrder μ) (phase phase' : ConvertPhase)
      (hpops : s.popsEntry cfg e = none) (ht : s.task t = .conversion order phase)
      (hphase : phase.isReturned = false) (hearly : phase'.early = true → phase.early = true) :
      Moves cfg s e (s.registers.goTo t (.conversion order phase'))
  | endCore (t : Nat) (order : ConversionOrder μ) (phase phase' : ConvertPhase)
      (hpops : s.popsEntry cfg e = some order.entry) (ht : s.task t = .conversion order phase)
      (hphase : phase.early = true) (hphase' : phase'.early = false ∧ phase'.isReturned = false) :
      Moves cfg s e
        ((s.registers.setConversion order.model none).goTo t (.conversion order phase'))
  | load (t : Nat) (m : μ) (phase phase' : LoadPhase) (hpops : s.popsEntry cfg e = none)
      (ht : s.task t = .load m phase)
      (hinline : ∀ c, phase = .converting c →
        ∃ order cancelled, s.task c = .conversion order (.returned cancelled))
      (hphase' : ∀ c, phase' ≠ .converting c) (hlive : phase'.live = true → phase.live = true)
      (hbuild : ∀ chosen, phase' = .building chosen →
        ∃ device, (e = .enterLoad t device true ∨ e = .resumeLoad t device true) ∧
          chosen = safeLoadDevice (s.weightFormat m) ((s.artifact m).bind Artifact.profile)
            cfg.available device) :
      Moves cfg s e (s.registers.goTo t (.load m phase'))
  | endLoad (t : Nat) (m : μ) (phase : LoadPhase) (hpops : s.popsEntry cfg e = none)
      (ht : s.task t = .load m phase) (hlive : phase.live = true)
      (hinline : ∀ c, phase = .converting c →
        ∃ order cancelled, s.task c = .conversion order (.returned cancelled)) :
      Moves cfg s e ((s.registers.goTo t (.load m .finished)).setLoad m none)
  | startErasing (m : μ) (kind : Erasure) (refusesLoaded : Bool) (hpops : s.popsEntry cfg e = none)
      (he : e = .startDelete m ∨ e = .startRemoval m refusesLoaded)
      (hrefused : s.mutationRefused cfg m = false) (hactive : s.isActive m = false) :
      Moves cfg s e (s.registers.setErasing m (kind :: s.erasing m))
  | endRemoval (m : μ) (hpops : s.popsEntry cfg e = none) :
      Moves cfg s e (s.registers.setErasing m ((s.erasing m).erase .removal))
  | endDelete (m : μ) (hpops : s.popsEntry cfg e = some (m, false))
      (hthread : Erasure.delete ∈ s.erasing m) :
      Moves cfg s e
        (((s.registers.setErasing m ((s.erasing m).erase .delete)).setConversion m none).setLoad m
          none)

end Preparation

open Preparation

variable [DecidableEq μ] {cfg : PreparationSettings μ} {s s' : Preparation μ}
  {e : PreparationEvent μ} {t : Nat} {m : μ} {order : ConversionOrder μ}

section
variable {work : Work μ}

omit [DecidableEq μ] in
@[simp] theorem registers_goTo : (s.goTo t work).registers = s.registers.goTo t work := rfl

omit [DecidableEq μ] in
@[simp] theorem registers_spawn : (s.spawn work).registers = s.registers.spawn work := rfl

@[simp] theorem registers_setStatus {status : Option Status} :
    (s.setStatus m status).registers = s.registers := rfl

@[simp] theorem registers_setArtifact {artifact : Option Artifact} :
    (s.setArtifact m artifact).registers = s.registers := rfl

@[simp] theorem registers_popConversion :
    (s.popConversion m).registers = s.registers.setConversion m none := rfl

omit [DecidableEq μ] in
@[simp] theorem registers_releaseConvertLock :
    (s.releaseConvertLock t).registers = s.registers := by
  unfold Preparation.releaseConvertLock
  split <;> rfl

omit [DecidableEq μ] in
@[simp] theorem registers_releaseLoadLock : (s.releaseLoadLock t).registers = s.registers := by
  unfold Preparation.releaseLoadLock
  split <;> rfl

end

/-! ### Scheduling -/

theorem scheduleLoad_moves {device : Option DeviceExpression}
    {followups : μ → Option DeviceExpression} {callbacks : μ → Option Nat}
    (hpops : s.popsEntry cfg e = none) (hscheduled : s.scheduled e = some m) :
    Moves cfg s e
      (Preparation.scheduleLoad cfg { s with followups, callbacks } m device).registers := by
  unfold Preparation.scheduleLoad
  dsimp only
  split
  · exact .stay hpops
  · next hblocks =>
    split
    · exact .stay hpops
    · next hconvert =>
      split
      · exact .stay hpops
      · split
        · exact .stay hpops
        · split
          · exact .stay hpops
          · next hload =>
            exact .newLoad m hpops hscheduled (eq_false_of_ne_true hblocks)
              (eq_false_of_ne_true hconvert) (eq_false_of_ne_true hload)

theorem scheduleConvert_moves {device : Option DeviceExpression} {loadAfter : Bool}
    {request : Quantization} :
    Moves cfg s (.scheduleConvert m device loadAfter request)
      (s.scheduleConvert cfg m device loadAfter request).registers := by
  unfold Preparation.scheduleConvert
  dsimp only
  split
  · exact .stay rfl
  · next hblocks =>
    split
    · split <;> exact .stay rfl
    · next hconvert =>
      split
      · exact .stay rfl
      · next hidle =>
        split
        · split
          · exact scheduleLoad_moves rfl rfl
          · exact .stay rfl
        · next hneeded =>
          -- `remember` does not touch the registers
          have hnew : Moves cfg s (.scheduleConvert m device loadAfter request) _ :=
            .newConversion { model := m, device := device.getD cfg.device, request } device
              loadAfter request rfl rfl rfl (by simpa using hblocks) (by simpa using hconvert)
              (by simpa using (not_or.mp hidle).2) hneeded
          split <;> exact hnew

/-! ### Conversions -/

section
variable {phase phase' : ConvertPhase} {wasDownloaded : Bool} {profile : ConversionProfile}

theorem beginConversion_moves (hpops : s.popsEntry cfg e = none)
    (ht : s.task t = .conversion order phase) (hphase : phase.early = true) :
    Moves cfg s e (s.beginConversion t order).registers := by
  exact .convert t order phase _ hpops ht (ConvertPhase.not_returned_of_early hphase)
    (fun _ => hphase)

theorem afterCore_moves (hpops : s.popsEntry cfg e = some order.entry)
    (ht : s.task t = .conversion order phase) (hphase : phase.early = true)
    (hsame : s'.registers = s.registers.setConversion order.model none) :
    Moves cfg s e (s'.afterCore t order wasDownloaded profile).registers := by
  have hgoTo : ∀ phase', phase'.early = false ∧ phase'.isReturned = false →
      Moves cfg s e (s'.goTo t (.conversion order phase')).registers := by
    intro phase' hphase'
    rw [registers_goTo, hsame]
    exact .endCore t order phase phase' hpops ht hphase hphase'
  unfold Preparation.afterCore
  split
  · exact hgoTo _ ⟨rfl, rfl⟩
  · split
    · split
      · exact hgoTo _ ⟨rfl, rfl⟩
      · split
        · exact hgoTo _ ⟨rfl, rfl⟩
        · exact hgoTo _ ⟨rfl, rfl⟩
    · exact hgoTo _ ⟨rfl, rfl⟩

theorem failCore_moves (hpops : s.popsEntry cfg e = some order.entry)
    (ht : s.task t = .conversion order phase) (hphase : phase.early = true)
    (hsame : s'.registers = s.registers) : Moves cfg s e (s'.failCore t order).registers := by
  have hmoves := Moves.endCore t order phase (.finished false) hpops ht hphase ⟨rfl, rfl⟩
  simpa [Preparation.failCore, hsame] using hmoves

theorem cancelConversion_moves {watchdog : Bool} (ht : s.task t = .conversion order phase)
    (hpops : s.popsEntry cfg e = if phase.waits then some order.entry else none)
    (hstep : s.cancelConversion t order watchdog phase = some s') :
    Moves cfg s e s'.registers := by
  have hconvert (phase' : ConvertPhase) (hnone : s.popsEntry cfg e = none)
      (hphase : phase.isReturned = false) (hearly : phase'.early = true → phase.early = true) :
      Moves cfg s e (s.goTo t (.conversion order phase')).registers :=
    .convert t order phase phase' hnone ht hphase hearly
  cases phase with
  | waitLock wasDownloaded profile =>
    obtain rfl := Option.some.inj hstep
    exact .endCore t order _ (.finished !watchdog) hpops ht rfl ⟨rfl, rfl⟩
  | converting wasDownloaded profile exported published =>
    obtain rfl := Option.some.inj hstep
    have hmoves := hconvert (.terminating watchdog) hpops rfl (fun _ => rfl)
    simpa using hmoves
  | terminating first =>
    obtain rfl := Option.some.inj hstep
    exact hconvert _ hpops rfl (fun _ => rfl)
  | returned cancelled => cases hstep
  | queued =>
    obtain rfl := Option.some.inj hstep
    exact hconvert _ hpops rfl nofun
  | preflight =>
    obtain rfl := Option.some.inj hstep
    exact hconvert _ hpops rfl nofun
  | profiling wasDownloaded =>
    obtain rfl := Option.some.inj hstep
    exact hconvert _ hpops rfl nofun
  | persisting profile =>
    obtain rfl := Option.some.inj hstep
    exact hconvert _ hpops rfl nofun
  | recording profile =>
    obtain rfl := Option.some.inj hstep
    exact hconvert _ hpops rfl nofun
  | measuring =>
    obtain rfl := Option.some.inj hstep
    exact hconvert _ hpops rfl nofun
  | finished cancelled =>
    obtain rfl := Option.some.inj hstep
    exact hconvert _ hpops rfl nofun

end

/-! ### Loads -/

section
variable {phase : LoadPhase}

theorem finishLoad_moves {status : Option Status} (hpops : s.popsEntry cfg e = none)
    (ht : s.task t = .load m phase) (hlive : phase.live = true)
    (hinline : ∀ c, phase = .converting c →
      ∃ order cancelled, s.task c = .conversion order (.returned cancelled))
    (hsame : s'.registers = s.registers) :
    Moves cfg s e (s'.finishLoad t m status).registers := by
  have hmoves := Moves.endLoad t m phase hpops ht hlive hinline
  have hregisters : (s'.finishLoad t m status).registers =
      (((s'.setStatus m status).releaseLoadLock t).registers.goTo t (.load m .finished)).setLoad m
        none := by
    unfold Preparation.finishLoad Preparation.releaseLoadLock
    split <;> rfl
  rw [hregisters]
  simpa [hsame] using hmoves

theorem goLoad_moves {phase' : LoadPhase} (hpops : s.popsEntry cfg e = none)
    (ht : s.task t = .load m phase) (hlive : phase.live = true)
    (hinline : ∀ c, phase = .converting c →
      ∃ order cancelled, s.task c = .conversion order (.returned cancelled))
    (hphase' : ∀ c, phase' ≠ .converting c) (hbuild : ∀ chosen, phase' ≠ .building chosen)
    (hsame : s'.registers = s.registers) :
    Moves cfg s e (s'.goTo t (.load m phase')).registers := by
  rw [registers_goTo, hsame]
  apply Moves.load t m phase phase' hpops ht hinline hphase' (fun _ => hlive)
  intro chosen heq
  exact absurd heq (hbuild chosen)

theorem startBuild_moves {device : DeviceExpression} (hpops : s.popsEntry cfg e = none)
    (ht : s.task t = .load m phase) (hlive : phase.live = true)
    (hinline : ∀ c, phase = .converting c →
      ∃ order cancelled, s.task c = .conversion order (.returned cancelled))
    (he : e = .enterLoad t device true ∨ e = .resumeLoad t device true)
    {loadLock : Option Nat} :
    Moves cfg s e (Preparation.startBuild cfg { s with loadLock } t m device).registers := by
  refine .load t m phase (.building _) hpops ht hinline ?_ (fun _ => hlive) ?_
  · intro c heq
    cases heq
  · intro chosen heq
    exact ⟨device, he, (LoadPhase.building.inj heq).symm⟩

theorem cancelLoad_moves (ht : s.task t = .load m phase)
    (hpops : s.popsEntry cfg e = match phase with
      | .converting c =>
        match s.task c with
        | .conversion order phase => if phase.waits then some order.entry else none
        | _ => none
      | _ => none)
    (hstep : s.cancelLoad t m phase = some s') : Moves cfg s e s'.registers := by
  cases phase with
  | converting c =>
    unfold Preparation.cancelLoad at hstep
    dsimp only at hstep hpops
    split at hstep
    · next order phase hc =>
      apply cancelConversion_moves hc _ hstep
      rw [hpops, hc]
    · cases hstep
  | queued =>
    obtain rfl := Option.some.inj hstep
    exact goLoad_moves hpops ht rfl nofun nofun nofun rfl
  | waitLock =>
    obtain rfl := Option.some.inj hstep
    exact finishLoad_moves hpops ht rfl nofun rfl
  | handoff device =>
    obtain rfl := Option.some.inj hstep
    exact finishLoad_moves hpops ht rfl nofun rfl
  | settling =>
    obtain rfl := Option.some.inj hstep
    exact finishLoad_moves hpops ht rfl nofun rfl
  | building device =>
    obtain rfl := Option.some.inj hstep
    exact goLoad_moves hpops ht rfl nofun nofun nofun rfl
  | finished => cases hstep
  | returned => cases hstep

end

/-! ### Every step -/

theorem endErasure_moves {kind : Erasure} (hthread : kind ∈ s.erasing m) :
    Moves cfg s (.endErasure m kind) (s.endErasure m kind).registers := by
  cases kind with
  | removal => exact .endRemoval m rfl
  | delete => exact .endDelete m rfl hthread

/-- A step does one of the changes of `Moves`. -/
theorem step_moves (hstep : s.step cfg e = some s') : Moves cfg s e s'.registers := by
  cases e with
  | scheduleLoad m device =>
    obtain rfl := Option.some.inj hstep
    exact scheduleLoad_moves rfl rfl
  | scheduleConvert m device loadAfter request =>
    obtain rfl := Option.some.inj hstep
    exact scheduleConvert_moves
  | startConversion t =>
    simp only [Preparation.step] at hstep
    split at hstep
    · next order ht =>
      obtain rfl := Option.some.inj hstep
      unfold Preparation.startConversion
      split
      · exact .convert t order _ _ rfl ht rfl (fun _ => rfl)
      · exact beginConversion_moves rfl ht rfl
    · cases hstep
  | endPreflight t granted =>
    simp only [Preparation.step] at hstep
    split at hstep
    · next order ht =>
      obtain rfl := Option.some.inj hstep
      cases granted with
      | true => exact beginConversion_moves rfl ht rfl
      | false =>
        exact .endCore t order _ (.finished false) (by simp [Preparation.popsEntry, ht]) ht rfl
          ⟨rfl, rfl⟩
    · cases hstep
  | readArchitecture t npuGroupSize invalidated =>
    simp only [Preparation.step] at hstep
    split at hstep
    · next order wasDownloaded ht =>
      obtain rfl := Option.some.inj hstep
      have hwait (profile : ConversionProfile) :
          Moves cfg s (.readArchitecture t npuGroupSize invalidated) _ :=
        .convert t order _ (.waitLock wasDownloaded profile) rfl ht rfl (fun _ => rfl)
      unfold Preparation.afterArchitecture
      dsimp only
      split
      · split
        · exact hwait _
        · exact .convert t order _ (.finished false) rfl ht rfl nofun
      · exact hwait _
    · cases hstep
  | enterConversion t =>
    simp only [Preparation.step] at hstep
    split at hstep
    · next order wasDownloaded profile ht hfree =>
      obtain rfl := Option.some.inj hstep
      unfold Preparation.enterConversion
      split
      · next hready =>
        exact afterCore_moves (by simp [Preparation.popsEntry, ht, hready]) ht rfl rfl
      · next hready =>
        split
        · next hsource =>
          apply Moves.convert t order _ (.converting wasDownloaded profile _ false) _ ht rfl
            (fun _ => rfl)
          simp only [Preparation.popsEntry, ht, if_neg hready, hsource, if_true]
        · next hsource =>
          apply failCore_moves _ ht rfl rfl
          simp only [Preparation.popsEntry, ht, if_neg hready, hsource]
          rfl
    · cases hstep
  | publish t =>
    simp only [Preparation.step] at hstep
    split at hstep
    · next order wasDownloaded profile exported ht =>
      obtain rfl := Option.some.inj hstep
      exact .convert t order _ (.converting wasDownloaded profile exported true) rfl ht rfl
        (fun _ => rfl)
    · cases hstep
  | endProcess t ok =>
    simp only [Preparation.step] at hstep
    split at hstep
    · next order wasDownloaded profile exported published ht =>
      split at hstep
      · cases hstep
      · obtain rfl := Option.some.inj hstep
        have hpops : s.popsEntry cfg (.endProcess t ok) = some order.entry := by
          simp [Preparation.popsEntry, ht]
        unfold Preparation.endProcess
        dsimp only
        split
        · exact afterCore_moves hpops ht rfl (by simp)
        · exact failCore_moves hpops ht rfl (by simp)
    · cases hstep
  | persist t ok =>
    simp only [Preparation.step] at hstep
    split at hstep
    · next order profile ht =>
      obtain rfl := Option.some.inj hstep
      unfold Preparation.persist
      split
      · exact .convert t order _ (.recording profile) rfl ht rfl nofun
      · exact .convert t order _ (.finished false) rfl ht rfl nofun
    · cases hstep
  | record t ok =>
    simp only [Preparation.step] at hstep
    split at hstep
    · next order profile ht =>
      obtain rfl := Option.some.inj hstep
      have hmeasure : Moves cfg s (.record t ok) _ :=
        .convert t order _ .measuring rfl ht rfl nofun
      unfold Preparation.record
      dsimp only
      split <;> exact hmeasure
    · cases hstep
  | measure t =>
    simp only [Preparation.step] at hstep
    split at hstep
    · next order ht =>
      obtain rfl := Option.some.inj hstep
      exact .convert t order _ (.finished false) rfl ht rfl nofun
    · cases hstep
  | endTermination t =>
    simp only [Preparation.step] at hstep
    split at hstep
    · next order watchdog ht =>
      obtain rfl := Option.some.inj hstep
      exact .endCore t order _ (.finished !watchdog) (by simp [Preparation.popsEntry, ht]) ht rfl
        ⟨rfl, rfl⟩
    · cases hstep
  | returnConversion t =>
    simp only [Preparation.step] at hstep
    split at hstep
    · next order cancelled ht =>
      obtain rfl := Option.some.inj hstep
      exact .convert t order _ (.returned cancelled) rfl ht rfl nofun
    · cases hstep
  | runCallback t =>
    simp only [Preparation.step] at hstep
    split at hstep
    · next order cancelled ht =>
      obtain rfl := Option.some.inj hstep
      have hscheduled : s.scheduled (.runCallback t) = some order.model := by
        simp [Preparation.scheduled, ht]
      unfold Preparation.runCallback
      split
      · dsimp only
        split
        · exact .stay rfl
        · split
          · exact .stay rfl
          · exact scheduleLoad_moves rfl hscheduled
      · exact .stay rfl
    · cases hstep
  | startLoad t go =>
    simp only [Preparation.step] at hstep
    split at hstep
    · next m ht =>
      obtain rfl := Option.some.inj hstep
      unfold Preparation.startLoad
      split
      · exact goLoad_moves rfl ht rfl nofun nofun nofun rfl
      · exact finishLoad_moves rfl ht rfl nofun rfl
    · cases hstep
  | enterLoad t device go =>
    simp only [Preparation.step] at hstep
    split at hstep
    · next m ht hfree =>
      obtain rfl := Option.some.inj hstep
      unfold Preparation.enterLoad
      dsimp only
      split
      · next hgo =>
        split
        · exact startBuild_moves rfl ht rfl nofun (.inl (by rw [hgo]))
        · exact .newInline t { model := m, device, owner := some t } rfl ht rfl
      · exact finishLoad_moves rfl ht rfl nofun rfl
    · cases hstep
  | resumeLoad t device go =>
    simp only [Preparation.step] at hstep
    split at hstep
    · next m c ht =>
      split at hstep
      · next order cancelled hc =>
        obtain rfl := Option.some.inj hstep
        have hinline : ∀ c', LoadPhase.converting c = .converting c' →
            ∃ order cancelled, s.task c' = .conversion order (.returned cancelled) := by
          intro c' heq
          obtain rfl := LoadPhase.converting.inj heq
          exact ⟨order, cancelled, hc⟩
        unfold Preparation.afterConversion
        split
        · exact finishLoad_moves rfl ht rfl hinline rfl
        · split
          · split
            · next hgo => exact startBuild_moves rfl ht rfl hinline (.inr (by rw [hgo]))
            · exact goLoad_moves rfl ht rfl hinline nofun nofun (by simp)
          · exact finishLoad_moves rfl ht rfl hinline rfl
      · cases hstep
    · cases hstep
  | endBuild t built =>
    simp only [Preparation.step] at hstep
    split at hstep
    · next m device ht =>
      obtain rfl := Option.some.inj hstep
      unfold Preparation.endBuild
      split
      · split
        · exact goLoad_moves rfl ht rfl nofun nofun nofun rfl
        · exact finishLoad_moves rfl ht rfl nofun rfl
      · exact finishLoad_moves rfl ht rfl nofun rfl
    · next m ht =>
      obtain rfl := Option.some.inj hstep
      exact finishLoad_moves rfl ht rfl nofun rfl
    · cases hstep
  | handoff t go =>
    simp only [Preparation.step] at hstep
    split at hstep
    · next m device ht =>
      obtain rfl := Option.some.inj hstep
      unfold Preparation.handoff
      split
      · have hfinish : Moves cfg s (.handoff t go) (s.finishLoad t m none).registers :=
          finishLoad_moves rfl ht rfl nofun rfl
        exact hfinish
      · exact goLoad_moves rfl ht rfl nofun nofun nofun (by simp)
    · cases hstep
  | returnLoad t =>
    simp only [Preparation.step] at hstep
    split at hstep
    · next m ht =>
      obtain rfl := Option.some.inj hstep
      exact .load t m _ .returned rfl ht nofun nofun nofun nofun
    · cases hstep
  | cancel t watchdog =>
    simp only [Preparation.step] at hstep
    split at hstep
    · next m phase ht =>
      apply cancelLoad_moves ht _ hstep
      simp only [Preparation.popsEntry, ht]
      cases phase <;> rfl
    · next order phase ht =>
      split at hstep
      · cases hstep
      · apply cancelConversion_moves ht _ hstep
        simp only [Preparation.popsEntry, ht]
    · cases hstep
  | startDelete m =>
    obtain rfl := Option.some.inj hstep
    unfold Preparation.startDelete
    split
    · exact .stay rfl
    · next hguard =>
      simp only [not_or, Bool.not_eq_true] at hguard
      exact .startErasing m .delete false rfl (.inl rfl) hguard.2.1 hguard.2.2.2
  | startRemoval m refusesLoaded =>
    obtain rfl := Option.some.inj hstep
    unfold Preparation.startRemoval
    split
    · exact .stay rfl
    · next hguard =>
      simp only [not_or, Bool.not_eq_true] at hguard
      exact .startErasing m .removal refusesLoaded rfl (.inr rfl) hguard.2.1 hguard.2.2.2.1
  | endErasure m kind =>
    simp only [Preparation.step] at hstep
    split at hstep
    · next hthread =>
      obtain rfl := Option.some.inj hstep
      exact endErasure_moves hthread
    · cases hstep
  | endRecovery m =>
    simp only [Preparation.step] at hstep
    split at hstep
    · obtain rfl := Option.some.inj hstep
      exact .stay rfl
    · cases hstep
  | unload m =>
    simp only [Preparation.step] at hstep
    split at hstep
    · obtain rfl := Option.some.inj hstep
      exact .stay rfl
    · cases hstep

end InferBridge
