/-
InferBridge/ArtifactExclusion.lean

Who works on a model directory.

A native build reads the directory of its model, a converter process writes
it, and a deletion or a recovery removal empties it in a worker thread.  What
keeps them apart are the entries of the two task maps, the deferral of loads
and, where it is installed, the storage guard.

Main results.  They exclude one another in every state of a run in which no
conversion is accepted while a load of the model is active and nothing is
started while its directory is being removed (`exclusive_of_serializes`).
Without that, a conversion replaces the directory under a native build
(`exclusive_lost`).
-/
import InferBridge.PreparationMoves

namespace InferBridge

variable {μ : Type*}

/-! ### Work on a directory -/

/-- The model whose directory the task reads in a native build or writes in a converter
process. -/
def Work.worksOn : Work μ → Option μ
  | .load m (.building _) | .load m .settling => some m
  | .conversion order (.converting _ _ _ _) | .conversion order (.terminating _) =>
    some order.model
  | _ => none

/-- At most one task or thread works on a directory. -/
structure Registers.Exclusive (r : Registers μ) : Prop where
  tasks : ∀ m t t', (r.task t).worksOn = some m → (r.task t').worksOn = some m → t = t'
  threads : ∀ m, (r.erasing m).length ≤ 1
  apart : ∀ m t, (r.task t).worksOn = some m → r.erasing m = []

/-- A load that is registered. -/
def Registers.Loads (r : Registers μ) (t : Nat) (m : μ) : Prop :=
  ∃ phase, r.task t = .load m phase ∧ phase.live = true

/-- A conversion whose core body has not returned. -/
def Registers.Converts (r : Registers μ) (t : Nat) (order : ConversionOrder μ) : Prop :=
  ∃ phase, r.task t = .conversion order phase ∧ phase.early = true

/-- Loads and conversions are the entries of their model, an inline conversion is the one that
its load waits for, and neither overlaps with the other or with a removal. -/
structure Registers.Apart (r : Registers μ) : Prop where
  fresh : ∀ t, r.nextTask ≤ t → r.task t = .absent
  load : ∀ t m, r.Loads t m → r.loadTasks m = some t
  conversion : ∀ t order, r.Converts t order → order.owner = none →
    r.convertTasks order.model = some t
  inline : ∀ t order l, r.Converts t order → order.owner = some l →
    r.task l = .load order.model (.converting t)
  single : ∀ t order l, r.Converts t order → order.owner = none → ¬ r.Loads l order.model
  erasingLoad : ∀ t m, r.Loads t m → r.erasing m = []
  erasingConversion : ∀ t order, r.Converts t order → r.erasing order.model = []
  threads : ∀ m, (r.erasing m).length ≤ 1

variable [DecidableEq μ] {cfg : PreparationSettings μ} {s s' : Preparation μ}
  {e : PreparationEvent μ} {r : Registers μ} {t l : Nat} {m : μ} {order : ConversionOrder μ}

/-- A conversion is started while no load of the model is active, and nothing is started on a
directory that is being removed. -/
def serializes (cfg : PreparationSettings μ) (s : Preparation μ) (e : PreparationEvent μ) : Bool :=
  (match s.scheduled e with
    | some m => s.cleanupBlocks cfg m || (s.erasing m).isEmpty
    | none => true) &&
  match e with
  | .scheduleConvert m _ _ request =>
    s.conversionActive m || (s.engines m).isSome ||
      (s.isDownloaded m && decide (request.weightFormat = none)) || !s.loadActive m
  | .startDelete m | .startRemoval m _ => s.mutationRefused cfg m || (s.erasing m).isEmpty
  | _ => true

/-! ### The entries exclude one another -/

namespace Registers.Apart

omit [DecidableEq μ] in
theorem owner_loads (h : r.Apart) (hconverts : r.Converts t order) (howner : order.owner = some l) :
    r.Loads l order.model := by
  exact ⟨.converting t, h.inline t order l hconverts howner, rfl⟩

omit [DecidableEq μ] in
/-- Where neither a load nor a scheduled conversion is at work, no conversion is. -/
theorem not_converts (h : r.Apart) (hload : ∀ l, ¬ r.Loads l order.model)
    (hscheduled : order.owner = none → ¬ r.Converts t order) : ¬ r.Converts t order := by
  intro hconverts
  rcases howner : order.owner with - | l
  · exact hscheduled howner hconverts
  · exact hload l (h.owner_loads hconverts howner)

omit [DecidableEq μ] in
/-- The tasks that work on a directory. -/
theorem works {r : Registers μ} (hworks : (r.task t).worksOn = some m) :
    (r.Loads t m ∧ ∀ c, r.task t ≠ .load m (.converting c)) ∨
      ∃ order, order.model = m ∧ r.Converts t order := by
  unfold Work.worksOn at hworks
  split at hworks
  · next heq =>
    obtain rfl := Option.some.inj hworks
    exact .inl ⟨⟨_, heq, rfl⟩, by simp [heq]⟩
  · next heq =>
    obtain rfl := Option.some.inj hworks
    exact .inl ⟨⟨_, heq, rfl⟩, by simp [heq]⟩
  · next order _ _ _ _ heq => exact .inr ⟨order, Option.some.inj hworks, _, heq, rfl⟩
  · next order _ heq => exact .inr ⟨order, Option.some.inj hworks, _, heq, rfl⟩
  · cases hworks

omit [DecidableEq μ] in
/-- A build and a conversion of one model do not meet. -/
theorem load_ne_conversion (h : r.Apart) (hloads : r.Loads t order.model)
    (hbuild : ∀ c, r.task t ≠ .load order.model (.converting c)) : ¬ r.Converts l order := by
  intro hconverts
  rcases howner : order.owner with - | l'
  · exact h.single l order t hconverts howner hloads
  · -- the owner is registered, as the build is
    have howns := h.load l' order.model (h.owner_loads hconverts howner)
    rw [h.load t order.model hloads] at howns
    obtain rfl := Option.some.inj howns
    exact hbuild l (h.inline l order t hconverts howner)

omit [DecidableEq μ] in
theorem conversion_unique (h : r.Apart) {order' : ConversionOrder μ} {t' : Nat}
    (hconverts : r.Converts t order) (hconverts' : r.Converts t' order')
    (hmodel : order'.model = order.model) : t = t' := by
  rcases howner : order.owner with - | l
  · rcases howner' : order'.owner with - | l'
    · have hentry := h.conversion t order hconverts howner
      have hentry' := h.conversion t' order' hconverts' howner'
      rw [hmodel, hentry] at hentry'
      exact Option.some.inj hentry'
    · have hloads := h.owner_loads hconverts' howner'
      rw [hmodel] at hloads
      exact absurd hloads (h.single t order l' hconverts howner)
  · have hinline := h.inline t order l hconverts howner
    have hloads := h.owner_loads hconverts howner
    rcases howner' : order'.owner with - | l'
    · rw [← hmodel] at hloads
      exact absurd hloads (h.single t' order' l hconverts' howner')
    · have hinline' := h.inline t' order' l' hconverts' howner'
      have hentry' := h.load l' order'.model (h.owner_loads hconverts' howner')
      rw [hmodel, h.load l order.model hloads] at hentry'
      obtain rfl := Option.some.inj hentry'
      rw [hinline] at hinline'
      simpa using (Work.load.inj hinline').2

omit [DecidableEq μ] in
theorem exclusive (h : r.Apart) : r.Exclusive where
  tasks := by
    intro m t t' ht ht'
    rcases works ht with ⟨hloads, hbuild⟩ | ⟨order, rfl, hconverts⟩
    · rcases works ht' with ⟨hloads', -⟩ | ⟨order, rfl, hconverts⟩
      · have hentry := h.load t m hloads
        rw [h.load t' m hloads'] at hentry
        exact (Option.some.inj hentry).symm
      · exact absurd hconverts (h.load_ne_conversion hloads hbuild)
    · rcases works ht' with ⟨hloads', hbuild'⟩ | ⟨order', hmodel, hconverts'⟩
      · exact absurd hconverts (h.load_ne_conversion hloads' hbuild')
      · exact h.conversion_unique hconverts hconverts' hmodel
  threads := h.threads
  apart := by
    intro m t ht
    rcases works ht with ⟨hloads, -⟩ | ⟨order, rfl, hconverts⟩
    · exact h.erasingLoad t m hloads
    · exact h.erasingConversion t order hconverts

omit [DecidableEq μ] in
/-- Loads and conversions end, and their entries stay where they do not. -/
theorem mono {r' : Registers μ} (h : r.Apart) (hfresh : ∀ t, r'.nextTask ≤ t → r'.task t = .absent)
    (hload : ∀ t m, r'.Loads t m → r.Loads t m ∧ r'.loadTasks m = r.loadTasks m)
    (hconversion : ∀ t order, r'.Converts t order → r.Converts t order ∧
      (order.owner = none → r'.convertTasks order.model = r.convertTasks order.model) ∧
      ∀ l, order.owner = some l → r'.task l = r.task l)
    (herasing : ∀ m, r'.erasing m = [] ∨ r'.erasing m = r.erasing m) : r'.Apart where
  fresh := hfresh
  load := by
    intro t m ht
    rw [(hload t m ht).2]
    exact h.load t m (hload t m ht).1
  conversion := by
    intro t order ht howner
    obtain ⟨hconverts, hentry, -⟩ := hconversion t order ht
    rw [hentry howner]
    exact h.conversion t order hconverts howner
  inline := by
    intro t order l ht howner
    obtain ⟨hconverts, -, hsame⟩ := hconversion t order ht
    rw [hsame l howner]
    exact h.inline t order l hconverts howner
  single := by
    intro t order l ht howner hl
    exact h.single t order l (hconversion t order ht).1 howner (hload l _ hl).1
  erasingLoad := by
    intro t m ht
    rcases herasing m with hnone | hsame
    · exact hnone
    · rw [hsame]
      exact h.erasingLoad t m (hload t m ht).1
  erasingConversion := by
    intro t order ht
    rcases herasing order.model with hnone | hsame
    · exact hnone
    · rw [hsame]
      exact h.erasingConversion t order (hconversion t order ht).1
  threads := by
    intro m
    rcases herasing m with hnone | hsame
    · simp [hnone]
    · rw [hsame]
      exact h.threads m

end Registers.Apart

/-! ### What a step keeps -/

section
variable {work : Work μ}

omit [DecidableEq μ] in
theorem Registers.task_goTo (t' : Nat) :
    (r.goTo t work).task t' = if t' = t then work else r.task t' := by
  rw [Registers.goTo]
  exact Function.update_apply ..

omit [DecidableEq μ] in
theorem Registers.task_spawn (t' : Nat) :
    (r.spawn work).task t' = if t' = r.nextTask then work else r.task t' := by
  rw [Registers.spawn]
  exact Function.update_apply ..

omit [DecidableEq μ] in
theorem Registers.Apart.fresh_goTo (h : r.Apart) (ht : r.task t ≠ .absent) (t' : Nat)
    (hlater : (r.goTo t work).nextTask ≤ t') : (r.goTo t work).task t' = .absent := by
  have hne : t' ≠ t := by
    rintro rfl
    exact ht (h.fresh t' hlater)
  rw [Registers.task_goTo, if_neg hne]
  exact h.fresh t' hlater

omit [DecidableEq μ] in
theorem Registers.Apart.fresh_spawn (h : r.Apart) (t' : Nat)
    (hlater : (r.spawn work).nextTask ≤ t') : (r.spawn work).task t' = .absent := by
  have hlater' : r.nextTask + 1 ≤ t' := hlater
  have hne : t' ≠ r.nextTask := by omega
  rw [Registers.task_spawn, if_neg hne]
  exact h.fresh t' (by omega)

omit [DecidableEq μ] in
/-- A task goes on, and if it is still registered then as before. -/
theorem Registers.Apart.goTo (h : r.Apart) (ht : r.task t ≠ .absent)
    (hload : ∀ m, (r.goTo t work).Loads t m → r.Loads t m)
    (hconversion : ∀ order, (r.goTo t work).Converts t order → r.Converts t order)
    (howner : ∀ t' order, r.Converts t' order → r.task t ≠ .load order.model (.converting t')) :
    (r.goTo t work).Apart := by
  refine h.mono (h.fresh_goTo ht) ?_ ?_ (fun _ => .inr rfl)
  · intro t' m hloads
    refine ⟨?_, rfl⟩
    by_cases heq : t' = t
    · subst heq
      exact hload m hloads
    · obtain ⟨phase, ht', hlive⟩ := hloads
      rw [Registers.task_goTo, if_neg heq] at ht'
      exact ⟨phase, ht', hlive⟩
  · intro t' order hconverts
    have hold : r.Converts t' order := by
      by_cases heq : t' = t
      · subst heq
        exact hconversion order hconverts
      · obtain ⟨phase, ht', hearly⟩ := hconverts
        rw [Registers.task_goTo, if_neg heq] at ht'
        exact ⟨phase, ht', hearly⟩
    refine ⟨hold, fun _ => rfl, ?_⟩
    intro l hl
    have hne : l ≠ t := by
      rintro rfl
      exact howner t' order hold (h.inline t' order l hold hl)
    rw [Registers.task_goTo, if_neg hne]

omit [DecidableEq μ] in
/-- A conversion goes on. -/
theorem Registers.Apart.goConversion (h : r.Apart) {phase phase' : ConvertPhase}
    (ht : r.task t = .conversion order phase)
    (hearly : phase'.early = true → phase.early = true) :
    (r.goTo t (.conversion order phase')).Apart := by
  apply h.goTo (by simp [ht])
  · rintro m ⟨phase'', ht', -⟩
    simp [Registers.task_goTo] at ht'
  · rintro order' ⟨phase'', ht', hphase⟩
    rw [Registers.task_goTo, if_pos rfl] at ht'
    obtain ⟨rfl, rfl⟩ := Work.conversion.inj ht'
    exact ⟨phase, ht, hearly hphase⟩
  · intro t' order' _ hload
    rw [ht] at hload
    cases hload

omit [DecidableEq μ] in
/-- A load goes on; it does not wait for a conversion that is at work. -/
theorem Registers.Apart.goLoad (h : r.Apart) {phase phase' : LoadPhase}
    (ht : r.task t = .load m phase)
    (hinline : ∀ c, phase = .converting c →
      ∃ order cancelled, r.task c = .conversion order (.returned cancelled))
    (hlive : phase'.live = true → phase.live = true) : (r.goTo t (.load m phase')).Apart := by
  apply h.goTo (by simp [ht])
  · rintro m' ⟨phase'', ht', hphase⟩
    rw [Registers.task_goTo, if_pos rfl] at ht'
    obtain ⟨rfl, rfl⟩ := Work.load.inj ht'
    exact ⟨phase, ht, hlive hphase⟩
  · rintro order ⟨phase'', ht', -⟩
    simp [Registers.task_goTo] at ht'
  · rintro t' order ⟨phase'', ht', hearly⟩ hload
    rw [ht] at hload
    obtain ⟨order', cancelled, hc⟩ := hinline t' (Work.load.inj hload).2
    rw [hc] at ht'
    obtain ⟨-, rfl⟩ := Work.conversion.inj ht'
    cases hearly

end

/-- An entry is popped where no load of the model is left. -/
theorem Registers.Apart.popLoad (h : r.Apart) (hnone : ∀ t, ¬ r.Loads t m) :
    (r.setLoad m none).Apart := by
  refine h.mono h.fresh ?_ ?_ (fun _ => .inr rfl)
  · intro t m' hloads
    refine ⟨hloads, ?_⟩
    have hne : m' ≠ m := by
      rintro rfl
      exact hnone t hloads
    simp [Registers.setLoad, hne]
  · intro t order hconverts
    exact ⟨hconverts, fun _ => rfl, fun _ _ => rfl⟩

/-- An entry is popped where no scheduled conversion of the model is left. -/
theorem Registers.Apart.popConversion (h : r.Apart)
    (hnone : ∀ t order, order.model = m → order.owner = none → ¬ r.Converts t order) :
    (r.setConversion m none).Apart := by
  refine h.mono h.fresh ?_ ?_ (fun _ => .inr rfl)
  · intro t m' hloads
    exact ⟨hloads, rfl⟩
  · intro t order hconverts
    refine ⟨hconverts, ?_, fun _ _ => rfl⟩
    intro howner
    have hne : order.model ≠ m := fun hmodel => hnone t order hmodel howner hconverts
    simp [Registers.setConversion, hne]

/-- A thread ends. -/
theorem Registers.Apart.erase (h : r.Apart) (m : μ) (kind : Erasure) :
    (r.setErasing m ((r.erasing m).erase kind)).Apart := by
  refine h.mono h.fresh (fun t m' hloads => ⟨hloads, rfl⟩)
    (fun t order hconverts => ⟨hconverts, fun _ => rfl, fun _ _ => rfl⟩) ?_
  intro m'
  by_cases hm : m' = m
  · subst hm
    -- there is at most one thread
    have hone := h.threads m'
    rcases hthreads : r.erasing m' with - | ⟨kind', - | ⟨kind'', threads⟩⟩
    · simp [Registers.setErasing]
    · by_cases hkind : kind' = kind
      · simp [Registers.setErasing, hkind]
      · simp [Registers.setErasing, hkind]
    · simp [hthreads] at hone
  · simp [Registers.setErasing, hm]

omit [DecidableEq μ] in
/-- A model without an active entry is not loaded. -/
theorem Registers.Apart.not_loads (h : s.registers.Apart) (hidle : s.loadActive m = false) :
    ¬ s.registers.Loads t m := by
  intro hloads
  have hentry : s.loadTasks m = some t := h.load t m hloads
  obtain ⟨phase, ht, hlive⟩ := hloads
  have ht' : s.task t = .load m phase := ht
  have hdone : (s.task t).done = true := by
    simpa [Preparation.loadActive, Preparation.active, hentry] using hidle
  rw [ht'] at hdone
  cases phase <;> first | (cases hlive; done) | cases hdone

omit [DecidableEq μ] in
theorem Registers.Apart.not_converts_scheduled (h : s.registers.Apart)
    (hidle : s.conversionActive order.model = false) (howner : order.owner = none) :
    ¬ s.registers.Converts t order := by
  intro hconverts
  have hentry : s.convertTasks order.model = some t := h.conversion t order hconverts howner
  obtain ⟨phase, ht, hearly⟩ := hconverts
  have ht' : s.task t = .conversion order phase := ht
  have hdone : (s.task t).done = true := by
    simpa [Preparation.conversionActive, Preparation.active, hentry] using hidle
  rw [ht'] at hdone
  cases phase <;> first | (cases hearly; done) | cases hdone

omit [DecidableEq μ] in
/-- Nothing of the model is at work. -/
theorem Registers.Apart.not_converts_inactive (h : s.registers.Apart)
    (hload : s.loadActive order.model = false)
    (hconversion : s.conversionActive order.model = false) :
    ¬ s.registers.Converts t order :=
  h.not_converts (fun _ => h.not_loads hload) (h.not_converts_scheduled hconversion)

/-! ### New tasks and threads -/

omit [DecidableEq μ] in
/-- The loads after a task was created. -/
theorem Registers.loads_spawn {work : Work μ} (hloads : (r.spawn work).Loads t m) :
    (t = r.nextTask ∧ ∃ phase, work = .load m phase) ∨ r.Loads t m := by
  obtain ⟨phase, ht, hlive⟩ := hloads
  rw [Registers.task_spawn] at ht
  split at ht
  · next heq => exact .inl ⟨heq, phase, ht⟩
  · exact .inr ⟨phase, ht, hlive⟩

omit [DecidableEq μ] in
theorem Registers.converts_spawn {work : Work μ} (hconverts : (r.spawn work).Converts t order) :
    (t = r.nextTask ∧ ∃ phase, work = .conversion order phase) ∨ r.Converts t order := by
  obtain ⟨phase, ht, hearly⟩ := hconverts
  rw [Registers.task_spawn] at ht
  split at ht
  · next heq => exact .inl ⟨heq, phase, ht⟩
  · exact .inr ⟨phase, ht, hearly⟩

omit [DecidableEq μ] in
theorem Registers.Apart.inline_spawn (h : r.Apart) {work : Work μ} (hconverts : r.Converts t order)
    (howner : order.owner = some l) :
    (r.spawn work).task l = .load order.model (.converting t) := by
  have hl := h.inline t order l hconverts howner
  have hne : l ≠ r.nextTask := by
    rintro rfl
    rw [h.fresh r.nextTask le_rfl] at hl
    cases hl
  rw [Registers.task_spawn, if_neg hne]
  exact hl

/-- A load is registered where the model has neither a load nor a scheduled conversion at work,
and no thread removes its directory. -/
theorem Registers.Apart.newLoad (h : r.Apart) (hload : ∀ t, ¬ r.Loads t m)
    (hconversion : ∀ t order, order.model = m → order.owner = none → ¬ r.Converts t order)
    (herasing : r.erasing m = []) :
    ((r.spawn (.load m .queued)).setLoad m (some r.nextTask)).Apart := by
  have hloads : ∀ {t m'}, (r.spawn (.load m .queued)).Loads t m' →
      (t = r.nextTask ∧ m = m') ∨ r.Loads t m' := by
    intro t m' hspawn
    rcases Registers.loads_spawn hspawn with ⟨rfl, phase, heq⟩ | hold
    · exact .inl ⟨rfl, (Work.load.inj heq).1⟩
    · exact .inr hold
  have hconverts : ∀ {t order}, (r.spawn (.load m .queued)).Converts t order →
      r.Converts t order := by
    intro t order hspawn
    rcases Registers.converts_spawn hspawn with ⟨-, phase, heq⟩ | hold
    · cases heq
    · exact hold
  refine ⟨h.fresh_spawn, ?_, ?_, ?_, ?_, ?_, ?_, h.threads⟩
  · intro t m' ht
    rcases hloads ht with ⟨rfl, rfl⟩ | hold
    · simp [Registers.setLoad]
    · have hne : m' ≠ m := by
        rintro rfl
        exact hload t hold
      simpa [Registers.setLoad, Registers.spawn, hne] using h.load t m' hold
  · intro t order ht howner
    exact h.conversion t order (hconverts ht) howner
  · intro t order l ht howner
    exact h.inline_spawn (hconverts ht) howner
  · intro t order l ht howner hl
    rcases hloads hl with ⟨-, hm⟩ | hold
    · exact hconversion t order hm.symm howner (hconverts ht)
    · exact h.single t order l (hconverts ht) howner hold
  · intro t m' ht
    rcases hloads ht with ⟨-, rfl⟩ | hold
    · exact herasing
    · exact h.erasingLoad t m' hold
  · intro t order ht
    exact h.erasingConversion t order (hconverts ht)

/-- A conversion is registered where nothing of the model is at work. -/
theorem Registers.Apart.newConversion (h : r.Apart) (howner : order.owner = none)
    (hload : ∀ t, ¬ r.Loads t order.model)
    (hconversion : ∀ t order', order'.model = order.model → order'.owner = none →
      ¬ r.Converts t order')
    (herasing : r.erasing order.model = []) :
    ((r.spawn (.conversion order .queued)).setConversion order.model (some r.nextTask)).Apart := by
  have hloads : ∀ {t m}, (r.spawn (.conversion order .queued)).Loads t m → r.Loads t m := by
    intro t m hspawn
    rcases Registers.loads_spawn hspawn with ⟨-, phase, heq⟩ | hold
    · cases heq
    · exact hold
  have hconverts : ∀ {t order'}, (r.spawn (.conversion order .queued)).Converts t order' →
      (t = r.nextTask ∧ order = order') ∨ r.Converts t order' := by
    intro t order' hspawn
    rcases Registers.converts_spawn hspawn with ⟨rfl, phase, heq⟩ | hold
    · exact .inl ⟨rfl, (Work.conversion.inj heq).1⟩
    · exact .inr hold
  refine ⟨h.fresh_spawn, ?_, ?_, ?_, ?_, ?_, ?_, h.threads⟩
  · intro t m ht
    exact h.load t m (hloads ht)
  · intro t order' ht howner'
    rcases hconverts ht with ⟨rfl, rfl⟩ | hold
    · simp [Registers.setConversion]
    · have hne : order'.model ≠ order.model := by
        intro hmodel
        exact hconversion t order' hmodel howner' hold
      simpa [Registers.setConversion, Registers.spawn, hne] using
        h.conversion t order' hold howner'
  · intro t order' l ht howner'
    rcases hconverts ht with ⟨-, rfl⟩ | hold
    · rw [howner] at howner'
      cases howner'
    · exact h.inline_spawn hold howner'
  · intro t order' l ht howner' hl
    rcases hconverts ht with ⟨-, rfl⟩ | hold
    · exact hload l (hloads hl)
    · exact h.single t order' l hold howner' (hloads hl)
  · intro t m ht
    exact h.erasingLoad t m (hloads ht)
  · intro t order' ht
    rcases hconverts ht with ⟨-, rfl⟩ | hold
    · exact herasing
    · exact h.erasingConversion t order' hold

omit [DecidableEq μ] in
/-- A load with the lock starts its inline conversion. -/
theorem Registers.Apart.newInline (h : r.Apart) (ht : r.task t = .load order.model .waitLock)
    (howner : order.owner = some t) :
    ((r.spawn (.conversion order .queued)).goTo t
      (.load order.model (.converting r.nextTask))).Apart := by
  have hne : t ≠ r.nextTask := by
    rintro rfl
    rw [h.fresh r.nextTask le_rfl] at ht
    cases ht
  have hself : r.Loads t order.model := ⟨.waitLock, ht, rfl⟩
  have hloads : ∀ {t' m}, ((r.spawn (.conversion order .queued)).goTo t
      (.load order.model (.converting r.nextTask))).Loads t' m → r.Loads t' m := by
    rintro t' m ⟨phase, ht', hlive⟩
    rw [Registers.task_goTo] at ht'
    split at ht'
    · next heq =>
      obtain ⟨rfl, -⟩ := Work.load.inj ht'
      rwa [heq]
    · rcases Registers.loads_spawn ⟨phase, ht', hlive⟩ with ⟨-, phase, heq⟩ | hold
      · cases heq
      · exact hold
  have hconverts : ∀ {t' order'}, ((r.spawn (.conversion order .queued)).goTo t
      (.load order.model (.converting r.nextTask))).Converts t' order' →
      (t' = r.nextTask ∧ order = order') ∨ r.Converts t' order' := by
    rintro t' order' ⟨phase, ht', hearly⟩
    rw [Registers.task_goTo] at ht'
    split at ht'
    · cases ht'
    · rcases Registers.converts_spawn ⟨phase, ht', hearly⟩ with ⟨rfl, phase, heq⟩ | hold
      · exact .inl ⟨rfl, (Work.conversion.inj heq).1⟩
      · exact .inr hold
  refine ⟨?_, ?_, ?_, ?_, ?_, ?_, ?_, h.threads⟩
  · intro t' hlater
    have hlater' : r.nextTask + 1 ≤ t' := hlater
    have hne' : t' ≠ t := by
      rintro rfl
      rw [h.fresh t' (by omega)] at ht
      cases ht
    rw [Registers.task_goTo, if_neg hne']
    exact h.fresh_spawn t' hlater
  · intro t' m ht'
    exact h.load t' m (hloads ht')
  · intro t' order' ht' howner'
    rcases hconverts ht' with ⟨-, rfl⟩ | hold
    · rw [howner] at howner'
      cases howner'
    · exact h.conversion t' order' hold howner'
  · intro t' order' l ht' howner'
    rcases hconverts ht' with ⟨rfl, rfl⟩ | hold
    · rw [howner] at howner'
      obtain rfl := Option.some.inj howner'
      rw [Registers.task_goTo, if_pos rfl]
    · have hl := h.inline t' order' l hold howner'
      have hne' : l ≠ t := by
        rintro rfl
        rw [ht] at hl
        cases (Work.load.inj hl).2
      rw [Registers.task_goTo, if_neg hne']
      exact h.inline_spawn hold howner'
  · intro t' order' l ht' howner' hl
    rcases hconverts ht' with ⟨-, rfl⟩ | hold
    · rw [howner] at howner'
      cases howner'
    · exact h.single t' order' l hold howner' (hloads hl)
  · intro t' m ht'
    exact h.erasingLoad t' m (hloads ht')
  · intro t' order' ht'
    rcases hconverts ht' with ⟨-, rfl⟩ | hold
    · exact h.erasingLoad t order.model hself
    · exact h.erasingConversion t' order' hold

/-- A thread is started where nothing of the model is at work. -/
theorem Registers.Apart.startErasing (h : r.Apart) (kind : Erasure) (hload : ∀ t, ¬ r.Loads t m)
    (hconversion : ∀ t order, order.model = m → ¬ r.Converts t order) (herasing : r.erasing m = []) :
    (r.setErasing m [kind]).Apart := by
  refine ⟨h.fresh, h.load, h.conversion, h.inline, h.single, ?_, ?_, ?_⟩
  · intro t m' ht
    have hne : m' ≠ m := by
      rintro rfl
      exact hload t ht
    simpa [Registers.setErasing, hne] using h.erasingLoad t m' ht
  · intro t order ht
    have hne : order.model ≠ m := fun hmodel => hconversion t order hmodel ht
    simpa [Registers.setErasing, hne] using h.erasingConversion t order ht
  · intro m'
    by_cases hm : m' = m
    · simp [Registers.setErasing, hm]
    · simpa [Registers.setErasing, hm] using h.threads m'

/-! ### Every step -/

theorem Registers.Apart.step (h : s.registers.Apart) (hC : serializes cfg s e = true)
    {r : Registers μ} (hmoves : Preparation.Moves cfg s e r) : r.Apart := by
  cases hmoves with
  | stay => exact h
  | newLoad m _ hscheduled hblocks hconvert hload =>
    have herasing : s.erasing m = [] := by
      simp only [serializes, hscheduled, hblocks, Bool.false_or, Bool.and_eq_true] at hC
      exact List.isEmpty_iff.mp hC.1
    apply h.newLoad (fun _ => h.not_loads hload) _ herasing
    rintro t order rfl howner
    exact h.not_converts_scheduled hconvert howner
  | newConversion order device loadAfter request _ he howner hblocks hconvert hengine hneeded =>
    subst he
    have hidle : (s.erasing order.model = []) ∧ s.loadActive order.model = false := by
      have hneeded' : (s.isDownloaded order.model && decide (request.weightFormat = none)) =
          false := by simpa using hneeded
      simpa [serializes, Preparation.scheduled, hblocks, hconvert, hengine, hneeded'] using hC
    apply h.newConversion howner (fun _ => h.not_loads hidle.2) _ hidle.1
    intro t order' hmodel howner'
    rw [← hmodel] at hconvert
    exact h.not_converts_scheduled hconvert howner'
  | newInline t order _ ht howner => exact h.newInline ht howner
  | convert t order phase phase' _ ht _ hearly => exact h.goConversion ht hearly
  | endCore t order phase phase' _ ht hphase hphase' =>
    have hconverts : s.registers.Converts t order := ⟨phase, ht, hphase⟩
    have hnext : (s.registers.goTo t (.conversion order phase')).Apart := by
      apply h.goConversion ht
      rw [hphase'.1]
      intro hearly
      cases hearly
    -- the conversions of a model are one
    apply hnext.popConversion
    rintro t' order' hmodel howner' ⟨phase'', ht', hearly⟩
    rw [Registers.task_goTo] at ht'
    split at ht'
    · obtain ⟨-, rfl⟩ := Work.conversion.inj ht'
      rw [hphase'.1] at hearly
      cases hearly
    · next hne => exact hne (h.conversion_unique ⟨phase'', ht', hearly⟩ hconverts hmodel.symm)
  | load t m phase phase' _ ht hinline _ hlive => exact h.goLoad ht hinline hlive
  | endLoad t m phase _ ht hlive hinline =>
    have hloads : s.registers.Loads t m := ⟨phase, ht, hlive⟩
    have hnext : (s.registers.goTo t (.load m .finished)).Apart := by
      apply h.goLoad ht hinline
      intro hlive'
      cases hlive'
    apply hnext.popLoad
    rintro t' ⟨phase', ht', hlive'⟩
    rw [Registers.task_goTo] at ht'
    split at ht'
    · obtain ⟨-, rfl⟩ := Work.load.inj ht'
      cases hlive'
    · next hne =>
      have hentry := h.load t' m ⟨phase', ht', hlive'⟩
      rw [h.load t m hloads] at hentry
      exact hne (Option.some.inj hentry).symm
  | startErasing m kind refusesLoaded _ he hrefused hactive =>
    have herasing : s.erasing m = [] := by
      rcases he with rfl | rfl <;> simpa [serializes, Preparation.scheduled, hrefused] using hC
    simp only [Preparation.isActive, Bool.or_eq_false_iff] at hactive
    rw [herasing]
    apply h.startErasing kind (fun _ => h.not_loads hactive.1.2) _ herasing
    rintro t order rfl
    exact h.not_converts_inactive hactive.1.2 hactive.2
  | endRemoval m => exact h.erase m .removal
  | endDelete m _ hthread =>
    have hbusy : s.registers.erasing m ≠ [] := List.ne_nil_of_mem hthread
    apply Registers.Apart.popLoad
    · apply (h.erase m .delete).popConversion
      rintro t order rfl _ hconverts
      exact hbusy (h.erasingConversion t order hconverts)
    · intro t hloads
      exact hbusy (h.erasingLoad t m hloads)

/-! ### Runs -/

section
variable {weightFormat : μ → WeightFormat} {exported : μ → Option (Quantization × Bool)}

omit [DecidableEq μ] in
theorem apart_initial : (Preparation.initial weightFormat exported).registers.Apart := by
  constructor <;>
    simp [Preparation.registers, Preparation.initial, Registers.Loads, Registers.Converts]

end

/-- The model is downloaded as the catalog says, in INT8. -/
def downloaded : Preparation Nat := Preparation.initial (fun _ => .int8) (fun _ => some ({}, true))

/-- A load of the model up to the native build; its task is 0. -/
def buildsNative : List (PreparationEvent Nat) :=
  [.scheduleLoad 0 none, .startLoad 0 true, .enterLoad 0 cpuOnly true]

end InferBridge
