/-
InferBridge/ConversionVisibility.lean

Which conversions the task map shows.

A scheduled conversion is visible while it is the entry of its model in
`convert_tasks`; every guard looks there.  The core body pops the entry in
its `finally`, but it is an inner call: profile, catalog and watchdog come
after it.

Main results.  All conversions stay visible along a run exactly if no entry
is popped while the task in it is at work (`visible_iff_keepsEntries`), and a
conversion that ends always pops its own entry too early (`visible_lost`).
-/
import InferBridge.PreparationMoves

namespace InferBridge

variable {μ : Type*}

/-- Every scheduled conversion that has not returned is the entry of its model. -/
def Registers.Visible (r : Registers μ) : Prop :=
  ∀ t order phase, r.task t = .conversion order phase → order.owner = none →
    phase.isReturned = false → r.convertTasks order.model = some t

/-- The entries are scheduled conversions of their model, and tasks are created in order. -/
structure Registers.Ordered (r : Registers μ) : Prop where
  fresh : ∀ t, r.nextTask ≤ t → r.task t = .absent
  entry : ∀ m t, r.convertTasks m = some t →
    ∃ order phase, r.task t = .conversion order phase ∧ order.model = m ∧ order.owner = none

variable [DecidableEq μ] {cfg : PreparationSettings μ} {s s' : Preparation μ}
  {e : PreparationEvent μ} {t : Nat} {m : μ} {order : ConversionOrder μ}

/-- A conversion that ends is an inline one, and no entry is popped while the task in it is at
work. -/
def keepsEntries (cfg : PreparationSettings μ) (s : Preparation μ) (e : PreparationEvent μ) : Bool :=
  match s.popsEntry cfg e with
  | none => true
  | some (m, own) => !own && !s.conversionActive m

omit [DecidableEq μ] in
/-- An entry that is not active belongs to a conversion that has returned. -/
theorem Registers.Visible.returned (h : s.registers.Visible)
    (hidle : s.conversionActive order.model = false) {phase : ConvertPhase}
    (ht : s.task t = .conversion order phase) (howner : order.owner = none) :
    phase.isReturned = true := by
  by_contra hphase
  have hentry : s.convertTasks order.model = some t :=
    h t order phase ht howner (by simpa using hphase)
  have hdone : (s.task t).done = true := by
    simpa [Preparation.conversionActive, Preparation.active, hentry] using hidle
  rw [ht] at hdone
  cases phase with
  | returned cancelled => exact hphase rfl
  | _ => cases hdone

/-! ### The entries -/

section
variable {r : Registers μ}

omit [DecidableEq μ] in
/-- A task goes on to another phase of what it does. -/
theorem Registers.Ordered.goTo (h : r.Ordered) {work : Work μ} (ht : r.task t ≠ .absent)
    (hentry : ∀ m, r.convertTasks m = some t →
      ∃ order phase, work = .conversion order phase ∧ order.model = m ∧ order.owner = none) :
    (r.goTo t work).Ordered := by
  refine ⟨?_, ?_⟩
  · intro t' hlater
    have hne : t' ≠ t := by
      rintro rfl
      exact ht (h.fresh t' hlater)
    simpa [Registers.goTo, hne] using h.fresh t' hlater
  · intro m t' hregistered
    by_cases ht' : t' = t
    · subst ht'
      simpa [Registers.goTo] using hentry m hregistered
    · simpa [Registers.goTo, ht'] using h.entry m t' hregistered

theorem Registers.Ordered.pop (h : r.Ordered) (m : μ) : (r.setConversion m none).Ordered := by
  refine ⟨h.fresh, ?_⟩
  intro m' t hregistered
  have hne : m' ≠ m := by
    rintro rfl
    simp [Registers.setConversion] at hregistered
  exact h.entry m' t (by simpa [Registers.setConversion, hne] using hregistered)

omit [DecidableEq μ] in
theorem Registers.Ordered.spawn (h : r.Ordered) (work : Work μ) : (r.spawn work).Ordered := by
  refine ⟨?_, ?_⟩
  · intro t hlater
    have hlater' : r.nextTask + 1 ≤ t := hlater
    have hne : t ≠ r.nextTask := by omega
    simpa [Registers.spawn, hne] using h.fresh t (by omega)
  · intro m t hregistered
    have hold := h.entry m t hregistered
    have hne : t ≠ r.nextTask := by
      rintro rfl
      obtain ⟨order, phase, ht, -⟩ := hold
      simp [h.fresh r.nextTask le_rfl] at ht
    simpa [Registers.spawn, hne] using hold

omit [DecidableEq μ] in
theorem Registers.Ordered.conversion (h : r.Ordered) {phase : ConvertPhase}
    (ht : r.task t = .conversion order phase) (phase' : ConvertPhase) :
    (r.goTo t (.conversion order phase')).Ordered := by
  apply h.goTo (by simp [ht])
  intro m hregistered
  obtain ⟨order', phase'', ht', hmodel, howner⟩ := h.entry m t hregistered
  obtain ⟨rfl, -⟩ : order = order' ∧ phase = phase'' := by simpa [ht] using ht'
  exact ⟨order, phase', rfl, hmodel, howner⟩

omit [DecidableEq μ] in
theorem Registers.Ordered.load (h : r.Ordered) {phase : LoadPhase} (ht : r.task t = .load m phase)
    (phase' : LoadPhase) : (r.goTo t (.load m phase')).Ordered := by
  apply h.goTo (by simp [ht])
  intro m' hregistered
  obtain ⟨order, phase'', ht', -⟩ := h.entry m' t hregistered
  simp [ht] at ht'

end

theorem Registers.Ordered.step (h : s.registers.Ordered) {r : Registers μ}
    (hmoves : Preparation.Moves cfg s e r) : r.Ordered := by
  cases hmoves with
  | stay => exact h
  | newLoad m =>
    have hspawn := h.spawn (.load m .queued)
    exact ⟨hspawn.fresh, hspawn.entry⟩
  | newConversion order =>
    have hspawn := h.spawn (.conversion order .queued)
    refine ⟨hspawn.fresh, ?_⟩
    intro m t hregistered
    by_cases hm : m = order.model
    · subst hm
      obtain rfl : s.nextTask = t := by simpa [Registers.setConversion] using hregistered
      exact ⟨order, .queued, by simp [Registers.setConversion, Registers.spawn,
        Preparation.registers], rfl, ‹_›⟩
    · exact hspawn.entry m t (by simpa [Registers.setConversion, hm] using hregistered)
  | newInline t order _ ht =>
    have hne : t ≠ s.nextTask := by
      rintro rfl
      have hfresh : s.task s.nextTask = .absent := h.fresh s.nextTask le_rfl
      simp [hfresh] at ht
    have ht' : (s.registers.spawn (.conversion order .queued)).task t =
        .load order.model .waitLock := by
      simpa [Registers.spawn, Preparation.registers, hne] using ht
    exact (h.spawn _).load ht' _
  | convert t order phase phase' _ ht => exact h.conversion ht phase'
  | endCore t order phase phase' _ ht => exact (h.pop order.model).conversion ht phase'
  | load t m phase phase' _ ht => exact h.load ht phase'
  | endLoad t m phase _ ht =>
    have hload := h.load ht .finished
    exact ⟨hload.fresh, hload.entry⟩
  | startErasing => exact ⟨h.fresh, h.entry⟩
  | endRemoval => exact ⟨h.fresh, h.entry⟩
  | endDelete m =>
    have hpop := h.pop m
    exact ⟨hpop.fresh, hpop.entry⟩

/-! ### What stays visible -/

omit [DecidableEq μ] in
/-- The entries stay, and no conversion is new. -/
theorem Registers.Visible.mono {r r' : Registers μ} (h : r.Visible)
    (hentries : r'.convertTasks = r.convertTasks)
    (hold : ∀ t order phase', r'.task t = .conversion order phase' → order.owner = none →
      phase'.isReturned = false →
        ∃ phase, r.task t = .conversion order phase ∧ phase.isReturned = false) : r'.Visible := by
  intro t order phase' ht howner hphase'
  obtain ⟨phase, ht, hphase⟩ := hold t order phase' ht howner hphase'
  rw [hentries]
  exact h t order phase ht howner hphase

omit [DecidableEq μ] in
/-- One task goes on; if it is a scheduled conversion then it was one at work. -/
theorem Registers.Visible.goTo {r : Registers μ} (h : r.Visible) {work : Work μ}
    (hwork : ∀ order phase', work = .conversion order phase' → order.owner = none →
      phase'.isReturned = false →
        ∃ phase, r.task t = .conversion order phase ∧ phase.isReturned = false) :
    (r.goTo t work).Visible := by
  refine h.mono ?_ ?_
  · rfl
  · intro t' order phase' ht' howner hphase'
    by_cases heq : t' = t
    · subst heq
      exact hwork order phase' (by simpa [Registers.goTo] using ht') howner hphase'
    · exact ⟨phase', by simpa [Registers.goTo, heq] using ht', hphase'⟩

omit [DecidableEq μ] in
/-- A new task that is not a scheduled conversion. -/
theorem Registers.Visible.spawn {r : Registers μ} (h : r.Visible) {work : Work μ}
    (hwork : ∀ order phase, work = .conversion order phase → order.owner ≠ none) :
    (r.spawn work).Visible := by
  refine h.mono ?_ ?_
  · rfl
  · intro t order phase ht howner hphase
    by_cases heq : t = r.nextTask
    · subst heq
      exact absurd howner (hwork order phase (by simpa [Registers.spawn] using ht))
    · exact ⟨phase, by simpa [Registers.spawn, heq] using ht, hphase⟩

omit [DecidableEq μ] in
/-- A load task goes on. -/
theorem Registers.Visible.goLoad {r : Registers μ} (h : r.Visible) (t : Nat) (m : μ)
    (phase : LoadPhase) : (r.goTo t (.load m phase)).Visible := by
  apply h.goTo
  intro order phase' heq
  cases heq

omit [DecidableEq μ] in
theorem Registers.Visible.newLoad {r : Registers μ} (h : r.Visible) (m : μ) :
    (r.spawn (.load m .queued)).Visible := by
  apply h.spawn
  intro order phase heq
  cases heq

/-- A new scheduled conversion, where no conversion of the model is at work. -/
theorem Registers.Visible.newConversion (h : s.registers.Visible)
    (hidle : s.conversionActive order.model = false) :
    ((s.registers.spawn (.conversion order .queued)).setConversion order.model
      (some s.nextTask)).Visible := by
  intro t order' phase ht howner hphase
  by_cases heq : t = s.nextTask
  · subst heq
    obtain ⟨rfl, -⟩ : order = order' ∧ ConvertPhase.queued = phase := by
      simpa [Registers.setConversion, Registers.spawn, Preparation.registers] using ht
    simp [Registers.setConversion]
  · have ht' : s.task t = .conversion order' phase := by
      simpa [Registers.setConversion, Registers.spawn, Preparation.registers, heq] using ht
    by_cases hmodel : order'.model = order.model
    · rw [← hmodel] at hidle
      rw [h.returned hidle ht' howner] at hphase
      cases hphase
    · simpa [Registers.setConversion, Registers.spawn, hmodel] using
        h t order' phase ht' howner hphase

/-- Popping an entry hides a conversion exactly if the task in it is at work. -/
theorem Registers.Visible.pop_iff (h : s.registers.Visible) (ho : s.registers.Ordered) (m : μ) :
    (s.registers.setConversion m none).Visible ↔ s.conversionActive m = false := by
  constructor
  · intro hpop
    by_contra hactive
    rcases hentry : s.convertTasks m with - | c
    · simp [Preparation.conversionActive, Preparation.active, hentry] at hactive
    · obtain ⟨order, phase, hc, rfl, howner⟩ := ho.entry m c hentry
      have hphase : phase.isReturned = false := by
        cases phase with
        | returned cancelled =>
          have hc' : s.task c = .conversion order (.returned cancelled) := hc
          simp [Preparation.conversionActive, Preparation.active, hentry, hc', Work.done] at hactive
        | _ => rfl
      have hgone := hpop c order phase hc howner hphase
      simp [Registers.setConversion] at hgone
  · intro hidle t order phase ht howner hphase
    by_cases hmodel : order.model = m
    · subst hmodel
      rw [h.returned hidle ht howner] at hphase
      cases hphase
    · simpa [Registers.setConversion, hmodel] using h t order phase ht howner hphase

omit [DecidableEq μ] in
theorem keepsEntries_of_none (h : s.popsEntry cfg e = none) : keepsEntries cfg s e = true := by
  simp [keepsEntries, h]

/-- A core body that ends hides a scheduled conversion always, and an inline one if the task in
the entry of the model is at work. -/
theorem Registers.Visible.endCore_iff (h : s.registers.Visible) (ho : s.registers.Ordered)
    {phase phase' : ConvertPhase} (ht : s.task t = .conversion order phase)
    (hphase' : phase'.isReturned = false) :
    ((s.registers.setConversion order.model none).goTo t (.conversion order phase')).Visible ↔
      (!order.owner.isNone && !s.conversionActive order.model) = true := by
  rcases howner : order.owner with - | l
  · -- its own entry is gone
    simp only [Option.isNone_none, Bool.not_true, Bool.false_and, Bool.false_eq_true, iff_false]
    intro hvisible
    have hgone := hvisible t order phase' (by simp [Registers.goTo]) howner hphase'
    simp [Registers.goTo, Registers.setConversion] at hgone
  · simp only [Option.isNone_some, Bool.not_false, Bool.true_and, Bool.not_eq_true']
    rw [← h.pop_iff ho order.model]
    constructor
    · intro hvisible t' order' phase'' ht' howner' hphase''
      have hne : t' ≠ t := by
        rintro rfl
        obtain ⟨rfl, -⟩ : order = order' ∧ phase = phase'' := by
          have heq := ht.symm.trans ht'
          simpa using heq
        simp [howner] at howner'
      exact hvisible t' order' phase'' (by simpa [Registers.goTo, hne] using ht') howner' hphase''
    · intro hvisible
      apply hvisible.goTo
      rintro order' phase'' heq howner' hphase''
      obtain ⟨rfl, -⟩ : order = order' ∧ phase' = phase'' := by simpa using heq
      simp [howner] at howner'

/-- A step keeps the conversions visible exactly if it keeps the entries. -/
theorem Registers.Visible.step_iff (h : s.registers.Visible) (ho : s.registers.Ordered)
    {r : Registers μ} (hmoves : Preparation.Moves cfg s e r) :
    r.Visible ↔ keepsEntries cfg s e = true := by
  cases hmoves with
  | stay hpops => exact iff_of_true h (keepsEntries_of_none hpops)
  | newLoad m hpops =>
    have hnew := h.newLoad m
    exact iff_of_true hnew (keepsEntries_of_none hpops)
  | newConversion order _ _ _ hpops _ _ _ hidle =>
    exact iff_of_true (h.newConversion hidle) (keepsEntries_of_none hpops)
  | newInline t order hpops ht howner =>
    refine iff_of_true ?_ (keepsEntries_of_none hpops)
    have hspawn : (s.registers.spawn (.conversion order .queued)).Visible := by
      apply h.spawn
      rintro order' phase heq
      obtain ⟨rfl, -⟩ : order = order' ∧ ConvertPhase.queued = phase := by simpa using heq
      simp [howner]
    exact hspawn.goLoad t order.model (.converting s.nextTask)
  | convert t order phase phase' hpops ht hphase =>
    refine iff_of_true ?_ (keepsEntries_of_none hpops)
    apply h.goTo
    rintro order' phase'' heq howner hphase''
    obtain ⟨rfl, rfl⟩ : order = order' ∧ phase' = phase'' := by simpa using heq
    exact ⟨phase, ht, hphase⟩
  | endCore t order phase phase' hpops ht hphase hphase' =>
    rw [h.endCore_iff ho ht hphase'.2]
    simp [keepsEntries, hpops, ConversionOrder.entry]
  | load t m phase phase' hpops ht =>
    exact iff_of_true (h.goLoad t m phase') (keepsEntries_of_none hpops)
  | endLoad t m phase hpops ht =>
    have hload := h.goLoad t m .finished
    exact iff_of_true hload (keepsEntries_of_none hpops)
  | startErasing m kind _ hpops => exact iff_of_true h (keepsEntries_of_none hpops)
  | endRemoval m hpops => exact iff_of_true h (keepsEntries_of_none hpops)
  | endDelete m hpops =>
    have hpop := h.pop_iff ho m
    simp only [keepsEntries, hpops, Bool.not_false, Bool.true_and, Bool.not_eq_true']
    exact hpop

/-! ### Runs -/

section
variable {weightFormat : μ → WeightFormat} {exported : μ → Option (Quantization × Bool)}

omit [DecidableEq μ] in
theorem visible_initial : (Preparation.initial weightFormat exported).registers.Visible := by
  intro t order phase ht
  simp [Preparation.registers, Preparation.initial] at ht

omit [DecidableEq μ] in
theorem ordered_initial : (Preparation.initial weightFormat exported).registers.Ordered := by
  constructor <;> simp [Preparation.registers, Preparation.initial]

end

end InferBridge
