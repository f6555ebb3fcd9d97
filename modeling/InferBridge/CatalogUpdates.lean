/-
InferBridge/CatalogUpdates.lean

The catalog in memory and in its file, under interleaved updates
(app/model_manager.py, app/model_manager_core.py).

Registrations and context configurations run on the event loop, the weight
format of a finished conversion is written by a worker thread, and a reload
may come from either.  Each of them writes under the catalog lock, so a
critical section is one step here.  A configuration works on the entry it
saw when it began: it compares that with the catalog one last time and only
then takes the lock.  In between the event loop stands still, and a worker
thread may come first.

Main results.  `consistent_iff_keepsUpdates`: no change is lost and memory
and file agree exactly if no registration writes padded texts, the entry of
a configured model does not change between check and write, and no reload
fails to read.  A weight format that is written in between is lost
(`weightFormat_lost`).
-/
import InferBridge.CatalogPersistence

namespace InferBridge

/-! ### Changes -/

/-- `cfg` with the context of `updated`. -/
def ModelConfig.withContextOf (cfg updated : ModelConfig) : ModelConfig :=
  { cfg with
    maxContextLen := updated.maxContextLen
    recommendedContextLen := updated.recommendedContextLen
    kvCachePrecision := updated.kvCachePrecision }

/-- What a successful operation changes. -/
inductive CatalogChange where
  | entry (cfg : ModelConfig)
  | context (modelId : Str) (updated : ModelConfig)
  | weightFormat (modelId : Str) (weightFormat : WeightFormat)

/-- Only the changed fields change. -/
def Catalog.apply (catalog : Catalog) : CatalogChange → Catalog
  | .entry cfg => catalog.set cfg.id cfg
  | .context modelId updated =>
    match catalog.get? modelId with
    | none => catalog
    | some cfg => catalog.set modelId (cfg.withContextOf updated)
  | .weightFormat modelId weightFormat =>
    match catalog.get? modelId with
    | none => catalog
    | some cfg => catalog.set modelId { cfg with weightFormat }

/-! ### States and steps -/

/-- A configuration in progress: the entry it began with and the accepted request. -/
structure ContextChange where
  cfg : ModelConfig
  request : ContextRequest
  accepted : ∃ limit, request.accepts cfg limit = true

def ContextChange.updated (change : ContextChange) : ModelConfig := change.request.config change.cfg

/-- `expected` is the catalog with the changes of all successful operations, in their order.
`checked` is the model whose configuration stands between its last check and the lock. -/
structure CatalogState where
  memory : Catalog
  file : Option CatalogFile
  expected : Catalog
  changes : Str → Option ContextChange
  checked : Option Str

def CatalogState.initial (file : Option CatalogFile) : CatalogState where
  memory := loadCatalog file
  file := file
  expected := loadCatalog file
  changes := fun _ => none
  checked := none

inductive CatalogEvent where
  | register (req : RegisterRequest) (saves restores : Bool)
  | startContext (modelId : Str) (req : ContextRequest) (limit : Option Int)
  | checkContext (modelId : Str)
  | abortContext (modelId : Str)
  | commitContext (saves : Bool)
  | persist (modelId : Str) (weightFormat : WeightFormat) (saves : Bool)
  | reload (reads : Bool)

namespace CatalogState

/-- The new catalog is written, then it becomes the one in memory. -/
def saved (s : CatalogState) (catalog : Catalog) (change : CatalogChange) : CatalogState :=
  { s with
    memory := catalog
    file := some (saveCatalog catalog)
    expected := s.expected.apply change }

/-- The handler of a failed registration: memory as it was, and the file too if it can be
written. -/
def rollback (s : CatalogState) (original : Catalog) (restores : Bool) : CatalogState :=
  { s with
    memory := original
    file := if restores then some (saveCatalog original) else s.file }

/-- `register_model`, for a request that the schema took. -/
def register (s : CatalogState) (req : RegisterRequest) (saves restores : Bool) : CatalogState :=
  match registerModel s.memory req with
  | none => s.rollback s.memory restores
  | some catalog =>
    if saves then s.saved catalog (.entry req.config)
    else { s with memory := catalog }.rollback s.memory restores

/-- The end of a configuration. -/
def endContext (s : CatalogState) (modelId : Str) : CatalogState :=
  { s with changes := Function.update s.changes modelId none, checked := none }

/-- `configure_context` up to its first suspension. -/
def startContext (s : CatalogState) (modelId : Str) (req : ContextRequest) (limit : Option Int) :
    Option CatalogState :=
  match s.changes modelId, s.memory.get? modelId with
  | none, some cfg =>
    if h : req.accepts cfg limit = true then
      if req.keeps cfg then some s
      else
        some { s with
          changes := Function.update s.changes modelId (some ⟨cfg, req, limit, h⟩) }
    else none
  | _, _ => none

/-- The critical section of `configure_context`. -/
def commitContext (s : CatalogState) (saves : Bool) : Option CatalogState :=
  match s.checked with
  | none => none
  | some modelId =>
    match s.changes modelId with
    | none => none
    | some change =>
      if saves then
        some ((s.saved (s.memory.set modelId change.updated)
          (.context modelId change.updated)).endContext modelId)
      else some (s.endContext modelId)

def persist (s : CatalogState) (modelId : Str) (weightFormat : WeightFormat) (saves : Bool) :
    CatalogState :=
  match persistConvertedWeightFormat s.memory modelId weightFormat with
  | none => s
  | some catalog => if saves then s.saved catalog (.weightFormat modelId weightFormat) else s

/-- A file that cannot be read gives an empty catalog. -/
def reload (s : CatalogState) (reads : Bool) : CatalogState :=
  { s with memory := loadCatalog (if reads then s.file else none) }

/-- Operations of the event loop do not run while it stands before the lock. -/
def step (s : CatalogState) : CatalogEvent → Option CatalogState
  | .register req saves restores =>
    if s.checked = none then req.validate.map fun req => s.register req saves restores else none
  | .startContext modelId req limit =>
    if s.checked = none then s.startContext modelId req limit else none
  | .checkContext modelId =>
    match s.checked, s.changes modelId with
    | none, some change =>
      if s.memory.get? modelId = some change.cfg then some { s with checked := some modelId }
      else some (s.endContext modelId)
    | _, _ => none
  | .abortContext modelId =>
    if s.checked = none ∧ (s.changes modelId).isSome = true then some (s.endContext modelId)
    else none
  | .commitContext saves => s.commitContext saves
  | .persist modelId weightFormat saves => some (s.persist modelId weightFormat saves)
  | .reload reads => some (s.reload reads)

/-- No change is lost, and memory and file agree. -/
def Consistent (s : CatalogState) : Prop :=
  s.memory = s.expected ∧ loadCatalog s.file = s.memory

/-- A registration that is saved writes stripped texts, the entry of a configured model is still
the one that its check saw, up to its context, and a reload reads the file. -/
def keepsUpdates (s : CatalogState) : CatalogEvent → Bool
  | .register req saves _ => !saves || (s.memory.get? req.modelId).isSome || req.stripped
  | .commitContext saves =>
    !saves || match s.checked with
      | none => true
      | some modelId =>
        match s.changes modelId, s.memory.get? modelId with
        | some change, some current => decide (current.withContextOf change.cfg = change.cfg)
        | _, _ => false
  | .reload reads => reads || s.memory.items.isEmpty
  | .startContext _ _ _ | .checkContext _ | .abortContext _ | .persist _ _ _ => true

variable {s s' : CatalogState} {catalog : Catalog} {cfg current : ModelConfig} {modelId : Str}

/-! ### One operation -/

theorem Consistent.canonical (h : s.Consistent) : CanonicalCatalog s.memory := by
  rw [← h.2]
  exact canonicalCatalog_loadCatalog s.file

theorem initial_consistent (file : Option CatalogFile) : (initial file).Consistent := ⟨rfl, rfl⟩

theorem saved_consistent {change : CatalogChange} :
    (s.saved catalog change).Consistent ↔
      catalog = s.expected.apply change ∧ CanonicalCatalog catalog :=
  and_congr_right fun _ => lossless_iff_canonical

theorem rollback_consistent (h : s.Consistent) (restores : Bool) :
    (s.rollback s.memory restores).Consistent := by
  refine ⟨h.1, ?_⟩
  cases restores with
  | true => exact lossless_iff_canonical.mpr h.canonical
  | false => exact h.2

theorem set_inj {cfg' : ModelConfig} :
    catalog.set modelId cfg = catalog.set modelId cfg' ↔ cfg = cfg' := by
  constructor
  · intro h
    have hget := congrArg (fun c => Dict.get? c modelId) h
    simpa using hget
  · rintro rfl
    rfl

/-- Configuring an entry gives the configured snapshot exactly if the two differ at most in their
context. -/
theorem withContextOf_config (request : ContextRequest) :
    current.withContextOf (request.config cfg) = request.config cfg ↔
      current.withContextOf cfg = cfg := by
  cases cfg
  simp only [ModelConfig.withContextOf, ContextRequest.config, ModelConfig.mk.injEq, and_true,
    true_and]

theorem register_consistent {req : RegisterRequest} (h : s.Consistent) (hvalid : req.Valid)
    (saves restores : Bool) : (s.register req saves restores).Consistent ↔
      (!saves || (s.memory.get? req.modelId).isSome || req.stripped) = true := by
  unfold register registerModel
  by_cases hknown : (s.memory.get? req.modelId).isSome = true
  · rw [if_pos hknown, hknown]
    exact iff_of_true (rollback_consistent h restores) (by simp)
  · rw [if_neg hknown]
    cases saves with
    | false => exact iff_of_true (rollback_consistent h restores) rfl
    | true =>
      have hnew : (s.memory.get? req.modelId).isSome = false := by simpa using hknown
      show (s.saved (s.memory.set req.modelId req.config) (.entry req.config)).Consistent ↔ _
      rw [saved_consistent, hnew, ← h.1]
      exact (and_iff_right rfl).trans
        ((canonicalCatalog_set h.canonical _ rfl).trans hvalid.canonical_iff)

/-- What a configuration in progress began with. -/
def Began (s : CatalogState) : Prop :=
  ∀ modelId change, s.changes modelId = some change →
    change.cfg.id = modelId ∧ change.cfg.Canonical

theorem commit_consistent {change : ContextChange} (h : s.Consistent) (hbegan : s.Began)
    (hchange : s.changes modelId = some change) :
    (s.saved (s.memory.set modelId change.updated) (.context modelId change.updated)).Consistent ↔
      ∃ current, s.memory.get? modelId = some current ∧
        current.withContextOf change.cfg = change.cfg := by
  obtain ⟨hid, hcanonical⟩ := hbegan modelId change hchange
  obtain ⟨limit, haccepts⟩ := change.accepted
  have hwrites : CanonicalCatalog (s.memory.set modelId change.updated) :=
    (canonicalCatalog_set h.canonical change.updated hid).mpr
      (canonical_configured hcanonical haccepts)
  rw [saved_consistent, and_iff_left hwrites, ← h.1, Catalog.apply]
  rcases hcurrent : s.memory.get? modelId with - | current
  · -- the catalog would have the entry afterwards, and did not before
    refine iff_of_false ?_ (by simp)
    intro heq
    have hget := congrArg (fun c => Dict.get? c modelId) heq
    simp [hcurrent] at hget
  · simp only [Option.some.injEq, exists_eq_left']
    rw [set_inj, eq_comm]
    exact withContextOf_config change.request

theorem persist_consistent {weightFormat : WeightFormat} (h : s.Consistent) (saves : Bool) :
    (s.persist modelId weightFormat saves).Consistent := by
  unfold persist persistConvertedWeightFormat
  rcases hcfg : s.memory.get? modelId with - | cfg
  · exact h
  · cases saves with
    | false => exact h
    | true =>
      obtain ⟨hid, hcanonical⟩ := canonicalCatalog_get? h.canonical hcfg
      refine saved_consistent.mpr ⟨?_, ?_⟩
      · rw [← h.1, Catalog.apply, hcfg]
      · exact (canonicalCatalog_set h.canonical { cfg with weightFormat } hid).mpr
          (canonical_persisted hcanonical)

theorem reload_consistent (h : s.Consistent) (reads : Bool) :
    (s.reload reads).Consistent ↔ (reads || s.memory.items.isEmpty) = true := by
  cases reads with
  | true =>
    refine iff_of_true ⟨?_, ?_⟩ rfl
    · exact h.2.trans h.1
    · rfl
  | false =>
    rw [Bool.false_or, List.isEmpty_iff]
    constructor
    · intro hreload
      have hempty : loadCatalog none = s.memory := hreload.1.trans h.1.symm
      rw [← hempty]
      rfl
    · intro hempty
      have hmemory : s.memory = loadCatalog none := Dict.ext hempty
      exact ⟨hmemory.symm.trans h.1, h.2.trans hmemory⟩

/-! ### Runs -/

theorem began_update {change? : Option ContextChange} (h : s.Began)
    (hnew : ∀ change, change? = some change → change.cfg.id = modelId ∧ change.cfg.Canonical) :
    ∀ m change, Function.update s.changes modelId change? m = some change →
      change.cfg.id = m ∧ change.cfg.Canonical := by
  intro m change hchange
  rw [Function.update_apply] at hchange
  split at hchange
  · next hm =>
    rw [hm]
    exact hnew change hchange
  · exact h m change hchange

theorem endContext_began (h : s.Began) : (s.endContext modelId).Began := by
  apply began_update h
  intro change hchange
  cases hchange

theorem initial_began (file : Option CatalogFile) : (initial file).Began := by
  intro modelId change hchange
  cases hchange

theorem step_began {e : CatalogEvent} (hbegan : s.Began) (h : s.Consistent)
    (hstep : s.step e = some s') : s'.Began := by
  cases e with
  | register req saves restores =>
    simp only [step] at hstep
    split at hstep
    · obtain ⟨req', -, rfl⟩ := Option.map_eq_some_iff.mp hstep
      have hchanges : (s.register req' saves restores).changes = s.changes := by
        unfold register
        split
        · rfl
        · split <;> rfl
      rw [Began, hchanges]
      exact hbegan
    · cases hstep
  | startContext modelId req limit =>
    simp only [step, startContext] at hstep
    split at hstep
    · split at hstep
      · next cfg hnone hcfg =>
        split at hstep
        · split at hstep
          · obtain rfl := Option.some.inj hstep
            exact hbegan
          · obtain rfl := Option.some.inj hstep
            apply began_update hbegan
            intro change hchange
            obtain rfl := Option.some.inj hchange
            exact canonicalCatalog_get? h.canonical hcfg
        · cases hstep
      · cases hstep
    · cases hstep
  | checkContext modelId =>
    simp only [step] at hstep
    split at hstep
    · split at hstep
      · obtain rfl := Option.some.inj hstep
        exact hbegan
      · obtain rfl := Option.some.inj hstep
        exact endContext_began hbegan
    · cases hstep
  | abortContext modelId =>
    simp only [step] at hstep
    split at hstep
    · obtain rfl := Option.some.inj hstep
      exact endContext_began hbegan
    · cases hstep
  | commitContext saves =>
    simp only [step, commitContext] at hstep
    split at hstep
    · cases hstep
    · split at hstep
      · cases hstep
      · split at hstep
        · obtain rfl := Option.some.inj hstep
          exact endContext_began (s := s.saved _ _) hbegan
        · obtain rfl := Option.some.inj hstep
          exact endContext_began hbegan
  | persist modelId weightFormat saves =>
    obtain rfl := Option.some.inj hstep
    have hchanges : (s.persist modelId weightFormat saves).changes = s.changes := by
      unfold persist
      split
      · rfl
      · split <;> rfl
    rw [Began, hchanges]
    exact hbegan
  | reload reads =>
    obtain rfl := Option.some.inj hstep
    exact hbegan

theorem step_consistent {e : CatalogEvent} (hbegan : s.Began) (h : s.Consistent)
    (hstep : s.step e = some s') : s'.Consistent ↔ s.keepsUpdates e = true := by
  cases e with
  | register req saves restores =>
    simp only [step] at hstep
    split at hstep
    · obtain ⟨req', hvalid, rfl⟩ := Option.map_eq_some_iff.mp hstep
      obtain ⟨hvalid, device, rfl⟩ := RegisterRequest.validate_eq_some hvalid
      exact register_consistent h hvalid saves restores
    · cases hstep
  | startContext modelId req limit =>
    refine iff_of_true ?_ rfl
    simp only [step, startContext] at hstep
    split at hstep
    · split at hstep
      · split at hstep
        · split at hstep <;>
          · obtain rfl := Option.some.inj hstep
            exact h
        · cases hstep
      · cases hstep
    · cases hstep
  | checkContext modelId =>
    refine iff_of_true ?_ rfl
    simp only [step] at hstep
    split at hstep
    · split at hstep <;>
      · obtain rfl := Option.some.inj hstep
        exact h
    · cases hstep
  | abortContext modelId =>
    refine iff_of_true ?_ rfl
    simp only [step] at hstep
    split at hstep
    · obtain rfl := Option.some.inj hstep
      exact h
    · cases hstep
  | commitContext saves =>
    simp only [step, commitContext] at hstep
    split at hstep
    · cases hstep
    · next modelId hchecked =>
      split at hstep
      · cases hstep
      · next change hchange =>
        cases saves with
        | false =>
          obtain rfl := Option.some.inj hstep
          exact iff_of_true h rfl
        | true =>
          obtain rfl := Option.some.inj hstep
          refine (commit_consistent h hbegan hchange).trans ?_
          simp only [keepsUpdates, hchecked, hchange, Bool.not_true, Bool.false_or]
          rcases s.memory.get? modelId with - | current
          · simp
          · simp
  | persist modelId weightFormat saves =>
    obtain rfl := Option.some.inj hstep
    exact iff_of_true (persist_consistent h saves) rfl
  | reload reads =>
    obtain rfl := Option.some.inj hstep
    exact reload_consistent h reads

/-- **Catalog updates.** All along a run no successful change is lost and memory and file agree,
exactly if each step keeps the updates. -/
theorem consistent_iff_keepsUpdates (file : Option CatalogFile) {es : List CatalogEvent}
    (hrun : Transition.run step (initial file) es = some s) :
    Transition.always step Consistent (initial file) es ↔
      Transition.meets step keepsUpdates (initial file) es = true :=
  Transition.always_iff_meets (fun _ _ _ => step_began) (fun _ _ _ => step_consistent)
    (initial_began file) (initial_consistent file) hrun

/-- A registration, a conversion to INT8 and a smaller context, one after the other. -/
def orderlyUpdates : List CatalogEvent :=
  [.register { modelId := ['m'], name := ['M'], sourceModel := ['s'] } true true,
    .persist ['m'] .int8 true, .startContext ['m'] { tokens := some 1024, expected := 2048 } none,
    .checkContext ['m'], .commitContext true, .reload true]

theorem consistent_iff_keepsUpdates_orderly :
    ∃ s, Transition.run step (initial none) orderlyUpdates = some s ∧ s.Consistent := by
  have hends : (Transition.run step (initial none) orderlyUpdates).isSome = true := by decide
  have hrun := (Option.some_get hends).symm
  refine ⟨_, hrun, ?_⟩
  exact Transition.always_end ((consistent_iff_keepsUpdates none hrun).mpr (by decide)) hrun

/-- The worker thread writes the weight format between the last check of a configuration and its
write. -/
def racingUpdates : List CatalogEvent :=
  [.register { modelId := ['m'], name := ['M'], sourceModel := ['s'] } true true,
    .startContext ['m'] { tokens := some 1024, expected := 2048 } none, .checkContext ['m'],
    .persist ['m'] .int8 true, .commitContext true]

def racedState : CatalogState :=
  (Transition.run step (initial none) racingUpdates).get (by decide)

/-- The converted model is INT8, and the catalog says INT4, in memory and in the file. -/
theorem weightFormat_lost :
    Transition.run step (initial none) racingUpdates = some racedState ∧
      (racedState.expected.get? ['m']).map ModelConfig.weightFormat = some .int8 ∧
      (racedState.memory.get? ['m']).map ModelConfig.weightFormat = some .int4 ∧
      ((loadCatalog racedState.file).get? ['m']).map ModelConfig.weightFormat = some .int4 ∧
      ¬ racedState.Consistent := by
  have hexpected : (racedState.expected.get? ['m']).map ModelConfig.weightFormat = some .int8 := by
    decide
  have hmemory : (racedState.memory.get? ['m']).map ModelConfig.weightFormat = some .int4 := by
    decide
  refine ⟨(Option.some_get _).symm, hexpected, hmemory, by decide, ?_⟩
  intro hconsistent
  rw [hconsistent.1, hexpected] at hmemory
  cases hmemory

end CatalogState

end InferBridge
