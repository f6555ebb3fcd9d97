/-
InferBridge/CacheExclusion.lean

Conversions and the removal of a source cache (app/model_recovery.py,
app/model_recovery_cleanup.py, app/storage_manager.py, app/storage_state.py).

The models of a catalog that have the same source share one cache directory.
Two operations remove it: the storage cleanup `remove_huggingface_cache` and
the recovery action `restart_download`, both in a worker thread.  Between two
await points an operation is one step.  The marks of the storage state and
its sections under the lock are those of InferBridge/StorageExclusion.lean;
only these operations and conversions take part here, and links in the cache
are not followed.

A recovery marks its own model, and only against other recoveries and
cleanups: loads and conversions are not blocked by it, and it does not look
at the other models of the source.  A cleanup blocks all models, but it
looks for running conversions only at the models with the same source text,
and texts that differ may name one directory.

Main results.  `cache_exclusion_iff`: along a run no conversion of a model
works on a cache that is being removed exactly if each removal begins while
none of the directory's models is converted, and no conversion begins while a
recovery removes its directory (`keepsApart`).
-/
import InferBridge.CatalogPersistence
import InferBridge.StorageExclusion

namespace InferBridge.CacheExclusion

open Text

/-! ### Cache directories -/

def isSourceChar (c : Char) : Bool := isAlphanumeric c || c = '.' || c = '_' || c = '-'

/-- `_SOURCE_MODEL_PATTERN` -/
def isSourceModel (source : Str) : Bool :=
  match source.span fun c => c ≠ '/' with
  | (owner, '/' :: name) =>
    !owner.isEmpty && !name.isEmpty && owner.all isSourceChar && name.all isSourceChar
  | _ => false

/-- `models--…`, with each slash written as two dashes. -/
def cacheName (source : Str) : Str :=
  "models--".toList ++ source.flatMap fun c => if c = '/' then "--".toList else [c]

/-- `_source_cache_path`: the cache directory of a source. -/
def sourceCachePath (source : Str) : Option Str :=
  let source := strip isSpace source
  if isSourceModel source then some (cacheName source) else none

/-- `_source_cache_path` of the storage manager: the text of the source as it stands. -/
def storageCachePath (source : Str) : Option Str :=
  (sourceCachePath source).map fun _ => cacheName source

/-! ### States -/

/-- A cleanup that removes a cache, with the models that its scope names. -/
structure Cleanup where
  scope : CleanupScope Str
  directory : Str

/-- How far the recovery of a model is. -/
inductive Recovery where
  | idle
  | removingOutput
  | removingCache (directory : Str)

/-- `cleanup` holds the cleanup lock; `loading` and `converting` are the models with such a task. -/
structure State where
  storage : StorageRuntimeState Str
  cleanup : Option Cleanup
  recovery : Str → Recovery
  loading : Str → Bool
  converting : Str → Bool

def initial : State where
  storage := .initial
  cleanup := none
  recovery := fun _ => .idle
  loading := fun _ => false
  converting := fun _ => false

inductive Event where
  | beginCleanup (modelId : Str)
  /-- the thread of the cleanup has ended -/
  | endCleanup
  /-- `allowed` says that the record of the model offers the action -/
  | beginRecovery (modelId : Str) (allowed : Bool)
  /-- the first thread of the recovery has ended -/
  | outputRemoved (modelId : Str) (succeeds : Bool)
  /-- the second one has; `converts` says that the conversion can be scheduled -/
  | cacheRemoved (modelId : Str) (succeeds converts : Bool)
  | beginConversion (modelId : Str)
  | endConversion (modelId : Str)
  | beginLoad (modelId : Str)
  | endLoad (modelId : Str)

variable (catalog : Catalog)

namespace State

/-! ### Operations -/

/-- `cleanup_blocks` -/
def cleanupBlocks (s : State) (modelId : Str) : Bool :=
  s.storage.globalCleanup || decide (modelId ∈ s.storage.cleaningModels)

/-- `_model_is_active` -/
def isActive (s : State) (modelId : Str) : Bool := s.loading modelId || s.converting modelId

/-- The models whose source is written like this. -/
def relatedIds (source : Str) : List Str :=
  (catalog.items.filter fun item => item.2.sourceModel ≠ [] && item.2.sourceModel = source).map
    Prod.fst

def setRecovery (s : State) (modelId : Str) (stage : Recovery) : State :=
  { s with recovery := Function.update s.recovery modelId stage }

/-- `schedule_convert` behind the storage guard, for a model that can be converted. -/
def scheduleConvert (s : State) (modelId : Str) : State :=
  if s.cleanupBlocks modelId then s
  else { s with converting := Function.update s.converting modelId true }

/-- The mutation that stands for a recovery. -/
def mutation (modelId : Str) : ExternalMutation Str := ⟨modelId, false⟩

/-- The end of a recovery. -/
def exitRecovery (s : State) (modelId : Str) : State :=
  { s with storage := s.storage.exitMutation (mutation modelId) }.setRecovery modelId .idle

/-- `cleanup` with `remove_huggingface_cache`, up to the removal; a refusal leaves all as it is. -/
def beginCleanup (s : State) (modelId : Str) : State :=
  match catalog.get? modelId with
  | none => s
  | some cfg =>
    let related := relatedIds catalog cfg.sourceModel
    match s.storage.enterCleanup ⟨related, true⟩ with
    | none => s
    | some storage =>
      if related.any s.isActive then s
      else
        match storageCachePath cfg.sourceModel with
        | none => s
        | some directory =>
          { s with storage := storage, cleanup := some ⟨⟨related, true⟩, directory⟩ }

/-- `recover_model` with `restart_download`, up to the first thread. -/
def beginRecovery (s : State) (modelId : Str) (allowed : Bool) : State :=
  match s.storage.enterMutation (mutation modelId) with
  | none => s
  | some storage =>
    if s.isActive modelId || !allowed || (catalog.get? modelId).isNone then s
    else { s with storage := storage }.setRecovery modelId .removingOutput

/-- The recovery goes on with the cache of its source. -/
def outputRemoved (s : State) (modelId : Str) (succeeds : Bool) : State :=
  match (catalog.get? modelId).bind fun cfg => sourceCachePath cfg.sourceModel with
  | some directory =>
    if succeeds then s.setRecovery modelId (.removingCache directory) else s.exitRecovery modelId
  | none => s.exitRecovery modelId

def cacheRemoved (s : State) (modelId : Str) (succeeds converts : Bool) : State :=
  (if succeeds && converts then s.scheduleConvert modelId else s).exitRecovery modelId

/-- An operation waits for the cleanup lock; a model has one recovery at a time, since the
mutations of a model exclude each other. -/
def step (s : State) : Event → Option State
  | .beginCleanup modelId =>
    match s.cleanup with
    | some _ => none
    | none => some (s.beginCleanup catalog modelId)
  | .endCleanup =>
    s.cleanup.map fun cleanup =>
      { s with storage := s.storage.exitCleanup cleanup.scope, cleanup := none }
  | .beginRecovery modelId allowed =>
    match s.recovery modelId with
    | .idle => some (s.beginRecovery catalog modelId allowed)
    | _ => none
  | .outputRemoved modelId succeeds =>
    match s.recovery modelId with
    | .removingOutput => some (s.outputRemoved catalog modelId succeeds)
    | _ => none
  | .cacheRemoved modelId succeeds converts =>
    match s.recovery modelId with
    | .removingCache _ => some (s.cacheRemoved modelId succeeds converts)
    | _ => none
  | .beginConversion modelId =>
    if (catalog.get? modelId).isSome then some (s.scheduleConvert modelId) else none
  | .endConversion modelId =>
    if s.converting modelId then
      some { s with converting := Function.update s.converting modelId false }
    else none
  | .beginLoad modelId =>
    if (catalog.get? modelId).isSome then
      some (if s.cleanupBlocks modelId then s
        else { s with loading := Function.update s.loading modelId true })
    else none
  | .endLoad modelId =>
    if s.loading modelId then
      some { s with loading := Function.update s.loading modelId false }
    else none

end State

/-! ### What is wanted -/

/-- The cache directory of a model. -/
def directoryOf (modelId : Str) : Option Str :=
  (catalog.get? modelId).bind fun cfg => sourceCachePath cfg.sourceModel

/-- The directory is being removed. -/
def Removing (s : State) (directory : Str) : Prop :=
  (∃ cleanup, s.cleanup = some cleanup ∧ cleanup.directory = directory) ∨
    ∃ modelId, s.recovery modelId = .removingCache directory

/-- No model is converted while its cache is being removed. -/
def Exclusive (s : State) : Prop :=
  ∀ directory, Removing s directory → ∀ modelId, directoryOf catalog modelId = some directory →
    s.converting modelId = false

/-- No model with this cache is being converted. -/
def unused (s : State) (directory : Str) : Bool :=
  catalog.items.all fun item =>
    !(s.converting item.1 && directoryOf catalog item.1 = some directory)

/-- No recovery removes the cache of this model. -/
def notRecovered (s : State) (modelId : Str) : Bool :=
  catalog.items.all fun item =>
    match s.recovery item.1 with
    | .removingCache directory => directoryOf catalog modelId ≠ some directory
    | _ => true

/-- The storage state and the models with the same source text admit the cleanup. -/
def acceptsCleanup (s : State) (source : Str) : Bool :=
  (s.storage.enterCleanup ⟨State.relatedIds catalog source, true⟩).isSome &&
    !(State.relatedIds catalog source).any s.isActive

/-- A removal begins while no model with this cache is converted; a conversion begins while no
recovery removes its cache, where it is a recovery that begins it, no other one. -/
def keepsApart (s : State) : Event → Bool
  | .beginCleanup modelId =>
    match catalog.get? modelId with
    | none => true
    | some cfg =>
      match storageCachePath cfg.sourceModel with
      | none => true
      | some directory =>
        !acceptsCleanup catalog s cfg.sourceModel || unused catalog s directory
  | .outputRemoved modelId succeeds =>
    match directoryOf catalog modelId with
    | none => true
    | some directory => !succeeds || unused catalog s directory
  | .cacheRemoved modelId succeeds converts =>
    !(succeeds && converts) || s.cleanupBlocks modelId ||
      notRecovered catalog (s.setRecovery modelId .idle) modelId
  | .beginConversion modelId => s.cleanupBlocks modelId || notRecovered catalog s modelId
  | _ => true

/-! ### What the conditions say -/

variable {catalog} {s s' : State} {modelId directory : Str}

theorem unused_iff : unused catalog s directory = true ↔
    ∀ m, directoryOf catalog m = some directory → s.converting m = false := by
  rw [unused, List.all_eq_true]
  constructor
  · intro h m hm
    obtain ⟨cfg, hcfg, -⟩ := Option.bind_eq_some_iff.mp hm
    have hitem := h (m, cfg) (Dict.mem_of_get? hcfg)
    rw [decide_eq_true hm, Bool.and_true, Bool.not_eq_true'] at hitem
    exact hitem
  · rintro h ⟨m, cfg⟩ -
    rw [Bool.not_eq_true', Bool.and_eq_false_iff, decide_eq_false_iff_not, or_iff_not_imp_right,
      not_not]
    exact h m

/-- A recovery is one of a model in the catalog, and a cleanup blocks all models. -/
structure Marked (catalog : Catalog) (s : State) : Prop where
  cleanup : s.cleanup.isSome = true → s.storage.globalCleanup = true
  recovery : ∀ m, s.recovery m ≠ .idle → (catalog.get? m).isSome = true

theorem notRecovered_iff (h : ∀ m, s.recovery m ≠ .idle → (catalog.get? m).isSome = true) :
    notRecovered catalog s modelId = true ↔
      ∀ m directory, s.recovery m = .removingCache directory →
        directoryOf catalog modelId ≠ some directory := by
  rw [notRecovered, List.all_eq_true]
  constructor
  · intro hall m directory hm
    have hidle : s.recovery m ≠ .idle := by
      rw [hm]
      intro heq
      cases heq
    obtain ⟨cfg, hcfg⟩ := Option.isSome_iff_exists.mp (h m hidle)
    have hitem := hall (m, cfg) (Dict.mem_of_get? hcfg)
    dsimp only at hitem
    rw [hm] at hitem
    exact of_decide_eq_true hitem
  · rintro hall ⟨m, cfg⟩ -
    dsimp only
    cases hm : s.recovery m with
    | idle | removingOutput => rfl
    | removingCache directory => exact decide_eq_true (hall m directory hm)

/-! ### What an operation does -/

theorem globalCleanup_enterMutation {storage storage' : StorageRuntimeState Str}
    {n : ExternalMutation Str} (h : storage.enterMutation n = some storage') :
    storage'.globalCleanup = storage.globalCleanup := by
  obtain ⟨-, -, -, -, rfl⟩ := StorageRuntimeState.enterMutation_eq_some h
  rfl

theorem globalCleanup_exitMutation (storage : StorageRuntimeState Str) (n : ExternalMutation Str) :
    (storage.exitMutation n).globalCleanup = storage.globalCleanup := by
  rw [StorageRuntimeState.exitMutation_eq]

theorem globalCleanup_enterCleanup {storage storage' : StorageRuntimeState Str}
    {a : CleanupScope Str} (h : storage.enterCleanup a = some storage') :
    storage'.globalCleanup = a.globalCleanup := by
  obtain ⟨-, -, -, rfl⟩ := StorageRuntimeState.enterCleanup_eq_some h
  rfl

/-- A cleanup is refused, or it removes the directory of a source that it was admitted for. -/
theorem beginCleanup_cases (s : State) (modelId : Str) :
    (s.beginCleanup catalog modelId = s ∧ ∀ cfg directory, catalog.get? modelId = some cfg →
      storageCachePath cfg.sourceModel = some directory →
        acceptsCleanup catalog s cfg.sourceModel = false) ∨
    ∃ cfg directory storage, catalog.get? modelId = some cfg ∧
      storageCachePath cfg.sourceModel = some directory ∧
      acceptsCleanup catalog s cfg.sourceModel = true ∧ storage.globalCleanup = true ∧
      s.beginCleanup catalog modelId = { s with
        storage := storage
        cleanup := some ⟨⟨State.relatedIds catalog cfg.sourceModel, true⟩, directory⟩ } := by
  unfold State.beginCleanup
  cases hcfg : catalog.get? modelId with
  | none =>
    refine .inl ⟨rfl, ?_⟩
    intro cfg directory h
    cases h
  | some cfg =>
    dsimp only
    cases henter : s.storage.enterCleanup ⟨State.relatedIds catalog cfg.sourceModel, true⟩ with
    | none =>
      refine .inl ⟨rfl, ?_⟩
      rintro cfg' directory h -
      obtain rfl := Option.some.inj h
      rw [acceptsCleanup, henter]
      rfl
    | some storage =>
      dsimp only
      split
      · next hactive =>
        refine .inl ⟨rfl, ?_⟩
        rintro cfg' directory h -
        obtain rfl := Option.some.inj h
        rw [acceptsCleanup, hactive, Bool.not_true, Bool.and_false]
      · next hactive =>
        cases hpath : storageCachePath cfg.sourceModel with
        | none =>
          refine .inl ⟨rfl, ?_⟩
          intro cfg' directory h h'
          obtain rfl := Option.some.inj h
          rw [hpath] at h'
          cases h'
        | some directory =>
          refine .inr ⟨cfg, directory, storage, rfl, hpath, ?_, ?_, rfl⟩
          · rw [Bool.not_eq_true] at hactive
            rw [acceptsCleanup, henter, hactive]
            rfl
          · exact globalCleanup_enterCleanup henter

/-- A recovery is refused, or it waits for its first thread. -/
theorem beginRecovery_cases (s : State) (modelId : Str) (allowed : Bool) :
    s.beginRecovery catalog modelId allowed = s ∨ ∃ storage,
      storage.globalCleanup = s.storage.globalCleanup ∧ (catalog.get? modelId).isSome = true ∧
        s.beginRecovery catalog modelId allowed =
          { s with storage := storage }.setRecovery modelId .removingOutput := by
  unfold State.beginRecovery
  cases henter : s.storage.enterMutation (State.mutation modelId) with
  | none => exact .inl rfl
  | some storage =>
    dsimp only
    split
    · exact .inl rfl
    · next hrefused =>
      refine .inr ⟨storage, globalCleanup_enterMutation henter, ?_, rfl⟩
      rw [Bool.or_eq_true, not_or, Option.isNone_iff_eq_none] at hrefused
      exact Option.isSome_iff_ne_none.mpr hrefused.2

/-- The recovery goes on to the cache, or it ends. -/
theorem outputRemoved_cases (s : State) (modelId : Str) (succeeds : Bool) :
    (∃ directory, directoryOf catalog modelId = some directory ∧ succeeds = true ∧
      s.outputRemoved catalog modelId succeeds =
        s.setRecovery modelId (.removingCache directory)) ∨
    ((∀ directory, directoryOf catalog modelId = some directory → succeeds = false) ∧
      s.outputRemoved catalog modelId succeeds = s.exitRecovery modelId) := by
  have hdirectory : directoryOf catalog modelId =
      (catalog.get? modelId).bind fun cfg => sourceCachePath cfg.sourceModel := rfl
  unfold State.outputRemoved
  rw [← hdirectory]
  cases directoryOf catalog modelId with
  | none =>
    refine .inr ⟨?_, rfl⟩
    intro directory h
    cases h
  | some directory =>
    cases succeeds with
    | true => exact .inl ⟨directory, rfl, rfl, rfl⟩
    | false => exact .inr ⟨fun _ _ => rfl, rfl⟩

theorem recovery_setRecovery {m : Str} {stage : Recovery} :
    (s.setRecovery modelId stage).recovery m = if m = modelId then stage else s.recovery m :=
  Function.update_apply ..

theorem cleanup_exitRecovery : (s.exitRecovery modelId).cleanup = s.cleanup := rfl

/-- A conversion is scheduled, or cleanups block it. -/
theorem scheduleConvert_eq (s : State) (modelId : Str) : s.scheduleConvert modelId =
    { s with converting := if s.cleanupBlocks modelId then s.converting
      else Function.update s.converting modelId true } := by
  unfold State.scheduleConvert
  split <;> rfl

/-! ### The marks along a run -/

theorem initial_marked : Marked catalog initial where
  cleanup := by
    intro h
    cases h
  recovery := by
    intro m h
    exact absurd rfl h

/-- A recovery ends. -/
theorem Marked.exitRecovery (h : Marked catalog s) : Marked catalog (s.exitRecovery modelId) where
  cleanup := by
    intro hcleanup
    exact (globalCleanup_exitMutation _ _).trans (h.cleanup hcleanup)
  recovery := by
    intro m hm
    change (s.setRecovery modelId .idle).recovery m ≠ .idle at hm
    rw [recovery_setRecovery] at hm
    split at hm
    · exact absurd rfl hm
    · exact h.recovery m hm

/-- The tasks are no part of the marks. -/
theorem Marked.tasks (h : Marked catalog s) (loading converting : Str → Bool) :
    Marked catalog { s with loading := loading, converting := converting } :=
  ⟨h.cleanup, h.recovery⟩

/-- A recovery of a model in the catalog goes on. -/
theorem Marked.setRecovery (h : Marked catalog s) {stage : Recovery}
    (hmodel : (catalog.get? modelId).isSome = true) :
    Marked catalog (s.setRecovery modelId stage) where
  cleanup := h.cleanup
  recovery := by
    intro m hm
    rw [recovery_setRecovery] at hm
    split at hm
    · next heq => rwa [heq]
    · exact h.recovery m hm

theorem Marked.scheduleConvert (h : Marked catalog s) :
    Marked catalog (s.scheduleConvert modelId) := by
  rw [scheduleConvert_eq]
  exact h.tasks s.loading _

theorem Marked.step {e : Event} (h : Marked catalog s) (hstep : s.step catalog e = some s') :
    Marked catalog s' := by
  cases e with
  | beginCleanup modelId =>
    unfold State.step at hstep
    dsimp only at hstep
    split at hstep
    · cases hstep
    obtain rfl := Option.some.inj hstep
    rcases beginCleanup_cases s modelId with ⟨hsame, -⟩ | ⟨cfg, directory, storage, -, -, -, hglobal, heq⟩
    · rwa [hsame]
    · rw [heq]
      exact ⟨fun _ => hglobal, h.recovery⟩
  | endCleanup =>
    obtain ⟨cleanup, -, rfl⟩ := Option.map_eq_some_iff.mp hstep
    refine ⟨?_, h.recovery⟩
    intro hnone
    cases hnone
  | beginRecovery modelId allowed =>
    unfold State.step at hstep
    dsimp only at hstep
    split at hstep
    · obtain rfl := Option.some.inj hstep
      rcases beginRecovery_cases s modelId allowed with hsame | ⟨storage, hglobal, hmodel, heq⟩
      · rwa [hsame]
      · rw [heq]
        refine Marked.setRecovery ?_ hmodel
        exact ⟨fun hcleanup => hglobal.trans (h.cleanup hcleanup), h.recovery⟩
    · cases hstep
  | outputRemoved modelId succeeds =>
    unfold State.step at hstep
    dsimp only at hstep
    split at hstep
    · next hstage =>
      obtain rfl := Option.some.inj hstep
      rcases outputRemoved_cases s modelId succeeds with ⟨directory, -, -, heq⟩ | ⟨-, heq⟩
      · rw [heq]
        apply h.setRecovery
        apply h.recovery
        rw [hstage]
        intro hidle
        cases hidle
      · rw [heq]
        exact h.exitRecovery
    · cases hstep
  | cacheRemoved modelId succeeds converts =>
    unfold State.step at hstep
    dsimp only at hstep
    split at hstep
    · obtain rfl := Option.some.inj hstep
      unfold State.cacheRemoved
      split
      · exact h.scheduleConvert.exitRecovery
      · exact h.exitRecovery
    · cases hstep
  | beginConversion modelId =>
    obtain ⟨-, heq⟩ := Option.ite_none_right_eq_some.mp hstep
    obtain rfl := Option.some.inj heq
    exact h.scheduleConvert
  | endConversion modelId =>
    obtain ⟨-, heq⟩ := Option.ite_none_right_eq_some.mp hstep
    obtain rfl := Option.some.inj heq
    exact h.tasks s.loading _
  | beginLoad modelId =>
    obtain ⟨-, heq⟩ := Option.ite_none_right_eq_some.mp hstep
    obtain rfl := Option.some.inj heq
    split
    · exact h
    · exact h.tasks _ s.converting
  | endLoad modelId =>
    obtain ⟨-, heq⟩ := Option.ite_none_right_eq_some.mp hstep
    obtain rfl := Option.some.inj heq
    exact h.tasks _ s.converting

/-! ### Exclusion at one step -/

/-- Fewer removals and fewer conversions. -/
theorem Exclusive.mono (h : Exclusive catalog s)
    (hremoving : ∀ directory, Removing s' directory → Removing s directory)
    (hconverting : ∀ m, s'.converting m = true → s.converting m = true) :
    Exclusive catalog s' := by
  intro directory hdirectory m hm
  rw [← Bool.not_eq_true]
  intro hconverts
  have hnot := h directory (hremoving directory hdirectory) m hm
  rw [hconverting m hconverts] at hnot
  cases hnot

/-- One more directory is removed. -/
theorem exclusive_removing_iff (h : Exclusive catalog s)
    (hremoving : ∀ d, Removing s' d ↔ Removing s d ∨ d = directory)
    (hconverting : s'.converting = s.converting) :
    Exclusive catalog s' ↔ unused catalog s directory = true := by
  rw [unused_iff]
  constructor
  · intro hexclusive m hm
    rw [← hconverting]
    exact hexclusive directory ((hremoving directory).mpr (.inr rfl)) m hm
  · intro hunused d hd m hm
    rw [hconverting]
    rcases (hremoving d).mp hd with hold | rfl
    · exact h d hold m hm
    · exact hunused m hm

/-- The recovery of a model that removes nothing is no removal. -/
theorem removing_setRecovery {stage : Recovery} (hstage : ∀ d, stage ≠ .removingCache d)
    (h : Removing (s.setRecovery modelId stage) directory) : Removing s directory := by
  refine h.imp id ?_
  rintro ⟨m, hm⟩
  rw [recovery_setRecovery] at hm
  split at hm
  · exact absurd hm (hstage directory)
  · exact ⟨m, hm⟩

theorem removing_exitRecovery (h : Removing (s.exitRecovery modelId) directory) :
    Removing (s.setRecovery modelId .idle) directory := h

/-- A conversion begins that cleanups do not block. -/
theorem exclusive_convert_iff (hmarked : Marked catalog s) (h : Exclusive catalog s) :
    Exclusive catalog (s.scheduleConvert modelId) ↔
      (s.cleanupBlocks modelId || notRecovered catalog s modelId) = true := by
  rw [scheduleConvert_eq]
  cases hblocks : s.cleanupBlocks modelId with
  | true =>
    rw [if_pos rfl, Bool.true_or]
    exact iff_of_true h rfl
  | false =>
    rw [if_neg Bool.false_ne_true, Bool.false_or, notRecovered_iff hmarked.recovery]
    constructor
    · intro hexclusive m directory hm hdirectory
      have hnot := hexclusive directory (.inr ⟨m, hm⟩) modelId hdirectory
      change Function.update s.converting modelId true modelId = false at hnot
      rw [Function.update_self] at hnot
      cases hnot
    · intro hnot directory hremoving m hm
      show Function.update s.converting modelId true m = false
      by_cases heq : m = modelId
      · subst heq
        rcases hremoving with ⟨cleanup, hcleanup, -⟩ | ⟨m', hm'⟩
        · -- a cleanup blocks all conversions
          have hglobal := hmarked.cleanup (Option.isSome_iff_exists.mpr ⟨cleanup, hcleanup⟩)
          rw [State.cleanupBlocks, hglobal, Bool.true_or] at hblocks
          cases hblocks
        · exact absurd hm (hnot m' directory hm')
      · rw [Function.update_of_ne heq]
        exact h directory hremoving m hm

/-- A recovery that is over removes nothing. -/
theorem Exclusive.setRecovery_idle (h : Exclusive catalog s) :
    Exclusive catalog (s.setRecovery modelId .idle) := by
  apply h.mono
  · intro directory hremoving
    refine removing_setRecovery ?_ hremoving
    intro d hd
    cases hd
  · exact fun _ => id

/-- The end of a recovery, with the conversion that it schedules. -/
theorem exclusive_cacheRemoved_iff {succeeds converts : Bool} (hmarked : Marked catalog s)
    (h : Exclusive catalog s) :
    Exclusive catalog (s.cacheRemoved modelId succeeds converts) ↔
      (!(succeeds && converts) || s.cleanupBlocks modelId ||
        notRecovered catalog (s.setRecovery modelId .idle) modelId) = true := by
  unfold State.cacheRemoved
  cases hstarts : succeeds && converts with
  | false =>
    rw [if_neg Bool.false_ne_true]
    exact iff_of_true h.setRecovery_idle rfl
  | true =>
    rw [if_pos rfl, Bool.not_true, Bool.false_or]
    have hidle : Marked catalog (s.setRecovery modelId .idle) := by
      refine ⟨hmarked.cleanup, ?_⟩
      intro m hm
      rw [recovery_setRecovery] at hm
      split at hm
      · exact absurd rfl hm
      · exact hmarked.recovery m hm
    have hswap : Exclusive catalog ((s.scheduleConvert modelId).exitRecovery modelId) ↔
        Exclusive catalog ((s.setRecovery modelId .idle).scheduleConvert modelId) := by
      rw [scheduleConvert_eq, scheduleConvert_eq]
      exact Iff.rfl
    rw [hswap]
    exact exclusive_convert_iff hidle h.setRecovery_idle

/-- **One step.** It keeps removals and conversions apart exactly if it meets the condition. -/
theorem exclusive_step_iff {e : Event} (hmarked : Marked catalog s) (h : Exclusive catalog s)
    (hstep : s.step catalog e = some s') :
    Exclusive catalog s' ↔ keepsApart catalog s e = true := by
  cases e with
  | beginCleanup modelId =>
    unfold State.step at hstep
    dsimp only at hstep
    split at hstep
    · cases hstep
    next hfree =>
    obtain rfl := Option.some.inj hstep
    rw [keepsApart]
    rcases beginCleanup_cases s modelId with ⟨hsame, hrefused⟩ |
      ⟨cfg, directory, storage, hcfg, hpath, haccepts, -, heq⟩
    · rw [hsame]
      refine iff_of_true h ?_
      cases hcfg : catalog.get? modelId with
      | none => rfl
      | some cfg =>
        dsimp only
        cases hpath : storageCachePath cfg.sourceModel with
        | none => rfl
        | some directory =>
          dsimp only
          rw [hrefused cfg directory hcfg hpath]
          rfl
    · rw [heq, hcfg]
      dsimp only
      rw [hpath]
      dsimp only
      rw [haccepts, Bool.not_true, Bool.false_or]
      refine exclusive_removing_iff h ?_ rfl
      intro d
      constructor
      · rintro (⟨cleanup, hcleanup, rfl⟩ | hrecovery)
        · obtain rfl := Option.some.inj hcleanup
          exact .inr rfl
        · exact .inl (.inr hrecovery)
      · rintro ((⟨cleanup, hcleanup, -⟩ | hrecovery) | rfl)
        · rw [hfree] at hcleanup
          cases hcleanup
        · exact .inr hrecovery
        · exact .inl ⟨_, rfl, rfl⟩
  | endCleanup =>
    obtain ⟨cleanup, -, rfl⟩ := Option.map_eq_some_iff.mp hstep
    refine iff_of_true ?_ rfl
    apply h.mono
    · rintro directory (⟨cleanup, hnone, -⟩ | hrecovery)
      · cases hnone
      · exact .inr hrecovery
    · exact fun _ => id
  | beginRecovery modelId allowed =>
    unfold State.step at hstep
    dsimp only at hstep
    split at hstep
    · obtain rfl := Option.some.inj hstep
      refine iff_of_true ?_ rfl
      rcases beginRecovery_cases s modelId allowed with hsame | ⟨storage, -, -, heq⟩
      · rwa [hsame]
      · rw [heq]
        apply h.mono
        · intro directory hremoving
          have hsame : Removing (s.setRecovery modelId .removingOutput) directory := hremoving
          refine removing_setRecovery ?_ hsame
          intro d hd
          cases hd
        · exact fun _ => id
    · cases hstep
  | outputRemoved modelId succeeds =>
    unfold State.step at hstep
    dsimp only at hstep
    split at hstep
    · next hstage =>
      obtain rfl := Option.some.inj hstep
      rw [keepsApart]
      rcases outputRemoved_cases s modelId succeeds with
        ⟨directory, hdirectory, rfl, heq⟩ | ⟨hfails, heq⟩
      · rw [heq, hdirectory]
        dsimp only
        rw [Bool.not_true, Bool.false_or]
        refine exclusive_removing_iff h ?_ rfl
        intro d
        constructor
        · rintro (hcleanup | ⟨m, hm⟩)
          · exact .inl (.inl hcleanup)
          · rw [recovery_setRecovery] at hm
            split at hm
            · exact .inr (Recovery.removingCache.inj hm).symm
            · exact .inl (.inr ⟨m, hm⟩)
        · rintro ((hcleanup | ⟨m, hm⟩) | rfl)
          · exact .inl hcleanup
          · refine .inr ⟨m, ?_⟩
            rw [recovery_setRecovery, if_neg]
            · exact hm
            · rintro rfl
              rw [hstage] at hm
              cases hm
          · exact .inr ⟨modelId, by rw [recovery_setRecovery, if_pos rfl]⟩
      · rw [heq]
        refine iff_of_true h.setRecovery_idle ?_
        cases hdirectory : directoryOf catalog modelId with
        | none => rfl
        | some directory =>
          dsimp only
          rw [hfails directory hdirectory]
          rfl
    · cases hstep
  | cacheRemoved modelId succeeds converts =>
    unfold State.step at hstep
    dsimp only at hstep
    split at hstep
    · obtain rfl := Option.some.inj hstep
      exact exclusive_cacheRemoved_iff hmarked h
    · cases hstep
  | beginConversion modelId =>
    obtain ⟨-, heq⟩ := Option.ite_none_right_eq_some.mp hstep
    obtain rfl := Option.some.inj heq
    exact exclusive_convert_iff hmarked h
  | endConversion modelId =>
    obtain ⟨-, heq⟩ := Option.ite_none_right_eq_some.mp hstep
    obtain rfl := Option.some.inj heq
    refine iff_of_true ?_ rfl
    apply h.mono
    · exact fun _ => id
    · intro m hm
      change Function.update s.converting modelId false m = true at hm
      by_cases hm' : m = modelId
      · subst hm'
        rw [Function.update_self] at hm
        cases hm
      · rwa [Function.update_of_ne hm'] at hm
  | beginLoad modelId =>
    obtain ⟨-, heq⟩ := Option.ite_none_right_eq_some.mp hstep
    obtain rfl := Option.some.inj heq
    refine iff_of_true ?_ rfl
    split <;> exact h
  | endLoad modelId =>
    obtain ⟨-, heq⟩ := Option.ite_none_right_eq_some.mp hstep
    obtain rfl := Option.some.inj heq
    exact iff_of_true h rfl

/-! ### Runs -/

theorem initial_exclusive : Exclusive catalog initial := fun _ _ _ _ => rfl

/-- Two models with one source. -/
def sharedCatalog : Catalog :=
  let cfg (modelId : Str) : ModelConfig := RegisterRequest.config
    { modelId := modelId, name := modelId, sourceModel := "o/m".toList }
  (Dict.empty.set ['a'] (cfg ['a'])).set ['b'] (cfg ['b'])

/-- A conversion, a cleanup and a recovery, one after the other. -/
def separateRun : List Event :=
  [.beginConversion ['b'], .endConversion ['b'], .beginCleanup ['b'], .endCleanup,
    .beginRecovery ['a'] true, .outputRemoved ['a'] true, .cacheRemoved ['a'] true true]

/-- The download of a model is restarted while another model of its source is converted. -/
def sharedRecovery : List Event :=
  [.beginConversion ['b'], .beginRecovery ['a'] true, .outputRemoved ['a'] true]

end InferBridge.CacheExclusion
