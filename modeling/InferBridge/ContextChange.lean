/-
InferBridge/ContextChange.lean

Changing the context of a model: `configure_context` (app/model_manager.py)
over the engine lifecycle, with the three catalogs it writes.

The state is that of the lifecycle, together with the catalog in memory, the
one of the advisor, and the file; for every engine the catalog entry it was
built for; and for every request its local variables and how it ended.  One
event is one segment of one task, as in the lifecycle.  The other writers of
the catalog change one entry under `_catalog_lock`; where the save of a
desktop registration fails, its entry stays in memory all the same.

What the code finds outside is part of an event (`Surroundings`): a running
benchmark or conversion, the limit in the `config.json` of the model, the
check of the device.
-/
import InferBridge.EngineMoves
import InferBridge.Catalog

namespace InferBridge.ContextChange

open Text

/-! ### Requests -/

structure Request where
  tokens : Option Int := none
  expected : Int
  precision : Option Str := none
deriving DecidableEq

structure Surroundings where
  benchmark : Bool := false
  converting : Bool := false
  limit : Option Int := none
  safeDevice : Bool := true

/-- `normalize_kv_cache_precision`; the outer `none` is a `ContextValidationError`. -/
def normalizeKvCachePrecision (value : Str) : Option (Option KvPrecision) :=
  let text := lower (strip isSpace value)
  if text = [] ∨ text = "auto".toList ∨ text = "default".toList then some none
  else (KvPrecision.ofText text).map some

/-- `cfg.recommended_context_len or cfg.max_context_len` -/
def recommended (cfg : ModelConfig) : Int :=
  match cfg.recommendedContextLen with
  | none => cfg.maxContextLen
  | some value => if value = 0 then cfg.maxContextLen else value

/-- `validate_context` -/
def validateContext (cfg : ModelConfig) (requested : Int) (limit : Option Int) : Bool :=
  decide (cfg.backend ≠ .embeddings ∧ 128 ≤ requested ∧ requested ≤ maxContext ∧
    cfg.maxOutputTokens + 64 < requested ∧ requested ≤ limit.getD (recommended cfg))

/-- The context length and the precision that the request asks for. -/
def wanted (cfg : ModelConfig) (req : Request) (limit : Option Int) :
    Option (Int × Option KvPrecision) :=
  let tokens := req.tokens.getD cfg.maxContextLen
  if validateContext cfg tokens limit then
    match req.precision with
    | none => some (tokens, cfg.kvCachePrecision)
    | some value => (normalizeKvCachePrecision value).map fun precision => (tokens, precision)
  else none

/-- `replace(cfg, …)` -/
def updatedEntry (cfg : ModelConfig) (tokens : Int) (precision : Option KvPrecision) :
    ModelConfig :=
  { cfg with
    maxContextLen := tokens
    recommendedContextLen := some (recommended cfg)
    kvCachePrecision := precision }

/-! ### The state -/

variable {δ : Type*} [DecidableEq δ]

structure Environment (δ : Type*) where
  settings : ManagerSettings Str δ
  /-- `kv_precision_device_supported` -/
  supportsPrecision : δ → Bool

omit [DecidableEq δ] in
/-- Which models are in the catalog changes at run time; the steps below check it. -/
def Environment.lifecycle (env : Environment δ) : ManagerSettings Str δ :=
  { env.settings with catalog := fun _ => true }

inductive Outcome where
  | pending
  | refused
  | unchanged
  | applied
deriving DecidableEq, Repr

/-- The local variables of a request. -/
structure Change where
  model : Str
  request : Request
  cfg : ModelConfig
  updated : ModelConfig

structure State (δ : Type*) where
  manager : Manager Str δ
  catalog : Catalog
  advisor : Catalog
  file : CatalogFile
  /-- the catalog entry that an engine was built for -/
  built : Nat → Option ModelConfig
  change : Nat → Option Change
  outcome : Nat → Option Outcome

/-- After the start: the file may be anything that was read as this catalog. -/
def State.initial (catalog : Catalog) (file : CatalogFile) : State δ where
  manager := Manager.initial
  catalog := catalog
  advisor := catalog
  file := file
  built _ := none
  change _ := none
  outcome _ := none

namespace State

omit [DecidableEq δ] in
def finish (x : State δ) (t : Nat) (outcome : Outcome) : State δ :=
  { x with outcome := Function.update x.outcome t (some outcome) }

omit [DecidableEq δ] in
/-- A build that has started is for this entry. -/
def noteBuild (x : State δ) (manager : Manager Str δ) (entry : Option ModelConfig) :
    Nat → Option ModelConfig :=
  if manager.nextEngine = x.manager.nextEngine then x.built
  else Function.update x.built x.manager.nextEngine entry

omit [DecidableEq δ] in
/-- A request whose task has left without handing over has failed. -/
def settle (x : State δ) (t : Nat) : State δ :=
  match x.outcome t, (x.manager.task t).activity with
  | some .pending, .configure _ .finished => x.finish t .refused
  | _, _ => x

/-! ### configure_context -/

/-- Up to the wait for the load lock. -/
def configure (env : Environment δ) (x : State δ) (t : Nat) (m : Str) (req : Request)
    (around : Surroundings) : State δ :=
  match x.catalog.get? m with
  | none => x.finish t .refused
  | some cfg =>
    if x.manager.contextChanges m ∨ around.benchmark ∨ cfg.maxContextLen ≠ req.expected then
      x.finish t .refused
    else
      match wanted cfg req around.limit with
      | none => x.finish t .refused
      | some (tokens, precision) =>
        if tokens = cfg.maxContextLen ∧ precision = cfg.kvCachePrecision then
          x.finish t .unchanged
        else if x.manager.loadActive m ∨ around.converting then x.finish t .refused
        else
          let updated := updatedEntry cfg tokens precision
          { x.finish t .pending with
            manager := x.manager.configureContext env.lifecycle t m false
            change := Function.update x.change t (some ⟨m, req, cfg, updated⟩) }

omit [DecidableEq δ] in
/-- The device of the engine takes `KV_CACHE_PRECISION`. -/
def supports (env : Environment δ) (s : Manager Str δ) (e : Nat) : Bool :=
  ((s.engine e).device.map env.supportsPrecision).getD false

omit [DecidableEq δ] in
def needsRebuild (env : Environment δ) (s : Manager Str δ) (c : Change) : Option Nat → Bool
  | none => false
  | some old => c.updated.maxContextLen ≠ c.cfg.maxContextLen || supports env s old

/-- With the load lock: check again, then build the replacement if one is needed. -/
def configureLocked (env : Environment δ) (x : State δ) (t : Nat) (c : Change)
    (around : Surroundings) : State δ :=
  let rebuild := needsRebuild env x.manager c (x.manager.engines c.model)
  let refused := around.benchmark || decide (x.catalog.get? c.model ≠ some c.cfg) ||
    around.converting || (rebuild && !around.safeDevice)
  let manager := x.manager.configureLocked t c.model refused rebuild
  { x with manager, built := x.noteBuild manager (some c.updated) }.settle t

omit [DecidableEq δ] in
/-- With the lock of the model: write the catalogs and hand over, in one segment.  `saves` says
whether `save_catalog` returns. -/
def configureHandoff (x : State δ) (t : Nat) (c : Change) (old : Option Nat) (l : Nat)
    (saves : Bool) : State δ :=
  let refused := decide (x.catalog.get? c.model ≠ some c.cfg) || !saves
  let manager := x.manager.configureHandoff t c.model old l refused
  if x.manager.engines c.model ≠ old ∨ refused then { x with manager }.finish t .refused
  else
    let staged := x.catalog.set c.model c.updated
    { x with
      manager
      catalog := staged
      advisor := staged
      file := saveCatalog staged }.finish t .applied

/-! ### Everything else -/

omit [DecidableEq δ] in
/-- The load task that holds the load lock works for this model. -/
def loads (s : Manager Str δ) (m : Str) : Bool :=
  match s.loadLock with
  | none => false
  | some t => (s.task t).activity.served = some m

omit [DecidableEq δ] in
/-- What the other tasks may do; a task is of one kind only. -/
def admits (x : State δ) : Event Str δ → Bool
  | .configureContext _ _ _ | .configureLocked _ _ _ | .configureHandoff _ _ => false
  | .scheduleLoad t m _ => (x.catalog.get? m).isSome && (x.outcome t).isNone
  | .request t _ _ => (x.outcome t).isNone
  | _ => true

omit [DecidableEq δ] in
/-- The entry that a build of the event is for: `self.catalog[model_id]`. -/
def entryFor (x : State δ) (e : Event Str δ) : Option ModelConfig :=
  (e.builder.bind fun t => (x.manager.task t).activity.served).bind x.catalog.get?

omit [DecidableEq δ] in
/-- `settle` for the events of a context change. -/
def settleAfter (x : State δ) : Event Str δ → State δ
  | .resumeConfigure t | .cancel t => x.settle t
  | _ => x

/-- What an engine depends on. -/
def settingsOf (cfg : ModelConfig) : Int × Option KvPrecision :=
  (cfg.maxContextLen, cfg.kvCachePrecision)

/-- The catalog after one entry was written, or removed. -/
def written (catalog : Catalog) (m : Str) : Option ModelConfig → Catalog
  | some cfg => catalog.set m cfg
  | none => catalog.erase m

omit [DecidableEq δ] in
/-- Another writer of the catalog.  A model that is loaded, or being loaded, is only renamed or
given another weight format. -/
def write (x : State δ) (m : Str) (entry : Option ModelConfig) (saved : Bool) :
    Option (State δ) :=
  if ((x.manager.engines m).isSome ∨ loads x.manager m) ∧
      entry.map settingsOf ≠ (x.catalog.get? m).map settingsOf then none
  else
    let catalog := written x.catalog m entry
    some { x with
      catalog
      advisor := catalog
      file := if saved then saveCatalog catalog else x.file }

end State

inductive ContextEvent (δ : Type*) where
  | configure (t : Nat) (m : Str) (req : Request) (around : Surroundings)
  | locked (t : Nat) (around : Surroundings)
  | handoff (t : Nat) (saves : Bool)
  | other (e : Event Str δ)
  | write (m : Str) (entry : Option ModelConfig) (saved : Bool)

def State.step (env : Environment δ) (x : State δ) : ContextEvent δ → Option (State δ)
  | .configure t m req around =>
    match (x.manager.task t).activity, x.outcome t with
    | .absent, none => some (x.configure env t m req around)
    | _, _ => none
  | .locked t around =>
    match (x.manager.task t).activity, x.manager.loadLock, x.change t with
    | .configure _ .waitLoadLock, none, some c => some (x.configureLocked env t c around)
    | _, _, _ => none
  | .handoff t saves =>
    match (x.manager.task t).activity, x.change t with
    | .configure _ (.waitLock old l), some c =>
      if x.manager.lockHolder l = none then some (x.configureHandoff t c old l saves) else none
    | _, _ => none
  | .other e =>
    if x.admits e then
      (x.manager.step env.lifecycle e).map fun manager =>
        State.settleAfter { x with manager, built := x.noteBuild manager (x.entryFor e) } e
    else none
  | .write m entry saved => x.write m entry saved

end InferBridge.ContextChange
