/-
InferBridge/StorageExclusion.lean

Exclusion between storage cleanup, mutations of a model and temporary
engines (app/storage_state.py).

The sections under `_guard_lock` are single steps.  What runs between them
(the body of a scope or of a mutation, the building of an engine, its
native close) may take any time and may fail; what follows is the same, so
a step only says that it has ended.

A close of a temporary engine looks at `released` before the native close
and sets it after it.  Two closes that overlap both release the engine
(`endClose`), which takes the registration of another engine of the same
model away: `storage_exclusion_overlapping_closes`.

The invariant says who is behind each mark (`Marks`), that the participants
are apart (`Apart`) and that the counters count the open engines
(`Accounts`).  Main result: `storage_exclusion`, for every run in which no
close of an engine begins while another one is running.
-/
import InferBridge.Lib.Dict
import InferBridge.Lib.Tally
import InferBridge.Lib.Transition

namespace InferBridge

variable {μ : Type*}

/-! ### Participants -/

/-- The arguments of `cleanup_scope`. -/
structure CleanupScope (μ : Type*) where
  modelIds : List μ
  globalCleanup : Bool
deriving DecidableEq, Repr

/-- The arguments of `_external_mutation`. -/
structure ExternalMutation (μ : Type*) where
  modelId : μ
  blockLifecycle : Bool
deriving DecidableEq, Repr

inductive TemporaryStage where
  /-- registered; its `close` is not the guarded one yet -/
  | building
  | guarded
  /-- it was never handed out -/
  | gone
deriving DecidableEq, Repr

/-- A temporary engine: `closing` counts the native closes that run, and `releases` records how
often its registration was released. -/
structure TemporaryEngine (μ : Type*) where
  modelId : μ
  stage : TemporaryStage
  closing : Nat
  released : Bool
  releases : Nat
deriving DecidableEq, Repr

def TemporaryEngine.isOpen (e : TemporaryEngine μ) : Bool :=
  match e.stage with
  | .building => true
  | .guarded => !e.released
  | .gone => false

/-- The marks of `StorageRuntimeState`, with the participants that are active. -/
structure StorageRuntimeState (μ : Type*) where
  globalCleanup : Bool
  cleaningModels : Finset μ
  mutatingModels : Finset μ
  temporaryModels : Dict μ Int
  scope : Nat → Option (CleanupScope μ)
  mutation : Nat → Option (ExternalMutation μ)
  engine : Nat → Option (TemporaryEngine μ)

namespace StorageRuntimeState

def initial : StorageRuntimeState μ :=
  { globalCleanup := false
    cleaningModels := ∅
    mutatingModels := ∅
    temporaryModels := Dict.empty
    scope := fun _ => none
    mutation := fun _ => none
    engine := fun _ => none }

/-! ### The sections under the lock -/

section
variable [DecidableEq μ] (s : StorageRuntimeState μ)

/-- `_begin_temporary_model`; `none` is the exception. -/
def beginTemporaryModel (modelId : μ) : Option (StorageRuntimeState μ) :=
  if s.globalCleanup ∨ modelId ∈ s.cleaningModels ∨ modelId ∈ s.mutatingModels then none
  else some { s with
    temporaryModels :=
      s.temporaryModels.set modelId ((s.temporaryModels.get? modelId).getD 0 + 1) }

/-- `_end_temporary_model` -/
def endTemporaryModel (modelId : μ) : StorageRuntimeState μ :=
  let remaining := (s.temporaryModels.get? modelId).getD 1 - 1
  if 0 < remaining then { s with temporaryModels := s.temporaryModels.set modelId remaining }
  else { s with temporaryModels := s.temporaryModels.erase modelId }

/-- The entry of `_external_mutation`. -/
def enterMutation (n : ExternalMutation μ) : Option (StorageRuntimeState μ) :=
  if s.globalCleanup ∨ n.modelId ∈ s.cleaningModels then none
  else if n.modelId ∈ s.mutatingModels ∨ (s.temporaryModels.get? n.modelId).isSome then none
  else
    let s := { s with mutatingModels := insert n.modelId s.mutatingModels }
    if n.blockLifecycle then
      some { s with cleaningModels := insert n.modelId s.cleaningModels }
    else some s

/-- The exit of `_external_mutation`. -/
def exitMutation (n : ExternalMutation μ) : StorageRuntimeState μ :=
  let s := if n.blockLifecycle then
      { s with cleaningModels := s.cleaningModels.erase n.modelId }
    else s
  { s with mutatingModels := s.mutatingModels.erase n.modelId }

/-- The entry of `cleanup_scope`. -/
def enterCleanup (a : CleanupScope μ) : Option (StorageRuntimeState μ) :=
  if s.globalCleanup ∨ ∃ m ∈ a.modelIds, m ∈ s.cleaningModels ∨ m ∈ s.mutatingModels ∨
      (s.temporaryModels.get? m).isSome then none
  else if a.globalCleanup ∧ (s.cleaningModels ≠ ∅ ∨ s.mutatingModels ≠ ∅ ∨
      s.temporaryModels.items ≠ []) then none
  else some { s with
    globalCleanup := a.globalCleanup
    cleaningModels := s.cleaningModels ∪ a.modelIds.toFinset }

/-- The exit of `cleanup_scope`. -/
def exitCleanup (a : CleanupScope μ) : StorageRuntimeState μ :=
  { s with
    cleaningModels := s.cleaningModels \ a.modelIds.toFinset
    globalCleanup := if a.globalCleanup then false else s.globalCleanup }

end

/-! ### Steps -/

inductive Event (μ : Type*) where
  | enterCleanup (i : Nat) (a : CleanupScope μ)
  | exitCleanup (i : Nat)
  | enterMutation (i : Nat) (n : ExternalMutation μ)
  | exitMutation (i : Nat)
  | beginTemporary (i : Nat) (modelId : μ)
  /-- the build fails, or the engine cannot be guarded and is closed at once -/
  | abandon (i : Nat)
  | guard (i : Nat)
  | beginClose (i : Nat)
  /-- the native close returns or raises -/
  | endClose (i : Nat)
deriving DecidableEq, Repr

section
variable [DecidableEq μ]

def setScope (s : StorageRuntimeState μ) (i : Nat) (a : Option (CleanupScope μ)) :
    StorageRuntimeState μ :=
  { s with scope := Function.update s.scope i a }

def setMutation (s : StorageRuntimeState μ) (i : Nat) (n : Option (ExternalMutation μ)) :
    StorageRuntimeState μ :=
  { s with mutation := Function.update s.mutation i n }

def setEngine (s : StorageRuntimeState μ) (i : Nat) (e : TemporaryEngine μ) :
    StorageRuntimeState μ :=
  { s with engine := Function.update s.engine i (some e) }

/-- A refused entry leaves everything as it is. -/
def step (s : StorageRuntimeState μ) : Event μ → Option (StorageRuntimeState μ)
  | .enterCleanup i a =>
    match s.scope i with
    | some _ => none
    | none =>
      match s.enterCleanup a with
      | none => some s
      | some s' => some (s'.setScope i (some a))
  | .exitCleanup i =>
    match s.scope i with
    | none => none
    | some a => some ((s.exitCleanup a).setScope i none)
  | .enterMutation i n =>
    match s.mutation i with
    | some _ => none
    | none =>
      match s.enterMutation n with
      | none => some s
      | some s' => some (s'.setMutation i (some n))
  | .exitMutation i =>
    match s.mutation i with
    | none => none
    | some n => some ((s.exitMutation n).setMutation i none)
  | .beginTemporary i modelId =>
    match s.engine i with
    | some _ => none
    | none =>
      match s.beginTemporaryModel modelId with
      | none => some s
      | some s' => some (s'.setEngine i ⟨modelId, .building, 0, false, 0⟩)
  | .abandon i =>
    match s.engine i with
    | none => none
    | some e =>
      if e.stage = .building then
        some ((s.endTemporaryModel e.modelId).setEngine i
          { e with stage := .gone, releases := e.releases + 1 })
      else none
  | .guard i =>
    match s.engine i with
    | none => none
    | some e =>
      if e.stage = .building then some (s.setEngine i { e with stage := .guarded }) else none
  | .beginClose i =>
    match s.engine i with
    | none => none
    | some e =>
      if e.stage = .guarded then
        if e.released then some s
        else some (s.setEngine i { e with closing := e.closing + 1 })
      else none
  | .endClose i =>
    match s.engine i with
    | none => none
    | some e =>
      if e.stage = .guarded ∧ 0 < e.closing then
        some ((s.endTemporaryModel e.modelId).setEngine i
          { e with closing := e.closing - 1, released := true, releases := e.releases + 1 })
      else none

end

/-- Two closes of one engine do not overlap, and a scope that is not global names a model. -/
def separate (s : StorageRuntimeState μ) : Event μ → Bool
  | .enterCleanup _ a => a.globalCleanup || !a.modelIds.isEmpty
  | .beginClose i =>
    match s.engine i with
    | none => true
    | some e => e.closing == 0
  | _ => true

/-! ### What is claimed -/

/-- There is a participant `i`, and it has the property. -/
def Holds {α : Type*} (f : Nat → Option α) (P : α → Prop) (i : Nat) : Prop :=
  ∃ a, f i = some a ∧ P a

/-- The scope `i` cleans the model. -/
def Cleans (s : StorageRuntimeState μ) (i : Nat) (m : μ) : Prop :=
  Holds s.scope (fun a => m ∈ a.modelIds) i

def CleansAll (s : StorageRuntimeState μ) (i : Nat) : Prop :=
  Holds s.scope (fun a => a.globalCleanup = true) i

def Mutates (s : StorageRuntimeState μ) (i : Nat) (m : μ) : Prop :=
  Holds s.mutation (fun n => n.modelId = m) i

/-- The mutation `i` blocks loads and conversions of the model. -/
def Blocks (s : StorageRuntimeState μ) (i : Nat) (m : μ) : Prop :=
  Holds s.mutation (fun n => n.blockLifecycle = true ∧ n.modelId = m) i

/-- The temporary engine `i` is open and is one of the model. -/
def Uses (s : StorageRuntimeState μ) (i : Nat) (m : μ) : Prop :=
  Holds s.engine (fun e => e.isOpen = true ∧ e.modelId = m) i

/-- The participants are apart. -/
structure Apart (s : StorageRuntimeState μ) : Prop where
  globalAlone : ∀ i, s.CleansAll i →
    (∀ j, s.scope j ≠ none → j = i) ∧ (∀ j, s.mutation j = none) ∧ ∀ j m, ¬ s.Uses j m
  modelAlone : ∀ i m, s.Cleans i m →
    (∀ j, s.Cleans j m → j = i) ∧ (∀ j, ¬ s.Mutates j m) ∧ ∀ j, ¬ s.Uses j m

/-- Each engine releases its registration once, and the counters count the open engines. -/
structure Accounts [DecidableEq μ] (s : StorageRuntimeState μ) : Prop where
  releases : ∀ i e, s.engine i = some e → e.releases = if e.isOpen then 0 else 1
  counters : ∀ m, ∃ n : Nat, (s.temporaryModels.get? m).getD 0 = n ∧ Tally (s.Uses · m) n

/-! ### The invariant -/

/-- Who is behind each mark. -/
structure Marks (s : StorageRuntimeState μ) : Prop where
  global : s.globalCleanup = true ↔ ∃ i, s.CleansAll i
  cleaning : ∀ m, m ∈ s.cleaningModels ↔ (∃ i, s.Cleans i m) ∨ ∃ i, s.Blocks i m
  mutating : ∀ m, m ∈ s.mutatingModels ↔ ∃ i, s.Mutates i m

structure Sound [DecidableEq μ] (s : StorageRuntimeState μ) : Prop where
  marks : s.Marks
  apart : s.Apart
  accounts : s.Accounts
  mutations : ∀ i j m, s.Mutates i m → s.Mutates j m → i = j
  named : ∀ i a, s.scope i = some a → a.globalCleanup = true ∨ a.modelIds ≠ []
  present : ∀ m v, s.temporaryModels.get? m = some v → 0 < v
  closing : ∀ i e, s.engine i = some e → 0 < e.closing → e.closing = 1 ∧ e.released = false
  fresh : ∀ i e, s.engine i = some e → e.stage = .building → e.released = false ∧ e.closing = 0

section
variable {α : Type*} {f : Nat → Option α} {P : α → Prop} {i j : Nat} {a : α}

theorem holds_update :
    Holds (Function.update f i (some a)) P j ↔ (j = i ∧ P a) ∨ (Holds f P j ∧ j ≠ i) := by
  rw [Holds]
  by_cases hj : j = i
  · simp [hj]
  · simp [hj, Holds]

/-- A new participant. -/
theorem holds_insert (hfree : f i = none) :
    Holds (Function.update f i (some a)) P j ↔ (j = i ∧ P a) ∨ Holds f P j := by
  rw [holds_update]
  apply or_congr_right
  rw [and_iff_left_iff_imp]
  rintro ⟨b, hb, -⟩ rfl
  rw [hfree] at hb
  cases hb

theorem holds_remove : Holds (Function.update f i none) P j ↔ Holds f P j ∧ j ≠ i := by
  rw [Holds]
  by_cases hj : j = i
  · simp [hj]
  · simp [hj, Holds]

end

variable [DecidableEq μ] {s s' : StorageRuntimeState μ} {i : Nat} {m : μ}

theorem sound_initial : (initial : StorageRuntimeState μ).Sound where
  marks :=
    { global := by simp [initial, CleansAll, Holds]
      cleaning := by simp [initial, Cleans, Blocks, Holds]
      mutating := by simp [initial, Mutates, Holds] }
  apart :=
    { globalAlone := by simp [initial, CleansAll, Holds]
      modelAlone := by simp [initial, Cleans, Holds] }
  accounts :=
    { releases := by simp [initial]
      counters := fun m => ⟨0, rfl, Tally.none (by simp [initial, Uses, Holds])⟩ }
  mutations := by simp [initial, Mutates, Holds]
  named := by simp [initial]
  present := fun m v h => by cases h
  closing := by simp [initial]
  fresh := by simp [initial]

/-- A model is in the dictionary exactly while one of its engines is open. -/
theorem Sound.get?_eq_none_iff (h : s.Sound) (m : μ) :
    s.temporaryModels.get? m = none ↔ ∀ i, ¬ s.Uses i m := by
  obtain ⟨n, hn, htally⟩ := h.accounts.counters m
  rw [← htally.eq_zero_iff]
  rcases e : s.temporaryModels.get? m with - | v
  · rw [e] at hn
    have hzero : n = 0 := by
      rw [Option.getD_none] at hn
      exact_mod_cast hn.symm
    simp [hzero]
  · rw [e] at hn
    have hpos := h.present m v e
    have hne : n ≠ 0 := by
      rintro rfl
      simp only [Option.getD_some] at hn
      rw [hn] at hpos
      exact absurd hpos (by decide)
    simp [hne]

/-! ### Entering and leaving a scope -/

theorem enterCleanup_eq_some {a : CleanupScope μ} (he : s.enterCleanup a = some s') :
    s.globalCleanup = false ∧
      (∀ m ∈ a.modelIds, m ∉ s.cleaningModels ∧ m ∉ s.mutatingModels ∧
        s.temporaryModels.get? m = none) ∧
      (a.globalCleanup = true → s.cleaningModels = ∅ ∧ s.mutatingModels = ∅ ∧
        s.temporaryModels.items = []) ∧
      s' = { s with
        globalCleanup := a.globalCleanup
        cleaningModels := s.cleaningModels ∪ a.modelIds.toFinset } := by
  rw [enterCleanup] at he
  split_ifs at he with hmodels hglobal
  push Not at hmodels hglobal
  refine ⟨by simpa using hmodels.1, ?_, hglobal, (Option.some.inj he).symm⟩
  intro m hm
  obtain ⟨hc, hmut, ht⟩ := hmodels.2 m hm
  exact ⟨hc, hmut, by simpa using ht⟩

theorem Sound.enterCleanup (h : s.Sound) {a : CleanupScope μ} (hfree : s.scope i = none)
    (hnamed : a.globalCleanup = true ∨ a.modelIds ≠ []) (he : s.enterCleanup a = some s') :
    (s'.setScope i (some a)).Sound := by
  obtain ⟨hglobal, hmodels, hall, rfl⟩ := enterCleanup_eq_some he
  have hnoglobal : ∀ j, ¬ s.CleansAll j := by
    intro j hj
    have := h.marks.global.mpr ⟨j, hj⟩
    rw [hglobal] at this
    exact Bool.false_ne_true this
  have hnoclean : ∀ m ∈ a.modelIds, ∀ j, ¬ s.Cleans j m := by
    intro m hm j hj
    exact (hmodels m hm).1 ((h.marks.cleaning m).mpr (.inl ⟨j, hj⟩))
  have hnomutate : ∀ m ∈ a.modelIds, ∀ j, ¬ s.Mutates j m := by
    intro m hm j hj
    exact (hmodels m hm).2.1 ((h.marks.mutating m).mpr ⟨j, hj⟩)
  have hnouse : ∀ m ∈ a.modelIds, ∀ j, ¬ s.Uses j m := by
    intro m hm
    exact (h.get?_eq_none_iff m).mp (hmodels m hm).2.2
  have hcleans (j : Nat) (m : μ) : Holds (Function.update s.scope i (some a))
      (fun a => m ∈ a.modelIds) j ↔ (j = i ∧ m ∈ a.modelIds) ∨ s.Cleans j m := holds_insert hfree
  have hcleansAll (j : Nat) : Holds (Function.update s.scope i (some a))
      (fun a => a.globalCleanup = true) j ↔ (j = i ∧ a.globalCleanup = true) ∨ s.CleansAll j :=
    holds_insert hfree
  refine ⟨⟨?_, ?_, h.marks.mutating⟩, ⟨?_, ?_⟩, ⟨h.accounts.releases, h.accounts.counters⟩,
    h.mutations, ?_, h.present, h.closing, h.fresh⟩
  · show a.globalCleanup = true ↔ ∃ j, Holds (Function.update s.scope i (some a)) _ j
    constructor
    · exact fun ha => ⟨i, (hcleansAll i).mpr (.inl ⟨rfl, ha⟩)⟩
    · rintro ⟨j, hj⟩
      rcases (hcleansAll j).mp hj with ⟨-, ha⟩ | hold
      · exact ha
      · exact absurd hold (hnoglobal j)
  · intro m
    show m ∈ s.cleaningModels ∪ a.modelIds.toFinset ↔
      (∃ j, Holds (Function.update s.scope i (some a)) _ j) ∨ ∃ j, s.Blocks j m
    rw [Finset.mem_union, h.marks.cleaning, List.mem_toFinset]
    constructor
    · rintro ((⟨j, hj⟩ | hblocks) | hm)
      · exact .inl ⟨j, (hcleans j m).mpr (.inr hj)⟩
      · exact .inr hblocks
      · exact .inl ⟨i, (hcleans i m).mpr (.inl ⟨rfl, hm⟩)⟩
    · rintro (⟨j, hj⟩ | hblocks)
      · rcases (hcleans j m).mp hj with ⟨-, hm⟩ | hold
        · exact .inr hm
        · exact .inl (.inl ⟨j, hold⟩)
      · exact .inl (.inr hblocks)
  · -- a scope that cleans everything has found nobody
    intro j hj
    rcases (hcleansAll j).mp hj with ⟨rfl, ha⟩ | hold
    · obtain ⟨hcleaning, hmutating, htemporary⟩ := hall ha
      refine ⟨?_, ?_, ?_⟩
      · intro k hk
        by_contra hkj
        have hkscope : s.scope k ≠ none := by
          simpa [setScope, Function.update_of_ne hkj] using hk
        obtain ⟨b, hb⟩ := Option.ne_none_iff_exists'.mp hkscope
        rcases h.named k b hb with hbglobal | hbmodels
        · exact hnoglobal k ⟨b, hb, hbglobal⟩
        · obtain ⟨m, hm⟩ := List.exists_mem_of_ne_nil _ hbmodels
          have hmem := (h.marks.cleaning m).mpr (.inl ⟨k, b, hb, hm⟩)
          rw [hcleaning] at hmem
          exact Finset.notMem_empty m hmem
      · intro k
        by_contra hk
        obtain ⟨n, hn⟩ := Option.ne_none_iff_exists'.mp hk
        have hmem := (h.marks.mutating n.modelId).mpr ⟨k, n, hn, rfl⟩
        rw [hmutating] at hmem
        exact Finset.notMem_empty _ hmem
      · intro k m
        exact (h.get?_eq_none_iff m).mp (Dict.items_eq_nil_iff.mp htemporary m) k
    · exact absurd hold (hnoglobal j)
  · intro j m hj
    rcases (hcleans j m).mp hj with ⟨rfl, hm⟩ | hold
    · refine ⟨?_, hnomutate m hm, hnouse m hm⟩
      intro k hk
      rcases (hcleans k m).mp hk with ⟨rfl, -⟩ | hkold
      · rfl
      · exact absurd hkold (hnoclean m hm k)
    · obtain ⟨halone, hmutate, huse⟩ := h.apart.modelAlone j m hold
      refine ⟨?_, hmutate, huse⟩
      intro k hk
      rcases (hcleans k m).mp hk with ⟨rfl, hm⟩ | hkold
      · exact absurd hold (hnoclean m hm j)
      · exact halone k hkold
  · intro j b hb
    by_cases hj : j = i
    · subst hj
      have hba : b = a := by simpa [setScope] using hb.symm
      rw [hba]
      exact hnamed
    · apply h.named j b
      simpa [setScope, Function.update_of_ne hj] using hb

theorem Sound.exitCleanup (h : s.Sound) {a : CleanupScope μ} (ha : s.scope i = some a) :
    ((s.exitCleanup a).setScope i none).Sound := by
  have hcleans (j : Nat) (m : μ) : Holds (Function.update s.scope i none)
      (fun a => m ∈ a.modelIds) j ↔ s.Cleans j m ∧ j ≠ i := holds_remove
  have hcleansAll (j : Nat) : Holds (Function.update s.scope i none)
      (fun a => a.globalCleanup = true) j ↔ s.CleansAll j ∧ j ≠ i := holds_remove
  refine ⟨⟨?_, ?_, h.marks.mutating⟩, ⟨?_, ?_⟩, ⟨h.accounts.releases, h.accounts.counters⟩,
    h.mutations, ?_, h.present, h.closing, h.fresh⟩
  · show (if a.globalCleanup then false else s.globalCleanup) = true ↔
      ∃ j, Holds (Function.update s.scope i none) _ j
    by_cases hglobal : a.globalCleanup = true
    · rw [if_pos hglobal]
      refine iff_of_false Bool.false_ne_true ?_
      rintro ⟨j, hj⟩
      obtain ⟨hold, hne⟩ := (hcleansAll j).mp hj
      obtain ⟨b, hb, -⟩ := hold
      have hsome : s.scope j ≠ none := by simp [hb]
      exact hne ((h.apart.globalAlone i ⟨a, ha, hglobal⟩).1 j hsome)
    · rw [if_neg hglobal, h.marks.global]
      constructor
      · rintro ⟨j, b, hb, hbglobal⟩
        refine ⟨j, (hcleansAll j).mpr ⟨⟨b, hb, hbglobal⟩, ?_⟩⟩
        rintro rfl
        obtain rfl : a = b := by simpa [ha] using hb
        exact hglobal hbglobal
      · rintro ⟨j, hj⟩
        exact ⟨j, ((hcleansAll j).mp hj).1⟩
  · intro m
    show m ∈ s.cleaningModels \ a.modelIds.toFinset ↔
      (∃ j, Holds (Function.update s.scope i none) _ j) ∨ ∃ j, s.Blocks j m
    rw [Finset.mem_sdiff, h.marks.cleaning, List.mem_toFinset]
    constructor
    · rintro ⟨⟨j, hj⟩ | hblocks, hm⟩
      · refine .inl ⟨j, (hcleans j m).mpr ⟨hj, ?_⟩⟩
        rintro rfl
        obtain ⟨b, hb, hmb⟩ := hj
        obtain rfl : a = b := by simpa [ha] using hb
        exact hm hmb
      · exact .inr hblocks
    · rintro (⟨j, hj⟩ | ⟨j, n, hn, hblock, hmodel⟩)
      · obtain ⟨hold, hne⟩ := (hcleans j m).mp hj
        exact ⟨.inl ⟨j, hold⟩, fun hm => hne ((h.apart.modelAlone i m ⟨a, ha, hm⟩).1 j hold)⟩
      · -- nobody mutates what the scope cleans
        refine ⟨.inr ⟨j, n, hn, hblock, hmodel⟩, ?_⟩
        intro hm
        exact (h.apart.modelAlone i m ⟨a, ha, hm⟩).2.1 j ⟨n, hn, hmodel⟩
  · intro j hj
    obtain ⟨hold, -⟩ := (hcleansAll j).mp hj
    obtain ⟨hscope, hmutation, hengine⟩ := h.apart.globalAlone j hold
    refine ⟨?_, hmutation, hengine⟩
    intro k hk
    apply hscope
    intro hnone
    apply hk
    by_cases hki : k = i
    · simp [setScope, hki]
    · simpa [setScope, StorageRuntimeState.exitCleanup, Function.update_of_ne hki] using hnone
  · intro j m hj
    obtain ⟨hold, -⟩ := (hcleans j m).mp hj
    obtain ⟨hscope, hmutation, hengine⟩ := h.apart.modelAlone j m hold
    exact ⟨fun k hk => hscope k ((hcleans k m).mp hk).1, hmutation, hengine⟩
  · intro j b hb
    have hji : j ≠ i := by
      rintro rfl
      simp [setScope] at hb
    apply h.named j b
    simpa [setScope, StorageRuntimeState.exitCleanup, Function.update_of_ne hji] using hb

/-! ### Entering and leaving a mutation -/

theorem enterMutation_eq_some {n : ExternalMutation μ} (he : s.enterMutation n = some s') :
    s.globalCleanup = false ∧ n.modelId ∉ s.cleaningModels ∧ n.modelId ∉ s.mutatingModels ∧
      s.temporaryModels.get? n.modelId = none ∧
      s' = { s with
        mutatingModels := insert n.modelId s.mutatingModels
        cleaningModels := if n.blockLifecycle then insert n.modelId s.cleaningModels
          else s.cleaningModels } := by
  rw [enterMutation] at he
  split_ifs at he with hcleaning hbusy hblock
  · push Not at hcleaning hbusy
    refine ⟨by simpa using hcleaning.1, hcleaning.2, hbusy.1, by simpa using hbusy.2, ?_⟩
    rw [if_pos hblock]
    exact (Option.some.inj he).symm
  · push Not at hcleaning hbusy
    refine ⟨by simpa using hcleaning.1, hcleaning.2, hbusy.1, by simpa using hbusy.2, ?_⟩
    rw [if_neg hblock]
    exact (Option.some.inj he).symm

theorem Sound.enterMutation (h : s.Sound) {n : ExternalMutation μ} (hfree : s.mutation i = none)
    (he : s.enterMutation n = some s') : (s'.setMutation i (some n)).Sound := by
  obtain ⟨hglobal, hcleaning, hmutating, -, rfl⟩ := enterMutation_eq_some he
  have hnomutate : ∀ j, ¬ s.Mutates j n.modelId := by
    intro j hj
    exact hmutating ((h.marks.mutating _).mpr ⟨j, hj⟩)
  have hnoclean : ∀ j, ¬ s.Cleans j n.modelId := by
    intro j hj
    exact hcleaning ((h.marks.cleaning _).mpr (.inl ⟨j, hj⟩))
  have hmutates (j : Nat) (m : μ) : Holds (Function.update s.mutation i (some n))
      (fun n => n.modelId = m) j ↔ (j = i ∧ n.modelId = m) ∨ s.Mutates j m := holds_insert hfree
  have hblocks (j : Nat) (m : μ) : Holds (Function.update s.mutation i (some n))
      (fun n => n.blockLifecycle = true ∧ n.modelId = m) j ↔
        (j = i ∧ n.blockLifecycle = true ∧ n.modelId = m) ∨ s.Blocks j m := holds_insert hfree
  refine ⟨⟨h.marks.global, ?_, ?_⟩, ⟨?_, ?_⟩, ⟨h.accounts.releases, h.accounts.counters⟩,
    ?_, h.named, h.present, h.closing, h.fresh⟩
  · intro m
    have hmem : (m ∈ if n.blockLifecycle then insert n.modelId s.cleaningModels
        else s.cleaningModels) ↔ (n.blockLifecycle = true ∧ n.modelId = m) ∨
          m ∈ s.cleaningModels := by
      by_cases hblock : n.blockLifecycle = true
      · simp [hblock, eq_comm]
      · simp [hblock]
    show (m ∈ if n.blockLifecycle then insert n.modelId s.cleaningModels
        else s.cleaningModels) ↔
      (∃ j, s.Cleans j m) ∨ ∃ j, Holds (Function.update s.mutation i (some n)) _ j
    rw [hmem, h.marks.cleaning]
    constructor
    · rintro (hnew | hclean | ⟨j, hj⟩)
      · exact .inr ⟨i, (hblocks i m).mpr (.inl ⟨rfl, hnew⟩)⟩
      · exact .inl hclean
      · exact .inr ⟨j, (hblocks j m).mpr (.inr hj)⟩
    · rintro (hclean | ⟨j, hj⟩)
      · exact .inr (.inl hclean)
      · rcases (hblocks j m).mp hj with ⟨-, hnew⟩ | hold
        · exact .inl hnew
        · exact .inr (.inr ⟨j, hold⟩)
  · intro m
    show m ∈ insert n.modelId s.mutatingModels ↔
      ∃ j, Holds (Function.update s.mutation i (some n)) _ j
    rw [Finset.mem_insert, h.marks.mutating]
    constructor
    · rintro (rfl | ⟨j, hj⟩)
      · exact ⟨i, (hmutates i _).mpr (.inl ⟨rfl, rfl⟩)⟩
      · exact ⟨j, (hmutates j m).mpr (.inr hj)⟩
    · rintro ⟨j, hj⟩
      rcases (hmutates j m).mp hj with ⟨-, rfl⟩ | hold
      · exact .inl rfl
      · exact .inr ⟨j, hold⟩
  · intro j hj
    have hmark := h.marks.global.mpr ⟨j, hj⟩
    rw [hglobal] at hmark
    exact absurd hmark Bool.false_ne_true
  · intro j m hj
    have hold : s.Cleans j m := hj
    obtain ⟨hscope, hmutation, hengine⟩ := h.apart.modelAlone j m hold
    refine ⟨hscope, ?_, hengine⟩
    intro k hk
    rcases (hmutates k m).mp hk with ⟨-, rfl⟩ | hkold
    · exact hnoclean j hold
    · exact hmutation k hkold
  · intro j k m hj hk
    rcases (hmutates j m).mp hj with ⟨rfl, rfl⟩ | hjold
    · rcases (hmutates k _).mp hk with ⟨rfl, -⟩ | hkold
      · rfl
      · exact absurd hkold (hnomutate k)
    · rcases (hmutates k m).mp hk with ⟨rfl, rfl⟩ | hkold
      · exact absurd hjold (hnomutate j)
      · exact h.mutations j k m hjold hkold

theorem mem_exitMutation_cleaning {n : ExternalMutation μ} :
    m ∈ (s.exitMutation n).cleaningModels ↔
      m ∈ s.cleaningModels ∧ ¬ (n.blockLifecycle = true ∧ n.modelId = m) := by
  by_cases hblock : n.blockLifecycle = true
  · simp [exitMutation, hblock, eq_comm, and_comm]
  · simp [exitMutation, hblock]

theorem exitMutation_eq (n : ExternalMutation μ) :
    s.exitMutation n = { s with
      cleaningModels := (s.exitMutation n).cleaningModels
      mutatingModels := s.mutatingModels.erase n.modelId } := by
  rw [exitMutation]
  split_ifs <;> rfl

theorem Sound.exitMutation (h : s.Sound) {n : ExternalMutation μ} (hn : s.mutation i = some n) :
    ((s.exitMutation n).setMutation i none).Sound := by
  have hmutates (j : Nat) (m : μ) : Holds (Function.update s.mutation i none)
      (fun n => n.modelId = m) j ↔ s.Mutates j m ∧ j ≠ i := holds_remove
  have hblocks (j : Nat) (m : μ) : Holds (Function.update s.mutation i none)
      (fun n => n.blockLifecycle = true ∧ n.modelId = m) j ↔ s.Blocks j m ∧ j ≠ i := holds_remove
  have hmem (m : μ) := mem_exitMutation_cleaning (s := s) (n := n) (m := m)
  rw [exitMutation_eq]
  generalize (s.exitMutation n).cleaningModels = cleaning at hmem
  refine ⟨⟨h.marks.global, ?_, ?_⟩, ⟨?_, ?_⟩, ⟨h.accounts.releases, h.accounts.counters⟩,
    ?_, h.named, h.present, h.closing, h.fresh⟩
  · intro m
    show m ∈ cleaning ↔
      (∃ j, s.Cleans j m) ∨ ∃ j, Holds (Function.update s.mutation i none) _ j
    rw [hmem, h.marks.cleaning]
    constructor
    · rintro ⟨hclean | ⟨j, hj⟩, hother⟩
      · exact .inl hclean
      · refine .inr ⟨j, (hblocks j m).mpr ⟨hj, ?_⟩⟩
        rintro rfl
        obtain ⟨n', hn', hblock⟩ := hj
        obtain rfl : n = n' := by simpa [hn] using hn'
        exact hother hblock
    · rintro (⟨j, hj⟩ | ⟨j, hj⟩)
      · refine ⟨.inl ⟨j, hj⟩, ?_⟩
        rintro ⟨-, hmodel⟩
        exact (h.apart.modelAlone j m hj).2.1 i ⟨n, hn, hmodel⟩
      · obtain ⟨hold, hne⟩ := (hblocks j m).mp hj
        refine ⟨.inr ⟨j, hold⟩, ?_⟩
        rintro ⟨-, hmodel⟩
        obtain ⟨n', hn', -, hmodel'⟩ := hold
        exact hne (h.mutations j i m ⟨n', hn', hmodel'⟩ ⟨n, hn, hmodel⟩)
  · intro m
    show m ∈ s.mutatingModels.erase n.modelId ↔
      ∃ j, Holds (Function.update s.mutation i none) _ j
    rw [Finset.mem_erase, h.marks.mutating]
    constructor
    · rintro ⟨hne, j, hj⟩
      refine ⟨j, (hmutates j m).mpr ⟨hj, ?_⟩⟩
      rintro rfl
      obtain ⟨n', hn', rfl⟩ := hj
      obtain rfl : n = n' := by simpa [hn] using hn'
      exact hne rfl
    · rintro ⟨j, hj⟩
      obtain ⟨hold, hne⟩ := (hmutates j m).mp hj
      refine ⟨?_, j, hold⟩
      rintro rfl
      exact hne (h.mutations j i _ hold ⟨n, hn, rfl⟩)
  · intro j hj
    obtain ⟨hscope, hmutation, hengine⟩ := h.apart.globalAlone j hj
    refine ⟨hscope, ?_, hengine⟩
    intro k
    by_cases hki : k = i
    · simp [setMutation, hki]
    · simpa [setMutation, Function.update_of_ne hki] using hmutation k
  · intro j m hj
    obtain ⟨hscope, hmutation, hengine⟩ := h.apart.modelAlone j m hj
    exact ⟨hscope, fun k hk => hmutation k ((hmutates k m).mp hk).1, hengine⟩
  · intro j k m hj hk
    exact h.mutations j k m ((hmutates j m).mp hj).1 ((hmutates k m).mp hk).1

/-! ### Temporary engines -/

omit [DecidableEq μ] in
theorem uses_setEngine {e : TemporaryEngine μ} {j : Nat} : (s.setEngine i e).Uses j m ↔
    (j = i ∧ e.isOpen = true ∧ e.modelId = m) ∨ (s.Uses j m ∧ j ≠ i) :=
  holds_update

/-- What one engine does keeps the invariant if no engine becomes open, and what it says about
itself is right. -/
theorem Sound.setEngine (h : s.Sound) {e : TemporaryEngine μ} (temporary : Dict μ Int)
    (huses : ∀ j m, (s.setEngine i e).Uses j m → s.Uses j m)
    (hreleases : e.releases = if e.isOpen then 0 else 1)
    (hcounters : ∀ m, ∃ n : Nat, (temporary.get? m).getD 0 = n ∧
      Tally ((s.setEngine i e).Uses · m) n)
    (hpresent : ∀ m v, temporary.get? m = some v → 0 < v)
    (hclosing : 0 < e.closing → e.closing = 1 ∧ e.released = false)
    (hfresh : e.stage = .building → e.released = false ∧ e.closing = 0) :
    Sound { s.setEngine i e with temporaryModels := temporary } := by
  have hall {P : TemporaryEngine μ → Prop} (hnew : P e) (hold : ∀ j b, s.engine j = some b → P b) :
      ∀ j b, Function.update s.engine i (some e) j = some b → P b := by
    intro j b hb
    by_cases hj : j = i
    · have hbe : b = e := by simpa [hj] using hb.symm
      exact hbe ▸ hnew
    · rw [Function.update_of_ne hj] at hb
      exact hold j b hb
  refine ⟨⟨h.marks.global, h.marks.cleaning, h.marks.mutating⟩, ⟨?_, ?_⟩, ⟨?_, hcounters⟩,
    h.mutations, h.named, hpresent, ?_, ?_⟩
  · intro j hj
    obtain ⟨hscope, hmutation, hengine⟩ := h.apart.globalAlone j hj
    exact ⟨hscope, hmutation, fun k m hk => hengine k m (huses k m hk)⟩
  · intro j m hj
    obtain ⟨hscope, hmutation, hengine⟩ := h.apart.modelAlone j m hj
    exact ⟨hscope, hmutation, fun k hk => hengine k (huses k m hk)⟩
  · exact hall hreleases h.accounts.releases
  · exact hall hclosing h.closing
  · exact hall hfresh h.fresh

/-- A step of an engine that stays as open as it is. -/
theorem Sound.setEngine_same (h : s.Sound) {e e' : TemporaryEngine μ} (he : s.engine i = some e)
    (hopen : e'.isOpen = e.isOpen) (hmodel : e'.modelId = e.modelId)
    (hreleases : e'.releases = e.releases)
    (hclosing : 0 < e'.closing → e'.closing = 1 ∧ e'.released = false)
    (hfresh : e'.stage = .building → e'.released = false ∧ e'.closing = 0) :
    (s.setEngine i e').Sound := by
  have huses (j : Nat) (m : μ) : (s.setEngine i e').Uses j m ↔ s.Uses j m := by
    rw [uses_setEngine, hopen, hmodel]
    constructor
    · rintro (⟨rfl, ho⟩ | ⟨hold, -⟩)
      · exact ⟨e, he, ho⟩
      · exact hold
    · intro hold
      by_cases hj : j = i
      · obtain ⟨b, hb, ho⟩ := hold
        obtain rfl : e = b := by simpa [hj, he] using hb
        exact .inl ⟨hj, ho⟩
      · exact .inr ⟨hold, hj⟩
  apply h.setEngine s.temporaryModels
  · exact fun j m => (huses j m).mp
  · rw [hreleases, hopen]
    exact h.accounts.releases i e he
  · intro m
    obtain ⟨n, hn, htally⟩ := h.accounts.counters m
    exact ⟨n, hn, htally.congr fun j => huses j m⟩
  · exact h.present
  · exact hclosing
  · exact hfresh

theorem endTemporaryModel_eq (s : StorageRuntimeState μ) (modelId : μ) :
    s.endTemporaryModel modelId =
      { s with temporaryModels := (s.endTemporaryModel modelId).temporaryModels } := by
  rw [endTemporaryModel]
  split_ifs <;> rfl

theorem endTemporaryModel_get? {modelId : μ} {v : Int}
    (hv : s.temporaryModels.get? modelId = some v) (m : μ) :
    (s.endTemporaryModel modelId).temporaryModels.get? m =
      if m = modelId then if 0 < v - 1 then some (v - 1) else none
      else s.temporaryModels.get? m := by
  rw [endTemporaryModel, hv, Option.getD_some]
  split_ifs with hmore hm hm
  · rw [hm, Dict.get?_set_self]
  · rw [Dict.get?_set_of_ne _ _ hm]
  · rw [hm, Dict.get?_erase, if_pos rfl]
  · rw [Dict.get?_erase, if_neg hm]

/-- An open engine ends, and releases its registration. -/
theorem Sound.endEngine (h : s.Sound) {e e' : TemporaryEngine μ} (he : s.engine i = some e)
    (hopen : e.isOpen = true) (hended : e'.isOpen = false)
    (hreleases : e'.releases = e.releases + 1) (hclosing : e'.closing = 0)
    (hfresh : e'.stage ≠ .building) :
    ((s.endTemporaryModel e.modelId).setEngine i e').Sound := by
  have huse : s.Uses i e.modelId := ⟨e, he, hopen, rfl⟩
  obtain ⟨v, hv⟩ : ∃ v, s.temporaryModels.get? e.modelId = some v := by
    rw [← Option.ne_none_iff_exists', ne_eq, h.get?_eq_none_iff]
    exact fun hnone => hnone i huse
  have huses (j : Nat) (m : μ) : (s.setEngine i e').Uses j m ↔ s.Uses j m ∧ j ≠ i := by
    rw [uses_setEngine, hended]
    simp
  rw [endTemporaryModel_eq]
  have hget := endTemporaryModel_get? hv
  generalize (s.endTemporaryModel e.modelId).temporaryModels = temporary at hget
  apply h.setEngine temporary
  · exact fun j m hj => ((huses j m).mp hj).1
  · rw [hreleases, hended, h.accounts.releases i e he, hopen]
    rfl
  · intro m
    obtain ⟨n, hn, htally⟩ := h.accounts.counters m
    by_cases hm : m = e.modelId
    · subst hm
      refine ⟨n - 1, ?_, htally.leave huse fun j => huses j _⟩
      have hpos := htally.pos huse
      rw [hv, Option.getD_some] at hn
      rw [hget, if_pos rfl]
      split_ifs with hmore
      · rw [Option.getD_some]
        omega
      · rw [Option.getD_none]
        omega
    · refine ⟨n, ?_, htally.congr fun j => ?_⟩
      · rw [hget, if_neg hm]
        exact hn
      · rw [huses]
        refine and_iff_left_of_imp ?_
        rintro ⟨b, hb, -, rfl⟩ rfl
        obtain rfl : e = b := by simpa [he] using hb
        exact hm rfl
  · intro m w hw
    rw [hget] at hw
    split_ifs at hw with hm hmore
    · exact Option.some.inj hw ▸ hmore
    · exact h.present m w hw
  · intro hpos
    omega
  · exact fun hs => absurd hs hfresh

theorem beginTemporaryModel_eq_some {modelId : μ} (he : s.beginTemporaryModel modelId = some s') :
    s.globalCleanup = false ∧ modelId ∉ s.cleaningModels ∧ s' = { s with
      temporaryModels :=
        s.temporaryModels.set modelId ((s.temporaryModels.get? modelId).getD 0 + 1) } := by
  rw [beginTemporaryModel] at he
  split_ifs at he with hrefused
  push Not at hrefused
  exact ⟨by simpa using hrefused.1, hrefused.2.1, (Option.some.inj he).symm⟩

theorem Sound.beginTemporary (h : s.Sound) {modelId : μ} (hfree : s.engine i = none)
    (he : s.beginTemporaryModel modelId = some s') :
    (s'.setEngine i ⟨modelId, .building, 0, false, 0⟩).Sound := by
  obtain ⟨hglobal, hcleaning, rfl⟩ := beginTemporaryModel_eq_some he
  have huses (j : Nat) (m : μ) : (s.setEngine i ⟨modelId, .building, 0, false, 0⟩).Uses j m ↔
      (j = i ∧ modelId = m) ∨ s.Uses j m := by
    have hinsert := holds_insert (P := fun e : TemporaryEngine μ => e.isOpen = true ∧ e.modelId = m)
      (a := ⟨modelId, .building, 0, false, 0⟩) (j := j) hfree
    exact hinsert.trans (or_congr_left (and_congr_right fun _ => by simp [TemporaryEngine.isOpen]))
  have hcount := h.accounts.counters modelId
  refine ⟨⟨h.marks.global, h.marks.cleaning, h.marks.mutating⟩, ⟨?_, ?_⟩, ⟨?_, ?_⟩,
    h.mutations, h.named, ?_, ?_, ?_⟩
  · intro j hj
    have hmark := h.marks.global.mpr ⟨j, hj⟩
    rw [hglobal] at hmark
    exact absurd hmark Bool.false_ne_true
  · intro j m hj
    obtain ⟨hscope, hmutation, hengine⟩ := h.apart.modelAlone j m hj
    refine ⟨hscope, hmutation, ?_⟩
    intro k hk
    rcases (huses k m).mp hk with ⟨-, rfl⟩ | hold
    · exact hcleaning ((h.marks.cleaning _).mpr (.inl ⟨j, hj⟩))
    · exact hengine k hold
  · intro j b hb
    by_cases hj : j = i
    · obtain rfl : _ = b := by simpa [hj, StorageRuntimeState.setEngine] using hb
      rfl
    · apply h.accounts.releases j b
      simpa [StorageRuntimeState.setEngine, Function.update_of_ne hj] using hb
  · intro m
    obtain ⟨n, hn, htally⟩ := h.accounts.counters m
    show ∃ n : Nat, ((s.temporaryModels.set _ _).get? m).getD 0 = n ∧ _
    rw [Dict.get?_set]
    by_cases hm : m = modelId
    · subst hm
      have hnew : ¬ s.Uses i m := by
        rintro ⟨b, hb, -⟩
        rw [hfree] at hb
        cases hb
      refine ⟨n + 1, ?_, htally.enter hnew fun j => ?_⟩
      · rw [if_pos rfl, hn]
        rfl
      · exact (huses j m).trans (by simp)
    · refine ⟨n, ?_, htally.congr fun j => ?_⟩
      · rw [if_neg hm]
        exact hn
      · exact (huses j m).trans (by simp [Ne.symm hm])
  · intro m v hv
    have hv : (s.temporaryModels.set _ _).get? m = some v := hv
    rw [Dict.get?_set] at hv
    split_ifs at hv
    · obtain ⟨n, hn, -⟩ := hcount
      have := Option.some.inj hv
      omega
    · exact h.present m v hv
  · intro j b hb
    by_cases hj : j = i
    · obtain rfl : _ = b := by simpa [hj, StorageRuntimeState.setEngine] using hb
      exact fun hpos => absurd hpos (Nat.lt_irrefl 0)
    · apply h.closing j b
      simpa [StorageRuntimeState.setEngine, Function.update_of_ne hj] using hb
  · intro j b hb
    by_cases hj : j = i
    · obtain rfl : _ = b := by simpa [hj, StorageRuntimeState.setEngine] using hb
      exact fun _ => ⟨rfl, rfl⟩
    · apply h.fresh j b
      simpa [StorageRuntimeState.setEngine, Function.update_of_ne hj] using hb

/-! ### Runs -/

theorem Sound.step (h : s.Sound) {e : Event μ} (hsep : s.separate e = true)
    (he : s.step e = some s') : s'.Sound := by
  cases e with
  | enterCleanup i a =>
    rw [StorageRuntimeState.step] at he
    split at he
    · cases he
    · next hfree =>
      split at he
      · exact Option.some.inj he ▸ h
      · next hentered =>
        apply Option.some.inj he ▸ h.enterCleanup hfree ?_ hentered
        simpa [separate] using hsep
  | exitCleanup i =>
    rw [StorageRuntimeState.step] at he
    split at he
    · cases he
    · next ha => exact Option.some.inj he ▸ h.exitCleanup ha
  | enterMutation i n =>
    rw [StorageRuntimeState.step] at he
    split at he
    · cases he
    · next hfree =>
      split at he
      · exact Option.some.inj he ▸ h
      · next hentered => exact Option.some.inj he ▸ h.enterMutation hfree hentered
  | exitMutation i =>
    rw [StorageRuntimeState.step] at he
    split at he
    · cases he
    · next hn => exact Option.some.inj he ▸ h.exitMutation hn
  | beginTemporary i modelId =>
    rw [StorageRuntimeState.step] at he
    split at he
    · cases he
    · next hfree =>
      split at he
      · exact Option.some.inj he ▸ h
      · next hbegun => exact Option.some.inj he ▸ h.beginTemporary hfree hbegun
  | abandon i =>
    rw [StorageRuntimeState.step] at he
    split at he
    · cases he
    · next e hengine =>
      split_ifs at he with hbuilding
      apply Option.some.inj he ▸ h.endEngine hengine ?_ ?_ ?_ ?_ ?_
      · simp [TemporaryEngine.isOpen, hbuilding]
      · rfl
      · rfl
      · exact (h.fresh i e hengine hbuilding).2
      · exact fun hs => by cases hs
  | guard i =>
    rw [StorageRuntimeState.step] at he
    split at he
    · cases he
    · next e hengine =>
      split_ifs at he with hbuilding
      apply Option.some.inj he ▸ h.setEngine_same hengine ?_ ?_ ?_ ?_ ?_
      · simp [TemporaryEngine.isOpen, hbuilding, (h.fresh i e hengine hbuilding).1]
      · rfl
      · rfl
      · exact h.closing i e hengine
      · exact fun hs => by cases hs
  | beginClose i =>
    rw [StorageRuntimeState.step] at he
    split at he
    · cases he
    · next e hengine =>
      split_ifs at he with hguarded hreleased
      · exact Option.some.inj he ▸ h
      · -- no other close is running
        have hfirst : e.closing = 0 := by simpa [separate, hengine] using hsep
        apply Option.some.inj he ▸ h.setEngine_same hengine ?_ ?_ ?_ ?_ ?_
        · rfl
        · rfl
        · rfl
        · exact fun _ => ⟨by simp [hfirst], by simpa using hreleased⟩
        · exact fun hs => absurd (hguarded.symm.trans hs) (by decide)
  | endClose i =>
    rw [StorageRuntimeState.step] at he
    split at he
    · cases he
    · next e hengine =>
      split_ifs at he with hrunning
      obtain ⟨hone, hopen⟩ := h.closing i e hengine hrunning.2
      apply Option.some.inj he ▸ h.endEngine hengine ?_ ?_ ?_ ?_ ?_
      · simp [TemporaryEngine.isOpen, hrunning.1, hopen]
      · simp [TemporaryEngine.isOpen, hrunning.1]
      · rfl
      · simp [hone]
      · simp [hrunning.1]

/-- **In every run in which no close of an engine begins while another close of it is running,
cleanup, mutations and temporary engines exclude each other, each engine releases its
registration once, and the counters are zero exactly where no engine is open.** -/
theorem storage_exclusion {es : List (Event μ)}
    (hsep : Transition.meets StorageRuntimeState.step separate initial es = true)
    (hrun : Transition.run StorageRuntimeState.step initial es = some s) :
    s.Apart ∧ s.Accounts ∧
      ∀ m, 0 ≤ (s.temporaryModels.get? m).getD 0 ∧
        ((s.temporaryModels.get? m).getD 0 = 0 ↔ ∀ i, ¬ s.Uses i m) := by
  have h : s.Sound :=
    Transition.run_invariant (fun _ _ _ hs hC he => hs.step hC he) sound_initial hsep hrun
  refine ⟨h.apart, h.accounts, ?_⟩
  intro m
  obtain ⟨n, hn, htally⟩ := h.accounts.counters m
  rw [hn, ← htally.eq_zero_iff]
  exact ⟨Int.natCast_nonneg n, Int.natCast_eq_zero⟩

/-- An engine is closed twice, one close after the other; then the model is cleaned. -/
theorem storage_exclusion_closed_twice :
    ∃ s, Transition.run StorageRuntimeState.step initial
        [.beginTemporary 0 7, .guard 0, .enterMutation 0 ⟨8, true⟩, .beginClose 0, .endClose 0,
          .beginClose 0, .enterCleanup 0 ⟨[7, 9], false⟩] = some s ∧ s.Apart ∧ s.Accounts := by
  refine ⟨_, rfl, ?_⟩
  have hrun : Transition.run StorageRuntimeState.step (initial : StorageRuntimeState Nat)
      [.beginTemporary 0 7, .guard 0, .enterMutation 0 ⟨8, true⟩, .beginClose 0, .endClose 0,
        .beginClose 0, .enterCleanup 0 ⟨[7, 9], false⟩] = some _ := rfl
  obtain ⟨hapart, haccounts, -⟩ := storage_exclusion rfl hrun
  exact ⟨hapart, haccounts⟩

/-- Two engines of one model are open and the closes of the first overlap: its second release
takes the registration of the other one away, and the model is cleaned while that is open. -/
theorem storage_exclusion_overlapping_closes :
    ¬ ∀ (es : List (Event Nat)) (s : StorageRuntimeState Nat),
      Transition.run StorageRuntimeState.step initial es = some s → s.Apart ∧ s.Accounts ∧
        ∀ m, 0 ≤ (s.temporaryModels.get? m).getD 0 ∧
          ((s.temporaryModels.get? m).getD 0 = 0 ↔ ∀ i, ¬ s.Uses i m) := by
  intro h
  obtain ⟨hapart, -⟩ := h [.beginTemporary 0 7, .beginTemporary 1 7, .guard 0, .guard 1,
    .beginClose 0, .beginClose 0, .endClose 0, .endClose 0, .enterCleanup 0 ⟨[7], false⟩] _ rfl
  apply (hapart.modelAlone 0 7 ⟨⟨[7], false⟩, rfl, by decide⟩).2.2 1
  exact ⟨⟨7, .guarded, 0, false, 0⟩, rfl, rfl, rfl⟩

end StorageRuntimeState

end InferBridge
