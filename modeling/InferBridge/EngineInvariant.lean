/-
InferBridge/EngineInvariant.lean

The invariant of the engine lifecycle, and the primitives that keep it.

Design.  `Core` says what holds of the maps and the objects at every moment;
`StageOk` says what a task relies on at the `await` where it is.  In the
middle of a segment of task `t` its own stage says nothing, so `During cfg strict s
(some t)` is `Core` and the stages of all the others; `Inv` leaves out
nobody.  Every primitive of a segment keeps `During`; a segment ends with
`goTo`, which asks for the new stage of `t` and gives `Inv` back
(`During.arrive`).
-/
import InferBridge.EngineLifecycle

namespace InferBridge

variable {μ δ : Type*}

/-! ### The invariant -/

/-- The task holds nothing. -/
def Task.Idle (k : Task μ δ) : Prop :=
  k.loadLock = false ∧ k.lock = none ∧ k.future = none ∧ k.replacement = none

/-- The task holds the load lock and nothing else. -/
def Task.HoldsLoadLock (k : Task μ δ) : Prop :=
  k.loadLock = true ∧ k.lock = none ∧ k.future = none ∧ k.replacement = none

/-- The task holds the load lock and waits for a build. -/
def Task.Builds (k : Task μ δ) : Prop :=
  k.loadLock = true ∧ k.lock = none ∧ k.future ≠ none ∧ k.replacement = none

/-- A task that is not in a rebuild. -/
def Task.Quiet (k : Task μ δ) : Prop :=
  ∀ m requested e, k.activity ≠ .request m requested (.rebuilding e)

/-- What a load task holds at each stage. -/
def LoadOk (k : Task μ δ) : LoadStage → Prop
  | .queued | .waitLoadLock | .finished | .returned => k.Idle
  | .gotLoadLock | .converting => k.HoldsLoadLock
  | .building | .settling => k.Builds
  | .waitHandoff _ _ => k.loadLock = true ∧ k.lock = none ∧ k.future = none ∧ k.replacement ≠ none
  | .gotHandoff _ l =>
    k.loadLock = true ∧ k.lock = some l ∧ k.future = none ∧ k.replacement ≠ none

/-- No task waits for this engine or holds it as its replacement, and none will. -/
def Manager.Unowned (s : Manager μ δ) (e : Nat) : Prop :=
  e < s.nextEngine ∧ ∀ t, (s.task t).future ≠ some e ∧ (s.task t).replacement ≠ some e

/-- The engine is the installed one, closed `closes` times, and the task holds its lock. -/
def Manager.Holds (s : Manager μ δ) (m : μ) (k : Task μ δ) (e closes : Nat) : Prop :=
  s.engines m = some e ∧ (∃ l, s.locks m = some l ∧ k.lock = some l) ∧
    (s.engine e).closes = closes

def RequestOk (cfg : ManagerSettings μ δ) (s : Manager μ δ) (m : μ) (requested : Nat)
    (k : Task μ δ) : RequestStage → Prop
  | .waiting _ _ | .finished => k.Idle
  | .leased e =>
    k.loadLock = false ∧ k.future = none ∧ k.replacement = none ∧
      if cfg.catalog m then s.Holds m k e 0 else e = requested
  | .rebuilding e =>
    k.loadLock = false ∧ k.future ≠ none ∧ k.replacement = none ∧ cfg.catalog m = true ∧
      s.Holds m k e 1

def ConfigureOk (s : Manager μ δ) (m : μ) (k : Task μ δ) : ConfigureStage → Prop
  | .waitLoadLock | .finished => k.Idle
  | .building old _ => k.Builds ∧ s.Unowned old
  | .waitLock old l =>
    k.loadLock = true ∧ k.lock = none ∧ k.future = none ∧
      ∀ e, old = some e → s.Unowned e ∧ (s.engines m = some e → s.locks m = some l)

/-- What a task relies on at the `await` where it is. -/
def StageOk (cfg : ManagerSettings μ δ) (s : Manager μ δ) (k : Task μ δ) : Prop :=
  match k.activity with
  | .absent => k.Idle
  | .load m _ stage => cfg.catalog m = true ∧ LoadOk k stage
  | .request m requested stage => RequestOk cfg s m requested k stage
  | .configure m stage => cfg.catalog m = true ∧ ConfigureOk s m k stage

/-- What holds of the maps and the objects at every moment. -/
structure Core (cfg : ManagerSettings μ δ) (s : Manager μ δ) : Prop where
  loadLock : ∀ t, s.loadLock = some t ↔ (s.task t).loadLock = true
  lock : ∀ l t, s.lockHolder l = some t ↔ (s.task t).lock = some l
  injective : ∀ m m' e, s.engines m = some e → s.engines m' = some e → m = m'
  installed : ∀ m e, s.engines m = some e →
    cfg.catalog m = true ∧ e < s.nextEngine ∧ ∃ l, s.locks m = some l
  owned : ∀ t e, (s.task t).future = some e ∨ (s.task t).replacement = some e →
    e < s.nextEngine ∧ (s.engine e).builder = some t ∧ (s.engine e).closes = 0 ∧
      ∀ m, s.engines m ≠ some e
  apart : ∀ t, (s.task t).future = none ∨ (s.task t).replacement = none
  /-- An installed engine is open, but for the one that a rebuild has closed. -/
  closed : ∀ m e, s.engines m = some e → (s.engine e).closes ≠ 0 →
    ∃ t r, (s.task t).activity = .request m r (.rebuilding e)
  once : ∀ e, (s.engine e).closes ≤ 1
  fresh : ∀ e, s.nextEngine ≤ e → (s.engine e).builder = none ∧ (s.engine e).closes = 0

/-- No native build is lost: its task waits for it while it runs; an engine it has produced
is waited for, held as a replacement, installed, or closed. -/
structure Tracked (s : Manager μ δ) : Prop where
  running : ∀ e t, (s.engine e).builder = some t → (s.engine e).build = .running →
    (s.task t).future = some e
  built : ∀ e t, (s.engine e).builder = some t → (s.engine e).build = .built →
    (s.task t).future = some e ∨ (s.task t).replacement = some e ∨
      (∃ m, s.engines m = some e) ∨ (s.engine e).closes = 1

/-- In the middle of a segment of the task `running`: its own stage is left out.  The builds
are tracked in `strict` runs only. -/
structure During (cfg : ManagerSettings μ δ) (strict : Prop) (s : Manager μ δ)
    (running : Option Nat) : Prop where
  core : Core cfg s
  others : ∀ t, some t ≠ running → StageOk cfg s (s.task t)
  tracked : strict → Tracked s

/-- Between two segments. -/
abbrev Inv (cfg : ManagerSettings μ δ) (strict : Prop) (s : Manager μ δ) : Prop :=
  During cfg strict s none

variable {cfg : ManagerSettings μ δ} {strict : Prop} {s s' : Manager μ δ} {t : Nat}
  {running : Option Nat}

theorem inv_initial : Inv cfg strict (Manager.initial : Manager μ δ) := by
  refine ⟨?_, ?_, ?_⟩
  · constructor <;> simp [Manager.initial]
  · intro t _
    simp [StageOk, Manager.initial, Task.Idle]
  · intro _
    constructor <;> simp [Manager.initial]

theorem During.stage (h : Inv cfg strict s) (t : Nat) : StageOk cfg s (s.task t) :=
  h.others t nofun

theorem During.start (h : Inv cfg strict s) (t : Nat) : During cfg strict s (some t) :=
  ⟨h.core, fun t' _ => h.stage t', h.tracked⟩

/-- Without the builds. -/
theorem During.forget (h : During cfg strict s running) : During cfg False s running :=
  ⟨h.core, h.others, False.elim⟩

/-- With the builds shown separately. -/
theorem During.track (h : During cfg False s running) (htracked : strict → Tracked s) :
    During cfg strict s running :=
  ⟨h.core, h.others, htracked⟩

/-- What a task relies on survives a step that keeps the engines under a lock it holds, the
locks of engines that stay, and ownership. -/
theorem StageOk.mono {k : Task μ δ} (h : StageOk cfg s k)
    (hlease : ∀ m e c, s.Holds m k e c → s'.Holds m k e c)
    (hlock : ∀ m e, s.Unowned e → s'.engines m = some e →
      s.engines m = some e ∧ s'.locks m = s.locks m)
    (hunowned : ∀ e, s.Unowned e → s'.Unowned e) : StageOk cfg s' k := by
  unfold StageOk at h ⊢
  rcases e : k.activity with - | ⟨m, current, stage⟩ | ⟨m, requested, stage⟩ | ⟨m, stage⟩
  · simpa [e] using h
  · simpa [e] using h
  · rw [e] at h
    cases stage with
    | waiting current l => exact h
    | leased engine =>
      obtain ⟨h1, h2, h3, hholds⟩ := h
      refine ⟨h1, h2, h3, ?_⟩
      split
      · next hm =>
        rw [if_pos hm] at hholds
        exact hlease m engine 0 hholds
      · next hm =>
        rw [if_neg hm] at hholds
        exact hholds
    | rebuilding engine =>
      obtain ⟨h1, h2, h3, hm, hholds⟩ := h
      exact ⟨h1, h2, h3, hm, hlease m engine 1 hholds⟩
    | finished => exact h
  · rw [e] at h
    obtain ⟨hm, h⟩ := h
    refine ⟨hm, ?_⟩
    cases stage with
    | waitLoadLock => exact h
    | building old cancelled => exact ⟨h.1, hunowned old h.2⟩
    | waitLock old l =>
      obtain ⟨h1, h2, h3, hold⟩ := h
      refine ⟨h1, h2, h3, ?_⟩
      intro engine hengine
      obtain ⟨hun, himp⟩ := hold engine hengine
      refine ⟨hunowned engine hun, ?_⟩
      intro hinstalled
      obtain ⟨hbefore, hsame⟩ := hlock m engine hun hinstalled
      rw [hsame]
      exact himp hbefore
    | finished => exact h

/-! ### The middle of a segment -/

theorem Manager.Unowned.mono {e : Nat} (h : s.Unowned e) (hnext : s.nextEngine ≤ s'.nextEngine)
    (htask : ∀ t, ∀ e < s.nextEngine,
      (s'.task t).future = some e ∨ (s'.task t).replacement = some e →
        (s.task t).future = some e ∨ (s.task t).replacement = some e) : s'.Unowned e := by
  obtain ⟨hold, hnobody⟩ := h
  refine ⟨by omega, ?_⟩
  intro t
  by_contra hcon
  have howner : (s'.task t).future = some e ∨ (s'.task t).replacement = some e := by tauto
  rcases htask t e hold howner with hfuture | hreplacement
  · exact (hnobody t).1 hfuture
  · exact (hnobody t).2 hreplacement

/-- A primitive: the core is shown, and the others keep what they rely on. -/
theorem During.step (h : During cfg strict s running) (hcore : Core cfg s')
    (htask : ∀ t, some t ≠ running → s'.task t = s.task t)
    (hlease : ∀ t, some t ≠ running → ∀ m e c,
      s.Holds m (s.task t) e c → s'.Holds m (s.task t) e c)
    (hlock : ∀ m e, s.Unowned e → s'.engines m = some e →
      s.engines m = some e ∧ s'.locks m = s.locks m)
    (hunowned : ∀ e, s.Unowned e → s'.Unowned e)
    (htracked : strict → Tracked s → Tracked s') : During cfg strict s' running := by
  refine ⟨hcore, ?_, fun hs => htracked hs (h.tracked hs)⟩
  intro t hne
  rw [htask t hne]
  exact (h.others t hne).mono (hlease t hne) hlock hunowned

/-- What the account of the builds depends on. -/
theorem Tracked.congr (h : Tracked s) (hengines : s'.engines = s.engines)
    (hengine : s'.engine = s.engine)
    (htask : ∀ t, (s'.task t).future = (s.task t).future ∧
      (s'.task t).replacement = (s.task t).replacement) : Tracked s' := by
  refine ⟨?_, ?_⟩
  · intro e t hbuilder hrunning
    rw [hengine] at hbuilder hrunning
    rw [(htask t).1]
    exact h.running e t hbuilder hrunning
  · intro e t hbuilder hbuilt
    rw [hengine] at hbuilder hbuilt ⊢
    rw [(htask t).1, (htask t).2, hengines]
    exact h.built e t hbuilder hbuilt

/-- A primitive that only takes or releases locks. -/
theorem During.relock (h : During cfg strict s (some t))
    (hload : ∀ t', s'.loadLock = some t' ↔ (s'.task t').loadLock = true)
    (hlock : ∀ l t', s'.lockHolder l = some t' ↔ (s'.task t').lock = some l)
    (hengines : s'.engines = s.engines) (hlocks : s'.locks = s.locks)
    (hengine : s'.engine = s.engine) (hnext : s'.nextEngine = s.nextEngine)
    (htask : ∀ t', t' ≠ t → s'.task t' = s.task t')
    (hactivity : (s'.task t).activity = (s.task t).activity)
    (hfuture : (s'.task t).future = (s.task t).future)
    (hreplacement : (s'.task t).replacement = (s.task t).replacement) :
    During cfg strict s' (some t) := by
  have hkeep : ∀ t', (s'.task t').activity = (s.task t').activity ∧
      (s'.task t').future = (s.task t').future ∧
      (s'.task t').replacement = (s.task t').replacement := by
    intro t'
    by_cases ht : t' = t
    · subst ht
      exact ⟨hactivity, hfuture, hreplacement⟩
    · rw [htask t' ht]
      exact ⟨rfl, rfl, rfl⟩
  have hcore : Core cfg s' := by
    obtain ⟨-, -, h3, h4, h5, h6, h7, h8, h9⟩ := h.core
    refine ⟨hload, hlock, ?_, ?_, ?_, ?_, ?_, ?_, ?_⟩
    · rwa [hengines]
    · rwa [hengines, hlocks, hnext]
    · intro t' e howner
      rw [(hkeep t').2.1, (hkeep t').2.2] at howner
      rw [hengines, hengine, hnext]
      exact h5 t' e howner
    · intro t'
      rw [(hkeep t').2.1, (hkeep t').2.2]
      exact h6 t'
    · intro m e he hclosed
      rw [hengines] at he
      rw [hengine] at hclosed
      obtain ⟨t', r, ht'⟩ := h7 m e he hclosed
      exact ⟨t', r, by rw [(hkeep t').1, ht']⟩
    · rwa [hengine]
    · rwa [hengine, hnext]
  refine h.step hcore ?_ ?_ ?_ ?_ ?_
  · intro t' hne
    exact htask t' (by simpa using hne)
  · intro t' _ m e c hholds
    unfold Manager.Holds
    rwa [hengines, hlocks, hengine]
  · intro m e _ he
    rw [hengines] at he
    exact ⟨he, by rw [hlocks]⟩
  · intro e he
    refine he.mono hnext.ge ?_
    intro t' e' _ howner
    rwa [(hkeep t').2.1, (hkeep t').2.2] at howner
  · intro _ h
    exact h.congr hengines hengine (fun t' => (hkeep t').2)

/-! ### Locks -/

@[simp] theorem Manager.acquireLoadLock_task :
    (s.acquireLoadLock t).task t = { s.task t with loadLock := true } := by
  simp [Manager.acquireLoadLock]

@[simp] theorem Manager.releaseLoadLock_task :
    (s.releaseLoadLock t).task t = { s.task t with loadLock := false } := by
  unfold Manager.releaseLoadLock
  split
  · simp
  · next h =>
    have hfalse : (s.task t).loadLock = false := by simpa using h
    simp [← hfalse]

@[simp] theorem Manager.acquireLock_task {l : Nat} :
    (s.acquireLock t l).task t = { s.task t with lock := some l } := by
  simp [Manager.acquireLock]

@[simp] theorem Manager.releaseLock_task :
    (s.releaseLock t).task t = { s.task t with lock := none } := by
  unfold Manager.releaseLock
  split
  · next h => simp [← h]
  · simp

theorem During.acquireLoadLock (h : During cfg strict s (some t)) (hfree : s.loadLock = none) :
    During cfg strict (s.acquireLoadLock t) (some t) := by
  have hload := h.core.loadLock
  have hlock := h.core.lock
  apply h.relock <;> simp only [Manager.acquireLoadLock, Function.update_apply] <;> grind

theorem During.releaseLoadLock (h : During cfg strict s (some t)) :
    During cfg strict (s.releaseLoadLock t) (some t) := by
  unfold Manager.releaseLoadLock
  split
  · next hheld =>
    have hload := h.core.loadLock
    have hlock := h.core.lock
    have howner := (hload t).mpr hheld
    apply h.relock <;> simp only [Function.update_apply] <;> grind
  · exact h

theorem During.acquireLock (h : During cfg strict s (some t)) {l : Nat} (hfree : s.lockHolder l = none)
    (hnone : (s.task t).lock = none) : During cfg strict (s.acquireLock t l) (some t) := by
  have hload := h.core.loadLock
  have hlock := h.core.lock
  apply h.relock <;> simp only [Manager.acquireLock, Function.update_apply] <;> grind

theorem During.releaseLock (h : During cfg strict s (some t)) :
    During cfg strict (s.releaseLock t) (some t) := by
  unfold Manager.releaseLock
  rcases e : (s.task t).lock with - | l
  · exact h
  · have hload := h.core.loadLock
    have hlock := h.core.lock
    have howner := (hlock l t).mpr e
    apply h.relock <;> simp only [Function.update_apply] <;> grind

theorem Core.lock_unique (h : Core cfg s) {l t' : Nat} (ht : (s.task t).lock = some l)
    (ht' : (s.task t').lock = some l) : t' = t := by
  have hholder := (h.lock l t).mpr ht
  rw [(h.lock l t').mpr ht'] at hholder
  exact Option.some.inj hholder

/-- While the task holds the lock of a model, nobody else holds its engine. -/
theorem Core.nobody_holds (h : Core cfg s) {m : μ} {l t' : Nat} (hl : s.locks m = some l)
    (ht : (s.task t).lock = some l) (hne : t' ≠ t) (e c : Nat) :
    ¬ s.Holds m (s.task t') e c := by
  rintro ⟨-, ⟨l', hl', ht'⟩, -⟩
  obtain rfl : l' = l := by simpa [hl] using hl'.symm
  exact hne (h.lock_unique ht ht')

/-- An installed engine is open, unless a task is rebuilding it under its lock. -/
theorem During.open_or_held (h : During cfg strict s running) {m : μ} {e : Nat}
    (he : s.engines m = some e)
    (hquiet : ∀ t, some t = running → ∀ requested,
      (s.task t).activity ≠ .request m requested (.rebuilding e)) :
    (s.engine e).closes = 0 ∨ ∃ t, some t ≠ running ∧ s.Holds m (s.task t) e 1 := by
  by_cases hclosed : (s.engine e).closes = 0
  · exact .inl hclosed
  · right
    obtain ⟨t, requested, hrebuilds⟩ := h.core.closed m e he hclosed
    have hne : some t ≠ running := by
      intro heq
      exact hquiet t heq requested hrebuilds
    have hstage := h.others t hne
    rw [StageOk, hrebuilds] at hstage
    exact ⟨t, hne, hstage.2.2.2.2⟩

/-! ### Builds and replacements -/

@[simp] theorem Manager.dropReplacement_task :
    (s.dropReplacement t).task t = { s.task t with replacement := none } := by
  simp [Manager.dropReplacement]

@[simp] theorem Manager.closeReplacement_task :
    (s.closeReplacement t).task t = { s.task t with replacement := none } := by
  unfold Manager.closeReplacement
  split
  · next h => simp [← h]
  · simp [Manager.close]

theorem Manager.Unowned.startBuild {e : Nat} (h : s.Unowned e) (target : Option δ) :
    (s.startBuild t target).Unowned e := by
  refine h.mono (Nat.le_succ _) ?_
  simp only [Manager.startBuild, Function.update_apply]
  grind

theorem During.startBuild (h : During cfg strict s (some t)) (target : Option δ)
    (hfuture : (s.task t).future = none) (hnone : (s.task t).replacement = none) :
    During cfg strict (s.startBuild t target) (some t) := by
  obtain ⟨h1, h2, h3, h4, h5, h6, h7, h8, h9⟩ := h.core
  have hcore : Core cfg (s.startBuild t target) := by
    constructor <;> simp only [Manager.startBuild, Function.update_apply] <;> grind
  refine h.step hcore ?_ ?_ ?_ ?_ ?_
  · intro t' hne
    have ht' : t' ≠ t := by simpa using hne
    simp [Manager.startBuild, ht']
  · rintro t' _ m e c ⟨hinstalled, hlock, hcloses⟩
    have hold := (h4 m e hinstalled).2.1
    refine ⟨hinstalled, hlock, ?_⟩
    simpa [Manager.startBuild, hold.ne] using hcloses
  · intro m e _ hinstalled
    exact ⟨hinstalled, rfl⟩
  · intro e he
    exact he.startBuild target
  · rintro - ⟨hrunning, hbuilt⟩
    constructor <;> simp only [Manager.startBuild, Function.update_apply] <;> grind

/-- A primitive that only moves or drops what the task itself owns. -/
theorem During.reown (h : During cfg strict s (some t)) {future replacement : Option Nat}
    (hown : ∀ e, future = some e ∨ replacement = some e →
      (s.task t).future = some e ∨ (s.task t).replacement = some e)
    (hapart : future = none ∨ replacement = none)
    (htracked : strict → Tracked s → ∀ e, (s.engine e).builder = some t →
      ((s.engine e).build = .running → future = some e) ∧
        ((s.engine e).build = .built → future = some e ∨ replacement = some e ∨
          (∃ m, s.engines m = some e) ∨ (s.engine e).closes = 1)) :
    During cfg strict { s with task := Function.update s.task t { s.task t with future, replacement } }
      (some t) := by
  obtain ⟨h1, h2, h3, h4, h5, h6, h7, h8, h9⟩ := h.core
  refine h.step ?_ ?_ ?_ ?_ ?_ ?_
  · constructor <;> simp only [Function.update_apply] <;> grind
  · intro t' hne
    have ht' : t' ≠ t := by simpa using hne
    simp [ht']
  · intro t' _ m e c hholds
    exact hholds
  · intro m e _ hinstalled
    exact ⟨hinstalled, rfl⟩
  · intro e he
    refine he.mono le_rfl ?_
    simp only [Function.update_apply]
    grind
  · intro hs h
    have hmoved := htracked hs h
    obtain ⟨hrunning, hbuilt⟩ := h
    constructor <;> simp only [Function.update_apply] <;> grind

/-- Take the result of a build that has ended. -/
theorem During.takeFuture (h : During cfg strict s (some t))
    (hended : ∀ e, (s.task t).future = some e → (s.engine e).build ≠ .running)
    (hnone : (s.task t).replacement = none) : During cfg strict (s.takeFuture t) (some t) := by
  apply h.reown
  · rintro e (hnone | hfuture)
    · cases hnone
    · exact .inl hfuture
  · exact .inl rfl
  · rintro - ⟨hrunning, hbuilt⟩ e hbuilder
    refine ⟨?_, ?_⟩
    · intro hstill
      exact absurd hstill (hended e (hrunning e t hbuilder hstill))
    · intro hdone
      simpa [hnone] using hbuilt e t hbuilder hdone

theorem Manager.Unowned.takeFuture {e : Nat} (h : s.Unowned e) : (s.takeFuture t).Unowned e := by
  refine h.mono le_rfl ?_
  simp only [Manager.takeFuture, Function.update_apply]
  grind

/-- Leave a build behind: nothing is lost where it has failed. -/
theorem During.dropFuture (h : During cfg strict s (some t))
    (hfailed : strict → ∀ e, (s.task t).future = some e → (s.engine e).build = .failed) :
    During cfg strict (s.dropFuture t) (some t) := by
  apply h.reown
  · rintro e (hnone | hreplacement)
    · cases hnone
    · exact .inr hreplacement
  · exact .inl rfl
  · rintro hs ⟨hrunning, hbuilt⟩ e hbuilder
    refine ⟨?_, ?_⟩
    · intro hstill
      simpa [hstill] using hfailed hs e (hrunning e t hbuilder hstill)
    · intro hdone
      rcases hbuilt e t hbuilder hdone with hfuture | hrest
      · simpa [hdone] using hfailed hs e hfuture
      · exact .inr hrest

theorem During.dropReplacement (h : During cfg False s (some t)) :
    During cfg False (s.dropReplacement t) (some t) := by
  apply h.reown
  · rintro e (hfuture | hnone)
    · exact .inl hfuture
    · cases hnone
  · exact .inr rfl
  · exact False.elim

/-- A dropped replacement belongs to nobody, is open and not installed. -/
theorem Core.dropped (h : Core cfg s) {r : Nat} (hr : (s.task t).replacement = some r) :
    (s.dropReplacement t).Unowned r ∧ (s.engine r).closes = 0 ∧ ∀ m, s.engines m ≠ some r := by
  obtain ⟨hold, hbuilder, hopen, hloose⟩ := h.owned t r (.inr hr)
  have hfuture : (s.task t).future = none := by
    rcases h.apart t with hnone | hnone
    · exact hnone
    · simp [hr] at hnone
  refine ⟨⟨hold, ?_⟩, hopen, hloose⟩
  intro t'
  by_cases ht' : t' = t
  · subst ht'
    simp [hfuture]
  · have hother : ¬ ((s.task t').future = some r ∨ (s.task t').replacement = some r) := by
      intro howner
      have hbuilder' := (h.owned t' r howner).2.1
      exact ht' (Option.some.inj (hbuilder'.symm.trans hbuilder))
    simpa [Manager.dropReplacement, ht', not_or] using hother

/-- Close an engine that belongs to nobody and that no other task holds; if it is installed,
it must be under rebuild. -/
theorem During.close (h : During cfg strict s running) {e : Nat} (hun : s.Unowned e)
    (hopen : (s.engine e).closes = 0)
    (hrebuilt : ∀ m, s.engines m = some e →
      ∃ t requested, (s.task t).activity = .request m requested (.rebuilding e))
    (hnobody : ∀ t, some t ≠ running → ∀ m c, ¬ s.Holds m (s.task t) e c) :
    During cfg strict (s.close e) running := by
  obtain ⟨h1, h2, h3, h4, h5, h6, h7, h8, h9⟩ := h.core
  obtain ⟨hold, hfree⟩ := hun
  refine h.step ?_ ?_ ?_ ?_ ?_ ?_
  · constructor <;> simp only [Manager.close, Function.update_apply]
    case closed =>
      intro m e' hinstalled hclosed
      by_cases he : e' = e
      · subst he
        exact hrebuilt m hinstalled
      · rw [if_neg he] at hclosed
        exact h7 m e' hinstalled hclosed
    all_goals grind
  · intro t _
    rfl
  · intro t ht m e' c hholds
    have hne : e' ≠ e := by
      rintro rfl
      exact hnobody t ht m c hholds
    obtain ⟨hinstalled, hlock, hcloses⟩ := hholds
    refine ⟨hinstalled, hlock, ?_⟩
    simpa [Manager.close, hne] using hcloses
  · intro m e' _ hinstalled
    exact ⟨hinstalled, rfl⟩
  · intro e' he'
    exact he'
  · rintro - ⟨hrunning, hbuilt⟩
    constructor <;> simp only [Manager.close, Function.update_apply] <;> grind

/-- Close an engine that is not installed. -/
theorem During.closeLoose (h : During cfg strict s running) {e : Nat} (hun : s.Unowned e)
    (hopen : (s.engine e).closes = 0) (hloose : ∀ m, s.engines m ≠ some e) :
    During cfg strict (s.close e) running := by
  apply h.close hun hopen
  · intro m hinstalled
    exact absurd hinstalled (hloose m)
  · intro t _ m c hholds
    exact hloose m hholds.1

theorem During.closeReplacement (h : During cfg strict s (some t)) :
    During cfg strict (s.closeReplacement t) (some t) := by
  unfold Manager.closeReplacement
  rcases er : (s.task t).replacement with - | r
  · exact h
  · obtain ⟨hun, hopen, hloose⟩ := h.core.dropped er
    apply (h.forget.dropReplacement.closeLoose hun hopen hloose).track
    intro hs
    obtain ⟨hrunning, hbuilt⟩ := h.tracked hs
    constructor <;>
      simp only [Manager.close, Manager.dropReplacement, Function.update_apply] <;> grind

/-! ### Installing and removing engines -/

/-- An installed engine belongs to nobody. -/
theorem Core.unowned (h : Core cfg s) {m : μ} {e : Nat} (he : s.engines m = some e) :
    s.Unowned e := by
  refine ⟨(h.installed m e he).2.1, ?_⟩
  intro t
  have hnot : ¬ ((s.task t).future = some e ∨ (s.task t).replacement = some e) := by
    intro howner
    exact (h.owned t e howner).2.2.2 m he
  exact not_or.mp hnot

section
variable [DecidableEq μ]

/-- The lock of a model without an engine may change. -/
theorem During.setLock (h : During cfg strict s running) {m : μ} (hnone : s.engines m = none)
    (lock : Option Nat) (n : Nat) :
    During cfg strict { s with locks := Function.update s.locks m lock, nextLock := n } running := by
  obtain ⟨h1, h2, h3, h4, h5, h6, h7, h8, h9⟩ := h.core
  have hne : ∀ m' e, s.engines m' = some e → m' ≠ m := by
    rintro m' e hinstalled rfl
    simp [hnone] at hinstalled
  refine h.step ?_ ?_ ?_ ?_ ?_ ?_
  · constructor <;> simp only [Function.update_apply] <;> grind
  · intro t _
    rfl
  · rintro t _ m' e c ⟨hinstalled, hlock, hcloses⟩
    refine ⟨hinstalled, ?_, hcloses⟩
    simpa [hne m' e hinstalled] using hlock
  · intro m' e _ hinstalled
    exact ⟨hinstalled, by simp [hne m' e hinstalled]⟩
  · intro e he
    exact he
  · intro _ htracked
    exact htracked.congr rfl rfl (fun _ => ⟨rfl, rfl⟩)

theorem During.popLock (h : During cfg strict s running) {m : μ} (hnone : s.engines m = none) :
    During cfg strict (s.popLock m) running :=
  h.setLock hnone none s.nextLock

theorem During.getLock (h : During cfg strict s running) (m : μ) :
    During cfg strict (s.getLock m).1 running := by
  unfold Manager.getLock
  rcases el : s.locks m with - | l
  · have hnone : s.engines m = none := by
      rcases ee : s.engines m with - | e
      · rfl
      · obtain ⟨l, hl⟩ := (h.core.installed m e ee).2.2
        simp [el] at hl
    exact h.setLock hnone _ _
  · exact h

@[simp] theorem Manager.getLock_task (m : μ) : (s.getLock m).1.task = s.task := by
  unfold Manager.getLock
  split <;> rfl

@[simp] theorem Manager.getLock_engines (m : μ) : (s.getLock m).1.engines = s.engines := by
  unfold Manager.getLock
  split <;> rfl

@[simp] theorem Manager.getLock_engine (m : μ) : (s.getLock m).1.engine = s.engine := by
  unfold Manager.getLock
  split <;> rfl

@[simp] theorem Manager.getLock_locks (m : μ) :
    (s.getLock m).1.locks m = some (s.getLock m).2 := by
  unfold Manager.getLock
  split
  · assumption
  · simp [Manager.renewLock]

theorem Manager.Unowned.getLock {e : Nat} (h : s.Unowned e) (m : μ) :
    (s.getLock m).1.Unowned e := by
  unfold Manager.getLock
  split
  · exact h
  · exact h

/-- The replacement of the task becomes the engine of a model that no other task holds; the
lock may change with it. -/
theorem During.putReplacement (h : During cfg strict s (some t)) {m : μ} {r : Nat}
    (hm : cfg.catalog m = true) (hr : (s.task t).replacement = some r)
    (hnobody : ∀ t', t' ≠ t → ∀ e c, ¬ s.Holds m (s.task t') e c)
    (hprevious : strict → ∀ e, s.engines m = some e → (s.engine e).closes = 1) (l n : Nat) :
    During cfg strict
      { s.dropReplacement t with
        engines := Function.update s.engines m (some r)
        locks := Function.update s.locks m (some l)
        nextLock := n } (some t) := by
  obtain ⟨h1, h2, h3, h4, h5, h6, h7, h8, h9⟩ := h.core
  obtain ⟨hold, hbuilder, hopen, hloose⟩ := h5 t r (.inr hr)
  have hdropped : During cfg False (s.dropReplacement t) (some t) := h.forget.dropReplacement
  obtain ⟨⟨-, hunowned⟩, -, -⟩ := h.core.dropped hr
  refine h.step ?_ ?_ ?_ ?_ ?_ ?_
  · obtain ⟨d1, d2, d3, d4, d5, d6, d7, d8, d9⟩ := hdropped.core
    constructor <;> simp only [Function.update_apply]
    case loadLock => exact d1
    case lock => exact d2
    case apart => exact d6
    case once => exact d8
    case fresh => exact d9
    case closed =>
      intro m' e hinstalled hclosed
      split at hinstalled
      · obtain rfl := Option.some.inj hinstalled
        exact absurd hopen hclosed
      · exact d7 m' e hinstalled hclosed
    case owned =>
      intro t' e howner
      obtain ⟨hlt, hb, hc, hnot⟩ := d5 t' e howner
      refine ⟨hlt, hb, hc, ?_⟩
      intro m'
      have hne : r ≠ e := by
        rintro rfl
        rcases howner with howner | howner
        · exact (hunowned t').1 howner
        · exact (hunowned t').2 howner
      split
      · simpa using hne
      · exact hnot m'
    case injective => grind
    case installed =>
      intro m' e hinstalled
      split at hinstalled
      · next hmm =>
        subst hmm
        obtain rfl := Option.some.inj hinstalled
        exact ⟨hm, hold, l, by simp⟩
      · next hmm =>
        have hlock : ∃ l, s.locks m' = some l := (d4 m' e hinstalled).2.2
        exact ⟨(d4 m' e hinstalled).1, (d4 m' e hinstalled).2.1, by simpa [hmm] using hlock⟩
  · intro t' hne
    have ht' : t' ≠ t := by simpa using hne
    simp [Manager.dropReplacement, ht']
  · intro t' ht m' e' c hholds
    have hne : m' ≠ m := by
      rintro rfl
      exact hnobody t' (by simpa using ht) e' c hholds
    simpa [Manager.Holds, Manager.dropReplacement, hne] using hholds
  · intro m' e' hun hinstalled
    -- the replacement is still owned in `s`, so it is not the engine in question
    have hne : m' ≠ m := by
      rintro rfl
      obtain rfl : r = e' := by simpa using hinstalled
      exact (hun.2 t).2 hr
    simpa [hne] using hinstalled
  · intro e' he'
    refine he'.mono le_rfl ?_
    intro t' e'' _ howner
    by_cases ht' : t' = t
    · subst ht'
      simp at howner
      exact .inl howner
    · simpa [Manager.dropReplacement, ht'] using howner
  · rintro hs ⟨hrunning, hbuilt⟩
    have hclosed := hprevious hs
    constructor <;> simp only [Manager.dropReplacement, Function.update_apply]
    · grind
    · intro e t' hbuilder hdone
      rcases hbuilt e t' hbuilder hdone with hfuture' | hreplacement | ⟨m', hinstalled⟩ | honce
      · left
        split <;> simp_all
      · by_cases ht' : t' = t
        · subst ht'
          obtain rfl : r = e := by simpa [hr] using hreplacement
          exact .inr (.inr (.inl ⟨m, by simp⟩))
        · exact .inr (.inl (by simpa [ht'] using hreplacement))
      · by_cases hmm : m' = m
        · subst hmm
          exact .inr (.inr (.inr (hclosed e hinstalled)))
        · exact .inr (.inr (.inl ⟨m', by simpa [hmm] using hinstalled⟩))
      · exact .inr (.inr (.inr honce))

/-- An engine that no other task holds may be removed. -/
theorem During.popEngine (h : During cfg strict s running) {m : μ}
    (hnobody : ∀ t, some t ≠ running → ∀ e c, ¬ s.Holds m (s.task t) e c)
    (hclosed : strict → ∀ e, s.engines m = some e → (s.engine e).closes = 1) :
    During cfg strict (s.popEngine m) running := by
  obtain ⟨h1, h2, h3, h4, h5, h6, h7, h8, h9⟩ := h.core
  refine h.step ?_ ?_ ?_ ?_ ?_ ?_
  · constructor <;> simp only [Manager.popEngine, Function.update_apply] <;> grind
  · intro t _
    rfl
  · intro t ht m' e' c hholds
    have hne : m' ≠ m := by
      rintro rfl
      exact hnobody t ht e' c hholds
    simpa [Manager.popEngine, Manager.Holds, hne] using hholds
  · intro m' e' _ hinstalled
    have hne : m' ≠ m := by
      rintro rfl
      simp [Manager.popEngine] at hinstalled
    exact ⟨by simpa [Manager.popEngine, hne] using hinstalled, rfl⟩
  · intro e' he'
    exact he'
  · rintro hs ⟨hrunning, hbuilt⟩
    refine ⟨hrunning, ?_⟩
    intro e t hbuilder hdone
    rcases hbuilt e t hbuilder hdone with hfuture | hreplacement | ⟨m', hinstalled⟩ | honce
    · exact .inl hfuture
    · exact .inr (.inl hreplacement)
    · by_cases hmm : m' = m
      · subst hmm
        exact .inr (.inr (.inr (hclosed hs e hinstalled)))
      · refine .inr (.inr (.inl ⟨m', ?_⟩))
        simpa [Manager.popEngine, hmm] using hinstalled
    · exact .inr (.inr (.inr honce))

/-- Installing loses no build: the replacement is installed, the previous engine closed. -/
theorem Tracked.install (h : Tracked s) {m : μ} {r : Nat} (hr : (s.task t).replacement = some r)
    (hopen : ∀ e, s.engines m = some e → (s.engine e).closes = 0) :
    Tracked (s.install t m (s.engines m)) := by
  obtain ⟨hrunning, hbuilt⟩ := h
  have htask : ∀ t', ((s.install t m (s.engines m)).task t').future = (s.task t').future := by
    intro t'
    unfold Manager.install
    rcases s.engines m with - | p <;>
      by_cases ht' : t' = t <;>
      simp [Manager.putReplacement, Manager.renewLock, Manager.close, Manager.dropReplacement, ht']
  have hengines : (s.install t m (s.engines m)).engines = Function.update s.engines m (some r) := by
    unfold Manager.install
    rcases s.engines m with - | p <;>
      simp [Manager.putReplacement, Manager.renewLock, Manager.close, hr]
  have hengine : ∀ e, ((s.install t m (s.engines m)).engine e).builder = (s.engine e).builder ∧
      ((s.install t m (s.engines m)).engine e).build = (s.engine e).build ∧
      ((s.install t m (s.engines m)).engine e).closes =
        (s.engine e).closes + if s.engines m = some e then 1 else 0 := by
    intro e
    unfold Manager.install
    rcases s.engines m with - | p
    · simp [Manager.putReplacement, Manager.renewLock, Manager.dropReplacement]
    · by_cases hp : e = p
      · subst hp
        simp [Manager.putReplacement, Manager.renewLock, Manager.dropReplacement, Manager.close]
      · have hp' : ¬ p = e := fun heq => hp heq.symm
        simp [Manager.putReplacement, Manager.renewLock, Manager.dropReplacement, Manager.close,
          hp, hp']
  refine ⟨?_, ?_⟩
  · intro e t' hbuilder hstill
    rw [(hengine e).1] at hbuilder
    rw [(hengine e).2.1] at hstill
    rw [htask t']
    exact hrunning e t' hbuilder hstill
  · intro e t' hbuilder hdone
    rw [(hengine e).1] at hbuilder
    rw [(hengine e).2.1] at hdone
    rw [htask t', hengines, (hengine e).2.2]
    rcases hbuilt e t' hbuilder hdone with hfuture | hreplacement | ⟨m', hinstalled⟩ | honce
    · exact .inl hfuture
    · right
      by_cases ht' : t' = t
      · subst ht'
        obtain rfl : r = e := by simpa [hr] using hreplacement
        exact .inr (.inl ⟨m, by simp⟩)
      · left
        unfold Manager.install
        rcases s.engines m with - | p <;>
          simpa [Manager.putReplacement, Manager.renewLock, Manager.close,
            Manager.dropReplacement, ht'] using hreplacement
    · right
      right
      by_cases hmm : m' = m
      · subst hmm
        simp [hinstalled, hopen e hinstalled]
      · exact .inl ⟨m', by simpa [hmm] using hinstalled⟩
    · right
      right
      right
      have hnot : s.engines m ≠ some e := by
        intro hinstalled
        simp [hopen e hinstalled] at honce
      simp [hnot, honce]

/-- Install the replacement: there is no engine, or the task holds the lock of the previous
one, which is then closed. -/
theorem During.install (h : During cfg strict s (some t)) {m : μ} (hm : cfg.catalog m = true)
    (hr : (s.task t).replacement ≠ none)
    (hlock : ∀ e, s.engines m = some e → ∃ l, s.locks m = some l ∧ (s.task t).lock = some l)
    (hquiet : (s.task t).Quiet) : During cfg strict (s.install t m (s.engines m)) (some t) := by
  obtain ⟨r, hr⟩ := Option.ne_none_iff_exists'.mp hr
  have hnobody : ∀ t', t' ≠ t → ∀ e c, ¬ s.Holds m (s.task t') e c := by
    intro t' hne e c hholds
    obtain ⟨l, hl, ht⟩ := hlock e hholds.1
    exact h.core.nobody_holds hl ht hne e c hholds
  have hopen : ∀ e, s.engines m = some e → (s.engine e).closes = 0 := by
    intro e he
    have hmine : ∀ t', some t' = some t → ∀ requested,
        (s.task t').activity ≠ .request m requested (.rebuilding e) := by
      intro t' heq requested
      obtain rfl : t' = t := by simpa using heq
      exact hquiet m requested e
    rcases h.open_or_held he hmine with hopen | ⟨t', hne, hholds⟩
    · exact hopen
    · exact absurd hholds (hnobody t' (by simpa using hne) e 1)
  have hput := h.forget.putReplacement hm hr hnobody False.elim s.nextLock (s.nextLock + 1)
  have hinstall : During cfg False (s.install t m (s.engines m)) (some t) := by
    unfold Manager.install
    rcases ep : s.engines m with - | p
    · simpa [Manager.putReplacement, Manager.renewLock, hr, Manager.dropReplacement] using hput
    · have hunowned : s.Unowned p := h.core.unowned ep
      have hrp : r ≠ p := by
        rintro rfl
        exact (hunowned.2 t).2 hr
      have hclose := hput.closeLoose (e := p) ?_ (hopen p ep) ?_
      · simpa [Manager.putReplacement, Manager.renewLock, hr, Manager.dropReplacement] using hclose
      · refine hunowned.mono le_rfl ?_
        intro t' e _ howner
        by_cases ht' : t' = t
        · subst ht'
          simp at howner
          exact .inl howner
        · simpa [Manager.dropReplacement, ht'] using howner
      · intro m' hinstalled
        by_cases hmm : m' = m
        · subst hmm
          simp [hrp] at hinstalled
        · have hother : s.engines m' = some p := by simpa [hmm] using hinstalled
          exact hmm (h.core.injective m' m p hother ep)
  exact hinstall.track (fun hs => (h.tracked hs).install hr hopen)

@[simp] theorem Manager.install_task {m : μ} {previous : Option Nat} :
    (s.install t m previous).task t = { s.task t with replacement := none } := by
  unfold Manager.install
  cases previous <;> simp [Manager.putReplacement, Manager.renewLock, Manager.close]

end

/-! ### The end of a segment -/

theorem Manager.Unowned.goTo {e : Nat} (h : s.Unowned e) (activity : Activity μ δ) :
    (s.goTo t activity).Unowned e := by
  refine h.mono le_rfl ?_
  simp only [Manager.goTo, Function.update_apply]
  grind

/-- Going on to another `await`: a rebuild must be over when its task leaves it. -/
theorem During.goTo (h : During cfg strict s (some t)) {activity : Activity μ δ}
    (hleft : ∀ m requested e, (s.task t).activity = .request m requested (.rebuilding e) →
      s.engines m ≠ some e) : During cfg strict (s.goTo t activity) (some t) := by
  obtain ⟨h1, h2, h3, h4, h5, h6, h7, h8, h9⟩ := h.core
  refine h.step ?_ ?_ ?_ ?_ ?_ ?_
  · constructor <;> simp only [Manager.goTo, Function.update_apply]
    case closed =>
      intro m e hinstalled hclosed
      obtain ⟨t', requested, hrebuilds⟩ := h7 m e hinstalled hclosed
      have hne : t' ≠ t := by
        rintro rfl
        exact hleft m requested e hrebuilds hinstalled
      exact ⟨t', requested, by rw [if_neg hne]; exact hrebuilds⟩
    all_goals grind
  · intro t' hne
    have ht' : t' ≠ t := by simpa using hne
    simp [Manager.goTo, ht']
  · intro t' _ m e c hholds
    exact hholds
  · intro m e _ hinstalled
    exact ⟨hinstalled, rfl⟩
  · intro e he
    exact he.goTo activity
  · intro _ htracked
    refine htracked.congr rfl rfl ?_
    intro t'
    by_cases ht' : t' = t
    · subst ht'
      simp [Manager.goTo]
    · simp [Manager.goTo, ht']

@[simp] theorem Manager.goTo_task {activity : Activity μ δ} :
    (s.goTo t activity).task t = { s.task t with activity } := by
  simp [Manager.goTo]

/-- A segment ends where the stage of the task is in order again. -/
theorem During.finish (h : During cfg strict s (some t)) (hstage : StageOk cfg s (s.task t)) :
    Inv cfg strict s := by
  refine ⟨h.core, ?_, h.tracked⟩
  intro t' _
  by_cases ht' : t' = t
  · subst ht'
    exact hstage
  · exact h.others t' (by simpa using ht')

/-- Maps that only the load tasks read. -/
theorem During.note (h : During cfg strict s running) (loadTasks : μ → Option Nat)
    (targets : μ → Option δ) (contextChanges : μ → Bool) :
    During cfg strict { s with loadTasks, targets, contextChanges } running := by
  refine h.step ?_ ?_ ?_ ?_ ?_ ?_
  · obtain ⟨h1, h2, h3, h4, h5, h6, h7, h8, h9⟩ := h.core
    exact ⟨h1, h2, h3, h4, h5, h6, h7, h8, h9⟩
  · intro t _
    rfl
  · intro t _ m e c hholds
    exact hholds
  · intro m e _ hinstalled
    exact ⟨hinstalled, rfl⟩
  · intro e he
    exact he
  · intro _ htracked
    exact htracked.congr rfl rfl (fun _ => ⟨rfl, rfl⟩)

/-- The task goes on, holding what its new stage asks for. -/
theorem During.arriveFrom (h : During cfg strict s (some t))
    (hleft : ∀ m requested e, (s.task t).activity = .request m requested (.rebuilding e) →
      s.engines m ≠ some e)
    {activity : Activity μ δ} (hstage : StageOk cfg s { s.task t with activity }) :
    Inv cfg strict (s.goTo t activity) := by
  apply (h.goTo hleft).finish
  rw [Manager.goTo_task]
  apply hstage.mono
  · intro m e c hholds
    exact hholds
  · intro m e _ hinstalled
    exact ⟨hinstalled, rfl⟩
  · intro e he
    exact he.goTo activity

theorem During.arrive (h : During cfg strict s (some t)) (hquiet : (s.task t).Quiet)
    {activity : Activity μ δ} (hstage : StageOk cfg s { s.task t with activity }) :
    Inv cfg strict (s.goTo t activity) := by
  apply h.arriveFrom _ hstage
  intro m requested e hrebuilds
  exact absurd hrebuilds (hquiet m requested e)

end InferBridge
