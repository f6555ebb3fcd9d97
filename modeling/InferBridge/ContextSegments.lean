/-
InferBridge/ContextSegments.lean

What a context change relies on, and that every segment of it, and of the
other tasks, keeps it.

Design.  `Consistent` adds to the invariant of the lifecycle that every
installed engine is as the catalog says (`State.Reflects`), and so is every
engine that a load task or a request has being built; and that a model has
at most one context change, which is marked and pending (`ChangeOk`).  What
the segment of a request leaves is a `Segment` where it does not hand over,
and a `Commit` where it does.
-/
import InferBridge.ContextChange

namespace InferBridge.ContextChange

open Text

variable {δ : Type*} [DecidableEq δ]
variable {env : Environment δ} {x x' : State δ} {t : Nat} {m : Str}

/-! ### The invariant -/

omit [DecidableEq δ] in
/-- The engine is as the catalog entry of the model says. -/
def State.Reflects (env : Environment δ) (x : State δ) (m : Str) (e : Nat) : Prop :=
  (x.built e).map ModelConfig.maxContextLen =
      (x.catalog.get? m).map ModelConfig.maxContextLen ∧
    (State.supports env x.manager e = true →
      (x.built e).map ModelConfig.kvCachePrecision =
        (x.catalog.get? m).map ModelConfig.kvCachePrecision)

/-- The new entry is the one that was asked for. -/
structure Change.Planned (c : Change) : Prop where
  expected : c.cfg.maxContextLen = c.request.expected
  tokens : c.updated.maxContextLen = c.request.tokens.getD c.cfg.maxContextLen
  precision : match c.request.precision with
    | none => c.updated.kvCachePrecision = c.cfg.kvCachePrecision
    | some value => normalizeKvCachePrecision value = some c.updated.kvCachePrecision
  rest : c.updated = updatedEntry c.cfg c.updated.maxContextLen c.updated.kvCachePrecision

omit [DecidableEq δ] in
/-- The task is in the middle of a context change of the model. -/
def State.Changing (x : State δ) (t : Nat) (m : Str) : Prop :=
  ∃ stage, (x.manager.task t).activity = .configure m stage ∧ stage ≠ .finished

omit [DecidableEq δ] in
/-- What a context change relies on. -/
structure ChangeOk (env : Environment δ) (x : State δ) (t : Nat) (m : Str) (c : Change) :
    Prop where
  change : x.change t = some c
  model : c.model = m
  planned : c.Planned
  pending : x.outcome t = some .pending
  marked : x.manager.contextChanges m = true
  built : ∀ e, x.manager.Owns t e → x.built e = some c.updated
  /-- Without a replacement the engine stays, and the change does not concern it. -/
  unbuilt : ∀ e l, (x.manager.task t).activity = .configure m (.waitLock (some e) l) →
    x.manager.engines m = some e → (x.manager.task t).replacement = none →
      c.updated.maxContextLen = c.cfg.maxContextLen ∧ State.supports env x.manager e = false

structure Consistent (env : Environment δ) (x : State δ) : Prop where
  life : InferBridge.Inv env.lifecycle False x.manager
  ready : x.manager.Ready
  advisor : x.advisor = x.catalog
  installed : ∀ m e, x.manager.engines m = some e → x.Reflects env m e
  served : ∀ t m e, (x.manager.task t).activity.served = some m → x.manager.Owns t e →
    (x.built e).map State.settingsOf = (x.catalog.get? m).map State.settingsOf
  changes : ∀ t m, x.Changing t m → ∃ c, ChangeOk env x t m c
  pending : ∀ t, x.outcome t = some .pending → ∃ m, x.Changing t m
  alone : ∀ t t' m, x.Changing t m → x.Changing t' m → t' = t

omit [DecidableEq δ] in
theorem consistent_initial (catalog : Catalog) (file : CatalogFile) :
    Consistent env (State.initial catalog file : State δ) := by
  refine ⟨inv_initial, ⟨?_, ?_⟩, rfl, ?_, ?_, ?_, ?_, ?_⟩ <;>
    simp [State.initial, Manager.initial, State.Changing, Activity.served]

/-! ### The other tasks -/

omit [DecidableEq δ] in
theorem supports_congr {s s' : Manager Str δ} {e : Nat}
    (h : (s'.engine e).device = (s.engine e).device) :
    State.supports env s' e = State.supports env s e := by
  unfold State.supports
  rw [h]

omit [DecidableEq δ] in
/-- An engine that a context change means to replace belongs to nobody. -/
theorem Consistent.unowned (h : Consistent env x) {e l : Nat}
    (hactivity : (x.manager.task t).activity = .configure m (.waitLock (some e) l)) :
    x.manager.Unowned e :=
  ((h.life.configure_stage hactivity).2.1.2.2.2 e rfl).1

omit [DecidableEq δ] in
/-- The context changes stand still, and the others only install what they have had built. -/
theorem Consistent.transport (h : Consistent env x) {s' : Manager Str δ}
    {built' : Nat → Option ModelConfig} (hlife : InferBridge.Inv env.lifecycle False s')
    (hready : s'.Ready)
    (hinstalled : ∀ m e, s'.engines m = some e →
      (x.manager.engines m = some e ∧ (s'.engine e).device = (x.manager.engine e).device) ∨
        ∃ t, (x.manager.task t).activity.served = some m ∧ x.manager.Owns t e)
    (hserved : ∀ t m e, (s'.task t).activity.served = some m → s'.Owns t e →
      ((x.manager.task t).activity.served = some m ∧ x.manager.Owns t e) ∨
        built' e = x.catalog.get? m)
    (hafter : ∀ t m stage, (s'.task t).activity = .configure m stage →
      s'.task t = x.manager.task t)
    (hbefore : ∀ t m stage, (x.manager.task t).activity = .configure m stage →
      s'.task t = x.manager.task t)
    (hcontext : s'.contextChanges = x.manager.contextChanges)
    (hbuilt : ∀ e, e < x.manager.nextEngine → built' e = x.built e) :
    Consistent env { x with manager := s', built := built' } := by
  have howned (t e : Nat) (he : x.manager.Owns t e) : built' e = x.built e :=
    hbuilt e (h.life.core.owned t e he).1
  have hchanging (t : Nat) (m : Str)
      (hc : State.Changing { x with manager := s', built := built' } t m) : x.Changing t m := by
    obtain ⟨stage, hactivity, hstage⟩ := hc
    have hsame := hafter t m stage hactivity
    have hactivity' : (s'.task t).activity = .configure m stage := hactivity
    exact ⟨stage, by rw [← hsame, hactivity'], hstage⟩
  refine ⟨hlife, hready, h.advisor, ?_, ?_, ?_, ?_, ?_⟩
  · intro m e he
    rcases hinstalled m e he with ⟨hold, hdevice⟩ | ⟨t, hworks, hmine⟩
    · obtain ⟨hlength, hprecision⟩ := h.installed m e hold
      have hsame : built' e = x.built e := hbuilt e (h.life.core.installed m e hold).2.1
      refine ⟨?_, ?_⟩
      · show (built' e).map _ = _
        rw [hsame]
        exact hlength
      · intro hsupports
        show (built' e).map _ = _
        rw [hsame]
        exact hprecision (by rwa [← supports_congr hdevice])
    · have hsettings :
          (built' e).map State.settingsOf = (x.catalog.get? m).map State.settingsOf := by
        rw [howned t e hmine]
        exact h.served t m e hworks hmine
      refine ⟨?_, fun _ => ?_⟩
      · simpa [State.settingsOf, Function.comp_def] using congrArg (Option.map Prod.fst) hsettings
      · simpa [State.settingsOf, Function.comp_def] using congrArg (Option.map Prod.snd) hsettings
  · intro t m e hworks he
    show (built' e).map _ = _
    rcases hserved t m e hworks he with ⟨hworks', hmine⟩ | hnew
    · rw [howned t e hmine]
      exact h.served t m e hworks' hmine
    · rw [hnew]
  · intro t m hc
    obtain ⟨c, hok⟩ := h.changes t m (hchanging t m hc)
    obtain ⟨stage, hactivity, hstage⟩ := hc
    have hsame : s'.task t = x.manager.task t := hafter t m stage hactivity
    refine ⟨c, hok.change, hok.model, hok.planned, hok.pending, ?_, ?_, ?_⟩
    · show s'.contextChanges m = true
      rw [hcontext]
      exact hok.marked
    · intro e he
      have hmine : x.manager.Owns t e := by
        unfold Manager.Owns
        rwa [← hsame]
      show built' e = _
      rw [howned t e hmine, hok.built e hmine]
    · intro e l hwaits he hnone
      have hwaits' : (x.manager.task t).activity = .configure m (.waitLock (some e) l) := by
        rw [← hsame]
        exact hwaits
      have hnone' : (x.manager.task t).replacement = none := by
        rw [← hsame]
        exact hnone
      rcases hinstalled m e he with ⟨hold, hdevice⟩ | ⟨t', -, hmine⟩
      · obtain ⟨hlength, hsupports⟩ := hok.unbuilt e l hwaits' hold hnone'
        exact ⟨hlength, by rw [← hsupports]; exact supports_congr hdevice⟩
      · have hnobody := (h.unowned hwaits').2 t'
        rcases hmine with hfuture | hreplacement
        · exact absurd hfuture hnobody.1
        · exact absurd hreplacement hnobody.2
  · intro t ht
    obtain ⟨m, stage, hactivity, hstage⟩ := h.pending t ht
    have hsame := hbefore t m stage hactivity
    refine ⟨m, stage, ?_, hstage⟩
    show (s'.task t).activity = _
    rw [hsame, hactivity]
  · intro t t' m hc hc'
    exact h.alone t t' m (hchanging t m hc) (hchanging t' m hc')

omit [DecidableEq δ] in
theorem served_configure {k : Task Str δ} {stage : ConfigureStage}
    (h : k.activity = .configure m stage) : k.activity.served = none := by
  rw [h]
  rfl

omit [DecidableEq δ] in
/-- A segment of a load task or a request. -/
theorem Consistent.moves (h : Consistent env x) {s' : Manager Str δ}
    {built' : Nat → Option ModelConfig} {last : Prop}
    (hlife : InferBridge.Inv env.lifecycle False s') (hmoves : EngineMoves x.manager s' t m last)
    (hbefore : ∀ m stage, (x.manager.task t).activity ≠ .configure m stage)
    (hafter : ∀ m stage, (s'.task t).activity ≠ .configure m stage)
    (hworks : (x.manager.task t).activity.served = some m ∨ ∀ e, ¬ x.manager.Owns t e)
    (hbuilt : ∀ e, e < x.manager.nextEngine → built' e = x.built e)
    (hfresh : last → s'.nextEngine = x.manager.nextEngine + 1 →
      built' x.manager.nextEngine = x.catalog.get? m ∧
        (x.manager.task t).activity.served = some m) :
    Consistent env { x with manager := s', built := built' } := by
  have hmine (e : Nat) (he : x.manager.Owns t e) :
      (x.manager.task t).activity.served = some m := by
    rcases hworks with hserved | hidle
    · exact hserved
    · exact absurd he (hidle e)
  refine h.transport hlife (hmoves.staysReady h.life.core h.ready) ?_ ?_ ?_ ?_ ?_ hbuilt
  · intro m' e he
    rcases hmoves.installed m' e he with hold | ⟨rfl, hnew⟩
    · left
      have hne := (h.life.core.installed m' e hold).2.1.ne
      exact ⟨hold, (hmoves.engine e fun hfresh => hne hfresh.2).1⟩
    · right
      have howns : x.manager.Owns t e := by
        rcases hnew with hreplacement | ⟨hfuture, -⟩
        · exact .inr hreplacement
        · exact .inl hfuture
      exact ⟨t, hmine e howns, howns⟩
  · intro t' m' e hserved he
    by_cases ht : t' = t
    · subst ht
      have hsame (hold : (x.manager.task t').activity.served = some m) : m' = m := by
        rcases hmoves.served with hequal | hequal
        · rw [hequal, hold] at hserved
          exact (Option.some.inj hserved).symm
        · rw [hequal] at hserved
          exact (Option.some.inj hserved).symm
      rcases hmoves.owned e he with hold | ⟨hlast, rfl, hnext⟩
      · obtain rfl := hsame (hmine e hold)
        exact .inl ⟨hmine e hold, hold⟩
      · obtain ⟨hnew, hold⟩ := hfresh hlast hnext
        obtain rfl := hsame hold
        exact .inr hnew
    · have hsame := hmoves.others t' ht
      rw [hsame] at hserved
      rw [Manager.Owns, hsame] at he
      exact .inl ⟨hserved, he⟩
  · intro t' m' stage hactivity
    by_cases ht : t' = t
    · subst ht
      exact absurd hactivity (hafter m' stage)
    · exact hmoves.others t' ht
  · intro t' m' stage hactivity
    by_cases ht : t' = t
    · subst ht
      exact absurd hactivity (hbefore m' stage)
    · exact hmoves.others t' ht
  · rcases hmoves.contextChanges with hsame | ⟨-, hactivity, -⟩
    · exact hsame
    · exact absurd hactivity (hafter m .finished)

omit [DecidableEq δ] in
/-- An event that no task takes part in. -/
theorem Consistent.still (h : Consistent env x) {s' : Manager Str δ}
    {built' : Nat → Option ModelConfig} (hlife : InferBridge.Inv env.lifecycle False s')
    (hready : s'.Ready) (htask : s'.task = x.manager.task)
    (hengines : ∀ m e, s'.engines m = some e →
      x.manager.engines m = some e ∧ (s'.engine e).device = (x.manager.engine e).device)
    (hcontext : s'.contextChanges = x.manager.contextChanges)
    (hbuilt : ∀ e, e < x.manager.nextEngine → built' e = x.built e) :
    Consistent env { x with manager := s', built := built' } := by
  apply h.transport hlife hready (fun m e he => .inl (hengines m e he)) _ _ _ hcontext hbuilt
  · intro t m e hserved he
    rw [htask] at hserved
    rw [Manager.Owns, htask] at he
    exact .inl ⟨hserved, he⟩
  · intro t m stage _
    rw [htask]
  · intro t m stage _
    rw [htask]

omit [DecidableEq δ] in
theorem noteBuild_old {s' : Manager Str δ} {entry : Option ModelConfig} (e : Nat)
    (he : e < x.manager.nextEngine) : x.noteBuild s' entry e = x.built e := by
  unfold State.noteBuild
  split
  · rfl
  · rw [Function.update_of_ne he.ne]

omit [DecidableEq δ] in
theorem noteBuild_new {s' : Manager Str δ} {entry : Option ModelConfig}
    (hnext : s'.nextEngine = x.manager.nextEngine + 1) :
    x.noteBuild s' entry x.manager.nextEngine = entry := by
  unfold State.noteBuild
  rw [if_neg (by omega), Function.update_self]

/-- Every event of another task keeps the invariant. -/
theorem Consistent.other (h : Consistent env x) {e : Event Str δ} {s' : Manager Str δ}
    (hother : x.manager.configures e = false)
    (hstep : x.manager.step env.lifecycle e = some s') :
    Consistent env { x with manager := s', built := x.noteBuild s' (x.entryFor e) } := by
  have hlife : InferBridge.Inv env.lifecycle False s' := step_inv h.life False.elim hstep
  have hready (hmoves : StepMoves x.manager s' e) : s'.Ready := h.ready.step h.life.core hmoves
  have hnotBefore {t : Nat} {m : Str} (hserved : (x.manager.task t).activity.served = some m)
      (m' : Str) (stage : ConfigureStage) :
      (x.manager.task t).activity ≠ .configure m' stage := by
    intro hactivity
    simp [served_configure hactivity] at hserved
  have hnotAfter {t : Nat} {m : Str} (hserved : (s'.task t).activity.served = some m)
      (m' : Str) (stage : ConfigureStage) : (s'.task t).activity ≠ .configure m' stage := by
    intro hactivity
    simp [served_configure hactivity] at hserved
  have hstays {t : Nat} {m : Str} {last : Prop} (hmoves : EngineMoves x.manager s' t m last)
      (hserved : (x.manager.task t).activity.served = some m) :
      (s'.task t).activity.served = some m := by
    rcases hmoves.served with hequal | hequal
    · rw [hequal, hserved]
    · exact hequal
  cases hmoves : event_moves h.life hother hstep with
  | @builds t m builder served moves =>
    apply h.moves hlife moves (hnotBefore served) (hnotAfter (hstays moves served)) (.inl served)
      noteBuild_old
    rintro - hnext
    refine ⟨?_, served⟩
    rw [noteBuild_new hnext, State.entryFor, builder, Option.bind_some, served, Option.bind_some]
  | @moves t m served moves =>
    exact h.moves hlife moves (hnotBefore served) (hnotAfter (hstays moves served)) (.inl served)
      noteBuild_old False.elim
  | @opens t m absent opened moves =>
    have hidle : (x.manager.task t).Idle := by simpa [StageOk, absent] using h.life.stage t
    apply h.moves hlife moves _ _ (.inr hidle.owns) noteBuild_old False.elim
    · intro m' stage hactivity
      simp [absent] at hactivity
    · rcases opened with habsent | hserved
      · intro m' stage hactivity
        simp [habsent] at hactivity
      · exact hnotAfter hserved
  | pops next engines task engine context =>
    apply h.still hlife (hready (.pops next engines task engine context)) task _ context
      noteBuild_old
    intro m e he
    exact ⟨engines m e he, (engine e).1⟩
  | creates next engines task engine context =>
    apply h.still hlife (hready (.creates next engines task engine context)) task _ context
      noteBuild_old
    intro m e he
    rw [engines] at he
    exact ⟨he, by rw [engine e (h.life.core.installed m e he).2.1.ne]⟩
  | @ends b running next engines task ended engine context =>
    apply h.still hlife (hready (.ends running next engines task ended engine context)) task _
      context noteBuild_old
    intro m e he
    rw [engines] at he
    have hne : e ≠ b := by
      rintro rfl
      exact h.ready.installed m e he running
    exact ⟨he, by rw [engine e hne]⟩

/-! ### The other writers of the catalog -/

omit [DecidableEq δ] in
/-- A model that an engine is being built for is guarded: it is loaded, or its load task holds
the load lock. -/
theorem Consistent.guarded (h : Consistent env x) {e : Nat}
    (hserved : (x.manager.task t).activity.served = some m) (he : x.manager.Owns t e) :
    (x.manager.engines m).isSome ∨ State.loads x.manager m = true := by
  have hstage := h.life.stage t
  rcases hactivity : (x.manager.task t).activity with - | ⟨m', current, stage⟩ |
    ⟨m', requested, stage⟩ | ⟨m', stage⟩
  · simp [hactivity, Activity.served] at hserved
  · right
    have hload : (x.manager.task t).loadLock = true := by
      obtain ⟨-, hok, -⟩ := h.life.load_stage hactivity
      have howns : (x.manager.task t).future ≠ none ∨ (x.manager.task t).replacement ≠ none := by
        rcases he with hfuture | hreplacement
        · exact .inl (by simp [hfuture])
        · exact .inr (by simp [hreplacement])
      cases stage <;> simp_all [LoadOk, Task.Idle, Task.HoldsLoadLock, Task.Builds]
    rw [State.loads, (h.life.core.loadLock t).mpr hload]
    simpa using hserved
  · left
    have hok := h.life.request_stage hactivity
    obtain rfl : m' = m := by simpa [hactivity, Activity.served] using hserved
    cases stage with
    | waiting current l => exact absurd he (Task.Idle.owns hok e)
    | finished => exact absurd he (Task.Idle.owns hok e)
    | leased old =>
      obtain ⟨-, hfuture, hreplacement, -⟩ := hok
      rcases he with hf | hr
      · simp [hfuture] at hf
      · simp [hreplacement] at hr
    | rebuilding old =>
      obtain ⟨-, -, -, -, hinstalled, -, -⟩ := hok
      simp [hinstalled]
  · simp [hactivity, Activity.served] at hserved

theorem get?_written {catalog : Catalog} {entry : Option ModelConfig} (m' : Str) :
    (State.written catalog m entry).get? m' = if m' = m then entry else catalog.get? m' := by
  cases entry with
  | none => rw [State.written, Dict.get?_erase]
  | some cfg => rw [State.written, Dict.get?_set]

omit [DecidableEq δ] in
theorem Consistent.write (h : Consistent env x) {entry : Option ModelConfig} {saved : Bool}
    (hstep : x.write m entry saved = some x') : Consistent env x' := by
  unfold State.write at hstep
  split at hstep
  · cases hstep
  · next hguard =>
    obtain rfl := Option.some.inj hstep
    have hsettings (m' : Str)
        (hheld : (x.manager.engines m').isSome ∨ State.loads x.manager m' = true) :
        ((State.written x.catalog m entry).get? m').map State.settingsOf =
          (x.catalog.get? m').map State.settingsOf := by
      rw [get?_written]
      split
      · next hm =>
        subst hm
        by_contra hne
        exact hguard ⟨hheld, hne⟩
      · rfl
    refine ⟨h.life, h.ready, rfl, ?_, ?_, ?_, h.pending, h.alone⟩
    · intro m' e he
      have hinstalled : x.manager.engines m' = some e := he
      have hsame := hsettings m' (.inl (by simp [hinstalled]))
      have hlength : ((State.written x.catalog m entry).get? m').map ModelConfig.maxContextLen =
          (x.catalog.get? m').map ModelConfig.maxContextLen := by
        simpa [State.settingsOf, Function.comp_def] using congrArg (Option.map Prod.fst) hsame
      have hprecision : ((State.written x.catalog m entry).get? m').map
          ModelConfig.kvCachePrecision = (x.catalog.get? m').map ModelConfig.kvCachePrecision := by
        simpa [State.settingsOf, Function.comp_def] using congrArg (Option.map Prod.snd) hsame
      obtain ⟨h1, h2⟩ := h.installed m' e he
      exact ⟨h1.trans hlength.symm, fun hs => (h2 hs).trans hprecision.symm⟩
    · intro t m' e hserved he
      exact (h.served t m' e hserved he).trans (hsettings m' (h.guarded hserved he)).symm
    · intro t m' hc
      obtain ⟨c, hok⟩ := h.changes t m' hc
      exact ⟨c, hok.change, hok.model, hok.planned, hok.pending, hok.marked, hok.built,
        hok.unbuilt⟩

/-! ### The segments of a request -/

omit [DecidableEq δ] in
theorem Consistent.finish (h : Consistent env x) (hidle : ∀ m, ¬ x.Changing t m)
    {outcome : Outcome} (hended : outcome ≠ .pending) : Consistent env (x.finish t outcome) := by
  have hother (t' : Nat) (m : Str) (hc : x.Changing t' m) :
      (x.finish t outcome).outcome t' = x.outcome t' := by
    have hne : t' ≠ t := by
      rintro rfl
      exact hidle m hc
    show Function.update x.outcome t (some outcome) t' = _
    rw [Function.update_of_ne hne]
  refine ⟨h.life, h.ready, h.advisor, h.installed, h.served, ?_, ?_, h.alone⟩
  · intro t' m hc
    obtain ⟨c, hok⟩ := h.changes t' m hc
    exact ⟨c, hok.change, hok.model, hok.planned, (hother t' m hc).trans hok.pending, hok.marked,
      hok.built, hok.unbuilt⟩
  · intro t' hpending
    have hbefore : x.outcome t' = some .pending := by
      by_cases ht : t' = t
      · subst ht
        have hupdated : Function.update x.outcome t' (some outcome) t' = some .pending := hpending
        rw [Function.update_self] at hupdated
        exact absurd (Option.some.inj hupdated) hended
      · have hupdated : Function.update x.outcome t (some outcome) t' = some .pending := hpending
        rwa [Function.update_of_ne ht] at hupdated
    exact h.pending t' hbefore

/-- What a segment of a request that installs nothing leaves of its own task. -/
structure Segment (env : Environment δ) (x x' : State δ) (t : Nat) (m : Str) : Prop where
  moves : EngineMoves x.manager x'.manager t m True
  engines : x'.manager.engines = x.manager.engines
  served : (x'.manager.task t).activity.served = none
  life : InferBridge.Inv env.lifecycle False x'.manager
  catalogs : x'.catalog = x.catalog ∧ x'.advisor = x.advisor ∧ x'.file = x.file ∧
    x'.change = x.change
  built : ∀ e, e < x.manager.nextEngine → x'.built e = x.built e
  outcomes : ∀ t', t' ≠ t → x'.outcome t' = x.outcome t'
  ends : (x'.outcome t = some .refused ∧ ∀ m, ¬ x'.Changing t m) ∨
    ((∃ c, ChangeOk env x' t m c) ∧ x'.Changing t m ∧
      x'.manager.contextChanges = x.manager.contextChanges)
  closed : (∀ m, ¬ x'.Changing t m) → ∀ r, x.manager.HasBuilt t r →
    (x'.manager.engine r).closes = (x.manager.engine r).closes + 1

omit [DecidableEq δ] in
theorem Segment.contextChanges (h : Segment env x x' t m) {m' : Str} (hne : m' ≠ m) :
    x'.manager.contextChanges m' = x.manager.contextChanges m' := by
  rcases h.moves.contextChanges with hsame | ⟨-, -, hsame⟩
  · rw [hsame]
  · rw [hsame, Function.update_of_ne hne]

omit [DecidableEq δ] in
theorem Consistent.segment (h : Consistent env x) (hchanging : x.Changing t m)
    (hs : Segment env x x' t m) : Consistent env x' := by
  obtain ⟨hcatalog, hadvisor, hfile, hchange⟩ := hs.catalogs
  have howned (t' e : Nat) (he : x.manager.Owns t' e) : x'.built e = x.built e :=
    hs.built e (h.life.core.owned t' e he).1
  have hsupports (m' : Str) (e : Nat) (he : x.manager.engines m' = some e) :
      State.supports env x'.manager e = State.supports env x.manager e := by
    apply supports_congr
    exact (hs.moves.engine e fun hnew => (h.life.core.installed m' e he).2.1.ne hnew.2).1
  -- the other tasks stand still
  have hothers (t' : Nat) (m' : Str) (hne : t' ≠ t) :
      x'.Changing t' m' ↔ x.Changing t' m' := by
    unfold State.Changing
    rw [hs.moves.others t' hne]
  have honly (t' : Nat) (m' : Str) (hc : x'.Changing t' m') : x.Changing t' m' := by
    by_cases ht : t' = t
    · subst ht
      rcases hs.ends with ⟨-, hnone⟩ | ⟨-, hstill, -⟩
      · exact absurd hc (hnone m')
      · obtain ⟨stage, hactivity, -⟩ := hc
        obtain ⟨stage', hactivity', -⟩ := hstill
        rw [hactivity'] at hactivity
        obtain ⟨rfl, -⟩ := Activity.configure.inj hactivity
        exact hchanging
    · exact (hothers t' m' ht).mp hc
  refine ⟨hs.life, hs.moves.staysReady h.life.core h.ready, ?_, ?_, ?_, ?_, ?_, ?_⟩
  · rw [hadvisor, hcatalog, h.advisor]
  · intro m' e he
    rw [hs.engines] at he
    obtain ⟨hlength, hprecision⟩ := h.installed m' e he
    have hsame := hs.built e (h.life.core.installed m' e he).2.1
    refine ⟨?_, ?_⟩
    · rw [hsame, hcatalog]
      exact hlength
    · rw [hsame, hcatalog, hsupports m' e he]
      exact hprecision
  · intro t' m' e hserved he
    have hne : t' ≠ t := by
      rintro rfl
      simp [hs.served] at hserved
    rw [hs.moves.others t' hne] at hserved
    rw [Manager.Owns, hs.moves.others t' hne] at he
    rw [howned t' e he, hcatalog]
    exact h.served t' m' e hserved he
  · intro t' m' hc
    by_cases ht : t' = t
    · subst ht
      rcases hs.ends with ⟨-, hnone⟩ | ⟨⟨c, hok⟩, hstill, -⟩
      · exact absurd hc (hnone m')
      · obtain ⟨stage, hactivity, -⟩ := hc
        obtain ⟨stage', hactivity', -⟩ := hstill
        rw [hactivity'] at hactivity
        obtain ⟨rfl, -⟩ := Activity.configure.inj hactivity
        exact ⟨c, hok⟩
    · have hc' := (hothers t' m' ht).mp hc
      obtain ⟨c, hok⟩ := h.changes t' m' hc'
      have htask := hs.moves.others t' ht
      have hm : m' ≠ m := by
        rintro rfl
        exact ht (h.alone t t' m' hchanging hc')
      refine ⟨c, by rw [hchange, hok.change], hok.model, hok.planned,
        by rw [hs.outcomes t' ht, hok.pending], by rw [hs.contextChanges hm, hok.marked], ?_, ?_⟩
      · intro e he
        rw [Manager.Owns, htask] at he
        rw [howned t' e he, hok.built e he]
      · intro e l hwaits he hnone
        rw [htask] at hwaits hnone
        rw [hs.engines] at he
        rw [hsupports m' e he]
        exact hok.unbuilt e l hwaits he hnone
  · intro t' hpending
    by_cases ht : t' = t
    · subst ht
      rcases hs.ends with ⟨hended, -⟩ | ⟨-, hstill, -⟩
      · rw [hended] at hpending
        cases hpending
      · exact ⟨m, hstill⟩
    · rw [hs.outcomes t' ht] at hpending
      obtain ⟨m', hc⟩ := h.pending t' hpending
      exact ⟨m', (hothers t' m' ht).mpr hc⟩
  · intro t' t'' m' hc hc'
    exact h.alone t' t'' m' (honly t' m' hc) (honly t'' m' hc')

omit [DecidableEq δ] in
theorem settle_finished (hpending : x.outcome t = some .pending)
    (hactivity : (x.manager.task t).activity = .configure m .finished) :
    x.settle t = x.finish t .refused := by
  rw [State.settle, hpending, hactivity]

omit [DecidableEq δ] in
theorem settle_live {stage : ConfigureStage}
    (hactivity : (x.manager.task t).activity = .configure m stage) (hlive : stage ≠ .finished) :
    x.settle t = x := by
  rw [State.settle, hactivity]
  cases stage <;> first | exact absurd rfl hlive | (rcases x.outcome t with - | - | - | - <;> rfl)

omit [DecidableEq δ] in
/-- A segment of a request ends it, or goes on with what it relies on. -/
theorem ChangeOk.segment {c : Change} (hok : ChangeOk env x t m c) {s' : Manager Str δ}
    {built' : Nat → Option ModelConfig} (hlife : InferBridge.Inv env.lifecycle False s')
    (hmoves : EngineMoves x.manager s' t m True) (hengines : s'.engines = x.manager.engines)
    (hbuilt : ∀ e, e < x.manager.nextEngine → built' e = x.built e)
    (hafter : (s'.task t).activity = .configure m .finished ∧
        (∀ r, x.manager.HasBuilt t r →
          (s'.engine r).closes = (x.manager.engine r).closes + 1) ∨
      ∃ stage, (s'.task t).activity = .configure m stage ∧ stage ≠ .finished ∧
        s'.contextChanges = x.manager.contextChanges ∧
        (∀ e, s'.Owns t e → built' e = some c.updated) ∧
        ∀ e l, stage = .waitLock (some e) l → x.manager.engines m = some e →
          (s'.task t).replacement = none →
            c.updated.maxContextLen = c.cfg.maxContextLen ∧ State.supports env s' e = false) :
    Segment env x (State.settle { x with manager := s', built := built' } t) t m := by
  rcases hafter with ⟨hfinished, hclosed⟩ |
    ⟨stage, hactivity, hlive, hcontext, howned, hunbuilt⟩
  · rw [settle_finished (x := { x with manager := s', built := built' }) hok.pending hfinished]
    refine ⟨hmoves, hengines, served_configure hfinished, hlife, ⟨rfl, rfl, rfl, rfl⟩, hbuilt,
      ?_, .inl ⟨?_, ?_⟩, fun _ => hclosed⟩
    · intro t' hne
      show Function.update x.outcome t (some .refused) t' = x.outcome t'
      rw [Function.update_of_ne hne]
    · show Function.update x.outcome t (some .refused) t = some .refused
      rw [Function.update_self]
    · rintro m' ⟨stage, hactivity, hlive⟩
      have hsame : (s'.task t).activity = .configure m' stage := hactivity
      rw [hfinished] at hsame
      obtain ⟨-, rfl⟩ := Activity.configure.inj hsame
      exact hlive rfl
  · rw [settle_live (x := { x with manager := s', built := built' }) hactivity hlive]
    refine ⟨hmoves, hengines, served_configure hactivity, hlife, ⟨rfl, rfl, rfl, rfl⟩, hbuilt,
      fun _ _ => rfl, .inr ⟨⟨c, hok.change, hok.model, hok.planned, hok.pending, ?_, howned, ?_⟩,
      ⟨stage, hactivity, hlive⟩, hcontext⟩, fun hnone => absurd ⟨stage, hactivity, hlive⟩ (hnone m)⟩
    · show s'.contextChanges m = true
      rw [hcontext, hok.marked]
    · intro e l hwaits he hnone
      have hsame : (s'.task t).activity = .configure m (.waitLock (some e) l) := hwaits
      rw [hactivity] at hsame
      obtain ⟨-, hstage⟩ := Activity.configure.inj hsame
      have he' : s'.engines m = some e := he
      rw [hengines] at he'
      exact hunbuilt e l hstage he' hnone

omit [DecidableEq δ] in
theorem Consistent.changeOk (h : Consistent env x) {c : Change} (hchanging : x.Changing t m)
    (hc : x.change t = some c) : ChangeOk env x t m c := by
  obtain ⟨c', hok⟩ := h.changes t m hchanging
  rw [hok.change] at hc
  obtain rfl := Option.some.inj hc
  exact hok

omit [DecidableEq δ] in
theorem configureLocked_segment (h : Consistent env x) {c : Change}
    (hactivity : (x.manager.task t).activity = .configure m .waitLoadLock)
    (hfree : x.manager.loadLock = none) (hc : x.change t = some c) (around : Surroundings) :
    Segment env x (x.configureLocked env t c around) t m := by
  have hok := h.changeOk ⟨_, hactivity, (by simp)⟩ hc
  obtain ⟨hm, hidle, hquiet⟩ := h.life.configure_stage hactivity
  obtain rfl := hok.model
  unfold State.configureLocked
  dsimp only
  generalize hr : (around.benchmark || decide (x.catalog.get? c.model ≠ some c.cfg) ||
    around.converting || (State.needsRebuild env x.manager c (x.manager.engines c.model) &&
      !around.safeDevice)) = refused
  obtain ⟨hengines, hmoves, hafter⟩ := configureLocked_spec (m := c.model)
    (served_configure hactivity) hidle.2.2.2 refused
    (State.needsRebuild env x.manager c (x.manager.engines c.model))
  have hlife : InferBridge.Inv env.lifecycle False (x.manager.configureLocked t c.model refused
      (State.needsRebuild env x.manager c (x.manager.engines c.model))) :=
    (h.life.start t).configureLocked hquiet hm hidle hfree _ _
  generalize x.manager.configureLocked t c.model refused
    (State.needsRebuild env x.manager c (x.manager.engines c.model)) = s' at *
  have howned (e : Nat) (he : s'.Owns t e) :
      x.noteBuild s' (some c.updated) e = some c.updated := by
    rcases hmoves.owned e he with hold | ⟨-, rfl, hnext⟩
    · exact absurd hold (hidle.owns e)
    · exact noteBuild_new hnext
  apply hok.segment hlife hmoves hengines noteBuild_old
  rcases hafter with hfinished | ⟨old, -, hbuilding, -, hcontext⟩ |
    ⟨l, hwaits, -, hneeded, hcontext, -⟩
  · exact .inl ⟨hfinished, fun r hr => absurd hr (hidle.hasBuilt r)⟩
  · exact .inr ⟨_, hbuilding, (by simp), hcontext, howned, (by simp)⟩
  · refine .inr ⟨_, hwaits, (by simp), hcontext, howned, ?_⟩
    intro e l' _ he _
    rw [he] at hneeded
    have hneeds : State.needsRebuild env x.manager c (some e) = false := by
      by_contra hnot
      simpa using hneeded (by simpa using hnot)
    simp only [State.needsRebuild, Bool.or_eq_false_iff, decide_eq_false_iff_not,
      not_not] at hneeds
    refine ⟨hneeds.1, ?_⟩
    rw [← hneeds.2]
    apply supports_congr
    exact (hmoves.engine e fun hnew => (h.life.core.installed _ e he).2.1.ne hnew.2).1

/-- The events of a context change among those of the lifecycle. -/
theorem configure_event_segment (h : Consistent env x) {e : Event Str δ} {s' : Manager Str δ}
    (hconfigures : x.manager.configures e = true) (hadmits : x.admits e = true)
    (hstep : x.manager.step env.lifecycle e = some s') :
    ∃ t m, x.Changing t m ∧ (e = .resumeConfigure t ∨ e = .cancel t) ∧
      Segment env x (State.settleAfter
        { x with manager := s', built := x.noteBuild s' (x.entryFor e) } e) t m := by
  have hlife : InferBridge.Inv env.lifecycle False s' := step_inv h.life False.elim hstep
  have howned {t : Nat} {m : Str} {c : Change} (hok : ChangeOk env x t m c)
      (hmoves : EngineMoves x.manager s' t m True) (hnext : s'.nextEngine = x.manager.nextEngine)
      (b : Nat) (hb : s'.Owns t b) :
      x.noteBuild s' (x.entryFor e) b = some c.updated := by
    rcases hmoves.owned b hb with hold | ⟨-, -, hnew⟩
    · rw [noteBuild_old b (h.life.core.owned t b hold).1, hok.built b hold]
    · omega
  cases e with
  | resumeConfigure t =>
    simp only [Manager.step] at hstep
    split at hstep
    · next m old cancelled hactivity =>
      have hchanging : x.Changing t m := ⟨_, hactivity, (by simp)⟩
      obtain ⟨c, hok⟩ := h.changes t m hchanging
      obtain ⟨-, ⟨hbuilds, -⟩, -⟩ := h.life.configure_stage hactivity
      obtain ⟨hengines, hmoves, hafter⟩ := configureBuilt_spec (served_configure hactivity)
        hbuilds.2.2.2 hstep
      refine ⟨t, m, hchanging, .inl rfl, ?_⟩
      apply hok.segment hlife hmoves hengines noteBuild_old
      rcases hafter with hfinished | ⟨l, r, hwaits, hr, hcontext, hnext⟩
      · exact .inl hfinished
      · refine .inr ⟨_, hwaits, (by simp), hcontext, howned hok hmoves hnext, ?_⟩
        intro b l' _ _ hnone
        simp [hr] at hnone
    · cases hstep
  | cancel t =>
    simp only [Manager.configures] at hconfigures
    split at hconfigures
    · next m stage hactivity =>
      simp only [Manager.step, hactivity] at hstep
      have hlive : stage ≠ .finished := by
        rintro rfl
        cases hstep
      have hchanging : x.Changing t m := ⟨_, hactivity, hlive⟩
      obtain ⟨c, hok⟩ := h.changes t m hchanging
      obtain ⟨-, hstage, -⟩ := h.life.configure_stage hactivity
      obtain ⟨hengines, hmoves, hafter⟩ := cancelConfigure_spec (served_configure hactivity)
        hstage hstep
      refine ⟨t, m, hchanging, .inr rfl, ?_⟩
      apply hok.segment hlife hmoves hengines noteBuild_old
      rcases hafter with hfinished | ⟨old, hbuilding, hcontext, hnext⟩
      · exact .inl hfinished
      · exact .inr ⟨_, hbuilding, (by simp), hcontext, howned hok hmoves hnext, (by simp)⟩
    · cases hconfigures
  | configureContext t m refused => cases hadmits
  | configureLocked t refused rebuild => cases hadmits
  | configureHandoff t refused => cases hadmits
  | scheduleLoad t m device => cases hconfigures
  | startLoad t inspection => cases hconfigures
  | grantLoadLock t => cases hconfigures
  | resumeLoad t first again => cases hconfigures
  | endBuild b result => cases hconfigures
  | grantHandoffLock t => cases hconfigures
  | returnLoad t => cases hconfigures
  | createEngine device => cases hconfigures
  | request t m engine => cases hconfigures
  | grantLease t => cases hconfigures
  | endGeneration t how => cases hconfigures
  | resumeRequest t => cases hconfigures
  | unload m => cases hconfigures

/-! ### The handoff -/

omit [DecidableEq δ] in
/-- While a request holds the load lock, and the lock of the model is free, nothing is built for
the model by anybody else. -/
theorem Consistent.handoff_alone (h : Consistent env x) {old : Option Nat} {l t' e : Nat}
    (hactivity : (x.manager.task t).activity = .configure m (.waitLock old l))
    (hfree : x.manager.lockHolder l = none) (hold : x.manager.engines m = old)
    (hserved : (x.manager.task t').activity.served = some m) : ¬ x.manager.Owns t' e := by
  intro he
  obtain ⟨-, ⟨hload, -, -, hmine⟩, -⟩ := h.life.configure_stage hactivity
  rcases hkind : (x.manager.task t').activity with - | ⟨m', current, stage⟩ |
    ⟨m', requested, stage⟩ | ⟨m', stage⟩
  · simp [hkind, Activity.served] at hserved
  · -- a load task that owns a build holds the load lock
    obtain ⟨-, hok, -⟩ := h.life.load_stage hkind
    have howns : (x.manager.task t').future ≠ none ∨ (x.manager.task t').replacement ≠ none := by
      rcases he with hfuture | hreplacement
      · exact .inl (by simp [hfuture])
      · exact .inr (by simp [hreplacement])
    have hload' : (x.manager.task t').loadLock = true := by
      cases stage <;> simp_all [LoadOk, Task.Idle, Task.HoldsLoadLock, Task.Builds]
    have hholder := (h.life.core.loadLock t').mpr hload'
    rw [(h.life.core.loadLock t).mpr hload] at hholder
    obtain rfl := Option.some.inj hholder
    simp [hkind] at hactivity
  · -- a request that rebuilds holds the lock of its engine
    obtain rfl : m' = m := by simpa [hkind, Activity.served] using hserved
    have hok := h.life.request_stage hkind
    cases stage with
    | waiting current l' => exact Task.Idle.owns hok e he
    | finished => exact Task.Idle.owns hok e he
    | leased engine =>
      obtain ⟨-, hfuture, hreplacement, -⟩ := hok
      rcases he with hf | hr
      · simp [hfuture] at hf
      · simp [hreplacement] at hr
    | rebuilding engine =>
      obtain ⟨-, -, -, -, hinstalled, ⟨l', hl', hheld⟩, -⟩ := hok
      have hlock := (hmine engine (by rw [← hold, hinstalled])).2 hinstalled
      rw [hlock] at hl'
      obtain rfl := Option.some.inj hl'
      rw [(h.life.core.lock l t').mpr hheld] at hfree
      cases hfree
  · simp [hkind, Activity.served] at hserved

/-- The handoff of a request that is not refused. -/
structure Commit (env : Environment δ) (x x' : State δ) (t : Nat) (c : Change) : Prop where
  current : x.catalog.get? c.model = some c.cfg
  catalog : x'.catalog = x.catalog.set c.model c.updated
  advisor : x'.advisor = x'.catalog
  file : x'.file = saveCatalog x'.catalog
  outcome : x'.outcome = Function.update x.outcome t (some .applied)
  engines : x'.manager.engines = match (x.manager.task t).replacement with
    | none => x.manager.engines
    | some r => Function.update x.manager.engines c.model (some r)
  change : x'.change = x.change
  built : x'.built = x.built
  moves : EngineMoves x.manager x'.manager t c.model True
  finished : (x'.manager.task t).activity = .configure c.model .finished
  life : InferBridge.Inv env.lifecycle False x'.manager
  waited : ∃ old l, (x.manager.task t).activity = .configure c.model (.waitLock old l) ∧
    x.manager.lockHolder l = none ∧ x.manager.engines c.model = old

section
variable {c : Change}

omit [DecidableEq δ]

theorem Commit.get? (h : Commit env x x' t c) (m' : Str) :
    x'.catalog.get? m' = if m' = c.model then some c.updated else x.catalog.get? m' := by
  rw [h.catalog, Dict.get?_set]

theorem Commit.engines_of_ne (h : Commit env x x' t c) {m' : Str} (hne : m' ≠ c.model) :
    x'.manager.engines m' = x.manager.engines m' := by
  rw [h.engines]
  rcases (x.manager.task t).replacement with - | r
  · rfl
  · exact Function.update_of_ne hne _ _

theorem Commit.supports (h : Commit env x x' t c) (hx : Consistent env x) {m' : Str} {e : Nat}
    (he : x.manager.engines m' = some e) :
    State.supports env x'.manager e = State.supports env x.manager e := by
  apply supports_congr
  exact (h.moves.engine e fun hnew => (hx.life.core.installed m' e he).2.1.ne hnew.2).1

theorem Commit.changing (h : Commit env x x' t c) : x.Changing t c.model := by
  obtain ⟨old, l, hactivity, -, -⟩ := h.waited
  exact ⟨_, hactivity, (by simp)⟩

/-- The request itself has ended; the others go on. -/
theorem Commit.changing_iff (h : Commit env x x' t c) {t' : Nat} {m' : Str} :
    x'.Changing t' m' ↔ t' ≠ t ∧ x.Changing t' m' := by
  by_cases ht : t' = t
  · subst ht
    simp only [ne_eq, not_true_eq_false, false_and, iff_false]
    rintro ⟨stage, hactivity, hlive⟩
    rw [h.finished] at hactivity
    exact hlive (Activity.configure.inj hactivity).2.symm
  · unfold State.Changing
    rw [h.moves.others t' ht]
    simp [ht]

/-- The engine of the model is the replacement, or one that the change does not concern. -/
theorem Commit.reflects (h : Commit env x x' t c) (hx : Consistent env x)
    (hok : ChangeOk env x t c.model c) {e : Nat} (he : x'.manager.engines c.model = some e) :
    x'.Reflects env c.model e := by
  obtain ⟨old, l, hactivity, -, hold⟩ := h.waited
  have hentry : x'.catalog.get? c.model = some c.updated := by rw [h.get?, if_pos rfl]
  have hengines := h.engines
  rcases er : (x.manager.task t).replacement with - | r
  · rw [er] at hengines
    have he' : x.manager.engines c.model = some e := by rw [← he, hengines]
    obtain ⟨hlength, hsupports⟩ := hok.unbuilt e l (by rw [hactivity, ← hold, he']) he' er
    obtain ⟨hbefore, -⟩ := hx.installed c.model e he'
    refine ⟨?_, ?_⟩
    · rw [hentry, h.built, hbefore, h.current, Option.map_some, Option.map_some, hlength]
    · rw [h.supports hx he', hsupports]
      intro hfalse
      cases hfalse
  · rw [er] at hengines
    have hinstalled : some r = some e := by
      rw [← he, hengines]
      show some r = Function.update x.manager.engines c.model (some r) c.model
      rw [Function.update_self]
    obtain rfl := Option.some.inj hinstalled
    refine ⟨?_, fun _ => ?_⟩ <;> rw [hentry, h.built, hok.built r (.inr er)]

theorem Commit.installed (h : Commit env x x' t c) (hx : Consistent env x)
    (hok : ChangeOk env x t c.model c) {m' : Str} {e : Nat}
    (he : x'.manager.engines m' = some e) : x'.Reflects env m' e := by
  by_cases hm : m' = c.model
  · subst hm
    exact h.reflects hx hok he
  · rw [h.engines_of_ne hm] at he
    obtain ⟨hlength, hprecision⟩ := hx.installed m' e he
    refine ⟨?_, ?_⟩
    · rw [h.get?, if_neg hm, h.built]
      exact hlength
    · rw [h.get?, if_neg hm, h.built, h.supports hx he]
      exact hprecision

theorem Commit.served (h : Commit env x x' t c) (hx : Consistent env x) {t' e : Nat} {m' : Str}
    (hserved : (x'.manager.task t').activity.served = some m') (he : x'.manager.Owns t' e) :
    (x'.built e).map State.settingsOf = (x'.catalog.get? m').map State.settingsOf := by
  obtain ⟨old, l, hactivity, hfree, hold⟩ := h.waited
  have hne : t' ≠ t := by
    rintro rfl
    simp [served_configure h.finished] at hserved
  rw [h.moves.others t' hne] at hserved
  rw [Manager.Owns, h.moves.others t' hne] at he
  have hm : m' ≠ c.model := by
    rintro rfl
    exact hx.handoff_alone hactivity hfree hold hserved he
  rw [h.get?, if_neg hm, h.built]
  exact hx.served t' m' e hserved he

theorem Commit.changeOk (h : Commit env x x' t c) (hx : Consistent env x) {t' : Nat} {m' : Str}
    (hc : x'.Changing t' m') : ∃ c', ChangeOk env x' t' m' c' := by
  obtain ⟨hne, hc'⟩ := h.changing_iff.mp hc
  have htask := h.moves.others t' hne
  have hm : m' ≠ c.model := by
    rintro rfl
    exact hne (hx.alone t t' _ h.changing hc')
  obtain ⟨c', hok⟩ := hx.changes t' m' hc'
  refine ⟨c', by rw [h.change, hok.change], hok.model, hok.planned, ?_, ?_, ?_, ?_⟩
  · rw [h.outcome, Function.update_of_ne hne, hok.pending]
  · rcases h.moves.contextChanges with hequal | ⟨-, -, hequal⟩
    · rw [hequal, hok.marked]
    · rw [hequal, Function.update_of_ne hm, hok.marked]
  · intro e he
    rw [Manager.Owns, htask] at he
    rw [h.built, hok.built e he]
  · intro e l hwaits he hnone
    rw [htask] at hwaits hnone
    rw [h.engines_of_ne hm] at he
    rw [h.supports hx he]
    exact hok.unbuilt e l hwaits he hnone

theorem Consistent.commit (hx : Consistent env x) (hok : ChangeOk env x t c.model c)
    (h : Commit env x x' t c) : Consistent env x' := by
  refine ⟨h.life, h.moves.staysReady hx.life.core hx.ready, h.advisor,
    fun m' e he => h.installed hx hok he, fun t' m' e hserved he => h.served hx hserved he,
    fun t' m' hc => h.changeOk hx hc, ?_, ?_⟩
  · intro t' hpending
    rw [h.outcome] at hpending
    have hne : t' ≠ t := by
      rintro rfl
      simp at hpending
    rw [Function.update_of_ne hne] at hpending
    obtain ⟨m', hc⟩ := hx.pending t' hpending
    exact ⟨m', h.changing_iff.mpr ⟨hne, hc⟩⟩
  · intro t₁ t₂ m' h₁ h₂
    exact hx.alone t₁ t₂ m' (h.changing_iff.mp h₁).2 (h.changing_iff.mp h₂).2

end

omit [DecidableEq δ] in
/-- With the lock of the model a request is refused, or it hands over. -/
theorem configureHandoff_cases (h : Consistent env x) {c : Change} {old : Option Nat} {l : Nat}
    (hactivity : (x.manager.task t).activity = .configure m (.waitLock old l))
    (hfree : x.manager.lockHolder l = none) (hc : x.change t = some c) (saves : Bool) :
    Segment env x (x.configureHandoff t c old l saves) t m ∨
      Commit env x (x.configureHandoff t c old l saves) t c := by
  have hchanging : x.Changing t m := ⟨_, hactivity, (by simp)⟩
  have hok := h.changeOk hchanging hc
  obtain ⟨hm, hstage, hquiet⟩ := h.life.configure_stage hactivity
  obtain rfl := hok.model
  unfold State.configureHandoff
  dsimp only
  generalize hr : (decide (x.catalog.get? c.model ≠ some c.cfg) || !saves) = refused
  obtain ⟨hmoves, hfinished, hclosed, hengines⟩ :=
    configureHandoff_spec (m := c.model) (served_configure hactivity) old l refused
  have hlife : InferBridge.Inv env.lifecycle False
      (x.manager.configureHandoff t c.model old l refused) :=
    (h.life.start t).configureHandoff hquiet hm hstage hfree refused
  generalize x.manager.configureHandoff t c.model old l refused = s' at *
  split
  · next hrefused =>
    left
    rw [if_pos hrefused] at hengines
    have hbuilt (r : Nat) (hr : x.manager.HasBuilt t r) :
        (s'.engine r).closes = (x.manager.engine r).closes + 1 := by
      rcases hr with hr | ⟨hr, -⟩
      · exact hclosed hrefused r hr
      · simp [hstage.2.2.1] at hr
    have hsegment := hok.segment hlife hmoves hengines (fun _ _ => rfl) (.inl ⟨hfinished, hbuilt⟩)
    rwa [settle_finished (x := { x with manager := s', built := x.built }) hok.pending hfinished]
      at hsegment
  · next hproceeds =>
    right
    rw [if_neg hproceeds] at hengines
    obtain ⟨hold, hnotRefused⟩ := not_or.mp hproceeds
    have hcurrent : x.catalog.get? c.model = some c.cfg := by
      by_contra hne
      simp [hne] at hr
      exact hnotRefused hr
    exact ⟨hcurrent, rfl, rfl, rfl, rfl, hengines, rfl, rfl, hmoves, hfinished, hlife,
      ⟨old, l, hactivity, hfree, not_not.mp hold⟩⟩

/-! ### The start of a request -/

theorem wanted_eq {cfg : ModelConfig} {req : Request} {limit : Option Int} {tokens : Int}
    {precision : Option KvPrecision} (h : wanted cfg req limit = some (tokens, precision)) :
    tokens = req.tokens.getD cfg.maxContextLen ∧
      match req.precision with
      | none => precision = cfg.kvCachePrecision
      | some value => normalizeKvCachePrecision value = some precision := by
  unfold wanted at h
  dsimp only at h
  split at h
  · rcases ep : req.precision with - | value <;> rw [ep] at h
    · obtain ⟨rfl, rfl⟩ := Prod.mk.inj (Option.some.inj h)
      exact ⟨rfl, rfl⟩
    · obtain ⟨found, hfound, hpair⟩ := Option.map_eq_some_iff.mp h
      obtain ⟨rfl, rfl⟩ := Prod.mk.inj hpair
      exact ⟨rfl, hfound⟩
  · cases h

/-- How a request begins: refused, with nothing to do, or marked and waiting. -/
inductive Begins (env : Environment δ) (x x' : State δ) (t : Nat) (m : Str) (req : Request) :
    Prop where
  | refused (refused : x' = x.finish t .refused)
  | unchanged {cfg : ModelConfig} {limit : Option Int} (unchanged : x' = x.finish t .unchanged)
      (entry : x.catalog.get? m = some cfg)
      (unmarked : x.manager.contextChanges m = false)
      (wanted : wanted cfg req limit = some (cfg.maxContextLen, cfg.kvCachePrecision))
  | waits {cfg : ModelConfig} {tokens : Int} {precision : Option KvPrecision}
      (entry : x.catalog.get? m = some cfg) (expected : cfg.maxContextLen = req.expected)
      (unmarked : x.manager.contextChanges m = false)
      (limit : ∃ limit, wanted cfg req limit = some (tokens, precision))
      (waits : x' = { x.finish t .pending with
        manager := { x.manager.goTo t (.configure m .waitLoadLock) with
          contextChanges := Function.update x.manager.contextChanges m true }
        change := Function.update x.change t
          (some ⟨m, req, cfg, updatedEntry cfg tokens precision⟩) })

omit [DecidableEq δ] in
theorem configure_begins (t : Nat) (m : Str) (req : Request) (around : Surroundings) :
    Begins env x (x.configure env t m req around) t m req := by
  unfold State.configure
  rcases hcfg : x.catalog.get? m with - | cfg
  · exact .refused rfl
  · dsimp only
    split
    · exact .refused rfl
    · next hchecks =>
      obtain ⟨hmark, hrest⟩ := not_or.mp hchecks
      obtain ⟨-, hexpected⟩ := not_or.mp hrest
      have hmark : x.manager.contextChanges m = false := by simpa using hmark
      rcases hw : wanted cfg req around.limit with - | ⟨tokens, precision⟩
      · exact .refused rfl
      · dsimp only
        split
        · next hsame =>
          obtain ⟨rfl, rfl⟩ := hsame
          exact .unchanged rfl hcfg hmark hw
        · split
          · exact .refused rfl
          · next hbusy =>
            obtain ⟨hload, -⟩ := not_or.mp hbusy
            refine .waits hcfg (not_not.mp hexpected) hmark ⟨_, hw⟩ ?_
            unfold Manager.configureContext
            rw [if_neg]
            rintro (hcatalog | hmarked | hrefused | hactive)
            · cases hcatalog
            · rw [hmark] at hmarked
              cases hmarked
            · cases hrefused
            · exact hload hactive

omit [DecidableEq δ] in
theorem Consistent.begins (h : Consistent env x) {req : Request}
    (habsent : (x.manager.task t).activity = .absent) (hb : Begins env x x' t m req) :
    Consistent env x' := by
  have hidle : (x.manager.task t).Idle := by simpa [StageOk, habsent] using h.life.stage t
  have hnot (m' : Str) : ¬ x.Changing t m' := by
    rintro ⟨stage, hactivity, -⟩
    simp [habsent] at hactivity
  cases hb with
  | refused hx' =>
    subst hx'
    exact h.finish hnot (by simp)
  | unchanged hx' =>
    subst hx'
    exact h.finish hnot (by simp)
  | @waits cfg tokens precision entry expected unmarked limit hx' =>
    subst hx'
    obtain ⟨limit, hw⟩ := limit
    obtain ⟨htokens, hprecision⟩ := wanted_eq hw
    have hother (t' : Nat) (hne : t' ≠ t) :
        (x.manager.goTo t (.configure m .waitLoadLock)).task t' = x.manager.task t' := by
      simp [Manager.goTo, hne]
    have hmine : (x.manager.goTo t (.configure m .waitLoadLock)).task t =
        { x.manager.task t with activity := .configure m .waitLoadLock } := by
      simp [Manager.goTo]
    have honly {t' : Nat} {m' : Str} {stage : ConfigureStage} (hne : t' ≠ t)
        (hactivity : ((x.manager.goTo t (.configure m .waitLoadLock)).task t').activity =
          .configure m' stage) (hlive : stage ≠ .finished) : x.Changing t' m' :=
      ⟨stage, by rw [← hother t' hne, hactivity], hlive⟩
    have hself {m' : Str} {stage : ConfigureStage}
        (hactivity : ((x.manager.goTo t (.configure m .waitLoadLock)).task t).activity =
          .configure m' stage) : m' = m := by
      rw [hmine] at hactivity
      exact (Activity.configure.inj hactivity).1.symm
    -- nobody else changes this model: its mark was free
    have hfree (t' : Nat) : ¬ x.Changing t' m := by
      intro hc
      obtain ⟨c, hok⟩ := h.changes t' m hc
      have hmarked := hok.marked
      rw [unmarked] at hmarked
      cases hmarked
    have hlife : InferBridge.Inv env.lifecycle False
        { x.manager.goTo t (.configure m .waitLoadLock) with
          contextChanges := Function.update x.manager.contextChanges m true } := by
      have harrive : InferBridge.Inv env.lifecycle False
          (x.manager.goTo t (.configure m .waitLoadLock)) := by
        apply (h.life.start t).arrive (by simp [Task.Quiet, habsent])
        exact ⟨rfl, hidle⟩
      exact harrive.note _ _ _
    refine ⟨hlife, ⟨h.ready.installed, ?_⟩, h.advisor, h.installed, ?_, ?_, ?_, ?_⟩
    · intro t' e he
      have he' :
        ((x.manager.goTo t (.configure m .waitLoadLock)).task t').replacement = some e := he
      by_cases ht : t' = t
      · subst ht
        rw [hmine] at he'
        exact h.ready.replacement t' e he'
      · rw [hother t' ht] at he'
        exact h.ready.replacement t' e he'
    · intro t' m' e hserved he
      have hserved' : ((x.manager.goTo t (.configure m .waitLoadLock)).task t').activity.served =
        some m' := hserved
      have he' : (x.manager.goTo t (.configure m .waitLoadLock)).Owns t' e := he
      have hne : t' ≠ t := by
        rintro rfl
        rw [hmine] at hserved'
        cases hserved'
      rw [hother t' hne] at hserved'
      rw [Manager.Owns, hother t' hne] at he'
      exact h.served t' m' e hserved' he'
    · rintro t' m' ⟨stage, hactivity, hlive⟩
      by_cases ht : t' = t
      · subst ht
        obtain rfl := hself hactivity
        refine ⟨_, Function.update_self _ _ _, rfl, ⟨expected, htokens, ?_, rfl⟩,
          Function.update_self _ _ _, Function.update_self _ _ _, ?_, ?_⟩
        · exact hprecision
        · intro e he
          have he' : (x.manager.goTo t' (.configure m' .waitLoadLock)).Owns t' e := he
          rw [Manager.Owns, hmine] at he'
          exact absurd he' (hidle.owns e)
        · intro e l hwaits
          have hwaits' : ((x.manager.goTo t' (.configure m' .waitLoadLock)).task t').activity =
            .configure m' (.waitLock (some e) l) := hwaits
          rw [hmine] at hwaits'
          cases hwaits'
      · have hc := honly ht hactivity hlive
        obtain ⟨c, hok⟩ := h.changes t' m' hc
        have hm' : m' ≠ m := by
          rintro rfl
          exact hfree t' hc
        have htask : ({ x.manager.goTo t (.configure m .waitLoadLock) with
            contextChanges := Function.update x.manager.contextChanges m true } :
            Manager Str δ).task t' = x.manager.task t' := hother t' ht
        refine ⟨c, (Function.update_of_ne ht _ _).trans hok.change, hok.model, hok.planned,
          (Function.update_of_ne ht _ _).trans hok.pending,
          (Function.update_of_ne hm' _ _).trans hok.marked, ?_, ?_⟩
        · intro e he
          apply hok.built e
          unfold Manager.Owns
          rw [← htask]
          exact he
        · intro e l hwaits he hnone
          exact hok.unbuilt e l (by rw [← htask]; exact hwaits) he (by rw [← htask]; exact hnone)
    · intro t' hpending
      by_cases ht : t' = t
      · subst ht
        refine ⟨m, .waitLoadLock, ?_, (by simp)⟩
        show ((x.manager.goTo t' (.configure m .waitLoadLock)).task t').activity = _
        rw [hmine]
      · have hpending' : Function.update x.outcome t (some .pending) t' = some .pending := hpending
        rw [Function.update_of_ne ht] at hpending'
        obtain ⟨m', stage, hactivity, hlive⟩ := h.pending t' hpending'
        refine ⟨m', stage, ?_, hlive⟩
        show ((x.manager.goTo t (.configure m .waitLoadLock)).task t').activity = _
        rw [hother t' ht, hactivity]
    · rintro t₁ t₂ m' ⟨stage, hactivity₁, hlive₁⟩ ⟨stage', hactivity₂, hlive₂⟩
      by_cases h₁ : t₁ = t
      · subst h₁
        obtain rfl := hself hactivity₁
        by_contra hne
        exact hfree t₂ (honly hne hactivity₂ hlive₂)
      · by_cases h₂ : t₂ = t
        · subst h₂
          obtain rfl := hself hactivity₂
          exact absurd (honly h₁ hactivity₁ hlive₁) (hfree t₁)
        · exact h.alone t₁ t₂ m' (honly h₁ hactivity₁ hlive₁) (honly h₂ hactivity₂ hlive₂)

end InferBridge.ContextChange
