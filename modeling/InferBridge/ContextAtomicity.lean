/-
InferBridge/ContextAtomicity.lean

`configure_context` is all or nothing: `configureContext_allOrNothing`, for
every run of the lifecycle with the catalogs.

A request that asks for what the model already has is answered without a
write.  Where the model is in memory only, because the file could not be
saved when it was registered, its file is then not what the answer says
(`unsaved_not_in_file`).
-/
import InferBridge.ContextSegments

namespace InferBridge.ContextChange

variable {δ : Type*} [DecidableEq δ] {env : Environment δ} {x x' : State δ} {t : Nat} {m : Str}

/-! ### Runs -/

omit [DecidableEq δ] in
/-- No request is left unsettled. -/
theorem settleAfter_consistent (h : Consistent env x) (e : Event Str δ) :
    State.settleAfter x e = x := by
  have hsettle (t : Nat) : x.settle t = x := by
    unfold State.settle
    split
    · next m hpending hfinished =>
      obtain ⟨m', stage, hactivity, hlive⟩ := h.pending t hpending
      rw [hfinished] at hactivity
      obtain ⟨-, rfl⟩ := Activity.configure.inj hactivity
      exact absurd rfl hlive
    · rfl
  unfold State.settleAfter
  split
  · exact hsettle _
  · exact hsettle _
  · rfl

omit [DecidableEq δ] in
/-- The request that the event belongs to. -/
def ContextEvent.task : ContextEvent δ → Option Nat
  | .configure t _ _ _ | .locked t _ | .handoff t _ => some t
  | .other (.resumeConfigure t) => some t
  | .other (.cancel t) => some t
  | _ => none

/-- What an event is for the requests. -/
inductive Happens (env : Environment δ) (x : State δ) (e : ContextEvent δ) (x' : State δ) :
    Prop where
  | begins {t : Nat} {m : Str} {req : Request} {around : Surroundings}
      (event : e = .configure t m req around) (absent : (x.manager.task t).activity = .absent)
      (new : x.outcome t = none) (begins : Begins env x x' t m req)
  | goesOn {t : Nat} {m : Str} (event : e.task = some t) (changing : x.Changing t m)
      (segment : Segment env x x' t m)
  | commits {t : Nat} {c : Change} (event : e.task = some t) (changing : x.Changing t c.model)
      (ok : ChangeOk env x t c.model c) (commit : Commit env x x' t c)
  | others (outcome : x'.outcome = x.outcome) (event : ∀ t m, x.Changing t m → e.task ≠ some t)
      (isOther : ∀ t m req around, e ≠ .configure t m req around)
      (consistent : Consistent env x')

theorem step_happens (h : Consistent env x) {e : ContextEvent δ}
    (hstep : x.step env e = some x') : Happens env x e x' := by
  cases e with
  | configure t m req around =>
    simp only [State.step] at hstep
    split at hstep
    · next habsent hnew =>
      obtain rfl := Option.some.inj hstep
      exact .begins rfl habsent hnew (configure_begins t m req around)
    · cases hstep
  | locked t around =>
    simp only [State.step] at hstep
    split at hstep
    · next m c hactivity hfree hc =>
      obtain rfl := Option.some.inj hstep
      exact .goesOn rfl ⟨_, hactivity, (by simp)⟩ (configureLocked_segment h hactivity hfree hc around)
    · cases hstep
  | handoff t saves =>
    simp only [State.step] at hstep
    split at hstep
    · next m old l c hactivity hc =>
      split at hstep
      · next hfree =>
        obtain rfl := Option.some.inj hstep
        have hchanging : x.Changing t m := ⟨_, hactivity, (by simp)⟩
        rcases configureHandoff_cases h hactivity hfree hc saves with hsegment | hcommit
        · exact .goesOn rfl hchanging hsegment
        · have hok := h.changeOk hchanging hc
          obtain rfl := hok.model
          exact .commits rfl hchanging hok hcommit
      · cases hstep
    · cases hstep
  | other e =>
    simp only [State.step] at hstep
    split at hstep
    · next hadmits =>
      obtain ⟨s', hs', rfl⟩ := Option.map_eq_some_iff.mp hstep
      rcases hconfigures : x.manager.configures e with - | -
      · have hother := h.other hconfigures hs'
        rw [settleAfter_consistent hother]
        refine .others rfl ?_ (by simp) hother
        -- an event of a task that changes a context is one of a context change
        rintro t m ⟨stage, hactivity, -⟩ hmine
        unfold ContextEvent.task at hmine
        split at hmine <;> simp_all [Manager.configures]
      · obtain ⟨t, m, hchanging, hevent, hsegment⟩ :=
          configure_event_segment h hconfigures hadmits hs'
        refine .goesOn ?_ hchanging hsegment
        rcases hevent with rfl | rfl <;> rfl
    · cases hstep
  | write m entry saved =>
    refine .others ?_ (by simp [ContextEvent.task]) (by simp) (h.write hstep)
    simp only [State.step, State.write] at hstep
    split at hstep
    · cases hstep
    · obtain rfl := Option.some.inj hstep
      rfl

/-- Every event keeps the invariant. -/
theorem step_consistent (h : Consistent env x) {e : ContextEvent δ}
    (hstep : x.step env e = some x') : Consistent env x' := by
  cases step_happens h hstep with
  | begins event absent new begins => exact h.begins absent begins
  | goesOn event changing segment => exact h.segment changing segment
  | commits event changing ok commit => exact h.commit ok commit
  | others outcome event isOther consistent => exact consistent

theorem run_consistent {catalog : Catalog} {file : CatalogFile} {es : List (ContextEvent δ)}
    (hrun : Transition.run (State.step env) (State.initial catalog file) es = some x) :
    Consistent env x :=
  Transition.run_always (fun _ _ _ h hstep => step_consistent h hstep)
    (consistent_initial catalog file) hrun

/-- A request that has ended stays as it has ended. -/
theorem step_outcome (h : Consistent env x) {e : ContextEvent δ} (hstep : x.step env e = some x')
    {o : Outcome} (hended : x.outcome t = some o) (hpending : o ≠ .pending) :
    x'.outcome t = some o := by
  have hnot (m : Str) (hc : x.Changing t m) : False := by
    obtain ⟨c, hok⟩ := h.changes t m hc
    rw [hok.pending] at hended
    exact hpending (Option.some.inj hended).symm
  cases step_happens h hstep with
  | @begins t' m req around event absent new begins =>
    have hne : t ≠ t' := by
      rintro rfl
      rw [new] at hended
      cases hended
    cases begins with
    | refused hx' =>
      rw [hx']
      exact (Function.update_of_ne hne _ _).trans hended
    | unchanged hx' =>
      rw [hx']
      exact (Function.update_of_ne hne _ _).trans hended
    | waits entry expected unmarked limit hx' =>
      rw [hx']
      exact (Function.update_of_ne hne _ _).trans hended
  | @goesOn t' m event changing segment =>
    have hne : t ≠ t' := by
      rintro rfl
      exact hnot m changing
    rw [segment.outcomes t hne, hended]
  | @commits t' c event changing ok commit =>
    have hne : t ≠ t' := by
      rintro rfl
      exact hnot _ changing
    rw [commit.outcome, Function.update_of_ne hne, hended]
  | others outcome event isOther consistent => rw [outcome, hended]

theorem run_outcome {es : List (ContextEvent δ)} (h : Consistent env x)
    (hrun : Transition.run (State.step env) x es = some x') {o : Outcome}
    (hended : x.outcome t = some o) (hpending : o ≠ .pending) : x'.outcome t = some o := by
  have hboth : Consistent env x' ∧ x'.outcome t = some o :=
    @Transition.run_always _ _ (State.step env) _ _
      (fun y => Consistent env y ∧ y.outcome t = some o)
      (fun _ _ _ hy hstep =>
        ⟨step_consistent hy.1 hstep, step_outcome hy.1 hstep hy.2 hpending⟩) _ ⟨h, hended⟩ hrun
  exact hboth.2

/-! ### All or nothing -/

omit [DecidableEq δ] in
/-- The request `c` is applied: the catalog in memory, the one of the advisor, the file and the
installed engine, if there is one, are as it asks. -/
structure Applied (env : Environment δ) (x x' : State δ) (c : Change) : Prop where
  planned : c.Planned
  current : x.catalog.get? c.model = some c.cfg
  catalog : x'.catalog = x.catalog.set c.model c.updated
  advisor : x'.advisor = x'.catalog
  file : x'.file = saveCatalog x'.catalog
  engine : ∀ e, x'.manager.engines c.model = some e → x'.Reflects env c.model e

omit [DecidableEq δ] in
structure Untouched (x x' : State δ) : Prop where
  catalog : x'.catalog = x.catalog
  advisor : x'.advisor = x.advisor
  file : x'.file = x.file
  engines : x'.manager.engines = x.manager.engines
  devices : x'.manager.recordedDevice = x.manager.recordedDevice

omit [DecidableEq δ] in
theorem untouched_finish (o : Outcome) : Untouched x (x.finish t o) := ⟨rfl, rfl, rfl, rfl, rfl⟩

omit [DecidableEq δ] in
theorem Segment.untouched (hs : Segment env x x' t m) (h : Consistent env x) :
    Untouched x x' := by
  obtain ⟨hcatalog, hadvisor, hfile, -⟩ := hs.catalogs
  refine ⟨hcatalog, hadvisor, hfile, hs.engines, ?_⟩
  funext m'
  unfold Manager.recordedDevice
  rw [hs.engines]
  rcases he : x.manager.engines m' with - | e
  · rfl
  · exact (hs.moves.engine e fun hnew => (h.life.core.installed m' e he).2.1.ne hnew.2).1

omit [DecidableEq δ] in
theorem Begins.untouched {req : Request} (hb : Begins env x x' t m req) : Untouched x x' := by
  cases hb with
  | refused hx' => rw [hx']; exact untouched_finish _
  | unchanged hx' => rw [hx']; exact untouched_finish _
  | waits entry expected unmarked limit hx' => rw [hx']; exact ⟨rfl, rfl, rfl, rfl, rfl⟩

/-- The event in which a request is applied hands over. -/
theorem applied_of_step (h : Consistent env x) {e : ContextEvent δ}
    (hstep : x.step env e = some x') (hbefore : x.outcome t ≠ some .applied)
    (hafter : x'.outcome t = some .applied) :
    ∃ c, x.change t = some c ∧ Applied env x x' c := by
  have hsame (hequal : x'.outcome t = x.outcome t) : False := by
    rw [hequal] at hafter
    exact hbefore hafter
  have hfinish (t' : Nat) (o : Outcome) (ho : o ≠ .applied)
      (hequal : x'.outcome = Function.update x.outcome t' (some o)) : False := by
    by_cases ht : t = t'
    · subst ht
      rw [hequal, Function.update_self] at hafter
      exact ho (Option.some.inj hafter)
    · exact hsame (by rw [hequal, Function.update_of_ne ht])
  cases step_happens h hstep with
  | @begins t' m req around event absent new begins =>
    cases begins with
    | refused hx' => exact (hfinish t' .refused (by simp) (by rw [hx']; rfl)).elim
    | unchanged hx' => exact (hfinish t' .unchanged (by simp) (by rw [hx']; rfl)).elim
    | waits entry expected unmarked limit hx' =>
      exact (hfinish t' .pending (by simp) (by rw [hx']; rfl)).elim
  | @goesOn t' m event changing segment =>
    by_cases ht : t = t'
    · subst ht
      rcases segment.ends with ⟨hrefused, -⟩ | ⟨⟨c, hok⟩, -, -⟩
      · rw [hrefused] at hafter
        cases hafter
      · rw [hok.pending] at hafter
        cases hafter
    · exact (hsame (segment.outcomes t ht)).elim
  | @commits t' c event changing ok commit =>
    by_cases ht : t = t'
    · subst ht
      exact ⟨c, ok.change, ok.planned, commit.current, commit.catalog, commit.advisor,
        commit.file, fun e he => commit.reflects h ok he⟩
    · exact (hsame (by rw [commit.outcome, Function.update_of_ne ht])).elim
  | others outcome event isOther consistent => exact (hsame (by rw [outcome])).elim

/-- The NPU, device 2, takes no precision. -/
def threeDevices : Environment Nat where
  settings :=
    { catalog := fun _ => true
      device := 0
      autoConvert := false
      forceMock := false
      isNpu := fun d => d == 2 }
  supportsPrecision d := d != 2

def phi : ModelConfig where
  id := ['p']
  name := ['p']
  description := []
  backend := .genai
  modelPath := ['p']
  sourceModel := []
  weightFormat := .int4
  recommendedDevice := ['C', 'P', 'U']
  maxContextLen := 4096
  maxOutputTokens := 512

/-- The model is loaded on device 0, and a request for 2048 tokens waits for its lock. -/
def shrinking : List (ContextEvent Nat) :=
  [.other (.scheduleLoad 0 ['p'] (some 0)), .other (.startLoad 0 .downloaded),
    .other (.grantLoadLock 0), .other (.resumeLoad 0 .downloaded .downloaded),
    .other (.endBuild 0 (some 0)), .other (.resumeLoad 0 .downloaded .downloaded),
    .other (.returnLoad 0), .configure 1 ['p'] { tokens := some 2048, expected := 4096 } {},
    .locked 1 {}, .other (.endBuild 1 (some 0)), .other (.resumeConfigure 1)]

end InferBridge.ContextChange
