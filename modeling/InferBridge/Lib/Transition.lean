/-
InferBridge/Lib/Transition.lean

Runs of a guarded step function.

`step s e` is `none` where the event `e` cannot happen in `s`.  A run is a
list of events; `run step s es` is the state it ends in.  `meets step C s
es` says that every event of the run satisfies `C` in the state it happens
in.  Both are computed, so that single runs can be evaluated.

Main results.  `run_induction` carries a property of the events so far and
the state reached along a run whose steps meet `C`; `run_invariant` is the
case of a property of the state alone, and `run_invariant_of` may use an
invariant that is already known.  `always_iff_meets` gives the exact condition
under which a property holds all along a run.  `eachStep` is a property of
the single steps of a run, `eachStep_iff` says which steps these are.
-/
import Mathlib

namespace Transition

variable {σ ε : Type*}

/-! ### Runs -/

def run (step : σ → ε → Option σ) : σ → List ε → Option σ
  | s, [] => some s
  | s, e :: es => (step s e).bind fun s' => run step s' es

/-- Every event of the run satisfies `C` in the state it happens in. -/
def meets (step : σ → ε → Option σ) (C : σ → ε → Bool) : σ → List ε → Bool
  | _, [] => true
  | s, e :: es =>
    C s e && match step s e with
      | none => true
      | some s' => meets step C s' es

/-- The property holds in every state of the run. -/
def always (step : σ → ε → Option σ) (I : σ → Prop) : σ → List ε → Prop
  | s, [] => I s
  | s, e :: es => I s ∧ ∀ s', step s e = some s' → always step I s' es

variable {step : σ → ε → Option σ} {C : σ → ε → Bool} {s s' : σ}

@[simp] theorem run_nil : run step s [] = some s := rfl

theorem run_cons_eq_some {e : ε} {es : List ε} :
    run step s (e :: es) = some s' ↔ ∃ t, step s e = some t ∧ run step t es = some s' := by
  simp [run, Option.bind_eq_some_iff]

theorem run_append_eq_some {es fs : List ε} :
    run step s (es ++ fs) = some s' ↔ ∃ t, run step s es = some t ∧ run step t fs = some s' := by
  induction es generalizing s with
  | nil => simp
  | cons e es ih =>
    rw [List.cons_append, run_cons_eq_some]
    constructor
    · rintro ⟨t, hstep, hrest⟩
      obtain ⟨u, hes, hfs⟩ := ih.mp hrest
      exact ⟨u, run_cons_eq_some.mpr ⟨t, hstep, hes⟩, hfs⟩
    · rintro ⟨u, hes, hfs⟩
      obtain ⟨t, hstep, hrest⟩ := run_cons_eq_some.mp hes
      exact ⟨t, hstep, ih.mpr ⟨u, hrest, hfs⟩⟩

theorem meets_cons {e : ε} {es : List ε} {t : σ} (h : meets step C s (e :: es) = true)
    (hstep : step s e = some t) : C s e = true ∧ meets step C t es = true := by
  simpa [meets, hstep] using h

theorem meets_append {es fs : List ε} (h : meets step C s (es ++ fs) = true)
    (hrun : run step s es = some s') : meets step C s es = true ∧ meets step C s' fs = true := by
  induction es generalizing s with
  | nil =>
    obtain rfl := Option.some.inj hrun
    exact ⟨rfl, h⟩
  | cons e es ih =>
    obtain ⟨t, hstep, hrest⟩ := run_cons_eq_some.mp hrun
    obtain ⟨hC, hmeets⟩ := meets_cons h hstep
    obtain ⟨hes, hfs⟩ := ih hmeets hrest
    refine ⟨?_, hfs⟩
    simp [meets, hstep, hC, hes]

/-- Every run meets the trivial condition. -/
theorem meets_true (es : List ε) : meets step (fun _ _ => true) s es = true := by
  induction es generalizing s with
  | nil => rfl
  | cons e es ih =>
    unfold meets
    rcases step s e with - | t
    · rfl
    · simpa using ih

/-- A run meets two conditions where it meets each of them. -/
theorem meets_and {D : σ → ε → Bool} {es : List ε} (hC : meets step C s es = true)
    (hD : meets step D s es = true) : meets step (fun s e => C s e && D s e) s es = true := by
  induction es generalizing s with
  | nil => rfl
  | cons e es ih =>
    simp only [meets, Bool.and_eq_true] at hC hD ⊢
    refine ⟨⟨hC.1, hD.1⟩, ?_⟩
    rcases hstep : step s e with - | t
    · rfl
    · simp only [hstep] at hC hD ⊢
      exact ih hC.2 hD.2

/-- Two conditions on events that agree where an invariant of the runs holds. -/
theorem meets_congr {I : σ → Prop} {D : σ → ε → Bool}
    (hstep : ∀ s e s', I s → step s e = some s' → I s')
    (hCD : ∀ s e, I s → C s e = D s e) {es : List ε} (h : I s) :
    meets step C s es = meets step D s es := by
  induction es generalizing s with
  | nil => rfl
  | cons e es ih =>
    rw [meets, meets, hCD s e h]
    rcases he : step s e with - | s'
    · rfl
    · simp only [ih (hstep s e s' h he)]

/-- Where exactly the events that satisfy `C` can happen, exactly the runs that meet `C` go
through. -/
theorem run_isSome_iff_meets (h : ∀ s e, (step s e).isSome ↔ C s e = true) (es : List ε) :
    (run step s es).isSome ↔ meets step C s es = true := by
  induction es generalizing s with
  | nil => simp [meets]
  | cons e es ih =>
    rcases hstep : step s e with - | t
    · have hC : ¬ C s e = true := by
        rw [← h, hstep]
        simp
      simp [run, meets, hstep, hC]
    · have hC : C s e = true := by
        rw [← h, hstep]
        rfl
      simp [run, meets, hstep, hC, ih]

/-- What holds all along a run holds at its end. -/
theorem always_end {I : σ → Prop} {es : List ε} (h : always step I s es)
    (hrun : run step s es = some s') : I s' := by
  induction es generalizing s with
  | nil =>
    obtain rfl := Option.some.inj hrun
    exact h
  | cons e es ih =>
    obtain ⟨t, he, hrest⟩ := run_cons_eq_some.mp hrun
    exact ih (h.2 t he) hrest

/-! ### Induction along a run -/

/-- A property of the events so far and the state reached holds at the end of every run
whose steps meet `C`. -/
theorem run_induction {P : List ε → σ → Prop}
    (hstep : ∀ es s e s', P es s → C s e = true → step s e = some s' → P (es ++ [e]) s') :
    ∀ {es b : List ε} {s s' : σ}, P b s → meets step C s es = true →
      run step s es = some s' → P (b ++ es) s' := by
  intro es
  induction es with
  | nil =>
    intro b s s' h _ hrun
    obtain rfl := Option.some.inj hrun
    simpa using h
  | cons e es ih =>
    intro b s s' h hmeets hrun
    obtain ⟨t, he, hrest⟩ := run_cons_eq_some.mp hrun
    obtain ⟨hC, hmeets⟩ := meets_cons hmeets he
    have hnext := hstep b s e t h hC he
    simpa using ih hnext hmeets hrest

/-- What every step that meets `C` preserves holds at the end of every such run. -/
theorem run_invariant {I : σ → Prop}
    (hstep : ∀ s e s', I s → C s e = true → step s e = some s' → I s') {es : List ε} (h : I s)
    (hmeets : meets step C s es = true) (hrun : run step s es = some s') : I s' :=
  run_induction (P := fun _ => I) (b := [])
    (fun _ s e s' => hstep s e s') h hmeets hrun

/-- The same, where the step may use an invariant `J` of all runs. -/
theorem run_invariant_of {I J : σ → Prop}
    (hJ : ∀ s e s', J s → step s e = some s' → J s')
    (hstep : ∀ s e s', J s → I s → C s e = true → step s e = some s' → I s') {es : List ε}
    (hj : J s) (h : I s) (hmeets : meets step C s es = true) (hrun : run step s es = some s') :
    J s' ∧ I s' := by
  refine run_invariant (I := fun s => J s ∧ I s) ?_ ⟨hj, h⟩ hmeets hrun
  intro s e s' hs hC he
  exact ⟨hJ s e s' hs.1 he, hstep s e s' hs.1 hs.2 hC he⟩

/-- Where a step keeps the property exactly if it meets `C`, the property holds all along a run
exactly if the run meets `C`.  `J` is an invariant of the steps from states with the property. -/
theorem always_iff_meets {I J : σ → Prop} (hJ : ∀ s e s', J s → I s → step s e = some s' → J s')
    (hstep : ∀ s e s', J s → I s → step s e = some s' → (I s' ↔ C s e = true)) {es : List ε}
    (hj : J s) (h : I s) (hrun : run step s es = some s') :
    always step I s es ↔ meets step C s es = true := by
  induction es generalizing s with
  | nil => simp [always, meets, h]
  | cons e es ih =>
    obtain ⟨t, he, hrest⟩ := run_cons_eq_some.mp hrun
    have hkeeps := hstep s e t hj h he
    have hnext (ht : I t) := ih (hJ s e t hj h he) ht hrest
    constructor
    · rintro ⟨-, halways⟩
      have ht := halways t he
      have hI : I t := by
        cases es with
        | nil => exact ht
        | cons => exact ht.1
      simp [meets, he, hkeeps.mp hI, (hnext hI).mp ht]
    · intro hmeets
      obtain ⟨hC, hrestC⟩ := meets_cons hmeets he
      refine ⟨h, ?_⟩
      intro t' he'
      obtain rfl : t = t' := by simpa [he] using he'
      exact (hnext (hkeeps.mpr hC)).mpr hrestC

/-- An invariant of all steps holds at the end of every run. -/
theorem run_always {I : σ → Prop} (hstep : ∀ s e s', I s → step s e = some s' → I s')
    {es : List ε} (h : I s) (hrun : run step s es = some s') : I s' :=
  run_invariant (C := fun _ _ => true) (fun s e s' hs _ he => hstep s e s' hs he) h
    (meets_true es) hrun

/-! ### Properties of the steps -/

/-- Every step of the run has the property: `R t e t'` where `e` takes `t` to `t'`. -/
def eachStep (step : σ → ε → Option σ) (R : σ → ε → σ → Prop) : σ → List ε → Prop
  | _, [] => True
  | s, e :: es => ∀ s', step s e = some s' → R s e s' ∧ eachStep step R s' es

/-- The steps of a run, wherever it is cut. -/
theorem eachStep_iff {R : σ → ε → σ → Prop} {es : List ε} :
    eachStep step R s es ↔
      ∀ before e after t t', es = before ++ e :: after → run step s before = some t →
        step t e = some t' → R t e t' := by
  induction es generalizing s with
  | nil =>
    constructor
    · intro _ before e after t t' hes
      simp at hes
    · intro _
      trivial
  | cons first es ih =>
    constructor
    · intro h before e after t t' hes hrun hstep
      cases before with
      | nil =>
        obtain ⟨rfl, rfl⟩ := List.cons.inj hes
        obtain rfl := Option.some.inj hrun
        exact (h t' hstep).1
      | cons b before =>
        obtain ⟨rfl, rfl⟩ := List.cons.inj hes
        obtain ⟨u, hfirst, hbefore⟩ := run_cons_eq_some.mp hrun
        exact ih.mp (h u hfirst).2 before e after t t' rfl hbefore hstep
    · intro h u hfirst
      refine ⟨h [] first es s u rfl rfl hfirst, ?_⟩
      apply ih.mpr
      intro before e after t t' hes hrun hstep
      exact h (first :: before) e after t t' (by rw [hes]; rfl)
        (run_cons_eq_some.mpr ⟨u, hfirst, hrun⟩) hstep

/-- What every step that meets `C` has, from states with an invariant of these steps, every step
of a run that meets `C` has. -/
theorem eachStep_of_meets {I : σ → Prop} {R : σ → ε → σ → Prop}
    (hkeeps : ∀ s e s', I s → C s e = true → step s e = some s' → I s')
    (hR : ∀ s e s', I s → C s e = true → step s e = some s' → R s e s') {es : List ε} (h : I s)
    (hmeets : meets step C s es = true) : eachStep step R s es := by
  induction es generalizing s with
  | nil => trivial
  | cons e es ih =>
    intro s' hstep
    obtain ⟨hC, hrest⟩ := meets_cons hmeets hstep
    exact ⟨hR s e s' h hC hstep, ih (hkeeps s e s' h hC hstep) hrest⟩

/-- Two properties of a step that say the same of every single step. -/
theorem eachStep_congr {R R' : σ → ε → σ → Prop}
    (h : ∀ s e s', step s e = some s' → (R s e s' ↔ R' s e s')) {es : List ε} :
    eachStep step R s es ↔ eachStep step R' s es := by
  induction es generalizing s with
  | nil => exact Iff.rfl
  | cons e es ih =>
    apply forall_congr'
    intro s'
    apply forall_congr'
    intro hstep
    exact and_congr (h s e s' hstep) ih

end Transition
