/-
InferBridge/EmbeddingLifecycle.lean

Embedding calls and close requests on one engine
(app/embedding_lifecycle_safety.py).

Each call runs in a thread of its own.  The sections under `guard` are
short and are single steps; between them a thread waits for `operation`,
runs the native embedding, or runs the native close.  Any native call may
fail: what follows it is the same.  The engine is marked closed at some
point of a native close, at its end at the latest.

The invariant counts the admitted calls and says who has to close: whoever
is about to close has seen that no call is active, and until it is done
either the close is pending or the engine is marked (`Sound`).

Main result: `embedding_lifecycle`.
-/
import InferBridge.Lib.Tally
import InferBridge.Lib.Transition

namespace InferBridge

/-! ### The engine and its callers -/

/-- Where a thread is in `embed` or `close`. -/
inductive CallStage where
  | outside
  /-- admitted, before `operation` -/
  | waiting
  | embedding
  /-- before the last section of `embed` -/
  | leaving
  | closing
  | nativeClosing
  /-- before the last section of a close -/
  | settling
deriving DecidableEq, Repr

/-- The call is counted in `active`. -/
def CallStage.inside : CallStage → Bool
  | .waiting | .embedding | .leaving => true
  | _ => false

/-- The thread has taken it upon itself to close. -/
def CallStage.closes : CallStage → Bool
  | .closing | .nativeClosing | .settling => true
  | _ => false

/-- `_EmbeddingLifecycleState` with the mark of the engine; `requested` records that `close`
was called. -/
structure EmbeddingEngine where
  active : Nat
  closePending : Bool
  idle : Bool
  operation : Option Nat
  closed : Bool
  stage : Nat → CallStage
  requested : Bool

namespace EmbeddingEngine

def initial : EmbeddingEngine :=
  { active := 0
    closePending := false
    idle := true
    operation := none
    closed := false
    stage := fun _ => .outside
    requested := false }

def goto (s : EmbeddingEngine) (t : Nat) (stage : CallStage) : EmbeddingEngine :=
  { s with stage := Function.update s.stage t stage }

/-- What a thread can do next. -/
inductive Event where
  | embed (t : Nat)
  | acquire (t : Nat)
  /-- an exception while it waits for `operation` -/
  | abandon (t : Nat)
  /-- the native embedding returns or raises -/
  | endEmbed (t : Nat)
  | leave (t : Nat)
  | close (t : Nat)
  | startClose (t : Nat)
  | markClosed (t : Nat)
  /-- the native close returns or raises -/
  | endClose (t : Nat)
  | settle (t : Nat)
deriving DecidableEq, Repr

/-- The last section of `embed`. -/
def leaveSection (s : EmbeddingEngine) (t : Nat) : EmbeddingEngine :=
  let s := { s with active := s.active - 1 }
  if s.active = 0 then
    if s.closePending then s.goto t .closing
    else { s.goto t .outside with idle := true }
  else s.goto t .outside

/-- The first section of `close`. -/
def closeSection (s : EmbeddingEngine) (t : Nat) : EmbeddingEngine :=
  if s.closed then { s with idle := true, requested := true }
  else
    let s := { s with closePending := true, idle := false, requested := true }
    if 0 < s.active then s else s.goto t .closing

def step (s : EmbeddingEngine) : Event → Option EmbeddingEngine
  | .embed t =>
    if s.stage t = .outside then
      -- refused with an exception once a close is pending or done
      if s.closePending ∨ s.closed then some s
      else some { s.goto t .waiting with active := s.active + 1, idle := false }
    else none
  | .acquire t =>
    if s.stage t = .waiting ∧ s.operation = none then
      some { s.goto t .embedding with operation := some t }
    else none
  | .abandon t => if s.stage t = .waiting then some (s.goto t .leaving) else none
  | .endEmbed t =>
    if s.stage t = .embedding then some { s.goto t .leaving with operation := none } else none
  | .leave t => if s.stage t = .leaving then some (s.leaveSection t) else none
  | .close t => if s.stage t = .outside then some (s.closeSection t) else none
  | .startClose t => if s.stage t = .closing then some (s.goto t .nativeClosing) else none
  | .markClosed t => if s.stage t = .nativeClosing then some { s with closed := true } else none
  | .endClose t =>
    if s.stage t = .nativeClosing then some { s.goto t .settling with closed := true } else none
  | .settle t =>
    if s.stage t = .settling then
      some { s.goto t .outside with closePending := false, idle := true }
    else none

/-! ### The invariant -/

/-- The admitted calls, counted. -/
def Counts (s : EmbeddingEngine) : Prop :=
  Tally (fun t => (s.stage t).inside = true) s.active

structure Sound (s : EmbeddingEngine) : Prop where
  counts : s.Counts
  holder : ∀ t, s.operation = some t ↔ s.stage t = .embedding
  /-- who closes has seen that no call is active -/
  closes : ∀ t, (s.stage t).closes = true → s.active = 0 ∧ (s.closePending = true ∨ s.closed = true)
  settling : ∀ t, s.stage t = .settling → s.closed = true
  closed : s.closed = true → s.active = 0
  idle : s.idle = true → s.active = 0
  requested : s.requested = true → s.closePending = true ∨ s.closed = true
  /-- a pending close has somebody to perform it -/
  pending : s.closePending = true → s.active = 0 → s.closed = false →
    ∃ t, (s.stage t).closes = true

variable {s s' : EmbeddingEngine} {t : Nat} {stage : CallStage}

theorem Counts.inside_false (h : s.Counts) (hactive : s.active = 0) (t : Nat) :
    (s.stage t).inside = false := by
  have hnot := (Tally.eq_zero_iff h).mp hactive t
  simpa using hnot

/-- A thread moves between stages that count alike. -/
theorem Counts.move (h : s.Counts) (hsame : stage.inside = (s.stage t).inside)
    (hactive : s'.active = s.active) (hstage : s'.stage = Function.update s.stage t stage) :
    s'.Counts := by
  show Tally _ s'.active
  rw [hactive]
  apply Tally.congr h
  intro u
  rw [hstage]
  by_cases hu : u = t
  · rw [hu, Function.update_self, hsame]
  · rw [Function.update_of_ne hu]

theorem Counts.enter (h : s.Counts) (hout : (s.stage t).inside = false) (hin : stage.inside = true)
    (hactive : s'.active = s.active + 1) (hstage : s'.stage = Function.update s.stage t stage) :
    s'.Counts := by
  show Tally _ s'.active
  rw [hactive]
  apply Tally.enter h (a := t)
  · simp [hout]
  · intro u
    rw [hstage]
    by_cases hu : u = t
    · simp [hu, hin]
    · simp [hu]

theorem Counts.active_eq_zero (h : s.Counts) (hnone : ∀ t, (s.stage t).inside = false) :
    s.active = 0 := by
  apply (Tally.eq_zero_iff h).mpr
  intro t
  simp [hnone t]

theorem Counts.pos (h : s.Counts) (hin : (s.stage t).inside = true) : 0 < s.active :=
  Tally.pos h hin

theorem Counts.exit (h : s.Counts) (hin : (s.stage t).inside = true) (hout : stage.inside = false)
    (hactive : s'.active = s.active - 1) (hstage : s'.stage = Function.update s.stage t stage) :
    s'.Counts := by
  show Tally _ s'.active
  rw [hactive]
  apply Tally.leave h hin
  intro u
  rw [hstage]
  by_cases hu : u = t
  · simp [hu, hout]
  · simp [hu]

theorem sound_initial : Sound initial where
  counts := Tally.none (by simp [initial, CallStage.inside])
  holder t := by simp [initial]
  closes t h := by simp [initial, CallStage.closes] at h
  settling t h := by simp [initial] at h
  closed _ := rfl
  idle _ := rfl
  requested h := by simp [initial] at h
  pending h := by simp [initial] at h

/-- No call is active, and the engine is about to be closed or marked. -/
def Draining (s : EmbeddingEngine) : Prop :=
  s.active = 0 ∧ (s.closePending = true ∨ s.closed = true)

/-- A step that moves one thread keeps the invariant if what it does to this thread and to
the shared fields agrees with it. -/
theorem Sound.update (h : s.Sound) (t : Nat) (stage : CallStage) (hstage : s'.stage = Function.update s.stage t stage)
    (hcounts : s'.Counts) (hself : s'.operation = some t ↔ stage = .embedding)
    (hothers : ∀ u, u ≠ t → (s'.operation = some u ↔ s.operation = some u))
    (hcloses : stage.closes = true → s'.Draining) (hdraining : s.Draining → s'.Draining)
    (hsettling : stage = .settling → s'.closed = true) (hmark : s.closed = true → s'.closed = true)
    (hclosed : s'.closed = true → s'.active = 0) (hidle : s'.idle = true → s'.active = 0)
    (hrequested : s'.requested = true → s'.closePending = true ∨ s'.closed = true)
    (hpending : s'.closePending = true → s'.active = 0 → s'.closed = false →
      stage.closes = true ∨ ∃ u, u ≠ t ∧ (s.stage u).closes = true) : s'.Sound := by
  have hat : s'.stage t = stage := by rw [hstage, Function.update_self]
  have haway : ∀ u, u ≠ t → s'.stage u = s.stage u := by
    intro u hu
    rw [hstage, Function.update_of_ne hu]
  refine ⟨hcounts, ?_, ?_, ?_, hclosed, hidle, hrequested, ?_⟩
  · intro u
    by_cases hu : u = t
    · rw [hu, hat, hself]
    · rw [haway u hu, hothers u hu, h.holder]
  · intro u hu
    by_cases hut : u = t
    · rw [hut, hat] at hu
      exact hcloses hu
    · rw [haway u hut] at hu
      exact hdraining (h.closes u hu)
  · intro u hu
    by_cases hut : u = t
    · rw [hut, hat] at hu
      exact hsettling hu
    · rw [haway u hut] at hu
      exact hmark (h.settling u hu)
  · intro hp hactive hopen
    rcases hpending hp hactive hopen with hc | ⟨u, hu, hc⟩
    · exact ⟨t, by rw [hat]; exact hc⟩
    · exact ⟨u, by rw [haway u hu]; exact hc⟩

/-- A move between two stages outside the native calls that count alike. -/
theorem Sound.move (h : s.Sound) (hinside : stage.inside = (s.stage t).inside)
    (hcloses : stage.closes = (s.stage t).closes) (hnew : stage ≠ .embedding)
    (hold : s.stage t ≠ .embedding) (hsettling : stage ≠ .settling) : (s.goto t stage).Sound := by
  apply h.update t stage rfl
  · exact h.counts.move hinside rfl rfl
  · exact iff_of_false (fun ho => hold ((h.holder t).mp ho)) hnew
  · exact fun u _ => Iff.rfl
  · exact fun hc => h.closes t (hcloses ▸ hc)
  · exact id
  · exact fun hs => absurd hs hsettling
  · exact id
  · exact h.closed
  · exact h.idle
  · exact h.requested
  · intro hp hactive hopen
    obtain ⟨u, hu⟩ := h.pending hp hactive hopen
    by_cases hut : u = t
    · exact .inl (by rw [hcloses, ← hut]; exact hu)
    · exact .inr ⟨u, hut, hu⟩

/-! ### What the steps keep -/

theorem goto_self (s : EmbeddingEngine) (t : Nat) : s.goto t (s.stage t) = s := by
  show { s with stage := Function.update s.stage t (s.stage t) } = s
  rw [Function.update_eq_self]

theorem Sound.embed (h : s.Sound) (hout : s.stage t = .outside)
    (hopen : ¬ (s.closePending = true ∨ s.closed = true)) :
    Sound { s.goto t .waiting with active := s.active + 1, idle := false } := by
  have hfree : ¬ s.Draining := fun hd => hopen hd.2
  apply h.update t .waiting rfl
  · exact h.counts.enter (by rw [hout]; rfl) rfl rfl rfl
  · exact iff_of_false (fun ho => by simp [(h.holder t).mp ho] at hout) (by decide)
  · exact fun u _ => Iff.rfl
  · exact fun hc => absurd hc (by decide)
  · exact fun hd => absurd hd hfree
  · exact fun hs => absurd hs (by decide)
  · exact id
  · exact fun hc => absurd (.inr hc) hopen
  · exact fun hi => absurd hi Bool.false_ne_true
  · exact h.requested
  · exact fun hp => absurd (.inl hp) hopen

theorem Sound.acquire (h : s.Sound) (hwait : s.stage t = .waiting) (hfree : s.operation = none) :
    Sound { s.goto t .embedding with operation := some t } := by
  apply h.update t .embedding rfl
  · exact h.counts.move (by rw [hwait]; rfl) rfl rfl
  · exact iff_of_true rfl rfl
  · intro u hu
    show some t = some u ↔ s.operation = some u
    rw [hfree]
    simp [hu.symm]
  · exact fun hc => absurd hc (by decide)
  · exact id
  · exact fun hs => absurd hs (by decide)
  · exact id
  · exact h.closed
  · exact h.idle
  · exact h.requested
  · intro hp hactive hopen
    obtain ⟨u, hu⟩ := h.pending hp hactive hopen
    refine .inr ⟨u, ?_, hu⟩
    rintro rfl
    simp [hwait, CallStage.closes] at hu

theorem Sound.endEmbed (h : s.Sound) (hat : s.stage t = .embedding) :
    Sound { s.goto t .leaving with operation := none } := by
  have hmine : s.operation = some t := (h.holder t).mpr hat
  apply h.update t .leaving rfl
  · exact h.counts.move (by rw [hat]; rfl) rfl rfl
  · exact iff_of_false (by simp) (by decide)
  · intro u hu
    show none = some u ↔ s.operation = some u
    rw [hmine]
    simp [hu.symm]
  · exact fun hc => absurd hc (by decide)
  · exact id
  · exact fun hs => absurd hs (by decide)
  · exact id
  · exact h.closed
  · exact h.idle
  · exact h.requested
  · intro hp hactive hopen
    obtain ⟨u, hu⟩ := h.pending hp hactive hopen
    refine .inr ⟨u, ?_, hu⟩
    rintro rfl
    simp [hat, CallStage.closes] at hu

/-- A call that leaves was counted, so nobody has marked the engine or is about to. -/
theorem Sound.leaving (h : s.Sound) (hat : s.stage t = .leaving) :
    0 < s.active ∧ s.closed = false ∧ ¬ s.Draining := by
  have hpos : 0 < s.active := h.counts.pos (by rw [hat]; rfl)
  refine ⟨hpos, ?_, ?_⟩
  · by_contra hclosed
    have := h.closed (by simpa using hclosed)
    omega
  · intro hd
    have := hd.1
    omega

theorem Sound.leaveSection (h : s.Sound) (hat : s.stage t = .leaving) :
    (s.leaveSection t).Sound := by
  obtain ⟨hpos, hopen, hfree⟩ := h.leaving hat
  have hnot : ¬ s.operation = some t := fun ho => by simp [(h.holder t).mp ho] at hat
  have hin : (s.stage t).inside = true := by rw [hat]; rfl
  rw [EmbeddingEngine.leaveSection]
  by_cases hlast : s.active - 1 = 0
  · by_cases hpending : s.closePending = true
    · -- the last call takes the pending close upon itself
      rw [if_pos (by exact hlast), if_pos (by exact hpending)]
      apply h.update t .closing rfl
      · exact h.counts.exit hin rfl rfl rfl
      · exact iff_of_false hnot (by decide)
      · exact fun u _ => Iff.rfl
      · exact fun _ => ⟨hlast, .inl hpending⟩
      · exact fun hd => absurd hd hfree
      · exact fun hs => absurd hs (by decide)
      · exact id
      · exact fun _ => hlast
      · exact fun _ => hlast
      · exact h.requested
      · exact fun _ _ _ => .inl rfl
    · rw [if_pos (by exact hlast), if_neg (by exact hpending)]
      apply h.update t .outside rfl
      · exact h.counts.exit hin rfl rfl rfl
      · exact iff_of_false hnot (by decide)
      · exact fun u _ => Iff.rfl
      · exact fun hc => absurd hc (by decide)
      · exact fun hd => absurd hd hfree
      · exact fun hs => absurd hs (by decide)
      · exact id
      · exact fun _ => hlast
      · exact fun _ => hlast
      · exact h.requested
      · exact fun hp => absurd hp hpending
  · rw [if_neg (by exact hlast)]
    apply h.update t .outside rfl
    · exact h.counts.exit hin rfl rfl rfl
    · exact iff_of_false hnot (by decide)
    · exact fun u _ => Iff.rfl
    · exact fun hc => absurd hc (by decide)
    · exact fun hd => absurd hd hfree
    · exact fun hs => absurd hs (by decide)
    · exact id
    · exact fun hc => absurd hc (by simp [goto, hopen])
    · intro hi
      have := h.idle hi
      omega
    · exact h.requested
    · exact fun _ hzero => absurd hzero hlast

theorem Sound.closeSection (h : s.Sound) (hout : s.stage t = .outside) :
    (s.closeSection t).Sound := by
  have hnot : ¬ s.operation = some t := fun ho => by simp [(h.holder t).mp ho] at hout
  have hstay : s.stage = Function.update s.stage t .outside := by
    rw [← hout, Function.update_eq_self]
  rw [EmbeddingEngine.closeSection]
  by_cases hclosed : s.closed = true
  · rw [if_pos hclosed]
    apply h.update t .outside
    · exact hstay
    · exact h.counts
    · exact iff_of_false hnot (by decide)
    · exact fun u _ => Iff.rfl
    · exact fun hc => absurd hc (by decide)
    · exact id
    · exact fun hs => absurd hs (by decide)
    · exact id
    · exact h.closed
    · exact fun _ => h.closed hclosed
    · exact fun _ => .inr hclosed
    · exact fun _ _ ho => absurd ho (by simp [hclosed])
  · rw [if_neg hclosed]
    by_cases hactive : 0 < s.active
    · -- calls are active: the last of them will close
      rw [if_pos (by exact hactive)]
      apply h.update t .outside
      · exact hstay
      · exact h.counts
      · exact iff_of_false hnot (by decide)
      · exact fun u _ => Iff.rfl
      · exact fun hc => absurd hc (by decide)
      · exact fun hd => absurd hd.1 hactive.ne'
      · exact fun hs => absurd hs (by decide)
      · exact id
      · exact h.closed
      · exact fun hi => absurd hi Bool.false_ne_true
      · exact fun _ => .inl rfl
      · exact fun _ hzero => absurd hzero hactive.ne'
    · rw [if_neg (by exact hactive)]
      apply h.update t .closing rfl
      · exact h.counts.move (by rw [hout]; rfl) rfl rfl
      · exact iff_of_false hnot (by decide)
      · exact fun u _ => Iff.rfl
      · exact fun _ => ⟨Nat.eq_zero_of_not_pos hactive, .inl rfl⟩
      · exact fun hd => ⟨hd.1, .inl rfl⟩
      · exact fun hs => absurd hs (by decide)
      · exact id
      · exact h.closed
      · exact fun hi => absurd hi Bool.false_ne_true
      · exact fun _ => .inl rfl
      · exact fun _ _ _ => .inl rfl

/-- The native close marks the engine. -/
theorem Sound.mark (h : s.Sound) (stage : CallStage) (hcloses : (s.stage t).closes = true)
    (hstage : stage.closes = true) :
    Sound { s.goto t stage with closed := true } := by
  have hdrained := h.closes t hcloses
  have hnot : ¬ s.operation = some t := by
    intro ho
    simp [(h.holder t).mp ho, CallStage.closes] at hcloses
  have hinside : stage.inside = (s.stage t).inside := by
    rw [h.counts.inside_false hdrained.1 t]
    cases stage <;> simp_all [CallStage.closes, CallStage.inside]
  apply h.update t stage rfl
  · exact h.counts.move hinside rfl rfl
  · refine iff_of_false hnot ?_
    rintro rfl
    simp [CallStage.closes] at hstage
  · exact fun u _ => Iff.rfl
  · exact fun _ => ⟨hdrained.1, .inr rfl⟩
  · exact fun hd => ⟨hd.1, .inr rfl⟩
  · exact fun _ => rfl
  · exact fun _ => rfl
  · exact fun _ => hdrained.1
  · exact h.idle
  · exact fun _ => .inr rfl
  · exact fun _ _ ho => absurd ho.symm Bool.false_ne_true

theorem Sound.settle (h : s.Sound) (hat : s.stage t = .settling) :
    Sound { s.goto t .outside with closePending := false, idle := true } := by
  have hclosed := h.settling t hat
  have hzero := h.closed hclosed
  apply h.update t .outside rfl
  · exact h.counts.move (by rw [hat]; rfl) rfl rfl
  · exact iff_of_false (fun ho => by simp [(h.holder t).mp ho] at hat) (by decide)
  · exact fun u _ => Iff.rfl
  · exact fun hc => absurd hc (by decide)
  · exact fun hd => ⟨hd.1, .inr hclosed⟩
  · exact fun hs => absurd hs (by decide)
  · exact id
  · exact h.closed
  · exact fun _ => hzero
  · exact fun _ => .inr hclosed
  · exact fun hp => absurd hp Bool.false_ne_true

theorem Sound.step (h : s.Sound) {e : Event} (he : step s e = some s') : s'.Sound := by
  cases e with
  | embed t =>
    rw [EmbeddingEngine.step] at he
    split_ifs at he with hout hclosing
    · exact Option.some.inj he ▸ h
    · exact Option.some.inj he ▸ h.embed hout hclosing
  | acquire t =>
    rw [EmbeddingEngine.step] at he
    split_ifs at he with hready
    exact Option.some.inj he ▸ h.acquire hready.1 hready.2
  | abandon t =>
    rw [EmbeddingEngine.step] at he
    split_ifs at he with hwait
    obtain rfl := Option.some.inj he
    apply h.move <;> simp [hwait, CallStage.inside, CallStage.closes]
  | endEmbed t =>
    rw [EmbeddingEngine.step] at he
    split_ifs at he with hat
    exact Option.some.inj he ▸ h.endEmbed hat
  | leave t =>
    rw [EmbeddingEngine.step] at he
    split_ifs at he with hat
    exact Option.some.inj he ▸ h.leaveSection hat
  | close t =>
    rw [EmbeddingEngine.step] at he
    split_ifs at he with hout
    exact Option.some.inj he ▸ h.closeSection hout
  | startClose t =>
    rw [EmbeddingEngine.step] at he
    split_ifs at he with hat
    obtain rfl := Option.some.inj he
    apply h.move <;> simp [hat, CallStage.inside, CallStage.closes]
  | markClosed t =>
    rw [EmbeddingEngine.step] at he
    split_ifs at he with hat
    have hmark := h.mark .nativeClosing (by rw [hat]; rfl) rfl
    rw [← hat, goto_self] at hmark
    exact Option.some.inj he ▸ hmark
  | endClose t =>
    rw [EmbeddingEngine.step] at he
    split_ifs at he with hat
    exact Option.some.inj he ▸ h.mark .settling (by rw [hat]; rfl) rfl
  | settle t =>
    rw [EmbeddingEngine.step] at he
    split_ifs at he with hat
    exact Option.some.inj he ▸ h.settle hat

theorem leaveSection_requested (s : EmbeddingEngine) (t : Nat) :
    (s.leaveSection t).requested = s.requested := by
  simp only [leaveSection]
  split_ifs <;> rfl

theorem closeSection_requested (s : EmbeddingEngine) (t : Nat) :
    (s.closeSection t).requested = true := by
  simp only [closeSection]
  split_ifs <;> rfl

/-- A request is never forgotten. -/
theorem step_requested {e : Event} (he : step s e = some s') (h : s.requested = true) :
    s'.requested = true := by
  cases e with
  | leave t =>
    rw [step] at he
    split_ifs at he with hat
    rw [← Option.some.inj he, leaveSection_requested]
    exact h
  | close t =>
    rw [step] at he
    split_ifs at he with hat
    rw [← Option.some.inj he, closeSection_requested]
  | _ =>
    rw [step] at he
    split_ifs at he <;> exact Option.some.inj he ▸ h

theorem run_requested {es : List Event} (hrun : Transition.run step s es = some s')
    (hclose : Event.close t ∈ es) : s'.requested = true := by
  obtain ⟨before, after, rfl⟩ := List.append_of_mem hclose
  obtain ⟨u, -, hrest⟩ := Transition.run_append_eq_some.mp hrun
  obtain ⟨v, hstep, hafter⟩ := Transition.run_cons_eq_some.mp hrest
  refine Transition.run_always (I := fun s => s.requested = true)
    (fun s e s' hs he => step_requested he hs) ?_ hafter
  rw [step] at hstep
  split_ifs at hstep with hout
  rw [← Option.some.inj hstep, closeSection_requested]

theorem run_sound {es : List Event} (hrun : Transition.run step initial es = some s) : s.Sound :=
  Transition.run_always (fun _ _ _ hs he => hs.step he) sound_initial hrun

/-! ### Every order of calls -/

/-- **Native calls exclude each other, a close request shuts the engine to new calls and is
performed by the last call that leaves, and an idle engine has no call.**  The last part says
that nothing is left over: with every thread back outside, a requested close is done. -/
theorem embedding_lifecycle {es : List Event} (hrun : Transition.run step initial es = some s) :
    (∀ t u, s.stage t = .embedding → s.stage u = .embedding → t = u)
      ∧ (∀ t u, s.stage t = .embedding → s.stage u ≠ .nativeClosing)
      ∧ (s.idle = true → ∀ t, (s.stage t).inside = false)
      ∧ ((∃ t, Event.close t ∈ es) →
          (∀ u s', step s (.embed u) = some s' → s' = s)
            ∧ (∀ u s', step s (.leave u) = some s' → (∀ v, (s'.stage v).inside = false) →
                s'.stage u = .closing)
            ∧ ((∀ t, s.stage t = .outside) → s.closed = true)) := by
  have h := run_sound hrun
  refine ⟨?_, ?_, ?_, ?_⟩
  · intro t u ht hu
    have ho := (h.holder t).mpr ht
    rw [(h.holder u).mpr hu] at ho
    exact (Option.some.inj ho).symm
  · intro t u ht hu
    have hzero := (h.closes u (by rw [hu]; rfl)).1
    have hfalse := h.counts.inside_false hzero t
    rw [ht] at hfalse
    exact absurd hfalse (by decide)
  · exact fun hidle => h.counts.inside_false (h.idle hidle)
  · rintro ⟨t, hclose⟩
    have hrequested := h.requested (run_requested hrun hclose)
    refine ⟨?_, ?_, ?_⟩
    · intro u s' he
      rw [step] at he
      split_ifs at he with hout
      exact (Option.some.inj he).symm
    · intro u s' he hnone
      rw [step] at he
      split_ifs at he with hat
      obtain ⟨hpos, hopen, -⟩ := h.leaving hat
      obtain rfl := Option.some.inj he
      have hpending : s.closePending = true := by simpa [hopen] using hrequested
      have hlast : s.active - 1 = 0 := by
        by_contra hmore
        have hzero := (h.leaveSection hat).counts.active_eq_zero hnone
        rw [leaveSection, if_neg (by exact hmore)] at hzero
        exact hmore hzero
      rw [leaveSection, if_pos (by exact hlast), if_pos (by exact hpending)]
      exact Function.update_self ..
    · intro hall
      by_contra hopen
      have hopen : s.closed = false := by simpa using hopen
      have hpending : s.closePending = true := by simpa [hopen] using hrequested
      have hzero : s.active = 0 := by
        apply h.counts.active_eq_zero
        intro v
        rw [hall v]
        rfl
      obtain ⟨u, hu⟩ := h.pending hpending hzero hopen
      rw [hall u] at hu
      exact absurd hu (by decide)

/-- A close is requested during a call: the call that waits behind it is served, the last one
closes. -/
theorem embedding_lifecycle_deferred :
    ∃ s, Transition.run step initial
        [.embed 0, .embed 1, .acquire 0, .close 2, .endEmbed 0, .leave 0, .abandon 1] = some s ∧
      ∃ s', step s (.leave 1) = some s' ∧ s'.stage 1 = .closing := by
  refine ⟨_, rfl, _, rfl, ?_⟩
  have hrun : Transition.run step initial
      [.embed 0, .embed 1, .acquire 0, .close 2, .endEmbed 0, .leave 0, .abandon 1] = some _ := rfl
  apply ((embedding_lifecycle hrun).2.2.2 ⟨2, by simp⟩).2.1 1 _ rfl
  intro v
  by_cases h1 : v = 1
  · rw [h1]
    rfl
  · by_cases h0 : v = 0
    · rw [h0]
      rfl
    · simp [goto, initial, leaveSection, closeSection, Function.update, h0, h1, CallStage.inside]

end EmbeddingEngine

end InferBridge
