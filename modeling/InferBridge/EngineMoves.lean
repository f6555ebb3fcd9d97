/-
InferBridge/EngineMoves.lean

Where engines come from: what one segment of a task may do to the engines
that are installed, waited for or held as a replacement.

Design.  `EngineMoves s s' t m last` compares two states of a segment of task `t`
about model `m`: what `t` owns it has owned before, an engine that is newly
installed is a finished build of `t`, and it is installed for `m`.  In the
part of a segment before its `last` step nothing is built and no context
change ends; so the parts compose (`EngineMoves.trans`).  One lemma for each
function of the source, `event_moves` for one event.
-/
import InferBridge.DeviceSwitch

namespace InferBridge

variable {μ δ : Type*}

/-- The task waits for this engine, or holds it as its replacement. -/
def Manager.Owns (s : Manager μ δ) (t e : Nat) : Prop :=
  (s.task t).future = some e ∨ (s.task t).replacement = some e

/-- The model that a load task or a request works for. -/
def Activity.served : Activity μ δ → Option μ
  | .load m _ _ | .request m _ _ => some m
  | .absent | .configure _ _ => none

/-- What the segment of task `t`, about the model `m`, has done so far. -/
structure EngineMoves [DecidableEq μ] (s s' : Manager μ δ) (t : Nat) (m : μ) (last : Prop) : Prop where
  others : ∀ t', t' ≠ t → s'.task t' = s.task t'
  served : (s'.task t).activity.served = (s.task t).activity.served ∨
    (s'.task t).activity.served = some m
  owned : ∀ e, s'.Owns t e → s.Owns t e ∨
    last ∧ e = s.nextEngine ∧ s'.nextEngine = s.nextEngine + 1
  ready : ∀ e, (s'.task t).replacement = some e → (s.task t).replacement = some e ∨
    (s.task t).future = some e ∧ (s.engine e).build = .built
  installed : ∀ m' e, s'.engines m' = some e → s.engines m' = some e ∨
    m' = m ∧ ((s.task t).replacement = some e ∨
      (s.task t).future = some e ∧ (s.engine e).build = .built)
  engine : ∀ e, ¬ (last ∧ e = s.nextEngine) → (s'.engine e).device = (s.engine e).device ∧
    (s'.engine e).build = (s.engine e).build
  nextEngine : s'.nextEngine = s.nextEngine ∨ last ∧ s'.nextEngine = s.nextEngine + 1
  contextChanges : s'.contextChanges = s.contextChanges ∨
    last ∧ (s'.task t).activity = .configure m .finished ∧
      s'.contextChanges = Function.update s.contextChanges m false

variable {cfg : ManagerSettings μ δ} {s s' s'' : Manager μ δ} {t : Nat} {m : μ} {last : Prop}

section
variable [DecidableEq μ]

theorem EngineMoves.refl : EngineMoves s s t m last :=
  ⟨fun _ _ => rfl, .inl rfl, fun _ h => .inl h, fun _ h => .inl h, fun _ _ h => .inl h,
    fun _ _ => ⟨rfl, rfl⟩, .inl rfl, .inl rfl⟩

/-- The part before the last step, and the rest. -/
theorem EngineMoves.trans (h : EngineMoves s s' t m False) (h' : EngineMoves s' s'' t m last) :
    EngineMoves s s'' t m last := by
  have hnext : s'.nextEngine = s.nextEngine := by simpa using h.nextEngine
  have howned : ∀ e, s'.Owns t e → s.Owns t e := by simpa using h.owned
  have hcontext : s'.contextChanges = s.contextChanges := by simpa using h.contextChanges
  have hengine (e : Nat) : (s'.engine e).device = (s.engine e).device ∧
      (s'.engine e).build = (s.engine e).build := h.engine e (by simp)
  have hbuilt (e : Nat) : (s'.task t).replacement = some e ∨
      (s'.task t).future = some e ∧ (s'.engine e).build = .built →
        (s.task t).replacement = some e ∨
          (s.task t).future = some e ∧ (s.engine e).build = .built := by
    rintro (hreplacement | ⟨hfuture, hbuild⟩)
    · exact h.ready e hreplacement
    · rcases howned e (.inl hfuture) with hold | hold
      · exact .inr ⟨hold, by rw [← (hengine e).2, hbuild]⟩
      · exact .inl hold
  refine ⟨?_, ?_, ?_, ?_, ?_, ?_, ?_, ?_⟩
  · intro t' hne
    rw [h'.others t' hne, h.others t' hne]
  · rcases h'.served with hsame | hserved
    · rw [hsame]
      exact h.served
    · exact .inr hserved
  · intro e he
    rcases h'.owned e he with hmid | hfresh
    · exact .inl (howned e hmid)
    · right
      rwa [← hnext]
  · intro e he
    exact hbuilt e (h'.ready e he)
  · intro m' e he
    rcases h'.installed m' e he with hmid | ⟨rfl, hmine⟩
    · rcases h.installed m' e hmid with hold | hnew
      · exact .inl hold
      · exact .inr hnew
    · exact .inr ⟨rfl, hbuilt e hmine⟩
  · intro e he
    have hend := h'.engine e (by rwa [hnext])
    exact ⟨hend.1.trans (hengine e).1, hend.2.trans (hengine e).2⟩
  · rw [← hnext]
    exact h'.nextEngine
  · rw [← hcontext]
    exact h'.contextChanges

/-- A step that concerns neither the engines nor what the task owns. -/
theorem EngineMoves.same (hothers : ∀ t', t' ≠ t → s'.task t' = s.task t')
    (hserved : (s'.task t).activity.served = (s.task t).activity.served ∨
      (s'.task t).activity.served = some m)
    (hfuture : (s'.task t).future = (s.task t).future)
    (hreplacement : (s'.task t).replacement = (s.task t).replacement)
    (hengines : s'.engines = s.engines) (hengine : s'.engine = s.engine)
    (hnext : s'.nextEngine = s.nextEngine) (hcontext : s'.contextChanges = s.contextChanges) :
    EngineMoves s s' t m last := by
  refine ⟨hothers, hserved, ?_, ?_, ?_, ?_, .inl hnext, .inl hcontext⟩
  · intro e he
    left
    rwa [Manager.Owns, hfuture, hreplacement] at he
  · intro e he
    left
    rwa [hreplacement] at he
  · intro m' e he
    left
    rwa [hengines] at he
  · intro e _
    rw [hengine]
    exact ⟨rfl, rfl⟩

/-! ### Primitives -/

theorem moves_goTo {activity : Activity μ δ}
    (hserved : activity.served = (s.task t).activity.served ∨ activity.served = some m) :
    EngineMoves s (s.goTo t activity) t m last := by
  apply EngineMoves.same <;> simp +contextual [Manager.goTo, hserved]

theorem moves_acquireLoadLock : EngineMoves s (s.acquireLoadLock t) t m last := by
  apply EngineMoves.same <;> simp +contextual [Manager.acquireLoadLock]

theorem moves_releaseLoadLock : EngineMoves s (s.releaseLoadLock t) t m last := by
  unfold Manager.releaseLoadLock
  split
  · apply EngineMoves.same <;> simp +contextual
  · exact .refl

theorem moves_acquireLock (l : Nat) : EngineMoves s (s.acquireLock t l) t m last := by
  apply EngineMoves.same <;> simp +contextual [Manager.acquireLock]

theorem moves_releaseLock : EngineMoves s (s.releaseLock t) t m last := by
  unfold Manager.releaseLock
  split
  · exact .refl
  · apply EngineMoves.same <;> simp +contextual

theorem moves_getLock (m' : μ) : EngineMoves s (s.getLock m').1 t m last := by
  unfold Manager.getLock
  split
  · exact .refl
  · apply EngineMoves.same <;> simp [Manager.renewLock]

theorem moves_close (e : Nat) : EngineMoves s (s.close e) t m last := by
  refine ⟨fun _ _ => rfl, .inl rfl, fun _ h => .inl h, fun _ h => .inl h, fun _ _ h => .inl h,
    ?_, .inl rfl, .inl rfl⟩
  intro e' _
  simp only [Manager.close, Function.update_apply]
  split
  · next he => rw [he]; exact ⟨rfl, rfl⟩
  · exact ⟨rfl, rfl⟩

theorem moves_closeReplacement : EngineMoves s (s.closeReplacement t) t m last := by
  unfold Manager.closeReplacement
  split
  · exact .refl
  · next r hr =>
    have hdrop : EngineMoves s (s.dropReplacement t) t m False := by
      refine ⟨?_, .inl ?_, ?_, ?_, fun _ _ h => .inl h, fun _ _ => ⟨rfl, rfl⟩, .inl rfl, .inl rfl⟩
      · intro t' hne
        simp [Manager.dropReplacement, hne]
      · simp [Manager.dropReplacement]
      · rintro e (hfuture | hreplacement)
        · exact .inl (.inl (by simpa [Manager.dropReplacement] using hfuture))
        · simp [Manager.dropReplacement] at hreplacement
      · intro e hreplacement
        simp [Manager.dropReplacement] at hreplacement
    exact hdrop.trans (moves_close r)

/-- Take the engine that has been built. -/
theorem moves_takeFuture (hbuilt : s.awaited t = .built) :
    EngineMoves s (s.takeFuture t) t m last := by
  have howned (e : Nat) (he : ((s.takeFuture t).task t).replacement = some e) :
      (s.task t).future = some e := by simpa [Manager.takeFuture] using he
  refine ⟨?_, .inl ?_, ?_, ?_, fun _ _ h => .inl h, fun _ _ => ⟨rfl, rfl⟩, .inl rfl, .inl rfl⟩
  · intro t' hne
    simp [Manager.takeFuture, hne]
  · simp [Manager.takeFuture]
  · rintro e (hfuture | hreplacement)
    · simp [Manager.takeFuture] at hfuture
    · exact .inl (.inl (howned e hreplacement))
  · intro e hreplacement
    have hfuture := howned e hreplacement
    exact .inr ⟨hfuture, by rw [← Manager.awaited_eq hfuture, hbuilt]⟩

theorem moves_dropFuture : EngineMoves s (s.dropFuture t) t m last := by
  refine ⟨?_, .inl ?_, ?_, ?_, fun _ _ h => .inl h, fun _ _ => ⟨rfl, rfl⟩, .inl rfl, .inl rfl⟩
  · intro t' hne
    simp [Manager.dropFuture, hne]
  · simp [Manager.dropFuture]
  · rintro e (hfuture | hreplacement)
    · simp [Manager.dropFuture] at hfuture
    · exact .inl (.inr (by simpa [Manager.dropFuture] using hreplacement))
  · intro e hreplacement
    exact .inl (by simpa [Manager.dropFuture] using hreplacement)

theorem moves_popEngine (m' : μ) : EngineMoves s (s.popEngine m') t m last := by
  refine ⟨fun _ _ => rfl, .inl rfl, fun _ h => .inl h, fun _ h => .inl h, ?_,
    fun _ _ => ⟨rfl, rfl⟩, .inl rfl, .inl rfl⟩
  intro m'' e he
  left
  by_cases hm : m'' = m'
  · subst hm
    simp [Manager.popEngine] at he
  · simpa [Manager.popEngine, hm] using he

/-- The replacement becomes the engine of the model. -/
theorem moves_putReplacement : EngineMoves s (s.putReplacement t m) t m last := by
  refine ⟨?_, .inl ?_, ?_, ?_, ?_, fun _ _ => ⟨rfl, rfl⟩, .inl rfl, .inl rfl⟩
  · intro t' hne
    simp [Manager.putReplacement, Manager.dropReplacement, hne]
  · simp [Manager.putReplacement]
  · rintro e (hfuture | hreplacement)
    · exact .inl (.inl (by simpa [Manager.putReplacement] using hfuture))
    · simp [Manager.putReplacement] at hreplacement
  · intro e hreplacement
    simp [Manager.putReplacement] at hreplacement
  · intro m' e he
    by_cases hm : m' = m
    · subst hm
      exact .inr ⟨rfl, .inl (by simpa [Manager.putReplacement] using he)⟩
    · exact .inl (by simpa [Manager.putReplacement, Manager.dropReplacement, hm] using he)

theorem moves_install (previous : Option Nat) : EngineMoves s (s.install t m previous) t m last := by
  have hput : EngineMoves s ((s.putReplacement t m).renewLock m) t m False :=
    moves_putReplacement.trans (by apply EngineMoves.same <;> simp [Manager.renewLock])
  cases previous with
  | none => exact hput.trans .refl
  | some e => exact hput.trans (moves_close e)

/-- Start a build: this is what a segment ends with. -/
theorem moves_startBuild (target : Option δ) : EngineMoves s (s.startBuild t target) t m True := by
  refine ⟨?_, .inl ?_, ?_, ?_, fun _ _ h => .inl h, ?_, .inr ⟨trivial, rfl⟩, .inl rfl⟩
  · intro t' hne
    simp [Manager.startBuild, hne]
  · simp [Manager.startBuild]
  · rintro e (hfuture | hreplacement)
    · simp only [Manager.startBuild, Function.update_self, Option.some.injEq] at hfuture
      exact .inr ⟨trivial, hfuture.symm, rfl⟩
    · exact .inl (.inr (by simpa [Manager.startBuild] using hreplacement))
  · intro e hreplacement
    exact .inl (by simpa [Manager.startBuild] using hreplacement)
  · intro e he
    have hne : e ≠ s.nextEngine := by simpa using he
    simp [Manager.startBuild, hne]

omit [DecidableEq μ] in
theorem startBuild_goTo (target : Option δ) (activity : Activity μ δ) :
    (s.startBuild t target).goTo t activity = (s.goTo t activity).startBuild t target := by
  simp [Manager.startBuild, Manager.goTo]

/-- Start a build and wait for it. -/
theorem moves_build (target : Option δ) {activity : Activity μ δ}
    (hserved : activity.served = (s.task t).activity.served ∨ activity.served = some m) :
    EngineMoves s ((s.startBuild t target).goTo t activity) t m True := by
  rw [startBuild_goTo]
  exact (moves_goTo hserved).trans (moves_startBuild target)

/-! ### Load tasks -/

theorem moves_leaveLoad : EngineMoves s (s.leaveLoad t) t m last :=
  (moves_closeReplacement.trans moves_releaseLock).trans moves_releaseLoadLock

variable {current : δ}

theorem moves_finishLoad : EngineMoves s (s.finishLoad t m current) t m last := by
  have hgoTo : EngineMoves s (s.goTo t (.load m current .finished)) t m False := moves_goTo (.inr rfl)
  apply hgoTo.trans
  apply EngineMoves.same <;> simp [Manager.finishLoad]

theorem moves_failLoad : EngineMoves s (s.failLoad t m current) t m last := by
  unfold Manager.failLoad
  split
  · exact moves_finishLoad
  · have hpop : EngineMoves s (s.popLock m) t m False := by
      apply EngineMoves.same <;> simp [Manager.popLock]
    exact hpop.trans moves_finishLoad

variable [DecidableEq δ]

theorem moves_loopTop (inspection : Manager.Inspection) :
    EngineMoves s (s.loopTop cfg t m current inspection) t m last := by
  unfold Manager.loopTop
  dsimp only
  split
  · exact moves_finishLoad
  · cases inspection with
    | unavailable => exact moves_failLoad
    | missing =>
      dsimp only
      split
      · exact moves_goTo (.inr rfl)
      · exact moves_failLoad
    | downloaded => exact moves_goTo (.inr rfl)

theorem EngineMoves.unlessRetargeted {goOn : Manager μ δ} (h : EngineMoves s goOn t m last)
    (inspection : Manager.Inspection) :
    EngineMoves s (s.unlessRetargeted cfg t m current inspection goOn) t m last := by
  unfold Manager.unlessRetargeted
  split
  · exact h
  · exact moves_leaveLoad.trans (moves_loopTop inspection)

theorem moves_compile (inspection : Manager.Inspection) :
    EngineMoves s (s.compile cfg t m current inspection) t m True :=
  (moves_build _ (.inr rfl)).unlessRetargeted inspection

theorem moves_afterLoadLock (inspection : Manager.Inspection) :
    EngineMoves s (s.afterLoadLock cfg t m current inspection) t m True := by
  apply EngineMoves.unlessRetargeted
  split
  · exact moves_leaveLoad.trans moves_finishLoad
  · cases inspection with
    | unavailable => exact moves_leaveLoad.trans moves_failLoad
    | missing => exact moves_goTo (.inr rfl)
    | downloaded => exact moves_compile _

theorem moves_afterConversion (first again : Manager.Inspection) :
    EngineMoves s (s.afterConversion cfg t m current first again) t m True := by
  cases first with
  | downloaded => exact moves_compile again
  | missing => exact moves_leaveLoad.trans moves_failLoad
  | unavailable => exact moves_leaveLoad.trans moves_failLoad

theorem moves_completeHandoff (previous : Option Nat) (inspection : Manager.Inspection) :
    EngineMoves s (s.completeHandoff cfg t m current previous inspection) t m last := by
  apply EngineMoves.unlessRetargeted
  exact ((moves_install previous).trans moves_leaveLoad).trans moves_finishLoad

theorem moves_handoff (inspection : Manager.Inspection) :
    EngineMoves s (s.handoff cfg t m current inspection) t m last := by
  unfold Manager.handoff
  split
  · exact moves_completeHandoff none inspection
  · exact (moves_getLock m).trans (moves_goTo (.inr rfl))

theorem moves_afterHandoffLock (previous l : Nat) (inspection : Manager.Inspection) :
    EngineMoves s (s.afterHandoffLock cfg t m current previous l inspection) t m last := by
  unfold Manager.afterHandoffLock
  dsimp only
  split
  · exact (moves_getLock m).trans (moves_completeHandoff _ inspection)
  · exact ((moves_getLock m).trans moves_releaseLock).trans (moves_handoff inspection)

theorem moves_afterBuild {inspection : Manager.Inspection}
    (hstep : s.afterBuild cfg t m current (s.awaited t) inspection = some s') :
    EngineMoves s s' t m last := by
  rcases eb : s.awaited t with - | - | - | - <;> rw [eb] at hstep
  case built =>
    obtain rfl := Option.some.inj hstep
    exact (moves_takeFuture eb).trans ((moves_handoff inspection).unlessRetargeted inspection)
  case failed =>
    obtain rfl := Option.some.inj hstep
    exact (moves_dropFuture.trans moves_leaveLoad).trans moves_failLoad
  case absent => cases hstep
  case running => cases hstep

omit [DecidableEq δ] in
theorem moves_settle (hstep : s.settle t m current (s.awaited t) = some s') :
    EngineMoves s s' t m last := by
  rcases eb : s.awaited t with - | - | - | - <;> rw [eb] at hstep
  case built =>
    obtain rfl := Option.some.inj hstep
    exact (((moves_takeFuture eb).trans moves_closeReplacement).trans moves_leaveLoad).trans
      moves_finishLoad
  case failed =>
    obtain rfl := Option.some.inj hstep
    exact (moves_dropFuture.trans moves_leaveLoad).trans moves_finishLoad
  case absent => cases hstep
  case running => cases hstep

omit [DecidableEq δ] in
theorem moves_cancelLoad {stage : LoadStage}
    (hstep : s.cancelLoad t m current (s.awaited t) stage = some s') : EngineMoves s s' t m last := by
  have hleave : EngineMoves s ((s.leaveLoad t).finishLoad t m current) t m last :=
    moves_leaveLoad.trans moves_finishLoad
  cases stage with
  | queued =>
    obtain rfl := Option.some.inj hstep
    exact moves_goTo (.inr rfl)
  | building =>
    unfold Manager.cancelLoad at hstep
    rcases es : s.settle t m current (s.awaited t) with - | settled
    · rw [es] at hstep
      obtain rfl := Option.some.inj hstep
      exact moves_goTo (.inr rfl)
    · rw [es] at hstep
      obtain rfl := Option.some.inj hstep
      exact moves_settle es
  | settling =>
    obtain rfl := Option.some.inj hstep
    exact (moves_dropFuture.trans moves_leaveLoad).trans moves_finishLoad
  | waitLoadLock =>
    obtain rfl := Option.some.inj hstep
    exact hleave
  | gotLoadLock =>
    obtain rfl := Option.some.inj hstep
    exact hleave
  | converting =>
    obtain rfl := Option.some.inj hstep
    exact hleave
  | waitHandoff previous l =>
    obtain rfl := Option.some.inj hstep
    exact hleave
  | gotHandoff previous l =>
    obtain rfl := Option.some.inj hstep
    exact hleave
  | finished => cases hstep
  | returned => cases hstep

omit [DecidableEq δ]

/-! ### Requests -/

variable {requested : Nat}

theorem moves_requestLease : EngineMoves s (s.requestLease cfg t m requested) t m last := by
  unfold Manager.requestLease
  split
  · exact moves_goTo (.inr rfl)
  · exact (moves_getLock m).trans (moves_goTo (.inr rfl))

theorem moves_grantLease (current l : Nat) :
    EngineMoves s (s.grantLease cfg t m requested current l) t m last := by
  have hlocked : EngineMoves s ((s.acquireLock t l).getLock m).1 t m False :=
    (moves_acquireLock l).trans (moves_getLock m)
  unfold Manager.grantLease
  dsimp only
  split
  · exact hlocked.trans (moves_goTo (.inr rfl))
  · exact (hlocked.trans moves_releaseLock).trans moves_requestLease

theorem moves_endLease : EngineMoves s (s.endLease t m requested) t m last :=
  moves_releaseLock.trans (moves_goTo (.inr rfl))

theorem moves_recoverNpu (e : Nat) : EngineMoves s (s.recoverNpu cfg t m requested e) t m True := by
  unfold Manager.recoverNpu
  split
  · exact moves_endLease
  · split
    · exact moves_endLease
    · split
      · exact ((moves_goTo (.inr rfl)).trans (moves_close e)).trans (moves_startBuild _)
      · exact moves_endLease

theorem moves_endGeneration (e : Nat) (how : Manager.GenerationEnd) :
    EngineMoves s (s.endGeneration cfg t m requested e how) t m True := by
  cases how with
  | completed => exact moves_endLease
  | interrupted => exact moves_recoverNpu e
  | stuck =>
    have hquarantine : EngineMoves s (s.quarantine m e) t m False := by
      unfold Manager.quarantine
      split
      · exact moves_popEngine m
      · exact .refl
    exact hquarantine.trans (moves_recoverNpu e)

theorem moves_afterRebuild {e : Nat}
    (hstep : s.afterRebuild t m requested e (s.awaited t) = some s') : EngineMoves s s' t m last := by
  rcases eb : s.awaited t with - | - | - | - <;> rw [eb] at hstep
  case built =>
    unfold Manager.afterRebuild at hstep
    dsimp only at hstep
    split at hstep
    · obtain rfl := Option.some.inj hstep
      exact ((moves_takeFuture eb).trans moves_putReplacement).trans moves_endLease
    · obtain rfl := Option.some.inj hstep
      exact ((moves_takeFuture eb).trans moves_closeReplacement).trans moves_endLease
  case failed =>
    obtain rfl := Option.some.inj hstep
    exact (moves_dropFuture.trans (moves_popEngine m)).trans moves_endLease
  case absent => cases hstep
  case running => cases hstep

/-! ### Context changes -/

/-- A context change ends, and with it the mark of its model. -/
theorem moves_leaveConfigure (hserved : (s.task t).activity.served = none) :
    EngineMoves s (s.leaveConfigure t m) t m True := by
  have hprelude : EngineMoves s (((s.closeReplacement t).releaseLock t).releaseLoadLock t) t m False :=
    (moves_closeReplacement.trans moves_releaseLock).trans moves_releaseLoadLock
  have hgoTo : EngineMoves s ((((s.closeReplacement t).releaseLock t).releaseLoadLock t).goTo t
      (.configure m .finished)) t m False := by
    apply hprelude.trans
    apply moves_goTo
    left
    have hsame : ((((s.closeReplacement t).releaseLock t).releaseLoadLock t).task t).activity =
        (s.task t).activity := by simp
    rw [hsame, hserved]
    rfl
  have hcontext : ((((s.closeReplacement t).releaseLock t).releaseLoadLock t).goTo t
      (.configure m .finished)).contextChanges = s.contextChanges := by
    simpa using hgoTo.contextChanges
  apply hgoTo.trans
  refine ⟨fun _ _ => rfl, .inl rfl, fun _ h => .inl h, fun _ h => .inl h, fun _ _ h => .inl h,
    fun _ _ => ⟨rfl, rfl⟩, .inl rfl, .inr ⟨trivial, ?_, ?_⟩⟩
  · simp [Manager.leaveConfigure, Manager.goTo]
  · rw [hcontext]
    rfl

theorem moves_waitModelLock (hserved : (s.task t).activity.served = none) (old : Option Nat) :
    EngineMoves s (s.waitModelLock t m old) t m last := by
  unfold Manager.waitModelLock
  apply (moves_getLock m).trans
  apply moves_goTo
  left
  rw [Manager.getLock_task, hserved]
  rfl

theorem leaveConfigure_activity :
    ((s.leaveConfigure t m).task t).activity = .configure m .finished := by
  simp [Manager.leaveConfigure, Manager.goTo]

/-- Whoever leaves with a replacement closes it. -/
theorem leaveConfigure_closes {r : Nat} (hr : (s.task t).replacement = some r) :
    ((s.leaveConfigure t m).engine r).closes = (s.engine r).closes + 1 := by
  show ((s.leaveLoad t).engine r).closes = _
  rw [leaveLoad_engine.1]
  simp [Manager.closeReplacement, Manager.close, Manager.dropReplacement, hr]

@[simp] theorem leaveConfigure_engines : (s.leaveConfigure t m).engines = s.engines := by
  simp [Manager.leaveConfigure, Manager.goTo]

@[simp] theorem waitModelLock_engines (old : Option Nat) :
    (s.waitModelLock t m old).engines = s.engines := by
  simp [Manager.waitModelLock, Manager.goTo]

theorem waitModelLock_task (old : Option Nat) : ∃ l, (s.waitModelLock t m old).task t =
    { s.task t with activity := .configure m (.waitLock old l) } :=
  ⟨(s.getLock m).2, by simp [Manager.waitModelLock, Manager.goTo]⟩

theorem waitModelLock_same (old : Option Nat) :
    (s.waitModelLock t m old).contextChanges = s.contextChanges ∧
      (s.waitModelLock t m old).nextEngine = s.nextEngine := by
  simp only [Manager.waitModelLock, Manager.goTo, Manager.getLock]
  split <;> exact ⟨rfl, rfl⟩

/-- With the load lock; where nothing is built although a rebuild is needed, there is no engine. -/
theorem configureLocked_spec (hserved : (s.task t).activity.served = none)
    (hnone : (s.task t).replacement = none) (refused rebuild : Bool) :
    (s.configureLocked t m refused rebuild).engines = s.engines ∧
      EngineMoves s (s.configureLocked t m refused rebuild) t m True ∧
      (((s.configureLocked t m refused rebuild).task t).activity = .configure m .finished ∨
        (∃ old, s.engines m = some old ∧
          ((s.configureLocked t m refused rebuild).task t).activity =
            .configure m (.building old false) ∧
          (s.configureLocked t m refused rebuild).nextEngine = s.nextEngine + 1 ∧
          (s.configureLocked t m refused rebuild).contextChanges = s.contextChanges) ∨
        (∃ l, ((s.configureLocked t m refused rebuild).task t).activity =
            .configure m (.waitLock (s.engines m) l) ∧
          ((s.configureLocked t m refused rebuild).task t).replacement = none ∧
          (rebuild = true → s.engines m = none) ∧
          (s.configureLocked t m refused rebuild).contextChanges = s.contextChanges ∧
          (s.configureLocked t m refused rebuild).nextEngine = s.nextEngine)) := by
  have hserved' : ((s.acquireLoadLock t).task t).activity.served = none := by simpa using hserved
  have hlocked : EngineMoves s (s.acquireLoadLock t) t m False := moves_acquireLoadLock
  have hwait (hrebuild : rebuild = true → s.engines m = none) :
      ((s.acquireLoadLock t).waitModelLock t m (s.engines m)).engines = s.engines ∧
        EngineMoves s ((s.acquireLoadLock t).waitModelLock t m (s.engines m)) t m True ∧
        ∃ l, (((s.acquireLoadLock t).waitModelLock t m (s.engines m)).task t).activity =
            .configure m (.waitLock (s.engines m) l) ∧
          (((s.acquireLoadLock t).waitModelLock t m (s.engines m)).task t).replacement = none ∧
          (rebuild = true → s.engines m = none) ∧
          ((s.acquireLoadLock t).waitModelLock t m (s.engines m)).contextChanges =
            s.contextChanges ∧
          ((s.acquireLoadLock t).waitModelLock t m (s.engines m)).nextEngine = s.nextEngine := by
    obtain ⟨l, htask⟩ := waitModelLock_task (s := s.acquireLoadLock t) (t := t) (m := m)
      (s.engines m)
    refine ⟨?_, hlocked.trans (moves_waitModelLock hserved' _), l, ?_, ?_, hrebuild, ?_, ?_⟩
    · rw [waitModelLock_engines]
      rfl
    · rw [htask]
    · rw [htask]
      simpa using hnone
    · rw [(waitModelLock_same _).1]
      rfl
    · rw [(waitModelLock_same _).2]
      rfl
  unfold Manager.configureLocked
  dsimp only
  split
  · refine ⟨?_, hlocked.trans (moves_leaveConfigure hserved'), .inl leaveConfigure_activity⟩
    rw [leaveConfigure_engines]
    rfl
  · rcases ee : s.engines m with - | old
    · rw [show (s.acquireLoadLock t).engines m = none from ee]
      obtain ⟨h1, h2, h3⟩ := hwait fun _ => ee
      rw [ee] at h1 h2 h3
      exact ⟨h1, h2, .inr (.inr h3)⟩
    · rw [show (s.acquireLoadLock t).engines m = some old from ee]
      cases rebuild with
      | false =>
        obtain ⟨h1, h2, h3⟩ := hwait nofun
        rw [ee] at h1 h2 h3
        exact ⟨h1, h2, .inr (.inr h3)⟩
      | true =>
        refine ⟨rfl, hlocked.trans (moves_build _ (.inl ?_)), .inr (.inl ⟨old, rfl, ?_, rfl, rfl⟩)⟩
        · rw [hserved']
          rfl
        · simp [Manager.goTo, Manager.startBuild]

/-- Resumed after the build: the request ends, or it holds the engine built. -/
theorem configureBuilt_spec (hserved : (s.task t).activity.served = none)
    (hnone : (s.task t).replacement = none) {old : Nat} {cancelled : Bool}
    (hstep : s.configureBuilt t m old cancelled (s.awaited t) = some s') :
    s'.engines = s.engines ∧ EngineMoves s s' t m True ∧
      ((s'.task t).activity = .configure m .finished ∧
          (∀ r, s.HasBuilt t r → (s'.engine r).closes = (s.engine r).closes + 1) ∨
        ∃ l r, (s'.task t).activity = .configure m (.waitLock (some old) l) ∧
          (s'.task t).replacement = some r ∧ s'.contextChanges = s.contextChanges ∧
          s'.nextEngine = s.nextEngine) := by
  have htake : ((s.takeFuture t).task t).activity.served = none := by
    simpa [Manager.takeFuture] using hserved
  have hdrop : ((s.dropFuture t).task t).activity.served = none := by
    simpa [Manager.dropFuture] using hserved
  rcases eb : s.awaited t with - | - | - | - <;> rw [eb] at hstep
  case built =>
    obtain ⟨r, hfuture⟩ : ∃ r, (s.task t).future = some r := by
      rcases ef : (s.task t).future with - | r
      · simp [Manager.awaited, ef] at eb
      · exact ⟨r, rfl⟩
    unfold Manager.configureBuilt at hstep
    dsimp only at hstep
    split at hstep
    · obtain rfl := Option.some.inj hstep
      refine ⟨?_, (moves_takeFuture eb).trans (moves_leaveConfigure htake),
        .inl ⟨leaveConfigure_activity, ?_⟩⟩
      · rw [leaveConfigure_engines]
        rfl
      · rintro r (hr | ⟨hr, -⟩)
        · simp [hnone] at hr
        · exact leaveConfigure_closes (by simpa [Manager.takeFuture] using hr)
    · obtain rfl := Option.some.inj hstep
      obtain ⟨l, htask⟩ := waitModelLock_task (s := s.takeFuture t) (t := t) (m := m) (some old)
      refine ⟨?_, (moves_takeFuture eb).trans (moves_waitModelLock htake _),
        .inr ⟨l, r, ?_, ?_, ?_, ?_⟩⟩
      · rw [waitModelLock_engines]
        rfl
      · rw [htask]
      · rw [htask]
        simpa [Manager.takeFuture] using hfuture
      · rw [(waitModelLock_same _).1]
        rfl
      · rw [(waitModelLock_same _).2]
        rfl
  case failed =>
    obtain rfl := Option.some.inj hstep
    refine ⟨?_, moves_dropFuture.trans (moves_leaveConfigure hdrop),
      .inl ⟨leaveConfigure_activity, ?_⟩⟩
    · rw [leaveConfigure_engines]
      rfl
    · rintro r (hr | ⟨hr, hbuilt⟩)
      · simp [hnone] at hr
      · rw [Manager.awaited_eq hr, hbuilt] at eb
        cases eb
  case absent => cases hstep
  case running => cases hstep

/-- A cancellation ends the request, or is kept for the end of the build. -/
theorem cancelConfigure_spec (hserved : (s.task t).activity.served = none)
    {stage : ConfigureStage} (hok : ConfigureOk s m (s.task t) stage)
    (hstep : s.cancelConfigure t m stage = some s') :
    s'.engines = s.engines ∧ EngineMoves s s' t m True ∧
      ((s'.task t).activity = .configure m .finished ∧
          (∀ r, s.HasBuilt t r → (s'.engine r).closes = (s.engine r).closes + 1) ∨
        ∃ old, (s'.task t).activity = .configure m (.building old true) ∧
          s'.contextChanges = s.contextChanges ∧ s'.nextEngine = s.nextEngine) := by
  have hleave : (s.leaveConfigure t m).engines = s.engines ∧
      EngineMoves s (s.leaveConfigure t m) t m True ∧
        ((s.leaveConfigure t m).task t).activity = .configure m .finished :=
    ⟨leaveConfigure_engines, moves_leaveConfigure hserved, leaveConfigure_activity⟩
  cases stage with
  | waitLoadLock =>
    obtain rfl := Option.some.inj hstep
    exact ⟨hleave.1, hleave.2.1,
      .inl ⟨hleave.2.2, fun r hr => absurd hr (Task.Idle.hasBuilt hok r)⟩⟩
  | waitLock old l =>
    obtain rfl := Option.some.inj hstep
    refine ⟨hleave.1, hleave.2.1, .inl ⟨hleave.2.2, ?_⟩⟩
    rintro r (hr | ⟨hr, -⟩)
    · exact leaveConfigure_closes hr
    · simp [hok.2.2.1] at hr
  | building old cancelled =>
    obtain rfl := Option.some.inj hstep
    refine ⟨rfl, moves_goTo (.inl ?_), .inr ⟨old, ?_, rfl, rfl⟩⟩
    · rw [hserved]
      rfl
    · simp [Manager.goTo]
  | finished => cases hstep

/-- With the lock of the model: the replacement, if there is one, is installed in place of the
engine that the request has found. -/
theorem configureHandoff_spec (hserved : (s.task t).activity.served = none) (old : Option Nat)
    (l : Nat) (refused : Bool) :
    EngineMoves s (s.configureHandoff t m old l refused) t m True ∧
      ((s.configureHandoff t m old l refused).task t).activity = .configure m .finished ∧
      (s.engines m ≠ old ∨ refused → ∀ r, (s.task t).replacement = some r →
        ((s.configureHandoff t m old l refused).engine r).closes = (s.engine r).closes + 1) ∧
      (s.configureHandoff t m old l refused).engines =
        if s.engines m ≠ old ∨ refused then s.engines
        else
          match (s.task t).replacement with
          | none => s.engines
          | some r => Function.update s.engines m (some r) := by
  have hserved' : ((s.acquireLock t l).task t).activity.served = none := by simpa using hserved
  have hlocked : EngineMoves s (s.acquireLock t l) t m False := moves_acquireLock l
  have hreplacement : ((s.acquireLock t l).task t).replacement = (s.task t).replacement := by
    simp
  have hengines : (s.acquireLock t l).engines = s.engines := rfl
  unfold Manager.configureHandoff
  dsimp only
  rw [hengines]
  split
  · refine ⟨hlocked.trans (moves_leaveConfigure hserved'), leaveConfigure_activity, ?_, ?_⟩
    · intro _ r hr
      exact leaveConfigure_closes (by rw [hreplacement, hr])
    · rw [leaveConfigure_engines, hengines]
  · next hproceeds =>
    rw [hreplacement]
    rcases er : (s.task t).replacement with - | r
    · refine ⟨hlocked.trans (moves_leaveConfigure hserved'), leaveConfigure_activity, nofun, ?_⟩
      rw [leaveConfigure_engines, hengines]
    · have hinstall : EngineMoves s ((s.acquireLock t l).install t m old) t m False :=
        hlocked.trans (moves_install old)
      have hserved'' : (((s.acquireLock t l).install t m old).task t).activity.served = none := by
        cases old <;> simpa [Manager.install, Manager.renewLock, Manager.close,
          Manager.putReplacement] using hserved
      refine ⟨hinstall.trans (moves_leaveConfigure hserved''), leaveConfigure_activity,
        fun hrefused => absurd hrefused hproceeds, ?_⟩
      rw [leaveConfigure_engines]
      show ((s.acquireLock t l).install t m old).engines = Function.update s.engines m (some r)
      rw [← er, ← hreplacement]
      cases old <;> rfl

/-! ### One event -/

/-- The task that may start a build in the event, and works for a model. -/
def Event.builder : Event μ δ → Option Nat
  | .resumeLoad t _ _ => some t
  | .endGeneration t _ => some t
  | _ => none

/-- The event is one of a context change. -/
def Manager.configures (s : Manager μ δ) : Event μ δ → Bool
  | .configureContext _ _ _ | .configureLocked _ _ _ | .resumeConfigure _
  | .configureHandoff _ _ => true
  | .cancel t =>
    match (s.task t).activity with
    | .configure _ _ => true
    | _ => false
  | _ => false

omit [DecidableEq μ] in
theorem Task.Idle.owns (h : (s.task t).Idle) (e : Nat) : ¬ s.Owns t e := by
  obtain ⟨-, -, hfuture, hreplacement⟩ := h
  rintro (he | he)
  · simp [hfuture] at he
  · simp [hreplacement] at he

/-- What an event that is not one of a context change does. -/
inductive StepMoves (s s' : Manager μ δ) (e : Event μ δ) : Prop where
  | builds {t : Nat} {m : μ} (builder : e.builder = some t)
      (served : (s.task t).activity.served = some m) (moves : EngineMoves s s' t m True)
  | moves {t : Nat} {m : μ} (served : (s.task t).activity.served = some m)
      (moves : EngineMoves s s' t m False)
  | opens {t : Nat} {m : μ} (absent : (s.task t).activity = .absent)
      (opened : (s'.task t).activity = .absent ∨ (s'.task t).activity.served = some m)
      (moves : EngineMoves s s' t m False)
  | pops (next : s'.nextEngine = s.nextEngine)
      (engines : ∀ m e, s'.engines m = some e → s.engines m = some e) (task : s'.task = s.task)
      (engine : ∀ e, (s'.engine e).device = (s.engine e).device ∧
        (s'.engine e).build = (s.engine e).build)
      (contextChanges : s'.contextChanges = s.contextChanges)
  | creates (next : s'.nextEngine = s.nextEngine + 1) (engines : s'.engines = s.engines)
      (task : s'.task = s.task) (engine : ∀ e, e ≠ s.nextEngine → s'.engine e = s.engine e)
      (contextChanges : s'.contextChanges = s.contextChanges)
  | ends {b : Nat} (running : (s.engine b).build = .running) (next : s'.nextEngine = s.nextEngine)
      (engines : s'.engines = s.engines) (task : s'.task = s.task)
      (ended : (s'.engine b).build ≠ .running)
      (engine : ∀ e, e ≠ b → s'.engine e = s.engine e)
      (contextChanges : s'.contextChanges = s.contextChanges)

theorem unload_pops (m : μ) (e : Event μ δ) : StepMoves s (s.unload m) e := by
  have hpop : ∀ m' e, ((s.popEngine m).popLock m).engines m' = some e → s.engines m' = some e := by
    intro m' e he
    by_cases hm : m' = m
    · subst hm
      simp [Manager.popEngine, Manager.popLock] at he
    · simpa [Manager.popEngine, Manager.popLock, hm] using he
  have hclose (old : Nat) (e : Nat) :
      ((((s.popEngine m).popLock m).close old).engine e).device = (s.engine e).device ∧
        ((((s.popEngine m).popLock m).close old).engine e).build = (s.engine e).build := by
    simp only [Manager.close, Function.update_apply]
    split
    · next he => rw [he]; exact ⟨rfl, rfl⟩
    · exact ⟨rfl, rfl⟩
  unfold Manager.unload
  split
  · exact .pops rfl (fun _ _ h => h) rfl (fun _ => ⟨rfl, rfl⟩) rfl
  · split
    · exact .pops rfl (fun _ _ h => h) rfl (fun _ => ⟨rfl, rfl⟩) rfl
    · dsimp only
      split
      · exact .pops rfl hpop rfl (fun _ => ⟨rfl, rfl⟩) rfl
      · next old _ => exact .pops rfl hpop rfl (hclose old) rfl

variable [DecidableEq δ]

theorem moves_scheduleLoad (hidle : (s.task t).Idle) (device : Option δ) :
    EngineMoves s (s.scheduleLoad cfg t m device) t m last := by
  obtain ⟨-, -, hfuture, hreplacement⟩ := hidle
  unfold Manager.scheduleLoad
  split
  · dsimp only
    split
    · exact .refl
    · split
      · apply EngineMoves.same <;> simp
      · apply EngineMoves.same <;> simp +contextual [hfuture, hreplacement, Activity.served]
  · exact .refl

theorem event_moves (hinv : Inv cfg strict s) {e : Event μ δ} (hother : s.configures e = false)
    (hstep : s.step cfg e = some s') : StepMoves s s' e := by
  have hidle (t : Nat) (habsent : (s.task t).activity = .absent) : (s.task t).Idle := by
    simpa [StageOk, habsent] using hinv.stage t
  have hserved {t : Nat} {m : μ} {current : δ} {stage : LoadStage}
      (hactivity : (s.task t).activity = .load m current stage) :
      (s.task t).activity.served = some m := by
    rw [hactivity]
    rfl
  have hrequest {t : Nat} {m : μ} {requested : Nat} {stage : RequestStage}
      (hactivity : (s.task t).activity = .request m requested stage) :
      (s.task t).activity.served = some m := by
    rw [hactivity]
    rfl
  cases e with
  | scheduleLoad t m device =>
    simp only [Manager.step] at hstep
    split at hstep
    · next habsent =>
      obtain rfl := Option.some.inj hstep
      refine .opens habsent ?_ (moves_scheduleLoad (hidle t habsent) device)
      simp only [Manager.scheduleLoad]
      split
      · split
        · exact .inl habsent
        · split
          · exact .inl habsent
          · exact .inr (by simp [Activity.served])
      · exact .inl habsent
    · cases hstep
  | startLoad t inspection =>
    simp only [Manager.step] at hstep
    split at hstep
    · next m current hactivity =>
      obtain rfl := Option.some.inj hstep
      exact .moves (hserved hactivity) (moves_loopTop inspection)
    · cases hstep
  | grantLoadLock t =>
    simp only [Manager.step] at hstep
    split at hstep
    · next m current hactivity hfree =>
      obtain rfl := Option.some.inj hstep
      exact .moves (hserved hactivity) (moves_acquireLoadLock.trans (moves_goTo (.inr rfl)))
    · cases hstep
  | resumeLoad t first again =>
    simp only [Manager.step] at hstep
    split at hstep
    case h_1 m current hactivity =>
      obtain rfl := Option.some.inj hstep
      exact .builds rfl (hserved hactivity) (moves_afterLoadLock first)
    case h_2 m current hactivity =>
      obtain rfl := Option.some.inj hstep
      exact .builds rfl (hserved hactivity) (moves_afterConversion first again)
    case h_3 m current hactivity => exact .moves (hserved hactivity) (moves_afterBuild hstep)
    case h_4 m current hactivity => exact .moves (hserved hactivity) (moves_settle hstep)
    case h_5 m current previous l hactivity =>
      obtain rfl := Option.some.inj hstep
      exact .moves (hserved hactivity) (moves_afterHandoffLock previous l first)
    case h_6 => cases hstep
  | endBuild b result =>
    simp only [Manager.step] at hstep
    split at hstep
    · next hrunning =>
      obtain rfl := Option.some.inj hstep
      have hsame : (s.endBuild b result).nextEngine = s.nextEngine ∧
          (s.endBuild b result).engines = s.engines ∧ (s.endBuild b result).task = s.task ∧
          ((s.endBuild b result).engine b).build ≠ .running ∧
          (∀ e, e ≠ b → (s.endBuild b result).engine e = s.engine e) ∧
          (s.endBuild b result).contextChanges = s.contextChanges := by
        cases result <;> simp +contextual [Manager.endBuild]
      obtain ⟨h1, h2, h3, h4, h5, h6⟩ := hsame
      exact .ends hrunning h1 h2 h3 h4 h5 h6
    · cases hstep
  | grantHandoffLock t =>
    simp only [Manager.step] at hstep
    split at hstep
    · next m current previous l hactivity =>
      split at hstep
      · obtain rfl := Option.some.inj hstep
        exact .moves (hserved hactivity) ((moves_acquireLock l).trans (moves_goTo (.inr rfl)))
      · cases hstep
    · cases hstep
  | cancel t =>
    simp only [Manager.step] at hstep
    split at hstep
    case h_1 m current stage hactivity =>
      exact .moves (hserved hactivity) (moves_cancelLoad hstep)
    case h_2 m requested current l hactivity =>
      obtain rfl := Option.some.inj hstep
      exact .moves (hrequest hactivity) (moves_goTo (.inr rfl))
    case h_3 m stage hactivity => simp [Manager.configures, hactivity] at hother
    case h_4 => cases hstep
  | returnLoad t =>
    simp only [Manager.step] at hstep
    split at hstep
    · next m current hactivity =>
      obtain rfl := Option.some.inj hstep
      exact .moves (hserved hactivity) (moves_goTo (.inr rfl))
    · cases hstep
  | createEngine device =>
    obtain rfl := Option.some.inj hstep
    refine .creates rfl rfl rfl ?_ rfl
    intro e hne
    simp [hne]
  | request t m engine =>
    simp only [Manager.step] at hstep
    split at hstep
    · next habsent =>
      obtain rfl := Option.some.inj hstep
      have hmoves : EngineMoves s (s.requestLease cfg t m engine) t m False := moves_requestLease
      refine .opens habsent (.inr ?_) hmoves
      simp only [Manager.requestLease]
      split <;> simp [Manager.goTo, Activity.served]
    · cases hstep
  | grantLease t =>
    simp only [Manager.step] at hstep
    split at hstep
    · next m requested current l hactivity =>
      split at hstep
      · obtain rfl := Option.some.inj hstep
        exact .moves (hrequest hactivity) (moves_grantLease current l)
      · cases hstep
    · cases hstep
  | endGeneration t how =>
    simp only [Manager.step] at hstep
    split at hstep
    · next m requested e hactivity =>
      obtain rfl := Option.some.inj hstep
      exact .builds rfl (hrequest hactivity) (moves_endGeneration e how)
    · cases hstep
  | resumeRequest t =>
    simp only [Manager.step] at hstep
    split at hstep
    · next m requested e hactivity =>
      exact .moves (hrequest hactivity) (moves_afterRebuild hstep)
    · cases hstep
  | unload m =>
    obtain rfl := Option.some.inj hstep
    exact unload_pops m _
  | configureContext t m refused => simp [Manager.configures] at hother
  | configureLocked t refused rebuild => simp [Manager.configures] at hother
  | resumeConfigure t => simp [Manager.configures] at hother
  | configureHandoff t refused => simp [Manager.configures] at hother

end

/-! ### Finished builds -/

/-- An engine that is installed, or held as a replacement, is not being built. -/
structure Manager.Ready (s : Manager μ δ) : Prop where
  installed : ∀ m e, s.engines m = some e → (s.engine e).build ≠ .running
  replacement : ∀ t e, (s.task t).replacement = some e → (s.engine e).build ≠ .running

theorem EngineMoves.staysReady [DecidableEq μ] (h : EngineMoves s s' t m last) (hcore : Core cfg s)
    (hready : s.Ready) : s'.Ready := by
  have hold (e : Nat) (he : e < s.nextEngine) : (s'.engine e).build = (s.engine e).build :=
    (h.engine e fun hfresh => he.ne hfresh.2).2
  have hmine (e : Nat) (he : (s.task t).replacement = some e ∨
      (s.task t).future = some e ∧ (s.engine e).build = .built) :
      (s'.engine e).build ≠ .running := by
    rcases he with hreplacement | ⟨hfuture, hbuilt⟩
    · rw [hold e (hcore.owned t e (.inr hreplacement)).1]
      exact hready.replacement t e hreplacement
    · rw [hold e (hcore.owned t e (.inl hfuture)).1, hbuilt]
      nofun
  refine ⟨?_, ?_⟩
  · intro m' e he
    rcases h.installed m' e he with hbefore | ⟨-, hnew⟩
    · rw [hold e (hcore.installed m' e hbefore).2.1]
      exact hready.installed m' e hbefore
    · exact hmine e hnew
  · intro t' e he
    by_cases ht : t' = t
    · subst ht
      exact hmine e (h.ready e he)
    · rw [h.others t' ht] at he
      rw [hold e (hcore.owned t' e (.inr he)).1]
      exact hready.replacement t' e he

theorem Manager.Ready.step [DecidableEq μ] {e : Event μ δ} (hready : s.Ready)
    (hcore : Core cfg s) (h : StepMoves s s' e) : s'.Ready := by
  cases h with
  | builds builder served moves => exact moves.staysReady hcore hready
  | moves served moves => exact moves.staysReady hcore hready
  | opens absent opened moves => exact moves.staysReady hcore hready
  | pops next engines task engine =>
    refine ⟨?_, ?_⟩
    · intro m e he
      rw [(engine e).2]
      exact hready.installed m e (engines m e he)
    · intro t e he
      rw [(engine e).2]
      exact hready.replacement t e (by rwa [task] at he)
  | creates next engines task engine =>
    refine ⟨?_, ?_⟩
    · intro m e he
      rw [engines] at he
      rw [engine e (hcore.installed m e he).2.1.ne]
      exact hready.installed m e he
    · intro t e he
      rw [task] at he
      rw [engine e (hcore.owned t e (.inr he)).1.ne]
      exact hready.replacement t e he
  | @ends b running next engines task ended engine =>
    have hbuild (e : Nat) (he : (s.engine e).build ≠ .running) :
        (s'.engine e).build ≠ .running := by
      by_cases hb : e = b
      · rwa [hb]
      · rwa [engine e hb]
    refine ⟨?_, ?_⟩
    · intro m e he
      rw [engines] at he
      exact hbuild e (hready.installed m e he)
    · intro t e he
      rw [task] at he
      exact hbuild e (hready.replacement t e he)

end InferBridge
