/-
InferBridge/Lib/CrashLogic.lean

Programs that may stop or fail at any single operation, and a logic for
them.

A program of type `Crash σ κ ξ α` works on a state `σ` and consumes a
schedule, a list of fates `κ`, one for each operation.  When the schedule
is used up the process stops where it is.  An operation may also raise an
exception `ξ`, which a handler can catch; a stop cannot be caught.  The run
records every state it goes through.

`Triple J P c Q E`: started in a state with `P`, every state that `c` goes
through has `J`; if `c` returns, `Q` holds, if it raises, `E` holds, and if
it stops, `J` holds of what is left.  The rules below are those of a Hoare
logic, one for each way of building a program, and `runs_invariant` chains
processes: what one leaves, whichever way it ended, is where the next one
starts.
-/
import Mathlib

/-- How a program ends: with a value, with an exception, or stopped. -/
inductive Outcome (ξ α : Type) where
  | returned (a : α)
  | raised (e : ξ)
  | stopped
deriving DecidableEq, Repr

/-- The end of a run: the outcome, the state left, the rest of the schedule, and the states
gone through, in order. -/
structure CrashResult (σ κ ξ α : Type) where
  outcome : Outcome ξ α
  state : σ
  schedule : List κ
  visited : List σ

/-- A program over the state `σ` with fates `κ` and exceptions `ξ`. -/
def Crash (σ κ ξ α : Type) := σ → List κ → CrashResult σ κ ξ α

/-- What an operation does with one fate: finish, go on with the next fate, or fail
without effect. -/
inductive Progress (σ ξ α : Type) where
  | done (s : σ) (a : α)
  | more (s : σ)
  | fail (e : ξ)

namespace Crash

variable {σ κ ξ α β : Type}

/-! ### Building programs -/

protected def pure (a : α) : Crash σ κ ξ α := fun s ks => ⟨.returned a, s, ks, []⟩

protected def bind (c : Crash σ κ ξ α) (k : α → Crash σ κ ξ β) : Crash σ κ ξ β := fun s ks =>
  match c s ks with
  | ⟨.returned a, s', ks', visited⟩ =>
    let r := k a s' ks'
    { r with visited := visited ++ r.visited }
  | ⟨.raised e, s', ks', visited⟩ => ⟨.raised e, s', ks', visited⟩
  | ⟨.stopped, s', ks', visited⟩ => ⟨.stopped, s', ks', visited⟩

instance : Monad (Crash σ κ ξ) where
  pure := Crash.pure
  bind := Crash.bind

def raise (e : ξ) : Crash σ κ ξ α := fun s ks => ⟨.raised e, s, ks, []⟩

/-- Read the state; reading takes no fate. -/
def read : Crash σ κ ξ σ := fun s ks => ⟨.returned s, s, ks, []⟩

/-- Change bookkeeping that is not part of the world; this takes no fate. -/
def note (f : σ → σ) : Crash σ κ ξ Unit := fun s ks => ⟨.returned (), f s, ks, [f s]⟩

/-- Run an operation to its end, one fate for each of its steps. -/
def performOn (op : κ → σ → Progress σ ξ α) : List κ → σ → CrashResult σ κ ξ α
  | [], s => ⟨.stopped, s, [], []⟩
  | k :: ks, s =>
    match op k s with
    | .done s' a => ⟨.returned a, s', ks, [s']⟩
    | .fail e => ⟨.raised e, s, ks, []⟩
    | .more s' =>
      let r := performOn op ks s'
      { r with visited := s' :: r.visited }

def perform (op : κ → σ → Progress σ ξ α) : Crash σ κ ξ α := fun s ks => performOn op ks s

/-- `try … except`: the handler sees exceptions, never a stop. -/
def catchRaised (c : Crash σ κ ξ α) (handler : ξ → Crash σ κ ξ α) : Crash σ κ ξ α := fun s ks =>
  match c s ks with
  | ⟨.raised e, s', ks', visited⟩ =>
    let r := handler e s' ks'
    { r with visited := visited ++ r.visited }
  | r => r

/-! ### Triples -/

/-- What a triple promises of one end of a run. -/
def CrashResult.Meets (J : σ → Prop) (Q : α → σ → Prop) (E : ξ → σ → Prop)
    (r : CrashResult σ κ ξ α) : Prop :=
  (∀ v ∈ r.visited, J v) ∧
    match r.outcome with
    | .returned a => Q a r.state
    | .raised e => E e r.state
    | .stopped => J r.state

/-- From `P`, the program goes through states with `J` only, returns in `Q`, raises in `E`
and stops in `J`. -/
def Triple (J P : σ → Prop) (c : Crash σ κ ξ α) (Q : α → σ → Prop) (E : ξ → σ → Prop) : Prop :=
  ∀ s ks, P s → CrashResult.Meets J Q E (c s ks)

variable {J P P' I : σ → Prop} {Q Q' : α → σ → Prop} {R : β → σ → Prop} {E E' : ξ → σ → Prop}

theorem CrashResult.Meets.prepend {r : CrashResult σ κ ξ α} (h : CrashResult.Meets J Q E r)
    {visited : List σ} (hv : ∀ v ∈ visited, J v) :
    CrashResult.Meets J Q E { r with visited := visited ++ r.visited } := by
  refine ⟨?_, h.2⟩
  intro v hmem
  rcases List.mem_append.mp hmem with hold | hnew
  · exact hv v hold
  · exact h.1 v hnew

theorem triple_conseq {c : Crash σ κ ξ α} (h : Triple J P c Q E) (hP : ∀ s, P' s → P s)
    (hQ : ∀ a s, Q a s → Q' a s) (hE : ∀ e s, E e s → E' e s) : Triple J P' c Q' E' := by
  intro s ks hs
  obtain ⟨hv, hend⟩ := h s ks (hP s hs)
  refine ⟨hv, ?_⟩
  rcases e : (c s ks).outcome with a | x | - <;> rw [e] at hend
  · exact hQ a _ hend
  · exact hE x _ hend
  · exact hend

theorem triple_pure {a : α} (h : ∀ s, P s → Q a s) :
    Triple J P (pure a : Crash σ κ ξ α) Q E := by
  intro s ks hs
  exact ⟨by simp [pure, Crash.pure], h s hs⟩

theorem triple_raise {e : ξ} (h : ∀ s, P s → E e s) :
    Triple J P (raise e : Crash σ κ ξ α) Q E := by
  intro s ks hs
  exact ⟨by simp [raise], h s hs⟩

theorem triple_bind {c : Crash σ κ ξ β} {k : β → Crash σ κ ξ α} (hc : Triple J P c R E)
    (hk : ∀ b, Triple J (R b) (k b) Q E) : Triple J P (c >>= k) Q E := by
  intro s ks hs
  obtain ⟨hv, hend⟩ := hc s ks hs
  show CrashResult.Meets J Q E (Crash.bind c k s ks)
  unfold Crash.bind
  rcases e : c s ks with ⟨outcome, s', ks', visited⟩
  rw [e] at hv hend
  rcases outcome with b | x | -
  · exact (hk b s' ks' hend).prepend hv
  · exact ⟨hv, hend⟩
  · exact ⟨hv, hend⟩

/-- Reading the state: the rest of the program may assume what was read. -/
theorem triple_read_bind {k : σ → Crash σ κ ξ α}
    (h : ∀ s₀, P s₀ → Triple J (fun s => s = s₀) (k s₀) Q E) :
    Triple J P (read >>= k) Q E := by
  refine triple_bind (R := fun b s => s = b ∧ P b) ?_ ?_
  · intro s ks hs
    exact ⟨by simp [read], rfl, hs⟩
  · intro b s ks hs
    exact h b hs.2 s ks hs.1

theorem triple_note {f : σ → σ} {Q : Unit → σ → Prop} (h : ∀ s, P s → J (f s) ∧ Q () (f s)) :
    Triple J P (note f : Crash σ κ ξ Unit) Q E := by
  intro s ks hs
  refine ⟨?_, (h s hs).2⟩
  intro v hmem
  rw [List.mem_singleton.mp hmem]
  exact (h s hs).1

/-- An operation, by an invariant `I` of its steps. -/
theorem triple_perform {op : κ → σ → Progress σ ξ α} (hJ : ∀ s, I s → J s)
    (hop : ∀ k s, I s →
      match op k s with
      | .done s' a => J s' ∧ Q a s'
      | .more s' => I s'
      | .fail e => E e s) :
    Triple J I (perform op) Q E := by
  intro s ks hs
  show CrashResult.Meets J Q E (performOn op ks s)
  induction ks generalizing s with
  | nil => exact ⟨by simp [performOn], hJ s hs⟩
  | cons k ks ih =>
    have hstep := hop k s hs
    unfold performOn
    rcases e : op k s with ⟨s', a⟩ | s' | x <;> rw [e] at hstep
    · refine ⟨?_, hstep.2⟩
      intro v hmem
      rw [List.mem_singleton.mp hmem]
      exact hstep.1
    · have hone : ∀ v ∈ [s'], J v := by simpa using hJ s' hstep
      exact (ih s' hstep).prepend hone
    · exact ⟨by simp, hstep⟩

/-- A handler takes over where the exception left the state. -/
theorem triple_catch {c : Crash σ κ ξ α} {handler : ξ → Crash σ κ ξ α} (hc : Triple J P c Q E')
    (hh : ∀ e, Triple J (E' e) (handler e) Q E) : Triple J P (catchRaised c handler) Q E := by
  intro s ks hs
  obtain ⟨hv, hend⟩ := hc s ks hs
  unfold catchRaised
  rcases e : c s ks with ⟨outcome, s', ks', visited⟩
  rw [e] at hv hend
  rcases outcome with a | x | -
  · exact ⟨hv, hend⟩
  · exact (hh x s' ks' hend).prepend hv
  · exact ⟨hv, hend⟩

/-! ### Chains of processes -/

/-- Run processes one after another, each with its own schedule, on what the one before
left; collect every state gone through. -/
def runs : List (Crash σ κ ξ Unit × List κ) → σ → σ × List σ
  | [], s => (s, [s])
  | (c, ks) :: rest, s =>
    let r := c s ks
    let (last, visited) := runs rest r.state
    (last, s :: r.visited ++ visited)

/-- A condition that every process keeps, whichever way it ends, holds at every point of
a chain of them. -/
theorem runs_invariant {processes : List (Crash σ κ ξ Unit × List κ)}
    (h : ∀ p ∈ processes, Triple J J p.1 (fun _ => J) (fun _ => J)) {s : σ} (hs : J s) :
    J (runs processes s).1 ∧ ∀ v ∈ (runs processes s).2, J v := by
  induction processes generalizing s with
  | nil => simpa [runs] using hs
  | cons p rest ih =>
    obtain ⟨c, ks⟩ := p
    obtain ⟨hv, hend⟩ := h (c, ks) (by simp) s ks hs
    have hleft : J (c s ks).state := by
      rcases e : (c s ks).outcome with a | x | - <;> rw [e] at hend <;> exact hend
    obtain ⟨hlast, hvisited⟩ := ih (fun p hp => h p (by simp [hp])) hleft
    refine ⟨hlast, ?_⟩
    intro v hmem
    simp only [runs, List.cons_append, List.mem_cons, List.mem_append] at hmem
    rcases hmem with rfl | hmem | hmem
    · exact hs
    · exact hv v hmem
    · exact hvisited v hmem

end Crash
