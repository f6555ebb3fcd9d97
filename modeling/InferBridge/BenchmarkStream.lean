/-
InferBridge/BenchmarkStream.lean

One run of `_stream_generation_once` on a temporary engine, and who closes the
engine afterwards (runtime/benchmark_runner.py).

The worker and its handle are those of InferBridge/StreamHandle.  Around them stand
the task that reads the stream, the thread jobs it awaits, the caller that closes
the engine once the task has ended, and the cleanup thread that takes the close
over when the worker does not stop in time.  A cancellation meets the task at
whatever it awaits; a step that is not possible leaves the state as it is.

Design.  The state keeps each call of the original close, with whether the worker
was running at the time.  `Inv` says who owns the close: the caller, unless it was
handed to the cleanup thread; and the close is with the caller only once the
worker was seen to be done.

Main result: `close_has_one_owner`.
-/
import InferBridge.StreamHandle

namespace InferBridge.BenchmarkStream

open StreamHandle Progress

/-! ### The parties -/

/-- What the temporary engine allows: whether it has a `close`, and whether that can be
replaced. -/
structure Engine where
  callable : Bool
  replaceable : Bool

/-- How the read loop was left. -/
inductive Exit where
  | finished
  | failed
  | cancelled
deriving DecidableEq

/-- How the call ends. -/
inductive Outcome where
  | returned
  | cancelled
  | failed
  | timedOut
deriving DecidableEq

/-- What the task awaits: the next chunk, the bounded or the unbounded wait for the worker
(with the answer, once the job has it), the token count, or nothing any more. -/
inductive Task where
  | reading
  | closing (exit : Exit) (answer : Option Bool)
  | draining (exit : Exit) (answered : Bool)
  | counting
  | ended (outcome : Outcome)
deriving DecidableEq

/-- A call of the original close. -/
structure Closing where
  workerRunning : Bool
deriving DecidableEq

structure System (ε : Type) where
  stream : StreamHandle.System ε
  task : Task := .reading
  firstToken : Bool := false
  /-- A `next_chunk` job whose task was cancelled is still in its thread. -/
  stray : Bool := false
  /-- `pending_cancellation` -/
  pending : Bool := false
  /-- `cleanup_error` -/
  timedOut : Bool := false
  /-- `engine.close` was replaced. -/
  deferred : Bool := false
  /-- The cleanup thread waits for the worker. -/
  cleaning : Bool := false
  callerClosed : Bool := false
  closings : List Closing := []
  /-- A cancellation met the task. -/
  delivered : Bool := false

variable {ε : Type}

def System.start (pieces : List Str) : System ε where
  stream := StreamHandle.System.start pieces

namespace System

def workerDone (s : System ε) : Bool := decide (s.stream.phase = .finished)

/-- `original_close()` -/
def close (s : System ε) : System ε :=
  { s with closings := s.closings ++ [⟨!s.workerDone⟩] }

/-- The `finally` block: stop the worker and wait for it. -/
def leave (s : System ε) (exit : Exit) : System ε :=
  { s with stream := s.stream.requestStop, task := .closing exit none }

/-- The end of the `finally` block. -/
def conclude (s : System ε) (exit : Exit) : System ε :=
  if s.pending then { s with task := .ended .cancelled }
  else if s.timedOut then { s with task := .ended .timedOut }
  else
    match exit with
    | .finished => { s with task := .counting }
    | .failed => { s with task := .ended .failed }
    | .cancelled => { s with task := .ended .cancelled }

/-- The task goes on with a chunk; `callbackFails` is what `on_first_token` would do. -/
def receive (s : System ε) (callbackFails : Bool) : Option Str → System ε
  | none => if s.stream.handle.error.isSome then s.leave .failed else s.leave .finished
  | some piece =>
    if s.firstToken || piece.isEmpty then s
    else if callbackFails then { s with firstToken := true }.leave .failed
    else { s with firstToken := true }

/-- `handle.next_chunk` and the task behind it. -/
def chunk (s : System ε) (callbackFails : Bool) : System ε :=
  match s.task, s.stream.handle.queue with
  | .reading, item :: _ => { s with stream := s.stream.consume }.receive callbackFails item
  | _, _ => s

/-- The job that nobody awaits takes a chunk. -/
def takeStray (s : System ε) : System ε :=
  if s.stray && !s.stream.handle.queue.isEmpty then
    { s with stream := s.stream.consume, stray := false }
  else s

/-- A cancellation is delivered at the task's await. -/
def cancel (s : System ε) : System ε :=
  match s.task with
  | .reading => { s with pending := true, delivered := true, stray := true }.leave .cancelled
  | .closing _ _ | .draining _ _ => { s with pending := true, delivered := true }
  | .counting => { s with task := .ended .cancelled, delivered := true }
  | .ended _ => s

/-- The waiting job answers: whether the worker is done, at its deadline or before; without a
deadline only once it is. -/
def answer (s : System ε) : System ε :=
  match s.task with
  | .closing exit none => { s with task := .closing exit (some s.stream.handle.done) }
  | .draining exit false =>
    if s.stream.handle.done then { s with task := .draining exit true } else s
  | _ => s

/-- The task goes on with the answer; `_defer_engine_close_until_stream_finishes` in between. -/
def resume (engine : Engine) (s : System ε) : System ε :=
  match s.task with
  | .closing exit (some true) => s.conclude exit
  | .closing exit (some false) =>
    if engine.callable && engine.replaceable then
      { s with deferred := true, cleaning := true, timedOut := true }.conclude exit
    else { s with timedOut := true, task := .draining exit false }
  | .draining exit true => s.conclude exit
  | _ => s

/-- `count_tokens` returns, or raises. -/
def counted (s : System ε) (ok : Bool) : System ε :=
  match s.task with
  | .counting => { s with task := .ended (if ok then .returned else .failed) }
  | _ => s

/-- The caller's `engine.close()`, whose errors it suppresses. -/
def callerClose (engine : Engine) (s : System ε) : System ε :=
  match s.task with
  | .ended _ =>
    if s.callerClosed then s
    else if s.deferred || !engine.callable then { s with callerClosed := true }
    else { s with callerClosed := true }.close
  | _ => s

/-- `cleanup` -/
def cleanup (s : System ε) : System ε :=
  if s.cleaning && s.stream.handle.done then { s with cleaning := false }.close else s

end System

inductive Event where
  | worker
  | chunk (callbackFails : Bool)
  | stray
  | cancel
  | answer
  | resume
  | counted (ok : Bool)
  | callerClose
  | cleanup
deriving DecidableEq

def step (engine : Engine) (failure : Option ε) (s : System ε) : Event → System ε
  | .worker => { s with stream := s.stream.produce failure }
  | .chunk callbackFails => s.chunk callbackFails
  | .stray => s.takeStray
  | .cancel => s.cancel
  | .answer => s.answer
  | .resume => s.resume engine
  | .counted ok => s.counted ok
  | .callerClose => s.callerClose engine
  | .cleanup => s.cleanup

/-- The states of an interleaving. -/
def trace (engine : Engine) (pieces : List Str) (failure : Option ε) (events : ℕ → Event) :
    ℕ → System ε
  | 0 => System.start pieces
  | n + 1 => step engine failure (trace engine pieces failure events n) (events n)

/-! ### Who owns the close -/

/-- The task knows that the worker is done. -/
def Task.seen : Task → Bool
  | .closing _ (some true) | .draining _ true | .counting | .ended _ => true
  | _ => false

/-- The task can be cancelled with an effect that stays pending. -/
def Task.waiting : Task → Bool
  | .closing _ _ | .draining _ _ => true
  | _ => false

structure Inv (engine : Engine) (s : System ε) : Prop where
  done : s.stream.handle.done = s.workerDone
  /-- Once the wait is over the worker is done, or its close was handed over. -/
  seen : s.task.seen = true → s.deferred = false → s.workerDone = true
  handed : s.deferred = true → engine.callable = true ∧ ∃ outcome, s.task = .ended outcome
  cleaning : s.cleaning = true → s.deferred = true
  closed : s.callerClosed = true → ∃ outcome, s.task = .ended outcome
  owner : s.closings = if s.deferred then (if s.cleaning then [] else [⟨false⟩])
    else if s.callerClosed && engine.callable then [⟨false⟩] else []
  cancelled : s.delivered = true → s.pending = true ∧ s.task.waiting = true ∨
    s.task = .ended .cancelled

variable {engine : Engine} {failure : Option ε} {s : System ε}

/-! ### Steps of the stream -/

theorem produce_done {t : StreamHandle.System ε}
    (h : t.handle.done = decide (t.phase = .finished)) :
    (t.produce failure).handle.done = decide ((t.produce failure).phase = .finished) := by
  rcases hphase : t.phase with ⟨piece, rest⟩ | ⟨piece, rest⟩ | _ | _ | _ | _ | _ | _ <;>
    rw [hphase] at h <;> unfold StreamHandle.System.produce <;> rw [hphase] <;> dsimp only
  · split
    · rw [StreamHandle.System.goTo]
      simpa [(next_ne rest).2] using h
    · simpa [StreamHandle.System.goTo] using h
  · split
    · simpa [(next_ne rest).2] using h
    · simpa [StreamHandle.System.goTo] using h
  · simpa using h
  · split <;> simpa [StreamHandle.System.goTo, StreamHandle.System.setQueue] using h
  · split <;> simpa [StreamHandle.System.goTo] using h
  · simpa [StreamHandle.System.goTo, StreamHandle.System.setQueue] using h
  · simp
  · rw [hphase]
    exact h

/-- A worker that is done stays so. -/
theorem produce_finished {t : StreamHandle.System ε} (h : t.phase = .finished) :
    t.produce failure = t := by
  unfold StreamHandle.System.produce
  rw [h]

theorem consume_phase (t : StreamHandle.System ε) : t.consume.phase = t.phase := by
  unfold StreamHandle.System.consume
  split <;> rfl

theorem consume_done (t : StreamHandle.System ε) : t.consume.handle.done = t.handle.done := by
  unfold StreamHandle.System.consume
  split <;> rfl

/-! ### The invariant -/

theorem inv_start (pieces : List Str) : Inv engine (System.start pieces : System ε) where
  done := by
    show false = decide (next pieces = .finished)
    rw [decide_eq_false (next_ne pieces).2]
  seen := nofun
  handed := nofun
  cleaning := nofun
  closed := nofun
  owner := rfl
  cancelled := nofun

/-- Only the stream goes on. -/
theorem Inv.stream (h : Inv engine s) {t : StreamHandle.System ε}
    (hdone : t.handle.done = decide (t.phase = .finished))
    (hstays : s.stream.phase = .finished → t.phase = .finished) :
    Inv engine { s with stream := t } where
  done := hdone
  seen hseen hdeferred :=
    decide_eq_true (hstays (of_decide_eq_true (h.seen hseen hdeferred)))
  handed := h.handed
  cleaning := h.cleaning
  closed := h.closed
  owner := h.owner
  cancelled := h.cancelled

theorem Inv.consume (h : Inv engine s) : Inv engine { s with stream := s.stream.consume } := by
  apply h.stream
  · rw [consume_done, consume_phase]
    exact h.done
  · intro hfinished
    rw [consume_phase, hfinished]

/-- Before the call has ended nothing was handed over or closed. -/
theorem Inv.unclosed (h : Inv engine s) (htask : ∀ outcome, s.task ≠ .ended outcome) :
    s.deferred = false ∧ s.callerClosed = false ∧ s.closings = [] := by
  have hdeferred : s.deferred = false := by
    by_contra hdeferred
    obtain ⟨-, outcome, hended⟩ := h.handed (by simpa using hdeferred)
    exact htask outcome hended
  have hcaller : s.callerClosed = false := by
    by_contra hcaller
    obtain ⟨outcome, hended⟩ := h.closed (by simpa using hcaller)
    exact htask outcome hended
  refine ⟨hdeferred, hcaller, ?_⟩
  have howner := h.owner
  rw [hdeferred, hcaller] at howner
  exact howner

/-- The task moves within the call: it sees the worker done where it has to, and keeps the
cancellations that were delivered. -/
theorem Inv.moveTo (h : Inv engine s) {task : Task} (htask : ∀ outcome, s.task ≠ .ended outcome)
    (hseen : task.seen = true → s.workerDone = true)
    (hcancelled : s.delivered = true → s.pending = true ∧ task.waiting = true ∨
      task = .ended .cancelled) : Inv engine { s with task } := by
  obtain ⟨hdeferred, hcaller, hclosings⟩ := h.unclosed htask
  refine ⟨h.done, fun hs _ => hseen hs, ?_, h.cleaning, ?_, h.owner, hcancelled⟩
  · intro hd
    rw [hdeferred] at hd
    cases hd
  · intro hc
    rw [hcaller] at hc
    cases hc

theorem Inv.leave (h : Inv engine s) (htask : s.task = .reading) (exit : Exit) :
    Inv engine (s.leave exit) := by
  have hstopped : Inv engine { s with stream := s.stream.requestStop } :=
    h.stream h.done fun hfinished => hfinished
  apply hstopped.moveTo
  · intro outcome
    rw [htask]
    exact nofun
  · exact nofun
  · intro hdelivered
    rcases h.cancelled hdelivered with ⟨-, hwaiting⟩ | hended
    · rw [htask] at hwaiting
      cases hwaiting
    · rw [htask] at hended
      cases hended

theorem Inv.firstToken (h : Inv engine s) : Inv engine { s with firstToken := true } :=
  ⟨h.done, h.seen, h.handed, h.cleaning, h.closed, h.owner, h.cancelled⟩

theorem Inv.receive (h : Inv engine s) (htask : s.task = .reading) (callbackFails : Bool)
    (item : Option Str) : Inv engine (s.receive callbackFails item) := by
  cases item with
  | none =>
      simp only [System.receive]
      split
      · exact h.leave htask _
      · exact h.leave htask _
  | some piece =>
      simp only [System.receive]
      split
      · exact h
      · split
        · exact h.firstToken.leave htask _
        · exact h.firstToken

theorem Inv.chunk (h : Inv engine s) (callbackFails : Bool) :
    Inv engine (s.chunk callbackFails) := by
  unfold System.chunk
  split
  · next htask _ => exact h.consume.receive htask callbackFails _
  · exact h

theorem Inv.takeStray (h : Inv engine s) : Inv engine s.takeStray := by
  unfold System.takeStray
  split
  · have hconsumed := h.consume
    exact ⟨hconsumed.done, hconsumed.seen, h.handed, h.cleaning, h.closed, h.owner, h.cancelled⟩
  · exact h

/-- A cancellation that stays pending while the task waits for the worker. -/
theorem Inv.mark (h : Inv engine s) (hwaiting : s.task.waiting = true) (stray : Bool) :
    Inv engine { s with pending := true, delivered := true, stray } :=
  ⟨h.done, h.seen, h.handed, h.cleaning, h.closed, h.owner, fun _ => Or.inl ⟨rfl, hwaiting⟩⟩

theorem Inv.cancel (h : Inv engine s) : Inv engine s.cancel := by
  unfold System.cancel
  split
  · next htask =>
    -- the read loop is left, and the cancellation stays pending
    show Inv engine { s.leave .cancelled with pending := true, delivered := true, stray := true }
    exact (h.leave htask .cancelled).mark rfl true
  · next htask => exact h.mark (by rw [htask]; rfl) s.stray
  · next htask => exact h.mark (by rw [htask]; rfl) s.stray
  · next htask =>
    -- the token count is cancelled at once
    have hnotEnded : ∀ outcome, s.task ≠ .ended outcome := by
      intro outcome
      rw [htask]
      exact nofun
    obtain ⟨hdeferred, hcaller, -⟩ := h.unclosed hnotEnded
    have hdone : s.workerDone = true := h.seen (by rw [htask]; rfl) hdeferred
    refine ⟨h.done, fun _ _ => hdone, ?_, h.cleaning, fun _ => ⟨_, rfl⟩, h.owner,
      fun _ => Or.inr rfl⟩
    intro hd
    have : s.deferred = true := hd
    rw [hdeferred] at this
    cases this
  · exact h

theorem Inv.answer (h : Inv engine s) : Inv engine s.answer := by
  unfold System.answer
  split
  · next exit htask =>
    apply h.moveTo
    · intro outcome
      rw [htask]
      exact nofun
    · intro hseen
      rw [← h.done]
      cases hanswer : s.stream.handle.done with
      | true => rfl
      | false =>
          rw [hanswer] at hseen
          cases hseen
    · intro hdelivered
      rcases h.cancelled hdelivered with ⟨hpending, -⟩ | hended
      · exact Or.inl ⟨hpending, rfl⟩
      · rw [htask] at hended
        cases hended
  · next exit htask =>
    split
    · next hanswer =>
      apply h.moveTo
      · intro outcome
        rw [htask]
        exact nofun
      · intro _
        rw [← h.done, hanswer]
      · intro hdelivered
        rcases h.cancelled hdelivered with ⟨hpending, -⟩ | hended
        · exact Or.inl ⟨hpending, rfl⟩
        · rw [htask] at hended
          cases hended
    · exact h
  · exact h

/-- The end of the `finally` block, with the worker done. -/
theorem Inv.conclude (h : Inv engine s) (htask : s.task.waiting = true)
    (hdone : s.workerDone = true) (exit : Exit) : Inv engine (s.conclude exit) := by
  have hnotEnded : ∀ outcome, s.task ≠ .ended outcome := by
    intro outcome hended
    rw [hended] at htask
    cases htask
  have hmissed : s.pending ≠ true → s.delivered ≠ true := by
    intro hpending hdelivered
    rcases h.cancelled hdelivered with ⟨hp, -⟩ | hended
    · exact hpending hp
    · exact hnotEnded _ hended
  unfold System.conclude
  split
  · exact h.moveTo hnotEnded (fun _ => hdone) fun _ => Or.inr rfl
  · next hpending =>
    have hnever : ∀ task : Task, Inv engine { s with task } := fun task =>
      h.moveTo hnotEnded (fun _ => hdone) fun hdelivered =>
        absurd hdelivered (hmissed hpending)
    split
    · exact hnever _
    · cases exit <;> exact hnever _

/-- The close is handed to the cleanup thread, and the call ends. -/
theorem Inv.defer (h : Inv engine s) (htask : s.task.waiting = true)
    (hcallable : engine.callable = true) (exit : Exit) :
    Inv engine ({ s with deferred := true, cleaning := true, timedOut := true }.conclude exit) := by
  have hnotEnded : ∀ outcome, s.task ≠ .ended outcome := by
    intro outcome hended
    rw [hended] at htask
    cases htask
  obtain ⟨-, hcaller, hclosings⟩ := h.unclosed hnotEnded
  unfold System.conclude
  split
  · refine ⟨h.done, fun _ hd => absurd hd (by simp), fun _ => ⟨hcallable, _, rfl⟩, fun _ => rfl,
      fun _ => ⟨_, rfl⟩, hclosings, fun _ => Or.inr rfl⟩
  · next hpending =>
    refine ⟨h.done, fun _ hd => absurd hd (by simp), fun _ => ⟨hcallable, _, rfl⟩, fun _ => rfl,
      fun _ => ⟨_, rfl⟩, hclosings, fun hdelivered => ?_⟩
    rcases h.cancelled hdelivered with ⟨hp, -⟩ | hended
    · exact absurd hp hpending
    · exact absurd hended (hnotEnded _)

theorem Inv.resume (h : Inv engine s) : Inv engine (s.resume engine) := by
  have hdone : s.task.seen = true → s.task.waiting = true → s.workerDone = true := by
    intro hseen hwaiting
    refine h.seen hseen (h.unclosed fun outcome hended => ?_).1
    rw [hended] at hwaiting
    cases hwaiting
  unfold System.resume
  split
  · next exit htask =>
    have hwaiting : s.task.waiting = true := by rw [htask]; rfl
    exact h.conclude hwaiting (hdone (by rw [htask]; rfl) hwaiting) exit
  · next exit htask =>
    have hwaiting : s.task.waiting = true := by rw [htask]; rfl
    split
    · next hengine => exact h.defer hwaiting (Bool.and_eq_true _ _ |>.mp hengine).1 exit
    · -- the engine keeps its close, and the task waits on
      have htimedOut : Inv engine { s with timedOut := true } :=
        ⟨h.done, h.seen, h.handed, h.cleaning, h.closed, h.owner, h.cancelled⟩
      apply htimedOut.moveTo
      · intro outcome
        show s.task ≠ _
        rw [htask]
        exact nofun
      · exact nofun
      · intro hdelivered
        rcases h.cancelled hdelivered with ⟨hpending, -⟩ | hended
        · exact Or.inl ⟨hpending, rfl⟩
        · rw [htask] at hended
          cases hended
  · next exit htask =>
    have hwaiting : s.task.waiting = true := by rw [htask]; rfl
    exact h.conclude hwaiting (hdone (by rw [htask]; rfl) hwaiting) exit
  · exact h

theorem Inv.counted (h : Inv engine s) (ok : Bool) : Inv engine (s.counted ok) := by
  unfold System.counted
  split
  · next htask =>
    have hnotEnded : ∀ outcome, s.task ≠ .ended outcome := by
      intro outcome
      rw [htask]
      exact nofun
    have hdone : s.workerDone = true :=
      h.seen (by rw [htask]; rfl) (h.unclosed hnotEnded).1
    refine h.moveTo hnotEnded (fun _ => hdone) fun hdelivered => ?_
    rcases h.cancelled hdelivered with ⟨-, hwaiting⟩ | hended
    · rw [htask] at hwaiting
      cases hwaiting
    · exact absurd hended (hnotEnded _)
  · exact h

theorem Inv.callerClose (h : Inv engine s) : Inv engine (s.callerClose engine) := by
  unfold System.callerClose
  split
  · next outcome htask =>
    have hended : ∃ outcome, s.task = .ended outcome := ⟨outcome, htask⟩
    split
    · exact h
    · next hfirst =>
      have hcaller : s.callerClosed = false := by simpa using hfirst
      split
      · next hno =>
        -- the close of the engine does nothing, or there is none
        refine ⟨h.done, h.seen, h.handed, h.cleaning, fun _ => hended, ?_, h.cancelled⟩
        have howner := h.owner
        rw [hcaller] at howner
        show s.closings = _
        rw [howner]
        rw [Bool.or_eq_true] at hno
        rcases hno with hdeferred | hnone
        · rw [hdeferred, if_pos rfl, if_pos rfl]
        · have hcallable : engine.callable = false := by simpa using hnone
          rw [hcallable]
          rfl
      · next hyes =>
        rw [Bool.or_eq_true, not_or] at hyes
        have hdeferred : s.deferred = false := by simpa using hyes.1
        have hcallable : engine.callable = true := by simpa using hyes.2
        have hdone : s.workerDone = true := h.seen (by rw [htask]; rfl) hdeferred
        have howner := h.owner
        rw [hcaller, hdeferred] at howner
        refine ⟨h.done, h.seen, h.handed, h.cleaning, fun _ => hended, ?_, h.cancelled⟩
        show s.closings ++ [⟨!s.workerDone⟩] =
          if s.deferred = true then _ else if (true && engine.callable) = true then _ else _
        rw [howner, hdeferred, hcallable, hdone]
        rfl
  · exact h

theorem Inv.cleanup (h : Inv engine s) : Inv engine s.cleanup := by
  unfold System.cleanup
  split
  · next hready =>
    obtain ⟨hcleaning, hfinished⟩ := Bool.and_eq_true _ _ |>.mp hready
    have hdeferred := h.cleaning hcleaning
    have hdone : s.workerDone = true := by rw [← h.done, hfinished]
    have howner := h.owner
    rw [hdeferred, hcleaning] at howner
    refine ⟨h.done, h.seen, h.handed, fun hc => absurd hc (by simp [System.close]), h.closed, ?_,
      h.cancelled⟩
    show s.closings ++ [⟨!s.workerDone⟩] =
      if s.deferred = true then if false = true then _ else _ else _
    rw [howner, hdeferred, hdone]
    rfl
  · exact h

/-- **Each step keeps the owner of the close.** -/
theorem inv_step (h : Inv engine s) (e : Event) : Inv engine (step engine failure s e) := by
  cases e with
  | worker =>
      exact h.stream (produce_done h.done) fun hfinished => by
        rw [produce_finished hfinished, hfinished]
  | chunk callbackFails => exact h.chunk callbackFails
  | stray => exact h.takeStray
  | cancel => exact h.cancel
  | answer => exact h.answer
  | resume => exact h.resume
  | counted ok => exact h.counted ok
  | callerClose => exact h.callerClose
  | cleanup => exact h.cleanup

theorem inv_trace (pieces : List Str) (events : ℕ → Event) (n : ℕ) :
    Inv engine (trace engine pieces failure events n) := by
  induction n with
  | zero => exact inv_start pieces
  | succ n ih => exact inv_step ih (events n)

/-! ### What stays -/

/-- What no later step takes back. -/
structure Later (s t : System ε) : Prop where
  worker : s.workerDone = true → t.workerDone = true
  caller : s.callerClosed = true → t.callerClosed = true
  deferred : s.deferred = true → t.deferred = true

theorem Later.of_phase {s t : System ε} (hphase : t.stream.phase = s.stream.phase)
    (hcaller : s.callerClosed = true → t.callerClosed = true)
    (hdeferred : s.deferred = true → t.deferred = true) : Later s t where
  worker hdone := by
    rw [System.workerDone, hphase]
    exact hdone
  caller := hcaller
  deferred := hdeferred

theorem later_conclude (s : System ε) (exit : Exit) : Later s (s.conclude exit) := by
  unfold System.conclude
  split
  · exact .of_phase rfl id id
  · split
    · exact .of_phase rfl id id
    · cases exit <;> exact .of_phase rfl id id

theorem later_receive (s : System ε) (callbackFails : Bool) (item : Option Str) :
    Later s (s.receive callbackFails item) := by
  cases item with
  | none =>
      simp only [System.receive]
      split <;> exact .of_phase rfl id id
  | some piece =>
      simp only [System.receive]
      split
      · exact .of_phase rfl id id
      · split <;> exact .of_phase rfl id id

theorem later_resume (engine : Engine) (s : System ε) : Later s (s.resume engine) := by
  unfold System.resume
  split
  · exact later_conclude s _
  · split
    · have h := later_conclude
        { s with deferred := true, cleaning := true, timedOut := true } ‹Exit›
      exact ⟨h.worker, h.caller, fun _ => h.deferred rfl⟩
    · exact .of_phase rfl id id
  · exact later_conclude s _
  · exact .of_phase rfl id id

theorem step_later (s : System ε) (e : Event) : Later s (step engine failure s e) := by
  cases e with
  | worker =>
      refine ⟨fun hdone => ?_, id, id⟩
      have hfinished : s.stream.phase = .finished := of_decide_eq_true hdone
      show decide ((s.stream.produce failure).phase = .finished) = true
      rw [produce_finished hfinished]
      exact hdone
  | chunk callbackFails =>
      simp only [step, System.chunk]
      split
      · have h := later_receive { s with stream := s.stream.consume } callbackFails ‹Option Str›
        refine ⟨fun hdone => h.worker ?_, h.caller, h.deferred⟩
        rw [System.workerDone, consume_phase]
        exact hdone
      · exact .of_phase rfl id id
  | stray =>
      simp only [step, System.takeStray]
      split
      · exact .of_phase (consume_phase s.stream) id id
      · exact .of_phase rfl id id
  | cancel =>
      simp only [step, System.cancel]
      split <;> exact .of_phase rfl id id
  | answer =>
      simp only [step, System.answer]
      split
      · exact .of_phase rfl id id
      · split <;> exact .of_phase rfl id id
      · exact .of_phase rfl id id
  | resume => exact later_resume engine s
  | counted ok =>
      simp only [step, System.counted]
      split <;> exact .of_phase rfl id id
  | callerClose =>
      simp only [step, System.callerClose]
      split
      · split
        · exact .of_phase rfl id id
        · split
          · exact .of_phase rfl (fun _ => rfl) id
          · exact .of_phase rfl (fun _ => rfl) id
      · exact .of_phase rfl id id
  | cleanup =>
      simp only [step, System.cleanup]
      split <;> exact .of_phase rfl id id

/-! ### The close of a run -/

/-- Where the close was handed over and the worker is done, the cleanup thread has closed the
engine after its next step. -/
theorem cleanup_closes (h : Inv engine s) (hdeferred : s.deferred = true)
    (hdone : s.workerDone = true) : s.cleanup.closings = [⟨false⟩] := by
  have hclosed : s.cleanup.cleaning = false := by
    unfold System.cleanup
    split
    · rfl
    · next hidle =>
      rw [h.done, hdone, Bool.and_true] at hidle
      simpa using hidle
  have howner := h.cleanup.owner
  have hlater : Later s (step engine (none : Option ε) s .cleanup) := step_later s .cleanup
  have hstill : s.cleanup.deferred = true := hlater.deferred hdeferred
  rw [hstill, hclosed] at howner
  exact howner

end InferBridge.BenchmarkStream
