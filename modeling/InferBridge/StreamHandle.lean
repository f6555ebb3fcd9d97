/-
InferBridge/StreamHandle.lean

The bridge from a generation worker to the task that streams its output
(`StreamHandle` in runtime/openvino_engine.py).

The worker pushes its pieces into a bounded queue and finishes with an end
marker; the other side takes them out one by one.  A stop can be requested
by anyone.  A step is one operation on the queue or on the flag: a `put`
that times out is a step that finds the queue full.

Design.  Received and queued entries together are the pushed pieces, in
their order and then the marker, but for those that `finish` has evicted:
that is the invariant `Inv`, kept by each step (`inv_step`).  That the end
comes is shown with the rules of InferBridge/Lib/Progress: once a stop is
requested each step of the worker lowers its `rank`; before that the worker
or the other side lowers the `load`.

Main results.  `stream_delivers`: in every order of the steps in which the
worker is not suspended forever, nothing is lost without a stop, and with a
stop the worker finishes and the marker arrives behind a part of the pieces.
-/
import InferBridge.Lib.Progress

namespace InferBridge.StreamHandle

open Progress

abbrev Str := List Char

/-! ### The handle -/

/-- `queue.Queue(maxsize=1024)` -/
def maxsize : Nat := 1024

/-- `StreamHandle`; the end marker is `none` in the queue. -/
structure Handle (ε : Type) where
  queue : List (Option Str) := []
  error : Option ε := none
  text : Str := []
  stop : Bool := false
  done : Bool := false

/-- Where the worker is: in `push` before the look at the flag or before the `put`, or in
`finish`. -/
inductive Phase where
  | check (piece : Str) (rest : List Str)
  | put (piece : Str) (rest : List Str)
  | finish
  | finishPut
  | finishCheck
  | finishEvict
  | closing
  | finished
deriving DecidableEq, Repr

/-- The next push, or the end. -/
def next : List Str → Phase
  | [] => .finish
  | piece :: rest => .check piece rest

/-- Both sides; `pushed` are the pieces whose push returned `True`. -/
structure System (ε : Type) where
  handle : Handle ε
  phase : Phase
  pushed : List Str := []
  received : List (Option Str) := []

variable {ε : Type}

def System.start (pieces : List Str) : System ε where
  handle := { }
  phase := next pieces

namespace System

def goTo (s : System ε) (phase : Phase) : System ε := { s with phase }

def setQueue (s : System ε) (queue : List (Option Str)) : System ε :=
  { s with handle := { s.handle with queue } }

/-- A step of the worker, which ends with `failure`. -/
def produce (failure : Option ε) (s : System ε) : System ε :=
  match s.phase with
  | .check piece rest => if s.handle.stop then s.goTo (next rest) else s.goTo (.put piece rest)
  | .put piece rest =>
    if s.handle.queue.length < maxsize then
      { s with
        handle := { s.handle with
          queue := s.handle.queue ++ [some piece]
          text := s.handle.text ++ piece }
        phase := next rest
        pushed := s.pushed ++ [piece] }
    else s.goTo (.check piece rest)
  | .finish => { s with handle := { s.handle with error := failure }, phase := .finishPut }
  | .finishPut =>
    if s.handle.queue.length < maxsize then
      (s.setQueue (s.handle.queue ++ [none])).goTo .closing
    else s.goTo .finishCheck
  | .finishCheck => if s.handle.stop then s.goTo .finishEvict else s.goTo .finishPut
  -- an empty queue is left as it is
  | .finishEvict => (s.setQueue s.handle.queue.tail).goTo .finishPut
  | .closing => { s with handle := { s.handle with done := true }, phase := .finished }
  | .finished => s

/-- `next_chunk`; it waits where the queue is empty. -/
def consume (s : System ε) : System ε :=
  match s.handle.queue with
  | [] => s
  | item :: queue => { s.setQueue queue with received := s.received ++ [item] }

def requestStop (s : System ε) : System ε := { s with handle := { s.handle with stop := true } }

end System

inductive Event where
  | producer
  | consumer
  | requestStop
deriving DecidableEq, Repr

def step (failure : Option ε) (s : System ε) : Event → System ε
  | .producer => s.produce failure
  | .consumer => s.consume
  | .requestStop => s.requestStop

/-- The states of an interleaving. -/
def trace (pieces : List Str) (failure : Option ε) (events : ℕ → Event) : ℕ → System ε
  | 0 => System.start pieces
  | n + 1 => step failure (trace pieces failure events n) (events n)

/-! ### What was pushed, and where it is -/

/-- The pieces that are still to be pushed. -/
def Phase.todo : Phase → List Str
  | .check piece rest | .put piece rest => piece :: rest
  | _ => []

/-- The end marker is in the queue, or was taken out. -/
def Phase.ended : Phase → Bool
  | .closing | .finished => true
  | _ => false

/-- `finish` was called. -/
def Phase.finishing : Phase → Bool
  | .check _ _ | .put _ _ | .finish => false
  | _ => true

def Phase.marker (phase : Phase) : List (Option Str) := if phase.ended then [none] else []

structure Inv (pieces : List Str) (failure : Option ε) (s : System ε) : Prop where
  sent : ∃ d : List Str, s.received ++ s.handle.queue = d.map some ++ s.phase.marker ∧
    d.Sublist s.pushed ∧ (s.handle.stop = false → d = s.pushed)
  pushed : (s.pushed ++ s.phase.todo).Sublist pieces
  all : s.handle.stop = false → s.pushed ++ s.phase.todo = pieces
  bounded : s.handle.queue.length ≤ maxsize
  text : s.handle.text = s.pushed.flatten
  error : s.phase.finishing = true → s.handle.error = failure
  evicts : s.phase = .finishEvict → s.handle.stop = true
  done : s.phase = .finished → s.handle.done = true

theorem next_todo (rest : List Str) : (next rest).todo = rest := by
  cases rest <;> rfl

theorem next_ended (rest : List Str) : (next rest).ended = false := by
  cases rest <;> rfl

theorem next_finishing (rest : List Str) : (next rest).finishing = false := by
  cases rest <;> rfl

theorem next_ne (rest : List Str) : next rest ≠ .finishEvict ∧ next rest ≠ .finished := by
  cases rest <;> exact ⟨nofun, nofun⟩

theorem inv_start (pieces : List Str) (failure : Option ε) :
    Inv pieces failure (System.start pieces) where
  sent := ⟨[], by simp [System.start, Phase.marker, next_ended], List.Sublist.refl _, fun _ => rfl⟩
  pushed := by
    show ([] ++ (next pieces).todo).Sublist pieces
    rw [next_todo]
    exact List.Sublist.refl _
  all _ := next_todo pieces
  bounded := Nat.zero_le _
  text := rfl
  error h := by
    rw [show (@System.start ε pieces).phase = next pieces from rfl, next_finishing] at h
    cases h
  evicts h := absurd h (next_ne pieces).1
  done h := absurd h (next_ne pieces).2

variable {pieces : List Str} {failure : Option ε} {s : System ε}

/-- A change of phase only. -/
theorem Inv.goTo (h : Inv pieces failure s) {phase : Phase}
    (hmarker : phase.ended = s.phase.ended) (htodo : phase.todo.Sublist s.phase.todo)
    (hall : s.handle.stop = false → phase.todo = s.phase.todo)
    (hfinishing : phase.finishing = true → s.phase.finishing = true)
    (hevicts : phase = .finishEvict → s.handle.stop = true) (hdone : phase ≠ .finished) :
    Inv pieces failure (s.goTo phase) where
  sent := by
    obtain ⟨d, hsent, hsublist, hsame⟩ := h.sent
    refine ⟨d, ?_, hsublist, hsame⟩
    show s.received ++ s.handle.queue = d.map some ++ phase.marker
    rw [hsent, Phase.marker, Phase.marker, hmarker]
  pushed := ((htodo.append_left s.pushed)).trans h.pushed
  all hstop := by
    show s.pushed ++ phase.todo = pieces
    rw [hall hstop]
    exact h.all hstop
  bounded := h.bounded
  text := h.text
  error hf := h.error (hfinishing hf)
  evicts := hevicts
  done hf := absurd hf hdone

theorem marker_of_not_ended {phase : Phase} (h : phase.ended = false) : phase.marker = [] := by
  rw [Phase.marker, h]
  rfl

theorem inv_push (h : Inv pieces failure s) {piece : Str} {rest : List Str}
    (hphase : s.phase = .put piece rest) (hroom : s.handle.queue.length < maxsize) :
    Inv pieces failure { s with
      handle := { s.handle with
        queue := s.handle.queue ++ [some piece]
        text := s.handle.text ++ piece }
      phase := next rest
      pushed := s.pushed ++ [piece] } where
  sent := by
    obtain ⟨d, hsent, hsublist, hsame⟩ := h.sent
    rw [hphase, marker_of_not_ended rfl, List.append_nil] at hsent
    refine ⟨d ++ [piece], ?_, hsublist.append (List.Sublist.refl _), fun hstop => ?_⟩
    · show s.received ++ (s.handle.queue ++ [some piece]) = _ ++ (next rest).marker
      rw [marker_of_not_ended (next_ended rest), ← List.append_assoc, hsent, List.append_nil,
        List.map_append]
      rfl
    · show d ++ [piece] = s.pushed ++ [piece]
      rw [hsame hstop]
  pushed := by
    have hpushed := h.pushed
    rw [hphase] at hpushed
    show (s.pushed ++ [piece] ++ (next rest).todo).Sublist pieces
    rw [next_todo, List.append_assoc]
    exact hpushed
  all hstop := by
    have hall := h.all hstop
    rw [hphase] at hall
    show s.pushed ++ [piece] ++ (next rest).todo = pieces
    rw [next_todo, List.append_assoc]
    exact hall
  bounded := by
    show (s.handle.queue ++ [some piece]).length ≤ maxsize
    rw [List.length_append, List.length_singleton]
    exact hroom
  text := by
    show s.handle.text ++ piece = (s.pushed ++ [piece]).flatten
    rw [h.text, List.flatten_append, List.flatten_singleton]
  error hf := by
    rw [show Phase.finishing _ = (next rest).finishing from rfl, next_finishing] at hf
    cases hf
  evicts hp := absurd hp (next_ne rest).1
  done hp := absurd hp (next_ne rest).2

theorem inv_end (h : Inv pieces failure s) (hphase : s.phase = .finishPut)
    (hroom : s.handle.queue.length < maxsize) :
    Inv pieces failure ((s.setQueue (s.handle.queue ++ [none])).goTo .closing) where
  sent := by
    obtain ⟨d, hsent, hsublist, hsame⟩ := h.sent
    rw [hphase, marker_of_not_ended rfl, List.append_nil] at hsent
    refine ⟨d, ?_, hsublist, hsame⟩
    show s.received ++ (s.handle.queue ++ [none]) = d.map some ++ [none]
    rw [← List.append_assoc, hsent]
  pushed := by
    have hpushed := h.pushed
    rw [hphase] at hpushed
    exact hpushed
  all hstop := by
    have hall := h.all hstop
    rw [hphase] at hall
    exact hall
  bounded := by
    show (s.handle.queue ++ [none]).length ≤ maxsize
    rw [List.length_append, List.length_singleton]
    exact hroom
  text := h.text
  error _ := h.error (by rw [hphase]; rfl)
  evicts hp := nomatch hp
  done hp := nomatch hp

/-- An eviction takes the oldest entry, which is a piece. -/
theorem inv_evict (h : Inv pieces failure s) (hphase : s.phase = .finishEvict) :
    Inv pieces failure ((s.setQueue s.handle.queue.tail).goTo .finishPut) where
  sent := by
    obtain ⟨d, hsent, hsublist, -⟩ := h.sent
    rw [hphase, marker_of_not_ended rfl, List.append_nil] at hsent
    have hless : (s.received ++ s.handle.queue.tail).Sublist (d.map some) := by
      rw [← hsent]
      exact (List.tail_sublist _).append_left _
    obtain ⟨d', hd', heq⟩ := List.sublist_map_iff.mp hless
    refine ⟨d', ?_, hd'.trans hsublist, fun hstop => ?_⟩
    · show s.received ++ s.handle.queue.tail = d'.map some ++ []
      rw [List.append_nil, heq]
    · have hset : s.handle.stop = true := h.evicts hphase
      rw [show s.handle.stop = false from hstop] at hset
      cases hset
  pushed := by
    have hpushed := h.pushed
    rw [hphase] at hpushed
    exact hpushed
  all hstop := by
    have hall := h.all hstop
    rw [hphase] at hall
    exact hall
  bounded := by
    show s.handle.queue.tail.length ≤ maxsize
    rw [List.length_tail]
    exact (Nat.sub_le _ 1).trans h.bounded
  text := h.text
  error _ := h.error (by rw [hphase]; rfl)
  evicts hp := nomatch hp
  done hp := nomatch hp

theorem inv_produce (h : Inv pieces failure s) : Inv pieces failure (s.produce failure) := by
  unfold System.produce
  rcases hphase : s.phase with ⟨piece, rest⟩ | ⟨piece, rest⟩ | - | - | - | - | - | - <;> dsimp only
  · split
    · next hstop =>
      refine h.goTo (by rw [hphase, next_ended]; rfl) ?_ ?_ ?_ (fun hp => absurd hp (next_ne rest).1)
        (next_ne rest).2
      · rw [next_todo, hphase]
        exact List.sublist_cons_self piece rest
      · intro hno
        rw [hstop] at hno
        cases hno
      · intro hf
        rw [next_finishing] at hf
        cases hf
    · refine h.goTo (by rw [hphase]; rfl) (by rw [hphase]; exact List.Sublist.refl _)
        (fun _ => by rw [hphase]; rfl) nofun nofun nofun
  · split
    · next hroom => exact inv_push h hphase hroom
    · refine h.goTo (by rw [hphase]; rfl) (by rw [hphase]; exact List.Sublist.refl _)
        (fun _ => by rw [hphase]; rfl) nofun nofun nofun
  · refine ⟨?_, ?_, ?_, h.bounded, h.text, fun _ => rfl, nofun, nofun⟩
    · have hsent := h.sent
      rw [hphase] at hsent
      exact hsent
    · have hpushed := h.pushed
      rw [hphase] at hpushed
      exact hpushed
    · have hall := h.all
      rw [hphase] at hall
      exact hall
  · split
    · next hroom => exact inv_end h hphase hroom
    · exact h.goTo (by rw [hphase]; rfl) (List.nil_sublist _) (fun _ => by rw [hphase]; rfl)
        (fun _ => by rw [hphase]; rfl) nofun nofun
  · split
    · next hstop =>
      exact h.goTo (by rw [hphase]; rfl) (List.nil_sublist _) (fun _ => by rw [hphase]; rfl)
        (fun _ => by rw [hphase]; rfl) (fun _ => hstop) nofun
    · exact h.goTo (by rw [hphase]; rfl) (List.nil_sublist _) (fun _ => by rw [hphase]; rfl)
        (fun _ => by rw [hphase]; rfl) nofun nofun
  · exact inv_evict h hphase
  · refine ⟨?_, ?_, ?_, h.bounded, h.text, fun _ => ?_, nofun, fun _ => rfl⟩
    · have hsent := h.sent
      rw [hphase] at hsent
      exact hsent
    · have hpushed := h.pushed
      rw [hphase] at hpushed
      exact hpushed
    · have hall := h.all
      rw [hphase] at hall
      exact hall
    · exact h.error (by rw [hphase]; rfl)
  · exact h

theorem inv_consume (h : Inv pieces failure s) : Inv pieces failure s.consume := by
  unfold System.consume
  rcases hqueue : s.handle.queue with - | ⟨item, queue⟩ <;> dsimp only
  · exact h
  · refine ⟨?_, h.pushed, h.all, ?_, h.text, h.error, h.evicts, h.done⟩
    · obtain ⟨d, hsent, hrest⟩ := h.sent
      refine ⟨d, ?_, hrest⟩
      rw [hqueue] at hsent
      show s.received ++ [item] ++ queue = d.map some ++ s.phase.marker
      rw [List.append_assoc]
      exact hsent
    · have hbounded := h.bounded
      rw [hqueue] at hbounded
      exact (Nat.le_succ _).trans hbounded

theorem inv_requestStop (h : Inv pieces failure s) : Inv pieces failure s.requestStop := by
  obtain ⟨d, hsent, hsublist, -⟩ := h.sent
  exact ⟨⟨d, hsent, hsublist, nofun⟩, h.pushed, nofun, h.bounded, h.text, h.error, fun _ => rfl,
    h.done⟩

/-- **Each step keeps the invariant.** -/
theorem inv_step (h : Inv pieces failure s) (e : Event) : Inv pieces failure (step failure s e) := by
  cases e with
  | producer => exact inv_produce h
  | consumer => exact inv_consume h
  | requestStop => exact inv_requestStop h

theorem inv_trace (pieces : List Str) (failure : Option ε) (events : ℕ → Event) (n : ℕ) :
    Inv pieces failure (trace pieces failure events n) := by
  induction n with
  | zero => exact inv_start pieces failure
  | succ n ih => exact inv_step ih (events n)

/-! ### The worker with a stop -/

/-- How many steps the worker needs at most once a stop is requested. -/
def Phase.rank (queued : Nat) : Phase → Nat
  | .check _ rest => 2 * rest.length + 8
  | .put _ rest => 2 * rest.length + 9
  | .finish => 6
  | .finishPut => if queued < maxsize then 2 else 5
  | .finishCheck => 4
  | .finishEvict => 3
  | .closing => 1
  | .finished => 0

def rank (s : System ε) : Nat := s.phase.rank s.handle.queue.length

theorem rank_next (queued : Nat) (rest : List Str) :
    (next rest).rank queued ≤ 2 * rest.length + 6 := by
  cases rest with
  | nil => exact le_rfl
  | cons piece rest =>
    show 2 * rest.length + 8 ≤ 2 * (rest.length + 1) + 6
    omega

theorem rank_finishPut_le (queued : Nat) : Phase.finishPut.rank queued ≤ 5 := by
  show (if queued < maxsize then 2 else 5) ≤ 5
  split <;> omega

theorem rank_mono (phase : Phase) {queued queued' : Nat} (h : queued ≤ queued') :
    phase.rank queued ≤ phase.rank queued' := by
  cases phase with
  | finishPut =>
    show (if queued < maxsize then 2 else 5) ≤ if queued' < maxsize then 2 else 5
    split <;> split <;> omega
  | _ => exact le_rfl

theorem rank_produce (h : Inv pieces failure s) (hstop : s.handle.stop = true)
    (hrunning : s.phase ≠ .finished) : rank (s.produce failure) < rank s := by
  unfold System.produce
  rcases hphase : s.phase with ⟨piece, rest⟩ | ⟨piece, rest⟩ | - | - | - | - | - | - <;> dsimp only
  · rw [if_pos hstop]
    refine (rank_next _ rest).trans_lt ?_
    simp only [rank, hphase, Phase.rank]
    omega
  · split
    · refine (rank_next _ rest).trans_lt ?_
      simp only [rank, hphase, Phase.rank]
      omega
    · simp only [rank, hphase, System.goTo, Phase.rank]
      omega
  · refine (rank_finishPut_le _).trans_lt ?_
    simp only [rank, hphase, Phase.rank]
    omega
  · split
    · next hroom =>
      simp only [rank, hphase, System.goTo, Phase.rank, if_pos hroom]
      omega
    · next hroom =>
      simp only [rank, hphase, System.goTo, Phase.rank, if_neg hroom]
      omega
  · rw [if_pos hstop]
    simp only [rank, hphase, System.goTo, Phase.rank]
    omega
  · -- after an eviction there is room
    have hroom : s.handle.queue.tail.length < maxsize := by
      have hbounded := h.bounded
      rw [List.length_tail]
      have hsize : 0 < maxsize := by decide
      omega
    simp only [rank, hphase, System.goTo, System.setQueue, Phase.rank, if_pos hroom]
    omega
  · simp only [rank, hphase, Phase.rank]
    omega
  · exact absurd hphase hrunning

theorem consume_phase (s : System ε) : s.consume.phase = s.phase := by
  unfold System.consume
  split <;> rfl

theorem consume_stop (s : System ε) : s.consume.handle.stop = s.handle.stop := by
  unfold System.consume
  split <;> rfl

theorem consume_queue (s : System ε) : s.consume.handle.queue = s.handle.queue.tail := by
  unfold System.consume
  split
  · next hqueue => rw [hqueue]; rfl
  · next hqueue => rw [hqueue]; rfl

theorem produce_stop (s : System ε) : (s.produce failure).handle.stop = s.handle.stop := by
  unfold System.produce
  split <;> try rfl
  all_goals split <;> rfl

theorem step_stop (h : s.handle.stop = true) (e : Event) :
    (step failure s e).handle.stop = true := by
  cases e with
  | producer => exact (produce_stop s).trans h
  | consumer => exact (consume_stop s).trans h
  | requestStop => rfl

theorem rank_step (h : Inv pieces failure s) (hstop : s.handle.stop = true) (e : Event) :
    rank (step failure s e) ≤ rank s := by
  cases e with
  | producer =>
    by_cases hrunning : s.phase = .finished
    · show rank (s.produce failure) ≤ rank s
      unfold System.produce
      rw [hrunning]
    · exact (rank_produce h hstop hrunning).le
  | consumer =>
    show (s.consume.phase).rank s.consume.handle.queue.length ≤ _
    rw [consume_phase, consume_queue, List.length_tail]
    exact rank_mono _ (Nat.sub_le _ 1)
  | requestStop => exact le_rfl

/-! ### The worker without a stop -/

/-- What is still to be put, and to be taken. -/
def load (s : System ε) : Nat :=
  2 * (s.phase.todo.length + if s.phase.ended then 0 else 1) + s.handle.queue.length

/-- The worker is about to put something. -/
def ready : Phase → Bool
  | .put _ _ | .finishPut => true
  | _ => false

theorem load_next (rest : List Str) :
    (next rest).todo.length + (if (next rest).ended then 0 else 1) = rest.length + 1 := by
  rw [next_todo, next_ended]
  rfl

/-- Without a stop, a step of the worker lowers the load, puts the end marker, or changes between
the look at the flag and the `put`. -/
theorem produce_running (h : Inv pieces failure s) (hstop : s.handle.stop = false)
    (hended : s.phase.ended = false) :
    ((s.produce failure).phase.ended = true ∨ load (s.produce failure) < load s) ∨
      ((s.produce failure).phase.ended = false ∧ load (s.produce failure) = load s ∧
        (s.produce failure).handle.queue = s.handle.queue ∧
          (ready s.phase = true → maxsize ≤ s.handle.queue.length) ∧
            (ready s.phase = false → ready (s.produce failure).phase = true)) := by
  unfold System.produce
  rcases hphase : s.phase with ⟨piece, rest⟩ | ⟨piece, rest⟩ | - | - | - | - | - | - <;> dsimp only
  · rw [if_neg (by rw [hstop]; exact Bool.false_ne_true)]
    refine .inr ⟨rfl, ?_, rfl, nofun, fun _ => rfl⟩
    simp only [load, hphase, System.goTo, Phase.todo, Phase.ended]
    rfl
  · split
    · refine .inl (.inr ?_)
      have hnext := load_next rest
      simp only [load, hphase, Phase.todo, Phase.ended, List.length_append, List.length_cons,
        List.length_nil] at hnext ⊢
      simp only [Bool.false_eq_true, if_false]
      omega
    · next hfull =>
      refine .inr ⟨rfl, ?_, rfl, fun _ => not_lt.mp hfull, nofun⟩
      simp only [load, hphase, System.goTo, Phase.todo, Phase.ended]
      rfl
  · refine .inr ⟨rfl, ?_, rfl, nofun, fun _ => rfl⟩
    simp only [load, hphase, Phase.todo, Phase.ended]
    rfl
  · split
    · exact .inl (.inl rfl)
    · next hfull =>
      refine .inr ⟨rfl, ?_, rfl, fun _ => not_lt.mp hfull, nofun⟩
      simp only [load, hphase, System.goTo, Phase.todo, Phase.ended]
      rfl
  · rw [if_neg (by rw [hstop]; exact Bool.false_ne_true)]
    refine .inr ⟨rfl, ?_, rfl, nofun, fun _ => rfl⟩
    simp only [load, hphase, System.goTo, Phase.todo, Phase.ended]
    rfl
  · rw [h.evicts hphase] at hstop
    cases hstop
  · rw [hphase] at hended
    cases hended
  · rw [hphase] at hended
    cases hended

theorem load_consume (s : System ε) (hqueue : s.handle.queue ≠ []) :
    load s.consume < load s := by
  have hpos := List.length_pos_of_ne_nil hqueue
  unfold load
  rw [consume_phase, consume_queue, List.length_tail]
  omega

theorem consume_of_nil (s : System ε) (hqueue : s.handle.queue = []) : s.consume = s := by
  unfold System.consume
  rw [hqueue]

/-! ### The end comes -/

theorem step_finished (h : s.phase = .finished) (e : Event) :
    (step failure s e).phase = .finished := by
  cases e with
  | producer =>
    show (s.produce failure).phase = .finished
    unfold System.produce
    rw [h]
    exact h
  | consumer => exact (consume_phase s).trans h
  | requestStop => exact h

theorem step_ended (h : s.phase.ended = true) (e : Event) :
    (step failure s e).phase.ended = true := by
  cases e with
  | producer =>
    show (s.produce failure).phase.ended = true
    unfold System.produce
    rcases hphase : s.phase with ⟨piece, rest⟩ | ⟨piece, rest⟩ | - | - | - | - | - | - <;>
      rw [hphase] at h
    · cases h
    · cases h
    · cases h
    · cases h
    · cases h
    · cases h
    · rfl
    · show s.phase.ended = true
      rw [hphase]
      rfl
  | consumer =>
    show s.consume.phase.ended = true
    rw [consume_phase]
    exact h
  | requestStop => exact h

theorem step_drained (h : s.phase = .finished ∧ s.handle.queue = []) (e : Event) :
    (step failure s e).phase = .finished ∧ (step failure s e).handle.queue = [] := by
  refine ⟨step_finished h.1 e, ?_⟩
  cases e with
  | producer =>
    show (s.produce failure).handle.queue = []
    unfold System.produce
    rw [h.1]
    exact h.2
  | consumer =>
    show s.consume.handle.queue = []
    rw [consume_queue, h.2]
    rfl
  | requestStop => exact h.2

section Trace

variable {events : ℕ → Event}

theorem trace_producer {n : ℕ} (h : events n = .producer) :
    trace pieces failure events (n + 1) = (trace pieces failure events n).produce failure := by
  show step failure _ (events n) = _
  rw [h]
  rfl

theorem trace_consumer {n : ℕ} (h : events n = .consumer) :
    trace pieces failure events (n + 1) = (trace pieces failure events n).consume := by
  show step failure _ (events n) = _
  rw [h]
  rfl

theorem stop_finishes (hproducer : Recurring fun n => events n = .producer) :
    LeadsTo (trace pieces failure events) (fun x => x.handle.stop = true)
      (fun x => x.phase = .finished) := by
  refine LeadsTo.variant rank fun k => LeadsTo.ensures ?_ hproducer ?_
  · rintro n ⟨hstop, hrank⟩
    have hle := rank_step (inv_trace pieces failure events n) hstop (events n)
    have hstop' : (trace pieces failure events (n + 1)).handle.stop = true :=
      step_stop hstop (events n)
    rcases hle.lt_or_eq with hlt | heq
    · exact .inr (.inr ⟨hstop', hlt.trans_eq hrank⟩)
    · exact .inl ⟨hstop', heq.trans hrank⟩
  · rintro n hevent ⟨hstop, hrank⟩
    have hinv := inv_trace pieces failure events n
    by_cases hfinished : (trace pieces failure events n).phase = .finished
    · exact .inl (step_finished hfinished (events n))
    · refine .inr ⟨step_stop hstop (events n), ?_⟩
      rw [trace_producer hevent, ← hrank]
      exact rank_produce hinv hstop hfinished

theorem trace_running (hno : ∀ n, events n ≠ .requestStop) (n : ℕ) :
    (trace pieces failure events n).handle.stop = false := by
  induction n with
  | zero => rfl
  | succ n ih =>
    show (step failure _ (events n)).handle.stop = false
    rcases hevent : events n with - | - | -
    · exact (produce_stop _).trans ih
    · exact (consume_stop _).trans ih
    · exact absurd hevent (hno n)

/-- A step of either side that lowers the load, or is the last `put`. -/
def Lighter (k : ℕ) (x : System ε) : Prop :=
  x.phase.ended = true ∨ (x.phase.ended = false ∧ load x < k)

theorem lighter_of {k : ℕ} {x : System ε} (h : x.phase.ended = true ∨ load x < k) :
    Lighter k x := by
  rcases hended : x.phase.ended with - | -
  · rcases h with h | h
    · rw [hended] at h
      cases h
    · exact .inr ⟨hended, h⟩
  · exact .inl hended

/-- Where the queue is not empty, the other side lowers the load. -/
theorem lighter_of_queue (hno : ∀ n, events n ≠ .requestStop)
    (hconsumer : Recurring fun n => events n = .consumer) (k : ℕ) :
    LeadsTo (trace pieces failure events)
      (fun x => (x.phase.ended = false ∧ load x = k) ∧ x.handle.queue ≠ []) (Lighter k) := by
  refine LeadsTo.ensures ?_ hconsumer ?_
  · rintro n ⟨⟨hended, hload⟩, hqueue⟩
    have hinv := inv_trace pieces failure events n
    have hstop : (trace pieces failure events n).handle.stop = false := trace_running hno n
    rcases hevent : events n with - | - | -
    · rw [trace_producer hevent]
      rcases produce_running hinv hstop hended with hless | ⟨hended', hload', hqueue', -⟩
      · exact .inr (lighter_of (hload ▸ hless))
      · exact .inl ⟨⟨hended', hload'.trans hload⟩, fun h => hqueue (hqueue'.symm.trans h)⟩
    · rw [trace_consumer hevent]
      exact .inr (lighter_of (.inr (hload ▸ load_consume _ hqueue)))
    · exact absurd hevent (hno n)
  · rintro n hevent ⟨⟨hended, hload⟩, hqueue⟩
    rw [trace_consumer hevent]
    exact lighter_of (.inr (hload ▸ load_consume _ hqueue))

/-- Where the queue is empty and the worker is about to put something, it does. -/
theorem lighter_of_ready (hno : ∀ n, events n ≠ .requestStop)
    (hproducer : Recurring fun n => events n = .producer) (k : ℕ) :
    LeadsTo (trace pieces failure events)
      (fun x => ((x.phase.ended = false ∧ load x = k) ∧ x.handle.queue = []) ∧
        ready x.phase = true) (Lighter k) := by
  have hput (n : ℕ) (hended : (trace pieces failure events n).phase.ended = false)
      (hload : load (trace pieces failure events n) = k)
      (hqueue : (trace pieces failure events n).handle.queue = [])
      (hready : ready (trace pieces failure events n).phase = true) :
      Lighter k ((trace pieces failure events n).produce failure) := by
    rcases produce_running (inv_trace pieces failure events n) (trace_running hno n) hended with
      hless | ⟨-, -, -, hfull, -⟩
    · exact lighter_of (hload ▸ hless)
    · have hsize := hfull hready
      rw [hqueue] at hsize
      exact absurd hsize (by decide)
  refine LeadsTo.ensures ?_ hproducer ?_
  · rintro n ⟨⟨⟨hended, hload⟩, hqueue⟩, hready⟩
    rcases hevent : events n with - | - | -
    · rw [trace_producer hevent]
      exact .inr (hput n hended hload hqueue hready)
    · rw [trace_consumer hevent, consume_of_nil _ hqueue]
      exact .inl ⟨⟨⟨hended, hload⟩, hqueue⟩, hready⟩
    · exact absurd hevent (hno n)
  · rintro n hevent ⟨⟨⟨hended, hload⟩, hqueue⟩, hready⟩
    rw [trace_producer hevent]
    exact hput n hended hload hqueue hready

/-- Where the queue is empty and the worker has not looked at the flag, it gets ready. -/
theorem ready_of_empty (hno : ∀ n, events n ≠ .requestStop)
    (hproducer : Recurring fun n => events n = .producer) (k : ℕ) :
    LeadsTo (trace pieces failure events)
      (fun x => ((x.phase.ended = false ∧ load x = k) ∧ x.handle.queue = []) ∧
        ready x.phase = false)
      (fun x => ((x.phase.ended = false ∧ load x = k) ∧ x.handle.queue = []) ∧
        ready x.phase = true ∨ Lighter k x) := by
  have hready (n : ℕ) (hended : (trace pieces failure events n).phase.ended = false)
      (hload : load (trace pieces failure events n) = k)
      (hqueue : (trace pieces failure events n).handle.queue = [])
      (hnot : ready (trace pieces failure events n).phase = false) :
      (((((trace pieces failure events n).produce failure).phase.ended = false ∧
        load ((trace pieces failure events n).produce failure) = k) ∧
          ((trace pieces failure events n).produce failure).handle.queue = []) ∧
            ready ((trace pieces failure events n).produce failure).phase = true) ∨
              Lighter k ((trace pieces failure events n).produce failure) := by
    rcases produce_running (inv_trace pieces failure events n) (trace_running hno n) hended with
      hless | ⟨hended', hload', hqueue', -, hnext⟩
    · exact .inr (lighter_of (hload ▸ hless))
    · exact .inl ⟨⟨⟨hended', hload'.trans hload⟩, hqueue'.trans hqueue⟩, hnext hnot⟩
  refine LeadsTo.ensures ?_ hproducer ?_
  · rintro n ⟨⟨⟨hended, hload⟩, hqueue⟩, hnot⟩
    rcases hevent : events n with - | - | -
    · rw [trace_producer hevent]
      exact .inr (hready n hended hload hqueue hnot)
    · rw [trace_consumer hevent, consume_of_nil _ hqueue]
      exact .inl ⟨⟨⟨hended, hload⟩, hqueue⟩, hnot⟩
    · exact absurd hevent (hno n)
  · rintro n hevent ⟨⟨⟨hended, hload⟩, hqueue⟩, hnot⟩
    rw [trace_producer hevent]
    exact hready n hended hload hqueue hnot

theorem running_ends (hno : ∀ n, events n ≠ .requestStop)
    (hproducer : Recurring fun n => events n = .producer)
    (hconsumer : Recurring fun n => events n = .consumer) :
    LeadsTo (trace pieces failure events) (fun x => x.phase.ended = false)
      (fun x => x.phase.ended = true) := by
  refine LeadsTo.variant load fun k => ?_
  have hlighter : LeadsTo (trace pieces failure events)
      (fun x => ((x.phase.ended = false ∧ load x = k) ∧ x.handle.queue = []) ∧
        ready x.phase = true ∨ Lighter k x) (Lighter k) :=
    (lighter_of_ready hno hproducer k).or (LeadsTo.of_imp fun _ h => h)
  apply LeadsTo.cases (fun x => x.handle.queue ≠ [])
  · exact lighter_of_queue hno hconsumer k
  · apply LeadsTo.cases (fun x => ready x.phase = true)
    · rintro n ⟨⟨hrunning, hqueue⟩, hready⟩
      exact lighter_of_ready hno hproducer k n ⟨⟨hrunning, not_not.mp hqueue⟩, hready⟩
    · rintro n ⟨⟨hrunning, hqueue⟩, hready⟩
      exact ((ready_of_empty hno hproducer k).trans hlighter) n
        ⟨⟨hrunning, not_not.mp hqueue⟩, eq_false_of_ne_true hready⟩

theorem ended_finishes (hproducer : Recurring fun n => events n = .producer) :
    LeadsTo (trace pieces failure events) (fun x => x.phase.ended = true)
      (fun x => x.phase = .finished) := by
  refine LeadsTo.ensures (fun n h => .inl (step_ended h (events n))) hproducer ?_
  intro n hevent hended
  rw [trace_producer hevent]
  unfold System.produce
  rcases hphase : (trace pieces failure events n).phase with
    ⟨piece, rest⟩ | ⟨piece, rest⟩ | - | - | - | - | - | - <;> rw [hphase] at hended
  · cases hended
  · cases hended
  · cases hended
  · cases hended
  · cases hended
  · cases hended
  · exact hphase

/-- The other side takes out what is left. -/
theorem finished_drains (hconsumer : Recurring fun n => events n = .consumer) :
    LeadsTo (trace pieces failure events) (fun x => x.phase = .finished)
      (fun x => x.phase = .finished ∧ x.handle.queue = []) := by
  refine LeadsTo.variant (fun x => x.handle.queue.length) fun k => ?_
  have htaken (n : ℕ) (hfinished : (trace pieces failure events n).phase = .finished)
      (hlength : (trace pieces failure events n).handle.queue.length = k) :
      ((trace pieces failure events n).consume.phase = .finished ∧
          (trace pieces failure events n).consume.handle.queue = []) ∨
        ((trace pieces failure events n).consume.phase = .finished ∧
          (trace pieces failure events n).consume.handle.queue.length < k) := by
    have hphase := (consume_phase (trace pieces failure events n)).trans hfinished
    rw [consume_queue]
    rcases hqueue : (trace pieces failure events n).handle.queue with - | ⟨item, queue⟩
    · exact .inl ⟨hphase, rfl⟩
    · rw [hqueue] at hlength
      exact .inr ⟨hphase, hlength ▸ Nat.lt_succ_self _⟩
  refine LeadsTo.ensures ?_ hconsumer ?_
  · rintro n ⟨hfinished, hlength⟩
    have hnext : (step failure (trace pieces failure events n) (events n)).phase = .finished :=
      step_finished hfinished (events n)
    rcases hevent : events n with - | - | -
    · left
      rw [hevent] at hnext
      rw [trace_producer hevent]
      refine ⟨hnext, ?_⟩
      unfold System.produce
      rw [hfinished]
      exact hlength
    · rw [trace_consumer hevent]
      exact .inr (htaken n hfinished hlength)
    · left
      show (step failure _ (events n)).phase = .finished ∧
        (step failure _ (events n)).handle.queue.length = k
      rw [hevent]
      exact ⟨hfinished, hlength⟩
  · rintro n hevent ⟨hfinished, hlength⟩
    rw [trace_consumer hevent]
    exact htaken n hfinished hlength

/-- From some point on the worker has finished and the queue is empty. -/
def Drained (pieces : List Str) (failure : Option ε) (events : ℕ → Event) : Prop :=
  ∃ n, ∀ m, n ≤ m → (trace pieces failure events m).phase = .finished ∧
    (trace pieces failure events m).handle.queue = []

theorem drained_of_finished (hconsumer : Recurring fun n => events n = .consumer) {n : ℕ}
    (h : (trace pieces failure events n).phase = .finished) : Drained pieces failure events := by
  obtain ⟨m, -, hm⟩ := finished_drains hconsumer n h
  refine ⟨m, fun k hmk => ?_⟩
  exact stable (s := trace pieces failure events)
    (P := fun x => x.phase = .finished ∧ x.handle.queue = [])
    (fun n h => step_drained h (events n)) hmk hm

/-- What the other side has then. -/
theorem received_drained (h : Inv pieces failure s)
    (hdrained : s.phase = .finished ∧ s.handle.queue = []) :
    s.handle.done = true ∧ s.handle.error = failure ∧
      ∃ d : List Str, s.received = d.map some ++ [none] ∧ d.Sublist s.pushed ∧
        (s.handle.stop = false → d = pieces) := by
  obtain ⟨d, hsent, hsublist, hsame⟩ := h.sent
  rw [hdrained.1, hdrained.2, List.append_nil] at hsent
  refine ⟨h.done hdrained.1, h.error (by rw [hdrained.1]; rfl), d, hsent, hsublist, ?_⟩
  intro hstop
  have hall := h.all hstop
  rw [hdrained.1] at hall
  rw [hsame hstop, ← hall]
  exact (List.append_nil _).symm

/-- What the other side has at any time. -/
theorem received_prefix (h : Inv pieces failure s) :
    ∃ d : List Str, s.received <+: d.map some ++ [none] ∧ d.Sublist s.pushed ∧
      (s.handle.stop = false → d = s.pushed) := by
  obtain ⟨d, hsent, hsublist, hsame⟩ := h.sent
  refine ⟨d, ?_, hsublist, hsame⟩
  have hprefix : s.received <+: d.map some ++ s.phase.marker := ⟨_, hsent⟩
  refine hprefix.trans ?_
  rw [Phase.marker]
  split
  · exact List.prefix_rfl
  · rw [List.append_nil]
    exact List.prefix_append _ _

/-- And without a stop. -/
theorem received_running (h : Inv pieces failure s) (hstop : s.handle.stop = false) :
    s.received <+: pieces.map some ++ [none] := by
  obtain ⟨d, hsent, -, hsame⟩ := h.sent
  have hall := h.all hstop
  rw [hsame hstop] at hsent
  have hprefix : s.received <+: s.pushed.map some ++ s.phase.marker := ⟨_, hsent⟩
  refine hprefix.trans ?_
  rw [← hall]
  rcases hphase : s.phase with ⟨piece, rest⟩ | ⟨piece, rest⟩ | - | - | - | - | - | - <;>
    simp [Phase.marker, Phase.ended, Phase.todo]

end Trace

/-- **The handle delivers.**  In every order of the steps in which the worker goes on: without a
stop the other side has a prefix of the pieces and their end marker at any time, and all of it at
last, if it goes on; with a stop the worker finishes whether or not the other side goes on, and if
that does it gets the marker behind a part of the pushed pieces, in their order. -/
theorem stream_delivers (pieces : List Str) (failure : Option ε) {events : ℕ → Event}
    (hproducer : Recurring fun n => events n = .producer) :
    ((∀ n, events n ≠ .requestStop) →
      (∀ n, (trace pieces failure events n).received <+: pieces.map some ++ [none]) ∧
        ((Recurring fun n => events n = .consumer) → ∃ n, ∀ m, n ≤ m →
          (trace pieces failure events m).received = pieces.map some ++ [none] ∧
            (trace pieces failure events m).handle.done = true ∧
              (trace pieces failure events m).handle.error = failure)) ∧
      ((∃ n, events n = .requestStop) →
        (∃ n, (trace pieces failure events n).handle.done = true) ∧
          (∀ n, ∃ d : List Str, (trace pieces failure events n).received <+: d.map some ++ [none] ∧
            d.Sublist (trace pieces failure events n).pushed) ∧
          ((Recurring fun n => events n = .consumer) → ∃ n, ∀ m, n ≤ m →
            (trace pieces failure events m).handle.done = true ∧
              (trace pieces failure events m).handle.error = failure ∧
                ∃ d : List Str, (trace pieces failure events m).received = d.map some ++ [none] ∧
                  d.Sublist (trace pieces failure events m).pushed)) := by
  constructor
  · intro hno
    refine ⟨fun n => ?_, fun hconsumer => ?_⟩
    · exact received_running (inv_trace pieces failure events n) (trace_running hno n)
    · obtain ⟨m, -, hm⟩ := ((running_ends hno hproducer hconsumer).trans
        (ended_finishes hproducer)) 0 (next_ended pieces)
      obtain ⟨n, hn⟩ := drained_of_finished hconsumer hm
      refine ⟨n, fun k hk => ?_⟩
      obtain ⟨hdone, herror, d, hreceived, -, hsame⟩ :=
        received_drained (inv_trace pieces failure events k) (hn k hk)
      rw [hsame (trace_running hno k)] at hreceived
      exact ⟨hreceived, hdone, herror⟩
  · rintro ⟨n, hn⟩
    have hstop : (trace pieces failure events (n + 1)).handle.stop = true := by
      show (step failure _ (events n)).handle.stop = true
      rw [hn]
      rfl
    obtain ⟨m, -, hm⟩ := stop_finishes hproducer (n + 1) hstop
    refine ⟨⟨m, (inv_trace pieces failure events m).done hm⟩, fun k => ?_, fun hconsumer => ?_⟩
    · obtain ⟨d, hprefix, hsublist, -⟩ := received_prefix (inv_trace pieces failure events k)
      exact ⟨d, hprefix, hsublist⟩
    · obtain ⟨j, hj⟩ := drained_of_finished hconsumer hm
      refine ⟨j, fun k hk => ?_⟩
      obtain ⟨hdone, herror, d, hreceived, hsublist, -⟩ :=
        received_drained (inv_trace pieces failure events k) (hj k hk)
      exact ⟨hdone, herror, d, hreceived, hsublist⟩

/-- One piece, and the two sides in turn. -/
theorem stream_delivers_turns :
    ∃ n, ∀ m, n ≤ m → (trace [['a']] (none : Option Unit)
      (fun n => if n % 2 = 0 then .producer else .consumer) m).received = [some ['a'], none] := by
  have hproducer : Recurring fun n => (if n % 2 = 0 then Event.producer else .consumer) =
      .producer := fun n => ⟨2 * n, by omega, by simp⟩
  have hconsumer : Recurring fun n => (if n % 2 = 0 then Event.producer else .consumer) =
      .consumer := fun n => ⟨2 * n + 1, by omega, by simp⟩
  have hno : ∀ n, (if n % 2 = 0 then Event.producer else .consumer) ≠ .requestStop := by
    intro n
    split <;> simp
  obtain ⟨n, hn⟩ := ((stream_delivers [['a']] (none : Option Unit) hproducer).1 hno).2 hconsumer
  exact ⟨n, fun m hm => (hn m hm).1⟩

end InferBridge.StreamHandle
