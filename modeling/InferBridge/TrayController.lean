/-
InferBridge/TrayController.lean

The server process of the tray (app/desktop_controller.py, issued from the
threads of app/tray_menu.py and app/tray_polling.py).

`start`, `stop`, `restart` and `poll_unexpected_exit` run on several threads
without a lock.  They give way at their blocking calls: the check of stale
metadata, the search for a port, the spawn, the wait for readiness, the
control request, the waits for the process and the opening of the window.
Between two of these an operation is one step.  A thread is where its
operation stands; what a blocking call comes to is an event, and so is the
end of a process.

A `terminate` or `kill` that raises is the wait after it that raises: the
operations do not tell them apart.

Main results.  `live_server_kept`: at most one server is alive, and the
controller has it when all is quiet, in every run in which no operation
drops a process that is alive (`dropsDead`); a step that does so loses it
(`drop_loses`).  A stop whose wait returns after the next start drops the
new server (`late_stop_loses`).
-/
import InferBridge.Lib.Transition

namespace InferBridge.TrayController

/-! ### States -/

/-- The three waits of `stop`. -/
inductive StopWait where
  | graceful
  | terminated
  | killed
deriving DecidableEq, Repr

/-- The blocking call in which the operation of a thread stands.  `next` is what follows a stop:
the start of a restart, with its `open_chat`.  `final` tells the clean-up in the handler of
`start` from the one before it. -/
inductive Pc where
  | idle
  | showing
  | checkingStale (openChat : Bool)
  | probing (openChat : Bool)
  | spawning (openChat : Bool)
  | launched (pid : Nat) (openChat : Bool)
  | awaiting (pid : Nat) (openChat : Bool)
  | opening
  | terminated (pid : Nat) (final : Bool)
  | killed (pid : Nat) (final : Bool)
  | requesting (next : Option Bool)
  | stopping (pid : Nat) (wait : StopWait) (next : Option Bool)
deriving DecidableEq, Repr

/-- The fields of the controller, the spawned processes that are alive, and the threads. -/
structure State where
  child : Option Nat
  metadata : Option Nat
  starting : Bool
  stopping : Bool
  expectedExit : Bool
  alive : Finset Nat
  next : Nat
  pc : Nat → Pc

def initial : State where
  child := none
  metadata := none
  starting := false
  stopping := false
  expectedExit := false
  alive := ∅
  next := 0
  pc := fun _ => .idle

/-- What a blocking call comes to. -/
inductive Outcome where
  | ok
  | timeout
  | raises
deriving DecidableEq, Repr

inductive Event where
  | start (thread : Nat) (openChat : Bool)
  | stop (thread : Nat)
  | restart (thread : Nat) (openChat : Bool)
  | poll (thread : Nat)
  | resume (thread : Nat) (outcome : Outcome)
  | exit (pid : Nat)

namespace State

/-- `running` -/
def running (s : State) : Bool :=
  match s.child with
  | some pid => decide (pid ∈ s.alive)
  | none => false

def goto (s : State) (thread : Nat) (pc : Pc) : State :=
  { s with pc := Function.update s.pc thread pc }

/-- `_clear_runtime_metadata` -/
def clearRuntimeMetadata (s : State) : State :=
  { s with child := none, metadata := none, expectedExit := false }

/-! ### Start -/

/-- `start` up to its first blocking call. -/
def beginStart (s : State) (thread : Nat) (openChat : Bool) : State :=
  if s.running && s.metadata.isSome then s.goto thread (if openChat then .showing else .idle)
  else if s.starting then s.goto thread .idle
  else
    { s with starting := true, stopping := false, expectedExit := false }.goto thread
      (.checkingStale openChat)

/-- The `finally` of `start`. -/
def endStart (s : State) (thread : Nat) : State := { s with starting := false }.goto thread .idle

/-- The handler of `start` behind its clean-up. -/
def handled (s : State) (thread : Nat) : State := s.clearRuntimeMetadata.endStart thread

/-- `_force_stop_child` up to its first wait; `stopped` is what follows where nothing runs. -/
def forceStopChild (s stopped : State) (thread : Nat) (final : Bool) : State :=
  match s.child with
  | some pid => if pid ∈ s.alive then s.goto thread (.terminated pid final) else stopped
  | none => stopped

/-- An exception in `start`. -/
def failStart (s : State) (thread : Nat) : State :=
  s.forceStopChild (s.handled thread) thread true

/-- The server is not ready in time. -/
def notReady (s : State) (thread : Nat) : State :=
  s.forceStopChild (s.failStart thread) thread false

/-- A clean-up has ended; the one before the handler ends with an exception in any case. -/
def forceStopped (s : State) (thread : Nat) (final : Bool) : State :=
  if final then s.handled thread else s.failStart thread

/-- A clean-up has raised; the one in the handler leaves the fields as they are. -/
def forceStopRaised (s : State) (thread : Nat) (final : Bool) : State :=
  if final then s.endStart thread else s.failStart thread

/-- The process has been created. -/
def spawned (s : State) (thread : Nat) (openChat : Bool) : State :=
  { s with alive := insert s.next s.alive, next := s.next + 1 }.goto thread
    (.launched s.next openChat)

/-- `start` takes the new process over. -/
def takeChild (s : State) (thread pid : Nat) (openChat : Bool) : State :=
  { s with child := some pid, metadata := some pid }.goto thread (.awaiting pid openChat)

/-! ### Stop -/

/-- A stop has returned; a restart goes on with the start. -/
def afterStop (s : State) (thread : Nat) : Option Bool → State
  | none => s.goto thread .idle
  | some openChat => s.beginStart thread openChat

/-- `stop` up to its control request. -/
def beginStop (s : State) (thread : Nat) (next : Option Bool) : State :=
  if s.running = false then s.clearRuntimeMetadata.afterStop thread next
  else if s.metadata ≠ s.child then s.goto thread .idle
  else { s with stopping := true, expectedExit := true }.goto thread (.requesting next)

/-- The `finally` of `stop`. -/
def stopped (s : State) : State := { s.clearRuntimeMetadata with stopping := false }

/-- A stop that ends, `raised` with an exception. -/
def endStop (s : State) (thread : Nat) (raised : Bool) (next : Option Bool) : State :=
  if raised then s.stopped.goto thread .idle else s.stopped.afterStop thread next

/-- After the control request the child is read once more. -/
def waitStop (s : State) (thread : Nat) (next : Option Bool) : State :=
  match s.child with
  | some pid => s.goto thread (.stopping pid .graceful next)
  | none => s.endStop thread false next

/-! ### Steps -/

/-- `poll_unexpected_exit` -/
def pollUnexpectedExit (s : State) : State :=
  if s.child.isSome && !s.running then s.clearRuntimeMetadata else s

/-- A blocking call comes to an end.  A wait that succeeds finds the process gone. -/
def resume (s : State) (thread : Nat) (outcome : Outcome) : Option State :=
  match s.pc thread, outcome with
  | .idle, _ => none
  | .showing, _ => some (s.goto thread .idle)
  | .checkingStale openChat, .ok => some (s.goto thread (.probing openChat))
  | .probing openChat, .ok => some (s.goto thread (.spawning openChat))
  | .spawning openChat, .ok => some (s.spawned thread openChat)
  | .checkingStale _, _ | .probing _, _ | .spawning _, _ => some (s.failStart thread)
  | .launched pid openChat, .ok => some (s.takeChild thread pid openChat)
  | .launched pid openChat, _ => some ((s.takeChild thread pid openChat).failStart thread)
  | .awaiting _ openChat, .ok =>
    some (if openChat then s.goto thread .opening else s.endStart thread)
  | .awaiting _ _, .timeout => some (s.notReady thread)
  | .awaiting _ _, .raises => some (s.failStart thread)
  | .opening, .raises => some (s.failStart thread)
  | .opening, _ => some (s.endStart thread)
  | .terminated pid final, .ok =>
    if pid ∈ s.alive then none else some (s.forceStopped thread final)
  | .terminated pid final, .timeout => some (s.goto thread (.killed pid final))
  | .killed pid final, .ok =>
    if pid ∈ s.alive then none else some (s.forceStopped thread final)
  | .killed _ final, .timeout => some (s.forceStopped thread final)
  | .terminated _ final, .raises | .killed _ final, .raises =>
    some (s.forceStopRaised thread final)
  | .requesting next, .raises => some (s.endStop thread true next)
  | .requesting next, _ => some (s.waitStop thread next)
  | .stopping pid _ next, .ok =>
    if pid ∈ s.alive then none else some (s.endStop thread false next)
  | .stopping pid .graceful next, .timeout => some (s.goto thread (.stopping pid .terminated next))
  | .stopping pid .terminated next, .timeout => some (s.goto thread (.stopping pid .killed next))
  | .stopping _ .killed next, .timeout => some (s.endStop thread true next)
  | .stopping _ _ next, .raises => some (s.endStop thread true next)

def step (s : State) : Event → Option State
  | .start thread openChat =>
    if s.pc thread = .idle then some (s.beginStart thread openChat) else none
  | .stop thread => if s.pc thread = .idle then some (s.beginStop thread none) else none
  | .restart thread openChat =>
    if s.pc thread = .idle then some (s.beginStop thread (some openChat)) else none
  | .poll thread => if s.pc thread = .idle then some s.pollUnexpectedExit else none
  | .resume thread outcome => s.resume thread outcome
  | .exit pid => if pid ∈ s.alive then some { s with alive := s.alive.erase pid } else none

/-! ### What is wanted -/

def Quiet (s : State) : Prop := ∀ thread, s.pc thread = .idle

/-- At most one server is alive, and when all is quiet the controller has it. -/
def ServerKept (s : State) : Prop :=
  (∀ pid ∈ s.alive, ∀ pid' ∈ s.alive, pid = pid') ∧
    (s.Quiet → ∀ pid ∈ s.alive, s.child = some pid ∧ s.metadata = some pid)

end State

/-- The blocking calls with these ends are followed by the clearing of the fields. -/
def clears : Pc → Outcome → Bool
  | .terminated _ final, .ok => final
  | .killed _ final, .ok | .killed _ final, .timeout => final
  | .requesting _, .raises => true
  | .stopping _ .killed _, .timeout => true
  | .stopping _ _ _, .ok | .stopping _ _ _, .raises => true
  | _, _ => false

/-- Where a stop or a failed start comes to its end, the process that the controller then has is
gone. -/
def dropsDead (s : State) : Event → Bool
  | .resume thread outcome => !(clears (s.pc thread) outcome && s.running)
  | _ => true

/-! ### The invariant -/

/-- The thread is in `start`. -/
def Pc.inStart : Pc → Bool
  | .checkingStale _ | .probing _ | .spawning _ | .launched _ _ | .awaiting _ _ | .opening
  | .terminated _ _ | .killed _ _ => true
  | .idle | .showing | .requesting _ | .stopping _ _ _ => false

/-- The thread is in `start` and no process has been created yet. -/
def Pc.unspawned : Pc → Bool
  | .checkingStale _ | .probing _ | .spawning _ => true
  | _ => false

def Pc.launches (pid : Nat) : Pc → Bool
  | .launched pid' _ => pid' = pid
  | _ => false

/-- One thread at most is in `start`, and a process that is alive is the controller's, or the one
that this thread takes over next. -/
structure Inv (s : State) : Prop where
  starting : ∀ t, (s.pc t).inStart = true → s.starting = true
  unique : ∀ t u, (s.pc t).inStart = true → (s.pc u).inStart = true → t = u
  recorded : ∀ pid ∈ s.alive, (s.child = some pid ∧ s.metadata = some pid) ∨
    ∃ t, (s.pc t).launches pid = true
  unspawned : ∀ t, (s.pc t).unspawned = true → s.alive = ∅
  launched : ∀ t pid, (s.pc t).launches pid = true → ∀ pid' ∈ s.alive, pid' = pid

variable {s s' : State} {thread : Nat} {pc : Pc}

theorem inStart_of_unspawned (h : pc.unspawned = true) : pc.inStart = true := by
  cases pc <;> first | rfl | cases h

theorem inStart_of_launches {pid : Nat} (h : pc.launches pid = true) : pc.inStart = true := by
  cases pc <;> first | rfl | cases h

theorem running_eq_true : s.running = true ↔ ∃ pid, s.child = some pid ∧ pid ∈ s.alive := by
  unfold State.running
  cases s.child with
  | none => simp
  | some pid => simp

theorem initial_inv : Inv initial where
  starting := by
    intro t h
    cases h
  unique := by
    intro t u h
    cases h
  recorded := by
    intro pid h
    cases h
  unspawned := by
    intro t h
    cases h
  launched := by
    intro t pid h
    cases h

theorem goto_pc_self : (s.goto thread pc).pc thread = pc := Function.update_self ..

theorem goto_pc_of_ne {u : Nat} (h : u ≠ thread) : (s.goto thread pc).pc u = s.pc u :=
  Function.update_of_ne h ..

/-! ### Moves -/

/-- A property of the new place of one thread and the old places of the others. -/
theorem goto_cases (P : Nat → Pc → Prop) (hself : P thread pc)
    (hothers : ∀ u, u ≠ thread → P u (s.pc u)) (u : Nat) : P u ((s.goto thread pc).pc u) := by
  by_cases h : u = thread
  · subst h
    rw [goto_pc_self]
    exact hself
  · rw [goto_pc_of_ne h]
    exact hothers u h

/-- A thread moves on; it does not enter `start`, and it neither creates nor takes a process. -/
theorem Inv.goto (h : Inv s) (hstart : pc.inStart = true → (s.pc thread).inStart = true)
    (hunspawned : pc.unspawned = true → (s.pc thread).unspawned = true)
    (hto : ∀ pid, pc.launches pid = false) (hfrom : ∀ pid, (s.pc thread).launches pid = false) :
    Inv (s.goto thread pc) := by
  have hinStart : ∀ u, ((s.goto thread pc).pc u).inStart = true → (s.pc u).inStart = true :=
    goto_cases (fun u pc => pc.inStart = true → (s.pc u).inStart = true) hstart fun _ _ => id
  have hlaunches (pid : Nat) : ∀ u, ((s.goto thread pc).pc u).launches pid = true →
      (s.pc u).launches pid = true := by
    refine goto_cases (fun u pc => pc.launches pid = true → (s.pc u).launches pid = true) ?_
      fun _ _ => id
    intro htrue
    rw [hto] at htrue
    cases htrue
  constructor
  · exact fun u hu => h.starting u (hinStart u hu)
  · exact fun u v hu hv => h.unique u v (hinStart u hu) (hinStart v hv)
  · intro pid hpid
    refine (h.recorded pid hpid).imp id ?_
    rintro ⟨u, hu⟩
    refine ⟨u, ?_⟩
    rw [goto_pc_of_ne]
    · exact hu
    · rintro rfl
      rw [hfrom] at hu
      cases hu
  · exact fun u hu => h.unspawned u (goto_cases (fun u pc => pc.unspawned = true →
      (s.pc u).unspawned = true) hunspawned (fun _ _ => id) u hu)
  · exact fun u pid hu => h.launched u pid (hlaunches pid u hu)

/-- The process in the fields is gone. -/
theorem Inv.clear (h : Inv s) (hdead : s.running = false) : Inv s.clearRuntimeMetadata where
  starting := h.starting
  unique := h.unique
  recorded := by
    intro pid hpid
    rcases h.recorded pid hpid with ⟨hchild, -⟩ | hlaunched
    · rw [running_eq_true.mpr ⟨pid, hchild, hpid⟩] at hdead
      cases hdead
    · exact .inr hlaunched
  unspawned := h.unspawned
  launched := h.launched

/-- The flags of a stop are no part of the invariant. -/
theorem Inv.flags (h : Inv s) (stopping expectedExit : Bool) :
    Inv { s with stopping := stopping, expectedExit := expectedExit } :=
  ⟨h.starting, h.unique, h.recorded, h.unspawned, h.launched⟩

/-- A thread leaves `start`. -/
theorem Inv.endStart (h : Inv s) (hin : (s.pc thread).inStart = true)
    (hfrom : ∀ pid, (s.pc thread).launches pid = false) : Inv (s.endStart thread) := by
  have hgoto : Inv (s.goto thread .idle) :=
    h.goto (fun hidle => absurd hidle Bool.false_ne_true)
      (fun hidle => absurd hidle Bool.false_ne_true) (fun _ => rfl) hfrom
  refine ⟨?_, hgoto.unique, hgoto.recorded, hgoto.unspawned, hgoto.launched⟩
  -- no other thread was in `start`
  refine goto_cases (fun _ pc => pc.inStart = true → false = true) ?_ ?_
  · intro hidle
    cases hidle
  · intro u hu huin
    exact absurd (h.unique u thread huin hin) hu

theorem Inv.handled (h : Inv s) (hdead : s.running = false)
    (hin : (s.pc thread).inStart = true) (hfrom : ∀ pid, (s.pc thread).launches pid = false) :
    Inv (s.handled thread) :=
  (h.clear hdead).endStart hin hfrom

/-- `_force_stop_child` goes on only where the process is gone. -/
theorem Inv.forceStopChild {stopped : State} {final : Bool} (h : Inv s)
    (hin : (s.pc thread).inStart = true) (hfrom : ∀ pid, (s.pc thread).launches pid = false)
    (hstopped : s.running = false → Inv stopped) :
    Inv (s.forceStopChild stopped thread final) := by
  unfold State.forceStopChild
  cases hchild : s.child with
  | none =>
    apply hstopped
    unfold State.running
    rw [hchild]
  | some pid =>
    dsimp only
    split
    · exact h.goto (fun _ => hin) (fun hun => absurd hun Bool.false_ne_true) (fun _ => rfl) hfrom
    · next hdead =>
      apply hstopped
      unfold State.running
      rw [hchild]
      exact decide_eq_false hdead

theorem Inv.failStart (h : Inv s) (hin : (s.pc thread).inStart = true)
    (hfrom : ∀ pid, (s.pc thread).launches pid = false) : Inv (s.failStart thread) :=
  h.forceStopChild hin hfrom fun hdead => h.handled hdead hin hfrom

theorem Inv.notReady (h : Inv s) (hin : (s.pc thread).inStart = true)
    (hfrom : ∀ pid, (s.pc thread).launches pid = false) : Inv (s.notReady thread) :=
  h.forceStopChild hin hfrom fun _ => h.failStart hin hfrom

theorem Inv.forceStopRaised {final : Bool} (h : Inv s) (hin : (s.pc thread).inStart = true)
    (hfrom : ∀ pid, (s.pc thread).launches pid = false) :
    Inv (s.forceStopRaised thread final) := by
  cases final with
  | true => exact h.endStart hin hfrom
  | false => exact h.failStart hin hfrom

theorem Inv.forceStopped {final : Bool} (h : Inv s) (hin : (s.pc thread).inStart = true)
    (hfrom : ∀ pid, (s.pc thread).launches pid = false)
    (hdead : final = true → s.running = false) : Inv (s.forceStopped thread final) := by
  cases final with
  | true => exact h.handled (hdead rfl) hin hfrom
  | false => exact h.failStart hin hfrom

/-- A start begins where no server is alive. -/
theorem Inv.beginStart {openChat : Bool} (h : Inv s) (hout : (s.pc thread).inStart = false) :
    Inv (s.beginStart thread openChat) := by
  have hfrom (pid : Nat) : (s.pc thread).launches pid = false := by
    rw [← Bool.not_eq_true]
    intro hlaunches
    rw [inStart_of_launches hlaunches] at hout
    cases hout
  have hleaves (pc : Pc) (hpc : pc.inStart = false) : Inv (s.goto thread pc) := by
    refine h.goto ?_ ?_ ?_ hfrom
    · intro hin
      rw [hpc] at hin
      cases hin
    · intro hun
      rw [inStart_of_unspawned hun] at hpc
      cases hpc
    · intro pid
      rw [← Bool.not_eq_true]
      intro hlaunches
      rw [inStart_of_launches hlaunches] at hpc
      cases hpc
  unfold State.beginStart
  split
  · apply hleaves
    cases openChat <;> rfl
  next hserves =>
  split
  · exact hleaves .idle rfl
  next hstarting =>
  have hnone (u : Nat) : (s.pc u).inStart = false := by
    rw [← Bool.not_eq_true]
    exact fun hin => hstarting (h.starting u hin)
  have hempty : s.alive = ∅ := by
    rw [Finset.eq_empty_iff_forall_notMem]
    intro pid hpid
    rcases h.recorded pid hpid with ⟨hchild, hmetadata⟩ | ⟨u, hu⟩
    · apply hserves
      rw [running_eq_true.mpr ⟨pid, hchild, hpid⟩, hmetadata]
      rfl
    · exact hstarting (h.starting u (inStart_of_launches hu))
  constructor
  · exact fun _ _ => rfl
  · have hself : ∀ u, ((s.goto thread (.checkingStale openChat)).pc u).inStart = true →
        u = thread := by
      refine goto_cases (fun u pc => pc.inStart = true → u = thread) (fun _ => rfl) ?_
      intro u _ hu
      rw [hnone] at hu
      cases hu
    exact fun u v hu hv => (hself u hu).trans (hself v hv).symm
  · intro pid hpid
    change pid ∈ s.alive at hpid
    rw [hempty] at hpid
    cases hpid
  · exact fun _ _ => hempty
  · intro u pid _ pid' hpid'
    change pid' ∈ s.alive at hpid'
    rw [hempty] at hpid'
    cases hpid'

/-- A thread that is not in `start` goes where it is not in `start` either. -/
theorem Inv.gotoOutside (h : Inv s) (hout : (s.pc thread).inStart = false)
    (hpc : pc.inStart = false) : Inv (s.goto thread pc) := by
  have houtside {pc : Pc} (hpc : pc.inStart = false) (pid : Nat) : pc.launches pid = false := by
    rw [← Bool.not_eq_true]
    intro hlaunches
    rw [inStart_of_launches hlaunches] at hpc
    cases hpc
  refine h.goto ?_ ?_ (houtside hpc) (houtside hout)
  · intro hin
    rw [hpc] at hin
    cases hin
  · intro hun
    rw [inStart_of_unspawned hun] at hpc
    cases hpc

theorem Inv.afterStop {next : Option Bool} (h : Inv s) (hout : (s.pc thread).inStart = false) :
    Inv (s.afterStop thread next) := by
  cases next with
  | none => exact h.gotoOutside hout rfl
  | some openChat => exact h.beginStart hout

theorem Inv.beginStop {next : Option Bool} (h : Inv s) (hout : (s.pc thread).inStart = false) :
    Inv (s.beginStop thread next) := by
  unfold State.beginStop
  split
  · next hdead => exact (h.clear hdead).afterStop hout
  split
  · exact h.gotoOutside hout rfl
  · exact (h.flags true true).gotoOutside hout rfl

theorem Inv.endStop {raised : Bool} {next : Option Bool} (h : Inv s)
    (hout : (s.pc thread).inStart = false) (hdead : s.running = false) :
    Inv (s.endStop thread raised next) := by
  have hstopped : Inv s.stopped := (h.clear hdead).flags false s.clearRuntimeMetadata.expectedExit
  cases raised with
  | true => exact hstopped.gotoOutside hout rfl
  | false => exact hstopped.afterStop hout

theorem Inv.waitStop {next : Option Bool} (h : Inv s) (hout : (s.pc thread).inStart = false) :
    Inv (s.waitStop thread next) := by
  unfold State.waitStop
  cases hchild : s.child with
  | some pid => exact h.gotoOutside hout rfl
  | none =>
    apply h.endStop hout
    unfold State.running
    rw [hchild]

/-- The new process is the only one: none was alive. -/
theorem Inv.spawned {openChat : Bool} (h : Inv s) (hun : (s.pc thread).unspawned = true) :
    Inv (s.spawned thread openChat) := by
  have hin := inStart_of_unspawned hun
  have hempty := h.unspawned thread hun
  have hother (u : Nat) (hu : u ≠ thread) : (s.pc u).inStart = false := by
    rw [← Bool.not_eq_true]
    exact fun huin => hu (h.unique u thread huin hin)
  have hself : ∀ u, ((s.spawned thread openChat).pc u).inStart = true → u = thread := by
    refine goto_cases (fun u pc => pc.inStart = true → u = thread) (fun _ => rfl) ?_
    intro u hu huin
    rw [hother u hu] at huin
    cases huin
  have halive : (s.spawned thread openChat).alive = {s.next} := by
    show insert s.next s.alive = _
    rw [hempty]
    rfl
  have hpc : (s.spawned thread openChat).pc thread = .launched s.next openChat := goto_pc_self
  constructor
  · exact fun _ _ => h.starting thread hin
  · exact fun u v hu hv => (hself u hu).trans (hself v hv).symm
  · intro pid hpid
    rw [halive, Finset.mem_singleton] at hpid
    refine .inr ⟨thread, ?_⟩
    rw [hpc]
    exact decide_eq_true hpid.symm
  · intro u hu
    obtain rfl := hself u (inStart_of_unspawned hu)
    rw [hpc] at hu
    cases hu
  · intro u pid hu pid' hpid'
    obtain rfl := hself u (inStart_of_launches hu)
    rw [hpc] at hu
    rw [halive, Finset.mem_singleton] at hpid'
    exact hpid'.trans (of_decide_eq_true hu)

/-- The process that was launched is the one in the fields now. -/
theorem Inv.takeChild {pid : Nat} {openChat openChat' : Bool} (h : Inv s)
    (hpc : s.pc thread = .launched pid openChat') : Inv (s.takeChild thread pid openChat) := by
  have hlaunches : (s.pc thread).launches pid = true := by
    rw [hpc]
    exact decide_eq_true rfl
  have hin := inStart_of_launches hlaunches
  have hself : ∀ u, ((s.takeChild thread pid openChat).pc u).inStart = true → u = thread := by
    refine goto_cases (fun u pc => pc.inStart = true → u = thread) (fun _ => rfl) ?_
    exact fun u _ huin => h.unique u thread huin hin
  have hnew : (s.takeChild thread pid openChat).pc thread = .awaiting pid openChat := goto_pc_self
  constructor
  · exact fun _ _ => h.starting thread hin
  · exact fun u v hu hv => (hself u hu).trans (hself v hv).symm
  · intro pid' hpid'
    obtain rfl := h.launched thread pid hlaunches pid' hpid'
    exact .inl ⟨rfl, rfl⟩
  · intro u hu
    obtain rfl := hself u (inStart_of_unspawned hu)
    rw [hnew] at hu
    cases hu
  · intro u pid' hu
    obtain rfl := hself u (inStart_of_launches hu)
    rw [hnew] at hu
    cases hu

theorem Inv.pollUnexpectedExit (h : Inv s) : Inv s.pollUnexpectedExit := by
  unfold State.pollUnexpectedExit
  split
  · next hdead =>
    rw [Bool.and_eq_true, Bool.not_eq_true'] at hdead
    exact h.clear hdead.2
  · exact h

theorem Inv.exit (h : Inv s) (pid : Nat) : Inv { s with alive := s.alive.erase pid } where
  starting := h.starting
  unique := h.unique
  recorded := fun pid' hpid' => h.recorded pid' (Finset.mem_of_mem_erase hpid')
  unspawned := by
    intro t ht
    show s.alive.erase pid = ∅
    rw [h.unspawned t ht]
    rfl
  launched := fun t p hp p' hp' => h.launched t p hp p' (Finset.mem_of_mem_erase hp')

/-! ### One step -/

theorem launches_of_ne_launched (h : ∀ pid openChat, pc ≠ .launched pid openChat) (pid : Nat) :
    pc.launches pid = false := by
  cases pc with
  | launched pid' openChat => exact absurd rfl (h pid' openChat)
  | _ => rfl

/-- The end of a blocking call. -/
theorem Inv.resume {outcome : Outcome} (h : Inv s)
    (hdrops : dropsDead s (.resume thread outcome) = true)
    (hstep : s.resume thread outcome = some s') : Inv s' := by
  have hdead (hclears : clears (s.pc thread) outcome = true) : s.running = false := by
    have hnot : (!(clears (s.pc thread) outcome && s.running)) = true := hdrops
    rwa [hclears, Bool.true_and, Bool.not_eq_true'] at hnot
  have hpc : ∃ pc, s.pc thread = pc := ⟨_, rfl⟩
  obtain ⟨pc, hpc⟩ := hpc
  rw [hpc] at hdead
  have hfrom (hnot : ∀ pid openChat, pc ≠ .launched pid openChat) (pid : Nat) :
      (s.pc thread).launches pid = false := by
    rw [hpc]
    exact launches_of_ne_launched hnot pid
  unfold State.resume at hstep
  rw [hpc] at hstep
  cases pc with
  | idle => cases hstep
  | showing =>
    obtain rfl := Option.some.inj hstep
    exact h.gotoOutside (by rw [hpc]; rfl) rfl
  | checkingStale openChat =>
    have hin : (s.pc thread).inStart = true := by rw [hpc]; rfl
    have hmoves : Inv (s.goto thread (.probing openChat)) :=
      h.goto (fun _ => hin) (fun _ => by rw [hpc]; rfl) (fun _ => rfl) (hfrom (by simp))
    have hfails := h.failStart hin (hfrom (by simp))
    cases outcome <;> obtain rfl := Option.some.inj hstep
    · exact hmoves
    · exact hfails
    · exact hfails
  | probing openChat =>
    have hin : (s.pc thread).inStart = true := by rw [hpc]; rfl
    have hmoves : Inv (s.goto thread (.spawning openChat)) :=
      h.goto (fun _ => hin) (fun _ => by rw [hpc]; rfl) (fun _ => rfl) (hfrom (by simp))
    have hfails := h.failStart hin (hfrom (by simp))
    cases outcome <;> obtain rfl := Option.some.inj hstep
    · exact hmoves
    · exact hfails
    · exact hfails
  | spawning openChat =>
    have hfails : Inv (s.failStart thread) := h.failStart (by rw [hpc]; rfl) (hfrom (by simp))
    cases outcome <;> obtain rfl := Option.some.inj hstep
    · exact h.spawned (by rw [hpc]; rfl)
    · exact hfails
    · exact hfails
  | launched pid openChat =>
    have htakes : Inv (s.takeChild thread pid openChat) := h.takeChild hpc
    have hnew : (s.takeChild thread pid openChat).pc thread = .awaiting pid openChat :=
      goto_pc_self
    have hfails : Inv ((s.takeChild thread pid openChat).failStart thread) :=
      htakes.failStart (by rw [hnew]; rfl) (by rw [hnew]; exact fun _ => rfl)
    cases outcome <;> obtain rfl := Option.some.inj hstep
    · exact htakes
    · exact hfails
    · exact hfails
  | awaiting pid openChat =>
    have hin : (s.pc thread).inStart = true := by rw [hpc]; rfl
    cases outcome with
    | ok =>
      obtain rfl := Option.some.inj hstep
      split
      · exact h.goto (fun _ => hin) (fun hun => absurd hun Bool.false_ne_true) (fun _ => rfl)
          (hfrom (by simp))
      · exact h.endStart hin (hfrom (by simp))
    | timeout =>
      obtain rfl := Option.some.inj hstep
      exact h.notReady hin (hfrom (by simp))
    | raises =>
      obtain rfl := Option.some.inj hstep
      exact h.failStart hin (hfrom (by simp))
  | opening =>
    have hin : (s.pc thread).inStart = true := by rw [hpc]; rfl
    have hends := h.endStart hin (hfrom (by simp))
    cases outcome <;> obtain rfl := Option.some.inj hstep
    · exact hends
    · exact hends
    · exact h.failStart hin (hfrom (by simp))
  | terminated pid final =>
    have hin : (s.pc thread).inStart = true := by rw [hpc]; rfl
    cases outcome with
    | ok =>
      dsimp only at hstep
      split at hstep
      · cases hstep
      · obtain rfl := Option.some.inj hstep
        exact h.forceStopped hin (hfrom (by simp)) hdead
    | timeout =>
      obtain rfl := Option.some.inj hstep
      exact h.goto (fun _ => hin) (fun hun => absurd hun Bool.false_ne_true) (fun _ => rfl)
        (hfrom (by simp))
    | raises =>
      obtain rfl := Option.some.inj hstep
      exact h.forceStopRaised hin (hfrom (by simp))
  | killed pid final =>
    have hin : (s.pc thread).inStart = true := by rw [hpc]; rfl
    cases outcome with
    | ok =>
      dsimp only at hstep
      split at hstep
      · cases hstep
      · obtain rfl := Option.some.inj hstep
        exact h.forceStopped hin (hfrom (by simp)) hdead
    | timeout =>
      obtain rfl := Option.some.inj hstep
      exact h.forceStopped hin (hfrom (by simp)) hdead
    | raises =>
      obtain rfl := Option.some.inj hstep
      exact h.forceStopRaised hin (hfrom (by simp))
  | requesting next =>
    have hout : (s.pc thread).inStart = false := by rw [hpc]; rfl
    have hwaits : Inv (s.waitStop thread next) := h.waitStop hout
    cases outcome <;> obtain rfl := Option.some.inj hstep
    · exact hwaits
    · exact hwaits
    · exact h.endStop hout (hdead rfl)
  | stopping pid wait next =>
    have hout : (s.pc thread).inStart = false := by rw [hpc]; rfl
    cases outcome with
    | ok =>
      cases wait <;>
      · dsimp only at hstep
        split at hstep
        · cases hstep
        · obtain rfl := Option.some.inj hstep
          exact h.endStop hout (hdead rfl)
    | timeout =>
      cases wait <;> obtain rfl := Option.some.inj hstep
      · exact h.gotoOutside hout rfl
      · exact h.gotoOutside hout rfl
      · exact h.endStop hout (hdead rfl)
    | raises =>
      cases wait <;>
      · obtain rfl := Option.some.inj hstep
        exact h.endStop hout (hdead rfl)

/-- **One step.** -/
theorem Inv.step {e : Event} (h : Inv s) (hdrops : dropsDead s e = true)
    (hstep : s.step e = some s') : Inv s' := by
  have hidle {t : Nat} (ht : s.pc t = .idle) : (s.pc t).inStart = false := by
    rw [ht]
    rfl
  cases e with
  | start t openChat =>
    obtain ⟨ht, heq⟩ := Option.ite_none_right_eq_some.mp hstep
    obtain rfl := Option.some.inj heq
    exact h.beginStart (hidle ht)
  | stop t =>
    obtain ⟨ht, heq⟩ := Option.ite_none_right_eq_some.mp hstep
    obtain rfl := Option.some.inj heq
    exact h.beginStop (hidle ht)
  | restart t openChat =>
    obtain ⟨ht, heq⟩ := Option.ite_none_right_eq_some.mp hstep
    obtain rfl := Option.some.inj heq
    exact h.beginStop (hidle ht)
  | poll t =>
    obtain ⟨-, heq⟩ := Option.ite_none_right_eq_some.mp hstep
    obtain rfl := Option.some.inj heq
    exact h.pollUnexpectedExit
  | resume t outcome => exact h.resume hdrops hstep
  | exit pid =>
    obtain ⟨-, heq⟩ := Option.ite_none_right_eq_some.mp hstep
    obtain rfl := Option.some.inj heq
    exact h.exit pid

theorem Inv.serverKept (h : Inv s) : s.ServerKept := by
  constructor
  · intro pid hpid pid' hpid'
    rcases h.recorded pid hpid with ⟨hchild, -⟩ | ⟨t, ht⟩
    · rcases h.recorded pid' hpid' with ⟨hchild', -⟩ | ⟨t, ht⟩
      · exact Option.some.inj (hchild.symm.trans hchild')
      · exact h.launched t pid' ht pid hpid
    · exact (h.launched t pid ht pid' hpid').symm
  · intro hquiet pid hpid
    rcases h.recorded pid hpid with hrecorded | ⟨t, ht⟩
    · exact hrecorded
    · rw [hquiet t] at ht
      cases ht

/-! ### Runs -/

theorem afterStop_child {next : Option Bool} (h : s.child = none) :
    (s.afterStop thread next).child = none ∧ (s.afterStop thread next).alive = s.alive := by
  cases next with
  | none => exact ⟨h, rfl⟩
  | some openChat =>
    show (s.beginStart thread openChat).child = none ∧ (s.beginStart thread openChat).alive = s.alive
    unfold State.beginStart
    split
    · exact ⟨h, rfl⟩
    split <;> exact ⟨h, rfl⟩

theorem endStop_child {raised : Bool} {next : Option Bool} :
    (s.endStop thread raised next).child = none ∧
      (s.endStop thread raised next).alive = s.alive := by
  cases raised with
  | true => exact ⟨rfl, rfl⟩
  | false => exact afterStop_child rfl

/-- **A step that drops a live process loses it**: it is alive, and the controller has none. -/
theorem drop_loses {e : Event} (hdrops : dropsDead s e = false) (hstep : s.step e = some s') :
    ∃ pid ∈ s'.alive, s'.child = none := by
  cases e with
  | resume t outcome =>
    rw [dropsDead, Bool.not_eq_false', Bool.and_eq_true] at hdrops
    obtain ⟨hclears, hrunning⟩ := hdrops
    obtain ⟨pid, -, hpid⟩ := running_eq_true.mp hrunning
    have hends : s'.child = none ∧ s'.alive = s.alive := by
      change s.resume t outcome = some s' at hstep
      unfold State.resume at hstep
      generalize s.pc t = pc at hclears hstep
      cases pc with
      | terminated pid' final =>
        cases outcome with
        | ok =>
          dsimp only at hstep
          split at hstep
          · cases hstep
          · obtain rfl := Option.some.inj hstep
            obtain rfl : final = true := hclears
            exact ⟨rfl, rfl⟩
        | timeout | raises => cases hclears
      | killed pid' final =>
        cases outcome with
        | ok =>
          dsimp only at hstep
          split at hstep
          · cases hstep
          · obtain rfl := Option.some.inj hstep
            obtain rfl : final = true := hclears
            exact ⟨rfl, rfl⟩
        | timeout =>
          obtain rfl := Option.some.inj hstep
          obtain rfl : final = true := hclears
          exact ⟨rfl, rfl⟩
        | raises => cases hclears
      | requesting next =>
        cases outcome with
        | raises =>
          obtain rfl := Option.some.inj hstep
          exact endStop_child
        | ok | timeout => cases hclears
      | stopping pid' wait next =>
        cases outcome with
        | ok =>
          cases wait <;>
          · dsimp only at hstep
            split at hstep
            · cases hstep
            · obtain rfl := Option.some.inj hstep
              exact endStop_child
        | timeout =>
          cases wait with
          | killed =>
            obtain rfl := Option.some.inj hstep
            exact endStop_child
          | graceful | terminated => cases hclears
        | raises =>
          cases wait <;>
          · obtain rfl := Option.some.inj hstep
            exact endStop_child
      | _ => cases hclears
    exact ⟨pid, by rwa [hends.2], hends.1⟩
  | _ => cases hdrops

/-- **The tray keeps its server in every run in which no operation drops a live process.** -/
theorem live_server_kept {es : List Event} {s : State}
    (hrun : Transition.run State.step initial es = some s)
    (hmeets : Transition.meets State.step dropsDead initial es = true) : s.ServerKept :=
  (Transition.run_invariant (fun _ _ _ h hdrops hstep => h.step hdrops hstep) initial_inv hmeets
    hrun).serverKept

/-- A start up to the point where the server is ready. -/
def started (thread : Nat) : List Event :=
  .start thread false :: List.replicate 5 (.resume thread .ok)

/-- A stop up to its wait for the process. -/
def stoppedUpToWait (thread : Nat) : List Event := [.stop thread, .resume thread .ok]

/-- A server is started, stopped and started again. -/
def orderlyRun : List Event :=
  started 0 ++ stoppedUpToWait 0 ++ [.exit 0, .resume 0 .ok] ++ started 0

theorem live_server_kept_orderly :
    ∃ s, Transition.run State.step initial orderlyRun = some s ∧ s.ServerKept := by
  obtain ⟨s, hrun⟩ : ∃ s, Transition.run State.step initial orderlyRun = some s := ⟨_, rfl⟩
  exact ⟨s, hrun, live_server_kept hrun rfl⟩

/-- The process of a stop has exited, the poll thread sees this and a new server is started; then
the wait of the stop returns. -/
def lateStop : List Event :=
  started 0 ++ stoppedUpToWait 0 ++ [.exit 0, .poll 1] ++ started 1 ++ [.resume 0 .ok]

/-- The new server is alive, all is quiet, and the controller does not have it. -/
theorem late_stop_loses : ¬ ∀ es s, Transition.run State.step initial es = some s →
    s.ServerKept := by
  intro h
  obtain ⟨s, hrun⟩ : ∃ s, Transition.run State.step initial lateStop = some s := ⟨_, rfl⟩
  have hkept := (h lateStop s hrun).2
  obtain rfl := Option.some.inj hrun
  have hchild := hkept (by
    intro t
    rcases t with - | - | t <;> rfl) 1 (by decide)
  cases hchild.1

end InferBridge.TrayController
