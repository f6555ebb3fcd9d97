/-
InferBridge/Lib/Interaction.lean

Programs that receive and send messages, and the programs that are put around them.

A program is a transition function: in each state it receives, sends, computes or has finished.
What a receive or a send gives is for its environment to choose, and may be an error.  A run
(`Run`) is the list of what was received and sent.

Design.  A relay stands between a program and its environment: it may change what is received
and what is sent, and keeps a state of its own.  `chain` puts a second program behind the
first one, `emit` sends given messages, and `replay` answers the receives of a program itself.

Main results: the runs of each of these are known from the runs of the parts
(`Relay.run_iff`, `run_chain_iff`, `outgoing_of_run_emit`, `run_replay`), and a property of
states that no step of a part leaves is one that no step of these leaves (`Closed`).
-/
import Mathlib

namespace Interaction

/-- What a program does next. -/
inductive Act (ι ο ε σ : Type)
  | receive (k : Except ε ι → σ)
  | send (message : ο) (k : Except ε Unit → σ)
  | tau (next : σ)
  | finish (result : Except ε Unit)

/-- What has happened: the answer to a receive or to a send. -/
inductive Event (ι ο ε : Type)
  | received (answer : Except ε ι)
  | sent (message : ο) (answer : Except ε Unit)

variable {ι ο ε σ τ μ : Type}

def Act.map (f : σ → τ) : Act ι ο ε σ → Act ι ο ε τ
  | .receive k => .receive fun answer => f (k answer)
  | .send message k => .send message fun answer => f (k answer)
  | .tau next => .tau (f next)
  | .finish result => .finish result

/-- The runs of a program, and the states they lead to. -/
inductive Run (p : σ → Act ι ο ε σ) : σ → List (Event ι ο ε) → σ → Prop
  | nil (s : σ) : Run p s [] s
  | receive {s t : σ} {k : Except ε ι → σ} {events : List (Event ι ο ε)} (answer : Except ε ι) :
      p s = .receive k → Run p (k answer) events t → Run p s (.received answer :: events) t
  | send {s t : σ} {message : ο} {k : Except ε Unit → σ} {events : List (Event ι ο ε)}
      (answer : Except ε Unit) :
      p s = .send message k → Run p (k answer) events t →
        Run p s (.sent message answer :: events) t
  | tau {s next t : σ} {events : List (Event ι ο ε)} :
      p s = .tau next → Run p next events t → Run p s events t

def incoming : List (Event ι ο ε) → List (Except ε ι)
  | [] => []
  | .received answer :: events => answer :: incoming events
  | .sent _ _ :: events => incoming events

def outgoing : List (Event ι ο ε) → List ο
  | [] => []
  | .received _ :: events => outgoing events
  | .sent message _ :: events => message :: outgoing events

/-- The sends alone. -/
def sends : List (Event ι ο ε) → List (Event ι ο ε)
  | [] => []
  | .received _ :: events => sends events
  | .sent message answer :: events => .sent message answer :: sends events

@[simp] theorem incoming_append (xs ys : List (Event ι ο ε)) :
    incoming (xs ++ ys) = incoming xs ++ incoming ys := by
  induction xs with
  | nil => rfl
  | cons x xs ih => cases x <;> simp [incoming, ih]

@[simp] theorem outgoing_append (xs ys : List (Event ι ο ε)) :
    outgoing (xs ++ ys) = outgoing xs ++ outgoing ys := by
  induction xs with
  | nil => rfl
  | cons x xs ih => cases x <;> simp [outgoing, ih]

/-! ### Runs -/

variable {p : σ → Act ι ο ε σ} {s t u : σ} {xs ys : List (Event ι ο ε)}

theorem Run.append (h : Run p s xs t) (h' : Run p t ys u) : Run p s (xs ++ ys) u := by
  induction h with
  | nil s => exact h'
  | receive answer hact _ ih => exact .receive answer hact (ih h')
  | send answer hact _ ih => exact .send answer hact (ih h')
  | tau hact _ ih => exact .tau hact (ih h')

/-- A program that has finished does no more. -/
theorem Run.of_finish {r : Except ε Unit} (h : Run p s xs t) (hfinish : p s = .finish r) :
    xs = [] ∧ t = s := by
  cases h with
  | nil => exact ⟨rfl, rfl⟩
  | receive _ hact _ => exact absurd (hfinish.symm.trans hact) (by simp)
  | send _ hact _ => exact absurd (hfinish.symm.trans hact) (by simp)
  | tau hact _ => exact absurd (hfinish.symm.trans hact) (by simp)

namespace Act

variable {a : Act ι ο ε σ} {f : σ → τ}

theorem map_eq_receive {k : Except ε ι → τ} :
    a.map f = .receive k ↔ ∃ k', a = .receive k' ∧ k = fun answer => f (k' answer) := by
  cases a <;> simp [map, eq_comm]

theorem map_eq_send {message : ο} {k : Except ε Unit → τ} :
    a.map f = .send message k ↔
      ∃ k', a = .send message k' ∧ k = fun answer => f (k' answer) := by
  cases a <;> simp [map, eq_comm]

theorem map_eq_tau {v : τ} : a.map f = .tau v ↔ ∃ s, a = .tau s ∧ v = f s := by
  cases a <;> simp [map, eq_comm]

theorem map_eq_finish {r : Except ε Unit} : a.map f = .finish r ↔ a = .finish r := by
  cases a <;> simp [map]

end Act

/-- The runs of a program that does on the images of states what another one does on the
states. -/
theorem run_map_iff {q : τ → Act ι ο ε τ} {f : σ → τ} (hq : ∀ s, q (f s) = (p s).map f) {v : τ} :
    Run q (f s) xs v ↔ ∃ t, v = f t ∧ Run p s xs t := by
  constructor
  · intro h
    generalize hfs : f s = w at h
    induction h generalizing s with
    | nil w => exact ⟨s, hfs.symm, .nil s⟩
    | receive answer hact _ ih =>
      obtain ⟨k, hp, rfl⟩ := Act.map_eq_receive.mp ((hq s).symm.trans (hfs ▸ hact))
      obtain ⟨t, hv, ht⟩ := ih rfl
      exact ⟨t, hv, .receive answer hp ht⟩
    | send answer hact _ ih =>
      obtain ⟨k, hp, rfl⟩ := Act.map_eq_send.mp ((hq s).symm.trans (hfs ▸ hact))
      obtain ⟨t, hv, ht⟩ := ih rfl
      exact ⟨t, hv, .send answer hp ht⟩
    | tau hact _ ih =>
      obtain ⟨s', hp, rfl⟩ := Act.map_eq_tau.mp ((hq s).symm.trans (hfs ▸ hact))
      obtain ⟨t, hv, ht⟩ := ih rfl
      exact ⟨t, hv, .tau hp ht⟩
  · rintro ⟨t, rfl, h⟩
    induction h with
    | nil s => exact .nil _
    | receive answer hact _ ih => exact .receive answer (by rw [hq, hact]; rfl) ih
    | send answer hact _ ih => exact .send answer (by rw [hq, hact]; rfl) ih
    | tau hact _ ih => exact .tau (by rw [hq, hact]; rfl) ih

/-! ### Relays -/

/-- What stands between a program and its environment: what it makes of an answer to a receive,
and of a message to send. -/
structure Relay (ι ο ε μ : Type) where
  allow : μ → Except ε ι → μ × Except ε ι
  convey : μ → ο → μ × ο

namespace Relay

variable (w : Relay ι ο ε μ)

def program (p : σ → Act ι ο ε σ) (state : μ × σ) : Act ι ο ε (μ × σ) :=
  match p state.2 with
  | .receive k =>
    .receive fun answer => ((w.allow state.1 answer).1, k (w.allow state.1 answer).2)
  | .send message k =>
    .send (w.convey state.1 message).2 fun answer => ((w.convey state.1 message).1, k answer)
  | .tau next => .tau (state.1, next)
  | .finish result => .finish result

/-- The state after receiving what the environment answers and sending what the program sends. -/
def monitor : μ → List (Event ι ο ε) → μ
  | m, [] => m
  | m, .received answer :: events => monitor (w.allow m answer).1 events
  | m, .sent message _ :: events => monitor (w.convey m message).1 events

/-- What the program sees of it. -/
def inside : μ → List (Event ι ο ε) → List (Event ι ο ε)
  | _, [] => []
  | m, .received answer :: events =>
    .received (w.allow m answer).2 :: inside (w.allow m answer).1 events
  | m, .sent message answer :: events =>
    .sent message answer :: inside (w.convey m message).1 events

/-- What the environment sees of it. -/
def outside : μ → List (Event ι ο ε) → List (Event ι ο ε)
  | _, [] => []
  | m, .received answer :: events => .received answer :: outside (w.allow m answer).1 events
  | m, .sent message answer :: events =>
    .sent (w.convey m message).2 answer :: outside (w.convey m message).1 events

variable {w}

section

variable {a : μ × σ}

theorem program_eq_receive {k : Except ε ι → μ × σ} :
    w.program p a = .receive k ↔ ∃ k', p a.2 = .receive k' ∧
      k = fun answer => ((w.allow a.1 answer).1, k' (w.allow a.1 answer).2) := by
  unfold program
  cases p a.2 <;> simp [eq_comm]

theorem program_eq_send {message : ο} {k : Except ε Unit → μ × σ} :
    w.program p a = .send message k ↔ ∃ inner k', p a.2 = .send inner k' ∧
      message = (w.convey a.1 inner).2 ∧ k = fun answer => ((w.convey a.1 inner).1, k' answer) := by
  unfold program
  cases p a.2 <;> simp [eq_comm]

theorem program_eq_tau {b : μ × σ} :
    w.program p a = .tau b ↔ ∃ next, p a.2 = .tau next ∧ b = (a.1, next) := by
  unfold program
  cases p a.2 <;> simp [eq_comm]

theorem program_eq_finish {r : Except ε Unit} : w.program p a = .finish r ↔ p a.2 = .finish r := by
  unfold program
  cases p a.2 <;> simp

end

theorem run_of_inside {m : μ} (h : Run p s (w.inside m xs) t) :
    Run (w.program p) (m, s) (w.outside m xs) (w.monitor m xs, t) := by
  generalize hys : w.inside m xs = ys at h
  induction h generalizing m xs with
  | nil s =>
    cases xs with
    | nil => exact .nil _
    | cons x xs => cases x <;> simp [inside] at hys
  | receive answer hact _ ih =>
    cases xs with
    | nil => simp [inside] at hys
    | cons x xs =>
      cases x with
      | received outer =>
        simp only [inside, List.cons.injEq, Event.received.injEq] at hys
        obtain ⟨rfl, hys⟩ := hys
        exact .receive outer (program_eq_receive.mpr ⟨_, hact, rfl⟩) (ih hys)
      | sent message outer => simp [inside] at hys
  | send answer hact _ ih =>
    cases xs with
    | nil => simp [inside] at hys
    | cons x xs =>
      cases x with
      | received outer => simp [inside] at hys
      | sent message outer =>
        simp only [inside, List.cons.injEq, Event.sent.injEq] at hys
        obtain ⟨⟨rfl, rfl⟩, hys⟩ := hys
        exact .send outer (program_eq_send.mpr ⟨_, _, hact, rfl, rfl⟩) (ih hys)
  | tau hact _ ih => exact .tau (program_eq_tau.mpr ⟨_, hact, rfl⟩) (ih hys)

theorem inside_of_run {a b : μ × σ} (h : Run (w.program p) a ys b) :
    ∃ xs, ys = w.outside a.1 xs ∧ b.1 = w.monitor a.1 xs ∧ Run p a.2 (w.inside a.1 xs) b.2 := by
  induction h with
  | nil a => exact ⟨[], rfl, rfl, .nil _⟩
  | receive answer hact _ ih =>
    obtain ⟨k, hp, rfl⟩ := program_eq_receive.mp hact
    obtain ⟨xs, rfl, hm, hrun⟩ := ih
    exact ⟨.received answer :: xs, rfl, hm, .receive _ hp hrun⟩
  | send answer hact _ ih =>
    obtain ⟨message, k, hp, rfl, rfl⟩ := program_eq_send.mp hact
    obtain ⟨xs, rfl, hm, hrun⟩ := ih
    exact ⟨.sent message answer :: xs, rfl, hm, .send _ hp hrun⟩
  | tau hact _ ih =>
    obtain ⟨next, hp, rfl⟩ := program_eq_tau.mp hact
    obtain ⟨xs, hys, hm, hrun⟩ := ih
    exact ⟨xs, hys, hm, .tau hp hrun⟩

/-- **The runs of a relayed program are the runs of the program, seen from outside.** -/
theorem run_iff {m m' : μ} :
    Run (w.program p) (m, s) ys (m', t) ↔
      ∃ xs, ys = w.outside m xs ∧ m' = w.monitor m xs ∧ Run p s (w.inside m xs) t := by
  constructor
  · exact fun h => inside_of_run h
  · rintro ⟨xs, rfl, rfl, h⟩
    exact run_of_inside h

end Relay

/-! ### One program behind another -/

/-- A program, and behind it a second one for the results that call for it. -/
def chain (p : σ → Act ι ο ε σ) (next : σ → Except ε Unit → Option τ) (q : τ → Act ι ο ε τ) :
    σ ⊕ τ → Act ι ο ε (σ ⊕ τ)
  | .inl s =>
    match p s with
    | .finish result =>
      match next s result with
      | some t => .tau (.inr t)
      | none => .finish result
    | act => act.map .inl
  | .inr t => (q t).map .inr

section

variable {next : σ → Except ε Unit → Option τ} {q : τ → Act ι ο ε τ}

/-- What the first program does, and where the second one takes over. -/
theorem chain_inl_cases (p : σ → Act ι ο ε σ) (next : σ → Except ε Unit → Option τ)
    (q : τ → Act ι ο ε τ) (s : σ) :
    (∃ r v, p s = .finish r ∧ next s r = some v ∧ chain p next q (.inl s) = .tau (.inr v)) ∨
      chain p next q (.inl s) = (p s).map .inl ∧ ∀ r, p s = .finish r → next s r = none := by
  cases hp : p s with
  | finish r =>
    cases hnext : next s r with
    | some v => exact .inl ⟨r, v, rfl, hnext, by simp [chain, hp, hnext]⟩
    | none =>
      refine .inr ⟨by simp [chain, hp, hnext, Act.map], fun r' hr => ?_⟩
      obtain rfl := Act.finish.inj hr
      exact hnext
  | receive k => exact .inr ⟨by simp [chain, hp], by simp⟩
  | send message k => exact .inr ⟨by simp [chain, hp], by simp⟩
  | tau t => exact .inr ⟨by simp [chain, hp], by simp⟩

theorem chain_inl_of_ne (h : ∀ r, p s ≠ .finish r) : chain p next q (.inl s) = (p s).map .inl := by
  rcases chain_inl_cases p next q s with ⟨r, _, hp, _⟩ | ⟨hchain, _⟩
  · exact absurd hp (h r)
  · exact hchain

theorem chain_inl_eq_finish {r : Except ε Unit} :
    chain p next q (.inl s) = .finish r ↔ p s = .finish r ∧ next s r = none := by
  rcases chain_inl_cases p next q s with ⟨r', v, hp, hnext, hchain⟩ | ⟨hchain, hnone⟩
  · rw [hchain, hp]
    constructor
    · intro h
      cases h
    · rintro ⟨h, hnone⟩
      obtain rfl := Act.finish.inj h
      exact absurd (hnext.symm.trans hnone) (by simp)
  · rw [hchain, Act.map_eq_finish]
    exact ⟨fun h => ⟨h, hnone r h⟩, And.left⟩

theorem run_chain_inr {v : τ} {w : σ ⊕ τ} :
    Run (chain p next q) (.inr v) xs w ↔ ∃ v', w = .inr v' ∧ Run q v xs v' := by
  have hq : ∀ v, chain p next q (.inr v) = (q v).map .inr := fun _ => rfl
  exact run_map_iff hq

theorem run_chain_of_run (h : Run p s xs t) : Run (chain p next q) (.inl s) xs (.inl t) := by
  induction h with
  | nil s => exact .nil _
  | receive answer hact _ ih =>
    exact .receive answer (by rw [chain_inl_of_ne (by simp [hact]), hact]; rfl) ih
  | send answer hact _ ih =>
    exact .send answer (by rw [chain_inl_of_ne (by simp [hact]), hact]; rfl) ih
  | tau hact _ ih => exact .tau (by rw [chain_inl_of_ne (by simp [hact]), hact]; rfl) ih

/-- **A run stays in the first program, or runs it to a result and then the second one.** -/
theorem run_chain_iff {w : σ ⊕ τ} :
    Run (chain p next q) (.inl s) xs w ↔
      (∃ t, w = .inl t ∧ Run p s xs t) ∨
        ∃ ys zs t r v v', xs = ys ++ zs ∧ Run p s ys t ∧ p t = .finish r ∧ next t r = some v ∧
          Run q v zs v' ∧ w = .inr v' := by
  constructor
  · intro h
    generalize hs : Sum.inl s = a at h
    induction h generalizing s with
    | nil a => exact .inl ⟨s, hs.symm, .nil s⟩
    | receive answer hact _ ih =>
      subst hs
      rcases chain_inl_cases p next q s with ⟨r, v, _, _, hchain⟩ | ⟨hchain, _⟩
      · exact absurd (hchain.symm.trans hact) (by simp)
      · obtain ⟨k, hp, rfl⟩ := Act.map_eq_receive.mp (hchain.symm.trans hact)
        rcases ih rfl with ⟨t, hw, ht⟩ | ⟨ys, zs, t, r, v, v', rfl, ht, rest⟩
        · exact .inl ⟨t, hw, .receive answer hp ht⟩
        · exact .inr ⟨_ :: ys, zs, t, r, v, v', rfl, .receive answer hp ht, rest⟩
    | send answer hact _ ih =>
      subst hs
      rcases chain_inl_cases p next q s with ⟨r, v, _, _, hchain⟩ | ⟨hchain, _⟩
      · exact absurd (hchain.symm.trans hact) (by simp)
      · obtain ⟨k, hp, rfl⟩ := Act.map_eq_send.mp (hchain.symm.trans hact)
        rcases ih rfl with ⟨t, hw, ht⟩ | ⟨ys, zs, t, r, v, v', rfl, ht, rest⟩
        · exact .inl ⟨t, hw, .send answer hp ht⟩
        · exact .inr ⟨_ :: ys, zs, t, r, v, v', rfl, .send answer hp ht, rest⟩
    | tau hact hrun ih =>
      subst hs
      rcases chain_inl_cases p next q s with ⟨r, v, hp, hnext, hchain⟩ | ⟨hchain, _⟩
      · obtain rfl := Act.tau.inj (hchain.symm.trans hact)
        obtain ⟨v', rfl, hq⟩ := run_chain_inr.mp hrun
        exact .inr ⟨[], _, s, r, v, v', rfl, .nil s, hp, hnext, hq, rfl⟩
      · obtain ⟨s', hp, rfl⟩ := Act.map_eq_tau.mp (hchain.symm.trans hact)
        rcases ih rfl with ⟨t, hw, ht⟩ | ⟨ys, zs, t, r, v, v', rfl, ht, rest⟩
        · exact .inl ⟨t, hw, .tau hp ht⟩
        · exact .inr ⟨ys, zs, t, r, v, v', rfl, .tau hp ht, rest⟩
  · rintro (⟨t, rfl, h⟩ | ⟨ys, zs, t, r, v, v', rfl, h, hp, hnext, hq, rfl⟩)
    · exact run_chain_of_run h
    · have handover : chain p next q (.inl t) = .tau (.inr v) := by simp [chain, hp, hnext]
      exact (run_chain_of_run h).append (.tau handover (run_chain_inr.mpr ⟨v', rfl, hq⟩))

end

/-! ### Sending messages -/

/-- Sends the messages one after another, up to the first failure. -/
def emit : Except ε (List ο) → Act ι ο ε (Except ε (List ο))
  | .ok [] => .finish (.ok ())
  | .ok (message :: messages) => .send message fun answer => answer.map fun _ => messages
  | .error e => .finish (.error e)

theorem outgoing_of_run_emit {messages : List ο} {v : Except ε (List ο)}
    (h : Run emit (.ok messages) xs v) :
    outgoing xs <+: messages ∧ incoming xs = [] := by
  generalize hs : (Except.ok messages : Except ε (List ο)) = a at h
  induction h generalizing messages with
  | nil => exact ⟨List.nil_prefix, rfl⟩
  | receive answer hact _ _ => cases messages <;> (subst hs; cases hact)
  | send answer hact hrun ih =>
    subst hs
    cases messages with
    | nil => cases hact
    | cons message messages =>
      obtain ⟨rfl, rfl⟩ := Act.send.inj hact
      cases answer with
      | ok =>
        obtain ⟨hout, hin⟩ := ih rfl
        exact ⟨(List.prefix_cons_inj message).mpr hout, hin⟩
      | error e =>
        have failed : (emit (.error e) : Act ι ο ε _) = .finish (.error e) := rfl
        obtain ⟨rfl, -⟩ := hrun.of_finish failed
        exact ⟨⟨messages, rfl⟩, rfl⟩
  | tau hact _ _ => cases messages <;> (subst hs; cases hact)

/-- It returns only once everything is sent. -/
theorem outgoing_of_emit_returns {messages : List ο} {v : Except ε (List ο)}
    (h : Run emit (.ok messages) xs v) (hreturns : (emit v : Act ι ο ε _) = .finish (.ok ())) :
    outgoing xs = messages := by
  generalize hs : (Except.ok messages : Except ε (List ο)) = a at h
  induction h generalizing messages with
  | nil =>
    subst hs
    cases messages with
    | nil => rfl
    | cons message messages => cases hreturns
  | receive answer hact _ _ => cases messages <;> (subst hs; cases hact)
  | send answer hact hrun ih =>
    subst hs
    cases messages with
    | nil => cases hact
    | cons message messages =>
      obtain ⟨rfl, rfl⟩ := Act.send.inj hact
      cases answer with
      | ok => exact congrArg (message :: ·) (ih hreturns rfl)
      | error e =>
        have failed : (emit (.error e) : Act ι ο ε _) = .finish (.error e) := rfl
        obtain ⟨-, rfl⟩ := hrun.of_finish failed
        cases hreturns
  | tau hact _ _ => cases messages <;> (subst hs; cases hact)

/-! ### Answering a program -/

/-- A program whose receives are answered from a state instead of by the environment. -/
def replay (answer : μ → μ × Except ε ι) (p : σ → Act ι ο ε σ) (state : μ × σ) :
    Act ι ο ε (μ × σ) :=
  match p state.2 with
  | .receive k => .tau ((answer state.1).1, k (answer state.1).2)
  | .send message k => .send message fun answer => (state.1, k answer)
  | .tau next => .tau (state.1, next)
  | .finish result => .finish result

section

variable {answer : μ → μ × Except ε ι}

/-- The first answers. -/
def answers (answer : μ → μ × Except ε ι) : μ → ℕ → List (Except ε ι)
  | _, 0 => []
  | m, n + 1 => (answer m).2 :: answers answer (answer m).1 n

variable {a b : μ × σ}

theorem replay_ne_receive {k : Except ε ι → μ × σ} : replay answer p a ≠ .receive k := by
  unfold replay
  cases p a.2 <;> simp

theorem replay_eq_send {message : ο} {k : Except ε Unit → μ × σ} :
    replay answer p a = .send message k ↔
      ∃ k', p a.2 = .send message k' ∧ k = fun reply => (a.1, k' reply) := by
  unfold replay
  cases p a.2 <;> simp [eq_comm]

theorem replay_eq_tau :
    replay answer p a = .tau b ↔
      (∃ k, p a.2 = .receive k ∧ b = ((answer a.1).1, k (answer a.1).2)) ∨
        ∃ next, p a.2 = .tau next ∧ b = (a.1, next) := by
  unfold replay
  cases p a.2 <;> simp [eq_comm]

/-- **The runs of a program that is answered are the sends of its runs with these answers.** -/
theorem run_replay (h : Run (replay answer p) a ys b) :
    ∃ xs, ys = sends xs ∧ incoming xs = answers answer a.1 (incoming xs).length ∧
      Run p a.2 xs b.2 := by
  induction h with
  | nil a => exact ⟨[], rfl, rfl, .nil _⟩
  | receive _ hact _ _ => exact absurd hact replay_ne_receive
  | send reply hact _ ih =>
    obtain ⟨k, hp, rfl⟩ := replay_eq_send.mp hact
    obtain ⟨xs, rfl, hin, hrun⟩ := ih
    exact ⟨.sent _ reply :: xs, rfl, hin, .send reply hp hrun⟩
  | tau hact _ ih =>
    rcases replay_eq_tau.mp hact with ⟨k, hp, rfl⟩ | ⟨next, hp, rfl⟩
    · obtain ⟨xs, rfl, hin, hrun⟩ := ih
      exact ⟨.received _ :: xs, rfl, congrArg (_ :: ·) hin, .receive _ hp hrun⟩
    · obtain ⟨xs, rfl, hin, hrun⟩ := ih
      exact ⟨xs, rfl, hin, .tau hp hrun⟩

end

/-! ### Invariants -/

/-- What an action leads to has the property. -/
def Act.All (I : σ → Prop) : Act ι ο ε σ → Prop
  | .receive k => ∀ answer, I (k answer)
  | .send _ k => ∀ answer, I (k answer)
  | .tau next => I next
  | .finish _ => True

theorem Act.All.map {I : σ → Prop} {J : τ → Prop} {f : σ → τ} {a : Act ι ο ε σ} (h : a.All I)
    (hJ : ∀ s, I s → J (f s)) : (a.map f).All J := by
  cases a with
  | receive k => exact fun answer => hJ _ (h answer)
  | send message k => exact fun answer => hJ _ (h answer)
  | tau next => exact hJ _ h
  | finish result => trivial

/-- No step leaves the property. -/
def Closed (p : σ → Act ι ο ε σ) (I : σ → Prop) : Prop := ∀ s, I s → (p s).All I

namespace Closed

variable {I : σ → Prop}

theorem run (h : Closed p I) (hs : I s) (hrun : Run p s xs t) : I t := by
  induction hrun with
  | nil s => exact hs
  | @receive s _ k _ answer hact _ ih =>
    have next := h s hs
    rw [hact] at next
    exact ih (next answer)
  | @send s _ message k _ answer hact _ ih =>
    have next := h s hs
    rw [hact] at next
    exact ih (next answer)
  | @tau s _ _ _ hact _ ih =>
    have next := h s hs
    rw [hact] at next
    exact ih next

/-- What can be reached from some states is closed. -/
theorem reached (p : σ → Act ι ο ε σ) (starts : σ → Prop) :
    Closed p fun t => ∃ s xs, starts s ∧ Run p s xs t := by
  rintro t ⟨s, xs, hs, hrun⟩
  cases hact : p t with
  | receive k => exact fun answer => ⟨s, _, hs, hrun.append (.receive answer hact (.nil _))⟩
  | send message k => exact fun answer => ⟨s, _, hs, hrun.append (.send answer hact (.nil _))⟩
  | tau next => exact ⟨s, _, hs, hrun.append (.tau hact (.nil _))⟩
  | finish result => trivial

theorem relay {w : Relay ι ο ε μ} (h : Closed p I) : Closed (w.program p) fun a => I a.2 := by
  intro a ha
  have next := h a.2 ha
  unfold Relay.program
  cases hact : p a.2 with
  | receive k =>
    rw [hact] at next
    exact fun answer => next _
  | send message k =>
    rw [hact] at next
    exact next
  | tau next' =>
    rw [hact] at next
    exact next
  | finish result => trivial

theorem replay {answer : μ → μ × Except ε ι} (h : Closed p I) :
    Closed (Interaction.replay answer p) fun a => I a.2 := by
  intro a ha
  have next := h a.2 ha
  unfold Interaction.replay
  cases hact : p a.2 with
  | receive k =>
    rw [hact] at next
    exact next _
  | send message k =>
    rw [hact] at next
    exact next
  | tau next' =>
    rw [hact] at next
    exact next
  | finish result => trivial

theorem chain {next : σ → Except ε Unit → Option τ} {q : τ → Act ι ο ε τ} (h : Closed p I) :
    Closed (Interaction.chain p next q) (Sum.elim I fun _ => True) := by
  have done : ∀ {a : Act ι ο ε τ}, a.All fun _ => True := by
    intro a
    cases a <;> simp [Act.All]
  rintro (s | v) hs
  · rcases chain_inl_cases p next q s with ⟨r, v, _, _, hchain⟩ | ⟨hchain, _⟩
    · rw [hchain]
      trivial
    · rw [hchain]
      exact (h s hs).map fun _ h => h
  · exact done.map fun _ h => h

end Closed

end Interaction
