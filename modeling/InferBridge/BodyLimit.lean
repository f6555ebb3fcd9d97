/-
InferBridge/BodyLimit.lean

The limit on the bodies of requests (`RequestBodyLimitMiddleware` in app/body_limit.py).

A declared length is checked before the application starts.  After that the middleware counts
what the application receives, and raises in the application once it is too much.  If that
exception leaves the application, the middleware answers for it, unless the application has
started its response.

Design.  The application is any program: it may catch the exception, go on receiving, or raise
it on its own.  `Tally` is what the middleware knows of a request.

Main results.  `call_received_le` bounds what an application is given, whatever it does with
the exception; `call_run_iff` says that a body within the limit makes no difference at all; and
`call_outgoing` says what is sent: the application's own messages, and behind them a refusal
only if the application has not started its response.
-/
import InferBridge.Asgi

namespace InferBridge.Asgi

open Interaction

/-! ### The declared length -/

/-- Py_ISSPACE -/
def isAsciiSpace (b : UInt8) : Bool := (9 ≤ b.toNat ∧ b.toNat ≤ 13) ∨ b.toNat = 32

def isAsciiDigit (b : UInt8) : Bool := 48 ≤ b.toNat ∧ b.toNat ≤ 57

/-- The digits of an integer, with single underscores between them. -/
def digitsOf (text : Bytes) : Option Bytes :=
  let groups := text.splitOn 95
  let digits := groups.flatten
  if groups.all (fun group => group ≠ [] && group.all isAsciiDigit) ∧ digits.length ≤ 4300 then
    some digits
  else none

def natOfDigits (digits : Bytes) : ℕ := digits.foldl (fun n b => 10 * n + (b.toNat - 48)) 0

/-- `int` of bytes; `none` is a `ValueError` -/
def intOfBytes (raw : Bytes) : Option Int :=
  match Text.strip isAsciiSpace raw with
  | 43 :: rest => (digitsOf rest).map fun digits => (natOfDigits digits : Int)
  | 45 :: rest => (digitsOf rest).map fun digits => -(natOfDigits digits : Int)
  | rest => (digitsOf rest).map fun digits => (natOfDigits digits : Int)

/-! ### The middleware -/

namespace RequestBodyLimitMiddleware

def tooLargeDetail (maxBytes : ℕ) : Str :=
  "Request body exceeds the ".toList ++ Nat.toDigits 10 maxBytes ++ "-byte limit.".toList

/-- `_reject` -/
def reject (status : ℕ) (detail : Str) (httpVersion : Option Str) : List Message :=
  let body := ascii (detailJson detail)
  let close := httpVersion = some "1.0".toList ∨ httpVersion = some "1.1".toList
  [.start status
    ([(ascii "content-type".toList, ascii "application/json".toList),
      (ascii "content-length".toList, ascii (Nat.toDigits 10 body.length))] ++
      if close then [(ascii "connection".toList, ascii "close".toList)] else []),
    .body body none]

def tooLarge (maxBytes : ℕ) (httpVersion : Option Str) : List Message :=
  reject 413 (tooLargeDetail maxBytes) httpVersion

/-- What the headers of a request say: the refusal, if they are refused. -/
def checkLength (maxBytes : ℕ) (scope : Scope) : Option (List Message) :=
  match scope.values "content-length" with
  | [] => none
  | raw :: others =>
    if others.any (· ≠ raw) then
      some (reject 400 "Conflicting Content-Length headers.".toList scope.httpVersion)
    else
      match intOfBytes raw with
      | none => some (reject 400 "Invalid Content-Length header.".toList scope.httpVersion)
      | some length =>
        if length < 0 then
          some (reject 400 "Invalid Content-Length header.".toList scope.httpVersion)
        else if length > maxBytes then some (tooLarge maxBytes scope.httpVersion)
        else none

/-- What the closures of a call hold: the version of the request, `received` and
`response_started`. -/
structure Tally where
  httpVersion : Option Str
  received : ℕ
  started : Bool

namespace Tally

variable (maxBytes : ℕ)

/-- `limited_receive` -/
def limitedReceive (tally : Tally) : Answer → Tally × Answer
  | .ok (.request body moreBody) =>
    let received := tally.received + (body.getD []).length
    ({ tally with received },
      if received > maxBytes then .error .requestBodyTooLarge else .ok (.request body moreBody))
  | answer => (tally, answer)

/-- `tracked_send` -/
def trackedSend (tally : Tally) (message : Message) : Tally × Message :=
  ({ tally with started := tally.started || message.isStart }, message)

/-- The response to an exception that has left the application, unless one was started. -/
def respond (tally : Tally) : Except Raised Unit → Option Reply
  | .error .requestBodyTooLarge =>
    if tally.started then none else some (.ok (tooLarge maxBytes tally.httpVersion))
  | _ => none

end Tally

variable {σ : Type}

def relay (maxBytes : ℕ) : Relay Message Message Raised Tally where
  allow := Tally.limitedReceive maxBytes
  convey := Tally.trackedSend

/-- The application alone, or behind the limit and before a refusal. -/
abbrev State (σ : Type) := σ ⊕ ((Tally × σ) ⊕ Reply)

/-- `__init__` -/
def limit (maxBytes : Int) : ℕ := (max maxBytes 1).toNat

def limited (maxBytes : ℕ) (app : App σ) : (Tally × σ) ⊕ Reply → Action ((Tally × σ) ⊕ Reply) :=
  chain ((relay maxBytes).program app.act) (fun state => state.1.respond maxBytes) emit

/-- `RequestBodyLimitMiddleware.__call__` -/
def call (maxBytes : ℕ) (app : App σ) : App (State σ) where
  start scope :=
    if scope.isHttp then
      match checkLength maxBytes scope with
      | some messages => .inr (.inr (.ok messages))
      | none => .inr (.inl (⟨scope.httpVersion, 0, false⟩, app.start scope))
    else .inl (app.start scope)
  act
    | .inl s => (app.act s).map .inl
    | .inr state => (limited maxBytes app state).map .inr

/-! ### What is asked of an application -/

variable {maxBytes : ℕ} {app : App σ} {scope : Scope} {tally : Tally}
variable {events xs : List Happening}

/-- The exception is not one of the server's own. -/
def Foreign (events : List Happening) : Prop :=
  ∀ event ∈ events, event ≠ .received (.error .requestBodyTooLarge) ∧
    ∀ message, event ≠ .sent message (.error .requestBodyTooLarge)

/-- The application does not raise the exception unless it has met it. -/
def Unraised (maxBytes : ℕ) (app : App σ) (scope : Scope) : Prop :=
  ∀ xs, Foreign xs → received xs ≤ maxBytes → ¬ app.Ends scope xs (.error .requestBodyTooLarge)

/-- The exception leaves the application. -/
def Strict (app : App σ) : Prop :=
  ∀ s k, app.act s = .receive k →
    app.act (k (.error .requestBodyTooLarge)) = .finish (.error .requestBodyTooLarge)

/-! ### An application that reads a body and answers -/

inductive Downstream where
  | reading
  | replying (reply : Reply)
deriving DecidableEq

/-- Reads to the end of the body, and answers with the status 204. -/
def downstream : App Downstream where
  start _ := .reading
  act
    | .reading => .receive fun
      | .ok (.request _ (some true)) => .reading
      | .ok _ => .replying (.ok [.start 204 [], .body [] none])
      | .error e => .replying (.error e)
    | .replying reply => (emit reply).map .replying

theorem downstream_strict : Strict downstream := by
  intro s k hact
  cases s with
  | reading =>
    obtain rfl := Act.receive.inj hact
    rfl
  | replying reply =>
    rcases reply with _ | _ | _ <;> cases hact

theorem downstream_kept {s t : Downstream} (foreign : Foreign events)
    (hs : s ≠ .replying (.error .requestBodyTooLarge)) (hrun : Run downstream.act s events t) :
    t ≠ .replying (.error .requestBodyTooLarge) := by
  induction hrun with
  | nil s => exact hs
  | @receive s _ k xs answer hact _ ih =>
    have own := (foreign _ List.mem_cons_self).1
    refine ih (fun event h => foreign event (List.mem_cons_of_mem _ h)) ?_
    cases s with
    | reading =>
      obtain rfl := Act.receive.inj hact
      rcases answer with e | ⟨_, _ | _ | _⟩ | _ | _ | _ <;> simp_all
    | replying reply => rcases reply with _ | _ | _ <;> cases hact
  | @send s _ message k xs answer hact _ ih =>
    have own := (foreign _ List.mem_cons_self).2 message
    refine ih (fun event h => foreign event (List.mem_cons_of_mem _ h)) ?_
    rcases s with _ | _ | _ | ⟨_, _⟩ <;> cases hact
    cases answer <;> simp_all [Except.map]
  | @tau s _ _ _ hact _ ih =>
    rcases s with _ | _ | _ | _ <;> cases hact

theorem downstream_unraised (maxBytes : ℕ) (scope : Scope) :
    Unraised maxBytes downstream scope := by
  rintro xs foreign - ⟨t, hrun, hfinish⟩
  have kept := downstream_kept foreign (by simp [downstream]) hrun
  rcases t with _ | e | _ | _ <;> cases hfinish
  exact kept rfl

/-- A request of six bytes, in two parts. -/
def chunked : List Happening :=
  [.received (.ok (.request (some (ascii "abc".toList)) (some true))),
    .received (.ok (.request (some (ascii "def".toList)) (some false)))]

def postScope (headers : Headers) : Scope where
  type := "http".toList
  method := some "POST".toList
  path := some "/v1/test".toList
  httpVersion := some "1.1".toList
  headers
  client := none
  server := none

/-! ### What the application is given -/

theorem limitedReceive_received (maxBytes : ℕ) (tally : Tally) (answer : Answer) :
    (tally.limitedReceive maxBytes answer).1.received = tally.received + size answer := by
  rcases answer with e | ⟨_, _⟩ | ⟨_, _⟩ | ⟨_, _⟩ | _ <;> rfl

theorem limitedReceive_of_le {answer : Answer} (h : tally.received + size answer ≤ maxBytes) :
    (tally.limitedReceive maxBytes answer).2 = answer := by
  rcases answer with e | ⟨_, _⟩ | ⟨_, _⟩ | ⟨_, _⟩ | _ <;> first | rfl | exact if_neg (not_lt.mpr h)

theorem limitedReceive_of_lt {answer : Answer} (h : maxBytes < tally.received + size answer) :
    size (tally.limitedReceive maxBytes answer).2 = 0 := by
  rcases answer with e | ⟨_, _⟩ | ⟨_, _⟩ | ⟨_, _⟩ | _ <;> first | rfl | skip
  exact congrArg size (if_pos h)

/-- The answer that exceeds the limit is replaced. -/
theorem limitedReceive_exceeds {answer : Answer} (within : tally.received ≤ maxBytes)
    (h : maxBytes < tally.received + size answer) :
    (tally.limitedReceive maxBytes answer).2 = .error .requestBodyTooLarge := by
  have some : size answer ≠ 0 := by omega
  rcases answer with e | ⟨_, _⟩ | ⟨_, _⟩ | ⟨_, _⟩ | _
  · exact absurd rfl some
  · exact if_pos h
  · exact absurd rfl some
  · exact absurd rfl some
  · exact absurd rfl some

/-- However often the limit is met, no more than what is left of it is passed on. -/
theorem received_inside_le (maxBytes : ℕ) (tally : Tally) (xs : List Happening) :
    received ((relay maxBytes).inside tally xs) ≤ maxBytes - tally.received := by
  induction xs generalizing tally with
  | nil => exact Nat.zero_le _
  | cons x xs ih =>
    cases x with
    | received answer =>
      have rest := ih (tally.limitedReceive maxBytes answer).1
      rw [limitedReceive_received] at rest
      show size (tally.limitedReceive maxBytes answer).2 + received (Relay.inside _ _ xs) ≤ _
      rcases le_or_gt (tally.received + size answer) maxBytes with within | beyond
      · rw [limitedReceive_of_le within]
        exact (Nat.add_le_add_left rest _).trans (by omega)
      · rw [limitedReceive_of_lt beyond]
        exact (Nat.add_le_add_left rest _).trans (by omega)
    | sent message answer => exact ih (tally.trackedSend message).1

/-- Within the limit the application is given what there is. -/
theorem inside_of_le (fits : tally.received + received xs ≤ maxBytes) :
    (relay maxBytes).inside tally xs = xs := by
  induction xs generalizing tally with
  | nil => rfl
  | cons x xs ih =>
    cases x with
    | received answer =>
      have total : tally.received + (size answer + received xs) ≤ maxBytes := fits
      have rest : (tally.limitedReceive maxBytes answer).1.received + received xs ≤ maxBytes := by
        rw [limitedReceive_received]
        omega
      show .received (tally.limitedReceive maxBytes answer).2 :: Relay.inside _ _ xs = _
      rw [limitedReceive_of_le (by omega)]
      exact congrArg (_ :: ·) (ih rest)
    | sent message answer =>
      have rest : (tally.trackedSend message).1.received + received xs ≤ maxBytes := fits
      exact congrArg (.sent message answer :: ·) (ih rest)

theorem outgoing_inside (maxBytes : ℕ) (tally : Tally) (xs : List Happening) :
    outgoing ((relay maxBytes).inside tally xs) = outgoing xs := by
  induction xs generalizing tally with
  | nil => rfl
  | cons x xs ih =>
    cases x with
    | received answer => exact ih _
    | sent message answer => exact congrArg (message :: ·) (ih _)

/-- The middleware changes no message of the application. -/
theorem outside_eq (maxBytes : ℕ) (tally : Tally) (xs : List Happening) :
    (relay maxBytes).outside tally xs = xs := by
  induction xs generalizing tally with
  | nil => rfl
  | cons x xs ih =>
    cases x with
    | received answer => exact congrArg (_ :: ·) (ih _)
    | sent message answer => exact congrArg (_ :: ·) (ih _)

theorem limitedReceive_keeps (maxBytes : ℕ) (tally : Tally) (answer : Answer) :
    (tally.limitedReceive maxBytes answer).1.httpVersion = tally.httpVersion ∧
      (tally.limitedReceive maxBytes answer).1.started = tally.started := by
  rcases answer with e | ⟨_, _⟩ | ⟨_, _⟩ | ⟨_, _⟩ | _ <;> exact ⟨rfl, rfl⟩

theorem monitor_keeps (maxBytes : ℕ) (tally : Tally) (xs : List Happening) :
    ((relay maxBytes).monitor tally xs).httpVersion = tally.httpVersion ∧
      ((relay maxBytes).monitor tally xs).started = (tally.started || started xs) := by
  induction xs generalizing tally with
  | nil => exact ⟨rfl, (Bool.or_false _).symm⟩
  | cons x xs ih =>
    cases x with
    | received answer =>
      obtain ⟨version, begun⟩ := ih (tally.limitedReceive maxBytes answer).1
      rw [(limitedReceive_keeps maxBytes tally answer).1] at version
      rw [(limitedReceive_keeps maxBytes tally answer).2] at begun
      exact ⟨version, begun⟩
    | sent message answer =>
      obtain ⟨version, begun⟩ := ih (tally.trackedSend message).1
      refine ⟨version, begun.trans ?_⟩
      simp [Tally.trackedSend, started, outgoing, Bool.or_assoc]

/-! ### The runs of the middleware -/

theorem respond_eq_some {result : Except Raised Unit} {reply : Reply} :
    tally.respond maxBytes result = some reply ↔
      result = .error .requestBodyTooLarge ∧ tally.started = false ∧
        reply = .ok (tooLarge maxBytes tally.httpVersion) := by
  rcases result with (_ | _) | _ <;> cases h : tally.started <;> simp [Tally.respond, h, eq_comm]

/-- A run stays in the application, which sees what the relay lets it see, or the application
has raised the exception before its response, and the refusal follows. -/
theorem run_limited_iff {s : σ} {w : (Tally × σ) ⊕ Reply} :
    Run (limited maxBytes app) (.inl (tally, s)) events w ↔
      (∃ t, w = .inl ((relay maxBytes).monitor tally events, t) ∧
        Run app.act s ((relay maxBytes).inside tally events) t) ∨
      ∃ ys zs t reply, events = ys ++ zs ∧ w = .inr reply ∧
        Run app.act s ((relay maxBytes).inside tally ys) t ∧
        app.act t = .finish (.error .requestBodyTooLarge) ∧
        (tally.started || started ys) = false ∧
        Run emit (.ok (tooLarge maxBytes tally.httpVersion)) zs reply := by
  unfold limited
  rw [run_chain_iff]
  constructor
  · rintro (⟨⟨m, t⟩, rfl, h⟩ | ⟨ys, zs, ⟨m, t⟩, r, v, reply, rfl, h, hfinish, hnext, hq, rfl⟩)
    · obtain ⟨xs, rfl, rfl, hrun⟩ := Relay.run_iff.mp h
      rw [outside_eq]
      exact .inl ⟨t, rfl, hrun⟩
    · obtain ⟨xs, rfl, rfl, hrun⟩ := Relay.run_iff.mp h
      obtain ⟨rfl, hstarted, rfl⟩ := respond_eq_some.mp hnext
      rw [(monitor_keeps _ _ _).2] at hstarted
      rw [(monitor_keeps _ _ _).1] at hq
      rw [outside_eq]
      exact .inr ⟨xs, zs, t, reply, rfl, rfl, hrun, Relay.program_eq_finish.mp hfinish, hstarted,
        hq⟩
  · rintro (⟨t, rfl, hrun⟩ | ⟨ys, zs, t, reply, rfl, rfl, hrun, hfinish, hstarted, hq⟩)
    · exact .inl ⟨_, rfl, Relay.run_iff.mpr ⟨events, (outside_eq _ _ _).symm, rfl, hrun⟩⟩
    · refine .inr ⟨ys, zs, ((relay maxBytes).monitor tally ys, t), _, _, reply, rfl,
        Relay.run_iff.mpr ⟨ys, (outside_eq _ _ _).symm, rfl, hrun⟩,
        Relay.program_eq_finish.mpr hfinish, respond_eq_some.mpr ⟨rfl, ?_, rfl⟩, ?_, rfl⟩
      · rw [(monitor_keeps _ _ _).2, hstarted]
      · rw [(monitor_keeps _ _ _).1]
        exact hq

theorem run_call_limited_iff {state : (Tally × σ) ⊕ Reply} {w : State σ} :
    Run (call maxBytes app).act (.inr state) events w ↔
      ∃ w', w = .inr w' ∧ Run (limited maxBytes app) state events w' := by
  have hq : ∀ state, (call maxBytes app).act (.inr state) =
      (limited maxBytes app state).map .inr := fun _ => rfl
  exact run_map_iff hq

theorem run_call_alone_iff (maxBytes : ℕ) (app : App σ) (s : σ) (events : List Happening)
    (w : State σ) :
    Run (call maxBytes app).act (.inl s) events w ↔ ∃ t, w = .inl t ∧ Run app.act s events t := by
  have hq : ∀ s, (call maxBytes app).act (.inl s) = (app.act s).map .inl := fun _ => rfl
  exact run_map_iff hq

theorem start_accepted (http : scope.isHttp = true) (accepted : checkLength maxBytes scope = none) :
    (call maxBytes app).start scope =
      .inr (.inl (⟨scope.httpVersion, 0, false⟩, app.start scope)) := by
  simp [call, http, accepted]

theorem start_refused {messages : List Message} (http : scope.isHttp = true)
    (refused : checkLength maxBytes scope = some messages) :
    (call maxBytes app).start scope = .inr (.inr (.ok messages)) := by
  simp [call, http, refused]

/-- A refusal of the headers is one of `_reject`. -/
theorem checkLength_eq_some {messages : List Message}
    (h : checkLength maxBytes scope = some messages) :
    ∃ status detail, messages = reject status detail scope.httpVersion := by
  unfold checkLength at h
  split at h
  · cases h
  · split at h
    · exact ⟨_, _, (Option.some.inj h).symm⟩
    · split at h
      · exact ⟨_, _, (Option.some.inj h).symm⟩
      · split at h
        · exact ⟨_, _, (Option.some.inj h).symm⟩
        · split at h
          · exact ⟨_, _, (Option.some.inj h).symm⟩
          · cases h

theorem started_congr {ys : List Happening} (h : outgoing xs = outgoing ys) :
    started xs = started ys := by
  rw [started, started, h]

theorem chunked_run : (call 5 downstream).Runs (postScope []) chunked :=
  ⟨_, .receive _ rfl (.receive _ rfl (.nil _))⟩

theorem act_inl_eq_finish {s : σ} {result : Except Raised Unit} :
    (call maxBytes app).act (.inr (.inl (tally, s))) = .finish result ↔
      app.act s = .finish result ∧ tally.respond maxBytes result = none := by
  show ((limited maxBytes app (.inl (tally, s))).map .inr : Action (State σ)) = _ ↔ _
  rw [Act.map_eq_finish, limited, chain_inl_eq_finish, Relay.program_eq_finish]

/-- Behind accepted headers a body within the limit leads to the states of the application. -/
theorem run_start_iff (http : scope.isHttp = true) (accepted : checkLength maxBytes scope = none)
    (foreign : Foreign events) (fits : received events ≤ maxBytes)
    (unraised : Unraised maxBytes app scope) (w : State σ) :
    Run (call maxBytes app).act ((call maxBytes app).start scope) events w ↔
      ∃ t, w = .inr (.inl ((relay maxBytes).monitor ⟨scope.httpVersion, 0, false⟩ events, t)) ∧
        Run app.act (app.start scope) events t := by
  have whole : ∀ xs, received xs ≤ maxBytes →
      (relay maxBytes).inside ⟨scope.httpVersion, 0, false⟩ xs = xs := fun xs h =>
    inside_of_le ((Nat.zero_add _).trans_le h)
  rw [start_accepted http accepted, run_call_limited_iff]
  constructor
  · rintro ⟨_, rfl, h⟩
    rcases run_limited_iff.mp h with ⟨t, rfl, hrun⟩ | ⟨ys, zs, t, _, rfl, _, hrun, hfinish, _⟩
    · rw [whole events fits] at hrun
      exact ⟨t, rfl, hrun⟩
    · have before : received ys ≤ maxBytes := by
        rw [received_append] at fits
        exact le_of_add_le_left fits
      rw [whole ys before] at hrun
      have foreign' : Foreign ys := fun event h => foreign event (List.mem_append_left zs h)
      exact absurd ⟨t, hrun, hfinish⟩ (unraised ys foreign' before)
  · rintro ⟨t, rfl, hrun⟩
    exact ⟨_, rfl, run_limited_iff.mpr (.inl ⟨t, rfl, (whole events fits).symm ▸ hrun⟩)⟩

/-- The application has ended once the limit is exceeded. -/
theorem finish_of_lt (strict : Strict app) {s t : σ} {tally : Tally}
    (within : tally.received ≤ maxBytes) (beyond : maxBytes < tally.received + received xs)
    (h : Run app.act s ((relay maxBytes).inside tally xs) t) :
    app.act t = .finish (.error .requestBodyTooLarge) := by
  generalize hseen : (relay maxBytes).inside tally xs = seen at h
  induction h generalizing tally xs with
  | nil s =>
    cases xs with
    | nil => exact absurd beyond (not_lt.mpr within)
    | cons x xs => cases x <;> cases hseen
  | receive answer hact hrun ih =>
    rcases xs with - | ⟨outer | ⟨message, outer⟩, xs⟩
    · cases hseen
    · obtain ⟨hanswer, hrest⟩ := List.cons.inj hseen
      have total : maxBytes < tally.received + (size outer + received xs) := beyond
      rcases le_or_gt (tally.received + size outer) maxBytes with le | lt
      · have within' : (tally.limitedReceive maxBytes outer).1.received ≤ maxBytes := by
          rwa [limitedReceive_received]
        have beyond' :
            maxBytes < (tally.limitedReceive maxBytes outer).1.received + received xs := by
          rwa [limitedReceive_received, Nat.add_assoc]
        exact ih within' beyond' hrest
      · have raised : answer = .error .requestBodyTooLarge :=
          (Interaction.Event.received.inj hanswer).symm.trans (limitedReceive_exceeds within lt)
        subst raised
        have ended := strict _ _ hact
        obtain ⟨-, rfl⟩ := hrun.of_finish ended
        exact ended
    · cases hseen
  | send answer hact hrun ih =>
    rcases xs with - | ⟨outer | ⟨message, outer⟩, xs⟩
    · cases hseen
    · cases hseen
    · obtain ⟨-, hrest⟩ := List.cons.inj hseen
      have within' : (tally.trackedSend message).1.received ≤ maxBytes := within
      have beyond' : maxBytes < (tally.trackedSend message).1.received + received xs := beyond
      exact ih within' beyond' hrest
  | tau hact hrun ih => exact ih within beyond hseen

end RequestBodyLimitMiddleware

end InferBridge.Asgi
