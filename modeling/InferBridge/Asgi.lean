/-
InferBridge/Asgi.lean

Applications of the server interface (ASGI), as the middleware of the server sees them.

An application is a program for each scope.  What it computes is its own affair: a middleware
knows it by what it receives and sends, and by the exceptions that leave it.

Design.  A message keeps the fields that some middleware reads or writes.  A middleware maps
applications to applications, so that they can be stacked.
-/
import InferBridge.Lib.Interaction
import InferBridge.Lib.Text
import InferBridge.Catalog

namespace InferBridge.Asgi

open Interaction

abbrev Bytes := List UInt8

/-- `encode("ascii")`, of a text in ASCII -/
def ascii (text : Str) : Bytes := text.map fun c => UInt8.ofNat c.toNat

/-- `decode("latin-1")` -/
def latin1 (bytes : Bytes) : Str := bytes.map fun b => Char.ofNat b.toNat

/-- `bytes.lower` -/
def lowerBytes (bytes : Bytes) : Bytes :=
  bytes.map fun b => if 65 ≤ b.toNat ∧ b.toNat ≤ 90 then b + 32 else b

abbrev Headers := List (Bytes × Bytes)

/-- The fields of a connection scope; `client` and `server` are `none` where they are missing or
no pairs, and a port is `none` where it is no integer. -/
structure Scope where
  type : Str
  method : Option Str
  path : Option Str
  httpVersion : Option Str
  headers : Headers
  client : Option Str
  server : Option (Str × Option Int)
deriving DecidableEq

/-- A message, by its type. -/
inductive Message where
  | request (body : Option Bytes) (moreBody : Option Bool)
  | start (status : ℕ) (headers : Headers)
  | body (body : Bytes) (moreBody : Option Bool)
  | other (type : Str)
deriving DecidableEq

inductive Raised where
  | requestBodyTooLarge
  | other (text : Str)
deriving DecidableEq

abbrev Answer := Except Raised Message

abbrev Happening := Interaction.Event Message Message Raised

abbrev Action (σ : Type) := Act Message Message Raised σ

structure App (σ : Type) where
  start : Scope → σ
  act : σ → Action σ

/-- The application may have done this for this scope. -/
def App.Runs {σ : Type} (app : App σ) (scope : Scope) (events : List Happening) : Prop :=
  ∃ s, Run app.act (app.start scope) events s

/-- It may have returned or raised then. -/
def App.Ends {σ : Type} (app : App σ) (scope : Scope) (events : List Happening)
    (result : Except Raised Unit) : Prop :=
  ∃ s, Run app.act (app.start scope) events s ∧ app.act s = .finish result

/-- What is still to be sent of a response. -/
abbrev Reply := Except Raised (List Message)

/-- An application behind a decision: the request is passed on, with the scope that the decision
gives it, or answered. -/
def decided {σ : Type} (decide : Scope → Except (List Message) Scope) (app : App σ) :
    App (σ ⊕ Reply) where
  start scope :=
    match decide scope with
    | .ok scope => .inl (app.start scope)
    | .error messages => .inr (.ok messages)
  act := chain app.act (fun _ _ => none) emit

/-! ### What is read of a message and of a scope -/

def Message.isStart : Message → Bool
  | .start .. => true
  | _ => false

/-- The bytes of a request body that a message brings. -/
def Message.size : Message → ℕ
  | .request content _ => (content.getD []).length
  | _ => 0

/-- The bytes of an answer. -/
def size : Answer → ℕ
  | .ok message => message.size
  | .error _ => 0

def Scope.isHttp (scope : Scope) : Bool := scope.type = "http".toList

/-- The values of the headers of this name. -/
def Scope.values (scope : Scope) (name : String) : List Bytes :=
  (scope.headers.filter fun header => lowerBytes header.1 = ascii name.toList).map Prod.snd

/-- The value of the first header of this name. -/
def Scope.header (scope : Scope) (name : String) : Str :=
  latin1 ((scope.values name).headD [])

/-- `json.dumps({"detail": detail}, separators=(",", ":"))`, for a text that JSON does not
escape. -/
def detailJson (detail : Str) : Str :=
  "\x7b\"detail\":\"".toList ++ detail ++ "\"\x7d".toList

/-- The bytes that a run has brought. -/
def received : List Happening → ℕ
  | [] => 0
  | .received answer :: events => size answer + received events
  | .sent _ _ :: events => received events

theorem received_append (xs ys : List Happening) :
    received (xs ++ ys) = received xs + received ys := by
  induction xs with
  | nil => exact (Nat.zero_add _).symm
  | cons x xs ih =>
    cases x with
    | received answer => simp only [List.cons_append, received, ih, Nat.add_assoc]
    | sent message answer => exact ih

theorem received_eq_zero {xs : List Happening} (h : incoming xs = []) : received xs = 0 := by
  induction xs with
  | nil => rfl
  | cons x xs ih =>
    cases x with
    | received answer => cases h
    | sent message answer => exact ih h

/-- The response has been started. -/
def started (events : List Happening) : Bool := (outgoing events).any Message.isStart

end InferBridge.Asgi
