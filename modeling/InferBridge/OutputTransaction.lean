/-
InferBridge/OutputTransaction.lean

Transactional publication of a converted model directory
(runtime/model_output_transaction.py): the staging, backup and final paths,
the operations on them, and the functions of the module as programs that
may stop or fail at every single operation.

Operations.  A rename is one step.  A recursive delete is many steps, one
for each entry and one for the directory itself, in an order that the
schedule picks.  Every step may instead raise, without effect.  The parent
directory and the lock are outside the three paths: the operations on them
only consume a fate.

Two lists keep the history of a run: `passed`, the directories that passed
the thorough validation in staging, and `published`, what was renamed from
staging to the final path.
-/
import InferBridge.Artifacts
import InferBridge.Lib.CrashLogic

namespace InferBridge

open Crash

/-! ### The three paths -/

inductive Slot where
  | staging
  | backup
  | final
deriving DecidableEq, Repr

/-- What a path holds.  A link is followed by the validation only. -/
inductive Node where
  | absent
  | file
  | link (target : Option Tree)
  | dir (tree : Tree)
deriving DecidableEq

/-- The directory that a path leads to. -/
def Node.contents : Node → Option Tree
  | .link target => target
  | .dir tree => some tree
  | .absent | .file => none

def Node.isLink : Node → Bool
  | .link _ => true
  | _ => false

/-- A path that leads to a directory and is no link is that directory. -/
theorem Node.eq_dir {node : Node} {t : Tree} (hcontents : node.contents = some t)
    (hlink : node.isLink = false) : node = .dir t := by
  cases node with
  | absent => cases hcontents
  | file => cases hcontents
  | link target => cases hlink
  | dir tree =>
    cases hcontents
    rfl

structure Disk where
  nodes : Slot → Node
  passed : List Tree
  published : List Node

def Disk.set (d : Disk) (slot : Slot) (node : Node) : Disk :=
  { d with nodes := Function.update d.nodes slot node }

@[simp] theorem Disk.set_self (d : Disk) (slot : Slot) (node : Node) :
    (d.set slot node).nodes slot = node := by
  simp [Disk.set]

@[simp] theorem Disk.set_of_ne (d : Disk) {slot other : Slot} (h : other ≠ slot) (node : Node) :
    (d.set slot node).nodes other = d.nodes other := by
  simp [Disk.set, h]

@[simp] theorem Disk.set_passed (d : Disk) (slot : Slot) (node : Node) :
    (d.set slot node).passed = d.passed := rfl

@[simp] theorem Disk.set_published (d : Disk) (slot : Slot) (node : Node) :
    (d.set slot node).published = d.published := rfl

/-! ### Operations -/

/-- Exceptions: of the file system, of the checks, of a reader, and the ones that are no
`Exception` (an interrupt). -/
inductive Exc where
  | osError (transient : Bool)
  | runtimeError (message : String)
  | valueError
  | interrupt
deriving DecidableEq, Repr

/-- What happens to one step of an operation; `choice` picks the next entry of a delete. -/
inductive Fate where
  | go (choice : Nat)
  | fail (e : Exc)
deriving DecidableEq, Repr

abbrev Fs (α : Type) := Crash Disk Fate Exc α

/-- An operation outside the three paths. -/
def elsewhere : Fate → Disk → Progress Disk Exc Unit
  | .fail e, _ => .fail e
  | .go _, d => .done d ()

/-- `os.replace` accepts a destination that is absent or of the same kind and empty. -/
def replaceable : Node → Node → Bool
  | _, .absent => true
  | .dir _, .dir tree => tree.entries = []
  | .file, .file | .file, .link _ | .link _, .file | .link _, .link _ => true
  | _, _ => false

/-- The disk after a rename. -/
def Disk.rename (d : Disk) (source destination : Slot) : Disk :=
  let moved := (d.set destination (d.nodes source)).set source .absent
  if source = .staging ∧ destination = .final then
    { moved with published := d.nodes source :: d.published }
  else moved

/-- A rename other than the publication moves a node and leaves no trace in the history. -/
theorem Disk.rename_eq (d : Disk) {source destination : Slot}
    (h : ¬ (source = .staging ∧ destination = .final)) :
    d.rename source destination = (d.set destination (d.nodes source)).set source .absent :=
  if_neg h

/-- `os.replace`. -/
def osReplace (source destination : Slot) : Fate → Disk → Progress Disk Exc Unit
  | .fail e, _ => .fail e
  | .go _, d =>
    if d.nodes source ≠ .absent ∧ replaceable (d.nodes source) (d.nodes destination) then
      .done (d.rename source destination) ()
    else .fail (.osError false)

/-- One step of `shutil.rmtree`: remove one entry, or the directory when it is empty. -/
def rmtreeStep (slot : Slot) : Fate → Disk → Progress Disk Exc Unit
  | .fail e, _ => .fail e
  | .go choice, d =>
    match d.nodes slot with
    | .dir tree =>
      if tree.entries = [] then .done (d.set slot .absent) ()
      else .more (d.set slot (.dir (tree.eraseIdx (choice % tree.entries.length))))
    | _ => .fail (.osError false)

/-- `path.unlink(missing_ok=True)`. -/
def unlinkStep (slot : Slot) : Fate → Disk → Progress Disk Exc Unit
  | .fail e, _ => .fail e
  | .go _, d => .done (d.set slot .absent) ()

/-- The body of a transaction writes the staging path. -/
def writeStaging (node : Node) : Fate → Disk → Progress Disk Exc Unit
  | .fail e, _ => .fail e
  | .go _, d => .done (d.set .staging node) ()

/-! ### The functions of the module -/

/-- `_reject_reparse_point`. -/
def rejectReparsePoint (slot : Slot) (description : String) : Fs Unit := do
  let d ← read
  if (d.nodes slot).isLink then
    raise (.runtimeError ("Refusing to use an unexpected symbolic link or junction as " ++
      description ++ "."))
  else pure ()

/-- `_remove_path`. -/
def removePath (slot : Slot) : Fs Unit := do
  let d ← read
  match d.nodes slot with
  | .absent => pure ()
  | .link _ => rejectReparsePoint slot "a model transaction path"
  | .dir _ => perform (rmtreeStep slot)
  | .file => perform (unlinkStep slot)

/-- The waits before the attempts of `_replace_path`, in milliseconds. -/
def replaceRetryDelays : List Nat := [0, 100, 250, 500, 1000]

/-- The attempts of `_replace_path`, with `retries` more after this one: only a transient
error is tried again. -/
def replaceAttempt (source destination : Slot) : Nat → Fs Unit
  | 0 => perform (osReplace source destination)
  | retries + 1 =>
    catchRaised (perform (osReplace source destination)) fun e =>
      match e with
      | .osError true => replaceAttempt source destination retries
      | e => raise e

/-- `_replace_path`. -/
def replacePath (source destination : Slot) : Fs Unit :=
  replaceAttempt source destination (replaceRetryDelays.length - 1)

/-- `validate_openvino_model_dir(path, thorough=True)`; an error of the JSON reader escapes. -/
def validateSlot (reader : ArtifactReader) (slot : Slot) : Fs ModelArtifactValidation := do
  let d ← read
  match validateOpenvinoModelDir reader true (d.nodes slot).contents with
  | .ok validation => pure validation
  | .error _ => raise .valueError

/-- `_recover_stale_backup`. -/
def recoverStaleBackup (reader : ArtifactReader) : Fs Unit := do
  let d ← read
  if d.nodes .backup = .absent then pure ()
  else do
    rejectReparsePoint .backup "a model transaction backup"
    let finalValidation ← validateSlot reader .final
    if finalValidation.ready then removePath .backup
    else do
      let backupValidation ← validateSlot reader .backup
      if backupValidation.ready then do
        removePath .final
        replacePath .backup .final
      else removePath .backup

/-- Record that the directory in staging passed the validation. -/
def notePassed (d : Disk) : Disk :=
  match (d.nodes .staging).contents with
  | some tree => { d with passed := tree :: d.passed }
  | none => d

/-- The handler of `_publish_staged_output`: undo the swap as far as it can be undone. -/
def rollBack (previousMoved : Bool) : Fs Unit := do
  catchRaised (removePath .final) fun e =>
    match e with
    | .interrupt => raise .interrupt
    | _ => pure ()
  let d ← read
  if previousMoved ∧ d.nodes .backup ≠ .absent then
    catchRaised (replacePath .backup .final) fun e =>
      match e with
      | .osError _ => pure ()
      | e => raise e
  else pure ()

/-- Move the live model aside, if there is one; the result is `previous_moved`. -/
def movePrevious : Fs Bool := do
  let d ← read
  if d.nodes .final = .absent then pure false
  else do
    rejectReparsePoint .final "the live model directory"
    replacePath .final .backup
    pure true

/-- `_publish_staged_output`. -/
def publishStagedOutput (reader : ArtifactReader) : Fs Unit := do
  rejectReparsePoint .staging "the staged model output"
  let validation ← validateSlot reader .staging
  if ¬ validation.ready then
    raise (.runtimeError
      ("Optimum exited successfully, but the staged OpenVINO model is incomplete: " ++
        validation.reason ++ ". The previous model files were preserved."))
  else do
    note notePassed
    let previousMoved ← movePrevious
    catchRaised (replacePath .staging .final) fun e => do
      rollBack previousMoved
      raise e
    if previousMoved then
      catchRaised (removePath .backup) fun e =>
        match e with
        | .osError _ => pure ()
        | e => raise e
    else pure ()

/-- The body of a transaction: what it makes of the staging path, step by step, and the
exception it ends with, if any. -/
structure TransactionBody where
  writes : List Node
  fails : Option Exc

def runWrites : List Node → Fs Unit
  | [] => pure ()
  | node :: rest => do
    perform (writeStaging node)
    runWrites rest

def runBody (body : TransactionBody) : Fs Unit := do
  runWrites body.writes
  match body.fails with
  | none => pure ()
  | some e => raise e

/-- The entry of a transaction: the checks, the recovery and a clean staging path. -/
def enterTransaction (reader : ArtifactReader) : Fs Unit := do
  rejectReparsePoint .final "the live model directory"
  -- the parent directory, then the lock
  perform elsewhere
  perform elsewhere
  recoverStaleBackup reader
  removePath .staging

/-- `staged_model_output`, with its body. -/
def stagedModelOutput (reader : ArtifactReader) (body : TransactionBody) : Fs Unit := do
  enterTransaction reader
  catchRaised (do runBody body; publishStagedOutput reader) fun e => do
    catchRaised (removePath .staging) fun cleanup =>
      match cleanup with
      | .osError _ => pure ()
      | .runtimeError _ => pure ()
      | cleanup => raise cleanup
    raise e

end InferBridge
