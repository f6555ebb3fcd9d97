/-
InferBridge/ContinueFile.lean

Planning, applying and undoing a change of Continue's `config.yaml`
(`ContinueConfigFile` in windows-native/InferBridge.Native/ToolSetup.cs).

A call reads the text of the file, compares it with the text it relies on, and writes
a text.  Reading follows a byte order mark and replaces what cannot be decoded, and
writing is UTF-8 without a mark.  So a text that comes back need not be the bytes that
were there: exactly the `plain` bytes do come back (`plain_iff`).

Design.  The files are a map from names to bytes.  A call takes the one operation that
fails in it, if any, and returns the files and what it throws or returns.  A record of
an Apply carries the bytes that were there before it; no call looks at these.

-/
import InferBridge.ContinueMerge
import InferBridge.ConsoleChunks
import InferBridge.Lib.Transition

namespace InferBridge.ContinueConfig

open Transition

abbrev Bytes := List UInt8

/-! ### Encodings -/

/-- The text of bytes in UTF-8. -/
def utf8Text (bytes : Bytes) : Str := (ConsoleChunks.utf8Decode true bytes).1

/-- The units of bytes, the low byte first or last; `none` for a byte without its pair. -/
def utf16Read (bigEndian : Bool) : Bytes → List (Option Nat)
  | a :: b :: rest =>
    some (if bigEndian then 256 * a.toNat + b.toNat else 256 * b.toNat + a.toNat) ::
      utf16Read bigEndian rest
  | [_] => [none]
  | [] => []

def replacement : Char := Char.ofNat 0xFFFD

/-- A number that may be no character. -/
def charOrReplacement (n : Nat) : Char := if n.isValidChar then Char.ofNat n else replacement

/-- The text of units; what has no pair is replaced. -/
def unitsText : List (Option Nat) → Str
  | some high :: some low :: rest =>
    if (0xD800 ≤ high ∧ high < 0xDC00) ∧ 0xDC00 ≤ low ∧ low < 0xE000 then
      Char.ofNat (0x10000 + 0x400 * (high - 0xD800) + (low - 0xDC00)) :: unitsText rest
    else charOrReplacement high :: unitsText (some low :: rest)
  | some unit :: rest => charOrReplacement unit :: unitsText rest
  | none :: rest => replacement :: unitsText rest
  | [] => []

def utf16Text (bigEndian : Bool) (bytes : Bytes) : Str := unitsText (utf16Read bigEndian bytes)

/-- The text of bytes in UTF-32. -/
def utf32Text (bigEndian : Bool) : Bytes → Str
  | a :: b :: c :: d :: rest =>
    let bytes := if bigEndian then [a, b, c, d] else [d, c, b, a]
    charOrReplacement (bytes.foldl (fun n byte => 256 * n + byte.toNat) 0) ::
      utf32Text bigEndian rest
  | [] => []
  | _ => [replacement]

def utf8Mark : Bytes := [0xEF, 0xBB, 0xBF]

/-- `File.ReadAllText(_, Encoding.UTF8)`: a byte order mark tells the encoding. -/
def decode (bytes : Bytes) : Str :=
  if utf8Mark.isPrefixOf bytes then utf8Text (bytes.drop 3)
  else if [0xFE, 0xFF].isPrefixOf bytes then utf16Text true (bytes.drop 2)
  else if [0xFF, 0xFE, 0, 0].isPrefixOf bytes then utf32Text false (bytes.drop 4)
  else if [0xFF, 0xFE].isPrefixOf bytes then utf16Text false (bytes.drop 2)
  else if [0, 0, 0xFE, 0xFF].isPrefixOf bytes then utf32Text true (bytes.drop 4)
  else utf8Text bytes

/-- `new UTF8Encoding(encoderShouldEmitUTF8Identifier: false)` -/
def encode (text : Str) : Bytes := text.flatMap String.utf8EncodeChar

/-- The bytes that come back when their text is written. -/
def plain (bytes : Bytes) : Bool := encode (decode bytes) = bytes

/-! ### The files -/

/-- The files by their names. -/
abbrev Files := Str → Option Bytes

/-- The file operations of a call, in the places they have in it. -/
inductive Op where
  | exists
  | length
  | readAllText
  | copy
  | createDirectory
  | writeTemp
  | move
  | existsTemp
  | deleteTemp
  | delete
  | existsBackup
  | readBackup
deriving DecidableEq, Repr

/-- What a call throws. -/
inductive Failure where
  | refused (refusal : Refusal)
  | tooLarge
  | stale
  | edited (backup : Option Str)
  | missing
  | io (op : Op)
deriving DecidableEq, Repr

/-- The message of a `ToolSetupException`; the other exceptions have the system's. -/
def Failure.message : Failure → Option String
  | .refused refusal => some refusal.message
  | .tooLarge => some "config.yaml is larger than 1 MB. InferBridge did not change it."
  | .stale => some "config.yaml changed after the preview. Preview the change again."
  | .edited backup =>
    some ("config.yaml changed after InferBridge wrote it, so Undo did not overwrite your edits." ++
      match backup with
      | none => ""
      | some path => " Your original is still at " ++ String.ofList path)
  | .missing => some "The backup file is missing, so Undo did not change config.yaml."
  | .io _ => none

structure ContinuePlan where
  existed : Bool
  originalText : Option Str
  newText : Str

structure ContinueUndo where
  backupPath : Option Str
  writtenText : Str

def maximumBytes : Nat := 1024 * 1024

namespace ContinueConfigFile

/-- The name of a backup. -/
def backupName (path stamp : Str) : Str :=
  path ++ (".inferbridge-".toList ++ (stamp ++ ".bak".toList))

/-- The name of a new file on its way. -/
def tempName (path guid : Str) : Str :=
  path ++ (".inferbridge-".toList ++ (guid ++ ".tmp".toList))

variable (path : Str)

/-- `File.Exists` says no where it fails. -/
def existing (fault : Option Op) (op : Op) (files : Files) (name : Str) : Option Bytes :=
  if fault = some op then none else files name

/-- `Read` -/
def read (fault : Option Op) (files : Files) : Except Failure (Option Str) :=
  match existing fault .exists files path with
  | none => .ok none
  | some bytes =>
    if fault = some .length then .error (.io .length)
    else if maximumBytes < bytes.length then .error .tooLarge
    else if fault = some .readAllText then .error (.io .readAllText)
    else .ok (some (decode bytes))

/-- `Plan` -/
def plan (host : Host) (values : ToolConnectionValues) (files : Files) :
    Except Failure ContinuePlan := do
  let current ← read path none files
  match merge host current values with
  | .error refusal => .error (.refused refusal)
  | .ok text => return ⟨current.isSome, current, text⟩

/-- The `try` of `WriteAtomic` -/
def tryWrite (text guid : Str) (fault : Option Op) (files : Files) : Files × Except Failure Unit :=
  let temp := tempName path guid
  if fault = some .writeTemp then (files, .error (.io .writeTemp))
  else
    let written := Function.update files temp (some (encode text))
    if fault = some .move then (written, .error (.io .move))
    else (Function.update (Function.update written path (some (encode text))) temp none, .ok ())

/-- The `finally` of `WriteAtomic`: in any case the temporary file goes. -/
def cleanTemp (guid : Str) (fault : Option Op) (tried : Files × Except Failure Unit) :
    Files × Except Failure Unit :=
  let temp := tempName path guid
  if existing fault .existsTemp tried.1 temp = none then tried
  else if fault = some .deleteTemp then (tried.1, .error (.io .deleteTemp))
  else (Function.update tried.1 temp none, tried.2)

/-- `WriteAtomic` -/
def writeAtomic (text guid : Str) (fault : Option Op) (files : Files) :
    Files × Except Failure Unit :=
  cleanTemp path guid fault (tryWrite path text guid fault files)

/-- `Apply` -/
def apply (plan : ContinuePlan) (stamp guid : Str) (fault : Option Op) (files : Files) :
    Files × Except Failure ContinueUndo :=
  match read path fault files with
  | .error failure => (files, .error failure)
  | .ok current =>
    if current ≠ plan.originalText then (files, .error .stale)
    else if plan.existed then
      let backup := backupName path stamp
      if fault = some .copy ∨ files backup ≠ none ∨ files path = none then
        (files, .error (.io .copy))
      else
        let (files, result) :=
          writeAtomic path plan.newText guid fault (Function.update files backup (files path))
        (files, result.map fun _ => ⟨some backup, plan.newText⟩)
    else if fault = some .createDirectory then (files, .error (.io .createDirectory))
    else
      let (files, result) := writeAtomic path plan.newText guid fault files
      (files, result.map fun _ => ⟨none, plan.newText⟩)

/-- `Undo` -/
def undo (record : ContinueUndo) (guid : Str) (fault : Option Op) (files : Files) :
    Files × Except Failure Unit :=
  match read path fault files with
  | .error failure => (files, .error failure)
  | .ok current =>
    if current ≠ some record.writtenText then (files, .error (.edited record.backupPath))
    else
      match record.backupPath with
      | none =>
        if fault = some .delete then (files, .error (.io .delete))
        else (Function.update files path none, .ok ())
      | some backup =>
        match existing fault .existsBackup files backup with
        | none => (files, .error .missing)
        | some bytes =>
          if fault = some .readBackup then (files, .error (.io .readBackup))
          else writeAtomic path (decode bytes) guid fault files

end ContinueConfigFile

/-! ### Runs -/

/-- What an Apply returned, and the bytes that were there before it and after it. -/
structure Applied where
  undo : ContinueUndo
  before : Option Bytes
  after : Option Bytes

/-- The files, the plans and the records that the calls have returned so far. -/
structure State where
  files : Files
  plans : List ContinuePlan
  applied : List Applied

/-- A call of the program, or an edit of the user. -/
inductive Event where
  | plan (values : ToolConnectionValues)
  | apply (index : Nat) (stamp guid : Str) (fault : Option Op)
  | undo (index : Nat) (guid : Str) (fault : Option Op)
  | edit (content : Option Bytes)

def start (files : Files) : State := ⟨files, [], []⟩

/-- One call, or one edit; `none` where there is no such plan or record. -/
def step (host : Host) (path : Str) (s : State) : Event → Option State
  | .plan values =>
    match ContinueConfigFile.plan path host values s.files with
    | .error _ => some s
    | .ok plan => some { s with plans := s.plans ++ [plan] }
  | .apply index stamp guid fault =>
    s.plans[index]?.map fun plan =>
      match ContinueConfigFile.apply path plan stamp guid fault s.files with
      | (files, .error _) => { s with files }
      | (files, .ok undo) =>
        { s with files, applied := s.applied ++ [⟨undo, s.files path, files path⟩] }
  | .undo index guid fault =>
    s.applied[index]?.map fun applied =>
      { s with files := (ContinueConfigFile.undo path applied.undo guid fault s.files).1 }
  | .edit content => some { s with files := Function.update s.files path content }

end InferBridge.ContinueConfig
