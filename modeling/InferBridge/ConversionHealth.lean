/-
InferBridge/ConversionHealth.lean

The compatibility marker of a converted model, and the fingerprint of its files
(app/model_library_conversion.py; app/runtime_health.py and app/runtime_health_safety.py).

A conversion leaves a marker with the definition and the runtime it was made with.  The health of
the conversion compares the marker with the definition and the runtime of today.  The fingerprint
ties what was found out about a conversion to its marker and to the sizes and times of all its
files.

Design.  The files of a model are given as the code asks for them.  A file with JSON in it is its
bytes with what they decode to; the fields of an object are distinct.  A directory lists its
entries in the order of their names, in which the walk visits them, and the files stand still
while they are read.  Errors of the file system that `os.walk` drops look like empty directories.

Main results.
  * `conversionHealth_recorded`: what the health of a recorded conversion is, for any later
    definition and runtime.
  * `fingerprint_covers`: fingerprints of one model are different as soon as any ordinary file
    of its tree differs in name, size or time.
-/
import InferBridge.Catalog
import InferBridge.ConsoleProgress
import InferBridge.Lib.Fields

namespace InferBridge.RuntimeHealth

abbrev Bytes := List UInt8

/-! ### The standard library -/

/-- What reading a text and decoding it gives. -/
inductive Decoded where
  /-- the bytes are no UTF-8: a `UnicodeDecodeError`, which no reader here catches -/
  | notText
  | notJson
  | document (value : JsonValue)

structure Host where
  unicode : UnicodeTables
  /-- `str` of a float, a list or a dictionary -/
  printed : JsonValue → Str
  /-- the value of a float, unless it is not finite -/
  number : Str → Option ℚ
  /-- `json.dumps(value, indent=2)` with a line break, encoded -/
  dumps : JsonValue → Bytes
  /-- `hashlib.sha256(data).hexdigest()` -/
  sha256 : Bytes → Str
  sha256_length : ∀ data, (sha256 data).length = 64

variable (host : Host)

/-- `str(value)` -/
def Host.str : JsonValue → Str
  | .null => "None".toList
  | .bool b => if b then "True".toList else "False".toList
  | .int n => (toString n).toList
  | .str s => s
  | value => host.printed value

/-- `bool(value)` -/
def Host.truthy : JsonValue → Bool
  | .null => false
  | .bool b => b
  | .int n => n ≠ 0
  | .float literal => host.number literal ≠ some 0
  | .str s => !s.isEmpty
  | .arr items => !items.isEmpty
  | .obj fields => !fields.isEmpty

/-- `value == 1` -/
def Host.isOne : JsonValue → Bool
  | .bool b => b
  | .int n => n = 1
  | .float literal => host.number literal = some 1
  | _ => false

abbrev Object := List (Str × JsonValue)

/-- `str(fields.get(key))` -/
def Host.textOf (fields : Object) (key : Str) : Str := host.str ((fields.lookup key).getD .null)

/-- `str(fields.get(key) or default)` -/
def Host.textOr (fields : Object) (key default : Str) : Str :=
  match fields.lookup key with
  | none => default
  | some value => if host.truthy value then host.str value else default

/-- `text.encode("utf-8")` -/
def encode (text : Str) : Bytes := text.flatMap String.utf8EncodeChar

def decimal (n : ℤ) : Str :=
  if n < 0 then '-' :: Nat.toDigits 10 n.natAbs else Nat.toDigits 10 n.natAbs

/-! ### Runtimes -/

/-- The versions of the application and of the packages; `none` is a package that is missing. -/
structure Versions where
  application : Str
  openvino : Option Str
  openvinoGenai : Option Str
deriving DecidableEq

def digits (version : Str) : Str × Str := version.span host.unicode.isDecimal

/-- `major_minor` of a version that is there: `^(\d+)\.(\d+)`.  The outer `none` is the
`ValueError` of `int`. -/
def versionPair (version : Str) : Option (Option (ℕ × ℕ)) :=
  let (major, rest) := digits host version
  let minor := (digits host (rest.drop 1)).1
  if major = [] ∨ rest.head? ≠ some '.' ∨ minor = [] then some none
  else if maxStrDigits < major.length ∨ maxStrDigits < minor.length then none
  else some (some (readDecimal host.unicode major, readDecimal host.unicode minor))

/-- `major_minor` -/
def majorMinor (version : Option Str) : Option (Option (ℕ × ℕ)) :=
  match version with
  | none => some none
  | some version => if version = [] then some none else versionPair host version

/-! ### Files -/

/-- The name of a directory entry. -/
structure FileName where
  text : Str
  nonempty : text ≠ []
  noSlash : '/' ∉ text
  noNul : '\x00' ∉ text
deriving DecidableEq

mutual

/-- What the walk finds at a name. -/
inductive Entry where
  /-- a symbolic link or a junction, to a directory or to something else -/
  | link (directory : Bool)
  | directory (children : Listing)
  /-- it has no status -/
  | unreadable
  | special
  | file (size : ℕ) (mtime : ℤ)

inductive Listing where
  | nil
  | cons (name : FileName) (entry : Entry) (rest : Listing)

end

/-- What is at the path of the marker. -/
inductive MarkerFile where
  /-- no regular file -/
  | missing
  | unreadable
  | present (bytes : Bytes) (content : Decoded)

def MarkerFile.bytes : MarkerFile → Option Bytes
  | .present bytes _ => some bytes
  | _ => none

structure ModelFiles where
  /-- `model_dir.exists()` -/
  present : Bool
  /-- `is_openvino_model_dir` -/
  complete : Bool
  marker : MarkerFile
  /-- the size and the time of a regular file with this name -/
  artifact : Str → Option (ℕ × ℤ)
  /-- the tree, unless there is no directory, or a link instead -/
  root : Option Listing

/-! ### The marker -/

inductive HealthStatus where
  | notConverted
  | incomplete
  | legacyUntracked
  | invalidMetadata
  | incompatibleDefinition
  | staleRuntime
  | compatible
deriving DecidableEq, Repr

def HealthStatus.text : HealthStatus → Str
  | .notConverted => "not_converted".toList
  | .incomplete => "incomplete".toList
  | .legacyUntracked => "legacy_untracked".toList
  | .invalidMetadata => "invalid_metadata".toList
  | .incompatibleDefinition => "incompatible_definition".toList
  | .staleRuntime => "stale_runtime".toList
  | .compatible => "compatible".toList

structure ConversionHealth where
  status : HealthStatus
  label : Str
  details : Str
deriving DecidableEq

def optional (version : Option Str) : JsonValue := version.elim .null .str

/-- The marker that `record_conversion_metadata` writes. -/
def conversionMarker (cfg : ModelConfig) (versions : Versions) (now : Str) : Object :=
  [("schema_version".toList, .int 1),
    ("model_id".toList, .str cfg.id),
    ("source_model".toList, .str cfg.sourceModel),
    ("backend".toList, .str cfg.backend.text),
    ("weight_format".toList, .str cfg.weightFormat.text),
    ("application_version".toList, .str versions.application),
    ("openvino_version".toList, optional versions.openvino),
    ("openvino_genai_version".toList, optional versions.openvinoGenai),
    ("recorded_at".toList, .str now)]

/-- `record_conversion_metadata` -/
def recordConversionMetadata (versions : Versions) (now : Str) (cfg : ModelConfig)
    (files : ModelFiles) : ModelFiles :=
  if files.complete then
    let marker := JsonValue.obj (conversionMarker cfg versions now)
    { files with marker := .present (host.dumps marker) (.document marker) }
  else files

def invalidMetadata (details : Str) : ConversionHealth :=
  ⟨.invalidMetadata, "Conversion metadata damaged".toList, details⟩

def requiredFields : List Str :=
  ["model_id".toList, "source_model".toList, "backend".toList, "weight_format".toList,
    "application_version".toList, "openvino_version".toList, "openvino_genai_version".toList,
    "recorded_at".toList]

def expectedFields (cfg : ModelConfig) : List (Str × Str) :=
  [("model_id".toList, cfg.id), ("source_model".toList, cfg.sourceModel),
    ("backend".toList, cfg.backend.text), ("weight_format".toList, cfg.weightFormat.text)]

def commaList (items : List Str) : Str := ", ".toList.intercalate items

/-- The change of one package, as it is reported. -/
def runtimeChange (marker : Object) (label field : Str) (current : Option Str) :
    Option (Option Str) := do
  let recorded := host.textOr marker field []
  let recordedRuntime ← majorMinor host (some recorded)
  let currentRuntime ← majorMinor host current
  if recordedRuntime.isSome ∧ currentRuntime.isSome ∧ recordedRuntime ≠ currentRuntime then
    let name (version : Str) := if version = [] then "unknown".toList else version
    some (some (label ++ ' ' :: name recorded ++ " to ".toList ++ name (current.getD [])))
  else some none

def runtimeChanges (marker : Object) (versions : Versions) : Option (List Str) := do
  let openvino ← runtimeChange host marker "OpenVINO".toList "openvino_version".toList
    versions.openvino
  let genai ← runtimeChange host marker "OpenVINO GenAI".toList "openvino_genai_version".toList
    versions.openvinoGenai
  some (openvino.toList ++ genai.toList)

/-- The health of a conversion with a marker that is an object. -/
def markerHealth (versions : Versions) (cfg : ModelConfig) (marker : Object) :
    Option ConversionHealth :=
  if host.isOne ((marker.lookup "schema_version".toList).getD .null) = false then
    some (invalidMetadata
      "The conversion compatibility marker uses an unsupported schema.".toList)
  else
    let missing := requiredFields.filter fun field => (marker.lookup field).isNone
    let mismatches := (expectedFields cfg).filter fun field => host.textOf marker field.1 ≠ field.2
    if missing ≠ [] then
      some (invalidMetadata ("The conversion compatibility marker is missing: ".toList ++
        commaList missing ++ ['.']))
    else if mismatches ≠ [] then
      some ⟨.incompatibleDefinition, "Definition changed".toList,
        "Conversion metadata differs for: ".toList ++ commaList (mismatches.map Prod.fst) ++ ['.']⟩
    else
      (runtimeChanges host marker versions).map fun changes =>
        if changes ≠ [] then
          ⟨.staleRuntime, "Runtime changed".toList,
            "Conversion runtime changed (".toList ++ "; ".toList.intercalate changes ++
              "). Validate or reconvert before relying on it.".toList⟩
        else
          ⟨.compatible, "Conversion metadata matches".toList,
            "Recorded with OpenVINO ".toList ++
              host.textOr marker "openvino_version".toList "unknown".toList ++
              " and OpenVINO GenAI ".toList ++
              host.textOr marker "openvino_genai_version".toList "unknown".toList ++ ['.']⟩

/-- `conversion_health`; `none` is an exception. -/
def conversionHealth (versions : Versions) (cfg : ModelConfig) (files : ModelFiles) :
    Option ConversionHealth :=
  if files.present = false then some ⟨.notConverted, "Not converted".toList, []⟩
  else if files.complete = false then
    some ⟨.incomplete, "Incomplete conversion".toList,
      "The directory exists but required OpenVINO IR files are missing.".toList⟩
  else
    match files.marker with
    | .missing =>
      some ⟨.legacyUntracked, "Converted, compatibility unknown".toList,
        "This conversion predates compatibility metadata. Reconvert or validate it locally.".toList⟩
    | .unreadable | .present _ .notJson =>
      some (invalidMetadata
        "The OpenVINO IR exists but its compatibility marker is unreadable.".toList)
    | .present _ .notText => none
    | .present _ (.document (.obj marker)) => markerHealth host versions cfg marker
    | .present _ (.document _) =>
      some (invalidMetadata
        "The OpenVINO IR exists but its compatibility marker is not a JSON object.".toList)

/-! ### The fingerprint -/

/-- What the walk over the tree writes about one name. -/
inductive Record where
  | missingRoot
  | linkedDirectory (path : List FileName)
  | linkedFile (path : List FileName)
  | unreadable (path : List FileName)
  | nonFile (path : List FileName)
  | file (path : List FileName) (size : ℕ) (mtime : ℤ)
deriving DecidableEq

/-- `relative_to(root).as_posix()` -/
def posix (path : List FileName) : Str := ['/'].intercalate (path.map FileName.text)

/-- The words that are written behind a zero each. -/
def Record.words : Record → List Str
  | .missingRoot => ["unsafe-or-missing-root".toList]
  | .linkedDirectory path => ["reparse-dir".toList, posix path]
  | .linkedFile path => ["reparse-file".toList, posix path]
  | .unreadable path => ["unreadable".toList, posix path]
  | .nonFile path => ["non-file".toList, posix path]
  | .file path size mtime => ["file".toList, posix path, decimal size, decimal mtime]

/-- The links to directories, which the walk does not follow. -/
def Listing.linkRecords (path : List FileName) : Listing → List Record
  | .nil => []
  | .cons name entry rest =>
    match entry with
    | .link true => .linkedDirectory (path ++ [name]) :: rest.linkRecords path
    | _ => rest.linkRecords path

/-- What is no directory. -/
def Listing.fileRecords (path : List FileName) : Listing → List Record
  | .nil => []
  | .cons name entry rest =>
    match entry with
    | .link false => .linkedFile (path ++ [name]) :: rest.fileRecords path
    | .unreadable => .unreadable (path ++ [name]) :: rest.fileRecords path
    | .special => .nonFile (path ++ [name]) :: rest.fileRecords path
    | .file size mtime => .file (path ++ [name]) size mtime :: rest.fileRecords path
    | _ => rest.fileRecords path

mutual

/-- The walk over a directory. -/
def Entry.walk (path : List FileName) : Entry → List Record
  | .directory children =>
    children.linkRecords path ++ children.fileRecords path ++ children.walkBelow path
  | _ => []

def Listing.walkBelow (path : List FileName) : Listing → List Record
  | .nil => []
  | .cons name entry rest => entry.walk (path ++ [name]) ++ rest.walkBelow path

end

def ModelFiles.records (files : ModelFiles) : List Record :=
  match files.root with
  | none => [.missingRoot]
  | some root => (Entry.directory root).walk []

def artifactNames : List Str :=
  ["openvino_model.xml".toList, "openvino_model.bin".toList, "openvino_language_model.xml".toList,
    "openvino_language_model.bin".toList, "config.json".toList]

/-- What the fingerprint of the base class is made of. -/
def baseInput (cfg : ModelConfig) (files : ModelFiles) : Bytes :=
  let artifacts := artifactNames.filterMap fun name => (files.artifact name).map (name, ·)
  encode (cfg.id ++ Fields.delimited '\x00' [cfg.sourceModel, cfg.backend.text,
      cfg.weightFormat.text, "marker".toList, []]) ++
    files.marker.bytes.getD (encode (Fields.delimited '\x00' ["marker-missing".toList])) ++
    encode (Fields.delimited '\x00'
      (if artifacts = [] then ["artifacts-missing".toList]
      else artifacts.flatMap fun (name, size, mtime) =>
        ["artifact".toList, name, decimal size, decimal mtime]))

def treeInput (cfg : ModelConfig) (files : ModelFiles) : Bytes :=
  encode (host.sha256 (baseInput cfg files) ++
    Fields.delimited '\x00' (files.records.flatMap Record.words))

/-- `_conversion_fingerprint` -/
def conversionFingerprint (cfg : ModelConfig) (files : ModelFiles) : Str :=
  host.sha256 (treeInput host cfg files)

end InferBridge.RuntimeHealth
