/-
InferBridge/LibraryManifest.lean

The manifest of the model library (app/model_library_schema.py, and
`_read_manifest` and the cache of app/model_library_service.py).

A manifest is JSON from the network or from the cache.  Its values are
Python's (`PyValue`); a text may hold surrogates without a partner, as the
JSON reader gives them.  A call ends in one of three ways: with a result,
with a `ManifestValidationError`, or with an error that nobody catches
(`Failure.uncaught`).

What is outside is a parameter (`Host`): reading and writing JSON, the
digest, `str` of values that are no texts, and the types of the request
schema.
-/
import InferBridge.CatalogPersistence

namespace InferBridge.ModelLibrarySchema

/-! ### Texts -/

/-- A code point; surrogates are among them. -/
abbrev CodePoint := Fin 0x110000

def isHigh (c : CodePoint) : Bool := 0xD800 ≤ c.val && c.val ≤ 0xDBFF

def isLow (c : CodePoint) : Bool := 0xDC00 ≤ c.val && c.val ≤ 0xDFFF

def isSurrogate (c : CodePoint) : Bool := isHigh c || isLow c

/-- Surrogates that would make a pair do not stand next to each other. -/
def apart : List CodePoint → Bool
  | c :: d :: t => !(isHigh c && isLow d) && apart (d :: t)
  | _ => true

/-- A text as it comes out of JSON: the reader makes one code point of a surrogate pair. -/
structure PyText where
  points : List CodePoint
  apart : apart points = true
deriving DecidableEq

theorem apart_take {t : List CodePoint} (h : apart t = true) (n : Nat) :
    apart (t.take n) = true := by
  fun_induction apart t generalizing n with
  | case1 c d t ih =>
    obtain ⟨hpair, hrest⟩ := Bool.and_eq_true_iff.mp h
    rcases n with - | - | n
    · rfl
    · rfl
    · exact Bool.and_eq_true_iff.mpr ⟨hpair, ih hrest (n + 1)⟩
  | case2 t hshort =>
    rcases t with - | ⟨c, - | ⟨d, t⟩⟩
    · rw [List.take_nil]
      rfl
    · cases n with
      | zero => rfl
      | succ n =>
        rw [List.take_succ_cons, List.take_nil]
        rfl
    · exact absurd rfl (hshort c d t)

theorem apart_of_plain {t : List CodePoint} (h : ∀ c ∈ t, isSurrogate c = false) :
    apart t = true := by
  fun_induction apart t with
  | case1 c d t ih =>
    have hc := (Bool.or_eq_false_iff.mp (h c List.mem_cons_self)).1
    rw [hc]
    exact ih fun c hmem => h c (List.mem_cons_of_mem _ hmem)
  | case2 t hshort => rfl

/-- `text[:n]` -/
def PyText.take (n : Nat) (t : PyText) : PyText := ⟨t.points.take n, apart_take t.apart n⟩

/-- The code point of a character. -/
def codePoint (c : Char) : CodePoint :=
  ⟨c.toNat, by
    have h : c.toNat < 0xD800 ∨ (0xDFFF < c.toNat ∧ c.toNat < 0x110000) := c.valid
    omega⟩

theorem isSurrogate_codePoint (c : Char) : isSurrogate (codePoint c) = false := by
  have h : c.toNat < 0xD800 ∨ (0xDFFF < c.toNat ∧ c.toNat < 0x110000) := c.valid
  show (decide (0xD800 ≤ c.toNat) && decide (c.toNat ≤ 0xDBFF) ||
    decide (0xDC00 ≤ c.toNat) && decide (c.toNat ≤ 0xDFFF)) = false
  simp only [Bool.or_eq_false_iff, Bool.and_eq_false_iff, decide_eq_false_iff_not]
  omega

/-- A text of characters. -/
def PyText.ofStr (s : Str) : PyText :=
  ⟨s.map codePoint, apart_of_plain fun c hmem => by
    obtain ⟨d, -, rfl⟩ := List.mem_map.mp hmem
    exact isSurrogate_codePoint d⟩

def PyText.ofString (s : String) : PyText := .ofStr s.toList

/-- The text has no surrogates: it can be encoded. -/
def PyText.plain (t : PyText) : Bool := t.points.all fun c => !isSurrogate c

/-- The characters of a plain text. -/
def PyText.chars (t : PyText) : Option Str :=
  if t.plain then some (t.points.map fun c => Char.ofNat c.val) else none

/-! ### Values -/

/-- A float; the last argument tells the two zeros apart. -/
inductive PyFloat where
  | nan
  | infinity (negative : Bool)
  | finite (value : ℚ) (negativeZero : Bool)
deriving DecidableEq

def PyFloat.zero : PyFloat := .finite 0 false

def PyFloat.hundred : PyFloat := .finite 100 false

/-- The comparison `<` -/
def PyFloat.lt : PyFloat → PyFloat → Bool
  | .nan, _ => false
  | _, .nan => false
  | .infinity a, .infinity b => a && !b
  | .infinity a, .finite _ _ => a
  | .finite _ _, .infinity b => !b
  | .finite a _, .finite b _ => a < b

def PyFloat.isFinite : PyFloat → Bool
  | .finite _ _ => true
  | _ => false

/-- `max(x, 0.0)`, which keeps the first of two that are equal -/
def PyFloat.max0 (x : PyFloat) : PyFloat := if x.lt zero then zero else x

/-- `min(x, 100.0)` -/
def PyFloat.min100 (x : PyFloat) : PyFloat := if hundred.lt x then hundred else x

/-- `int(x)`; `none` is a `ValueError` or an `OverflowError`. -/
def PyFloat.toInt : PyFloat → Option Int
  | .finite value _ => some (if value < 0 then -⌊-value⌋ else ⌊value⌋)
  | _ => none

/-- A decoded JSON document. -/
inductive PyValue where
  | none
  | bool (b : Bool)
  | int (n : Int)
  | float (x : PyFloat)
  | str (t : PyText)
  | list (items : List PyValue)
  | dict (items : List (PyText × PyValue))

abbrev PyDict := List (PyText × PyValue)

def key (name : String) : PyText := .ofString name

/-- `d.get(name)` -/
def getField (d : PyDict) (name : String) : Option PyValue := d.lookup (key name)

def PyValue.truthy : PyValue → Bool
  | .none => false
  | .bool b => b
  | .int n => n ≠ 0
  | .float (.finite value _) => value ≠ 0
  | .float _ => true
  | .str t => t.points ≠ []
  | .list items => !items.isEmpty
  | .dict items => !items.isEmpty

mutual

/-- No text of the value holds a surrogate. -/
def PyValue.plain : PyValue → Bool
  | .str t => t.plain
  | .list items => plainItems items
  | .dict items => plainFields items
  | _ => true

def plainItems : List PyValue → Bool
  | [] => true
  | value :: values => value.plain && plainItems values

def plainFields : List (PyText × PyValue) → Bool
  | [] => true
  | (name, value) :: fields => name.plain && value.plain && plainFields fields

end

/-- `value == 1` -/
def PyValue.isOne : PyValue → Bool
  | .bool b => b
  | .int n => n = 1
  | .float (.finite value _) => value = 1
  | _ => false

/-! ### The normalised manifest -/

structure Certification where
  certifiedAt : PyText
  openvinoVersion : PyText
  openvinoGenaiVersion : PyText
  driverVersion : Option PyText
  requestedDevice : PyText
  actualDevice : PyText
  maxTestedContext : Int
  reportReference : PyText
  reportSha256 : PyText
  loadTimeMs : Option PyFloat
  tokensSec : Option PyFloat
  timeToFirstTokenMs : Option PyFloat
deriving DecidableEq

/-- The records of each device. -/
structure DeviceRecords where
  cpu : List Certification
  gpu : List Certification
  npu : List Certification
deriving DecidableEq

structure Metadata where
  curated : Bool
  profiles : List PyText
  minimumRamGb : PyFloat
  minimumDiskGb : PyFloat
  license : PyText
  gated : Bool
  qualityScore : PyFloat
  speedScore : PyFloat
  maxTestedContext : Int
  maintainerNote : PyText
  certifications : DeviceRecords
deriving DecidableEq

structure Entry where
  definition : RegisterRequest
  metadata : Metadata
deriving DecidableEq

structure LibraryManifest where
  generatedAt : PyText
  source : PyText
  catalog : Dict Str Entry
  catalogSha256 : PyText

/-! ### The manifest as a document -/

def ofOptionalText : Option PyText → PyValue
  | none => .none
  | some t => .str t

/-- A field that is left out where there is no value. -/
def optionalField (name : String) : Option PyFloat → PyDict
  | none => []
  | some x => [(key name, .float x)]

def Certification.fields (c : Certification) : PyDict :=
  [(key "status", .str (key "verified")), (key "certified_at", .str c.certifiedAt),
    (key "openvino_version", .str c.openvinoVersion),
    (key "openvino_genai_version", .str c.openvinoGenaiVersion),
    (key "driver_version", ofOptionalText c.driverVersion),
    (key "requested_device", .str c.requestedDevice),
    (key "actual_device", .str c.actualDevice),
    (key "max_tested_context", .int c.maxTestedContext),
    (key "report_reference", .str c.reportReference),
    (key "report_sha256", .str c.reportSha256)] ++
    optionalField "load_time_ms" c.loadTimeMs ++ optionalField "tokens_sec" c.tokensSec ++
    optionalField "time_to_first_token_ms" c.timeToFirstTokenMs

def recordsDocument (records : List Certification) : PyValue :=
  .list (records.map fun record => .dict record.fields)

/-- `definition.model_dump()` -/
def definitionFields (request : RegisterRequest) : PyDict :=
  [(key "model_id", .str (.ofStr request.modelId)), (key "name", .str (.ofStr request.name)),
    (key "source_model", .str (.ofStr request.sourceModel)),
    (key "backend", .str (.ofStr request.backend.text)),
    (key "weight_format", .str (.ofStr request.weightFormat.text)),
    (key "recommended_device", .str (.ofStr request.recommendedDevice)),
    (key "max_context_len", .int request.maxContextLen),
    (key "max_output_tokens", .int request.maxOutputTokens),
    (key "description", ofOptionalText (request.description.map .ofStr)),
    (key "trust_remote_code", .bool request.trustRemoteCode)]

def DeviceRecords.fields (records : DeviceRecords) : PyDict :=
  [(key "CPU", recordsDocument records.cpu), (key "GPU", recordsDocument records.gpu),
    (key "NPU", recordsDocument records.npu)]

def Metadata.fields (m : Metadata) : PyDict :=
  [(key "curated", .bool m.curated), (key "profiles", .list (m.profiles.map .str)),
    (key "minimum_ram_gb", .float m.minimumRamGb),
    (key "minimum_disk_gb", .float m.minimumDiskGb), (key "license", .str m.license),
    (key "gated", .bool m.gated), (key "quality_score", .float m.qualityScore),
    (key "speed_score", .float m.speedScore),
    (key "max_tested_context", .int m.maxTestedContext),
    (key "maintainer_note", .str m.maintainerNote),
    (key "certifications", .dict m.certifications.fields)]

def Entry.fields (entry : Entry) : PyDict :=
  [(key "definition", .dict (definitionFields entry.definition)),
    (key "metadata", .dict entry.metadata.fields)]

def catalogDocument (catalog : Dict Str Entry) : PyDict :=
  catalog.items.map fun item => (.ofStr item.1, .dict item.2.fields)

def LibraryManifest.document (m : LibraryManifest) : PyValue :=
  .dict
    [(key "schema_version", .int 1), (key "generated_at", .str m.generatedAt),
      (key "source", .str m.source), (key "catalog", .dict (catalogDocument m.catalog)),
      (key "catalog_sha256", .str m.catalogSha256)]

/-! ### The host -/

/-- The library around the code. -/
structure Host (β : Type*) where
  size : β → Nat
  /-- `payload.decode("utf-8-sig")` and `json.loads`; a text that is no JSON is `invalid` -/
  loads : β → Except DecodeError PyValue
  /-- the file that holds `json.dumps(document, indent=2)` and a line feed -/
  cacheFile : PyValue → β
  /-- the canonical JSON is not nested too deep for the encoder -/
  shallow : PyValue → Bool
  /-- the SHA-256 digest of the canonical JSON -/
  digest : PyValue → PyText
  /-- `str` of a value that is no text; `none` is an error -/
  str : PyValue → Option PyText
  /-- `str.lower` -/
  lower : PyText → PyText
  /-- `float` of an integer and of a text; `none` is an error -/
  floatOfInt : Int → Option PyFloat
  floatOfText : PyText → Option PyFloat
  /-- `int` of a text -/
  intOfText : PyText → Option Int
  /-- the types and defaults of `ModelRegisterRequest`, without its constraints -/
  coerce : PyDict → Option RegisterRequest

/-- Why a call raises. -/
inductive Rejection where
  | size
  | json
  | document
  | schema
  | catalog
  | checksumMissing
  | checksum
  | modelId (key : PyText)
  | entry (key : PyText)
  | definition (key : PyText)
  | invalidDefinition (key : PyText)
deriving DecidableEq

/-- `ManifestValidationError`, or an error that is not caught. -/
inductive Failure where
  | rejected (reason : Rejection)
  | uncaught
deriving DecidableEq

def maxManifestBytes : Nat := 1000000

def maxImportedDefinitions : Nat := 50

def allowedProfiles : List PyText :=
  [key "fastest", key "balanced", key "best_quality", key "lowest_memory"]

/-- `[0-9a-f]{64}` -/
def isSha256 (t : PyText) : Bool :=
  t.points.length = 64 &&
    t.points.all fun c => (48 ≤ c.val && c.val ≤ 57) || (97 ≤ c.val && c.val ≤ 102)

/-- A text that matches `MODEL_ID_RE`. -/
def modelIdOf (t : PyText) : Option Str := t.chars.filter isModelId

section
variable {β : Type*} (host : Host β)

/-! ### Coercions

Within an entry, `none` is an error that nobody catches. -/

/-- `str(value)` -/
def strOf : PyValue → Option PyText
  | .str t => some t
  | value => host.str value

/-- `str(value or default)[:limit]` -/
def textField (value : Option PyValue) (default : PyText) (limit : Nat) : Option PyText :=
  match value with
  | none => some (default.take limit)
  | some value =>
    if value.truthy then (strOf host value).map (.take limit) else some (default.take limit)

/-- `str(value or "")` -/
def wholeText (value : Option PyValue) : Option PyText :=
  match value with
  | none => some (key "")
  | some value => if value.truthy then strOf host value else some (key "")

/-- `float(value)`, of a value that is no boolean -/
def floatOf : PyValue → Option PyFloat
  | .int n => host.floatOfInt n
  | .float x => some x
  | .str t => host.floatOfText t
  | _ => none

/-- `int(value)`, of a value that is no boolean -/
def intOf : PyValue → Option Int
  | .int n => some n
  | .float x => x.toInt
  | .str t => host.intOfText t
  | _ => none

/-- `safe_float` -/
def safeFloat (value : Option PyValue) : PyFloat :=
  match value.bind (floatOf host) with
  | none => .zero
  | some x => if x.isFinite then x else .zero

/-- `safe_int` -/
def safeInt (value : Option PyValue) : Int := (value.bind (intOf host)).getD 0

/-- `optional_nonnegative_float` -/
def optionalNonnegativeFloat (value : Option PyValue) : Option PyFloat :=
  (value.bind (floatOf host)).bind fun x => if x.isFinite then some x.max0 else none

/-- `optional_nonnegative_int` -/
def optionalNonnegativeInt (value : Option PyValue) : Option Int :=
  (value.bind (intOf host)).map (max · 0)

/-! ### Certifications -/

/-- The driver version: an empty text counts as missing. -/
def driverOf (value : Option PyValue) : Option (Option PyText) :=
  match value with
  | none => some none
  | some .none => some none
  | some (.str t) => some (if t.points = [] then none else some (t.take 128))
  | some value => (strOf host value).map fun t => some (t.take 128)

/-- One record; `some none` is one that is left out. -/
def normalizeRecord (device : PyText) (record : PyDict) : Option (Option Certification) := do
  let certifiedAt ← textField host (getField record "certified_at") (key "") 32
  let openvinoVersion ← textField host (getField record "openvino_version") (key "") 64
  let driverVersion ← driverOf host (getField record "driver_version")
  let requestedDevice ← textField host (getField record "requested_device") (key "") 64
  let actualDevice ← textField host (getField record "actual_device") (key "") 64
  let reportReference ← textField host (getField record "report_reference") (key "") 500
  let reportSha256 ← (wholeText host (getField record "report_sha256")).map host.lower
  match optionalNonnegativeInt host (getField record "max_tested_context") with
  | none => some none
  | some maxTestedContext =>
    if certifiedAt = key "" ∨ openvinoVersion = key "" ∨ requestedDevice ≠ device ∨
        actualDevice ≠ device ∨ reportReference = key "" ∨ isSha256 reportSha256 = false ∨
        maxTestedContext ≤ 0 then some none
    else do
      let openvinoGenaiVersion ←
        textField host (getField record "openvino_genai_version") (key "") 64
      some (some {
        certifiedAt, openvinoVersion, openvinoGenaiVersion, driverVersion, requestedDevice,
        actualDevice, maxTestedContext, reportReference, reportSha256
        loadTimeMs := optionalNonnegativeFloat host (getField record "load_time_ms")
        tokensSec := optionalNonnegativeFloat host (getField record "tokens_sec")
        timeToFirstTokenMs :=
          optionalNonnegativeFloat host (getField record "time_to_first_token_ms") })

/-- The records of a device, in order. -/
def normalizeRecords (device : PyText) : List PyValue → Option (List Certification)
  | [] => some []
  | .dict record :: records =>
    match getField record "status" with
    | some (.str status) =>
      if status = key "verified" then do
        let first ← normalizeRecord host device record
        let rest ← normalizeRecords device records
        some (first.toList ++ rest)
      else normalizeRecords device records
    | _ => normalizeRecords device records
  | _ :: records => normalizeRecords device records

/-- `item["certified_at"]` is at most that of the other. -/
def certifiedBefore (a b : Certification) : Bool :=
  decide (a.certifiedAt.points ≤ b.certifiedAt.points)

/-- The records of one device. -/
def normalizeDevice (raw : Option PyValue) (device : String) : Option (List Certification) :=
  match raw with
  | some (.dict fields) =>
    match getField fields device with
    | some (.list records) =>
      (normalizeRecords host (key device) (records.take 20)).map (List.mergeSort · certifiedBefore)
    | _ => some []
  | _ => some []

/-- `_normalize_certifications` -/
def normalizeCertifications (raw : Option PyValue) : Option DeviceRecords := do
  let cpu ← normalizeDevice host raw "CPU"
  let gpu ← normalizeDevice host raw "GPU"
  let npu ← normalizeDevice host raw "NPU"
  some { cpu, gpu, npu }

/-- The records of models that take no more than this context. -/
def capRecords (context : Int) (records : List Certification) : List Certification :=
  records.map fun record =>
    { record with maxTestedContext := min record.maxTestedContext context }

def DeviceRecords.capped (context : Int) (records : DeviceRecords) : DeviceRecords :=
  ⟨capRecords context records.cpu, capRecords context records.gpu, capRecords context records.npu⟩

/-! ### The document -/

/-- The values that `for value in profiles` goes through that are texts; a dictionary gives its
keys, a text its characters.  `none` is a `TypeError`. -/
def profileTexts : Option PyValue → Option (List PyText)
  | none => some []
  | some (.list values) => some (values.filterMap fun value =>
      match value with
      | .str t => some t
      | _ => none)
  | some (.dict fields) => some (fields.map Prod.fst)
  -- no profile has one character
  | some (.str _) => some []
  | some _ => none

def normalizeMetadata (metadata : PyDict) (definition : RegisterRequest) : Option Metadata := do
  let profiles ← profileTexts (getField metadata "profiles")
  let certifications ← normalizeCertifications host (getField metadata "certifications")
  let license ← textField host (getField metadata "license") (key "Unknown") 120
  let maintainerNote ← textField host (getField metadata "maintainer_note") (key "") 500
  some {
    curated := ((getField metadata "curated").map PyValue.truthy).getD true
    profiles := (profiles.filter fun profile => profile ∈ allowedProfiles).eraseDups
    minimumRamGb := (safeFloat host (getField metadata "minimum_ram_gb")).max0
    minimumDiskGb := (safeFloat host (getField metadata "minimum_disk_gb")).max0
    license
    gated := ((getField metadata "gated").map PyValue.truthy).getD false
    qualityScore := (safeFloat host (getField metadata "quality_score")).max0.min100
    speedScore := (safeFloat host (getField metadata "speed_score")).max0.min100
    maxTestedContext :=
      min (max (safeInt host (getField metadata "max_tested_context")) 0) definition.maxContextLen
    maintainerNote
    certifications := certifications.capped definition.maxContextLen }

/-- `definition_raw["model_id"] = model_id` -/
def setField (name : PyText) (value : PyValue) : PyDict → PyDict
  | [] => [(name, value)]
  | (other, old) :: fields =>
    if other = name then (other, value) :: fields else (other, old) :: setField name value fields

/-- `raw.get("metadata")`, or nothing where it is no object -/
def metadataOf (raw : PyDict) : PyDict :=
  match getField raw "metadata" with
  | some (.dict metadata) => metadata
  | _ => []

/-- A value whose computation may raise what nobody catches. -/
def orUncaught {α : Type} : Option α → Except Failure α
  | none => .error .uncaught
  | some a => .ok a

/-- One entry of the catalog, under its model. -/
def normalizeEntry (name : PyText) (raw : PyValue) : Except Failure (Str × Entry) :=
  match modelIdOf name with
  | none => .error (.rejected (.modelId name))
  | some modelId =>
    match raw with
    | .dict raw =>
      match getField raw "definition" with
      | some (.dict definition) =>
        match (host.coerce (setField (key "model_id") (.str name) definition)).bind
            RegisterRequest.validate with
        | none => .error (.rejected (.invalidDefinition name))
        | some request =>
          (orUncaught (normalizeMetadata host (metadataOf raw) request)).map fun metadata =>
            (modelId, ⟨{ request with trustRemoteCode := false }, metadata⟩)
      | _ => .error (.rejected (.definition name))
    | _ => .error (.rejected (.entry name))

/-- The loop over the catalog. -/
def normalizeEntries (normalized : Dict Str Entry) : PyDict → Except Failure (Dict Str Entry)
  | [] => .ok normalized
  | (name, raw) :: entries => do
    let (modelId, entry) ← normalizeEntry host name raw
    normalizeEntries (normalized.set modelId entry) entries

/-- `catalog_checksum`; surrogates cannot be encoded. -/
def catalogChecksum (catalog : PyDict) : Option PyText :=
  if (PyValue.dict catalog).plain && host.shallow (.dict catalog) then
    some (host.digest (.dict catalog))
  else none

/-- `validate_manifest_document` -/
def validateManifestDocument (document : PyValue) : Except Failure LibraryManifest :=
  match document with
  | .dict fields =>
    if (getField fields "schema_version").any PyValue.isOne = false then
      .error (.rejected .schema)
    else
      match getField fields "catalog" with
      | some (.dict catalog) =>
        if catalog = [] ∨ maxImportedDefinitions < catalog.length then .error (.rejected .catalog)
        else do
          let expected ← orUncaught
            ((wholeText host (getField fields "catalog_sha256")).map host.lower)
          if isSha256 expected = false then .error (.rejected .checksumMissing)
          else
            let actual ← orUncaught (catalogChecksum host catalog)
            if actual ≠ expected then .error (.rejected .checksum)
            else
              let normalized ← normalizeEntries host Dict.empty catalog
              let generatedAt ← orUncaught
                (textField host (getField fields "generated_at") (key "") 40)
              let source ← orUncaught (textField host (getField fields "source") (key "") 200)
              let catalogSha256 ← orUncaught (catalogChecksum host (catalogDocument normalized))
              .ok { generatedAt, source, catalog := normalized, catalogSha256 }
      | _ => .error (.rejected .catalog)
  | _ => .error (.rejected .document)

/-- `parse_manifest_bytes` -/
def parseManifestBytes (payload : β) : Except Failure LibraryManifest :=
  if maxManifestBytes < host.size payload then .error (.rejected .size)
  else
    match host.loads payload with
    | .error .invalid => .error (.rejected .json)
    | .error .uncaught => .error .uncaught
    | .ok document => validateManifestDocument host document

/-- Where a manifest comes from. -/
inductive ManifestSource where
  | officialCache
  | bundled
  | emptyFallback
deriving DecidableEq, Repr

/-- The manifest without models. -/
def emptyManifest : LibraryManifest where
  generatedAt := key ""
  source := key "empty-fallback"
  catalog := Dict.empty
  catalogSha256 := host.digest (.dict [])

/-- `_read_manifest`; a file that cannot be read is `none`, and so is an error that is not
caught. -/
def readManifest (cache bundled : Option β) : Option (LibraryManifest × ManifestSource) :=
  let tryFile (file : Option β) (source : ManifestSource)
      (next : Option (LibraryManifest × ManifestSource)) :=
    match file.map (parseManifestBytes host) with
    | some (.ok manifest) => some (manifest, source)
    | some (.error .uncaught) => none
    | some (.error (.rejected _)) | none => next
  tryFile cache .officialCache <|
    tryFile bundled .bundled (some (emptyManifest host, .emptyFallback))

end

end InferBridge.ModelLibrarySchema
