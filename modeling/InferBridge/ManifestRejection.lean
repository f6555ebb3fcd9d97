/-
InferBridge/ManifestRejection.lean

Malformed manifests (`parse_manifest_bytes` of app/model_library_schema.py):
which of them are refused with a `ManifestValidationError`, and which raise
something that nobody catches.

Design.  The conditions follow the document from outside to inside
(`Reads`, `ManifestReads`, `EntriesRead`, `MetadataReads`, `RecordPrints`):
each says what the code does unguarded at its level, given that the checks
before it passed.

Main result.  A payload gives a normalised manifest or is rejected, and the
library has a manifest whatever the cache holds, exactly if it `Reads`
(`parse_iff`).  The three unguarded places are the reader of JSON, the
checksum of a catalog with a surrogate, and the loop over `profiles`.
-/
import InferBridge.ManifestNormal

namespace InferBridge.ModelLibrarySchema

open Accepted

section
variable {β : Type*} (host : Host β)

/-! ### What is read unguarded -/

/-- `str(value or …)` does not raise. -/
def Prints (value : Option PyValue) : Prop :=
  ∀ v, value = some v → v.truthy = true → (strOf host v).isSome = true

/-- A driver version is printed unless it is `null`. -/
def DriverPrints (value : Option PyValue) : Prop :=
  ∀ v, value = some v → v = .none ∨ (strOf host v).isSome = true

/-- The record passes the checks on its fields. -/
def Kept (device : PyText) (record : PyDict) : Prop :=
  ∃ certifiedAt openvinoVersion requestedDevice actualDevice reportReference reportSha256
      maxTestedContext,
    textField host (getField record "certified_at") (key "") 32 = some certifiedAt ∧
    textField host (getField record "openvino_version") (key "") 64 = some openvinoVersion ∧
    textField host (getField record "requested_device") (key "") 64 = some requestedDevice ∧
    textField host (getField record "actual_device") (key "") 64 = some actualDevice ∧
    textField host (getField record "report_reference") (key "") 500 = some reportReference ∧
    (wholeText host (getField record "report_sha256")).map host.lower = some reportSha256 ∧
    optionalNonnegativeInt host (getField record "max_tested_context") = some maxTestedContext ∧
    ¬(certifiedAt = key "" ∨ openvinoVersion = key "" ∨ requestedDevice ≠ device ∨
      actualDevice ≠ device ∨ reportReference = key "" ∨ isSha256 reportSha256 = false ∨
      maxTestedContext ≤ 0)

/-- A record whose fields can be printed. -/
structure RecordPrints (device : PyText) (record : PyDict) : Prop where
  certifiedAt : Prints host (getField record "certified_at")
  openvinoVersion : Prints host (getField record "openvino_version")
  driverVersion : DriverPrints host (getField record "driver_version")
  requestedDevice : Prints host (getField record "requested_device")
  actualDevice : Prints host (getField record "actual_device")
  reportReference : Prints host (getField record "report_reference")
  reportSha256 : Prints host (getField record "report_sha256")
  -- the last one is printed for a record that is kept
  openvinoGenaiVersion : Kept host device record →
    Prints host (getField record "openvino_genai_version")

/-- The verified records among the first twenty of a device. -/
def RecordsPrint (device : String) (raw : Option PyValue) : Prop :=
  ∀ fields records, raw = some (.dict fields) → getField fields device = some (.list records) →
    ∀ record, .dict record ∈ records.take 20 →
      getField record "status" = some (.str (key "verified")) →
        RecordPrints host (key device) record

/-- What a `for` goes through without an error: `metadata.get("profiles", [])`. -/
def isIterable : Option PyValue → Bool
  | none | some (.list _) | some (.dict _) | some (.str _) => true
  | some _ => false

structure MetadataReads (metadata : PyDict) : Prop where
  profiles : isIterable (getField metadata "profiles") = true
  cpu : RecordsPrint host "CPU" (getField metadata "certifications")
  gpu : RecordsPrint host "GPU" (getField metadata "certifications")
  npu : RecordsPrint host "NPU" (getField metadata "certifications")
  license : Prints host (getField metadata "license")
  maintainerNote : Prints host (getField metadata "maintainer_note")

/-- An entry that is not refused: a model, and a definition that the request schema takes. -/
def EntryAccepted (name : PyText) (raw : PyValue) (fields : PyDict) : Prop :=
  (modelIdOf name).isSome = true ∧ raw = .dict fields ∧
    ∃ definition, getField fields "definition" = some (.dict definition) ∧
      ((host.coerce (setField (key "model_id") (.str name) definition)).bind
        RegisterRequest.validate).isSome = true

/-- The entries up to the first that is refused. -/
def EntriesRead : PyDict → Prop
  | [] => True
  | (name, raw) :: entries =>
    ∀ fields, EntryAccepted host name raw fields →
      MetadataReads host (metadataOf fields) ∧ EntriesRead entries

def EntriesAccepted (entries : PyDict) : Prop :=
  ∀ entry ∈ entries, ∃ fields, EntryAccepted host entry.1 entry.2 fields

/-- What is read of a catalog whose checksum is this text. -/
structure CatalogReads (fields catalog : PyDict) (expected : PyText) : Prop where
  plain : (PyValue.dict catalog).plain = true
  shallow : host.shallow (.dict catalog) = true
  entries : host.digest (.dict catalog) = expected → EntriesRead host catalog
  generatedAt : host.digest (.dict catalog) = expected → EntriesAccepted host catalog →
    Prints host (getField fields "generated_at")
  source : host.digest (.dict catalog) = expected → EntriesAccepted host catalog →
    Prints host (getField fields "source")

def ManifestReads (document : PyValue) : Prop :=
  ∀ fields catalog, document = .dict fields →
    (getField fields "schema_version").any PyValue.isOne = true →
    getField fields "catalog" = some (.dict catalog) →
    catalog ≠ [] → catalog.length ≤ maxImportedDefinitions →
      Prints host (getField fields "catalog_sha256") ∧
        ∀ text, wholeText host (getField fields "catalog_sha256") = some text →
          isSha256 (host.lower text) = true → CatalogReads host fields catalog (host.lower text)

/-- A payload that is too large, is no JSON, or holds a document that is read to its end or to a
refusal. -/
def Reads (payload : β) : Prop :=
  host.size payload ≤ maxManifestBytes →
    host.loads payload ≠ .error .uncaught ∧
      ∀ document, host.loads payload = .ok document → ManifestReads host document

end

/-! ### Records -/

section
variable {β : Type*} {host : Host β}

theorem isSome_bind_iff {α γ : Type} {x : Option α} {f : α → Option γ} :
    (x >>= f).isSome = true ↔ ∃ a, x = some a ∧ (f a).isSome = true := by
  cases x with
  | none =>
    constructor
    · intro h
      cases h
    · rintro ⟨a, h, -⟩
      cases h
  | some a =>
    constructor
    · intro h
      exact ⟨a, rfl, h⟩
    · rintro ⟨a', h, hf⟩
      obtain rfl := Option.some.inj h
      exact hf

theorem isSome_of_eq {α : Type} {x : Option α} {a : α} (h : x = some a) : x.isSome = true :=
  Option.isSome_iff_exists.mpr ⟨a, h⟩

theorem textField_isSome {value : Option PyValue} {default : PyText} {limit : Nat} :
    (textField host value default limit).isSome = true ↔ Prints host value := by
  rcases value with - | v
  · exact iff_of_true rfl fun v h => by cases h
  · by_cases htruthy : v.truthy = true
    · have htext : textField host (some v) default limit = (strOf host v).map (.take limit) :=
        if_pos htruthy
      rw [htext, Option.isSome_map]
      constructor
      · intro h w hw _
        exact Option.some.inj hw ▸ h
      · intro h
        exact h v rfl htruthy
    · have htext : textField host (some v) default limit = some (default.take limit) :=
        if_neg htruthy
      rw [htext]
      exact iff_of_true rfl fun w hw hw' => absurd (Option.some.inj hw ▸ hw') htruthy

theorem wholeText_isSome {value : Option PyValue} :
    (wholeText host value).isSome = true ↔ Prints host value := by
  rcases value with - | v
  · exact iff_of_true rfl fun v h => by cases h
  · by_cases htruthy : v.truthy = true
    · have htext : wholeText host (some v) = strOf host v := if_pos htruthy
      rw [htext]
      constructor
      · intro h w hw _
        exact Option.some.inj hw ▸ h
      · intro h
        exact h v rfl htruthy
    · have htext : wholeText host (some v) = some (key "") := if_neg htruthy
      rw [htext]
      exact iff_of_true rfl fun w hw hw' => absurd (Option.some.inj hw ▸ hw') htruthy

theorem driverOf_isSome {value : Option PyValue} :
    (driverOf host value).isSome = true ↔ DriverPrints host value := by
  have hstr {v : PyValue} (hne : v ≠ .none) :
      ((strOf host v).map (fun t => some (t.take 128))).isSome = true ↔
        DriverPrints host (some v) := by
    rw [Option.isSome_map]
    constructor
    · intro h w hw
      exact .inr (Option.some.inj hw ▸ h)
    · intro h
      exact (h v rfl).resolve_left hne
  rcases value with - | (- | b | n | x | t | items | fields)
  · exact iff_of_true rfl fun v h => by cases h
  · exact iff_of_true rfl fun v h => .inl (Option.some.inj h).symm
  · exact hstr PyValue.noConfusion
  · exact hstr PyValue.noConfusion
  · exact hstr PyValue.noConfusion
  · exact iff_of_true rfl fun v h => .inr (Option.some.inj h ▸ rfl)
  · exact hstr PyValue.noConfusion
  · exact hstr PyValue.noConfusion

theorem normalizeRecord_isSome {device : PyText} {record : PyDict} :
    (normalizeRecord host device record).isSome = true ↔ RecordPrints host device record := by
  simp only [normalizeRecord]
  constructor
  · intro h
    obtain ⟨certifiedAt, hcertified, h⟩ := isSome_bind_iff.mp h
    obtain ⟨openvino, hopenvino, h⟩ := isSome_bind_iff.mp h
    obtain ⟨driver, hdriver, h⟩ := isSome_bind_iff.mp h
    obtain ⟨requested, hrequested, h⟩ := isSome_bind_iff.mp h
    obtain ⟨actual, hactual, h⟩ := isSome_bind_iff.mp h
    obtain ⟨reference, hreference, h⟩ := isSome_bind_iff.mp h
    obtain ⟨sha, hsha, h⟩ := isSome_bind_iff.mp h
    obtain ⟨text, htext, -⟩ := Option.map_eq_some_iff.mp hsha
    refine {
      certifiedAt := textField_isSome.mp (isSome_of_eq hcertified)
      openvinoVersion := textField_isSome.mp (isSome_of_eq hopenvino)
      driverVersion := driverOf_isSome.mp (isSome_of_eq hdriver)
      requestedDevice := textField_isSome.mp (isSome_of_eq hrequested)
      actualDevice := textField_isSome.mp (isSome_of_eq hactual)
      reportReference := textField_isSome.mp (isSome_of_eq hreference)
      reportSha256 := wholeText_isSome.mp (isSome_of_eq htext)
      openvinoGenaiVersion := ?_ }
    rintro ⟨_, _, _, _, _, _, context, h₁, h₂, h₃, h₄, h₅, h₆, hcontext, hkept⟩
    obtain rfl := Option.some.inj (hcertified.symm.trans h₁)
    obtain rfl := Option.some.inj (hopenvino.symm.trans h₂)
    obtain rfl := Option.some.inj (hrequested.symm.trans h₃)
    obtain rfl := Option.some.inj (hactual.symm.trans h₄)
    obtain rfl := Option.some.inj (hreference.symm.trans h₅)
    obtain rfl := Option.some.inj (hsha.symm.trans h₆)
    rw [hcontext] at h
    dsimp only at h
    rw [if_neg hkept] at h
    obtain ⟨genai, hgenai, -⟩ := isSome_bind_iff.mp h
    exact textField_isSome.mp (isSome_of_eq hgenai)
  · intro h
    obtain ⟨certifiedAt, hcertified⟩ :=
      Option.isSome_iff_exists.mp (textField_isSome.mpr h.certifiedAt)
    obtain ⟨openvino, hopenvino⟩ :=
      Option.isSome_iff_exists.mp (textField_isSome.mpr h.openvinoVersion)
    obtain ⟨driver, hdriver⟩ := Option.isSome_iff_exists.mp (driverOf_isSome.mpr h.driverVersion)
    obtain ⟨requested, hrequested⟩ :=
      Option.isSome_iff_exists.mp (textField_isSome.mpr h.requestedDevice)
    obtain ⟨actual, hactual⟩ :=
      Option.isSome_iff_exists.mp (textField_isSome.mpr h.actualDevice)
    obtain ⟨reference, hreference⟩ :=
      Option.isSome_iff_exists.mp (textField_isSome.mpr h.reportReference)
    obtain ⟨text, htext⟩ := Option.isSome_iff_exists.mp (wholeText_isSome.mpr h.reportSha256)
    have hsha : (wholeText host (getField record "report_sha256")).map host.lower =
        some (host.lower text) := by rw [htext, Option.map_some]
    refine isSome_bind_iff.mpr ⟨_, hcertified, isSome_bind_iff.mpr ⟨_, hopenvino,
      isSome_bind_iff.mpr ⟨_, hdriver, isSome_bind_iff.mpr ⟨_, hrequested,
      isSome_bind_iff.mpr ⟨_, hactual, isSome_bind_iff.mpr ⟨_, hreference,
      isSome_bind_iff.mpr ⟨_, hsha, ?_⟩⟩⟩⟩⟩⟩⟩
    rcases hcontext : optionalNonnegativeInt host (getField record "max_tested_context") with
      - | context
    · rfl
    · dsimp only
      split_ifs with hleft
      · rfl
      · have hkept : Kept host device record :=
          ⟨_, _, _, _, _, _, _, hcertified, hopenvino, hrequested, hactual, hreference, hsha,
            hcontext, hleft⟩
        obtain ⟨genai, hgenai⟩ :=
          Option.isSome_iff_exists.mp (textField_isSome.mpr (h.openvinoGenaiVersion hkept))
        exact isSome_bind_iff.mpr ⟨_, hgenai, rfl⟩

theorem normalizeRecords_isSome {device : PyText} {records : List PyValue} :
    (normalizeRecords host device records).isSome = true ↔
      ∀ record, .dict record ∈ records → getField record "status" = some (.str (key "verified")) →
        RecordPrints host device record := by
  fun_induction normalizeRecords host device records with
  | case1 => exact iff_of_true rfl fun record h => absurd h List.not_mem_nil
  | case2 first records hstatus ih =>
    rw [isSome_bind_iff]
    constructor
    · rintro ⟨normalized, hfirst, h⟩ record hmem hverified
      obtain ⟨rest, hrest, -⟩ := isSome_bind_iff.mp h
      rcases List.mem_cons.mp hmem with heq | hmem
      · obtain rfl := PyValue.dict.inj heq
        exact normalizeRecord_isSome.mp (isSome_of_eq hfirst)
      · exact ih.mp (isSome_of_eq hrest) record hmem hverified
    · intro h
      obtain ⟨normalized, hfirst⟩ := Option.isSome_iff_exists.mp
        (normalizeRecord_isSome.mpr (h first List.mem_cons_self hstatus))
      obtain ⟨rest, hrest⟩ := Option.isSome_iff_exists.mp
        (ih.mpr fun record hmem => h record (List.mem_cons_of_mem _ hmem))
      exact ⟨normalized, hfirst, isSome_bind_iff.mpr ⟨rest, hrest, rfl⟩⟩
  | case3 first records status hstatus hother ih =>
    rw [ih]
    -- a record with another status is left out
    refine forall_congr' fun record => ⟨fun h hmem hverified => ?_, fun h hmem => ?_⟩
    · rcases List.mem_cons.mp hmem with heq | hmem
      · obtain rfl := PyValue.dict.inj heq
        exact absurd (PyValue.str.inj (Option.some.inj (hstatus.symm.trans hverified))) hother
      · exact h hmem hverified
    · exact h (List.mem_cons_of_mem _ hmem)
  | case4 first records hstatus ih =>
    rw [ih]
    refine forall_congr' fun record => ⟨fun h hmem hverified => ?_, fun h hmem => ?_⟩
    · rcases List.mem_cons.mp hmem with heq | hmem
      · obtain rfl := PyValue.dict.inj heq
        exact absurd hverified (hstatus _)
      · exact h hmem hverified
    · exact h (List.mem_cons_of_mem _ hmem)
  | case5 first records hdict ih =>
    rw [ih]
    refine forall_congr' fun record => ⟨fun h hmem hverified => ?_, fun h hmem => ?_⟩
    · rcases List.mem_cons.mp hmem with heq | hmem
      · exact absurd heq.symm (hdict _)
      · exact h hmem hverified
    · exact h (List.mem_cons_of_mem _ hmem)

theorem normalizeDevice_isSome {raw : Option PyValue} {device : String} :
    (normalizeDevice host raw device).isSome = true ↔ RecordsPrint host device raw := by
  unfold normalizeDevice
  split
  · next fields =>
    split
    · next records hrecords =>
      rw [Option.isSome_map, normalizeRecords_isSome]
      constructor
      · intro h fields' records' hfields hget record hmem hverified
        obtain rfl := PyValue.dict.inj (Option.some.inj hfields)
        obtain rfl := PyValue.list.inj (Option.some.inj (hrecords.symm.trans hget))
        exact h record hmem hverified
      · intro h
        exact h fields records rfl hrecords
    · next hother =>
      refine iff_of_true rfl fun fields' records hfields hget => ?_
      obtain rfl := PyValue.dict.inj (Option.some.inj hfields)
      exact absurd hget (hother records)
  · next hother =>
    exact iff_of_true rfl fun fields records hfields => absurd hfields (hother fields)

/-! ### Entries -/

theorem profileTexts_isSome {value : Option PyValue} :
    (profileTexts value).isSome = isIterable value := by
  rcases value with - | (- | b | n | x | t | items | fields) <;> rfl

theorem normalizeMetadata_isSome {metadata : PyDict} (definition : RegisterRequest) :
    (normalizeMetadata host metadata definition).isSome = true ↔ MetadataReads host metadata := by
  unfold normalizeMetadata normalizeCertifications
  constructor
  · intro h
    obtain ⟨profiles, hprofiles, h⟩ := isSome_bind_iff.mp h
    obtain ⟨certifications, hcertifications, h⟩ := isSome_bind_iff.mp h
    obtain ⟨license, hlicense, h⟩ := isSome_bind_iff.mp h
    obtain ⟨note, hnote, h⟩ := isSome_bind_iff.mp h
    obtain ⟨cpu, hcpu, hcertifications⟩ := Option.bind_eq_some_iff.mp hcertifications
    obtain ⟨gpu, hgpu, hcertifications⟩ := Option.bind_eq_some_iff.mp hcertifications
    obtain ⟨npu, hnpu, -⟩ := Option.bind_eq_some_iff.mp hcertifications
    exact {
      profiles := profileTexts_isSome.symm.trans (isSome_of_eq hprofiles)
      cpu := normalizeDevice_isSome.mp (isSome_of_eq hcpu)
      gpu := normalizeDevice_isSome.mp (isSome_of_eq hgpu)
      npu := normalizeDevice_isSome.mp (isSome_of_eq hnpu)
      license := textField_isSome.mp (isSome_of_eq hlicense)
      maintainerNote := textField_isSome.mp (isSome_of_eq hnote) }
  · intro h
    obtain ⟨profiles, hprofiles⟩ :=
      Option.isSome_iff_exists.mp (profileTexts_isSome.trans h.profiles)
    obtain ⟨cpu, hcpu⟩ := Option.isSome_iff_exists.mp (normalizeDevice_isSome.mpr h.cpu)
    obtain ⟨gpu, hgpu⟩ := Option.isSome_iff_exists.mp (normalizeDevice_isSome.mpr h.gpu)
    obtain ⟨npu, hnpu⟩ := Option.isSome_iff_exists.mp (normalizeDevice_isSome.mpr h.npu)
    obtain ⟨license, hlicense⟩ := Option.isSome_iff_exists.mp (textField_isSome.mpr h.license)
    obtain ⟨note, hnote⟩ := Option.isSome_iff_exists.mp (textField_isSome.mpr h.maintainerNote)
    exact isSome_bind_iff.mpr ⟨_, hprofiles, isSome_bind_iff.mpr ⟨⟨cpu, gpu, npu⟩,
      Option.bind_eq_some_iff.mpr ⟨_, hcpu, Option.bind_eq_some_iff.mpr ⟨_, hgpu,
        Option.bind_eq_some_iff.mpr ⟨_, hnpu, rfl⟩⟩⟩,
      isSome_bind_iff.mpr ⟨_, hlicense, isSome_bind_iff.mpr ⟨_, hnote, rfl⟩⟩⟩⟩

/-- What `orUncaught` raises. -/
theorem orUncaught_ne_uncaught {α : Type} {x : Option α} :
    orUncaught x ≠ .error .uncaught ↔ x.isSome = true := by
  cases x with
  | none =>
    refine iff_of_false (fun h => h rfl) fun h => ?_
    cases h
  | some a =>
    refine iff_of_true (fun h => ?_) rfl
    cases h

/-- An entry is refused, or its metadata are normalised. -/
theorem normalizeEntry_cases (name : PyText) (raw : PyValue) :
    ((∀ fields, ¬EntryAccepted host name raw fields) ∧
      ∃ reason, normalizeEntry host name raw = .error (.rejected reason)) ∨
    ∃ fields modelId request, EntryAccepted host name raw fields ∧
      normalizeEntry host name raw =
        (orUncaught (normalizeMetadata host (metadataOf fields) request)).map fun metadata =>
          (modelId, ⟨{ request with trustRemoteCode := false }, metadata⟩) := by
  unfold normalizeEntry
  rcases hname : modelIdOf name with - | modelId
  · refine .inl ⟨fun fields h => ?_, _, rfl⟩
    have := h.1
    rw [hname] at this
    cases this
  · dsimp only
    split
    · next raw =>
      split
      · next definition hdefinition =>
        split
        · next hinvalid =>
          refine .inl ⟨fun fields h => ?_, _, rfl⟩
          obtain ⟨-, hraw, definition', hdefinition', hvalid⟩ := h
          obtain rfl := PyValue.dict.inj hraw
          obtain rfl := PyValue.dict.inj (Option.some.inj (hdefinition.symm.trans hdefinition'))
          rw [hinvalid] at hvalid
          cases hvalid
        · next request hvalid =>
          exact .inr ⟨raw, modelId, request,
            ⟨isSome_of_eq hname, rfl, definition, hdefinition, isSome_of_eq hvalid⟩, rfl⟩
      · next hother =>
        refine .inl ⟨fun fields h => ?_, _, rfl⟩
        obtain ⟨-, hraw, definition, hdefinition, -⟩ := h
        obtain rfl := PyValue.dict.inj hraw
        exact hother definition hdefinition
    · next hother =>
      refine .inl ⟨fun fields h => ?_, _, rfl⟩
      exact hother fields h.2.1

theorem EntryAccepted.unique {name : PyText} {raw : PyValue} {fields fields' : PyDict}
    (h : EntryAccepted host name raw fields) (h' : EntryAccepted host name raw fields') :
    fields = fields' := PyValue.dict.inj (h.2.1.symm.trans h'.2.1)

theorem normalizeEntries_ne_uncaught {entries : PyDict} {start : Dict Str Entry} :
    normalizeEntries host start entries ≠ .error .uncaught ↔ EntriesRead host entries := by
  induction entries generalizing start with
  | nil =>
    refine iff_of_true (fun h => ?_) trivial
    cases h
  | cons entry entries ih =>
    obtain ⟨name, raw⟩ := entry
    rw [normalizeEntries]
    rcases normalizeEntry_cases name raw with ⟨hrefused, reason, hentry⟩ |
        ⟨fields, modelId, request, haccepted, hentry⟩
    · rw [hentry]
      refine iff_of_true (fun h => ?_) fun fields h => absurd h (hrefused fields)
      cases h
    · rw [hentry]
      have hread : EntriesRead host ((name, raw) :: entries) ↔
          MetadataReads host (metadataOf fields) ∧ EntriesRead host entries :=
        ⟨fun h => h fields haccepted, fun h fields' h' => haccepted.unique h' ▸ h⟩
      rw [hread, ← normalizeMetadata_isSome request]
      rcases hmetadata : normalizeMetadata host (metadataOf fields) request with - | metadata
      · refine iff_of_false (fun h => h rfl) fun h => ?_
        cases h.1
      · exact ih.trans ⟨fun h => ⟨rfl, h⟩, And.right⟩

/-- The loop over a catalog that is read ends with all entries accepted. -/
theorem normalizeEntries_accepted {entries : PyDict} {start catalog : Dict Str Entry}
    (h : normalizeEntries host start entries = .ok catalog) : EntriesAccepted host entries := by
  induction entries generalizing start with
  | nil => exact fun entry hentry => absurd hentry List.not_mem_nil
  | cons entry entries ih =>
    obtain ⟨name, raw⟩ := entry
    obtain ⟨⟨modelId, found⟩, hfirst, h⟩ := bind_eq_ok.mp h
    refine List.forall_mem_cons.mpr ⟨?_, ih h⟩
    rcases normalizeEntry_cases name raw with ⟨-, reason, hentry⟩ |
        ⟨fields, modelId, request, haccepted, -⟩
    · cases hentry.symm.trans hfirst
    · exact ⟨fields, haccepted⟩

theorem normalizeEntries_of_accepted {entries : PyDict} {start : Dict Str Entry}
    (hread : EntriesRead host entries) (haccepted : EntriesAccepted host entries) :
    ∃ catalog, normalizeEntries host start entries = .ok catalog := by
  induction entries generalizing start with
  | nil => exact ⟨start, rfl⟩
  | cons entry entries ih =>
    obtain ⟨name, raw⟩ := entry
    obtain ⟨⟨fields, hfirst⟩, hrest⟩ := List.forall_mem_cons.mp haccepted
    obtain ⟨hmetadata, hentries⟩ := hread fields hfirst
    rcases normalizeEntry_cases name raw with ⟨hrefused, -⟩ |
        ⟨fields', modelId, request, haccepted, hentry⟩
    · exact absurd hfirst (hrefused fields)
    · obtain rfl := hfirst.unique haccepted
      obtain ⟨metadata, hsome⟩ := Option.isSome_iff_exists.mp
        ((normalizeMetadata_isSome request).mpr hmetadata)
      rw [hsome] at hentry
      obtain ⟨catalog, hcatalog⟩ := ih hentries hrest
      exact ⟨catalog, bind_eq_ok.mpr ⟨_, hentry, hcatalog⟩⟩

/-! ### The document -/

/-- The two texts of the document, after a catalog that was normalised. -/
theorem documentTexts_ne_uncaught (hlaw : host.Lawful) {fields : PyDict} {catalog : Dict Str Entry}
    (hplain : ∀ item ∈ catalog.items, item.2.metadata.Plain) :
    (do
      let generatedAt ← orUncaught (textField host (getField fields "generated_at") (key "") 40)
      let source ← orUncaught (textField host (getField fields "source") (key "") 200)
      let catalogSha256 ← orUncaught (catalogChecksum host (catalogDocument catalog))
      .ok { generatedAt, source, catalog, catalogSha256 } : Except Failure LibraryManifest) ≠
        .error .uncaught ↔
      Prints host (getField fields "generated_at") ∧ Prints host (getField fields "source") := by
  have hgenerated : (textField host (getField fields "generated_at") (key "") 40).isSome = true ↔
      Prints host (getField fields "generated_at") := textField_isSome
  have hsource : (textField host (getField fields "source") (key "") 200).isSome = true ↔
      Prints host (getField fields "source") := textField_isSome
  rw [catalogChecksum_document hlaw hplain, ← hgenerated, ← hsource]
  rcases textField host (getField fields "generated_at") (key "") 40 with - | generatedAt
  · refine iff_of_false (fun h => h rfl) fun h => ?_
    cases h.1
  · rcases textField host (getField fields "source") (key "") 200 with - | source
    · refine iff_of_false (fun h => h rfl) fun h => ?_
      cases h.2
    · refine iff_of_true (fun h => ?_) ⟨rfl, rfl⟩
      cases h

/-- The catalog, once the text of its checksum is well formed. -/
theorem catalog_ne_uncaught (hlaw : host.Lawful) {fields catalog : PyDict} {expected : PyText} :
    (do
      let actual ← orUncaught (catalogChecksum host catalog)
      if actual ≠ expected then .error (.rejected .checksum)
      else
        let normalized ← normalizeEntries host Dict.empty catalog
        let generatedAt ← orUncaught (textField host (getField fields "generated_at") (key "") 40)
        let source ← orUncaught (textField host (getField fields "source") (key "") 200)
        let catalogSha256 ← orUncaught (catalogChecksum host (catalogDocument normalized))
        .ok { generatedAt, source, catalog := normalized, catalogSha256 } :
      Except Failure LibraryManifest) ≠ .error .uncaught ↔
      CatalogReads host fields catalog expected := by
  have hrejected {reason : Rejection} :
      (.error (.rejected reason) : Except Failure LibraryManifest) ≠ .error .uncaught := by
    intro h
    cases h
  by_cases hsafe : ((PyValue.dict catalog).plain && host.shallow (.dict catalog)) = true
  · have hchecksum : catalogChecksum host catalog = some (host.digest (.dict catalog)) :=
      if_pos hsafe
    obtain ⟨hplain, hshallow⟩ := Bool.and_eq_true_iff.mp hsafe
    rw [hchecksum]
    show (if host.digest (.dict catalog) ≠ expected then _ else _) ≠ _ ↔ _
    by_cases hdigest : host.digest (.dict catalog) = expected
    · rw [if_neg (not_not.mpr hdigest)]
      have hread : normalizeEntries host Dict.empty catalog ≠ .error .uncaught ↔
          EntriesRead host catalog := normalizeEntries_ne_uncaught
      rcases hentries : normalizeEntries host Dict.empty catalog with (reason | -) | normalized
      · -- an entry is refused
        rw [hentries] at hread
        have hentriesRead : EntriesRead host catalog := hread.mp fun h => by cases h
        have hrefused : ¬EntriesAccepted host catalog := by
          intro haccepted
          obtain ⟨normalized, hok⟩ : ∃ normalized,
              normalizeEntries host Dict.empty catalog = .ok normalized :=
            normalizeEntries_of_accepted hentriesRead haccepted
          cases hentries.symm.trans hok
        exact iff_of_true hrejected ⟨hplain, hshallow, fun _ => hentriesRead,
          fun _ haccepted => absurd haccepted hrefused,
          fun _ haccepted => absurd haccepted hrefused⟩
      · refine iff_of_false (fun h => h rfl) fun h => ?_
        exact hread.mpr (h.entries hdigest) hentries
      · rw [hentries] at hread
        have hentriesRead : EntriesRead host catalog := hread.mp fun h => by cases h
        have haccepted := normalizeEntries_accepted hentries
        have hnormalized := normalizeEntries_plain hlaw hplain
          (fun item hitem => absurd hitem List.not_mem_nil) hentries
        refine (documentTexts_ne_uncaught hlaw hnormalized).trans ?_
        constructor
        · rintro ⟨hgenerated, hsource⟩
          exact ⟨hplain, hshallow, fun _ => hentriesRead, fun _ _ => hgenerated,
            fun _ _ => hsource⟩
        · intro h
          exact ⟨h.generatedAt hdigest haccepted, h.source hdigest haccepted⟩
    · rw [if_pos hdigest]
      exact iff_of_true hrejected ⟨hplain, hshallow, fun h => absurd h hdigest,
        fun h => absurd h hdigest, fun h => absurd h hdigest⟩
  · have hchecksum : catalogChecksum host catalog = none := if_neg hsafe
    rw [hchecksum]
    refine iff_of_false (fun h => h rfl) fun h => ?_
    exact hsafe (Bool.and_eq_true_iff.mpr ⟨h.plain, h.shallow⟩)

theorem validateManifestDocument_ne_uncaught (hlaw : host.Lawful) (document : PyValue) :
    validateManifestDocument host document ≠ .error .uncaught ↔ ManifestReads host document := by
  have hrejected {reason : Rejection} :
      (.error (.rejected reason) : Except Failure LibraryManifest) ≠ .error .uncaught := by
    intro h
    cases h
  rcases document with - | b | n | x | t | items | fields
  iterate 6 exact iff_of_true hrejected fun fields catalog h => by cases h
  simp only [validateManifestDocument]
  by_cases hschema : (getField fields "schema_version").any PyValue.isOne = false
  · rw [if_pos hschema]
    refine iff_of_true hrejected fun fields' catalog hfields hone => ?_
    obtain rfl := PyValue.dict.inj hfields
    exact absurd (hschema.symm.trans hone) Bool.false_ne_true
  rw [if_neg hschema]
  split
  · next catalog hcatalog =>
    by_cases hcount : catalog = [] ∨ maxImportedDefinitions < catalog.length
    · rw [if_pos hcount]
      refine iff_of_true hrejected fun fields' catalog' hfields _ hcatalog' hne hlength => ?_
      obtain rfl := PyValue.dict.inj hfields
      obtain rfl := PyValue.dict.inj (Option.some.inj (hcatalog.symm.trans hcatalog'))
      exact absurd hcount (not_or.mpr ⟨hne, not_lt.mpr hlength⟩)
    · rw [if_neg hcount]
      obtain ⟨hne, hlength⟩ := not_or.mp hcount
      -- the catalog is read from here on
      have hreads : ManifestReads host (.dict fields) ↔
          Prints host (getField fields "catalog_sha256") ∧
            ∀ text, wholeText host (getField fields "catalog_sha256") = some text →
              isSha256 (host.lower text) = true →
                CatalogReads host fields catalog (host.lower text) := by
        constructor
        · intro h
          have hone := Bool.not_eq_false _ ▸ hschema
          exact h fields catalog rfl hone hcatalog hne (not_lt.mp hlength)
        · intro h fields' catalog' hfields _ hcatalog' _ _
          obtain rfl := PyValue.dict.inj hfields
          obtain rfl := PyValue.dict.inj (Option.some.inj (hcatalog.symm.trans hcatalog'))
          exact h
      rw [hreads, ← wholeText_isSome]
      rcases htext : wholeText host (getField fields "catalog_sha256") with - | text
      · refine iff_of_false (fun h => h rfl) fun h => ?_
        cases h.1
      show (if isSha256 (host.lower text) = false then _ else _) ≠ _ ↔ _
      by_cases hsha : isSha256 (host.lower text) = false
      · rw [if_pos hsha]
        refine iff_of_true hrejected ⟨rfl, fun text' htext' hsha' => ?_⟩
        obtain rfl := Option.some.inj htext'
        exact absurd (hsha.symm.trans hsha') Bool.false_ne_true
      rw [if_neg hsha]
      refine (catalog_ne_uncaught hlaw).trans
        ⟨fun h => ⟨rfl, fun text' htext' _ => ?_⟩, fun h => ?_⟩
      · obtain rfl := Option.some.inj htext'
        exact h
      · exact h.2 text rfl (Bool.not_eq_false _ ▸ hsha)
  · next hother =>
    refine iff_of_true hrejected fun fields' catalog hfields _ hcatalog => ?_
    obtain rfl := PyValue.dict.inj hfields
    exact absurd hcatalog (hother catalog)

theorem parseManifestBytes_ne_uncaught (hlaw : host.Lawful) (payload : β) :
    parseManifestBytes host payload ≠ .error .uncaught ↔ Reads host payload := by
  unfold parseManifestBytes Reads
  by_cases hsize : maxManifestBytes < host.size payload
  · rw [if_pos hsize]
    refine iff_of_true (fun h => ?_) fun h => absurd hsize (not_lt.mpr h)
    cases h
  · rw [if_neg hsize]
    rcases hloads : host.loads payload with (- | -) | document
    · refine iff_of_true (fun h => ?_) fun _ => ⟨fun h => ?_, fun document h => ?_⟩
      · cases h
      · cases h
      · cases h
    · refine iff_of_false (fun h => h rfl) fun h => ?_
      exact (h (not_lt.mp hsize)).1 rfl
    · refine (validateManifestDocument_ne_uncaught hlaw document).trans ⟨fun h _ => ⟨?_, ?_⟩, ?_⟩
      · intro h
        cases h
      · intro document' hdocument
        exact Except.ok.inj hdocument ▸ h
      · intro h
        exact (h (not_lt.mp hsize)).2 document rfl

/-- **A payload gives a normalised manifest or is rejected, and as the cache it leaves the library
with a manifest whatever is bundled, exactly if everything that is read unguarded can be read.** -/
theorem parse_iff (hlaw : host.Lawful) (payload : β) :
    (((∃ m, parseManifestBytes host payload = .ok m ∧ m.Normal host) ∨
        ∃ reason, parseManifestBytes host payload = .error (.rejected reason)) ∧
      ∀ bundled : Option β, (∀ file, bundled = some file → Reads host file) →
        (readManifest host (some payload) bundled).isSome = true) ↔
      Reads host payload := by
  rw [← parseManifestBytes_ne_uncaught hlaw payload]
  constructor
  · rintro ⟨hok | hrejected, -⟩ huncaught
    · obtain ⟨m, hm, -⟩ := hok
      cases hm.symm.trans huncaught
    · obtain ⟨reason, hreason⟩ := hrejected
      cases hreason.symm.trans huncaught
  · intro hne
    rcases hparse : parseManifestBytes host payload with (reason | -) | m
    · refine ⟨.inr ⟨reason, rfl⟩, fun bundled hbundled => ?_⟩
      -- the cache is passed over
      rcases bundled with - | file
      · simp only [readManifest, Option.map_some, Option.map_none, hparse, Option.isSome_some]
      · have hfile := (parseManifestBytes_ne_uncaught hlaw file).mpr (hbundled file rfl)
        rcases hbundle : parseManifestBytes host file with (reason' | -) | m
        · simp only [readManifest, Option.map_some, hparse, hbundle, Option.isSome_some]
        · exact absurd hbundle hfile
        · simp only [readManifest, Option.map_some, hparse, hbundle, Option.isSome_some]
    · exact absurd hparse hne
    · refine ⟨.inl ⟨m, rfl, parseManifestBytes_normal hlaw hparse⟩, fun bundled _ => ?_⟩
      simp only [readManifest, Option.map_some, hparse, Option.isSome_some]

end

/-! ### Files -/

/-- A file with a manifest: as it was sent, or as the cache is written. -/
inductive ManifestFile where
  | sent (document : PyValue)
  | cached (document : PyValue)

/-- How a document is laid out: the bytes of a character, of a line break and of a colon. -/
structure Layout where
  bytes : CodePoint → Nat
  newline : Nat → Nat
  colon : Nat

/-- Characters with an escape of two bytes. -/
def hasShortEscape (c : CodePoint) : Bool := c.val ∈ [8, 9, 10, 12, 13, 34, 92]

/-- `separators=(",", ":"), ensure_ascii=False` in UTF-8 -/
def sentLayout : Layout where
  bytes c :=
    if hasShortEscape c then 2 else if c.val < 0x20 then 6 else if c.val < 0x80 then 1
    else if c.val < 0x800 then 2 else if c.val < 0x10000 then 3 else 4
  newline _ := 0
  colon := 1

/-- `indent=2` -/
def cacheLayout : Layout where
  bytes c :=
    if hasShortEscape c then 2 else if 0x20 ≤ c.val ∧ c.val < 0x7F then 1
    else if c.val < 0x10000 then 6 else 12
  newline level := 1 + 2 * level
  colon := 2

def Layout.text (l : Layout) (t : PyText) : Nat := 2 + (t.points.map l.bytes).sum

mutual

/-- The bytes of the pieces of a document; a float counts as `0.0`. -/
def pieces (l : Layout) (level : Nat) : PyValue → List Nat
  | .none => [4]
  | .bool b => [if b then 4 else 5]
  | .int n => [(Nat.toDigits 10 n.natAbs).length + if n < 0 then 1 else 0]
  | .float _ => [3]
  | .str t => [l.text t]
  | .list [] => [2]
  | .list (item :: items) =>
    (1 + l.newline (level + 1)) :: (pieces l (level + 1) item ++ itemPieces l (level + 1) items ++
      [l.newline level + 1])
  | .dict [] => [2]
  | .dict ((name, value) :: fields) =>
    (1 + l.newline (level + 1)) :: l.text name :: l.colon :: (pieces l (level + 1) value ++
      fieldPieces l (level + 1) fields ++ [l.newline level + 1])

def itemPieces (l : Layout) (level : Nat) : List PyValue → List Nat
  | [] => []
  | item :: items => (1 + l.newline level) :: (pieces l level item ++ itemPieces l level items)

def fieldPieces (l : Layout) (level : Nat) : List (PyText × PyValue) → List Nat
  | [] => []
  | (name, value) :: fields =>
    (1 + l.newline level) :: l.text name :: l.colon :: (pieces l level value ++
      fieldPieces l level fields)

end

def ManifestFile.size : ManifestFile → Nat
  | .sent document => (pieces sentLayout 0 document).sum
  | .cached document => (pieces cacheLayout 0 document).sum + 1

def ManifestFile.document : ManifestFile → PyValue
  | .sent document => document
  | .cached document => document

def textOf : Option PyValue → Option Str
  | some (.str t) => t.chars
  | _ => none

def numberOf : Option PyValue → Option Int
  | some (.int n) => some n
  | _ => none

def flagOf : Option PyValue → Option Bool
  | some (.bool b) => some b
  | none => some false
  | _ => none

/-- Every field of a definition, with its declared type. -/
def coerceTyped (fields : PyDict) : Option RegisterRequest := do
  let modelId ← textOf (getField fields "model_id")
  let name ← textOf (getField fields "name")
  let sourceModel ← textOf (getField fields "source_model")
  let backend ← (textOf (getField fields "backend")).bind Backend.ofText
  let weightFormat ← (textOf (getField fields "weight_format")).bind WeightFormat.ofText
  let recommendedDevice ← textOf (getField fields "recommended_device")
  let maxContextLen ← numberOf (getField fields "max_context_len")
  let maxOutputTokens ← numberOf (getField fields "max_output_tokens")
  let trustRemoteCode ← flagOf (getField fields "trust_remote_code")
  some
    { modelId, name, sourceModel, backend, weightFormat, recommendedDevice, maxContextLen,
      maxOutputTokens, description := textOf (getField fields "description"), trustRemoteCode }

/-- A library for manifests whose catalog has this digest. -/
def fileHost (digest : PyText) : Host ManifestFile where
  size := ManifestFile.size
  loads file := .ok file.document
  cacheFile := .cached
  shallow _ := true
  digest _ := digest
  str _ := some (key "None")
  lower t := t
  floatOfInt n := some (.finite n false)
  floatOfText _ := none
  intOfText _ := none
  coerce := coerceTyped

theorem coerceTyped_definitionFields (request : RegisterRequest) :
    coerceTyped (definitionFields request) = some request := by
  obtain ⟨modelId, name, source, backend, format, device, context, output, description, trust⟩ :=
    request
  have htext (s : Str) : textOf (some (.str (.ofStr s))) = some s := PyText.chars_ofStr s
  have hbackend : (textOf (some (.str (.ofStr backend.text)))).bind Backend.ofText =
      some backend := by
    rw [htext]
    cases backend <;> rfl
  have hformat : (textOf (some (.str (.ofStr format.text)))).bind WeightFormat.ofText =
      some format := by
    rw [htext]
    cases format <;> rfl
  have hdescription : textOf (some (ofOptionalText (description.map .ofStr))) = description := by
    cases description with
    | none => rfl
    | some description => exact htext description
  refine Option.bind_eq_some_iff.mpr ⟨_, htext modelId, ?_⟩
  refine Option.bind_eq_some_iff.mpr ⟨_, htext name, ?_⟩
  refine Option.bind_eq_some_iff.mpr ⟨_, htext source, ?_⟩
  refine Option.bind_eq_some_iff.mpr ⟨_, hbackend, ?_⟩
  refine Option.bind_eq_some_iff.mpr ⟨_, hformat, ?_⟩
  refine Option.bind_eq_some_iff.mpr ⟨_, htext device, ?_⟩
  refine Option.bind_eq_some_iff.mpr ⟨context, rfl, ?_⟩
  refine Option.bind_eq_some_iff.mpr ⟨output, rfl, ?_⟩
  refine Option.bind_eq_some_iff.mpr ⟨trust, rfl, ?_⟩
  congr 2

theorem lawful_fileHost {digest : PyText} (h : isSha256 digest = true) :
    (fileHost digest).Lawful where
  digest_hex _ := h
  lower_hex _ _ := rfl
  str_ne value t ht := by
    obtain rfl := Option.some.inj ht
    decide
  str_plain value t ht := by
    obtain rfl := Option.some.inj ht
    exact plain_key "None"
  coerce_id fields request t hget hcoerce := by
    obtain ⟨modelId, hid, hcoerce⟩ := Option.bind_eq_some_iff.mp hcoerce
    obtain ⟨name, -, hcoerce⟩ := Option.bind_eq_some_iff.mp hcoerce
    obtain ⟨source, -, hcoerce⟩ := Option.bind_eq_some_iff.mp hcoerce
    obtain ⟨backend, -, hcoerce⟩ := Option.bind_eq_some_iff.mp hcoerce
    obtain ⟨format, -, hcoerce⟩ := Option.bind_eq_some_iff.mp hcoerce
    obtain ⟨device, -, hcoerce⟩ := Option.bind_eq_some_iff.mp hcoerce
    obtain ⟨context, -, hcoerce⟩ := Option.bind_eq_some_iff.mp hcoerce
    obtain ⟨output, -, hcoerce⟩ := Option.bind_eq_some_iff.mp hcoerce
    obtain ⟨trust, -, hcoerce⟩ := Option.bind_eq_some_iff.mp hcoerce
    obtain rfl := Option.some.inj hcoerce
    rw [hget] at hid
    exact hid
  coerce_fields := coerceTyped_definitionFields
  shallow_catalog _ := rfl
  loads_cacheFile _ _ := rfl

/-! ### Profiles that are null -/

def smallRequest : RegisterRequest where
  modelId := "m".toList
  name := "M".toList
  sourceModel := "s".toList

/-- An entry with these metadata. -/
def oneEntry (metadata : PyDict) : PyDict :=
  [(key "definition", .dict (definitionFields smallRequest)), (key "metadata", .dict metadata)]

/-- A manifest with one model and this checksum. -/
def oneModel (metadata : PyDict) (checksum : PyText) : PyDict :=
  [(key "schema_version", .int 1), (key "catalog", .dict [(key "m", .dict (oneEntry metadata))]),
    (key "catalog_sha256", .str checksum)]

theorem validate_smallRequest : smallRequest.validate = some smallRequest := by
  decide +kernel

theorem accepted_oneEntry (digest : PyText) (metadata : PyDict) :
    EntryAccepted (fileHost digest) (key "m") (.dict (oneEntry metadata)) (oneEntry metadata) := by
  refine ⟨rfl, rfl, definitionFields smallRequest, rfl, ?_⟩
  have hset : setField (key "model_id") (.str (key "m")) (definitionFields smallRequest) =
      definitionFields smallRequest := if_pos rfl
  have hcoerce : (fileHost digest).coerce (definitionFields smallRequest) = some smallRequest :=
    coerceTyped_definitionFields smallRequest
  rw [hset, hcoerce]
  exact isSome_of_eq validate_smallRequest

/-- The digest of the catalog whose profiles are null. -/
def nullDigest : PyText :=
  key "eadd9a8accf2c0d3d4598beb913ad79edb67b7ea643211de98435cc01b514dd2"

/-- `"profiles": null` -/
def nullProfiles : ManifestFile := .sent (.dict (oneModel [(key "profiles", .none)] nullDigest))

theorem isSha256_nullDigest : isSha256 nullDigest = true := by decide

theorem lawful_nullDigest : (fileHost nullDigest).Lawful := lawful_fileHost isSha256_nullDigest

theorem not_reads_nullProfiles : ¬Reads (fileHost nullDigest) nullProfiles := by
  intro h
  have hsize : nullProfiles.size ≤ maxManifestBytes := by decide +kernel
  obtain ⟨-, hdocument⟩ := h hsize
  obtain ⟨-, hcatalog⟩ := hdocument _ rfl _ _ rfl rfl rfl (List.cons_ne_nil _ _) (by decide)
  have htext : wholeText (fileHost nullDigest)
      (getField (oneModel [(key "profiles", .none)] nullDigest) "catalog_sha256") =
        some nullDigest := wholeText_str nullDigest
  have hentries := (hcatalog nullDigest htext isSha256_nullDigest).entries rfl
  have hmetadata := (hentries _ (accepted_oneEntry _ _)).1
  cases hmetadata.profiles

/-- The loop over the profiles raises a `TypeError`, and the library has no manifest. -/
theorem nullProfiles_uncaught : (fileHost nullDigest).Lawful ∧
    ¬((∃ m, parseManifestBytes (fileHost nullDigest) nullProfiles = .ok m) ∨
      ∃ reason, parseManifestBytes (fileHost nullDigest) nullProfiles =
        .error (.rejected reason)) ∧
    readManifest (fileHost nullDigest) (some nullProfiles) none = none := by
  have huncaught : parseManifestBytes (fileHost nullDigest) nullProfiles = .error .uncaught := by
    by_contra hne
    exact not_reads_nullProfiles ((parseManifestBytes_ne_uncaught lawful_nullDigest _).mp hne)
  refine ⟨lawful_nullDigest, ?_, ?_⟩
  · rw [huncaught]
    rintro (⟨m, h⟩ | ⟨reason, h⟩)
    · cases h
    · cases h
  · simp only [readManifest, Option.map_some, huncaught]

/-- A file that holds `null`. -/
theorem parse_iff_null :
    ((∃ m, parseManifestBytes (fileHost nullDigest) (.sent .none) = .ok m ∧
        m.Normal (fileHost nullDigest)) ∨
      ∃ reason, parseManifestBytes (fileHost nullDigest) (.sent .none) =
        .error (.rejected reason)) ∧
      ∀ bundled : Option ManifestFile,
        (∀ file, bundled = some file → Reads (fileHost nullDigest) file) →
          (readManifest (fileHost nullDigest) (some (.sent .none)) bundled).isSome = true := by
  apply (parse_iff lawful_nullDigest (.sent .none)).mpr
  refine fun _ => ⟨fun h => ?_, fun document hdocument fields catalog hfields => ?_⟩
  · cases h
  · cases Except.ok.inj hdocument
    cases hfields

end InferBridge.ModelLibrarySchema
