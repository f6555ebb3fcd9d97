/-
InferBridge/ManifestCache.lean

The cache of the model library (`refresh_official` and `_read_manifest` of
app/model_library_service.py): what `parse_manifest_bytes` makes of the file
that is written for its own result.

Design.  On the document of a normal record every coercion succeeds, with
this record (`normalizeRecord_fields`, `Metadata.Normal.again`,
`Entry.Normal.again`); the library is asked only for what it promises
(`Host.Lawful`).

Main result.  The cache of an accepted manifest is read as this manifest
exactly if it is no larger than a download may be
(`cached_iff`): it is indented and escapes what is not ASCII, and the
description of a model has no limit of its own.
-/
import InferBridge.ManifestRejection

namespace InferBridge.ModelLibrarySchema

open Accepted

section
variable {β : Type*} {host : Host β}

/-! ### Certifications -/

theorem isSha256_ne {t : PyText} (h : isSha256 t = true) : t ≠ key "" := by
  rintro rfl
  exact absurd h (by decide)

/-- The three measurements are found, or left out, as they were written. -/
theorem getField_measurements (c : Certification) :
    getField c.fields "load_time_ms" = c.loadTimeMs.map .float ∧
      getField c.fields "tokens_sec" = c.tokensSec.map .float ∧
      getField c.fields "time_to_first_token_ms" = c.timeToFirstTokenMs.map .float := by
  obtain ⟨_, _, _, _, _, _, _, _, _, load, tokens, first⟩ := c
  cases load <;> cases tokens <;> cases first <;> exact ⟨rfl, rfl, rfl⟩

theorem optionalNonnegativeFloat_map {x : Option PyFloat}
    (h : ∀ y, x = some y → optionalNonnegativeFloat host (some (.float y)) = some y) :
    optionalNonnegativeFloat host (x.map .float) = x := by
  cases x with
  | none => rfl
  | some y => exact h y rfl

theorem normalizeRecord_fields {device : PyText} {c : Certification} (h : c.Normal host device) :
    normalizeRecord host device c.fields = some (some c) := by
  obtain ⟨hload, htokens, hfirst⟩ := getField_measurements c
  have hsha : (wholeText host (some (.str c.reportSha256))).map host.lower =
      some c.reportSha256 := by
    rw [wholeText_str, Option.map_some, h.reportSha256.1]
  have hcontext : optionalNonnegativeInt host (getField c.fields "max_tested_context") =
      some c.maxTestedContext := congrArg some (max_eq_left h.maxTestedContext.le)
  have hreport : getField c.fields "report_sha256" = some (.str c.reportSha256) := rfl
  simp only [normalizeRecord]
  refine Option.bind_eq_some_iff.mpr ⟨_, h.certifiedAt.1, ?_⟩
  refine Option.bind_eq_some_iff.mpr ⟨_, h.openvinoVersion.1, ?_⟩
  refine Option.bind_eq_some_iff.mpr ⟨_, h.driverVersion, ?_⟩
  refine Option.bind_eq_some_iff.mpr ⟨_, h.requestedDevice.1, ?_⟩
  refine Option.bind_eq_some_iff.mpr ⟨_, h.actualDevice.1, ?_⟩
  refine Option.bind_eq_some_iff.mpr ⟨_, h.reportReference.1, ?_⟩
  refine Option.bind_eq_some_iff.mpr ⟨c.reportSha256, ?_, ?_⟩
  · rw [hreport]
    exact hsha
  · rw [hcontext]
    dsimp only
    rw [if_neg]
    · refine Option.bind_eq_some_iff.mpr ⟨_, h.openvinoGenaiVersion, ?_⟩
      rw [hload, htokens, hfirst, optionalNonnegativeFloat_map h.loadTimeMs,
        optionalNonnegativeFloat_map h.tokensSec, optionalNonnegativeFloat_map h.timeToFirstTokenMs]
    · simp only [not_or, not_not, not_le]
      exact ⟨h.certifiedAt.2, h.openvinoVersion.2, h.requestedDevice.2, h.actualDevice.2,
        h.reportReference.2, Bool.not_eq_false _ ▸ h.reportSha256.2, h.maxTestedContext⟩

theorem normalizeRecords_documents {device : PyText} {records : List Certification}
    (h : ∀ c ∈ records, c.Normal host device) :
    normalizeRecords host device (records.map fun record => .dict record.fields) =
      some records := by
  induction records with
  | nil => rfl
  | cons c rest ih =>
    obtain ⟨hfirst, hrest⟩ := List.forall_mem_cons.mp h
    have hstatus : getField c.fields "status" = some (.str (key "verified")) := rfl
    rw [List.map_cons]
    simp only [normalizeRecords, hstatus, ↓reduceIte, normalizeRecord_fields hfirst]
    exact Option.bind_eq_some_iff.mpr ⟨_, rfl, Option.bind_eq_some_iff.mpr ⟨_, ih hrest, rfl⟩⟩

theorem normalizeDevice_document {context : Int} {device : String} {records : List Certification}
    (h : RecordsNormal host context (key device) records) {fields : PyDict}
    (hget : getField fields device = some (recordsDocument records)) :
    normalizeDevice host (some (.dict fields)) device = some records := by
  have hlength : (records.map fun record => PyValue.dict record.fields).length ≤ 20 := by
    rw [List.length_map]
    exact h.length
  simp only [normalizeDevice, hget, recordsDocument]
  rw [List.take_of_length_le hlength, normalizeRecords_documents h.normal]
  show some (records.mergeSort certifiedBefore) = _
  rw [List.mergeSort_of_pairwise h.sorted]

theorem capRecords_eq {context : Int} {records : List Certification}
    (h : ∀ c ∈ records, c.maxTestedContext ≤ context) : capRecords context records = records := by
  refine (List.map_congr_left fun c hc => ?_).trans (List.map_id _)
  rw [min_eq_left (h c hc)]
  rfl

theorem DeviceRecords.Normal.again {context : Int} {records : DeviceRecords}
    (h : records.Normal host context) :
    normalizeCertifications host (some (.dict records.fields)) = some records ∧
      records.capped context = records := by
  constructor
  · refine Option.bind_eq_some_iff.mpr ⟨_, normalizeDevice_document h.cpu rfl, ?_⟩
    refine Option.bind_eq_some_iff.mpr ⟨_, normalizeDevice_document h.gpu rfl, ?_⟩
    exact Option.bind_eq_some_iff.mpr ⟨_, normalizeDevice_document h.npu rfl, rfl⟩
  · rw [DeviceRecords.capped, capRecords_eq h.cpu.context, capRecords_eq h.gpu.context,
      capRecords_eq h.npu.context]

/-! ### Metadata -/

theorem eraseDups_of_nodup {l : List PyText} (h : l.Nodup) : l.eraseDups = l := by
  induction l with
  | nil => rfl
  | cons a l ih =>
    obtain ⟨ha, hl⟩ := List.nodup_cons.mp h
    have hother : (l.filter fun b => !b == a) = l := by
      apply List.filter_eq_self.mpr
      intro b hb
      have hne : b ≠ a := fun heq => ha (heq ▸ hb)
      simpa using hne
    rw [List.eraseDups_cons, hother, ih hl]

theorem profileTexts_texts (profiles : List PyText) :
    profileTexts (some (.list (profiles.map .str))) = some profiles := by
  show some ((profiles.map PyValue.str).filterMap _) = some profiles
  rw [List.filterMap_map]
  congr 1
  exact List.filterMap_some

theorem Metadata.Normal.again {definition : RegisterRequest} {m : Metadata}
    (h : m.Normal host definition.maxContextLen) :
    normalizeMetadata host m.fields definition = some m := by
  have hprofiles : profileTexts (getField m.fields "profiles") = some m.profiles :=
    profileTexts_texts m.profiles
  have hallowed : (m.profiles.filter fun profile => profile ∈ allowedProfiles) = m.profiles :=
    List.filter_eq_self.mpr fun profile hprofile =>
      decide_eq_true (h.profiles.2 profile hprofile)
  have hcontext : min (max m.maxTestedContext 0) definition.maxContextLen =
      m.maxTestedContext := by
    rw [max_eq_left h.maxTestedContext.1, min_eq_left h.maxTestedContext.2]
  unfold normalizeMetadata
  refine Option.bind_eq_some_iff.mpr ⟨_, hprofiles, ?_⟩
  refine Option.bind_eq_some_iff.mpr ⟨_, h.certifications.again.1, ?_⟩
  refine Option.bind_eq_some_iff.mpr ⟨_, h.license, ?_⟩
  refine Option.bind_eq_some_iff.mpr ⟨_, h.maintainerNote, ?_⟩
  rw [hallowed, eraseDups_of_nodup h.profiles.1, h.certifications.again.2]
  show some { m with
    minimumRamGb := (safeFloat host (some (.float m.minimumRamGb))).max0
    minimumDiskGb := (safeFloat host (some (.float m.minimumDiskGb))).max0
    qualityScore := (safeFloat host (some (.float m.qualityScore))).max0.min100
    speedScore := (safeFloat host (some (.float m.speedScore))).max0.min100
    maxTestedContext := min (max m.maxTestedContext 0) definition.maxContextLen } = some m
  rw [h.minimumRamGb, h.minimumDiskGb, h.qualityScore, h.speedScore, hcontext]

/-! ### The catalog -/

theorem modelIdOf_ofStr {modelId : Str} (h : isModelId modelId = true) :
    modelIdOf (.ofStr modelId) = some modelId := by
  rw [modelIdOf, PyText.chars_ofStr]
  exact if_pos h

theorem Entry.Normal.again (hlaw : host.Lawful) {modelId : Str} {entry : Entry}
    (h : entry.Normal host modelId) :
    normalizeEntry host (.ofStr modelId) (.dict entry.fields) = .ok (modelId, entry) := by
  have hset : setField (key "model_id") (.str (.ofStr modelId))
      (definitionFields entry.definition) = definitionFields entry.definition := by
    rw [← h.modelId.2]
    exact if_pos rfl
  have hparsed : (host.coerce (definitionFields entry.definition)).bind RegisterRequest.validate =
      some entry.definition := by
    rw [hlaw.coerce_fields]
    exact h.definition
  have hdefinition : getField entry.fields "definition" =
      some (.dict (definitionFields entry.definition)) := rfl
  have hmetadata : normalizeMetadata host (metadataOf entry.fields) entry.definition =
      some entry.metadata := h.metadata.again
  have htrust : { entry.definition with trustRemoteCode := false } = entry.definition := by
    rw [← h.trustRemoteCode]
  simp only [normalizeEntry, modelIdOf_ofStr h.modelId.1, hdefinition, hset, hparsed, hmetadata,
    htrust]
  rfl

/-- The entries of a document are added one after the other. -/
theorem normalizeEntries_documents (hlaw : host.Lawful) {items : List (Str × Entry)}
    {start : Dict Str Entry} (hnormal : ∀ item ∈ items, item.2.Normal host item.1)
    (hnodup : ((start.items ++ items).map Prod.fst).Nodup) :
    ∃ catalog, normalizeEntries host start
        (items.map fun item => (.ofStr item.1, .dict item.2.fields)) = .ok catalog ∧
      catalog.items = start.items ++ items := by
  induction items generalizing start with
  | nil => exact ⟨start, rfl, (List.append_nil _).symm⟩
  | cons item items ih =>
    obtain ⟨hitem, hrest⟩ := List.forall_mem_cons.mp hnormal
    have hnew : start.get? item.1 = none := by
      rcases hget : start.get? item.1 with - | other
      · rfl
      · rw [List.map_append, List.nodup_append] at hnodup
        have hmem : item.1 ∈ start.items.map Prod.fst :=
          List.mem_map.mpr ⟨_, Dict.mem_of_get? hget, rfl⟩
        exact absurd rfl (hnodup.2.2 _ hmem _ List.mem_cons_self)
    have hset := Dict.items_set_of_new hnew item.2
    have happend : (start.set item.1 item.2).items ++ items = start.items ++ item :: items := by
      rw [hset, List.append_assoc, List.singleton_append]
    obtain ⟨catalog, hcatalog, hitems⟩ := ih hrest (happend ▸ hnodup)
    refine ⟨catalog, ?_, hitems.trans happend⟩
    exact bind_eq_ok.mpr ⟨_, hitem.again hlaw, hcatalog⟩

/-! ### The document -/

theorem LibraryManifest.Normal.again (hlaw : host.Lawful) {m : LibraryManifest}
    (h : m.Normal host) : validateManifestDocument host m.document = .ok m := by
  obtain ⟨generatedAt, source, catalog, checksum⟩ := m
  have hdigest : checksum = host.digest (.dict (catalogDocument catalog)) := by
    have hchecksum := h.checksum
    unfold catalogChecksum at hchecksum
    split_ifs at hchecksum
    exact (Option.some.inj hchecksum).symm
  have hhex : isSha256 checksum = true := hdigest ▸ hlaw.digest_hex _
  have hexpected : (wholeText host (some (.str checksum))).map host.lower = some checksum := by
    rw [wholeText_str, Option.map_some, hlaw.lower_hex _ hhex]
  have hcount : ¬(catalogDocument catalog = [] ∨
      maxImportedDefinitions < (catalogDocument catalog).length) := by
    have hlength := h.length
    rw [not_or, catalogDocument, List.map_eq_nil_iff, List.length_map, not_lt]
    exact ⟨List.ne_nil_of_length_pos hlength.1, hlength.2⟩
  obtain ⟨normalized, hnormalized, hitems⟩ : ∃ normalized,
      normalizeEntries host Dict.empty (catalogDocument catalog) = .ok normalized ∧
        normalized.items = catalog.items :=
    normalizeEntries_documents hlaw h.entries catalog.nodup
  obtain rfl : normalized = catalog := Dict.ext hitems
  show (if catalogDocument normalized = [] ∨
      maxImportedDefinitions < (catalogDocument normalized).length then _ else _) = _
  rw [if_neg hcount]
  refine bind_eq_ok.mpr ⟨checksum, orUncaught_eq_ok.mpr hexpected, ?_⟩
  rw [if_neg (Bool.not_eq_false _ ▸ hhex)]
  refine bind_eq_ok.mpr ⟨_, orUncaught_eq_ok.mpr h.checksum, ?_⟩
  rw [if_neg (not_not.mpr rfl)]
  exact bind_eq_ok.mpr ⟨_, hnormalized, bind_eq_ok.mpr ⟨_, orUncaught_eq_ok.mpr h.generatedAt,
    bind_eq_ok.mpr ⟨_, orUncaught_eq_ok.mpr h.source,
    bind_eq_ok.mpr ⟨_, orUncaught_eq_ok.mpr h.checksum, rfl⟩⟩⟩⟩

/-- The cache file of a manifest, parsed. -/
theorem parse_cacheFile (hlaw : host.Lawful) {m : LibraryManifest} (h : m.Normal host) :
    parseManifestBytes host (host.cacheFile m.document) =
      if maxManifestBytes < host.size (host.cacheFile m.document) then .error (.rejected .size)
      else .ok m := by
  unfold parseManifestBytes
  rw [hlaw.loads_cacheFile m h.printable]
  simp only [h.again hlaw]

/-- **The cache of an accepted manifest is accepted with the same result, and is what the
library serves, exactly if it is no larger than one million bytes.** -/
theorem cached_iff (hlaw : host.Lawful) {payload : β} {m : LibraryManifest}
    (h : parseManifestBytes host payload = .ok m) (bundled : Option β) :
    (parseManifestBytes host (host.cacheFile m.document) = .ok m ∧
      readManifest host (some (host.cacheFile m.document)) bundled = some (m, .officialCache)) ↔
      host.size (host.cacheFile m.document) ≤ maxManifestBytes := by
  have hparse := parse_cacheFile hlaw (parseManifestBytes_normal hlaw h)
  constructor
  · rintro ⟨hok, -⟩
    by_contra hlarge
    rw [hparse, if_pos (not_le.mp hlarge)] at hok
    cases hok
  · intro hsize
    have hok : parseManifestBytes host (host.cacheFile m.document) = .ok m := by
      rw [hparse, if_neg (not_lt.mpr hsize)]
    refine ⟨hok, ?_⟩
    simp only [readManifest, Option.map_some, hok]

end

/-! ### A description that is longer in the cache -/

def plainMetadata : Metadata where
  curated := true
  profiles := []
  minimumRamGb := .zero
  minimumDiskGb := .zero
  license := key "Unknown"
  gated := false
  qualityScore := .zero
  speedScore := .zero
  maxTestedContext := 0
  maintainerNote := key ""
  certifications := ⟨[], [], []⟩

/-- A manifest with one model. -/
def single (digest : PyText) (definition : RegisterRequest) : LibraryManifest where
  generatedAt := key ""
  source := key ""
  catalog := ⟨[("m".toList, ⟨definition, plainMetadata⟩)], List.nodup_singleton _⟩
  catalogSha256 := digest

def described (digest : PyText) (description : Option Str) : LibraryManifest :=
  single digest { smallRequest with description }

/-- No other piece depends on the description. -/
theorem pieces_described (digest : PyText) (l : Layout) (description : Str) :
    pieces l 0 (described digest (some description)).document =
      (pieces l 0 (described digest (some [])).document).set 56 (l.text (.ofStr description)) := by
  rfl

theorem recordsNormal_nil (host : Host ManifestFile) (context : Int) (device : PyText) :
    RecordsNormal host context device [] :=
  ⟨fun _ hc => absurd hc List.not_mem_nil, Nat.zero_le _, .nil,
    fun _ hc => absurd hc List.not_mem_nil⟩

theorem normal_plainMetadata (host : Host ManifestFile) {context : Int} (h : 0 ≤ context) :
    plainMetadata.Normal host context := by
  have hzero : (safeFloat host (some (.float .zero))).max0 = .zero := by
    rw [safeFloat_float rfl]
    exact ite_self _
  have hscore : PyFloat.zero.min100 = .zero := if_neg (by decide)
  exact {
    profiles := ⟨List.nodup_nil, fun profile hprofile => absurd hprofile List.not_mem_nil⟩
    minimumRamGb := hzero
    minimumDiskGb := hzero
    license := by
      show textField host (some (.str (key "Unknown"))) (key "Unknown") 120 = some (key "Unknown")
      rw [textField_str, ite_self]
      rfl
    qualityScore := (congrArg PyFloat.min100 hzero).trans hscore
    speedScore := (congrArg PyFloat.min100 hzero).trans hscore
    maxTestedContext := ⟨le_rfl, h⟩
    maintainerNote := rfl
    certifications := ⟨recordsNormal_nil host context _, recordsNormal_nil host context _,
      recordsNormal_nil host context _⟩ }

theorem plain_plainMetadata : plainMetadata.Plain where
  license := plain_key _
  maintainerNote := plain_key _
  profiles _ h := absurd h List.not_mem_nil
  cpu _ h := absurd h List.not_mem_nil
  gpu _ h := absurd h List.not_mem_nil
  npu _ h := absurd h List.not_mem_nil

theorem normal_single {digest : PyText} (h : isSha256 digest = true)
    {definition : RegisterRequest} (hvalid : definition.validate = some definition)
    (hid : definition.modelId = "m".toList) (htrust : definition.trustRemoteCode = false) :
    (single digest definition).Normal (fileHost digest) where
  generatedAt := rfl
  source := rfl
  length := ⟨Nat.zero_lt_one, show 1 ≤ 50 by decide⟩
  entries := by
    have hcontext := (RegisterRequest.validate_eq_some hvalid).1.context.1
    refine List.forall_mem_singleton.mpr ?_
    exact {
      modelId := ⟨rfl, hid⟩
      definition := hvalid
      trustRemoteCode := htrust
      metadata := normal_plainMetadata _ (le_trans (by decide) hcontext) }
  checksum := catalogChecksum_document (lawful_fileHost h)
    (List.forall_mem_singleton.mpr plain_plainMetadata)

/-- A manifest as it is downloaded. -/
theorem parse_sent {digest : PyText} (h : isSha256 digest = true) {m : LibraryManifest}
    (hnormal : m.Normal (fileHost digest))
    (hsize : (ManifestFile.sent m.document).size ≤ maxManifestBytes) :
    parseManifestBytes (fileHost digest) (.sent m.document) = .ok m :=
  (if_neg (not_lt.mpr hsize)).trans (hnormal.again (lawful_fileHost h))

theorem normal_described {digest : PyText} (h : isSha256 digest = true)
    (description : Option Str) : (described digest description).Normal (fileHost digest) :=
  normal_single h (validate_again validate_smallRequest description false) rfl rfl

theorem sum_set_le (l : List Nat) (i a : Nat) : (l.set i a).sum ≤ l.sum + a := by
  induction l generalizing i with
  | nil => exact Nat.zero_le _
  | cons b l ih =>
    cases i with
    | zero =>
      rw [List.set_cons_zero, List.sum_cons, List.sum_cons]
      omega
    | succ i =>
      have := ih i
      rw [List.set_cons_succ, List.sum_cons, List.sum_cons]
      omega

theorem size_sent (document : PyValue) :
    (ManifestFile.sent document).size = (pieces sentLayout 0 document).sum := rfl

theorem size_cached (document : PyValue) :
    (ManifestFile.cached document).size = (pieces cacheLayout 0 document).sum + 1 := rfl

theorem text_replicate (l : Layout) (n : Nat) (c : Char) :
    l.text (.ofStr (List.replicate n c)) = 2 + n * l.bytes (codePoint c) := by
  show 2 + (((List.replicate n c).map codePoint).map l.bytes).sum = _
  rw [List.map_replicate, List.map_replicate, List.sum_replicate, smul_eq_mul]

/-- The digest of the catalog with the long description. -/
def longDigest : PyText :=
  key "b95c3b6e79f16481bef672c805fb88c5de5388b48ead5a1590774b50da0a461c"

theorem isSha256_longDigest : isSha256 longDigest = true := by decide

def longDescription : Str := List.replicate 200000 'é'

/-- Two bytes each in UTF-8, six in the cache. -/
theorem text_longDescription : sentLayout.text (.ofStr longDescription) = 400002 ∧
    cacheLayout.text (.ofStr longDescription) = 1200002 := by
  have hsent : sentLayout.bytes (codePoint 'é') = 2 := by decide
  have hcached : cacheLayout.bytes (codePoint 'é') = 6 := by decide
  constructor
  · rw [longDescription, text_replicate, hsent]
  · rw [longDescription, text_replicate, hcached]

/-- Four hundred thousand bytes, but more than a million in the cache. -/
theorem longDescription_lost : (fileHost longDigest).Lawful ∧
    ∃ payload m, parseManifestBytes (fileHost longDigest) payload = .ok m ∧
      ¬(parseManifestBytes (fileHost longDigest) ((fileHost longDigest).cacheFile m.document) =
          .ok m ∧
        readManifest (fileHost longDigest) (some ((fileHost longDigest).cacheFile m.document))
          none = some (m, .officialCache)) := by
  have hlaw := lawful_fileHost isSha256_longDigest
  obtain ⟨htextSent, htextCached⟩ := text_longDescription
  have hmax : maxManifestBytes = 1000000 := rfl
  have hsent : (ManifestFile.sent (described longDigest (some longDescription)).document).size ≤
      maxManifestBytes := by
    rw [size_sent]
    have hrest : (pieces sentLayout 0 (described longDigest (some [])).document).sum ≤ 1000 := by
      decide +kernel
    have hset := sum_set_le (pieces sentLayout 0 (described longDigest (some [])).document) 56
      (sentLayout.text (.ofStr longDescription))
    rw [pieces_described]
    omega
  have hcached : maxManifestBytes <
      (ManifestFile.cached (described longDigest (some longDescription)).document).size := by
    rw [size_cached]
    have hmem : cacheLayout.text (.ofStr longDescription) ∈
        pieces cacheLayout 0 (described longDigest (some longDescription)).document := by
      rw [pieces_described]
      exact List.mem_set (by decide +kernel) _
    have hle := List.single_le_sum (fun _ _ => Nat.zero_le _) _ hmem
    omega
  refine ⟨hlaw, _, _, parse_sent isSha256_longDigest
    (normal_described isSha256_longDigest _) hsent, ?_⟩
  rintro ⟨hparse, -⟩
  have hnormal := normal_described isSha256_longDigest (some longDescription)
  have hrefused := (parse_cacheFile hlaw hnormal).trans (if_pos hcached)
  cases hrefused.symm.trans hparse

/-- The digest of the catalog without a description. -/
def shortDigest : PyText :=
  key "d7168e0b446b607aeedec0762a0eeea9873ea507e5d0a0557e857f58ae9c8004"

theorem isSha256_shortDigest : isSha256 shortDigest = true := by decide

theorem size_short :
    (ManifestFile.sent (described shortDigest none).document).size ≤ maxManifestBytes ∧
      (ManifestFile.cached (described shortDigest none).document).size ≤ maxManifestBytes := by
  constructor
  · decide +kernel
  · decide +kernel

theorem cached_iff_short :
    parseManifestBytes (fileHost shortDigest)
        ((fileHost shortDigest).cacheFile (described shortDigest none).document) =
          .ok (described shortDigest none) ∧
      readManifest (fileHost shortDigest)
        (some ((fileHost shortDigest).cacheFile (described shortDigest none).document)) none =
          some (described shortDigest none, .officialCache) :=
  (cached_iff (lawful_fileHost isSha256_shortDigest)
    (parse_sent isSha256_shortDigest (normal_described isSha256_shortDigest _) size_short.1)
    none).mpr size_short.2

end InferBridge.ModelLibrarySchema
