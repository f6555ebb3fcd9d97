/-
InferBridge/UpdateChecker.lean

The checks for updates (app/update_checker.py) of release manifests
(app/release_models.py).

A check asks one of two endpoints for the index of the releases, with the ETag that it
has in its cache, and then for the manifest of the release that it chooses.  One record
holds the channel, the ETag, the time and the manifest of the last answer.

Design.  A file of JSON is its decoded document, and a time is its instant.  An answer
is what the check reads of it: an unreadable one (too long, or no JSON) is `none`.  What
an ETag stands for is a parameter of the servers, so that two answers with one ETag have
one content by their type.  The checks that pydantic makes of single fields, and the
URLs that are official, are parameters; storage does not fail.

Main definition.  `check`: a check, with its result, the cache file and its requests.
-/
import InferBridge.ReleaseVersions

namespace InferBridge.UpdateChecker

open ReleaseVersions

/-! ### Manifests -/

inductive ArtifactType where
  | installer
  | portable
  | checksums
  | manifest
  | thirdPartyLicenses
  | releaseNotes
deriving DecidableEq, Repr

structure ReleaseArtifact where
  type : ArtifactType
  filename : Str
  url : Str
  signed : Bool
  signatureVerified : Bool
  containedLauncherSigned : Bool
  containedLauncherSignatureVerified : Bool
deriving DecidableEq

structure DataCompatibility where
  minimumSupportedSchema : ℕ
  currentSchema : ℕ
  downgradeCompatibleFromSchema : ℕ
deriving DecidableEq

/-- A manifest, with the fields that are only handed on as one document. -/
structure ReleaseManifest where
  version : Str
  channel : ReleaseChannel
  minimumWindowsVersion : Str
  minimumWindowsBuild : ℕ
  artifacts : List ReleaseArtifact
  dataCompatibility : DataCompatibility
  releaseNotesUrl : Str
  knownIssuesUrl : Str
  compatibilityMatrixUrl : Str
  others : List (Str × JsonValue)

inductive InstallationMode where
  | installed
  | portable
  | source
deriving DecidableEq, Repr

/-- What the checks rely on: the fields of a manifest as pydantic reads and prints them, the
official addresses, and the machine. -/
structure UpdateHost extends ReleaseHost where
  isOfficialRepository : Str → Bool
  fields : JsonValue → Option ReleaseManifest
  dump : ReleaseManifest → JsonValue
  fields_dump : ∀ document manifest, fields document = some manifest →
    fields (dump manifest) = some manifest
  dump_truthy : ∀ manifest, toReleaseHost.truthy (dump manifest) = true
  installationMode : InstallationMode
  windows : Bool
  machine : Str
  windowsBuild : Option ℕ

section
variable (host : UpdateHost)

def artifactSuffix : ArtifactType → Str
  | .installer => "-windows-x64-installer.exe".toList
  | .portable => "-windows-x64-portable.zip".toList
  | .checksums => "-checksums.txt".toList
  | .manifest => "-release-manifest.json".toList
  | .thirdPartyLicenses => "-third-party-licenses.zip".toList
  | .releaseNotes => "-release-notes.md".toList

/-- `artifact_filenames` of a version that is one -/
def artifactFilenames (version : Str) (type : ArtifactType) : List Str :=
  manifestPrefixes.map fun start => start ++ '-' :: (version ++ artifactSuffix type)

/-- `validate_trust_state` -/
def ReleaseArtifact.validateTrustState (artifact : ReleaseArtifact) : Bool :=
  (!artifact.signed || artifact.signatureVerified) &&
    (!artifact.containedLauncherSigned || artifact.containedLauncherSignatureVerified) &&
    host.isOfficial artifact.url

/-- `validate_schema_range` -/
def DataCompatibility.validateSchemaRange (data : DataCompatibility) : Bool :=
  data.minimumSupportedSchema ≤ data.currentSchema &&
    data.downgradeCompatibleFromSchema ≤ data.currentSchema

/-- The channel that a manifest may name for its version. -/
def channelMatches (channel : ReleaseChannel) (parsed : SemanticVersion) : Bool :=
  match channel with
  | .stable => parsed.prerelease.isEmpty
  | .beta =>
    match parsed.prerelease with
    | [] => false
    | label :: _ =>
      "beta".toList.isPrefixOf (lower label) || "rc".toList.isPrefixOf (lower label)
  | .nightly => !parsed.prerelease.isEmpty

/-- `validate_release` -/
def ReleaseManifest.validateRelease (manifest : ReleaseManifest) : Bool :=
  (SemanticVersion.parse manifest.version).any (channelMatches manifest.channel) &&
    decide (manifest.artifacts.map (·.type)).Nodup &&
    manifest.artifacts.all (fun artifact =>
      (artifactFilenames manifest.version artifact.type).contains artifact.filename) &&
    manifest.artifacts.any (fun artifact =>
      artifact.type = .installer || artifact.type = .portable) &&
    [manifest.releaseNotesUrl, manifest.knownIssuesUrl, manifest.compatibilityMatrixUrl].all
      host.isOfficialRepository

/-- `ReleaseManifest.model_validate` -/
def validate (document : JsonValue) : Option ReleaseManifest :=
  (host.fields document).filter fun manifest =>
    manifest.artifacts.all (·.validateTrustState host) &&
      manifest.dataCompatibility.validateSchemaRange && manifest.validateRelease host

def ReleaseManifest.selectArtifact (manifest : ReleaseManifest) : Option ReleaseArtifact :=
  let desired := if host.installationMode = .portable then .portable else .installer
  manifest.artifacts.find? fun artifact => artifact.type = desired

/-! ### Compatibility -/

def dataSchemaVersion : ℕ := 1

/-- `schema_compatibility`: the warning, if it is not compatible -/
def schemaWarning (localSchema : ℕ) (target : DataCompatibility) : Option Str :=
  if localSchema < target.minimumSupportedSchema then
    some "The installed data schema is too old for this release.".toList
  else if target.currentSchema < localSchema then
    some "This release cannot safely read data created by a newer application.".toList
  else none

/-- `platform_compatibility`: the warning, if it is not compatible -/
def platformWarning (manifest : ReleaseManifest) : Option Str :=
  if host.windows = false then none
  else
    let machine := lower (Text.strip isSpace host.machine)
    if machine ≠ "amd64".toList ∧ machine ≠ "x86_64".toList then
      some "This release supports Windows x64 only.".toList
    else
      match host.windowsBuild with
      | none => some "The Windows build could not be verified for this release.".toList
      | some build =>
        if build < manifest.minimumWindowsBuild then
          some ("This release requires ".toList ++ manifest.minimumWindowsVersion ++
            " or newer (build ".toList ++ (toString manifest.minimumWindowsBuild).toList ++
            "+).".toList)
        else none

/-! ### Results -/

inductive Status where
  | disabled
  | notDue
  | offline
  | current
  | available
  | rejected
deriving DecidableEq, Repr

structure UpdatePreferences where
  enabled : Bool := false
  channel : ReleaseChannel := .stable
  skippedVersions : List Str := []

/-- A time, in microseconds. -/
abbrev Time := ℤ

structure UpdateCache where
  channel : Option ReleaseChannel := none
  releasesEtag : Option Str := none
  lastCheckedAt : Option Time := none
  latestCheckedVersion : Option Str := none
  manifest : Option JsonValue := none

structure UpdateCheckResult where
  status : Status
  latestVersion : Option Str := none
  checkedAt : Option Time := none
  manifest : Option ReleaseManifest := none
  selectedArtifactType : Option ArtifactType := none
  compatibilityWarning : Option Str := none
  message : Option Str := none

/-- `__version__`: 1.1.1-dev.1 -/
def currentVersion : SemanticVersion :=
  { major := 1, minor := 1, patch := 1, prerelease := ["dev".toList, "1".toList] }

/-- The result for a manifest that is not the installed, an older or a skipped one. -/
def offer (manifest : ReleaseManifest) (checkedAt : Option Time) : UpdateCheckResult :=
  let offered : UpdateCheckResult :=
    { status := .rejected, latestVersion := some manifest.version, checkedAt
      manifest := some manifest }
  match schemaWarning dataSchemaVersion manifest.dataCompatibility, platformWarning host manifest,
      manifest.selectArtifact host with
  | none, none, some artifact =>
    { offered with status := .available, selectedArtifactType := some artifact.type }
  | some warning, _, _ => { offered with compatibilityWarning := some warning }
  | none, some warning, _ => { offered with compatibilityWarning := some warning }
  | none, none, none =>
    { offered with compatibilityWarning := some "No compatible artifact is available.".toList }

/-- The manifest is of the installed version, of an older one outside the stream of the channel, or
of a skipped one; `less` is whether it is older. -/
def isHeldBack (preferences : UpdatePreferences) (manifest : ReleaseManifest)
    (latest : SemanticVersion) (less : Bool) : Bool :=
  let sameBaseVersion := decide (latest.precedence = currentVersion.precedence)
  let sameChannelStream :=
    preferences.channel ≠ .stable && manifest.channel = preferences.channel
  let olderRelease := less && !(sameChannelStream && sameBaseVersion)
  latest.eq currentVersion || olderRelease || preferences.skippedVersions.contains manifest.version

/-- `_result_for_manifest`; `none` is a `ValueError`. -/
def resultForManifest (preferences : UpdatePreferences) (fallbackStatus : Status)
    (checkedAt : Option Time) : Option ReleaseManifest → Option UpdateCheckResult
  | none => some { status := fallbackStatus, checkedAt }
  | some manifest => do
    let latest ← SemanticVersion.parse manifest.version
    let less ← latest.lt currentVersion
    if isHeldBack preferences manifest latest less then
      return { status := fallbackStatus, latestVersion := some manifest.version, checkedAt
               manifest := some manifest }
    else return offer host manifest checkedAt

/-! ### Servers -/

/-- The two entries of `_RELEASES_APIS` -/
inductive Api where
  | named
  | legacy
deriving DecidableEq, Repr

/-- What the servers hold: the index that an ETag of an endpoint stands for, and the manifest
behind an address, if they can be read. -/
structure Servers where
  content : Str → Option (Api × Option JsonValue)
  manifest : Str → Option JsonValue

/-- The index that an endpoint has, with its ETag. -/
structure Index (servers : Servers) (api : Api) where
  document : Option JsonValue
  etag : Option Str
  named : ∀ tag, etag = some tag → servers.content tag = some (api, document)

/-- An error that is not an answer of 304: the status of an `HTTPError`, an `OSError`, or one that
the check does not handle. -/
inductive Failure where
  | status (code : ℕ) (modified : code ≠ 304)
  | os
  | unhandled
deriving DecidableEq

inductive Endpoint (servers : Servers) (api : Api) where
  | failing (failure : Failure)
  | serving (index : Index servers api)

/-- An exception of a check. -/
inductive Raised where
  | http (code : ℕ)
  | os
  | value
  | unhandled
deriving DecidableEq, Repr

def Failure.raised : Failure → Raised
  | .status code _ => .http code
  | .os => .os
  | .unhandled => .unhandled

/-- A request that is sent. -/
inductive Sent where
  | index (api : Api) (etag : Option Str)
  | manifest (url : Str)
deriving DecidableEq

/-- One check: what it is called with, and how the servers are meanwhile. -/
structure Call (servers : Servers) where
  enabled : Bool
  channel : ReleaseChannel
  force : Bool
  now : Time
  namedApi : Endpoint servers .named
  legacyApi : Endpoint servers .legacy
  manifestFailure : Option Failure

variable {servers : Servers}

/-- The answer to a request with an ETag: what is read of it, and its ETag. -/
def Endpoint.answer {api : Api} (etag : Option Str) :
    Endpoint servers api → Except Raised (Option JsonValue × Option Str)
  | .failing failure => .error failure.raised
  | .serving index =>
    if etag.isSome ∧ etag = index.etag then .error (.http 304)
    else .ok (index.document, index.etag)

/-- The answer for the manifest. -/
def Call.answer (call : Call servers) (url : Str) : Except Raised (Option JsonValue) :=
  match call.manifestFailure with
  | some failure => .error failure.raised
  | none => .ok (servers.manifest url)

/-- What an answer of an endpoint is for the loop: it goes on with an error, or ends. -/
def endsWith (answer : Except Raised (Option JsonValue × Option Str)) :
    Option (Except Raised (JsonValue × Option Str)) :=
  match answer with
  | .ok (some document, etag) => some (.ok (document, etag))
  | .ok (none, _) => some (.error .value)
  | .error (.http code) =>
    if [301, 302, 307, 308, 404].contains code then none else some (.error (.http code))
  | .error .os => none
  | .error error => some (.error error)

/-- The error that the loop keeps. -/
def kept (answer : Except Raised (Option JsonValue × Option Str)) : Raised :=
  match answer with
  | .error error => error
  | .ok _ => .os

/-- `_fetch_release_index` -/
def fetchReleaseIndex (call : Call servers) (etag : Option Str) :
    Except Raised (JsonValue × Option Str) :=
  match endsWith (call.namedApi.answer (etag.filter (· ≠ []))) with
  | some answer => answer
  | none =>
    match endsWith (call.legacyApi.answer none) with
    | some answer => answer
    | none => .error (kept (call.legacyApi.answer none))

/-- The requests of `_fetch_release_index` -/
def indexRequests (call : Call servers) (etag : Option Str) : List Sent :=
  let etag := etag.filter (· ≠ [])
  if (endsWith (call.namedApi.answer etag)).isSome then [.index .named etag]
  else [.index .named etag, .index .legacy none]

/-! ### The check -/

def interval : Time := 24 * 60 * 60 * 1000000

/-- `check_due` -/
def checkDue (lastCheckedAt : Option Time) (now : Time) : Bool :=
  match lastCheckedAt with
  | none => true
  | some previous => now < previous || interval ≤ now - previous

/-- `_manifest_channel_allowed` -/
def manifestChannelAllowed (selected published : ReleaseChannel) : Bool :=
  match selected with
  | .stable => published = .stable
  | .beta => published = .stable || published = .beta
  | .nightly => true

/-- The manifest is of the release, for the channel. -/
def isReleased (channel : ReleaseChannel) (version : Str) (manifest : ReleaseManifest) : Bool :=
  manifest.version = version &&
    (SemanticVersion.parse manifest.version).any (channelAccepts channel) &&
    manifestChannelAllowed channel manifest.channel

/-- What a check leaves: its result, unless it raises, the cache file and the requests. -/
structure Checked where
  result : Option UpdateCheckResult
  file : Option UpdateCache
  sent : List Sent

/-- What the guarded part of a check leaves. -/
structure Attempt where
  result : Except Raised UpdateCheckResult
  file : Option UpdateCache
  sent : List Sent

def Call.preferences (call : Call servers) (skipped : List Str) : UpdatePreferences where
  enabled := call.enabled
  channel := call.channel
  skippedVersions := skipped

/-- A result in the guarded part, which raises a `ValueError` where there is none. -/
def guarded (result : Option UpdateCheckResult) : Except Raised UpdateCheckResult :=
  match result with
  | some result => .ok result
  | none => .error .value

/-- The manifest of the release is asked for, checked and stored. -/
def attemptManifest (skipped : List Str) (call : Call servers) (etag : Option Str) (version : Str)
    (file : Option UpdateCache) : Except Raised (Option JsonValue) →
      Except Raised UpdateCheckResult × Option UpdateCache
  | .error error => (.error error, file)
  | .ok none => (.error .value, file)
  | .ok (some document) =>
    match validate host document with
    | none => (.error .value, file)
    | some manifest =>
      if isReleased call.channel version manifest then
        let stored : UpdateCache :=
          { channel := some call.channel, releasesEtag := etag, lastCheckedAt := some call.now
            latestCheckedVersion := some manifest.version, manifest := some (host.dump manifest) }
        (guarded (resultForManifest host (call.preferences skipped) .current (some call.now)
          (some manifest)), some stored)
      else (.error .value, file)

/-- The guarded part of a check, once it has the index. -/
def attemptIndex (skipped : List Str) (call : Call servers) (releases : JsonValue)
    (etag : Option Str) (file : Option UpdateCache) (sent : List Sent) : Attempt :=
  match releases with
  | .arr releases =>
    match candidateManifestUrl host.toReleaseHost call.channel releases with
    | .error .typeError => { result := .error .unhandled, file, sent }
    | .error .valueError => { result := .error .value, file, sent }
    | .ok none =>
      { result := .ok { status := .current, checkedAt := some call.now }
        file := some { channel := some call.channel, releasesEtag := etag
                       lastCheckedAt := some call.now }
        sent }
    | .ok (some (version, url)) =>
      let answered := attemptManifest host skipped call etag version file (call.answer url)
      { result := answered.1, file := answered.2, sent := sent ++ [.manifest url] }
  | _ => { result := .error .value, file, sent }

/-- The guarded part of a check -/
def attempt (skipped : List Str) (call : Call servers) (etag : Option Str)
    (file : Option UpdateCache) : Attempt :=
  match fetchReleaseIndex call etag with
  | .ok (releases, issued) =>
    attemptIndex host skipped call releases issued file (indexRequests call etag)
  | .error error => { result := .error error, file, sent := indexRequests call etag }

/-- The message of a check that is not answered. -/
def offlineResult (now : Time) : UpdateCheckResult :=
  { status := .offline, checkedAt := some now, message := some "Update check unavailable.".toList }

def rejectedResult (now : Time) : UpdateCheckResult :=
  { status := .rejected, checkedAt := some now
    message := some
      "The published update metadata was invalid and was rejected.".toList
    compatibilityWarning := some
      "The published update metadata could not be validated.".toList }

/-- The end of a check: the handlers of its guarded part. -/
def finish (skipped : List Str) (call : Call servers) (cache : UpdateCache) (channelMatches : Bool)
    (cachedManifest : Option ReleaseManifest) (attempt : Attempt) : Checked :=
  match attempt.result with
  | .ok result => { result := some result, file := attempt.file, sent := attempt.sent }
  | .error (.http code) =>
    if code = 304 ∧ channelMatches then
      { result := resultForManifest host (call.preferences skipped) .current (some call.now)
          cachedManifest
        file := some { cache with lastCheckedAt := some call.now }
        sent := attempt.sent }
    else { result := some (offlineResult call.now), file := attempt.file, sent := attempt.sent }
  | .error .os =>
    { result := some (offlineResult call.now), file := attempt.file, sent := attempt.sent }
  | .error .value =>
    { result := some (rejectedResult call.now), file := attempt.file, sent := attempt.sent }
  | .error .unhandled => { result := none, file := attempt.file, sent := attempt.sent }

/-- The cache with its manifest, of a file. -/
structure Loaded where
  cache : UpdateCache
  manifest : Option ReleaseManifest
  file : Option UpdateCache

/-- `_validated_cached_manifest` -/
def validatedCachedManifest (cache : UpdateCache) (file : Option UpdateCache) : Loaded :=
  match cache.manifest.filter host.truthy with
  | none => { cache, manifest := none, file }
  | some document =>
    match validate host document with
    | some manifest => { cache, manifest := some manifest, file }
    | none => { cache := {}, manifest := none, file := some {} }

/-- The cache that a check begins with. -/
def load (channel : ReleaseChannel) (file : Option UpdateCache) : Loaded :=
  let cache := file.getD {}
  if cache.channel = some channel then validatedCachedManifest host cache file
  else { cache, manifest := none, file }

/-- `UpdateChecker.check` -/
def check (skipped : List Str) (call : Call servers) (file : Option UpdateCache) : Checked :=
  let loaded := load host call.channel file
  let channelMatches := decide (loaded.cache.channel = some call.channel)
  let cachedCheckedAt := if channelMatches then loaded.cache.lastCheckedAt else none
  if !call.enabled then
    { result := some { status := .disabled, checkedAt := cachedCheckedAt }
      file := loaded.file, sent := [] }
  else if !call.force && !checkDue cachedCheckedAt call.now then
    { result := resultForManifest host (call.preferences skipped) .notDue cachedCheckedAt
        loaded.manifest
      file := loaded.file, sent := [] }
  else
    let etag := if channelMatches then loaded.cache.releasesEtag else none
    finish host skipped call loaded.cache channelMatches loaded.manifest
      (attempt host skipped call etag loaded.file)

end

end InferBridge.UpdateChecker
