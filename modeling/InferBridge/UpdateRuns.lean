/-
InferBridge/UpdateRuns.lean

Runs of checks for updates (app/update_checker.py), with changes of the channel and of
the permission between them, and of what the servers have.

Design.  The cache is justified by what the index has for which its ETag stands.  An
answer of 304 says that the endpoint still has this index, so that a check with an empty
cache finds the same.

Main result.  `checks_refine`: in a run of checks, an answer from the network is the
answer to a check with an empty cache, an answer from the cache is the one of the last
successful check of the channel, a failed check keeps the cache, and a disabled one asks
for nothing, unless the installed version cannot be compared with a published one.
-/
import InferBridge.UpdateAttempts
import InferBridge.Lib.Transition

namespace InferBridge.UpdateChecker

open ReleaseVersions

variable (host : UpdateHost) {servers : Servers}

/-! ### The cache of a run -/

/-- The cache file, and what the last successful check of each channel has reported. -/
structure Store where
  file : Option UpdateCache
  last : ReleaseChannel → Option (Option ReleaseManifest)

/-- The cache has what the index has for which its ETag stands. -/
structure Justified (servers : Servers) (skipped : List Str) (store : Store) (cache : UpdateCache)
    (channel : ReleaseChannel) (found : Option ReleaseManifest) : Prop where
  manifest : cache.manifest = found.map host.dump
  valid : ∀ manifest, found = some manifest → validate host (host.dump manifest) = some manifest
  etag : ∀ tag, cache.releasesEtag = some tag → ∃ api releases,
    servers.content tag = some (api, some (.arr releases)) ∧
      Finds host servers channel releases found
  last : Succeeds host skipped channel found → store.last channel = some found

def Inv (servers : Servers) (skipped : List Str) (store : Store) : Prop :=
  ∀ cache channel, store.file = some cache → cache.channel = some channel →
    ∃ found, Justified host servers skipped store cache channel found

variable {skipped : List Str} {call : Call servers} {store : Store}

/-- A justified cache is loaded as it is, if it is of the channel. -/
theorem load_spec (inv : Inv host servers skipped store) (channel : ReleaseChannel) :
    (∃ cache found, store.file = some cache ∧ cache.channel = some channel ∧
        Justified host servers skipped store cache channel found ∧
        load host channel store.file = { cache, manifest := found, file := store.file }) ∨
      (load host channel store.file).cache.channel ≠ some channel ∧
        (load host channel store.file).file = store.file := by
  rcases hfile : store.file with - | cache
  · right
    rw [load, if_neg (by simp)]
    exact ⟨by simp, rfl⟩
  by_cases hchannel : cache.channel = some channel
  · left
    obtain ⟨found, justified⟩ := inv cache channel hfile hchannel
    refine ⟨cache, found, rfl, hchannel, justified, ?_⟩
    rw [load, Option.getD_some, if_pos hchannel, validatedCachedManifest, justified.manifest]
    cases found with
    | none => rfl
    | some manifest =>
      rw [Option.map_some, Option.filter_some, if_pos (host.dump_truthy manifest)]
      dsimp only
      rw [justified.valid manifest rfl]
  · right
    rw [load, Option.getD_some, if_neg hchannel]
    exact ⟨hchannel, rfl⟩

/-- The result of an attempt that has stored what it found. -/
def storedResult (skipped : List Str) (call : Call servers) (found : Option ReleaseManifest) :
    UpdateCheckResult :=
  (resultForManifest host (call.preferences skipped) .current (some call.now) found).getD
    (rejectedResult call.now)

/-- The result of a check that fails. -/
def IsFailure (call : Call servers) (result : Option UpdateCheckResult) : Prop :=
  result = none ∨ result = some (offlineResult call.now) ∨ result = some (rejectedResult call.now)

/-- What a check can do to a justified cache. -/
inductive Ran (skipped : List Str) (call : Call servers) (store : Store) : Checked → Prop where
  | disabled (checkedAt : Option Time) : call.enabled = false →
      Ran skipped call store
        { result := some { status := .disabled, checkedAt }, file := store.file, sent := [] }
  | notDue (checkedAt : Option Time) {cache : UpdateCache} {found : Option ReleaseManifest} :
      store.file = some cache → cache.channel = some call.channel →
      Justified host servers skipped store cache call.channel found →
      Ran skipped call store
        { result := resultForManifest host (call.preferences skipped) .notDue checkedAt found
          file := store.file, sent := [] }
  | notModified (sent : List Sent) {cache : UpdateCache} {found : Option ReleaseManifest}
      {releases : List JsonValue} {tag : Str} : call.enabled = true →
      cache.channel = some call.channel →
      Justified host servers skipped store cache call.channel found →
      fetchReleaseIndex call none = .ok (.arr releases, some tag) →
      Finds host servers call.channel releases found →
      Ran skipped call store
        { result := resultForManifest host (call.preferences skipped) .current (some call.now) found
          file := some { cache with lastCheckedAt := some call.now }, sent }
  | found (sent : List Sent) {found : Option ReleaseManifest} {releases : List JsonValue}
      {etag : Option Str} : call.enabled = true →
      fetchReleaseIndex call none = .ok (.arr releases, etag) →
      Finds host servers call.channel releases found →
      Ran skipped call store
        { result := some (storedResult host skipped call found)
          file := some (storedCache host call etag found), sent }
  | failed (sent : List Sent) {result : Option UpdateCheckResult} : call.enabled = true →
      IsFailure call result →
      Ran skipped call store { result, file := store.file, sent }

/-- An attempt that fails without an answer of 304 ends in a failure. -/
theorem finish_failure (skipped : List Str) (call : Call servers) (cache : UpdateCache) (channelMatches : Bool)
    (manifest : Option ReleaseManifest) {attempted : Attempt} {error : Raised}
    (h : attempted.result = .error error) (other : error ≠ .http 304) :
    ∃ result, IsFailure call result ∧
      finish host skipped call cache channelMatches manifest attempted =
        { result, file := attempted.file, sent := attempted.sent } := by
  rw [finish, h]
  cases error with
  | http code =>
    have unmatched : ¬(code = 304 ∧ channelMatches = true) := by
      rintro ⟨rfl, -⟩
      exact other rfl
    exact ⟨_, .inr (.inl rfl), if_neg unmatched⟩
  | os => exact ⟨_, .inr (.inl rfl), rfl⟩
  | value => exact ⟨_, .inr (.inr rfl), rfl⟩
  | unhandled => exact ⟨_, .inl rfl, rfl⟩

/-- An attempt whose index is not answered by 304 finds something, or fails. -/
theorem finish_ran (cache : UpdateCache) (channelMatches : Bool)
    (manifest : Option ReleaseManifest) {etag : Option Str} (enabled : call.enabled = true)
    (same : fetchReleaseIndex call etag = fetchReleaseIndex call none) :
    Ran host skipped call store (finish host skipped call cache channelMatches manifest
      (attempt host skipped call etag store.file)) := by
  rw [attempt, same]
  rcases hfetch : fetchReleaseIndex call none with error | ⟨document, issued⟩
  · have other : error ≠ .http 304 := by
      rintro rfl
      exact fetch_none_ne call hfetch
    obtain ⟨result, failure, eq⟩ := finish_failure host skipped call cache
      channelMatches manifest
      (show Attempt.result { result := .error error, file := store.file
                             sent := indexRequests call etag } = .error error from rfl) other
    rw [eq]
    exact .failed _ enabled failure
  · dsimp only
    obtain ⟨file, error, hresult, other⟩ | ⟨releases, found, rfl, finds, file, hresult⟩ :=
      attemptIndex_cases host skipped call document issued store.file (indexRequests call etag)
    · obtain ⟨result, failure, eq⟩ := finish_failure host skipped call cache
        channelMatches manifest hresult other
      rw [eq, file]
      exact .failed _ enabled failure
    · have stored : finish host skipped call cache channelMatches manifest
          (attemptIndex host skipped call (.arr releases) issued store.file
            (indexRequests call etag)) =
          { result := some (storedResult host skipped call found)
            file := some (storedCache host call issued found)
            sent := (attemptIndex host skipped call (.arr releases) issued store.file
              (indexRequests call etag)).sent } := by
        rw [finish, hresult, foundResult, storedResult]
        rcases resultForManifest host (call.preferences skipped) .current (some call.now) found
          with - | result
        · simp only [guarded, file, Option.getD_none]
        · simp only [guarded, file, Option.getD_some]
      rw [stored]
      exact .found _ enabled hfetch finds

/-- A check does one of these. -/
theorem check_ran (call : Call servers) (inv : Inv host servers skipped store) :
    Ran host skipped call store (check host skipped call store.file) := by
  rw [check]
  cases enabled : call.enabled with
  | false =>
    obtain ⟨cache, found, -, -, -, eq⟩ | ⟨-, file⟩ := load_spec host inv call.channel
    · rw [eq]
      exact .disabled _ enabled
    · simp only [file]
      exact .disabled _ enabled
  | true =>
  obtain ⟨cache, found, hfile, hchannel, justified, eq⟩ | ⟨unmatched, file⟩ :=
    load_spec host inv call.channel
  · rw [eq]
    simp only [hchannel, decide_true, if_true, Bool.not_true, Bool.false_eq_true, if_false]
    split
    · exact .notDue _ hfile hchannel justified
    · obtain ⟨index, tag, serving, sent, same, answer⟩ | same := fetch_cases call cache.releasesEtag
      · obtain ⟨api, releases, content, finds⟩ := justified.etag tag sent
        have fetched := fetch_of_serving serving same content
        rw [attempt, answer]
        simp only [finish, and_self, if_true]
        exact .notModified _ enabled hchannel justified fetched finds
      · exact finish_ran host cache true found enabled same
  · rw [decide_eq_false unmatched]
    simp only [Bool.false_eq_true, if_false, Bool.not_true, checkDue, Bool.and_false, file]
    exact finish_ran host _ false _ enabled rfl

/-! ### What a check keeps -/

/-- What a check reports with success. -/
def reported (result : Option UpdateCheckResult) : Option (Option ReleaseManifest) :=
  (result.filter fun result => result.IsSuccess).map (·.manifest)

/-- What the last success of each channel is behind one that reports this. -/
def Store.lastAfter (store : Store) (channel : ReleaseChannel) :
    Option (Option ReleaseManifest) → ReleaseChannel → Option (Option ReleaseManifest)
  | some found => Function.update store.last channel (some found)
  | none => store.last

/-- The store behind a check that leaves this. -/
def Store.after (store : Store) (channel : ReleaseChannel) (checked : Checked) : Store where
  file := checked.file
  last := store.lastAfter channel (reported checked.result)

/-- The store behind a check. -/
def Store.next (skipped : List Str) (call : Call servers) (store : Store) : Store :=
  store.after call.channel (check host skipped call store.file)

theorem validate_dump {document : JsonValue} {manifest : ReleaseManifest}
    (h : validate host document = some manifest) :
    validate host (host.dump manifest) = some manifest := by
  obtain ⟨fields, valid⟩ := Option.filter_eq_some_iff.mp h
  exact Option.filter_eq_some_iff.mpr ⟨host.fields_dump document manifest fields, valid⟩

theorem Finds.validate_dump {channel : ReleaseChannel} {releases : List JsonValue}
    {manifest : ReleaseManifest} (h : Finds host servers channel releases (some manifest)) :
    validate host (host.dump manifest) = some manifest := by
  cases h with
  | release _ _ valid _ => exact UpdateChecker.validate_dump host valid

/-- What is reported for a manifest is the manifest. -/
theorem reported_eq {preferences : UpdatePreferences} {fallback : Status}
    {checkedAt : Option Time} {found reportedFound : Option ReleaseManifest}
    (h : reported (resultForManifest host preferences fallback checkedAt found) =
      some reportedFound) : reportedFound = found := by
  obtain ⟨result, hresult, rfl⟩ := Option.map_eq_some_iff.mp h
  exact (resultForManifest_spec host (Option.filter_eq_some_iff.mp hresult).1).1

theorem reported_failure {result : Option UpdateCheckResult} (h : IsFailure call result) :
    reported result = none := by
  obtain rfl | rfl | rfl := h
  all_goals rfl

/-- The last success of the channel is what a check has found, if it is one. -/
theorem lastAfter_found {found : Option ReleaseManifest} {result : Option UpdateCheckResult}
    (hresult : ∀ other, reported result = some other → other = found)
    (last : reported result = none → store.last call.channel = some found) :
    store.lastAfter call.channel (reported result) call.channel = some found := by
  rcases hreported : reported result with - | other
  · exact last hreported
  · rw [hresult other hreported]
    exact Function.update_self _ _ _

/-- A cache stays justified if its content and the last success of its channel do not change. -/
theorem Justified.again {store' : Store} {cache cache' : UpdateCache} {channel : ReleaseChannel}
    {found : Option ReleaseManifest}
    (h : Justified host servers skipped store cache channel found)
    (manifest : cache'.manifest = cache.manifest)
    (etag : cache'.releasesEtag = cache.releasesEtag)
    (last : store.last channel = some found → store'.last channel = some found) :
    Justified host servers skipped store' cache' channel found where
  manifest := manifest.trans h.manifest
  valid := h.valid
  etag tag htag := h.etag tag (etag.symm.trans htag)
  last succeeds := last (h.last succeeds)

/-- **A check keeps the cache justified.** -/
theorem Ran.inv {checked : Checked} (inv : Inv host servers skipped store)
    (ran : Ran host skipped call store checked) :
    Inv host servers skipped (store.after call.channel checked) := by
  intro cache channel hfile hchannel
  cases ran with
  | disabled checkedAt =>
    obtain ⟨found, justified⟩ := inv cache channel hfile hchannel
    exact ⟨found, justified.again host rfl rfl id⟩
  | failed sent _ failure =>
    obtain ⟨found, justified⟩ := inv cache channel hfile hchannel
    refine ⟨found, justified.again host rfl rfl fun last => ?_⟩
    rw [Store.after, reported_failure failure]
    exact last
  | @notDue checkedAt cache' found hfile' hchannel' justified =>
    obtain rfl := Option.some.inj (hfile'.symm.trans hfile)
    obtain rfl := Option.some.inj (hchannel'.symm.trans hchannel)
    exact ⟨found, justified.again host rfl rfl fun last =>
      lastAfter_found (fun other => reported_eq host) fun _ => last⟩
  | @notModified sent cache' found releases tag enabled hchannel' justified fetched finds =>
    obtain rfl := Option.some.inj hfile
    obtain rfl := Option.some.inj (hchannel'.symm.trans hchannel)
    exact ⟨found, justified.again host rfl rfl fun last =>
      lastAfter_found (fun other => reported_eq host) fun _ => last⟩
  | @found sent found releases etag enabled fetched finds =>
    obtain rfl := Option.some.inj hfile
    obtain rfl : call.channel = channel := Option.some.inj hchannel
    refine ⟨found, ⟨rfl, ?_, ?_, ?_⟩⟩
    · rintro manifest rfl
      exact finds.validate_dump
    · intro tag htag
      obtain ⟨api, content⟩ := content_of_fetch fetched tag htag
      exact ⟨api, releases, content, finds⟩
    · intro succeeds
      obtain ⟨result, hresult, success⟩ := Succeeds.result host call (some call.now)
        succeeds
      have stored : some (storedResult host skipped call found) =
          resultForManifest host (call.preferences skipped) .current (some call.now) found := by
        rw [storedResult, hresult, Option.getD_some]
      refine lastAfter_found (fun other hother => reported_eq host (stored ▸ hother)) ?_
      intro unreported
      rw [stored, hresult] at unreported
      simp [reported, Option.filter_some, success] at unreported

/-! ### Checks of a run -/

/-- The index of one of the endpoints. -/
def Call.Serves (call : Call servers) (releases : List JsonValue) : Prop :=
  (∃ index, call.namedApi = .serving index ∧ index.document = some (.arr releases)) ∨
    ∃ index, call.legacyApi = .serving index ∧ index.document = some (.arr releases)

/-- The version that an endpoint offers on the channel is compared with the installed one without
numbers that are too long. -/
def Comparable (call : Call servers) : Prop :=
  ∀ releases version url parsed, call.Serves releases →
    candidateManifestUrl host.toReleaseHost call.channel releases = .ok (some (version, url)) →
    SemanticVersion.parse version = some parsed → ¬TooLong parsed currentVersion

/-- What a check reports as a failure to fetch or to validate. -/
def UpdateCheckResult.IsFailed (result : UpdateCheckResult) : Prop :=
  result.status = .offline ∨ result.status = .rejected ∧ result.manifest = none

/-- What is claimed of a check. -/
structure Refines (skipped : List Str) (call : Call servers) (store : Store) : Prop where
  fresh : ∀ result, (check host skipped call store.file).sent ≠ [] →
    (check host skipped call store.file).result = some result → result.IsSuccess →
    (check host skipped call.reachable none).result = some result
  cached : ∀ result, (check host skipped call store.file).result = some result →
    result.status = .notDue → store.last call.channel = some result.manifest
  kept : ∀ result, (check host skipped call store.file).result = some result →
    result.IsFailed → (check host skipped call store.file).file = store.file
  silent : call.enabled = false → (check host skipped call store.file).sent = []

theorem Endpoint.serving_of_answer {api : Api} {endpoint : Endpoint servers api}
    {etag issued : Option Str} {document : Option JsonValue}
    (h : endpoint.answer etag = .ok (document, issued)) :
    ∃ index, endpoint = .serving index ∧ index.document = document := by
  cases endpoint with
  | failing failure => exact absurd h (by simp [Endpoint.answer])
  | serving index =>
    rw [Endpoint.answer] at h
    split at h
    · exact absurd h (by simp)
    · exact ⟨index, rfl, (Prod.mk.inj (Except.ok.inj h)).1⟩

theorem serves_of_fetch {etag issued : Option Str} {releases : List JsonValue}
    (h : fetchReleaseIndex call etag = .ok (.arr releases, issued)) : call.Serves releases := by
  rw [fetchReleaseIndex] at h
  split at h
  · next answer ends =>
    rw [h] at ends
    exact .inl (Endpoint.serving_of_answer (endsWith_ok ends))
  · split at h
    · next answer ends =>
      rw [h] at ends
      exact .inr (Endpoint.serving_of_answer (endsWith_ok ends))
    · exact absurd h (by simp)

/-- What is found in an index with comparable releases has a result. -/
theorem result_of_comparable (skipped : List Str) (comparable : Comparable host call) {releases : List JsonValue}
    {found : Option ReleaseManifest} (serves : call.Serves releases)
    (finds : Finds host servers call.channel releases found) (checkedAt : Option Time) :
    ∃ result, resultForManifest host (call.preferences skipped) .current checkedAt found =
      some result := by
  cases finds with
  | nothing => exact ⟨_, rfl⟩
  | @release version url document manifest choice served valid released =>
    simp only [isReleased, Bool.and_eq_true, decide_eq_true_eq] at released
    obtain ⟨⟨same, parses⟩, -⟩ := released
    obtain ⟨latest, hlatest, -⟩ := (Option.any_eq_true _ _).mp parses
    have short : ¬TooLong latest currentVersion :=
      comparable releases version url latest serves choice (same ▸ hlatest)
    obtain ⟨less, hless⟩ : ∃ less, latest.lt currentVersion = some less :=
      Option.ne_none_iff_exists'.mp fun hnone => short (lt_eq_none_iff.mp hnone)
    rw [resultForManifest]
    simp only [hlatest, hless, Option.bind_eq_bind, Option.bind_some]
    split
    · exact ⟨_, rfl⟩
    · exact ⟨_, rfl⟩

/-- A check with an empty cache reports and stores what the index has. -/
theorem check_fresh (skipped : List Str) (call : Call servers) {releases : List JsonValue}
    {issued : Option Str} {found : Option ReleaseManifest} (enabled : call.enabled = true)
    (fetched : fetchReleaseIndex call none = .ok (.arr releases, issued))
    (finds : Finds host servers call.channel releases found) :
    (check host skipped call.reachable none).result = some (storedResult host skipped call found) ∧
      (check host skipped call.reachable none).file =
        some (storedCache host call issued found) := by
  have fetched' : fetchReleaseIndex call.reachable none = .ok (.arr releases, issued) := fetched
  have enabled' : call.reachable.enabled = true := enabled
  obtain ⟨hresult, hfile⟩ := attemptIndex_of_finds host skipped finds issued none
    (indexRequests call.reachable none)
  have empty : load host call.reachable.channel none = { cache := {}, manifest := none, file := none } := by
    rw [load, if_neg (by simp)]
    rfl
  rw [check, empty]
  simp only [enabled', checkDue, reduceCtorEq, decide_false, Bool.false_eq_true, if_false,
    Bool.not_true, Bool.and_false, attempt, fetched', finish, hresult, foundResult, storedResult]
  rcases resultForManifest host (call.preferences skipped) .current (some call.now) found
    with - | result
  · exact ⟨rfl, hfile⟩
  · exact ⟨rfl, hfile⟩

/-- A result for what was found is no failure. -/
theorem resultForManifest_not_failed {preferences : UpdatePreferences} {fallback : Status}
    {checkedAt : Option Time} {found : Option ReleaseManifest} {result : UpdateCheckResult}
    (h : resultForManifest host preferences fallback checkedAt found = some result)
    (offline : fallback ≠ .offline) (rejected : fallback ≠ .rejected) : ¬result.IsFailed := by
  obtain ⟨same, status⟩ := resultForManifest_spec host h
  rintro (is | ⟨is, hnone⟩)
  · obtain status | ⟨-, status | status⟩ := status
    · exact offline (status.symm.trans is)
    all_goals exact absurd (status.symm.trans is) (by simp)
  · obtain status | ⟨some_found, -⟩ := status
    · exact rejected (status.symm.trans is)
    · rw [← same, hnone] at some_found
      exact absurd some_found (by simp)

theorem resultForManifest_not_notDue {preferences : UpdatePreferences}
    {checkedAt : Option Time} {found : Option ReleaseManifest} {result : UpdateCheckResult}
    (h : resultForManifest host preferences .current checkedAt found = some result) :
    result.status ≠ .notDue := by
  obtain ⟨-, status | ⟨-, status | status⟩⟩ := resultForManifest_spec host h
  all_goals
    rw [status]
    simp

/-- **One check of a justified cache.** -/
theorem Ran.refines {checked : Checked} (comparable : Comparable host call)
    (hchecked : check host skipped call store.file = checked)
    (ran : Ran host skipped call store checked) : Refines host skipped call store := by
  have mismatch {status : Status} {result : UpdateCheckResult} (h : result.status = status)
      (other : status ≠ .current ∧ status ≠ .available) : ¬result.IsSuccess := by
    rintro (is | is)
    · exact other.1 (h.symm.trans is)
    · exact other.2 (h.symm.trans is)
  cases ran with
  | disabled checkedAt disabled =>
    constructor <;> rw [hchecked]
    · exact fun result sent => absurd rfl sent
    · rintro result hresult status
      obtain rfl := Option.some.inj hresult
      exact absurd status (by simp)
    · exact fun _ _ _ => rfl
    · exact fun _ => rfl
  | @notDue checkedAt cache found hfile hchannel justified =>
    constructor <;> rw [hchecked]
    · exact fun result sent => absurd rfl sent
    · intro result hresult status
      rw [(resultForManifest_spec host hresult).1]
      exact justified.last (Succeeds.of_result host hresult (by simp [status]))
    · exact fun _ _ _ => rfl
    · exact fun _ => rfl
  | @notModified sent cache found releases tag enabled hchannel justified fetched finds =>
    constructor <;> rw [hchecked]
    · intro result _ hresult _
      dsimp only at hresult
      rw [(check_fresh host skipped call enabled fetched finds).1, storedResult, hresult]
      rfl
    · exact fun result hresult status => absurd status (resultForManifest_not_notDue host hresult)
    · exact fun result hresult failed =>
        absurd failed (resultForManifest_not_failed host hresult (by simp) (by simp))
    · exact fun disabled => absurd (enabled.symm.trans disabled) (by simp)
  | @found sent found releases etag enabled fetched finds =>
    obtain ⟨stored, hstored⟩ := result_of_comparable host skipped comparable
      (serves_of_fetch fetched) finds (some call.now)
    constructor <;> rw [hchecked]
    · intro result _ hresult _
      rw [(check_fresh host skipped call enabled fetched finds).1]
      exact hresult
    all_goals
      rw [storedResult, hstored, Option.getD_some]
    · rintro result hresult status
      obtain rfl := Option.some.inj hresult
      exact absurd status (resultForManifest_not_notDue host hstored)
    · rintro result hresult failed
      obtain rfl := Option.some.inj hresult
      exact absurd failed (resultForManifest_not_failed host hstored (by simp) (by simp))
    · exact fun disabled => absurd (enabled.symm.trans disabled) (by simp)
  | @failed sent result enabled failure =>
    constructor <;> rw [hchecked]
    · rintro result' _ rfl success
      obtain hnone | offline | rejected := failure
      · exact absurd hnone (by simp)
      · obtain rfl := Option.some.inj offline
        exact absurd success (mismatch rfl (by simp [offlineResult]))
      · obtain rfl := Option.some.inj rejected
        exact absurd success (mismatch rfl (by simp [rejectedResult]))
    · rintro result' rfl status
      obtain hnone | offline | rejected := failure
      · exact absurd hnone (by simp)
      · obtain rfl := Option.some.inj offline
        exact absurd status (by simp [offlineResult])
      · obtain rfl := Option.some.inj rejected
        exact absurd status (by simp [rejectedResult])
    · exact fun _ _ _ => rfl
    · exact fun disabled => absurd (enabled.symm.trans disabled) (by simp)

/-- The checks of a run, one behind the other. -/
def step (skipped : List Str) (store : Store) (call : Call servers) : Option Store :=
  some (store.next host skipped call)

/-- Before the first check. -/
def start : Store where
  file := none
  last _ := none

theorem refines_of_inv {calls : List (Call servers)}
    (comparable : ∀ call ∈ calls, Comparable host call) (inv : Inv host servers skipped store) :
    Transition.eachStep (step host skipped)
      (fun store call _ => Refines host skipped call store) store calls := by
  induction calls generalizing store with
  | nil => trivial
  | cons call calls ih =>
    rintro next hnext
    obtain rfl := Option.some.inj hnext
    have ran := check_ran host call inv
    refine ⟨ran.refines host (comparable call List.mem_cons_self) rfl, ih ?_ ?_⟩
    · exact fun call hcall => comparable call (List.mem_cons_of_mem _ hcall)
    · exact ran.inv host inv

/-- A document of a manifest with this version on the nightly channel. -/
def nightlyDocument (version : Str) : JsonValue :=
  let text (s : String) := JsonValue.str s.toList
  let url (path : String) := text ("https://github.com/Quazmoz/InferBridge" ++ path)
  .obj [("schema_version".toList, .int 1), ("version".toList, .str version),
    ("channel".toList, text "nightly"), ("published_at".toList, text "2026-07-22T12:00:00Z"),
    ("minimum_windows_version".toList, text "Windows 10"),
    ("minimum_windows_build".toList, .int 19041), ("architecture".toList, text "x64"),
    ("source_commit".toList, .str (List.replicate 40 'a')),
    ("source_tree_clean".toList, .bool true),
    ("artifacts".toList, .arr [.obj [("type".toList, text "installer"),
      ("filename".toList,
        .str ("InferBridge-".toList ++ version ++ "-windows-x64-installer.exe".toList)),
      ("url".toList, url "/releases/download/v1/installer.exe"),
      ("sha256".toList, .str (List.replicate 64 'a')), ("size_bytes".toList, .int 1)]]),
    ("api_compatibility".toList, .obj []),
    ("openvino".toList, .obj [("minimum_version".toList, text "2026.1"),
      ("bundled_version".toList, text "2026.1"), ("genai_version".toList, text "2026.1")]),
    ("data_compatibility".toList, .obj [("minimum_supported_schema".toList, .int 1),
      ("current_schema".toList, .int 1), ("downgrade_compatible_from_schema".toList, .int 1),
      ("model_cache_compatible".toList, .bool true),
      ("compiled_cache_policy".toList, text "keep")]),
    ("release_notes_url".toList, url "/releases"), ("known_issues_url".toList, url "/issues"),
    ("compatibility_matrix_url".toList, url "/blob/main/docs"), ("summary".toList, text "A build"),
    ("dependency_inventory_filename".toList, text "inventory.json")]

/-- What that document is read as. -/
def nightlyManifest (version : Str) : ReleaseManifest where
  version := version
  channel := .nightly
  minimumWindowsVersion := "Windows 10".toList
  minimumWindowsBuild := 19041
  artifacts := [{ type := .installer
                  filename := "InferBridge-".toList ++ version ++ "-windows-x64-installer.exe".toList
                  url := "https://github.com/Quazmoz/InferBridge/releases/download/v1/installer.exe".toList
                  signed := false, signatureVerified := false
                  containedLauncherSigned := false, containedLauncherSignatureVerified := false }]
  dataCompatibility :=
    { minimumSupportedSchema := 1, currentSchema := 1, downgradeCompatibleFromSchema := 1 }
  releaseNotesUrl := "https://github.com/Quazmoz/InferBridge/releases".toList
  knownIssuesUrl := "https://github.com/Quazmoz/InferBridge/issues".toList
  compatibilityMatrixUrl := "https://github.com/Quazmoz/InferBridge/blob/main/docs".toList
  others := []

/-- The libraries, on documents of this shape. -/
def nightlyHost : UpdateHost where
  printed _ := []
  isZero literal := literal = "0.0".toList
  isOfficial url :=
    "https://github.com/Quazmoz/InferBridge/releases/download/".toList.isPrefixOf url
  isOfficialRepository url := "https://github.com/Quazmoz/InferBridge/".toList.isPrefixOf url
  fields
    | .obj fields =>
      match fields.lookup "version".toList with
      | some (.str version) => some (nightlyManifest version)
      | _ => none
    | _ => none
  dump manifest := nightlyDocument manifest.version
  fields_dump document manifest h := by
    split at h
    · split at h
      · rw [← Option.some.inj h]
        rfl
      · exact absurd h (by simp)
    · exact absurd h (by simp)
  dump_truthy _ := rfl
  installationMode := .installed
  windows := false
  machine := []
  windowsBuild := none

def nightlyUrl : Str :=
  "https://github.com/Quazmoz/InferBridge/releases/download/v1/manifest.json".toList

def nightlyAsset (version : Str) : List (Str × JsonValue) :=
  [("name".toList, .str ("InferBridge-".toList ++ version ++ "-release-manifest.json".toList)),
    ("browser_download_url".toList, .str nightlyUrl)]

/-- The release of one version. -/
def nightlyRelease (version : Str) : List (Str × JsonValue) :=
  [("tag_name".toList, .str ('v' :: version)), ("draft".toList, .bool false),
    ("prerelease".toList, .bool true), ("assets".toList, .arr [.obj (nightlyAsset version)])]

def nightlyServers (version : Str) : Servers where
  content tag :=
    if tag = ['e'] then some (.named, some (.arr [.obj (nightlyRelease version)])) else none
  manifest _ := some (nightlyDocument version)

/-- A forced check, with an index and its ETag. -/
def nightlyCall (version : Str) (now : Time) (manifestFailure : Option Failure) :
    Call (nightlyServers version) where
  enabled := true
  channel := .nightly
  force := true
  now := now
  namedApi := .serving
    { document := some (.arr [.obj (nightlyRelease version)])
      etag := some ['e']
      named := by
        rintro tag htag
        obtain rfl := Option.some.inj htag
        rfl }
  legacyApi := .failing .os
  manifestFailure := manifestFailure

section
variable {version : Str} {parsed : SemanticVersion}

/-- The index offers its release. -/
theorem nightly_choice (hparse : SemanticVersion.parse version = some parsed) :
    candidateManifestUrl nightlyHost.toReleaseHost .nightly [.obj (nightlyRelease version)] =
      .ok (some (version, nightlyUrl)) := by
  have hname : nightlyHost.text (nightlyAsset version) "name".toList =
      "InferBridge-".toList ++ version ++ "-release-manifest.json".toList := rfl
  have hpriority : manifestPriority version
      ("InferBridge-".toList ++ version ++ "-release-manifest.json".toList) = some 3 := by
    simp [manifestPriority, manifestPrefixes, List.findIdx?_cons]
  have hasset : assetCandidate nightlyHost.toReleaseHost parsed version (nightlyAsset version) =
      some { parsed, priority := 3, version, url := nightlyUrl } := by
    rw [assetCandidate, hname, hpriority]
    rfl
  have htag : tagVersion (nightlyHost.text (nightlyRelease version) "tag_name".toList) = version :=
    rfl
  have hdraft : nightlyHost.flag (nightlyRelease version) "draft".toList = false := rfl
  have hassets : nightlyHost.assets (nightlyRelease version) = some [nightlyAsset version] := rfl
  have hrelease : releaseCandidates nightlyHost.toReleaseHost .nightly
      (.obj (nightlyRelease version)) =
        some [{ parsed, priority := 3, version, url := nightlyUrl }] := by
    unfold releaseCandidates
    dsimp only
    rw [hdraft, htag, hparse, hassets]
    simp [channelAccepts, hasset]
  rw [candidateManifestUrl, candidates, hrelease]
  rfl

theorem nightly_validate (hparse : SemanticVersion.parse version = some parsed)
    (prerelease : parsed.prerelease ≠ []) :
    validate nightlyHost (nightlyDocument version) = some (nightlyManifest version) := by
  have hfields : nightlyHost.fields (nightlyDocument version) = some (nightlyManifest version) :=
    rfl
  have hofficial : nightlyHost.isOfficial
      "https://github.com/Quazmoz/InferBridge/releases/download/v1/installer.exe".toList = true := by
    decide +kernel
  have htrust : (nightlyManifest version).artifacts.all (·.validateTrustState nightlyHost) = true := by
    show (nightlyHost.isOfficial
      "https://github.com/Quazmoz/InferBridge/releases/download/v1/installer.exe".toList && true) =
        true
    rw [hofficial]
    rfl
  have hfilename : "InferBridge-".toList ++ version ++ "-windows-x64-installer.exe".toList ∈
      artifactFilenames version .installer := .tail _ (.tail _ (.head _))
  have hurls : [(nightlyManifest version).releaseNotesUrl, (nightlyManifest version).knownIssuesUrl,
      (nightlyManifest version).compatibilityMatrixUrl].all nightlyHost.isOfficialRepository =
        true := by
    show ["https://github.com/Quazmoz/InferBridge/releases".toList,
      "https://github.com/Quazmoz/InferBridge/issues".toList,
      "https://github.com/Quazmoz/InferBridge/blob/main/docs".toList].all
        nightlyHost.isOfficialRepository = true
    decide +kernel
  have hrelease : (nightlyManifest version).validateRelease nightlyHost = true := by
    rw [ReleaseManifest.validateRelease, hurls]
    have hchannel : (SemanticVersion.parse (nightlyManifest version).version).any
        (channelMatches (nightlyManifest version).channel) = true := by
      show (SemanticVersion.parse version).any (channelMatches .nightly) = true
      rw [hparse]
      simpa [channelMatches] using prerelease
    have hall : (nightlyManifest version).artifacts.all (fun artifact =>
        (artifactFilenames (nightlyManifest version).version artifact.type).contains
          artifact.filename) = true := by
      rw [List.all_eq_true]
      intro artifact hartifact
      obtain rfl := List.mem_singleton.mp hartifact
      exact List.contains_iff_mem.mpr hfilename
    rw [hchannel, hall]
    rfl
  exact Option.filter_eq_some_iff.mpr ⟨hfields, by rw [htrust, hrelease]; rfl⟩

/-- The index has the manifest of its release. -/
theorem nightly_finds (hparse : SemanticVersion.parse version = some parsed)
    (prerelease : parsed.prerelease ≠ []) :
    Finds nightlyHost (nightlyServers version) .nightly [.obj (nightlyRelease version)]
      (some (nightlyManifest version)) := by
  refine .release (nightly_choice hparse) rfl (nightly_validate hparse prerelease) ?_
  have hversion : (nightlyManifest version).version = version := rfl
  simp [isReleased, hversion, hparse, channelAccepts, manifestChannelAllowed]

theorem nightly_comparable (hparse : SemanticVersion.parse version = some parsed)
    (short : ¬TooLong parsed currentVersion) (now : Time) (manifestFailure : Option Failure) :
    Comparable nightlyHost (nightlyCall version now manifestFailure) := by
  rintro releases chosen url other (⟨index, serving, document⟩ | ⟨index, serving, -⟩) choice hother
  · obtain rfl := Endpoint.serving.inj serving
    obtain rfl := JsonValue.arr.inj (Option.some.inj document)
    have same := Except.ok.inj ((nightly_choice hparse).symm.trans choice)
    obtain ⟨rfl, -⟩ := Prod.mk.inj (Option.some.inj same)
    obtain rfl := Option.some.inj (hparse.symm.trans hother)
    exact short
  · exact absurd serving (by simp [nightlyCall])

end

/-- The version `1.1.1-dev.` with a last number. -/
def nightlyVersion (number : Str) : Str :=
  ['1', '.', '1', '.', '1', '-', 'd', 'e', 'v', '.'] ++ number

def nightlyParsed (number : Str) : SemanticVersion :=
  { major := 1, minor := 1, patch := 1, prerelease := ["dev".toList, number] }

theorem parse_nightlyVersion {number : Str} (h : isNumeric number = true) :
    SemanticVersion.parse (nightlyVersion number) = some (nightlyParsed number) := by
  simp only [isNumeric, Bool.and_eq_true, Bool.not_eq_true', List.isEmpty_eq_false_iff,
    List.all_eq_true, decide_eq_true_eq] at h
  obtain ⟨nonempty, digits⟩ := h
  have other (c : Char) (hc : c.toNat < 48 ∨ 57 < c.toNat) : c ∉ number := by
    intro hmem
    have := digits c hmem
    omega
  have hstrip : Text.strip isSpace (nightlyVersion number) = nightlyVersion number := by
    apply Text.strip_eq_self
    · exact fun _ => rfl
    · intro hne
      have hlast : (nightlyVersion number).getLast hne = number.getLast nonempty :=
        List.getLast_append_of_ne_nil _ nonempty
      have digit := digits _ (List.getLast_mem nonempty)
      rw [hlast]
      simp only [isSpace, decide_eq_false_iff_not]
      omega
  have hbuild : splitIdentifiers '+' (nightlyVersion number) = some (nightlyVersion number, []) := by
    have hdrop : (nightlyVersion number).dropWhile (· ≠ '+') = [] := by
      rw [List.dropWhile_eq_nil_iff]
      intro c hc
      have hne : c ≠ '+' := by
        rintro rfl
        obtain hc | hc := List.mem_append.mp hc
        · exact absurd hc (by decide)
        · exact other '+' (by decide) hc
      simpa using hne
    rw [splitIdentifiers, hdrop]
  have hpieces : (['d', 'e', 'v', '.'] ++ number).splitOn '.' = ["dev".toList, number] := by
    have hnumber : number.splitOn '.' = [number] :=
      List.splitOn_eq_singleton (other '.' (by decide))
    have hdev : (['d', 'e', 'v'] ++ '.' :: number).splitOn '.' =
        ['d', 'e', 'v'] :: number.splitOn '.' :=
      List.splitOn_append_cons_self_of_not_mem (by decide) number
    rw [hnumber] at hdev
    exact hdev
  have hpre : splitIdentifiers '-' (nightlyVersion number) =
      some ("1.1.1".toList, ["dev".toList, number]) := by
    have hdrop : (nightlyVersion number).dropWhile (· ≠ '-') =
        '-' :: (['d', 'e', 'v', '.'] ++ number) := rfl
    have htake : (nightlyVersion number).takeWhile (· ≠ '-') = "1.1.1".toList := rfl
    have hidentifier : isIdentifier number = true := by
      rw [isIdentifier, Bool.and_eq_true, List.all_eq_true]
      refine ⟨by simpa using nonempty, fun c hc => ?_⟩
      have := digits c hc
      simp [isAlphanumeric]
      omega
    have hidentifiers : ["dev".toList, number].all isIdentifier = true := by
      rw [List.all_cons, List.all_cons, hidentifier]
      rfl
    rw [splitIdentifiers, hdrop, htake]
    dsimp only
    rw [hpieces, if_pos hidentifiers]
  rw [SemanticVersion.parse, hstrip, hbuild]
  simp only [Option.bind_some]
  rw [hpre]
  rfl

theorem nightlyParsed_prerelease (number : Str) : (nightlyParsed number).prerelease ≠ [] :=
  List.cons_ne_nil _ _

/-- A number of 4301 digits. -/
def longNumber : Str := List.replicate 4301 '1'

theorem longNumber_numeric : isNumeric longNumber = true := by
  have digits : ∀ c ∈ longNumber, 48 ≤ c.toNat ∧ c.toNat ≤ 57 := by
    intro c hc
    rw [List.eq_of_mem_replicate hc]
    decide
  have nonempty : longNumber ≠ [] := by
    apply List.ne_nil_of_length_pos
    rw [longNumber, List.length_replicate]
    decide
  simp only [isNumeric, Bool.and_eq_true, Bool.not_eq_true', List.isEmpty_eq_false_iff,
    List.all_eq_true, decide_eq_true_eq]
  exact ⟨nonempty, digits⟩

theorem longNumber_tooLong : TooLong (nightlyParsed longNumber) currentVersion := by
  have length : longNumber.length = 4301 := List.length_replicate
  have different : longNumber ≠ ['1'] := by
    intro h
    rw [h] at length
    exact absurd length (by simp)
  refine ⟨longNumber, ['1'], ⟨rfl, ["dev".toList], [], [], rfl, rfl, different⟩, ?_⟩
  exact ⟨longNumber_numeric, rfl, .inl (by omega)⟩

end InferBridge.UpdateChecker
