/-
InferBridge/UpdateAttempts.lean

One request of a check for updates (app/update_checker.py), conditional or not.

Design.  An index has something for a channel, `Finds`: no release, or the manifest of
the chosen one.  An attempt either fails and keeps the cache file, or stores what the
index has.

Main result.  `fetch_cases`: with an ETag, the index is answered by 304 if the ETag is
its own, and as without one otherwise; `attemptIndex_of_finds`: what the index has is
found by every check of it.
-/
import InferBridge.UpdateChecker

namespace InferBridge.UpdateChecker

open ReleaseVersions

variable (host : UpdateHost) {servers : Servers}

/-! ### Requests for the index -/

theorem Endpoint.answer_cases {api : Api} (endpoint : Endpoint servers api) (etag : Option Str) :
    (∃ index tag, endpoint = .serving index ∧ etag = some tag ∧ index.etag = some tag ∧
        endpoint.answer etag = .error (.http 304)) ∨
      endpoint.answer etag = endpoint.answer none := by
  cases endpoint with
  | failing failure => exact .inr rfl
  | serving index =>
    by_cases same : etag.isSome ∧ etag = index.etag
    · obtain ⟨tag, rfl⟩ := Option.isSome_iff_exists.mp same.1
      exact .inl ⟨index, tag, rfl, rfl, same.2.symm, if_pos same⟩
    · right
      rw [Endpoint.answer, if_neg same, Endpoint.answer, if_neg (by simp)]

/-- A request for the index is answered by 304 for the ETag of the index, or as without one. -/
theorem fetch_cases (call : Call servers) (etag : Option Str) :
    (∃ index tag, call.namedApi = .serving index ∧ etag = some tag ∧ index.etag = some tag ∧
        fetchReleaseIndex call etag = .error (.http 304)) ∨
      fetchReleaseIndex call etag = fetchReleaseIndex call none := by
  obtain ⟨index, tag, serving, sent, same, answer⟩ | answer :=
    call.namedApi.answer_cases (etag.filter (· ≠ []))
  · left
    obtain ⟨rfl, -⟩ := Option.filter_eq_some_iff.mp sent
    refine ⟨index, tag, serving, rfl, same, ?_⟩
    rw [fetchReleaseIndex, answer]
    rfl
  · right
    rw [fetchReleaseIndex, answer]
    rfl

theorem Failure.raised_ne (failure : Failure) : failure.raised ≠ .http 304 := by
  cases failure with
  | status code modified => exact fun h => modified (Raised.http.inj h)
  | _ => simp [Failure.raised]

theorem Endpoint.answer_none_ne {api : Api} (endpoint : Endpoint servers api) :
    endpoint.answer none ≠ .error (.http 304) := by
  cases endpoint with
  | failing failure => exact fun h => failure.raised_ne (Except.error.inj h)
  | serving index => simp [Endpoint.answer]

theorem endsWith_error {answer : Except Raised (Option JsonValue × Option Str)} {code : ℕ}
    (h : endsWith answer = some (.error (.http code))) : answer = .error (.http code) := by
  rcases answer with (code' | - | - | -) | ⟨- | document, etag⟩
  · rw [endsWith] at h
    split at h
    · exact absurd h (by simp)
    · rw [Except.error.inj (Option.some.inj h)]
  all_goals exact absurd h (by simp [endsWith])

theorem fetch_none_ne (call : Call servers) :
    fetchReleaseIndex call none ≠ .error (.http 304) := by
  intro h
  rw [fetchReleaseIndex] at h
  split at h
  · next answer ends =>
    rw [h] at ends
    exact call.namedApi.answer_none_ne (endsWith_error ends)
  · split at h
    · next answer ends =>
      rw [h] at ends
      exact call.legacyApi.answer_none_ne (endsWith_error ends)
    · have raised := Except.error.inj h
      rcases hlegacy : call.legacyApi.answer none with error | answer
      · rw [hlegacy, kept] at raised
        exact call.legacyApi.answer_none_ne (hlegacy.trans (by rw [raised]))
      · rw [hlegacy] at raised
        exact absurd raised (by simp [kept])

theorem endsWith_ok {answer : Except Raised (Option JsonValue × Option Str)} {document : JsonValue}
    {etag : Option Str} (h : endsWith answer = some (.ok (document, etag))) :
    answer = .ok (some document, etag) := by
  rcases answer with (code | - | - | -) | ⟨- | other, issued⟩
  · rw [endsWith] at h
    split at h
    · exact absurd h (by simp)
    · exact absurd (Option.some.inj h) (by simp)
  all_goals simp_all [endsWith]

theorem Endpoint.content_of_answer {api : Api} {endpoint : Endpoint servers api}
    {etag issued : Option Str} {document : Option JsonValue}
    (h : endpoint.answer etag = .ok (document, issued)) :
    ∀ tag, issued = some tag → servers.content tag = some (api, document) := by
  cases endpoint with
  | failing failure => exact absurd h (by simp [Endpoint.answer])
  | serving index =>
    rw [Endpoint.answer] at h
    split at h
    · exact absurd h (by simp)
    · obtain ⟨rfl, rfl⟩ := Prod.mk.inj (Except.ok.inj h)
      exact index.named

/-- The ETag of an answer stands for its index. -/
theorem content_of_fetch {call : Call servers} {etag issued : Option Str} {releases : JsonValue}
    (h : fetchReleaseIndex call etag = .ok (releases, issued)) :
    ∀ tag, issued = some tag → ∃ api, servers.content tag = some (api, some releases) := by
  intro tag htag
  rw [fetchReleaseIndex] at h
  split at h
  · next answer ends =>
    rw [h] at ends
    exact ⟨_, Endpoint.content_of_answer (endsWith_ok ends) tag htag⟩
  · split at h
    · next answer ends =>
      rw [h] at ends
      exact ⟨_, Endpoint.content_of_answer (endsWith_ok ends) tag htag⟩
    · exact absurd h (by simp)

/-- An index that an endpoint with an ETag has is fetched without one. -/
theorem fetch_of_serving {call : Call servers} {index : Index servers .named} {tag : Str}
    {api : Api} {releases : JsonValue} (serving : call.namedApi = .serving index)
    (same : index.etag = some tag) (content : servers.content tag = some (api, some releases)) :
    fetchReleaseIndex call none = .ok (releases, some tag) := by
  have document : index.document = some releases := by
    have both := (index.named tag same).symm.trans content
    exact (Prod.mk.inj (Option.some.inj both)).2
  rw [fetchReleaseIndex, serving]
  simp [Endpoint.answer, document, same, endsWith]

/-! ### What an index has -/

/-- What there is for a channel in an index: no release, or the manifest of one. -/
inductive Finds (servers : Servers) (channel : ReleaseChannel) (releases : List JsonValue) :
    Option ReleaseManifest → Prop where
  | nothing : candidateManifestUrl host.toReleaseHost channel releases = .ok none →
      Finds servers channel releases none
  | release {version url : Str} {document : JsonValue} {manifest : ReleaseManifest} :
      candidateManifestUrl host.toReleaseHost channel releases = .ok (some (version, url)) →
      servers.manifest url = some document → validate host document = some manifest →
      isReleased channel version manifest → Finds servers channel releases (some manifest)

/-- The cache that a check leaves for what it has found. -/
def storedCache (call : Call servers) (etag : Option Str) (found : Option ReleaseManifest) :
    UpdateCache where
  channel := some call.channel
  releasesEtag := etag
  lastCheckedAt := some call.now
  latestCheckedVersion := found.map (·.version)
  manifest := found.map host.dump

/-- The result for what was found, where a comparison may raise. -/
def foundResult (skipped : List Str) (call : Call servers) (found : Option ReleaseManifest) :
    Except Raised UpdateCheckResult :=
  guarded (resultForManifest host (call.preferences skipped) .current (some call.now) found)

/-- An attempt with an index keeps the file and fails, or stores what the index has. -/
theorem attemptIndex_cases (skipped : List Str) (call : Call servers) (document : JsonValue)
    (etag : Option Str) (file : Option UpdateCache) (sent : List Sent) :
    ((attemptIndex host skipped call document etag file sent).file = file ∧
        ∃ error, (attemptIndex host skipped call document etag file sent).result = .error error ∧
          error ≠ .http 304) ∨
      ∃ releases found, document = .arr releases ∧ Finds host servers call.channel releases found ∧
        (attemptIndex host skipped call document etag file sent).file =
          some (storedCache host call etag found) ∧
        (attemptIndex host skipped call document etag file sent).result =
          foundResult host skipped call found := by
  cases document with
  | arr releases =>
    rw [attemptIndex]
    split
    · exact .inl ⟨rfl, _, rfl, by simp⟩
    · exact .inl ⟨rfl, _, rfl, by simp⟩
    · next choice => exact .inr ⟨releases, none, rfl, .nothing choice, rfl, rfl⟩
    · next version url choice =>
      rcases hanswer : call.answer url with error | (- | document)
      · refine .inl ⟨rfl, error, rfl, ?_⟩
        rw [Call.answer] at hanswer
        split at hanswer
        · exact Except.error.inj hanswer ▸ Failure.raised_ne _
        · exact absurd hanswer (by simp)
      · exact .inl ⟨rfl, _, rfl, by simp⟩
      · have served : servers.manifest url = some document := by
          rw [Call.answer] at hanswer
          split at hanswer
          · exact absurd hanswer (by simp)
          · exact Except.ok.inj hanswer
        dsimp only
        rw [attemptManifest]
        split
        · exact .inl ⟨rfl, _, rfl, by simp⟩
        next manifest valid =>
        split
        · next released =>
          exact .inr ⟨releases, some manifest, rfl, .release choice served valid released, rfl, rfl⟩
        · exact .inl ⟨rfl, _, rfl, by simp⟩
  | _ => exact .inl ⟨rfl, _, rfl, by simp⟩

/-- The server of the manifests answers. -/
def Call.reachable (call : Call servers) : Call servers := { call with manifestFailure := none }

/-- What an index has is found by every check of it, if the manifest can be fetched. -/
theorem attemptIndex_of_finds (skipped : List Str) {call : Call servers}
    {releases : List JsonValue} {found : Option ReleaseManifest}
    (finds : Finds host servers call.channel releases found) (etag : Option Str)
    (file : Option UpdateCache) (sent : List Sent) :
    (attemptIndex host skipped call.reachable (.arr releases) etag file sent).result =
        foundResult host skipped call found ∧
      (attemptIndex host skipped call.reachable (.arr releases) etag file sent).file =
        some (storedCache host call etag found) := by
  cases finds with
  | nothing choice =>
    have choice' : candidateManifestUrl host.toReleaseHost call.reachable.channel releases =
        .ok none := choice
    rw [attemptIndex, choice']
    exact ⟨rfl, rfl⟩
  | @release version url document manifest choice served valid released =>
    have choice' : candidateManifestUrl host.toReleaseHost call.reachable.channel releases =
        .ok (some (version, url)) := choice
    have released' : isReleased call.reachable.channel version manifest := released
    have answer : call.reachable.answer url = .ok (some document) := by
      rw [← served]
      rfl
    rw [attemptIndex, choice']
    dsimp only
    rw [answer, attemptManifest, valid]
    dsimp only
    rw [if_pos released']
    exact ⟨rfl, rfl⟩

/-! ### Results for a manifest -/

theorem offer_checkedAt (manifest : ReleaseManifest) (checkedAt : Option Time) :
    offer host manifest checkedAt = { offer host manifest none with checkedAt } := by
  unfold offer
  dsimp only
  split <;> rfl

theorem offer_spec (manifest : ReleaseManifest) (checkedAt : Option Time) :
    (offer host manifest checkedAt).manifest = some manifest ∧
      ((offer host manifest checkedAt).status = .available ∨
        (offer host manifest checkedAt).status = .rejected) := by
  unfold offer
  dsimp only
  split
  · exact ⟨rfl, .inl rfl⟩
  all_goals exact ⟨rfl, .inr rfl⟩

/-- The result has what was found, and its status is the fallback's or says what is offered. -/
theorem resultForManifest_spec {preferences : UpdatePreferences} {fallback : Status}
    {checkedAt : Option Time} {found : Option ReleaseManifest} {result : UpdateCheckResult}
    (h : resultForManifest host preferences fallback checkedAt found = some result) :
    result.manifest = found ∧ (result.status = fallback ∨
      found.isSome ∧ (result.status = .available ∨ result.status = .rejected)) := by
  cases found with
  | none =>
    obtain rfl := Option.some.inj h
    exact ⟨rfl, .inl rfl⟩
  | some manifest =>
    obtain ⟨latest, -, h⟩ := Option.bind_eq_some_iff.mp h
    obtain ⟨less, -, h⟩ := Option.bind_eq_some_iff.mp h
    split at h
    · obtain rfl := Option.some.inj h
      exact ⟨rfl, .inl rfl⟩
    · obtain rfl := Option.some.inj h
      obtain ⟨same, status⟩ := offer_spec host manifest checkedAt
      exact ⟨same, .inr ⟨rfl, status⟩⟩

/-- With one channel and one list of skipped versions, results differ by the fallback alone. -/
theorem resultForManifest_again {preferences : UpdatePreferences} {fallback : Status}
    {checkedAt : Option Time} {found : Option ReleaseManifest} {result : UpdateCheckResult}
    (preferences' : UpdatePreferences) (fallback' : Status) (checkedAt' : Option Time)
    (channel : preferences'.channel = preferences.channel)
    (skips : preferences'.skippedVersions = preferences.skippedVersions)
    (h : resultForManifest host preferences fallback checkedAt found = some result) :
    ∃ again, resultForManifest host preferences' fallback' checkedAt' found = some again ∧
      (result.status = fallback ∧ again.status = fallback' ∨
        (result.status = .available ∨ result.status = .rejected) ∧
          again.status = result.status) := by
  cases found with
  | none =>
    obtain rfl := Option.some.inj h
    exact ⟨_, rfl, .inl ⟨rfl, rfl⟩⟩
  | some manifest =>
    obtain ⟨latest, hlatest, h⟩ := Option.bind_eq_some_iff.mp h
    obtain ⟨less, hless, h⟩ := Option.bind_eq_some_iff.mp h
    have held : isHeldBack preferences' manifest latest less =
        isHeldBack preferences manifest latest less := by
      rw [isHeldBack, isHeldBack, channel, skips]
    rw [resultForManifest]
    simp only [hlatest, hless, Option.bind_eq_bind, Option.bind_some, held]
    split at h
    · next back =>
      obtain rfl := Option.some.inj h
      exact ⟨_, if_pos back, .inl ⟨rfl, rfl⟩⟩
    · next back =>
      obtain rfl := Option.some.inj h
      refine ⟨_, if_neg back, .inr ⟨(offer_spec host manifest checkedAt).2, ?_⟩⟩
      rw [offer_checkedAt, offer_checkedAt host manifest checkedAt]

def UpdateCheckResult.IsSuccess (result : UpdateCheckResult) : Prop :=
  result.status = .current ∨ result.status = .available

instance (result : UpdateCheckResult) : Decidable result.IsSuccess :=
  inferInstanceAs (Decidable (_ ∨ _))

/-- What was found is a success for the channel. -/
def Succeeds (skipped : List Str) (channel : ReleaseChannel) (found : Option ReleaseManifest) :
    Prop :=
  ∃ result, resultForManifest host { enabled := true, channel, skippedVersions := skipped } .current
      none found = some result ∧ result.IsSuccess

/-- Every result that is no rejection is one for a success. -/
theorem Succeeds.of_result {skipped : List Str} {call : Call servers} {fallback : Status}
    {checkedAt : Option Time} {found : Option ReleaseManifest} {result : UpdateCheckResult}
    (h : resultForManifest host (call.preferences skipped) fallback checkedAt found = some result)
    (accepted : result.status ≠ .rejected) : Succeeds host skipped call.channel found := by
  obtain ⟨again, hagain, ⟨-, status⟩ | ⟨offered, status⟩⟩ := resultForManifest_again host
    { enabled := true, channel := call.channel, skippedVersions := skipped } .current none rfl rfl h
  · exact ⟨again, hagain, .inl status⟩
  · exact ⟨again, hagain, .inr (status.trans (offered.resolve_right accepted))⟩

/-- A success is reported as one. -/
theorem Succeeds.result {skipped : List Str} {found : Option ReleaseManifest}
    (call : Call servers) (checkedAt : Option Time)
    (h : Succeeds host skipped call.channel found) :
    ∃ result, resultForManifest host (call.preferences skipped) .current checkedAt found =
      some result ∧ result.IsSuccess := by
  obtain ⟨result, hresult, success⟩ := h
  obtain ⟨again, hagain, ⟨-, status⟩ | ⟨-, status⟩⟩ := resultForManifest_again host
    (call.preferences skipped) .current checkedAt rfl rfl hresult
  · exact ⟨again, hagain, .inl status⟩
  · exact ⟨again, hagain, by rwa [UpdateCheckResult.IsSuccess, status]⟩

end InferBridge.UpdateChecker
