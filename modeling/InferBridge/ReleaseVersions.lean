/-
InferBridge/ReleaseVersions.lean

The versions of releases (app/release_models.py) and the choice of an update
among them (`_candidate_manifest_url` in app/update_checker.py).

A release is a decoded JSON value.  What `str` makes of a value that is no
text, which numbers are zero, and `is_official_release_url` are parameters.
`int` takes at most 4300 digits, so that a comparison can raise.

Identifiers of a pre-release may have leading zeros.  Two that are the same
number are different as texts, and neither is less, so that their versions
are neither equal nor ordered.  Main result.  `versions_iff`: two versions
are ordered or equal, in exactly one way, unless their first different
identifiers are such numbers or too long; the order is transitive; and the
choice is the same for every order of the releases exactly if all
comparisons have an answer and two candidates that are not ordered are both
below a third.
-/
import InferBridge.Catalog
import InferBridge.Lib.Comparison

namespace InferBridge.ReleaseVersions

open Text Comparison

/-! ### Versions -/

structure SemanticVersion where
  major : Nat
  minor : Nat
  patch : Nat
  prerelease : List Str := []
  build : List Str := []
deriving DecidableEq

/-- `0|[1-9]\d*` -/
def isNumber : Str → Bool
  | [] => false
  | c :: rest =>
    (c = '0' && rest.isEmpty) ||
      (49 ≤ c.toNat && c.toNat ≤ 57 && rest.all DeviceCheck.isDecimal)

/-- `[0-9A-Za-z-]+` -/
def isIdentifier (s : Str) : Bool := !s.isEmpty && s.all fun c => isAlphanumeric c || c = '-'

/-- The identifiers behind a separator, and what stands in front of it. -/
def splitIdentifiers (separator : Char) (text : Str) : Option (Str × List Str) :=
  match text.dropWhile (· ≠ separator) with
  | [] => some (text, [])
  | _ :: rest =>
    let identifiers := rest.splitOn '.'
    if identifiers.all isIdentifier then some (text.takeWhile (· ≠ separator), identifiers)
    else none

/-- `SemanticVersion.parse`; `none` is a `ValueError`. -/
def SemanticVersion.parse (value : Str) : Option SemanticVersion :=
  (splitIdentifiers '+' (strip isSpace value)).bind fun (front, build) =>
    (splitIdentifiers '-' front).bind fun (core, prerelease) =>
      match core.splitOn '.' with
      | [major, minor, patch] =>
        if isNumber major && isNumber minor && isNumber patch then do
          let major ← DeviceCheck.digitsValue major
          let minor ← DeviceCheck.digitsValue minor
          let patch ← DeviceCheck.digitsValue patch
          some { major, minor, patch, prerelease, build }
        else none
      | _ => none

def SemanticVersion.precedence (v : SemanticVersion) : List Nat := [v.major, v.minor, v.patch]

/-- `__eq__` -/
def SemanticVersion.eq (a b : SemanticVersion) : Bool :=
  a.precedence = b.precedence && a.prerelease = b.prerelease

/-- `str.isdigit` of an identifier -/
def isNumeric (identifier : Str) : Bool :=
  !identifier.isEmpty && identifier.all fun c => 48 ≤ c.toNat && c.toNat ≤ 57

/-- The comparison of two different identifiers; `none` is a `ValueError` of `int`. -/
def identifierLess (left right : Str) : Option Bool :=
  if isNumeric left && isNumeric right then do
    let m ← DeviceCheck.digitsValue left
    let n ← DeviceCheck.digitsValue right
    some (decide (m < n))
  else if isNumeric left ≠ isNumeric right then some (isNumeric left)
  else some (decide (left < right))

/-- `__lt__`; `none` is a `ValueError`. -/
def SemanticVersion.lt (a b : SemanticVersion) : Option Bool :=
  if a.precedence ≠ b.precedence then some (decide (a.precedence < b.precedence))
  else if a.prerelease = [] then some false
  else if b.prerelease = [] then some true
  else lexLess identifierLess a.prerelease b.prerelease

/-- `__gt__`, as `total_ordering` derives it from `__lt__` -/
def SemanticVersion.gt (a b : SemanticVersion) : Option Bool :=
  (a.lt b).map fun less => !less && !a.eq b

/-! ### The choice of an update -/

inductive ReleaseChannel where
  | stable
  | beta
  | nightly
deriving DecidableEq, Repr

/-- `channel_accepts` of a parsed version -/
def channelAccepts (channel : ReleaseChannel) (parsed : SemanticVersion) : Bool :=
  match channel with
  | .stable => parsed.prerelease.isEmpty
  | .beta =>
    match parsed.prerelease with
    | [] => true
    | label :: _ =>
      "beta".toList.isPrefixOf (lower label) || "rc".toList.isPrefixOf (lower label)
  | .nightly => true

/-- What the choice relies on. -/
structure ReleaseHost where
  /-- `str` of a value that is not a text -/
  printed : JsonValue → Str
  isZero : Str → Bool
  /-- `is_official_release_url` -/
  isOfficial : Str → Bool

/-- `bool(value)` -/
def ReleaseHost.truthy (host : ReleaseHost) : JsonValue → Bool
  | .null => false
  | .bool b => b
  | .int n => n ≠ 0
  | .float literal => !host.isZero literal
  | .str s => !s.isEmpty
  | .arr items => !items.isEmpty
  | .obj fields => !fields.isEmpty

/-- `str(fields.get(key) or "")` -/
def ReleaseHost.text (host : ReleaseHost) (fields : List (Str × JsonValue)) (key : Str) : Str :=
  match fields.lookup key with
  | none => []
  | some (.str s) => s
  | some value => if host.truthy value then host.printed value else []

/-- `fields.get(key)`, as a condition -/
def ReleaseHost.flag (host : ReleaseHost) (fields : List (Str × JsonValue)) (key : Str) : Bool :=
  (fields.lookup key).any host.truthy

/-- `release.get("assets") or []`, of which only the objects count; `none` is a `TypeError`. -/
def ReleaseHost.assets (host : ReleaseHost) (release : List (Str × JsonValue)) :
    Option (List (List (Str × JsonValue))) :=
  match release.lookup "assets".toList with
  | none => some []
  | some (.arr items) =>
    some (items.filterMap fun
      | .obj fields => some fields
      | _ => none)
  | some (.str _) | some (.obj _) => some []
  | some value => if host.truthy value then none else some []

structure Candidate where
  parsed : SemanticVersion
  priority : Nat
  version : Str
  url : Str
deriving DecidableEq

/-- `reversed(_MANIFEST_PREFIXES)` -/
def manifestPrefixes : List Str :=
  ["OpenVINOWindowsLLM".toList, "OpenVINO-Windows-LLM".toList, "InferBridge".toList]

/-- `expected.get(name)` -/
def manifestPriority (version name : Str) : Option Nat :=
  (manifestPrefixes.findIdx? fun start =>
    start ++ '-' :: (version ++ "-release-manifest.json".toList) = name).map (· + 1)

/-- The candidate that an asset is. -/
def assetCandidate (host : ReleaseHost) (parsed : SemanticVersion) (version : Str)
    (asset : List (Str × JsonValue)) : Option Candidate :=
  (manifestPriority version (host.text asset "name".toList)).bind fun priority =>
    let url := host.text asset "browser_download_url".toList
    if host.isOfficial url then some { parsed, priority, version, url } else none

/-- The version that a tag names. -/
def tagVersion : Str → Str
  | 'v' :: version => version
  | tag => tag

/-- The candidates of one release; `none` is a `TypeError`. -/
def releaseCandidates (host : ReleaseHost) (channel : ReleaseChannel) :
    JsonValue → Option (List Candidate)
  | .obj release =>
    if host.flag release "draft".toList then some []
    else if channel = .stable ∧ host.flag release "prerelease".toList then some []
    else
      let version := tagVersion (host.text release "tag_name".toList)
      match SemanticVersion.parse version with
      | none => some []
      | some parsed =>
        if channelAccepts channel parsed = false then some []
        else (host.assets release).map fun assets =>
          assets.filterMap (assetCandidate host parsed version)
  | _ => some []

/-- The loop over the releases. -/
def candidates (host : ReleaseHost) (channel : ReleaseChannel) :
    List JsonValue → Option (List Candidate)
  | [] => some []
  | release :: releases =>
    (releaseCandidates host channel release).bind fun found =>
      (candidates host channel releases).map (found ++ ·)

/-- The comparison of two keys `(item[0], item[1])` -/
def Candidate.greater (a b : Candidate) : Option Bool :=
  if a.parsed.eq b.parsed then some (decide (b.priority < a.priority)) else a.parsed.gt b.parsed

inductive ReleaseError where
  | typeError
  | valueError
deriving DecidableEq, Repr

/-- `_candidate_manifest_url` of a list -/
def candidateManifestUrl (host : ReleaseHost) (channel : ReleaseChannel)
    (releases : List JsonValue) : Except ReleaseError (Option (Str × Str)) :=
  match candidates host channel releases with
  | none => .error .typeError
  | some [] => .ok none
  | some (first :: rest) =>
    match best Candidate.greater first rest with
    | none => .error .valueError
    | some choice => .ok (some (choice.version, choice.url))

/-! ### Identifiers -/

theorem isDecimal_of_digit {c : Char} (h : 48 ≤ c.toNat ∧ c.toNat ≤ 57) :
    DeviceCheck.isDecimal c = true := by
  apply List.any_eq_true.mpr
  exact ⟨0x30, List.mem_cons_self, by simpa using h⟩

/-- `int` refuses a numeric identifier for its length only. -/
theorem digitsValue_eq_none_iff {x : Str} (h : isNumeric x = true) :
    DeviceCheck.digitsValue x = none ↔ 4300 < x.length := by
  simp only [isNumeric, Bool.and_eq_true, Bool.not_eq_true', List.isEmpty_eq_false_iff,
    List.all_eq_true, decide_eq_true_eq] at h
  have hdigits : x.any (fun c => !DeviceCheck.isDecimal c) = false := by
    rw [List.any_eq_false]
    intro c hc
    simp [isDecimal_of_digit (h.2 c hc)]
  unfold DeviceCheck.digitsValue
  rw [hdigits]
  simp [h.1]

/-- When an identifier comes before another one. -/
inductive IdentifierBelow (x y : Str) : Prop where
  | number {m n : Nat} : isNumeric x = true → isNumeric y = true →
      DeviceCheck.digitsValue x = some m → DeviceCheck.digitsValue y = some n → m < n →
      IdentifierBelow x y
  | numberText : isNumeric x = true → isNumeric y = false → IdentifierBelow x y
  | text : isNumeric x = false → isNumeric y = false → x < y → IdentifierBelow x y

/-- Two numbers, and one of them is too long for `int`. -/
def LongNumbers (x y : Str) : Prop :=
  isNumeric x = true ∧ isNumeric y = true ∧ (4300 < x.length ∨ 4300 < y.length)

/-- Two spellings of one number. -/
def Respelled (x y : Str) : Prop :=
  isNumeric x = true ∧ isNumeric y = true ∧
    ∃ n, DeviceCheck.digitsValue x = some n ∧ DeviceCheck.digitsValue y = some n

variable {x y z : Str}

theorem identifierLess_numbers (hx : isNumeric x = true) (hy : isNumeric y = true) :
    identifierLess x y = (DeviceCheck.digitsValue x).bind fun m =>
      (DeviceCheck.digitsValue y).bind fun n => some (decide (m < n)) := by
  unfold identifierLess
  rw [hx, hy]
  rfl

theorem identifierLess_mixed (h : isNumeric x ≠ isNumeric y) :
    identifierLess x y = some (isNumeric x) := by
  unfold identifierLess
  rw [if_neg (by cases hx : isNumeric x <;> cases hy : isNumeric y <;> simp_all), if_pos h]

theorem identifierLess_texts (hx : isNumeric x = false) (hy : isNumeric y = false) :
    identifierLess x y = some (decide (x < y)) := by
  unfold identifierLess
  rw [hx, hy]
  rfl

theorem identifierLess_eq_true : identifierLess x y = some true ↔ IdentifierBelow x y := by
  constructor
  · intro h
    cases hx : isNumeric x <;> cases hy : isNumeric y
    · rw [identifierLess_texts hx hy] at h
      exact .text hx hy (by simpa using h)
    · rw [identifierLess_mixed (by rw [hx, hy]; decide), hx] at h
      cases h
    · exact .numberText hx hy
    · rw [identifierLess_numbers hx hy] at h
      obtain ⟨m, hm, h⟩ := Option.bind_eq_some_iff.mp h
      obtain ⟨n, hn, h⟩ := Option.bind_eq_some_iff.mp h
      exact .number hx hy hm hn (by simpa using h)
  · rintro (⟨hx, hy, hm, hn, hlt⟩ | ⟨hx, hy⟩ | ⟨hx, hy, hlt⟩)
    · rw [identifierLess_numbers hx hy, hm, hn]
      simpa using hlt
    · rw [identifierLess_mixed (by rw [hx, hy]; decide), hx]
    · rw [identifierLess_texts hx hy]
      simpa using hlt

theorem identifierLess_eq_none : identifierLess x y = none ↔ LongNumbers x y := by
  unfold LongNumbers
  cases hx : isNumeric x <;> cases hy : isNumeric y
  · simp [identifierLess_texts hx hy]
  · simp [identifierLess_mixed (show isNumeric x ≠ isNumeric y by rw [hx, hy]; decide)]
  · simp [identifierLess_mixed (show isNumeric x ≠ isNumeric y by rw [hx, hy]; decide)]
  · rw [identifierLess_numbers hx hy, ← digitsValue_eq_none_iff hx, ← digitsValue_eq_none_iff hy]
    rcases DeviceCheck.digitsValue x with - | m <;> rcases DeviceCheck.digitsValue y with - | n <;>
      simp

theorem IdentifierBelow.trans (h : IdentifierBelow x y) (h' : IdentifierBelow y z) :
    IdentifierBelow x z := by
  rcases h with ⟨hx, hy, hm, hn, hlt⟩ | ⟨hx, hy⟩ | ⟨hx, hy, hlt⟩
  · rcases h' with ⟨-, hz, hn', hk, hlt'⟩ | ⟨-, hz⟩ | ⟨hy', -, -⟩
    · obtain rfl := Option.some.inj (hn.symm.trans hn')
      exact .number hx hz hm hk (hlt.trans hlt')
    · exact .numberText hx hz
    · rw [hy] at hy'
      cases hy'
  · rcases h' with ⟨hy', -, -, -, -⟩ | ⟨hy', -⟩ | ⟨-, hz, -⟩
    · rw [hy] at hy'
      cases hy'
    · rw [hy] at hy'
      cases hy'
    · exact .numberText hx hz
  · rcases h' with ⟨hy', -, -, -, -⟩ | ⟨hy', -⟩ | ⟨-, hz, hlt'⟩
    · rw [hy] at hy'
      cases hy'
    · rw [hy] at hy'
      cases hy'
    · exact .text hx hz (lt_trans hlt hlt')

theorem IdentifierBelow.irrefl (x : Str) : ¬ IdentifierBelow x x := by
  rintro (⟨-, -, hm, hn, hlt⟩ | ⟨hx, hx'⟩ | ⟨-, -, hlt⟩)
  · obtain rfl := Option.some.inj (hm.symm.trans hn)
    exact lt_irrefl _ hlt
  · rw [hx] at hx'
    cases hx'
  · exact lt_irrefl _ hlt

/-- Two different identifiers are ordered, or too long, or two spellings of a number. -/
theorem identifiers_cases (hne : x ≠ y) :
    IdentifierBelow x y ∨ IdentifierBelow y x ∨ LongNumbers x y ∨ Respelled x y := by
  cases hx : isNumeric x <;> cases hy : isNumeric y
  · rcases lt_trichotomy x y with hlt | heq | hgt
    · exact .inl (.text hx hy hlt)
    · exact absurd heq hne
    · exact .inr (.inl (.text hy hx hgt))
  · exact .inr (.inl (.numberText hy hx))
  · exact .inl (.numberText hx hy)
  · rcases hm : DeviceCheck.digitsValue x with - | m
    · exact .inr (.inr (.inl ⟨hx, hy, .inl ((digitsValue_eq_none_iff hx).mp hm)⟩))
    · rcases hn : DeviceCheck.digitsValue y with - | n
      · exact .inr (.inr (.inl ⟨hx, hy, .inr ((digitsValue_eq_none_iff hy).mp hn)⟩))
      · rcases Nat.lt_trichotomy m n with hlt | rfl | hgt
        · exact .inl (.number hx hy hm hn hlt)
        · exact .inr (.inr (.inr ⟨hx, hy, m, hm, hn⟩))
        · exact .inr (.inl (.number hy hx hn hm hgt))

theorem Respelled.symm (h : Respelled x y) : Respelled y x := by
  obtain ⟨hx, hy, n, hm, hn⟩ := h
  exact ⟨hy, hx, n, hn, hm⟩

theorem LongNumbers.symm (h : LongNumbers x y) : LongNumbers y x := ⟨h.2.1, h.1, h.2.2.symm⟩

theorem Respelled.identifierLess (h : Respelled x y) : identifierLess x y = some false := by
  obtain ⟨hx, hy, n, hm, hn⟩ := h
  rw [identifierLess_numbers hx hy, hm, hn]
  simp

theorem IdentifierBelow.not_less (h : IdentifierBelow x y) : identifierLess y x = some false := by
  rcases hanswer : ReleaseVersions.identifierLess y x with - | (- | -)
  · have hnone := identifierLess_eq_none.mpr (identifierLess_eq_none.mp hanswer).symm
    rw [identifierLess_eq_true.mpr h] at hnone
    cases hnone
  · rfl
  · exact absurd (h.trans (identifierLess_eq_true.mp hanswer)) (IdentifierBelow.irrefl x)

/-! ### The order of the versions -/

/-- The first identifiers of two pre-releases of one version that are different. -/
def FirstDifference (a b : SemanticVersion) (x y : Str) : Prop :=
  a.precedence = b.precedence ∧
    ∃ p s t, a.prerelease = p ++ x :: s ∧ b.prerelease = p ++ y :: t ∧ x ≠ y

/-- When a version comes before another one. -/
inductive Below (a b : SemanticVersion) : Prop where
  | core : a.precedence < b.precedence → Below a b
  | release : a.precedence = b.precedence → a.prerelease ≠ [] → b.prerelease = [] → Below a b
  | longer {y : Str} {t : List Str} : a.precedence = b.precedence → a.prerelease ≠ [] →
      b.prerelease = a.prerelease ++ y :: t → Below a b
  | identifier {x y : Str} : FirstDifference a b x y → IdentifierBelow x y → Below a b

/-- The comparison asks for the value of a number that is too long. -/
def TooLong (a b : SemanticVersion) : Prop := ∃ x y, FirstDifference a b x y ∧ LongNumbers x y

/-- The first difference is in the spelling of a number. -/
def SameNumber (a b : SemanticVersion) : Prop := ∃ x y, FirstDifference a b x y ∧ Respelled x y

variable {a b c : SemanticVersion}

theorem FirstDifference.symm (h : FirstDifference a b x y) : FirstDifference b a y x := by
  obtain ⟨hcore, p, s, t, ha, hb, hne⟩ := h
  exact ⟨hcore.symm, p, t, s, hb, ha, hne.symm⟩

theorem lt_of_precedence_ne (h : a.precedence ≠ b.precedence) :
    a.lt b = some (decide (a.precedence < b.precedence)) := if_pos h

theorem lt_of_precedence_eq (h : a.precedence = b.precedence) :
    a.lt b = if a.prerelease = [] then some false
      else if b.prerelease = [] then some true
      else lexLess identifierLess a.prerelease b.prerelease := if_neg (not_not.mpr h)

/-- A release comes behind its pre-releases. -/
theorem lt_prerelease_iff (h : a.precedence = b.precedence) :
    a.lt b = some true ↔ a.prerelease ≠ [] ∧
      (b.prerelease = [] ∨ lexLess identifierLess a.prerelease b.prerelease = some true) := by
  rw [lt_of_precedence_eq h]
  by_cases ha : a.prerelease = []
  · simp [ha]
  · by_cases hb : b.prerelease = []
    · simp [ha, hb]
    · simp [ha, hb]

theorem FirstDifference.lt (h : FirstDifference a b x y) : a.lt b = identifierLess x y := by
  obtain ⟨hcore, p, s, t, ha, hb, hne⟩ := h
  rw [lt_of_precedence_eq hcore, ha, hb, if_neg (by simp), if_neg (by simp),
    lexLess_of_ne identifierLess hne]

theorem FirstDifference.eq_false (h : FirstDifference a b x y) : a.eq b = false := by
  obtain ⟨-, p, s, t, ha, hb, hne⟩ := h
  rw [SemanticVersion.eq, Bool.and_eq_false_iff]
  right
  rw [decide_eq_false_iff_not, ha, hb]
  intro heq
  exact hne (List.cons.inj (List.append_cancel_left heq)).1

theorem eq_true_iff : a.eq b = true ↔ a.precedence = b.precedence ∧ a.prerelease = b.prerelease := by
  simp [SemanticVersion.eq]

/-- `__lt__` computes the order. -/
theorem lt_eq_true_iff : a.lt b = some true ↔ Below a b := by
  constructor
  · intro h
    by_cases hcore : a.precedence = b.precedence
    · obtain ⟨ha, hb | h⟩ := (lt_prerelease_iff hcore).mp h
      · exact .release hcore ha hb
      · rcases first_difference a.prerelease b.prerelease with
          heq | ⟨y, t, heq⟩ | ⟨x, s, heq⟩ | ⟨p, x, s, y, t, hx, hy, hne⟩
        · rw [heq, lexLess_self] at h
          cases h
        · exact .longer hcore ha heq
        · rw [heq, (lexLess_continued identifierLess b.prerelease x s).2] at h
          cases h
        · rw [hx, hy, lexLess_of_ne identifierLess hne] at h
          exact .identifier ⟨hcore, p, s, t, hx, hy, hne⟩ (identifierLess_eq_true.mp h)
    · rw [lt_of_precedence_ne hcore] at h
      exact .core (by simpa using h)
  · rintro (hcore | ⟨hcore, ha, hb⟩ | ⟨hcore, ha, hlonger⟩ | ⟨hfirst, hbelow⟩)
    · rw [lt_of_precedence_ne (ne_of_lt hcore)]
      simpa using hcore
    · rw [lt_of_precedence_eq hcore, if_neg ha, if_pos hb]
    · rw [lt_of_precedence_eq hcore, if_neg ha, if_neg (by simp [hlonger]), hlonger,
        (lexLess_continued identifierLess a.prerelease _ _).1]
    · rw [hfirst.lt, identifierLess_eq_true.mpr hbelow]

theorem identifierLess_trans (h : identifierLess x y = some true)
    (h' : identifierLess y z = some true) : identifierLess x z = some true :=
  identifierLess_eq_true.mpr ((identifierLess_eq_true.mp h).trans (identifierLess_eq_true.mp h'))

theorem SemanticVersion.lt_transitive (h : a.lt b = some true) (h' : b.lt c = some true) : a.lt c = some true := by
  by_cases hab : a.precedence = b.precedence
  · by_cases hbc : b.precedence = c.precedence
    · obtain ⟨ha, h⟩ := (lt_prerelease_iff hab).mp h
      obtain ⟨hb, h'⟩ := (lt_prerelease_iff hbc).mp h'
      refine (lt_prerelease_iff (hab.trans hbc)).mpr ⟨ha, ?_⟩
      rcases h with hnone | h
      · exact absurd hnone hb
      · rcases h' with hnone | h'
        · exact .inl hnone
        · exact .inr (lexLess_trans identifierLess identifierLess_trans
            (fun x hx => IdentifierBelow.irrefl x (identifierLess_eq_true.mp hx)) h h')
    · have hac : a.precedence ≠ c.precedence := by rwa [hab]
      rw [lt_of_precedence_ne hbc] at h'
      rw [lt_of_precedence_ne hac, hab]
      exact h'
  · rw [lt_of_precedence_ne hab] at h
    have hlt : a.precedence < b.precedence := by simpa using h
    by_cases hbc : b.precedence = c.precedence
    · rw [lt_of_precedence_ne (by rwa [← hbc]), ← hbc]
      exact h
    · rw [lt_of_precedence_ne hbc] at h'
      have hlt' : b.precedence < c.precedence := by simpa using h'
      have hac := lt_trans hlt hlt'
      rw [lt_of_precedence_ne (ne_of_lt hac)]
      simpa using hac

theorem Below.trans (h : Below a b) (h' : Below b c) : Below a c :=
  lt_eq_true_iff.mp (SemanticVersion.lt_transitive (lt_eq_true_iff.mpr h) (lt_eq_true_iff.mpr h'))

theorem lt_self (a : SemanticVersion) : a.lt a = some false := by
  rw [lt_of_precedence_eq rfl, lexLess_self]
  split_ifs <;> rfl

theorem Below.irrefl (a : SemanticVersion) : ¬ Below a a := by
  intro h
  have hlt := lt_eq_true_iff.mpr h
  rw [lt_self] at hlt
  cases hlt

theorem lt_eq_none_iff : a.lt b = none ↔ TooLong a b := by
  constructor
  · intro h
    by_cases hcore : a.precedence = b.precedence
    · rw [lt_of_precedence_eq hcore] at h
      split_ifs at h with ha hb
      rcases first_difference a.prerelease b.prerelease with
        heq | ⟨y, t, heq⟩ | ⟨x, s, heq⟩ | ⟨p, x, s, y, t, hx, hy, hne⟩
      · rw [heq, lexLess_self] at h
        cases h
      · rw [heq, (lexLess_continued identifierLess a.prerelease y t).1] at h
        cases h
      · rw [heq, (lexLess_continued identifierLess b.prerelease x s).2] at h
        cases h
      · rw [hx, hy, lexLess_of_ne identifierLess hne] at h
        exact ⟨x, y, ⟨hcore, p, s, t, hx, hy, hne⟩, identifierLess_eq_none.mp h⟩
    · rw [lt_of_precedence_ne hcore] at h
      cases h
  · rintro ⟨x, y, hfirst, hlong⟩
    rw [hfirst.lt, identifierLess_eq_none.mpr hlong]

theorem TooLong.symm (h : TooLong a b) : TooLong b a := by
  obtain ⟨x, y, hfirst, hlong⟩ := h
  exact ⟨y, x, hfirst.symm, hlong.symm⟩

theorem SameNumber.symm (h : SameNumber a b) : SameNumber b a := by
  obtain ⟨x, y, hfirst, hsame⟩ := h
  exact ⟨y, x, hfirst.symm, hsame.symm⟩

theorem SameNumber.lt (h : SameNumber a b) : a.lt b = some false := by
  obtain ⟨x, y, hfirst, hsame⟩ := h
  rw [hfirst.lt, hsame.identifierLess]

/-- Where a version is below another one, the opposite comparison says no. -/
theorem Below.not_lt (h : Below a b) : b.lt a = some false := by
  rcases hanswer : b.lt a with - | (- | -)
  · have hnone := lt_eq_none_iff.mpr (lt_eq_none_iff.mp hanswer).symm
    rw [lt_eq_true_iff.mpr h] at hnone
    cases hnone
  · rfl
  · exact absurd (h.trans (lt_eq_true_iff.mp hanswer)) (Below.irrefl a)

theorem Below.eq_false (h : Below a b) : a.eq b = false := by
  rw [Bool.eq_false_iff]
  intro heq
  obtain ⟨hcore, hpre⟩ := eq_true_iff.mp heq
  obtain ⟨ha, hb | hlt⟩ := (lt_prerelease_iff hcore).mp (lt_eq_true_iff.mpr h)
  · exact ha (hpre.trans hb)
  · rw [hpre, lexLess_self] at hlt
    cases hlt

theorem eq_symm (a b : SemanticVersion) : a.eq b = b.eq a := by
  rw [Bool.eq_iff_iff, eq_true_iff, eq_true_iff]
  exact ⟨fun h => ⟨h.1.symm, h.2.symm⟩, fun h => ⟨h.1.symm, h.2.symm⟩⟩

/-- Two versions are equal, ordered, too long to be compared, or spell a number differently. -/
theorem versions_cases (a b : SemanticVersion) :
    a.eq b = true ∨ Below a b ∨ Below b a ∨ TooLong a b ∨ SameNumber a b := by
  by_cases hcore : a.precedence = b.precedence
  · by_cases ha : a.prerelease = []
    · by_cases hb : b.prerelease = []
      · exact .inl (eq_true_iff.mpr ⟨hcore, ha.trans hb.symm⟩)
      · exact .inr (.inr (.inl (.release hcore.symm hb ha)))
    · by_cases hb : b.prerelease = []
      · exact .inr (.inl (.release hcore ha hb))
      · rcases first_difference a.prerelease b.prerelease with
          heq | ⟨y, t, heq⟩ | ⟨x, s, heq⟩ | ⟨p, x, s, y, t, hx, hy, hne⟩
        · exact .inl (eq_true_iff.mpr ⟨hcore, heq⟩)
        · exact .inr (.inl (.longer hcore ha heq))
        · exact .inr (.inr (.inl (.longer hcore.symm hb heq)))
        · have hfirst : FirstDifference a b x y := ⟨hcore, p, s, t, hx, hy, hne⟩
          rcases identifiers_cases hne with hbelow | habove | hlong | hsame
          · exact .inr (.inl (.identifier hfirst hbelow))
          · exact .inr (.inr (.inl (.identifier hfirst.symm habove)))
          · exact .inr (.inr (.inr (.inl ⟨x, y, hfirst, hlong⟩)))
          · exact .inr (.inr (.inr (.inr ⟨x, y, hfirst, hsame⟩)))
  · rcases lt_trichotomy a.precedence b.precedence with hlt | heq | hgt
    · exact .inr (.inl (.core hlt))
    · exact absurd heq hcore
    · exact .inr (.inr (.inl (.core hgt)))

/-- Both comparisons have an answer, and exactly one of `a < b`, `a == b` and `b < a` holds. -/
def ExactlyOne (a b : SemanticVersion) : Prop :=
  (a.lt b = some true ∧ a.eq b = false ∧ b.lt a = some false) ∨
    (a.lt b = some false ∧ a.eq b = true ∧ b.lt a = some false) ∨
    (a.lt b = some false ∧ a.eq b = false ∧ b.lt a = some true)

theorem exactlyOne_iff : ExactlyOne a b ↔ ¬ TooLong a b ∧ ¬ SameNumber a b := by
  constructor
  · intro hone
    constructor
    · intro hlong
      have hnone := lt_eq_none_iff.mpr hlong
      rcases hone with ⟨h, -⟩ | ⟨h, -⟩ | ⟨h, -⟩ <;>
        · rw [hnone] at h
          cases h
    · intro hsame
      have heq : a.eq b = false := by
        obtain ⟨x, y, hfirst, -⟩ := hsame
        exact hfirst.eq_false
      rcases hone with ⟨h, -⟩ | ⟨-, h, -⟩ | ⟨-, -, h⟩
      · rw [hsame.lt] at h
        cases h
      · rw [heq] at h
        cases h
      · rw [hsame.symm.lt] at h
        cases h
  · rintro ⟨hlong, hsame⟩
    rcases versions_cases a b with heq | hbelow | habove | hlong' | hsame'
    · obtain ⟨hcore, hpre⟩ := eq_true_iff.mp heq
      have hlt : a.lt b = some false := by
        rw [lt_of_precedence_eq hcore, hpre, lexLess_self]
        split_ifs <;> rfl
      have hgt : b.lt a = some false := by
        rw [lt_of_precedence_eq hcore.symm, hpre, lexLess_self]
        split_ifs <;> rfl
      exact .inr (.inl ⟨hlt, heq, hgt⟩)
    · exact .inl ⟨lt_eq_true_iff.mpr hbelow, hbelow.eq_false, hbelow.not_lt⟩
    · refine .inr (.inr ⟨habove.not_lt, ?_, lt_eq_true_iff.mpr habove⟩)
      rw [eq_symm]
      exact habove.eq_false
    · exact absurd hlong' hlong
    · exact absurd hsame' hsame

/-! ### The candidates of a permuted list -/

variable {host : ReleaseHost} {channel : ReleaseChannel} {releases releases' : List JsonValue}
variable {cs : List Candidate}

theorem candidates_cons {release : JsonValue} :
    candidates host channel (release :: releases) = some cs ↔
      ∃ found others, releaseCandidates host channel release = some found ∧
        candidates host channel releases = some others ∧ cs = found ++ others := by
  rw [candidates, Option.bind_eq_some_iff]
  constructor
  · rintro ⟨found, hfound, hothers⟩
    obtain ⟨others, hrest, rfl⟩ := Option.map_eq_some_iff.mp hothers
    exact ⟨found, others, hfound, hrest, rfl⟩
  · rintro ⟨found, others, hfound, hothers, rfl⟩
    exact ⟨found, hfound, by rw [hothers]; rfl⟩

theorem candidates_perm (h : releases.Perm releases')
    (hcs : candidates host channel releases = some cs) :
    ∃ cs', candidates host channel releases' = some cs' ∧ cs.Perm cs' := by
  induction h generalizing cs with
  | nil => exact ⟨cs, hcs, .refl cs⟩
  | cons release _ ih =>
    obtain ⟨found, others, hfound, hothers, rfl⟩ := candidates_cons.mp hcs
    obtain ⟨others', hothers', hperm⟩ := ih hothers
    exact ⟨found ++ others', candidates_cons.mpr ⟨found, others', hfound, hothers', rfl⟩,
      hperm.append_left found⟩
  | swap first second rest =>
    obtain ⟨found, others, hfound, hothers, rfl⟩ := candidates_cons.mp hcs
    obtain ⟨found', others', hfound', hothers', rfl⟩ := candidates_cons.mp hothers
    refine ⟨found' ++ (found ++ others'), ?_, ?_⟩
    · exact candidates_cons.mpr
        ⟨found', _, hfound', candidates_cons.mpr ⟨found, others', hfound, hothers', rfl⟩, rfl⟩
    · rw [← List.append_assoc, ← List.append_assoc]
      exact List.perm_append_comm.append_right others'
  | trans _ _ ih ih' =>
    obtain ⟨cs', hcs', hperm⟩ := ih hcs
    obtain ⟨cs'', hcs'', hperm'⟩ := ih' hcs'
    exact ⟨cs'', hcs'', hperm.trans hperm'⟩

/-- A candidate comes from one of the releases. -/
theorem exists_release {c : Candidate} (hcs : candidates host channel releases = some cs)
    (hc : c ∈ cs) : ∃ release rest found others, releases.Perm (release :: rest) ∧
      releaseCandidates host channel release = some found ∧
      candidates host channel rest = some others ∧ c ∈ found ∧ cs.Perm (found ++ others) := by
  induction releases generalizing cs with
  | nil =>
    obtain rfl := Option.some.inj hcs
    cases hc
  | cons release releases ih =>
    obtain ⟨found, others, hfound, hothers, rfl⟩ := candidates_cons.mp hcs
    rcases List.mem_append.mp hc with hc | hc
    · exact ⟨release, releases, found, others, .refl _, hfound, hothers, hc, .refl _⟩
    · obtain ⟨release', rest, found', others', hperm, hfound', hothers', hc', hcs'⟩ :=
        ih hothers hc
      refine ⟨release', release :: rest, found', found ++ others', ?_, hfound', ?_, hc', ?_⟩
      · exact (hperm.cons release).trans (.swap release' release rest)
      · exact candidates_cons.mpr ⟨found, others', hfound, hothers', rfl⟩
      · refine (hcs'.append_left found).trans ?_
        rw [← List.append_assoc, ← List.append_assoc]
        exact List.perm_append_comm.append_right others'

theorem eq_version_of_mem {release : JsonValue} {found : List Candidate}
    (hfound : releaseCandidates host channel release = some found) {c d : Candidate}
    (hc : c ∈ found) (hd : d ∈ found) : c.parsed = d.parsed := by
  have hparsed (parsed : SemanticVersion) (version : Str) (assets : List (List (Str × JsonValue)))
      {e : Candidate} (he : e ∈ assets.filterMap (assetCandidate host parsed version)) :
      e.parsed = parsed := by
    obtain ⟨asset, -, hasset⟩ := List.mem_filterMap.mp he
    obtain ⟨priority, -, hasset⟩ := Option.bind_eq_some_iff.mp hasset
    dsimp only at hasset
    split_ifs at hasset
    obtain rfl := Option.some.inj hasset
    rfl
  have hnone {found : List Candidate} (h : some [] = some found) (hc : c ∈ found) :
      c.parsed = d.parsed := by
    obtain rfl := Option.some.inj h
    cases hc
  cases release with
  | obj fields =>
    unfold releaseCandidates at hfound
    dsimp only at hfound
    split_ifs at hfound
    · exact hnone hfound hc
    · exact hnone hfound hc
    · split at hfound
      · exact hnone hfound hc
      · next parsed _ =>
        split_ifs at hfound
        · exact hnone hfound hc
        · obtain ⟨assets, -, rfl⟩ := Option.map_eq_some_iff.mp hfound
          rw [hparsed parsed _ assets hc, hparsed parsed _ assets hd]
  | _ => exact hnone hfound hc

/-- The candidates have pairwise unequal versions. -/
def Unequal (cs : List Candidate) : Prop := cs.Pairwise fun c d => c.parsed.eq d.parsed = false

theorem Unequal.perm {cs' : List Candidate} (h : Unequal cs) (hperm : cs.Perm cs') : Unequal cs' :=
  hperm.pairwise h fun hcd => by rw [eq_symm]; exact hcd

theorem eq_self (a : SemanticVersion) : a.eq a = true := eq_true_iff.mpr ⟨rfl, rfl⟩

theorem Unequal.eq_false (h : Unequal cs) {c d : Candidate} (hc : c ∈ cs) (hd : d ∈ cs)
    (hne : c ≠ d) : c.parsed.eq d.parsed = false := by
  have hsymm : Std.Symm fun c d : Candidate => c.parsed.eq d.parsed = false :=
    ⟨fun c d hcd => by rw [eq_symm]; exact hcd⟩
  exact List.Pairwise.forall h hc hd hne

/-- Then a release has at most one. -/
theorem Unequal.found_eq {release : JsonValue} {found others : List Candidate}
    (h : Unequal (found ++ others))
    (hfound : releaseCandidates host channel release = some found) {c : Candidate}
    (hc : c ∈ found) : found = [c] := by
  have hpair := (List.pairwise_append.mp h).1
  rcases found with - | ⟨first, rest⟩
  · cases hc
  · rcases rest with - | ⟨second, rest⟩
    · obtain rfl : c = first := by simpa using hc
      rfl
    · have hunequal := (List.pairwise_cons.mp hpair).1 second List.mem_cons_self
      have hsame := eq_version_of_mem hfound List.mem_cons_self
        (List.mem_cons_of_mem first List.mem_cons_self)
      rw [hsame, eq_self] at hunequal
      cases hunequal

/-- The releases can be ordered so that two candidates come first. -/
theorem exists_order {c d : Candidate} (hcs : candidates host channel releases = some cs)
    (h : Unequal cs) (hc : c ∈ cs) (hd : d ∈ cs) (hne : c ≠ d) :
    ∃ releases' rest, releases'.Perm releases ∧
      candidates host channel releases' = some (c :: d :: rest) := by
  obtain ⟨release, others, found, cs', hperm, hfound, hcs', hc', hsplit⟩ := exists_release hcs hc
  have hunequal := h.perm hsplit
  obtain rfl := hunequal.found_eq hfound hc'
  have hd' : d ∈ cs' := by
    rcases List.mem_append.mp (hsplit.mem_iff.mp hd) with hd' | hd'
    · exact absurd (by simpa using hd' : d = c).symm hne
    · exact hd'
  obtain ⟨release', others', found', cs'', hperm', hfound', hcs'', hd'', hsplit'⟩ :=
    exists_release hcs' hd'
  have hunequal' : Unequal (found' ++ cs'') :=
    Unequal.perm (List.pairwise_append.mp hunequal).2.1 hsplit'
  obtain rfl := hunequal'.found_eq hfound' hd''
  refine ⟨release :: release' :: others', cs'', ?_, ?_⟩
  · exact ((hperm'.cons release).symm.trans hperm.symm)
  · exact candidates_cons.mpr ⟨[c], _, hfound,
      candidates_cons.mpr ⟨[d], cs'', hfound', hcs'', rfl⟩, rfl⟩

/-! ### The choice -/

/-- Every order of the releases gives the same choice, and it is above all other candidates. -/
def Chooses (host : ReleaseHost) (channel : ReleaseChannel) (releases : List JsonValue)
    (cs : List Candidate) : Prop :=
  ∃ choice, (∀ releases' : List JsonValue, releases'.Perm releases →
      candidateManifestUrl host channel releases' = .ok choice) ∧
    (choice = none → cs = []) ∧
    ∀ version url, choice = some (version, url) → ∃ c ∈ cs, c.version = version ∧ c.url = url ∧
      ∀ d ∈ cs, d ≠ c → d.parsed.lt c.parsed = some true

/-- Two candidates can always be compared, and where they spell a number differently another
candidate is above them both. -/
def Decided (cs : List Candidate) : Prop :=
  ∀ c ∈ cs, ∀ d ∈ cs, ¬ TooLong c.parsed d.parsed ∧
    (SameNumber c.parsed d.parsed → ∃ e ∈ cs, Below c.parsed e.parsed ∧ Below d.parsed e.parsed)

theorem greater_of_eq_false {c d : Candidate} (h : c.parsed.eq d.parsed = false) :
    c.greater d = (c.parsed.lt d.parsed).map fun less => !less := by
  unfold Candidate.greater SemanticVersion.gt
  rw [h]
  simp

theorem greater_self (c : Candidate) : c.greater c = some false := by
  unfold Candidate.greater
  rw [eq_self]
  simp

theorem greater_of_below {c d : Candidate} (h : Below d.parsed c.parsed) :
    c.greater d = some true ∧ d.greater c = some false := by
  have heq := h.eq_false
  constructor
  · rw [greater_of_eq_false (by rw [eq_symm]; exact heq), h.not_lt]
    rfl
  · rw [greater_of_eq_false heq, lt_eq_true_iff.mpr h]
    rfl

/-- The scan finds the candidate that is above all others, in whatever order they come. -/
theorem candidateManifestUrl_of_above (hcs : candidates host channel releases = some cs)
    (hunequal : Unequal cs) (hlong : ∀ c ∈ cs, ∀ d ∈ cs, ¬ TooLong c.parsed d.parsed)
    {g : Candidate} (hg : g ∈ cs) (habove : ∀ c ∈ cs, c ≠ g → Below c.parsed g.parsed) :
    candidateManifestUrl host channel releases = .ok (some (g.version, g.url)) := by
  rcases cs with - | ⟨first, rest⟩
  · cases hg
  · have hbest : best Candidate.greater first rest = some g := by
      apply best_eq_of_above
      · intro c hc d hd hne
        rw [greater_of_eq_false (hunequal.eq_false hc hd hne), ne_eq, Option.map_eq_none_iff,
          lt_eq_none_iff]
        exact hlong c hc d hd
      · exact fun c hc hne => greater_of_below (habove c hc hne)
      · exact greater_self
      · exact hg
    rw [candidateManifestUrl, hcs]
    show (match best Candidate.greater first rest with
      | none => _
      | some choice => _) = _
    rw [hbest]

theorem chooses_iff (hcs : candidates host channel releases = some cs) (hunequal : Unequal cs) :
    Chooses host channel releases cs ↔ Decided cs := by
  constructor
  · rintro ⟨choice, hsame, hnone, hchosen⟩
    -- two candidates that come first are compared
    have hlong : ∀ c ∈ cs, ∀ d ∈ cs, c ≠ d → ¬ TooLong c.parsed d.parsed := by
      intro c hc d hd hne htoo
      obtain ⟨releases', rest, hperm, hcs'⟩ := exists_order hcs hunequal hd hc hne.symm
      have hresult := hsame releases' hperm
      have hdefined : best Candidate.greater d (c :: rest) ≠ none := by
        intro hfails
        rw [candidateManifestUrl, hcs'] at hresult
        dsimp only at hresult
        rw [hfails] at hresult
        cases hresult
      apply best_ne_none hdefined
      rw [greater_of_eq_false (hunequal.eq_false hc hd hne), lt_eq_none_iff.mpr htoo]
      rfl
    intro c hc d hd
    constructor
    · by_cases hne : c = d
      · rintro ⟨x, y, hfirst, -⟩
        have heq := hfirst.eq_false
        rw [hne, eq_self] at heq
        cases heq
      · exact hlong c hc d hd hne
    · intro hnumber
      rcases choice with - | ⟨version, url⟩
      · rw [hnone rfl] at hc
        cases hc
      · obtain ⟨e, he, -, -, habove⟩ := hchosen version url rfl
        refine ⟨e, he, ?_, ?_⟩
        · apply lt_eq_true_iff.mp
          apply habove c hc
          rintro rfl
          have hlt := habove d hd (by
            rintro rfl
            obtain ⟨x, y, hfirst, -⟩ := hnumber
            have heq := hfirst.eq_false
            rw [eq_self] at heq
            cases heq)
          rw [hnumber.symm.lt] at hlt
          cases hlt
        · apply lt_eq_true_iff.mp
          apply habove d hd
          rintro rfl
          have hlt := habove c hc (by
            rintro rfl
            obtain ⟨x, y, hfirst, -⟩ := hnumber
            have heq := hfirst.eq_false
            rw [eq_self] at heq
            cases heq)
          rw [hnumber.lt] at hlt
          cases hlt
  · intro hdecided
    rcases hempty : cs with - | ⟨first, rest⟩
    · subst hempty
      refine ⟨none, ?_, fun _ => rfl, ?_⟩
      · intro releases' hperm
        obtain ⟨cs', hcs', hnil⟩ := candidates_perm hperm.symm hcs
        rw [candidateManifestUrl, hcs', hnil.nil_eq.symm]
      · intro version url hsome
        cases hsome
    · rw [← hempty]
      have habove : ∃ g ∈ cs, ∀ c ∈ cs, c ≠ g → Below c.parsed g.parsed := by
        apply @exists_above _ (fun c d : Candidate => Below c.parsed d.parsed) Below.trans
          (fun c => Below.irrefl c.parsed)
        · rw [hempty]
          exact List.cons_ne_nil first rest
        · intro c hc d hd hne
          rcases versions_cases c.parsed d.parsed with heq | hbelow | habove | hlong | hnumber
          · rw [hunequal.eq_false hc hd hne] at heq
            cases heq
          · exact .inl hbelow
          · exact .inr (.inl habove)
          · exact absurd hlong (hdecided c hc d hd).1
          · exact .inr (.inr ((hdecided c hc d hd).2 hnumber))
      obtain ⟨g, hg, habove⟩ := habove
      refine ⟨some (g.version, g.url), ?_, ?_, ?_⟩
      · intro releases' hperm
        obtain ⟨cs', hcs', hperm'⟩ := candidates_perm hperm.symm hcs
        apply candidateManifestUrl_of_above hcs' (hunequal.perm hperm')
        · exact fun c hc d hd =>
            (hdecided c (hperm'.mem_iff.mpr hc) d (hperm'.mem_iff.mpr hd)).1
        · exact hperm'.mem_iff.mp hg
        · exact fun c hc hne => habove c (hperm'.mem_iff.mpr hc) hne
      · intro hnone
        cases hnone
      · rintro version url hsome
        cases hsome
        exact ⟨g, hg, rfl, rfl, fun d hd hne => lt_eq_true_iff.mpr (habove d hd hne)⟩

/-- **Versions and updates.** Of two accepted versions exactly one of less, equal and greater
holds, unless their first different identifiers are numbers that are too long or one number
spelled twice; less is transitive; build metadata is not compared; and from candidates with
unequal versions the same one, above all others, is chosen in every order of the releases
exactly if they are decided. -/
theorem versions_iff (host : ReleaseHost) :
    (∀ s t a b, SemanticVersion.parse s = some a → SemanticVersion.parse t = some b →
      (ExactlyOne a b ↔ ¬ TooLong a b ∧ ¬ SameNumber a b)) ∧
    (∀ s t u a b c, SemanticVersion.parse s = some a → SemanticVersion.parse t = some b →
      SemanticVersion.parse u = some c → a.lt b = some true → b.lt c = some true →
      a.lt c = some true) ∧
    (∀ s t a b, SemanticVersion.parse s = some a → SemanticVersion.parse t = some b →
      { a with build := b.build } = b → a.eq b = true) ∧
    ∀ channel releases cs, candidates host channel releases = some cs → Unequal cs →
      (Chooses host channel releases cs ↔ Decided cs) := by
  refine ⟨?_, ?_, ?_, ?_⟩
  · exact fun _ _ _ _ _ _ => exactlyOne_iff
  · exact fun _ _ _ _ _ _ _ _ _ h h' => SemanticVersion.lt_transitive h h'
  · intro s t a b _ _ hbuild
    apply eq_true_iff.mpr
    rw [← hbuild]
    exact ⟨rfl, rfl⟩
  · exact fun channel releases cs hcs hunequal => chooses_iff hcs hunequal

/-! ### A leading zero -/

def parsedOne (prerelease : Str) : SemanticVersion :=
  { major := 1, minor := 0, patch := 0, prerelease := [prerelease] }

theorem parse_leadingZero :
    SemanticVersion.parse "1.0.0-01".toList = some (parsedOne "01".toList) ∧
      SemanticVersion.parse "1.0.0-1".toList = some (parsedOne "1".toList) := by
  decide +kernel

/-- `1.0.0-01` and `1.0.0-1` are neither equal nor ordered. -/
theorem leadingZero_unordered :
    ¬ ∀ s t a b, SemanticVersion.parse s = some a → SemanticVersion.parse t = some b →
      ExactlyOne a b := by
  intro h
  have hone := h _ _ _ _ parse_leadingZero.1 parse_leadingZero.2
  unfold ExactlyOne at hone
  revert hone
  decide +kernel

end InferBridge.ReleaseVersions
