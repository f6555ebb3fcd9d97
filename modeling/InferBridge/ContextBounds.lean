/-
InferBridge/ContextBounds.lean

The context that the metadata of a model allows
(app/context_configuration.py).

CatalogPersistence checks a context against a bound that is given; here the
bound is read from `config.json`, the decoded object, and the checks have
their messages.

A limit above the cap of 262144 tokens counts as no limit at all, and without
a limit the recommended context is the bound.  So a larger limit can allow
less.  Main result.  `larger_allows_iff`: raising the limits of a model takes
nothing away exactly if a limit within the cap remains, or there was none
before, or the smallest of them was within the recommendation.
-/
import InferBridge.CatalogPersistence

namespace InferBridge.ContextConfiguration

/-! ### The limit -/

/-- The content of `config.json`. -/
abbrev Metadata := List (Str × JsonValue)

/-- `_positive_int` of `metadata.get(key)` -/
def positiveInt : Option JsonValue → Option Int
  | some (.int value) => if 0 < value ∧ value ≤ maxContext then some value else none
  | _ => none

/-- The keys that bound the context. -/
def limitKeys : List Str :=
  ["max_position_embeddings".toList, "n_positions".toList, "n_ctx".toList,
    "sliding_window".toList]

/-- `model_limit`; no value that counts is zero, so that `any` asks whether there is one. -/
def modelLimit (metadata : Metadata) : Option Int :=
  (limitKeys.filterMap fun key => positiveInt (metadata.lookup key)).min?

/-! ### The checks -/

/-- `ContextValidationError` -/
inductive ContextError where
  | embeddings
  | range
  | reserve
  | architecture
  | unverified
deriving DecidableEq, Repr

def ContextError.message : ContextError → String
  | .embeddings => "Embedding models do not support chat context configuration."
  | .range => "Context must be a whole number between 128 and 262144."
  | .reserve => "Context must leave at least 64 prompt tokens beyond output reserve."
  | .architecture => "Requested context exceeds the converted model's architecture limit."
  | .unverified => "Cannot increase context without verified local model architecture metadata."

/-- `type(requested) is int` and in range -/
def contextTokens : JsonValue → Option Int
  | .int requested => if 128 ≤ requested ∧ requested ≤ maxContext then some requested else none
  | _ => none

/-- The last checks of `validate_context`, against the limit of the metadata. -/
def checkLimit (cfg : ModelConfig) (tokens : Int) : Option Int → Except ContextError Unit
  | some limit => if limit < tokens then .error .architecture else .ok ()
  | none => if cfg.recommendedOrMax < tokens then .error .unverified else .ok ()

/-- `validate_context` -/
def validateContext (cfg : ModelConfig) (requested : JsonValue) (metadata : Metadata) :
    Except ContextError Unit :=
  if cfg.backend = .embeddings then .error .embeddings
  else
    match contextTokens requested with
    | none => .error .range
    | some tokens =>
      if tokens ≤ cfg.maxOutputTokens + 64 then .error .reserve
      else checkLimit cfg tokens (modelLimit metadata)

/-- `context_bounds` -/
def contextBounds (cfg : ModelConfig) (metadata : Metadata) : Int × Int :=
  (max 128 (cfg.maxOutputTokens + 65),
    min ((modelLimit metadata).getD cfg.recommendedOrMax) maxContext)

/-! ### What is accepted -/

variable {cfg : ModelConfig} {metadata metadata' : Metadata}

/-- The context that bounds a request: the limit, or else the recommendation. -/
def bound (cfg : ModelConfig) (metadata : Metadata) : Int :=
  (modelLimit metadata).getD cfg.recommendedOrMax

theorem contextTokens_eq_some {requested : JsonValue} {tokens : Int} :
    contextTokens requested = some tokens ↔
      requested = .int tokens ∧ 128 ≤ tokens ∧ tokens ≤ maxContext := by
  constructor
  · intro h
    cases requested with
    | int n =>
      rw [contextTokens] at h
      split_ifs at h with hrange
      obtain rfl := Option.some.inj h
      exact ⟨rfl, hrange⟩
    | _ => cases h
  · rintro ⟨rfl, hrange⟩
    exact if_pos hrange

theorem checkLimit_eq_ok {tokens : Int} :
    checkLimit cfg tokens (modelLimit metadata) = .ok () ↔ tokens ≤ bound cfg metadata := by
  rw [bound]
  rcases modelLimit metadata with - | limit
  · show (if cfg.recommendedOrMax < tokens then _ else _) = _ ↔ tokens ≤ cfg.recommendedOrMax
    split_ifs with h <;> simp <;> omega
  · show (if limit < tokens then _ else _) = _ ↔ tokens ≤ limit
    split_ifs with h <;> simp <;> omega

theorem validateContext_eq_ok {requested : JsonValue} :
    validateContext cfg requested metadata = .ok () ↔
      ∃ tokens, requested = .int tokens ∧ cfg.backend ≠ .embeddings ∧
        (128 ≤ tokens ∧ tokens ≤ maxContext) ∧ cfg.maxOutputTokens + 64 < tokens ∧
        tokens ≤ bound cfg metadata := by
  unfold validateContext
  split
  · next hembeddings => simp [hembeddings]
  · next hbackend =>
    rcases htokens : contextTokens requested with - | tokens
    · constructor
      · intro h
        cases h
      · rintro ⟨tokens, hint, -, hrange, -⟩
        rw [contextTokens_eq_some.mpr ⟨hint, hrange⟩] at htokens
        cases htokens
    · obtain ⟨hint, hrange⟩ := contextTokens_eq_some.mp htokens
      show (if tokens ≤ cfg.maxOutputTokens + 64 then _ else _) = _ ↔ _
      split_ifs with hreserve
      · constructor
        · intro h
          cases h
        · rintro ⟨tokens', hint', -, -, hreserve', -⟩
          obtain rfl : tokens = tokens' := by
            have heq := hint.symm.trans hint'
            simpa using heq
          omega
      · rw [checkLimit_eq_ok]
        constructor
        · exact fun h => ⟨tokens, hint, hbackend, hrange, by omega, h⟩
        · rintro ⟨tokens', hint', -, -, -, h⟩
          obtain rfl : tokens = tokens' := by
            have heq := hint.symm.trans hint'
            simpa using heq
          exact h

/-- The check of the catalog's requests is this one, with the limit that the metadata gives. -/
theorem validateContext_eq_ok_iff {tokens : Int} :
    validateContext cfg (.int tokens) metadata = .ok () ↔
      InferBridge.validateContext cfg tokens (modelLimit metadata) = true := by
  rw [validateContext_eq_ok, bound]
  unfold InferBridge.validateContext
  rcases modelLimit metadata with - | limit <;> simp [and_assoc]

/-! ### Larger limits -/

/-- The value under a key is a limit that counts. -/
def Plausible (metadata : Metadata) (key : Str) (limit : Int) : Prop :=
  metadata.lookup key = some (.int limit) ∧ 0 < limit ∧ limit ≤ maxContext

/-- The metadata differ in that some of the second one's limits are larger. -/
structure Larger (metadata metadata' : Metadata) : Prop where
  limits : ∀ key ∈ limitKeys, metadata.lookup key = metadata'.lookup key ∨
    ∃ limit limit', metadata.lookup key = some (.int limit) ∧
      metadata'.lookup key = some (.int limit') ∧ 0 < limit ∧ limit ≤ limit'
  others : ∀ key, key ∉ limitKeys → metadata.lookup key = metadata'.lookup key

/-- Nothing that was accepted is refused, and the largest context is no smaller. -/
structure AllowsMore (cfg : ModelConfig) (metadata metadata' : Metadata) : Prop where
  accepted : ∀ requested, validateContext cfg requested metadata = .ok () →
    validateContext cfg requested metadata' = .ok ()
  maximum : (contextBounds cfg metadata).2 ≤ (contextBounds cfg metadata').2

/-- A limit within the cap remains, or there was none, or one of them was within the
recommendation. -/
def KeepsBound (cfg : ModelConfig) (metadata metadata' : Metadata) : Prop :=
  (∃ key ∈ limitKeys, ∃ limit, Plausible metadata' key limit) ∨
    (∀ key ∈ limitKeys, ∀ limit, ¬ Plausible metadata key limit) ∨
    ∃ key ∈ limitKeys, ∃ limit, Plausible metadata key limit ∧ limit ≤ cfg.recommendedOrMax

theorem positiveInt_eq_some {key : Str} {limit : Int} :
    positiveInt (metadata.lookup key) = some limit ↔ Plausible metadata key limit := by
  unfold Plausible
  rcases metadata.lookup key with - | - | - | n | - | - | - | -
  case some.int =>
    show (if 0 < n ∧ n ≤ maxContext then some n else none) = _ ↔ _
    constructor
    · intro h
      split_ifs at h with hrange
      obtain rfl := Option.some.inj h
      exact ⟨rfl, hrange⟩
    · rintro ⟨heq, hrange⟩
      obtain rfl : n = limit := by simpa using heq
      exact if_pos hrange
  all_goals simp [positiveInt]

theorem mem_limits {limit : Int} :
    limit ∈ (limitKeys.filterMap fun key => positiveInt (metadata.lookup key)) ↔
      ∃ key ∈ limitKeys, Plausible metadata key limit := by
  simp only [List.mem_filterMap, positiveInt_eq_some]

theorem modelLimit_eq_none :
    modelLimit metadata = none ↔ ∀ key ∈ limitKeys, ∀ limit, ¬ Plausible metadata key limit := by
  rw [modelLimit, List.min?_eq_none_iff, List.eq_nil_iff_forall_not_mem]
  simp only [mem_limits]
  constructor
  · exact fun h key hkey limit hlimit => h limit ⟨key, hkey, hlimit⟩
  · rintro h limit ⟨key, hkey, hlimit⟩
    exact h key hkey limit hlimit

/-- The limit is the smallest one that counts. -/
theorem modelLimit_eq_some {limit : Int} :
    modelLimit metadata = some limit ↔ (∃ key ∈ limitKeys, Plausible metadata key limit) ∧
      ∀ key ∈ limitKeys, ∀ other, Plausible metadata key other → limit ≤ other := by
  rw [modelLimit, List.min?_eq_some_iff]
  simp only [mem_limits]
  constructor
  · rintro ⟨hmem, hmin⟩
    exact ⟨hmem, fun key hkey other hother => hmin other ⟨key, hkey, hother⟩⟩
  · rintro ⟨hmem, hmin⟩
    refine ⟨hmem, ?_⟩
    rintro other ⟨key, hkey, hother⟩
    exact hmin key hkey other hother

theorem modelLimit_le_maxContext {limit : Int} (h : modelLimit metadata = some limit) :
    limit ≤ maxContext := by
  obtain ⟨⟨key, -, hlimit⟩, -⟩ := modelLimit_eq_some.mp h
  exact hlimit.2.2

/-- Behind a limit that counts in the larger metadata stands a smaller one. -/
theorem Larger.plausible (h : Larger metadata metadata') {key : Str} (hkey : key ∈ limitKeys)
    {limit' : Int} (hlimit : Plausible metadata' key limit') :
    ∃ limit, Plausible metadata key limit ∧ limit ≤ limit' := by
  obtain ⟨hlookup, hpos, hcap⟩ := hlimit
  rcases h.limits key hkey with heq | ⟨limit, limit'', hold, hnew, hpos', hle⟩
  · exact ⟨limit', ⟨heq.trans hlookup, hpos, hcap⟩, le_rfl⟩
  · obtain rfl : limit'' = limit' := by simpa [hnew] using hlookup
    exact ⟨limit, ⟨hold, hpos', hle.trans hcap⟩, hle⟩

theorem allowsMore_of_bound (h : bound cfg metadata ≤ bound cfg metadata') :
    AllowsMore cfg metadata metadata' where
  accepted := by
    intro requested hok
    obtain ⟨tokens, hint, hbackend, hrange, hreserve, hle⟩ := validateContext_eq_ok.mp hok
    exact validateContext_eq_ok.mpr ⟨tokens, hint, hbackend, hrange, hreserve, hle.trans h⟩
  maximum := min_le_min_right _ h

/-- **Larger limits.** With larger limits everything stays allowed exactly if they keep a bound
that counts, or replace none, or the recommendation is as large. -/
theorem larger_allows_iff (cfg : ModelConfig) (metadata metadata' : Metadata)
    (h : Larger metadata metadata') :
    AllowsMore cfg metadata metadata' ↔ KeepsBound cfg metadata metadata' := by
  rcases hnew : modelLimit metadata' with - | limit'
  · have hnone := modelLimit_eq_none.mp hnew
    have hbound' : bound cfg metadata' = cfg.recommendedOrMax := by rw [bound, hnew]; rfl
    rcases hold : modelLimit metadata with - | limit
    · have hbound : bound cfg metadata = cfg.recommendedOrMax := by rw [bound, hold]; rfl
      constructor
      · exact fun _ => .inr (.inl (modelLimit_eq_none.mp hold))
      · exact fun _ => allowsMore_of_bound (hbound.trans hbound'.symm).le
    · have hbound : bound cfg metadata = limit := by rw [bound, hold]; rfl
      obtain ⟨⟨key, hkey, hlimit⟩, hmin⟩ := modelLimit_eq_some.mp hold
      constructor
      · intro hmore
        have hmax : min limit maxContext ≤ min cfg.recommendedOrMax maxContext := by
          have hmaximum := hmore.maximum
          rwa [show (contextBounds cfg metadata).2 = min limit maxContext by rw [← hbound]; rfl,
            show (contextBounds cfg metadata').2 = min cfg.recommendedOrMax maxContext by
              rw [← hbound']; rfl] at hmaximum
        have hcap := modelLimit_le_maxContext hold
        exact .inr (.inr ⟨key, hkey, limit, hlimit, by omega⟩)
      · rintro (⟨key', hkey', other, hother⟩ | hnothing | ⟨key', hkey', other, hother, hle⟩)
        · exact absurd hother (hnone key' hkey' other)
        · exact absurd hlimit (hnothing key hkey limit)
        · apply allowsMore_of_bound
          rw [hbound, hbound']
          exact (hmin key' hkey' other hother).trans hle
  · -- the smallest new limit has a smaller one behind it
    obtain ⟨⟨key, hkey, hlimit'⟩, -⟩ := modelLimit_eq_some.mp hnew
    obtain ⟨old, hold, hle⟩ := h.plausible hkey hlimit'
    have hbound : bound cfg metadata ≤ bound cfg metadata' := by
      rcases hmin : modelLimit metadata with - | limit
      · exact absurd hold (modelLimit_eq_none.mp hmin key hkey old)
      · rw [bound, bound, hmin, hnew]
        exact ((modelLimit_eq_some.mp hmin).2 key hkey old hold).trans hle
    constructor
    · exact fun _ => .inl ⟨key, hkey, limit', hlimit'⟩
    · exact fun _ => allowsMore_of_bound hbound

/-! ### A model with a long context -/

/-- A chat model with 2048 tokens of context. -/
def chatModel : ModelConfig where
  id := "chat".toList
  name := "Chat".toList
  description := []
  backend := .genai
  modelPath := "models/openvino/chat".toList
  sourceModel := "example/chat".toList
  weightFormat := .int4
  recommendedDevice := "CPU".toList
  maxContextLen := 2048
  maxOutputTokens := 512

/-- The metadata of a model with this many positions. -/
def positions (limit : Int) : Metadata := [("max_position_embeddings".toList, .int limit)]

theorem larger_positions {limit limit' : Int} (hpos : 0 < limit) (hle : limit ≤ limit') :
    Larger (positions limit) (positions limit') where
  limits := by
    intro key hkey
    simp only [limitKeys, List.mem_cons, List.not_mem_nil, or_false] at hkey
    rcases hkey with rfl | rfl | rfl | rfl
    · exact .inr ⟨limit, limit', rfl, rfl, hpos, hle⟩
    · exact .inl rfl
    · exact .inl rfl
    · exact .inl rfl
  others := by
    intro key hkey
    have hne : (key == "max_position_embeddings".toList) = false := by
      rw [beq_eq_false_iff_ne]
      rintro rfl
      exact hkey (by decide)
    rw [positions, positions, List.lookup_cons, List.lookup_cons, hne]

/-- With 4096 positions a context of 4096 is accepted, with 1010000 it is not. -/
theorem millionPositions_refused :
    ¬ ∀ (cfg : ModelConfig) (metadata metadata' : Metadata), Larger metadata metadata' →
      AllowsMore cfg metadata metadata' := by
  intro h
  have hmore := h chatModel (positions 4096) (positions 1010000)
    (larger_positions (by decide) (by decide))
  have hrefused : validateContext chatModel (.int 4096) (positions 1010000) = .error .unverified :=
    rfl
  have haccepted := hmore.accepted (.int 4096) rfl
  rw [hrefused] at haccepted
  cases haccepted

/-- Within the cap a larger limit only adds. -/
theorem larger_allows_eight :
    AllowsMore chatModel (positions 4096) (positions 8192) ↔
      KeepsBound chatModel (positions 4096) (positions 8192) :=
  larger_allows_iff chatModel (positions 4096) (positions 8192)
    (larger_positions (by decide) (by decide))

end InferBridge.ContextConfiguration
