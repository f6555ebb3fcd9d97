/-
InferBridge/HubGate.lean

What the gate before the conversion of a model sees of the request that the route
serves (`HuggingFacePreflightMiddleware` in app/huggingface_access.py).

Design.  The gate and the route read the same payload exactly when the body is plain
UTF-8: what they disagree about is a byte order mark, an encoded lone surrogate, and
the two wider encodings, all of which `json` takes from bytes.  With one payload, the
source that the gate asks for is the source of the conversion, up to white space, but
for a custom download whose source is blank, or which names a trusted entry in a field
that the route does not read.

Main result.  `gated_iff`: a conversion that reaches the scheduler untrusted was granted
access by the gate exactly when the request is seen.
-/
import Mathlib
import InferBridge.HubPreflight

namespace InferBridge.HubPreflight

/-! ### The two readings of a body -/

/-- The first character of a text in UTF-8 with what is behind it, by its length. -/
theorem utf8Points_cons {b : UInt8} {rest : Bytes} {text : PyStr}
    (h : utf8Points (b :: rest) = some text) :
    (b.toNat < 0x80 ∧ ∃ tail, utf8Points rest = some tail ∧ text = b.toNat :: tail) ∨
      ∃ c after, rest = c :: after ∧ isTail c ∧ 0xC2 ≤ b.toNat ∧ b.toNat < 0xF5 ∧
        ((b.toNat < 0xE0 ∧ text.head? = some (64 * (b.toNat % 32) + c.toNat % 64)) ∨
          (0xE0 ≤ b.toNat ∧ b.toNat < 0xF0 ∧ ∃ d later, after = d :: later ∧ isTail d ∧
            text.head? = some (4096 * (b.toNat % 16) + 64 * (c.toNat % 64) + d.toNat % 64)) ∨
          (0xF0 ≤ b.toNat ∧ ∃ n, text.head? = some n ∧ 0x10000 ≤ n)) := by
  unfold utf8Points at h
  split at h
  · next low =>
    obtain ⟨tail, htail, rfl⟩ := Option.map_eq_some_iff.mp h
    exact .inl ⟨low, tail, htail, rfl⟩
  split at h
  · next two =>
    split at h
    · next c rest =>
      split at h
      · next hc =>
        obtain ⟨tail, -, rfl⟩ := Option.map_eq_some_iff.mp h
        exact .inr ⟨c, rest, rfl, hc, two.1, by omega, .inl ⟨two.2, rfl⟩⟩
      · exact absurd h (by simp)
    · exact absurd h (by simp)
  split at h
  · next three =>
    split at h
    · next c d rest =>
      split at h
      · next hc =>
        obtain ⟨tail, -, rfl⟩ := Option.map_eq_some_iff.mp h
        exact .inr ⟨c, _, rfl, hc.1, by omega, by omega,
          .inr (.inl ⟨three.1, three.2, d, rest, rfl, hc.2.1, rfl⟩)⟩
      · exact absurd h (by simp)
    · exact absurd h (by simp)
  split at h
  · next four =>
    split at h
    · next c d e rest =>
      split at h
      · next hc =>
        obtain ⟨tail, -, rfl⟩ := Option.map_eq_some_iff.mp h
        refine .inr ⟨c, _, rfl, hc.1, by omega, four.2, .inr (.inr ⟨four.1, _, rfl, ?_⟩)⟩
        have lead : 0x80 ≤ c.toNat ∧ c.toNat < 0xC0 := by simpa [isTail] using hc.1
        have first := hc.2.2.2.1
        omega
      · exact absurd h (by simp)
    · exact absurd h (by simp)
  · exact absurd h (by simp)

/-- A text of UTF-8 without null characters at its start and without a mark is taken for it. -/
theorem detectEncoding_of_points {body : Bytes} {text : PyStr}
    (h : utf8Points body = some text) (mark : text.head? ≠ some 0xFEFF)
    (null : 0 ∉ text.take 2) : detectEncoding body = .utf8 := by
  cases body with
  | nil => rfl
  | cons b rest =>
    have hb : b ≠ 0 ∧ b ≠ 0xFE ∧ b ≠ 0xFF := by
      obtain ⟨low, tail, -, rfl⟩ | ⟨c, after, -, -, low, high, -⟩ := utf8Points_cons h
      · refine ⟨?_, ?_, ?_⟩ <;> rintro rfl
        · exact null (by simp)
        · exact absurd low (by decide)
        · exact absurd low (by decide)
      · refine ⟨?_, ?_, ?_⟩ <;> rintro rfl
        · exact absurd low (by decide)
        · exact absurd high (by decide)
        · exact absurd high (by decide)
    have hc : ∀ c after, rest = c :: after → c ≠ 0 := by
      rintro c after rfl rfl
      obtain ⟨-, tail, htail, rfl⟩ | ⟨c, later, eq, tail, -⟩ := utf8Points_cons h
      · obtain ⟨-, next, -, rfl⟩ | ⟨c, later, -, -, low, -⟩ := utf8Points_cons htail
        · exact null (by simp)
        · exact absurd low (by decide)
      · obtain ⟨rfl, -⟩ := List.cons_eq_cons.mp eq
        exact absurd tail (by decide)
    have hmark : [0xEF, 0xBB, 0xBF].isPrefixOf (b :: rest) = false := by
      by_contra is
      rw [Bool.not_eq_false, List.isPrefixOf_iff_prefix] at is
      obtain ⟨after, eq⟩ := is
      rw [← eq] at h
      obtain ⟨low, -⟩ | ⟨c, later, eq, -, -, -, two | three | four⟩ := utf8Points_cons h
      · exact absurd low (by decide)
      · exact absurd two.1 (by decide)
      · obtain ⟨-, -, d, last, rfl, -, head⟩ := three
        simp only [List.append_eq, List.cons_append, List.nil_append, List.cons.injEq] at eq
        obtain ⟨rfl, rfl, rfl⟩ := eq
        exact mark head
      · exact absurd four.1 (by decide)
    have unmarked : ∀ mark : Bytes, mark.head? = some 0 ∨ mark.head? = some 0xFE ∨
        mark.head? = some 0xFF → mark.isPrefixOf (b :: rest) = false := by
      rintro (_ | ⟨first, mark⟩) head
      · simp at head
      · have first : first ≠ b := by
          rintro rfl
          simp [hb.1, hb.2.1, hb.2.2] at head
        simp [List.isPrefixOf, first]
    rcases rest with _ | ⟨c, _ | ⟨d, _ | ⟨e, rest⟩⟩⟩
    · simp [detectEncoding, unmarked, hmark]
    · simp [detectEncoding, unmarked, hmark, hb.1, hc c _ rfl]
    · simp [detectEncoding, unmarked, hmark]
    · simp [detectEncoding, unmarked, hmark, hb.1, hc c _ rfl]

/-- The body is in UTF-8, without a byte order mark and without encoded lone surrogates. -/
def IsPlain (body : Bytes) : Prop :=
  detectEncoding body = .utf8 ∧ (utf8Strict body).isSome

theorem utf8Strict_eq_some {body : Bytes} {text : PyStr} (h : utf8Strict body = some text) :
    utf8Points body = some text :=
  (Option.filter_eq_some_iff.mp h).1

/-- A text that begins with a mark comes from bytes that do. -/
theorem head_ne_mark {body : Bytes} {text : PyStr} (utf8 : detectEncoding body = .utf8)
    (h : utf8Points body = some text) : text.head? ≠ some 0xFEFF := by
  intro head
  rcases body with _ | ⟨b, rest⟩
  · obtain rfl : [] = text := by simpa [utf8Points] using h
    simp at head
  obtain ⟨low, tail, -, rfl⟩ | ⟨c, after, rfl, hc, -, high, two | three | four⟩ :=
    utf8Points_cons h
  · simp only [List.head?_cons, Option.some.injEq] at head
    omega
  · have value := Option.some.inj (head.symm.trans two.2)
    omega
  · obtain ⟨low, mid, d, later, rfl, hd, eq⟩ := three
    have value := Option.some.inj (head.symm.trans eq)
    simp only [isTail, Bool.and_eq_true, decide_eq_true_eq] at hc hd
    -- the three bytes are the mark
    obtain rfl : b = 0xEF := UInt8.toNat_inj.mp (show b.toNat = 0xEF by omega)
    obtain rfl : c = 0xBB := UInt8.toNat_inj.mp (show c.toNat = 0xBB by omega)
    obtain rfl : d = 0xBF := UInt8.toNat_inj.mp (show d.toNat = 0xBF by omega)
    simp [detectEncoding, List.isPrefixOf] at utf8
  · obtain ⟨-, n, eq, large⟩ := four
    have value := Option.some.inj (head.symm.trans eq)
    omega

section
variable (host : Host)

/-- What the gate parses, the route parses the same. -/
theorem loadsBytes_of_text {body : Bytes} {value : Json}
    (h : (utf8Strict body).bind (loadsText host) = some value) :
    IsPlain body ∧ loadsBytes host body = some value := by
  obtain ⟨text, htext, hvalue⟩ := Option.bind_eq_some_iff.mp h
  rw [loadsText] at hvalue
  split at hvalue
  · exact absurd hvalue (by simp)
  next mark =>
  have points := utf8Strict_eq_some htext
  have utf8 := detectEncoding_of_points points mark (host.parse_null text value hvalue)
  refine ⟨⟨utf8, by rw [htext]; rfl⟩, ?_⟩
  rw [loadsBytes, utf8, decode, points]
  exact hvalue

/-- A plain body is parsed by both. -/
theorem text_of_loadsBytes {body : Bytes} (plain : IsPlain body) :
    (utf8Strict body).bind (loadsText host) = loadsBytes host body := by
  obtain ⟨text, htext⟩ := Option.isSome_iff_exists.mp plain.2
  have points := utf8Strict_eq_some htext
  rw [htext, loadsBytes, plain.1, decode, points, Option.bind_some, Option.bind_some, loadsText,
    if_neg (head_ne_mark plain.1 points)]

/-! ### White space -/

theorem strip_of_name {text : PyStr} (name : isName text) : strip text = text := by
  have plain : ∀ c ∈ text, isSpace c = false := by
    rcases text with _ | ⟨first, rest⟩
    · exact absurd name (by simp [isName])
    intro c hc
    simp only [isName, Bool.and_eq_true, List.all_eq_true] at name
    have char : isNameChar c := by
      rcases List.mem_cons.mp hc with rfl | hc
      · simp [isNameChar, name.1]
      · exact name.2 c hc
    simp only [isNameChar, isAlphanumeric, Bool.or_eq_true, Bool.and_eq_true, decide_eq_true_eq]
      at char
    simp only [isSpace, decide_eq_false_iff_not]
    omega
  have front : text.dropWhile isSpace = text := by
    rw [List.dropWhile_eq_self_iff]
    intro some_char
    simp [plain _ (List.getElem_mem some_char)]
  rw [strip, front, List.rdropWhile_eq_self_iff]
  intro some_char
  simp [plain _ (List.getLast_mem some_char)]

theorem strip_strip (text : PyStr) : strip (strip text) = strip text := by
  have front : (strip text).dropWhile isSpace = strip text := by
    rw [List.dropWhile_eq_self_iff]
    intro some_char
    -- its first character is the first one behind the white space
    have first := (List.rdropWhile_prefix isSpace (text.dropWhile isSpace)).getElem some_char
    have nonempty : text.dropWhile isSpace ≠ [] := by
      intro empty
      simp [strip, empty] at some_char
    have plain := List.head_dropWhile_not isSpace nonempty
    rw [List.head_eq_getElem, ← first] at plain
    exact fun bad => Bool.false_ne_true (plain.symm.trans bad)
  rw [strip, front, strip]
  exact List.rdropWhile_idempotent isSpace _

/-! ### The two routes -/

theorem Json.isTrue_iff {value : Json} : value.isTrue = true ↔ value = .bool true := by
  rcases value with _ | (_ | _) | _ | _ | _ | _ | _ <;> simp [Json.isTrue]

theorem get_of_saysTrusted {payload : Fields} (trusted : saysTrusted payload) :
    get payload "trust_remote_code" = some (.bool true) := by
  rw [saysTrusted] at trusted
  obtain ⟨value, hvalue, is⟩ := (Option.any_eq_true _ _).mp trusted
  rw [hvalue, Json.isTrue_iff.mp is]

theorem ModelConvertRequest.validate_trust {payload : Fields} {request : ModelConvertRequest}
    (h : validate host payload = some request) (trusted : saysTrusted payload) :
    request.trustRemoteCode = some true := by
  simp only [validate, Option.bind_eq_bind, Option.bind_eq_some_iff, Option.pure_def] at h
  obtain ⟨_, -, _, -, _, -, _, -, _, -, _, -, _, -, trust, htrust, eq⟩ := h
  obtain rfl := Option.some.inj eq
  rw [withDefault, get_of_saysTrusted trusted] at htrust
  simpa [orNull, host.bool_true] using htrust.symm

theorem textField_eq_some {value : Json} {text : PyStr} (h : textField value = some text) :
    value = .str text := by
  cases value with
  | str value =>
    rw [textField] at h
    split at h
    · exact absurd h (by simp)
    · rw [Option.some.inj h]
  | _ => exact absurd h (by simp [textField])

theorem sized_eq_some {low high : ℕ} {value : Json} {text : PyStr}
    (h : sized low high value = some text) : value = .str text ∧ low ≤ text.length := by
  obtain ⟨field, bounds⟩ := Option.filter_eq_some_iff.mp h
  exact ⟨textField_eq_some field, (of_decide_eq_true bounds).1⟩

/-- The fields of a custom download that the gate reads too. -/
theorem DownloadCustomRequest.validate_spec {payload : Fields} {request : DownloadCustomRequest}
    (h : validate host payload = some request) :
    isName request.modelId ∧ get payload "model_id" = some (.str request.modelId) ∧
      get payload "source_model" = some (.str request.sourceModel) ∧
      request.sourceModel ≠ [] ∧ (saysTrusted payload → request.trustRemoteCode = true) := by
  unfold validate at h
  obtain ⟨modelId, hmodel, h⟩ := Option.bind_eq_some_iff.mp h
  obtain ⟨name, -, h⟩ := Option.bind_eq_some_iff.mp h
  obtain ⟨source, hsource, h⟩ := Option.bind_eq_some_iff.mp h
  obtain ⟨backend, -, h⟩ := Option.bind_eq_some_iff.mp h
  obtain ⟨weightFormat, -, h⟩ := Option.bind_eq_some_iff.mp h
  obtain ⟨groupSize, -, h⟩ := Option.bind_eq_some_iff.mp h
  obtain ⟨ratio, -, h⟩ := Option.bind_eq_some_iff.mp h
  obtain ⟨sym, -, h⟩ := Option.bind_eq_some_iff.mp h
  obtain ⟨device, -, h⟩ := Option.bind_eq_some_iff.mp h
  obtain ⟨context, -, h⟩ := Option.bind_eq_some_iff.mp h
  obtain ⟨output, -, h⟩ := Option.bind_eq_some_iff.mp h
  obtain ⟨description, -, h⟩ := Option.bind_eq_some_iff.mp h
  obtain ⟨loadAfter, -, h⟩ := Option.bind_eq_some_iff.mp h
  obtain ⟨trust, htrust, h⟩ := Option.bind_eq_some_iff.mp h
  split at h
  · obtain rfl := Option.some.inj h
    obtain ⟨value, hvalue, hmodel⟩ := Option.bind_eq_some_iff.mp hmodel
    obtain ⟨hmodel, name⟩ := Option.filter_eq_some_iff.mp hmodel
    obtain ⟨rfl, -⟩ := sized_eq_some hmodel
    obtain ⟨value, hsource, sized⟩ := Option.bind_eq_some_iff.mp hsource
    obtain ⟨rfl, long⟩ := sized_eq_some sized
    refine ⟨name, hvalue, hsource, ?_, fun trusted => ?_⟩
    · rintro rfl
      simp at long
    · rw [withDefault, get_of_saysTrusted trusted] at htrust
      simpa [host.bool_true] using htrust.symm
  · exact absurd h (by simp)

/-- What a conversion of the catalog's model is scheduled with. -/
theorem convertModel_spec {manager : Manager} {payload : Fields} {scheduled : Scheduled}
    (h : convertModel host manager payload = some scheduled) :
    ∃ request config, ModelConvertRequest.validate host payload = some request ∧
      (request.device.any fun device => (host.device device).isNone) = false ∧
      manager.catalog request.model = some config ∧ scheduled.source = config.sourceModel ∧
      scheduled.loaded = manager.loaded request.model ∧
      (saysTrusted payload → scheduled.requestTrust = true) := by
  simp only [convertModel, Option.bind_eq_bind, Option.bind_eq_some_iff, Option.pure_def] at h
  obtain ⟨request, hrequest, config, hconfig, h⟩ := h
  split at h
  · exact absurd h (by simp)
  split at h
  · exact absurd h (by simp)
  next device =>
  split at h
  · exact absurd h (by simp)
  obtain rfl := Option.some.inj h
  refine ⟨request, config, hrequest, by simpa using device, hconfig, rfl, rfl, fun trusted => ?_⟩
  simp [ModelConvertRequest.validate_trust host hrequest trusted]

/-- The entry of a custom download has its source, and is the catalog's if there is one. -/
theorem entryFor_spec {manager : Manager} {request : DownloadCustomRequest} {config : ModelConfig}
    (h : manager.entryFor request = some config) :
    config.sourceModel = request.sourceModel ∧
      ∀ entry, manager.catalog request.modelId = some entry → config = entry := by
  rw [Manager.entryFor] at h
  split at h
  · next entry hentry =>
    split at h
    · exact absurd h (by simp)
    next same =>
    obtain rfl := Option.some.inj h
    simp only [mismatch, Bool.or_eq_true, decide_eq_true_eq, not_or, not_not] at same
    exact ⟨same.1.1.1.1.1.1.2, fun other hother => Option.some.inj (hentry.symm.trans hother)⟩
  · next hnone =>
    split at h
    · obtain rfl := Option.some.inj h
      exact ⟨rfl, fun other hother => absurd (hnone.symm.trans hother) (by simp)⟩
    · exact absurd h (by simp)

/-- What a custom download is scheduled with: its entry is the catalog's or its own. -/
theorem downloadCustom_spec {manager : Manager} {payload : Fields} {scheduled : Scheduled}
    (h : downloadCustom host manager payload = some scheduled) :
    ∃ request, DownloadCustomRequest.validate host payload = some request ∧
      scheduled.source = request.sourceModel ∧
      scheduled.requestTrust = request.trustRemoteCode ∧
      ∀ config, manager.catalog request.modelId = some config →
        scheduled.entryTrust = config.trustRemoteCode := by
  simp only [downloadCustom, Option.bind_eq_bind, Option.bind_eq_some_iff, Option.pure_def] at h
  obtain ⟨request, hrequest, config, hconfig, h⟩ := h
  split at h
  · exact absurd h (by simp)
  obtain rfl := Option.some.inj h
  obtain ⟨source, same⟩ := entryFor_spec hconfig
  exact ⟨request, hrequest, source, rfl, fun entry hentry => by rw [same entry hentry]⟩

/-! ### The gate on a payload -/

/-- A check that is not skipped answers, or is granted the source. -/
theorem check_asks {manager : Manager} {service : Service} {model : Option PyStr} {source : PyStr}
    {granted : Option PyStr} (nonempty : source ≠ [])
    (h : check host manager service false model source = .delegated granted) :
    granted = some source := by
  rw [check, if_neg Bool.false_ne_true, if_neg nonempty] at h
  split at h
  · exact (Gate.delegated.inj h).symm
  · exact absurd h (by simp)

theorem check_skips {manager : Manager} {service : Service} {trusted : Bool}
    {model : Option PyStr} {source : PyStr} {granted : Option PyStr}
    (skipped : trusted = true ∨ source = [])
    (h : check host manager service trusted model source = .delegated granted) :
    granted = none := by
  rw [check] at h
  split at h
  · exact (Gate.delegated.inj h).symm
  next untrusted =>
  rw [if_pos (skipped.resolve_left untrusted)] at h
  exact (Gate.delegated.inj h).symm

theorem firstText_of_truthy {value : Json} (truthy : value.truthy) (others : List (Option Json)) :
    firstText host (some value :: others) = strip (host.str value) := by
  simp [firstText, truthy]

theorem firstText_of_not {value : Option Json} (falsy : value.any Json.truthy = false)
    (others : List (Option Json)) : firstText host (value :: others) = firstText host others := by
  simp [firstText, falsy]

theorem truthy_text {text : PyStr} (nonempty : text ≠ []) : (Json.str text).truthy := by
  simpa [Json.truthy] using nonempty

/-- A field `"model"`, which no custom download has, names an entry that is trusted. -/
def NamesTrusted (manager : Manager) (payload : Fields) : Prop :=
  ∃ value config, get payload "model" = some value ∧ value.truthy ∧
    strip (host.str value) ≠ [] ∧ manager.catalog (strip (host.str value)) = some config ∧
    config.trustRemoteCode

/-- The gate takes a custom download for a trusted one by the entry of another model alone, if its
own entry is not trusted. -/
theorem named_trusted_iff {manager : Manager} {payload : Fields} {modelId : PyStr}
    (name : isName modelId) (hmodel : get payload "model_id" = some (.str modelId))
    (own : ∀ config, manager.catalog modelId = some config → config.trustRemoteCode = false) :
    ((namedModel host payload).bind manager.catalog).any (·.trustRemoteCode) = true ↔
      NamesTrusted host manager payload := by
  have nonempty : modelId ≠ [] := by
    rintro rfl
    simp [isName] at name
  by_cases extra : (get payload "model").any Json.truthy
  · obtain ⟨value, hvalue, truthy⟩ := (Option.any_eq_true _ _).mp extra
    have text : firstText host [get payload "model", get payload "model_id"] =
        strip (host.str value) := by
      rw [hvalue, firstText_of_truthy host truthy]
    rw [namedModel, text]
    constructor
    · intro trusted
      split at trusted
      · simp at trusted
      next nonempty =>
      obtain ⟨config, hconfig, trusted⟩ := (Option.any_eq_true _ _).mp trusted
      exact ⟨value, config, hvalue, truthy, nonempty, hconfig, trusted⟩
    · rintro ⟨other, config, hother, -, nonempty, hconfig, trusted⟩
      obtain rfl := Option.some.inj (hvalue.symm.trans hother)
      simp [nonempty, hconfig, trusted]
  · have text : firstText host [get payload "model", get payload "model_id"] = modelId := by
      rw [firstText_of_not host (by simpa using extra), hmodel,
        firstText_of_truthy host (truthy_text nonempty), host.str_text, strip_of_name name]
    rw [namedModel, text, if_neg nonempty]
    constructor
    · intro trusted
      obtain ⟨config, hconfig, trusted⟩ := (Option.any_eq_true _ _).mp trusted
      exact absurd (own config hconfig) (by simp [trusted])
    · rintro ⟨value, config, hvalue, truthy, -⟩
      simp [hvalue, truthy] at extra

/-! ### The gate in front of the routes -/

/-- A conversion that has to be granted. -/
structure Untrusted (scheduled : Scheduled) : Prop where
  notLoaded : scheduled.loaded = false
  source : scheduled.source ≠ []
  request : scheduled.requestTrust = false
  entry : scheduled.entryTrust = false

/-- The gate sees the request: its body is plain, and a custom download has a source that is not
blank and does not name a trusted entry besides its own. -/
def Seen (manager : Manager) (request : Request) : Prop :=
  IsPlain request.body ∧
    (request.path = .downloadCustom →
      ∀ payload, loadsBytes host request.body = some (.obj payload) →
        ¬NamesTrusted host manager payload ∧
          ∀ source, get payload "source_model" = some (.str source) → strip source ≠ [])

/-- The access to this source, up to white space, was granted. -/
def IsGranted (granted : Option PyStr) (source : PyStr) : Prop :=
  ∃ asked, granted = some asked ∧ strip asked = strip source

/-- An untrusted conversion of the catalog's model is granted. -/
theorem convert_granted {manager : Manager} {service : Service} {payload : Fields}
    {scheduled : Scheduled} {granted : Option PyStr}
    (hroute : convertModel host manager payload = some scheduled) (untrusted : Untrusted scheduled)
    (h : gatePayload host manager service .convert payload = .delegated granted) :
    IsGranted granted scheduled.source := by
  obtain ⟨request, config, hrequest, device, hconfig, source, loaded, trust⟩ :=
    convertModel_spec host hroute
  have target : convertTarget host manager payload = some (request.model, config.sourceModel) := by
    simp [convertTarget, hrequest, device, hconfig, ← loaded, untrusted.notLoaded]
  have plain : saysTrusted payload = false := by
    by_contra trusted
    exact absurd (trust (by simpa using trusted)) (by simp [untrusted.request])
  simp only [gatePayload, target, plain] at h
  exact ⟨scheduled.source, by rw [source]; exact check_asks host (source ▸ untrusted.source) h, rfl⟩

/-- An untrusted custom download is granted exactly when it names no trusted entry and its source
is not blank. -/
theorem download_granted_iff {manager : Manager} {service : Service} {payload : Fields}
    {scheduled : Scheduled} {granted : Option PyStr}
    (hroute : downloadCustom host manager payload = some scheduled)
    (untrusted : Untrusted scheduled)
    (h : gatePayload host manager service .downloadCustom payload = .delegated granted) :
    IsGranted granted scheduled.source ↔
      ¬NamesTrusted host manager payload ∧
        ∀ source, get payload "source_model" = some (.str source) → strip source ≠ [] := by
  obtain ⟨request, hrequest, source, trust, entry⟩ := downloadCustom_spec host hroute
  obtain ⟨name, hmodel, hsource, nonempty, trusts⟩ :=
    DownloadCustomRequest.validate_spec host hrequest
  have plain : saysTrusted payload = false := by
    by_contra trusted
    have := trusts (by simpa using trusted)
    exact absurd (trust.trans this) (by simp [untrusted.request])
  have own : ∀ config, manager.catalog request.modelId = some config →
      config.trustRemoteCode = false :=
    fun config hconfig => (entry config hconfig).symm.trans untrusted.entry
  have asked : firstText host [get payload "source_model"] = strip scheduled.source := by
    rw [hsource, firstText_of_truthy host (truthy_text nonempty), host.str_text, source]
  simp only [gatePayload, plain, Bool.false_or, asked] at h
  rw [← named_trusted_iff host name hmodel own]
  constructor
  · rintro ⟨asked, rfl, -⟩
    refine ⟨fun trusted => ?_, fun text htext blank => ?_⟩
    · exact absurd (check_skips host (.inl trusted) h) (by simp)
    · obtain rfl : request.sourceModel = text := by simpa using hsource.symm.trans htext
      exact absurd (check_skips host (.inr (source ▸ blank)) h) (by simp)
  · rintro ⟨untrusted, sources⟩
    rw [Bool.not_eq_true] at untrusted
    rw [untrusted] at h
    have blank : strip scheduled.source ≠ [] := source ▸ sources _ hsource
    exact ⟨_, check_asks host blank h, strip_strip _⟩

/-- A route that reaches the scheduler has a payload for it. -/
theorem route_spec {manager : Manager} {request : Request} {scheduled : Scheduled}
    (h : route host manager request = some scheduled) :
    request.authorized = true ∧ ∃ payload, loadsBytes host request.body = some (.obj payload) ∧
      (request.path = .convert ∧ convertModel host manager payload = some scheduled ∨
        request.path = .downloadCustom ∧
          downloadCustom host manager payload = some scheduled) := by
  rw [route] at h
  split at h
  · next authorized =>
    split at h
    · next payload hpayload =>
      refine ⟨authorized, payload, hpayload, ?_⟩
      split at h
      · next path => exact .inl ⟨path, h⟩
      · next path => exact .inr ⟨path, h⟩
    · exact absurd h (by simp)
  · exact absurd h (by simp)

/-- The gate hands on a body that is not plain. -/
theorem gate_unseen {manager : Manager} {service : Service} {request : Request}
    {granted : Option PyStr} (plain : ¬IsPlain request.body)
    (h : gate host manager service request = .delegated granted) : granted = none := by
  have unread : (utf8Strict request.body).bind (loadsText host) = none := by
    rw [Option.eq_none_iff_forall_not_mem]
    exact fun value hvalue => plain (loadsBytes_of_text host hvalue).1
  rw [gate, unread] at h
  split at h
  · exact (Gate.delegated.inj h).symm
  split at h
  · exact absurd h (by simp)
  · exact (Gate.delegated.inj h).symm

/-- The gate and the route have one payload, if the body is plain. -/
theorem gate_seen {manager : Manager} {service : Service} {request : Request}
    {granted : Option PyStr} {payload : Fields} (authorized : request.authorized = true)
    (plain : IsPlain request.body)
    (hpayload : loadsBytes host request.body = some (.obj payload))
    (h : gate host manager service request = .delegated granted) :
    gatePayload host manager service request.path payload = .delegated granted := by
  rw [gate, text_of_loadsBytes host plain, hpayload, authorized, Bool.not_true,
    if_neg Bool.false_ne_true] at h
  split at h
  · exact absurd h (by simp)
  · exact h

/-- A source is granted by the hub now, or was less than a minute ago. -/
theorem preflight_granted {service after : Service} {sourceModel accessType : PyStr}
    (h : preflight host service sourceModel accessType = some (.granted, after)) :
    ∃ repo, safeRepoId sourceModel = some repo ∧
      ((∃ status, service.probe repo = some status ∧ (status = 200 ∨ status = 206)) ∨
        ∃ time, service.cache (repo, host.fingerprint service.token, normalizedType accessType) =
          some (time, .granted) ∧ service.now - time < 60) := by
  unfold preflight at h
  obtain ⟨repo, hrepo, h⟩ := Option.bind_eq_some_iff.mp h
  refine ⟨repo, hrepo, ?_⟩
  dsimp only at h
  split at h
  · exact absurd (Option.some.inj h) (by simp)
  split at h
  · next cached hcached =>
    obtain ⟨stored, recent⟩ := Option.filter_eq_some_iff.mp hcached
    have code : cached.2 = .granted := (Prod.mk.inj (Option.some.inj h)).1
    exact .inr ⟨cached.1, by rw [stored, ← code], of_decide_eq_true recent⟩
  split at h
  · next refused =>
    exact absurd (Prod.mk.inj (Option.some.inj h)).1 refused.2
  · have code := (Prod.mk.inj (Option.some.inj h)).1
    left
    split at code
    · exact absurd code (by simp)
    · next status hstatus =>
      refine ⟨status, hstatus, ?_⟩
      by_contra other
      rw [statusCode, if_neg other] at code
      split_ifs at code

end

/-! ### A body with a mark -/

/-- The libraries on the document `\x7b"model":"m"\x7d`. -/
def oneHost : Host where
  parse text :=
    if text = points "\x7b\"model\":\"m\"\x7d" then
      some (.obj [(points "model", .str (points "m"))])
    else none
  parse_null text value h := by
    split at h
    · next eq =>
      rw [eq]
      decide
    · exact absurd h (by simp)
  str
    | .str text => text
    | _ => []
  str_text _ := rfl
  int
    | .int n => some n
    | _ => none
  float
    | .float x => some x
    | _ => none
  bool
    | .bool value => some value
    | _ => none
  bool_true := rfl
  device := some
  fingerprint token := token.getD []

def oneBody : Bytes :=
  [0x7B, 0x22, 0x6D, 0x6F, 0x64, 0x65, 0x6C, 0x22, 0x3A, 0x22, 0x6D, 0x22, 0x7D]

def oneConfig : ModelConfig where
  name := points "m"
  sourceModel := points "o/m"
  backend := points "openvino-genai"
  weightFormat := points "int4"
  recommendedDevice := points "CPU"
  maxContextLen := 2048
  maxOutputTokens := 512
  trustRemoteCode := false

def oneManager : Manager where
  catalog model := if model = points "m" then some oneConfig else none
  loaded _ := false
  contextChanges _ := false
  accessMetadata _ := none
  saves := true

/-- A service without a token that gets this status of the hub. -/
def probed (status : ℕ) : Service where
  token := none
  now := 0
  cache _ := none
  tokenTest := .tokenMissing
  probe _ := some status

/-- The request for the conversion of the model. -/
def convertRequest (body : Bytes) : Request where
  path := .convert
  authorized := true
  safeOrigin := true
  body := body

def oneScheduled : Scheduled where
  model := points "m"
  source := points "o/m"
  requestTrust := false
  entryTrust := false
  loaded := false

theorem oneScheduled_untrusted : Untrusted oneScheduled where
  notLoaded := rfl
  source := by decide
  request := rfl
  entry := rfl

end InferBridge.HubPreflight
