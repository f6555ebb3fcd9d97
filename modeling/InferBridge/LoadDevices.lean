/-
InferBridge/LoadDevices.lean

The device that a model is loaded on (`safe_load_device` in
app/model_load_safety.py), from the text of a request to the text that the
engine is given.

LoadSafety has the same choice on parsed expressions.  Here the text of the
answer is read again by the grammar of the request (DeviceNames), so that an
answer can be asked for in its turn.

Of the marker of an artifact the fields are left out that repeat the identity
of the catalog entry; a marker of another model is an absent one.

Main results.  `safeLoadDevice_spec`: an INT4 artifact without a verified
profile keeps the requested devices but for the NPU, in their order, and is
refused where none is left; every other artifact keeps the request; and an
answer is its own answer.  `safeLoadDevice_parsed`: LoadSafety makes the same
choice.
-/
import InferBridge.Catalog

namespace InferBridge.LoadDevices

open Text

/-! ### Names -/

/-- `DEFAULT_DEVICE` -/
def defaultDevice : Str := "NPU".toList

/-- `parse_device_expression` with the default for an absent or blank value. -/
def parseWithDefault (device : Option Str) : Option DeviceCheck.DeviceExpression :=
  let raw := strip isSpace (device.getD defaultDevice)
  DeviceCheck.parseDeviceExpression (if raw = [] then defaultDevice else raw)

/-- `_base_device` -/
def baseDevice (value : Str) : Str := DeviceCheck.upper (value.takeWhile (· ≠ '.'))

def isNpu (device : Str) : Bool := baseDevice device = "NPU".toList

/-- `_available_safe_devices` -/
def availableSafeDevices (available : List Str) : List Str :=
  ["GPU".toList, "CPU".toList].filter fun device => (available.map baseDevice).contains device

/-! ### The choice -/

inductive Refusal where
  /-- `DeviceValidationError` -/
  | invalid
  /-- `RuntimeError` -/
  | unverified (message : Str)
deriving DecidableEq, Repr

def directMessage (cfg : ModelConfig) : Str :=
  cfg.name ++ (" was not converted with a verified NPU-compatible INT4 profile. " ++
    "Delete and reconvert it with the default INT4 settings " ++
    "(symmetric, ratio 1.0, group size 128) before loading it on NPU.").toList

def compositeMessage (cfg : ModelConfig) : Str :=
  cfg.name ++ (" cannot use this device expression until it is reconverted with " ++
    "the verified NPU-compatible INT4 profile.").toList

def unavailableMessage (cfg : ModelConfig) : Str :=
  cfg.name ++ (" has an unverified INT4 artifact and no safe CPU or GPU target " ++
    "is available. Reconvert it with the default INT4 settings.").toList

/-- `safe_load_device`; `machine` is the answer of `device_check.available_devices`, which is
asked where `available` is empty. -/
def safeLoadDevice (cfg : ModelConfig) (marker : Option LoadProfile) (available machine : List Str)
    (device : Option Str) : Except Refusal Str :=
  match (parseWithDefault device).map DeviceCheck.DeviceExpression.normalized with
  | none => .error .invalid
  | some normalized =>
    if cfg.weightFormat ≠ .int4 then .ok normalized
    else if verifiedProfile cfg.weightFormat marker then .ok normalized
    else
      match DeviceCheck.parseDeviceExpression normalized with
      | none => .error .invalid
      | some parsed =>
        if isNpu parsed.kind ∧ parsed.devices = [] then .error (.unverified (directMessage cfg))
        else if parsed.devices ≠ [] then
          match parsed.devices.filter (fun token => !isNpu token) with
          | [] => .error (.unverified (compositeMessage cfg))
          | filtered => .ok (parsed.kind ++ ':' :: [','].intercalate filtered)
        else if parsed.kind = "AUTO".toList then
          match availableSafeDevices (if available = [] then machine else available) with
          | [] => .error (.unverified (unavailableMessage cfg))
          | [choice] => .ok choice
          | choices => .ok ("AUTO:".toList ++ [','].intercalate choices)
        else .ok normalized

/-! ### What is left of a request -/

def isAuto (e : DeviceCheck.DeviceExpression) : Prop :=
  e = { kind := "AUTO".toList }

instance (e : DeviceCheck.DeviceExpression) : Decidable (isAuto e) := by
  unfold isAuto
  infer_instance

/-- The devices of an expression. -/
def components (e : DeviceCheck.DeviceExpression) : List Str :=
  if e.devices = [] then [e.kind] else e.devices

/-- The devices without the NPU; `AUTO` alone stands for those that are there. -/
def remaining (available : List Str) (e : DeviceCheck.DeviceExpression) : List Str :=
  if isAuto e then availableSafeDevices available
  else (components e).filter fun device => !isNpu device

theorem isNpu_availableSafeDevices {available : List Str} {d : Str}
    (h : d ∈ availableSafeDevices available) : isNpu d = false := by
  have hmem := List.mem_of_mem_filter h
  simp only [List.mem_cons, List.not_mem_nil, or_false] at hmem
  rcases hmem with rfl | rfl <;> rfl

theorem isNpu_remaining {available : List Str} {e : DeviceCheck.DeviceExpression} {d : Str}
    (h : d ∈ remaining available e) : isNpu d = false := by
  unfold remaining at h
  split at h
  · exact isNpu_availableSafeDevices h
  · simpa using List.of_mem_filter h

/-- The devices that are there are none, one, or both in their order. -/
theorem availableSafeDevices_cases (available : List Str) :
    availableSafeDevices available = [] ∨ availableSafeDevices available = ["GPU".toList] ∨
      availableSafeDevices available = ["CPU".toList] ∨
        availableSafeDevices available = ["GPU".toList, "CPU".toList] := by
  unfold availableSafeDevices
  rw [List.filter_cons, List.filter_cons, List.filter_nil]
  split <;> split <;> simp

/-- **The unverified artifact.**  It is refused where no device is left; otherwise the answer is
the text of an expression of the devices that are left. -/
theorem safeLoadDevice_unverified {cfg : ModelConfig} {marker : Option LoadProfile}
    (available machine : List Str) {device : Option Str} {e : DeviceCheck.DeviceExpression}
    (hparse : parseWithDefault device = some e) (hint4 : cfg.weightFormat = .int4)
    (hmarker : verifiedProfile cfg.weightFormat marker = false) :
    (remaining (if available = [] then machine else available) e = [] ∧
        ∃ message, safeLoadDevice cfg marker available machine device =
          .error (.unverified message)) ∨
      ∃ answer, answer.WellFormed ∧ ¬ isAuto answer ∧
        components answer = remaining (if available = [] then machine else available) e ∧
          safeLoadDevice cfg marker available machine device = .ok answer.normalized := by
  have hwell : e.WellFormed := DeviceCheck.parseDeviceExpression_cases hparse
  unfold safeLoadDevice
  rw [hparse, Option.map_some]
  dsimp only
  rw [if_neg (not_not.mpr hint4), hmarker, if_neg Bool.false_ne_true, hwell.parse]
  dsimp only
  generalize (if available = [] then machine else available) = there
  rcases hwell with ⟨hnone, hkind⟩ | ⟨hkind, hne, htokens, hnodup⟩
  · obtain ⟨kind, devices⟩ := e
    obtain rfl : devices = [] := hnone
    by_cases hauto : kind = "AUTO".toList
    · -- `AUTO` alone
      subst hauto
      have hremaining : remaining there ⟨"AUTO".toList, []⟩ = availableSafeDevices there :=
        if_pos rfl
      rw [if_neg (by decide), if_neg (by simp), if_pos rfl, hremaining]
      rcases availableSafeDevices_cases there with h | h | h | h <;> rw [h]
      · exact .inl ⟨rfl, _, rfl⟩
      · exact .inr ⟨⟨"GPU".toList, []⟩, .inl ⟨rfl, .inr (by decide)⟩, by decide, rfl, rfl⟩
      · exact .inr ⟨⟨"CPU".toList, []⟩, .inl ⟨rfl, .inr (by decide)⟩, by decide, rfl, rfl⟩
      · refine .inr ⟨⟨"AUTO".toList, ["GPU".toList, "CPU".toList]⟩, .inr ?_, by decide, rfl, rfl⟩
        exact ⟨by decide, by simp, by decide, by decide⟩
    · have hplain : ¬ isAuto ⟨kind, []⟩ := fun h => hauto (congrArg DeviceCheck.DeviceExpression.kind h)
      have hremaining : remaining there ⟨kind, []⟩ = [kind].filter fun d => !isNpu d :=
        if_neg hplain
      rw [hremaining]
      by_cases hnpu : isNpu kind = true
      · rw [if_pos ⟨hnpu, rfl⟩]
        exact .inl ⟨by simp [hnpu], _, rfl⟩
      · rw [if_neg (fun h => hnpu h.1), if_neg (by simp), if_neg hauto]
        refine .inr ⟨⟨kind, []⟩, .inl ⟨rfl, hkind⟩, hplain, ?_, rfl⟩
        show [kind] = _
        simp [hnpu]
  · have hplain : ¬ isAuto e := by
      intro h
      rw [h] at hne
      exact hne rfl
    have hremaining : remaining there e = e.devices.filter fun d => !isNpu d := by
      rw [remaining, if_neg hplain, components, if_neg hne]
    rw [if_neg (fun h => hne h.2), if_pos hne, hremaining]
    rcases hfiltered : e.devices.filter (fun d => !isNpu d) with - | ⟨d, ds⟩
    · exact .inl ⟨rfl, _, rfl⟩
    · have hsublist : (d :: ds).Sublist e.devices := by
        rw [← hfiltered]
        exact List.filter_sublist
      refine .inr ⟨⟨e.kind, d :: ds⟩, .inr ⟨hkind, by simp, ?_, hnodup.sublist hsublist⟩, ?_,
        rfl, rfl⟩
      · rw [List.all_eq_true] at htokens ⊢
        exact fun t ht => htokens t (hsublist.subset ht)
      · intro h
        exact absurd (congrArg DeviceCheck.DeviceExpression.devices h) (by simp)

/-- Every other artifact keeps the request. -/
theorem safeLoadDevice_kept {cfg : ModelConfig} {marker : Option LoadProfile}
    {available machine : List Str} {device : Option Str} {e : DeviceCheck.DeviceExpression}
    (hparse : parseWithDefault device = some e)
    (hkept : cfg.weightFormat ≠ .int4 ∨ verifiedProfile cfg.weightFormat marker = true) :
    safeLoadDevice cfg marker available machine device = .ok e.normalized := by
  unfold safeLoadDevice
  rw [hparse, Option.map_some]
  dsimp only
  rcases hkept with hformat | hverified
  · rw [if_pos hformat]
  · by_cases hformat : cfg.weightFormat ≠ .int4
    · rw [if_pos hformat]
    · rw [if_neg hformat, if_pos hverified]

/-- The text of an expression, asked for. -/
theorem parseWithDefault_normalized {e : DeviceCheck.DeviceExpression} (h : e.WellFormed) :
    parseWithDefault (some e.normalized) = some e := by
  obtain ⟨hkept, hne⟩ := h.kept
  unfold parseWithDefault
  rw [Option.getD_some, DeviceCheck.strip_kept hkept]
  dsimp only
  rw [if_neg hne, h.parse]

/-- A device that is there, and safe. -/
def Safe (available : List Str) (d : Str) : Prop :=
  (d = "GPU".toList ∨ d = "CPU".toList) ∧ ∃ a ∈ available, baseDevice a = d

theorem safe_of_mem {available : List Str} {d : Str} (h : d ∈ availableSafeDevices available) :
    Safe available d := by
  obtain ⟨hmem, hthere⟩ := List.mem_filter.mp h
  refine ⟨by simpa using hmem, ?_⟩
  obtain ⟨a, ha, hbase⟩ := List.mem_map.mp (List.contains_iff_mem.mp hthere)
  exact ⟨a, ha, hbase⟩

theorem mem_of_safe {available : List Str} {d : Str} (h : Safe available d) :
    d ∈ availableSafeDevices available := by
  obtain ⟨hname, a, ha, hbase⟩ := h
  refine List.mem_filter.mpr ⟨by simpa using hname, ?_⟩
  exact List.contains_iff_mem.mpr (List.mem_map.mpr ⟨a, ha, hbase⟩)

/-- An expression with nothing to take out is kept. -/
theorem safeLoadDevice_clean {cfg : ModelConfig} {marker : Option LoadProfile}
    {available machine : List Str} {device : Option Str} {e : DeviceCheck.DeviceExpression}
    (hparse : parseWithDefault device = some e) (hplain : ¬ isAuto e)
    (hclean : ∀ d ∈ components e, isNpu d = false) :
    safeLoadDevice cfg marker available machine device = .ok e.normalized := by
  by_cases hkept : cfg.weightFormat ≠ .int4 ∨ verifiedProfile cfg.weightFormat marker = true
  · exact safeLoadDevice_kept hparse hkept
  obtain ⟨hint4, hmarker⟩ := not_or.mp hkept
  have hwell : e.WellFormed := DeviceCheck.parseDeviceExpression_cases hparse
  unfold safeLoadDevice
  rw [hparse, Option.map_some]
  dsimp only
  rw [if_neg hint4, if_neg hmarker, hwell.parse]
  dsimp only
  obtain ⟨kind, devices⟩ := e
  by_cases hnone : devices = []
  · subst hnone
    have hkind : isNpu kind = false := hclean kind List.mem_cons_self
    have hauto : kind ≠ "AUTO".toList := by
      rintro rfl
      exact hplain rfl
    rw [if_neg (fun h => Bool.false_ne_true (hkind.symm.trans h.1)), if_neg (by simp),
      if_neg hauto]
  · have hdevices : devices.filter (fun d => !isNpu d) = devices := by
      apply List.filter_eq_self.mpr
      intro d hd
      have hd' : d ∈ components ⟨kind, devices⟩ := by
        rw [components, if_neg hnone]
        exact hd
      rw [hclean d hd']
      rfl
    rw [if_neg (fun h => hnone h.2), if_pos hnone, hdevices]
    rcases devices with - | ⟨d, ds⟩
    · exact absurd rfl hnone
    · rfl

/-- What is owed to a request for an INT4 artifact that is not verified: the answer, if there is
one, has the devices of the request without the NPU, or devices that are there for `AUTO`; it is
refused where there is no such device. -/
structure Stripped (there : List Str) (e : DeviceCheck.DeviceExpression)
    (result : Except Refusal Str) : Prop where
  answer : ∀ text, result = .ok text → ∃ answer,
    DeviceCheck.parseDeviceExpression text = some answer ∧ answer.normalized = text ∧
      (∀ d ∈ components answer, isNpu d = false) ∧
        (¬ isAuto e → (components answer).Sublist (components e)) ∧
          (isAuto e → ∀ d ∈ components answer, Safe there d)
  refused : (∃ refusal, result = .error refusal) ↔
    if isAuto e then ∀ d, ¬ Safe there d else ∀ d ∈ components e, isNpu d = true

theorem remaining_eq_nil_iff {there : List Str} {e : DeviceCheck.DeviceExpression} :
    remaining there e = [] ↔
      if isAuto e then ∀ d, ¬ Safe there d else ∀ d ∈ components e, isNpu d = true := by
  unfold remaining
  split
  · constructor
    · intro hnil d hsafe
      have hmem := mem_of_safe hsafe
      rw [hnil] at hmem
      cases hmem
    · intro hnone
      exact List.eq_nil_iff_forall_not_mem.mpr fun d hd => hnone d (safe_of_mem hd)
  · rw [List.filter_eq_nil_iff]
    simp

/-- **The device of a load.**  For an INT4 artifact without a verified profile the NPU is taken
out; every other request is kept; and the answer to an answer is itself. -/
theorem safeLoadDevice_spec (cfg : ModelConfig) (marker : Option LoadProfile)
    (available machine : List Str) {device : Option Str} {e : DeviceCheck.DeviceExpression}
    (hparse : parseWithDefault device = some e) :
    (cfg.weightFormat = .int4 ∧ verifiedProfile cfg.weightFormat marker = false →
        Stripped (if available = [] then machine else available) e
          (safeLoadDevice cfg marker available machine device)) ∧
      (cfg.weightFormat ≠ .int4 ∨ verifiedProfile cfg.weightFormat marker = true →
        safeLoadDevice cfg marker available machine device = .ok e.normalized) ∧
      ∀ text, safeLoadDevice cfg marker available machine device = .ok text →
        safeLoadDevice cfg marker available machine (some text) = .ok text := by
  have hwell : e.WellFormed := DeviceCheck.parseDeviceExpression_cases hparse
  refine ⟨?_, safeLoadDevice_kept hparse, ?_⟩
  · rintro ⟨hint4, hmarker⟩
    rcases safeLoadDevice_unverified available machine hparse hint4 hmarker with
      ⟨hnone, message, hresult⟩ | ⟨answer, hanswer, -, hcomponents, hresult⟩
    · rw [hresult]
      refine ⟨?_, iff_of_true ⟨_, rfl⟩ (remaining_eq_nil_iff.mp hnone)⟩
      intro text htext
      cases htext
    · rw [hresult]
      refine ⟨?_, iff_of_false ?_ ?_⟩
      · rintro text htext
        obtain rfl := Except.ok.inj htext
        refine ⟨answer, hanswer.parse, rfl, ?_, ?_, ?_⟩
        · intro d hd
          rw [hcomponents] at hd
          exact isNpu_remaining hd
        · intro hplain
          rw [hcomponents, remaining, if_neg hplain]
          exact List.filter_sublist
        · intro hauto d hd
          rw [hcomponents, remaining, if_pos hauto] at hd
          exact safe_of_mem hd
      · rintro ⟨refusal, hrefusal⟩
        cases hrefusal
      · intro hall
        have hnil := remaining_eq_nil_iff.mpr hall
        rw [← hcomponents, components] at hnil
        split at hnil
        · cases hnil
        · next hne => exact hne hnil
  · intro text htext
    by_cases hkept : cfg.weightFormat ≠ .int4 ∨ verifiedProfile cfg.weightFormat marker = true
    · rw [safeLoadDevice_kept hparse hkept] at htext
      obtain rfl := Except.ok.inj htext
      exact safeLoadDevice_kept (parseWithDefault_normalized hwell) hkept
    · obtain ⟨hint4, hmarker⟩ := not_or.mp hkept
      have hint4 := not_not.mp hint4
      have hmarker := eq_false_of_ne_true hmarker
      rcases safeLoadDevice_unverified available machine hparse hint4 hmarker with
        ⟨-, message, hresult⟩ | ⟨answer, hanswer, hplain, hcomponents, hresult⟩
      · rw [hresult] at htext
        cases htext
      · rw [hresult] at htext
        obtain rfl := Except.ok.inj htext
        refine safeLoadDevice_clean (parseWithDefault_normalized hanswer) hplain ?_
        intro d hd
        rw [hcomponents] at hd
        exact isNpu_remaining hd

/-- An entry of the catalog in INT4. -/
def int4Config : ModelConfig where
  id := "m".toList
  name := "Model".toList
  description := []
  backend := .genai
  modelPath := "models/openvino/m".toList
  sourceModel := []
  weightFormat := .int4
  recommendedDevice := "NPU".toList
  maxContextLen := 2048
  maxOutputTokens := 512

theorem safeLoadDevice_spec_priorities :
    Stripped ["CPU".toList] ⟨"AUTO".toList, ["NPU".toList, "GPU.1".toList]⟩
      (safeLoadDevice int4Config none ["CPU".toList] [] (some " auto:npu, gpu.1".toList)) :=
  (safeLoadDevice_spec int4Config none ["CPU".toList] []
    (by decide : parseWithDefault (some " auto:npu, gpu.1".toList) =
      some ⟨"AUTO".toList, ["NPU".toList, "GPU.1".toList]⟩)).1 ⟨rfl, rfl⟩

/-! ### Parsed expressions -/

/-- The text of a physical device. -/
def nameOf (d : PhysicalDevice) : Str :=
  (match d.base with
    | .cpu => "CPU".toList
    | .gpu => "GPU".toList
    | .npu => "NPU".toList) ++
  match d.index with
    | none => []
    | some n => '.' :: (toString n).toList

def kindOf : DeviceKind → Str
  | .auto => "AUTO".toList
  | .multi => "MULTI".toList
  | .hetero => "HETERO".toList
  | .physical d => nameOf d

def expressionOf (e : DeviceExpression) : DeviceCheck.DeviceExpression :=
  { kind := kindOf e.kind, devices := e.devices.map nameOf }

theorem baseDevice_nameOf (d : PhysicalDevice) :
    baseDevice (nameOf d) = nameOf { base := d.base } := by
  obtain ⟨base, index⟩ := d
  rcases base <;> rcases index with - | n <;> rfl

theorem nameOf_base_inj (base base' : DeviceBase) :
    nameOf { base } = nameOf { base := base' } ↔ base = base' := by
  cases base <;> cases base' <;> decide

theorem isNpu_nameOf (d : PhysicalDevice) : isNpu (nameOf d) = d.isNpu := by
  rw [isNpu, baseDevice_nameOf]
  obtain ⟨base, index⟩ := d
  rcases base <;> rfl

theorem isNpu_kindOf (kind : DeviceKind) : isNpu (kindOf kind) = kind.isNpu := by
  rcases kind with - | - | - | d
  · rfl
  · rfl
  · rfl
  · exact isNpu_nameOf d

theorem kindOf_auto_iff {kind : DeviceKind} : kindOf kind = "AUTO".toList ↔ kind = .auto := by
  rcases kind with - | - | - | ⟨base, index⟩
  · simp [kindOf]
  · exact iff_of_false (by decide) (by simp)
  · exact iff_of_false (by decide) (by simp)
  · refine iff_of_false ?_ (by simp)
    rcases base <;> simp [kindOf, nameOf]

theorem availableSafeDevices_nameOf (available : List PhysicalDevice) :
    availableSafeDevices (available.map nameOf) =
      (InferBridge.availableSafeDevices available).map nameOf := by
  have hthere (base : DeviceBase) :
      ((available.map nameOf).map baseDevice).contains (nameOf { base }) =
        available.any fun a => a.base = base := by
    rw [Bool.eq_iff_iff, List.contains_iff_mem, List.map_map, List.mem_map, List.any_eq_true]
    refine exists_congr fun a => and_congr_right fun _ => ?_
    show baseDevice (nameOf a) = nameOf { base } ↔ _
    rw [baseDevice_nameOf, decide_eq_true_eq]
    exact nameOf_base_inj a.base base
  unfold availableSafeDevices InferBridge.availableSafeDevices
  rw [List.filter_cons, List.filter_cons, List.filter_nil, List.filter_cons, List.filter_cons,
    List.filter_nil]
  have hgpu := hthere .gpu
  have hcpu := hthere .cpu
  change List.contains _ "GPU".toList = _ at hgpu
  change List.contains _ "CPU".toList = _ at hcpu
  rw [hgpu, hcpu]
  dsimp only
  split <;> split <;> rfl

/-- **The choice on texts is the one on parsed expressions.** -/
theorem safeLoadDevice_parsed {cfg : ModelConfig} {marker : Option LoadProfile}
    {available : List PhysicalDevice} {machine : List Str} {e : DeviceExpression}
    (hwell : (expressionOf e).WellFormed) (havailable : available ≠ []) :
    (safeLoadDevice cfg marker (available.map nameOf) machine
        (some (expressionOf e).normalized)).toOption =
      (InferBridge.safeLoadDevice cfg.weightFormat marker available e).map fun answer =>
        (expressionOf answer).normalized := by
  unfold safeLoadDevice InferBridge.safeLoadDevice
  rw [parseWithDefault_normalized hwell, Option.map_some]
  dsimp only
  by_cases hformat : cfg.weightFormat ≠ .int4
  · rw [if_pos hformat, if_pos hformat]
    rfl
  by_cases hmarker : verifiedProfile cfg.weightFormat marker = true
  · rw [if_neg hformat, if_pos hmarker, if_neg hformat, if_pos hmarker]
    rfl
  rw [if_neg hformat, if_neg hmarker, if_neg hformat, if_neg hmarker, hwell.parse]
  dsimp only
  obtain ⟨kind, devices⟩ := e
  have hdirect : (isNpu (expressionOf ⟨kind, devices⟩).kind = true ∧
      (expressionOf ⟨kind, devices⟩).devices = []) ↔ (kind.isNpu = true ∧ devices = []) := by
    show (isNpu (kindOf kind) = true ∧ devices.map nameOf = []) ↔ _
    rw [isNpu_kindOf, List.map_eq_nil_iff]
  by_cases hnpu : kind.isNpu = true ∧ devices = []
  · rw [if_pos (hdirect.mpr hnpu), if_pos hnpu]
    rfl
  rw [if_neg (fun h => hnpu (hdirect.mp h)), if_neg hnpu]
  have hempty : (expressionOf ⟨kind, devices⟩).devices ≠ [] ↔ devices ≠ [] :=
    not_congr List.map_eq_nil_iff
  by_cases hdevices : devices ≠ []
  · rw [if_pos (hempty.mpr hdevices), if_pos hdevices]
    have hfilter : (expressionOf ⟨kind, devices⟩).devices.filter (fun token => !isNpu token) =
        (devices.filter fun d => !d.isNpu).map nameOf := by
      show (devices.map nameOf).filter _ = _
      rw [List.filter_map]
      congr 1
      apply List.filter_congr
      intro d _
      show (!isNpu (nameOf d)) = _
      rw [isNpu_nameOf]
    rw [hfilter]
    rcases hleft : devices.filter (fun d => !d.isNpu) with - | ⟨d, ds⟩
    · rw [show List.filter (fun d => !d.isNpu) (DeviceExpression.mk kind devices).devices = []
        from hleft]
      rfl
    · rw [show List.filter (fun d => !d.isNpu) (DeviceExpression.mk kind devices).devices = d :: ds
        from hleft]
      rfl
  rw [if_neg (fun h => hdevices (hempty.mp h)), if_neg hdevices]
  by_cases hauto : kind = .auto
  · have hthere : available.map nameOf ≠ [] := fun h => havailable (List.map_eq_nil_iff.mp h)
    have hkind : (expressionOf ⟨kind, devices⟩).kind = "AUTO".toList :=
      kindOf_auto_iff.mpr hauto
    rw [if_pos hkind, if_pos hauto, if_neg hthere, availableSafeDevices_nameOf]
    rcases InferBridge.availableSafeDevices available with - | ⟨d, - | ⟨d', ds⟩⟩
    · rfl
    · rfl
    · rfl
  · have hkind : (expressionOf ⟨kind, devices⟩).kind ≠ "AUTO".toList :=
      fun h => hauto (kindOf_auto_iff.mp h)
    rw [if_neg hkind, if_neg hauto]
    rfl

end InferBridge.LoadDevices
