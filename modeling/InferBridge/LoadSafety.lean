/-
InferBridge/LoadSafety.lean

Conversion profiles and the choice of a device that is safe for an artifact
(app/model_load_safety.py).

A device expression is a parsed one (runtime/device_check.py): names are
normalised and indices kept.  The floating-point ratio is a rational number.
Of the recorded profile the fields are left out that repeat the identity of
the catalog entry, which no step of this development changes.

Main result.  `safeLoadDevice_namesNpu`: the NPU is in the answer for an INT4
model only if a verified profile was recorded.
-/
import Mathlib

namespace InferBridge

/-! ### Device expressions -/

inductive DeviceBase where
  | cpu
  | gpu
  | npu
deriving DecidableEq, Repr

structure PhysicalDevice where
  base : DeviceBase
  index : Option Nat := none
deriving DecidableEq, Repr

inductive DeviceKind where
  | auto
  | multi
  | hetero
  | physical (device : PhysicalDevice)
deriving DecidableEq, Repr

/-- A parsed target such as `GPU` or `AUTO:NPU,GPU,CPU`. -/
structure DeviceExpression where
  kind : DeviceKind
  devices : List PhysicalDevice := []
deriving DecidableEq, Repr

def PhysicalDevice.isNpu (d : PhysicalDevice) : Bool := d.base = .npu

/-- `_base_device(parsed.kind) == "NPU"` -/
def DeviceKind.isNpu : DeviceKind → Bool
  | .physical d => d.isNpu
  | .auto | .multi | .hetero => false

/-- `_targets_npu`: the devices of the expression, or else its kind, contain the NPU. -/
def DeviceExpression.namesNpu (d : DeviceExpression) : Bool :=
  match d.devices with
  | [] => d.kind.isNpu
  | devices => devices.any PhysicalDevice.isNpu

/-! ### Conversion profiles -/

inductive WeightFormat where
  | int4
  | int8
  | fp16
deriving DecidableEq, Repr

/-- The quantization settings of a conversion request. -/
structure Quantization where
  weightFormat : Option WeightFormat := none
  groupSize : Option Int := none
  ratio : Option ℚ := none
  sym : Option Bool := none
deriving DecidableEq

/-- The settings an artifact is exported with. -/
structure ConversionProfile where
  weightFormat : WeightFormat
  groupSize : Option Int
  ratio : Option ℚ
  sym : Option Bool
deriving DecidableEq

/-- `resolve_conversion_profile` for a catalog entry of format `configured`; `npuGroupSize` is
the answer of `npu_int4_group_size` for its source model. -/
def resolveConversionProfile (configured : WeightFormat) (request : Quantization)
    (device : DeviceExpression) (npuGroupSize : Int) : ConversionProfile :=
  let effectiveFormat := request.weightFormat.getD configured
  if effectiveFormat = .int4 then
    { weightFormat := .int4
      groupSize := some (request.groupSize.getD (if device.namesNpu then npuGroupSize else 128))
      ratio := some (request.ratio.getD 1)
      sym := some (request.sym.getD true) }
  else
    { weightFormat := effectiveFormat
      groupSize := request.groupSize
      ratio := request.ratio
      sym := request.sym }

def npuInt4GroupSizes : List Int := [-1, 128]

def isNpuCompatibleInt4Profile (p : ConversionProfile) : Bool :=
  p.weightFormat = .int4 && p.groupSize.any (npuInt4GroupSizes.contains ·) &&
    p.ratio.any (fun r => |r - 1| < 1 / 10 ^ 9) && p.sym = some true

/-- The marker file in the model directory. -/
structure LoadProfile extends ConversionProfile where
  npuCompatibleInt4 : Bool
deriving DecidableEq

/-- The marker that `record_load_profile` writes. -/
def recordLoadProfile (p : ConversionProfile) : LoadProfile :=
  { p with npuCompatibleInt4 := isNpuCompatibleInt4Profile p }

/-- `_read_profile`: a marker for another format is ignored. -/
def readProfile (configured : WeightFormat) (marker : Option LoadProfile) : Option LoadProfile :=
  marker.filter (fun p => p.weightFormat = configured)

/-- `verified` in `safe_load_device`. -/
def verifiedProfile (configured : WeightFormat) (marker : Option LoadProfile) : Bool :=
  (readProfile configured marker).any fun p =>
    p.npuCompatibleInt4 && isNpuCompatibleInt4Profile p.toConversionProfile

/-- `_available_safe_devices` -/
def availableSafeDevices (available : List PhysicalDevice) : List PhysicalDevice :=
  [⟨.gpu, none⟩, ⟨.cpu, none⟩].filter fun d => available.any (fun a => a.base = d.base)

/-- `safe_load_device`; `none` where it raises. -/
def safeLoadDevice (configured : WeightFormat) (marker : Option LoadProfile)
    (available : List PhysicalDevice) (device : DeviceExpression) : Option DeviceExpression :=
  if configured ≠ .int4 then some device
  else if verifiedProfile configured marker then some device
  else if device.kind.isNpu ∧ device.devices = [] then none
  else if device.devices ≠ [] then
    match device.devices.filter (fun d => !d.isNpu) with
    | [] => none
    | filtered => some { device with devices := filtered }
  else if device.kind = .auto then
    match availableSafeDevices available with
    | [] => none
    | [choice] => some { kind := .physical choice }
    | choices => some { kind := .auto, devices := choices }
  else some device

/-! ### What the answers mean -/

variable {configured : WeightFormat} {marker : Option LoadProfile}
  {available : List PhysicalDevice} {device answer : DeviceExpression}

/-- The portable default of INT4 conversions stays eligible for the NPU. -/
theorem resolveConversionProfile_compatible {npuGroupSize : Int}
    (hgroup : npuInt4GroupSizes.contains npuGroupSize = true) :
    isNpuCompatibleInt4Profile
      (resolveConversionProfile .int4 {} device npuGroupSize) = true := by
  have hchosen : npuInt4GroupSizes.contains (if device.namesNpu then npuGroupSize else 128) := by
    split
    · exact hgroup
    · rfl
  simpa [resolveConversionProfile, isNpuCompatibleInt4Profile] using hchosen

theorem resolveConversionProfile_weightFormat {request : Quantization} {npuGroupSize : Int} :
    (resolveConversionProfile configured request device npuGroupSize).weightFormat =
      request.weightFormat.getD configured := by
  unfold resolveConversionProfile
  dsimp only
  split
  · next hint4 => exact hint4.symm
  · rfl

theorem availableSafeDevices_isNpu {d : PhysicalDevice}
    (hd : d ∈ availableSafeDevices available) : d.isNpu = false := by
  have hmem := List.mem_of_mem_filter hd
  simp only [List.mem_cons, List.not_mem_nil, or_false] at hmem
  rcases hmem with rfl | rfl <;> rfl

theorem namesNpu_of_any {devices : List PhysicalDevice} {kind : DeviceKind}
    (hne : devices ≠ []) (hnone : ∀ d ∈ devices, d.isNpu = false) :
    (DeviceExpression.mk kind devices).namesNpu = false := by
  unfold DeviceExpression.namesNpu
  split
  · next hempty => exact absurd hempty hne
  · simpa using hnone

/-- For an INT4 model whose artifact is not verified, the NPU is taken out. -/
theorem safeLoadDevice_unverified (hunverified : verifiedProfile .int4 marker = false)
    (hanswer : safeLoadDevice .int4 marker available device = some answer) :
    answer.namesNpu = false := by
  unfold safeLoadDevice at hanswer
  rw [if_neg (by simp), if_neg (by simp [hunverified])] at hanswer
  split at hanswer
  · cases hanswer
  · next hdirect =>
    split at hanswer
    · split at hanswer
      · cases hanswer
      · next filtered hfiltered =>
        obtain rfl := Option.some.inj hanswer
        apply namesNpu_of_any hfiltered
        intro d hd
        simpa using (List.mem_filter.mp hd).2
    · next hplain =>
      have hdevices : device.devices = [] := by simpa using hplain
      split at hanswer
      · split at hanswer
        · cases hanswer
        · next choice hchoice =>
          obtain rfl := Option.some.inj hanswer
          have hmem : choice ∈ availableSafeDevices available := by simp [hchoice]
          exact availableSafeDevices_isNpu hmem
        · next hchoices _ =>
          obtain rfl := Option.some.inj hanswer
          exact namesNpu_of_any hchoices (fun d hd => availableSafeDevices_isNpu hd)
      · obtain rfl := Option.some.inj hanswer
        simpa [DeviceExpression.namesNpu, hdevices] using hdirect

/-- The NPU is in the answer for an INT4 model only if a verified profile was recorded. -/
theorem safeLoadDevice_namesNpu
    (hanswer : safeLoadDevice configured marker available device = some answer)
    (hnpu : answer.namesNpu = true) :
    configured ≠ .int4 ∨ verifiedProfile configured marker = true := by
  by_cases hint4 : configured = .int4
  · subst hint4
    right
    by_contra hunverified
    have hno := safeLoadDevice_unverified (by simpa using hunverified) hanswer
    rw [hno] at hnpu
    cases hnpu
  · exact .inl hint4

/-- A verified marker is one that records an NPU-compatible conversion. -/
theorem verifiedProfile_iff : verifiedProfile configured marker = true ↔
    ∃ p, marker = some p ∧ p.weightFormat = configured ∧ p.npuCompatibleInt4 = true ∧
      isNpuCompatibleInt4Profile p.toConversionProfile = true := by
  unfold verifiedProfile readProfile
  rcases marker with - | p
  · simp
  · by_cases hformat : p.weightFormat = configured <;> simp [Option.filter, hformat]

end InferBridge
