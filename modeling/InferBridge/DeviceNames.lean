/-
InferBridge/DeviceNames.lean

The text of a device expression (runtime/device_check.py).

LoadSafety works with parsed expressions; the catalog stores their text,
and parses it again at every start.

Main results.  The normalized text of an expression is parsed back to the
expression (`WellFormed.parse`), so that normalizing twice changes nothing.
-/
import InferBridge.Tools

namespace InferBridge

namespace DeviceCheck

open Text

/-! ### Upper case -/

/-- `str.upper` of one character, as far as device names can tell: the characters with an ASCII
letter in their upper case. -/
def upperChar (c : Char) : Str :=
  if 97 ≤ c.toNat ∧ c.toNat ≤ 122 then [Char.ofNat (c.toNat - 32)]
  else if c = 'ı' then ['I']
  else if c = 'ſ' then ['S']
  else if c = 'ß' then ['S', 'S']
  else if c = 'ﬀ' then ['F', 'F']
  else if c = 'ﬁ' then ['F', 'I']
  else if c = 'ﬂ' then ['F', 'L']
  else if c = 'ﬃ' then ['F', 'F', 'I']
  else if c = 'ﬄ' then ['F', 'F', 'L']
  else if c = 'ﬅ' ∨ c = 'ﬆ' then ['S', 'T']
  else [c]

def upper (s : Str) : Str := s.flatMap upperChar

/-! ### Device expressions -/

/-- The zeros of the decimal digits that `\d` matches. -/
def decimalZeros : List Nat :=
  [0x30, 0x660, 0x6F0, 0x7C0, 0x966, 0x9E6, 0xA66, 0xAE6, 0xB66, 0xBE6, 0xC66, 0xCE6, 0xD66, 0xDE6,
    0xE50, 0xED0, 0xF20, 0x1040, 0x1090, 0x17E0, 0x1810, 0x1946, 0x19D0, 0x1A80, 0x1A90, 0x1B50,
    0x1BB0, 0x1C40, 0x1C50, 0xA620, 0xA8D0, 0xA900, 0xA9D0, 0xA9F0, 0xAA50, 0xABF0, 0xFF10,
    0x104A0, 0x10D30, 0x11066, 0x110F0, 0x11136, 0x111D0, 0x112F0, 0x11450, 0x114D0, 0x11650,
    0x116C0, 0x11730, 0x118E0, 0x11950, 0x11C50, 0x11D50, 0x11DA0, 0x11F50, 0x16A60, 0x16AC0,
    0x16B50, 0x1D7CE, 0x1D7D8, 0x1D7E2, 0x1D7EC, 0x1D7F6, 0x1E140, 0x1E2F0, 0x1E4F0, 0x1E950,
    0x1FBF0]

def isDecimal (c : Char) : Bool :=
  decimalZeros.any fun first => first ≤ c.toNat && c.toNat ≤ first + 9

/-- The value of a decimal digit. -/
def decimalValue (c : Char) : Nat :=
  match decimalZeros.find? fun first => first ≤ c.toNat ∧ c.toNat ≤ first + 9 with
  | some first => c.toNat - first
  | none => 0

/-- `int` of a text of digits, which may have at most 4300. -/
def digitsValue (digits : Str) : Option Nat :=
  if digits = [] ∨ 4300 < digits.length ∨ digits.any (fun c => !isDecimal c) then none
  else some (digits.foldl (fun n c => 10 * n + decimalValue c) 0)

def physicalDeviceBases : List Str := ["CPU".toList, "GPU".toList, "NPU".toList]

def metaDevices : List Str := ["AUTO".toList, "MULTI".toList, "HETERO".toList]

/-- `_is_physical_token`: `^(CPU|GPU|NPU)(?:\.\d+)?$` -/
def isPhysicalToken (device : Str) : Bool :=
  physicalDeviceBases.contains (device.take 3) &&
    match device.drop 3 with
    | [] => true
    | '.' :: index => !index.isEmpty && index.all isDecimal
    | _ => false

/-- A parsed device target, as the source has it: the kind and its priorities. -/
structure DeviceExpression where
  kind : Str
  devices : List Str := []
deriving DecidableEq, Repr

def DeviceExpression.normalized (e : DeviceExpression) : Str :=
  if e.devices = [] then e.kind else e.kind ++ ':' :: [','].intercalate e.devices

/-- `parse_device_expression` without a default; `none` is a `DeviceValidationError`. -/
def parseDeviceExpression (device : Str) : Option DeviceExpression :=
  let raw := strip isSpace device
  if raw = [] then none
  else
    let text := upper raw
    if ':' ∉ text then
      if text = "AUTO".toList then some { kind := text }
      else if isPhysicalToken text then some { kind := text }
      else none
    else
      let kind := strip isSpace (text.takeWhile (· ≠ ':'))
      let priorities := strip isSpace ((text.dropWhile (· ≠ ':')).drop 1)
      if kind ∉ metaDevices then none
      else if priorities = [] then none
      else
        let devices := (priorities.splitOn ',').map (strip isSpace)
        if devices.all isPhysicalToken ∧ devices.Nodup then some { kind, devices }
        else none

/-! ### Normalized text -/

/-- A character that `strip` and `upper` leave as it is. -/
def Kept (c : Char) : Prop := isSpace c = false ∧ upperChar c = [c]

/-- And one that separates nothing. -/
def Plain (c : Char) : Prop := Kept c ∧ c ≠ ':' ∧ c ≠ ','

instance (c : Char) : Decidable (Kept c) := by
  unfold Kept
  infer_instance

instance (c : Char) : Decidable (Plain c) := by
  unfold Plain
  infer_instance

theorem plain_decimals : ∀ first ∈ decimalZeros, ∀ k ∈ List.range 10,
    Plain (Char.ofNat (first + k)) := by
  decide +kernel

theorem plain_isDecimal {c : Char} (h : isDecimal c = true) : Plain c := by
  obtain ⟨first, hfirst, hrange⟩ := List.any_eq_true.mp h
  simp only [Bool.and_eq_true, decide_eq_true_eq] at hrange
  have hplain := plain_decimals first hfirst (c.toNat - first) (List.mem_range.mpr (by omega))
  rwa [show first + (c.toNat - first) = c.toNat by omega, Char.ofNat_toNat] at hplain

theorem upper_kept {s : Str} (h : ∀ c ∈ s, Kept c) : upper s = s := by
  induction s with
  | nil => rfl
  | cons c rest ih =>
    have hrest : upper rest = rest := ih fun d hd => h d (List.mem_cons_of_mem _ hd)
    show upperChar c ++ upper rest = c :: rest
    rw [(h c List.mem_cons_self).2, hrest]
    rfl

theorem strip_kept {s : Str} (h : ∀ c ∈ s, Kept c) : strip isSpace s = s :=
  strip_eq_self (fun _ => (h _ (List.head_mem _)).1) (fun _ => (h _ (List.getLast_mem _)).1)

/-- A text without separators. -/
def PlainText (s : Str) : Prop := ∀ c ∈ s, Plain c

instance (s : Str) : Decidable (PlainText s) :=
  decidable_of_iff (s.all (decide <| Plain ·) = true) (by simp [PlainText])

theorem PlainText.kept {s : Str} (h : PlainText s) : ∀ c ∈ s, Kept c := fun c hc => (h c hc).1

theorem PlainText.colon {s : Str} (h : PlainText s) : ':' ∉ s := fun hmem => (h ':' hmem).2.1 rfl

theorem PlainText.comma {s : Str} (h : PlainText s) : ',' ∉ s := fun hmem => (h ',' hmem).2.2 rfl

theorem plainText_isPhysicalToken {t : Str} (h : isPhysicalToken t = true) :
    PlainText t ∧ t ≠ [] := by
  have hbases : ∀ base ∈ physicalDeviceBases, PlainText base ∧ base ≠ [] := by decide
  simp only [isPhysicalToken, Bool.and_eq_true, List.contains_iff_mem] at h
  obtain ⟨hbase, hrest⟩ := h
  have hindex : PlainText (t.drop 3) := by
    split at hrest
    · next hnil =>
      rw [hnil]
      nofun
    · next index hdot =>
      rw [hdot]
      simp only [Bool.and_eq_true, List.all_eq_true] at hrest
      intro c hc
      rcases List.mem_cons.mp hc with rfl | hc
      · decide
      · exact plain_isDecimal (hrest.2 c hc)
    · cases hrest
  rw [← List.take_append_drop 3 t]
  refine ⟨?_, ?_⟩
  · intro c hc
    rcases List.mem_append.mp hc with hc | hc
    · exact (hbases _ hbase).1 c hc
    · exact hindex c hc
  · intro hnil
    exact (hbases _ hbase).2 (List.append_eq_nil_iff.mp hnil).1

theorem plainText_metaDevices : ∀ kind ∈ metaDevices, PlainText kind ∧ kind ≠ [] := by decide

/-- A single name, or priorities under a mode. -/
def DeviceExpression.WellFormed (e : DeviceExpression) : Prop :=
  (e.devices = [] ∧ (e.kind = "AUTO".toList ∨ isPhysicalToken e.kind = true)) ∨
    (e.kind ∈ metaDevices ∧ e.devices ≠ [] ∧ e.devices.all isPhysicalToken = true ∧
      e.devices.Nodup)

/-- A parsed expression is a single name, or priorities under a mode. -/
theorem parseDeviceExpression_cases {device : Str} {e : DeviceExpression}
    (h : parseDeviceExpression device = some e) : e.WellFormed := by
  unfold parseDeviceExpression at h
  dsimp only at h
  split at h
  · cases h
  · split at h
    · left
      split at h
      · next hauto =>
        obtain rfl := Option.some.inj h
        exact ⟨rfl, .inl hauto⟩
      · split at h
        · next htoken =>
          obtain rfl := Option.some.inj h
          exact ⟨rfl, .inr htoken⟩
        · cases h
    · right
      split at h
      · cases h
      · next hkind =>
        split at h
        · cases h
        · split at h
          · next hdevices =>
            obtain rfl := Option.some.inj h
            refine ⟨not_not.mp hkind, ?_, hdevices.1, hdevices.2⟩
            simp
          · cases h

theorem mem_joined {ts : List Str} {c : Char} (h : c ∈ [','].intercalate ts) :
    c = ',' ∨ ∃ t ∈ ts, c ∈ t := by
  induction ts with
  | nil => simp [List.intercalate] at h
  | cons t rest ih =>
    rcases rest with - | ⟨t', rest⟩
    · right
      exact ⟨t, List.mem_cons_self, by simpa [List.intercalate] using h⟩
    · have hsplit : c ∈ t ++ ',' :: [','].intercalate (t' :: rest) := by
        simpa [List.intercalate] using h
      rcases List.mem_append.mp hsplit with hc | hc
      · exact .inr ⟨t, List.mem_cons_self, hc⟩
      · rcases List.mem_cons.mp hc with rfl | hc
        · exact .inl rfl
        · rcases ih hc with rfl | ⟨u, hu, hcu⟩
          · exact .inl rfl
          · exact .inr ⟨u, List.mem_cons_of_mem _ hu, hcu⟩

/-- What normalized text is made of. -/
theorem DeviceExpression.WellFormed.kept {e : DeviceExpression} (h : e.WellFormed) :
    (∀ c ∈ e.normalized, Kept c) ∧ e.normalized ≠ [] := by
  unfold DeviceExpression.normalized
  rcases h with ⟨hnone, hkind⟩ | ⟨hkind, hne, hdevices, -⟩
  · rw [if_pos hnone]
    rcases hkind with hauto | htoken
    · rw [hauto]
      have hplain : PlainText "AUTO".toList := by decide
      exact ⟨hplain.kept, by decide⟩
    · obtain ⟨hplain, hnonempty⟩ := plainText_isPhysicalToken htoken
      exact ⟨hplain.kept, hnonempty⟩
  · rw [if_neg hne]
    refine ⟨?_, by simp⟩
    intro c hc
    rcases List.mem_append.mp hc with hc | hc
    · exact (plainText_metaDevices e.kind hkind).1.kept c hc
    · rcases List.mem_cons.mp hc with rfl | hc
      · decide
      · rcases mem_joined hc with rfl | ⟨t, ht, hct⟩
        · decide
        · exact (plainText_isPhysicalToken (List.all_eq_true.mp hdevices t ht)).1.kept c hct

/-- **Normal form.** The normalized text of an expression is parsed back to it. -/
theorem DeviceExpression.WellFormed.parse {e : DeviceExpression} (h : e.WellFormed) :
    parseDeviceExpression e.normalized = some e := by
  obtain ⟨hkept, hnonempty⟩ := h.kept
  unfold parseDeviceExpression
  simp only [strip_kept hkept, upper_kept hkept, if_neg hnonempty]
  obtain ⟨kind, devices⟩ := e
  unfold DeviceExpression.normalized at hkept ⊢
  rcases h with ⟨hnone, hkind⟩ | ⟨hkind, hne, hdevices, hnodup⟩
  · obtain rfl : devices = [] := hnone
    have hcolon : ':' ∉ kind := by
      rcases hkind with hauto | htoken
      · have hauto' : kind = "AUTO".toList := hauto
        rw [hauto']
        decide
      · exact (plainText_isPhysicalToken htoken).1.colon
    rw [if_pos rfl, if_pos hcolon]
    rcases hkind with hauto | htoken
    · rw [if_pos hauto]
    · have htoken' : isPhysicalToken kind = true := htoken
      simp [htoken']
  · have htokens (t : Str) (ht : t ∈ devices) : PlainText t ∧ t ≠ [] :=
      plainText_isPhysicalToken (List.all_eq_true.mp hdevices t ht)
    have hplain := plainText_metaDevices kind hkind
    have hsplit : ([','].intercalate devices).splitOn ',' = devices :=
      List.splitOn_intercalate ',' (fun t ht => (htokens t ht).1.comma) hne
    have hjoined : ∀ c ∈ [','].intercalate devices, Kept c := by
      intro c hc
      apply hkept
      rw [if_neg hne]
      exact List.mem_append.mpr (.inr (List.mem_cons_of_mem _ hc))
    have hpriorities : [','].intercalate devices ≠ [] := by
      intro hnil
      rw [hnil] at hsplit
      have hempty : [] ∈ devices := by
        rw [← hsplit]
        simp
      exact (htokens [] hempty).2 rfl
    have hstripped : devices.map (strip isSpace) = devices := by
      rw [List.map_congr_left (fun t ht => strip_kept (htokens t ht).1.kept), List.map_id']
    have hcolon (c : Char) (hc : c ∈ kind) : decide (c ≠ ':') = true := by
      simpa using (hplain.1 c hc).2.1
    have htake : (kind ++ ':' :: [','].intercalate devices).takeWhile (· ≠ ':') = kind := by
      rw [List.takeWhile_append_of_pos hcolon]
      simp
    have hdrop : ((kind ++ ':' :: [','].intercalate devices).dropWhile (· ≠ ':')).drop 1 =
        [','].intercalate devices := by
      rw [List.dropWhile_append_of_pos hcolon]
      simp
    simp only [if_neg hne, htake, hdrop, strip_kept hplain.1.kept, strip_kept hjoined, hsplit,
      hstripped]
    rw [if_neg (by simp), if_neg (not_not.mpr hkind), if_neg hpriorities,
      if_pos ⟨hdevices, hnodup⟩]

theorem normalized_kept {device : Str} {e : DeviceExpression}
    (h : parseDeviceExpression device = some e) :
    (∀ c ∈ e.normalized, Kept c) ∧ e.normalized ≠ [] :=
  (parseDeviceExpression_cases h).kept

theorem parseDeviceExpression_normalized {device : Str} {e : DeviceExpression}
    (h : parseDeviceExpression device = some e) :
    parseDeviceExpression e.normalized = some e :=
  (parseDeviceExpression_cases h).parse

end DeviceCheck

end InferBridge
