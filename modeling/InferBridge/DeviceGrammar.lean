/-
InferBridge/DeviceGrammar.lean

The grammar of device expressions.

`parse_device_expression` (DeviceNames) trims, converts to upper case, splits
at the first colon, and splits and trims again.  `Denotes` says without any
of these steps which texts are device expressions and what each of them
means: white space may stand around the mode and around each entry, and
nowhere else.  Digits are the decimal digits that `\d` matches.

Main result.  `parseDeviceExpression_denotes`: the parser accepts exactly
the texts of the grammar, with their meaning; the normalized text is a fixed
point; and two texts have one normalized text exactly if they mean the same.
-/
import InferBridge.DeviceNames

namespace InferBridge.DeviceCheck

open Text

/-! ### The grammar -/

/-- CPU, GPU or NPU, with or without a number. -/
inductive PhysicalDevice : Str → Prop where
  | base {name : Str} : name ∈ physicalDeviceBases → PhysicalDevice name
  | indexed {name digits : Str} : name ∈ physicalDeviceBases → digits ≠ [] →
      (∀ c ∈ digits, isDecimal c = true) → PhysicalDevice (name ++ '.' :: digits)

/-- A text with white space around it. -/
inductive Padded (text : Str) : Str → Prop where
  | mk {before after : Str} : (∀ c ∈ before, isSpace c = true) → (∀ c ∈ after, isSpace c = true) →
      Padded text (before ++ (text ++ after))

/-- What a text in upper case denotes. -/
inductive Denotes : Str → DeviceExpression → Prop where
  | auto : Denotes "AUTO".toList { kind := "AUTO".toList }
  | physical {name : Str} : PhysicalDevice name → Denotes name { kind := name }
  | priorities {kind mode : Str} {devices entries : List Str} : kind ∈ metaDevices →
      Padded kind mode → devices ≠ [] → (∀ d ∈ devices, PhysicalDevice d) → devices.Nodup →
      List.Forall₂ Padded devices entries →
      Denotes (mode ++ ':' :: [','].intercalate entries) { kind, devices }

/-! ### Names -/

theorem length_of_mem_physicalDeviceBases : ∀ name ∈ physicalDeviceBases, name.length = 3 := by
  decide

theorem isPhysicalToken_iff {name : Str} : isPhysicalToken name = true ↔ PhysicalDevice name := by
  constructor
  · intro h
    simp only [isPhysicalToken, Bool.and_eq_true, List.contains_iff_mem] at h
    obtain ⟨hbase, hrest⟩ := h
    rw [← List.take_append_drop 3 name]
    split at hrest
    · next hnil =>
      rw [hnil, List.append_nil]
      exact .base hbase
    · next digits hdot =>
      rw [hdot]
      simp only [Bool.and_eq_true, Bool.not_eq_true', List.isEmpty_eq_false_iff,
        List.all_eq_true] at hrest
      exact .indexed hbase hrest.1 hrest.2
    · cases hrest
  · intro h
    rcases h with hbase | ⟨hbase, hdigits, hall⟩
    · have hlength := length_of_mem_physicalDeviceBases _ hbase
      simp only [isPhysicalToken, List.take_of_length_le hlength.le,
        List.drop_eq_nil_of_le hlength.le, Bool.and_true, List.contains_iff_mem]
      exact hbase
    · have hlength := length_of_mem_physicalDeviceBases _ hbase
      simp only [isPhysicalToken, List.take_left' hlength, List.drop_left' hlength,
        Bool.and_eq_true, List.contains_iff_mem, Bool.not_eq_true', List.isEmpty_eq_false_iff,
        List.all_eq_true]
      exact ⟨hbase, hdigits, hall⟩

theorem PhysicalDevice.plain {name : Str} (h : PhysicalDevice name) : PlainText name ∧ name ≠ [] :=
  plainText_isPhysicalToken (isPhysicalToken_iff.mpr h)

/-! ### White space -/

theorem padded_strip (text : Str) : Padded (strip isSpace text) text := by
  obtain ⟨before, after, hbefore, hafter, heq⟩ := @eq_padded_strip _ isSpace text
  have hpadded : Padded (strip isSpace text) (before ++ (strip isSpace text ++ after)) :=
    .mk hbefore hafter
  rwa [← heq] at hpadded

theorem Padded.strip_eq {text padded : Str} (h : Padded text padded) :
    strip isSpace padded = strip isSpace text := by
  obtain ⟨hbefore, hafter⟩ := h
  exact strip_padded hbefore hafter

/-- White space brings no separator with it. -/
theorem Padded.not_mem {text padded : Str} (h : Padded text padded) {c : Char}
    (hc : isSpace c = false) (hmem : c ∉ text) : c ∉ padded := by
  obtain ⟨hbefore, hafter⟩ := h
  have hspace {side : Str} (hside : ∀ d ∈ side, isSpace d = true) : c ∉ side := by
    intro hin
    rw [hside c hin] at hc
    cases hc
  simp only [List.mem_append, not_or]
  exact ⟨hspace hbefore, hmem, hspace hafter⟩

theorem padded_strips (pieces : List Str) :
    List.Forall₂ Padded (pieces.map (strip isSpace)) pieces := by
  induction pieces with
  | nil => exact .nil
  | cons piece pieces ih => exact .cons (padded_strip piece) ih

theorem exists_of_mem_entries {devices entries : List Str}
    (h : List.Forall₂ Padded devices entries) {entry : Str} (hentry : entry ∈ entries) :
    ∃ d ∈ devices, Padded d entry := by
  induction h with
  | nil => cases hentry
  | cons hpadded _ ih =>
    rcases List.mem_cons.mp hentry with rfl | hentry
    · exact ⟨_, List.mem_cons_self, hpadded⟩
    · obtain ⟨d, hd, hpadded⟩ := ih hentry
      exact ⟨d, List.mem_cons_of_mem _ hd, hpadded⟩

theorem map_strip_of_padded {devices entries : List Str} (h : List.Forall₂ Padded devices entries)
    (hdevices : ∀ d ∈ devices, strip isSpace d = d) : entries.map (strip isSpace) = devices := by
  induction h with
  | nil => rfl
  | cons hpadded _ ih =>
    rw [List.map_cons, hpadded.strip_eq, hdevices _ List.mem_cons_self,
      ih fun d hd => hdevices d (List.mem_cons_of_mem _ hd)]

/-- Trimming the list of priorities changes no entry of it. -/
theorem map_strip_splitOn (list : Str) :
    ((strip isSpace list).splitOn ',').map (strip isSpace) =
      (list.splitOn ',').map (strip isSpace) := by
  apply map_strip_splitOnP
  intro c hc hcomma
  obtain rfl : c = ',' := by simpa using hcomma
  cases hc

/-! ### The parser -/

/-- What the parser does with a text in upper case; `none` is a `DeviceValidationError`. -/
def parseText (text : Str) : Option DeviceExpression :=
  if ':' ∉ text then
    if text = "AUTO".toList then some { kind := text }
    else if isPhysicalToken text then some { kind := text }
    else none
  else
    let kind := strip isSpace (text.takeWhile (· ≠ ':'))
    let priorities := strip isSpace ((text.dropWhile (· ≠ ':')).drop 1)
    if kind ∉ metaDevices then none
    else if priorities = [] then none
    else
      let devices := (priorities.splitOn ',').map (strip isSpace)
      if devices.all isPhysicalToken ∧ devices.Nodup then some { kind, devices }
      else none

theorem parseText_name {text : Str} (h : ':' ∉ text) {e : DeviceExpression} :
    parseText text = some e ↔
      (text = "AUTO".toList ∨ isPhysicalToken text = true) ∧ e = { kind := text } := by
  unfold parseText
  rw [if_pos h]
  split
  · next hauto =>
    constructor
    · intro hsome
      exact ⟨.inl hauto, (Option.some.inj hsome).symm⟩
    · rintro ⟨-, rfl⟩
      rfl
  · next hauto =>
    split
    · next htoken =>
      constructor
      · intro hsome
        exact ⟨.inr htoken, (Option.some.inj hsome).symm⟩
      · rintro ⟨-, rfl⟩
        rfl
    · next htoken =>
      constructor
      · intro hnone
        cases hnone
      · rintro ⟨hname, -⟩
        exact absurd hname (not_or.mpr ⟨hauto, htoken⟩)

/-- With a colon: the text in front of it, and the pieces between the commas behind it. -/
theorem parseText_priorities {mode list : Str} (h : ':' ∉ mode) {e : DeviceExpression} :
    parseText (mode ++ ':' :: list) = some e ↔
      e.kind = strip isSpace mode ∧ e.kind ∈ metaDevices ∧
        e.devices = (list.splitOn ',').map (strip isSpace) ∧
        (∀ d ∈ e.devices, PhysicalDevice d) ∧ e.devices.Nodup := by
  have hmode (c : Char) (hc : c ∈ mode) : decide (c ≠ ':') = true := by
    rw [decide_eq_true_eq]
    rintro rfl
    exact h hc
  have htake : (mode ++ ':' :: list).takeWhile (· ≠ ':') = mode := by
    rw [List.takeWhile_append_of_pos hmode]
    simp
  have hdrop : ((mode ++ ':' :: list).dropWhile (· ≠ ':')).drop 1 = list := by
    rw [List.dropWhile_append_of_pos hmode]
    simp
  unfold parseText
  rw [if_neg (by simp)]
  simp only [htake, hdrop, map_strip_splitOn]
  obtain ⟨kind, devices⟩ := e
  show _ ↔ kind = strip isSpace mode ∧ kind ∈ metaDevices ∧ devices = _ ∧ _ ∧ _
  split
  · next hkind =>
    constructor
    · intro hnone
      cases hnone
    · rintro ⟨rfl, hmem, -⟩
      exact absurd hmem hkind
  · next hkind =>
    split
    · next hempty =>
      -- the one piece of an empty list is no device
      constructor
      · intro hnone
        cases hnone
      · rintro ⟨-, -, hdevices, hphysical, -⟩
        have hnil : (list.splitOn ',').map (strip isSpace) = [[]] := by
          rw [← map_strip_splitOn, hempty]
          rfl
        rw [hnil] at hdevices
        rw [hdevices] at hphysical
        exact absurd rfl (hphysical [] List.mem_cons_self).plain.2
    · split
      · next hdevices =>
        have hphysical : ∀ d ∈ (list.splitOn ',').map (strip isSpace), PhysicalDevice d :=
          fun d hd => isPhysicalToken_iff.mp (List.all_eq_true.mp hdevices.1 d hd)
        constructor
        · intro hsome
          cases hsome
          exact ⟨rfl, not_not.mp hkind, rfl, hphysical, hdevices.2⟩
        · rintro ⟨rfl, -, rfl, -, -⟩
          rfl
      · next hdevices =>
        constructor
        · intro hnone
          cases hnone
        · rintro ⟨-, -, rfl, hphysical, hnodup⟩
          refine absurd ⟨?_, hnodup⟩ hdevices
          exact List.all_eq_true.mpr fun d hd => isPhysicalToken_iff.mpr (hphysical d hd)

/-- Soundness and completeness of the parser behind the trimming and the upper case. -/
theorem parseText_iff {text : Str} {e : DeviceExpression} :
    parseText text = some e ↔ Denotes text e := by
  constructor
  · intro h
    by_cases hcolon : ':' ∈ text
    · obtain ⟨mode, list, rfl, hmode⟩ := List.eq_append_cons_of_mem hcolon
      obtain ⟨hkind, hmeta, hdevices, hphysical, hnodup⟩ := (parseText_priorities hmode).mp h
      obtain ⟨kind, devices⟩ := e
      obtain rfl : kind = strip isSpace mode := hkind
      obtain rfl : devices = (list.splitOn ',').map (strip isSpace) := hdevices
      have hlist : [','].intercalate (list.splitOn ',') = list := List.intercalate_splitOn ','
      have hdenotes : Denotes (mode ++ ':' :: [','].intercalate (list.splitOn ','))
          { kind := strip isSpace mode, devices := (list.splitOn ',').map (strip isSpace) } := by
        apply Denotes.priorities hmeta (padded_strip mode) _ hphysical hnodup (padded_strips _)
        simp
      rwa [hlist] at hdenotes
    · obtain ⟨hname, rfl⟩ := (parseText_name hcolon).mp h
      rcases hname with rfl | htoken
      · exact .auto
      · exact .physical (isPhysicalToken_iff.mp htoken)
  · intro h
    rcases h with - | hname | ⟨hmeta, hmode, hne, hphysical, hnodup, hentries⟩
    · rfl
    · exact (parseText_name hname.plain.1.colon).mpr ⟨.inr (isPhysicalToken_iff.mpr hname), rfl⟩
    · next kind mode devices entries =>
      have hkind := plainText_metaDevices kind hmeta
      have hcolon : ':' ∉ mode := hmode.not_mem rfl hkind.1.colon
      have hcomma : ∀ entry ∈ entries, ',' ∉ entry := by
        intro entry hentry
        obtain ⟨d, hd, hpadded⟩ := exists_of_mem_entries hentries hentry
        exact hpadded.not_mem rfl (hphysical d hd).plain.1.comma
      have hentriesNe : entries ≠ [] := by
        rintro rfl
        cases hentries
        exact hne rfl
      refine (parseText_priorities hcolon).mpr ⟨?_, hmeta, ?_, hphysical, hnodup⟩
      · show kind = strip isSpace mode
        rw [hmode.strip_eq, strip_kept hkind.1.kept]
      · show devices = _
        rw [List.splitOn_intercalate ',' hcomma hentriesNe]
        exact (map_strip_of_padded hentries fun d hd =>
          strip_kept (hphysical d hd).plain.1.kept).symm

theorem parseDeviceExpression_eq (device : Str) :
    parseDeviceExpression device =
      if strip isSpace device = [] then none else parseText (upper (strip isSpace device)) := rfl

/-- **The device grammar.** A text is accepted exactly if it denotes something once it is
trimmed and in upper case, and then what it denotes is the result; the normalized text is
accepted with the same result; and two texts have one normalized text exactly if they have the
same kind and the same devices in the same order. -/
theorem parseDeviceExpression_denotes :
    (∀ device e, parseDeviceExpression device = some e ↔
      Denotes (upper (strip isSpace device)) e) ∧
    (∀ device e, parseDeviceExpression device = some e →
      parseDeviceExpression e.normalized = some e) ∧
    (∀ device device' e e', parseDeviceExpression device = some e →
      parseDeviceExpression device' = some e' →
      (e.normalized = e'.normalized ↔ e.kind = e'.kind ∧ e.devices = e'.devices)) := by
  refine ⟨?_, ?_, ?_⟩
  · intro device e
    rw [parseDeviceExpression_eq]
    split
    · next hblank =>
      rw [hblank, ← parseText_iff]
      simp [parseText, upper, isPhysicalToken, physicalDeviceBases]
    · exact parseText_iff
  · exact fun device e h => parseDeviceExpression_normalized h
  · intro device device' e e' h h'
    constructor
    · intro heq
      have hsame : some e = some e' := by
        rw [← parseDeviceExpression_normalized h, ← parseDeviceExpression_normalized h', heq]
      obtain rfl := Option.some.inj hsame
      exact ⟨rfl, rfl⟩
    · rintro ⟨hkind, hdevices⟩
      rw [DeviceExpression.normalized, DeviceExpression.normalized, hkind, hdevices]

/-! ### Characters and lengths -/

/-- The letters and separators of device expressions. -/
def deviceChars : List Char :=
  ['A', 'C', 'E', 'G', 'H', 'I', 'L', 'M', 'N', 'O', 'P', 'R', 'T', 'U', '.', ':', ',']

/-- What device expressions are made of, besides white space. -/
def DeviceChar (c : Char) : Prop := c ∈ deviceChars ∨ isDecimal c = true

theorem deviceChar_base {name : Str} (h : name ∈ physicalDeviceBases) {c : Char} (hc : c ∈ name) :
    c ∈ deviceChars := by
  simp only [physicalDeviceBases, List.mem_cons, List.not_mem_nil, or_false] at h
  rcases h with rfl | rfl | rfl <;> revert hc c <;> simp [deviceChars]

theorem deviceChar_meta {kind : Str} (h : kind ∈ metaDevices) {c : Char} (hc : c ∈ kind) :
    c ∈ deviceChars := by
  simp only [metaDevices, List.mem_cons, List.not_mem_nil, or_false] at h
  rcases h with rfl | rfl | rfl <;> revert hc c <;> simp [deviceChars]

theorem PhysicalDevice.chars {name : Str} (h : PhysicalDevice name) : ∀ c ∈ name, DeviceChar c := by
  intro c hc
  rcases h with hbase | ⟨hbase, -, hdigits⟩
  · exact .inl (deviceChar_base hbase hc)
  · rcases List.mem_append.mp hc with hc | hc
    · exact .inl (deviceChar_base hbase hc)
    · rcases List.mem_cons.mp hc with rfl | hc
      · exact .inl (by simp [deviceChars])
      · exact .inr (hdigits c hc)

theorem Padded.chars {text padded : Str} (h : Padded text padded)
    (htext : ∀ c ∈ text, DeviceChar c) : ∀ c ∈ padded, isSpace c = true ∨ DeviceChar c := by
  obtain ⟨hbefore, hafter⟩ := h
  intro c hc
  rcases List.mem_append.mp hc with hc | hc
  · exact .inl (hbefore c hc)
  · rcases List.mem_append.mp hc with hc | hc
    · exact .inr (htext c hc)
    · exact .inl (hafter c hc)

theorem Denotes.chars {text : Str} {e : DeviceExpression} (h : Denotes text e) :
    ∀ c ∈ text, isSpace c = true ∨ DeviceChar c := by
  intro c hc
  rcases h with - | hname | ⟨hmeta, hmode, -, hphysical, -, hentries⟩
  · exact .inr (.inl (deviceChar_meta (by decide) hc))
  · exact .inr (hname.chars c hc)
  · rcases List.mem_append.mp hc with hc | hc
    · exact hmode.chars (fun c hc => .inl (deviceChar_meta hmeta hc)) c hc
    · rcases List.mem_cons.mp hc with rfl | hc
      · exact .inr (.inl (by simp [deviceChars]))
      · rcases mem_joined hc with rfl | ⟨entry, hentry, hc⟩
        · exact .inr (.inl (by simp [deviceChars]))
        · obtain ⟨d, hd, hpadded⟩ := exists_of_mem_entries hentries hentry
          exact hpadded.chars (hphysical d hd).chars c hc

/-- The normalized text denotes the expression itself. -/
theorem denotes_normalized {device : Str} {e : DeviceExpression}
    (h : parseDeviceExpression device = some e) : Denotes e.normalized e := by
  obtain ⟨hkept, hne⟩ := normalized_kept h
  have hparse := parseDeviceExpression_normalized h
  rw [parseDeviceExpression_eq, strip_kept hkept, if_neg hne, upper_kept hkept] at hparse
  exact parseText_iff.mp hparse

theorem normalized_chars {device : Str} {e : DeviceExpression}
    (h : parseDeviceExpression device = some e) : ∀ c ∈ e.normalized, DeviceChar c := by
  intro c hc
  rcases (denotes_normalized h).chars c hc with hspace | hchar
  · rw [((normalized_kept h).1 c hc).1] at hspace
    cases hspace
  · exact hchar

theorem Padded.length_le {text padded : Str} (h : Padded text padded) :
    text.length ≤ padded.length := by
  obtain ⟨-, -⟩ := h
  simp only [List.length_append]
  omega

theorem length_joined_le {devices entries : List Str} (h : List.Forall₂ Padded devices entries) :
    ([','].intercalate devices).length ≤ ([','].intercalate entries).length := by
  induction h with
  | nil => exact le_rfl
  | cons hpadded hrest ih =>
    have hlength := hpadded.length_le
    rcases hrest with - | ⟨hnext, hrest⟩
    · simpa [List.intercalate] using hlength
    · simp only [List.intercalate_cons_cons, List.length_append] at ih ⊢
      omega

theorem Denotes.length_le {text : Str} {e : DeviceExpression} (h : Denotes text e) :
    e.normalized.length ≤ text.length := by
  rcases h with - | - | ⟨-, hmode, hne, -, -, hentries⟩
  · exact le_rfl
  · exact le_rfl
  · have hkind := hmode.length_le
    have hjoined := length_joined_le hentries
    rw [DeviceExpression.normalized, if_neg hne]
    simp only [List.length_append, List.length_cons]
    omega

/-- Only letters that no device has take more room in upper case. -/
theorem length_upperChar_le (c : Char) :
    (upperChar c).length ≤ 1 ∨ 'S' ∈ upperChar c ∨ 'F' ∈ upperChar c := by
  unfold upperChar
  split_ifs <;> simp

theorem length_upper_le {s : Str} (h : ∀ c ∈ upper s, isSpace c = true ∨ DeviceChar c) :
    (upper s).length ≤ s.length := by
  have hother {c : Char} (hc : c = 'S' ∨ c = 'F') : ¬ (isSpace c = true ∨ DeviceChar c) := by
    unfold DeviceChar
    rcases hc with rfl | rfl
    · rw [show isSpace 'S' = false from rfl, show isDecimal 'S' = false from rfl]
      simp [deviceChars]
    · rw [show isSpace 'F' = false from rfl, show isDecimal 'F' = false from rfl]
      simp [deviceChars]
  induction s with
  | nil => exact le_rfl
  | cons c s ih =>
    have hupper : upper (c :: s) = upperChar c ++ upper s := rfl
    rw [hupper] at h ⊢
    have hrest := ih fun d hd => h d (List.mem_append_right _ hd)
    rw [List.length_append, List.length_cons]
    rcases length_upperChar_le c with hone | hS | hF
    · omega
    · exact absurd (h 'S' (List.mem_append_left _ hS)) (hother (.inl rfl))
    · exact absurd (h 'F' (List.mem_append_left _ hF)) (hother (.inr rfl))

theorem length_pos_of_parse {device : Str} {e : DeviceExpression}
    (h : parseDeviceExpression device = some e) : 1 ≤ device.length := by
  cases device with
  | nil => cases h
  | cons c rest => exact Nat.le_add_left 1 _

/-- A device expression is not longer in its normal form. -/
theorem length_normalized_le {device : Str} {e : DeviceExpression}
    (h : parseDeviceExpression device = some e) : e.normalized.length ≤ device.length := by
  rw [parseDeviceExpression_eq] at h
  split_ifs at h
  have hdenotes := parseText_iff.mp h
  calc e.normalized.length ≤ (upper (strip isSpace device)).length := hdenotes.length_le
    _ ≤ (strip isSpace device).length := length_upper_le hdenotes.chars
    _ ≤ device.length := (strip_isInfix isSpace device).length_le

end InferBridge.DeviceCheck
