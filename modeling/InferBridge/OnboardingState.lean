/-
InferBridge/OnboardingState.lean

The state of the setup wizard (app/onboarding_state.py): how a dictionary is
migrated, and the file that it is saved in and loaded from.

The file holds the decoded JSON document.  A value is what the normalisers
tell apart: nothing, a flag, an integer, a text, or something else of which
only its `str` is used.  The table of printable characters is a parameter.

Each text is cleaned, stripped and then cut, so that a cut behind a space
leaves a text that the next migration strips again.  Main result.
`save_load_iff`: what was saved is loaded, and saved again unchanged, exactly
if no text is cut there.
-/
import InferBridge.DeviceGrammar
import InferBridge.LoadDevices

namespace InferBridge.Onboarding

open Text

/-! ### Values -/

/-- A value of the dictionary; `other` is any further one, by its `str`. -/
inductive StateValue where
  | none
  | bool (b : Bool)
  | int (n : Int)
  | str (s : Str)
  | other (text : Str)
deriving DecidableEq

/-- `str(value)` -/
def StateValue.text : StateValue → Str
  | .none => "None".toList
  | .bool true => "True".toList
  | .bool false => "False".toList
  | .int n => (toString n).toList
  | .str s => s
  | .other text => text

abbrev RawState := List (Str × StateValue)

/-- `str.isprintable` of one character, fixed where names of devices need it. -/
structure PrintableTable where
  isPrintable : Char → Bool
  ascii : ∀ c, 32 ≤ c.toNat → c.toNat < 127 → isPrintable c = true
  decimal : ∀ c, DeviceCheck.isDecimal c = true → isPrintable c = true

/-! ### The state -/

/-- The keys with a text of at most 1024 characters, but for the selected device. -/
inductive TextKey where
  | selectedModel
  | actualDevice
  | modelStorageLocation
  | lastHardwareFingerprint
  | lastBenchmarkReference
  | completedAppVersion
deriving DecidableEq, Repr

def TextKey.name : TextKey → Str
  | .selectedModel => "selected_model".toList
  | .actualDevice => "actual_device".toList
  | .modelStorageLocation => "model_storage_location".toList
  | .lastHardwareFingerprint => "last_hardware_fingerprint".toList
  | .lastBenchmarkReference => "last_benchmark_reference".toList
  | .completedAppVersion => "completed_app_version".toList

/-- A migrated state; its schema version is `SCHEMA_VERSION`. -/
@[ext]
structure State where
  completed : Bool := false
  restartRequested : Bool := false
  texts : TextKey → Option Str := fun _ => none
  selectedDevice : Option Str := none
  lanAccessEnabled : Bool := false
  networkCorsOrigins : Str := []

/-- `default_state` -/
def State.default : State := {}

def optionalText : Option Str → StateValue
  | none => .none
  | some text => .str text

/-- The dictionary of a state. -/
def State.document (s : State) : RawState :=
  [("schema_version".toList, .int 1), ("completed".toList, .bool s.completed),
    ("restart_requested".toList, .bool s.restartRequested),
    ("selected_model".toList, optionalText (s.texts .selectedModel)),
    ("selected_device".toList, optionalText s.selectedDevice),
    ("actual_device".toList, optionalText (s.texts .actualDevice)),
    ("model_storage_location".toList, optionalText (s.texts .modelStorageLocation)),
    ("last_hardware_fingerprint".toList, optionalText (s.texts .lastHardwareFingerprint)),
    ("last_benchmark_reference".toList, optionalText (s.texts .lastBenchmarkReference)),
    ("completed_app_version".toList, optionalText (s.texts .completedAppVersion)),
    ("lan_access_enabled".toList, .bool s.lanAccessEnabled),
    ("network_cors_origins".toList, .str s.networkCorsOrigins)]

/-! ### Migration -/

/-- A `ValueError`, or its subclass for a newer schema. -/
inductive StateError where
  | invalid
  | unsupportedVersion
deriving DecidableEq, Repr

/-- `_normalized_bool` with the default `False` -/
def normalizedBool : StateValue → Bool
  | .bool b => b
  | .int n => n = 1
  | _ => false

/-- The characters of a value that can be shown, stripped. -/
def shown (table : PrintableTable) (value : StateValue) : Str :=
  strip isSpace (value.text.filter table.isPrintable)

/-- `_normalized_text` -/
def normalizedText (table : PrintableTable) (value : StateValue) (limit : Nat) : Option Str :=
  if value = .none ∨ value = .str [] then none
  else if (shown table value).take limit = [] then none
  else some ((shown table value).take limit)

/-- `_schema_version` -/
def schemaVersion : StateValue → Option Int
  | .none => some 0
  | .int n => some n
  | .str s =>
    if s = [] then some 0
    else
      match strip isSpace s with
      | '-' :: digits => (DeviceCheck.digitsValue digits).map fun n => -(n : Int)
      | digits => (DeviceCheck.digitsValue digits).map fun n => (n : Int)
  | .bool _ | .other _ => none

/-- `normalize_device`; `none` is a `ValueError`. -/
def normalizeDevice (device : Str) : Option Str :=
  (LoadDevices.parseWithDefault (some device)).map DeviceCheck.DeviceExpression.normalized

/-- The value of a key of the state, with its default. -/
def stateValue (raw : RawState) (key : Str) (default : StateValue) : StateValue :=
  (raw.lookup key).getD default

/-- `migrate_state` of a dictionary -/
def migrateState (table : PrintableTable) (raw : RawState) : Except StateError State :=
  match schemaVersion (stateValue raw "schema_version".toList (.int 0)) with
  | none => .error .invalid
  | some version =>
    if version < 0 then .error .invalid
    else if 1 < version then .error .unsupportedVersion
    else
      let state : State :=
        { completed := normalizedBool (stateValue raw "completed".toList (.bool false))
          restartRequested :=
            normalizedBool (stateValue raw "restart_requested".toList (.bool false))
          texts := fun key => normalizedText table (stateValue raw key.name .none) 1024
          lanAccessEnabled :=
            normalizedBool (stateValue raw "lan_access_enabled".toList (.bool false))
          networkCorsOrigins :=
            (normalizedText table (stateValue raw "network_cors_origins".toList (.str []))
              2048).getD [] }
      match normalizedText table (stateValue raw "selected_device".toList .none) 1024 with
      | none => .ok state
      | some selected =>
        match normalizeDevice selected with
        | some device => .ok { state with selectedDevice := some device }
        | none => .ok { state with completed := false, restartRequested := true }

/-! ### The file -/

/-- `damaged` is not JSON, or not an object. -/
inductive StateFile where
  | missing
  | damaged
  | document (raw : RawState)

structure StateLoadResult where
  state : State
  recovered : Bool := false

/-- `load`: the result and the file afterwards; a malformed file is moved aside. -/
def load (table : PrintableTable) : StateFile → Except StateError StateLoadResult × StateFile
  | .missing => (.ok { state := .default }, .missing)
  | .damaged => (.ok { state := .default, recovered := true }, .missing)
  | .document raw =>
    match migrateState table raw with
    | .ok state => (.ok { state }, .document raw)
    | .error .unsupportedVersion => (.error .unsupportedVersion, .document raw)
    | .error .invalid => (.ok { state := .default, recovered := true }, .missing)

/-- `save`: the result and the file afterwards. -/
def save (table : PrintableTable) (file : StateFile) (raw : RawState) :
    Except StateError State × StateFile :=
  match migrateState table raw with
  | .error e => (.error e, file)
  | .ok state => (.ok state, .document state.document)

/-! ### Texts that are normalised again -/

variable {table : PrintableTable}

/-- The text is longer than its limit, and the last character that is kept is white space. -/
def CutAtBlank (table : PrintableTable) (limit : Nat) (value : StateValue) : Prop :=
  limit < (shown table value).length ∧
    ∃ c, (shown table value)[limit - 1]? = some c ∧ isSpace c = true

theorem strip_shown (value : StateValue) : strip isSpace (shown table value) = shown table value :=
  strip_strip _

theorem printable_shown {value : StateValue} {c : Char} (h : c ∈ shown table value) :
    table.isPrintable c = true := by
  have hfilter := (strip_isInfix isSpace (value.text.filter table.isPrintable)).subset h
  exact (List.mem_filter.mp hfilter).2

/-- Of a text that can be shown only the ends are looked at. -/
theorem shown_str {text : Str} (h : ∀ c ∈ text, table.isPrintable c = true) :
    shown table (.str text) = strip isSpace text := by
  show strip isSpace (text.filter table.isPrintable) = strip isSpace text
  rw [List.filter_eq_self.mpr h]

theorem normalizedText_str {text : Str} (hne : text ≠ []) {limit : Nat}
    (hprintable : ∀ c ∈ text, table.isPrintable c = true) (hlength : text.length ≤ limit) :
    normalizedText table (.str text) limit = some text ↔ strip isSpace text = text := by
  have htake : (strip isSpace text).take limit = strip isSpace text :=
    List.take_of_length_le ((strip_isInfix isSpace text).length_le.trans hlength)
  unfold normalizedText
  rw [if_neg (by simpa using hne), shown_str hprintable, htake]
  split_ifs with hempty
  · constructor
    · intro h
      cases h
    · intro h
      rw [hempty] at h
      exact absurd h.symm hne
  · rw [Option.some_inj]

theorem normalizedText_none (limit : Nat) : normalizedText table .none limit = none :=
  if_pos (.inl rfl)

theorem normalizedText_nil (limit : Nat) : normalizedText table (.str []) limit = none :=
  if_pos (.inr rfl)

theorem normalizedText_eq_some {value : StateValue} {limit : Nat} {text : Str}
    (h : normalizedText table value limit = some text) :
    text = (shown table value).take limit ∧ text ≠ [] := by
  unfold normalizedText at h
  split_ifs at h with hvalue hempty
  exact ⟨(Option.some.inj h).symm, (Option.some.inj h) ▸ hempty⟩

/-- Nothing that is dropped was cut. -/
theorem not_cutAtBlank_of_none {value : StateValue} {limit : Nat} (hlimit : 4 ≤ limit)
    (h : normalizedText table value limit = none) : ¬ CutAtBlank table limit value := by
  rintro ⟨hlong, -⟩
  unfold normalizedText at h
  split_ifs at h with hvalue hempty
  · rcases hvalue with rfl | rfl
    · have hlength : (shown table .none).length ≤ 4 :=
        ((strip_isInfix isSpace _).length_le.trans (List.length_filter_le _ _))
      omega
    · have hlength : (shown table (.str [])).length ≤ 0 :=
        ((strip_isInfix isSpace _).length_le.trans (List.length_filter_le _ _))
      omega
  · have hlength : ((shown table value).take limit).length = 0 := by rw [hempty]; rfl
    rw [List.length_take] at hlength
    omega

/-- **Normalising again.** A normalised text is a fixed point exactly if it was not cut behind
white space. -/
theorem normalizedText_again {value : StateValue} {limit : Nat} (hlimit : 4 ≤ limit) :
    normalizedText table (optionalText (normalizedText table value limit)) limit =
      normalizedText table value limit ↔ ¬ CutAtBlank table limit value := by
  rcases hvalue : normalizedText table value limit with - | text
  · exact ⟨fun _ => not_cutAtBlank_of_none hlimit hvalue, fun _ => normalizedText_none limit⟩
  · obtain ⟨rfl, hne⟩ := normalizedText_eq_some hvalue
    have hprintable : ∀ c ∈ (shown table value).take limit, table.isPrintable c = true :=
      fun c hc => printable_shown (List.mem_of_mem_take hc)
    show normalizedText table (.str _) limit = _ ↔ _
    rw [normalizedText_str hne hprintable (List.length_take_le _ _),
      strip_take_iff (strip_shown value) (by omega)]
    exact Iff.rfl

/-- The same for a text that is empty where nothing is left. -/
theorem normalizedText_again_getD {value : StateValue} {limit : Nat} (hlimit : 4 ≤ limit) :
    (normalizedText table (.str ((normalizedText table value limit).getD [])) limit).getD [] =
      (normalizedText table value limit).getD [] ↔ ¬ CutAtBlank table limit value := by
  rw [← normalizedText_again hlimit]
  rcases hvalue : normalizedText table value limit with - | text
  · simp only [Option.getD_none, normalizedText_nil, optionalText, normalizedText_none]
  · obtain ⟨-, hne⟩ := normalizedText_eq_some hvalue
    show (normalizedText table (.str text) limit).getD [] = text ↔
      normalizedText table (.str text) limit = some text
    rcases normalizedText table (.str text) limit with - | again
    · simp [eq_comm, hne]
    · simp

/-! ### The selected device -/

theorem isPrintable_deviceChar {c : Char} (h : DeviceCheck.DeviceChar c) :
    table.isPrintable c = true := by
  rcases h with hletter | hdecimal
  · apply table.ascii
    all_goals
      simp only [DeviceCheck.deviceChars, List.mem_cons, List.not_mem_nil, or_false] at hletter
      rcases hletter with rfl | rfl | rfl | rfl | rfl | rfl | rfl | rfl | rfl | rfl | rfl | rfl |
        rfl | rfl | rfl | rfl | rfl <;> decide
  · exact table.decimal c hdecimal

/-- A device that was normalised is one in normal form, and no longer than before. -/
theorem normalizeDevice_eq_some {selected device : Str} (hsolid : strip isSpace selected ≠ [])
    (h : normalizeDevice selected = some device) :
    ∃ e, DeviceCheck.parseDeviceExpression selected = some e ∧ device = e.normalized := by
  obtain ⟨e, hparse, rfl⟩ := Option.map_eq_some_iff.mp h
  refine ⟨e, ?_, rfl⟩
  have hparse' : DeviceCheck.parseDeviceExpression
      (if strip isSpace selected = [] then LoadDevices.defaultDevice else strip isSpace selected) =
      some e := hparse
  rw [if_neg hsolid] at hparse'
  rw [DeviceCheck.parseDeviceExpression_eq, strip_strip] at hparse'
  exact hparse'

theorem normalizeDevice_again {selected : Str} {e : DeviceCheck.DeviceExpression}
    (h : DeviceCheck.parseDeviceExpression selected = some e) :
    normalizeDevice e.normalized = some e.normalized := by
  obtain ⟨hkept, hne⟩ := DeviceCheck.normalized_kept h
  have hstrip := DeviceCheck.strip_kept hkept
  have hparse : LoadDevices.parseWithDefault (some e.normalized) = some e := by
    show DeviceCheck.parseDeviceExpression
      (if strip isSpace e.normalized = [] then _ else strip isSpace e.normalized) = some e
    rw [hstrip, if_neg hne]
    exact DeviceCheck.parseDeviceExpression_normalized h
  rw [normalizeDevice, hparse]
  rfl

theorem strip_selected {value : StateValue} {limit : Nat} {selected : Str}
    (h : normalizedText table value limit = some selected) : strip isSpace selected ≠ [] := by
  obtain ⟨rfl, hne⟩ := normalizedText_eq_some h
  have hstrip := @strip_shown table value
  rcases hshown : shown table value with - | ⟨c, rest⟩
  · rw [hshown] at hne
    exact absurd List.take_nil hne
  · rw [hshown] at hne hstrip
    have hhead : isSpace c = false := by
      have hhead := strip_head (c :: rest) (by rw [hstrip]; exact List.cons_ne_nil c rest)
      simp only [hstrip] at hhead
      exact hhead
    rcases limit with - | limit
    · exact absurd List.take_zero hne
    · intro hblank
      have hspace := strip_eq_nil_iff.mp hblank c (by rw [List.take_succ_cons]; exact List.mem_cons_self)
      rw [hhead] at hspace
      cases hspace

/-- The normal form passes all the steps of the migration again. -/
theorem selectedDevice_again {value : StateValue} {selected device : Str}
    (hselected : normalizedText table value 1024 = some selected)
    (hdevice : normalizeDevice selected = some device) :
    normalizedText table (.str device) 1024 = some device ∧ normalizeDevice device = some device := by
  obtain ⟨e, hparse, rfl⟩ := normalizeDevice_eq_some (strip_selected hselected) hdevice
  obtain ⟨rfl, -⟩ := normalizedText_eq_some hselected
  obtain ⟨hkept, hne⟩ := DeviceCheck.normalized_kept hparse
  refine ⟨?_, normalizeDevice_again hparse⟩
  rw [normalizedText_str hne]
  · exact DeviceCheck.strip_kept hkept
  · exact fun c hc => isPrintable_deviceChar (DeviceCheck.normalized_chars hparse c hc)
  · exact (DeviceCheck.length_normalized_le hparse).trans (List.length_take_le _ _)

/-! ### Saving and loading -/

variable {raw : RawState} {s : State}

/-- The state that a migration of these values gives, but for the selected device. -/
theorem migrateState_eq_ok (h : migrateState table raw = .ok s) :
    (s.texts = fun key => normalizedText table (stateValue raw key.name .none) 1024) ∧
      s.networkCorsOrigins =
        (normalizedText table (stateValue raw "network_cors_origins".toList (.str [])) 2048).getD
          [] ∧
      ∀ device, s.selectedDevice = some device → ∃ selected,
        normalizedText table (stateValue raw "selected_device".toList .none) 1024 =
          some selected ∧ normalizeDevice selected = some device := by
  unfold migrateState at h
  rcases hversion : schemaVersion (stateValue raw "schema_version".toList (.int 0)) with - | version
  · rw [hversion] at h
    cases h
  · rw [hversion] at h
    dsimp only at h
    split_ifs at h
    rcases hselected : normalizedText table (stateValue raw "selected_device".toList .none) 1024
      with - | selected
    · rw [hselected] at h
      obtain rfl := Except.ok.inj h
      refine ⟨rfl, rfl, ?_⟩
      intro device hdevice
      cases hdevice
    · rw [hselected] at h
      dsimp only at h
      rcases hnormal : normalizeDevice selected with - | device
      · rw [hnormal] at h
        obtain rfl := Except.ok.inj h
        refine ⟨rfl, rfl, ?_⟩
        intro device hdevice
        cases hdevice
      · rw [hnormal] at h
        obtain rfl := Except.ok.inj h
        refine ⟨rfl, rfl, ?_⟩
        intro device' hdevice
        obtain rfl : device = device' := Option.some.inj hdevice
        exact ⟨selected, rfl, hnormal⟩

theorem stateValue_document (s : State) (key : TextKey) :
    stateValue s.document key.name .none = optionalText (s.texts key) := by
  cases key <;> rfl

/-- What the migration of a saved state makes of it. -/
def State.again (table : PrintableTable) (s : State) : State :=
  { s with
    texts := fun key => normalizedText table (optionalText (s.texts key)) 1024
    networkCorsOrigins := (normalizedText table (.str s.networkCorsOrigins) 2048).getD [] }

theorem migrateState_document
    (hdevice : ∀ device, s.selectedDevice = some device →
      normalizedText table (.str device) 1024 = some device ∧
        normalizeDevice device = some device) :
    migrateState table s.document = .ok (s.again table) := by
  have htexts : (fun key : TextKey => normalizedText table (stateValue s.document key.name .none)
      1024) = fun key => normalizedText table (optionalText (s.texts key)) 1024 := by
    funext key
    rw [stateValue_document]
  have hselected : stateValue s.document "selected_device".toList .none =
      optionalText s.selectedDevice := rfl
  unfold migrateState
  rw [htexts, hselected]
  rcases hsome : s.selectedDevice with - | device
  · show Except.ok _ = _
    rw [State.again, hsome]
    rfl
  · obtain ⟨htext, hnormal⟩ := hdevice device hsome
    show (match normalizedText table (.str device) 1024 with
      | none => _
      | some selected => _) = _
    rw [htext]
    show (match normalizeDevice device with
      | some device => _
      | none => _) = _
    rw [hnormal, State.again, hsome]
    rfl

/-- No text of the dictionary is cut behind white space. -/
structure NoCut (table : PrintableTable) (raw : RawState) : Prop where
  texts : ∀ key : TextKey, ¬ CutAtBlank table 1024 (stateValue raw key.name .none)
  origins :
    ¬ CutAtBlank table 2048 (stateValue raw "network_cors_origins".toList (.str []))

theorem migrateState_again (h : migrateState table raw = .ok s) :
    migrateState table s.document = .ok s ↔ NoCut table raw := by
  obtain ⟨htexts, horigins, hselected⟩ := migrateState_eq_ok h
  have hdevice : ∀ device, s.selectedDevice = some device →
      normalizedText table (.str device) 1024 = some device ∧
        normalizeDevice device = some device := by
    intro device hsome
    obtain ⟨selected, htext, hnormal⟩ := hselected device hsome
    exact selectedDevice_again htext hnormal
  rw [migrateState_document hdevice, Except.ok.injEq]
  constructor
  · intro heq
    constructor
    · intro key
      have hkey := congrFun (congrArg State.texts heq) key
      simp only [State.again, htexts] at hkey
      exact (normalizedText_again (by decide)).mp hkey
    · have hcors := congrArg State.networkCorsOrigins heq
      simp only [State.again, horigins] at hcors
      exact (normalizedText_again_getD (by decide)).mp hcors
  · intro hcut
    ext key
    · rfl
    · rfl
    · simp only [State.again, htexts, (normalizedText_again (by decide)).mpr (hcut.texts key)]
    · rfl
    · rfl
    · simp only [State.again, horigins,
        (normalizedText_again_getD (by decide)).mpr hcut.origins]

/-- **Saving and loading.** After a dictionary was saved, loading gives the state that was
returned and saving that state changes nothing exactly if no text was cut behind white space. -/
theorem save_load_iff (table : PrintableTable) (file file' : StateFile) (raw : RawState)
    (s : State) (h : save table file raw = (.ok s, file')) :
    ((load table file').1 = .ok { state := s } ∧ save table file' s.document = (.ok s, file')) ↔
      NoCut table raw := by
  unfold save at h
  rcases hmigrate : migrateState table raw with e | state
  · rw [hmigrate] at h
    cases h
  · rw [hmigrate] at h
    obtain ⟨rfl, rfl⟩ : state = s ∧ StateFile.document state.document = file' := by
      simpa using h
    rw [← migrateState_again hmigrate]
    have hload : (load table (.document state.document)).1 = .ok { state } ↔
        migrateState table state.document = .ok state := by
      rw [load]
      rcases migrateState table state.document with (- | -) | again <;> simp
    have hsave : migrateState table state.document = .ok state →
        save table (.document state.document) state.document =
          (.ok state, .document state.document) := by
      intro hagain
      rw [save, hagain]
    constructor
    · exact fun hboth => hload.mp hboth.1
    · exact fun hagain => ⟨hload.mpr hagain, hsave hagain⟩

/-! ### A text that is cut -/

/-- The printable characters of ASCII, and the decimal digits. -/
def asciiTable : PrintableTable where
  isPrintable c := (32 ≤ c.toNat ∧ c.toNat < 127) ∨ DeviceCheck.isDecimal c
  ascii := fun c hlow hhigh => by simp [hlow, hhigh]
  decimal := fun c hc => by simp [hc]

/-- A model, and a device in lower case. -/
def cpuChoice : RawState :=
  [("selected_model".toList, .str "a".toList), ("selected_device".toList, .str " cpu".toList)]

def cpuState : State where
  texts key := if key = .selectedModel then some "a".toList else none
  selectedDevice := some "CPU".toList

theorem save_cpuChoice : save asciiTable .missing cpuChoice =
    (.ok cpuState, .document cpuState.document) := by
  have htexts : (fun key : TextKey => normalizedText asciiTable
      (stateValue cpuChoice key.name .none) 1024) = cpuState.texts := by
    funext key
    cases key <;> rfl
  unfold save migrateState
  rw [htexts]
  rfl

theorem save_load_cpuChoice :
    ((load asciiTable (.document cpuState.document)).1 = .ok { state := cpuState } ∧
      save asciiTable (.document cpuState.document) cpuState.document =
        (.ok cpuState, .document cpuState.document)) ↔ NoCut asciiTable cpuChoice :=
  save_load_iff asciiTable .missing (.document cpuState.document) cpuChoice cpuState
    save_cpuChoice

/-- The name of a model with a blank as its 1024th character. -/
def cutName : Str := List.replicate 1023 'a' ++ [' ', 'b']

theorem cut_cutName : CutAtBlank asciiTable 1024 (.str cutName) := by
  have hprintable : ∀ c ∈ cutName, asciiTable.isPrintable c = true := by
    intro c hc
    rcases List.mem_append.mp hc with hc | hc
    · obtain rfl := List.eq_of_mem_replicate hc
      rfl
    · simp only [List.mem_cons, List.not_mem_nil, or_false] at hc
      rcases hc with rfl | rfl <;> rfl
  have hstrip : strip isSpace cutName = cutName := by
    apply strip_eq_self
    · intro _
      rfl
    · intro h
      rw [show cutName.getLast h = 'b' from List.getLast_append_of_ne_nil _ (by simp)]
      rfl
  have hlength : cutName.length = 1025 := by
    rw [cutName, List.length_append, List.length_replicate]
    rfl
  unfold CutAtBlank
  rw [shown_str hprintable, hstrip, hlength]
  refine ⟨by decide, ' ', ?_, rfl⟩
  rw [cutName, List.getElem?_append_right (by rw [List.length_replicate]),
    List.length_replicate]
  rfl

/-- A name of 1025 characters is saved with a blank at its end and loaded without it. -/
theorem cut_name_not_loaded :
    ¬ ∀ (table : PrintableTable) (file file' : StateFile) (raw : RawState) (s : State),
      save table file raw = (.ok s, file') →
        (load table file').1 = .ok { state := s } ∧
          save table file' s.document = (.ok s, file') := by
  intro hall
  obtain ⟨s, hs⟩ : ∃ s, migrateState asciiTable [("selected_model".toList, .str cutName)] = .ok s :=
    ⟨_, rfl⟩
  have hsave : save asciiTable .missing [("selected_model".toList, .str cutName)] =
      (.ok s, .document s.document) := by
    rw [save, hs]
  obtain ⟨-, hagain⟩ := hall asciiTable .missing _ _ _ hsave
  have hmigrate : migrateState asciiTable s.document = .ok s := by
    rw [save] at hagain
    rcases hdocument : migrateState asciiTable s.document with e | again
    · rw [hdocument] at hagain
      cases hagain
    · rw [hdocument] at hagain
      obtain ⟨rfl, -⟩ : again = s ∧ _ := by simpa using hagain
      rfl
  exact ((migrateState_again hs).mp hmigrate).texts .selectedModel cut_cutName

end InferBridge.Onboarding
