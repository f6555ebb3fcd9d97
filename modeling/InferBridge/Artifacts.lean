/-
InferBridge/Artifacts.lean

Validation of a converted OpenVINO model directory
(runtime/model_artifacts.py).

A directory is a list of named entries without repetition.  The XML parser
and the JSON reader are the parameter `ArtifactReader`; the probe of both
ends of the IR file, the size limits, the order of the checks and the
reasons are concrete.  The JSON reader may fail with an error that the code
does not catch, so `validateOpenvinoModelDir` returns an `Except`.

`Ready` is the thorough check succeeding.
-/
import InferBridge.Lib.Occurrence
import InferBridge.Tools

namespace InferBridge

abbrev Bytes := List UInt8

/-! ### Directories -/

/-- An entry of a directory, links resolved. -/
inductive Entry where
  | file (bytes : Bytes)
  | directory
deriving DecidableEq, Repr

/-- The contents of a directory: names below it, each once. -/
structure Tree where
  entries : List (String × Entry)
  nodup : (entries.map Prod.fst).Nodup
deriving DecidableEq

namespace Tree

def empty : Tree := ⟨[], by simp⟩

def lookup (t : Tree) (name : String) : Option Entry := t.entries.lookup name

/-- The directory after its `i`-th entry was removed. -/
def eraseIdx (t : Tree) (i : Nat) : Tree where
  entries := t.entries.eraseIdx i
  nodup := t.nodup.sublist ((List.eraseIdx_sublist _ _).map _)

end Tree

/-! ### The checks of one file -/

/-- The readers of the host language.  `xmlRoot` parses a whole XML stream and returns its
root tag; `configJson` decodes a text with or without a byte order mark and reads JSON. -/
structure ArtifactReader where
  xmlRoot : Bytes → Option Str
  configJson : Bytes → Except DecodeError Json

def irMarkers : List String := ["openvino_model.xml", "openvino_language_model.xml"]

/-- `ir_xml.with_suffix(".bin")`. -/
def binName (marker : String) : String :=
  if marker = "openvino_model.xml" then "openvino_model.bin" else "openvino_language_model.bin"

def configFilename : String := "config.json"

def xmlProbeBytes : Nat := 4096

def maxConfigBytes : Nat := 4 * 1024 * 1024

/-- The bytes of `<net`. -/
def netOpen : Bytes := [60, 110, 101, 116]

/-- The bytes of `</net>`. -/
def netClose : Bytes := [60, 47, 110, 101, 116, 62]

/-- `_nonempty_file`. -/
def nonemptyFile (t : Tree) (name : String) : Bool :=
  match t.lookup name with
  | some (.file bytes) => bytes ≠ []
  | _ => false

/-- `_valid_ir_xml_probe`: the first and the last bytes of the file. -/
def validIrXmlProbe (t : Tree) (name : String) : Bool :=
  match t.lookup name with
  | some (.file bytes) =>
    bytes ≠ [] ∧ (Occurrence.find netOpen (bytes.take xmlProbeBytes)).isSome ∧
      (Occurrence.find netClose (bytes.drop (bytes.length - xmlProbeBytes))).isSome
  | _ => false

/-- `str(element.tag).rsplit("}", 1)[-1]`. -/
def localName (tag : Str) : Str := (tag.reverse.takeWhile (· ≠ '}')).reverse

/-- `_valid_ir_xml_full`. -/
def validIrXmlFull (reader : ArtifactReader) (t : Tree) (name : String) : Bool :=
  match t.lookup name with
  | some (.file bytes) => (reader.xmlRoot bytes).any fun tag => localName tag = ['n', 'e', 't']
  | _ => false

/-- `_valid_config`. -/
def validConfig (reader : ArtifactReader) (t : Tree) (name : String) :
    Except DecodeError Bool :=
  match t.lookup name with
  | some (.file bytes) =>
    if bytes = [] ∨ maxConfigBytes < bytes.length then .ok false
    else
      match reader.configJson bytes with
      | .ok (.obj _) => .ok true
      | .ok _ => .ok false
      | .error .invalid => .ok false
      | .error .uncaught => .error .uncaught
  | _ => .ok false

/-! ### The validation -/

/-- `ModelArtifactValidation`; the paths are the names of the two IR files. -/
structure ModelArtifactValidation where
  ready : Bool
  reason : String
  irXml : Option String
  irBin : Option String
deriving DecidableEq, Repr

def notReady (reason : String) : ModelArtifactValidation :=
  { ready := false, reason := reason, irXml := none, irBin := none }

/-- The loop over the markers; `failures` and `foundMarker` are its variables. -/
def validateMarkers (reader : ArtifactReader) (thorough : Bool) (t : Tree)
    (failures : List String) (foundMarker : Bool) :
    List String → Except DecodeError ModelArtifactValidation
  | [] =>
    if ¬ foundMarker then .ok (notReady "primary OpenVINO IR XML file is missing")
    else .ok (notReady
      (if failures = [] then "model output is incomplete" else "; ".intercalate failures))
  | marker :: rest =>
    if t.lookup marker = none then validateMarkers reader thorough t failures foundMarker rest
    else if ¬ validIrXmlProbe t marker then
      validateMarkers reader thorough t
        (failures ++ [marker ++ " is empty, unreadable, or truncated"]) true rest
    else if thorough ∧ ¬ validIrXmlFull reader t marker then
      validateMarkers reader thorough t
        (failures ++ [marker ++ " contains malformed or incomplete XML"]) true rest
    else if ¬ nonemptyFile t (binName marker) then
      validateMarkers reader thorough t
        (failures ++ [binName marker ++ " is missing or empty"]) true rest
    else
      match validConfig reader t configFilename with
      | .error e => .error e
      | .ok false =>
        validateMarkers reader thorough t
          (failures ++ [configFilename ++ " is missing, empty, oversized, or invalid"]) true rest
      | .ok true =>
        .ok { ready := true, reason := "OpenVINO IR, weights, and configuration are present"
              irXml := some marker, irBin := some (binName marker) }

/-- `validate_openvino_model_dir`; `none` stands for a path that is no directory. -/
def validateOpenvinoModelDir (reader : ArtifactReader) (thorough : Bool) :
    Option Tree → Except DecodeError ModelArtifactValidation
  | none => .ok (notReady "model directory does not exist")
  | some t => validateMarkers reader thorough t [] false irMarkers

/-- The thorough validation of a directory succeeds. -/
def Ready (reader : ArtifactReader) (t : Tree) : Prop :=
  ∃ validation, validateOpenvinoModelDir reader true (some t) = .ok validation ∧
    validation.ready = true

theorem ready_iff {reader : ArtifactReader} {t : Tree} {validation : ModelArtifactValidation}
    (h : validateOpenvinoModelDir reader true (some t) = .ok validation) :
    Ready reader t ↔ validation.ready = true := by
  constructor
  · rintro ⟨validation', h', hready⟩
    rw [h] at h'
    cases h'
    exact hready
  · intro hready
    exact ⟨validation, h, hready⟩

/-! ### Removing entries never makes a directory ready -/

/-- All checks of one marker succeed. -/
structure MarkerGood (reader : ArtifactReader) (t : Tree) (marker : String) : Prop where
  probe : validIrXmlProbe t marker = true
  full : validIrXmlFull reader t marker = true
  weights : nonemptyFile t (binName marker) = true
  config : validConfig reader t configFilename = .ok true

theorem lookup_of_probe {t : Tree} {marker : String} (h : validIrXmlProbe t marker = true) :
    t.lookup marker ≠ none := by
  intro hnone
  simp [validIrXmlProbe, hnone] at h

/-- A successful loop succeeded at one of the markers. -/
theorem markerGood_of_ready {reader : ArtifactReader} {t : Tree} (markers : List String)
    {failures : List String} {foundMarker : Bool} {validation : ModelArtifactValidation}
    (h : validateMarkers reader true t failures foundMarker markers = .ok validation)
    (hready : validation.ready = true) : ∃ marker ∈ markers, MarkerGood reader t marker := by
  induction markers generalizing failures foundMarker with
  | nil =>
    unfold validateMarkers at h
    split at h <;> cases h <;> cases hready
  | cons marker rest ih =>
    have later : ∀ {failures foundMarker},
        validateMarkers reader true t failures foundMarker rest = .ok validation →
        ∃ m ∈ marker :: rest, MarkerGood reader t m := by
      intro failures foundMarker hrest
      obtain ⟨m, hm, hgood⟩ := ih hrest
      exact ⟨m, by simp [hm], hgood⟩
    unfold validateMarkers at h
    split at h
    · exact later h
    · split at h
      · exact later h
      · next hprobe =>
        split at h
        · exact later h
        · next hfull =>
          split at h
          · exact later h
          · next hbin =>
            rcases e : validConfig reader t configFilename with err | good
            · simp [e] at h
            · cases good with
              | false => exact later (by simpa [e] using h)
              | true =>
                refine ⟨marker, by simp, by simpa using hprobe, by simpa using hfull,
                  by simpa using hbin, e⟩

/-- The loop succeeds when all checks of some marker do. -/
theorem ready_of_markerGood {reader : ArtifactReader} {t : Tree} (markers : List String)
    {failures : List String} {foundMarker : Bool}
    (h : ∃ marker ∈ markers, MarkerGood reader t marker) :
    ∃ validation, validateMarkers reader true t failures foundMarker markers = .ok validation ∧
      validation.ready = true := by
  induction markers generalizing failures foundMarker with
  | nil => simp at h
  | cons marker rest ih =>
    obtain ⟨m, hm, hgood⟩ := h
    have later : m ∈ rest → ∀ failures foundMarker, ∃ validation,
        validateMarkers reader true t failures foundMarker rest = .ok validation ∧
          validation.ready = true :=
      fun hrest failures foundMarker => ih ⟨m, hrest, hgood⟩
    unfold validateMarkers
    rcases List.mem_cons.mp hm with rfl | hrest
    · simp [lookup_of_probe hgood.probe, hgood.probe, hgood.full, hgood.weights, hgood.config]
    · rw [hgood.config]
      split
      · exact later hrest _ _
      · split
        · exact later hrest _ _
        · split
          · exact later hrest _ _
          · split
            · exact later hrest _ _
            · exact ⟨_, rfl, rfl⟩

theorem ready_iff_markerGood {reader : ArtifactReader} {t : Tree} :
    Ready reader t ↔ ∃ marker ∈ irMarkers, MarkerGood reader t marker := by
  constructor
  · rintro ⟨validation, h, hready⟩
    exact markerGood_of_ready irMarkers h hready
  · intro h
    exact ready_of_markerGood irMarkers h

theorem lookup_eq_some_iff_mem {l : List (String × Entry)} (hnodup : (l.map Prod.fst).Nodup)
    {name : String} {e : Entry} : l.lookup name = some e ↔ (name, e) ∈ l := by
  induction l with
  | nil => simp
  | cons p rest ih =>
    obtain ⟨n, v⟩ := p
    obtain ⟨hfresh, hrest⟩ := List.nodup_cons.mp hnodup
    by_cases hn : name = n
    · subst hn
      simp only [List.lookup_cons_self, Option.some.injEq, List.mem_cons, Prod.mk.injEq, true_and]
      constructor
      · rintro rfl
        exact .inl rfl
      · rintro (rfl | hmem)
        · rfl
        · exact absurd (List.mem_map_of_mem (f := Prod.fst) hmem) hfresh
    · have hbeq : (name == n) = false := by simpa using hn
      rw [List.lookup_cons, hbeq, ih hrest]
      simp [hn]

theorem lookup_of_lookup_eraseIdx {t : Tree} {i : Nat} {name : String} {e : Entry}
    (h : (t.eraseIdx i).lookup name = some e) : t.lookup name = some e := by
  have hmem := (lookup_eq_some_iff_mem (t.eraseIdx i).nodup).mp h
  exact (lookup_eq_some_iff_mem t.nodup).mpr ((List.eraseIdx_sublist _ _).subset hmem)

theorem MarkerGood.of_eraseIdx {reader : ArtifactReader} {t : Tree} {i : Nat} {marker : String}
    (h : MarkerGood reader (t.eraseIdx i) marker) : MarkerGood reader t marker := by
  have file : ∀ {name : String} {check : Bytes → Bool},
      (match (t.eraseIdx i).lookup name with
        | some (.file bytes) => check bytes
        | _ => false) = true →
      (match t.lookup name with
        | some (.file bytes) => check bytes
        | _ => false) = true := by
    intro name check hcheck
    split at hcheck
    · next bytes hlookup =>
      rw [lookup_of_lookup_eraseIdx hlookup]
      exact hcheck
    · cases hcheck
  refine ⟨file h.probe, file h.full, file h.weights, ?_⟩
  have hconfig := h.config
  unfold validConfig at hconfig ⊢
  split at hconfig
  · next bytes hlookup =>
    rw [lookup_of_lookup_eraseIdx hlookup]
    exact hconfig
  · cases hconfig

/-- **Deleting is monotone**: a directory that is not ready does not become ready while its
entries are removed. -/
theorem Ready.of_eraseIdx {reader : ArtifactReader} {t : Tree} {i : Nat}
    (h : Ready reader (t.eraseIdx i)) : Ready reader t := by
  obtain ⟨marker, hmem, hgood⟩ := ready_iff_markerGood.mp h
  exact ready_iff_markerGood.mpr ⟨marker, hmem, hgood.of_eraseIdx⟩

end InferBridge
