/-
InferBridge/CatalogWrites.lean

What the writes of the catalog file keep (app/model_registry.py,
app/huggingface_manager_safety.py, app/paths.py).

Reading is tolerant: a file that cannot be read, or is not an object, gives
an empty catalog, and entries that do not parse are skipped.  Writing is
not: `save_catalog` replaces the whole file by what is in memory.  Around
it stands a wrapper that reads the old file once more, for the access
metadata of the models, and that read is tolerant too.

Every file operation may fail, and a failed one changes nothing.  The names
of paths and the texts of JSON values that are no strings are parameters.

Main results.  `writes_keep_iff`: every write of a run keeps the entries of
the file, or they are in the backup, and keeps the access metadata, exactly
if every step of the run meets `keepsFile`.  One failed read is enough to
lose all other models (`registration_loses_models`).
-/
import InferBridge.CatalogPersistence

namespace InferBridge.CatalogWrites

open Text

/-! ### Files -/

/-- The content of a catalog file. -/
inductive FileText where
  | undecodable (bytes : List UInt8)
  | notJson (text : Str)
  | notObject (document : JsonValue)
  | object (entries : CatalogFile)

/-- The parameters: the packaged catalog, the places of model directories, and `str(value or "")`
of a number, an array or an object. -/
structure Environment where
  bundled : CatalogFile
  pathName : Str → Str
  placed : Str → Str
  desktopCatalog : Bool
  bundledIsUser : Bool
  shown : JsonValue → Str

structure State where
  file : Option FileText
  backup : Option FileText
  memory : Catalog

/-- The operations of one `save_catalog` that may fail: reading the old file, writing and reading
the stage, and writing the new file in its place. -/
structure SaveFaults where
  readsOld : Bool := true
  stages : Bool := true
  replaces : Bool := true

structure MaterializeFaults where
  readsBundled : Bool := true
  reads : Bool := true
  copies : Bool := true
  replaces : Bool := true

/-! ### Access metadata -/

/-- `_ACCESS_TYPES` -/
def accessTypes : List Str := ["public".toList, "gated".toList, "unknown".toList]

/-- `_ACCESS_FIELDS` -/
def accessFields : List Str := ["access_type".toList, "model_url".toList, "license_url".toList]

variable (env : Environment)

/-- `str(value or "")` -/
def valueText : Option JsonValue → Str
  | none | some .null | some (.bool false) => []
  | some (.bool true) => "True".toList
  | some (.str s) => s
  | some value => env.shown value

def hexDigit (n : Nat) : Char := if n < 10 then Char.ofNat (48 + n) else Char.ofNat (55 + n)

/-- `quote(_, safe='/')` -/
def quote (s : Str) : Str :=
  s.flatMap fun c =>
    if isAlphanumeric c || "_.-~/".toList.contains c then [c]
    else (String.utf8EncodeChar c).flatMap fun b =>
      ['%', hexDigit (b.toNat / 16), hexDigit (b.toNat % 16)]

def huggingfacePrefix : Str := "https://huggingface.co/".toList

/-- `_model_url` -/
def modelUrl (sourceModel : Str) : Str := huggingfacePrefix ++ quote sourceModel

/-- `_safe_huggingface_url` -/
def safeHuggingfaceUrl (value : Option JsonValue) (sourceModel : Str) : Str :=
  let text := strip isSpace (valueText env value)
  if huggingfacePrefix.isPrefixOf text then text else modelUrl sourceModel

/-- The source model of an entry, as the wrapper reads it. -/
def sourceOf (entry : List (Str × JsonValue)) : Str :=
  strip isSpace (valueText env (entry.lookup "source_model".toList))

/-- What `_read_access_metadata` keeps of one entry. -/
def entryMetadata (entry : List (Str × JsonValue)) : Option (List (Str × JsonValue)) :=
  let accessType := lower (strip isSpace (valueText env (entry.lookup "access_type".toList)))
  if sourceOf env entry = [] ∨ accessTypes.contains accessType = false then none
  else
    some [("access_type".toList, .str accessType),
      ("model_url".toList,
        .str (safeHuggingfaceUrl env (entry.lookup "model_url".toList) (sourceOf env entry))),
      ("license_url".toList,
        .str (safeHuggingfaceUrl env (entry.lookup "license_url".toList) (sourceOf env entry)))]

def objectFields : JsonValue → Option (List (Str × JsonValue))
  | .obj fields => some fields
  | _ => none

/-- The entry of a model in a file. -/
def entryOf : Option FileText → Str → Option (List (Str × JsonValue))
  | some (.object entries), modelId => (entries.get? modelId).bind objectFields
  | _, _ => none

/-- `_read_access_metadata`: the source model and the metadata of a model. -/
def readAccessMetadata (file : Option FileText) (reads : Bool) (modelId : Str) :
    Option (Str × List (Str × JsonValue)) :=
  if reads then
    (entryOf file modelId).bind fun entry =>
      (entryMetadata env entry).map fun metadata => (sourceOf env entry, metadata)
  else none

/-! ### Writing -/

/-- `dict.update` -/
def updateFields (entry fields : List (Str × JsonValue)) : List (Str × JsonValue) :=
  fields.foldl (fun entry field => Dict.setItems field.1 field.2 entry) entry

/-- An entry of the staged file with the metadata of its model. -/
def withMetadata (previous : Option (Str × List (Str × JsonValue)))
    (entry : List (Str × JsonValue)) : List (Str × JsonValue) :=
  match previous with
  | none => entry.filter fun field => !accessFields.contains field.1
  | some (source, metadata) =>
    if source = sourceOf env entry then updateFields entry metadata
    else entry.filter fun field => !accessFields.contains field.1

/-- The new file. -/
def written (file : Option FileText) (catalog : Catalog) (readsOld : Bool) : CatalogFile :=
  catalog.mapValues fun modelId cfg =>
    .obj (withMetadata env (readAccessMetadata env file readsOld modelId) (saveEntry cfg))

def SaveFaults.succeeds (faults : SaveFaults) : Bool := faults.stages && faults.replaces

/-- `save_catalog_with_access_metadata`; `none` is an exception. -/
def saveCatalogWithAccessMetadata (s : State) (catalog : Catalog) (faults : SaveFaults) :
    Option State :=
  if faults.succeeds then
    some { s with file := some (.object (written env s.file catalog faults.readsOld)) }
  else none

/-! ### Operations -/

/-- `load_catalog`; `none` is an exception: text that is not UTF-8 is no `JSONDecodeError`. -/
def loadCatalogFile (file : Option FileText) (reads : Bool) : Option Catalog :=
  match file with
  | none => some Dict.empty
  | some text =>
    if reads then
      match text with
      | .undecodable _ => none
      | .notJson _ | .notObject _ => some Dict.empty
      | .object entries => some (loadCatalog (some entries))
    else some Dict.empty

/-- `reload_catalog`, and the load of a start. -/
def reload (s : State) (reads : Bool) : State :=
  match loadCatalogFile s.file reads with
  | none => s
  | some catalog => { s with memory := catalog }

/-- `_rebased_entry` -/
def rebasedEntry (modelId : Str) (raw : List (Str × JsonValue)) : List (Str × JsonValue) :=
  let configured :=
    match valueText env (raw.lookup "model_path".toList) with
    | [] => modelId
    | path => path
  let leaf :=
    match env.pathName configured with
    | [] => modelId
    | name => name
  Dict.setItems "model_path".toList (.str (env.placed leaf)) raw

/-- One round of the loop of `materialize_user_catalog`. -/
def addBundled (existing : CatalogFile) (item : Str × JsonValue) : CatalogFile :=
  match existing.get? item.1, item.2 with
  | none, .obj raw => existing.set item.1 (.obj (rebasedEntry env item.1 raw))
  | _, _ => existing

def addsBundled (existing : CatalogFile) : Bool :=
  env.bundled.items.any fun item =>
    (existing.get? item.1).isNone && (objectFields item.2).isSome

/-- What `materialize_user_catalog` finds in the file, `none` where it goes on with nothing. -/
def existingEntries (file : Option FileText) (reads : Bool) : Option CatalogFile :=
  match file with
  | none => some Dict.empty
  | some (.object entries) => if reads then some entries else none
  | some _ => none

/-- `materialize_user_catalog` -/
def materializeUserCatalog (s : State) (faults : MaterializeFaults) : State :=
  if env.bundledIsUser || !faults.readsBundled then s
  else
    let existing := existingEntries s.file faults.reads
    let backup := if existing.isNone && faults.copies then s.file else s.backup
    let existing := existing.getD Dict.empty
    if (s.file.isNone || addsBundled env existing) && faults.replaces then
      { s with
        file := some (.object (env.bundled.items.foldl (addBundled env) existing))
        backup := backup }
    else { s with backup := backup }

/-- The configuration that a registration enters; the desktop has its own model directory. -/
def registered (req : RegisterRequest) : ModelConfig :=
  if env.desktopCatalog then { req.config with modelPath := env.placed req.modelId } else req.config

/-- `register_model` of the desktop: the model stays in memory where the file is not written. -/
def registerDesktop (s : State) (req : RegisterRequest) (save : SaveFaults) : State :=
  if (s.memory.get? req.modelId).isSome then s
  else
    let s := { s with memory := s.memory.set req.modelId (registered env req) }
    (saveCatalogWithAccessMetadata env s s.memory save).getD s

/-- `register_model`: an error, also that of a model that is there already, writes the catalog
as it was. -/
def registerServer (s : State) (req : RegisterRequest) (save restore : SaveFaults) : State :=
  let restored := (saveCatalogWithAccessMetadata env s s.memory restore).getD s
  if (s.memory.get? req.modelId).isSome then restored
  else
    let catalog := s.memory.set req.modelId (registered env req)
    match saveCatalogWithAccessMetadata env s catalog save with
    | some saved => { saved with memory := catalog }
    | none => restored

def register (s : State) (req : RegisterRequest) (save restore : SaveFaults) : State :=
  if env.desktopCatalog then registerDesktop env s req save
  else registerServer env s req save restore

/-- The staged catalog is written, then it is the one in memory. -/
def commit (s : State) (staged : Catalog) (save : SaveFaults) : State :=
  match saveCatalogWithAccessMetadata env s staged save with
  | some saved => { saved with memory := staged }
  | none => s

inductive Event where
  | materialize (faults : MaterializeFaults)
  | load (reads : Bool)
  | register (req : RegisterRequest) (save restore : SaveFaults)
  | configure (modelId : Str) (req : ContextRequest) (limit : Option Int) (save : SaveFaults)
  | persist (modelId : Str) (weightFormat : WeightFormat) (save : SaveFaults)

/-- A rejected request is no step. -/
def step (s : State) : Event → Option State
  | .materialize faults => some (materializeUserCatalog env s faults)
  | .load reads => some (reload s reads)
  | .register req save restore => req.validate.map fun req => register env s req save restore
  | .configure modelId req limit save =>
    match s.memory.get? modelId with
    | none => none
    | some cfg =>
      if req.accepts cfg limit = false then none
      else if req.keeps cfg then some s
      else some (commit env s (s.memory.set modelId (req.config cfg)) save)
  | .persist modelId weightFormat save =>
    (persistConvertedWeightFormat s.memory modelId weightFormat).map fun staged =>
      commit env s staged save

/-! ### What is kept -/

/-- The ids hold every entry of the file; of a text that is no catalog they cannot hold all. -/
def Covered : Option FileText → (Str → Prop) → Prop
  | none, _ => True
  | some (.object entries), ids => ∀ modelId, (entries.get? modelId).isSome = true → ids modelId
  | some _, _ => False

def HasEntry (file : Option FileText) (modelId : Str) : Prop :=
  ∃ entries, file = some (.object entries) ∧ (entries.get? modelId).isSome = true

/-- Every entry of the file is there, or the file is in the backup. -/
def EntriesKept (s s' : State) : Prop :=
  s'.file = s.file ∨ s'.backup = s.file ∨ Covered s.file (HasEntry s'.file)

/-- A model with the source that it had has the access metadata that it had. -/
def MetadataKept (s s' : State) : Prop :=
  ∀ modelId entry entry', entryOf s.file modelId = some entry →
    entryOf s'.file modelId = some entry' → sourceOf env entry = sourceOf env entry' →
      ∀ field ∈ accessFields, entry'.lookup field = entry.lookup field

/-- A link that the wrapper leaves as it is. -/
def IsHuggingfaceUrl (value : Option JsonValue) : Prop :=
  ∃ url, value = some (.str url) ∧ strip isSpace url = url ∧ huggingfacePrefix.isPrefixOf url = true

/-- The metadata of an entry that is written as it was read: all of it, or there is none. -/
def Rewritable (readsOld : Bool) (entry : List (Str × JsonValue)) : Prop :=
  (∀ field ∈ accessFields, entry.lookup field = none) ∨
    (readsOld = true ∧ sourceOf env entry ≠ [] ∧
      (∃ t ∈ accessTypes, entry.lookup "access_type".toList = some (.str t)) ∧
      IsHuggingfaceUrl (entry.lookup "model_url".toList) ∧
      IsHuggingfaceUrl (entry.lookup "license_url".toList))

/-- A write of `catalog` that succeeds finds no entry that the catalog does not have, or the file
is in the backup, and no metadata that it does not write as they are. -/
def saveKeeps (s : State) (catalog : Catalog) (save : SaveFaults) : Prop :=
  save.succeeds = true →
    (s.backup = s.file ∨ Covered s.file fun modelId => (catalog.get? modelId).isSome = true) ∧
    ∀ modelId entry cfg, entryOf s.file modelId = some entry → catalog.get? modelId = some cfg →
      sourceOf env entry = strip isSpace cfg.sourceModel → Rewritable env save.readsOld entry

/-- The packaged entry of a model. -/
def bundledEntry (modelId : Str) : Option (List (Str × JsonValue)) :=
  (env.bundled.get? modelId).bind objectFields

/-- A start that cannot read the file, or finds no catalog in it, and writes the packaged one,
has made the backup, or the packaged catalog has all that the file has. -/
def materializeKeeps (s : State) (faults : MaterializeFaults) : Prop :=
  env.bundledIsUser = false → faults.readsBundled = true → faults.replaces = true →
    existingEntries s.file faults.reads = none → addsBundled env Dict.empty = true →
      (faults.copies = true ∨ s.backup = s.file ∨
        Covered s.file fun modelId => (bundledEntry env modelId).isSome = true) ∧
      ∀ modelId entry raw, entryOf s.file modelId = some entry →
        bundledEntry env modelId = some raw → sourceOf env entry = sourceOf env raw →
          ∀ field ∈ accessFields, raw.lookup field = entry.lookup field

/-- The write that a registration makes, if it makes one, keeps the file. -/
def registerKeeps (s : State) (req : RegisterRequest) (save restore : SaveFaults) : Prop :=
  let catalog := s.memory.set req.modelId (registered env req)
  if env.desktopCatalog then (s.memory.get? req.modelId).isSome = false → saveKeeps env s catalog save
  else
    ((s.memory.get? req.modelId).isSome = false → saveKeeps env s catalog save) ∧
      ((s.memory.get? req.modelId).isSome = true ∨ save.succeeds = false →
        saveKeeps env s s.memory restore)

/-- The condition on the file, the catalog in memory and what is asked. -/
def keepsFile (s : State) : Event → Prop
  | .materialize faults => materializeKeeps env s faults
  | .load _ => True
  | .register req save restore => ∀ valid, req.validate = some valid →
      registerKeeps env s valid save restore
  | .configure modelId req _ save => ∀ cfg, s.memory.get? modelId = some cfg →
      req.keeps cfg = false → saveKeeps env s (s.memory.set modelId (req.config cfg)) save
  | .persist modelId weightFormat save => ∀ cfg, s.memory.get? modelId = some cfg →
      saveKeeps env s (s.memory.set modelId { cfg with weightFormat }) save

/-- A write keeps the entries and the metadata. -/
def Kept (s s' : State) : Prop := EntriesKept s s' ∧ MetadataKept env s s'

variable {env} {s s' : State} {catalog : Catalog} {entry raw : List (Str × JsonValue)}
  {modelId field : Str} {reads : Bool}

/-! ### Links -/

/-- The characters of a quoted text; white space is none of them. -/
def quotedChars (c : Char) : Bool := isAlphanumeric c || c = '%' || "_.-~/".toList.contains c

theorem isSpace_of_quoted {c : Char} (h : quotedChars c = true) : isSpace c = false := by
  rw [quotedChars, Bool.or_eq_true, Bool.or_eq_true, decide_eq_true_eq] at h
  rcases h with (h | rfl) | h
  · exact isSpace_of_isAlphanumeric h
  · rfl
  · rw [List.contains_iff_mem] at h
    exact Bool.not_eq_true' _ |>.mp
      (List.all_eq_true.mp (by decide : "_.-~/".toList.all (fun c => !isSpace c) = true) c h)

theorem hexDigit_quoted {n : Nat} (h : n < 16) : quotedChars (hexDigit n) = true := by
  interval_cases n <;> rfl

theorem quote_quoted {c : Char} {t : Str} (h : c ∈ quote t) : quotedChars c = true := by
  rw [quote, List.mem_flatMap] at h
  obtain ⟨d, -, hc⟩ := h
  split at hc
  · next hd =>
    obtain rfl := List.mem_singleton.mp hc
    rw [Bool.or_eq_true] at hd
    rw [quotedChars, Bool.or_eq_true, Bool.or_eq_true]
    exact hd.elim (fun h => .inl (.inl h)) .inr
  · obtain ⟨b, -, hb⟩ := List.mem_flatMap.mp hc
    have hlow : b.toNat % 16 < 16 := Nat.mod_lt _ (by omega)
    have hhigh : b.toNat / 16 < 16 := by
      have := b.toNat_lt
      omega
    rcases List.mem_cons.mp hb with rfl | hb
    · rfl
    · rcases List.mem_cons.mp hb with rfl | hb
      · exact hexDigit_quoted hhigh
      · obtain rfl := List.mem_singleton.mp hb
        exact hexDigit_quoted hlow

theorem strip_modelUrl (source : Str) : strip isSpace (modelUrl source) = modelUrl source := by
  apply strip_of_no_space
  intro c hc
  rcases List.mem_append.mp hc with hc | hc
  · exact Bool.not_eq_true' _ |>.mp (List.all_eq_true.mp
      (by decide : huggingfacePrefix.all (fun c => !isSpace c) = true) c hc)
  · exact isSpace_of_quoted (quote_quoted hc)

/-- The wrapper leaves the links of huggingface.co, and only these, as they are. -/
theorem safeHuggingfaceUrl_iff {value : Option JsonValue} {source : Str} :
    some (.str (safeHuggingfaceUrl env value source)) = value ↔ IsHuggingfaceUrl value := by
  constructor
  · intro h
    refine ⟨_, h.symm, ?_, ?_⟩
    · rw [safeHuggingfaceUrl]
      split
      · exact strip_strip _
      · exact strip_modelUrl source
    · rw [safeHuggingfaceUrl]
      split
      · next hprefix => exact hprefix
      · exact List.isPrefixOf_iff_prefix.mpr (List.prefix_append _ _)
  · rintro ⟨url, rfl, hstrip, hprefix⟩
    have htext : strip isSpace (valueText env (some (.str url))) = url := hstrip
    rw [safeHuggingfaceUrl, htext, if_pos hprefix]

/-! ### Fields of a written entry -/

theorem lookup_field (f : Str × JsonValue) :
    (f :: entry).lookup field = if field = f.1 then some f.2 else entry.lookup field := by
  rw [List.lookup_cons]
  by_cases h : field = f.1
  · rw [if_pos h, beq_iff_eq.mpr h]
  · rw [if_neg h, beq_eq_false_iff_ne.mpr h]

theorem lookup_setItems (f : Str × JsonValue) :
    (Dict.setItems f.1 f.2 entry).lookup field =
      if field = f.1 then some f.2 else entry.lookup field := by
  induction entry with
  | nil => exact lookup_field f
  | cons g rest ih =>
    unfold Dict.setItems
    by_cases hg : g.1 = f.1
    · rw [if_pos hg, lookup_field, lookup_field, hg]
      split <;> rfl
    · rw [if_neg hg, lookup_field, lookup_field, ih]
      by_cases hfield : field = g.1
      · have hne : field ≠ f.1 := fun h => hg (hfield.symm.trans h)
        rw [if_pos hfield, if_neg hne, if_pos hfield]
      · rw [if_neg hfield, if_neg hfield]

theorem lookup_filter_fields {fields : List Str} (h : field ∈ fields) :
    (entry.filter fun f => !fields.contains f.1).lookup field = none := by
  apply List.lookup_eq_none_iff.mpr
  intro f hf
  have hnot := (List.mem_filter.mp hf).2
  show (!(field == f.1)) = true
  rw [Bool.not_eq_true', beq_eq_false_iff_ne]
  rintro rfl
  rw [List.contains_iff_mem.mpr h] at hnot
  exact Bool.false_ne_true hnot

theorem lookup_filter_of_notMem {fields : List Str} (h : field ∉ fields) :
    (entry.filter fun f => !fields.contains f.1).lookup field = entry.lookup field := by
  induction entry with
  | nil => rfl
  | cons f rest ih =>
    rw [List.filter_cons]
    split
    · rw [lookup_field, lookup_field, ih]
    · next hf =>
      have hne : field ≠ f.1 := by
        rintro rfl
        rw [Bool.not_eq_true, Bool.not_eq_false', List.contains_iff_mem] at hf
        exact h hf
      rw [lookup_field, if_neg hne, ih]

theorem lookup_updateFields (fields : List (Str × JsonValue)) :
    (updateFields entry fields).lookup field =
      (fields.reverse.lookup field).or (entry.lookup field) := by
  induction fields using List.reverseRecOn with
  | nil => rfl
  | append_singleton fields f ih =>
    rw [List.reverse_append, List.reverse_singleton, List.singleton_append, lookup_field,
      updateFields, List.foldl_append]
    show (Dict.setItems f.1 f.2 (updateFields entry fields)).lookup field = _
    rw [lookup_setItems, ih]
    split
    · rfl
    · rfl

theorem sourceOf_saveEntry (cfg : ModelConfig) :
    sourceOf env (saveEntry cfg) = strip isSpace cfg.sourceModel := rfl

theorem source_notMem_accessFields : "source_model".toList ∉ accessFields := by
  decide

theorem modelPath_notMem_accessFields : "model_path".toList ∉ accessFields := by
  decide

theorem saveEntry_fields (cfg : ModelConfig) (h : field ∈ accessFields) :
    (saveEntry cfg).lookup field = none := by
  apply List.lookup_eq_none_iff.mpr
  intro f hf
  show (!(field == f.1)) = true
  rw [Bool.not_eq_true', beq_eq_false_iff_ne]
  rintro rfl
  have hnames : f.1 ∈ (saveEntry cfg).map Prod.fst := List.mem_map_of_mem hf
  have hall : ∀ cfg : ModelConfig, ((saveEntry cfg).map Prod.fst).all
      (fun name => !accessFields.contains name) = true := by
    intro cfg
    unfold saveEntry
    rcases cfg.recommendedContextLen with - | value <;> rcases cfg.kvCachePrecision with - | p <;>
      rfl
  have hnot := List.all_eq_true.mp (hall cfg) f.1 hnames
  rw [List.contains_iff_mem.mpr h] at hnot
  exact Bool.false_ne_true hnot

/-- The three fields, read one by one. -/
theorem forall_accessFields {P : Str → Prop} : (∀ field ∈ accessFields, P field) ↔
    P "access_type".toList ∧ P "model_url".toList ∧ P "license_url".toList := by
  simp [accessFields]

theorem lower_accessType {t : Str} (h : t ∈ accessTypes) : lower (strip isSpace t) = t := by
  simp only [accessTypes, List.mem_cons, List.not_mem_nil, or_false] at h
  rcases h with rfl | rfl | rfl <;> rfl

/-! ### Metadata that survives -/

/-- What is kept of an entry says what the entry says exactly if the entry is rewritable. -/
theorem metadata_iff {metadata : List (Str × JsonValue)}
    (h : entryMetadata env entry = some metadata) :
    (∀ field ∈ accessFields, (metadata.reverse.lookup field) = entry.lookup field) ↔
      Rewritable env true entry := by
  rw [entryMetadata] at h
  split at h
  · cases h
  next hvalid =>
  rw [not_or, Bool.not_eq_false, List.contains_iff_mem] at hvalid
  obtain rfl := Option.some.inj h
  rw [forall_accessFields]
  show (some (JsonValue.str _) = _ ∧ some (JsonValue.str (safeHuggingfaceUrl env _ _)) = _ ∧
    some (JsonValue.str (safeHuggingfaceUrl env _ _)) = _) ↔ _
  rw [safeHuggingfaceUrl_iff, safeHuggingfaceUrl_iff]
  constructor
  · rintro ⟨htype, hmodel, hlicense⟩
    exact .inr ⟨rfl, hvalid.1, ⟨_, hvalid.2, htype.symm⟩, hmodel, hlicense⟩
  · rintro (habsent | ⟨-, -, ⟨t, ht, htype⟩, hmodel, hlicense⟩)
    · have habsent := (forall_accessFields.mp habsent).1
      rw [habsent] at hvalid
      have hempty : ([] : Str) ∈ accessTypes := hvalid.2
      exact absurd hempty (by decide)
    · refine ⟨?_, hmodel, hlicense⟩
      rw [htype]
      show some (JsonValue.str (lower (strip isSpace t))) = some (JsonValue.str t)
      rw [lower_accessType ht]

/-- An entry of which nothing is kept is rewritable exactly if there is nothing to keep. -/
theorem no_metadata_iff {readsOld : Bool}
    (h : (if readsOld then entryMetadata env entry else none) = none) :
    (∀ field ∈ accessFields, none = entry.lookup field) ↔ Rewritable env readsOld entry := by
  constructor
  · intro habsent
    exact .inl fun field hfield => (habsent field hfield).symm
  · rintro (habsent | ⟨rfl, hsource, ⟨t, ht, htype⟩, -⟩)
    · exact fun field hfield => (habsent field hfield).symm
    · rw [if_pos rfl, entryMetadata, if_neg] at h
      · cases h
      · rw [not_or, Bool.not_eq_false, List.contains_iff_mem, htype]
        refine ⟨hsource, ?_⟩
        show lower (strip isSpace t) ∈ accessTypes
        rw [lower_accessType ht]
        exact ht

theorem readAccessMetadata_of_entry {file : Option FileText} (readsOld : Bool)
    (h : entryOf file modelId = some entry) : readAccessMetadata env file readsOld modelId =
      (if readsOld then entryMetadata env entry else none).map fun metadata =>
        (sourceOf env entry, metadata) := by
  rw [readAccessMetadata, h]
  cases readsOld <;> rfl

theorem sourceOf_congr (h : raw.lookup "source_model".toList = entry.lookup "source_model".toList) :
    sourceOf env raw = sourceOf env entry := by
  rw [sourceOf, sourceOf, h]

/-- The metadata of a model is written under fields of its own. -/
theorem sourceOf_withMetadata {previous : Option (Str × List (Str × JsonValue))}
    (h : ∀ source metadata, previous = some (source, metadata) →
      metadata.reverse.lookup "source_model".toList = none) :
    sourceOf env (withMetadata env previous entry) = sourceOf env entry := by
  apply sourceOf_congr
  unfold withMetadata
  split
  · exact lookup_filter_of_notMem source_notMem_accessFields
  · next source metadata =>
    split
    · rw [lookup_updateFields, h source metadata rfl, Option.none_or]
    · exact lookup_filter_of_notMem source_notMem_accessFields

theorem readAccessMetadata_source {file : Option FileText} {readsOld : Bool} {source : Str}
    {metadata : List (Str × JsonValue)}
    (h : readAccessMetadata env file readsOld modelId = some (source, metadata)) :
    metadata.reverse.lookup "source_model".toList = none := by
  rw [readAccessMetadata] at h
  split at h
  · obtain ⟨entry, -, hentry⟩ := Option.bind_eq_some_iff.mp h
    obtain ⟨metadata', hmetadata, heq⟩ := Option.map_eq_some_iff.mp hentry
    obtain ⟨-, rfl⟩ := Prod.mk.inj heq
    rw [entryMetadata] at hmetadata
    split at hmetadata
    · cases hmetadata
    · obtain rfl := Option.some.inj hmetadata
      rfl
  · cases h

/-- **The metadata of one entry.** A model that keeps its source keeps its metadata exactly if its
entry is rewritable. -/
theorem writtenEntry_iff {file : Option FileText} {cfg : ModelConfig} {readsOld : Bool}
    (h : entryOf file modelId = some entry)
    (hsource : sourceOf env entry = strip isSpace cfg.sourceModel) :
    (∀ field ∈ accessFields, (withMetadata env (readAccessMetadata env file readsOld modelId)
      (saveEntry cfg)).lookup field = entry.lookup field) ↔ Rewritable env readsOld entry := by
  rw [readAccessMetadata_of_entry readsOld h]
  rcases hmetadata : (if readsOld then entryMetadata env entry else none) with - | metadata
  · rw [← no_metadata_iff hmetadata]
    apply forall_congr'
    intro field
    apply forall_congr'
    intro hfield
    show ((saveEntry cfg).filter fun f => !accessFields.contains f.1).lookup field = _ ↔ _
    rw [lookup_filter_fields hfield]
  · cases readsOld with
    | false => cases hmetadata
    | true =>
      rw [← metadata_iff hmetadata]
      apply forall_congr'
      intro field
      apply forall_congr'
      intro hfield
      show (if sourceOf env entry = sourceOf env (saveEntry cfg) then
        updateFields (saveEntry cfg) metadata else _).lookup field = _ ↔ _
      rw [sourceOf_saveEntry, if_pos hsource, lookup_updateFields, saveEntry_fields cfg hfield,
        Option.or_none]

/-! ### One write -/

theorem get?_written {file : Option FileText} {readsOld : Bool} :
    (written env file catalog readsOld).get? modelId = (catalog.get? modelId).map fun cfg =>
      .obj (withMetadata env (readAccessMetadata env file readsOld modelId) (saveEntry cfg)) :=
  Dict.get?_mapValues _ catalog modelId

/-- What the file says is kept where the file is the same. -/
theorem kept_of_file_eq (h : s'.file = s.file) : Kept env s s' := by
  refine ⟨.inl h, ?_⟩
  rintro modelId entry entry' hentry hentry' - field -
  rw [h, hentry] at hentry'
  obtain rfl := Option.some.inj hentry'
  rfl

/-- **One save.** It keeps the file exactly if it meets the condition. -/
theorem save_kept_iff {save : SaveFaults}
    (hfile : s'.file = if save.succeeds then some (.object (written env s.file catalog save.readsOld))
      else s.file) (hbackup : s'.backup = s.backup) :
    Kept env s s' ↔ saveKeeps env s catalog save := by
  by_cases hsucceeds : save.succeeds = true
  · rw [if_pos hsucceeds] at hfile
    have hcovered : (s.backup = s.file ∨ Covered s.file fun id => (catalog.get? id).isSome = true) ↔
        EntriesKept s s' := by
      have hentries : ∀ id, HasEntry s'.file id ↔ (catalog.get? id).isSome = true := by
        intro id
        rw [HasEntry, hfile]
        constructor
        · rintro ⟨entries, heq, hsome⟩
          obtain rfl := FileText.object.inj (Option.some.inj heq)
          rwa [get?_written, Option.isSome_map] at hsome
        · intro hsome
          refine ⟨_, rfl, ?_⟩
          rwa [get?_written, Option.isSome_map]
      rw [EntriesKept, hbackup]
      constructor
      · rintro (h | h)
        · exact .inr (.inl h)
        · refine .inr (.inr ?_)
          rwa [show HasEntry s'.file = fun id => (catalog.get? id).isSome = true from
            funext fun id => propext (hentries id)]
      · rintro (h | h | h)
        · refine .inr ?_
          rw [← h, hfile]
          intro id hsome
          exact (hentries id).mp ⟨_, hfile, hsome⟩
        · exact .inl h
        · refine .inr ?_
          rwa [show HasEntry s'.file = fun id => (catalog.get? id).isSome = true from
            funext fun id => propext (hentries id)] at h
    have hmetadata : MetadataKept env s s' ↔ ∀ id entry cfg, entryOf s.file id = some entry →
        catalog.get? id = some cfg → sourceOf env entry = strip isSpace cfg.sourceModel →
          Rewritable env save.readsOld entry := by
      have hentry (id : Str) : entryOf s'.file id = (catalog.get? id).map fun cfg =>
          withMetadata env (readAccessMetadata env s.file save.readsOld id) (saveEntry cfg) := by
        rw [hfile]
        show ((written env s.file catalog save.readsOld).get? id).bind objectFields = _
        rw [get?_written]
        cases catalog.get? id <;> rfl
      have hsource (id : Str) (cfg : ModelConfig) : sourceOf env (withMetadata env
          (readAccessMetadata env s.file save.readsOld id) (saveEntry cfg)) =
            strip isSpace cfg.sourceModel :=
        sourceOf_withMetadata fun _ _ => readAccessMetadata_source
      constructor
      · intro h id entry cfg hold hcfg hsame
        apply (writtenEntry_iff hold hsame).mp
        refine h id entry _ hold ?_ ?_
        · rw [hentry, hcfg]
          rfl
        · rw [hsource, hsame]
      · intro h id entry entry' hold hnew hsame
        rw [hentry] at hnew
        obtain ⟨cfg, hcfg, rfl⟩ := Option.map_eq_some_iff.mp hnew
        rw [hsource] at hsame
        exact (writtenEntry_iff hold hsame).mpr (h id entry cfg hold hcfg hsame)
    rw [Kept, ← hcovered, hmetadata, saveKeeps]
    exact ⟨fun h _ => h, fun h => h hsucceeds⟩
  · rw [if_neg hsucceeds] at hfile
    exact ⟨fun _ h => absurd h hsucceeds, fun _ => kept_of_file_eq hfile⟩

/-! ### One start -/

theorem get?_addBundled (existing : CatalogFile) {items : List (Str × JsonValue)}
    (hnodup : (items.map Prod.fst).Nodup) :
    (items.foldl (addBundled env) existing).get? modelId =
      (existing.get? modelId).or ((((Dict.mk items hnodup).get? modelId).bind objectFields).map
        fun raw => .obj (rebasedEntry env modelId raw)) := by
  induction items generalizing existing with
  | nil =>
    show existing.get? modelId = (existing.get? modelId).or none
    rw [Option.or_none]
  | cons item rest ih =>
    obtain ⟨hitem, hrest⟩ := List.nodup_cons.mp hnodup
    have habsent : (Dict.mk rest hrest).get? item.1 = none := by
      rw [← Option.not_isSome_iff_eq_none]
      intro hsome
      obtain ⟨value, hvalue⟩ := Option.isSome_iff_exists.mp hsome
      exact hitem (List.mem_map.mpr ⟨_, Dict.mem_of_get? hvalue, rfl⟩)
    have hcons : (Dict.mk (item :: rest) hnodup).get? modelId =
        if modelId = item.1 then some item.2 else (Dict.mk rest hrest).get? modelId :=
      Dict.lookup_cons modelId item rest
    rw [List.foldl_cons, ih _ hrest, hcons]
    obtain ⟨id, value⟩ := item
    show ((addBundled env existing (id, value)).get? modelId).or _ = _
    by_cases hid : modelId = id
    · subst hid
      rw [if_pos rfl, habsent]
      rcases hexisting : existing.get? modelId with - | old
      · cases value with
        | obj raw =>
          have hadd : addBundled env existing (modelId, .obj raw) =
              existing.set modelId (.obj (rebasedEntry env modelId raw)) := by
            simp only [addBundled, hexisting]
          rw [hadd, Dict.get?_set_self]
          rfl
        | null | bool b | int n | float l | str t | arr l =>
          simp only [addBundled, hexisting]
          rfl
      · simp only [addBundled, hexisting]
        rfl
    · rw [if_neg hid]
      congr 1
      unfold addBundled
      split
      · rw [Dict.get?_set_of_ne _ _ hid]
      · rfl

theorem lookup_rebasedEntry (h : field ≠ "model_path".toList) :
    (rebasedEntry env modelId raw).lookup field = raw.lookup field := by
  rw [rebasedEntry]
  exact (lookup_setItems ("model_path".toList, _)).trans (if_neg h)

theorem sourceOf_rebasedEntry : sourceOf env (rebasedEntry env modelId raw) = sourceOf env raw :=
  sourceOf_congr (lookup_rebasedEntry (by decide))

theorem accessFields_rebasedEntry (h : field ∈ accessFields) :
    (rebasedEntry env modelId raw).lookup field = raw.lookup field :=
  lookup_rebasedEntry fun heq => modelPath_notMem_accessFields (heq ▸ h)

/-- The entries of a file that was read stay as they are. -/
theorem merged_kept {existing : CatalogFile}
    (hexisting : existingEntries s.file reads = some existing)
    (hfile : s'.file = some (.object (env.bundled.items.foldl (addBundled env) existing))) :
    Kept env s s' := by
  have hget (id : Str) : (env.bundled.items.foldl (addBundled env) existing).get? id = _ :=
    get?_addBundled existing env.bundled.nodup
  rcases hold : s.file with - | (bytes | text | document | entries)
  · refine ⟨.inr (.inr (by rw [hold]; trivial)), ?_⟩
    intro id entry entry' hentry
    rw [hold] at hentry
    cases hentry
  all_goals rw [hold] at hexisting
  · cases hexisting
  · cases hexisting
  · cases hexisting
  · cases reads with
    | false => cases hexisting
    | true =>
      obtain rfl := Option.some.inj hexisting
      constructor
      · refine .inr (.inr ?_)
        rw [hold, hfile]
        intro id hsome
        obtain ⟨value, hvalue⟩ := Option.isSome_iff_exists.mp hsome
        refine ⟨_, rfl, ?_⟩
        rw [hget, hvalue]
        rfl
      · rintro id entry entry' hentry hentry' - field -
        rw [hold] at hentry
        rw [hfile] at hentry'
        obtain ⟨value, hvalue, hfields⟩ := Option.bind_eq_some_iff.mp hentry
        obtain ⟨value', hvalue', hfields'⟩ := Option.bind_eq_some_iff.mp hentry'
        rw [hget, hvalue, Option.some_or] at hvalue'
        obtain rfl := Option.some.inj hvalue'
        rw [hfields] at hfields'
        obtain rfl := Option.some.inj hfields'
        rfl

/-- The packaged catalog in the place of a file that was not read. -/
theorem replaced_kept_iff {copies : Bool}
    (hfile : s'.file = some (.object (env.bundled.items.foldl (addBundled env) Dict.empty)))
    (hbackup : s'.backup = if copies then s.file else s.backup) :
    Kept env s s' ↔ (copies = true ∨ s.backup = s.file ∨
        Covered s.file fun id => (bundledEntry env id).isSome = true) ∧
      ∀ id entry raw, entryOf s.file id = some entry → bundledEntry env id = some raw →
        sourceOf env entry = sourceOf env raw →
          ∀ field ∈ accessFields, raw.lookup field = entry.lookup field := by
  have hget (id : Str) : (env.bundled.items.foldl (addBundled env) Dict.empty).get? id =
      (bundledEntry env id).map fun raw => .obj (rebasedEntry env id raw) := by
    rw [get?_addBundled _ env.bundled.nodup]
    show (none : Option JsonValue).or _ = _
    rw [Option.none_or]
    rfl
  have hentries : HasEntry s'.file = fun id => (bundledEntry env id).isSome = true := by
    funext id
    apply propext
    rw [HasEntry, hfile]
    constructor
    · rintro ⟨entries, heq, hsome⟩
      obtain rfl := FileText.object.inj (Option.some.inj heq)
      rwa [hget, Option.isSome_map] at hsome
    · intro hsome
      refine ⟨_, rfl, ?_⟩
      rwa [hget, Option.isSome_map]
  have hentry (id : Str) :
      entryOf s'.file id = (bundledEntry env id).map (rebasedEntry env id) := by
    rw [hfile]
    show ((env.bundled.items.foldl (addBundled env) Dict.empty).get? id).bind objectFields = _
    rw [hget]
    cases bundledEntry env id <;> rfl
  apply and_congr
  · rw [EntriesKept, hentries, hbackup]
    constructor
    · rintro (h | h | h)
      · refine .inr (.inr ?_)
        rw [← h, ← hentries, hfile]
        intro id hsome
        exact ⟨_, rfl, hsome⟩
      · cases copies with
        | true => exact .inl rfl
        | false => exact .inr (.inl h)
      · exact .inr (.inr h)
    · rintro (rfl | h | h)
      · exact .inr (.inl rfl)
      · refine .inr (.inl ?_)
        cases copies with
        | true => rfl
        | false => exact h
      · exact .inr (.inr h)
  · constructor
    · intro h id entry raw hold hraw hsame field hfield
      have hnew : entryOf s'.file id = some (rebasedEntry env id raw) := by
        rw [hentry, hraw]
        rfl
      rw [← accessFields_rebasedEntry hfield]
      exact h id entry _ hold hnew (by rw [hsame, sourceOf_rebasedEntry]) field hfield
    · intro h id entry entry' hold hnew hsame field hfield
      rw [hentry] at hnew
      obtain ⟨raw, hraw, rfl⟩ := Option.map_eq_some_iff.mp hnew
      rw [sourceOf_rebasedEntry] at hsame
      rw [accessFields_rebasedEntry hfield]
      exact h id entry raw hold hraw hsame field hfield

/-- **One start.** -/
theorem materialize_kept_iff (faults : MaterializeFaults) :
    Kept env s (materializeUserCatalog env s faults) ↔ materializeKeeps env s faults := by
  unfold materializeUserCatalog materializeKeeps
  by_cases hskip : (env.bundledIsUser || !faults.readsBundled) = true
  · rw [if_pos hskip]
    refine iff_of_true (kept_of_file_eq rfl) ?_
    intro hbundled hreads
    rw [hbundled, hreads] at hskip
    cases hskip
  rw [if_neg hskip]
  dsimp only
  rw [Bool.not_eq_true, Bool.or_eq_false_iff, Bool.not_eq_false'] at hskip
  rcases hexisting : existingEntries s.file faults.reads with - | existing
  · -- the file is not missing, so only a packaged entry makes a write
    have hfile : s.file.isNone = false := by
      cases hmissing : s.file with
      | none =>
        rw [hmissing] at hexisting
        cases hexisting
      | some text => rfl
    rw [hfile, Bool.false_or, Option.getD_none]
    by_cases hwrites : (addsBundled env Dict.empty && faults.replaces) = true
    · rw [if_pos hwrites]
      rw [Bool.and_eq_true] at hwrites
      have hbackup : (if (none : Option CatalogFile).isNone && faults.copies then s.file
          else s.backup) = if faults.copies then s.file else s.backup := rfl
      rw [replaced_kept_iff rfl hbackup]
      constructor
      · exact fun h _ _ _ _ _ => h
      · exact fun h => h hskip.1 hskip.2 hwrites.2 rfl hwrites.1
    · rw [if_neg hwrites]
      refine iff_of_true (kept_of_file_eq rfl) ?_
      intro _ _ hreplaces _ hadds
      rw [hreplaces, hadds] at hwrites
      exact absurd rfl hwrites
  · refine iff_of_true ?_ ?_
    · rw [Option.getD_some]
      split
      · exact merged_kept hexisting rfl
      · exact kept_of_file_eq rfl
    · intro _ _ _ hnone
      cases hnone

/-! ### One step -/

theorem file_save {save : SaveFaults} (t : State) (hfile : t.file = s.file) :
    ((saveCatalogWithAccessMetadata env t catalog save).getD t).file =
      if save.succeeds then some (.object (written env s.file catalog save.readsOld))
      else s.file := by
  rw [saveCatalogWithAccessMetadata]
  split
  · rw [hfile]
    rfl
  · exact hfile

theorem backup_save {save : SaveFaults} (t : State) (hbackup : t.backup = s.backup) :
    ((saveCatalogWithAccessMetadata env t catalog save).getD t).backup = s.backup := by
  rw [saveCatalogWithAccessMetadata]
  split <;> exact hbackup

theorem save_succeeds {save : SaveFaults} (h : save.succeeds = true) :
    saveCatalogWithAccessMetadata env s catalog save =
      some { s with file := some (.object (written env s.file catalog save.readsOld)) } :=
  if_pos h

theorem save_fails {save : SaveFaults} (h : save.succeeds = false) :
    saveCatalogWithAccessMetadata env s catalog save = none := by
  rw [saveCatalogWithAccessMetadata, h]
  rfl

/-- A save that succeeds, whatever is then in memory. -/
theorem saved_kept_iff {save : SaveFaults} (h : save.succeeds = true) (memory : Catalog) :
    Kept env s { s with
      file := some (.object (written env s.file catalog save.readsOld)), memory := memory } ↔
        saveKeeps env s catalog save := by
  apply save_kept_iff
  · rw [if_pos h]
  · rfl

theorem commit_kept_iff {save : SaveFaults} :
    Kept env s (commit env s catalog save) ↔ saveKeeps env s catalog save := by
  rw [commit]
  cases hsucceeds : save.succeeds with
  | true =>
    rw [save_succeeds hsucceeds]
    exact saved_kept_iff hsucceeds catalog
  | false =>
    rw [save_fails hsucceeds]
    refine iff_of_true (kept_of_file_eq rfl) ?_
    intro h
    rw [hsucceeds] at h
    cases h

theorem registerDesktop_kept_iff {req : RegisterRequest} {save : SaveFaults} :
    Kept env s (registerDesktop env s req save) ↔ ((s.memory.get? req.modelId).isSome = false →
      saveKeeps env s (s.memory.set req.modelId (registered env req)) save) := by
  rw [registerDesktop]
  cases hthere : (s.memory.get? req.modelId).isSome with
  | true =>
    refine iff_of_true (kept_of_file_eq rfl) ?_
    intro habsent
    cases habsent
  | false =>
    have hsaved : Kept env s ((saveCatalogWithAccessMetadata env
        { s with memory := s.memory.set req.modelId (registered env req) }
        (s.memory.set req.modelId (registered env req)) save).getD
          { s with memory := s.memory.set req.modelId (registered env req) }) ↔
        saveKeeps env s (s.memory.set req.modelId (registered env req)) save :=
      save_kept_iff (file_save _ rfl) (backup_save _ rfl)
    exact hsaved.trans ⟨fun h _ => h, fun h => h rfl⟩

/-- At most one of the two writes takes place. -/
theorem registerServer_kept_iff {req : RegisterRequest} {save restore : SaveFaults} :
    Kept env s (registerServer env s req save restore) ↔
      ((s.memory.get? req.modelId).isSome = false →
        saveKeeps env s (s.memory.set req.modelId (registered env req)) save) ∧
      ((s.memory.get? req.modelId).isSome = true ∨ save.succeeds = false →
        saveKeeps env s s.memory restore) := by
  have hrestored : Kept env s ((saveCatalogWithAccessMetadata env s s.memory restore).getD s) ↔
      saveKeeps env s s.memory restore :=
    save_kept_iff (file_save s rfl) (backup_save s rfl)
  rw [registerServer]
  cases hthere : (s.memory.get? req.modelId).isSome with
  | true =>
    show Kept env s ((saveCatalogWithAccessMetadata env s s.memory restore).getD s) ↔ _
    rw [hrestored]
    constructor
    · intro h
      refine ⟨?_, fun _ => h⟩
      intro habsent
      cases habsent
    · exact fun h => h.2 (.inl rfl)
  | false =>
    cases hsucceeds : save.succeeds with
    | true =>
      rw [if_neg Bool.false_ne_true]
      dsimp only
      rw [save_succeeds hsucceeds]
      dsimp only
      rw [saved_kept_iff hsucceeds]
      constructor
      · intro h
        refine ⟨fun _ => h, ?_⟩
        rintro (h | h) <;> cases h
      · exact fun h => h.1 rfl
    | false =>
      rw [if_neg Bool.false_ne_true]
      dsimp only
      rw [save_fails hsucceeds]
      dsimp only
      rw [hrestored]
      constructor
      · intro h
        refine ⟨?_, fun _ => h⟩
        intro _ hsaved
        rw [hsucceeds] at hsaved
        cases hsaved
      · exact fun h => h.2 (.inr rfl)

theorem register_kept_iff {req : RegisterRequest} {save restore : SaveFaults} :
    Kept env s (register env s req save restore) ↔ registerKeeps env s req save restore := by
  unfold register registerKeeps
  dsimp only
  split
  · exact registerDesktop_kept_iff
  · exact registerServer_kept_iff

theorem reload_file (reads : Bool) : (reload s reads).file = s.file := by
  rw [reload]
  split <;> rfl

/-- **One step.** It keeps the file exactly if it meets the condition. -/
theorem step_kept_iff {e : Event} (h : step env s e = some s') :
    Kept env s s' ↔ keepsFile env s e := by
  cases e with
  | materialize faults =>
    obtain rfl := Option.some.inj h
    exact materialize_kept_iff faults
  | load reads =>
    obtain rfl := Option.some.inj h
    exact iff_of_true (kept_of_file_eq (reload_file reads)) trivial
  | register req save restore =>
    obtain ⟨valid, hvalid, rfl⟩ := Option.map_eq_some_iff.mp h
    rw [register_kept_iff]
    constructor
    · intro hkeeps valid' hvalid'
      rw [hvalid] at hvalid'
      obtain rfl := Option.some.inj hvalid'
      exact hkeeps
    · exact fun hkeeps => hkeeps valid hvalid
  | configure modelId req limit save =>
    simp only [step] at h
    split at h
    · cases h
    next cfg hcfg =>
    split at h
    · cases h
    split at h
    · next hsame =>
      obtain rfl := Option.some.inj h
      refine iff_of_true (kept_of_file_eq rfl) ?_
      intro cfg' hcfg' hchanges
      rw [hcfg] at hcfg'
      obtain rfl := Option.some.inj hcfg'
      rw [hsame] at hchanges
      cases hchanges
    · next hchanges =>
      obtain rfl := Option.some.inj h
      rw [commit_kept_iff]
      constructor
      · rintro hkeeps cfg' hcfg' -
        rw [hcfg] at hcfg'
        obtain rfl := Option.some.inj hcfg'
        exact hkeeps
      · exact fun hkeeps => hkeeps cfg hcfg (Bool.not_eq_true _ |>.mp hchanges)
  | persist modelId weightFormat save =>
    obtain ⟨staged, hstaged, rfl⟩ := Option.map_eq_some_iff.mp h
    obtain ⟨cfg, hcfg, rfl⟩ := Option.map_eq_some_iff.mp hstaged
    rw [commit_kept_iff]
    constructor
    · intro hkeeps cfg' hcfg'
      rw [hcfg] at hcfg'
      obtain rfl := Option.some.inj hcfg'
      exact hkeeps
    · exact fun hkeeps => hkeeps cfg hcfg

/-! ### Runs -/

def serverEnvironment : Environment where
  bundled := Dict.empty
  pathName := id
  placed := id
  desktopCatalog := false
  bundledIsUser := true
  shown := fun _ => []

def registration (modelId : Str) : RegisterRequest where
  modelId := modelId
  name := modelId
  sourceModel := "org/model".toList

/-- A file with one model, before the first load. -/
def oneModel : State where
  file := some (.object (saveCatalog (Dict.empty.set "a".toList (registration "a".toList).config)))
  backup := none
  memory := Dict.empty

/-- The file cannot be read once; then a model is registered. -/
def failedRead : List Event :=
  [.load false, .register (registration "b".toList) { } { }]

end InferBridge.CatalogWrites
