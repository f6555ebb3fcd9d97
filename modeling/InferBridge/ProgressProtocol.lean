/-
InferBridge/ProgressProtocol.lean

The progress protocol of the converter (runtime/progress_protocol.py): the
record, its strict decoder, and the emitter, which decodes each record once
before it prints it.

A line of the stream is represented by the JSON value that it encodes.  The
reader may also fail on a line in the two ways of `DecodeError`.

Main results: `decode_asDict`, what the decoder makes of an event that meets
its conditions, and `emit_isOk_iff`, when the emitter accepts a record.
-/
import InferBridge.Catalog
import InferBridge.Lib.Accepted
import InferBridge.Lib.Binary64

namespace InferBridge

open Text

/-! ### Values -/

/-- A float: its value, an infinity, or no number. -/
inductive FloatValue where
  | finite (value : ℚ)
  | infinite (negative : Bool)
  | nan
deriving DecidableEq

/-- A decoded JSON value, with numbers as the host language reads them. -/
inductive WireValue where
  | null
  | bool (b : Bool)
  | int (n : Int)
  | float (x : FloatValue)
  | str (s : Str)
  | arr (items : List WireValue)
  | obj (fields : List (Str × WireValue))

/-- `payload.get`. -/
def WireValue.field (fields : List (Str × WireValue)) (key : String) : Option WireValue :=
  fields.lookup key.toList

/-- Exceptions of the protocol: `ValueError` with its message, `OverflowError`, and what the
JSON reader raises besides a decode error. -/
inductive ProtocolError where
  | valueError (message : String)
  | overflow
  | reader
deriving DecidableEq, Repr

/-- `float(n)`. -/
def floatOfInt (n : Int) : Except ProtocolError ℚ :=
  if 2 ^ Binary64.maxExponent ≤ |Binary64.round n| then .error .overflow
  else .ok (Binary64.round n)

/-! ### Events -/

inductive Phase where
  | queued
  | resolving
  | downloading
  | converting
  | finalizing
  | loading
  | ready
  | cancelled
  | error
deriving DecidableEq, Repr

def Phase.text : Phase → Str
  | .queued => "queued".toList
  | .resolving => "resolving".toList
  | .downloading => "downloading".toList
  | .converting => "converting".toList
  | .finalizing => "finalizing".toList
  | .loading => "loading".toList
  | .ready => "ready".toList
  | .cancelled => "cancelled".toList
  | .error => "error".toList

/-- `VALID_PHASES`. -/
def validPhases : List Phase :=
  [.queued, .resolving, .downloading, .converting, .finalizing, .loading, .ready, .cancelled,
    .error]

def Phase.ofText : Str → Option Phase := named validPhases Phase.text

def schemaVersion : Int := 1

def eventType : Str := "inferbridge.progress".toList

structure ProgressEvent where
  operationId : Str
  revision : Int
  phase : Phase
  message : Str
  percent : Option ℚ
  modelId : Option Str
  completed : Option Nat
  total : Option Nat
  timestamp : ℚ
deriving DecidableEq

def WireValue.ofOption {α : Type} (f : α → WireValue) : Option α → WireValue
  | none => .null
  | some a => f a

/-- `ProgressEvent.as_dict`. -/
def ProgressEvent.asDict (event : ProgressEvent) : WireValue :=
  .obj
    [("schema_version".toList, .int schemaVersion),
      ("type".toList, .str eventType),
      ("operation_id".toList, .str event.operationId),
      ("revision".toList, .int event.revision),
      ("phase".toList, .str event.phase.text),
      ("message".toList, .str event.message),
      ("percent".toList, .ofOption (fun q => .float (.finite q)) event.percent),
      ("model_id".toList, .ofOption .str event.modelId),
      ("completed".toList, .ofOption (fun n : Nat => .int n) event.completed),
      ("total".toList, .ofOption (fun n : Nat => .int n) event.total),
      ("timestamp".toList, .float (.finite event.timestamp))]

/-! ### The checks of the decoder -/

/-- A control character other than the tab. -/
def isControl (c : Char) : Bool := c.toNat < 32 ∧ c ≠ '\t'

/-- `_bounded_text`. -/
def boundedText (value : Option WireValue) (limit : Nat) : Option Str :=
  match value with
  | some (.str s) =>
    let text := strip isSpace s
    if text = [] ∨ limit < text.length ∨ text.any isControl then none else some text
  | _ => none

def isAsciiAlnum (c : Char) : Bool :=
  (48 ≤ c.toNat ∧ c.toNat ≤ 57) ∨ (65 ≤ c.toNat ∧ c.toNat ≤ 90) ∨ (97 ≤ c.toNat ∧ c.toNat ≤ 122)

/-- `_OPERATION_ID_RE.fullmatch`. -/
def operationIdMatches : Str → Bool
  | [] => false
  | c :: rest =>
    isAsciiAlnum c ∧ rest.length ≤ 127 ∧
      rest.all fun d => isAsciiAlnum d ∨ d ∈ ['.', '_', ':', '-']

/-- `_MODEL_ID_RE.fullmatch`. -/
def modelIdMatches (s : Str) : Bool :=
  1 ≤ s.length ∧ s.length ≤ 240 ∧ s.all fun c => 32 ≤ c.toNat ∧ c.toNat ≠ 127

/-- `payload.get("schema_version") != SCHEMA_VERSION`, with the equality of the host
language between numbers. -/
def isSchemaVersion : Option WireValue → Bool
  | some (.int n) => n = schemaVersion
  | some (.float (.finite q)) => q = 1
  | some (.bool b) => b
  | _ => false

def decodeOperationId (value : Option WireValue) : Except ProtocolError Str :=
  match boundedText value 128 with
  | some text =>
    if operationIdMatches text then .ok text
    else .error (.valueError "invalid progress operation id")
  | none => .error (.valueError "invalid progress operation id")

def decodeRevision (value : Option WireValue) : Except ProtocolError Int :=
  match value with
  | some (.int n) =>
    if n < 1 then .error (.valueError "progress revision must be a positive integer") else .ok n
  | _ => .error (.valueError "progress revision must be a positive integer")

def decodePhase (value : Option WireValue) : Except ProtocolError Phase :=
  match (boundedText value 32).bind Phase.ofText with
  | some phase => .ok phase
  | none => .error (.valueError "invalid progress phase")

def decodeMessage (value : Option WireValue) : Except ProtocolError Str :=
  match boundedText value 500 with
  | some text => .ok text
  | none => .error (.valueError "invalid progress message")

def decodeModelId (value : Option WireValue) : Except ProtocolError (Option Str) :=
  match value with
  | none | some .null => .ok none
  | value =>
    match boundedText value 240 with
    | some text =>
      if modelIdMatches text then .ok (some text)
      else .error (.valueError "invalid progress model id")
    | none => .error (.valueError "invalid progress model id")

/-- `_optional_count`. -/
def optionalCount (value : Option WireValue) : Except ProtocolError (Option Nat) :=
  match value with
  | none | some .null => .ok none
  | some (.int n) =>
    if n < 0 then .error (.valueError "progress counts must be non-negative integers")
    else .ok (some n.toNat)
  | _ => .error (.valueError "progress counts must be non-negative integers")

def exceeds : Option Nat → Option Nat → Bool
  | some completed, some total => total < completed
  | _, _ => false

def checkCounts (completed total : Option Nat) : Except ProtocolError Unit :=
  if exceeds completed total then
    .error (.valueError "progress completed count exceeds total")
  else .ok ()

/-- `float(value)` of a number. -/
def numberValue : WireValue → Except ProtocolError (Option FloatValue)
  | .int n => (floatOfInt n).map fun q => some (.finite q)
  | .float x => .ok (some x)
  | _ => .ok none

def decodeTimestamp (value : Option WireValue) : Except ProtocolError ℚ := do
  match ← numberValue (value.getD .null) with
  | some (.finite q) =>
    if q ≤ 0 then .error (.valueError "invalid progress timestamp") else .ok q
  | _ => .error (.valueError "invalid progress timestamp")

/-- `_optional_percent`. -/
def optionalPercent (value : Option WireValue) : Except ProtocolError (Option ℚ) :=
  match value with
  | none | some .null => .ok none
  | some value => do
    match ← numberValue value with
    | some (.finite q) =>
      if 0 ≤ q ∧ q ≤ 100 then .ok (some q)
      else .error (.valueError "progress percent must be between 0 and 100")
    | some _ => .error (.valueError "progress percent must be between 0 and 100")
    | none => .error (.valueError "progress percent must be numeric")

/-- The fields of a record that claims to be an event, in the order of their checks. -/
def decodeFields (fields : List (Str × WireValue)) : Except ProtocolError ProgressEvent := do
  if ¬ isSchemaVersion (WireValue.field fields "schema_version") then
    .error (.valueError "unsupported progress schema version")
  else do
    let operationId ← decodeOperationId (WireValue.field fields "operation_id")
    let revision ← decodeRevision (WireValue.field fields "revision")
    let phase ← decodePhase (WireValue.field fields "phase")
    let message ← decodeMessage (WireValue.field fields "message")
    let modelId ← decodeModelId (WireValue.field fields "model_id")
    let completed ← optionalCount (WireValue.field fields "completed")
    let total ← optionalCount (WireValue.field fields "total")
    checkCounts completed total
    let timestamp ← decodeTimestamp (WireValue.field fields "timestamp")
    let percent ← optionalPercent (WireValue.field fields "percent")
    .ok { operationId, revision, phase, message, percent, modelId, completed, total, timestamp }

/-- `decode_progress_event`, from what the JSON reader makes of the line. -/
def decodeProgressEvent :
    Except DecodeError WireValue → Except ProtocolError (Option ProgressEvent)
  | .error .invalid => .ok none
  | .error .uncaught => .error .reader
  | .ok (.obj fields) =>
    match WireValue.field fields "type" with
    | some (.str s) => if s = eventType then (decodeFields fields).map some else .ok none
    | _ => .ok none
  | .ok _ => .ok none

/-! ### The emitter -/

/-- `_normalize_emitted_message`. -/
def normalizeEmittedMessage (value : Str) : Except ProtocolError Str :=
  let withoutControls := value.map fun c => if c.toNat < 32 ∨ c.toNat = 127 then ' ' else c
  let message := Text.normalize isSpace ' ' withoutControls
  if message = [] then .error (.valueError "invalid progress message") else .ok (message.take 500)

/-- `ProgressEventEmitter`; its two identifiers have passed the checks of `__init__`. -/
structure ProgressEventEmitter where
  operationId : Str
  modelId : Option Str
  stream : List WireValue
  revision : Nat
  operationId_matches : operationIdMatches operationId = true
  modelId_matches : ∀ m ∈ modelId, modelIdMatches m = true

/-- The event that `emit` builds from a normalised message. -/
def ProgressEventEmitter.event (emitter : ProgressEventEmitter) (phase : Phase) (message : Str)
    (percent : Option ℚ) (completed total : Option Nat) (time : ℚ) : ProgressEvent :=
  { operationId := emitter.operationId
    revision := emitter.revision + 1
    phase := phase
    message := message
    percent := percent
    modelId := emitter.modelId
    completed := completed
    total := total
    timestamp := time }

/-- `ProgressEventEmitter.emit`, at the time `time`. -/
def ProgressEventEmitter.emit (emitter : ProgressEventEmitter) (phase : Phase) (message : Str)
    (percent : Option ℚ) (completed total : Option Nat) (time : ℚ) :
    Except ProtocolError ProgressEventEmitter := do
  let message ← normalizeEmittedMessage message
  let record := (emitter.event phase message percent completed total time).asDict
  let _ ← decodeProgressEvent (.ok record)
  .ok { emitter with stream := emitter.stream ++ [record], revision := emitter.revision + 1 }

/-! ### What the decoder makes of a record of the emitter -/

open Accepted

/-- The fields of a record, found where the decoder looks for them. -/
theorem decodeProgressEvent_asDict (event : ProgressEvent) :
    decodeProgressEvent (.ok event.asDict) = (do
      let operationId ← decodeOperationId (some (.str event.operationId))
      let revision ← decodeRevision (some (.int event.revision))
      let phase ← decodePhase (some (.str event.phase.text))
      let message ← decodeMessage (some (.str event.message))
      let modelId ← decodeModelId (some (.ofOption .str event.modelId))
      let completed ← optionalCount (some (.ofOption (fun n : Nat => .int n) event.completed))
      let total ← optionalCount (some (.ofOption (fun n : Nat => .int n) event.total))
      checkCounts completed total
      let timestamp ← decodeTimestamp (some (.float (.finite event.timestamp)))
      let percent ← optionalPercent (some (.ofOption (fun q => .float (.finite q)) event.percent))
      .ok { operationId, revision, phase, message, percent, modelId, completed, total,
            timestamp : ProgressEvent }).map some := rfl

theorem isSpace_of_isAsciiAlnum {c : Char} (h : isAsciiAlnum c = true) : isSpace c = false := by
  simp only [isAsciiAlnum, isSpace, decide_eq_true_eq, decide_eq_false_iff_not] at *
  omega

/-- An operation id is a text without white space or control characters. -/
theorem plain_of_operationIdMatches {s : Str} (h : operationIdMatches s = true) :
    ∀ c ∈ s, isSpace c = false ∧ isControl c = false := by
  have halnum : ∀ c, isAsciiAlnum c = true → isSpace c = false ∧ isControl c = false := by
    intro c hc
    refine ⟨isSpace_of_isAsciiAlnum hc, ?_⟩
    simp only [isAsciiAlnum, isControl, decide_eq_true_eq, decide_eq_false_iff_not] at *
    omega
  cases s with
  | nil => cases h
  | cons c rest =>
    simp only [operationIdMatches, decide_eq_true_eq, List.all_eq_true] at h
    obtain ⟨hc, -, hrest⟩ := h
    intro d hd
    rcases List.mem_cons.mp hd with rfl | hd
    · exact halnum d hc
    · rcases hrest d hd with hd | hd
      · exact halnum d hd
      · simp only [List.mem_cons, List.not_mem_nil, or_false] at hd
        rcases hd with rfl | rfl | rfl | rfl
        · exact ⟨rfl, rfl⟩
        · exact ⟨rfl, rfl⟩
        · exact ⟨rfl, rfl⟩
        · exact ⟨rfl, rfl⟩

theorem decodeOperationId_of_matches {s : Str} (h : operationIdMatches s = true) :
    decodeOperationId (some (.str s)) = .ok s := by
  have hplain := plain_of_operationIdMatches h
  have hstrip : strip isSpace s = s :=
    strip_eq_self (fun hs => (hplain _ (List.head_mem hs)).1)
      (fun hs => (hplain _ (List.getLast_mem hs)).1)
  have hlength : s ≠ [] ∧ s.length ≤ 128 := by
    cases s with
    | nil => cases h
    | cons c rest =>
      simp only [operationIdMatches, decide_eq_true_eq] at h
      exact ⟨List.cons_ne_nil c rest, Nat.succ_le_succ h.2.1⟩
  have hcontrol : s.any isControl = false := by
    rw [List.any_eq_false]
    intro c hc
    simp [(hplain c hc).2]
  have hbounded : boundedText (some (.str s)) 128 = some s := by
    show (if _ then _ else _) = _
    rw [hstrip, if_neg]
    rintro (hnil | hlong | hany)
    · exact hlength.1 hnil
    · omega
    · rw [hcontrol] at hany
      cases hany
  rw [decodeOperationId, hbounded]
  exact if_pos h

theorem decodePhase_text (phase : Phase) : decodePhase (some (.str phase.text)) = .ok phase := by
  cases phase <;> rfl

/-- A model id of the emitter is decoded unless it is blank. -/
theorem decodeModelId_of_matches {modelId : Option Str}
    (h : ∀ m ∈ modelId, modelIdMatches m = true) :
    decodeModelId (some (.ofOption .str modelId)) =
      if ∃ m ∈ modelId, strip isSpace m = [] then
        .error (.valueError "invalid progress model id")
      else .ok (modelId.map (strip isSpace)) := by
  cases modelId with
  | none => simp [WireValue.ofOption, decodeModelId]
  | some m =>
    have hm := h m rfl
    simp only [modelIdMatches, decide_eq_true_eq, List.all_eq_true] at hm
    obtain ⟨-, hlength, hchars⟩ := hm
    have hpart := strip_isInfix isSpace m
    have hshort : (strip isSpace m).length ≤ 240 := hpart.length_le.trans hlength
    have hstripped : ∀ c ∈ strip isSpace m, 32 ≤ c.toNat ∧ c.toNat ≠ 127 :=
      fun c hc => hchars c (hpart.subset hc)
    have hcontrol : (strip isSpace m).any isControl = false := by
      rw [List.any_eq_false]
      intro c hc
      simp only [isControl, decide_eq_true_eq]
      have := hstripped c hc
      omega
    by_cases hblank : strip isSpace m = []
    · have hbounded : boundedText (some (.str m)) 240 = none := if_pos (.inl hblank)
      rw [if_pos ⟨m, rfl, hblank⟩]
      show (match boundedText (some (.str m)) 240 with | some _ => _ | none => _) = _
      rw [hbounded]
    · have hbounded : boundedText (some (.str m)) 240 = some (strip isSpace m) := by
        apply if_neg
        rintro (hnil | hlong | hany)
        · exact hblank hnil
        · omega
        · rw [hcontrol] at hany
          cases hany
      have hmatches : modelIdMatches (strip isSpace m) = true := by
        simp only [modelIdMatches, decide_eq_true_eq, List.all_eq_true]
        exact ⟨List.length_pos_iff.mpr hblank, hshort, hstripped⟩
      rw [if_neg (by simpa using hblank)]
      show (match boundedText (some (.str m)) 240 with | some _ => _ | none => _) = _
      rw [hbounded]
      exact if_pos hmatches

theorem optionalCount_ofOption (count : Option Nat) :
    optionalCount (some (.ofOption (fun n : Nat => .int n) count)) = .ok count := by
  cases count with
  | none => rfl
  | some n =>
    have hnonneg : ¬ (n : Int) < 0 := Int.not_lt.mpr (Int.natCast_nonneg n)
    rw [WireValue.ofOption, optionalCount, if_neg hnonneg, Int.toNat_natCast]

theorem checkCounts_isOk {completed total : Option Nat} :
    checkCounts completed total = .ok () ↔ exceeds completed total = false := by
  rw [checkCounts]
  cases exceeds completed total <;> simp

theorem decodeTimestamp_eq_ok {time q : ℚ} :
    decodeTimestamp (some (.float (.finite time))) = .ok q ↔ 0 < time ∧ q = time := by
  show (if time ≤ 0 then _ else _) = _ ↔ _
  split
  · next h =>
    constructor
    · intro hok
      cases hok
    · rintro ⟨hpos, -⟩
      exact absurd hpos (not_lt.mpr h)
  · next h =>
    constructor
    · intro hok
      cases hok
      exact ⟨not_le.mp h, rfl⟩
    · rintro ⟨-, rfl⟩
      rfl

theorem optionalPercent_eq_ok {percent result : Option ℚ} :
    optionalPercent (some (.ofOption (fun q => .float (.finite q)) percent)) = .ok result ↔
      (∀ q ∈ percent, 0 ≤ q ∧ q ≤ 100) ∧ result = percent := by
  cases percent with
  | none =>
    show Except.ok none = Except.ok result ↔ _
    simp [eq_comm]
  | some q =>
    show (if 0 ≤ q ∧ q ≤ 100 then _ else _) = _ ↔ _
    split
    · next h =>
      simp [h, eq_comm]
    · next h =>
      simp [h]

/-- **When the decoder accepts an event of the emitter**, and what it makes of it: the event
with its message and model id stripped. -/
theorem decodeProgressEvent_event (emitter : ProgressEventEmitter) (phase : Phase)
    {message text : Str} (htext : boundedText (some (.str message)) 500 = some text)
    (percent : Option ℚ) (completed total : Option Nat) (time : ℚ) (result : Option ProgressEvent) :
    decodeProgressEvent
        (.ok (emitter.event phase message percent completed total time).asDict) = .ok result ↔
      ((∀ m ∈ emitter.modelId, strip isSpace m ≠ []) ∧ exceeds completed total = false ∧
        0 < time ∧ ∀ q ∈ percent, 0 ≤ q ∧ q ≤ 100) ∧
      result = some { emitter.event phase text percent completed total time with
        modelId := emitter.modelId.map (strip isSpace) } := by
  have hrevision : decodeRevision (some (.int (emitter.revision + 1))) =
      .ok (emitter.revision + 1 : Int) := by
    have hpositive : ¬ (emitter.revision + 1 : Int) < 1 := by omega
    rw [decodeRevision, if_neg hpositive]
  have hmessage : decodeMessage (some (.str message)) = .ok text := by
    rw [decodeMessage, htext]
  have hmap : ∀ x : Except ProtocolError ProgressEvent, x.map some = .ok result ↔
      ∃ event, x = .ok event ∧ result = some event := by
    rintro (e | event) <;> simp [Except.map, eq_comm]
  rw [decodeProgressEvent_asDict, hmap]
  -- the checks that cannot fail, then the four that can
  simp only [ProgressEventEmitter.event, bind_eq_ok, hrevision, hmessage, decodePhase_text,
    decodeOperationId_of_matches emitter.operationId_matches, optionalCount_ofOption,
    Except.ok.injEq, exists_eq_left', decodeTimestamp_eq_ok, optionalPercent_eq_ok]
  rw [decodeModelId_of_matches emitter.modelId_matches]
  constructor
  · rintro ⟨event, ⟨modelId, hmodel, ⟨⟩, hcounts, timestamp, ⟨htime, rfl⟩, percent', ⟨hpercent, rfl⟩,
      rfl⟩, rfl⟩
    split at hmodel
    · cases hmodel
    · next hblank =>
      cases hmodel
      refine ⟨⟨?_, checkCounts_isOk.mp hcounts, htime, hpercent⟩, rfl⟩
      intro m hm hstrip
      exact hblank ⟨m, hm, hstrip⟩
  · rintro ⟨⟨hmodel, hcounts, htime, hpercent⟩, rfl⟩
    refine ⟨_, ⟨_, if_neg ?_, (), checkCounts_isOk.mpr hcounts, _, ⟨htime, rfl⟩, _,
      ⟨hpercent, rfl⟩, rfl⟩, rfl⟩
    rintro ⟨m, hm, hstrip⟩
    exact hmodel m hm hstrip

/-! ### What the emitter accepts -/

/-- A message that the emitter normalised passes the check of the decoder. -/
theorem boundedText_of_normalizeEmittedMessage {value message : Str}
    (h : normalizeEmittedMessage value = .ok message) :
    ∃ text, boundedText (some (.str message)) 500 = some text := by
  rw [normalizeEmittedMessage] at h
  generalize hclean : (value.map fun c => if c.toNat < 32 ∨ c.toNat = 127 then ' ' else c) =
    clean at h
  split at h
  · cases h
  · next hne =>
    obtain rfl := Except.ok.inj h
    have hcontrol : ∀ c ∈ Text.normalize isSpace ' ' clean, isControl c = false := by
      intro c hc
      rcases eq_or_mem_of_mem_squeeze ((strip_isInfix isSpace _).subset hc) with rfl | hc
      · rfl
      · rw [← hclean] at hc
        obtain ⟨d, -, rfl⟩ := List.mem_map.mp hc
        split
        · rfl
        · next hd =>
          simp only [isControl, decide_eq_false_iff_not]
          omega
    have hpart := strip_isInfix isSpace ((Text.normalize isSpace ' ' clean).take 500)
    refine ⟨_, if_neg ?_⟩
    rintro (hnil | hlong | hany)
    · -- the message begins with a symbol that is no space
      have hhead := strip_head (squeeze isSpace ' ' false clean) hne
      obtain ⟨c, rest, hcons⟩ := List.exists_cons_of_ne_nil hne
      have hspace := strip_eq_nil_iff.mp hnil c (by rw [hcons]; exact List.mem_cons_self)
      rw [Text.normalize] at hcons
      simp [hcons, hspace] at hhead
    · have hshort := hpart.length_le
      rw [List.length_take] at hshort
      omega
    · obtain ⟨c, hc, hcc⟩ := List.any_eq_true.mp hany
      rw [hcontrol c (List.mem_of_mem_take (hpart.subset hc))] at hcc
      cases hcc

/-- **What the emitter accepts**: a message with something in it, a model id that is not
blank, ordered counts, a time after the epoch and a percentage; then it prints one record, and
the decoder reads the event from it. -/
theorem ProgressEventEmitter.emit_eq_ok {emitter emitter' : ProgressEventEmitter} {phase : Phase}
    {value : Str} {percent : Option ℚ} {completed total : Option Nat} {time : ℚ} :
    emitter.emit phase value percent completed total time = .ok emitter' ↔
      ∃ message, normalizeEmittedMessage value = .ok message ∧
        ((∀ m ∈ emitter.modelId, strip isSpace m ≠ []) ∧ exceeds completed total = false ∧
          0 < time ∧ ∀ q ∈ percent, 0 ≤ q ∧ q ≤ 100) ∧
        emitter' = { emitter with
          stream := emitter.stream ++
            [(emitter.event phase message percent completed total time).asDict]
          revision := emitter.revision + 1 } := by
  rw [emit, bind_eq_ok]
  refine exists_congr fun message => and_congr_right fun hmessage => ?_
  obtain ⟨text, htext⟩ := boundedText_of_normalizeEmittedMessage hmessage
  dsimp only
  rw [bind_eq_ok]
  constructor
  · rintro ⟨result, hresult, hok⟩
    obtain ⟨hvalid, -⟩ := (decodeProgressEvent_event _ _ htext _ _ _ _ _).mp hresult
    exact ⟨hvalid, (Except.ok.inj hok).symm⟩
  · rintro ⟨hvalid, rfl⟩
    exact ⟨_, (decodeProgressEvent_event _ _ htext _ _ _ _ _).mpr ⟨hvalid, rfl⟩, rfl⟩

end InferBridge
