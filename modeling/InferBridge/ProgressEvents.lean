/-
InferBridge/ProgressEvents.lean

The events that a `ProgressEventEmitter` returns and the lines that it
writes for them (runtime/progress_protocol.py), for arguments of any kind.

Design.  A line is text here.  The writer and the reader of JSON are those of
the host language: what is written is read back, and it is one line
(`LineCodec`).  Printing does not fail.

The emitter decodes each record before it prints it, but only to see whether
that fails.  The decoder strips the phase, the message and the model id, so
the event it reads may differ from the one that is returned: the message is
cut after the emitter has normalised it, and may then end with a blank
(`CutAtBlank`); the phase and the model id are written as they were given.

Main results: `emit_survives_iff` for one call, `progress_events_iff` for a
run of calls.
-/
import InferBridge.ProgressProtocol

namespace InferBridge.ProgressEvents

open Text Accepted

/-! ### Lines -/

/-- `json.dumps` and `json.loads`; `dumps` gives nothing where it raises. -/
structure LineCodec where
  dumps : WireValue → Option Str
  loads : Str → Except DecodeError WireValue
  loads_dumps : ∀ {value line}, dumps value = some line → loads line = .ok value
  dumps_line : ∀ {value line}, dumps value = some line → '\n' ∉ line

/-- An argument of `emit`: a value that JSON has, or another object. -/
inductive Argument where
  | json (value : WireValue)
  | other

/-- The number that an argument is equal to. -/
def Argument.number : Argument → Option ℚ
  | .json (.bool b) => some (if b then 1 else 0)
  | .json (.int n) => some n
  | .json (.float (.finite q)) => some q
  | _ => none

/-- Equality with an optional number of a decoded event. -/
def Argument.Equals (a : Argument) : Option ℚ → Prop
  | none => a = .json .null
  | some q => a.number = some q

/-! ### The emitter -/

/-- The arguments of one call, and the time at which it is made. -/
structure EmitCall where
  phase : Argument
  message : Argument
  percent : Argument
  completed : Argument
  total : Argument
  time : FloatValue

/-- The event that `emit` builds and returns. -/
structure EmittedEvent where
  operationId : Str
  revision : Nat
  phase : Argument
  message : Str
  percent : Argument
  modelId : Option Str
  completed : Argument
  total : Argument
  timestamp : FloatValue

/-- `ProgressEvent.as_dict`, if JSON has its values. -/
def EmittedEvent.asDict (event : EmittedEvent) : Option WireValue :=
  match event.phase, event.percent, event.completed, event.total with
  | .json phase, .json percent, .json completed, .json total =>
    some (.obj
      [("schema_version".toList, .int schemaVersion),
        ("type".toList, .str eventType),
        ("operation_id".toList, .str event.operationId),
        ("revision".toList, .int event.revision),
        ("phase".toList, phase),
        ("message".toList, .str event.message),
        ("percent".toList, percent),
        ("model_id".toList, .ofOption .str event.modelId),
        ("completed".toList, completed),
        ("total".toList, total),
        ("timestamp".toList, .float event.timestamp)])
  | _, _, _, _ => none

/-- Equality of the two kinds of event. -/
structure EmittedEvent.Equals (event : EmittedEvent) (decoded : ProgressEvent) : Prop where
  operationId : event.operationId = decoded.operationId
  revision : (event.revision : Int) = decoded.revision
  phase : event.phase = .json (.str decoded.phase.text)
  message : event.message = decoded.message
  percent : event.percent.Equals decoded.percent
  modelId : event.modelId = decoded.modelId
  completed : event.completed.Equals (decoded.completed.map fun n => (n : ℚ))
  total : event.total.Equals (decoded.total.map fun n => (n : ℚ))
  timestamp : event.timestamp = .finite decoded.timestamp

/-- The two identifiers, which have passed the checks of `__init__`. -/
structure Identity where
  operationId : Str
  modelId : Option Str
  operationId_matches : operationIdMatches operationId = true
  modelId_matches : ∀ m ∈ modelId, modelIdMatches m = true

/-- `ProgressEventEmitter`, with the text that it has printed. -/
structure ProgressEventEmitter extends Identity where
  stream : Str
  revision : Nat

def ProgressEventEmitter.start (identity : Identity) : ProgressEventEmitter :=
  { identity with stream := [], revision := 0 }

/-- `__init__`; `hex` are the digits of a new identifier. -/
def ProgressEventEmitter.init (operationId : Option Str) (hex : Str) (modelId : Option Str) :
    Except ProtocolError ProgressEventEmitter :=
  let candidate := (operationId.filter fun id => id ≠ []).getD ("converter-".toList ++ hex)
  if hcandidate : operationIdMatches candidate = true then
    if hmodel : ∀ m ∈ modelId, modelIdMatches m = true then
      .ok (.start ⟨candidate, modelId, hcandidate, hmodel⟩)
    else .error (.valueError "invalid progress model id")
  else .error (.valueError "invalid progress operation id")

theorem ProgressEventEmitter.start_of_init {operationId : Option Str} {hex : Str}
    {modelId : Option Str} {s : ProgressEventEmitter} (h : init operationId hex modelId = .ok s) :
    ∃ identity, s = .start identity := by
  rw [init] at h
  split at h
  · split at h
    · exact ⟨_, (Except.ok.inj h).symm⟩
    · cases h
  · cases h

inductive EmitError where
  | protocol (error : ProtocolError)
  | unserializable

/-- `_normalize_emitted_message`. -/
def normalizeMessage : Argument → Except ProtocolError Str
  | .json (.str s) => normalizeEmittedMessage s
  | _ => .error (.valueError "invalid progress message")

section
variable (codec : LineCodec)

/-- `json.dumps(event.as_dict())`. -/
def encode (event : EmittedEvent) : Option Str := event.asDict.bind codec.dumps

def ProgressEventEmitter.event (s : ProgressEventEmitter) (call : EmitCall) (message : Str) :
    EmittedEvent :=
  { operationId := s.operationId
    revision := s.revision + 1
    phase := call.phase
    message := message
    percent := call.percent
    modelId := s.modelId
    completed := call.completed
    total := call.total
    timestamp := call.time }

/-- `emit` up to the point where it prints: the event and its line. -/
def checkedEvent (s : ProgressEventEmitter) (call : EmitCall) :
    Except EmitError (EmittedEvent × Str) := do
  let message ← (normalizeMessage call.message).mapError .protocol
  let event := s.event call message
  match encode codec event with
  | none => .error .unserializable
  | some encoded => do
    let _ ← (decodeProgressEvent (codec.loads encoded)).mapError .protocol
    .ok (event, encoded)

/-- `emit`: what it returns or raises, and the emitter after it. -/
def emit (s : ProgressEventEmitter) (call : EmitCall) :
    Except EmitError EmittedEvent × ProgressEventEmitter :=
  match checkedEvent codec s call with
  | .error error => (.error error, s)
  | .ok (event, encoded) =>
    (.ok event, { s with stream := s.stream ++ encoded ++ ['\n'], revision := s.revision + 1 })

/-- The emitter after some calls. -/
def after (s : ProgressEventEmitter) (calls : List EmitCall) : ProgressEventEmitter :=
  calls.foldl (fun s call => (emit codec s call).2) s

/-- The events that some calls return. -/
def events : ProgressEventEmitter → List EmitCall → List EmittedEvent
  | _, [] => []
  | s, call :: calls =>
    (emit codec s call).1.toOption.toList ++ events (emit codec s call).2 calls

/-! ### What a call should do -/

/-- The line is one line, and the event is read from it. -/
structure Records (line : Str) (event : EmittedEvent) : Prop where
  single : '\n' ∉ line
  decodes : ∃ decoded, decodeProgressEvent (codec.loads line) = .ok (some decoded) ∧
    event.Equals decoded

/-- A call that returns writes one line, which records the event with the next revision; a call
that raises does nothing. -/
def CallSurvives (s : ProgressEventEmitter) (call : EmitCall) : Prop :=
  (∀ event, (emit codec s call).1 = .ok event →
    ∃ line, (emit codec s call).2.stream = s.stream ++ line ++ ['\n'] ∧
      Records codec line event ∧ event.revision = s.revision + 1 ∧
        (emit codec s call).2.revision = s.revision + 1) ∧
  ∀ error, (emit codec s call).1 = .error error → (emit codec s call).2 = s

/-- A normalised message that is cut behind a blank. -/
def CutAtBlank (message : Str) : Prop := 500 < message.length ∧ message[499]? = some ' '

/-- `_normalize_emitted_message` before the cut. -/
def normalForm (value : Str) : Str :=
  Text.normalize isSpace ' ' (value.map fun c => if c.toNat < 32 ∨ c.toNat = 127 then ' ' else c)

/-- The decoder leaves the texts of the call alone. -/
structure Verbatim (s : ProgressEventEmitter) (call : EmitCall) : Prop where
  phase : ∀ t, call.phase = .json (.str t) → strip isSpace t = t
  modelId : ∀ m ∈ s.modelId, strip isSpace m = m
  message : ∀ t, call.message = .json (.str t) → ¬ CutAtBlank (normalForm t)

/-- The call passes the checks. -/
structure Accepts (s : ProgressEventEmitter) (call : EmitCall) : Prop where
  message : ∃ m, normalizeMessage call.message = .ok m
  written : ∀ m, normalizeMessage call.message = .ok m → (encode codec (s.event call m)).isSome
  phase : ∃ t phase, call.phase = .json (.str t) ∧ decodePhase (some (.str t)) = .ok phase
  modelId : ∀ m ∈ s.modelId, strip isSpace m ≠ []
  counts : ∃ c t completed total, call.completed = .json c ∧ call.total = .json t ∧
    optionalCount (some c) = .ok completed ∧ optionalCount (some t) = .ok total ∧
      exceeds completed total = false
  percent : ∃ p percent, call.percent = .json p ∧ optionalPercent (some p) = .ok percent
  time : ∃ q, call.time = .finite q ∧ 0 < q

end

/-! ### What the decoder makes of a record -/

theorem boundedText_eq_some {value : WireValue} {limit : Nat} {text : Str}
    (h : boundedText (some value) limit = some text) :
    ∃ t, value = .str t ∧ text = strip isSpace t := by
  cases value with
  | str t =>
    refine ⟨t, rfl, ?_⟩
    have h' : (if strip isSpace t = [] ∨ limit < (strip isSpace t).length ∨
        (strip isSpace t).any isControl then none else some (strip isSpace t)) = some text := h
    split at h'
    · cases h'
    · exact (Option.some.inj h').symm
  | _ => cases h

theorem decodePhase_eq_ok {value : WireValue} {phase : Phase}
    (h : decodePhase (some value) = .ok phase) :
    ∃ t, value = .str t ∧ strip isSpace t = phase.text := by
  rw [decodePhase] at h
  split at h
  · next phase' hphase =>
    cases h
    obtain ⟨text, htext, hnamed⟩ := Option.bind_eq_some_iff.mp hphase
    obtain ⟨t, rfl, rfl⟩ := boundedText_eq_some htext
    have hfound : validPhases.find? (fun v => v.text = strip isSpace t) = some phase := hnamed
    have hname : phase.text = strip isSpace t := by simpa using List.find?_some hfound
    exact ⟨t, rfl, hname.symm⟩
  · cases h

theorem decodeMessage_of_normalize {a : Argument} {message : Str}
    (h : normalizeMessage a = .ok message) :
    decodeMessage (some (.str message)) = .ok (strip isSpace message) := by
  obtain ⟨t, rfl⟩ : ∃ t, a = .json (.str t) := by
    rcases a with (_ | _ | _ | _ | t | _ | _) | _
    all_goals first | exact ⟨_, rfl⟩ | cases h
  obtain ⟨text, htext⟩ := boundedText_of_normalizeEmittedMessage h
  obtain ⟨t', ht', rfl⟩ := boundedText_eq_some htext
  cases ht'
  rw [decodeMessage, htext]

theorem decodeTimestamp_float_eq_ok {x : FloatValue} {q : ℚ} :
    decodeTimestamp (some (.float x)) = .ok q ↔ x = .finite q ∧ 0 < q := by
  rcases x with value | _ | _
  · rw [decodeTimestamp_eq_ok, FloatValue.finite.injEq]
    constructor
    · rintro ⟨hpos, rfl⟩
      exact ⟨rfl, hpos⟩
    · rintro ⟨rfl, hpos⟩
      exact ⟨hpos, rfl⟩
  · refine ⟨fun h => ?_, fun h => ?_⟩
    · cases h
    · cases h.1
  · refine ⟨fun h => ?_, fun h => ?_⟩
    · cases h
    · cases h.1

/-- What the decoder reads for a call with these values, if its checks pass. -/
def decodedEvent (s : ProgressEventEmitter) (message : Str) (phase : Phase)
    (completed total : Option Nat) (percent : Option ℚ) (time : ℚ) : ProgressEvent :=
  { operationId := s.operationId
    revision := s.revision + 1
    phase := phase
    message := strip isSpace message
    percent := percent
    modelId := s.modelId.map (strip isSpace)
    completed := completed
    total := total
    timestamp := time }

section
variable {codec : LineCodec} {s : ProgressEventEmitter} {call : EmitCall} {message : Str}
  {record p c t q : WireValue}

theorem asDict_eq_some (h : (s.event call message).asDict = some record) :
    ∃ p q c t, call.phase = .json p ∧ call.percent = .json q ∧ call.completed = .json c ∧
      call.total = .json t := by
  obtain ⟨phase, message', percent, completed, total, time⟩ := call
  cases phase with
  | other => cases h
  | json p =>
    cases percent with
    | other => cases h
    | json q =>
      cases completed with
      | other => cases h
      | json c =>
        cases total with
        | other => cases h
        | json t => exact ⟨p, q, c, t, rfl, rfl, rfl, rfl⟩

/-- **What the decoder reads from a record of the emitter.** -/
theorem decode_record (hmessage : normalizeMessage call.message = .ok message)
    (hrecord : (s.event call message).asDict = some record) (hp : call.phase = .json p)
    (hq : call.percent = .json q) (hc : call.completed = .json c) (ht : call.total = .json t)
    {result : Option ProgressEvent} :
    decodeProgressEvent (.ok record) = .ok result ↔
      ∃ phase completed total time percent,
        decodePhase (some p) = .ok phase ∧ (∀ m ∈ s.modelId, strip isSpace m ≠ []) ∧
        (optionalCount (some c) = .ok completed ∧ optionalCount (some t) = .ok total ∧
          exceeds completed total = false) ∧
        (call.time = .finite time ∧ 0 < time) ∧ optionalPercent (some q) = .ok percent ∧
        result = some (decodedEvent s message phase completed total percent time) := by
  have hfields : decodeProgressEvent (.ok record) = (do
      let operationId ← decodeOperationId (some (.str s.operationId))
      let revision ← decodeRevision (some (.int (s.revision + 1 : Nat)))
      let phase ← decodePhase (some p)
      let message ← decodeMessage (some (.str message))
      let modelId ← decodeModelId (some (.ofOption .str s.modelId))
      let completed ← optionalCount (some c)
      let total ← optionalCount (some t)
      checkCounts completed total
      let timestamp ← decodeTimestamp (some (.float call.time))
      let percent ← optionalPercent (some q)
      .ok { operationId, revision, phase, message, percent, modelId, completed, total,
            timestamp : ProgressEvent }).map some := by
    obtain ⟨phase, message', percent, completed, total, time⟩ := call
    cases hp
    cases hq
    cases hc
    cases ht
    obtain rfl := Option.some.inj hrecord
    rfl
  have hrevision : decodeRevision (some (.int (s.revision + 1 : Nat))) =
      .ok (s.revision + 1 : Int) := by
    have hpositive : ¬ ((s.revision + 1 : Nat) : Int) < 1 := by omega
    rw [decodeRevision, if_neg hpositive]
    rfl
  have hmap : ∀ x : Except ProtocolError ProgressEvent, x.map some = .ok result ↔
      ∃ event, x = .ok event ∧ result = some event := by
    rintro (e | event) <;> simp [Except.map, eq_comm]
  rw [hfields, hmap]
  simp only [bind_eq_ok, hrevision, decodeMessage_of_normalize hmessage,
    decodeOperationId_of_matches s.operationId_matches, Except.ok.injEq, exists_eq_left',
    decodeTimestamp_float_eq_ok]
  rw [decodeModelId_of_matches s.modelId_matches]
  constructor
  · rintro ⟨event, ⟨phase, hphase, modelId, hmodel, completed, hcompleted, total, htotal, ⟨⟩,
      hcounts, timestamp, htime, percent, hpercent, rfl⟩, rfl⟩
    split at hmodel
    · cases hmodel
    · next hblank =>
      cases hmodel
      refine ⟨phase, completed, total, timestamp, percent, hphase, fun m hm hstrip => ?_,
        ⟨hcompleted, htotal, checkCounts_isOk.mp hcounts⟩, htime, hpercent, rfl⟩
      exact hblank ⟨m, hm, hstrip⟩
  · rintro ⟨phase, completed, total, time, percent, hphase, hmodel,
      ⟨hcompleted, htotal, hcounts⟩, htime, hpercent, rfl⟩
    refine ⟨_, ⟨phase, hphase, _, if_neg ?_, completed, hcompleted, total, htotal, (),
      checkCounts_isOk.mpr hcounts, time, htime, percent, hpercent, rfl⟩, rfl⟩
    rintro ⟨m, hm, hstrip⟩
    exact hmodel m hm hstrip

end

/-! ### Numbers that are read back -/

theorem equals_of_optionalCount {value : WireValue} {count : Option Nat}
    (h : optionalCount (some value) = .ok count) :
    (Argument.json value).Equals (count.map fun n => (n : ℚ)) := by
  cases value with
  | null =>
    cases h
    rfl
  | int n =>
    rw [optionalCount] at h
    split at h
    · cases h
    · next hnonneg =>
      cases h
      show some (n : ℚ) = some ((n.toNat : ℕ) : ℚ)
      have htoNat : ((n.toNat : ℕ) : ℤ) = n := Int.toNat_of_nonneg (not_lt.mp hnonneg)
      rw [← Int.cast_natCast, htoNat]
  | _ => cases h

theorem equals_of_optionalPercent {value : WireValue} {percent : Option ℚ}
    (h : optionalPercent (some value) = .ok percent) : (Argument.json value).Equals percent := by
  cases value with
  | null =>
    cases h
    rfl
  | int n =>
    have hread : optionalPercent (some (.int n)) =
        if 2 ^ Binary64.maxExponent ≤ |Binary64.round n| then .error .overflow
        else if 0 ≤ Binary64.round n ∧ Binary64.round n ≤ 100 then .ok (some (Binary64.round n))
        else .error (.valueError "progress percent must be between 0 and 100") := by
      rw [optionalPercent, numberValue, floatOfInt]
      · split <;> rfl
      · nofun
    rw [hread] at h
    split at h
    · cases h
    · split at h
      · next hrange =>
        cases h
        show some (n : ℚ) = some (Binary64.round n)
        rw [Binary64.round_intCast_of_le hrange.1 hrange.2]
      · cases h
  | float x =>
    rcases x with q | _ | _
    · have hread : optionalPercent (some (.float (.finite q))) =
          if 0 ≤ q ∧ q ≤ 100 then .ok (some q)
          else .error (.valueError "progress percent must be between 0 and 100") := rfl
      rw [hread] at h
      split at h
      · cases h
        rfl
      · cases h
    · cases h
    · cases h
  | _ => cases h

/-! ### Messages that are cut -/

theorem normalizeMessage_str (t : Str) :
    normalizeMessage (.json (.str t)) =
      if normalForm t = [] then .error (.valueError "invalid progress message")
      else .ok ((normalForm t).take 500) := rfl

theorem normalizeMessage_eq_ok {t message : Str}
    (h : normalizeMessage (.json (.str t)) = .ok message) :
    normalForm t ≠ [] ∧ message = (normalForm t).take 500 := by
  rw [normalizeMessage_str] at h
  split at h
  · cases h
  · next hne => exact ⟨hne, (Except.ok.inj h).symm⟩

/-- The decoder strips the message exactly if it was cut behind a blank. -/
theorem strip_message_iff {t message : Str} (h : normalizeMessage (.json (.str t)) = .ok message) :
    strip isSpace message = message ↔ ¬ CutAtBlank (normalForm t) := by
  obtain ⟨-, rfl⟩ := normalizeMessage_eq_ok h
  have hnormal : Normal isSpace ' ' (normalForm t) := normal_normalize _
  rw [strip_take_iff (strip_eq_self hnormal.head hnormal.last) (by decide : 0 < 500), CutAtBlank]
  constructor
  · rintro hcut ⟨hlong, hblank⟩
    exact hcut ⟨hlong, ' ', hblank, rfl⟩
  · rintro hcut ⟨hlong, c, hc, hspace⟩
    obtain rfl := hnormal.blanks c (List.mem_of_getElem? hc) hspace
    exact hcut ⟨hlong, hc⟩

/-! ### One call -/

section
variable {codec : LineCodec} {s : ProgressEventEmitter} {call : EmitCall} {event : EmittedEvent}
  {line : Str}

theorem mapError_eq_ok {ε ε' α : Type} {x : Except ε α} {f : ε → ε'} {a : α} :
    x.mapError f = .ok a ↔ x = .ok a := by
  cases x <;> simp [Except.mapError]

/-- **What `emit` has checked before it prints.** -/
theorem checkedEvent_eq_ok :
    checkedEvent codec s call = .ok (event, line) ↔
      ∃ message, normalizeMessage call.message = .ok message ∧ event = s.event call message ∧
        ∃ record, event.asDict = some record ∧ codec.dumps record = some line ∧
          ∃ result, decodeProgressEvent (.ok record) = .ok result := by
  rw [checkedEvent, bind_eq_ok]
  refine exists_congr fun message => ?_
  rw [mapError_eq_ok]
  refine and_congr_right fun hmessage => ?_
  dsimp only
  constructor
  · intro h
    split at h
    · cases h
    · next encoded hencoded =>
      obtain ⟨result, hresult, h⟩ := bind_eq_ok.mp h
      cases h
      obtain ⟨record, hrecord, hdumps⟩ := Option.bind_eq_some_iff.mp hencoded
      rw [mapError_eq_ok, codec.loads_dumps hdumps] at hresult
      exact ⟨rfl, record, hrecord, hdumps, result, hresult⟩
  · rintro ⟨rfl, record, hrecord, hdumps, result, hresult⟩
    have hencoded : encode codec (s.event call message) = some line := by
      rw [encode, hrecord]
      exact hdumps
    rw [hencoded]
    refine bind_eq_ok.mpr ⟨result, ?_, rfl⟩
    rw [mapError_eq_ok, codec.loads_dumps hdumps]
    exact hresult

theorem emit_of_ok (h : checkedEvent codec s call = .ok (event, line)) :
    emit codec s call = (.ok event,
      { s with stream := s.stream ++ line ++ ['\n'], revision := s.revision + 1 }) := by
  rw [emit, h]

theorem emit_of_error {error : EmitError} (h : checkedEvent codec s call = .error error) :
    emit codec s call = (.error error, s) := by
  rw [emit, h]

/-- **A call returns exactly if it passes the checks.** -/
theorem checkedEvent_isOk_iff :
    (∃ event line, checkedEvent codec s call = .ok (event, line)) ↔ Accepts codec s call := by
  constructor
  · rintro ⟨event, line, h⟩
    obtain ⟨message, hmessage, rfl, record, hrecord, hdumps, result, hresult⟩ :=
      checkedEvent_eq_ok.mp h
    obtain ⟨p, q, c, t, hp, hq, hc, ht⟩ := asDict_eq_some hrecord
    obtain ⟨phase, completed, total, time, percent, hphase, hmodel,
      ⟨hcompleted, htotal, hcounts⟩, htime, hpercent, -⟩ :=
        (decode_record hmessage hrecord hp hq hc ht).mp hresult
    obtain ⟨text, rfl, -⟩ := decodePhase_eq_ok hphase
    refine ⟨⟨message, hmessage⟩, fun m hm => ?_, ⟨text, phase, hp, hphase⟩, hmodel,
      ⟨c, t, completed, total, hc, ht, hcompleted, htotal, hcounts⟩, ⟨q, percent, hq, hpercent⟩,
      ⟨time, htime⟩⟩
    obtain rfl := Except.ok.inj (hmessage.symm.trans hm)
    rw [encode, hrecord]
    exact Option.isSome_iff_exists.mpr ⟨line, hdumps⟩
  · intro h
    obtain ⟨message, hmessage⟩ := h.message
    obtain ⟨line, hline⟩ := Option.isSome_iff_exists.mp (h.written message hmessage)
    obtain ⟨record, hrecord, hdumps⟩ := Option.bind_eq_some_iff.mp hline
    obtain ⟨text, phase, hp, hphase⟩ := h.phase
    obtain ⟨c, t, completed, total, hc, ht, hcompleted, htotal, hcounts⟩ := h.counts
    obtain ⟨q, percent, hq, hpercent⟩ := h.percent
    obtain ⟨time, htime⟩ := h.time
    refine ⟨_, line, checkedEvent_eq_ok.mpr ⟨message, hmessage, rfl, record, hrecord, hdumps,
      some (decodedEvent s message phase completed total percent time),
      (decode_record hmessage hrecord hp hq hc ht).mpr ?_⟩⟩
    exact ⟨phase, completed, total, time, percent, hphase, h.modelId,
      ⟨hcompleted, htotal, hcounts⟩, htime, hpercent, rfl⟩

/-- The line of a call that returns records its event exactly if nothing is stripped. -/
theorem records_iff (h : checkedEvent codec s call = .ok (event, line)) :
    Records codec line event ↔ Verbatim s call := by
  obtain ⟨message, hmessage, rfl, record, hrecord, hdumps, result, hresult⟩ :=
    checkedEvent_eq_ok.mp h
  obtain ⟨p, q, c, t, hp, hq, hc, ht⟩ := asDict_eq_some hrecord
  obtain ⟨phase, completed, total, time, percent, hphase, hmodel,
    ⟨hcompleted, htotal, hcounts⟩, htime, hpercent, rfl⟩ :=
      (decode_record hmessage hrecord hp hq hc ht).mp hresult
  obtain ⟨text, rfl, htext⟩ := decodePhase_eq_ok hphase
  obtain ⟨value, hvalue⟩ : ∃ value, call.message = .json (.str value) := by
    rcases hcall : call.message with (_ | _ | _ | _ | value | _ | _) | _
    all_goals
      rw [hcall] at hmessage
      first | exact ⟨_, rfl⟩ | cases hmessage
  rw [hvalue] at hmessage
  have hstrip := strip_message_iff hmessage
  constructor
  · rintro ⟨-, decoded, hdecoded, hequals⟩
    rw [codec.loads_dumps hdumps, hresult] at hdecoded
    cases hdecoded
    refine ⟨fun t' ht' => ?_, fun m hm => ?_, fun t' ht' => ?_⟩
    · have hphase' : Argument.json (.str t') = .json (.str phase.text) := ht'.symm.trans hequals.phase
      obtain rfl : t' = text := by
        rw [hp] at ht'
        cases ht'
        rfl
      cases hphase'
      exact htext
    · have hsame : s.modelId = s.modelId.map (strip isSpace) := hequals.modelId
      rw [show s.modelId = some m from hm] at hsame
      exact (Option.some.inj hsame).symm
    · obtain rfl : t' = value := by
        rw [hvalue] at ht'
        cases ht'
        rfl
      exact hstrip.mp hequals.message.symm
  · intro hverbatim
    refine ⟨codec.dumps_line hdumps, decodedEvent s message phase completed total percent time,
      ?_, ?_⟩
    · rw [codec.loads_dumps hdumps]
      exact hresult
    · refine ⟨rfl, rfl, ?_, (hstrip.mpr (hverbatim.message value hvalue)).symm, ?_, ?_, ?_, ?_, htime.1⟩
      · show call.phase = .json (.str phase.text)
        rw [hp, ← htext, hverbatim.phase text hp]
      · show call.percent.Equals percent
        rw [hq]
        exact equals_of_optionalPercent hpercent
      · show s.modelId = s.modelId.map (strip isSpace)
        cases hid : s.modelId with
        | none => rfl
        | some m => rw [Option.map_some, hverbatim.modelId m hid]
      · show call.completed.Equals (completed.map fun n => (n : ℚ))
        rw [hc]
        exact equals_of_optionalCount hcompleted
      · show call.total.Equals (total.map fun n => (n : ℚ))
        rw [ht]
        exact equals_of_optionalCount htotal

/-- **When one call does what it should.** -/
theorem emit_survives_iff :
    CallSurvives codec s call ↔ (Accepts codec s call → Verbatim s call) := by
  cases hchecked : checkedEvent codec s call with
  | error error =>
    have hemit := emit_of_error hchecked
    refine ⟨fun _ haccepts => ?_, fun _ => ⟨fun event h => ?_, fun _ _ => ?_⟩⟩
    · obtain ⟨event, line, hok⟩ := checkedEvent_isOk_iff.mpr haccepts
      cases hchecked.symm.trans hok
    · rw [hemit] at h
      cases h
    · rw [hemit]
  | ok checked =>
    obtain ⟨event, line⟩ := checked
    have hemit := emit_of_ok hchecked
    have hrevision : event.revision = s.revision + 1 := by
      obtain ⟨message, -, rfl, -⟩ := checkedEvent_eq_ok.mp hchecked
      rfl
    constructor
    · rintro ⟨hreturns, -⟩ -
      obtain ⟨line', hstream, hrecords, -⟩ := hreturns event (by rw [hemit])
      rw [hemit] at hstream
      obtain rfl : line = line' := by simpa using hstream
      exact (records_iff hchecked).mp hrecords
    · intro h
      refine ⟨fun event' hevent => ?_, fun error herror => ?_⟩
      · rw [hemit] at hevent ⊢
        cases hevent
        exact ⟨line, rfl, (records_iff hchecked).mpr
          (h (checkedEvent_isOk_iff.mp ⟨_, _, hchecked⟩)), hrevision, rfl⟩
      · rw [hemit] at herror
        cases herror

end

/-! ### Runs of calls -/

/-- What some calls have written and returned, between two states. -/
structure Recorded (codec : LineCodec) (s s' : ProgressEventEmitter)
    (returned : List EmittedEvent) : Prop where
  revisions : returned.map (fun event => event.revision) =
    List.range' (s.revision + 1) returned.length
  revision : s'.revision = s.revision + returned.length
  lines : ∃ lines : List Str,
    s'.stream = s.stream ++ (lines.map fun line => line ++ ['\n']).flatten ∧
      List.Forall₂ (Records codec) lines returned

theorem recorded_run {codec : LineCodec} {calls : List EmitCall} (s : ProgressEventEmitter)
    (h : ∀ before call rest, calls = before ++ call :: rest →
      CallSurvives codec (after codec s before) call) :
    Recorded codec s (after codec s calls) (events codec s calls) := by
  induction calls generalizing s with
  | nil =>
    refine ⟨rfl, rfl, [], ?_, List.Forall₂.nil⟩
    show s.stream = s.stream ++ []
    rw [List.append_nil]
  | cons call calls ih =>
    have hfirst : CallSurvives codec s call := h [] call calls rfl
    obtain ⟨hreturns, hraises⟩ := hfirst
    have hrest := ih (emit codec s call).2 fun before call' rest heq =>
      h (call :: before) call' rest (by rw [heq, List.cons_append])
    show Recorded codec s (after codec (emit codec s call).2 calls)
      ((emit codec s call).1.toOption.toList ++ events codec (emit codec s call).2 calls)
    cases hcall : (emit codec s call).1 with
    | error error =>
      rw [show (emit codec s call).2 = s from hraises error hcall] at hrest ⊢
      exact hrest
    | ok event =>
      obtain ⟨line, hstream, hrecords, hrevision, hnext⟩ := hreturns event hcall
      obtain ⟨hrevisions, hcount, lines, hlines, hall⟩ := hrest
      rw [hnext] at hrevisions hcount
      refine ⟨?_, ?_, line :: lines, ?_, List.Forall₂.cons hrecords hall⟩
      · show event.revision :: _ = List.range' (s.revision + 1) (_ + 1)
        rw [List.range'_succ, hrevision]
        exact congrArg _ hrevisions
      · rw [hcount]
        show s.revision + 1 + (events codec (emit codec s call).2 calls).length =
          s.revision + ((events codec (emit codec s call).2 calls).length + 1)
        omega
      · rw [hlines, hstream]
        simp

/-- **Progress events survive encoding.**  In a run of calls each call that returns writes one
line, from which its event is read, each call that raises does nothing, and the revisions are
counted from one on, exactly if no call of the run that passes the checks has a text that the
decoder strips. -/
theorem progress_events_iff (codec : LineCodec) (identity : Identity) (calls : List EmitCall) :
    ((∀ before call rest, calls = before ++ call :: rest →
        CallSurvives codec (after codec (.start identity) before) call) ∧
      Recorded codec (.start identity) (after codec (.start identity) calls)
        (events codec (.start identity) calls)) ↔
      ∀ before call rest, calls = before ++ call :: rest →
        Accepts codec (after codec (.start identity) before) call →
          Verbatim (after codec (.start identity) before) call := by
  constructor
  · rintro ⟨h, -⟩ before call rest heq
    exact emit_survives_iff.mp (h before call rest heq)
  · intro h
    have hcalls : ∀ before call rest, calls = before ++ call :: rest →
        CallSurvives codec (after codec (.start identity) before) call :=
      fun before call rest heq => emit_survives_iff.mpr (h before call rest heq)
    exact ⟨hcalls, recorded_run (.start identity) hcalls⟩

/-! ### A message that is cut behind a blank -/

/-- A word of 499 letters and one of one letter. -/
def cutMessage : Str := List.replicate 499 'a' ++ [' ', 'b']

def cutCall : EmitCall where
  phase := .json (.str "queued".toList)
  message := .json (.str cutMessage)
  percent := .json .null
  completed := .json .null
  total := .json .null
  time := .finite 1

theorem sampleOperation_matches : operationIdMatches ['o', 'p'] = true := by decide

theorem noModel_matches : ∀ m ∈ (none : Option Str), modelIdMatches m = true := by simp

def sampleIdentity : Identity where
  operationId := ['o', 'p']
  modelId := none
  operationId_matches := sampleOperation_matches
  modelId_matches := noModel_matches

/-- The line of the call, with the message as it is cut. -/
def cutEncoded : Str :=
  "\x7b\"schema_version\":1,\"type\":\"inferbridge.progress\",\"operation_id\":\"op\",".toList ++
    "\"revision\":1,\"phase\":\"queued\",\"message\":\"".toList ++ cutMessage.take 500 ++
    "\",\"percent\":null,\"model_id\":null,\"completed\":null,\"total\":null,".toList ++
    "\"timestamp\":1.0\x7d".toList

/-- The record of the call. -/
def cutRecord : WireValue :=
  .obj
    [("schema_version".toList, .int schemaVersion),
      ("type".toList, .str eventType),
      ("operation_id".toList, .str ['o', 'p']),
      ("revision".toList, .int 1),
      ("phase".toList, .str "queued".toList),
      ("message".toList, .str (cutMessage.take 500)),
      ("percent".toList, .null),
      ("model_id".toList, .null),
      ("completed".toList, .null),
      ("total".toList, .null),
      ("timestamp".toList, .float (.finite 1))]

open Classical in
/-- A codec that knows this record and its line. -/
noncomputable def cutCodec : LineCodec where
  dumps value := if value = cutRecord then some cutEncoded else none
  loads line := if line = cutEncoded then .ok cutRecord else .error .invalid
  loads_dumps := by
    intro value line h
    split at h
    · next hvalue =>
      cases h
      rw [if_pos rfl, hvalue]
    · cases h
  dumps_line := by
    intro value line h
    split at h
    · cases h
      decide +kernel
    · cases h

theorem normalForm_cutMessage : normalForm cutMessage = cutMessage := by decide +kernel

theorem normalizeMessage_cutCall :
    normalizeMessage (.json (.str cutMessage)) = .ok (cutMessage.take 500) := by
  rw [normalizeMessage_str, normalForm_cutMessage, if_neg (by decide +kernel)]

/-- The event that is returned has a blank at the end of its message, the one that is read from
the line has none. -/
theorem cut_message_not_read_back :
    ¬ CallSurvives cutCodec (.start sampleIdentity) cutCall := by
  intro h
  have haccepts : Accepts cutCodec (.start sampleIdentity) cutCall := by
    refine ⟨⟨_, normalizeMessage_cutCall⟩, fun m hm => ?_, ⟨_, .queued, rfl, rfl⟩, ?_,
      ⟨.null, .null, none, none, rfl, rfl, rfl, rfl, rfl⟩, ⟨.null, none, rfl, rfl⟩,
      ⟨1, rfl, one_pos⟩⟩
    · obtain rfl := Except.ok.inj (normalizeMessage_cutCall.symm.trans hm)
      have hwritten : encode cutCodec
          ((ProgressEventEmitter.start sampleIdentity).event cutCall (cutMessage.take 500)) =
            some cutEncoded := if_pos rfl
      rw [hwritten]
      rfl
    · intro m hm
      cases hm
  have hverbatim := emit_survives_iff.mp h haccepts
  apply hverbatim.message cutMessage rfl
  rw [normalForm_cutMessage]
  exact ⟨by decide +kernel, by decide +kernel⟩

end InferBridge.ProgressEvents
