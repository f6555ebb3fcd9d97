/-
InferBridge/StructuredProgress.lean

The progress record of one model (app/structured_progress.py, over
app/model_manager_core.py): the manager's own updates, and the lines that
the readers of a converter's two output streams hand in one by one.

Every update and every line is one step: none of them awaits.  The inner
rewording of messages and the JSON reader are parameters.

Two developments use the model.

* The discipline of the record over any run (`progress_discipline`).  Its
  core is what one write does (`Wrote`): the revision counter, which no
  clear resets, is stamped on the record, and the operation stays.
* Lines of an earlier operation.  Records are kept by model and not by
  process, so such a line is applied like any other unless the reader
  drops it anyway (`late_lines_iff`).
-/
import InferBridge.Lib.Dict
import InferBridge.Lib.Transition
import InferBridge.ConsoleProgress
import InferBridge.Redaction

namespace InferBridge.StructuredProgress

open Text

/-! ### Records -/

structure Operation where
  operationId : Str
  operationType : Str
deriving DecidableEq, Repr

/-- A stored progress record; `schema_version` is constant. -/
structure ProgressRecord where
  phase : Str
  message : Str
  percent : Option ℚ
  startedAt : Int
  updatedAt : Int
  logTail : List Str
  operation : Operation
  revision : Nat
  completed : Option Nat
  total : Option Nat
deriving DecidableEq

/-- What the manager keeps about the progress of the model: the record, the current
operation, the revision counter, the last revision of each producer, whether structured events
came in, and the status of `status_overrides`. -/
structure ProgressStore where
  record : Option ProgressRecord
  operation : Option Operation
  revision : Nat
  producer : Dict Str Int
  structured : Bool
  status : Option Str

def ProgressStore.initial : ProgressStore := ⟨none, none, 0, Dict.empty, false, none⟩

/-- The arguments of `_set_progress`. -/
structure Write where
  phase : Str
  message : Str
  percent : Option ℚ
  appendLog : Option Str

/-- The clock and the uuid that a write may use. -/
structure Tick where
  now : Int
  uuid : Str

def terminalStates : List Str := ["cancelled".toList, "error".toList]

/-- The status or the phase is terminal. -/
def ProgressStore.terminal (s : ProgressStore) : Bool :=
  s.status.any (fun status => status ∈ terminalStates) ||
    s.record.any fun record => record.phase ∈ terminalStates

/-- `_operation_type` -/
def operationType (s : ProgressStore) (phase : Str) : Str :=
  if s.status.any (fun status => status ∈ ["queued_convert".toList, "converting".toList]) ||
      decide (phase ∈ ["downloading".toList, "converting".toList, "finalizing".toList]) then
    "convert".toList
  else "load".toList

/-- `str.title` of an ASCII text; `inside` says that a letter stands before it. -/
def title : Bool → Str → Str
  | _, [] => []
  | inside, c :: t =>
    if 97 ≤ c.toNat ∧ c.toNat ≤ 122 then
      (if inside then c else Char.ofNat (c.toNat - 32)) :: title true t
    else if 65 ≤ c.toNat ∧ c.toNat ≤ 90 then
      (if inside then Char.ofNat (c.toNat + 32) else c) :: title true t
    else c :: title false t

/-- `phase.replace("_", " ").title()` -/
def phaseTitle (phase : Str) : Str := title false (phase.map fun c => if c = '_' then ' ' else c)

/-- `text or default` -/
def orElse (text default : Str) : Str := if text = [] then default else text

/-! ### Writing -/

section
variable (reword : Str → Str)

/-- `_set_progress` -/
def setProgress (s : ProgressStore) (write : Write) (tick : Tick) : ProgressStore :=
  let operation := s.operation.getD
    ⟨operationType s write.phase ++ '-' :: tick.uuid, operationType s write.phase⟩
  let started := match s.record with
    | some previous => if previous.startedAt = 0 then tick.now else previous.startedAt
    | none => tick.now
  let logTail := (s.record.map ProgressRecord.logTail).getD []
  let safeLog := sanitizeProgressLine 240 (write.appendLog.getD [])
  let logTail := if safeLog = [] then logTail
    else (logTail ++ [safeLog]).drop ((logTail ++ [safeLog]).length - 10)
  { s with
    record := some
      { phase := write.phase
        message := orElse (sanitizeProgressLine 180 (reword write.message)) (phaseTitle write.phase)
        percent := write.percent.map fun percent => max 0 (min percent 100)
        startedAt := started
        updatedAt := tick.now
        logTail := logTail
        operation := operation
        revision := s.revision + 1
        completed := s.record.bind ProgressRecord.completed
        total := s.record.bind ProgressRecord.total }
    operation := some operation
    revision := s.revision + 1 }

/-- `_clear_progress` -/
def clearProgress (s : ProgressStore) : ProgressStore :=
  { s with
    record := none
    operation := none
    producer := Dict.empty
    structured := false }

/-! ### Lines of a converter -/

/-- What `readline` gives: a line that is too long is consumed and reported as an error. -/
inductive RawLine where
  | overlong
  | text (decoded : Str)

/-- What becomes of a line; the texts are appended to the diagnostics. -/
inductive LineOutcome where
  | dropped (diagnostic : Option Str)
  | applied (event : ProgressEvent) (diagnostic : Str)
  | logged (line : Str)
  | raised (e : ProtocolError)

variable (unicode : UnicodeTables) (reader : Str → Except DecodeError WireValue)
  (modelId name : Str)

def mentionsAny (tokens : List String) (text : Str) : Bool :=
  tokens.any fun token => decide (token.toList <:+: text)

/-- `_progress_from_converter_line` -/
def progressFromConverterLine (line : Str) : Str × Str × Option ℚ :=
  let text := lower line
  let percent := percentOf unicode line
  if mentionsAny ["download", "fetch", "snapshot", "cache", "resolve"] text then
    ("downloading".toList, "Downloading model weights for ".toList ++ name ++ ['…'], percent)
  else if mentionsAny ["quant", "compress", "int4", "int8"] text then
    ("converting".toList, "Quantizing ".toList ++ name ++ " for OpenVINO…".toList, percent)
  else if mentionsAny ["save", "write", "serializ"] text then
    ("converting".toList, "Saving OpenVINO IR for ".toList ++ name ++ ['…'], percent)
  else if mentionsAny ["export", "openvino", "convert", "compile"] text then
    ("converting".toList, "Converting ".toList ++ name ++ " to OpenVINO IR…".toList, percent)
  else ("converting".toList, "Preparing ".toList ++ name ++ ['…'], percent)

/-- The write for a line of human text. -/
def lineWrite (s : ProgressStore) (line : Str) : Write :=
  if s.structured then
    { phase := orElse ((s.record.map ProgressRecord.phase).getD []) "converting".toList
      message := orElse ((s.record.map ProgressRecord.message).getD [])
        ("Preparing ".toList ++ name ++ ['…'])
      percent := s.record.bind ProgressRecord.percent
      appendLog := some line }
  else
    let (phase, message, percent) := progressFromConverterLine unicode name line
    ⟨phase, message, percent, some line⟩

/-- The last revision of a producer that was applied. -/
def ProgressStore.producerRevision (s : ProgressStore) (operationId : Str) : Int :=
  (s.producer.get? operationId).getD 0

/-- The reader's checks of an event, behind the one for terminal states. -/
def admits (s : ProgressStore) (event : ProgressEvent) : Bool :=
  !(event.modelId.any fun id => id ≠ modelId) &&
    decide (s.producerRevision event.operationId < event.revision)

/-- The message of an event. -/
def eventMessage (event : ProgressEvent) : Str :=
  orElse (sanitizeProgressLine 180 event.message) (phaseTitle event.phase.text)

/-- An event that passed the checks. -/
def applyEvent (s : ProgressStore) (event : ProgressEvent) (tick : Tick) : ProgressStore :=
  let s := { s with
    producer := s.producer.set event.operationId event.revision
    structured := true }
  let s := setProgress reword s
    ⟨event.phase.text, eventMessage event, event.percent, some (eventMessage event)⟩ tick
  { s with record := s.record.map fun record =>
      { record with
        completed := event.completed
        total := event.total } }

/-- One iteration of `_read_conversion_stream`. -/
def readLine (s : ProgressStore) (raw : RawLine) (tick : Tick) : ProgressStore × LineOutcome :=
  match raw with
  | .overlong => (s, .dropped (some "Ignored overlong converter diagnostic.".toList))
  | .text decoded =>
    let line := sanitizeProgressLine 240 decoded
    if line = [] then (s, .dropped none)
    else match decodeProgressEvent (reader (strip isSpace decoded)) with
      | .error (.valueError _) =>
        (s, .dropped (some "Ignored malformed structured progress event.".toList))
      | .error e => (s, .raised e)
      | .ok event =>
        if s.terminal then (s, .dropped none)
        else match event with
          | some event =>
            if admits modelId s event then
              (applyEvent reword s event tick, .applied event (eventMessage event))
            else (s, .dropped none)
          | none => (setProgress reword s (lineWrite unicode name s line) tick, .logged line)

/-- The line changes the record. -/
def takesLine (s : ProgressStore) : RawLine → Bool
  | .overlong => false
  | .text decoded =>
    sanitizeProgressLine 240 decoded ≠ [] && !s.terminal &&
      match decodeProgressEvent (reader (strip isSpace decoded)) with
      | .error _ => false
      | .ok none => true
      | .ok (some event) => admits modelId s event

/-! ### Runs -/

inductive ProgressEvents where
  | set (write : Write) (tick : Tick)
  | clear
  | setStatus (status : Str)
  | clearStatus
  | line (raw : RawLine) (tick : Tick)

def progressStep (s : ProgressStore) : ProgressEvents → Option ProgressStore
  | .set write tick => some (setProgress reword s write tick)
  | .clear => some (clearProgress s)
  | .setStatus status => some { s with status := some status }
  | .clearStatus => some { s with status := none }
  | .line raw tick => some (readLine reword unicode reader modelId name s raw tick).1

/-- The event that a step applies. -/
def applied (s : ProgressStore) : ProgressEvents → Option ProgressEvent
  | .line raw tick =>
    match (readLine reword unicode reader modelId name s raw tick).2 with
    | .applied event _ => some event
    | _ => none
  | _ => none

end

/-! ### What one write does -/

/-- The record is written: it takes the next revision and belongs to the operation of the
store, which was the one before if there was one. -/
structure Wrote (s s' : ProgressStore) : Prop where
  revision : s'.revision = s.revision + 1
  stored : ∃ record, s'.record = some record ∧ record.revision = s'.revision ∧
    s'.operation = some record.operation
  operation : ∀ operation, s.operation = some operation → s'.operation = some operation
  status : s'.status = s.status

variable {reword : Str → Str} {unicode : UnicodeTables}
  {reader : Str → Except DecodeError WireValue} {modelId name : Str}
  {s s' : ProgressStore}

theorem wrote_setProgress (s : ProgressStore) (write : Write) (tick : Tick) :
    Wrote s (setProgress reword s write tick) where
  revision := rfl
  stored := ⟨_, rfl, rfl, rfl⟩
  operation := fun operation h => by
    show some (s.operation.getD _) = some operation
    rw [h]
    rfl
  status := rfl

theorem wrote_applyEvent (s : ProgressStore) (event : ProgressEvent) (tick : Tick) :
    Wrote s (applyEvent reword s event tick) := by
  have hwrote : ∀ marked write, Wrote marked (setProgress reword marked write tick) :=
    fun marked write => wrote_setProgress marked write tick
  obtain ⟨hrevision, ⟨record, hrecord, hstamp, howner⟩, hoperation, hstatus⟩ := hwrote
    { s with
      producer := s.producer.set event.operationId event.revision
      structured := true }
    ⟨event.phase.text, eventMessage event, event.percent, some (eventMessage event)⟩
  refine ⟨hrevision, ⟨{ record with completed := event.completed, total := event.total }, ?_,
    hstamp, howner⟩, hoperation, hstatus⟩
  rw [applyEvent]
  simp only [hrecord, Option.map_some]

/-- What a line can do: nothing, a write of its text, or the application of its event. -/
theorem readLine_cases (s : ProgressStore) (raw : RawLine) (tick : Tick) :
    let result := readLine reword unicode reader modelId name s raw tick
    (takesLine reader modelId s raw = false ∧ result.1 = s ∧
        ∀ event diagnostic, result.2 ≠ .applied event diagnostic) ∨
      (takesLine reader modelId s raw = true ∧ s.terminal = false ∧
        ((∃ write line, result = (setProgress reword s write tick, .logged line)) ∨
          ∃ event diagnostic, admits modelId s event = true ∧
            result = (applyEvent reword s event tick, .applied event diagnostic))) := by
  cases raw with
  | overlong => exact .inl ⟨rfl, rfl, fun _ _ h => by cases h⟩
  | text decoded =>
    rw [readLine, takesLine]
    simp only
    by_cases hline : sanitizeProgressLine 240 decoded = []
    · rw [if_pos hline]
      exact .inl ⟨by simp [hline], rfl, fun _ _ h => by cases h⟩
    rw [if_neg hline]
    rcases hdecode : decodeProgressEvent (reader (strip isSpace decoded)) with e | event
    · refine .inl ⟨by simp, ?_⟩
      cases e with
      | valueError message => exact ⟨rfl, fun _ _ h => by cases h⟩
      | overflow => exact ⟨rfl, fun _ _ h => by cases h⟩
      | reader => exact ⟨rfl, fun _ _ h => by cases h⟩
    · simp only
      by_cases hterminal : s.terminal = true
      · rw [if_pos hterminal]
        exact .inl ⟨by simp [hterminal], rfl, fun _ _ h => by cases h⟩
      rw [if_neg hterminal]
      have hopen : s.terminal = false := by simpa using hterminal
      cases event with
      | none => exact .inr ⟨by simp [hline, hopen], hopen, .inl ⟨_, _, rfl⟩⟩
      | some event =>
        simp only
        by_cases hadmits : admits modelId s event = true
        · rw [if_pos hadmits]
          exact .inr ⟨by simp [hline, hopen, hadmits], hopen, .inr ⟨event, _, hadmits, rfl⟩⟩
        · rw [if_neg hadmits]
          exact .inl ⟨by simp [hadmits], rfl, fun _ _ h => by cases h⟩

/-- One step of a run: the record stays, is cleared or is written, and the counter never goes
back. -/
inductive Stepped (s s' : ProgressStore) : Prop where
  | kept (record : s'.record = s.record) (operation : s'.operation = s.operation)
      (revision : s'.revision = s.revision)
  | cleared (h : s' = clearProgress s)
  | wrote (h : Wrote s s')

theorem stepped {event : ProgressEvents}
    (hstep : progressStep reword unicode reader modelId name s event = some s') :
    Stepped s s' := by
  cases event with
  | set write tick =>
    obtain rfl := Option.some.inj hstep
    exact .wrote (wrote_setProgress s write tick)
  | clear => exact .cleared (Option.some.inj hstep).symm
  | setStatus status =>
    obtain rfl := Option.some.inj hstep
    exact .kept rfl rfl rfl
  | clearStatus =>
    obtain rfl := Option.some.inj hstep
    exact .kept rfl rfl rfl
  | line raw tick =>
    obtain rfl := Option.some.inj hstep
    rcases readLine_cases s raw tick with ⟨-, hsame, -⟩ | ⟨-, -, ⟨write, line, hwrite⟩ |
      ⟨event, diagnostic, -, happly⟩⟩
    · rw [hsame]
      exact .kept rfl rfl rfl
    · rw [hwrite]
      exact .wrote (wrote_setProgress s write tick)
    · rw [happly]
      exact .wrote (wrote_applyEvent s event tick)

/-! ### The discipline of the record -/

/-- What holds of every reachable store: no record is ahead of the counter, and the record
belongs to the current operation. -/
structure Stamped (s : ProgressStore) : Prop where
  revision : ∀ record, s.record = some record → record.revision ≤ s.revision
  operation : ∀ record, s.record = some record → s.operation = some record.operation

theorem Stepped.stamped (h : Stepped s s') (hs : Stamped s) : Stamped s' := by
  cases h with
  | kept hrecord hoperation hrevision =>
    refine ⟨?_, ?_⟩
    · intro record hstored
      rw [hrevision]
      exact hs.revision record (hrecord ▸ hstored)
    · intro record hstored
      rw [hoperation]
      exact hs.operation record (hrecord ▸ hstored)
  | cleared h =>
    subst h
    exact ⟨fun _ hstored => (by cases hstored), fun _ hstored => (by cases hstored)⟩
  | wrote h =>
    obtain ⟨written, hwritten, hstamp, howner⟩ := h.stored
    refine ⟨?_, ?_⟩
    · intro record hstored
      obtain rfl := Option.some.inj (hwritten.symm.trans hstored)
      exact hstamp.le
    · intro record hstored
      obtain rfl := Option.some.inj (hwritten.symm.trans hstored)
      exact howner

theorem Stepped.revision_le (h : Stepped s s') : s.revision ≤ s'.revision := by
  cases h with
  | kept hrecord hoperation hrevision => exact hrevision.ge
  | cleared h => exact (congrArg ProgressStore.revision h).ge
  | wrote h => exact h.revision ▸ Nat.le_succ _

theorem run_stamped {es : List ProgressEvents} (hs : Stamped s)
    (hrun : Transition.run (progressStep reword unicode reader modelId name) s es = some s') :
    Stamped s' ∧ s.revision ≤ s'.revision := by
  refine Transition.run_always (I := fun t => Stamped t ∧ s.revision ≤ t.revision) ?_
    ⟨hs, le_rfl⟩ hrun
  intro t event t' ht hstep
  exact ⟨(stepped hstep).stamped ht.1, ht.2.trans (stepped hstep).revision_le⟩

theorem stamped_initial : Stamped .initial :=
  ⟨fun _ h => (by cases h), fun _ h => (by cases h)⟩

/-- A step that does not clear. -/
def ProgressEvents.keeps : ProgressEvents → Bool
  | .clear => false
  | _ => true

/-- Without a clear the operation stays. -/
theorem operation_of_keeps {event : ProgressEvents} {operation : Operation}
    (hkeeps : event.keeps = true)
    (hstep : progressStep reword unicode reader modelId name s event = some s')
    (h : s.operation = some operation) : s'.operation = some operation := by
  cases event with
  | set write tick =>
    obtain rfl := Option.some.inj hstep
    exact (wrote_setProgress s write tick).operation operation h
  | clear => cases hkeeps
  | setStatus status =>
    obtain rfl := Option.some.inj hstep
    exact h
  | clearStatus =>
    obtain rfl := Option.some.inj hstep
    exact h
  | line raw tick =>
    obtain rfl := Option.some.inj hstep
    rcases readLine_cases s raw tick with ⟨-, hsame, -⟩ | ⟨-, -, ⟨write, line, hwrite⟩ |
      ⟨event, diagnostic, -, happly⟩⟩
    · rw [hsame]
      exact h
    · rw [hwrite]
      exact (wrote_setProgress s write tick).operation operation h
    · rw [happly]
      exact (wrote_applyEvent s event tick).operation operation h

theorem producerRevision_applyEvent (s : ProgressStore) (event : ProgressEvent) (tick : Tick)
    (operationId : Str) : (applyEvent reword s event tick).producerRevision operationId =
      if operationId = event.operationId then event.revision
      else s.producerRevision operationId := by
  show ((s.producer.set event.operationId event.revision).get? operationId).getD 0 = _
  rw [Dict.get?_set]
  split_ifs with hsame
  · rfl
  · rfl

/-- Without a clear the producers' revisions never go back, and an event that is applied is
newer than all before it of its producer. -/
theorem producerRevision_of_keeps {event : ProgressEvents} (hkeeps : event.keeps = true)
    (hstep : progressStep reword unicode reader modelId name s event = some s') :
    (∀ operationId, s.producerRevision operationId ≤ s'.producerRevision operationId) ∧
      ∀ progress, applied reword unicode reader modelId name s event = some progress →
        s.producerRevision progress.operationId < progress.revision ∧
          s'.producerRevision progress.operationId = progress.revision := by
  cases event with
  | set write tick =>
    obtain rfl := Option.some.inj hstep
    exact ⟨fun _ => le_rfl, fun _ h => by cases h⟩
  | clear => cases hkeeps
  | setStatus status =>
    obtain rfl := Option.some.inj hstep
    exact ⟨fun _ => le_rfl, fun _ h => by cases h⟩
  | clearStatus =>
    obtain rfl := Option.some.inj hstep
    exact ⟨fun _ => le_rfl, fun _ h => by cases h⟩
  | line raw tick =>
    obtain rfl := Option.some.inj hstep
    rcases readLine_cases s raw tick with ⟨-, hsame, hnone⟩ | ⟨-, -, ⟨write, line, hwrite⟩ |
      ⟨event, diagnostic, hadmits, happly⟩⟩
    · refine ⟨fun operationId => ?_, fun progress h => ?_⟩
      · rw [hsame]
      · rw [applied] at h
        split at h
        · next hresult => exact absurd hresult (hnone _ _)
        · cases h
    · rw [hwrite]
      refine ⟨fun _ => le_rfl, fun progress h => ?_⟩
      rw [applied, hwrite] at h
      cases h
    · rw [happly]
      have hnewer : s.producerRevision event.operationId < event.revision := by
        simpa using (Bool.and_eq_true_iff.mp hadmits).2
      refine ⟨fun operationId => ?_, fun progress h => ?_⟩
      · rw [producerRevision_applyEvent]
        split_ifs with hsame
        · rw [hsame]
          exact hnewer.le
        · exact le_rfl
      · rw [applied, happly] at h
        obtain rfl := Option.some.inj h
        exact ⟨hnewer, by rw [producerRevision_applyEvent, if_pos rfl]⟩

/-- Runs without a clear. -/
theorem run_keeps {es : List ProgressEvents} (hkeeps : ∀ e ∈ es, e.keeps = true)
    (hrun : Transition.run (progressStep reword unicode reader modelId name) s es = some s') :
    (∀ operation, s.operation = some operation → s'.operation = some operation) ∧
      ∀ operationId, s.producerRevision operationId ≤ s'.producerRevision operationId := by
  induction es generalizing s with
  | nil =>
    obtain rfl := Option.some.inj hrun
    exact ⟨fun _ h => h, fun _ => le_rfl⟩
  | cons e es ih =>
    obtain ⟨t, hstep, hrest⟩ := Transition.run_cons_eq_some.mp hrun
    have hfirst := hkeeps e List.mem_cons_self
    obtain ⟨hoperation, hproducer⟩ := ih (fun e' he' => hkeeps e' (List.mem_cons_of_mem e he')) hrest
    refine ⟨?_, ?_⟩
    · intro operation h
      exact hoperation operation (operation_of_keeps hfirst hstep h)
    · intro operationId
      exact ((producerRevision_of_keeps hfirst hstep).1 operationId).trans (hproducer operationId)

variable (reword unicode reader modelId name) in
/-- **The progress record is disciplined.** In a run from the empty store to `s`, on to `s'` and
one step further: a record that this step stores has a higher revision than any record before
it, also across clears; without a clear from `s` on, the operation is the same; a line leaves the
record alone where the status or the phase is terminal; and if the step behind `s` and the last
one both apply an event of the same producer, without a clear between them, the later event has
the higher revision. -/
theorem progress_discipline {es fs : List ProgressEvents} {e f : ProgressEvents}
    {t last : ProgressStore}
    (hbefore : Transition.run (progressStep reword unicode reader modelId name) .initial es = some s)
    (hfirst : progressStep reword unicode reader modelId name s e = some t)
    (hrun : Transition.run (progressStep reword unicode reader modelId name) t fs = some s')
    (hlast : progressStep reword unicode reader modelId name s' f = some last) :
    (∀ record written, t.record = some record → last.record = some written →
        last.record ≠ s'.record → record.revision < written.revision) ∧
      ((∀ g ∈ fs ++ [f], g.keeps = true) → ∀ record written, t.record = some record →
        last.record = some written → written.operation = record.operation) ∧
      (∀ raw tick, f = .line raw tick → s'.terminal = true → last = s') ∧
      ((∀ g ∈ fs, g.keeps = true) → ∀ earlier later,
        applied reword unicode reader modelId name s e = some earlier →
        applied reword unicode reader modelId name s' f = some later →
        later.operationId = earlier.operationId → earlier.revision < later.revision) := by
  obtain ⟨hstamped, -⟩ := run_stamped stamped_initial hbefore
  have ht := (stepped hfirst).stamped hstamped
  obtain ⟨hs', hle⟩ := run_stamped ht hrun
  refine ⟨?_, ?_, ?_, ?_⟩
  · intro record written hrecord hwritten hchanged
    have hold := ht.revision record hrecord
    cases stepped hlast with
    | kept hsame => exact absurd hsame hchanged
    | cleared h =>
      rw [h] at hwritten
      cases hwritten
    | wrote h =>
      obtain ⟨stored, hstored, hstamp, -⟩ := h.stored
      obtain rfl := Option.some.inj (hstored.symm.trans hwritten)
      rw [hstamp, h.revision]
      omega
  · intro hkeeps record written hrecord hwritten
    have hwhole : Transition.run (progressStep reword unicode reader modelId name) t (fs ++ [f]) =
        some last :=
      Transition.run_append_eq_some.mpr
        ⟨s', hrun, Transition.run_cons_eq_some.mpr ⟨last, hlast, rfl⟩⟩
    have hsame := (run_keeps hkeeps hwhole).1 _ (ht.operation record hrecord)
    have howner := ((stepped hlast).stamped hs').operation written hwritten
    exact Option.some.inj (howner.symm.trans hsame)
  · rintro raw tick rfl hterminal
    obtain rfl := Option.some.inj hlast
    rcases readLine_cases s' raw tick with ⟨-, hsame, -⟩ | ⟨-, hopen, -⟩
    · exact hsame
    · rw [hopen] at hterminal
      cases hterminal
  · intro hkeeps earlier later hearlier hlater hproducer
    have hkept : ∀ {u : ProgressStore} {g : ProgressEvents} {progress : ProgressEvent},
        applied reword unicode reader modelId name u g = some progress → g.keeps = true := by
      intro u g progress h
      cases g with
      | clear => cases h
      | _ => rfl
    obtain ⟨-, hset⟩ := producerRevision_of_keeps (hkept hearlier) hfirst
    obtain ⟨-, hnewer⟩ := producerRevision_of_keeps (hkept hlater) hlast
    have hfrom := (hset earlier hearlier).2
    have hto := (hnewer later hlater).1
    have hmono := (run_keeps hkeeps hrun).2 earlier.operationId
    rw [hproducer] at hto
    omega

/-- A write, a clear, and a write of the next operation. -/
theorem progress_discipline_two :
    ∃ s t s' last : ProgressStore,
      Transition.run (progressStep id .ascii (fun _ => .error .invalid) ['m'] ['M']) .initial [] =
        some s ∧
      progressStep id .ascii (fun _ => .error .invalid) ['m'] ['M'] s
        (.set ⟨"queued".toList, ['q'], none, none⟩ ⟨1, ['a']⟩) = some t ∧
      Transition.run (progressStep id .ascii (fun _ => .error .invalid) ['m'] ['M']) t [.clear] =
        some s' ∧
      progressStep id .ascii (fun _ => .error .invalid) ['m'] ['M'] s'
        (.set ⟨"queued".toList, ['q'], none, none⟩ ⟨2, ['b']⟩) = some last ∧
      ∀ record written, t.record = some record → last.record = some written →
        last.record ≠ s'.record → record.revision < written.revision := by
  have hbefore : Transition.run
      (progressStep id .ascii (fun _ => .error .invalid) ['m'] ['M']) .initial [] = some _ := rfl
  have hset : ∀ s tick, progressStep id .ascii (fun _ => .error .invalid) ['m'] ['M'] s
      (.set ⟨"queued".toList, ['q'], none, none⟩ tick) = some _ := fun _ _ => rfl
  have hrun : ∀ t, Transition.run
      (progressStep id .ascii (fun _ => .error .invalid) ['m'] ['M']) t [.clear] = some _ :=
    fun _ => rfl
  refine ⟨_, _, _, _, hbefore, hset _ _, hrun _, hset _ _, ?_⟩
  exact (progress_discipline id .ascii (fun _ => .error .invalid) ['m'] ['M'] hbefore
    (hset _ _) (hrun _) (hset _ _)).1

/-! ### Lines of an earlier operation -/

/-- The store, and how many operations have begun. -/
structure Preparation where
  store : ProgressStore
  begun : Nat

/-- `begin` is what `schedule_convert` and `schedule_load` do: clear, set the status and write
the record; `line i` comes from the converter of the operation `i`, counted from one. -/
inductive PreparationEvents where
  | begin (status : Str) (write : Write) (tick : Tick)
  | manager (event : ProgressEvents)
  | line (operation : Nat) (raw : RawLine) (tick : Tick)

section
variable (reword : Str → Str) (unicode : UnicodeTables)
  (reader : Str → Except DecodeError WireValue) (modelId name : Str)

def preparationStep (p : Preparation) : PreparationEvents → Option Preparation
  | .begin status write tick =>
    some ⟨setProgress reword { clearProgress p.store with status := some status } write tick,
      p.begun + 1⟩
  | .manager event =>
    (progressStep reword unicode reader modelId name p.store event).map fun store =>
      { p with store }
  | .line operation raw tick =>
    if operation ≤ p.begun then
      some { p with store := (readLine reword unicode reader modelId name p.store raw tick).1 }
    else none

/-- A line of an earlier operation leaves the record as it is. -/
def recordKept (p : Preparation) : PreparationEvents → Bool
  | .line operation raw tick =>
    decide (p.begun ≤ operation) ||
      decide ((readLine reword unicode reader modelId name p.store raw tick).1.record =
        p.store.record)
  | _ => true

/-- A line of an earlier operation is blank, overlong or malformed, or the state is terminal, or
it is an event of another model or one that is not newer. -/
def lateDropped (p : Preparation) : PreparationEvents → Bool
  | .line operation raw _ =>
    decide (p.begun ≤ operation) || !takesLine reader modelId p.store raw
  | _ => true

/-- A line that the reader takes always changes the record: the revision is new. -/
theorem recordKept_eq_lateDropped {p : Preparation} (hp : Stamped p.store)
    (event : PreparationEvents) :
    recordKept reword unicode reader modelId name p event = lateDropped reader modelId p event := by
  cases event with
  | begin status write tick => rfl
  | manager event => rfl
  | line operation raw tick =>
    rw [recordKept, lateDropped]
    have hchanged : ∀ s', Wrote p.store s' → s'.record ≠ p.store.record := by
      intro s' h hsame
      obtain ⟨record, hrecord, hstamp, -⟩ := h.stored
      have hle := hp.revision record (hsame ▸ hrecord)
      have hnext := h.revision
      omega
    congr 1
    rcases readLine_cases p.store raw tick with ⟨hdrops, hsame, -⟩ | ⟨htakes, -,
      ⟨write, line, hwrite⟩ | ⟨progress, diagnostic, -, happly⟩⟩
    · rw [hdrops, hsame]
      simp
    · rw [htakes, hwrite]
      exact decide_eq_false (hchanged _ (wrote_setProgress p.store write tick))
    · rw [htakes, happly]
      exact decide_eq_false (hchanged _ (wrote_applyEvent p.store progress tick))

theorem stamped_preparationStep {p p' : Preparation} {event : PreparationEvents}
    (hp : Stamped p.store)
    (hstep : preparationStep reword unicode reader modelId name p event = some p') :
    Stamped p'.store := by
  cases event with
  | begin status write tick =>
    obtain rfl := Option.some.inj hstep
    have hcleared : Stamped { clearProgress p.store with status := some status } :=
      ⟨fun _ h => (by cases h), fun _ h => (by cases h)⟩
    exact (Stepped.wrote (wrote_setProgress _ write tick)).stamped hcleared
  | manager event =>
    obtain ⟨store, hstore, rfl⟩ := Option.map_eq_some_iff.mp hstep
    exact (stepped hstore).stamped hp
  | line operation raw tick =>
    rw [preparationStep] at hstep
    split_ifs at hstep
    obtain rfl := Option.some.inj hstep
    have hline : progressStep reword unicode reader modelId name p.store (.line raw tick) =
        some (readLine reword unicode reader modelId name p.store raw tick).1 := rfl
    exact (stepped hline).stamped hp

/-- **No progress leaks from an earlier operation exactly if the reader drops its lines.** In
every run, no line of a converter changes the record once a newer operation has begun, if and
only if each such line is blank, overlong or malformed, or arrives in a terminal state, or
names another model, or is an event that is not newer than the last one of its producer since
the last clear. -/
theorem late_lines_iff (events : List PreparationEvents) :
    Transition.meets (preparationStep reword unicode reader modelId name)
        (recordKept reword unicode reader modelId name) ⟨.initial, 0⟩ events = true ↔
      Transition.meets (preparationStep reword unicode reader modelId name)
        (lateDropped reader modelId) ⟨.initial, 0⟩ events = true := by
  rw [Transition.meets_congr (fun _ _ _ => stamped_preparationStep reword unicode reader modelId name)
    (fun _ event hp => recordKept_eq_lateDropped reword unicode reader modelId name hp event)
    stamped_initial]

end

/-- What happens up to a retry: a conversion begins, is cancelled, and a newer one begins. -/
def retriedConversion : List PreparationEvents :=
  [.begin "queued_convert".toList ⟨"queued".toList, ['q'], none, none⟩ ⟨1, ['a']⟩,
    .manager (.setStatus "cancelled".toList),
    .manager (.set ⟨"cancelled".toList, ['c'], none, none⟩ ⟨2, ['b']⟩),
    .begin "queued_convert".toList ⟨"queued".toList, ['q'], none, none⟩ ⟨3, ['c']⟩]

/-- A line that the reader of the cancelled converter still had changes the record of the
newer operation. -/
theorem late_line_after_retry :
    ∃ p, Transition.run
        (preparationStep id .ascii (fun _ => .error .invalid) ['m'] ['M']) ⟨.initial, 0⟩
          retriedConversion = some p ∧ p.begun = 2 ∧
      recordKept id .ascii (fun _ => .error .invalid) ['m'] ['M'] p
        (.line 1 (.text ['x']) ⟨4, ['d']⟩) = false :=
  ⟨_, rfl, rfl, by decide +kernel⟩

end InferBridge.StructuredProgress
