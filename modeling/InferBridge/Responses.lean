/-
InferBridge/Responses.lean

The event stream of the Responses endpoint (app/responses_api.py).

`streamResponse` follows the generator: the created event, the branch for
tools or the branch for plain text, and then either the failure events or
the token count and the completed event, with the end marker.  The engine
may be unloaded or replaced between the generation and the token count;
what the lease of the count reads at each of its attempts is the list
`attempts`.

`Conforms` states the protocol a client relies on: consecutive sequence
numbers, for each item an added event, then deltas, then a done event whose
text is the concatenation of the deltas and is found in the final response,
and one terminal event directly before the end marker.

Main results:

* `streamResponse_numbers` -- the numbers are consecutive in every run;
* `streamResponse_conforms_iff` -- the stream conforms exactly when a
  failing generation fails before an item was announced and a finished one
  finds an engine to count its tokens with.

Left out: the request fields echoed in the response objects, time stamps
and the metrics.
-/
import InferBridge.EngineHandoff
import InferBridge.StopSequences
import InferBridge.Tools

namespace InferBridge

/-! ### Events -/

/-- An item of the output: a message or a call. -/
inductive OutputItem where
  | message (id text : Str)
  | functionCall (id callId name arguments : Str)
deriving DecidableEq, Repr

/-- The text or the arguments of an item: what its deltas spell. -/
def OutputItem.payload : OutputItem → Str
  | .message _ text => text
  | .functionCall _ _ _ arguments => arguments

/-- An item that is only announced: nothing of its payload is there yet. -/
def OutputItem.stub : OutputItem → OutputItem
  | .message id _ => .message id []
  | .functionCall id callId name _ => .functionCall id callId name []

/-- The types of the events with their payload. -/
inductive EventBody where
  | created
  | itemAdded (index : Nat) (item : OutputItem)
  | contentPartAdded (itemId : Str) (index : Nat)
  | textDelta (itemId : Str) (index : Nat) (delta : Str)
  | textDone (itemId : Str) (index : Nat) (text : Str)
  | contentPartDone (itemId : Str) (index : Nat) (text : Str)
  | argumentsDelta (itemId : Str) (index : Nat) (delta : Str)
  | argumentsDone (itemId : Str) (index : Nat) (name arguments : Str)
  | itemDone (index : Nat) (item : OutputItem)
  | error (code message : Str)
  | failed (output : List OutputItem)
  | completed (output : List OutputItem) (inputTokens outputTokens : Nat)
deriving DecidableEq, Repr

/-- One block of the stream: a numbered event, or the marker `data: [DONE]`. -/
inductive Line where
  | event (sequenceNumber : Nat) (body : EventBody)
  | done
deriving DecidableEq, Repr

/-! ### The generator -/

/-- What the generator has sent, and its `sequence_number`. -/
structure Sse where
  sequenceNumber : Nat
  lines : List Line

def Sse.init : Sse := { sequenceNumber := 0, lines := [] }

/-- The inner function `event`, followed by `yield`. -/
def Sse.event (s : Sse) (body : EventBody) : Sse :=
  { sequenceNumber := s.sequenceNumber + 1
    lines := s.lines ++ [.event (s.sequenceNumber + 1) body] }

def Sse.events (s : Sse) (bodies : List EventBody) : Sse := bodies.foldl Sse.event s

def Sse.done (s : Sse) : Sse := { s with lines := s.lines ++ [.done] }

/-- The parameters of `stream_response`; `hexCall` and `hexItem` are the drawn identifiers. -/
structure ResponseContext where
  useTools : Bool
  tools : Option (List ToolDefinition)
  stop : StopField Char
  messageId : Str
  promptTokens : Nat
  hexCall : Nat → Str
  hexItem : Nat → Str

/-- The value of `params.stop`. -/
def ResponseContext.stops (ctx : ResponseContext) : List Str := normalizeStop ctx.stop

/-- `_function_item`, for the `n`-th call. -/
def functionItem (ctx : ResponseContext) (n : Nat) (call : ToolCall) : OutputItem :=
  .functionCall (['f', 'c', '-'] ++ ctx.hexItem n) call.id call.function.name call.function.arguments

def messageAdded (ctx : ResponseContext) (index : Nat) : EventBody :=
  .itemAdded index (.message ctx.messageId [])

def contentAdded (ctx : ResponseContext) (index : Nat) : EventBody :=
  .contentPartAdded ctx.messageId index

def messageDone (ctx : ResponseContext) (index : Nat) (text : Str) : List EventBody :=
  [.textDone ctx.messageId index text, .contentPartDone ctx.messageId index text,
    .itemDone index (.message ctx.messageId text)]

/-- The events of one call in the loop over the parsed calls. -/
def callBodies (index : Nat) (id callId name arguments : Str) : List EventBody :=
  [.itemAdded index (.functionCall id callId name []),
    .argumentsDelta id index arguments,
    .argumentsDone id index name arguments,
    .itemDone index (.functionCall id callId name arguments)]

/-- The loop over the parsed calls, from output index `index` and call number `n` on. -/
def callsBodies (ctx : ResponseContext) (index n : Nat) : List ToolCall → List EventBody
  | [] => []
  | call :: rest =>
    callBodies index (['f', 'c', '-'] ++ ctx.hexItem n) call.id call.function.name
        call.function.arguments ++
      callsBodies ctx (index + 1) (n + 1) rest

def callItems (ctx : ResponseContext) (n : Nat) : List ToolCall → List OutputItem
  | [] => []
  | call :: rest => functionItem ctx n call :: callItems ctx (n + 1) rest

/-- What a branch leaves: its events, the list `output`, the text to count, and whether the
generation failed. -/
structure Generated where
  bodies : List EventBody
  output : List OutputItem
  fullText : Str
  failed : Bool

/-- The tool branch: everything is buffered, cut at a stop, parsed and then sent. -/
def streamTools (codec : JsonCodec) (ctx : ResponseContext) (generation : Generation Char) :
    Generated :=
  let received := generation.pieces.flatten
  if generation.raised then ⟨[], [], received, true⟩
  else
    let fullText :=
      if ctx.stops = [] then received else (truncateAtStop received ctx.stops).1
    match parseToolCalls codec ctx.hexCall fullText ctx.tools with
    | none => ⟨[], [], fullText, true⟩
    | some (remaining, parsed) =>
      if remaining ≠ [] ∨ parsed = [] then
        let visibleText := if remaining = [] then fullText else remaining
        ⟨[messageAdded ctx 0, contentAdded ctx 0, .textDelta ctx.messageId 0 visibleText] ++
            messageDone ctx 0 visibleText ++ callsBodies ctx 1 0 parsed,
          .message ctx.messageId visibleText :: callItems ctx 0 parsed, fullText, false⟩
      else ⟨callsBodies ctx 0 0 parsed, callItems ctx 0 parsed, fullText, false⟩

/-- The branch for plain text: the item is announced before the first piece is there. -/
def streamPlain (ctx : ResponseContext) (generation : Generation Char) : Generated :=
  let opening := [messageAdded ctx 0, contentAdded ctx 0]
  let (chunks, stopper) := streamLoop (StopStreamer.init ctx.stops) generation.pieces
  if generation.raised ∧ stopper.stopped = false then
    ⟨opening ++ chunks.map (.textDelta ctx.messageId 0), [], chunks.flatten, true⟩
  else
    let deltas := chunks ++ nonemptyChunk stopper.flush.1
    let fullText := deltas.flatten
    ⟨opening ++ deltas.map (.textDelta ctx.messageId 0) ++ messageDone ctx 0 fullText,
      [.message ctx.messageId fullText], fullText, false⟩

/-- The branch that a request takes. -/
def generatedBy (codec : JsonCodec) (ctx : ResponseContext) (generation : Generation Char) :
    Generated :=
  if ctx.useTools then streamTools codec ctx generation else streamPlain ctx generation

def generationErrorCode : Str := "generation_error".toList

def generationErrorMessage : Str :=
  "Response generation failed; see server logs for the request ID.".toList

section Stream

variable {ε κ : Type*} [DecidableEq ε] [DecidableEq κ]

/-- `count_tokens_with_current_engine`: the tokens of `text`, or `none` for an error. -/
def countTokensWithCurrentEngine (countTokens : ε → Str → Option Nat) (requested : ε)
    (attempts : List (LeaseAttempt ε κ)) (text : Str) : Option Nat :=
  match currentEngineLease requested attempts with
  | .yielded engine => countTokens engine text
  | _ => none

/-- `stream_response`: everything that is sent while the client stays connected. -/
def streamResponse (codec : JsonCodec) (countTokens : ε → Str → Option Nat) (requested : ε)
    (ctx : ResponseContext) (generation : Generation Char)
    (attempts : List (LeaseAttempt ε κ)) : List Line :=
  let generated := generatedBy codec ctx generation
  let sent := (Sse.init.event .created).events generated.bodies
  if generated.failed then
    ((sent.event (.error generationErrorCode generationErrorMessage)).event
      (.failed generated.output)).done.lines
  else
    match countTokensWithCurrentEngine countTokens requested attempts generated.fullText with
    | none => sent.lines
    | some tokens => (sent.event (.completed generated.output ctx.promptTokens tokens)).done.lines

end Stream

/-! ### The protocol -/

def Line.body? : Line → Option EventBody
  | .event _ body => some body
  | .done => none

def Line.number? : Line → Option Nat
  | .event n _ => some n
  | .done => none

def EventBody.index? : EventBody → Option Nat
  | .itemAdded index _ | .contentPartAdded _ index | .textDelta _ index _ | .textDone _ index _
  | .contentPartDone _ index _ | .argumentsDelta _ index _ | .argumentsDone _ index _ _
  | .itemDone index _ => some index
  | .created | .error _ _ | .failed _ | .completed _ _ _ => none

def EventBody.delta? : EventBody → Option Str
  | .textDelta _ _ delta | .argumentsDelta _ _ delta => some delta
  | _ => none

/-- The text or the arguments of a done event. -/
def EventBody.doneText? : EventBody → Option Str
  | .textDone _ _ text | .argumentsDone _ _ _ text => some text
  | _ => none

/-- The output of a terminal response event. -/
def EventBody.finalOutput? : EventBody → Option (List OutputItem)
  | .failed output | .completed output _ _ => some output
  | _ => none

/-- The line ends the stream of a response. -/
def Line.closing : Line → Bool
  | .event _ body => body.finalOutput?.isSome
  | .done => true

/-- The events of one item. -/
def itemEvents (index : Nat) (bodies : List EventBody) : List EventBody :=
  bodies.filter fun body => body.index? = some index

/-- The events of a finished item, in order. -/
structure ItemConforms (index : Nat) (events : List EventBody) (item : OutputItem) : Prop where
  added : events.head? = some (.itemAdded index item.stub)
  done : events.getLast? = some (.itemDone index item)
  deltas : (events.filterMap EventBody.delta?).flatten = item.payload
  doneText : events.filterMap EventBody.doneText? = [item.payload]
  order : events.Pairwise fun earlier later => earlier.doneText?.isSome → later.delta? = none

/-- The protocol of a response stream whose final response has the given output. -/
structure Conforms (lines : List Line) (output : List OutputItem) : Prop where
  numbers : lines.filterMap Line.number? = List.range' 1 (lines.filterMap Line.number?).length
  ending : ∃ before n last, lines = before ++ [.event n last, .done] ∧
    last.finalOutput? = some output ∧ ∀ l ∈ before, l.closing = false
  items : ∀ i, (output[i]? = none ∧ itemEvents i (lines.filterMap Line.body?) = []) ∨
    ∃ item, output[i]? = some item ∧
      ItemConforms i (itemEvents i (lines.filterMap Line.body?)) item

/-! ### Numbered events -/

/-- Events numbered from `n` on. -/
def numbered (n : Nat) : List EventBody → List Line
  | [] => []
  | body :: rest => .event n body :: numbered (n + 1) rest

theorem events_spec (bodies : List EventBody) (s : Sse) :
    (s.events bodies).lines = s.lines ++ numbered (s.sequenceNumber + 1) bodies ∧
      (s.events bodies).sequenceNumber = s.sequenceNumber + bodies.length := by
  induction bodies generalizing s with
  | nil => simp [Sse.events, numbered]
  | cons body rest ih =>
    obtain ⟨hlines, hnumber⟩ := ih (s.event body)
    simp only [Sse.events, List.foldl_cons] at hlines hnumber ⊢
    rw [hlines, hnumber]
    simp only [Sse.event, numbered, List.append_assoc, List.singleton_append, List.length_cons,
      true_and]
    omega

theorem numbered_append (n : Nat) (bodies more : List EventBody) :
    numbered n (bodies ++ more) = numbered n bodies ++ numbered (n + bodies.length) more := by
  induction bodies generalizing n with
  | nil => rfl
  | cons body rest ih =>
    simp only [List.cons_append, numbered, ih, List.length_cons]
    rw [Nat.add_right_comm, Nat.add_assoc]

@[simp] theorem numbered_body (n : Nat) (bodies : List EventBody) :
    (numbered n bodies).filterMap Line.body? = bodies := by
  induction bodies generalizing n with
  | nil => rfl
  | cons body rest ih => simp [numbered, Line.body?, ih]

@[simp] theorem numbered_number (n : Nat) (bodies : List EventBody) :
    (numbered n bodies).filterMap Line.number? = List.range' n bodies.length := by
  induction bodies generalizing n with
  | nil => rfl
  | cons body rest ih => simp [numbered, Line.number?, ih, List.range'_succ]

@[simp] theorem done_body : [Line.done].filterMap Line.body? = [] := rfl

@[simp] theorem done_number : [Line.done].filterMap Line.number? = [] := rfl

theorem done_not_mem_numbered (n : Nat) (bodies : List EventBody) :
    Line.done ∉ numbered n bodies := by
  induction bodies generalizing n with
  | nil => simp [numbered]
  | cons body rest ih => simp [numbered, ih]

theorem closing_of_mem_numbered {n : Nat} {bodies : List EventBody}
    (h : ∀ b ∈ bodies, b.finalOutput? = none) : ∀ l ∈ numbered n bodies, l.closing = false := by
  induction bodies generalizing n with
  | nil => simp [numbered]
  | cons body rest ih =>
    have hbody := h body (by simp)
    have hrest := ih (n := n + 1) fun b hb => h b (by simp [hb])
    intro l hl
    rcases List.mem_cons.mp hl with rfl | hl
    · simp [Line.closing, hbody]
    · exact hrest l hl

/-! ### The events of one item -/

/-- The events that announce an item. -/
def itemOpening (index : Nat) : OutputItem → List EventBody
  | .message id _ => [.itemAdded index (.message id []), .contentPartAdded id index]
  | .functionCall id callId name _ => [.itemAdded index (.functionCall id callId name [])]

/-- One piece of the payload of an item. -/
def itemDelta (index : Nat) : OutputItem → Str → EventBody
  | .message id _, delta => .textDelta id index delta
  | .functionCall id _ _ _, delta => .argumentsDelta id index delta

/-- The events that finish an item. -/
def itemClosing (index : Nat) : OutputItem → List EventBody
  | .message id text =>
    [.textDone id index text, .contentPartDone id index text, .itemDone index (.message id text)]
  | .functionCall id callId name arguments =>
    [.argumentsDone id index name arguments,
      .itemDone index (.functionCall id callId name arguments)]

/-- The events of a finished item whose payload was sent as `deltas`. -/
def itemBodies (index : Nat) (item : OutputItem) (deltas : List Str) : List EventBody :=
  itemOpening index item ++ (deltas.map (itemDelta index item) ++ itemClosing index item)

theorem index_of_mem_itemBodies {index : Nat} {item : OutputItem} {deltas : List Str} :
    ∀ b ∈ itemBodies index item deltas, b.index? = some index := by
  have hopening : ∀ b ∈ itemOpening index item, b.index? = some index := by
    cases item <;> simp [itemOpening, EventBody.index?]
  have hclosing : ∀ b ∈ itemClosing index item, b.index? = some index := by
    cases item <;> simp [itemClosing, EventBody.index?]
  intro b hb
  simp only [itemBodies, List.mem_append, List.mem_map] at hb
  rcases hb with hb | ⟨d, -, rfl⟩ | hb
  · exact hopening b hb
  · cases item <;> rfl
  · exact hclosing b hb

theorem finalOutput_of_index {b : EventBody} {index : Nat} (h : b.index? = some index) :
    b.finalOutput? = none := by
  cases b <;> simp_all [EventBody.index?, EventBody.finalOutput?]

theorem itemEvents_append (index : Nat) (bodies more : List EventBody) :
    itemEvents index (bodies ++ more) = itemEvents index bodies ++ itemEvents index more := by
  simp [itemEvents]

theorem itemEvents_itemBodies_self (index : Nat) (item : OutputItem) (deltas : List Str) :
    itemEvents index (itemBodies index item deltas) = itemBodies index item deltas := by
  rw [itemEvents, List.filter_eq_self]
  intro b hb
  simpa using index_of_mem_itemBodies b hb

theorem itemEvents_itemBodies_ne {index other : Nat} (h : other ≠ index) (item : OutputItem)
    (deltas : List Str) : itemEvents index (itemBodies other item deltas) = [] := by
  rw [itemEvents, List.filter_eq_nil_iff]
  intro b hb
  simpa [index_of_mem_itemBodies b hb] using h

@[simp] theorem itemDelta_delta (index : Nat) (item : OutputItem) (d : Str) :
    (itemDelta index item d).delta? = some d := by
  cases item <;> rfl

@[simp] theorem itemDelta_doneText (index : Nat) (item : OutputItem) (d : Str) :
    (itemDelta index item d).doneText? = none := by
  cases item <;> rfl

theorem itemOpening_silent (index : Nat) (item : OutputItem) :
    ∀ b ∈ itemOpening index item, b.delta? = none ∧ b.doneText? = none := by
  cases item <;> simp [itemOpening, EventBody.delta?, EventBody.doneText?]

theorem itemClosing_delta (index : Nat) (item : OutputItem) :
    ∀ b ∈ itemClosing index item, b.delta? = none := by
  cases item <;> simp [itemClosing, EventBody.delta?]

theorem itemClosing_doneText (index : Nat) (item : OutputItem) :
    (itemClosing index item).filterMap EventBody.doneText? = [item.payload] := by
  cases item <;> rfl

/-- Deltas that spell the payload make the events of an item conform. -/
theorem itemConforms_itemBodies (index : Nat) {item : OutputItem} {deltas : List Str}
    (h : deltas.flatten = item.payload) :
    ItemConforms index (itemBodies index item deltas) item where
  added := by cases item <;> rfl
  done := by
    have hlast : (itemClosing index item).getLast? = some (.itemDone index item) := by
      cases item <;> rfl
    rw [itemBodies, List.getLast?_append, List.getLast?_append, hlast]
    rfl
  deltas := by
    have hopen : (itemOpening index item).filterMap EventBody.delta? = [] :=
      List.filterMap_eq_nil_iff.mpr fun b hb => (itemOpening_silent index item b hb).1
    have hclose : (itemClosing index item).filterMap EventBody.delta? = [] :=
      List.filterMap_eq_nil_iff.mpr (itemClosing_delta index item)
    have hmid : (deltas.map (itemDelta index item)).filterMap EventBody.delta? = deltas := by
      simp [List.filterMap_map]
    rw [itemBodies, List.filterMap_append, List.filterMap_append, hopen, hclose, hmid,
      List.append_nil, List.nil_append, h]
  doneText := by
    have hopen : (itemOpening index item).filterMap EventBody.doneText? = [] :=
      List.filterMap_eq_nil_iff.mpr fun b hb => (itemOpening_silent index item b hb).2
    have hmid : (deltas.map (itemDelta index item)).filterMap EventBody.doneText? = [] := by
      simp [List.filterMap_map]
    rw [itemBodies, List.filterMap_append, List.filterMap_append, hopen, hmid,
      itemClosing_doneText, List.nil_append, List.nil_append]
  order := by
    have hclosing := itemClosing_delta index item
    refine List.pairwise_append.mpr ⟨?_, List.pairwise_append.mpr ⟨?_, ?_, ?_⟩, ?_⟩
    · refine List.pairwise_of_forall_mem_list ?_
      intro a ha b _ hdone
      simp [(itemOpening_silent index item a ha).2] at hdone
    · refine List.pairwise_map.mpr (List.pairwise_of_forall ?_)
      intro a b hdone
      simp at hdone
    · refine List.pairwise_of_forall_mem_list ?_
      intro a _ b hb _
      exact hclosing b hb
    · intro a _ b hb _
      exact hclosing b hb
    · intro a ha b _ hdone
      simp [(itemOpening_silent index item a ha).2] at hdone

/-! ### The events of a whole output -/

/-- The events of the items of an output, in order, from index `index` on. -/
def outputBodies (index : Nat) : List (OutputItem × List Str) → List EventBody
  | [] => []
  | entry :: rest => itemBodies index entry.1 entry.2 ++ outputBodies (index + 1) rest

theorem finalOutput_of_mem_outputBodies {index : Nat} (entries : List (OutputItem × List Str)) :
    ∀ b ∈ outputBodies index entries, b.finalOutput? = none := by
  induction entries generalizing index with
  | nil => simp [outputBodies]
  | cons entry rest ih =>
    intro b hb
    rcases List.mem_append.mp hb with hb | hb
    · exact finalOutput_of_index (index_of_mem_itemBodies b hb)
    · exact ih b hb

/-- The events of item `i` stand in its block. -/
theorem itemEvents_outputBodies (entries : List (OutputItem × List Str)) (index i : Nat) :
    itemEvents (index + i) (outputBodies index entries) =
      ((entries[i]?).map fun entry => itemBodies (index + i) entry.1 entry.2).getD [] := by
  induction entries generalizing index i with
  | nil => simp [outputBodies, itemEvents]
  | cons entry rest ih =>
    rw [outputBodies, itemEvents_append]
    cases i with
    | zero =>
      have hrest : itemEvents (index + 0) (outputBodies (index + 1) rest) = [] := by
        have hlater : ∀ (es : List (OutputItem × List Str)) (k : Nat), index < k →
            itemEvents index (outputBodies k es) = [] := by
          intro es
          induction es with
          | nil => intro k _; simp [outputBodies, itemEvents]
          | cons e es ihes =>
            intro k hk
            rw [outputBodies, itemEvents_append, itemEvents_itemBodies_ne (by omega),
              ihes (k + 1) (by omega), List.append_nil]
        exact hlater rest (index + 1) (by omega)
      rw [hrest, List.append_nil, Nat.add_zero, itemEvents_itemBodies_self]
      simp
    | succ i =>
      have hnext := ih (index + 1) i
      rw [show index + 1 + i = index + (i + 1) by omega] at hnext
      rw [itemEvents_itemBodies_ne (by omega), hnext, List.nil_append]
      simp

/-- Every item of an output sent as blocks conforms, and no other index occurs. -/
theorem items_outputBodies {entries : List (OutputItem × List Str)}
    (h : ∀ entry ∈ entries, entry.2.flatten = entry.1.payload) (i : Nat) :
    ((entries.map Prod.fst)[i]? = none ∧ itemEvents i (outputBodies 0 entries) = []) ∨
      ∃ item, (entries.map Prod.fst)[i]? = some item ∧
        ItemConforms i (itemEvents i (outputBodies 0 entries)) item := by
  have hevents := itemEvents_outputBodies entries 0 i
  rw [Nat.zero_add] at hevents
  rw [hevents, List.getElem?_map]
  rcases e : entries[i]? with - | entry
  · exact .inl ⟨rfl, rfl⟩
  · exact .inr ⟨entry.1, rfl, itemConforms_itemBodies i (h entry (List.mem_of_getElem? e))⟩

/-! ### The two branches -/

theorem callsBodies_eq (ctx : ResponseContext) (calls : List ToolCall) (index n : Nat) :
    callsBodies ctx index n calls =
      outputBodies index ((callItems ctx n calls).map fun item => (item, [item.payload])) := by
  induction calls generalizing index n with
  | nil => rfl
  | cons call rest ih =>
    rw [callsBodies, ih]
    rfl

/-- A generation that ended well: its events are blocks of finished items. -/
def Generated.Finished (generated : Generated) : Prop :=
  generated.failed = false ∧ ∃ entries : List (OutputItem × List Str),
    generated.bodies = outputBodies 0 entries ∧ generated.output = entries.map Prod.fst ∧
      ∀ entry ∈ entries, entry.2.flatten = entry.1.payload

/-- The generation ends with an error that the stream sees: it is raised, before the
scanner stopped in a stream without tools, or the calls of the text cannot be read. -/
def GenerationFails (codec : JsonCodec) (ctx : ResponseContext) (generation : Generation Char) :
    Prop :=
  if ctx.useTools then
    generation.raised = true ∨
      parseToolCalls codec ctx.hexCall (truncateAtStop generation.pieces.flatten ctx.stops).1
        ctx.tools = none
  else generation.raised = true ∧ Occurrence.Quiet ctx.stops generation.pieces.flatten

/-- The text whose tokens are counted. -/
def countedText (ctx : ResponseContext) (generation : Generation Char) : Str :=
  if ctx.useTools then (truncateAtStop generation.pieces.flatten ctx.stops).1
  else streamedText ctx.stops generation.pieces

theorem truncateAtStop_nil (text : Str) : truncateAtStop text [] = (text, false) := rfl

theorem streamTools_cases (codec : JsonCodec) {ctx : ResponseContext}
    (htools : ctx.useTools = true) (generation : Generation Char) :
    (GenerationFails codec ctx generation ∧
      (streamTools codec ctx generation).failed = true ∧
      (streamTools codec ctx generation).bodies = [] ∧
      (streamTools codec ctx generation).output = []) ∨
    (¬ GenerationFails codec ctx generation ∧ (streamTools codec ctx generation).Finished ∧
      (streamTools codec ctx generation).fullText = countedText ctx generation) := by
  have hcut : (if ctx.stops = [] then generation.pieces.flatten
      else (truncateAtStop generation.pieces.flatten ctx.stops).1) =
      (truncateAtStop generation.pieces.flatten ctx.stops).1 := by
    split
    · next h => rw [h, truncateAtStop_nil]
    · rfl
  cases hraised : generation.raised with
  | true => exact .inl ⟨by simp [GenerationFails, htools, hraised], by simp [streamTools, hraised]⟩
  | false =>
    rcases e : parseToolCalls codec ctx.hexCall
        (truncateAtStop generation.pieces.flatten ctx.stops).1 ctx.tools with
      - | ⟨remaining, parsed⟩
    · exact .inl ⟨by simp [GenerationFails, htools, e],
        by simp [streamTools, hraised, hcut, e]⟩
    · refine .inr ⟨by simp [GenerationFails, htools, hraised, e], ?_, ?_⟩
      · have hcalls : ∀ entry ∈ (callItems ctx 0 parsed).map fun item => (item, [item.payload]),
            entry.2.flatten = entry.1.payload := by
          intro entry hentry
          obtain ⟨item, -, rfl⟩ := List.mem_map.mp hentry
          simp
        by_cases hvisible : remaining ≠ [] ∨ parsed = []
        · -- a message with the visible text, then the calls
          let visibleText := if remaining = [] then
            (truncateAtStop generation.pieces.flatten ctx.stops).1 else remaining
          refine ⟨by simp [streamTools, hraised, hcut, e, hvisible],
            (.message ctx.messageId visibleText, [visibleText]) ::
              (callItems ctx 0 parsed).map fun item => (item, [item.payload]), ?_, ?_, ?_⟩
          · simp only [streamTools, hraised, hcut, e, hvisible, if_true, Bool.false_eq_true,
              if_false, callsBodies_eq]
            rfl
          · simp [streamTools, hraised, hcut, e, hvisible, visibleText, Function.comp_def]
          · intro entry hentry
            rcases List.mem_cons.mp hentry with rfl | hentry
            · simp [OutputItem.payload]
            · exact hcalls entry hentry
        · refine ⟨by simp [streamTools, hraised, hcut, e, hvisible],
            (callItems ctx 0 parsed).map fun item => (item, [item.payload]), ?_, ?_, hcalls⟩
          · simp only [streamTools, hraised, hcut, e, hvisible, if_false, Bool.false_eq_true,
              callsBodies_eq]
          · simp [streamTools, hraised, hcut, e, hvisible, Function.comp_def]
      · by_cases hvisible : remaining ≠ [] ∨ parsed = [] <;>
          simp [streamTools, hraised, hcut, e, hvisible, countedText, htools]

theorem streamPlain_cases (codec : JsonCodec) {ctx : ResponseContext}
    (htools : ctx.useTools = false) (generation : Generation Char) :
    (GenerationFails codec ctx generation ∧ (streamPlain ctx generation).failed = true ∧
      messageAdded ctx 0 ∈ (streamPlain ctx generation).bodies ∧
      (streamPlain ctx generation).output = []) ∨
    (¬ GenerationFails codec ctx generation ∧ (streamPlain ctx generation).Finished ∧
      (streamPlain ctx generation).fullText = countedText ctx generation) := by
  have hrunning := streamLoop_running_iff (normalizeStop_nonempty ctx.stop) generation.pieces
  by_cases hfail : generation.raised = true ∧
      (streamLoop (StopStreamer.init ctx.stops) generation.pieces).2.stopped = false
  · refine .inl ⟨?_, ?_⟩
    · simp only [GenerationFails, htools, Bool.false_eq_true, if_false]
      exact ⟨hfail.1, hrunning.mp hfail.2⟩
    · simp [streamPlain, hfail]
  · refine .inr ⟨?_, ⟨?_, ?_⟩, ?_⟩
    · simp only [GenerationFails, htools, Bool.false_eq_true, if_false]
      rintro ⟨hraised, hquiet⟩
      exact hfail ⟨hraised, hrunning.mpr hquiet⟩
    · simp only [streamPlain, hfail, if_false]
    · refine ⟨[(.message ctx.messageId (streamedText ctx.stops generation.pieces),
        streamedChunks ctx.stops generation.pieces)], ?_, ?_, ?_⟩
      · simp only [streamPlain, hfail, if_false, outputBodies, List.append_nil, itemBodies,
          List.append_assoc]
        rfl
      · simp only [streamPlain, hfail, if_false]
        rfl
      · simp [OutputItem.payload, streamedText]
    · simp only [streamPlain, hfail, if_false, countedText, htools, Bool.false_eq_true]
      rfl

/-! ### Whole streams -/

section Stream

variable {ε κ : Type*} [DecidableEq ε] [DecidableEq κ]

/-- The engine a request asked for can still count tokens: its lease is granted after
retries only, and the tokenizer of the leased engine returns. -/
def CanCount (countTokens : ε → Str → Option Nat) (requested : ε)
    (attempts : List (LeaseAttempt ε κ)) (text : Str) : Prop :=
  ∃ engine before a after, attempts = before ++ a :: after ∧
    (∀ b ∈ before, b.Retries requested) ∧ a.Grants requested engine ∧
      (countTokens engine text).isSome = true

theorem countTokens_isSome_iff {countTokens : ε → Str → Option Nat} {requested : ε}
    {attempts : List (LeaseAttempt ε κ)} {text : Str} :
    (countTokensWithCurrentEngine countTokens requested attempts text).isSome = true ↔
      CanCount countTokens requested attempts text := by
  constructor
  · intro h
    rcases e : currentEngineLease requested attempts with engine | - | -
    · obtain ⟨before, a, after, hsplit, hretry, hgrant⟩ :=
        currentEngineLease_eq_yielded_iff.mp e
      exact ⟨engine, before, a, after, hsplit, hretry, hgrant,
        by simpa [countTokensWithCurrentEngine, e] using h⟩
    · simp [countTokensWithCurrentEngine, e] at h
    · simp [countTokensWithCurrentEngine, e] at h
  · rintro ⟨engine, before, a, after, hsplit, hretry, hgrant, hcount⟩
    have e := currentEngineLease_eq_yielded_iff.mpr ⟨before, a, after, hsplit, hretry, hgrant⟩
    simpa [countTokensWithCurrentEngine, e] using hcount

/-- The lines of a stream: numbered events, and the marker unless the count failed. -/
theorem streamResponse_lines {codec : JsonCodec} {ctx : ResponseContext}
    {generation : Generation Char} {generated : Generated}
    (hgen : generatedBy codec ctx generation = generated)
    (countTokens : ε → Str → Option Nat) (requested : ε) (attempts : List (LeaseAttempt ε κ)) :
    streamResponse codec countTokens requested ctx generation attempts =
      if generated.failed then
        numbered 1 (.created :: generated.bodies ++
          [.error generationErrorCode generationErrorMessage, .failed generated.output]) ++ [.done]
      else
        match countTokensWithCurrentEngine countTokens requested attempts generated.fullText with
        | none => numbered 1 (.created :: generated.bodies)
        | some tokens => numbered 1 (.created :: generated.bodies ++
            [.completed generated.output ctx.promptTokens tokens]) ++ [.done] := by
  obtain ⟨hlines, hnumber⟩ := events_spec generated.bodies (Sse.init.event .created)
  simp only [streamResponse, hgen]
  generalize (Sse.init.event .created).events generated.bodies = sent at hlines hnumber ⊢
  have hsent : sent.lines = numbered 1 (.created :: generated.bodies) := hlines
  have hcount : sent.sequenceNumber = 1 + generated.bodies.length := hnumber
  have hmore : ∀ bodies : List EventBody, numbered 1 (.created :: generated.bodies ++ bodies) =
      sent.lines ++ numbered (sent.sequenceNumber + 1) bodies := by
    intro bodies
    rw [numbered_append, List.length_cons, hsent, hcount, Nat.add_assoc]
  split
  · rw [hmore]
    simp [Sse.done, Sse.event, numbered]
  · cases countTokensWithCurrentEngine countTokens requested attempts generated.fullText with
    | none => exact hsent
    | some tokens =>
      simp only
      rw [hmore]
      simp [Sse.done, Sse.event, numbered]

/-- **Sequence numbers are consecutive** in every run, also in the ones that break off. -/
theorem streamResponse_numbers (codec : JsonCodec) (countTokens : ε → Str → Option Nat)
    (requested : ε) (ctx : ResponseContext) (generation : Generation Char)
    (attempts : List (LeaseAttempt ε κ)) :
    (streamResponse codec countTokens requested ctx generation attempts).filterMap Line.number? =
      List.range' 1 ((streamResponse codec countTokens requested ctx generation
        attempts).filterMap Line.number?).length := by
  rw [streamResponse_lines rfl]
  split
  · simp
  · split <;> simp

/-- A stream that conforms ends with the marker. -/
theorem Conforms.done_mem {lines : List Line} {output : List OutputItem}
    (h : Conforms lines output) : .done ∈ lines := by
  obtain ⟨before, n, last, rfl, -⟩ := h.ending
  simp

/-- The last event of a conforming stream carries the output it conforms to. -/
theorem Conforms.output_eq {lines before : List Line} {output output' : List OutputItem} {n : Nat}
    {last : EventBody} (h : Conforms lines output)
    (hlines : lines = before ++ [.event n last, .done]) (hlast : last.finalOutput? = some output') :
    output = output' := by
  obtain ⟨before', n', last', heq, hout, -⟩ := h.ending
  rw [hlines] at heq
  obtain ⟨-, htail⟩ := List.append_inj' heq rfl
  simp only [List.cons.injEq, Line.event.injEq, and_true] at htail
  rw [← htail.2, hlast] at hout
  exact (Option.some.inj hout).symm

/-- Blocks of finished items between the created event and a closing part without items
conform. -/
theorem conforms_of_entries {lines : List Line} (entries : List (OutputItem × List Str))
    (middle : List EventBody) (last : EventBody)
    (hlines : lines = numbered 1 (.created :: outputBodies 0 entries ++ (middle ++ [last])) ++ [.done])
    (hmiddle : ∀ b ∈ middle, b.index? = none ∧ b.finalOutput? = none)
    (hlast : last.finalOutput? = some (entries.map Prod.fst)) (hindex : last.index? = none)
    (hspell : ∀ entry ∈ entries, entry.2.flatten = entry.1.payload) :
    Conforms lines (entries.map Prod.fst) where
  numbers := by
    rw [hlines]
    simp
  ending := by
    refine ⟨numbered 1 (.created :: outputBodies 0 entries ++ middle),
      1 + (EventBody.created :: outputBodies 0 entries ++ middle).length, last, ?_, hlast, ?_⟩
    · rw [hlines, ← List.append_assoc, numbered_append]
      simp [numbered]
    · refine closing_of_mem_numbered ?_
      intro b hb
      simp only [List.cons_append, List.mem_cons, List.mem_append] at hb
      rcases hb with rfl | hb | hb
      · rfl
      · exact finalOutput_of_mem_outputBodies entries b hb
      · exact (hmiddle b hb).2
  items := by
    have hbodies : lines.filterMap Line.body? =
        [.created] ++ (outputBodies 0 entries ++ (middle ++ [last])) := by
      rw [hlines]
      simp
    have hother : ∀ (b : EventBody) (i : Nat), b.index? = none → itemEvents i [b] = [] := by
      intro b i hb
      simp [itemEvents, hb]
    have hmid : ∀ i, itemEvents i middle = [] := by
      intro i
      refine List.filter_eq_nil_iff.mpr ?_
      intro b hb
      simp [(hmiddle b hb).1]
    have hrest : ∀ i, itemEvents i (lines.filterMap Line.body?) =
        itemEvents i (outputBodies 0 entries) := by
      intro i
      rw [hbodies, itemEvents_append, itemEvents_append, itemEvents_append, hmid,
        hother .created i rfl, hother last i hindex]
      simp
    intro i
    rw [hrest]
    exact items_outputBodies hspell i

/-- A stream whose generation fails conforms exactly when no item was announced. -/
theorem conforms_failed_iff {lines : List Line} {bodies : List EventBody}
    (hlines : lines = numbered 1 (.created :: bodies ++
      [.error generationErrorCode generationErrorMessage, .failed []]) ++ [.done])
    (hcases : bodies = [] ∨ ∃ item, .itemAdded 0 item ∈ bodies) :
    (∃ output, Conforms lines output) ↔ bodies = [] := by
  constructor
  · rintro ⟨output, h⟩
    rcases hcases with hnil | ⟨item, hmem⟩
    · exact hnil
    · have hsplit : lines = numbered 1 (.created :: bodies ++
          [.error generationErrorCode generationErrorMessage]) ++
          [.event (1 + (EventBody.created :: bodies ++
            [EventBody.error generationErrorCode generationErrorMessage]).length) (.failed []),
            .done] := by
        have htwo : ([.error generationErrorCode generationErrorMessage, .failed []] :
            List EventBody) =
            [.error generationErrorCode generationErrorMessage] ++ [.failed []] := rfl
        rw [hlines, htwo, ← List.append_assoc, numbered_append]
        simp [numbered]
      have hout := h.output_eq hsplit rfl
      subst hout
      -- item 0 was announced, but the final response has no output
      have hevent : .itemAdded 0 item ∈ itemEvents 0 (lines.filterMap Line.body?) := by
        rw [hlines]
        simp [itemEvents, EventBody.index?, hmem]
      rcases h.items 0 with ⟨-, hnone⟩ | ⟨item', hitem, -⟩
      · rw [hnone] at hevent
        simp at hevent
      · simp at hitem
  · intro hnil
    subst hnil
    refine ⟨[], conforms_of_entries [] [.error generationErrorCode generationErrorMessage]
      (.failed []) hlines ?_ rfl rfl (by simp)⟩
    simp [EventBody.index?, EventBody.finalOutput?]

/-- **When the stream conforms**: a generation that fails must fail in the tool branch,
where nothing was announced, and one that ends well must find an engine that counts the
tokens of its text. -/
theorem streamResponse_conforms_iff (codec : JsonCodec) (countTokens : ε → Str → Option Nat)
    (requested : ε) (ctx : ResponseContext) (generation : Generation Char)
    (attempts : List (LeaseAttempt ε κ)) :
    (∃ output, Conforms (streamResponse codec countTokens requested ctx generation attempts)
      output) ↔
    (GenerationFails codec ctx generation → ctx.useTools = true) ∧
      (¬ GenerationFails codec ctx generation →
        CanCount countTokens requested attempts (countedText ctx generation)) := by
  have hbranch : (GenerationFails codec ctx generation ∧
      (generatedBy codec ctx generation).failed = true ∧
      (generatedBy codec ctx generation).output = [] ∧
      ((generatedBy codec ctx generation).bodies = [] ↔ ctx.useTools = true) ∧
      ((generatedBy codec ctx generation).bodies = [] ∨
        ∃ item, .itemAdded 0 item ∈ (generatedBy codec ctx generation).bodies)) ∨
      (¬ GenerationFails codec ctx generation ∧ (generatedBy codec ctx generation).Finished ∧
        (generatedBy codec ctx generation).fullText = countedText ctx generation) := by
    cases htools : ctx.useTools with
    | true =>
      rcases streamTools_cases codec htools generation with ⟨hfail, hf, hb, ho⟩ | hgood
      · exact .inl ⟨hfail, by simp [generatedBy, htools, hf, hb, ho]⟩
      · exact .inr (by simpa [generatedBy, htools] using hgood)
    | false =>
      rcases streamPlain_cases codec htools generation with ⟨hfail, hf, hb, ho⟩ | hgood
      · refine .inl ⟨hfail, by simp [generatedBy, htools, hf], by simp [generatedBy, htools, ho],
          ?_, .inr ⟨.message ctx.messageId [], ?_⟩⟩
        · simpa [generatedBy, htools] using List.ne_nil_of_mem hb
        · rw [generatedBy, htools]
          exact hb
      · exact .inr (by simpa [generatedBy, htools] using hgood)
  have hlines := streamResponse_lines (Eq.refl (generatedBy codec ctx generation))
    countTokens requested attempts
  rcases hbranch with ⟨hfail, hfailed, hout, hnil, hann⟩ | ⟨hno, ⟨hfailed, entries, hb, ho, hspell⟩, htext⟩
  · rw [hfailed, if_pos rfl, hout] at hlines
    rw [conforms_failed_iff hlines hann, hnil]
    simp [hfail]
  · simp only [hno, false_imp_iff, not_false_eq_true, forall_true_left, true_and]
    rw [← countTokens_isSome_iff]
    rw [hfailed, htext, hb, ho] at hlines
    simp only [Bool.false_eq_true, if_false] at hlines
    rcases e : countTokensWithCurrentEngine countTokens requested attempts
        (countedText ctx generation) with - | tokens
    · simp only [e] at hlines
      refine iff_of_false ?_ (by simp)
      rintro ⟨output, h⟩
      have hdone := h.done_mem
      rw [hlines] at hdone
      exact done_not_mem_numbered _ _ hdone
    · simp only [e] at hlines
      exact iff_of_true ⟨_, conforms_of_entries entries []
        (.completed (entries.map Prod.fst) ctx.promptTokens tokens) hlines (by simp) rfl rfl
        hspell⟩ (by simp)

/-- A model that is unloaded between its last token and the count of its tokens leaves a
stream without a terminal event and without the end marker. -/
theorem streamResponse_breaks_off :
    ¬ ∀ (codec : JsonCodec) (countTokens : Nat → Str → Option Nat) (requested : Nat)
      (ctx : ResponseContext) (generation : Generation Char)
      (attempts : List (LeaseAttempt Nat Nat)),
      ∃ output, Conforms (streamResponse codec countTokens requested ctx generation attempts)
        output := by
  intro h
  obtain ⟨output, hbad⟩ := h .rejecting (fun _ text => some text.length) 0
    { useTools := false, tools := none, stop := .absent, messageId := ['m'], promptTokens := 1
      hexCall := fun _ => [], hexItem := fun _ => [] }
    { pieces := [['h', 'i']], raised := false }
    [{ inCatalog := true, installed := none, lock := 0, inCatalogLater := true, latest := none
       latestLock := 0 }]
  have hdone := hbad.done_mem
  revert hdone
  decide

end Stream

end InferBridge
