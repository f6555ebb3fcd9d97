/-
InferBridge/ChatStream.lean

The event stream of a chat completion without tools (`_stream_chat` in app/server.py) and
the native client that reads it (`StreamChatAsync` in BackendClient.cs).

The server sends a chunk for each piece, a chunk with the finish reason, then counts the
tokens with the engine that the model has by now, and ends with a usage event and the end
marker.  After a failure it sends a notice, the finish chunk and the marker.  The client
takes bytes, in reads of any size: it splits them into lines, joins the data lines of an
event, and asks for a finish chunk and for the marker before it returns the answer.

Design.  The client is a machine that is fed bytes.  Its reader has one step for a byte,
one for a line and one for an event.  The printer and the parser of JSON are a parameter;
a payload is a decoded JSON value.  What the token count reads of the manager is the list
of attempts of its lease.

Main result.  `Completion.frames`, what the server sends, and `streamChatAsync`, the reply.
-/
import InferBridge.Lib.Feed
import InferBridge.Catalog
import InferBridge.ChatCompletions
import InferBridge.EngineHandoff
import InferBridge.HubPreflight

namespace InferBridge.ChatStream

/-- `json.dumps`, and `JsonDocument.Parse` with its depth limit. -/
structure Codec where
  dumps : JsonValue → Str
  parse : Str → Option JsonValue

/-! ### What the server sends -/

/-- An event of the stream: a payload, or the end marker. -/
inductive Frame where
  | event (payload : JsonValue)
  | done

namespace Frame

/-- The text behind `data: `. -/
def data (codec : Codec) : Frame → Str
  | event payload => codec.dumps payload
  | done => "[DONE]".toList

def text (codec : Codec) (frame : Frame) : Str :=
  "data: ".toList ++ frame.data codec ++ "\n\n".toList

def bytes (codec : Codec) (frame : Frame) : HubPreflight.Bytes :=
  (frame.text codec).flatMap String.utf8EncodeChar

end Frame

def finishText : FinishReason → String
  | .stop => "stop"
  | .toolCalls => "tool_calls"

def textValue (text : String) : JsonValue := .str text.toList

def record (fields : List (String × JsonValue)) : JsonValue :=
  .obj (fields.map fun field => (field.1.toList, field.2))

def callValue (index : ℕ) (call : ToolCall) : JsonValue :=
  record
    [("index", .int index), ("id", .str call.id), ("type", textValue "function"),
      ("function",
        record [("name", .str call.function.name), ("arguments", .str call.function.arguments)])]

def deltaValue : Delta → JsonValue
  | .content true text =>
    record [("role", textValue "assistant"), ("content", text.elim .null .str)]
  | .content false text => record [("content", text.elim .null .str)]
  | .toolCall index call => record [("tool_calls", .arr [callValue index call])]
  | .empty => record []

def choiceValue (chunk : Chunk) : JsonValue :=
  record
    [("index", .int 0), ("delta", deltaValue chunk.delta),
      ("finish_reason", chunk.finishReason.elim .null fun r => textValue (finishText r))]

/-- A streamed completion: the request, what the generation yields, and what the token count
finds behind it. -/
structure Completion (ε κ : Type*) where
  requestId : Str
  /-- the time of an event, by its index -/
  created : ℕ → ℕ
  model : Str
  stop : List Str
  includeUsage : Bool
  promptTokens : ℕ
  generation : Generation Char
  /-- the engine that generated -/
  engine : ε
  attempts : List (LeaseAttempt ε κ)
  /-- `none` when the engine raises -/
  countTokens : ε → Str → Option ℕ

/-- What the stream does behind the finish chunk: frames, and whether it ends. -/
structure Tail where
  frames : List Frame
  ended : Bool

namespace Completion

variable {ε κ : Type*} [DecidableEq ε] [DecidableEq κ] (c : Completion ε κ)

/-- The fields that every payload has, and the payload's own ones. -/
def payload (index : ℕ) (fields : List (String × JsonValue)) : JsonValue :=
  record
    ([("id", .str c.requestId), ("object", textValue "chat.completion.chunk"),
      ("created", .int (c.created index)), ("model", .str c.model)] ++ fields)

/-- `chunk` -/
def chunkPayload (chunk : Chunk) (index : ℕ) : JsonValue :=
  c.payload index [("choices", .arr [choiceValue chunk])]

def usagePayload (index completionTokens : ℕ) : JsonValue :=
  c.payload index
    [("choices", .arr []),
      ("usage", record
        [("prompt_tokens", .int c.promptTokens), ("completion_tokens", .int completionTokens),
          ("total_tokens", .int (c.promptTokens + completionTokens : ℕ))])]

def chunks : List Chunk :=
  streamChat .rejecting (fun _ => []) false none c.stop c.generation

/-- `full_text` -/
def fullText : Str := streamedText c.stop c.generation.pieces

/-- `generation_failed`: an error behind a stop is not seen. -/
def failed : Bool :=
  c.generation.raised && !(streamLoop (.init c.stop) c.generation.pieces).2.stopped

/-- `count_tokens_with_current_engine`; `none` while the lease still waits. -/
def counted : Option (Option ℕ) :=
  match currentEngineLease c.engine c.attempts with
  | .waiting => none
  | .notLoaded => some none
  | .yielded engine => some (c.countTokens engine c.fullText)

/-- Behind the count: an error of it ends the stream. -/
def tailOf : Option (Option ℕ) → Tail
  | none => ⟨[], false⟩
  | some none => ⟨[], true⟩
  | some (some n) =>
    ⟨(if c.includeUsage then [.event (c.usagePayload c.chunks.length n)] else []) ++ [.done], true⟩

def tail : Tail := if c.failed then ⟨[.done], true⟩ else c.tailOf c.counted

/-- `_stream_chat` -/
def frames : List Frame :=
  (c.chunks.zipIdx.map fun chunk => .event (c.chunkPayload chunk.1 chunk.2)) ++ c.tail.frames

/-- The body of the response, as far as it is sent. -/
def body (codec : Codec) : HubPreflight.Bytes := c.frames.flatMap (Frame.bytes codec)

end Completion

/-! ### What the client reads -/

inductive ChatError where
  | io (message : String)
  | json (message : String)
  | request (message : String)
  /-- `JsonDocument.Parse` -/
  | parse
  /-- `utf8.GetString` -/
  | encoding
deriving DecidableEq, Repr

def ChatError.streamTooLarge : ChatError := .io "The engine chat stream is too large."

def ChatError.eventTooLarge : ChatError := .io "An engine stream event is too large."

structure ChatUsage where
  promptTokens : ℕ
  completionTokens : ℕ
deriving DecidableEq, Repr

/-- The variables of the reading loop. -/
structure Reader where
  line : HubPreflight.Bytes
  pending : Option Str
  done : Bool
  finished : Bool
  answer : Str
  usage : Option ChatUsage
deriving DecidableEq

def Reader.init : Reader :=
  { line := [], pending := none, done := false, finished := false, answer := [], usage := none }

/-- `MaximumChatBytes` -/
def maximumChatBytes : ℕ := 1024 * 1024

def maximumLineBytes : ℕ := 64 * 1024

def maximumAnswerChars : ℕ := 32000

/-- `string.Length` -/
def length (text : Str) : ℕ :=
  (text.map fun c => if c.toNat < 0x10000 then 1 else 2).sum

/-- `TryGetProperty`: the last property of that name. -/
def property (name : String) : JsonValue → Option JsonValue
  | .obj fields => fields.reverse.lookup name.toList
  | _ => none

def isObject : JsonValue → Bool
  | .obj _ => true
  | _ => false

/-- `Count` -/
def count (name : String) (maximum : ℕ) (owner : JsonValue) : Option ℕ :=
  match property name owner with
  | some (.int n) => if 0 ≤ n ∧ n ≤ maximum then some n.toNat else none
  | _ => none

/-- `ChatUsage.TryParse` -/
def ChatUsage.tryParse (root : JsonValue) : Option ChatUsage :=
  match property "usage" root with
  | some usage =>
    match count "prompt_tokens" 10000000 usage, count "completion_tokens" 1000000 usage with
    | some prompt, some completion => some ⟨prompt, completion⟩
    | _, _ => none
  | none => none

/-- The text by which the client knows an inline failure. -/
def failureMarker : Str :=
  "[error: generation failed; see server logs for the request ID]".toList

/-- A reason other than `stop` is refused. -/
def processFinish (choice : JsonValue) (r : Reader) : Except ChatError Reader :=
  match property "finish_reason" choice with
  | none => .ok r
  | some .null => .ok r
  | some (.str reason) =>
    if reason = "stop".toList then .ok { r with finished := true }
    else .error (.request
      "The engine stopped before completing the reply. Check the model and token limit.")
  | some _ => .error (.request
      "The engine stopped before completing the reply. Check the model and token limit.")

def processText (text : Str) (r : Reader) : Except ChatError Reader :=
  if failureMarker <:+: text then
    .error (.request "Local generation failed. Check engine logs.")
  else if maximumAnswerChars < length r.answer + length text then
    .error (.io "The chat reply exceeds the native context limit.")
  else .ok { r with answer := r.answer ++ text }

/-- A delta that is no object, or has no content, is a role or the finish chunk. -/
def processContent (choice : JsonValue) (r : Reader) : Except ChatError Reader :=
  match (property "delta" choice).bind (property "content") with
  | none => .ok r
  | some .null => .ok r
  | some (.str text) => processText text r
  | some _ => .error (.json "Invalid streaming chat content.")

def processChoice (choice : JsonValue) (r : Reader) : Except ChatError Reader :=
  if isObject choice then (processFinish choice r).bind (processContent choice)
  else .error (.json "Invalid streaming chat choice.")

def processRoot (root : JsonValue) (r : Reader) : Except ChatError Reader :=
  match property "choices" root with
  | some (.arr []) => .ok { r with usage := (ChatUsage.tryParse root).or r.usage }
  | some (.arr (choice :: _)) => processChoice choice r
  | _ => .error (.json "Invalid streaming chat event.")

variable (codec : Codec)

/-- `ProcessEvent` -/
def processEvent (payload : Str) (r : Reader) : Except ChatError Reader :=
  if payload = "[DONE]".toList then .ok { r with done := true }
  else
    match codec.parse payload with
    | none => .error .parse
    | some root => processRoot root r

/-- An empty line: the event is complete. -/
def processPending (r : Reader) : Except ChatError Reader :=
  match r.pending with
  | none => .ok r
  | some payload => (processEvent codec payload r).map fun r => { r with pending := none }

def addData (data : Str) (r : Reader) : Except ChatError Reader :=
  let pending := r.pending.elim data fun before => before ++ '\n' :: data
  if maximumLineBytes < length pending then .error .eventTooLarge
  else .ok { r with pending := some pending }

def readLine (line : Str) (r : Reader) : Except ChatError Reader :=
  if line = [] then processPending codec r
  else if "data:".toList <+: line then addData ((line.drop 5).dropWhile (· = ' ')) r
  else if line.head? = some ':' ∨ "event:".toList <+: line then .ok r
  else .error (.json "Unexpected engine stream field.")

/-- `utf8.GetString` with an encoding that throws on bytes that are not UTF-8. -/
def decodeUtf8 (bytes : HubPreflight.Bytes) : Option Str :=
  (HubPreflight.utf8Strict bytes).map (List.map Char.ofNat)

/-- The body of the loop over the bytes of a read. -/
def readByte (r : Reader) (value : UInt8) : Except ChatError Reader :=
  if value ≠ 10 then
    if maximumLineBytes ≤ r.line.length then .error .eventTooLarge
    else .ok { r with line := r.line ++ [value] }
  else
    match decodeUtf8 r.line with
    | none => .error .encoding
    | some text => readLine codec (text.rdropWhile (· = '\r')) { r with line := [] }

/-- The reading loop, a byte at a time. -/
def client : Feed.Machine Reader UInt8 ChatError where
  step := readByte codec
  done := Reader.done

/-- The reply: a call that is still waiting for the rest of an open stream has none. -/
inductive Reply where
  | returned (answer : Str) (usage : Option ChatUsage)
  | thrown (error : ChatError)
  | waiting
deriving DecidableEq

/-- Behind the loop. -/
def finishReply (r : Reader) : Reply :=
  if !r.done || !r.finished then
    .thrown (.io "The engine disconnected before completing the chat stream.")
  else if r.answer = [] then
    .thrown (.json "The engine returned an empty streamed answer.")
  else .returned r.answer r.usage

/-- `StreamChatAsync`, given what the network reads return and whether the stream ends behind
them. -/
def streamChatAsync (ended : Bool) (reads : List HubPreflight.Bytes) : Reply :=
  match (client codec).reads maximumChatBytes .streamTooLarge 0 .init reads with
  | .error e => .thrown e
  | .ok r => if !r.done && !ended then .waiting else finishReply r

end InferBridge.ChatStream
