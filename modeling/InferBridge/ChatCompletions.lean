/-
InferBridge/ChatCompletions.lean

The chat completions endpoint (app/server.py): the reply of the batch
branch with its retry loop, the chunks of the stream branch, and what a
client assembles from the chunks.

The two branches call the tool parser separately.  The batch branch keeps
the text as it is when no call was parsed and the remaining text when some
were; the stream branch sends the cleaned text when no call was parsed and
nothing but the calls when some were.  So the two agree on the calls and
on the finish reason for every text (`streamChat_calls`), and on the
content exactly when the clean-up loses nothing
(`streamChat_agrees_iff`).

Left out: request identifiers, time stamps, the usage chunk and the metrics.
-/
import InferBridge.StopSequences
import InferBridge.Tools

namespace InferBridge

open Text

/-! ### The batch branch -/

inductive FinishReason where
  | stop
  | toolCalls
deriving DecidableEq, Repr

/-- The message of a reply: content and calls may be absent. -/
structure ChatMessage where
  content : Option Str
  toolCalls : Option (List ToolCall)
deriving DecidableEq, Repr

structure ChatReply where
  message : ChatMessage
  finishReason : FinishReason
deriving DecidableEq, Repr

def maxRetries : Nat := 2

/-- The retry loop: a text that looks like a truncated call is generated again, until the
retries are used up.  `generate n` is the text of attempt `n`. -/
def generatedText (useTools : Bool) (generate : Nat → Str) (attempt : Nat) : Nat → Str
  | 0 => generate attempt
  | retries + 1 =>
    if useTools && detectIncompleteToolCall (generate attempt) then
      generatedText useTools generate (attempt + 1) retries
    else generate attempt

/-- The reply for a generated text; `none` is an error that escapes from the parser. -/
def replyTo (codec : JsonCodec) (hex : Nat → Str) (useTools : Bool)
    (tools : Option (List ToolDefinition)) (stop : List Str) (text : Str) : Option ChatReply :=
  if useTools then do
    let (remaining, parsed) ← parseToolCalls codec hex text tools
    if parsed = [] then
      some { message := { content := some text, toolCalls := none }, finishReason := .stop }
    else
      let content := if remaining = [] then none else some remaining
      some { message := { content := content, toolCalls := some parsed }, finishReason := .toolCalls }
  else
    match truncateAtStop text stop with
    | (truncated, true) =>
      some { message := { content := some truncated, toolCalls := none }, finishReason := .stop }
    | (_, false) =>
      some { message := { content := some text, toolCalls := none }, finishReason := .stop }

/-- `_complete_chat`. -/
def completeChat (codec : JsonCodec) (hex : Nat → Str) (useTools : Bool)
    (tools : Option (List ToolDefinition)) (stop : List Str) (generate : Nat → Str) :
    Option ChatReply :=
  replyTo codec hex useTools tools stop (generatedText useTools generate 0 maxRetries)

/-! ### The stream branch -/

/-- A delta: content with or without the role, one call, or nothing. -/
inductive Delta where
  | content (role : Bool) (text : Option Str)
  | toolCall (index : Nat) (call : ToolCall)
  | empty
deriving DecidableEq, Repr

structure Chunk where
  delta : Delta
  finishReason : Option FinishReason
deriving DecidableEq, Repr

/-- The text sent inline when generation fails. -/
def errorNotice : Str :=
  "\n\n[error: generation failed; see server logs for the request ID]".toList

/-- The deltas of a tool request: everything is buffered, parsed and sent at the end. -/
def streamToolDeltas (codec : JsonCodec) (hex : Nat → Str)
    (tools : Option (List ToolDefinition)) (generation : Generation Char) :
    List Delta × FinishReason :=
  if generation.raised then ([.content false (some errorNotice)], .stop)
  else
    let fullText := generation.pieces.flatten
    match parseToolCalls codec hex fullText tools with
    | none => ([.content false (some errorNotice)], .stop)
    | some (remaining, parsed) =>
      if parsed = [] then
        ([.content true (some (if remaining = [] then fullText else remaining))], .stop)
      else
        (.content true none :: parsed.zipIdx.map (fun c => .toolCall c.2 c.1), .toolCalls)

/-- The first content delta carries the role. -/
def contentDeltas : List Str → List Delta
  | [] => []
  | first :: rest => .content true (some first) :: rest.map (fun text => .content false (some text))

/-- The deltas of a request without tools.  An error of the generation is seen only while
the scanner still runs. -/
def streamPlainDeltas (stop : List Str) (generation : Generation Char) : List Delta × FinishReason :=
  let (chunks, stopper) := streamLoop (StopStreamer.init stop) generation.pieces
  if generation.raised ∧ stopper.stopped = false then
    (contentDeltas chunks ++ [.content false (some errorNotice)], .stop)
  else (contentDeltas (chunks ++ nonemptyChunk stopper.flush.1), .stop)

/-- `_stream_chat`: the delta chunks, then the empty one with the finish reason. -/
def streamChat (codec : JsonCodec) (hex : Nat → Str) (useTools : Bool)
    (tools : Option (List ToolDefinition)) (stop : List Str) (generation : Generation Char) :
    List Chunk :=
  let (deltas, finishReason) :=
    if useTools then streamToolDeltas codec hex tools generation
    else streamPlainDeltas stop generation
  deltas.map (fun delta => ⟨delta, none⟩) ++ [⟨.empty, some finishReason⟩]

/-! ### What a client assembles -/

/-- A reply as the client sees it: absent content is empty content, and the identifiers of
the calls, drawn anew for every reply, are left out. -/
@[ext]
structure Assembled where
  content : Str
  calls : List FunctionCall
  finishReason : Option FinishReason
deriving DecidableEq, Repr

/-- A call with index `i` takes place `i` of the list. -/
def placeCall (calls : List FunctionCall) (index : Nat) (call : FunctionCall) :
    List FunctionCall :=
  calls.take index ++ call :: calls.drop (index + 1)

def Assembled.add (seen : Assembled) (chunk : Chunk) : Assembled :=
  let finishReason := chunk.finishReason.or seen.finishReason
  match chunk.delta with
  | .content _ text =>
    { seen with content := seen.content ++ text.getD [], finishReason := finishReason }
  | .toolCall index call =>
    { seen with calls := placeCall seen.calls index call.function, finishReason := finishReason }
  | .empty => { seen with finishReason := finishReason }

def assemble (chunks : List Chunk) : Assembled :=
  chunks.foldl Assembled.add { content := [], calls := [], finishReason := none }

def ChatReply.assembled (reply : ChatReply) : Assembled :=
  { content := reply.message.content.getD []
    calls := (reply.message.toolCalls.getD []).map ToolCall.function
    finishReason := some reply.finishReason }

/-- Calls sent in order with consecutive indices arrive in order. -/
theorem foldl_add_toolCalls (calls : List ToolCall) (seen : Assembled) :
    ((calls.zipIdx seen.calls.length).map fun c => (⟨.toolCall c.2 c.1, none⟩ : Chunk)).foldl
        Assembled.add seen =
      { seen with calls := seen.calls ++ calls.map ToolCall.function } := by
  induction calls generalizing seen with
  | nil => simp
  | cons call rest ih =>
    have hnext := ih { seen with calls := seen.calls ++ [call.function] }
    simp only [List.length_append, List.length_cons, List.length_nil] at hnext
    simp only [List.zipIdx_cons, List.map_cons, List.foldl_cons, Assembled.add, placeCall,
      Option.none_or, List.take_length, List.drop_eq_nil_of_le (Nat.le_succ _)]
    rw [hnext, List.append_assoc, List.singleton_append]

/-- A tool stream whose text parses without an escaping error, as the client sees it. -/
theorem assemble_streamChat {codec : JsonCodec} {hex : Nat → Str}
    {tools : Option (List ToolDefinition)} {stop pieces : List Str} {remaining : Str}
    {parsed : List ToolCall}
    (h : parseToolCalls codec hex pieces.flatten tools = some (remaining, parsed)) :
    assemble (streamChat codec hex true tools stop ⟨pieces, false⟩) =
      if parsed = [] then
        { content := if remaining = [] then pieces.flatten else remaining
          calls := [], finishReason := some .stop }
      else
        { content := [], calls := parsed.map ToolCall.function
          finishReason := some .toolCalls } := by
  by_cases hnil : parsed = []
  · simp [streamChat, streamToolDeltas, h, hnil, assemble, Assembled.add]
  · have hcalls := foldl_add_toolCalls parsed { content := [], calls := [], finishReason := none }
    simp only [List.length_nil, List.nil_append] at hcalls
    simp [streamChat, streamToolDeltas, h, hnil, assemble, Assembled.add, hcalls,
      Function.comp_def]

/-! ### Agreement -/

/-- The spans that the parser accepts. -/
def acceptedSpans (codec : JsonCodec) (text : Str) (tools : Option (List ToolDefinition)) :
    List Span :=
  ((scanCandidates codec (fun _ => []) text tools).map ParseState.acceptedSpans).getD []

/-- The clean-up of the stream branch loses nothing: a text that offers a call is white
space outside the accepted spans, and any other text is all white space or already has
its white space normalised. -/
def CleanUpLossless (codec : JsonCodec) (text : Str) (tools : Option (List ToolDefinition)) :
    Prop :=
  (OffersCall codec text tools →
    ∀ i c, text[i]? = some c → ¬ Covered (acceptedSpans codec text tools) i → isSpace c = true) ∧
  (¬ OffersCall codec text tools →
    (∀ c ∈ text, isSpace c = true) ∨ Normal isSpace ' ' text)

/-- The calls of the two branches and the remaining text are the same for one text. -/
theorem parseToolCalls_hex {codec : JsonCodec} {hex : Nat → Str} (hex' : Nat → Str) {text : Str}
    {tools : Option (List ToolDefinition)} {remaining : Str} {parsed : List ToolCall}
    (h : parseToolCalls codec hex text tools = some (remaining, parsed)) :
    ∃ parsed', parseToolCalls codec hex' text tools = some (remaining, parsed') ∧
      parsed'.map ToolCall.function = parsed.map ToolCall.function := by
  simp only [parseToolCalls, Option.bind_eq_bind, Option.bind_eq_some_iff, Option.some.injEq,
    Prod.mk.injEq] at h ⊢
  obtain ⟨st, hst, hremaining, hparsed⟩ := h
  obtain ⟨st', hst', hsame⟩ := sameUpToIds_scanCandidates hex' hst
  refine ⟨st'.toolCalls, ⟨st', hst', ?_, rfl⟩, ?_⟩
  · rw [← hsame.spans, hremaining]
  · rw [← hparsed, hsame.calls]

theorem acceptedSpans_eq {codec : JsonCodec} {hex : Nat → Str} {text : Str}
    {tools : Option (List ToolDefinition)} {st : ParseState}
    (h : scanCandidates codec hex text tools = some st) :
    acceptedSpans codec text tools = st.acceptedSpans := by
  obtain ⟨st', hst', hsame⟩ := sameUpToIds_scanCandidates (fun _ => []) h
  simp [acceptedSpans, hst', hsame.spans]

/-- The batch reply of a tool request, from the parser's result. -/
theorem replyTo_assembled {codec : JsonCodec} {hex : Nat → Str}
    {tools : Option (List ToolDefinition)} {stop : List Str} {text : Str} {reply : ChatReply}
    (h : replyTo codec hex true tools stop text = some reply) :
    ∃ remaining parsed, parseToolCalls codec hex text tools = some (remaining, parsed) ∧
      reply.assembled =
        if parsed = [] then { content := text, calls := [], finishReason := some .stop }
        else
          { content := remaining, calls := parsed.map ToolCall.function
            finishReason := some .toolCalls } := by
  rcases e : parseToolCalls codec hex text tools with - | ⟨remaining, parsed⟩
  · simp [replyTo, e] at h
  · refine ⟨remaining, parsed, rfl, ?_⟩
    simp only [replyTo, e, if_true, Option.bind_eq_bind, Option.bind_some] at h
    by_cases hnil : parsed = []
    · rw [if_pos hnil] at h
      cases h
      simp [ChatReply.assembled, hnil]
    · rw [if_neg hnil] at h
      cases h
      by_cases hrem : remaining = [] <;> simp [ChatReply.assembled, hnil, hrem]

/-- **Calls and finish reason agree** between the two branches on every text. -/
theorem streamChat_calls {codec : JsonCodec} {hex : Nat → Str} (hex' : Nat → Str)
    {tools : Option (List ToolDefinition)} {stop pieces : List Str} {reply : ChatReply}
    (h : replyTo codec hex true tools stop pieces.flatten = some reply) :
    (assemble (streamChat codec hex' true tools stop ⟨pieces, false⟩)).calls =
        reply.assembled.calls ∧
      (assemble (streamChat codec hex' true tools stop ⟨pieces, false⟩)).finishReason =
        reply.assembled.finishReason := by
  obtain ⟨remaining, parsed, hparse, hreply⟩ := replyTo_assembled h
  obtain ⟨parsed', hparse', hsame⟩ := parseToolCalls_hex hex' hparse
  rw [assemble_streamChat hparse', hreply]
  have hnil : parsed' = [] ↔ parsed = [] := by
    rw [← List.map_eq_nil_iff (f := ToolCall.function), hsame, List.map_eq_nil_iff]
  by_cases hp : parsed = []
  · simp [hp, hnil.mpr hp]
  · have hp' : parsed' ≠ [] := fun h' => hp (hnil.mp h')
    simp [hp, hp', hsame]

/-- The content agrees exactly when the clean-up loses nothing. -/
theorem streamChat_content_iff {codec : JsonCodec} {hex : Nat → Str} (hex' : Nat → Str)
    {tools : Option (List ToolDefinition)} {stop pieces : List Str} {reply : ChatReply}
    (h : replyTo codec hex true tools stop pieces.flatten = some reply) :
    (assemble (streamChat codec hex' true tools stop ⟨pieces, false⟩)).content =
        reply.assembled.content ↔ CleanUpLossless codec pieces.flatten tools := by
  obtain ⟨remaining, parsed, hparse, hreply⟩ := replyTo_assembled h
  obtain ⟨parsed', hparse', hsame⟩ := parseToolCalls_hex hex' hparse
  have hnil : parsed' = [] ↔ parsed = [] := by
    rw [← List.map_eq_nil_iff (f := ToolCall.function), hsame, List.map_eq_nil_iff]
  rw [assemble_streamChat hparse', hreply]
  by_cases hoffer : OffersCall codec pieces.flatten tools
  · -- calls: the stream sends no text, the reply has what stands outside the spans
    obtain ⟨st, hst, hne, hresult⟩ := parseToolCalls_of_offersCall hparse hoffer
    simp only [Prod.mk.injEq] at hresult
    obtain ⟨rfl, rfl⟩ := hresult
    have hne' : parsed' ≠ [] := fun h' => hne (hnil.mp h')
    simp only [hne, hne', if_false, CleanUpLossless, hoffer, not_true_eq_false, forall_true_left,
      false_imp_iff, and_true, acceptedSpans_eq hst]
    rw [eq_comm, cleanText_eq_nil_iff]
    constructor
    · intro hblank i c hc hcov
      exact hblank c ((mem_removeSpans (scanCandidates_forward hst)).mpr ⟨i, hc, hcov⟩)
    · intro hblank c hmem
      obtain ⟨i, hc, hcov⟩ := (mem_removeSpans (scanCandidates_forward hst)).mp hmem
      exact hblank i c hc hcov
  · -- no calls: the stream sends the cleaned text unless nothing is left of it
    have hresult := parseToolCalls_of_not_offersCall hparse hoffer
    simp only [Prod.mk.injEq] at hresult
    obtain ⟨rfl, rfl⟩ := hresult
    have hnil' : parsed' = [] := hnil.mpr rfl
    simp only [hnil', if_true, CleanUpLossless, hoffer, false_imp_iff, not_false_eq_true,
      forall_true_left, true_and]
    rw [← cleanText_eq_nil_iff]
    by_cases hclean : cleanText pieces.flatten = []
    · simp [hclean]
    · simp only [hclean, if_false, false_or]
      exact normalize_eq_self_iff

/-- **Streamed and batch replies to a tool request** are the same for the client exactly
when the clean-up loses nothing of the text. -/
theorem streamChat_agrees_iff (codec : JsonCodec) (hex hex' : Nat → Str)
    (tools : Option (List ToolDefinition)) (stop pieces : List Str) (generate : Nat → Str)
    (reply : ChatReply)
    (hpieces : pieces.flatten = generatedText true generate 0 maxRetries)
    (hreply : completeChat codec hex true tools stop generate = some reply) :
    assemble (streamChat codec hex' true tools stop ⟨pieces, false⟩) = reply.assembled ↔
      CleanUpLossless codec pieces.flatten tools := by
  rw [completeChat, ← hpieces] at hreply
  obtain ⟨hcalls, hfinish⟩ := streamChat_calls hex' hreply
  rw [← streamChat_content_iff hex' hreply]
  constructor
  · intro h
    rw [h]
  · intro hcontent
    exact Assembled.ext hcontent hcalls hfinish

/-- The theorem at a reply whose white space is already normalised. -/
theorem streamChat_agrees_iff_hi :
    assemble (streamChat .rejecting (fun _ => []) true none [] ⟨[['h'], ['i']], false⟩) =
        { content := ['h', 'i'], calls := [], finishReason := some .stop } ↔
      CleanUpLossless .rejecting ['h', 'i'] none :=
  streamChat_agrees_iff .rejecting (fun _ => []) (fun _ => []) none [] [['h'], ['i']]
    (fun _ => ['h', 'i'])
    { message := { content := some ['h', 'i'], toolCalls := none }, finishReason := .stop }
    (by decide) (by decide)

/-- The stream of `a  b` (two blanks) is `a b`, while the batch reply keeps the text. -/
theorem streamChat_collapses_spaces :
    ¬ ∀ (codec : JsonCodec) (hex hex' : Nat → Str) (tools : Option (List ToolDefinition))
      (stop pieces : List Str) (generate : Nat → Str) (reply : ChatReply),
      pieces.flatten = generatedText true generate 0 maxRetries →
      completeChat codec hex true tools stop generate = some reply →
      assemble (streamChat codec hex' true tools stop ⟨pieces, false⟩) = reply.assembled := by
  intro h
  have hbad := h .rejecting (fun _ => []) (fun _ => []) none [] [['a', ' ', ' ', 'b']]
    (fun _ => ['a', ' ', ' ', 'b'])
    { message := { content := some ['a', ' ', ' ', 'b'], toolCalls := none }
      finishReason := .stop }
    (by decide) (by decide)
  revert hbad
  decide

end InferBridge
