/-
InferBridge/ResponseTexts.lean

The text of a Responses result that offers tools (app/responses_api.py).

Both replies hand the generated text to the tool parser and show what the
parser leaves of it.  The parser cleans that up: every run of white space
becomes one blank and none is left at the ends.  So a text without a call
comes back changed unless its white space was that way already; when
nothing is left, both replies fall back to the text itself.

Main result: `replies_verbatim_iff`.
-/
import InferBridge.Responses

namespace InferBridge.ResponseTexts

open Text

/-! ### The replies -/

/-- The text that the parser is given: what was generated, up to a stop. -/
def spoken (ctx : ResponseContext) (text : Str) : Str :=
  if ctx.stops = [] then text else (truncateAtStop text ctx.stops).1

/-- `output` of `complete_response`; `none` is an error that escapes from the parser. -/
def completeOutput (codec : JsonCodec) (ctx : ResponseContext) (generated : Str) :
    Option (List OutputItem) :=
  let text := spoken ctx generated
  if ctx.useTools then do
    let (remaining, parsed) ← parseToolCalls codec ctx.hexCall text ctx.tools
    let visible := if remaining = [] then [] else [OutputItem.message ctx.messageId remaining]
    let fallback :=
      if parsed = [] ∧ remaining = [] then [OutputItem.message ctx.messageId text] else []
    some (visible ++ callItems ctx 0 parsed ++ fallback)
  else some [.message ctx.messageId text]

/-- The output text of a result: the texts of its messages. -/
def outputText : List OutputItem → Str
  | [] => []
  | .message _ text :: rest => text ++ outputText rest
  | .functionCall _ _ _ _ :: rest => outputText rest

/-- The text that the deltas of a stream spell. -/
def deltaText (bodies : List EventBody) : Str := (bodies.filterMap EventBody.delta?).flatten

/-- Both replies to a generated text show it as it is. -/
def Verbatim (codec : JsonCodec) (ctx : ResponseContext) (pieces : List Str) : Prop :=
  (completeOutput codec ctx pieces.flatten).map outputText = some (spoken ctx pieces.flatten) ∧
    outputText (generatedBy codec ctx ⟨pieces, false⟩).output = spoken ctx pieces.flatten ∧
      deltaText (generatedBy codec ctx ⟨pieces, false⟩).bodies = spoken ctx pieces.flatten

/-! ### A text without a call -/

variable {codec : JsonCodec} {ctx : ResponseContext} {pieces : List Str} {remaining : Str}

/-- What is shown of a text without a call. -/
def shown (text : Str) : Str := if cleanText text = [] then text else cleanText text

/-- The parser accepts no call exactly if no candidate offers one. -/
theorem remaining_of_no_calls {hex : Nat → Str} {text : Str}
    {tools : Option (List ToolDefinition)}
    (h : parseToolCalls codec hex text tools = some (remaining, [])) :
    remaining = cleanText text := by
  have hno : ¬ OffersCall codec text tools := by
    intro hoffer
    obtain ⟨st, -, hcalls, hresult⟩ := parseToolCalls_of_offersCall h hoffer
    exact hcalls (congrArg Prod.snd hresult).symm
  exact congrArg Prod.fst (parseToolCalls_of_not_offersCall h hno)

theorem completeOutput_no_calls (htools : ctx.useTools = true)
    (h : parseToolCalls codec ctx.hexCall (spoken ctx pieces.flatten) ctx.tools =
      some (remaining, [])) :
    completeOutput codec ctx pieces.flatten =
      some [.message ctx.messageId (shown (spoken ctx pieces.flatten))] := by
  unfold completeOutput
  rw [if_pos htools]
  show (parseToolCalls codec ctx.hexCall (spoken ctx pieces.flatten) ctx.tools >>= _) = _
  rw [h, remaining_of_no_calls h]
  unfold shown
  by_cases hclean : cleanText (spoken ctx pieces.flatten) = []
  · show some _ = _
    rw [if_pos hclean, if_pos hclean, if_pos ⟨rfl, hclean⟩]
    rfl
  · show some _ = _
    rw [if_neg hclean, if_neg hclean, if_neg fun hboth => hclean hboth.2]
    rfl

theorem generatedBy_no_calls (htools : ctx.useTools = true)
    (h : parseToolCalls codec ctx.hexCall (spoken ctx pieces.flatten) ctx.tools =
      some (remaining, [])) :
    generatedBy codec ctx ⟨pieces, false⟩ =
      ⟨[messageAdded ctx 0, contentAdded ctx 0,
          .textDelta ctx.messageId 0 (shown (spoken ctx pieces.flatten))] ++
        messageDone ctx 0 (shown (spoken ctx pieces.flatten)),
        [.message ctx.messageId (shown (spoken ctx pieces.flatten))],
        spoken ctx pieces.flatten, false⟩ := by
  unfold generatedBy
  rw [if_pos htools]
  have hspoken : (if ctx.stops = [] then pieces.flatten
      else (truncateAtStop pieces.flatten ctx.stops).1) = spoken ctx pieces.flatten := rfl
  dsimp only [streamTools]
  rw [if_neg Bool.false_ne_true, hspoken, h, remaining_of_no_calls h]
  show (if cleanText _ ≠ [] ∨ ([] : List ToolCall) = [] then _ else _ : Generated) = _
  rw [if_pos (Or.inr rfl)]
  rfl

/-- What is shown is the text itself exactly if nothing is left to show, or nothing is to be
cleaned up. -/
theorem shown_eq_iff {text : Str} :
    shown text = text ↔ (∀ c ∈ text, isSpace c = true) ∨ Normal isSpace ' ' text := by
  unfold shown
  rw [← cleanText_eq_nil_iff]
  by_cases hclean : cleanText text = []
  · rw [if_pos hclean]
    exact iff_of_true rfl (Or.inl hclean)
  · rw [if_neg hclean]
    constructor
    · intro hsame
      exact Or.inr (normalize_eq_self_iff.mp hsame)
    · intro h
      exact normalize_eq_self_iff.mpr (h.resolve_left hclean)

/-- **Verbatim replies.** Where the parser accepts no call, the replies show the text as it is
exactly if the text is all white space, or its white space is normalised already. -/
theorem replies_verbatim_iff (htools : ctx.useTools = true)
    (h : parseToolCalls codec ctx.hexCall (spoken ctx pieces.flatten) ctx.tools =
      some (remaining, [])) :
    Verbatim codec ctx pieces ↔
      (∀ c ∈ spoken ctx pieces.flatten, isSpace c = true) ∨
        Normal isSpace ' ' (spoken ctx pieces.flatten) := by
  unfold Verbatim
  rw [completeOutput_no_calls htools h, generatedBy_no_calls htools h, ← shown_eq_iff]
  generalize spoken ctx pieces.flatten = text
  have houtput : outputText [.message ctx.messageId (shown text)] = shown text := List.append_nil _
  have hdeltas : deltaText ([messageAdded ctx 0, contentAdded ctx 0,
      .textDelta ctx.messageId 0 (shown text)] ++ messageDone ctx 0 (shown text)) = shown text := by
    show [shown text].flatten = shown text
    rw [List.flatten_singleton]
  constructor
  · rintro ⟨-, hstream, -⟩
    exact houtput.symm.trans hstream
  · intro hshown
    refine ⟨?_, houtput.trans hshown, hdeltas.trans hshown⟩
    rw [Option.map_some, houtput, hshown]

/-! ### Two texts -/

/-- A tool request without stops. -/
def plainContext : ResponseContext where
  useTools := true
  tools := none
  stop := .absent
  messageId := "msg".toList
  promptTokens := 1
  hexCall := fun _ => []
  hexItem := fun _ => []

theorem replies_verbatim_hi :
    Verbatim .rejecting plainContext ["hi".toList] ↔
      (∀ c ∈ spoken plainContext ["hi".toList].flatten, isSpace c = true) ∨
        Normal isSpace ' ' (spoken plainContext ["hi".toList].flatten) :=
  replies_verbatim_iff rfl (show _ = some ("hi".toList, []) from rfl)

/-- Two lines come back as one. -/
theorem replies_join_lines :
    ¬ ∀ (codec : JsonCodec) (ctx : ResponseContext) (pieces : List Str) (remaining : Str),
      ctx.useTools = true →
        parseToolCalls codec ctx.hexCall (spoken ctx pieces.flatten) ctx.tools =
          some (remaining, []) →
            Verbatim codec ctx pieces := by
  intro h
  have hjoined := (h .rejecting plainContext ["a\nb".toList] "a b".toList rfl rfl).2.1
  have hne : ("a b".toList : Str) ≠ "a\nb".toList := by decide
  exact hne hjoined

end InferBridge.ResponseTexts
