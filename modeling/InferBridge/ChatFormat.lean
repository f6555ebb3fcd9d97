/-
InferBridge/ChatFormat.lean

From a chat request to normalized messages (app/chat_format.py), with what
that takes: the checks and the decoding of message content
(app/multimodal.py) and the system text that offers tools (app/tools.py).

Base64 and image decoding are outside; they are the fields of `ImageCodec`.
Contents are JSON as it came, and every check of its form is here.

Main results.  The request schema lets images stand in user messages only,
and normalization keeps those: a normalized request has as many images as
its messages have image parts (`actualImageCount_normalized`).
-/
import InferBridge.Catalog
import InferBridge.PromptBudget
import InferBridge.Lib.Accepted

namespace InferBridge

open Text

/-- What may be raised on the way to a prompt; `uncaught` stands for the errors of the host
language that no handler expects. -/
inductive Failure (ε : Type) where
  | valueError (message : Str)
  | visionCapacity (message : Str)
  | http (status : Nat) (detail : Str)
  | uncaught
  | engine (error : ε)

/-- Reading data URLs: the size of the image by its URL alone, and the image itself. -/
structure ImageCodec (ι : Type) where
  preflightDataUrl : Str → Except Str Nat
  decodeDataUrl : Str → Except Str ι
  byteSize : ι → Nat
  pixelCount : ι → Nat
  repr : List (ContentPart ι) → Str

section
variable {ι ε : Type}

def invalid {α : Type} (message : Str) : Except (Failure ε) α := .error (.valueError message)

/-- A check that raises with its own message. -/
def raising {α : Type} : Except Str α → Except (Failure ε) α
  | .ok a => .ok a
  | .error message => invalid message

/-! ### Content parts -/

def supportedTextPartTypes : List Str :=
  ["text".toList, "input_text".toList, "output_text".toList]

def supportedImagePartTypes : List Str := ["image_url".toList, "input_image".toList]

/-- A number that is zero: no digit but zeros before its exponent. -/
def isZeroLiteral (literal : Str) : Bool :=
  (literal.takeWhile fun c => c ≠ 'e' ∧ c ≠ 'E').all fun c => c = '0' || c = '-' || c = '.'

/-- The truth value of a decoded value. -/
def Json.truthy : Json → Bool
  | .null => false
  | .bool b => b
  | .num literal => !isZeroLiteral literal
  | .str s => !s.isEmpty
  | .arr items => !items.isEmpty
  | .obj fields => !fields.isEmpty

variable (codec : JsonCodec)

/-- `_part_type` -/
def partType (fields : List (Str × Json)) : Str :=
  match fields.lookup "type".toList with
  | none => []
  | some value =>
    if value.truthy then
      lower (strip isSpace (match value with
        | .str s => s
        | value => codec.str value))
    else []

/-- `_image_url_from_part` -/
def imageUrlFromPart (fields : List (Str × Json)) : Except (Failure ε) Str :=
  let get (key : Str) : Json := (fields.lookup key).getD .null
  let candidate := match get "image_url".toList with
    | .obj inner => (inner.lookup "url".toList).getD .null
    | value => value
  let candidate :=
    if !candidate.truthy && partType codec fields = "input_image".toList then
      if (get "file_data".toList).truthy then get "file_data".toList else get "data".toList
    else candidate
  match candidate with
  | .str (c :: rest) => .ok (c :: rest)
  | _ => invalid ("Content part '".toList ++ partType codec fields ++
      "' must include an image data URL.".toList)

/-- `_text_from_part` -/
def textFromPart (fields : List (Str × Json)) : Except (Failure ε) Str :=
  let texts := ["text".toList, "content".toList, "value".toList].filterMap fun key =>
    match fields.lookup key with
    | some (.str value) => some value
    | _ => none
  match texts with
  | text :: _ => .ok text
  | [] =>
    let named := partType codec fields
    invalid ("Content part '".toList ++ (if named.isEmpty then "text".toList else named) ++
      "' must include text.".toList)

def isImagePart : Json → Bool
  | .obj fields => supportedImagePartTypes.contains (partType codec fields)
  | _ => false

def unsupportedPart (named : Str) : Str :=
  "Unsupported message content part type '".toList ++ named ++ "'.".toList

def invalidContent : Str :=
  "Message content must be a string, a list of content parts, or null.".toList

def invalidPart : Str := "Each message content part must be a string or object.".toList

/-! ### Limits of a request -/

def maxImagesPerRequest : Nat := 4

def maxRequestImageBytes : Nat := 24 * 1024 * 1024

def maxRequestImagePixels : Nat := 40000000

def maxRequestTextChars : Nat := 2000000

def maxContentPartsPerRequest : Nat := 1024

def tooManyImages : Str := "A request may contain at most 4 images.".toList

def tooManyBytes : Str := "Combined image data must be 24 MiB or smaller.".toList

def tooManyPixels : Str :=
  "Combined image dimensions exceed the 40,000,000-pixel request limit.".toList

/-- What `preflight_request_contents` has counted so far. -/
structure RequestTotals where
  imageCount : Nat := 0
  estimatedBytes : Nat := 0
  textChars : Nat := 0
  contentParts : Nat := 0

def RequestTotals.accountText (t : RequestTotals) (text : Str) : Except (Failure ε) RequestTotals :=
  if maxRequestTextChars < t.textChars + text.length then
    invalid "Request text may contain at most 2,000,000 characters.".toList
  else .ok { t with textChars := t.textChars + text.length }

def RequestTotals.accountPart (t : RequestTotals) : Except (Failure ε) RequestTotals :=
  if maxContentPartsPerRequest < t.contentParts + 1 then
    invalid "A request may contain at most 1,024 content parts.".toList
  else .ok { t with contentParts := t.contentParts + 1 }

variable (images : ImageCodec ι)

/-- One part of a list content in `preflight_request_contents`. -/
def preflightPart (role : Str) (t : RequestTotals) (part : Json) :
    Except (Failure ε) RequestTotals := do
  let t ← t.accountPart
  match part with
  | .str text => t.accountText text
  | .obj fields =>
    if supportedImagePartTypes.contains (partType codec fields) then
      if lower role ≠ "user".toList then
        invalid "Image content is only supported in user messages.".toList
      else do
        let url ← imageUrlFromPart codec fields
        let size ← raising (images.preflightDataUrl url)
        let t := { t with
          imageCount := t.imageCount + 1
          estimatedBytes := t.estimatedBytes + size }
        if maxImagesPerRequest < t.imageCount then invalid tooManyImages
        else if maxRequestImageBytes + 3 * t.imageCount < t.estimatedBytes then
          invalid tooManyBytes
        else .ok t
    else if supportedTextPartTypes.contains (partType codec fields) ||
        (partType codec fields).isEmpty then do
      let text ← textFromPart codec fields
      t.accountText text
    else invalid (unsupportedPart (partType codec fields))
  | _ => invalid invalidPart

def preflightContent (t : RequestTotals) (item : Str × Json) : Except (Failure ε) RequestTotals :=
  match item.2 with
  | .null => .ok t
  | .str text => t.accountText text
  | .arr parts => parts.foldlM (preflightPart codec images item.1) t
  | _ => invalid invalidContent

/-- `preflight_request_contents`, of contents as they come in a request. -/
def preflightRequestContents (contents : List (Str × Json)) : Except (Failure ε) Unit := do
  let t ← contents.foldlM (preflightContent codec images) {}
  if maxImagesPerRequest < t.imageCount then invalid tooManyImages
  else if maxRequestImageBytes < t.estimatedBytes then invalid tooManyBytes
  else .ok ()

/-! ### Normalized content -/

def Content.payloads : Content ι → List ι
  | .text _ => []
  | .multimodal parts => parts.filterMap fun part =>
    match part with
    | .text _ => none
    | .image payload => some payload

/-- The parts of `validate_content`, with the images, bytes and pixels so far. -/
def normalizeParts (count bytes pixels : Nat) : List Json → Except (Failure ε) (List (ContentPart ι))
  | [] => .ok []
  | .str s :: rest => do
    let tail ← normalizeParts count bytes pixels rest
    .ok (.text s :: tail)
  | .obj fields :: rest =>
    if supportedImagePartTypes.contains (partType codec fields) then do
      let url ← imageUrlFromPart codec fields
      let payload ← raising (images.decodeDataUrl url)
      let count := count + 1
      let bytes := bytes + images.byteSize payload
      let pixels := pixels + images.pixelCount payload
      if maxImagesPerRequest < count then invalid tooManyImages
      else if maxRequestImageBytes < bytes then invalid tooManyBytes
      else if maxRequestImagePixels < pixels then invalid tooManyPixels
      else do
        let tail ← normalizeParts count bytes pixels rest
        .ok (.image payload :: tail)
    else if supportedTextPartTypes.contains (partType codec fields) ||
        (partType codec fields).isEmpty then do
      let text ← textFromPart codec fields
      let tail ← normalizeParts count bytes pixels rest
      .ok (.text text :: tail)
    else invalid (unsupportedPart (partType codec fields))
  | _ :: _ => invalid invalidPart

/-- `validate_request_contents`, of one content. -/
def validateRequestContent (content : Content ι) : Except (Failure ε) Unit :=
  if maxImagesPerRequest < content.payloads.length then invalid tooManyImages
  else if maxRequestImageBytes < (content.payloads.map images.byteSize).sum then
    invalid tooManyBytes
  else if maxRequestImagePixels < (content.payloads.map images.pixelCount).sum then
    invalid tooManyPixels
  else .ok ()

def isTextPart : ContentPart ι → Bool
  | .text _ => true
  | .image _ => false

/-- `content_to_transport_text` -/
def contentToTransportText (content : Json) : Except (Failure ε) (Content ι) :=
  match content with
  | .null => .ok (.text [])
  | .str s => .ok (.text s)
  | .arr parts => do
    preflightRequestContents codec images [("user".toList, .arr parts)]
    let normalized ← normalizeParts codec images 0 0 0 parts
    if normalized.all isTextPart then
      .ok (.text (['\n'].intercalate (normalized.map (ContentPart.fragment []))))
    else do
      validateRequestContent images (.multimodal normalized)
      .ok (.multimodal normalized)
  | _ => invalid invalidContent

/-! ### Messages -/

/-- A message of a request. -/
structure RequestMessage where
  role : Str
  content : Json := .null
  toolCalls : Option (List (List (Str × Json))) := none
  toolCallId : Option Str := none

/-- `call.get("function", {}).get(key, default)` -/
def callField (call : List (Str × Json)) (key default : Str) : Except (Failure ε) Json :=
  match (call.lookup "function".toList).getD (.obj []) with
  | .obj fields => .ok ((fields.lookup key).getD (.str default))
  | _ => .error .uncaught

/-- One message of `normalize_messages`. -/
def normalizeMessage (message : RequestMessage) : Except (Failure ε) (Message ι) := do
  let content ← contentToTransportText codec images message.content
  if message.role = "tool".toList then
    let label := match message.toolCallId with
      | none | some [] => []
      | some callId => " (call ".toList ++ callId ++ [')']
    let text := match content with
      | .text s => s
      | .multimodal parts => images.repr parts
    .ok ⟨"user".toList, .text ("[tool result".toList ++ label ++ "]\n".toList ++ text)⟩
  else
    match message.toolCalls with
    | none | some [] => .ok ⟨message.role, content⟩
    | some calls =>
      if message.role = "assistant".toList then do
        let calls ← calls.mapM fun call => do
          let name ← callField call "name".toList []
          let arguments ← callField call "arguments".toList "{}".toList
          .ok (.obj [("name".toList, name), ("arguments".toList, arguments)])
        match content with
        | .text s =>
          .ok ⟨"assistant".toList,
            .text ((if s.isEmpty then [] else s ++ ['\n']) ++ codec.dumps (.arr calls))⟩
        | .multimodal _ => .error .uncaught
      else .ok ⟨message.role, content⟩

/-- `normalize_messages` -/
def normalizeMessages (messages : List RequestMessage) (systemOverride : Str) :
    Except (Failure ε) (List (Message ι)) :=
  if systemOverride.isEmpty then messages.mapM (normalizeMessage codec images)
  else
    match messages with
    | first :: rest =>
      if first.role = "system".toList then do
        let content ← contentToTransportText codec images first.content
        let original := strip isSpace (plainText "[Image]".toList content)
        let combined :=
          if original.isEmpty then strip isSpace systemOverride
          else original ++ "\n\n".toList ++ strip isSpace systemOverride
        let tail ← rest.mapM (normalizeMessage codec images)
        .ok (⟨"system".toList, .text combined⟩ :: tail)
      else do
        let tail ← (first :: rest).mapM (normalizeMessage codec images)
        .ok (⟨"system".toList, .text systemOverride⟩ :: tail)
    | [] => .ok [⟨"system".toList, .text systemOverride⟩]

/-! ### Offering tools -/

/-- A function tool of a request. -/
structure FunctionTool where
  name : Str
  description : Option Str := none
  parameters : Option (List (Str × Json)) := none

def FunctionTool.json (tool : FunctionTool) : Json :=
  .obj [("type".toList, .str "function".toList),
    ("function".toList, .obj [("name".toList, .str tool.name),
      ("description".toList, .str (tool.description.getD [])),
      ("parameters".toList, match tool.parameters with
        | none | some [] =>
          .obj [("type".toList, .str "object".toList), ("properties".toList, .obj [])]
        | some fields => .obj fields)])]

/-- The function that `tool_choice` forces: absent, or a value that should name a tool. -/
def forcedTool : Json → Except (Failure ε) (Option Json)
  | .obj fields =>
    match fields.lookup "type".toList with
    | some (.str kind) =>
      if kind = "function".toList then
        match (fields.lookup "function".toList).getD (.obj []) with
        | .obj inner => .ok ((inner.lookup "name".toList).filter Json.truthy)
        | _ => .error .uncaught
      else .ok none
    | _ => .ok none
  | _ => .ok none

def isText (text : Str) : Json → Bool
  | .str s => decide (s = text)
  | _ => false

variable (dumpsIndented : Json → Str)

def toolsPrompt (instruction : Str) (tools : List FunctionTool) : Str :=
  "You are a helpful assistant with access to the following tools. ".toList ++ instruction ++
    "\n\n# Available Tools\n\n".toList ++ dumpsIndented (.arr (tools.map FunctionTool.json)) ++
    ("\n\n# Tool Call Format\n\nWhen you need to call a tool, respond with a JSON object in this " ++
      "EXACT format:\n\x7b\"name\": \"function_name\", \"arguments\": \x7b\"arg1\": \"value1\"" ++
      "\x7d\x7d\n\nFor multiple tool calls, use a JSON array:\n[\x7b\"name\": \"func1\", " ++
      "\"arguments\": \x7b\x7d\x7d, \x7b\"name\": \"func2\", \"arguments\": \x7b\x7d\x7d]\n\n" ++
      "IMPORTANT: Output ONLY the JSON when calling tools, no other text.").toList

/-- `format_tools_for_prompt` -/
def formatToolsForPrompt (tools : List FunctionTool) (toolChoice : Json) :
    Except (Failure ε) Str :=
  if isText "none".toList toolChoice then .ok []
  else if tools.isEmpty then
    match toolChoice with
    | .obj _ => invalid "tool_choice requires at least one matching function tool.".toList
    | choice =>
      if isText "required".toList choice then
        invalid "tool_choice requires at least one matching function tool.".toList
      else .ok []
  else do
    let forced ← forcedTool toolChoice
    match forced with
    | some name =>
      let matching := tools.filter fun tool => isText tool.name name
      let text := match name with
        | .str s => s
        | value => codec.str value
      if matching.isEmpty then
        invalid ("tool_choice references unknown function '".toList ++ text ++ "'.".toList)
      else
        .ok (toolsPrompt dumpsIndented ("You MUST call the '".toList ++ text ++
          "' function. Do not respond with anything else.".toList) matching)
    | none =>
      let instruction :=
        if isText "required".toList toolChoice then
          ("You MUST call at least one of the available tools. " ++
            "Do not respond without calling a tool.").toList
        else "Use the tools when needed. If you don't need a tool, respond normally.".toList
      .ok (toolsPrompt dumpsIndented instruction tools)

/-! ### Counting images -/

/-- The image parts of a content in a request. -/
def imageParts : Json → Nat
  | .arr parts => parts.countP (isImagePart codec)
  | _ => 0

def requestImages (messages : List RequestMessage) : Nat :=
  (messages.map fun message => imageParts codec message.content).sum

/-- `_actual_image_count` -/
def actualImageCount (messages : List (Message ι)) : Nat :=
  (messages.map fun message => message.content.payloads.length).sum

variable {codec images}

theorem normalizeParts_images {count bytes pixels : Nat} {parts : List Json}
    {normalized : List (ContentPart ι)}
    (h : (normalizeParts codec images count bytes pixels parts :
      Except (Failure ε) (List (ContentPart ι))) = .ok normalized) :
    (Content.multimodal normalized).payloads.length = parts.countP (isImagePart codec) := by
  induction parts generalizing count bytes pixels normalized with
  | nil =>
    cases h
    rfl
  | cons part rest ih =>
    cases part with
    | str s =>
      obtain ⟨tail, hrest, h⟩ := Accepted.bind_eq_ok.mp h
      cases h
      rw [List.countP_cons_of_neg (by simp [isImagePart])]
      show (Content.multimodal tail).payloads.length = _
      exact ih hrest
    | obj fields =>
      rw [normalizeParts] at h
      split at h
      · next himage =>
        obtain ⟨url, -, h⟩ := Accepted.bind_eq_ok.mp h
        obtain ⟨payload, -, h⟩ := Accepted.bind_eq_ok.mp h
        rw [List.countP_cons_of_pos (show isImagePart codec (.obj fields) = true from himage)]
        dsimp only at h
        split at h
        · cases h
        · split at h
          · cases h
          · split at h
            · cases h
            · obtain ⟨tail, hrest, h⟩ := Accepted.bind_eq_ok.mp h
              cases h
              exact congrArg Nat.succ (ih hrest)
      · next himage =>
        rw [List.countP_cons_of_neg (show ¬ isImagePart codec (.obj fields) = true from himage)]
        split at h
        · obtain ⟨text, -, h⟩ := Accepted.bind_eq_ok.mp h
          obtain ⟨tail, hrest, h⟩ := Accepted.bind_eq_ok.mp h
          cases h
          show (Content.multimodal tail).payloads.length = _
          exact ih hrest
        · cases h
    | _ => cases h

theorem payloads_of_texts {normalized : List (ContentPart ι)}
    (h : normalized.all isTextPart = true) : (Content.multimodal normalized).payloads = [] := by
  rw [List.all_eq_true] at h
  refine List.filterMap_eq_nil_iff.mpr ?_
  intro part hpart
  cases part with
  | text s => rfl
  | image payload => cases h _ hpart

theorem contentToTransportText_images {content : Json} {transported : Content ι}
    (h : (contentToTransportText codec images content : Except (Failure ε) (Content ι)) =
      .ok transported) :
    transported.payloads.length = imageParts codec content := by
  cases content with
  | arr parts =>
    obtain ⟨_, -, h⟩ := Accepted.bind_eq_ok.mp h
    obtain ⟨normalized, hnormalized, h⟩ := Accepted.bind_eq_ok.mp h
    have hcount := normalizeParts_images hnormalized
    split at h
    · next htexts =>
      cases h
      rw [payloads_of_texts htexts] at hcount
      exact hcount
    · obtain ⟨_, -, h⟩ := Accepted.bind_eq_ok.mp h
      cases h
      exact hcount
  | null | str =>
    cases h
    rfl
  | _ => cases h

/-- The schema's check lets images stand in user messages only. -/
theorem user_of_preflight {contents : List (Str × Json)}
    (h : (preflightRequestContents codec images contents : Except (Failure ε) Unit) = .ok ()) :
    ∀ item ∈ contents, imageParts codec item.2 ≠ 0 → lower item.1 = "user".toList := by
  obtain ⟨totals, hfold, -⟩ := Accepted.bind_eq_ok.mp h
  intro item hitem himages
  obtain ⟨t, t', hcontent⟩ := Accepted.foldlM_mem hfold item hitem
  obtain ⟨role, content⟩ := item
  cases content with
  | arr parts =>
    obtain ⟨part, hpart, himage⟩ := List.countP_pos_iff.mp (Nat.pos_of_ne_zero himages)
    obtain ⟨s, s', hchecked⟩ := Accepted.foldlM_mem (f := preflightPart codec images role) hcontent
      part hpart
    obtain ⟨s, -, hchecked⟩ := Accepted.bind_eq_ok.mp hchecked
    cases part with
    | obj fields =>
      have himage' : supportedImagePartTypes.contains (partType codec fields) = true := himage
      dsimp only at hchecked
      rw [if_pos himage'] at hchecked
      by_contra hrole
      rw [if_pos hrole] at hchecked
      cases hchecked
    | _ => cases himage
  | _ => exact absurd rfl himages

/-- Where images stand in user messages only, normalizing a message keeps them. -/
theorem normalizeMessage_images {message : RequestMessage} {normalized : Message ι}
    (huser : imageParts codec message.content ≠ 0 → lower message.role = "user".toList)
    (h : (normalizeMessage codec images message : Except (Failure ε) (Message ι)) = .ok normalized) :
    normalized.content.payloads.length = imageParts codec message.content := by
  -- in a message of another role there is nothing to lose
  have hnone (role : Str) (hrole : message.role = role) (hlower : lower role ≠ "user".toList) :
      imageParts codec message.content = 0 := by
    by_contra himages
    rw [← hrole] at hlower
    exact hlower (huser himages)
  obtain ⟨content, hcontent, h⟩ := Accepted.bind_eq_ok.mp h
  have hcount := contentToTransportText_images hcontent
  split at h
  · next htool =>
    cases h
    rw [hnone _ htool (by decide)]
    rfl
  · split at h
    · cases h
      exact hcount
    · cases h
      exact hcount
    · split at h
      · next hassistant =>
        obtain ⟨calls, -, h⟩ := Accepted.bind_eq_ok.mp h
        rw [hnone _ hassistant (by decide)]
        split at h
        · cases h
          rfl
        · cases h
      · cases h
        exact hcount

theorem normalizeTail_images {messages : List RequestMessage} {normalized : List (Message ι)}
    (huser : ∀ message ∈ messages, imageParts codec message.content ≠ 0 →
      lower message.role = "user".toList)
    (h : (messages.mapM (normalizeMessage codec images) : Except (Failure ε) (List (Message ι))) =
      .ok normalized) :
    actualImageCount normalized = requestImages codec messages :=
  congrArg List.sum (Accepted.mapM_map
    (fun message hmessage _ => normalizeMessage_images (huser message hmessage)) h)

/-- **Images.** A normalized request has the images of its messages. -/
theorem actualImageCount_normalized {messages : List RequestMessage} {systemOverride : Str}
    {normalized : List (Message ι)}
    (huser : ∀ message ∈ messages, imageParts codec message.content ≠ 0 →
      lower message.role = "user".toList)
    (h : (normalizeMessages codec images messages systemOverride :
      Except (Failure ε) (List (Message ι))) = .ok normalized) :
    actualImageCount normalized = requestImages codec messages := by
  have hadded (system : Str) (tail : List (Message ι)) :
      actualImageCount (⟨"system".toList, .text system⟩ :: tail) = actualImageCount tail :=
    Nat.zero_add _
  unfold normalizeMessages at h
  split at h
  · exact normalizeTail_images huser h
  · split at h
    · next first rest =>
      split at h
      · next hsystem =>
        obtain ⟨content, -, h⟩ := Accepted.bind_eq_ok.mp h
        obtain ⟨tail, htail, h⟩ := Accepted.bind_eq_ok.mp h
        cases h
        have hfirst : imageParts codec first.content = 0 := by
          by_contra himages
          have hrole := huser first List.mem_cons_self himages
          rw [hsystem] at hrole
          exact absurd hrole (by decide)
        rw [hadded, normalizeTail_images
          (fun message hmessage => huser message (List.mem_cons_of_mem _ hmessage)) htail]
        show _ = imageParts codec first.content + requestImages codec rest
        rw [hfirst, Nat.zero_add]
      · obtain ⟨tail, htail, h⟩ := Accepted.bind_eq_ok.mp h
        cases h
        rw [hadded]
        exact normalizeTail_images huser htail
    · cases h
      rfl

end

end InferBridge
