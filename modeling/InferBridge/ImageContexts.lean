/-
InferBridge/ImageContexts.lean

The registry of image contexts (app/multimodal.py), and the prompt builder
over it (app/chat_format.py).

A context holds the images of one rendered prompt until the generation
consumes them.  Every critical section under the context lock is one step;
the clock is read before the lock is taken, so the times of the steps need
not be in order.  A uuid is never given out twice.

The builder is a program whose every access to the registry may be preceded
by steps of other requests.  Those do not know the contexts of this build,
since no prompt of it was handed out yet, but they purge them once they
are expired.  Engine failures and token counts are arbitrary.

Main result: `image_contexts`.  The byte total and the caps hold over every
run, and no context is handed out twice; a build leaves registered, of the
contexts it created, the one of the prompt it returns, and none if it raises.
-/
import InferBridge.ConsoleProgress
import InferBridge.Lib.CrashLogic
import InferBridge.Lib.Dict
import InferBridge.Lib.Transition
import InferBridge.PromptBudget

namespace InferBridge.Multimodal

open Text

/-! ### Markers -/

def isHexDigit (c : Char) : Bool :=
  charRange 0x41 0x46 c || charRange 0x61 0x66 c || charRange 0x30 0x39 c

def markerOpening (contextNamespace : Str) : Str :=
  "<ovllm-image-context:".toList ++ (contextNamespace ++ [':'])

/-- `_CONTEXT_MARKER_RE`; behind `\s*`, the anchor `$` is the end of the text. -/
def contextMarker (contextNamespace : Str) : Pattern Char :=
  .seq (.many isSpace) (.seq (.symbols ((markerOpening contextNamespace).map fun c d => d = c))
    (.seq (.group (.symbols (List.replicate 32 isHexDigit))) (.seq (char '>')
      (.seq (.many isSpace) (.notBefore fun _ => true)))))

/-- What `uuid.uuid4().hex` gives: 32 digits. -/
def isUuid (key : Str) : Bool := key.length = 32 && key.all isHexDigit

section
variable (contextNamespace : Str)

/-- `_CONTEXT_MARKER_RE.search(prompt)`: the text before the marker, and the key in it. -/
def findMarker (prompt : Str) : Option (Str × Str) :=
  match (contextMarker contextNamespace).search none prompt with
  | none => none
  | some (before, found) => found.groups.head?.map fun key => (before, key)

def contextKey (prompt : Str) : Option Str := (findMarker contextNamespace prompt).map Prod.snd

def appendPromptContext (prompt : Str) (key : Option Str) : Str :=
  match key with
  | none => prompt
  | some key => prompt ++ '\n' :: (markerOpening contextNamespace ++ (key ++ ['>']))

end

/-! ### The registry -/

def contextTtlSeconds : ℚ := 30 * 60

def contextLimit : Nat := 64

def contextBytesLimit : Int := 512 * 1024 * 1024

/-- `_contexts` and `_context_bytes`; `issued`, `handedOut` and `expired` record the uuids,
what was consumed and what was purged. -/
structure Registry (ι : Type) where
  contexts : Dict Str (ℚ × List ι)
  bytes : Int
  issued : List Str
  handedOut : List Str
  expired : List Str

inductive CapacityError where
  | tooMany
  | memory
deriving DecidableEq, Repr

/-- `RuntimeError` of a generation whose context is gone. -/
inductive ConsumeError where
  | gone
deriving DecidableEq, Repr

section
variable {ι : Type} (byteSize : ι → Nat)

def payloadBytes (payloads : List ι) : Int := ((payloads.map byteSize).sum : Nat)

def Registry.initial : Registry ι := ⟨Dict.empty, 0, [], [], []⟩

/-- `_contexts.pop(key, None)` and the subtraction after it. -/
def Registry.pop (key : Str) (r : Registry ι) : Registry ι × Option (List ι) :=
  match r.contexts.get? key with
  | none => (r, none)
  | some (_, payloads) =>
    ({ r with
      contexts := r.contexts.erase key
      bytes := r.bytes - payloadBytes byteSize payloads }, some payloads)

def Registry.expiredKeys (now : ℚ) (r : Registry ι) : List Str :=
  (r.contexts.items.filter fun item => contextTtlSeconds < now - item.2.1).map Prod.fst

/-- `_purge_contexts_locked` -/
def Registry.purge (now : ℚ) (r : Registry ι) : Registry ι :=
  let keys := r.expiredKeys now
  let r := keys.foldl (fun r key => (r.pop byteSize key).1) r
  { r with expired := r.expired ++ keys }

/-- `_store_context`, with the uuid and the time that it drew. -/
def Registry.store (payloads : List ι) (key : Str) (now : ℚ) (r : Registry ι) :
    Registry ι × Except CapacityError Unit :=
  let size := payloadBytes byteSize payloads
  let r := { r.purge byteSize now with issued := key :: r.issued }
  if contextLimit ≤ r.contexts.items.length then (r, .error .tooMany)
  else if contextBytesLimit < r.bytes + size then (r, .error .memory)
  else
    ({ r with
      contexts := r.contexts.set key (now, payloads)
      bytes := r.bytes + size }, .ok ())

variable (contextNamespace : Str)

/-- `discard_prompt_context` -/
def Registry.discard (prompt : Str) (r : Registry ι) : Registry ι :=
  match contextKey contextNamespace prompt with
  | none => r
  | some key => (r.pop byteSize key).1

/-- `consume_prompt_context` -/
def Registry.consume (prompt : Str) (r : Registry ι) :
    Registry ι × Except ConsumeError (Str × List ι) :=
  match findMarker contextNamespace prompt with
  | none => (r, .ok (prompt, []))
  | some (before, key) =>
    match r.pop byteSize key with
    | (r, none) => (r, .error .gone)
    | (r, some payloads) =>
      ({ r with handedOut := r.handedOut ++ [key] }, .ok (before.rdropWhile isSpace, payloads))

/-- A critical section. -/
inductive ContextEvent (ι : Type) where
  | store (payloads : List ι) (key : Str) (now : ℚ)
  | discard (prompt : Str)
  | consume (prompt : Str)

def registryStep (r : Registry ι) : ContextEvent ι → Option (Registry ι)
  | .store payloads key now =>
    if isUuid key && !decide (key ∈ r.issued) then some (r.store byteSize payloads key now).1 else none
  | .discard prompt => some (r.discard byteSize contextNamespace prompt)
  | .consume prompt => some (r.consume byteSize contextNamespace prompt).1

end

/-! ### Templates -/

/-- A message that is rendered: the role and the text. -/
structure PreparedMessage where
  role : Str
  content : Str
deriving DecidableEq, Repr

section
variable {ι : Type}

/-- The loop over the parts of one message in `prepare_vision_messages`, with the number of
images before it. -/
def prepareParts : Nat → List (ContentPart ι) → List Str × List ι
  | _, [] => ([], [])
  | count, .text s :: parts =>
    let (fragments, payloads) := prepareParts count parts
    (if s.isEmpty then fragments else s :: fragments, payloads)
  | count, .image payload :: parts =>
    let (fragments, payloads) := prepareParts (count + 1) parts
    (("<ov_genai_image_" ++ toString count ++ ">").toList :: fragments, payload :: payloads)

/-- The loop of `prepare_vision_messages`. -/
def prepareMessages : Nat → List (Message ι) → List PreparedMessage × List ι
  | _, [] => ([], [])
  | count, ⟨role, .text s⟩ :: messages =>
    let (prepared, payloads) := prepareMessages count messages
    (⟨role, plainText "[Image]".toList (Content.text s : Content ι)⟩ :: prepared, payloads)
  | count, ⟨role, .multimodal parts⟩ :: messages =>
    let (fragments, images) := prepareParts count parts
    let (prepared, payloads) := prepareMessages (count + images.length) messages
    (⟨role, ['\n'].intercalate fragments⟩ :: prepared, images ++ payloads)

/-- `prepare_text_messages` -/
def prepareTextMessages (messages : List (Message ι)) : List PreparedMessage :=
  messages.map fun message => ⟨message.role,
    plainText "[Image omitted: selected model is not vision-capable.]".toList message.content⟩

end

/-- `render_chatml`, with the prompt for an answer. -/
def renderChatml (messages : List PreparedMessage) : Str :=
  (messages.map fun message => "<|im_start|>".toList ++ message.role ++ '\n' :: message.content ++
    "<|im_end|>\n".toList).flatten ++ "<|im_start|>assistant\n".toList

/-- `_render_messages`: the model's own template, or ChatML where that fails. -/
def renderMessages {ε : Type} (tokenizer : List PreparedMessage → Except ε Str)
    (messages : List PreparedMessage) : Str :=
  match tokenizer messages with
  | .ok prompt => prompt
  | .error _ => renderChatml messages

/-! ### Building a prompt -/

/-- The registry, and the uuids that this build drew. -/
structure World (ι : Type) where
  registry : Registry ι
  created : List Str

/-- What one access of the build meets: the engine's failure, a uuid, the time, a count of
text tokens. -/
structure Draw (ε : Type) where
  fails : Option ε
  key : Str
  now : ℚ
  tokens : Int

inductive Fate (ι ε : Type) where
  | other (event : ContextEvent ι)
  | own (draw : Draw ε)

inductive BuildError (ε : Type) where
  | capacity (e : CapacityError)
  | engine (e : ε)

abbrev Building (ι ε : Type) := Crash (World ι) (Fate ι ε) (BuildError ε)

inductive EngineKind where
  | text
  | vision
deriving DecidableEq, Repr

section
variable {ι ε : Type} (byteSize : ι → Nat) (contextNamespace : Str)

/-- The contexts of the build that another request names. -/
def ContextEvent.names (created : List Str) : ContextEvent ι → Bool
  | .store _ _ _ => false
  | .discard prompt | .consume prompt => (contextKey contextNamespace prompt).any fun key => key ∈ created

/-- A step of another request.  It has no prompt of this build. -/
def interfere (event : ContextEvent ι) (w : World ι) : World ι :=
  if event.names contextNamespace w.created then w
  else match registryStep byteSize contextNamespace w.registry event with
    | none => w
    | some registry => { w with registry }

/-- An access of the build, behind any steps of other requests. -/
def access {α : Type} (op : Draw ε → World ι → Progress (World ι) (BuildError ε) α) :
    Building ι ε α :=
  Crash.perform fun fate w =>
    match fate with
    | .other event => .more (interfere byteSize contextNamespace event w)
    | .own draw => op draw w

/-- `_check_closed`, and every other failure of the engine. -/
def checkEngine : Building ι ε Unit :=
  access byteSize contextNamespace fun draw w =>
    match draw.fails with
    | some e => .fail (.engine e)
    | none => .done w ()

/-- `_store_context`; a draw whose key is no new uuid is passed over. -/
def storeContext (payloads : List ι) : Building ι ε Str := do
  let (key, result) ← access byteSize contextNamespace fun draw w =>
    if isUuid draw.key && !decide (draw.key ∈ w.registry.issued) then
      let (registry, result) := w.registry.store byteSize payloads draw.key draw.now
      .done ⟨registry, draw.key :: w.created⟩ (draw.key, result)
    else .more w
  match result with
  | .ok () => pure key
  | .error e => Crash.raise (.capacity e)

def discardPromptContext (prompt : Str) : Building ι ε Unit :=
  access byteSize contextNamespace fun _ w =>
    .done { w with registry := w.registry.discard byteSize contextNamespace prompt } ()

/-- `prompt_image_token_reserve` -/
def promptImageTokenReserve (prompt : Str) (r : Registry ι) : Int :=
  match (contextKey contextNamespace prompt).bind r.contexts.get? with
  | none => 0
  | some (_, payloads) => payloads.length * 512

def countTokens (kind : EngineKind) (prompt : Str) : Building ι ε Int :=
  access byteSize contextNamespace fun draw w =>
    match draw.fails with
    | some e => .fail (.engine e)
    | none =>
      match kind with
      | .text => .done w draw.tokens
      | .vision => .done w (draw.tokens + promptImageTokenReserve contextNamespace prompt w.registry)

variable (validate : List (Message ι) → Except ε Unit)
  (tokenizer : List PreparedMessage → Except ε Str) (kind : EngineKind)

/-- `apply_chat_template`; `validate` is `validate_request_contents`. -/
def applyTemplate (messages : List (Message ι)) : Building ι ε Str := do
  checkEngine byteSize contextNamespace
  match kind with
  | .text => pure (renderMessages tokenizer (prepareTextMessages messages))
  | .vision =>
    let (prepared, payloads) := prepareMessages 0 messages
    match validate messages with
    | .error e => Crash.raise (.engine e)
    | .ok () =>
      if payloads.isEmpty then pure (renderMessages tokenizer prepared)
      else do
        let key ← storeContext byteSize contextNamespace payloads
        pure (appendPromptContext contextNamespace (renderMessages tokenizer prepared) (some key))

/-- `_count_or_release` -/
def countOrRelease (prompt : Str) : Building ι ε Int :=
  Crash.catchRaised (countTokens byteSize contextNamespace kind prompt) fun e => do
    discardPromptContext byteSize contextNamespace prompt
    Crash.raise e

/-- The bisection of `build_prompt_within_budget`. -/
def windowLoop (system : List (Message ι)) (turns : List (List (Message ι))) (maxPromptLen : Int)
    (low high bestK : Int) : Building ι ε Int :=
  if low ≤ high then do
    let mid := (low + high) / 2
    let candidate ← applyTemplate byteSize contextNamespace validate tokenizer kind
      (system ++ (lastItems turns mid).flatten)
    let candidateTokens ← countOrRelease byteSize contextNamespace kind candidate
    discardPromptContext byteSize contextNamespace candidate
    if candidateTokens ≤ maxPromptLen then
      windowLoop system turns maxPromptLen (mid + 1) high mid
    else windowLoop system turns maxPromptLen low (mid - 1) bestK
  else pure bestK
termination_by (high + 1 - low).toNat
decreasing_by all_goals omega

def renderAndCount (messages : List (Message ι)) : Building ι ε (Str × Int) := do
  let prompt ← applyTemplate byteSize contextNamespace validate tokenizer kind messages
  let tokens ← countOrRelease byteSize contextNamespace kind prompt
  pure (prompt, tokens)

/-- `build_prompt_within_budget` -/
def buildPromptWithinBudget (messages : List (Message ι)) (maxPromptLen : Int) :
    Building ι ε (Str × Int) :=
  if messages.isEmpty then
    renderAndCount byteSize contextNamespace validate tokenizer kind []
  else do
    let (full, fullTokens) ←
      renderAndCount byteSize contextNamespace validate tokenizer kind messages
    if fullTokens ≤ maxPromptLen then pure (full, fullTokens)
    else do
      discardPromptContext byteSize contextNamespace full
      let (system, turns) := splitLeadingSystemAndTurns messages
      if turns.isEmpty then
        renderAndCount byteSize contextNamespace validate tokenizer kind system
      else do
        let bestK ← windowLoop byteSize contextNamespace validate tokenizer kind system turns
          maxPromptLen 1 turns.length 1
        renderAndCount byteSize contextNamespace validate tokenizer kind
          (system ++ (lastItems turns bestK).flatten)

end

/-! ### The accounting -/

section
variable {ι : Type} {byteSize : ι → Nat} {r : Registry ι}

def contextBytes (byteSize : ι → Nat) (item : Str × ℚ × List ι) : Int :=
  payloadBytes byteSize item.2.2

structure Registry.Sound (byteSize : ι → Nat) (r : Registry ι) : Prop where
  bytes : r.bytes = (r.contexts.items.map (contextBytes byteSize)).sum
  count : r.contexts.items.length ≤ contextLimit
  limit : r.bytes ≤ contextBytesLimit
  once : r.handedOut.Nodup
  gone : ∀ key ∈ r.handedOut, r.contexts.get? key = none ∧ key ∈ r.issued
  issued : ∀ key, r.contexts.get? key ≠ none → key ∈ r.issued

theorem payloadBytes_nonneg (payloads : List ι) : 0 ≤ payloadBytes byteSize payloads :=
  Int.natCast_nonneg _

/-- What `pop` does to the contexts. -/
theorem get?_pop (key key' : Str) : (r.pop byteSize key).1.contexts.get? key' =
    if key' = key then none else r.contexts.get? key' := by
  rw [Registry.pop]
  rcases hkey : r.contexts.get? key with - | ⟨created, payloads⟩
  · show r.contexts.get? key' = _
    by_cases hsame : key' = key
    · rw [if_pos hsame, hsame, hkey]
    · rw [if_neg hsame]
  · exact Dict.get?_erase r.contexts key key'

@[simp] theorem pop_issued (key : Str) : (r.pop byteSize key).1.issued = r.issued := by
  rw [Registry.pop]
  split <;> rfl

@[simp] theorem pop_handedOut (key : Str) : (r.pop byteSize key).1.handedOut = r.handedOut := by
  rw [Registry.pop]
  split <;> rfl

@[simp] theorem pop_expired (key : Str) : (r.pop byteSize key).1.expired = r.expired := by
  rw [Registry.pop]
  split <;> rfl

theorem Registry.Sound.pop (h : r.Sound byteSize) (key : Str) :
    (r.pop byteSize key).1.Sound byteSize := by
  have hless : ∀ other, (r.pop byteSize key).1.contexts.get? other ≠ none →
      r.contexts.get? other ≠ none := by
    intro other hother
    rw [get?_pop] at hother
    split_ifs at hother
    · exact absurd rfl hother
    · exact hother
  have hgone : ∀ other ∈ r.handedOut, (r.pop byteSize key).1.contexts.get? other = none ∧
      other ∈ r.issued := by
    intro other hother
    refine ⟨?_, (h.gone other hother).2⟩
    rw [get?_pop, (h.gone other hother).1, ite_self]
  have hitems : (r.pop byteSize key).1.bytes =
        ((r.pop byteSize key).1.contexts.items.map (contextBytes byteSize)).sum ∧
      (r.pop byteSize key).1.contexts.items.length ≤ contextLimit ∧
      (r.pop byteSize key).1.bytes ≤ contextBytesLimit := by
    rw [Registry.pop]
    rcases hkey : r.contexts.get? key with - | ⟨created, payloads⟩
    · exact ⟨h.bytes, h.count, h.limit⟩
    · refine ⟨?_, ?_, ?_⟩
      · show r.bytes - payloadBytes byteSize payloads = _
        rw [Dict.sum_erase hkey, h.bytes]
        rfl
      · exact (List.length_filter_le _ _).trans h.count
      · have hnonneg : 0 ≤ payloadBytes byteSize payloads := payloadBytes_nonneg payloads
        show r.bytes - payloadBytes byteSize payloads ≤ contextBytesLimit
        linarith [h.limit]
  refine ⟨hitems.1, hitems.2.1, hitems.2.2, ?_, ?_, ?_⟩
  · rw [pop_handedOut]
    exact h.once
  · rw [pop_handedOut, pop_issued]
    exact hgone
  · rw [pop_issued]
    exact fun other hother => h.issued other (hless other hother)

/-- Popping several keys. -/
theorem pops_spec (h : r.Sound byteSize) (keys : List Str) :
    let popped := keys.foldl (fun r key => (r.pop byteSize key).1) r
    popped.Sound byteSize ∧ popped.issued = r.issued ∧ popped.handedOut = r.handedOut ∧
      popped.expired = r.expired ∧ ∀ key, popped.contexts.get? key =
        if key ∈ keys then none else r.contexts.get? key := by
  induction keys generalizing r with
  | nil => exact ⟨h, rfl, rfl, rfl, fun key => by simp⟩
  | cons first keys ih =>
    obtain ⟨hsound, hissued, hhanded, hexpired, hget⟩ := ih (h.pop first)
    refine ⟨hsound, hissued.trans (pop_issued first), hhanded.trans (pop_handedOut first),
      hexpired.trans (pop_expired first), ?_⟩
    intro key
    refine (hget key).trans ?_
    rw [get?_pop]
    by_cases hkey : key = first
    · simp [hkey]
    · simp [hkey]

/-- What `_purge_contexts_locked` does. -/
structure Registry.Purged (byteSize : ι → Nat) (r purged : Registry ι) : Prop where
  sound : purged.Sound byteSize
  issued : purged.issued = r.issued
  handedOut : purged.handedOut = r.handedOut
  expired : ∀ key ∈ r.expired, key ∈ purged.expired
  kept : ∀ key, purged.contexts.get? key = r.contexts.get? key ∨
    purged.contexts.get? key = none ∧ key ∈ purged.expired

theorem purge_spec (h : r.Sound byteSize) (now : ℚ) :
    r.Purged byteSize (r.purge byteSize now) := by
  obtain ⟨hsound, hissued, hhanded, hexpired, hget⟩ := pops_spec h (r.expiredKeys now)
  refine ⟨⟨hsound.bytes, hsound.count, hsound.limit, hsound.once, hsound.gone, hsound.issued⟩,
    hissued, hhanded, ?_, ?_⟩
  · intro key hkey
    show key ∈ _ ++ r.expiredKeys now
    rw [hexpired]
    exact List.mem_append_left _ hkey
  · intro key
    have hkey : (r.purge byteSize now).contexts.get? key = _ := hget key
    rw [hkey]
    by_cases hmem : key ∈ r.expiredKeys now
    · rw [if_pos hmem]
      exact .inr ⟨rfl, List.mem_append_right _ hmem⟩
    · rw [if_neg hmem]
      exact .inl rfl

/-- What `_store_context` does: nothing but the purge if it raises, and otherwise it adds the
context under the new key. -/
structure Registry.Stored (byteSize : ι → Nat) (key : Str) (r stored : Registry ι)
    (result : Except CapacityError Unit) : Prop where
  sound : stored.Sound byteSize
  issued : stored.issued = key :: r.issued
  expired : ∀ other ∈ r.expired, other ∈ stored.expired
  kept : ∀ other, other ≠ key → stored.contexts.get? other = r.contexts.get? other ∨
    stored.contexts.get? other = none ∧ other ∈ stored.expired
  new : stored.contexts.get? key ≠ none ↔ result = .ok ()

theorem store_spec (h : r.Sound byteSize) {key : Str} (hnew : key ∉ r.issued)
    (payloads : List ι) (now : ℚ) :
    r.Stored byteSize key (r.store byteSize payloads key now).1
      (r.store byteSize payloads key now).2 := by
  have hpurged := purge_spec h now
  rw [Registry.store]
  generalize r.purge byteSize now = purged at hpurged
  have hfresh : purged.contexts.get? key = none := by
    by_contra hsome
    exact hnew (hpurged.issued ▸ hpurged.sound.issued key hsome)
  have hsound : Registry.Sound byteSize { purged with issued := key :: r.issued } := by
    refine ⟨hpurged.sound.bytes, hpurged.sound.count, hpurged.sound.limit, hpurged.sound.once, ?_,
      ?_⟩
    · intro other hother
      obtain ⟨hnone, hissued⟩ := hpurged.sound.gone other hother
      exact ⟨hnone, List.mem_cons_of_mem _ (hpurged.issued ▸ hissued)⟩
    · intro other hother
      exact List.mem_cons_of_mem _ (hpurged.issued ▸ hpurged.sound.issued other hother)
  have hraised : ∀ e, r.Stored byteSize key { purged with issued := key :: r.issued } (.error e) :=
    fun e => ⟨hsound, rfl, hpurged.expired, fun other _ => hpurged.kept other,
      ⟨fun hsome => absurd hfresh hsome, fun hok => by cases hok⟩⟩
  simp only
  split_ifs with hcount hbytes
  · exact hraised .tooMany
  · exact hraised .memory
  · have hitems := Dict.items_set_of_new hfresh (now, payloads)
    refine ⟨⟨?_, ?_, ?_, hsound.once, ?_, ?_⟩, rfl, hpurged.expired, ?_, ?_⟩
    · show purged.bytes + payloadBytes byteSize payloads = _
      rw [hitems, List.map_append, List.sum_append, ← hsound.bytes]
      simp [contextBytes]
    · show (purged.contexts.set key (now, payloads)).items.length ≤ contextLimit
      rw [hitems, List.length_append]
      exact Nat.succ_le_of_lt (not_le.mp hcount)
    · exact not_lt.mp hbytes
    · intro other hother
      obtain ⟨hnone, hissued⟩ := hpurged.sound.gone other hother
      have hne : other ≠ key := by
        rintro rfl
        exact hnew (hpurged.issued ▸ hissued)
      refine ⟨?_, (hsound.gone other hother).2⟩
      show (purged.contexts.set key (now, payloads)).get? other = none
      rw [Dict.get?_set_of_ne _ _ hne]
      exact hnone
    · intro other hother
      by_cases hsame : other = key
      · rw [hsame]
        exact List.mem_cons_self
      · apply hsound.issued
        change (purged.contexts.set key (now, payloads)).get? other ≠ none at hother
        rwa [Dict.get?_set_of_ne _ _ hsame] at hother
    · intro other hne
      show (purged.contexts.set key (now, payloads)).get? other = _ ∨
        (purged.contexts.set key (now, payloads)).get? other = none ∧ _
      rw [Dict.get?_set_of_ne _ _ hne]
      exact hpurged.kept other
    · show (purged.contexts.set key (now, payloads)).get? key ≠ none ↔ _
      rw [Dict.get?_set_self]
      simp

variable {contextNamespace : Str}

theorem Registry.Sound.step {r' : Registry ι} {event : ContextEvent ι} (h : r.Sound byteSize)
    (hstep : registryStep byteSize contextNamespace r event = some r') : r'.Sound byteSize := by
  cases event with
  | store payloads key now =>
    rw [registryStep] at hstep
    split_ifs at hstep with hkey
    obtain rfl := Option.some.inj hstep
    simp only [Bool.and_eq_true, Bool.not_eq_true', decide_eq_false_iff_not] at hkey
    exact (store_spec h hkey.2 payloads now).sound
  | discard prompt =>
    obtain rfl := Option.some.inj hstep
    rw [Registry.discard]
    split
    · exact h
    · exact h.pop _
  | consume prompt =>
    obtain rfl := Option.some.inj hstep
    rw [Registry.consume]
    rcases findMarker contextNamespace prompt with - | ⟨before, key⟩
    · exact h
    have hpop := h.pop key
    have hget : (r.pop byteSize key).1.contexts.get? key =
        if key = key then none else r.contexts.get? key := get?_pop key key
    rw [if_pos rfl] at hget
    rcases hvalue : (r.pop byteSize key).2 with - | payloads
    · have hpair : r.pop byteSize key = ((r.pop byteSize key).1, none) := by rw [← hvalue]
      simp only
      rw [hpair]
      exact hpop
    · have hpair : r.pop byteSize key = ((r.pop byteSize key).1, some payloads) := by rw [← hvalue]
      simp only
      rw [hpair]
      -- the key was registered, so it was not handed out before
      have hregistered : r.contexts.get? key ≠ none := by
        intro hnone
        rw [Registry.pop, hnone] at hvalue
        cases hvalue
      have hfresh : key ∉ r.handedOut := fun hmem => hregistered (h.gone key hmem).1
      refine ⟨hpop.bytes, hpop.count, hpop.limit, ?_, ?_, hpop.issued⟩
      · show ((r.pop byteSize key).1.handedOut ++ [key]).Nodup
        rw [pop_handedOut]
        exact h.once.append (List.nodup_singleton key) (by simpa using hfresh)
      · intro other hother
        rcases List.mem_append.mp hother with hother | hother
        · exact hpop.gone other hother
        · rw [List.mem_singleton.mp hother]
          refine ⟨hget, ?_⟩
          show key ∈ (r.pop byteSize key).1.issued
          rw [pop_issued]
          exact h.issued key hregistered

theorem sound_initial : (Registry.initial : Registry ι).Sound byteSize :=
  ⟨rfl, Nat.zero_le _, Int.zero_le_ofNat _, List.nodup_nil, by simp [Registry.initial],
    fun _ h => absurd rfl h⟩

end

/-! ### The marker of a prompt -/

section
variable {contextNamespace : Str}

theorem taken_of_mem_hexDigits {before : Option Char} {t : Str} {m : Match Char}
    (h : m ∈ (Pattern.symbols (List.replicate 32 isHexDigit)).found before t) :
    m.taken.length = 32 ∧ m.groups = [] := by
  obtain ⟨hall, hgroups⟩ := Pattern.of_mem_symbols h
  exact ⟨by simpa using hall.length_eq, hgroups⟩

/-- What a match of the marker takes: it ends the text. -/
theorem of_mem_contextMarker {before : Option Char} {t : Str} {m : Match Char}
    (h : m ∈ (contextMarker contextNamespace).found before t) :
    ∃ front key tail, t = front ++ (key ++ '>' :: tail) ∧ m.groups = [key] ∧ key.length = 32 ∧
      ∀ c ∈ tail, isSpace c = true := by
  have htext := Pattern.taken_append_rest h
  obtain ⟨m₁, h₁, m₂, h₂, rfl⟩ := Pattern.mem_seq.mp h
  obtain ⟨m₃, h₃, m₄, h₄, rfl⟩ := Pattern.mem_seq.mp h₂
  obtain ⟨m₅, h₅, m₆, h₆, rfl⟩ := Pattern.mem_seq.mp h₄
  obtain ⟨m₇, h₇, m₈, h₈, rfl⟩ := Pattern.mem_seq.mp h₆
  obtain ⟨m₉, h₉, m₁₀, h₁₀, rfl⟩ := Pattern.mem_seq.mp h₈
  obtain ⟨-, -, hgroups₁⟩ := Pattern.of_mem_many h₁
  obtain ⟨-, hgroups₃⟩ := Pattern.of_mem_symbols h₃
  obtain ⟨digits, hdigits, rfl⟩ := Pattern.mem_group.mp h₅
  obtain ⟨hlength, hgroups₅⟩ := taken_of_mem_hexDigits hdigits
  obtain ⟨c, hc, -, htaken₇, hgroups₇⟩ := Pattern.mem_symbol.mp h₇
  obtain rfl : c = '>' := by simpa using hc
  obtain ⟨-, hspaces, hgroups₉⟩ := Pattern.of_mem_many h₉
  obtain ⟨hend, rfl⟩ := Pattern.mem_notBefore.mp h₁₀
  -- nothing is left behind the last white space
  have hrest : m₉.rest = [] := by
    cases hleft : m₉.rest with
    | nil => rfl
    | cons d left =>
      rw [hleft] at hend
      cases hend
  refine ⟨m₁.taken ++ m₃.taken, digits.taken, m₉.taken, ?_, ?_, hlength, hspaces⟩
  · rw [← htext]
    show (m₁.taken ++ (m₃.taken ++ (digits.taken ++ (m₇.taken ++ (m₉.taken ++ []))))) ++ m₉.rest = _
    rw [hrest, htaken₇]
    simp only [List.append_nil, List.append_assoc, List.singleton_append]
  · simp only [hgroups₁, hgroups₃, hgroups₅, hgroups₇, hgroups₉, List.nil_append, List.append_nil]

theorem head_word (text : Str) (before : Option Char) (t : Str) :
    ((Pattern.symbols (text.map fun c d => decide (d = c))).found before (text ++ t)).head? =
      some ⟨text, [], t⟩ := by
  have hsame : List.Forall₂ (fun (c : Char) p => p c = true) text
      (text.map fun c d => decide (d = c)) := by
    rw [List.forall₂_map_right_iff]
    exact List.forall₂_same.mpr fun c _ => by simp
  rw [Pattern.found_symbols hsame]
  rfl

theorem head_hexDigits {key : Str} {n : Nat} (hlength : key.length = n)
    (hdigits : key.all isHexDigit = true) (before : Option Char) (t : Str) :
    ((Pattern.symbols (List.replicate n isHexDigit)).found before (key ++ t)).head? =
      some ⟨key, [], t⟩ := by
  have hhex : List.Forall₂ (fun (c : Char) p => p c = true) key (List.replicate n isHexDigit) := by
    rw [← hlength, ← List.map_const', List.forall₂_map_right_iff]
    exact List.forall₂_same.mpr fun c hc => List.all_eq_true.mp hdigits c hc
  rw [Pattern.found_symbols hhex]
  rfl

theorem markerOpening_eq (contextNamespace : Str) :
    ∃ opening, markerOpening contextNamespace = '<' :: opening := by
  show ∃ opening, "<ovllm-image-context:".toList ++ (contextNamespace ++ [':']) = '<' :: opening
  simp

theorem head_contextMarker {key : Str} (hkey : isUuid key = true) (before : Option Char) :
    ((contextMarker contextNamespace).found before
      ('\n' :: (markerOpening contextNamespace ++ (key ++ ['>'])))).head? =
        some ⟨'\n' :: (markerOpening contextNamespace ++ (key ++ ['>'])), [key], []⟩ := by
  obtain ⟨hlength, hdigits⟩ := Bool.and_eq_true_iff.mp hkey
  have hspace : ((Pattern.many isSpace).found before
      ('\n' :: (markerOpening contextNamespace ++ (key ++ ['>'])))).head? =
        some ⟨['\n'], [], markerOpening contextNamespace ++ (key ++ ['>'])⟩ := by
    obtain ⟨opening, hopens⟩ := markerOpening_eq contextNamespace
    have hnewline : isSpace '\n' = true := by decide
    have hless : isSpace '<' = false := by decide
    rw [Pattern.head_many, hopens, List.cons_append, List.takeWhile_cons_of_pos hnewline,
      List.dropWhile_cons_of_pos hnewline, List.takeWhile_cons_of_neg (by simp [hless]),
      List.dropWhile_cons_of_neg (by simp [hless])]
  have hclose : ∀ before, ((char '>').found before ['>']).head? = some ⟨['>'], [], []⟩ :=
    fun _ => rfl
  have hend : ∀ before, ((Pattern.seq (.many isSpace) (.notBefore fun _ => true)).found before
      ([] : Str)).head? = some ⟨[], [], []⟩ := fun _ => rfl
  have hgroup : ∀ before, ((Pattern.group (.symbols (List.replicate 32 isHexDigit))).found before
      (key ++ ['>'])).head? = some ⟨key, [key], ['>']⟩ := by
    intro before
    rw [Pattern.found_group, List.head?_map, head_hexDigits (of_decide_eq_true hlength) hdigits]
    rfl
  have htail := fun before => Pattern.head_seq (hclose before) (hend _)
  have hdigit := fun before => Pattern.head_seq (hgroup before) (htail _)
  have hopen := fun before => Pattern.head_seq
    (head_word (markerOpening contextNamespace) before (key ++ ['>'])) (hdigit _)
  rw [contextMarker, Pattern.head_seq hspace (hopen _)]
  simp

/-- The key in a prompt that a context was appended to. -/
theorem blind_symbols (ps : List (Char → Bool)) : (Pattern.symbols ps).blind = true := by
  cases ps with
  | nil => rfl
  | cons p ps => rfl

theorem blind_contextMarker : (contextMarker contextNamespace).blind = true := by
  simp [contextMarker, Pattern.blind, blind_symbols, char]

/-- The key in a prompt that a context was appended to. -/
theorem contextKey_appendPromptContext {key : Str} (hkey : isUuid key = true) (prompt : Str) :
    contextKey contextNamespace (appendPromptContext contextNamespace prompt (some key)) =
      some key := by
  have hfound : ((contextMarker contextNamespace).search none
      (prompt ++ '\n' :: (markerOpening contextNamespace ++ (key ++ ['>'])))).isSome := by
    have hhere : ((contextMarker contextNamespace).search none
        ('\n' :: (markerOpening contextNamespace ++ (key ++ ['>'])))).isSome := by
      rw [Pattern.search, head_contextMarker hkey]
      rfl
    exact Pattern.search_isSome_append blind_contextMarker hhere prompt
  obtain ⟨⟨front, m⟩, hsearch⟩ := Option.isSome_iff_exists.mp hfound
  obtain ⟨htext, before, t, hm⟩ := Pattern.of_search hsearch
  have ht := Pattern.taken_append_rest hm
  obtain ⟨start, found, tail, hsplit, hgroups, hlength, hspaces⟩ := of_mem_contextMarker hm
  -- the marker that is found ends the prompt, as the one that was appended does
  have hends : front ++ (start ++ (found ++ '>' :: tail)) =
      (prompt ++ '\n' :: markerOpening contextNamespace) ++ (key ++ ['>']) := by
    rw [← hsplit, ← ht, ← List.append_assoc, htext, List.append_assoc, List.cons_append]
  have htail : tail = [] := by
    rcases List.eq_nil_or_concat tail with hnil | ⟨tail, c, rfl⟩
    · exact hnil
    · have hspace := hspaces c (by simp)
      have hlast : (front ++ (start ++ (found ++ '>' :: tail))) ++ [c] =
          (prompt ++ '\n' :: markerOpening contextNamespace ++ key) ++ ['>'] := by
        simpa using hends
      obtain rfl : c = '>' := List.singleton_inj.mp (List.append_inj_right' hlast rfl)
      exact absurd hspace (by decide)
  have hkeys : found ++ ['>'] = key ++ ['>'] := by
    have hlengths : (found ++ ['>']).length = (key ++ ['>']).length := by
      rw [List.length_append, List.length_append, hlength,
        of_decide_eq_true (Bool.and_eq_true_iff.mp hkey).1]
    rw [htail, ← List.append_assoc] at hends
    exact List.append_inj_right' hends hlengths
  have hfoundKey : found = key := List.append_cancel_right hkeys
  show (match (contextMarker contextNamespace).search none _ with
    | none => none
    | some (before, found) => found.groups.head?.map fun key => (before, key)).map Prod.snd = _
  rw [appendPromptContext, hsearch]
  show (m.groups.head?.map fun key => (front, key)).map Prod.snd = some key
  have hgroups' : m.groups = [found] := hgroups
  rw [hgroups', hfoundKey]
  rfl


end

/-! ### What a build owns -/

section
variable {ι ε : Type} {byteSize : ι → Nat} {contextNamespace : Str}
  {validate : List (Message ι) → Except ε Unit} {tokenizer : List PreparedMessage → Except ε Str}
  {kind : EngineKind}

/-- Of the contexts that the build created, at most `own` is registered; `own` is registered
unless it was purged as expired. -/
structure Owns (byteSize : ι → Nat) (own : Option Str) (w : World ι) : Prop where
  sound : w.registry.Sound byteSize
  issued : ∀ key ∈ w.created, key ∈ w.registry.issued
  only : ∀ key ∈ w.created, w.registry.contexts.get? key ≠ none → own = some key
  kept : ∀ key, own = some key → key ∈ w.created ∧
    (w.registry.contexts.get? key ≠ none ∨ key ∈ w.registry.expired)

/-- A rendered text with the context `own` appended to it, which is the one it refers to. -/
structure Refers (contextNamespace : Str) (tokenizer : List PreparedMessage → Except ε Str)
    (prompt : Str) (own : Option Str) : Prop where
  rendered : ∃ prepared,
    prompt = appendPromptContext contextNamespace (renderMessages tokenizer prepared) own
  key : ∀ key, own = some key → contextKey contextNamespace prompt = some key

/-- The prompt's own context is the only one of the build. -/
def Holding (byteSize : ι → Nat) (contextNamespace : Str)
    (tokenizer : List PreparedMessage → Except ε Str) (prompt : Str) (w : World ι) : Prop :=
  ∃ own, Refers contextNamespace tokenizer prompt own ∧ Owns byteSize own w

theorem Owns.pop {own : Option Str} {w : World ι} (h : Owns byteSize own w) {key : Str}
    (hkey : key ∉ w.created) :
    Owns byteSize own { w with registry := (w.registry.pop byteSize key).1 } where
  sound := h.sound.pop key
  issued := fun other hother => by
    show other ∈ (w.registry.pop byteSize key).1.issued
    rw [pop_issued]
    exact h.issued other hother
  only := fun other hother hsome => by
    apply h.only other hother
    change (w.registry.pop byteSize key).1.contexts.get? other ≠ none at hsome
    rw [get?_pop] at hsome
    split_ifs at hsome
    · exact absurd rfl hsome
    · exact hsome
  kept := fun other hown => by
    obtain ⟨hcreated, hregistered⟩ := h.kept other hown
    refine ⟨hcreated, ?_⟩
    show (w.registry.pop byteSize key).1.contexts.get? other ≠ none ∨
      other ∈ (w.registry.pop byteSize key).1.expired
    have hne : other ≠ key := fun hsame => hkey (hsame ▸ hcreated)
    rw [get?_pop, if_neg hne, pop_expired]
    exact hregistered

/-- Storing under a key that the build did not draw before leaves its other contexts alone. -/
theorem Registry.Stored.owns {own : Option Str} {w : World ι} {key : Str} {stored : Registry ι}
    {result : Except CapacityError Unit} (h : Owns byteSize own w) (hnew : key ∉ w.registry.issued)
    (hstored : w.registry.Stored byteSize key stored result) :
    Owns byteSize own { w with registry := stored } where
  sound := hstored.sound
  issued := fun other hother => by
    show other ∈ stored.issued
    rw [hstored.issued]
    exact List.mem_cons_of_mem _ (h.issued other hother)
  only := fun other hother hsome => by
    have hne : other ≠ key := fun hsame => hnew (hsame ▸ h.issued other hother)
    rcases hstored.kept other hne with hsame | ⟨hnone, -⟩
    · exact h.only other hother (hsame ▸ hsome)
    · exact absurd hnone hsome
  kept := fun other hown => by
    obtain ⟨hcreated, hregistered⟩ := h.kept other hown
    refine ⟨hcreated, ?_⟩
    have hne : other ≠ key := fun hsame => hnew (hsame ▸ h.issued other hcreated)
    show stored.contexts.get? other ≠ none ∨ other ∈ stored.expired
    rcases hstored.kept other hne with hsame | ⟨-, hexpired⟩
    · rcases hregistered with hsome | hexpired
      · exact .inl (hsame ▸ hsome)
      · exact .inr (hstored.expired other hexpired)
    · exact .inr hexpired

/-- Another request changes nothing about the contexts of the build, except that it may purge
them. -/
theorem Owns.interfere {own : Option Str} {w : World ι} (h : Owns byteSize own w)
    (event : ContextEvent ι) : Owns byteSize own (interfere byteSize contextNamespace event w) := by
  rw [Multimodal.interfere]
  split_ifs with hnames
  · exact h
  cases event with
  | store payloads key now =>
    rw [registryStep]
    split_ifs with hkey
    · simp only [Bool.and_eq_true, Bool.not_eq_true', decide_eq_false_iff_not] at hkey
      exact (store_spec h.sound hkey.2 payloads now).owns h hkey.2
    · exact h
  | discard prompt =>
    show Owns byteSize own { w with registry := w.registry.discard byteSize contextNamespace prompt }
    rw [Registry.discard]
    rcases hkey : contextKey contextNamespace prompt with - | key
    · exact h
    · have hother : key ∉ w.created := by
        intro hmem
        apply hnames
        rw [ContextEvent.names, hkey]
        exact decide_eq_true hmem
      exact h.pop hother
  | consume prompt =>
    show Owns byteSize own
      { w with registry := (w.registry.consume byteSize contextNamespace prompt).1 }
    have hstep : registryStep byteSize contextNamespace w.registry (.consume prompt) =
        some (w.registry.consume byteSize contextNamespace prompt).1 := rfl
    have hsound := h.sound.step hstep
    rcases hmarker : findMarker contextNamespace prompt with - | ⟨before, key⟩
    · rw [Registry.consume, hmarker]
      exact h
    · have hother : key ∉ w.created := by
        intro hmem
        apply hnames
        rw [ContextEvent.names, contextKey, hmarker]
        exact decide_eq_true hmem
      obtain ⟨-, hissued, honly, hkept⟩ := h.pop hother
      rw [Registry.consume, hmarker] at hsound ⊢
      simp only at hsound hissued honly hkept ⊢
      generalize w.registry.pop byteSize key = popped at hsound hissued honly hkept ⊢
      obtain ⟨popped, - | payloads⟩ := popped
      · exact ⟨hsound, hissued, honly, hkept⟩
      · exact ⟨hsound, hissued, honly, hkept⟩

variable {own : Option Str} {prompt : Str}

/-- An access of the build, by what it does in one step of its own. -/
theorem triple_access {α : Type} {op : Draw ε → World ι → Progress (World ι) (BuildError ε) α}
    {I : World ι → Prop} {Q : α → World ι → Prop} {E : BuildError ε → World ι → Prop}
    (hsound : ∀ w, I w → w.registry.Sound byteSize)
    (hother : ∀ event w, I w → I (interfere byteSize contextNamespace event w))
    (hop : ∀ draw w, I w →
      match op draw w with
      | .done w' a => w'.registry.Sound byteSize ∧ Q a w'
      | .more w' => I w'
      | .fail e => E e w) :
    Crash.Triple (fun w => w.registry.Sound byteSize) I (access byteSize contextNamespace op) Q E := by
  apply Crash.triple_perform hsound
  intro fate w hw
  cases fate with
  | other event => exact hother event w hw
  | own draw =>
    have hstep := hop draw w hw
    simp only
    rcases hresult : op draw w with ⟨w', a⟩ | w' | e
    · simpa only [hresult] using hstep
    · simpa only [hresult] using hstep
    · simpa only [hresult] using hstep

theorem Holding.interfere {w : World ι} (h : Holding byteSize contextNamespace tokenizer prompt w)
    (event : ContextEvent ι) : Holding byteSize contextNamespace tokenizer prompt
      (Multimodal.interfere byteSize contextNamespace event w) := by
  obtain ⟨own, hrefers, howns⟩ := h
  exact ⟨own, hrefers, howns.interfere event⟩

theorem Holding.sound {w : World ι} (h : Holding byteSize contextNamespace tokenizer prompt w) :
    w.registry.Sound byteSize := by
  obtain ⟨own, -, howns⟩ := h
  exact howns.sound

/-- Without a context of its own, a build may pop any key. -/
theorem Owns.pop_none {w : World ι} (h : Owns byteSize none w) (key : Str) :
    Owns byteSize none { w with registry := (w.registry.pop byteSize key).1 } where
  sound := h.sound.pop key
  issued := fun other hother => by
    show other ∈ (w.registry.pop byteSize key).1.issued
    rw [pop_issued]
    exact h.issued other hother
  only := fun other hother hsome => by
    apply h.only other hother
    change (w.registry.pop byteSize key).1.contexts.get? other ≠ none at hsome
    rw [get?_pop] at hsome
    split_ifs at hsome
    · exact absurd rfl hsome
    · exact hsome
  kept := fun other hown => by cases hown

/-- Discarding a prompt releases its own context. -/
theorem Holding.discard {w : World ι} (h : Holding byteSize contextNamespace tokenizer prompt w) :
    Owns byteSize none
      { w with registry := w.registry.discard byteSize contextNamespace prompt } := by
  obtain ⟨own, hrefers, howns⟩ := h
  rcases own with - | key
  · rw [Registry.discard]
    rcases contextKey contextNamespace prompt with - | key
    · exact howns
    · exact howns.pop_none key
  · rw [Registry.discard, hrefers.key key rfl]
    refine ⟨howns.sound.pop key, ?_, ?_, by simp⟩
    · intro other hother
      show other ∈ (w.registry.pop byteSize key).1.issued
      rw [pop_issued]
      exact howns.issued other hother
    · intro other hother hsome
      change (w.registry.pop byteSize key).1.contexts.get? other ≠ none at hsome
      rw [get?_pop] at hsome
      split_ifs at hsome with hsame
      · exact absurd rfl hsome
      · exact absurd (Option.some.inj (howns.only other hother hsome)).symm hsame

theorem triple_discard {E : BuildError ε → World ι → Prop} :
    Crash.Triple (fun w => w.registry.Sound byteSize)
      (Holding byteSize contextNamespace tokenizer prompt)
      (discardPromptContext byteSize contextNamespace prompt) (fun _ => Owns byteSize none) E :=
  triple_access (fun _ h => h.sound) (fun event _ h => h.interfere event)
    fun _ _ h => ⟨h.discard.sound, h.discard⟩

/-- A count leaves the context where it is, and releases it if it raises. -/
theorem triple_countOrRelease :
    Crash.Triple (fun w => w.registry.Sound byteSize)
      (Holding byteSize contextNamespace tokenizer prompt)
      (countOrRelease byteSize contextNamespace kind prompt : Building ι ε Int)
      (fun _ => Holding byteSize contextNamespace tokenizer prompt)
      (fun _ => Owns byteSize none) := by
  have hcount : Crash.Triple (fun w => w.registry.Sound byteSize)
      (Holding byteSize contextNamespace tokenizer prompt)
      (countTokens byteSize contextNamespace kind prompt : Building ι ε Int)
      (fun _ => Holding byteSize contextNamespace tokenizer prompt)
      (fun _ => Holding byteSize contextNamespace tokenizer prompt) := by
    apply triple_access (fun _ h => h.sound) (fun event _ h => h.interfere event)
    intro draw w h
    rcases draw.fails with - | e
    · cases kind with
      | text => exact ⟨h.sound, h⟩
      | vision => exact ⟨h.sound, h⟩
    · exact h
  apply Crash.triple_catch hcount
  intro e
  exact Crash.triple_bind triple_discard fun _ => Crash.triple_raise fun _ h => h

/-- A new context of the build. -/
theorem triple_storeContext (payloads : List ι) :
    Crash.Triple (fun w => w.registry.Sound byteSize) (Owns byteSize none)
      (storeContext byteSize contextNamespace payloads : Building ι ε Str)
      (fun key w => isUuid key = true ∧ Owns byteSize (some key) w)
      (fun _ => Owns byteSize none) := by
  refine Crash.triple_bind (R := fun answer w => isUuid answer.1 = true ∧
    match answer.2 with
    | .ok () => Owns byteSize (some answer.1) w
    | .error _ => Owns byteSize none w) ?_ ?_
  · apply triple_access (fun _ h => h.sound) (fun event _ h => h.interfere event)
    intro draw w h
    by_cases hkey : (isUuid draw.key && !decide (draw.key ∈ w.registry.issued)) = true
    · have hnew : draw.key ∉ w.registry.issued := by simpa using (Bool.and_eq_true_iff.mp hkey).2
      have hstored := store_spec h.sound hnew payloads draw.now
      have howns := hstored.owns h hnew
      simp only [if_pos hkey]
      generalize w.registry.store byteSize payloads draw.key draw.now = answer at hstored howns
      obtain ⟨stored, result⟩ := answer
      have hissued : ∀ key ∈ draw.key :: w.created, key ∈ stored.issued := by
        intro key hmem
        rcases List.mem_cons.mp hmem with rfl | hmem
        · rw [hstored.issued]
          exact List.mem_cons_self
        · exact howns.issued key hmem
      refine ⟨hstored.sound, (Bool.and_eq_true_iff.mp hkey).1, ?_⟩
      rcases result with e | ⟨⟩
      · refine ⟨hstored.sound, hissued, ?_, by simp⟩
        intro key hmem hsome
        rcases List.mem_cons.mp hmem with rfl | hmem
        · cases hstored.new.mp hsome
        · exact howns.only key hmem hsome
      · refine ⟨hstored.sound, hissued, ?_, ?_⟩
        · intro key hmem hsome
          rcases List.mem_cons.mp hmem with rfl | hmem
          · rfl
          · cases howns.only key hmem hsome
        · intro key hown
          obtain rfl := Option.some.inj hown
          exact ⟨List.mem_cons_self, .inl (hstored.new.mpr rfl)⟩
    · simp only [if_neg hkey]
      exact h
  · rintro ⟨key, e | ⟨⟩⟩
    · exact Crash.triple_raise fun _ h => h.2
    · exact Crash.triple_pure fun _ h => h

/-- A rendered prompt holds its own context, and a template that raises holds none. -/
theorem triple_applyTemplate (messages : List (Message ι)) :
    Crash.Triple (fun w => w.registry.Sound byteSize) (Owns byteSize none)
      (applyTemplate byteSize contextNamespace validate tokenizer kind messages)
      (Holding byteSize contextNamespace tokenizer)
      (fun _ => Owns byteSize none) := by
  have hplain : ∀ (prepared : List PreparedMessage) (w : World ι), Owns byteSize none w →
      Holding byteSize contextNamespace tokenizer (renderMessages tokenizer prepared) w :=
    fun prepared w h => ⟨none, ⟨⟨prepared, rfl⟩, by simp⟩, h⟩
  refine Crash.triple_bind (R := fun _ => Owns byteSize none) ?_ fun _ => ?_
  · apply triple_access (fun _ h => h.sound) (fun event _ h => h.interfere event)
    intro draw w h
    rcases draw.fails with - | e
    · exact ⟨h.sound, h⟩
    · exact h
  · cases kind with
    | text => exact Crash.triple_pure fun w h => hplain _ w h
    | vision =>
      simp only
      rcases validate messages with e | ⟨⟩
      · exact Crash.triple_raise fun _ h => h
      · simp only
        split
        · exact Crash.triple_pure fun w h => hplain _ w h
        · refine Crash.triple_bind (triple_storeContext _) fun key => ?_
          refine Crash.triple_pure fun w h => ⟨some key, ⟨⟨_, rfl⟩, ?_⟩, h.2⟩
          intro other hown
          obtain rfl := Option.some.inj hown
          exact contextKey_appendPromptContext h.1 _

theorem triple_renderAndCount (messages : List (Message ι)) :
    Crash.Triple (fun w => w.registry.Sound byteSize) (Owns byteSize none)
      (renderAndCount byteSize contextNamespace validate tokenizer kind messages)
      (fun answer => Holding byteSize contextNamespace tokenizer answer.1)
      (fun _ => Owns byteSize none) :=
  Crash.triple_bind (triple_applyTemplate messages) fun _ =>
    Crash.triple_bind triple_countOrRelease fun _ => Crash.triple_pure fun _ h => h

/-- The bisection releases every candidate. -/
theorem triple_windowLoop (system : List (Message ι)) (turns : List (List (Message ι)))
    (maxPromptLen low high bestK : Int) :
    Crash.Triple (fun w => w.registry.Sound byteSize) (Owns byteSize none)
      (windowLoop byteSize contextNamespace validate tokenizer kind system turns maxPromptLen low
        high bestK)
      (fun _ => Owns byteSize none) (fun _ => Owns byteSize none) := by
  induction low, high, bestK using windowLoop.induct with
  | case1 low high bestK hle mid ihFits ihOver =>
    rw [windowLoop, if_pos hle]
    refine Crash.triple_bind (triple_applyTemplate _) fun candidate => ?_
    refine Crash.triple_bind triple_countOrRelease fun candidateTokens => ?_
    refine Crash.triple_bind triple_discard fun _ => ?_
    split
    · exact ihFits
    · exact ihOver
  | case2 low high bestK hgt =>
    rw [windowLoop, if_neg hgt]
    exact Crash.triple_pure fun _ h => h

theorem triple_buildPromptWithinBudget (messages : List (Message ι)) (maxPromptLen : Int) :
    Crash.Triple (fun w => w.registry.Sound byteSize) (Owns byteSize none)
      (buildPromptWithinBudget byteSize contextNamespace validate tokenizer kind messages
        maxPromptLen)
      (fun answer => Holding byteSize contextNamespace tokenizer answer.1)
      (fun _ => Owns byteSize none) := by
  rw [buildPromptWithinBudget]
  split
  · exact triple_renderAndCount []
  refine Crash.triple_bind (triple_renderAndCount messages) ?_
  rintro ⟨full, fullTokens⟩
  simp only
  split
  · exact Crash.triple_pure fun _ h => h
  refine Crash.triple_bind triple_discard fun _ => ?_
  split
  · exact triple_renderAndCount _
  refine Crash.triple_bind (triple_windowLoop _ _ _ _ _ _) fun bestK => ?_
  exact triple_renderAndCount _

theorem owns_none {w : World ι} (h : w.registry.Sound byteSize) (hcreated : w.created = []) :
    Owns byteSize none w where
  sound := h
  issued := by simp [hcreated]
  only := by simp [hcreated]
  kept := by simp

variable (byteSize contextNamespace validate tokenizer kind) in
/-- What a build has done when it ends: the registry was sound throughout, the prompt that is
returned holds the build's only context, and a build that raises leaves none. -/
def BuildEnds (messages : List (Message ι)) (maxPromptLen : Int) (w : World ι)
    (schedule : List (Fate ι ε)) : Prop :=
  let result := buildPromptWithinBudget byteSize contextNamespace validate tokenizer kind messages
    maxPromptLen w schedule
  (∀ v ∈ result.visited, v.registry.Sound byteSize) ∧
    match result.outcome with
    | .returned answer => Holding byteSize contextNamespace tokenizer answer.1 result.state
    | .raised _ => ∀ key ∈ result.state.created,
        result.state.registry.contexts.get? key = none
    | .stopped => result.state.registry.Sound byteSize

variable (byteSize contextNamespace validate tokenizer kind) in
/-- **The image context registry.** Over every run of its steps the byte total is the sum of
the stored bytes, the caps are kept and no context is handed out twice.  Every build, whatever
other requests do, the engine fails at and the tokens count to, leaves registered of the contexts
it created exactly the one of the prompt it returns, and none if it raises. -/
theorem image_contexts :
    (∀ events r, Transition.run (registryStep byteSize contextNamespace) Registry.initial events =
      some r → r.Sound byteSize) ∧
    ∀ (messages : List (Message ι)) (maxPromptLen : Int) (w : World ι) (schedule : List (Fate ι ε)),
      w.registry.Sound byteSize → w.created = [] →
        BuildEnds byteSize contextNamespace validate tokenizer kind messages maxPromptLen w
          schedule := by
  refine ⟨?_, ?_⟩
  · intro events r hrun
    exact Transition.run_always (fun _ _ _ h hstep => h.step hstep) sound_initial hrun
  · intro messages maxPromptLen w schedule hsound hcreated
    obtain ⟨hvisited, hend⟩ : Crash.CrashResult.Meets _
        (fun answer => Holding byteSize contextNamespace tokenizer answer.1)
        (fun _ => Owns byteSize none)
        (buildPromptWithinBudget byteSize contextNamespace validate tokenizer kind messages
          maxPromptLen w schedule) :=
      triple_buildPromptWithinBudget messages maxPromptLen w schedule (owns_none hsound hcreated)
    refine ⟨hvisited, ?_⟩
    generalize buildPromptWithinBudget byteSize contextNamespace validate tokenizer kind messages
      maxPromptLen w schedule = result at hend ⊢
    rcases houtcome : result.outcome with answer | e | -
    · rw [houtcome] at hend
      exact hend
    · rw [houtcome] at hend
      intro key hkey
      by_contra hsome
      cases hend.only key hkey hsome
    · rw [houtcome] at hend
      exact hend

end

def firstUuid : Str := List.replicate 32 'a'

/-- A build for one image, behind a request whose context was consumed. -/
theorem image_contexts_one :
    ∃ r, Transition.run (registryStep (fun n : Nat => n) ['n']) Registry.initial
        [.store [7] firstUuid 0, .consume (appendPromptContext ['n'] [] (some firstUuid))] =
          some r ∧ r.Sound (fun n => n) ∧
      BuildEnds (fun n => n) ['n'] (fun _ => .ok ()) (fun _ => (.error () : Except Unit Str)) .vision
        [⟨"user".toList, .multimodal [.image 5]⟩] 100 ⟨r, []⟩
        [.own ⟨none, [], 1, 0⟩, .own ⟨none, List.replicate 32 'b', 1, 0⟩, .own ⟨none, [], 1, 9⟩] := by
  have hrun : Transition.run (registryStep (fun n : Nat => n) ['n']) Registry.initial
      [.store [7] firstUuid 0, .consume (appendPromptContext ['n'] [] (some firstUuid))] =
        some _ := rfl
  obtain ⟨hruns, hbuilds⟩ := image_contexts (fun n : Nat => n) ['n'] (fun _ => .ok ())
    (fun _ => (.error () : Except Unit Str)) .vision
  exact ⟨_, hrun, hruns _ _ hrun, hbuilds _ _ _ _ (hruns _ _ hrun) rfl⟩

end InferBridge.Multimodal
