/-
InferBridge/ChatSession.lean

The conversation of the native chat window
(windows-native/InferBridge.Native/ChatSession.cs, and `GenerateReplyAsync`
with the handlers that replace the conversation in MainWindow.xaml.cs).

A run is a list of events: the user sends, regenerates, cancels, opens a
saved conversation or a file, and the engine's reply arrives or fails.  The
reply is the only event that extends the conversation, and what it appends
to is the request, not the conversation of the moment.

Four limits meet here: the window of a request (`forRequest`), what the
engine client takes (`validateChatTurns`), how much of a reply is kept, and
what the history takes (`create`).  `Safe` is what holds in every run.  A
reply whose first 8000 units are white space is kept although the history
refuses it; `conversation_iff` says that otherwise the history takes every
conversation.
-/
import InferBridge.ConversationExport

namespace InferBridge.ChatSession

open Utf16 NativeConversationStore

/-! ### Requests -/

def maximumRequestTurns : Nat := 19

def maximumRequestChars : Nat := 30000

/-- The loop of `ForRequest`. -/
def trimPairs : List ChatTurn → List ChatTurn
  | first :: second :: rest =>
    if maximumRequestTurns < (first :: second :: rest).length ∨
        maximumRequestChars < totalChars (first :: second :: rest) then
      -- of two turns only one is removed
      if rest = [] then [second] else trimPairs rest
    else first :: second :: rest
  | turns => turns

/-- `ChatTranscript.ForRequest` -/
def forRequest (history : List ChatTurn) (next : Option ChatTurn) : List ChatTurn :=
  trimPairs (history ++ next.toList)

/-- `ChatTranscript.CanRegenerate` -/
def canRegenerate (turns : List ChatTurn) : Bool :=
  match turns.reverse with
  | reply :: ask :: _ => reply.role = ascii "assistant" && ask.role = ascii "user"
  | _ => false

/-- `ChatTranscript.ForRegenerate`; `none` is its exception. -/
def forRegenerate (turns : List ChatTurn) : Option (List ChatTurn) :=
  if canRegenerate turns then some (forRequest turns.dropLast none) else none

/-- The checks of a model id. -/
def acceptableModel (modelId : Text) : Bool := !isBlank modelId && modelId.length ≤ 512

/-- `ValidateChatTurns` -/
def validateChatTurns (modelId : Text) (turns : List ChatTurn) : Bool :=
  acceptableModel modelId && (1 ≤ turns.length && turns.length ≤ 20) &&
    turns.all (fun turn =>
      (turn.role = ascii "user" || turn.role = ascii "assistant") &&
        (1 ≤ turn.content.length && turn.content.length ≤ 8000)) &&
    totalChars turns ≤ 32000

/-! ### The chat window -/

/-- A generation on its way. -/
structure Generation where
  modelId : Text
  pending : List ChatTurn
  cancelled : Bool
deriving DecidableEq, Repr

structure ChatWindow where
  turns : List ChatTurn
  conversationModelId : Option Text
  selectedModelId : Option Text
  /-- `_chatBusy` and `_sendCancellation` -/
  generation : Option Generation
deriving DecidableEq, Repr

def ChatWindow.initial : ChatWindow := ⟨[], none, none, none⟩

/-- What happens in the window.  `β` is the type of imported files. -/
inductive ChatEvent (β : Type*) where
  /-- the picker follows the engine's inventory -/
  | inventory (selected : Option Text)
  /-- the user picks a model -/
  | pick (selected : Option Text)
  | send (prompt : Text)
  | regenerate
  | cancel
  /-- `StreamChatAsync` returns -/
  | reply (answer : Text)
  /-- `StreamChatAsync` throws -/
  | fail
  /-- a conversation of the history is opened; its model may be missing -/
  | restore (chat : SavedChat) (available : Bool)
  /-- a file is imported; its model may be missing -/
  | openFile (file : β) (available : Bool)
  /-- a new conversation, also when the current one is deleted or archived -/
  | clear

/-- The inventory lists ids of 1 to 512 units. -/
def listed (modelId : Option Text) : Bool :=
  modelId.all fun modelId => 1 ≤ modelId.length && modelId.length ≤ 512

/-- `GenerateReplyAsync` until it waits for the reply. -/
def ChatWindow.generateReply (window : ChatWindow) (prompt : Text) (regenerate : Bool) :
    ChatWindow :=
  match window.selectedModelId with
  | none => window
  | some modelId =>
    let prompt :=
      if regenerate then ((window.turns.reverse[1]?).map ChatTurn.content).getD []
      else trim prompt
    if window.generation.isSome ∨
        (window.turns ≠ [] ∧ window.conversationModelId ≠ some modelId) ∨
        (regenerate = true ∧ canRegenerate window.turns = false) ∨ prompt = [] then window
    else
      let pending :=
        if regenerate then (forRegenerate window.turns).getD []
        else forRequest window.turns (some ⟨ascii "user", prompt⟩)
      { window with generation := some ⟨modelId, pending, false⟩ }

/-- What `StreamChatAsync` can return for a request. -/
def streamed (generation : Generation) (answer : Text) : Bool :=
  validateChatTurns generation.modelId generation.pending &&
    (1 ≤ answer.length && answer.length ≤ 32000)

/-- The rest of `GenerateReplyAsync`: a late reply does not count after a cancellation. -/
def ChatWindow.finish (window : ChatWindow) (generation : Generation) (answer : Text) :
    ChatWindow :=
  if generation.cancelled then { window with generation := none }
  else
    { window with
      conversationModelId := some generation.modelId
      turns := generation.pending ++ [⟨ascii "assistant", answer.take 8000⟩]
      generation := none }

section
variable {β : Type*} (codec : JsonCodec β)

/-- The model under which a file is imported. -/
def importModel (window : ChatWindow) (imported : ImportedChat) (available : Bool) :
    Option Text :=
  if available = true ∧ imported.modelId.isSome then imported.modelId else window.selectedModelId

/-- One event; `none` where it cannot happen. -/
def step (window : ChatWindow) : ChatEvent β → Option ChatWindow
  | .inventory selected =>
    if listed selected then some { window with selectedModelId := selected } else none
  | .pick selected =>
    if listed selected = false then none
    else if selected ≠ none ∧ window.conversationModelId ≠ selected then
      some { window with turns := [], conversationModelId := selected, selectedModelId := selected }
    else some { window with selectedModelId := selected }
  | .send prompt =>
    -- the length of the prompt box
    if 8000 < prompt.length then none else some (window.generateReply prompt false)
  | .regenerate => some (window.generateReply [] true)
  | .cancel =>
    some { window with
      generation := window.generation.map fun generation => { generation with cancelled := true } }
  | .reply answer =>
    match window.generation with
    | none => none
    | some generation =>
      if streamed generation answer then some (window.finish generation answer) else none
  | .fail => if window.generation.isSome then some { window with generation := none } else none
  | .restore chat available =>
    -- what `ReadAll` has read
    if readChat [] (some chat.raw) ≠ some chat then none
    else if window.generation.isSome then some window
    else some { window with
      turns := chat.turns
      conversationModelId := some chat.modelId
      selectedModelId := if available then some chat.modelId else none }
  | .openFile file available =>
    match importJson codec file with
    | .error _ => some window
    | .ok imported =>
      match importModel window imported available with
      | none => some window
      | some modelId => some { window with
          turns := imported.turns
          conversationModelId := some modelId
          selectedModelId := some modelId }
  | .clear => some { window with turns := [], conversationModelId := window.selectedModelId }

end

/-! ### What the history takes -/

/-- `TrySaveCurrentChat` can create an entry. -/
def Saves (window : ChatWindow) : Prop :=
  window.turns ≠ [] → ∃ modelId, window.conversationModelId = some modelId ∧
    ∀ id now, isGuid id = true → ∃ chat, create id modelId window.turns now = .ok chat

/-- No reply that is white space as far as it is kept, and no import under such a model id. -/
def visible {β : Type*} (codec : JsonCodec β) (window : ChatWindow) : ChatEvent β → Bool
  | .reply answer =>
    window.generation.all fun generation =>
      generation.cancelled || !isBlank (answer.take 8000)
  | .openFile file available =>
    match importJson codec file with
    | .error _ => true
    | .ok imported => (importModel window imported available).all fun modelId => !isBlank modelId
  | _ => true

/-! ### Shapes -/

/-- Alternating turns from a question to a question. -/
def endsAsking : List ChatTurn → Bool
  | [] => false
  | [ask] => ask.role = ascii "user"
  | ask :: reply :: turns =>
    ask.role = ascii "user" && reply.role = ascii "assistant" && endsAsking turns

theorem endsAsking_append {turns : List ChatTurn} {ask : ChatTurn}
    (h : completePairs turns = true) (hask : ask.role = ascii "user") :
    endsAsking (turns ++ [ask]) = true := by
  fun_induction completePairs turns with
  | case1 => exact decide_eq_true hask
  | case2 turn => cases h
  | case3 first second turns ih =>
    obtain ⟨hpair, hrest⟩ := Bool.and_eq_true_iff.mp h
    exact Bool.and_eq_true_iff.mpr ⟨hpair, ih hrest⟩

theorem completePairs_append {turns : List ChatTurn} {reply : ChatTurn}
    (h : endsAsking turns = true) (hreply : reply.role = ascii "assistant") :
    completePairs (turns ++ [reply]) = true := by
  fun_induction endsAsking turns with
  | case1 => cases h
  | case2 ask =>
    show completePairs [ask, reply] = true
    rw [completePairs_cons (of_decide_eq_true h) hreply]
    rfl
  | case3 first second turns ih =>
    obtain ⟨hpair, hrest⟩ := Bool.and_eq_true_iff.mp h
    exact Bool.and_eq_true_iff.mpr ⟨hpair, ih hrest⟩

/-- Without its last reply a conversation ends with the question. -/
theorem endsAsking_dropLast {turns : List ChatTurn} (h : completePairs turns = true)
    (hne : turns ≠ []) : endsAsking turns.dropLast = true := by
  fun_induction completePairs turns with
  | case1 => exact absurd rfl hne
  | case2 turn => cases h
  | case3 ask reply turns ih =>
    obtain ⟨hpair, hrest⟩ := Bool.and_eq_true_iff.mp h
    cases turns with
    | nil => exact (Bool.and_eq_true_iff.mp hpair).1
    | cons next turns =>
      rw [List.dropLast_cons_cons, List.dropLast_cons_of_ne_nil (List.cons_ne_nil next turns)]
      exact Bool.and_eq_true_iff.mpr ⟨hpair, ih hrest (List.cons_ne_nil next turns)⟩

theorem roles_of_completePairs {turns : List ChatTurn} (h : completePairs turns = true) :
    Roles turns := by
  fun_induction completePairs turns with
  | case1 => exact fun turn hmem => absurd hmem List.not_mem_nil
  | case2 turn => cases h
  | case3 ask reply turns ih =>
    obtain ⟨hpair, hrest⟩ := Bool.and_eq_true_iff.mp h
    obtain ⟨hask, hreply⟩ := Bool.and_eq_true_iff.mp hpair
    rintro turn (_ | ⟨_, _ | ⟨_, hmem⟩⟩)
    · exact .inl (of_decide_eq_true hask)
    · exact .inr (of_decide_eq_true hreply)
    · exact ih hrest turn hmem

/-- A question and its reply more make a complete conversation. -/
theorem roles_of_endsAsking {turns : List ChatTurn} (h : endsAsking turns = true) :
    Roles turns := by
  have hpairs := @completePairs_append turns ⟨ascii "assistant", []⟩ h rfl
  exact fun turn hmem => roles_of_completePairs hpairs turn (List.mem_append_left _ hmem)

/-- The first turn is a question. -/
def asksFirst (turns : List ChatTurn) : Prop :=
  ∃ ask rest, turns = ask :: rest ∧ ask.role = ascii "user"

theorem asksFirst_of_endsAsking {turns : List ChatTurn} (h : endsAsking turns = true) :
    asksFirst turns := by
  fun_induction endsAsking turns with
  | case1 => cases h
  | case2 ask => exact ⟨ask, [], rfl, of_decide_eq_true h⟩
  | case3 ask reply turns ih =>
    have hask := (Bool.and_eq_true_iff.mp (Bool.and_eq_true_iff.mp h).1).1
    exact ⟨ask, reply :: turns, rfl, of_decide_eq_true hask⟩

theorem asksFirst_of_completePairs {turns : List ChatTurn} (h : completePairs turns = true)
    (hne : turns ≠ []) : asksFirst turns := by
  fun_induction completePairs turns with
  | case1 => exact absurd rfl hne
  | case2 turn => cases h
  | case3 ask reply turns ih =>
    have hask := (Bool.and_eq_true_iff.mp (Bool.and_eq_true_iff.mp h).1).1
    exact ⟨ask, reply :: turns, rfl, of_decide_eq_true hask⟩

/-! ### Requests -/

/-- Every turn has 1 to 8000 units. -/
def Bounded (turns : List ChatTurn) : Prop :=
  ∀ turn ∈ turns, 1 ≤ turn.content.length ∧ turn.content.length ≤ 8000

/-- What the trimming leaves of turns that are not longer than 8000 units each. -/
structure Trimmed (turns kept : List ChatTurn) : Prop where
  ending : kept <:+ turns
  ne_nil : turns ≠ [] → kept ≠ []
  count : kept.length ≤ maximumRequestTurns
  total : totalChars kept ≤ maximumRequestChars
  pairs : completePairs turns = true → completePairs kept = true
  asking : endsAsking turns = true → endsAsking kept = true

theorem Trimmed.refl {turns : List ChatTurn} (hcount : turns.length ≤ maximumRequestTurns)
    (htotal : totalChars turns ≤ maximumRequestChars) : Trimmed turns turns :=
  ⟨List.suffix_rfl, fun h => h, hcount, htotal, fun h => h, fun h => h⟩

theorem trimPairs_spec {turns : List ChatTurn} (h : Bounded turns) :
    Trimmed turns (trimPairs turns) := by
  fun_induction trimPairs turns with
  | case1 first second hover =>
    -- two turns are never too many
    have hfirst := (h first List.mem_cons_self).2
    have hsecond := (h second (List.mem_cons_of_mem _ List.mem_cons_self)).2
    have htotal : totalChars [first, second] =
        first.content.length + (second.content.length + 0) := rfl
    rw [htotal, maximumRequestTurns, maximumRequestChars] at hover
    have hcount : [first, second].length = 2 := rfl
    omega
  | case2 first second rest hover hrest ih =>
    have hkept := ih fun turn hmem =>
      h turn (List.mem_cons_of_mem _ (List.mem_cons_of_mem _ hmem))
    refine ⟨hkept.ending.trans ⟨[first, second], rfl⟩, fun _ => hkept.ne_nil hrest, hkept.count,
      hkept.total, fun hpairs => ?_, fun hasking => ?_⟩
    · exact hkept.pairs (Bool.and_eq_true_iff.mp hpairs).2
    · exact hkept.asking (Bool.and_eq_true_iff.mp hasking).2
  | case3 first second rest hfits =>
    rw [not_or, not_lt, not_lt] at hfits
    exact Trimmed.refl hfits.1 hfits.2
  | case4 turns hshort =>
    rcases turns with - | ⟨turn, - | ⟨second, rest⟩⟩
    · exact Trimmed.refl (Nat.zero_le _) (Nat.zero_le _)
    · have hturn := (h turn List.mem_cons_self).2
      have htotal : totalChars [turn] = turn.content.length + 0 := rfl
      apply Trimmed.refl
      · exact Nat.le_add_left 1 18
      · rw [htotal, maximumRequestChars]
        omega
    · exact absurd rfl (hshort turn second rest)

theorem Trimmed.bounded {turns kept : List ChatTurn} (h : Trimmed turns kept)
    (hturns : Bounded turns) : Bounded kept :=
  fun turn hmem => hturns turn (h.ending.subset hmem)

/-- The engine client takes what the trimming leaves. -/
theorem Trimmed.validates {turns kept : List ChatTurn} (h : Trimmed turns kept)
    (hturns : Bounded turns) (hroles : Roles turns) (hne : turns ≠ []) (modelId : Text) :
    validateChatTurns modelId kept = acceptableModel modelId := by
  have hpositive := List.length_pos_of_ne_nil (h.ne_nil hne)
  have hcount := h.count
  have htotal := h.total
  rw [maximumRequestTurns] at hcount
  rw [maximumRequestChars] at htotal
  have hall : kept.all (fun turn =>
      (turn.role = ascii "user" || turn.role = ascii "assistant") &&
        (1 ≤ turn.content.length && turn.content.length ≤ 8000)) = true := by
    apply List.all_eq_true.mpr
    intro turn hmem
    have hrole := hroles turn (h.ending.subset hmem)
    have hlength := hturns turn (h.ending.subset hmem)
    simpa only [Bool.and_eq_true, Bool.or_eq_true, decide_eq_true_eq] using ⟨hrole, hlength⟩
  rw [validateChatTurns, hall, decide_eq_true (show totalChars kept ≤ 32000 by omega),
    decide_eq_true (show 1 ≤ kept.length from hpositive),
    decide_eq_true (show kept.length ≤ 20 by omega)]
  simp only [Bool.and_true]

/-! ### The invariant -/

/-- The conversation, in every run. -/
structure Transcript (turns : List ChatTurn) : Prop where
  pairs : completePairs turns = true
  count : turns.length ≤ 20
  bounded : Bounded turns
  total : totalChars turns ≤ 40000

/-- A request on its way. -/
structure Request (turns : List ChatTurn) : Prop where
  asking : endsAsking turns = true
  count : turns.length ≤ maximumRequestTurns
  bounded : Bounded turns
  total : totalChars turns ≤ maximumRequestChars

theorem Transcript.nil : Transcript [] where
  pairs := rfl
  count := Nat.zero_le 20
  bounded := fun _ hmem => absurd hmem List.not_mem_nil
  total := Nat.zero_le 40000

theorem Trimmed.request {turns kept : List ChatTurn} (h : Trimmed turns kept)
    (hturns : Bounded turns) (hasking : endsAsking turns = true) : Request kept :=
  ⟨h.asking hasking, h.count, h.bounded hturns, h.total⟩

theorem Request.reply {turns : List ChatTurn} (h : Request turns) {answer : Text}
    (hanswer : 1 ≤ answer.length) :
    Transcript (turns ++ [⟨ascii "assistant", answer.take 8000⟩]) := by
  have hcount := h.count
  have htotal := h.total
  rw [maximumRequestTurns] at hcount
  rw [maximumRequestChars] at htotal
  have hlength : (answer.take 8000).length = min 8000 answer.length := List.length_take ..
  refine ⟨completePairs_append h.asking rfl, ?_, ?_, ?_⟩
  · rw [List.length_append, List.length_singleton]
    omega
  · intro turn hmem
    rcases List.mem_append.mp hmem with hmem | hmem
    · exact h.bounded turn hmem
    · obtain rfl := List.mem_singleton.mp hmem
      show 1 ≤ (answer.take 8000).length ∧ (answer.take 8000).length ≤ 8000
      omega
  · have hlast : totalChars [⟨ascii "assistant", answer.take 8000⟩] =
        (answer.take 8000).length + 0 := rfl
    rw [totalChars_append, hlast]
    omega

/-- Every turn shows something. -/
def Shown (turns : List ChatTurn) : Prop := ∀ turn ∈ turns, isBlank turn.content = false

structure Inv (window : ChatWindow) : Prop where
  transcript : Transcript window.turns
  request : ∀ generation, window.generation = some generation → Request generation.pending
  selected : listed window.selectedModelId = true

theorem Inv.initial : Inv ChatWindow.initial where
  transcript := Transcript.nil
  request := by
    intro generation h
    cases h
  selected := rfl

/-- What `create` requires of the turns of a conversation. -/
theorem acceptableTurns_iff {turns : List ChatTurn} {i : Nat} (hi : i % 2 = 0)
    (hpairs : completePairs turns = true) (hbounded : Bounded turns) :
    acceptableTurns i turns = true ↔ Shown turns := by
  fun_induction completePairs turns generalizing i with
  | case1 => exact ⟨fun _ _ hmem => absurd hmem List.not_mem_nil, fun _ => rfl⟩
  | case2 turn => cases hpairs
  | case3 ask reply turns ih =>
    obtain ⟨hpair, hrest⟩ := Bool.and_eq_true_iff.mp hpairs
    obtain ⟨hask, hreply⟩ := Bool.and_eq_true_iff.mp hpair
    have hturns : acceptableTurns (i + 1 + 1) turns = true ↔ Shown turns :=
      ih (by omega) hrest fun turn hmem =>
        hbounded turn (List.mem_cons_of_mem _ (List.mem_cons_of_mem _ hmem))
    have haskLength := (hbounded ask List.mem_cons_self).2
    have hreplyLength := (hbounded reply (List.mem_cons_of_mem _ List.mem_cons_self)).2
    have hroleAsk : roleAt i = ascii "user" := if_pos hi
    have hroleReply : roleAt (i + 1) = ascii "assistant" := if_neg (by omega)
    rw [acceptableTurns, acceptableTurns, Bool.and_eq_true, Bool.and_eq_true, hturns,
      acceptableTurn, acceptableTurn, hroleAsk, hroleReply, hask, hreply,
      decide_eq_true haskLength, decide_eq_true hreplyLength]
    simp only [Shown, List.forall_mem_cons, Bool.true_and, Bool.and_true, Bool.not_eq_true']

/-- The history takes a conversation exactly if every turn shows something. -/
theorem create_iff {turns : List ChatTurn} (h : Transcript turns) (hne : turns ≠ [])
    {id modelId : Text} (hid : isGuid id = true) (hmodel : modelId.length ≤ 512) (now : ℕ+) :
    (∃ chat, create id modelId turns now = .ok chat) ↔
      isBlank modelId = false ∧ Shown turns := by
  have heven := completePairs_even h.pairs
  have hcount := h.count
  have hpositive := List.length_pos_of_ne_nil hne
  have htotal := h.total
  rw [totalChars] at htotal
  rw [create, ← @acceptableTurns_iff turns 0 rfl h.pairs h.bounded]
  split
  · next hrefused =>
    constructor
    · rintro ⟨chat, hchat⟩
      cases hchat
    · rintro ⟨hblank, -⟩
      rw [hid, hblank] at hrefused
      simp only [Bool.true_eq_false, Bool.false_eq_true, false_or] at hrefused
      omega
  · next haccepted =>
    have hblank : isBlank modelId = false := by
      simp only [not_or, Bool.not_eq_true] at haccepted
      exact haccepted.2.1
    split
    · next hturns =>
      rw [hturns]
      constructor
      · rintro ⟨chat, hchat⟩
        cases hchat
      · rintro ⟨-, hfalse⟩
        exact absurd hfalse Bool.false_ne_true
    · next hturns => exact ⟨fun _ => ⟨hblank, by simpa using hturns⟩, fun _ => ⟨_, rfl⟩⟩

/-! ### Steps -/

theorem isBlank_of_trim {t : Text} (h : trim t ≠ []) : isBlank (trim t) = false := by
  apply Bool.eq_false_iff.mpr
  intro hblank
  apply h
  have hstrip : Text.strip isWhiteSpace (trim t) = [] :=
    Text.strip_eq_nil_iff.mpr (List.all_eq_true.mp hblank)
  rwa [trim, Text.strip_strip] at hstrip

theorem canRegenerate_ne_nil {turns : List ChatTurn} (h : canRegenerate turns = true) :
    turns ≠ [] := by
  rintro rfl
  cases h

/-- A generation starts with the trimmed history and its question, or not at all. -/
theorem generateReply_spec {window : ChatWindow} {prompt : Text} {regenerate : Bool}
    (h : Transcript window.turns) (hprompt : prompt.length ≤ 8000) :
    window.generateReply prompt regenerate = window ∨
      ∃ generation history, generation.pending = trimPairs history ∧
        window.generateReply prompt regenerate = { window with generation := some generation } ∧
        Bounded history ∧ endsAsking history = true ∧
        (Shown window.turns → Shown history) := by
  rw [ChatWindow.generateReply]
  split
  · exact .inl rfl
  · next modelId _ =>
    cases regenerate with
    | true =>
      simp only [↓reduceIte, true_and]
      split
      · exact .inl rfl
      · next hready =>
        rw [not_or, not_or, not_or, Bool.not_eq_false] at hready
        obtain ⟨-, -, hcan, -⟩ := hready
        right
        refine ⟨_, window.turns.dropLast, ?_, rfl, ?_, ?_, ?_⟩
        · show (forRegenerate window.turns).getD [] = trimPairs window.turns.dropLast
          rw [forRegenerate, if_pos hcan, forRequest]
          show trimPairs (window.turns.dropLast ++ []) = _
          rw [List.append_nil]
        · exact fun turn hmem => h.bounded turn (List.mem_of_mem_dropLast hmem)
        · exact endsAsking_dropLast h.pairs (canRegenerate_ne_nil hcan)
        · exact fun hshown turn hmem => hshown turn (List.mem_of_mem_dropLast hmem)
    | false =>
      simp only [Bool.false_eq_true, ↓reduceIte, false_and, false_or]
      split
      · exact .inl rfl
      · next hready =>
        rw [not_or, not_or] at hready
        have hne : trim prompt ≠ [] := hready.2.2
        have hlength : (trim prompt).length ≤ prompt.length :=
          (Text.strip_isInfix isWhiteSpace prompt).length_le
        right
        refine ⟨_, window.turns ++ [⟨ascii "user", trim prompt⟩], rfl, rfl, ?_, ?_, ?_⟩
        · intro turn hmem
          rcases List.mem_append.mp hmem with hmem | hmem
          · exact h.bounded turn hmem
          · obtain rfl := List.mem_singleton.mp hmem
            exact ⟨List.length_pos_of_ne_nil hne, le_trans hlength hprompt⟩
        · exact endsAsking_append h.pairs rfl
        · intro hshown turn hmem
          rcases List.mem_append.mp hmem with hmem | hmem
          · exact hshown turn hmem
          · obtain rfl := List.mem_singleton.mp hmem
            exact isBlank_of_trim hne

theorem SavedChat.transcript {chat : SavedChat} (h : chat.Valid) :
    Transcript chat.turns ∧ chat.turns ≠ [] ∧ Shown chat.turns := by
  obtain ⟨htwo, htwenty, heven⟩ := h.count
  obtain ⟨exchanges, hturns, hexchanges⟩ := exists_exchanges rfl h.turns heven
  have hcontents : ∀ turn ∈ chat.turns,
      isBlank turn.content = false ∧ turn.content.length ≤ 8000 := by
    intro turn hmem
    rw [hturns] at hmem
    obtain ⟨exchange, hexchange, hturn⟩ := List.mem_flatMap.mp hmem
    have hvalid := hexchanges exchange hexchange
    simp only [isExchange, Bool.and_eq_true, Bool.not_eq_true', decide_eq_true_eq] at hvalid
    rcases List.mem_pair.mp hturn with rfl | rfl
    · exact ⟨hvalid.1.1.2, hvalid.2⟩
    · exact ⟨hvalid.1.1.1.2, hvalid.1.2⟩
  refine ⟨⟨?_, htwenty, ?_, h.size⟩, ?_, fun turn hmem => (hcontents turn hmem).1⟩
  · rw [hturns]
    exact completePairs_turnsOf hexchanges
  · intro turn hmem
    obtain ⟨hblank, hlength⟩ := hcontents turn hmem
    exact ⟨List.length_pos_of_ne_nil (ne_nil_of_isBlank hblank), hlength⟩
  · exact List.ne_nil_of_length_pos (by omega)

theorem Importable.transcript {turns : List ChatTurn} (h : Importable turns) :
    Transcript turns ∧ Shown turns := by
  refine ⟨⟨h.pairs, h.count, fun turn hmem => ?_, le_trans h.total (by decide)⟩,
    fun turn hmem => (h.contents turn hmem).1⟩
  obtain ⟨hblank, hlength⟩ := h.contents turn hmem
  exact ⟨List.length_pos_of_ne_nil (ne_nil_of_isBlank hblank), hlength⟩

section
variable {β : Type*} {codec : JsonCodec β} {window window' : ChatWindow} {event : ChatEvent β}

/-- Where the generation of a window comes from: it was there before, or it starts. -/
def Starts (window : ChatWindow) (generation : Generation) : Prop :=
  (∃ before, window.generation = some before ∧ generation.pending = before.pending) ∨
    ∃ history, generation.pending = trimPairs history ∧ Bounded history ∧
      endsAsking history = true ∧ (Shown window.turns → Shown history)

variable (codec window event) in
/-- What an event does to the conversation. -/
inductive Change : ChatWindow → Prop where
  /-- nothing; a generation may start, go on or end -/
  | kept (selected : Option Text) (generation : Option Generation)
    (hselected : listed selected = true)
    (hgeneration : ∀ g, generation = some g → Starts window g)
    (hvisible : visible codec window event = true) :
    Change ⟨window.turns, window.conversationModelId, selected, generation⟩
  /-- it is extended by a reply -/
  | completed (generation : Generation) (answer : Text)
    (hgeneration : window.generation = some generation)
    (hmodel : acceptableModel generation.modelId = true) (hanswer : 1 ≤ answer.length)
    (hvisible : visible codec window event = !isBlank (answer.take 8000)) :
    Change ⟨generation.pending ++ [⟨ascii "assistant", answer.take 8000⟩],
      some generation.modelId, window.selectedModelId, none⟩
  /-- another one takes its place -/
  | replaced (turns : List ChatTurn) (modelId : Text) (selected : Option Text)
    (hselected : listed selected = true) (hne : turns ≠ []) (hturns : Transcript turns)
    (hshown : Shown turns) (hmodel : modelId.length ≤ 512)
    (hvisible : visible codec window event = !isBlank modelId) :
    Change ⟨turns, some modelId, selected, window.generation⟩
  /-- a new one begins -/
  | emptied (modelId selected : Option Text) (hselected : listed selected = true)
    (hvisible : visible codec window event = true) :
    Change ⟨[], modelId, selected, window.generation⟩

theorem Change.refl (hinv : Inv window) (hvisible : visible codec window event = true) :
    Change codec window event window :=
  .kept window.selectedModelId window.generation hinv.selected
    (fun g hg => .inl ⟨g, hg, rfl⟩) hvisible

theorem generateReply_change {prompt : Text} {regenerate : Bool} (hinv : Inv window)
    (hprompt : prompt.length ≤ 8000) (hvisible : visible codec window event = true) :
    Change codec window event (window.generateReply prompt regenerate) := by
  rcases generateReply_spec hinv.transcript hprompt with hsame |
    ⟨generation, history, hpending, hstarts, hbounded, hasking, hshown⟩
  · rw [hsame]
    exact Change.refl hinv hvisible
  · rw [hstarts]
    apply Change.kept _ _ hinv.selected _ hvisible
    rintro g hg
    obtain rfl := Option.some.inj hg
    exact .inr ⟨history, hpending, hbounded, hasking, hshown⟩

theorem listed_of_length {modelId : Text} (hne : isBlank modelId = false)
    (hlength : modelId.length ≤ 512) : listed (some modelId) = true := by
  show (decide (1 ≤ modelId.length) && decide (modelId.length ≤ 512)) = true
  rw [Bool.and_eq_true, decide_eq_true_eq, decide_eq_true_eq]
  exact ⟨List.length_pos_of_ne_nil (ne_nil_of_isBlank hne), hlength⟩

theorem length_of_listed {modelId : Text} (h : listed (some modelId) = true) :
    modelId.length ≤ 512 :=
  of_decide_eq_true (Bool.and_eq_true_iff.mp h).2

/-- What one event can do. -/
theorem step_change (hinv : Inv window) (h : step codec window event = some window') :
    Change codec window event window' := by
  cases event with
  | inventory selected =>
    rw [step] at h
    split at h
    · next hselected =>
      obtain rfl := Option.some.inj h
      exact .kept selected window.generation hselected (fun g hg => .inl ⟨g, hg, rfl⟩) rfl
    · cases h
  | pick selected =>
    rw [step] at h
    split at h
    · cases h
    · next hlisted =>
      rw [Bool.not_eq_false] at hlisted
      split at h
      · obtain rfl := Option.some.inj h
        exact .emptied selected selected hlisted rfl
      · obtain rfl := Option.some.inj h
        exact .kept selected window.generation hlisted (fun g hg => .inl ⟨g, hg, rfl⟩) rfl
  | send prompt =>
    rw [step] at h
    split at h
    · cases h
    · next hlength =>
      obtain rfl := Option.some.inj h
      exact generateReply_change hinv (not_lt.mp hlength) rfl
  | regenerate =>
    obtain rfl := Option.some.inj h
    exact generateReply_change hinv (Nat.zero_le 8000) rfl
  | cancel =>
    obtain rfl := Option.some.inj h
    apply Change.kept _ _ hinv.selected _ rfl
    intro g hg
    obtain ⟨before, hbefore, rfl⟩ := Option.map_eq_some_iff.mp hg
    exact .inl ⟨before, hbefore, rfl⟩
  | reply answer =>
    rw [step] at h
    split at h
    · cases h
    · next generation hgeneration =>
      split at h
      · next hstreamed =>
        obtain rfl := Option.some.inj h
        simp only [streamed, validateChatTurns, Bool.and_eq_true, decide_eq_true_eq] at hstreamed
        rw [ChatWindow.finish]
        split
        · next hcancelled =>
          -- a late reply
          apply Change.kept window.selectedModelId none hinv.selected (fun g hg => by cases hg)
          rw [visible, hgeneration, Option.all_some, hcancelled, Bool.true_or]
        · next hcancelled =>
          rw [Bool.not_eq_true] at hcancelled
          apply Change.completed generation answer hgeneration hstreamed.1.1.1.1 hstreamed.2.1
          rw [visible, hgeneration, Option.all_some, hcancelled, Bool.false_or]
      · cases h
  | fail =>
    rw [step] at h
    split at h
    · obtain rfl := Option.some.inj h
      exact .kept window.selectedModelId none hinv.selected (fun g hg => by cases hg) rfl
    · cases h
  | restore chat available =>
    rw [step] at h
    split at h
    · cases h
    · next hread =>
      rw [not_not] at hread
      split at h
      · obtain rfl := Option.some.inj h
        exact Change.refl hinv rfl
      · obtain rfl := Option.some.inj h
        have hvalid := (of_readChat hread).1
        obtain ⟨htranscript, hne, hshown⟩ := SavedChat.transcript hvalid
        obtain ⟨hblank, hlength⟩ := hvalid.model
        apply Change.replaced _ _ _ _ hne htranscript hshown hlength
        · rw [hblank]
          rfl
        · cases available with
          | true => exact listed_of_length hblank hlength
          | false => rfl
  | openFile file available =>
    rw [step] at h
    split at h
    · next e himport =>
      obtain rfl := Option.some.inj h
      apply Change.refl hinv
      rw [visible, himport]
    · next imported himport =>
      obtain ⟨himportable, hne, hid⟩ := importJson_importable himport
      obtain ⟨htranscript, hshown⟩ := Importable.transcript himportable
      split at h
      · next hmodel =>
        obtain rfl := Option.some.inj h
        apply Change.refl hinv
        rw [visible, himport]
        show (importModel window imported available).all _ = true
        rw [hmodel]
        rfl
      · next modelId hmodel =>
        obtain rfl := Option.some.inj h
        have hlisted : listed (some modelId) = true := by
          rw [importModel] at hmodel
          split at hmodel
          · obtain ⟨hblank, hlength⟩ := hid modelId hmodel
            exact listed_of_length hblank hlength
          · rw [← hmodel]
            exact hinv.selected
        apply Change.replaced _ _ _ hlisted hne htranscript hshown (length_of_listed hlisted)
        rw [visible, himport]
        show (importModel window imported available).all _ = _
        rw [hmodel]
        rfl
  | clear =>
    obtain rfl := Option.some.inj h
    exact .emptied window.selectedModelId window.selectedModelId hinv.selected rfl

theorem Starts.request {generation : Generation} (hinv : Inv window)
    (h : Starts window generation) : Request generation.pending := by
  rcases h with ⟨before, hbefore, hpending⟩ | ⟨history, hpending, hbounded, hasking, -⟩
  · rw [hpending]
    exact hinv.request before hbefore
  · rw [hpending]
    exact (trimPairs_spec hbounded).request hbounded hasking

theorem Change.inv (hinv : Inv window) (h : Change codec window event window') : Inv window' := by
  cases h with
  | kept selected generation hselected hgeneration hvisible =>
    exact ⟨hinv.transcript, fun g hg => (hgeneration g hg).request hinv, hselected⟩
  | completed generation answer hgeneration hmodel hanswer hvisible =>
    refine ⟨(hinv.request generation hgeneration).reply hanswer, fun g hg => ?_, hinv.selected⟩
    cases hg
  | replaced turns modelId selected hselected hne hturns hshown hmodel hvisible =>
    exact ⟨hturns, hinv.request, hselected⟩
  | emptied modelId selected hselected hvisible =>
    exact ⟨Transcript.nil, hinv.request, hselected⟩

/-! ### Saving -/

theorem saves_iff {modelId : Text} (hturns : Transcript window.turns) (hne : window.turns ≠ [])
    (hconversation : window.conversationModelId = some modelId) (hmodel : modelId.length ≤ 512) :
    Saves window ↔ isBlank modelId = false ∧ Shown window.turns := by
  constructor
  · intro h
    obtain ⟨other, hother, hcreate⟩ := h hne
    obtain rfl : modelId = other := Option.some.inj (hconversation.symm.trans hother)
    exact (create_iff hturns hne (show isGuid firstId = true by decide) hmodel 1).mp
      (hcreate firstId 1 (by decide))
  · intro h _
    exact ⟨modelId, hconversation, fun id now hid =>
      (create_iff hturns hne hid hmodel now).mpr h⟩

theorem shown_of_saves (hinv : Inv window) (h : Saves window) : Shown window.turns := by
  by_cases hne : window.turns = []
  · rw [hne]
    exact fun _ hmem => absurd hmem List.not_mem_nil
  · obtain ⟨modelId, hconversation, hcreate⟩ := h hne
    obtain ⟨chat, hchat⟩ := hcreate firstId 1 (by decide)
    have hmodel := (limits_of_create hchat).1.2
    exact ((saves_iff hinv.transcript hne hconversation hmodel).mp h).2

/-- The invariant while every conversation has been taken. -/
structure Shows (window : ChatWindow) : Prop where
  inv : Inv window
  pending : ∀ generation, window.generation = some generation → Shown generation.pending

theorem Change.shows (h : Shows window) (hsaves : Saves window)
    (hchange : Change codec window event window') : Shows window' := by
  refine ⟨hchange.inv h.inv, ?_⟩
  cases hchange with
  | kept selected generation hselected hgeneration hvisible =>
    intro g hg
    rcases hgeneration g hg with ⟨before, hbefore, hpending⟩ |
      ⟨history, hpending, hbounded, -, hshown⟩
    · rw [hpending]
      exact h.pending before hbefore
    · rw [hpending]
      intro turn hmem
      exact hshown (shown_of_saves h.inv hsaves) turn
        ((trimPairs_spec hbounded).ending.subset hmem)
  | completed generation answer hgeneration hmodel hanswer hvisible =>
    intro g hg
    cases hg
  | replaced turns modelId selected hselected hne hturns hshown hmodel hvisible => exact h.pending
  | emptied modelId selected hselected hvisible => exact h.pending

theorem Change.saves_iff (h : Shows window) (hsaves : Saves window)
    (hchange : Change codec window event window') :
    Saves window' ↔ visible codec window event = true := by
  cases hchange with
  | kept selected generation hselected hgeneration hvisible => exact iff_of_true hsaves hvisible
  | completed generation answer hgeneration hmodel hanswer hvisible =>
    obtain ⟨hblank, hlength⟩ := Bool.and_eq_true_iff.mp hmodel
    rw [Bool.not_eq_true'] at hblank
    have htranscript := (h.inv.request generation hgeneration).reply hanswer
    have hpending := h.pending generation hgeneration
    rw [ChatSession.saves_iff htranscript (List.append_ne_nil_of_right_ne_nil _
      (List.cons_ne_nil _ _)) rfl (of_decide_eq_true hlength), hvisible, Bool.not_eq_true']
    constructor
    · rintro ⟨-, hshown⟩
      exact hshown _ (List.mem_append_right _ List.mem_cons_self)
    · intro hreply
      refine ⟨hblank, fun turn hmem => ?_⟩
      rcases List.mem_append.mp hmem with hmem | hmem
      · exact hpending turn hmem
      · obtain rfl := List.mem_singleton.mp hmem
        exact hreply
  | replaced turns modelId selected hselected hne hturns hshown hmodel hvisible =>
    rw [ChatSession.saves_iff hturns hne rfl hmodel, hvisible, Bool.not_eq_true']
    exact and_iff_left hshown
  | emptied modelId selected hselected hvisible =>
    exact iff_of_true (fun hne => absurd rfl hne) hvisible

/-! ### Main result -/

variable (window) in
/-- The requests that are built in a window, each with its history up to the question. -/
inductive Asks : List ChatTurn → List ChatTurn → Prop where
  | send (prompt : Text) (hne : trim prompt ≠ []) (hlength : prompt.length ≤ 8000) :
    Asks (window.turns ++ [⟨ascii "user", trim prompt⟩])
      (forRequest window.turns (some ⟨ascii "user", trim prompt⟩))
  | regenerate (request : List ChatTurn) (h : forRegenerate window.turns = some request) :
    Asks window.turns.dropLast request
  /-- the context check without a prompt -/
  | check (hne : window.turns ≠ []) : Asks window.turns (forRequest window.turns none)

variable (window) in
/-- The events of a generation that does not complete. -/
def quiet : ChatEvent β → Bool
  | .send _ => true
  | .regenerate => true
  | .cancel => true
  | .fail => true
  | .reply _ => window.generation.all Generation.cancelled
  | _ => false

variable (codec window) in
/-- What holds in every window that is reached. -/
structure Safe : Prop where
  alternates : completePairs window.turns = true
  even : window.turns.length % 2 = 0
  count : window.turns.length ≤ 20
  lengths : ∀ turn ∈ window.turns, turn.content.length ≤ 8000
  requests : ∀ history request, Asks window history request →
    request <:+ history ∧ asksFirst request ∧
      ∀ modelId, validateChatTurns modelId request = acceptableModel modelId
  quiet : ∀ (event : ChatEvent β) (window' : ChatWindow), quiet window event = true →
    step codec window event = some window' →
    window'.turns = window.turns ∧ window'.conversationModelId = window.conversationModelId

theorem Asks.trimmed {history request : List ChatTurn} (hinv : Inv window)
    (h : Asks window history request) :
    Trimmed history request ∧ Bounded history ∧ history ≠ [] ∧
      (endsAsking history = true ∨ completePairs history = true) := by
  cases h with
  | send prompt hne hlength =>
    have hbounded : Bounded (window.turns ++ [⟨ascii "user", trim prompt⟩]) := by
      intro turn hmem
      rcases List.mem_append.mp hmem with hmem | hmem
      · exact hinv.transcript.bounded turn hmem
      · obtain rfl := List.mem_singleton.mp hmem
        have hstrip := (Text.strip_isInfix isWhiteSpace prompt).length_le
        exact ⟨List.length_pos_of_ne_nil hne, le_trans hstrip hlength⟩
    exact ⟨trimPairs_spec hbounded, hbounded,
      List.append_ne_nil_of_right_ne_nil _ (List.cons_ne_nil _ _),
      .inl (endsAsking_append hinv.transcript.pairs rfl)⟩
  | regenerate request hrequest =>
    rw [forRegenerate] at hrequest
    split at hrequest
    · next hcan =>
      obtain rfl := Option.some.inj hrequest
      have hbounded : Bounded window.turns.dropLast :=
        fun turn hmem => hinv.transcript.bounded turn (List.mem_of_mem_dropLast hmem)
      have hasking := endsAsking_dropLast hinv.transcript.pairs (canRegenerate_ne_nil hcan)
      refine ⟨?_, hbounded, ?_, .inl hasking⟩
      · rw [forRequest, Option.toList_none, List.append_nil]
        exact trimPairs_spec hbounded
      · rintro hnil
        rw [hnil] at hasking
        cases hasking
    · cases hrequest
  | check hne =>
    refine ⟨?_, hinv.transcript.bounded, hne, .inr hinv.transcript.pairs⟩
    rw [forRequest, Option.toList_none, List.append_nil]
    exact trimPairs_spec hinv.transcript.bounded

theorem Asks.spec {history request : List ChatTurn} (hinv : Inv window)
    (h : Asks window history request) :
    request <:+ history ∧ asksFirst request ∧
      ∀ modelId, validateChatTurns modelId request = acceptableModel modelId := by
  obtain ⟨htrimmed, hbounded, hne, hshape⟩ := h.trimmed hinv
  rcases hshape with hasking | hpairs
  · exact ⟨htrimmed.ending, asksFirst_of_endsAsking (htrimmed.asking hasking),
      htrimmed.validates hbounded (roles_of_endsAsking hasking) hne⟩
  · exact ⟨htrimmed.ending,
      asksFirst_of_completePairs (htrimmed.pairs hpairs) (htrimmed.ne_nil hne),
      htrimmed.validates hbounded (roles_of_completePairs hpairs) hne⟩

theorem generateReply_turns (prompt : Text) (regenerate : Bool) :
    (window.generateReply prompt regenerate).turns = window.turns ∧
      (window.generateReply prompt regenerate).conversationModelId =
        window.conversationModelId := by
  rw [ChatWindow.generateReply]
  split
  · exact ⟨rfl, rfl⟩
  · dsimp only
    cases regenerate with
    | true => split_ifs <;> exact ⟨rfl, rfl⟩
    | false => split_ifs <;> exact ⟨rfl, rfl⟩

/-- A generation that does not complete leaves the conversation as it is. -/
theorem step_quiet (hquiet : quiet window event = true)
    (h : step codec window event = some window') :
    window'.turns = window.turns ∧ window'.conversationModelId = window.conversationModelId := by
  cases event with
  | send prompt =>
    rw [step] at h
    split at h
    · cases h
    · obtain rfl := Option.some.inj h
      exact generateReply_turns prompt false
  | regenerate =>
    obtain rfl := Option.some.inj h
    exact generateReply_turns [] true
  | cancel =>
    obtain rfl := Option.some.inj h
    exact ⟨rfl, rfl⟩
  | fail =>
    rw [step] at h
    split at h
    · obtain rfl := Option.some.inj h
      exact ⟨rfl, rfl⟩
    · cases h
  | reply answer =>
    rw [step] at h
    split at h
    · cases h
    · next generation hgeneration =>
      rw [quiet, hgeneration, Option.all_some] at hquiet
      split at h
      · obtain rfl := Option.some.inj h
        rw [ChatWindow.finish, if_pos hquiet]
        exact ⟨rfl, rfl⟩
      · cases h
  | inventory selected => cases hquiet
  | pick selected => cases hquiet
  | restore chat available => cases hquiet
  | openFile file available => cases hquiet
  | clear => cases hquiet

theorem Inv.safe (h : Inv window) : Safe codec window where
  alternates := h.transcript.pairs
  even := completePairs_even h.transcript.pairs
  count := h.transcript.count
  lengths turn hmem := (h.transcript.bounded turn hmem).2
  requests _ _ hasks := hasks.spec h
  quiet _ _ hquiet hstep := step_quiet hquiet hstep

/-- **Runs of the chat window.**  The conversation and its requests keep their shape in every
run.  The history takes every conversation of a run exactly if no reply is kept whose first 8000
units are white space, and no file is imported under a model id that is white space. -/
theorem conversation_iff {events : List (ChatEvent β)}
    (hrun : Transition.run (step codec) ChatWindow.initial events = some window) :
    Safe codec window ∧
      (Transition.always (step codec) Saves ChatWindow.initial events ↔
        Transition.meets (step codec) (visible codec) ChatWindow.initial events = true) := by
  have hinv : Inv window :=
    Transition.run_always (fun s e s' hs hstep => (step_change hs hstep).inv hs) Inv.initial hrun
  refine ⟨hinv.safe, ?_⟩
  have hinitial : Shows ChatWindow.initial := by
    refine ⟨Inv.initial, fun generation h => ?_⟩
    cases h
  apply Transition.always_iff_meets _ _ hinitial (fun hne => absurd rfl hne) hrun
  · exact fun s e s' hs hsaves hstep => (step_change hs.inv hstep).shows hs hsaves
  · exact fun s e s' hs hsaves hstep => (step_change hs.inv hstep).saves_iff hs hsaves

end

/-- A send and its reply. -/
def firstExchange (answer : Text) : List (ChatEvent JsonElement) :=
  [.inventory (some (ascii "m")), .send (ascii " hi "), .reply answer]

theorem conversation_iff_exchange :
    Safe documentCodec ⟨exchange (ascii "hi"), some (ascii "m"), some (ascii "m"), none⟩ ∧
      (Transition.always (step documentCodec) Saves ChatWindow.initial
          (firstExchange (ascii "ok")) ↔
        Transition.meets (step documentCodec) (visible documentCodec) ChatWindow.initial
          (firstExchange (ascii "ok")) = true) := by
  have hrun : Transition.run (step documentCodec) ChatWindow.initial
      (firstExchange (ascii "ok")) =
        some ⟨exchange (ascii "hi"), some (ascii "m"), some (ascii "m"), none⟩ := rfl
  exact conversation_iff hrun

/-- A reply of one blank is kept, and the history refuses the conversation. -/
theorem blankReply_refused :
    ∃ window, Transition.run (step documentCodec) ChatWindow.initial
        (firstExchange (ascii " ")) = some window ∧
      window.turns = [⟨ascii "user", ascii "hi"⟩, ⟨ascii "assistant", ascii " "⟩] ∧
      window.conversationModelId = some (ascii "m") ∧
      create firstId (ascii "m") window.turns 1 = .error .argument ∧ ¬ Saves window := by
  refine ⟨_, rfl, rfl, rfl, rfl, fun h => ?_⟩
  obtain ⟨modelId, hmodel, hcreate⟩ := h (List.cons_ne_nil _ _)
  obtain rfl := Option.some.inj hmodel
  obtain ⟨chat, hchat⟩ := hcreate firstId 1 (by decide)
  cases hchat

end InferBridge.ChatSession
