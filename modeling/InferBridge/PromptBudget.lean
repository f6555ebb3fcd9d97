/-
InferBridge/PromptBudget.lean

Fitting a conversation into a token budget, twice: the prompt builder of
the generation paths (app/chat_format.py) and the analyzer of the context
preflight (app/context_budget.py), which also reports the messages that it
left out.

Both render and count whole candidates, search by bisection for the number
of turns that fits, and release the image context of every candidate that
they do not return.  The chat template and the token counter may be any
functions; either may fail.

Main results.  The two return the same prompt and token count, fail alike
and release the same contexts in the same order
(`analyzePromptBudget_agrees`); the report's retained and dropped indexes
partition the messages, and the retained ones render to the prompt.
-/
import InferBridge.Tools
import InferBridge.Lib.Returns

namespace InferBridge

open Text

/-! ### Messages -/

inductive ContentPart (ι : Type) where
  | text (s : Str)
  | image (payload : ι)

/-- Normalized content: text, or fragments with decoded images. -/
inductive Content (ι : Type) where
  | text (s : Str)
  | multimodal (parts : List (ContentPart ι))

structure Message (ι : Type) where
  role : Str
  content : Content ι

section
variable {ι : Type}

def ContentPart.fragment (placeholder : Str) : ContentPart ι → Str
  | .text s => s
  | .image _ => placeholder

/-- `plain_text`, of normalized content -/
def plainText (placeholder : Str) : Content ι → Str
  | .text s => s
  | .multimodal parts =>
    ['\n'].intercalate ((parts.map (ContentPart.fragment placeholder)).filter (!·.isEmpty))

def isUserMessage (message : Message ι) : Bool := decide (message.role = "user".toList)

def isSystemMessage (message : Message ι) : Bool := decide (message.role = "system".toList)

/-- `_is_tool_result_message` -/
def isToolResultMessage (message : Message ι) : Bool :=
  isUserMessage message && "[tool result".toList.isPrefixOf
    ((plainText "[Image]".toList message.content).dropWhile isSpace)

/-- `items[-k:]` -/
def lastItems {α : Type} (items : List α) (k : Int) : List α :=
  if 0 < k then items.drop (items.length - k.toNat) else items.drop (-k).toNat

/-! ### Turns -/

/-- `current and current[0].get("role") == "user"` -/
def opensWithUser : List (Message ι) → Bool
  | [] => false
  | message :: _ => isUserMessage message

/-- The loop of `_split_leading_system_and_turns`: the turns that are complete, and the current
one. -/
def splitLoop (turns : List (List (Message ι))) (current : List (Message ι)) :
    List (Message ι) → List (List (Message ι)) × List (Message ι)
  | [] => (turns, current)
  | message :: rest =>
    if isUserMessage message && !(!current.isEmpty && isToolResultMessage message) then
      splitLoop (if opensWithUser current then turns ++ [current] else turns) [message] rest
    else if !current.isEmpty then splitLoop turns (current ++ [message]) rest
    else if isUserMessage message then splitLoop turns [message] rest
    else splitLoop turns current rest

/-- `_split_leading_system_and_turns` -/
def splitLeadingSystemAndTurns (messages : List (Message ι)) :
    List (Message ι) × List (List (Message ι)) :=
  let system := messages.takeWhile isSystemMessage
  let remainder := messages.dropWhile isSystemMessage
  let (turns, current) := splitLoop [] [] remainder
  let turns := if opensWithUser current then turns ++ [current] else turns
  if turns.isEmpty then
    (system, match remainder.getLast? with
      | none => []
      | some last => [[last]])
  else (system, turns)

abbrev IndexedMessage (ι : Type) := Nat × Message ι

/-- `enumerate(items, start)` -/
def enumerate {α : Type} (start : Nat) : List α → List (Nat × α)
  | [] => []
  | a :: rest => (start, a) :: enumerate (start + 1) rest

def opensWithUserIndexed : List (IndexedMessage ι) → Bool
  | [] => false
  | (_, message) :: _ => isUserMessage message

/-- The loop of `_split_indexed_turns` -/
def splitIndexedLoop (turns : List (List (IndexedMessage ι))) (current : List (IndexedMessage ι)) :
    List (IndexedMessage ι) → List (List (IndexedMessage ι)) × List (IndexedMessage ι)
  | [] => (turns, current)
  | (index, message) :: rest =>
    if isUserMessage message && !(!current.isEmpty && isToolResultMessage message) then
      splitIndexedLoop (if opensWithUserIndexed current then turns ++ [current] else turns)
        [(index, message)] rest
    else if !current.isEmpty then splitIndexedLoop turns (current ++ [(index, message)]) rest
    else if isUserMessage message then splitIndexedLoop turns [(index, message)] rest
    else splitIndexedLoop turns current rest

/-- `_split_indexed_turns` -/
def splitIndexedTurns (messages : List (Message ι)) :
    List (IndexedMessage ι) × List (List (IndexedMessage ι)) :=
  let system := enumerate 0 (messages.takeWhile isSystemMessage)
  let remainder := enumerate system.length (messages.dropWhile isSystemMessage)
  let (turns, current) := splitIndexedLoop [] [] remainder
  let turns := if opensWithUserIndexed current then turns ++ [current] else turns
  if turns.isEmpty then
    (system, match remainder.getLast? with
      | none => []
      | some last => [[last]])
  else (system, turns)

end

/-! ### Rendering and counting -/

/-- A program that may fail and keeps a record of the prompts whose context it released. -/
abbrev Rendering (ε π : Type) := ExceptT ε (StateM (List π))

section
variable {ι ε π : Type}

def discardPromptContext (prompt : π) : Rendering ε π Unit :=
  modify fun released => released ++ [prompt]

section
variable (applyTemplate : List (Message ι) → Except ε π) (countTokens : π → Except ε Int)

/-- `_count_or_release` -/
def countOrRelease (prompt : π) : Rendering ε π Int :=
  match countTokens prompt with
  | .ok tokens => pure tokens
  | .error e => do
    discardPromptContext prompt
    throw e

/-- The bisection of `build_prompt_within_budget` -/
def windowLoop (system : List (Message ι)) (turns : List (List (Message ι))) (maxPromptLen : Int)
    (low high bestK : Int) : Rendering ε π Int :=
  if low ≤ high then do
    let mid := (low + high) / 2
    let candidate ← MonadExcept.ofExcept (applyTemplate (system ++ (lastItems turns mid).flatten))
    let candidateTokens ← countOrRelease countTokens candidate
    discardPromptContext candidate
    if candidateTokens ≤ maxPromptLen then
      windowLoop system turns maxPromptLen (mid + 1) high mid
    else windowLoop system turns maxPromptLen low (mid - 1) bestK
  else pure bestK
termination_by (high + 1 - low).toNat
decreasing_by all_goals omega

/-- `build_prompt_within_budget` -/
def buildPromptWithinBudget (messages : List (Message ι)) (maxPromptLen : Int) :
    Rendering ε π (π × Int) :=
  if messages.isEmpty then do
    let prompt ← MonadExcept.ofExcept (applyTemplate [])
    let tokens ← countOrRelease countTokens prompt
    pure (prompt, tokens)
  else do
    let full ← MonadExcept.ofExcept (applyTemplate messages)
    let fullTokens ← countOrRelease countTokens full
    if fullTokens ≤ maxPromptLen then pure (full, fullTokens)
    else do
      discardPromptContext full
      let (system, turns) := splitLeadingSystemAndTurns messages
      if turns.isEmpty then do
        let prompt ← MonadExcept.ofExcept (applyTemplate system)
        let tokens ← countOrRelease countTokens prompt
        pure (prompt, tokens)
      else do
        let bestK ← windowLoop applyTemplate countTokens system turns maxPromptLen 1 turns.length 1
        let final ← MonadExcept.ofExcept
          (applyTemplate (system ++ (lastItems turns bestK).flatten))
        let tokens ← countOrRelease countTokens final
        pure (final, tokens)

/-- `_render_and_count` -/
def renderAndCount (messages : List (Message ι)) : Rendering ε π (π × Int) := do
  let prompt ← MonadExcept.ofExcept (applyTemplate messages)
  match countTokens prompt with
  | .ok tokens => pure (prompt, tokens)
  | .error e => do
    discardPromptContext prompt
    throw e

structure PromptBudgetAnalysis (π : Type) where
  prompt : π
  promptTokens : Int
  retainedIndexes : List Nat
  droppedIndexes : List Nat
  droppedTurns : Int

/-- The bisection of `analyze_prompt_budget` -/
def analyzeLoop (system : List (IndexedMessage ι)) (turns : List (List (IndexedMessage ι)))
    (maxPromptLen : Int) (low high bestK : Int) : Rendering ε π Int :=
  if low ≤ high then do
    let mid := (low + high) / 2
    let candidateIndexed := system ++ (lastItems turns mid).flatten
    let (candidate, candidateTokens) ←
      renderAndCount applyTemplate countTokens (candidateIndexed.map Prod.snd)
    discardPromptContext candidate
    if candidateTokens ≤ maxPromptLen then
      analyzeLoop system turns maxPromptLen (mid + 1) high mid
    else analyzeLoop system turns maxPromptLen low (mid - 1) bestK
  else pure bestK
termination_by (high + 1 - low).toNat
decreasing_by all_goals omega

/-- The indexes of the messages that are not retained. -/
def droppedFrom (messages : List (Message ι)) (retained : List Nat) : List Nat :=
  ((enumerate 0 messages).map Prod.fst).filter (!retained.contains ·)

/-- `analyze_prompt_budget` -/
def analyzePromptBudget (messages : List (Message ι)) (maxPromptLen : Int) :
    Rendering ε π (PromptBudgetAnalysis π) :=
  if messages.isEmpty then do
    let (prompt, tokens) ← renderAndCount applyTemplate countTokens []
    pure ⟨prompt, tokens, [], [], 0⟩
  else do
    let (fullPrompt, fullTokens) ← renderAndCount applyTemplate countTokens messages
    if fullTokens ≤ maxPromptLen then
      pure ⟨fullPrompt, fullTokens, (enumerate 0 messages).map Prod.fst, [], 0⟩
    else do
      discardPromptContext fullPrompt
      let (system, turns) := splitIndexedTurns messages
      if turns.isEmpty then do
        let (prompt, tokens) ← renderAndCount applyTemplate countTokens (system.map Prod.snd)
        let retained := system.map Prod.fst
        pure ⟨prompt, tokens, retained, droppedFrom messages retained, 0⟩
      else do
        let bestK ← analyzeLoop applyTemplate countTokens system turns maxPromptLen 1 turns.length 1
        let retainedIndexed := system ++ (lastItems turns bestK).flatten
        let (prompt, tokens) ←
          renderAndCount applyTemplate countTokens (retainedIndexed.map Prod.snd)
        let retained := retainedIndexed.map Prod.fst
        pure ⟨prompt, tokens, retained, droppedFrom messages retained,
          max 0 (turns.length - bestK)⟩

end

/-! ### The two agree -/

theorem enumerate_snd {α : Type} (start : Nat) (items : List α) :
    (enumerate start items).map Prod.snd = items := by
  induction items generalizing start with
  | nil => rfl
  | cons a rest ih =>
    show a :: (enumerate (start + 1) rest).map Prod.snd = a :: rest
    rw [ih]

theorem opensWithUserIndexed_eq (items : List (IndexedMessage ι)) :
    opensWithUserIndexed items = opensWithUser (items.map Prod.snd) := by
  cases items <;> rfl

/-- Forgetting the indexes. -/
def forget (split : List (List (IndexedMessage ι)) × List (IndexedMessage ι)) :
    List (List (Message ι)) × List (Message ι) :=
  (split.1.map (·.map Prod.snd), split.2.map Prod.snd)

theorem splitIndexedLoop_forget (turns : List (List (IndexedMessage ι)))
    (current rest : List (IndexedMessage ι)) :
    forget (splitIndexedLoop turns current rest) =
      splitLoop (turns.map (·.map Prod.snd)) (current.map Prod.snd) (rest.map Prod.snd) := by
  induction rest generalizing turns current with
  | nil => rfl
  | cons item rest ih =>
    obtain ⟨index, message⟩ := item
    rw [splitIndexedLoop, List.map_cons, splitLoop, List.isEmpty_map]
    split
    · rw [ih, opensWithUserIndexed_eq]
      congr 1
      split
      · rw [List.map_append]
        rfl
      · rfl
    · split
      · rw [ih, List.map_append]
        rfl
      · split
        · exact ih turns [(index, message)]
        · exact ih turns current

theorem getLast?_enumerate {α : Type} (start : Nat) (items : List α) :
    (enumerate start items).getLast?.map Prod.snd = items.getLast? := by
  rw [← List.getLast?_map, enumerate_snd]

/-- The turns with the current one, where it is a turn. -/
theorem closeTurns_forget (turns : List (List (IndexedMessage ι)))
    (current : List (IndexedMessage ι)) :
    (if opensWithUserIndexed current then turns ++ [current] else turns).map (·.map Prod.snd) =
      if opensWithUser (current.map Prod.snd) then turns.map (·.map Prod.snd) ++ [current.map Prod.snd]
      else turns.map (·.map Prod.snd) := by
  rw [opensWithUserIndexed_eq]
  split
  · rw [List.map_append]
    rfl
  · rfl

theorem splitIndexedTurns_forget (messages : List (Message ι)) :
    splitLeadingSystemAndTurns messages =
      ((splitIndexedTurns messages).1.map Prod.snd,
        (splitIndexedTurns messages).2.map (·.map Prod.snd)) := by
  unfold splitIndexedTurns splitLeadingSystemAndTurns
  dsimp only
  generalize messages.takeWhile isSystemMessage = system
  generalize messages.dropWhile isSystemMessage = remainder
  generalize (enumerate 0 system).length = start
  have hloop := splitIndexedLoop_forget [] [] (enumerate start remainder)
  rw [enumerate_snd] at hloop
  rcases hindexed : splitIndexedLoop [] [] (enumerate start remainder) with ⟨turns, current⟩
  rw [hindexed] at hloop
  have hplain : splitLoop [] [] remainder = (turns.map (·.map Prod.snd), current.map Prod.snd) :=
    hloop.symm
  rw [hplain]
  dsimp only
  rw [← closeTurns_forget, List.isEmpty_map]
  generalize (if opensWithUserIndexed current then turns ++ [current] else turns) = closed
  split
  · rw [enumerate_snd, ← getLast?_enumerate start remainder]
    congr 1
    rcases (enumerate start remainder).getLast? with - | ⟨index, last⟩ <;> rfl
  · rw [enumerate_snd]

theorem map_lastItems {α β : Type} (f : α → β) (items : List α) (k : Int) :
    (lastItems items k).map f = lastItems (items.map f) k := by
  unfold lastItems
  split
  · rw [List.map_drop, List.length_map]
  · rw [List.map_drop]

/-- A window of turns without its indexes. -/
theorem window_forget (system : List (IndexedMessage ι)) (turns : List (List (IndexedMessage ι)))
    (k : Int) : (system ++ (lastItems turns k).flatten).map Prod.snd =
      system.map Prod.snd ++ (lastItems (turns.map (·.map Prod.snd)) k).flatten := by
  rw [List.map_append, List.map_flatten, map_lastItems]

variable (applyTemplate : List (Message ι) → Except ε π) (countTokens : π → Except ε Int)

theorem renderAndCount_eq (messages : List (Message ι)) :
    renderAndCount applyTemplate countTokens messages = (do
      let prompt ← MonadExcept.ofExcept (applyTemplate messages)
      let tokens ← countOrRelease countTokens prompt
      pure (prompt, tokens)) := by
  unfold renderAndCount countOrRelease
  refine bind_congr fun prompt => ?_
  rcases countTokens prompt with e | tokens
  · simp
  · simp

theorem analyzeLoop_eq (system : List (IndexedMessage ι)) (turns : List (List (IndexedMessage ι)))
    (maxPromptLen low high bestK : Int) :
    analyzeLoop applyTemplate countTokens system turns maxPromptLen low high bestK =
      windowLoop applyTemplate countTokens (system.map Prod.snd) (turns.map (·.map Prod.snd))
        maxPromptLen low high bestK := by
  induction low, high, bestK using windowLoop.induct with
  | case1 low high bestK hle mid ihFits ihOver =>
    rw [analyzeLoop, windowLoop, if_pos hle, if_pos hle]
    dsimp only
    rw [renderAndCount_eq, window_forget, bind_assoc]
    refine bind_congr fun candidate => ?_
    rw [bind_assoc]
    refine bind_congr fun candidateTokens => ?_
    rw [pure_bind]
    refine bind_congr fun _ => ?_
    split
    · exact ihFits
    · exact ihOver
  | case2 low high bestK hgt =>
    rw [analyzeLoop, windowLoop, if_neg hgt, if_neg hgt]

/-- What both return. -/
def PromptBudgetAnalysis.answer (analysis : PromptBudgetAnalysis π) : π × Int :=
  (analysis.prompt, analysis.promptTokens)

theorem analyzePromptBudget_answer (messages : List (Message ι)) (maxPromptLen : Int) :
    PromptBudgetAnalysis.answer <$>
        analyzePromptBudget applyTemplate countTokens messages maxPromptLen =
      buildPromptWithinBudget applyTemplate countTokens messages maxPromptLen := by
  unfold analyzePromptBudget buildPromptWithinBudget
  split
  · rw [renderAndCount_eq]
    simp only [map_bind, bind_assoc, pure_bind, map_pure]
    rfl
  · simp only [renderAndCount_eq, map_bind, bind_assoc, pure_bind]
    refine bind_congr fun full => bind_congr fun fullTokens => ?_
    split
    · rw [map_pure]
      rfl
    · rw [splitIndexedTurns_forget]
      generalize splitIndexedTurns messages = split
      obtain ⟨system, turns⟩ := split
      rw [map_bind]
      refine bind_congr fun _ => ?_
      dsimp only
      rw [List.isEmpty_map]
      split
      · simp only [map_bind, map_pure]
        rfl
      · rw [map_bind, analyzeLoop_eq, List.length_map]
        refine bind_congr fun bestK => ?_
        simp only [window_forget, map_bind, map_pure]
        rfl

/-! ### Retained and dropped messages -/

theorem enumerate_append {α : Type} (start : Nat) (items others : List α) :
    enumerate start (items ++ others) =
      enumerate start items ++ enumerate (start + items.length) others := by
  induction items generalizing start with
  | nil => rfl
  | cons a rest ih =>
    show (start, a) :: enumerate (start + 1) (rest ++ others) = _
    rw [ih, List.length_cons, Nat.add_assoc, Nat.add_comm 1]
    rfl

theorem length_enumerate {α : Type} (start : Nat) (items : List α) :
    (enumerate start items).length = items.length := by
  rw [← List.length_map Prod.snd, enumerate_snd]

theorem enumerate_fst {α : Type} (start : Nat) (items : List α) :
    (enumerate start items).map Prod.fst = List.range' start items.length := by
  induction items generalizing start with
  | nil => rfl
  | cons a rest ih =>
    show start :: (enumerate (start + 1) rest).map Prod.fst = _
    rw [ih, List.length_cons, List.range'_succ]

theorem getElem?_of_mem_enumerate {α : Type} {start : Nat} {items : List α} {item : Nat × α}
    (h : item ∈ enumerate start items) : start ≤ item.1 ∧ items[item.1 - start]? = some item.2 := by
  induction items generalizing start with
  | nil => cases h
  | cons a rest ih =>
    rcases List.mem_cons.mp h with rfl | hrest
    · simp
    · obtain ⟨hle, hget⟩ := ih hrest
      refine ⟨by omega, ?_⟩
      rw [show item.1 - start = (item.1 - (start + 1)) + 1 by omega, List.getElem?_cons_succ]
      exact hget

/-- The loop keeps the messages in order. -/
theorem splitIndexedLoop_sublist {turns : List (List (IndexedMessage ι))}
    {current done : List (IndexedMessage ι)} (rest : List (IndexedMessage ι))
    (h : (turns.flatten ++ current).Sublist done) :
    ((splitIndexedLoop turns current rest).1.flatten ++
      (splitIndexedLoop turns current rest).2).Sublist (done ++ rest) := by
  induction rest generalizing turns current done with
  | nil =>
    rw [List.append_nil]
    exact h
  | cons item rest ih =>
    obtain ⟨index, message⟩ := item
    have happend : done ++ (index, message) :: rest = (done ++ [(index, message)]) ++ rest := by
      simp
    have hturns : turns.flatten.Sublist done := (List.sublist_append_left _ _).trans h
    rw [splitIndexedLoop, happend]
    split
    · apply ih
      apply List.Sublist.append _ (List.Sublist.refl _)
      split
      · rw [List.flatten_append, List.flatten_singleton]
        exact h
      · exact hturns
    · split
      · apply ih
        rw [← List.append_assoc]
        exact h.append (List.Sublist.refl _)
      · split
        · exact ih (hturns.append (List.Sublist.refl _))
        · exact ih (h.trans (List.sublist_append_left _ _))

/-- The retained items are items of the enumeration, in order. -/
theorem splitIndexedTurns_sublist (messages : List (Message ι)) :
    ((splitIndexedTurns messages).1 ++ (splitIndexedTurns messages).2.flatten).Sublist
      (enumerate 0 messages) := by
  have hsplit : enumerate 0 messages =
      enumerate 0 (messages.takeWhile isSystemMessage) ++
        enumerate (enumerate 0 (messages.takeWhile isSystemMessage)).length
          (messages.dropWhile isSystemMessage) := by
    rw [length_enumerate, ← Nat.zero_add (List.length _), ← enumerate_append,
      List.takeWhile_append_dropWhile]
  rw [hsplit]
  unfold splitIndexedTurns
  dsimp only
  generalize enumerate 0 (messages.takeWhile isSystemMessage) = system
  generalize enumerate system.length (messages.dropWhile isSystemMessage) = remainder
  have hstart : (([] : List (List (IndexedMessage ι))).flatten ++ []).Sublist [] :=
    List.Sublist.refl _
  have hloop := splitIndexedLoop_sublist remainder hstart
  rw [List.nil_append] at hloop
  rcases hends : splitIndexedLoop [] [] remainder with ⟨turns, current⟩
  rw [hends] at hloop
  have hclosed : (if opensWithUserIndexed current then turns ++ [current] else turns).flatten.Sublist
      remainder := by
    split
    · rw [List.flatten_append, List.flatten_singleton]
      exact hloop
    · exact (List.sublist_append_left _ _).trans hloop
  dsimp only
  generalize (if opensWithUserIndexed current then turns ++ [current] else turns) = closed
    at hclosed ⊢
  split
  · apply List.Sublist.append (List.Sublist.refl _)
    rcases hlast : remainder.getLast? with - | last
    · exact List.nil_sublist _
    · exact List.singleton_sublist.mpr (List.mem_of_getLast? hlast)
  · exact (List.Sublist.refl _).append hclosed

/-- Any window of the turns. -/
theorem window_sublist (messages : List (Message ι)) (k : Int) :
    ((splitIndexedTurns messages).1 ++
      (lastItems (splitIndexedTurns messages).2 k).flatten).Sublist (enumerate 0 messages) := by
  have hlast : (lastItems (splitIndexedTurns messages).2 k).Sublist
      (splitIndexedTurns messages).2 := by
    unfold lastItems
    split <;> exact List.drop_sublist _ _
  exact ((List.Sublist.refl _).append hlast.flatten).trans (splitIndexedTurns_sublist messages)

/-- What a report says about the messages. -/
structure PromptBudgetAnalysis.Accounts (analysis : PromptBudgetAnalysis π)
    (applyTemplate : List (Message ι) → Except ε π) (messages : List (Message ι)) : Prop where
  ordered : analysis.retainedIndexes.Pairwise (· < ·)
  disjoint : ∀ i ∈ analysis.retainedIndexes, i ∉ analysis.droppedIndexes
  cover : ∀ i, i ∈ analysis.retainedIndexes ∨ i ∈ analysis.droppedIndexes ↔ i < messages.length
  renders : applyTemplate (analysis.retainedIndexes.filterMap (messages[·]?)) = .ok analysis.prompt

theorem mem_droppedFrom {messages : List (Message ι)} {retained : List Nat} {i : Nat} :
    i ∈ droppedFrom messages retained ↔ i < messages.length ∧ i ∉ retained := by
  unfold droppedFrom
  rw [enumerate_fst, List.mem_filter]
  simp

/-- Indexing finds the enumerated messages again. -/
theorem messagesAt_of_sublist {messages : List (Message ι)} {items : List (IndexedMessage ι)}
    (h : items.Sublist (enumerate 0 messages)) :
    (items.map Prod.fst).filterMap (messages[·]?) = items.map Prod.snd := by
  have hitems : ∀ item ∈ items, messages[item.1]? = some item.2 := by
    intro item hitem
    exact (getElem?_of_mem_enumerate (h.subset hitem)).2
  clear h
  induction items with
  | nil => rfl
  | cons item rest ih =>
    rw [List.map_cons, List.filterMap_cons, hitems item List.mem_cons_self,
      ih fun other hother => hitems other (List.mem_cons_of_mem _ hother)]
    rfl

/-- A report whose retained items are enumerated messages, in order, and render to the prompt. -/
theorem accounts_of_sublist {messages : List (Message ι)} {items : List (IndexedMessage ι)}
    (h : items.Sublist (enumerate 0 messages)) {dropped : List Nat}
    (hdropped : ∀ i, i ∈ dropped ↔ i < messages.length ∧ i ∉ items.map Prod.fst) {prompt : π}
    (hrenders : applyTemplate (items.map Prod.snd) = .ok prompt) (tokens droppedTurns : Int) :
    PromptBudgetAnalysis.Accounts
      ⟨prompt, tokens, items.map Prod.fst, dropped, droppedTurns⟩ applyTemplate messages := by
  have hindexes : (items.map Prod.fst).Sublist (List.range' 0 messages.length) := by
    rw [← enumerate_fst]
    exact h.map Prod.fst
  refine ⟨?_, ?_, ?_, ?_⟩
  · exact List.Pairwise.sublist hindexes List.pairwise_lt_range'
  · intro i hi hmem
    exact ((hdropped i).mp hmem).2 hi
  · intro i
    have hrange : i ∈ items.map Prod.fst → i < messages.length := by
      intro hi
      simpa using hindexes.subset hi
    show i ∈ items.map Prod.fst ∨ i ∈ dropped ↔ _
    rw [hdropped]
    constructor
    · rintro (hi | hi)
      · exact hrange hi
      · exact hi.1
    · intro hi
      by_cases hretained : i ∈ items.map Prod.fst
      · exact .inl hretained
      · exact .inr ⟨hi, hretained⟩
  · show applyTemplate ((items.map Prod.fst).filterMap (messages[·]?)) = _
    rw [messagesAt_of_sublist h]
    exact hrenders

theorem returns_renderAndCount (messages : List (Message ι)) :
    Returns (renderAndCount applyTemplate countTokens messages) fun answer =>
      applyTemplate messages = .ok answer.1 := by
  unfold renderAndCount
  refine Returns.bind (Returns.ofExcept fun prompt h => h) fun prompt hprompt => ?_
  split
  · exact Returns.pure hprompt
  · exact Returns.bind Returns.trivial fun _ _ => Returns.throw _

theorem analyzePromptBudget_accounts (messages : List (Message ι)) (maxPromptLen : Int) :
    Returns (analyzePromptBudget applyTemplate countTokens messages maxPromptLen) fun analysis =>
      analysis.Accounts applyTemplate messages := by
  unfold analyzePromptBudget
  split
  · next hempty =>
    obtain rfl := List.isEmpty_iff.mp hempty
    refine Returns.bind (returns_renderAndCount _ _ _) fun answer hanswer => Returns.pure ?_
    have hnone : ([] : List (IndexedMessage ι)).Sublist (enumerate 0 []) := List.Sublist.refl _
    exact accounts_of_sublist applyTemplate hnone (by simp) hanswer _ _
  · refine Returns.bind (returns_renderAndCount _ _ _) fun answer hanswer => ?_
    dsimp only
    split
    · refine Returns.pure (accounts_of_sublist applyTemplate (List.Sublist.refl _) ?_ ?_ _ _)
      · simp [enumerate_fst]
      · rw [enumerate_snd]
        exact hanswer
    · refine Returns.bind Returns.trivial fun _ _ => ?_
      split
      · refine Returns.bind (returns_renderAndCount _ _ _) fun answer hanswer => Returns.pure ?_
        exact accounts_of_sublist applyTemplate
          ((List.sublist_append_left _ _).trans (splitIndexedTurns_sublist messages))
          (fun i => mem_droppedFrom) hanswer _ _
      · refine Returns.bind Returns.trivial fun bestK _ => ?_
        refine Returns.bind (returns_renderAndCount _ _ _) fun answer hanswer => Returns.pure ?_
        exact accounts_of_sublist applyTemplate (window_sublist messages bestK)
          (fun i => mem_droppedFrom) hanswer _ _

/-- **The budgeters agree.** The analyzer computes what the prompt builder does: the same prompt
and token count or the same error, with the same contexts released.  The indexes that it retains
and drops partition the messages, and the retained messages render to the prompt. -/
theorem analyzePromptBudget_agrees (messages : List (Message ι)) (maxPromptLen : Int) :
    PromptBudgetAnalysis.answer <$>
          analyzePromptBudget applyTemplate countTokens messages maxPromptLen =
        buildPromptWithinBudget applyTemplate countTokens messages maxPromptLen ∧
      Returns (analyzePromptBudget applyTemplate countTokens messages maxPromptLen) fun analysis =>
        analysis.Accounts applyTemplate messages :=
  ⟨analyzePromptBudget_answer applyTemplate countTokens messages maxPromptLen,
    analyzePromptBudget_accounts applyTemplate countTokens messages maxPromptLen⟩

end

end InferBridge
