/-
InferBridge/PromptWindow.lean

What the prompt builder keeps of a conversation (app/chat_format.py).

A turn begins at a user message and owns what follows it; a tool result,
which has the user role too, does not begin a turn inside one.  A template
and a counter that cannot fail leave a pure function: the builder returns
the whole conversation if it fits, and otherwise the leading system messages
with the last turns.

Main result: `trims_to_last_turns`.  If keeping more turns never takes fewer
tokens, the builder keeps as many of the last turns as fit.
-/
import InferBridge.Lib.Bisection
import InferBridge.PromptBudget

namespace InferBridge.PromptWindow

variable {ι π : Type}

/-! ### Turns -/

/-- A turn: its user message, and what is neither a user message nor begins a turn. -/
def IsTurn (turn : List (Message ι)) : Prop :=
  ∃ opening rest, turn = opening :: rest ∧ isUserMessage opening = true ∧
    ∀ message ∈ rest, isUserMessage message = true → isToolResultMessage message = true

/-- The turns partition the messages from the first user message on. -/
structure UserLed (messages orphans : List (Message ι)) (turns : List (List (Message ι))) :
    Prop where
  cover : messages = messages.takeWhile isSystemMessage ++ (orphans ++ turns.flatten)
  orphans : ∀ message ∈ orphans, isUserMessage message = false
  led : ∀ turn ∈ turns, IsTurn turn
  nonempty : turns ≠ []

theorem IsTurn.opensWithUser {turn : List (Message ι)} (h : IsTurn turn) :
    opensWithUser turn = true := by
  obtain ⟨opening, rest, rfl, hopening, -⟩ := h
  exact hopening

theorem IsTurn.isEmpty {turn : List (Message ι)} (h : IsTurn turn) : turn.isEmpty = false := by
  obtain ⟨opening, rest, rfl, -⟩ := h
  rfl

theorem isTurn_singleton {message : Message ι} (h : isUserMessage message = true) :
    IsTurn [message] :=
  ⟨message, [], rfl, h, fun _ hmem => absurd hmem List.not_mem_nil⟩

/-- A message that does not begin a turn extends one. -/
theorem IsTurn.snoc {turn : List (Message ι)} {message : Message ι} (h : IsTurn turn)
    (hmessage : isUserMessage message = true → isToolResultMessage message = true) :
    IsTurn (turn ++ [message]) := by
  obtain ⟨opening, rest, rfl, hopening, hrest⟩ := h
  refine ⟨opening, rest ++ [message], rfl, hopening, ?_⟩
  intro other hother
  rcases List.mem_append.mp hother with hmem | hmem
  · exact hrest other hmem
  · rw [List.mem_singleton.mp hmem]
    exact hmessage

/-- The loop from inside a turn on. -/
theorem splitLoop_turn (turns : List (List (Message ι))) {current : List (Message ι)}
    (rest : List (Message ι)) (hturns : ∀ turn ∈ turns, IsTurn turn) (hcurrent : IsTurn current) :
    (splitLoop turns current rest).1.flatten ++ (splitLoop turns current rest).2 =
        turns.flatten ++ current ++ rest ∧
      (∀ turn ∈ (splitLoop turns current rest).1, IsTurn turn) ∧
        IsTurn (splitLoop turns current rest).2 := by
  induction rest generalizing turns current with
  | nil => exact ⟨(List.append_nil _).symm, hturns, hcurrent⟩
  | cons message rest ih =>
    rw [splitLoop, hcurrent.isEmpty, hcurrent.opensWithUser, if_pos rfl]
    split
    · next hstarts =>
      rw [Bool.and_eq_true] at hstarts
      have hclosed : ∀ turn ∈ turns ++ [current], IsTurn turn := by
        intro turn hturn
        rcases List.mem_append.mp hturn with hmem | hmem
        · exact hturns turn hmem
        · rw [List.mem_singleton.mp hmem]
          exact hcurrent
      obtain ⟨hflatten, hall, hlast⟩ := ih _ hclosed (isTurn_singleton hstarts.1)
      refine ⟨?_, hall, hlast⟩
      rw [hflatten]
      simp
    · next hstarts =>
      have hextends : isUserMessage message = true → isToolResultMessage message = true := by
        intro huser
        simpa [huser] using hstarts
      obtain ⟨hflatten, hall, hlast⟩ := ih turns hturns (hcurrent.snoc hextends)
      rw [if_pos (show (!false) = true from rfl)]
      refine ⟨?_, hall, hlast⟩
      rw [hflatten]
      simp

/-- The loop passes over what comes before the first user message. -/
theorem splitLoop_orphans {turns : List (List (Message ι))} {orphans : List (Message ι)}
    {first : Message ι} {rest : List (Message ι)}
    (horphans : ∀ message ∈ orphans, isUserMessage message = false)
    (hfirst : isUserMessage first = true) :
    splitLoop turns [] (orphans ++ first :: rest) = splitLoop turns [first] rest := by
  induction orphans with
  | nil =>
    rw [List.nil_append, splitLoop, hfirst]
    rfl
  | cons message others ih =>
    rw [List.cons_append, splitLoop, horphans message List.mem_cons_self]
    exact ih fun other hother => horphans other (List.mem_cons_of_mem _ hother)

theorem not_system_of_user {message : Message ι} (h : isUserMessage message = true) :
    isSystemMessage message = false := by
  have hrole : message.role = "user".toList := of_decide_eq_true h
  unfold isSystemMessage
  rw [hrole]
  decide

/-- A user message splits what follows the leading system messages. -/
theorem exists_first_user {messages : List (Message ι)}
    (h : ∃ message ∈ messages, isUserMessage message = true) :
    ∃ orphans first rest, messages.dropWhile isSystemMessage = orphans ++ first :: rest ∧
      (∀ message ∈ orphans, isUserMessage message = false) ∧ isUserMessage first = true := by
  obtain ⟨message, hmem, huser⟩ := h
  have hlater : message ∈ messages.dropWhile isSystemMessage := by
    rw [← List.takeWhile_append_dropWhile (p := isSystemMessage) (l := messages)] at hmem
    rcases List.mem_append.mp hmem with hmem | hmem
    · have hsystem := List.mem_takeWhile_imp hmem
      rw [not_system_of_user huser] at hsystem
      cases hsystem
    · exact hmem
  generalize messages.dropWhile isSystemMessage = remainder at hlater ⊢
  induction remainder with
  | nil => cases hlater
  | cons first rest ih =>
    rcases hfirst : isUserMessage first with - | -
    · have hrest : message ∈ rest := by
        rcases List.mem_cons.mp hlater with rfl | hrest
        · rw [huser] at hfirst
          cases hfirst
        · exact hrest
      obtain ⟨orphans, user, others, rfl, horphans, huser⟩ := ih hrest
      refine ⟨first :: orphans, user, others, rfl, ?_, huser⟩
      intro other hother
      rcases List.mem_cons.mp hother with rfl | hother
      · exact hfirst
      · exact horphans other hother
    · exact ⟨[], first, rest, rfl, fun _ hmem => absurd hmem List.not_mem_nil, hfirst⟩

/-- **Segmentation.** The turns of a conversation with a user message. -/
theorem split_userLed {messages : List (Message ι)}
    (h : ∃ message ∈ messages, isUserMessage message = true) :
    (splitLeadingSystemAndTurns messages).1 = messages.takeWhile isSystemMessage ∧
      ∃ orphans, UserLed messages orphans (splitLeadingSystemAndTurns messages).2 := by
  obtain ⟨orphans, first, rest, hremainder, horphans, hfirst⟩ := exists_first_user h
  obtain ⟨hflatten, hturns, hcurrent⟩ := splitLoop_turn [] rest
    (fun turn hturn => absurd hturn List.not_mem_nil) (isTurn_singleton hfirst)
  have hsplit : splitLeadingSystemAndTurns messages = (messages.takeWhile isSystemMessage,
      (splitLoop [] [first] rest).1 ++ [(splitLoop [] [first] rest).2]) := by
    unfold splitLeadingSystemAndTurns
    rw [hremainder]
    dsimp only
    rw [splitLoop_orphans horphans hfirst, hcurrent.opensWithUser, if_pos rfl, if_neg (by simp)]
  rw [hsplit]
  refine ⟨rfl, orphans, ?_⟩
  constructor
  · rw [List.flatten_append, List.flatten_singleton, hflatten]
    show messages = _ ++ (orphans ++ ([first] ++ rest))
    rw [List.singleton_append, ← hremainder, List.takeWhile_append_dropWhile]
  · exact horphans
  · intro turn hturn
    rcases List.mem_append.mp hturn with hmem | hmem
    · exact hturns turn hmem
    · rw [List.mem_singleton.mp hmem]
      exact hcurrent
  · simp

/-! ### Trimming -/

/-- The turns of a conversation. -/
def turnsOf (messages : List (Message ι)) : List (List (Message ι)) :=
  (splitLeadingSystemAndTurns messages).2

/-- The leading system messages and the last `k` turns. -/
def window (messages : List (Message ι)) (k : Nat) : List (Message ι) :=
  messages.takeWhile isSystemMessage ++
    ((turnsOf messages).drop ((turnsOf messages).length - k)).flatten

/-- A function that cannot fail. -/
def total (ε : Type) {α β : Type} (f : α → β) (a : α) : Except ε β := .ok (f a)

section
variable (template : List (Message ι) → π) (count : π → Int)

/-- The tokens of the last `k` turns. -/
def tokensOf (messages : List (Message ι)) (k : Nat) : Int := count (template (window messages k))

/-- Keeping more turns never takes fewer tokens. -/
def CountsMore (messages : List (Message ι)) : Prop :=
  ∀ j k, 1 ≤ j → j ≤ k → k ≤ (turnsOf messages).length →
    tokensOf template count messages j ≤ tokensOf template count messages k

/-- What the builder should keep: everything if it fits, and otherwise as many of the last turns as
do, at least one. -/
def KeepsMost (messages : List (Message ι)) (limit : Int) (kept : List (Message ι)) : Prop :=
  if count (template messages) ≤ limit then kept = messages
  else ∃ k, 1 ≤ k ∧ k ≤ (turnsOf messages).length ∧ kept = window messages k ∧
    (k = 1 ∨ tokensOf template count messages k ≤ limit) ∧
      ∀ j, k < j → j ≤ (turnsOf messages).length → limit < tokensOf template count messages j

/-- No turn is cut: everything is kept, or the last turns whole. -/
def WholeTurns (messages kept : List (Message ι)) : Prop :=
  kept = messages ∨ ∃ dropped retained, turnsOf messages = dropped ++ retained ∧
    kept = messages.takeWhile isSystemMessage ++ retained.flatten

variable {template count}

theorem discard_run {α : Type} (prompt : π) (f : Unit → Rendering ε π α) (released : List π) :
    (discardPromptContext prompt >>= f).run.run released =
      (f ()).run.run (released ++ [prompt]) := rfl

/-- The loop renders and counts, and ends with what bisection finds. -/
theorem windowLoop_run (ε : Type) (template : List (Message ι) → π) (count : π → Int)
    (system : List (Message ι)) (turns : List (List (Message ι)))
    (limit low high best : Int) (released : List π) :
    ∃ released', (windowLoop (total ε template) (total ε count) system
        turns limit low high best).run.run released =
      (.ok (bisect (fun k => count (template (system ++ (lastItems turns k).flatten)) ≤ limit)
        low high best), released') := by
  induction low, high, best using windowLoop.induct generalizing released with
  | case1 low high best hle mid ihFits ihOver =>
    rw [windowLoop, bisect, if_pos hle, if_pos hle]
    show ∃ released', (do
      discardPromptContext (template (system ++ (lastItems turns mid).flatten))
      if count (template (system ++ (lastItems turns mid).flatten)) ≤ limit then _ else _ :
        Rendering ε π Int).run.run released = _
    rw [discard_run]
    by_cases hfits : count (template (system ++ (lastItems turns mid).flatten)) ≤ limit
    · rw [if_pos hfits, if_pos (decide_eq_true hfits)]
      exact ihFits _
    · rw [if_neg hfits, if_neg (by simpa using hfits)]
      exact ihOver _
  | case2 low high best hgt =>
    rw [windowLoop, bisect, if_neg hgt, if_neg hgt]
    exact ⟨released, rfl⟩

variable (template count) in
/-- How many turns the builder keeps of a conversation that does not fit. -/
def turnsKept (messages : List (Message ι)) (limit : Int) : Int :=
  bisect (fun k => count (template ((splitLeadingSystemAndTurns messages).1 ++
    (lastItems (turnsOf messages) k).flatten)) ≤ limit) 1 (turnsOf messages).length 1

variable (template count) in
/-- What the builder keeps of a conversation that does not fit. -/
def trimmed (messages : List (Message ι)) (limit : Int) : List (Message ι) :=
  (splitLeadingSystemAndTurns messages).1 ++
    (lastItems (turnsOf messages) (turnsKept template count messages limit)).flatten

theorem buildPrompt_trims (ε : Type) {messages : List (Message ι)} {limit : Int}
    (hmessages : messages ≠ [])
    (hturns : turnsOf messages ≠ [])
    (hover : ¬ count (template messages) ≤ limit) (released : List π) :
    ∃ released', (buildPromptWithinBudget (total ε template) (total ε count) messages
        limit).run.run released =
      (.ok (template (trimmed template count messages limit),
        count (template (trimmed template count messages limit))), released') := by
  unfold trimmed turnsKept turnsOf at *
  unfold buildPromptWithinBudget
  rw [if_neg (by simpa using hmessages)]
  show ∃ released', (if count (template messages) ≤ limit then _ else _ :
    Rendering ε π (π × Int)).run.run released = _
  rw [if_neg hover, discard_run]
  generalize splitLeadingSystemAndTurns messages = split at hturns ⊢
  obtain ⟨system, turns⟩ := split
  dsimp only at hturns ⊢
  rw [if_neg (by simpa using hturns)]
  obtain ⟨released', hrun⟩ := windowLoop_run ε template count system turns limit 1 turns.length 1
    (released ++ [template messages])
  rw [run_bind_of_run hrun]
  exact ⟨released', rfl⟩

theorem buildPrompt_whole (ε : Type) {messages : List (Message ι)} {limit : Int}
    (hmessages : messages ≠ [])
    (hfits : count (template messages) ≤ limit) (released : List π) :
    (buildPromptWithinBudget (total ε template) (total ε count) messages limit).run.run released =
      (.ok (template messages, count (template messages)), released) := by
  unfold buildPromptWithinBudget
  rw [if_neg (by simpa using hmessages)]
  show (if count (template messages) ≤ limit then _ else _ :
    Rendering ε π (π × Int)).run.run released = _
  rw [if_pos hfits]
  rfl

/-- The last `k` turns, as the builder writes them. -/
theorem window_eq {messages : List (Message ι)} {k : Int}
    (h : ∃ message ∈ messages, isUserMessage message = true) (hk : 1 ≤ k) :
    (splitLeadingSystemAndTurns messages).1 ++ (lastItems (turnsOf messages) k).flatten =
      window messages k.toNat := by
  rw [(split_userLed h).1]
  unfold window lastItems
  rw [if_pos (by omega)]

/-- **Trimming.** Where keeping more turns never takes fewer tokens, the builder returns the
rendering of the whole conversation if that fits; and otherwise of the leading system messages with
as many of the last turns as fit, at least one.  The turns partition the messages from the first
user message on, so what is kept begins, after the system messages, with a user message, and no
turn is cut. -/
theorem trims_to_last_turns (ε : Type) {messages : List (Message ι)} (limit : Int)
    (released : List π)
    (huser : ∃ message ∈ messages, isUserMessage message = true)
    (hmore : CountsMore template count messages) :
    (∃ orphans, UserLed messages orphans (turnsOf messages)) ∧
      ∃ kept released', (buildPromptWithinBudget (total ε template) (total ε count) messages
          limit).run.run released =
            (.ok (template kept, count (template kept)), released') ∧
        KeepsMost template count messages limit kept ∧ WholeTurns messages kept ∧
          (tokensOf template count messages 1 ≤ limit → count (template kept) ≤ limit) := by
  obtain ⟨orphans, hled⟩ := (split_userLed huser).2
  refine ⟨⟨orphans, hled⟩, ?_⟩
  have hmessages : messages ≠ [] := by
    rintro rfl
    obtain ⟨message, hmem, -⟩ := huser
    cases hmem
  by_cases hfits : count (template messages) ≤ limit
  · refine ⟨messages, released, buildPrompt_whole ε hmessages hfits released, ?_, Or.inl rfl,
      fun _ => hfits⟩
    unfold KeepsMost
    rw [if_pos hfits]
  · obtain ⟨released', hrun⟩ := buildPrompt_trims ε hmessages hled.nonempty hfits released
    have hpos : 1 ≤ (turnsOf messages).length := List.length_pos_of_ne_nil hled.nonempty
    -- what the loop tests for `k` is the window of the last `k` turns
    have htokens : ∀ k : Int, 1 ≤ k → count (template ((splitLeadingSystemAndTurns messages).1 ++
        (lastItems (turnsOf messages) k).flatten)) = tokensOf template count messages k.toNat := by
      intro k hk
      rw [window_eq huser hk]
      rfl
    have hlast : IsLast (fun k => decide (count (template
        ((splitLeadingSystemAndTurns messages).1 ++ (lastItems (turnsOf messages) k).flatten)) ≤
          limit)) (turnsOf messages).length (turnsKept template count messages limit) := by
      apply bisect_last _ (by omega)
      intro j k hj hjk hk hfit
      have hfit := of_decide_eq_true hfit
      apply decide_eq_true
      rw [htokens k (by omega)] at hfit
      rw [htokens j hj]
      exact (hmore j.toNat k.toNat (by omega) (by omega) (by omega)).trans hfit
    unfold trimmed at hrun
    generalize turnsKept template count messages limit = best at hlast hrun
    have hkept : KeepsMost template count messages limit (window messages best.toNat) := by
      unfold KeepsMost
      rw [if_neg hfits]
      refine ⟨best.toNat, by have := hlast.pos; omega, by have := hlast.le; omega, rfl, ?_, ?_⟩
      · rcases hlast.found with hone | hfit
        · exact Or.inl (by omega)
        · right
          have hfit := of_decide_eq_true hfit
          rw [htokens best hlast.pos] at hfit
          exact hfit
      · intro j hj hjn
        have hover := hlast.last j (by omega) (by omega)
        have hover := of_decide_eq_false hover
        rw [htokens j (by have := hlast.pos; omega), Int.toNat_natCast] at hover
        exact lt_of_not_ge hover
    refine ⟨window messages best.toNat, released', ?_, hkept, ?_, ?_⟩
    · rw [hrun, window_eq huser hlast.pos]
    · exact Or.inr ⟨_, _, (List.take_append_drop _ _).symm, rfl⟩
    · intro hone
      show tokensOf template count messages best.toNat ≤ limit
      rcases hlast.found with rfl | hfit
      · exact hone
      · have hfit := of_decide_eq_true hfit
        rw [htokens best hlast.pos] at hfit
        exact hfit

/-- A counter of the messages. -/
theorem countsMore_length (messages : List (Message ι)) :
    CountsMore (fun kept => kept) (fun kept => (kept.length : Int)) messages := by
  intro j k _ hjk _
  show ((window messages j).length : Int) ≤ ((window messages k).length : Int)
  have hdrop : ((turnsOf messages).drop ((turnsOf messages).length - j)).Sublist
      ((turnsOf messages).drop ((turnsOf messages).length - k)) :=
    List.drop_sublist_drop_left _ (by omega)
  have hwindow : (window messages j).Sublist (window messages k) :=
    (List.Sublist.refl _).append hdrop.flatten
  exact_mod_cast hwindow.length_le

/-- A question, its answer and another question. -/
def shortChat : List (Message Unit) :=
  [⟨"user".toList, .text "a".toList⟩, ⟨"assistant".toList, .text "b".toList⟩,
    ⟨"user".toList, .text "c".toList⟩]

theorem trims_to_last_turns_short :
    (∃ orphans, UserLed shortChat orphans (turnsOf shortChat)) ∧
      ∃ kept released', (buildPromptWithinBudget (total Unit fun kept => kept)
          (total Unit fun kept => (kept.length : Int)) shortChat 1).run.run [] =
            (.ok (kept, (kept.length : Int)), released') ∧
        KeepsMost (fun kept => kept) (fun kept => (kept.length : Int)) shortChat 1 kept ∧
          WholeTurns shortChat kept ∧
            (tokensOf (fun kept => kept) (fun kept => (kept.length : Int)) shortChat 1 ≤ 1 →
              (kept.length : Int) ≤ 1) := by
  have huser : ∃ message ∈ shortChat, isUserMessage message = true :=
    ⟨⟨"user".toList, .text "a".toList⟩, List.mem_cons_self, rfl⟩
  exact trims_to_last_turns Unit 1 [] huser (countsMore_length shortChat)

end

end InferBridge.PromptWindow
