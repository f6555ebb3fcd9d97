/-
InferBridge/ToolHistory.lean

The calls of an assistant message, written into the prompt by
`normalize_messages` (app/chat_format.py) and read back by `parse_tool_calls`
(app/tools.py).

Design.  The written text is one JSON array, so the first candidate of the
scan is the whole of it, and every other candidate lies inside and is stepped
over.  Its calls pass the filter of names, and the filter of duplicates lets
them all through: two different calls have different keys, because no JSON
object ends in another one behind a colon (`ObjectText.not_suffix`).

But the scan tries every brace of the text before it visits the first
candidate, the ones in the argument strings as well, and a read that fails
with anything but a decode error escapes.  Main result:
`toolHistory_roundTrip_iff`.
-/
import InferBridge.ChatFormat
import InferBridge.NestedCalls

namespace InferBridge.ToolHistory

open Text

/-! ### Texts of JSON objects -/

/-- Where a reader of JSON stands: outside of strings, in one, or behind a backslash in one. -/
inductive Mode where
  | outside
  | inside
  | escaped

/-- One symbol, with the number of open braces. -/
def scanStep : Mode × Nat → Char → Option (Mode × Nat)
  | (.escaped, depth), _ => some (.inside, depth)
  | (.inside, depth), c =>
    if c = '\\' then some (.escaped, depth)
    else if c = '"' then some (.outside, depth)
    else some (.inside, depth)
  | (.outside, depth), c =>
    if c = '\\' then none
    else if c = '"' then some (.inside, depth)
    else if c = '{' then some (.outside, depth + 1)
    else if c = '}' then some (.outside, depth - 1)
    else some (.outside, depth)

/-- The open braces are closed at the end of the text and not before. -/
def Closes : Mode × Nat → Str → Prop
  | (.outside, depth), [] => depth = 0
  | (_, _), [] => False
  | (mode, depth), c :: rest => 0 < depth ∧ ∃ s, scanStep (mode, depth) c = some s ∧ Closes s rest

/-- The text begins with a brace that is closed at its end and not before. -/
def ObjectText (text : Str) : Prop := ∃ rest, text = '{' :: rest ∧ Closes (.outside, 1) rest

theorem closes_cons {mode : Mode} {depth : Nat} {c : Char} {rest : Str} :
    Closes (mode, depth) (c :: rest) ↔
      0 < depth ∧ ∃ s, scanStep (mode, depth) c = some s ∧ Closes s rest := by
  cases mode <;> exact Iff.rfl

theorem Closes.of_append {s : Mode × Nat} {u v : Str} (h : Closes s (u ++ v)) :
    ∃ s', Closes s' v := by
  induction u generalizing s with
  | nil => exact ⟨s, h⟩
  | cons c u ih =>
    obtain ⟨mode, depth⟩ := s
    obtain ⟨-, s', -, hrest⟩ := closes_cons.mp h
    exact ih hrest

/-- The number of open braces does not matter to a step. -/
theorem scanStep_shift {mode : Mode} {d : Nat} {c : Char} {s : Mode × Nat} (hd : 0 < d)
    (h : scanStep (mode, d) c = some s) (k : Nat) :
    scanStep (mode, d + k) c = some (s.1, s.2 + k) := by
  cases mode with
  | escaped =>
    cases h
    rfl
  | inside =>
    rw [scanStep] at h ⊢
    split_ifs at h ⊢ <;> cases h <;> rfl
  | outside =>
    rw [scanStep] at h ⊢
    split_ifs at h ⊢
    · cases h
      rfl
    · cases h
      rw [Nat.add_right_comm]
    · cases h
      rw [Nat.sub_add_comm hd]
    · cases h
      rfl

/-- No text closes two different numbers of braces. -/
theorem Closes.depth_unique {mode : Mode} {d k : Nat} {text : Str} (h : Closes (mode, d) text)
    (h' : Closes (mode, d + k) text) : k = 0 := by
  induction text generalizing mode d with
  | nil =>
    cases mode with
    | outside =>
      have hd : d = 0 := h
      have hk : d + k = 0 := h'
      omega
    | inside => cases h
    | escaped => cases h
  | cons c text ih =>
    rw [closes_cons] at h h'
    obtain ⟨hpos, s, hs, hrest⟩ := h
    obtain ⟨-, s', hs', hrest'⟩ := h'
    rw [scanStep_shift hpos hs k] at hs'
    cases hs'
    exact ih hrest hrest'

/-- No text is closed both from outside of a string and from inside of one. -/
theorem Closes.not_both {text : Str} {d e : Nat} (h : Closes (.outside, d) text)
    (h' : Closes (.inside, e) text) : False := by
  induction text generalizing d e with
  | nil => exact h'
  | cons c text ih =>
    rw [closes_cons] at h h'
    obtain ⟨-, s, hs, hrest⟩ := h
    obtain ⟨-, s', hs', hrest'⟩ := h'
    rw [scanStep] at hs
    rw [scanStep] at hs'
    -- a quote turns both around, and a backslash stands in strings only
    by_cases hback : c = '\\'
    · rw [if_pos hback] at hs
      cases hs
    rw [if_neg hback] at hs hs'
    by_cases hquote : c = '"'
    · rw [if_pos hquote] at hs hs'
      cases hs
      cases hs'
      exact ih hrest' hrest
    rw [if_neg hquote] at hs hs'
    cases hs'
    split_ifs at hs <;> cases hs <;> exact ih hrest hrest'

/-- **No object text is a proper end of another one.** -/
theorem ObjectText.not_suffix {u b : Str} (hu : u ≠ []) (h : ObjectText (u ++ b))
    (hb : ObjectText b) : False := by
  obtain ⟨rest, rfl, hrest⟩ := hb
  obtain ⟨all, hall, hclose⟩ := h
  obtain ⟨first, u, rfl⟩ := List.exists_cons_of_ne_nil hu
  obtain rfl : u ++ '{' :: rest = all := (List.cons.inj hall).2
  obtain ⟨⟨mode, depth⟩, hfrom⟩ := hclose.of_append
  rw [closes_cons] at hfrom
  obtain ⟨hpos, s, hs, hinner⟩ := hfrom
  cases mode with
  | outside =>
    cases hs
    have hdepth : depth = 0 :=
      Closes.depth_unique hrest (by rwa [Nat.add_comm] at hinner)
    omega
  | inside =>
    cases hs
    exact hrest.not_both hinner
  | escaped =>
    cases hs
    exact hrest.not_both hinner

/-! ### Keys -/

/-- The two parts of a key can be told apart. -/
theorem key_injective {n m a b : Str} (ha : ObjectText a) (hb : ObjectText b)
    (h : n ++ ':' :: a = m ++ ':' :: b) : n = m ∧ a = b := by
  -- otherwise one of the argument texts ends in a colon and the other one
  have hpart {s a b : Str} (ha : ObjectText a) (hb : ObjectText b)
      (h : ':' :: a = s ++ ':' :: b) : s = [] ∧ a = b := by
    cases s with
    | nil => exact ⟨rfl, (List.cons.inj h).2⟩
    | cons c s =>
      have hrest : a = s ++ ':' :: b := (List.cons.inj h).2
      rw [List.append_cons] at hrest
      rw [hrest] at ha
      exact (ha.not_suffix (by simp) hb).elim
  rcases List.append_eq_append_iff.mp h with ⟨s, rfl, hs⟩ | ⟨s, rfl, hs⟩
  · obtain ⟨rfl, hab⟩ := hpart ha hb hs
    exact ⟨(List.append_nil n).symm, hab⟩
  · obtain ⟨rfl, hab⟩ := hpart hb ha hs
    exact ⟨List.append_nil m, hab.symm⟩

/-! ### Writing and reading a history -/

/-- A call as it stands in a request. -/
def historyCall (call : ToolCall) : List (Str × Json) :=
  [("id".toList, .str call.id), ("type".toList, .str "function".toList),
    ("function".toList, .obj [("name".toList, .str call.function.name),
      ("arguments".toList, .str call.function.arguments)])]

/-- The assistant message with these calls. -/
def historyMessage (calls : List ToolCall) : RequestMessage where
  role := "assistant".toList
  toolCalls := some (calls.map historyCall)

def callJson (call : FunctionCall) : Json :=
  .obj [(keyName, .str call.name), (keyArguments, .str call.arguments)]

/-- What is written for the calls. -/
def historyValue (calls : List ToolCall) : Json :=
  .arr (calls.map fun call => callJson call.function)

/-- Some calls of the offered tools, no two of them the same, with stripped JSON objects as their
arguments. -/
structure History (codec : JsonCodec) (tools : List ToolDefinition) (calls : List ToolCall) :
    Prop where
  nonempty : calls ≠ []
  distinct : (calls.map ToolCall.function).Nodup
  offered : ∀ call ∈ calls, call.function.name ∈ tools.map ToolDefinition.name
  stripped : ∀ call ∈ calls, strip isSpace call.function.arguments = call.function.arguments
  objects : ∀ call ∈ calls, ∃ fields, codec.loads call.function.arguments = .ok (.obj fields)

/-- What is used of JSON: reading undoes the writing of the calls, an array begins with its
bracket, and the text of an object has its braces where the grammar has them. -/
structure ReadsBack (codec : JsonCodec) (calls : List ToolCall) : Prop where
  undoes : codec.rawDecode (codec.dumps (historyValue calls)) 0 =
    .ok (historyValue calls, (codec.dumps (historyValue calls)).length)
  array : ∃ rest, codec.dumps (historyValue calls) = '[' :: rest
  grammar : ∀ text fields, codec.loads text = .ok (.obj fields) → strip isSpace text = text →
    ObjectText text

section
variable {ι ε : Type} (codec : JsonCodec) (images : ImageCodec ι) (hex : Nat → Str)

/-- The text that is written for the calls reads back as the calls and nothing else. -/
def RoundTrip (ε : Type) (tools : List ToolDefinition) (calls : List ToolCall) : Prop :=
  ∃ text parsed,
    (normalizeMessages codec images [historyMessage calls] [] :
      Except (Failure ε) (List (Message ι))) = .ok [⟨"assistant".toList, .text text⟩] ∧
    parseToolCalls codec hex text (some tools) = some ([], parsed) ∧
    parsed.map ToolCall.function = calls.map ToolCall.function

/-- A read of the scan fails with something else than a decode error. -/
def ReadEscapes (text : Str) : Prop :=
  (∃ fence ∈ fences 0 0 text, codec.loads fence.2 = .error .uncaught) ∨
    ∃ i, (text[i]? = some '{' ∨ text[i]? = some '[') ∧ codec.rawDecode text i = .error .uncaught

end

/-! ### When a read escapes -/

section
variable {codec : JsonCodec} {text : Str}

theorem decoded_eq_none {β : Type} {x : Except DecodeError β} :
    decoded x = none ↔ x = .error .uncaught := by
  rcases x with (_ | _) | v <;> simp [decoded]

theorem both_eq_none {α β γ : Type} {x : Option α} {y : Option β} {f : α → β → γ} :
    (x.bind fun a => y.bind fun b => some (f a b)) = none ↔ x = none ∨ y = none := by
  cases x <;> cases y <;> simp

theorem fencedCandidates_eq_none {marks : List (Span × Str)} :
    fencedCandidates codec marks = none ↔ ∃ m ∈ marks, codec.loads m.2 = .error .uncaught := by
  induction marks with
  | nil => simp [fencedCandidates]
  | cons m rest ih =>
    rw [List.exists_mem_cons_iff, ← ih, ← decoded_eq_none]
    exact both_eq_none

theorem bareCandidates_eq_none {rest : Str} {idx : Nat} :
    bareCandidates codec text idx rest = none ↔
      ∃ i, (rest[i]? = some '{' ∨ rest[i]? = some '[') ∧
        codec.rawDecode text (idx + i) = .error .uncaught := by
  induction rest generalizing idx with
  | nil => simp [bareCandidates]
  | cons c rest ih =>
    -- the read here, and those behind it
    have hsplit : (∃ i, ((c :: rest)[i]? = some '{' ∨ (c :: rest)[i]? = some '[') ∧
        codec.rawDecode text (idx + i) = .error .uncaught) ↔
        ((c = '{' ∨ c = '[') ∧ codec.rawDecode text idx = .error .uncaught) ∨
          ∃ i, (rest[i]? = some '{' ∨ rest[i]? = some '[') ∧
            codec.rawDecode text (idx + 1 + i) = .error .uncaught := by
      constructor
      · rintro ⟨i, hi, hread⟩
        rcases i with - | i
        · exact .inl ⟨by simpa using hi, hread⟩
        · exact .inr ⟨i, by simpa using hi, by rwa [show idx + 1 + i = idx + (i + 1) by omega]⟩
      · rintro (⟨hc, hread⟩ | ⟨i, hi, hread⟩)
        · exact ⟨0, by simpa using hc, hread⟩
        · exact ⟨i + 1, by simpa using hi, by rwa [show idx + (i + 1) = idx + 1 + i by omega]⟩
    rw [hsplit, ← ih, bareCandidates]
    by_cases hc : c = '{' ∨ c = '['
    · rw [if_pos hc, and_iff_right hc, ← decoded_eq_none]
      exact both_eq_none
    · rw [if_neg hc]
      simp [hc]

/-- **The scan fails exactly if a read escapes.** -/
theorem jsonCandidates_eq_none : jsonCandidates codec text = none ↔ ReadEscapes codec text := by
  have hbare := @bareCandidates_eq_none codec text text 0
  simp only [Nat.zero_add] at hbare
  rw [ReadEscapes, ← fencedCandidates_eq_none, ← hbare]
  exact both_eq_none

/-! ### The candidates of a written history -/

theorem length_of_fenceMatch {t raw : Str} {len : Nat} (h : fenceMatch t = some (raw, len)) :
    len ≤ t.length := by
  rw [fenceMatch] at h
  split at h
  · obtain ⟨k, hk, heq⟩ := Option.map_eq_some_iff.mp h
    have hend := (Occurrence.find_eq_some hk).1.end_le
    have hmark : fenceMark.length = 3 := rfl
    generalize hinner : ((if isJsonTag ((t.drop 3).take 4) then (t.drop 3).drop 4
      else t.drop 3).dropWhile isSpace) = inner at hend heq
    have hlength : inner.length ≤ t.length := by
      rw [← hinner]
      refine (List.dropWhile_sublist _).length_le.trans ?_
      split
      · exact ((List.drop_sublist _ _).trans (List.drop_sublist _ _)).length_le
      · exact (List.drop_sublist _ _).length_le
    have hlen : t.length - inner.length + k + 3 = len := congrArg Prod.snd heq
    omega
  · cases h

theorem fences_stop (t : Str) (skip pos : Nat) :
    ∀ m ∈ fences skip pos t, m.1.2 ≤ pos + t.length := by
  induction t generalizing skip pos with
  | nil => simp [fences]
  | cons c rest ih =>
    have hlater (skip : Nat) (m : Span × Str) (hm : m ∈ fences skip (pos + 1) rest) :
        m.1.2 ≤ pos + (c :: rest).length := by
      have hle := ih skip (pos + 1) m hm
      rw [List.length_cons]
      omega
    intro m hm
    cases skip with
    | succ skip => exact hlater skip m (by simpa [fences] using hm)
    | zero =>
      rcases e : fenceMatch (c :: rest) with - | ⟨raw, len⟩
      · exact hlater 0 m (by simpa [fences, e] using hm)
      · simp only [fences, e, List.mem_cons] at hm
        rcases hm with rfl | hm
        · exact Nat.add_le_add_left (length_of_fenceMatch e) pos
        · exact hlater _ m hm

/-- A text that is one array: its candidates are the array, and what lies in it. -/
theorem candidates_of_array {value : Json} {rest : Str} {candidates : List Candidate}
    (htext : text = '[' :: rest) (hread : codec.rawDecode text 0 = .ok (value, text.length))
    (h : jsonCandidates codec text = some candidates) :
    ∃ inner, candidates = ⟨(0, text.length), value⟩ :: inner ∧
      ∀ c ∈ inner, spanIsContained c.span [(0, text.length)] = true := by
  simp only [jsonCandidates, Option.bind_eq_bind, Option.bind_eq_some_iff, Option.some.injEq] at h
  obtain ⟨fenced, hfenced, bare, hbare, rfl⟩ := h
  have hmem : ∀ c, c ∈ (fenced ++ bare).insertionSort candidateBefore ↔ c ∈ fenced ∨ c ∈ bare :=
    fun c => (List.mem_insertionSort candidateBefore).trans List.mem_append
  have hsorted : ((fenced ++ bare).insertionSort candidateBefore).Pairwise candidateBefore :=
    List.pairwise_insertionSort candidateBefore _
  have hwhole : (⟨(0, text.length), value⟩ : Candidate) ∈ bare :=
    (mem_bareCandidates hbare).mpr ⟨0, rfl, .inr (by rw [htext]; rfl), hread⟩
  have hfirst : ∀ c, c ∈ fenced ∨ c ∈ bare → c.span.1 = 0 →
      c = ⟨(0, text.length), value⟩ := by
    rintro ⟨⟨start, stop⟩, v⟩ hc hstart
    obtain rfl : start = 0 := hstart
    rcases hc with hc | hc
    · -- a fence does not start with a bracket
      obtain ⟨m, hm, hspan⟩ := fencedCandidates_span _ hfenced _ hc
      obtain ⟨i, hi, hmark⟩ := fences_start text 0 0 m hm
      obtain rfl : i = 0 := by
        rw [← hspan] at hi
        exact (Nat.zero_add i).symm.trans hi.symm
      rw [htext] at hmark
      cases hmark
    · obtain ⟨-, -, -, hv⟩ := (mem_bareCandidates hbare).mp hc
      cases hread.symm.trans hv
      rfl
  have hinside : ∀ c, c ∈ fenced ∨ c ∈ bare → c.span.2 ≤ text.length := by
    rintro c (hc | hc)
    · obtain ⟨m, hm, hspan⟩ := fencedCandidates_span _ hfenced c hc
      rw [hspan]
      exact (fences_stop text 0 0 m hm).trans_eq (Nat.zero_add _)
    · obtain ⟨-, -, -, hv⟩ := (mem_bareCandidates hbare).mp hc
      exact (codec.rawDecode_span hv).2
  generalize hcandidates : (fenced ++ bare).insertionSort candidateBefore = candidates
    at hmem hsorted
  cases candidates with
  | nil => cases (hmem _).mpr (.inr hwhole)
  | cons head inner =>
    have hhead : head.span.1 = 0 := by
      rcases List.mem_cons.mp ((hmem _).mpr (.inr hwhole)) with heq | hlater
      · rw [← heq]
      · rcases (List.pairwise_cons.mp hsorted).1 _ hlater with hbefore | ⟨hstart, -⟩
        · exact absurd hbefore (Nat.not_lt_zero _)
        · exact hstart
    refine ⟨inner, ?_, fun c hc => ?_⟩
    · rw [hfirst head ((hmem head).mp List.mem_cons_self) hhead]
    · refine spanIsContained_iff.mpr ⟨_, List.mem_singleton.mpr rfl, Nat.zero_le _, ?_⟩
      exact hinside c ((hmem c).mp (List.mem_cons_of_mem _ hc))

end

/-! ### The calls of a history -/

section
variable {codec : JsonCodec} {tools : List ToolDefinition} {calls : List ToolCall}

theorem History.objectText (h : History codec tools calls) (hjson : ReadsBack codec calls) :
    ∀ call ∈ calls, ObjectText call.function.arguments := by
  intro call hcall
  obtain ⟨fields, hfields⟩ := h.objects call hcall
  exact hjson.grammar _ fields hfields (h.stripped call hcall)

/-- What the reader makes of a name and a text of arguments. -/
def callItem (call : ToolCall) : Str × Str := (call.function.name, call.function.arguments)

theorem callOfFields_callJson {call : ToolCall}
    (hstripped : strip isSpace call.function.arguments = call.function.arguments)
    (hobject : ObjectText call.function.arguments)
    (hloads : ∃ fields, codec.loads call.function.arguments = .ok (.obj fields)) :
    toolItemsFromJson codec (callJson call.function) = some [callItem call] := by
  obtain ⟨fields, hfields⟩ := hloads
  obtain ⟨rest, hrest, -⟩ := hobject
  have harguments : argumentsToJsonString codec (.str call.function.arguments) =
      some call.function.arguments := by
    rw [argumentsToJsonString, hstripped]
    show (if call.function.arguments = [] then _ else _) = _
    rw [if_neg (by rw [hrest]; exact List.cons_ne_nil _ _), hfields]
  rw [callJson, toolItemsFromJson]
  show (do
    let arguments ← argumentsToJsonString codec (.str call.function.arguments)
    some [(call.function.name, arguments)]) = _
  rw [harguments]
  rfl

/-- **The reader finds the calls in what was written.** -/
theorem toolItems_history (h : History codec tools calls) (hjson : ReadsBack codec calls) :
    toolItemsFromJson codec (historyValue calls) = some (calls.map callItem) := by
  have hobjects := h.objectText hjson
  have hstripped := h.stripped
  have hloads := h.objects
  clear h hjson
  show toolItemsFromList codec (calls.map fun call => callJson call.function) = _
  induction calls with
  | nil => rfl
  | cons call calls ih =>
    rw [List.map_cons, toolItemsFromList,
      callOfFields_callJson (hstripped call List.mem_cons_self)
        (hobjects call List.mem_cons_self) (hloads call List.mem_cons_self),
      ih (fun c hc => hobjects c (List.mem_cons_of_mem _ hc))
        (fun c hc => hstripped c (List.mem_cons_of_mem _ hc))
        (fun c hc => hloads c (List.mem_cons_of_mem _ hc))]
    rfl

theorem function_ext {a b : FunctionCall} (hname : a.name = b.name)
    (harguments : a.arguments = b.arguments) : a = b := by
  cases a
  cases b
  cases hname
  cases harguments
  rfl

/-- Different calls have different keys. -/
theorem keys_nodup (h : History codec tools calls) (hjson : ReadsBack codec calls) :
    ((calls.map callItem).map callKey).Nodup := by
  rw [List.map_map]
  refine (List.nodup_map_iff_inj_on ?_).mpr fun a ha b hb hkey => ?_
  · exact h.distinct.of_map _
  · obtain ⟨hname, harguments⟩ :=
      key_injective (h.objectText hjson a ha) (h.objectText hjson b hb) hkey
    have hfunction : a.function = b.function :=
      function_ext hname harguments
    exact List.inj_on_of_nodup_map h.distinct ha hb hfunction

/-- Items with offered names and new keys are all added. -/
theorem addCalls_all {names : List Str} (hex : Nat → Str) {items : List (Str × Str)}
    (hnames : ∀ item ∈ items, item.1 ∈ names) (st : ParseState) (added : Bool)
    (hfresh : ∀ item ∈ items, callKey item ∉ st.seen) (hnodup : (items.map callKey).Nodup) :
    (addCalls names hex st added items).1.toolCalls.map ToolCall.function =
        st.toolCalls.map ToolCall.function ++ items.map (fun item => ⟨item.1, item.2⟩) ∧
      (addCalls names hex st added items).2 = (added || !items.isEmpty) := by
  induction items generalizing st added with
  | nil => simp [addCalls]
  | cons item items ih =>
    obtain ⟨name, arguments⟩ := item
    have hnew : addCall names hex st (name, arguments) =
        ({ st with
            toolCalls := st.toolCalls ++
              [⟨['c', 'a', 'l', 'l', '-'] ++ (hex st.toolCalls.length).take 12, name, arguments⟩]
            seen := callKey (name, arguments) :: st.seen }, true) := by
      have hname : NameOffered names name := .inr (hnames _ List.mem_cons_self)
      have hseen : name ++ ':' :: arguments ∉ st.seen := hfresh _ List.mem_cons_self
      simp only [addCall, hname, not_true_eq_false, if_false, hseen]
      rfl
    rw [List.map_cons, List.nodup_cons] at hnodup
    rw [addCalls, hnew]
    obtain ⟨hcalls, hadded⟩ := ih (fun i hi => hnames i (List.mem_cons_of_mem _ hi))
      { st with
        toolCalls := st.toolCalls ++
          [⟨['c', 'a', 'l', 'l', '-'] ++ (hex st.toolCalls.length).take 12, name, arguments⟩]
        seen := callKey (name, arguments) :: st.seen } (added || true)
      (by
        intro i hi hmem
        rcases List.mem_cons.mp hmem with heq | hmem
        · exact hnodup.1 (heq ▸ List.mem_map_of_mem hi)
        · exact hfresh i (List.mem_cons_of_mem _ hi) hmem)
      hnodup.2
    refine ⟨?_, ?_⟩
    · rw [hcalls]
      simp
    · rw [hadded]
      simp

theorem visitCandidates_contained {names : List Str} {hex : Nat → Str} {st : ParseState}
    {candidates : List Candidate}
    (h : ∀ c ∈ candidates, spanIsContained c.span st.acceptedSpans = true) :
    visitCandidates codec names hex st candidates = some st := by
  induction candidates with
  | nil => rfl
  | cons candidate rest ih =>
    rw [visitCandidates, visitCandidate, if_pos (h candidate List.mem_cons_self)]
    exact ih fun c hc => h c (List.mem_cons_of_mem _ hc)

theorem removeSpans_whole (text : Str) : removeSpans text [(0, text.length)] = [] := by
  apply List.eq_nil_iff_forall_not_mem.mpr
  intro c hc
  obtain ⟨i, hi, hcover⟩ := (mem_removeSpans (by simp)).mp hc
  obtain ⟨hlt, -⟩ := List.getElem?_eq_some_iff.mp hi
  exact hcover ⟨_, List.mem_singleton.mpr rfl, Nat.zero_le i, hlt⟩

/-- **What the parser returns for a written history**, if no read escapes. -/
theorem parseToolCalls_history (hex : Nat → Str) (h : History codec tools calls)
    (hjson : ReadsBack codec calls)
    (hreads : ¬ ReadEscapes codec (codec.dumps (historyValue calls))) :
    ∃ parsed, parseToolCalls codec hex (codec.dumps (historyValue calls)) (some tools) =
        some ([], parsed) ∧ parsed.map ToolCall.function = calls.map ToolCall.function := by
  obtain ⟨candidates, hcandidates⟩ := Option.ne_none_iff_exists'.mp
    fun hnone => hreads (jsonCandidates_eq_none.mp hnone)
  obtain ⟨rest, hrest⟩ := hjson.array
  obtain ⟨inner, rfl, hinner⟩ := candidates_of_array hrest hjson.undoes hcandidates
  have hnames : ∀ item ∈ calls.map callItem, item.1 ∈ validNames (some tools) := by
    intro item hitem
    obtain ⟨call, hcall, rfl⟩ := List.mem_map.mp hitem
    exact h.offered call hcall
  obtain ⟨hcalls, hadded⟩ := addCalls_all hex hnames .init false
    (fun _ _ hmem => by cases hmem) (keys_nodup h hjson)
  have hspans := (addCalls_keep (validNames (some tools)) hex (calls.map callItem) .init false).1
  have hnonempty : (calls.map callItem).isEmpty = false := by
    cases hcase : calls with
    | nil => exact absurd hcase h.nonempty
    | cons call calls => rfl
  rw [hnonempty] at hadded
  -- the whole text is visited first, and accepted
  have hvisit : visitCandidate codec (validNames (some tools)) hex .init
      ⟨(0, (codec.dumps (historyValue calls)).length), historyValue calls⟩ =
        some { (addCalls (validNames (some tools)) hex .init false (calls.map callItem)).1 with
          acceptedSpans := [(0, (codec.dumps (historyValue calls)).length)] } := by
    rw [visitCandidate, if_neg (by simp [spanIsContained, ParseState.init]),
      toolItems_history h hjson]
    show some (if (addCalls _ hex .init false _).2 = true then _ else _) = _
    rw [hadded, hspans]
    rfl
  refine ⟨(addCalls (validNames (some tools)) hex .init false (calls.map callItem)).1.toolCalls,
    ?_, ?_⟩
  · rw [parseToolCalls, scanCandidates, hcandidates]
    show ((visitCandidates codec _ hex .init (_ :: inner)).bind fun st =>
      some (cleanText (removeSpans _ st.acceptedSpans), st.toolCalls)) = _
    rw [visitCandidates, hvisit]
    show ((visitCandidates codec _ hex _ inner).bind fun st =>
      some (cleanText (removeSpans _ st.acceptedSpans), st.toolCalls)) = _
    rw [visitCandidates_contained hinner]
    show some (cleanText (removeSpans _ [(0, (codec.dumps (historyValue calls)).length)]), _) = _
    rw [removeSpans_whole]
    rfl
  · rw [hcalls, List.map_map]
    rfl

theorem normalizeMessages_history {ι ε : Type} (images : ImageCodec ι) (hcalls : calls ≠ []) :
    (normalizeMessages codec images [historyMessage calls] [] :
      Except (Failure ε) (List (Message ι))) =
        .ok [⟨"assistant".toList, .text (codec.dumps (historyValue calls))⟩] := by
  have hmap : ((calls.map historyCall).mapM fun call => do
      let name ← callField call "name".toList []
      let arguments ← callField call "arguments".toList "{}".toList
      .ok (Json.obj [("name".toList, name), ("arguments".toList, arguments)]) :
        Except (Failure ε) (List Json)) = .ok (calls.map fun call => callJson call.function) := by
    clear hcalls
    induction calls with
    | nil => rfl
    | cons call calls ih =>
      rw [List.map_cons, List.mapM_cons, ih]
      rfl
  obtain ⟨first, others, rfl⟩ := List.exists_cons_of_ne_nil hcalls
  have hmessage : (normalizeMessage codec images (historyMessage (first :: others)) :
      Except (Failure ε) (Message ι)) =
        .ok ⟨"assistant".toList, .text (codec.dumps (historyValue (first :: others)))⟩ := by
    show (do
      let calls ← ((first :: others).map historyCall).mapM fun call => do
        let name ← callField call "name".toList []
        let arguments ← callField call "arguments".toList "{}".toList
        .ok (Json.obj [("name".toList, name), ("arguments".toList, arguments)])
      Except.ok (⟨"assistant".toList, .text ([] ++ codec.dumps (.arr calls))⟩ : Message ι)) = _
    rw [hmap]
    rfl
  show (do
    let m ← normalizeMessage codec images (historyMessage (first :: others))
    let rest ← ([] : List RequestMessage).mapM (normalizeMessage codec images)
    pure (m :: rest)) = _
  rw [hmessage]
  rfl

theorem not_roundTrip_of_readEscapes {ι ε : Type} {images : ImageCodec ι} {hex : Nat → Str}
    (hcalls : calls ≠ []) (hreads : ReadEscapes codec (codec.dumps (historyValue calls))) :
    ¬ RoundTrip codec images hex ε tools calls := by
  rintro ⟨text, parsed, htext, hparsed, -⟩
  rw [normalizeMessages_history images hcalls] at htext
  cases htext
  rw [parseToolCalls, scanCandidates, jsonCandidates_eq_none.mpr hreads] at hparsed
  cases hparsed

/-- **Tool history round trip.**  For calls of the offered tools, no two of them the same, with
stripped JSON objects as their arguments, the text that `normalize_messages` writes is read back
as these calls and nothing else, exactly if no read of the scan escapes. -/
theorem toolHistory_roundTrip_iff {ι : Type} (ε : Type) (images : ImageCodec ι) (hex : Nat → Str)
    (h : History codec tools calls) (hjson : ReadsBack codec calls) :
    RoundTrip codec images hex ε tools calls ↔
      ¬ ReadEscapes codec (codec.dumps (historyValue calls)) := by
  constructor
  · intro htrip hreads
    exact not_roundTrip_of_readEscapes h.nonempty hreads htrip
  · intro hreads
    obtain ⟨parsed, hparsed, hcalls⟩ := parseToolCalls_history hex h hjson hreads
    exact ⟨_, parsed, normalizeMessages_history images h.nonempty, hparsed, hcalls⟩

end

/-! ### One call -/

/-- A codec that writes one text and knows what is read at some places of it, and one text of
arguments. -/
def tableCodec (text arguments : Str) (fields : List (Str × Json))
    (reads : List (Nat × Except DecodeError (Json × Nat)))
    (hreads : ∀ r ∈ reads, ∀ v ∈ r.2.toOption, r.1 < v.2 ∧ v.2 ≤ text.length) : JsonCodec where
  loads t := if t = arguments then .ok (.obj fields) else .error .invalid
  rawDecode t i :=
    if t = text then (reads.lookup i).getD (.error .invalid) else .error .invalid
  dumps _ := text
  str _ := []
  rawDecode_span := by
    intro t i value stop h
    split at h
    · next heq =>
      cases hread : reads.lookup i with
      | none =>
        rw [hread] at h
        cases h
      | some read =>
        rw [hread] at h
        obtain rfl : read = .ok (value, stop) := h
        rw [heq]
        exact hreads _ (Dict.mem_of_lookup hread) (value, stop) rfl
    · cases h

/-- Images are not read. -/
def noImages : ImageCodec Empty where
  preflightDataUrl _ := .error []
  decodeDataUrl _ := .error []
  byteSize := Empty.elim
  pixelCount := Empty.elim
  repr _ := []

/-- A call of `f`. -/
def callOf (arguments : Str) : ToolCall := ⟨"call-1".toList, ⟨['f'], arguments⟩⟩

/-- The text that is written for it, with its arguments as they are escaped. -/
def writtenCall (escaped : Str) : Str :=
  '[' :: '{' :: quoted keyName ++ ':' :: ' ' :: quoted ['f'] ++ ',' :: ' ' :: quoted keyArguments ++
    ':' :: ' ' :: '"' :: escaped ++ ['"', '}', ']']

def emptyArguments : Str := ['{', '}']

def emptyCodec : JsonCodec :=
  tableCodec (writtenCall emptyArguments) emptyArguments []
    [(0, .ok (historyValue [callOf emptyArguments], 34)),
      (1, .ok (callJson (callOf emptyArguments).function, 33)), (29, .ok (.obj [], 31))]
    (by decide)

theorem objectText_empty : ObjectText emptyArguments := ⟨['}'], rfl, Nat.one_pos, _, rfl, rfl⟩

/-- A call without arguments comes back. -/
theorem toolHistory_roundTrip_empty :
    RoundTrip emptyCodec noImages (fun _ => []) Unit [⟨['f']⟩] [callOf emptyArguments] := by
  have hhistory : History emptyCodec [⟨['f']⟩] [callOf emptyArguments] :=
    { nonempty := List.cons_ne_nil _ _
      distinct := List.nodup_singleton _
      offered := by simp [callOf]
      stripped := by
        intro call hcall
        obtain rfl := List.mem_singleton.mp hcall
        rfl
      objects := by
        intro call hcall
        obtain rfl := List.mem_singleton.mp hcall
        exact ⟨[], rfl⟩ }
  have hjson : ReadsBack emptyCodec [callOf emptyArguments] :=
    { undoes := rfl
      array := ⟨_, rfl⟩
      grammar := by
        intro text fields hloads _
        have hread : (if text = emptyArguments then Except.ok (Json.obj [])
          else .error DecodeError.invalid) = .ok (.obj fields) := hloads
        split at hread
        · next heq => exact heq ▸ objectText_empty
        · cases hread }
  refine (toolHistory_roundTrip_iff Unit noImages (fun _ => []) hhistory hjson).mpr ?_
  rw [← jsonCandidates_eq_none]
  decide

/-- `{"x":"[111…"}`, with as many digits. -/
def digitArguments (n : Nat) : Str :=
  '{' :: quoted ['x'] ++ ':' :: '"' :: '[' :: List.replicate n '1' ++ ['"', '}']

/-- The same within the text that is written. -/
def escapedDigits (n : Nat) : Str :=
  '{' :: '\\' :: '"' :: 'x' :: '\\' :: '"' :: ':' :: '\\' :: '"' :: '[' :: List.replicate n '1' ++
    ['\\', '"', '}']

theorem length_writtenDigits (n : Nat) : (writtenCall (escapedDigits n)).length = n + 45 := by
  simp [writtenCall, escapedDigits, quoted, keyName, keyArguments]

/-- The bracket in the string begins no JSON.  If the number behind it has more digits than the
reader takes, it fails before it sees that, and with another error. -/
def digitCodec (n : Nat) : JsonCodec :=
  tableCodec (writtenCall (escapedDigits n)) (digitArguments n)
    [(['x'], .str ('[' :: List.replicate n '1'))]
    [(0, .ok (historyValue [callOf (digitArguments n)], n + 45)),
      (1, .ok (callJson (callOf (digitArguments n)).function, n + 44)),
      (38, if 4300 < n then .error .uncaught else .error .invalid)]
    (by
      rw [length_writtenDigits]
      intro r hr v hv
      simp only [List.mem_cons, List.not_mem_nil, or_false] at hr
      rcases hr with rfl | rfl | rfl
      · obtain rfl := Option.some.inj hv
        exact ⟨Nat.succ_pos _, le_rfl⟩
      · obtain rfl := Option.some.inj hv
        refine ⟨?_, Nat.le_succ _⟩
        show 1 < n + 44
        omega
      · split at hv <;> cases hv)

theorem objectText_digits (n : Nat) : ObjectText (digitArguments n) := by
  have hdigits : Closes (.inside, 1) (List.replicate n '1' ++ ['"', '}']) := by
    induction n with
    | zero => exact ⟨Nat.one_pos, _, rfl, Nat.one_pos, _, rfl, rfl⟩
    | succ n ih => exact ⟨Nat.one_pos, _, rfl, ih⟩
  refine ⟨_, rfl, ?_⟩
  exact ⟨Nat.one_pos, (.inside, 1), rfl, Nat.one_pos, (.inside, 1), rfl, Nat.one_pos,
    (.outside, 1), rfl, Nat.one_pos, (.outside, 1), rfl, Nat.one_pos, (.inside, 1), rfl,
    Nat.one_pos, (.inside, 1), rfl, hdigits⟩

theorem strip_digits (n : Nat) : strip isSpace (digitArguments n) = digitArguments n := by
  apply strip_eq_self
  · intro _
    rfl
  · intro h
    have hlast : (digitArguments n).getLast h = '}' := by
      simp [digitArguments]
    rw [hlast]
    rfl

theorem history_digits (n : Nat) :
    History (digitCodec n) [⟨['f']⟩] [callOf (digitArguments n)] where
  nonempty := List.cons_ne_nil _ _
  distinct := List.nodup_singleton _
  offered := by simp [callOf]
  stripped := by
    intro call hcall
    obtain rfl := List.mem_singleton.mp hcall
    exact strip_digits n
  objects := by
    intro call hcall
    obtain rfl := List.mem_singleton.mp hcall
    exact ⟨_, if_pos rfl⟩

theorem readsBack_digits (n : Nat) : ReadsBack (digitCodec n) [callOf (digitArguments n)] where
  undoes := by
    show (digitCodec n).rawDecode (writtenCall (escapedDigits n)) 0 =
      .ok (_, (writtenCall (escapedDigits n)).length)
    rw [length_writtenDigits]
    exact if_pos rfl
  array := ⟨_, rfl⟩
  grammar := by
    intro text fields hloads _
    have hread : (if text = digitArguments n then
        Except.ok (Json.obj [(['x'], .str ('[' :: List.replicate n '1'))])
      else .error DecodeError.invalid) = .ok (.obj fields) := hloads
    split at hread
    · next heq => exact heq ▸ objectText_digits n
    · cases hread

theorem readEscapes_digits {n : Nat} (hn : 4300 < n) :
    ReadEscapes (digitCodec n) (writtenCall (escapedDigits n)) := by
  refine .inr ⟨38, .inr rfl, ?_⟩
  have hread : (digitCodec n).rawDecode (writtenCall (escapedDigits n)) 38 =
      if 4300 < n then .error .uncaught else .error .invalid := if_pos rfl
  rw [hread, if_pos hn]

/-- A bracket and a long row of digits in an argument string: the scan fails. -/
theorem toolHistory_digits_lost :
    History (digitCodec 4301) [⟨['f']⟩] [callOf (digitArguments 4301)] ∧
      ReadsBack (digitCodec 4301) [callOf (digitArguments 4301)] ∧
      ¬ RoundTrip (digitCodec 4301) noImages (fun _ => []) Unit [⟨['f']⟩]
        [callOf (digitArguments 4301)] :=
  ⟨history_digits 4301, readsBack_digits 4301,
    not_roundTrip_of_readEscapes (List.cons_ne_nil _ _) (readEscapes_digits (Nat.lt_succ_self _))⟩

end InferBridge.ToolHistory
