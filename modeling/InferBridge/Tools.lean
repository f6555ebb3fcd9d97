/-
InferBridge/Tools.lean

Prompt-based tool calling (app/tools.py): parsing tool calls back out of
the free-form text of a model.

The JSON reader and writer of the host language are the parameter
`JsonCodec`; everything else is concrete: the fence expression, the scan
over the braces of the text, the order of the candidates, the acceptance
loop with its duplicate filter, the removal of the accepted spans and the
whitespace clean-up.  A reader may fail in two ways that the code treats
differently: a text that is not JSON is skipped, any other failure (too
many digits, too deep) escapes, and `parseToolCalls` returns `none`.

Main results:

* `mem_removeSpans` -- what `_remove_spans` leaves are exactly the symbols
  outside the spans;
* `scanCandidates_cases` -- a call is returned exactly when a candidate of
  the text offers one;
* `sameUpToIds_scanCandidates` -- two scans of one text differ in the drawn
  identifiers only;
* `parseToolCalls_of_offersCall`, `parseToolCalls_of_not_offersCall` -- what the caller
  gets in the two cases.
-/
import InferBridge.Lib.Occurrence
import InferBridge.Lib.Text

namespace InferBridge

open Text

/-- Text as the code handles it: a sequence of code points. -/
abbrev Str := List Char

instance : LawfulBEq Str := inferInstance

/-! ### JSON -/

/-- A decoded JSON value.  A number keeps its literal. -/
inductive Json where
  | null
  | bool (b : Bool)
  | num (literal : Str)
  | str (s : Str)
  | arr (items : List Json)
  | obj (fields : List (Str × Json))

/-- Why a read fails: the text is not JSON (`JSONDecodeError`), or the reader gives up on
it with an error that the code does not catch. -/
inductive DecodeError where
  | invalid
  | uncaught

/-- The JSON reader and writer.  `rawDecode text i` reads one value that starts at `i` and
returns the index after it; `str` is the textual form of a value that is no string. -/
structure JsonCodec where
  loads : Str → Except DecodeError Json
  rawDecode : Str → Nat → Except DecodeError (Json × Nat)
  dumps : Json → Str
  str : Json → Str
  rawDecode_span : ∀ {text i value stop}, rawDecode text i = .ok (value, stop) →
    i < stop ∧ stop ≤ text.length

/-- A codec for texts without JSON: it rejects whatever it is given. -/
def JsonCodec.rejecting : JsonCodec where
  loads _ := .error .invalid
  rawDecode _ _ := .error .invalid
  dumps _ := []
  str _ := []
  rawDecode_span h := by cases h

/-- White space of the host language: `str.isspace` and the class `\s`. -/
def isSpace (c : Char) : Bool :=
  let n := c.toNat
  (9 ≤ n ∧ n ≤ 13) ∨ (28 ≤ n ∧ n ≤ 32) ∨ n = 0x85 ∨ n = 0xA0 ∨ n = 0x1680 ∨
    (0x2000 ≤ n ∧ n ≤ 0x200A) ∨ n = 0x2028 ∨ n = 0x2029 ∨ n = 0x202F ∨ n = 0x205F ∨ n = 0x3000

/-! ### Tool calls -/

structure FunctionCall where
  name : Str
  arguments : Str
deriving DecidableEq, Repr

structure ToolCall where
  id : Str
  function : FunctionCall
deriving DecidableEq, Repr

/-- An offered tool; the parser reads its function's name only. -/
structure ToolDefinition where
  name : Str
deriving DecidableEq, Repr

/-- `_arguments_to_json_string`; `none` is an error that escapes. -/
def argumentsToJsonString (codec : JsonCodec) : Json → Option Str
  | .null => some ['{', '}']
  | .str s =>
    let text := strip isSpace s
    if text = [] then some (codec.dumps (.str s))
    else
      match codec.loads text with
      | .ok _ => some text
      | .error .invalid => some (codec.dumps (.str s))
      | .error .uncaught => none
  | value => some (codec.dumps value)

/-- `str(value)`. -/
def strOf (codec : JsonCodec) : Json → Str
  | .str s => s
  | value => codec.str value

def keyName : Str := ['n', 'a', 'm', 'e']
def keyArguments : Str := ['a', 'r', 'g', 'u', 'm', 'e', 'n', 't', 's']
def keyFunction : Str := ['f', 'u', 'n', 'c', 't', 'i', 'o', 'n']

/-- The call a JSON object stands for: `{"name": …, "arguments": …}`, or the same below
the key `function`. -/
def callOfFields (codec : JsonCodec) (fields : List (Str × Json)) :
    Option (List (Str × Str)) :=
  match fields.lookup keyName with
  | some name => do
    let arguments ← argumentsToJsonString codec ((fields.lookup keyArguments).getD (.obj []))
    some [(strOf codec name, arguments)]
  | none =>
    match fields.lookup keyFunction with
    | some (.obj function) =>
      match function.lookup keyName with
      | some name => do
        let arguments ← argumentsToJsonString codec
          ((function.lookup keyArguments).getD ((fields.lookup keyArguments).getD (.obj [])))
        some [(strOf codec name, arguments)]
      | none => some []
    | _ => some []

mutual
/-- `_tool_items_from_json`: the pairs (name, arguments) of a value. -/
def toolItemsFromJson (codec : JsonCodec) : Json → Option (List (Str × Str))
  | .arr items => toolItemsFromList codec items
  | .obj fields => callOfFields codec fields
  | _ => some []

def toolItemsFromList (codec : JsonCodec) : List Json → Option (List (Str × Str))
  | [] => some []
  | item :: rest => do
    let first ← toolItemsFromJson codec item
    let others ← toolItemsFromList codec rest
    some (first ++ others)
end

/-! ### Candidates -/

abbrev Span := Nat × Nat

structure Candidate where
  span : Span
  value : Json

def fenceMark : Str := ['`', '`', '`']

/-- The tag `json` of a fence, in any case (the long s folds to `s`). -/
def isJsonTag : Str → Bool
  | [a, b, c, d] =>
    (a = 'j' ∨ a = 'J') ∧ (b = 's' ∨ b = 'S' ∨ b = 'ſ') ∧ (c = 'o' ∨ c = 'O') ∧
      (d = 'n' ∨ d = 'N')
  | _ => false

/-- A fenced block at the beginning of `t`: its stripped content and its length.  The lazy
group of the expression ends at the first closing mark. -/
def fenceMatch (t : Str) : Option (Str × Nat) :=
  if fenceMark <+: t then
    let body := t.drop 3
    let tagged := if isJsonTag (body.take 4) then body.drop 4 else body
    let inner := tagged.dropWhile isSpace
    (Occurrence.find fenceMark inner).map fun k =>
      (strip isSpace (inner.take k), t.length - inner.length + k + 3)
  else none

/-- The fenced blocks of a text from index `pos` on; the next `skip` symbols belong to the
block found last. -/
def fences (skip pos : Nat) : Str → List (Span × Str)
  | [] => []
  | c :: rest =>
    match skip with
    | skip + 1 => fences skip (pos + 1) rest
    | 0 =>
      match fenceMatch (c :: rest) with
      | some (raw, len) => ((pos, pos + len), raw) :: fences (len - 1) (pos + 1) rest
      | none => fences 0 (pos + 1) rest

/-- A read inside `try … except JSONDecodeError: continue`. -/
def decoded {β : Type} : Except DecodeError β → Option (List β)
  | .ok v => some [v]
  | .error .invalid => some []
  | .error .uncaught => none

def fencedCandidates (codec : JsonCodec) : List (Span × Str) → Option (List Candidate)
  | [] => some []
  | (span, raw) :: rest => do
    let values ← decoded (codec.loads raw)
    let others ← fencedCandidates codec rest
    some (values.map (Candidate.mk span) ++ others)

/-- The candidates that start at a brace or a bracket, from index `idx` on. -/
def bareCandidates (codec : JsonCodec) (text : Str) (idx : Nat) :
    Str → Option (List Candidate)
  | [] => some []
  | char :: rest =>
    if char = '{' ∨ char = '[' then do
      let values ← decoded (codec.rawDecode text idx)
      let others ← bareCandidates codec text (idx + 1) rest
      some (values.map (fun v => Candidate.mk (idx, v.2) v.1) ++ others)
    else bareCandidates codec text (idx + 1) rest

/-- The sort key: earlier spans first, for the same start the longest first. -/
def candidateBefore (a b : Candidate) : Prop :=
  a.span.1 < b.span.1 ∨
    (a.span.1 = b.span.1 ∧ b.span.2 - b.span.1 ≤ a.span.2 - a.span.1)

instance : DecidableRel candidateBefore := fun a b => by
  unfold candidateBefore
  infer_instance

/-- `_json_candidates`. -/
def jsonCandidates (codec : JsonCodec) (text : Str) : Option (List Candidate) := do
  let fenced ← fencedCandidates codec (fences 0 0 text)
  let bare ← bareCandidates codec text 0 text
  some ((fenced ++ bare).insertionSort candidateBefore)

/-! ### Removing the accepted spans -/

/-- `_span_is_contained`. -/
def spanIsContained (span : Span) (accepted : List Span) : Bool :=
  accepted.any fun a => a.1 ≤ span.1 && span.2 ≤ a.2

/-- The order of pairs of indices. -/
def spanBefore (a b : Span) : Prop := a.1 < b.1 ∨ (a.1 = b.1 ∧ a.2 ≤ b.2)

instance : DecidableRel spanBefore := fun a b => by
  unfold spanBefore
  infer_instance

/-- One turn of the merging loop; the list is kept with its last element first. -/
def mergeSpan : List Span → Span → List Span
  | [], span => [span]
  | last :: merged, span =>
    if last.2 < span.1 then span :: last :: merged
    else (last.1, max last.2 span.2) :: merged

/-- The pieces of the text between the merged spans, from `cursor` on. -/
def cutSpans (text : Str) (cursor : Nat) : List Span → Str
  | [] => text.drop cursor
  | span :: rest => slice text cursor span.1 ++ cutSpans text span.2 rest

/-- `_remove_spans`. -/
def removeSpans (text : Str) (spans : List Span) : Str :=
  if spans = [] then text
  else cutSpans text 0 ((spans.insertionSort spanBefore).foldl mergeSpan []).reverse

/-- The index `i` lies in one of the spans. -/
def Covered (spans : List Span) (i : Nat) : Prop :=
  ∃ s ∈ spans, s.1 ≤ i ∧ i < s.2

theorem covered_cons {span : Span} {spans : List Span} {i : Nat} :
    Covered (span :: spans) i ↔ (span.1 ≤ i ∧ i < span.2) ∨ Covered spans i := by
  simp [Covered]

/-- What the merging loop keeps of its list (last element first): no span is turned
around, and each one ends before the next begins. -/
structure Merged (acc : List Span) : Prop where
  forward : ∀ s ∈ acc, s.1 ≤ s.2
  apart : acc.Pairwise (fun later earlier => earlier.2 < later.1)

/-- One turn of the merging loop, for a span that starts no earlier than the last one. -/
theorem merged_mergeSpan {acc : List Span} {span : Span} (h : Merged acc)
    (hspan : span.1 ≤ span.2) (hlate : ∀ s ∈ acc, s.1 ≤ span.1) :
    Merged (mergeSpan acc span) ∧ (∀ s ∈ mergeSpan acc span, s.1 ≤ span.1) ∧
      ∀ i, Covered (mergeSpan acc span) i ↔ Covered acc i ∨ (span.1 ≤ i ∧ i < span.2) := by
  cases acc with
  | nil => simp [mergeSpan, Covered, hspan, Merged.mk]
  | cons last merged =>
    have hforward := h.forward
    have hapart := List.pairwise_cons.mp h.apart
    have hlast := hlate last (by simp)
    have hlastf := hforward last (by simp)
    by_cases hgap : last.2 < span.1
    · -- a new span begins
      simp only [mergeSpan, hgap, if_true]
      refine ⟨⟨?_, ?_⟩, ?_, ?_⟩
      · intro s hs
        rcases List.mem_cons.mp hs with rfl | hs
        · exact hspan
        · exact hforward s hs
      · refine List.pairwise_cons.mpr ⟨?_, h.apart⟩
        intro s hs
        rcases List.mem_cons.mp hs with rfl | hs
        · exact hgap
        · have hbefore := hapart.1 s hs
          omega
      · intro s hs
        rcases List.mem_cons.mp hs with rfl | hs
        · exact Nat.le_refl _
        · exact hlate s hs
      · intro i
        rw [covered_cons, or_comm]
    · -- the span extends the last one
      simp only [mergeSpan, hgap, if_false]
      refine ⟨⟨?_, ?_⟩, ?_, ?_⟩
      · intro s hs
        rcases List.mem_cons.mp hs with rfl | hs
        · exact hlastf.trans (Nat.le_max_left _ _)
        · exact hforward s (by simp [hs])
      · refine List.pairwise_cons.mpr ⟨hapart.1, hapart.2⟩
      · intro s hs
        rcases List.mem_cons.mp hs with rfl | hs
        · exact hlast
        · exact hlate s (by simp [hs])
      · intro i
        have hunion : last.1 ≤ i ∧ i < max last.2 span.2 ↔
            (last.1 ≤ i ∧ i < last.2) ∨ (span.1 ≤ i ∧ i < span.2) := by omega
        rw [covered_cons, covered_cons, hunion, or_right_comm]

theorem merged_foldl (spans : List Span) {acc : List Span} (h : Merged acc)
    (hspans : ∀ s ∈ spans, s.1 ≤ s.2) (hsorted : spans.Pairwise (fun a b => a.1 ≤ b.1))
    (hlate : ∀ s ∈ acc, ∀ t ∈ spans, s.1 ≤ t.1) :
    Merged (spans.foldl mergeSpan acc) ∧
      ∀ i, Covered (spans.foldl mergeSpan acc) i ↔ Covered acc i ∨ Covered spans i := by
  induction spans generalizing acc with
  | nil => exact ⟨h, by simp [Covered]⟩
  | cons span rest ih =>
    have hpair := List.pairwise_cons.mp hsorted
    obtain ⟨hmerged, hstart, hcover⟩ :=
      merged_mergeSpan h (hspans span (by simp)) (fun s hs => hlate s hs span (by simp))
    obtain ⟨hfold, hcoverAll⟩ := ih hmerged (fun s hs => hspans s (by simp [hs])) hpair.2
      (fun s hs t ht => (hstart s hs).trans (hpair.1 t ht))
    refine ⟨hfold, ?_⟩
    intro i
    rw [List.foldl_cons, hcoverAll, hcover, covered_cons, or_assoc]

/-- Cutting out spans that stand in order, from a cursor before all of them. -/
theorem mem_cutSpans {text : Str} {spans : List Span} {cursor : Nat} {c : Char}
    (hforward : ∀ s ∈ spans, s.1 ≤ s.2) (hcursor : ∀ s ∈ spans, cursor ≤ s.1)
    (hapart : spans.Pairwise (fun earlier later => earlier.2 < later.1)) :
    c ∈ cutSpans text cursor spans ↔
      ∃ i, cursor ≤ i ∧ text[i]? = some c ∧ ¬ Covered spans i := by
  induction spans generalizing cursor with
  | nil =>
    rw [cutSpans, mem_drop]
    simp [Covered]
  | cons span rest ih =>
    obtain ⟨hbefore, hrest⟩ := List.pairwise_cons.mp hapart
    have hspan := hforward span (by simp)
    have hstart := hcursor span (by simp)
    rw [cutSpans, List.mem_append, mem_slice,
      ih (fun s hs => hforward s (by simp [hs])) (fun s hs => (hbefore s hs).le) hrest]
    constructor
    · rintro (⟨i, hlo, hhi, hc⟩ | ⟨i, hlo, hc, hcov⟩)
      · refine ⟨i, hlo, hc, ?_⟩
        rintro ⟨s, hs, hsi, -⟩
        rcases List.mem_cons.mp hs with rfl | hs
        · omega
        · have hlt := hbefore s hs
          omega
      · refine ⟨i, by omega, hc, ?_⟩
        rintro ⟨s, hs, hsi, his⟩
        rcases List.mem_cons.mp hs with rfl | hs
        · omega
        · exact hcov ⟨s, hs, hsi, his⟩
    · rintro ⟨i, hlo, hc, hcov⟩
      by_cases hi : i < span.1
      · exact .inl ⟨i, hlo, hi, hc⟩
      · have hend : span.2 ≤ i := by
          by_contra hlt
          exact hcov ⟨span, by simp, by omega, by omega⟩
        refine .inr ⟨i, hend, hc, ?_⟩
        rintro ⟨s, hs, hsi, his⟩
        exact hcov ⟨s, by simp [hs], hsi, his⟩

instance : Std.Total spanBefore := ⟨fun a b => by unfold spanBefore; omega⟩

instance : IsTrans Span spanBefore := ⟨fun a b c => by unfold spanBefore; omega⟩

/-- **What `_remove_spans` leaves** are exactly the symbols outside the spans. -/
theorem mem_removeSpans {text : Str} {spans : List Span} {c : Char}
    (hspans : ∀ s ∈ spans, s.1 ≤ s.2) :
    c ∈ removeSpans text spans ↔ ∃ i, text[i]? = some c ∧ ¬ Covered spans i := by
  by_cases hnil : spans = []
  · subst hnil
    simp only [removeSpans, if_true, Covered, List.not_mem_nil, false_and, exists_false,
      not_false_eq_true, and_true]
    exact List.mem_iff_getElem?
  · have hperm := List.perm_insertionSort spanBefore spans
    have hmem : ∀ s, s ∈ spans.insertionSort spanBefore ↔ s ∈ spans := fun s => hperm.mem_iff
    have hsorted : (spans.insertionSort spanBefore).Pairwise (fun a b => a.1 ≤ b.1) :=
      (List.pairwise_insertionSort spanBefore spans).imp (by unfold spanBefore; omega)
    have hempty : Merged [] := ⟨by simp, by simp⟩
    obtain ⟨hmerged, hcover⟩ := merged_foldl _ hempty
      (fun s hs => hspans s ((hmem s).mp hs)) hsorted (by simp)
    rw [removeSpans, if_neg hnil, mem_cutSpans]
    · have hcov : ∀ i, Covered ((spans.insertionSort spanBefore).foldl mergeSpan []).reverse i ↔
          Covered spans i := by
        intro i
        have hrev : Covered ((spans.insertionSort spanBefore).foldl mergeSpan []).reverse i ↔
            Covered ((spans.insertionSort spanBefore).foldl mergeSpan []) i := by
          simp [Covered]
        rw [hrev, hcover i]
        simp [Covered, hmem]
      simp [hcov]
    · intro s hs
      exact hmerged.forward s (List.mem_reverse.mp hs)
    · simp
    · exact List.pairwise_reverse.mpr hmerged.apart

/-! ### The parser -/

/-- The local variables of `parse_tool_calls`. -/
structure ParseState where
  toolCalls : List ToolCall
  seen : List Str
  acceptedSpans : List Span

def ParseState.init : ParseState := { toolCalls := [], seen := [], acceptedSpans := [] }

/-- `valid_names`: the names of the offered tools, empty when none is offered. -/
def validNames : Option (List ToolDefinition) → List Str
  | none => []
  | some tools => tools.map ToolDefinition.name

/-- A name passes the filter: no tool is named at all, or this one is. -/
def NameOffered (names : List Str) (name : Str) : Prop := names = [] ∨ name ∈ names

instance (names : List Str) (name : Str) : Decidable (NameOffered names name) := by
  unfold NameOffered
  infer_instance

/-- The inner function `add`.  The identifier of the `n`-th call is drawn from `hex n`. -/
def addCall (names : List Str) (hex : Nat → Str) (st : ParseState) (item : Str × Str) :
    ParseState × Bool :=
  let (name, arguments) := item
  if ¬ NameOffered names name then (st, false)
  else
    let key := name ++ ':' :: arguments
    if key ∈ st.seen then (st, false)
    else
      let id := ['c', 'a', 'l', 'l', '-'] ++ (hex st.toolCalls.length).take 12
      ({ st with
          toolCalls := st.toolCalls ++ [⟨id, name, arguments⟩]
          seen := key :: st.seen }, true)

/-- The loop over the items of one candidate; the flag is `added`. -/
def addCalls (names : List Str) (hex : Nat → Str) (st : ParseState) (added : Bool) :
    List (Str × Str) → ParseState × Bool
  | [] => (st, added)
  | item :: rest =>
    let (st', new) := addCall names hex st item
    addCalls names hex st' (added || new) rest

/-- One turn of the loop over the candidates. -/
def visitCandidate (codec : JsonCodec) (names : List Str) (hex : Nat → Str) (st : ParseState)
    (candidate : Candidate) : Option ParseState :=
  if spanIsContained candidate.span st.acceptedSpans then some st
  else do
    let items ← toolItemsFromJson codec candidate.value
    let (st', added) := addCalls names hex st false items
    some (if added then { st' with acceptedSpans := st'.acceptedSpans ++ [candidate.span] }
      else st')

def visitCandidates (codec : JsonCodec) (names : List Str) (hex : Nat → Str) (st : ParseState) :
    List Candidate → Option ParseState
  | [] => some st
  | candidate :: rest => do
    let st' ← visitCandidate codec names hex st candidate
    visitCandidates codec names hex st' rest

/-- The loop over all candidates of a text. -/
def scanCandidates (codec : JsonCodec) (hex : Nat → Str) (text : Str)
    (tools : Option (List ToolDefinition)) : Option ParseState := do
  let candidates ← jsonCandidates codec text
  visitCandidates codec (validNames tools) hex .init candidates

/-! ### When a text offers a call -/

/-- A candidate offers a call: one of its items has a name that passes the filter. -/
def Offers (codec : JsonCodec) (names : List Str) (candidate : Candidate) : Prop :=
  ∃ items, toolItemsFromJson codec candidate.value = some items ∧
    ∃ item ∈ items, NameOffered names item.1

/-- The text offers a call of one of the tools. -/
def OffersCall (codec : JsonCodec) (text : Str) (tools : Option (List ToolDefinition)) : Prop :=
  ∃ candidates, jsonCandidates codec text = some candidates ∧
    ∃ candidate ∈ candidates, Offers codec (validNames tools) candidate

/-- `addCall` refuses and changes nothing, or appends one call. -/
theorem addCall_cases (names : List Str) (hex : Nat → Str) (st : ParseState) (item : Str × Str) :
    ((¬ NameOffered names item.1 ∨ item.1 ++ ':' :: item.2 ∈ st.seen) ∧
      addCall names hex st item = (st, false)) ∨
    (NameOffered names item.1 ∧ ∃ call, addCall names hex st item =
      ({ st with toolCalls := st.toolCalls ++ [call],
                 seen := (item.1 ++ ':' :: item.2) :: st.seen }, true)) := by
  obtain ⟨name, arguments⟩ := item
  by_cases hname : NameOffered names name
  · by_cases hseen : name ++ ':' :: arguments ∈ st.seen
    · exact .inl ⟨.inr hseen, by simp [addCall, hname, hseen]⟩
    · exact .inr ⟨hname, _, by simp [addCall, hname, hseen]; rfl⟩
  · exact .inl ⟨.inl hname, by simp [addCall, hname]⟩

/-- The items of one candidate: the accepted spans stay, and calls are only added. -/
theorem addCalls_keep (names : List Str) (hex : Nat → Str) (items : List (Str × Str))
    (st : ParseState) (added : Bool) :
    (addCalls names hex st added items).1.acceptedSpans = st.acceptedSpans ∧
      (st.toolCalls ≠ [] → (addCalls names hex st added items).1.toolCalls ≠ []) := by
  induction items generalizing st added with
  | nil => exact ⟨rfl, id⟩
  | cons item rest ih =>
    rcases addCall_cases names hex st item with ⟨-, heq⟩ | ⟨-, call, heq⟩
    · simpa only [addCalls, heq] using ih st (added || false)
    · simp only [addCalls, heq]
      obtain ⟨hspans, hcalls⟩ := ih _ (added || true)
      exact ⟨hspans, fun _ => hcalls (by simp)⟩

/-- From the empty state the items add a call exactly when one of them is offered. -/
theorem addCalls_init (names : List Str) (hex : Nat → Str) (items : List (Str × Str)) :
    ((∃ item ∈ items, NameOffered names item.1) ∧
      (addCalls names hex .init false items).1.toolCalls ≠ []) ∨
    ((¬ ∃ item ∈ items, NameOffered names item.1) ∧
      addCalls names hex .init false items = (.init, false)) := by
  induction items with
  | nil => exact .inr ⟨by simp, rfl⟩
  | cons item rest ih =>
    rcases addCall_cases names hex .init item with ⟨hno, heq⟩ | ⟨hname, call, heq⟩
    · have hno' : ¬ NameOffered names item.1 := by simpa [ParseState.init] using hno
      simpa [addCalls, heq, hno'] using ih
    · refine .inl ⟨⟨item, by simp, hname⟩, ?_⟩
      simp only [addCalls, heq]
      exact (addCalls_keep names hex rest _ _).2 (by simp)

theorem visitCandidate_keep {codec : JsonCodec} {names : List Str} {hex : Nat → Str}
    {st st' : ParseState} {candidate : Candidate}
    (h : visitCandidate codec names hex st candidate = some st') :
    (st.toolCalls ≠ [] → st'.toolCalls ≠ []) ∧
      ∀ s ∈ st'.acceptedSpans, s ∈ st.acceptedSpans ∨ s = candidate.span := by
  unfold visitCandidate at h
  split at h
  · cases h
    exact ⟨id, fun s hs => .inl hs⟩
  · rcases e : toolItemsFromJson codec candidate.value with - | items
    · simp [e] at h
    · obtain ⟨hspans, hcalls⟩ := addCalls_keep names hex items st false
      simp only [e, Option.bind_eq_bind, Option.bind_some, Option.some.injEq] at h
      subst h
      split
      · refine ⟨hcalls, ?_⟩
        intro s hs
        simpa [hspans] using hs
      · refine ⟨hcalls, ?_⟩
        intro s hs
        exact .inl (hspans ▸ hs)

theorem visitCandidates_keep {codec : JsonCodec} {names : List Str} {hex : Nat → Str}
    (candidates : List Candidate) {st st' : ParseState}
    (h : visitCandidates codec names hex st candidates = some st') :
    (st.toolCalls ≠ [] → st'.toolCalls ≠ []) ∧
      ∀ s ∈ st'.acceptedSpans, s ∈ st.acceptedSpans ∨ ∃ c ∈ candidates, s = c.span := by
  induction candidates generalizing st with
  | nil =>
    cases h
    exact ⟨id, fun s hs => .inl hs⟩
  | cons candidate rest ih =>
    rcases e : visitCandidate codec names hex st candidate with - | mid
    · simp [visitCandidates, e] at h
    · simp only [visitCandidates, e, Option.bind_eq_bind, Option.bind_some] at h
      obtain ⟨hcalls, hspans⟩ := visitCandidate_keep e
      obtain ⟨hcalls', hspans'⟩ := ih h
      refine ⟨fun hne => hcalls' (hcalls hne), ?_⟩
      intro s hs
      rcases hspans' s hs with hmid | ⟨c, hc, rfl⟩
      · rcases hspans s hmid with hold | rfl
        · exact .inl hold
        · exact .inr ⟨candidate, by simp, rfl⟩
      · exact .inr ⟨c, by simp [hc], rfl⟩

/-- The whole loop adds a call exactly when a candidate offers one. -/
theorem visitCandidates_init {codec : JsonCodec} {names : List Str} {hex : Nat → Str}
    (candidates : List Candidate) {st : ParseState}
    (h : visitCandidates codec names hex .init candidates = some st) :
    ((∃ c ∈ candidates, Offers codec names c) ∧ st.toolCalls ≠ []) ∨
    ((¬ ∃ c ∈ candidates, Offers codec names c) ∧ st = .init) := by
  induction candidates with
  | nil =>
    cases h
    exact .inr ⟨by simp, rfl⟩
  | cons candidate rest ih =>
    rcases e : toolItemsFromJson codec candidate.value with - | items
    · simp [visitCandidates, visitCandidate, e, spanIsContained, ParseState.init] at h
    · have hvisit : visitCandidate codec names hex .init candidate =
          some (if (addCalls names hex .init false items).2 then
            { (addCalls names hex .init false items).1 with
              acceptedSpans :=
                (addCalls names hex .init false items).1.acceptedSpans ++ [candidate.span] }
            else (addCalls names hex .init false items).1) := by
        simp [visitCandidate, e, spanIsContained, ParseState.init]
      rcases addCalls_init names hex items with ⟨hoffer, hne⟩ | ⟨hno, heq⟩
      · simp only [visitCandidates, hvisit, Option.bind_eq_bind, Option.bind_some] at h
        refine .inl ⟨⟨candidate, by simp, items, e, hoffer⟩, ?_⟩
        refine (visitCandidates_keep rest h).1 ?_
        split <;> exact hne
      · simp only [visitCandidates, hvisit, heq, Bool.false_eq_true, if_false,
          Option.bind_eq_bind, Option.bind_some] at h
        have hno' : ¬ Offers codec names candidate := by
          rintro ⟨items', he', hoffer⟩
          rw [e] at he'
          cases he'
          exact hno hoffer
        rcases ih h with ⟨⟨c, hc, hoffer⟩, hne⟩ | ⟨hnone, hst⟩
        · exact .inl ⟨⟨c, by simp [hc], hoffer⟩, hne⟩
        · refine .inr ⟨?_, hst⟩
          rintro ⟨c, hc, hoffer⟩
          rcases List.mem_cons.mp hc with rfl | hc
          · exact hno' hoffer
          · exact hnone ⟨c, hc, hoffer⟩

/-! ### The spans of the candidates -/

theorem fences_forward (t : Str) (skip pos : Nat) :
    ∀ m ∈ fences skip pos t, m.1.1 ≤ m.1.2 := by
  induction t generalizing skip pos with
  | nil => simp [fences]
  | cons c rest ih =>
    cases skip with
    | succ skip => simpa [fences] using ih skip (pos + 1)
    | zero =>
      rcases e : fenceMatch (c :: rest) with - | ⟨raw, len⟩
      · simpa [fences, e] using ih 0 (pos + 1)
      · simp only [fences, e, List.mem_cons]
        rintro m (rfl | hm)
        · exact Nat.le_add_right _ _
        · exact ih _ _ m hm

theorem fencedCandidates_span {codec : JsonCodec} (marks : List (Span × Str))
    {candidates : List Candidate} (h : fencedCandidates codec marks = some candidates) :
    ∀ c ∈ candidates, ∃ m ∈ marks, c.span = m.1 := by
  induction marks generalizing candidates with
  | nil =>
    cases h
    simp
  | cons m rest ih =>
    obtain ⟨span, raw⟩ := m
    simp only [fencedCandidates, Option.bind_eq_bind, Option.bind_eq_some_iff,
      Option.some.injEq] at h
    obtain ⟨values, -, others, hothers, rfl⟩ := h
    intro c hc
    rcases List.mem_append.mp hc with hnew | hold
    · obtain ⟨v, -, rfl⟩ := List.mem_map.mp hnew
      exact ⟨(span, raw), by simp, rfl⟩
    · obtain ⟨m, hm, heq⟩ := ih hothers c hold
      exact ⟨m, by simp [hm], heq⟩

theorem bareCandidates_forward {codec : JsonCodec} {text : Str} (rest : Str) {idx : Nat}
    {candidates : List Candidate} (h : bareCandidates codec text idx rest = some candidates) :
    ∀ c ∈ candidates, c.span.1 ≤ c.span.2 := by
  induction rest generalizing idx candidates with
  | nil =>
    cases h
    simp
  | cons char rest ih =>
    by_cases hopen : char = '{' ∨ char = '['
    · simp only [bareCandidates, hopen, if_true, Option.bind_eq_bind, Option.bind_eq_some_iff,
        Option.some.injEq] at h
      obtain ⟨values, hvalues, others, hothers, rfl⟩ := h
      intro c hc
      rcases List.mem_append.mp hc with hnew | hold
      · obtain ⟨v, hv, rfl⟩ := List.mem_map.mp hnew
        rcases e : codec.rawDecode text idx with err | w
        · cases err <;> simp [decoded, e] at hvalues
          simp [hvalues] at hv
        · simp only [decoded, e, Option.some.injEq] at hvalues
          subst hvalues
          obtain rfl := List.mem_singleton.mp hv
          exact (codec.rawDecode_span e).1.le
      · exact ih hothers c hold
    · simp only [bareCandidates, hopen, if_false] at h
      exact ih h

theorem jsonCandidates_forward {codec : JsonCodec} {text : Str} {candidates : List Candidate}
    (h : jsonCandidates codec text = some candidates) :
    ∀ c ∈ candidates, c.span.1 ≤ c.span.2 := by
  simp only [jsonCandidates, Option.bind_eq_bind, Option.bind_eq_some_iff, Option.some.injEq] at h
  obtain ⟨fenced, hfenced, bare, hbare, rfl⟩ := h
  intro c hc
  rcases List.mem_append.mp ((List.mem_insertionSort candidateBefore).mp hc) with hf | hb
  · obtain ⟨m, hm, heq⟩ := fencedCandidates_span _ hfenced c hf
    rw [heq]
    exact fences_forward _ _ _ m hm
  · exact bareCandidates_forward _ hbare c hb

/-! ### Results of the parser -/

/-- The calls and spans of a scanned text: none when the text offers no call, and some
calls when it does. -/
theorem scanCandidates_cases {codec : JsonCodec} {hex : Nat → Str} {text : Str}
    {tools : Option (List ToolDefinition)} {st : ParseState}
    (h : scanCandidates codec hex text tools = some st) :
    (OffersCall codec text tools ∧ st.toolCalls ≠ []) ∨
    (¬ OffersCall codec text tools ∧ st = .init) := by
  simp only [scanCandidates, Option.bind_eq_bind, Option.bind_eq_some_iff] at h
  obtain ⟨candidates, hcands, hvisit⟩ := h
  rcases visitCandidates_init _ hvisit with ⟨hoffer, hne⟩ | ⟨hno, hst⟩
  · exact .inl ⟨⟨candidates, hcands, hoffer⟩, hne⟩
  · refine .inr ⟨?_, hst⟩
    rintro ⟨candidates', hcands', hoffer⟩
    rw [hcands] at hcands'
    cases hcands'
    exact hno hoffer

theorem scanCandidates_forward {codec : JsonCodec} {hex : Nat → Str} {text : Str}
    {tools : Option (List ToolDefinition)} {st : ParseState}
    (h : scanCandidates codec hex text tools = some st) :
    ∀ s ∈ st.acceptedSpans, s.1 ≤ s.2 := by
  simp only [scanCandidates, Option.bind_eq_bind, Option.bind_eq_some_iff] at h
  obtain ⟨candidates, hcands, hvisit⟩ := h
  intro s hs
  rcases (visitCandidates_keep _ hvisit).2 s hs with hinit | ⟨c, hc, rfl⟩
  · simp [ParseState.init] at hinit
  · exact jsonCandidates_forward hcands c hc

/-! ### Identifiers do not matter to the scan -/

/-- Two parser states that differ in the identifiers of their calls only. -/
structure SameUpToIds (st st' : ParseState) : Prop where
  calls : st.toolCalls.map ToolCall.function = st'.toolCalls.map ToolCall.function
  seen : st.seen = st'.seen
  spans : st.acceptedSpans = st'.acceptedSpans

theorem sameUpToIds_addCall {st st' : ParseState} (h : SameUpToIds st st') (names : List Str)
    (hex hex' : Nat → Str) (item : Str × Str) :
    SameUpToIds (addCall names hex st item).1 (addCall names hex' st' item).1 ∧
      (addCall names hex st item).2 = (addCall names hex' st' item).2 := by
  obtain ⟨name, arguments⟩ := item
  by_cases hname : NameOffered names name
  · by_cases hseen : name ++ ':' :: arguments ∈ st.seen
    · have hseen' : name ++ ':' :: arguments ∈ st'.seen := h.seen ▸ hseen
      simpa [addCall, hname, hseen, hseen'] using h
    · have hseen' : name ++ ':' :: arguments ∉ st'.seen := h.seen ▸ hseen
      simp only [addCall, hname, hseen, hseen', not_true_eq_false, if_false, and_true]
      exact ⟨by simp [h.calls], by simp [h.seen], h.spans⟩
  · simpa [addCall, hname] using h

theorem sameUpToIds_addCalls {names : List Str} (hex hex' : Nat → Str)
    (items : List (Str × Str)) {st st' : ParseState} (added : Bool) (h : SameUpToIds st st') :
    SameUpToIds (addCalls names hex st added items).1 (addCalls names hex' st' added items).1 ∧
      (addCalls names hex st added items).2 = (addCalls names hex' st' added items).2 := by
  induction items generalizing st st' added with
  | nil => exact ⟨h, rfl⟩
  | cons item rest ih =>
    obtain ⟨hsame, hnew⟩ := sameUpToIds_addCall h names hex hex' item
    simp only [addCalls, hnew]
    exact ih _ hsame

theorem sameUpToIds_visitCandidate {codec : JsonCodec} {names : List Str} {hex : Nat → Str}
    (hex' : Nat → Str) {st st' last : ParseState} {candidate : Candidate} (h : SameUpToIds st st')
    (hlast : visitCandidate codec names hex st candidate = some last) :
    ∃ last', visitCandidate codec names hex' st' candidate = some last' ∧
      SameUpToIds last last' := by
  unfold visitCandidate at hlast ⊢
  rw [← h.spans]
  split at hlast
  · next hin =>
    cases hlast
    exact ⟨st', by rw [if_pos hin], h⟩
  · next hout =>
    rw [if_neg hout]
    rcases e : toolItemsFromJson codec candidate.value with - | items
    · simp [e] at hlast
    · obtain ⟨hsame, hadded⟩ := sameUpToIds_addCalls hex hex' items false h
      simp only [e, Option.bind_eq_bind, Option.bind_some, Option.some.injEq] at hlast ⊢
      refine ⟨_, rfl, ?_⟩
      rw [← hlast, hadded]
      split
      · exact ⟨hsame.calls, hsame.seen, by simp [hsame.spans]⟩
      · exact hsame

theorem sameUpToIds_visitCandidates {codec : JsonCodec} {names : List Str} {hex : Nat → Str}
    (hex' : Nat → Str) (candidates : List Candidate) {st st' last : ParseState} (h : SameUpToIds st st')
    (hlast : visitCandidates codec names hex st candidates = some last) :
    ∃ last', visitCandidates codec names hex' st' candidates = some last' ∧
      SameUpToIds last last' := by
  induction candidates generalizing st st' with
  | nil =>
    cases hlast
    exact ⟨st', rfl, h⟩
  | cons candidate rest ih =>
    simp only [visitCandidates, Option.bind_eq_bind, Option.bind_eq_some_iff] at hlast ⊢
    obtain ⟨mid, hmid, hrest⟩ := hlast
    obtain ⟨mid', hmid', hsame⟩ := sameUpToIds_visitCandidate hex' h hmid
    obtain ⟨last', hlast', hsame'⟩ := ih hsame hrest
    exact ⟨last', ⟨mid', hmid', hlast'⟩, hsame'⟩

theorem sameUpToIds_scanCandidates {codec : JsonCodec} {hex : Nat → Str} (hex' : Nat → Str)
    {text : Str} {tools : Option (List ToolDefinition)} {st : ParseState}
    (h : scanCandidates codec hex text tools = some st) :
    ∃ st', scanCandidates codec hex' text tools = some st' ∧ SameUpToIds st st' := by
  simp only [scanCandidates, Option.bind_eq_bind, Option.bind_eq_some_iff] at h ⊢
  obtain ⟨candidates, hcands, hvisit⟩ := h
  obtain ⟨st', hst', hsame⟩ :=
    sameUpToIds_visitCandidates hex' candidates ⟨rfl, rfl, rfl⟩ hvisit
  exact ⟨st', ⟨candidates, hcands, hst'⟩, hsame⟩

/-- `re.sub(r"\s+", " ", text).strip()`. -/
def cleanText (text : Str) : Str := normalize isSpace ' ' text

/-- `parse_tool_calls`: the remaining text and the calls; `none` is an escaping error. -/
def parseToolCalls (codec : JsonCodec) (hex : Nat → Str) (text : Str)
    (tools : Option (List ToolDefinition)) : Option (Str × List ToolCall) := do
  let st ← scanCandidates codec hex text tools
  some (cleanText (removeSpans text st.acceptedSpans), st.toolCalls)

theorem cleanText_eq_nil_iff {text : Str} : cleanText text = [] ↔ ∀ c ∈ text, isSpace c = true :=
  normalize_eq_nil_iff (by decide)

/-- A text that offers no call comes back with its white space normalised. -/
theorem parseToolCalls_of_not_offersCall {codec : JsonCodec} {hex : Nat → Str} {text : Str}
    {tools : Option (List ToolDefinition)} {result : Str × List ToolCall}
    (h : parseToolCalls codec hex text tools = some result)
    (hno : ¬ OffersCall codec text tools) : result = (cleanText text, []) := by
  simp only [parseToolCalls, Option.bind_eq_bind, Option.bind_eq_some_iff, Option.some.injEq] at h
  obtain ⟨st, hst, rfl⟩ := h
  rcases scanCandidates_cases hst with ⟨hoffer, -⟩ | ⟨-, rfl⟩
  · exact absurd hoffer hno
  · simp [ParseState.init, removeSpans]

/-- A text that offers a call yields calls, and the symbols outside the accepted spans. -/
theorem parseToolCalls_of_offersCall {codec : JsonCodec} {hex : Nat → Str} {text : Str}
    {tools : Option (List ToolDefinition)} {result : Str × List ToolCall}
    (h : parseToolCalls codec hex text tools = some result)
    (hoffer : OffersCall codec text tools) :
    ∃ st, scanCandidates codec hex text tools = some st ∧ st.toolCalls ≠ [] ∧
      result = (cleanText (removeSpans text st.acceptedSpans), st.toolCalls) := by
  simp only [parseToolCalls, Option.bind_eq_bind, Option.bind_eq_some_iff, Option.some.injEq] at h
  obtain ⟨st, hst, rfl⟩ := h
  rcases scanCandidates_cases hst with ⟨-, hne⟩ | ⟨hno, -⟩
  · exact ⟨st, hst, hne, rfl⟩
  · exact absurd hoffer hno

/-- `part in text`. -/
def contains (part text : Str) : Bool := (Occurrence.find part text).isSome

/-- `detect_incomplete_tool_call`: the text looks like a truncated call. -/
def detectIncompleteToolCall (text : Str) : Bool :=
  (contains ['{', '"', 'n', 'a', 'm', 'e', '"'] text || contains ['[', '{'] text) &&
    (decide (text.count '}' < text.count '{') || decide (text.count ']' < text.count '['))

end InferBridge
