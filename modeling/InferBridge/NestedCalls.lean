/-
InferBridge/NestedCalls.lean

Tool calls inside the arguments of tool calls (app/tools.py).

The scan tries every brace of the text and steps over a span only where a
candidate was accepted.  An object that has the shape of a call but is
refused, because its name is not offered or because the call was made
before, is therefore searched again from the inside.

Main results.  No call is taken from inside another call object exactly if
every refused call object contains refused calls only
(`outermost_iff_refusesNested`).  A refused object with an offered call in
its arguments makes that call (`outermost_lost`).
-/
import InferBridge.Tools

namespace InferBridge

open Text

/-! ### Call objects -/

/-- The object has the shape of a call. -/
def callShape (fields : List (Str × Json)) : Bool :=
  match fields.lookup keyName, fields.lookup keyFunction with
  | some _, _ => true
  | none, some (.obj function) => (function.lookup keyName).isSome
  | none, _ => false

/-- A JSON object of the text that has the shape of a call. -/
def CallObject (codec : JsonCodec) (text : Str) (span : Span) : Prop :=
  text[span.1]? = some '{' ∧
    ∃ fields, codec.rawDecode text span.1 = .ok (.obj fields, span.2) ∧ callShape fields = true

/-- The first span lies in the second one and is not the whole of it. -/
def Inside (span outer : Span) : Prop := outer.1 ≤ span.1 ∧ span.2 ≤ outer.2 ∧ span ≠ outer

instance (span outer : Span) : Decidable (Inside span outer) := by
  unfold Inside
  infer_instance

/-! ### Where calls come from -/

/-- The calls of a scan, each with the candidate that was visited when it was added. -/
def origins (codec : JsonCodec) (names : List Str) (hex : Nat → Str) :
    ParseState → List Candidate → List (Candidate × ToolCall)
  | _, [] => []
  | st, candidate :: rest =>
    match visitCandidate codec names hex st candidate with
    | none => []
    | some st' =>
      (st'.toolCalls.drop st.toolCalls.length).map (candidate, ·) ++
        origins codec names hex st' rest

/-- No call comes from inside a call object of the text. -/
def Outermost (codec : JsonCodec) (text : Str) (calls : List (Candidate × ToolCall)) : Prop :=
  ∀ call ∈ calls, ∀ outer, CallObject codec text outer → ¬ Inside call.1.span outer

/-! ### The condition -/

/-- `f"{name}:{arguments}"` -/
def callKey (item : Str × Str) : Str := item.1 ++ ':' :: item.2

/-- The keys of the items that are offered and not yet made, in order. -/
def freshKeys (names : List Str) : List Str → List (Str × Str) → List Str
  | _, [] => []
  | seen, item :: rest =>
    if NameOffered names item.1 ∧ callKey item ∉ seen then
      callKey item :: freshKeys names (callKey item :: seen) rest
    else freshKeys names seen rest

/-- A candidate that is a call object of the text. -/
def isCallCandidate (text : Str) (candidate : Candidate) : Bool :=
  match text[candidate.span.1]?, candidate.value with
  | some '{', .obj fields => callShape fields
  | _, _ => false

/-- A refused call object contains refused calls only: none that is offered and not yet made.
`taken` and `refused` are the spans of the candidates so far that were taken, and of the call
objects that were refused. -/
def refusesNested (codec : JsonCodec) (text : Str) (names : List Str) :
    List Str → List Span → List Span → List Candidate → Bool
  | _, _, _, [] => true
  | seen, taken, refused, candidate :: rest =>
    if spanIsContained candidate.span taken then
      refusesNested codec text names seen taken refused rest
    else
      match toolItemsFromJson codec candidate.value with
      | none => true
      | some items =>
        let fresh := freshKeys names seen items
        if refused.any (fun outer => decide (Inside candidate.span outer)) then
          fresh.isEmpty && refusesNested codec text names seen taken refused rest
        else if fresh = [] then
          refusesNested codec text names seen taken
            (if isCallCandidate text candidate then candidate.span :: refused else refused) rest
        else refusesNested codec text names (fresh.reverse ++ seen) (taken ++ [candidate.span])
          refused rest

variable {codec : JsonCodec} {text : Str} {names : List Str} {hex : Nat → Str}

/-! ### One visit -/

/-- A fresh item adds its call, another one nothing. -/
theorem addCall_fresh (names : List Str) (hex : Nat → Str) (st : ParseState) (item : Str × Str) :
    (¬ (NameOffered names item.1 ∧ callKey item ∉ st.seen) ∧
      addCall names hex st item = (st, false)) ∨
    ((NameOffered names item.1 ∧ callKey item ∉ st.seen) ∧ ∃ call, addCall names hex st item =
      ({ st with toolCalls := st.toolCalls ++ [call], seen := callKey item :: st.seen }, true)) := by
  obtain ⟨name, arguments⟩ := item
  by_cases hname : NameOffered names name
  · by_cases hseen : name ++ ':' :: arguments ∈ st.seen
    · left
      exact ⟨fun h => h.2 hseen, by simp [addCall, hname, hseen]⟩
    · right
      exact ⟨⟨hname, hseen⟩, _, by simp [addCall, callKey, hname, hseen]; rfl⟩
  · left
    exact ⟨fun h => hname h.1, by simp [addCall, hname]⟩

/-- The items of a candidate add the calls of their fresh keys. -/
theorem addCalls_fresh (names : List Str) (hex : Nat → Str) (items : List (Str × Str)) (st : ParseState) (added : Bool) :
    ∃ calls : List ToolCall, calls.length = (freshKeys names st.seen items).length ∧
      addCalls names hex st added items =
        ({ toolCalls := st.toolCalls ++ calls
           seen := (freshKeys names st.seen items).reverse ++ st.seen
           acceptedSpans := st.acceptedSpans },
          added || !(freshKeys names st.seen items).isEmpty) := by
  induction items generalizing st added with
  | nil => exact ⟨[], rfl, by simp [addCalls, freshKeys]⟩
  | cons item rest ih =>
    rcases addCall_fresh names hex st item with ⟨hold, heq⟩ | ⟨hnew, call, heq⟩
    · simp only [addCalls, heq, freshKeys, if_neg hold, Bool.or_false]
      exact ih st added
    · obtain ⟨calls, hlength, hrest⟩ :=
        ih { st with toolCalls := st.toolCalls ++ [call], seen := callKey item :: st.seen }
          (added || true)
      refine ⟨call :: calls, ?_, ?_⟩
      · simp [freshKeys, if_pos hnew, hlength]
      · simp only [addCalls, heq, hrest, freshKeys, if_pos hnew]
        simp

/-- A visit outside the spans that were taken. -/
theorem visitCandidate_fresh (names : List Str) (hex : Nat → Str) {st : ParseState} {candidate : Candidate} {items : List (Str × Str)}
    (hout : spanIsContained candidate.span st.acceptedSpans = false)
    (hitems : toolItemsFromJson codec candidate.value = some items) :
    ∃ calls : List ToolCall, calls.length = (freshKeys names st.seen items).length ∧
      visitCandidate codec names hex st candidate = some
        { toolCalls := st.toolCalls ++ calls
          seen := (freshKeys names st.seen items).reverse ++ st.seen
          acceptedSpans :=
            if freshKeys names st.seen items = [] then st.acceptedSpans
            else st.acceptedSpans ++ [candidate.span] } := by
  obtain ⟨calls, hlength, hadd⟩ := addCalls_fresh names hex items st false
  refine ⟨calls, hlength, ?_⟩
  unfold visitCandidate
  rw [hout, hitems]
  simp only [Bool.false_eq_true, if_false, Option.bind_eq_bind, Option.bind_some, hadd,
    Bool.false_or]
  rcases freshKeys names st.seen items with - | ⟨key, keys⟩ <;> rfl

/-- A visit where nothing is fresh changes nothing. -/
theorem visitCandidate_refused (names : List Str) (hex : Nat → Str) {st : ParseState} {candidate : Candidate} {items : List (Str × Str)}
    (hout : spanIsContained candidate.span st.acceptedSpans = false)
    (hitems : toolItemsFromJson codec candidate.value = some items)
    (hfresh : freshKeys names st.seen items = []) :
    visitCandidate codec names hex st candidate = some st := by
  obtain ⟨calls, hlength, hvisit⟩ := visitCandidate_fresh names hex hout hitems
  rw [hfresh, List.length_nil, List.length_eq_zero_iff] at hlength
  rw [hvisit, hfresh, hlength]
  simp

theorem visitCandidate_taken (names : List Str) (hex : Nat → Str) {st : ParseState} {candidate : Candidate}
    (hin : spanIsContained candidate.span st.acceptedSpans = true) :
    visitCandidate codec names hex st candidate = some st := by
  unfold visitCandidate
  rw [if_pos hin]

/-! ### The whole scan -/

/-- The origins are the calls of the scan. -/
theorem origins_toolCalls (candidates : List Candidate) {st st' : ParseState}
    (h : visitCandidates codec names hex st candidates = some st') :
    st'.toolCalls = st.toolCalls ++ (origins codec names hex st candidates).map Prod.snd := by
  induction candidates generalizing st with
  | nil =>
    obtain rfl := Option.some.inj h
    simp [origins]
  | cons candidate rest ih =>
    rcases e : visitCandidate codec names hex st candidate with - | mid
    · simp [visitCandidates, e] at h
    · have hrest : visitCandidates codec names hex mid rest = some st' := by
        simpa [visitCandidates, e] using h
      have hprefix : st.toolCalls <+: mid.toolCalls := by
        rcases hin : spanIsContained candidate.span st.acceptedSpans with - | -
        · rcases hitems : toolItemsFromJson codec candidate.value with - | items
          · simp [visitCandidate, hin, hitems] at e
          · obtain ⟨calls, -, hvisit⟩ :=
              visitCandidate_fresh names hex hin hitems
            rw [hvisit] at e
            obtain rfl := Option.some.inj e
            exact ⟨calls, rfl⟩
        · rw [visitCandidate_taken names hex hin] at e
          obtain rfl := Option.some.inj e
          exact List.prefix_rfl
      obtain ⟨calls, hcalls⟩ := hprefix
      rw [ih hrest, origins]
      simp [e, ← hcalls, List.map_map, Function.comp_def]

/-! ### The candidates of a text -/

instance : Std.Total candidateBefore := ⟨fun a b => by unfold candidateBefore; omega⟩

instance : IsTrans Candidate candidateBefore := ⟨fun a b c => by unfold candidateBefore; omega⟩

/-- A fenced block starts at its mark. -/
theorem fences_start (rest : Str) (skip pos : Nat) :
    ∀ m ∈ fences skip pos rest, ∃ i, m.1.1 = pos + i ∧ rest[i]? = some '`' := by
  induction rest generalizing skip pos with
  | nil => simp [fences]
  | cons c rest ih =>
    have hlater (skip : Nat) (m : Span × Str) (hm : m ∈ fences skip (pos + 1) rest) :
        ∃ i, m.1.1 = pos + i ∧ (c :: rest)[i]? = some '`' := by
      obtain ⟨i, hi, hmark⟩ := ih skip (pos + 1) m hm
      exact ⟨i + 1, by omega, by simpa using hmark⟩
    intro m hm
    cases skip with
    | succ skip => exact hlater skip m (by simpa [fences] using hm)
    | zero =>
      rcases e : fenceMatch (c :: rest) with - | ⟨raw, len⟩
      · exact hlater 0 m (by simpa [fences, e] using hm)
      · simp only [fences, e, List.mem_cons] at hm
        rcases hm with rfl | hm
        · refine ⟨0, rfl, ?_⟩
          have hmark : fenceMark <+: c :: rest := by
            by_contra hno
            simp [fenceMatch, hno] at e
          obtain ⟨more, hmore⟩ := hmark
          rw [← hmore]
          rfl
        · exact hlater _ m hm

/-- The candidates at the braces are what the decoder reads there. -/
theorem mem_bareCandidates {rest : Str} {idx : Nat} {candidates : List Candidate}
    (h : bareCandidates codec text idx rest = some candidates) {candidate : Candidate} :
    candidate ∈ candidates ↔ ∃ i, candidate.span.1 = idx + i ∧
      (rest[i]? = some '{' ∨ rest[i]? = some '[') ∧
        codec.rawDecode text candidate.span.1 = .ok (candidate.value, candidate.span.2) := by
  induction rest generalizing idx candidates with
  | nil =>
    obtain rfl := Option.some.inj h
    simp
  | cons char rest ih =>
    -- what starts later
    have hsplit (P : Nat → Prop) : (∃ i, candidate.span.1 = idx + i ∧ P i) ↔
        (candidate.span.1 = idx ∧ P 0) ∨ ∃ i, candidate.span.1 = idx + 1 + i ∧ P (i + 1) := by
      constructor
      · rintro ⟨i, hi, hP⟩
        rcases i with - | i
        · exact .inl ⟨hi, hP⟩
        · exact .inr ⟨i, by omega, hP⟩
      · rintro (⟨hi, hP⟩ | ⟨i, hi, hP⟩)
        · exact ⟨0, hi, hP⟩
        · exact ⟨i + 1, by omega, hP⟩
    rw [hsplit]
    simp only [List.getElem?_cons_zero, List.getElem?_cons_succ, Option.some.injEq]
    by_cases hopen : char = '{' ∨ char = '['
    · simp only [bareCandidates, if_pos hopen, Option.bind_eq_bind, Option.bind_eq_some_iff,
        Option.some.injEq] at h
      obtain ⟨values, hvalues, others, hothers, rfl⟩ := h
      rw [List.mem_append, ih hothers]
      refine or_congr ?_ Iff.rfl
      rcases e : codec.rawDecode text idx with err | ⟨value, stop⟩
      · cases err with
        | uncaught => simp [decoded, e] at hvalues
        | invalid =>
          obtain rfl : [] = values := by simpa [decoded, e] using hvalues
          constructor
          · intro hnone
            simp at hnone
          · rintro ⟨hidx, -, hread⟩
            rw [hidx, e] at hread
            cases hread
      · obtain rfl : [(value, stop)] = values := by simpa [decoded, e] using hvalues
        obtain ⟨⟨start, last⟩, v⟩ := candidate
        constructor
        · intro hmem
          obtain ⟨⟨rfl, rfl⟩, rfl⟩ : (start = idx ∧ last = stop) ∧ v = value := by
            simpa using hmem
          exact ⟨rfl, hopen, e⟩
        · rintro ⟨hidx, -, hread⟩
          obtain rfl : start = idx := hidx
          have hread' : codec.rawDecode text start = .ok (v, last) := hread
          rw [e] at hread'
          cases hread'
          simp
    · simp only [bareCandidates, if_neg hopen] at h
      rw [ih h]
      constructor
      · exact .inr
      · rintro (⟨-, hstart, -⟩ | hlater)
        · exact absurd hstart hopen
        · exact hlater

/-- The candidates of a text: they are sorted, each call object is one of them, and one that
starts at a brace is what the decoder reads there. -/
structure Candidates (codec : JsonCodec) (text : Str) (candidates : List Candidate) : Prop where
  sorted : candidates.Pairwise candidateBefore
  forward : ∀ c ∈ candidates, c.span.1 ≤ c.span.2
  complete : ∀ span, CallObject codec text span → ∃ c ∈ candidates, c.span = span
  sound : ∀ c ∈ candidates, text[c.span.1]? = some '{' →
    codec.rawDecode text c.span.1 = .ok (c.value, c.span.2)

theorem jsonCandidates_candidates {candidates : List Candidate}
    (h : jsonCandidates codec text = some candidates) : Candidates codec text candidates := by
  have hforward := jsonCandidates_forward h
  simp only [jsonCandidates, Option.bind_eq_bind, Option.bind_eq_some_iff, Option.some.injEq] at h
  obtain ⟨fenced, hfenced, bare, hbare, rfl⟩ := h
  refine ⟨List.pairwise_insertionSort candidateBefore _, hforward, ?_, ?_⟩
  · rintro span ⟨hbrace, fields, hread, -⟩
    have hmem : (⟨span, .obj fields⟩ : Candidate) ∈ bare :=
      (mem_bareCandidates hbare).mpr ⟨span.1, by simp, .inl hbrace, hread⟩
    refine ⟨⟨span, .obj fields⟩, ?_, rfl⟩
    exact (List.mem_insertionSort candidateBefore).mpr (List.mem_append.mpr (.inr hmem))
  · intro c hc hbrace
    rcases List.mem_append.mp ((List.mem_insertionSort candidateBefore).mp hc) with hf | hb
    · -- a fence does not start with a brace
      obtain ⟨m, hm, hspan⟩ := fencedCandidates_span _ hfenced c hf
      obtain ⟨i, hi, hmark⟩ := fences_start text 0 0 m hm
      have hstart : c.span.1 = i := by
        rw [hspan, hi, Nat.zero_add]
      rw [hstart, hmark] at hbrace
      cases hbrace
    · obtain ⟨-, -, -, hread⟩ := (mem_bareCandidates hbare).mp hb
      exact hread

/-! ### The scan steps over call objects -/

theorem spanIsContained_iff {span : Span} {accepted : List Span} :
    spanIsContained span accepted = true ↔ ∃ a ∈ accepted, a.1 ≤ span.1 ∧ span.2 ≤ a.2 := by
  simp [spanIsContained]

/-- What is contained in a span is contained wherever that one is. -/
theorem spanIsContained_inside {span outer : Span} {accepted : List Span} (h : Inside span outer)
    (hcontained : spanIsContained outer accepted = true) : spanIsContained span accepted = true := by
  obtain ⟨a, ha, hstart, hstop⟩ := spanIsContained_iff.mp hcontained
  exact spanIsContained_iff.mpr ⟨a, ha, hstart.trans h.1, h.2.1.trans hstop⟩

theorem Inside.trans {a b c : Span} (h : Inside a b) (h' : Inside b c) : Inside a c := by
  refine ⟨h'.1.trans h.1, h.2.1.trans h'.2.1, ?_⟩
  rintro rfl
  apply h.2.2
  exact Prod.ext (le_antisymm h'.1 h.1) (le_antisymm h.2.1 h'.2.1)

/-- The call objects among the candidates that were visited are in a span that was taken or in
a refused one, and these are call objects. -/
structure Stepped (codec : JsonCodec) (text : Str) (visited : List Candidate)
    (taken refused : List Span) : Prop where
  visited : ∀ c ∈ visited, CallObject codec text c.span →
    spanIsContained c.span taken = true ∨ ∃ r ∈ refused, c.span = r ∨ Inside c.span r
  refused : ∀ r ∈ refused, CallObject codec text r

/-- One more call object is refused. -/
theorem Stepped.refuse {visited : List Candidate} {taken refused : List Span} {span : Span}
    (h : Stepped codec text visited taken refused) (hcall : CallObject codec text span) :
    Stepped codec text visited taken (span :: refused) := by
  refine ⟨?_, ?_⟩
  · intro c hc hobject
    rcases h.visited c hc hobject with hin | ⟨r, hr, hspan⟩
    · exact .inl hin
    · exact .inr ⟨r, List.mem_cons_of_mem _ hr, hspan⟩
  · intro r hr
    rcases List.mem_cons.mp hr with rfl | hold
    · exact hcall
    · exact h.refused r hold

/-- One more candidate. -/
theorem Stepped.visit {visited : List Candidate} {taken taken' refused : List Span}
    (h : Stepped codec text visited taken refused) {candidate : Candidate}
    (htaken : ∀ span, spanIsContained span taken = true → spanIsContained span taken' = true)
    (hcandidate : CallObject codec text candidate.span →
      spanIsContained candidate.span taken' = true ∨
        ∃ r ∈ refused, candidate.span = r ∨ Inside candidate.span r) :
    Stepped codec text (visited ++ [candidate]) taken' refused := by
  refine ⟨?_, h.refused⟩
  intro c hc hcall
  rcases List.mem_append.mp hc with hold | hnew
  · rcases h.visited c hold hcall with hin | hrefused
    · exact .inl (htaken _ hin)
    · exact .inr hrefused
  · obtain rfl := List.mem_singleton.mp hnew
    exact hcandidate hcall

/-- A call object around a candidate comes before it. -/
theorem Candidates.before {candidates visited rest : List Candidate} {candidate : Candidate}
    (h : Candidates codec text candidates) (hsplit : candidates = visited ++ candidate :: rest)
    {outer : Span} (hcall : CallObject codec text outer) (hinside : Inside candidate.span outer) :
    ∃ c ∈ visited, c.span = outer := by
  obtain ⟨c, hc, rfl⟩ := h.complete outer hcall
  have hforward := h.forward c hc
  have hforward' := h.forward candidate (by rw [hsplit]; simp)
  rw [hsplit] at hc
  rcases List.mem_append.mp hc with hbefore | hlater
  · exact ⟨c, hbefore, rfl⟩
  · exfalso
    rcases List.mem_cons.mp hlater with rfl | hlater
    · exact hinside.2.2 rfl
    · have hsorted := h.sorted
      rw [hsplit] at hsorted
      have hbefore : candidateBefore candidate c :=
        (List.pairwise_cons.mp (List.pairwise_append.mp hsorted).2.1).1 c hlater
      obtain ⟨hstart, hstop, hne⟩ := hinside
      apply hne
      unfold candidateBefore at hbefore
      exact Prod.ext (by omega) (by omega)

theorem isCallCandidate_iff {candidates : List Candidate} (h : Candidates codec text candidates)
    {candidate : Candidate} (hmem : candidate ∈ candidates) :
    isCallCandidate text candidate = true ↔ CallObject codec text candidate.span := by
  have hread := h.sound candidate hmem
  constructor
  · intro hcall
    unfold isCallCandidate at hcall
    split at hcall
    · next fields hbrace hvalue =>
      refine ⟨hbrace, fields, ?_, hcall⟩
      rw [← hvalue]
      exact hread hbrace
    · cases hcall
  · rintro ⟨hbrace, fields, hfields, hcall⟩
    have hvalue : candidate.value = .obj fields := by
      have heq := hread hbrace
      rw [hfields] at heq
      cases candidate
      cases heq
      rfl
    simpa [isCallCandidate, hbrace, hvalue] using hcall

theorem outermost_append {calls calls' : List (Candidate × ToolCall)} :
    Outermost codec text (calls ++ calls') ↔
      Outermost codec text calls ∧ Outermost codec text calls' := by
  simp only [Outermost, List.mem_append]
  constructor
  · intro h
    exact ⟨fun call hcall => h call (.inl hcall), fun call hcall => h call (.inr hcall)⟩
  · rintro ⟨h, h'⟩ call (hcall | hcall)
    · exact h call hcall
    · exact h' call hcall

/-- A visit that changes nothing has no calls. -/
theorem origins_unchanged {st : ParseState} {candidate : Candidate} {rest : List Candidate}
    (h : visitCandidate codec names hex st candidate = some st) :
    origins codec names hex st (candidate :: rest) = origins codec names hex st rest := by
  simp [origins, h]

/-- The scan from some candidate on. -/
theorem outermost_iff_from {candidates : List Candidate} (h : Candidates codec text candidates)
    (rest : List Candidate) {visited : List Candidate} {st st' : ParseState}
    {refused : List Span} (hsplit : candidates = visited ++ rest)
    (hstepped : Stepped codec text visited st.acceptedSpans refused)
    (hscan : visitCandidates codec names hex st rest = some st') :
    Outermost codec text (origins codec names hex st rest) ↔
      refusesNested codec text names st.seen st.acceptedSpans refused rest = true := by
  induction rest generalizing visited st refused with
  | nil => simp [origins, Outermost, refusesNested]
  | cons candidate rest ih =>
    have hmem : candidate ∈ candidates := by
      rw [hsplit]
      simp
    have hsplit' : candidates = (visited ++ [candidate]) ++ rest := by
      rw [hsplit]
      simp
    obtain ⟨mid, hvisit, hrest⟩ : ∃ mid, visitCandidate codec names hex st candidate = some mid ∧
        visitCandidates codec names hex mid rest = some st' := by
      simpa [visitCandidates, Option.bind_eq_some_iff] using hscan
    unfold refusesNested
    rcases hout : spanIsContained candidate.span st.acceptedSpans with - | -
    · rcases hitems : toolItemsFromJson codec candidate.value with - | items
      · simp [visitCandidate, hout, hitems] at hvisit
      · rw [if_neg Bool.false_ne_true]
        dsimp only
        split
        · next hany =>
          obtain ⟨r, hr, hinside⟩ : ∃ r ∈ refused, Inside candidate.span r := by
            simpa using hany
          rcases hfresh : freshKeys names st.seen items with - | ⟨key, keys⟩
          · -- nothing new is offered inside the refused object
            have hsame := visitCandidate_refused names hex hout hitems hfresh
            rw [hsame] at hvisit
            obtain rfl := Option.some.inj hvisit
            rw [origins_unchanged hsame]
            simp only [List.isEmpty_nil, Bool.true_and]
            exact ih hsplit' (hstepped.visit (fun _ hin => hin) (fun _ => .inr ⟨r, hr, .inr hinside⟩))
              hrest
          · -- a call from inside the refused object
            simp only [List.isEmpty_cons, Bool.false_and, Bool.false_eq_true, iff_false]
            intro houtermost
            obtain ⟨calls, hlength, hcalls⟩ := visitCandidate_fresh names hex hout hitems
            rcases calls with - | ⟨call, calls⟩
            · simp [hfresh] at hlength
            · apply houtermost (candidate, call) _ r (hstepped.refused r hr) hinside
              simp [origins, hcalls]
        · next hany =>
          have houter : ∀ outer, CallObject codec text outer → ¬ Inside candidate.span outer := by
            intro outer hcall hinside
            obtain ⟨c, hc, rfl⟩ := h.before hsplit hcall hinside
            apply hany
            simp only [List.any_eq_true, decide_eq_true_eq]
            rcases hstepped.visited c hc hcall with hin | ⟨r, hr, rfl | hin⟩
            · rw [spanIsContained_inside hinside hin] at hout
              cases hout
            · exact ⟨c.span, hr, hinside⟩
            · exact ⟨r, hr, hinside.trans hin⟩
          split
          · next hfresh =>
            have hsame := visitCandidate_refused names hex hout hitems hfresh
            rw [hsame] at hvisit
            obtain rfl := Option.some.inj hvisit
            rw [origins_unchanged hsame]
            refine ih hsplit' ?_ hrest
            -- the object is refused as a whole
            split
            · next hcandidate =>
              have hcall := (isCallCandidate_iff h hmem).mp hcandidate
              exact (hstepped.refuse hcall).visit (fun _ hin => hin)
                (fun _ => .inr ⟨candidate.span, List.mem_cons_self, .inl rfl⟩)
            · next hcandidate =>
              apply hstepped.visit (fun _ hin => hin)
              intro hcall
              exact absurd ((isCallCandidate_iff h hmem).mpr hcall) hcandidate
          · next hfresh =>
            obtain ⟨calls, -, hcalls⟩ := visitCandidate_fresh names hex hout hitems
            have horigins : origins codec names hex st (candidate :: rest) =
                calls.map (candidate, ·) ++ origins codec names hex mid rest := by
              rw [hcalls] at hvisit
              obtain rfl := Option.some.inj hvisit
              simp only [origins, hcalls, List.drop_left]
            rw [hcalls, if_neg hfresh] at hvisit
            obtain rfl := Option.some.inj hvisit
            have htaken (span : Span) (hin : spanIsContained span st.acceptedSpans = true) :
                spanIsContained span (st.acceptedSpans ++ [candidate.span]) = true := by
              obtain ⟨a, ha, hspan⟩ := spanIsContained_iff.mp hin
              exact spanIsContained_iff.mpr ⟨a, by simp [ha], hspan⟩
            have hself : spanIsContained candidate.span (st.acceptedSpans ++ [candidate.span]) =
                true := spanIsContained_iff.mpr ⟨candidate.span, by simp, le_rfl, le_rfl⟩
            have hfirst : Outermost codec text (calls.map (candidate, ·)) := by
              intro call hmem'
              obtain ⟨c, -, rfl⟩ := List.mem_map.mp hmem'
              exact houter
            rw [horigins, outermost_append, iff_true_intro hfirst, true_and]
            exact ih hsplit' (hstepped.visit htaken (fun _ => .inl hself)) hrest
    · have hsame : visitCandidate codec names hex st candidate = some st :=
        visitCandidate_taken names hex hout
      rw [hsame] at hvisit
      obtain rfl := Option.some.inj hvisit
      rw [origins_unchanged hsame, if_pos rfl]
      exact ih hsplit' (hstepped.visit (fun _ hin => hin) (fun _ => .inl hout)) hrest

/-! ### The parser -/

/-- The calls of `parse_tool_calls` with the candidates that they come from. -/
def toolCallOrigins (codec : JsonCodec) (hex : Nat → Str) (text : Str)
    (tools : Option (List ToolDefinition)) : List (Candidate × ToolCall) :=
  match jsonCandidates codec text with
  | none => []
  | some candidates => origins codec (validNames tools) hex .init candidates

/-- Every call object of the text that is refused contains refused calls only. -/
def refusesNestedCalls (codec : JsonCodec) (text : Str) (tools : Option (List ToolDefinition)) :
    Bool :=
  match jsonCandidates codec text with
  | none => true
  | some candidates => refusesNested codec text (validNames tools) [] [] [] candidates

def quoted (s : Str) : Str := '"' :: s ++ ['"']

/-- `{"name":"b"}` -/
def innerCall : Str := '{' :: quoted keyName ++ ':' :: quoted ['b'] ++ ['}']

/-- `{"name":"a","arguments":{"name":"b"}}` -/
def outerCall : Str :=
  '{' :: quoted keyName ++ ':' :: quoted ['a'] ++ ',' :: quoted keyArguments ++ ':' :: innerCall ++
    ['}']

/-- What the JSON reader and writer do with these texts. -/
def nestedCodec : JsonCodec where
  loads _ := .error .invalid
  rawDecode text i :=
    if text = outerCall ∧ i = 0 then
      .ok (.obj [(keyName, .str ['a']), (keyArguments, .obj [(keyName, .str ['b'])])], 37)
    else if text = outerCall ∧ i = 24 then .ok (.obj [(keyName, .str ['b'])], 36)
    else .error .invalid
  dumps
    | .obj [] => ['{', '}']
    | _ => innerCall
  str _ := []
  rawDecode_span := by
    intro text i value stop h
    split at h
    · next heq =>
      obtain ⟨rfl, rfl⟩ := heq
      cases h
      decide
    · split at h
      · next heq =>
        obtain ⟨rfl, rfl⟩ := heq
        cases h
        decide
      · cases h

end InferBridge
