/-
InferBridge/StopSequences.lean

Stop sequences: the batch cut of `truncate_at_stop` and the incremental
scanner `StopStreamer` (app/chat_format.py), with the stream loop of the
chat endpoint that drives the scanner (app/server.py).

The text is a list over an arbitrary alphabet with decidable equality;
nothing here looks at a symbol except to compare it.

Design.  `truncateAtStop` folds over the stop list and keeps the smallest
`find` index, so it returns the least hit of the whole text
(`truncateAtStop_cases`).  `StopStreamer.feed` holds back `maxlen - 1`
symbols, which is exactly enough for no hit to begin in what was already
emitted: that is the invariant `Held`, kept by every `feed`
(`held_feed`), and it gives the meaning of a whole stream
(`streamLoop_cases`): the stream is cut at the first hit of the shortest
prefix of the pieces that contains one.

Main results: the two cuts agree on a text exactly when no stop starts
before that first hit later in the text
(`streamedText_eq_truncateAtStop_iff`), and they agree on every text in
every partition exactly when no stop has a proper prefix with a first hit
of its own after its beginning (`streamedText_agrees_iff_not_enclosing`).
A caller that feeds on never gets a stop, and gets everything where there
is none (`stopStreamer_safe`).
-/
import InferBridge.Lib.Occurrence

namespace InferBridge

open Occurrence

variable {α : Type*} [DecidableEq α]

/-! ### The stop field of a request -/

/-- The `stop` field: absent, one string, or a list whose entries may fail to be strings
(such an entry is `none`). -/
inductive StopField (α : Type*) where
  | absent
  | text (item : List α)
  | items (entries : List (Option (List α)))

/-- `normalize_stop`: coerce the field to a clean list. -/
def normalizeStop : StopField α → List (List α)
  | .absent => []
  | .text item => if item = [] then [] else [item]
  | .items entries => entries.filterMap fun entry =>
      match entry with
      | some item => if item = [] then none else some item
      | none => none

omit [DecidableEq α] in
/-- Every stop that reaches the scanner is nonempty. -/
theorem normalizeStop_nonempty (field : StopField α) :
    ∀ item ∈ normalizeStop field, item ≠ [] := by
  intro item hmem
  cases field with
  | absent => simp [normalizeStop] at hmem
  | text t =>
    by_cases ht : t = []
    · simp [normalizeStop, ht] at hmem
    · simp only [normalizeStop, ht, if_false, List.mem_singleton] at hmem
      exact hmem ▸ ht
  | items entries =>
    simp only [normalizeStop, List.mem_filterMap] at hmem
    obtain ⟨entry, -, hentry⟩ := hmem
    rcases entry with - | t
    · simp at hentry
    · by_cases ht : t = []
      · simp [ht] at hentry
      · simp only [ht, if_false, Option.some.injEq] at hentry
        exact hentry ▸ ht

/-! ### The batch cut -/

/-- One turn of the loop of `truncate_at_stop`: keep the smaller index. -/
def earlierStop (text : List α) (earliest : Option Nat) (item : List α) : Option Nat :=
  match find item text, earliest with
  | none, _ => earliest
  | some index, none => some index
  | some index, some e => if index < e then some index else some e

/-- `truncate_at_stop`: cut `text` at the earliest occurrence of any stop. -/
def truncateAtStop (text : List α) (stop : List (List α)) : List α × Bool :=
  match stop.foldl (earlierStop text) none with
  | none => (text, false)
  | some earliest => (text.take earliest, true)

/-- What the loop variable `earliest` means once the stops `ps` have been tried. -/
def IsEarliest (ps : List (List α)) (text : List α) : Option Nat → Prop
  | none => Quiet ps text
  | some i => FirstHit ps text i

omit [DecidableEq α] in
theorem hit_concat {ps : List (List α)} {p t : List α} {i : Nat} :
    Hit (ps ++ [p]) t i ↔ Hit ps t i ∨ OccursAt p t i := by
  simp [Hit, or_and_right, exists_or]

theorem isEarliest_earlierStop {ps : List (List α)} {text : List α} {e : Option Nat}
    (h : IsEarliest ps text e) (item : List α) :
    IsEarliest (ps ++ [item]) text (earlierStop text e item) := by
  rcases hf : find item text with - | index
  · -- the stop does not occur: the hits are the old ones
    have hnone := find_eq_none hf
    rcases e with - | e
    · simp only [earlierStop, hf]
      intro i hi
      rcases hit_concat.mp hi with hold | hnew
      · exact h i hold
      · exact hnone i hnew
    · simp only [earlierStop, hf]
      refine ⟨hit_concat.mpr (.inl h.hit), ?_⟩
      intro j hj hi
      rcases hit_concat.mp hi with hold | hnew
      · exact h.least j hj hold
      · exact hnone j hnew
  · obtain ⟨hocc, hfirst⟩ := find_eq_some hf
    rcases e with - | e
    · simp only [earlierStop, hf]
      refine ⟨hit_concat.mpr (.inr hocc), ?_⟩
      intro j hj hi
      rcases hit_concat.mp hi with hold | hnew
      · exact h j hold
      · exact hfirst j hj hnew
    · by_cases hlt : index < e
      · simp only [earlierStop, hf, hlt, if_true]
        refine ⟨hit_concat.mpr (.inr hocc), ?_⟩
        intro j hj hi
        rcases hit_concat.mp hi with hold | hnew
        · exact h.least j (by omega) hold
        · exact hfirst j hj hnew
      · simp only [earlierStop, hf, hlt, if_false]
        refine ⟨hit_concat.mpr (.inl h.hit), ?_⟩
        intro j hj hi
        rcases hit_concat.mp hi with hold | hnew
        · exact h.least j hj hold
        · exact hfirst j (by omega) hnew

theorem isEarliest_foldl (text : List α) (stop ps : List (List α)) (e : Option Nat)
    (h : IsEarliest ps text e) :
    IsEarliest (ps ++ stop) text (stop.foldl (earlierStop text) e) := by
  induction stop generalizing ps e with
  | nil => simpa using h
  | cons item stop ih =>
    have hnext := ih (ps ++ [item]) _ (isEarliest_earlierStop h item)
    simpa using hnext

/-- `truncateAtStop` cuts at the least hit of the text. -/
theorem truncateAtStop_cases (text : List α) (stop : List (List α)) :
    (∃ i, FirstHit stop text i ∧ truncateAtStop text stop = (text.take i, true)) ∨
    (Quiet stop text ∧ truncateAtStop text stop = (text, false)) := by
  have h := isEarliest_foldl text stop [] none (by simp [IsEarliest, Quiet, Hit])
  rw [List.nil_append] at h
  rcases e : stop.foldl (earlierStop text) none with - | i
  · rw [e] at h
    exact .inr ⟨h, by simp [truncateAtStop, e]⟩
  · rw [e] at h
    exact .inl ⟨i, h, by simp [truncateAtStop, e]⟩

theorem truncateAtStop_of_firstHit {text : List α} {stop : List (List α)} {i : Nat}
    (h : FirstHit stop text i) : truncateAtStop text stop = (text.take i, true) := by
  rcases truncateAtStop_cases text stop with ⟨j, hj, heq⟩ | ⟨hq, -⟩
  · rw [heq, hj.unique h]
  · exact absurd h.hit (hq i)

theorem truncateAtStop_of_quiet {text : List α} {stop : List (List α)}
    (h : Quiet stop text) : truncateAtStop text stop = (text, false) := by
  rcases truncateAtStop_cases text stop with ⟨j, hj, -⟩ | ⟨-, heq⟩
  · exact absurd hj.hit (h j)
  · exact heq

/-! ### The incremental scanner -/

/-- `StopStreamer`: the stops, the held-back text and the `stopped` flag. -/
structure StopStreamer (α : Type*) where
  stop : List (List α)
  buffer : List α
  stopped : Bool
deriving DecidableEq, Repr

namespace StopStreamer

/-- `StopStreamer.__init__`. -/
def init (stop : List (List α)) : StopStreamer α :=
  { stop := stop, buffer := [], stopped := false }

/-- The field `_maxlen`: the length of the longest stop, `0` without stops. -/
def maxlen (s : StopStreamer α) : Nat :=
  (s.stop.map List.length).foldr max 0

/-- `StopStreamer.feed`: the portion that is safe to emit now, and the next state. -/
def feed (s : StopStreamer α) (piece : List α) : List α × StopStreamer α :=
  if s.stop = [] then (piece, s)
  else if s.stopped then ([], s)
  else
    let buffer := s.buffer ++ piece
    match truncateAtStop buffer s.stop with
    | (text, true) => (text, { s with stopped := true, buffer := [] })
    | (_, false) =>
      let keep := s.maxlen - 1
      if keep = 0 then (buffer, { s with buffer := [] })
      else if keep < buffer.length then
        (buffer.take (buffer.length - keep), { s with buffer := buffer.drop (buffer.length - keep) })
      else ([], { s with buffer := buffer })

/-- `StopStreamer.flush`: the safely-held remainder once the stream has ended. -/
def flush (s : StopStreamer α) : List α × StopStreamer α :=
  if s.stopped then ([], s) else (s.buffer, { s with buffer := [] })

theorem feed_stop (s : StopStreamer α) (piece : List α) : (s.feed piece).2.stop = s.stop := by
  unfold feed
  split
  · rfl
  split
  · rfl
  dsimp only
  split
  · rfl
  split
  · rfl
  split <;> rfl

omit [DecidableEq α] in
theorem length_le_maxlen (s : StopStreamer α) : ∀ p ∈ s.stop, p.length ≤ s.maxlen := by
  intro p hp
  show p.length ≤ (s.stop.map List.length).foldr max 0
  generalize s.stop = stop at hp ⊢
  induction stop with
  | nil => simp at hp
  | cons q stop ih =>
    simp only [List.map_cons, List.foldr_cons]
    rcases List.mem_cons.mp hp with rfl | hmem
    · exact Nat.le_max_left _ _
    · exact (ih hmem).trans (Nat.le_max_right _ _)

end StopStreamer

/-! ### The stream loop -/

/-- What the model produces: pieces, and then perhaps an error. -/
structure Generation (α : Type*) where
  pieces : List (List α)
  raised : Bool

/-- A delta is sent only when it is nonempty. -/
def nonemptyChunk (emit : List α) : List (List α) :=
  if emit = [] then [] else [emit]

omit [DecidableEq α] in
@[simp] theorem nonemptyChunk_flatten (emit : List α) : (nonemptyChunk emit).flatten = emit := by
  by_cases h : emit = [] <;> simp [nonemptyChunk, h]

/-- The loop over the generated pieces: feed, send, break once the scanner has stopped. -/
def streamLoop (stopper : StopStreamer α) : List (List α) → List (List α) × StopStreamer α
  | [] => ([], stopper)
  | piece :: rest =>
    let (emit, stopper') := stopper.feed piece
    if stopper'.stopped then (nonemptyChunk emit, stopper')
    else
      let (chunks, last) := streamLoop stopper' rest
      (nonemptyChunk emit ++ chunks, last)

/-- The content deltas of a streamed reply without tools: the loop, then the flushed tail. -/
def streamedChunks (stop pieces : List (List α)) : List (List α) :=
  let (chunks, stopper) := streamLoop (StopStreamer.init stop) pieces
  chunks ++ nonemptyChunk stopper.flush.1

/-- The text a client assembles from the deltas. -/
def streamedText (stop pieces : List (List α)) : List α :=
  (streamedChunks stop pieces).flatten

/-! ### What the scanner holds back -/

/-- The scanner state `s` after the text `fed` came in and `emitted` went out without a
hit: nothing is lost, and once something was emitted enough is held back for no stop to
begin in the emitted part. -/
structure Held (s : StopStreamer α) (emitted fed : List α) : Prop where
  running : s.stopped = false
  text : emitted ++ s.buffer = fed
  quiet : Quiet s.stop fed
  enough : emitted = [] ∨ s.maxlen ≤ s.buffer.length + 1
  bare : s.stop = [] → s.buffer = []

omit [DecidableEq α] in
theorem quiet_of_stop_nil (t : List α) : Quiet [] t := by
  simp [Quiet, Hit]

omit [DecidableEq α] in
theorem held_init {stop : List (List α)} (hne : ∀ p ∈ stop, p ≠ []) :
    Held (StopStreamer.init stop) [] [] where
  running := rfl
  text := rfl
  quiet := by
    rintro i ⟨p, hp, hocc⟩
    exact hne p hp (occursAt_nil.mp hocc).1
  enough := .inl rfl
  bare := fun _ => rfl

omit [DecidableEq α] in
/-- A hit of the grown text lies in the grown buffer. -/
theorem Held.hit_ge {s : StopStreamer α} {emitted fed : List α} (h : Held s emitted fed)
    {piece : List α} {i : Nat} (hit : Hit s.stop (fed ++ piece) i) : emitted.length ≤ i := by
  rcases h.enough with rfl | henough
  · simp
  · have hge := h.quiet.hit_append_ge (n := s.maxlen - 1)
      (fun p hp => by have := s.length_le_maxlen p hp; omega) hit
    have hlen := congrArg List.length h.text
    rw [List.length_append] at hlen
    omega

omit [DecidableEq α] in
theorem Held.append_piece {s : StopStreamer α} {emitted fed : List α} (h : Held s emitted fed)
    (piece : List α) : fed ++ piece = emitted ++ (s.buffer ++ piece) := by
  rw [← h.text, List.append_assoc]

/-- **One `feed`.**  Either the grown text has a first hit and the scanner stops having
emitted exactly the text before it, or the text is still quiet and the invariant holds
of what was emitted so far. -/
theorem held_feed {s : StopStreamer α} {emitted fed : List α} (h : Held s emitted fed)
    (piece : List α) :
    (∃ i, FirstHit s.stop (fed ++ piece) i ∧ (s.feed piece).2.stopped = true ∧
      emitted ++ (s.feed piece).1 = (fed ++ piece).take i ∧ (s.feed piece).2.flush.1 = []) ∨
    ((s.feed piece).2.stop = s.stop ∧
      Held (s.feed piece).2 (emitted ++ (s.feed piece).1) (fed ++ piece)) := by
  by_cases hstop : s.stop = []
  · -- without stops every piece passes through
    have hfeed : s.feed piece = (piece, s) := by simp [StopStreamer.feed, hstop]
    rw [hfeed]
    refine .inr ⟨rfl, h.running, ?_, ?_, ?_, h.bare⟩
    · rw [← h.text, h.bare hstop, List.append_nil, List.append_nil]
    · rw [hstop]; exact quiet_of_stop_nil _
    · exact .inr (by simp [StopStreamer.maxlen, hstop])
  · have hgrow := h.append_piece piece
    rcases truncateAtStop_cases (s.buffer ++ piece) s.stop with ⟨i, hfirst, htr⟩ | ⟨hq, htr⟩
    · -- a stop in the buffer: the cut is the first hit of the whole text
      have hfeed : s.feed piece =
          ((s.buffer ++ piece).take i, { s with stopped := true, buffer := [] }) := by
        simp [StopStreamer.feed, hstop, h.running, htr]
      rw [hfeed]
      refine .inl ⟨emitted.length + i, ⟨?_, ?_⟩, rfl, ?_, by simp [StopStreamer.flush]⟩
      · rw [hgrow]; exact hit_append_left.mpr hfirst.hit
      · intro j hj hit
        obtain ⟨k, rfl⟩ := Nat.exists_eq_add_of_le (h.hit_ge hit)
        rw [hgrow] at hit
        exact hfirst.least k (by omega) (hit_append_left.mp hit)
      · rw [hgrow, List.take_length_add_append]
    · -- no stop in the buffer: none in the whole text either
      have hquiet : Quiet s.stop (fed ++ piece) := by
        intro i hit
        obtain ⟨k, rfl⟩ := Nat.exists_eq_add_of_le (h.hit_ge hit)
        rw [hgrow] at hit
        exact hq k (hit_append_left.mp hit)
      refine .inr ?_
      by_cases hkeep : s.maxlen - 1 = 0
      · have hfeed : s.feed piece = (s.buffer ++ piece, { s with buffer := [] }) := by
          simp [StopStreamer.feed, hstop, h.running, htr, hkeep]
        rw [hfeed]
        refine ⟨rfl, h.running, ?_, hquiet, .inr ?_, fun _ => rfl⟩
        · rw [hgrow, List.append_nil]
        · have hmax : ({ s with buffer := [] } : StopStreamer α).maxlen = s.maxlen := rfl
          rw [hmax]; simp only [List.length_nil]; omega
      · by_cases hlong : s.maxlen - 1 < (s.buffer ++ piece).length
        · have hfeed : s.feed piece =
              ((s.buffer ++ piece).take ((s.buffer ++ piece).length - (s.maxlen - 1)),
                { s with buffer :=
                    (s.buffer ++ piece).drop ((s.buffer ++ piece).length - (s.maxlen - 1)) }) := by
            simp only [StopStreamer.feed, hstop, h.running, htr, hkeep, hlong, if_true, if_false,
              Bool.false_eq_true]
          rw [hfeed]
          refine ⟨rfl, h.running, ?_, hquiet, .inr ?_, fun hs => absurd hs hstop⟩
          · rw [List.append_assoc, List.take_append_drop, hgrow]
          · show s.maxlen ≤ List.length (List.drop _ _) + 1
            rw [List.length_drop]
            omega
        · have hfeed : s.feed piece = ([], { s with buffer := s.buffer ++ piece }) := by
            simp only [StopStreamer.feed, hstop, h.running, htr, hkeep, hlong, if_false,
              Bool.false_eq_true]
          rw [hfeed]
          refine ⟨rfl, h.running, ?_, hquiet, ?_, fun hs => absurd hs hstop⟩
          · rw [List.append_nil, hgrow]
          · rcases h.enough with rfl | henough
            · exact .inl rfl
            · refine .inr ?_
              show s.maxlen ≤ List.length (s.buffer ++ piece) + 1
              rw [List.length_append]
              omega

/-! ### Whole streams -/

omit [DecidableEq α] in
theorem flatten_take_append_drop (pieces : List (List α)) (k : Nat) :
    pieces.flatten = (pieces.take k).flatten ++ (pieces.drop k).flatten := by
  rw [← List.flatten_append, List.take_append_drop]

/-- **The meaning of a stream.**  From a state that has emitted `emitted` of the quiet text
`fed`, the stream is cut at the first hit of the shortest prefix of the pieces that
contains a stop, and is the whole text when there is none. -/
theorem streamLoop_cases (pieces : List (List α)) {s : StopStreamer α} {emitted fed : List α}
    (h : Held s emitted fed) :
    (∃ k i, FirstHit s.stop (fed ++ (pieces.take k).flatten) i ∧
      (∀ k' < k, Quiet s.stop (fed ++ (pieces.take k').flatten)) ∧
      (streamLoop s pieces).2.stopped = true ∧
      emitted ++ ((streamLoop s pieces).1.flatten ++ (streamLoop s pieces).2.flush.1) =
        (fed ++ (pieces.take k).flatten).take i) ∨
    (Quiet s.stop (fed ++ pieces.flatten) ∧ (streamLoop s pieces).2.stopped = false ∧
      emitted ++ ((streamLoop s pieces).1.flatten ++ (streamLoop s pieces).2.flush.1) =
        fed ++ pieces.flatten) := by
  induction pieces generalizing s emitted fed with
  | nil =>
    refine .inr ⟨by simpa using h.quiet, h.running, ?_⟩
    simp only [streamLoop, List.flatten_nil, List.nil_append, List.append_nil]
    rw [StopStreamer.flush, h.running, ← h.text]
    rfl
  | cons piece rest ih =>
    rcases held_feed h piece with ⟨i, hfirst, hstopped, hemit, hflush⟩ | ⟨hstop, hheld⟩
    · refine .inl ⟨1, i, by simpa using hfirst, ?_, by simp [streamLoop, hstopped], ?_⟩
      · intro k' hk'
        obtain rfl : k' = 0 := by omega
        simpa using h.quiet
      simp only [streamLoop, hstopped, if_true, nonemptyChunk_flatten, hflush, List.append_nil]
      simpa using hemit
    · have hrun := hheld.running
      simp only [streamLoop, hrun, Bool.false_eq_true, if_false, List.flatten_append,
        nonemptyChunk_flatten]
      rw [List.append_assoc (s.feed piece).1, ← List.append_assoc emitted]
      rcases ih hheld with ⟨k, i, hfirst, hshort, hstopped, heq⟩ | ⟨hq, hopen, heq⟩
      · refine .inl ⟨k + 1, i, ?_, ?_, hstopped, ?_⟩
        · simpa [hstop] using hfirst
        · intro k' hk'
          cases k' with
          | zero => simpa using h.quiet
          | succ k' => simpa [hstop] using hshort k' (by omega)
        · simpa using heq
      · refine .inr ⟨?_, hopen, ?_⟩
        · simpa [hstop] using hq
        · simpa using heq

theorem streamedText_eq (stop pieces : List (List α)) :
    streamedText stop pieces = (streamLoop (StopStreamer.init stop) pieces).1.flatten ++
      (streamLoop (StopStreamer.init stop) pieces).2.flush.1 := by
  simp [streamedText, streamedChunks]

/-- The stream of a whole reply, from the fresh scanner. -/
theorem streamedText_cases {stop : List (List α)} (hne : ∀ p ∈ stop, p ≠ [])
    (pieces : List (List α)) :
    (∃ k i, FirstHit stop (pieces.take k).flatten i ∧
      (∀ k' < k, Quiet stop (pieces.take k').flatten) ∧
      streamedText stop pieces = (pieces.take k).flatten.take i) ∨
    (Quiet stop pieces.flatten ∧ streamedText stop pieces = pieces.flatten) := by
  rcases streamLoop_cases pieces (held_init hne) with
    ⟨k, i, hfirst, hshort, -, heq⟩ | ⟨hq, -, heq⟩
  · exact .inl ⟨k, i, hfirst, hshort, (streamedText_eq stop pieces).trans heq⟩
  · exact .inr ⟨hq, (streamedText_eq stop pieces).trans heq⟩

/-- The scanner is still running at the end exactly when the reply contains no stop. -/
theorem streamLoop_running_iff {stop : List (List α)} (hne : ∀ p ∈ stop, p ≠ [])
    (pieces : List (List α)) :
    (streamLoop (StopStreamer.init stop) pieces).2.stopped = false ↔
      Quiet stop pieces.flatten := by
  rcases streamLoop_cases pieces (held_init hne) with
    ⟨k, i, hfirst, -, hstopped, -⟩ | ⟨hq, hopen, -⟩
  · refine iff_of_false (by simp [hstopped]) ?_
    intro hq
    refine hq i ?_
    rw [flatten_take_append_drop pieces k]
    exact hit_append _ hfirst.hit
  · exact iff_of_true hopen hq

/-! ### Agreement of the two cuts -/

/-- No stop of the whole text starts before the first stop of a prefix of the pieces that
already contains one. -/
def NoEarlierStopLater (stop pieces : List (List α)) : Prop :=
  ∀ k i j, FirstHit stop (pieces.take k).flatten i → Hit stop pieces.flatten j → i ≤ j

/-- **Streaming and batch agree on a reply exactly when no earlier stop completes later.** -/
theorem streamedText_eq_truncateAtStop_iff (stop pieces : List (List α))
    (hne : ∀ p ∈ stop, p ≠ []) :
    streamedText stop pieces = (truncateAtStop pieces.flatten stop).1 ↔
      NoEarlierStopLater stop pieces := by
  rcases streamedText_cases hne pieces with ⟨k, i, hfirst, hshort, heq⟩ | ⟨hq, heq⟩
  · -- the stream was cut at `i`; the batch is cut at the least hit `j` of the whole text
    have hsplit := flatten_take_append_drop pieces k
    have hwhole : Hit stop pieces.flatten i := by
      rw [hsplit]
      exact hit_append _ hfirst.hit
    obtain ⟨j, hji, hj⟩ := hwhole.exists_first
    have hi := hfirst.hit.le_length
    have hcut : streamedText stop pieces = pieces.flatten.take i := by
      rw [heq, hsplit, List.take_append_of_le_length hi]
    rw [hcut, truncateAtStop_of_firstHit hj]
    constructor
    · intro htake k' i' j' hi' hj'
      have hlen := congrArg List.length htake
      simp only [List.length_take] at hlen
      have hile := hwhole.le_length
      obtain rfl : i = j := by omega
      -- a prefix with a hit is at least as long as the one the stream was cut in
      have hk : k ≤ k' := by
        by_contra hlt
        exact hshort k' (by omega) i' hi'.hit
      have hhit : Hit stop (pieces.take k').flatten i := by
        have htt : pieces.take k = (pieces.take k').take k := by
          rw [List.take_take, Nat.min_eq_left hk]
        have hsplit' := flatten_take_append_drop (pieces.take k') k
        rw [hsplit', ← htt]
        exact hit_append _ hfirst.hit
      have hle : i' ≤ i := by
        by_contra hlt
        exact hi'.least i (by omega) hhit
      have hle' : i ≤ j' := by
        by_contra hlt
        exact hj.least j' (by omega) hj'
      omega
    · intro hno
      have hle := hno k i j hfirst hj.hit
      rw [Nat.le_antisymm hle hji]
  · rw [heq, truncateAtStop_of_quiet hq]
    exact ⟨fun _ k i j _ hj => absurd hj (hq j), fun _ => rfl⟩

/-- The stops `ab` and `abc` around `b`: the stream is cut at the `b` that completes first,
the batch at the `abc` that starts first. -/
theorem streamedText_eq_truncateAtStop_iff_digits :
    streamedText [[1, 2, 3], [2]] [[1, 2, 3]] = (truncateAtStop [1, 2, 3] [[1, 2, 3], [2]]).1 ↔
      NoEarlierStopLater [[1, 2, 3], [2]] [[1, 2, 3]] :=
  streamedText_eq_truncateAtStop_iff [[1, 2, 3], [2]] [[1, 2, 3]] (by decide)

/-- The stream emits `a` where the batch emits nothing: in `abc` cut into `ab` and `c` the
stop `b` completes before the stop `abc`, which starts before it. -/
theorem streamedText_ne_truncateAtStop :
    ¬ ∀ stop pieces : List (List Char), (∀ p ∈ stop, p ≠ []) →
      streamedText stop pieces = (truncateAtStop pieces.flatten stop).1 := by
  intro h
  have hbad := h [['a', 'b', 'c'], ['b']] [['a', 'b'], ['c']] (by decide)
  revert hbad
  decide

/-! ### Stop lists for which every reply agrees -/

/-- Some stop has a proper prefix whose first hit is not at its beginning. -/
def Enclosing (stop : List (List α)) : Prop :=
  ∃ p ∈ stop, ∃ k < p.length, ∃ i, 0 < i ∧ FirstHit stop (p.take k) i

omit [DecidableEq α] in
theorem noEarlierStopLater_of_not_enclosing {stop : List (List α)} (h : ¬ Enclosing stop)
    (pieces : List (List α)) : NoEarlierStopLater stop pieces := by
  intro k i j hi hj
  by_contra hlt
  have hle : j ≤ i := by omega
  obtain ⟨p, hp, hocc⟩ := hj
  have hsplit := flatten_take_append_drop pieces k
  generalize (pieces.take k).flatten = seen at hi hsplit
  have hj_le : j ≤ seen.length := hle.trans hi.hit.le_length
  rw [hsplit] at hocc
  -- the stop `p` reaches past what was seen, so what was seen from `j` on is a prefix of it
  have hlong : seen.length < j + p.length := by
    by_contra hshort
    exact hi.least j (by omega) ⟨p, hp, occursAt_of_append hocc (by omega)⟩
  have hpre := hocc.2
  rw [List.drop_append_of_le_length hj_le] at hpre
  have htake : seen.drop j = p.take (seen.length - j) := by
    have hseen : seen.drop j <+: p := by
      refine List.prefix_of_prefix_length_le (List.prefix_append _ _) hpre ?_
      rw [List.length_drop]
      omega
    rw [List.prefix_iff_eq_take.mp hseen, List.length_drop]
  refine h ⟨p, hp, seen.length - j, by omega, i - j, by omega, ?_⟩
  rw [← htake]
  exact hi.drop hle

/-- **Agreement on all replies.**  Streaming and batch agree on every text in every
partition exactly when no stop has a proper prefix with a later-starting first hit. -/
theorem streamedText_agrees_iff_not_enclosing {stop : List (List α)}
    (hne : ∀ p ∈ stop, p ≠ []) :
    (∀ pieces, streamedText stop pieces = (truncateAtStop pieces.flatten stop).1) ↔
      ¬ Enclosing stop := by
  constructor
  · rintro hall ⟨p, hp, k, -, i, hpos, hfirst⟩
    have hagree := hall [p.take k, p.drop k]
    rw [streamedText_eq_truncateAtStop_iff _ _ hne] at hagree
    have hzero : Hit stop [p.take k, p.drop k].flatten 0 :=
      ⟨p, hp, by simp [occursAt_zero]⟩
    have hle := hagree 1 i 0 (by simpa using hfirst) hzero
    omega
  · intro h pieces
    exact (streamedText_eq_truncateAtStop_iff _ _ hne).mpr
      (noEarlierStopLater_of_not_enclosing h pieces)

/-! ### Feeding past the stop -/

/-- The portions of a sequence of feeds, and the state after them. -/
def StopStreamer.feedAll (s : StopStreamer α) :
    List (List α) → List (List α) × StopStreamer α
  | [] => ([], s)
  | piece :: rest =>
    let (emit, s') := s.feed piece
    let (emits, last) := s'.feedAll rest
    (emit :: emits, last)

omit [DecidableEq α] in
theorem hit_iff_infix {ps : List (List α)} {t : List α} :
    (∃ i, Hit ps t i) ↔ ∃ p ∈ ps, p <:+: t := by
  constructor
  · rintro ⟨i, p, hp, -, hocc⟩
    exact ⟨p, hp, hocc.isInfix.trans (List.drop_suffix i t).isInfix⟩
  · rintro ⟨p, hp, u, v, rfl⟩
    refine ⟨u.length, p, hp, ?_, ?_⟩
    · simp only [List.length_append]
      omega
    · rw [List.append_assoc, List.drop_left]
      exact List.prefix_append p v

omit [DecidableEq α] in
theorem Quiet.of_append {ps : List (List α)} {t u : List α} (h : Quiet ps (t ++ u)) :
    Quiet ps t :=
  fun i hit => h i (hit_append u hit)

/-- The scanner has stopped: what went out is a part of what came in before the first stop. -/
structure Halted (s : StopStreamer α) (emitted fed : List α) : Prop where
  stopped : s.stopped = true
  hit : ∃ i, Hit s.stop fed i
  text : emitted <+: fed
  quiet : Quiet s.stop emitted

omit [DecidableEq α] in
theorem Halted.stop_ne_nil {s : StopStreamer α} {emitted fed : List α}
    (h : Halted s emitted fed) : s.stop ≠ [] := by
  intro hnil
  obtain ⟨i, hit⟩ := h.hit
  rw [hnil] at hit
  exact quiet_of_stop_nil fed i hit

/-- A stopped scanner lets nothing out. -/
theorem halted_feed {s : StopStreamer α} {emitted fed : List α} (h : Halted s emitted fed)
    (piece : List α) :
    (s.feed piece).2.stop = s.stop ∧
      Halted (s.feed piece).2 (emitted ++ (s.feed piece).1) (fed ++ piece) := by
  have hfeed : s.feed piece = ([], s) := by
    simp [StopStreamer.feed, h.stop_ne_nil, h.stopped]
  rw [hfeed]
  show s.stop = s.stop ∧ Halted s (emitted ++ []) (fed ++ piece)
  rw [List.append_nil]
  obtain ⟨i, hit⟩ := h.hit
  exact ⟨rfl, h.stopped, ⟨i, hit_append piece hit⟩, h.text.trans (List.prefix_append fed piece),
    h.quiet⟩

omit [DecidableEq α] in
/-- What goes out up to the first stop contains none. -/
theorem FirstHit.quiet_take {ps : List (List α)} {t : List α} {i : Nat}
    (hne : ∀ p ∈ ps, p ≠ []) (h : FirstHit ps t i) : Quiet ps (t.take i) := by
  rintro j ⟨p, hp, hocc⟩
  have hend := hocc.end_le
  have hlen := List.length_pos_of_ne_nil (hne p hp)
  rw [List.length_take] at hend
  refine h.least j (by omega) ⟨p, hp, ?_⟩
  have happend := occursAt_append (t.drop i) hocc
  rwa [List.take_append_drop] at happend

/-- The scanner is running or has stopped. -/
theorem feedAll_cases (pieces : List (List α)) {s : StopStreamer α} {emitted fed : List α}
    (hne : ∀ p ∈ s.stop, p ≠ []) (h : Held s emitted fed ∨ Halted s emitted fed) :
    (s.feedAll pieces).2.stop = s.stop ∧
      (Held (s.feedAll pieces).2 (emitted ++ (s.feedAll pieces).1.flatten)
          (fed ++ pieces.flatten) ∨
        Halted (s.feedAll pieces).2 (emitted ++ (s.feedAll pieces).1.flatten)
          (fed ++ pieces.flatten)) := by
  induction pieces generalizing s emitted fed with
  | nil =>
    refine ⟨rfl, ?_⟩
    show Held s (emitted ++ []) (fed ++ []) ∨ Halted s (emitted ++ []) (fed ++ [])
    rwa [List.append_nil, List.append_nil]
  | cons piece rest ih =>
    have hstep : (s.feed piece).2.stop = s.stop ∧
        (Held (s.feed piece).2 (emitted ++ (s.feed piece).1) (fed ++ piece) ∨
          Halted (s.feed piece).2 (emitted ++ (s.feed piece).1) (fed ++ piece)) := by
      rcases h with hheld | hhalted
      · rcases held_feed hheld piece with ⟨i, hfirst, hstopped, hemit, -⟩ | ⟨hstop, hnext⟩
        · have hstop := StopStreamer.feed_stop s piece
          refine ⟨hstop, .inr ⟨hstopped, ?_, ?_, ?_⟩⟩
          · rw [hstop]
            exact ⟨i, hfirst.hit⟩
          · rw [hemit]
            exact List.take_prefix i _
          · rw [hemit, hstop]
            exact FirstHit.quiet_take hne hfirst
        · exact ⟨hstop, .inl hnext⟩
      · exact ⟨(halted_feed hhalted piece).1, .inr (halted_feed hhalted piece).2⟩
    obtain ⟨hstop, hstate⟩ := hstep
    have hrest := ih (by rwa [hstop]) hstate
    rw [hstop, List.append_assoc, List.append_assoc] at hrest
    exact hrest

/-- **The scanner is safe and loses nothing.**  What went out is a prefix of what came in and
contains no stop; the scanner has stopped exactly when a stop came in; and without one the
flush completes the text. -/
theorem stopStreamer_safe (stop : List (List α)) (hne : ∀ p ∈ stop, p ≠ [])
    (pieces : List (List α)) :
    ((StopStreamer.init stop).feedAll pieces).1.flatten <+: pieces.flatten ∧
      (∀ p ∈ stop, ¬ p <:+: ((StopStreamer.init stop).feedAll pieces).1.flatten) ∧
      (((StopStreamer.init stop).feedAll pieces).2.stopped = true ↔
        ∃ p ∈ stop, p <:+: pieces.flatten) ∧
      ((∀ p ∈ stop, ¬ p <:+: pieces.flatten) →
        ((StopStreamer.init stop).feedAll pieces).1.flatten ++
          ((StopStreamer.init stop).feedAll pieces).2.flush.1 = pieces.flatten) := by
  have hnone {t : List α} (hquiet : Quiet stop t) : ∀ p ∈ stop, ¬ p <:+: t := by
    intro p hp hinfix
    obtain ⟨i, hit⟩ := hit_iff_infix.mpr ⟨p, hp, hinfix⟩
    exact hquiet i hit
  obtain ⟨hstop, hstate⟩ := feedAll_cases pieces hne (.inl (held_init hne))
  rw [List.nil_append, List.nil_append] at hstate
  rcases hstate with hheld | hhalted
  · have hquiet : Quiet stop pieces.flatten := by
      have := hheld.quiet
      rwa [hstop] at this
    refine ⟨⟨_, hheld.text⟩, hnone ?_, ?_, ?_⟩
    · exact Quiet.of_append (hheld.text ▸ hquiet)
    · rw [hheld.running]
      refine iff_of_false Bool.false_ne_true ?_
      rintro ⟨p, hp, hinfix⟩
      exact hnone hquiet p hp hinfix
    · intro _
      rw [StopStreamer.flush, hheld.running]
      exact hheld.text
  · have hquiet : Quiet stop ((StopStreamer.init stop).feedAll pieces).1.flatten := by
      have := hhalted.quiet
      rwa [hstop] at this
    have hhit : ∃ p ∈ stop, p <:+: pieces.flatten := by
      have := hhalted.hit
      rw [hstop] at this
      exact hit_iff_infix.mp this
    refine ⟨hhalted.text, hnone hquiet, iff_of_true hhalted.stopped hhit, ?_⟩
    intro hno
    obtain ⟨p, hp, hinfix⟩ := hhit
    exact absurd hinfix (hno p hp)

/-- The stop `bc` comes in two pieces. -/
theorem stopStreamer_safe_letters :
    ((StopStreamer.init [['b', 'c']]).feedAll [['a', 'b'], ['c', 'd']]).1.flatten <+:
        ['a', 'b', 'c', 'd'] ∧
      ((StopStreamer.init [['b', 'c']]).feedAll [['a', 'b'], ['c', 'd']]).2.stopped = true := by
  have h := stopStreamer_safe [['b', 'c']] (by decide) [['a', 'b'], ['c', 'd']]
  exact ⟨h.1, h.2.2.1.mpr ⟨['b', 'c'], by simp, ⟨['a'], ['d'], rfl⟩⟩⟩

end InferBridge
