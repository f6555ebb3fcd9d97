/-
InferBridge/ConsoleChunks.lean

The console lines of a conversion do not depend on the chunks in which its
output arrives (`_iter_console_lines` and `ConsoleLineWriter` of
runtime/model_converter.py).

Design.  The decoder and the splitter are both resumable: what they make of
a stream in chunks is what they make of it at once.  So the lines are those
of the whole stream (`iterConsoleLines_eq`), and the same for the writer
(`written_eq`).

A line is at most as long as a piece, except at the end of the process
output: there the replacement for a torn character is put behind what is
pending, which may be full already.  Main result: `console_lines_iff`.
-/
import InferBridge.ConsoleSafety
import InferBridge.Lib.Chunks

namespace InferBridge.ConsoleChunks

open Chunks Text

/-! ### The decoder -/

/-- Where the bytes behind a first byte must lie; `none` for a byte that begins no character. -/
def continuations (b : UInt8) : Option (List (UInt8 × UInt8)) :=
  if b < 0x80 then some []
  else if b < 0xC2 then none
  else if b < 0xE0 then some [(0x80, 0xBF)]
  else if b = 0xE0 then some [(0xA0, 0xBF), (0x80, 0xBF)]
  else if b = 0xED then some [(0x80, 0x9F), (0x80, 0xBF)]
  else if b < 0xF0 then some [(0x80, 0xBF), (0x80, 0xBF)]
  else if b = 0xF0 then some [(0x90, 0xBF), (0x80, 0xBF), (0x80, 0xBF)]
  else if b < 0xF4 then some [(0x80, 0xBF), (0x80, 0xBF), (0x80, 0xBF)]
  else if b = 0xF4 then some [(0x80, 0x8F), (0x80, 0xBF), (0x80, 0xBF)]
  else none

/-- What the bytes behind a first byte make of it. -/
inductive Followed where
  | complete (taken rest : List UInt8)
  | short
  | broken (rest : List UInt8)

def follow : List (UInt8 × UInt8) → List UInt8 → Followed
  | [], rest => .complete [] rest
  | _ :: _, [] => .short
  | (low, high) :: ranges, b :: bytes =>
    if low ≤ b ∧ b ≤ high then
      match follow ranges bytes with
      | .complete taken rest => .complete (b :: taken) rest
      | .short => .short
      | .broken rest => .broken rest
    else .broken (b :: bytes)

def replacementChar : Char := '\uFFFD'

/-- The character of a first byte and the bytes behind it: six bits each. -/
def charOf (b : UInt8) (taken : List UInt8) : Char :=
  let lead := if taken = [] then b.toNat else b.toNat % 2 ^ (6 - taken.length)
  Char.ofNat (taken.foldl (fun n c => 64 * n + c.toNat % 64) lead)

/-- The first character and the bytes behind it, where what cannot become a character is
replaced; `none` if the bytes end within a character. -/
def firstChar (b : UInt8) (bytes : List UInt8) : Option (Char × List UInt8) :=
  match continuations b with
  | none => some (replacementChar, bytes)
  | some ranges =>
    match follow ranges bytes with
    | .complete taken rest => some (charOf b taken, rest)
    | .short => none
    | .broken rest => some (replacementChar, rest)

/-- What lies behind was there before. -/
def Followed.Within (bytes : List UInt8) : Followed → Prop
  | .complete _ rest => rest.length ≤ bytes.length
  | .short => True
  | .broken rest => rest.length ≤ bytes.length

theorem follow_within (ranges : List (UInt8 × UInt8)) (bytes : List UInt8) :
    (follow ranges bytes).Within bytes := by
  induction ranges generalizing bytes with
  | nil => exact le_refl bytes.length
  | cons range ranges ih =>
    obtain ⟨low, high⟩ := range
    cases bytes with
    | nil => trivial
    | cons b bytes =>
      have hrest := ih bytes
      rw [follow]
      split
      · rcases hfollow : follow ranges bytes with ⟨taken, rest⟩ | _ | rest
        · rw [hfollow] at hrest
          exact Nat.le_succ_of_le hrest
        · trivial
        · rw [hfollow] at hrest
          exact Nat.le_succ_of_le hrest
      · exact le_refl (b :: bytes).length

theorem length_of_firstChar {b : UInt8} {bytes rest : List UInt8} {c : Char}
    (h : firstChar b bytes = some (c, rest)) : rest.length ≤ bytes.length := by
  rw [firstChar] at h
  rcases hranges : continuations b with - | ranges
  · rw [hranges] at h
    exact (congrArg List.length (congrArg Prod.snd (Option.some.inj h))).ge
  · have hwithin := follow_within ranges bytes
    rcases hfollow : follow ranges bytes with ⟨taken, rest'⟩ | _ | rest'
    · simp only [hranges, hfollow] at h hwithin
      cases h
      exact hwithin
    · simp [hranges, hfollow] at h
    · simp only [hranges, hfollow] at h hwithin
      cases h
      exact hwithin

/-- `utf_8_decode(data, "replace", final)`: the text and the bytes that are not consumed. -/
def utf8Decode (final : Bool) : List UInt8 → Str × List UInt8
  | [] => ([], [])
  | b :: bytes =>
    match h : firstChar b bytes with
    | some (c, rest) =>
      have : rest.length ≤ bytes.length := length_of_firstChar h
      (c :: (utf8Decode final rest).1, (utf8Decode final rest).2)
    | none => if final then ([replacementChar], []) else ([], b :: bytes)
termination_by bytes => bytes.length
decreasing_by all_goals exact Nat.lt_succ_of_le this

/-! ### The two readers -/

/-- `_iter_console_lines`: the decoder's buffer, what is pending, the chunks. -/
def iterConsoleLines : List UInt8 → Str → List (List UInt8) → List Str
  | buffer, pending, [] => cleanLines [pending ++ (utf8Decode true buffer).1]
  | buffer, pending, chunk :: chunks =>
    if chunk = [] then iterConsoleLines buffer pending chunks
    else
      let (text, buffer) := utf8Decode false (buffer ++ chunk)
      let (lines, pending) := splitConsoleLines (pending ++ text)
      lines ++ iterConsoleLines buffer pending chunks

/-- The writer with the lines that it has handed to `_emit`. -/
structure ConsoleLineWriter where
  pending : Str
  emitted : List Str

def ConsoleLineWriter.start : ConsoleLineWriter := ⟨[], []⟩

def ConsoleLineWriter.drain (w : ConsoleLineWriter) : ConsoleLineWriter :=
  let line := cleanConsoleLine w.pending
  if line ≠ [] then ⟨[], w.emitted ++ [line.take maxConsoleLineChars]⟩ else ⟨[], w.emitted⟩

/-- `write`: the number it returns, and the writer after it. -/
def ConsoleLineWriter.write (w : ConsoleLineWriter) (chunk : Str) : Nat × ConsoleLineWriter :=
  let (lines, pending) := splitConsoleLines (w.pending ++ chunk)
  let written := ⟨pending, w.emitted ++ lines⟩
  (chunk.length, if maxConsoleLineChars < pending.length then written.drain else written)

/-- The lines of some writes and the final drain. -/
def written (writes : List Str) : List Str :=
  (writes.foldl (fun w chunk => (ConsoleLineWriter.write w chunk).2)
    ConsoleLineWriter.start).drain.emitted

/-! ### The decoder is resumable -/

/-- More bytes behind what is left. -/
def Followed.behind (more : List UInt8) : Followed → Followed
  | .complete taken rest => .complete taken (rest ++ more)
  | .short => .short
  | .broken rest => .broken (rest ++ more)

theorem follow_append {ranges : List (UInt8 × UInt8)} {bytes : List UInt8} (more : List UInt8)
    (h : follow ranges bytes ≠ .short) :
    follow ranges (bytes ++ more) = (follow ranges bytes).behind more := by
  induction ranges generalizing bytes with
  | nil => rfl
  | cons range ranges ih =>
    obtain ⟨low, high⟩ := range
    cases bytes with
    | nil => exact absurd rfl h
    | cons b bytes =>
      rw [List.cons_append, follow, follow]
      by_cases hb : low ≤ b ∧ b ≤ high
      · have hrest : follow ranges bytes ≠ .short := by
          intro hshort
          apply h
          rw [follow, if_pos hb, hshort]
        rw [if_pos hb, if_pos hb, ih hrest]
        cases follow ranges bytes <;> rfl
      · rw [if_neg hb, if_neg hb]
        rfl

theorem firstChar_append {b : UInt8} {bytes rest : List UInt8} {c : Char} (more : List UInt8)
    (h : firstChar b bytes = some (c, rest)) :
    firstChar b (bytes ++ more) = some (c, rest ++ more) := by
  rw [firstChar] at h ⊢
  rcases hranges : continuations b with - | ranges
  · rw [hranges] at h
    cases h
    rfl
  · rw [hranges] at h
    have hshort : follow ranges bytes ≠ .short := by
      intro hshort
      simp [hshort] at h
    have happend := follow_append more hshort
    rcases hfollow : follow ranges bytes with ⟨taken, rest'⟩ | _ | rest'
    · simp only [hfollow] at h happend
      cases h
      simp only [happend, Followed.behind]
    · exact absurd hfollow hshort
    · simp only [hfollow] at h happend
      cases h
      simp only [happend, Followed.behind]

section
variable {final : Bool} {b : UInt8} {bytes rest : List UInt8} {c : Char}

@[simp] theorem utf8Decode_nil : utf8Decode final [] = ([], []) := by
  rw [utf8Decode]

theorem utf8Decode_char (h : firstChar b bytes = some (c, rest)) :
    utf8Decode final (b :: bytes) =
      (c :: (utf8Decode final rest).1, (utf8Decode final rest).2) := by
  rw [utf8Decode]
  split
  · next c' rest' h' =>
    cases h.symm.trans h'
    rfl
  · next h' => cases h.symm.trans h'

theorem utf8Decode_short (h : firstChar b bytes = none) :
    utf8Decode final (b :: bytes) =
      if final then ([replacementChar], []) else ([], b :: bytes) := by
  rw [utf8Decode]
  split
  · next c' rest' h' => cases h.symm.trans h'
  · rfl

end

theorem resumable_utf8Decode : Resumable (utf8Decode false) where
  nil := utf8Decode_nil
  append a more := by
    -- by induction on the bytes that have arrived, one character at a time
    induction hlength : a.length using Nat.strong_induction_on generalizing a with
    | _ n ih =>
      cases a with
      | nil => simp
      | cons b bytes =>
        rcases hfirst : firstChar b bytes with - | ⟨c, rest⟩
        · rw [utf8Decode_short hfirst]
          rfl
        · have hrest := length_of_firstChar hfirst
          rw [List.cons_append, utf8Decode_char (firstChar_append more hfirst),
            utf8Decode_char hfirst,
            ih rest.length (hlength ▸ Nat.lt_succ_of_le hrest) rest rfl]
          rfl

/-- What the decoder makes of the bytes that it holds at the end. -/
theorem utf8Decode_held {held : List UInt8} (h : utf8Decode false held = ([], held)) :
    (utf8Decode true held).1 = if held = [] then [] else [replacementChar] := by
  cases held with
  | nil => simp
  | cons b bytes =>
    rcases hfirst : firstChar b bytes with - | ⟨c, rest⟩
    · rw [utf8Decode_short hfirst]
      rfl
    · rw [utf8Decode_char hfirst] at h
      cases congrArg Prod.fst h

/-! ### The splitter is resumable -/

theorem cutLine_congr {fuel fuel' : Nat} {text : Str} (h : text.length ≤ fuel)
    (h' : text.length ≤ fuel') : cutLine fuel text = cutLine fuel' text := by
  induction fuel generalizing fuel' text with
  | zero =>
    cases fuel' with
    | zero => rfl
    | succ fuel' =>
      rw [cutLine, cutLine, if_neg (by omega)]
  | succ fuel ih =>
    cases fuel' with
    | zero => rw [cutLine, cutLine, if_neg (by omega)]
    | succ fuel' =>
      rw [cutLine, cutLine]
      by_cases hlong : maxConsoleLineChars < text.length
      · have hdrop : (text.drop maxConsoleLineChars).length = text.length - 4096 :=
          List.length_drop
        have hrest := @ih fuel' (text.drop maxConsoleLineChars) (by omega) (by omega)
        rw [if_pos hlong, if_pos hlong, hrest]
      · rw [if_neg hlong, if_neg hlong]

theorem pieces_long {text : Str} (h : maxConsoleLineChars < text.length) :
    pieces text = text.take maxConsoleLineChars :: pieces (text.drop maxConsoleLineChars) := by
  have hdrop : (text.drop maxConsoleLineChars).length = text.length - 4096 := List.length_drop
  obtain ⟨fuel, hfuel⟩ : ∃ fuel, text.length = fuel + 1 := ⟨text.length - 1, by omega⟩
  rw [pieces, hfuel, cutLine, if_pos h, pieces]
  rw [cutLine_congr (by omega) le_rfl]

theorem pieces_short {text : Str} (h : text.length ≤ maxConsoleLineChars) :
    pieces text = [text] := by
  rw [pieces]
  cases text.length with
  | zero => rfl
  | succ fuel => rw [cutLine, if_neg (Nat.not_lt.mpr h)]

theorem pieces_ne_nil (text : Str) : pieces text ≠ [] := by
  by_cases h : maxConsoleLineChars < text.length
  · rw [pieces_long h]
    exact List.cons_ne_nil _ _
  · rw [pieces_short (Nat.le_of_not_lt h)]
    exact List.cons_ne_nil _ _

/-- Cutting on from the last piece. -/
theorem pieces_append (a b : Str) :
    pieces (a ++ b) = (pieces a).dropLast ++ pieces ((pieces a).getLastD [] ++ b) := by
  induction hlength : a.length using Nat.strong_induction_on generalizing a with
  | _ n ih =>
    by_cases h : maxConsoleLineChars < a.length
    · have hdrop : (a.drop maxConsoleLineChars).length = a.length - 4096 := List.length_drop
      have happend : maxConsoleLineChars < (a ++ b).length := by
        rw [List.length_append]
        omega
      obtain ⟨piece, rest, hrest⟩ := List.exists_cons_of_ne_nil
        (pieces_ne_nil (a.drop maxConsoleLineChars))
      have ih' := ih _ (by omega) (a.drop maxConsoleLineChars) rfl
      rw [hrest] at ih'
      rw [pieces_long happend, List.take_append_of_le_length h.le,
        List.drop_append_of_le_length h.le, pieces_long h, hrest, ih']
      rfl
    · rw [pieces_short (Nat.le_of_not_lt h)]
      rfl

def isSeparator (c : Char) : Bool := c = '\r' ∨ c = '\n'

/-- Text without a separator is cut, and its last piece waits. -/
theorem splitConsoleLines_open {text : Str} (h : ∀ c ∈ text, isSeparator c = false) :
    splitConsoleLines text = (cleanLines (pieces text).dropLast, (pieces text).getLastD []) := by
  rw [splitConsoleLines]
  rw [show text.splitOnP (fun c => c = '\r' ∨ c = '\n') = [text] from
    List.splitOnP_eq_singleton h]
  rfl

theorem cleanLines_append (a b : List Str) : cleanLines (a ++ b) = cleanLines a ++ cleanLines b := by
  rw [cleanLines, List.map_append, List.filter_append]
  rfl

/-- A line and its separator are done with. -/
theorem splitConsoleLines_line {line rest : Str} {c : Char}
    (hline : ∀ c ∈ line, isSeparator c = false) (hc : isSeparator c = true) :
    splitConsoleLines (line ++ c :: rest) =
      (cleanLines (pieces line) ++ (splitConsoleLines rest).1, (splitConsoleLines rest).2) := by
  have hsplit : (line ++ c :: rest).splitOnP (fun c => c = '\r' ∨ c = '\n') =
      line :: rest.splitOnP (fun c => c = '\r' ∨ c = '\n') :=
    List.splitOnP_append_cons_of_forall_mem hline c hc rest
  obtain ⟨first, others, hrest⟩ := List.exists_cons_of_ne_nil
    (List.splitOnP_ne_nil (fun c => decide (c = '\r' ∨ c = '\n')) rest)
  rw [splitConsoleLines, splitConsoleLines, hsplit, hrest]
  show (cleanLines ((pieces line ++ _) ++ _), _) = _
  rw [List.append_assoc, cleanLines_append]
  rfl

/-- A text is open, or begins with a line and its separator. -/
theorem open_or_line (text : Str) :
    (∀ c ∈ text, isSeparator c = false) ∨
      ∃ line c rest, text = line ++ c :: rest ∧ (∀ c ∈ line, isSeparator c = false) ∧
        isSeparator c = true := by
  induction text with
  | nil => exact .inl (by simp)
  | cons d text ih =>
    by_cases hd : isSeparator d = true
    · exact .inr ⟨[], d, text, rfl, by simp, hd⟩
    · have hd' : isSeparator d = false := by simpa using hd
      rcases ih with hopen | ⟨line, c, rest, rfl, hline, hc⟩
      · left
        simpa [hd'] using hopen
      · refine .inr ⟨d :: line, c, rest, rfl, ?_, hc⟩
        simpa [hd'] using hline

theorem resumable_splitConsoleLines : Resumable splitConsoleLines where
  nil := by
    rw [splitConsoleLines_open (by simp)]
    rfl
  append a b := by
    induction hlength : a.length using Nat.strong_induction_on generalizing a with
    | _ n ih =>
      rcases open_or_line a with ha | ⟨line, c, rest, rfl, hline, hc⟩
      · have hlast : ∀ c ∈ (pieces a).getLastD [], isSeparator c = false := by
          intro c hc
          have hmem : (pieces a).getLastD [] ∈ pieces a := by
            rw [List.getLastD_eq_getLast?, List.getLast?_eq_some_getLast (pieces_ne_nil a)]
            exact List.getLast_mem (pieces_ne_nil a)
          apply ha
          rw [← flatten_cutLine a.length a]
          exact List.mem_flatten.mpr ⟨_, hmem, hc⟩
        have hboth {t : Str} (ht : ∀ c ∈ t, isSeparator c = false) {u : Str}
            (hu : ∀ c ∈ u, isSeparator c = false) : ∀ c ∈ t ++ u, isSeparator c = false := by
          intro c hc
          rcases List.mem_append.mp hc with hc | hc
          · exact ht c hc
          · exact hu c hc
        rw [splitConsoleLines_open ha]
        rcases open_or_line b with hb | ⟨line, c, rest, rfl, hline, hc⟩
        · obtain ⟨piece, others, hpiece⟩ := List.exists_cons_of_ne_nil
            (pieces_ne_nil ((pieces a).getLastD [] ++ b))
          rw [splitConsoleLines_open (hboth ha hb), splitConsoleLines_open (hboth hlast hb),
            pieces_append, hpiece, ← cleanLines_append,
            List.dropLast_append_of_ne_nil (List.cons_ne_nil piece others),
            List.getLastD_eq_getLast?, List.getLastD_eq_getLast?,
            List.getLast?_append_of_ne_nil _ (List.cons_ne_nil piece others)]
        · rw [← List.append_assoc, splitConsoleLines_line (hboth ha hline) hc,
            ← List.append_assoc, splitConsoleLines_line (hboth hlast hline) hc, pieces_append,
            cleanLines_append, List.append_assoc]
      · have hrest : rest.length < n := by
          rw [← hlength, List.length_append, List.length_cons]
          omega
        rw [List.append_assoc, List.cons_append, splitConsoleLines_line hline hc,
          splitConsoleLines_line hline hc, ih _ hrest rest rfl, List.append_assoc]

/-! ### The lines of the whole stream -/

/-- The lines of all the bytes at once. -/
def linesOfBytes (bytes : List UInt8) : List Str :=
  let (text, held) := utf8Decode false bytes
  let (lines, pending) := splitConsoleLines text
  lines ++ cleanLines [pending ++ (utf8Decode true held).1]

/-- The lines of all the text at once. -/
def linesOfText (text : Str) : List Str :=
  let (lines, pending) := splitConsoleLines text
  lines ++ cleanLines [pending]

theorem iterConsoleLines_chunk {buffer chunk : List UInt8} (h : chunk ≠ []) (pending : Str)
    (chunks : List (List UInt8)) :
    iterConsoleLines buffer pending (chunk :: chunks) =
      (splitConsoleLines (pending ++ (utf8Decode false (buffer ++ chunk)).1)).1 ++
        iterConsoleLines (utf8Decode false (buffer ++ chunk)).2
          (splitConsoleLines (pending ++ (utf8Decode false (buffer ++ chunk)).1)).2 chunks :=
  if_neg h

theorem iterConsoleLines_pipe (chunks : List (List UInt8)) {buffer : List UInt8} {pending : Str}
    (hbuffer : utf8Decode false buffer = ([], buffer))
    (hpending : splitConsoleLines pending = ([], pending)) :
    iterConsoleLines buffer pending chunks =
      (pipe (utf8Decode false) splitConsoleLines buffer pending chunks).1 ++
        cleanLines [(pipe (utf8Decode false) splitConsoleLines buffer pending chunks).2.2 ++
          (utf8Decode true
            (pipe (utf8Decode false) splitConsoleLines buffer pending chunks).2.1).1] := by
  induction chunks generalizing buffer pending with
  | nil => rfl
  | cons chunk chunks ih =>
    rw [pipe]
    by_cases hchunk : chunk = []
    · rw [iterConsoleLines, if_pos hchunk, ih hbuffer hpending, hchunk, List.append_nil, hbuffer]
      show _ = (splitConsoleLines (pending ++ [])).1 ++ _ ++ _
      rw [List.append_nil, hpending]
      rfl
    · rw [iterConsoleLines_chunk hchunk,
        ih (resumable_utf8Decode.held _) (resumable_splitConsoleLines.held _)]
      exact (List.append_assoc _ _ _).symm

/-- **The chunks of the process output do not matter.** -/
theorem iterConsoleLines_eq (chunks : List (List UInt8)) :
    iterConsoleLines [] [] chunks = linesOfBytes chunks.flatten := by
  rw [iterConsoleLines_pipe chunks utf8Decode_nil resumable_splitConsoleLines.nil,
    pipe_eq resumable_utf8Decode resumable_splitConsoleLines]
  rfl

theorem write_eq (w : ConsoleLineWriter) (chunk : Str) :
    (w.write chunk).2 = ⟨(splitConsoleLines (w.pending ++ chunk)).2,
      w.emitted ++ (splitConsoleLines (w.pending ++ chunk)).1⟩ :=
  -- what waits is never longer than a line, so that the writer does not drain here
  if_neg (Nat.not_lt.mpr (length_splitConsoleLines (w.pending ++ chunk)).2)

theorem foldl_write (writes : List Str) (w : ConsoleLineWriter) :
    writes.foldl (fun w chunk => (w.write chunk).2) w =
      ⟨(feed splitConsoleLines w.pending writes).2,
        w.emitted ++ (feed splitConsoleLines w.pending writes).1⟩ := by
  induction writes generalizing w with
  | nil =>
    show w = ⟨w.pending, w.emitted ++ []⟩
    rw [List.append_nil]
  | cons chunk writes ih =>
    rw [List.foldl_cons, ih, write_eq, feed, ← List.append_assoc]

theorem drain_emitted {w : ConsoleLineWriter} (h : w.pending.length ≤ maxConsoleLineChars) :
    w.drain.emitted = w.emitted ++ cleanLines [w.pending] := by
  have hclean := (length_cleanConsoleLine_le w.pending).trans h
  rw [ConsoleLineWriter.drain]
  by_cases hline : cleanConsoleLine w.pending = []
  · simp [hline, cleanLines]
  · simp [hline, cleanLines, List.take_of_length_le hclean]

/-- **The writes do not matter.** -/
theorem written_eq (writes : List Str) : written writes = linesOfText writes.flatten := by
  have hpending := (length_splitConsoleLines writes.flatten).2
  rw [written, foldl_write]
  show ConsoleLineWriter.emitted (ConsoleLineWriter.drain ⟨(feed splitConsoleLines [] writes).2,
    [] ++ (feed splitConsoleLines [] writes).1⟩) = _
  rw [resumable_splitConsoleLines.feed_nil, List.nil_append, drain_emitted hpending]
  rfl

/-! ### Whole lines -/

/-- What the reader of a line may rely on. -/
structure ConsoleLine (line : Str) : Prop where
  nonempty : line ≠ []
  bounded : line.length ≤ maxConsoleLineChars
  plain : ∀ c ∈ line, c ≠ '\r' ∧ c ≠ '\n'

theorem cleanConsoleLine_sublist (text : Str) : (cleanConsoleLine text).Sublist text :=
  (strip_isInfix isSpace _).sublist.trans
    ((List.filter_sublist).trans (Pattern.removeAll_sublist text))

theorem consoleLine_cleanLines {raws : List Str}
    (hplain : ∀ raw ∈ raws, ∀ c ∈ raw, isSeparator c = false) {line : Str}
    (hline : line ∈ cleanLines raws) (hlength : line.length ≤ maxConsoleLineChars) :
    ConsoleLine line := by
  obtain ⟨hmem, hne⟩ := List.mem_filter.mp hline
  obtain ⟨raw, hraw, rfl⟩ := List.mem_map.mp hmem
  refine ⟨by simpa using hne, hlength, fun c hc => ?_⟩
  have hsep := hplain raw hraw c ((cleanConsoleLine_sublist raw).subset hc)
  rw [isSeparator, decide_eq_false_iff_not, not_or] at hsep
  exact hsep

/-- The text behind the last separator. -/
def openText (text : Str) : Str := (text.splitOnP isSeparator).getLastD []

theorem getLastD_mem {α : Type*} {l : List (List α)} (h : l ≠ []) : l.getLastD [] ∈ l := by
  rw [List.getLastD_eq_getLast?, List.getLast?_eq_some_getLast h]
  exact List.getLast_mem h

theorem plain_openText (text : Str) : ∀ c ∈ openText text, isSeparator c = false :=
  (mem_splitOnP text).1 _ (getLastD_mem (List.splitOnP_ne_nil isSeparator text))

theorem plain_pieces {text : Str} (h : ∀ c ∈ text, isSeparator c = false) :
    ∀ piece ∈ pieces text, ∀ c ∈ piece, isSeparator c = false := by
  intro piece hpiece c hc
  apply h
  rw [← flatten_cutLine text.length text]
  exact List.mem_flatten.mpr ⟨piece, hpiece, hc⟩

theorem splitConsoleLines_pending (text : Str) :
    (splitConsoleLines text).2 = (pieces (openText text)).getLastD [] := rfl

theorem plain_pending (text : Str) : ∀ c ∈ (splitConsoleLines text).2, isSeparator c = false :=
  plain_pieces (plain_openText text) _ (getLastD_mem (pieces_ne_nil _))

theorem consoleLine_split (text : Str) : ∀ line ∈ (splitConsoleLines text).1, ConsoleLine line := by
  intro line hline
  refine consoleLine_cleanLines ?_ hline ((length_splitConsoleLines text).1 line hline)
  intro raw hraw
  rcases List.mem_append.mp hraw with hraw | hraw
  · obtain ⟨piece, hpiece, hmem⟩ := List.mem_flatMap.mp hraw
    exact plain_pieces ((mem_splitOnP text).1 piece (List.mem_of_mem_dropLast hpiece)) raw hmem
  · exact plain_pieces (plain_openText text) raw (List.mem_of_mem_dropLast hraw)

theorem consoleLine_text (text : Str) : ∀ line ∈ linesOfText text, ConsoleLine line := by
  intro line hline
  rcases List.mem_append.mp hline with hline | hline
  · exact consoleLine_split text line hline
  · refine consoleLine_cleanLines ?_ hline ?_
    · rintro raw hraw
      rw [List.mem_singleton.mp hraw]
      exact plain_pending text
    · refine length_cleanLines ?_ line hline
      intro raw hraw
      rw [List.mem_singleton.mp hraw]
      exact (length_splitConsoleLines text).2

/-! ### A torn character behind a full line -/

/-- What waits is the rest of the open text behind the whole pieces. -/
theorem getLastD_pieces (text : Str) :
    (pieces text).getLastD [] = text.drop (4096 * ((text.length - 1) / 4096)) := by
  induction hlength : text.length using Nat.strong_induction_on generalizing text with
  | _ n ih =>
    by_cases h : maxConsoleLineChars < text.length
    · have hlong : 4096 < n := hlength ▸ h
      have hdrop : (text.drop maxConsoleLineChars).length = n - 4096 := by
        rw [List.length_drop, hlength]
        rfl
      obtain ⟨piece, others, hpieces⟩ := List.exists_cons_of_ne_nil
        (pieces_ne_nil (text.drop maxConsoleLineChars))
      have hlast := ih (n - 4096) (by omega) (text.drop maxConsoleLineChars) hdrop
      have hcount : maxConsoleLineChars + 4096 * ((n - 4096 - 1) / 4096) =
          4096 * ((n - 1) / 4096) := by
        show 4096 + _ = _
        omega
      rw [List.drop_drop, hcount, hpieces] at hlast
      rw [pieces_long h, hpieces]
      exact hlast
    · have hshort : n ≤ 4096 := hlength ▸ Nat.le_of_not_lt h
      rw [pieces_short (Nat.le_of_not_lt h), show (n - 1) / 4096 = 0 by omega]
      rfl

/-- The output ends within a character, the open text before it fills its last line, and there
is nothing to clean in that line. -/
structure TornBehindFullLine (bytes : List UInt8) : Prop where
  torn : (utf8Decode false bytes).2 ≠ []
  begun : openText (utf8Decode false bytes).1 ≠ []
  full : maxConsoleLineChars ∣ (openText (utf8Decode false bytes).1).length
  kept : ∀ line, line <:+ openText (utf8Decode false bytes).1 →
    line.length = maxConsoleLineChars →
      cleanConsoleLine (line ++ [replacementChar]) = line ++ [replacementChar]

theorem pending_full_iff (text : Str) :
    (splitConsoleLines text).2.length = maxConsoleLineChars ↔
      openText text ≠ [] ∧ maxConsoleLineChars ∣ (openText text).length := by
  have hmod : maxConsoleLineChars ∣ (openText text).length ↔ (openText text).length % 4096 = 0 :=
    Nat.dvd_iff_mod_eq_zero
  rw [splitConsoleLines_pending, getLastD_pieces, List.length_drop, hmod,
    ← List.length_pos_iff]
  show _ = 4096 ↔ _
  omega

/-- **A line of the process output is too long exactly where a torn character follows a full
line.** -/
theorem consoleLine_bytes_iff (bytes : List UInt8) :
    (∀ line ∈ linesOfBytes bytes, ConsoleLine line) ↔ ¬ TornBehindFullLine bytes := by
  have hheld := utf8Decode_held (resumable_utf8Decode.held bytes)
  have hpending := (length_splitConsoleLines (utf8Decode false bytes).1).2
  have hsuffix : (splitConsoleLines (utf8Decode false bytes).1).2 <:+
      openText (utf8Decode false bytes).1 := by
    rw [splitConsoleLines_pending, getLastD_pieces]
    exact List.drop_suffix _ _
  have hfull := pending_full_iff (utf8Decode false bytes).1
  have hplain := plain_pending (utf8Decode false bytes).1
  -- the last line, as it is before it is cleaned
  have hlast : ∀ raw, raw = (splitConsoleLines (utf8Decode false bytes).1).2 ++
      (utf8Decode true (utf8Decode false bytes).2).1 →
      (maxConsoleLineChars < (cleanConsoleLine raw).length ↔ TornBehindFullLine bytes) := by
    rintro raw rfl
    have hle := length_cleanConsoleLine_le ((splitConsoleLines (utf8Decode false bytes).1).2 ++
      (utf8Decode true (utf8Decode false bytes).2).1)
    by_cases htorn : (utf8Decode false bytes).2 = []
    · rw [hheld, if_pos htorn, List.append_nil] at hle ⊢
      exact ⟨fun hlt => absurd (hle.trans hpending) (Nat.not_le.mpr hlt),
        fun h => absurd htorn h.torn⟩
    · rw [hheld, if_neg htorn] at hle ⊢
      rw [List.length_append] at hle
      have hlengths : ∀ line : Str, (line ++ [replacementChar]).length = line.length + 1 :=
        fun line => List.length_append
      refine ⟨fun hlt => ?_, fun h => ?_⟩
      · have hlength : (splitConsoleLines (utf8Decode false bytes).1).2.length =
            maxConsoleLineChars := by
          have hone : [replacementChar].length = 1 := rfl
          omega
        obtain ⟨hbegun, hdvd⟩ := hfull.mp hlength
        refine ⟨htorn, hbegun, hdvd, fun line hline hlong => ?_⟩
        have hsame : line = (splitConsoleLines (utf8Decode false bytes).1).2 := by
          have hle : line <:+ (splitConsoleLines (utf8Decode false bytes).1).2 :=
            List.suffix_of_suffix_length_le hline hsuffix (by omega)
          exact hle.eq_of_length (hlong.trans hlength.symm)
        rw [hsame]
        apply (cleanConsoleLine_sublist _).eq_of_length_le
        rw [hlengths, hlength]
        exact hlt
      · have hlength := hfull.mpr ⟨h.begun, h.full⟩
        rw [h.kept _ hsuffix hlength, hlengths, hlength]
        exact Nat.lt_succ_self _
  refine ⟨fun h htorn => ?_, fun h line hline => ?_⟩
  · have hlong := (hlast _ rfl).mpr htorn
    have hmem : cleanConsoleLine ((splitConsoleLines (utf8Decode false bytes).1).2 ++
        (utf8Decode true (utf8Decode false bytes).2).1) ∈ linesOfBytes bytes := by
      apply List.mem_append_right
      refine List.mem_filter.mpr ⟨List.mem_singleton.mpr rfl, decide_eq_true ?_⟩
      intro hnil
      rw [hnil] at hlong
      cases hlong
    exact absurd (h _ hmem).bounded (Nat.not_le.mpr hlong)
  · rcases List.mem_append.mp hline with hline | hline
    · exact consoleLine_split _ line hline
    · have hbound : line.length ≤ maxConsoleLineChars := by
        obtain ⟨raw, hraw, rfl⟩ := List.mem_map.mp (List.mem_of_mem_filter hline)
        exact Nat.le_of_not_lt fun hlt => h ((hlast raw (List.mem_singleton.mp hraw)).mp hlt)
      refine consoleLine_cleanLines ?_ hline hbound
      intro raw hraw c hc
      rw [List.mem_singleton.mp hraw] at hc
      rcases List.mem_append.mp hc with hc | hc
      · exact hplain c hc
      · rw [hheld] at hc
        split at hc
        · cases hc
        · rw [List.mem_singleton.mp hc]
          rfl

/-- **Console splitting is chunk independent.**  The lines of the process output and those of the
writer do not depend on the chunks, and all of them are console lines, unless the process output
ends within a character behind a full line. -/
theorem console_lines_iff (bytes : List UInt8) (text : Str) :
    ((∀ chunks chunks' : List (List UInt8), chunks.flatten = bytes → chunks'.flatten = bytes →
        iterConsoleLines [] [] chunks = iterConsoleLines [] [] chunks') ∧
      (∀ writes writes' : List Str, writes.flatten = text → writes'.flatten = text →
        written writes = written writes') ∧
      (∀ chunks : List (List UInt8), chunks.flatten = bytes →
        ∀ line ∈ iterConsoleLines [] [] chunks, ConsoleLine line) ∧
      (∀ writes : List Str, writes.flatten = text →
        ∀ line ∈ written writes, ConsoleLine line)) ↔
      ¬ TornBehindFullLine bytes := by
  refine ⟨fun h => ?_, fun h => ⟨?_, ?_, ?_, ?_⟩⟩
  · apply (consoleLine_bytes_iff bytes).mp
    intro line hline
    refine h.2.2.1 [bytes] (List.append_nil bytes) line ?_
    rw [iterConsoleLines_eq, List.flatten_singleton]
    exact hline
  · intro chunks chunks' hchunks hchunks'
    rw [iterConsoleLines_eq, iterConsoleLines_eq, hchunks, hchunks']
  · intro writes writes' hwrites hwrites'
    rw [written_eq, written_eq, hwrites, hwrites']
  · intro chunks hchunks line hline
    rw [iterConsoleLines_eq, hchunks] at hline
    exact (consoleLine_bytes_iff bytes).mpr h line hline
  · intro writes hwrites line hline
    rw [written_eq, hwrites] at hline
    exact consoleLine_text text line hline

/-- No escape sequence begins without an escape character. -/
theorem removeFrom_ansiEscape {text : Str} (h : '\x1b' ∉ text) (before : Option Char) :
    Pattern.removeFrom ansiEscape 0 before text = text := by
  induction text generalizing before with
  | nil => rfl
  | cons c text ih =>
    rw [List.mem_cons, not_or] at h
    have hnone : ansiEscape.found before (c :: text) = [] := by
      have hc : decide (c = '\x1b') = false := decide_eq_false (Ne.symm h.1)
      show List.flatMap _ (if decide (c = '\x1b') then _ else []) = []
      rw [hc]
      rfl
    rw [Pattern.removeFrom, hnone]
    show c :: Pattern.removeFrom ansiEscape 0 (some c) text = c :: text
    rw [ih h.2]

theorem cleanConsoleLine_plain {text : Str} (hescape : '\x1b' ∉ text) (hnull : '\x00' ∉ text)
    (hhead : ∀ h : text ≠ [], isSpace (text.head h) = false)
    (hlast : ∀ h : text ≠ [], isSpace (text.getLast h) = false) : cleanConsoleLine text = text := by
  have hfilter : text.filter (fun c => c ≠ '\x00') = text := by
    apply List.filter_eq_self.mpr
    intro c hc
    exact decide_eq_true fun heq => hnull (heq ▸ hc)
  rw [cleanConsoleLine, Pattern.removeAll, removeFrom_ansiEscape hescape none, hfilter]
  exact strip_eq_self hhead hlast

/-- Letters, and the first byte of a character of three. -/
theorem utf8Decode_letters (n : Nat) :
    utf8Decode false (List.replicate n 0x61 ++ [0xE2]) = (List.replicate n 'a', [0xE2]) := by
  induction n with
  | zero => exact utf8Decode_short rfl
  | succ n ih =>
    have hfirst : firstChar 0x61 (List.replicate n 0x61 ++ [0xE2]) =
        some ('a', List.replicate n 0x61 ++ [0xE2]) := rfl
    rw [List.replicate_succ, List.cons_append, utf8Decode_char hfirst, ih]
    rfl

theorem cleanConsoleLine_letters (n : Nat) :
    cleanConsoleLine (List.replicate (n + 1) 'a' ++ [replacementChar]) =
      List.replicate (n + 1) 'a' ++ [replacementChar] := by
  have hmem {c : Char} (h : c ∈ List.replicate (n + 1) 'a' ++ [replacementChar]) :
      c = 'a' ∨ c = replacementChar := by
    rcases List.mem_append.mp h with h | h
    · exact .inl (List.eq_of_mem_replicate h)
    · exact .inr (List.mem_singleton.mp h)
  refine cleanConsoleLine_plain ?_ ?_ (fun h => ?_) fun h => ?_
  · intro h
    rcases hmem h with h | h <;> cases h
  · intro h
    rcases hmem h with h | h <;> cases h
  · rfl
  · rw [List.getLast_append_singleton]
    rfl

theorem linesOfBytes_letters {n : Nat} (h : n + 1 ≤ maxConsoleLineChars) :
    linesOfBytes (List.replicate (n + 1) 0x61 ++ [0xE2]) =
      [List.replicate (n + 1) 'a' ++ [replacementChar]] := by
  have hletters : ∀ c ∈ List.replicate (n + 1) 'a', isSeparator c = false := by
    intro c hc
    rw [List.eq_of_mem_replicate hc]
    rfl
  have hlength : (List.replicate (n + 1) 'a').length ≤ maxConsoleLineChars :=
    List.length_replicate.trans_le h
  rw [linesOfBytes, utf8Decode_letters]
  show (splitConsoleLines (List.replicate (n + 1) 'a')).1 ++ cleanLines
    [(splitConsoleLines (List.replicate (n + 1) 'a')).2 ++ (utf8Decode true [0xE2]).1] = _
  rw [splitConsoleLines_open hletters, pieces_short hlength, utf8Decode_short rfl]
  show cleanLines [List.replicate (n + 1) 'a' ++ [replacementChar]] = _
  rw [cleanLines, List.map_singleton, cleanConsoleLine_letters]
  rfl

/-- A line of 4096 letters, and a torn character. -/
theorem torn_line_too_long :
    ∃ line ∈ iterConsoleLines [] [] [List.replicate 4096 0x61, [0xE2]],
      ¬ line.length ≤ maxConsoleLineChars := by
  have hbytes : [List.replicate 4096 (0x61 : UInt8), [0xE2]].flatten =
      List.replicate (4095 + 1) 0x61 ++ [0xE2] := by
    rw [List.flatten_cons, List.flatten_singleton]
  rw [iterConsoleLines_eq, hbytes, linesOfBytes_letters (le_refl (4095 + 1))]
  refine ⟨_, List.mem_singleton.mpr rfl, ?_⟩
  rw [List.length_append, List.length_replicate]
  exact Nat.not_succ_le_self 4096

end InferBridge.ConsoleChunks
