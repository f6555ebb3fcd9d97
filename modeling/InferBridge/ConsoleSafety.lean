/-
InferBridge/ConsoleSafety.lean

When the progress output of a conversion can abort it.

A line is accepted (`ProgressLineEmitter.accepts`) unless it is turned into
a record that the decoder refuses, or carries a number that `int` does not
read.  The percentage of a line is always in range, because the expression
reads at most two digits before the point or a plain hundred
(`percentOf_mem`); the message is one of three.  What is left are the two
counts, which the expression takes from any fraction in the line.

Main results: `emit_isOk_iff` for one line, and for whole runs
`emit_run_orderly` (every record is decoded and the phases do not go back)
and `emit_run_survives_iff` (a run goes through exactly when every line is
accepted).
-/
import InferBridge.ConsoleProgress

namespace InferBridge

open Text

variable {unicode : UnicodeTables}

/-! ### The value of a numeral -/

theorem UnicodeTables.isDecimal_of_ascii {c : Char} (h : c.toNat < 128) :
    unicode.isDecimal c = (asciiDigit c).isSome := by
  rw [isDecimal, unicode.decimal_ascii c h]

/-- Reading on after `n`. -/
theorem foldl_readDecimal (digits : Str) (n : Nat) :
    digits.foldl (fun n c => 10 * n + (unicode.decimal c).elim 0 Fin.val) n =
      n * 10 ^ digits.length + readDecimal unicode digits := by
  induction digits generalizing n with
  | nil => simp [readDecimal]
  | cons c digits ih =>
    rw [readDecimal, List.foldl_cons, List.foldl_cons, ih, ih, List.length_cons, pow_succ]
    ring

theorem readDecimal_cons (c : Char) (digits : Str) :
    readDecimal unicode (c :: digits) =
      (unicode.decimal c).elim 0 Fin.val * 10 ^ digits.length + readDecimal unicode digits := by
  rw [readDecimal, List.foldl_cons, foldl_readDecimal]
  simp

theorem readDecimal_lt (digits : Str) : readDecimal unicode digits < 10 ^ digits.length := by
  induction digits with
  | nil => simp [readDecimal]
  | cons c digits ih =>
    have hdigit : (unicode.decimal c).elim 0 Fin.val ≤ 9 := by
      cases unicode.decimal c with
      | none => exact Nat.zero_le 9
      | some d => exact Nat.le_of_lt_succ d.isLt
    have hmul := Nat.mul_le_mul_right (10 ^ digits.length) hdigit
    rw [readDecimal_cons, List.length_cons, pow_succ]
    omega

theorem readDecimal_zeros {digits : Str} (h : ∀ c ∈ digits, c = '0') :
    readDecimal unicode digits = 0 := by
  induction digits with
  | nil => rfl
  | cons c digits ih =>
    obtain rfl := h c List.mem_cons_self
    rw [readDecimal_cons, ih fun d hd => h d (List.mem_cons_of_mem _ hd),
      unicode.decimal_ascii _ (by decide)]
    simp [asciiDigit]

/-- A numeral without a point. -/
theorem numeralValue_whole {whole : Str} (h : ∀ c ∈ whole, c ≠ '.') :
    numeralValue unicode whole = readDecimal unicode whole := by
  have htake : whole.takeWhile (fun c => c ≠ '.') = whole :=
    List.takeWhile_eq_self_iff.mpr (by simpa using h)
  have hdrop : whole.dropWhile (fun c => c ≠ '.') = [] :=
    List.dropWhile_eq_nil_iff.mpr (by simpa using h)
  rw [numeralValue, htake, hdrop]
  simp [readDecimal]

theorem numeralValue_point {whole fraction : Str} (h : ∀ c ∈ whole, c ≠ '.') :
    numeralValue unicode (whole ++ '.' :: fraction) =
      readDecimal unicode whole + readDecimal unicode fraction / 10 ^ fraction.length := by
  have htake : (whole ++ '.' :: fraction).takeWhile (fun c => c ≠ '.') = whole := by
    rw [List.takeWhile_append_of_pos (by simpa using h)]
    simp
  have hdrop : (whole ++ '.' :: fraction).dropWhile (fun c => c ≠ '.') = '.' :: fraction := by
    rw [List.dropWhile_append_of_pos (by simpa using h)]
    simp
  rw [numeralValue, htake, hdrop]
  rfl

theorem numeralValue_nonneg (numeral : Str) : 0 ≤ numeralValue unicode numeral := by
  rw [numeralValue]
  positivity

/-! ### The percentage of a line -/

/-- What may follow the whole part of a percentage. -/
theorem of_mem_fraction {p : Char → Bool} {before : Option Char} {t : Str} {m : Match Char}
    (h : m ∈ (Pattern.opt (.seq (char '.') (Pattern.many1 p))).found before t) :
    m.taken = [] ∨ ∃ fraction, m.taken = '.' :: fraction ∧ ∀ c ∈ fraction, p c = true := by
  rcases Pattern.mem_opt.mp h with h | rfl
  · obtain ⟨m₁, h₁, m₂, h₂, rfl⟩ := Pattern.mem_seq.mp h
    obtain ⟨c, hc, -, htaken, -⟩ := Pattern.mem_symbol.mp h₁
    obtain rfl : c = '.' := by simpa using hc
    obtain ⟨-, hall, -⟩ := Pattern.of_mem_many1 h₂
    exact .inr ⟨m₂.taken, by simp [htaken], hall⟩
  · exact .inl rfl

theorem ne_point_of_isDecimal {c : Char} (h : unicode.isDecimal c = true) : c ≠ '.' := by
  rintro rfl
  rw [UnicodeTables.isDecimal_of_ascii (by decide)] at h
  cases h

/-- The number of the percent expression is at most a hundred. -/
theorem numeralValue_le_of_mem {before : Option Char} {t : Str} {m : Match Char}
    (h : m ∈ (percentNumber unicode).found before t) : numeralValue unicode m.taken ≤ 100 := by
  rcases Pattern.mem_alt.mp h with h | h
  · -- a hundred, with nothing but zeros after the point
    obtain ⟨m₁, h₁, m₂, h₂, rfl⟩ := Pattern.mem_seq.mp h
    have hwhole : m₁.taken = ['1', '0', '0'] := taken_of_mem_literal h₁
    have hvalue : readDecimal unicode m₁.taken = 100 := by
      rw [hwhole]
      simp [readDecimal, unicode.decimal_ascii, asciiDigit]
    have hpoint : ∀ c ∈ m₁.taken, c ≠ '.' := by
      simp [hwhole]
    show numeralValue unicode (m₁.taken ++ m₂.taken) ≤ 100
    rcases of_mem_fraction h₂ with hnil | ⟨fraction, hfraction, hzeros⟩
    · rw [hnil, List.append_nil, numeralValue_whole hpoint, hvalue]
      norm_num
    · rw [hfraction, numeralValue_point hpoint, hvalue,
        readDecimal_zeros (by simpa using hzeros)]
      norm_num
  · -- at most two digits before the point
    obtain ⟨m₁, h₁, m₂, h₂, rfl⟩ := Pattern.mem_seq.mp h
    obtain ⟨m₃, h₃, m₄, h₄, rfl⟩ := Pattern.mem_seq.mp h₂
    obtain ⟨d, hd, -, htaken, -⟩ := Pattern.mem_symbol.mp h₃
    have hfirst : m₁.taken.length ≤ 1 ∧ ∀ c ∈ m₁.taken, c ≠ '.' := by
      rcases Pattern.mem_opt.mp h₁ with h₁ | rfl
      · obtain ⟨c, hc, -, hc', -⟩ := Pattern.mem_symbol.mp h₁
        rw [hc']
        refine ⟨le_rfl, ?_⟩
        intro c' hmem
        obtain rfl := List.mem_singleton.mp hmem
        rintro rfl
        cases hc
      · simp
    have hpoint : ∀ c ∈ m₁.taken ++ [d], c ≠ '.' := by
      intro c hc
      rcases List.mem_append.mp hc with hc | hc
      · exact hfirst.2 c hc
      · rw [List.mem_singleton.mp hc]
        exact ne_point_of_isDecimal hd
    have hvalue : (readDecimal unicode (m₁.taken ++ [d]) : ℚ) ≤ 99 := by
      have hlt : readDecimal unicode (m₁.taken ++ [d]) < _ := readDecimal_lt (m₁.taken ++ [d])
      have hpow : 10 ^ (m₁.taken ++ [d]).length ≤ 10 ^ 2 :=
        Nat.pow_le_pow_right (by norm_num) (by simpa using hfirst.1)
      exact_mod_cast (by omega : readDecimal unicode (m₁.taken ++ [d]) ≤ 99)
    show numeralValue unicode (m₁.taken ++ (m₃.taken ++ m₄.taken)) ≤ 100
    rw [htaken, ← List.append_assoc]
    rcases of_mem_fraction h₄ with hnil | ⟨fraction, hfraction, -⟩
    · rw [hnil, List.append_nil, numeralValue_whole hpoint]
      linarith
    · have hfrac : (readDecimal unicode fraction : ℚ) / 10 ^ fraction.length ≤ 1 := by
        rw [div_le_one (by positivity)]
        exact_mod_cast (readDecimal_lt fraction).le
      rw [hfraction, numeralValue_point hpoint]
      linarith

/-- **The percentage of a line is a percentage.** -/
theorem percentOf_mem {line : Str} {q : ℚ} (h : percentOf unicode line = some q) :
    0 ≤ q ∧ q ≤ 100 := by
  obtain ⟨numeral, hnumeral, rfl⟩ := Option.map_eq_some_iff.mp h
  obtain ⟨s, hs, hgroup⟩ := Option.bind_eq_some_iff.mp hnumeral
  obtain ⟨-, before, t, hm⟩ := Pattern.of_search hs
  obtain ⟨m₁, h₁, m₂, h₂, hm⟩ := Pattern.mem_seq.mp hm
  obtain ⟨-, rfl⟩ := Pattern.mem_notAfter.mp h₁
  obtain ⟨m₃, h₃, m₄, -, rfl⟩ := Pattern.mem_seq.mp h₂
  obtain ⟨m₅, h₅, rfl⟩ := Pattern.mem_group.mp h₃
  obtain rfl : m₅.taken = numeral := by simpa [hm] using hgroup
  have hnonneg : 0 ≤ numeralValue unicode m₅.taken := numeralValue_nonneg m₅.taken
  exact ⟨Binary64.round_nonneg hnonneg,
    Binary64.round_le_natCast (m := 100) (by norm_num) hnonneg (numeralValue_le_of_mem h₅)⟩

/-! ### The prefix of a printed line -/

/-- No number begins in a text without digits. -/
theorem skips_of_notDecimal {b : Pattern Char} {u t : Str} {before : Option Char}
    (hb : ∀ c before t, unicode.isDecimal c = false → b.found before (c :: t) = [])
    (hu : ∀ c ∈ u, unicode.isDecimal c = false) :
    (Pattern.seq (.notAfter unicode.isDecimal) b).Skips before u t := by
  apply Pattern.skips_of_forall
  intro c hc before t
  apply List.eq_nil_iff_forall_not_mem.mpr
  intro m hm
  obtain ⟨m₁, h₁, m₂, h₂, -⟩ := Pattern.mem_seq.mp hm
  obtain ⟨-, rfl⟩ := Pattern.mem_notAfter.mp h₁
  rw [hb c _ t (hu c hc)] at h₂
  cases h₂

theorem isDecimal_downloadingPrefix : ∀ c ∈ downloadingPrefix, unicode.isDecimal c = false := by
  intro c hc
  have hascii : c.toNat < 128 ∧ asciiDigit c = none := by
    have hall : downloadingPrefix.all fun c => c.toNat < 128 ∧ asciiDigit c = none := by decide
    simpa using List.all_eq_true.mp hall c hc
  rw [UnicodeTables.isDecimal_of_ascii hascii.1, hascii.2]
  rfl

/-- A pattern for numbers finds the same behind the prefix. -/
theorem searchLine_downloadingPrefix {b : Pattern Char} (hblind : b.blind = true)
    (hb : ∀ c before t, unicode.isDecimal c = false → b.found before (c :: t) = []) (line : Str) :
    searchLine (.seq (.notAfter unicode.isDecimal) b) (downloadingPrefix ++ line) =
      (searchLine (.seq (.notAfter unicode.isDecimal) b) line).map fun s =>
        (downloadingPrefix ++ s.1, s.2) := by
  have hspace : (some ' ').any unicode.isDecimal = false :=
    isDecimal_downloadingPrefix ' ' (by decide)
  have hnone : (none : Option Char).any unicode.isDecimal = false := rfl
  have hsame := Pattern.search_congr (Pattern.found_seq_notAfter hblind hspace hnone line)
  rw [searchLine, searchLine,
    Pattern.search_append (skips_of_notDecimal hb isDecimal_downloadingPrefix), ← hsame]
  rfl

theorem isDecimal_of_charRange {c : Char} (h : charRange 0x30 0x39 c = true) :
    unicode.isDecimal c = true := by
  simp only [charRange, decide_eq_true_eq] at h
  rw [UnicodeTables.isDecimal_of_ascii (by omega), asciiDigit, dif_pos h]
  rfl

/-- The number of a percentage begins with a digit. -/
theorem isDecimal_of_mem_percentNumber {c : Char} {before : Option Char} {t : Str}
    {m : Match Char} (h : m ∈ (percentNumber unicode).found before (c :: t)) :
    unicode.isDecimal c = true := by
  rcases Pattern.mem_alt.mp h with h | h
  · obtain ⟨m₁, h₁, -⟩ := Pattern.mem_seq.mp h
    have hsplit := Pattern.taken_append_rest h₁
    rw [taken_of_mem_literal h₁] at hsplit
    obtain rfl : '1' = c := (List.cons.inj hsplit).1
    exact isDecimal_of_charRange rfl
  · obtain ⟨m₁, h₁, m₂, h₂, -⟩ := Pattern.mem_seq.mp h
    rcases Pattern.mem_opt.mp h₁ with h₁ | rfl
    · obtain ⟨d, hd, hc, -⟩ := Pattern.mem_symbol.mp h₁
      obtain rfl : c = d := (List.cons.inj hc).1
      simp only [charRange, decide_eq_true_eq] at hd
      exact isDecimal_of_charRange (by simp only [charRange, decide_eq_true_eq]; omega)
    · obtain ⟨m₃, h₃, -⟩ := Pattern.mem_seq.mp h₂
      obtain ⟨d, hd, hc, -⟩ := Pattern.mem_symbol.mp h₃
      obtain rfl : c = d := (List.cons.inj hc).1
      exact hd

theorem isDecimal_of_mem_many1 {c : Char} {before : Option Char} {t : Str} {m : Match Char}
    (h : m ∈ (Pattern.many1 unicode.isDecimal).found before (c :: t)) :
    unicode.isDecimal c = true := by
  obtain ⟨m₁, h₁, -⟩ := Pattern.mem_seq.mp h
  obtain ⟨d, hd, hc, -⟩ := Pattern.mem_symbol.mp h₁
  obtain rfl : c = d := (List.cons.inj hc).1
  exact hd

/-- A group that begins with a digit, and what follows it, match nothing elsewhere. -/
theorem found_group_of_notDecimal {a b : Pattern Char} {c : Char} {before : Option Char} {t : Str}
    (ha : ∀ m ∈ a.found before (c :: t), unicode.isDecimal c = true)
    (hc : unicode.isDecimal c = false) :
    (Pattern.seq (.group a) b).found before (c :: t) = [] := by
  apply List.eq_nil_iff_forall_not_mem.mpr
  intro m hm
  obtain ⟨m₁, h₁, -⟩ := Pattern.mem_seq.mp hm
  obtain ⟨m₂, h₂, -⟩ := Pattern.mem_group.mp h₁
  rw [ha m₂ h₂] at hc
  cases hc

theorem percentOf_downloadingPrefix (line : Str) :
    percentOf unicode (downloadingPrefix ++ line) = percentOf unicode line := by
  rw [percentOf, percentPattern, searchLine_downloadingPrefix rfl, percentOf, percentPattern,
    Option.bind_map]
  · rfl
  · intro c before t hc
    exact found_group_of_notDecimal (fun m hm => isDecimal_of_mem_percentNumber hm) hc

theorem countsOf_downloadingPrefix (line : Str) :
    countsOf unicode (downloadingPrefix ++ line) = countsOf unicode line := by
  rw [countsOf, countPattern, searchLine_downloadingPrefix rfl, countsOf, countPattern]
  · cases searchLine _ line <;> rfl
  · intro c before t hc
    exact found_group_of_notDecimal (fun m hm => isDecimal_of_mem_many1 hm) hc

/-- The wording of a line about downloads stays what it is. -/
theorem wordingOf_downloadingPrefix {line : Str}
    (h : mentions (downloadPattern unicode) line = true) :
    wordingOf unicode (downloadingPrefix ++ line) = wordingOf unicode line := by
  have hskips : finalizePattern.Skips none downloadingPrefix line := by
    have hall : downloadingPrefix.tails.all fun v => v = [] ∨
        (["save", "write", "serializ", "finaliz"].map fun word => word.toList.map letter).all
          fun ps => Pattern.differs ps v = true := by
      decide
    show (Pattern.oneOf ((["save", "write", "serializ", "finaliz"].map fun word =>
      word.toList.map letter).map Pattern.symbols)).Skips none downloadingPrefix line
    apply Pattern.skips_oneOf
    intro v hv hne
    have hv := List.all_eq_true.mp hall v hv
    simpa [hne] using hv
  have hfinalize : mentions finalizePattern (downloadingPrefix ++ line) =
      mentions finalizePattern line := by
    rw [mentions, searchLine, Pattern.search_append hskips, Option.isSome_map, mentions,
      searchLine, Pattern.search_congr (Pattern.found_of_blind rfl _ none line)]
  have hdownload : mentions (downloadPattern unicode) (downloadingPrefix ++ line) = true :=
    Pattern.search_isSome_append rfl h downloadingPrefix
  rw [wordingOf, wordingOf, hfinalize, hdownload, h]
  rfl

/-- **The prefix changes nothing** in what a line says. -/
theorem structuredProgressFromLine_printedLine (line : Str) :
    structuredProgressFromLine unicode (printedLine unicode line) =
      structuredProgressFromLine unicode line := by
  rw [printedLine]
  split
  · next h =>
    rw [structuredProgressFromLine, structuredProgressFromLine, percentOf_downloadingPrefix,
      countsOf_downloadingPrefix, wordingOf_downloadingPrefix h.2.1]
  · rfl

/-! ### One line -/

/-- The messages of the emitter. -/
def consoleMessages : List String := [finalizingMessage, downloadingMessage, convertingMessage]

theorem normalizeEmittedMessage_consoleMessages : ∀ message ∈ consoleMessages,
    normalizeEmittedMessage message.toList = .ok message.toList := by
  decide

theorem message_of_structuredProgressFromLine {line : Str} {state : ProtocolState}
    (h : structuredProgressFromLine unicode line = .ok (some state)) :
    state.message ∈ consoleMessages ∧ ∀ q ∈ state.percent, 0 ≤ q ∧ q ≤ 100 := by
  obtain ⟨⟨completed, total⟩, -, hstate⟩ := Accepted.bind_eq_ok.mp h
  obtain ⟨⟨phase, message⟩, hwording, rfl⟩ :=
    Option.map_eq_some_iff.mp (Except.ok.inj hstate)
  refine ⟨?_, fun q hq => percentOf_mem hq⟩
  show message ∈ consoleMessages
  rw [wordingOf] at hwording
  split at hwording
  · cases hwording
    decide
  · split at hwording
    · cases hwording
      decide
    · split at hwording
      · cases hwording
        decide
      · cases hwording

namespace ProgressLineEmitter

/-- A state that becomes a record: its counts are ordered, the model id is not blank and the
clock is after the epoch. -/
def reportable (protocolEmitter : ProgressEventEmitter) (state : ProtocolState) (time : ℚ) : Bool :=
  (∀ m ∈ protocolEmitter.modelId, strip isSpace m ≠ []) ∧
    exceeds state.completed state.total = false ∧ 0 < time

/-- The line does no harm: it is dropped, says nothing, repeats the last state, or is turned
into a state that can be reported. -/
def accepts (unicode : UnicodeTables) (s : ProgressLineEmitter) (update : ConsoleUpdate) : Bool :=
  let line := cleanConsoleLine update.line
  decide (line = []) || s.drops unicode line update.now ||
    match s.protocolEmitter with
    | none => true
    | some protocolEmitter =>
      match structuredProgressFromLine unicode line with
      -- a count with more digits than `int` reads
      | .error _ => false
      | .ok none => true
      | .ok (some state) =>
        decide (some (s.settle state) = s.lastProtocolState) ||
          reportable protocolEmitter state update.time

/-- The record that a state becomes. -/
def record (s : ProgressLineEmitter) (protocolEmitter : ProgressEventEmitter)
    (state : ProtocolState) (time : ℚ) : WireValue :=
  (protocolEmitter.event (s.settle state).phase.phase (s.settle state).message.toList
    (s.settle state).percent (s.settle state).completed (s.settle state).total time).asDict

/-- Settling changes the phase and the message only. -/
theorem settle_counts (s : ProgressLineEmitter) (state : ProtocolState) :
    (s.settle state).percent = state.percent ∧ (s.settle state).completed = state.completed ∧
      (s.settle state).total = state.total := by
  rw [settle]
  split
  · exact ⟨rfl, rfl, rfl⟩
  · exact ⟨rfl, rfl, rfl⟩

theorem settle_message {s : ProgressLineEmitter} {state : ProtocolState}
    (h : state.message ∈ consoleMessages) : (s.settle state).message ∈ consoleMessages := by
  rw [settle]
  split
  · show (if s.phase = .finalizing then finalizingMessage else convertingMessage) ∈ _
    split
    · decide
    · decide
  · exact h

theorem rank_le_settle (s : ProgressLineEmitter) (state : ProtocolState) :
    s.phase.rank ≤ (s.settle state).phase.rank := by
  rw [settle]
  split
  · exact le_rfl
  · next h => exact not_lt.mp h

/-- What reporting a state of a line does. -/
theorem report_eq_ok {s s' : ProgressLineEmitter} {protocolEmitter : ProgressEventEmitter}
    {state : ProtocolState} {time : ℚ} (hmessage : state.message ∈ consoleMessages)
    (hpercent : ∀ q ∈ state.percent, 0 ≤ q ∧ q ≤ 100) :
    s.report protocolEmitter state time = .ok s' ↔
      (some (s.settle state) = s.lastProtocolState ∧
        s' = { s with phase := (s.settle state).phase }) ∨
      (some (s.settle state) ≠ s.lastProtocolState ∧
        reportable protocolEmitter state time = true ∧
        s' = { s with
          phase := (s.settle state).phase
          lastProtocolState := some (s.settle state)
          protocolEmitter := some { protocolEmitter with
            stream := protocolEmitter.stream ++ [s.record protocolEmitter state time]
            revision := protocolEmitter.revision + 1 } }) := by
  obtain ⟨hpercent', hcompleted, htotal⟩ := s.settle_counts state
  have hnormal := normalizeEmittedMessage_consoleMessages _ (settle_message (s := s) hmessage)
  rw [report]
  dsimp only
  split
  · next hsame =>
    constructor
    · intro hok
      exact .inl ⟨hsame, (Except.ok.inj hok).symm⟩
    · rintro (⟨-, rfl⟩ | ⟨hnew, -⟩)
      · rfl
      · exact absurd hsame hnew
  · next hnew =>
    rw [Accepted.bind_eq_ok]
    constructor
    · rintro ⟨emitter', hemit, hok⟩
      obtain ⟨message, hmessage', ⟨hmodel, hcounts, htime, -⟩, rfl⟩ :=
        ProgressEventEmitter.emit_eq_ok.mp hemit
      rw [hnormal] at hmessage'
      cases hmessage'
      rw [hcompleted, htotal] at hcounts
      exact .inr ⟨hnew, by simpa [reportable] using ⟨hmodel, hcounts, htime⟩,
        (Except.ok.inj hok).symm⟩
    · rintro (⟨hsame, -⟩ | ⟨-, hreportable, rfl⟩)
      · exact absurd hsame hnew
      obtain ⟨hmodel, hcounts, htime⟩ : (∀ m ∈ protocolEmitter.modelId, strip isSpace m ≠ []) ∧
          exceeds state.completed state.total = false ∧ 0 < time := by
        simpa [reportable] using hreportable
      refine ⟨_, ProgressEventEmitter.emit_eq_ok.mpr ⟨_, hnormal, ⟨hmodel, ?_, htime, ?_⟩, rfl⟩, rfl⟩
      · rw [hcompleted, htotal]
        exact hcounts
      · rw [hpercent']
        exact hpercent

/-- A line that is not dropped is interpreted in a state that agrees with the one before in
all that a report depends on. -/
theorem emit_of_kept {s : ProgressLineEmitter} {update : ConsoleUpdate}
    (hempty : cleanConsoleLine update.line ≠ [])
    (hdrops : ¬ s.drops unicode (cleanConsoleLine update.line) update.now = true) :
    ∃ t : ProgressLineEmitter,
      s.emit unicode update =
        t.interpret unicode (printedLine unicode (cleanConsoleLine update.line)) update.time ∧
      t.protocolEmitter = s.protocolEmitter ∧ t.phase = s.phase ∧
      t.lastProtocolState = s.lastProtocolState ∧ ∀ state, t.settle state = s.settle state := by
  refine ⟨_, by rw [emit, if_neg hempty, if_neg hdrops], ?_⟩
  rw [noteRedraw]
  cases redrawOf unicode (cleanConsoleLine update.line) with
  | none => exact ⟨rfl, rfl, rfl, fun _ => rfl⟩
  | some redraw => exact ⟨rfl, rfl, rfl, fun _ => rfl⟩

/-- **What a line does**: either nothing is reported, or a state that can be reported becomes
the next record, in a phase that is no earlier. -/
theorem emit_cases {s s' : ProgressLineEmitter} {update : ConsoleUpdate}
    (h : s.emit unicode update = .ok s') :
    (s'.protocolEmitter = s.protocolEmitter ∧ s.phase.rank ≤ s'.phase.rank) ∨
      ∃ protocolEmitter state, s.protocolEmitter = some protocolEmitter ∧
        reportable protocolEmitter state update.time = true ∧
        (s.settle state).message ∈ consoleMessages ∧
        (∀ q ∈ state.percent, 0 ≤ q ∧ q ≤ 100) ∧
        s'.phase = (s.settle state).phase ∧
        s'.protocolEmitter = some { protocolEmitter with
          stream := protocolEmitter.stream ++ [s.record protocolEmitter state update.time]
          revision := protocolEmitter.revision + 1 } := by
  by_cases hempty : cleanConsoleLine update.line = []
  · rw [emit, if_pos hempty] at h
    cases h
    exact .inl ⟨rfl, le_rfl⟩
  by_cases hdrops : s.drops unicode (cleanConsoleLine update.line) update.now = true
  · rw [emit, if_neg hempty, if_pos hdrops] at h
    cases h
    exact .inl ⟨rfl, le_rfl⟩
  obtain ⟨t, hemit, hemitter, hphase, -, hsettle⟩ := emit_of_kept hempty hdrops
  rw [hemit, interpret] at h
  split at h
  · cases h
    exact .inl ⟨hemitter, hphase.symm ▸ le_rfl⟩
  · next protocolEmitter hprotocol =>
    obtain ⟨found, hfound, h⟩ := Accepted.bind_eq_ok.mp h
    cases found with
    | none =>
      cases h
      exact .inl ⟨hemitter, hphase.symm ▸ le_rfl⟩
    | some state =>
      obtain ⟨hmessage, hpercent⟩ := message_of_structuredProgressFromLine hfound
      rcases (report_eq_ok hmessage hpercent).mp h with ⟨-, rfl⟩ | ⟨-, hreportable, rfl⟩
      · refine .inl ⟨hemitter, ?_⟩
        show s.phase.rank ≤ (t.settle state).phase.rank
        rw [hsettle]
        exact s.rank_le_settle state
      · refine .inr ⟨protocolEmitter, state, hemitter ▸ hprotocol, hreportable,
          settle_message hmessage, hpercent, ?_, ?_⟩
        · show (t.settle state).phase = _
          rw [hsettle]
        · simp only [record, hsettle]

/-- **When a line does not raise.** -/
theorem emit_isOk_iff {s : ProgressLineEmitter} {update : ConsoleUpdate} :
    (∃ s', s.emit unicode update = .ok s') ↔ s.accepts unicode update = true := by
  rw [accepts]
  by_cases hempty : cleanConsoleLine update.line = []
  · simp [emit, hempty]
  by_cases hdrops : s.drops unicode (cleanConsoleLine update.line) update.now = true
  · simp [emit, hempty, hdrops]
  obtain ⟨t, hemit, hemitter, -, hlast, hsettle⟩ := emit_of_kept hempty hdrops
  rw [hemit, interpret, hemitter, structuredProgressFromLine_printedLine]
  simp only [hempty, hdrops, decide_false, Bool.false_or]
  cases hprotocol : s.protocolEmitter with
  | none => simp
  | some protocolEmitter =>
    cases hfound : structuredProgressFromLine unicode (cleanConsoleLine update.line) with
    | error e =>
      constructor
      · rintro ⟨s', h⟩
        cases h
      · intro h
        cases h
    | ok found =>
      cases found with
      | none => exact iff_of_true ⟨t, rfl⟩ rfl
      | some state =>
        obtain ⟨hmessage, hpercent⟩ := message_of_structuredProgressFromLine hfound
        show (∃ s', t.report protocolEmitter state update.time = .ok s') ↔
          (decide (some (s.settle state) = s.lastProtocolState) ||
            reportable protocolEmitter state update.time) = true
        simp only [report_eq_ok hmessage hpercent, hsettle, hlast, Bool.or_eq_true,
          decide_eq_true_eq]
        constructor
        · rintro ⟨s', ⟨hsame, -⟩ | ⟨-, hreportable, -⟩⟩
          · exact .inl hsame
          · exact .inr hreportable
        · intro h
          by_cases hsame : some (s.settle state) = s.lastProtocolState
          · exact ⟨_, .inl ⟨hsame, rfl⟩⟩
          · exact ⟨_, .inr ⟨hsame, h.resolve_left hsame, rfl⟩⟩

/-! ### Runs -/

/-- One line of a run; `none` is an exception that leaves `emit`. -/
def step (unicode : UnicodeTables) (s : ProgressLineEmitter) (update : ConsoleUpdate) :
    Option ProgressLineEmitter :=
  (s.emit unicode update).toOption

/-- The records on the stream of the protocol emitter. -/
def stream (s : ProgressLineEmitter) : List WireValue :=
  s.protocolEmitter.elim [] ProgressEventEmitter.stream

end ProgressLineEmitter

/-- The decoder reads an event of this phase from the record. -/
def DecodesTo (record : WireValue) (phase : ConsolePhase) : Prop :=
  ∃ event, decodeProgressEvent (.ok record) = .ok (some event) ∧ event.phase = phase.phase

/-- Every record is decoded, and the phases do not go back. -/
def Orderly (records : List WireValue) : Prop :=
  ∃ phases : List ConsolePhase, List.Forall₂ DecodesTo records phases ∧
    phases.Pairwise fun a b => a.rank ≤ b.rank

namespace ProgressLineEmitter

/-- What a run has reported after `before`: records in order, in phases up to the present one. -/
def Reported (before : List WireValue) (s : ProgressLineEmitter) : Prop :=
  ∃ (records : List WireValue) (phases : List ConsolePhase), s.stream = before ++ records ∧
    List.Forall₂ DecodesTo records phases ∧
    phases.Pairwise (fun a b => a.rank ≤ b.rank) ∧ ∀ phase ∈ phases, phase.rank ≤ s.phase.rank

theorem Reported.orderly {before : List WireValue} {s : ProgressLineEmitter}
    (h : Reported before s) : ∃ records, s.stream = before ++ records ∧ Orderly records := by
  obtain ⟨records, phases, hstream, hdecode, hordered, -⟩ := h
  exact ⟨records, hstream, phases, hdecode, hordered⟩

theorem reported_start (protocolEmitter : Option ProgressEventEmitter) :
    Reported (start protocolEmitter).stream (start protocolEmitter) :=
  ⟨[], [], (List.append_nil _).symm, List.Forall₂.nil, List.Pairwise.nil, by simp⟩

/-- The record of a reportable state is decoded. -/
theorem decodesTo_record {s : ProgressLineEmitter} {protocolEmitter : ProgressEventEmitter}
    {state : ProtocolState} {time : ℚ} (hreportable : reportable protocolEmitter state time = true)
    (hmessage : (s.settle state).message ∈ consoleMessages)
    (hpercent : ∀ q ∈ state.percent, 0 ≤ q ∧ q ≤ 100) :
    DecodesTo (s.record protocolEmitter state time) (s.settle state).phase := by
  obtain ⟨hpercent', hcompleted, htotal⟩ := s.settle_counts state
  obtain ⟨hmodel, hcounts, htime⟩ : (∀ m ∈ protocolEmitter.modelId, strip isSpace m ≠ []) ∧
      exceeds state.completed state.total = false ∧ 0 < time := by
    simpa [reportable] using hreportable
  obtain ⟨text, htext⟩ := boundedText_of_normalizeEmittedMessage
    (normalizeEmittedMessage_consoleMessages _ hmessage)
  refine ⟨_, (decodeProgressEvent_event _ _ htext _ _ _ _ _).mpr ⟨⟨hmodel, ?_, htime, ?_⟩, rfl⟩,
    rfl⟩
  · rw [hcompleted, htotal]
    exact hcounts
  · rw [hpercent']
    exact hpercent

/-- One line adds at most one record, in a phase that no earlier record is past. -/
theorem Reported.emit {before : List WireValue} {s s' : ProgressLineEmitter}
    {update : ConsoleUpdate} (h : Reported before s) (hstep : s.emit unicode update = .ok s') :
    Reported before s' := by
  obtain ⟨records, phases, hstream, hdecode, hordered, hbound⟩ := h
  rcases emit_cases hstep with ⟨hemitter, hrank⟩ |
    ⟨protocolEmitter, state, hprotocol, hreportable, hmessage, hpercent, hphase, hemitter⟩
  · refine ⟨records, phases, ?_, hdecode, hordered, fun phase hp => (hbound phase hp).trans hrank⟩
    rw [stream, hemitter]
    exact hstream
  · have hrank := s.rank_le_settle state
    have hbound' : ∀ phase ∈ phases, phase.rank ≤ (s.settle state).phase.rank :=
      fun phase hp => (hbound phase hp).trans hrank
    refine ⟨records ++ [s.record protocolEmitter state update.time],
      phases ++ [(s.settle state).phase], ?_, ?_, ?_, ?_⟩
    · have hbefore : protocolEmitter.stream = before ++ records := by
        rw [← hstream, stream, hprotocol]
        rfl
      rw [stream, hemitter, ← List.append_assoc, ← hbefore]
      rfl
    · exact List.rel_append hdecode
        (List.Forall₂.cons (decodesTo_record hreportable hmessage hpercent) List.Forall₂.nil)
    · rw [List.pairwise_append]
      refine ⟨hordered, List.pairwise_singleton _ _, ?_⟩
      intro a ha b hb
      rw [List.mem_singleton.mp hb]
      exact hbound' a ha
    · intro phase hp
      rw [hphase]
      rcases List.mem_append.mp hp with hp | hp
      · exact hbound' phase hp
      · rw [List.mem_singleton.mp hp]

theorem step_eq_some {s s' : ProgressLineEmitter} {update : ConsoleUpdate} :
    s.step unicode update = some s' ↔ s.emit unicode update = .ok s' := by
  rw [step]
  cases s.emit unicode update <;> simp [Except.toOption]

/-- **What was reported is in order**, as far as a run gets. -/
theorem emit_run_orderly {protocolEmitter : Option ProgressEventEmitter}
    {updates : List ConsoleUpdate} {s : ProgressLineEmitter}
    (hrun : Transition.run (step unicode) (start protocolEmitter) updates = some s) :
    ∃ records, s.stream = (start protocolEmitter).stream ++ records ∧ Orderly records :=
  (Transition.run_always (I := Reported (start protocolEmitter).stream)
    (fun _ _ _ h hstep => h.emit (step_eq_some.mp hstep)) (reported_start protocolEmitter)
    hrun).orderly

/-- The lines do not abort the conversion: none of them raises, and what they report is in
order. -/
def Survives (unicode : UnicodeTables) (protocolEmitter : Option ProgressEventEmitter)
    (updates : List ConsoleUpdate) : Prop :=
  ∃ s, Transition.run (step unicode) (start protocolEmitter) updates = some s ∧
    ∃ records, s.stream = (start protocolEmitter).stream ++ records ∧ Orderly records

/-- **When progress output cannot abort a conversion.**  A run of lines goes through without
an exception, with records that are all decoded and phases that do not go back, exactly when
each of its lines is accepted. -/
theorem emit_run_survives_iff (unicode : UnicodeTables)
    (protocolEmitter : Option ProgressEventEmitter) (updates : List ConsoleUpdate) :
    Survives unicode protocolEmitter updates ↔
      Transition.meets (step unicode) (accepts unicode) (start protocolEmitter) updates = true := by
  have hstep : ∀ (s : ProgressLineEmitter) (update : ConsoleUpdate),
      (s.step unicode update).isSome ↔ s.accepts unicode update = true := by
    intro s update
    rw [← emit_isOk_iff, Option.isSome_iff_exists]
    exact exists_congr fun s' => step_eq_some
  rw [Survives, ← Transition.run_isSome_iff_meets hstep, Option.isSome_iff_exists]
  constructor
  · rintro ⟨s, hrun, -⟩
    exact ⟨s, hrun⟩
  · rintro ⟨s, hrun⟩
    exact ⟨s, hrun, emit_run_orderly hrun⟩

end ProgressLineEmitter

/-- An emitter for the records of one conversion. -/
def sampleEmitter : ProgressEventEmitter where
  operationId := ['o', 'p']
  modelId := none
  stream := []
  revision := 0
  operationId_matches := by decide
  modelId_matches := by simp

/-- A path with a date in it: the two numbers are read as counts, 2024 of 6, and the record is
refused. -/
theorem emit_run_survives_date :
    ¬ ProgressLineEmitter.Survives UnicodeTables.ascii (some sampleEmitter)
      [⟨"Export 2024/6".toList, 10, 1000⟩] := by
  have hraises : Transition.run (ProgressLineEmitter.step UnicodeTables.ascii)
      (ProgressLineEmitter.start (some sampleEmitter))
      [⟨"Export 2024/6".toList, 10, 1000⟩] = none := by
    rw [← Option.isNone_iff_eq_none]
    decide +kernel
  rintro ⟨s, hrun, -⟩
  rw [hraises] at hrun
  cases hrun

/-! ### The lines of the console loop -/

theorem length_cutLine {fuel : Nat} {text : Str}
    (h : text.length ≤ maxConsoleLineChars * (fuel + 1)) :
    ∀ piece ∈ cutLine fuel text, piece.length ≤ maxConsoleLineChars := by
  induction fuel generalizing text with
  | zero =>
    intro piece hpiece
    obtain rfl := List.mem_singleton.mp hpiece
    simpa using h
  | succ fuel ih =>
    intro piece hpiece
    rw [cutLine] at hpiece
    split at hpiece
    · rcases List.mem_cons.mp hpiece with rfl | hpiece
      · exact List.length_take_le _ _
      · refine ih ?_ piece hpiece
        rw [Nat.mul_succ] at h
        rw [List.length_drop]
        omega
    · next hshort =>
      rw [List.mem_singleton.mp hpiece]
      exact Nat.le_of_not_lt hshort

/-- Cutting loses nothing. -/
theorem flatten_cutLine (fuel : Nat) (text : Str) : (cutLine fuel text).flatten = text := by
  induction fuel generalizing text with
  | zero => exact List.append_nil text
  | succ fuel ih =>
    rw [cutLine]
    split
    · rw [List.flatten_cons, ih, List.take_append_drop]
    · exact List.append_nil text

theorem length_pieces (text : Str) : ∀ piece ∈ pieces text, piece.length ≤ maxConsoleLineChars := by
  apply length_cutLine
  show text.length ≤ 4096 * (text.length + 1)
  omega

theorem length_cleanConsoleLine_le (text : Str) : (cleanConsoleLine text).length ≤ text.length :=
  (strip_isInfix isSpace _).length_le.trans
    ((List.filter_sublist).length_le.trans (Pattern.removeAll_sublist text).length_le)

theorem length_cleanLines {lines : List Str} {limit : Nat}
    (h : ∀ line ∈ lines, line.length ≤ limit) : ∀ line ∈ cleanLines lines, line.length ≤ limit := by
  intro line hline
  obtain ⟨raw, hraw, rfl⟩ := List.mem_map.mp (List.mem_of_mem_filter hline)
  exact (length_cleanConsoleLine_le raw).trans (h raw hraw)

theorem length_splitConsoleLines (pending : Str) :
    (∀ line ∈ (splitConsoleLines pending).1, line.length ≤ maxConsoleLineChars) ∧
      (splitConsoleLines pending).2.length ≤ maxConsoleLineChars := by
  rw [splitConsoleLines]
  constructor
  · apply length_cleanLines
    intro line hline
    rcases List.mem_append.mp hline with hline | hline
    · obtain ⟨text, -, hpiece⟩ := List.mem_flatMap.mp hline
      exact length_pieces text line hpiece
    · exact length_pieces _ line (List.mem_of_mem_dropLast hline)
  · show ((pieces _).getLastD []).length ≤ _
    rw [List.getLastD_eq_getLast?]
    rcases hlast : (pieces ((pending.splitOnP _).getLastD [])).getLast? with - | piece
    · exact Nat.zero_le _
    · exact length_pieces _ piece (List.mem_of_getLast? hlast)

/-- No line of the console loop is longer than a line and the end of the last character. -/
theorem length_iterConsoleLines (final : Str) (chunks : List Str) {pending : Str}
    (h : pending.length ≤ maxConsoleLineChars) :
    ∀ line ∈ iterConsoleLines final pending chunks,
      line.length ≤ maxConsoleLineChars + final.length := by
  induction chunks generalizing pending with
  | nil =>
    apply length_cleanLines
    intro line hline
    rw [List.mem_singleton.mp hline, List.length_append]
    omega
  | cons chunk chunks ih =>
    obtain ⟨hlines, hpending⟩ := length_splitConsoleLines (pending ++ chunk)
    intro line hline
    rcases List.mem_append.mp hline with hline | hline
    · exact (hlines line hline).trans (Nat.le_add_right _ _)
    · exact ih hpending line hline

/-- A line that is no longer than what `int` reads has readable counts. -/
theorem countsOf_isOk {line : Str} (h : line.length ≤ maxStrDigits) :
    ∃ counts, countsOf unicode line = .ok counts := by
  rw [countsOf]
  split
  · next completed total hgroups =>
    obtain ⟨s, hs, hgroups⟩ := Option.map_eq_some_iff.mp hgroups
    obtain ⟨hsplit, before, t, hm⟩ := Pattern.of_search hs
    have htaken : s.2.taken.length ≤ line.length := by
      rw [← hsplit, List.length_append, List.length_append]
      omega
    have hread : ∀ g ∈ s.2.groups, ∃ n, intOf unicode g = .ok n := by
      intro g hg
      have hshort := (Pattern.group_length_le hm g hg).trans (htaken.trans h)
      exact ⟨_, if_neg (Nat.not_lt.mpr hshort)⟩
    obtain ⟨n, hn⟩ := hread completed (by rw [hgroups]; exact List.mem_cons_self)
    obtain ⟨k, hk⟩ := hread total (by rw [hgroups]; simp)
    exact ⟨(some n, some k), by rw [hn, hk]; rfl⟩
  · exact ⟨_, rfl⟩

/-- **The console loop never meets the digit limit**: what the decoder adds at the end is at
most three characters, and every line of the loop can be read. -/
theorem structuredProgressFromLine_isOk_of_console {final : Str} (hfinal : final.length ≤ 3)
    (chunks : List Str) : ∀ line ∈ iterConsoleLines final [] chunks,
      ∃ found, structuredProgressFromLine unicode (cleanConsoleLine line) = .ok found := by
  intro line hline
  have hlength := length_iterConsoleLines final chunks (Nat.zero_le _) line hline
  have hshort : (cleanConsoleLine line).length ≤ maxStrDigits := by
    have hclean := length_cleanConsoleLine_le line
    show (cleanConsoleLine line).length ≤ 4300
    have hmax : maxConsoleLineChars = 4096 := rfl
    omega
  obtain ⟨counts, hcounts⟩ :
      ∃ counts, countsOf unicode (cleanConsoleLine line) = .ok counts := countsOf_isOk hshort
  exact ⟨_, by rw [structuredProgressFromLine, hcounts]; rfl⟩

end InferBridge
