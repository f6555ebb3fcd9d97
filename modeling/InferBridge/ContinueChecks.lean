/-
InferBridge/ContinueChecks.lean

The lines of a managed entry, and how they pass the checks of a merge.

Each line of an entry is its indentation and a printable text (`mem_continueEntry`):
a marker, the item, or a setting.  The checks are a fold of `checkLine`, whose state
says whether there was content (`foldlM_content`).  An entry passes behind content or
if it is indented (`foldlM_entry`), and is refused at the left edge before any
content (`foldlM_entry_refused`).  Lines that pass before content pass behind it
unless a document starts before content does (`foldlM_true_iff`).
-/
import InferBridge.ContinueMerge

namespace InferBridge.ContinueConfig

variable {host : Host} {values : ToolConnectionValues} {indent line : Str} {lines : List Str}

/-! ### Texts -/

theorem trim_append_left {s t : Str} (h : ∀ c ∈ s, isWhite c = true) : trim (s ++ t) = trim t := by
  rw [trim, trim, Text.strip, Text.strip, List.dropWhile_append_of_pos h]

theorem trimStart_append_left {s t : Str} (h : ∀ c ∈ s, isWhite c = true) :
    trimStart (s ++ t) = trimStart t := by
  rw [trimStart, trimStart, List.dropWhile_append_of_pos h]

/-- What is left of a line begins as the line does behind its indentation. -/
theorem head?_of_trim {c : Char} {rest : Str} (h : trim line = c :: rest) :
    (trimStart line).head? = some c := by
  obtain ⟨u, hu⟩ := List.rdropWhile_prefix isWhite (trimStart line)
  have htrim : (trimStart line).rdropWhile isWhite = c :: rest := h
  rw [← hu, htrim]
  rfl

/-- A printable character. -/
def Printable (c : Char) : Prop := 0x20 ≤ c.toNat ∧ c.toNat ≤ 0x7E

instance (c : Char) : Decidable (Printable c) := instDecidableAnd

/-- The check of a literal. -/
theorem printable_of_all {s : Str}
    (h : (s.all fun c => decide (0x20 ≤ c.toNat) && decide (c.toNat ≤ 0x7E)) = true) :
    ∀ c ∈ s, Printable c := by
  intro c hc
  have hboth := List.all_eq_true.mp h c hc
  rw [Bool.and_eq_true, decide_eq_true_eq, decide_eq_true_eq] at hboth
  exact hboth

theorem printable_hexDigit {n : Nat} (h : n < 16) : Printable (hexDigit n) := by
  interval_cases n <;> decide

theorem printable_escapeUnit {n : Nat} (hn : n < 0x10000) :
    ∀ c ∈ escapeUnit n, Printable c := by
  intro c hc
  simp only [escapeUnit, List.mem_cons, List.not_mem_nil, or_false] at hc
  rcases hc with rfl | rfl | rfl | rfl | rfl | rfl
  · decide
  · decide
  all_goals exact printable_hexDigit (by omega)

theorem utf16Units_lt (c : Char) : ∀ n ∈ utf16Units c, n < 0x10000 := by
  intro n hn
  have hmax : c.toNat < 0x110000 := by
    have hvalid : c.toNat < 0xD800 ∨ 0xDFFF < c.toNat ∧ c.toNat < 0x110000 := c.valid
    omega
  unfold utf16Units at hn
  split at hn
  · rw [List.mem_singleton] at hn
    omega
  · simp only [List.mem_cons, List.not_mem_nil, or_false] at hn
    omega

theorem printable_escapeChar (d : Char) : ∀ c ∈ escapeChar d, Printable c := by
  intro c hc
  unfold escapeChar at hc
  split at hc
  · next hplain =>
    obtain rfl := List.mem_singleton.mp hc
    rw [isPlain, decide_eq_true_eq] at hplain
    exact hplain.1
  · -- the named escapes first, then the units in hexadecimal
    split_ifs at hc
    iterate 6
      · simp only [List.mem_cons, List.not_mem_nil, or_false] at hc
        rcases hc with rfl | rfl <;> decide
    · obtain ⟨n, hn, hc⟩ := List.mem_flatMap.mp hc
      exact printable_escapeUnit (utf16Units_lt d n hn) c hc

theorem printable_Q (value : Str) : ∀ c ∈ Q value, Printable c := by
  intro c hc
  rw [Q, List.mem_append, List.mem_cons, List.mem_flatMap, List.mem_singleton, or_assoc] at hc
  rcases hc with rfl | ⟨d, -, hc⟩ | rfl
  · decide
  · exact printable_escapeChar d c hc
  · decide

theorem printable_decimal (n : Int) : ∀ c ∈ decimal n, Printable c := by
  intro c hc
  rcases List.mem_append.mp hc with hc | hc
  · split at hc
    · obtain rfl := List.mem_singleton.mp hc
      decide
    · cases hc
  · have hdigit := Nat.isDigit_of_mem_toDigits (by decide) (by decide) hc
    rw [Char.isDigit, Bool.and_eq_true, decide_eq_true_eq, decide_eq_true_eq] at hdigit
    have hlow : 48 ≤ c.toNat := hdigit.1
    have hhigh : c.toNat ≤ 57 := hdigit.2
    exact ⟨by omega, by omega⟩

/-! ### The entry -/

/-- What a setting looks like: printable, indented, and no comment. -/
structure Setting (line : Str) : Prop where
  printable : ∀ c ∈ line, Printable c
  head : line.head? = some ' '
  text : ∃ c, (trimStart line).head? = some c ∧ c ≠ '#'

theorem setting_append {text value : Str} (htext : ∀ c ∈ text, Printable c)
    (hvalue : ∀ c ∈ value, Printable c) (hhead : text.head? = some ' ')
    (hstart : ∃ c, (trimStart text).head? = some c ∧ c ≠ '#') : Setting (text ++ value) where
  printable c hc := (List.mem_append.mp hc).elim (htext c) (hvalue c)
  head := by rw [List.head?_append, hhead, Option.some_or]
  text := by
    obtain ⟨c, hc, hne⟩ := hstart
    have hnil : text.dropWhile isWhite ≠ [] := by
      intro hnil
      rw [trimStart, hnil] at hc
      cases hc
    refine ⟨c, ?_, hne⟩
    rw [trimStart, List.dropWhile_append, if_neg (by simpa using hnil),
      List.head?_append_of_ne_nil _ hnil]
    exact hc

theorem setting_literal {text : Str} (htext : ∀ c ∈ text, Printable c)
    (hhead : text.head? = some ' ')
    (hstart : ∃ c, (trimStart text).head? = some c ∧ c ≠ '#') : Setting text := by
  rw [← List.append_nil text]
  exact setting_append htext (fun _ hc => absurd hc List.not_mem_nil) hhead hstart

theorem setting_of_mem (h : line ∈ entrySettings values) : Setting line := by
  have hlimit : ∀ n : Int, Setting ("    contextLength: ".toList ++ decimal n) := fun n =>
    setting_append (printable_of_all rfl) (printable_decimal n) rfl ⟨'c', rfl, by decide⟩
  have houtput : ∀ n : Int, Setting ("    maxTokens: ".toList ++ decimal n) := fun n =>
    setting_append (printable_of_all rfl) (printable_decimal n) rfl ⟨'m', rfl, by decide⟩
  have hoptions : Setting "  defaultCompletionOptions:".toList :=
    setting_literal (printable_of_all rfl) rfl ⟨'d', rfl, by decide⟩
  rcases List.mem_append.mp h with h | h
  · simp only [List.mem_cons, List.not_mem_nil, or_false] at h
    rcases h with rfl | rfl | rfl | rfl | rfl | rfl | rfl | rfl
    · exact setting_literal (printable_of_all rfl) rfl ⟨'p', rfl, by decide⟩
    · exact setting_append (printable_of_all rfl) (printable_Q _) rfl ⟨'m', rfl, by decide⟩
    · exact setting_append (printable_of_all rfl) (printable_Q _) rfl ⟨'a', rfl, by decide⟩
    · exact setting_append (printable_of_all rfl) (printable_Q _) rfl ⟨'a', rfl, by decide⟩
    · exact setting_literal (printable_of_all rfl) rfl ⟨'r', rfl, by decide⟩
    · exact setting_literal (printable_of_all rfl) rfl ⟨'-', rfl, by decide⟩
    · exact setting_literal (printable_of_all rfl) rfl ⟨'-', rfl, by decide⟩
    · exact setting_literal (printable_of_all rfl) rfl ⟨'-', rfl, by decide⟩
  · split at h
    · cases h
    · rcases List.mem_append.mp h with h | h
      · simp only [List.mem_cons, List.not_mem_nil, or_false] at h
        rcases h with rfl | rfl
        · exact hoptions
        · exact hlimit _
      · split at h
        · cases h
        · rw [List.mem_singleton] at h
          exact h ▸ houtput _

/-- An indentation that the checks let through. -/
structure Indent (indent : Str) : Prop where
  white : ∀ c ∈ indent, isWhite c = true
  spaced : indent = [] ∨ indent.head? = some ' '
  tabless : (indent.dropWhile (· = ' ')).head? ≠ some '\t'
  unbroken : '\n' ∉ indent

/-- The entry line by line. -/
theorem continueEntry_eq :
    continueEntry values indent = (indent ++ startMarker) :: (indent ++ nameItem) ::
      ((entrySettings values).map fun line => indent ++ line) ++ [indent ++ endMarker] := by
  rw [continueEntry, List.map_append, List.map_append]
  rfl

theorem trim_startMarker : trim startMarker = startMarker := by rfl

theorem trim_endMarker : trim endMarker = endMarker := by rfl

theorem endMarker_ne_startMarker : endMarker ≠ startMarker := by decide

theorem isStart_eq_false (h : ∃ c, (trimStart line).head? = some c ∧ c ≠ '#') :
    isStart line = false := by
  obtain ⟨c, hc, hne⟩ := h
  apply decide_eq_false
  intro htrim
  rw [head?_of_trim htrim] at hc
  exact hne (Option.some.inj hc).symm

theorem isEnd_eq_false (h : ∃ c, (trimStart line).head? = some c ∧ c ≠ '#') :
    isEnd line = false := by
  obtain ⟨c, hc, hne⟩ := h
  apply decide_eq_false
  intro htrim
  rw [head?_of_trim htrim] at hc
  exact hne (Option.some.inj hc).symm

theorem isStart_startMarker (h : Indent indent) : isStart (indent ++ startMarker) = true := by
  rw [isStart, trim_append_left h.white, trim_startMarker]
  exact decide_eq_true rfl

theorem isEnd_startMarker (h : Indent indent) : isEnd (indent ++ startMarker) = false := by
  rw [isEnd, trim_append_left h.white, trim_startMarker]
  exact decide_eq_false endMarker_ne_startMarker.symm

theorem isStart_endMarker (h : Indent indent) : isStart (indent ++ endMarker) = false := by
  rw [isStart, trim_append_left h.white, trim_endMarker]
  exact decide_eq_false endMarker_ne_startMarker

theorem isEnd_endMarker (h : Indent indent) : isEnd (indent ++ endMarker) = true := by
  rw [isEnd, trim_append_left h.white, trim_endMarker]
  exact decide_eq_true rfl

/-- The item and the settings are no markers. -/
theorem inner_text (h : Indent indent)
    (hline : line ∈ (indent ++ nameItem) :: (entrySettings values).map fun line => indent ++ line) :
    ∃ c, (trimStart line).head? = some c ∧ c ≠ '#' := by
  rcases List.mem_cons.mp hline with rfl | hline
  · rw [trimStart_append_left h.white]
    exact ⟨'-', rfl, by decide⟩
  · obtain ⟨setting, hsetting, rfl⟩ := List.mem_map.mp hline
    rw [trimStart_append_left h.white]
    exact (setting_of_mem hsetting).text

theorem printable_nameItem : ∀ c ∈ nameItem, Printable c := printable_of_all rfl

/-- What each line of the entry is made of. -/
theorem mem_continueEntry (hline : line ∈ continueEntry values indent) :
    ∃ text : Str, line = indent ++ text ∧ text ≠ [] ∧ (∀ c ∈ text, Printable c) ∧
      (text.head? = some '#' ∨ text.head? = some '-' ∨ text.head? = some ' ') := by
  rw [continueEntry_eq, List.mem_append, List.mem_cons, List.mem_cons, List.mem_map,
    List.mem_singleton, or_assoc, or_assoc] at hline
  rcases hline with rfl | rfl | ⟨setting, hsetting, rfl⟩ | rfl
  · exact ⟨startMarker, rfl, by decide, printable_of_all rfl, .inl rfl⟩
  · exact ⟨nameItem, rfl, by decide, printable_nameItem, .inr (.inl rfl)⟩
  · have hline := setting_of_mem hsetting
    refine ⟨setting, rfl, ?_, hline.printable, .inr (.inr hline.head)⟩
    rintro rfl
    simpa using hline.head
  · exact ⟨endMarker, rfl, by decide, printable_of_all rfl, .inl rfl⟩

theorem entry_unbroken (h : Indent indent) :
    ∀ line ∈ continueEntry values indent, '\n' ∉ line := by
  intro line hline hmem
  obtain ⟨text, rfl, -, hprintable, -⟩ := mem_continueEntry hline
  rcases List.mem_append.mp hmem with hmem | hmem
  · exact h.unbroken hmem
  · exact absurd (hprintable _ hmem) (by decide)

/-- No line of the entry ends with a carriage return. -/
theorem entry_getLast? : ∀ line ∈ continueEntry values indent, line.getLast? ≠ some '\r' := by
  intro line hline hlast
  obtain ⟨text, rfl, hne, hprintable, -⟩ := mem_continueEntry hline
  rw [List.getLast?_append_of_ne_nil _ hne] at hlast
  exact absurd (hprintable _ (List.mem_of_getLast? hlast)) (by decide)

/-! ### The keys -/

/-- A quoted `models` key. -/
def isQuotedKey (line : Str) : Bool :=
  (((dropText (quote :: "models".toList ++ [quote]) line).bind afterColon).isSome ||
    ((dropText (apostrophe :: "models".toList ++ [apostrophe]) line).bind afterColon).isSome)

/-- A `models` key, plain or quoted. -/
def isAnyKey (line : Str) : Bool := isModelsKey line || isQuotedKey line

theorem dropText_isSome {text : Str} (h : (dropText text line).isSome = true) :
    ∃ rest, line = text ++ rest := by
  unfold dropText at h
  split at h
  · next htext =>
    obtain ⟨rest, hrest⟩ := List.isPrefixOf_iff_prefix.mp htext
    exact ⟨rest, hrest.symm⟩
  · cases h

/-- A key stands at the beginning of its line. -/
theorem head?_of_isAnyKey (h : isAnyKey line = true) :
    line.head? = some 'm' ∨ line.head? = some quote ∨ line.head? = some apostrophe := by
  have hdrop : ∀ text : Str, ((dropText text line).bind afterColon).isSome = true →
      ∃ rest, line = text ++ rest := by
    intro text hsome
    apply dropText_isSome
    rcases hd : dropText text line with - | rest
    · rw [hd] at hsome
      cases hsome
    · rfl
  rw [isAnyKey, isModelsKey, modelsRest, isQuotedKey, Bool.or_eq_true, Bool.or_eq_true] at h
  rcases h with h | h | h
  · obtain ⟨rest, rfl⟩ := hdrop _ h
    exact .inl rfl
  · obtain ⟨rest, rfl⟩ := hdrop _ h
    exact .inr (.inl rfl)
  · obtain ⟨rest, rfl⟩ := hdrop _ h
    exact .inr (.inr rfl)

theorem entry_isAnyKey (h : Indent indent) :
    ∀ line ∈ continueEntry values indent, isAnyKey line = false := by
  intro line hline
  obtain ⟨text, rfl, -, -, hhead⟩ := mem_continueEntry hline
  by_contra hkey
  have hkey := head?_of_isAnyKey (Bool.not_eq_false _ ▸ hkey)
  rcases h.spaced with rfl | hspace
  · rw [List.nil_append] at hkey
    rcases hhead with hhead | hhead | hhead <;> rw [hhead] at hkey <;>
      exact absurd hkey (by decide)
  · rw [List.head?_append, hspace, Option.some_or] at hkey
    exact absurd hkey (by decide)

/-! ### The checks -/

/-- The line counts as content: it is no comment, no directive and no document start. -/
def isContent (line : Str) : Bool :=
  let trimmed := line.dropWhile (· = ' ')
  !decide (trimmed = [] ∨ trimmed.head? = some '#') &&
    (decide (line.length ≠ trimmed.length) ||
      !(decide (trimmed.head? = some '%') || "---".toList.isPrefixOf trimmed))

/-- A document starts at the line. -/
def isDocument (line : Str) : Bool := "---".toList.isPrefixOf line

theorem isContent_of_isDocument (h : isDocument line = true) : isContent line = false := by
  obtain ⟨rest, rfl⟩ := List.isPrefixOf_iff_prefix.mp h
  have hself : ("---".toList ++ rest).dropWhile (· = ' ') = "---".toList ++ rest := rfl
  rw [isContent, hself]
  rw [show "---".toList.isPrefixOf ("---".toList ++ rest) = true from h]
  simp

theorem dropWhile_eq_self_of_length {p : Char → Bool}
    (h : line.length = (line.dropWhile p).length) : line.dropWhile p = line :=
  (List.dropWhile_suffix p).eq_of_length h.symm

theorem checkLine_content {saw s : Bool} (h : checkLine host saw line = .ok s) :
    s = (saw || isContent line) := by
  unfold checkLine at h
  dsimp only at h
  unfold isContent
  dsimp only
  split at h
  · cases h
  · split at h
    · cases h
    · split at h
      · next hcomment =>
        obtain rfl := Except.ok.inj h
        rw [decide_eq_true hcomment]
        simp
      · next hcomment =>
        split at h
        · next hlength =>
          obtain rfl := Except.ok.inj h
          rw [decide_eq_false hcomment, decide_eq_true hlength]
          simp
        · next hlength =>
          split at h
          · cases h
          · split at h
            · cases h
            · split at h
              · cases h
              · obtain rfl := Except.ok.inj h
                simp only [hcomment, hlength, decide_false, Bool.not_false, Bool.true_and,
                  Bool.false_or]

/-- What was checked before any content passes behind content, unless a document starts there. -/
theorem checkLine_true_iff {s : Bool} (h : checkLine host false line = .ok s) :
    (∃ s', checkLine host true line = .ok s') ↔ isDocument line = false := by
  have hfirst : isDocument line = true → line.dropWhile (· = ' ') = line ∧
      line.head? = some '-' := by
    intro hdocument
    obtain ⟨rest, hrest⟩ := List.isPrefixOf_iff_prefix.mp hdocument
    rw [← hrest]
    exact ⟨rfl, rfl⟩
  unfold checkLine at h ⊢
  dsimp only at h ⊢
  split at h
  · cases h
  · next hnul =>
    rw [if_neg hnul]
    split at h
    · cases h
    · next htab =>
      rw [if_neg htab]
      split at h
      · next hcomment =>
        rw [if_pos hcomment]
        refine ⟨fun _ => ?_, fun _ => ⟨_, rfl⟩⟩
        by_contra hdocument
        obtain ⟨hself, hhead⟩ := hfirst (by simpa using hdocument)
        rw [hself, hhead] at hcomment
        rcases hcomment with rfl | hcomment
        · cases hhead
        · exact absurd hcomment (by decide)
      · next hcomment =>
        rw [if_neg hcomment]
        split at h
        · next hlength =>
          rw [if_pos hlength]
          refine ⟨fun _ => ?_, fun _ => ⟨_, rfl⟩⟩
          by_contra hdocument
          exact hlength (congrArg List.length (hfirst (by simpa using hdocument)).1.symm)
        · next hlength =>
          have hself := dropWhile_eq_self_of_length (not_not.mp hlength)
          rw [if_neg hlength, hself]
          rw [hself] at h
          split at h
          · cases h
          · next hdots =>
            split at h
            · cases h
            · next hlevel =>
              rw [not_or] at hdots
              cases hdocument : isDocument line with
              | true =>
                  rw [isDocument] at hdocument
                  rw [hdocument, if_pos (.inr rfl)]
                  constructor
                  · rintro ⟨s', hs'⟩
                    cases hs'
                  · intro hfalse
                    cases hfalse
              | false =>
                  rw [isDocument] at hdocument
                  rw [hdocument, if_neg (by simpa using hdots.1), if_neg hlevel, if_neg (by simp)]
                  exact ⟨fun _ => rfl, fun _ => ⟨_, rfl⟩⟩

/-- An indented line or a comment passes. -/
theorem checkLine_inner {saw : Bool} (hnul : Char.ofNat 0 ∉ line)
    (htab : (line.dropWhile (· = ' ')).head? ≠ some '\t')
    (hhead : line.head? = some ' ' ∨ line.head? = some '#') :
    ∃ s, checkLine host saw line = .ok s := by
  unfold checkLine
  dsimp only
  rw [if_neg (by simpa using hnul), if_neg htab]
  split
  · exact ⟨_, rfl⟩
  · next hcomment =>
    rw [if_pos]
    · exact ⟨_, rfl⟩
    · intro hlength
      have hself := dropWhile_eq_self_of_length hlength
      rcases hhead with hhead | hhead
      · -- the first space is gone
        obtain ⟨rest, rfl⟩ : ∃ rest, line = ' ' :: rest := by
          cases line with
          | nil => cases hhead
          | cons c rest =>
              obtain rfl : c = ' ' := Option.some.inj hhead
              exact ⟨rest, rfl⟩
        have hshort := (List.dropWhile_suffix (l := rest) (· = ' ')).length_le
        have hdrop : (' ' :: rest).dropWhile (· = ' ') = rest.dropWhile (· = ' ') := rfl
        rw [hdrop, List.length_cons] at hlength
        omega
      · rw [hself, hhead] at hcomment
        exact hcomment (.inr rfl)

theorem foldlM_content {saw s : Bool} (h : lines.foldlM (checkLine host) saw = .ok s) :
    s = (saw || lines.any isContent) := by
  induction lines generalizing saw with
  | nil =>
      obtain rfl := Except.ok.inj h
      simp
  | cons line lines ih =>
      rw [List.foldlM_cons] at h
      obtain ⟨s', hline, hrest⟩ := Accepted.bind_eq_ok.mp h
      rw [ih hrest, checkLine_content hline, List.any_cons, Bool.or_assoc]

theorem validateFrom_eq_ok {number : Nat} {saw : Bool} :
    validateFrom host number saw lines = .ok () ↔
      ∃ s, lines.foldlM (checkLine host) saw = .ok s := by
  induction lines generalizing number saw with
  | nil => exact ⟨fun _ => ⟨saw, rfl⟩, fun _ => rfl⟩
  | cons line lines ih =>
      rw [validateFrom, List.foldlM_cons]
      rcases hline : checkLine host saw line with fault | s
      · constructor
        · intro h
          cases h
        · rintro ⟨s, h⟩
          cases h
      · exact ih

theorem foldlM_append_eq_ok {saw s : Bool} {lines' : List Str} :
    (lines ++ lines').foldlM (checkLine host) saw = .ok s ↔
      ∃ s', lines.foldlM (checkLine host) saw = .ok s' ∧
        lines'.foldlM (checkLine host) s' = .ok s := by
  rw [List.foldlM_append]
  exact Accepted.bind_eq_ok

/-- Lines that pass without content pass behind content exactly if no document starts before
content does. -/
theorem foldlM_true_iff {s : Bool} (h : lines.foldlM (checkLine host) false = .ok s) :
    (∃ s', lines.foldlM (checkLine host) true = .ok s') ↔
      ∀ line ∈ lines.takeWhile fun line => !isContent line, isDocument line = false := by
  induction lines with
  | nil => exact ⟨fun _ _ hline => absurd hline List.not_mem_nil, fun _ => ⟨true, rfl⟩⟩
  | cons line lines ih =>
      rw [List.foldlM_cons] at h
      obtain ⟨s₁, hline, hrest⟩ := Accepted.bind_eq_ok.mp h
      have hs₁ := checkLine_content hline
      rw [Bool.false_or] at hs₁
      have hpass : ∀ {s'}, checkLine host true line = .ok s' → s' = true := fun hs' => by
        rw [checkLine_content hs', Bool.true_or]
      have hcons : (∃ s', (line :: lines).foldlM (checkLine host) true = .ok s') ↔
          isDocument line = false ∧ ∃ s', lines.foldlM (checkLine host) true = .ok s' := by
        rw [← checkLine_true_iff hline]
        constructor
        · rintro ⟨s', hs'⟩
          rw [List.foldlM_cons] at hs'
          obtain ⟨s₂, hfirst, hs'⟩ := Accepted.bind_eq_ok.mp hs'
          obtain rfl := hpass hfirst
          exact ⟨⟨true, hfirst⟩, s', hs'⟩
        · rintro ⟨⟨s₂, hfirst⟩, s', hs'⟩
          obtain rfl := hpass hfirst
          exact ⟨s', Accepted.bind_eq_ok.mpr ⟨true, hfirst, hs'⟩⟩
      rw [hcons]
      cases hcontent : isContent line with
      | true =>
          -- from here on the two runs are the same
          rw [hcontent] at hs₁
          subst hs₁
          have hdocument : isDocument line = false := by
            by_contra hdocument
            rw [isContent_of_isDocument (by simpa using hdocument)] at hcontent
            cases hcontent
          rw [List.takeWhile_cons_of_neg (by simp [hcontent])]
          exact ⟨fun _ _ hmem => absurd hmem List.not_mem_nil, fun _ => ⟨hdocument, s, hrest⟩⟩
      | false =>
          rw [hcontent] at hs₁
          subst hs₁
          rw [List.takeWhile_cons_of_pos (by simp [hcontent]), List.forall_mem_cons, ih hrest]

/-! ### The checks of the entry -/

theorem entry_no_nul (h : Indent indent) :
    ∀ line ∈ continueEntry values indent, Char.ofNat 0 ∉ line := by
  intro line hline hmem
  obtain ⟨text, rfl, -, hprintable, -⟩ := mem_continueEntry hline
  rcases List.mem_append.mp hmem with hmem | hmem
  · exact absurd (h.white _ hmem) (by decide)
  · exact absurd (hprintable _ hmem) (by decide)

theorem entry_tabless (h : Indent indent) :
    ∀ line ∈ continueEntry values indent,
      (line.dropWhile (· = ' ')).head? ≠ some '\t' := by
  intro line hline htab
  obtain ⟨text, rfl, -, hprintable, -⟩ := mem_continueEntry hline
  rw [List.dropWhile_append] at htab
  split at htab
  · -- the indentation is all spaces
    have hmem : '\t' ∈ text :=
      (List.dropWhile_suffix (· = ' ')).subset (List.mem_of_head? htab)
    exact absurd (hprintable _ hmem) (by decide)
  · next hne =>
    have hnil : indent.dropWhile (· = ' ') ≠ [] := by simpa using hne
    rw [List.head?_append_of_ne_nil _ hnil] at htab
    exact h.tabless htab

/-- The line that is an item at the left edge. -/
theorem checkLine_item {saw : Bool} (hnul : Char.ofNat 0 ∉ line) {rest : Str}
    (hitem : line = '-' :: ' ' :: rest) (htrim : trimEnd line = line) :
    checkLine host saw line = if saw then .ok true else .error .list := by
  subst hitem
  have hlevel : topLevelLine host (trimEnd ('-' :: ' ' :: rest)) = true := by
    rw [htrim, topLevelLine, show "- ".toList.isPrefixOf ('-' :: ' ' :: rest) = true from rfl]
    simp
  have hself : ('-' :: ' ' :: rest).dropWhile (· = ' ') = '-' :: ' ' :: rest := rfl
  have hdocument : "---".toList.isPrefixOf ('-' :: ' ' :: rest) = false := rfl
  unfold checkLine
  dsimp only
  rw [hself, hlevel, hdocument, if_neg (by simpa using hnul)]
  cases saw <;> simp

theorem foldlM_of_forall (h : ∀ line ∈ lines, ∀ saw, ∃ s, checkLine host saw line = .ok s)
    (saw : Bool) : ∃ s, lines.foldlM (checkLine host) saw = .ok s := by
  induction lines generalizing saw with
  | nil => exact ⟨saw, rfl⟩
  | cons line lines ih =>
      obtain ⟨s', hline⟩ := h line List.mem_cons_self saw
      obtain ⟨s, hrest⟩ := ih (fun l hl => h l (List.mem_cons_of_mem _ hl)) s'
      exact ⟨s, Accepted.bind_eq_ok.mpr ⟨s', hline, hrest⟩⟩

theorem checkLine_nameItem {saw : Bool} :
    checkLine host saw nameItem = if saw then .ok true else .error .list :=
  checkLine_item (fun hmem => absurd (printable_nameItem _ hmem) (by decide)) rfl rfl

/-- The lines of the entry that are indented, or comments, pass in any state. -/
theorem entry_passes (h : Indent indent) (hline : line ∈ continueEntry values indent)
    (hhead : line.head? = some ' ' ∨ line.head? = some '#') (saw : Bool) :
    ∃ s, checkLine host saw line = .ok s :=
  checkLine_inner (entry_no_nul h line hline) (entry_tabless h line hline) hhead

theorem head?_indented (h : Indent indent) (hne : indent ≠ []) (text : Str) :
    (indent ++ text).head? = some ' ' := by
  rw [List.head?_append, h.spaced.resolve_left hne, Option.some_or]

/-- A setting counts as content. -/
theorem isContent_setting (h : Indent indent) (hsetting : Setting line) :
    isContent (indent ++ line) = true := by
  obtain ⟨c, hc, hne⟩ := hsetting.text
  have hhead : (indent ++ line).head? = some ' ' := by
    rcases h.spaced with rfl | hspace
    · exact hsetting.head
    · rw [List.head?_append, hspace, Option.some_or]
  obtain ⟨rest, hrest⟩ : ∃ rest, indent ++ line = ' ' :: rest := by
    cases hcase : indent ++ line with
    | nil => rw [hcase] at hhead; cases hhead
    | cons d rest =>
        rw [hcase] at hhead
        exact ⟨rest, by rw [Option.some.inj hhead]⟩
  -- what stands behind the spaces is what stands behind the white space, or white
  have hstart : (trimStart rest).head? = some c := by
    rw [← hc, ← trimStart_append_left (t := line) h.white, hrest]
    rfl
  have hshort := (List.dropWhile_suffix (l := rest) (· = ' ')).length_le
  have hdrop : (' ' :: rest).dropWhile (· = ' ') = rest.dropWhile (· = ' ') := rfl
  have hblank : ¬(rest.dropWhile (· = ' ') = [] ∨
      (rest.dropWhile (· = ' ')).head? = some '#') := by
    have hwhite : trimStart rest = trimStart (rest.dropWhile (· = ' ')) := by
      conv_lhs => rw [← List.takeWhile_append_dropWhile (p := (· = ' ')) (l := rest)]
      apply trimStart_append_left
      intro d hd
      have hspace := List.mem_takeWhile_imp hd
      rw [decide_eq_true_eq] at hspace
      rw [hspace]
      rfl
    rw [hwhite] at hstart
    rintro (hnil | hcomment)
    · rw [hnil] at hstart
      cases hstart
    · obtain ⟨d, tail, htail⟩ : ∃ d tail, rest.dropWhile (· = ' ') = d :: tail := by
        cases hcase : rest.dropWhile (· = ' ') with
        | nil => rw [hcase] at hcomment; cases hcomment
        | cons d tail => exact ⟨d, tail, rfl⟩
      rw [htail] at hcomment hstart
      obtain rfl : d = '#' := Option.some.inj hcomment
      exact hne (Option.some.inj hstart).symm
  have hlength : (' ' :: rest).length ≠ (rest.dropWhile (· = ' ')).length := by
    rw [List.length_cons]
    omega
  rw [hrest, isContent, hdrop, decide_eq_false hblank, decide_eq_true hlength]
  rfl

/-- The marker of an entry at the left edge is a comment. -/
theorem checkLine_startMarker {saw : Bool} : checkLine host saw startMarker = .ok saw := by
  have hprintable : ∀ c ∈ startMarker, Printable c := printable_of_all rfl
  have hnul : ¬startMarker.contains (Char.ofNat 0) = true := by
    rw [List.contains_iff_mem]
    exact fun hmem => absurd (hprintable _ hmem) (by decide)
  have hself : startMarker.dropWhile (· = ' ') = startMarker := rfl
  have hhead : startMarker.head? = some '#' := rfl
  unfold checkLine
  dsimp only
  rw [if_neg hnul, hself, hhead, if_neg (by decide), if_pos (.inr rfl)]

/-- The lines behind the item. -/
def entryTail (values : ToolConnectionValues) (indent : Str) : List Str :=
  (entrySettings values).map (fun line => indent ++ line) ++ [indent ++ endMarker]

theorem continueEntry_eq_tail : continueEntry values indent =
    (indent ++ startMarker) :: (indent ++ nameItem) :: entryTail values indent :=
  continueEntry_eq

/-- Behind the item each line passes, and there is content. -/
theorem foldlM_entryTail (h : Indent indent) (saw : Bool) :
    (entryTail values indent).foldlM (checkLine host) saw = .ok true := by
  have hpass : ∃ s, (entryTail values indent).foldlM (checkLine host) saw = .ok s := by
    apply foldlM_of_forall
    intro line hline
    have hmem : line ∈ continueEntry values indent := by
      rw [continueEntry_eq_tail]
      exact List.mem_cons_of_mem _ (List.mem_cons_of_mem _ hline)
    apply entry_passes h hmem
    · by_cases hne : indent = []
      · subst hne
        rcases List.mem_append.mp hline with hline | hline
        · obtain ⟨setting, hsetting, rfl⟩ := List.mem_map.mp hline
          exact .inl (setting_of_mem hsetting).head
        · rw [List.mem_singleton.mp hline]
          exact .inr rfl
      · rcases List.mem_append.mp hline with hline | hline
        · obtain ⟨setting, -, rfl⟩ := List.mem_map.mp hline
          exact .inl (head?_indented h hne setting)
        · rw [List.mem_singleton.mp hline]
          exact .inl (head?_indented h hne endMarker)
  obtain ⟨s, hs⟩ := hpass
  have hcontent : (entryTail values indent).any isContent = true := by
    have hmem : "  provider: openai".toList ∈ entrySettings values := List.mem_cons_self
    rw [List.any_eq_true]
    exact ⟨indent ++ "  provider: openai".toList,
      List.mem_append_left _ (List.mem_map_of_mem hmem), isContent_setting h (setting_of_mem hmem)⟩
  rw [hs, foldlM_content hs, hcontent, Bool.or_true]

/-- Behind content, or indented, the entry passes; it counts as content. -/
theorem foldlM_entry {saw : Bool} (h : Indent indent) (hplace : indent ≠ [] ∨ saw = true) :
    (continueEntry values indent).foldlM (checkLine host) saw = .ok true := by
  have hfirst : ∃ s₁ s₂, checkLine host saw (indent ++ startMarker) = .ok s₁ ∧
      checkLine host s₁ (indent ++ nameItem) = .ok s₂ := by
    by_cases hne : indent = []
    · subst hne
      obtain rfl := hplace.resolve_left fun hne => hne rfl
      exact ⟨true, true, checkLine_startMarker, checkLine_nameItem⟩
    · have hpass : ∀ text, indent ++ text ∈ continueEntry values indent → ∀ s,
          ∃ s', checkLine host s (indent ++ text) = .ok s' := fun text hmem =>
        entry_passes h hmem (.inl (head?_indented h hne text))
      obtain ⟨s₁, hs₁⟩ := hpass startMarker
        (by rw [continueEntry_eq_tail]; exact List.mem_cons_self) saw
      obtain ⟨s₂, hs₂⟩ := hpass nameItem
        (by rw [continueEntry_eq_tail]; exact List.mem_cons_of_mem _ List.mem_cons_self) s₁
      exact ⟨s₁, s₂, hs₁, hs₂⟩
  obtain ⟨s₁, s₂, hstart, hitem⟩ := hfirst
  rw [continueEntry_eq_tail]
  exact Accepted.bind_eq_ok.mpr ⟨s₁, hstart, Accepted.bind_eq_ok.mpr ⟨s₂, hitem,
    foldlM_entryTail h s₂⟩⟩

/-- At the left edge, before any content, it does not. -/
theorem foldlM_entry_refused {s : Bool} :
    (continueEntry values []).foldlM (checkLine host) false ≠ .ok s := by
  intro h
  rw [continueEntry_eq_tail] at h
  obtain ⟨s₁, hstart, h⟩ := Accepted.bind_eq_ok.mp h
  obtain ⟨s₂, hitem, -⟩ := Accepted.bind_eq_ok.mp h
  have hmarker : checkLine host false startMarker = .ok s₁ := hstart
  rw [checkLine_startMarker] at hmarker
  obtain rfl := Except.ok.inj hmarker
  have hname : checkLine host false nameItem = .ok s₂ := hitem
  rw [checkLine_nameItem] at hname
  cases hname

/-! ### The only line of its kind -/

/-- Around the only line with a property. -/
theorem exists_of_countP_eq_one {p : Str → Bool} (h : lines.countP p = 1) :
    ∃ pre x post, lines = pre ++ x :: post ∧ (∀ y ∈ pre, p y = false) ∧ p x = true ∧
      (∀ y ∈ post, p y = false) ∧ lines.findIdx p = pre.length := by
  induction lines with
  | nil => cases h
  | cons line lines ih =>
      cases hp : p line with
      | true =>
          refine ⟨[], line, lines, rfl, nofun, hp, ?_, by rw [List.findIdx_cons, hp]; rfl⟩
          rw [List.countP_cons_of_pos hp, Nat.add_eq_right, List.countP_eq_zero] at h
          exact fun y hy => by simpa using h y hy
      | false =>
          rw [List.countP_cons_of_neg (by simp [hp])] at h
          obtain ⟨pre, x, post, rfl, hpre, hx, hpost, hindex⟩ := ih h
          refine ⟨line :: pre, x, post, rfl, ?_, hx, hpost, ?_⟩
          · rw [List.forall_mem_cons]
            exact ⟨hp, hpre⟩
          · rw [List.findIdx_cons, hp, hindex]
            rfl

theorem findIdx_append_cons {p : Str → Bool} {pre post : List Str} {x : Str}
    (hpre : ∀ y ∈ pre, p y = false) (hx : p x = true) :
    (pre ++ x :: post).findIdx p = pre.length := by
  induction pre with
  | nil => rw [List.nil_append, List.findIdx_cons, hx]; rfl
  | cons y pre ih =>
      rw [List.cons_append, List.findIdx_cons, hpre y List.mem_cons_self,
        ih fun z hz => hpre z (List.mem_cons_of_mem _ hz)]
      rfl

theorem countP_append_cons {p : Str → Bool} {pre post : List Str} {x : Str}
    (hpre : ∀ y ∈ pre, p y = false) (hx : p x = true) (hpost : ∀ y ∈ post, p y = false) :
    (pre ++ x :: post).countP p = 1 := by
  have hnone : ∀ l : List Str, (∀ y ∈ l, p y = false) → l.countP p = 0 := fun l hl =>
    List.countP_eq_zero.mpr fun y hy => by rw [hl y hy]; exact Bool.false_ne_true
  rw [List.countP_append, List.countP_cons_of_pos hx, hnone pre hpre, hnone post hpost]

end InferBridge.ContinueConfig
