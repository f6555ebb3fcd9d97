/-
InferBridge/ContinuePreservation.lean

When a merge into Continue's `config.yaml` preserves the user's file.

Design.  `Placed` says all that a merge knows about the place of its entry: the
indentation, that no marker stands around it, which lines of the text are around it,
and when the written lines pass the checks again.  It is proved for a managed block
(`placed_block`) and for the `models` list (`placed_list`).  A second merge then
finds the same place (`place_written`), so it writes what a merge of the text with
the second values writes.

Main result.  `merge_preserves_iff`: a merge keeps the lines outside the block, leaves
one block and one `models` key, plain or quoted, and can be repeated, exactly if the
text is `Regular`.
-/
import InferBridge.ContinueChecks

namespace InferBridge.ContinueConfig

variable {host : Host} {values : ToolConnectionValues} {indent line : Str} {lines : List Str}

/-! ### The place of an entry -/

/-- No line is a marker. -/
def Unmarked (lines : List Str) : Prop :=
  ∀ line ∈ lines, isStart line = false ∧ isEnd line = false

/-- There is a managed block. -/
def hasBlock (lines : List Str) : Bool := 0 < lines.countP isStart

/-- The lines of the managed block. -/
def blockLines (lines : List Str) : List Str :=
  (lines.take (lines.findIdx isEnd + 1)).drop (lines.findIdx isStart)

/-- The lines outside the managed block. -/
def outside (lines : List Str) : List Str :=
  if hasBlock lines then
    lines.take (lines.findIdx isStart) ++ lines.drop (lines.findIdx isEnd + 1)
  else lines

variable {before after : List Str}

/-- Where the markers of written lines are. -/
theorem written_markers (values : ToolConnectionValues) (h : Indent indent)
    (hbefore : Unmarked before) (hafter : Unmarked after) :
    let written := before ++ continueEntry values indent ++ after
    written.countP isStart = 1 ∧ written.countP isEnd = 1 ∧
      written.findIdx isStart = before.length ∧
      written.findIdx isEnd = before.length + (entrySettings values).length + 2 := by
  have hinner : ∀ line ∈ (indent ++ nameItem) ::
      (entrySettings values).map (fun line => indent ++ line),
      isStart line = false ∧ isEnd line = false := fun line hline =>
    ⟨isStart_eq_false (inner_text h hline), isEnd_eq_false (inner_text h hline)⟩
  -- the lines, seen from each of the markers
  have hstart : before ++ continueEntry values indent ++ after =
      before ++ (indent ++ startMarker) ::
      ((indent ++ nameItem) :: (entrySettings values).map (fun line => indent ++ line) ++
        (indent ++ endMarker) :: after) := by
    rw [continueEntry_eq]
    simp
  have hend : before ++ continueEntry values indent ++ after =
      (before ++ (indent ++ startMarker) :: (indent ++ nameItem) ::
        (entrySettings values).map (fun line => indent ++ line)) ++
        (indent ++ endMarker) :: after := by
    rw [continueEntry_eq]
    simp
  have hpost : ∀ line ∈ (indent ++ nameItem) ::
      (entrySettings values).map (fun line => indent ++ line) ++ (indent ++ endMarker) :: after,
      isStart line = false := by
    intro line hline
    rcases List.mem_append.mp hline with hline | hline
    · exact (hinner line hline).1
    · rcases List.mem_cons.mp hline with rfl | hline
      · exact isStart_endMarker h
      · exact (hafter line hline).1
  have hpre : ∀ line ∈ before ++ (indent ++ startMarker) :: (indent ++ nameItem) ::
      (entrySettings values).map (fun line => indent ++ line), isEnd line = false := by
    intro line hline
    rcases List.mem_append.mp hline with hline | hline
    · exact (hbefore line hline).2
    · rcases List.mem_cons.mp hline with rfl | hline
      · exact isEnd_startMarker h
      · exact (hinner line hline).2
  refine ⟨?_, ?_, ?_, ?_⟩
  · rw [hstart]
    exact countP_append_cons (fun y hy => (hbefore y hy).1) (isStart_startMarker h) hpost
  · rw [hend]
    exact countP_append_cons hpre (isEnd_endMarker h) fun y hy => (hafter y hy).2
  · rw [hstart]
    exact findIdx_append_cons (fun y hy => (hbefore y hy).1) (isStart_startMarker h)
  · rw [hend, findIdx_append_cons hpre (isEnd_endMarker h)]
    simp
    omega

theorem length_continueEntry :
    (continueEntry values indent).length = (entrySettings values).length + 3 := by
  rw [continueEntry_eq]
  simp

/-- Written lines have their entry where it was put. -/
theorem place_written (h : Indent indent) (hbefore : Unmarked before) (hafter : Unmarked after) :
    place (before ++ continueEntry values indent ++ after) = .ok ⟨before, indent, after⟩ := by
  obtain ⟨hstarts, hends, hstart, hend⟩ :=
    written_markers values h hbefore hafter
  unfold place
  dsimp only
  rw [hstarts, hends, if_neg (by omega), if_pos rfl]
  unfold blockPlace
  dsimp only
  rw [hstart, hend, if_neg (by omega)]
  have htake : (before ++ continueEntry values indent ++ after).take before.length = before := by
    rw [List.append_assoc, List.take_left']
    rfl
  have hdrop : (before ++ continueEntry values indent ++ after).drop
      (before.length + (entrySettings values).length + 2 + 1) = after := by
    apply List.drop_left'
    rw [List.length_append, length_continueEntry]
    omega
  have hline : (before ++ continueEntry values indent ++ after).getD before.length [] =
      indent ++ startMarker := by
    rw [List.append_assoc, continueEntry_eq]
    simp
  have hwhite : (indent ++ startMarker).takeWhile isWhite = indent := by
    rw [List.takeWhile_append_of_pos h.white]
    exact (congrArg (indent ++ ·) (by rfl : startMarker.takeWhile isWhite = [])).trans
      (List.append_nil indent)
  rw [htake, hdrop, hline, hwhite]

/-! ### The indentation of a checked line -/

theorem isWhite_of_dropText {c : Char} {rest : Str} (d : Char) (tail : Str)
    (hd : isWhite d = false) (h : (dropText (d :: tail) (c :: rest)).isSome = true) :
    isWhite c = false := by
  obtain ⟨rest', hrest⟩ := dropText_isSome h
  rw [List.cons_append] at hrest
  rw [(List.cons.inj hrest).1]
  exact hd

theorem isWhite_of_isAlpha {c : Char} (h : c.isAlpha = true) : isWhite c = false := by
  rw [Char.isAlpha, Char.isUpper, Char.isLower, Bool.or_eq_true, decide_eq_true_eq,
    Bool.and_eq_true, decide_eq_true_eq, decide_eq_true_eq] at h
  have hrange : 65 ≤ c.toNat ∧ c.toNat ≤ 90 ∨ 97 ≤ c.toNat ∧ c.toNat ≤ 122 := h
  unfold isWhite
  simp only [decide_eq_false_iff_not]
  omega

theorem isSome_of_any {x : Option Str} {p : Str → Bool} (h : x.any p = true) :
    x.isSome = true := by
  cases x with
  | none => cases h
  | some s => rfl

/-- A line at the top level does not begin with white space. -/
theorem isWhite_of_topLevelLine {c : Char} {rest : Str}
    (h : topLevelLine host (c :: rest) = true) : isWhite c = false := by
  rw [topLevelLine, Bool.or_eq_true, Bool.or_eq_true, Bool.or_eq_true, Bool.or_eq_true] at h
  rcases h with (((h | h) | h) | h) | h
  · apply isWhite_of_dropText '%' ['Y', 'A', 'M', 'L'] (by decide)
    unfold yamlDirective at h
    split at h
    · cases h
    · next heq => exact Option.isSome_of_eq_some heq
    · next heq => exact Option.isSome_of_eq_some heq
  · exact isWhite_of_dropText '-' ['-', '-'] (by decide) (isSome_of_any h)
  · have hkey : (afterKey host (c :: rest)).isSome = true := by
      rcases hafter : afterKey host (c :: rest) with - | s
      · rw [hafter] at h
        cases h
      · rfl
    rw [afterKey] at hkey
    split at hkey
    · next hquote => rcases hquote with rfl | rfl <;> decide
    · split at hkey
      · next hname =>
        rw [Bool.or_eq_true, decide_eq_true_eq] at hname
        rcases hname with halpha | rfl
        · exact isWhite_of_isAlpha halpha
        · decide
      · cases hkey
  · obtain ⟨rest', hrest⟩ := List.isPrefixOf_iff_prefix.mp h
    have hcons : '-' :: (' ' :: rest') = c :: rest := hrest
    rw [← (List.cons.inj hcons).1]
    decide
  · have hcons : c :: rest = '-' :: [] := of_decide_eq_true h
    rw [(List.cons.inj hcons).1]
    decide

theorem head?_trimEnd {c : Char} {rest : Str} (h : trimEnd line = c :: rest) :
    line.head? = some c := by
  obtain ⟨u, hu⟩ := List.rdropWhile_prefix isWhite line
  have htrim : line.rdropWhile isWhite = c :: rest := h
  rw [← hu, htrim]
  rfl

/-- A line at the left edge that passes is a comment, or at the top level. -/
theorem topLevelLine_of_checkLine {saw s : Bool} (h : checkLine host saw line = .ok s)
    (hself : line.dropWhile (· = ' ') = line) (hne : line ≠ []) (hhead : line.head? ≠ some '#') :
    topLevelLine host (trimEnd line) = true := by
  unfold checkLine at h
  dsimp only at h
  rw [hself] at h
  split at h
  · cases h
  · split at h
    · cases h
    · rw [if_neg (by simp [hne, hhead]), if_neg (by simp)] at h
      split at h
      · cases h
      · split at h
        · cases h
        · next hlevel => simpa using hlevel

/-- White space at the beginning of a line that passes is an indentation. -/
theorem indent_of_checkLine {saw s : Bool} (h : checkLine host saw line = .ok s)
    (hbreak : '\n' ∉ line) : Indent (line.takeWhile isWhite) where
  white c hc := List.mem_takeWhile_imp hc
  unbroken hmem := hbreak ((List.takeWhile_prefix isWhite).subset hmem)
  tabless := by
    intro htab
    have hline : (line.dropWhile (· = ' ')).head? = some '\t' := by
      have hne : (line.takeWhile isWhite).dropWhile (· = ' ') ≠ [] := by
        intro hnil
        rw [hnil] at htab
        cases htab
      conv_lhs => rw [← List.takeWhile_append_dropWhile (p := isWhite) (l := line)]
      rw [List.dropWhile_append, if_neg (by simpa using hne), List.head?_append_of_ne_nil _ hne]
      exact htab
    unfold checkLine at h
    dsimp only at h
    split at h
    · cases h
    · cases h
  spaced := by
    cases line with
    | nil => exact .inl rfl
    | cons c rest =>
        cases hc : isWhite c with
        | false =>
            left
            rw [List.takeWhile_cons_of_neg (by simp [hc])]
        | true =>
            right
            rw [List.takeWhile_cons_of_pos hc]
            by_contra hspace
            have hne : c ≠ ' ' := fun heq => hspace (congrArg some heq)
            have hself : (c :: rest).dropWhile (· = ' ') = c :: rest :=
              List.dropWhile_cons_of_neg (by simpa using hne)
            -- then the line is at the top level
            have hcomment : (c :: rest).head? ≠ some '#' := by
              intro heq
              rw [Option.some.inj heq] at hc
              exact absurd hc (by decide)
            have hlevel := topLevelLine_of_checkLine h hself (List.cons_ne_nil c rest) hcomment
            rcases htrim : trimEnd (c :: rest) with - | ⟨d, tail⟩
            · rw [htrim] at hlevel
              cases hlevel
            · rw [htrim] at hlevel
              obtain rfl : c = d := Option.some.inj (head?_trimEnd htrim)
              rw [isWhite_of_topLevelLine hlevel] at hc
              cases hc

/-! ### The key line -/

/-- The key has an empty inline list. -/
def isEmptyKey (line : Str) : Bool := (modelsRest line).any fun rest => isEmptyList (trim rest)

/-- An empty inline list gives way to the bare key. -/
def bare (line : Str) : Str := if isEmptyKey line then "models:".toList else line

/-- The lines that a merge keeps, as they are after it. -/
def kept (lines : List Str) : List Str :=
  if hasBlock lines then outside lines else lines.map bare

theorem isModelsKey_of_isEmptyKey (h : isEmptyKey line = true) : isModelsKey line = true :=
  isSome_of_any h

theorem bare_eq_self (h : isModelsKey line = false) : bare line = line := by
  rw [bare, if_neg]
  intro hempty
  rw [isModelsKey_of_isEmptyKey hempty] at h
  cases h

theorem map_bare_eq_self (h : ∀ line ∈ lines, isModelsKey line = false) :
    lines.map bare = lines := by
  have hmap : lines.map bare = lines.map id :=
    List.map_congr_left fun line hline => bare_eq_self (h line hline)
  rw [hmap, List.map_id]

theorem bareKey_eq_ok {key : Str} (hkey : isModelsKey line = true) (h : bareKey line = .ok key) :
    key = bare line := by
  obtain ⟨rest, hrest⟩ := Option.isSome_iff_exists.mp hkey
  rw [bareKey, hrest] at h
  dsimp only [Option.getD_some] at h
  have hempty : isEmptyKey line = isEmptyList (trim rest) := by rw [isEmptyKey, hrest]; rfl
  rw [bare, hempty]
  split at h
  · next hbare =>
    have hnone : isEmptyList (trim rest) = false := by
      rcases htrim : trim rest with - | ⟨c, tail⟩
      · rfl
      · rw [htrim] at hbare
        obtain rfl : c = '#' := Option.some.inj (hbare.resolve_left (List.cons_ne_nil c tail))
        rfl
    rw [hnone]
    exact (Except.ok.inj h).symm
  · split at h
    · next hlist =>
      rw [if_pos hlist]
      exact (Except.ok.inj h).symm
    · cases h

theorem itemIndent_eq_ok (h : itemIndent lines = .ok indent) :
    indent = "  ".toList ∨ ∃ line ∈ lines, indent = line.takeWhile isWhite := by
  induction lines with
  | nil => exact .inl (Except.ok.inj h).symm
  | cons line lines ih =>
      rw [itemIndent] at h
      split at h
      · rcases ih h with heq | ⟨l, hl, heq⟩
        · exact .inl heq
        · exact .inr ⟨l, List.mem_cons_of_mem _ hl, heq⟩
      · split at h
        · exact .inr ⟨line, List.mem_cons_self, (Except.ok.inj h).symm⟩
        · split at h
          · exact .inl (Except.ok.inj h).symm
          · cases h

theorem startsWith_of_isModelsKey (h : isModelsKey line = true) :
    ∃ rest, line = "models".toList ++ rest := by
  apply dropText_isSome
  rw [isModelsKey, modelsRest] at h
  rcases hd : dropText "models".toList line with - | rest
  · rw [hd] at h
    cases h
  · rfl

/-- A key line is content. -/
theorem isContent_of_isModelsKey (h : isModelsKey line = true) : isContent line = true := by
  obtain ⟨rest, rfl⟩ := startsWith_of_isModelsKey h
  have hself : ("models".toList ++ rest).dropWhile (· = ' ') = "models".toList ++ rest := rfl
  have hhead : ("models".toList ++ rest).head? = some 'm' := rfl
  have hdocument : "---".toList.isPrefixOf ("models".toList ++ rest) = false := rfl
  rw [isContent, hself, hhead, hdocument]
  simp

/-- A key of letters is at the top level. -/
theorem topLevelLine_key {c : Char} {name tail : Str} (hc : c.isAlpha = true)
    (hname : ∀ d ∈ name, d.isAlpha = true) (htail : endsOrWhite tail = true) :
    topLevelLine host (c :: name ++ ':' :: tail) = true := by
  have hascii : ∀ d : Char, d.isAlpha = true → d.toNat < 128 := by
    intro d hd
    rw [Char.isAlpha, Char.isUpper, Char.isLower, Bool.or_eq_true, decide_eq_true_eq,
      Bool.and_eq_true, decide_eq_true_eq, decide_eq_true_eq] at hd
    have hrange : 65 ≤ d.toNat ∧ d.toNat ≤ 90 ∨ 97 ≤ d.toNat ∧ d.toNat ≤ 122 := hd
    omega
  have hword : ∀ d ∈ name, (host.word d || decide (d = '.') || decide (d = '-')) = true := by
    intro d hd
    rw [host.word_ascii d (hascii d (hname d hd)), Char.isAlphanum, hname d hd]
    rfl
  have hcolon : ¬(host.word ':' || decide (':' = '.') || decide (':' = '-')) = true := by
    rw [host.word_ascii ':' (by decide)]
    decide
  have hquote : ¬(c = quote ∨ c = apostrophe) := by
    rintro (rfl | rfl)
    · exact absurd hc (by decide)
    · exact absurd hc (by decide)
  have hafter : afterKey host (c :: name ++ ':' :: tail) = some (':' :: tail) := by
    rw [List.cons_append, afterKey, if_neg hquote, hc, Bool.true_or, if_pos rfl,
      List.dropWhile_append_of_pos hword]
    exact congrArg some (List.dropWhile_cons_of_neg hcolon)
  have hrest : (afterKey host (c :: name ++ ':' :: tail)).bind afterColon = some tail := by
    rw [hafter]
    rfl
  rw [topLevelLine, hrest, Option.any_some, htail, Bool.or_true, Bool.true_or, Bool.true_or]

/-- A line with a key of letters passes, and is content. -/
theorem checkLine_key {c : Char} {name tail : Str} {saw : Bool} (hc : c.isAlpha = true)
    (hname : ∀ d ∈ name, d.isAlpha = true) (htail : endsOrWhite tail = true)
    (hprintable : ∀ d ∈ c :: name ++ ':' :: tail, Printable d)
    (htrim : trimEnd (c :: name ++ ':' :: tail) = c :: name ++ ':' :: tail) :
    checkLine host saw (c :: name ++ ':' :: tail) = .ok true := by
  have hnot : ∀ d : Char, d.isAlpha = false → c ≠ d := by
    rintro d hd rfl
    rw [hc] at hd
    cases hd
  have hnul : ¬(c :: name ++ ':' :: tail).contains (Char.ofNat 0) = true := by
    rw [List.contains_iff_mem]
    exact fun hmem => absurd (hprintable _ hmem) (by decide)
  have hself : (c :: name ++ ':' :: tail).dropWhile (· = ' ') = c :: name ++ ':' :: tail :=
    List.dropWhile_cons_of_neg (by simpa using hnot ' ' rfl)
  have hhead : (c :: name ++ ':' :: tail).head? = some c := rfl
  have hdocument : "---".toList.isPrefixOf (c :: name ++ ':' :: tail) = false := by
    show (('-' == c) && _) = false
    rw [beq_eq_false_iff_ne.mpr (hnot '-' rfl).symm]
    rfl
  have hdots : ¬(c :: name ++ ':' :: tail = "...".toList ∨ (false && saw) = true) := by
    rintro (heq | hfalse)
    · exact hnot '.' rfl (List.cons.inj heq).1
    · cases hfalse
  unfold checkLine
  dsimp only
  rw [if_neg hnul, hself, hhead, hdocument, htrim, topLevelLine_key hc hname htail,
    if_neg (by simpa using hnot '\t' rfl), if_neg (by simpa using hnot '#' rfl),
    if_neg (not_not.mpr rfl), if_neg hdots, if_neg (by decide),
    if_neg (by simpa using fun _ => hnot '-' rfl), decide_eq_false (by simpa using hnot '%' rfl)]
  simp

/-- The bare key passes. -/
theorem checkLine_bareKey {saw : Bool} : checkLine host saw "models:".toList = .ok true := by
  show checkLine host saw ('m' :: "odels".toList ++ ':' :: []) = _
  exact checkLine_key rfl (List.all_eq_true.mp rfl) rfl (printable_of_all rfl) rfl

/-! ### The place in checked lines -/

/-- The lines before the block, the indentation of its first line, the lines behind it. -/
def blockFrame (lines : List Str) : Place where
  before := lines.take (lines.findIdx isStart)
  indent := (lines.getD (lines.findIdx isStart) []).takeWhile isWhite
  after := lines.drop (lines.findIdx isEnd + 1)

/-- Content stands before the block; or the block is indented, and no document starts behind it
before there is content. -/
def ContentFirst (lines : List Str) : Prop :=
  hasBlock lines = true →
    (blockFrame lines).before.any isContent = true ∨
      (blockFrame lines).indent ≠ [] ∧
        ((blockLines lines).any isContent = true ∨
          ∀ line ∈ (blockFrame lines).after.takeWhile fun line => !isContent line,
            isDocument line = false)

/-- What the place in checked lines is. -/
structure Placed (host : Host) (lines : List Str) (p : Place) : Prop where
  indent : Indent p.indent
  before : Unmarked p.before
  after : Unmarked p.after
  kept : p.before ++ p.after = kept lines ∧
      (hasBlock lines = false → lines.countP isModelsKey = 1) ∨
    hasBlock lines = false ∧ lines.countP isModelsKey = 0 ∧
      p.before = kept lines ++ ["models:".toList] ∧ p.after = []
  checks : ∀ values, (∃ s, (p.fill values).foldlM (checkLine host) false = .ok s) ↔
    ContentFirst lines

theorem indent_two : Indent "  ".toList where
  white := by
    intro c hc
    have hspace : c ∈ [' ', ' '] := hc
    rw [List.mem_cons, List.mem_singleton, or_self] at hspace
    rw [hspace]
    rfl
  spaced := .inr rfl
  tabless := by decide
  unbroken := by decide

/-- The indentation of a line among checked ones. -/
theorem indent_of_mem {saw s : Bool} (h : lines.foldlM (checkLine host) saw = .ok s)
    (hbreak : ∀ line ∈ lines, '\n' ∉ line) (hline : line ∈ lines) :
    Indent (line.takeWhile isWhite) := by
  obtain ⟨t, t', hcheck⟩ := Accepted.foldlM_mem h line hline
  exact indent_of_checkLine hcheck (hbreak line hline)

/-- The block is where its markers are. -/
theorem block_of_place {p : Place} (hblock : hasBlock lines = true) (h : place lines = .ok p) :
    p = blockFrame lines ∧ lines = p.before ++ blockLines lines ++ p.after ∧
      Unmarked p.before ∧ Unmarked p.after ∧ ∃ line ∈ lines, p.indent = line.takeWhile isWhite := by
  have hcount : 0 < lines.countP isStart := of_decide_eq_true hblock
  unfold place at h
  dsimp only at h
  split at h
  · cases h
  · next hcounts =>
    rw [not_or, not_not, not_lt] at hcounts
    have hone : lines.countP isStart = 1 := by omega
    rw [if_pos hone] at h
    unfold blockPlace at h
    dsimp only at h
    split at h
    · cases h
    · next horder =>
      obtain rfl := Except.ok.inj h
      obtain ⟨pre, x, post, hstart, hpre, hx, hpost, hstartIndex⟩ := exists_of_countP_eq_one hone
      obtain ⟨pre', y, post', hend, hpre', hy, hpost', hendIndex⟩ :=
        exists_of_countP_eq_one (hcounts.1.symm.trans hone)
      rw [hstartIndex, hendIndex, not_lt] at horder
      have htake : lines.take pre.length = pre := by rw [hstart, List.take_left']; rfl
      have htake' : lines.take pre'.length = pre' := by rw [hend, List.take_left']; rfl
      have hdrop : lines.drop (pre.length + 1) = post := by
        rw [hstart, List.append_cons, List.drop_left']
        rw [List.length_append, List.length_singleton]
      have hdrop' : lines.drop (pre'.length + 1) = post' := by
        rw [hend, List.append_cons, List.drop_left']
        rw [List.length_append, List.length_singleton]
      refine ⟨rfl, ?_, ?_, ?_, x, ?_, ?_⟩
      · -- the three parts are the lines
        have hfirst : lines.take pre.length = (lines.take (pre'.length + 1)).take pre.length := by
          rw [List.take_take, min_eq_left (by omega)]
        show lines = lines.take (lines.findIdx isStart) ++ blockLines lines ++
          lines.drop (lines.findIdx isEnd + 1)
        rw [blockLines, hstartIndex, hendIndex, hfirst, List.take_append_drop,
          List.take_append_drop]
      · intro line hline
        rw [hstartIndex, htake] at hline
        have hmem : line ∈ pre' := by
          rw [← htake']
          rw [← htake] at hline
          exact (List.take_subset_take_left lines horder) hline
        exact ⟨hpre line hline, hpre' line hmem⟩
      · intro line hline
        rw [hendIndex, hdrop'] at hline
        have hmem : line ∈ post := by
          rw [← hdrop]
          rw [← hdrop'] at hline
          exact List.drop_subset_drop_left lines (Nat.succ_le_succ horder) hline
        exact ⟨hpost line hmem, hpost' line hline⟩
      · rw [hstart]
        exact List.mem_append_right _ List.mem_cons_self
      · rw [hstartIndex]
        have hget : lines.getD pre.length [] = x := by
          rw [hstart]
          simp
        rw [hget]

theorem placed_block {p : Place} {s : Bool} (hcheck : lines.foldlM (checkLine host) false = .ok s)
    (hbreak : ∀ line ∈ lines, '\n' ∉ line) (hblock : hasBlock lines = true)
    (h : place lines = .ok p) : Placed host lines p := by
  obtain ⟨hframe, hlines, hbefore, hafter, line, hline, hindent⟩ := block_of_place hblock h
  have hindent : Indent p.indent := hindent ▸ indent_of_mem hcheck hbreak hline
  refine ⟨hindent, hbefore, hafter, .inl ⟨?_, fun hfalse => ?_⟩, fun values => ?_⟩
  · rw [kept, if_pos hblock, outside, if_pos hblock, hframe]
    rfl
  · rw [hblock] at hfalse
    cases hfalse
  · -- the checks of the text, in three parts
    rw [hlines] at hcheck
    obtain ⟨s₂, hcheck, hrest⟩ := foldlM_append_eq_ok.mp hcheck
    obtain ⟨s₁, hfirst, hinner⟩ := foldlM_append_eq_ok.mp hcheck
    have hs₁ : s₁ = p.before.any isContent := by
      rw [foldlM_content hfirst, Bool.false_or]
    have hs₂ : s₂ = (s₁ || (blockLines lines).any isContent) := foldlM_content hinner
    have hfill : (∃ s, (p.fill values).foldlM (checkLine host) false = .ok s) ↔
        ∃ s', (continueEntry values p.indent).foldlM (checkLine host) s₁ = .ok s' ∧
          ∃ s, p.after.foldlM (checkLine host) s' = .ok s := by
      constructor
      · rintro ⟨s, hs⟩
        obtain ⟨s', hs', hlast⟩ := foldlM_append_eq_ok.mp hs
        obtain ⟨s₀, hs₀, hentry⟩ := foldlM_append_eq_ok.mp hs'
        rw [hfirst] at hs₀
        obtain rfl := Except.ok.inj hs₀
        exact ⟨s', hentry, s, hlast⟩
      · rintro ⟨s', hentry, s, hlast⟩
        exact ⟨s, foldlM_append_eq_ok.mpr
          ⟨s', foldlM_append_eq_ok.mpr ⟨s₁, hfirst, hentry⟩, hlast⟩⟩
    have hcontent : ContentFirst lines ↔ p.before.any isContent = true ∨
        p.indent ≠ [] ∧ ((blockLines lines).any isContent = true ∨
          ∀ line ∈ p.after.takeWhile fun line => !isContent line, isDocument line = false) := by
      rw [ContentFirst, ← hframe]
      exact ⟨fun hc => hc hblock, fun hc _ => hc⟩
    rw [hfill, hcontent]
    cases hbeforeContent : p.before.any isContent with
    | true =>
        rw [hbeforeContent] at hs₁
        subst hs₁
        rw [Bool.true_or] at hs₂
        subst hs₂
        exact ⟨fun _ => .inl rfl, fun _ => ⟨true, foldlM_entry hindent (.inr rfl), s, hrest⟩⟩
    | false =>
        rw [hbeforeContent] at hs₁
        subst hs₁
        rw [Bool.false_or] at hs₂
        by_cases hne : p.indent = []
        · rw [hne]
          constructor
          · rintro ⟨s', hentry, -⟩
            exact absurd hentry foldlM_entry_refused
          · rintro (hfalse | ⟨hfalse, -⟩)
            · cases hfalse
            · exact absurd rfl hfalse
        · have hentry : (continueEntry values p.indent).foldlM (checkLine host) false =
              .ok true := foldlM_entry hindent (.inl hne)
          constructor
          · rintro ⟨s', hentry', s₃, hlast⟩
            obtain rfl := Except.ok.inj (hentry.symm.trans hentry')
            refine .inr ⟨hne, ?_⟩
            cases hinnerContent : (blockLines lines).any isContent with
            | true => exact .inl rfl
            | false =>
                rw [hs₂, hinnerContent] at hrest
                exact .inr ((foldlM_true_iff hrest).mp ⟨s₃, hlast⟩)
          · rintro (hfalse | ⟨-, hinnerContent | hdocuments⟩)
            · cases hfalse
            · rw [hs₂, hinnerContent] at hrest
              exact ⟨true, hentry, s, hrest⟩
            · refine ⟨true, hentry, ?_⟩
              cases hs₂ : s₂ with
              | true =>
                  rw [hs₂] at hrest
                  exact ⟨s, hrest⟩
              | false =>
                  rw [hs₂] at hrest
                  exact (foldlM_true_iff hrest).mpr hdocuments

/-- Without a block the entry goes behind the key, or behind a new one. -/
theorem placed_list {p : Place} {s : Bool} (hcheck : lines.foldlM (checkLine host) false = .ok s)
    (hbreak : ∀ line ∈ lines, '\n' ∉ line) (hblock : hasBlock lines = false)
    (h : place lines = .ok p) : Placed host lines p := by
  have hcount : lines.countP isStart = 0 := by simpa [hasBlock] using hblock
  have hfirst : ContentFirst lines := fun htrue => by
    rw [hblock] at htrue
    cases htrue
  unfold place at h
  dsimp only at h
  split at h
  · cases h
  · next hcounts =>
    rw [not_or, not_not] at hcounts
    have hunmarked : Unmarked lines := by
      have hends : lines.countP isEnd = 0 := hcounts.1.symm.trans hcount
      intro line hline
      exact ⟨by simpa using List.countP_eq_zero.mp hcount line hline,
        by simpa using List.countP_eq_zero.mp hends line hline⟩
    have hmodels : isStart "models:".toList = false ∧ isEnd "models:".toList = false := by
      exact ⟨isStart_eq_false ⟨'m', rfl, by decide⟩, isEnd_eq_false ⟨'m', rfl, by decide⟩⟩
    have hbare : ∀ line ∈ lines, isStart (bare line) = false ∧ isEnd (bare line) = false := by
      intro line hline
      unfold bare
      split
      · exact hmodels
      · exact hunmarked line hline
    rw [if_neg (by omega)] at h
    split at h
    · cases h
    · split at h
      · cases h
      · next hfew =>
        split at h
        · next hnone =>
          -- the key is written behind the last line
          obtain rfl := Except.ok.inj h
          have hkept : kept lines = lines := by
            rw [kept, hblock]
            exact map_bare_eq_self fun line hline => by
              simpa using List.countP_eq_zero.mp hnone line hline
          refine ⟨indent_two, ?_, fun _ hline => absurd hline List.not_mem_nil,
            .inr ⟨hblock, hnone, by rw [hkept], rfl⟩, fun values => ⟨fun _ => hfirst, fun _ => ?_⟩⟩
          · intro line hline
            rcases List.mem_append.mp hline with hline | hline
            · exact hunmarked line hline
            · rw [List.mem_singleton.mp hline]
              exact hmodels
          · refine ⟨true, foldlM_append_eq_ok.mpr ⟨true, foldlM_append_eq_ok.mpr ⟨true, ?_,
              foldlM_entry indent_two (.inr rfl)⟩, rfl⟩⟩
            exact foldlM_append_eq_ok.mpr ⟨s, hcheck,
              Accepted.bind_eq_ok.mpr ⟨true, checkLine_bareKey, rfl⟩⟩
        · next hsome =>
          have hone : lines.countP isModelsKey = 1 := by omega
          obtain ⟨pre, key, post, hlines, hpre, hkey, hpost, hindex⟩ :=
            exists_of_countP_eq_one hone
          have hget : lines.getD pre.length [] = key := by rw [hlines]; simp
          have htake : lines.take pre.length = pre := by rw [hlines, List.take_left']; rfl
          have hdrop : lines.drop (pre.length + 1) = post := by
            rw [hlines, List.append_cons, List.drop_left']
            rw [List.length_append, List.length_singleton]
          unfold listPlace at h
          dsimp only at h
          rw [hindex, hget, htake, hdrop] at h
          obtain ⟨key', hbareKey, h⟩ := Accepted.bind_eq_ok.mp h
          obtain ⟨indent, hindent, h⟩ := Accepted.bind_eq_ok.mp h
          obtain rfl := Except.ok.inj h
          obtain rfl := bareKey_eq_ok hkey hbareKey
          have hkept : pre ++ [bare key] ++ post = kept lines := by
            rw [kept, hblock, hlines]
            show _ = (pre ++ key :: post).map bare
            rw [List.map_append, List.map_cons, map_bare_eq_self hpre, map_bare_eq_self hpost]
            simp
          -- the checks of the text around the key
          rw [hlines] at hcheck
          obtain ⟨s₁, hpreCheck, hrest⟩ := foldlM_append_eq_ok.mp hcheck
          rw [List.foldlM_cons] at hrest
          obtain ⟨s₂, hkeyCheck, hpostCheck⟩ := Accepted.bind_eq_ok.mp hrest
          have hs₂ : s₂ = true := by
            rw [checkLine_content hkeyCheck, isContent_of_isModelsKey hkey, Bool.or_true]
          subst hs₂
          have hbareCheck : checkLine host s₁ (bare key) = .ok true := by
            unfold bare
            split
            · exact checkLine_bareKey
            · exact hkeyCheck
          have hindent : Indent indent := by
            rcases itemIndent_eq_ok hindent with rfl | ⟨line, hline, rfl⟩
            · exact indent_two
            · exact indent_of_mem hpostCheck (fun l hl => hbreak l (by
                rw [hlines]
                exact List.mem_append_right _ (List.mem_cons_of_mem _ hl))) hline
          refine ⟨hindent, ?_, ?_, .inl ⟨hkept, fun _ => hone⟩,
            fun values => ⟨fun _ => hfirst, fun _ => ?_⟩⟩
          · intro line hline
            rcases List.mem_append.mp hline with hline | hline
            · exact hunmarked line (by rw [hlines]; exact List.mem_append_left _ hline)
            · rw [List.mem_singleton.mp hline]
              exact hbare key (by rw [hlines]; exact List.mem_append_right _ List.mem_cons_self)
          · intro line hline
            exact hunmarked line (by
              rw [hlines]
              exact List.mem_append_right _ (List.mem_cons_of_mem _ hline))
          · refine ⟨s, foldlM_append_eq_ok.mpr ⟨true, foldlM_append_eq_ok.mpr ⟨true, ?_,
              foldlM_entry hindent (.inr rfl)⟩, hpostCheck⟩⟩
            exact foldlM_append_eq_ok.mpr ⟨s₁, hpreCheck,
              Accepted.bind_eq_ok.mpr ⟨true, hbareCheck, rfl⟩⟩

theorem placed_of_place {p : Place} {s : Bool}
    (hcheck : lines.foldlM (checkLine host) false = .ok s)
    (hbreak : ∀ line ∈ lines, '\n' ∉ line) (h : place lines = .ok p) : Placed host lines p := by
  cases hblock : hasBlock lines with
  | true => exact placed_block hcheck hbreak hblock h
  | false => exact placed_list hcheck hbreak hblock h

/-! ### Written texts -/

variable {newline text result : Str} {p : Place}

theorem mem_kept {s : Str} (h : s ∈ kept lines) : s ∈ lines ∨ s = "models:".toList := by
  unfold kept outside at h
  split at h
  · left
    rcases List.mem_append.mp h with h | h
    · exact List.mem_of_mem_take h
    · exact List.mem_of_mem_drop h
  · obtain ⟨line, hline, rfl⟩ := List.mem_map.mp h
    unfold bare
    split
    · exact .inr rfl
    · exact .inl hline

/-- The lines around the entry are kept lines, or the new key. -/
theorem Placed.mem (h : Placed host lines p) {s : Str} (hs : s ∈ p.before ∨ s ∈ p.after) :
    s ∈ ContinueConfig.kept lines ∨ s = "models:".toList := by
  rcases h.kept with ⟨heq, -⟩ | ⟨-, -, hbefore, hafter⟩
  · rw [← heq]
    exact .inl (List.mem_append.mpr hs)
  · rw [hbefore, hafter] at hs
    rcases hs with hs | hs
    · rcases List.mem_append.mp hs with hs | hs
      · exact .inl hs
      · exact .inr (List.mem_singleton.mp hs)
    · cases hs

theorem Place.mem_fill {values : ToolConnectionValues} {s : Str} :
    s ∈ p.fill values ↔ (s ∈ p.before ∨ s ∈ p.after) ∨ s ∈ continueEntry values p.indent := by
  rw [Place.fill, List.mem_append, List.mem_append]
  tauto

theorem Placed.unbroken (h : Placed host lines p) (hbreak : ∀ line ∈ lines, '\n' ∉ line) :
    ∀ line ∈ p.fill values, '\n' ∉ line := by
  intro line hline
  rcases Place.mem_fill.mp hline with hline | hline
  · rcases h.mem hline with hline | rfl
    · rcases mem_kept hline with hline | rfl
      · exact hbreak line hline
      · decide
    · decide
  · exact entry_unbroken h.indent line hline

theorem fill_ne_nil : p.fill values ≠ [] := by
  rw [Place.fill, continueEntry_eq]
  simp

theorem join_fill : join newline (p.fill values) = Lines.unlines newline (p.fill values) :=
  Lines.intercalate_append newline fill_ne_nil

theorem newline_ne : ('\r' : Char) ≠ '\n' := by decide

/-- Written lines are read as they are, with their break, unless a short break stands behind a
carriage return. -/
theorem read_written (hnewline : newline = lf ∨ newline = crlf)
    (hbreak : ∀ line ∈ p.fill values, '\n' ∉ line)
    (hend : newline = lf → ∀ line ∈ p.fill values, line.getLast? ≠ some '\r') :
    fileLines (join newline (p.fill values)) = p.fill values ∧
      newlineOf (join newline (p.fill values)) = newline := by
  rw [join_fill]
  rcases hnewline with rfl | rfl
  · refine ⟨Lines.splitLines_unlines_short newline_ne hbreak (hend rfl), ?_⟩
    have hshort : hasCrlf (Lines.unlines lf (p.fill values)) = false := by
      rw [hasCrlf, lf, Lines.hasLong_unlines_short newline_ne hbreak, List.any_eq_false]
      exact fun line hline => by simpa using hend rfl line hline
    rw [newlineOf, hshort]
    rfl
  · refine ⟨Lines.splitLines_unlines_long newline_ne hbreak, ?_⟩
    have hlong : hasCrlf (Lines.unlines crlf (p.fill values)) = true :=
      Lines.hasLong_unlines_long fill_ne_nil
    rw [newlineOf, hlong]
    rfl

theorem isBlank_written : isBlank (join newline (p.fill values)) = false := by
  have hmem : p.indent ++ startMarker ∈ p.fill values := by
    rw [Place.mem_fill, continueEntry_eq_tail]
    exact .inr List.mem_cons_self
  have hhash : '#' ∈ join newline (p.fill values) := by
    rw [join_fill, Lines.unlines, List.mem_flatMap]
    exact ⟨_, hmem, List.mem_append_left _ (List.mem_append_right _ (by decide))⟩
  rw [isBlank, List.all_eq_false]
  exact ⟨'#', hhash, by decide⟩

theorem newlineOf_cases (text : Str) : newlineOf text = lf ∨ newlineOf text = crlf := by
  unfold newlineOf
  split
  · exact .inr rfl
  · exact .inl rfl

theorem newlineOf_eq_lf : newlineOf text = lf ↔ hasCrlf text = false := by
  unfold newlineOf
  cases hasCrlf text <;> simp [lf, crlf]

/-! ### The merge -/

/-- A text with something in it is checked and filled. -/
theorem merge_eq_ok (hblank : isBlank text = false) :
    merge host (some text) values = .ok result ↔
      values.validated host = .ok () ∧
        (∃ s, (fileLines text).foldlM (checkLine host) false = .ok s) ∧
        ∃ p, place (fileLines text) = .ok p ∧ result = join (newlineOf text) (p.fill values) := by
  have hfilter : (some text).filter (fun text => !isBlank text) = some text := by
    rw [Option.filter_some, hblank]
    rfl
  unfold merge
  rw [hfilter]
  constructor
  · intro h
    obtain ⟨_, hvalues, h⟩ := Accepted.bind_eq_ok.mp h
    obtain ⟨_, hcheck, h⟩ := Accepted.bind_eq_ok.mp h
    obtain ⟨p, hplace, h⟩ := Accepted.bind_eq_ok.mp h
    exact ⟨hvalues, validateFrom_eq_ok.mp hcheck, p, hplace, (Except.ok.inj h).symm⟩
  · rintro ⟨hvalues, hcheck, p, hplace, rfl⟩
    exact Accepted.bind_eq_ok.mpr ⟨(), hvalues, Accepted.bind_eq_ok.mpr
      ⟨(), validateFrom_eq_ok.mpr hcheck, Accepted.bind_eq_ok.mpr ⟨p, hplace, rfl⟩⟩⟩

/-- The place in a new file. -/
def freshPlace : Place := ⟨freshHead, "  ".toList, []⟩

theorem merge_blank (hblank : isBlank text = true) :
    merge host (some text) values = .ok result ↔
      values.validated host = .ok () ∧ result = join lf (freshPlace.fill values) := by
  have hfilter : (some text).filter (fun text => !isBlank text) = none := by
    rw [Option.filter_some, hblank]
    rfl
  have hfill : freshPlace.fill values = freshHead ++ continueEntry values "  ".toList :=
    List.append_nil _
  unfold merge
  rw [hfilter, hfill]
  constructor
  · intro h
    obtain ⟨_, hvalues, h⟩ := Accepted.bind_eq_ok.mp h
    exact ⟨hvalues, (Except.ok.inj h).symm⟩
  · rintro ⟨hvalues, rfl⟩
    exact Accepted.bind_eq_ok.mpr ⟨(), hvalues, rfl⟩

/-- A merge into written lines finds its place again. -/
theorem merge_written (values' : ToolConnectionValues) (hindent : Indent p.indent)
    (hbefore : Unmarked p.before) (hafter : Unmarked p.after)
    (hlines : fileLines (join newline (p.fill values)) = p.fill values)
    (hnewline : newlineOf (join newline (p.fill values)) = newline) :
    merge host (some (join newline (p.fill values))) values' = .ok result ↔
      values'.validated host = .ok () ∧
        (∃ s, (p.fill values).foldlM (checkLine host) false = .ok s) ∧
        result = join newline (p.fill values') := by
  rw [merge_eq_ok isBlank_written, hlines, hnewline]
  have hplace : place (p.fill values) = .ok p := place_written hindent hbefore hafter
  constructor
  · rintro ⟨hvalues, hcheck, q, hq, rfl⟩
    rw [hplace] at hq
    obtain rfl := Except.ok.inj hq
    exact ⟨hvalues, hcheck, rfl⟩
  · rintro ⟨hvalues, hcheck, rfl⟩
    exact ⟨hvalues, hcheck, p, hplace, rfl⟩

/-! ### What a merge preserves -/

/-- The line stays as it is, or its empty list gives way to the bare key. -/
def SameLine (line line' : Str) : Prop :=
  line' = line ∨ isEmptyKey line = true ∧ line' = "models:".toList

/-- There is one managed block. -/
structure OneBlock (lines : List Str) : Prop where
  starts : lines.countP isStart = 1
  ends : lines.countP isEnd = 1
  order : lines.findIdx isStart < lines.findIdx isEnd

/-- What a merge of `text` with this result preserves. -/
structure Preserves (host : Host) (text result : Str) : Prop where
  lines : List.SublistForall₂ SameLine (outside (fileLines text)) (fileLines result)
  block : OneBlock (fileLines result)
  key : (fileLines result).countP isAnyKey = 1
  again : ∀ values : ToolConnectionValues, values.validated host = .ok () →
    ∃ result', merge host (some result) values = .ok result' ∧
      merge host (some text) values = .ok result'

/-- What a text has to be like for that: no white space alone; with short breaks, no carriage
return at the end; outside a block one `models` key, and without a block no quoted one; and
content before a block, or behind it before a document starts. -/
structure Regular (text : Str) : Prop where
  blank : isBlank text = true → text = []
  breaks : isBlank text = false → hasCrlf text = false →
    ∀ line ∈ kept (fileLines text), line.getLast? ≠ some '\r'
  keyed : isBlank text = false → hasBlock (fileLines text) = true →
    (outside (fileLines text)).countP isAnyKey = 1
  unquoted : isBlank text = false → hasBlock (fileLines text) = false →
    ∀ line ∈ fileLines text, isQuotedKey line = false
  content : isBlank text = false → ContentFirst (fileLines text)

theorem oneBlock_fill (hindent : Indent p.indent) (hbefore : Unmarked p.before)
    (hafter : Unmarked p.after) : OneBlock (p.fill values) := by
  obtain ⟨hstarts, hends, hstart, hend⟩ := written_markers values hindent hbefore hafter
  refine ⟨hstarts, hends, ?_⟩
  show (p.before ++ continueEntry values p.indent ++ p.after).findIdx isStart <
    (p.before ++ continueEntry values p.indent ++ p.after).findIdx isEnd
  rw [hstart, hend]
  omega

theorem countP_fill (hindent : Indent p.indent) :
    (p.fill values).countP isAnyKey = (p.before ++ p.after).countP isAnyKey := by
  have hnone : (continueEntry values p.indent).countP isAnyKey = 0 :=
    List.countP_eq_zero.mpr fun line hline => by
      rw [entry_isAnyKey hindent line hline]
      exact Bool.false_ne_true
  rw [Place.fill, List.countP_append, List.countP_append, List.countP_append, hnone]
  omega

theorem isAnyKey_bare (line : Str) : isAnyKey (bare line) = isAnyKey line := by
  unfold bare
  split
  · next hempty =>
    rw [isAnyKey, isAnyKey, isModelsKey_of_isEmptyKey hempty]
    rfl
  · rfl

/-- A plain key is not quoted. -/
theorem isQuotedKey_of_isModelsKey (h : isModelsKey line = true) : isQuotedKey line = false := by
  obtain ⟨rest, rfl⟩ := startsWith_of_isModelsKey h
  rfl

theorem countP_isAnyKey (lines : List Str) :
    lines.countP isAnyKey = lines.countP isModelsKey + lines.countP isQuotedKey := by
  induction lines with
  | nil => rfl
  | cons line lines ih =>
      rw [List.countP_cons, List.countP_cons, List.countP_cons, ih, isAnyKey]
      cases hkey : isModelsKey line with
      | true =>
          rw [isQuotedKey_of_isModelsKey hkey]
          simp
          omega
      | false =>
          rw [Bool.false_or]
          simp
          omega

/-- The keys of the result, told by the text. -/
theorem countP_placed (h : Placed host lines p) :
    (p.before ++ p.after).countP isAnyKey = 1 ↔
      (hasBlock lines = true → (outside lines).countP isAnyKey = 1) ∧
        (hasBlock lines = false → ∀ line ∈ lines, isQuotedKey line = false) := by
  cases hblock : hasBlock lines with
  | true =>
      have hkept : p.before ++ p.after = outside lines := by
        rcases h.kept with ⟨heq, -⟩ | ⟨hfalse, -⟩
        · rw [heq, kept, if_pos hblock]
        · rw [hblock] at hfalse
          cases hfalse
      rw [hkept]
      exact ⟨fun hone => ⟨fun _ => hone, nofun⟩, fun hboth => hboth.1 rfl⟩
  | false =>
      -- one plain key comes from the text, or is written
      have hcount : (p.before ++ p.after).countP isAnyKey = 1 + lines.countP isQuotedKey := by
        have hbare : (lines.map bare).countP isAnyKey =
            lines.countP isModelsKey + lines.countP isQuotedKey := by
          have hcongr : isAnyKey ∘ bare = isAnyKey := by
            funext line
            exact isAnyKey_bare line
          rw [List.countP_map, hcongr, countP_isAnyKey]
        have hkeptEq : kept lines = lines.map bare := by
          rw [kept, hblock]
          rfl
        rcases h.kept with ⟨heq, hone⟩ | ⟨-, hnone, hbefore, hafter⟩
        · rw [heq, hkeptEq, hbare, hone hblock]
        · rw [hbefore, hafter, List.append_nil, List.countP_append, hkeptEq, hbare, hnone]
          have hkey : ["models:".toList].countP isAnyKey = 1 := by rfl
          rw [hkey]
          omega
      have hquoted : lines.countP isQuotedKey = 0 ↔ ∀ line ∈ lines, isQuotedKey line = false := by
        rw [List.countP_eq_zero]
        simp only [Bool.not_eq_true]
      rw [hcount, Nat.add_eq_left, hquoted]
      exact ⟨fun hnone => ⟨nofun, fun _ => hnone⟩, fun hboth => hboth.2 rfl⟩

/-- The lines outside the block are there after the merge. -/
theorem sameLines (h : Placed host lines p) :
    List.SublistForall₂ SameLine (outside lines) (p.fill values) := by
  rw [List.sublistForall₂_iff]
  refine ⟨kept lines, ?_, ?_⟩
  · unfold kept
    split
    · exact List.forall₂_same.mpr fun line _ => .inl rfl
    · next hblock =>
      rw [outside, if_neg hblock, List.forall₂_map_right_iff, List.forall₂_same]
      intro line _
      unfold bare
      split
      · next hempty => exact .inr ⟨hempty, rfl⟩
      · exact .inl rfl
  · have haround : (p.before ++ p.after).Sublist (p.fill values) := by
      rw [Place.fill, List.append_assoc]
      exact (List.Sublist.refl _).append (List.sublist_append_right _ _)
    rcases h.kept with ⟨heq, -⟩ | ⟨-, -, hbefore, hafter⟩
    · rw [← heq]
      exact haround
    · refine List.Sublist.trans ?_ haround
      rw [hbefore, hafter, List.append_nil]
      exact List.sublist_append_left _ _

/-- No line of the result ends with a carriage return exactly if no kept line does. -/
theorem getLast?_fill (values : ToolConnectionValues) (h : Placed host lines p) :
    (∀ line ∈ p.fill values, line.getLast? ≠ some '\r') ↔
      ∀ line ∈ kept lines, line.getLast? ≠ some '\r' := by
  constructor
  · intro hall line hline
    apply hall line
    rw [Place.mem_fill]
    left
    rcases h.kept with ⟨heq, -⟩ | ⟨-, -, hbefore, -⟩
    · rw [← heq] at hline
      exact List.mem_append.mp hline
    · rw [hbefore]
      exact .inl (List.mem_append_left _ hline)
  · intro hall line hline
    rcases Place.mem_fill.mp hline with hline | hline
    · rcases h.mem hline with hline | rfl
      · exact hall line hline
      · decide
    · exact entry_getLast? line hline

/-! ### A new file -/

theorem unmarked_freshHead : Unmarked freshHead := by
  intro line hline
  have hletter : ∃ c, (trimStart line).head? = some c ∧ c ≠ '#' := by
    simp only [freshHead, List.mem_cons, List.not_mem_nil, or_false] at hline
    rcases hline with rfl | rfl | rfl | rfl
    · exact ⟨'n', rfl, by decide⟩
    · exact ⟨'v', rfl, by decide⟩
    · exact ⟨'s', rfl, by decide⟩
    · exact ⟨'m', rfl, by decide⟩
  exact ⟨isStart_eq_false hletter, isEnd_eq_false hletter⟩

theorem foldlM_freshHead : freshHead.foldlM (checkLine host) false = .ok true := by
  have hname : checkLine host false "name: Local Config".toList = .ok true := by
    show checkLine host false ('n' :: "ame".toList ++ ':' :: " Local Config".toList) = _
    exact checkLine_key rfl (List.all_eq_true.mp rfl) rfl (printable_of_all rfl) rfl
  have hversion : checkLine host true "version: 1.0.0".toList = .ok true := by
    show checkLine host true ('v' :: "ersion".toList ++ ':' :: " 1.0.0".toList) = _
    exact checkLine_key rfl (List.all_eq_true.mp rfl) rfl (printable_of_all rfl) rfl
  have hschema : checkLine host true "schema: v1".toList = .ok true := by
    show checkLine host true ('s' :: "chema".toList ++ ':' :: " v1".toList) = _
    exact checkLine_key rfl (List.all_eq_true.mp rfl) rfl (printable_of_all rfl) rfl
  exact Accepted.bind_eq_ok.mpr ⟨true, hname, Accepted.bind_eq_ok.mpr ⟨true, hversion,
    Accepted.bind_eq_ok.mpr ⟨true, hschema,
      Accepted.bind_eq_ok.mpr ⟨true, checkLine_bareKey, rfl⟩⟩⟩⟩

theorem printable_freshHead : ∀ line ∈ freshHead, ∀ c ∈ line, Printable c := by
  intro line hline
  simp only [freshHead, List.mem_cons, List.not_mem_nil, or_false] at hline
  rcases hline with rfl | rfl | rfl | rfl <;> exact printable_of_all rfl

/-- A new file is read as it was written. -/
theorem read_fresh (values : ToolConnectionValues) :
    fileLines (join lf (freshPlace.fill values)) = freshPlace.fill values ∧
      newlineOf (join lf (freshPlace.fill values)) = lf := by
  have hfresh : ∀ line ∈ freshPlace.fill values, line ∈ freshHead ∨
      line ∈ continueEntry values "  ".toList := by
    intro line hline
    rcases Place.mem_fill.mp hline with (hline | hline) | hline
    · exact .inl hline
    · cases hline
    · exact .inr hline
  refine read_written (.inl rfl) ?_ fun _ => ?_
  · intro line hline hmem
    rcases hfresh line hline with hline | hline
    · exact absurd (printable_freshHead line hline _ hmem) (by decide)
    · exact entry_unbroken indent_two line hline hmem
  · intro line hline hlast
    rcases hfresh line hline with hline | hline
    · exact absurd (printable_freshHead line hline _ (List.mem_of_getLast? hlast)) (by decide)
    · exact entry_getLast? line hline hlast

/-- Each line of a new file has something in it. -/
theorem fresh_not_white (hline : line ∈ freshPlace.fill values) :
    ¬∀ c ∈ line, isWhite c = true := by
  intro hwhite
  rcases Place.mem_fill.mp hline with (hline | hline) | hline
  · simp only [freshPlace, freshHead, List.mem_cons, List.not_mem_nil, or_false] at hline
    rcases hline with rfl | rfl | rfl | rfl <;>
      exact absurd (hwhite _ List.mem_cons_self) (by decide)
  · cases hline
  · rw [continueEntry_eq, List.mem_append, List.mem_cons, List.mem_cons, List.mem_map,
      List.mem_singleton, or_assoc, or_assoc] at hline
    rcases hline with rfl | rfl | ⟨setting, hsetting, rfl⟩ | rfl
    · exact absurd (hwhite '#' (List.mem_append_right _ (by decide))) (by decide)
    · exact absurd (hwhite '-' (List.mem_append_right _ (by decide))) (by decide)
    · obtain ⟨c, hc, -⟩ := (setting_of_mem hsetting).text
      have hnil : trimStart setting = [] := List.dropWhile_eq_nil_iff.mpr fun d hd =>
        hwhite d (List.mem_append_right _ hd)
      rw [hnil] at hc
      cases hc
    · exact absurd (hwhite '#' (List.mem_append_right _ (by decide))) (by decide)

theorem mem_of_sublistForall₂ {R : Str → Str → Prop} {l l' : List Str}
    (h : List.SublistForall₂ R l l') (hline : line ∈ l) : ∃ line' ∈ l', R line line' := by
  induction h with
  | nil => cases hline
  | cons hrel _ ih =>
      rcases List.mem_cons.mp hline with rfl | hline
      · exact ⟨_, List.mem_cons_self, hrel⟩
      · obtain ⟨line', hmem, hrel'⟩ := ih hline
        exact ⟨line', List.mem_cons_of_mem _ hmem, hrel'⟩
  | cons_right _ ih =>
      obtain ⟨line', hmem, hrel⟩ := ih hline
      exact ⟨line', List.mem_cons_of_mem _ hmem, hrel⟩

/-- White space that is not nothing is lost. -/
theorem preserves_blank (hblank : isBlank text = true)
    (h : merge host (some text) values = .ok result) : Preserves host text result ↔ text = [] := by
  obtain ⟨-, hresult⟩ := (merge_blank hblank).mp h
  obtain ⟨hlines, hnewline⟩ := read_fresh values
  rw [← hresult] at hlines hnewline
  constructor
  · intro hpreserves
    by_contra hne
    have hwhite : ∀ line ∈ fileLines text, ∀ c ∈ line, isWhite c = true := fun line hline c hc =>
      List.all_eq_true.mp hblank c (Lines.mem_of_mem_splitLines hline hc)
    -- a line of white space is no marker, and no line of the new file is one
    have hunmarked : hasBlock (fileLines text) = false := by
      have hnone : (fileLines text).countP isStart = 0 := by
        rw [List.countP_eq_zero]
        intro line hline hstart
        rw [isStart, decide_eq_true_eq, ← List.append_nil line,
          trim_append_left (hwhite line hline)] at hstart
        cases hstart
      rw [hasBlock, hnone]
      rfl
    have hsame := hpreserves.lines
    rw [outside, if_neg (by rw [hunmarked]; exact Bool.false_ne_true), hlines] at hsame
    have hlinesText : fileLines text ≠ [] := Lines.splitLines_ne_nil hne
    obtain ⟨line, others, hsplit⟩ := List.exists_cons_of_ne_nil hlinesText
    have hmem : line ∈ fileLines text := by
      rw [hsplit]
      exact List.mem_cons_self
    obtain ⟨line', hline', hkept⟩ := mem_of_sublistForall₂ hsame hmem
    rcases hkept with rfl | ⟨hempty, -⟩
    · exact fresh_not_white hline' (hwhite line' hmem)
    · obtain ⟨rest, rfl⟩ := startsWith_of_isModelsKey (isModelsKey_of_isEmptyKey hempty)
      exact absurd (hwhite _ hmem 'm' List.mem_cons_self) (by decide)
  · rintro rfl
    have houtside : outside (fileLines []) = [] := rfl
    refine ⟨?_, ?_, ?_, fun values' hvalues' => ?_⟩
    · rw [houtside]
      exact .nil
    · rw [hlines]
      exact oneBlock_fill indent_two unmarked_freshHead fun _ hline => absurd hline List.not_mem_nil
    · rw [hlines, countP_fill indent_two]
      rfl
    · refine ⟨join lf (freshPlace.fill values'), ?_, (merge_blank rfl).mpr ⟨hvalues', rfl⟩⟩
      rw [hresult] at hlines hnewline ⊢
      rw [merge_written values' indent_two unmarked_freshHead
        (fun _ hline => absurd hline List.not_mem_nil) hlines hnewline]
      refine ⟨hvalues', ⟨true, ?_⟩, rfl⟩
      rw [Place.fill, freshPlace, List.append_nil, foldlM_append_eq_ok]
      exact ⟨true, foldlM_freshHead, foldlM_entry indent_two (.inr rfl)⟩

/-! ### A text with something in it -/

theorem merge_placed (hblank : isBlank text = false)
    (h : merge host (some text) values = .ok result) :
    values.validated host = .ok () ∧ ∃ p, place (fileLines text) = .ok p ∧
      Placed host (fileLines text) p ∧ result = join (newlineOf text) (p.fill values) := by
  obtain ⟨hvalues, ⟨s, hcheck⟩, p, hplace, hresult⟩ := (merge_eq_ok hblank).mp h
  exact ⟨hvalues, p, hplace, placed_of_place hcheck
    (fun _ hline => Lines.not_mem_of_mem_splitLines hline) hplace, hresult⟩

/-- A second merge writes the same only if no short break stands behind a carriage return. -/
theorem breaks_of_again (hblank : isBlank text = false)
    (h : merge host (some text) values = .ok result)
    (hagain : merge host (some result) values = .ok result) (hshort : hasCrlf text = false) :
    ∀ line ∈ kept (fileLines text), line.getLast? ≠ some '\r' := by
  have hbreak : ∀ t : Str, ∀ line ∈ fileLines t, '\n' ∉ line :=
    fun _ _ hline => Lines.not_mem_of_mem_splitLines hline
  obtain ⟨-, p, -, hplaced, hresult⟩ := merge_placed hblank h
  rw [newlineOf_eq_lf.mpr hshort] at hresult
  rw [← getLast?_fill values hplaced]
  by_contra hreturn
  simp only [not_forall, not_not] at hreturn
  obtain ⟨line, hline, hlast⟩ := hreturn
  -- then the result has a long break, and the second merge writes nothing else
  have hlong : hasCrlf result = true := by
    rw [hresult, join_fill, hasCrlf, lf,
      Lines.hasLong_unlines_short newline_ne (hplaced.unbroken (hbreak text)), List.any_eq_true]
    exact ⟨line, hline, decide_eq_true hlast⟩
  have hblankResult : isBlank result = false := hresult ▸ isBlank_written
  obtain ⟨-, q, -, hplaced', hresult'⟩ := merge_placed hblankResult hagain
  have hcrlf : newlineOf result = crlf := by rw [newlineOf, hlong]; rfl
  rw [hcrlf, join_fill] at hresult'
  rw [join_fill] at hresult
  have hall := Lines.getLast?_of_unlines_eq newline_ne (hplaced.unbroken (hbreak text))
    (hplaced'.unbroken (hbreak result)) (hresult.symm.trans hresult')
  have hmarker : p.indent ++ startMarker ∈ continueEntry values p.indent := by
    rw [continueEntry_eq_tail]
    exact List.mem_cons_self
  exact entry_getLast? _ hmarker (hall _ (Place.mem_fill.mpr (.inr hmarker)))

/-- **When a merge preserves the text.** -/
theorem merge_preserves_iff (host : Host) (text result : Str) (values : ToolConnectionValues)
    (h : merge host (some text) values = .ok result) :
    Preserves host text result ↔ Regular text := by
  cases hblank : isBlank text with
  | true =>
      rw [preserves_blank hblank h]
      constructor
      · rintro rfl
        exact ⟨fun _ => rfl, nofun, nofun, nofun, nofun⟩
      · exact fun hregular => hregular.blank hblank
  | false =>
      obtain ⟨hvalues, p, hplace, hplaced, hresult⟩ := merge_placed hblank h
      have hbreak : ∀ line ∈ p.fill values, '\n' ∉ line :=
        hplaced.unbroken fun _ hline => Lines.not_mem_of_mem_splitLines hline
      -- with the right breaks the result is read as it was written
      have hread : (hasCrlf text = false → ∀ line ∈ kept (fileLines text),
          line.getLast? ≠ some '\r') →
          fileLines result = p.fill values ∧ newlineOf result = newlineOf text := by
        intro hends
        rw [hresult]
        refine read_written (newlineOf_cases text) hbreak fun hlf => ?_
        exact (getLast?_fill values hplaced).mpr (hends (newlineOf_eq_lf.mp hlf))
      constructor
      · intro hpreserves
        have hbreaks : hasCrlf text = false → ∀ line ∈ kept (fileLines text),
            line.getLast? ≠ some '\r' := by
          obtain ⟨result', hagain, hsame⟩ := hpreserves.again values hvalues
          obtain rfl := Except.ok.inj (h.symm.trans hsame)
          exact breaks_of_again hblank h hagain
        obtain ⟨hlines, hnewline⟩ := hread hbreaks
        have hkeys := hpreserves.key
        rw [hlines, countP_fill hplaced.indent] at hkeys
        obtain ⟨hkeyed, hunquoted⟩ := (countP_placed hplaced).mp hkeys
        refine ⟨fun htrue => ?_, fun _ => hbreaks, fun _ => hkeyed, fun _ => hunquoted, fun _ => ?_⟩
        · rw [hblank] at htrue
          cases htrue
        · obtain ⟨result', hagain, -⟩ := hpreserves.again values hvalues
          rw [hresult] at hagain hlines hnewline
          obtain ⟨-, hcheck, -⟩ := (merge_written values hplaced.indent hplaced.before
            hplaced.after hlines hnewline).mp hagain
          exact (hplaced.checks values).mp hcheck
      · intro hregular
        obtain ⟨hlines, hnewline⟩ := hread (hregular.breaks hblank)
        refine ⟨?_, ?_, ?_, fun values' hvalues' => ?_⟩
        · rw [hlines]
          exact sameLines hplaced
        · rw [hlines]
          exact oneBlock_fill hplaced.indent hplaced.before hplaced.after
        · rw [hlines, countP_fill hplaced.indent, countP_placed hplaced]
          exact ⟨hregular.keyed hblank, hregular.unquoted hblank⟩
        · refine ⟨join (newlineOf text) (p.fill values'), ?_, ?_⟩
          · rw [hresult] at hlines hnewline ⊢
            rw [merge_written values' hplaced.indent hplaced.before hplaced.after hlines hnewline]
            exact ⟨hvalues', (hplaced.checks values).mpr (hregular.content hblank), rfl⟩
          · obtain ⟨-, hcheck, -⟩ := (merge_eq_ok hblank).mp h
            exact (merge_eq_ok hblank).mpr ⟨hvalues', hcheck, p, hplace, rfl⟩

/-- A configuration with a list of models at the left edge. -/
def listedText : Str := "name: c\nmodels:\n- name: other\n".toList

/-- Its result keeps the list, at its indentation. -/
theorem merge_preserves_iff_listed :
    merge localHost (some listedText) localValues = .ok (join lf
        (["name: c".toList, "models:".toList] ++ continueEntry localValues [] ++
          ["- name: other".toList])) ∧
      Preserves localHost listedText (join lf
        (["name: c".toList, "models:".toList] ++ continueEntry localValues [] ++
          ["- name: other".toList])) := by
  have hmerge : merge localHost (some listedText) localValues = .ok (join lf
      (["name: c".toList, "models:".toList] ++ continueEntry localValues [] ++
        ["- name: other".toList])) := by decide +kernel
  have hblank : isBlank listedText = false := by decide +kernel
  have hblock : hasBlock (fileLines listedText) = false := by decide +kernel
  refine ⟨hmerge, (merge_preserves_iff _ _ _ _ hmerge).mpr ?_⟩
  refine ⟨fun htrue => ?_, fun _ _ => by decide +kernel, fun _ htrue => ?_,
    fun _ _ => by decide +kernel, fun _ htrue => ?_⟩
  · rw [hblank] at htrue
    cases htrue
  · rw [hblock] at htrue
    cases htrue
  · rw [hblock] at htrue
    cases htrue

/-- A quoted key is taken for no key, and a second one is written. -/
theorem quotedKey_merged : ¬∀ (host : Host) (text result : Str) (values : ToolConnectionValues),
    merge host (some text) values = .ok result → Preserves host text result := by
  intro hall
  have hmerge : merge localHost (some "name: c\n\"models\": []\n".toList) localValues = .ok
      (join lf (["name: c".toList, "\"models\": []".toList, "models:".toList] ++
        continueEntry localValues "  ".toList)) := by decide +kernel
  have hkey := (hall _ _ _ _ hmerge).key
  have htwo : (fileLines (join lf (["name: c".toList, "\"models\": []".toList,
      "models:".toList] ++ continueEntry localValues "  ".toList))).countP isAnyKey = 2 := by
    decide +kernel
  rw [htwo] at hkey
  cases hkey

end InferBridge.ContinueConfig
