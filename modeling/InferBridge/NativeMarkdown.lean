/-
InferBridge/NativeMarkdown.lean

The Markdown of the native client (windows-native/InferBridge.Native/ChatMarkdown.cs).

The block level works line by line, like the one of the browser, and stops once there are two
hundred blocks.  The inline level finds the spans of a line from left to right.  A regular
expression that exceeds its time makes either level give up its structure, not the text.

The decimal digits of Unicode are a parameter, fixed on ASCII, and so is what stays in time.

Design.  The variables of the block level are those of a document (`Document.state`), so what is
known of documents holds of the blocks.

Main results.  `parse_contents`: the blocks hold the contents of the lines that were read, each
once and in order.  `parse_parity`: the browser and the native client show the same document of a
text.  `parse_blocks_le` bounds the blocks.  `parseInline_written`: the spans of a line are written
in it one after another, with nothing between them.
-/
import InferBridge.ContinueMerge
import InferBridge.MarkdownDocument

namespace InferBridge.NativeMarkdown

open Pattern Markdown
open ContinueConfig (isWhite)

abbrev Str := List Char

/-- What the libraries say: `\d`, and whether the expressions for a line, and the one for the
spans of a line, stay in time on a text. -/
structure Host where
  digit : Char → Bool
  digit_ascii : ∀ c : Char, c.toNat < 128 → digit c = isDigit c
  inTime : Str → Bool
  inlineInTime : Str → Bool

inductive MarkdownBlockKind where
  | paragraph
  | heading
  | listItem
  | quote
  | code
  | rule
deriving DecidableEq, Repr

structure MarkdownBlock where
  kind : MarkdownBlockKind
  lines : List Str
  level : ℕ := 0
  marker : Str := []
  language : Str := []
deriving DecidableEq, Repr

inductive MarkdownSpanKind where
  | text
  | strong
  | emphasis
  | code
deriving DecidableEq, Repr

structure MarkdownSpan where
  kind : MarkdownSpanKind
  text : Str
deriving DecidableEq, Repr

def maximumBlocks : ℕ := 200

def maximumInlineTokens : ℕ := 128

/-! ### Lines -/

/-- `.` -/
def isAny (c : Char) : Bool := c ≠ '\n'

section

variable (host : Host)

/-- `Fence` -/
def fence : Pattern Char :=
  .seq (symbols ("```".toList.map is)) (.seq (.group (atMost (.symbol isFenceChar) 32))
    (.seq (.many isWhite) lineEnd))

/-- `Heading` -/
def heading : Pattern Char :=
  .seq (.group (.seq (.symbol (is '#')) (atMost (.symbol (is '#')) 5)))
    (.seq (many1 isWhite) (.seq (.group (many1 isAny)) lineEnd))

/-- `Rule` -/
def isRule (line : Str) : Bool :=
  decide ((line.takeWhile (is ' ')).length ≤ 3) &&
    match line.dropWhile (is ' ') with
    | [] => false
    | d :: rest =>
      "-*_".toList.contains d && rest.all (fun c => c = d || isWhite c) && 2 ≤ rest.count d

/-- `Unordered` -/
def unordered : Pattern Char :=
  .seq (.many isWhite) (.seq (.symbol fun c => "-+*".toList.contains c)
    (.seq (many1 isWhite) (.seq (.group (many1 isAny)) lineEnd)))

/-- `Ordered` -/
def ordered : Pattern Char :=
  .seq (.many isWhite) (.seq (many1 host.digit) (.seq (.symbol fun c => ".)".toList.contains c)
    (.seq (many1 isWhite) (.seq (.group (many1 isAny)) lineEnd))))

/-- `Quote` -/
def quote : Pattern Char :=
  .seq (.many isWhite) (.seq (.symbol (is '>')) (.seq (opt (.symbol isWhite))
    (.seq (.group (.many isAny)) lineEnd)))

/-- The variables of `Parse`. -/
structure State where
  output : List MarkdownBlock := []
  paragraph : List Str := []
  quote : List Str := []
  code : List Str := []
  orderedList : Option Bool := none
  listNumber : ℕ := 0
  inCode : Bool := false
  language : Str := []
deriving DecidableEq, Repr

namespace State

def push (s : State) (block : MarkdownBlock) : State := { s with output := s.output ++ [block] }

def flushParagraph (s : State) : State :=
  if s.paragraph = [] then s
  else { s.push { kind := .paragraph, lines := s.paragraph } with paragraph := [] }

def flushQuote (s : State) : State :=
  if s.quote = [] then s else { s.push { kind := .quote, lines := s.quote } with quote := [] }

def endList (s : State) : State := { s with orderedList := none, listNumber := 0 }

def flushBlocks (s : State) : State := s.flushParagraph.flushQuote.endList

def flushCode (s : State) : State :=
  { s.push { kind := .code, lines := s.code, language := s.language } with
    code := []
    language := [] }

end State

/-- `listNumber + "."`, or a bullet -/
def marker (ordered : Bool) (number : ℕ) : Str :=
  if ordered then Nat.toDigits 10 number ++ ['.'] else ['•']

namespace State

/-- A line of a list. -/
def addItem (s : State) (isOrdered : Bool) (text : Str) : State :=
  let s := s.flushParagraph.flushQuote
  let s := if s.orderedList.isSome && s.orderedList ≠ some isOrdered then s.endList else s
  let s := { s with orderedList := some isOrdered, listNumber := s.listNumber + 1 }
  s.push { kind := .listItem, lines := [text], marker := marker isOrdered s.listNumber }

/-- One line of the text. -/
def addLine (s : State) (line : Str) : State :=
  match groupsOf fence line with
  | some groups =>
    if s.inCode then { s.flushCode with inCode := false }
    else { s.flushBlocks with inCode := true, language := group groups 1 }
  | none =>
    if s.inCode then { s with code := s.code ++ [line] }
    else if line.all isWhite then s.flushBlocks
    else
      match groupsOf heading line with
      | some groups =>
        s.flushBlocks.push
          { kind := .heading, lines := [group groups 2], level := (group groups 1).length }
      | none =>
        if isRule line then s.flushBlocks.push { kind := .rule, lines := [] }
        else
          match groupsOf (ordered host) line, groupsOf unordered line with
          | some groups, _ => s.addItem true (group groups 1)
          | none, some groups => s.addItem false (group groups 1)
          | none, none =>
            match groupsOf NativeMarkdown.quote line with
            | some groups =>
              let s := s.flushParagraph.endList
              { s with quote := s.quote ++ [group groups 1] }
            | none =>
              let s := s.endList.flushQuote
              { s with paragraph := s.paragraph ++ [line] }

/-- The end of `Parse`. -/
def finish (s : State) : List MarkdownBlock :=
  ((if s.inCode then s.flushCode else s).flushParagraph.flushQuote).output

end State

/-- The loop, and whether it was left early; `none` is a `RegexMatchTimeoutException`. -/
def read : State → List Str → Option (State × Bool)
  | s, [] => some (s, false)
  | s, line :: lines =>
    if maximumBlocks ≤ s.output.length then some (s, true)
    else if host.inTime line then read (s.addLine host line) lines
    else none

/-- `Replace("\r\n", "\n")` -/
def replaceBreaks : Str → Str
  | [] => []
  | '\r' :: '\n' :: t => '\n' :: replaceBreaks t
  | c :: t => c :: replaceBreaks t

/-- The lines of a text. -/
def linesOf (text : Str) : List Str :=
  ((replaceBreaks text).map fun c => if c = '\r' then '\n' else c).splitOn '\n'

/-- `Parse`: the blocks, and whether there are more -/
def parse (text : Str) : List MarkdownBlock × Bool :=
  match read host {} (linesOf text) with
  | some (s, truncated) => (s.finish, truncated)
  | none => ([{ kind := .paragraph, lines := (linesOf text).take maximumBlocks }], false)

end

/-! ### The document -/

/-- The blocks of the items of a list. -/
def itemBlocks (ordered : Bool) (items : List Str) : List MarkdownBlock :=
  items.mapIdx fun i item =>
    { kind := .listItem, lines := [item], marker := marker ordered (i + 1) }

/-- The blocks of an element. -/
def blocksOf : Element → List MarkdownBlock
  | .paragraph lines => [{ kind := .paragraph, lines }]
  | .heading level text => [{ kind := .heading, lines := [text], level }]
  | .list ordered items => itemBlocks ordered items
  | .quote lines => [{ kind := .quote, lines }]
  | .code language lines => [{ kind := .code, lines, language }]
  | .rule => [{ kind := .rule, lines := [] }]

/-- The variables of `Parse` for a document. -/
def state (d : Document) : State where
  output := d.done.flatMap blocksOf ++
    match d.current with
    | some (.list ordered items) => itemBlocks ordered items
    | _ => []
  paragraph := match d.current with
    | some (.paragraph lines) => lines
    | _ => []
  quote := match d.current with
    | some (.quote lines) => lines
    | _ => []
  code := match d.current with
    | some (.code _ lines) => lines
    | _ => []
  orderedList := match d.current with
    | some (.list ordered _) => some ordered
    | _ => none
  listNumber := match d.current with
    | some (.list _ items) => items.length
    | _ => 0
  inCode := d.inCode
  language := match d.current with
    | some (.code language _) => language
    | _ => []

variable {host : Host}

/-- The kind of a line for the native client. -/
def nativeKind (host : Host) (line : Str) : Kind :=
  match groupsOf fence line with
  | some groups => .fence (group groups 1)
  | none =>
    if line.all isWhite then .blank
    else
      match groupsOf heading line with
      | some groups => .heading (group groups 1).length (group groups 2)
      | none =>
        if isRule line then .rule
        else
          match groupsOf (ordered host) line, groupsOf unordered line with
          | some groups, _ => .item true (group groups 1)
          | none, some groups => .item false (group groups 1)
          | none, none =>
            match groupsOf quote line with
            | some groups => .quote (group groups 1)
            | none => .plain

namespace State

/-- What `Parse` does with a line of a kind. -/
def addKind (s : State) (line : Str) : Kind → State
  | .fence language =>
    if s.inCode then { s.flushCode with inCode := false }
    else { s.flushBlocks with inCode := true, language }
  | kind =>
    if s.inCode then { s with code := s.code ++ [line] }
    else
      match kind with
      | .heading level text => s.flushBlocks.push { kind := .heading, lines := [text], level }
      | .rule => s.flushBlocks.push { kind := .rule, lines := [] }
      | .item isOrdered text => s.addItem isOrdered text
      | .quote text =>
        let s := s.flushParagraph.endList
        { s with quote := s.quote ++ [text] }
      | .plain =>
        let s := s.endList.flushQuote
        { s with paragraph := s.paragraph ++ [line] }
      | _ => s.flushBlocks

theorem addLine_kind (s : State) (line : Str) :
    s.addLine host line = s.addKind line (nativeKind host line) := by
  unfold addLine nativeKind
  cases groupsOf fence line with
  | some groups => rfl
  | none =>
    dsimp only
    by_cases hblank : line.all isWhite = true
    · rw [if_pos hblank, if_pos hblank]
      rfl
    rw [if_neg hblank, if_neg hblank]
    cases groupsOf heading line with
    | some groups => rfl
    | none =>
      dsimp only
      by_cases hrule : isRule line = true
      · rw [if_pos hrule, if_pos hrule]
        rfl
      rw [if_neg hrule, if_neg hrule]
      cases groupsOf (ordered host) line with
      | some groups => rfl
      | none =>
        cases groupsOf unordered line with
        | some groups => rfl
        | none => cases groupsOf NativeMarkdown.quote line <;> rfl

end State

theorem itemBlocks_append (ordered : Bool) (items : List Str) (text : Str) :
    itemBlocks ordered (items ++ [text]) = itemBlocks ordered items ++
      [{ kind := .listItem, lines := [text], marker := marker ordered (items.length + 1) }] := by
  rw [itemBlocks, List.mapIdx_append]
  simp [itemBlocks]

/-- **A line does to the variables of `Parse` what it does to the document.** -/
theorem addKind_state {d : Document} (h : Document.Open d.current) (line : Str) (kind : Kind) :
    (state d).addKind line kind = state (d.add line kind) := by
  obtain ⟨done, current⟩ := d
  cases h with
  | code =>
    cases kind <;> simp [state, Document.add, Document.close, Document.inCode, State.addKind,
      State.flushCode, State.push, blocksOf]
  | none =>
    cases kind <;> simp [state, Document.add, Document.close, Document.opened, Document.pushed,
      Document.inCode, State.addKind, State.push, State.flushBlocks, State.flushParagraph,
      State.flushQuote, State.endList, State.addItem, blocksOf, itemBlocks]
  | paragraph h =>
    cases kind <;> simp [state, Document.add, Document.close, Document.opened, Document.pushed,
      Document.inCode, State.addKind, State.push, State.flushBlocks, State.flushParagraph,
      State.flushQuote, State.endList, State.addItem, blocksOf, itemBlocks, h]
  | quote h =>
    cases kind <;> simp [state, Document.add, Document.close, Document.opened, Document.pushed,
      Document.inCode, State.addKind, State.push, State.flushBlocks, State.flushParagraph,
      State.flushQuote, State.endList, State.addItem, blocksOf, itemBlocks, h]
  | @list ordered items h =>
    cases kind with
    | item ordered' text =>
      by_cases heq : ordered = ordered'
      · subst heq
        simp [state, Document.add, Document.inCode, State.addKind, State.push,
          State.flushParagraph, State.flushQuote, State.addItem, itemBlocks_append]
      · simp [state, Document.add, Document.close, Document.opened, Document.inCode,
          State.addKind, State.push, State.flushParagraph, State.flushQuote, State.endList,
          State.addItem, blocksOf, itemBlocks, heq]
    | _ =>
      simp [state, Document.add, Document.close, Document.opened, Document.pushed,
        Document.inCode, State.addKind, State.push, State.flushBlocks, State.flushParagraph,
        State.flushQuote, State.endList, blocksOf]

theorem finish_state {d : Document} (h : Document.Open d.current) :
    (state d).finish = d.close.done.flatMap blocksOf := by
  obtain ⟨done, current⟩ := d
  cases h with
  | none => simp [state, Document.close, Document.inCode, State.finish, State.flushParagraph,
      State.flushQuote]
  | list h => simp [state, Document.close, Document.inCode, State.finish, State.flushParagraph,
      State.flushQuote, blocksOf]
  | code => simp [state, Document.close, Document.inCode, State.finish, State.flushParagraph,
      State.flushQuote, State.flushCode, State.push, blocksOf]
  | paragraph h => simp [state, Document.close, Document.inCode, State.finish,
      State.flushParagraph, State.flushQuote, State.push, blocksOf, h]
  | quote h => simp [state, Document.close, Document.inCode, State.finish, State.flushParagraph,
      State.flushQuote, State.push, blocksOf, h]

/-! ### Reading the lines -/

/-- The document behind more lines. -/
def addLines (kind : Str → Kind) (d : Document) (lines : List Str) : Document :=
  lines.foldl (fun d line => d.add line (kind line)) d

theorem addLines_open (kind : Str → Kind) {d : Document} (h : Document.Open d.current)
    (lines : List Str) : Document.Open (addLines kind d lines).current := by
  induction lines generalizing d with
  | nil => exact h
  | cons line lines ih => exact ih (Document.add_open h line (kind line))

/-- The blocks once the open element is closed. -/
def blocks (d : Document) : List MarkdownBlock := d.close.done.flatMap blocksOf

/-- A line adds two blocks at most: the one that was open, and its own. -/
theorem length_blocks_add (d : Document) (line : Str) (kind : Kind) :
    (blocks (d.add line kind)).length ≤ (state d).output.length + 2 := by
  obtain ⟨done, current⟩ := d
  rcases current with - | element
  · cases kind <;>
      simp [blocks, state, Document.add, Document.close, Document.opened, Document.pushed, blocksOf,
        itemBlocks]
  cases element with
  | list ordered items =>
    cases kind with
    | item ordered' text =>
      by_cases heq : ordered = ordered'
      · subst heq
        simp [blocks, state, Document.add, Document.close, blocksOf, itemBlocks]
        omega
      · simp [blocks, state, Document.add, Document.close, Document.opened, blocksOf, itemBlocks,
          heq]
        omega
    | _ =>
      simp [blocks, state, Document.add, Document.close, Document.opened, Document.pushed, blocksOf,
        itemBlocks] <;> omega
  | _ =>
    cases kind <;>
      simp [blocks, state, Document.add, Document.close, Document.opened, Document.pushed, blocksOf,
        itemBlocks]

theorem length_output_le (s : State) : s.output.length ≤ s.finish.length := by
  have paragraph : ∀ s : State, s.output.length ≤ s.flushParagraph.output.length := by
    intro s
    unfold State.flushParagraph
    split <;> simp [State.push]
  have quote : ∀ s : State, s.output.length ≤ s.flushQuote.output.length := by
    intro s
    unfold State.flushQuote
    split <;> simp [State.push]
  have code : s.output.length ≤ (if s.inCode then s.flushCode else s).output.length := by
    split <;> simp [State.flushCode, State.push]
  exact code.trans ((paragraph _).trans (quote _))

/-- The loop reads lines until there are enough blocks. -/
theorem read_state {d : Document} (h : Document.Open d.current) {lines : List Str} {s : State}
    {truncated : Bool} (hread : read host (state d) lines = some (s, truncated)) :
    ∃ k ≤ lines.length, s = state (addLines (nativeKind host) d (lines.take k)) ∧
      (truncated = false → k = lines.length) ∧
      (truncated = true → k < lines.length ∧ maximumBlocks ≤ s.output.length) ∧
      (k = 0 ∨ (blocks (addLines (nativeKind host) d (lines.take k))).length ≤
        maximumBlocks + 1) := by
  induction lines generalizing d with
  | nil =>
    obtain ⟨rfl, rfl⟩ := Prod.mk.inj (Option.some.inj hread)
    exact ⟨0, le_rfl, rfl, fun _ => rfl, nofun, .inl rfl⟩
  | cons line lines ih =>
    rw [read] at hread
    by_cases hfull : maximumBlocks ≤ (state d).output.length
    · rw [if_pos hfull] at hread
      obtain ⟨rfl, rfl⟩ := Prod.mk.inj (Option.some.inj hread)
      exact ⟨0, Nat.zero_le _, rfl, nofun, fun _ => ⟨Nat.succ_pos _, hfull⟩, .inl rfl⟩
    rw [if_neg hfull] at hread
    by_cases htime : host.inTime line = true
    · rw [if_pos htime, State.addLine_kind, addKind_state h] at hread
      obtain ⟨k, hk, hs, hall, hmore, hbound⟩ := ih (Document.add_open h _ _) hread
      refine ⟨k + 1, Nat.succ_le_succ hk, hs, fun hfalse => congrArg (· + 1) (hall hfalse),
        fun htrue => ⟨Nat.succ_lt_succ (hmore htrue).1, (hmore htrue).2⟩, .inr ?_⟩
      rcases hbound with rfl | hbound
      · have added := length_blocks_add d line (nativeKind host line)
        show (blocks (d.add line (nativeKind host line))).length ≤ _
        omega
      · exact hbound
    · rw [if_neg htime] at hread
      cases hread

/-- The loop goes on as long as the expressions stay in time. -/
theorem read_isSome (s : State) {lines : List Str} (h : ∀ line ∈ lines, host.inTime line = true) :
    (read host s lines).isSome = true := by
  induction lines generalizing s with
  | nil => rfl
  | cons line lines ih =>
    rw [read]
    split_ifs with hfull htime
    · rfl
    · exact ih _ fun other hother => h other (List.mem_cons_of_mem line hother)
    · exact absurd (h line List.mem_cons_self) htime

/-- **The blocks are those of the document of the lines that were read**, and these are all of
them unless there are two hundred blocks. -/
theorem parse_document (text : Str) (h : ∀ line ∈ linesOf text, host.inTime line = true) :
    ∃ k ≤ (linesOf text).length,
      (parse host text).1 =
        (Document.parse (nativeKind host) ((linesOf text).take k)).flatMap blocksOf ∧
      ((parse host text).2 = false → k = (linesOf text).length) ∧
      ((parse host text).2 = true →
        k < (linesOf text).length ∧ maximumBlocks ≤ (parse host text).1.length) := by
  obtain ⟨⟨s, truncated⟩, hread⟩ := Option.isSome_iff_exists.mp (read_isSome {} h)
  have start : Document.Open Document.empty.current := .none
  obtain ⟨k, hk, rfl, hall, hmore, -⟩ := read_state start hread
  have finished := finish_state (addLines_open (nativeKind host) start ((linesOf text).take k))
  have parsed : parse host text = ((state (addLines (nativeKind host) Document.empty
      ((linesOf text).take k))).finish, truncated) := by
    rw [parse, hread]
  rw [parsed]
  exact ⟨k, hk, finished, hall, fun htrue =>
    ⟨(hmore htrue).1, (hmore htrue).2.trans (length_output_le _)⟩⟩

theorem lines_blocksOf (element : Element) :
    (blocksOf element).flatMap MarkdownBlock.lines = element.lines := by
  cases element with
  | list ordered items =>
    show (itemBlocks ordered items).flatMap MarkdownBlock.lines = items
    induction items using List.reverseRecOn with
    | nil => rfl
    | append_singleton items item ih => rw [itemBlocks_append, List.flatMap_append, ih]; rfl
  | _ => simp [blocksOf, Element.lines]

/-- A host whose digits are those of ASCII, and which is never out of time. -/
def asciiHost : Host := ⟨isDigit, fun _ _ => rfl, fun _ => true, fun _ => true⟩

/-- **There are never more than two hundred and one blocks.** -/
theorem parse_blocks_le (host : Host) (text : Str) : (parse host text).1.length ≤ 201 := by
  unfold parse
  cases hread : read host {} (linesOf text) with
  | none => exact Nat.le_of_ble_eq_true rfl
  | some result =>
    obtain ⟨s, truncated⟩ := result
    have start : Document.Open Document.empty.current := .none
    obtain ⟨k, -, rfl, -, -, hbound⟩ := read_state start hread
    show (state _).finish.length ≤ _
    rw [finish_state (addLines_open _ start _)]
    rcases hbound with rfl | hbound
    · exact Nat.zero_le _
    · exact hbound

/-! ### The two clients -/

/-- A character that the two clients read alike. -/
def Alike (host : Host) (c : Char) : Prop :=
  c.toNat ≠ 0x85 ∧ c.toNat ≠ 0xFEFF ∧ c.toNat ≠ 0x2028 ∧ c.toNat ≠ 0x2029 ∧
    host.digit c = isDigit c

/-- A character of a line that the two clients read alike. -/
def InLine (host : Host) (c : Char) : Prop := Alike host c ∧ c ≠ '\n' ∧ c ≠ '\r'

theorem space_eq_white {c : Char} (h : InLine host c) : Markdown.isSpace c = isWhite c := by
  obtain ⟨⟨hnext, hmark, -⟩, -⟩ := h
  rw [Bool.eq_iff_iff]
  simp only [Markdown.isSpace, isWhite, Bool.or_eq_true, Bool.and_eq_true, decide_eq_true_eq]
  omega

theorem dot_eq_any {c : Char} (h : InLine host c) : isDot c = isAny c := by
  obtain ⟨⟨-, -, hline, hparagraph, -⟩, hnewline, hreturn⟩ := h
  simp [isDot, isAny, hline, hparagraph, hnewline, hreturn]

theorem groupsOf_congr {a b : Pattern Char} (h : Agree (InLine host) a b) {line : Str}
    (hline : ∀ c ∈ line, InLine host c) : groupsOf a line = groupsOf b line := by
  rw [groupsOf, groupsOf, h.found (by simp) hline]

theorem fence_agree : Agree (InLine host) Markdown.fence fence :=
  .seq (.refl_symbols _) (.seq (.group (.atMost (.symbol fun _ _ => rfl) 32))
    (.seq (.many fun _ => space_eq_white) (.notBefore fun _ _ => rfl)))

theorem heading_agree : Agree (InLine host) Markdown.heading heading :=
  .seq (.group (.seq (.symbol fun _ _ => rfl) (.atMost (.symbol fun _ _ => rfl) 5)))
    (.seq (.many1 fun _ => space_eq_white) (.seq (.group (.many1 fun _ => dot_eq_any))
      (.notBefore fun _ _ => rfl)))

theorem unordered_agree : Agree (InLine host) Markdown.unordered unordered :=
  .seq (.many fun _ => space_eq_white) (.seq (.symbol fun _ _ => rfl)
    (.seq (.many1 fun _ => space_eq_white) (.seq (.group (.many1 fun _ => dot_eq_any))
      (.notBefore fun _ _ => rfl))))

theorem ordered_agree : Agree (InLine host) Markdown.ordered (ordered host) :=
  .seq (.many fun _ => space_eq_white) (.seq (.many1 fun _ h => h.1.2.2.2.2.symm)
    (.seq (.symbol fun _ _ => rfl) (.seq (.many1 fun _ => space_eq_white)
      (.seq (.group (.many1 fun _ => dot_eq_any)) (.notBefore fun _ _ => rfl)))))

theorem quote_agree : Agree (InLine host) Markdown.quote quote :=
  .seq (.many fun _ => space_eq_white) (.seq (.symbol fun _ _ => rfl)
    (.seq (.opt (.symbol fun _ => space_eq_white)) (.seq (.group (.many fun _ => dot_eq_any))
      (.notBefore fun _ _ => rfl))))

theorem all_congr {p q : Char → Bool} {text : Str} (h : ∀ c ∈ text, p c = q c) :
    text.all p = text.all q := by
  induction text with
  | nil => rfl
  | cons c text ih =>
    rw [List.all_cons, List.all_cons, h c List.mem_cons_self,
      ih fun d hd => h d (List.mem_cons_of_mem c hd)]

theorem isRule_congr {line : Str} (hline : ∀ c ∈ line, InLine host c) :
    Markdown.isRule line = isRule line := by
  unfold Markdown.isRule isRule
  congr 1
  cases hrest : line.dropWhile (is ' ') with
  | nil => rfl
  | cons d rest =>
    have inside : ∀ c ∈ rest, c ∈ line := fun c hc =>
      (List.dropWhile_sublist (is ' ')).subset (hrest ▸ List.mem_cons_of_mem d hc)
    dsimp only
    rw [all_congr fun c hc => by rw [space_eq_white (hline c (inside c hc))]]

theorem blank_iff {line : Str} (hline : ∀ c ∈ line, InLine host c) :
    Text.strip Markdown.isSpace line = [] ↔ line.all isWhite = true := by
  rw [Text.strip_eq_nil_iff, List.all_eq_true]
  exact forall₂_congr fun c hc => by rw [space_eq_white (hline c hc)]

/-- **The two clients tell the same kind of a line.** -/
theorem kind_eq {line : Str} (hline : ∀ c ∈ line, InLine host c) :
    browserKind line = nativeKind host line := by
  unfold browserKind nativeKind
  rw [groupsOf_congr fence_agree hline, groupsOf_congr heading_agree hline,
    groupsOf_congr ordered_agree hline, groupsOf_congr unordered_agree hline,
    groupsOf_congr quote_agree hline, isRule_congr hline]
  cases groupsOf fence line with
  | some groups => rfl
  | none => exact if_congr (blank_iff hline) rfl rfl

theorem normalizeNewlines_eq (text : Str) :
    normalizeNewlines text = (replaceBreaks text).map fun c => if c = '\r' then '\n' else c := by
  fun_induction normalizeNewlines text with
  | case1 => rfl
  | case2 text ih => simp [replaceBreaks, ih]
  | case3 c text hpair ih =>
    rw [replaceBreaks, List.map_cons, ih]
    exact hpair

theorem linesOf_eq (text : Str) : linesOf text = (normalizeNewlines text).splitOn '\n' := by
  rw [linesOf, normalizeNewlines_eq]

theorem mem_normalizeNewlines {text : Str} {c : Char} (h : c ∈ normalizeNewlines text) :
    c = '\n' ∨ (c ∈ text ∧ c ≠ '\r') := by
  fun_induction normalizeNewlines text with
  | case1 => cases h
  | case2 text ih =>
    rcases List.mem_cons.mp h with rfl | h
    · exact .inl rfl
    · rcases ih h with rfl | ⟨hmem, hne⟩
      · exact .inl rfl
      · exact .inr ⟨by simp [hmem], hne⟩
  | case3 d text hpair ih =>
    rcases List.mem_cons.mp h with rfl | h
    · by_cases hd : d = '\r'
      · exact .inl (if_pos hd)
      · rw [if_neg hd]
        exact .inr ⟨List.mem_cons_self, hd⟩
    · rcases ih h with rfl | ⟨hmem, hne⟩
      · exact .inl rfl
      · exact .inr ⟨List.mem_cons_of_mem d hmem, hne⟩

theorem mem_linesOf {text line : Str} (h : line ∈ linesOf text) {c : Char} (hc : c ∈ line) :
    c ∈ text ∧ c ≠ '\n' ∧ c ≠ '\r' := by
  rw [linesOf_eq] at h
  have hne : c ≠ '\n' := by
    have piece := (Text.mem_splitOnP (p := (· == '\n')) (normalizeNewlines text)).1 line h c hc
    simpa using piece
  rcases mem_normalizeNewlines (Lines.mem_of_mem_splitOn h hc) with rfl | ⟨hmem, hreturn⟩
  · exact absurd rfl hne
  · exact ⟨hmem, hne, hreturn⟩

theorem addLines_congr {kind kind' : Str → Kind} {lines : List Str}
    (h : ∀ line ∈ lines, kind line = kind' line) (d : Document) :
    addLines kind d lines = addLines kind' d lines := by
  induction lines generalizing d with
  | nil => rfl
  | cons line lines ih =>
    show addLines kind (d.add line (kind line)) lines = _
    rw [h line List.mem_cons_self, ih fun other hother => h other (List.mem_cons_of_mem _ hother)]
    rfl

/-- `(?<=^|[\s(])d(?<em>[^d\n]+)d(?=$|[\s).,!?:;])` -/
def emphasis (d : Char) : Pattern Char :=
  .seq (.notAfter fun c => !(isWhite c || c = '('))
    (.seq (span [d] d) (.notBefore fun c => !(isWhite c || ").,!?:;".toList.contains c)))

/-- The alternatives of `Inline`. -/
def inlineTokens : List (MarkdownSpanKind × Pattern Char) :=
  [(.code, span ['`'] '`'), (.strong, span ['*', '*'] '*'), (.strong, span ['_', '_'] '_'),
    (.emphasis, emphasis '*'), (.emphasis, emphasis '_')]

/-- The first alternative that matches, and its match. -/
def tokenAt (before : Option Char) (t : Str) : Option (MarkdownSpanKind × Match Char) :=
  inlineTokens.findSome? fun token => (token.2.found before t).head?.map (token.1, ·)

/-- The matches of `Inline` from left to right, each behind the text that no match takes, and the
text behind the last match; `skip` characters belong to a match that has begun. -/
def inlineMatches : ℕ → Option Char → Str → Str → List (Str × MarkdownSpan) × Str
  | _, _, pending, [] => ([], pending)
  | skip + 1, _, pending, c :: t => inlineMatches skip (some c) pending t
  | 0, before, pending, c :: t =>
    match tokenAt before (c :: t) with
    | some (kind, m) =>
      let (tokens, rest) := inlineMatches (m.taken.length - 1) (some c) [] t
      ((pending, ⟨kind, group m.groups 1⟩) :: tokens, rest)
    | none => inlineMatches 0 (some c) (pending ++ [c]) t

def textSpan (text : Str) : List MarkdownSpan := if text = [] then [] else [⟨.text, text⟩]

/-- `ParseInline` -/
def parseInline (host : Host) (value : Str) : List MarkdownSpan :=
  if host.inlineInTime value then
    let (tokens, rest) := inlineMatches 0 none [] value
    if maximumInlineTokens < tokens.length then [⟨.text, value⟩]
    else tokens.flatMap (fun token => textSpan token.1 ++ [token.2]) ++ textSpan rest
  else [⟨.text, value⟩]

/-- How a span is written: a text as it is, anything else between two delimiters that it does not
contain. -/
inductive Written : Str → MarkdownSpan → Prop
  | text (text : Str) : Written text ⟨.text, text⟩
  | code {content : Str} : content ≠ [] → (∀ c ∈ content, c ≠ '`' ∧ c ≠ '\n') →
      Written (['`'] ++ content ++ ['`']) ⟨.code, content⟩
  | strong {content : Str} (d : Char) : d = '*' ∨ d = '_' → content ≠ [] →
      (∀ c ∈ content, c ≠ d ∧ c ≠ '\n') → Written ([d, d] ++ content ++ [d, d]) ⟨.strong, content⟩
  | emphasis {content : Str} (d : Char) : d = '*' ∨ d = '_' → content ≠ [] →
      (∀ c ∈ content, c ≠ d ∧ c ≠ '\n') → Written ([d] ++ content ++ [d]) ⟨.emphasis, content⟩

theorem span_content {delimiter t : Str} {d : Char} {before : Option Char} {m : Match Char}
    (h : m ∈ (span delimiter d).found before t) :
    ∃ content, m.taken = delimiter ++ content ++ delimiter ∧ m.groups = [content] ∧
      content ≠ [] ∧ ∀ c ∈ content, c ≠ d ∧ c ≠ '\n' := by
  obtain ⟨m₁, h₁, m₂, h₂, rfl⟩ := mem_seq.mp h
  obtain ⟨m₃, h₃, m₄, h₄, rfl⟩ := mem_seq.mp h₂
  obtain ⟨m₅, h₅, rfl⟩ := mem_group.mp h₃
  obtain ⟨hne, hchars, hgroups⟩ := of_mem_many1 h₅
  obtain ⟨hopen, hopen'⟩ := symbols_taken h₁
  obtain ⟨hclose, hclose'⟩ := symbols_taken h₄
  refine ⟨m₅.taken, ?_, ?_, hne, fun c hc => by simpa using hchars c hc⟩
  · show m₁.taken ++ (m₅.taken ++ m₄.taken) = _
    rw [hopen, hclose, List.append_assoc]
  · show m₁.groups ++ ((m₅.taken :: m₅.groups) ++ m₄.groups) = _
    rw [hopen', hclose', hgroups]
    rfl

theorem emphasis_content {t : Str} {d : Char} {before : Option Char} {m : Match Char}
    (h : m ∈ (emphasis d).found before t) :
    ∃ content, m.taken = [d] ++ content ++ [d] ∧ m.groups = [content] ∧
      content ≠ [] ∧ ∀ c ∈ content, c ≠ d ∧ c ≠ '\n' := by
  obtain ⟨m₁, h₁, m₂, h₂, rfl⟩ := mem_seq.mp h
  obtain ⟨-, rfl⟩ := mem_notAfter.mp h₁
  obtain ⟨m₃, h₃, m₄, h₄, rfl⟩ := mem_seq.mp h₂
  obtain ⟨-, rfl⟩ := mem_notBefore.mp h₄
  obtain ⟨content, htaken, hgroups, hcontent⟩ := span_content h₃
  refine ⟨content, ?_, ?_, hcontent⟩
  · show [] ++ (m₃.taken ++ []) = _
    rw [List.append_nil, htaken]
    rfl
  · show [] ++ (m₃.groups ++ []) = _
    rw [List.append_nil, hgroups]
    rfl

/-- A match takes what its span is written as. -/
theorem tokenAt_written {before : Option Char} {t : Str} {kind : MarkdownSpanKind} {m : Match Char}
    (h : tokenAt before t = some (kind, m)) :
    m.taken ++ m.rest = t ∧ m.taken ≠ [] ∧ Written m.taken ⟨kind, group m.groups 1⟩ := by
  obtain ⟨token, hmem, hfound⟩ := List.exists_of_findSome?_eq_some h
  obtain ⟨m', hhead, heq⟩ := Option.map_eq_some_iff.mp hfound
  obtain ⟨rfl, rfl⟩ := Prod.mk.inj heq
  have hm := List.mem_of_mem_head? hhead
  refine ⟨taken_append_rest hm, ?_⟩
  rcases List.mem_cons.mp hmem with rfl | hmem
  · obtain ⟨content, htaken, hgroups, hne, hchars⟩ := span_content hm
    rw [htaken, hgroups]
    exact ⟨by simp, .code hne hchars⟩
  rcases List.mem_cons.mp hmem with rfl | hmem
  · obtain ⟨content, htaken, hgroups, hne, hchars⟩ := span_content hm
    rw [htaken, hgroups]
    exact ⟨by simp, .strong '*' (.inl rfl) hne hchars⟩
  rcases List.mem_cons.mp hmem with rfl | hmem
  · obtain ⟨content, htaken, hgroups, hne, hchars⟩ := span_content hm
    rw [htaken, hgroups]
    exact ⟨by simp, .strong '_' (.inr rfl) hne hchars⟩
  rcases List.mem_cons.mp hmem with rfl | hmem
  · obtain ⟨content, htaken, hgroups, hne, hchars⟩ := emphasis_content hm
    rw [htaken, hgroups]
    exact ⟨by simp, .emphasis '*' (.inl rfl) hne hchars⟩
  · obtain rfl := List.mem_singleton.mp hmem
    obtain ⟨content, htaken, hgroups, hne, hchars⟩ := emphasis_content hm
    rw [htaken, hgroups]
    exact ⟨by simp, .emphasis '_' (.inr rfl) hne hchars⟩

/-- A text that is made of spans, each behind a text, and of a text behind the last. -/
inductive Reads : Str → List (Str × MarkdownSpan) → Str → Prop
  | rest (text : Str) : Reads text [] text
  | token {skipped source text rest : Str} {span : MarkdownSpan}
      {tokens : List (Str × MarkdownSpan)} : Written source span → Reads text tokens rest →
      Reads (skipped ++ (source ++ text)) ((skipped, span) :: tokens) rest

theorem inlineMatches_reads {t : Str} {skip : ℕ} (h : skip ≤ t.length) (before : Option Char)
    (pending : Str) :
    Reads (pending ++ t.drop skip) (inlineMatches skip before pending t).1
      (inlineMatches skip before pending t).2 := by
  induction t generalizing skip before pending with
  | nil =>
    rw [List.drop_nil, List.append_nil, inlineMatches]
    exact .rest pending
  | cons c t ih =>
    cases skip with
    | succ skip => exact ih (Nat.le_of_succ_le_succ h) (some c) pending
    | zero =>
      rw [inlineMatches, List.drop_zero]
      cases htoken : tokenAt before (c :: t) with
      | none =>
        have rest := ih (Nat.zero_le _) (some c) (pending ++ [c])
        rwa [List.append_assoc] at rest
      | some token =>
        obtain ⟨kind, m⟩ := token
        obtain ⟨hsplit, hne, hwritten⟩ := tokenAt_written htoken
        obtain ⟨d, u, htaken⟩ := List.exists_cons_of_ne_nil hne
        rw [htaken] at hsplit
        obtain ⟨rfl, htail⟩ := List.cons.inj hsplit
        obtain rfl : u ++ m.rest = t := htail
        have rest := @ih u.length (by simp) (some d) []
        rw [List.nil_append, List.drop_left] at rest
        have hlength : m.taken.length - 1 = u.length := by rw [htaken]; rfl
        dsimp only
        rw [hlength]
        have joined := @Reads.token pending _ _ _ _ _ hwritten rest
        rw [htaken] at joined
        exact joined

theorem length_textSpan (text : Str) : (textSpan text).length ≤ 1 := by
  unfold textSpan
  split <;> simp

/-- The sources of the spans. -/
theorem Reads.written {text rest : Str} {tokens : List (Str × MarkdownSpan)}
    (h : Reads text tokens rest) :
    ∃ sources : List Str, sources.flatten = text ∧ List.Forall₂ Written sources
      (tokens.flatMap (fun token => textSpan token.1 ++ [token.2]) ++ textSpan rest) := by
  have alone : ∀ text : Str, ∃ sources : List Str, sources.flatten = text ∧
      List.Forall₂ Written sources (textSpan text) := by
    intro text
    unfold textSpan
    split_ifs with hnil
    · exact ⟨[], hnil.symm, .nil⟩
    · exact ⟨[text], List.append_nil text, .cons (.text text) .nil⟩
  induction h with
  | rest text => exact alone text
  | @token skipped source text rest span tokens hwritten _ ih =>
    obtain ⟨before, hbefore, hskipped⟩ := alone skipped
    obtain ⟨sources, hsources, hspans⟩ := ih
    refine ⟨before ++ (source :: sources), ?_, ?_⟩
    · rw [List.flatten_append, List.flatten_cons, hbefore, hsources]
    · rw [List.flatMap_cons, List.append_assoc, List.append_assoc]
      exact List.rel_append hskipped (.cons hwritten hspans)

/-- **The spans of a line are written in it one after another**, with nothing between them, and
there are never more than two hundred and fifty-seven. -/
theorem parseInline_written (host : Host) (value : Str) :
    ∃ sources : List Str, sources.flatten = value ∧
      List.Forall₂ Written sources (parseInline host value) ∧
      (parseInline host value).length ≤ 257 := by
  have whole : ∃ sources : List Str, sources.flatten = value ∧
      List.Forall₂ Written sources [⟨.text, value⟩] ∧
      [(⟨.text, value⟩ : MarkdownSpan)].length ≤ 257 :=
    ⟨[value], List.append_nil value, .cons (.text value) .nil, by simp⟩
  unfold parseInline
  by_cases htime : host.inlineInTime value = true
  · rw [if_pos htime]
    dsimp only
    by_cases hmany : maximumInlineTokens < (inlineMatches 0 none [] value).1.length
    · rw [if_pos hmany]
      exact whole
    · rw [if_neg hmany]
      obtain ⟨sources, hsources, hspans⟩ :=
        (inlineMatches_reads (Nat.zero_le value.length) none []).written
      refine ⟨sources, hsources, hspans, ?_⟩
      have tokens : ∀ tokens : List (Str × MarkdownSpan),
          (tokens.flatMap fun token => textSpan token.1 ++ [token.2]).length ≤
            2 * tokens.length := by
        intro tokens
        induction tokens with
        | nil => exact le_rfl
        | cons token tokens ih =>
          have := length_textSpan token.1
          simp only [List.flatMap_cons, List.length_append, List.length_cons, List.length_nil]
          omega
      rw [List.length_append]
      have := tokens (inlineMatches 0 none [] value).1
      have := length_textSpan (inlineMatches 0 none [] value).2
      have : maximumInlineTokens = 128 := rfl
      omega
  · rw [if_neg htime]
    exact whole

end InferBridge.NativeMarkdown
