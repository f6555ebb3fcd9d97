/-
InferBridge/Markdown.lean

The Markdown of the web client (`renderMarkdown` in src/web/index.html).

Text is escaped first; five substitutions then put tags into it, one after
another, so that the later ones see the tags of the earlier ones.  The block
level works line by line and keeps a paragraph, a list, a quote and a code
block until they are flushed.

The regular expressions are patterns of InferBridge/Lib/Pattern.lean, but
for the rule of three marks, whose back reference is spelled out.

Main results.  `renderMarkdown_safe`: the result is written from tags of a
fixed set and from characters that are no angle brackets; without the tags
and the escapes it is a part of the text, in the order of the text, with its
line separators written as newlines.
-/
import InferBridge.Lib.Markup
import InferBridge.Lib.Text

namespace InferBridge.Markdown

open Pattern Markup

abbrev Str := List Char

/-! ### Characters -/

/-- `\s` -/
def isSpace (c : Char) : Bool :=
  (9 ≤ c.toNat && c.toNat ≤ 13) || c.toNat = 32 || c.toNat = 0xA0 || c.toNat = 0x1680 ||
    (0x2000 ≤ c.toNat && c.toNat ≤ 0x200A) || c.toNat = 0x2028 || c.toNat = 0x2029 ||
    c.toNat = 0x202F || c.toNat = 0x205F || c.toNat = 0x3000 || c.toNat = 0xFEFF

/-- `.` -/
def isDot (c : Char) : Bool :=
  !(c = '\n' || c = '\r' || c.toNat = 0x2028 || c.toNat = 0x2029)

def isDigit (c : Char) : Bool := 48 ≤ c.toNat && c.toNat ≤ 57

def isLetter (c : Char) : Bool :=
  (65 ≤ c.toNat && c.toNat ≤ 90) || (97 ≤ c.toNat && c.toNat ≤ 122)

/-- `[A-Za-z0-9_+.#-]` -/
def isFenceChar (c : Char) : Bool := isLetter c || isDigit c || "_+.#-".toList.contains c

def is (d : Char) (c : Char) : Bool := c = d

/-! ### Escapes -/

/-- `text.replace(/d/g, escape)` -/
def replaceChar (d : Char) (escape : Str) (text : Str) : Str :=
  text.flatMap fun c => if c = d then escape else [c]

/-- `escapeHtml` -/
def escapeHtml (text : Str) : Str :=
  replaceChar '>' "&gt;".toList (replaceChar '<' "&lt;".toList
    (replaceChar '&' "&amp;".toList text))

/-- `escapeAttr` -/
def escapeAttr (text : Str) : Str :=
  replaceChar '\'' "&#39;".toList (replaceChar '"' "&quot;".toList (escapeHtml text))

/-! ### Inline markup -/

/-- `$1`, `$2`, … -/
def group (groups : List Str) (i : Nat) : Str := groups.getD (i - 1) []

/-- A delimiter of copies of `d`, text without `d`, the delimiter. -/
def span (delimiter : Str) (d : Char) : Pattern Char :=
  .seq (symbols (delimiter.map is)) (.seq (.group (many1 fun c => c ≠ d && c ≠ '\n'))
    (symbols (delimiter.map is)))

/-- `(^|[\s(])d([^d\n]+)d(?=$|[\s).,!?:;])` -/
def emphasis (d : Char) : Pattern Char :=
  .seq (.group (.alt (.notAfter fun _ => true) (.symbol fun c => isSpace c || c = '(')))
    (.seq (span [d] d) (.notBefore fun c => !(isSpace c || ").,!?:;".toList.contains c)))

/-- The text between two tags. -/
def wrapped (name : String) (text : Str) : Str :=
  '<' :: name.toList ++ '>' :: text ++ '<' :: '/' :: name.toList ++ ['>']

/-- `renderInlineMarkdown` -/
def renderInlineMarkdown (text : Str) : Str :=
  let safe := escapeHtml text
  let safe := substitute (span ['`'] '`') (fun g => wrapped "code" (group g 1)) safe
  let safe := substitute (span ['*', '*'] '*') (fun g => wrapped "strong" (group g 1)) safe
  let safe := substitute (span ['_', '_'] '_') (fun g => wrapped "strong" (group g 1)) safe
  let safe := substitute (emphasis '*') (fun g => group g 1 ++ wrapped "em" (group g 2)) safe
  substitute (emphasis '_') (fun g => group g 1 ++ wrapped "em" (group g 2)) safe

/-! ### Lines -/

/-- `replace(/\r\n?/g, '\n')` -/
def normalizeNewlines : Str → Str
  | [] => []
  | '\r' :: '\n' :: t => '\n' :: normalizeNewlines t
  | c :: t => (if c = '\r' then '\n' else c) :: normalizeNewlines t

/-- `$` -/
def lineEnd : Pattern Char := .notBefore fun _ => true

/-- The groups of a pattern that begins with `^`. -/
def groupsOf (a : Pattern Char) (line : Str) : Option (List Str) :=
  (a.found none line).head?.map Match.groups

/-- `^```([A-Za-z0-9_+.#-]{0,32})\s*$` -/
def fence : Pattern Char :=
  .seq (symbols ("```".toList.map is)) (.seq (.group (atMost (.symbol isFenceChar) 32))
    (.seq (.many isSpace) lineEnd))

/-- `^(#{1,6})\s+(.+)$` -/
def heading : Pattern Char :=
  .seq (.group (.seq (.symbol (is '#')) (atMost (.symbol (is '#')) 5)))
    (.seq (many1 isSpace) (.seq (.group (many1 isDot)) lineEnd))

/-- `^\s*[-+*]\s+(.+)$` -/
def unordered : Pattern Char :=
  .seq (.many isSpace) (.seq (.symbol fun c => "-+*".toList.contains c)
    (.seq (many1 isSpace) (.seq (.group (many1 isDot)) lineEnd)))

/-- `^\s*\d+[.)]\s+(.+)$` -/
def ordered : Pattern Char :=
  .seq (.many isSpace) (.seq (many1 isDigit) (.seq (.symbol fun c => ".)".toList.contains c)
    (.seq (many1 isSpace) (.seq (.group (many1 isDot)) lineEnd))))

/-- `^\s*>\s?(.*)$` -/
def quote : Pattern Char :=
  .seq (.many isSpace) (.seq (.symbol (is '>')) (.seq (opt (.symbol isSpace))
    (.seq (.group (.many isDot)) lineEnd)))

/-- `^ {0,3}([-*_])(?:\s*\1){2,}\s*$`: at most three blanks, then only the first mark and white
space, with the mark three times at least. -/
def isRule (line : Str) : Bool :=
  decide ((line.takeWhile (is ' ')).length ≤ 3) &&
    match line.dropWhile (is ' ') with
    | [] => false
    | d :: rest =>
      "-*_".toList.contains d && rest.all (fun c => c = d || isSpace c) && 2 ≤ rest.count d

/-! ### Blocks -/

inductive ListType where
  | ul
  | ol
deriving DecidableEq, Repr

def ListType.text : ListType → String
  | .ul => "ul"
  | .ol => "ol"

structure Blocks where
  output : List Str := []
  paragraph : List Str := []
  listType : Option ListType := none
  listItems : List Str := []
  quoteLines : List Str := []
  inCode : Bool := false
  codeLanguage : Str := []
  codeLines : List Str := []

def lineBreak : Str := "<br>".toList

namespace Blocks

def push (b : Blocks) (html : Str) : Blocks := { b with output := b.output ++ [html] }

def flushParagraph (b : Blocks) : Blocks :=
  if b.paragraph = [] then b
  else
    { b.push (wrapped "p" (lineBreak.intercalate (b.paragraph.map renderInlineMarkdown))) with
      paragraph := [] }

def flushList (b : Blocks) : Blocks :=
  match b.listType with
  | none => b
  | some listType =>
    { b.push (wrapped listType.text
        ((b.listItems.map fun item => wrapped "li" (renderInlineMarkdown item)).flatten)) with
      listType := none
      listItems := [] }

def flushQuote (b : Blocks) : Blocks :=
  if b.quoteLines = [] then b
  else
    { b.push (wrapped "blockquote"
        (lineBreak.intercalate (b.quoteLines.map renderInlineMarkdown))) with
      quoteLines := [] }

def flushBlocks (b : Blocks) : Blocks := b.flushParagraph.flushList.flushQuote

/-- `<code>`, with the class of its language. -/
def codeTag (language : Str) : Str :=
  if language = [] then "<code>".toList
  else "<code class=\"language-".toList ++ escapeAttr language ++ "\">".toList

def flushCode (b : Blocks) : Blocks :=
  { b.push ("<pre>".toList ++ codeTag b.codeLanguage ++
      escapeHtml (['\n'].intercalate b.codeLines) ++ "</code></pre>".toList) with
    codeLines := []
    codeLanguage := [] }

def headingHtml (groups : List Str) : Str :=
  wrapped ("h" ++ toString (group groups 1).length) (renderInlineMarkdown (group groups 2))

def addItem (b : Blocks) (nextType : ListType) (item : Str) : Blocks :=
  let b := b.flushParagraph.flushQuote
  let b := if b.listType.isSome && b.listType ≠ some nextType then b.flushList else b
  { b with listType := some nextType, listItems := b.listItems ++ [item] }

/-- One line of the text. -/
def addLine (b : Blocks) (line : Str) : Blocks :=
  match groupsOf fence line with
  | some groups =>
    if b.inCode then { b.flushCode with inCode := false }
    else { b.flushBlocks with inCode := true, codeLanguage := group groups 1 }
  | none =>
    if b.inCode then { b with codeLines := b.codeLines ++ [line] }
    else if Text.strip isSpace line = [] then b.flushBlocks
    else
      match groupsOf heading line with
      | some groups => b.flushBlocks.push (headingHtml groups)
      | none =>
        if isRule line then b.flushBlocks.push "<hr>".toList
        else
          match groupsOf ordered line, groupsOf unordered line with
          | some groups, _ => b.addItem .ol (group groups 1)
          | none, some groups => b.addItem .ul (group groups 1)
          | none, none =>
            match groupsOf quote line with
            | some groups =>
              let b := b.flushParagraph.flushList
              { b with quoteLines := b.quoteLines ++ [group groups 1] }
            | none =>
              let b := b.flushList.flushQuote
              { b with paragraph := b.paragraph ++ [line] }

/-- The end of the text. -/
def finish (b : Blocks) : Blocks := (if b.inCode then b.flushCode else b).flushBlocks

end Blocks

/-- `renderMarkdown` -/
def renderMarkdown (text : Str) : Str :=
  (((normalizeNewlines text).splitOn '\n').foldl Blocks.addLine { }).finish.output.flatten

/-! ### Pieces -/

/-- A character of the text, or a tag. -/
inductive Piece where
  | letter (c : Char)
  | tag (text : Str)

def escapeChar (c : Char) : Str :=
  if c = '&' then "&amp;".toList
  else if c = '<' then "&lt;".toList
  else if c = '>' then "&gt;".toList
  else [c]

def Piece.text : Piece → Str
  | .letter c => escapeChar c
  | .tag text => text

def Piece.letter? : Piece → Option Char
  | .letter c => some c
  | .tag _ => none

def openTag (name : String) : Str := '<' :: name.toList ++ ['>']

def closeTag (name : String) : Str := '<' :: '/' :: name.toList ++ ['>']

theorem wrapped_eq (name : String) (text : Str) :
    wrapped name text = openTag name ++ text ++ closeTag name := by
  simp [wrapped, openTag, closeTag]

/-- The elements that are written without an attribute. -/
def elementNames : List String :=
  ["p", "h1", "h2", "h3", "h4", "h5", "h6", "ul", "ol", "li", "blockquote", "pre", "code", "strong",
    "em"]

/-- The tags of the result. -/
def IsTag (text : Str) : Prop :=
  (∃ name ∈ elementNames, text = openTag name ∨ text = closeTag name) ∨
    text = "<br>".toList ∨ text = "<hr>".toList ∨
    ∃ language, language ≠ [] ∧ (∀ c ∈ language, isFenceChar c = true) ∧
      text = "<code class=\"language-".toList ++ language ++ "\">".toList

theorem escapeHtml_eq (text : Str) : escapeHtml text = text.flatMap escapeChar := by
  rw [escapeHtml, replaceChar, replaceChar, replaceChar, List.flatMap_assoc, List.flatMap_assoc]
  congr 1
  funext c
  unfold escapeChar
  by_cases hamp : c = '&'
  · subst hamp
    rfl
  by_cases hlt : c = '<'
  · subst hlt
    rfl
  by_cases hgt : c = '>'
  · subst hgt
    rfl
  · simp [hamp, hlt, hgt]

theorem render_letters (text : Str) :
    render Piece.text (text.map .letter) = escapeHtml text := by
  rw [render, List.flatMap_map, escapeHtml_eq]
  rfl

theorem letters_letters (text : Str) : letters Piece.letter? (text.map .letter) = text := by
  rw [letters, List.filterMap_map]
  exact List.filterMap_some

/-! ### Inline markup -/

/-- The elements of inline markup. -/
def inlineNames : List String := ["code", "strong", "em"]

/-- A character, or a tag of inline markup. -/
def Piece.Inline : Piece → Prop
  | .letter _ => True
  | .tag text => ∃ name ∈ inlineNames, text = openTag name ∨ text = closeTag name

/-- The characters of escapes and inline tags. -/
def hollowChars : Str := "&amp;&lt;&gt;<code></code><strong></strong><em></em>".toList

def plain (c : Char) : Prop := c ∉ hollowChars

theorem inline_solid {ps : List Piece} (h : ∀ x ∈ ps, x.Inline) {d : Char} (hd : plain d) :
    Solid Piece.text ps d := by
  intro x hx hmem
  have hin {t : Str} (ht : t.all (fun c => hollowChars.contains c) = true) : d ∉ t :=
    fun hdt => hd (List.contains_iff_mem.mp (List.all_eq_true.mp ht d hdt))
  cases x with
  | letter c =>
    change d ∈ escapeChar c at hmem
    show escapeChar c = [d]
    unfold escapeChar at hmem ⊢
    split at hmem
    · exact absurd hmem (hin (by decide))
    split at hmem
    · exact absurd hmem (hin (by decide))
    split at hmem
    · exact absurd hmem (hin (by decide))
    next hamp hlt hgt =>
    rw [List.mem_singleton.mp hmem, if_neg hamp, if_neg hlt, if_neg hgt]
  | tag text =>
    obtain ⟨name, hname, htext⟩ := h _ hx
    simp only [inlineNames, List.mem_cons, List.not_mem_nil, or_false] at hname
    exfalso
    rcases hname with rfl | rfl | rfl <;> rcases htext with rfl | rfl <;>
      exact hin (by decide) hmem

theorem symbols_taken {delimiter t : Str} {before : Option Char} {m : Match Char}
    (h : m ∈ (symbols (delimiter.map is)).found before t) :
    m.taken = delimiter ∧ m.groups = [] := by
  obtain ⟨htaken, hgroups⟩ := of_mem_symbols h
  refine ⟨?_, hgroups⟩
  rw [List.forall₂_map_right_iff] at htaken
  have heq : List.Forall₂ Eq m.taken delimiter := htaken.imp fun _ _ hc => of_decide_eq_true hc
  exact List.forall₂_eq_eq_eq ▸ heq

/-- What a span takes. -/
theorem span_taken {delimiter t : Str} {d : Char} {before : Option Char} {m : Match Char}
    (h : m ∈ (span delimiter d).found before t) :
    ∃ content, m.taken = delimiter ++ content ++ delimiter ∧ m.groups = [content] := by
  obtain ⟨m₁, h₁, m₂, h₂, rfl⟩ := mem_seq.mp h
  obtain ⟨m₃, h₃, m₄, h₄, rfl⟩ := mem_seq.mp h₂
  obtain ⟨m₅, h₅, rfl⟩ := mem_group.mp h₃
  obtain ⟨-, -, hgroups⟩ := of_mem_many1 h₅
  obtain ⟨hopen, hopen'⟩ := symbols_taken h₁
  obtain ⟨hclose, hclose'⟩ := symbols_taken h₄
  refine ⟨m₅.taken, ?_, ?_⟩
  · show m₁.taken ++ (m₅.taken ++ m₄.taken) = _
    rw [hopen, hclose, List.append_assoc]
  · show m₁.groups ++ ((m₅.taken :: m₅.groups) ++ m₄.groups) = _
    rw [hopen', hclose', hgroups]
    rfl

theorem span_wraps (delimiter : Str) (d : Char) (name : String) (hdelimiter : delimiter ≠ [])
    (hplain : ∀ c ∈ delimiter, plain c) :
    Wraps (span delimiter d) (fun g => wrapped name (group g 1)) plain (openTag name)
      (closeTag name) := by
  intro before t m hm
  obtain ⟨content, htaken, hgroups⟩ := span_taken (List.mem_of_mem_head? hm)
  refine ⟨[], delimiter, content, delimiter, htaken, hdelimiter, hdelimiter, ?_, hplain, hplain, ?_⟩
  · intro c hc
    cases hc
  · rw [hgroups]
    exact wrapped_eq name content

theorem plain_of_isSpace {c : Char} (h : isSpace c = true) : plain c := by
  intro hmem
  have hnone : hollowChars.all (fun c => !isSpace c) = true := by decide
  have := List.all_eq_true.mp hnone c hmem
  rw [h] at this
  cases this

theorem emphasis_wraps {d : Char} (hplain : plain d) :
    Wraps (emphasis d) (fun g => group g 1 ++ wrapped "em" (group g 2)) plain (openTag "em")
      (closeTag "em") := by
  intro before t m hm
  obtain ⟨m₁, h₁, m₂, h₂, rfl⟩ := mem_seq.mp (List.mem_of_mem_head? hm)
  obtain ⟨m₃, h₃, m₄, h₄, rfl⟩ := mem_seq.mp h₂
  obtain ⟨-, rfl⟩ := mem_notBefore.mp h₄
  obtain ⟨m₅, h₅, rfl⟩ := mem_group.mp h₁
  obtain ⟨content, htaken, hgroups⟩ := span_taken h₃
  have hfront : (∀ c ∈ m₅.taken, plain c) ∧ m₅.groups = [] := by
    rcases mem_alt.mp h₅ with h | h
    · obtain ⟨-, rfl⟩ := mem_notAfter.mp h
      refine ⟨?_, rfl⟩
      intro c hc
      cases hc
    · obtain ⟨c, hc, -, htaken, hgroups⟩ := mem_symbol.mp h
      refine ⟨?_, hgroups⟩
      intro e he
      rw [htaken, List.mem_singleton] at he
      subst he
      rw [Bool.or_eq_true, decide_eq_true_eq] at hc
      rcases hc with hspace | rfl
      · exact plain_of_isSpace hspace
      · show '(' ∉ hollowChars
        decide
  have hd : ∀ c ∈ [d], plain c := by
    intro c hc
    rwa [List.mem_singleton.mp hc]
  refine ⟨m₅.taken, [d], content, [d], ?_, by simp, by simp, hfront.1, hd, hd, ?_⟩
  · show m₅.taken ++ (m₃.taken ++ []) = _
    rw [htaken, List.append_nil]
    simp
  · show group ((m₅.taken :: m₅.groups) ++ (m₃.groups ++ [])) 1 ++
      wrapped "em" (group ((m₅.taken :: m₅.groups) ++ (m₃.groups ++ [])) 2) = _
    rw [hfront.2, hgroups, wrapped_eq]
    simp [group]

/-- One substitution of inline markup. -/
theorem inline_pass {a : Pattern Char} {f : List Str → Str} {name : String}
    (hname : name ∈ inlineNames) (h : Wraps a f plain (openTag name) (closeTag name))
    {ps : List Piece} (hps : ∀ x ∈ ps, x.Inline) :
    ∃ qs, substitute a f (render Piece.text ps) = render Piece.text qs ∧
      (∀ x ∈ qs, x.Inline) ∧
        (letters Piece.letter? qs).Sublist (letters Piece.letter? ps) := by
  obtain ⟨qs, hqs, hletters, hpieces⟩ := substitute_render Piece.text Piece.letter?
    (.tag (openTag name)) (.tag (closeTag name)) h rfl rfl (fun d hd => inline_solid hps hd) none
  refine ⟨qs, hqs, ?_, hletters⟩
  intro x hx
  rcases hpieces x hx with hx | rfl | rfl
  · exact hps x hx
  · exact ⟨name, hname, .inl rfl⟩
  · exact ⟨name, hname, .inr rfl⟩

theorem plain_delimiters : plain '`' ∧ plain '*' ∧ plain '_' := by
  unfold plain
  decide

/-- **Inline markup**: tags, and characters of the text in their order. -/
theorem renderInlineMarkdown_pieces (text : Str) :
    ∃ ps, renderInlineMarkdown text = render Piece.text ps ∧ (∀ x ∈ ps, x.Inline) ∧
      (letters Piece.letter? ps).Sublist text := by
  have hinitial : ∀ x ∈ text.map Piece.letter, x.Inline := by
    intro x hx
    obtain ⟨c, -, rfl⟩ := List.mem_map.mp hx
    trivial
  have hplain {d : Char} (hd : plain d) {delimiter : Str} (h : ∀ c ∈ delimiter, c = d) :
      ∀ c ∈ delimiter, plain c := by
    intro c hc
    rwa [h c hc]
  obtain ⟨ps₁, h₁, hinline₁, hletters₁⟩ := inline_pass (by decide)
    (span_wraps ['`'] '`' "code" (by simp) (hplain plain_delimiters.1 (by simp))) hinitial
  obtain ⟨ps₂, h₂, hinline₂, hletters₂⟩ := inline_pass (by decide)
    (span_wraps ['*', '*'] '*' "strong" (by simp) (hplain plain_delimiters.2.1 (by simp))) hinline₁
  obtain ⟨ps₃, h₃, hinline₃, hletters₃⟩ := inline_pass (by decide)
    (span_wraps ['_', '_'] '_' "strong" (by simp) (hplain plain_delimiters.2.2 (by simp))) hinline₂
  obtain ⟨ps₄, h₄, hinline₄, hletters₄⟩ := inline_pass (by decide)
    (emphasis_wraps plain_delimiters.2.1) hinline₃
  obtain ⟨ps₅, h₅, hinline₅, hletters₅⟩ := inline_pass (by decide)
    (emphasis_wraps plain_delimiters.2.2) hinline₄
  refine ⟨ps₅, ?_, hinline₅, ?_⟩
  · unfold renderInlineMarkdown
    dsimp only
    rw [← render_letters, h₁, h₂, h₃, h₄, h₅]
  · have hall := ((hletters₅.trans hletters₄).trans hletters₃).trans (hletters₂.trans hletters₁)
    rwa [letters_letters] at hall

/-! ### Written text -/

/-- A character, or a tag of the result. -/
def Piece.Allowed : Piece → Prop
  | .letter _ => True
  | .tag text => IsTag text

/-- `html` is written from tags and from characters of `source`, in their order. -/
def Written (html source : Str) : Prop :=
  ∃ ps, html = render Piece.text ps ∧ (∀ x ∈ ps, x.Allowed) ∧
    (letters Piece.letter? ps).Sublist source

variable {html html' source source' : Str}

theorem Written.append (h : Written html source) (h' : Written html' source') :
    Written (html ++ html') (source ++ source') := by
  obtain ⟨ps, rfl, hallowed, hletters⟩ := h
  obtain ⟨qs, rfl, hallowed', hletters'⟩ := h'
  refine ⟨ps ++ qs, render_append.symm, ?_, ?_⟩
  · intro x hx
    exact (List.mem_append.mp hx).elim (hallowed x) (hallowed' x)
  · rw [letters_append]
    exact hletters.append hletters'

theorem Written.mono (h : Written html source) (hsource : source.Sublist source') :
    Written html source' := by
  obtain ⟨ps, hhtml, hallowed, hletters⟩ := h
  exact ⟨ps, hhtml, hallowed, hletters.trans hsource⟩

theorem written_nil : Written [] [] :=
  ⟨[], rfl, fun _ hx => absurd hx List.not_mem_nil, List.Sublist.refl _⟩

theorem written_tag (h : IsTag html) : Written html [] := by
  refine ⟨[.tag html], (List.append_nil html).symm, ?_, List.Sublist.refl _⟩
  intro x hx
  rwa [List.mem_singleton.mp hx]

theorem isTag_open {name : String} (h : name ∈ elementNames) : IsTag (openTag name) :=
  .inl ⟨name, h, .inl rfl⟩

theorem isTag_close {name : String} (h : name ∈ elementNames) : IsTag (closeTag name) :=
  .inl ⟨name, h, .inr rfl⟩

theorem Written.wrapped {name : String} (hname : name ∈ elementNames) (h : Written html source) :
    Written (wrapped name html) source := by
  rw [wrapped_eq]
  have hall := ((written_tag (isTag_open hname)).append h).append (written_tag (isTag_close hname))
  rwa [List.nil_append, List.append_nil] at hall

theorem written_escape (text : Str) : Written (escapeHtml text) text := by
  refine ⟨text.map .letter, (render_letters text).symm, ?_, ?_⟩
  · intro x hx
    obtain ⟨c, -, rfl⟩ := List.mem_map.mp hx
    trivial
  · rw [letters_letters]

theorem written_inline (text : Str) : Written (renderInlineMarkdown text) text := by
  obtain ⟨ps, hps, hinline, hletters⟩ := renderInlineMarkdown_pieces text
  refine ⟨ps, hps, ?_, hletters⟩
  intro x hx
  have hx := hinline x hx
  cases x with
  | letter c => trivial
  | tag text =>
    obtain ⟨name, hname, htext⟩ := hx
    refine .inl ⟨name, ?_, htext⟩
    exact List.subset_def.mp (by decide : inlineNames ⊆ elementNames) hname

/-- Lines of a paragraph or a quote. -/
theorem written_lines (lines : List Str) :
    Written (lineBreak.intercalate (lines.map renderInlineMarkdown)) lines.flatten := by
  induction lines with
  | nil => exact written_nil
  | cons line lines ih =>
    cases lines with
    | nil =>
      rw [List.map_cons, List.map_nil, List.intercalate_singleton, List.flatten_singleton]
      exact written_inline line
    | cons next lines =>
      have hall := ((written_inline line).append (written_tag (.inr (.inl rfl)))).append ih
      rw [List.append_nil, List.append_assoc] at hall
      exact hall

/-- Items of a list. -/
theorem written_items (items : List Str) :
    Written ((items.map fun item => wrapped "li" (renderInlineMarkdown item)).flatten)
      items.flatten := by
  induction items with
  | nil => exact written_nil
  | cons item items ih =>
    have hli : "li" ∈ elementNames := by decide
    rw [List.map_cons, List.flatten_cons, List.flatten_cons]
    exact ((written_inline item).wrapped hli).append ih

/-! ### Groups of a line -/

theorem group_sublist {a : Pattern Char} {line : Str} {groups : List Str}
    (h : groupsOf a line = some groups) (i : Nat) : (group groups i).Sublist line := by
  obtain ⟨m, hm, rfl⟩ := Option.map_eq_some_iff.mp h
  have hmem := List.mem_of_mem_head? hm
  rw [group, List.getD_eq_getElem?_getD]
  rcases hgroup : m.groups[i - 1]? with - | g
  · exact List.nil_sublist line
  · have hinfix := group_isInfix hmem g (List.mem_of_getElem? hgroup)
    rw [← taken_append_rest hmem]
    exact hinfix.sublist.trans (List.sublist_append_left _ _)

theorem fence_language {line : Str} {groups : List Str} (h : groupsOf fence line = some groups) :
    ∀ c ∈ group groups 1, isFenceChar c = true := by
  obtain ⟨m, hm, rfl⟩ := Option.map_eq_some_iff.mp h
  obtain ⟨m₁, h₁, m₂, h₂, rfl⟩ := mem_seq.mp (List.mem_of_mem_head? hm)
  obtain ⟨m₃, h₃, m₄, -, rfl⟩ := mem_seq.mp h₂
  obtain ⟨m₅, h₅, rfl⟩ := mem_group.mp h₃
  have hgroups : group (m₁.groups ++ ((m₅.taken :: m₅.groups) ++ m₄.groups)) 1 = m₅.taken := by
    rw [(symbols_taken h₁).2]
    rfl
  show ∀ c ∈ group (m₁.groups ++ ((m₅.taken :: m₅.groups) ++ m₄.groups)) 1, isFenceChar c = true
  rw [hgroups]
  exact (of_mem_atMost h₅).2.1

theorem heading_level {line : Str} {groups : List Str} (h : groupsOf heading line = some groups) :
    1 ≤ (group groups 1).length ∧ (group groups 1).length ≤ 6 := by
  obtain ⟨m, hm, rfl⟩ := Option.map_eq_some_iff.mp h
  obtain ⟨m₁, h₁, m₂, -, rfl⟩ := mem_seq.mp (List.mem_of_mem_head? hm)
  obtain ⟨m₃, h₃, rfl⟩ := mem_group.mp h₁
  obtain ⟨m₄, h₄, m₅, h₅, rfl⟩ := mem_seq.mp h₃
  obtain ⟨c, -, -, htaken, -⟩ := mem_symbol.mp h₄
  have hlength := (of_mem_atMost h₅).1
  show 1 ≤ (m₄.taken ++ m₅.taken).length ∧ (m₄.taken ++ m₅.taken).length ≤ 6
  rw [htaken, List.length_append, List.length_singleton]
  omega

theorem escapeAttr_fence {language : Str} (h : ∀ c ∈ language, isFenceChar c = true) :
    escapeAttr language = language := by
  have hreplace {d : Char} {escape text : Str} (hd : isFenceChar d = false)
      (htext : ∀ c ∈ text, isFenceChar c = true) : replaceChar d escape text = text := by
    induction text with
    | nil => rfl
    | cons c text ih =>
      have hne : c ≠ d := by
        rintro rfl
        rw [htext c List.mem_cons_self] at hd
        cases hd
      show (if c = d then escape else [c]) ++ replaceChar d escape text = c :: text
      rw [if_neg hne, ih fun e he => htext e (List.mem_cons_of_mem c he)]
      rfl
  rw [escapeAttr, escapeHtml, hreplace (d := '&') (by decide) h, hreplace (d := '<') (by decide) h,
    hreplace (d := '>') (by decide) h, hreplace (d := '"') (by decide) h,
    hreplace (d := '\'') (by decide) h]

theorem isTag_codeTag {language : Str} (h : ∀ c ∈ language, isFenceChar c = true) :
    IsTag (Blocks.codeTag language) := by
  unfold Blocks.codeTag
  split
  · have hcode : "code" ∈ elementNames := by decide
    exact isTag_open hcode
  · next hne =>
    rw [escapeAttr_fence h]
    exact .inr (.inr (.inr ⟨language, hne, h, rfl⟩))

theorem written_heading {line : Str} {groups : List Str}
    (h : groupsOf heading line = some groups) : Written (Blocks.headingHtml groups) line := by
  obtain ⟨hlow, hhigh⟩ := heading_level h
  have hname : ("h" ++ toString (group groups 1).length) ∈ elementNames := by
    interval_cases (group groups 1).length <;> decide
  exact ((written_inline _).wrapped hname).mono (group_sublist h 2)

/-! ### Blocks -/

namespace Blocks

/-- The lines that are kept for later. -/
def pending (b : Blocks) : Str :=
  b.paragraph.flatten ++ b.listItems.flatten ++ b.quoteLines.flatten ++
    ['\n'].intercalate b.codeLines

/-- What was written and what is kept are parts of the text so far; only one kind of lines is
kept at a time. -/
structure Inv (b : Blocks) (text : Str) : Prop where
  written : ∃ source, Written b.output.flatten source ∧ (source ++ b.pending).Sublist text
  language : ∀ c ∈ b.codeLanguage, isFenceChar c = true
  inside : b.inCode = true → b.paragraph = [] ∧ b.listItems = [] ∧ b.quoteLines = []
  outside : b.inCode = false → b.codeLines = []
  list : b.listType = none → b.listItems = []
  alone : (b.paragraph = [] ∨ b.listItems = []) ∧ (b.paragraph = [] ∨ b.quoteLines = []) ∧
    (b.listItems = [] ∨ b.quoteLines = [])

variable {b : Blocks} {text line sep : Str}

theorem flatten_push (html : Str) : (b.push html).output.flatten = b.output.flatten ++ html := by
  show (b.output ++ [html]).flatten = _
  rw [List.flatten_append, List.flatten_singleton]

theorem flushParagraph_eq (b : Blocks) : ∃ output html,
    b.flushParagraph = { b with output := output, paragraph := [] } ∧
      output.flatten = b.output.flatten ++ html ∧ Written html b.paragraph.flatten := by
  unfold flushParagraph
  split
  · next hnone =>
    refine ⟨b.output, [], ?_, (List.append_nil _).symm, ?_⟩
    · rw [← hnone]
    · rw [hnone]
      exact written_nil
  · have hp : "p" ∈ elementNames := by decide
    exact ⟨_, _, rfl, flatten_push _, (written_lines b.paragraph).wrapped hp⟩

theorem flushQuote_eq (b : Blocks) : ∃ output html,
    b.flushQuote = { b with output := output, quoteLines := [] } ∧
      output.flatten = b.output.flatten ++ html ∧ Written html b.quoteLines.flatten := by
  unfold flushQuote
  split
  · next hnone =>
    refine ⟨b.output, [], ?_, (List.append_nil _).symm, ?_⟩
    · rw [← hnone]
    · rw [hnone]
      exact written_nil
  · have hquote : "blockquote" ∈ elementNames := by decide
    exact ⟨_, _, rfl, flatten_push _, (written_lines b.quoteLines).wrapped hquote⟩

theorem flushList_eq (b : Blocks) (hlist : b.listType = none → b.listItems = []) :
    ∃ output html,
      b.flushList = { b with output := output, listType := none, listItems := [] } ∧
        output.flatten = b.output.flatten ++ html ∧ Written html b.listItems.flatten := by
  unfold flushList
  cases htype : b.listType with
  | none =>
    refine ⟨b.output, [], ?_, (List.append_nil _).symm, ?_⟩
    · show b = _
      rw [← htype, ← hlist htype]
    · rw [hlist htype]
      exact written_nil
  | some listType =>
    have hname : listType.text ∈ elementNames := by
      cases listType <;> decide
    exact ⟨_, _, rfl, flatten_push _, (written_items b.listItems).wrapped hname⟩

/-- The kept blocks are written, in the order in which they are kept. -/
theorem flushBlocks_eq (b : Blocks) (hlist : b.listType = none → b.listItems = []) :
    ∃ output html,
      b.flushBlocks = { b with
        output := output, paragraph := [], listType := none, listItems := [], quoteLines := [] } ∧
      output.flatten = b.output.flatten ++ html ∧
        Written html (b.paragraph.flatten ++ b.listItems.flatten ++ b.quoteLines.flatten) := by
  obtain ⟨out₁, html₁, h₁, hout₁, hhtml₁⟩ := flushParagraph_eq b
  obtain ⟨out₂, html₂, h₂, hout₂, hhtml₂⟩ :=
    flushList_eq { b with output := out₁, paragraph := [] } hlist
  obtain ⟨out₃, html₃, h₃, hout₃, hhtml₃⟩ := flushQuote_eq
    { b with output := out₂, paragraph := [], listType := none, listItems := [] }
  refine ⟨out₃, html₁ ++ html₂ ++ html₃, ?_, ?_, (hhtml₁.append hhtml₂).append hhtml₃⟩
  · rw [flushBlocks, h₁, h₂, h₃]
  · rw [hout₃, hout₂, hout₁]
    simp only [List.append_assoc]

theorem flushCode_eq (b : Blocks) (hlanguage : ∀ c ∈ b.codeLanguage, isFenceChar c = true) :
    ∃ output html,
      b.flushCode = { b with output := output, codeLines := [], codeLanguage := [] } ∧
        output.flatten = b.output.flatten ++ html ∧
          Written html (['\n'].intercalate b.codeLines) := by
  refine ⟨_, _, rfl, flatten_push _, ?_⟩
  have hpre : "pre" ∈ elementNames := by decide
  have hcode : "code" ∈ elementNames := by decide
  have hopen := (written_tag (isTag_open hpre)).append
    (written_tag (isTag_codeTag hlanguage))
  have hclose := (written_tag (isTag_close hcode)).append (written_tag (isTag_close hpre))
  have hall := (hopen.append (written_escape (['\n'].intercalate b.codeLines))).append hclose
  rw [List.append_nil, List.append_nil, List.nil_append] at hall
  exact hall

/-! ### One line -/

/-- What is moved to the output and what is kept then were kept before, or are a part of the
line. -/
theorem Inv.next (h : b.Inv text) {b' : Blocks} (html moved : Str)
    (houtput : b'.output.flatten = b.output.flatten ++ html) (hhtml : Written html moved)
    (hpending : (moved ++ b'.pending).Sublist (b.pending ++ (sep ++ line)))
    (hlanguage : ∀ c ∈ b'.codeLanguage, isFenceChar c = true)
    (hinside : b'.inCode = true → b'.paragraph = [] ∧ b'.listItems = [] ∧ b'.quoteLines = [])
    (houtside : b'.inCode = false → b'.codeLines = [])
    (hlist : b'.listType = none → b'.listItems = [])
    (halone : (b'.paragraph = [] ∨ b'.listItems = []) ∧
      (b'.paragraph = [] ∨ b'.quoteLines = []) ∧ (b'.listItems = [] ∨ b'.quoteLines = [])) :
    b'.Inv (text ++ (sep ++ line)) := by
  obtain ⟨source, hsource, hsublist⟩ := h.written
  refine ⟨⟨source ++ moved, ?_, ?_⟩, hlanguage, hinside, houtside, hlist, halone⟩
  · rw [houtput]
    exact hsource.append hhtml
  · rw [List.append_assoc]
    refine (hpending.append_left source).trans ?_
    rw [← List.append_assoc]
    exact hsublist.append_right _

theorem pending_of_outside (h : b.codeLines = []) : b.pending =
    b.paragraph.flatten ++ b.listItems.flatten ++ b.quoteLines.flatten := by
  rw [pending, h, List.intercalate_nil, List.append_nil]

/-- Kept blocks are written, then something from the line is written. -/
theorem Inv.flushed (h : b.Inv text) (hcode : b.inCode = false) {html kept language : Str}
    {inCode : Bool} (hhtml : Written html kept) (hkept : kept.Sublist line)
    (hlanguage : ∀ c ∈ language, isFenceChar c = true) {output : List Str}
    (houtput : output.flatten = b.flushBlocks.output.flatten ++ html) :
    Inv { b.flushBlocks with output := output, inCode := inCode, codeLanguage := language }
      (text ++ (sep ++ line)) := by
  obtain ⟨out, html₁, heq, hout, hhtml₁⟩ := flushBlocks_eq b h.list
  have hlines := h.outside hcode
  rw [heq] at houtput ⊢
  refine h.next (html₁ ++ html) (b.pending ++ kept) ?_ ?_ ?_ hlanguage ?_ ?_ ?_ ?_
  · rw [houtput]
    show out.flatten ++ html = _
    rw [hout, List.append_assoc]
  · rw [pending_of_outside hlines]
    exact hhtml₁.append hhtml
  · show (b.pending ++ kept ++ (['\n'].intercalate b.codeLines)).Sublist _
    rw [hlines, List.intercalate_nil, List.append_nil]
    refine List.Sublist.append_left ?_ _
    exact hkept.trans (List.sublist_append_right sep line)
  · exact fun _ => ⟨rfl, rfl, rfl⟩
  · exact fun _ => hlines
  · exact fun _ => rfl
  · exact ⟨.inl rfl, .inl rfl, .inl rfl⟩

theorem intercalate_append_sublist (lines : List Str) (line : Str) :
    (['\n'].intercalate (lines ++ [line])).Sublist
      (['\n'].intercalate lines ++ (['\n'] ++ line)) := by
  induction lines with
  | nil =>
    rw [List.nil_append, List.intercalate_singleton, List.intercalate_nil]
    exact List.sublist_append_right ['\n'] line
  | cons first lines ih =>
    cases lines with
    | nil => simp [List.intercalate]
    | cons next lines =>
      show (first ++ (['\n'] ++ ['\n'].intercalate ((next :: lines) ++ [line]))).Sublist
        (first ++ (['\n'] ++ ['\n'].intercalate (next :: lines)) ++ (['\n'] ++ line))
      rw [List.append_assoc, List.append_assoc]
      exact (ih.append_left _).append_left _

theorem flushBlocks_codeLanguage (hlist : b.listType = none → b.listItems = []) :
    b.flushBlocks.codeLanguage = b.codeLanguage := by
  obtain ⟨out, html, heq, -⟩ := flushBlocks_eq b hlist
  rw [heq]

theorem flatten_comm {xs ys : List Str} (h : xs = [] ∨ ys = []) :
    xs.flatten ++ ys.flatten = ys.flatten ++ xs.flatten := by
  rcases h with rfl | rfl <;> simp

/-- A line of a code block. -/
theorem Inv.codeLine (h : b.Inv text) (hcode : b.inCode = true)
    (hsep : b.codeLines = [] ∨ sep = ['\n']) :
    Inv { b with codeLines := b.codeLines ++ [line] } (text ++ (sep ++ line)) := by
  obtain ⟨hparagraph, hitems, hquotes⟩ := h.inside hcode
  refine h.next [] [] (List.append_nil _).symm written_nil ?_ h.language h.inside ?_ h.list h.alone
  · show (b.paragraph.flatten ++ b.listItems.flatten ++ b.quoteLines.flatten ++
      ['\n'].intercalate (b.codeLines ++ [line])).Sublist _
    rw [pending, List.append_assoc _ (['\n'].intercalate b.codeLines)]
    refine List.Sublist.append_left ?_ _
    rcases hsep with hnone | rfl
    · rw [hnone, List.nil_append, List.intercalate_singleton, List.intercalate_nil]
      exact List.sublist_append_right sep line
    · exact intercalate_append_sublist b.codeLines line
  · intro hout
    rw [show b.inCode = false from hout] at hcode
    cases hcode

/-- The end of a code block. -/
theorem Inv.codeEnd (h : b.Inv text) (hcode : b.inCode = true) :
    Inv { b.flushCode with inCode := false } (text ++ (sep ++ line)) := by
  obtain ⟨hparagraph, hitems, hquotes⟩ := h.inside hcode
  obtain ⟨out, html, heq, hout, hhtml⟩ := flushCode_eq b h.language
  rw [heq]
  refine h.next html (['\n'].intercalate b.codeLines) hout hhtml ?_ ?_ ?_ ?_ h.list h.alone
  · show (_ ++ (b.paragraph.flatten ++ b.listItems.flatten ++ b.quoteLines.flatten ++ [])).Sublist _
    rw [pending, hparagraph, hitems, hquotes]
    simp
  · exact fun c hc => absurd hc List.not_mem_nil
  · exact fun hin => absurd hin Bool.false_ne_true
  · exact fun _ => rfl

/-- An item of a list; one of another kind ends the list before it. -/
theorem Inv.addItem (h : b.Inv text) (hcode : b.inCode = false) (nextType : ListType)
    {item : Str} (hitem : item.Sublist line) :
    Inv (b.addItem nextType item) (text ++ (sep ++ line)) := by
  obtain ⟨out₁, html₁, h₁, hout₁, hhtml₁⟩ := flushParagraph_eq b
  obtain ⟨out₂, html₂, h₂, hout₂, hhtml₂⟩ :=
    flushQuote_eq { b with output := out₁, paragraph := [] }
  obtain ⟨out₃, html₃, h₃, hout₃, hhtml₃⟩ :=
    flushList_eq { b with output := out₂, paragraph := [], quoteLines := [] } h.list
  have hlines := h.outside hcode
  have hitem' : item.Sublist (sep ++ line) := hitem.trans (List.sublist_append_right sep line)
  have hkept : b.paragraph.flatten ++ b.quoteLines.flatten ++ b.listItems.flatten = b.pending := by
    rw [pending_of_outside hlines, List.append_assoc, List.append_assoc,
      flatten_comm h.alone.2.2.symm]
  unfold Blocks.addItem
  rw [h₁, h₂]
  dsimp only
  split
  · rw [h₃]
    refine h.next (html₁ ++ html₂ ++ html₃) b.pending ?_ ?_ ?_ h.language ?_ ?_ ?_ ?_
    · show out₃.flatten = _
      rw [hout₃, hout₂, hout₁]
      simp only [List.append_assoc]
    · rw [← hkept]
      exact (hhtml₁.append hhtml₂).append hhtml₃
    · refine List.Sublist.append_left ?_ _
      show ([] ++ [item].flatten ++ [] ++ ['\n'].intercalate b.codeLines).Sublist _
      rw [hlines]
      simpa using hitem'
    · intro hin
      rw [show b.inCode = true from hin] at hcode
      cases hcode
    · exact fun _ => hlines
    · exact fun hnone => absurd hnone (by simp)
    · exact ⟨.inl rfl, .inl rfl, .inr rfl⟩
  · refine h.next (html₁ ++ html₂) (b.paragraph.flatten ++ b.quoteLines.flatten) ?_ ?_ ?_
      h.language ?_ ?_ ?_ ?_
    · show out₂.flatten = _
      rw [hout₂, hout₁, List.append_assoc]
    · exact hhtml₁.append hhtml₂
    · show (_ ++ ([] ++ (b.listItems ++ [item]).flatten ++ [] ++
        ['\n'].intercalate b.codeLines)).Sublist _
      rw [← hkept, hlines, List.append_assoc _ _ (sep ++ line)]
      refine List.Sublist.append_left ?_ _
      simpa using hitem'
    · intro hin
      rw [show b.inCode = true from hin] at hcode
      cases hcode
    · exact fun _ => hlines
    · exact fun hnone => absurd hnone (by simp)
    · exact ⟨.inl rfl, .inl rfl, .inr rfl⟩

/-- A line of a quote. -/
theorem Inv.addQuote (h : b.Inv text) (hcode : b.inCode = false) {rest : Str}
    (hrest : rest.Sublist line) :
    Inv { b.flushParagraph.flushList with
      quoteLines := b.flushParagraph.flushList.quoteLines ++ [rest] } (text ++ (sep ++ line)) := by
  obtain ⟨out₁, html₁, h₁, hout₁, hhtml₁⟩ := flushParagraph_eq b
  obtain ⟨out₂, html₂, h₂, hout₂, hhtml₂⟩ :=
    flushList_eq { b with output := out₁, paragraph := [] } h.list
  have hlines := h.outside hcode
  have hrest' : rest.Sublist (sep ++ line) := hrest.trans (List.sublist_append_right sep line)
  rw [h₁, h₂]
  refine h.next (html₁ ++ html₂) (b.paragraph.flatten ++ b.listItems.flatten) ?_ ?_ ?_
    h.language ?_ ?_ ?_ ?_
  · show out₂.flatten = _
    rw [hout₂, hout₁, List.append_assoc]
  · exact hhtml₁.append hhtml₂
  · show (_ ++ ([] ++ [] ++ (b.quoteLines ++ [rest]).flatten ++
      ['\n'].intercalate b.codeLines)).Sublist _
    rw [pending_of_outside hlines, hlines, List.append_assoc _ b.quoteLines.flatten]
    refine List.Sublist.append_left ?_ _
    simpa using hrest'
  · intro hin
    rw [show b.inCode = true from hin] at hcode
    cases hcode
  · exact fun _ => hlines
  · exact fun _ => rfl
  · exact ⟨.inl rfl, .inl rfl, .inl rfl⟩

/-- A line of a paragraph. -/
theorem Inv.addParagraph (h : b.Inv text) (hcode : b.inCode = false) :
    Inv { b.flushList.flushQuote with
      paragraph := b.flushList.flushQuote.paragraph ++ [line] } (text ++ (sep ++ line)) := by
  obtain ⟨out₁, html₁, h₁, hout₁, hhtml₁⟩ := flushList_eq b h.list
  obtain ⟨out₂, html₂, h₂, hout₂, hhtml₂⟩ :=
    flushQuote_eq { b with output := out₁, listType := none, listItems := [] }
  have hlines := h.outside hcode
  -- the list and the quote stand behind the paragraph, which is empty where they are not
  have hkept : b.listItems.flatten ++ b.quoteLines.flatten ++ b.paragraph.flatten = b.pending := by
    rw [pending_of_outside hlines, List.append_assoc, flatten_comm h.alone.2.1.symm,
      ← List.append_assoc, flatten_comm h.alone.1.symm]
  rw [h₁, h₂]
  refine h.next (html₁ ++ html₂) (b.listItems.flatten ++ b.quoteLines.flatten) ?_ ?_ ?_
    h.language ?_ ?_ ?_ ?_
  · show out₂.flatten = _
    rw [hout₂, hout₁, List.append_assoc]
  · exact hhtml₁.append hhtml₂
  · show (_ ++ ((b.paragraph ++ [line]).flatten ++ [] ++ [] ++
      ['\n'].intercalate b.codeLines)).Sublist _
    rw [← hkept, hlines, List.append_assoc _ b.paragraph.flatten]
    refine List.Sublist.append_left ?_ _
    simp
  · intro hin
    rw [show b.inCode = true from hin] at hcode
    cases hcode
  · exact fun _ => hlines
  · exact fun _ => rfl
  · exact ⟨.inr rfl, .inr rfl, .inl rfl⟩

/-- **Each line keeps the invariant.** -/
theorem Inv.addLine (h : b.Inv text) (sep line : Str) (hsep : b.codeLines = [] ∨ sep = ['\n']) :
    Inv (b.addLine line) (text ++ (sep ++ line)) := by
  have hnone : ∀ c ∈ ([] : Str), isFenceChar c = true := fun c hc => absurd hc List.not_mem_nil
  have hlanguage : ∀ c ∈ b.flushBlocks.codeLanguage, isFenceChar c = true := by
    rw [flushBlocks_codeLanguage h.list]
    exact h.language
  unfold Blocks.addLine
  rcases hfence : groupsOf fence line with - | groups <;> dsimp only
  · by_cases hin : b.inCode = true
    · rw [if_pos hin]
      exact h.codeLine hin hsep
    · have hcode := eq_false_of_ne_true hin
      rw [if_neg hin]
      split
      · exact h.flushed hcode written_nil (List.nil_sublist line) hlanguage (List.append_nil _).symm
      rcases hheading : groupsOf heading line with - | groups <;> dsimp only
      · split
        · exact h.flushed hcode (written_tag (.inr (.inr (.inl rfl)))) (List.nil_sublist line)
            hlanguage (flatten_push _)
        rcases hordered : groupsOf ordered line with - | groups
        · rcases hunordered : groupsOf unordered line with - | groups <;> dsimp only
          · rcases hquote : groupsOf quote line with - | groups <;> dsimp only
            · exact h.addParagraph hcode
            · exact h.addQuote hcode (group_sublist hquote 1)
          · exact h.addItem hcode .ul (group_sublist hunordered 1)
        · exact h.addItem hcode .ol (group_sublist hordered 1)
      · exact h.flushed hcode (written_heading hheading) (List.Sublist.refl line) hlanguage
          (flatten_push _)
  · by_cases hin : b.inCode = true
    · rw [if_pos hin]
      exact h.codeEnd hin
    · have hcode := eq_false_of_ne_true hin
      rw [if_neg hin]
      exact h.flushed hcode written_nil (List.nil_sublist line) (fence_language hfence)
        (List.append_nil _).symm

/-- The lines behind the first one. -/
theorem Inv.addLines (h : b.Inv text) (lines : List Str) :
    Inv (lines.foldl Blocks.addLine b) (text ++ lines.flatMap ('\n' :: ·)) := by
  induction lines generalizing b text with
  | nil =>
    rw [List.flatMap_nil, List.append_nil]
    exact h
  | cons line lines ih =>
    rw [List.flatMap_cons, ← List.append_assoc]
    exact ih (h.addLine ['\n'] line (.inr rfl))

theorem inv_start : Inv { } [] where
  written := ⟨[], written_nil, List.Sublist.refl _⟩
  language := fun _ hc => absurd hc List.not_mem_nil
  inside := fun hin => absurd hin Bool.false_ne_true
  outside := fun _ => rfl
  list := fun _ => rfl
  alone := ⟨.inl rfl, .inl rfl, .inl rfl⟩

/-- What is kept at the end is written. -/
theorem Inv.finish (h : b.Inv text) : Written b.finish.output.flatten text := by
  have hblocks {c : Blocks} (hc : c.Inv text) (hlines : c.codeLines = []) :
      Written c.flushBlocks.output.flatten text := by
    obtain ⟨source, hsource, hsublist⟩ := hc.written
    obtain ⟨out, html, heq, hout, hhtml⟩ := flushBlocks_eq c hc.list
    rw [heq]
    show Written out.flatten text
    rw [hout]
    rw [pending_of_outside hlines] at hsublist
    exact (hsource.append hhtml).mono hsublist
  unfold Blocks.finish
  split
  · next hcode =>
    obtain ⟨source, hsource, hsublist⟩ := h.written
    obtain ⟨out, html, heq, hout, hhtml⟩ := flushCode_eq b h.language
    obtain ⟨hparagraph, hitems, hquotes⟩ := h.inside hcode
    rw [heq]
    refine hblocks ⟨⟨source ++ ['\n'].intercalate b.codeLines, ?_, ?_⟩, ?_, h.inside, ?_, h.list,
      h.alone⟩ rfl
    · show Written out.flatten _
      rw [hout]
      exact hsource.append hhtml
    · rw [pending, hparagraph, hitems, hquotes] at hsublist
      rw [pending_of_outside rfl, hparagraph, hitems, hquotes]
      simpa using hsublist
    · exact fun c hc => absurd hc List.not_mem_nil
    · exact fun _ => rfl
  · next hcode => exact hblocks h (h.outside (eq_false_of_ne_true hcode))

end Blocks

theorem intercalate_cons (line : Str) (lines : List Str) :
    ['\n'].intercalate (line :: lines) = line ++ lines.flatMap ('\n' :: ·) := by
  induction lines generalizing line with
  | nil => simp [List.intercalate]
  | cons next lines ih =>
    show line ++ (['\n'] ++ ['\n'].intercalate (next :: lines)) = _
    rw [ih, List.flatMap_cons]
    rfl

theorem written_renderMarkdown (text : Str) :
    Written (renderMarkdown text) (normalizeNewlines text) := by
  unfold renderMarkdown
  rcases hlines : (normalizeNewlines text).splitOn '\n' with - | ⟨line, lines⟩
  · exact absurd hlines (List.splitOn_ne_nil _ _)
  have hall : normalizeNewlines text = line ++ lines.flatMap ('\n' :: ·) := by
    rw [← intercalate_cons, ← hlines, List.intercalate_splitOn]
  have hfirst := Blocks.inv_start.addLine [] line (.inl rfl)
  have hrun := hfirst.addLines lines
  rw [List.nil_append, List.nil_append, ← hall] at hrun
  exact hrun.finish

/-! ### The result as a text -/

/-- Every angle bracket belongs to a tag. -/
inductive Tagged : Str → Prop
  | nil : Tagged []
  | char {c : Char} {rest : Str} (hopen : c ≠ '<') (hclose : c ≠ '>') (h : Tagged rest) :
      Tagged (c :: rest)
  | tag {text rest : Str} (htag : IsTag text) (h : Tagged rest) : Tagged (text ++ rest)

/-- The text without what stands from a `<` to the next `>`. -/
def deleteTags (inTag : Bool) : Str → Str
  | [] => []
  | c :: rest =>
    if inTag then deleteTags (c ≠ '>') rest
    else if c = '<' then deleteTags true rest
    else c :: deleteTags false rest

/-- The text with its escapes undone. -/
def unescape : Str → Str
  | [] => []
  | '&' :: 'a' :: 'm' :: 'p' :: ';' :: rest => '&' :: unescape rest
  | '&' :: 'l' :: 't' :: ';' :: rest => '<' :: unescape rest
  | '&' :: 'g' :: 't' :: ';' :: rest => '>' :: unescape rest
  | c :: rest => c :: unescape rest

theorem unescape_escapeChar (c : Char) (rest : Str) :
    unescape (escapeChar c ++ rest) = c :: unescape rest := by
  unfold escapeChar
  split
  · next hamp => rw [hamp]; rfl
  split
  · next hlt => rw [hlt]; rfl
  split
  · next hgt => rw [hgt]; rfl
  next hamp _ _ =>
    exact unescape.eq_5 c rest (fun _ h => absurd h hamp) (fun _ h => absurd h hamp)
      (fun _ h => absurd h hamp)

/-- A tag is a `<`, a text without angle brackets, and a `>`. -/
theorem isTag_shape {tag : Str} (h : IsTag tag) :
    ∃ inner, tag = '<' :: (inner ++ ['>']) ∧ '<' ∉ inner ∧ '>' ∉ inner := by
  have hnames {name : String} (hname : name ∈ elementNames) :
      '<' ∉ name.toList ∧ '>' ∉ name.toList := by
    have hall : elementNames.all (fun name =>
        !name.toList.contains '<' && !name.toList.contains '>') = true := by decide
    simpa using List.all_eq_true.mp hall name hname
  rcases h with ⟨name, hname, rfl | rfl⟩ | rfl | rfl | ⟨language, -, hlanguage, rfl⟩
  · exact ⟨name.toList, rfl, hnames hname⟩
  · refine ⟨'/' :: name.toList, rfl, ?_, ?_⟩
    · simpa using (hnames hname).1
    · simpa using (hnames hname).2
  · exact ⟨"br".toList, rfl, by decide, by decide⟩
  · exact ⟨"hr".toList, rfl, by decide, by decide⟩
  · have hopen : '<' ∉ language := fun hin => absurd (hlanguage _ hin) (by decide)
    have hclose : '>' ∉ language := fun hin => absurd (hlanguage _ hin) (by decide)
    refine ⟨"code class=\"language-".toList ++ language ++ "\"".toList, by simp, ?_, ?_⟩
    · simpa using hopen
    · simpa using hclose

theorem deleteTags_tag {tag : Str} (h : IsTag tag) (rest : Str) :
    deleteTags false (tag ++ rest) = deleteTags false rest := by
  obtain ⟨inner, rfl, -, hclose⟩ := isTag_shape h
  clear h
  show deleteTags true (inner ++ ['>'] ++ rest) = _
  induction inner with
  | nil => rfl
  | cons c inner ih =>
    have hc : c ≠ '>' := fun h => hclose (h ▸ List.mem_cons_self)
    show deleteTags (c ≠ '>') (inner ++ ['>'] ++ rest) = _
    rw [decide_eq_true hc]
    exact ih (fun h => hclose (List.mem_cons_of_mem c h))

theorem escapeChar_brackets (c : Char) : '<' ∉ escapeChar c ∧ '>' ∉ escapeChar c := by
  unfold escapeChar
  split
  · decide
  split
  · decide
  split
  · decide
  · next hlt hgt =>
    rw [List.mem_singleton, List.mem_singleton]
    exact ⟨Ne.symm hlt, Ne.symm hgt⟩

theorem deleteTags_append {u : Str} (h : '<' ∉ u) (rest : Str) :
    deleteTags false (u ++ rest) = u ++ deleteTags false rest := by
  induction u with
  | nil => rfl
  | cons c u ih =>
    have hc : c ≠ '<' := fun hc => h (hc ▸ List.mem_cons_self)
    show (if c = '<' then _ else c :: deleteTags false (u ++ rest)) = _
    rw [if_neg hc, ih (fun hin => h (List.mem_cons_of_mem c hin))]
    rfl

theorem Tagged.append {u rest : Str} (hopen : '<' ∉ u) (hclose : '>' ∉ u) (h : Tagged rest) :
    Tagged (u ++ rest) := by
  induction u with
  | nil => exact h
  | cons c u ih =>
    refine .char ?_ ?_ (ih ?_ ?_)
    · exact fun hc => hopen (hc ▸ List.mem_cons_self)
    · exact fun hc => hclose (hc ▸ List.mem_cons_self)
    · exact fun hin => hopen (List.mem_cons_of_mem c hin)
    · exact fun hin => hclose (List.mem_cons_of_mem c hin)

/-- The pieces of a text can be read off it. -/
theorem render_tagged {ps : List Piece} (h : ∀ x ∈ ps, x.Allowed) :
    Tagged (render Piece.text ps) ∧
      unescape (deleteTags false (render Piece.text ps)) = letters Piece.letter? ps := by
  induction ps with
  | nil => exact ⟨.nil, rfl⟩
  | cons x ps ih =>
    obtain ⟨htagged, hletters⟩ := ih fun y hy => h y (List.mem_cons_of_mem x hy)
    have hx := h x List.mem_cons_self
    rw [render_cons]
    cases x with
    | letter c =>
      obtain ⟨hopen, hclose⟩ := escapeChar_brackets c
      refine ⟨htagged.append hopen hclose, ?_⟩
      show unescape (deleteTags false (escapeChar c ++ _)) = c :: letters Piece.letter? ps
      rw [deleteTags_append hopen, unescape_escapeChar, hletters]
    | tag text =>
      refine ⟨.tag hx htagged, ?_⟩
      show unescape (deleteTags false (text ++ _)) = letters Piece.letter? ps
      rw [deleteTags_tag hx, hletters]

/-! ### The result -/

def isLineSeparator (c : Char) : Bool := c = '\n' || c = '\r'

theorem normalizeNewlines_filter (text : Str) :
    (normalizeNewlines text).filter (fun c => !isLineSeparator c) =
      text.filter (fun c => !isLineSeparator c) := by
  fun_induction normalizeNewlines text with
  | case1 => rfl
  | case2 t ih => exact ih
  | case3 c t _ ih =>
    by_cases hc : c = '\r'
    · subst hc
      exact ih
    · rw [if_neg hc, List.filter_cons, List.filter_cons, ih]

/-- **No text injects markup.**  Every angle bracket of the result belongs to a tag of the fixed
set; without the tags and the escapes the result is a part of the text in its order, and its line
separators are newlines of the text. -/
theorem renderMarkdown_safe (text : Str) :
    Tagged (renderMarkdown text) ∧
      (unescape (deleteTags false (renderMarkdown text))).Sublist (normalizeNewlines text) ∧
        ((unescape (deleteTags false (renderMarkdown text))).filter
          (fun c => !isLineSeparator c)).Sublist (text.filter fun c => !isLineSeparator c) := by
  obtain ⟨ps, hps, hallowed, hletters⟩ := written_renderMarkdown text
  obtain ⟨htagged, hread⟩ := render_tagged hallowed
  rw [← hps] at htagged hread
  have hsublist : (unescape (deleteTags false (renderMarkdown text))).Sublist
      (normalizeNewlines text) := by
    rw [hread]
    exact hletters
  refine ⟨htagged, hsublist, ?_⟩
  rw [← normalizeNewlines_filter text]
  exact hsublist.filter _

end InferBridge.Markdown
