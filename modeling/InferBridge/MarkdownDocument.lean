/-
InferBridge/MarkdownDocument.lean

The document that a Markdown message is, for both clients: a list of elements, of which the last
one is still open while the lines are read.

`Document.add` says what a line of a given kind does.  The browser client and the native client
tell the kind of a line by their own regular expressions, and keep the document in variables of
their own; the browser keeps it as `Document.blocks` (`addLine_blocks`).

Main results.  `contents_parse`: the elements hold the contents of the lines, each once and in
order.  `renderMarkdown_document`: the browser writes the elements, one after another.
-/
import InferBridge.Markdown

namespace InferBridge.Markdown

/-! ### Documents -/

inductive Element where
  | paragraph (lines : List Str)
  | heading (level : ℕ) (text : Str)
  | list (ordered : Bool) (items : List Str)
  | quote (lines : List Str)
  | code (language : Str) (lines : List Str)
  | rule
deriving DecidableEq, Repr

/-- What a line is outside of a code block. -/
inductive Kind where
  | fence (language : Str)
  | blank
  | heading (level : ℕ) (text : Str)
  | rule
  | item (ordered : Bool) (text : Str)
  | quote (text : Str)
  | plain
deriving DecidableEq, Repr

/-- The elements that are complete, and the open one. -/
structure Document where
  done : List Element
  current : Option Element
deriving DecidableEq, Repr

namespace Document

def empty : Document := ⟨[], none⟩

def close (d : Document) : Document := ⟨d.done ++ d.current.toList, none⟩

def opened (d : Document) (element : Element) : Document := { d.close with current := some element }

def pushed (d : Document) (element : Element) : Document := ⟨d.close.done ++ [element], none⟩

def add (d : Document) (line : Str) : Kind → Document
  | .fence language =>
    match d.current with
    | some (.code ..) => d.close
    | _ => d.opened (.code language [])
  | .blank =>
    match d.current with
    | some (.code language lines) => { d with current := some (.code language (lines ++ [line])) }
    | _ => d.close
  | .heading level text =>
    match d.current with
    | some (.code language lines) => { d with current := some (.code language (lines ++ [line])) }
    | _ => d.pushed (.heading level text)
  | .rule =>
    match d.current with
    | some (.code language lines) => { d with current := some (.code language (lines ++ [line])) }
    | _ => d.pushed .rule
  | .item ordered text =>
    match d.current with
    | some (.code language lines) => { d with current := some (.code language (lines ++ [line])) }
    | some (.list ordered' items) =>
      if ordered' = ordered then { d with current := some (.list ordered (items ++ [text])) }
      else d.opened (.list ordered [text])
    | _ => d.opened (.list ordered [text])
  | .quote text =>
    match d.current with
    | some (.code language lines) => { d with current := some (.code language (lines ++ [line])) }
    | some (.quote lines) => { d with current := some (.quote (lines ++ [text])) }
    | _ => d.opened (.quote [text])
  | .plain =>
    match d.current with
    | some (.code language lines) => { d with current := some (.code language (lines ++ [line])) }
    | some (.paragraph lines) => { d with current := some (.paragraph (lines ++ [line])) }
    | _ => d.opened (.paragraph [line])

/-- The document of the lines, the last element still open. -/
def ofLines (kind : Str → Kind) (lines : List Str) : Document :=
  lines.foldl (fun d line => d.add line (kind line)) empty

/-- The elements of the lines. -/
def parse (kind : Str → Kind) (lines : List Str) : List Element := (ofLines kind lines).close.done

/-- What can be open: a paragraph or quote with a line, a list, or a code block. -/
inductive Open : Option Element → Prop
  | none : Open none
  | paragraph {lines : List Str} : lines ≠ [] → Open (some (.paragraph lines))
  | list {ordered : Bool} {items : List Str} : items ≠ [] → Open (some (.list ordered items))
  | quote {lines : List Str} : lines ≠ [] → Open (some (.quote lines))
  | code {language : Str} {lines : List Str} : Open (some (.code language lines))

theorem add_open {d : Document} (h : Open d.current) (line : Str) (kind : Kind) :
    Open (d.add line kind).current := by
  obtain ⟨done, current⟩ := d
  cases h with
  | none => cases kind <;> constructor <;> simp
  | paragraph h => cases kind <;> constructor <;> simp
  | list h =>
    cases kind with
    | item ordered text =>
      unfold add
      dsimp only
      split <;> constructor <;> simp
    | _ => constructor <;> simp
  | quote h => cases kind <;> constructor <;> simp
  | code => cases kind <;> constructor

theorem ofLines_open (kind : Str → Kind) (lines : List Str) :
    Open (ofLines kind lines).current := by
  have kept : ∀ (lines : List Str) {d : Document}, Open d.current →
      Open (lines.foldl (fun d line => d.add line (kind line)) d).current := by
    intro lines
    induction lines with
    | nil => exact fun h => h
    | cons line lines ih => exact fun h => ih (add_open h line (kind line))
  exact kept lines .none

/-! ### Contents -/

/-- A code block is open. -/
def inCode (d : Document) : Bool :=
  match d.current with
  | some (.code ..) => true
  | _ => false

end Document

/-- The texts that an element shows. -/
def Element.lines : Element → List Str
  | .paragraph lines => lines
  | .heading _ text => [text]
  | .list _ items => items
  | .quote lines => lines
  | .code _ lines => lines
  | .rule => []

/-- What a line shows. -/
def Kind.content (inCode : Bool) (line : Str) : Kind → List Str
  | .fence _ => []
  | kind =>
    if inCode then [line]
    else
      match kind with
      | .heading _ text => [text]
      | .item _ text => [text]
      | .quote text => [text]
      | .plain => [line]
      | _ => []

/-- A fence opens and closes a code block. -/
def Kind.toggles (inCode : Bool) : Kind → Bool
  | .fence _ => !inCode
  | _ => inCode

/-- What the lines show, one after another. -/
def contents (kind : Str → Kind) : Bool → List Str → List Str
  | _, [] => []
  | inCode, line :: lines =>
    (kind line).content inCode line ++ contents kind ((kind line).toggles inCode) lines

namespace Document

def lines (d : Document) : List Str := d.close.done.flatMap Element.lines

theorem lines_add (d : Document) (line : Str) (kind : Kind) :
    (d.add line kind).lines = d.lines ++ kind.content d.inCode line ∧
      (d.add line kind).inCode = kind.toggles d.inCode := by
  obtain ⟨done, current⟩ := d
  rcases current with - | element
  · cases kind <;>
      simp [add, lines, close, opened, pushed, inCode, Kind.content, Kind.toggles, Element.lines]
  cases element with
  | list ordered items =>
    cases kind with
    | item ordered' text =>
      by_cases h : ordered = ordered' <;>
        simp [add, h, lines, close, opened, inCode, Kind.content, Kind.toggles, Element.lines]
    | _ =>
      simp [add, lines, close, opened, pushed, inCode, Kind.content, Kind.toggles, Element.lines]
  | _ =>
    cases kind <;>
      simp [add, lines, close, opened, pushed, inCode, Kind.content, Kind.toggles, Element.lines]

/-- **The elements hold what the lines show**, each line once and in order. -/
theorem contents_parse (kind : Str → Kind) (lines : List Str) :
    (parse kind lines).flatMap Element.lines = contents kind false lines := by
  have read : ∀ (lines : List Str) (d : Document),
      (lines.foldl (fun d line => d.add line (kind line)) d).lines =
        d.lines ++ contents kind d.inCode lines := by
    intro lines
    induction lines with
    | nil => exact fun d => (List.append_nil _).symm
    | cons line lines ih =>
      intro d
      obtain ⟨hlines, hcode⟩ := lines_add d line (kind line)
      rw [List.foldl_cons, ih, hlines, hcode, List.append_assoc]
      rfl
  exact read lines empty

end Document

/-! ### The browser -/

def listType (ordered : Bool) : ListType := if ordered then .ol else .ul

def codeHtml (language : Str) (lines : List Str) : Str :=
  "<pre>".toList ++ Blocks.codeTag language ++ escapeHtml (['\n'].intercalate lines) ++
    "</code></pre>".toList

def ruleHtml : Str := "<hr>".toList

/-- What the browser writes for an element. -/
def Element.html : Element → Str
  | .paragraph lines => wrapped "p" (lineBreak.intercalate (lines.map renderInlineMarkdown))
  | .heading level text => wrapped ("h" ++ toString level) (renderInlineMarkdown text)
  | .list ordered items =>
    wrapped (listType ordered).text
      ((items.map fun item => wrapped "li" (renderInlineMarkdown item)).flatten)
  | .quote lines => wrapped "blockquote" (lineBreak.intercalate (lines.map renderInlineMarkdown))
  | .code language lines => codeHtml language lines
  | .rule => ruleHtml

/-- The variables of the browser for a document. -/
def Document.blocks (d : Document) : Blocks where
  output := d.done.map Element.html
  paragraph := match d.current with
    | some (.paragraph lines) => lines
    | _ => []
  listType := match d.current with
    | some (.list ordered _) => some (Markdown.listType ordered)
    | _ => none
  listItems := match d.current with
    | some (.list _ items) => items
    | _ => []
  quoteLines := match d.current with
    | some (.quote lines) => lines
    | _ => []
  inCode := d.inCode
  codeLanguage := match d.current with
    | some (.code language _) => language
    | _ => []
  codeLines := match d.current with
    | some (.code _ lines) => lines
    | _ => []

/-- The kind of a line for the browser. -/
def browserKind (line : Str) : Kind :=
  match groupsOf fence line with
  | some groups => .fence (group groups 1)
  | none =>
    if Text.strip isSpace line = [] then .blank
    else
      match groupsOf heading line with
      | some groups => .heading (group groups 1).length (group groups 2)
      | none =>
        if isRule line then .rule
        else
          match groupsOf ordered line, groupsOf unordered line with
          | some groups, _ => .item true (group groups 1)
          | none, some groups => .item false (group groups 1)
          | none, none =>
            match groupsOf quote line with
            | some groups => .quote (group groups 1)
            | none => .plain

namespace Blocks

/-- What the browser does with a line of a kind. -/
def addKind (b : Blocks) (line : Str) : Kind → Blocks
  | .fence language =>
    if b.inCode then { b.flushCode with inCode := false }
    else { b.flushBlocks with inCode := true, codeLanguage := language }
  | kind =>
    if b.inCode then { b with codeLines := b.codeLines ++ [line] }
    else
      match kind with
      | .heading level text =>
        b.flushBlocks.push (wrapped ("h" ++ toString level) (renderInlineMarkdown text))
      | .rule => b.flushBlocks.push ruleHtml
      | .item ordered text => b.addItem (Markdown.listType ordered) text
      | .quote text =>
        let b := b.flushParagraph.flushList
        { b with quoteLines := b.quoteLines ++ [text] }
      | .plain =>
        let b := b.flushList.flushQuote
        { b with paragraph := b.paragraph ++ [line] }
      | _ => b.flushBlocks

theorem flushCode_push (b : Blocks) :
    b.flushCode = { b.push (codeHtml b.codeLanguage b.codeLines) with
      codeLines := []
      codeLanguage := [] } := rfl

theorem addLine_eq (b : Blocks) (line : Str) :
    b.addLine line = b.addKind line (browserKind line) := by
  unfold addLine browserKind
  cases groupsOf fence line with
  | some groups => rfl
  | none =>
    dsimp only
    by_cases hblank : Text.strip isSpace line = []
    · rw [if_pos hblank, if_pos hblank]
      rfl
    rw [if_neg hblank, if_neg hblank]
    cases groupsOf heading line with
    | some groups => rfl
    | none =>
      dsimp only
      by_cases hrule : isRule line = true
      · rw [if_pos hrule, if_pos hrule]
        rfl
      rw [if_neg hrule, if_neg hrule]
      cases groupsOf ordered line with
      | some groups => rfl
      | none =>
        cases groupsOf unordered line with
        | some groups => rfl
        | none => cases groupsOf quote line <;> rfl

end Blocks

namespace Document

theorem flushBlocks_blocks {d : Document} (h : Open d.current) (hcode : d.inCode = false) :
    d.blocks.flushBlocks = d.close.blocks := by
  obtain ⟨done, current⟩ := d
  cases h with
  | code => cases hcode
  | none => simp [blocks, close, inCode, Blocks.flushBlocks, Blocks.flushParagraph,
      Blocks.flushList, Blocks.flushQuote]
  | paragraph h => simp [blocks, close, inCode, Blocks.flushBlocks, Blocks.flushParagraph,
      Blocks.flushList, Blocks.flushQuote, Blocks.push, Element.html, h]
  | list h => simp [blocks, close, inCode, Blocks.flushBlocks, Blocks.flushParagraph,
      Blocks.flushList, Blocks.flushQuote, Blocks.push, Element.html]
  | quote h => simp [blocks, close, inCode, Blocks.flushBlocks, Blocks.flushParagraph,
      Blocks.flushList, Blocks.flushQuote, Blocks.push, Element.html, h]

theorem listType_ne {ordered ordered' : Bool} (h : ordered ≠ ordered') :
    Markdown.listType ordered ≠ Markdown.listType ordered' := by
  cases ordered <;> cases ordered' <;> simp_all [Markdown.listType]

/-- **A line does to the variables of the browser what it does to the document.** -/
theorem addKind_blocks {d : Document} (h : Open d.current) (line : Str) (kind : Kind) :
    d.blocks.addKind line kind = (d.add line kind).blocks := by
  obtain ⟨done, current⟩ := d
  cases h with
  | code =>
    cases kind <;> simp [blocks, add, close, inCode, Blocks.addKind, Blocks.flushCode_push,
      Blocks.push, Element.html]
  | none =>
    cases kind <;> simp [blocks, add, close, opened, pushed, inCode, Blocks.addKind, Blocks.push,
      Blocks.flushBlocks, Blocks.flushParagraph, Blocks.flushList, Blocks.flushQuote,
      Blocks.addItem, Element.html]
  | paragraph h =>
    cases kind <;> simp [blocks, add, close, opened, pushed, inCode, Blocks.addKind, Blocks.push,
      Blocks.flushBlocks, Blocks.flushParagraph, Blocks.flushList, Blocks.flushQuote,
      Blocks.addItem, Element.html, h]
  | quote h =>
    cases kind <;> simp [blocks, add, close, opened, pushed, inCode, Blocks.addKind, Blocks.push,
      Blocks.flushBlocks, Blocks.flushParagraph, Blocks.flushList, Blocks.flushQuote,
      Blocks.addItem, Element.html, h]
  | @list ordered items h =>
    cases kind with
    | item ordered' text =>
      by_cases heq : ordered = ordered'
      · subst heq
        simp [blocks, add, inCode, Blocks.addKind, Blocks.flushParagraph, Blocks.flushQuote,
          Blocks.addItem]
      · simp [blocks, add, close, opened, inCode, Blocks.addKind, Blocks.push,
          Blocks.flushParagraph, Blocks.flushList, Blocks.flushQuote, Blocks.addItem,
          Element.html, heq, listType_ne heq]
    | _ =>
      simp [blocks, add, close, opened, pushed, inCode, Blocks.addKind, Blocks.push,
        Blocks.flushBlocks, Blocks.flushParagraph, Blocks.flushList, Blocks.flushQuote,
        Element.html]

/-- The variables of the browser behind the lines. -/
theorem foldl_addLine (lines : List Str) :
    lines.foldl Blocks.addLine { } = (ofLines browserKind lines).blocks := by
  have read : ∀ (lines : List Str) {d : Document}, Open d.current →
      lines.foldl Blocks.addLine d.blocks =
        (lines.foldl (fun d line => d.add line (browserKind line)) d).blocks := by
    intro lines
    induction lines with
    | nil => exact fun _ => rfl
    | cons line lines ih =>
      intro d h
      rw [List.foldl_cons, List.foldl_cons, Blocks.addLine_eq, addKind_blocks h,
        ih (add_open h _ _)]
  have start : Open empty.current := .none
  exact read lines start

theorem finish_blocks {d : Document} (h : Open d.current) :
    d.blocks.finish.output = d.close.done.map Element.html := by
  have flushed := flushBlocks_blocks h
  obtain ⟨done, current⟩ := d
  cases h with
  | code =>
    simp [blocks, close, inCode, Blocks.finish, Blocks.flushCode_push, Blocks.push,
      Element.html, Blocks.flushBlocks, Blocks.flushParagraph, Blocks.flushList, Blocks.flushQuote]
  | none => exact congrArg Blocks.output (flushed rfl)
  | paragraph h => exact congrArg Blocks.output (flushed rfl)
  | list h => exact congrArg Blocks.output (flushed rfl)
  | quote h => exact congrArg Blocks.output (flushed rfl)

end Document

/-- **The browser writes the elements of the document**, one after another. -/
theorem renderMarkdown_document (text : Str) :
    renderMarkdown text = (Document.parse browserKind
      ((normalizeNewlines text).splitOn '\n')).flatMap Element.html := by
  rw [renderMarkdown, Document.foldl_addLine, Document.finish_blocks (Document.ofLines_open _ _),
    List.flatMap_def]
  rfl

end InferBridge.Markdown
