/-
InferBridge/ContinueMerge.lean

The merge of one managed model into Continue's `config.yaml`
(`ContinueConfigMerge` in windows-native/InferBridge.Native/ToolSetup.cs).

The merge works on lines.  It checks each of them, finds the place of its entry,
which is the managed block if there is one and the `models` list otherwise, and
writes the lines back with the line break of the text.  What `Uri` and the word
class of `Regex` say about a text is a parameter.

Design.  `place` is the insertion point: the lines before, the indentation, the
lines behind.  It does not depend on the values.
-/
import InferBridge.Lib.Accepted
import InferBridge.Lib.Lines

namespace InferBridge.ContinueConfig

abbrev Str := List Char

/-! ### Texts -/

/-- What the libraries say about texts: the addresses that `Uri` takes for a loopback `/v1`, and
the characters of `\w`, which is fixed on ASCII. -/
structure Host where
  loopback : Str → Bool
  word : Char → Bool
  word_ascii : ∀ c : Char, c.toNat < 128 → word c = (c.isAlphanum || c = '_')

/-- `char.IsWhiteSpace`, and `\s` -/
def isWhite (c : Char) : Bool :=
  let n := c.toNat
  (9 ≤ n ∧ n ≤ 13) ∨ n = 0x20 ∨ n = 0x85 ∨ n = 0xA0 ∨ n = 0x1680 ∨ (0x2000 ≤ n ∧ n ≤ 0x200A) ∨
    n = 0x2028 ∨ n = 0x2029 ∨ n = 0x202F ∨ n = 0x205F ∨ n = 0x3000

/-- `TrimStart()` -/
def trimStart (s : Str) : Str := s.dropWhile isWhite

/-- `TrimEnd()` -/
def trimEnd (s : Str) : Str := s.rdropWhile isWhite

/-- `Trim()` -/
def trim (s : Str) : Str := Text.strip isWhite s

/-- What follows `text`. -/
def dropText (text s : Str) : Option Str :=
  if text.isPrefixOf s then some (s.drop text.length) else none

/-- The length in UTF-16 units. -/
def unitLength (s : Str) : Nat := (s.map fun c => if c.toNat < 0x10000 then 1 else 2).sum

/-- `char.IsControl` -/
def isControl (c : Char) : Bool := c.toNat ≤ 0x1F ∨ (0x7F ≤ c.toNat ∧ c.toNat ≤ 0x9F)

/-- The units of a character. -/
def utf16Units (c : Char) : List Nat :=
  if c.toNat < 0x10000 then [c.toNat]
  else [0xD800 + (c.toNat - 0x10000) / 0x400, 0xDC00 + (c.toNat - 0x10000) % 0x400]

def hexDigit (n : Nat) : Char := if n < 10 then Char.ofNat (48 + n) else Char.ofNat (55 + n)

def escapeUnit (n : Nat) : Str :=
  ['\\', 'u', hexDigit (n / 0x1000), hexDigit (n / 0x100 % 16), hexDigit (n / 16 % 16),
    hexDigit (n % 16)]

/-- The characters that the default encoder leaves as they are: printable ASCII but for the
quotes, the ampersand, plus, less, greater, backquote and backslash. -/
def isPlain (c : Char) : Bool :=
  (0x20 ≤ c.toNat ∧ c.toNat ≤ 0x7E) ∧ ¬ c.toNat ∈ [0x22, 0x26, 0x27, 0x2B, 0x3C, 0x3E, 0x5C, 0x60]

def escapeChar (c : Char) : Str :=
  if isPlain c then [c]
  else if c.toNat = 8 then ['\\', 'b']
  else if c.toNat = 9 then ['\\', 't']
  else if c.toNat = 10 then ['\\', 'n']
  else if c.toNat = 12 then ['\\', 'f']
  else if c.toNat = 13 then ['\\', 'r']
  else if c.toNat = 0x5C then ['\\', '\\']
  else (utf16Units c).flatMap escapeUnit

def quote : Char := Char.ofNat 34

def apostrophe : Char := Char.ofNat 39

/-- `JsonSerializer.Serialize(value)` -/
def Q (value : Str) : Str := quote :: value.flatMap escapeChar ++ [quote]

/-! ### The values -/

/-- The errors of the merge; a line is told by its number. -/
inductive Refusal where
  | address
  | modelId
  | limits
  | notText
  | tab (line : Nat)
  | documents
  | invalid (line : Nat)
  | list
  | markers
  | order
  | handWritten
  | duplicate
  | inline
  | notList
deriving DecidableEq, Repr

/-- `Refuse` -/
def refuse (reason : String) : String := reason ++ " InferBridge did not change the file."

def Refusal.message : Refusal → String
  | .address =>
    "The engine address is not a verified loopback /v1 URL. Refresh the connection."
  | .modelId => "The selected model ID cannot be used in a tool configuration."
  | .limits => "The engine reported inconsistent token limits. Refresh the connection."
  | .notText => refuse "config.yaml is not a text file."
  | .tab line => refuse ("config.yaml line " ++ toString line ++
      " is indented with a tab, which YAML does not allow.")
  | .documents => refuse "config.yaml contains more than one YAML document."
  | .invalid line => refuse ("config.yaml line " ++ toString line ++
      " is not valid YAML for Continue.")
  | .list => refuse "config.yaml must be a mapping of settings, not a list."
  | .markers => refuse "InferBridge’s markers in config.yaml are incomplete or duplicated."
  | .order => refuse "InferBridge’s markers in config.yaml are out of order."
  | .handWritten => refuse ("config.yaml already has a hand-written model named " ++
      "“InferBridge (local)”. Rename or remove it, then try again.")
  | .duplicate => refuse "config.yaml defines models more than once."
  | .inline => refuse ("config.yaml uses an inline models list. " ++
      "Convert it to one model per line, then try again.")
  | .notList => refuse "The models section of config.yaml is not a list."

structure ToolConnectionValues where
  baseUrl : Str
  modelId : Str
  authenticationRequired : Bool
  contextTokens : Option Int
  maxOutputTokens : Option Int

namespace ToolConnectionValues

def keyPlaceholder (values : ToolConnectionValues) : Str :=
  if values.authenticationRequired then "YOUR_INFERBRIDGE_API_KEY".toList
  else "not-required".toList

/-- The limits that are refused. -/
def inconsistent (values : ToolConnectionValues) : Bool :=
  (values.contextTokens.any fun context => context < 1 || 10000000 < context) ||
    (values.maxOutputTokens.any fun output =>
      output < 1 || values.contextTokens.all fun context => context ≤ output)

/-- `Validated` -/
def validated (host : Host) (values : ToolConnectionValues) : Except Refusal Unit :=
  if !host.loopback values.baseUrl then .error .address
  else if unitLength values.modelId < 1 || 128 < unitLength values.modelId ||
      values.modelId.any isControl then .error .modelId
  else if values.inconsistent then .error .limits
  else .ok ()

end ToolConnectionValues

/-! ### The entry -/

def continueModelName : Str := "InferBridge (local)".toList

/-- `ContinueMarkers.Start` -/
def startMarker : Str :=
  "# >>> InferBridge (local): managed by InferBridge, Undo in InferBridge restores your backup".toList

/-- `ContinueMarkers.End` -/
def endMarker : Str := "# <<< InferBridge (local)".toList

def decimal (n : Int) : Str := (if n < 0 then ['-'] else []) ++ Nat.toDigits 10 n.natAbs

/-- The settings of the model, without the indentation of the entry. -/
def entrySettings (values : ToolConnectionValues) : List Str :=
  ["  provider: openai".toList,
    "  model: ".toList ++ Q values.modelId,
    "  apiBase: ".toList ++ Q values.baseUrl,
    "  apiKey: ".toList ++ Q values.keyPlaceholder,
    "  roles:".toList,
    "    - chat".toList,
    "    - edit".toList,
    "    - apply".toList] ++
  match values.contextTokens with
  | none => []
  | some context =>
    ["  defaultCompletionOptions:".toList, "    contextLength: ".toList ++ decimal context] ++
      match values.maxOutputTokens with
      | none => []
      | some output => ["    maxTokens: ".toList ++ decimal output]

def nameItem : Str := "- name: ".toList ++ Q continueModelName

/-- `ContinueEntry` -/
def continueEntry (values : ToolConnectionValues) (indent : Str) : List Str :=
  ([startMarker, nameItem] ++ entrySettings values ++ [endMarker]).map fun line => indent ++ line

/-! ### The patterns -/

/-- `\s*:` and what follows it -/
def afterColon (s : Str) : Option Str :=
  match trimStart s with
  | ':' :: rest => some rest
  | _ => none

/-- The end, or white space. -/
def endsOrWhite : Str → Bool
  | [] => true
  | c :: _ => isWhite c

/-- The end, or a comment. -/
def endsOrComment : Str → Bool
  | [] => true
  | c :: _ => c = '#'

/-- `%YAML\b.*`; the joiners are no boundary either. -/
def yamlDirective (host : Host) (s : Str) : Bool :=
  match dropText "%YAML".toList s with
  | none => false
  | some [] => true
  | some (c :: _) => !(host.word c || c.toNat = 0x200C || c.toNat = 0x200D)

/-- What follows a key: a name, or a quoted text. -/
def afterKey (host : Host) : Str → Option Str
  | [] => none
  | c :: rest =>
    if c = quote ∨ c = apostrophe then
      match rest.dropWhile (· ≠ c) with
      | [] => none
      | _ :: after => some after
    else if c.isAlpha || c = '_' then
      some (rest.dropWhile fun d => host.word d || d = '.' || d = '-')
    else none

/-- `TopLevelLine` -/
def topLevelLine (host : Host) (s : Str) : Bool :=
  yamlDirective host s || (dropText "---".toList s).any endsOrWhite ||
    ((afterKey host s).bind afterColon).any endsOrWhite || "- ".toList.isPrefixOf s ||
    s = "-".toList

/-- What follows the key in `ModelsKey`. -/
def modelsRest (line : Str) : Option Str := (dropText "models".toList line).bind afterColon

def isModelsKey (line : Str) : Bool := (modelsRest line).isSome

/-- `^\[\s*\]\s*(#.*)?$` -/
def isEmptyList (rest : Str) : Bool :=
  match rest with
  | '[' :: rest =>
    match trimStart rest with
    | ']' :: rest => endsOrComment (trimStart rest)
    | _ => false
  | _ => false

def dropOne (p : Char → Bool) : Str → Str
  | [] => []
  | c :: rest => if p c then rest else c :: rest

def isQuote (c : Char) : Bool := c = quote || c = apostrophe

/-- `UnmanagedName` -/
def isUnmanagedName (line : Str) : Bool :=
  let name := do
    let rest ← dropText "name".toList (trimStart (dropOne (· = '-') (trimStart line)))
    let value ← afterColon rest
    dropText continueModelName (dropOne isQuote (trimStart value))
  name.any fun rest => endsOrComment (trimStart (dropOne isQuote rest))

def isStart (line : Str) : Bool := trim line = startMarker

def isEnd (line : Str) : Bool := trim line = endMarker

/-! ### The checks -/

/-- What is wrong with a line. -/
inductive Fault where
  | notText
  | tab
  | documents
  | invalid
  | list

def Fault.at : Fault → Nat → Refusal
  | .notText, _ => .notText
  | .tab, line => .tab line
  | .documents, _ => .documents
  | .invalid, line => .invalid line
  | .list, _ => .list

/-- One round of `Validate`: the new `sawContent`. -/
def checkLine (host : Host) (sawContent : Bool) (line : Str) : Except Fault Bool :=
  let trimmed := line.dropWhile (· = ' ')
  let document := "---".toList.isPrefixOf trimmed
  if line.contains (Char.ofNat 0) then .error .notText
  else if trimmed.head? = some '\t' then .error .tab
  else if trimmed = [] ∨ trimmed.head? = some '#' then .ok sawContent
  else if line.length ≠ trimmed.length then .ok true
  else if trimmed = "...".toList ∨ (document && sawContent) then .error .documents
  else if !topLevelLine host (trimEnd trimmed) then .error .invalid
  else if !sawContent && trimmed.head? = some '-' && !document then .error .list
  else .ok (sawContent || !(trimmed.head? = some '%' || document))

/-- `Validate`, from the line with this number on -/
def validateFrom (host : Host) : Nat → Bool → List Str → Except Refusal Unit
  | _, _, [] => .ok ()
  | number, sawContent, line :: lines =>
    match checkLine host sawContent line with
    | .error fault => .error (fault.at number)
    | .ok sawContent => validateFrom host (number + 1) sawContent lines

/-! ### The merge -/

/-- Where the entry goes: the lines before it, its indentation, the lines behind it. -/
structure Place where
  before : List Str
  indent : Str
  after : List Str

/-- The indentation of the first item behind the key. -/
def itemIndent : List Str → Except Refusal Str
  | [] => .ok "  ".toList
  | line :: lines =>
    let trimmed := trimStart line
    if trimmed = [] ∨ trimmed.head? = some '#' then itemIndent lines
    else if "- ".toList.isPrefixOf trimmed ∨ trimmed = "-".toList then
      .ok (line.takeWhile isWhite)
    else if line.length = trimmed.length then .ok "  ".toList
    else .error .notList

/-- The key line, bare if its list was empty. -/
def bareKey (line : Str) : Except Refusal Str :=
  let rest := trim ((modelsRest line).getD [])
  if rest = [] ∨ rest.head? = some '#' then .ok line
  else if isEmptyList rest then .ok "models:".toList
  else .error .inline

/-- The place of the managed block. -/
def blockPlace (lines : List Str) : Except Refusal Place :=
  let start := lines.findIdx isStart
  let stop := lines.findIdx isEnd
  if stop < start then .error .order
  else
    .ok { before := lines.take start
          indent := (lines.getD start []).takeWhile isWhite
          after := lines.drop (stop + 1) }

/-- The place behind the `models` key. -/
def listPlace (lines : List Str) : Except Refusal Place :=
  let keyIndex := lines.findIdx isModelsKey
  let after := lines.drop (keyIndex + 1)
  do
    let key ← bareKey (lines.getD keyIndex [])
    let indent ← itemIndent after
    return { before := lines.take keyIndex ++ [key], indent, after }

def place (lines : List Str) : Except Refusal Place :=
  let startCount := lines.countP isStart
  let endCount := lines.countP isEnd
  let keyCount := lines.countP isModelsKey
  if startCount ≠ endCount ∨ 1 < startCount then .error .markers
  else if startCount = 1 then blockPlace lines
  else if lines.any isUnmanagedName then .error .handWritten
  else if 1 < keyCount then .error .duplicate
  else if keyCount = 0 then
    .ok { before := lines ++ ["models:".toList], indent := "  ".toList, after := [] }
  else listPlace lines

/-- The lines with the entry at its place. -/
def Place.fill (p : Place) (values : ToolConnectionValues) : List Str :=
  p.before ++ continueEntry values p.indent ++ p.after

def lf : Str := ['\n']

def crlf : Str := ['\r', '\n']

/-- `Join` -/
def join (newline : Str) (lines : List Str) : Str := newline.intercalate lines ++ newline

def hasCrlf (text : Str) : Bool := Lines.hasLong '\r' '\n' text

def fileLines (text : Str) : List Str := Lines.splitLines '\r' '\n' text

def newlineOf (text : Str) : Str := if hasCrlf text then crlf else lf

/-- `string.IsNullOrWhiteSpace` of a text -/
def isBlank (text : Str) : Bool := text.all isWhite

/-- The lines of a new file before its entry. -/
def freshHead : List Str :=
  ["name: Local Config".toList, "version: 1.0.0".toList, "schema: v1".toList, "models:".toList]

/-- `Merge` -/
def merge (host : Host) (existing : Option Str) (values : ToolConnectionValues) :
    Except Refusal Str := do
  values.validated host
  match existing.filter fun text => !isBlank text with
  | none => return join lf (freshHead ++ continueEntry values "  ".toList)
  | some text =>
    let lines := fileLines text
    validateFrom host 1 false lines
    let p ← place lines
    return join (newlineOf text) (p.fill values)

/-! ### An engine -/

/-- The engine at its own address. -/
def localHost : Host where
  loopback url := url = "http://127.0.0.1:8000/v1".toList
  word c := c.isAlphanum || c = '_'
  word_ascii _ _ := rfl

def localValues : ToolConnectionValues :=
  ⟨"http://127.0.0.1:8000/v1".toList, "qwen3-8b".toList, false, some 8192, none⟩

end InferBridge.ContinueConfig
