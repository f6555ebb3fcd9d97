/-
InferBridge/ConsoleProgress.lean

The console lines of a conversion and the progress records made of them
(runtime/model_converter.py).

`ProgressLineEmitter.emit` takes one line at one moment.  It cleans the line
of terminal escapes, drops redraws that come too soon, forwards the line to
the human stream, and turns it into a record of the progress protocol when
its wording says something about the conversion.

The tables of the Unicode database that the expressions refer to are a
parameter; only what they say about ASCII is known.  Printing does not fail:
both streams replace what they cannot encode.
-/
import InferBridge.Lib.Pattern
import InferBridge.Lib.Transition
import InferBridge.ProgressProtocol

namespace InferBridge

open Text

/-! ### Characters -/

/-- The decimal value of an ASCII digit. -/
def asciiDigit (c : Char) : Option (Fin 10) :=
  if h : 48 ≤ c.toNat ∧ c.toNat ≤ 57 then some ⟨c.toNat - 48, by omega⟩ else none

/-- `unicodedata.decimal` and the class `\w`. -/
structure UnicodeTables where
  decimal : Char → Option (Fin 10)
  word : Char → Bool
  decimal_ascii : ∀ c : Char, c.toNat < 128 → decimal c = asciiDigit c

/-- The tables of ASCII alone. -/
def UnicodeTables.ascii : UnicodeTables where
  decimal := asciiDigit
  word c := isAsciiAlnum c || c = '_'
  decimal_ascii _ _ := rfl

/-- The class `\d`. -/
def UnicodeTables.isDecimal (unicode : UnicodeTables) (c : Char) : Bool :=
  (unicode.decimal c).isSome

/-- A letter without regard to case: the long s and the two Turkish i count as well. -/
def letter (c d : Char) : Bool :=
  lowerChar d = c ∨ (c = 'i' ∧ (d.toNat = 0x130 ∨ d.toNat = 0x131)) ∨ (c = 's' ∧ d.toNat = 0x17F)

def charRange (low high : Nat) (c : Char) : Bool := low ≤ c.toNat ∧ c.toNat ≤ high

/-! ### Expressions -/

def char (c : Char) : Pattern Char := .symbol fun d => d = c

def literal (text : String) : Pattern Char := Pattern.symbols (text.toList.map fun c d => d = c)

theorem taken_of_mem_literal {text : String} {before : Option Char} {t : Str} {m : Match Char}
    (h : m ∈ (literal text).found before t) : m.taken = text.toList := by
  obtain ⟨hall, -⟩ := Pattern.of_mem_symbols h
  rw [List.forall₂_map_right_iff] at hall
  exact List.forall₂_eq_eq_eq ▸ hall.imp fun c d hcd => by simpa using hcd

/-- A lower-case word, matched without regard to case. -/
def ignoreCase (word : String) : Pattern Char := Pattern.symbols (word.toList.map letter)

/-- `_ANSI_ESCAPE_RE`. -/
def ansiEscape : Pattern Char :=
  .seq (char '\x1b') (.alt
    (.seq (char '[') (.seq (.many (charRange 0x30 0x3F)) (.seq (.many (charRange 0x20 0x2F))
      (.symbol (charRange 0x40 0x7E)))))
    (.seq (char ']') (.seq (.many fun c => c ≠ '\x07')
      (.alt (char '\x07') (.seq (char '\x1b') (char '\\'))))))

section
variable (unicode : UnicodeTables)

/-- The number of `_PERCENT_RE`. -/
def percentNumber : Pattern Char :=
  .alt (.seq (literal "100") (Pattern.opt (.seq (char '.') (Pattern.many1 fun c => c = '0'))))
    (.seq (Pattern.opt (.symbol (charRange 0x31 0x39))) (.seq (.symbol unicode.isDecimal)
      (Pattern.opt (.seq (char '.') (Pattern.many1 unicode.isDecimal)))))

/-- `_PERCENT_RE`. -/
def percentPattern : Pattern Char :=
  .seq (.notAfter unicode.isDecimal)
    (.seq (.group (percentNumber unicode)) (.seq (.many isSpace) (char '%')))

/-- `_COUNT_RE`. -/
def countPattern : Pattern Char :=
  .seq (.notAfter unicode.isDecimal)
    (.seq (.group (Pattern.many1 unicode.isDecimal))
      (.seq (.many isSpace) (.seq (char '/') (.seq (.many isSpace)
        (.seq (.group (Pattern.many1 unicode.isDecimal)) (.notBefore unicode.isDecimal))))))

/-- The extension of a file name. -/
def extension (name : String) : Pattern Char :=
  .seq (char '.') (.seq (ignoreCase name) (.boundary unicode.word))

/-- `_DOWNLOAD_PROGRESS_RE`. -/
def downloadPattern : Pattern Char :=
  Pattern.oneOf
    [.seq (ignoreCase "fetching") (.seq (Pattern.many1 isSpace)
        (.seq (Pattern.many1 unicode.isDecimal) (.seq (Pattern.many1 isSpace)
          (.seq (ignoreCase "file") (Pattern.opt (.symbol (letter 's'))))))),
      ignoreCase "download", ignoreCase "snapshot", ignoreCase "cache",
      extension unicode "safetensors", extension unicode "bin", extension unicode "model",
      extension unicode "json"]

/-- `_CONVERT_PROGRESS_RE`. -/
def convertPattern : Pattern Char :=
  Pattern.oneOf (["quant", "compress", "weight", "export", "openvino", "convert", "compile",
    "transform"].map ignoreCase)

/-- `_FINALIZE_PROGRESS_RE`. -/
def finalizePattern : Pattern Char :=
  Pattern.oneOf (["save", "write", "serializ", "finaliz"].map ignoreCase)

/-- `pattern.search(line)`: the text before the match, and the match. -/
def searchLine (pattern : Pattern Char) (line : Str) : Option (Str × Match Char) :=
  pattern.search none line

/-- `_clean_console_line`. -/
def cleanConsoleLine (text : Str) : Str :=
  strip isSpace ((Pattern.removeAll ansiEscape text).filter fun c => c ≠ '\x00')

/-! ### Lines -/

/-- `_MAX_CONSOLE_LINE_CHARS`. -/
def maxConsoleLineChars : Nat := 4096

/-- The loop `while len(text) > _MAX_CONSOLE_LINE_CHARS`: the pieces of the text, the last one
no longer than a line. -/
def cutLine : Nat → Str → List Str
  | 0, text => [text]
  | fuel + 1, text =>
    if maxConsoleLineChars < text.length then
      text.take maxConsoleLineChars :: cutLine fuel (text.drop maxConsoleLineChars)
    else [text]

/-- The pieces of a text; there are not more of them than characters. -/
def pieces (text : Str) : List Str := cutLine text.length text

/-- The cleaned lines, without the empty ones. -/
def cleanLines (lines : List Str) : List Str :=
  (lines.map cleanConsoleLine).filter fun line => line ≠ []

/-- `_split_console_lines`: the lines before the last separator, and what waits for one. -/
def splitConsoleLines (pending : Str) : List Str × Str :=
  let texts := pending.splitOnP fun c => c = '\r' ∨ c = '\n'
  let last := pieces (texts.getLastD [])
  (cleanLines (texts.dropLast.flatMap pieces ++ last.dropLast), last.getLastD [])

/-- `_iter_console_lines`, on the decoded chunks; `final` is what the decoder makes of an
incomplete character at the end. -/
def iterConsoleLines (final : Str) : Str → List Str → List Str
  | pending, [] => cleanLines [pending ++ final]
  | pending, chunk :: chunks =>
    let (lines, pending) := splitConsoleLines (pending ++ chunk)
    lines ++ iterConsoleLines final pending chunks

/-! ### Numbers -/

/-- The value of a sequence of decimal digits. -/
def readDecimal (digits : Str) : Nat :=
  digits.foldl (fun n c => 10 * n + (unicode.decimal c).elim 0 Fin.val) 0

/-- The digits that `int` reads at most. -/
def maxStrDigits : Nat := 4300

/-- `int(digits)`. -/
def intOf (digits : Str) : Except ProtocolError Nat :=
  if maxStrDigits < digits.length then
    .error (.valueError ("Exceeds the limit (4300 digits) for integer string conversion: " ++
      "value has " ++ toString digits.length ++
      " digits; use sys.set_int_max_str_digits() to increase the limit"))
  else .ok (readDecimal unicode digits)

/-- The rational that a decimal numeral stands for. -/
def numeralValue (numeral : Str) : ℚ :=
  let fraction := (numeral.dropWhile fun c => c ≠ '.').drop 1
  readDecimal unicode (numeral.takeWhile fun c => c ≠ '.') +
    readDecimal unicode fraction / 10 ^ fraction.length

/-- `float(numeral)`. -/
def floatOf (numeral : Str) : ℚ := Binary64.round (numeralValue unicode numeral)

/-! ### From a line to a state of the protocol -/

/-- The phases of `_PHASE_RANK`. -/
inductive ConsolePhase where
  | resolving
  | downloading
  | converting
  | finalizing
deriving DecidableEq, Repr

/-- `_PHASE_RANK`. -/
def ConsolePhase.rank : ConsolePhase → Nat
  | .resolving => 0
  | .downloading => 1
  | .converting => 2
  | .finalizing => 3

def ConsolePhase.phase : ConsolePhase → Phase
  | .resolving => .resolving
  | .downloading => .downloading
  | .converting => .converting
  | .finalizing => .finalizing

structure ProtocolState where
  phase : ConsolePhase
  message : String
  percent : Option ℚ
  completed : Option Nat
  total : Option Nat
deriving DecidableEq

def finalizingMessage : String := "Finalizing OpenVINO model files…"
def downloadingMessage : String := "Downloading model files…"
def convertingMessage : String := "Converting model to OpenVINO IR…"

/-- The percentage of a line. -/
def percentOf (line : Str) : Option ℚ :=
  ((searchLine (percentPattern unicode) line).bind fun s => s.2.groups.head?).map (floatOf unicode)

/-- The counts of a line. -/
def countsOf (line : Str) : Except ProtocolError (Option Nat × Option Nat) :=
  match (searchLine (countPattern unicode) line).map fun s => s.2.groups with
  | some [completed, total] => do
    let completed ← intOf unicode completed
    let total ← intOf unicode total
    .ok (some completed, some total)
  | _ => .ok (none, none)

def mentions (pattern : Pattern Char) (line : Str) : Bool := (searchLine pattern line).isSome

/-- The phase and the message that the wording of a line stands for. -/
def wordingOf (line : Str) : Option (ConsolePhase × String) :=
  if mentions finalizePattern line then some (.finalizing, finalizingMessage)
  else if mentions (downloadPattern unicode) line then some (.downloading, downloadingMessage)
  else if mentions convertPattern line ∨ (percentOf unicode line).isSome then
    some (.converting, convertingMessage)
  else none

/-- `_structured_progress_from_line`. -/
def structuredProgressFromLine (line : Str) : Except ProtocolError (Option ProtocolState) := do
  let percent := percentOf unicode line
  let (completed, total) ← countsOf unicode line
  .ok ((wordingOf unicode line).map fun (phase, message) =>
    { phase, message, percent, completed, total })

/-! ### The emitter -/

/-- `_ProgressLineEmitter`. -/
structure ProgressLineEmitter where
  protocolEmitter : Option ProgressEventEmitter
  human : List Str
  lastLine : Str
  lastLineAt : ℚ
  percentByKey : Dict Str Int
  percentAt : Dict Str ℚ
  phase : ConsolePhase
  lastProtocolState : Option ProtocolState

def ProgressLineEmitter.start (protocolEmitter : Option ProgressEventEmitter) :
    ProgressLineEmitter :=
  { protocolEmitter := protocolEmitter
    human := []
    lastLine := []
    lastLineAt := 0
    percentByKey := Dict.empty
    percentAt := Dict.empty
    phase := .resolving
    lastProtocolState := none }

/-- A line of the exporter with the readings of `time.monotonic` and `time.time`. -/
structure ConsoleUpdate where
  line : Str
  now : ℚ
  time : ℚ

/-- `_progress_key`; `before` is the text before the match. -/
def progressKey (line before : Str) : Str :=
  let trimmed := strip (fun c => c ∈ [' ', ':', '|']) before
  if trimmed ≠ [] then trimmed.drop (trimmed.length - 120) else line.take 120

/-- `a - b` of two floats. -/
def floatSub (a b : ℚ) : ℚ := Binary64.round (a - b)

/-- The percentage of a line as the redraw filter sees it, with its key. -/
def redrawOf (line : Str) : Option (Str × Int) :=
  match searchLine (percentPattern unicode) line with
  | some (before, ⟨_, numeral :: _, _⟩) => some (progressKey line before, ⌊floatOf unicode numeral⌋)
  | _ => none

namespace ProgressLineEmitter

/-- The line is dropped as a redraw. -/
def drops (s : ProgressLineEmitter) (line : Str) (now : ℚ) : Bool :=
  match redrawOf unicode line with
  | some (key, percent) =>
    s.percentByKey.get? key = some percent ∧ percent ∉ [0, 100] ∧
      floatSub now ((s.percentAt.get? key).getD 0) < 3 / 4
  | none => line = s.lastLine ∧ floatSub now s.lastLineAt < 1

/-- Remember the percentage of a line that is not dropped. -/
def noteRedraw (s : ProgressLineEmitter) (line : Str) (now : ℚ) : ProgressLineEmitter :=
  match redrawOf unicode line with
  | some (key, percent) =>
    { s with
      percentByKey := s.percentByKey.set key percent
      percentAt := s.percentAt.set key now }
  | none => s

end ProgressLineEmitter

def downloadingPrefix : Str := "Downloading ".toList

/-- The line that is printed. -/
def printedLine (line : Str) : Str :=
  if (redrawOf unicode line).isSome ∧ mentions (downloadPattern unicode) line ∧
      (Occurrence.find "download".toList (lower line)).isNone then downloadingPrefix ++ line
  else line

namespace ProgressLineEmitter

/-- Print a line on the human stream. -/
def display (s : ProgressLineEmitter) (line : Str) (now : ℚ) : ProgressLineEmitter :=
  { s with lastLine := line, lastLineAt := now, human := s.human ++ [line] }

/-- The state to report: the phase never goes back. -/
def settle (s : ProgressLineEmitter) (state : ProtocolState) : ProtocolState :=
  if state.phase.rank < s.phase.rank then
    { state with
      phase := s.phase
      message := if s.phase = .finalizing then finalizingMessage else convertingMessage }
  else state

/-- Report a state through the protocol emitter, unless it is the last one again. -/
def report (s : ProgressLineEmitter) (protocolEmitter : ProgressEventEmitter)
    (state : ProtocolState) (time : ℚ) : Except ProtocolError ProgressLineEmitter :=
  let settled := s.settle state
  let s := { s with phase := settled.phase }
  if some settled = s.lastProtocolState then .ok s
  else do
    let protocolEmitter ← protocolEmitter.emit settled.phase.phase settled.message.toList
      settled.percent settled.completed settled.total time
    .ok { s with lastProtocolState := some settled, protocolEmitter := some protocolEmitter }

/-- What happens to a line after it was printed. -/
def interpret (s : ProgressLineEmitter) (line : Str) (time : ℚ) :
    Except ProtocolError ProgressLineEmitter :=
  match s.protocolEmitter with
  | none => .ok s
  | some protocolEmitter => do
    match ← structuredProgressFromLine unicode line with
    | none => .ok s
    | some state => s.report protocolEmitter state time

/-- `_ProgressLineEmitter.emit`. -/
def emit (s : ProgressLineEmitter) (update : ConsoleUpdate) :
    Except ProtocolError ProgressLineEmitter :=
  let line := cleanConsoleLine update.line
  if line = [] then .ok s
  else if s.drops unicode line update.now then .ok s
  else
    ((s.noteRedraw unicode line update.now).display (printedLine unicode line) update.now).interpret
      unicode (printedLine unicode line) update.time

end ProgressLineEmitter

end

end InferBridge
