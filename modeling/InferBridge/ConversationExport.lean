/-
InferBridge/ConversationExport.lean

Conversations as files that the browser exchanges
(`ExportJson` and `ImportJson` of
windows-native/InferBridge.Native/NativeConversationStore.cs).

The JSON text is a parameter (`JsonCodec`).  It gives a document back as it
was written, except that the encoder replaces surrogates without a partner
by U+FFFD (`JsonElement.repair`), and a text takes at most six bytes for
each of its units.

The importer goes through the messages from the end and keeps exchanges
while they fit.  `LongestWindow` says what it should keep: the longest
suffix of complete exchanges with at most 20 turns and 30000 units
(`keepPairs_longest`).  Main result: `importJson_exportJson`.
-/
import InferBridge.ConversationHistory

namespace InferBridge.NativeConversationStore

open Utf16

/-! ### Documents -/

/-- `JsonElement`; numbers are told apart by whether they have a fraction or an exponent. -/
inductive JsonElement where
  | null
  | bool (value : Bool)
  | integer (value : Int)
  | real (token : Text)
  | string (value : Text)
  | array (elements : List JsonElement)
  | object (properties : List (Text × JsonElement))

namespace JsonElement

mutual

/-- A document as it is encoded. -/
def repair : JsonElement → JsonElement
  | .null => .null
  | .bool value => .bool value
  | .integer value => .integer value
  | .real token => .real token
  | .string value => .string (Utf16.repair value)
  | .array elements => .array (repairElements elements)
  | .object properties => .object (repairProperties properties)

def repairElements : List JsonElement → List JsonElement
  | [] => []
  | element :: elements => element.repair :: repairElements elements

def repairProperties : List (Text × JsonElement) → List (Text × JsonElement)
  | [] => []
  | (name, value) :: properties =>
    (Utf16.repair name, value.repair) :: repairProperties properties

end

mutual

/-- How deep arrays and objects are nested. -/
def depth : JsonElement → Nat
  | .array elements => depthElements elements + 1
  | .object properties => depthProperties properties + 1
  | _ => 0

def depthElements : List JsonElement → Nat
  | [] => 0
  | element :: elements => max element.depth (depthElements elements)

def depthProperties : List (Text × JsonElement) → Nat
  | [] => 0
  | (_, value) :: properties => max value.depth (depthProperties properties)

end

mutual

/-- The units of all texts, names and numbers. -/
def units : JsonElement → Nat
  | .null => 0
  | .bool _ => 0
  | .integer value => Nat.log 10 value.natAbs + 2
  | .real token => token.length
  | .string value => value.length
  | .array elements => unitsElements elements
  | .object properties => unitsProperties properties

def unitsElements : List JsonElement → Nat
  | [] => 0
  | element :: elements => element.units + unitsElements elements

def unitsProperties : List (Text × JsonElement) → Nat
  | [] => 0
  | (name, value) :: properties => name.length + value.units + unitsProperties properties

end

mutual

/-- The number of values. -/
def nodes : JsonElement → Nat
  | .array elements => nodesElements elements + 1
  | .object properties => nodesProperties properties + 1
  | _ => 1

def nodesElements : List JsonElement → Nat
  | [] => 0
  | element :: elements => element.nodes + nodesElements elements

def nodesProperties : List (Text × JsonElement) → Nat
  | [] => 0
  | (_, value) :: properties => value.nodes + nodesProperties properties

end

/-- `TryGetProperty`: the last property of that name. -/
def property (name : Text) : List (Text × JsonElement) → Option JsonElement
  | [] => none
  | (key, value) :: properties =>
    (property name properties).or (if key = name then some value else none)

def asString : JsonElement → Option Text
  | .string value => some value
  | _ => none

/-- `TryGetInt32` -/
def asInt32 : JsonElement → Option Int
  | .integer value => if -2 ^ 31 ≤ value ∧ value < 2 ^ 31 then some value else none
  | _ => none

end JsonElement

/-- The encoder for indented documents, with the line feed behind them, and the reader for
documents that are nested at most 16 deep. -/
structure JsonCodec (β : Type*) where
  text : JsonElement → β
  /-- `none` is a `JsonException` -/
  parse : β → Option JsonElement
  size : β → Nat
  round_trip : ∀ document, document.depth ≤ 16 → parse (text document) = some document.repair
  size_text : ∀ document, document.depth ≤ 16 →
    2 ≤ size (text document) ∧ size (text document) ≤ 6 * document.units + 128 * document.nodes

/-! ### Export -/

def exportFormat : Text := ascii "inferbridge-conversation"

def maximumImportBytes : Nat := 4 * 1024 * 1024

def maximumSystemPromptChars : Nat := 32768

/-- A `DateTimeOffset`, by its milliseconds since 1970. -/
structure UtcTime where
  milliseconds : Int
  range : -62135596800000 ≤ milliseconds ∧ milliseconds < 253402300800000

/-- The decimal digits of a number, filled up with zeros to a number of places. -/
def padded : Nat → Nat → Text
  | 0, _ => []
  | places + 1, n => padded places (n / 10) ++ [UInt16.ofNat (0x30 + n % 10)]

/-- Year, month and day of a day since 1 January 1970.  Years are counted from March, and in
eras of 400 years. -/
def civilDate (day : Int) : Int × Int × Int :=
  let shifted := day + 719468
  let era := shifted / 146097
  let dayOfEra := shifted % 146097
  let yearOfEra := (dayOfEra - dayOfEra / 1460 + dayOfEra / 36524 - dayOfEra / 146096) / 365
  let dayOfYear := dayOfEra - (365 * yearOfEra + yearOfEra / 4 - yearOfEra / 100)
  let march := (5 * dayOfYear + 2) / 153
  let month := if march < 10 then march + 3 else march - 9
  (yearOfEra + era * 400 + (if month ≤ 2 then 1 else 0), month,
    dayOfYear - (153 * march + 2) / 5 + 1)

/-- The format `yyyy-MM-ddTHH:mm:ss.fffZ`. -/
def UtcTime.text (time : UtcTime) : Text :=
  let (year, month, day) := civilDate (time.milliseconds / 86400000)
  let inDay := (time.milliseconds % 86400000).toNat
  padded 4 year.toNat ++ ascii "-" ++ padded 2 month.toNat ++ ascii "-" ++ padded 2 day.toNat ++
    ascii "T" ++ padded 2 (inDay / 3600000) ++ ascii ":" ++ padded 2 (inDay / 60000 % 60) ++
    ascii ":" ++ padded 2 (inDay / 1000 % 60) ++ ascii "." ++ padded 3 (inDay % 1000) ++ ascii "Z"

example : (UtcTime.mk 1709210096007 (by decide)).text = ascii "2024-02-29T12:34:56.007Z" := by
  decide +kernel

/-- `string.Trim` -/
def trim (t : Text) : Text := Text.strip isWhiteSpace t

def safeTitle (title : Text) : Text :=
  let clean := (trim (joinWords title)).filter fun c => !isControlUnit c
  if clean = [] then ascii "InferBridge conversation" else clean.take 120

/-- One of the exported messages. -/
def message (turn : ChatTurn) : JsonElement :=
  .object [(ascii "role", .string turn.role), (ascii "content", .string turn.content)]

/-- The exported conversation. -/
def exportSource (title : Text) (turns : List ChatTurn) (modelId : Option Text)
    (systemPrompt : Text) (now : UtcTime) (pinned archived : Bool) :
    List (Text × JsonElement) :=
  [(ascii "title", .string title),
    (ascii "created", .integer now.milliseconds),
    (ascii "updated", .integer now.milliseconds),
    (ascii "pinned", .bool pinned),
    (ascii "archived", .bool archived),
    (ascii "model_id", match modelId with
      | none => .null
      | some modelId => .string modelId),
    (ascii "system_prompt", .string systemPrompt),
    (ascii "messages", .array (turns.map message))]

def exportDocument (exportedAt : Text) (source : List (Text × JsonElement)) : JsonElement :=
  .object
    [(ascii "format", .string exportFormat),
      (ascii "schema_version", .integer 1),
      (ascii "application", .string (ascii "InferBridge")),
      (ascii "exported_at", .string exportedAt),
      (ascii "conversation", .object source)]

/-! ### Import -/

inductive ImportError where
  | size
  | json
  | unsupported
  | messages
  | notText (name : String)
  | message
  | exchange
  /-- an `InvalidOperationException`: a text with an escaped surrogate without its partner -/
  | incompleteText
deriving DecidableEq, Repr

def ImportError.text : ImportError → String
  | .size => "JSON import is empty or larger than the 4 MiB safety limit."
  | .json => "The file is not valid JSON."
  | .unsupported => "This is not a supported InferBridge conversation export."
  | .messages => "Conversation exports may contain at most 2000 messages."
  | .notText name => "Conversation " ++ name ++ " must be text."
  | .message => "Imported messages may only be user or assistant text."
  | .exchange =>
    "The export has no complete user/assistant exchange that fits the native chat limits."
  | .incompleteText => "Cannot read incomplete UTF-16 JSON text as string."

structure ImportedChat where
  title : Text
  modelId : Option Text
  systemPrompt : Option Text
  turns : List ChatTurn
  sourceMessages : Nat
  pinned : Bool
  archived : Bool
deriving DecidableEq, Repr

/-- `GetString` -/
def getString (value : Text) : Except ImportError Text :=
  if wellFormed value then .ok value else .error .incompleteText

/-- The conversation and its messages. -/
def conversationOf : JsonElement → Option (List (Text × JsonElement) × List JsonElement)
  | .object root =>
    if ((JsonElement.property (ascii "format") root).bind JsonElement.asString = some exportFormat ∧
        (JsonElement.property (ascii "schema_version") root).bind JsonElement.asInt32 = some 1 ∧
        (JsonElement.property (ascii "application") root).bind JsonElement.asString =
          some (ascii "InferBridge")) then
      match JsonElement.property (ascii "conversation") root with
      | some (.object source) =>
        match JsonElement.property (ascii "messages") source with
        | some (.array messages) => some (source, messages)
        | _ => none
      | _ => none
    else none
  | _ => none

/-- `Text(name, limit)` -/
def importText (source : List (Text × JsonElement)) (name : String) (limit : Nat) :
    Except ImportError (Option Text) :=
  match JsonElement.property (ascii name) source with
  | none => .ok none
  | some .null => .ok none
  | some (.string value) => (getString value).map fun text => some (text.take limit)
  | some _ => .error (.notText name)

def importTurn : JsonElement → Except ImportError ChatTurn
  | .object properties => do
    let role ← match JsonElement.property (ascii "role") properties with
      | some (.string role) => getString role
      | _ => .ok []
    if role ≠ ascii "user" ∧ role ≠ ascii "assistant" then .error .message
    else match JsonElement.property (ascii "content") properties with
      | some (.string content) => (getString content).map (ChatTurn.mk role)
      | _ => .error .message
  | _ => .error .message

def importTurns : List JsonElement → Except ImportError (List ChatTurn)
  | [] => .ok []
  | message :: messages => do
    let turn ← importTurn message
    let turns ← importTurns messages
    .ok (turn :: turns)

def totalChars (turns : List ChatTurn) : Nat := (turns.map fun turn => turn.content.length).sum

/-- A question and its reply that the native transcript can hold. -/
def isExchange (ask reply : ChatTurn) : Bool :=
  reply.role = ascii "assistant" && ask.role = ascii "user" && !isBlank reply.content &&
    !isBlank ask.content && reply.content.length ≤ 8000 && ask.content.length ≤ 8000

/-- The loop over the turns, which are given from the last one on. -/
def keepPairs (kept : List ChatTurn) : List ChatTurn → List ChatTurn
  | reply :: ask :: earlier =>
    if kept.length < 20 ∧ isExchange ask reply = true ∧
        totalChars kept + reply.content.length + ask.content.length ≤ 30000 then
      keepPairs (ask :: reply :: kept) earlier
    else kept
  | _ => kept

/-- Only a literal `true` sets a flag. -/
def importFlag (source : List (Text × JsonElement)) (name : String) : Bool :=
  match JsonElement.property (ascii name) source with
  | some (.bool value) => value
  | _ => false

/-- `none` instead of a blank text. -/
def unlessBlank (t : Option Text) : Option Text := t.filter fun t => !isBlank t

def importDocument (document : JsonElement) : Except ImportError ImportedChat :=
  match conversationOf document with
  | none => .error .unsupported
  | some (source, messages) =>
    if 2000 < messages.length then .error .messages
    else do
      let turns ← importTurns messages
      let kept := keepPairs [] turns.reverse
      if kept = [] then .error .exchange
      else
        let model ← importText source "model_id" 512
        let system ← importText source "system_prompt" maximumSystemPromptChars
        let title ← importText source "title" 120
        .ok {
          title := (safeTitle (title.getD (ascii "Imported conversation"))).take 80
          modelId := unlessBlank (model.map trim)
          systemPrompt := unlessBlank system
          turns := kept
          sourceMessages := turns.length
          pinned := importFlag source "pinned"
          archived := importFlag source "archived" }

section
variable {β : Type*} (codec : JsonCodec β)

/-- The UTF-8 bytes of the exported text. -/
def exportJson (title : Text) (turns : List ChatTurn) (modelId systemPrompt : Option Text)
    (now : UtcTime) (pinned archived : Bool) : β :=
  codec.text (exportDocument now.text (exportSource (safeTitle title) turns (unlessBlank modelId)
    (systemPrompt.getD []) now pinned archived))

def importJson (bytes : β) : Except ImportError ImportedChat :=
  if ¬ (2 ≤ codec.size bytes ∧ codec.size bytes ≤ maximumImportBytes) then .error .size
  else match codec.parse bytes with
    | none => .error .json
    | some document => importDocument document

end

/-! ### The native window -/

/-- Alternating questions and replies, from a question to a reply. -/
def completePairs : List ChatTurn → Bool
  | [] => true
  | [_] => false
  | ask :: reply :: turns =>
    ask.role = ascii "user" && reply.role = ascii "assistant" && completePairs turns

/-- A suffix of complete exchanges that the native transcript can hold. -/
structure Window (turns kept : List ChatTurn) : Prop where
  ending : kept <:+ turns
  pairs : completePairs kept = true
  count : kept.length ≤ 20
  total : totalChars kept ≤ 30000

def LongestWindow (turns kept : List ChatTurn) : Prop :=
  Window turns kept ∧ ∀ other, Window turns other → other.length ≤ kept.length

theorem totalChars_append (turns turns' : List ChatTurn) :
    totalChars (turns ++ turns') = totalChars turns + totalChars turns' := by
  rw [totalChars, List.map_append, List.sum_append]
  rfl

theorem completePairs_even {turns : List ChatTurn} (h : completePairs turns = true) :
    turns.length % 2 = 0 := by
  fun_induction completePairs turns with
  | case1 => rfl
  | case2 turn => cases h
  | case3 ask reply turns ih =>
    have := ih (Bool.and_eq_true_iff.mp h).2
    show (turns.length + 1 + 1) % 2 = 0
    omega

theorem completePairs_cons {ask reply : ChatTurn} (hask : ask.role = ascii "user")
    (hreply : reply.role = ascii "assistant") (turns : List ChatTurn) :
    completePairs (ask :: reply :: turns) = completePairs turns := by
  rw [completePairs, hask, hreply]
  rfl

/-- The turns of some exchanges. -/
def turnsOf (exchanges : List (ChatTurn × ChatTurn)) : List ChatTurn :=
  exchanges.flatMap fun exchange => [exchange.1, exchange.2]

theorem roles_of_isExchange {ask reply : ChatTurn} (h : isExchange ask reply = true) :
    ask.role = ascii "user" ∧ reply.role = ascii "assistant" := by
  simp only [isExchange, Bool.and_eq_true, decide_eq_true_eq] at h
  exact ⟨h.1.1.1.1.2, h.1.1.1.1.1⟩

/-- An accepted transcript consists of exchanges. -/
theorem exists_exchanges {turns : List ChatTurn} {i : Nat} (hi : i % 2 = 0)
    (hturns : acceptableTurns i turns = true) (heven : turns.length % 2 = 0) :
    ∃ exchanges, turns = turnsOf exchanges ∧
      ∀ exchange ∈ exchanges, isExchange exchange.1 exchange.2 = true := by
  fun_induction completePairs turns generalizing i with
  | case1 => exact ⟨[], rfl, fun exchange h => absurd h List.not_mem_nil⟩
  | case2 turn => cases heven
  | case3 ask reply turns ih =>
    obtain ⟨hask, hrest⟩ := Bool.and_eq_true_iff.mp hturns
    obtain ⟨hreply, hrest⟩ := Bool.and_eq_true_iff.mp hrest
    have hturns : turns.length % 2 = 0 := by
      have h : (turns.length + 1 + 1) % 2 = 0 := heven
      omega
    obtain ⟨exchanges, rfl, hexchanges⟩ := ih (by omega) hrest hturns
    refine ⟨(ask, reply) :: exchanges, rfl, ?_⟩
    rintro exchange (_ | ⟨_, hmem⟩)
    · -- the question is at an even place, the reply at an odd one
      have hroleAsk : roleAt i = ascii "user" := if_pos hi
      have hroleReply : roleAt (i + 1) = ascii "assistant" := if_neg (by omega)
      rw [acceptableTurn, hroleAsk] at hask
      rw [acceptableTurn, hroleReply] at hreply
      simp only [Bool.and_eq_true, decide_eq_true_eq] at hask hreply
      simp only [isExchange, Bool.and_eq_true, decide_eq_true_eq]
      exact ⟨⟨⟨⟨⟨hreply.1.1, hask.1.1⟩, hreply.1.2⟩, hask.1.2⟩, hreply.2⟩, hask.2⟩
    · exact hexchanges exchange hmem

/-- A window that is longer than the turns kept contains the next exchange too. -/
theorem Window.length_le {earlier kept other : List ChatTurn} {ask reply : ChatTurn}
    (hkept : completePairs kept = true)
    (hstop : 20 ≤ kept.length ∨
      30000 < totalChars kept + reply.content.length + ask.content.length)
    (h : Window (earlier ++ ask :: reply :: kept) other) : other.length ≤ kept.length := by
  by_contra hlonger
  have hlength : (ask :: reply :: kept).length ≤ other.length := by
    have heven := completePairs_even hkept
    have heven' := completePairs_even h.pairs
    simp only [List.length_cons]
    omega
  obtain ⟨before, hother⟩ : ask :: reply :: kept <:+ other :=
    List.suffix_of_suffix_length_le (List.suffix_append earlier _) h.ending hlength
  have htotal : totalChars (ask :: reply :: kept) =
      ask.content.length + (reply.content.length + totalChars kept) := rfl
  have hcount := h.count
  have hsum := h.total
  rw [← hother, totalChars_append, htotal] at hsum
  simp only [List.length_cons] at hlength
  omega

/-- The loop, with the exchanges that it has not seen yet. -/
theorem keepPairs_longest {exchanges : List (ChatTurn × ChatTurn)} {kept : List ChatTurn}
    (hexchanges : ∀ exchange ∈ exchanges, isExchange exchange.1 exchange.2 = true)
    (hpairs : completePairs kept = true) (hcount : kept.length ≤ 20)
    (htotal : totalChars kept ≤ 30000) :
    LongestWindow (turnsOf exchanges ++ kept) (keepPairs kept (turnsOf exchanges).reverse) := by
  induction exchanges using List.reverseRecOn generalizing kept with
  | nil =>
    refine ⟨⟨List.suffix_rfl, hpairs, hcount, htotal⟩, fun other hother => ?_⟩
    exact hother.ending.length_le
  | append_singleton exchanges exchange ih =>
    obtain ⟨ask, reply⟩ := exchange
    have hturns : turnsOf (exchanges ++ [(ask, reply)]) = turnsOf exchanges ++ [ask, reply] := by
      rw [turnsOf, List.flatMap_append]
      rfl
    have hexchange := hexchanges (ask, reply) (List.mem_append_right _ List.mem_cons_self)
    have hearlier : ∀ exchange ∈ exchanges, isExchange exchange.1 exchange.2 = true :=
      fun exchange h => hexchanges exchange (List.mem_append_left _ h)
    rw [hturns, List.reverse_append, List.append_assoc]
    show LongestWindow (turnsOf exchanges ++ ask :: reply :: kept)
      (keepPairs kept (reply :: ask :: (turnsOf exchanges).reverse))
    rw [keepPairs]
    split
    · next hroom =>
      -- the exchange fits, and the loop goes on before it
      obtain ⟨hask, hreply⟩ := roles_of_isExchange hexchange
      apply ih hearlier
      · rw [completePairs_cons hask hreply, hpairs]
      · have := completePairs_even hpairs
        show kept.length + 1 + 1 ≤ 20
        omega
      · show ask.content.length + (reply.content.length + totalChars kept) ≤ 30000
        omega
    · next hroom =>
      have hstop : 20 ≤ kept.length ∨
          30000 < totalChars kept + reply.content.length + ask.content.length := by
        by_contra h
        rw [not_or, not_le, not_lt] at h
        exact hroom ⟨h.1, hexchange, h.2⟩
      refine ⟨⟨⟨turnsOf exchanges ++ [ask, reply], ?_⟩, hpairs, hcount, htotal⟩, ?_⟩
      · rw [List.append_assoc]
        rfl
      · exact fun other hother => hother.length_le hpairs hstop

/-- The import of an accepted transcript. -/
theorem keepPairs_reverse {turns : List ChatTurn} (hturns : acceptableTurns 0 turns = true)
    (heven : turns.length % 2 = 0) : LongestWindow turns (keepPairs [] turns.reverse) := by
  obtain ⟨exchanges, rfl, hexchanges⟩ := exists_exchanges rfl hturns heven
  have h := @keepPairs_longest _ [] hexchanges rfl (Nat.zero_le 20) (Nat.zero_le 30000)
  rwa [List.append_nil] at h

theorem completePairs_turnsOf {exchanges : List (ChatTurn × ChatTurn)}
    (h : ∀ exchange ∈ exchanges, isExchange exchange.1 exchange.2 = true) :
    completePairs (turnsOf exchanges) = true := by
  induction exchanges with
  | nil => rfl
  | cons exchange exchanges ih =>
    obtain ⟨hask, hreply⟩ := roles_of_isExchange (h exchange List.mem_cons_self)
    have hrest := ih fun exchange hmem => h exchange (List.mem_cons_of_mem _ hmem)
    show completePairs (exchange.1 :: exchange.2 :: turnsOf exchanges) = true
    rw [completePairs_cons hask hreply, hrest]

/-- A transcript that fits is kept whole. -/
theorem LongestWindow.eq_self {turns kept : List ChatTurn}
    (hturns : acceptableTurns 0 turns = true) (heven : turns.length % 2 = 0)
    (hcount : turns.length ≤ 20) (htotal : totalChars turns ≤ 30000)
    (h : LongestWindow turns kept) : kept = turns := by
  obtain ⟨exchanges, rfl, hexchanges⟩ := exists_exchanges rfl hturns heven
  have hwhole : Window (turnsOf exchanges) (turnsOf exchanges) :=
    ⟨List.suffix_rfl, completePairs_turnsOf hexchanges, hcount, htotal⟩
  exact h.1.ending.eq_of_length_le (h.2 _ hwhole)

/-! ### The exported document, read back -/

/-- A turn as it comes back. -/
def ChatTurn.repaired (turn : ChatTurn) : ChatTurn := ⟨turn.role, repair turn.content⟩

theorem ChatTurn.repaired_eq_self {turn : ChatTurn} (h : Utf16.wellFormed turn.content = true) :
    turn.repaired = turn := by
  rw [ChatTurn.repaired, repair_eq_self h]

theorem isBlank_repair (t : Text) : isBlank (repair t) = isBlank t := by
  apply all_repair
  · intro c hc
    by_contra hspace
    obtain ⟨hhigh, hlow⟩ := not_surrogate_of_isWhiteSpace (Bool.not_eq_false _ ▸ hspace)
    rw [isSurrogate, hhigh, hlow] at hc
    exact Bool.false_ne_true hc
  · rfl

theorem totalChars_repaired (turns : List ChatTurn) :
    totalChars (turns.map ChatTurn.repaired) = totalChars turns := by
  rw [totalChars, totalChars, List.map_map]
  congr 2
  funext turn
  exact length_repair turn.content

theorem isExchange_repaired (ask reply : ChatTurn) :
    isExchange ask.repaired reply.repaired = isExchange ask reply := by
  simp only [isExchange, ChatTurn.repaired, isBlank_repair, length_repair]
  rfl

/-- What is kept does not depend on surrogates. -/
theorem keepPairs_repaired (kept turns : List ChatTurn) :
    keepPairs (kept.map ChatTurn.repaired) (turns.map ChatTurn.repaired) =
      (keepPairs kept turns).map ChatTurn.repaired := by
  fun_induction keepPairs kept turns with
  | case1 kept reply ask earlier hroom ih =>
    rw [List.map_cons, List.map_cons, keepPairs, if_pos]
    · exact ih
    · rw [List.length_map, isExchange_repaired, totalChars_repaired]
      simpa only [ChatTurn.repaired, length_repair] using hroom
  | case2 kept reply ask earlier hroom =>
    rw [List.map_cons, List.map_cons, keepPairs, if_neg]
    rw [List.length_map, isExchange_repaired, totalChars_repaired]
    simpa only [ChatTurn.repaired, length_repair] using hroom
  | case3 turns kept hshort =>
    rcases turns with - | ⟨turn, - | ⟨ask, earlier⟩⟩
    · rfl
    · rfl
    · exact absurd rfl (hshort turn ask earlier)

theorem getString_eq_ok {t : Text} (h : wellFormed t = true) : getString t = .ok t := if_pos h

/-- The roles of a transcript. -/
def Roles (turns : List ChatTurn) : Prop :=
  ∀ turn ∈ turns, turn.role = ascii "user" ∨ turn.role = ascii "assistant"

theorem roles_of_acceptableTurns {turns : List ChatTurn} {i : Nat}
    (h : acceptableTurns i turns = true) : Roles turns := by
  induction turns generalizing i with
  | nil => exact fun turn hmem => absurd hmem List.not_mem_nil
  | cons turn turns ih =>
    obtain ⟨hturn, hturns⟩ := Bool.and_eq_true_iff.mp h
    rintro turn' (_ | ⟨_, hmem⟩)
    · simp only [acceptableTurn, Bool.and_eq_true, decide_eq_true_eq] at hturn
      rw [hturn.1.1, roleAt]
      split
      · exact .inl rfl
      · exact .inr rfl
    · exact ih hturns turn' hmem

theorem wellFormed_role {role : Text} (h : role = ascii "user" ∨ role = ascii "assistant") :
    wellFormed role = true ∧ role.length ≤ 9 := by
  rcases h with rfl | rfl
  · exact ⟨rfl, by decide⟩
  · exact ⟨rfl, by decide⟩

theorem repair_message {turn : ChatTurn} (h : wellFormed turn.role = true) :
    (message turn).repair = message turn.repaired := by
  show JsonElement.object [(ascii "role", .string (repair turn.role)),
    (ascii "content", .string (repair turn.content))] = message turn.repaired
  rw [repair_eq_self h]
  rfl

theorem repair_messages {turns : List ChatTurn} (h : Roles turns) :
    JsonElement.repairElements (turns.map message) =
      (turns.map ChatTurn.repaired).map message := by
  induction turns with
  | nil => rfl
  | cons turn turns ih =>
    show (message turn).repair :: JsonElement.repairElements (turns.map message) = _
    rw [repair_message (wellFormed_role (h turn List.mem_cons_self)).1,
      ih fun turn hmem => h turn (List.mem_cons_of_mem _ hmem)]
    rfl

theorem repair_exportDocument {turns : List ChatTurn} (h : Roles turns)
    (exportedAt title systemPrompt : Text) (modelId : Option Text) (now : UtcTime)
    (pinned archived : Bool) :
    (exportDocument exportedAt
        (exportSource title turns modelId systemPrompt now pinned archived)).repair =
      exportDocument (repair exportedAt)
        (exportSource (repair title) (turns.map ChatTurn.repaired) (modelId.map repair)
          (repair systemPrompt) now pinned archived) := by
  simp only [exportSource, ← repair_messages h]
  cases modelId <;> rfl

theorem importTurns_messages {turns : List ChatTurn} (hroles : Roles turns)
    (hformed : ∀ turn ∈ turns, wellFormed turn.content = true) :
    importTurns (turns.map message) = .ok turns := by
  induction turns with
  | nil => rfl
  | cons turn turns ih =>
    have hrole := hroles turn List.mem_cons_self
    have hturn : importTurn (message turn) = .ok turn := by
      show (do
        let role ← getString turn.role
        if role ≠ ascii "user" ∧ role ≠ ascii "assistant" then .error .message
        else (getString turn.content).map (ChatTurn.mk role)) = .ok turn
      rw [getString_eq_ok (wellFormed_role hrole).1,
        getString_eq_ok (hformed turn List.mem_cons_self)]
      exact if_neg fun h => hrole.elim h.1 h.2
    have hturns := ih (fun turn hmem => hroles turn (List.mem_cons_of_mem _ hmem))
      fun turn hmem => hformed turn (List.mem_cons_of_mem _ hmem)
    rw [List.map_cons, importTurns, hturn, hturns]
    rfl

theorem importText_string {source : List (Text × JsonElement)} {name : String} {limit : Nat}
    {value : Text} (hproperty : JsonElement.property (ascii name) source = some (.string value))
    (hformed : wellFormed value = true) :
    importText source name limit = .ok (some (value.take limit)) := by
  rw [importText, hproperty]
  show (getString value).map _ = _
  rw [getString_eq_ok hformed]
  rfl

/-- The import of an exported document whose texts are well formed. -/
theorem importDocument_export {turns : List ChatTurn} (hroles : Roles turns)
    (hformed : ∀ turn ∈ turns, wellFormed turn.content = true) (hcount : turns.length ≤ 2000)
    (hkept : keepPairs [] turns.reverse ≠ []) {title modelId systemPrompt : Text}
    (htitle : wellFormed title = true) (hmodel : wellFormed modelId = true)
    (hprompt : wellFormed systemPrompt = true) (exportedAt : Text) (now : UtcTime)
    (pinned archived : Bool) :
    importDocument (exportDocument exportedAt
        (exportSource title turns (some modelId) systemPrompt now pinned archived)) =
      .ok {
        title := (safeTitle (title.take 120)).take 80
        modelId := unlessBlank (some (trim (modelId.take 512)))
        systemPrompt := unlessBlank (some (systemPrompt.take maximumSystemPromptChars))
        turns := keepPairs [] turns.reverse
        sourceMessages := turns.length
        pinned := pinned
        archived := archived } := by
  have hconversation : conversationOf (exportDocument exportedAt
      (exportSource title turns (some modelId) systemPrompt now pinned archived)) =
      some (exportSource title turns (some modelId) systemPrompt now pinned archived,
        turns.map message) := rfl
  have hmessages : ¬ 2000 < (turns.map message).length := by
    rw [List.length_map]
    omega
  rw [importDocument, hconversation]
  dsimp only
  rw [if_neg hmessages, importTurns_messages hroles hformed]
  show (if keepPairs [] turns.reverse = [] then _ else _) = _
  rw [if_neg hkept, importText_string rfl hmodel, importText_string rfl hprompt,
    importText_string rfl htitle]
  rfl

/-! ### The size of an export -/

@[simp] theorem length_padded (places n : Nat) : (padded places n).length = places := by
  induction places generalizing n with
  | zero => rfl
  | succ places ih => rw [padded, List.length_append, ih, List.length_singleton]

theorem UtcTime.length_text (time : UtcTime) : time.text.length = 24 := by
  simp only [UtcTime.text, List.length_append, length_padded]
  rfl

theorem UtcTime.log_le (time : UtcTime) : Nat.log 10 time.milliseconds.natAbs ≤ 14 := by
  have hrange := time.range
  apply Nat.le_of_lt_succ
  apply Nat.log_lt_of_lt_pow' (by decide)
  omega

theorem length_ascii (s : String) : (ascii s).length = s.toList.length :=
  List.length_map ..

theorem length_safeTitle (title : Text) : (safeTitle title).length ≤ 120 := by
  rw [safeTitle]
  split
  · decide
  · exact (List.length_take_le _ _)

theorem units_messages {turns : List ChatTurn} (hroles : Roles turns) :
    JsonElement.unitsElements (turns.map message) ≤ totalChars turns + 20 * turns.length := by
  induction turns with
  | nil => exact Nat.le_refl 0
  | cons turn turns ih =>
    have hrole := (wellFormed_role (hroles turn List.mem_cons_self)).2
    have hrest := ih fun turn hmem => hroles turn (List.mem_cons_of_mem _ hmem)
    show 4 + turn.role.length + (7 + turn.content.length + 0) +
      JsonElement.unitsElements (turns.map message) ≤
        turn.content.length + totalChars turns + 20 * (turns.length + 1)
    omega

theorem nodes_messages (turns : List ChatTurn) :
    JsonElement.nodesElements (turns.map message) = 3 * turns.length := by
  induction turns with
  | nil => rfl
  | cons turn turns ih =>
    show 1 + (1 + 0) + 1 + JsonElement.nodesElements (turns.map message) = 3 * (turns.length + 1)
    rw [ih]
    omega

theorem depth_messages (turns : List ChatTurn) :
    JsonElement.depthElements (turns.map message) ≤ 1 := by
  induction turns with
  | nil => exact Nat.zero_le 1
  | cons turn turns ih =>
    show max 1 (JsonElement.depthElements (turns.map message)) ≤ 1
    omega

theorem depth_exportDocument (turns : List ChatTurn) (exportedAt title modelId systemPrompt : Text)
    (now : UtcTime) (pinned archived : Bool) :
    (exportDocument exportedAt
      (exportSource title turns (some modelId) systemPrompt now pinned archived)).depth ≤ 16 := by
  have hmessages : JsonElement.depthElements (turns.map message) ≤ 1 := depth_messages turns
  simp only [exportDocument, exportSource, JsonElement.depth, JsonElement.depthProperties]
  omega

/-- An export is far smaller than what can be imported. -/
theorem size_exportDocument {turns : List ChatTurn} (hroles : Roles turns)
    (hcount : turns.length ≤ 20) (htotal : totalChars turns ≤ 40000)
    {exportedAt title modelId systemPrompt : Text} (hexported : exportedAt.length = 24)
    (htitle : title.length ≤ 120) (hmodel : modelId.length ≤ 512)
    (hprompt : systemPrompt.length ≤ maximumSystemPromptChars) (now : UtcTime)
    (pinned archived : Bool) :
    let document := exportDocument exportedAt
      (exportSource title turns (some modelId) systemPrompt now pinned archived)
    6 * document.units + 128 * document.nodes ≤ maximumImportBytes := by
  intro document
  have hunits : document.units = 157 + (exportedAt.length + (title.length +
      (2 * Nat.log 10 now.milliseconds.natAbs + (modelId.length + (systemPrompt.length +
        JsonElement.unitsElements (turns.map message)))))) := by
    simp only [document, exportDocument, exportSource, JsonElement.units,
      JsonElement.unitsProperties, exportFormat, length_ascii, Int.natAbs_one, Nat.log_one_right]
    simp +arith
  have hnodes : document.nodes = 14 + JsonElement.nodesElements (turns.map message) := by
    simp only [document, exportDocument, exportSource, JsonElement.nodes,
      JsonElement.nodesProperties]
    omega
  have hmessages := units_messages hroles
  have hlog := now.log_le
  rw [nodes_messages] at hnodes
  rw [maximumSystemPromptChars] at hprompt
  rw [maximumImportBytes]
  omega

/-! ### Main result -/

theorem LongestWindow.ne_nil {turns kept : List ChatTurn} (hcount : 2 ≤ turns.length)
    (heven : turns.length % 2 = 0) (hturns : acceptableTurns 0 turns = true)
    (h : LongestWindow turns kept) : kept ≠ [] := by
  obtain ⟨exchanges, rfl, hexchanges⟩ := exists_exchanges rfl hturns heven
  induction exchanges using List.reverseRecOn with
  | nil => cases hcount
  | append_singleton exchanges exchange ih =>
    -- the last exchange fits by itself
    have hlast := hexchanges exchange (List.mem_append_right _ List.mem_cons_self)
    have hpairs : completePairs (turnsOf [exchange]) = true :=
      completePairs_turnsOf fun other hother => List.mem_singleton.mp hother ▸ hlast
    have hending : [exchange.1, exchange.2] <:+ turnsOf (exchanges ++ [exchange]) := by
      rw [turnsOf, List.flatMap_append]
      exact List.suffix_append _ _
    have htotal : totalChars [exchange.1, exchange.2] ≤ 30000 := by
      simp only [isExchange, Bool.and_eq_true, decide_eq_true_eq] at hlast
      show exchange.1.content.length + (exchange.2.content.length + 0) ≤ 30000
      omega
    rintro rfl
    have hlength : 2 ≤ 0 := h.2 _ ⟨hending, hpairs, (show 2 ≤ 20 by decide), htotal⟩
    exact absurd hlength (by decide)

theorem isBlank_trim {t : Text} (h : isBlank t = false) : isBlank (trim t) = false := by
  obtain ⟨c, hmem, hc⟩ := List.all_eq_false.mp h
  apply List.all_eq_false.mpr
  exact ⟨c, Text.mem_strip hmem (Bool.not_eq_true _ ▸ hc), hc⟩

theorem unlessBlank_some {t : Text} (h : isBlank t = false) : unlessBlank (some t) = some t := by
  rw [unlessBlank, Option.filter_some, if_pos]
  rw [h]
  rfl

theorem unlessBlank_repair (t : Option Text) :
    unlessBlank (t.map repair) = (unlessBlank t).map repair := by
  rcases t with - | t
  · rfl
  · rw [unlessBlank, unlessBlank, Option.map_some, Option.filter_some, Option.filter_some,
      isBlank_repair]
    split <;> rfl

/-- A missing prompt is written as an empty one, which comes back as a missing one. -/
theorem unlessBlank_getD (t : Option Text) :
    unlessBlank (some (repair (t.getD []))) = (unlessBlank t).map repair := by
  rw [← unlessBlank_repair]
  cases t <;> rfl

theorem roles_repaired {turns : List ChatTurn} (h : Roles turns) :
    Roles (turns.map ChatTurn.repaired) := by
  intro turn hmem
  obtain ⟨original, horiginal, rfl⟩ := List.mem_map.mp hmem
  exact h original horiginal

theorem limits_of_create {id modelId : Text} {turns : List ChatTurn} {created : ℕ+}
    {chat : SavedChat} (h : create id modelId turns created = .ok chat) :
    (isBlank modelId = false ∧ modelId.length ≤ 512) ∧
      (2 ≤ turns.length ∧ turns.length ≤ 20 ∧ turns.length % 2 = 0) ∧
      totalChars turns ≤ 40000 ∧ acceptableTurns 0 turns = true := by
  obtain ⟨-, -, hturns, hvalid⟩ := of_create h
  have hchat := hvalid (ascii "t") false false ⟨rfl, rfl, by decide⟩
  exact ⟨hchat.model, hchat.count, hchat.size, hturns⟩

/-- **Export and import**, for whatever `Create` accepts.  The texts come back as the encoder
writes them, and well-formed texts as they are. -/
theorem importJson_exportJson {β : Type*} (codec : JsonCodec β) {id modelId : Text}
    {turns : List ChatTurn} {created : ℕ+} {chat : SavedChat}
    (hcreate : create id modelId turns created = .ok chat) (title : Text)
    {systemPrompt : Option Text}
    (hprompt : ∀ prompt, systemPrompt = some prompt → prompt.length ≤ maximumSystemPromptChars)
    (now : UtcTime) (pinned archived : Bool) :
    ∃ imported window,
      importJson codec
        (exportJson codec title turns (some modelId) systemPrompt now pinned archived) =
          .ok imported ∧
      LongestWindow turns window ∧ (totalChars turns ≤ 30000 → window = turns) ∧
      imported.turns = window.map ChatTurn.repaired ∧
      imported.sourceMessages = turns.length ∧
      imported.modelId = some (trim (repair modelId)) ∧
      imported.systemPrompt = (unlessBlank systemPrompt).map repair ∧
      imported.pinned = pinned ∧ imported.archived = archived ∧
      ((∀ turn ∈ turns, wellFormed turn.content = true) → imported.turns = window) ∧
      (wellFormed modelId = true → imported.modelId = some (trim modelId)) ∧
      ((∀ prompt, systemPrompt = some prompt → wellFormed prompt = true) →
        imported.systemPrompt = unlessBlank systemPrompt) := by
  obtain ⟨⟨hmodel, hmodelLength⟩, ⟨htwo, htwenty, heven⟩, htotal, hturns⟩ :=
    limits_of_create hcreate
  have hroles := roles_of_acceptableTurns hturns
  have hwindow := keepPairs_reverse hturns heven
  have hne := hwindow.ne_nil htwo heven hturns
  have hprompts : (systemPrompt.getD []).length ≤ maximumSystemPromptChars := by
    rcases systemPrompt with - | prompt
    · exact Nat.zero_le _
    · exact hprompt prompt rfl
  -- the file is read
  have hdepth := depth_exportDocument turns now.text (safeTitle title) modelId
    (systemPrompt.getD []) now pinned archived
  have hsize := codec.size_text _ hdepth
  have hbound := size_exportDocument hroles htwenty htotal now.length_text
    (length_safeTitle title) hmodelLength hprompts now pinned archived
  have hexport : exportJson codec title turns (some modelId) systemPrompt now pinned archived =
      codec.text (exportDocument now.text (exportSource (safeTitle title) turns (some modelId)
        (systemPrompt.getD []) now pinned archived)) := by
    rw [exportJson, unlessBlank_some hmodel]
  have hread : importJson codec
      (exportJson codec title turns (some modelId) systemPrompt now pinned archived) =
      importDocument (exportDocument (repair now.text) (exportSource (repair (safeTitle title))
        (turns.map ChatTurn.repaired) (some (repair modelId)) (repair (systemPrompt.getD []))
        now pinned archived)) := by
    rw [hexport, importJson, if_neg (not_not.mpr ⟨hsize.1, le_trans hsize.2 hbound⟩),
      codec.round_trip _ hdepth, repair_exportDocument hroles]
    rfl
  -- and its texts are well formed
  have hkept : keepPairs [] (turns.map ChatTurn.repaired).reverse =
      (keepPairs [] turns.reverse).map ChatTurn.repaired := by
    rw [← List.map_reverse]
    exact keepPairs_repaired [] turns.reverse
  have himport := importDocument_export (roles_repaired hroles)
    (fun turn hmem => by
      obtain ⟨original, -, rfl⟩ := List.mem_map.mp hmem
      exact wellFormed_repair original.content)
    (by rw [List.length_map]; omega) (by rw [hkept]; simpa using hne)
    (wellFormed_repair (safeTitle title)) (wellFormed_repair modelId)
    (wellFormed_repair (systemPrompt.getD [])) (repair now.text) now pinned archived
  have hmodelTake : (repair modelId).take 512 = repair modelId :=
    List.take_of_length_le (by rwa [length_repair])
  have hpromptTake : (repair (systemPrompt.getD [])).take maximumSystemPromptChars =
      repair (systemPrompt.getD []) :=
    List.take_of_length_le (by rwa [length_repair])
  rw [hkept, List.length_map, hmodelTake, hpromptTake, unlessBlank_getD,
    unlessBlank_some (isBlank_trim (by rwa [isBlank_repair]))] at himport
  refine ⟨_, keepPairs [] turns.reverse, hread.trans himport, hwindow,
    fun h => hwindow.eq_self hturns heven htwenty h, rfl, rfl, rfl, rfl, rfl, rfl, ?_, ?_, ?_⟩
  · intro hformed
    show (keepPairs [] turns.reverse).map ChatTurn.repaired = keepPairs [] turns.reverse
    calc (keepPairs [] turns.reverse).map ChatTurn.repaired
        = (keepPairs [] turns.reverse).map fun turn => turn :=
          List.map_congr_left fun turn hmem =>
            ChatTurn.repaired_eq_self (hformed turn (hwindow.1.ending.subset hmem))
      _ = keepPairs [] turns.reverse := List.map_id' _
  · intro hformed
    show some (trim (repair modelId)) = some (trim modelId)
    rw [repair_eq_self hformed]
  · intro hformed
    show (unlessBlank systemPrompt).map repair = unlessBlank systemPrompt
    rw [← unlessBlank_repair]
    rcases systemPrompt with - | prompt
    · rfl
    · rw [Option.map_some, repair_eq_self (hformed prompt rfl)]

/-! ### What an import opens -/

/-- Turns that the native transcript can hold. -/
structure Importable (turns : List ChatTurn) : Prop where
  pairs : completePairs turns = true
  count : turns.length ≤ 20
  total : totalChars turns ≤ 30000
  contents : ∀ turn ∈ turns, isBlank turn.content = false ∧ turn.content.length ≤ 8000

theorem keepPairs_importable {kept turns : List ChatTurn} (h : Importable kept) :
    Importable (keepPairs kept turns) := by
  fun_induction keepPairs kept turns with
  | case1 kept reply ask earlier hroom ih =>
    obtain ⟨hcount, hexchange, htotal⟩ := hroom
    obtain ⟨hask, hreply⟩ := roles_of_isExchange hexchange
    have heven := completePairs_even h.pairs
    apply ih
    refine ⟨by rw [completePairs_cons hask hreply, h.pairs], ?_, ?_, ?_⟩
    · show kept.length + 1 + 1 ≤ 20
      omega
    · show ask.content.length + (reply.content.length + totalChars kept) ≤ 30000
      omega
    · simp only [isExchange, Bool.and_eq_true, Bool.not_eq_true', decide_eq_true_eq] at hexchange
      rintro turn (_ | ⟨_, _ | ⟨_, hmem⟩⟩)
      · exact ⟨hexchange.1.1.2, hexchange.2⟩
      · exact ⟨hexchange.1.1.1.2, hexchange.1.2⟩
      · exact h.contents turn hmem
  | case2 kept reply ask earlier hroom => exact h
  | case3 turns kept hshort => exact h

theorem Importable.nil : Importable [] where
  pairs := rfl
  count := Nat.zero_le 20
  total := Nat.zero_le 30000
  contents := fun _ hmem => absurd hmem List.not_mem_nil

theorem length_importText {source : List (Text × JsonElement)} {name : String} {limit : Nat}
    {text : Text} (h : importText source name limit = .ok (some text)) : text.length ≤ limit := by
  rw [importText] at h
  split at h
  · cases h
  · cases h
  · next value _ =>
    rw [getString] at h
    split at h
    · obtain rfl := Option.some.inj (Except.ok.inj h)
      exact List.length_take_le limit value
    · cases h
  · cases h

theorem of_unlessBlank {t : Option Text} {text : Text} (h : unlessBlank t = some text) :
    t = some text ∧ isBlank text = false := by
  obtain ⟨ht, hblank⟩ := Option.filter_eq_some_iff.mp h
  exact ⟨ht, by simpa using hblank⟩

theorem importDocument_importable {document : JsonElement} {imported : ImportedChat}
    (h : importDocument document = .ok imported) :
    Importable imported.turns ∧ imported.turns ≠ [] ∧
      ∀ modelId, imported.modelId = some modelId → isBlank modelId = false ∧
        modelId.length ≤ 512 := by
  rw [importDocument] at h
  split at h
  · cases h
  · next source messages _ =>
    split at h
    · cases h
    · rcases hturns : importTurns messages with e | turns
      · rw [hturns] at h
        cases h
      · rw [hturns] at h
        change (if keepPairs [] turns.reverse = [] then _ else _) = _ at h
        split at h
        · cases h
        · next hkept =>
          rcases hmodel : importText source "model_id" 512 with e | model
          · rw [hmodel] at h
            cases h
          · rcases hsystem : importText source "system_prompt" maximumSystemPromptChars
              with e | system
            · rw [hmodel, hsystem] at h
              cases h
            · rcases htitle : importText source "title" 120 with e | title
              · rw [hmodel, hsystem, htitle] at h
                cases h
              · rw [hmodel, hsystem, htitle] at h
                obtain rfl := Except.ok.inj h
                refine ⟨keepPairs_importable Importable.nil, hkept, fun modelId hid => ?_⟩
                obtain ⟨htrim, hblank⟩ := of_unlessBlank hid
                obtain ⟨text, rfl, rfl⟩ := Option.map_eq_some_iff.mp htrim
                have hlength := length_importText hmodel
                have hstrip := (Text.strip_isInfix isWhiteSpace text).length_le
                exact ⟨hblank, le_trans hstrip hlength⟩

theorem importJson_importable {β : Type*} {codec : JsonCodec β} {bytes : β}
    {imported : ImportedChat} (h : importJson codec bytes = .ok imported) :
    Importable imported.turns ∧ imported.turns ≠ [] ∧
      ∀ modelId, imported.modelId = some modelId → isBlank modelId = false ∧
        modelId.length ≤ 512 := by
  rw [importJson] at h
  split at h
  · cases h
  · split at h
    · cases h
    · exact importDocument_importable h

/-- A codec that keeps the document. -/
def documentCodec : JsonCodec JsonElement where
  text document := document
  parse document := some document.repair
  size document := 6 * document.units + 128 * document.nodes
  round_trip _ _ := rfl
  size_text document _ := by
    have hnodes : 1 ≤ document.nodes := by
      cases document <;> simp only [JsonElement.nodes] <;> omega
    omega

theorem importJson_exportJson_exchange :
    ∃ imported, importJson documentCodec (exportJson documentCodec (ascii "Trip")
        (exchange (ascii "hi")) (some (ascii "m ")) (some (ascii "Be brief.")) ⟨0, by decide⟩
        true false) = .ok imported ∧
      imported.turns = exchange (ascii "hi") ∧ imported.sourceMessages = 2 ∧
      imported.modelId = some (ascii "m") ∧ imported.systemPrompt = some (ascii "Be brief.") ∧
      imported.pinned = true ∧ imported.archived = false := by
  have hcreate : create firstId (ascii "m ") (exchange (ascii "hi")) 1 = .ok _ := rfl
  have hlimit : ∀ prompt, some (ascii "Be brief.") = some prompt →
      prompt.length ≤ maximumSystemPromptChars := by
    intro prompt h
    obtain rfl := Option.some.inj h
    decide
  obtain ⟨imported, window, himport, -, hwhole, hturns, hcount, hmodel, hprompt, hpinned,
    harchived, -⟩ := importJson_exportJson documentCodec hcreate (ascii "Trip") hlimit
      ⟨0, by decide⟩ true false
  rw [hwhole (by decide)] at hturns
  exact ⟨imported, himport, hturns, hcount, hmodel, hprompt, hpinned, harchived⟩

end InferBridge.NativeConversationStore
