/-
InferBridge/ConversationHistory.lean

The native conversation history
(windows-native/InferBridge.Native/NativeConversationStore.cs).

The file is absent or holds bytes.  The codec that turns conversations into
bytes and back is a parameter (`HistoryCodec`): it gives well-formed text
back, and everything it reads is well formed.  A read or a write that fails
leaves the file as it is, and so does every operation that throws.

The reader accepts a file as a whole or not at all, so each writer has to
stay within what it accepts (`SavedChat.Valid`).  `Create` makes the title
from the first turn and does not look for control characters there, and a
cut after 75 units may separate a surrogate pair (`titled`, `cutsPair`).  Main
result: `history_closed`, for every run whose operations avoid both.
-/
import InferBridge.Lib.Text
import InferBridge.Lib.Transition
import InferBridge.Lib.Utf16

namespace InferBridge.NativeConversationStore

open Utf16

/-! ### Text -/

/-- `char.IsWhiteSpace` -/
def isWhiteSpace (c : UInt16) : Bool :=
  let n := c.toNat
  (9 ≤ n ∧ n ≤ 13) ∨ n = 0x20 ∨ n = 0x85 ∨ n = 0xA0 ∨ n = 0x1680 ∨ (0x2000 ≤ n ∧ n ≤ 0x200A) ∨
    n = 0x2028 ∨ n = 0x2029 ∨ n = 0x202F ∨ n = 0x205F ∨ n = 0x3000

/-- `char.IsControl` -/
def isControlUnit (c : UInt16) : Bool := c.toNat ≤ 0x1F ∨ (0x7F ≤ c.toNat ∧ c.toNat ≤ 0x9F)

/-- ASCII text. -/
def ascii (s : String) : Text := s.toList.map fun c => UInt16.ofNat c.toNat

def isBlank (t : Text) : Bool := t.all isWhiteSpace

/-- The words of a text with single blanks between them. -/
def joinWords (t : Text) : Text :=
  [0x20].intercalate ((t.splitOnP isWhiteSpace).filter (· ≠ []))

/-- `char.IsAsciiHexDigit` -/
def isHexDigit (c : UInt16) : Bool :=
  (0x30 ≤ c.toNat ∧ c.toNat ≤ 0x39) ∨ (0x41 ≤ c.toNat ∧ c.toNat ≤ 0x46) ∨
    (0x61 ≤ c.toNat ∧ c.toNat ≤ 0x66)

/-- `Guid.TryParseExact(id, "N", out _)`: white space around the digits is ignored. -/
def isGuid (id : Text) : Bool :=
  let digits := Text.strip isWhiteSpace id
  digits.length = 32 && digits.all isHexDigit

/-! ### Conversations -/

structure ChatTurn where
  role : Text
  content : Text
deriving DecidableEq, Repr

/-- `UpdatedUtc` counts ticks; zero is the default value. -/
structure SavedChat where
  id : Text
  modelId : Text
  title : Text
  updatedUtc : Nat
  turns : List ChatTurn
  pinned : Bool
  archived : Bool
deriving DecidableEq, Repr

/-- A turn as it is deserialized, where anything may be missing. -/
structure RawTurn where
  role : Option Text
  content : Option Text
deriving DecidableEq, Repr

structure RawChat where
  id : Option Text
  modelId : Option Text
  title : Option Text
  updatedUtc : Nat
  turns : Option (List (Option RawTurn))
  pinned : Bool
  archived : Bool
deriving DecidableEq, Repr

structure Envelope where
  version : Int
  conversations : Option (List (Option RawChat))
deriving DecidableEq, Repr

def ChatTurn.raw (turn : ChatTurn) : RawTurn := ⟨some turn.role, some turn.content⟩

def SavedChat.raw (chat : SavedChat) : RawChat where
  id := some chat.id
  modelId := some chat.modelId
  title := some chat.title
  updatedUtc := chat.updatedUtc
  turns := some (chat.turns.map fun turn => some turn.raw)
  pinned := chat.pinned
  archived := chat.archived

def maximumFileBytes : Nat := 2 * 1024 * 1024

def maximumConversations : Nat := 40

/-- The role of the turn at a place. -/
def roleAt (i : Nat) : Text := if i % 2 = 0 then ascii "user" else ascii "assistant"

/-! ### Reading -/

/-- The checks of one turn, which the reader and `Create` share. -/
def acceptableTurn (i : Nat) (turn : ChatTurn) : Bool :=
  turn.role = roleAt i && !isBlank turn.content && turn.content.length ≤ 8000

/-- The turns from the place `i` on. -/
def acceptableTurns : Nat → List ChatTurn → Bool
  | _, [] => true
  | i, turn :: turns => acceptableTurn i turn && acceptableTurns (i + 1) turns

def readTurn (i : Nat) : Option RawTurn → Option ChatTurn
  | some ⟨some role, some content⟩ =>
    if acceptableTurn i ⟨role, content⟩ then some ⟨role, content⟩ else none
  | _ => none

def readTurns : Nat → List (Option RawTurn) → Option (List ChatTurn)
  | _, [] => some []
  | i, turn :: turns =>
    match readTurn i turn, readTurns (i + 1) turns with
    | some turn, some turns => some (turn :: turns)
    | _, _ => none

/-- `turn?.Content?.Length ?? 100000` -/
def contentLength : Option RawTurn → Nat
  | some ⟨_, some content⟩ => content.length
  | _ => 100000

/-- One conversation, behind those with the given ids. -/
def readChat (ids : List Text) : Option RawChat → Option SavedChat
  | some ⟨some id, some modelId, some title, updatedUtc, some turns, pinned, archived⟩ =>
    if isGuid id = false ∨ id ∈ ids ∨ isBlank modelId = true ∨ 512 < modelId.length ∨
        isBlank title = true ∨ title.any isControlUnit = true ∨
        ¬ (1 ≤ title.length ∧ title.length ≤ 80) ∨
        ¬ (2 ≤ turns.length ∧ turns.length ≤ 20) ∨ turns.length % 2 ≠ 0 ∨ updatedUtc = 0 ∨
        40000 < (turns.map contentLength).sum then none
    else (readTurns 0 turns).map fun turns =>
      ⟨id, modelId, title, updatedUtc, turns, pinned, archived⟩
  | _ => none

def readChats : List Text → List (Option RawChat) → Option (List SavedChat)
  | _, [] => some []
  | ids, chat :: chats =>
    match readChat ids chat with
    | none => none
    | some chat => (readChats (chat.id :: ids) chats).map (chat :: ·)

def readEnvelope (envelope : Envelope) : Option (List SavedChat) :=
  match envelope.conversations with
  | none => none
  | some chats =>
    if envelope.version ≠ 1 ∨ maximumConversations < chats.length then none
    else readChats [] chats

/-! ### The file -/

def ChatTurn.wellFormed (turn : ChatTurn) : Bool :=
  Utf16.wellFormed turn.role && Utf16.wellFormed turn.content

def SavedChat.wellFormed (chat : SavedChat) : Bool :=
  Utf16.wellFormed chat.id && Utf16.wellFormed chat.modelId && Utf16.wellFormed chat.title &&
    chat.turns.all ChatTurn.wellFormed

/-- What the serializer writes for a list of conversations. -/
def envelopeOf (chats : List SavedChat) : Envelope :=
  ⟨1, some (chats.map fun chat => some chat.raw)⟩

/-- `JsonSerializer` for `Envelope`. -/
structure HistoryCodec (β : Type*) where
  serialize : List SavedChat → β
  /-- `none` is a `JsonException` or a null -/
  deserialize : β → Option Envelope
  size : β → Nat
  size_pos : ∀ chats, 1 ≤ size (serialize chats)
  /-- well-formed text and dates are read back as they were written -/
  round_trip : ∀ chats, (∀ chat ∈ chats, chat.wellFormed = true) →
    deserialize (serialize chats) = some (envelopeOf chats)
  /-- no text that was read is ill formed -/
  read_wellFormed : ∀ bytes envelope chats, deserialize bytes = some envelope →
    readEnvelope envelope = some chats → ∀ chat ∈ chats, chat.wellFormed = true

inductive HistoryError where
  | argument
  | invalidData
  | io
  | historyFull
deriving DecidableEq, Repr

/-- Which accesses to the file fail. -/
structure HistoryFaults where
  read : Bool
  write : Bool
deriving DecidableEq, Repr

section
variable {β : Type*} (codec : HistoryCodec β)

def readAll (fails : Bool) : Option β → Except HistoryError (List SavedChat)
  | none => .ok []
  | some bytes =>
    if fails then .error .io
    else if ¬ (1 ≤ codec.size bytes ∧ codec.size bytes ≤ maximumFileBytes) then
      .error .invalidData
    else match codec.deserialize bytes with
      | none => .error .invalidData
      | some envelope =>
        match readEnvelope envelope with
        | none => .error .invalidData
        | some chats => .ok chats

/-- `Write`: the bytes that the file holds afterwards. -/
def write (fails : Bool) (chats : List SavedChat) : Except HistoryError β :=
  let bytes := codec.serialize chats
  if maximumFileBytes < codec.size bytes then .error .invalidData
  else if fails then .error .io
  else .ok bytes

end

/-! ### Writers -/

/-- The text that the title is made of. -/
def titleText (turns : List ChatTurn) : Text :=
  match turns with
  | [] => []
  | turn :: _ => joinWords turn.content

def createTitle (turns : List ChatTurn) : Text :=
  let title := titleText turns
  if 75 < title.length then title.take 75 ++ [0x2026] else title

def create (id modelId : Text) (turns : List ChatTurn) (now : ℕ+) :
    Except HistoryError SavedChat :=
  if isGuid id = false ∨ isBlank modelId = true ∨ 512 < modelId.length ∨
      ¬ (2 ≤ turns.length ∧ turns.length ≤ 20) ∨ turns.length % 2 ≠ 0 ∨
      40000 < (turns.map fun turn => turn.content.length).sum then .error .argument
  else if acceptableTurns 0 turns = false then .error .argument
  else .ok ⟨id, modelId, createTitle turns, now, turns, false, false⟩

/-- The loop of `Retain` over the conversations behind the first, from the last one on, with
the number of conversations that are too many. -/
def dropUnpinned (excess : Nat) : List SavedChat → List SavedChat × Nat
  | [] => ([], excess)
  | chat :: chats =>
    let (kept, excess) := dropUnpinned excess chats
    if 0 < excess ∧ chat.pinned = false then (kept, excess - 1) else (chat :: kept, excess)

/-- `Retain`, for the conversation `first` in front of the others. -/
def retain (first : SavedChat) (chats : List SavedChat) : Except HistoryError (List SavedChat) :=
  let (kept, excess) := dropUnpinned (chats.length + 1 - maximumConversations) chats
  if 0 < excess then .error .historyFull else .ok (first :: kept)

/-- What an operation wants to store: nothing, a list as it is, or a list after retention. -/
inductive Intent where
  | nothing
  | store (chats : List SavedChat)
  | insert (first : SavedChat) (chats : List SavedChat)
deriving DecidableEq, Repr

/-- Read, find a conversation and change it; `change` is `none` where nothing is to be done. -/
def changeChat (read : Except HistoryError (List SavedChat)) (id : Text)
    (change : SavedChat → Option SavedChat) : Except HistoryError Intent :=
  match read with
  | .error e => .error e
  | .ok chats =>
    match chats.find? fun row => row.id = id with
    | none => .ok .nothing
    | some chat =>
      match change chat with
      | none => .ok .nothing
      | some updated => .ok (.store (updated :: chats.eraseP fun row => row.id = id))

inductive HistoryOperation where
  /-- `Save(Create(id, modelId, turns))` -/
  | save (id modelId : Text) (turns : List ChatTurn) (now : ℕ+)
  | setPinned (id : Text) (pinned : Bool) (now : ℕ+)
  | setArchived (id : Text) (archived : Bool) (now : ℕ+)
  | rename (id title : Text) (now : ℕ+)
  | duplicate (id newId : Text) (now : ℕ+)
  | delete (id : Text)
deriving DecidableEq, Repr

/-- The conversation that `Save` puts in front. -/
def keepTitle (chat : SavedChat) (chats : List SavedChat) : SavedChat :=
  match chats.find? fun row => row.id = chat.id with
  | none => chat
  | some existing =>
    { chat with
      title := existing.title
      pinned := existing.pinned
      archived := existing.archived }

def copyTitle (title : Text) : Text :=
  (if 75 < title.length then title.take 75 else title) ++ ascii " copy"

def intent (read : Except HistoryError (List SavedChat)) :
    HistoryOperation → Except HistoryError Intent
  | .save id modelId turns now =>
    match create id modelId turns now with
    | .error e => .error e
    | .ok chat =>
      match read with
      | .error e => .error e
      | .ok chats =>
        .ok (.insert (keepTitle chat chats) (chats.filter fun row => row.id ≠ chat.id))
  | .setPinned id pinned now =>
    if isGuid id = false then .ok .nothing
    else changeChat read id fun chat =>
      if chat.pinned = pinned then none else some { chat with pinned, updatedUtc := now }
  | .setArchived id archived now =>
    if isGuid id = false then .ok .nothing
    else changeChat read id fun chat =>
      if chat.archived = archived then none else some { chat with archived, updatedUtc := now }
  | .rename id title now =>
    if isGuid id = false then .ok .nothing
    else
      let normalized := joinWords title
      if ¬ (1 ≤ normalized.length ∧ normalized.length ≤ 80) ∨ normalized.any isControlUnit = true then
        .error .argument
      else changeChat read id fun chat =>
        if chat.title = normalized then none
        else some { chat with title := normalized, updatedUtc := now }
  | .duplicate id newId now =>
    if isGuid id = false ∨ isGuid newId = false then .ok .nothing
    else match read with
      | .error e => .error e
      | .ok chats =>
        match chats.find? fun row => row.id = id with
        | none => .ok .nothing
        | some source =>
          if chats.any fun row => row.id = newId then .ok .nothing
          else .ok (.insert { source with
            id := newId
            title := copyTitle source.title
            updatedUtc := now
            pinned := false
            archived := false } chats)
  | .delete id =>
    if isGuid id = false then .ok .nothing
    else match read with
      | .error e => .error e
      | .ok chats =>
        if chats.countP (fun row => row.id = id) = 1 then
          .ok (.store (chats.filter fun row => row.id ≠ id))
        else .ok .nothing

/-- What is written for an intent. -/
def Intent.written : Intent → Except HistoryError (Option (List SavedChat))
  | .nothing => .ok none
  | .store chats => .ok (some chats)
  | .insert first chats =>
    match retain first chats with
    | .error e => .error e
    | .ok chats => .ok (some chats)

section
variable {β : Type*} (codec : HistoryCodec β)

/-- An operation: what it wrote, with the bytes, or what it throws. -/
def perform (file : Option β) (operation : HistoryOperation) (faults : HistoryFaults) :
    Except HistoryError (Option (List SavedChat × β)) :=
  match intent (readAll codec faults.read file) operation with
  | .error e => .error e
  | .ok intent =>
    match intent.written with
    | .error e => .error e
    | .ok none => .ok none
    | .ok (some chats) =>
      match write codec faults.write chats with
      | .error e => .error e
      | .ok bytes => .ok (some (chats, bytes))

/-- The file after an operation. -/
def historyStep (file : Option β) (event : HistoryOperation × HistoryFaults) :
    Option (Option β) :=
  match perform codec file event.1 event.2 with
  | .ok (some (_, bytes)) => some (some bytes)
  | _ => some file

end

/-! ### What the reader accepts -/

structure SavedChat.Valid (chat : SavedChat) : Prop where
  guid : isGuid chat.id = true
  model : isBlank chat.modelId = false ∧ chat.modelId.length ≤ 512
  title : isBlank chat.title = false ∧ chat.title.any isControlUnit = false ∧
    chat.title.length ≤ 80
  count : 2 ≤ chat.turns.length ∧ chat.turns.length ≤ 20 ∧ chat.turns.length % 2 = 0
  dated : chat.updatedUtc ≠ 0
  size : (chat.turns.map fun turn => turn.content.length).sum ≤ 40000
  turns : acceptableTurns 0 chat.turns = true

structure Accepted (chats : List SavedChat) : Prop where
  valid : ∀ chat ∈ chats, chat.Valid
  unique : (chats.map SavedChat.id).Nodup
  length : chats.length ≤ maximumConversations

theorem readTurns_raw {turns : List ChatTurn} {i : Nat} (h : acceptableTurns i turns = true) :
    readTurns i (turns.map fun turn => some turn.raw) = some turns := by
  induction turns generalizing i with
  | nil => rfl
  | cons turn turns ih =>
    obtain ⟨hturn, hturns⟩ := Bool.and_eq_true_iff.mp h
    have hread : readTurn i (some turn.raw) = some turn := by
      show (if acceptableTurn i turn = true then some turn else none) = some turn
      rw [if_pos hturn]
    rw [List.map_cons, readTurns, hread, ih hturns]

theorem of_readTurns {raws : List (Option RawTurn)} {turns : List ChatTurn} {i : Nat}
    (h : readTurns i raws = some turns) :
    acceptableTurns i turns = true ∧ raws = turns.map fun turn => some turn.raw := by
  induction raws generalizing i turns with
  | nil =>
    obtain rfl := Option.some.inj h
    exact ⟨rfl, rfl⟩
  | cons raw raws ih =>
    rw [readTurns] at h
    split at h
    · next turn rest hturn hrest =>
      obtain rfl := Option.some.inj h
      obtain ⟨haccept, hraws⟩ := ih hrest
      rcases raw with - | ⟨_ | role, _ | content⟩
      · cases hturn
      · cases hturn
      · cases hturn
      · cases hturn
      · rw [readTurn] at hturn
        split_ifs at hturn with hok
        obtain rfl := Option.some.inj hturn
        refine ⟨Bool.and_eq_true_iff.mpr ⟨hok, haccept⟩, ?_⟩
        rw [List.map_cons, ← hraws]
        rfl
    · cases h

theorem contentLength_raw (turns : List ChatTurn) :
    (turns.map fun turn => some turn.raw).map contentLength =
      turns.map fun turn => turn.content.length := by
  rw [List.map_map]
  rfl

theorem ne_nil_of_isBlank {t : Text} (h : isBlank t = false) : t ≠ [] := by
  rintro rfl
  cases h

theorem readChat_raw {ids : List Text} {chat : SavedChat} (h : chat.Valid) (hid : chat.id ∉ ids) :
    readChat ids (some chat.raw) = some chat := by
  obtain ⟨id, modelId, title, updatedUtc, turns, pinned, archived⟩ := chat
  have hlength := List.length_pos_iff.mpr (ne_nil_of_isBlank h.title.1)
  show (if _ then none else _) = _
  rw [if_neg, readTurns_raw h.turns]
  · rfl
  · rw [contentLength_raw, List.length_map]
    have hguid := h.guid
    have hmodel := h.model
    have htitle := h.title
    have hcount := h.count
    have hdated := h.dated
    have hsize := h.size
    simp only at hguid hmodel htitle hcount hdated hsize hid hlength
    simp only [hguid, hid, hmodel.1, htitle.1, htitle.2.1, Bool.true_eq_false,
      Bool.false_eq_true, false_or]
    omega

/-- A conversation that is read is the one in the file. -/
theorem of_readChat {ids : List Text} {raw : Option RawChat} {chat : SavedChat}
    (h : readChat ids raw = some chat) : chat.Valid ∧ chat.id ∉ ids ∧ raw = some chat.raw := by
  rw [readChat.eq_def] at h
  split at h
  · next id modelId title updatedUtc turns pinned archived =>
    split_ifs at h with hrefused
    obtain ⟨accepted, hread, rfl⟩ := Option.map_eq_some_iff.mp h
    obtain ⟨haccept, rfl⟩ := of_readTurns hread
    rw [contentLength_raw, List.length_map] at hrefused
    simp only [not_or, not_not, Bool.not_eq_false, Bool.not_eq_true, not_lt] at hrefused
    obtain ⟨hguid, hid, hmodel, hmodelLength, htitle, hcontrol, htitleLength, hturns, heven, hdated,
      hsize⟩ := hrefused
    exact ⟨⟨hguid, ⟨hmodel, hmodelLength⟩, ⟨htitle, hcontrol, htitleLength.2⟩,
      ⟨hturns.1, hturns.2, heven⟩, hdated, hsize, haccept⟩, hid, rfl⟩
  · cases h

theorem readChats_raw {ids : List Text} {chats : List SavedChat} (h : ∀ chat ∈ chats, chat.Valid)
    (hunique : (chats.map SavedChat.id).Nodup) (hids : ∀ chat ∈ chats, chat.id ∉ ids) :
    readChats ids (chats.map fun chat => some chat.raw) = some chats := by
  induction chats generalizing ids with
  | nil => rfl
  | cons chat chats ih =>
    obtain ⟨hnew, hunique⟩ := List.nodup_cons.mp hunique
    rw [List.map_cons, readChats,
      readChat_raw (h chat List.mem_cons_self) (hids chat List.mem_cons_self)]
    show (readChats (chat.id :: ids) _).map _ = _
    rw [ih (fun c hc => h c (List.mem_cons_of_mem chat hc)) hunique]
    · rfl
    · intro c hc hmem
      rcases List.mem_cons.mp hmem with heq | hmem
      · exact hnew (heq ▸ List.mem_map_of_mem hc)
      · exact hids c (List.mem_cons_of_mem chat hc) hmem

theorem of_readChats {ids : List Text} {raws : List (Option RawChat)} {chats : List SavedChat}
    (h : readChats ids raws = some chats) : (∀ chat ∈ chats, chat.Valid ∧ chat.id ∉ ids) ∧
      (chats.map SavedChat.id).Nodup ∧ raws = chats.map fun chat => some chat.raw := by
  induction raws generalizing ids chats with
  | nil =>
    obtain rfl := Option.some.inj h
    exact ⟨by simp, List.nodup_nil, rfl⟩
  | cons raw raws ih =>
    rw [readChats] at h
    split at h
    · cases h
    · next chat hchat =>
      obtain ⟨rest, hrest, rfl⟩ := Option.map_eq_some_iff.mp h
      obtain ⟨hvalid, hid, rfl⟩ := of_readChat hchat
      obtain ⟨hothers, hunique, rfl⟩ := ih hrest
      refine ⟨?_, ?_, rfl⟩
      · intro c hc
        rcases List.mem_cons.mp hc with rfl | hc
        · exact ⟨hvalid, hid⟩
        · exact ⟨(hothers c hc).1, fun hmem => (hothers c hc).2 (List.mem_cons_of_mem _ hmem)⟩
      · rw [List.map_cons, List.nodup_cons]
        refine ⟨?_, hunique⟩
        intro hmem
        obtain ⟨c, hc, heq⟩ := List.mem_map.mp hmem
        apply (hothers c hc).2
        rw [heq]
        exact List.mem_cons_self

theorem readEnvelope_envelopeOf {chats : List SavedChat} (h : Accepted chats) :
    readEnvelope (envelopeOf chats) = some chats := by
  show (if _ then none else readChats [] (chats.map fun chat : SavedChat => some chat.raw)) = _
  rw [readChats_raw h.valid h.unique (by simp), if_neg]
  rintro (hversion | hlength)
  · exact hversion rfl
  · rw [List.length_map] at hlength
    exact absurd h.length (not_le.mpr hlength)

theorem of_readEnvelope {envelope : Envelope} {chats : List SavedChat}
    (h : readEnvelope envelope = some chats) :
    Accepted chats ∧ envelope = envelopeOf chats := by
  obtain ⟨version, _ | raws⟩ := envelope
  · cases h
  · change (if _ then none else readChats [] raws) = _ at h
    split_ifs at h with hrefused
    obtain ⟨hvalid, hunique, rfl⟩ := of_readChats h
    simp only [not_or, not_not, not_lt] at hrefused
    rw [List.length_map] at hrefused
    obtain ⟨rfl, hlength⟩ := hrefused
    exact ⟨⟨fun chat hchat => (hvalid chat hchat).1, hunique, hlength⟩, rfl⟩

section
variable {β : Type*} {codec : HistoryCodec β} {file : Option β} {chats : List SavedChat}
  {fails : Bool}

theorem of_readAll (h : readAll codec fails file = .ok chats) :
    Accepted chats ∧ (∀ chat ∈ chats, chat.wellFormed = true) ∧
      readAll codec false file = .ok chats := by
  rcases file with - | bytes
  · obtain rfl := Except.ok.inj h
    exact ⟨⟨by simp, List.nodup_nil, by decide⟩, by simp, rfl⟩
  · rw [readAll] at h
    split_ifs at h with hfails hsize
    rcases hdecode : codec.deserialize bytes with - | envelope
    · rw [hdecode] at h
      cases h
    · rcases hread : readEnvelope envelope with - | rows
      · simp only [hdecode, hread] at h
        cases h
      · simp only [hdecode, hread] at h
        obtain rfl := Except.ok.inj h
        refine ⟨(of_readEnvelope hread).1, codec.read_wellFormed bytes envelope rows hdecode hread, ?_⟩
        rw [readAll, if_neg Bool.false_ne_true, if_neg (not_not.mpr hsize), hdecode]
        simp only [hread]

/-- What is written is read back, if the reader accepts it and its text is well formed. -/
theorem readAll_write {bytes : β} (haccepted : Accepted chats)
    (hwellFormed : ∀ chat ∈ chats, chat.wellFormed = true)
    (h : write codec fails chats = .ok bytes) : readAll codec false (some bytes) = .ok chats := by
  rw [write] at h
  split_ifs at h with hsize
  obtain rfl := Except.ok.inj h
  have hpos := codec.size_pos chats
  rw [readAll, if_neg Bool.false_ne_true, if_neg (by omega), codec.round_trip chats hwellFormed]
  simp only [readEnvelope_envelopeOf haccepted]

end

/-! ### Retention -/

/-- What retention may do to the conversations behind the first. -/
structure Retained (chats kept : List SavedChat) : Prop where
  sublist : kept.Sublist chats
  pinned : kept.filter (fun chat => chat.pinned) = chats.filter fun chat => chat.pinned
  /-- only the last of the unpinned ones are missing -/
  unpinned : kept.filter (fun chat => !chat.pinned) <+: chats.filter fun chat => !chat.pinned

theorem dropUnpinned_spec (excess : Nat) (chats : List SavedChat) :
    Retained chats (dropUnpinned excess chats).1 ∧
      (dropUnpinned excess chats).2 ≤ excess ∧
      (dropUnpinned excess chats).1.length + (excess - (dropUnpinned excess chats).2) =
        chats.length ∧
      (0 < (dropUnpinned excess chats).2 →
        (dropUnpinned excess chats).1.filter (fun chat => !chat.pinned) = []) := by
  induction chats with
  | nil => exact ⟨⟨List.Sublist.refl _, rfl, List.prefix_refl _⟩, le_rfl, by simp [dropUnpinned],
      fun _ => rfl⟩
  | cons chat chats ih =>
    rw [dropUnpinned]
    obtain ⟨hretained, hle, hlength, hnone⟩ := ih
    generalize dropUnpinned excess chats = dropped at hretained hle hlength hnone
    obtain ⟨kept, left⟩ := dropped
    simp only at hretained hle hlength hnone ⊢
    by_cases hdrop : 0 < left ∧ chat.pinned = false
    · rw [if_pos hdrop]
      have hempty := hnone hdrop.1
      refine ⟨⟨hretained.sublist.cons chat, ?_, ?_⟩, by omega, ?_, fun _ => hempty⟩
      · rw [List.filter_cons_of_neg (by simp [hdrop.2])]
        exact hretained.pinned
      · rw [hempty]
        exact List.nil_prefix
      · rw [List.length_cons]
        simp only
        omega
    · rw [if_neg hdrop]
      refine ⟨⟨hretained.sublist.cons_cons chat, ?_, ?_⟩, hle, ?_, ?_⟩
      · rw [List.filter_cons, List.filter_cons, hretained.pinned]
      · rw [List.filter_cons, List.filter_cons]
        split
        · exact List.cons_prefix_cons.mpr ⟨rfl, hretained.unpinned⟩
        · exact hretained.unpinned
      · rw [List.length_cons, List.length_cons]
        omega
      · intro hleft
        have hpinned : chat.pinned = true := by
          by_contra hunpinned
          exact hdrop ⟨hleft, by simpa using hunpinned⟩
        rw [List.filter_cons_of_neg (by simp [hpinned])]
        exact hnone hleft

theorem of_retain {first : SavedChat} {chats result : List SavedChat}
    (h : retain first chats = .ok result) : ∃ kept, result = first :: kept ∧ Retained chats kept ∧
      result.length ≤ maximumConversations ∧
      (chats.length < maximumConversations → kept = chats) := by
  obtain ⟨hretained, -, hlength, -⟩ :=
    dropUnpinned_spec (chats.length + 1 - maximumConversations) chats
  rw [retain] at h
  simp only at h
  split_ifs at h with hfull
  obtain rfl := Except.ok.inj h
  refine ⟨_, rfl, hretained, ?_, ?_⟩
  · rw [List.length_cons]
    omega
  · intro hfew
    apply hretained.sublist.eq_of_length
    omega

/-! ### Titles -/

theorem not_surrogate_of_isWhiteSpace {c : UInt16} (h : isWhiteSpace c = true) :
    isHigh c = false ∧ isLow c = false := by
  rw [isWhiteSpace, decide_eq_true_eq] at h
  rw [isHigh, isLow, decide_eq_false_iff_not, decide_eq_false_iff_not]
  omega

/-- The text of the words begins with a word. -/
theorem joinWords_head {t rest : Text} {c : UInt16} (h : joinWords t = c :: rest) :
    isWhiteSpace c = false := by
  rw [joinWords] at h
  rcases hwords : (t.splitOnP isWhiteSpace).filter (· ≠ []) with - | ⟨word, words⟩
  · rw [hwords] at h
    cases h
  · have hword : word ∈ (t.splitOnP isWhiteSpace).filter (· ≠ []) := by
      rw [hwords]
      exact List.mem_cons_self
    obtain ⟨hmem, hne⟩ := List.mem_filter.mp hword
    obtain ⟨d, word, rfl⟩ := List.exists_cons_of_ne_nil (by simpa using hne)
    have hhead : d = c := by
      rw [hwords] at h
      cases words with
      | nil => exact (List.cons.inj (by simpa using h)).1
      | cons next words =>
        rw [List.intercalate_cons_cons] at h
        exact (List.cons.inj h).1
    rw [← hhead]
    exact (Text.mem_splitOnP t).1 _ hmem d List.mem_cons_self

theorem joinWords_ne_nil {t : Text} (h : isBlank t = false) : joinWords t ≠ [] := by
  intro hnil
  rcases hwords : (t.splitOnP isWhiteSpace).filter (· ≠ []) with - | ⟨word, words⟩
  · rw [List.filter_eq_nil_iff] at hwords
    have hall := (Text.mem_splitOnP t).2 fun piece hpiece => by simpa using hwords piece hpiece
    have hblank : isBlank t = true := List.all_eq_true.mpr hall
    rw [hblank] at h
    cases h
  · have hword : word ∈ (t.splitOnP isWhiteSpace).filter (· ≠ []) := by
      rw [hwords]
      exact List.mem_cons_self
    have hne : word ≠ [] := by simpa using (List.mem_filter.mp hword).2
    rw [joinWords, hwords] at hnil
    cases words with
    | nil => exact hne (by simpa using hnil)
    | cons next words =>
      rw [List.intercalate_cons_cons] at hnil
      exact hne (List.append_eq_nil_iff.mp (List.append_eq_nil_iff.mp hnil).1).1

theorem wellFormed_joinWords {t : Text} (h : wellFormed t = true) :
    wellFormed (joinWords t) = true := by
  apply wellFormed_intercalate (by decide)
  intro word hword
  exact wellFormed_mem_splitOnP (fun c => not_surrogate_of_isWhiteSpace) h
    (List.mem_filter.mp hword).1

theorem isBlank_cons {c : UInt16} {t : Text} (h : isWhiteSpace c = false) :
    isBlank (c :: t) = false := by
  rw [isBlank, List.all_cons, h]
  rfl

theorem isBlank_append {t u : Text} (h : isBlank t = false) : isBlank (t ++ u) = false := by
  rw [isBlank, List.all_append, Bool.and_eq_false_iff]
  exact .inl h

/-- A cut after 75 units separates a surrogate pair. -/
def cutsPair (title : Text) : Bool := 75 < title.length && (title.take 75).getLast?.any isHigh

theorem wellFormed_cut {title : Text} (h : wellFormed title = true)
    (hcut : cutsPair title = false) : wellFormed (title.take 75) = true := by
  by_cases hlong : 75 < title.length
  · rw [wellFormed_take_iff h]
    intro c hc
    rw [cutsPair, hc] at hcut
    simpa [hlong] using hcut
  · rw [List.take_of_length_le (by omega)]
    exact h

/-- The first turn makes a title that the reader accepts. -/
def titled (turns : List ChatTurn) : Bool :=
  !((titleText turns).take 75).any isControlUnit && !cutsPair (titleText turns)

theorem createTitle_valid {turns : List ChatTurn} (hcount : 2 ≤ turns.length)
    (haccept : acceptableTurns 0 turns = true)
    (hwellFormed : turns.all ChatTurn.wellFormed = true) (htitled : titled turns = true) :
    (isBlank (createTitle turns) = false ∧ (createTitle turns).any isControlUnit = false ∧
      (createTitle turns).length ≤ 80) ∧ wellFormed (createTitle turns) = true := by
  rcases turns with - | ⟨turn, turns⟩
  · exact absurd hcount (by decide)
  have hblank : isBlank turn.content = false := by
    have hturn := (Bool.and_eq_true_iff.mp haccept).1
    simp only [acceptableTurn, Bool.and_eq_true, Bool.not_eq_true'] at hturn
    exact hturn.1.2
  have hformed : wellFormed (joinWords turn.content) = true := by
    apply wellFormed_joinWords
    have hturn : turn.wellFormed = true := (Bool.and_eq_true_iff.mp hwellFormed).1
    exact (Bool.and_eq_true_iff.mp hturn).2
  obtain ⟨c, rest, htext⟩ := List.exists_cons_of_ne_nil (joinWords_ne_nil hblank)
  have hc := joinWords_head htext
  simp only [titled, titleText, Bool.and_eq_true, Bool.not_eq_true'] at htitled
  have hfront : isBlank ((joinWords turn.content).take 75) = false := by
    rw [htext]
    exact isBlank_cons hc
  by_cases hlong : 75 < (joinWords turn.content).length
  · have htitle : createTitle (turn :: turns) = (joinWords turn.content).take 75 ++ [0x2026] :=
      if_pos hlong
    rw [htitle]
    refine ⟨⟨isBlank_append hfront, ?_, ?_⟩, ?_⟩
    · rw [List.any_append, htitled.1]
      decide
    · rw [List.length_append, List.length_take]
      simp only [List.length_cons, List.length_nil]
      omega
    · exact wellFormed_append (wellFormed_cut hformed htitled.2) (by decide)
  · have htitle : createTitle (turn :: turns) = joinWords turn.content := if_neg hlong
    rw [htitle]
    rw [List.take_of_length_le (by omega)] at htitled hfront
    exact ⟨⟨hfront, htitled.1, by omega⟩, hformed⟩

theorem renamed_valid {title : Text} (hlength : 1 ≤ (joinWords title).length) :
    isBlank (joinWords title) = false := by
  obtain ⟨c, rest, htext⟩ := List.exists_cons_of_length_pos hlength
  rw [htext]
  exact isBlank_cons (joinWords_head htext)

theorem copyTitle_valid {title : Text} (hcontrol : title.any isControlUnit = false) :
    isBlank (copyTitle title) = false ∧ (copyTitle title).any isControlUnit = false ∧
      (copyTitle title).length ≤ 80 := by
  have hcut : copyTitle title = title.take 75 ++ ascii " copy" := by
    rw [copyTitle]
    split_ifs with hlong
    · rfl
    · rw [List.take_of_length_le (by omega)]
  have hcopy : (ascii " copy").any isControlUnit = false := by decide
  rw [hcut]
  refine ⟨?_, ?_, ?_⟩
  · rw [isBlank, List.all_append, Bool.and_eq_false_iff]
    exact .inr (by decide)
  · rw [List.any_append, hcopy, Bool.or_false, List.any_eq_false]
    intro c hc
    exact List.any_eq_false.mp hcontrol c (List.mem_of_mem_take hc)
  · rw [List.length_append, List.length_take]
    show min 75 title.length + 5 ≤ 80
    omega

theorem wellFormed_copyTitle {title : Text} (h : wellFormed title = true)
    (hcut : cutsPair title = false) : wellFormed (copyTitle title) = true := by
  rw [copyTitle]
  split_ifs
  · exact wellFormed_append (wellFormed_cut h hcut) (by decide)
  · exact wellFormed_append h (by decide)

theorem wellFormed_of_plain {t : Text} (h : ∀ c ∈ t, isHigh c = false ∧ isLow c = false) :
    wellFormed t = true := by
  induction t with
  | nil => rfl
  | cons c t ih =>
    obtain ⟨hhigh, hlow⟩ := h c List.mem_cons_self
    have hrest := ih fun d hd => h d (List.mem_cons_of_mem c hd)
    rw [wellFormed, wellFormedFrom]
    simp_all [wellFormed]

/-- Digits and white space are no surrogates. -/
theorem wellFormed_of_isGuid {id : Text} (h : isGuid id = true) : wellFormed id = true := by
  have hdigits := (Bool.and_eq_true_iff.mp h).2
  apply wellFormed_of_plain
  intro c hc
  by_cases hspace : isWhiteSpace c = true
  · exact not_surrogate_of_isWhiteSpace hspace
  · have hdigit := List.all_eq_true.mp hdigits c (Text.mem_strip hc (by simpa using hspace))
    rw [isHexDigit, decide_eq_true_eq] at hdigit
    rw [isHigh, isLow, decide_eq_false_iff_not, decide_eq_false_iff_not]
    omega

/-! ### Writing stays within what is read -/

/-- The conversation that an operation writes or deletes. -/
def HistoryOperation.target : HistoryOperation → Text
  | .save id _ _ _ | .setPinned id _ _ | .setArchived id _ _ | .rename id _ _ | .delete id => id
  | .duplicate _ newId _ => newId

/-- The other conversations. -/
def others (target : Text) (chats : List SavedChat) : List SavedChat :=
  chats.filter fun row => row.id ≠ target

/-- A list that may be written after reading `before`: the conversation `target` is in front
or gone, and all the others are retained. -/
structure Follows (target : Text) (before written : List SavedChat) : Prop where
  accepted : Accepted written
  wellFormed : ∀ chat ∈ written, chat.wellFormed = true
  retained : Retained (others target before) (others target written)

theorem Retained.refl (chats : List SavedChat) : Retained chats chats :=
  ⟨List.Sublist.refl chats, rfl, List.prefix_refl _⟩

theorem others_eq_self {target : Text} {chats : List SavedChat}
    (h : ∀ chat ∈ chats, chat.id ≠ target) : others target chats = chats := by
  apply List.filter_eq_self.mpr
  intro chat hchat
  exact decide_eq_true (h chat hchat)

theorem of_mem_others {target : Text} {chats : List SavedChat} {chat : SavedChat}
    (h : chat ∈ others target chats) : chat ∈ chats ∧ chat.id ≠ target := by
  obtain ⟨hmem, hne⟩ := List.mem_filter.mp h
  exact ⟨hmem, of_decide_eq_true hne⟩

/-- Ids are unique, so that the first conversation with an id is the only one. -/
theorem eraseP_eq_others {chats : List SavedChat} (hunique : (chats.map SavedChat.id).Nodup)
    (target : Text) : (chats.eraseP fun row => row.id = target) = others target chats := by
  induction chats with
  | nil => rfl
  | cons chat chats ih =>
    obtain ⟨hnew, hunique⟩ := List.nodup_cons.mp hunique
    by_cases hid : chat.id = target
    · rw [List.eraseP_cons_of_pos (by simpa using hid), others,
        List.filter_cons_of_neg (by simpa using hid)]
      symm
      apply others_eq_self
      intro c hc hcid
      apply hnew
      rw [hid, ← hcid]
      exact List.mem_map_of_mem hc
    · rw [List.eraseP_cons_of_neg (by simpa using hid), others,
        List.filter_cons_of_pos (by simpa using hid), ih hunique]
      rfl

theorem Accepted.sublist {chats kept : List SavedChat} (h : Accepted chats)
    (hkept : kept.Sublist chats) : Accepted kept where
  valid := fun chat hchat => h.valid chat (hkept.subset hchat)
  unique := h.unique.sublist (hkept.map SavedChat.id)
  length := hkept.length_le.trans h.length

section
variable {target : Text} {before kept : List SavedChat} {first : SavedChat}

/-- The conversation `target` is put in front of some of the others. -/
theorem follows_cons (h : Accepted before) (hformed : ∀ chat ∈ before, chat.wellFormed = true)
    (hid : first.id = target) (hvalid : first.Valid) (hfirst : first.wellFormed = true)
    (hkept : Retained (others target before) kept)
    (hlength : (first :: kept).length ≤ maximumConversations) :
    Follows target before (first :: kept) := by
  have hsub : kept.Sublist before := hkept.sublist.trans List.filter_sublist
  have hbehind : ∀ chat ∈ kept, chat.id ≠ target := fun chat hchat =>
    (of_mem_others (hkept.sublist.subset hchat)).2
  refine ⟨⟨?_, ?_, hlength⟩, ?_, ?_⟩
  · intro chat hchat
    rcases List.mem_cons.mp hchat with rfl | hchat
    · exact hvalid
    · exact h.valid chat (hsub.subset hchat)
  · rw [List.map_cons, List.nodup_cons]
    refine ⟨?_, (h.sublist hsub).unique⟩
    intro hmem
    obtain ⟨chat, hchat, heq⟩ := List.mem_map.mp hmem
    exact hbehind chat hchat (heq.trans hid)
  · intro chat hchat
    rcases List.mem_cons.mp hchat with rfl | hchat
    · exact hfirst
    · exact hformed chat (hsub.subset hchat)
  · have hothers : others target (first :: kept) = kept := by
      rw [others, List.filter_cons_of_neg (by simpa using hid)]
      exact others_eq_self hbehind
    rw [hothers]
    exact hkept

theorem length_others {chat : SavedChat} (hmem : chat ∈ before) (hid : chat.id = target) :
    (others target before).length < before.length :=
  List.length_filter_lt_length_iff_exists.mpr ⟨chat, hmem, by simpa using hid⟩

theorem follows_others (h : Accepted before)
    (hformed : ∀ chat ∈ before, chat.wellFormed = true) :
    Follows target before (others target before) where
  accepted := h.sublist List.filter_sublist
  wellFormed := fun chat hchat => hformed chat (of_mem_others hchat).1
  retained := by
    rw [others_eq_self fun chat hchat => (of_mem_others hchat).2]
    exact Retained.refl _

end

/-- The chat of `Create`, under a title that the reader accepts. -/
theorem of_create {id modelId : Text} {turns : List ChatTurn} {now : ℕ+} {chat : SavedChat}
    (h : create id modelId turns now = .ok chat) :
    chat = ⟨id, modelId, createTitle turns, now, turns, false, false⟩ ∧ 2 ≤ turns.length ∧
      acceptableTurns 0 turns = true ∧
      ∀ title pinned archived, isBlank title = false ∧ title.any isControlUnit = false ∧
        title.length ≤ 80 →
        SavedChat.Valid ⟨id, modelId, title, now, turns, pinned, archived⟩ := by
  rw [create] at h
  split_ifs at h with hrefused haccept
  obtain rfl := Except.ok.inj h
  simp only [not_or, not_not, Bool.not_eq_false, Bool.not_eq_true, not_lt] at hrefused
  obtain ⟨hguid, hmodel, hmodelLength, hcount, heven, hsize⟩ := hrefused
  have hturns : acceptableTurns 0 turns = true := by simpa using haccept
  refine ⟨rfl, hcount.1, hturns, fun title pinned archived htitle => ?_⟩
  exact ⟨hguid, ⟨hmodel, hmodelLength⟩, htitle, ⟨hcount.1, hcount.2, heven⟩, now.ne_zero, hsize,
    hturns⟩

/-- Nothing is written where the file cannot be read. -/
theorem intent_error {e : HistoryError} {operation : HistoryOperation} {i : Intent}
    (h : intent (.error e) operation = .ok i) : i = .nothing := by
  cases operation with
  | save id modelId turns now =>
    rw [intent] at h
    rcases hcreate : create id modelId turns now with e | chat
    · rw [hcreate] at h
      cases h
    · rw [hcreate] at h
      cases h
  | setPinned id pinned now | setArchived id archived now =>
    rw [intent] at h
    split_ifs at h
    · exact (Except.ok.inj h).symm
    · cases h
  | rename id title now =>
    rw [intent] at h
    simp only at h
    split_ifs at h
    · exact (Except.ok.inj h).symm
    · cases h
  | duplicate id newId now =>
    rw [intent] at h
    split_ifs at h
    · exact (Except.ok.inj h).symm
  | delete id =>
    rw [intent] at h
    split_ifs at h
    · exact (Except.ok.inj h).symm

/-- What an operation has to avoid: a new title with a control character or with half a
surrogate pair, and text that is ill formed itself. -/
def sound (chats : List SavedChat) : HistoryOperation → Bool
  | .save id modelId turns now =>
    match create id modelId turns now with
    | .error _ => true
    | .ok _ =>
      Utf16.wellFormed modelId && turns.all ChatTurn.wellFormed &&
        (chats.any (fun row => row.id = id) || titled turns)
  | .rename _ title _ => Utf16.wellFormed title
  | .duplicate id _ _ =>
    match chats.find? fun row => row.id = id with
    | none => true
    | some source => !cutsPair source.title
  | _ => true

section
variable {before written : List SavedChat} {i : Intent}

/-- `written` is what an operation on `target` may write, with its conversation in front. -/
def InFront (target : Text) (before written : List SavedChat) : Prop :=
  Follows target before written ∧ written.head?.map SavedChat.id = some target

theorem changeChat_follows {id : Text} {change : SavedChat → Option SavedChat}
    (h : Accepted before) (hformed : ∀ chat ∈ before, chat.wellFormed = true)
    (hchange : ∀ chat updated, chat.Valid → chat.wellFormed = true → change chat = some updated →
      updated.id = chat.id ∧ updated.Valid ∧ updated.wellFormed = true)
    (hintent : changeChat (.ok before) id change = .ok i)
    (hwritten : i.written = .ok (some written)) : InFront id before written := by
  rw [changeChat] at hintent
  rcases hfind : before.find? fun row => row.id = id with - | chat
  · rw [hfind] at hintent
    obtain rfl := Except.ok.inj hintent
    cases hwritten
  · have hmem := List.mem_of_find?_eq_some hfind
    have hid : chat.id = id := by simpa using List.find?_some hfind
    rcases hupdate : change chat with - | updated
    · simp only [hfind, hupdate] at hintent
      obtain rfl := Except.ok.inj hintent
      cases hwritten
    · simp only [hfind, hupdate] at hintent
      obtain rfl := Except.ok.inj hintent
      obtain rfl := Option.some.inj (Except.ok.inj hwritten)
      obtain ⟨hkeeps, hvalid, hupdated⟩ := hchange chat updated (h.valid chat hmem)
        (hformed chat hmem) hupdate
      rw [eraseP_eq_others h.unique]
      refine ⟨?_, by simp [hkeeps, hid]⟩
      apply follows_cons h hformed (hkeeps.trans hid) hvalid hupdated (Retained.refl _)
      rw [List.length_cons]
      have hshorter := length_others hmem hid
      have hlength := h.length
      omega

theorem insert_follows {target : Text} {first : SavedChat} {rows : List SavedChat}
    (h : Accepted before) (hformed : ∀ chat ∈ before, chat.wellFormed = true)
    (hid : first.id = target) (hvalid : first.Valid) (hfirst : first.wellFormed = true)
    (hrows : rows = others target before)
    (hwritten : (Intent.insert first rows).written = .ok (some written)) :
    InFront target before written := by
  rw [Intent.written] at hwritten
  rcases hretain : retain first rows with e | result
  · rw [hretain] at hwritten
    cases hwritten
  · rw [hretain] at hwritten
    obtain rfl := Option.some.inj (Except.ok.inj hwritten)
    obtain ⟨kept, rfl, hkept, hlength, -⟩ := of_retain hretain
    rw [hrows] at hkept
    exact ⟨follows_cons h hformed hid hvalid hfirst hkept hlength, by simp [hid]⟩

theorem save_follows {id modelId : Text} {turns : List ChatTurn} {now : ℕ+}
    (h : Accepted before) (hformed : ∀ chat ∈ before, chat.wellFormed = true)
    (hsound : sound before (.save id modelId turns now) = true)
    (hintent : intent (.ok before) (.save id modelId turns now) = .ok i)
    (hwritten : i.written = .ok (some written)) : InFront id before written := by
  rw [intent] at hintent
  rw [sound] at hsound
  rcases hcreate : create id modelId turns now with e | chat
  · rw [hcreate] at hintent
    cases hintent
  · simp only [hcreate] at hintent hsound
    obtain rfl := Except.ok.inj hintent
    obtain ⟨rfl, hcount, haccept, hvalid⟩ := of_create hcreate
    simp only [Bool.and_eq_true, Bool.or_eq_true] at hsound
    obtain ⟨⟨hmodel, hturns⟩, htitle⟩ := hsound
    have hguid : isGuid id = true := by
      have hany := hvalid (ascii "a") false false (by decide)
      exact hany.guid
    have hparts : ∀ title pinned archived, wellFormed title = true → SavedChat.wellFormed
        ⟨id, modelId, title, now, turns, pinned, archived⟩ = true := by
      intro title pinned archived htext
      simp only [SavedChat.wellFormed, wellFormed_of_isGuid hguid, hmodel, htext, hturns,
        Bool.and_self]
    simp only [keepTitle] at hwritten
    rcases hfind : before.find? fun row => row.id = id with - | existing
    · -- a new conversation, whose title is made here
      simp only [hfind] at hwritten
      have hnew : before.any (fun row => row.id = id) = false := by
        rw [List.find?_eq_none] at hfind
        rw [List.any_eq_false]
        exact hfind
      obtain ⟨htitleValid, htitleFormed⟩ := createTitle_valid hcount haccept hturns
        (htitle.resolve_left (by simp [hnew]))
      exact insert_follows h hformed rfl (hvalid _ _ _ htitleValid) (hparts _ _ _ htitleFormed) rfl
        hwritten
    · -- an earlier conversation keeps its title
      simp only [hfind] at hwritten
      have hmem := List.mem_of_find?_eq_some hfind
      have hexisting := hformed existing hmem
      simp only [SavedChat.wellFormed, Bool.and_eq_true] at hexisting
      exact insert_follows h hformed rfl (hvalid _ _ _ (h.valid existing hmem).title)
        (hparts _ _ _ hexisting.1.2) rfl hwritten

theorem duplicate_follows {id newId : Text} {now : ℕ+}
    (h : Accepted before) (hformed : ∀ chat ∈ before, chat.wellFormed = true)
    (hsound : sound before (.duplicate id newId now) = true)
    (hintent : intent (.ok before) (.duplicate id newId now) = .ok i)
    (hwritten : i.written = .ok (some written)) : InFront newId before written := by
  rw [intent] at hintent
  rw [sound] at hsound
  by_cases hguids : isGuid id = false ∨ isGuid newId = false
  · rw [if_pos hguids] at hintent
    obtain rfl := Except.ok.inj hintent
    cases hwritten
  · rw [if_neg hguids] at hintent
    simp only [not_or, Bool.not_eq_false] at hguids
    rcases hfind : before.find? fun row => row.id = id with - | source
    · simp only [hfind] at hintent
      obtain rfl := Except.ok.inj hintent
      cases hwritten
    · simp only [hfind] at hintent hsound
      split_ifs at hintent with hused
      · obtain rfl := Except.ok.inj hintent
        cases hwritten
      · obtain rfl := Except.ok.inj hintent
        have hmem := List.mem_of_find?_eq_some hfind
        have hvalid := h.valid source hmem
        have hsource := hformed source hmem
        simp only [SavedChat.wellFormed, Bool.and_eq_true] at hsource
        obtain ⟨⟨⟨-, hmodel⟩, htitle⟩, hturns⟩ := hsource
        have hcopied := wellFormed_copyTitle htitle (by simpa using hsound)
        refine insert_follows h hformed rfl ?_ ?_ ?_ hwritten
        · exact ⟨hguids.2, hvalid.model, copyTitle_valid hvalid.title.2.1, hvalid.count,
            now.ne_zero, hvalid.size, hvalid.turns⟩
        · simp only [SavedChat.wellFormed, wellFormed_of_isGuid hguids.2, hmodel, hcopied, hturns,
            Bool.and_self]
        · symm
          apply others_eq_self
          intro chat hchat heq
          apply hused
          rw [List.any_eq_true]
          exact ⟨chat, hchat, decide_eq_true heq⟩

theorem rename_follows {id title : Text} {now : ℕ+}
    (h : Accepted before) (hformed : ∀ chat ∈ before, chat.wellFormed = true)
    (hsound : sound before (.rename id title now) = true)
    (hintent : intent (.ok before) (.rename id title now) = .ok i)
    (hwritten : i.written = .ok (some written)) : InFront id before written := by
  rw [intent] at hintent
  simp only at hintent
  split_ifs at hintent with hguid hrefused
  · obtain rfl := Except.ok.inj hintent
    cases hwritten
  · simp only [not_or, not_not, Bool.not_eq_true] at hrefused
    obtain ⟨⟨hone, hlength⟩, hcontrol⟩ := hrefused
    refine changeChat_follows h hformed ?_ hintent hwritten
    intro chat updated hvalid hchat hchange
    split_ifs at hchange
    obtain rfl := Option.some.inj hchange
    simp only [SavedChat.wellFormed, Bool.and_eq_true] at hchat
    refine ⟨rfl, ⟨hvalid.guid, hvalid.model, ⟨renamed_valid hone, hcontrol, hlength⟩, hvalid.count,
      now.ne_zero, hvalid.size, hvalid.turns⟩, ?_⟩
    simp only [SavedChat.wellFormed, hchat.1.1.1, hchat.1.1.2, wellFormed_joinWords hsound, hchat.2,
      Bool.and_self]

/-- Setting a flag and the date keeps a conversation as it has to be. -/
theorem SavedChat.flagged {chat : SavedChat} (hvalid : chat.Valid)
    (hchat : chat.wellFormed = true) (pinned archived : Bool) (now : ℕ+) :
    SavedChat.Valid { chat with pinned, archived, updatedUtc := now } ∧
      SavedChat.wellFormed { chat with pinned, archived, updatedUtc := now } = true :=
  ⟨⟨hvalid.guid, hvalid.model, hvalid.title, hvalid.count, now.ne_zero, hvalid.size, hvalid.turns⟩,
    hchat⟩

theorem intent_follows {operation : HistoryOperation} (h : Accepted before)
    (hformed : ∀ chat ∈ before, chat.wellFormed = true) (hsound : sound before operation = true)
    (hintent : intent (.ok before) operation = .ok i)
    (hwritten : i.written = .ok (some written)) :
    Follows operation.target before written ∧
      ((∀ id, operation ≠ .delete id) →
        written.head?.map SavedChat.id = some operation.target) := by
  have hfront : ∀ {target : Text}, InFront target before written →
      Follows target before written ∧ ((∀ id, operation ≠ .delete id) →
        written.head?.map SavedChat.id = some target) :=
    fun hin => ⟨hin.1, fun _ => hin.2⟩
  cases operation with
  | save id modelId turns now => exact hfront (save_follows h hformed hsound hintent hwritten)
  | duplicate id newId now => exact hfront (duplicate_follows h hformed hsound hintent hwritten)
  | rename id title now => exact hfront (rename_follows h hformed hsound hintent hwritten)
  | setPinned id pinned now =>
    rw [intent] at hintent
    split_ifs at hintent with hguid
    · obtain rfl := Except.ok.inj hintent
      cases hwritten
    · apply hfront
      refine changeChat_follows h hformed ?_ hintent hwritten
      intro chat updated hvalid hchat hchange
      split_ifs at hchange
      obtain rfl := Option.some.inj hchange
      exact ⟨rfl, SavedChat.flagged hvalid hchat pinned chat.archived now⟩
  | setArchived id archived now =>
    rw [intent] at hintent
    split_ifs at hintent with hguid
    · obtain rfl := Except.ok.inj hintent
      cases hwritten
    · apply hfront
      refine changeChat_follows h hformed ?_ hintent hwritten
      intro chat updated hvalid hchat hchange
      split_ifs at hchange
      obtain rfl := Option.some.inj hchange
      exact ⟨rfl, SavedChat.flagged hvalid hchat chat.pinned archived now⟩
  | delete id =>
    rw [intent] at hintent
    split_ifs at hintent with hguid hone
    · obtain rfl := Except.ok.inj hintent
      cases hwritten
    · obtain rfl := Except.ok.inj hintent
      obtain rfl := Option.some.inj (Except.ok.inj hwritten)
      exact ⟨follows_others h hformed, fun hno => absurd rfl (hno id)⟩
    · obtain rfl := Except.ok.inj hintent
      cases hwritten

end

/-! ### Runs -/

section
variable {β : Type*} {codec : HistoryCodec β} {file file' : Option β}

/-- The file is absent or one that `ReadAll` accepts. -/
def Readable (codec : HistoryCodec β) (file : Option β) : Prop :=
  ∃ chats, readAll codec false file = .ok chats

/-- The operation avoids what is wrong, in the conversations that the file holds. -/
def soundOn (codec : HistoryCodec β) (file : Option β)
    (event : HistoryOperation × HistoryFaults) : Bool :=
  match readAll codec false file with
  | .error _ => false
  | .ok chats => sound chats event.1

theorem of_perform {operation : HistoryOperation} {faults : HistoryFaults}
    {before written : List SavedChat} {bytes : β} (hread : readAll codec false file = .ok before)
    (hsound : sound before operation = true)
    (h : perform codec file operation faults = .ok (some (written, bytes))) :
    readAll codec false (some bytes) = .ok written ∧ Follows operation.target before written ∧
      ((∀ id, operation ≠ .delete id) →
        written.head?.map SavedChat.id = some operation.target) := by
  rw [perform] at h
  rcases hintent : intent (readAll codec faults.read file) operation with e | i
  · rw [hintent] at h
    cases h
  rcases hwritten : i.written with e | _ | chats
  · simp only [hintent, hwritten] at h
    cases h
  · simp only [hintent, hwritten] at h
    cases h
  rcases hwrite : write codec faults.write chats with e | out
  · simp only [hintent, hwritten, hwrite] at h
    cases h
  simp only [hintent, hwritten, hwrite] at h
  obtain ⟨rfl, rfl⟩ := Prod.mk.inj (Option.some.inj (Except.ok.inj h))
  rcases hfaulty : readAll codec faults.read file with e | chats'
  · rw [hfaulty] at hintent
    rw [intent_error hintent] at hwritten
    cases hwritten
  · obtain ⟨haccepted, hformed, hsame⟩ := of_readAll hfaulty
    obtain rfl := Except.ok.inj (hsame.symm.trans hread)
    rw [hfaulty] at hintent
    obtain ⟨hfollows, hfront⟩ := intent_follows haccepted hformed hsound hintent hwritten
    exact ⟨readAll_write hfollows.accepted hfollows.wellFormed hwrite, hfollows, hfront⟩

/-- One operation leaves a file that can be read. -/
theorem historyStep_readable {event : HistoryOperation × HistoryFaults} (h : Readable codec file)
    (hsound : soundOn codec file event = true) (hstep : historyStep codec file event = some file') :
    Readable codec file' := by
  obtain ⟨before, hread⟩ := h
  rw [soundOn, hread] at hsound
  rcases hperform : perform codec file event.1 event.2 with e | _ | ⟨written, bytes⟩
  · rw [historyStep, hperform] at hstep
    obtain rfl := Option.some.inj hstep
    exact ⟨before, hread⟩
  · rw [historyStep, hperform] at hstep
    obtain rfl := Option.some.inj hstep
    exact ⟨before, hread⟩
  · rw [historyStep, hperform] at hstep
    obtain rfl := Option.some.inj hstep
    exact ⟨written, (of_perform hread hsound hperform).1⟩

/-- What holds of an operation on the file: it throws and leaves the file alone, it writes
nothing, or the next `ReadAll` accepts what it wrote. -/
def Closed (codec : HistoryCodec β) (file : Option β) (before : List SavedChat)
    (event : HistoryOperation × HistoryFaults) : Prop :=
  match perform codec file event.1 event.2 with
  | .error _ | .ok none => historyStep codec file event = some file
  | .ok (some (written, bytes)) =>
    historyStep codec file event = some (some bytes) ∧
      readAll codec false (some bytes) = .ok written ∧
      Retained (others event.1.target before) (others event.1.target written) ∧
      ((∀ id, event.1 ≠ .delete id) → written.head?.map SavedChat.id = some event.1.target)

/-- **The conversation history stays readable.** From an absent or accepted file, a run whose
titles are sound leaves at most forty conversations with distinct ids; the next sound
operation leaves the file as it is if it throws, and what it writes is read back as written,
with its conversation in front and with all others but some of the last unpinned ones. -/
theorem history_closed {events : List (HistoryOperation × HistoryFaults)}
    {event : HistoryOperation × HistoryFaults} (hstart : Readable codec file)
    (hsound : Transition.meets (historyStep codec) (soundOn codec) file (events ++ [event]) = true)
    (hrun : Transition.run (historyStep codec) file events = some file') :
    ∃ before, readAll codec false file' = .ok before ∧ before.length ≤ maximumConversations ∧
      (before.map SavedChat.id).Nodup ∧ Closed codec file' before event := by
  obtain ⟨hevents, hevent⟩ := Transition.meets_append hsound hrun
  obtain ⟨before, hread⟩ := Transition.run_invariant (I := Readable codec)
    (fun _ _ _ => historyStep_readable) hstart hevents hrun
  obtain ⟨haccepted, -, -⟩ := of_readAll hread
  refine ⟨before, hread, haccepted.length, haccepted.unique, ?_⟩
  have hnext : soundOn codec file' event = true :=
    (Bool.and_eq_true_iff.mp hevent).1
  rw [soundOn, hread] at hnext
  rcases hperform : perform codec file' event.1 event.2 with e | _ | ⟨written, bytes⟩
  · rw [Closed, historyStep, hperform]
  · rw [Closed, historyStep, hperform]
  · obtain ⟨hback, hfollows, hfront⟩ := of_perform hread hnext hperform
    rw [Closed, historyStep, hperform]
    exact ⟨rfl, hback, hfollows.retained, hfront⟩

end

theorem envelopeOf_injective : Function.Injective envelopeOf := by
  have hturn : Function.Injective fun turn : ChatTurn => some turn.raw := by
    rintro ⟨role, content⟩ ⟨role', content'⟩ h
    simpa [ChatTurn.raw] using h
  have hchat : Function.Injective fun chat : SavedChat => some chat.raw := by
    rintro ⟨id, modelId, title, updatedUtc, turns, pinned, archived⟩
      ⟨id', modelId', title', updatedUtc', turns', pinned', archived'⟩ h
    simpa [SavedChat.raw, (List.map_injective_iff.mpr hturn).eq_iff] using h
  intro chats chats' h
  exact List.map_injective_iff.mpr hchat (Option.some.inj (congrArg Envelope.conversations h))

/-- A codec that keeps the envelope as it is. -/
def envelopeCodec : HistoryCodec Envelope where
  serialize := envelopeOf
  deserialize envelope :=
    if ((readEnvelope envelope).getD []).all SavedChat.wellFormed then some envelope else none
  size _ := 1000
  size_pos _ := by decide
  round_trip chats h := by
    rw [if_pos]
    rcases hread : readEnvelope (envelopeOf chats) with - | rows
    · rfl
    · obtain rfl := envelopeOf_injective (of_readEnvelope hread).2
      exact List.all_eq_true.mpr h
  read_wellFormed bytes envelope chats hbytes hread := by
    split_ifs at hbytes with hformed
    obtain rfl := Option.some.inj hbytes
    rw [hread] at hformed
    exact List.all_eq_true.mp hformed

/-- An exchange that begins with the given text. -/
def exchange (content : Text) : List ChatTurn :=
  [⟨ascii "user", content⟩, ⟨ascii "assistant", ascii "ok"⟩]

def noFaults : HistoryFaults := ⟨false, false⟩

def firstId : Text := List.replicate 32 0x61

def secondId : Text := List.replicate 32 0x62

theorem history_closed_duplicate :
    ∃ file, Transition.run (historyStep envelopeCodec) none
        [(.save firstId (ascii "m") (exchange (ascii "hi")) 1, noFaults),
          (.setPinned firstId true 2, noFaults)] = some file ∧
      ∃ before, readAll envelopeCodec false file = .ok before ∧
        before.length ≤ maximumConversations ∧ (before.map SavedChat.id).Nodup ∧
        Closed envelopeCodec file before (.duplicate firstId secondId 3, noFaults) := by
  have hrun : Transition.run (historyStep envelopeCodec) none
      [(.save firstId (ascii "m") (exchange (ascii "hi")) 1, noFaults),
        (.setPinned firstId true 2, noFaults)] = some _ := rfl
  exact ⟨_, hrun, history_closed ⟨[], rfl⟩ (by decide +kernel) hrun⟩

/-- `Create` accepts a first turn with a control character, and the file that `Save` writes
is refused by the next `ReadAll`. -/
theorem history_bell_unreadable :
    ∃ file, historyStep envelopeCodec none
        (.save firstId (ascii "m") (exchange [0x68, 0x07]) 1, noFaults) = some file ∧
      create firstId (ascii "m") (exchange [0x68, 0x07]) 1 =
        .ok ⟨firstId, ascii "m", [0x68, 0x07], 1, exchange [0x68, 0x07], false, false⟩ ∧
      readAll envelopeCodec false file = .error .invalidData := by
  exact ⟨_, rfl, by decide +kernel, by decide +kernel⟩

end InferBridge.NativeConversationStore
