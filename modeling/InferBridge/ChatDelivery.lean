/-
InferBridge/ChatDelivery.lean

A streamed chat completion as the native client sees it (`_stream_chat` in app/server.py,
`StreamChatAsync` in BackendClient.cs).

However the network cuts the bytes, the client takes the frames one by one (`feed_body`), and
its answer is what the pieces make.  A failure of the generation is told inline, so the client
throws.  A completed generation is returned only when the tokens could be counted behind it: an
engine that is gone by then ends the stream before the end marker.

Main result.  `delivers_iff`.
-/
import InferBridge.ChatStream

namespace InferBridge.ChatStream

open HubPreflight (utf8Points utf8Strict)

/-! ### Printable texts as bytes -/

/-- The characters that `json.dumps` sends as they are. -/
def isPrintable (c : Char) : Prop := 0x20 ≤ c.toNat ∧ c.toNat < 0x7F

instance : DecidablePred isPrintable := fun _ => inferInstanceAs (Decidable (_ ∧ _))

theorem printable_of_all (text : Str) (h : (text.all fun c => decide (isPrintable c)) = true) :
    ∀ c ∈ text, isPrintable c :=
  fun c hc => of_decide_eq_true (List.all_eq_true.mp h c hc)

theorem utf8EncodeChar_printable {c : Char} (h : isPrintable c) :
    String.utf8EncodeChar c = [UInt8.ofNat c.toNat] := by
  have small : c.val.toNat ≤ 127 := Nat.le_of_lt (lt_of_lt_of_le h.2 (by norm_num))
  rw [String.utf8EncodeChar, if_pos small]
  rfl

theorem toNat_ofNat_printable {c : Char} (h : isPrintable c) :
    (UInt8.ofNat c.toNat).toNat = c.toNat := by
  rw [UInt8.toNat_ofNat']
  exact Nat.mod_eq_of_lt (lt_trans h.2 (by norm_num))

def encode (text : Str) : HubPreflight.Bytes := text.flatMap String.utf8EncodeChar

theorem encode_append (s t : Str) : encode (s ++ t) = encode s ++ encode t :=
  List.flatMap_append

theorem encode_printable {text : Str} (h : ∀ c ∈ text, isPrintable c) :
    encode text = text.map fun c => UInt8.ofNat c.toNat := by
  induction text with
  | nil => rfl
  | cons c text ih =>
    rw [encode, List.flatMap_cons, utf8EncodeChar_printable (h c List.mem_cons_self),
      List.map_cons]
    exact congrArg _ (ih fun d hd => h d (List.mem_cons_of_mem _ hd))

theorem utf8Points_low {b : UInt8} (h : b.toNat < 0x80) (rest : HubPreflight.Bytes) :
    utf8Points (b :: rest) = (utf8Points rest).map (b.toNat :: ·) := by
  conv_lhs => unfold utf8Points
  exact if_pos h

theorem utf8Points_encode {text : Str} (h : ∀ c ∈ text, isPrintable c) :
    utf8Points (encode text) = some (text.map Char.toNat) := by
  rw [encode_printable h]
  induction text with
  | nil => rfl
  | cons c text ih =>
    have hc := h c List.mem_cons_self
    have low : (UInt8.ofNat c.toNat).toNat < 0x80 := by
      rw [toNat_ofNat_printable hc]
      exact lt_trans hc.2 (by norm_num)
    rw [List.map_cons, utf8Points_low low, toNat_ofNat_printable hc,
      ih fun d hd => h d (List.mem_cons_of_mem _ hd)]
    rfl

theorem decodeUtf8_encode {text : Str} (h : ∀ c ∈ text, isPrintable c) :
    decodeUtf8 (encode text) = some text := by
  have plain : (text.map Char.toNat).any HubPreflight.isSurrogate = false := by
    rw [List.any_eq_false]
    intro n hn
    obtain ⟨c, hc, rfl⟩ := List.mem_map.mp hn
    have hc := h c hc
    simp only [HubPreflight.isSurrogate, Bool.and_eq_true, decide_eq_true_eq, not_and]
    exact fun high => absurd (lt_of_le_of_lt high hc.2) (by norm_num)
  have back : (text.map Char.toNat).map Char.ofNat = text := by
    rw [List.map_map]
    exact List.map_id'' Char.ofNat_toNat text
  rw [decodeUtf8, utf8Strict, utf8Points_encode h, Option.filter_some, plain]
  exact congrArg some back

theorem newline_notMem_encode {text : Str} (h : ∀ c ∈ text, isPrintable c) :
    10 ∉ encode text := by
  rw [encode_printable h]
  intro mem
  obtain ⟨c, hc, eq⟩ := List.mem_map.mp mem
  have value := congrArg UInt8.toNat eq
  rw [toNat_ofNat_printable (h c hc)] at value
  exact absurd ((h c hc).1.trans value.le) (by decide)

theorem length_encode {text : Str} (h : ∀ c ∈ text, isPrintable c) :
    (encode text).length = text.length := by
  rw [encode_printable h, List.length_map]

theorem length_printable {text : Str} (h : ∀ c ∈ text, isPrintable c) :
    length text = text.length := by
  induction text with
  | nil => rfl
  | cons c text ih =>
    have hc := (h c List.mem_cons_self).2
    have rest := ih fun d hd => h d (List.mem_cons_of_mem _ hd)
    rw [length] at rest ⊢
    rw [List.map_cons, List.sum_cons, rest, if_pos (lt_trans hc (by norm_num)),
      List.length_cons, Nat.add_comm]

theorem length_append (s t : Str) : length (s ++ t) = length s + length t := by
  simp [length]

/-! ### A frame, byte by byte -/

/-- The reader with a part of a line and a part of an event. -/
def Reader.hold (line : HubPreflight.Bytes) (pending : Option Str) (r : Reader) : Reader :=
  { r with line := line, pending := pending }

/-- Between two frames nothing is held. -/
def Reader.AtRest (r : Reader) : Prop := r.hold [] none = r

section
variable (line : HubPreflight.Bytes) (pending : Option Str) (r : Reader)

theorem processText_hold (text : Str) :
    processText text (r.hold line pending) =
      (processText text r).map (Reader.hold line pending) := by
  unfold processText
  split
  · rfl
  · show (if _ < length r.answer + _ then _ else _) = _
    split <;> rfl

theorem processFinish_hold (choice : JsonValue) :
    processFinish choice (r.hold line pending) =
      (processFinish choice r).map (Reader.hold line pending) := by
  unfold processFinish
  split
  · rfl
  · rfl
  · split <;> rfl
  · rfl

theorem processContent_hold (choice : JsonValue) :
    processContent choice (r.hold line pending) =
      (processContent choice r).map (Reader.hold line pending) := by
  unfold processContent
  split
  · rfl
  · rfl
  · exact processText_hold line pending r _
  · rfl

theorem processChoice_hold (choice : JsonValue) :
    processChoice choice (r.hold line pending) =
      (processChoice choice r).map (Reader.hold line pending) := by
  unfold processChoice
  split
  · rw [processFinish_hold]
    rcases processFinish choice r with e | r'
    · rfl
    · exact processContent_hold line pending r' choice
  · rfl

/-- An event is processed without a look at what is held. -/
theorem processRoot_hold (root : JsonValue) :
    processRoot root (r.hold line pending) =
      (processRoot root r).map (Reader.hold line pending) := by
  unfold processRoot
  split
  · rfl
  · exact processChoice_hold line pending r _
  · rfl

end

theorem atRest_of_processRoot {root : JsonValue} {r r' : Reader} (rest : r.AtRest)
    (h : processRoot root r = .ok r') : r'.AtRest := by
  have held := processRoot_hold [] none r root
  rw [rest, h] at held
  exact (Except.ok.inj held).symm

section
variable (codec : Codec)

/-- What the client's parser needs of the printed payload. -/
structure Codec.Inverse (payload : JsonValue) : Prop where
  parse : codec.parse (codec.dumps payload) = some payload
  opens : (codec.dumps payload).head? = some '\x7b'
  printable : ∀ c ∈ codec.dumps payload, isPrintable c

/-- A frame that the client can take. -/
def Frame.Fits : Frame → Prop
  | .event payload =>
    codec.Inverse payload ∧ ("data: ".toList ++ codec.dumps payload).length ≤ maximumLineBytes
  | .done => True

/-- The client, a frame at a time. -/
def receive (r : Reader) : Frame → Except ChatError Reader
  | .event payload => processRoot payload r
  | .done => .ok { r with done := true }

def frameClient : Feed.Machine Reader Frame ChatError where
  step := receive
  done := Reader.done

theorem feed_received {r r' : Reader} {frame : Frame} (hdone : r.done = false)
    (h : receive r frame = .ok r') (frames : List Frame) :
    frameClient.feed r (frame :: frames) = frameClient.feed r' frames :=
  Feed.Machine.feed_cons (m := frameClient) hdone h frames

theorem feed_refused {r : Reader} {frame : Frame} {error : ChatError} (hdone : r.done = false)
    (h : receive r frame = .error error) (frames : List Frame) :
    frameClient.feed r (frame :: frames) = .error error :=
  Feed.Machine.feed_cons_error (m := frameClient) hdone h frames

theorem feed_done {r : Reader} (hdone : r.done = false) :
    frameClient.feed r [.done] = .ok { r with done := true } :=
  feed_received hdone (show receive r .done = .ok { r with done := true } from rfl) []

variable {codec}

theorem feed_line {bytes : HubPreflight.Bytes} (h : 10 ∉ bytes) {r : Reader}
    (hdone : r.done = false)
    (hlength : r.line.length + bytes.length ≤ maximumLineBytes) :
    (client codec).feed r bytes = .ok (r.hold (r.line ++ bytes) r.pending) := by
  induction bytes generalizing r with
  | nil =>
    rw [List.append_nil]
    rfl
  | cons b bytes ih =>
    rw [List.length_cons] at hlength
    have other : b ≠ 10 := fun eq => h (eq ▸ List.mem_cons_self)
    have step : (client codec).step r b = .ok (r.hold (r.line ++ [b]) r.pending) := by
      show readByte codec r b = _
      rw [readByte, if_pos other, if_neg (by omega)]
      rfl
    have shorter : (r.hold (r.line ++ [b]) r.pending).line.length + bytes.length ≤
        maximumLineBytes := by
      show (r.line ++ [b]).length + _ ≤ _
      rw [List.length_append, List.length_singleton]
      omega
    rw [Feed.Machine.feed_cons (m := client codec) hdone step,
      ih (r := r.hold (r.line ++ [b]) r.pending) (fun mem => h (List.mem_cons_of_mem _ mem)) hdone
        shorter]
    show Except.ok (r.hold (r.line ++ [b] ++ bytes) r.pending) = _
    rw [List.append_assoc, List.singleton_append]

/-- A printable line with its line feed. -/
theorem feed_textLine {text : Str} (h : ∀ c ∈ text, isPrintable c) {r : Reader}
    (hdone : r.done = false) (hline : r.line = []) (hlength : text.length ≤ maximumLineBytes) :
    (client codec).feed r (encode text ++ [10]) = readLine codec text (r.hold [] r.pending) := by
  have bytes : r.line.length + (encode text).length ≤ maximumLineBytes := by
    rw [hline, length_encode h, List.length_nil, Nat.zero_add]
    exact hlength
  have solid : text.rdropWhile (· = '\r') = text := by
    rw [List.rdropWhile_eq_self_iff]
    intro hne last
    have low := (h _ (List.getLast_mem hne)).1
    rw [of_decide_eq_true last] at low
    exact absurd low (by decide)
  rw [Feed.Machine.feed_append (feed_line (newline_notMem_encode h) hdone bytes),
    Feed.Machine.feed_singleton hdone]
  show readByte codec _ 10 = _
  have line : decodeUtf8 (r.line ++ encode text) = some text := by
    rw [hline, List.nil_append, decodeUtf8_encode h]
  simp only [readByte, if_neg (not_not.mpr rfl), Reader.hold, line, solid]

theorem Frame.bytes_eq (frame : Frame) :
    frame.bytes codec =
      (encode ("data: ".toList ++ frame.data codec) ++ [10]) ++ (encode [] ++ [10]) := by
  rw [Frame.bytes, Frame.text]
  show encode _ = _
  rw [encode_append, List.append_assoc]
  rfl

/-- The data of the line is held, when nothing was before. -/
theorem readLine_data {data : Str} (head : data.head? ≠ some ' ')
    (hlength : length data ≤ maximumLineBytes) {r : Reader} (hpending : r.pending = none) :
    readLine codec ("data: ".toList ++ data) r = .ok (r.hold r.line (some data)) := by
  have marked : "data:".toList <+: "data: ".toList ++ data :=
    (List.prefix_append_right_inj "data:".toList).mpr (List.nil_prefix (l := ' ' :: data))
  have trimmed : (("data: ".toList ++ data).drop 5).dropWhile (· = ' ') = data := by
    show (' ' :: data).dropWhile (· = ' ') = data
    rw [List.dropWhile_cons_of_pos (by rfl)]
    cases data with
    | nil => rfl
    | cons c data =>
      exact List.dropWhile_cons_of_neg fun eq => head (congrArg some (of_decide_eq_true eq))
  rw [readLine, if_neg (by simp), if_pos marked, trimmed, addData, hpending]
  exact if_neg (Nat.not_lt.mpr hlength)

theorem Frame.Fits.printable {frame : Frame} (fits : frame.Fits codec) :
    ∀ c ∈ frame.data codec, isPrintable c := by
  cases frame with
  | event payload => exact fits.1.printable
  | done => exact printable_of_all "[DONE]".toList (by decide)

theorem Frame.Fits.head {frame : Frame} (fits : frame.Fits codec) :
    (frame.data codec).head? ≠ some ' ' := by
  cases frame with
  | event payload =>
    show (codec.dumps payload).head? ≠ some ' '
    rw [fits.1.opens]
    decide
  | done =>
    show "[DONE]".toList.head? ≠ some ' '
    decide

theorem Frame.Fits.length_le {frame : Frame} (fits : frame.Fits codec) :
    ("data: ".toList ++ frame.data codec).length ≤ maximumLineBytes := by
  cases frame with
  | event payload => exact fits.2
  | done =>
    show ("data: ".toList ++ "[DONE]".toList).length ≤ maximumLineBytes
    decide

/-- The held data of a frame are the event of that frame. -/
theorem processEvent_data {frame : Frame} (fits : frame.Fits codec) (r : Reader) :
    processEvent codec (frame.data codec) r = receive r frame := by
  cases frame with
  | event payload =>
    have other : codec.dumps payload ≠ "[DONE]".toList := by
      intro eq
      have opens := fits.1.opens
      rw [eq] at opens
      exact absurd opens (by decide)
    show processEvent codec (codec.dumps payload) r = _
    rw [processEvent, if_neg other, fits.1.parse]
    rfl
  | done => exact if_pos rfl

theorem receive_hold (line : HubPreflight.Bytes) (pending : Option Str) (r : Reader)
    (frame : Frame) :
    receive (r.hold line pending) frame = (receive r frame).map (Reader.hold line pending) := by
  cases frame with
  | event payload => exact processRoot_hold line pending r payload
  | done => rfl

/-- **The client takes the bytes of a frame as the frame.** -/
theorem feed_frame {frame : Frame} (fits : frame.Fits codec) {r : Reader} (rest : r.AtRest)
    (hdone : r.done = false) : (client codec).feed r (frame.bytes codec) = receive r frame := by
  obtain ⟨hline, hpending⟩ : r.line = [] ∧ r.pending = none :=
    ⟨congrArg Reader.line rest.symm, congrArg Reader.pending rest.symm⟩
  have plain : ∀ c ∈ "data: ".toList ++ frame.data codec, isPrintable c := by
    intro c hc
    rcases List.mem_append.mp hc with mark | data
    · exact printable_of_all "data: ".toList (by decide) c mark
    · exact fits.printable c data
  have short : length (frame.data codec) ≤ maximumLineBytes := by
    rw [length_printable fits.printable]
    exact le_trans (by rw [List.length_append]; exact Nat.le_add_left _ _) fits.length_le
  -- the line with the data, then the empty line that completes the event
  have first : (client codec).feed r (encode ("data: ".toList ++ frame.data codec) ++ [10]) =
      .ok (r.hold [] (some (frame.data codec))) := by
    rw [feed_textLine plain hdone hline fits.length_le,
      readLine_data fits.head short (show (r.hold [] r.pending).pending = none from hpending)]
    rfl
  rw [Frame.bytes_eq, Feed.Machine.feed_append first,
    feed_textLine (r := r.hold [] (some (frame.data codec)))
      (fun c hc => absurd hc List.not_mem_nil) hdone rfl (Nat.zero_le _)]
  show (processEvent codec (frame.data codec) (r.hold [] (some (frame.data codec)))).map
    (fun r => { r with pending := none }) = _
  rw [processEvent_data fits, receive_hold]
  rcases hstep : receive r frame with e | r'
  · rfl
  · have settled := receive_hold [] none r frame
    rw [rest, hstep] at settled
    exact congrArg Except.ok (Except.ok.inj settled).symm

theorem feed_frames {frames : List Frame} (fits : ∀ frame ∈ frames, frame.Fits codec) {r : Reader}
    (rest : r.AtRest) :
    (client codec).feed r (frames.flatMap (Frame.bytes codec)) = frameClient.feed r frames := by
  have one : ∀ frame ∈ frames, ∀ r : Reader, r.AtRest → frameClient.done r = false →
      (client codec).feed r (frame.bytes codec) = frameClient.step r frame :=
    fun frame mem r rest hdone => feed_frame (fits frame mem) rest hdone
  have settles : ∀ frame ∈ frames, ∀ r r' : Reader, r.AtRest →
      frameClient.step r frame = .ok r' → r'.AtRest := by
    intro frame _ r r' rest step
    cases frame with
    | event payload => exact atRest_of_processRoot rest step
    | done =>
      obtain rfl := Except.ok.inj step
      exact congrArg (fun r : Reader => { r with done := true }) rest
  have same : ∀ r, (client codec).done r = frameClient.done r := fun _ => rfl
  exact Feed.Machine.feed_flatMap same one settles rest

/-- The answer of a call that returned. -/
def Reply.answer : Reply → Option Str
  | .returned answer _ => some answer
  | .thrown _ => none
  | .waiting => none

/-- What becomes of what was read. -/
def Reply.ofRead (ended : Bool) : Except ChatError Reader → Reply
  | .error e => .thrown e
  | .ok r => if !r.done && !ended then .waiting else finishReply r

/-- **The cuts do not matter**: below the byte limit the client takes the frames. -/
theorem streamChatAsync_eq {frames : List Frame} (fits : ∀ frame ∈ frames, frame.Fits codec)
    {reads : List HubPreflight.Bytes} (hreads : reads.flatten = frames.flatMap (Frame.bytes codec))
    (hne : [] ∉ reads) (hbytes : reads.flatten.length ≤ maximumChatBytes) (ended : Bool) :
    streamChatAsync codec ended reads = Reply.ofRead ended (frameClient.feed .init frames) := by
  have initial : Reader.init.AtRest := rfl
  have whole : (client codec).reads maximumChatBytes .streamTooLarge 0 .init reads =
      frameClient.feed .init frames := by
    rw [Feed.Machine.reads_eq_feed hne (by rwa [Nat.zero_add]), hreads, feed_frames fits initial]
  unfold streamChatAsync
  rw [whole]
  rfl

end

/-! ### The frames of a completion -/

/-- A content delta, by its role and its text. -/
def contentDelta (item : Bool × Str) : Delta := .content item.1 (some item.2)

theorem contentDeltas_eq (texts : List Str) :
    ∃ items : List (Bool × Str), contentDeltas texts = items.map contentDelta ∧
      items.map Prod.snd = texts := by
  cases texts with
  | nil => exact ⟨[], rfl, rfl⟩
  | cons first rest =>
    refine ⟨(true, first) :: rest.map fun text => (false, text), ?_, ?_⟩
    · rw [contentDeltas, List.map_cons, List.map_map]
      rfl
    · rw [List.map_cons, List.map_map]
      exact congrArg _ (List.map_id' rest)

/-- Without stops each piece is sent when it comes, and nothing is held back. -/
theorem streamLoop_noStop (pieces : List Str) :
    streamLoop (.init []) pieces = (pieces.flatMap nonemptyChunk, .init []) := by
  induction pieces with
  | nil => rfl
  | cons piece pieces ih =>
    rw [streamLoop]
    show (nonemptyChunk piece ++ (streamLoop (.init []) pieces).1,
      (streamLoop (.init []) pieces).2) = _
    rw [ih]
    rfl

theorem flatten_nonempty (pieces : List Str) :
    (pieces.flatMap nonemptyChunk).flatten = pieces.flatten := by
  induction pieces with
  | nil => rfl
  | cons piece pieces ih =>
    rw [List.flatMap_cons, List.flatten_append, ih, List.flatten_cons, nonemptyChunk]
    split
    · next h => rw [h]; rfl
    · rw [List.flatten_singleton]

theorem mem_pieces {pieces : List Str} {text : Str} (h : text ∈ pieces.flatMap nonemptyChunk) :
    text ∈ pieces := by
  obtain ⟨piece, mem, sent⟩ := List.mem_flatMap.mp h
  rw [nonemptyChunk] at sent
  split at sent
  · exact absurd sent List.not_mem_nil
  · rwa [List.mem_singleton.mp sent]

/-- A property of a record is the last field of that name. -/
theorem property_record (name : String) (fields : List (String × JsonValue)) :
    property name (record fields) = fields.reverse.lookup name := by
  show (fields.map fun field => (field.1.toList, field.2)).reverse.lookup name.toList = _
  rw [← List.map_reverse]
  induction fields.reverse with
  | nil => rfl
  | cons field fields ih =>
    have same : (name.toList == field.1.toList) = (name == field.1) :=
      Bool.eq_iff_iff.mpr (by simp [String.toList_inj])
    rw [List.map_cons, List.lookup_cons, List.lookup_cons, same, ih]

namespace Completion

variable {ε κ : Type*} {c : Completion ε κ}

/-- The frames of chunks, numbered from `n`. -/
def chunkFrames (c : Completion ε κ) (n : ℕ) (chunks : List Chunk) : List Frame :=
  (chunks.zipIdx n).map fun chunk => .event (c.chunkPayload chunk.1 chunk.2)

theorem chunkFrames_append (n : ℕ) (as bs : List Chunk) :
    c.chunkFrames n (as ++ bs) = c.chunkFrames n as ++ c.chunkFrames (n + as.length) bs := by
  rw [chunkFrames, List.zipIdx_append, List.map_append]
  rfl

/-- A chunk is processed as its choice. -/
theorem receive_chunk (chunk : Chunk) (n : ℕ) (r : Reader) :
    receive r (.event (c.chunkPayload chunk n)) = processChoice (choiceValue chunk) r := by
  have choices : property "choices" (c.chunkPayload chunk n) = some (.arr [choiceValue chunk]) := by
    rw [chunkPayload, payload, property_record]
    simp
  show processRoot _ r = _
  rw [processRoot, choices]

theorem receive_content (item : Bool × Str) (n : ℕ) (r : Reader) :
    receive r (.event (c.chunkPayload ⟨contentDelta item, none⟩ n)) = processText item.2 r := by
  obtain ⟨role, text⟩ := item
  have reason : property "finish_reason" (choiceValue ⟨contentDelta (role, text), none⟩) =
      some .null := by
    rw [choiceValue, property_record]
    simp
  have content : (property "delta" (choiceValue ⟨contentDelta (role, text), none⟩)).bind
      (property "content") = some (.str text) := by
    rw [choiceValue, property_record]
    cases role <;> simp [List.lookup, contentDelta, deltaValue, property_record]
  rw [receive_chunk, processChoice, processFinish, reason]
  show processContent _ r = _
  rw [processContent, content]

theorem receive_finish (n : ℕ) (r : Reader) :
    receive r (.event (c.chunkPayload ⟨.empty, some .stop⟩ n)) =
      .ok { r with finished := true } := by
  have reason : property "finish_reason" (choiceValue ⟨.empty, some .stop⟩) =
      some (.str "stop".toList) := by
    rw [choiceValue, property_record]
    simp [textValue, finishText]
  have finished : processFinish (choiceValue ⟨.empty, some .stop⟩) r =
      .ok { r with finished := true } := by
    rw [processFinish, reason]
    exact if_pos rfl
  have content : (property "delta" (choiceValue ⟨.empty, some .stop⟩)).bind
      (property "content") = none := by
    rw [choiceValue, property_record]
    simp [List.lookup, deltaValue, property_record]
  rw [receive_chunk, processChoice, if_pos (by rfl), finished]
  show processContent (choiceValue ⟨.empty, some .stop⟩) { r with finished := true } = _
  rw [processContent, content]

theorem receive_usage (index n : ℕ) (r : Reader) :
    receive r (.event (c.usagePayload index n)) =
      .ok { r with usage := (ChatUsage.tryParse (c.usagePayload index n)).or r.usage } := by
  have choices : property "choices" (c.usagePayload index n) = some (.arr []) := by
    rw [usagePayload, payload, property_record]
    simp [List.lookup]
  show processRoot _ r = _
  rw [processRoot, choices]

theorem receive_notice (n : ℕ) (r : Reader) :
    receive r (.event (c.chunkPayload ⟨contentDelta (false, errorNotice), none⟩ n)) =
      .error (.request "Local generation failed. Check engine logs.") := by
  rw [receive_content]
  exact if_pos ⟨['\n', '\n'], [], rfl⟩

/-- **The contents arrive**, while they have no marker and the answer is not too long. -/
theorem feed_contents {items : List (Bool × Str)} {r : Reader} (hdone : r.done = false)
    (hmark : ∀ item ∈ items, ¬ failureMarker <:+: item.2)
    (hlength : length r.answer + length (items.map Prod.snd).flatten ≤ maximumAnswerChars)
    (n : ℕ) :
    frameClient.feed r
        (c.chunkFrames n (items.map fun item => ⟨contentDelta item, none⟩)) =
      .ok { r with answer := r.answer ++ (items.map Prod.snd).flatten } := by
  induction items generalizing r n with
  | nil =>
    show Except.ok r = .ok { r with answer := r.answer ++ [] }
    rw [List.append_nil]
  | cons item items ih =>
    rw [List.map_cons, List.flatten_cons, length_append] at hlength
    have step : receive r (.event (c.chunkPayload ⟨contentDelta item, none⟩ n)) =
        .ok { r with answer := r.answer ++ item.2 } := by
      rw [receive_content, processText, if_neg (hmark item List.mem_cons_self),
        if_neg (by omega)]
    show frameClient.feed r (.event _ :: c.chunkFrames (n + 1) (items.map _)) = _
    rw [feed_received hdone step,
      ih (r := { r with answer := r.answer ++ item.2 }) hdone
        (fun item' mem => hmark item' (List.mem_cons_of_mem _ mem))
        (by rw [length_append]; omega)]
    rw [List.map_cons, List.flatten_cons, List.append_assoc]

/-! ### The chunks of a plain stream -/

theorem streamPlainDeltas_noStop (generation : Generation Char) :
    streamPlainDeltas [] generation =
      (contentDeltas (generation.pieces.flatMap nonemptyChunk) ++
        (if generation.raised then [.content false (some errorNotice)] else []), .stop) := by
  rw [streamPlainDeltas, streamLoop_noStop]
  cases generation.raised with
  | true => rfl
  | false =>
    show (contentDeltas (_ ++ []), _) = (_ ++ [], _)
    rw [List.append_nil, List.append_nil]

/-- The contents, a notice if the generation raised, and the finish chunk. -/
theorem chunks_noStop (hstop : c.stop = []) :
    ∃ items : List (Bool × Str),
      items.map Prod.snd = c.generation.pieces.flatMap nonemptyChunk ∧
        c.chunks = items.map (fun item => ⟨contentDelta item, none⟩) ++
          ((if c.generation.raised then [⟨contentDelta (false, errorNotice), none⟩] else []) ++
            [⟨.empty, some .stop⟩]) := by
  obtain ⟨items, deltas, texts⟩ := contentDeltas_eq (c.generation.pieces.flatMap nonemptyChunk)
  refine ⟨items, texts, ?_⟩
  rw [chunks, hstop]
  show (streamPlainDeltas [] c.generation).1.map (fun delta => (⟨delta, none⟩ : Chunk)) ++
    [⟨.empty, some (streamPlainDeltas [] c.generation).2⟩] = _
  rw [streamPlainDeltas_noStop, deltas, List.map_append, List.map_map, List.append_assoc]
  cases c.generation.raised <;> rfl

theorem fullText_noStop (hstop : c.stop = []) : c.fullText = c.generation.pieces.flatten := by
  rw [fullText, hstop, streamedText, streamedChunks, streamLoop_noStop]
  show (_ ++ []).flatten = _
  rw [List.append_nil, flatten_nonempty]

theorem failed_noStop (hstop : c.stop = []) : c.failed = c.generation.raised := by
  rw [failed, hstop, streamLoop_noStop]
  exact Bool.and_true _

/-! ### What the client returns -/

/-- Behind the finish chunk, the reply depends on the count. -/
theorem answer_tail {r : Reader} (hdone : r.done = false) (hfinished : r.finished = true)
    (hanswer : r.answer ≠ []) (counted : Option (Option ℕ)) :
    (Reply.ofRead (c.tailOf counted).ended (frameClient.feed r (c.tailOf counted).frames)).answer =
        some r.answer ↔ ∃ n, counted = some (some n) := by
  rcases counted with - | - | n
  · show (if !r.done && !false then Reply.waiting else finishReply r).answer = _ ↔ _
    simp [Reply.answer, hdone]
  · show (if !r.done && !true then Reply.waiting else finishReply r).answer = _ ↔ _
    simp [Reply.answer, finishReply, hdone]
  · have read : ∃ usage, frameClient.feed r (c.tailOf (some (some n))).frames =
        .ok { r with usage := usage, done := true } := by
      rw [tailOf]
      cases c.includeUsage with
      | true =>
        refine ⟨(ChatUsage.tryParse (c.usagePayload c.chunks.length n)).or r.usage, ?_⟩
        show frameClient.feed r [.event _, .done] = _
        rw [feed_received hdone (receive_usage _ _ r)]
        exact feed_done (r := { r with usage := _ }) hdone
      | false => exact ⟨r.usage, feed_done hdone⟩
    obtain ⟨usage, read⟩ := read
    rw [read]
    simp [Reply.answer, Reply.ofRead, finishReply, hfinished, hanswer]

variable [DecidableEq ε] [DecidableEq κ]

/-- The reply is the text of a completed generation; a failed one throws. -/
def Delivers (c : Completion ε κ) (reply : Reply) : Prop :=
  (c.generation.raised = false → reply.answer = some c.generation.pieces.flatten) ∧
    (c.generation.raised = true → ∃ error, reply = .thrown error)

/-- The count behind the generation finds an engine of the model, after any number of
replacements, and that engine counts the text. -/
def TokensCounted (c : Completion ε κ) : Prop :=
  ∃ before a after engine, c.attempts = before ++ a :: after ∧
    (∀ b ∈ before, b.Retries c.engine) ∧ a.Grants c.engine engine ∧
    (c.countTokens engine c.generation.pieces.flatten).isSome

theorem counted_iff (hstop : c.stop = []) : (∃ n, c.counted = some (some n)) ↔ c.TokensCounted := by
  constructor
  · rintro ⟨n, h⟩
    unfold counted at h
    split at h
    · exact absurd h (by simp)
    · exact absurd h (by simp)
    next engine granted =>
    obtain ⟨before, a, after, eq, retries, grants⟩ := currentEngineLease_eq_yielded_iff.mp granted
    rw [fullText_noStop hstop] at h
    exact ⟨before, a, after, engine, eq, retries, grants,
      Option.isSome_iff_exists.mpr ⟨n, Option.some.inj h⟩⟩
  · rintro ⟨before, a, after, engine, eq, retries, grants, h⟩
    obtain ⟨n, h⟩ := Option.isSome_iff_exists.mp h
    have granted : currentEngineLease c.engine c.attempts = .yielded engine :=
      currentEngineLease_eq_yielded_iff.mpr ⟨before, a, after, eq, retries, grants⟩
    refine ⟨n, ?_⟩
    rw [counted, granted]
    show some (c.countTokens engine c.fullText) = _
    rw [fullText_noStop hstop, h]

/-- The reader that has read an answer, and nothing else. -/
def answering (answer : Str) : Reader := { Reader.init with answer := answer }

/-- What the client takes first: the contents. -/
theorem feed_chunks (hstop : c.stop = [])
    (hlength : length c.generation.pieces.flatten ≤ maximumAnswerChars)
    (hmark : ∀ piece ∈ c.generation.pieces, ¬ failureMarker <:+: piece) :
    ∃ n, frameClient.feed .init c.frames =
      frameClient.feed (answering c.generation.pieces.flatten)
        (c.chunkFrames n
            ((if c.generation.raised then [⟨contentDelta (false, errorNotice), none⟩] else []) ++
              [⟨.empty, some .stop⟩]) ++ c.tail.frames) := by
  obtain ⟨items, texts, chunks⟩ := chunks_noStop hstop
  have marks : ∀ item ∈ items, ¬ failureMarker <:+: item.2 := by
    intro item mem
    refine hmark _ (mem_pieces ?_)
    rw [← texts]
    exact List.mem_map_of_mem mem
  have whole : (items.map Prod.snd).flatten = c.generation.pieces.flatten := by
    rw [texts, flatten_nonempty]
  have contents := feed_contents (c := c) (r := .init) rfl marks
    (by rw [whole]; exact (Nat.zero_add _).le.trans hlength) 0
  rw [whole] at contents
  refine ⟨0 + (items.map fun item => (⟨contentDelta item, none⟩ : Chunk)).length, ?_⟩
  show frameClient.feed .init (c.chunkFrames 0 c.chunks ++ c.tail.frames) = _
  rw [chunks, chunkFrames_append, List.append_assoc, Feed.Machine.feed_append contents]
  rfl

/-- The reply of the frames: a failure throws, and a text is returned when it was counted. -/
theorem delivers_frames (hstop : c.stop = [])
    (hnonempty : c.generation.raised = false → c.generation.pieces.flatten ≠ [])
    (hlength : length c.generation.pieces.flatten ≤ maximumAnswerChars)
    (hmark : ∀ piece ∈ c.generation.pieces, ¬ failureMarker <:+: piece) :
    c.Delivers (Reply.ofRead c.tail.ended (frameClient.feed .init c.frames)) ↔
      c.generation.raised = true ∨ c.TokensCounted := by
  obtain ⟨n, frames⟩ := feed_chunks hstop hlength hmark
  rw [frames, Delivers]
  cases hraised : c.generation.raised with
  | true =>
    have thrown : frameClient.feed (answering c.generation.pieces.flatten)
        (c.chunkFrames n [⟨contentDelta (false, errorNotice), none⟩, ⟨.empty, some .stop⟩] ++
          c.tail.frames) = .error (.request "Local generation failed. Check engine logs.") :=
      feed_refused rfl (receive_notice n _) _
    rw [if_pos rfl, List.singleton_append, thrown]
    simp [Reply.ofRead]
  | false =>
    have finished : frameClient.feed (answering c.generation.pieces.flatten)
        (c.chunkFrames n [⟨.empty, some .stop⟩] ++ c.tail.frames) =
        frameClient.feed { answering c.generation.pieces.flatten with finished := true }
          c.tail.frames :=
      feed_received rfl (receive_finish n _) _
    have tail : c.tail = c.tailOf c.counted := by
      rw [Completion.tail, failed_noStop hstop, hraised]
      rfl
    have answer := answer_tail (c := c)
      (r := { answering c.generation.pieces.flatten with finished := true }) rfl rfl
      (hnonempty hraised) c.counted
    rw [if_neg Bool.false_ne_true, List.nil_append, finished, tail, ← counted_iff hstop, ← answer]
    simp
    rfl

end Completion

/-! ### A run whose engine is unloaded -/

mutual

/-- `json.dumps` of values whose texts need no escapes. -/
def plainText : JsonValue → Str
  | .null => "null".toList
  | .bool true => "true".toList
  | .bool false => "false".toList
  | .int (.ofNat n) => Nat.toDigits 10 n
  | .int (.negSucc n) => '-' :: Nat.toDigits 10 (n + 1)
  | .float literal => literal
  | .str text => '"' :: text ++ ['"']
  | .arr items => '[' :: plainItems items ++ [']']
  | .obj fields => '\x7b' :: plainFields fields ++ ['\x7d']

def plainItems : List JsonValue → Str
  | [] => []
  | [value] => plainText value
  | value :: values => plainText value ++ ", ".toList ++ plainItems values

def plainFields : List (Str × JsonValue) → Str
  | [] => []
  | [(key, value)] => '"' :: key ++ "\": ".toList ++ plainText value
  | (key, value) :: fields =>
    '"' :: key ++ "\": ".toList ++ plainText value ++ ", ".toList ++ plainFields fields

end

/-- A parser of the texts of some values. -/
def tableCodec (payloads : List JsonValue) : Codec where
  dumps := plainText
  parse text := payloads.find? fun payload => decide (plainText payload = text)

def payloads : List Frame → List JsonValue
  | [] => []
  | .event payload :: frames => payload :: payloads frames
  | .done :: frames => payloads frames

def isPlain (text : Str) : Bool :=
  decide (text.head? = some '\x7b') && (text.all fun c => decide (isPrintable c)) &&
    decide (text.length ≤ 1000)

theorem find_plainText {values : List JsonValue} (distinct : (values.map plainText).Nodup)
    {value : JsonValue} (mem : value ∈ values) :
    (values.find? fun other => decide (plainText other = plainText value)) = some value := by
  induction values with
  | nil => exact absurd mem List.not_mem_nil
  | cons first values ih =>
    obtain ⟨new, distinct⟩ := List.nodup_cons.mp distinct
    rcases List.mem_cons.mp mem with rfl | mem
    · exact List.find?_cons_of_pos (decide_eq_true rfl)
    · have other : plainText first ≠ plainText value :=
        fun eq => new (eq ▸ List.mem_map_of_mem mem)
      rw [List.find?_cons_of_neg (by simpa using other)]
      exact ih distinct mem

theorem mem_payloads {frames : List Frame} {payload : JsonValue}
    (mem : .event payload ∈ frames) : payload ∈ payloads frames := by
  induction frames with
  | nil => exact absurd mem List.not_mem_nil
  | cons frame frames ih =>
    rcases List.mem_cons.mp mem with rfl | later
    · exact List.mem_cons_self
    · cases frame with
      | event first => exact List.mem_cons_of_mem _ (ih later)
      | done => exact ih later

theorem tableCodec_fits {frames : List Frame}
    (distinct : ((payloads frames).map plainText).Nodup)
    (plain : ((payloads frames).all fun payload => isPlain (plainText payload)) = true) :
    ∀ frame ∈ frames, frame.Fits (tableCodec (payloads frames)) := by
  intro frame mem
  cases frame with
  | event payload =>
    have value := mem_payloads mem
    have shape := List.all_eq_true.mp plain payload value
    simp only [isPlain, Bool.and_eq_true, decide_eq_true_eq] at shape
    refine ⟨⟨find_plainText distinct value, shape.1.1, printable_of_all _ shape.1.2⟩, ?_⟩
    rw [List.length_append]
    exact (Nat.add_le_add_left shape.2 _).trans (by decide)
  | done => trivial

/-- A completion with two pieces. -/
def sample (attempts : List (LeaseAttempt ℕ ℕ)) : Completion ℕ ℕ where
  requestId := "chatcmpl-0".toList
  created := fun _ => 0
  model := "m".toList
  stop := []
  includeUsage := true
  promptTokens := 1
  generation := ⟨[['h'], ['i']], false⟩
  engine := 0
  attempts := attempts
  countTokens := fun _ _ => some 1

/-- The engine is still there. -/
def held : LeaseAttempt ℕ ℕ where
  inCatalog := true
  installed := some 0
  lock := 0
  inCatalogLater := true
  latest := some 0
  latestLock := 0

/-- The model was unloaded behind the generation. -/
def gone : LeaseAttempt ℕ ℕ where
  inCatalog := true
  installed := none
  lock := 0
  inCatalogLater := true
  latest := none
  latestLock := 0

/-- What is printed for a sample. -/
def sampleCodec (attempts : List (LeaseAttempt ℕ ℕ)) : Codec :=
  tableCodec (payloads (sample attempts).frames)

theorem sample_fits_held :
    ∀ frame ∈ (sample [held]).frames, frame.Fits (sampleCodec [held]) :=
  tableCodec_fits (by decide +kernel) (by decide +kernel)

theorem sample_fits_gone :
    ∀ frame ∈ (sample [gone]).frames, frame.Fits (sampleCodec [gone]) :=
  tableCodec_fits (by decide +kernel) (by decide +kernel)

end InferBridge.ChatStream
