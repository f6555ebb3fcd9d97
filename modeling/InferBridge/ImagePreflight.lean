/-
InferBridge/ImagePreflight.lean

Image limits before and after decoding (`_preflight_data_url`,
`preflight_request_contents`, `decode_data_url`, `validate_content` and
`validate_request_contents` of app/multimodal.py).

Design.  ChatFormat has the passes over the content parts, with the reading of
data URLs as a parameter.  Here it is the code: the data URL, strict base64, and
the checks of the opened picture; only the opening itself (Pillow) stays a
parameter.  A reading (`readContent`) says what the parts of a content are; by
it the totals of each pass are computed.  Before decoding, an image counts
with its size rounded up to whole groups of three bytes (`preflight_of_decode`).

Main result: `preflight_admits_iff`.
-/
import InferBridge.ChatFormat
import InferBridge.Lib.Base64

namespace InferBridge.ImagePreflight

open Text Accepted

/-! ### Data URLs -/

def supportedImageMimeTypes : List Str :=
  ["image/jpeg".toList, "image/png".toList, "image/webp".toList]

def maxImageBytes : Nat := 10 * 1024 * 1024

def maxImagePixels : Nat := 25000000

def maxImageDimension : Nat := 16384

/-- `pieces` -/
def headerPieces (header : Str) : List Str :=
  (((lower header).splitOn ';').map (strip isSpace)).filter (!·.isEmpty)

def oversizedImage : Str := "Each image must be 10 MiB or smaller.".toList

/-- `_preflight_data_url`: the estimated size, the type and the place of the comma. -/
def preflightDataUrl (url : Str) : Except Str (Nat × Str × Nat) :=
  if lower (url.take 5) ≠ "data:".toList then
    .error "Image inputs must use a base64 data URL; remote image URLs are not fetched.".toList
  else
    let header := (url.drop 5).takeWhile (· ≠ ',')
    let commaIndex := 5 + header.length
    if url.length ≤ commaIndex then .error "Image data URL is malformed.".toList
    else if 256 < commaIndex then .error "Image data URL metadata is too long.".toList
    else
      let pieces := headerPieces header
      let mimeType := pieces.headD []
      if ¬ supportedImageMimeTypes.contains mimeType then
        .error ("Unsupported image type '".toList ++
          (if mimeType.isEmpty then "unknown".toList else mimeType) ++
          "'. Use image/jpeg, image/png, image/webp.".toList)
      else if ¬ pieces.tail.contains "base64".toList then
        .error "Image data URLs must be base64 encoded.".toList
      else
        let encodedLength := url.length - commaIndex - 1
        let estimatedSize := encodedLength * 3 / 4
        if maxImageBytes + 3 < estimatedSize then .error oversizedImage
        else .ok (estimatedSize, mimeType, commaIndex)

/-! ### Decoding -/

/-- What opening or loading a picture may raise. -/
inductive PillowError where
  | valueError (message : Str)
  | decompressionBomb
  | unidentified

/-- An opened picture. -/
structure Picture where
  width : Int
  height : Int
  format : Option Str
  animated : Bool
  load : Except PillowError Unit

/-- `ImagePayload` -/
structure ImagePayload where
  mimeType : Str
  data : List UInt8
  width : Nat
  height : Nat

def ImagePayload.byteSize (payload : ImagePayload) : Nat := payload.data.length

def ImagePayload.pixelCount (payload : ImagePayload) : Nat := payload.width * payload.height

def PillowError.message : PillowError → Str
  | .valueError message => message
  | .decompressionBomb => "Image dimensions exceed the decoder safety limit.".toList
  | .unidentified => "Image data could not be decoded as JPEG, PNG, or WebP.".toList

/-- `format_to_mime` -/
def formatToMime (format : Str) : Option Str :=
  [("JPEG".toList, "image/jpeg".toList), ("PNG".toList, "image/png".toList),
    ("WEBP".toList, "image/webp".toList)].lookup (DeviceCheck.upper format)

/-- The checks of `decode_data_url` on an opened picture. -/
def checkPicture (mimeType : Str) (data : List UInt8) (picture : Picture) :
    Except Str ImagePayload :=
  if picture.animated then
    .error "Animated images are not supported; provide a single frame.".toList
  else if picture.width ≤ 0 ∨ picture.height ≤ 0 then
    .error "Image dimensions must be positive.".toList
  else if maxImageDimension < picture.width ∨ maxImageDimension < picture.height then
    .error "Image dimensions may not exceed 16384 pixels per side.".toList
  else if maxImagePixels < picture.width * picture.height then
    .error "Image exceeds the 25,000,000-pixel safety limit.".toList
  else
    match picture.load with
    | .error e => .error e.message
    | .ok () =>
      let actualMime := formatToMime (picture.format.getD [])
      if actualMime ≠ some mimeType then
        .error ("Image content is ".toList ++ actualMime.getD "an unknown format".toList ++
          ", not the declared ".toList ++ mimeType ++ ".".toList)
      else .ok ⟨mimeType, data, picture.width.toNat, picture.height.toNat⟩

/-- `Image.open` -/
abbrev Pillow := List UInt8 → Except PillowError Picture

/-- `decode_data_url` -/
def decodeDataUrl (pillow : Pillow) (url : Str) : Except Str ImagePayload := do
  let (_, mimeType, commaIndex) ← preflightDataUrl url
  match Base64.decode (url.drop (commaIndex + 1)) with
  | none => .error "Image data URL contains invalid base64 data.".toList
  | some data =>
    if data.isEmpty then .error "Image input is empty.".toList
    else if maxImageBytes < data.length then .error oversizedImage
    else
      match pillow data with
      | .error e => .error e.message
      | .ok picture => checkPicture mimeType data picture

/-- The reading of data URLs; the text of a payload stands in no check. -/
def imageCodec (pillow : Pillow) : ImageCodec ImagePayload where
  preflightDataUrl url := (preflightDataUrl url).map Prod.fst
  decodeDataUrl := decodeDataUrl pillow
  byteSize := ImagePayload.byteSize
  pixelCount := ImagePayload.pixelCount
  repr _ := []

/-! ### Validation of a request -/

variable (codec : JsonCodec) (pillow : Pillow)

/-- `validate_content` -/
def validateContent (content : Json) :
    Except (Failure Empty) (Option (Content ImagePayload)) :=
  match content with
  | .null => .ok none
  | content => (contentToTransportText codec (imageCodec pillow) content).map some

/-- The images of a validated content (`iter_image_payloads`). -/
def contentPayloads : Option (Content ImagePayload) → List ImagePayload
  | none => []
  | some content => content.payloads

/-- `validate_request_contents`, with a role for each content. -/
def validateRequestContents (contents : List (Str × Option (Content ImagePayload))) :
    Except (Failure Empty) Unit :=
  if contents.any fun item => !(contentPayloads item.2).isEmpty && lower item.1 != "user".toList
  then invalid "Image content is only supported in user messages.".toList
  else
    let payloads := contents.flatMap fun item => contentPayloads item.2
    if maxImagesPerRequest < payloads.length then invalid tooManyImages
    else if maxRequestImageBytes < (payloads.map ImagePayload.byteSize).sum then
      invalid tooManyBytes
    else if maxRequestImagePixels < (payloads.map ImagePayload.pixelCount).sum then
      invalid tooManyPixels
    else .ok ()

/-! ### The parts of a content -/

/-- What a well-formed content part is. -/
inductive Fragment where
  | text (s : Str)
  | image (url : Str)

def toOption {α ε : Type} : Except ε α → Option α
  | .ok a => some a
  | .error _ => none

/-- A well-formed part. -/
def readPart : Json → Option Fragment
  | .str s => some (.text s)
  | .obj fields =>
    if supportedImagePartTypes.contains (partType codec fields) then
      (toOption (imageUrlFromPart codec fields : Except (Failure Empty) Str)).map .image
    else if supportedTextPartTypes.contains (partType codec fields) ||
        (partType codec fields).isEmpty then
      (toOption (textFromPart codec fields : Except (Failure Empty) Str)).map .text
    else none
  | _ => none

/-- A content all of whose parts are well-formed. -/
def readContent : Json → Option (List Fragment)
  | .null => some []
  | .str s => some [.text s]
  | .arr parts => parts.mapM (readPart codec)
  | _ => none

def Fragment.chars : Fragment → Nat
  | .text s => s.length
  | .image _ => 0

/-- The image, if this is one and it can be decoded. -/
def Fragment.payload? : Fragment → Option ImagePayload
  | .text _ => none
  | .image url => toOption (decodeDataUrl pillow url)

/-- The fragment as a normalized part. -/
def Fragment.normalized : Fragment → Option (ContentPart ImagePayload)
  | .text s => some (.text s)
  | .image url => (toOption (decodeDataUrl pillow url)).map .image

def countedParts : Json → Nat
  | .arr parts => parts.length
  | _ => 0

def fragments (content : Json) : List Fragment := (readContent codec content).getD []

/-- The decoded images of fragments. -/
def payloads (items : List Fragment) : List ImagePayload :=
  items.filterMap (Fragment.payload? pillow)

/-- The decoded images of a whole request. -/
def decodedImages (contents : List (Str × Json)) : List ImagePayload :=
  contents.flatMap fun item => payloads pillow (fragments codec item.2)

/-- Every image among the fragments is decoded by `decode_data_url`. -/
def Decodes (items : List Fragment) : Prop :=
  ∀ item ∈ items, ∀ url, item = .image url → ∃ payload, decodeDataUrl pillow url = .ok payload

/-! ### The claims of preflight and validation -/

/-- The limits of a request on its decoded images. -/
structure WithinLimits (images : List ImagePayload) : Prop where
  count : images.length ≤ maxImagesPerRequest
  bytes : (images.map ImagePayload.byteSize).sum ≤ maxRequestImageBytes
  pixels : (images.map ImagePayload.pixelCount).sum ≤ maxRequestImagePixels

/-- A request whose decoded form keeps every limit. -/
structure Admissible (contents : List (Str × Json)) : Prop where
  wellFormed : ∀ item ∈ contents, (readContent codec item.2).isSome
  chars : (contents.map fun item => ((fragments codec item.2).map Fragment.chars).sum).sum ≤
    maxRequestTextChars
  parts : (contents.map fun item => countedParts item.2).sum ≤ maxContentPartsPerRequest
  user : ∀ item ∈ contents, ∀ url, Fragment.image url ∈ fragments codec item.2 →
    lower item.1 = "user".toList
  decodes : ∀ item ∈ contents, Decodes pillow (fragments codec item.2)
  images : WithinLimits (decodedImages codec pillow contents)

/-- All three functions accept the request. -/
structure Admitted (contents : List (Str × Json)) : Prop where
  preflight : (preflightRequestContents codec (imageCodec pillow) contents :
    Except (Failure Empty) Unit) = .ok ()
  validated : ∃ results, contents.mapM (fun item => validateContent codec pillow item.2) =
    .ok results ∧ validateRequestContents ((contents.map Prod.fst).zip results) = .ok ()

/-- The size before decoding: whole groups of three bytes. -/
def paddedSize (payload : ImagePayload) : Nat := 3 * ((payload.byteSize + 2) / 3)

/-! ### Sizes before and after decoding -/

variable {codec pillow}

theorem estimate_of_preflight {url : Str} {estimated commaIndex : Nat} {mimeType : Str}
    (h : preflightDataUrl url = .ok (estimated, mimeType, commaIndex)) :
    estimated = (url.length - commaIndex - 1) * 3 / 4 := by
  unfold preflightDataUrl at h
  split at h
  · cases h
  dsimp only at h
  split at h
  · cases h
  split at h
  · cases h
  split at h
  · cases h
  split at h
  · cases h
  split at h
  · cases h
  · cases h
    rfl

theorem data_of_checkPicture {mimeType : Str} {data : List UInt8} {picture : Picture}
    {payload : ImagePayload} (h : checkPicture mimeType data picture = .ok payload) :
    payload.data = data := by
  unfold checkPicture at h
  split at h
  · cases h
  split at h
  · cases h
  split at h
  · cases h
  split at h
  · cases h
  split at h
  · cases h
  dsimp only at h
  split at h
  · cases h
  · cases h
    rfl

/-- Before decoding an image counts with whole groups of three bytes. -/
theorem preflight_of_decode {url : Str} {payload : ImagePayload}
    (h : decodeDataUrl pillow url = .ok payload) :
    (imageCodec pillow).preflightDataUrl url = .ok (paddedSize payload) := by
  obtain ⟨⟨estimated, mimeType, commaIndex⟩, hpreflight, h⟩ := bind_eq_ok.mp h
  have hestimate := estimate_of_preflight hpreflight
  have hsize : estimated = paddedSize payload := by
    dsimp only at h
    cases hdecode : Base64.decode (url.drop (commaIndex + 1)) with
    | none =>
        rw [hdecode] at h
        cases h
    | some data =>
        rw [hdecode] at h
        have hlength := Base64.decode_length hdecode
        rw [List.length_drop] at hlength
        have hdata : payload.data = data := by
          dsimp only at h
          split at h
          · cases h
          split at h
          · cases h
          split at h
          · cases h
          · exact data_of_checkPicture h
        rw [hestimate, paddedSize, ImagePayload.byteSize, hdata, Nat.sub_sub, hlength]
        omega
  show (preflightDataUrl url).map Prod.fst = _
  rw [hpreflight, ← hsize]
  rfl

theorem paddedSize_le (payload : ImagePayload) : paddedSize payload ≤ payload.byteSize + 2 := by
  rw [paddedSize]
  omega

theorem sum_paddedSize_le (images : List ImagePayload) :
    (images.map paddedSize).sum ≤
      (images.map ImagePayload.byteSize).sum + 2 * images.length := by
  induction images with
  | nil => simp
  | cons payload images ih =>
      have hone := paddedSize_le payload
      simp only [List.map_cons, List.sum_cons, List.length_cons]
      omega

theorem payload?_image {url : Str} {payload : ImagePayload}
    (h : decodeDataUrl pillow url = .ok payload) :
    Fragment.payload? pillow (.image url) = some payload := by
  rw [Fragment.payload?, h]
  rfl

/-! ### One part -/

theorem toOption_eq_some {α ε : Type} {x : Except ε α} {a : α} :
    toOption x = some a ↔ x = .ok a := by
  cases x <;> simp [toOption]

theorem accountPart_eq {t : RequestTotals} (h : t.contentParts + 1 ≤ maxContentPartsPerRequest) :
    (t.accountPart : Except (Failure Empty) RequestTotals) =
      .ok { t with contentParts := t.contentParts + 1 } :=
  if_neg (not_lt.mpr h)

theorem accountText_eq {t : RequestTotals} {text : Str}
    (h : t.textChars + text.length ≤ maxRequestTextChars) :
    (t.accountText text : Except (Failure Empty) RequestTotals) =
      .ok { t with textChars := t.textChars + text.length } :=
  if_neg (not_lt.mpr h)

/-- What a text part adds. -/
theorem preflightPart_text {role : Str} {t : RequestTotals} {part : Json} {s : Str}
    (hread : readPart codec part = some (.text s))
    (hparts : t.contentParts + 1 ≤ maxContentPartsPerRequest)
    (hchars : t.textChars + s.length ≤ maxRequestTextChars) :
    (preflightPart codec (imageCodec pillow) role t part :
      Except (Failure Empty) RequestTotals) =
      .ok { t with textChars := t.textChars + s.length, contentParts := t.contentParts + 1 } := by
  rw [preflightPart, accountPart_eq hparts]
  cases part with
  | str text =>
      obtain rfl : text = s := by simpa [readPart] using hread
      exact accountText_eq hchars
  | obj fields =>
      rw [readPart] at hread
      split at hread
      · obtain ⟨url, -, h⟩ := Option.map_eq_some_iff.mp hread
        cases h
      · next himage =>
        split at hread
        · next htext =>
          obtain ⟨text, hok, h⟩ := Option.map_eq_some_iff.mp hread
          cases h
          have hok' := toOption_eq_some.mp hok
          show (if supportedImagePartTypes.contains (partType codec fields) = true then _
            else _) = _
          rw [if_neg himage, if_pos htext, hok']
          exact accountText_eq hchars
        · cases hread
  | _ => cases hread

/-- What an image part adds. -/
theorem preflightPart_image {role : Str} {t : RequestTotals} {part : Json} {url : Str}
    {payload : ImagePayload} (hread : readPart codec part = some (.image url))
    (hdecode : decodeDataUrl pillow url = .ok payload) (hrole : lower role = "user".toList)
    (hparts : t.contentParts + 1 ≤ maxContentPartsPerRequest)
    (hcount : t.imageCount + 1 ≤ maxImagesPerRequest)
    (hbytes : t.estimatedBytes + paddedSize payload ≤
      maxRequestImageBytes + 3 * (t.imageCount + 1)) :
    (preflightPart codec (imageCodec pillow) role t part :
      Except (Failure Empty) RequestTotals) =
      .ok { t with
        imageCount := t.imageCount + 1
        estimatedBytes := t.estimatedBytes + paddedSize payload
        contentParts := t.contentParts + 1 } := by
  rw [preflightPart, accountPart_eq hparts]
  cases part with
  | obj fields =>
      rw [readPart] at hread
      split at hread
      · next himage =>
        obtain ⟨url', hok, h⟩ := Option.map_eq_some_iff.mp hread
        cases h
        have hok' := toOption_eq_some.mp hok
        show (if supportedImagePartTypes.contains (partType codec fields) = true then _
          else _) = _
        rw [if_pos himage, if_neg (not_not.mpr hrole), hok']
        show (raising ((imageCodec pillow).preflightDataUrl url) >>= _) = _
        rw [preflight_of_decode hdecode]
        show (if maxImagesPerRequest < t.imageCount + 1 then _ else if _ then _ else _) = _
        rw [if_neg (not_lt.mpr hcount), if_neg (not_lt.mpr hbytes)]
      · split at hread
        · obtain ⟨text, -, h⟩ := Option.map_eq_some_iff.mp hread
          cases h
        · cases hread
  | str text => simp [readPart] at hread
  | _ => cases hread

/-! ### All parts -/

/-- What comes next still fits.  The estimate so far exceeds the bytes by at most two for
each image. -/
structure Fits (t : RequestTotals) (chars parts : Nat) (images : List ImagePayload) : Prop where
  chars : t.textChars + chars ≤ maxRequestTextChars
  parts : t.contentParts + parts ≤ maxContentPartsPerRequest
  count : t.imageCount + images.length ≤ maxImagesPerRequest
  bytes : t.estimatedBytes + (images.map ImagePayload.byteSize).sum ≤
    maxRequestImageBytes + 2 * t.imageCount

/-- The totals behind more texts, parts and images. -/
def behind (t : RequestTotals) (chars parts : Nat) (images : List ImagePayload) :
    RequestTotals where
  imageCount := t.imageCount + images.length
  estimatedBytes := t.estimatedBytes + (images.map paddedSize).sum
  textChars := t.textChars + chars
  contentParts := t.contentParts + parts

theorem Fits.behind {t : RequestTotals} {chars chars' parts parts' : Nat}
    {images images' : List ImagePayload}
    (h : Fits t (chars + chars') (parts + parts') (images ++ images')) :
    Fits (behind t chars parts images) chars' parts' images' := by
  have hpadded := sum_paddedSize_le images
  obtain ⟨hchars, hparts, hcount, hbytes⟩ := h
  simp only [List.length_append, List.map_append, List.sum_append] at hcount hbytes
  refine ⟨?_, ?_, ?_, ?_⟩
  · show t.textChars + chars + chars' ≤ _
    omega
  · show t.contentParts + parts + parts' ≤ _
    omega
  · show t.imageCount + images.length + images'.length ≤ _
    omega
  · show t.estimatedBytes + (images.map paddedSize).sum + _ ≤ _ + 2 * (t.imageCount + images.length)
    omega

theorem behind_behind (t : RequestTotals) (chars chars' parts parts' : Nat)
    (images images' : List ImagePayload) :
    behind (behind t chars parts images) chars' parts' images' =
      behind t (chars + chars') (parts + parts') (images ++ images') := by
  simp [behind, Nat.add_assoc]

/-- The parts of a list content in `preflight_request_contents`. -/
theorem preflightParts_eq {role : Str} {parts : List Json} {items : List Fragment}
    {t : RequestTotals} (hread : parts.mapM (readPart codec) = some items)
    (hdecodes : Decodes pillow items)
    (huser : ∀ url, Fragment.image url ∈ items → lower role = "user".toList)
    (hfits : Fits t (items.map Fragment.chars).sum parts.length (payloads pillow items)) :
    (parts.foldlM (preflightPart codec (imageCodec pillow) role) t :
      Except (Failure Empty) RequestTotals) =
      .ok (behind t (items.map Fragment.chars).sum parts.length (payloads pillow items)) := by
  induction parts generalizing items t with
  | nil =>
      obtain rfl : items = [] := by simpa using hread.symm
      rfl
  | cons part parts ih =>
      rw [List.mapM_cons] at hread
      obtain ⟨item, hpart, hread⟩ := Option.bind_eq_some_iff.mp hread
      obtain ⟨rest, hrest, hread⟩ := Option.bind_eq_some_iff.mp hread
      obtain rfl : item :: rest = items := Option.some.inj hread
      have hlength : (part :: parts).length = 1 + parts.length := by
        rw [List.length_cons, Nat.add_comm]
      have hsplit : payloads pillow (item :: rest) =
          payloads pillow [item] ++ payloads pillow rest := by
        rw [payloads, payloads, payloads, ← List.filterMap_append, List.singleton_append]
      rw [List.map_cons, List.sum_cons, hlength, hsplit] at hfits ⊢
      -- the first part by itself
      have hfirst : (preflightPart codec (imageCodec pillow) role t part :
          Except (Failure Empty) RequestTotals) =
          .ok (behind t item.chars 1 (payloads pillow [item])) := by
        have hone : t.contentParts + 1 ≤ maxContentPartsPerRequest := by
          have := hfits.parts
          omega
        cases item with
        | text s =>
            have hchars : t.textChars + s.length ≤ maxRequestTextChars := by
              have := hfits.chars
              simp only [Fragment.chars] at this
              omega
            exact preflightPart_text hpart hone hchars
        | image url =>
            obtain ⟨payload, hdecode⟩ := hdecodes _ List.mem_cons_self url rfl
            have hpayloads : payloads pillow [.image url] = [payload] := by
              simp [payloads, payload?_image hdecode]
            rw [hpayloads] at hfits ⊢
            have hsize := paddedSize_le payload
            have hcount := hfits.count
            have hbytes := hfits.bytes
            simp only [List.length_append, List.length_singleton] at hcount
            simp only [List.map_append, List.map_singleton, List.sum_append,
              List.sum_singleton] at hbytes
            rw [preflightPart_image hpart hdecode (huser url List.mem_cons_self) hone (by omega)
              (by omega)]
            simp [behind, Fragment.chars]
      have hnext := ih hrest (fun i hi => hdecodes i (List.mem_cons_of_mem _ hi))
        (fun url hurl => huser url (List.mem_cons_of_mem _ hurl)) hfits.behind
      rw [List.foldlM_cons, hfirst]
      show List.foldlM _ (behind t item.chars 1 (payloads pillow [item])) parts = _
      rw [hnext, behind_behind]

theorem behind_nil (t : RequestTotals) : behind t 0 0 [] = t := rfl

/-- One content in `preflight_request_contents`. -/
theorem preflightContent_eq {item : Str × Json} {items : List Fragment} {t : RequestTotals}
    (hread : readContent codec item.2 = some items) (hdecodes : Decodes pillow items)
    (huser : ∀ url, Fragment.image url ∈ items → lower item.1 = "user".toList)
    (hfits : Fits t (items.map Fragment.chars).sum (countedParts item.2)
      (payloads pillow items)) :
    (preflightContent codec (imageCodec pillow) t item : Except (Failure Empty) RequestTotals) =
      .ok (behind t (items.map Fragment.chars).sum (countedParts item.2)
        (payloads pillow items)) := by
  obtain ⟨role, content⟩ := item
  cases content with
  | null =>
      obtain rfl : items = [] := (Option.some.inj hread).symm
      rfl
  | str s =>
      obtain rfl : items = [.text s] := (Option.some.inj hread).symm
      exact accountText_eq hfits.chars
  | arr parts => exact preflightParts_eq hread hdecodes huser hfits
  | _ => cases hread

/-- The characters of a request. -/
def totalChars (codec : JsonCodec) (contents : List (Str × Json)) : Nat :=
  (contents.map fun item => ((fragments codec item.2).map Fragment.chars).sum).sum

def totalParts (contents : List (Str × Json)) : Nat :=
  (contents.map fun item => countedParts item.2).sum

/-- All contents in `preflight_request_contents`. -/
theorem preflightContents_eq {contents : List (Str × Json)} {t : RequestTotals}
    (hread : ∀ item ∈ contents, (readContent codec item.2).isSome)
    (hdecodes : ∀ item ∈ contents, Decodes pillow (fragments codec item.2))
    (huser : ∀ item ∈ contents, ∀ url, Fragment.image url ∈ fragments codec item.2 →
      lower item.1 = "user".toList)
    (hfits : Fits t (totalChars codec contents) (totalParts contents)
      (decodedImages codec pillow contents)) :
    (contents.foldlM (preflightContent codec (imageCodec pillow)) t :
      Except (Failure Empty) RequestTotals) =
      .ok (behind t (totalChars codec contents) (totalParts contents)
        (decodedImages codec pillow contents)) := by
  induction contents generalizing t with
  | nil => rfl
  | cons item contents ih =>
      obtain ⟨items, hitems⟩ := Option.isSome_iff_exists.mp (hread item List.mem_cons_self)
      have hfragments : fragments codec item.2 = items := by rw [fragments, hitems]; rfl
      have hsplit : decodedImages codec pillow (item :: contents) =
          payloads pillow items ++ decodedImages codec pillow contents := by
        rw [decodedImages, List.flatMap_cons, hfragments]
        rfl
      have hchars : totalChars codec (item :: contents) =
          (items.map Fragment.chars).sum + totalChars codec contents := by
        rw [totalChars, List.map_cons, List.sum_cons, hfragments]
        rfl
      have hparts : totalParts (item :: contents) = countedParts item.2 + totalParts contents :=
        rfl
      rw [hsplit, hchars, hparts] at hfits ⊢
      have hhead : Fits t (items.map Fragment.chars).sum (countedParts item.2)
          (payloads pillow items) := by
        obtain ⟨h₁, h₂, h₃, h₄⟩ := hfits
        simp only [List.length_append, List.map_append, List.sum_append] at h₃ h₄
        exact ⟨by omega, by omega, by omega, by omega⟩
      have hfirst := preflightContent_eq hitems (hfragments ▸ hdecodes item List.mem_cons_self)
        (hfragments ▸ huser item List.mem_cons_self) hhead
      have hnext := ih (fun i hi => hread i (List.mem_cons_of_mem _ hi))
        (fun i hi => hdecodes i (List.mem_cons_of_mem _ hi))
        (fun i hi => huser i (List.mem_cons_of_mem _ hi)) hfits.behind
      rw [List.foldlM_cons, hfirst]
      show List.foldlM _ (behind t (items.map Fragment.chars).sum (countedParts item.2)
        (payloads pillow items)) contents = _
      rw [hnext, behind_behind]

/-- **Preflight of an admissible request** is decided by its padded sizes alone. -/
theorem preflightRequestContents_eq {contents : List (Str × Json)}
    (hread : ∀ item ∈ contents, (readContent codec item.2).isSome)
    (hdecodes : ∀ item ∈ contents, Decodes pillow (fragments codec item.2))
    (huser : ∀ item ∈ contents, ∀ url, Fragment.image url ∈ fragments codec item.2 →
      lower item.1 = "user".toList)
    (hchars : totalChars codec contents ≤ maxRequestTextChars)
    (hparts : totalParts contents ≤ maxContentPartsPerRequest)
    (himages : WithinLimits (decodedImages codec pillow contents)) :
    (preflightRequestContents codec (imageCodec pillow) contents : Except (Failure Empty) Unit) =
      if maxRequestImageBytes < ((decodedImages codec pillow contents).map paddedSize).sum then
        invalid tooManyBytes
      else .ok () := by
  have hfits : Fits {} (totalChars codec contents) (totalParts contents)
      (decodedImages codec pillow contents) := by
    refine ⟨?_, ?_, ?_, ?_⟩
    · show 0 + _ ≤ _
      omega
    · show 0 + _ ≤ _
      omega
    · show 0 + _ ≤ _
      have := himages.count
      omega
    · show 0 + _ ≤ _ + 2 * 0
      have := himages.bytes
      omega
  rw [preflightRequestContents, preflightContents_eq hread hdecodes huser hfits]
  show (if maxImagesPerRequest < 0 + (decodedImages codec pillow contents).length then _
    else if maxRequestImageBytes <
      0 + ((decodedImages codec pillow contents).map paddedSize).sum then _ else _) = _
  rw [Nat.zero_add, Nat.zero_add, if_neg (not_lt.mpr himages.count)]

/-! ### Validation -/

/-- The parts of an admissible content are normalized. -/
theorem normalizeParts_eq {parts : List Json} {items : List Fragment} {count bytes pixels : Nat}
    (hread : parts.mapM (readPart codec) = some items) (hdecodes : Decodes pillow items)
    (hcount : count + (payloads pillow items).length ≤ maxImagesPerRequest)
    (hbytes : bytes + ((payloads pillow items).map ImagePayload.byteSize).sum ≤
      maxRequestImageBytes)
    (hpixels : pixels + ((payloads pillow items).map ImagePayload.pixelCount).sum ≤
      maxRequestImagePixels) :
    (normalizeParts codec (imageCodec pillow) count bytes pixels parts :
      Except (Failure Empty) (List (ContentPart ImagePayload))) =
      .ok (items.filterMap (Fragment.normalized pillow)) := by
  induction parts generalizing items count bytes pixels with
  | nil =>
      obtain rfl : items = [] := by simpa using hread.symm
      rfl
  | cons part parts ih =>
      rw [List.mapM_cons] at hread
      obtain ⟨item, hpart, hread⟩ := Option.bind_eq_some_iff.mp hread
      obtain ⟨rest, hrest, hread⟩ := Option.bind_eq_some_iff.mp hread
      obtain rfl : item :: rest = items := Option.some.inj hread
      have hdecodes' : Decodes pillow rest := fun i hi => hdecodes i (List.mem_cons_of_mem _ hi)
      cases part with
      | str s =>
          obtain rfl : item = .text s := by simpa [readPart] using hpart.symm
          rw [normalizeParts, ih hrest hdecodes' hcount hbytes hpixels]
          rfl
      | obj fields =>
          rw [readPart] at hpart
          rw [normalizeParts]
          split at hpart
          · next himage =>
            obtain ⟨url, hok, rfl⟩ := Option.map_eq_some_iff.mp hpart
            obtain ⟨payload, hdecode⟩ := hdecodes _ List.mem_cons_self url rfl
            have hpayloads : payloads pillow (.image url :: rest) =
                payload :: payloads pillow rest :=
              List.filterMap_cons_some (payload?_image hdecode)
            rw [hpayloads] at hcount hbytes hpixels
            simp only [List.length_cons, List.map_cons, List.sum_cons] at hcount hbytes hpixels
            have hnext := @ih rest (count + 1) (bytes + payload.byteSize)
              (pixels + payload.pixelCount) hrest hdecodes' (by omega) (by omega) (by omega)
            have hnormalized : Fragment.normalized pillow (.image url) = some (.image payload) := by
              rw [Fragment.normalized, toOption_eq_some.mpr hdecode]
              rfl
            rw [if_pos himage, toOption_eq_some.mp hok, List.filterMap_cons_some hnormalized]
            show (raising (decodeDataUrl pillow url) >>= _) = _
            rw [hdecode]
            show (if maxImagesPerRequest < count + 1 then _
              else if maxRequestImageBytes < bytes + payload.byteSize then _
              else if maxRequestImagePixels < pixels + payload.pixelCount then _ else _) = _
            rw [if_neg (by omega), if_neg (by omega), if_neg (by omega)]
            show (normalizeParts codec (imageCodec pillow) (count + 1) (bytes + payload.byteSize)
              (pixels + payload.pixelCount) parts >>= _) = _
            rw [hnext]
            rfl
          · next himage =>
            split at hpart
            · next htext =>
              obtain ⟨text, hok, rfl⟩ := Option.map_eq_some_iff.mp hpart
              rw [if_neg himage, if_pos htext, toOption_eq_some.mp hok]
              show (normalizeParts codec (imageCodec pillow) count bytes pixels parts >>= _) = _
              rw [ih hrest hdecodes' hcount hbytes hpixels]
              rfl
            · cases hpart
      | _ => cases hpart

/-- Whatever is normalized was well-formed, and every image of it was decoded. -/
theorem of_normalizeParts {parts : List Json} {normalized : List (ContentPart ImagePayload)}
    {count bytes pixels : Nat}
    (h : (normalizeParts codec (imageCodec pillow) count bytes pixels parts :
      Except (Failure Empty) (List (ContentPart ImagePayload))) = .ok normalized) :
    ∃ items, parts.mapM (readPart codec) = some items ∧ Decodes pillow items ∧
      normalized = items.filterMap (Fragment.normalized pillow) := by
  induction parts generalizing normalized count bytes pixels with
  | nil =>
      cases h
      exact ⟨[], rfl, fun item hitem => absurd hitem (by simp), rfl⟩
  | cons part parts ih =>
      cases part with
      | str s =>
          obtain ⟨tail, htail, h⟩ := bind_eq_ok.mp h
          cases h
          obtain ⟨items, hread, hdecodes, rfl⟩ := ih htail
          refine ⟨.text s :: items, ?_, ?_, rfl⟩
          · rw [List.mapM_cons, hread]
            rfl
          · rintro item hitem url rfl
            exact hdecodes _ (by simpa using hitem) url rfl
      | obj fields =>
          rw [normalizeParts] at h
          split at h
          · next himage =>
            obtain ⟨url, hurl, h⟩ := bind_eq_ok.mp h
            obtain ⟨payload, hraised, h⟩ := bind_eq_ok.mp h
            have hdecode : decodeDataUrl pillow url = .ok payload := by
              have hraised' : raising (decodeDataUrl pillow url) =
                  (.ok payload : Except (Failure Empty) ImagePayload) := hraised
              cases hdecode : decodeDataUrl pillow url with
              | ok other =>
                  rw [hdecode] at hraised'
                  cases hraised'
                  rfl
              | error message =>
                  rw [hdecode] at hraised'
                  cases hraised'
            dsimp only at h
            split at h
            · cases h
            split at h
            · cases h
            split at h
            · cases h
            obtain ⟨tail, htail, h⟩ := bind_eq_ok.mp h
            cases h
            obtain ⟨items, hread, hdecodes, rfl⟩ := ih htail
            have hpart : readPart codec (.obj fields) = some (.image url) := by
              rw [readPart, if_pos himage, hurl]
              rfl
            have hnormalized : Fragment.normalized pillow (.image url) = some (.image payload) := by
              rw [Fragment.normalized, toOption_eq_some.mpr hdecode]
              rfl
            refine ⟨.image url :: items, ?_, ?_, ?_⟩
            · rw [List.mapM_cons, hread, hpart]
              rfl
            · rintro item hitem url' rfl
              rcases List.mem_cons.mp hitem with heq | hmem
              · cases heq
                exact ⟨payload, hdecode⟩
              · exact hdecodes _ hmem url' rfl
            · rw [List.filterMap_cons_some hnormalized]
          · next himage =>
            split at h
            · next htext =>
              obtain ⟨text, hok, h⟩ := bind_eq_ok.mp h
              obtain ⟨tail, htail, h⟩ := bind_eq_ok.mp h
              cases h
              obtain ⟨items, hread, hdecodes, rfl⟩ := ih htail
              have hpart : readPart codec (.obj fields) = some (.text text) := by
                rw [readPart, if_neg himage, if_pos htext, hok]
                rfl
              refine ⟨.text text :: items, ?_, ?_, rfl⟩
              · rw [List.mapM_cons, hread, hpart]
                rfl
              · rintro item hitem url rfl
                exact hdecodes _ (by simpa using hitem) url rfl
            · cases h
      | _ => cases h

/-- The images of the normalized parts are the decoded ones. -/
theorem payloads_normalized (items : List Fragment) :
    (Content.multimodal (items.filterMap (Fragment.normalized pillow))).payloads =
      payloads pillow items := by
  rw [Content.payloads, payloads, List.filterMap_filterMap]
  refine List.filterMap_congr fun item _ => ?_
  cases item with
  | text s => rfl
  | image url =>
      rw [Fragment.normalized, Fragment.payload?]
      cases toOption (decodeDataUrl pillow url) <;> rfl

/-- Parts without an image: all of them are texts. -/
theorem payloads_of_allText {normalized : List (ContentPart ImagePayload)}
    (h : normalized.all isTextPart = true) : (Content.multimodal normalized).payloads = [] := by
  rw [Content.payloads, List.filterMap_eq_nil_iff]
  intro part hpart
  have htext := List.all_eq_true.mp h part hpart
  cases part with
  | text s => rfl
  | image payload => cases htext

/-- Every image of a validated content was decoded. -/
theorem of_validateContent {content : Json} {result : Option (Content ImagePayload)}
    (h : validateContent codec pillow content = .ok result) :
    (readContent codec content).isSome ∧ Decodes pillow (fragments codec content) ∧
      contentPayloads result = payloads pillow (fragments codec content) := by
  have hnone : Decodes pillow [] := fun item hitem => absurd hitem (by simp)
  cases content with
  | null =>
      cases h
      exact ⟨rfl, hnone, rfl⟩
  | str s =>
      cases h
      refine ⟨rfl, ?_, rfl⟩
      rintro item hitem url rfl
      simp [fragments, readContent] at hitem
  | arr parts =>
      obtain ⟨transported, htransport, rfl⟩ := map_eq_ok.mp h
      obtain ⟨_, -, htransport⟩ := bind_eq_ok.mp htransport
      obtain ⟨normalized, hnormalized, htransport⟩ := bind_eq_ok.mp htransport
      obtain ⟨items, hread, hdecodes, rfl⟩ := of_normalizeParts hnormalized
      have hfragments : fragments codec (.arr parts) = items := by
        rw [fragments, readContent, hread]
        rfl
      have hpayloads := @payloads_normalized pillow items
      rw [hfragments]
      refine ⟨by rw [readContent, hread]; rfl, hdecodes, ?_⟩
      rw [← hpayloads]
      split at htransport
      · next htext =>
        cases htransport
        rw [payloads_of_allText htext]
        rfl
      · obtain ⟨_, -, htransport⟩ := bind_eq_ok.mp htransport
        cases htransport
        rfl
  | _ => cases h

theorem validateRequestContent_eq {content : Content ImagePayload}
    (h : WithinLimits content.payloads) :
    (validateRequestContent (imageCodec pillow) content : Except (Failure Empty) Unit) =
      .ok () := by
  have hbytes : (content.payloads.map (imageCodec pillow).byteSize).sum ≤ maxRequestImageBytes :=
    h.bytes
  have hpixels : (content.payloads.map (imageCodec pillow).pixelCount).sum ≤
      maxRequestImagePixels := h.pixels
  rw [validateRequestContent, if_neg (not_lt.mpr h.count), if_neg (not_lt.mpr hbytes),
    if_neg (not_lt.mpr hpixels)]

/-- A content within the limits, also by its padded sizes, is validated. -/
theorem validateContent_eq {content : Json} {items : List Fragment}
    (hread : readContent codec content = some items) (hdecodes : Decodes pillow items)
    (hchars : (items.map Fragment.chars).sum ≤ maxRequestTextChars)
    (hparts : countedParts content ≤ maxContentPartsPerRequest)
    (himages : WithinLimits (payloads pillow items))
    (hpadded : ((payloads pillow items).map paddedSize).sum ≤ maxRequestImageBytes) :
    ∃ result, validateContent codec pillow content = .ok result := by
  cases content with
  | null => exact ⟨none, rfl⟩
  | str s => exact ⟨some (.text s), rfl⟩
  | arr parts =>
      have hfragments : fragments codec (.arr parts) = items := by
        rw [fragments, hread]
        rfl
      have hpreflight : (preflightRequestContents codec (imageCodec pillow)
          [("user".toList, .arr parts)] : Except (Failure Empty) Unit) = .ok () := by
        have hdecoded : decodedImages codec pillow [("user".toList, .arr parts)] =
            payloads pillow items := by
          rw [decodedImages, List.flatMap_singleton, hfragments]
        rw [preflightRequestContents_eq, hdecoded, if_neg (not_lt.mpr hpadded)]
        · simp [hread]
        · simpa [hfragments] using hdecodes
        · rintro item hitem - -
          rw [List.mem_singleton.mp hitem]
          show lower "user".toList = "user".toList
          decide
        · simpa [totalChars, hfragments] using hchars
        · simpa [totalParts] using hparts
        · rw [hdecoded]
          exact himages
      have hnormalized := @normalizeParts_eq codec pillow parts items 0 0 0 hread hdecodes
        (by rw [Nat.zero_add]; exact himages.count) (by rw [Nat.zero_add]; exact himages.bytes)
        (by rw [Nat.zero_add]; exact himages.pixels)
      have htransport : ∃ transported, (contentToTransportText codec (imageCodec pillow)
          (.arr parts) : Except (Failure Empty) (Content ImagePayload)) = .ok transported := by
        rw [contentToTransportText, hpreflight]
        show ∃ transported, (normalizeParts codec (imageCodec pillow) 0 0 0 parts >>= _) = _
        rw [hnormalized]
        show ∃ transported, (if (items.filterMap (Fragment.normalized pillow)).all isTextPart = true
          then _ else _) = _
        split
        · exact ⟨_, rfl⟩
        · rw [validateRequestContent_eq (by rw [payloads_normalized]; exact himages)]
          exact ⟨_, rfl⟩
      obtain ⟨transported, htransport⟩ := htransport
      refine ⟨some transported, ?_⟩
      show (contentToTransportText codec (imageCodec pillow) (.arr parts)).map some = _
      rw [htransport]
      rfl
  | _ => cases hread

/-! ### Whole requests -/

/-- The images of the validated contents are the decoded images of the request. -/
theorem decodedImages_of_validated {contents : List (Str × Json)}
    {results : List (Option (Content ImagePayload))}
    (h : List.Forall₂ (fun item result => validateContent codec pillow item.2 = .ok result)
      contents results) :
    ((contents.map Prod.fst).zip results).flatMap (fun item => contentPayloads item.2) =
      decodedImages codec pillow contents := by
  induction h with
  | nil => rfl
  | @cons item result contents results hitem _ ih =>
      rw [List.map_cons, List.zip_cons_cons, List.flatMap_cons, ih]
      show contentPayloads result ++ _ = payloads pillow (fragments codec item.2) ++
        decodedImages codec pillow contents
      rw [(of_validateContent hitem).2.2]

/-- Images stand in user messages only, also after validation. -/
theorem roles_of_validated {contents : List (Str × Json)}
    {results : List (Option (Content ImagePayload))}
    (h : List.Forall₂ (fun item result => validateContent codec pillow item.2 = .ok result)
      contents results)
    (huser : ∀ item ∈ contents, ∀ url, Fragment.image url ∈ fragments codec item.2 →
      lower item.1 = "user".toList) :
    ∀ item ∈ (contents.map Prod.fst).zip results, contentPayloads item.2 ≠ [] →
      lower item.1 = "user".toList := by
  induction h with
  | nil => exact fun item hitem => absurd hitem (by simp)
  | @cons item result contents results hitem _ ih =>
      rw [List.map_cons, List.zip_cons_cons]
      intro pair hpair himages
      rcases List.mem_cons.mp hpair with rfl | hpair
      · have hpayloads := (of_validateContent hitem).2.2
        dsimp only at himages
        rw [hpayloads, payloads] at himages
        obtain ⟨payload, hpayload⟩ := List.exists_mem_of_ne_nil _ himages
        obtain ⟨fragment, hfragment, hsome⟩ := List.mem_filterMap.mp hpayload
        cases fragment with
        | text s => cases hsome
        | image url => exact huser item List.mem_cons_self url hfragment
      · exact ih (fun i hi => huser i (List.mem_cons_of_mem _ hi)) pair hpair himages

theorem validateRequestContents_eq_ok {contents : List (Str × Option (Content ImagePayload))} :
    validateRequestContents contents = .ok () ↔
      (∀ item ∈ contents, contentPayloads item.2 ≠ [] → lower item.1 = "user".toList) ∧
        WithinLimits (contents.flatMap fun item => contentPayloads item.2) := by
  have hroles : (contents.any fun item =>
      !(contentPayloads item.2).isEmpty && lower item.1 != "user".toList) = true ↔
      ¬ ∀ item ∈ contents, contentPayloads item.2 ≠ [] → lower item.1 = "user".toList := by
    simp [List.any_eq_true]
  rw [validateRequestContents]
  split
  · next hany => exact ⟨nofun, fun h => absurd h.1 (hroles.mp hany)⟩
  · next hany =>
    have huser := not_not.mp (mt hroles.mpr hany)
    dsimp only
    split
    · next hcount => exact ⟨nofun, fun h => absurd h.2.count (not_le.mpr hcount)⟩
    · next hcount =>
      split
      · next hbytes => exact ⟨nofun, fun h => absurd h.2.bytes (not_le.mpr hbytes)⟩
      · next hbytes =>
        split
        · next hpixels => exact ⟨nofun, fun h => absurd h.2.pixels (not_le.mpr hpixels)⟩
        · next hpixels =>
          exact ⟨fun _ => ⟨huser, not_lt.mp hcount, not_lt.mp hbytes, not_lt.mp hpixels⟩,
            fun _ => rfl⟩

/-- Whenever all three accept, the decoded images are within the limits. -/
theorem Admitted.within {contents : List (Str × Json)} (h : Admitted codec pillow contents) :
    (∀ item ∈ contents, Decodes pillow (fragments codec item.2)) ∧
      WithinLimits (decodedImages codec pillow contents) := by
  obtain ⟨results, hresults, hrequest⟩ := h.validated
  have hall := mapM_eq_ok.mp hresults
  refine ⟨fun item hitem => ?_, ?_⟩
  · obtain ⟨result, hresult⟩ := mapM_mem hresults item hitem
    exact (of_validateContent hresult).2.1
  · rw [← decodedImages_of_validated hall]
    exact (validateRequestContents_eq_ok.mp hrequest).2

theorem totals_le {contents : List (Str × Json)} {item : Str × Json} (hitem : item ∈ contents)
    (f : Str × Json → Nat) : f item ≤ (contents.map f).sum :=
  List.single_le_sum (by simp) _ (List.mem_map_of_mem hitem)

theorem Admissible.preflight_eq {contents : List (Str × Json)}
    (h : Admissible codec pillow contents) :
    (preflightRequestContents codec (imageCodec pillow) contents : Except (Failure Empty) Unit) =
      if maxRequestImageBytes < ((decodedImages codec pillow contents).map paddedSize).sum then
        invalid tooManyBytes
      else .ok () :=
  preflightRequestContents_eq h.wellFormed h.decodes h.user h.chars h.parts h.images

/-- An admissible request is accepted where its padded sizes are within the limit. -/
theorem Admissible.accepted {contents : List (Str × Json)} (h : Admissible codec pillow contents)
    (hpadded : ((decodedImages codec pillow contents).map paddedSize).sum ≤
      maxRequestImageBytes) : Admitted codec pillow contents := by
  have hpreflight := h.preflight_eq
  rw [if_neg (not_lt.mpr hpadded)] at hpreflight
  have heach : ∀ item ∈ contents, ∃ result, validateContent codec pillow item.2 = .ok result := by
    intro item hitem
    obtain ⟨items, hread⟩ := Option.isSome_iff_exists.mp (h.wellFormed item hitem)
    have hfragments : fragments codec item.2 = items := by
      rw [fragments, hread]
      rfl
    -- what holds of the whole request holds of its part
    have hsublist : (payloads pillow items).Sublist (decodedImages codec pillow contents) := by
      rw [← hfragments]
      exact List.sublist_flatten_of_mem (List.mem_map_of_mem hitem)
    have hsum : ∀ f : ImagePayload → Nat, ((payloads pillow items).map f).sum ≤
        ((decodedImages codec pillow contents).map f).sum :=
      fun f => (hsublist.map f).sum_le_sum (fun _ _ => Nat.zero_le _)
    refine validateContent_eq hread (hfragments ▸ h.decodes item hitem) ?_ ?_ ?_ ?_
    · have := totals_le hitem fun item => ((fragments codec item.2).map Fragment.chars).sum
      rw [hfragments] at this
      exact this.trans h.chars
    · exact (totals_le hitem fun item => countedParts item.2).trans h.parts
    · exact ⟨hsublist.length_le.trans h.images.count, (hsum _).trans h.images.bytes,
        (hsum _).trans h.images.pixels⟩
    · exact (hsum _).trans hpadded
  obtain ⟨results, hall⟩ : ∃ results, List.Forall₂
      (fun item result => validateContent codec pillow item.2 = .ok result) contents results := by
    clear hpreflight hpadded h
    induction contents with
    | nil => exact ⟨[], .nil⟩
    | cons item contents ih =>
        obtain ⟨result, hresult⟩ := heach item List.mem_cons_self
        obtain ⟨results, hresults⟩ := ih fun i hi => heach i (List.mem_cons_of_mem _ hi)
        exact ⟨result :: results, .cons hresult hresults⟩
  refine ⟨hpreflight, results, mapM_eq_ok.mpr hall, ?_⟩
  refine validateRequestContents_eq_ok.mpr ⟨roles_of_validated hall h.user, ?_⟩
  rw [decodedImages_of_validated hall]
  exact h.images

/-- **What preflight rejects.**  The three functions accept every request whose decoded form
is within the limits, and only such, exactly if its images are also within the byte limit
when each counts with whole groups of three bytes. -/
theorem preflight_admits_iff (codec : JsonCodec) (pillow : Pillow)
    (contents : List (Str × Json)) :
    ((Admissible codec pillow contents → Admitted codec pillow contents) ∧
      (Admitted codec pillow contents →
        (∀ item ∈ contents, Decodes pillow (fragments codec item.2)) ∧
          WithinLimits (decodedImages codec pillow contents))) ↔
      (Admissible codec pillow contents →
        ((decodedImages codec pillow contents).map paddedSize).sum ≤ maxRequestImageBytes) := by
  constructor
  · rintro ⟨h, -⟩ hadmissible
    have haccepted := (h hadmissible).preflight
    rw [hadmissible.preflight_eq] at haccepted
    by_contra hover
    rw [if_pos (not_le.mp hover)] at haccepted
    cases haccepted
  · exact fun h => ⟨fun hadmissible => hadmissible.accepted (h hadmissible), Admitted.within⟩

/-! ### Three images of eight MiB -/

/-- The text of a picture of one pixel in base64. -/
def pngText : Str :=
  ("iVBORw0KGgoAAAANSUhEUgAAAAEAAAABCAAAAAA6fptVAAAACklEQVR4" ++
    "nGNgAAAAAgABSK+kcQAAAABJRU5ErkJgggAA").toList

def pngBytes : List UInt8 :=
  [137, 80, 78, 71, 13, 10, 26, 10, 0, 0, 0, 13, 73, 72, 68, 82, 0, 0, 0, 1, 0, 0, 0, 1, 8, 0, 0,
    0, 0, 58, 126, 155, 85, 0, 0, 0, 10, 73, 68, 65, 84, 120, 156, 99, 96, 0, 0, 0, 2, 0, 1, 72,
    175, 164, 113, 0, 0, 0, 0, 73, 69, 78, 68, 174, 66, 96, 130, 0, 0]

/-- Pillow, on the picture with whatever follows it. -/
def onePixel : Pillow := fun data =>
  if data.take pngBytes.length = pngBytes then .ok ⟨1, 1, some "PNG".toList, false, .ok ()⟩
  else .error .unidentified

/-- The picture, filled up to 8 MiB. -/
@[irreducible] def filledText : Str :=
  pngText ++ (List.replicate (4 * 2796179) 'A' ++ "AAA=".toList)

@[irreducible] def filledBytes : List UInt8 :=
  pngBytes ++ (List.replicate (3 * 2796179) 0 ++ [0, 0])

theorem decode_filledText : Base64.decode filledText = some filledBytes := by
  have hpng : Base64.decode pngText = some pngBytes := by decide +kernel
  have hpad : '=' ∉ pngText := by decide +kernel
  have hlast : Base64.decode "AAA=".toList = some [0, 0] := by decide
  rw [filledText, Base64.decode_append hpad hpng, Base64.decode_groups, hlast, filledBytes]
  rfl

theorem length_filledText : filledText.length = 11184812 := by
  have hpng : pngText.length = 92 := by decide +kernel
  have hlast : "AAA=".toList.length = 4 := rfl
  rw [filledText, List.length_append, List.length_append, List.length_replicate, hpng, hlast]

theorem length_filledBytes : filledBytes.length = 8388608 := by
  have hpng : pngBytes.length = 69 := rfl
  have hlast : [(0 : UInt8), 0].length = 2 := rfl
  rw [filledBytes, List.length_append, List.length_append, List.length_replicate, hpng, hlast]

/-- What the filled text decodes to. -/
def filledImage : ImagePayload := ⟨"image/png".toList, filledBytes, 1, 1⟩

theorem byteSize_filledImage : filledImage.byteSize = 8388608 := length_filledBytes

theorem pixelCount_filledImage : filledImage.pixelCount = 1 := rfl

/-- The data URL of a PNG picture with this text. -/
def pngUrl (text : Str) : Str := "data:image/png;base64,".toList ++ text

theorem preflight_pngUrl {text : Str} (hsize : text.length * 3 / 4 ≤ maxImageBytes + 3) :
    preflightDataUrl (pngUrl text) = .ok (text.length * 3 / 4, "image/png".toList, 21) := by
  have hstart : ¬ lower ((pngUrl text).take 5) ≠ "data:".toList := not_not.mpr rfl
  have hheader : ((pngUrl text).drop 5).takeWhile (· ≠ ',') = "image/png;base64".toList := rfl
  have hcomma : 5 + "image/png;base64".toList.length = 21 := rfl
  have hscheme : "data:image/png;base64,".toList.length = 22 := rfl
  have hlength : (pngUrl text).length = 22 + text.length :=
    List.length_append.trans (congrArg (· + text.length) hscheme)
  have hencoded : 22 + text.length - 21 - 1 = text.length := by omega
  have hpieces : headerPieces "image/png;base64".toList =
      ["image/png".toList, "base64".toList] := by decide
  unfold preflightDataUrl
  rw [if_neg hstart]
  dsimp only
  rw [hheader, hcomma, hlength, hencoded, hpieces, if_neg (by omega), if_neg (by omega),
    if_neg (by decide), if_neg (by decide), if_neg (not_lt.mpr hsize)]
  rfl

theorem decode_pngUrl {text : Str} {data : List UInt8} (hdecode : Base64.decode text = some data)
    (hne : data ≠ []) (hsize : data.length ≤ maxImageBytes)
    (hpixel : onePixel data = .ok ⟨1, 1, some "PNG".toList, false, .ok ()⟩) :
    decodeDataUrl onePixel (pngUrl text) = .ok ⟨"image/png".toList, data, 1, 1⟩ := by
  have hlength := Base64.decode_length hdecode
  have hestimate : text.length * 3 / 4 ≤ maxImageBytes + 3 := by omega
  have hdrop : (pngUrl text).drop (21 + 1) = text := rfl
  have hempty : ¬ data.isEmpty = true := by simpa using hne
  rw [decodeDataUrl, preflight_pngUrl hestimate]
  simp only [bind, Except.bind, hdrop, hdecode, hpixel]
  rw [if_neg hempty, if_neg (not_lt.mpr hsize)]
  rfl

theorem decode_filledUrl : decodeDataUrl onePixel (pngUrl filledText) = .ok filledImage := by
  have hpixel : onePixel filledBytes = .ok ⟨1, 1, some "PNG".toList, false, .ok ()⟩ := by
    rw [onePixel, filledBytes, List.take_left, if_pos rfl]
  have hne : filledBytes ≠ [] := by
    rw [filledBytes, pngBytes]
    exact List.cons_ne_nil _ _
  apply decode_pngUrl decode_filledText hne _ hpixel
  rw [length_filledBytes, maxImageBytes]
  omega

/-- An image part with this URL. -/
def imagePart (url : Str) : Json :=
  .obj [("type".toList, .str "image_url".toList),
    ("image_url".toList, .obj [("url".toList, .str url)])]

/-- A user message with the filled picture three times: 24 MiB together. -/
def threeImages : List (Str × Json) :=
  [("user".toList, .arr (List.replicate 3 (imagePart (pngUrl filledText))))]

theorem readPart_imagePart (text : Str) :
    readPart codec (imagePart (pngUrl text)) = some (.image (pngUrl text)) := rfl

theorem fragments_threeImages :
    readContent codec (.arr (List.replicate 3 (imagePart (pngUrl filledText)))) =
      some (List.replicate 3 (.image (pngUrl filledText))) := by
  show List.mapM (readPart codec) [_, _, _] = _
  simp only [List.mapM_cons, List.mapM_nil, readPart_imagePart]
  rfl

theorem payloads_threeImages :
    payloads onePixel (List.replicate 3 (.image (pngUrl filledText))) =
      List.replicate 3 filledImage := by
  exact List.filterMap_replicate_of_some (payload?_image decode_filledUrl)

theorem decodedImages_threeImages : decodedImages codec onePixel threeImages =
    List.replicate 3 filledImage := by
  rw [threeImages, decodedImages, List.flatMap_singleton, fragments, fragments_threeImages]
  exact payloads_threeImages

theorem admissible_threeImages : Admissible codec onePixel threeImages := by
  have hone : ∀ item ∈ threeImages, item.1 = "user".toList ∧ countedParts item.2 = 3 ∧
      readContent codec item.2 = some (List.replicate 3 (.image (pngUrl filledText))) := by
    intro item hitem
    rw [List.mem_singleton.mp hitem]
    exact ⟨rfl, rfl, fragments_threeImages⟩
  have hfragments : ∀ item ∈ threeImages,
      fragments codec item.2 = List.replicate 3 (.image (pngUrl filledText)) := by
    intro item hitem
    rw [fragments, (hone item hitem).2.2]
    rfl
  have hbytes : maxRequestImageBytes = 25165824 := rfl
  refine ⟨?_, ?_, ?_, ?_, ?_, ?_⟩
  · intro item hitem
    rw [(hone item hitem).2.2]
    rfl
  · rw [List.map_congr_left fun item hitem => congrArg (fun l => (l.map Fragment.chars).sum)
      (hfragments item hitem)]
    exact Nat.zero_le _
  · rw [List.map_congr_left fun item hitem => (hone item hitem).2.1]
    decide
  · intro item hitem url hurl
    rw [(hone item hitem).1]
    decide
  · intro item hitem
    rw [hfragments item hitem]
    intro fragment hfragment url hurl
    rw [List.eq_of_mem_replicate hfragment] at hurl
    rw [← Fragment.image.inj hurl]
    exact ⟨_, decode_filledUrl⟩
  · have hcount : maxImagesPerRequest = 4 := rfl
    have hpixels : maxRequestImagePixels = 40000000 := rfl
    rw [decodedImages_threeImages]
    refine ⟨?_, ?_, ?_⟩
    · rw [hcount, List.length_replicate]
      omega
    · rw [hbytes, List.map_replicate, List.sum_replicate, byteSize_filledImage, smul_eq_mul]
    · rw [hpixels, List.map_replicate, List.sum_replicate, pixelCount_filledImage, smul_eq_mul]
      omega

/-- Three pictures of 8 MiB each are 24 MiB, and preflight rejects them. -/
theorem threeImages_rejected :
    ¬ ∀ (codec : JsonCodec) (pillow : Pillow) (contents : List (Str × Json)),
      (Admissible codec pillow contents → Admitted codec pillow contents) ∧
        (Admitted codec pillow contents →
          (∀ item ∈ contents, Decodes pillow (fragments codec item.2)) ∧
            WithinLimits (decodedImages codec pillow contents)) := by
  intro h
  have hadmissible : Admissible JsonCodec.rejecting onePixel threeImages := admissible_threeImages
  have haccepted := ((h _ _ _).1 hadmissible).preflight
  have hover : maxRequestImageBytes <
      ((decodedImages JsonCodec.rejecting onePixel threeImages).map paddedSize).sum := by
    have hbytes : maxRequestImageBytes = 25165824 := rfl
    rw [hbytes, decodedImages_threeImages, List.map_replicate, List.sum_replicate, paddedSize,
      byteSize_filledImage, smul_eq_mul]
    omega
  rw [hadmissible.preflight_eq, if_pos hover] at haccepted
  cases haccepted

end InferBridge.ImagePreflight
