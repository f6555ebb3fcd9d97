/-
InferBridge/ContinueUndo.lean

When Apply and Undo of a change of Continue's `config.yaml` are exact.

Writing what was read gives the bytes back exactly for UTF-8 without a byte order mark
(`plain_iff`); for that, what is written in UTF-8 is read back (`utf8Text_encode`).

Design.  A call changes no file but `config.yaml`, its temporary file and a new backup
(`apply_frame`, `undo_frame`), so that the backup of each record stays as Apply made it
(`Kept`).  What a call does to `config.yaml` is one lemma for each call
(`apply_cases`, `undo_cases`).

Main result.  `calls_exact`: in a run whose calls meet `condition`, each Apply and each
Undo is exact.
-/
import InferBridge.ContinueFile

namespace InferBridge.ContinueConfig

open Transition

/-! ### UTF-8 -/

section
variable {b b₁ b₂ b₃ : UInt8} {n : Nat}

theorem toNat_byte (h : n < 256) : (UInt8.ofNat n).toNat = n := by
  rw [UInt8.toNat_ofNat']
  omega

/-- The ranges behind a first byte, by its number. -/
theorem continuations_eq (b : UInt8) : ConsoleChunks.continuations b =
    if b.toNat < 0x80 then some []
    else if b.toNat < 0xC2 then none
    else if b.toNat < 0xE0 then some [(0x80, 0xBF)]
    else if b.toNat = 0xE0 then some [(0xA0, 0xBF), (0x80, 0xBF)]
    else if b.toNat = 0xED then some [(0x80, 0x9F), (0x80, 0xBF)]
    else if b.toNat < 0xF0 then some [(0x80, 0xBF), (0x80, 0xBF)]
    else if b.toNat = 0xF0 then some [(0x90, 0xBF), (0x80, 0xBF), (0x80, 0xBF)]
    else if b.toNat < 0xF4 then some [(0x80, 0xBF), (0x80, 0xBF), (0x80, 0xBF)]
    else if b.toNat = 0xF4 then some [(0x80, 0x8F), (0x80, 0xBF), (0x80, 0xBF)]
    else none := by
  simp only [ConsoleChunks.continuations, UInt8.lt_iff_toNat_lt, ← UInt8.toNat_inj]
  rfl

theorem follow_cons {low high : UInt8} {ranges : List (UInt8 × UInt8)} {bytes taken rest : Bytes}
    (hlow : low.toNat ≤ b.toNat) (hhigh : b.toNat ≤ high.toNat)
    (hrest : ConsoleChunks.follow ranges bytes = .complete taken rest) :
    ConsoleChunks.follow ((low, high) :: ranges) (b :: bytes) = .complete (b :: taken) rest := by
  rw [ConsoleChunks.follow, if_pos ⟨UInt8.le_iff_toNat_le.mpr hlow, UInt8.le_iff_toNat_le.mpr hhigh⟩,
    hrest]

/-- The first character, when the bytes behind its first byte are in their ranges. -/
theorem firstChar_of_follow {ranges : List (UInt8 × UInt8)} {bytes taken rest : Bytes}
    (hranges : ConsoleChunks.continuations b = some ranges)
    (hfollow : ConsoleChunks.follow ranges bytes = .complete taken rest) :
    ConsoleChunks.firstChar b bytes = some (ConsoleChunks.charOf b taken, rest) := by
  rw [ConsoleChunks.firstChar, hranges]
  dsimp only
  rw [hfollow]

/-- One byte. -/
theorem firstChar_one (rest : Bytes) (h : b.toNat = n) (hn : n ≤ 0x7F) :
    ConsoleChunks.firstChar b rest = some (Char.ofNat n, rest) := by
  have hranges : ConsoleChunks.continuations b = some [] := by
    rw [continuations_eq, if_pos (by omega)]
  rw [firstChar_of_follow hranges rfl, ConsoleChunks.charOf, h]
  rfl

/-- Two bytes. -/
theorem firstChar_two (rest : Bytes) (h : b.toNat = n / 64 + 0xC0)
    (h₁ : b₁.toNat = n % 64 + 0x80) (hlow : 0x7F < n) (hhigh : n ≤ 0x7FF) :
    ConsoleChunks.firstChar b (b₁ :: rest) = some (Char.ofNat n, rest) := by
  have hranges : ConsoleChunks.continuations b = some [(0x80, 0xBF)] := by
    rw [continuations_eq, if_neg (by omega), if_neg (by omega), if_pos (by omega)]
  have hfollow : ConsoleChunks.follow [(0x80, 0xBF)] (b₁ :: rest) = .complete [b₁] rest :=
    follow_cons (by rw [h₁]; exact Nat.le_add_left _ _)
      (by rw [h₁]; show _ ≤ 0xBF; omega) rfl
  have hchar : ConsoleChunks.charOf b [b₁] =
      Char.ofNat (64 * (b.toNat % 32) + b₁.toNat % 64) := rfl
  rw [firstChar_of_follow hranges hfollow, hchar, h, h₁]
  congr 3
  omega

/-- Three bytes, which are no surrogate. -/
theorem firstChar_three (rest : Bytes) (h : b.toNat = n / 4096 + 0xE0)
    (h₁ : b₁.toNat = n / 64 % 64 + 0x80) (h₂ : b₂.toNat = n % 64 + 0x80)
    (hlow : 0x7FF < n) (hhigh : n ≤ 0xFFFF) (hvalid : n < 0xD800 ∨ 0xDFFF < n) :
    ConsoleChunks.firstChar b (b₁ :: b₂ :: rest) = some (Char.ofNat n, rest) := by
  have hlast : ConsoleChunks.follow [(0x80, 0xBF)] (b₂ :: rest) = .complete [b₂] rest :=
    follow_cons (by rw [h₂]; exact Nat.le_add_left _ _)
      (by rw [h₂]; show _ ≤ 0xBF; omega) rfl
  have hfollow : ∃ low high, ConsoleChunks.continuations b = some [(low, high), (0x80, 0xBF)] ∧
      low.toNat ≤ b₁.toNat ∧ b₁.toNat ≤ high.toNat := by
    rw [continuations_eq, if_neg (by omega), if_neg (by omega), if_neg (by omega), h₁]
    by_cases hfirst : b.toNat = 0xE0
    · refine ⟨0xA0, 0xBF, if_pos hfirst, ?_, ?_⟩
      · show 0xA0 ≤ _
        omega
      · show _ ≤ 0xBF
        omega
    · rw [if_neg hfirst]
      by_cases hsurrogate : b.toNat = 0xED
      · refine ⟨0x80, 0x9F, if_pos hsurrogate, Nat.le_add_left _ _, ?_⟩
        show _ ≤ 0x9F
        omega
      · rw [if_neg hsurrogate, if_pos (by omega)]
        refine ⟨0x80, 0xBF, rfl, Nat.le_add_left _ _, ?_⟩
        show _ ≤ 0xBF
        omega
  obtain ⟨low, high, hranges, hin, hin'⟩ := hfollow
  have hchar : ConsoleChunks.charOf b [b₁, b₂] =
      Char.ofNat (64 * (64 * (b.toNat % 16) + b₁.toNat % 64) + b₂.toNat % 64) := rfl
  rw [firstChar_of_follow hranges (follow_cons hin hin' hlast), hchar, h, h₁, h₂]
  congr 3
  omega

/-- Four bytes. -/
theorem firstChar_four (rest : Bytes) (h : b.toNat = n / 262144 + 0xF0)
    (h₁ : b₁.toNat = n / 4096 % 64 + 0x80) (h₂ : b₂.toNat = n / 64 % 64 + 0x80)
    (h₃ : b₃.toNat = n % 64 + 0x80) (hlow : 0xFFFF < n) (hhigh : n < 0x110000) :
    ConsoleChunks.firstChar b (b₁ :: b₂ :: b₃ :: rest) = some (Char.ofNat n, rest) := by
  have hlast : ConsoleChunks.follow [(0x80, 0xBF), (0x80, 0xBF)] (b₂ :: b₃ :: rest) =
      .complete [b₂, b₃] rest := by
    apply follow_cons
    · rw [h₂]
      exact Nat.le_add_left _ _
    · rw [h₂]
      show _ ≤ 0xBF
      omega
    · exact follow_cons (by rw [h₃]; exact Nat.le_add_left _ _)
        (by rw [h₃]; show _ ≤ 0xBF; omega) rfl
  have hfollow : ∃ low high, ConsoleChunks.continuations b =
        some [(low, high), (0x80, 0xBF), (0x80, 0xBF)] ∧
      low.toNat ≤ b₁.toNat ∧ b₁.toNat ≤ high.toNat := by
    rw [continuations_eq, if_neg (by omega), if_neg (by omega), if_neg (by omega),
      if_neg (by omega), if_neg (by omega), if_neg (by omega), h₁]
    by_cases hfirst : b.toNat = 0xF0
    · refine ⟨0x90, 0xBF, if_pos hfirst, ?_, ?_⟩
      · show 0x90 ≤ _
        omega
      · show _ ≤ 0xBF
        omega
    · rw [if_neg hfirst]
      by_cases hinner : b.toNat < 0xF4
      · rw [if_pos hinner]
        refine ⟨0x80, 0xBF, rfl, Nat.le_add_left _ _, ?_⟩
        show _ ≤ 0xBF
        omega
      · rw [if_neg hinner, if_pos (by omega)]
        refine ⟨0x80, 0x8F, rfl, Nat.le_add_left _ _, ?_⟩
        show _ ≤ 0x8F
        omega
  obtain ⟨low, high, hranges, hin, hin'⟩ := hfollow
  have hchar : ConsoleChunks.charOf b [b₁, b₂, b₃] = Char.ofNat
      (64 * (64 * (64 * (b.toNat % 8) + b₁.toNat % 64) + b₂.toNat % 64) + b₃.toNat % 64) := rfl
  rw [firstChar_of_follow hranges (follow_cons hin hin' hlast), hchar, h, h₁, h₂, h₃]
  congr 3
  omega

/-- The bytes of a character are read as that character. -/
theorem firstChar_encode (c : Char) (rest : Bytes) :
    ∃ b bytes, String.utf8EncodeChar c = b :: bytes ∧
      ConsoleChunks.firstChar b (bytes ++ rest) = some (c, rest) := by
  have hvalid : c.val.toNat < 0xD800 ∨ 0xDFFF < c.val.toNat ∧ c.val.toNat < 0x110000 := c.valid
  have hchar : Char.ofNat c.val.toNat = c := Char.ofNat_toNat c
  unfold String.utf8EncodeChar
  dsimp only
  split
  · next hone =>
    refine ⟨_, _, rfl, ?_⟩
    rw [List.nil_append, firstChar_one rest (toNat_byte (by omega)) hone, hchar]
  · next hone =>
    split
    · next htwo =>
      refine ⟨_, _, rfl, ?_⟩
      show ConsoleChunks.firstChar _ (_ :: rest) = _
      rw [firstChar_two (n := c.val.toNat) rest (by rw [toNat_byte (by omega)]; omega)
        (by rw [toNat_byte (by omega)]) (by omega) htwo, hchar]
    · next htwo =>
      split
      · next hthree =>
        refine ⟨_, _, rfl, ?_⟩
        show ConsoleChunks.firstChar _ (_ :: _ :: rest) = _
        rw [firstChar_three (n := c.val.toNat) rest (by rw [toNat_byte (by omega)]; omega)
          (by rw [toNat_byte (by omega)]) (by rw [toNat_byte (by omega)]) (by omega) hthree
          (by omega), hchar]
      · next hthree =>
        refine ⟨_, _, rfl, ?_⟩
        show ConsoleChunks.firstChar _ (_ :: _ :: _ :: rest) = _
        rw [firstChar_four (n := c.val.toNat) rest (by rw [toNat_byte (by omega)]; omega)
          (by rw [toNat_byte (by omega)]) (by rw [toNat_byte (by omega)])
          (by rw [toNat_byte (by omega)]) (by omega) (by omega), hchar]

end

/-- What is written is read back. -/
theorem utf8Text_encode (text : Str) : utf8Text (encode text) = text := by
  induction text with
  | nil => exact congrArg Prod.fst ConsoleChunks.utf8Decode_nil
  | cons c text ih =>
      obtain ⟨b, bytes, hbytes, hfirst⟩ := firstChar_encode c (encode text)
      have hencode : encode (c :: text) = b :: (bytes ++ encode text) := by
        rw [encode, List.flatMap_cons, hbytes]
        rfl
      rw [hencode, utf8Text, ConsoleChunks.utf8Decode_char hfirst]
      exact congrArg (c :: ·) ih

/-- No byte of a written text is one that only a mark has. -/
theorem lt_of_mem_encode {text : Str} {byte : UInt8} (h : byte ∈ encode text) :
    byte.toNat < 0xF8 := by
  obtain ⟨c, -, hbyte⟩ := List.mem_flatMap.mp h
  have hvalid : c.val.toNat < 0xD800 ∨ 0xDFFF < c.val.toNat ∧ c.val.toNat < 0x110000 := c.valid
  unfold String.utf8EncodeChar at hbyte
  dsimp only at hbyte
  split_ifs at hbyte <;> simp only [List.mem_cons, List.not_mem_nil, or_false] at hbyte
  · rw [hbyte, toNat_byte (by omega)]
    omega
  · rcases hbyte with rfl | rfl <;> rw [toNat_byte (by omega)] <;> omega
  · rcases hbyte with rfl | rfl | rfl <;> rw [toNat_byte (by omega)] <;> omega
  · rcases hbyte with rfl | rfl | rfl | rfl <;> rw [toNat_byte (by omega)] <;> omega

/-! ### The bytes that come back -/

/-- The character that a mark is in UTF-8. -/
def markChar : Char := Char.ofNat 0xFEFF

theorem encode_mark (text : Str) : encode (markChar :: text) = utf8Mark ++ encode text := by
  rfl

theorem decode_mark (bytes : Bytes) : decode (utf8Mark ++ bytes) = utf8Text bytes := by
  rfl

/-- Only a text that begins with the character has bytes that begin with the mark. -/
theorem head?_of_mark {text : Str} (h : utf8Mark.isPrefixOf (encode text) = true) :
    text.head? = some markChar := by
  obtain ⟨bytes, hbytes⟩ := List.isPrefixOf_iff_prefix.mp h
  have hmark : ConsoleChunks.firstChar 0xEF (0xBB :: 0xBF :: bytes) = some (markChar, bytes) := by
    rfl
  cases text with
  | nil => cases hbytes
  | cons c text =>
      obtain ⟨b, tail, hencode, hfirst⟩ := firstChar_encode c (encode text)
      have hcons : b :: (tail ++ encode text) = 0xEF :: 0xBB :: 0xBF :: bytes := by
        rw [← List.cons_append, ← hencode]
        exact hbytes.symm
      obtain ⟨rfl, htail⟩ := List.cons.inj hcons
      rw [htail, hmark] at hfirst
      exact congrArg some (congrArg Prod.fst (Option.some.inj hfirst)).symm

theorem decode_encode {text : Str} (h : text.head? ≠ some markChar) :
    decode (encode text) = text := by
  have hbyte : ∀ mark : Bytes, (∃ byte ∈ mark, 0xF8 ≤ byte.toNat) →
      ¬mark.isPrefixOf (encode text) = true := by
    rintro mark ⟨byte, hmem, hlarge⟩ hmark
    have hsmall := lt_of_mem_encode ((List.isPrefixOf_iff_prefix.mp hmark).subset hmem)
    omega
  have hmark : ¬utf8Mark.isPrefixOf (encode text) = true := fun hmark => h (head?_of_mark hmark)
  rw [decode, if_neg hmark, if_neg (hbyte _ ⟨0xFE, by decide, by decide⟩),
    if_neg (hbyte _ ⟨0xFE, by decide, by decide⟩), if_neg (hbyte _ ⟨0xFE, by decide, by decide⟩),
    if_neg (hbyte _ ⟨0xFE, by decide, by decide⟩), utf8Text_encode]

/-- Exactly texts in UTF-8 without a byte order mark come back. -/
theorem plain_iff {bytes : Bytes} :
    plain bytes = true ↔ ∃ text : Str, text.head? ≠ some markChar ∧ bytes = encode text := by
  rw [plain, decide_eq_true_eq]
  constructor
  · intro hplain
    refine ⟨decode bytes, fun hhead => ?_, hplain.symm⟩
    -- the mark would be taken off, and the text would be shorter than itself
    obtain ⟨rest, hrest⟩ : ∃ rest, decode bytes = markChar :: rest := by
      cases hdecode : decode bytes with
      | nil => rw [hdecode] at hhead; cases hhead
      | cons c rest =>
          rw [hdecode] at hhead
          exact ⟨rest, by rw [Option.some.inj hhead]⟩
    have hbytes : bytes = utf8Mark ++ encode rest := by rw [← encode_mark, ← hrest, hplain]
    have hdecode : decode bytes = rest := by rw [hbytes, decode_mark, utf8Text_encode]
    rw [hdecode] at hrest
    exact absurd (congrArg List.length hrest) (by simp)
  · rintro ⟨text, hhead, rfl⟩
    rw [decode_encode hhead]

/-! ### Names -/

namespace ContinueConfigFile

variable {path stamp guid text name : Str} {fault : Option Op} {files files' : Files}

theorem backupName_ne_path : backupName path stamp ≠ path := by
  intro h
  have hlength := congrArg List.length h
  rw [backupName, List.length_append, List.length_append] at hlength
  have hfirst : ".inferbridge-".toList.length = 13 := rfl
  omega

theorem tempName_ne_path : tempName path guid ≠ path := by
  intro h
  have hlength := congrArg List.length h
  rw [tempName, List.length_append, List.length_append] at hlength
  have hfirst : ".inferbridge-".toList.length = 13 := rfl
  omega

/-- The names end differently. -/
theorem backupName_ne_tempName : backupName path stamp ≠ tempName path guid := by
  intro h
  have hlast := congrArg List.getLast? h
  have hbackup : (backupName path stamp).getLast? = some 'k' := by
    rw [backupName, List.getLast?_append_of_ne_nil _ (by simp),
      List.getLast?_append_of_ne_nil _ (by simp), List.getLast?_append_of_ne_nil _ (by decide)]
    rfl
  have htemp : (tempName path guid).getLast? = some 'p' := by
    rw [tempName, List.getLast?_append_of_ne_nil _ (by simp),
      List.getLast?_append_of_ne_nil _ (by simp), List.getLast?_append_of_ne_nil _ (by decide)]
    rfl
  rw [hbackup, htemp] at hlast
  cases hlast

/-! ### One call -/

theorem read_eq_ok {current : Option Str} (h : read path fault files = .ok current) :
    current = (existing fault .exists files path).map decode := by
  unfold read at h
  split at h
  · next hnone =>
    rw [hnone]
    exact (Except.ok.inj h).symm
  · next bytes hsome =>
    rw [hsome]
    split_ifs at h
    exact (Except.ok.inj h).symm

/-- What is read is there, unless `File.Exists` fails. -/
theorem read_text {current : Option Str} (h : read path fault files = .ok current)
    (hexists : fault = some .exists → current ≠ none ∨ files path = none) :
    current = (files path).map decode := by
  have hread := read_eq_ok h
  unfold existing at hread
  split at hread
  · next hfault =>
    rcases hexists hfault with hsome | hnone
    · exact absurd hread hsome
    · rw [hnone]
      exact hread
  · exact hread

/-- A write that throws leaves the file as it was; one that returns leaves the text. -/
def Attempt (path text : Str) (files : Files) (result : Files × Except Failure Unit) : Prop :=
  (∃ failure, result.2 = .error failure) ∧ result.1 path = files path ∨
    result.2 = .ok () ∧ result.1 path = some (encode text)

theorem tryWrite_path (path text guid : Str) (fault : Option Op) (files : Files) :
    Attempt path text files (tryWrite path text guid fault files) := by
  have htemp : path ≠ tempName path guid := tempName_ne_path.symm
  unfold tryWrite
  dsimp only
  split
  · exact .inl ⟨⟨_, rfl⟩, rfl⟩
  · split
    · exact .inl ⟨⟨_, rfl⟩, Function.update_of_ne htemp _ _⟩
    · right
      exact ⟨rfl, (Function.update_of_ne htemp _ _).trans (Function.update_self _ _ _)⟩

/-- After a write that returned there is no temporary file. -/
theorem tryWrite_temp (h : (tryWrite path text guid fault files).2 = .ok ()) :
    (tryWrite path text guid fault files).1 (tempName path guid) = none := by
  unfold tryWrite at h ⊢
  dsimp only at h ⊢
  split at h
  · cases h
  · next hwrite =>
    rw [if_neg hwrite]
    split at h
    · cases h
    · next hmove =>
      rw [if_neg hmove]
      exact Function.update_self _ _ _

theorem writeAtomic_path (path text guid : Str) (fault : Option Op) (files : Files) :
    Attempt path text files (writeAtomic path text guid fault files) := by
  have htemp : path ≠ tempName path guid := tempName_ne_path.symm
  have htried := tryWrite_path path text guid fault files
  unfold writeAtomic cleanTemp
  dsimp only
  split
  · exact htried
  · next hleft =>
    -- what is left was left by a write that threw
    have hfailed : (∃ failure, (tryWrite path text guid fault files).2 = .error failure) ∧
        (tryWrite path text guid fault files).1 path = files path := by
      rcases htried with hfailed | ⟨hok, -⟩
      · exact hfailed
      · refine absurd ?_ hleft
        unfold existing
        split
        · rfl
        · exact tryWrite_temp hok
    left
    split
    · exact ⟨⟨_, rfl⟩, hfailed.2⟩
    · exact ⟨hfailed.1, (Function.update_of_ne htemp _ _).trans hfailed.2⟩

/-- No other file is touched. -/
theorem writeAtomic_frame (hpath : name ≠ path) (htemp : name ≠ tempName path guid) :
    (writeAtomic path text guid fault files).1 name = files name := by
  have htried : (tryWrite path text guid fault files).1 name = files name := by
    unfold tryWrite
    dsimp only
    split
    · rfl
    · split
      · exact Function.update_of_ne htemp _ _
      · calc
          _ = Function.update (Function.update files (tempName path guid) (some (encode text)))
                path (some (encode text)) name := Function.update_of_ne htemp _ _
          _ = Function.update files (tempName path guid) (some (encode text)) name :=
            Function.update_of_ne hpath _ _
          _ = files name := Function.update_of_ne htemp _ _
  unfold writeAtomic cleanTemp
  dsimp only
  split
  · exact htried
  · split
    · exact htried
    · exact (Function.update_of_ne htemp _ _).trans htried

end ContinueConfigFile

/-- The record tells how to get the bytes from before its Apply back. -/
structure Kept (path : Str) (files : Files) (applied : Applied) : Prop where
  written : applied.after = some (encode applied.undo.writtenText)
  absent : applied.undo.backupPath = none → applied.before = none
  backed : ∀ backup, applied.undo.backupPath = some backup →
    (∃ stamp, backup = ContinueConfigFile.backupName path stamp) ∧ applied.before ≠ none ∧
      files backup = applied.before

namespace ContinueConfigFile

variable {path stamp guid text name : Str} {fault : Option Op} {files : Files}

/-- What an Apply does: it throws and leaves the file, or the text was the previewed one. -/
theorem apply_cases (plan : ContinuePlan) (stamp guid : Str) (fault : Option Op) (files : Files)
    (hplan : plan.existed = plan.originalText.isSome)
    (hexists : fault = some .exists → plan.originalText ≠ none ∨ files path = none) :
    (∃ failure, (apply path plan stamp guid fault files).2 = .error failure) ∧
        (apply path plan stamp guid fault files).1 path = files path ∨
      (files path).map decode = plan.originalText ∧
        ∃ undo, (apply path plan stamp guid fault files).2 = .ok undo ∧
          Kept path (apply path plan stamp guid fault files).1
            ⟨undo, files path, (apply path plan stamp guid fault files).1 path⟩ := by
  unfold apply
  split
  · exact .inl ⟨⟨_, rfl⟩, rfl⟩
  · next current hread =>
    split
    · exact .inl ⟨⟨_, rfl⟩, rfl⟩
    · next hsame =>
      obtain rfl := not_not.mp hsame
      have htext := read_text hread hexists
      split
      · dsimp only
        split
        · exact .inl ⟨⟨_, rfl⟩, rfl⟩
        · next hcopy =>
          rw [not_or, not_or, not_not] at hcopy
          obtain ⟨-, hfree, hthere⟩ := hcopy
          set copied := Function.update files (backupName path stamp) (files path)
          have hpath : copied path = files path :=
            Function.update_of_ne backupName_ne_path.symm _ _
          rcases writeAtomic_path path plan.newText guid fault copied with
            ⟨⟨failure, hfailed⟩, hkept⟩ | ⟨hok, hwritten⟩
          · left
            rw [hfailed]
            exact ⟨⟨failure, rfl⟩, hkept.trans hpath⟩
          · right
            refine ⟨htext.symm, ⟨some (backupName path stamp), plan.newText⟩, ?_, hwritten,
              nofun, ?_⟩
            · rw [hok]
              rfl
            · rintro backup ⟨⟩
              refine ⟨⟨stamp, rfl⟩, hthere, ?_⟩
              rw [writeAtomic_frame backupName_ne_path backupName_ne_tempName]
              exact Function.update_self _ _ _
      · next hexisted =>
        have hnone : plan.originalText = none := by
          rw [hplan] at hexisted
          simpa using hexisted
        split
        · exact .inl ⟨⟨_, rfl⟩, rfl⟩
        · dsimp only
          rcases writeAtomic_path path plan.newText guid fault files with
            ⟨⟨failure, hfailed⟩, hkept⟩ | ⟨hok, hwritten⟩
          · left
            rw [hfailed]
            exact ⟨⟨failure, rfl⟩, hkept⟩
          · right
            refine ⟨htext.symm, ⟨none, plan.newText⟩, ?_, hwritten, fun _ => ?_, nofun⟩
            · rw [hok]
              rfl
            · rw [hnone] at htext
              simpa using htext.symm

/-- An Apply touches no backup that is there. -/
theorem apply_frame {plan : ContinuePlan} {other : Str}
    (hthere : files (backupName path other) ≠ none) :
    (apply path plan stamp guid fault files).1 (backupName path other) =
      files (backupName path other) := by
  have hwrite : ∀ (text : Str) (files : Files),
      (writeAtomic path text guid fault files).1 (backupName path other) =
        files (backupName path other) :=
    fun _ _ => writeAtomic_frame backupName_ne_path backupName_ne_tempName
  unfold apply
  split
  · rfl
  · split
    · rfl
    · split
      · dsimp only
        split
        · rfl
        · next hcopy =>
          rw [not_or, not_or, not_not] at hcopy
          rw [hwrite]
          apply Function.update_of_ne
          intro heq
          exact hthere (heq ▸ hcopy.2.1)
      · split
        · rfl
        · exact hwrite _ _

/-- What an Undo does: it throws and leaves the file, or what it writes is what was there before
the Apply, read and written. -/
theorem undo_cases {applied : Applied} (h : Kept path files applied) (guid : Str)
    (fault : Option Op) :
    (∃ failure, (undo path applied.undo guid fault files).2 = .error failure) ∧
        (undo path applied.undo guid fault files).1 path = files path ∨
      (files path).map decode = some applied.undo.writtenText ∧
        (undo path applied.undo guid fault files).2 = .ok () ∧
        (undo path applied.undo guid fault files).1 path =
          applied.before.map fun bytes => encode (decode bytes) := by
  unfold undo
  split
  · exact .inl ⟨⟨_, rfl⟩, rfl⟩
  · next current hread =>
    split
    · exact .inl ⟨⟨_, rfl⟩, rfl⟩
    · next hsame =>
      obtain rfl := not_not.mp hsame
      have htext := read_text hread fun _ => .inl (Option.some_ne_none _)
      split
      · next hnone =>
        split
        · exact .inl ⟨⟨_, rfl⟩, rfl⟩
        · refine .inr ⟨htext.symm, rfl, ?_⟩
          rw [h.absent hnone]
          exact Function.update_self _ _ _
      · next backup hbackup =>
        split
        · exact .inl ⟨⟨_, rfl⟩, rfl⟩
        · next bytes hbytes =>
          split
          · exact .inl ⟨⟨_, rfl⟩, rfl⟩
          · obtain ⟨-, -, hkept⟩ := h.backed backup hbackup
            have hbefore : applied.before = some bytes := by
              unfold existing at hbytes
              split at hbytes
              · cases hbytes
              · rw [← hkept, hbytes]
            rcases writeAtomic_path path (decode bytes) guid fault files with hfailed | hwritten
            · exact .inl hfailed
            · refine .inr ⟨htext.symm, hwritten.1, ?_⟩
              rw [hbefore]
              exact hwritten.2

theorem undo_frame {record : ContinueUndo} {other : Str} :
    (undo path record guid fault files).1 (backupName path other) =
      files (backupName path other) := by
  unfold undo
  split
  · rfl
  · split
    · rfl
    · split
      · split
        · rfl
        · exact Function.update_of_ne backupName_ne_path _ _
      · split
        · rfl
        · split
          · rfl
          · exact writeAtomic_frame backupName_ne_path backupName_ne_tempName

end ContinueConfigFile

/-! ### Runs -/

/-- An Apply throws and leaves the file, or replaces what has the previewed text. -/
def ApplyExact (path : Str) (plan : ContinuePlan) (files : Files)
    (result : Files × Except Failure ContinueUndo) : Prop :=
  (∃ failure, result.2 = .error failure) ∧ result.1 path = files path ∨
    (∃ undo, result.2 = .ok undo) ∧ (files path).map decode = plan.originalText

/-- An Undo throws and leaves the file, or replaces what the Apply left by what was there before
it. -/
def UndoExact (path : Str) (applied : Applied) (files : Files)
    (result : Files × Except Failure Unit) : Prop :=
  (∃ failure, result.2 = .error failure) ∧ result.1 path = files path ∨
    result.2 = .ok () ∧ files path = applied.after ∧ result.1 path = applied.before

/-- The call is exact. -/
def CallExact (path : Str) (s : State) : Event → Prop
  | .apply index stamp guid fault => ∀ plan, s.plans[index]? = some plan →
    ApplyExact path plan s.files (ContinueConfigFile.apply path plan stamp guid fault s.files)
  | .undo index guid fault => ∀ applied, s.applied[index]? = some applied →
    UndoExact path applied s.files
      (ContinueConfigFile.undo path applied.undo guid fault s.files)
  | _ => True

/-- `File.Exists` does not deny a file to an Apply of a plan for none; and where an Undo finds the
text that was written, the bytes that it finds are plain, and so are those from before. -/
def condition (path : Str) (s : State) : Event → Bool
  | .apply index _ _ fault =>
    s.plans[index]?.all fun plan =>
      !(fault = some .exists && plan.originalText = none && (s.files path).isSome)
  | .undo index _ _ =>
    s.applied[index]?.all fun applied =>
      !((s.files path).map decode = some applied.undo.writtenText) ||
        ((s.files path).all plain && applied.before.all plain)
  | _ => true

/-- What holds of the plans and the records of a run. -/
structure Recorded (path : Str) (s : State) : Prop where
  plans : ∀ plan ∈ s.plans, plan.existed = plan.originalText.isSome
  applied : ∀ applied ∈ s.applied, Kept path s.files applied

/-- A record stays kept where its backup does. -/
theorem Kept.frame {path : Str} {files files' : Files} {applied : Applied}
    (h : Kept path files applied) (hframe : ∀ other,
      files (ContinueConfigFile.backupName path other) ≠ none →
      files' (ContinueConfigFile.backupName path other) =
        files (ContinueConfigFile.backupName path other)) : Kept path files' applied where
  written := h.written
  absent := h.absent
  backed backup hbackup := by
    obtain ⟨⟨stamp, rfl⟩, hbefore, hfiles⟩ := h.backed backup hbackup
    refine ⟨⟨stamp, rfl⟩, hbefore, ?_⟩
    rw [hframe stamp (hfiles ▸ hbefore), hfiles]

section
variable {host : Host} {path : Str} {s s' : State} {event : Event}

theorem plan_existed {values : ToolConnectionValues} {files : Files} {plan : ContinuePlan}
    (h : ContinueConfigFile.plan path host values files = .ok plan) :
    plan.existed = plan.originalText.isSome := by
  unfold ContinueConfigFile.plan at h
  obtain ⟨current, -, h⟩ := Accepted.bind_eq_ok.mp h
  split at h
  · cases h
  · obtain rfl := Except.ok.inj h
    rfl

theorem hexists_of_condition {index : Nat} {stamp guid : Str} {fault : Option Op}
    {plan : ContinuePlan} (hcondition : condition path s (.apply index stamp guid fault) = true)
    (hplan : s.plans[index]? = some plan) (hfault : fault = some .exists) :
    plan.originalText ≠ none ∨ s.files path = none := by
  unfold condition at hcondition
  dsimp only at hcondition
  rw [hplan, Option.all_some, hfault] at hcondition
  by_cases horiginal : plan.originalText = none
  · right
    simpa [horiginal] using hcondition
  · exact .inl horiginal

theorem Recorded.step (h : Recorded path s) (hcondition : condition path s event = true)
    (hstep : step host path s event = some s') : Recorded path s' := by
  cases event with
  | plan values =>
      unfold ContinueConfig.step at hstep
      dsimp only at hstep
      split at hstep
      · obtain rfl := Option.some.inj hstep
        exact h
      · next plan hplan =>
        obtain rfl := Option.some.inj hstep
        refine ⟨fun p hp => ?_, h.applied⟩
        rcases List.mem_append.mp hp with hp | hp
        · exact h.plans p hp
        · rw [List.mem_singleton.mp hp]
          exact plan_existed hplan
  | apply index stamp guid fault =>
      unfold ContinueConfig.step at hstep
      obtain ⟨plan, hplan, rfl⟩ := Option.map_eq_some_iff.mp hstep
      have hexisted := h.plans plan (List.mem_of_getElem? hplan)
      have hexists := hexists_of_condition hcondition hplan
      have hothers : ∀ applied ∈ s.applied, Kept path
          (ContinueConfigFile.apply path plan stamp guid fault s.files).1 applied :=
        fun applied hmem => (h.applied applied hmem).frame fun _ hthere =>
          ContinueConfigFile.apply_frame hthere
      have hcases := ContinueConfigFile.apply_cases plan stamp guid fault s.files hexisted hexists
      split
      · next files failure hresult =>
        rw [hresult] at hothers
        exact ⟨h.plans, hothers⟩
      · next files undo hresult =>
        rw [hresult] at hothers hcases
        rcases hcases with ⟨⟨failure, hfailed⟩, -⟩ | ⟨-, undo', hundo, hkept⟩
        · cases hfailed
        · obtain rfl := Except.ok.inj hundo
          refine ⟨h.plans, fun applied hmem => ?_⟩
          rcases List.mem_append.mp hmem with hmem | hmem
          · exact hothers applied hmem
          · rw [List.mem_singleton.mp hmem]
            exact hkept
  | undo index guid fault =>
      unfold ContinueConfig.step at hstep
      obtain ⟨applied, happlied, rfl⟩ := Option.map_eq_some_iff.mp hstep
      exact ⟨h.plans, fun other hmem => (h.applied other hmem).frame fun _ _ =>
        ContinueConfigFile.undo_frame⟩
  | edit content =>
      obtain rfl := Option.some.inj hstep
      exact ⟨h.plans, fun other hmem => (h.applied other hmem).frame fun _ _ =>
        Function.update_of_ne ContinueConfigFile.backupName_ne_path _ _⟩

theorem map_encode_decode {content : Option Bytes} (h : content.all plain = true) :
    (content.map fun bytes => encode (decode bytes)) = content := by
  cases content with
  | none => rfl
  | some bytes =>
      rw [Option.all_some, plain, decide_eq_true_eq] at h
      rw [Option.map_some, h]

theorem callExact (h : Recorded path s) (hcondition : condition path s event = true) :
    CallExact path s event := by
  cases event with
  | plan values => trivial
  | apply index stamp guid fault =>
      intro plan hplan
      have hcases := ContinueConfigFile.apply_cases plan stamp guid fault s.files
        (h.plans plan (List.mem_of_getElem? hplan)) (hexists_of_condition hcondition hplan)
      rcases hcases with hfailed | ⟨htext, undo, hundo, -⟩
      · exact .inl hfailed
      · exact .inr ⟨⟨undo, hundo⟩, htext⟩
  | undo index guid fault =>
      intro applied happlied
      have hkept := h.applied applied (List.mem_of_getElem? happlied)
      rcases ContinueConfigFile.undo_cases hkept guid fault with hfailed | ⟨htext, hok, hbefore⟩
      · exact .inl hfailed
      · unfold condition at hcondition
        dsimp only at hcondition
        rw [happlied, Option.all_some, decide_eq_true htext, Bool.not_true, Bool.false_or,
          Bool.and_eq_true] at hcondition
        obtain ⟨hplain, hplainBefore⟩ := hcondition
        refine .inr ⟨hok, ?_, hbefore.trans (map_encode_decode hplainBefore)⟩
        calc
          s.files path = (s.files path).map fun bytes => encode (decode bytes) :=
            (map_encode_decode hplain).symm
          _ = ((s.files path).map decode).map encode := (Option.map_map encode decode _).symm
          _ = some (encode applied.undo.writtenText) := by rw [htext, Option.map_some]
          _ = applied.after := hkept.written.symm
  | edit content => trivial

end

/-- **Each Apply and each Undo of a run whose calls meet the condition is exact.** -/
theorem calls_exact (host : Host) (path : Str) (files : Files) (events : List Event)
    (h : meets (step host path) (condition path) (start files) events = true) :
    eachStep (step host path) (fun s event _ => CallExact path s event) (start files) events := by
  have hstart : Recorded path (start files) := ⟨nofun, nofun⟩
  exact eachStep_of_meets (I := Recorded path)
    (fun _ _ _ hrecorded hcondition hstep => hrecorded.step hcondition hstep)
    (fun _ _ _ hrecorded hcondition _ => callExact hrecorded hcondition) hstart h

def configName : Str := "config.yaml".toList

/-- The only file is `config.yaml`, with these bytes. -/
def oneFile (bytes : Bytes) : Files := Function.update (fun _ => none) configName (some bytes)

/-- A preview, its Apply and its Undo. -/
def wholeTurn : List Event :=
  [.plan localValues, .apply 0 "20260101-000000-000".toList "a1".toList none,
    .undo 0 "b2".toList none]

/-- The turn of a file in UTF-8: it ends where it began. -/
theorem calls_exact_turn :
    eachStep (step localHost configName) (fun s event _ => CallExact configName s event)
        (start (oneFile (encode "name: c\n".toList))) wholeTurn ∧
      (run (step localHost configName) (start (oneFile (encode "name: c\n".toList)))
          wholeTurn).map (fun s => s.files configName) =
        some (some (encode "name: c\n".toList)) :=
  ⟨calls_exact _ _ _ _ (by decide +kernel), by decide +kernel⟩

/-- With a byte order mark it ends without the mark. -/
theorem markedFile_undone : ¬∀ (host : Host) (path : Str) (files : Files) (events : List Event),
    eachStep (step host path) (fun s event _ => CallExact path s event) (start files) events := by
  intro hall
  have hexact := eachStep_iff.mp (hall localHost configName
    (oneFile (utf8Mark ++ encode "name: c\n".toList)) wholeTurn)
  have hturn : (run (step localHost configName)
      (start (oneFile (utf8Mark ++ encode "name: c\n".toList))) (wholeTurn.take 2)).map
        (fun s => s.applied.map fun applied =>
          ((ContinueConfigFile.undo configName applied.undo "b2".toList none s.files).2,
            (ContinueConfigFile.undo configName applied.undo "b2".toList none s.files).1
              configName, applied.before)) =
      some [(.ok (), some (encode "name: c\n".toList),
        some (utf8Mark ++ encode "name: c\n".toList))] := by decide +kernel
  obtain ⟨s, hrun, happlied⟩ := Option.map_eq_some_iff.mp hturn
  obtain ⟨applied, others, hlist, hundo, -⟩ := List.map_eq_cons_iff.mp happlied
  obtain ⟨hok, hwritten, hbefore⟩ :
      (ContinueConfigFile.undo configName applied.undo "b2".toList none s.files).2 = .ok () ∧
      (ContinueConfigFile.undo configName applied.undo "b2".toList none s.files).1 configName =
        some (encode "name: c\n".toList) ∧
      applied.before = some (utf8Mark ++ encode "name: c\n".toList) := by
    simpa only [Prod.mk.injEq] using hundo
  have hstep : step localHost configName s (.undo 0 "b2".toList none) = some
      { s with files := (ContinueConfigFile.undo configName applied.undo "b2".toList none
        s.files).1 } := by
    unfold step
    rw [hlist]
    rfl
  have hcall := hexact (wholeTurn.take 2) (.undo 0 "b2".toList none) [] s _ rfl hrun hstep applied
    (by rw [hlist]; rfl)
  rcases hcall with ⟨⟨failure, hfailed⟩, -⟩ | ⟨-, -, hexactly⟩
  · rw [hok] at hfailed
    cases hfailed
  · rw [hwritten, hbefore] at hexactly
    exact absurd hexactly (by decide +kernel)

end InferBridge.ContinueConfig
