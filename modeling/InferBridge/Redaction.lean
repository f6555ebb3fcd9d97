/-
InferBridge/Redaction.lean

Credentials in displayed text (app/model_manager_core.py, app/errors.py).

The redaction replaces the leftmost matches one after another.  A match
that begins before the keyword `Bearer` and takes it as the value of
another secret ends at the blank behind it, and the credential that follows
is an ordinary word of the rest (`keywordTaken`).

The scan of the text in front of the keyword does not depend on what is
behind the blank (`secret_local`), so that it ends at the keyword with a
match under way or without one.  Main result: `redaction_noninterference`,
which says that the text depends on the credential exactly in the first
case.
-/
import InferBridge.ConsoleProgress

namespace InferBridge

open Text

/-! ### Redaction -/

/-- The class `[A-Za-z]` without regard to case. -/
def anyLetter (c : Char) : Bool :=
  (97 ≤ (lowerChar c).toNat ∧ (lowerChar c).toNat ≤ 122) ∨ c.toNat = 0x130 ∨ c.toNat = 0x131 ∨
    c.toNat = 0x17F

/-- The class `[A-Za-z0-9._~+/=-]` without regard to case. -/
def tokenChar (c : Char) : Bool :=
  anyLetter c || charRange 0x30 0x39 c || ['.', '_', '~', '+', '/', '=', '-'].contains c

/-- The class `[A-Za-z0-9_=-]` without regard to case. -/
def hubChar (c : Char) : Bool :=
  anyLetter c || charRange 0x30 0x39 c || ['_', '=', '-'].contains c

/-- `_SECRET_RE`, which is `_PROGRESS_SECRET_RE`. -/
def secretPattern : Pattern Char :=
  .group (.alt
    (.seq (ignoreCase "hf_") (.seq (Pattern.symbols (List.replicate 8 hubChar)) (.many hubChar)))
    (.alt
      (.seq (ignoreCase "bearer") (.seq (Pattern.many1 isSpace) (Pattern.many1 tokenChar)))
      (.seq (ignoreCase "token") (.seq (.many isSpace) (.seq (.symbol fun c => c = ':' ∨ c = '=')
        (.seq (.many isSpace) (Pattern.many1 tokenChar)))))))

def redacted : Str := "[redacted]".toList

/-- `_redact_secrets` -/
def redactSecrets (text : Str) : Str := Pattern.replaceAll secretPattern redacted text

/-- `_PROGRESS_CONTROL_RE` -/
def progressControl (c : Char) : Bool :=
  c.toNat ≤ 8 ∨ c.toNat = 0x0B ∨ c.toNat = 0x0C ∨ (0x0E ≤ c.toNat ∧ c.toNat ≤ 0x1F) ∨
    c.toNat = 0x7F

/-- One part of a path with the separator behind it. -/
def pathPart (separator : Char) : Pattern Char :=
  .seq (Pattern.many1 fun c => c ≠ separator && !isSpace c) (char separator)

/-- A drive and one or more parts, in a text of length `n`. -/
def windowsPath (n : Nat) : Pattern Char :=
  .seq (.symbol fun c => charRange 0x41 0x5A c || charRange 0x61 0x7A c)
    (.seq (char ':') (.seq (char '\\')
      (.seq (pathPart '\\') (Pattern.atMost (pathPart '\\') n))))

/-- Two or more parts behind a slash, in a text of length `n`. -/
def unixPath (n : Nat) : Pattern Char :=
  .seq (char '/')
    (.seq (pathPart '/') (.seq (pathPart '/') (Pattern.atMost (pathPart '/') n)))

/-- The two substitutions that shorten paths. -/
def shortenPaths (line : Str) : Str :=
  let line := Pattern.replaceAll (windowsPath line.length) "...\\".toList line
  Pattern.replaceAll (unixPath line.length) ".../".toList line

def truncateLine (limit : Nat) (line : Str) : Str :=
  if limit < line.length then
    let cut := if limit = 0 then line.dropLast else line.take (limit - 1)
    cut.rdropWhile isSpace ++ ['…']
  else line

/-- The line without control characters and without white space at its ends. -/
def cleanProgressLine (text : Str) : Str :=
  strip isSpace (text.filter fun c => !progressControl c)

/-- `_sanitize_progress_line` -/
def sanitizeProgressLine (limit : Nat) (text : Str) : Str :=
  let line := cleanProgressLine text
  if line = [] then []
  else truncateLine limit (shortenPaths (redactSecrets line))

/-! ### Credentials -/

def bearer : Str := "Bearer".toList

/-- A line with a credential in it. -/
def bearerLine (start credential rest : Str) : Str :=
  start ++ (bearer ++ ' ' :: (credential ++ rest))

def IsCredential (credential : Str) : Prop :=
  credential ≠ [] ∧ ∀ c ∈ credential, tokenChar c = true

/-- A match of the redaction that begins in `start` takes the keyword behind it. -/
def keywordTaken (start : Str) : Bool :=
  0 < (Pattern.scan secretPattern redacted 0 none start bearer).2

/-- What the sanitizer keeps of the text in front of the keyword. -/
def cleanStart (start : Str) : Str :=
  (start.filter fun c => !progressControl c).dropWhile isSpace

/-! ### Characters -/

theorem lowerChar_toNat (c : Char) : (lowerChar c).toNat =
    if 65 ≤ c.toNat ∧ c.toNat ≤ 90 then c.toNat + 32
    else if c.toNat = 0x212A then 107 else c.toNat := by
  unfold lowerChar
  split_ifs with hupper
  · have hvalid : (c.toNat + 32).isValidChar := by
      left
      omega
    rw [Char.toNat_ofNat, if_pos hvalid]
  · rfl
  · rfl

theorem anyLetter_range {c : Char} (h : anyLetter c = true) :
    (65 ≤ c.toNat ∧ c.toNat ≤ 90) ∨ (97 ≤ c.toNat ∧ c.toNat ≤ 122) ∨ c.toNat = 0x130 ∨
      c.toNat = 0x131 ∨ c.toNat = 0x17F ∨ c.toNat = 0x212A := by
  rw [anyLetter, decide_eq_true_eq, lowerChar_toNat] at h
  split_ifs at h <;> omega

theorem tokenChar_range {c : Char} (h : tokenChar c = true) :
    (33 ≤ c.toNat ∧ c.toNat ≤ 126) ∨ c.toNat = 0x130 ∨ c.toNat = 0x131 ∨ c.toNat = 0x17F ∨
      c.toNat = 0x212A := by
  rw [tokenChar, Bool.or_eq_true, Bool.or_eq_true] at h
  rcases h with (hletter | hdigit) | hother
  · have := anyLetter_range hletter
    omega
  · have : 0x30 ≤ c.toNat ∧ c.toNat ≤ 0x39 := by simpa [charRange] using hdigit
    omega
  · have hall : (['.', '_', '~', '+', '/', '=', '-'].all fun d =>
        decide (33 ≤ d.toNat ∧ d.toNat ≤ 126)) = true := by
      decide
    exact .inl (of_decide_eq_true (List.all_eq_true.mp hall c (List.contains_iff_mem.mp hother)))

theorem tokenChar_not_space {c : Char} (h : tokenChar c = true) : isSpace c = false := by
  have := tokenChar_range h
  rw [isSpace, decide_eq_false_iff_not]
  omega

theorem tokenChar_not_control {c : Char} (h : tokenChar c = true) : progressControl c = false := by
  have := tokenChar_range h
  rw [progressControl, decide_eq_false_iff_not]
  omega

/-! ### The keyword -/

theorem bearer_eq : bearer = "Beare".toList ++ ['r'] := by decide

/-- A pattern that does not take the last letter of the keyword stops in front of it. -/
theorem local_before_r {a : Pattern Char} (h : a.avoids 'r' = true) {u x : Str}
    (hu : ∃ v, u = v ++ ['r']) :
    Pattern.Local a u x ∧ ∀ before, ∀ m ∈ a.found before u, ∃ v, m.rest = v ++ ['r'] := by
  obtain ⟨v, rfl⟩ := hu
  exact ⟨Pattern.local_inside h, fun before m hm => Pattern.rest_of_avoids h hm⟩

/-- A token stops at the blank behind it. -/
theorem local_token {u x : Str} : Pattern.Local (Pattern.many1 tokenChar) u (' ' :: x) :=
  Pattern.local_of_avoids (by decide)

/-- **In front of the keyword, what stands behind the blank makes no difference.** -/
theorem secret_local {u : Str} (hu : u ≠ []) (x : Str) :
    Pattern.Local secretPattern (u ++ bearer) (' ' :: x) := by
  have hr : ∃ v, u ++ bearer = v ++ ['r'] := ⟨u ++ "Beare".toList, by rw [bearer_eq, List.append_assoc]⟩
  apply Pattern.local_group
  apply Pattern.local_alt
  · exact Pattern.local_of_avoids (by decide)
  apply Pattern.local_alt
  · apply Pattern.local_seq
    · exact Pattern.local_of_avoids (by decide)
    · -- the word is shorter than the text
      intro before m hm
      have hrest : ∃ v, m.rest = v ++ ['r'] := by
        have hsplit := Pattern.taken_append_rest hm
        have hlength : m.taken.length = 6 :=
          (Pattern.of_mem_symbols hm).1.length_eq.trans (by decide)
        have hsuffix : m.rest <:+ u ++ bearer := ⟨m.taken, hsplit⟩
        obtain ⟨v, hv⟩ := hr
        rw [hv, List.suffix_concat_iff] at hsuffix
        rcases hsuffix with hnil | ⟨w, hw, -⟩
        · have htotal := congrArg List.length hsplit
          have hbearer : bearer.length = 6 := by decide
          rw [hnil, List.append_nil, List.length_append, hlength, hbearer] at htotal
          exact absurd (List.length_eq_zero_iff.mp (by omega)) hu
        · exact ⟨w, hw⟩
      obtain ⟨hspaces, hend⟩ := local_before_r (a := Pattern.many1 isSpace) (by decide)
        (x := ' ' :: x) hrest
      exact Pattern.local_seq hspaces fun _ _ _ => local_token
  · obtain ⟨hword, hend⟩ := local_before_r (a := ignoreCase "token") (by decide) (x := ' ' :: x) hr
    apply Pattern.local_seq hword
    intro before m hm
    obtain ⟨hspaces, hend⟩ := local_before_r (a := Pattern.many isSpace) (by decide)
      (x := ' ' :: x) (hend before m hm)
    apply Pattern.local_seq hspaces
    intro before m hm
    obtain ⟨hsign, hend⟩ := local_before_r (a := .symbol fun c => c = ':' ∨ c = '=') (by decide)
      (x := ' ' :: x) (hend before m hm)
    apply Pattern.local_seq hsign
    intro before m hm
    obtain ⟨hspaces, hend⟩ := local_before_r (a := Pattern.many isSpace) (by decide)
      (x := ' ' :: x) (hend before m hm)
    exact Pattern.local_seq hspaces fun _ _ _ => local_token

/-- The text in front of the keyword is scanned alike. -/
theorem scan_start (start x : Str) :
    Pattern.scan secretPattern redacted 0 none start (bearer ++ ' ' :: x) =
      Pattern.scan secretPattern redacted 0 none start bearer := by
  apply Pattern.scan_congr
  intro v before hv hne
  rw [← List.append_assoc]
  exact (secret_local hne x).head_taken before

theorem secret_blind : secretPattern.blind = true := by decide

/-- Nothing is found at a letter that begins none of the three words. -/
theorem secret_none {c : Char} (h : letter 'h' c = false) (b : letter 'b' c = false)
    (t : letter 't' c = false) (before : Option Char) (x : Str) :
    secretPattern.found before (c :: x) = [] := by
  have hword {word : String} {a : Pattern Char}
      (hdiffers : Pattern.differs (word.toList.map letter) [c] = true) :
      (Pattern.seq (ignoreCase word) a).found before (c :: x) = [] := by
    have hnone : (Pattern.symbols (word.toList.map letter)).found before (c :: x) = [] :=
      Pattern.found_symbols_of_differs hdiffers
    rw [Pattern.found_seq, ignoreCase, hnone]
    rfl
  rw [secretPattern, Pattern.found_group, Pattern.found_alt, Pattern.found_alt,
    hword (by simp [Pattern.differs, h]), hword (by simp [Pattern.differs, b]),
    hword (by simp [Pattern.differs, t])]
  rfl

/-- What the redaction finds at the keyword. -/
theorem head_bearer {credential : Str} (h : IsCredential credential) (rest : Str)
    (before : Option Char) :
    (secretPattern.found before (bearer ++ ' ' :: (credential ++ rest))).head?.map Match.taken =
      some (bearer ++ ' ' :: (credential ++ rest.takeWhile tokenChar)) := by
  obtain ⟨c, cs, rfl⟩ := List.exists_cons_of_ne_nil h.1
  have hc : tokenChar c = true := h.2 c List.mem_cons_self
  have hcs : ∀ d ∈ cs, tokenChar d = true := fun d hd => h.2 d (List.mem_cons_of_mem c hd)
  have hfirst : (ignoreCase "hf_").found before (bearer ++ ' ' :: (c :: cs ++ rest)) = [] :=
    Pattern.found_symbols_of_differs (by decide)
  have hword : (ignoreCase "bearer").found before (bearer ++ ' ' :: (c :: cs ++ rest)) =
      [⟨bearer, [], ' ' :: (c :: cs ++ rest)⟩] := by
    apply Pattern.found_symbols
    decide
  have hspaces : ((Pattern.many1 isSpace).found (bearer.getLast?.or before)
      (' ' :: (c :: cs ++ rest))).head? = some ⟨[' '], [], c :: cs ++ rest⟩ := by
    rw [Pattern.head_many1 (by decide)]
    simp [tokenChar_not_space hc]
  have htoken (before : Option Char) : ((Pattern.many1 tokenChar).found before
      (c :: cs ++ rest)).head? =
        some ⟨c :: cs ++ rest.takeWhile tokenChar, [], rest.dropWhile tokenChar⟩ := by
    rw [List.cons_append, Pattern.head_many1 hc, List.takeWhile_append_of_pos hcs,
      List.dropWhile_append_of_pos hcs]
    rfl
  have hsecond : ((Pattern.seq (ignoreCase "bearer") (.seq (Pattern.many1 isSpace)
      (Pattern.many1 tokenChar))).found before (bearer ++ ' ' :: (c :: cs ++ rest))).head? =
        some ⟨bearer ++ ([' '] ++ (c :: cs ++ rest.takeWhile tokenChar)), [],
          rest.dropWhile tokenChar⟩ :=
    Pattern.head_seq (by rw [hword]; rfl) (Pattern.head_seq hspaces (htoken _))
  rw [secretPattern, Pattern.found_group, Pattern.found_alt, Pattern.found_seq, hfirst]
  rw [List.flatMap_nil, List.nil_append, List.head?_map, Pattern.head_alt_left hsecond]
  rfl

/-! ### The redacted line -/

theorem redact_bearerLine (start credential rest : Str) :
    redactSecrets (bearerLine start credential rest) =
      (Pattern.scan secretPattern redacted 0 none start bearer).1 ++
        (Pattern.scan secretPattern redacted
          (Pattern.scan secretPattern redacted 0 none start bearer).2 (start.getLast?.or none)
          (bearer ++ ' ' :: (credential ++ rest)) []).1 := by
  rw [redactSecrets, bearerLine, Pattern.replaceAll, Pattern.scan_append, List.append_nil,
    scan_start]

/-- With no match under way at the keyword, the credential is replaced. -/
theorem redact_of_free {start credential rest : Str} (hfree : keywordTaken start = false)
    (h : IsCredential credential) : redactSecrets (bearerLine start credential rest) =
      (Pattern.scan secretPattern redacted 0 none start bearer).1 ++
        (redacted ++ redactSecrets (rest.dropWhile tokenChar)) := by
  have hskip : (Pattern.scan secretPattern redacted 0 none start bearer).2 = 0 := by
    rw [keywordTaken, decide_eq_false_iff_not] at hfree
    omega
  rw [redact_bearerLine, hskip]
  apply congrArg
  obtain ⟨m, hm, htaken⟩ := Option.map_eq_some_iff.mp
    (head_bearer h rest (start.getLast?.or none))
  have hne : m.taken ≠ [] := by
    rw [htaken]
    exact List.cons_ne_nil _ _
  have hrest : m.rest = rest.dropWhile tokenChar := by
    have hsplit := Pattern.taken_append_rest (List.mem_of_mem_head? hm)
    have hwhole : bearer ++ ' ' :: (credential ++ rest) =
        (bearer ++ ' ' :: (credential ++ rest.takeWhile tokenChar)) ++
          rest.dropWhile tokenChar := by
      simp [List.takeWhile_append_dropWhile]
    rw [htaken, hwhole] at hsplit
    exact List.append_cancel_left hsplit
  rw [Pattern.scan_match secret_blind hm hne, hrest]
  rfl

/-- A character at which neither the redaction nor a path begins. -/
def Inert (c : Char) : Prop :=
  (letter 'h' c = false ∧ letter 'b' c = false ∧ letter 't' c = false) ∧
    (charRange 0x41 0x5A c || charRange 0x61 0x7A c) = false ∧ c ≠ '/'

theorem inert_blank : Inert ' ' := by
  refine ⟨⟨?_, ?_, ?_⟩, ?_, ?_⟩ <;> decide

theorem Inert.secret {c : Char} (h : Inert c) (before : Option Char) (x : Str) :
    secretPattern.found before (c :: x) = [] :=
  secret_none h.1.1 h.1.2.1 h.1.2.2 before x

/-- With a match under way at the keyword, what follows the blank stays. -/
theorem redact_of_taken {start : Str} (htaken : keywordTaken start = true) :
    ∃ front, ∀ d rest, Inert d → redactSecrets (bearerLine start [d] rest) =
      front ++ ' ' :: d :: redactSecrets rest := by
  obtain ⟨k, hk⟩ : ∃ k, (Pattern.scan secretPattern redacted 0 none start bearer).2 = k := ⟨_, rfl⟩
  have hpos : 0 < k := by
    rw [keywordTaken, decide_eq_true_eq, hk] at htaken
    exact htaken
  have hle : k ≤ bearer.length := by
    rw [← hk]
    exact Pattern.scan_snd_le (Nat.zero_le _) none
  refine ⟨(Pattern.scan secretPattern redacted 0 none start bearer).1 ++ bearer.drop k, ?_⟩
  intro d rest hd
  rw [redact_bearerLine, hk, List.append_assoc]
  apply congrArg
  -- no match begins in what is left of the keyword
  have hletters : ∀ c ∈ bearer.drop k ++ [' ', d], ∀ before x,
      secretPattern.found before (c :: x) = [] := by
    intro c hc
    rcases List.mem_append.mp hc with hc | hc
    · have hc1 : c ∈ bearer.drop 1 := (List.drop_sublist_drop_left bearer hpos).subset hc
      have hall : ((bearer.drop 1).all fun c =>
          !letter 'h' c && !letter 'b' c && !letter 't' c) = true := by
        decide
      have hnone := List.all_eq_true.mp hall c hc1
      simp only [Bool.and_eq_true, Bool.not_eq_true'] at hnone
      exact secret_none hnone.1.1 hnone.1.2 hnone.2
    · rcases List.mem_cons.mp hc with rfl | hc
      · exact inert_blank.secret
      · rw [List.mem_singleton.mp hc]
        exact hd.secret
  have hsplit : bearer ++ ' ' :: ([d] ++ rest) =
      bearer.take k ++ ((bearer.drop k ++ [' ', d]) ++ rest) := by
    rw [List.append_assoc, ← List.append_assoc, List.take_append_drop]
    rfl
  have htake : (bearer.take k).length = k := List.length_take_of_le hle
  rw [hsplit]
  have hscan := Pattern.scan_skip (a := secretPattern) redacted (bearer.take k)
    ((bearer.drop k ++ [' ', d]) ++ rest) [] (start.getLast?.or none)
  rw [htake] at hscan
  rw [hscan, Pattern.scan_none secret_blind hletters, List.append_assoc]
  rfl

/-! ### The displayed line -/

theorem clean_bearerLine {start credential rest : Str} (h : IsCredential credential) :
    cleanProgressLine (bearerLine start credential rest) =
      bearerLine (cleanStart start) credential
        ((rest.filter fun c => !progressControl c).rdropWhile isSpace) := by
  have hmiddle : (bearer ++ ' ' :: credential).filter (fun c => !progressControl c) =
      bearer ++ ' ' :: credential := by
    rw [List.filter_eq_self]
    intro c hc
    rcases List.mem_append.mp hc with hc | hc
    · have hall : (bearer.all fun c => !progressControl c) = true := by decide
      exact List.all_eq_true.mp hall c hc
    · rcases List.mem_cons.mp hc with rfl | hc
      · decide
      · rw [tokenChar_not_control (h.2 c hc)]
        rfl
  have hline : bearerLine start credential rest =
      start ++ ((bearer ++ ' ' :: credential) ++ rest) := by
    simp [bearerLine]
  rw [cleanProgressLine, hline, List.filter_append, List.filter_append, hmiddle, Text.strip_append]
  · simp [bearerLine, cleanStart]
  · intro _
    rfl
  · intro hne
    have hlast : (bearer ++ ' ' :: credential).getLast hne = credential.getLast h.1 := by
      simp [List.getLast_cons h.1]
    rw [hlast]
    exact tokenChar_not_space (h.2 _ (List.getLast_mem h.1))
  · exact List.cons_ne_nil _ _

theorem pathPart_avoids (separator : Char) (h : separator ≠ ' ') :
    (pathPart separator).avoids ' ' = true := by
  simp [pathPart, Pattern.many1, Pattern.avoids, char, h.symm, show isSpace ' ' = true by decide]

/-- Paths are shortened on both sides of a blank and an inert character alone. -/
theorem shortenPaths_divide (front rest : Str) :
    ∃ front' rest', ∀ d, Inert d →
      shortenPaths (front ++ ' ' :: d :: rest) = front' ++ ' ' :: d :: rest' := by
  obtain ⟨n, hn⟩ : ∃ n, n = front.length + rest.length + 2 := ⟨_, rfl⟩
  have hwindows {c : Char} (hc : Inert c) (before : Option Char) (x : Str) :
      (windowsPath n).found before (c :: x) = [] := by
    rw [windowsPath, Pattern.found_seq, Pattern.found_symbol_cons, if_neg (by simp [hc.2.1])]
    rfl
  have hunix {c : Char} (hc : Inert c) (m : Nat) (before : Option Char) (x : Str) :
      (unixPath m).found before (c :: x) = [] := by
    rw [unixPath, Pattern.found_seq, char, Pattern.found_symbol_cons, if_neg (by simp [hc.2.2])]
    rfl
  have hwindowsAvoids : (windowsPath n).avoids ' ' = true := by
    have hpart := pathPart_avoids '\\' (by decide)
    have hparts := Pattern.avoids_atMost hpart n
    simp [windowsPath, Pattern.avoids, char, hpart, hparts, charRange]
  have hunixAvoids (m : Nat) : (unixPath m).avoids ' ' = true := by
    have hpart := pathPart_avoids '/' (by decide)
    have hparts := Pattern.avoids_atMost hpart m
    simp [unixPath, Pattern.avoids, char, hpart, hparts]
  obtain ⟨middle, hmiddle⟩ : ∃ middle,
      middle = Pattern.replaceAll (windowsPath n) "...\\".toList front := ⟨_, rfl⟩
  obtain ⟨tail, htail⟩ : ∃ tail,
      tail = Pattern.replaceAll (windowsPath n) "...\\".toList rest := ⟨_, rfl⟩
  obtain ⟨m, hm⟩ : ∃ m, m = middle.length + tail.length + 2 := ⟨_, rfl⟩
  refine ⟨Pattern.replaceAll (unixPath m) ".../".toList middle,
    Pattern.replaceAll (unixPath m) ".../".toList tail, ?_⟩
  intro d hd
  have hlength : (front ++ ' ' :: d :: rest).length = n := by
    rw [hn, List.length_append]
    simp only [List.length_cons]
    omega
  have hlength' : (middle ++ ' ' :: d :: tail).length = m := by
    rw [hm, List.length_append]
    simp only [List.length_cons]
    omega
  rw [shortenPaths, hlength, Pattern.replaceAll_divide rfl hwindowsAvoids (hwindows inert_blank) (hwindows hd),
    ← hmiddle, ← htail, hlength',
    Pattern.replaceAll_divide rfl (hunixAvoids m) (hunix inert_blank m) (hunix hd m)]

theorem isCredential_singleton {c : Char} (h : tokenChar c = true) : IsCredential [c] := by
  refine ⟨List.cons_ne_nil c [], ?_⟩
  intro d hd
  rw [List.mem_singleton.mp hd]
  exact h

theorem bearerLine_ne_nil (start credential rest : Str) : bearerLine start credential rest ≠ [] :=
  List.append_ne_nil_of_right_ne_nil _ (List.cons_ne_nil _ _)

/-- **What is displayed depends on the credential exactly if a match of the redaction that
begins before the keyword takes the keyword.** -/
theorem redaction_noninterference (start rest : Str) :
    (∀ c d, IsCredential c → IsCredential d →
      redactSecrets (bearerLine start c rest) = redactSecrets (bearerLine start d rest) ∧
        ∀ limit, sanitizeProgressLine limit (bearerLine start c rest) =
          sanitizeProgressLine limit (bearerLine start d rest)) ↔
      keywordTaken start = false ∧ keywordTaken (cleanStart start) = false := by
  have hone : IsCredential ['1'] ∧ Inert '1' := by
    refine ⟨isCredential_singleton (by decide), ⟨?_, ?_, ?_⟩, ?_, ?_⟩ <;> decide
  have htwo : IsCredential ['2'] ∧ Inert '2' := by
    refine ⟨isCredential_singleton (by decide), ⟨?_, ?_, ?_⟩, ?_, ?_⟩ <;> decide
  have hdiffer (front tail : Str) : front ++ ' ' :: '1' :: tail ≠ front ++ ' ' :: '2' :: tail := by
    intro heq
    have htail := List.append_cancel_left heq
    simp at htail
  constructor
  · intro h
    obtain ⟨hredacted, hdisplayed⟩ := h ['1'] ['2'] hone.1 htwo.1
    constructor
    · by_contra htaken
      obtain ⟨front, hfront⟩ := redact_of_taken (by simpa using htaken)
      rw [hfront '1' rest hone.2, hfront '2' rest htwo.2] at hredacted
      exact hdiffer _ _ hredacted
    · by_contra htaken
      obtain ⟨front, hfront⟩ := redact_of_taken (by simpa using htaken)
      obtain ⟨front', rest', hshort⟩ := shortenPaths_divide front
        (redactSecrets ((rest.filter fun c => !progressControl c).rdropWhile isSpace))
      -- a limit beyond the line shows all of it
      have hline (d : Char) (hd : Inert d) (hcredential : IsCredential [d]) :
          sanitizeProgressLine (front' ++ ' ' :: '1' :: rest').length (bearerLine start [d] rest) =
            front' ++ ' ' :: d :: rest' := by
        rw [sanitizeProgressLine, clean_bearerLine hcredential, if_neg (bearerLine_ne_nil _ _ _), hfront d _ hd, hshort d hd, truncateLine, if_neg]
        simp
      have hequal := hdisplayed (front' ++ ' ' :: '1' :: rest').length
      rw [hline '1' hone.2 hone.1, hline '2' htwo.2 htwo.1] at hequal
      exact hdiffer _ _ hequal
  · rintro ⟨hfree, hfree'⟩ c d hc hd
    refine ⟨?_, ?_⟩
    · rw [redact_of_free hfree hc, redact_of_free hfree hd]
    · intro limit
      rw [sanitizeProgressLine, sanitizeProgressLine, clean_bearerLine hc, clean_bearerLine hd,
        if_neg (bearerLine_ne_nil _ _ _), if_neg (bearerLine_ne_nil _ _ _), redact_of_free hfree' hc, redact_of_free hfree' hd]

/-- The keyword is taken as the value of a token, and the credential is displayed. -/
theorem redaction_shows_credential :
    ¬ ∀ start rest c d : Str, IsCredential c → IsCredential d →
      (rest = [] ∨ ∃ b t, rest = b :: t ∧ isSpace b = true) →
        redactSecrets (bearerLine start c rest) = redactSecrets (bearerLine start d rest) := by
  intro h
  have heq := h "token: ".toList [] ['a'] ['b'] (isCredential_singleton (by decide))
    (isCredential_singleton (by decide)) (.inl rfl)
  revert heq
  decide

end InferBridge
