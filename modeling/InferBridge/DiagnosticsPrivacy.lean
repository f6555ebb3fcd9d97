/-
InferBridge/DiagnosticsPrivacy.lean

Credentials in the texts of a diagnostics archive (app/diagnostics_privacy.py).

The sanitizer removes the control characters, replaces the secrets from left
to right, then the addresses and the names in home directories, and cuts the
text.  Four markers announce a credential.  A match that is under way at
`password=` or `hf_` goes on through the credential.  A match that is under
way at `Bearer ` or `token: ` ends at the blank in the marker, and then the
credential is an ordinary word of the rest (`shadowed`).

Main result: `sanitizeText_hides_iff`, which says that the text depends on
the credential exactly in that case.  What stands in front of the marker is
treated by the rules for texts that differ in one place.
-/
import InferBridge.Lib.Holes
import InferBridge.Redaction

namespace InferBridge.DiagnosticsPrivacy

open Text

/-! ### Expressions -/

/-- The class `[_-]`. -/
def separator (c : Char) : Bool := c = '_' ∨ c = '-'

/-- `first[_-]?second` without regard to case. -/
def joined (first second : String) : Pattern Char :=
  .seq (ignoreCase first) (.seq (Pattern.opt (.symbol separator)) (ignoreCase second))

/-- `SECRET_KEY_RE` -/
def secretKey : Pattern Char :=
  Pattern.oneOf [joined "api" "key", ignoreCase "authorization", ignoreCase "bearer",
    joined "hf" "token", joined "access" "token", ignoreCase "secret", ignoreCase "password",
    ignoreCase "certificate", joined "private" "key"]

/-- The class `[^\s,;]`. -/
def valueChar (c : Char) : Bool := !isSpace c && c ≠ ',' && c ≠ ';'

/-- The class `[:=]`. -/
def sign (c : Char) : Bool := c = ':' ∨ c = '='

/-- `api[_-]?key|token|secret|password` -/
def secretName : Pattern Char :=
  .alt (joined "api" "key")
    (.alt (ignoreCase "token") (.alt (ignoreCase "secret") (ignoreCase "password")))

/-- `SECRET_VALUE_RE` -/
def secretValue : Pattern Char :=
  .alt (.seq (ignoreCase "hf_") (.seq (Pattern.symbols (List.replicate 8 hubChar)) (.many hubChar)))
    (.alt (.seq (ignoreCase "bearer") (.seq (Pattern.many1 isSpace) (Pattern.many1 tokenChar)))
      (.seq secretName (.seq (.many isSpace) (.seq (.symbol sign)
        (.seq (.many isSpace) (Pattern.many1 valueChar))))))

/-- The class `[A-Z0-9._%+-]` without regard to case. -/
def mailboxChar (c : Char) : Bool :=
  anyLetter c || charRange 0x30 0x39 c || ['.', '_', '%', '+', '-'].contains c

/-- The class `[A-Z0-9.-]` without regard to case. -/
def domainChar (c : Char) : Bool :=
  anyLetter c || charRange 0x30 0x39 c || ['.', '-'].contains c

/-- `EMAIL_RE` -/
def email (unicode : UnicodeTables) : Pattern Char :=
  .seq (.boundary unicode.word) (.seq (Pattern.many1 mailboxChar) (.seq (char '@')
    (.seq (Pattern.many1 domainChar) (.seq (char '.')
      (.seq (.seq (Pattern.symbols (List.replicate 2 anyLetter)) (.many anyLetter))
        (.boundary unicode.word))))))

/-- `WINDOWS_USER_RE` -/
def windowsUser : Pattern Char :=
  .seq (.group (.seq (.symbol anyLetter) (.seq (char ':') (.seq (char '\\')
      (.seq (ignoreCase "users") (char '\\'))))))
    (Pattern.many1 fun c => c ≠ '\\' && c ≠ '/' && !isSpace c)

/-- The class `[A-Za-z0-9_]`. -/
def asciiWord (c : Char) : Bool :=
  charRange 0x41 0x5A c || charRange 0x61 0x7A c || charRange 0x30 0x39 c || c = '_'

/-- `POSIX_HOME_RE` -/
def posixHome : Pattern Char :=
  .seq (.notAfter asciiWord) (.seq (char '/') (.seq (.alt (literal "home") (literal "Users"))
    (.seq (char '/') (Pattern.many1 fun c => c ≠ '/' && !isSpace c))))

/-! ### The sanitizer -/

def redactedSecret : Str := "[redacted-secret]".toList

def redactedEmail : Str := "[redacted-email]".toList

/-- `\1<redacted-user>` -/
def redactedUser (groups : List Str) : Str := groups.headD [] ++ "<redacted-user>".toList

def redactedHome : Str := "/home/<redacted-user>".toList

/-- `CONTROL_RE` is the class that the display of progress removes. -/
def visible (text : Str) : Str := text.filter fun c => !progressControl c

/-- The three substitutions after that of the secrets. -/
def redactPersonal (unicode : UnicodeTables) (text : Str) : Str :=
  let text := Pattern.replaceAll (email unicode) redactedEmail text
  let text := Pattern.substitute windowsUser redactedUser text
  Pattern.replaceAll posixHome redactedHome text

/-- `sanitize_text`, where `text` is `str(value or "")`. -/
def sanitizeText (unicode : UnicodeTables) (limit : Nat) (text : Str) : Str :=
  (redactPersonal unicode
    (Pattern.replaceAll secretValue redactedSecret (visible text))).take limit

/-- The default of `limit`. -/
def textLimit : Nat := 64 * 1024

/-! ### Markers -/

inductive Marker where
  | bearer
  | password
  | token
  | hub
deriving DecidableEq, Repr

def Marker.text : Marker → Str
  | .bearer => "Bearer ".toList
  | .password => "password=".toList
  | .token => "token: ".toList
  | .hub => "hf_".toList

/-- A credential that a marker announces: letters and digits, at least eight. -/
def IsCredential (credential : Str) : Prop :=
  8 ≤ credential.length ∧ ∀ c ∈ credential, isAsciiAlnum c = true

/-- A match of the redaction that begins in `start` takes the word behind it. -/
def wordTaken (word start : Str) : Bool :=
  0 < (Pattern.scan secretValue redactedSecret 0 none start word).2

/-- A match that begins before the marker takes the word of a marker that ends in a blank. -/
def Marker.shadowed (start : Str) : Marker → Bool
  | .bearer => wordTaken "Bearer".toList (visible start)
  | .token => wordTaken "token:".toList (visible start)
  | .password | .hub => false

/-- What the sanitizer shows is the same for all credentials. -/
def Hides (unicode : UnicodeTables) (start : Str) (marker : Marker) : Prop :=
  ∀ rest c d limit, (rest = [] ∨ ∃ b t, rest = b :: t ∧ isSpace b = true) →
    IsCredential c → IsCredential d →
      sanitizeText unicode limit (start ++ (marker.text ++ (c ++ rest))) =
        sanitizeText unicode limit (start ++ (marker.text ++ (d ++ rest)))

/-! ### Characters -/

theorem alnum_hub {c : Char} (h : isAsciiAlnum c = true) : hubChar c = true := by
  have hrange : (48 ≤ c.toNat ∧ c.toNat ≤ 57) ∨ (65 ≤ c.toNat ∧ c.toNat ≤ 90) ∨
      (97 ≤ c.toNat ∧ c.toNat ≤ 122) := of_decide_eq_true h
  rw [hubChar, Bool.or_eq_true, Bool.or_eq_true]
  rcases hrange with hdigit | hletter
  · exact .inl (.inr (by simpa [charRange] using hdigit))
  · refine .inl (.inl ?_)
    rw [anyLetter, decide_eq_true_eq, lowerChar_toNat]
    split_ifs <;> omega

theorem hub_token {c : Char} (h : hubChar c = true) : tokenChar c = true := by
  rw [hubChar, Bool.or_eq_true] at h
  rw [tokenChar, Bool.or_eq_true]
  refine h.imp id ?_
  intro hother
  have hsub : ['_', '=', '-'] ⊆ ['.', '_', '~', '+', '/', '=', '-'] := by simp
  exact List.contains_iff_mem.mpr (hsub (List.contains_iff_mem.mp hother))

theorem token_value {c : Char} (h : tokenChar c = true) : valueChar c = true := by
  have hcomma : c ≠ ',' := by
    rintro rfl
    revert h
    decide
  have hsemicolon : c ≠ ';' := by
    rintro rfl
    revert h
    decide
  simp [valueChar, tokenChar_not_space h, hcomma, hsemicolon]

variable {credential : Str}

theorem IsCredential.visible (h : IsCredential credential) : visible credential = credential := by
  apply List.filter_eq_self.mpr
  intro c hc
  rw [tokenChar_not_control (hub_token (alnum_hub (h.2 c hc)))]
  rfl

theorem IsCredential.exists_cons (h : IsCredential credential) :
    ∃ c cs, credential = c :: cs ∧ isSpace c = false := by
  obtain ⟨c, cs, rfl⟩ := List.exists_cons_of_length_pos
    (show 0 < credential.length by have := h.1; omega)
  exact ⟨c, cs, rfl, tokenChar_not_space (hub_token (alnum_hub (h.2 c List.mem_cons_self)))⟩

/-- A text with a marker and a credential, without its control characters. -/
theorem visible_marked (start rest : Str) (marker : Marker) (h : IsCredential credential) :
    DiagnosticsPrivacy.visible (start ++ (marker.text ++ (credential ++ rest))) =
      DiagnosticsPrivacy.visible start ++ (marker.text ++ (credential ++ DiagnosticsPrivacy.visible rest)) := by
  have hmarker : DiagnosticsPrivacy.visible marker.text = marker.text := by
    cases marker <;> decide
  have hcredential := h.visible
  unfold DiagnosticsPrivacy.visible at *
  rw [List.filter_append, List.filter_append, List.filter_append, hmarker, hcredential]

/-! ### Markers that a match goes on through -/

theorem secretValue_blind : secretValue.blind = true := by decide

/-- The marker with a credential behind it. -/
def Marked (word : Str) (x : Str) : Prop := ∃ c, IsCredential c ∧ x = word ++ c

theorem Marked.ne_nil {word x : Str} (h : Marked word x) : x ≠ [] := by
  obtain ⟨c, hc, rfl⟩ := h
  obtain ⟨d, ds, rfl, -⟩ := hc.exists_cons
  exact List.append_ne_nil_of_right_ne_nil _ (List.cons_ne_nil d ds)

/-- The words that a secret begins with. -/
def firstWords : List String := ["hf_", "bearer", "api", "token", "secret", "password"]

/-- **A match under way at a marker of hub characters goes on through the credential.** -/
theorem settled_marked {word : Str} {c₀ : Char} {word' : Str} (hword : word = c₀ :: word')
    (hhub : ∀ c ∈ word, hubChar c = true)
    (hfirst : ∀ w ∈ firstWords, ∀ i < (w.toList.map letter).length, 0 < i →
      Pattern.differs ((w.toList.map letter).drop i) word = true)
    (hspace : isSpace c₀ = false) (hsign : sign c₀ = false) (hseparator : separator c₀ = false)
    (hkey : (ignoreCase "key").avoids c₀ = true) {v : Str} (hv : v ≠ []) (s : Str) :
    Pattern.Settled secretValue v (Marked word) s := by
  have hall {x : Str} (hx : Marked word x) : 8 ≤ x.length ∧ ∀ c ∈ x, hubChar c = true := by
    obtain ⟨c, hc, rfl⟩ := hx
    constructor
    · rw [List.length_append]
      have := hc.1
      omega
    · intro d hd
      rcases List.mem_append.mp hd with hd | hd
      · exact hhub d hd
      · exact alnum_hub (hc.2 d hd)
  have hwords {x : Str} (hx : Marked word x) {w : String} (hw : w ∈ firstWords) :
      Pattern.Local (ignoreCase w) v (x ++ s) := by
    obtain ⟨c, -, rfl⟩ := hx
    rw [List.append_assoc]
    exact Pattern.local_symbols (hfirst w hw) hv _
  -- what does not take the first character of the marker stops before it
  have hstops {a : Pattern Char} (ha : a.avoids c₀ = true) (u : Str) {x : Str}
      (hx : Marked word x) : Pattern.Local a u (x ++ s) := by
    obtain ⟨c, -, rfl⟩ := hx
    rw [hword]
    exact Pattern.local_of_avoids ha
  have hspaces : (Pattern.many isSpace).avoids c₀ = true := by simp [Pattern.avoids, hspace]
  apply Pattern.settled_alt
  · apply Pattern.settled_seq (by decide) fun x hx => hwords hx (by decide)
    intro m hm
    exact Pattern.settled_run (Pattern.isRun_atLeast 8) fun x hx => hall hx
  apply Pattern.settled_alt
  · apply Pattern.settled_seq (by decide) fun x hx => hwords hx (by decide)
    intro m hm
    apply Pattern.settled_seq (by decide) fun x hx => hstops (by
      simp [Pattern.many1, Pattern.avoids, hspace]) _ hx
    intro n hn
    apply Pattern.settled_run Pattern.isRun_many1
    intro x hx
    obtain ⟨hlength, hx⟩ := hall hx
    exact ⟨by omega, fun c hc => hub_token (hx c hc)⟩
  · apply Pattern.settled_seq (by decide)
    · intro x hx
      apply Pattern.local_alt
      · apply Pattern.local_seq (hwords hx (by decide))
        intro before m hm
        apply Pattern.local_seq (hstops (by simp [Pattern.opt, Pattern.avoids, hseparator]) _ hx)
        intro before n hn
        exact hstops hkey _ hx
      apply Pattern.local_alt (hwords hx (by decide))
      exact Pattern.local_alt (hwords hx (by decide)) (hwords hx (by decide))
    intro m hm
    apply Pattern.settled_seq (by decide) fun x hx => hstops hspaces _ hx
    intro m hm
    apply Pattern.settled_seq (by decide) fun x hx => hstops (by simp [Pattern.avoids, hsign]) _ hx
    intro m hm
    apply Pattern.settled_seq (by decide) fun x hx => hstops hspaces _ hx
    intro n hn
    apply Pattern.settled_run Pattern.isRun_many1
    intro x hx
    obtain ⟨hlength, hx⟩ := hall hx
    exact ⟨by omega, fun c hc => token_value (hub_token (hx c hc))⟩

/-! ### A match that begins at a marker -/

/-- White space in front of something else. -/
theorem head_spaces {front t : Str} (hfront : ∀ c ∈ front, isSpace c = true)
    (ht : ∃ c u, t = c :: u ∧ isSpace c = false) (before : Option Char) :
    ((Pattern.many isSpace).found before (front ++ t)).head? = some ⟨front, [], t⟩ := by
  obtain ⟨c, u, rfl, hc⟩ := ht
  rw [Pattern.head_many, List.takeWhile_append_of_pos hfront,
    List.dropWhile_append_of_pos hfront]
  simp [hc]

theorem head_word {w : String} {word : Str}
    (h : List.Forall₂ (fun c p => p c = true) word (w.toList.map letter)) (before : Option Char)
    (t : Str) : ((ignoreCase w).found before (word ++ t)).head? = some ⟨word, [], t⟩ := by
  rw [ignoreCase, Pattern.found_symbols h]
  rfl

theorem found_word_nil {w : String} {word : Str}
    (h : Pattern.differs (w.toList.map letter) word = true) (a : Pattern Char)
    (before : Option Char) (t : Str) :
    (Pattern.seq (ignoreCase w) a).found before (word ++ t) = [] := by
  rw [Pattern.found_seq, ignoreCase, Pattern.found_symbols_of_differs h]
  rfl

/-- The rest of a secret behind its name and a sign. -/
theorem through_value (blanks s : Str) (hblanks : ∀ c ∈ blanks, isSpace c = true) :
    Pattern.Through (.seq (.many isSpace) (Pattern.many1 valueChar)) [] (Marked blanks) s := by
  have hcredential : Pattern.Through (Pattern.many1 valueChar) [] IsCredential s := by
    apply Pattern.through_run Pattern.isRun_many1
    intro c hc
    refine ⟨le_trans (by omega) hc.1, fun d hd => token_value (hub_token (alnum_hub (hc.2 d hd)))⟩
  refine Pattern.through_seq ?_ hcredential
  intro c hc before
  obtain ⟨d, ds, rfl, hd⟩ := hc.exists_cons
  exact head_spaces hblanks ⟨d, ds ++ s, rfl, hd⟩ before

/-- A name with a sign and blanks behind it. -/
theorem through_named (name : Str) {c : Char} (blanks s : Str) (hc : sign c = true)
    (hblanks : ∀ c ∈ blanks, isSpace c = true)
    (hname : ∀ before t, (secretName.found before (name ++ t)).head? = some ⟨name, [], t⟩)
    (hhub : ∀ before t a, (Pattern.seq (ignoreCase "hf_") a).found before (name ++ t) = [])
    (hbearer : ∀ before t a, (Pattern.seq (ignoreCase "bearer") a).found before (name ++ t) = []) :
    Pattern.Through secretValue [] (Marked (name ++ c :: blanks)) s := by
  have hspace : isSpace c = false := by
    have hsign : c = ':' ∨ c = '=' := of_decide_eq_true hc
    rcases hsign with rfl | rfl <;> decide
  have hvalue := through_value blanks s hblanks
  have hsigned : Pattern.Through (.seq (.symbol sign)
      (.seq (.many isSpace) (Pattern.many1 valueChar))) []
      (fun y => ∃ x, Marked blanks x ∧ y = [c] ++ x) s := by
    refine Pattern.through_seq ?_ hvalue
    intro x hx before
    rw [List.cons_append, Pattern.found_symbol_cons, if_pos hc]
    rfl
  have hspaced : Pattern.Through (.seq (.many isSpace) (.seq (.symbol sign)
      (.seq (.many isSpace) (Pattern.many1 valueChar)))) []
      (fun y => ∃ x, (∃ x', Marked blanks x' ∧ x = [c] ++ x') ∧ y = [] ++ x) s := by
    refine Pattern.through_seq ?_ hsigned
    rintro x ⟨x', -, rfl⟩ before
    exact head_spaces (by simp) ⟨c, x' ++ s, rfl, hspace⟩ before
  have hwhole : Pattern.Through (.seq secretName (.seq (.many isSpace) (.seq (.symbol sign)
      (.seq (.many isSpace) (Pattern.many1 valueChar))))) [] (Marked (name ++ c :: blanks)) s := by
    refine (Pattern.through_seq (fun x hx before => hname before _) hspaced).mono ?_
    rintro x ⟨credential, hcredential, rfl⟩
    refine ⟨c :: blanks ++ credential, ⟨c :: blanks ++ credential,
      ⟨blanks ++ credential, ⟨credential, hcredential, rfl⟩, rfl⟩, rfl⟩, ?_⟩
    rw [List.append_assoc]
  have hnone {a : Pattern Char} (ha : ∀ before t, a.found before (name ++ t) = []) :
      ∀ x, Marked (name ++ c :: blanks) x → ∀ before, a.found before ([] ++ (x ++ s)) = [] := by
    rintro x ⟨credential, -, rfl⟩ before
    rw [List.nil_append, List.append_assoc, List.append_assoc]
    exact ha before _
  apply Pattern.through_alt_right (hnone fun before t => hhub before t _)
  apply Pattern.through_alt_right (hnone fun before t => hbearer before t _)
  exact hwhole

/-- Each marker begins a match that takes the credential. -/
theorem through_marker (marker : Marker) (s : Str) :
    Pattern.Through secretValue [] (Marked marker.text) s := by
  cases marker with
  | bearer =>
    have hcredential : Pattern.Through (Pattern.many1 tokenChar) [] IsCredential s := by
      apply Pattern.through_run Pattern.isRun_many1
      intro c hc
      exact ⟨le_trans (by omega) hc.1, fun d hd => hub_token (alnum_hub (hc.2 d hd))⟩
    have hspaced : Pattern.Through (.seq (Pattern.many1 isSpace) (Pattern.many1 tokenChar)) []
        (fun y => ∃ x, IsCredential x ∧ y = [' '] ++ x) s := by
      refine Pattern.through_seq ?_ hcredential
      intro c hc before
      obtain ⟨d, ds, rfl, hd⟩ := hc.exists_cons
      rw [List.cons_append, Pattern.head_many1 (by decide)]
      simp [hd]
    have hword : Pattern.Through (.seq (ignoreCase "bearer")
        (.seq (Pattern.many1 isSpace) (Pattern.many1 tokenChar))) []
        (Marked Marker.bearer.text) s := by
      refine (Pattern.through_seq (w := "Bearer".toList)
        (fun x hx before => head_word (by decide) before _) hspaced).mono ?_
      rintro x ⟨c, hc, rfl⟩
      exact ⟨[' '] ++ c, ⟨c, hc, rfl⟩, rfl⟩
    apply Pattern.through_alt_right
    · rintro x ⟨c, -, rfl⟩ before
      rw [List.nil_append, List.append_assoc]
      exact found_word_nil (by decide) _ before _
    · exact Pattern.through_alt_left hword
  | password =>
    refine through_named "password".toList [] s (by decide) (by simp) ?_ ?_ ?_
    · intro before t
      have hapi : (joined "api" "key").found before ("password".toList ++ t) = [] :=
        found_word_nil (by decide) _ before t
      have htoken : (ignoreCase "token").found before ("password".toList ++ t) = [] :=
        Pattern.found_symbols_of_differs (by decide)
      have hsecret : (ignoreCase "secret").found before ("password".toList ++ t) = [] :=
        Pattern.found_symbols_of_differs (by decide)
      rw [secretName, Pattern.found_alt, Pattern.found_alt, Pattern.found_alt, hapi, htoken,
        hsecret, List.nil_append, List.nil_append, List.nil_append]
      exact head_word (by decide) before t
    · exact fun before t a => found_word_nil (by decide) a before t
    · exact fun before t a => found_word_nil (by decide) a before t
  | token =>
    have hblank : ∀ c ∈ [' '], isSpace c = true := by
      intro c hc
      rw [List.mem_singleton.mp hc]
      decide
    refine through_named "token".toList [' '] s (by decide) hblank ?_ ?_ ?_
    · intro before t
      have hapi : (joined "api" "key").found before ("token".toList ++ t) = [] :=
        found_word_nil (by decide) _ before t
      rw [secretName, Pattern.found_alt, hapi, List.nil_append]
      exact Pattern.head_alt_left (head_word (by decide) before t)
    · exact fun before t a => found_word_nil (by decide) a before t
    · exact fun before t a => found_word_nil (by decide) a before t
  | hub =>
    have hcredential : Pattern.Through (.seq (Pattern.symbols (List.replicate 8 hubChar))
        (.many hubChar)) [] IsCredential s := by
      apply Pattern.through_run (Pattern.isRun_atLeast 8)
      exact fun c hc => ⟨hc.1, fun d hd => alnum_hub (hc.2 d hd)⟩
    apply Pattern.through_alt_left
    refine (Pattern.through_seq (w := "hf_".toList)
      (fun x hx before => head_word (by decide) before _) hcredential).mono ?_
    rintro x ⟨c, hc, rfl⟩
    exact ⟨c, hc, rfl⟩

/-! ### Markers that end in a blank -/

/-- **In front of the word of a marker, what stands behind the blank makes no difference.** -/
theorem secretValue_local {k w : Str} {n : Char}
    (hwords : ∀ name ∈ firstWords, ∀ i < (name.toList.map letter).length, 0 < i →
      Pattern.differs ((name.toList.map letter).drop i) (k ++ [n]) = true ∨
        ((name.toList.map letter).drop i).length ≤ k.length)
    (hspace : isSpace n = false) (hsign : sign n = false)
    (hjoined : (joined "api" "key").avoids n = true) {u : Str} (hu : u ≠ []) (x : Str) :
    Pattern.Local secretValue (u ++ (k ++ n :: w)) (' ' :: x) := by
  have hrest {name : String} (hname : name ∈ firstWords) (before : Option Char)
      {m : Match Char} (hm : m ∈ (ignoreCase name).found before (u ++ (k ++ n :: w))) :
      ∃ v, m.rest = v ++ n :: w := Pattern.rest_of_symbols (hwords name hname) hu hm
  have hspaces : (Pattern.many isSpace).avoids n = true := by simp [Pattern.avoids, hspace]
  have hinside {a : Pattern Char} (ha : a.avoids n = true) {t : Str}
      (ht : ∃ v, t = v ++ n :: w) : Pattern.Local a t (' ' :: x) := by
    obtain ⟨v, rfl⟩ := ht
    exact Pattern.local_inside ha
  have hkeeps {a : Pattern Char} (ha : a.avoids n = true) {t : Str}
      (ht : ∃ v, t = v ++ n :: w) (before : Option Char) {m : Match Char}
      (hm : m ∈ a.found before t) : ∃ v, m.rest = v ++ n :: w := by
    obtain ⟨v, rfl⟩ := ht
    exact Pattern.rest_of_avoids ha hm
  apply Pattern.local_alt
  · exact Pattern.local_of_avoids (by decide)
  apply Pattern.local_alt
  · apply Pattern.local_seq (Pattern.local_of_avoids (by decide))
    intro before m hm
    apply Pattern.local_seq (hinside (by simp [Pattern.many1, Pattern.avoids, hspace])
      (hrest (by decide) before hm))
    exact fun _ _ _ => Pattern.local_of_avoids (by decide)
  · apply Pattern.local_seq (Pattern.local_of_avoids (by decide))
    intro before m hm
    have hname : ∃ v, m.rest = v ++ n :: w := by
      rcases Pattern.mem_alt.mp hm with hm | hm
      · refine hkeeps hjoined ⟨u ++ k, ?_⟩ before hm
        rw [List.append_assoc]
      · rcases Pattern.mem_alt.mp hm with hm | hm
        · exact hrest (by decide) before hm
        · rcases Pattern.mem_alt.mp hm with hm | hm
          · exact hrest (by decide) before hm
          · exact hrest (by decide) before hm
    apply Pattern.local_seq (hinside hspaces hname)
    intro before m hm
    have hsigned := hkeeps hspaces hname before hm
    have havoids : (Pattern.symbol sign).avoids n = true := by simp [Pattern.avoids, hsign]
    apply Pattern.local_seq (hinside havoids hsigned)
    intro before m hm
    apply Pattern.local_seq (hinside hspaces (hkeeps havoids hsigned before hm))
    exact fun _ _ _ => Pattern.local_of_avoids (by decide)

/-- The word of a marker that ends in a blank. -/
def Marker.word : Marker → Option Str
  | .bearer => some "Bearer".toList
  | .token => some "token:".toList
  | .password | .hub => none

theorem Marker.text_of_word {marker : Marker} {word : Str} (h : marker.word = some word) :
    marker.text = word ++ [' '] := by
  cases marker <;> cases h <;> rfl

theorem Marker.shadowed_of_word {marker : Marker} {word : Str} (h : marker.word = some word)
    (start : Str) :
    marker.shadowed start = wordTaken word (DiagnosticsPrivacy.visible start) := by
  cases marker <;> cases h <;> rfl

theorem word_local {marker : Marker} {word : Str} (h : marker.word = some word) {u : Str}
    (hu : u ≠ []) (x : Str) : Pattern.Local secretValue (u ++ word) (' ' :: x) := by
  cases marker with
  | bearer =>
    obtain rfl : "Bearer".toList = word := Option.some.inj h
    have hsplit : "Bearer".toList = "Beare".toList ++ 'r' :: [] := by decide
    rw [hsplit]
    exact secretValue_local (by decide) (by decide) (by decide) (by decide) hu x
  | token =>
    obtain rfl : "token:".toList = word := Option.some.inj h
    have hsplit : "token:".toList = "toke".toList ++ 'n' :: [':'] := by decide
    rw [hsplit]
    exact secretValue_local (by decide) (by decide) (by decide) (by decide) hu x
  | password => cases h
  | hub => cases h

theorem scan_word {marker : Marker} {word : Str} (h : marker.word = some word) (start x : Str) :
    Pattern.scan secretValue redactedSecret 0 none start (word ++ ' ' :: x) =
      Pattern.scan secretValue redactedSecret 0 none start word := by
  apply Pattern.scan_congr
  intro v before hv hne
  rw [← List.append_assoc]
  exact (word_local h hne x).head_taken before

/-! ### A credential that is shown -/

theorem secretValue_none {v : Str}
    (h : ∀ w ∈ firstWords, Pattern.differs (w.toList.map letter) v = true)
    (before : Option Char) (t : Str) : secretValue.found before (v ++ t) = [] := by
  have hword {w : String} (hw : w ∈ firstWords) (a : Pattern Char) :
      (Pattern.seq (ignoreCase w) a).found before (v ++ t) = [] := found_word_nil (h w hw) a before t
  have hname : secretName.found before (v ++ t) = [] := by
    have hsingle {w : String} (hw : w ∈ firstWords) : (ignoreCase w).found before (v ++ t) = [] :=
      Pattern.found_symbols_of_differs (h w hw)
    rw [secretName, Pattern.found_alt, Pattern.found_alt, Pattern.found_alt, joined,
      hword (by decide), hsingle (by decide), hsingle (by decide), hsingle (by decide)]
    rfl
  rw [secretValue, Pattern.found_alt, Pattern.found_alt, hword (by decide), hword (by decide),
    Pattern.found_seq, hname]
  rfl

/-- A credential of one digit. -/
def digits (d : Char) : Str := List.replicate 8 d

/-- Nothing is a secret in the word of a marker from its second character on. -/
theorem word_none {marker : Marker} {word : Str} (h : marker.word = some word) {d : Char}
    (hd : d = '1' ∨ d = '2') : ∀ v ∈ (word ++ ' ' :: digits d).tail.tails, v ≠ [] →
      ∀ w ∈ firstWords, Pattern.differs (w.toList.map letter) v = true := by
  cases marker with
  | bearer =>
    obtain rfl : "Bearer".toList = word := Option.some.inj h
    rcases hd with rfl | rfl <;> decide
  | token =>
    obtain rfl : "token:".toList = word := Option.some.inj h
    rcases hd with rfl | rfl <;> decide
  | password => cases h
  | hub => cases h

/-- With a match under way at the word, what follows the blank stays. -/
theorem redact_of_taken {marker : Marker} {word start : Str} (h : marker.word = some word)
    (htaken : wordTaken word start = true) : ∃ front, ∀ d, d = '1' ∨ d = '2' →
      Pattern.replaceAll secretValue redactedSecret (start ++ (marker.text ++ digits d)) =
        front ++ ' ' :: digits d := by
  obtain ⟨k, hk⟩ : ∃ k, (Pattern.scan secretValue redactedSecret 0 none start word).2 = k :=
    ⟨_, rfl⟩
  have hpos : 0 < k := by
    rw [wordTaken, decide_eq_true_eq, hk] at htaken
    exact htaken
  have hle : k ≤ word.length := by
    rw [← hk]
    exact Pattern.scan_snd_le (Nat.zero_le _) none
  refine ⟨(Pattern.scan secretValue redactedSecret 0 none start word).1 ++ word.drop k, ?_⟩
  intro d hd
  have htext : marker.text ++ digits d = word ++ ' ' :: digits d := by
    rw [Marker.text_of_word h, List.append_assoc]
    rfl
  have hsplit : word ++ ' ' :: digits d =
      word.take k ++ (word.drop k ++ ' ' :: digits d) := by
    rw [← List.append_assoc, List.take_append_drop]
  have hstays : (Pattern.scan secretValue redactedSecret k (start.getLast?.or none)
      (word ++ ' ' :: digits d) []).1 = word.drop k ++ ' ' :: digits d := by
    have hskip := Pattern.scan_skip (a := secretValue) redactedSecret (word.take k)
      (word.drop k ++ ' ' :: digits d) [] (start.getLast?.or none)
    rw [List.length_take_of_le hle] at hskip
    rw [hsplit, hskip]
    apply Pattern.scan_of_found_nil
    intro v hv hne before
    -- no secret begins behind the first character of the word
    have htail : v <:+ (word ++ ' ' :: digits d).tail := by
      obtain ⟨c, cs, hcs⟩ := List.exists_cons_of_length_pos (Nat.lt_of_lt_of_le hpos hle)
      obtain ⟨j, rfl⟩ := Nat.exists_eq_succ_of_ne_zero hpos.ne'
      subst hcs
      refine hv.trans ⟨cs.take j, ?_⟩
      show cs.take j ++ (cs.drop j ++ _) = cs ++ _
      rw [← List.append_assoc, List.take_append_drop]
    have hnone := secretValue_none (word_none h hd v ((List.mem_tails _ _).mpr htail) hne) before []
    rw [List.append_nil] at hnone
    exact hnone
  rw [htext, Pattern.replaceAll, Pattern.scan_append, List.append_nil, scan_word h, hk, hstays,
    List.append_assoc]

/-- Addresses and home directories end at a blank. -/
theorem redactPersonal_divide (unicode : UnicodeTables) (front : Str) :
    ∃ front', ∀ d, d = '1' ∨ d = '2' →
      redactPersonal unicode (front ++ ' ' :: digits d) = front' ++ ' ' :: digits d := by
  -- an expression that needs a character which is no digit
  have hstays {a : Pattern Char} {s d : Char} (f : List Str → Str) (ha : a.takes (· = s))
      (hs : s ≠ '1' ∧ s ≠ '2') (hd : d = '1' ∨ d = '2') (before : Option Char) :
      Pattern.substituteFrom a f 0 before (digits d) = digits d := by
    apply Pattern.substituteFrom_of_found_nil
    intro v hv _ before
    apply Pattern.found_nil_of_takes ha
    intro c hc
    obtain rfl : c = d := List.eq_of_mem_replicate (hv.subset hc)
    apply decide_eq_false
    rintro rfl
    rcases hd with rfl | rfl
    · exact hs.1 rfl
    · exact hs.2 rfl
  have hemail : (email unicode).takes (· = '@') := .inr (.inr (.inl fun c hc => hc))
  have hwindows : windowsUser.takes (· = ':') := .inl (.inr (.inl fun c hc => hc))
  have hposix : posixHome.takes (· = '/') := .inr (.inl fun c hc => hc)
  obtain ⟨front₁, h₁⟩ := Pattern.substituteFrom_divide (a := email unicode) (s := ' ')
    (f := fun _ => redactedEmail) rfl front (Nat.zero_le _) none
  obtain ⟨front₂, h₂⟩ := Pattern.substituteFrom_divide (a := windowsUser) (s := ' ')
    (f := redactedUser) (by decide) front₁ (Nat.zero_le _) none
  obtain ⟨front₃, h₃⟩ := Pattern.substituteFrom_divide (a := posixHome) (s := ' ')
    (f := fun _ => redactedHome) (by decide) front₂ (Nat.zero_le _) none
  refine ⟨front₃, fun d hd => ?_⟩
  show Pattern.replaceAll posixHome redactedHome
    (Pattern.substituteFrom windowsUser redactedUser 0 none
      (Pattern.replaceAll (email unicode) redactedEmail (front ++ ' ' :: digits d))) = _
  rw [Pattern.replaceAll, Pattern.replaceAll, Pattern.scan_eq_substituteFrom,
    Pattern.scan_eq_substituteFrom, h₁, hstays _ hemail (by decide) hd, h₂,
    hstays _ hwindows (by decide) hd, h₃, hstays _ hposix (by decide) hd]

theorem isCredential_digits {d : Char} (hd : d = '1' ∨ d = '2') : IsCredential (digits d) := by
  refine ⟨le_rfl, fun c hc => ?_⟩
  rw [List.eq_of_mem_replicate hc]
  rcases hd with rfl | rfl <;> decide

/-! ### The sanitized text -/

/-- In front of a marker without a match under way, nothing shows the credential. -/
theorem replaceAll_hides {start : Str} {marker : Marker} (h : marker.shadowed start = false)
    (rest : Str) : ∃ out, ∀ x, Marked marker.text x →
      Pattern.replaceAll secretValue redactedSecret
        (DiagnosticsPrivacy.visible start ++ (x ++ rest)) = out := by
  have hthrough := through_marker marker rest
  rcases hword : marker.word with - | word
  · -- every match under way goes on through the credential
    apply Pattern.replaceAll_settled secretValue_blind (fun x hx => hx.ne_nil) ?_ hthrough
    intro v _ hne
    cases marker with
    | bearer => cases hword
    | token => cases hword
    | password =>
      have hword : Marker.password.text = 'p' :: "assword=".toList := by decide
      have hhub : Marker.password.text.all hubChar = true := by decide
      exact settled_marked hword (List.all_eq_true.mp hhub) (by decide) (by decide) (by decide)
        (by decide) (by decide) hne rest
    | hub =>
      have hword : Marker.hub.text = 'h' :: "f_".toList := by decide
      have hhub : Marker.hub.text.all hubChar = true := by decide
      exact settled_marked hword (List.all_eq_true.mp hhub) (by decide) (by decide) (by decide)
        (by decide) (by decide) hne rest
  · rw [Marker.shadowed_of_word hword, wordTaken, decide_eq_false_iff_not] at h
    obtain ⟨out, hout⟩ := Pattern.scan_through redactedSecret secretValue_blind
      (fun x hx => hx.ne_nil) hthrough
    refine ⟨(Pattern.scan secretValue redactedSecret 0 none (DiagnosticsPrivacy.visible start)
      word).1 ++ out, fun x hx => ?_⟩
    have hscan : Pattern.scan secretValue redactedSecret 0 none (DiagnosticsPrivacy.visible start)
        (x ++ rest) = Pattern.scan secretValue redactedSecret 0 none
          (DiagnosticsPrivacy.visible start) word := by
      obtain ⟨c, -, rfl⟩ := hx
      rw [Marker.text_of_word hword, List.append_assoc, List.append_assoc]
      exact scan_word hword _ _
    rw [Pattern.replaceAll, Pattern.scan_append, List.append_nil, hscan, Nat.eq_zero_of_not_pos h,
      hout x hx]

/-- **The text depends on the credential exactly if a match that begins before the marker takes
the word of a marker that ends in a blank.** -/
theorem sanitizeText_hides_iff (unicode : UnicodeTables) (start : Str) (marker : Marker) :
    Hides unicode start marker ↔ marker.shadowed start = false := by
  constructor
  · intro h
    by_contra hshadowed
    have hone : '1' = '1' ∨ '1' = '2' := .inl rfl
    have htwo : '2' = '1' ∨ '2' = '2' := .inr rfl
    rcases hword : marker.word with - | word
    · cases marker <;> first | exact hshadowed rfl | cases hword
    · rw [Marker.shadowed_of_word hword, Bool.not_eq_false] at hshadowed
      obtain ⟨front, hfront⟩ := redact_of_taken hword hshadowed
      obtain ⟨front', hfront'⟩ := redactPersonal_divide unicode front
      -- a limit beyond the text shows all of it
      have hshown {d : Char} (hd : d = '1' ∨ d = '2') :
          sanitizeText unicode (front'.length + 9) (start ++ (marker.text ++ (digits d ++ []))) =
            front' ++ ' ' :: digits d := by
        rw [sanitizeText, visible_marked _ _ _ (isCredential_digits hd)]
        show (redactPersonal unicode (Pattern.replaceAll secretValue redactedSecret
          (_ ++ (marker.text ++ (digits d ++ []))))).take _ = _
        rw [List.append_nil, hfront d hd, hfront' d hd]
        apply List.take_of_length_le
        simp [digits]
      have hequal := h [] _ _ (front'.length + 9) (.inl rfl) (isCredential_digits hone)
        (isCredential_digits htwo)
      rw [hshown hone, hshown htwo] at hequal
      have hlast := List.append_cancel_left hequal
      revert hlast
      decide
  · intro h rest c d limit _ hc hd
    obtain ⟨out, hout⟩ := replaceAll_hides h (DiagnosticsPrivacy.visible rest)
    have hsame {c : Str} (hc : IsCredential c) :
        sanitizeText unicode limit (start ++ (marker.text ++ (c ++ rest))) =
          (redactPersonal unicode out).take limit := by
      rw [sanitizeText, visible_marked _ _ _ hc, ← List.append_assoc marker.text,
        hout _ ⟨c, hc, rfl⟩]
    rw [hsame hc, hsame hd]

end InferBridge.DiagnosticsPrivacy
