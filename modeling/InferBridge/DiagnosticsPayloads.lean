/-
InferBridge/DiagnosticsPayloads.lean

Secrets in the nested payloads of a diagnostics archive
(app/diagnostics_privacy.py).

A mapping is copied item by item.  The sanitizer cleans and cuts a key
before it asks whether the key names a secret, and the copy is indexed by
the cleaned key.  A key whose secret word is cut off or rewritten is an
ordinary key, so that its value is copied (`Guarded` excludes this), unless
a later key is cleaned to the same text and writes over it.

Main result: `sanitizers_hide_iff`, for payloads and for texts.
-/
import InferBridge.DiagnosticsPrivacy
import InferBridge.Lib.Dict

namespace InferBridge.DiagnosticsPrivacy

open Text

/-! ### Payloads -/

/-- A value that is passed on as it is; a float is given by its text. -/
inductive Scalar where
  | none
  | bool (value : Bool)
  | int (value : Int)
  | float (text : Str)
deriving DecidableEq, Repr

/-- A payload.  `list` stands for lists, tuples and sets, `other` for any other object with the
text `str(value or "")`; a mapping is the list of its items, each key as `str(key or "")`. -/
inductive Payload where
  | scalar (value : Scalar)
  | text (text : Str)
  | path (text : Str)
  | other (text : Str)
  | list (items : List Payload)
  | mapping (items : List (Str × Payload))

/-- `NON_SECRET_OPERATIONAL_KEYS` -/
def nonSecretOperationalKeys : List Str := ["api_key_configured".toList]

/-- `SECRET_KEY_RE.search(key) and key not in NON_SECRET_OPERATIONAL_KEYS` -/
def namesSecret (key : Str) : Bool :=
  (secretKey.search none key).isSome && !nonSecretOperationalKeys.contains key

section
variable (unicode : UnicodeTables)

def safeKey (key : Str) : Str := sanitizeText unicode 120 key

/-- `redact_path` -/
def redactPath (text : Str) : Str := sanitizeText unicode 2048 text

mutual

/-- `sanitize_value` -/
def sanitizeValue : Payload → Payload
  | .mapping items => .mapping (sanitizeItems Dict.empty items).items
  | .list items => .list (sanitizeList 500 items)
  | .path text => .text (redactPath unicode text)
  | .text text => .text (sanitizeText unicode textLimit text)
  | .scalar value => .scalar value
  | .other text => .text (sanitizeText unicode textLimit text)

/-- The loop over the items of a mapping. -/
def sanitizeItems (result : Dict Str Payload) : List (Str × Payload) → Dict Str Payload
  | [] => result
  | (key, item) :: rest =>
    if namesSecret (safeKey unicode key) then
      sanitizeItems (result.set (safeKey unicode key) (.text redactedSecret)) rest
    else
      sanitizeItems (result.set (safeKey unicode key) (sanitizeValue item)) rest

/-- The first `n` items of a list. -/
def sanitizeList : Nat → List Payload → List Payload
  | n + 1, item :: rest => sanitizeValue item :: sanitizeList n rest
  | _, _ => []

end

/-! ### Payloads that differ in secrets -/

mutual

/-- The payloads differ only in values below keys that name a secret. -/
inductive Alike : Payload → Payload → Prop
  | same (v : Payload) : Alike v v
  | list {xs ys : List Payload} : AlikeList xs ys → Alike (.list xs) (.list ys)
  | mapping {es fs : List (Str × Payload)} : AlikeItems es fs → Alike (.mapping es) (.mapping fs)

inductive AlikeList : List Payload → List Payload → Prop
  | nil : AlikeList [] []
  | cons {x y : Payload} {xs ys : List Payload} :
    Alike x y → AlikeList xs ys → AlikeList (x :: xs) (y :: ys)

inductive AlikeItems : List (Str × Payload) → List (Str × Payload) → Prop
  | nil : AlikeItems [] []
  | secret {key : Str} (v w : Payload) {es fs : List (Str × Payload)} :
    namesSecret key = true → AlikeItems es fs → AlikeItems ((key, v) :: es) ((key, w) :: fs)
  | cons {key : Str} {v w : Payload} {es fs : List (Str × Payload)} :
    Alike v w → AlikeItems es fs → AlikeItems ((key, v) :: es) ((key, w) :: fs)

end

mutual

/-- No value that is copied stands below a key that names a secret. -/
def Guarded : Payload → Prop
  | .mapping items => GuardedItems items
  | .list items => GuardedList 500 items
  | _ => True

/-- A key is written over by a later one, or names a secret when it is cleaned, or names none. -/
def GuardedItems : List (Str × Payload) → Prop
  | [] => True
  | (key, item) :: rest =>
    (safeKey unicode key ∈ rest.map (fun e => safeKey unicode e.1) ∨
      namesSecret (safeKey unicode key) = true ∨ (namesSecret key = false ∧ Guarded item)) ∧
    GuardedItems rest

def GuardedList : Nat → List Payload → Prop
  | n + 1, item :: rest => Guarded item ∧ GuardedList n rest
  | _, _ => True

end

theorem alikeItems_refl (es : List (Str × Payload)) : AlikeItems es es := by
  induction es with
  | nil => exact .nil
  | cons e es ih => exact .cons (.same e.2) ih

theorem alikeList_refl (xs : List Payload) : AlikeList xs xs := by
  induction xs with
  | nil => exact .nil
  | cons x xs ih => exact .cons (.same x) ih

/-! ### The items of a mapping -/

/-- What is stored under the cleaned key. -/
def copied (key : Str) (item : Payload) : Payload :=
  if namesSecret (safeKey unicode key) then .text redactedSecret else sanitizeValue unicode item

def safeKeys (items : List (Str × Payload)) : List Str := items.map fun e => safeKey unicode e.1

theorem sanitizeItems_cons (result : Dict Str Payload) (key : Str) (item : Payload)
    (rest : List (Str × Payload)) : sanitizeItems unicode result ((key, item) :: rest) =
      sanitizeItems unicode (result.set (safeKey unicode key) (copied unicode key item)) rest := by
  rw [sanitizeItems, copied]
  split <;> rfl

/-- A key that no item is cleaned to keeps its value. -/
theorem get?_sanitizeItems {k : Str} {items : List (Str × Payload)}
    (hk : k ∉ safeKeys unicode items) (result : Dict Str Payload) :
    (sanitizeItems unicode result items).get? k = result.get? k := by
  induction items generalizing result with
  | nil => rw [sanitizeItems]
  | cons e rest ih =>
    obtain ⟨key, item⟩ := e
    have hne : k ≠ safeKey unicode key := fun hsame => hk (List.mem_cons.mpr (.inl hsame))
    have hrest : k ∉ safeKeys unicode rest := fun hmem => hk (List.mem_cons_of_mem _ hmem)
    rw [sanitizeItems_cons, ih hrest, Dict.get?_set_of_ne _ _ hne]

/-! ### Guarded payloads -/

variable {unicode}

/-- Two results with the same keys that agree on what no later item writes over, one item on. -/
theorem agree_set {key : Str} {a b : Payload} {rest : List (Str × Payload)}
    {result result' : Dict Str Payload} {v : Payload}
    (hkeys : result.items.map Prod.fst = result'.items.map Prod.fst)
    (hsame : ∀ k, k ∉ safeKeys unicode ((key, v) :: rest) → result.get? k = result'.get? k)
    (hcopied : safeKey unicode key ∉ safeKeys unicode rest → a = b) :
    (result.set (safeKey unicode key) a).items.map Prod.fst =
        (result'.set (safeKey unicode key) b).items.map Prod.fst ∧
      ∀ k, k ∉ safeKeys unicode rest → (result.set (safeKey unicode key) a).get? k =
        (result'.set (safeKey unicode key) b).get? k := by
  constructor
  · show (Dict.setItems _ _ result.items).map Prod.fst = (Dict.setItems _ _ result'.items).map Prod.fst
    rw [Dict.keys_setItems, Dict.keys_setItems, hkeys]
  · intro k hk
    rw [Dict.get?_set, Dict.get?_set]
    split
    · next hkey => rw [hcopied (hkey ▸ hk)]
    · next hkey => exact hsame k fun hmem => (List.mem_cons.mp hmem).elim hkey hk

mutual

theorem Guarded.sanitizeValue_congr : ∀ {v w : Payload}, Guarded unicode v → Alike v w →
    sanitizeValue unicode v = sanitizeValue unicode w
  | _, _, _, .same _ => rfl
  | .list _, _, hguarded, .list hitems => by
    rw [sanitizeValue, sanitizeValue, GuardedList.sanitizeList_congr hguarded hitems]
  | .mapping _, _, hguarded, .mapping hitems => by
    rw [sanitizeValue, sanitizeValue,
      GuardedItems.sanitizeItems_congr hguarded hitems rfl fun _ _ => rfl]

theorem GuardedItems.sanitizeItems_congr : ∀ {es fs : List (Str × Payload)}
    {result result' : Dict Str Payload}, GuardedItems unicode es → AlikeItems es fs →
    result.items.map Prod.fst = result'.items.map Prod.fst →
    (∀ k, k ∉ safeKeys unicode es → result.get? k = result'.get? k) →
      sanitizeItems unicode result es = sanitizeItems unicode result' fs
  | [], _, _, _, _, .nil, hkeys, hsame => by
    rw [sanitizeItems, sanitizeItems]
    exact Dict.ext_get? hkeys fun k => hsame k List.not_mem_nil
  | (key, v) :: es, _, _, _, hguarded, .secret _ w hsecret hitems, hkeys, hsame => by
    have hcopied : safeKey unicode key ∉ safeKeys unicode es →
        copied unicode key v = copied unicode key w := by
      intro hlast
      rcases hguarded.1 with hlater | hclean | ⟨hno, -⟩
      · exact absurd hlater hlast
      · rw [copied, copied, if_pos hclean, if_pos hclean]
      · rw [hsecret] at hno
        cases hno
    obtain ⟨hkeys', hsame'⟩ := agree_set hkeys hsame hcopied
    rw [sanitizeItems_cons, sanitizeItems_cons]
    exact GuardedItems.sanitizeItems_congr hguarded.2 hitems hkeys' hsame'
  | (key, v) :: es, (_, w) :: _, _, _, hguarded, .cons hvalue hitems, hkeys, hsame => by
    have hcopied : safeKey unicode key ∉ safeKeys unicode es →
        copied unicode key v = copied unicode key w := by
      intro hlast
      rcases hguarded.1 with hlater | hclean | ⟨-, hguarded⟩
      · exact absurd hlater hlast
      · rw [copied, copied, if_pos hclean, if_pos hclean]
      · rw [copied, copied, Guarded.sanitizeValue_congr hguarded hvalue]
    obtain ⟨hkeys', hsame'⟩ := agree_set hkeys hsame hcopied
    rw [sanitizeItems_cons, sanitizeItems_cons]
    exact GuardedItems.sanitizeItems_congr hguarded.2 hitems hkeys' hsame'

theorem GuardedList.sanitizeList_congr : ∀ {n : Nat} {xs ys : List Payload},
    GuardedList unicode n xs → AlikeList xs ys →
      sanitizeList unicode n xs = sanitizeList unicode n ys
  | _, [], _, _, .nil => rfl
  | 0, _ :: _, _ :: _, _, .cons _ _ => by simp only [sanitizeList]
  | n + 1, _ :: _, _ :: _, hguarded, .cons hvalue hitems => by
    rw [sanitizeList, sanitizeList, Guarded.sanitizeValue_congr hguarded.1 hvalue,
      GuardedList.sanitizeList_congr hguarded.2 hitems]

end

/-! ### Payloads that are not guarded -/

/-- A value that the sanitizer passes on as it is and that differs from `v`. -/
theorem exists_other (unicode : UnicodeTables) (v : Payload) :
    ∃ w, sanitizeValue unicode w ≠ v := by
  by_cases hv : v = .scalar .none
  · refine ⟨.scalar (.bool true), ?_⟩
    rw [sanitizeValue, hv]
    exact fun h => by cases h
  · refine ⟨.scalar .none, ?_⟩
    rw [sanitizeValue]
    exact fun h => hv h.symm

mutual

theorem exists_alike_of_not_guarded : ∀ {v : Payload}, ¬ Guarded unicode v →
    ∃ w, Alike v w ∧ sanitizeValue unicode v ≠ sanitizeValue unicode w
  | .mapping items, h => by
    obtain ⟨fs, k, halike, hdiffer⟩ := exists_alike_of_not_guardedItems h
    refine ⟨.mapping fs, .mapping halike, ?_⟩
    rw [sanitizeValue, sanitizeValue]
    intro hsame
    apply hdiffer Dict.empty
    rw [Dict.ext (Payload.mapping.inj hsame)]
  | .list items, h => by
    obtain ⟨ys, halike, hdiffer⟩ := exists_alike_of_not_guardedList h
    refine ⟨.list ys, .list halike, ?_⟩
    rw [sanitizeValue, sanitizeValue]
    exact fun hsame => hdiffer (Payload.list.inj hsame)
  | .scalar _, h => absurd trivial h
  | .text _, h => absurd trivial h
  | .path _, h => absurd trivial h
  | .other _, h => absurd trivial h

theorem exists_alike_of_not_guardedItems : ∀ {es : List (Str × Payload)},
    ¬ GuardedItems unicode es → ∃ fs k, AlikeItems es fs ∧ ∀ result,
      (sanitizeItems unicode result es).get? k ≠ (sanitizeItems unicode result fs).get? k
  | [], h => absurd trivial h
  | (key, v) :: es, h => by
    by_cases hrest : GuardedItems unicode es
    · -- the value of this item is copied
      have hitem : ¬ (safeKey unicode key ∈ safeKeys unicode es ∨
          namesSecret (safeKey unicode key) = true ∨
            (namesSecret key = false ∧ Guarded unicode v)) := fun hitem => h ⟨hitem, hrest⟩
      obtain ⟨hlast, hothers⟩ := not_or.mp hitem
      obtain ⟨hclean, hboth⟩ := not_or.mp hothers
      have hvalue : namesSecret key = false → ¬ Guarded unicode v := not_and.mp hboth
      obtain ⟨w, halike, hdiffer⟩ : ∃ w, AlikeItems ((key, v) :: es) ((key, w) :: es) ∧
          sanitizeValue unicode v ≠ sanitizeValue unicode w := by
        rcases hsecret : namesSecret key with - | -
        · obtain ⟨w, halike, hdiffer⟩ := exists_alike_of_not_guarded (hvalue hsecret)
          exact ⟨w, .cons halike (alikeItems_refl es), hdiffer⟩
        · obtain ⟨w, hdiffer⟩ := exists_other unicode (sanitizeValue unicode v)
          exact ⟨w, .secret v w hsecret (alikeItems_refl es), hdiffer.symm⟩
      refine ⟨(key, w) :: es, safeKey unicode key, halike, fun result hsame => hdiffer ?_⟩
      rw [sanitizeItems_cons, sanitizeItems_cons, get?_sanitizeItems unicode hlast,
        get?_sanitizeItems unicode hlast, Dict.get?_set_self, Dict.get?_set_self, copied, copied,
        if_neg hclean, if_neg hclean] at hsame
      exact Option.some.inj hsame
    · obtain ⟨fs, k, halike, hdiffer⟩ := exists_alike_of_not_guardedItems hrest
      refine ⟨(key, v) :: fs, k, .cons (.same v) halike, fun result => ?_⟩
      rw [sanitizeItems_cons, sanitizeItems_cons]
      exact hdiffer _

theorem exists_alike_of_not_guardedList : ∀ {n : Nat} {xs : List Payload},
    ¬ GuardedList unicode n xs →
      ∃ ys, AlikeList xs ys ∧ sanitizeList unicode n xs ≠ sanitizeList unicode n ys
  | _, [], h => absurd (by simp only [GuardedList]) h
  | 0, _ :: _, h => absurd (by simp only [GuardedList]) h
  | n + 1, x :: xs, h => by
    by_cases hx : Guarded unicode x
    · have hxs : ¬ GuardedList unicode n xs := fun hxs => h ⟨hx, hxs⟩
      obtain ⟨ys, halike, hdiffer⟩ := exists_alike_of_not_guardedList hxs
      refine ⟨x :: ys, .cons (.same x) halike, ?_⟩
      rw [sanitizeList, sanitizeList]
      exact fun hsame => hdiffer (List.cons.inj hsame).2
    · obtain ⟨y, halike, hdiffer⟩ := exists_alike_of_not_guarded hx
      refine ⟨y :: xs, .cons halike (alikeList_refl xs), ?_⟩
      rw [sanitizeList, sanitizeList]
      exact fun hsame => hdiffer (List.cons.inj hsame).1

end

/-! ### Both sanitizers -/

/-- **The copy of a payload depends on what stands below the keys that name a secret exactly if
it is not guarded, and a text depends on a marked credential exactly if the word of its marker is
shadowed.** -/
theorem sanitizers_hide_iff (unicode : UnicodeTables) :
    (∀ v, (∀ w, Alike v w → sanitizeValue unicode v = sanitizeValue unicode w) ↔
      Guarded unicode v) ∧
    ∀ start marker, Hides unicode start marker ↔ marker.shadowed start = false := by
  refine ⟨fun v => ⟨fun h => ?_, fun h w halike => h.sanitizeValue_congr halike⟩,
    sanitizeText_hides_iff unicode⟩
  by_contra hguarded
  obtain ⟨w, halike, hdiffer⟩ := exists_alike_of_not_guarded hguarded
  exact hdiffer (h w halike)

end

/-- The mapping with one key. -/
def single (key value : String) : Payload := .mapping [(key.toList, .text value.toList)]

/-- A key with a secret word that is rewritten, and a keyword that is taken as the value of a
token. -/
theorem sanitizers_show_secrets :
    ¬ (∀ v w, Alike v w →
      sanitizeValue UnicodeTables.ascii v = sanitizeValue UnicodeTables.ascii w) ∧
    ¬ ∀ start marker, Hides UnicodeTables.ascii start marker := by
  constructor
  · intro h
    have hsame := h (single "a@secret.io" "1") (single "a@secret.io" "2")
      (.mapping (.secret _ _ (by decide) .nil))
    have hone : sanitizeValue UnicodeTables.ascii (single "a@secret.io" "1") =
      single "[redacted-email]" "1" := by rfl
    have htwo : sanitizeValue UnicodeTables.ascii (single "a@secret.io" "2") =
      single "[redacted-email]" "2" := by rfl
    rw [hone, htwo] at hsame
    cases hsame
  · intro h
    have hsame := h "token: ".toList .bearer [] "abcdefgh".toList "12345678".toList 100 (.inl rfl)
      ⟨by decide, List.all_eq_true.mp (by decide)⟩ ⟨by decide, List.all_eq_true.mp (by decide)⟩
    revert hsame
    decide

end InferBridge.DiagnosticsPrivacy
