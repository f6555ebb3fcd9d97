/-
InferBridge/Lib/Fields.lean

Lists that are written one after the other, so that they can be told apart again.

Design.  Two ways to write a list of things without losing where one ends.  A list of words is
written with a separator before each word that no word contains (`delimited`).  A list of records
is written code by code, where each code shows its own end (`SelfDelimiting`).

Main results.  Both are injective: `delimited_injective`, `SelfDelimiting.flatMap_injective`.
-/
import Mathlib

namespace Fields

variable {α β ρ : Type*}

/-! ### Words behind separators -/

/-- Each word with the separator before it. -/
def delimited (sep : α) (words : List (List α)) : List α := words.flatMap (sep :: ·)

theorem delimited_cons (sep : α) (word : List α) (words : List (List α)) :
    delimited sep (word :: words) = sep :: (word ++ delimited sep words) := rfl

theorem delimited_append (sep : α) (words words' : List (List α)) :
    delimited sep (words ++ words') = delimited sep words ++ delimited sep words' :=
  List.flatMap_append

/-- What follows a word is nothing, or begins with the separator. -/
theorem delimited_head {sep c : α} {words : List (List α)}
    (h : c ∈ (delimited sep words).head?) : c = sep := by
  cases words with
  | nil => cases h
  | cons word words => exact (Option.mem_some_iff.mp h).symm

/-- The word before the first separator. -/
theorem word_eq {sep : α} {word word' rest rest' : List α} (hword : sep ∉ word)
    (hword' : sep ∉ word') (hrest : ∀ c ∈ rest.head?, c = sep) (hrest' : ∀ c ∈ rest'.head?, c = sep)
    (h : word ++ rest = word' ++ rest') : word = word' ∧ rest = rest' := by
  induction word generalizing word' with
  | nil =>
    cases word' with
    | nil => exact ⟨rfl, h⟩
    | cons c word' =>
      have hc : c ∈ rest.head? := by
        rw [List.nil_append] at h
        rw [h]
        rfl
      exact absurd (hrest c hc ▸ List.mem_cons_self) hword'
  | cons c word ih =>
    cases word' with
    | nil =>
      have hc : c ∈ rest'.head? := by
        rw [List.nil_append] at h
        rw [← h]
        rfl
      exact absurd (hrest' c hc ▸ List.mem_cons_self) hword
    | cons c' word' =>
      obtain ⟨rfl, htail⟩ := List.cons.inj h
      obtain ⟨rfl, hrests⟩ := ih (fun hc => hword (List.mem_cons_of_mem _ hc))
        (fun hc => hword' (List.mem_cons_of_mem _ hc)) htail
      exact ⟨rfl, hrests⟩

/-- **Words without the separator are found again.** -/
theorem delimited_injective {sep : α} {words words' : List (List α)}
    (hwords : ∀ word ∈ words, sep ∉ word) (hwords' : ∀ word ∈ words', sep ∉ word)
    (h : delimited sep words = delimited sep words') : words = words' := by
  induction words generalizing words' with
  | nil =>
    cases words' with
    | nil => rfl
    | cons word words' => cases h
  | cons word words ih =>
    cases words' with
    | nil => cases h
    | cons word' words' =>
      rw [delimited_cons, delimited_cons] at h
      obtain ⟨rfl, hrest⟩ := word_eq (hwords _ List.mem_cons_self) (hwords' _ List.mem_cons_self)
        (fun _ => delimited_head) (fun _ => delimited_head) (List.cons.inj h).2
      rw [ih (fun w hw => hwords w (List.mem_cons_of_mem _ hw))
        (fun w hw => hwords' w (List.mem_cons_of_mem _ hw)) hrest]

/-! ### Records behind one another -/

/-- A code shows its own end: whatever follows, the record is the same. -/
structure SelfDelimiting (code : ρ → List β) : Prop where
  nonempty : ∀ r, code r ≠ []
  ends : ∀ {r r' : ρ} {rest rest' : List β}, code r ++ rest = code r' ++ rest' →
    r = r' ∧ rest = rest'

/-- **Records with such codes are found again.** -/
theorem SelfDelimiting.flatMap_injective {code : ρ → List β} (h : SelfDelimiting code)
    {records records' : List ρ} (heq : records.flatMap code = records'.flatMap code) :
    records = records' := by
  induction records generalizing records' with
  | nil =>
    cases records' with
    | nil => rfl
    | cons r records' =>
      rw [List.flatMap_nil, List.flatMap_cons] at heq
      exact absurd (List.append_eq_nil_iff.mp heq.symm).1 (h.nonempty r)
  | cons r records ih =>
    cases records' with
    | nil =>
      rw [List.flatMap_nil, List.flatMap_cons] at heq
      exact absurd (List.append_eq_nil_iff.mp heq).1 (h.nonempty r)
    | cons r' records' =>
      rw [List.flatMap_cons, List.flatMap_cons] at heq
      obtain ⟨rfl, hrest⟩ := h.ends heq
      rw [ih hrest]

end Fields
