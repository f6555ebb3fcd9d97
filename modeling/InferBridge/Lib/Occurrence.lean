/-
InferBridge/Lib/Occurrence.lean

Occurrences of patterns in a text, over an arbitrary alphabet.

`find p t` is the executable search: the first index of `t` at which `p`
occurs, as `str.find` of a scripting language computes it (the empty
pattern occurs at index `0` of every text).  `OccursAt p t i` is the
relation it decides, and `Hit ps t i` says that some pattern of a list
occurs at `i`.

An incremental scanner sees a text piece by piece, so the lemmas below are
about how occurrences move when a text grows at its end or at its front:

* `occursAt_append`, `occursAt_of_append` -- growing at the end adds only
  occurrences that reach into the new part;
* `occursAt_append_left` -- growing at the front shifts the index.
-/
import Mathlib

namespace Occurrence

variable {α : Type*}

/-! ### Occurrences of one pattern -/

/-- `OccursAt p t i`: the pattern `p` stands in `t` at index `i`. -/
def OccursAt (p t : List α) (i : Nat) : Prop :=
  i ≤ t.length ∧ p <+: t.drop i

theorem OccursAt.end_le {p t : List α} {i : Nat} (h : OccursAt p t i) :
    i + p.length ≤ t.length := by
  have hlen := h.2.length_le
  have hi := h.1
  rw [List.length_drop] at hlen
  omega

theorem occursAt_zero {p t : List α} : OccursAt p t 0 ↔ p <+: t := by
  simp [OccursAt]

theorem occursAt_nil {p : List α} {i : Nat} : OccursAt p [] i ↔ p = [] ∧ i = 0 := by
  constructor
  · intro h
    have hend := h.end_le
    simp only [List.length_nil, Nat.le_zero, Nat.add_eq_zero_iff, List.length_eq_zero_iff] at hend
    exact ⟨hend.2, hend.1⟩
  · rintro ⟨rfl, rfl⟩
    simp [OccursAt]

theorem occursAt_cons_succ {p t : List α} {a : α} {i : Nat} :
    OccursAt p (a :: t) (i + 1) ↔ OccursAt p t i := by
  simp [OccursAt]

/-- An occurrence stays where it is when the text grows at its end. -/
theorem occursAt_append {p t : List α} {i : Nat} (u : List α) (h : OccursAt p t i) :
    OccursAt p (t ++ u) i := by
  refine ⟨by simpa using Nat.le_add_right_of_le h.1, ?_⟩
  rw [List.drop_append_of_le_length h.1]
  exact h.2.trans (List.prefix_append _ _)

/-- An occurrence that ends inside the old part was there before the text grew. -/
theorem occursAt_of_append {p t u : List α} {i : Nat} (h : OccursAt p (t ++ u) i)
    (hend : i + p.length ≤ t.length) : OccursAt p t i := by
  have hi : i ≤ t.length := by omega
  refine ⟨hi, ?_⟩
  have hpre := h.2
  rw [List.drop_append_of_le_length hi] at hpre
  refine List.prefix_of_prefix_length_le hpre (List.prefix_append _ _) ?_
  rw [List.length_drop]
  omega

/-- Growing at the front shifts an occurrence by the length of what was added. -/
theorem occursAt_append_left {p u t : List α} {i : Nat} :
    OccursAt p (u ++ t) (u.length + i) ↔ OccursAt p t i := by
  simp only [OccursAt, List.length_append, List.drop_length_add_append, Nat.add_le_add_iff_left]

/-! ### The search -/

section Search

variable [DecidableEq α]

/-- The first index at which `p` occurs, if any. -/
def find (p : List α) : List α → Option Nat
  | [] => if p = [] then some 0 else none
  | a :: t => if p <+: a :: t then some 0 else (find p t).map (· + 1)

theorem find_eq_none {p t : List α} (h : find p t = none) (i : Nat) : ¬ OccursAt p t i := by
  induction t generalizing i with
  | nil =>
    intro hocc
    obtain ⟨rfl, rfl⟩ := occursAt_nil.mp hocc
    simp [find] at h
  | cons a t ih =>
    by_cases hp : p <+: a :: t
    · simp [find, hp] at h
    · simp only [find, hp, if_false, Option.map_eq_none_iff] at h
      cases i with
      | zero => rwa [occursAt_zero]
      | succ i => rw [occursAt_cons_succ]; exact ih h i

/-- `find` returns an occurrence, and no earlier one exists. -/
theorem find_eq_some {p t : List α} {i : Nat} (h : find p t = some i) :
    OccursAt p t i ∧ ∀ j < i, ¬ OccursAt p t j := by
  induction t generalizing i with
  | nil =>
    by_cases hp : p = []
    · simp only [find, hp, if_true, Option.some.injEq] at h
      subst h
      exact ⟨occursAt_nil.mpr ⟨hp, rfl⟩, by simp⟩
    · simp [find, hp] at h
  | cons a t ih =>
    by_cases hp : p <+: a :: t
    · simp only [find, hp, if_true, Option.some.injEq] at h
      subst h
      exact ⟨occursAt_zero.mpr hp, by simp⟩
    · simp only [find, hp, if_false, Option.map_eq_some_iff] at h
      obtain ⟨k, hk, rfl⟩ := h
      obtain ⟨hocc, hfirst⟩ := ih hk
      refine ⟨occursAt_cons_succ.mpr hocc, ?_⟩
      intro j hj
      cases j with
      | zero => rwa [occursAt_zero]
      | succ j => rw [occursAt_cons_succ]; exact hfirst j (by omega)

end Search

/-! ### Occurrences of a list of patterns -/

/-- `Hit ps t i`: some pattern of `ps` occurs in `t` at `i`. -/
def Hit (ps : List (List α)) (t : List α) (i : Nat) : Prop :=
  ∃ p ∈ ps, OccursAt p t i

/-- `FirstHit ps t i`: `i` is the least index at which a pattern of `ps` occurs. -/
structure FirstHit (ps : List (List α)) (t : List α) (i : Nat) : Prop where
  hit : Hit ps t i
  least : ∀ j < i, ¬ Hit ps t j

/-- No pattern of `ps` occurs in `t`. -/
def Quiet (ps : List (List α)) (t : List α) : Prop :=
  ∀ i, ¬ Hit ps t i

theorem Hit.le_length {ps : List (List α)} {t : List α} {i : Nat} (h : Hit ps t i) :
    i ≤ t.length := by
  obtain ⟨p, -, hocc⟩ := h
  exact hocc.1

theorem hit_append {ps : List (List α)} {t : List α} {i : Nat} (u : List α) (h : Hit ps t i) :
    Hit ps (t ++ u) i := by
  obtain ⟨p, hp, hocc⟩ := h
  exact ⟨p, hp, occursAt_append u hocc⟩

theorem hit_append_left {ps : List (List α)} {u t : List α} {i : Nat} :
    Hit ps (u ++ t) (u.length + i) ↔ Hit ps t i := by
  simp only [Hit, occursAt_append_left]

/-- A text with a hit has a first one. -/
theorem Hit.exists_first {ps : List (List α)} {t : List α} {i : Nat} (h : Hit ps t i) :
    ∃ j ≤ i, FirstHit ps t j := by
  classical
  have hex : ∃ j, Hit ps t j := ⟨i, h⟩
  exact ⟨Nat.find hex, Nat.find_min' hex h, Nat.find_spec hex, fun j hj => Nat.find_min hex hj⟩

theorem FirstHit.unique {ps : List (List α)} {t : List α} {i j : Nat}
    (hi : FirstHit ps t i) (hj : FirstHit ps t j) : i = j := by
  rcases Nat.lt_trichotomy i j with hlt | heq | hgt
  · exact absurd hi.hit (hj.least i hlt)
  · exact heq
  · exact absurd hj.hit (hi.least j hgt)

/-- The hits of the rest of a text are the later hits of the text. -/
theorem hit_drop {ps : List (List α)} {t : List α} {i j : Nat} (hj : j ≤ t.length) :
    Hit ps (t.drop j) i ↔ Hit ps t (j + i) := by
  have hsplit : Hit ps (t.take j ++ t.drop j) ((t.take j).length + i) ↔ Hit ps (t.drop j) i :=
    hit_append_left
  rw [List.take_append_drop, List.length_take, Nat.min_eq_left hj] at hsplit
  exact hsplit.symm

/-- Dropping what lies before the first hit keeps it the first. -/
theorem FirstHit.drop {ps : List (List α)} {t : List α} {i j : Nat} (h : FirstHit ps t i)
    (hji : j ≤ i) : FirstHit ps (t.drop j) (i - j) := by
  have hj : j ≤ t.length := hji.trans h.hit.le_length
  refine ⟨(hit_drop hj).mpr ?_, ?_⟩
  · rw [Nat.add_sub_cancel' hji]
    exact h.hit
  · intro l hl hit
    exact h.least (j + l) (by omega) ((hit_drop hj).mp hit)

/-- In a quiet text that grows at its end, a hit starts late enough for its pattern to
reach into the new part: it cannot start before the last `n` old symbols when no pattern
is longer than `n + 1`. -/
theorem Quiet.hit_append_ge {ps : List (List α)} {t u : List α} {i n : Nat} (hq : Quiet ps t)
    (hmax : ∀ p ∈ ps, p.length ≤ n + 1) (h : Hit ps (t ++ u) i) : t.length ≤ i + n := by
  obtain ⟨p, hp, hocc⟩ := h
  have hlen := hmax p hp
  by_contra hlt
  exact hq i ⟨p, hp, occursAt_of_append hocc (by omega)⟩

end Occurrence
