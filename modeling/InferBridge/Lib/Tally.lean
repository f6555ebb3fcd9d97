/-
InferBridge/Lib/Tally.lean

Counters that count.

`Tally p n` says that exactly `n` things have the property `p`.  A counter
that a program increments and decrements is right as long as each update is
one of the rules below: something new has the property (`Tally.enter`),
something has lost it (`Tally.leave`), or nothing has changed
(`Tally.congr`).
-/
import Mathlib

variable {ι : Type*} {p q : ι → Prop} {n : Nat} {a : ι}

/-- Exactly `n` things have the property. -/
def Tally (p : ι → Prop) (n : Nat) : Prop := {i | p i}.encard = n

namespace Tally

theorem none (h : ∀ i, ¬ p i) : Tally p 0 := by
  have hempty : {i | p i} = ∅ := Set.eq_empty_of_forall_notMem h
  rw [Tally, hempty]
  exact Set.encard_empty

theorem congr (h : Tally p n) (hsame : ∀ i, q i ↔ p i) : Tally q n := by
  have hset : {i | q i} = {i | p i} := by
    ext i
    exact hsame i
  rw [Tally, hset]
  exact h

/-- `a` gets the property. -/
theorem enter (h : Tally p n) (hold : ¬ p a) (hnew : ∀ i, q i ↔ i = a ∨ p i) :
    Tally q (n + 1) := by
  have hset : {i | q i} = insert a {i | p i} := by
    ext i
    exact hnew i
  have hout : a ∉ {i | p i} := hold
  show {i | q i}.encard = _
  rw [hset, Set.encard_insert_of_notMem hout, show {i | p i}.encard = n from h]
  rfl

/-- `a` loses the property. -/
theorem leave (h : Tally p n) (hold : p a) (hnew : ∀ i, q i ↔ p i ∧ i ≠ a) :
    Tally q (n - 1) := by
  have hset : {i | q i} = {i | p i} \ {a} := by
    ext i
    exact hnew i
  have hin : a ∈ {i | p i} := hold
  show {i | q i}.encard = _
  rw [hset, Set.encard_sdiff_singleton_of_mem hin, show {i | p i}.encard = n from h]
  rfl

theorem pos (h : Tally p n) (ha : p a) : 0 < n := by
  apply Nat.pos_of_ne_zero
  rintro rfl
  have hempty : {i | p i} = ∅ := Set.encard_eq_zero.mp h
  have hmem : a ∈ {i | p i} := ha
  rw [hempty] at hmem
  exact Set.notMem_empty a hmem

theorem eq_zero_iff (h : Tally p n) : n = 0 ↔ ∀ i, ¬ p i := by
  constructor
  · rintro rfl i hi
    exact absurd (h.pos hi) (Nat.lt_irrefl 0)
  · intro hnone
    by_contra hne
    have hset : {i | p i}.Nonempty := by
      rw [← Set.encard_ne_zero, h]
      exact_mod_cast hne
    obtain ⟨i, hi⟩ := hset
    exact hnone i hi

end Tally
