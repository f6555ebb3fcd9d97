/-
InferBridge/Lib/Bisection.lean

Bisection for the last index that fits.

`bisect fits low high best` halves the range from `low` to `high`; it keeps
the last index that it found to fit, or `best` where it found none.  If
whatever lies below a fitting index fits too, that is the last fitting index
of the range (`bisect_last`).  Without that, it ends with an index that fits
unless none of `(n + 1) / 2`, `(n + 1) / 4`, … does (`bisect_halves`).

`bisectFor value target low high` looks for an index with a certain value, and
ends there or with the gap where such an index is missing
(`bisectFor_found`, `bisectFor_gap`).
-/
import Mathlib

/-- The bisection loop. -/
def bisect (fits : Int → Bool) (low high best : Int) : Int :=
  if low ≤ high then
    if fits ((low + high) / 2) then bisect fits ((low + high) / 2 + 1) high ((low + high) / 2)
    else bisect fits low ((low + high) / 2 - 1) best
  else best
termination_by (high + 1 - low).toNat
decreasing_by all_goals omega

/-- `k` is the last index up to `n` that fits, or `1` where none does. -/
structure IsLast (fits : Int → Bool) (n k : Int) : Prop where
  pos : 1 ≤ k
  le : k ≤ n
  found : k = 1 ∨ fits k = true
  last : ∀ j, k < j → j ≤ n → fits j = false

variable {fits : Int → Bool} {n : Int}

/-- From a range beyond which nothing fits, and before which the last index is the best so far. -/
theorem bisect_isLast (hdown : ∀ j k, 1 ≤ j → j ≤ k → k ≤ n → fits k = true → fits j = true)
    {low high best : Int} (hn : 1 ≤ n) (hlow : 1 ≤ low) (hrange : low ≤ high + 1) (hhigh : high ≤ n)
    (hbest : (low = 1 ∧ best = 1) ∨ (1 < low ∧ best = low - 1 ∧ fits best = true))
    (hbeyond : ∀ j, high < j → j ≤ n → fits j = false) :
    IsLast fits n (bisect fits low high best) := by
  induction low, high, best using bisect.induct fits with
  | case1 low high best hle hfits ih =>
    rw [bisect, if_pos hle, if_pos hfits]
    apply ih (by omega) (by omega) hhigh _ hbeyond
    exact Or.inr ⟨by omega, by omega, hfits⟩
  | case2 low high best hle hfits ih =>
    rw [bisect, if_pos hle, if_neg hfits]
    apply ih hlow (by omega) (by omega) hbest
    intro j hj hjn
    -- what lies beyond the middle cannot fit, since the middle does not
    by_contra hfit
    exact hfits (hdown _ j (by omega) (by omega) hjn (by simpa using hfit))
  | case3 low high best hgt =>
    rw [bisect, if_neg hgt]
    constructor
    · omega
    · omega
    · rcases hbest with ⟨-, hbest⟩ | ⟨-, -, hfits⟩
      · exact Or.inl hbest
      · exact Or.inr hfits
    · intro j hj hjn
      exact hbeyond j (by omega) hjn

/-- Bisection over the whole range. -/
theorem bisect_last (hdown : ∀ j k, 1 ≤ j → j ≤ k → k ≤ n → fits k = true → fits j = true)
    (hn : 1 ≤ n) : IsLast fits n (bisect fits 1 n 1) := by
  apply bisect_isLast hdown hn le_rfl (by omega) le_rfl (Or.inl ⟨rfl, rfl⟩)
  intro j hj hjn
  omega

/-- The best index so far is given up only for one that fits. -/
theorem bisect_keeps {low high best : Int} (h : fits best = true) :
    fits (bisect fits low high best) = true := by
  induction low, high, best using bisect.induct fits with
  | case1 low high best hle hfits ih =>
    rw [bisect, if_pos hle, if_pos hfits]
    exact ih hfits
  | case2 low high best hle hfits ih =>
    rw [bisect, if_pos hle, if_neg hfits]
    exact ih h
  | case3 low high best hgt =>
    rw [bisect, if_neg hgt]
    exact h

/-- None of the indexes that are tried one after another as long as nothing fits. -/
def HalvesFail (fits : Int → Bool) (n : Nat) : Prop :=
  ∀ i : Nat, 1 ≤ (n + 1) / 2 ^ (i + 1) → fits (((n + 1) / 2 ^ (i + 1) : Nat) : Int) = false

theorem halvesFail_succ {n : Nat} (hn : 0 < n) : HalvesFail fits n ↔
    fits (((n + 1) / 2 : Nat) : Int) = false ∧ HalvesFail fits ((n + 1) / 2 - 1) := by
  have hpred : (n + 1) / 2 - 1 + 1 = (n + 1) / 2 := by omega
  have hhalf (i : Nat) : ((n + 1) / 2 - 1 + 1) / 2 ^ (i + 1) = (n + 1) / 2 ^ (i + 1 + 1) := by
    rw [hpred, Nat.div_div_eq_div_mul, ← Nat.pow_succ']
  constructor
  · intro h
    refine ⟨?_, fun i hi => ?_⟩
    · have hfirst := h 0 (by rw [Nat.zero_add, Nat.pow_one]; omega)
      rw [Nat.zero_add, Nat.pow_one] at hfirst
      exact hfirst
    · rw [hhalf] at hi ⊢
      exact h (i + 1) hi
  · rintro ⟨hfirst, hrest⟩ i hi
    cases i with
    | zero =>
      rw [Nat.zero_add, Nat.pow_one]
      exact hfirst
    | succ i =>
      have hi' := hrest i
      rw [hhalf] at hi'
      exact hi' hi

/-- **What bisection over the whole range ends with.** -/
theorem bisect_halves (fits : Int → Bool) (n : Nat) :
    (HalvesFail fits n → bisect fits 1 n 1 = 1) ∧
      (¬ HalvesFail fits n → fits (bisect fits 1 n 1) = true) := by
  induction n using Nat.strongRecOn with
  | ind n ih =>
    rcases Nat.eq_zero_or_pos n with rfl | hn
    · refine ⟨fun _ => ?_, fun h => absurd ?_ h⟩
      · rw [bisect, if_neg (by omega)]
      · intro i hi
        have hlt : (0 + 1) / 2 ^ (i + 1) = 0 := Nat.div_eq_of_lt (Nat.one_lt_two_pow (by omega))
        omega
    · have hmid : (1 + (n : Int)) / 2 = (((n + 1) / 2 : Nat) : Int) := by omega
      have hbelow : (((n + 1) / 2 : Nat) : Int) - 1 = (((n + 1) / 2 - 1 : Nat) : Int) := by omega
      obtain ⟨hfail, hfound⟩ := ih ((n + 1) / 2 - 1) (by omega)
      rw [halvesFail_succ hn, bisect, if_pos (by omega), hmid, hbelow]
      by_cases hfits : fits (((n + 1) / 2 : Nat) : Int) = true
      · rw [if_pos hfits]
        refine ⟨fun h => ?_, fun _ => bisect_keeps hfits⟩
        rw [hfits] at h
        cases h.1
      · rw [if_neg hfits]
        rw [Bool.not_eq_true] at hfits
        refine ⟨fun h => hfail h.2, fun h => hfound fun hhalves => h ⟨hfits, hhalves⟩⟩

/-! ### Bisection for a value -/

/-- Where the value is found, or the range that was left without it. -/
inductive Search where
  | found (index : Int)
  | gap (low high : Int)

section
variable {α : Type*} [LinearOrder α]

def bisectFor (value : Int → α) (target : α) (low high : Int) : Search :=
  if low ≤ high then
    if value ((low + high) / 2) < target then bisectFor value target ((low + high) / 2 + 1) high
    else if target < value ((low + high) / 2) then
      bisectFor value target low ((low + high) / 2 - 1)
    else .found ((low + high) / 2)
  else .gap low high
termination_by (high + 1 - low).toNat
decreasing_by all_goals omega

variable {value : Int → α} {target : α} {low high first last index : Int}

/-- What is found has the value. -/
theorem bisectFor_found (h : bisectFor value target low high = .found index) :
    value index = target ∧ low ≤ index ∧ index ≤ high := by
  induction low, high using bisectFor.induct value target with
  | case1 low high hle hbelow ih =>
    rw [bisectFor, if_pos hle, if_pos hbelow] at h
    obtain ⟨hvalue, hlow, hhigh⟩ := ih h
    exact ⟨hvalue, by omega, hhigh⟩
  | case2 low high hle hbelow habove ih =>
    rw [bisectFor, if_pos hle, if_neg hbelow, if_pos habove] at h
    obtain ⟨hvalue, hlow, hhigh⟩ := ih h
    exact ⟨hvalue, hlow, by omega⟩
  | case3 low high hle hbelow habove =>
    rw [bisectFor, if_pos hle, if_neg hbelow, if_neg habove] at h
    obtain rfl := Search.found.inj h
    exact ⟨le_antisymm (not_lt.mp habove) (not_lt.mp hbelow), by omega, by omega⟩
  | case4 low high hgt =>
    rw [bisectFor, if_neg hgt] at h
    cases h

/-- Where nothing is found, what lies before the gap is below the value, and what lies behind it is
above, if this holds of what lies around the range and the values do not decrease. -/
theorem bisectFor_gap (hmono : ∀ i j, first ≤ i → i ≤ j → j ≤ last → value i ≤ value j)
    (hfirst : first ≤ low) (hlast : high ≤ last) (hrange : low ≤ high + 1)
    (hbelow : ∀ i, first ≤ i → i < low → value i < target)
    (habove : ∀ i, high < i → i ≤ last → target < value i) {low' high' : Int}
    (h : bisectFor value target low high = .gap low' high') :
    low' = high' + 1 ∧ first ≤ low' ∧ high' ≤ last ∧
      (∀ i, first ≤ i → i < low' → value i < target) ∧
        ∀ i, high' < i → i ≤ last → target < value i := by
  induction low, high using bisectFor.induct value target with
  | case1 low high hle hmiddle ih =>
    rw [bisectFor, if_pos hle, if_pos hmiddle] at h
    refine ih (by omega) hlast (by omega) (fun i hi hilow => ?_) habove h
    exact (hmono i _ hi (by omega) (by omega)).trans_lt hmiddle
  | case2 low high hle hbelow' hmiddle ih =>
    rw [bisectFor, if_pos hle, if_neg hbelow', if_pos hmiddle] at h
    refine ih hfirst (by omega) (by omega) hbelow (fun i hi hilast => ?_) h
    exact hmiddle.trans_le (hmono _ i (by omega) (by omega) hilast)
  | case3 low high hle hbelow' habove' =>
    rw [bisectFor, if_pos hle, if_neg hbelow', if_neg habove'] at h
    cases h
  | case4 low high hgt =>
    rw [bisectFor, if_neg hgt] at h
    obtain ⟨rfl, rfl⟩ := Search.gap.inj h
    exact ⟨by omega, hfirst, hlast, hbelow, habove⟩

end
