/-
InferBridge/Lib/Binary64.lean

Rounding to binary64: the finite values of the format are rationals, and
`round` takes a rational to the nearest of them, ties to the even
significand.  Overflow is left to the caller (`maxExponent`).

A value that is at most a natural number below `2 ^ 53` is rounded to one
that is (`round_le_natCast`), and rounding keeps the sign (`round_nonneg`).
An integer that is rounded to at most a hundred is its own rounding
(`round_intCast_of_le`).
-/
import Mathlib

namespace Binary64

/-- The nearest integer, the even one of two. -/
def roundHalfEven (q : ℚ) : ℤ :=
  if q - ⌊q⌋ < 1 / 2 then ⌊q⌋
  else if 1 / 2 < q - ⌊q⌋ then ⌊q⌋ + 1
  else if Even ⌊q⌋ then ⌊q⌋ else ⌊q⌋ + 1

/-- The exponent of the last bit of a positive rational. -/
def lastBit (q : ℚ) : ℤ := max (Int.log 2 q - 52) (-1074)

/-- The distance between two neighbours at a positive rational. -/
def ulp (q : ℚ) : ℚ := 2 ^ lastBit q

/-- Rounding of a rational that is not negative. -/
def roundMagnitude (q : ℚ) : ℚ := if q = 0 then 0 else roundHalfEven (q / ulp q) * ulp q

def round (q : ℚ) : ℚ := if q < 0 then -roundMagnitude (-q) else roundMagnitude q

/-- The first power of two that is no finite value. -/
def maxExponent : Nat := 1024

theorem roundHalfEven_le {q : ℚ} {n : ℤ} (h : q ≤ n) : roundHalfEven q ≤ n := by
  have hfloor : ⌊q⌋ ≤ n := Int.cast_le.mp ((Int.floor_le q).trans h)
  rw [roundHalfEven]
  rcases hfloor.lt_or_eq with hlt | heq
  · split
    · exact hfloor
    · split
      · exact hlt
      · split
        · exact hfloor
        · exact hlt
  · -- then `q` is `n`, with no fraction
    have hq : q - ⌊q⌋ < 1 / 2 := by
      rw [heq]
      linarith
    rw [if_pos hq]
    exact hfloor

theorem roundHalfEven_nonneg {q : ℚ} (h : 0 ≤ q) : 0 ≤ roundHalfEven q := by
  have hfloor : 0 ≤ ⌊q⌋ := Int.floor_nonneg.mpr h
  rw [roundHalfEven]
  split
  · exact hfloor
  · split
    · omega
    · split
      · exact hfloor
      · omega

theorem ulp_pos (q : ℚ) : 0 < ulp q := zpow_pos (by norm_num) _

/-- Below `2 ^ 53` every natural number is a multiple of the distance. -/
theorem lastBit_nonpos {q : ℚ} {m : ℕ} (hm : m < 2 ^ 53) (hpos : 0 < q) (h : q ≤ m) :
    lastBit q ≤ 0 := by
  have hlog : Int.log 2 q < 53 := by
    have hlt : (2 : ℚ) ^ Int.log 2 q < 2 ^ (53 : ℤ) := by
      calc (2 : ℚ) ^ Int.log 2 q ≤ q := by simpa using Int.zpow_log_le_self (b := 2) (by norm_num) hpos
        _ ≤ m := h
        _ < 2 ^ (53 : ℤ) := by exact_mod_cast hm
    exact (zpow_lt_zpow_iff_right₀ (by norm_num)).mp hlt
  rw [lastBit]
  omega

theorem natCast_eq_mul_ulp {q : ℚ} (h : lastBit q ≤ 0) (m : ℕ) :
    ∃ n : ℤ, (m : ℚ) = n * ulp q := by
  obtain ⟨k, hk⟩ := Int.eq_ofNat_of_zero_le (neg_nonneg.mpr h)
  refine ⟨m * 2 ^ k, ?_⟩
  have hulp : ulp q = ((2 : ℚ) ^ k)⁻¹ := by
    rw [ulp, show lastBit q = -(k : ℤ) by omega, zpow_neg, zpow_natCast]
  rw [hulp]
  push_cast
  field_simp

theorem roundMagnitude_le {q : ℚ} {m : ℕ} (hm : m < 2 ^ 53) (hpos : 0 ≤ q) (h : q ≤ m) :
    roundMagnitude q ≤ m := by
  rw [roundMagnitude]
  split
  · exact Nat.cast_nonneg m
  · next hne =>
    have hq : 0 < q := lt_of_le_of_ne hpos (Ne.symm hne)
    obtain ⟨n, hn⟩ := natCast_eq_mul_ulp (lastBit_nonpos hm hq h) m
    have hle : q / ulp q ≤ n := by
      rw [div_le_iff₀ (ulp_pos q), ← hn]
      exact h
    calc (roundHalfEven (q / ulp q) : ℚ) * ulp q ≤ n * ulp q :=
          mul_le_mul_of_nonneg_right (Int.cast_le.mpr (roundHalfEven_le hle)) (ulp_pos q).le
      _ = m := hn.symm

theorem roundMagnitude_nonneg {q : ℚ} (h : 0 ≤ q) : 0 ≤ roundMagnitude q := by
  rw [roundMagnitude]
  split
  · exact le_rfl
  · exact mul_nonneg
      (Int.cast_nonneg (roundHalfEven_nonneg (div_nonneg h (ulp_pos q).le))) (ulp_pos q).le

theorem round_nonneg {q : ℚ} (h : 0 ≤ q) : 0 ≤ round q := by
  rw [round, if_neg (not_lt.mpr h)]
  exact roundMagnitude_nonneg h

theorem round_le_natCast {q : ℚ} {m : ℕ} (hm : m < 2 ^ 53) (hpos : 0 ≤ q) (h : q ≤ m) :
    round q ≤ m := by
  rw [round, if_neg (not_lt.mpr hpos)]
  exact roundMagnitude_le hm hpos h

/-! ### Integers -/

theorem floor_le_roundHalfEven (q : ℚ) : ⌊q⌋ ≤ roundHalfEven q := by
  rw [roundHalfEven]
  split
  · exact le_rfl
  · split
    · exact (lt_add_one _).le
    · split
      · exact le_rfl
      · exact (lt_add_one _).le

theorem roundHalfEven_intCast (n : ℤ) : roundHalfEven n = n := by
  have hfraction : (n : ℚ) - ⌊(n : ℚ)⌋ < 1 / 2 := by
    rw [Int.floor_intCast]
    norm_num
  rw [roundHalfEven, if_pos hfraction, Int.floor_intCast]

/-- Below `2 ^ 53` every natural number is a value of the format. -/
theorem round_natCast {m : ℕ} (hm : m < 2 ^ 53) : round m = m := by
  rw [round, if_neg (not_lt.mpr (Nat.cast_nonneg m)), roundMagnitude]
  split
  · next hzero => exact hzero.symm
  · next hne =>
    have hpos : (0 : ℚ) < m := lt_of_le_of_ne (Nat.cast_nonneg m) (Ne.symm hne)
    obtain ⟨n, hn⟩ := natCast_eq_mul_ulp (lastBit_nonpos hm hpos le_rfl) m
    have hquotient : (m : ℚ) / ulp m = n := by
      rw [div_eq_iff (ulp_pos _).ne']
      exact hn
    rw [hquotient, roundHalfEven_intCast, ← hn]

/-- The distance is at most half of a value from one on. -/
theorem ulp_le_half {q : ℚ} (h : 1 ≤ q) : ulp q ≤ q / 2 := by
  have hpos : 0 < q := lt_of_lt_of_le one_pos h
  have hlog : 0 ≤ Int.log 2 q := by
    have hmono : Int.log 2 (1 : ℚ) ≤ Int.log 2 q := Int.log_mono_right one_pos h
    rwa [Int.log_one_right] at hmono
  have hbit : lastBit q = Int.log 2 q - 52 := by
    rw [lastBit]
    omega
  calc ulp q = 2 ^ Int.log 2 q / 2 ^ (52 : ℤ) := by rw [ulp, hbit, zpow_sub₀ (by norm_num)]
    _ ≤ q / 2 ^ (52 : ℤ) := by
      have hle : (2 : ℚ) ^ Int.log 2 q ≤ q := by
        simpa using Int.zpow_log_le_self (b := 2) (by norm_num) hpos
      gcongr
    _ ≤ q / 2 := by
      gcongr
      norm_num

theorem half_le_roundMagnitude {q : ℚ} (h : 1 ≤ q) : q / 2 ≤ roundMagnitude q := by
  have hpos : 0 < q := lt_of_lt_of_le one_pos h
  have hfloor : q / ulp q - 1 ≤ (roundHalfEven (q / ulp q) : ℚ) :=
    (Int.sub_one_lt_floor _).le.trans (Int.cast_le.mpr (floor_le_roundHalfEven _))
  rw [roundMagnitude, if_neg hpos.ne']
  calc q / 2 ≤ q - ulp q := by linarith [ulp_le_half h]
    _ = (q / ulp q - 1) * ulp q := by
      rw [sub_mul, div_mul_cancel₀ _ (ulp_pos q).ne', one_mul]
    _ ≤ _ := mul_le_mul_of_nonneg_right hfloor (ulp_pos q).le

/-- An integer whose rounding lies between zero and a hundred is not changed by it. -/
theorem round_intCast_of_le {n : ℤ} (hnonneg : 0 ≤ round n) (hle : round n ≤ 100) :
    round n = n := by
  rcases lt_or_ge n 0 with hneg | hpos
  · have hone : (1 : ℚ) ≤ -n := by exact_mod_cast Int.neg_le_neg (Int.le_sub_one_of_lt hneg)
    have hhalf := half_le_roundMagnitude hone
    rw [round, if_pos (Int.cast_lt_zero.mpr hneg)] at hnonneg
    linarith
  · obtain ⟨m, rfl⟩ := Int.eq_ofNat_of_zero_le hpos
    rw [Int.cast_natCast] at hle ⊢
    have hsmall : m ≤ 200 := by
      by_contra hlarge
      have hone : (1 : ℚ) ≤ m := by exact_mod_cast (by omega : 1 ≤ m)
      have hhalf := half_le_roundMagnitude hone
      have hcast : (201 : ℚ) ≤ m := by exact_mod_cast (by omega : 201 ≤ m)
      rw [round, if_neg (not_lt.mpr (Nat.cast_nonneg m))] at hle
      linarith
    exact round_natCast (by omega)

end Binary64
