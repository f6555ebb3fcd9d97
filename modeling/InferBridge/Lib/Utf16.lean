/-
InferBridge/Lib/Utf16.lean

Texts of UTF-16 code units.

A text is well formed if its surrogates come in pairs.  `wellFormedFrom
pending t` reads it from the left; `pending` says that a high surrogate has
just been read.  There is one rule for each way to cut a text up: between
two pieces (`wellFormed_append`), at separators that are no surrogates
(`wellFormed_splitOnP`), and after a number of units
(`wellFormed_take_iff`), which is the one that can break a pair.

`repair` is what an encoder makes of a text: each surrogate without a
partner becomes U+FFFD.  Well-formed texts stay as they are
(`repair_eq_self`), and the length never changes (`length_repair`).
-/
import Mathlib

namespace Utf16

abbrev Text := List UInt16

def isHigh (c : UInt16) : Bool := 0xD800 ≤ c.toNat ∧ c.toNat ≤ 0xDBFF

def isLow (c : UInt16) : Bool := 0xDC00 ≤ c.toNat ∧ c.toNat ≤ 0xDFFF

def wellFormedFrom : Bool → Text → Bool
  | pending, [] => !pending
  | true, c :: t => isLow c && wellFormedFrom false t
  | false, c :: t => !isLow c && wellFormedFrom (isHigh c) t

/-- The surrogates come in pairs. -/
def wellFormed (t : Text) : Bool := wellFormedFrom false t

variable {t u : Text} {c : UInt16} {pending : Bool}

theorem isHigh_false_of_isLow (h : isLow c = true) : isHigh c = false := by
  rw [isLow, decide_eq_true_eq] at h
  rw [isHigh, decide_eq_false_iff_not]
  omega

theorem wellFormedFrom_append (ht : wellFormedFrom pending t = true) (hu : wellFormed u = true) :
    wellFormedFrom pending (t ++ u) = true := by
  induction t generalizing pending with
  | nil =>
    cases pending with
    | false => exact hu
    | true => exact absurd ht Bool.false_ne_true
  | cons c t ih =>
    cases pending with
    | false =>
      obtain ⟨hc, ht⟩ := Bool.and_eq_true_iff.mp ht
      exact Bool.and_eq_true_iff.mpr ⟨hc, ih ht⟩
    | true =>
      obtain ⟨hc, ht⟩ := Bool.and_eq_true_iff.mp ht
      exact Bool.and_eq_true_iff.mpr ⟨hc, ih ht⟩

theorem wellFormed_append (ht : wellFormed t = true) (hu : wellFormed u = true) :
    wellFormed (t ++ u) = true :=
  wellFormedFrom_append ht hu

/-- The pieces between separators that are no surrogates. -/
theorem wellFormed_splitOnP {p : UInt16 → Bool}
    (hp : ∀ c, p c = true → isHigh c = false ∧ isLow c = false)
    (ht : wellFormedFrom pending t = true) :
    ∃ first others, t.splitOnP p = first :: others ∧ wellFormedFrom pending first = true ∧
      ∀ piece ∈ others, wellFormed piece = true := by
  induction t generalizing pending with
  | nil => exact ⟨[], [], rfl, ht, by simp⟩
  | cons c t ih =>
    rw [List.splitOnP_cons_eq_if_modifyHead]
    by_cases hc : p c = true
    · obtain ⟨hhigh, hlow⟩ := hp c hc
      rw [if_pos hc]
      cases pending with
      | true =>
        -- a separator does not complete a pair
        have hpair := (Bool.and_eq_true_iff.mp ht).1
        rw [hlow] at hpair
        exact absurd hpair Bool.false_ne_true
      | false =>
        have hrest := (Bool.and_eq_true_iff.mp ht).2
        rw [hhigh] at hrest
        obtain ⟨first, others, hsplit, hfirst, hothers⟩ := ih hrest
        refine ⟨[], t.splitOnP p, rfl, rfl, ?_⟩
        rw [hsplit]
        intro piece hpiece
        rcases List.mem_cons.mp hpiece with rfl | hpiece
        · exact hfirst
        · exact hothers piece hpiece
    · rw [if_neg hc]
      cases pending with
      | true =>
        obtain ⟨hlow, hrest⟩ := Bool.and_eq_true_iff.mp ht
        obtain ⟨first, others, hsplit, hfirst, hothers⟩ := ih hrest
        refine ⟨c :: first, others, by rw [hsplit]; rfl, ?_, hothers⟩
        exact Bool.and_eq_true_iff.mpr ⟨hlow, hfirst⟩
      | false =>
        obtain ⟨hlow, hrest⟩ := Bool.and_eq_true_iff.mp ht
        obtain ⟨first, others, hsplit, hfirst, hothers⟩ := ih hrest
        refine ⟨c :: first, others, by rw [hsplit]; rfl, ?_, hothers⟩
        exact Bool.and_eq_true_iff.mpr ⟨hlow, hfirst⟩

theorem wellFormed_mem_splitOnP {p : UInt16 → Bool}
    (hp : ∀ c, p c = true → isHigh c = false ∧ isLow c = false) (ht : wellFormed t = true)
    {piece : Text} (hpiece : piece ∈ t.splitOnP p) : wellFormed piece = true := by
  obtain ⟨first, others, hsplit, hfirst, hothers⟩ := wellFormed_splitOnP hp ht
  rw [hsplit] at hpiece
  rcases List.mem_cons.mp hpiece with rfl | hpiece
  · exact hfirst
  · exact hothers piece hpiece

theorem wellFormed_intercalate {separator : Text} (hseparator : wellFormed separator = true)
    {pieces : List Text} (h : ∀ piece ∈ pieces, wellFormed piece = true) :
    wellFormed (separator.intercalate pieces) = true := by
  induction pieces with
  | nil => rfl
  | cons piece pieces ih =>
    have hpiece := h piece List.mem_cons_self
    have hrest := ih fun q hq => h q (List.mem_cons_of_mem piece hq)
    cases pieces with
    | nil => simpa [List.intercalate] using hpiece
    | cons next pieces =>
      rw [List.intercalate_cons_cons]
      exact wellFormed_append (wellFormed_append hpiece hseparator) hrest

/-- The first units of a well-formed text are well formed unless the last of them is a high
surrogate. -/
theorem wellFormedFrom_take (ht : wellFormedFrom pending t = true) (k : Nat) :
    wellFormedFrom pending (t.take k) =
      (match (t.take k).getLast? with
        | none => !pending
        | some c => !isHigh c) := by
  induction t generalizing pending k with
  | nil =>
    rw [List.take_nil]
    rfl
  | cons c t ih =>
    cases k with
    | zero => cases pending <;> rfl
    | succ k =>
      rw [List.take_succ_cons]
      have hstep : ∀ next, wellFormedFrom next t = true → (isHigh c = next) →
          wellFormedFrom next (t.take k) =
            match (c :: t.take k).getLast? with
            | none => !pending
            | some c => !isHigh c := by
        intro next hnext hhigh
        rw [ih hnext]
        rcases hlast : (t.take k).getLast? with - | d
        · have hnil : t.take k = [] := List.getLast?_eq_none_iff.mp hlast
          rw [hnil]
          show (!next) = !isHigh c
          rw [hhigh]
        · rw [List.getLast?_cons, hlast]
          rfl
      cases pending with
      | false =>
        obtain ⟨hc, hrest⟩ := Bool.and_eq_true_iff.mp ht
        show (!isLow c && wellFormedFrom (isHigh c) (t.take k)) = _
        rw [hc, Bool.true_and]
        exact hstep _ hrest rfl
      | true =>
        obtain ⟨hc, hrest⟩ := Bool.and_eq_true_iff.mp ht
        show (isLow c && wellFormedFrom false (t.take k)) = _
        rw [hc, Bool.true_and]
        exact hstep _ hrest (isHigh_false_of_isLow hc)

theorem wellFormed_take_iff (ht : wellFormed t = true) (k : Nat) :
    wellFormed (t.take k) = true ↔ ∀ c, (t.take k).getLast? = some c → isHigh c = false := by
  rw [wellFormed, wellFormedFrom_take ht]
  rcases (t.take k).getLast? with - | c
  · simp
  · simp

/-! ### Repair -/

def isSurrogate (c : UInt16) : Bool := isHigh c || isLow c

/-- A unit without a partner, as it is encoded. -/
def repairUnit (c : UInt16) : UInt16 := if isSurrogate c then 0xFFFD else c

/-- Surrogates without a partner are replaced by U+FFFD. -/
def repair : Text → Text
  | [] => []
  | [c] => [repairUnit c]
  | c :: d :: t =>
    if isHigh c && isLow d then c :: d :: repair t else repairUnit c :: repair (d :: t)

@[simp] theorem length_repair (t : Text) : (repair t).length = t.length := by
  fun_induction repair t with
  | case1 => rfl
  | case2 c => rfl
  | case3 c d t _ ih => simp only [List.length_cons, ih]
  | case4 c d t _ ih => simpa only [List.length_cons, Nat.add_right_cancel_iff] using ih

theorem repairUnit_eq_self (hhigh : isHigh c = false) (hlow : isLow c = false) :
    repairUnit c = c := by
  rw [repairUnit, isSurrogate, hhigh, hlow]
  rfl

theorem isSurrogate_repairUnit (c : UInt16) : isSurrogate (repairUnit c) = false := by
  rw [repairUnit]
  split
  · rfl
  · next h => exact Bool.not_eq_true _ ▸ h

theorem repair_eq_self (h : wellFormed t = true) : repair t = t := by
  fun_induction repair t with
  | case1 => rfl
  | case2 c =>
    simp only [wellFormed, wellFormedFrom, Bool.and_eq_true, Bool.not_eq_true'] at h
    rw [repairUnit_eq_self h.2 h.1]
  | case3 c d t hpair ih =>
    obtain ⟨hhigh, hlow⟩ := Bool.and_eq_true_iff.mp hpair
    simp only [wellFormed, wellFormedFrom, hhigh, Bool.and_eq_true] at h
    rw [ih h.2.2]
  | case4 c d t hpair ih =>
    simp only [wellFormed, wellFormedFrom, Bool.and_eq_true, Bool.not_eq_true'] at h
    -- a high surrogate would be followed by its partner
    have hhigh : isHigh c = false := by
      by_contra hhigh
      rw [Bool.not_eq_false] at hhigh
      rw [hhigh] at h
      exact hpair (Bool.and_eq_true_iff.mpr ⟨hhigh, (Bool.and_eq_true_iff.mp h.2).1⟩)
    rw [hhigh] at h
    rw [repairUnit_eq_self hhigh h.1, ih]
    simpa only [wellFormed, wellFormedFrom, Bool.and_eq_true, Bool.not_eq_true'] using h.2

theorem wellFormedFrom_cons_plain (h : isSurrogate c = false) :
    wellFormedFrom false (c :: t) = wellFormedFrom false t := by
  obtain ⟨hhigh, hlow⟩ := Bool.or_eq_false_iff.mp h
  rw [wellFormedFrom, hhigh, hlow]
  rfl

theorem wellFormed_repair (t : Text) : wellFormed (repair t) = true := by
  fun_induction repair t with
  | case1 => rfl
  | case2 c =>
    show wellFormedFrom false [repairUnit c] = true
    rw [wellFormedFrom_cons_plain (isSurrogate_repairUnit c)]
    rfl
  | case3 c d t hpair ih =>
    obtain ⟨hhigh, hlow⟩ := Bool.and_eq_true_iff.mp hpair
    have hfirst : isLow c = false := by
      by_contra h
      rw [Bool.not_eq_false] at h
      rw [isHigh_false_of_isLow h] at hhigh
      exact Bool.false_ne_true hhigh
    rw [wellFormed, wellFormedFrom, wellFormedFrom.eq_def, hfirst, hhigh]
    show (true && (isLow d && wellFormedFrom false (repair t))) = true
    rw [hlow]
    exact ih
  | case4 c d t _ ih =>
    show wellFormedFrom false (repairUnit c :: repair (d :: t)) = true
    rw [wellFormedFrom_cons_plain (isSurrogate_repairUnit c)]
    exact ih

/-- A property that neither surrogates nor U+FFFD have is not affected. -/
theorem all_repair {p : UInt16 → Bool} (hp : ∀ c, isSurrogate c = true → p c = false)
    (hreplacement : p 0xFFFD = false) (t : Text) : (repair t).all p = t.all p := by
  have hunit : ∀ c, p (repairUnit c) = p c := by
    intro c
    rw [repairUnit]
    split
    · next h => rw [hreplacement, hp c h]
    · rfl
  fun_induction repair t with
  | case1 => rfl
  | case2 c => simp only [List.all_cons, hunit]
  | case3 c d t _ ih => simp only [List.all_cons, ih]
  | case4 c d t _ ih =>
    rw [List.all_cons, hunit, ih]
    rfl

end Utf16
