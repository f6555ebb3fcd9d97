/-
InferBridge/Lib/Comparison.lean

Comparisons that can fail, over an arbitrary type: `less a b` is the answer
to `a < b`, or `none`.

`lexLess` compares lists by their first different elements, and a proper
prefix is less.  It is transitive if the comparison of the elements is
(`lexLess_trans`), and `first_difference` says how two lists can be related.

`best` is the scan for a greatest element that keeps the current one unless
the next one is greater.  Its result depends on the order of the list
unless one element is above all others; then it is that element
(`best_eq_of_above`).  Where two elements that are not ordered always have an
element above them both, there is such an element (`exists_above`).
-/
import Mathlib

namespace Comparison

variable {α : Type*}

/-! ### Lists by their first difference -/

section Lexicographic

variable [DecidableEq α] (less : α → α → Option Bool)

/-- Compare the first elements that are different, and else the lengths. -/
def lexLess : List α → List α → Option Bool
  | [], [] => some false
  | [], _ :: _ => some true
  | _ :: _, [] => some false
  | x :: xs, y :: ys => if x = y then lexLess xs ys else less x y

theorem lexLess_append (p xs ys : List α) :
    lexLess less (p ++ xs) (p ++ ys) = lexLess less xs ys := by
  induction p with
  | nil => rfl
  | cons x p ih =>
    show (if x = x then lexLess less (p ++ xs) (p ++ ys) else less x x) = _
    rw [if_pos rfl, ih]

theorem lexLess_self (xs : List α) : lexLess less xs xs = some false := by
  have h := lexLess_append less xs [] []
  rwa [List.append_nil] at h

theorem lexLess_of_ne {x y : α} (h : x ≠ y) (p s t : List α) :
    lexLess less (p ++ x :: s) (p ++ y :: t) = less x y := by
  rw [lexLess_append]
  exact if_neg h

theorem lexLess_continued (xs : List α) (y : α) (t : List α) :
    lexLess less xs (xs ++ y :: t) = some true ∧ lexLess less (xs ++ y :: t) xs = some false := by
  have hless := lexLess_append less xs [] (y :: t)
  have hgreater := lexLess_append less xs (y :: t) []
  rw [List.append_nil] at hless hgreater
  exact ⟨hless, hgreater⟩

omit [DecidableEq α] in
/-- Two lists are equal, one continues the other, or they differ somewhere first. -/
theorem first_difference (xs ys : List α) :
    xs = ys ∨ (∃ y t, ys = xs ++ y :: t) ∨ (∃ x s, xs = ys ++ x :: s) ∨
      ∃ p x s y t, xs = p ++ x :: s ∧ ys = p ++ y :: t ∧ x ≠ y := by
  classical
  induction xs generalizing ys with
  | nil =>
    rcases ys with - | ⟨y, ys⟩
    · exact .inl rfl
    · exact .inr (.inl ⟨y, ys, rfl⟩)
  | cons x xs ih =>
    rcases ys with - | ⟨y, ys⟩
    · exact .inr (.inr (.inl ⟨x, xs, rfl⟩))
    · by_cases hxy : x = y
      · subst hxy
        rcases ih ys with rfl | ⟨z, t, rfl⟩ | ⟨z, s, rfl⟩ | ⟨p, z, s, w, t, rfl, rfl, hne⟩
        · exact .inl rfl
        · exact .inr (.inl ⟨z, t, rfl⟩)
        · exact .inr (.inr (.inl ⟨z, s, rfl⟩))
        · exact .inr (.inr (.inr ⟨x :: p, z, s, w, t, rfl, rfl, hne⟩))
      · exact .inr (.inr (.inr ⟨[], x, xs, y, ys, rfl, rfl, hxy⟩))

/-- **Transitivity.** -/
theorem lexLess_trans
    (htrans : ∀ {a b c}, less a b = some true → less b c = some true → less a c = some true)
    (hirrefl : ∀ a, less a a ≠ some true) {xs ys zs : List α}
    (hxy : lexLess less xs ys = some true) (hyz : lexLess less ys zs = some true) :
    lexLess less xs zs = some true := by
  induction xs generalizing ys zs with
  | nil =>
    rcases ys with - | ⟨y, ys⟩
    · cases hxy
    · rcases zs with - | ⟨z, zs⟩
      · cases hyz
      · rfl
  | cons x xs ih =>
    rcases ys with - | ⟨y, ys⟩
    · cases hxy
    · rcases zs with - | ⟨z, zs⟩
      · cases hyz
      · rw [lexLess] at hxy hyz ⊢
        by_cases h₁ : x = y
        · subst h₁
          rw [if_pos rfl] at hxy
          by_cases h₂ : x = z
          · rw [if_pos h₂] at hyz ⊢
            exact ih hxy hyz
          · rw [if_neg h₂] at hyz ⊢
            exact hyz
        · rw [if_neg h₁] at hxy
          by_cases h₂ : y = z
          · subst h₂
            rw [if_neg h₁]
            exact hxy
          · rw [if_neg h₂] at hyz
            have hxz := htrans hxy hyz
            have hne : x ≠ z := by
              rintro rfl
              exact hirrefl x hxz
            rw [if_neg hne]
            exact hxz

end Lexicographic

/-! ### The scan for a greatest element -/

/-- Keep the current element unless the next one is greater. -/
def best (greater : α → α → Option Bool) : α → List α → Option α
  | a, [] => some a
  | a, b :: rest => (greater b a).bind fun g => best greater (if g then b else a) rest

/-- One element is above all others, and every comparison has an answer. -/
theorem best_eq_of_above {greater : α → α → Option Bool} {g a : α} {l : List α}
    (hdefined : ∀ x ∈ a :: l, ∀ y ∈ a :: l, x ≠ y → greater x y ≠ none)
    (habove : ∀ x ∈ a :: l, x ≠ g → greater g x = some true ∧ greater x g = some false)
    (hself : ∀ x, greater x x = some false)
    (hg : g ∈ a :: l) : best greater a l = some g := by
  induction l generalizing a with
  | nil =>
    obtain rfl : g = a := by simpa using hg
    rfl
  | cons b rest ih =>
    have hcompare : ∃ answer, greater b a = some answer ∧
        (a = g → answer = false ∨ b = g) ∧ (b = g → a ≠ g → answer = true) := by
      by_cases hba : b = a
      · subst hba
        exact ⟨false, hself b, fun _ => .inl rfl, fun h h' => absurd h h'⟩
      · obtain ⟨answer, hanswer⟩ := Option.ne_none_iff_exists'.mp
          (hdefined b (by simp) a (by simp) hba)
        refine ⟨answer, hanswer, ?_, ?_⟩
        · rintro rfl
          have hbelow := (habove b (by simp) hba).2
          rw [hbelow] at hanswer
          exact .inl (Option.some.inj hanswer).symm
        · rintro rfl hne
          have hover := (habove a (by simp) hne).1
          rw [hover] at hanswer
          exact (Option.some.inj hanswer).symm
    obtain ⟨answer, hanswer, hkeep, htake⟩ := hcompare
    rw [best, hanswer, Option.bind_some]
    have hsub : ∀ x ∈ (if answer then b else a) :: rest, x ∈ a :: b :: rest := by
      intro x hx
      rcases List.mem_cons.mp hx with rfl | hx
      · cases answer <;> simp
      · exact List.mem_cons_of_mem a (List.mem_cons_of_mem b hx)
    apply ih
    · exact fun x hx y hy => hdefined x (hsub x hx) y (hsub y hy)
    · exact fun x hx => habove x (hsub x hx)
    · rcases List.mem_cons.mp hg with rfl | hg
      · rcases hkeep rfl with rfl | rfl
        · exact List.mem_cons_self
        · cases answer <;> exact List.mem_cons_self
      · rcases List.mem_cons.mp hg with rfl | hg
        · by_cases hag : a = g
          · subst hag
            cases answer <;> exact List.mem_cons_self
          · rw [htake rfl hag]
            exact List.mem_cons_self
        · exact List.mem_cons_of_mem _ hg

/-- The scan begins with the comparison of the first two. -/
theorem best_ne_none {greater : α → α → Option Bool} {a b : α} {rest : List α}
    (h : best greater a (b :: rest) ≠ none) : greater b a ≠ none := by
  intro hnone
  rw [best, hnone] at h
  exact h rfl

/-- A transitive relation that relates nothing to itself has a maximal element in every list. -/
theorem exists_maximal {r : α → α → Prop} (htrans : ∀ {a b c}, r a b → r b c → r a c)
    (hirrefl : ∀ a, ¬ r a a) {l : List α} (hne : l ≠ []) : ∃ m ∈ l, ∀ x ∈ l, ¬ r m x := by
  induction l with
  | nil => exact absurd rfl hne
  | cons a l ih =>
    rcases List.eq_nil_or_concat l with rfl | ⟨_, _, rfl⟩
    · refine ⟨a, List.mem_cons_self, ?_⟩
      intro x hx
      obtain rfl : x = a := by simpa using hx
      exact hirrefl x
    · obtain ⟨m, hm, hmax⟩ := ih (by simp)
      by_cases hma : r m a
      · refine ⟨a, List.mem_cons_self, ?_⟩
        intro x hx hax
        rcases List.mem_cons.mp hx with rfl | hx
        · exact hirrefl _ hax
        · exact hmax x hx (htrans hma hax)
      · refine ⟨m, List.mem_cons_of_mem a hm, ?_⟩
        intro x hx
        rcases List.mem_cons.mp hx with rfl | hx
        · exact hma
        · exact hmax x hx

/-- **An element above all others**, where two that are not ordered are both below another. -/
theorem exists_above {r : α → α → Prop} (htrans : ∀ {a b c}, r a b → r b c → r a c)
    (hirrefl : ∀ a, ¬ r a a) {l : List α} (hne : l ≠ [])
    (hjoin : ∀ a ∈ l, ∀ b ∈ l, a ≠ b → r a b ∨ r b a ∨ ∃ c ∈ l, r a c ∧ r b c) :
    ∃ g ∈ l, ∀ x ∈ l, x ≠ g → r x g := by
  obtain ⟨g, hg, hmax⟩ := @exists_maximal _ r htrans hirrefl l hne
  refine ⟨g, hg, ?_⟩
  intro x hx hxg
  rcases hjoin x hx g hg hxg with hbelow | habove | ⟨c, hc, -, hgc⟩
  · exact hbelow
  · exact absurd habove (hmax x hx)
  · exact absurd hgc (hmax c hc)

end Comparison
