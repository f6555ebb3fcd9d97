/-
InferBridge/Lib/Progress.lean

Progress along an infinite trace of states.

`LeadsTo s P Q` says that in the trace `s` every state with `P` is followed,
or is itself, by a state with `Q`.  The rules say how that is shown: from a
step that is taken again and again (`LeadsTo.ensures`), one after another
(`LeadsTo.trans`), and by a variant (`LeadsTo.variant`).
-/
import Mathlib

namespace Progress

variable {σ : Type*} {s : ℕ → σ} {P Q R : σ → Prop}

def LeadsTo (s : ℕ → σ) (P Q : σ → Prop) : Prop := ∀ n, P (s n) → ∃ m, n ≤ m ∧ Q (s m)

/-- What happens again and again. -/
def Recurring (p : ℕ → Prop) : Prop := ∀ n, ∃ m, n ≤ m ∧ p m

/-- A property that each step keeps holds from then on. -/
theorem stable (h : ∀ n, P (s n) → P (s (n + 1))) {n m : ℕ} (hnm : n ≤ m) (hn : P (s n)) :
    P (s m) := by
  induction m, hnm using Nat.le_induction with
  | base => exact hn
  | succ m _ ih => exact h m ih

namespace LeadsTo

theorem of_imp (h : ∀ n, P (s n) → Q (s n)) : LeadsTo s P Q :=
  fun n hn => ⟨n, le_rfl, h n hn⟩

theorem trans (hPQ : LeadsTo s P Q) (hQR : LeadsTo s Q R) : LeadsTo s P R := by
  intro n hn
  obtain ⟨m, hnm, hm⟩ := hPQ n hn
  obtain ⟨k, hmk, hk⟩ := hQR m hm
  exact ⟨k, hnm.trans hmk, hk⟩

theorem mono (h : LeadsTo s P Q) (hQR : ∀ n, Q (s n) → R (s n)) : LeadsTo s P R :=
  h.trans (of_imp hQR)

theorem cases (C : σ → Prop) (hC : LeadsTo s (fun x => P x ∧ C x) Q)
    (hnC : LeadsTo s (fun x => P x ∧ ¬ C x) Q) : LeadsTo s P Q := by
  intro n hn
  by_cases hc : C (s n)
  · exact hC n ⟨hn, hc⟩
  · exact hnC n ⟨hn, hc⟩

theorem or (hP : LeadsTo s P R) (hQ : LeadsTo s Q R) : LeadsTo s (fun x => P x ∨ Q x) R := by
  rintro n (hn | hn)
  · exact hP n hn
  · exact hQ n hn

/-- Each step keeps `P` or reaches `Q`, and a step that recurs reaches `Q`. -/
theorem ensures {p : ℕ → Prop} (hkeep : ∀ n, P (s n) → P (s (n + 1)) ∨ Q (s (n + 1)))
    (hp : Recurring p) (hstep : ∀ n, p n → P (s n) → Q (s (n + 1))) : LeadsTo s P Q := by
  intro n hn
  obtain ⟨m, hnm, hm⟩ := hp n
  -- `P` is kept up to the step, unless `Q` comes first
  have hkept : ∀ k, n ≤ k → P (s k) ∨ ∃ j, n ≤ j ∧ Q (s j) := by
    intro k hnk
    induction k, hnk using Nat.le_induction with
    | base => exact .inl hn
    | succ k hnk ih =>
      rcases ih with hk | hdone
      · rcases hkeep k hk with hk' | hk'
        · exact .inl hk'
        · exact .inr ⟨k + 1, hnk.trans (Nat.le_succ k), hk'⟩
      · exact .inr hdone
  rcases hkept m hnm with hPm | hdone
  · exact ⟨m + 1, hnm.trans (Nat.le_succ m), hstep m hm hPm⟩
  · exact hdone

/-- From every value of the variant, `Q` or a smaller value is reached. -/
theorem variant (μ : σ → ℕ)
    (h : ∀ k, LeadsTo s (fun x => P x ∧ μ x = k) (fun x => Q x ∨ (P x ∧ μ x < k))) :
    LeadsTo s P Q := by
  intro n hn
  induction hk : μ (s n) using Nat.strong_induction_on generalizing n with
  | _ k ih =>
    obtain ⟨m, hnm, hQ | ⟨hP, hlt⟩⟩ := h k n ⟨hn, hk⟩
    · exact ⟨m, hnm, hQ⟩
    · obtain ⟨j, hmj, hj⟩ := ih (μ (s m)) hlt m hP rfl
      exact ⟨j, hnm.trans hmj, hj⟩

end LeadsTo

end Progress
