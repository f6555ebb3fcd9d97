/-
InferBridge/Lib/Feed.lean

A machine that is fed symbols, in pieces of any size, until it is done.

The pieces do not matter (`reads_eq_feed`): below the limit, what the machine has made of
the pieces is what it makes of the symbols.  A list that is fed in two parts is fed at
once (`feed_append`).  A machine that reads the codes of symbols as another machine reads
the symbols is that machine on the coded lists (`feed_flatMap`).
-/
import Mathlib

namespace Feed

variable {σ α ε : Type*}

/-- A machine: what a symbol does, which may raise, and whether it takes no more of them. -/
structure Machine (σ α ε : Type*) where
  step : σ → α → Except ε σ
  done : σ → Bool

namespace Machine

variable (m : Machine σ α ε)

/-- The symbols, one after another. -/
def feed : σ → List α → Except ε σ
  | s, [] => .ok s
  | s, a :: as =>
    if m.done s then .ok s
    else
      match m.step s a with
      | .error e => .error e
      | .ok s' => feed s' as

/-- The pieces, one after another; an empty one is the end, and all of them together stay within
a limit. -/
def reads (limit : ℕ) (tooLarge : ε) : ℕ → σ → List (List α) → Except ε σ
  | _, s, [] => .ok s
  | total, s, piece :: pieces =>
    if m.done s then .ok s
    else if piece = [] then .ok s
    else if limit < total + piece.length then .error tooLarge
    else
      match m.feed s piece with
      | .error e => .error e
      | .ok s' => reads limit tooLarge (total + piece.length) s' pieces

variable {m}

theorem feed_of_done {s : σ} (h : m.done s = true) (as : List α) : m.feed s as = .ok s := by
  cases as with
  | nil => rfl
  | cons a as => exact if_pos h

theorem feed_cons {s s' : σ} {a : α} (hdone : m.done s = false) (hstep : m.step s a = .ok s')
    (as : List α) : m.feed s (a :: as) = m.feed s' as := by
  rw [feed, hdone, if_neg Bool.false_ne_true, hstep]

theorem feed_cons_error {s : σ} {a : α} {e : ε} (hdone : m.done s = false)
    (hstep : m.step s a = .error e) (as : List α) : m.feed s (a :: as) = .error e := by
  rw [feed, hdone, if_neg Bool.false_ne_true, hstep]

theorem feed_singleton {s : σ} (hdone : m.done s = false) (a : α) : m.feed s [a] = m.step s a := by
  rcases hstep : m.step s a with e | s'
  · exact feed_cons_error hdone hstep []
  · exact feed_cons hdone hstep []

/-- What follows is fed to what the first part has left. -/
theorem feed_append {s s' : σ} {as : List α} (h : m.feed s as = .ok s') (bs : List α) :
    m.feed s (as ++ bs) = m.feed s' bs := by
  induction as generalizing s with
  | nil =>
    obtain rfl := Except.ok.inj h
    rfl
  | cons a as ih =>
    cases hdone : m.done s with
    | true =>
      rw [feed_of_done hdone] at h
      obtain rfl := Except.ok.inj h
      rw [feed_of_done hdone, feed_of_done hdone]
    | false =>
      rcases hstep : m.step s a with e | t
      · rw [feed_cons_error hdone hstep] at h
        exact absurd h (by simp)
      · rw [feed_cons hdone hstep] at h
        rw [List.cons_append, feed_cons hdone hstep, ih h]

theorem feed_append_error {s : σ} {as : List α} {e : ε} (h : m.feed s as = .error e)
    (bs : List α) : m.feed s (as ++ bs) = .error e := by
  induction as generalizing s with
  | nil => exact absurd h (by simp [feed])
  | cons a as ih =>
    cases hdone : m.done s with
    | true =>
      rw [feed_of_done hdone] at h
      exact absurd h (by simp)
    | false =>
      rcases hstep : m.step s a with e' | t
      · rw [feed_cons_error hdone hstep] at h
        rw [List.cons_append, feed_cons_error hdone hstep, h]
      · rw [feed_cons hdone hstep] at h
        rw [List.cons_append, feed_cons hdone hstep, ih h]

/-- **Below the limit, pieces that are not empty are fed as one list.** -/
theorem reads_eq_feed {limit : ℕ} {tooLarge : ε} {pieces : List (List α)} (hne : [] ∉ pieces)
    {total : ℕ} (hlimit : total + pieces.flatten.length ≤ limit) (s : σ) :
    m.reads limit tooLarge total s pieces = m.feed s pieces.flatten := by
  induction pieces generalizing total s with
  | nil => rfl
  | cons piece pieces ih =>
    rw [List.flatten_cons, List.length_append] at hlimit
    have nonempty : piece ≠ [] := fun h => hne (h ▸ List.mem_cons_self)
    cases hdone : m.done s with
    | true => rw [reads, if_pos hdone, feed_of_done hdone]
    | false =>
      rw [reads, hdone, if_neg Bool.false_ne_true, if_neg nonempty, if_neg (by omega),
        List.flatten_cons]
      rcases hfeed : m.feed s piece with e | s'
      · rw [feed_append_error hfeed]
      · rw [feed_append hfeed]
        exact ih (fun h => hne (List.mem_cons_of_mem _ h)) (by omega) s'

/-- **A decoder of each code is a decoder of the coded list**, as long as an invariant holds
between the codes. -/
theorem feed_flatMap {β : Type*} {n : Machine σ β ε} {code : β → List α} {Inv : σ → Prop}
    {bs : List β} (hdone : ∀ s, m.done s = n.done s)
    (hcode : ∀ b ∈ bs, ∀ s, Inv s → n.done s = false → m.feed s (code b) = n.step s b)
    (hinv : ∀ b ∈ bs, ∀ s s', Inv s → n.step s b = .ok s' → Inv s') {s : σ} (hs : Inv s) :
    m.feed s (bs.flatMap code) = n.feed s bs := by
  induction bs generalizing s with
  | nil => rfl
  | cons b bs ih =>
    cases hend : n.done s with
    | true => rw [feed_of_done hend, feed_of_done ((hdone s).trans hend)]
    | false =>
      have one := hcode b List.mem_cons_self s hs hend
      rw [List.flatMap_cons]
      rcases hstep : n.step s b with e | s'
      · rw [feed_append_error (one.trans hstep), feed_cons_error hend hstep]
      · rw [feed_append (one.trans hstep), feed_cons hend hstep]
        exact ih (fun b' hb' => hcode b' (List.mem_cons_of_mem _ hb'))
          (fun b' hb' => hinv b' (List.mem_cons_of_mem _ hb'))
          (hinv b List.mem_cons_self s s' hs hstep)

end Machine

end Feed
