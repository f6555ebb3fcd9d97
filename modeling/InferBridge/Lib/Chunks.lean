/-
InferBridge/Lib/Chunks.lean

Reading a stream chunk by chunk.

A reader turns what it holds and what arrives into output and a remainder
that it holds until more arrives.  It is `Resumable` if it makes the same of
`a ++ b` at once and of `b` behind the remainder of `a`.  What such a reader
gives out over all chunks depends on the whole stream only (`feed_eq`), and
so does a reader that passes its output on to another (`pipe_eq`).
-/
import Mathlib

namespace Chunks

variable {α β γ : Type*}

/-- Reading on from the remainder is reading everything at once. -/
structure Resumable (f : List α → List β × List α) : Prop where
  nil : f [] = ([], [])
  append : ∀ a b, f (a ++ b) = ((f a).1 ++ (f ((f a).2 ++ b)).1, (f ((f a).2 ++ b)).2)

/-- The output over all chunks, and the last remainder. -/
def feed (f : List α → List β × List α) : List α → List (List α) → List β × List α
  | held, [] => ([], held)
  | held, chunk :: chunks =>
    ((f (held ++ chunk)).1 ++ (feed f (f (held ++ chunk)).2 chunks).1,
      (feed f (f (held ++ chunk)).2 chunks).2)

namespace Resumable

variable {f : List α → List β × List α}

/-- A remainder alone gives nothing. -/
theorem held (hf : Resumable f) (a : List α) : f (f a).2 = ([], (f a).2) := by
  have happend := hf.append a []
  rw [List.append_nil, List.append_nil] at happend
  have hout : (f a).1 ++ [] = (f a).1 ++ (f (f a).2).1 := by
    rw [List.append_nil]
    exact congrArg Prod.fst happend
  have hrest := congrArg Prod.snd happend
  exact Prod.ext (List.append_cancel_left hout).symm hrest.symm

/-- **What the chunks give is what their text gives.** -/
theorem feed_eq (hf : Resumable f) (chunks : List (List α)) (held : List α)
    (hheld : f held = ([], held)) : feed f held chunks = f (held ++ chunks.flatten) := by
  induction chunks generalizing held with
  | nil =>
    rw [List.flatten_nil, List.append_nil, hheld]
    rfl
  | cons chunk chunks ih =>
    rw [List.flatten_cons, ← List.append_assoc, hf.append, ← ih _ (hf.held _)]
    rfl

theorem feed_nil (hf : Resumable f) (chunks : List (List α)) :
    feed f [] chunks = f chunks.flatten :=
  hf.feed_eq chunks [] hf.nil

end Resumable

/-! ### One reader behind another -/

/-- The two remainders and what the second reader gives out. -/
def pipe (f : List α → List β × List α) (g : List β → List γ × List β) :
    List α → List β → List (List α) → List γ × List α × List β
  | held, waiting, [] => ([], held, waiting)
  | held, waiting, chunk :: chunks =>
    let read := f (held ++ chunk)
    let made := g (waiting ++ read.1)
    let after := pipe f g read.2 made.2 chunks
    (made.1 ++ after.1, after.2)

variable {f : List α → List β × List α} {g : List β → List γ × List β}

theorem pipe_feed (hg : Resumable g) (chunks : List (List α)) (held : List α) (waiting : List β)
    (hwaiting : g waiting = ([], waiting)) :
    pipe f g held waiting chunks =
      ((g (waiting ++ (feed f held chunks).1)).1, (feed f held chunks).2,
        (g (waiting ++ (feed f held chunks).1)).2) := by
  induction chunks generalizing held waiting with
  | nil =>
    show ([], held, waiting) = ((g (waiting ++ [])).1, held, (g (waiting ++ [])).2)
    rw [List.append_nil, hwaiting]
  | cons chunk chunks ih =>
    have hrest := ih (f (held ++ chunk)).2 (g (waiting ++ (f (held ++ chunk)).1)).2 (hg.held _)
    have happend := hg.append (waiting ++ (f (held ++ chunk)).1)
      (feed f (f (held ++ chunk)).2 chunks).1
    rw [List.append_assoc] at happend
    show (_ ++ (pipe f g _ _ chunks).1, (pipe f g _ _ chunks).2) = _
    rw [hrest]
    show _ = ((g (waiting ++ ((f (held ++ chunk)).1 ++ _))).1, _,
      (g (waiting ++ ((f (held ++ chunk)).1 ++ _))).2)
    rw [happend]
    rfl

/-- **Two readers in a row depend on the whole stream only.** -/
theorem pipe_eq (hf : Resumable f) (hg : Resumable g) (chunks : List (List α)) :
    pipe f g [] [] chunks =
      ((g (f chunks.flatten).1).1, (f chunks.flatten).2, (g (f chunks.flatten).1).2) := by
  rw [pipe_feed hg chunks [] [] hg.nil, hf.feed_nil]
  rfl

end Chunks
