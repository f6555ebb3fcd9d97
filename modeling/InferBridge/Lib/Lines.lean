/-
InferBridge/Lib/Lines.lean

The lines of a text file, with either line break: `lf` alone, or `cr` before it.

`splitLines` turns each `cr` `lf` into one `lf` and cuts at these; the empty piece
behind the last break is no line.  `unlines` writes a break behind each line.
Splitting what was written gives the lines back: always where the break is the
long one (`splitLines_unlines_long`), and where it is the short one unless a line
ends with `cr` (`splitLines_unlines_short`); for such a line the short break reads
as a long one (`hasLong_unlines_short`).
-/
import InferBridge.Lib.Text

namespace Lines

variable {α : Type*} [DecidableEq α] (cr lf : α)

/-- Each long break becomes a short one. -/
def shorten : List α → List α
  | c :: d :: rest => if c = cr ∧ d = lf then lf :: shorten rest else c :: shorten (d :: rest)
  | t => t

/-- There is a long break. -/
def hasLong : List α → Bool
  | c :: d :: rest => (c = cr && d = lf) || hasLong (d :: rest)
  | _ => false

def splitLines (t : List α) : List (List α) :=
  let pieces := (shorten cr lf t).splitOn lf
  if pieces.getLast? = some [] then pieces.dropLast else pieces

/-- Each line with a break behind it. -/
def unlines (newline : List α) (lines : List (List α)) : List α :=
  lines.flatMap fun line => line ++ newline

variable {cr lf} {line : List α} {lines : List (List α)}

/-! ### Long breaks -/

theorem shorten_eq_self {t : List α} (h : hasLong cr lf t = false) : shorten cr lf t = t := by
  induction t with
  | nil => rfl
  | cons c rest ih =>
      cases rest with
      | nil => rfl
      | cons d rest =>
          rw [hasLong, Bool.or_eq_false_iff] at h
          have hpair : ¬(c = cr ∧ d = lf) := by simpa using h.1
          rw [shorten, if_neg hpair, ih h.2]

/-- A short break behind a line is a long one exactly if the line ends with `cr`. -/
theorem hasLong_line (hne : cr ≠ lf) (h : lf ∉ line) (rest : List α) :
    hasLong cr lf (line ++ lf :: rest) =
      (decide (line.getLast? = some cr) || hasLong cr lf rest) := by
  induction line with
  | nil =>
      cases rest with
      | nil => rfl
      | cons d rest =>
          show ((decide (lf = cr) && decide (d = lf)) || hasLong cr lf (d :: rest)) = _
          rw [decide_eq_false hne.symm]
          rfl
  | cons c l ih =>
      have hl : lf ∉ l := fun hmem => h (List.mem_cons_of_mem c hmem)
      cases l with
      | nil =>
          have hrest : hasLong cr lf (lf :: rest) = hasLong cr lf rest := by
            rw [← List.nil_append (lf :: rest), ih hl]
            rfl
          show ((decide (c = cr) && decide (lf = lf)) || hasLong cr lf (lf :: rest)) = _
          rw [hrest]
          simp
      | cons d l =>
          have hd : d ≠ lf := fun heq => hl (heq ▸ List.mem_cons_self)
          show ((decide (c = cr) && decide (d = lf)) || hasLong cr lf (d :: l ++ lf :: rest)) = _
          rw [ih hl, decide_eq_false hd, Bool.and_false, Bool.false_or, List.getLast?_cons_cons]

theorem hasLong_unlines_short (hne : cr ≠ lf) (h : ∀ line ∈ lines, lf ∉ line) :
    hasLong cr lf (unlines [lf] lines) = lines.any fun line => line.getLast? = some cr := by
  induction lines with
  | nil => rfl
  | cons line lines ih =>
      have htext : unlines [lf] (line :: lines) = line ++ lf :: unlines [lf] lines := by
        rw [unlines, List.flatMap_cons, List.append_assoc]
        rfl
      rw [htext, hasLong_line hne (h line List.mem_cons_self),
        ih fun l hl => h l (List.mem_cons_of_mem _ hl), List.any_cons]

theorem hasLong_append_right {t : List α} (s : List α) (h : hasLong cr lf t = true) :
    hasLong cr lf (s ++ t) = true := by
  induction s with
  | nil => exact h
  | cons c s ih =>
      rw [List.cons_append]
      cases hrest : s ++ t with
      | nil => rw [hrest] at ih; cases ih
      | cons d rest =>
          rw [hrest] at ih
          rw [hasLong, ih, Bool.or_true]

theorem hasLong_unlines_long (hlines : lines ≠ []) :
    hasLong cr lf (unlines [cr, lf] lines) = true := by
  obtain ⟨init, line, rfl⟩ := List.eq_nil_or_concat lines |>.resolve_left hlines
  rw [List.concat_eq_append, unlines, List.flatMap_append, List.flatMap_singleton,
    ← List.append_assoc]
  apply hasLong_append_right
  simp [hasLong]

theorem shorten_line (hne : cr ≠ lf) (h : lf ∉ line) (rest : List α) :
    shorten cr lf (line ++ cr :: lf :: rest) = line ++ lf :: shorten cr lf rest := by
  induction line with
  | nil => exact if_pos ⟨rfl, rfl⟩
  | cons c l ih =>
      have hl : lf ∉ l := fun hmem => h (List.mem_cons_of_mem c hmem)
      cases l with
      | nil =>
          show (if c = cr ∧ cr = lf then _ else _) = _
          rw [if_neg fun hpair : c = cr ∧ cr = lf => hne hpair.2]
          exact congrArg (c :: ·) (ih hl)
      | cons d l =>
          show (if c = cr ∧ d = lf then _ else _) = _
          rw [if_neg fun hpair : c = cr ∧ d = lf => hl (hpair.2 ▸ List.mem_cons_self)]
          exact congrArg (c :: ·) (ih hl)

/-- Shortening the long breaks of written lines writes them with short ones. -/
theorem shorten_unlines_long (hne : cr ≠ lf) (h : ∀ line ∈ lines, lf ∉ line) :
    shorten cr lf (unlines [cr, lf] lines) = unlines [lf] lines := by
  induction lines with
  | nil => rfl
  | cons line lines ih =>
      have htext : unlines [cr, lf] (line :: lines) =
          line ++ cr :: lf :: unlines [cr, lf] lines := by
        rw [unlines, List.flatMap_cons, List.append_assoc]
        rfl
      rw [htext, shorten_line hne (h line List.mem_cons_self),
        ih fun l hl => h l (List.mem_cons_of_mem _ hl), unlines, unlines, List.flatMap_cons,
        List.append_assoc]
      rfl

/-! ### Cutting -/

omit [DecidableEq α] in
/-- Breaks between the lines and one at the end are a break behind each line. -/
theorem intercalate_append (newline : List α) (hlines : lines ≠ []) :
    newline.intercalate lines ++ newline = unlines newline lines := by
  induction lines with
  | nil => exact absurd rfl hlines
  | cons line lines ih =>
      cases lines with
      | nil => simp [unlines, List.intercalate]
      | cons next lines =>
          have hrest := ih (List.cons_ne_nil next lines)
          rw [unlines, List.flatMap_cons, ← unlines, ← hrest, List.intercalate_cons_cons]
          simp

theorem splitOn_unlines (h : ∀ line ∈ lines, lf ∉ line) :
    (unlines [lf] lines).splitOn lf = lines ++ [[]] := by
  induction lines with
  | nil => rfl
  | cons line lines ih =>
      have htext : unlines [lf] (line :: lines) = line ++ lf :: unlines [lf] lines := by
        rw [unlines, List.flatMap_cons, List.append_assoc]
        rfl
      rw [htext, List.splitOn_append_cons_self_of_not_mem (h line List.mem_cons_self),
        ih fun l hl => h l (List.mem_cons_of_mem _ hl)]
      rfl

theorem splitLines_of_shorten {t : List α} (h : ∀ line ∈ lines, lf ∉ line)
    (ht : shorten cr lf t = unlines [lf] lines) : splitLines cr lf t = lines := by
  rw [splitLines, ht, splitOn_unlines h]
  simp

theorem splitLines_unlines_long (hne : cr ≠ lf) (h : ∀ line ∈ lines, lf ∉ line) :
    splitLines cr lf (unlines [cr, lf] lines) = lines :=
  splitLines_of_shorten h (shorten_unlines_long hne h)

theorem splitLines_unlines_short (hne : cr ≠ lf) (h : ∀ line ∈ lines, lf ∉ line)
    (hend : ∀ line ∈ lines, line.getLast? ≠ some cr) :
    splitLines cr lf (unlines [lf] lines) = lines := by
  apply splitLines_of_shorten h
  apply shorten_eq_self
  rw [hasLong_unlines_short hne h, List.any_eq_false]
  exact fun line hline => by simpa using hend line hline

theorem not_mem_of_mem_splitLines {t : List α} (h : line ∈ splitLines cr lf t) : lf ∉ line := by
  have hpiece : line ∈ (shorten cr lf t).splitOn lf := by
    unfold splitLines at h
    dsimp only at h
    split at h
    · exact List.mem_of_mem_dropLast h
    · exact h
  intro hmem
  have hother := (Text.mem_splitOnP (shorten cr lf t)).1 line hpiece lf hmem
  rw [beq_self_eq_true] at hother
  cases hother

theorem mem_of_mem_shorten {t : List α} {c : α} (h : c ∈ shorten cr lf t) : c ∈ t := by
  induction t using shorten.induct cr lf with
  | case1 a b rest hpair ih =>
      rw [shorten, if_pos hpair, List.mem_cons] at h
      rcases h with rfl | h
      · rw [hpair.2]
        exact List.mem_cons_of_mem _ List.mem_cons_self
      · exact List.mem_cons_of_mem _ (List.mem_cons_of_mem _ (ih h))
  | case2 a b rest hpair ih =>
      rw [shorten, if_neg hpair, List.mem_cons] at h
      rcases h with rfl | h
      · exact List.mem_cons_self
      · exact List.mem_cons_of_mem _ (ih h)
  | case3 t hshort => rwa [shorten.eq_2 cr lf t hshort] at h

theorem mem_of_mem_splitOn {t : List α} {c : α} (h : line ∈ t.splitOn lf) (hc : c ∈ line) :
    c ∈ t := by
  induction t generalizing line with
  | nil =>
      rw [List.splitOn_nil, List.mem_singleton] at h
      exact h ▸ hc
  | cons d t ih =>
      rw [List.splitOn_cons_eq_if_modifyHead] at h
      split at h
      · rcases List.mem_cons.mp h with rfl | h
        · cases hc
        · exact List.mem_cons_of_mem _ (ih h hc)
      · obtain ⟨first, others, hpieces⟩ := List.exists_cons_of_ne_nil (List.splitOn_ne_nil lf t)
        rw [hpieces, List.modifyHead_cons, List.mem_cons] at h
        rcases h with rfl | h
        · rcases List.mem_cons.mp hc with rfl | hc
          · exact List.mem_cons_self
          · exact List.mem_cons_of_mem _ (ih (hpieces ▸ List.mem_cons_self) hc)
        · exact List.mem_cons_of_mem _ (ih (hpieces ▸ List.mem_cons_of_mem _ h) hc)

/-- The lines hold nothing that the text does not. -/
theorem mem_of_mem_splitLines {t : List α} {c : α} (h : line ∈ splitLines cr lf t)
    (hc : c ∈ line) : c ∈ t := by
  have hpiece : line ∈ (shorten cr lf t).splitOn lf := by
    unfold splitLines at h
    dsimp only at h
    split at h
    · exact List.mem_of_mem_dropLast h
    · exact h
  exact mem_of_mem_shorten (mem_of_mem_splitOn hpiece hc)

theorem splitLines_ne_nil {t : List α} (h : t ≠ []) : splitLines cr lf t ≠ [] := by
  have hshort : shorten cr lf t ≠ [] := by
    rcases t with - | ⟨c, - | ⟨d, rest⟩⟩
    · exact absurd rfl h
    · exact List.cons_ne_nil c []
    · rw [shorten]
      split
      · exact List.cons_ne_nil _ _
      · exact List.cons_ne_nil _ _
  have hpieces : [lf].intercalate ((shorten cr lf t).splitOn lf) = shorten cr lf t :=
    List.intercalate_splitOn lf
  unfold splitLines
  dsimp only
  rcases hcase : (shorten cr lf t).splitOn lf with - | ⟨first, - | ⟨second, others⟩⟩
  · exact absurd hcase (List.splitOn_ne_nil lf _)
  · -- a single piece is all of the text
    rw [hcase, List.intercalate_singleton] at hpieces
    rw [if_neg]
    · exact List.cons_ne_nil _ _
    · intro hempty
      exact hshort (hpieces ▸ Option.some.inj hempty)
  · split
    · exact List.cons_ne_nil _ _
    · exact List.cons_ne_nil _ _

/-- What is written with short breaks and also with long ones has `cr` behind each line. -/
theorem getLast?_of_unlines_eq {lines' : List (List α)} (hne : cr ≠ lf)
    (h : ∀ line ∈ lines, lf ∉ line) (h' : ∀ line ∈ lines', lf ∉ line)
    (heq : unlines [lf] lines = unlines [cr, lf] lines') :
    ∀ line ∈ lines, line.getLast? = some cr := by
  have hlong : unlines [cr, lf] lines' = unlines [lf] (lines'.map fun line => line ++ [cr]) := by
    rw [unlines, unlines, List.flatMap_map]
    simp only [List.append_assoc, List.singleton_append]
  have hends : ∀ line ∈ lines'.map fun line => line ++ [cr], lf ∉ line := by
    intro line hline
    obtain ⟨l, hl, rfl⟩ := List.mem_map.mp hline
    rw [List.mem_append, List.mem_singleton, not_or]
    exact ⟨h' l hl, hne.symm⟩
  have hsplit : lines ++ [[]] = lines'.map (fun line => line ++ [cr]) ++ [[]] := by
    rw [← splitOn_unlines h, ← splitOn_unlines hends, heq, hlong]
  intro line hline
  rw [List.append_cancel_right hsplit] at hline
  obtain ⟨l, -, rfl⟩ := List.mem_map.mp hline
  exact List.getLast?_concat

end Lines
