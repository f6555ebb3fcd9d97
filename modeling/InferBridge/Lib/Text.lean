/-
InferBridge/Lib/Text.lean

Slices and whitespace of a text, over an arbitrary alphabet with a
predicate `space` and one distinguished symbol `blank`.

`squeeze` replaces every run of spaces by one blank and `strip` drops the
spaces at both ends; `normalize` is the composition, the usual whitespace
normalisation.  `Normal` describes its fixed points
(`normalize_eq_self_iff`), and the normal form of a text is empty exactly
when the text is all spaces (`normalize_eq_nil_iff`).
-/
import Mathlib

namespace Text

variable {α : Type*}

/-! ### Slices -/

/-- The slice `t[a:b]`. -/
def slice (t : List α) (a b : Nat) : List α := (t.take b).drop a

theorem mem_slice {t : List α} {a b : Nat} {c : α} :
    c ∈ slice t a b ↔ ∃ i, a ≤ i ∧ i < b ∧ t[i]? = some c := by
  constructor
  · intro h
    obtain ⟨k, hk⟩ := List.mem_iff_getElem?.mp h
    rw [slice, List.getElem?_drop, List.getElem?_take] at hk
    by_cases hb : a + k < b
    · rw [if_pos hb] at hk
      exact ⟨a + k, by omega, hb, hk⟩
    · simp [hb] at hk
  · rintro ⟨i, ha, hb, hi⟩
    refine List.mem_iff_getElem?.mpr ⟨i - a, ?_⟩
    rw [slice, List.getElem?_drop, List.getElem?_take, Nat.add_sub_cancel' ha, if_pos hb]
    exact hi

theorem mem_drop {t : List α} {a : Nat} {c : α} :
    c ∈ t.drop a ↔ ∃ i, a ≤ i ∧ t[i]? = some c := by
  constructor
  · intro h
    obtain ⟨k, hk⟩ := List.mem_iff_getElem?.mp h
    rw [List.getElem?_drop] at hk
    exact ⟨a + k, by omega, hk⟩
  · rintro ⟨i, ha, hi⟩
    refine List.mem_iff_getElem?.mpr ⟨i - a, ?_⟩
    rw [List.getElem?_drop, Nat.add_sub_cancel' ha]
    exact hi

/-! ### Whitespace -/

variable (space : α → Bool) (blank : α)

/-- Drop the spaces at both ends. -/
def strip (t : List α) : List α := (t.dropWhile space).rdropWhile space

/-- Replace each run of spaces by one blank; `inRun` says that the run was already
replaced. -/
def squeeze : Bool → List α → List α
  | _, [] => []
  | inRun, c :: t =>
    if space c then
      if inRun then squeeze true t else blank :: squeeze true t
    else c :: squeeze false t

/-- Squeeze the runs, then strip the ends. -/
def normalize (t : List α) : List α := strip space (squeeze space blank false t)

/-- The texts that normalisation leaves alone: no space at either end, every space is the
blank, and no two spaces stand next to each other. -/
structure Normal (t : List α) : Prop where
  head : ∀ h : t ≠ [], space (t.head h) = false
  last : ∀ h : t ≠ [], space (t.getLast h) = false
  blanks : ∀ c ∈ t, space c = true → c = blank
  runs : t.IsChain (fun a b => space a = true → space b = false)

variable {space} {blank}

theorem strip_eq_nil_iff {t : List α} : strip space t = [] ↔ ∀ c ∈ t, space c = true := by
  constructor
  · intro h
    rw [strip, List.rdropWhile_eq_nil_iff] at h
    intro c hc
    rw [← List.takeWhile_append_dropWhile (p := space) (l := t)] at hc
    rcases List.mem_append.mp hc with hrun | hrest
    · exact List.mem_takeWhile_imp hrun
    · exact h c hrest
  · intro h
    rw [strip, List.dropWhile_eq_nil_iff.mpr h]
    rfl

theorem strip_eq_self {t : List α} (hhead : ∀ h : t ≠ [], space (t.head h) = false)
    (hlast : ∀ h : t ≠ [], space (t.getLast h) = false) : strip space t = t := by
  have hdrop : t.dropWhile space = t := by
    cases t with
    | nil => rfl
    | cons c t => simp [show space c = false from hhead (by simp)]
  rw [strip, hdrop, List.rdropWhile_eq_self_iff]
  intro h
  simp [hlast h]

variable (space) in
theorem strip_isInfix (t : List α) : strip space t <:+: t := by
  obtain ⟨u, hu⟩ := List.rdropWhile_prefix space (t.dropWhile space)
  refine ⟨t.takeWhile space, u, ?_⟩
  rw [List.append_assoc]
  show t.takeWhile space ++ ((t.dropWhile space).rdropWhile space ++ u) = t
  rw [hu, List.takeWhile_append_dropWhile]

theorem mem_dropWhile {t : List α} {c : α} (h : c ∈ t) (hc : space c = false) :
    c ∈ t.dropWhile space := by
  rw [← List.takeWhile_append_dropWhile (p := space) (l := t)] at h
  rcases List.mem_append.mp h with hrun | hrest
  · have hspace := List.mem_takeWhile_imp hrun
    rw [hc] at hspace
    exact absurd hspace Bool.false_ne_true
  · exact hrest

/-- Only spaces are lost. -/
theorem mem_strip {t : List α} {c : α} (h : c ∈ t) (hc : space c = false) : c ∈ strip space t := by
  show c ∈ ((t.dropWhile space).reverse.dropWhile space).reverse
  apply List.mem_reverse.mpr
  apply mem_dropWhile _ hc
  apply List.mem_reverse.mpr
  exact mem_dropWhile h hc

theorem dropWhile_append_solid {a m : List α} (hm : ∀ h : m ≠ [], space (m.head h) = false)
    (hne : m ≠ []) : (a ++ m).dropWhile space = a.dropWhile space ++ m := by
  have hstop : m.dropWhile space = m := by
    obtain ⟨c, m, rfl⟩ := List.exists_cons_of_ne_nil hne
    have hc : space c = false := hm hne
    simp [hc]
  rw [List.dropWhile_append, hstop]
  split
  · next hempty => rw [List.isEmpty_iff.mp hempty, List.nil_append]
  · rfl

/-- Around a piece without spaces at its ends, each side is stripped alone. -/
theorem strip_append {a m b : List α} (hhead : ∀ h : m ≠ [], space (m.head h) = false)
    (hlast : ∀ h : m ≠ [], space (m.getLast h) = false) (hne : m ≠ []) :
    strip space (a ++ (m ++ b)) = a.dropWhile space ++ (m ++ b.rdropWhile space) := by
  have hfront : (a ++ (m ++ b)).dropWhile space = a.dropWhile space ++ (m ++ b) := by
    apply dropWhile_append_solid
    · intro h
      rw [List.head_append_of_ne_nil hne]
      exact hhead hne
    · exact List.append_ne_nil_of_left_ne_nil hne b
  have hback : b.reverse.dropWhile space ++ (a.dropWhile space ++ m).reverse =
      (b.reverse ++ (a.dropWhile space ++ m).reverse).dropWhile space := by
    rw [dropWhile_append_solid]
    · intro h
      rw [List.head_reverse, List.getLast_append_of_ne_nil _ hne]
      exact hlast hne
    · rw [ne_eq, List.reverse_eq_nil_iff]
      exact List.append_ne_nil_of_right_ne_nil _ hne
  show ((a ++ (m ++ b)).dropWhile space).rdropWhile space = _
  rw [hfront, ← List.append_assoc, ← List.append_assoc, List.rdropWhile, List.reverse_append,
    ← hback, List.reverse_append, List.reverse_reverse]
  rfl

theorem strip_last (t : List α) (h : strip space t ≠ []) :
    space ((strip space t).getLast h) = false := by
  have hlast := List.rdropWhile_last_not space (t.dropWhile space) h
  simpa [strip] using hlast

theorem strip_head (t : List α) (h : strip space t ≠ []) :
    space ((strip space t).head h) = false := by
  obtain ⟨u, hu⟩ := List.rdropWhile_prefix space (t.dropWhile space)
  have hne : t.dropWhile space ≠ [] := by
    intro hnil
    exact h (by simp [strip, hnil])
  have hhead : (strip space t).head h = (t.dropWhile space).head hne := by
    rw [← Option.some_inj, ← List.head?_eq_some_head, ← List.head?_eq_some_head, ← hu]
    exact (List.head?_append_of_ne_nil _ h).symm
  rw [hhead]
  simpa using List.head_dropWhile_not space hne

theorem strip_strip (t : List α) : strip space (strip space t) = strip space t :=
  strip_eq_self (strip_head t) (strip_last t)

/-- **A stripped text that is cut** has to be stripped again exactly if the cut is behind a
space. -/
theorem strip_take_iff {t : List α} (ht : strip space t = t) {n : Nat} (hn : 0 < n) :
    strip space (t.take n) = t.take n ↔
      ¬ (n < t.length ∧ ∃ c, t[n - 1]? = some c ∧ space c = true) := by
  by_cases hlong : n < t.length
  · have hlength : (t.take n).length = n := List.length_take_of_le hlong.le
    have hcut : t.take n ≠ [] := by
      intro hnil
      rw [hnil] at hlength
      exact hn.ne hlength
    have hlast : (t.take n).getLast hcut = t[n - 1] := by
      rw [List.getLast_eq_getElem]
      simp only [hlength, List.getElem_take]
    have hchar : t[n - 1]? = some t[n - 1] := List.getElem?_eq_getElem _
    constructor
    · rintro hstrip ⟨-, c, hc, hspace⟩
      have hsolid := @strip_last _ space (t.take n) (by rwa [hstrip])
      obtain rfl : t[n - 1] = c := by simpa [hchar] using hc
      simp only [hstrip, hlast, hspace] at hsolid
      cases hsolid
    · intro hsolid
      apply strip_eq_self
      · intro _
        rw [List.head_take]
        have hne : strip space t ≠ [] := by
          rw [ht]
          exact List.ne_nil_of_length_pos (by omega)
        have hhead := strip_head t hne
        simpa only [ht] using hhead
      · intro _
        rw [hlast]
        by_contra hspace
        exact hsolid ⟨hlong, _, hchar, by simpa using hspace⟩
  · rw [List.take_of_length_le (Nat.le_of_not_lt hlong)]
    exact ⟨fun _ h => hlong h.1, fun _ => ht⟩

/-- What `strip` takes away. -/
theorem eq_padded_strip (t : List α) : ∃ before after, (∀ c ∈ before, space c = true) ∧
    (∀ c ∈ after, space c = true) ∧ t = before ++ (strip space t ++ after) := by
  refine ⟨t.takeWhile space, (t.dropWhile space).rtakeWhile space, ?_, ?_, ?_⟩
  · exact fun c hc => List.mem_takeWhile_imp hc
  · exact fun c hc => List.mem_rtakeWhile_imp hc
  · rw [strip, List.rdropWhile_append_rtakeWhile, List.takeWhile_append_dropWhile]

/-- Spaces around a text do not matter. -/
theorem strip_padded {before m after : List α} (hbefore : ∀ c ∈ before, space c = true)
    (hafter : ∀ c ∈ after, space c = true) :
    strip space (before ++ (m ++ after)) = strip space m := by
  have hfront : (before ++ (m ++ after)).dropWhile space = (m ++ after).dropWhile space := by
    rw [List.dropWhile_append, List.dropWhile_eq_nil_iff.mpr hbefore]
    rfl
  have hback : after.reverse.dropWhile space = [] :=
    List.dropWhile_eq_nil_iff.mpr fun c hc => hafter c (List.mem_reverse.mp hc)
  rw [strip, hfront, strip, List.dropWhile_append]
  split
  · next hempty =>
    rw [List.isEmpty_iff.mp hempty, List.rdropWhile_nil]
    exact List.rdropWhile_eq_nil_iff.mpr fun c hc =>
      hafter c ((List.dropWhile_sublist space).subset hc)
  · rw [List.rdropWhile, List.rdropWhile, List.reverse_append, List.dropWhile_append, hback]
    rfl

/-! ### Squeezed texts -/

theorem mem_squeeze {t : List α} {inRun : Bool} {c : α} (h : c ∈ squeeze space blank inRun t) :
    space c = true → c = blank := by
  induction t generalizing inRun with
  | nil => simp [squeeze] at h
  | cons d t ih =>
    cases hd : space d with
    | false =>
      simp only [squeeze, hd, Bool.false_eq_true, if_false, List.mem_cons] at h
      rcases h with rfl | hmem
      · intro hc
        simp [hd] at hc
      · exact ih hmem
    | true =>
      cases inRun with
      | true =>
        simp only [squeeze, hd, if_true] at h
        exact ih h
      | false =>
        simp only [squeeze, hd, if_true, Bool.false_eq_true, if_false, List.mem_cons] at h
        rcases h with rfl | hmem
        · exact fun _ => rfl
        · exact ih hmem

theorem eq_or_mem_of_mem_squeeze {t : List α} {inRun : Bool} {c : α}
    (h : c ∈ squeeze space blank inRun t) : c = blank ∨ c ∈ t := by
  induction t generalizing inRun with
  | nil => cases h
  | cons d t ih =>
    have hrest : ∀ {run}, c ∈ squeeze space blank run t → c = blank ∨ c ∈ d :: t :=
      fun hmem => (ih hmem).imp_right (List.mem_cons_of_mem d)
    cases hd : space d with
    | false =>
      simp only [squeeze, hd, Bool.false_eq_true, if_false, List.mem_cons] at h
      rcases h with rfl | hmem
      · exact .inr List.mem_cons_self
      · exact hrest hmem
    | true =>
      cases inRun with
      | true =>
        simp only [squeeze, hd, if_true] at h
        exact hrest h
      | false =>
        simp only [squeeze, hd, if_true, Bool.false_eq_true, if_false, List.mem_cons] at h
        rcases h with rfl | hmem
        · exact .inl rfl
        · exact hrest hmem

/-- After a blank the squeezed rest does not begin with a space. -/
theorem squeeze_true_head {t : List α} :
    ∀ c ∈ (squeeze space blank true t).head?, space c = false := by
  induction t with
  | nil => simp [squeeze]
  | cons d t ih =>
    cases hd : space d with
    | false => simp [squeeze, hd]
    | true => simpa [squeeze, hd] using ih

variable (space blank) in
theorem squeeze_runs (t : List α) (inRun : Bool) :
    (squeeze space blank inRun t).IsChain (fun a b => space a = true → space b = false) := by
  induction t generalizing inRun with
  | nil => simp [squeeze]
  | cons d t ih =>
    cases hd : space d with
    | false =>
      simp only [squeeze, hd, Bool.false_eq_true, if_false]
      refine (ih false).cons ?_
      intro b _ hspace
      simp [hd] at hspace
    | true =>
      cases inRun with
      | true => simpa [squeeze, hd] using ih true
      | false =>
        simp only [squeeze, hd, if_true, Bool.false_eq_true, if_false]
        exact (ih true).cons fun b hb _ => squeeze_true_head b hb

theorem squeeze_true_spaces {t : List α} :
    (∀ c ∈ squeeze space blank true t, space c = true) ↔ ∀ c ∈ t, space c = true := by
  induction t with
  | nil => simp [squeeze]
  | cons d t ih =>
    cases hd : space d with
    | false => simp [squeeze, hd]
    | true => simpa [squeeze, hd] using ih

theorem squeeze_spaces {t : List α} (hblank : space blank = true) :
    (∀ c ∈ squeeze space blank false t, space c = true) ↔ ∀ c ∈ t, space c = true := by
  cases t with
  | nil => simp [squeeze]
  | cons d t =>
    cases hd : space d with
    | false => simp [squeeze, hd]
    | true => simpa [squeeze, hd, hblank] using squeeze_true_spaces

theorem squeeze_eq_self {t : List α} {inRun : Bool}
    (hrun : inRun = true → ∀ c ∈ t.head?, space c = false)
    (hblanks : ∀ c ∈ t, space c = true → c = blank)
    (hruns : t.IsChain (fun a b => space a = true → space b = false)) :
    squeeze space blank inRun t = t := by
  induction t generalizing inRun with
  | nil => simp [squeeze]
  | cons d t ih =>
    have htail : ∀ c ∈ t, space c = true → c = blank := fun c hc => hblanks c (by simp [hc])
    cases hd : space d with
    | false =>
      simp only [squeeze, hd, Bool.false_eq_true, if_false]
      rw [ih (by simp) htail hruns.tail]
    | true =>
      have hinRun : inRun = false := by
        cases inRun with
        | false => rfl
        | true =>
          have hfalse := hrun rfl d (by simp)
          simp [hd] at hfalse
      have hblank : blank = d := (hblanks d (by simp) hd).symm
      subst hinRun
      simp only [squeeze, hd, if_true, Bool.false_eq_true, if_false]
      rw [ih (fun _ c hc => hruns.rel_head? hc hd) htail hruns.tail, hblank]

/-! ### Normal texts -/

theorem normal_normalize (t : List α) : Normal space blank (normalize space blank t) where
  head := strip_head _
  last := strip_last _
  blanks := fun _ hc => mem_squeeze ((strip_isInfix space _).subset hc)
  runs := by
    obtain ⟨before, after, heq⟩ := strip_isInfix space (squeeze space blank false t)
    have hruns := squeeze_runs space blank t false
    rw [← heq] at hruns
    exact hruns.left_of_append.right_of_append

/-- **Fixed points of normalisation.** -/
theorem normalize_eq_self_iff {t : List α} :
    normalize space blank t = t ↔ Normal space blank t := by
  constructor
  · intro h
    rw [← h]
    exact normal_normalize t
  · intro h
    rw [normalize, squeeze_eq_self (by simp) h.blanks h.runs, strip_eq_self h.head h.last]

theorem normalize_eq_nil_iff {t : List α} (hblank : space blank = true) :
    normalize space blank t = [] ↔ ∀ c ∈ t, space c = true := by
  rw [normalize, strip_eq_nil_iff, squeeze_spaces hblank]

/-! ### Between separators -/

/-- The pieces between separators hold no separator, and they are all empty exactly where
there is nothing else. -/
theorem mem_splitOnP {p : α → Bool} (t : List α) :
    (∀ piece ∈ t.splitOnP p, ∀ c ∈ piece, p c = false) ∧
      ((∀ piece ∈ t.splitOnP p, piece = []) → ∀ c ∈ t, p c = true) := by
  induction t with
  | nil => simp
  | cons c t ih =>
    obtain ⟨hpieces, hempty⟩ := ih
    rw [List.splitOnP_cons_eq_if_modifyHead]
    by_cases hc : p c = true
    · rw [if_pos hc]
      refine ⟨?_, ?_⟩
      · intro piece hpiece
        rcases List.mem_cons.mp hpiece with rfl | hpiece
        · simp
        · exact hpieces piece hpiece
      · intro hall d hd
        rcases List.mem_cons.mp hd with rfl | hd
        · exact hc
        · exact hempty (fun piece hpiece => hall piece (List.mem_cons_of_mem _ hpiece)) d hd
    · rw [if_neg hc]
      rcases hsplit : t.splitOnP p with - | ⟨first, others⟩
      · exact absurd hsplit (List.splitOnP_ne_nil p t)
      · rw [hsplit] at hpieces
        refine ⟨?_, ?_⟩
        · intro piece hpiece d hd
          rcases List.mem_cons.mp hpiece with rfl | hpiece
          · rcases List.mem_cons.mp hd with rfl | hd
            · simpa using hc
            · exact hpieces first List.mem_cons_self d hd
          · exact hpieces piece (List.mem_cons_of_mem _ hpiece) d hd
        · intro hall
          have hcons := hall (c :: first) List.mem_cons_self
          cases hcons

/-- What is put behind a text goes to the last piece. -/
theorem splitOnP_append_of_forall {p : α → Bool} {after : List α} (h : ∀ c ∈ after, ¬ p c = true)
    (t : List α) : ∃ pieces piece, t.splitOnP p = pieces ++ [piece] ∧
      (t ++ after).splitOnP p = pieces ++ [piece ++ after] := by
  induction t with
  | nil =>
    refine ⟨[], [], by simp, ?_⟩
    rw [List.nil_append, List.splitOnP_eq_singleton fun c hc => by simpa using h c hc]
    rfl
  | cons c t ih =>
    obtain ⟨pieces, piece, ht, hafter⟩ := ih
    rw [List.cons_append, List.splitOnP_cons_eq_if_modifyHead,
      List.splitOnP_cons_eq_if_modifyHead, ht, hafter]
    split
    · exact ⟨[] :: pieces, piece, rfl, rfl⟩
    · rcases pieces with - | ⟨first, pieces⟩
      · exact ⟨[], c :: piece, rfl, rfl⟩
      · exact ⟨(c :: first) :: pieces, piece, rfl, rfl⟩

/-- Each piece can be stripped instead of the whole text as well, where no separator is a
space. -/
theorem map_strip_splitOnP {p : α → Bool} (hsep : ∀ c, space c = true → ¬ p c = true)
    (t : List α) : ((strip space t).splitOnP p).map (strip space) =
      (t.splitOnP p).map (strip space) := by
  have hfront (before m : List α) (h : ∀ c ∈ before, space c = true) :
      ((before ++ m).splitOnP p).map (strip space) = (m.splitOnP p).map (strip space) := by
    induction before with
    | nil => rfl
    | cons c before ih =>
      have hc : space c = true := h c List.mem_cons_self
      rw [← ih fun d hd => h d (List.mem_cons_of_mem _ hd), List.cons_append,
        List.splitOnP_cons_eq_if_modifyHead, if_neg (hsep c hc)]
      rcases hsplit : (before ++ m).splitOnP p with - | ⟨first, others⟩
      · exact absurd hsplit (List.splitOnP_ne_nil p _)
      · have hfirst : strip space ([c] ++ (first ++ [])) = strip space first := by
          apply strip_padded
          · simpa using hc
          · simp
        rw [List.append_nil] at hfirst
        show strip space ([c] ++ first) :: _ = strip space first :: _
        rw [hfirst]
  have hback (m after : List α) (h : ∀ c ∈ after, space c = true) :
      ((m ++ after).splitOnP p).map (strip space) = (m.splitOnP p).map (strip space) := by
    obtain ⟨pieces, piece, hm, hafter⟩ := splitOnP_append_of_forall (fun c hc => hsep c (h c hc)) m
    have hpiece : strip space ([] ++ (piece ++ after)) = strip space piece := by
      apply strip_padded
      · simp
      · exact h
    rw [List.nil_append] at hpiece
    rw [hm, hafter, List.map_append, List.map_append, List.map_singleton, List.map_singleton,
      hpiece]
  obtain ⟨before, after, hbefore, hafter, heq⟩ := eq_padded_strip t
  conv_rhs => rw [heq]
  rw [hfront before _ hbefore, hback _ after hafter]

end Text
