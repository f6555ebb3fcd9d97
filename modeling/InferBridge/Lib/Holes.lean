/-
InferBridge/Lib/Holes.lean

What a replacement makes of texts that differ in one place.

A text is `u`, then one of several fillings of the hole, then `s`.  In front
of the hole a preferred match either ends before the hole, the same one for
every filling, or takes the filling with it (`Settled`).  If that holds at
every place of `u` and a match takes the filling from its first symbol on,
then the replacement does not show which filling it was
(`replaceAll_settled`).

A symbol that no match takes divides a substitution (`substitute_divide`).
Here the pattern may look at the symbol, so that word boundaries are allowed.
-/
import InferBridge.Lib.Pattern

variable {α : Type*}

namespace Pattern

variable {p : α → Bool} {a b : Pattern α} {before : Option α} {t u v s : List α}

/-! ### Needed symbols -/

/-- Every match takes a symbol with `q`. -/
def takes (q : α → Bool) : Pattern α → Prop
  | .symbol p => ∀ c, p c = true → q c = true
  | .seq a b => a.takes q ∨ b.takes q
  | .alt a b => a.takes q ∧ b.takes q
  | .group a => a.takes q
  | _ => False

theorem found_nil_of_takes {q : α → Bool} (ha : a.takes q) (ht : ∀ c ∈ t, q c = false) :
    a.found before t = [] := by
  apply List.eq_nil_iff_forall_not_mem.mpr
  intro m hm
  induction a generalizing before t m with
  | symbol p =>
    obtain ⟨c, hc, hsplit, -⟩ := mem_symbol.mp hm
    have hno := ht c (by rw [hsplit]; exact List.mem_cons_self)
    rw [ha c hc] at hno
    cases hno
  | seq a b iha ihb =>
    obtain ⟨m₁, h₁, m₂, h₂, -⟩ := mem_seq.mp hm
    rcases ha with ha | hb
    · exact iha ha ht m₁ h₁
    · have hrest : ∀ c ∈ m₁.rest, q c = false := by
        intro c hc
        apply ht
        rw [← taken_append_rest h₁]
        exact List.mem_append_right _ hc
      exact ihb hb hrest m₂ h₂
  | alt a b iha ihb =>
    rcases mem_alt.mp hm with hm | hm
    · exact iha ha.1 ht m hm
    · exact ihb ha.2 ht m hm
  | group a ih =>
    obtain ⟨m₁, h₁, -⟩ := mem_group.mp hm
    exact ih ha ht m₁ h₁
  | _ => cases ha

/-! ### Words in front of a hole -/

/-- A word that no ending of `ps` begins is not found across the border. -/
theorem local_symbols {ps : List (α → Bool)} {w : List α}
    (h : ∀ i < ps.length, 0 < i → differs (ps.drop i) w = true) (hu : u ≠ []) (x : List α) :
    Local (symbols ps) u (w ++ x) := by
  induction ps generalizing u with
  | nil => exact fun before => rfl
  | cons p ps ih =>
    obtain ⟨c, u, rfl⟩ := List.exists_cons_of_ne_nil hu
    have hrest : Local (symbols ps) u (w ++ x) := by
      by_cases hu : u = []
      · subst hu
        cases ps with
        | nil => exact fun before => rfl
        | cons q ps =>
          have hdiffers : differs (q :: ps) w = true := h 1 (by simp) Nat.one_pos
          intro before
          rw [List.nil_append, found_symbols_of_differs hdiffers]
          rfl
      · apply ih _ hu
        intro i hi hpos
        exact h (i + 1) (Nat.succ_lt_succ hi) (Nat.succ_pos i)
    apply local_seq
    · intro before
      rw [List.cons_append, found_symbol_cons, found_symbol_cons]
      split <;> rfl
    · intro before m hm
      obtain ⟨d, -, ht, -⟩ := mem_symbol.mp hm
      obtain ⟨-, hu⟩ := List.cons.inj ht
      rw [← hu]
      exact hrest

/-- A word that begins in `u` ends in front of `n` if none of its endings goes on over `n`. -/
theorem rest_of_symbols {ps : List (α → Bool)} {k w : List α} {n : α} {m : Match α}
    (h : ∀ i < ps.length, 0 < i →
      differs (ps.drop i) (k ++ [n]) = true ∨ (ps.drop i).length ≤ k.length)
    (hu : u ≠ []) (hm : m ∈ (symbols ps).found before (u ++ (k ++ n :: w))) :
    ∃ v, m.rest = v ++ n :: w := by
  induction ps generalizing u before m with
  | nil =>
    obtain rfl := mem_empty.mp hm
    exact ⟨u ++ k, (List.append_assoc u k (n :: w)).symm⟩
  | cons p ps ih =>
    obtain ⟨c, u, rfl⟩ := List.exists_cons_of_ne_nil hu
    obtain ⟨m₁, h₁, m₂, h₂, rfl⟩ := mem_seq.mp hm
    obtain ⟨d, -, ht, -⟩ := mem_symbol.mp h₁
    obtain ⟨-, hrest⟩ := List.cons.inj ht
    rw [← hrest] at h₂
    show ∃ v, m₂.rest = v ++ n :: w
    by_cases hu : u = []
    · subst hu
      replace h₂ : m₂ ∈ (symbols ps).found (m₁.taken.getLast?.or before) (k ++ n :: w) := h₂
      cases ps with
      | nil =>
        obtain rfl := mem_empty.mp h₂
        exact ⟨k, rfl⟩
      | cons q ps =>
        rcases h 1 (by simp) Nat.one_pos with hdiffers | hlength
        · replace hdiffers : differs (q :: ps) (k ++ [n]) = true := hdiffers
          have hsplit : k ++ n :: w = (k ++ [n]) ++ w := by simp
          rw [hsplit, found_symbols_of_differs hdiffers] at h₂
          cases h₂
        · -- what is left of the word ends before `n`
          have htaken := (of_mem_symbols h₂).1.length_eq
          have hwhole := taken_append_rest h₂
          have hle : m₂.taken.length ≤ k.length := htaken.trans_le hlength
          refine ⟨k.drop m₂.taken.length, ?_⟩
          have hdrop := congrArg (List.drop m₂.taken.length) hwhole
          rw [List.drop_left, List.drop_append_of_le_length hle] at hdrop
          exact hdrop
    · apply ih _ hu h₂
      intro i hi hpos
      exact h (i + 1) (Nat.succ_lt_succ hi) (Nat.succ_pos i)

/-! ### Settled matches -/

/-- The preferred match in front of `v` takes what fills the hole. -/
def Through (a : Pattern α) (v : List α) (filling : List α → Prop) (s : List α) : Prop :=
  ∃ e, e <+: s ∧ ∀ x, filling x → ∀ before,
    (a.found before (v ++ (x ++ s))).head?.map Match.taken = some (v ++ (x ++ e))

/-- The preferred match in front of `v` ends before the hole, or takes what fills it. -/
def Settled (a : Pattern α) (v : List α) (filling : List α → Prop) (s : List α) : Prop :=
  (∃ taken : Option (List α), (∀ w ∈ taken, w.length ≤ v.length) ∧ ∀ x, filling x → ∀ before,
    (a.found before (v ++ (x ++ s))).head?.map Match.taken = taken) ∨ Through a v filling s

variable {filling : List α → Prop}

theorem Through.mono {filling' : List α → Prop} (h : Through a v filling s)
    (hfilling : ∀ x, filling' x → filling x) : Through a v filling' s := by
  obtain ⟨e, he, h⟩ := h
  exact ⟨e, he, fun x hx => h x (hfilling x hx)⟩

theorem through_alt_left (h : Through a v filling s) : Through (.alt a b) v filling s := by
  obtain ⟨e, he, h⟩ := h
  refine ⟨e, he, fun x hx before => ?_⟩
  obtain ⟨m, hm, htaken⟩ := Option.map_eq_some_iff.mp (h x hx before)
  rw [head_alt_left hm, ← htaken]
  rfl

theorem through_alt_right (ha : ∀ x, filling x → ∀ before, a.found before (v ++ (x ++ s)) = [])
    (h : Through b v filling s) : Through (.alt a b) v filling s := by
  obtain ⟨e, he, h⟩ := h
  refine ⟨e, he, fun x hx before => ?_⟩
  rw [found_alt, ha x hx, List.nil_append]
  exact h x hx before

/-- A first part that takes `w` and a second part that takes the filling behind it. -/
theorem through_seq {w : List α} (ha : ∀ x, filling x → ∀ before,
      (a.found before (w ++ (x ++ s))).head? = some ⟨w, [], x ++ s⟩)
    (hb : Through b [] filling s) :
    Through (.seq a b) [] (fun y => ∃ x, filling x ∧ y = w ++ x) s := by
  obtain ⟨e, he, hb⟩ := hb
  refine ⟨e, he, ?_⟩
  rintro y ⟨x, hx, rfl⟩ before
  obtain ⟨m, hm, htaken⟩ := Option.map_eq_some_iff.mp (hb x hx (w.getLast?.or before))
  rw [List.nil_append, List.append_assoc, head_seq (ha x hx before) hm]
  show some (w ++ m.taken) = _
  rw [htaken, List.nil_append, List.append_assoc]
  rfl

theorem settled_alt (ha : Settled a v filling s) (hb : Settled b v filling s) :
    Settled (.alt a b) v filling s := by
  have hhead (before : Option α) (t : List α) :
      ((alt a b).found before t).head?.map Match.taken =
        ((a.found before t).head?.map Match.taken).or ((b.found before t).head?.map Match.taken) := by
    rw [found_alt, List.head?_append]
    cases (a.found before t).head? <;> rfl
  rcases ha with ⟨_ | w, hlength, ha⟩ | ⟨e, he, ha⟩
  · rcases hb with ⟨taken, hlength, hb⟩ | ⟨e, he, hb⟩
    · refine .inl ⟨taken, hlength, fun x hx before => ?_⟩
      rw [hhead, ha x hx, hb x hx]
      rfl
    · refine .inr ⟨e, he, fun x hx before => ?_⟩
      rw [hhead, ha x hx, hb x hx]
      rfl
  · refine .inl ⟨some w, hlength, fun x hx before => ?_⟩
    rw [hhead, ha x hx]
    rfl
  · refine .inr ⟨e, he, fun x hx before => ?_⟩
    rw [hhead, ha x hx]
    rfl

/-- The matches of a sequence that go on from the matches of its first part. -/
def continued (b : Pattern α) (before : Option α) (found : List (Match α)) : List (Match α) :=
  found.flatMap fun m => (b.found (m.taken.getLast?.or before) m.rest).map fun n =>
    ⟨m.taken ++ n.taken, m.groups ++ n.groups, n.rest⟩

theorem head_continued (b : Pattern α) (before : Option α) (m : Match α) (found : List (Match α)) :
    (continued b before (m :: found)).head?.map Match.taken =
      (((b.found (m.taken.getLast?.or before) m.rest).head?.map Match.taken).map
        (m.taken ++ ·)).or ((continued b before found).head?.map Match.taken) := by
  show Option.map _ ((List.map _ (b.found _ m.rest)) ++ continued b before found).head? = _
  rw [List.head?_append, List.head?_map]
  cases (b.found (m.taken.getLast?.or before) m.rest).head? <;> rfl

/-- The first match of the first part after which the second part is found decides. -/
theorem settled_continued {found : List (Match α)} (hsplit : ∀ m ∈ found, m.taken ++ m.rest = v)
    (hb : ∀ m ∈ found, Settled b m.rest filling s) :
    (∃ taken : Option (List α), (∀ w ∈ taken, w.length ≤ v.length) ∧ ∀ x, filling x → ∀ before,
      (continued b before (found.map (extend (x ++ s)))).head?.map Match.taken = taken) ∨
    ∃ e, e <+: s ∧ ∀ x, filling x → ∀ before,
      (continued b before (found.map (extend (x ++ s)))).head?.map Match.taken =
        some (v ++ (x ++ e)) := by
  induction found with
  | nil => exact .inl ⟨none, by simp, fun x hx before => rfl⟩
  | cons m found ih =>
    have hm := hsplit m List.mem_cons_self
    have hhead (x : List α) (before : Option α) :=
      head_continued b before (extend (x ++ s) m) (found.map (extend (x ++ s)))
    rcases hb m List.mem_cons_self with ⟨_ | w, hlength, hm'⟩ | ⟨e, he, hm'⟩
    · rcases ih (fun m hm => hsplit m (List.mem_cons_of_mem _ hm))
        (fun m hm => hb m (List.mem_cons_of_mem _ hm)) with
        ⟨taken, hlength, hrest⟩ | ⟨e, he, hrest⟩
      · refine .inl ⟨taken, hlength, fun x hx before => ?_⟩
        rw [List.map_cons, hhead, hrest x hx]
        show ((Option.map _ (b.found _ (m.rest ++ (x ++ s))).head?).map _).or _ = _
        rw [hm' x hx]
        rfl
      · refine .inr ⟨e, he, fun x hx before => ?_⟩
        rw [List.map_cons, hhead, hrest x hx]
        show ((Option.map _ (b.found _ (m.rest ++ (x ++ s))).head?).map _).or _ = _
        rw [hm' x hx]
        rfl
    · refine .inl ⟨some (m.taken ++ w), ?_, fun x hx before => ?_⟩
      · intro w' hw'
        obtain rfl := Option.some.inj hw'
        have hw := hlength w rfl
        rw [← hm, List.length_append, List.length_append]
        exact Nat.add_le_add_left hw _
      · rw [List.map_cons, hhead]
        show ((Option.map _ (b.found _ (m.rest ++ (x ++ s))).head?).map _).or _ = _
        rw [hm' x hx]
        rfl
    · refine .inr ⟨e, he, fun x hx before => ?_⟩
      rw [List.map_cons, hhead]
      show ((Option.map _ (b.found _ (m.rest ++ (x ++ s))).head?).map _).or _ = _
      rw [hm' x hx]
      show some (m.taken ++ (m.rest ++ (x ++ e))) = _
      rw [← List.append_assoc, hm]

/-- A first part that stops before the hole. -/
theorem settled_seq (hblind : a.blind = true) (ha : ∀ x, filling x → Local a v (x ++ s))
    (hb : ∀ m ∈ a.found none v, Settled b m.rest filling s) :
    Settled (.seq a b) v filling s := by
  have hfound (x : List α) (hx : filling x) (before : Option α) :
      (seq a b).found before (v ++ (x ++ s)) =
        continued b before ((a.found none v).map (extend (x ++ s))) := by
    rw [← found_of_blind hblind before none, ← ha x hx before]
    rfl
  have hsplit : ∀ m ∈ a.found none v, m.taken ++ m.rest = v := fun m hm => taken_append_rest hm
  rcases settled_continued hsplit hb with ⟨taken, hlength, hlist⟩ | ⟨e, he, hlist⟩
  · refine .inl ⟨taken, hlength, fun x hx before => ?_⟩
    rw [hfound x hx]
    exact hlist x hx before
  · refine .inr ⟨e, he, fun x hx before => ?_⟩
    rw [hfound x hx]
    exact hlist x hx before

/-! ### Runs -/

/-- The pattern takes all symbols with `p` that stand in front, if they are `n` or more. -/
def IsRun (a : Pattern α) (p : α → Bool) (n : Nat) : Prop :=
  ∀ before t, (a.found before t).head?.map Match.taken =
    if n ≤ (t.takeWhile p).length then some (t.takeWhile p) else none

theorem isRun_many1 : IsRun (many1 p) p 1 := by
  intro before t
  cases t with
  | nil => rfl
  | cons c t =>
    by_cases hc : p c = true
    · rw [head_many1 hc, List.takeWhile_cons_of_pos hc, if_pos (by simp)]
      rfl
    · rw [many1, found_seq, found_symbol_cons, if_neg hc, List.takeWhile_cons_of_neg hc]
      rfl

theorem isRun_atLeast (n : Nat) :
    IsRun (.seq (symbols (List.replicate n p)) (.many p)) p n := by
  intro before t
  by_cases hn : n ≤ (t.takeWhile p).length
  · rw [if_pos hn]
    -- the first `n` symbols, then all that follow
    have hall : ∀ c ∈ t.takeWhile p, p c = true := fun c hc => List.mem_takeWhile_imp hc
    have hfirst : List.Forall₂ (fun c p => p c = true) ((t.takeWhile p).take n)
        (List.replicate n p) := by
      rw [List.forall₂_iff_get]
      refine ⟨by simp [hn], ?_⟩
      intro i hi hi'
      simp only [List.get_eq_getElem, List.getElem_replicate]
      exact hall _ (List.mem_of_mem_take (List.getElem_mem hi))
    have hsplit : t = (t.takeWhile p).take n ++ ((t.takeWhile p).drop n ++ t.dropWhile p) := by
      rw [← List.append_assoc, List.take_append_drop, List.takeWhile_append_dropWhile]
    have hmany (before : Option α) : ((many p).found before
        ((t.takeWhile p).drop n ++ t.dropWhile p)).head? =
          some ⟨(t.takeWhile p).drop n, [], t.dropWhile p⟩ := by
      have hdrop : ∀ c ∈ (t.takeWhile p).drop n, p c = true :=
        fun c hc => hall c (List.mem_of_mem_drop hc)
      have htake : (t.dropWhile p).takeWhile p = [] := by
        cases hd : t.dropWhile p with
        | nil => rfl
        | cons d _ =>
          have hnot := List.head?_dropWhile_not p t
          rw [hd] at hnot
          rw [List.takeWhile_cons_of_neg (by simpa using hnot)]
      rw [head_many, List.takeWhile_append_of_pos hdrop, List.dropWhile_append_of_pos hdrop, htake,
        List.append_nil, List.dropWhile_idempotent]
    have hsymbols : ((symbols (List.replicate n p)).found before t).head? =
        some ⟨(t.takeWhile p).take n, [], (t.takeWhile p).drop n ++ t.dropWhile p⟩ := by
      conv_lhs => rw [hsplit]
      rw [found_symbols hfirst]
      rfl
    have hhead := head_seq (b := .many p) hsymbols (hmany _)
    rw [hhead]
    show some ((t.takeWhile p).take n ++ (t.takeWhile p).drop n) = _
    rw [List.take_append_drop]
  · rw [if_neg hn, Option.map_eq_none_iff, List.head?_eq_none_iff]
    apply List.eq_nil_iff_forall_not_mem.mpr
    intro m hm
    obtain ⟨m₁, h₁, m₂, -, -⟩ := mem_seq.mp hm
    have hall := (of_mem_symbols h₁).1
    have hwhole := taken_append_rest h₁
    apply hn
    rw [List.forall₂_iff_get] at hall
    have htaken : ∀ c ∈ m₁.taken, p c = true := by
      intro c hc
      obtain ⟨i, hi, rfl⟩ := List.mem_iff_getElem.mp hc
      have := hall.2 i hi (by simpa [hall.1] using hi)
      simpa using this
    rw [← hwhole, List.takeWhile_append_of_pos htaken, List.length_append, hall.1,
      List.length_replicate]
    exact Nat.le_add_right _ _

theorem through_run {n : Nat} (ha : IsRun a p n)
    (hfilling : ∀ x, filling x → n ≤ x.length ∧ ∀ c ∈ x, p c = true) :
    Through a [] filling s := by
  refine ⟨s.takeWhile p, List.takeWhile_prefix p, fun x hx before => ?_⟩
  obtain ⟨hlength, hall⟩ := hfilling x hx
  rw [ha, List.nil_append, List.takeWhile_append_of_pos hall, if_pos]
  · rfl
  · rw [List.length_append]
    omega

/-- A run goes on through the hole or ends before it. -/
theorem settled_run {n : Nat} (ha : IsRun a p n)
    (hfilling : ∀ x, filling x → n ≤ x.length ∧ ∀ c ∈ x, p c = true) : Settled a v filling s := by
  by_cases hv : ∀ c ∈ v, p c = true
  · refine .inr ⟨s.takeWhile p, List.takeWhile_prefix p, fun x hx before => ?_⟩
    obtain ⟨hlength, hall⟩ := hfilling x hx
    rw [ha, List.takeWhile_append_of_pos hv, List.takeWhile_append_of_pos hall, if_pos]
    simp only [List.length_append]
    omega
  · -- the run ends at the first other symbol
    obtain ⟨c, w, w', hc, hw, rfl⟩ : ∃ c w w', p c = false ∧ (∀ d ∈ w, p d = true) ∧
        v = w ++ c :: w' := by
      rcases hd : v.dropWhile p with - | ⟨c, w'⟩
      · exact absurd (List.dropWhile_eq_nil_iff.mp hd) hv
      · have hnot := List.head?_dropWhile_not p v
        rw [hd] at hnot
        refine ⟨c, v.takeWhile p, w', by simpa using hnot, fun d hd => List.mem_takeWhile_imp hd, ?_⟩
        rw [← hd, List.takeWhile_append_dropWhile]
    refine .inl ⟨if n ≤ w.length then some w else none, ?_, fun x hx before => ?_⟩
    · intro u hu
      split at hu
      · obtain rfl := Option.some.inj hu
        simp
      · cases hu
    · have htake : ((w ++ c :: w') ++ (x ++ s)).takeWhile p = w := by
        rw [List.append_assoc, List.takeWhile_append_of_pos hw, List.cons_append,
          List.takeWhile_cons_of_neg (by simp [hc]), List.append_nil]
      rw [ha, htake]

/-! ### The replacement -/

variable {replacement : List α}

theorem scan_skip_all (before : Option α) (n : Nat) :
    scan a replacement (u.length + n) before u t = ([], n) := by
  induction u generalizing before with
  | nil =>
    rw [List.length_nil, Nat.zero_add]
    cases n <;> rfl
  | cons c u ih =>
    have hlength : (c :: u).length + n = (u.length + n) + 1 := by
      rw [List.length_cons]
      omega
    rw [hlength]
    exact ih (some c)

/-- What is written for the symbol `c`, and how many symbols behind it belong to the match. -/
def advance (replacement : List α) (c : α) : Option (List α) → List α × Nat
  | some (_ :: taken) => (replacement, taken.length)
  | _ => ([c], 0)

theorem scan_cons (before : Option α) (c : α) (u t : List α) :
    scan a replacement 0 before (c :: u) t =
      ((advance replacement c ((a.found before (c :: (u ++ t))).head?.map Match.taken)).1 ++
        (scan a replacement
          (advance replacement c ((a.found before (c :: (u ++ t))).head?.map Match.taken)).2
          (some c) u t).1,
      (scan a replacement
        (advance replacement c ((a.found before (c :: (u ++ t))).head?.map Match.taken)).2
        (some c) u t).2) := by
  rw [scan]
  rcases (a.found before (c :: (u ++ t))).head? with - | ⟨- | ⟨d, taken⟩, groups, rest⟩ <;> rfl

/-- The text in front of the hole is replaced alike, and the last match there ends before the
hole or takes what fills it. -/
theorem scan_settled (replacement : List α)
    (h : ∀ v, v <:+ u → v ≠ [] → Settled a v filling s) {skip : Nat}
    (hskip : skip ≤ u.length) :
    ∃ out, (∀ x, filling x → ∀ before, scan a replacement skip before u (x ++ s) = (out, 0)) ∨
      ∃ e, e <+: s ∧ ∀ x, filling x → ∀ before,
        scan a replacement skip before u (x ++ s) = (out, x.length + e.length) := by
  induction u generalizing skip with
  | nil =>
    obtain rfl := Nat.le_zero.mp hskip
    exact ⟨[], .inl fun x hx before => rfl⟩
  | cons c u ih =>
    have hrest {skip : Nat} (hskip : skip ≤ u.length) :=
      ih (fun v hv => h v (hv.trans (List.suffix_cons c u))) hskip
    cases skip with
    | succ skip =>
      obtain ⟨out, hout⟩ := hrest (Nat.le_of_succ_le_succ hskip)
      refine ⟨out, hout.imp (fun hout x hx before => hout x hx (some c)) ?_⟩
      rintro ⟨e, he, hout⟩
      exact ⟨e, he, fun x hx before => hout x hx (some c)⟩
    | zero =>
      rcases h (c :: u) (List.suffix_refl _) (List.cons_ne_nil c u) with
        ⟨taken, hlength, hhead⟩ | ⟨e, he, hhead⟩
      · -- the match at `c` is the same for every filling
        have hle : (advance replacement c taken).2 ≤ u.length := by
          rcases taken with - | (- | ⟨d, w⟩)
          · exact Nat.zero_le _
          · exact Nat.zero_le _
          · exact Nat.le_of_succ_le_succ (hlength (d :: w) rfl)
        obtain ⟨out, hout⟩ := hrest hle
        have hstep (x : List α) (hx : filling x) (before : Option α) :
            scan a replacement 0 before (c :: u) (x ++ s) =
              ((advance replacement c taken).1 ++
                (scan a replacement (advance replacement c taken).2 (some c) u (x ++ s)).1,
              (scan a replacement (advance replacement c taken).2 (some c) u (x ++ s)).2) := by
          rw [scan_cons, ← List.cons_append, hhead x hx]
        refine ⟨(advance replacement c taken).1 ++ out, hout.imp (fun hout x hx before => ?_) ?_⟩
        · rw [hstep x hx, hout x hx]
        · rintro ⟨e, he, hout⟩
          refine ⟨e, he, fun x hx before => ?_⟩
          rw [hstep x hx, hout x hx]
      · refine ⟨replacement ++ [], .inr ⟨e, he, fun x hx before => ?_⟩⟩
        rw [scan_cons, ← List.cons_append, hhead x hx]
        show (replacement ++ (scan a replacement (u ++ (x ++ e)).length (some c) u (x ++ s)).1,
          (scan a replacement (u ++ (x ++ e)).length (some c) u (x ++ s)).2) = _
        rw [List.length_append, scan_skip_all, List.length_append]

/-- A match that takes what fills the hole hides it. -/
theorem scan_through (replacement : List α) (hblind : a.blind = true) (hfilling : ∀ x, filling x → x ≠ [])
    (h : Through a [] filling s) :
    ∃ out, ∀ x, filling x → ∀ before,
      (scan a replacement 0 before (x ++ s) []).1 = out := by
  obtain ⟨e, ⟨rest, rfl⟩, hhead⟩ := h
  refine ⟨replacement ++ replaceAll a replacement rest, fun x hx before => ?_⟩
  obtain ⟨m, hm, htaken⟩ := Option.map_eq_some_iff.mp (hhead x hx before)
  have hne : m.taken ≠ [] := by
    rw [htaken]
    exact List.append_ne_nil_of_left_ne_nil (hfilling x hx) e
  have hrest : m.rest = rest := by
    have hwhole := taken_append_rest (List.mem_of_mem_head? hm)
    rw [htaken, List.nil_append, List.nil_append, ← List.append_assoc] at hwhole
    exact List.append_cancel_left hwhole
  rw [List.nil_append] at hm
  rw [scan_match hblind hm hne, hrest]

/-- **The replacement does not show what fills a hole** that every match in front of it stops
at or takes, and that a match takes from its first symbol on. -/
theorem replaceAll_settled (hblind : a.blind = true) (hfilling : ∀ x, filling x → x ≠ [])
    (h : ∀ v, v <:+ u → v ≠ [] → Settled a v filling s) (hthrough : Through a [] filling s) :
    ∃ out, ∀ x, filling x → replaceAll a replacement (u ++ (x ++ s)) = out := by
  obtain ⟨front, hfront⟩ := scan_settled replacement h (Nat.zero_le _)
  rcases hfront with hfront | ⟨e, ⟨rest, rfl⟩, hfront⟩
  · obtain ⟨out, hout⟩ := scan_through replacement hblind hfilling hthrough
    refine ⟨front ++ out, fun x hx => ?_⟩
    rw [replaceAll, scan_append, List.append_nil, hfront x hx none, hout x hx]
  · refine ⟨front ++ replaceAll a replacement rest, fun x hx => ?_⟩
    have hskip := scan_skip (a := a) replacement (x ++ e) rest [] (u.getLast?.or none)
    rw [List.length_append, List.append_assoc] at hskip
    rw [replaceAll, scan_append, List.append_nil, hfront x hx none, hskip,
      scan_of_blind hblind 0 _ none]
    rfl

/-- A text in which no match begins stays as it is. -/
theorem scan_of_found_nil (h : ∀ v, v <:+ u → v ≠ [] → ∀ before, a.found before v = [])
    (before : Option α) : (scan a replacement 0 before u []).1 = u := by
  induction u generalizing before with
  | nil => rfl
  | cons c u ih =>
    have hnone := h (c :: u) (List.suffix_refl _) (List.cons_ne_nil c u) before
    rw [scan_cons_none (by rw [List.append_nil]; exact hnone),
      ih fun v hv => h v (hv.trans (List.suffix_cons c u))]

/-! ### Substitution -/

/-- `t` without its first `skip` symbols and with what `f` makes of the groups of each match
after them in place of the match. -/
def substituteFrom (a : Pattern α) (f : List (List α) → List α) :
    Nat → Option α → List α → List α
  | _, _, [] => []
  | skip + 1, _, c :: t => substituteFrom a f skip (some c) t
  | 0, before, c :: t =>
    match (a.found before (c :: t)).head? with
    | some ⟨_ :: taken, groups, _⟩ => f groups ++ substituteFrom a f taken.length (some c) t
    | _ => c :: substituteFrom a f 0 (some c) t

/-- `a.sub(f, t)` -/
def substitute (a : Pattern α) (f : List (List α) → List α) (t : List α) : List α :=
  substituteFrom a f 0 none t

theorem scan_eq_substituteFrom (skip : Nat) (before : Option α) (t : List α) :
    (scan a replacement skip before t []).1 =
      substituteFrom a (fun _ => replacement) skip before t := by
  induction t generalizing skip before with
  | nil => cases skip <;> rfl
  | cons c t ih =>
    cases skip with
    | succ skip => exact ih skip (some c)
    | zero =>
      rw [scan, substituteFrom, List.append_nil]
      rcases (a.found before (c :: t)).head? with - | ⟨- | ⟨d, taken⟩, groups, rest⟩
      · exact congrArg (c :: ·) (ih 0 (some c))
      · exact congrArg (c :: ·) (ih 0 (some c))
      · exact congrArg (replacement ++ ·) (ih taken.length (some c))

/-- No match takes the symbol `s`; what is behind it may be looked at. -/
def staysBefore (s : α) : Pattern α → Bool
  | .symbol p | .many p => !p s
  | .seq a b | .alt a b => a.staysBefore s && b.staysBefore s
  | .group a => a.staysBefore s
  | .empty | .notAfter _ | .notBefore _ | .boundary _ => true

/-- What is behind the symbol makes no difference to the matches before it. -/
theorem local_of_staysBefore {s : α} (h : a.staysBefore s = true) (u w x : List α) :
    Local a (u ++ s :: w) x ∧
      ∀ before, ∀ m ∈ a.found before (u ++ s :: w), ∃ v, m.rest = v ++ s :: w := by
  have hhead (u : List α) : ((u ++ s :: w) ++ x).head? = (u ++ s :: w).head? := by
    cases u <;> rfl
  induction a generalizing u with
  | empty =>
    refine ⟨fun before => rfl, fun before m hm => ?_⟩
    obtain rfl := mem_empty.mp hm
    exact ⟨u, rfl⟩
  | symbol p =>
    have havoids : (symbol p).avoids s = true := h
    exact ⟨local_inside havoids, fun before m hm => rest_of_avoids havoids hm⟩
  | seq a b iha ihb =>
    obtain ⟨ha, hb⟩ := Bool.and_eq_true_iff.mp h
    obtain ⟨hlocal, hrest⟩ := iha ha u
    constructor
    · apply local_seq hlocal
      intro before m hm
      obtain ⟨v, hv⟩ := hrest before m hm
      rw [hv]
      exact (ihb hb v).1
    · intro before m hm
      obtain ⟨m₁, h₁, m₂, h₂, rfl⟩ := mem_seq.mp hm
      obtain ⟨v, hv⟩ := hrest before m₁ h₁
      rw [hv] at h₂
      exact (ihb hb v).2 _ m₂ h₂
  | alt a b iha ihb =>
    obtain ⟨ha, hb⟩ := Bool.and_eq_true_iff.mp h
    refine ⟨local_alt (iha ha u).1 (ihb hb u).1, fun before m hm => ?_⟩
    rcases mem_alt.mp hm with hm | hm
    · exact (iha ha u).2 before m hm
    · exact (ihb hb u).2 before m hm
  | many p =>
    have havoids : (many p).avoids s = true := h
    exact ⟨local_inside havoids, fun before m hm => rest_of_avoids havoids hm⟩
  | group a ih =>
    refine ⟨local_group (ih h u).1, fun before m hm => ?_⟩
    obtain ⟨m₁, h₁, rfl⟩ := mem_group.mp hm
    exact (ih h u).2 before m₁ h₁
  | notAfter p =>
    refine ⟨fun before => ?_, fun before m hm => ?_⟩
    · rw [found_notAfter, found_notAfter]
      split <;> rfl
    · obtain ⟨-, rfl⟩ := mem_notAfter.mp hm
      exact ⟨u, rfl⟩
  | notBefore p =>
    refine ⟨fun before => ?_, fun before m hm => ?_⟩
    · rw [found_notBefore, found_notBefore, hhead]
      split <;> rfl
    · obtain ⟨-, rfl⟩ := mem_notBefore.mp hm
      exact ⟨u, rfl⟩
  | boundary p =>
    refine ⟨fun before => ?_, fun before m hm => ?_⟩
    · rw [found_boundary, found_boundary, hhead]
      split <;> rfl
    · rw [found_boundary] at hm
      split at hm
      · cases hm
      · obtain rfl := List.mem_singleton.mp hm
        exact ⟨u, rfl⟩

/-- **A symbol that no match takes divides a substitution.** -/
theorem substituteFrom_divide {s : α} (h : a.staysBefore s = true) {f : List (List α) → List α}
    (u : List α) {skip : Nat} (hskip : skip ≤ u.length) (before : Option α) :
    ∃ front, ∀ x, substituteFrom a f skip before (u ++ s :: x) =
      front ++ s :: substituteFrom a f 0 (some s) x := by
  induction u generalizing skip before with
  | nil =>
    obtain rfl := Nat.le_zero.mp hskip
    refine ⟨[], fun x => ?_⟩
    show substituteFrom a f 0 before (s :: x) = _
    rw [substituteFrom]
    rcases hm : (a.found before (s :: x)).head? with - | ⟨- | ⟨d, taken⟩, groups, rest⟩
    · rfl
    · rfl
    · -- a match would take the symbol
      have hmem := List.mem_of_mem_head? hm
      obtain ⟨v, hv⟩ := (local_of_staysBefore h [] x []).2 before _ hmem
      have hlength := congrArg List.length (taken_append_rest hmem)
      rw [hv] at hlength
      simp only [List.length_append, List.length_cons] at hlength
      omega
  | cons c u ih =>
    cases skip with
    | succ skip => exact ih (Nat.le_of_succ_le_succ hskip) (some c)
    | zero =>
      have hhead (x : List α) : (a.found before (c :: (u ++ s :: x))).head? =
          ((a.found before ((c :: u) ++ [s])).head?.map (extend x)) := by
        have hlocal := (local_of_staysBefore h (c :: u) [] x).1 before
        rw [List.append_assoc] at hlocal
        rw [← List.head?_map, ← hlocal]
        rfl
      rcases hm : (a.found before ((c :: u) ++ [s])).head? with - | ⟨- | ⟨d, taken⟩, groups, rest⟩
      · obtain ⟨front, hfront⟩ := ih (Nat.zero_le _) (some c)
        refine ⟨c :: front, fun x => ?_⟩
        rw [List.cons_append, substituteFrom, hhead, hm, Option.map_none, hfront]
        rfl
      · obtain ⟨front, hfront⟩ := ih (Nat.zero_le _) (some c)
        refine ⟨c :: front, fun x => ?_⟩
        rw [List.cons_append, substituteFrom, hhead, hm, Option.map_some, hfront]
        rfl
      · have hle : taken.length ≤ u.length := by
          have hmem := List.mem_of_mem_head? hm
          obtain ⟨v, hv⟩ := (local_of_staysBefore h (c :: u) [] []).2 before _ hmem
          have hlength := congrArg List.length (taken_append_rest hmem)
          rw [hv] at hlength
          simp only [List.length_append, List.length_cons, List.length_nil] at hlength
          omega
        obtain ⟨front, hfront⟩ := ih hle (some c)
        refine ⟨f groups ++ front, fun x => ?_⟩
        rw [List.cons_append, substituteFrom, hhead, hm, Option.map_some, List.append_assoc,
          ← hfront]
        rfl

/-- A text in which no match begins is substituted by itself. -/
theorem substituteFrom_of_found_nil {f : List (List α) → List α}
    (h : ∀ v, v <:+ u → v ≠ [] → ∀ before, a.found before v = []) (before : Option α) :
    substituteFrom a f 0 before u = u := by
  induction u generalizing before with
  | nil => rfl
  | cons c u ih =>
    rw [substituteFrom, h (c :: u) (List.suffix_refl _) (List.cons_ne_nil c u),
      ih fun v hv => h v (hv.trans (List.suffix_cons c u))]
    rfl

end Pattern
