/-
InferBridge/Lib/Pattern.lean

Patterns with ordered choice, greedy repetition, capture groups and
one-symbol context, over an arbitrary alphabet.

The meaning of a pattern at a place of a text is the list of its matches
there in the order in which a backtracking matcher meets them, so the match
that such a matcher returns is the head of the list (`search`).

There is one membership rule for each constructor (`mem_seq`, `mem_alt`,
…).  Two facts hold of every pattern:

* a match splits what it is applied to (`taken_append_rest`);
* a pattern that looks at no symbol before its place (`blind`) has the same
  matches behind any symbol (`found_of_blind`).

`search_append` skips a piece of text in which no match begins, and
`scan_append` divides the replacement of all matches at any place.  `Local`
says that the text behind a place makes no difference to the matches before
it; there is one rule for each way a pattern can stop (`local_of_avoids`,
`local_inside`, `local_seq`, `local_alt`).
-/
import Mathlib

variable {α : Type*}

/-- `alt a b` tries `a` first, `many p` takes as many symbols as it can first. -/
inductive Pattern (α : Type*) where
  | empty
  | symbol (p : α → Bool)
  | seq (a b : Pattern α)
  | alt (a b : Pattern α)
  | many (p : α → Bool)
  | group (a : Pattern α)
  | notAfter (p : α → Bool)
  | notBefore (p : α → Bool)
  | boundary (p : α → Bool)

/-- A match: the text that was taken, the text of each group in the order in which the
groups open, and the text after the match. -/
structure Match (α : Type*) where
  taken : List α
  groups : List (List α)
  rest : List α
deriving DecidableEq

namespace Pattern

/-! ### Matches -/

/-- The ways to take symbols with `p` from the front, the longest first. -/
def prefixes (p : α → Bool) : List α → List (List α × List α)
  | [] => [([], [])]
  | c :: t =>
    if p c then (prefixes p t).map (fun s => (c :: s.1, s.2)) ++ [([], c :: t)] else [([], c :: t)]

/-- The matches of a pattern in front of `t`, behind the symbol `before`, in the order of
preference. -/
def found : Pattern α → Option α → List α → List (Match α)
  | .empty, _, t => [⟨[], [], t⟩]
  | .symbol _, _, [] => []
  | .symbol p, _, c :: t => if p c then [⟨[c], [], t⟩] else []
  | .seq a b, before, t =>
    (a.found before t).flatMap fun m =>
      (b.found (m.taken.getLast?.or before) m.rest).map fun n =>
        ⟨m.taken ++ n.taken, m.groups ++ n.groups, n.rest⟩
  | .alt a b, before, t => a.found before t ++ b.found before t
  | .many p, _, t => (prefixes p t).map fun s => ⟨s.1, [], s.2⟩
  | .group a, before, t => (a.found before t).map fun m => { m with groups := m.taken :: m.groups }
  | .notAfter p, before, t => if before.any p then [] else [⟨[], [], t⟩]
  | .notBefore p, _, t => if t.head?.any p then [] else [⟨[], [], t⟩]
  | .boundary p, before, t => if before.any p = t.head?.any p then [] else [⟨[], [], t⟩]

/-- `a?`. -/
def opt (a : Pattern α) : Pattern α := .alt a .empty

/-- `p+`. -/
def many1 (p : α → Bool) : Pattern α := .seq (.symbol p) (.many p)

/-- The symbols of `ps` one after another. -/
def symbols (ps : List (α → Bool)) : Pattern α := ps.foldr (fun p a => .seq (.symbol p) a) .empty

/-- The first of several alternatives. -/
def oneOf (alternatives : List (Pattern α)) : Pattern α :=
  alternatives.foldr .alt (.symbol fun _ => false)

/-- At most `n` copies of `a`, as many as possible first. -/
def atMost (a : Pattern α) : Nat → Pattern α
  | 0 => .empty
  | n + 1 => opt (.seq a (atMost a n))

/-! ### Membership -/

variable {p : α → Bool} {a b : Pattern α} {before : Option α} {t : List α} {m : Match α}

theorem found_empty : (empty : Pattern α).found before t = [⟨[], [], t⟩] := rfl

theorem found_symbol_nil : (symbol p).found before [] = [] := rfl

theorem found_symbol_cons (c : α) :
    (symbol p).found before (c :: t) = if p c then [⟨[c], [], t⟩] else [] := rfl

theorem found_seq : (seq a b).found before t =
    (a.found before t).flatMap fun m =>
      (b.found (m.taken.getLast?.or before) m.rest).map fun n =>
        ⟨m.taken ++ n.taken, m.groups ++ n.groups, n.rest⟩ := rfl

theorem found_alt : (alt a b).found before t = a.found before t ++ b.found before t := rfl

theorem found_many : (many p).found before t = (prefixes p t).map fun s => ⟨s.1, [], s.2⟩ := rfl

theorem found_group : (group a).found before t =
    (a.found before t).map fun m => { m with groups := m.taken :: m.groups } := rfl

theorem found_notAfter :
    (notAfter p).found before t = if before.any p then [] else [⟨[], [], t⟩] := rfl

theorem found_notBefore :
    (notBefore p).found before t = if t.head?.any p then [] else [⟨[], [], t⟩] := rfl

theorem found_boundary :
    (boundary p).found before t = if before.any p = t.head?.any p then [] else [⟨[], [], t⟩] := rfl

theorem mem_symbol : m ∈ (Pattern.symbol p).found before t ↔
    ∃ c, p c = true ∧ t = c :: m.rest ∧ m.taken = [c] ∧ m.groups = [] := by
  obtain ⟨taken, groups, rest⟩ := m
  cases t with
  | nil => simp [found_symbol_nil]
  | cons c t =>
    by_cases hc : p c = true
    · simp only [found_symbol_cons, hc, if_true, List.mem_singleton, Match.mk.injEq, List.cons.injEq]
      constructor
      · rintro ⟨rfl, rfl, rfl⟩
        exact ⟨c, hc, ⟨rfl, rfl⟩, rfl, rfl⟩
      · rintro ⟨c', -, ⟨rfl, rfl⟩, rfl, rfl⟩
        exact ⟨rfl, rfl, rfl⟩
    · simp only [found_symbol_cons, hc]
      constructor
      · intro h
        cases h
      · rintro ⟨c', hc', h, -, -⟩
        cases h
        exact absurd hc' hc

theorem mem_seq : m ∈ (Pattern.seq a b).found before t ↔
    ∃ m₁ ∈ a.found before t, ∃ m₂ ∈ b.found (m₁.taken.getLast?.or before) m₁.rest,
      m = ⟨m₁.taken ++ m₂.taken, m₁.groups ++ m₂.groups, m₂.rest⟩ := by
  simp only [found_seq, List.mem_flatMap, List.mem_map, eq_comm]

theorem mem_alt : m ∈ (Pattern.alt a b).found before t ↔
    m ∈ a.found before t ∨ m ∈ b.found before t := by
  rw [found_alt, List.mem_append]

theorem mem_group : m ∈ (Pattern.group a).found before t ↔
    ∃ m₁ ∈ a.found before t, m = { m₁ with groups := m₁.taken :: m₁.groups } := by
  simp only [found_group, List.mem_map, eq_comm]

theorem mem_empty : m ∈ (Pattern.empty : Pattern α).found before t ↔ m = ⟨[], [], t⟩ := by
  rw [found_empty, List.mem_singleton]

theorem mem_notAfter : m ∈ (Pattern.notAfter p).found before t ↔
    before.any p = false ∧ m = ⟨[], [], t⟩ := by
  cases h : before.any p <;> simp [found_notAfter, h]

theorem mem_notBefore : m ∈ (Pattern.notBefore p).found before t ↔
    t.head?.any p = false ∧ m = ⟨[], [], t⟩ := by
  cases h : t.head?.any p <;> simp [found_notBefore, h]

theorem mem_opt : m ∈ (opt a).found before t ↔
    m ∈ a.found before t ∨ m = ⟨[], [], t⟩ := by
  rw [opt, mem_alt, mem_empty]

theorem of_mem_prefixes {s : List α × List α} (h : s ∈ prefixes p t) :
    s.1 ++ s.2 = t ∧ ∀ c ∈ s.1, p c = true := by
  induction t generalizing s with
  | nil =>
    obtain rfl := List.mem_singleton.mp h
    exact ⟨rfl, by simp⟩
  | cons c t ih =>
    have hnone : ([], c :: t) ∈ prefixes p (c :: t) → s = ([], c :: t) →
        s.1 ++ s.2 = c :: t ∧ ∀ c ∈ s.1, p c = true := by
      rintro - rfl
      exact ⟨rfl, by simp⟩
    by_cases hc : p c = true
    · rw [prefixes, if_pos hc, List.mem_append, List.mem_singleton, List.mem_map] at h
      rcases h with ⟨s', hs', rfl⟩ | rfl
      · obtain ⟨happend, hall⟩ := ih hs'
        refine ⟨congrArg (c :: ·) happend, ?_⟩
        intro c' hc'
        rcases List.mem_cons.mp hc' with rfl | hc'
        · exact hc
        · exact hall c' hc'
      · exact ⟨rfl, by simp⟩
    · rw [prefixes, if_neg hc, List.mem_singleton] at h
      subst h
      exact ⟨rfl, by simp⟩

theorem of_mem_many (h : m ∈ (Pattern.many p).found before t) :
    m.taken ++ m.rest = t ∧ (∀ c ∈ m.taken, p c = true) ∧ m.groups = [] := by
  obtain ⟨s, hs, rfl⟩ := List.mem_map.mp h
  obtain ⟨happend, hall⟩ := of_mem_prefixes hs
  exact ⟨happend, hall, rfl⟩

/-- What `p+` takes: at least one symbol, all of them with `p`. -/
theorem of_mem_many1 (h : m ∈ (many1 p).found before t) :
    m.taken ≠ [] ∧ (∀ c ∈ m.taken, p c = true) ∧ m.groups = [] := by
  obtain ⟨m₁, h₁, m₂, h₂, rfl⟩ := mem_seq.mp h
  obtain ⟨c, hc, -, htaken, hgroups⟩ := mem_symbol.mp h₁
  obtain ⟨-, hall, hgroups₂⟩ := of_mem_many h₂
  show m₁.taken ++ m₂.taken ≠ [] ∧ (∀ c ∈ m₁.taken ++ m₂.taken, p c = true) ∧ _
  rw [htaken]
  refine ⟨by simp, ?_, by simp [hgroups, hgroups₂]⟩
  intro c' hc'
  rcases List.mem_cons.mp hc' with rfl | hc'
  · exact hc
  · exact hall c' hc'

/-- What a sequence of symbols takes. -/
theorem of_mem_symbols {ps : List (α → Bool)} (h : m ∈ (symbols ps).found before t) :
    List.Forall₂ (fun c p => p c = true) m.taken ps ∧ m.groups = [] := by
  induction ps generalizing before t m with
  | nil =>
    obtain rfl := mem_empty.mp h
    exact ⟨List.Forall₂.nil, rfl⟩
  | cons p ps ih =>
    obtain ⟨m₁, h₁, m₂, h₂, rfl⟩ := mem_seq.mp h
    obtain ⟨c, hc, -, htaken, hgroups⟩ := mem_symbol.mp h₁
    obtain ⟨hrest, hgroups₂⟩ := ih h₂
    show List.Forall₂ _ (m₁.taken ++ m₂.taken) _ ∧ m₁.groups ++ m₂.groups = []
    rw [htaken, hgroups, hgroups₂]
    exact ⟨List.Forall₂.cons hc hrest, rfl⟩

/-- **A match splits the text it is applied to.** -/
theorem taken_append_rest (h : m ∈ a.found before t) : m.taken ++ m.rest = t := by
  induction a generalizing before t m with
  | empty =>
    obtain rfl := mem_empty.mp h
    rfl
  | symbol p =>
    obtain ⟨c, -, ht, htaken, -⟩ := mem_symbol.mp h
    rw [htaken, ht]
    rfl
  | seq a b iha ihb =>
    obtain ⟨m₁, h₁, m₂, h₂, rfl⟩ := mem_seq.mp h
    show (m₁.taken ++ m₂.taken) ++ m₂.rest = t
    rw [List.append_assoc, ihb h₂, iha h₁]
  | alt a b iha ihb =>
    rcases mem_alt.mp h with h | h
    · exact iha h
    · exact ihb h
  | many p => exact (of_mem_many h).1
  | group a ih =>
    obtain ⟨m₁, h₁, rfl⟩ := mem_group.mp h
    show m₁.taken ++ m₁.rest = t
    exact ih h₁
  | notAfter p =>
    obtain ⟨-, rfl⟩ := mem_notAfter.mp h
    rfl
  | notBefore p =>
    obtain ⟨-, rfl⟩ := mem_notBefore.mp h
    rfl
  | boundary p =>
    rw [found_boundary] at h
    split at h
    · cases h
    · obtain rfl := List.mem_singleton.mp h
      rfl

/-- A group holds a part of what the match takes. -/
theorem group_length_le (h : m ∈ a.found before t) : ∀ g ∈ m.groups, g.length ≤ m.taken.length := by
  induction a generalizing before t m with
  | empty =>
    obtain rfl := mem_empty.mp h
    simp
  | symbol p =>
    obtain ⟨c, -, -, -, hgroups⟩ := mem_symbol.mp h
    simp [hgroups]
  | seq a b iha ihb =>
    obtain ⟨m₁, h₁, m₂, h₂, rfl⟩ := mem_seq.mp h
    intro g hg
    show g.length ≤ (m₁.taken ++ m₂.taken).length
    rw [List.length_append]
    rcases List.mem_append.mp hg with hg | hg
    · exact (iha h₁ g hg).trans (Nat.le_add_right _ _)
    · exact (ihb h₂ g hg).trans (Nat.le_add_left _ _)
  | alt a b iha ihb =>
    rcases mem_alt.mp h with h | h
    · exact iha h
    · exact ihb h
  | many p => simp [(of_mem_many h).2.2]
  | group a ih =>
    obtain ⟨m₁, h₁, rfl⟩ := mem_group.mp h
    intro g hg
    rcases List.mem_cons.mp hg with rfl | hg
    · exact le_rfl
    · exact ih h₁ g hg
  | notAfter p =>
    obtain ⟨-, rfl⟩ := mem_notAfter.mp h
    simp
  | notBefore p =>
    obtain ⟨-, rfl⟩ := mem_notBefore.mp h
    simp
  | boundary p =>
    rw [found_boundary] at h
    split at h
    · cases h
    · obtain rfl := List.mem_singleton.mp h
      simp

/-! ### What is before the match -/

/-- Every match takes a symbol. -/
def consumes : Pattern α → Bool
  | .symbol _ => true
  | .seq a b => a.consumes || b.consumes
  | .alt a b => a.consumes && b.consumes
  | .group a => a.consumes
  | _ => false

/-- The matches do not depend on the symbol before them. -/
def blind : Pattern α → Bool
  | .seq a b => a.blind && (a.consumes || b.blind)
  | .alt a b => a.blind && b.blind
  | .group a => a.blind
  | .notAfter _ | .boundary _ => false
  | _ => true

theorem taken_ne_nil (hconsumes : a.consumes = true) (h : m ∈ a.found before t) :
    m.taken ≠ [] := by
  induction a generalizing before t m with
  | symbol p =>
    obtain ⟨c, -, -, htaken, -⟩ := mem_symbol.mp h
    simp [htaken]
  | seq a b iha ihb =>
    obtain ⟨m₁, h₁, m₂, h₂, rfl⟩ := mem_seq.mp h
    rcases Bool.or_eq_true_iff.mp hconsumes with hc | hc
    · exact List.append_ne_nil_of_left_ne_nil (iha hc h₁) _
    · exact List.append_ne_nil_of_right_ne_nil _ (ihb hc h₂)
  | alt a b iha ihb =>
    obtain ⟨hca, hcb⟩ := Bool.and_eq_true_iff.mp hconsumes
    rcases mem_alt.mp h with h | h
    · exact iha hca h
    · exact ihb hcb h
  | group a ih =>
    obtain ⟨m₁, h₁, rfl⟩ := mem_group.mp h
    show m₁.taken ≠ []
    exact ih hconsumes h₁
  | _ => cases hconsumes

theorem found_of_blind (hblind : a.blind = true) (before before' : Option α) (t : List α) :
    a.found before t = a.found before' t := by
  induction a generalizing before before' t with
  | empty => rfl
  | symbol p => cases t <;> rfl
  | seq a b iha ihb =>
    obtain ⟨ha, hb⟩ := Bool.and_eq_true_iff.mp hblind
    rw [found_seq, found_seq, iha ha before before' t]
    apply List.flatMap_congr
    intro m hm
    have hrest : b.found (m.taken.getLast?.or before) m.rest =
        b.found (m.taken.getLast?.or before') m.rest := by
      rcases Bool.or_eq_true_iff.mp hb with hconsumes | hb
      · -- the first part has left a symbol before the second
        obtain ⟨c, hc⟩ := Option.isSome_iff_exists.mp
          (List.getLast?_isSome.mpr (taken_ne_nil hconsumes hm))
        rw [hc]
        rfl
      · exact ihb hb _ _ _
    rw [hrest]
  | alt a b iha ihb =>
    obtain ⟨ha, hb⟩ := Bool.and_eq_true_iff.mp hblind
    rw [found_alt, found_alt, iha ha before before' t, ihb hb before before' t]
  | many p => rfl
  | group a ih => rw [found_group, found_group, ih hblind before before' t]
  | notAfter p => cases hblind
  | notBefore p => rfl
  | boundary p => cases hblind

/-- Behind two symbols that a look-behind lets pass, the matches are the same. -/
theorem found_seq_notAfter (hblind : b.blind = true) {before before' : Option α}
    (h : before.any p = false) (h' : before'.any p = false) (t : List α) :
    (Pattern.seq (.notAfter p) b).found before t = (Pattern.seq (.notAfter p) b).found before' t := by
  have hpass : ∀ x : Option α, x.any p = false →
      (Pattern.notAfter p).found x t = [⟨[], [], t⟩] := by
    intro x hx
    rw [found_notAfter, hx]
    rfl
  show ((Pattern.notAfter p).found before t).flatMap _ =
    ((Pattern.notAfter p).found before' t).flatMap _
  rw [hpass before h, hpass before' h']
  show (b.found before t).map _ ++ [] = (b.found before' t).map _ ++ []
  rw [found_of_blind hblind before before']

/-! ### Search -/

/-- The first place with a match: the text before it and the preferred match there. -/
def search (a : Pattern α) : Option α → List α → Option (List α × Match α)
  | before, [] => (a.found before []).head?.map fun m => ([], m)
  | before, c :: t =>
    match (a.found before (c :: t)).head? with
    | some m => some ([], m)
    | none => (a.search (some c) t).map fun s => (c :: s.1, s.2)

/-- What a search finds is a match of the text after what it skipped. -/
theorem of_search {s : List α × Match α} (h : a.search before t = some s) :
    s.1 ++ s.2.taken ++ s.2.rest = t ∧
      ∃ before' t', s.2 ∈ a.found before' t' := by
  induction t generalizing before s with
  | nil =>
    obtain ⟨m, hm, rfl⟩ := Option.map_eq_some_iff.mp h
    have hmem := List.mem_of_mem_head? hm
    exact ⟨by simpa using taken_append_rest hmem, _, _, hmem⟩
  | cons c t ih =>
    rw [search] at h
    split at h
    · next m hm =>
      obtain rfl := Option.some.inj h
      have hmem := List.mem_of_mem_head? hm
      exact ⟨by simpa using taken_append_rest hmem, _, _, hmem⟩
    · obtain ⟨s', hs', rfl⟩ := Option.map_eq_some_iff.mp h
      obtain ⟨happend, hmem⟩ := ih hs'
      exact ⟨by simpa using happend, hmem⟩

theorem search_congr {before before' : Option α}
    (h : a.found before t = a.found before' t) : a.search before t = a.search before' t := by
  cases t with
  | nil => rw [search, search, h]
  | cons c t => rw [search, search, h]

/-- No match begins in `u`, when `t` follows it. -/
def Skips (a : Pattern α) : Option α → List α → List α → Prop
  | _, [], _ => True
  | before, c :: u, t => a.found before (c :: (u ++ t)) = [] ∧ Skips a (some c) u t

theorem skips_of_forall {u : List α} (h : ∀ c ∈ u, ∀ before t, a.found before (c :: t) = []) :
    Skips a before u t := by
  induction u generalizing before with
  | nil => trivial
  | cons c u ih =>
    exact ⟨h c List.mem_cons_self before _, ih fun d hd => h d (List.mem_cons_of_mem c hd)⟩

/-- A search skips a piece of text in which no match begins. -/
theorem search_append {u : List α} (h : Skips a before u t) :
    a.search before (u ++ t) =
      (a.search (u.getLast?.or before) t).map fun s => (u ++ s.1, s.2) := by
  induction u generalizing before with
  | nil => simp
  | cons c u ih =>
    obtain ⟨hnone, hrest⟩ := h
    have hlast : (c :: u).getLast?.or before = u.getLast?.or (some c) := by
      cases u with
      | nil => rfl
      | cons d u =>
        rw [List.getLast?_cons_cons]
        obtain ⟨e, he⟩ := Option.isSome_iff_exists.mp
          (List.getLast?_isSome.mpr (List.cons_ne_nil d u))
        rw [he]
        rfl
    rw [List.cons_append, search, hnone]
    show (a.search (some c) (u ++ t)).map _ = _
    rw [ih hrest, Option.map_map, hlast]
    rfl

/-- A pattern that is found in a text is found in every longer one with that end. -/
theorem search_isSome_append (hblind : a.blind = true) {before' : Option α}
    (h : (a.search before' t).isSome) (u : List α) : (a.search before (u ++ t)).isSome := by
  induction u generalizing before with
  | nil =>
    rw [List.nil_append, search_congr (found_of_blind hblind before before' t)]
    exact h
  | cons c u ih =>
    rw [List.cons_append, search]
    split
    · rfl
    · rw [Option.isSome_map]
      exact ih

/-! ### Words -/

/-- The word `ps` and the text `u` differ at a place that both have. -/
def differs : List (α → Bool) → List α → Bool
  | p :: ps, c :: u => !p c || differs ps u
  | _, _ => false

theorem found_symbols_of_differs {ps : List (α → Bool)} {u : List α} (h : differs ps u = true) :
    (symbols ps).found before (u ++ t) = [] := by
  apply List.eq_nil_iff_forall_not_mem.mpr
  intro m hm
  induction ps generalizing u before m with
  | nil => cases h
  | cons p ps ih =>
    cases u with
    | nil => cases h
    | cons c u =>
      obtain ⟨m₁, h₁, m₂, h₂, -⟩ := mem_seq.mp hm
      obtain ⟨d, hd, ht, -⟩ := mem_symbol.mp h₁
      obtain ⟨rfl, hrest⟩ := List.cons.inj ht
      rw [differs, hd] at h
      rw [← hrest] at h₂
      exact ih h m₂ h₂

/-- Words that differ from every end of `u` are not found at a place in it. -/
theorem skips_oneOf {words : List (List (α → Bool))} {u : List α}
    (h : ∀ v ∈ u.tails, v ≠ [] → ∀ ps ∈ words, differs ps v = true) :
    (oneOf (words.map symbols)).Skips before u t := by
  have hfound : ∀ (v : List α) (before : Option α), (∀ ps ∈ words, differs ps v = true) →
      v ≠ [] → (oneOf (words.map symbols)).found before (v ++ t) = [] := by
    intro v before hv hne
    obtain ⟨c, v, rfl⟩ := List.exists_cons_of_ne_nil hne
    clear h hne
    induction words with
    | nil => rfl
    | cons ps words ih =>
      show (symbols ps).found before _ ++ (oneOf (words.map symbols)).found before _ = []
      rw [found_symbols_of_differs (hv ps List.mem_cons_self),
        ih fun qs hqs => hv qs (List.mem_cons_of_mem ps hqs)]
      rfl
  induction u generalizing before with
  | nil => trivial
  | cons c u ih =>
    refine ⟨hfound (c :: u) before (h _ (by simp) (by simp)) (by simp), ih ?_⟩
    intro v hv
    exact h v (by simp [hv])

/-! ### Removing all matches -/

/-- `removeFrom a skip before t`: `t` without its first `skip` symbols and without the
matches of `a` after them. -/
def removeFrom (a : Pattern α) : Nat → Option α → List α → List α
  | _, _, [] => []
  | skip + 1, _, c :: t => removeFrom a skip (some c) t
  | 0, before, c :: t =>
    match (a.found before (c :: t)).head? with
    | some ⟨_ :: taken, _, _⟩ => removeFrom a taken.length (some c) t
    | _ => c :: removeFrom a 0 (some c) t

/-- The text without the matches of the pattern. -/
def removeAll (a : Pattern α) (t : List α) : List α := removeFrom a 0 none t

theorem removeFrom_sublist (skip : Nat) (before : Option α) (t : List α) :
    (removeFrom a skip before t).Sublist t := by
  induction t generalizing skip before with
  | nil =>
    cases skip with
    | zero => exact List.Sublist.slnil
    | succ skip => exact List.Sublist.slnil
  | cons c t ih =>
    cases skip with
    | zero =>
      rw [removeFrom]
      split
      · exact (ih _ _).cons c
      · exact (ih _ _).cons_cons c
    | succ skip => exact (ih _ _).cons c

theorem removeAll_sublist (t : List α) : (removeAll a t).Sublist t := removeFrom_sublist 0 none t

/-! ### Locality -/

/-- The match, where `x` stands behind the text. -/
def extend (x : List α) (m : Match α) : Match α := { m with rest := m.rest ++ x }

/-- The matches in front of `u` are the same with `x` behind `u`. -/
def Local (a : Pattern α) (u x : List α) : Prop :=
  ∀ before, a.found before (u ++ x) = (a.found before u).map (extend x)

/-- No match takes the symbol `s` or looks at what is behind it. -/
def avoids (s : α) : Pattern α → Bool
  | .symbol p | .many p => !p s
  | .seq a b | .alt a b => a.avoids s && b.avoids s
  | .group a => a.avoids s
  | .empty | .notAfter _ => true
  | .notBefore _ | .boundary _ => false

variable {s : α} {u x : List α}

theorem prefixes_append (hs : p s = false) (u x : List α) :
    prefixes p (u ++ s :: x) = (prefixes p u).map fun r => (r.1, r.2 ++ s :: x) := by
  induction u with
  | nil =>
    show prefixes p (s :: x) = [([], s :: x)]
    rw [prefixes, if_neg (by simp [hs])]
  | cons c u ih =>
    rw [List.cons_append, prefixes, prefixes, ih]
    by_cases hc : p c = true
    · simp [hc, Function.comp_def]
    · simp [hc]

theorem local_seq (ha : Local a u x) (hb : ∀ before, ∀ m ∈ a.found before u, Local b m.rest x) :
    Local (.seq a b) u x := by
  intro before
  rw [found_seq, ha, List.flatMap_map, found_seq, List.map_flatMap]
  apply List.flatMap_congr
  intro m hm
  show (b.found _ (m.rest ++ x)).map _ = ((b.found _ m.rest).map _).map _
  rw [hb before m hm, List.map_map, List.map_map]
  rfl

theorem local_alt (ha : Local a u x) (hb : Local b u x) : Local (.alt a b) u x := by
  intro before
  rw [found_alt, ha, hb, found_alt, List.map_append]

theorem local_group (ha : Local a u x) : Local (.group a) u x := by
  intro before
  rw [found_group, ha, found_group, List.map_map, List.map_map]
  rfl

/-- A pattern stops at a symbol that it avoids. -/
theorem local_of_avoids (h : a.avoids s = true) : Local a u (s :: x) := by
  induction a generalizing u with
  | empty => exact fun before => rfl
  | symbol p =>
    intro before
    have hs : p s = false := by simpa [avoids] using h
    cases u with
    | nil =>
      show (symbol p).found before (s :: x) = []
      rw [found_symbol_cons, if_neg (by simp [hs])]
    | cons c u =>
      rw [List.cons_append, found_symbol_cons, found_symbol_cons]
      split <;> rfl
  | seq a b iha ihb =>
    obtain ⟨ha, hb⟩ := Bool.and_eq_true_iff.mp h
    exact local_seq (iha ha) fun _ _ _ => ihb hb
  | alt a b iha ihb =>
    obtain ⟨ha, hb⟩ := Bool.and_eq_true_iff.mp h
    exact local_alt (iha ha) (ihb hb)
  | many p =>
    intro before
    rw [found_many, prefixes_append (by simpa [avoids] using h), found_many, List.map_map,
      List.map_map]
    rfl
  | group a ih => exact local_group (ih h)
  | notAfter p =>
    intro before
    rw [found_notAfter, found_notAfter]
    split <;> rfl
  | notBefore p => cases h
  | boundary p => cases h

/-- A pattern does not get past a symbol that it avoids. -/
theorem local_inside {w : List α} (h : a.avoids s = true) : Local a (u ++ s :: w) x := by
  intro before
  rw [List.append_assoc, List.cons_append, local_of_avoids h, local_of_avoids h, List.map_map]
  apply List.map_congr_left
  intro m _
  simp [extend]

theorem rest_of_avoids {w : List α} (h : a.avoids s = true)
    (hm : m ∈ a.found before (u ++ s :: w)) : ∃ v, m.rest = v ++ s :: w := by
  rw [local_of_avoids h] at hm
  obtain ⟨n, -, rfl⟩ := List.mem_map.mp hm
  exact ⟨n.rest, rfl⟩

/-! ### Replacing all matches -/

/-- The text `u` with its matches replaced, when `t` follows it, and how many symbols of `t`
the last match takes; `skip` symbols of `u` belong to a match that has begun. -/
def scan (a : Pattern α) (replacement : List α) :
    Nat → Option α → List α → List α → List α × Nat
  | skip, _, [], _ => ([], skip)
  | skip + 1, _, c :: u, t => scan a replacement skip (some c) u t
  | 0, before, c :: u, t =>
    match (a.found before (c :: (u ++ t))).head? with
    | some ⟨_ :: taken, _, _⟩ =>
      let (out, skip) := scan a replacement taken.length (some c) u t
      (replacement ++ out, skip)
    | _ =>
      let (out, skip) := scan a replacement 0 (some c) u t
      (c :: out, skip)

/-- The text with every match of the pattern replaced. -/
def replaceAll (a : Pattern α) (replacement t : List α) : List α :=
  (scan a replacement 0 none t []).1

variable {replacement : List α}

/-- The replacement divided at a place. -/
theorem scan_append (skip : Nat) (before : Option α) (u v t : List α) :
    scan a replacement skip before (u ++ v) t =
      ((scan a replacement skip before u (v ++ t)).1 ++
        (scan a replacement (scan a replacement skip before u (v ++ t)).2
          (u.getLast?.or before) v t).1,
      (scan a replacement (scan a replacement skip before u (v ++ t)).2
        (u.getLast?.or before) v t).2) := by
  induction u generalizing skip before with
  | nil => cases skip <;> rfl
  | cons c u ih =>
    have hlast : (c :: u).getLast?.or before = u.getLast?.or (some c) := by
      cases u with
      | nil => rfl
      | cons d u =>
        rw [List.getLast?_cons_cons]
        obtain ⟨e, he⟩ := Option.isSome_iff_exists.mp
          (List.getLast?_isSome.mpr (List.cons_ne_nil d u))
        rw [he]
        rfl
    rw [hlast]
    cases skip with
    | succ skip => exact ih skip (some c)
    | zero =>
      rw [List.cons_append, scan, scan, List.append_assoc]
      split
      · simp only [ih, List.append_assoc]
      · simp only [ih, List.cons_append]

/-- What follows a text matters to the replacement only through what the preferred matches
take. -/
theorem scan_congr {t t' : List α}
    (h : ∀ v before, v <:+ u → v ≠ [] → (a.found before (v ++ t)).head?.map Match.taken =
      (a.found before (v ++ t')).head?.map Match.taken) (skip : Nat) (before : Option α) :
    scan a replacement skip before u t = scan a replacement skip before u t' := by
  induction u generalizing skip before with
  | nil => cases skip <;> rfl
  | cons c u ih =>
    have hrest := ih fun v before hv => h v before (hv.trans (List.suffix_cons c u))
    cases skip with
    | succ skip => exact hrest skip (some c)
    | zero =>
      have hhead := h (c :: u) before (List.suffix_refl _) (List.cons_ne_nil c u)
      rw [List.cons_append, List.cons_append] at hhead
      rw [scan, scan]
      rcases hm : (a.found before (c :: (u ++ t))).head? with - | ⟨taken, groups, rest⟩
      · rw [hm] at hhead
        rw [Option.map_eq_none_iff.mp hhead.symm]
        simp only [hrest]
      · rw [hm] at hhead
        obtain ⟨⟨taken', groups', rest'⟩, hm', htaken⟩ := Option.map_eq_some_iff.mp hhead.symm
        obtain rfl : taken' = taken := htaken
        rw [hm']
        cases taken' with
        | nil => simp only [hrest]
        | cons d taken => simp only [hrest]

theorem Local.head_taken (h : Local a u x) (before : Option α) :
    (a.found before (u ++ x)).head?.map Match.taken =
      (a.found before u).head?.map Match.taken := by
  rw [h before, List.head?_map, Option.map_map]
  rfl

theorem scan_local (h : ∀ v, v <:+ u → v ≠ [] → Local a v x) (skip : Nat) (before : Option α) :
    scan a replacement skip before u x = scan a replacement skip before u [] := by
  apply scan_congr
  intro v before hv hne
  rw [(h v hv hne).head_taken, List.append_nil]

/-- Matches end with the text. -/
theorem scan_nil_snd {skip : Nat} (hskip : skip ≤ u.length) (before : Option α) :
    (scan a replacement skip before u []).2 = 0 := by
  induction u generalizing skip before with
  | nil =>
    obtain rfl := Nat.le_zero.mp hskip
    rfl
  | cons c u ih =>
    cases skip with
    | succ skip => exact ih (Nat.le_of_succ_le_succ hskip) (some c)
    | zero =>
      rw [scan]
      split
      · next taken _ _ hm =>
        apply ih
        have hlength := congrArg List.length (taken_append_rest (List.mem_of_mem_head? hm))
        simp only [List.length_append, List.length_cons, List.length_nil] at hlength
        omega
      · exact ih (Nat.zero_le _) (some c)

/-- A symbol that no match takes stays where it is, and divides the replacement. -/
theorem scan_divide (havoids : a.avoids s = true) (hnone : ∀ before t, a.found before (s :: t) = [])
    (before : Option α) (u t : List α) : (scan a replacement 0 before (u ++ s :: t) []).1 =
      (scan a replacement 0 before u []).1 ++ s :: (scan a replacement 0 (some s) t []).1 := by
  have hlocal : scan a replacement 0 before u (s :: t) = scan a replacement 0 before u [] :=
    scan_local (fun _ _ _ => local_of_avoids havoids) 0 before
  rw [scan_append, List.append_nil, hlocal, scan_nil_snd (Nat.zero_le _)]
  show _ ++ (scan a replacement 0 _ (s :: t) []).1 = _
  rw [scan, hnone]
  rfl

theorem scan_of_blind (hblind : a.blind = true) (skip : Nat) (before before' : Option α)
    (u t : List α) :
    scan a replacement skip before u t = scan a replacement skip before' u t := by
  cases u with
  | nil => cases skip <;> rfl
  | cons c u =>
    cases skip with
    | succ skip => rfl
    | zero => rw [scan, scan, found_of_blind hblind before before']

/-- The rest of a match that has begun is dropped. -/
theorem scan_skip (replacement u v t : List α) (before : Option α) :
    scan a replacement u.length before (u ++ v) t =
      scan a replacement 0 (u.getLast?.or before) v t := by
  rw [scan_append]
  have hskip (before : Option α) :
      scan a replacement u.length before u (v ++ t) = ([], 0) := by
    induction u generalizing before with
    | nil => rfl
    | cons c u ih => exact ih (some c)
  rw [hskip]
  rfl

theorem scan_cons_none {c : α} {u t : List α} (h : a.found before (c :: (u ++ t)) = []) :
    (scan a replacement 0 before (c :: u) t).1 = c :: (scan a replacement 0 (some c) u t).1 := by
  rw [scan, h]
  rfl

theorem scan_snd_le {skip : Nat} {u t : List α} (hskip : skip ≤ u.length + t.length)
    (before : Option α) : (scan a replacement skip before u t).2 ≤ t.length := by
  induction u generalizing skip before with
  | nil =>
    have hle : skip ≤ t.length := by simpa using hskip
    cases skip <;> exact hle
  | cons c u ih =>
    rw [List.length_cons] at hskip
    cases skip with
    | succ skip => exact ih (by omega) (some c)
    | zero =>
      rw [scan]
      split
      · next taken _ _ hm =>
        apply ih
        have hlength := congrArg List.length (taken_append_rest (List.mem_of_mem_head? hm))
        simp only [List.length_append, List.length_cons] at hlength
        omega
      · exact ih (Nat.zero_le _) (some c)

/-- A match in front of the text is replaced, and the replacement goes on behind it. -/
theorem scan_match (hblind : a.blind = true) (hm : (a.found before t).head? = some m)
    (htaken : m.taken ≠ []) :
    (scan a replacement 0 before t []).1 = replacement ++ replaceAll a replacement m.rest := by
  obtain ⟨taken, groups, rest⟩ := m
  obtain ⟨c, taken, rfl⟩ := List.exists_cons_of_ne_nil htaken
  obtain rfl := taken_append_rest (List.mem_of_mem_head? hm)
  rw [List.cons_append] at hm ⊢
  rw [scan, List.append_nil, hm]
  show replacement ++ (scan a replacement taken.length (some c) (taken ++ rest) []).1 = _
  rw [scan_skip, replaceAll, scan_of_blind hblind 0 _ none]

/-- A piece of text in which no match begins stays as it is. -/
theorem scan_none (hblind : a.blind = true) (h : ∀ c ∈ u, ∀ before t, a.found before (c :: t) = [])
    (before : Option α) : (scan a replacement 0 before (u ++ t) []).1 =
      u ++ replaceAll a replacement t := by
  induction u generalizing before with
  | nil =>
    rw [List.nil_append, List.nil_append, replaceAll, scan_of_blind hblind 0 before none]
  | cons c u ih =>
    rw [List.cons_append, scan_cons_none (h c List.mem_cons_self _ _),
      ih fun d hd => h d (List.mem_cons_of_mem c hd)]
    rfl

/-- Two symbols that no match takes divide the replacement. -/
theorem replaceAll_divide {d : α} (hblind : a.blind = true) (havoids : a.avoids s = true)
    (hs : ∀ before t, a.found before (s :: t) = []) (hd : ∀ before t, a.found before (d :: t) = [])
    (u t : List α) : replaceAll a replacement (u ++ s :: d :: t) =
      replaceAll a replacement u ++ s :: d :: replaceAll a replacement t := by
  have hrest : (scan a replacement 0 (some s) ([d] ++ t) []).1 =
      [d] ++ replaceAll a replacement t := by
    apply scan_none hblind
    intro c hc
    rw [List.mem_singleton.mp hc]
    exact hd
  rw [replaceAll, scan_divide havoids hs]
  exact congrArg (fun x => _ ++ s :: x) hrest

/-! ### Preferred matches -/

theorem head_prefixes : (prefixes p t).head? = some (t.takeWhile p, t.dropWhile p) := by
  induction t with
  | nil => rfl
  | cons c t ih =>
    rw [prefixes]
    by_cases hc : p c = true
    · rw [if_pos hc, List.head?_append, List.head?_map, ih]
      simp [hc]
    · rw [if_neg hc]
      simp [hc]

theorem head_many :
    ((many p).found before t).head? = some ⟨t.takeWhile p, [], t.dropWhile p⟩ := by
  rw [found_many, List.head?_map, head_prefixes]
  rfl

theorem head_seq {n : Match α} (hm : (a.found before t).head? = some m)
    (hn : (b.found (m.taken.getLast?.or before) m.rest).head? = some n) :
    ((seq a b).found before t).head? =
      some ⟨m.taken ++ n.taken, m.groups ++ n.groups, n.rest⟩ := by
  obtain ⟨ms, hms⟩ := List.head?_eq_some_iff.mp hm
  rw [found_seq, hms, List.flatMap_cons, List.head?_append, List.head?_map, hn]
  rfl

theorem head_many1 {c : α} (hc : p c = true) : ((many1 p).found before (c :: t)).head? =
    some ⟨c :: t.takeWhile p, [], t.dropWhile p⟩ := by
  apply head_seq (m := ⟨[c], [], t⟩) (n := ⟨t.takeWhile p, [], t.dropWhile p⟩)
  · rw [found_symbol_cons, if_pos hc]
    rfl
  · exact head_many

theorem head_alt_left (hm : (a.found before t).head? = some m) :
    ((alt a b).found before t).head? = some m := by
  rw [found_alt, List.head?_append, hm]
  rfl

theorem found_symbols {ps : List (α → Bool)} {u : List α}
    (h : List.Forall₂ (fun c p => p c = true) u ps) (before : Option α) (t : List α) :
    (symbols ps).found before (u ++ t) = [⟨u, [], t⟩] := by
  induction h generalizing before with
  | nil => rfl
  | cons hc _ ih =>
    show (seq _ (symbols _)).found before _ = _
    rw [List.cons_append, found_seq, found_symbol_cons, if_pos hc, List.flatMap_singleton, ih]
    rfl

/-! ### Copies -/

theorem avoids_atMost (h : a.avoids s = true) (n : Nat) : (atMost a n).avoids s = true := by
  induction n with
  | zero => rfl
  | succ n ih =>
    show ((a.avoids s && (atMost a n).avoids s) && true) = true
    rw [h, ih]
    rfl

theorem blind_atMost (hblind : a.blind = true) (hconsumes : a.consumes = true) (n : Nat) :
    (atMost a n).blind = true := by
  cases n with
  | zero => rfl
  | succ n =>
    show ((a.blind && (a.consumes || (atMost a n).blind)) && true) = true
    rw [hblind, hconsumes]
    rfl

/-! ### Patterns that agree -/

/-- The same pattern, with predicates that agree on some symbols. -/
inductive Agree (S : α → Prop) : Pattern α → Pattern α → Prop
  | empty : Agree S .empty .empty
  | symbol {p q : α → Bool} : (∀ c, S c → p c = q c) → Agree S (.symbol p) (.symbol q)
  | seq {a a' b b' : Pattern α} : Agree S a a' → Agree S b b' → Agree S (.seq a b) (.seq a' b')
  | alt {a a' b b' : Pattern α} : Agree S a a' → Agree S b b' → Agree S (.alt a b) (.alt a' b')
  | many {p q : α → Bool} : (∀ c, S c → p c = q c) → Agree S (.many p) (.many q)
  | group {a a' : Pattern α} : Agree S a a' → Agree S (.group a) (.group a')
  | notAfter {p q : α → Bool} : (∀ c, S c → p c = q c) → Agree S (.notAfter p) (.notAfter q)
  | notBefore {p q : α → Bool} : (∀ c, S c → p c = q c) → Agree S (.notBefore p) (.notBefore q)

section

variable {S : α → Prop} {a' b' : Pattern α}

theorem prefixes_congr {q : α → Bool} (h : ∀ c, S c → p c = q c) (ht : ∀ c ∈ t, S c) :
    prefixes p t = prefixes q t := by
  induction t with
  | nil => rfl
  | cons c t ih =>
    rw [prefixes, prefixes, h c (ht c List.mem_cons_self),
      ih fun d hd => ht d (List.mem_cons_of_mem c hd)]

theorem any_congr {q : α → Bool} {o : Option α} (h : ∀ c, S c → p c = q c) (ho : ∀ c ∈ o, S c) :
    o.any p = o.any q := by
  cases o with
  | none => rfl
  | some c => exact h c (ho c rfl)

/-- **Patterns that agree on the symbols of a text have the same matches in it.** -/
theorem Agree.found (h : Agree S a a') {before : Option α} (hbefore : ∀ c ∈ before, S c)
    {t : List α} (ht : ∀ c ∈ t, S c) : a.found before t = a'.found before t := by
  induction h generalizing before t with
  | empty => rfl
  | symbol h =>
    cases t with
    | nil => rfl
    | cons c t => rw [found_symbol_cons, found_symbol_cons, h c (ht c List.mem_cons_self)]
  | seq _ _ iha ihb =>
    rw [found_seq, found_seq, ← iha hbefore ht]
    refine List.flatMap_congr fun m hm => ?_
    have split := taken_append_rest hm
    have htaken : ∀ c ∈ m.taken, S c := fun c hc =>
      ht c (split ▸ List.mem_append_left m.rest hc)
    have hrest : ∀ c ∈ m.rest, S c := fun c hc => ht c (split ▸ List.mem_append_right m.taken hc)
    rw [ihb ?_ hrest]
    intro c hc
    cases hlast : m.taken.getLast? with
    | none =>
      rw [hlast] at hc
      exact hbefore c hc
    | some d =>
      rw [hlast] at hc
      obtain rfl := Option.some.inj hc
      exact htaken d (List.mem_of_getLast? hlast)
  | alt _ _ iha ihb => rw [found_alt, found_alt, iha hbefore ht, ihb hbefore ht]
  | many h => rw [found_many, found_many, prefixes_congr h ht]
  | group _ ih => rw [found_group, found_group, ih hbefore ht]
  | notAfter h => rw [found_notAfter, found_notAfter, any_congr h hbefore]
  | notBefore h =>
    rw [found_notBefore, found_notBefore, any_congr h fun c hc => ht c (List.mem_of_mem_head? hc)]

theorem Agree.refl_symbols (ps : List (α → Bool)) : Agree S (symbols ps) (symbols ps) := by
  induction ps with
  | nil => exact .empty
  | cons p ps ih => exact .seq (.symbol fun _ _ => rfl) ih

theorem Agree.opt (h : Agree S a a') : Agree S (Pattern.opt a) (Pattern.opt a') := .alt h .empty

theorem Agree.many1 {p q : α → Bool} (h : ∀ c, S c → p c = q c) :
    Agree S (Pattern.many1 p) (Pattern.many1 q) := .seq (.symbol h) (.many h)

theorem Agree.atMost (h : Agree S a a') (n : Nat) :
    Agree S (Pattern.atMost a n) (Pattern.atMost a' n) := by
  induction n with
  | zero => exact .empty
  | succ n ih => exact .opt (.seq h ih)

end

end Pattern
