/-
InferBridge/ExactContext.lean

The benchmark prompt with an exact number of tokens
(`_build_exact_context_prompt` in runtime/benchmark_runner_core.py).

The prompt is a message of filler characters.  The number of characters is searched
in three phases: the range is doubled until its end has enough tokens or is too long,
the range is bisected, and where that finds no hit the numbers around the gap are
tried, the longest prompt within the request winning.

Design.  The loops are total functions; the doubling ends because its end is positive.
Bisection is that of the library, so the gap it leaves separates the prompts that are
too short from those that are too long, and the scan around it sees the last short one.

Main result.  `buildExactContextPrompt_exact`.
-/
import InferBridge.Lib.Bisection

namespace InferBridge.ExactContext

/-! ### The search -/

structure Message where
  role : String
  content : List Char

/-- What the search asks the engine. -/
structure Engine (Prompt : Type) where
  applyChatTemplate : List Message → Prompt
  countTokens : Prompt → ℕ

variable {Prompt : Type} (engine : Engine Prompt)

/-- `render` -/
def render (characters : ℕ) : Prompt × ℕ :=
  let messages := [⟨"user", List.replicate characters 'x'⟩]
  let prompt := engine.applyChatTemplate messages
  (prompt, engine.countTokens prompt)

/-- The doubling of the end of the range. -/
def widen (requested high : ℕ) (hpos : 0 < high) : ℕ :=
  if (render engine high).2 < requested then
    if requested * 256 < high * 2 then high * 2
    else widen requested (high * 2) (Nat.mul_pos hpos Nat.two_pos)
  else high
termination_by requested * 256 + 1 - high
decreasing_by omega

/-- The end of the range that is bisected. -/
def searchEnd (requested : ℕ) : ℕ :=
  widen engine requested (max (requested * 8) 64) (lt_max_of_lt_right (by decide))

/-- The longest candidate within the request, the first of them. -/
def longest (requested : ℕ) (candidates : List (Prompt × ℕ)) : Option (Prompt × ℕ) :=
  (candidates.filter fun candidate => candidate.2 ≤ requested).argmax fun candidate => candidate.2

/-- `_build_exact_context_prompt` -/
def buildExactContextPrompt (requested : ℕ) : Prompt × ℕ :=
  let render := render engine
  match bisectFor (fun value => (render value.toNat).2) requested 0 (searchEnd engine requested) with
  | .found middle => render middle.toNat
  | .gap low high =>
    let candidates := (Int.range (max (high - 32) 0) (low + 33)).map fun value =>
      render value.toNat
    match candidates.find? fun candidate => candidate.2 = requested with
    | some exact => exact
    | none => (longest requested candidates).getD (render 0)

/-! ### What the search is for -/

/-- The number of tokens over the prompts with up to `last` characters: the requested one if one
of them has it, and otherwise the greatest below; it is greater only if the empty message has
more. -/
structure Exact (requested last result : ℕ) : Prop where
  hit : (∃ characters ≤ last, (render engine characters).2 = requested) → result = requested
  below : (∀ characters ≤ last, (render engine characters).2 ≠ requested) →
    (∃ characters ≤ last, (render engine characters).2 < requested) →
    IsGreatest {tokens | tokens < requested ∧
      ∃ characters ≤ last, (render engine characters).2 = tokens} result
  excess : requested < result → requested < (render engine 0).2

variable {engine} {requested : ℕ}

theorem le_widen {high : ℕ} (hpos : 0 < high) : high ≤ widen engine requested high hpos := by
  induction high, hpos using widen.induct engine requested with
  | case1 high hpos hfew hlong =>
      rw [widen, if_pos hfew, if_pos hlong]
      omega
  | case2 high hpos hfew hshort ih =>
      rw [widen, if_pos hfew, if_neg hshort]
      omega
  | case3 high hpos henough =>
      rw [widen, if_neg henough]

/-- The doubling stops where there are enough tokens, or beyond its limit. -/
theorem widen_stops (engine : Engine Prompt) (requested : ℕ) {high : ℕ} (hpos : 0 < high) :
    requested ≤ (render engine (widen engine requested high hpos)).2 ∨
      requested * 256 < widen engine requested high hpos := by
  induction high, hpos using widen.induct engine requested with
  | case1 high hpos hfew hlong =>
      rw [widen, if_pos hfew, if_pos hlong]
      exact .inr hlong
  | case2 high hpos hfew hshort ih =>
      rw [widen, if_pos hfew, if_neg hshort]
      exact ih
  | case3 high hpos henough =>
      rw [widen, if_neg henough]
      exact .inl (not_lt.mp henough)

/-- A hit is exact over any range that it lies in. -/
theorem Exact.of_hit {characters last : ℕ} (hlast : characters ≤ last)
    (hhit : (render engine characters).2 = requested) :
    Exact engine requested last (render engine characters).2 where
  hit _ := hhit
  below hnone _ := absurd hhit (hnone characters hlast)
  excess hover := absurd hhit hover.ne'

/-- Behind a prompt that is too long there is nothing to look for. -/
theorem Exact.shrink (hmono : Monotone fun characters => (render engine characters).2)
    {last last' result : ℕ} (hle : last ≤ last') (henough : requested ≤ (render engine last).2)
    (h : Exact engine requested last' result) : Exact engine requested last result where
  hit := fun ⟨characters, hin, hhit⟩ => h.hit ⟨characters, hin.trans hle, hhit⟩
  below hnone hsome := by
    have hwithin : ∀ characters, (render engine characters).2 < requested → characters ≤ last := by
      intro characters hfew
      by_contra hlong
      have hmore : (render engine last).2 ≤ (render engine characters).2 :=
        hmono (not_le.mp hlong).le
      omega
    have hnone' : ∀ characters ≤ last', (render engine characters).2 ≠ requested := by
      intro characters _ hhit
      have hlong : last ≤ characters := by
        by_contra hshort
        exact hnone characters (not_le.mp hshort).le hhit
      have hmore : (render engine last).2 ≤ (render engine characters).2 := hmono hlong
      exact hnone last le_rfl (by omega)
    obtain ⟨characters, hin, hfew⟩ := hsome
    obtain ⟨⟨hbelow, shown, -, hshown⟩, hgreatest⟩ :=
      h.below hnone' ⟨characters, hin.trans hle, hfew⟩
    refine ⟨⟨hbelow, shown, hwithin shown (hshown ▸ hbelow), hshown⟩, ?_⟩
    rintro tokens ⟨htokens, other, hother, hcount⟩
    exact hgreatest ⟨htokens, other, hother.trans hle, hcount⟩
  excess := h.excess

/-! ### The scan around the gap -/

/-- The candidates of a scan. -/
theorem mem_candidates {low high : Int} {candidate : Prompt × ℕ} :
    candidate ∈ (Int.range (max (high - 32) 0) (low + 33)).map
        (fun value => render engine value.toNat) ↔
      ∃ characters : ℕ, high - 32 ≤ characters ∧ (characters : Int) < low + 33 ∧
        render engine characters = candidate := by
  rw [List.mem_map]
  constructor
  · rintro ⟨value, hvalue, hcandidate⟩
    rw [Int.mem_range_iff] at hvalue
    exact ⟨value.toNat, by omega, by omega, hcandidate⟩
  · rintro ⟨characters, hlow, hhigh, hcandidate⟩
    refine ⟨characters, ?_, hcandidate⟩
    rw [Int.mem_range_iff]
    omega

/-- The longest prompt within the request is among the candidates. -/
theorem longest_spec {candidates : List (Prompt × ℕ)} {result : Prompt × ℕ}
    (h : longest requested candidates = some result) :
    result ∈ candidates ∧ result.2 ≤ requested ∧
      ∀ candidate ∈ candidates, candidate.2 ≤ requested → candidate.2 ≤ result.2 := by
  have hmem := List.argmax_mem h
  rw [List.mem_filter, decide_eq_true_eq] at hmem
  refine ⟨hmem.1, hmem.2, fun candidate hcandidate hwithin => ?_⟩
  apply List.le_of_mem_argmax _ h
  rw [List.mem_filter, decide_eq_true_eq]
  exact ⟨hcandidate, hwithin⟩

/-- Without a candidate within the request there is none. -/
theorem longest_eq_none {candidates : List (Prompt × ℕ)} (h : longest requested candidates = none) :
    ∀ candidate ∈ candidates, requested < candidate.2 := by
  intro candidate hcandidate
  rw [longest, List.argmax_eq_none, List.filter_eq_nil_iff] at h
  simpa using h candidate hcandidate

/-- The scan, where the gap has been closed in. -/
theorem scan_exact (hmono : Monotone fun characters => (render engine characters).2)
    {low high : Int} {last : ℕ} (hgap : low = high + 1) (hlow : 0 ≤ low) (hhigh : high ≤ last)
    (hbelow : ∀ value : Int, 0 ≤ value → value < low →
      (render engine value.toNat).2 < requested)
    (habove : ∀ value : Int, high < value → value ≤ last →
      requested < (render engine value.toNat).2)
    {result : Prompt × ℕ}
    (hnoHit : ∀ candidate ∈ (Int.range (max (high - 32) 0) (low + 33)).map
      (fun value => render engine value.toNat), candidate.2 ≠ requested)
    (hresult : (longest requested ((Int.range (max (high - 32) 0) (low + 33)).map
      fun value => render engine value.toNat)).getD (render engine 0) = result) :
    (∃ characters ≤ last + 33, render engine characters = result) ∧
      Exact engine requested (last + 33) result.2 := by
  have hcount : ∀ {i j : ℕ}, i ≤ j → (render engine i).2 ≤ (render engine j).2 := fun h => hmono h
  -- the numbers of the range that are not scanned
  have houtside : ∀ characters ≤ last + 33, ¬((characters : Int) < low + 33) →
      requested < (render engine characters).2 := by
    intro characters hin hout
    have hlast := habove low (by omega) (by omega)
    exact hlast.trans_le (hcount (by omega))
  have hnone : ∀ characters ≤ last + 33, (render engine characters).2 ≠ requested := by
    intro characters hin
    by_cases hscanned : high - 32 ≤ characters ∧ (characters : Int) < low + 33
    · exact hnoHit _ (mem_candidates.mpr ⟨characters, hscanned.1, hscanned.2, rfl⟩)
    · rw [not_and_or] at hscanned
      rcases hscanned with hscanned | hscanned
      · exact (hbelow characters (by omega) (by omega)).ne
      · exact (houtside characters hin hscanned).ne'
  rcases hlongest : longest requested ((Int.range (max (high - 32) 0) (low + 33)).map
      fun value => render engine value.toNat) with - | best
  · -- the empty message is not within the request either
    rw [hlongest, Option.getD_none] at hresult
    subst hresult
    have hempty : requested < (render engine 0).2 := by
      by_contra hfew
      by_cases hpositive : 0 < low
      · have hlast : render engine high.toNat ∈ (Int.range (max (high - 32) 0) (low + 33)).map
            (fun value => render engine value.toNat) :=
          mem_candidates.mpr ⟨high.toNat, by omega, by omega, rfl⟩
        have hover := longest_eq_none hlongest _ hlast
        have hunder := hbelow high (by omega) (by omega)
        omega
      · have hfirst : render engine 0 ∈ (Int.range (max (high - 32) 0) (low + 33)).map
            (fun value => render engine value.toNat) :=
          mem_candidates.mpr ⟨0, by omega, by omega, rfl⟩
        exact hfew (longest_eq_none hlongest _ hfirst)
    refine ⟨⟨0, by omega, rfl⟩, fun ⟨characters, hin, hhit⟩ => absurd hhit (hnone characters hin),
      fun _ hsome => ?_, fun _ => hempty⟩
    obtain ⟨characters, -, hfew⟩ := hsome
    have hmore := hcount (Nat.zero_le characters)
    omega
  · rw [hlongest, Option.getD_some] at hresult
    subst hresult
    obtain ⟨hmem, hwithin, hgreatest⟩ := longest_spec hlongest
    have hfew : best.2 < requested := lt_of_le_of_ne hwithin (hnoHit best hmem)
    obtain ⟨shown, hshownLow, hshownHigh, rfl⟩ := mem_candidates.mp hmem
    refine ⟨⟨shown, by omega, rfl⟩,
      fun ⟨characters, hin, hhit⟩ => absurd hhit (hnone characters hin), fun _ _ => ?_,
      fun hover => absurd hover (by omega)⟩
    refine ⟨⟨hfew, shown, by omega, rfl⟩, ?_⟩
    rintro tokens ⟨htokens, characters, hin, rfl⟩
    by_cases hscanned : high - 32 ≤ characters
    · have hinside : (characters : Int) < low + 33 := by
        by_contra hout
        have hover := houtside characters hin hout
        omega
      exact hgreatest _ (mem_candidates.mpr ⟨characters, hscanned, hinside, rfl⟩) htokens.le
    · -- a shorter one has no more tokens than the last before the gap, which is scanned
      have hlast : (render engine high.toNat).2 < requested := hbelow high (by omega) (by omega)
      have hbest := hgreatest _ (mem_candidates.mpr ⟨high.toNat, by omega, by omega, rfl⟩) hlast.le
      exact (hcount (by omega)).trans hbest

/-! ### The whole search -/

/-- **The prompt of the search.**  It is one of those with up to `searchEnd + 33` characters, which
are all that the search may look at, and exact over these; where the doubling ended with enough
tokens, it is exact over those with up to `searchEnd` as well. -/
theorem buildExactContextPrompt_exact (engine : Engine Prompt)
    (hmono : Monotone fun characters => (render engine characters).2) (requested : ℕ) :
    (∃ characters ≤ searchEnd engine requested + 33,
        render engine characters = buildExactContextPrompt engine requested) ∧
      Exact engine requested (searchEnd engine requested + 33)
        (buildExactContextPrompt engine requested).2 ∧
      max (requested * 8) 64 ≤ searchEnd engine requested ∧
      ((requested ≤ (render engine (searchEnd engine requested)).2 ∧
          Exact engine requested (searchEnd engine requested)
            (buildExactContextPrompt engine requested).2) ∨
        requested * 256 < searchEnd engine requested) := by
  have hsearch : (∃ characters ≤ searchEnd engine requested + 33,
      render engine characters = buildExactContextPrompt engine requested) ∧
      Exact engine requested (searchEnd engine requested + 33)
        (buildExactContextPrompt engine requested).2 := by
    unfold buildExactContextPrompt
    dsimp only
    split
    · next middle hfound =>
      obtain ⟨hhit, hlow, hhigh⟩ := bisectFor_found hfound
      exact ⟨⟨middle.toNat, by omega, rfl⟩, Exact.of_hit (by omega) hhit⟩
    · next low high hgap =>
      have hsorted : ∀ i j : Int, 0 ≤ i → i ≤ j → j ≤ searchEnd engine requested →
          (render engine i.toNat).2 ≤ (render engine j.toNat).2 :=
        fun i j _ hij _ => hmono (Int.toNat_le_toNat hij)
      obtain ⟨hnext, hlow, hhigh, hbelow, habove⟩ := bisectFor_gap hsorted le_rfl le_rfl
        (by omega) (fun _ _ _ => by omega) (fun _ _ _ => by omega) hgap
      split
      · next exact hexact =>
        have hhit := List.find?_some hexact
        rw [decide_eq_true_eq] at hhit
        obtain ⟨characters, -, hin, rfl⟩ := mem_candidates.mp (List.mem_of_find?_eq_some hexact)
        exact ⟨⟨characters, by omega, rfl⟩, Exact.of_hit (by omega) hhit⟩
      · next hnoHit =>
        refine scan_exact hmono hnext hlow hhigh hbelow habove ?_ rfl
        intro candidate hcandidate
        simpa using List.find?_eq_none.mp hnoHit candidate hcandidate
  refine ⟨hsearch.1, hsearch.2, le_widen _, ?_⟩
  rcases widen_stops engine requested (lt_max_of_lt_right (by decide : 0 < 64)) with
    henough | hlong
  · exact .inl ⟨henough, hsearch.2.shrink hmono (Nat.le_add_right _ _) henough⟩
  · exact .inr hlong

/-- A tokenizer with a token for four characters, behind three for the template. -/
def quarterEngine : Engine (List Message) where
  applyChatTemplate messages := messages
  countTokens messages := 3 + (messages.map fun message => message.content.length).sum / 4

theorem buildExactContextPrompt_exact_quarter :
    (buildExactContextPrompt quarterEngine 10).2 = 10 := by
  have hmono : Monotone fun characters => (render quarterEngine characters).2 := by
    intro i j hij
    simp only [render, quarterEngine, List.map_cons, List.map_nil, List.sum_cons, List.sum_nil,
      List.length_replicate]
    omega
  obtain ⟨-, hexact, hend, -⟩ := buildExactContextPrompt_exact quarterEngine hmono 10
  exact hexact.hit ⟨28, by omega, rfl⟩

end InferBridge.ExactContext
