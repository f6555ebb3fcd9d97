/-
InferBridge/Lib/Placement.lean

Lists built by putting each new item in front of an item it names.

Design.  `Precedes x y l` says that `x` stands in front of `y` in `l`, as a
two-item sublist.  `Placed anchor items l` says that `l` comes from `items`, taken
one after the other: an item whose anchor is already there goes directly in
front of it, any other item goes to the end.  The items so form trees: the parent
of an item is its anchor, when that came first.  An item that went to the end is
the last of its own tree, and the trees stand in the order of their roots.

Main result: `Placed.precedes_iff` (an item that went to the end precedes another
one exactly when it came before everything the other one hangs on).
-/
import Mathlib

namespace InferBridge.Placement

open Relation

variable {α : Type*}

/-! ### The order of two items in a list -/

/-- `x` stands in front of `y` in `l`. -/
def Precedes (x y : α) (l : List α) : Prop := [x, y].Sublist l

instance [DecidableEq α] (x y : α) (l : List α) : Decidable (Precedes x y l) :=
  inferInstanceAs (Decidable ([x, y].Sublist l))

theorem Precedes.left {x y : α} {l : List α} (h : Precedes x y l) : x ∈ l :=
  h.subset (by simp)

theorem Precedes.right {x y : α} {l : List α} (h : Precedes x y l) : y ∈ l :=
  h.subset (by simp)

theorem precedes_append {x y : α} {l₁ l₂ : List α} :
    Precedes x y (l₁ ++ l₂) ↔ Precedes x y l₁ ∨ (x ∈ l₁ ∧ y ∈ l₂) ∨ Precedes x y l₂ := by
  constructor
  · intro h
    obtain ⟨a, b, hab, ha, hb⟩ := List.sublist_append_iff.mp h
    rcases a with - | ⟨u, - | ⟨v, w⟩⟩
    · right; right
      rw [List.nil_append] at hab
      subst hab
      exact hb
    · right; left
      simp only [List.cons_append, List.nil_append, List.cons.injEq] at hab
      obtain ⟨rfl, rfl⟩ := hab
      exact ⟨ha.subset (by simp), hb.subset (by simp)⟩
    · left
      simp only [List.cons_append, List.cons.injEq, List.nil_eq, List.append_eq_nil_iff] at hab
      obtain ⟨rfl, rfl, rfl, rfl⟩ := hab
      exact ha
  · rintro (h | ⟨hx, hy⟩ | h)
    · exact h.trans (List.sublist_append_left _ _)
    · exact (List.singleton_sublist.mpr hx).append (List.singleton_sublist.mpr hy)
    · exact h.trans (List.sublist_append_right _ _)

theorem precedes_cons {x y z : α} {l : List α} :
    Precedes x y (z :: l) ↔ (x = z ∧ y ∈ l) ∨ Precedes x y l := by
  have hone : ¬ Precedes x y [z] := fun h => by simpa using h.length_le
  rw [← List.singleton_append, precedes_append, List.mem_singleton]
  exact ⟨fun h => h.resolve_left hone, Or.inr⟩

theorem precedes_concat {x y z : α} {l : List α} :
    Precedes x y (l ++ [z]) ↔ Precedes x y l ∨ (x ∈ l ∧ y = z) := by
  have hone : ¬ Precedes x y [z] := fun h => by simpa using h.length_le
  rw [precedes_append, List.mem_singleton]
  simp [hone]

theorem Precedes.ne {x y : α} {l : List α} (hl : l.Nodup) (h : Precedes x y l) : x ≠ y := by
  rintro rfl
  exact absurd (h.nodup hl) (by simp)

theorem Precedes.asymm {x y : α} {l : List α} (hl : l.Nodup) (h : Precedes x y l) :
    ¬ Precedes y x l := by
  induction l with
  | nil => intro h'; exact absurd h'.left (by simp)
  | cons z l ih =>
      obtain ⟨hz, hl⟩ := List.nodup_cons.mp hl
      intro h'
      rcases precedes_cons.mp h with ⟨rfl, hy⟩ | hxy
      · rcases precedes_cons.mp h' with ⟨rfl, -⟩ | hyx
        · exact hz hy
        · exact hz hyx.right
      · rcases precedes_cons.mp h' with ⟨rfl, -⟩ | hyx
        · exact hz hxy.right
        · exact ih hl hxy hyx

theorem Precedes.total {x y : α} {l : List α} (hx : x ∈ l) (hy : y ∈ l) (hxy : x ≠ y) :
    Precedes x y l ∨ Precedes y x l := by
  induction l with
  | nil => exact absurd hx (by simp)
  | cons z l ih =>
      rw [precedes_cons, precedes_cons]
      rcases List.mem_cons.mp hx with rfl | hx'
      · left; left
        exact ⟨rfl, (List.mem_cons.mp hy).resolve_left hxy.symm⟩
      · rcases List.mem_cons.mp hy with rfl | hy'
        · right; left
          exact ⟨rfl, hx'⟩
        · exact (ih hx' hy').imp Or.inr Or.inr

/-- In a list without repetition, the items in front of `z` are those before its place. -/
theorem precedes_middle {x z : α} {l₁ l₂ : List α} (hl : (l₁ ++ z :: l₂).Nodup) :
    Precedes x z (l₁ ++ z :: l₂) ↔ x ∈ l₁ := by
  obtain ⟨-, hright, hdisj⟩ := List.nodup_append.mp hl
  obtain ⟨hz₂, -⟩ := List.nodup_cons.mp hright
  have hz₁ : z ∉ l₁ := fun h => hdisj z h z (by simp) rfl
  rw [precedes_append, precedes_cons]
  constructor
  · rintro (h | ⟨hx, -⟩ | ⟨-, h⟩ | h)
    · exact absurd h.right hz₁
    · exact hx
    · exact absurd h hz₂
    · exact absurd h.right hz₂
  · intro hx
    right; left
    exact ⟨hx, by simp⟩

/-- An item that is inserted does not change the order of the others. -/
theorem precedes_insert {x y z : α} {l₁ l₂ : List α} (hx : x ≠ z) (hy : y ≠ z) :
    Precedes x y (l₁ ++ z :: l₂) ↔ Precedes x y (l₁ ++ l₂) := by
  rw [precedes_append, precedes_cons, precedes_append]
  simp [hx, hy]

theorem notMem_of_nodup_concat {y : α} {l : List α} (h : (l ++ [y]).Nodup) : y ∉ l :=
  fun hy => (List.nodup_append.mp h).2.2 y hy y (by simp) rfl

/-! ### Placing items one after the other -/

/-- `l` holds `items`, each put in front of its anchor if that was already there. -/
inductive Placed (anchor : α → α → Prop) : List α → List α → Prop
  | nil : Placed anchor [] []
  | last {items l : List α} {x : α} : Placed anchor items l → (∀ b ∈ items, ¬ anchor x b) →
      Placed anchor (items ++ [x]) (l ++ [x])
  | front {items l₁ l₂ : List α} {x b : α} : Placed anchor items (l₁ ++ b :: l₂) → anchor x b →
      Placed anchor (items ++ [x]) (l₁ ++ x :: b :: l₂)

variable {anchor : α → α → Prop} {items l : List α}

theorem Placed.perm (h : Placed anchor items l) : l.Perm items := by
  induction h with
  | nil => exact .refl _
  | last _ _ ih => exact ih.append_right _
  | @front items l₁ l₂ x b _ _ ih =>
      calc (l₁ ++ x :: b :: l₂).Perm (x :: (l₁ ++ b :: l₂)) := List.perm_middle
        _ |>.Perm (x :: items) := ih.cons x
        _ |>.Perm (items ++ [x]) := (List.perm_append_singleton x items).symm

/-- The items without an anchor keep their order. -/
theorem Placed.filter_eq {p : α → Bool} (h : Placed anchor items l)
    (hp : ∀ x, p x = true → ∀ b, ¬ anchor x b) : l.filter p = items.filter p := by
  induction h with
  | nil => rfl
  | last _ _ ih => rw [List.filter_append, List.filter_append, ih]
  | @front items l₁ l₂ x b _ hanchor ih =>
      have hx : ¬ p x = true := fun hx => hp x hx b hanchor
      rw [List.filter_append, List.filter_cons_of_neg hx, ← List.filter_append, ih]
      rw [List.filter_append, List.filter_cons_of_neg hx, List.filter_nil, List.append_nil]

/-- `b` is the anchor of `x` and came first. -/
def Hangs (anchor : α → α → Prop) (items : List α) (x b : α) : Prop :=
  anchor x b ∧ Precedes b x items

theorem hangs_concat {x y b : α} (hy : y ∉ items) (hx : x ∈ items) :
    Hangs anchor (items ++ [y]) x b ↔ Hangs anchor items x b := by
  have hxy : x ≠ y := fun h => hy (h ▸ hx)
  rw [Hangs, Hangs, precedes_concat]
  simp [hxy]

theorem hangs_last {y b : α} (hy : y ∉ items) :
    Hangs anchor (items ++ [y]) y b ↔ anchor y b ∧ b ∈ items := by
  rw [Hangs, precedes_concat]
  have hnot : ¬ Precedes b y items := fun h => hy h.right
  simp [hnot]

/-- What an earlier item hangs on does not change when another item comes. -/
theorem hangsOn_concat {x y r : α} (hy : y ∉ items) (hx : x ∈ items) :
    ReflTransGen (Hangs anchor (items ++ [y])) x r ↔ ReflTransGen (Hangs anchor items) x r := by
  constructor
  · intro h
    have hboth : ReflTransGen (Hangs anchor items) x r ∧ r ∈ items := by
      induction h with
      | refl => exact ⟨.refl, hx⟩
      | @tail b c _ hstep ih =>
          obtain ⟨hchain, hb⟩ := ih
          have hstep' := (hangs_concat hy hb).mp hstep
          exact ⟨hchain.tail hstep', hstep'.2.left⟩
    exact hboth.1
  · intro h
    induction h with
    | refl => exact .refl
    | tail _ hstep ih =>
        exact ih.tail ((hangs_concat hy hstep.2.right).mpr hstep)

/-- What a new item hangs on: itself, and what its anchor hangs on. -/
theorem hangsOn_front {y b r : α} (hy : y ∉ items) (hb : b ∈ items) (hanchor : anchor y b)
    (hone : ∀ c ∈ items, anchor y c → c = b) :
    ReflTransGen (Hangs anchor (items ++ [y])) y r ↔
      r = y ∨ ReflTransGen (Hangs anchor items) b r := by
  constructor
  · intro h
    rcases ReflTransGen.cases_head h with rfl | ⟨c, hstep, hrest⟩
    · exact Or.inl rfl
    · right
      obtain ⟨hc, hmem⟩ := (hangs_last hy).mp hstep
      obtain rfl : c = b := hone c hmem hc
      exact (hangsOn_concat hy hmem).mp hrest
  · rintro (rfl | h)
    · exact .refl
    · exact .head ((hangs_last hy).mpr ⟨hanchor, hb⟩) ((hangsOn_concat hy hb).mpr h)

/-- An item nothing earlier is the anchor of hangs on itself alone. -/
theorem hangsOn_last {y r : α} (hy : y ∉ items) (hroot : ∀ b ∈ items, ¬ anchor y b) :
    ReflTransGen (Hangs anchor (items ++ [y])) y r ↔ r = y := by
  constructor
  · intro h
    rcases ReflTransGen.cases_head h with rfl | ⟨c, hstep, -⟩
    · rfl
    · obtain ⟨hc, hmem⟩ := (hangs_last hy).mp hstep
      exact absurd hc (hroot c hmem)
  · rintro rfl
    exact .refl

/-- An item stands in front of the anchor that came before it. -/
theorem Placed.precedes_of_hangs (h : Placed anchor items l) (hitems : items.Nodup)
    (hone : ∀ x ∈ items, ∀ b ∈ items, ∀ c ∈ items, anchor x b → anchor x c → b = c) {x b : α}
    (hhangs : Hangs anchor items x b) : Precedes x b l := by
  induction h with
  | nil => exact absurd hhangs.2.left (by simp)
  | @last items l y hplaced hroot ih =>
      have hy : y ∉ items := notMem_of_nodup_concat hitems
      have hone' : ∀ x ∈ items, ∀ b ∈ items, ∀ c ∈ items, anchor x b → anchor x c → b = c :=
        fun x hx b hb c hc => hone x (by simp [hx]) b (by simp [hb]) c (by simp [hc])
      by_cases hxy : x = y
      · subst hxy
        obtain ⟨hanchor, hb⟩ := (hangs_last hy).mp hhangs
        exact absurd hanchor (hroot b hb)
      · have hx : x ∈ items := by simpa [hxy] using hhangs.2.right
        have hold := ih (List.nodup_append.mp hitems).1 hone' ((hangs_concat hy hx).mp hhangs)
        exact precedes_concat.mpr (Or.inl hold)
  | @front items l₁ l₂ y b' hplaced hanchor' ih =>
      have hy : y ∉ items := notMem_of_nodup_concat hitems
      have hone' : ∀ x ∈ items, ∀ b ∈ items, ∀ c ∈ items, anchor x b → anchor x c → b = c :=
        fun x hx b hb c hc => hone x (by simp [hx]) b (by simp [hb]) c (by simp [hc])
      have hb' : b' ∈ items := hplaced.perm.subset (by simp)
      by_cases hxy : x = y
      · subst hxy
        obtain ⟨hanchor, hb⟩ := (hangs_last hy).mp hhangs
        obtain rfl : b = b' :=
          hone x (by simp) b (by simp [hb]) b' (by simp [hb']) hanchor hanchor'
        exact precedes_append.mpr (Or.inr (Or.inr (precedes_cons.mpr (Or.inl ⟨rfl, by simp⟩))))
      · have hx : x ∈ items := by simpa [hxy] using hhangs.2.right
        have hhangs' := (hangs_concat hy hx).mp hhangs
        have hold := ih (List.nodup_append.mp hitems).1 hone' hhangs'
        have hby : b ≠ y := fun h => hy (h ▸ hhangs'.2.left)
        exact (precedes_insert hxy hby).mpr hold

/-- **The order of an item that went to the end.**  It stands in front of another item
exactly when it came before everything the other one hangs on. -/
theorem Placed.precedes_iff (h : Placed anchor items l) (hitems : items.Nodup)
    (hone : ∀ x ∈ items, ∀ b ∈ items, ∀ c ∈ items, anchor x b → anchor x c → b = c) {d a : α}
    (hd : d ∈ items) (ha : a ∈ items) (hroot : ∀ b, ¬ Hangs anchor items d b) :
    Precedes d a l ↔ ∀ r, ReflTransGen (Hangs anchor items) a r → Precedes d r items := by
  induction h generalizing a with
  | nil => exact absurd hd (by simp)
  | @last items l y hplaced hfree ih =>
      have hy : y ∉ items := notMem_of_nodup_concat hitems
      have hyl : y ∉ l := fun h => hy (hplaced.perm.subset h)
      have hone' : ∀ x ∈ items, ∀ b ∈ items, ∀ c ∈ items, anchor x b → anchor x c → b = c :=
        fun x hx b hb c hc => hone x (by simp [hx]) b (by simp [hb]) c (by simp [hc])
      by_cases hay : a = y
      · -- `a` is the newest item and stands last
        subst hay
        simp only [hangsOn_last hy hfree, forall_eq]
        rw [precedes_concat, precedes_concat]
        have h₁ : ¬ Precedes d a l := fun h => hyl h.right
        have h₂ : ¬ Precedes d a items := fun h => hy h.right
        simp [h₁, h₂, hplaced.perm.mem_iff]
      · have ha' : a ∈ items := by simpa [hay] using ha
        simp only [hangsOn_concat hy ha']
        by_cases hdy : d = y
        · -- the newest item stands in front of nothing
          subst hdy
          constructor
          · intro h
            rcases precedes_concat.mp h with h | ⟨h, -⟩
            · exact absurd h.left hyl
            · exact absurd h hyl
          · intro h
            rcases precedes_concat.mp (h a .refl) with h | ⟨h, -⟩
            · exact absurd h.left hy
            · exact absurd h hy
        · have hd' : d ∈ items := by simpa [hdy] using hd
          have hroot' : ∀ b, ¬ Hangs anchor items d b :=
            fun b hb => hroot b ((hangs_concat hy hd').mpr hb)
          have hold := ih (List.nodup_append.mp hitems).1 hone' hd' ha' hroot'
          rw [precedes_concat, or_iff_left (fun h => hay h.2), hold]
          refine forall_congr' fun r => imp_congr_right fun hr => ?_
          have hr' : r ≠ y := by
            rintro rfl
            rcases ReflTransGen.cases_tail hr with rfl | ⟨c, -, hstep⟩
            · exact hay rfl
            · exact hy hstep.2.left
          rw [precedes_concat, or_iff_left (fun h => hr' h.2)]
  | @front items l₁ l₂ y b hplaced hanchor ih =>
      have hy : y ∉ items := notMem_of_nodup_concat hitems
      have hnodup := (List.nodup_append.mp hitems).1
      have hone' : ∀ x ∈ items, ∀ b ∈ items, ∀ c ∈ items, anchor x b → anchor x c → b = c :=
        fun x hx b hb c hc => hone x (by simp [hx]) b (by simp [hb]) c (by simp [hc])
      have hb : b ∈ items := hplaced.perm.subset (by simp)
      have hyl : y ∉ l₁ ++ b :: l₂ := fun h => hy (hplaced.perm.subset h)
      -- an item that went in front of its anchor hangs on it
      have hdy : d ≠ y := by
        rintro rfl
        exact hroot b ((hangs_last hy).mpr ⟨hanchor, hb⟩)
      have hd' : d ∈ items := by simpa [hdy] using hd
      have hroot' : ∀ c, ¬ Hangs anchor items d c :=
        fun c hc => hroot c ((hangs_concat hy hd').mpr hc)
      have hstays : ∀ r, r ∈ items → (Precedes d r (items ++ [y]) ↔ Precedes d r items) := by
        intro r hr
        have hry : r ≠ y := fun h => hy (h ▸ hr)
        rw [precedes_concat, or_iff_left (fun h => hry h.2)]
      have hmem : ∀ {c r}, c ∈ items → ReflTransGen (Hangs anchor items) c r → r ∈ items := by
        intro c r hc hr
        rcases ReflTransGen.cases_tail hr with rfl | ⟨e, -, hstep⟩
        · exact hc
        · exact hstep.2.left
      by_cases hay : a = y
      · -- the newest item takes the place directly in front of its anchor
        subst hay
        have hl : (l₁ ++ b :: l₂).Nodup := hplaced.perm.nodup_iff.mpr hnodup
        have hl' : (l₁ ++ a :: b :: l₂).Nodup :=
          (Placed.front hplaced hanchor).perm.nodup_iff.mpr hitems
        have hold := ih hnodup hone' hd' hb hroot'
        rw [precedes_middle hl', ← precedes_middle hl, hold]
        have hfront : ∀ r, ReflTransGen (Hangs anchor (items ++ [a])) a r ↔
            r = a ∨ ReflTransGen (Hangs anchor items) b r := fun r =>
          hangsOn_front hy hb hanchor fun c hc h =>
            hone a (by simp) c (by simp [hc]) b (by simp [hb]) h hanchor
        constructor
        · intro h r hr
          rcases (hfront r).mp hr with rfl | hr
          · exact precedes_concat.mpr (Or.inr ⟨hd', rfl⟩)
          · exact (hstays r (hmem hb hr)).mpr (h r hr)
        · intro h r hr
          exact (hstays r (hmem hb hr)).mp (h r ((hfront r).mpr (Or.inr hr)))
      · have ha' : a ∈ items := by simpa [hay] using ha
        simp only [hangsOn_concat hy ha']
        have hold := ih hnodup hone' hd' ha' hroot'
        rw [precedes_insert hdy hay, hold]
        exact forall_congr' fun r => imp_congr_right fun hr => (hstays r (hmem ha' hr)).symm

end InferBridge.Placement
