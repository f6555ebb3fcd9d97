/-
InferBridge/Lib/Markup.lean

Texts that are written from pieces, and substitutions that leave the pieces
whole.

`render text ps` is the text of the pieces, one after another.  A symbol is
solid (`Solid`) if a piece that writes it writes nothing else.  Where a
pattern begins and ends its matches with solid symbols (`Wraps`), each
match begins and ends between two pieces, so its substitution is one of
pieces again.

A group of a match is a part of what the match takes (`group_isInfix`).

Main result.  `substitute_render`: the substitution of a wrapping pattern in
a rendered text is rendered too, from the pieces that were there and the two
that wrap, and the letters of the pieces stay in their order.
-/
import InferBridge.Lib.Holes

namespace Markup

open Pattern

variable {α β γ : Type*}

/-! ### Pieces -/

def render (text : β → List α) (ps : List β) : List α := ps.flatMap text

/-- The letters that the pieces stand for. -/
def letters (letter : β → Option γ) (ps : List β) : List γ := ps.filterMap letter

/-- A piece that writes the symbol writes nothing else. -/
def Solid (text : β → List α) (ps : List β) (d : α) : Prop := ∀ x ∈ ps, d ∈ text x → text x = [d]

variable {text : β → List α} {letter : β → Option γ} {ps qs : List β} {d : α} {u v w : List α}

theorem render_cons (x : β) : render text (x :: ps) = text x ++ render text ps :=
  List.flatMap_cons

theorem render_append : render text (ps ++ qs) = render text ps ++ render text qs :=
  List.flatMap_append

theorem letters_append : letters letter (ps ++ qs) = letters letter ps ++ letters letter qs :=
  List.filterMap_append ..

theorem Solid.tail {x : β} (h : Solid text (x :: ps) d) : Solid text ps d :=
  fun y hy => h y (List.mem_cons_of_mem x hy)

theorem Solid.suffix (h : Solid text (qs ++ ps) d) : Solid text ps d :=
  fun y hy => h y (List.mem_append_right qs hy)

/-- A solid symbol divides the pieces. -/
theorem render_split (h : Solid text ps d) (heq : render text ps = u ++ d :: v) :
    ∃ front x back, ps = front ++ x :: back ∧ text x = [d] ∧ render text front = u ∧
      render text back = v := by
  induction ps generalizing u with
  | nil => simp [render] at heq
  | cons x ps ih =>
    have hlater (u' : List α) (hu : u = text x ++ u') (heq' : render text ps = u' ++ d :: v) :
        ∃ front y back, x :: ps = front ++ y :: back ∧ text y = [d] ∧ render text front = u ∧
          render text back = v := by
      obtain ⟨front, y, back, rfl, hy, hfront, hback⟩ := ih h.tail heq'
      refine ⟨x :: front, y, back, rfl, hy, ?_, hback⟩
      rw [render_cons, hfront, hu]
    rw [render_cons] at heq
    rcases List.append_eq_append_iff.mp heq with ⟨u', hu, heq'⟩ | ⟨w, htext, hrest⟩
    · exact hlater u' hu heq'
    · cases w with
      | nil =>
        rw [List.append_nil] at htext
        exact hlater [] (by rw [htext, List.append_nil]) hrest.symm
      | cons c w =>
        obtain ⟨rfl, hv⟩ := List.cons.inj hrest
        have hx := h x List.mem_cons_self (by rw [htext]; simp)
        rw [hx] at htext
        obtain rfl : u = [] := by
          cases u with
          | nil => rfl
          | cons e u => simp at htext
        obtain rfl : w = [] := by simpa using htext.symm
        exact ⟨[], x, ps, rfl, hx, rfl, hv.symm⟩

/-- Solid symbols at the front are pieces of their own. -/
theorem render_split_front (h : ∀ c ∈ w, Solid text ps c) (heq : render text ps = w ++ v) :
    ∃ front back, ps = front ++ back ∧ render text front = w ∧ render text back = v := by
  induction w generalizing ps with
  | nil => exact ⟨[], ps, rfl, rfl, heq⟩
  | cons c w ih =>
    obtain ⟨front, x, back, rfl, hx, hfront, hback⟩ :=
      render_split (u := []) (h c List.mem_cons_self) heq
    have hsolid : ∀ e ∈ w, Solid text back e := by
      intro e he
      exact (h e (List.mem_cons_of_mem c he)).suffix.tail
    obtain ⟨front', back', rfl, hfront', hback'⟩ := ih hsolid hback
    refine ⟨front ++ x :: front', back', by rw [List.append_assoc]; rfl, ?_, hback'⟩
    rw [render_append, render_cons, hfront, hx, hfront']
    rfl

/-! ### Groups -/

/-- A group holds a part of what the match takes. -/
theorem group_isInfix {a : Pattern α} {before : Option α} {t : List α} {m : Match α}
    (h : m ∈ a.found before t) : ∀ g ∈ m.groups, g <:+: m.taken := by
  induction a generalizing before t m with
  | empty =>
    obtain rfl := mem_empty.mp h
    simp
  | symbol p =>
    obtain ⟨c, -, -, -, hgroups⟩ := mem_symbol.mp h
    simp [hgroups]
  | seq a b iha ihb =>
    obtain ⟨m₁, h₁, m₂, h₂, rfl⟩ := mem_seq.mp h
    intro g hg
    rcases List.mem_append.mp hg with hg | hg
    · exact (iha h₁ g hg).trans (List.prefix_append _ _).isInfix
    · exact (ihb h₂ g hg).trans (List.suffix_append _ _).isInfix
  | alt a b iha ihb =>
    rcases mem_alt.mp h with h | h
    · exact iha h
    · exact ihb h
  | many p => simp [(of_mem_many h).2.2]
  | group a ih =>
    obtain ⟨m₁, h₁, rfl⟩ := mem_group.mp h
    intro g hg
    rcases List.mem_cons.mp hg with rfl | hg
    · exact List.infix_rfl
    · exact ih h₁ g hg
  | notAfter p =>
    obtain ⟨-, rfl⟩ := mem_notAfter.mp h
    simp
  | notBefore p =>
    obtain ⟨-, rfl⟩ := mem_notBefore.mp h
    simp
  | boundary p =>
    rw [found_boundary] at h
    split at h
    · cases h
    · obtain rfl := List.mem_singleton.mp h
      simp

/-- At most `n` symbols with `p`. -/
theorem of_mem_atMost {p : α → Bool} {n : Nat} {before : Option α} {t : List α} {m : Match α}
    (h : m ∈ (atMost (.symbol p) n).found before t) :
    m.taken.length ≤ n ∧ (∀ c ∈ m.taken, p c = true) ∧ m.groups = [] := by
  induction n generalizing before t m with
  | zero =>
    obtain rfl := mem_empty.mp h
    simp
  | succ n ih =>
    rcases mem_opt.mp h with h | rfl
    · obtain ⟨m₁, h₁, m₂, h₂, rfl⟩ := mem_seq.mp h
      obtain ⟨c, hc, -, htaken, hgroups⟩ := mem_symbol.mp h₁
      obtain ⟨hlength, hall, hgroups₂⟩ := ih h₂
      show (m₁.taken ++ m₂.taken).length ≤ n + 1 ∧ (∀ c ∈ m₁.taken ++ m₂.taken, p c = true) ∧
        m₁.groups ++ m₂.groups = []
      rw [htaken, hgroups, hgroups₂]
      refine ⟨Nat.succ_le_succ hlength, ?_, rfl⟩
      intro e he
      rcases List.mem_cons.mp he with rfl | he
      · exact hc
      · exact hall e he
    · simp

/-! ### Substitutions -/

variable {a : Pattern α} {f : List (List α) → List α} {before : Option α}

/-- A match is some symbols, an opening and a closing delimiter with a content between them, all
but the content solid; the substitution puts two pieces in the place of the delimiters. -/
def Wraps (a : Pattern α) (f : List (List α) → List α) (solid : α → Prop)
    (opening closing : List α) : Prop :=
  ∀ before t m, (a.found before t).head? = some m → ∃ front open' content close',
    m.taken = front ++ open' ++ content ++ close' ∧ open' ≠ [] ∧ close' ≠ [] ∧
      (∀ c ∈ front, solid c) ∧ (∀ c ∈ open', solid c) ∧ (∀ c ∈ close', solid c) ∧
        f m.groups = front ++ opening ++ content ++ closing

theorem substituteFrom_skip (u v : List α) (before : Option α) :
    substituteFrom a f u.length before (u ++ v) =
      substituteFrom a f 0 (u.getLast?.or before) v := by
  induction u generalizing before with
  | nil => rfl
  | cons c u ih =>
    have hlast : (c :: u).getLast?.or before = u.getLast?.or (some c) := by
      cases u with
      | nil => rfl
      | cons e u =>
        rw [List.getLast?_cons_cons, List.getLast?_eq_some_getLast (List.cons_ne_nil e u)]
        rfl
    rw [hlast]
    exact ih (some c)

/-- A match begins with a solid symbol. -/
theorem Wraps.solid_head {solid : α → Prop} {opening closing : List α} {c : α} {t : List α}
    (h : Wraps a f solid opening closing) {m : Match α}
    (hm : (a.found before (c :: t)).head? = some m) : solid c := by
  obtain ⟨front, open', content, close', htaken, hopen, -, hfront, hopen', -, -⟩ := h _ _ _ hm
  have hsplit := taken_append_rest (List.mem_of_mem_head? hm)
  rw [htaken] at hsplit
  cases front with
  | cons e front =>
    obtain ⟨rfl, -⟩ := List.cons.inj hsplit
    exact hfront e List.mem_cons_self
  | nil =>
    obtain ⟨e, rest, rfl⟩ := List.exists_cons_of_ne_nil hopen
    obtain ⟨rfl, -⟩ := List.cons.inj hsplit
    exact hopen' e List.mem_cons_self

/-- Where no symbol is solid, nothing is substituted. -/
theorem substituteFrom_hollow {solid : α → Prop} {opening closing : List α}
    (h : Wraps a f solid opening closing) (hw : ∀ c ∈ w, ¬ solid c) (before : Option α) :
    ∃ before', substituteFrom a f 0 before (w ++ v) = w ++ substituteFrom a f 0 before' v := by
  induction w generalizing before with
  | nil => exact ⟨before, rfl⟩
  | cons c w ih =>
    obtain ⟨before', heq⟩ := ih (fun e he => hw e (List.mem_cons_of_mem c he)) (some c)
    refine ⟨before', ?_⟩
    rw [List.cons_append, substituteFrom]
    rcases hm : (a.found before (c :: (w ++ v))).head? with - | m
    · exact congrArg (c :: ·) heq
    · exact absurd (h.solid_head hm) (hw c List.mem_cons_self)

/-- **A wrapping substitution leaves the pieces whole.** -/
theorem substitute_render {solid : α → Prop} (text : β → List α) (letter : β → Option γ)
    (opening closing : β) (h : Wraps a f solid (text opening) (text closing))
    (hopening : letter opening = none) (hclosing : letter closing = none)
    (hsolid : ∀ d, solid d → Solid text ps d) (before : Option α) :
    ∃ qs, substituteFrom a f 0 before (render text ps) = render text qs ∧
      (letters letter qs).Sublist (letters letter ps) ∧
        ∀ x ∈ qs, x ∈ ps ∨ x = opening ∨ x = closing := by
  -- the rest behind a match is shorter than the pieces
  induction hn : ps.length using Nat.strong_induction_on generalizing ps before with
  | _ n ih =>
    cases ps with
    | nil => exact ⟨[], rfl, List.Sublist.refl _, fun x hx => absurd hx List.not_mem_nil⟩
    | cons x ps =>
      have hrest (before : Option α) := ih ps.length (by rw [← hn]; simp)
        (fun d hd => (hsolid d hd).tail) before rfl
      have hkeep (before' : Option α) (heq : substituteFrom a f 0 before (render text (x :: ps)) =
          text x ++ substituteFrom a f 0 before' (render text ps)) :
          ∃ qs, substituteFrom a f 0 before (render text (x :: ps)) = render text qs ∧
            (letters letter qs).Sublist (letters letter (x :: ps)) ∧
              ∀ y ∈ qs, y ∈ x :: ps ∨ y = opening ∨ y = closing := by
        obtain ⟨qs, hqs, hletters, hpieces⟩ := hrest before'
        refine ⟨x :: qs, ?_, ?_, ?_⟩
        · rw [heq, hqs, render_cons]
        · show (letters letter ([x] ++ qs)).Sublist (letters letter ([x] ++ ps))
          rw [letters_append, letters_append]
          exact hletters.append_left _
        · intro y hy
          rcases List.mem_cons.mp hy with rfl | hy
          · exact .inl List.mem_cons_self
          · exact (hpieces y hy).imp (List.mem_cons_of_mem x) id
      rcases htext : text x with - | ⟨c, w⟩
      · apply hkeep before
        rw [render_cons, htext]
        rfl
      rcases hm : (a.found before (c :: (w ++ render text ps))).head? with - | m
      · -- no match begins here, and none inside the piece
        have hhollow : ∀ e ∈ w, ¬ solid e := by
          intro e he hsolid'
          have hone := hsolid e hsolid' x List.mem_cons_self
            (by rw [htext]; exact List.mem_cons_of_mem c he)
          rw [htext] at hone
          obtain ⟨-, rfl⟩ := List.cons.inj hone
          cases he
        obtain ⟨before', heq⟩ := substituteFrom_hollow h hhollow (some c)
        apply hkeep before'
        rw [render_cons, htext, List.cons_append, substituteFrom, hm]
        exact congrArg (c :: ·) heq
      · obtain ⟨front, open', content, close', htaken, hopen, hclose, hfront, hopen', hclose',
          hf⟩ := h _ _ _ hm
        have hsplit := taken_append_rest (List.mem_of_mem_head? hm)
        have hrender : render text (x :: ps) =
            front ++ (open' ++ (content ++ (close' ++ m.rest))) := by
          rw [render_cons, htext, List.cons_append, ← hsplit, htaken]
          simp only [List.append_assoc]
        obtain ⟨pfront, back₁, hps₁, hpfront, hback₁⟩ :=
          render_split_front (fun c hc => hsolid c (hfront c hc)) hrender
        have hsolid₁ (d : α) (hd : solid d) : Solid text back₁ d := by
          have := hsolid d hd
          rw [hps₁] at this
          exact this.suffix
        obtain ⟨popen, back₂, hps₂, hpopen, hback₂⟩ :=
          render_split_front (fun c hc => hsolid₁ c (hopen' c hc)) hback₁
        have hsolid₂ (d : α) (hd : solid d) : Solid text back₂ d := by
          have := hsolid₁ d hd
          rw [hps₂] at this
          exact this.suffix
        obtain ⟨e, closing', hclose⟩ := List.exists_cons_of_ne_nil hclose
        rw [hclose] at hback₂ hclose'
        obtain ⟨pcontent, y, back₃, hps₃, hy, hpcontent, hback₃⟩ :=
          render_split (hsolid₂ e (hclose' e List.mem_cons_self)) hback₂
        have hsolid₃ (d : α) (hd : solid d) : Solid text back₃ d := by
          have := hsolid₂ d hd
          rw [hps₃] at this
          exact this.suffix.tail
        obtain ⟨pclose, prest, hps₄, hpclose, hprest⟩ :=
          render_split_front (fun c hc => hsolid₃ c (hclose' c (List.mem_cons_of_mem e hc))) hback₃
        have hall : x :: ps =
            pfront ++ (popen ++ (pcontent ++ ([y] ++ (pclose ++ prest)))) := by
          rw [hps₁, hps₂, hps₃, hps₄]
          rfl
        have hlength : prest.length < n := by
          have hpopen' : popen ≠ [] := by
            rintro rfl
            exact hopen hpopen.symm
          have hpos := List.length_pos_of_ne_nil hpopen'
          rw [← hn, hall]
          simp only [List.length_append, List.length_cons, List.length_nil]
          omega
        have hsolid₄ (d : α) (hd : solid d) : Solid text prest d := by
          have := hsolid₃ d hd
          rw [hps₄] at this
          exact this.suffix
        obtain ⟨taken, htaken'⟩ : ∃ taken, m.taken = c :: taken := by
          cases htaken' : m.taken with
          | nil =>
            rw [htaken] at htaken'
            simp [hopen] at htaken'
          | cons c' taken =>
            rw [htaken', List.cons_append] at hsplit
            obtain ⟨rfl, -⟩ := List.cons.inj hsplit
            exact ⟨taken, rfl⟩
        have hsubstitute : substituteFrom a f 0 before (render text (x :: ps)) =
            f m.groups ++ substituteFrom a f 0 (taken.getLast?.or (some c)) m.rest := by
          have htail : w ++ render text ps = taken ++ m.rest := by
            rw [htaken', List.cons_append] at hsplit
            exact (List.cons.inj hsplit).2.symm
          obtain ⟨mtaken, mgroups, mrest⟩ := m
          obtain rfl : mtaken = c :: taken := htaken'
          rw [render_cons, htext, List.cons_append, substituteFrom, hm]
          dsimp only
          rw [htail, substituteFrom_skip]
        obtain ⟨qs, hqs, hletters, hpieces⟩ :=
          ih prest.length hlength hsolid₄ (taken.getLast?.or (some c)) rfl
        refine ⟨pfront ++ (opening :: (pcontent ++ (closing :: qs))), ?_, ?_, ?_⟩
        · rw [hsubstitute, hf, ← hprest, hqs]
          simp only [render_append, render_cons, hpfront, hpcontent, List.append_assoc]
        · have hopening' : letters letter (opening :: (pcontent ++ (closing :: qs))) =
              letters letter pcontent ++ letters letter qs := by
            simp [letters, hopening, hclosing]
          rw [hall, letters_append, hopening', letters_append, letters_append, letters_append,
            letters_append]
          refine List.Sublist.append_left ?_ _
          refine List.Sublist.trans ?_ (List.sublist_append_right _ _)
          refine List.Sublist.append_left ?_ _
          rw [letters_append]
          exact (hletters.trans (List.sublist_append_right _ _)).trans
            (List.sublist_append_right _ _)
        · intro z hz
          rw [hall]
          simp only [List.mem_append, List.mem_cons] at hz ⊢
          rcases hz with hz | rfl | hz | rfl | hz
          · exact .inl (.inl hz)
          · exact .inr (.inl rfl)
          · exact .inl (.inr (.inr (.inl hz)))
          · exact .inr (.inr rfl)
          · refine (hpieces z hz).imp (fun h => ?_) id
            exact .inr (.inr (.inr (.inr (.inr h))))

end Markup
