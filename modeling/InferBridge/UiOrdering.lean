/-
InferBridge/UiOrdering.lean

The registry of browser extensions and the order of its document
(`register`, `activate`, `deactivate`, `_place` and `extensions` of
app/ui_registry.py).

Design.  A registry carries the distinctness of its ids as a field, since
`register` refuses a second payload under an id in use.  What an extension renders
is a parameter: nothing here reads it but the comparison in `register`.  `place` is
the single pass of the source over the active extensions; with one anchor for each
of them it is an instance of `Placement.Placed`.

Main result: `declared_order_iff`.
-/
import InferBridge.Tools
import InferBridge.Lib.Placement

namespace InferBridge.UiRegistry

open Relation Placement

variable {π : Type}

/-- `UiExtension`, as far as the order depends on it. -/
structure UiExtension (π : Type) where
  extensionId : Str
  before : List Str := []
  capability : Str := []
  payload : π
deriving DecidableEq

/-! ### The registry -/

/-- `_State` -/
structure Registry (π : Type) where
  entries : List (UiExtension π) := []
  capabilities : List Str := []
  revision : Nat := 0
  distinct : (entries.map UiExtension.extensionId).Nodup := by simp

theorem Registry.entries_nodup (registry : Registry π) : registry.entries.Nodup :=
  registry.distinct.of_map _

/-- An entry of the registry is determined by its id. -/
theorem Registry.eq_of_id (registry : Registry π) {x y : UiExtension π}
    (hx : x ∈ registry.entries) (hy : y ∈ registry.entries)
    (h : x.extensionId = y.extensionId) : x = y :=
  List.inj_on_of_nodup_map registry.distinct hx hy h

/-- `register` -/
def Registry.register [DecidableEq π] (registry : Registry π) (extension : UiExtension π) :
    Except Str (Registry π) :=
  match hfind : registry.entries.find? (·.extensionId = extension.extensionId) with
  | some existing =>
    if existing = extension then .ok registry
    else .error (extension.extensionId ++
      " is already registered with a different payload.".toList)
  | none => .ok { registry with
      entries := registry.entries ++ [extension]
      revision := registry.revision + 1
      distinct := by
        have hfresh : extension.extensionId ∉ registry.entries.map UiExtension.extensionId := by
          intro hmem
          obtain ⟨other, hother, hid⟩ := List.mem_map.mp hmem
          exact absurd hid (by simpa using List.find?_eq_none.mp hfind other hother)
        rw [List.map_append, List.map_singleton, List.nodup_append]
        refine ⟨registry.distinct, by simp, ?_⟩
        rintro id hid _ hlast rfl
        rw [List.mem_singleton] at hlast
        exact hfresh (hlast ▸ hid) }

/-- `activate` -/
def Registry.activate (registry : Registry π) (names : List Str) : Registry π :=
  let fresh := names.filter fun name => !name.isEmpty && !registry.capabilities.contains name
  if fresh.isEmpty then registry
  else { registry with
    capabilities := registry.capabilities ++ fresh.dedup
    revision := registry.revision + 1 }

/-- `deactivate` -/
def Registry.deactivate (registry : Registry π) (names : List Str) : Registry π :=
  let present := names.filter registry.capabilities.contains
  if present.isEmpty then registry
  else { registry with
    capabilities := registry.capabilities.filter (!present.contains ·)
    revision := registry.revision + 1 }

/-- Extensions with ids of their own are all taken, in the order they come. -/
theorem Registry.register_all [DecidableEq π] (registry : Registry π)
    (extensions : List (UiExtension π))
    (hids : ((registry.entries ++ extensions).map UiExtension.extensionId).Nodup) :
    ∃ registry', extensions.foldlM Registry.register registry = .ok registry' ∧
      registry'.entries = registry.entries ++ extensions := by
  induction extensions generalizing registry with
  | nil => exact ⟨registry, rfl, (List.append_nil _).symm⟩
  | cons extension rest ih =>
      have hnone : registry.entries.find? (·.extensionId = extension.extensionId) = none := by
        rw [List.find?_eq_none]
        intro other hother
        have hdisj : ∀ other ∈ registry.entries, other.extensionId ≠ extension.extensionId := by
          rw [List.map_append, List.nodup_append] at hids
          exact fun other hother =>
            hids.2.2 _ (List.mem_map_of_mem hother) _ (by simp)
        simpa using hdisj other hother
      have hstep : ∃ next, registry.register extension = .ok next ∧
          next.entries = registry.entries ++ [extension] := by
        rw [Registry.register]
        split
        · next hfind => rw [hnone] at hfind; exact absurd hfind (by simp)
        · exact ⟨_, rfl, rfl⟩
      obtain ⟨next, hnext, hentries⟩ := hstep
      obtain ⟨registry', hrest, hall⟩ := ih next (by rw [hentries]; simpa using hids)
      refine ⟨registry', ?_, ?_⟩
      · rw [List.foldlM_cons, hnext]
        exact hrest
      · rw [hall, hentries, List.append_assoc, List.singleton_append]

/-! ### The order of the document -/

/-- The place of an entry with the anchors `before`: that of the first one already placed. -/
def position (placed : List (UiExtension π)) : List Str → Nat
  | [] => placed.length
  | anchor :: rest =>
    match placed.findIdx? (·.extensionId = anchor) with
    | some found => found
    | none => position placed rest

/-- `_place` -/
def place (entries : List (UiExtension π)) : List (UiExtension π) :=
  entries.foldl (fun placed entry => placed.insertIdx (position placed entry.before) entry) []

/-- The entries whose capability is active. -/
def Registry.active (registry : Registry π) (capabilities : Option (List Str)) :
    List (UiExtension π) :=
  let active := capabilities.getD registry.capabilities
  registry.entries.filter fun entry =>
    entry.capability.isEmpty || active.contains entry.capability

theorem Registry.mem_active {registry : Registry π} {capabilities : Option (List Str)}
    {entry : UiExtension π} : entry ∈ registry.active capabilities ↔
      entry ∈ registry.entries ∧
        (entry.capability = [] ∨ entry.capability ∈ capabilities.getD registry.capabilities) := by
  simp [Registry.active]

/-- What renders after an activation. -/
theorem Registry.mem_active_activate {registry : Registry π} {names : List Str}
    {entry : UiExtension π} : entry ∈ (registry.activate names).active none ↔
      entry ∈ registry.entries ∧ (entry.capability = [] ∨
        entry.capability ∈ registry.capabilities ∨ entry.capability ∈ names) := by
  rw [Registry.mem_active, Registry.activate]
  split
  · -- every name is empty or known
    next hnone =>
    have hknown : ∀ name ∈ names, name ≠ [] → name ∈ registry.capabilities := by
      simpa using hnone
    refine and_congr_right fun _ => ?_
    constructor
    · exact fun h => h.imp_right Or.inl
    · rintro (h | h | h)
      · exact Or.inl h
      · exact Or.inr h
      · exact or_iff_not_imp_left.mpr (hknown _ h)
  · refine and_congr_right fun _ => ?_
    simp only [Option.getD_none, List.mem_append, List.mem_dedup, List.mem_filter,
      Bool.and_eq_true, Bool.not_eq_true', List.isEmpty_eq_false_iff, List.contains_eq_mem,
      decide_eq_false_iff_not]
    tauto

/-- What still renders after a deactivation. -/
theorem Registry.mem_active_deactivate {registry : Registry π} {names : List Str}
    {entry : UiExtension π} : entry ∈ (registry.deactivate names).active none ↔
      entry ∈ registry.entries ∧ (entry.capability = [] ∨
        entry.capability ∈ registry.capabilities ∧ entry.capability ∉ names) := by
  rw [Registry.mem_active, Registry.deactivate]
  split
  · next hnone =>
    have hunknown : ∀ name ∈ names, name ∉ registry.capabilities := by
      simpa using hnone
    refine and_congr_right fun _ => or_congr_right ?_
    exact ⟨fun h => ⟨h, fun hname => hunknown _ hname h⟩, fun h => h.1⟩
  · refine and_congr_right fun _ => ?_
    simp only [Option.getD_none, List.mem_filter, List.contains_eq_mem, Bool.not_eq_true',
      decide_eq_false_iff_not, decide_eq_true_eq]
    tauto

/-- `extensions` -/
def Registry.extensions (registry : Registry π) (capabilities : Option (List Str)) :
    List (UiExtension π) :=
  place (registry.active capabilities)

/-- `x` declares that it goes before `b`. -/
def DeclaresBefore (x b : UiExtension π) : Prop := x.before = [b.extensionId]

instance (x b : UiExtension π) : Decidable (DeclaresBefore x b) :=
  inferInstanceAs (Decidable (x.before = [b.extensionId]))

/-- Placing one more entry. -/
theorem place_concat (entries : List (UiExtension π)) (entry : UiExtension π) :
    place (entries ++ [entry]) =
      (place entries).insertIdx (position (place entries) entry.before) entry := by
  rw [place, List.foldl_append]
  rfl

theorem insertIdx_middle (l₁ l₂ : List (UiExtension π)) (x : UiExtension π) :
    (l₁ ++ l₂).insertIdx l₁.length x = l₁ ++ x :: l₂ := by
  induction l₁ with
  | nil => rfl
  | cons y l₁ ih =>
      show (y :: (l₁ ++ l₂)).insertIdx (l₁.length + 1) x = y :: (l₁ ++ x :: l₂)
      rw [List.insertIdx_succ_cons, ih]

/-- **The pass of the source puts each entry in front of its anchor, if that came first.** -/
theorem place_placed {entries : List (UiExtension π)}
    (hids : (entries.map UiExtension.extensionId).Nodup)
    (hone : ∀ entry ∈ entries, entry.before.length ≤ 1) :
    Placed DeclaresBefore entries (place entries) := by
  induction entries using List.reverseRecOn with
  | nil => exact Placed.nil
  | append_singleton entries entry ih =>
      rw [List.map_append, List.nodup_append] at hids
      have hplaced := ih hids.1 fun e he => hone e (List.mem_append_left _ he)
      rw [place_concat]
      have hentry := hone entry (by simp)
      rcases hbefore : entry.before with - | ⟨anchor, rest⟩
      · -- no declaration: the entry goes last
        rw [position, List.insertIdx_length_self]
        refine hplaced.last fun b _ h => ?_
        rw [DeclaresBefore, hbefore] at h
        exact absurd h (by simp)
      · obtain rfl : rest = [] := by
          rw [hbefore] at hentry
          simpa using hentry
        rw [position]
        cases hfind : (place entries).findIdx? (·.extensionId = anchor) with
        | none =>
            -- the anchor did not come yet: the entry goes last
            simp only [position, List.insertIdx_length_self]
            refine hplaced.last fun b hb h => ?_
            rw [DeclaresBefore, hbefore, List.cons.injEq] at h
            have hmem := hplaced.perm.symm.subset hb
            exact absurd h.1.symm (by simpa using List.findIdx?_eq_none_iff.mp hfind b hmem)
        | some found =>
            obtain ⟨b, l₁, l₂, hsplit, hfound, hid⟩ : ∃ b l₁ l₂, place entries = l₁ ++ b :: l₂ ∧
                l₁.length = found ∧ b.extensionId = anchor := by
              obtain ⟨hlt, hid, -⟩ := List.findIdx?_eq_some_iff_getElem.mp hfind
              refine ⟨(place entries)[found], (place entries).take found,
                (place entries).drop (found + 1), ?_, ?_, of_decide_eq_true hid⟩
              · rw [← List.drop_eq_getElem_cons hlt, List.take_append_drop]
              · exact List.length_take_of_le hlt.le
            have hdeclares : DeclaresBefore entry b := by rw [DeclaresBefore, hbefore, hid]
            have hinsert : (place entries).insertIdx found entry = l₁ ++ entry :: b :: l₂ := by
              rw [hsplit, ← hfound, insertIdx_middle]
            simp only [hinsert]
            exact Placed.front (hsplit ▸ hplaced) hdeclares

/-! ### What the order promises -/

/-- Declared order: every declaration with an active anchor is met, nothing is lost or
repeated, and the extensions that declare nothing stay in registration order. -/
structure Ordered (registry : Registry π) (capabilities : Option (List Str)) : Prop where
  declared : ∀ x ∈ registry.active capabilities, ∀ a ∈ registry.active capabilities,
    DeclaresBefore x a → Precedes x a (registry.extensions capabilities)
  permutation : (registry.extensions capabilities).Perm (registry.active capabilities)
  stable : (registry.extensions capabilities).filter (·.before.isEmpty) =
    (registry.active capabilities).filter (·.before.isEmpty)

/-- An extension registered before its anchor is registered before all that the anchor
hangs on: the extensions reached from it by anchors that were registered first. -/
def AnchorsInTime (active : List (UiExtension π)) : Prop :=
  ∀ x ∈ active, ∀ a ∈ active, DeclaresBefore x a → Precedes x a active →
    ∀ r, ReflTransGen (Hangs DeclaresBefore active) a r → Precedes x r active

/-- No chain of declarations among the entries comes back to its start. -/
def Acyclic (entries : List (UiExtension π)) : Prop :=
  ∀ x, ¬ TransGen (fun x b => x ∈ entries ∧ b ∈ entries ∧ DeclaresBefore x b) x x

variable (registry : Registry π) (capabilities : Option (List Str))

theorem Registry.active_sublist :
    (registry.active capabilities).Sublist registry.entries :=
  List.filter_sublist

theorem Registry.active_unique {x b c : UiExtension π}
    (hb : b ∈ registry.active capabilities) (hc : c ∈ registry.active capabilities)
    (hxb : DeclaresBefore x b) (hxc : DeclaresBefore x c) : b = c := by
  have hsub := (registry.active_sublist capabilities).subset
  refine registry.eq_of_id (hsub hb) (hsub hc) ?_
  exact (List.cons.injEq _ _ _ _ ▸ (hxb.symm.trans hxc)).1

/-- The order of the document is a placement of the active extensions. -/
theorem Registry.extensions_placed
    (hone : ∀ entry ∈ registry.entries, entry.before.length ≤ 1) :
    Placed DeclaresBefore (registry.active capabilities) (registry.extensions capabilities) := by
  have hsub := registry.active_sublist capabilities
  apply place_placed
  · exact (hsub.map _).nodup registry.distinct
  · exact fun entry hentry => hone entry (hsub.subset hentry)

/-- **Declared order.**  Where each extension names at most one anchor and no chain of
them is a cycle, the document keeps every declaration exactly when the extensions that
are registered before their anchors are registered before all the anchors hang on. -/
theorem declared_order_iff
    (hone : ∀ entry ∈ registry.entries, entry.before.length ≤ 1)
    (hacyclic : Acyclic registry.entries) :
    Ordered registry capabilities ↔ AnchorsInTime (registry.active capabilities) := by
  have hplaced := registry.extensions_placed capabilities hone
  have hsub := registry.active_sublist capabilities
  have hnodup := hsub.nodup registry.entries_nodup
  have hunique : ∀ x ∈ registry.active capabilities, ∀ b ∈ registry.active capabilities,
      ∀ c ∈ registry.active capabilities, DeclaresBefore x b → DeclaresBefore x c → b = c :=
    fun x _ b hb c hc => registry.active_unique capabilities hb hc
  -- an extension registered before its only anchor went to the end
  have hroot : ∀ x ∈ registry.active capabilities, ∀ a ∈ registry.active capabilities,
      DeclaresBefore x a → Precedes x a (registry.active capabilities) →
      ∀ b, ¬ Hangs DeclaresBefore (registry.active capabilities) x b := by
    intro x hx a ha hxa hfirst b hb
    obtain rfl : b = a := hunique x hx b hb.2.left a ha hb.1 hxa
    exact hfirst.asymm hnodup hb.2
  constructor
  · intro h x hx a ha hxa hfirst
    exact (hplaced.precedes_iff hnodup hunique hx ha (hroot x hx a ha hxa hfirst)).mp
      (h.declared x hx a ha hxa)
  · intro h
    refine ⟨fun x hx a ha hxa => ?_, hplaced.perm, ?_⟩
    · have hne : x ≠ a := by
        rintro rfl
        exact hacyclic x (.single ⟨hsub.subset hx, hsub.subset hx, hxa⟩)
      rcases Precedes.total hx ha hne with hfirst | hlater
      · exact (hplaced.precedes_iff hnodup hunique hx ha (hroot x hx a ha hxa hfirst)).mpr
          (h x hx a ha hxa hfirst)
      · exact hplaced.precedes_of_hangs hnodup hunique ⟨hxa, hlater⟩
    · refine hplaced.filter_eq fun x hx b hb => ?_
      rw [DeclaresBefore, List.isEmpty_iff.mp hx] at hb
      exact absurd hb (by simp)

/-! ### An anchor that comes late -/

/-- Where every declaration goes to a smaller rank, there is no cycle. -/
theorem acyclic_of_rank {entries : List (UiExtension π)} (rank : UiExtension π → Nat)
    (h : ∀ x ∈ entries, ∀ b ∈ entries, DeclaresBefore x b → rank b < rank x) :
    Acyclic entries := by
  have hdown : ∀ {x y}, TransGen (fun x b => x ∈ entries ∧ b ∈ entries ∧ DeclaresBefore x b) x y →
      rank y < rank x := by
    intro x y hxy
    induction hxy with
    | single hstep => exact h _ hstep.1 _ hstep.2.1 hstep.2.2
    | tail _ hstep ih => exact (h _ hstep.1 _ hstep.2.1 hstep.2.2).trans ih
  exact fun x hx => lt_irrefl _ (hdown hx)

/-- A dependant registered before its anchor, which itself goes in front of an earlier
extension. -/
def lateAnchor : Registry Unit where
  entries :=
    [{ extensionId := "controller".toList, payload := () },
      { extensionId := "status".toList, before := ["queue".toList], payload := () },
      { extensionId := "queue".toList, before := ["controller".toList], payload := () }]
  distinct := by decide

theorem lateAnchor_one : ∀ entry ∈ lateAnchor.entries, entry.before.length ≤ 1 := by decide

theorem lateAnchor_acyclic : Acyclic lateAnchor.entries := by
  -- the controller names nothing, the queue names the controller, the status the queue
  apply acyclic_of_rank fun entry =>
    if entry.before.isEmpty then 0 else 16 - entry.before.flatten.length
  decide

/-- The exact condition at the late anchor. -/
theorem declared_order_iff_lateAnchor :
    Ordered lateAnchor none ↔ AnchorsInTime (lateAnchor.active none) :=
  declared_order_iff lateAnchor none lateAnchor_one lateAnchor_acyclic

/-- The order depends on the registration: the queue moves in front of the controller, and so
in front of the status that was to precede it. -/
theorem lateAnchor_misplaced :
    ¬ ∀ (registry : Registry Unit) (capabilities : Option (List Str)),
      (∀ entry ∈ registry.entries, entry.before.length ≤ 1) → Acyclic registry.entries →
        Ordered registry capabilities := by
  intro h
  have hordered := h lateAnchor none lateAnchor_one lateAnchor_acyclic
  have hdeclared := hordered.declared
    { extensionId := "status".toList, before := ["queue".toList], payload := () } (by decide)
    { extensionId := "queue".toList, before := ["controller".toList], payload := () } (by decide)
  exact absurd (hdeclared rfl) (by decide)

end InferBridge.UiRegistry
