/-
InferBridge/Lib/Accepted.lean

What follows when a checking program accepts.

A program in `Except ε` that returns has passed every check on its way:
the rules below take its steps apart.
-/
import Mathlib

namespace Accepted

variable {ε α β γ σ : Type}

theorem bind_eq_ok {x : Except ε α} {f : α → Except ε β} {b : β} :
    x >>= f = .ok b ↔ ∃ a, x = .ok a ∧ f a = .ok b := by
  cases x with
  | error e =>
    constructor
    · intro h
      cases h
    · rintro ⟨a, h, -⟩
      cases h
  | ok a =>
    constructor
    · intro h
      exact ⟨a, rfl, h⟩
    · rintro ⟨a', h, hf⟩
      cases h
      exact hf

theorem map_eq_ok {x : Except ε α} {f : α → β} {b : β} :
    x.map f = .ok b ↔ ∃ a, x = .ok a ∧ f a = b := by
  cases x with
  | error e =>
    constructor
    · intro h
      cases h
    · rintro ⟨a, h, -⟩
      cases h
  | ok a =>
    constructor
    · intro h
      exact ⟨a, rfl, Except.ok.inj h⟩
    · rintro ⟨a', h, hf⟩
      obtain rfl := Except.ok.inj h
      exact congrArg Except.ok hf

/-- An accepted fold accepted every item. -/
theorem foldlM_mem {f : σ → α → Except ε σ} {items : List α} {s s' : σ}
    (h : items.foldlM f s = .ok s') : ∀ a ∈ items, ∃ t t', f t a = .ok t' := by
  induction items generalizing s with
  | nil => nofun
  | cons first rest ih =>
    rw [List.foldlM_cons] at h
    obtain ⟨t, hfirst, hrest⟩ := bind_eq_ok.mp h
    intro a ha
    rcases List.mem_cons.mp ha with rfl | ha
    · exact ⟨s, t, hfirst⟩
    · exact ih hrest a ha

/-- A measure that every item's image has in common with the item. -/
theorem mapM_map {f : α → Except ε β} {measure : α → γ} {measure' : β → γ} {items : List α}
    {images : List β} (hf : ∀ a ∈ items, ∀ b, f a = .ok b → measure' b = measure a)
    (h : items.mapM f = .ok images) : images.map measure' = items.map measure := by
  induction items generalizing images with
  | nil =>
    rw [List.mapM_nil] at h
    cases h
    rfl
  | cons first rest ih =>
    rw [List.mapM_cons] at h
    obtain ⟨b, hfirst, h⟩ := bind_eq_ok.mp h
    obtain ⟨tail, hrest, h⟩ := bind_eq_ok.mp h
    cases h
    rw [List.map_cons, List.map_cons, hf first List.mem_cons_self b hfirst,
      ih (fun a ha => hf a (List.mem_cons_of_mem _ ha)) hrest]

/-- An accepted map accepted the items one by one. -/
theorem mapM_eq_ok {f : α → Except ε β} {items : List α} {images : List β} :
    items.mapM f = .ok images ↔ List.Forall₂ (fun a b => f a = .ok b) items images := by
  induction items generalizing images with
  | nil =>
    rw [List.mapM_nil, List.forall₂_nil_left_iff]
    exact ⟨fun h => (Except.ok.inj h).symm, fun h => congrArg Except.ok h.symm⟩
  | cons first rest ih =>
    rw [List.mapM_cons, List.forall₂_cons_left_iff]
    constructor
    · intro h
      obtain ⟨b, hfirst, h⟩ := bind_eq_ok.mp h
      obtain ⟨tail, hrest, h⟩ := bind_eq_ok.mp h
      exact ⟨b, tail, hfirst, ih.mp hrest, (Except.ok.inj h).symm⟩
    · rintro ⟨b, tail, hfirst, hrest, rfl⟩
      exact bind_eq_ok.mpr ⟨b, hfirst, bind_eq_ok.mpr ⟨tail, ih.mpr hrest, rfl⟩⟩

theorem mapM_mem {f : α → Except ε β} {items : List α} {images : List β}
    (h : items.mapM f = .ok images) : ∀ a ∈ items, ∃ b, f a = .ok b := by
  have hall := mapM_eq_ok.mp h
  clear h
  induction hall with
  | nil => nofun
  | @cons a b _ _ hfirst _ ih =>
    intro a' ha'
    rcases List.mem_cons.mp ha' with rfl | ha'
    · exact ⟨b, hfirst⟩
    · exact ih a' ha'

end Accepted
