/-
InferBridge/Lib/Dict.lean

Insertion-ordered dictionaries.

`set` replaces the value of a key where it stands and appends a new key at
the end.  The keys of a dictionary are distinct by construction.

Main results.  What `set` does to look-ups (`get?_set`) and to the items
(`forall_set`); and when decoding the encoded values gives the dictionary
back (`filterMap_mapValues_eq_iff`).
-/
import Mathlib

variable {κ ν ν' : Type*}

structure Dict (κ ν : Type*) where
  items : List (κ × ν)
  nodup : (items.map Prod.fst).Nodup

namespace Dict

@[ext] theorem ext {d d' : Dict κ ν} (h : d.items = d'.items) : d = d' := by
  cases d
  cases d'
  simpa using h

def empty : Dict κ ν := ⟨[], List.nodup_nil⟩

/-! ### Reading and writing -/

section
variable [DecidableEq κ]

def get? (d : Dict κ ν) (k : κ) : Option ν := d.items.lookup k

theorem lookup_cons (k : κ) (item : κ × ν) (rest : List (κ × ν)) :
    (item :: rest).lookup k = if k = item.1 then some item.2 else rest.lookup k := by
  obtain ⟨a, v⟩ := item
  by_cases hk : k = a
  · simp [List.lookup, hk]
  · have hne : (k == a) = false := by simpa using hk
    simp [List.lookup, hne, hk]

def setItems (k : κ) (v : ν) : List (κ × ν) → List (κ × ν)
  | [] => [(k, v)]
  | item :: rest => if item.1 = k then (k, v) :: rest else item :: setItems k v rest

theorem keys_setItems (k : κ) (v : ν) (items : List (κ × ν)) :
    (setItems k v items).map Prod.fst =
      if k ∈ items.map Prod.fst then items.map Prod.fst else items.map Prod.fst ++ [k] := by
  induction items with
  | nil => rfl
  | cons item rest ih =>
    unfold setItems
    by_cases hk : item.1 = k
    · simp [hk]
    · have hk' : k ≠ item.1 := fun h => hk h.symm
      by_cases hrest : k ∈ rest.map Prod.fst
      · rw [if_neg hk, List.map_cons, ih, if_pos hrest, List.map_cons,
          if_pos (List.mem_cons_of_mem _ hrest)]
      · have hnot : k ∉ item.1 :: rest.map Prod.fst := by
          rw [List.mem_cons, not_or]
          exact ⟨hk', hrest⟩
        rw [if_neg hk, List.map_cons, ih, if_neg hrest, List.map_cons, if_neg hnot]
        rfl

/-- `d[k] = v` -/
def set (d : Dict κ ν) (k : κ) (v : ν) : Dict κ ν where
  items := setItems k v d.items
  nodup := by
    rw [keys_setItems]
    split
    · exact d.nodup
    · next hnew =>
      rw [List.nodup_append]
      refine ⟨d.nodup, List.nodup_singleton k, ?_⟩
      rintro a ha b hb rfl
      rw [List.mem_singleton] at hb
      exact hnew (hb ▸ ha)

theorem lookup_setItems (k k' : κ) (v : ν) (items : List (κ × ν)) :
    (setItems k v items).lookup k' = if k' = k then some v else items.lookup k' := by
  induction items with
  | nil => exact lookup_cons k' (k, v) []
  | cons item rest ih =>
    unfold setItems
    by_cases hitem : item.1 = k
    · rw [if_pos hitem, lookup_cons, lookup_cons, hitem]
      split <;> rfl
    · rw [if_neg hitem, lookup_cons, lookup_cons, ih]
      by_cases hk : k' = item.1
      · have hne : k' ≠ k := fun h => hitem (hk.symm.trans h)
        rw [if_pos hk, if_neg hne, if_pos hk]
      · rw [if_neg hk, if_neg hk]

theorem get?_set (d : Dict κ ν) (k k' : κ) (v : ν) :
    (d.set k v).get? k' = if k' = k then some v else d.get? k' :=
  lookup_setItems k k' v d.items

@[simp] theorem get?_set_self (d : Dict κ ν) (k : κ) (v : ν) : (d.set k v).get? k = some v := by
  rw [get?_set, if_pos rfl]

theorem get?_set_of_ne (d : Dict κ ν) {k k' : κ} (v : ν) (h : k' ≠ k) :
    (d.set k v).get? k' = d.get? k' := by
  rw [get?_set, if_neg h]

theorem mem_of_lookup {k : κ} {v : ν} {items : List (κ × ν)} (h : items.lookup k = some v) :
    (k, v) ∈ items := by
  induction items with
  | nil => cases h
  | cons item rest ih =>
    rw [lookup_cons] at h
    split at h
    · next hk =>
      obtain rfl := Option.some.inj h
      rw [hk]
      exact List.mem_cons_self
    · exact List.mem_cons_of_mem _ (ih h)

theorem mem_of_get? {d : Dict κ ν} {k : κ} {v : ν} (h : d.get? k = some v) : (k, v) ∈ d.items :=
  mem_of_lookup h

theorem get?_of_mem {d : Dict κ ν} {item : κ × ν} (h : item ∈ d.items) :
    d.get? item.1 = some item.2 := by
  have hnodup := d.nodup
  show d.items.lookup item.1 = some item.2
  generalize d.items = items at h hnodup
  induction items with
  | nil => cases h
  | cons first rest ih =>
    obtain ⟨hfirst, hrest⟩ := List.nodup_cons.mp hnodup
    rw [lookup_cons]
    rcases List.mem_cons.mp h with rfl | h
    · exact if_pos rfl
    · have hne : item.1 ≠ first.1 := fun heq => hfirst (heq ▸ List.mem_map_of_mem h)
      rw [if_neg hne]
      exact ih h hrest

theorem mem_keys_iff {d : Dict κ ν} {k : κ} :
    k ∈ d.items.map Prod.fst ↔ (d.get? k).isSome = true := by
  show k ∈ d.items.map Prod.fst ↔ (d.items.lookup k).isSome = true
  generalize d.items = items
  induction items with
  | nil => exact iff_of_false List.not_mem_nil Bool.false_ne_true
  | cons item rest ih =>
    rw [lookup_cons, List.map_cons, List.mem_cons]
    split_ifs with h
    · exact iff_of_true (.inl h) rfl
    · rw [← ih]
      exact or_iff_right h

theorem mem_setItems {k : κ} {v : ν} {items : List (κ × ν)} (h : (items.map Prod.fst).Nodup)
    {item : κ × ν} : item ∈ setItems k v items ↔ item = (k, v) ∨ (item ∈ items ∧ item.1 ≠ k) := by
  induction items with
  | nil => simp [setItems]
  | cons first rest ih =>
    obtain ⟨hfirst, hrest⟩ := List.nodup_cons.mp h
    unfold setItems
    split
    · next hk =>
      -- the key does not occur again
      have hother (item : κ × ν) (hmem : item ∈ rest) : item.1 ≠ k := by
        rintro hsame
        exact hfirst (hk ▸ hsame ▸ List.mem_map_of_mem hmem)
      rw [List.mem_cons, List.mem_cons]
      constructor
      · rintro (rfl | hmem)
        · exact .inl rfl
        · exact .inr ⟨.inr hmem, hother item hmem⟩
      · rintro (rfl | ⟨rfl | hmem, hne⟩)
        · exact .inl rfl
        · exact absurd hk hne
        · exact .inr hmem
    · next hk =>
      rw [List.mem_cons, List.mem_cons, ih hrest]
      constructor
      · rintro (rfl | heq | ⟨hmem, hne⟩)
        · exact .inr ⟨.inl rfl, hk⟩
        · exact .inl heq
        · exact .inr ⟨.inr hmem, hne⟩
      · rintro (heq | ⟨rfl | hmem, hne⟩)
        · exact .inr (.inl heq)
        · exact .inl rfl
        · exact .inr (.inr ⟨hmem, hne⟩)

/-- A property of all items after `d[k] = v`. -/
theorem forall_set {d : Dict κ ν} {k : κ} {v : ν} {P : κ × ν → Prop} :
    (∀ item ∈ (d.set k v).items, P item) ↔
      P (k, v) ∧ ∀ item ∈ d.items, item.1 ≠ k → P item := by
  constructor
  · intro h
    refine ⟨h _ ((mem_setItems d.nodup).mpr (.inl rfl)), ?_⟩
    intro item hmem hne
    exact h item ((mem_setItems d.nodup).mpr (.inr ⟨hmem, hne⟩))
  · rintro ⟨hnew, hold⟩ item hmem
    rcases (mem_setItems d.nodup).mp hmem with rfl | ⟨hmem, hne⟩
    · exact hnew
    · exact hold item hmem hne

/-! ### Deleting -/

/-- `d.pop(k, None)` -/
def erase (d : Dict κ ν) (k : κ) : Dict κ ν where
  items := d.items.filter fun item => item.1 ≠ k
  nodup := d.nodup.sublist (List.filter_sublist.map _)

theorem get?_erase (d : Dict κ ν) (k k' : κ) :
    (d.erase k).get? k' = if k' = k then none else d.get? k' := by
  show (d.items.filter _).lookup k' = if k' = k then none else d.items.lookup k'
  induction d.items with
  | nil =>
    rw [List.filter_nil, List.lookup_nil]
    split <;> rfl
  | cons item rest ih =>
    rw [List.filter_cons, lookup_cons]
    by_cases hitem : item.1 = k
    · rw [if_neg (by simpa using hitem), ih]
      by_cases hk : k' = k
      · rw [if_pos hk, if_pos hk]
      · rw [if_neg hk, if_neg hk, if_neg (hitem ▸ hk)]
    · rw [if_pos (by simpa using hitem), lookup_cons, ih]
      by_cases hk : k' = item.1
      · rw [if_pos hk, if_pos hk, if_neg (hk ▸ hitem)]
      · rw [if_neg hk, if_neg hk]

/-- A sum over the items without the key `k`. -/
theorem sum_erase {M : Type*} [AddCommGroup M] {d : Dict κ ν} {k : κ} {v : ν}
    (h : d.get? k = some v) (f : κ × ν → M) :
    ((d.erase k).items.map f).sum = (d.items.map f).sum - f (k, v) := by
  obtain ⟨items, hnodup⟩ := d
  show ((items.filter fun item => item.1 ≠ k).map f).sum = (items.map f).sum - f (k, v)
  change items.lookup k = some v at h
  induction items with
  | nil => cases h
  | cons item rest ih =>
    obtain ⟨hitem, hrest⟩ := List.nodup_cons.mp hnodup
    rw [lookup_cons] at h
    by_cases hk : k = item.1
    · rw [if_pos hk] at h
      obtain rfl := Option.some.inj h
      have hothers : (rest.filter fun item => item.1 ≠ k) = rest := by
        apply List.filter_eq_self.mpr
        intro other hother
        apply decide_eq_true
        rintro rfl
        exact hitem (hk ▸ List.mem_map_of_mem hother)
      rw [List.filter_cons_of_neg (by simp [hk]), hothers, List.map_cons, List.sum_cons, hk]
      abel
    · rw [if_neg hk] at h
      rw [List.filter_cons_of_pos (by simpa using fun hsame => hk hsame.symm), List.map_cons,
        List.map_cons, List.sum_cons, List.sum_cons, ih hrest h]
      abel

/-- A new key is appended. -/
theorem items_set_of_new {d : Dict κ ν} {k : κ} (h : d.get? k = none) (v : ν) :
    (d.set k v).items = d.items ++ [(k, v)] := by
  obtain ⟨items, hnodup⟩ := d
  show setItems k v items = items ++ [(k, v)]
  change items.lookup k = none at h
  clear hnodup
  induction items with
  | nil => rfl
  | cons item rest ih =>
    rw [lookup_cons] at h
    split_ifs at h with hk
    rw [setItems, if_neg fun hsame => hk hsame.symm, ih h]
    rfl

/-- Dictionaries with the same keys in the same order and the same values. -/
theorem ext_get? {d d' : Dict κ ν} (hkeys : d.items.map Prod.fst = d'.items.map Prod.fst)
    (h : ∀ k, d.get? k = d'.get? k) : d = d' := by
  obtain ⟨items, hnodup⟩ := d
  obtain ⟨items', hnodup'⟩ := d'
  change items.map Prod.fst = items'.map Prod.fst at hkeys
  change ∀ k, items.lookup k = items'.lookup k at h
  apply ext
  show items = items'
  induction items generalizing items' with
  | nil => exact (List.map_eq_nil_iff.mp hkeys.symm).symm
  | cons e rest ih =>
    cases items' with
    | nil => cases hkeys
    | cons e' rest' =>
      obtain ⟨k, v⟩ := e
      obtain ⟨k', v'⟩ := e'
      obtain ⟨hk, htail⟩ := List.cons.inj hkeys
      obtain rfl : k = k' := hk
      obtain ⟨hfresh, hrest⟩ := List.nodup_cons.mp hnodup
      obtain ⟨hfresh', hrest'⟩ := List.nodup_cons.mp hnodup'
      have hv := h k
      rw [lookup_cons, lookup_cons, if_pos rfl, if_pos rfl] at hv
      obtain rfl := Option.some.inj hv
      -- the first key stands in no other item
      have hnone {items : List (κ × ν)} (hfresh : k ∉ items.map Prod.fst) :
          items.lookup k = none := by
        rcases hlookup : items.lookup k with - | v
        · rfl
        · exact absurd (List.mem_map_of_mem (mem_of_lookup hlookup)) hfresh
      have htails : ∀ j, rest.lookup j = rest'.lookup j := by
        intro j
        have hj := h j
        rw [lookup_cons, lookup_cons] at hj
        by_cases hjk : j = k
        · rw [hjk, hnone hfresh, hnone hfresh']
        · rw [if_neg hjk, if_neg hjk] at hj
          exact hj
      rw [ih hrest rest' hrest' htail htails]

theorem items_eq_nil_iff {d : Dict κ ν} : d.items = [] ↔ ∀ k, d.get? k = none := by
  constructor
  · intro h k
    rw [get?, h]
    rfl
  · intro h
    rcases e : d.items with - | ⟨item, rest⟩
    · rfl
    · have hk := h item.1
      rw [get?, e, lookup_cons, if_pos rfl] at hk
      exact absurd hk (by simp)

end

/-! ### Encoding the values -/

def mapValues (f : κ → ν → ν') (d : Dict κ ν) : Dict κ ν' where
  items := d.items.map fun item => (item.1, f item.1 item.2)
  nodup := by
    rw [List.map_map]
    exact d.nodup

theorem decode_keys (f : κ → ν → Option ν') (items : List (κ × ν)) :
    ((items.filterMap fun item => (f item.1 item.2).map (item.1, ·)).map Prod.fst).Sublist
      (items.map Prod.fst) := by
  induction items with
  | nil => exact .slnil
  | cons item rest ih =>
    rw [List.filterMap_cons, List.map_cons]
    rcases f item.1 item.2 with - | v
    · exact .cons _ ih
    · exact .cons_cons _ ih

/-- The items whose value is decoded. -/
def filterMap (f : κ → ν → Option ν') (d : Dict κ ν) : Dict κ ν' where
  items := d.items.filterMap fun item => (f item.1 item.2).map (item.1, ·)
  nodup := d.nodup.sublist (decode_keys f d.items)

section
variable [DecidableEq κ]

theorem get?_mapValues (f : κ → ν → ν') (d : Dict κ ν) (k : κ) :
    (d.mapValues f).get? k = (d.get? k).map (f k) := by
  show (d.items.map fun item => (item.1, f item.1 item.2)).lookup k = (d.items.lookup k).map (f k)
  induction d.items with
  | nil => rfl
  | cons item rest ih =>
    rw [List.map_cons, lookup_cons, lookup_cons, ih]
    split
    · next hk =>
      rw [hk]
      rfl
    · rfl

/-- Look-ups in a decoded dictionary; a lost item leaves no other under its key. -/
theorem get?_filterMap (f : κ → ν → Option ν') (d : Dict κ ν) (k : κ) :
    (d.filterMap f).get? k = (d.get? k).bind (f k) := by
  have hlookup : ∀ items : List (κ × ν), (items.map Prod.fst).Nodup →
      (items.filterMap fun item => (f item.1 item.2).map (item.1, ·)).lookup k =
        (items.lookup k).bind (f k) := by
    intro items hnodup
    induction items with
    | nil => rfl
    | cons item rest ih =>
      rw [List.map_cons, List.nodup_cons] at hnodup
      rw [List.filterMap_cons, lookup_cons]
      by_cases hk : k = item.1
      · rw [if_pos hk, hk]
        rcases hf : f item.1 item.2 with - | v
        · show (rest.filterMap _).lookup item.1 = f item.1 item.2
          rw [hf, ← hk, ih hnodup.2]
          rcases hrest : rest.lookup k with - | v
          · rfl
          · exact absurd (List.mem_map_of_mem (mem_of_lookup hrest)) (hk ▸ hnodup.1)
        · show ((item.1, v) :: _).lookup item.1 = f item.1 item.2
          rw [lookup_cons, if_pos rfl, hf]
      · rw [if_neg hk, ← ih hnodup.2]
        rcases f item.1 item.2 with - | v
        · rfl
        · show ((item.1, v) :: _).lookup k = _
          rw [lookup_cons, if_neg hk]
  exact hlookup d.items d.nodup

end

/-- Decoding gives an encoded dictionary back exactly if it does so for every value. -/
theorem filterMap_mapValues_eq_iff {encode : κ → ν → ν'} {decode : κ → ν' → Option ν}
    {d : Dict κ ν} : (d.mapValues encode).filterMap decode = d ↔
      ∀ item ∈ d.items, decode item.1 (encode item.1 item.2) = some item.2 := by
  have hitems (items : List (κ × ν)) :
      (items.filterMap fun item => (decode item.1 (encode item.1 item.2)).map (item.1, ·)) =
          items ↔
        ∀ item ∈ items, decode item.1 (encode item.1 item.2) = some item.2 := by
    induction items with
    | nil => simp
    | cons item rest ih =>
      rw [List.filterMap_cons, List.forall_mem_cons]
      rcases e : decode item.1 (encode item.1 item.2) with - | v
      · -- an item is lost, and none comes back
        refine iff_of_false ?_ (by simp)
        intro heq
        have hle := List.length_filterMap_le
          (fun item => (decode item.1 (encode item.1 item.2)).map (item.1, ·)) rest
        have hlength := congrArg List.length heq
        simp only [Option.map_none, List.length_cons] at hlength
        omega
      · simp only [Option.map_some, List.cons.injEq, ih, Option.some.injEq]
        refine and_congr_left fun _ => ?_
        constructor
        · intro heq
          rw [← heq]
        · intro heq
          rw [heq]
  rw [Dict.ext_iff]
  show ((d.items.map _).filterMap _) = d.items ↔ _
  rw [List.filterMap_map]
  exact hitems d.items

end Dict
