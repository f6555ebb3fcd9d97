/-
InferBridge/Lib/Base64.lean

Strict base64: groups of four characters, padding only at the very end.

Main results: `decode_length` (the length of the text by the length of the
bytes) and `decode_groups` (groups that stand for zero bytes).
-/
import Mathlib

namespace InferBridge.Base64

/-- The six bits of a character. -/
def value (c : Char) : Option Nat :=
  if 'A' ≤ c ∧ c ≤ 'Z' then some (c.toNat - 65)
  else if 'a' ≤ c ∧ c ≤ 'z' then some (c.toNat - 71)
  else if '0' ≤ c ∧ c ≤ '9' then some (c.toNat + 4)
  else if c = '+' then some 62
  else if c = '/' then some 63
  else none

/-- Three bytes. -/
def decodeGroup (a b c d : Char) : Option (List UInt8) := do
  let x ← value a
  let y ← value b
  let z ← value c
  let w ← value d
  some [.ofNat (4 * x + y / 16), .ofNat (16 * (y % 16) + z / 4), .ofNat (64 * (z % 4) + w)]

/-- The group that the padding ends: two bytes, or one. -/
def decodeLast (a b c : Char) : Option (List UInt8) := do
  let x ← value a
  let y ← value b
  if c = '=' then some [.ofNat (4 * x + y / 16)]
  else do
    let z ← value c
    some [.ofNat (4 * x + y / 16), .ofNat (16 * (y % 16) + z / 4)]

def decode : List Char → Option (List UInt8)
  | [] => some []
  | a :: b :: c :: d :: rest =>
    if d = '=' then if rest = [] then decodeLast a b c else none
    else do
      let group ← decodeGroup a b c d
      let tail ← decode rest
      some (group ++ tail)
  | _ => none

theorem decodeGroup_length {a b c d : Char} {bytes : List UInt8}
    (h : decodeGroup a b c d = some bytes) : bytes.length = 3 := by
  simp only [decodeGroup, Option.bind_eq_bind, Option.bind_eq_some_iff, Option.some.injEq] at h
  obtain ⟨x, -, y, -, z, -, w, -, rfl⟩ := h
  rfl

theorem decodeLast_length {a b c : Char} {bytes : List UInt8}
    (h : decodeLast a b c = some bytes) : bytes.length = 1 ∨ bytes.length = 2 := by
  simp only [decodeLast, Option.bind_eq_bind, Option.bind_eq_some_iff] at h
  obtain ⟨x, -, y, -, h⟩ := h
  split at h
  · left
    rw [← Option.some.inj h]
    rfl
  · right
    obtain ⟨z, -, h⟩ := Option.bind_eq_some_iff.mp h
    rw [← Option.some.inj h]
    rfl

/-- Four characters stand for each three bytes that are begun. -/
theorem decode_length {text : List Char} {bytes : List UInt8} (h : decode text = some bytes) :
    text.length = 4 * ((bytes.length + 2) / 3) := by
  induction text using decode.induct generalizing bytes with
  | case1 =>
      rw [← Option.some.inj h]
      rfl
  | case2 a b c =>
      rw [decode, if_pos rfl, if_pos rfl] at h
      rcases decodeLast_length h with hlen | hlen <;> simp [hlen]
  | case3 a b c rest hrest =>
      rw [decode, if_pos rfl, if_neg hrest] at h
      exact absurd h (by simp)
  | case4 a b c d rest hpad ih =>
      rw [decode, if_neg hpad] at h
      obtain ⟨group, hgroup, h⟩ := Option.bind_eq_some_iff.mp h
      obtain ⟨tail, htail, h⟩ := Option.bind_eq_some_iff.mp h
      have hthree := decodeGroup_length hgroup
      have hrest := ih htail
      rw [← Option.some.inj h]
      simp only [List.length_cons, List.length_append, hrest, hthree]
      omega
  | case5 text h₁ h₂ =>
      exact absurd h (by simp [decode])

/-- A group in front. -/
theorem decode_cons {a b c d : Char} {rest : List Char} {group : List UInt8} (hpad : d ≠ '=')
    (hgroup : decodeGroup a b c d = some group) :
    decode (a :: b :: c :: d :: rest) = (decode rest).map (group ++ ·) := by
  rw [decode, if_neg hpad, hgroup]
  cases decode rest <;> rfl

/-- Whole groups in front. -/
theorem decode_append {text rest : List Char} {bytes : List UInt8} (hpad : '=' ∉ text)
    (h : decode text = some bytes) : decode (text ++ rest) = (decode rest).map (bytes ++ ·) := by
  induction text using decode.induct generalizing bytes with
  | case1 =>
      rw [← Option.some.inj h]
      show decode rest = (decode rest).map id
      rw [Option.map_id, id]
  | case2 a b c => exact absurd hpad (by simp)
  | case3 a b c text hrest => exact absurd hpad (by simp)
  | case4 a b c d text hlast ih =>
      rw [decode, if_neg hlast] at h
      obtain ⟨group, hgroup, h⟩ := Option.bind_eq_some_iff.mp h
      obtain ⟨tail, htail, h⟩ := Option.bind_eq_some_iff.mp h
      have hnext := ih (fun hmem => hpad (by simp [hmem])) htail
      rw [← Option.some.inj h]
      show decode (a :: b :: c :: d :: (text ++ rest)) = _
      rw [decode_cons hlast hgroup, hnext, Option.map_map]
      refine congrArg (Option.map · (decode rest)) (funext fun bytes => ?_)
      show group ++ (tail ++ bytes) = _
      rw [List.append_assoc]
  | case5 text h₁ h₂ => exact absurd h (by simp [decode])

/-- Groups that stand for zero bytes. -/
theorem decode_groups (k : Nat) (rest : List Char) :
    decode (List.replicate (4 * k) 'A' ++ rest) =
      (decode rest).map (List.replicate (3 * k) 0 ++ ·) := by
  induction k with
  | zero => simp
  | succ k ih =>
      have hfour : List.replicate (4 * (k + 1)) 'A' =
          'A' :: 'A' :: 'A' :: 'A' :: List.replicate (4 * k) 'A' := rfl
      have hthree : List.replicate (3 * (k + 1)) (0 : UInt8) =
          [0, 0, 0] ++ List.replicate (3 * k) 0 := rfl
      have hgroup : decodeGroup 'A' 'A' 'A' 'A' = some [0, 0, 0] := by decide
      rw [hfour, hthree]
      show decode ('A' :: 'A' :: 'A' :: 'A' :: (List.replicate (4 * k) 'A' ++ rest)) = _
      rw [decode_cons (by decide) hgroup, ih, Option.map_map]
      refine congrArg (Option.map · (decode rest)) (funext fun tail => ?_)
      show [0, 0, 0] ++ (List.replicate (3 * k) 0 ++ tail) = _
      rw [List.append_assoc]

end InferBridge.Base64
