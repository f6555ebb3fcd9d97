/-
InferBridge/BenchmarkHistory.lean

The benchmark history and its two writers: `BenchmarkStore`
(runtime/benchmark_runner.py over runtime/benchmark_runner_core.py) and the
advisor (app/hardware_advisor/benchmark_store.py).

Design.  The file is absent, not JSON, or a document.  An operation comes with
the faults it meets: its read or its write may fail.  Both readers map whatever
they cannot read to an empty history; the store then writes it back with
the next append, the advisor only where it saw another schema.  How an error text
is redacted is a parameter, since only the runs without these texts are compared.

Main result: `history_kept_of_keeps` (the history is kept along every run whose
operations find a file that they read); `kept_append` has both directions for
one append of the store.
-/
import InferBridge.Catalog
import InferBridge.Lib.Transition

namespace InferBridge.BenchmarkHistory

/-! ### The newest items of a list -/

/-- `runs[-n:]`, for a positive number; there is no limit otherwise. -/
def keepLast {α : Type} : Option Nat → List α → List α
  | none, runs => runs
  | some n, runs => runs.rtake n

/-- `max_runs > 0` -/
def runLimit (maxRuns : Int) : Option Nat := if 0 < maxRuns then some maxRuns.toNat else none

/-! ### Runs -/

def isObject : JsonValue → Bool
  | .obj _ => true
  | _ => false

variable (safeError : JsonValue → Option Str)

/-- `result["error"] = _safe_error(result.get("error"))`, where there is one. -/
def sanitizeError : JsonValue → JsonValue
  | .null => .null
  | error =>
    match safeError error with
    | none => .null
    | some text => .str text

def sanitizeResult : JsonValue → JsonValue
  | .obj fields => .obj (fields.map fun field =>
      if field.1 = "error".toList then (field.1, sanitizeError safeError field.2) else field)
  | result => result

def sanitizeResults : JsonValue → JsonValue
  | .arr results => .arr (results.map (sanitizeResult safeError))
  | results => results

/-- `_sanitize_run` -/
def sanitizeRun : JsonValue → JsonValue
  | .obj fields => .obj (fields.map fun field =>
      if field.1 = "results".toList then (field.1, sanitizeResults safeError field.2) else field)
  | run => run

/-- `_sanitize_runs` -/
def sanitizeRuns (runs : List JsonValue) : List JsonValue :=
  (runs.filter isObject).map (sanitizeRun safeError)

/-- The same run, but for the error texts of its results. -/
def SameRun (a b : JsonValue) : Prop :=
  sanitizeRun (fun _ => none) a = sanitizeRun (fun _ => none) b

/-! ### What sanitizing leaves as it is -/

def cleanError : JsonValue → Bool
  | .null => true
  | .str text => safeError (.str text) == some text
  | _ => false

def cleanResult : JsonValue → Bool
  | .obj fields => fields.all fun field =>
      field.1 != "error".toList || cleanError safeError field.2
  | _ => true

def cleanResults : JsonValue → Bool
  | .arr results => results.all (cleanResult safeError)
  | _ => true

def cleanRun : JsonValue → Bool
  | .obj fields => fields.all fun field =>
      field.1 != "results".toList || cleanResults safeError field.2
  | _ => true

/-- `safe_runs == data["runs"]` -/
def cleanRuns (runs : List JsonValue) : Bool :=
  runs.all fun run => isObject run && cleanRun safeError run

/-! ### The file -/

inductive File where
  | absent
  | unparsed
  | document (value : JsonValue)

/-- The faults an operation meets. -/
structure Faults where
  read : Bool := false
  write : Bool := false
deriving DecidableEq

/-- `schema_version` is missing or the integer 1. -/
def knownSchema (fields : List (Str × JsonValue)) : Bool :=
  match fields.lookup "schema_version".toList with
  | none => true
  | some (.int schema) => schema = 1
  | some _ => false

/-- `payload["runs"]`, if the document has the shape of a history. -/
def documentRuns : JsonValue → Option (List (Str × JsonValue) × List JsonValue)
  | .obj fields =>
    match fields.lookup "runs".toList with
    | some (.arr runs) => some (fields, runs)
    | _ => none
  | _ => none

/-- `BenchmarkStore._read`, without the schema: it is 1 in every answer. -/
def storeRead (faults : Faults) : File → List JsonValue
  | .document value =>
    if faults.read then []
    else
      match documentRuns value with
      | some (fields, runs) => if knownSchema fields then runs else []
      | none => []
  | _ => []

/-- `_read_store`; `none` stands for the read-only marker. -/
def advisorRead (faults : Faults) : File → Option (List JsonValue)
  | .document value =>
    if faults.read then some []
    else
      match documentRuns value with
      | some (fields, runs) => if knownSchema fields then some runs else none
      | none => some []
  | _ => some []

/-- What the writers put into the file. -/
def history (runs : List JsonValue) : File :=
  .document (.obj [("schema_version".toList, .int 1), ("runs".toList, .arr runs)])

/-! ### The operations -/

inductive Event where
  /-- `BenchmarkStore.__init__` -/
  | openStore (faults : Faults)
  /-- `BenchmarkStore.append` -/
  | append (maxRuns : Int) (run : List (Str × JsonValue)) (faults : Faults)
  /-- `_append_run` -/
  | appendRun (run : List (Str × JsonValue)) (faults : Faults)

/-- The file behind an operation, and whether the operation returned. -/
def write (faults : Faults) (file : File) (runs : List JsonValue) : File × Bool :=
  if faults.write then (file, false) else (history runs, true)

def outcome (file : File) : Event → File × Bool
  | .openStore faults =>
    let runs := storeRead faults file
    if cleanRuns safeError runs then (file, true)
    else write faults file (sanitizeRuns safeError runs)
  | .append maxRuns run faults =>
    write faults file (keepLast (runLimit maxRuns)
      (storeRead faults file ++ [sanitizeRun safeError (.obj run)]))
  | .appendRun run faults =>
    match advisorRead faults file with
    | none => (file, true)
    | some runs => write faults file (keepLast (some 100) (runs.filter isObject ++ [.obj run]))

def step (file : File) (e : Event) : Option File := some (outcome safeError file e).1

/-! ### What is asked of an operation -/

/-- The items of the history in a file, whatever its schema. -/
def items : File → List JsonValue
  | .document value =>
    match documentRuns value with
    | some (_, runs) => runs
    | none => []
  | _ => []

/-- The runs among them. -/
def runsOf (file : File) : List JsonValue := (items file).filter isObject

/-- A file whose schema and shape the readers understand. -/
def understood : File → Bool
  | .document value =>
    match documentRuns value with
    | some (fields, _) => knownSchema fields
    | none => false
  | _ => false

def File.isAbsent : File → Bool
  | .absent => true
  | _ => false

/-- The run that an operation adds if it returns. -/
def added : Event → List JsonValue
  | .openStore _ => []
  | .append _ run _ => [.obj run]
  | .appendRun run _ => [.obj run]

def Event.limit : Event → Option Nat
  | .openStore _ => none
  | .append maxRuns _ _ => runLimit maxRuns
  | .appendRun _ _ => some 100

/-- The history is kept by one operation. -/
structure Kept (file : File) (e : Event) (after : File) : Prop where
  /-- The runs from before and the added one are there, but for the oldest ones. -/
  runs : (outcome safeError file e).2 = true →
    List.Forall₂ SameRun (keepLast e.limit (runsOf file ++ added e)) (runsOf after)
  /-- An operation that raises changes nothing. -/
  raised : (outcome safeError file e).2 = false → after = file
  /-- A file that the readers do not understand stays as it is. -/
  foreign : file.isAbsent = false → understood file = false → after = file

/-! ### When an operation keeps the history -/

/-- With one more item, no item with `p` is dropped while another one without it stays. -/
def spares {α : Type} (p : α → Bool) (limit : Option Nat) (items : List α) : Bool :=
  match limit with
  | none => true
  | some n =>
    let dropped := items.length + 1 - n
    (items.take dropped).all (!p ·) || (items.drop dropped).all p

/-- The operation reads the history, or has nothing to lose, or does not get to write. -/
def keeps (file : File) : Event → Bool
  | .openStore _ => true
  | .append maxRuns _ faults =>
    faults.write || file.isAbsent ||
      (understood file &&
        if faults.read then (runsOf file).isEmpty || runLimit maxRuns == some 1
        else spares isObject (runLimit maxRuns) (items file))
  | .appendRun _ faults =>
    file.isAbsent ||
      if understood file then faults.write || !faults.read || (runsOf file).isEmpty
      else faults.write && (advisorRead faults file).isSome

/-! ### Lists -/

section
variable {α : Type} {R : α → α → Prop}

theorem rtake_concat {n : Nat} (hn : n ≠ 0) (l : List α) (x : α) :
    (l ++ [x]).rtake n = l.drop (l.length + 1 - n) ++ [x] := by
  rw [List.rtake, List.length_append, List.length_singleton]
  exact List.drop_append_of_le_length (by omega)

theorem forall₂_refl (hrefl : ∀ a, R a a) (l : List α) : List.Forall₂ R l l :=
  List.forall₂_same.mpr fun a _ => hrefl a

/-- Filtering before or behind the limit is the same where the limit spares the items. -/
theorem forall₂_keepLast_filter (hrefl : ∀ a, R a a) {p : α → Bool} {x y : α} (hxy : R x y)
    (hy : p y = true) {limit : Option Nat} (hlimit : limit ≠ some 0) (items : List α) :
    List.Forall₂ R (keepLast limit (items.filter p ++ [x]))
      ((keepLast limit (items ++ [y])).filter p) ↔ spares p limit items = true := by
  have hsingle : ([y] : List α).filter p = [y] := by simp [hy]
  have hlast : List.Forall₂ R [x] [y] := .cons hxy .nil
  cases limit with
  | none =>
      rw [keepLast, keepLast, List.filter_append, hsingle]
      exact ⟨fun _ => rfl, fun _ => List.rel_append (forall₂_refl hrefl _) hlast⟩
  | some n =>
      have hn : n ≠ 0 := fun h => hlimit (congrArg some h)
      rw [keepLast, keepLast, rtake_concat hn, rtake_concat hn, List.filter_append, hsingle]
      -- `dropped` of the items go, and so many of the filtered ones
      have hsplit : (items.filter p).length =
          ((items.take (items.length + 1 - n)).filter p).length +
            ((items.drop (items.length + 1 - n)).filter p).length := by
        rw [← List.length_append, ← List.filter_append, List.take_append_drop]
      have htaken : ((items.take (items.length + 1 - n)).filter p).length = 0 ↔
          (items.take (items.length + 1 - n)).all (!p ·) = true := by
        simp [List.length_eq_zero_iff, List.filter_eq_nil_iff]
      have hkept : ((items.drop (items.length + 1 - n)).filter p).length =
          (items.drop (items.length + 1 - n)).length ↔
            (items.drop (items.length + 1 - n)).all p = true := by
        rw [List.length_filter_eq_length_iff, List.all_eq_true]
      have hbound := List.length_filter_le p (items.drop (items.length + 1 - n))
      rw [List.length_drop] at hbound hkept
      have hspares : spares p (some n) items = true ↔
          ((items.take (items.length + 1 - n)).filter p).length = 0 ∨
            ((items.drop (items.length + 1 - n)).filter p).length =
              items.length - (items.length + 1 - n) := by
        rw [htaken, hkept, spares, Bool.or_eq_true]
      have hzero : items.length + 1 - n = 0 →
          ((items.take (items.length + 1 - n)).filter p).length = 0 := by
        intro h
        rw [h, List.take_zero]
        rfl
      rw [hspares]
      constructor
      · intro h
        have hlength := h.length_eq
        rw [List.length_append, List.length_append, List.length_drop] at hlength
        simp only [List.length_singleton] at hlength
        omega
      · intro h
        have hdrop : (items.filter p).drop ((items.filter p).length + 1 - n) =
            (items.drop (items.length + 1 - n)).filter p := by
          have hsuffix : items.filter p = (items.take (items.length + 1 - n)).filter p ++
              (items.drop (items.length + 1 - n)).filter p := by
            rw [← List.filter_append, List.take_append_drop]
          have hcount : (items.filter p).length + 1 - n =
              ((items.take (items.length + 1 - n)).filter p).length := by omega
          rw [hcount]
          nth_rewrite 1 [hsuffix]
          exact List.drop_left
        rw [hdrop]
        exact List.rel_append (forall₂_refl hrefl _) hlast

/-- A single item against the last ones of a longer list. -/
theorem forall₂_keepLast_single {x y : α} (hxy : R x y)
    {limit : Option Nat} (hlimit : limit ≠ some 0) (runs : List α) :
    List.Forall₂ R (keepLast limit (runs ++ [x])) [y] ↔ runs = [] ∨ limit = some 1 := by
  have hlast : List.Forall₂ R [x] [y] := .cons hxy .nil
  cases limit with
  | none =>
      rw [keepLast]
      constructor
      · intro h
        have hlength := h.length_eq
        rw [List.length_append] at hlength
        exact Or.inl (List.length_eq_zero_iff.mp (by simpa using hlength))
      · rintro (rfl | h)
        · exact hlast
        · cases h
  | some n =>
      have hn : n ≠ 0 := fun h => hlimit (congrArg some h)
      rw [keepLast, rtake_concat hn]
      constructor
      · intro h
        have hlength := h.length_eq
        rw [List.length_append, List.length_drop] at hlength
        simp only [List.length_singleton] at hlength
        rcases Nat.eq_zero_or_pos runs.length with hzero | hpos
        · exact Or.inl (List.length_eq_zero_iff.mp hzero)
        · exact Or.inr (congrArg some (by omega))
      · rintro (rfl | h)
        · rw [List.drop_nil]
          exact hlast
        · obtain rfl := Option.some.inj h
          rw [List.drop_eq_nil_of_le (by omega)]
          exact hlast

end

/-! ### Runs and their redaction -/

theorem SameRun.refl (run : JsonValue) : SameRun run run := rfl

theorem SameRun.trans {a b c : JsonValue} (h : SameRun a b) (h' : SameRun b c) : SameRun a c :=
  Eq.trans h h'

variable {safeError}

theorem sanitizeError_none (error : JsonValue) : sanitizeError (fun _ => none) error = .null := by
  cases error <;> rfl

/-- Without its text an error is the same before and after. -/
theorem sanitizeError_blank (error : JsonValue) :
    sanitizeError (fun _ => none) (sanitizeError safeError error) =
      sanitizeError (fun _ => none) error := by
  rw [sanitizeError_none, sanitizeError_none]

/-- Two passes over the fields of an object that each change one key. -/
theorem map_field_comp {key : Str} {f g h : JsonValue → JsonValue}
    (hfg : ∀ value, f (g value) = h value) (fields : List (Str × JsonValue)) :
    (fields.map fun field => if field.1 = key then (field.1, g field.2) else field).map
        (fun field => if field.1 = key then (field.1, f field.2) else field) =
      fields.map fun field => if field.1 = key then (field.1, h field.2) else field := by
  rw [List.map_map]
  refine List.map_congr_left fun field _ => ?_
  show (if (if field.1 = key then (field.1, g field.2) else field).1 = key then _ else _) = _
  by_cases hkey : field.1 = key
  · simp only [if_pos hkey, hfg]
  · simp only [if_neg hkey]

theorem sanitizeResult_blank (result : JsonValue) :
    sanitizeResult (fun _ => none) (sanitizeResult safeError result) =
      sanitizeResult (fun _ => none) result := by
  cases result with
  | obj fields => exact congrArg JsonValue.obj (map_field_comp sanitizeError_blank fields)
  | _ => rfl

theorem sanitizeResults_blank (results : JsonValue) :
    sanitizeResults (fun _ => none) (sanitizeResults safeError results) =
      sanitizeResults (fun _ => none) results := by
  cases results with
  | arr results =>
      refine congrArg JsonValue.arr ?_
      rw [List.map_map]
      exact List.map_congr_left fun result _ => sanitizeResult_blank result
  | _ => rfl

/-- Sanitizing a run changes nothing but error texts. -/
theorem sameRun_sanitizeRun (run : JsonValue) : SameRun run (sanitizeRun safeError run) := by
  cases run with
  | obj fields =>
      exact (congrArg JsonValue.obj (map_field_comp sanitizeResults_blank fields)).symm
  | _ => rfl

theorem isObject_sanitizeRun (run : JsonValue) :
    isObject (sanitizeRun safeError run) = isObject run := by
  cases run <;> rfl

/-- Sanitized runs are the objects among the items, but for error texts. -/
theorem sameRuns_sanitizeRuns (runs : List JsonValue) :
    List.Forall₂ SameRun (runs.filter isObject)
      ((sanitizeRuns safeError runs).filter isObject) := by
  have hobjects : (sanitizeRuns safeError runs).filter isObject =
      sanitizeRuns safeError runs := by
    rw [List.filter_eq_self]
    intro run hrun
    obtain ⟨run', hrun', rfl⟩ := List.mem_map.mp hrun
    rw [isObject_sanitizeRun]
    exact (List.mem_filter.mp hrun').2
  rw [hobjects, sanitizeRuns, List.forall₂_map_right_iff]
  exact forall₂_refl sameRun_sanitizeRun _

/-! ### Clean runs -/

theorem map_eq_self {α : Type} {f : α → α} {l : List α} : l.map f = l ↔ ∀ x ∈ l, f x = x := by
  induction l with
  | nil => simp
  | cons x l ih => simp [ih]

/-- A pass over one key that changes nothing. -/
theorem map_field_eq_self {key : Str} {g : JsonValue → JsonValue} {clean : JsonValue → Bool}
    (hg : ∀ value, g value = value ↔ clean value = true) (fields : List (Str × JsonValue)) :
    (fields.map fun field => if field.1 = key then (field.1, g field.2) else field) = fields ↔
      (fields.all fun field => field.1 != key || clean field.2) = true := by
  rw [map_eq_self, List.all_eq_true]
  refine forall_congr' fun field => imp_congr_right fun _ => ?_
  by_cases hkey : field.1 = key
  · rw [if_pos hkey, Bool.or_eq_true, bne_iff_ne, or_iff_right (not_not.mpr hkey), ← hg]
    exact ⟨fun h => congrArg Prod.snd h, fun h => congrArg (Prod.mk field.1) h⟩
  · rw [if_neg hkey, Bool.or_eq_true, bne_iff_ne]
    exact iff_of_true rfl (Or.inl hkey)

theorem sanitizeError_eq_self (error : JsonValue) :
    sanitizeError safeError error = error ↔ cleanError safeError error = true := by
  cases error with
  | null => exact iff_of_true rfl rfl
  | str text =>
      rw [cleanError, beq_iff_eq]
      cases hsafe : safeError (.str text) with
      | none => simp [sanitizeError, hsafe]
      | some safe => simp [sanitizeError, hsafe]
  | _ =>
      refine iff_of_false (fun h => ?_) (by simp [cleanError])
      simp only [sanitizeError] at h
      split at h <;> cases h

theorem sanitizeResult_eq_self (result : JsonValue) :
    sanitizeResult safeError result = result ↔ cleanResult safeError result = true := by
  cases result with
  | obj fields =>
      rw [sanitizeResult, cleanResult, JsonValue.obj.injEq]
      exact map_field_eq_self sanitizeError_eq_self fields
  | _ => exact iff_of_true rfl rfl

theorem sanitizeResults_eq_self (results : JsonValue) :
    sanitizeResults safeError results = results ↔ cleanResults safeError results = true := by
  cases results with
  | arr results =>
      rw [sanitizeResults, cleanResults, JsonValue.arr.injEq, map_eq_self, List.all_eq_true]
      exact forall_congr' fun result => imp_congr_right fun _ => sanitizeResult_eq_self result
  | _ => exact iff_of_true rfl rfl

theorem sanitizeRun_eq_self (run : JsonValue) :
    sanitizeRun safeError run = run ↔ cleanRun safeError run = true := by
  cases run with
  | obj fields =>
      rw [sanitizeRun, cleanRun, JsonValue.obj.injEq]
      exact map_field_eq_self sanitizeResults_eq_self fields
  | _ => exact iff_of_true rfl rfl

/-- `clean` is what the comparison in `BenchmarkStore.__init__` finds. -/
theorem sanitizeRuns_eq_self (runs : List JsonValue) :
    sanitizeRuns safeError runs = runs ↔ cleanRuns safeError runs = true := by
  rw [sanitizeRuns, cleanRuns, List.all_eq_true]
  constructor
  · intro h run hrun
    have hlength := congrArg List.length h
    rw [List.length_map] at hlength
    have hall := List.length_filter_eq_length_iff.mp hlength
    rw [List.filter_eq_self.mpr hall] at h
    rw [Bool.and_eq_true]
    exact ⟨hall run hrun, (sanitizeRun_eq_self run).mp (map_eq_self.mp h run hrun)⟩
  · intro h
    have hobjects : runs.filter isObject = runs :=
      List.filter_eq_self.mpr fun run hrun => (Bool.and_eq_true _ _ |>.mp (h run hrun)).1
    rw [hobjects, map_eq_self]
    exact fun run hrun =>
      (sanitizeRun_eq_self run).mpr (Bool.and_eq_true _ _ |>.mp (h run hrun)).2

/-! ### What the writers leave -/

theorem items_history (runs : List JsonValue) : items (history runs) = runs := rfl

theorem understood_history (runs : List JsonValue) : understood (history runs) = true := rfl

theorem storeRead_readable {file : File} {faults : Faults} (hread : faults.read = false)
    (h : understood file = true) : storeRead faults file = items file := by
  cases file with
  | document value =>
      rw [understood] at h
      rw [storeRead, items, hread]
      cases hvalue : documentRuns value with
      | none => rw [hvalue] at h; cases h
      | some found =>
          rw [hvalue] at h
          dsimp only at h ⊢
          rw [h]
          rfl
  | _ => cases h

theorem storeRead_unreadable {file : File} {faults : Faults}
    (h : faults.read = true ∨ understood file = false) : storeRead faults file = [] := by
  cases file with
  | document value =>
      rw [storeRead]
      rcases h with h | h
      · rw [if_pos h]
      · split
        · rfl
        · rw [understood] at h
          cases hvalue : documentRuns value with
          | none => rfl
          | some found =>
              rw [hvalue] at h
              dsimp only at h ⊢
              rw [h]
              rfl
  | _ => rfl

theorem advisorRead_readable {file : File} {faults : Faults} (hread : faults.read = false)
    (h : understood file = true) : advisorRead faults file = some (items file) := by
  cases file with
  | document value =>
      rw [understood] at h
      rw [advisorRead, items, hread]
      cases hvalue : documentRuns value with
      | none => rw [hvalue] at h; cases h
      | some found =>
          rw [hvalue] at h
          dsimp only at h ⊢
          rw [h]
          rfl
  | _ => cases h

/-- The advisor reads nothing where the read fails, and nothing or the marker from a file
that it does not understand. -/
theorem advisorRead_unreadable {file : File} {faults : Faults} {runs : List JsonValue}
    (h : faults.read = true ∨ understood file = false)
    (hruns : advisorRead faults file = some runs) : runs = [] := by
  cases file with
  | document value =>
      rw [advisorRead] at hruns
      rcases h with h | h
      · rw [if_pos h] at hruns
        exact (Option.some.inj hruns).symm
      · split at hruns
        · exact (Option.some.inj hruns).symm
        · rw [understood] at h
          cases hvalue : documentRuns value with
          | none =>
              rw [hvalue] at hruns
              exact (Option.some.inj hruns).symm
          | some found =>
              rw [hvalue] at h hruns
              dsimp only at h hruns
              rw [h] at hruns
              cases hruns
  | _ => exact (Option.some.inj hruns).symm

theorem advisorRead_failing {file : File} {faults : Faults} (h : faults.read = true) :
    advisorRead faults file = some [] := by
  cases file with
  | document value => rw [advisorRead, if_pos h]
  | _ => rfl

theorem runsOf_absent {file : File} (h : file.isAbsent = true) : runsOf file = [] := by
  cases file with
  | absent => rfl
  | _ => cases h

theorem not_understood_of_absent {file : File} (h : file.isAbsent = true) :
    understood file = false := by
  cases file with
  | absent => rfl
  | _ => cases h

/-! ### One operation -/

theorem runLimit_ne_zero (maxRuns : Int) : runLimit maxRuns ≠ some 0 := by
  rw [runLimit]
  split
  · intro h
    have := Option.some.inj h
    omega
  · exact nofun

/-- A history that was written is never the file that was not understood. -/
theorem history_ne {file : File} {runs : List JsonValue} (h : understood file = false) :
    history runs ≠ file := by
  rintro rfl
  rw [understood_history] at h
  cases h

/-- Writing a history keeps the file exactly where the write fails, or the file may be written
and its runs are kept. -/
theorem kept_write {file : File} {e : Event} {faults : Faults} {runs : List JsonValue}
    (houtcome : outcome safeError file e = write faults file runs) :
    Kept safeError file e (outcome safeError file e).1 ↔
      faults.write = true ∨ (file.isAbsent = true ∨ understood file = true) ∧
        List.Forall₂ SameRun (keepLast e.limit (runsOf file ++ added e))
          (runs.filter isObject) := by
  cases hfault : faults.write with
  | true =>
      have hraised : outcome safeError file e = (file, false) := by
        rw [houtcome, write, if_pos hfault]
      refine ⟨fun _ => Or.inl rfl, fun _ => ⟨fun h => ?_, fun _ => ?_, fun _ _ => ?_⟩⟩
      · rw [hraised] at h
        cases h
      · rw [hraised]
      · rw [hraised]
  | false =>
      have hwritten : outcome safeError file e = (history runs, true) := by
        rw [houtcome, write, if_neg (by simp [hfault])]
      constructor
      · intro h
        right
        refine ⟨?_, ?_⟩
        · by_contra hforeign
          rw [not_or, Bool.not_eq_true, Bool.not_eq_true] at hforeign
          have hsame := h.foreign hforeign.1 hforeign.2
          rw [hwritten] at hsame
          exact history_ne hforeign.2 hsame
        · have hruns := h.runs (by rw [hwritten])
          rw [hwritten] at hruns
          exact hruns
      · rintro (h | ⟨hfile, hruns⟩)
        · cases h
        · refine ⟨fun _ => ?_, fun h => ?_, fun habsent hforeign => ?_⟩
          · rw [hwritten]
            exact hruns
          · rw [hwritten] at h
            cases h
          · rw [habsent, hforeign] at hfile
            exact absurd hfile (by simp)

/-- An operation that leaves the file alone and adds nothing keeps it. -/
theorem kept_same {file : File} {e : Event} {returned : Bool}
    (houtcome : outcome safeError file e = (file, returned)) (hadded : added e = [])
    (hlimit : e.limit = none) : Kept safeError file e (outcome safeError file e).1 := by
  rw [houtcome]
  refine ⟨fun _ => ?_, fun _ => rfl, fun _ _ => rfl⟩
  rw [hadded, hlimit, List.append_nil]
  exact forall₂_refl SameRun.refl _

/-- Opening a store keeps its file. -/
theorem kept_openStore (file : File) (faults : Faults) :
    Kept safeError file (.openStore faults) (outcome safeError file (.openStore faults)).1 := by
  by_cases hclean : cleanRuns safeError (storeRead faults file) = true
  · exact kept_same (by rw [outcome, if_pos hclean]) rfl rfl
  · have houtcome : outcome safeError file (.openStore faults) =
        write faults file (sanitizeRuns safeError (storeRead faults file)) := by
      rw [outcome, if_neg hclean]
    -- a history that was not clean was read
    have hread : faults.read = false ∧ understood file = true := by
      by_contra h
      have hempty : storeRead faults file = [] := by
        apply storeRead_unreadable
        by_cases hfault : faults.read = true
        · exact Or.inl hfault
        · right
          rw [Bool.not_eq_true] at hfault
          simpa [hfault] using h
      rw [hempty] at hclean
      exact hclean rfl
    refine (kept_write houtcome).mpr (Or.inr ⟨Or.inr hread.2, ?_⟩)
    rw [storeRead_readable hread.1 hread.2]
    show List.Forall₂ SameRun (runsOf file ++ []) _
    rw [List.append_nil]
    exact sameRuns_sanitizeRuns (items file)

/-- When an append of the store keeps the history. -/
theorem kept_append (file : File) (maxRuns : Int) (run : List (Str × JsonValue))
    (faults : Faults) :
    Kept safeError file (.append maxRuns run faults)
        (outcome safeError file (.append maxRuns run faults)).1 ↔
      keeps file (.append maxRuns run faults) = true := by
  have hsame : SameRun (.obj run) (sanitizeRun safeError (.obj run)) := sameRun_sanitizeRun _
  have hobject : isObject (sanitizeRun safeError (.obj run)) = true := isObject_sanitizeRun _
  have hlimit := runLimit_ne_zero maxRuns
  have hsingle : ([sanitizeRun safeError (.obj run)] : List JsonValue).filter isObject =
      [sanitizeRun safeError (.obj run)] := by simp [hobject]
  have hone : keepLast (runLimit maxRuns) ([] ++ [sanitizeRun safeError (.obj run)]) =
      [sanitizeRun safeError (.obj run)] := by
    cases hmax : runLimit maxRuns with
    | none => rfl
    | some n =>
        have hn : n ≠ 0 := fun h => hlimit (hmax.trans (congrArg some h))
        rw [keepLast, rtake_concat hn, List.drop_nil, List.nil_append]
  rw [kept_write rfl, keeps, Bool.or_eq_true, Bool.or_eq_true, Bool.and_eq_true, or_assoc]
  refine or_congr_right ?_
  show _ ∧ List.Forall₂ SameRun (keepLast (runLimit maxRuns) (runsOf file ++ [.obj run])) _ ↔ _
  by_cases habsent : file.isAbsent = true
  · -- a new file holds the run alone
    refine iff_of_true ⟨Or.inl habsent, ?_⟩ (Or.inl habsent)
    rw [storeRead_unreadable (Or.inr (not_understood_of_absent habsent)), runsOf_absent habsent,
      hone, hsingle]
    exact (forall₂_keepLast_single hsame hlimit []).mpr (Or.inl rfl)
  · rw [or_iff_right habsent, or_iff_right habsent]
    refine and_congr_right fun hunderstood => ?_
    cases hread : faults.read with
    | true =>
        rw [storeRead_unreadable (Or.inl hread), hone, hsingle, if_pos rfl, Bool.or_eq_true,
          List.isEmpty_iff, beq_iff_eq]
        exact forall₂_keepLast_single hsame hlimit _
    | false =>
        rw [storeRead_readable hread hunderstood, if_neg (by simp)]
        exact forall₂_keepLast_filter SameRun.refl hsame hobject hlimit (items file)

/-- When an append of the advisor keeps the history. -/
theorem kept_appendRun {file : File} {run : List (Str × JsonValue)} {faults : Faults}
    (h : keeps file (.appendRun run faults) = true) :
    Kept safeError file (.appendRun run faults)
      (outcome safeError file (.appendRun run faults)).1 := by
  have hfilter : ∀ runs : List JsonValue,
      (keepLast (some 100) (runs.filter isObject ++ [.obj run])).filter isObject =
        keepLast (some 100) (runs.filter isObject ++ [.obj run]) := by
    intro runs
    rw [List.filter_eq_self]
    intro item hitem
    have hmem : item ∈ runs.filter isObject ++ [.obj run] := List.mem_of_mem_drop hitem
    rcases List.mem_append.mp hmem with hrun | hrun
    · exact (List.mem_filter.mp hrun).2
    · rw [List.mem_singleton.mp hrun]
      rfl
  -- with what the advisor reads, it writes the runs of the file and the new one
  have hwrites : ∀ runs, advisorRead faults file = some runs →
      (faults.write = true ∨ (file.isAbsent = true ∨ understood file = true) ∧
        runs.filter isObject = runsOf file) →
      Kept safeError file (.appendRun run faults)
        (outcome safeError file (.appendRun run faults)).1 := by
    intro runs hruns hcase
    have houtcome : outcome safeError file (.appendRun run faults) =
        write faults file (keepLast (some 100) (runs.filter isObject ++ [.obj run])) := by
      rw [outcome, hruns]
    refine (kept_write houtcome).mpr (hcase.imp_right (And.imp_right fun hsame => ?_))
    rw [hfilter, hsame]
    exact forall₂_refl SameRun.refl _
  rw [keeps, Bool.or_eq_true] at h
  by_cases habsent : file.isAbsent = true
  · have hread : advisorRead faults file = some [] := by
      cases file with
      | absent => rfl
      | _ => cases habsent
    exact hwrites [] hread (Or.inr ⟨Or.inl habsent, (runsOf_absent habsent).symm⟩)
  · replace h := h.resolve_left habsent
    split at h
    · next hunderstood =>
      rw [Bool.or_eq_true, Bool.or_eq_true, List.isEmpty_iff, Bool.not_eq_true'] at h
      cases hread : faults.read with
      | false =>
          exact hwrites _ (advisorRead_readable hread hunderstood)
            (Or.inr ⟨Or.inr hunderstood, rfl⟩)
      | true =>
          refine hwrites [] (advisorRead_failing hread) ?_
          rcases h with (hwrite | hfault) | hempty
          · exact Or.inl hwrite
          · rw [hread] at hfault
            cases hfault
          · exact Or.inr ⟨Or.inr hunderstood, hempty.symm⟩
    · rw [Bool.and_eq_true] at h
      obtain ⟨runs, hruns⟩ := Option.isSome_iff_exists.mp h.2
      exact hwrites runs hruns (Or.inl h.1)

/-- **An operation that `keeps` keeps the history.** -/
theorem kept_of_keeps {file : File} {e : Event} (h : keeps file e = true) :
    Kept safeError file e (outcome safeError file e).1 := by
  cases e with
  | openStore faults => exact kept_openStore file faults
  | append maxRuns run faults => exact (kept_append file maxRuns run faults).mpr h
  | appendRun run faults => exact kept_appendRun h

/-! ### Whole runs -/

/-- The runs of the appends that returned, in their order. -/
def appended (safeError : JsonValue → Option Str) : File → List Event → List JsonValue
  | _, [] => []
  | file, e :: es =>
    (if (outcome safeError file e).2 then added e else []) ++
      appended safeError (outcome safeError file e).1 es

/-- No operation evicts within the newest `n` runs. -/
def LimitsFrom (n : Nat) (es : List Event) : Prop := ∀ e ∈ es, ∀ m, e.limit = some m → n ≤ m

theorem rtake_rtake {α : Type} {n m : Nat} (h : n ≤ m) (l : List α) :
    (l.rtake m).rtake n = l.rtake n := by
  rw [List.rtake, List.rtake, List.rtake, List.drop_drop, List.length_drop]
  congr 1
  omega

theorem rtake_append_rtake {α : Type} (n : Nat) (l new : List α) :
    (l.rtake n ++ new).rtake n = (l ++ new).rtake n := by
  rw [List.rtake, List.rtake, List.rtake, List.length_append, List.length_append,
    List.length_drop, List.drop_append, List.drop_append, List.drop_drop, List.length_drop]
  congr 2 <;> omega

theorem forall₂_rtake {α : Type} {R : α → α → Prop} {l l' : List α} (n : Nat)
    (h : List.Forall₂ R l l') : List.Forall₂ R (l.rtake n) (l'.rtake n) := by
  rw [List.rtake, List.rtake, h.length_eq]
  exact List.forall₂_drop _ h

theorem sameRuns_trans {a b c : List JsonValue} (h : List.Forall₂ SameRun a b)
    (h' : List.Forall₂ SameRun b c) : List.Forall₂ SameRun a c := by
  induction h generalizing c with
  | nil => exact h'
  | cons hab _ ih =>
      cases h' with
      | cons hbc h' => exact .cons (hab.trans hbc) (ih h')

/-- The newest runs behind one operation that keeps the history. -/
theorem Kept.newest {file : File} {e : Event}
    (h : Kept safeError file e (outcome safeError file e).1) {n : Nat}
    (hlimit : ∀ m, e.limit = some m → n ≤ m) :
    List.Forall₂ SameRun
      ((runsOf file ++ if (outcome safeError file e).2 then added e else []).rtake n)
      ((runsOf (outcome safeError file e).1).rtake n) := by
  cases hreturned : (outcome safeError file e).2 with
  | false =>
      rw [h.raised hreturned, if_neg (by simp), List.append_nil]
      exact forall₂_refl SameRun.refl _
  | true =>
      have hruns := forall₂_rtake n (h.runs hreturned)
      rw [if_pos rfl]
      cases hmax : e.limit with
      | none =>
          rw [hmax] at hruns
          exact hruns
      | some m =>
          rw [hmax, keepLast, rtake_rtake (hlimit m hmax)] at hruns
          exact hruns

/-- **The newest runs.**  Where every operation keeps the history, the newest runs of all that
were in the file at first or appended since are the newest ones of the file. -/
theorem eachStep_newest {es : List Event} {file file' : File} {n : Nat}
    (h : Transition.eachStep (step safeError) (Kept safeError) file es)
    (hlimits : LimitsFrom n es) (hrun : Transition.run (step safeError) file es = some file') :
    List.Forall₂ SameRun ((runsOf file ++ appended safeError file es).rtake n)
      ((runsOf file').rtake n) := by
  induction es generalizing file with
  | nil =>
      obtain rfl := Option.some.inj hrun
      rw [appended, List.append_nil]
      exact forall₂_refl SameRun.refl _
  | cons e es ih =>
      obtain ⟨hkept, hrest⟩ := h _ rfl
      have hnext := ih hrest (fun e' he' => hlimits e' (List.mem_cons_of_mem _ he')) hrun
      have hfirst := hkept.newest (hlimits e List.mem_cons_self)
      rw [appended, ← List.append_assoc, ← rtake_append_rtake]
      refine sameRuns_trans (forall₂_rtake n ?_) (rtake_append_rtake n _ _ ▸ hnext)
      exact List.rel_append hfirst (forall₂_refl SameRun.refl _)

/-- What is asked of a run: every operation keeps the history, and wherever the run is cut,
the newest of all runs so far are in the file. -/
structure HistoryKept (safeError : JsonValue → Option Str) (file : File) (es : List Event) :
    Prop where
  each : Transition.eachStep (step safeError) (Kept safeError) file es
  newest : ∀ before after, es = before ++ after → ∀ file',
    Transition.run (step safeError) file before = some file' → ∀ n, LimitsFrom n before →
      List.Forall₂ SameRun ((runsOf file ++ appended safeError file before).rtake n)
        ((runsOf file').rtake n)

theorem eachStep_kept {es : List Event} {file : File}
    (h : Transition.meets (step safeError) keeps file es = true) :
    Transition.eachStep (step safeError) (Kept safeError) file es := by
  induction es generalizing file with
  | nil => exact trivial
  | cons e es ih =>
      intro file' hstep
      obtain ⟨hkeeps, hmeets⟩ := Transition.meets_cons h hstep
      obtain rfl := Option.some.inj hstep
      exact ⟨kept_of_keeps hkeeps, ih hmeets⟩

/-- **The history is kept** in every run whose operations find a file that they read, or have
nothing to lose, or do not get to write. -/
theorem history_kept_of_keeps {file : File} {es : List Event}
    (h : Transition.meets (step safeError) keeps file es = true) :
    HistoryKept safeError file es := by
  refine ⟨eachStep_kept h, ?_⟩
  rintro before after rfl file' hrun n hlimits
  exact eachStep_newest (eachStep_kept (Transition.meets_append h hrun).1) hlimits hrun

/-- Opening, an append and an append of the advisor, with a file that does not exist yet. -/
theorem history_kept_of_keeps_fresh :
    HistoryKept (fun _ => none) .absent
      [.openStore {}, .append 100 [] {}, .appendRun [] {}] :=
  history_kept_of_keeps (by decide)

/-- The history of a newer version is replaced by the next append. -/
theorem newer_history_lost :
    ¬ ∀ (safeError : JsonValue → Option Str) (file : File) (es : List Event),
      HistoryKept safeError file es := by
  intro h
  have hkept := (h (fun _ => none) (.document (.obj [("schema_version".toList, .int 2),
    ("runs".toList, .arr [.obj []])])) [.append 100 [] {}]).each _ rfl
  have hsame := hkept.1.foreign rfl rfl
  cases hsame

end InferBridge.BenchmarkHistory
