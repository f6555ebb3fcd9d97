/-
InferBridge/RateLimit.lean

The rate limiter of the server (app/rate_limit.py).

Each client has the times of its allowed requests.  A request first drops
those that have left its window from the front; once in a while a request
also drops every client whose last time has left it.  The lock makes each
request one step.

Times are rational numbers, and a client is any address.

Design.  What a client has is the end of the list of its allowed requests,
and what was dropped has left every later window: that is the invariant
`Inv`, kept by each request (`recordRequest_spec`), whichever client it is
from.

Main results.  `rateLimit_exact`: a request is allowed exactly where its
client has fewer allowed requests in the window than the limit, the requests
of the others make no difference, and a client that waits as it was told is
allowed.
-/
import InferBridge.DeviceNames

namespace InferBridge.RateLimit

open Text

variable {ι : Type*} [DecidableEq ι]

/-! ### The limiter -/

/-- `RateLimitMiddleware`; a client without an entry is `none`. -/
structure Limiter (ι : Type*) where
  rpm : Nat
  hits : ι → Option (List ℚ)
  lastCleanup : ℚ

def window : ℚ := 60

namespace Limiter

/-- `RateLimitMiddleware.__init__` -/
def init (requestsPerMinute : Nat) (start : ℚ) : Limiter ι where
  rpm := requestsPerMinute
  hits _ := none
  lastCleanup := start

/-- `self._hits[client_ip]` -/
def timestamps (l : Limiter ι) (ip : ι) : List ℚ := (l.hits ip).getD []

/-- `not hits or hits[-1] <= cutoff` -/
def stale (cutoff : ℚ) (hits : List ℚ) : Bool := hits.getLast?.all (· ≤ cutoff)

/-- `_cleanup_locked` -/
def cleanup (l : Limiter ι) (now : ℚ) : Limiter ι :=
  { l with hits := fun ip => (l.hits ip).filter fun hits => !stale (now - window) hits }

/-- The cleanup of a request, where it is due. -/
def maintain (l : Limiter ι) (now : ℚ) : Limiter ι :=
  if now - l.lastCleanup > window then { l.cleanup now with lastCleanup := now } else l

def setHits (l : Limiter ι) (ip : ι) (hits : List ℚ) : Limiter ι :=
  { l with hits := Function.update l.hits ip (some hits) }

/-- `max(1, math.ceil(window[0] + self.window - now))` -/
def retryAfter (hits : List ℚ) (now : ℚ) : Int := max 1 ⌈hits.headD 0 + window - now⌉

/-- `_record_request`: the retry delay of a blocked request. -/
def recordRequest (l : Limiter ι) (ip : ι) (now : ℚ) : Option Int × Limiter ι :=
  let l := l.maintain now
  let hits := (l.timestamps ip).dropWhile (· ≤ now - window)
  if l.rpm ≤ hits.length then (some (retryAfter hits now), l.setHits ip hits)
  else (none, l.setHits ip (hits ++ [now]))

end Limiter

open Limiter

/-! ### The middleware -/

/-- What the middleware reads of an ASGI scope. -/
structure Scope where
  type : Str
  path : Str
  method : Str := "GET".toList
  client : Option Str

/-- A request is passed on, or answered with the status 429, a detail and `Retry-After`. -/
inductive Response where
  | app
  | tooMany (detail retryAfter : Str)
deriving DecidableEq, Repr

/-- The requests that are counted. -/
def Scope.limited (scope : Scope) : Bool :=
  scope.type = "http".toList && "/v1/".toList.isPrefixOf scope.path &&
    DeviceCheck.upper (if scope.method = [] then "GET".toList else scope.method) ≠
      "OPTIONS".toList

/-- `RateLimitMiddleware.__call__` -/
def Limiter.call (l : Limiter Str) (scope : Scope) (now : ℚ) : Response × Limiter Str :=
  if scope.limited = false ∨ l.rpm = 0 then (.app, l)
  else
    match l.recordRequest (scope.client.getD "unknown".toList) now with
    | (none, l) => (.app, l)
    | (some n, l) =>
      (.tooMany ("Rate limit exceeded. Try again in ".toList ++ (toString n).toList ++ "s.".toList)
        (toString n).toList, l)

/-- A request is answered for the application exactly where it is counted and blocked. -/
theorem call_app_iff (l : Limiter Str) (scope : Scope) (now : ℚ) :
    (l.call scope now).1 = .app ↔ scope.limited = false ∨ l.rpm = 0 ∨
      (l.recordRequest (scope.client.getD "unknown".toList) now).1 = none := by
  unfold Limiter.call
  by_cases hpassed : scope.limited = false ∨ l.rpm = 0
  · rw [if_pos hpassed]
    exact iff_of_true rfl (hpassed.imp_right .inl)
  · rw [if_neg hpassed, ← or_assoc, or_iff_right hpassed]
    rcases l.recordRequest (scope.client.getD "unknown".toList) now with ⟨- | n, l'⟩
    · exact iff_of_true rfl rfl
    · exact iff_of_false (by simp) (by simp)

/-! ### Runs -/

/-- A request, and how it was decided. -/
structure Entry (ι : Type*) where
  ip : ι
  time : ℚ
  retryAfter : Option Int

/-- Requests one after another. -/
def Limiter.run (l : Limiter ι) : List (ι × ℚ) → List (Entry ι) × Limiter ι
  | [] => ([], l)
  | (ip, now) :: rest =>
    let (retryAfter, l') := l.recordRequest ip now
    let (log, last) := l'.run rest
    (⟨ip, now, retryAfter⟩ :: log, last)

/-- The decision about a request after others. -/
def Limiter.decision (l : Limiter ι) (earlier : List (ι × ℚ)) (ip : ι) (now : ℚ) : Option Int :=
  ((l.run earlier).2.recordRequest ip now).1

/-- The times of the allowed requests of a client. -/
def allowed (log : List (Entry ι)) (ip : ι) : List ℚ :=
  (log.filter fun e => e.ip = ip ∧ e.retryAfter = none).map Entry.time

/-- Those in the window that ends now. -/
def recent (log : List (Entry ι)) (ip : ι) (now : ℚ) : List ℚ :=
  (allowed log ip).filter fun s => now - window < s ∧ s ≤ now

theorem allowed_append (log log' : List (Entry ι)) (ip : ι) :
    allowed (log ++ log') ip = allowed log ip ++ allowed log' ip := by
  rw [allowed, List.filter_append, List.map_append]
  rfl

theorem run_append (l : Limiter ι) (requests requests' : List (ι × ℚ)) :
    l.run (requests ++ requests') =
      ((l.run requests).1 ++ ((l.run requests).2.run requests').1,
        ((l.run requests).2.run requests').2) := by
  induction requests generalizing l with
  | nil => rfl
  | cons r requests ih =>
    obtain ⟨ip, now⟩ := r
    show (⟨ip, now, (l.recordRequest ip now).1⟩ ::
        ((l.recordRequest ip now).2.run (requests ++ requests')).1,
      ((l.recordRequest ip now).2.run (requests ++ requests')).2) = _
    rw [ih]
    rfl

/-! ### What is kept of a client -/

/-- Up to the time `now`, a client has the end of the list of its allowed requests, and what is
missing has left the window. -/
structure Inv (l : Limiter ι) (log : List (Entry ι)) (now : ℚ) : Prop where
  kept : ∀ ip, ∃ old, allowed log ip = old ++ l.timestamps ip ∧ ∀ s ∈ old, s ≤ now - window
  sorted : ∀ ip, (allowed log ip).Pairwise (· ≤ ·)
  past : ∀ ip, ∀ s ∈ allowed log ip, s ≤ now
  few : ∀ ip, (l.timestamps ip).length ≤ l.rpm

variable {l : Limiter ι} {log : List (Entry ι)} {now later : ℚ}

omit [DecidableEq ι] in
theorem timestamps_init (rpm : Nat) (start : ℚ) (ip : ι) :
    (init rpm start : Limiter ι).timestamps ip = [] := rfl

theorem inv_init (rpm : Nat) (start now : ℚ) : Inv (init rpm start : Limiter ι) [] now where
  kept _ := ⟨[], rfl, fun _ hs => absurd hs List.not_mem_nil⟩
  sorted _ := List.Pairwise.nil
  past _ _ hs := absurd hs List.not_mem_nil
  few _ := Nat.zero_le _

theorem Inv.mono (h : Inv l log now) (hlater : now ≤ later) : Inv l log later where
  kept ip := by
    obtain ⟨old, hsplit, hold⟩ := h.kept ip
    refine ⟨old, hsplit, fun s hs => (hold s hs).trans ?_⟩
    exact sub_le_sub_right hlater window
  sorted := h.sorted
  past ip s hs := (h.past ip s hs).trans hlater
  few := h.few

/-- Of a sorted list, the front up to a bound is what is not above it. -/
theorem dropWhile_le_eq_filter {hits : List ℚ} (h : hits.Pairwise (· ≤ ·)) (cutoff : ℚ) :
    hits.dropWhile (· ≤ cutoff) = hits.filter (cutoff < ·) := by
  induction hits with
  | nil => rfl
  | cons s hits ih =>
    obtain ⟨hle, hrest⟩ := List.pairwise_cons.mp h
    by_cases hs : s ≤ cutoff
    · rw [List.dropWhile_cons, if_pos (decide_eq_true hs),
        List.filter_cons_of_neg (by simpa using hs), ih hrest]
    · have hall : ∀ s' ∈ s :: hits, decide (cutoff < s') = true := by
        intro s' hs'
        rcases List.mem_cons.mp hs' with rfl | hs'
        · exact decide_eq_true (lt_of_not_ge hs)
        · exact decide_eq_true ((lt_of_not_ge hs).trans_le (hle s' hs'))
      rw [List.dropWhile_cons, if_neg (by simpa using hs), List.filter_eq_self.mpr hall]

theorem Inv.sorted_timestamps (h : Inv l log now) (ip : ι) :
    (l.timestamps ip).Pairwise (· ≤ ·) := by
  obtain ⟨old, hsplit, -⟩ := h.kept ip
  have hsorted := h.sorted ip
  rw [hsplit] at hsorted
  exact (List.pairwise_append.mp hsorted).2.1

/-- The front of what a client has is dropped: the rest is its recent requests. -/
theorem Inv.prune (h : Inv l log now) (ip : ι) :
    (l.timestamps ip).dropWhile (· ≤ now - window) = recent log ip now := by
  rw [dropWhile_le_eq_filter (h.sorted_timestamps ip)]
  obtain ⟨old, hsplit, hold⟩ := h.kept ip
  have hpast := h.past ip
  rw [recent, hsplit, List.filter_append]
  rw [hsplit] at hpast
  have hnone : old.filter (fun s => now - window < s ∧ s ≤ now) = [] := by
    rw [List.filter_eq_nil_iff]
    intro s hs hin
    exact absurd (of_decide_eq_true hin).1 (not_lt_of_ge (hold s hs))
  rw [hnone, List.nil_append]
  apply List.filter_congr
  intro s hs
  rw [Bool.eq_iff_iff, decide_eq_true_eq, decide_eq_true_eq]
  exact (and_iff_left (hpast s (List.mem_append_right _ hs))).symm

/-- Every time of a stale client is below the bound, as its last one is. -/
theorem le_of_stale {hits : List ℚ} {cutoff : ℚ} (h : hits.Pairwise (· ≤ ·))
    (hstale : stale cutoff hits = true) : ∀ s ∈ hits, s ≤ cutoff := by
  rcases List.eq_nil_or_concat hits with rfl | ⟨front, last, rfl⟩
  · exact fun s hs => absurd hs List.not_mem_nil
  · have hlast : last ≤ cutoff := by
      rw [List.concat_eq_append, stale, List.getLast?_concat] at hstale
      exact of_decide_eq_true hstale
    rw [List.concat_eq_append] at h ⊢
    intro s hs
    rcases List.mem_append.mp hs with hs | hs
    · exact ((List.pairwise_append.mp h).2.2 s hs last List.mem_cons_self).trans hlast
    · rwa [List.mem_singleton.mp hs]

/-- A cleanup forgets what has left the window. -/
theorem Inv.cleanup (h : Inv l log now) : Inv (l.cleanup now) log now where
  kept ip := by
    obtain ⟨old, hsplit, hold⟩ := h.kept ip
    have htimes : (l.cleanup now).timestamps ip =
        ((l.hits ip).filter fun hits => !stale (now - window) hits).getD [] := rfl
    rcases hhits : l.hits ip with - | hits
    · refine ⟨old, ?_, hold⟩
      rw [hsplit, htimes, timestamps, hhits]
      rfl
    · have hhave : l.timestamps ip = hits := by rw [timestamps, hhits]; rfl
      have hsorted := h.sorted_timestamps ip
      rw [hhave] at hsplit hsorted
      rw [hhits] at htimes
      by_cases hstale : stale (now - window) hits = true
      · have hempty : (l.cleanup now).timestamps ip = [] := by
          rw [htimes, Option.filter_some, hstale]
          rfl
        refine ⟨allowed log ip, by rw [hempty, List.append_nil], ?_⟩
        intro s hs
        rw [hsplit] at hs
        rcases List.mem_append.mp hs with hs | hs
        · exact hold s hs
        · exact le_of_stale hsorted hstale s hs
      · refine ⟨old, ?_, hold⟩
        rw [htimes, Option.filter_some, eq_false_of_ne_true hstale]
        exact hsplit
  sorted := h.sorted
  past := h.past
  few ip := by
    have hfew := h.few ip
    show (((l.hits ip).filter fun hits => !stale (now - window) hits).getD []).length ≤ l.rpm
    rw [timestamps] at hfew
    rcases hhits : l.hits ip with - | hits
    · exact Nat.zero_le _
    · rw [hhits] at hfew
      rw [Option.filter_some]
      split
      · exact hfew
      · exact Nat.zero_le _

theorem Inv.maintain (h : Inv l log now) : Inv (l.maintain now) log now := by
  unfold Limiter.maintain
  split
  · have hcleaned := h.cleanup
    exact ⟨hcleaned.kept, hcleaned.sorted, hcleaned.past, hcleaned.few⟩
  · exact h

omit [DecidableEq ι] in
theorem maintain_rpm (l : Limiter ι) (now : ℚ) : (l.maintain now).rpm = l.rpm := by
  unfold Limiter.maintain
  split <;> rfl

/-- The times of a client are replaced by its recent ones, and then perhaps the request itself. -/
theorem Inv.record (h : Inv l log now) (ip : ι) {retryAfter : Option Int} {new : List ℚ}
    (hnew : allowed [⟨ip, now, retryAfter⟩] ip = new) (hbound : ∀ s ∈ new, s = now)
    (hfew : (recent log ip now ++ new).length ≤ l.rpm) :
    Inv (l.setHits ip (recent log ip now ++ new)) (log ++ [⟨ip, now, retryAfter⟩]) now := by
  have hother {ip' : ι} (hne : ip' ≠ ip) : allowed (log ++ [⟨ip, now, retryAfter⟩]) ip' =
      allowed log ip' := by
    rw [allowed_append]
    have hnone : allowed [⟨ip, now, retryAfter⟩] ip' = [] := by
      simp [allowed, Ne.symm hne]
    rw [hnone, List.append_nil]
  have hsame : allowed (log ++ [⟨ip, now, retryAfter⟩]) ip = allowed log ip ++ new := by
    rw [allowed_append, hnew]
  have htimes (ip' : ι) (hne : ip' ≠ ip) :
      (l.setHits ip (recent log ip now ++ new)).timestamps ip' = l.timestamps ip' := by
    show Option.getD (Function.update l.hits ip _ ip') [] = _
    rw [Function.update_of_ne hne]
    rfl
  have htime : (l.setHits ip (recent log ip now ++ new)).timestamps ip =
      recent log ip now ++ new := by
    show Option.getD (Function.update l.hits ip _ ip) [] = _
    rw [Function.update_self]
    rfl
  refine ⟨fun ip' => ?_, fun ip' => ?_, fun ip' => ?_, fun ip' => ?_⟩ <;>
    rcases eq_or_ne ip' ip with rfl | hne
  · obtain ⟨old, hsplit, hold⟩ := h.kept ip'
    have hprune := h.prune ip'
    refine ⟨old ++ (l.timestamps ip').takeWhile (· ≤ now - window), ?_, ?_⟩
    · rw [hsame, htime, ← hprune, hsplit]
      conv_lhs => rw [← List.takeWhile_append_dropWhile (p := fun s => decide (s ≤ now - window))
        (l := l.timestamps ip')]
      simp only [List.append_assoc]
    · intro s hs
      rcases List.mem_append.mp hs with hs | hs
      · exact hold s hs
      · have hle := List.mem_takeWhile_imp (p := fun s => decide (s ≤ now - window)) hs
        exact of_decide_eq_true hle
  · rw [hother hne, htimes ip' hne]
    exact h.kept ip'
  · rw [hsame, List.pairwise_append]
    refine ⟨h.sorted ip', ?_, ?_⟩
    · apply List.pairwise_of_forall_mem_list
      intro s hs s' hs'
      rw [hbound s hs, hbound s' hs']
    · intro s hs s' hs'
      rw [hbound s' hs']
      exact h.past ip' s hs
  · rw [hother hne]
    exact h.sorted ip'
  · rw [hsame]
    intro s hs
    rcases List.mem_append.mp hs with hs | hs
    · exact h.past ip' s hs
    · exact le_of_eq (hbound s hs)
  · rw [hother hne]
    exact h.past ip'
  · rw [htime]
    exact hfew
  · rw [htimes ip' hne]
    exact h.few ip'

/-- **One request.**  It is allowed where its client has fewer recent requests than the limit, and
blocked where it has as many. -/
theorem recordRequest_spec (h : Inv l log now) (ip : ι) :
    (((recent log ip now).length < l.rpm ∧ (l.recordRequest ip now).1 = none) ∨
        ((recent log ip now).length = l.rpm ∧
          (l.recordRequest ip now).1 = some (retryAfter (recent log ip now) now))) ∧
      Inv (l.recordRequest ip now).2 (log ++ [⟨ip, now, (l.recordRequest ip now).1⟩]) now ∧
        (l.recordRequest ip now).2.rpm = l.rpm := by
  have hmaintained := h.maintain
  have hrpm := maintain_rpm l now
  have hprune := hmaintained.prune ip
  have hle : (recent log ip now).length ≤ l.rpm := by
    rw [← hprune, ← hrpm]
    exact (List.length_dropWhile_le _ _).trans (hmaintained.few ip)
  unfold recordRequest
  dsimp only
  rw [hprune, hrpm]
  by_cases hfull : l.rpm ≤ (recent log ip now).length
  · rw [if_pos hfull]
    refine ⟨.inr ⟨le_antisymm hle hfull, rfl⟩, ?_, hrpm⟩
    have hblocked : allowed [⟨ip, now, some (retryAfter (recent log ip now) now)⟩] ip = [] := by
      simp [allowed]
    have hinv := hmaintained.record ip hblocked (fun s hs => absurd hs List.not_mem_nil)
      (by rwa [List.append_nil, hrpm])
    rwa [List.append_nil] at hinv
  · rw [if_neg hfull]
    refine ⟨.inl ⟨not_le.mp hfull, rfl⟩, ?_, hrpm⟩
    have hallowed : allowed [⟨ip, now, none⟩] ip = [now] := by
      simp [allowed]
    refine hmaintained.record ip hallowed (fun s hs => List.mem_singleton.mp hs) ?_
    rw [List.length_append, List.length_singleton, hrpm]
    omega

/-! ### Whole runs -/

omit [DecidableEq ι] in
/-- Times in their order, none before `now`. -/
theorem pairwise_cons_of_sorted {ip : ι} {time : ℚ} {requests : List (ι × ℚ)}
    (h : (((ip, time) :: requests).map Prod.snd).Pairwise (· ≤ ·)) :
    (∀ r ∈ requests, time ≤ r.2) ∧ (requests.map Prod.snd).Pairwise (· ≤ ·) := by
  obtain ⟨hle, hrest⟩ := List.pairwise_cons.mp h
  exact ⟨fun r hr => hle r.2 (List.mem_map_of_mem hr), hrest⟩

/-- **Every run keeps the invariant.** -/
theorem inv_run (h : Inv l log now) {requests : List (ι × ℚ)}
    (hsorted : (requests.map Prod.snd).Pairwise (· ≤ ·)) (hstart : ∀ r ∈ requests, now ≤ r.2)
    (hnow : now ≤ later) (hend : ∀ r ∈ requests, r.2 ≤ later) :
    Inv (l.run requests).2 (log ++ (l.run requests).1) later ∧
      (l.run requests).2.rpm = l.rpm := by
  induction requests generalizing l log now with
  | nil =>
    refine ⟨?_, rfl⟩
    show Inv l (log ++ []) later
    rw [List.append_nil]
    exact h.mono hnow
  | cons r requests ih =>
    obtain ⟨ip, time⟩ := r
    obtain ⟨hfirst, hrest⟩ := pairwise_cons_of_sorted hsorted
    obtain ⟨-, hinv, hrpm⟩ :=
      recordRequest_spec (h.mono (hstart _ List.mem_cons_self)) ip
    obtain ⟨hrun, hrun'⟩ := ih hinv hrest hfirst (hend _ List.mem_cons_self)
      (fun r hr => hend r (List.mem_cons_of_mem _ hr))
    rw [List.append_assoc] at hrun
    exact ⟨hrun, hrun'.trans hrpm⟩

/-- The requests of a client are decided as if it were alone. -/
theorem run_alone (ip : ι) {l' : Limiter ι} {log' : List (Entry ι)} (h : Inv l log now)
    (h' : Inv l' log' now) (hrpm : l'.rpm = l.rpm) (hsame : allowed log' ip = allowed log ip)
    {requests : List (ι × ℚ)} (hsorted : (requests.map Prod.snd).Pairwise (· ≤ ·))
    (hstart : ∀ r ∈ requests, now ≤ r.2) :
    (l'.run (requests.filter fun r => r.1 = ip)).1 =
      (l.run requests).1.filter fun e => e.ip = ip := by
  induction requests generalizing l l' log log' now with
  | nil => rfl
  | cons r requests ih =>
    obtain ⟨ip', time⟩ := r
    obtain ⟨hfirst, hrest⟩ := pairwise_cons_of_sorted hsorted
    have hnow : now ≤ time := hstart _ List.mem_cons_self
    obtain ⟨hdecision, hinv, hstep⟩ := recordRequest_spec (h.mono hnow) ip'
    by_cases hip : ip' = ip
    · subst hip
      obtain ⟨hdecision', hinv', hstep'⟩ := recordRequest_spec (h'.mono hnow) ip'
      have hrecent : recent log' ip' time = recent log ip' time := by
        rw [recent, recent, hsame]
      rw [hrecent, hrpm] at hdecision'
      have hequal : (l'.recordRequest ip' time).1 = (l.recordRequest ip' time).1 := by
        rcases hdecision with ⟨hfew, hnone⟩ | ⟨hfull, hsome⟩ <;>
          rcases hdecision' with ⟨hfew', hnone'⟩ | ⟨hfull', hsome'⟩
        · rw [hnone, hnone']
        · omega
        · omega
        · rw [hsome, hsome']
      rw [List.filter_cons_of_pos (by simp)]
      show ⟨ip', time, (l'.recordRequest ip' time).1⟩ ::
          ((l'.recordRequest ip' time).2.run _).1 =
        List.filter _ (⟨ip', time, (l.recordRequest ip' time).1⟩ ::
          ((l.recordRequest ip' time).2.run requests).1)
      rw [List.filter_cons_of_pos (by simp), hequal]
      refine congrArg _ (ih hinv hinv' (hstep'.trans (hrpm.trans hstep.symm)) ?_ hrest hfirst)
      rw [allowed_append, allowed_append, hsame, hequal]
    · rw [List.filter_cons_of_neg (by simpa using hip)]
      show _ = List.filter _ (⟨ip', time, (l.recordRequest ip' time).1⟩ ::
        ((l.recordRequest ip' time).2.run requests).1)
      rw [List.filter_cons_of_neg (by simpa using hip)]
      refine ih hinv (h'.mono hnow) (hrpm.trans hstep.symm) ?_ hrest hfirst
      rw [allowed_append, hsame]
      simp [allowed, hip]

/-- The requests of others add nothing to a client. -/
theorem allowed_run_of_ne (l : Limiter ι) {ip : ι} {requests : List (ι × ℚ)}
    (h : ∀ r ∈ requests, r.1 ≠ ip) : allowed (l.run requests).1 ip = [] := by
  induction requests generalizing l with
  | nil => rfl
  | cons r requests ih =>
    obtain ⟨ip', time⟩ := r
    have hne : ip' ≠ ip := h _ List.mem_cons_self
    have hrest := ih (l.recordRequest ip' time).2 fun r hr => h r (List.mem_cons_of_mem _ hr)
    show allowed ([⟨ip', time, (l.recordRequest ip' time).1⟩] ++
      ((l.recordRequest ip' time).2.run requests).1) ip = []
    rw [allowed_append, hrest, List.append_nil]
    simp [allowed, hne]

/-- A full window loses its first request by the end of the delay. -/
theorem recent_after_delay {ip : ι} {n : Int} {t : ℚ} (hpos : 0 < (recent log ip now).length)
    (hn : n = retryAfter (recent log ip now) now) (hwait : now + n ≤ t) (hpast : ∀ s ∈ allowed log ip, s ≤ now) :
    (recent log ip t).length < (recent log ip now).length := by
  rcases hrecent : recent log ip now with - | ⟨s, rest⟩
  · rw [hrecent] at hpos
    exact absurd hpos (Nat.lt_irrefl 0)
  have hdelay : s + window - now ≤ n := by
    rw [hn, hrecent]
    show s + window - now ≤ ((max 1 ⌈s + window - now⌉ : Int) : ℚ)
    refine (Int.le_ceil _).trans ?_
    exact_mod_cast le_max_right _ _
  have hnow : now ≤ t := by
    have hone : (1 : ℚ) ≤ n := by
      rw [hn]
      exact_mod_cast le_max_left _ _
    linarith
  -- what is recent then is recent now, and the first request is not among it
  have hlater : recent log ip t = (recent log ip now).filter (t - window < ·) := by
    rw [recent, recent, List.filter_filter]
    apply List.filter_congr
    intro s' hs'
    have hs' := hpast s' hs'
    rw [Bool.eq_iff_iff, Bool.and_eq_true, decide_eq_true_eq, decide_eq_true_eq,
      decide_eq_true_eq]
    constructor
    · rintro ⟨hin, -⟩
      exact ⟨hin, by linarith, hs'⟩
    · rintro ⟨hin, -, -⟩
      exact ⟨hin, by linarith⟩
  have hfirst : ¬ t - window < s := by linarith
  rw [hlater, hrecent, List.filter_cons_of_neg (by simpa using hfirst)]
  exact Nat.lt_succ_of_le (List.length_filter_le _ _)

/-- The state before a request of a run. -/
theorem inv_before (rpm : Nat) (start : ℚ) {earlier later' : List (ι × ℚ)} {ip : ι} {time : ℚ}
    (hsorted : ((earlier ++ (ip, time) :: later').map Prod.snd).Pairwise (· ≤ ·)) :
    Inv ((init rpm start).run earlier).2 ((init rpm start).run earlier).1 time ∧
      ((init rpm start).run earlier).2.rpm = rpm := by
  rw [List.map_append] at hsorted
  obtain ⟨hearlier, -, hbefore⟩ := List.pairwise_append.mp hsorted
  have hend : ∀ r ∈ earlier, r.2 ≤ time := by
    intro r hr
    exact hbefore r.2 (List.mem_map_of_mem hr) time List.mem_cons_self
  obtain ⟨first, hfirst, hle⟩ : ∃ first : ℚ, (∀ r ∈ earlier, first ≤ r.2) ∧ first ≤ time := by
    cases earlier with
    | nil => exact ⟨time, fun r hr => absurd hr List.not_mem_nil, le_rfl⟩
    | cons r rest =>
      refine ⟨r.2, ?_, hend r List.mem_cons_self⟩
      intro r' hr'
      rcases List.mem_cons.mp hr' with rfl | hr'
      · exact le_rfl
      · exact (pairwise_cons_of_sorted hearlier).1 r' hr'
  exact inv_run (inv_init rpm start first) hearlier hfirst hle hend

/-- **The limiter is an exact sliding window.**  A request is allowed where its client has fewer
allowed requests in the last minute than the limit; the requests of other clients make no
difference; and a blocked client that sends nothing for the time that it was told is allowed. -/
theorem rateLimit_exact {rpm : Nat} (hrpm : 1 ≤ rpm) (start : ℚ) (requests : List (ι × ℚ))
    (hsorted : (requests.map Prod.snd).Pairwise (· ≤ ·)) :
    (∀ earlier ip time later', requests = earlier ++ (ip, time) :: later' →
        ((init rpm start).decision earlier ip time = none ↔
          (recent ((init rpm start).run earlier).1 ip time).length < rpm)) ∧
      (∀ ip, ((init rpm start).run requests).1.filter (fun e => e.ip = ip) =
        ((init rpm start).run (requests.filter fun r => r.1 = ip)).1) ∧
      ∀ earlier ip time between t later' n,
        requests = (earlier ++ (ip, time) :: between) ++ (ip, t) :: later' →
          (init rpm start).decision earlier ip time = some n → (∀ r ∈ between, r.1 ≠ ip) →
            time + n ≤ t →
              (init rpm start).decision (earlier ++ (ip, time) :: between) ip t = none := by
  have hcount (earlier : List (ι × ℚ)) (ip : ι) (time : ℚ) (later' : List (ι × ℚ))
      (hsplit : requests = earlier ++ (ip, time) :: later') :
      (init rpm start).decision earlier ip time = none ↔
        (recent ((init rpm start).run earlier).1 ip time).length < rpm := by
    rw [hsplit] at hsorted
    obtain ⟨hinv, hlimit⟩ := inv_before rpm start hsorted
    obtain ⟨hdecision, -⟩ := recordRequest_spec hinv ip
    rw [hlimit] at hdecision
    rcases hdecision with ⟨hfew, hnone⟩ | ⟨hfull, hsome⟩
    · exact iff_of_true hnone hfew
    · refine iff_of_false ?_ ?_
      · show ¬ (recordRequest _ ip time).1 = none
        rw [hsome]
        exact Option.some_ne_none _
      · rw [hfull]
        exact Nat.lt_irrefl rpm
  refine ⟨hcount, fun ip => ?_, ?_⟩
  · cases requests with
    | nil => rfl
    | cons r rest =>
      have hstart : ∀ r' ∈ r :: rest, r.2 ≤ r'.2 := by
        intro r' hr'
        rcases List.mem_cons.mp hr' with rfl | hr'
        · exact le_rfl
        · exact (pairwise_cons_of_sorted hsorted).1 r' hr'
      exact (run_alone ip (inv_init rpm start r.2) (inv_init rpm start r.2) rfl rfl hsorted
        hstart).symm
  · intro earlier ip time between t later' n hsplit hblocked hbetween hwait
    have hsplit' : requests = earlier ++ (ip, time) :: (between ++ (ip, t) :: later') := by
      rw [hsplit, List.append_assoc]
      rfl
    refine (hcount _ ip t later' hsplit).mpr ?_
    rw [hsplit'] at hsorted
    obtain ⟨hinv, hlimit⟩ := inv_before rpm start hsorted
    obtain ⟨hdecision, -⟩ := recordRequest_spec hinv ip
    rw [hlimit] at hdecision
    have hblocked' : (((init rpm start).run earlier).2.recordRequest ip time).1 = some n := hblocked
    rw [hblocked'] at hdecision
    rcases hdecision with ⟨-, hnone⟩ | ⟨hfull, hsome⟩
    · cases hnone
    -- nothing of the client is added while it waits
    have hsame : allowed ((init rpm start).run (earlier ++ (ip, time) :: between)).1 ip =
        allowed ((init rpm start).run earlier).1 ip := by
      rw [run_append, allowed_append]
      show _ ++ allowed ([⟨ip, time, (recordRequest _ ip time).1⟩] ++ (run _ between).1) ip = _
      rw [hblocked', allowed_append, allowed_run_of_ne _ hbetween, List.append_nil]
      have hnone : allowed [⟨ip, time, some n⟩] ip = [] := by simp [allowed]
      rw [hnone, List.append_nil]
    have hrecent : recent ((init rpm start).run (earlier ++ (ip, time) :: between)).1 ip t =
        recent ((init rpm start).run earlier).1 ip t := by
      rw [recent, recent, hsame]
    rw [hrecent]
    refine lt_of_lt_of_eq ?_ hfull
    exact recent_after_delay (by omega) (Option.some.inj hsome) hwait (hinv.past ip)

/-- Two requests in a minute, where one is allowed; the second waits for its delay. -/
theorem rateLimit_exact_wait :
    (init 1 0 : Limiter Nat).decision ([(7, 10)] ++ (7, 12) :: [(8, 13)]) 7 70 = none := by
  have hblocked : (init 1 0 : Limiter Nat).decision [(7, 10)] 7 12 = some 58 := by
    decide +kernel
  refine (rateLimit_exact le_rfl 0 [(7, 10), (7, 12), (8, 13), (7, 70)] ?_).2.2
    [(7, 10)] 7 12 [(8, 13)] 70 [] 58 rfl hblocked ?_ ?_
  · norm_num
  · simp
  · norm_num

end InferBridge.RateLimit
