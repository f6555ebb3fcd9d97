/-
InferBridge/EventCursor.lean

The bounded activity log and its cursor (app/status_split.py over the deque
of app/model_manager_core.py).

Emission and the copy that a page is made of are critical sections under
one lock, so each is one step here, whatever thread it runs on.

A log is reached by emitting a list of events.  It holds the last fifty of
them, numbered from one in the order of emission (`emitAll_events`), and
`recentEventsPage_eq` computes every page from the list and the cursor.

Main result: `recentEventsPage_protocol`, the pages of all logs and cursors
together with what a client sees that always polls with the cursor it was
given last.
-/
import InferBridge.Lib.Transition

namespace InferBridge

/-! ### The log -/

/-- The fields of an event besides its id. -/
structure LogEvent where
  timestamp : Int
  level : String
  message : String
deriving DecidableEq, Repr

/-- An event as the deque holds it. -/
structure LogEntry where
  id : Option Nat
  event : LogEvent
deriving DecidableEq, Repr

/-- An event of a page. -/
structure PageEntry where
  id : Nat
  event : LogEvent
deriving DecidableEq, Repr

/-- `_events` and `_event_sequence`. -/
structure EventLog where
  events : List LogEntry
  sequence : Nat
deriving DecidableEq, Repr

def EventLog.initial : EventLog := ⟨[], 0⟩

/-- `maxlen` of the deque. -/
def maxEvents : Nat := 50

/-- `deque.append`. -/
def appendBounded (events : List LogEntry) (entry : LogEntry) : List LogEntry :=
  (events ++ [entry]).drop ((events ++ [entry]).length - maxEvents)

/-- `self._events[-1]["id"] = sequence`. -/
def setLastId (sequence : Nat) : List LogEntry → List LogEntry
  | [] => []
  | [entry] => [{ entry with id := some sequence }]
  | entry :: rest => entry :: setLastId sequence rest

/-- `emit_event_with_cursor`. -/
def emitEvent (log : EventLog) (event : LogEvent) : EventLog :=
  { events := setLastId (log.sequence + 1) (appendBounded log.events ⟨none, event⟩)
    sequence := log.sequence + 1 }

def emitAll (emitted : List LogEvent) : EventLog := emitted.foldl emitEvent EventLog.initial

/-! ### The page -/

structure EventsPage where
  data : List PageEntry
  cursor : Nat
  nextCursor : Nat
  latestCursor : Nat
  hasMore : Bool
  resetRequired : Bool
deriving DecidableEq, Repr

/-- The loop that gives an id to an entry without one. -/
def normalizeIds : Nat → List LogEntry → List PageEntry
  | _, [] => []
  | nextMissingId, entry :: rest =>
    let id :=
      match entry.id with
      | some id => if id < 1 then nextMissingId else id
      | none => nextMissingId
    ⟨id, entry.event⟩ :: normalizeIds (max (nextMissingId + 1) (id + 1)) rest

/-- `min(max(int(limit), 1), 100)`. -/
def safeLimit (limit : Int) : Nat := (min (max limit 1) 100).toNat

/-- `recent_events_page`. -/
def recentEventsPage (log : EventLog) (cursor limit : Int) : EventsPage :=
  let cursor := (max cursor 0).toNat
  let events := normalizeIds (max (log.sequence + 1 - log.events.length) 1) log.events
  let latestCursor := (events.getLast?.map PageEntry.id).elim log.sequence (max log.sequence)
  let firstCursor := (events.head?.map PageEntry.id).getD (latestCursor + 1)
  let resetRequired : Bool :=
    latestCursor < cursor ∨ (events ≠ [] ∧ 0 < cursor ∧ cursor + 1 < firstCursor)
  let candidates :=
    if resetRequired then events else events.filter fun entry => cursor < entry.id
  let page := candidates.take (safeLimit limit)
  { data := page
    cursor := cursor
    nextCursor :=
      (page.getLast?.map PageEntry.id).getD (if resetRequired then latestCursor else cursor)
    latestCursor := latestCursor
    hasMore := page.length < candidates.length
    resetRequired := resetRequired }

/-! ### Numbered events -/

/-- Events with consecutive ids. -/
def numberedFrom : Nat → List LogEvent → List PageEntry
  | _, [] => []
  | n, event :: rest => ⟨n, event⟩ :: numberedFrom (n + 1) rest

@[simp] theorem length_numberedFrom (n : Nat) (events : List LogEvent) :
    (numberedFrom n events).length = events.length := by
  induction events generalizing n with
  | nil => rfl
  | cons event rest ih => rw [numberedFrom, List.length_cons, List.length_cons, ih]

theorem map_id_numberedFrom (n : Nat) (events : List LogEvent) :
    (numberedFrom n events).map PageEntry.id = List.range' n events.length := by
  induction events generalizing n with
  | nil => rfl
  | cons event rest ih =>
    rw [numberedFrom, List.map_cons, ih, List.length_cons, List.range'_succ]

theorem drop_numberedFrom (n k : Nat) (events : List LogEvent) :
    (numberedFrom n events).drop k = numberedFrom (n + k) (events.drop k) := by
  induction events generalizing n k with
  | nil => simp [numberedFrom]
  | cons event rest ih =>
    cases k with
    | zero => rfl
    | succ k =>
      rw [numberedFrom, List.drop_succ_cons, List.drop_succ_cons, ih]
      congr 1
      omega

theorem take_numberedFrom (n k : Nat) (events : List LogEvent) :
    (numberedFrom n events).take k = numberedFrom n (events.take k) := by
  induction events generalizing n k with
  | nil => simp [numberedFrom]
  | cons event rest ih =>
    cases k with
    | zero => rfl
    | succ k => rw [numberedFrom, List.take_succ_cons, List.take_succ_cons, numberedFrom, ih]

theorem numberedFrom_append (n : Nat) (events more : List LogEvent) :
    numberedFrom n (events ++ more) =
      numberedFrom n events ++ numberedFrom (n + events.length) more := by
  induction events generalizing n with
  | nil => rfl
  | cons event rest ih =>
    rw [List.cons_append, numberedFrom, ih, numberedFrom, List.length_cons, List.cons_append]
    congr 3
    omega

/-- The entries after the id `c`. -/
theorem filter_numberedFrom (n c : Nat) (events : List LogEvent) :
    (numberedFrom n events).filter (fun entry => c < entry.id) =
      numberedFrom (max n (c + 1)) (events.drop (c + 1 - n)) := by
  induction events generalizing n with
  | nil => simp [numberedFrom]
  | cons event rest ih =>
    rw [numberedFrom]
    by_cases hn : c < n
    · have hmax : max n (c + 1) = n := by omega
      have hmax' : max (n + 1) (c + 1) = n + 1 := by omega
      have hdrop : c + 1 - n = 0 := by omega
      have hdrop' : c + 1 - (n + 1) = 0 := by omega
      rw [List.filter_cons_of_pos (by simpa using hn), ih, hmax, hmax', hdrop, hdrop']
      rfl
    · have hmax : max (n + 1) (c + 1) = max n (c + 1) := by omega
      have hdrop : c + 1 - n = c + 1 - (n + 1) + 1 := by omega
      rw [List.filter_cons_of_neg (by simpa using hn), ih, hmax, hdrop, List.drop_succ_cons]

theorem getLast?_numberedFrom (n : Nat) (events : List LogEvent) :
    (numberedFrom n events).getLast?.map PageEntry.id =
      if events.length = 0 then none else some (n + events.length - 1) := by
  rw [← List.getLast?_map, map_id_numberedFrom, List.getLast?_range']

/-! ### What the log holds -/

/-- The entry of the log for an event of a page. -/
def PageEntry.logged (entry : PageEntry) : LogEntry := ⟨some entry.id, entry.event⟩

theorem setLastId_append (sequence : Nat) (events : List LogEntry) (entry : LogEntry) :
    setLastId sequence (events ++ [entry]) = events ++ [{ entry with id := some sequence }] := by
  induction events with
  | nil => rfl
  | cons first rest ih =>
    obtain ⟨second, rest', hrest⟩ := List.exists_cons_of_ne_nil
      (List.append_ne_nil_of_right_ne_nil rest (List.cons_ne_nil entry []))
    rw [List.cons_append, hrest, setLastId, ← hrest, ih]
    · rfl
    · simp

/-- The number of events that were evicted. -/
def evictedCount (emitted : List LogEvent) : Nat := emitted.length - maxEvents

/-- **What the log holds** after any emissions: the last fifty events with their numbers. -/
theorem emitAll_events (emitted : List LogEvent) :
    (emitAll emitted).events = (numberedFrom (evictedCount emitted + 1)
        (emitted.drop (evictedCount emitted))).map PageEntry.logged ∧
      (emitAll emitted).sequence = emitted.length := by
  induction emitted using List.reverseRecOn with
  | nil => exact ⟨rfl, rfl⟩
  | append_singleton emitted event ih =>
    obtain ⟨hevents, hsequence⟩ := ih
    have hemit : emitAll (emitted ++ [event]) = emitEvent (emitAll emitted) event := by
      rw [emitAll, List.foldl_append]
      rfl
    have hlength : (emitAll emitted).events.length = emitted.length - evictedCount emitted := by
      rw [hevents, List.length_map, length_numberedFrom, List.length_drop]
    rw [hemit]
    refine ⟨?_, by rw [emitEvent, hsequence, List.length_append]; rfl⟩
    -- one more is evicted exactly when the log was full
    have hevicted : evictedCount (emitted ++ [event]) =
        evictedCount emitted + ((emitAll emitted).events.length + 1 - maxEvents) := by
      rw [hlength, evictedCount, evictedCount, List.length_append]
      simp only [maxEvents, List.length_singleton]
      omega
    have hle : (emitAll emitted).events.length + 1 - maxEvents ≤
        (emitAll emitted).events.length := by
      simp only [maxEvents]
      omega
    have hleft : evictedCount emitted + ((emitAll emitted).events.length + 1 - maxEvents) ≤
        emitted.length := by
      rw [hlength, evictedCount]
      simp only [maxEvents]
      omega
    have hlast : emitted.length + 1 =
        evictedCount emitted + ((emitAll emitted).events.length + 1 - maxEvents) + 1 +
          (emitted.length -
            (evictedCount emitted + ((emitAll emitted).events.length + 1 - maxEvents))) := by
      omega
    rw [emitEvent]
    dsimp only
    rw [appendBounded, List.length_append, List.length_singleton, List.drop_append_of_le_length hle,
      setLastId_append, hsequence, hevicted, List.drop_append_of_le_length hleft,
      numberedFrom_append, List.map_append, List.length_drop, hlast]
    generalize (emitAll emitted).events.length + 1 - maxEvents = k
    rw [hevents, ← List.map_drop, drop_numberedFrom, List.drop_drop, Nat.add_right_comm]
    rfl

theorem normalizeIds_logged (nextMissingId n : Nat) (hn : 1 ≤ n) (events : List LogEvent) :
    normalizeIds nextMissingId ((numberedFrom n events).map PageEntry.logged) =
      numberedFrom n events := by
  induction events generalizing nextMissingId n with
  | nil => rfl
  | cons event rest ih =>
    rw [numberedFrom, List.map_cons, normalizeIds]
    have hid : ¬ n < 1 := by omega
    simp only [PageEntry.logged, if_neg hid]
    exact congrArg (⟨n, event⟩ :: ·) (ih _ (n + 1) (by omega))

/-! ### Every page -/

/-- The number of events before the first one of a page. -/
def pageStart (emitted : List LogEvent) (cursor : Nat) : Nat :=
  if emitted.length < cursor ∨ (0 < cursor ∧ cursor < evictedCount emitted) then
    evictedCount emitted
  else max cursor (evictedCount emitted)

/-- The page of a log, computed from the emitted events. -/
def pageOf (emitted : List LogEvent) (cursor : Nat) (limit : Int) : EventsPage :=
  let start := pageStart emitted cursor
  let count := min (safeLimit limit) (emitted.length - start)
  { data := numberedFrom (start + 1) ((emitted.drop start).take count)
    cursor := cursor
    nextCursor := if count = 0 then min cursor emitted.length else start + count
    latestCursor := emitted.length
    hasMore := start + count < emitted.length
    resetRequired := emitted.length < cursor ∨ (0 < cursor ∧ cursor < evictedCount emitted) }

theorem evictedCount_le (emitted : List LogEvent) : evictedCount emitted ≤ emitted.length :=
  Nat.sub_le _ _

theorem pageStart_le (emitted : List LogEvent) (cursor : Nat) :
    pageStart emitted cursor ≤ emitted.length := by
  have hle := evictedCount_le emitted
  rw [pageStart]
  split <;> omega

theorem one_le_safeLimit (limit : Int) : 1 ≤ safeLimit limit := by
  rw [safeLimit]
  omega

/-- **Every page of every log.** -/
theorem recentEventsPage_eq (emitted : List LogEvent) (cursor : Nat) (limit : Int) :
    recentEventsPage (emitAll emitted) cursor limit = pageOf emitted cursor limit := by
  obtain ⟨hevents, hsequence⟩ := emitAll_events emitted
  have hle := evictedCount_le emitted
  have hlimit := one_le_safeLimit limit
  have hcursor : (max (cursor : Int) 0).toNat = cursor := by omega
  have hempty : emitted.drop (evictedCount emitted) = [] ↔ emitted.length = 0 := by
    rw [List.drop_eq_nil_iff, evictedCount]
    simp only [maxEvents]
    omega
  have hlatest : ((numberedFrom (evictedCount emitted + 1)
      (emitted.drop (evictedCount emitted))).getLast?.map PageEntry.id).elim emitted.length
        (max emitted.length) = emitted.length := by
    rw [getLast?_numberedFrom]
    split
    · rfl
    · rw [Option.elim_some, List.length_drop]
      omega
  have hreset : (emitted.length < cursor ∨
      (numberedFrom (evictedCount emitted + 1) (emitted.drop (evictedCount emitted)) ≠ [] ∧
        0 < cursor ∧ cursor + 1 < ((numberedFrom (evictedCount emitted + 1)
          (emitted.drop (evictedCount emitted))).head?.map PageEntry.id).getD
            (emitted.length + 1))) ↔
      (emitted.length < cursor ∨ (0 < cursor ∧ cursor < evictedCount emitted)) := by
    rcases hdrop : emitted.drop (evictedCount emitted) with - | ⟨event, rest⟩
    · have hnil := hempty.mp hdrop
      simp only [numberedFrom, ne_eq, not_true_eq_false, false_and, or_false]
      omega
    · show (_ ∨ (_ ∧ _ ∧ cursor + 1 < evictedCount emitted + 1)) ↔ _
      simp [numberedFrom]
  rw [recentEventsPage, hcursor, hsequence, hevents, normalizeIds_logged _ _ (Nat.le_add_left 1 _)]
  rw [hlatest]
  -- what the page is taken from
  have hcandidates : (if (emitted.length < cursor ∨ (0 < cursor ∧ cursor < evictedCount emitted))
      then numberedFrom (evictedCount emitted + 1) (emitted.drop (evictedCount emitted))
      else (numberedFrom (evictedCount emitted + 1) (emitted.drop (evictedCount emitted))).filter
        fun entry => cursor < entry.id) =
      numberedFrom (pageStart emitted cursor + 1) (emitted.drop (pageStart emitted cursor)) := by
    rw [pageStart]
    split
    · rfl
    · rw [filter_numberedFrom, List.drop_drop]
      congr 2
      · omega
      · omega
  simp only [hreset, decide_eq_true_eq, hcandidates]
  have hstart : pageStart emitted cursor ≤ emitted.length := pageStart_le emitted cursor
  have htake : (emitted.drop (pageStart emitted cursor)).take (safeLimit limit) =
      (emitted.drop (pageStart emitted cursor)).take
        (min (safeLimit limit) (emitted.length - pageStart emitted cursor)) := by
    rw [List.take_eq_take_min, List.length_drop]
  have hcount : ((emitted.drop (pageStart emitted cursor)).take
      (min (safeLimit limit) (emitted.length - pageStart emitted cursor))).length =
        min (safeLimit limit) (emitted.length - pageStart emitted cursor) := by
    rw [List.length_take, List.length_drop]
    omega
  rw [take_numberedFrom, htake, getLast?_numberedFrom, length_numberedFrom, length_numberedFrom,
    hcount, List.length_drop, pageOf]
  congr 1
  · -- the next cursor
    split
    · next hzero =>
      have hlast : emitted.length = pageStart emitted cursor := by omega
      have hevicted : evictedCount emitted = emitted.length - 50 := rfl
      rw [pageStart] at hlast
      rw [Option.getD_none]
      split at hlast <;> split <;> omega
    · next hpos =>
      rw [Option.getD_some]
      omega
  · exact decide_eq_decide.mpr (by omega)

/-! ### A client -/

inductive ClientStep where
  | emit (event : LogEvent)
  | poll (limit : Int)
deriving DecidableEq

/-- A client with the cursor of its next request and the pages it got, the last one first. -/
structure Client where
  log : EventLog
  cursor : Nat
  pages : List EventsPage

/-- A client that comes with any cursor to a server that just started. -/
def Client.arrive (cursor : Nat) : Client := ⟨EventLog.initial, cursor, []⟩

def Client.step (client : Client) : ClientStep → Client
  | .emit event => { client with log := emitEvent client.log event }
  | .poll limit =>
    let page := recentEventsPage client.log client.cursor limit
    { client with cursor := page.nextCursor, pages := page :: client.pages }

def Client.run (client : Client) (steps : List ClientStep) : Client := steps.foldl Client.step client

/-- The ids that the client saw, in order. -/
def seenIds (pages : List EventsPage) : List Nat :=
  pages.reverse.flatMap fun page => page.data.map PageEntry.id

/-- Pages in which the client asked for what follows a known event, and got it. -/
def Continues (page : EventsPage) : Prop := page.resetRequired = false ∧ 1 ≤ page.cursor

/-- What holds of the pages of a client, the last one first.  `cursor` is the next cursor. -/
def Linked : List EventsPage → Nat → Prop
  | [], _ => True
  | page :: earlier, cursor => page.nextCursor = cursor ∧ Linked earlier page.cursor ∧
      (Continues page → page.data.map PageEntry.id =
        List.range' (page.cursor + 1) (page.nextCursor - page.cursor) ∧
        page.cursor ≤ page.nextCursor)

theorem map_id_pageOf (emitted : List LogEvent) (cursor : Nat) (limit : Int) :
    (pageOf emitted cursor limit).data.map PageEntry.id =
      List.range' (pageStart emitted cursor + 1)
        (min (safeLimit limit) (emitted.length - pageStart emitted cursor)) := by
  rw [pageOf, map_id_numberedFrom, List.length_take, List.length_drop]
  congr 1
  omega

/-- A page that continues has the ids from the cursor on. -/
theorem pageOf_continues {emitted : List LogEvent} {cursor : Nat} {limit : Int}
    (h : Continues (pageOf emitted cursor limit)) :
    (pageOf emitted cursor limit).data.map PageEntry.id = List.range' (cursor + 1)
        ((pageOf emitted cursor limit).nextCursor - cursor) ∧
      cursor ≤ (pageOf emitted cursor limit).nextCursor := by
  obtain ⟨hreset, hcursor⟩ := h
  have hcursor : 1 ≤ cursor := hcursor
  have hno : ¬ (emitted.length < cursor ∨ (0 < cursor ∧ cursor < evictedCount emitted)) := by
    simpa [pageOf] using hreset
  have hstart : pageStart emitted cursor = cursor := by
    rw [pageStart, if_neg hno]
    omega
  rw [map_id_pageOf, hstart, pageOf]
  dsimp only
  rw [hstart]
  split
  · next hzero =>
    have hmin : min cursor emitted.length = cursor := by omega
    rw [hzero, hmin, Nat.sub_self]
    exact ⟨rfl, le_rfl⟩
  · rw [Nat.add_sub_cancel_left]
    exact ⟨rfl, Nat.le_add_right _ _⟩

/-- What holds of a client: its pages are linked, the ids it saw increase, and its cursor is
behind what was emitted and not behind what it saw, unless it has seen nothing. -/
structure Client.Sound (client : Client) (emitted : List LogEvent) : Prop where
  log : client.log = emitAll emitted
  linked : Linked client.pages client.cursor
  increasing : (seenIds client.pages).Pairwise (· < ·)
  seen_le : ∀ id ∈ seenIds client.pages, id ≤ client.cursor
  cursor_le : client.pages ≠ [] → client.cursor ≤ emitted.length

theorem Client.Sound.emit {client : Client} {emitted : List LogEvent} (h : client.Sound emitted)
    (event : LogEvent) : (client.step (.emit event)).Sound (emitted ++ [event]) where
  log := by
    show emitEvent client.log event = _
    rw [h.log, emitAll, emitAll, List.foldl_append]
    rfl
  linked := h.linked
  increasing := h.increasing
  seen_le := h.seen_le
  cursor_le hne := (h.cursor_le hne).trans (by simp)

theorem seenIds_cons (page : EventsPage) (pages : List EventsPage) :
    seenIds (page :: pages) = seenIds pages ++ page.data.map PageEntry.id := by
  rw [seenIds, List.reverse_cons, List.flatMap_append, List.flatMap_singleton]
  rfl

/-- The start of a page is not behind a cursor that the server knows. -/
theorem le_pageStart {emitted : List LogEvent} {cursor : Nat} (h : cursor ≤ emitted.length) :
    cursor ≤ pageStart emitted cursor := by
  rw [pageStart]
  split <;> omega

theorem Client.Sound.poll {client : Client} {emitted : List LogEvent} (h : client.Sound emitted)
    (limit : Int) : (client.step (.poll limit)).Sound emitted := by
  have hpage : recentEventsPage client.log client.cursor limit =
      pageOf emitted client.cursor limit := by
    rw [h.log, recentEventsPage_eq]
  have hids := map_id_pageOf emitted client.cursor limit
  have hstart := pageStart_le emitted client.cursor
  -- a client that has seen something asks for what is not behind the page
  have hseen : ∀ id ∈ seenIds client.pages, id ≤ pageStart emitted client.cursor := by
    intro id hid
    have hne : client.pages ≠ [] := by
      intro hnil
      rw [hnil] at hid
      cases hid
    exact (h.seen_le id hid).trans (le_pageStart (h.cursor_le hne))
  have hnext : (pageOf emitted client.cursor limit).nextCursor =
      if min (safeLimit limit) (emitted.length - pageStart emitted client.cursor) = 0 then
        min client.cursor emitted.length
      else pageStart emitted client.cursor +
        min (safeLimit limit) (emitted.length - pageStart emitted client.cursor) := rfl
  refine ⟨h.log, ?_, ?_, ?_, ?_⟩
  · show Linked (recentEventsPage client.log client.cursor limit :: client.pages)
      (recentEventsPage client.log client.cursor limit).nextCursor
    rw [hpage]
    exact ⟨rfl, h.linked, pageOf_continues⟩
  · show (seenIds (recentEventsPage client.log client.cursor limit :: client.pages)).Pairwise _
    rw [hpage, seenIds_cons, hids, List.pairwise_append]
    refine ⟨h.increasing, List.pairwise_lt_range', ?_⟩
    intro a ha b hb
    have hb := (List.mem_range'_1.mp hb).1
    exact (hseen a ha).trans_lt hb
  · show ∀ id ∈ seenIds (recentEventsPage client.log client.cursor limit :: client.pages),
      id ≤ (recentEventsPage client.log client.cursor limit).nextCursor
    rw [hpage, seenIds_cons, hids, hnext]
    intro id hid
    rcases List.mem_append.mp hid with hid | hid
    · have hle := hseen id hid
      have hne : client.pages ≠ [] := by
        intro hnil
        rw [hnil] at hid
        cases hid
      have hcursor := h.seen_le id hid
      have hemitted := h.cursor_le hne
      split <;> omega
    · have hid := List.mem_range'_1.mp hid
      split <;> omega
  · intro _
    show (recentEventsPage client.log client.cursor limit).nextCursor ≤ _
    rw [hpage, hnext]
    split <;> omega

theorem Client.sound_run (cursor : Nat) (steps : List ClientStep) :
    ∃ emitted, ((Client.arrive cursor).run steps).Sound emitted := by
  induction steps using List.reverseRecOn with
  | nil => exact ⟨[], rfl, trivial, List.Pairwise.nil, by simp [seenIds, run, arrive], by simp [run, arrive]⟩
  | append_singleton steps step ih =>
    obtain ⟨emitted, h⟩ := ih
    have hrun : (Client.arrive cursor).run (steps ++ [step]) =
        ((Client.arrive cursor).run steps).step step := by
      rw [run, List.foldl_append]
      rfl
    rw [hrun]
    cases step with
    | emit event => exact ⟨emitted ++ [event], h.emit event⟩
    | poll limit => exact ⟨emitted, h.poll limit⟩

theorem linked_of_append {later earlier : List EventsPage} {cursor : Nat}
    (h : Linked (later ++ earlier) cursor) : ∃ cursor', Linked earlier cursor' := by
  induction later generalizing cursor with
  | nil => exact ⟨cursor, h⟩
  | cons page later ih => exact ih h.2.1

/-- The ids of pages that continue one another have no gap. -/
theorem seenIds_of_linked {stretch : List EventsPage} {page : EventsPage}
    {before : List EventsPage} {cursor : Nat} (h : Linked (stretch ++ page :: before) cursor)
    (hcontinues : ∀ q ∈ stretch, Continues q) :
    page.nextCursor ≤ cursor ∧
      seenIds stretch = List.range' (page.nextCursor + 1) (cursor - page.nextCursor) := by
  induction stretch generalizing cursor with
  | nil =>
    obtain ⟨rfl, -⟩ := h
    refine ⟨le_rfl, ?_⟩
    rw [Nat.sub_self]
    rfl
  | cons q stretch ih =>
    obtain ⟨hnext, hlinked, hpage⟩ := h
    obtain ⟨hids, hle⟩ := hpage (hcontinues q List.mem_cons_self)
    obtain ⟨hle', hseen⟩ := ih hlinked fun r hr => hcontinues r (List.mem_cons_of_mem q hr)
    refine ⟨by omega, ?_⟩
    rw [seenIds_cons, hseen, hids, hnext]
    have hlength : cursor - page.nextCursor = (q.cursor - page.nextCursor) + (cursor - q.cursor) := by
      omega
    have hfrom : q.cursor + 1 = page.nextCursor + 1 + 1 * (q.cursor - page.nextCursor) := by omega
    rw [hlength, hfrom, List.range'_append]

/-! ### The protocol -/

/-- The event with this id was emitted and is no longer in the log. -/
def Evicted (emitted : List LogEvent) (id : Nat) : Prop :=
  1 ≤ id ∧ id ≤ emitted.length ∧ ∀ entry ∈ (emitAll emitted).events, entry.id ≠ some id

theorem evicted_iff {emitted : List LogEvent} {id : Nat} :
    Evicted emitted id ↔ 1 ≤ id ∧ id ≤ evictedCount emitted := by
  obtain ⟨hevents, -⟩ := emitAll_events emitted
  have hle := evictedCount_le emitted
  have hmem : (∃ entry ∈ (emitAll emitted).events, entry.id = some id) ↔
      evictedCount emitted + 1 ≤ id ∧ id < evictedCount emitted + 1 +
        (emitted.length - evictedCount emitted) := by
    rw [hevents, ← List.length_drop, ← List.mem_range'_1, ← map_id_numberedFrom]
    simp only [List.mem_map, exists_exists_and_eq_and]
    constructor
    · rintro ⟨entry, hentry, hid⟩
      exact ⟨entry, hentry, Option.some.inj hid⟩
    · rintro ⟨entry, hentry, hid⟩
      exact ⟨entry, hentry, congrArg some hid⟩
  constructor
  · rintro ⟨hpos, hlast, hno⟩
    refine ⟨hpos, ?_⟩
    by_contra hlt
    obtain ⟨entry, hentry, hid⟩ := hmem.mpr ⟨by omega, by omega⟩
    exact hno entry hentry hid
  · rintro ⟨hpos, hid⟩
    refine ⟨hpos, by omega, ?_⟩
    intro entry hentry heq
    have hin := hmem.mp ⟨entry, hentry, heq⟩
    omega

/-- **The event cursor.**  For every log and every cursor from one on:

1. a page is marked exactly when the cursor is in the future or an event after it was evicted;
2. an unmarked page has the events with the next ids, as many as the limit allows, ends with
   the next cursor, and says whether there are more;
3. a marked page starts at the oldest event that is left.

And for every client that comes with any cursor and polls with the one it got last, while
events are emitted at any time: the ids it sees increase strictly, and pages in a row that are
unmarked answers to cursors from one on have all events after the page before them, each once. -/
theorem recentEventsPage_protocol :
    (∀ (emitted : List LogEvent) (cursor : Nat) (limit : Int), 1 ≤ cursor →
      ((recentEventsPage (emitAll emitted) cursor limit).resetRequired = true ↔
        emitted.length < cursor ∨ ∃ id, cursor < id ∧ Evicted emitted id) ∧
      ((recentEventsPage (emitAll emitted) cursor limit).resetRequired = false →
        ∃ n, n = min (safeLimit limit) (emitted.length - cursor) ∧
          (recentEventsPage (emitAll emitted) cursor limit).data =
            numberedFrom (cursor + 1) ((emitted.drop cursor).take n) ∧
          (recentEventsPage (emitAll emitted) cursor limit).data.map PageEntry.id =
            List.range' (cursor + 1) n ∧
          (recentEventsPage (emitAll emitted) cursor limit).nextCursor = cursor + n ∧
          ((recentEventsPage (emitAll emitted) cursor limit).hasMore = true ↔
            cursor + n < emitted.length)) ∧
      ((recentEventsPage (emitAll emitted) cursor limit).resetRequired = true →
        (recentEventsPage (emitAll emitted) cursor limit).data.map PageEntry.logged =
          (emitAll emitted).events.take (safeLimit limit))) ∧
    ∀ (cursor : Nat) (steps : List ClientStep),
      (seenIds ((Client.arrive cursor).run steps).pages).Pairwise (· < ·) ∧
      ∀ (later stretch : List EventsPage) (page : EventsPage) (before : List EventsPage),
        ((Client.arrive cursor).run steps).pages = later ++ stretch ++ page :: before →
        (∀ q ∈ stretch, q.resetRequired = false ∧ 1 ≤ q.cursor) →
        ∃ n, seenIds stretch = List.range' (page.nextCursor + 1) n := by
  refine ⟨?_, ?_⟩
  · intro emitted cursor limit hcursor
    rw [recentEventsPage_eq]
    have hle := evictedCount_le emitted
    refine ⟨?_, ?_, ?_⟩
    · simp only [pageOf, decide_eq_true_eq, evicted_iff]
      constructor
      · rintro (h | ⟨-, h⟩)
        · exact .inl h
        · exact .inr ⟨cursor + 1, by omega, by omega, by omega⟩
      · rintro (h | ⟨id, h⟩)
        · exact .inl h
        · exact .inr (by omega)
    · intro hreset
      have hno : ¬ (emitted.length < cursor ∨ (0 < cursor ∧ cursor < evictedCount emitted)) := by
        simpa [pageOf] using hreset
      have hstart : pageStart emitted cursor = cursor := by
        rw [pageStart, if_neg hno]
        omega
      have hids := map_id_pageOf emitted cursor limit
      rw [hstart] at hids
      refine ⟨_, rfl, ?_, hids, ?_, ?_⟩
      · rw [pageOf, hstart]
      · rw [pageOf, hstart]
        dsimp only
        split <;> omega
      · rw [pageOf, hstart, decide_eq_true_eq]
    · intro hreset
      have hyes : emitted.length < cursor ∨ (0 < cursor ∧ cursor < evictedCount emitted) := by
        simpa [pageOf] using hreset
      have hstart : pageStart emitted cursor = evictedCount emitted := by
        rw [pageStart, if_pos hyes]
      have htake : (emitted.drop (evictedCount emitted)).take (safeLimit limit) =
          (emitted.drop (evictedCount emitted)).take
            (min (safeLimit limit) (emitted.length - evictedCount emitted)) := by
        rw [List.take_eq_take_min, List.length_drop]
      rw [(emitAll_events emitted).1, ← List.map_take, take_numberedFrom, htake, pageOf, hstart]
  · intro cursor steps
    obtain ⟨emitted, h⟩ := Client.sound_run cursor steps
    refine ⟨h.increasing, ?_⟩
    intro later stretch page before hpages hcontinues
    have hlinked := h.linked
    rw [hpages, List.append_assoc] at hlinked
    obtain ⟨cursor', hlinked⟩ := linked_of_append hlinked
    exact ⟨_, (seenIds_of_linked hlinked hcontinues).2⟩

/-- A client with an old cursor that meets an empty server: the marked page sends it to cursor
zero, and by its next request one event has been evicted. -/
def returningClient : Client :=
  (Client.arrive 57).run (.poll 50 :: List.replicate 51 (.emit ⟨0, "info", ""⟩) ++ .poll 50 ::
    List.replicate 52 (.emit ⟨0, "info", ""⟩) ++ [.poll 50])

/-- Between two marked pages the answer to the cursor zero leaves the first event out. -/
theorem recentEventsPage_gap_after_zero :
    ¬ ∀ (cursor : Nat) (steps : List ClientStep) (later stretch : List EventsPage)
        (mark page : EventsPage) (before : List EventsPage),
      ((Client.arrive cursor).run steps).pages = later ++ mark :: stretch ++ page :: before →
      mark.resetRequired = true → page.resetRequired = true →
      (∀ q ∈ stretch, q.resetRequired = false) →
      ∃ n, seenIds stretch = List.range' (page.nextCursor + 1) n := by
  intro h
  have hlength : returningClient.pages.length = 3 := by decide +kernel
  have hmarks : returningClient.pages.map EventsPage.resetRequired = [true, false, true] := by
    decide +kernel
  have hnext : returningClient.pages.map EventsPage.nextCursor = [103, 51, 0] := by
    decide +kernel
  have hids : returningClient.pages.map (fun page => page.data.map PageEntry.id) =
      [List.range' 54 50, List.range' 2 50, []] := by
    decide +kernel
  obtain ⟨a, b, c, hpages⟩ := List.length_eq_three.mp hlength
  rw [hpages] at hmarks hnext hids
  obtain ⟨ha, hb, hc⟩ : a.resetRequired = true ∧ b.resetRequired = false ∧
      c.resetRequired = true := by simpa using hmarks
  obtain ⟨-, -, hcnext⟩ : a.nextCursor = 103 ∧ b.nextCursor = 51 ∧ c.nextCursor = 0 := by
    simpa using hnext
  obtain ⟨-, hbids, -⟩ : a.data.map PageEntry.id = List.range' 54 50 ∧
      b.data.map PageEntry.id = List.range' 2 50 ∧ c.data.map PageEntry.id = [] := by
    simpa only [List.map_cons, List.map_nil, List.cons.injEq, and_true] using hids
  obtain ⟨n, hn⟩ := h 57 _ [] [b] a c [] hpages ha hc (by simpa using hb)
  -- the first id would be one
  have hseen : seenIds [b] = List.range' 2 50 := by
    rw [seenIds_cons, hbids]
    rfl
  rw [hseen, hcnext] at hn
  have hhead := congrArg List.head? hn
  cases n with
  | zero => cases hhead
  | succ n => cases hhead

end InferBridge
