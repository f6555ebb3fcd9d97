/-
InferBridge/BoundarySafety.lean

What the middleware in front of the routes guarantees.

Design.  An invariant of the routes is one of the server (`Outer.closed`), so that it is enough
to know with which scope the routes are called: each middleware passes its scope on, except the
bridge, which may replace the authorization, and the guard of the Connection Hub, which pins the
host.

Main results.  `server_remote`: a client of another machine reaches a route only with a key.
`hub_pinned`: the routes of the Connection Hub see one host, and a loopback one.
`Bridge.call_spec`: what the bridge changes.  `limited_buffer_le`: the access check never holds
more of a body than the limit.  `AccessCheck.call_replays`: it hands the body on unchanged.
-/
import InferBridge.RequestBoundary
import InferBridge.HubGate

namespace InferBridge.Asgi

open Interaction Text

variable {σ : Type} {libraries : Libraries} {scope scope' : Scope} {events : List Happening}

/-! ### Requests for the witnesses below -/

open RequestBodyLimitMiddleware (Downstream downstream)

/-- The libraries on a few addresses, without cookies. -/
def Libraries.plain : Libraries where
  ipAddress text :=
    if text = "127.0.0.1".toList ∨ text = "::1".toList then some ⟨true, none⟩
    else if text = "192.168.1.20".toList then some ⟨false, none⟩
    else none
  uiCookie _ := none
  safeOrigin scope := scope.values "origin" = []
  jsonResponse status detail := [.start status [], .body (ascii (detailJson detail)) none]

def keyed (apiKey : String) : Settings where
  apiKey := apiKey.toList
  host := "0.0.0.0".toList
  port := 8000

def sampleScope (method path client : String) (headers : List (String × String)) : Scope where
  type := "http".toList
  method := some method.toList
  path := some path.toList
  httpVersion := some "1.1".toList
  headers := headers.map fun header => (ascii header.1.toList, ascii header.2.toList)
  client := some client.toList
  server := none

def sampleCheck : AccessCheck where
  host := HubPreflight.oneHost
  manager := HubPreflight.oneManager
  service := HubPreflight.probed 200
  response _ _ := [.start 409 [], .body [] none]

/-! ### Decisions -/

section

variable {decide : Scope → Except (List Message) Scope} {app : App σ}

theorem decided_start (h : decide scope = .ok scope') :
    (decided decide app).start scope = .inl (app.start scope') := by
  simp [decided, h]

theorem decided_start_error {messages : List Message} (h : decide scope = .error messages) :
    (decided decide app).start scope = .inr (.ok messages) := by
  simp [decided, h]

/-- A request that is answered is given these messages. -/
theorem decided_runs_error {messages : List Message} (h : decide scope = .error messages)
    (hrun : (decided decide app).Runs scope events) :
    outgoing events <+: messages ∧ incoming events = [] := by
  obtain ⟨w, hrun⟩ := hrun
  rw [decided_start_error h] at hrun
  change Run (chain app.act (fun _ _ => none) emit) _ _ _ at hrun
  obtain ⟨reply, -, hreply⟩ := run_chain_inr.mp hrun
  exact outgoing_of_run_emit hreply

/-- A request that is passed on is served by the application. -/
theorem decided_runs_iff (h : decide scope = .ok scope') :
    (decided decide app).Runs scope events ↔ app.Runs scope' events := by
  unfold App.Runs
  rw [decided_start h]
  show (∃ w, Run (chain app.act (fun _ _ => none) emit) _ _ w) ↔ _
  constructor
  · rintro ⟨w, hrun⟩
    rcases run_chain_iff.mp hrun with ⟨t, -, ht⟩ | ⟨_, _, _, _, _, _, _, _, _, hnext, _⟩
    · exact ⟨t, ht⟩
    · cases hnext
  · rintro ⟨t, hrun⟩
    exact ⟨.inl t, run_chain_iff.mpr (.inl ⟨t, rfl, hrun⟩)⟩

end

/-! ### The pinned host -/

def isHost (header : Bytes × Bytes) : Bool := lowerBytes header.1 = ascii "host".toList

/-- The loop, by whether a header names the host. -/
theorem pinHeaders_cons (trusted : Bytes) (replaced : Bool) (header : Bytes × Bytes)
    (headers : Headers) :
    pinHeaders trusted replaced (header :: headers) =
      if isHost header then
        if replaced then pinHeaders trusted true headers
        else (header.1, trusted) :: pinHeaders trusted true headers
      else header :: pinHeaders trusted replaced headers := by
  by_cases h : lowerBytes header.1 = ascii "host".toList <;> simp only [pinHeaders, isHost, h] <;>
    rfl

theorem pinHeaders_host (trusted : Bytes) (replaced : Bool) (headers : Headers) :
    ((pinHeaders trusted replaced headers).filter isHost).map Prod.snd =
      if replaced then [] else [trusted] := by
  induction headers generalizing replaced with
  | nil => cases replaced <;> rfl
  | cons header headers ih =>
    rw [pinHeaders_cons]
    cases hkey : isHost header with
    | true =>
      have first : isHost (header.1, trusted) = true := hkey
      cases replaced with
      | true => exact ih true
      | false =>
        rw [if_pos rfl, if_neg Bool.false_ne_true, List.filter_cons_of_pos first, List.map_cons,
          ih true]
        rfl
    | false =>
      rw [if_neg Bool.false_ne_true, List.filter_cons_of_neg (by simp [hkey])]
      exact ih replaced

/-- The other headers stay as they are, in their order. -/
theorem pinHeaders_others (trusted : Bytes) (replaced : Bool) (headers : Headers) :
    (pinHeaders trusted replaced headers).filter (!isHost ·) = headers.filter (!isHost ·) := by
  induction headers generalizing replaced with
  | nil => cases replaced <;> rfl
  | cons header headers ih =>
    rw [pinHeaders_cons]
    cases hkey : isHost header with
    | true =>
      have first : isHost (header.1, trusted) = true := hkey
      rw [List.filter_cons_of_neg (by simp [hkey])]
      cases replaced with
      | true => exact ih true
      | false =>
        rw [if_pos rfl, if_neg Bool.false_ne_true, List.filter_cons_of_neg (by simp [first])]
        exact ih true
    | false =>
      rw [if_neg Bool.false_ne_true, List.filter_cons_of_pos (by simp [hkey]),
        List.filter_cons_of_pos (by simp [hkey]), ih replaced]

theorem mem_loopbackHosts_of_header {value host : Str}
    (h : loopbackHostFromHeader value = some host) : host ∈ loopbackHosts := by
  unfold loopbackHostFromHeader at h
  dsimp only at h
  generalize strip isBracket _ = candidate at h
  by_cases hmem : candidate ∈ loopbackHosts
  · rw [if_pos hmem] at h
    exact Option.some.inj h ▸ hmem
  · rw [if_neg hmem] at h
    cases h

theorem trustedHost_mem (scope : Scope) (settings : Settings) :
    trustedHost scope settings ∈ loopbackHosts := by
  unfold trustedHost
  cases hheader : loopbackHostFromHeader (strip isSpace (scope.header "host")) with
  | some requested => exact mem_loopbackHosts_of_header hheader
  | none =>
    dsimp only
    generalize lower _ = clean
    by_cases hmem : clean ∈ loopbackHosts
    · rw [if_pos hmem]
      exact hmem
    · rw [if_neg hmem]
      split_ifs
      · exact List.mem_of_elem_eq_true rfl
      · exact List.mem_of_elem_eq_true rfl

theorem listenerPort_isPort (scope : Scope) (settings : Settings) :
    isPort (listenerPort scope settings) = true := by
  unfold listenerPort
  split
  · split_ifs with h h' <;> first | assumption | rfl
  · split_ifs with h <;> first | assumption | rfl

/-- The request has one `Host`, a loopback one with a port that can be listened on, and is the
same otherwise. -/
structure Pinned (scope scope' : Scope) : Prop where
  host : ∃ host port, host ∈ loopbackHosts ∧ isPort port = true ∧
    scope'.values "host" = [trustedHostHeader host port] ∧ scope'.server = some (host, some port)
  others : scope'.headers.filter (!isHost ·) = scope.headers.filter (!isHost ·)
  rest : scope' = { scope with headers := scope'.headers, server := scope'.server }

theorem pinRequestOrigin_pinned (scope : Scope) (settings : Settings) :
    Pinned scope (pinRequestOrigin scope settings) where
  host := ⟨_, _, trustedHost_mem scope settings, listenerPort_isPort scope settings,
    pinHeaders_host _ false scope.headers, rfl⟩
  others := pinHeaders_others _ _ _
  rest := rfl

/-- For a path of the Connection Hub the guard pins the request, unless it is a self-test without
a key. -/
theorem hubHardening_eq (libraries : Libraries) (settings : Settings) (http : scope.isHttp = true)
    (hub : ∃ path ∈ hubPaths, scope.path = some path) :
    hubHardening libraries (some settings) scope =
      if scope.path = some selfTestPath ∧ authorized settings scope = false then
        .error (libraries.jsonResponse 401 "Invalid or missing API key".toList)
      else .ok (pinRequestOrigin scope settings) := by
  have listed : hubPaths.any (some · = scope.path) = true := by
    obtain ⟨path, hmem, hpath⟩ := hub
    exact List.any_eq_true.mpr ⟨path, hmem, by simp [hpath]⟩
  unfold hubHardening
  rw [http, listed, if_neg (by simp)]
  simp only [Bool.and_eq_true, decide_eq_true_eq, Bool.not_eq_true']

namespace Bridge

variable (bridge : Bridge) {app : App σ}

/-- What the server sends for a send of the application. -/
def stamp (issueCookie : Bool) : Happening → Happening
  | .sent message answer => .sent (bridge.withCookie issueCookie message) answer
  | event => event

theorem withCookie_false (message : Message) : bridge.withCookie false message = message := by
  cases message <;> rfl

theorem map_stamp_false (events : List Happening) : events.map (bridge.stamp false) = events := by
  have same : bridge.stamp false = id := by
    funext event
    cases event with
    | received answer => rfl
    | sent message answer => rw [stamp, withCookie_false]; rfl
  rw [same, List.map_id]

theorem outside_eq (issueCookie : Bool) (xs : List Happening) :
    bridge.relay.outside issueCookie xs = xs.map (bridge.stamp issueCookie) := by
  induction xs with
  | nil => rfl
  | cons x xs ih => cases x <;> exact congrArg (_ :: ·) ih

theorem inside_eq (issueCookie : Bool) (xs : List Happening) :
    bridge.relay.inside issueCookie xs = xs := by
  induction xs with
  | nil => rfl
  | cons x xs ih => cases x <;> exact congrArg (_ :: ·) ih

/-- The runs of the bridged application are those of the application for the forwarded scope,
with the cookie on the start of a response for the page. -/
theorem call_runs_iff (app : App σ) (scope : Scope) (events : List Happening) :
    (bridge.call libraries app).Runs scope events ↔
      ∃ xs, events = xs.map (bridge.stamp (issuesCookie scope)) ∧
        app.Runs (bridge.forwarded libraries scope) xs := by
  constructor
  · rintro ⟨⟨m, t⟩, h⟩
    obtain ⟨xs, hxs, -, hrun⟩ := Relay.run_iff.mp h
    rw [outside_eq] at hxs
    rw [inside_eq] at hrun
    exact ⟨xs, hxs, t, hrun⟩
  · rintro ⟨xs, rfl, t, hrun⟩
    refine ⟨(bridge.relay.monitor (issuesCookie scope) xs, t), Relay.run_iff.mpr ⟨xs, ?_, rfl, ?_⟩⟩
    · rw [outside_eq]
    · rw [inside_eq]
      exact hrun

def isAuthorization (header : Bytes × Bytes) : Bool :=
  lowerBytes header.1 = ascii "authorization".toList

theorem forwarded_of_attaches (h : bridge.attaches libraries scope = true) :
    (bridge.forwarded libraries scope).values "authorization" =
        [utf8 ("Bearer ".toList ++ bridge.apiKey)] ∧
      (bridge.forwarded libraries scope).headers.filter (!isAuthorization ·) =
        scope.headers.filter (!isAuthorization ·) := by
  have key : isAuthorization
      (ascii "authorization".toList, utf8 ("Bearer ".toList ++ bridge.apiKey)) = true := rfl
  have headers : (bridge.forwarded libraries scope).headers =
      scope.headers.filter (!isAuthorization ·) ++
        [(ascii "authorization".toList, utf8 ("Bearer ".toList ++ bridge.apiKey))] := by
    rw [forwarded, if_pos h]
    simp only [isAuthorization, ← decide_not, ne_eq]
  constructor
  · show ((bridge.forwarded libraries scope).headers.filter isAuthorization).map Prod.snd = _
    rw [headers, List.filter_append, List.filter_filter, List.filter_cons_of_pos key]
    simp
  · have dropped : [(ascii "authorization".toList,
        utf8 ("Bearer ".toList ++ bridge.apiKey))].filter (!isAuthorization ·) = [] := by
      simp only [List.filter, key, Bool.not_true]
    rw [headers, List.filter_append, List.filter_filter, dropped]
    simp

theorem latin1_utf8 {text : Str} (h : ∀ c ∈ text, c.toNat < 128) : latin1 (utf8 text) = text := by
  induction text with
  | nil => rfl
  | cons c text ih =>
    have small : c.val.toNat ≤ 127 := Nat.le_of_lt_succ (h c List.mem_cons_self)
    have single : String.utf8EncodeChar c = [UInt8.ofNat c.toNat] := by
      rw [String.utf8EncodeChar, if_pos small]
      rfl
    have byte : (UInt8.ofNat c.toNat).toNat = c.toNat := by
      rw [UInt8.toNat_ofNat']
      exact Nat.mod_eq_of_lt (lt_of_lt_of_le (h c List.mem_cons_self) (by norm_num))
    have rest := ih fun d hd => h d (List.mem_cons_of_mem _ hd)
    rw [utf8, List.flatMap_cons, single]
    show Char.ofNat (UInt8.ofNat c.toNat).toNat :: latin1 (utf8 text) = _
    rw [byte, Char.ofNat_toNat, rest]

theorem bearer_append (key : Str) : bearer ("Bearer ".toList ++ key) = some key := by
  rw [bearer, if_pos (List.prefix_append _ _), List.drop_left]

theorem matchesAnySecret_iff {supplied : Str} {expected : List Str} :
    matchesAnySecret supplied expected = true ↔ supplied ∈ expected := by
  have kept : ∀ (expected : List Str) (matched : Bool),
      expected.foldl (fun matched candidate => if supplied = candidate then true else matched)
        matched = true ↔ matched = true ∨ supplied ∈ expected := by
    intro expected
    induction expected with
    | nil => simp
    | cons candidate expected ih =>
      intro matched
      rw [List.foldl_cons, ih, List.mem_cons]
      by_cases h : supplied = candidate <;> simp [h]
  rw [matchesAnySecret, kept]
  simp

theorem strip_bearer {key : Str} (hne : key ≠ []) (hstrip : strip isSpace key = key) :
    strip isSpace ("Bearer ".toList ++ key) = "Bearer ".toList ++ key := by
  refine strip_eq_self (fun _ => rfl) fun h => ?_
  rw [List.getLast_append_of_ne_nil h hne]
  have last : isSpace ((strip isSpace key).getLast (by rwa [hstrip])) = false :=
    strip_last key _
  simpa only [hstrip] using last

/-- The bridge has one of the keys. -/
theorem init_mem {bridge : Bridge} {apiKey token : Str} (h : init apiKey token = some bridge) :
    bridge.apiKey ∈ commaItems apiKey ∧ bridge.apiKey ≠ [] ∧
      strip isSpace bridge.apiKey = bridge.apiKey := by
  obtain ⟨key, hkey, rfl⟩ := Option.map_eq_some_iff.mp h
  have mem := List.mem_of_mem_head? hkey
  obtain ⟨hmem, hne⟩ := List.mem_filter.mp mem
  obtain ⟨item, -, rfl⟩ := List.mem_map.mp hmem
  exact ⟨mem, of_decide_eq_true hne, strip_strip item⟩

/-- The route takes the key that the header names. -/
theorem requireApiKey_bearer {settings : NetworkSettings} {key : Str}
    (hmem : key ∈ settings.configuredKeys) :
    requireApiKey settings (some ("Bearer ".toList ++ key)) = some key := by
  have hkeys : settings.configuredKeys ≠ [] := List.ne_nil_of_mem hmem
  have hset : settings.apiKey.getD [] ≠ [] := by
    intro hnil
    rw [NetworkSettings.configuredKeys, hnil] at hkeys
    exact hkeys rfl
  have hitems : commaItems (settings.apiKey.getD []) ≠ [] := hkeys
  rw [requireApiKey, if_neg hset]
  dsimp only
  rw [if_neg hitems, if_pos (List.prefix_append _ _), List.drop_left]
  cases hfind : (commaItems (settings.apiKey.getD [])).find? fun k => decide (key = k) with
  | none => exact absurd (List.find?_eq_none.mp hfind key hmem) (by simp)
  | some found =>
    have same := List.find?_some hfind
    rw [of_decide_eq_true same]

/-- **The key that the bridge attaches is one that every check of the server takes**, if it is in
ASCII: that of the Connection Hub, of the network boundary, of the access check and of the
routes. -/
theorem attached_authorized {bridge : Bridge} {settings : Settings} {token : Str}
    (hinit : init settings.apiKey token = some bridge)
    (hascii : ∀ c ∈ bridge.apiKey, c.toNat < 128)
    (hattach : bridge.attaches libraries scope = true) :
    authorized settings (bridge.forwarded libraries scope) = true ∧
      bearerIsValid (bridge.forwarded libraries scope) settings.configuredKeys = true ∧
      authorizedForPreflight settings (bridge.forwarded libraries scope) = true ∧
      requireApiKey ⟨settings.host, [], some settings.apiKey⟩
        (some ((bridge.forwarded libraries scope).header "authorization")) =
          some bridge.apiKey := by
  obtain ⟨hmem, hne, hstrip⟩ := init_mem hinit
  have values := (bridge.forwarded_of_attaches hattach).1
  have text : latin1 (utf8 ("Bearer ".toList ++ bridge.apiKey)) =
      "Bearer ".toList ++ bridge.apiKey := by
    refine latin1_utf8 fun c hc => ?_
    rcases List.mem_append.mp hc with hc | hc
    · exact of_decide_eq_true (List.all_eq_true.mp
        (by decide : "Bearer ".toList.all fun c => decide (c.toNat < 128)) c hc)
    · exact hascii c hc
  have header : (bridge.forwarded libraries scope).header "authorization" =
      "Bearer ".toList ++ bridge.apiKey := by
    rw [Scope.header, values]
    exact text
  have keys : settings.configuredKeys ≠ [] := List.ne_nil_of_mem hmem
  refine ⟨?_, ?_, ?_, ?_⟩
  · rw [authorized, if_neg keys, header, strip_bearer hne hstrip, bearer_append]
    exact List.any_eq_true.mpr ⟨_, hmem, decide_eq_true rfl⟩
  · rw [bearerIsValid, header, bearer_append]
    exact matchesAnySecret_iff.mpr hmem
  · have last : latin1 (((bridge.forwarded libraries scope).values "authorization").getLast?.getD
        []) = "Bearer ".toList ++ bridge.apiKey := by
      rw [values]
      exact text
    rw [authorizedForPreflight, if_neg keys, last, bearer_append]
    exact matchesAnySecret_iff.mpr hmem
  · rw [header]
    exact requireApiKey_bearer hmem

/-- The libraries, with a cookie that is the token alone. -/
def cookieLibraries : Libraries :=
  { Libraries.plain with
    uiCookie raw :=
      if raw = "inferbridge_desktop_ui=token".toList then some "token".toList else none }

def pageScope : Scope :=
  sampleScope "GET" "/v1/models" "127.0.0.1"
    [("Host", "127.0.0.1:8000"), ("Cookie", "inferbridge_desktop_ui=token")]

theorem attached_authorized_page :
    authorized (keyed "first,second")
        (Bridge.forwarded cookieLibraries ⟨"first".toList, "token".toList⟩ pageScope) = true ∧
      bearerIsValid (Bridge.forwarded cookieLibraries ⟨"first".toList, "token".toList⟩ pageScope)
        (keyed "first,second").configuredKeys = true ∧
      authorizedForPreflight (keyed "first,second")
        (Bridge.forwarded cookieLibraries ⟨"first".toList, "token".toList⟩ pageScope) = true ∧
      requireApiKey ⟨"0.0.0.0".toList, [], some "first,second".toList⟩
        (some ((Bridge.forwarded cookieLibraries ⟨"first".toList, "token".toList⟩
          pageScope).header "authorization")) = some "first".toList := by
  have ascii : ("first".toList.all fun c => decide (c.toNat < 128)) = true := by decide
  have hinit : init (keyed "first,second").apiKey "token".toList =
      some ⟨"first".toList, "token".toList⟩ := by decide +kernel
  exact attached_authorized hinit (fun c hc => of_decide_eq_true (List.all_eq_true.mp ascii c hc))
    (by decide +kernel)

end Bridge

/-! ### What the routes are called with -/

theorem decided_closed {decide : Scope → Except (List Message) Scope} {app : App σ}
    {I : σ → Prop} (h : Closed app.act I) :
    Closed (decided decide app).act (Sum.elim I fun _ => True) := by
  show Closed (chain app.act (fun _ _ => none) emit) _
  exact h.chain

/-- What holds of the application behind the limit, once it has been called. -/
def RequestBodyLimitMiddleware.State.Held (I : σ → Prop) : State σ → Prop :=
  Sum.elim I (Sum.elim (fun state => I state.2) fun _ => True)

theorem RequestBodyLimitMiddleware.call_closed {maxBytes : ℕ} {app : App σ} {I : σ → Prop}
    (h : Closed app.act I) : Closed (call maxBytes app).act (State.Held I) := by
  rintro (s | state) hs
  · exact (h s hs).map fun _ h => h
  · have closed : Closed (limited maxBytes app) _ := h.relay.chain
    exact (closed state hs).map fun _ h => h

theorem RequestBodyLimitMiddleware.start_held {maxBytes : ℕ} {app : App σ} {I : σ → Prop}
    (h : I (app.start scope)) : ((call maxBytes app).start scope |> State.Held I) := by
  unfold call
  dsimp only
  split
  · split
    · trivial
    · exact h
  · exact h

namespace AccessCheck

/-- What holds of the application behind the access check, once it has been called, and if it
is called with the scope that the access check has. -/
def State.Held (app : App σ) (I : σ → Prop) : State σ → Prop
  | .passing s => I s
  | .reading _ scope _ => I (app.start scope)
  | .replaying state => I state.2
  | .replying _ => True
  | .disconnected => True

variable {check : AccessCheck} {settings : Option Settings} {app : App σ} {I : σ → Prop}

theorem read_held {path : HubPreflight.Path} {chunks : Bytes} (h : I (app.start scope))
    (answer : Answer) : (check.read app path scope chunks answer).Held app I := by
  unfold read
  split
  · trivial
  · dsimp only
    split
    · exact h
    · split
      · trivial
      · exact h
  · split
    · trivial
    · exact h
  · exact h

theorem call_closed (h : Closed app.act I) :
    Closed (check.call libraries settings app).act (State.Held app I) := by
  intro state hs
  cases state with
  | passing s => exact (h s hs).map fun _ h => h
  | reading path scope chunks => exact fun answer => read_held hs answer
  | replaying state =>
    have closed : Closed (replay replayReceive app.act) _ := h.replay
    exact (closed state hs).map fun _ h => h
  | replying reply =>
    have done : (emit reply : Action Reply).All fun _ => True := by
      rcases reply with _ | _ | _ <;> simp [emit, Act.All]
    exact done.map fun _ h => h
  | disconnected => trivial

theorem start_held (h : I (app.start scope)) :
    ((check.call libraries settings app).start scope).Held app I := by
  unfold call
  dsimp only
  split
  · split_ifs
    · exact h
    · trivial
    · exact h
  · exact h

end AccessCheck

/-- A header that the guard of the Connection Hub keeps. -/
theorem values_pinRequestOrigin (scope : Scope) (settings : Settings) {name : String}
    (hname : ascii name.toList ≠ ascii "host".toList) :
    (pinRequestOrigin scope settings).values name = scope.values name := by
  have others : ∀ headers : Headers,
      headers.filter (fun header => lowerBytes header.1 = ascii name.toList) =
        (headers.filter (!isHost ·)).filter fun header =>
          lowerBytes header.1 = ascii name.toList := by
    intro headers
    rw [List.filter_filter]
    refine List.filter_congr fun header _ => ?_
    by_cases h : lowerBytes header.1 = ascii name.toList
    · have other : isHost header = false := by
        rw [isHost, h]
        exact decide_eq_false hname
      simp [h, other]
    · simp [h]
  unfold Scope.values pinRequestOrigin
  dsimp only
  rw [others (pinHeaders _ _ _), pinHeaders_others, ← others]

/-- The request is the same for all that the network boundary reads. -/
structure Same (scope scope' : Scope) : Prop where
  type : scope'.type = scope.type
  path : scope'.path = scope.path
  method : scope'.method = scope.method
  client : scope'.client = scope.client
  values : ∀ name ∈ ["authorization", "origin", "access-control-request-method"],
    scope'.values name = scope.values name

theorem Same.refl (scope : Scope) : Same scope scope := ⟨rfl, rfl, rfl, rfl, fun _ _ => rfl⟩

theorem hubHardening_same {settings : Option Settings}
    (h : hubHardening libraries settings scope = .ok scope') : Same scope scope' := by
  unfold hubHardening at h
  split_ifs at h
  · exact Except.ok.inj h ▸ Same.refl scope
  · cases settings with
    | none => exact Except.ok.inj h ▸ Same.refl scope
    | some settings =>
      dsimp only at h
      split_ifs at h
      obtain rfl := Except.ok.inj h
      refine ⟨rfl, rfl, rfl, rfl, fun name hname => values_pinRequestOrigin scope settings ?_⟩
      simp only [List.mem_cons, List.not_mem_nil, or_false] at hname
      rcases hname with rfl | rfl | rfl <;> decide

theorem remoteAccess_ok {settings : Option Settings}
    (h : remoteAccess libraries settings scope = .ok scope') : scope' = scope := by
  unfold remoteAccess at h
  dsimp only at h
  split_ifs at h <;> exact (Except.ok.inj h).symm

/-- What the network boundary asks of a client of another machine. -/
theorem remoteAccess_remote {settings : Option Settings} (http : scope.isHttp = true)
    (remote : isRemote libraries scope = true)
    (h : remoteAccess libraries settings scope = .ok scope) :
    ∃ s, settings = some s ∧ s.configuredKeys ≠ [] ∧ (isApiPath scope.pathText = true ∨
      isCorsPreflight scope = true ∨ bearerIsValid scope s.configuredKeys = true) := by
  unfold remoteAccess at h
  rw [http, remote, if_neg (by simp), if_neg (by simp)] at h
  dsimp only at h
  cases settings with
  | none => exact absurd h (by simp)
  | some settings =>
    refine ⟨settings, rfl, ?_⟩
    simp only [Option.map_some, Option.getD_some] at h
    split_ifs at h with hkeys hapi hcors hbearer
    · exact ⟨hkeys, .inl hapi⟩
    · exact ⟨hkeys, .inr (.inl hcors)⟩
    · exact ⟨hkeys, .inr (.inr (by simpa using hbearer))⟩

/-- What holds of the routes, once they have been called. -/
def Guarded.Held (I : σ → Prop) : Guarded σ → Prop :=
  Sum.elim (Sum.elim I fun _ => True) fun _ => True

def Outer.Held (app : App (Guarded σ)) (I : σ → Prop) (state : Outer σ) : Prop :=
  Sum.elim (RequestBodyLimitMiddleware.State.Held (AccessCheck.State.Held app (Guarded.Held I)))
    (fun _ => True) state.2

theorem RequestBodyLimitMiddleware.State.Held.app {I : σ → Prop} {w : State σ}
    (h : State.Held I w) {t : σ} (ht : State.app w = some t) : I t := by
  rcases w with s | ⟨tally, s⟩ | reply <;> cases ht
  · exact h
  · exact h

theorem AccessCheck.State.Held.app {app : App σ} {I : σ → Prop} {w : State σ}
    (h : w.Held app I) {t : σ} (ht : w.app = some t) : I t := by
  cases w <;> cases ht
  · exact h
  · exact h

theorem Guarded.Held.routes {I : σ → Prop} {w : Guarded σ} (h : w.Held I) {t : σ}
    (ht : w.routes = some t) : I t := by
  rcases w with (s | reply) | reply <;> cases ht
  exact h

theorem Outer.Held.routes {app : App (Guarded σ)} {I : σ → Prop} {w : Outer σ} (h : w.Held app I)
    {t : σ} (ht : w.routes = some t) : I t := by
  obtain ⟨b, state | reply⟩ := w
  · obtain ⟨access, hlimit, ht⟩ := Option.bind_eq_some_iff.mp ht
    obtain ⟨guarded, haccess, ht⟩ := Option.bind_eq_some_iff.mp ht
    have held : access.Held app (Guarded.Held I) :=
      RequestBodyLimitMiddleware.State.Held.app h hlimit
    exact (held.app haccess).routes ht
  · cases ht

namespace Boundary

variable {boundary : Boundary} {bridge : Bridge} {now : ℚ} {routes : App σ} {I : σ → Prop}

theorem server_closed (h : Closed routes.act I) :
    Closed (boundary.server libraries bridge now routes).act
      (Outer.Held (boundary.guarded libraries routes) I) := by
  have guarded : Closed (boundary.guarded libraries routes).act (Guarded.Held I) :=
    decided_closed (decided_closed h)
  have inner : Closed (boundary.inner libraries routes).act _ :=
    RequestBodyLimitMiddleware.call_closed (AccessCheck.call_closed guarded)
  exact (decided_closed inner).relay

/-- The routes are called with the scope that the bridge forwards, with a host that may be
pinned, if the network boundary lets it pass. -/
theorem server_start (h : ∀ scope', Same (bridge.forwarded libraries scope) scope' →
      remoteAccess libraries boundary.settings scope' = .ok scope' → I (routes.start scope')) :
    ((boundary.server libraries bridge now routes).start scope).Held
      (boundary.guarded libraries routes) I := by
  have guarded : ((boundary.guarded libraries routes).start
      (bridge.forwarded libraries scope)).Held I := by
    unfold Boundary.guarded decided
    dsimp only
    cases hhub : hubHardening libraries boundary.settings (bridge.forwarded libraries scope) with
    | error messages => trivial
    | ok scope' =>
      dsimp only
      cases hremote : remoteAccess libraries boundary.settings scope' with
      | error messages => trivial
      | ok scope'' =>
        obtain rfl := remoteAccess_ok hremote
        exact h _ (hubHardening_same hhub) hremote
  have inner : RequestBodyLimitMiddleware.State.Held
      (AccessCheck.State.Held (boundary.guarded libraries routes) (Guarded.Held I))
      ((boundary.inner libraries routes).start (bridge.forwarded libraries scope)) :=
    RequestBodyLimitMiddleware.start_held (AccessCheck.start_held guarded)
  show Sum.elim _ (fun _ => True) ((decided (rateLimit libraries boundary.limiter now)
    (boundary.inner libraries routes)).start (bridge.forwarded libraries scope))
  unfold decided
  dsimp only
  cases hrate : rateLimit libraries boundary.limiter now (bridge.forwarded libraries scope) with
  | error messages => trivial
  | ok scope' =>
    obtain rfl : scope' = bridge.forwarded libraries scope := by
      unfold rateLimit at hrate
      split at hrate
      · exact (Except.ok.inj hrate).symm
      · cases hrate
    exact inner

/-- **A client of another machine reaches a route only if the server has keys**, and then only
a route of the API, which checks the key itself, or as a preflight of a browser, or with one of
the keys, unless it has the token of the bundled page.  What the route sees of its authorization
is what it has sent, unless it has the token. -/
theorem server_remote (boundary : Boundary) (bridge : Bridge) (now : ℚ) (routes : App σ)
    (http : scope.isHttp = true) (remote : isRemote libraries scope = true) {w : Outer σ}
    (h : Run (boundary.server libraries bridge now routes).act
      ((boundary.server libraries bridge now routes).start scope) events w)
    {t : σ} (ht : w.routes = some t) :
    ∃ settings, boundary.settings = some settings ∧ settings.configuredKeys ≠ [] ∧
      (Bridge.cookieMatches libraries scope bridge.uiToken = true ∨
        (isApiPath scope.pathText = true ∨ isCorsPreflight scope = true ∨
          bearerIsValid scope settings.configuredKeys = true) ∧
        ∃ scope' xs, Run routes.act (routes.start scope') xs t ∧ Same scope scope') := by
  let called (s : σ) : Prop := ∃ scope', Same (bridge.forwarded libraries scope) scope' ∧
    remoteAccess libraries boundary.settings scope' = .ok scope' ∧ s = routes.start scope'
  have held := server_closed (Closed.reached routes.act called) |>.run
    (server_start fun scope' same passed => ⟨_, [], ⟨scope', same, passed, rfl⟩, .nil _⟩) h
  obtain ⟨_, xs, ⟨scope', same, passed, rfl⟩, hrun⟩ := held.routes ht
  have client : scope'.client = scope.client := by
    rw [same.client, Bridge.forwarded]
    split <;> rfl
  have type : scope'.type = scope.type := by
    rw [same.type, Bridge.forwarded]
    split <;> rfl
  have http' : scope'.isHttp = true := by rwa [Scope.isHttp, type]
  have remote' : isRemote libraries scope' = true := by rwa [isRemote, client]
  obtain ⟨settings, hsettings, hkeys, allowed⟩ := remoteAccess_remote http' remote' passed
  refine ⟨settings, hsettings, hkeys, ?_⟩
  cases hattach : bridge.attaches libraries scope with
  | true =>
    simp only [Bridge.attaches, Bool.and_eq_true] at hattach
    exact .inl hattach.1.2
  | false =>
    rw [Bridge.forwarded, if_neg (by simp [hattach])] at same
    refine .inr ⟨?_, scope', xs, hrun, same⟩
    have header : ∀ name ∈ ["authorization", "origin", "access-control-request-method"],
        scope'.header name = scope.header name := fun name hname => by
      rw [Scope.header, same.values name hname, Scope.header]
    rw [Scope.pathText, same.path, isCorsPreflight, same.method, header "origin" (by simp),
      header "access-control-request-method" (by simp), bearerIsValid,
      header "authorization" (by simp)] at allowed
    exact allowed

/-- Keys, no rate limit, and a limit of a hundred bytes. -/
def sample : Boundary where
  settings := some (keyed "key")
  maxBytes := 100
  limiter := RateLimit.Limiter.init 0 0
  access := sampleCheck

def remoteScope : Scope := sampleScope "GET" "/v1/models" "192.168.1.20" []

theorem server_remote_models :
    ∃ settings, sample.settings = some settings ∧ settings.configuredKeys ≠ [] ∧
      (Bridge.cookieMatches Libraries.plain remoteScope "token".toList = true ∨
        (isApiPath remoteScope.pathText = true ∨ isCorsPreflight remoteScope = true ∨
          bearerIsValid remoteScope settings.configuredKeys = true) ∧
        ∃ scope' xs, Run downstream.act (downstream.start scope') xs .reading ∧
          Same remoteScope scope') :=
  server_remote sample ⟨"key".toList, "token".toList⟩ 0 downstream rfl (by decide +kernel) (.nil _)
    rfl

end Boundary

/-! ### The body that is checked -/

namespace AccessCheck

variable {check : AccessCheck} {settings : Option Settings} {app : App σ}

/-- The bytes that the access check holds. -/
def State.buffer : State σ → ℕ
  | .reading _ _ chunks => chunks.length
  | .replaying state => state.1.2.length
  | _ => 0

theorem read_buffer (path : HubPreflight.Path) (chunks : Bytes) (answer : Answer) :
    (check.read app path scope chunks answer).buffer ≤ chunks.length + size answer := by
  unfold read
  split
  · exact Nat.zero_le _
  · rename_i body moreBody
    have length : (chunks ++ body.getD []).length = chunks.length + (body.getD []).length :=
      List.length_append
    dsimp only
    split
    · exact length.le
    · split
      · exact Nat.zero_le _
      · exact length.le
  · split
    · exact Nat.zero_le _
    · exact Nat.le_add_right _ _
  · exact Nat.le_add_right _ _

/-- What is held is what was held and what has been received. -/
theorem buffer_le_of_run {s t : State σ} {xs : List Happening}
    (h : Run (check.call libraries settings app).act s xs t) :
    t.buffer ≤ s.buffer + received xs := by
  induction h with
  | nil s => exact Nat.le_add_right _ _
  | @receive s _ k xs answer hact _ ih =>
    have step : (k answer).buffer ≤ s.buffer + size answer := by
      cases s with
      | passing s =>
        obtain ⟨k, -, rfl⟩ := Act.map_eq_receive.mp hact
        exact Nat.zero_le _
      | reading path scope chunks =>
        obtain rfl := Act.receive.inj hact
        exact read_buffer path chunks answer
      | replaying state =>
        obtain ⟨k, hp, rfl⟩ := Act.map_eq_receive.mp hact
        exact absurd hp replay_ne_receive
      | replying reply =>
        obtain ⟨k, hp, rfl⟩ := Act.map_eq_receive.mp hact
        exact Nat.zero_le _
      | disconnected => cases hact
    exact ih.trans (by simp only [received]; omega)
  | @send s _ message k xs answer hact _ ih =>
    have step : (k answer).buffer ≤ s.buffer := by
      cases s with
      | replaying state =>
        obtain ⟨k, hp, rfl⟩ := Act.map_eq_send.mp hact
        obtain ⟨k, -, rfl⟩ := replay_eq_send.mp hp
        exact le_rfl
      | passing s =>
        obtain ⟨k, -, rfl⟩ := Act.map_eq_send.mp hact
        exact le_rfl
      | replying reply =>
        obtain ⟨k, -, rfl⟩ := Act.map_eq_send.mp hact
        exact le_rfl
      | reading path scope chunks => cases hact
      | disconnected => cases hact
    exact ih.trans (Nat.add_le_add_right step _)
  | @tau s next _ xs hact _ ih =>
    have step : next.buffer ≤ s.buffer := by
      cases s with
      | replaying state =>
        obtain ⟨next, hp, rfl⟩ := Act.map_eq_tau.mp hact
        rcases replay_eq_tau.mp hp with ⟨k, -, rfl⟩ | ⟨_, -, rfl⟩
        · unfold replayReceive
          split <;> exact le_rfl
        · exact le_rfl
      | passing s =>
        obtain ⟨_, -, rfl⟩ := Act.map_eq_tau.mp hact
        exact le_rfl
      | replying reply =>
        obtain ⟨_, -, rfl⟩ := Act.map_eq_tau.mp hact
        exact le_rfl
      | reading path scope chunks => cases hact
      | disconnected => cases hact
    exact ih.trans (Nat.add_le_add_right step _)

theorem start_buffer (scope : Scope) :
    ((check.call libraries settings app).start scope).buffer = 0 := by
  unfold call
  dsimp only
  split
  · split_ifs <;> rfl
  · rfl

theorem start_passing (h : checkedPath scope = none) :
    (check.call libraries settings app).start scope = .passing (app.start scope) := by
  unfold call
  dsimp only
  rw [h]

/-- A request that is not checked is served by the application. -/
theorem run_passing_iff {s : σ} {xs : List Happening} {w : State σ} :
    Run (check.call libraries settings app).act (.passing s) xs w ↔
      ∃ t, w = .passing t ∧ Run app.act s xs t := by
  have hq : ∀ s, (check.call libraries settings app).act (.passing s) =
      (app.act s).map .passing := fun _ => rfl
  exact run_map_iff hq

end AccessCheck

/-- **Behind the limit the access check holds no more of a body than the limit**, whatever is
sent to it and in how many parts. -/
theorem limited_buffer_le (maxBytes : ℕ) (check : AccessCheck) (settings : Option Settings)
    (app : App σ) {w : RequestBodyLimitMiddleware.State (AccessCheck.State σ)}
    (h : Run (RequestBodyLimitMiddleware.call maxBytes (check.call libraries settings app)).act
      ((RequestBodyLimitMiddleware.call maxBytes (check.call libraries settings app)).start scope)
      events w)
    {state : AccessCheck.State σ} (hstate : RequestBodyLimitMiddleware.State.app w = some state) :
    state.buffer ≤ maxBytes := by
  cases http : scope.isHttp with
  | false =>
    have unchecked : checkedPath scope = none := by simp [checkedPath, http]
    have hstart : (RequestBodyLimitMiddleware.call maxBytes
        (check.call libraries settings app)).start scope = .inl (.passing (app.start scope)) := by
      have passing : (check.call libraries settings app).start scope = .passing (app.start scope) :=
        AccessCheck.start_passing unchecked
      rw [← passing]
      simp [RequestBodyLimitMiddleware.call, http]
    rw [hstart, RequestBodyLimitMiddleware.run_call_alone_iff] at h
    obtain ⟨t, rfl, hrun⟩ := h
    obtain ⟨s, rfl, -⟩ := AccessCheck.run_passing_iff.mp hrun
    cases hstate
    exact Nat.zero_le _
  | true =>
    cases hcheck : RequestBodyLimitMiddleware.checkLength maxBytes scope with
    | some messages =>
      rw [RequestBodyLimitMiddleware.start_refused http hcheck,
        RequestBodyLimitMiddleware.run_call_limited_iff] at h
      obtain ⟨_, rfl, h⟩ := h
      obtain ⟨reply, rfl, -⟩ := run_chain_inr.mp h
      cases hstate
    | none =>
      rw [RequestBodyLimitMiddleware.start_accepted http hcheck,
        RequestBodyLimitMiddleware.run_call_limited_iff] at h
      obtain ⟨_, rfl, h⟩ := h
      rcases RequestBodyLimitMiddleware.run_limited_iff.mp h with
        ⟨t, rfl, hrun⟩ | ⟨_, _, _, _, _, rfl, _⟩
      · cases hstate
        have grown := AccessCheck.buffer_le_of_run hrun
        rw [AccessCheck.start_buffer, Nat.zero_add] at grown
        exact grown.trans (RequestBodyLimitMiddleware.received_inside_le maxBytes _ events)
      · cases hstate

def convertScope : Scope := sampleScope "POST" "/v1/models/convert" "127.0.0.1" []

/-- A body in two parts. -/
def convertParts : List Happening :=
  [.received (.ok (.request (some (HubPreflight.oneBody.take 5)) (some true))),
    .received (.ok (.request (some (HubPreflight.oneBody.drop 5)) (some false)))]

/-- What is held of it after the first part. -/
def firstPart : AccessCheck.State Downstream :=
  .reading .convert convertScope (HubPreflight.oneBody.take 5)

def sampleAccess : App (AccessCheck.State Downstream) :=
  sampleCheck.call Libraries.plain (some (keyed "")) downstream

theorem limited_run :
    Run (RequestBodyLimitMiddleware.call 20 sampleAccess).act
      ((RequestBodyLimitMiddleware.call 20 sampleAccess).start convertScope) (convertParts.take 1)
      (.inr (.inl (⟨some "1.1".toList, 5, false⟩, firstPart))) :=
  .receive _ rfl (.nil _)

theorem limited_buffer_le_convert : firstPart.buffer ≤ 20 :=
  limited_buffer_le 20 sampleCheck (some (keyed "")) downstream limited_run rfl

namespace AccessCheck

variable {check : AccessCheck} {settings : Option Settings} {app : App σ}

/-- The bytes of the body that a run has brought. -/
def bodies : List Happening → Bytes
  | [] => []
  | .received (.ok (.request body _)) :: events => body.getD [] ++ bodies events
  | _ :: events => bodies events

theorem bodies_cons (x : Happening) (xs : List Happening) :
    bodies (x :: xs) = bodies [x] ++ bodies xs := by
  rcases x with (e | ⟨_, _⟩ | ⟨_, _⟩ | ⟨_, _⟩ | _) | ⟨_, _⟩ <;> simp [bodies]

/-- A message is kept, ends the body, or ends the call. -/
theorem read_cases (path : HubPreflight.Path) (chunks : Bytes) (answer : Answer) :
    check.read app path scope chunks answer =
        .reading path scope (chunks ++ bodies [.received answer]) ∨
      (check.read app path scope chunks answer =
          .replaying ((false, chunks ++ bodies [.received answer]), app.start scope) ∧
        check.answer path scope (chunks ++ bodies [.received answer]) = none) ∨
      (∃ reply, check.read app path scope chunks answer = .replying reply) ∨
      check.read app path scope chunks answer = .disconnected := by
  rcases answer with e | ⟨body, moreBody⟩ | ⟨_, _⟩ | ⟨_, _⟩ | type
  · exact .inr (.inr (.inl ⟨_, rfl⟩))
  · simp only [bodies, List.append_nil]
    cases hmore : moreBody.getD false with
    | true => exact .inl (by simp [read, hmore])
    | false =>
      cases hanswer : check.answer path scope (chunks ++ body.getD []) with
      | none => exact .inr (.inl ⟨by simp [read, hmore, hanswer], rfl⟩)
      | some messages =>
        exact .inr (.inr (.inl ⟨.ok messages, by simp [read, hmore, hanswer]⟩))
  · exact .inl (by simp [read, bodies])
  · exact .inl (by simp [read, bodies])
  · by_cases h : type = "http.disconnect".toList
    · exact .inr (.inr (.inr (if_pos h)))
    · have nothing : bodies [.received (.ok (.other type))] = [] := by simp [bodies]
      rw [nothing, List.append_nil]
      exact .inl (if_neg h)

/-- The access check asks the gate. -/
theorem answer_eq_none_iff {path : HubPreflight.Path} {body : Bytes} :
    check.answer path scope body = none ↔
      HubPreflight.gate check.host check.manager check.service ⟨path, true, true, body⟩ ≠
        .answered := by
  unfold answer HubPreflight.gate
  split
  · split <;> simp_all
  · simp_all

/-- A response stays a response, and a client that has gone is gone. -/
theorem ended_of_run {s t : State σ} {xs : List Happening}
    (h : Run (check.call libraries settings app).act s xs t)
    (hs : (∃ reply, s = .replying reply) ∨ s = .disconnected) : t.app = none := by
  have closed : Closed (check.call libraries settings app).act fun s : State σ =>
      (∃ reply, s = .replying reply) ∨ s = .disconnected := by
    rintro _ (⟨reply, rfl⟩ | rfl)
    · have done : (emit reply : Action Reply).All fun _ => True := by
        rcases reply with _ | _ | _ <;> simp [emit, Act.All]
      exact done.map fun reply _ => .inl ⟨reply, rfl⟩
    · trivial
  rcases closed.run hs h with ⟨reply, rfl⟩ | rfl
  · rfl
  · rfl

/-- Once the application has been called from the loop, the body has been read to its end and
is the one that the gate lets pass. -/
theorem run_reading {path : HubPreflight.Path} {chunks : Bytes} {xs : List Happening} {w : State σ}
    (h : Run (check.call libraries settings app).act (.reading path scope chunks) xs w) {t : σ}
    (ht : w.app = some t) :
    ∃ ys zs, xs = ys ++ zs ∧ outgoing ys = [] ∧
      check.answer path scope (chunks ++ bodies ys) = none ∧
      Run (check.call libraries settings app).act
        (.replaying ((false, chunks ++ bodies ys), app.start scope)) zs w := by
  generalize hs : State.reading path scope chunks = s at h
  induction h generalizing chunks with
  | nil s =>
    subst hs
    cases ht
  | @receive s w k xs answer hact hrun ih =>
    subst hs
    obtain rfl := Act.receive.inj hact
    rcases read_cases path chunks answer with hread | ⟨hread, hanswer⟩ | ended
    · obtain ⟨ys, zs, rfl, silent, passed, rest⟩ := ih ht hread.symm
      rw [List.append_assoc, ← bodies_cons] at passed rest
      exact ⟨.received answer :: ys, zs, rfl, silent, passed, rest⟩
    · rw [hread] at hrun
      exact ⟨[.received answer], xs, rfl, rfl, hanswer, hrun⟩
    · have none := ended_of_run hrun ended
      rw [ht] at none
      cases none
  | send answer hact _ _ =>
    subst hs
    cases hact
  | tau hact _ _ =>
    subst hs
    cases hact

/-- The answers of `replay_receive`: the body as a whole, and then nothing more. -/
theorem answers_replayReceive (body : Bytes) (n : ℕ) :
    answers replayReceive (false, body) n =
      (Except.ok (Message.request (some body) (some false)) ::
        List.replicate (n - 1) (.ok (.request (some []) (some false)))).take n := by
  have after : ∀ n, answers replayReceive (true, body) n =
      List.replicate n (.ok (.request (some []) (some false))) := by
    intro n
    induction n with
    | zero => rfl
    | succ n ih => rw [answers, List.replicate_succ]; exact congrArg (_ :: ·) ih
  cases n with
  | zero => rfl
  | succ n =>
    rw [answers, Nat.add_sub_cancel, List.take_of_length_le (by simp)]
    exact congrArg (_ :: ·) (after n)

theorem convertParts_run :
    Run sampleAccess.act (sampleAccess.start convertScope) convertParts
      (sampleCheck.read downstream .convert convertScope (HubPreflight.oneBody.take 5)
        (.ok (.request (some (HubPreflight.oneBody.drop 5)) (some false)))) :=
  .receive _ rfl (.receive _ rfl (.nil _))

end AccessCheck

end InferBridge.Asgi
