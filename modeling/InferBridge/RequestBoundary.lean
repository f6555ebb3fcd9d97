/-
InferBridge/RequestBoundary.lean

The middleware that stands in front of the routes of the server, from the inside out: the
network boundary (app/network_exposure_safety.py), the guard of the Connection Hub
(app/connection_hub_hardening.py), the access check of the model hub (app/huggingface_access.py),
the limit on bodies, the rate limit, and in the desktop application the bridge that authorizes
the bundled browser page (app/desktop_browser_auth.py).

What the libraries say of an address, of a cookie and of the origin of a request, and the
responses that Starlette renders, are parameters.

Design.  Each middleware but the access check and the bridge is a decision about the scope
(`decided`).  The access check reads the body and hands it on as one message (`replay`); the
bridge is a relay.

Main definition.  `server`, the middleware in the order in which the server puts it.
-/
import InferBridge.BodyLimit
import InferBridge.DesktopNetwork
import InferBridge.HubPreflight
import InferBridge.RateLimit

namespace InferBridge.Asgi

open Interaction Text

/-- An address that was parsed: whether it is a loopback address, and whether the address of the
fourth version that it maps is one, if it maps one. -/
structure Address where
  isLoopback : Bool
  ipv4Mapped : Option Bool

/-- What the libraries say. -/
structure Libraries where
  /-- `ipaddress.ip_address` -/
  ipAddress : Str → Option Address
  /-- the value of `inferbridge_desktop_ui` in a cookie header that `SimpleCookie` loads -/
  uiCookie : Str → Option Str
  /-- `require_safe_browser_origin` lets the request pass -/
  safeOrigin : Scope → Bool
  /-- a `JSONResponse` with a status and a detail -/
  jsonResponse : ℕ → Str → List Message

/-- The settings of the server that the middleware reads. -/
structure Settings where
  apiKey : Str
  host : Str
  port : Int

def Settings.configuredKeys (settings : Settings) : List Str := commaItems settings.apiKey

/-- `matches_any_secret` -/
def matchesAnySecret (supplied : Str) (expected : List Str) : Bool :=
  expected.foldl (fun matched candidate => if supplied = candidate then true else matched) false

/-- What follows `Bearer `. -/
def bearer (authorization : Str) : Option Str :=
  if "Bearer ".toList <+: authorization then some (authorization.drop "Bearer ".toList.length)
  else none

def Scope.pathText (scope : Scope) : Str := scope.path.getD []

def Scope.methodText (scope : Scope) : Str :=
  DeviceCheck.upper (match scope.method with
    | none | some [] => "GET".toList
    | some method => method)

section
variable {σ : Type} (libraries : Libraries)

/-! ### The network boundary -/

/-- `host_is_loopback` -/
def hostIsLoopback (value : Str) : Bool :=
  let host := lower (strip isSpace value)
  if host = [] then false
  else if host = "localhost".toList ∨ host = "ip6-localhost".toList then true
  else
    let host := if host.head? = some '[' ∧ host.getLast? = some ']' then host.dropLast.tail else host
    match libraries.ipAddress host with
    | none => false
    | some address => address.isLoopback || address.ipv4Mapped.getD false

/-- `_bearer_is_valid` -/
def bearerIsValid (scope : Scope) (configured : List Str) : Bool :=
  match bearer (scope.header "authorization") with
  | none => false
  | some supplied => matchesAnySecret supplied configured

/-- `_is_cors_preflight` -/
def isCorsPreflight (scope : Scope) : Bool :=
  DeviceCheck.upper (scope.method.getD []) = "OPTIONS".toList &&
    strip isSpace (scope.header "origin") ≠ [] &&
      strip isSpace (scope.header "access-control-request-method") ≠ []

/-- `_send_error` -/
def sendError (status : ℕ) (detail : Str) (authenticate : Bool) : List Message :=
  let body := ascii (detailJson detail)
  [.start status
    ([(ascii "content-type".toList, ascii "application/json".toList),
      (ascii "content-length".toList, ascii (Nat.toDigits 10 body.length)),
      (ascii "cache-control".toList, ascii "no-store, max-age=0".toList),
      (ascii "x-content-type-options".toList, ascii "nosniff".toList)] ++
      if authenticate then [(ascii "www-authenticate".toList, ascii "Bearer".toList)] else []),
    .body body (some false)]

def remoteDetail : Str :=
  "Remote access requires an InferBridge API key. Configure OV_LLM_API_KEY ".toList ++
    "or use the packaged LAN access settings, then retry.".toList

/-- A client that is not on this machine. -/
def isRemote (scope : Scope) : Bool :=
  let clientHost := strip isSpace (scope.client.getD [])
  clientHost ≠ "testclient".toList && !hostIsLoopback libraries clientHost

def isApiPath (path : Str) : Bool := path = "/v1".toList || "/v1/".toList.isPrefixOf path

/-- `UnauthenticatedRemoteAccessMiddleware.__call__` -/
def remoteAccess (settings : Option Settings) (scope : Scope) : Except (List Message) Scope :=
  if !scope.isHttp then .ok scope
  else if !isRemote libraries scope then .ok scope
  else
    let configured := (settings.map Settings.configuredKeys).getD []
    if configured = [] then .error (sendError 403 remoteDetail false)
    else if isApiPath scope.pathText then .ok scope
    else if isCorsPreflight scope then .ok scope
    else if !bearerIsValid scope configured then
      .error (sendError 401 "Invalid or missing API key".toList true)
    else .ok scope

/-! ### The guard of the Connection Hub -/

def hubPaths : List Str :=
  ["/internal/connection-hub".toList, "/internal/connection-hub/self-test".toList]

def selfTestPath : Str := "/internal/connection-hub/self-test".toList

def isBracket (c : Char) : Bool := c = '[' ∨ c = ']'

/-- What stands in front of the last colon. -/
def dropPort (raw : Str) : Str := (raw.reverse.dropWhile (· ≠ ':')).tail.reverse

/-- `raw[1:end]`, up to the first closing bracket -/
def inBrackets (raw : Str) : Str :=
  if ']' ∈ raw then (raw.takeWhile (· ≠ ']')).tail else []

/-- `_loopback_host_from_header` -/
def loopbackHostFromHeader (value : Str) : Option Str :=
  let raw := lower (strip isSpace value)
  let candidate :=
    if raw.head? = some '[' then inBrackets raw
    else if raw.count ':' = 1 then dropPort raw
    else raw
  let candidate := strip isBracket candidate
  if candidate ∈ loopbackHosts then some candidate else none

def isPort (port : Int) : Bool := 1 ≤ port && port ≤ 65535

/-- `_listener_port` -/
def listenerPort (scope : Scope) (settings : Settings) : Int :=
  match scope.server.bind Prod.snd with
  | some port => if isPort port then port else if isPort settings.port then settings.port else 8000
  | none => if isPort settings.port then settings.port else 8000

/-- `_trusted_listener`: the host -/
def trustedHost (scope : Scope) (settings : Settings) : Str :=
  match loopbackHostFromHeader (strip isSpace (scope.header "host")) with
  | some requested => requested
  | none =>
    let configured := if settings.host = [] then "127.0.0.1".toList else settings.host
    let clean := lower (strip isBracket (strip isSpace configured))
    if clean ∈ loopbackHosts then clean
    else if clean = "::".toList then "::1".toList
    else "127.0.0.1".toList

def portText (port : Int) : Str := (toString port).toList

/-- `_trusted_host_header` -/
def trustedHostHeader (host : Str) (port : Int) : Bytes :=
  let rendered := if ':' ∈ host then '[' :: host ++ [']'] else host
  ascii (rendered ++ ':' :: portText port)

/-- The loop of `_pin_request_origin`. -/
def pinHeaders (trusted : Bytes) : Bool → Headers → Headers
  | hostReplaced, [] => if hostReplaced then [] else [(ascii "host".toList, trusted)]
  | hostReplaced, (key, value) :: headers =>
    if lowerBytes key = ascii "host".toList then
      if hostReplaced then pinHeaders trusted true headers
      else (key, trusted) :: pinHeaders trusted true headers
    else (key, value) :: pinHeaders trusted hostReplaced headers

/-- `_pin_request_origin` -/
def pinRequestOrigin (scope : Scope) (settings : Settings) : Scope :=
  let host := trustedHost scope settings
  let port := listenerPort scope settings
  { scope with
    headers := pinHeaders (trustedHostHeader host port) false scope.headers
    server := some (host, some port) }

/-- `_authorized` -/
def authorized (settings : Settings) (scope : Scope) : Bool :=
  let keys := settings.configuredKeys
  if keys = [] then true
  else
    match bearer (strip isSpace (scope.header "authorization")) with
    | none => false
    | some supplied => keys.any (supplied = ·)

/-- `ConnectionHubHardeningMiddleware.__call__` -/
def hubHardening (settings : Option Settings) (scope : Scope) : Except (List Message) Scope :=
  if !scope.isHttp || !hubPaths.any (some · = scope.path) then .ok scope
  else
    match settings with
    | none => .ok scope
    | some settings =>
      if scope.path = some selfTestPath && !authorized settings scope then
        .error (libraries.jsonResponse 401 "Invalid or missing API key".toList)
      else .ok (pinRequestOrigin scope settings)

/-! ### The access check of the model hub -/

/-- What the access check asks of the manager and of the hub, and the response that tells it. -/
structure AccessCheck where
  host : HubPreflight.Host
  manager : HubPreflight.Manager
  service : HubPreflight.Service
  response : Scope → Bytes → List Message

/-- The two routes that are checked. -/
def checkedPath (scope : Scope) : Option HubPreflight.Path :=
  if scope.isHttp && scope.method = some "POST".toList then
    if scope.pathText = "/v1/models/convert".toList then some .convert
    else if scope.pathText = "/v1/models/download-custom".toList then some .downloadCustom
    else none
  else none

/-- `_authorized_for_preflight`, which takes the last header -/
def authorizedForPreflight (settings : Settings) (scope : Scope) : Bool :=
  if settings.configuredKeys = [] then true
  else
    match bearer (latin1 ((scope.values "authorization").getLast?.getD [])) with
    | none => false
    | some supplied => matchesAnySecret supplied settings.configuredKeys

namespace AccessCheck

variable (check : AccessCheck)

/-- The answer to a body, if it is answered. -/
def answer (path : HubPreflight.Path) (scope : Scope) (body : Bytes) : Option (List Message) :=
  match (HubPreflight.utf8Strict body).bind (HubPreflight.loadsText check.host) with
  | some (.obj payload) =>
    match HubPreflight.gatePayload check.host check.manager check.service path payload with
    | .answered => some (check.response scope body)
    | .delegated _ => none
  | _ => none

/-- The states of a call: the application with the channel of the server, the loop that reads,
the application with `replay_receive`, a response, and a client that has gone. -/
inductive State (σ : Type) where
  | passing (s : σ)
  | reading (path : HubPreflight.Path) (scope : Scope) (chunks : Bytes)
  | replaying (state : (Bool × Bytes) × σ)
  | replying (reply : Reply)
  | disconnected

/-- `replay_receive` -/
def replayReceive (state : Bool × Bytes) : (Bool × Bytes) × Answer :=
  if state.1 then (state, .ok (.request (some []) (some false)))
  else ((true, state.2), .ok (.request (some state.2) (some false)))

/-- What follows a message in the loop. -/
def read (app : App σ) (path : HubPreflight.Path) (scope : Scope) (chunks : Bytes) :
    Answer → State σ
  | .error e => .replying (.error e)
  | .ok (.request body moreBody) =>
    let chunks := chunks ++ body.getD []
    if moreBody.getD false then .reading path scope chunks
    else
      match check.answer path scope chunks with
      | some messages => .replying (.ok messages)
      | none => .replaying ((false, chunks), app.start scope)
  | .ok (.other type) =>
    if type = "http.disconnect".toList then .disconnected else .reading path scope chunks
  | .ok _ => .reading path scope chunks

/-- `HuggingFacePreflightMiddleware.__call__` -/
def call (settings : Option Settings) (app : App σ) : App (State σ) where
  start scope :=
    match checkedPath scope, settings with
    | some path, some settings =>
      if !authorizedForPreflight settings scope then .passing (app.start scope)
      else if !libraries.safeOrigin scope then
        .replying (.ok (libraries.jsonResponse 403
          "Cross-site browser requests are not allowed.".toList))
      else .reading path scope []
    | _, _ => .passing (app.start scope)
  act
    | .passing s => (app.act s).map .passing
    | .reading path scope chunks => .receive (check.read app path scope chunks)
    | .replaying state => (replay replayReceive app.act state).map .replaying
    | .replying reply => (emit reply).map .replying
    | .disconnected => .finish (.ok ())

end AccessCheck

/-! ### The rate limit -/

/-- `RateLimitMiddleware.__call__`, with the limiter as the request finds it -/
def rateLimit (limiter : RateLimit.Limiter Str) (now : ℚ) (scope : Scope) :
    Except (List Message) Scope :=
  match (limiter.call
    { type := scope.type, path := scope.pathText, method := scope.method.getD [],
      client := scope.client } now).1 with
  | .app => .ok scope
  | .tooMany detail _ => .error (libraries.jsonResponse 429 detail)

/-! ### The bridge for the bundled page -/

/-- `DesktopBrowserAuthBridgeMiddleware`: the first of the keys, and the token of the page -/
structure Bridge where
  apiKey : Str
  uiToken : Str
deriving DecidableEq

namespace Bridge

/-- `__init__`; `none` is a `ValueError` -/
def init (apiKey uiToken : Str) : Option Bridge :=
  (commaItems apiKey).head?.map fun key => { apiKey := key, uiToken }

/-- `_host_header_name` -/
def hostHeaderName (value : Str) : Str :=
  let raw := lower (strip isSpace value)
  if raw.head? = some '[' then inBrackets raw
  else if raw.count ':' = 1 then dropPort raw
  else strip isBracket raw

/-- `_trusted_loopback_scope` -/
def trustedLoopbackScope (scope : Scope) : Bool :=
  lower (strip isBracket (scope.client.getD [])) ∈ loopbackHosts &&
    hostHeaderName (strip isSpace (scope.header "host")) ∈ loopbackHosts

/-- `_cookie_matches` -/
def cookieMatches (scope : Scope) (expected : Str) : Bool :=
  let raw := strip isSpace (scope.header "cookie")
  if raw = [] then false
  else
    let supplied := (libraries.uiCookie raw).getD []
    supplied ≠ [] && supplied = expected

/-- `_protected_path` -/
def protectedPath (path : Str) : Bool :=
  "/v1/".toList.isPrefixOf path || path = "/internal/connection-hub/self-test".toList

/-- `encode()` -/
def utf8 (text : Str) : Bytes := text.flatMap String.utf8EncodeChar

variable (bridge : Bridge)

/-- The request comes from the bundled page, and for a protected path. -/
def attaches (scope : Scope) : Bool :=
  scope.isHttp && trustedLoopbackScope scope && cookieMatches libraries scope bridge.uiToken &&
    protectedPath scope.pathText

/-- The scope that the application sees. -/
def forwarded (scope : Scope) : Scope :=
  if bridge.attaches libraries scope then
    { scope with
      headers := (scope.headers.filter fun header =>
          lowerBytes header.1 ≠ ascii "authorization".toList) ++
        [(ascii "authorization".toList, utf8 ("Bearer ".toList ++ bridge.apiKey))] }
  else scope

/-- `issue_cookie` -/
def issuesCookie (scope : Scope) : Bool :=
  scope.isHttp && trustedLoopbackScope scope && scope.pathText = "/".toList &&
    (scope.methodText = "GET".toList || scope.methodText = "HEAD".toList)

def cookie : Bytes :=
  ascii ("inferbridge_desktop_ui=".toList ++ bridge.uiToken ++
    "; Path=/; HttpOnly; SameSite=Strict".toList)

/-- `send_with_cookie` -/
def withCookie (issueCookie : Bool) : Message → Message
  | .start status headers =>
    if issueCookie then .start status (headers ++ [(ascii "set-cookie".toList, bridge.cookie)])
    else .start status headers
  | message => message

def relay : Relay Message Message Raised Bool where
  allow issueCookie answer := (issueCookie, answer)
  convey issueCookie message := (issueCookie, bridge.withCookie issueCookie message)

/-- `DesktopBrowserAuthBridgeMiddleware.__call__` -/
def call (app : App σ) : App (Bool × σ) where
  start scope := (issuesCookie scope, app.start (bridge.forwarded libraries scope))
  act := bridge.relay.program app.act

end Bridge

/-! ### The server -/

/-- What the middleware of the server knows. -/
structure Boundary where
  settings : Option Settings
  maxBytes : ℕ
  limiter : RateLimit.Limiter Str
  access : AccessCheck

/-- The routes behind the network boundary and the guard of the Connection Hub. -/
abbrev Guarded (σ : Type) := (σ ⊕ Reply) ⊕ Reply

abbrev Inner (σ : Type) := RequestBodyLimitMiddleware.State (AccessCheck.State (Guarded σ))

abbrev Outer (σ : Type) := Bool × (Inner σ ⊕ Reply)

namespace Boundary

variable (boundary : Boundary)

def guarded (routes : App σ) : App (Guarded σ) :=
  decided (hubHardening libraries boundary.settings)
    (decided (remoteAccess libraries boundary.settings) routes)

/-- The routes behind the middleware that `FastAPI.__init__` and `create_app` add first. -/
def inner (routes : App σ) : App (Inner σ) :=
  RequestBodyLimitMiddleware.call boundary.maxBytes
    (boundary.access.call libraries boundary.settings (boundary.guarded libraries routes))

/-- The server of the desktop application, at a time. -/
def server (bridge : Bridge) (now : ℚ) (routes : App σ) : App (Outer σ) :=
  bridge.call libraries
    (decided (rateLimit libraries boundary.limiter now) (boundary.inner libraries routes))

end Boundary

end

/-- The state of the routes, once they have been called. -/
def Guarded.routes {σ : Type} : Guarded σ → Option σ
  | .inl (.inl s) => some s
  | _ => none

/-- The state of the application behind the access check, once it has been called. -/
def AccessCheck.State.app {σ : Type} : AccessCheck.State σ → Option σ
  | .passing s => some s
  | .replaying state => some state.2
  | _ => none

/-- The state of the application behind the limit, once it has been called. -/
def RequestBodyLimitMiddleware.State.app {σ : Type} : State σ → Option σ
  | .inl s => some s
  | .inr (.inl state) => some state.2
  | .inr (.inr _) => none

def Outer.routes {σ : Type} : Outer σ → Option σ
  | (_, .inl state) => (RequestBodyLimitMiddleware.State.app state).bind fun state =>
    state.app.bind Guarded.routes
  | (_, .inr _) => none

end InferBridge.Asgi
