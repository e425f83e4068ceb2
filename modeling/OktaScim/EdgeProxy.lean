import OktaScim.JsStrings
import OktaScim.JsValues
import OktaScim.Redaction
import OktaScim.ScimFilter

/-!
The public edge proxy, from `tools/edge-proxy.js`: which requests it captures,
the events that it builds for these, and where it sends a request on. How a
URL is resolved and what the http-proxy package makes of a path is not the
proxy's own code; both are part of the `Web` it runs in, as are the routes of
the server behind it and the names by which that server is reached.
-/
namespace OktaScim.EdgeProxy

open JsStrings JsValues Redaction

/-- A body by what is read in its text: by `JSON.parse`, when that does not
throw, by `URLSearchParams`, and by the body parsers of the SCIM server, when
one of them takes its type. -/
structure HttpBody : Type where
  text : String
  json : Option Json
  form : List (String × String)
  parsed : Option Json

structure HttpRequest : Type where
  method : String
  url : String
  contentType : Option String
  authorization : Option String
  body : HttpBody

structure HttpResponse : Type where
  status : JsNumber
  contentType : Option String
  body : HttpBody

section Redaction

def shortToken (v : Json) : Json :=
  match v with
  | .str s =>
    if length s ≤ 24 then .str s
    else .str (sliceFront s 12 ++ "…" ++ sliceBack s 6 ++ " (" ++ toString (length s) ++ " chars)")
  | v => v

def SECRET_KEYS : List String := ["client_secret", "password"]

def TOKEN_KEYS : List String := ["access_token", "refresh_token", "id_token"]

def redactRule (k : String) : Option (Json → Json) :=
  if SECRET_KEYS.contains (toLowerCase k) then some fun _ => .str "***"
  else if TOKEN_KEYS.contains (toLowerCase k) then some shortToken
  else none

def redact : Json → Json := redactBy redactRule

/-- `params[key] = val`, which makes no property for `__proto__`. -/
def setParam (params : List (String × Json)) (entry : String × String) : List (String × Json) :=
  if entry.1 = "__proto__" then params
  else if params.any (fun p => p.1 = entry.1) then
    params.map fun p => if p.1 = entry.1 then (p.1, .str entry.2) else p
  else params ++ [(entry.1, .str entry.2)]

/-- `undefined` for an empty text. -/
def parseBody (contentType : Option String) (body : HttpBody) : Option Json :=
  if body.text = "" then none
  else if includes (contentType.getD "") "x-www-form-urlencoded" then
    some (redact (.obj (body.form.foldl setParam [])))
  else
    match body.json with
    | some v => some (redact v)
    | none =>
      some (.str (if length body.text > 600 then sliceFront body.text 600 ++ "…" else body.text))

/-- `.replace(/^Bearer\s+/i, '')` -/
def stripBearer (s : String) : String :=
  let rest := s.toList.drop 6
  if toLowerCase (String.ofList (s.toList.take 6)) = "bearer" ∧
      rest.head?.any ScimFilter.isSpace then
    String.ofList (rest.dropWhile ScimFilter.isSpace)
  else s

def bearer (authorization : String) : Json :=
  match shortToken (.str (stripBearer authorization)) with
  | .str s => .str ("Bearer " ++ s)
  | v => v

def pickHeaders (r : HttpRequest) : Json :=
  .obj ((r.contentType.filter (· != "")).toList.map (fun h => ("content-type", .str h)) ++
    (r.authorization.filter (· != "")).toList.map (fun h => ("authorization", bearer h)))

end Redaction

section Routing

inductive Backend : Type
  | scim
  | keycloak
deriving DecidableEq

def Backend.base : Backend → String
  | .scim => "http://localhost:3000"
  | .keycloak => "http://localhost:8080"

def serviceFor (url : String) : Backend := if startsWith url "/scim" then .scim else .keycloak

def routeToScim (url : String) : Bool :=
  startsWith url "/scim" || startsWith url "/docs" || startsWith url "/demo"

def shouldCapture (url : String) : Bool :=
  startsWith url "/scim/v2" || includes url "/protocol/openid-connect/token"

/-- Where `new URL` points; the path has the query with it. -/
structure Target : Type where
  hostname : String
  port : String
  path : String

/-- The event calls of the server. -/
inductive EventsCall : Type
  | ingest
  | clear
deriving DecidableEq

/-- What the proxy's and the server's own code leave to others: `new URL(ref,
base)`, which may throw, the path that http-proxy asks for, the names that lead
to the SCIM server, and the event call that a method and path are routed to. -/
structure Web : Type where
  newUrl : String → String → Option Target
  forwardedPath : String → String
  isScim : String → String → Bool
  route : String → String → Option EventsCall

/-- The path for which the SCIM server is asked when the proxy sends a request
on, if it is. -/
def forwarded (web : Web) (r : HttpRequest) : Option String :=
  let url := if r.url = "" then "/" else r.url
  if shouldCapture url then
    match web.newUrl r.url (serviceFor r.url).base with
    | some target =>
      if web.isScim target.hostname (if target.port = "" then "80" else target.port) then
        some target.path
      else none
    | none => none
  else if routeToScim url then some (web.forwardedPath url)
  else none

end Routing

section Events

def optionalJson (k : String) (value : Option Json) : List (String × Json) :=
  value.toList.map fun v => (k, v)

/-- The event for a captured request. -/
def requestEvent (now : String) (r : HttpRequest) : Json :=
  .obj ([("ts", .str now), ("source", .str "okta"),
    ("actor", .str (if serviceFor r.url = .scim then "Okta → SCIM server" else "Okta → Keycloak")),
    ("kind", .str "request"), ("method", .str r.method), ("path", .str r.url),
    ("headers", pickHeaders r)] ++ optionalJson "payload" (parseBody r.contentType r.body))

/-- The event for the answer to it. -/
def responseEvent (now : String) (r : HttpRequest) (res : HttpResponse) : Json :=
  .obj ([("ts", .str now),
    ("source", .str (if serviceFor r.url = .scim then "scim" else "keycloak")),
    ("actor", .str (if serviceFor r.url = .scim then "SCIM server → Okta" else "Keycloak → Okta")),
    ("kind", .str "response"), ("method", .str r.method), ("path", .str r.url),
    ("status", .num res.status)] ++ optionalJson "payload" (parseBody res.contentType res.body))

end Events

end OktaScim.EdgeProxy
