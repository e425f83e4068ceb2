import OktaScim.EdgeProxy
import OktaScim.IndependentMachines

/-!
The exchanges that the edge proxy captures, from `tools/edge-proxy.js`. Bodies
come in pieces, and the pieces of different exchanges in any order. The service
receives the client's request once and whole, the client the answer likewise,
and the events tell both, however the bodies were cut and whatever else goes
through the proxy meanwhile; but a request whose URL does not parse ends the
proxy for all.
-/
namespace OktaScim.ProxyExchanges

open JsValues EdgeProxy IndependentMachines

section Headers

/-- The own properties of a headers object; no name comes twice. -/
abbrev Headers (ν : Type) := List (String × ν)

variable {ν : Type}

/-- `headers[name]` -/
def header (name : String) (headers : Headers ν) : Option ν :=
  (headers.find? fun h => h.1 = name).map Prod.snd

/-- `headers[name] = value` -/
def setHeader (name : String) (value : ν) : Headers ν → Headers ν
  | [] => [(name, value)]
  | h :: headers =>
    if h.1 = name then (name, value) :: headers else h :: setHeader name value headers

/-- `delete headers[name]` -/
def deleteHeader (name : String) (headers : Headers ν) : Headers ν :=
  headers.filter fun h => h.1 ≠ name

theorem header_cons (name : String) (h : String × ν) (headers : Headers ν) :
    header name (h :: headers) = if h.1 = name then some h.2 else header name headers := by
  unfold header
  by_cases hname : h.1 = name
  · rw [List.find?_cons_of_pos (by simpa using hname), if_pos hname, Option.map_some]
  · rw [List.find?_cons_of_neg (by simpa using hname), if_neg hname]

theorem header_set (name other : String) (value : ν) (headers : Headers ν) :
    header other (setHeader name value headers) =
      if other = name then some value else header other headers := by
  induction headers with
  | nil =>
    rw [setHeader, header_cons]
    by_cases hother : other = name
    · rw [if_pos hother, if_pos hother.symm]
    · rw [if_neg hother, if_neg (Ne.symm hother)]
  | cons h headers ih =>
    unfold setHeader
    by_cases hset : h.1 = name
    · rw [if_pos hset, header_cons, header_cons, hset]
      by_cases hother : other = name
      · rw [if_pos hother, if_pos hother.symm]
      · rw [if_neg hother, if_neg (Ne.symm hother), if_neg (Ne.symm hother)]
    · rw [if_neg hset, header_cons, header_cons, ih]
      by_cases hfirst : h.1 = other
      · have hother : other ≠ name := by
          rintro rfl
          exact hset hfirst
        rw [if_pos hfirst, if_neg hother, if_pos hfirst]
      · rw [if_neg hfirst, if_neg hfirst]

theorem header_delete (name other : String) (headers : Headers ν) :
    header other (deleteHeader name headers) =
      if other = name then none else header other headers := by
  induction headers with
  | nil => by_cases hother : other = name <;> simp [header, deleteHeader, hother]
  | cons h headers ih =>
    unfold deleteHeader at ih ⊢
    by_cases hdeleted : h.1 = name
    · rw [List.filter_cons_of_neg (by simpa using hdeleted), ih, header_cons, hdeleted]
      by_cases hother : other = name
      · rw [if_pos hother, if_pos hother]
      · rw [if_neg hother, if_neg hother, if_neg (Ne.symm hother)]
    · rw [List.filter_cons_of_pos (by simpa using hdeleted), header_cons, ih, header_cons]
      by_cases hfirst : h.1 = other
      · have hother : other ≠ name := by
          rintro rfl
          exact hdeleted hfirst
        rw [if_pos hfirst, if_neg hother, if_pos hfirst]
      · rw [if_neg hfirst, if_neg hfirst]

end Headers

section Exchange

abbrev Bytes := List UInt8

/-- A value of `pres.headers`: `set-cookie` has a list. -/
inductive HeaderValue : Type
  | text (s : String)
  | list (items : List String)

structure ClientRequest : Type where
  method : String
  url : String
  headers : Headers String

/-- What a captured exchange is doing. -/
inductive Exchange : Type
  | idle
  | receiving (req : ClientRequest) (chunks : List Bytes)
  | sent (req : ClientRequest)
  | answering (req : ClientRequest) (status : JsNumber) (headers : Headers HeaderValue)
      (rchunks : List Bytes)
  | closed

/-- The callbacks of `captureProxy`, for one exchange. -/
inductive Input : Type
  | request (req : ClientRequest)
  | data (c : Bytes)
  | ended (now : String)
  | response (status : JsNumber) (headers : Headers HeaderValue)
  | responseData (c : Bytes)
  | responseEnded (now : String)
  | error (message : String)

/-- What they do to the outside; `uncaught` is an exception that nothing catches,
which ends the process. -/
inductive Effect : Type
  | emit (event : Json)
  | send (target : Target) (method : String) (headers : Headers String) (body : Bytes)
  | uncaught
  | writeHead (status : JsNumber) (headers : Headers HeaderValue)
  | finish (body : Bytes)

/-- The proxy's surroundings: the web, its public host and what is read in a body. -/
structure Proxy : Type where
  web : Web
  publicHost : String
  read : Bytes → HttpBody

variable (proxy : Proxy)

def Proxy.requestOf (req : ClientRequest) (body : Bytes) : HttpRequest :=
  ⟨req.method, req.url, header "content-type" req.headers, header "authorization" req.headers,
    proxy.read body⟩

def HeaderValue.string : HeaderValue → Option String
  | .text s => some s
  | .list _ => none

def Proxy.responseOf (status : JsNumber) (headers : Headers HeaderValue) (body : Bytes) :
    HttpResponse :=
  ⟨status, (header "content-type" headers).bind HeaderValue.string, proxy.read body⟩

/-- `target.host` -/
def host (target : Target) : String :=
  if target.port = "" then target.hostname else target.hostname ++ ":" ++ target.port

/-- The headers of the request that is sent on. -/
def Proxy.upstreamHeaders (target : Target) (headers : Headers String) : Headers String :=
  let headers := setHeader "host" (host target) headers
  let headers := setHeader "x-forwarded-proto" "https" headers
  let headers := setHeader "x-forwarded-host" proxy.publicHost headers
  let headers := setHeader "x-forwarded-port" "443" headers
  deleteHeader "accept-encoding" headers

def outHeaders (headers : Headers HeaderValue) : Headers HeaderValue :=
  deleteHeader "content-length" (deleteHeader "transfer-encoding" headers)

def badGateway : JsNumber := .finite false 502 3

def errorBody (message : String) : Bytes := ("edge-proxy error: " ++ message).toUTF8.toList

/-- One callback; those that cannot come change nothing. -/
def Proxy.step (exchange : Exchange) (input : Input) : Exchange × List Effect :=
  match exchange, input with
  | .idle, .request req =>
    if shouldCapture (if req.url = "" then "/" else req.url) then (.receiving req [], [])
    else (.idle, [])
  | .receiving req chunks, .data c => (.receiving req (chunks ++ [c]), [])
  | .receiving req chunks, .ended now =>
    let reqBody := chunks.flatten
    let announced := Effect.emit (requestEvent now (proxy.requestOf req reqBody))
    match proxy.web.newUrl req.url (serviceFor req.url).base with
    | none => (.closed, [announced, .uncaught])
    | some target => (.sent req, [announced,
        .send target req.method (proxy.upstreamHeaders target req.headers) reqBody])
  | .sent req, .response status headers => (.answering req status headers [], [])
  | .answering req status headers rchunks, .responseData c =>
    (.answering req status headers (rchunks ++ [c]), [])
  | .answering req status headers rchunks, .responseEnded now =>
    -- of the request, this event has only the method and the URL
    let resBody := rchunks.flatten
    (.closed, [.emit (responseEvent now (proxy.requestOf req [])
        (proxy.responseOf status headers resBody)),
      .writeHead status (outHeaders headers), .finish resBody])
  | .sent _, .error message =>
    (.closed, [.writeHead badGateway [("Content-Type", .text "text/plain")],
      .finish (errorBody message)])
  | .answering _ _ _ _, .error message =>
    (.closed, [.writeHead badGateway [("Content-Type", .text "text/plain")],
      .finish (errorBody message)])
  | .closed, .error message => (.closed, [.finish (errorBody message)])
  | exchange, _ => (exchange, [])

def Effect.endsProcess : Effect → Bool
  | .uncaught => true
  | _ => false

/-- What the proxy does for exchanges whose callbacks come in this order. -/
def Proxy.effects {ι : Type} [DecidableEq ι] (inputs : List (ι × Input)) : List (ι × Effect) :=
  (runUntil proxy.step Effect.endsProcess inputs fun _ => .idle).2

end Exchange

section Exchanges

variable {proxy : Proxy} {req : ClientRequest}

/-- What the proxy does to the headers of a captured request. -/
def sentHeader (proxy : Proxy) (target : Target) (name : String) (original : Option String) :
    Option String :=
  if name = "accept-encoding" then none
  else if name = "x-forwarded-port" then some "443"
  else if name = "x-forwarded-host" then some proxy.publicHost
  else if name = "x-forwarded-proto" then some "https"
  else if name = "host" then some (host target)
  else original

theorem header_upstream (target : Target) (headers : Headers String) (name : String) :
    header name (proxy.upstreamHeaders target headers) =
      sentHeader proxy target name (header name headers) := by
  simp only [Proxy.upstreamHeaders, header_delete, header_set, sentHeader]

theorem header_out (headers : Headers HeaderValue) (name : String) :
    header name (outHeaders headers) =
      if name = "content-length" ∨ name = "transfer-encoding" then none
      else header name headers := by
  rw [outHeaders, header_delete, header_delete]
  by_cases hlength : name = "content-length"
  · rw [if_pos hlength, if_pos (Or.inl hlength)]
  · rw [if_neg hlength]
    by_cases hencoding : name = "transfer-encoding"
    · rw [if_pos hencoding, if_pos (Or.inr hencoding)]
    · rw [if_neg hencoding, if_neg (not_or.mpr ⟨hlength, hencoding⟩)]

theorem run_data (cs chunks : List Bytes) :
    runOne proxy.step (cs.map .data) (.receiving req chunks) =
      (.receiving req (chunks ++ cs), []) := by
  induction cs generalizing chunks with
  | nil => rw [List.append_nil, List.map_nil, runOne]
  | cons c cs ih =>
    have hstep : proxy.step (.receiving req chunks) (.data c) =
        (.receiving req (chunks ++ [c]), []) := rfl
    rw [List.map_cons, runOne_cons hstep, ih, List.append_assoc]
    rfl

theorem run_responseData {status : JsNumber} {headers : Headers HeaderValue}
    (cs rchunks : List Bytes) :
    runOne proxy.step (cs.map .responseData) (.answering req status headers rchunks) =
      (.answering req status headers (rchunks ++ cs), []) := by
  induction cs generalizing rchunks with
  | nil => rw [List.append_nil, List.map_nil, runOne]
  | cons c cs ih =>
    have hstep : proxy.step (.answering req status headers rchunks) (.responseData c) =
        (.answering req status headers (rchunks ++ [c]), []) := rfl
    rw [List.map_cons, runOne_cons hstep, ih, List.append_assoc]
    rfl

/-- What becomes of a request that was sent on. -/
inductive Outcome : Type
  | waiting
  | answering (status : JsNumber) (headers : Headers HeaderValue) (rchunks : List Bytes)
  | answered (status : JsNumber) (headers : Headers HeaderValue) (rchunks : List Bytes)
      (now : String)
  | failed (message : String)

def Outcome.inputs : Outcome → List Input
  | .waiting => []
  | .answering status headers rchunks => .response status headers :: rchunks.map .responseData
  | .answered status headers rchunks now =>
    .response status headers :: rchunks.map .responseData ++ [.responseEnded now]
  | .failed message => [.error message]

/-- The inputs of a captured exchange up to its outcome. -/
def script (req : ClientRequest) (chunks : List Bytes) (now : String) (outcome : Outcome) :
    List Input :=
  .request req :: chunks.map .data ++ .ended now :: outcome.inputs

/-- The answer that the client gets, and the event that tells it. -/
inductive Answers (proxy : Proxy) (req : ClientRequest) : Outcome → List Effect → Prop
  | waiting : Answers proxy req .waiting []
  | answering {status : JsNumber} {headers : Headers HeaderValue} {rchunks : List Bytes} :
    Answers proxy req (.answering status headers rchunks) []
  | answered {status : JsNumber} {headers out : Headers HeaderValue} {rchunks : List Bytes}
      {now : String} :
    (∀ name, header name out =
      if name = "content-length" ∨ name = "transfer-encoding" then none else header name headers) →
    Answers proxy req (.answered status headers rchunks now)
      [.emit (responseEvent now (proxy.requestOf req [])
        (proxy.responseOf status headers rchunks.flatten)), .writeHead status out,
        .finish rchunks.flatten]
  | failed {message : String} :
    Answers proxy req (.failed message)
      [.writeHead badGateway [("Content-Type", .text "text/plain")], .finish (errorBody message)]

theorem run_outcome (outcome : Outcome) :
    Answers proxy req outcome (runOne proxy.step outcome.inputs (.sent req)).2 := by
  have hresponse : ∀ status headers, proxy.step (.sent req) (.response status headers) =
      (.answering req status headers [], []) := fun _ _ => rfl
  cases outcome with
  | waiting => exact .waiting
  | answering status headers rchunks =>
    rw [Outcome.inputs, runOne_cons (hresponse status headers), run_responseData]
    exact .answering
  | answered status headers rchunks now =>
    rw [Outcome.inputs, List.cons_append, runOne_cons (hresponse status headers), runOne_append,
      run_responseData]
    exact .answered (header_out headers)
  | failed message => exact .failed

theorem run_received (hcapture : shouldCapture (if req.url = "" then "/" else req.url) = true)
    (chunks : List Bytes) :
    runOne proxy.step (.request req :: chunks.map .data) .idle = (.receiving req chunks, []) := by
  have hrequest : proxy.step .idle (.request req) = (.receiving req [], []) := by
    simp only [Proxy.step, hcapture, if_true]
  rw [runOne_cons hrequest, run_data]
  rfl

theorem step_receiving {exchange : Exchange} {input : Input} {chunks : List Bytes}
    (h : (proxy.step exchange input).1 = .receiving req chunks) :
    (∃ chunks', exchange = .receiving req chunks') ∨ (input = .request req ∧
      shouldCapture (if req.url = "" then "/" else req.url) = true) := by
  cases exchange with
  | idle =>
    cases input with
    | request req' =>
      by_cases hcapture : shouldCapture (if req'.url = "" then "/" else req'.url) = true
      · simp only [Proxy.step, hcapture, if_true] at h
        cases h
        exact Or.inr ⟨rfl, hcapture⟩
      · simp [Proxy.step, hcapture] at h
    | _ => cases h
  | receiving req' chunks' =>
    cases input with
    | data c =>
      cases h
      exact Or.inl ⟨_, rfl⟩
    | ended now =>
      rw [Proxy.step] at h
      cases hparse : proxy.web.newUrl req'.url (serviceFor req'.url).base with
      | none => simp [hparse] at h
      | some target => simp [hparse] at h
    | _ =>
      cases h
      exact Or.inl ⟨_, rfl⟩
  | _ => cases input <;> cases h

/-- Only a request that was taken up is being received. -/
theorem request_of_receiving {chunks : List Bytes} {inputs : List Input} {exchange : Exchange}
    (h : (runOne proxy.step inputs exchange).1 = .receiving req chunks) :
    (∃ chunks', exchange = .receiving req chunks') ∨ (.request req ∈ inputs ∧
      shouldCapture (if req.url = "" then "/" else req.url) = true) := by
  induction inputs generalizing exchange with
  | nil => exact Or.inl ⟨chunks, h⟩
  | cons input inputs ih =>
    rcases ih h with ⟨chunks', hnext⟩ | ⟨hmem, hcapture⟩
    · rcases step_receiving hnext with hbefore | ⟨rfl, hcapture⟩
      · exact Or.inl hbefore
      · exact Or.inr ⟨List.mem_cons_self, hcapture⟩
    · exact Or.inr ⟨List.mem_cons_of_mem _ hmem, hcapture⟩

/-- The exception is thrown behind the announcement of a URL that does not parse. -/
theorem step_uncaught {exchange : Exchange} {input : Input}
    (h : Effect.uncaught ∈ (proxy.step exchange input).2) :
    ∃ req chunks now, exchange = .receiving req chunks ∧
      proxy.web.newUrl req.url (serviceFor req.url).base = none ∧
      (proxy.step exchange input).2 =
        [.emit (requestEvent now (proxy.requestOf req chunks.flatten)), .uncaught] := by
  cases exchange with
  | idle =>
    cases input with
    | request req' =>
      by_cases hcapture : shouldCapture (if req'.url = "" then "/" else req'.url) = true
      · simp [Proxy.step, hcapture] at h
      · simp [Proxy.step, hcapture] at h
    | _ => cases h
  | receiving req chunks =>
    cases input with
    | ended now =>
      cases hparse : proxy.web.newUrl req.url (serviceFor req.url).base with
      | none => exact ⟨req, chunks, now, rfl, hparse, by simp only [Proxy.step, hparse]⟩
      | some target => simp [Proxy.step, hparse] at h
    | _ => cases h
  | _ => cases input <;> simp [Proxy.step] at h

variable {ι : Type} [DecidableEq ι] {inputs : List (ι × Input)}

theorem mem_own {i : ι} {input : Input} : input ∈ own i inputs ↔ (i, input) ∈ inputs := by
  simp only [own, List.mem_filterMap, Option.ite_none_right_eq_some, Option.some.injEq]
  constructor
  · rintro ⟨⟨j, a⟩, hmem, rfl, rfl⟩
    exact hmem
  · exact fun hmem => ⟨_, hmem, rfl, rfl⟩

/-- The process is ended by a captured request whose URL does not parse, as the
last thing that the proxy does. -/
theorem ended_by_url {i : ι} (h : (i, .uncaught) ∈ proxy.effects inputs) :
    ∃ req before now body, (i, .request req) ∈ inputs ∧
      shouldCapture (if req.url = "" then "/" else req.url) = true ∧
      proxy.web.newUrl req.url (serviceFor req.url).base = none ∧
      proxy.effects inputs = before ++
        [(i, .emit (requestEvent now (proxy.requestOf req body))), (i, .uncaught)] := by
  obtain ⟨before, input, after, hinputs, hmem, heffects⟩ := exists_fatal_step h rfl
  obtain ⟨req, chunks, now, hreceiving, hparse, hout⟩ := step_uncaught hmem
  rw [hout] at heffects
  rw [(runAll_own proxy.step i before fun _ => .idle).1] at hreceiving
  rcases request_of_receiving hreceiving with ⟨_, hidle⟩ | ⟨hrequest, hcapture⟩
  · cases hidle
  · refine ⟨req, _, now, chunks.flatten, ?_, hcapture, hparse, heffects⟩
    rw [hinputs]
    exact List.mem_append_left _ (mem_own.mp hrequest)

def sampleProxy : Proxy where
  web :=
    { newUrl := fun ref _ =>
        if ref = "//[/protocol/openid-connect/token" then none
        else some ⟨"localhost", "3000", ref⟩
      forwardedPath := id
      isScim := fun _ port => port = "3000"
      route := fun _ _ => none }
  publicHost := "example.org"
  read := fun _ => ⟨"", none, [], none⟩

def postUsers : ClientRequest := ⟨"POST", "/scim/v2/Users", [("host", "example.org")]⟩

def brokenHost : ClientRequest := ⟨"POST", "//[/protocol/openid-connect/token", []⟩

/-- A second exchange runs between the pieces of the first one. -/
def interleaved : List (Bool × Input) :=
  [(true, .request postUsers), (true, .data [1]), (false, .request postUsers), (true, .data [2, 3]),
    (false, .data [4]), (true, .ended "10:00"), (false, .ended "10:01"),
    (true, .response (.finite false 201 3) []), (false, .error "refused"),
    (true, .responseData [5]), (true, .responseEnded "10:02")]

/-- The second exchange ends the process before the first one is answered. -/
def cutShort : List (Bool × Input) :=
  [(true, .request postUsers), (true, .ended "10:00"), (false, .request brokenHost),
    (false, .ended "10:01"), (true, .response (.finite false 201 3) []),
    (true, .responseEnded "10:02")]

end Exchanges

end OktaScim.ProxyExchanges
