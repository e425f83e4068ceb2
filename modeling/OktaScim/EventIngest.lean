import OktaScim.DemoEvents
import OktaScim.EdgeProxy

/-!
Who can put events into the demo's buffer. Requests reach the SCIM server
directly, from the client's own address, or through the edge proxy, from the
loopback address, and so do the events that the proxy posts. The ingest
endpoint only looks at the address. Over any run, the buffer holds nothing but
events that the proxy has built, as long as no client's request comes to the
endpoint through the proxy or from an address that passes for a loopback one.
-/
namespace OktaScim.EventIngest

open JsStrings JsValues DemoEvents EdgeProxy

section Server

structure Arrival : Type where
  remoteAddress : Option String
  method : String
  path : String
  body : Option Json

/-- `value.k ?? otherwise` -/
def fieldOr (value : Json) (k : String) (otherwise : Json) : Json :=
  match value.get k with
  | none => otherwise
  | some .null => otherwise
  | some v => v

def eventOf (now : String) (body : Json) : EventData where
  ts := fieldOr body "ts" (.str now)
  source := fieldOr body "source" (.str "okta")
  actor := fieldOr body "actor" (.str "unknown")
  kind := fieldOr body "kind" (.str "request")
  method := body.get "method"
  path := body.get "path"
  status := body.get "status"
  headers := body.get "headers"
  payload := body.get "payload"

/-- The test for the local machine. -/
def passesAsLoopback (remoteAddress : Option String) : Bool :=
  let ip := remoteAddress.getD ""
  includes ip "127.0.0.1" || includes ip "::1"

/-- `DemoController.ingest`; without a body it throws. -/
def ingest (now : String) (a : Arrival) (s : EventsStore) : EventsStore :=
  if passesAsLoopback a.remoteAddress then
    match a.body with
    | some body => add (eventOf now body) s
    | none => s
  else s

def serveEvents (web : Web) (now : String) (a : Arrival) (s : EventsStore) : EventsStore :=
  match web.route a.method a.path with
  | some .ingest => ingest now a s
  | some .clear => clear s
  | none => s

/-- The arrival adds an event of its sender's choice. -/
def Accepted (web : Web) (a : Arrival) : Prop :=
  web.route a.method a.path = some .ingest ∧ passesAsLoopback a.remoteAddress = true ∧
    a.body.isSome = true

theorem mem_serveEvents {web : Web} {now : String} {a : Arrival} {s : EventsStore} {x : DemoEvent}
    (h : x ∈ (serveEvents web now a s).events) :
    x ∈ s.events ∨
      (Accepted web a ∧ ∃ body, a.body = some body ∧ x.toEventData = eventOf now body) := by
  unfold serveEvents at h
  split at h
  · rename_i hroute
    unfold ingest at h
    split at h
    · rename_i hpass
      split at h
      · rename_i body hbody
        rcases mem_add h with hold | hnew
        · exact Or.inl hold
        · exact Or.inr ⟨⟨hroute, hpass, by rw [hbody]; rfl⟩, body, hbody, hnew⟩
      · exact Or.inl h
    · exact Or.inl h
  · simp [clear] at h
  · exact Or.inl h

/-- An arrival that is accepted is in the buffer afterwards. -/
theorem accepted_added {web : Web} {a : Arrival} (h : Accepted web a) (now : String)
    (s : EventsStore) :
    ∃ body, a.body = some body ∧
      ∃ x ∈ (serveEvents web now a s).events, x.toEventData = eventOf now body := by
  obtain ⟨hroute, hpass, hbody⟩ := h
  obtain ⟨body, hbody⟩ := Option.isSome_iff_exists.mp hbody
  refine ⟨body, hbody, ?_⟩
  simp only [serveEvents, hroute, ingest, hpass, if_true, hbody]
  exact added_mem _ s

end Server

section Runs

/-- The buffer, the events on their way to it, and the captured requests that
wait for their answers. -/
structure System : Type where
  store : EventsStore
  inFlight : List Json
  waiting : List HttpRequest

def System.start : System := ⟨DemoEvents.initial, [], []⟩

/-- A client's request to the SCIM server or to the proxy, the answer to a
captured request, and the arrival or the loss of a posted event. -/
inductive Action : Type
  | direct (remoteAddress : Option String) (r : HttpRequest) (now : String)
  | proxied (r : HttpRequest) (now : String)
  | answered (i : ℕ) (res : HttpResponse) (now : String)
  | delivered (i : ℕ) (now : String)
  | lost (i : ℕ)

def directArrival (remoteAddress : Option String) (r : HttpRequest) : Arrival :=
  ⟨remoteAddress, r.method, r.url, r.body.parsed⟩

/-- The proxy connects from the loopback address. -/
def proxiedArrival (r : HttpRequest) (path : String) : Arrival :=
  ⟨some "127.0.0.1", r.method, path, r.body.parsed⟩

/-- What `emit` posts to `EVENT_SINK`. -/
def postedArrival (event : Json) : Arrival :=
  ⟨some "127.0.0.1", "POST", "/demo/internal/events", some event⟩

/-- A captured request is announced before it is sent on. -/
def capture (r : HttpRequest) (now : String) (σ : System) : System :=
  if shouldCapture r.url then
    { σ with inFlight := σ.inFlight ++ [requestEvent now r], waiting := σ.waiting ++ [r] }
  else σ

def sendOn (web : Web) (r : HttpRequest) (now : String) (σ : System) : System :=
  match forwarded web r with
  | some path => { σ with store := serveEvents web now (proxiedArrival r path) σ.store }
  | none => σ

def step (web : Web) (action : Action) (σ : System) : System :=
  match action with
  | .direct addr r now => { σ with store := serveEvents web now (directArrival addr r) σ.store }
  | .proxied r now => sendOn web r now (capture r now σ)
  | .answered i res now =>
    match σ.waiting[i]? with
    | some r => { σ with
        inFlight := σ.inFlight ++ [responseEvent now r res], waiting := σ.waiting.eraseIdx i }
    | none => σ
  | .delivered i now =>
    match σ.inFlight[i]? with
    | some event => { σ with
        store := serveEvents web now (postedArrival event) σ.store
        inFlight := σ.inFlight.eraseIdx i }
    | none => σ
  | .lost i => { σ with inFlight := σ.inFlight.eraseIdx i }

def run (web : Web) (actions : List Action) (σ : System) : System :=
  actions.foldl (fun σ action => step web action σ) σ

/-- The event is one that `captureProxy` builds in the run. -/
def Built (actions : List Action) (event : Json) : Prop :=
  ∃ r now, Action.proxied r now ∈ actions ∧ shouldCapture r.url = true ∧
    (event = requestEvent now r ∨
      ∃ i res later, Action.answered i res later ∈ actions ∧ event = responseEvent later r res)

/-- The buffer holds only events that `captureProxy` has built. -/
def OnlyBuilt (actions : List Action) (s : EventsStore) : Prop :=
  ∀ x ∈ s.events, ∃ event now, Built actions event ∧ x.toEventData = eventOf now event

/-- A client's request does not come to the ingest endpoint with a body,
through the proxy or from an address that passes for the local machine's. -/
def Harmless (web : Web) : Action → Prop
  | .direct addr r _ =>
    web.route r.method r.url = some .ingest → r.body.parsed.isSome = true →
      passesAsLoopback addr = false
  | .proxied r _ =>
    ∀ path, forwarded web r = some path → r.body.parsed.isSome = true →
      web.route r.method path ≠ some .ingest
  | .answered _ _ _ => True
  | .delivered _ _ => True
  | .lost _ => True

/-- What holds between the steps of a harmless run. -/
structure Tapped (actions : List Action) (σ : System) : Prop where
  store : OnlyBuilt actions σ.store
  inFlight : ∀ event ∈ σ.inFlight, Built actions event
  waiting : ∀ r ∈ σ.waiting, shouldCapture r.url = true ∧ ∃ now, Action.proxied r now ∈ actions

theorem tapped_start : Tapped [] System.start where
  store _ hx := by contradiction
  inFlight _ hevent := by contradiction
  waiting _ hr := by contradiction

theorem Built.mono {actions : List Action} {event : Json} (h : Built actions event)
    (action : Action) : Built (actions ++ [action]) event := by
  obtain ⟨r, now, hr, hcapture, hevent⟩ := h
  refine ⟨r, now, List.mem_append_left _ hr, hcapture, hevent.imp id ?_⟩
  intro hanswer
  obtain ⟨i, res, later, hmem, heq⟩ := hanswer
  exact ⟨i, res, later, List.mem_append_left _ hmem, heq⟩

theorem Tapped.mono {actions : List Action} {σ : System} (h : Tapped actions σ) (action : Action) :
    Tapped (actions ++ [action]) σ where
  store x hx := by
    obtain ⟨event, now, hbuilt, heq⟩ := h.store x hx
    exact ⟨event, now, hbuilt.mono action, heq⟩
  inFlight event hevent := (h.inFlight event hevent).mono action
  waiting r hr := by
    obtain ⟨hcapture, now, hmem⟩ := h.waiting r hr
    exact ⟨hcapture, now, List.mem_append_left _ hmem⟩

/-- A request that is not accepted leaves nothing of its own in the buffer. -/
theorem onlyBuilt_serveEvents {web : Web} {now : String} {a : Arrival} {actions : List Action}
    {s : EventsStore} (hs : OnlyBuilt actions s)
    (ha : Accepted web a → ∃ event, a.body = some event ∧ Built actions event) :
    OnlyBuilt actions (serveEvents web now a s) := by
  intro x hx
  rcases mem_serveEvents hx with hold | ⟨haccepted, body, hbody, heq⟩
  · exact hs x hold
  · obtain ⟨event, hevent, hbuilt⟩ := ha haccepted
    rw [hbody, Option.some.injEq] at hevent
    exact ⟨body, now, hevent ▸ hbuilt, heq⟩

theorem direct_not_accepted {web : Web} {addr : Option String} {r : HttpRequest} {now : String}
    (h : Harmless web (.direct addr r now)) : ¬Accepted web (directArrival addr r) := by
  intro haccepted
  obtain ⟨hroute, hpass, hbody⟩ := haccepted
  have hfail := h hroute hbody
  rw [show passesAsLoopback addr = true from hpass] at hfail
  contradiction

theorem proxied_not_accepted {web : Web} {r : HttpRequest} {now path : String}
    (h : Harmless web (.proxied r now)) (hpath : forwarded web r = some path) :
    ¬Accepted web (proxiedArrival r path) := by
  intro haccepted
  exact h path hpath haccepted.2.2 haccepted.1

/-- The announcement of a captured request is an event that the proxy builds. -/
theorem tapped_capture {actions : List Action} {σ : System} {r : HttpRequest} {now : String}
    (h : Tapped actions σ) : Tapped (actions ++ [.proxied r now]) (capture r now σ) := by
  have hmem : Action.proxied r now ∈ actions ++ [.proxied r now] := by simp
  have hmono := h.mono (.proxied r now)
  unfold capture
  split
  · rename_i hcapture
    refine ⟨hmono.store, ?_, ?_⟩
    · intro event hevent
      rcases List.mem_append.mp hevent with hold | hnew
      · exact hmono.inFlight event hold
      · exact ⟨r, now, hmem, hcapture, Or.inl (List.mem_singleton.mp hnew)⟩
    · intro q hq
      rcases List.mem_append.mp hq with hold | hnew
      · exact hmono.waiting q hold
      · have heq := List.mem_singleton.mp hnew
        subst heq
        exact ⟨hcapture, now, hmem⟩
  · exact hmono

theorem tapped_answer {actions : List Action} {σ : System} {i : ℕ} {res : HttpResponse}
    {now : String} {r : HttpRequest} (h : Tapped actions σ) (hr : σ.waiting[i]? = some r) :
    Tapped (actions ++ [.answered i res now])
      { σ with inFlight := σ.inFlight ++ [responseEvent now r res],
               waiting := σ.waiting.eraseIdx i } := by
  have hmono := h.mono (.answered i res now)
  refine ⟨hmono.store, ?_, ?_⟩
  · intro event hevent
    rcases List.mem_append.mp hevent with hold | hnew
    · exact hmono.inFlight event hold
    · obtain ⟨hcapture, sent, hmem⟩ := h.waiting r (List.mem_of_getElem? hr)
      refine ⟨r, sent, List.mem_append_left _ hmem, hcapture, Or.inr ?_⟩
      exact ⟨i, res, now, by simp, List.mem_singleton.mp hnew⟩
  · intro q hq
    exact hmono.waiting q (List.mem_of_mem_eraseIdx hq)

theorem step_tapped {web : Web} {actions : List Action} {σ : System} {action : Action}
    (h : Tapped actions σ) (hharmless : Harmless web action) :
    Tapped (actions ++ [action]) (step web action σ) := by
  cases action with
  | direct addr r now =>
    have hmono := h.mono (.direct addr r now)
    refine { hmono with store := onlyBuilt_serveEvents hmono.store ?_ }
    intro haccepted
    exact absurd haccepted (direct_not_accepted hharmless)
  | proxied r now =>
    have hcaptured : Tapped (actions ++ [.proxied r now]) (capture r now σ) := tapped_capture h
    simp only [step, sendOn]
    split
    · rename_i path hpath
      refine { hcaptured with store := onlyBuilt_serveEvents hcaptured.store ?_ }
      intro haccepted
      exact absurd haccepted (proxied_not_accepted hharmless hpath)
    · exact hcaptured
  | answered i res now =>
    simp only [step]
    split
    · rename_i r hr
      exact tapped_answer h hr
    · exact h.mono _
  | delivered i now =>
    have hmono := h.mono (.delivered i now)
    simp only [step]
    split
    · rename_i event hevent
      refine ⟨onlyBuilt_serveEvents hmono.store ?_, ?_, hmono.waiting⟩
      · intro _
        exact ⟨event, rfl, hmono.inFlight event (List.mem_of_getElem? hevent)⟩
      · intro e he
        exact hmono.inFlight e (List.mem_of_mem_eraseIdx he)
    · exact hmono
  | lost i =>
    have hmono := h.mono (.lost i)
    refine { hmono with inFlight := ?_ }
    intro e he
    exact hmono.inFlight e (List.mem_of_mem_eraseIdx he)

/-- Any other request of a client puts an event of the client's choice into the
buffer. -/
theorem harmful_direct {web : Web} {addr : Option String} {r : HttpRequest} {now : String}
    (h : ¬Harmless web (.direct addr r now)) (σ : System) :
    ∃ body, r.body.parsed = some body ∧
      ∃ x ∈ (step web (.direct addr r now) σ).store.events, x.toEventData = eventOf now body := by
  simp only [Harmless, Classical.not_imp, Bool.not_eq_false] at h
  obtain ⟨hroute, hbody, hpass⟩ := h
  exact accepted_added (a := directArrival addr r) ⟨hroute, hpass, hbody⟩ now σ.store

theorem harmful_proxied {web : Web} {r : HttpRequest} {now : String}
    (h : ¬Harmless web (.proxied r now)) (σ : System) :
    ∃ body, r.body.parsed = some body ∧
      ∃ x ∈ (step web (.proxied r now) σ).store.events, x.toEventData = eventOf now body := by
  simp only [Harmless, not_forall, not_not] at h
  obtain ⟨path, hpath, hbody, hroute⟩ := h
  have hpass : passesAsLoopback (some "127.0.0.1") = true := by decide
  simp only [step, sendOn, hpath]
  exact accepted_added (a := proxiedArrival r path) ⟨hroute, hpass, hbody⟩ now _

theorem run_append (web : Web) (actions : List Action) (action : Action) (σ : System) :
    run web (actions ++ [action]) σ = step web action (run web actions σ) := by
  rw [run, List.foldl_append]
  rfl

/-- The induction is on the run, at whose end the next action comes. -/
theorem run_tapped {web : Web} {actions : List Action} (h : ∀ a ∈ actions, Harmless web a) :
    Tapped actions (run web actions System.start) := by
  induction actions using List.reverseRecOn with
  | nil => exact tapped_start
  | append_singleton actions action ih =>
    have hbefore := ih fun a ha => h a (List.mem_append_left _ ha)
    rw [run_append]
    exact step_tapped hbefore (h action (by simp))

/-- As long as the clients' requests are harmless, the buffer holds only the
proxy's own events, in every state of the run. -/
theorem ingest_only_from_tap {web : Web} {actions : List Action}
    (h : ∀ a ∈ actions, Harmless web a) {before : List Action} (hbefore : before <+: actions) :
    OnlyBuilt before (run web before System.start).store :=
  (run_tapped fun a ha => h a (hbefore.subset ha)).store

/-- A server on port 3000 behind a proxy on the same machine. -/
def sampleWeb : Web where
  newUrl ref base :=
    if startsWith ref "/" && !startsWith ref "//" then
      some ⟨"localhost", if base = Backend.scim.base then "3000" else "8080", ref⟩
    else none
  forwardedPath url := url
  isScim hostname port := hostname = "localhost" && port = "3000"
  route method path :=
    if method = "POST" && path = "/demo/internal/events" then some .ingest
    else if method = "DELETE" && path = "/demo/api/events" then some .clear
    else none

def listUsers : HttpRequest :=
  ⟨"GET", "/scim/v2/Users", none, some "Bearer S3cretToken", ⟨"", none, [], none⟩⟩

def capturedRun : List Action :=
  [.proxied listUsers "10:00:00",
    .answered 0 ⟨.finite false 2 3, none, ⟨"", none, [], none⟩⟩ "10:00:01",
    .delivered 0 "10:00:01", .delivered 0 "10:00:02"]

theorem capturedRun_harmless : ∀ a ∈ capturedRun, Harmless sampleWeb a := by
  intro a ha
  rcases List.mem_cons.mp ha with rfl | ha
  · intro path _ hbody
    contradiction
  · simp only [List.mem_cons, List.not_mem_nil, or_false] at ha
    rcases ha with rfl | rfl | rfl <;> exact trivial

/-- The request and its answer are both in the buffer. -/
theorem ingest_only_from_tap_sample :
    (run sampleWeb capturedRun System.start).store.events.map (·.seq) = [1, 2] ∧
      OnlyBuilt capturedRun (run sampleWeb capturedRun System.start).store :=
  ⟨rfl, ingest_only_from_tap capturedRun_harmless (List.prefix_refl capturedRun)⟩

def forgedEvent : Json := .obj [("actor", .str "Okta → SCIM server")]

def forged : HttpRequest :=
  ⟨"POST", "/demo/internal/events", some "application/json", none,
    ⟨"\x7b\"actor\":\"Okta → SCIM server\"\x7d", some forgedEvent, [], some forgedEvent⟩⟩

theorem not_onlyBuilt_of_none {actions : List Action} {s : EventsStore} {x : DemoEvent}
    (hx : x ∈ s.events) (h : ∀ event, ¬Built actions event) : ¬OnlyBuilt actions s := by
  intro honly
  obtain ⟨event, _, hbuilt, _⟩ := honly x hx
  exact h event hbuilt

/-- A forged event comes in through the proxy, and directly from an IPv6
address that ends in `::1`. -/
theorem forged_event_accepted :
    ¬OnlyBuilt [.proxied forged "10:00:00"]
        (run sampleWeb [.proxied forged "10:00:00"] System.start).store ∧
      ¬OnlyBuilt [.direct (some "2001:db8::1") forged "10:00:00"]
        (run sampleWeb [.direct (some "2001:db8::1") forged "10:00:00"] System.start).store := by
  refine ⟨not_onlyBuilt_of_none List.mem_cons_self ?_,
    not_onlyBuilt_of_none List.mem_cons_self ?_⟩
  · intro event hbuilt
    obtain ⟨r, now, hr, hcapture, _⟩ := hbuilt
    have heq := List.mem_singleton.mp hr
    injection heq with heq
    rw [heq] at hcapture
    exact absurd hcapture (by decide)
  · intro event hbuilt
    obtain ⟨r, now, hr, _⟩ := hbuilt
    have heq := List.mem_singleton.mp hr
    contradiction

end Runs

end OktaScim.EventIngest
