import OktaScim.DemoPage
import OktaScim.EventIngest
import OktaScim.EventSecrecy
import OktaScim.Simulations
import Mathlib.Data.List.InsertIdx

/-!
The proxy, the buffer of events and the activity log of the dashboard as one
system. What the log shows at any moment does not depend on what stands under
secret keys, where a body is read by its content type as the form or JSON that it
is, nor on the middle of long tokens, as long as clients keep away from the
ingest endpoint. A password that stands anywhere else is shown.
-/
namespace OktaScim.WatchedTraffic

open JsStrings JsValues Redaction DemoEvents DemoPage EdgeProxy EventIngest EventSecrecy
open Simulations

section Chain

/-- The traffic with the buffer, how many times the server was restarted, and
the page. -/
structure Chain : Type where
  system : System
  server : ℕ
  page : Page

/-- Traffic, a restart of the server, the end of the page's handler for clearing
the log, and a poll of the events. -/
inductive Happening : Type
  | traffic (action : Action)
  | restart
  | emptyLog
  | poll

def Chain.start : Chain := ⟨.start, 0, .loaded⟩

def Chain.step (web : Web) (c : Chain) : Happening → Chain
  | .traffic action => { c with system := EventIngest.step web action c.system }
  | .restart => { c with
      system := { c.system with store := DemoEvents.initial }, server := c.server + 1 }
  | .emptyLog => { c with page := showLogEmpty c.page }
  | .poll => { c with page := updateLog c.server (list c.system.store) c.page }

/-- The page behind each happening. -/
def pages (web : Web) (happenings : List Happening) : List Page :=
  (runAll (fun h c => ((c.step web h).page, c.step web h)) happenings Chain.start).1

end Chain

section Secrets

/-- The same but for the middle of a long token. -/
inductive SameMiddle : String → String → Prop
  | same (t : String) : SameMiddle t t
  | long {t t' : String} : 24 < length t → length t = length t' →
    sliceFront t 12 = sliceFront t' 12 → sliceBack t 6 = sliceBack t' 6 → SameMiddle t t'

/-- The same but for the middle of a long bearer token. -/
inductive SameToken : Option String → Option String → Prop
  | same (authorization : Option String) : SameToken authorization authorization
  | bearer {t t' : String} : SameMiddle t t' →
    t.toList.head?.any ScimFilter.isSpace = false → t'.toList.head?.any ScimFilter.isSpace = false →
    SameToken (some ("Bearer " ++ t)) (some ("Bearer " ++ t'))

def isToken (k : String) : Bool := TOKEN_KEYS.contains (toLowerCase k)

mutual

/-- The same but for what stands under secret keys and the middle of long tokens
under token keys, at any depth; what else stands under a token key is the same. -/
inductive SameValue : Json → Json → Prop
  | same (v : Json) : SameValue v v
  | arr {vs ws : List Json} : SameItems vs ws → SameValue (.arr vs) (.arr ws)
  | obj {vs ws : List (String × Json)} : SameFields vs ws → SameValue (.obj vs) (.obj ws)

inductive SameItems : List Json → List Json → Prop
  | nil : SameItems [] []
  | cons {v w : Json} {vs ws : List Json} : SameValue v w → SameItems vs ws →
    SameItems (v :: vs) (w :: ws)

inductive SameFields : List (String × Json) → List (String × Json) → Prop
  | nil : SameFields [] []
  | same (k : String) (v : Json) {vs ws : List (String × Json)} : SameFields vs ws →
    SameFields ((k, v) :: vs) ((k, v) :: ws)
  | secret {k : String} (v w : Json) {vs ws : List (String × Json)} : isSecret k = true →
    SameFields vs ws → SameFields ((k, v) :: vs) ((k, w) :: ws)
  | token {k t t' : String} {vs ws : List (String × Json)} : isToken k = true → SameMiddle t t' →
    SameFields vs ws → SameFields ((k, .str t) :: vs) ((k, .str t') :: ws)
  | value {k : String} {v w : Json} {vs ws : List (String × Json)} : isToken k = false →
    SameValue v w → SameFields vs ws → SameFields ((k, v) :: vs) ((k, w) :: ws)

end

/-- The same but for the secrets of a form, or of a JSON value. The content type
says what the body is read as. -/
inductive SameBody (contentType : Option String) : HttpBody → HttpBody → Prop
  | same (b : HttpBody) : SameBody contentType b b
  | form {b b' : HttpBody} : isForm contentType = true → (b.text = "" ↔ b'.text = "") →
    SameForms b b' → SameBody contentType b b'
  | json {b b' : HttpBody} {v w : Json} : isForm contentType = false → b.text ≠ "" →
    b'.text ≠ "" → b.json = some v → b'.json = some w → SameValue v w → SameBody contentType b b'

structure SameRequest (r r' : HttpRequest) : Prop where
  method : r.method = r'.method
  url : r.url = r'.url
  contentType : r.contentType = r'.contentType
  authorization : SameToken r.authorization r'.authorization
  body : SameBody r.contentType r.body r'.body

structure SameResponse (res res' : HttpResponse) : Prop where
  status : res.status = res'.status
  contentType : res.contentType = res'.contentType
  body : SameBody res.contentType res.body res'.body

inductive SameTraffic : Action → Action → Prop
  | direct (addr : Option String) (now : String) {r r' : HttpRequest} :
    SameRequest r r' → SameTraffic (.direct addr r now) (.direct addr r' now)
  | proxied (now : String) {r r' : HttpRequest} :
    SameRequest r r' → SameTraffic (.proxied r now) (.proxied r' now)
  | answered (i : ℕ) (now : String) {res res' : HttpResponse} :
    SameResponse res res' → SameTraffic (.answered i res now) (.answered i res' now)
  | delivered (i : ℕ) (now : String) : SameTraffic (.delivered i now) (.delivered i now)
  | lost (i : ℕ) : SameTraffic (.lost i) (.lost i)

inductive SameHappening (web : Web) : Happening → Happening → Prop
  | traffic {a a' : Action} : Harmless web a → Harmless web a' → SameTraffic a a' →
    SameHappening web (.traffic a) (.traffic a')
  | restart : SameHappening web .restart .restart
  | emptyLog : SameHappening web .emptyLog .emptyLog
  | poll : SameHappening web .poll .poll

theorem stripBearer_bearer {t : String} (h : t.toList.head?.any ScimFilter.isSpace = false) :
    stripBearer ("Bearer " ++ t) = t := by
  have hlist : ("Bearer " ++ t).toList = "Bearer".toList ++ ' ' :: t.toList := by
    rw [String.toList_append]
    rfl
  have hdrop : ("Bearer " ++ t).toList.drop 6 = ' ' :: t.toList := by
    rw [hlist]
    rfl
  have htake : ("Bearer " ++ t).toList.take 6 = "Bearer".toList := by
    rw [hlist]
    rfl
  have hword : toLowerCase "Bearer" = "bearer" := by decide
  have hrest : t.toList.dropWhile ScimFilter.isSpace = t.toList := by
    cases hchars : t.toList with
    | nil => rfl
    | cons c cs =>
      rw [hchars] at h
      exact List.dropWhile_cons_of_neg (by simpa using h)
  have hspace : ScimFilter.isSpace ' ' = true := by decide
  unfold stripBearer
  simp only [hdrop, htake, String.ofList_toList, hword, List.head?_cons, Option.any_some, hspace,
    and_self, if_true, List.dropWhile_cons_of_pos hspace, hrest]

theorem shortToken_middle {t t' : String} (h : SameMiddle t t') :
    shortToken (.str t) = shortToken (.str t') := by
  cases h with
  | same => rfl
  | long hlong hlength hfront hback =>
    have hlong' : ¬length t' ≤ 24 := by omega
    simp only [shortToken, hlength, if_neg hlong', hfront, hback]

/-- What redaction puts for the values of one key. -/
theorem redactFields_cons {k : String} {v w : Json} {vs ws : List (String × Json)}
    (hvalue : redactField redactRule (k, v) = redactField redactRule (k, w))
    (hrest : redactFields redactRule vs = redactFields redactRule ws) :
    redactFields redactRule ((k, v) :: vs) = redactFields redactRule ((k, w) :: ws) := by
  rw [redactFields, redactFields]
  split
  · exact hrest
  · exact congrArg₂ List.cons hvalue hrest

mutual

theorem redact_same : ∀ {v w : Json}, SameValue v w → redact v = redact w
  | _, _, .same _ => rfl
  | _, _, .arr h => congrArg Json.arr (redactItems_same h)
  | _, _, .obj h => congrArg Json.obj (redactFields_same h)

theorem redactItems_same : ∀ {vs ws : List Json}, SameItems vs ws →
    redactItems redactRule vs = redactItems redactRule ws
  | _, _, .nil => rfl
  | _, _, .cons h hrest => congrArg₂ List.cons (redact_same h) (redactItems_same hrest)

/-- One case for each way in which the values of a key may differ. -/
theorem redactFields_same : ∀ {vs ws : List (String × Json)}, SameFields vs ws →
    redactFields redactRule vs = redactFields redactRule ws
  | _, _, .nil => rfl
  | _, _, .same _ _ hrest => redactFields_cons rfl (redactFields_same hrest)
  | _, _, .secret (k := k) v w hsecret hrest => by
    have hrule : redactRule k = some fun _ => .str "***" := if_pos hsecret
    exact redactFields_cons (by simp only [redactField, hrule]) (redactFields_same hrest)
  | _, _, .token (k := k) htoken hmiddle hrest => by
    refine redactFields_cons ?_ (redactFields_same hrest)
    have hshort := shortToken_middle hmiddle
    have htoken' : TOKEN_KEYS.contains (toLowerCase k) = true := htoken
    by_cases hsecret : SECRET_KEYS.contains (toLowerCase k) = true
    · simp only [redactField, redactRule, if_pos hsecret]
    · simp only [redactField, redactRule, if_neg hsecret, if_pos htoken', hshort]
  | _, _, .value (k := k) htoken h hrest => by
    refine redactFields_cons ?_ (redactFields_same hrest)
    have htoken' : ¬TOKEN_KEYS.contains (toLowerCase k) = true := by
      rw [← Bool.not_eq_true] at htoken
      exact htoken
    have hvalue := redact_same h
    by_cases hsecret : SECRET_KEYS.contains (toLowerCase k) = true
    · simp only [redactField, redactRule, if_pos hsecret]
    · simp only [redactField, redactRule, if_neg hsecret, if_neg htoken']
      exact congrArg _ hvalue

end

theorem pickHeaders_same {r r' : HttpRequest} (h : SameRequest r r') :
    pickHeaders r = pickHeaders r' := by
  have hshown : (r.authorization.filter (· != "")).toList.map
      (fun a => (("authorization", bearer a) : String × Json)) =
      (r'.authorization.filter (· != "")).toList.map fun a => ("authorization", bearer a) := by
    have hauth := h.authorization
    generalize r.authorization = a at hauth
    generalize r'.authorization = a' at hauth
    cases hauth with
    | same => rfl
    | @bearer t t' hmiddle ht ht' =>
      have hshort := shortToken_middle hmiddle
      have hbearer : bearer ("Bearer " ++ t) = bearer ("Bearer " ++ t') := by
        unfold bearer
        rw [stripBearer_bearer ht, stripBearer_bearer ht', hshort]
      have hfilled : ∀ s : String, (("Bearer " ++ s) != "") = true := by
        intro s
        simp
      simp only [Option.filter, hfilled, if_true, Option.toList, List.map_cons, List.map_nil,
        hbearer]
  unfold pickHeaders
  rw [hshown, h.contentType]

theorem parseBody_same {contentType : Option String} {b b' : HttpBody}
    (h : SameBody contentType b b') : parseBody contentType b = parseBody contentType b' := by
  cases h with
  | same => rfl
  | form hform htext hsame =>
    rw [parseBody_eq, parseBody_eq]
    by_cases hempty : b.text = ""
    · rw [if_pos hempty, if_pos (htext.mp hempty)]
    · rw [if_neg hempty, if_neg fun h => hempty (htext.mpr h), if_pos hform, if_pos hform,
        (redact_eq_iff _ _).mpr (sameShown_params hsame)]
  | json hform htext htext' hv hw hsame =>
    have hred := redact_same hsame
    simp only [parseBody_eq, if_neg htext, if_neg htext', hform, bestEffort, hv, hw,
      Option.getD_some, hred, Bool.false_eq_true, if_false]

theorem requestEvent_same {r r' : HttpRequest} (h : SameRequest r r') (now : String) :
    requestEvent now r = requestEvent now r' := by
  have hbody := parseBody_same h.body
  unfold requestEvent
  rw [pickHeaders_same h, h.method, h.url, hbody, h.contentType]

/-- Of the request, an answer's event shows the method and the path. -/
theorem responseEvent_same {r r' : HttpRequest} (hmethod : r.method = r'.method)
    (hurl : r.url = r'.url) {res res' : HttpResponse} (h : SameResponse res res') (now : String) :
    responseEvent now r res = responseEvent now r' res' := by
  have hbody := parseBody_same h.body
  unfold responseEvent
  rw [hmethod, hurl, h.status, hbody, h.contentType]

end Secrets

section Traffic

variable {web : Web} {σ σ' : System}

/-- Of a request that waits for its answer, its event needs the method and the path. -/
def exchange (r : HttpRequest) : String × String := (r.method, r.url)

/-- The same buffer, the same events on their way, and the same exchanges. -/
structure SameSystem (σ σ' : System) : Prop where
  store : σ.store = σ'.store
  inFlight : σ.inFlight = σ'.inFlight
  waiting : σ.waiting.map exchange = σ'.waiting.map exchange

/-- What is not accepted leaves the buffer to the route alone. -/
theorem serveEvents_refused {a a' : Arrival} (hmethod : a.method = a'.method)
    (hpath : a.path = a'.path) (ha : ¬Accepted web a) (ha' : ¬Accepted web a') (now : String)
    (s : EventsStore) : serveEvents web now a s = serveEvents web now a' s := by
  have hrefused : ∀ {b : Arrival}, web.route b.method b.path = some .ingest → ¬Accepted web b →
      ingest now b s = s := by
    intro b hroute hb
    unfold ingest
    split
    · rename_i hpass
      cases hbody : b.body with
      | none => rfl
      | some body => exact absurd ⟨hroute, hpass, by rw [hbody]; rfl⟩ hb
    · rfl
  unfold serveEvents
  rw [← hmethod, ← hpath]
  cases hroute : web.route a.method a.path with
  | none => rfl
  | some call =>
    cases call with
    | clear => rfl
    | ingest =>
      have hroute' : web.route a'.method a'.path = some .ingest := by
        rw [← hmethod, ← hpath]
        exact hroute
      exact (hrefused hroute ha).trans (hrefused hroute' ha').symm

theorem forwarded_same {r r' : HttpRequest} (h : SameRequest r r') :
    forwarded web r = forwarded web r' := by
  unfold forwarded
  rw [h.url]

theorem capture_same {r r' : HttpRequest} (h : SameRequest r r') (now : String)
    (hσ : SameSystem σ σ') : SameSystem (capture r now σ) (capture r' now σ') := by
  have hexchange : exchange r = exchange r' := by
    unfold exchange
    rw [h.method, h.url]
  unfold capture
  rw [h.url]
  split
  · refine ⟨hσ.store, ?_, ?_⟩
    · rw [hσ.inFlight, requestEvent_same h now]
    · simp only [List.map_append, hσ.waiting, List.map_cons, List.map_nil, hexchange]
  · exact hσ

theorem sendOn_same {r r' : HttpRequest} (h : SameRequest r r') {now : String}
    (hr : Harmless web (.proxied r now)) (hr' : Harmless web (.proxied r' now))
    (hσ : SameSystem σ σ') : SameSystem (sendOn web r now σ) (sendOn web r' now σ') := by
  have hsent := @forwarded_same web r r' h
  unfold sendOn
  rw [← hsent]
  cases hpath : forwarded web r with
  | none => exact hσ
  | some path =>
    refine ⟨?_, hσ.inFlight, hσ.waiting⟩
    have hpath' : forwarded web r' = some path := hsent.symm.trans hpath
    rw [hσ.store]
    exact @serveEvents_refused web (proxiedArrival r path) (proxiedArrival r' path) h.method rfl
      (proxied_not_accepted hr hpath) (proxied_not_accepted hr' hpath') now σ'.store

/-- One case for each kind of traffic. -/
theorem step_same {a a' : Action} (ha : Harmless web a) (ha' : Harmless web a')
    (h : SameTraffic a a') (hσ : SameSystem σ σ') :
    SameSystem (EventIngest.step web a σ) (EventIngest.step web a' σ') := by
  cases h with
  | direct addr now hr =>
    refine ⟨?_, hσ.inFlight, hσ.waiting⟩
    rw [EventIngest.step, EventIngest.step, hσ.store]
    exact serveEvents_refused hr.method hr.url (direct_not_accepted ha) (direct_not_accepted ha')
      now σ'.store
  | proxied now hr => exact sendOn_same hr ha ha' (capture_same hr now hσ)
  | @answered i now res res' hres =>
    have hget : (σ.waiting[i]?).map exchange = (σ'.waiting[i]?).map exchange := by
      rw [← List.getElem?_map, ← List.getElem?_map, hσ.waiting]
    cases hi : σ.waiting[i]? with
    | none =>
      cases hi' : σ'.waiting[i]? with
      | none => simpa only [EventIngest.step, hi, hi'] using hσ
      | some r' =>
        rw [hi, hi'] at hget
        contradiction
    | some r =>
      cases hi' : σ'.waiting[i]? with
      | none =>
        rw [hi, hi'] at hget
        contradiction
      | some r' =>
        rw [hi, hi', Option.map_some, Option.map_some, Option.some_inj] at hget
        obtain ⟨hmethod, hurl⟩ := Prod.mk.inj hget
        simp only [EventIngest.step, hi, hi']
        refine ⟨hσ.store, ?_, ?_⟩
        · rw [hσ.inFlight, responseEvent_same hmethod hurl hres now]
        · rw [← List.eraseIdx_map, ← List.eraseIdx_map, hσ.waiting]
  | delivered i now =>
    simp only [EventIngest.step, hσ.inFlight]
    cases σ'.inFlight[i]? with
    | none => exact hσ
    | some event =>
      refine ⟨?_, rfl, hσ.waiting⟩
      simp only [hσ.store]
  | lost i =>
    refine ⟨hσ.store, ?_, hσ.waiting⟩
    simp only [EventIngest.step, hσ.inFlight]

end Traffic

section Watching

variable {web : Web}

structure SameChain (c c' : Chain) : Prop where
  system : SameSystem c.system c'.system
  server : c.server = c'.server
  page : c.page = c'.page

theorem chain_same {h h' : Happening} (hsame : SameHappening web h h') {c c' : Chain}
    (hc : SameChain c c') : SameChain (c.step web h) (c'.step web h') := by
  obtain ⟨hsystem, hserver, hpage⟩ := hc
  cases hsame with
  | traffic ha ha' htraffic => exact ⟨step_same ha ha' htraffic hsystem, hserver, hpage⟩
  | restart =>
    refine ⟨⟨rfl, hsystem.inFlight, hsystem.waiting⟩, ?_, hpage⟩
    simp only [Chain.step, hserver]
  | emptyLog =>
    refine ⟨hsystem, hserver, ?_⟩
    simp only [Chain.step, hpage]
  | poll =>
    refine ⟨hsystem, hserver, ?_⟩
    simp only [Chain.step, hserver, hpage, hsystem.store]

def askToken (secret : String) : HttpRequest :=
  ⟨"POST", "/realms/scim/protocol/openid-connect/token", some "application/x-www-form-urlencoded",
    none, tokenRequest secret⟩

def tokenAnswer (token : String) : HttpResponse :=
  ⟨.finite false 200 3, some "application/json",
    ⟨"\x7b\"token_type\":\"Bearer\",\"access_token\":\"" ++ token ++ "\"\x7d",
      some (.obj [("token_type", .str "Bearer"), ("access_token", .str token)]), [], none⟩⟩

/-- A client asks Keycloak for a token and gets it, and the page shows both. -/
def tokenRun (secret token : String) : List Happening :=
  [.traffic (.proxied (askToken secret) "10:00:00"), .traffic (.delivered 0 "10:00:01"), .poll,
    .traffic (.answered 0 (tokenAnswer token) "10:00:02"), .traffic (.delivered 0 "10:00:03"),
    .poll]

end Watching

end OktaScim.WatchedTraffic
