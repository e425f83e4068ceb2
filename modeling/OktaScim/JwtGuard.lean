import OktaScim.JsStrings
import OktaScim.JsValues
import OktaScim.QueryNumbers

/-!
The guard in front of the SCIM routes, from `auth/jwt-auth.guard.ts`. A bearer
token is given to `jwtVerify`, its claims are written to the log, and the scope
is looked for in its payload. Of the log only what may throw is kept, since the
line about a verified token is put together where the failures of `jwtVerify`
are caught.
-/
namespace OktaScim.JwtGuard

open JsValues JsStrings QueryNumbers

section Guard

structure Config : Type where
  publicBaseUrl : String
  keycloakRealm : Option String
  keycloakIssuer : Option String
  keycloakAudience : Option String
  keycloakRequiredScope : Option String
  keycloakJwksUri : Option String

structure JwtAuthGuard : Type where
  issuer : String
  audience : Option String
  requiredScope : String
  jwks : String

/-- The constructor. -/
def JwtAuthGuard.ofConfig (config : Config) : JwtAuthGuard :=
  let issuer := (config.keycloakIssuer.filter (· ≠ "")).getD
    (config.publicBaseUrl ++ "/realms/" ++ config.keycloakRealm.getD "scim")
  { issuer
    audience := config.keycloakAudience.filter (· ≠ "")
    requiredScope := config.keycloakRequiredScope.getD "scim"
    jwks := (config.keycloakJwksUri.filter (· ≠ "")).getD
      (issuer ++ "/protocol/openid-connect/certs") }

structure VerifyOptions : Type where
  issuer : String
  audience : Option String

/-- What `jwtVerify` returns for a token that it accepts. -/
structure Verified : Type where
  payload : Json
  protectedHeader : Json

/-- `jwtVerify(token, jwks, options)`, `none` where it throws. -/
abbrev JwtVerify : Type := String → String → VerifyOptions → Option Verified

/-- What the guard reads of a request and what it attaches to it. -/
structure Request : Type where
  authorization : Option String
  auth : Option Json
  oauthClientId : Option Json

inductive Outcome : Type
  | activated
  | unauthorized (message : String)
  | typeError

/-- The claims that the line about a verified token shows as they are. -/
def shownClaims (v : Verified) : List (Option Json) :=
  [v.protectedHeader.get "alg", v.protectedHeader.get "kid", v.payload.get "iss",
    v.payload.get "sub",
    coalesce (v.payload.get "azp") (coalesce (v.payload.get "client_id") (some (.str "—"))),
    coalesce (v.payload.get "scope") (some (.str ""))]

/-- Whether `iso` returns: a date has a text up to 8.64e15 milliseconds. -/
def iso (n : Option Json) : Bool :=
  match n with
  | some (.num n) => n.atMost 8640000000000
  | _ => true

/-- Whether the line about a verified token can be put together. -/
def loggable (v : Verified) : Bool :=
  (shownClaims v).all (fun claim => (jsString claim).isSome) &&
    iso (v.payload.get "iat") && iso (v.payload.get "exp")

/-- `s.split(c)` -/
def split (s : String) (c : Char) : List String := (s.toList.splitOn c).map String.ofList

def hasRequiredScope (g : JwtAuthGuard) (payload : Json) : Bool :=
  let scopeClaim :=
    match payload.get "scope" with
    | some (.str s) => s
    | _ => ""
  (split scopeClaim ' ').contains g.requiredScope

def missingScope (g : JwtAuthGuard) : String :=
  "token missing required scope \"" ++ g.requiredScope ++ "\""

/-- The outcome, and the request after it. -/
def canActivate (jwtVerify : JwtVerify) (g : JwtAuthGuard) (req : Request) : Outcome × Request :=
  let header := req.authorization.getD ""
  if header = "" ∨ startsWith header "Bearer " = false then
    (.unauthorized "Bearer token required", req)
  else
    let token := String.ofList (trim (header.toList.drop 7))
    match jwtVerify token g.jwks ⟨g.issuer, g.audience⟩ with
    | none => (.unauthorized "invalid or expired access token", req)
    | some v =>
      if loggable v = false then (.unauthorized "invalid or expired access token", req)
      else if hasRequiredScope g v.payload = false then
        -- the warning shows the scope, outside of the block that catches
        match jsString (coalesce (v.payload.get "scope") (some (.str ""))) with
        | none => (.typeError, req)
        | some _ => (.unauthorized (missingScope g), req)
      else
        (.activated,
          { req with
            auth := some v.payload
            oauthClientId := coalesce (v.payload.get "azp")
              (coalesce (v.payload.get "client_id") (v.payload.get "sub")) })

end Guard

section Scopes

/-- An entry of a list separated by blanks. -/
def IsEntry (entry text : List Char) : Prop :=
  ∃ before after, text = before ++ entry ++ after ∧
    (before = [] ∨ ∃ b, before = b ++ [' ']) ∧ (after = [] ∨ ∃ a, after = ' ' :: a)

theorem isEntry_intercalate {l r : List (List Char)} {x : List Char} :
    IsEntry x ([' '].intercalate (l ++ x :: r)) := by
  have hright : ∃ after, [' '].intercalate (x :: r) = x ++ after ∧
      (after = [] ∨ ∃ a, after = ' ' :: a) := by
    cases r with
    | nil => exact ⟨[], by simp, .inl rfl⟩
    | cons y r => exact ⟨' ' :: [' '].intercalate (y :: r), by simp, .inr ⟨_, rfl⟩⟩
  obtain ⟨after, hafter, hstart⟩ := hright
  induction l with
  | nil => exact ⟨[], after, by simpa using hafter, .inl rfl, hstart⟩
  | cons y l ih =>
    obtain ⟨before, after', htext, hbefore, hafter'⟩ := ih
    refine ⟨y ++ ' ' :: before, after', ?_, .inr ?_, hafter'⟩
    · rw [List.cons_append, List.intercalate_cons_of_ne_nil (by simp), htext]
      simp
    · obtain rfl | ⟨b, rfl⟩ := hbefore
      · exact ⟨y, rfl⟩
      · exact ⟨y ++ ' ' :: b, by simp⟩

theorem mem_splitOn_iff {x text : List Char} (hx : ' ' ∉ x) :
    x ∈ text.splitOn ' ' ↔ IsEntry x text := by
  constructor
  · intro hmem
    obtain ⟨l, r, hparts⟩ := List.append_of_mem hmem
    have hends := isEntry_intercalate (l := l) (x := x) (r := r)
    rwa [← hparts, List.intercalate_splitOn] at hends
  · rintro ⟨before, after, rfl, hbefore, hafter⟩
    have hend : x ∈ (x ++ after).splitOn ' ' := by
      obtain rfl | ⟨a, rfl⟩ := hafter
      · simp [List.splitOn_eq_singleton hx]
      · simp [List.splitOn_append_cons_self_of_not_mem hx]
    obtain rfl | ⟨b, rfl⟩ := hbefore
    · simpa using hend
    · rw [List.append_assoc, List.append_assoc, List.singleton_append,
        List.splitOn_append_cons_self]
      exact List.mem_append_right _ hend

theorem mem_split_iff {s t : String} (ht : ' ' ∉ t.toList) :
    t ∈ split s ' ' ↔ IsEntry t.toList s.toList := by
  rw [← mem_splitOn_iff ht, split, List.mem_map]
  constructor
  · rintro ⟨cs, hcs, rfl⟩
    rwa [String.toList_ofList]
  · intro hmem
    exact ⟨t.toList, hmem, String.ofList_toList⟩

end Scopes

section Admission

variable (jwtVerify : JwtVerify) (g : JwtAuthGuard) (req : Request)

/-- The bearer token of the request, and what `jwtVerify` returns for it. -/
def Accepts (v : Verified) : Prop :=
  ∃ rest, req.authorization = some ("Bearer " ++ rest) ∧
    jwtVerify (String.ofList (trim rest.toList)) g.jwks ⟨g.issuer, g.audience⟩ = some v

def Granted (v : Verified) : Prop :=
  ∃ scope, v.payload.get "scope" = some (.str scope) ∧ IsEntry g.requiredScope.toList scope.toList

def Admissible : Prop := ∃ v, Accepts jwtVerify g req v ∧ Granted g v

/-- The guard admits what is admissible, and any other request is left as it is
by an exception. -/
def AdmitsExactly : Prop :=
  ((canActivate jwtVerify g req).1 = .activated ↔ Admissible jwtVerify g req) ∧
    (¬Admissible jwtVerify g req →
      ∃ message, canActivate jwtVerify g req = (.unauthorized message, req))

/-- Every claim that the log line shows has a text, and the times are in range. -/
structure Printable (v : Verified) : Prop where
  texts : ∀ claim ∈ shownClaims v, (jsString claim).isSome = true
  times : ∀ k ∈ ["iat", "exp"], ∀ n, v.payload.get k = some (.num n) →
    n.atMost 8640000000000 = true

variable {jwtVerify g req} {v : Verified}

theorem loggable_iff : loggable v = true ↔ Printable v := by
  have htime : ∀ k, iso (v.payload.get k) = true ↔
      ∀ n, v.payload.get k = some (.num n) → n.atMost 8640000000000 = true := by
    intro k
    unfold iso
    split
    · rename_i n hn
      simp [hn]
    · rename_i hother
      simp only [true_iff]
      exact fun n hn => absurd hn (hother n)
  rw [loggable, Bool.and_eq_true, Bool.and_eq_true, List.all_eq_true, htime, htime]
  constructor
  · rintro ⟨⟨htexts, hiat⟩, hexp⟩
    refine ⟨htexts, fun k hk => ?_⟩
    obtain rfl | hk := List.mem_cons.mp hk
    · exact hiat
    · rwa [List.mem_singleton.mp hk]
  · intro h
    exact ⟨⟨h.texts, h.times "iat" (by simp)⟩, h.times "exp" (by simp)⟩

theorem hasRequiredScope_iff (hne : g.requiredScope ≠ "") (hblank : ' ' ∉ g.requiredScope.toList) :
    hasRequiredScope g v.payload = true ↔ Granted g v := by
  unfold hasRequiredScope Granted
  rw [List.contains_iff_mem, mem_split_iff hblank]
  constructor
  · intro hentry
    split at hentry
    · exact ⟨_, ‹_›, hentry⟩
    · obtain ⟨before, after, htext, -⟩ := hentry
      have hnil : g.requiredScope.toList = [] := by
        have hparts := List.append_eq_nil_iff.mp htext.symm
        exact (List.append_eq_nil_iff.mp hparts.1).2
      exact absurd (String.toList_eq_nil_iff.mp hnil) hne
  · rintro ⟨scope, hscope, hentry⟩
    rw [hscope]
    exact hentry

theorem bearer_header {header : String} (h : startsWith header "Bearer " = true) :
    header = "Bearer " ++ String.ofList (header.toList.drop 7) := by
  obtain ⟨rest, hrest⟩ := List.isPrefixOf_iff_prefix.mp h
  have hdrop : header.toList.drop 7 = rest := by
    rw [← hrest]
    rfl
  apply String.toList_inj.mp
  have hback : (String.ofList rest).toList = rest := String.toList_ofList
  rw [hdrop, String.toList_append, hback, hrest]

/-- A request has one token. -/
theorem accepts_unique {w : Verified} (hv : Accepts jwtVerify g req v)
    (hw : Accepts jwtVerify g req w) : v = w := by
  obtain ⟨rest, hauth, hverify⟩ := hv
  obtain ⟨rest', hauth', hverify'⟩ := hw
  rw [hauth, Option.some_inj, String.append_right_inj] at hauth'
  rw [hauth', hverify'] at hverify
  exact (Option.some_inj.mp hverify).symm

/-- Without a bearer token that `jwtVerify` accepts a request is refused. -/
theorem canActivate_refused (h : ∀ v, ¬Accepts jwtVerify g req v) :
    ∃ message, canActivate jwtVerify g req = (.unauthorized message, req) := by
  unfold canActivate
  dsimp only
  split
  · exact ⟨_, rfl⟩
  · rename_i hheader
    obtain ⟨hne, hbearer⟩ := not_or.mp hheader
    have hstarts := Bool.eq_true_of_not_eq_false hbearer
    cases hv : jwtVerify (String.ofList (trim ((req.authorization.getD "").toList.drop 7))) g.jwks
        ⟨g.issuer, g.audience⟩ with
    | none => exact ⟨_, rfl⟩
    | some v =>
      refine absurd ⟨String.ofList ((req.authorization.getD "").toList.drop 7), ?_, ?_⟩ (h v)
      · rw [← bearer_header hstarts]
        cases hauth : req.authorization with
        | none => exact absurd (by rw [hauth]; rfl) hne
        | some header => rfl
      · rwa [String.toList_ofList]

/-- A token that is accepted is refused for its log line or for its scope. -/
theorem canActivate_accepted (h : Accepts jwtVerify g req v) :
    canActivate jwtVerify g req =
      if loggable v = false then (.unauthorized "invalid or expired access token", req)
      else if hasRequiredScope g v.payload = false then (.unauthorized (missingScope g), req)
      else (.activated,
        { req with
          auth := some v.payload
          oauthClientId := coalesce (v.payload.get "azp")
            (coalesce (v.payload.get "client_id") (v.payload.get "sub")) }) := by
  obtain ⟨rest, hauth, hv⟩ := h
  have hne : ¬("Bearer " ++ rest = "" ∨ startsWith ("Bearer " ++ rest) "Bearer " = false) := by
    rintro (hempty | hstarts)
    · have hlist := congrArg String.toList hempty
      simp at hlist
    · rw [startsWith, String.toList_append, List.isPrefixOf_iff_prefix.mpr
        (List.prefix_append _ _)] at hstarts
      contradiction
  have hdrop : ("Bearer " ++ rest).toList.drop 7 = rest.toList := by
    rw [String.toList_append]
    rfl
  simp only [canActivate, hauth, Option.getD_some, if_neg hne, hdrop, hv]
  by_cases hlog : loggable v = false
  · rw [if_pos hlog, if_pos hlog]
  · rw [if_neg hlog, if_neg hlog]
    -- the scope was already shown in the line about the token
    have hscope : (jsString (coalesce (v.payload.get "scope") (some (.str "")))).isSome = true := by
      refine (loggable_iff.mp (Bool.eq_true_of_not_eq_false hlog)).texts _ ?_
      simp [shownClaims]
    obtain ⟨s, hs⟩ := Option.isSome_iff_exists.mp hscope
    rw [hs]

/-- Whatever the guard lets through is admissible. -/
theorem admissible_of_activated (hne : g.requiredScope ≠ "")
    (hblank : ' ' ∉ g.requiredScope.toList) (h : (canActivate jwtVerify g req).1 = .activated) :
    Admissible jwtVerify g req := by
  by_cases hacc : ∃ v, Accepts jwtVerify g req v
  · obtain ⟨v, hv⟩ := hacc
    refine ⟨v, hv, (hasRequiredScope_iff hne hblank).mp ?_⟩
    by_contra hscope
    rw [Bool.not_eq_true] at hscope
    rw [canActivate_accepted hv, hscope] at h
    cases hlog : loggable v <;> simp [hlog] at h
  · obtain ⟨message, hrefused⟩ := canActivate_refused (not_exists.mp hacc)
    rw [hrefused] at h
    contradiction

/-- The guard admits exactly the verified tokens with the scope where the log
line about each of these can be put together. -/
theorem admits_exactly_iff (jwtVerify : JwtVerify) (g : JwtAuthGuard) (req : Request)
    (hne : g.requiredScope ≠ "") (hblank : ' ' ∉ g.requiredScope.toList) :
    AdmitsExactly jwtVerify g req ↔
      ∀ v, Accepts jwtVerify g req v → Granted g v → Printable v := by
  unfold AdmitsExactly
  by_cases hacc : ∃ v, Accepts jwtVerify g req v
  · obtain ⟨v, hv⟩ := hacc
    have hadm : Admissible jwtVerify g req ↔ Granted g v := by
      constructor
      · rintro ⟨w, hw, hgrant⟩
        rwa [accepts_unique hv hw]
      · exact fun hgrant => ⟨v, hv, hgrant⟩
    have hcond : (∀ w, Accepts jwtVerify g req w → Granted g w → Printable w) ↔
        (Granted g v → Printable v) := by
      constructor
      · exact fun h => h v hv
      · intro h w hw
        rw [accepts_unique hw hv]
        exact h
    rw [hadm, hcond, canActivate_accepted hv, ← hasRequiredScope_iff hne hblank, ← loggable_iff]
    cases hlog : loggable v with
    | false =>
      cases hasRequiredScope g v.payload with
      | false => simp
      | true => simp
    | true =>
      cases hasRequiredScope g v.payload with
      | false => simp
      | true => simp
  · have hnone : ∀ v, ¬Accepts jwtVerify g req v := fun v hv => hacc ⟨v, hv⟩
    obtain ⟨message, hrefused⟩ := canActivate_refused hnone
    have hnot : ¬Admissible jwtVerify g req := fun ⟨v, hv, _⟩ => hnone v hv
    rw [hrefused]
    constructor
    · exact fun _ v hv => absurd hv (hnone v)
    · intro _
      exact ⟨⟨fun h => absurd h (by simp), fun h => absurd h hnot⟩, fun _ => ⟨message, rfl⟩⟩

/-- A service that knows one token, whose payload grants the scope. -/
def oneToken (exp : JsNumber) : JwtVerify := fun token _ options =>
  if token = "abc.def.ghi" ∧ options.issuer = "https://scim.example.com/realms/scim" then
    some
      { payload := .obj [("iss", .str options.issuer), ("azp", .str "okta"),
          ("scope", .str "openid scim"), ("exp", .num exp)]
        protectedHeader := .obj [("alg", .str "RS256"), ("kid", .str "k1")] }
  else none

def sampleGuard : JwtAuthGuard :=
  .ofConfig ⟨"https://scim.example.com", none, none, none, none, none⟩

def sampleRequest : Request := ⟨some "Bearer abc.def.ghi ", none, none⟩

theorem admits_exactly_iff_sample :
    AdmitsExactly (oneToken (.finite false 17 10)) sampleGuard sampleRequest := by
  refine (admits_exactly_iff _ _ _ (by decide) (by decide)).mpr ?_
  rintro v ⟨rest, hauth, hv⟩ -
  obtain ⟨-, hv⟩ := (Option.ite_none_right_eq_some ..).mp hv
  obtain rfl := Option.some_inj.mp hv
  refine loggable_iff.mp ?_
  decide

/-- A token that expires in 10^13 seconds is verified and has the scope, but its
expiry has no text as a date. -/
theorem far_expiry_refused :
    ¬AdmitsExactly (oneToken (.finite false 1 14)) sampleGuard sampleRequest := by
  have hadmissible : Admissible (oneToken (.finite false 1 14)) sampleGuard sampleRequest := by
    refine ⟨_, ⟨"abc.def.ghi ", rfl, rfl⟩, "openid scim", rfl, "openid ".toList, [], by decide,
      .inr ⟨"openid".toList, by decide⟩, .inl rfl⟩
  have hrefused : (canActivate (oneToken (.finite false 1 14)) sampleGuard sampleRequest).1 =
      .unauthorized "invalid or expired access token" := rfl
  intro h
  rw [h.1.mpr hadmissible] at hrefused
  contradiction

end Admission

end OktaScim.JwtGuard
