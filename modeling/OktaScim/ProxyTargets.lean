import OktaScim.EdgeProxy
import OktaScim.Urls

/-!
Where the proxy sends a request on. The service of a captured request is chosen
by one prefix and that of any other request by three; the URL that a captured
request goes to is the request target resolved as a reference, which can name
another host.
-/
namespace OktaScim.ProxyTargets

open JsStrings EdgeProxy Urls

section Routing

/-- The target of the pass-through. -/
def passThrough (url : String) : Backend := if routeToScim url then .scim else .keycloak

/-- The service that answers. -/
def answering (url : String) : Backend :=
  let target := if url = "" then "/" else url
  if shouldCapture target then serviceFor url else passThrough target

/-- The captured request and the one passed through have the same service, so
that it does not depend on what is captured. -/
structure SameBackend (url : String) : Prop where
  service : serviceFor url = passThrough url
  answered : answering url = passThrough url

/-- Two prefixes of one length are one. -/
theorem eq_of_startsWith {url s t : String} (hs : startsWith url s = true)
    (ht : startsWith url t = true) (hlen : s.toList.length = t.toList.length) : s = t := by
  have hprefix := List.prefix_of_prefix_length_le (List.isPrefixOf_iff_prefix.mp hs)
    (List.isPrefixOf_iff_prefix.mp ht) (le_of_eq hlen)
  exact String.toList_inj.mp (List.IsPrefix.eq_of_length hprefix hlen)

theorem service_eq_iff (url : String) : serviceFor url = passThrough url ↔
    startsWith url "/docs" = false ∧ startsWith url "/demo" = false := by
  unfold serviceFor passThrough routeToScim
  cases hscim : startsWith url "/scim" with
  | true =>
    have hdocs : startsWith url "/docs" = false := by
      refine Bool.of_not_eq_true fun h => ?_
      exact absurd (eq_of_startsWith h hscim (by decide)) (by decide)
    have hdemo : startsWith url "/demo" = false := by
      refine Bool.of_not_eq_true fun h => ?_
      exact absurd (eq_of_startsWith h hscim (by decide)) (by decide)
    simp [hdocs, hdemo]
  | false =>
    cases startsWith url "/docs" with
    | true => simp
    | false =>
      cases startsWith url "/demo" with
      | true => simp
      | false => simp

/-- A request is answered by the service that it would be passed through to when
it is not captured, or when the two agree. -/
theorem answering_eq_iff (url : String) : answering url = passThrough url ↔
    shouldCapture url = false ∨ serviceFor url = passThrough url := by
  by_cases hempty : url = ""
  · subst hempty
    exact ⟨fun _ => .inl (by decide), fun _ => by decide⟩
  · unfold answering
    simp only [if_neg hempty]
    cases shouldCapture url with
    | true => simp
    | false => simp

theorem same_backend_iff (url : String) : SameBackend url ↔
    startsWith url "/docs" = false ∧ startsWith url "/demo" = false := by
  rw [← service_eq_iff]
  constructor
  · exact fun h => h.service
  · exact fun h => ⟨h, (answering_eq_iff url).mpr (.inr h)⟩

/-- A URL of the documentation that holds the path of the token endpoint is
captured, and then sent to Keycloak. -/
theorem docs_captured :
    shouldCapture "/docs?next=/protocol/openid-connect/token" = true ∧
      ¬SameBackend "/docs?next=/protocol/openid-connect/token" :=
  ⟨by decide, fun h => absurd h.answered (by decide)⟩

end Routing

section Targets

/-- The base that a URL is resolved against. -/
def baseOf (backend : Backend) : Base :=
  match backend with
  | .scim => ⟨"localhost", "3000"⟩
  | .keycloak => ⟨"localhost", "8080"⟩

/-- The arguments of `http.request`, with what stands for the missing ones. -/
structure Connection : Type where
  hostname : String
  port : String
  path : List Char

/-- `none` where `http.request` throws for a character of the path. -/
def connectionTo (u : Url) : Option Connection :=
  if u.requested.all (fun c => 0x21 ≤ c.toNat && c.toNat ≤ 0xff) then
    some
      { hostname := if u.hostname = "" then "localhost" else u.hostname
        port := if u.port = "" then "80" else u.port
        path := if u.requested = [] then ['/'] else u.requested }
  else none

/-- Where a captured request goes; `none` where an exception ends the process. -/
def upstream (parseHost : HostParser) (url : String) : Option Connection :=
  (newUrl parseHost (baseOf (serviceFor url)) url.toList).bind connectionTo

/-- A request target by how it starts: with the authority of a scheme, whose
default port is kept, with a path, or otherwise. -/
inductive Form : Type
  | authority (default : Option ℕ) (rest : List Char)
  | origin
  | other
deriving DecidableEq

def formOf (target : List Char) : Form :=
  match target with
  | '/' :: '/' :: rest => .authority (some 80) rest
  | '/' :: _ => .origin
  | _ =>
    match schemeOf target with
    | some (scheme, '/' :: '/' :: rest) =>
      if scheme = "file" then .other else .authority (defaultPort scheme) rest
    | _ => .other

/-- What is passed over before an authority. -/
def isSkipped (default : Option ℕ) (c : Char) : Bool :=
  (default.isSome && isSlash true c) || isRemoved c

def authorityOf (default : Option ℕ) (rest : List Char) : List Char :=
  ((rest.dropWhile (isSkipped default)).takeWhile fun c => !isTerminator default.isSome c).filter
    fun c => !isRemoved c

def afterAuthority (default : Option ℕ) (rest : List Char) : List Char :=
  (rest.dropWhile (isSkipped default)).dropWhile fun c => !isTerminator default.isSome c

/-- The path and the query that the client sent. -/
def sent (target : List Char) : List Char :=
  match formOf target with
  | .authority default rest => afterAuthority default rest
  | _ => target

/-- The request goes to one of the two backends, with the path and the query that
the client sent. -/
def Contained (parseHost : HostParser) (url : String) : Prop :=
  ∃ c, upstream parseHost url = some c ∧ c.hostname = "localhost" ∧
    (c.port = "3000" ∨ c.port = "8080") ∧ c.path = sent (withoutFragment url.toList)

/-- The authority names one of the two backends. -/
def NamesBackend (parseHost : HostParser) (default : Option ℕ) (authority : List Char) : Prop :=
  ∃ a, parseAuthority parseHost default authority = some a ∧
    (a.1 = "" ∨ a.1 = "localhost") ∧ (a.2 = "3000" ∨ a.2 = "8080")

/-- A path of the server itself, or the URL of one of the backends, that stays as
it is. -/
def IsDirect (parseHost : HostParser) (target : List Char) : Prop :=
  match formOf target with
  | .origin => IsClean true target
  | .authority default rest =>
    NamesBackend parseHost default (authorityOf default rest) ∧
      afterAuthority default rest ≠ [] ∧ IsClean default.isSome (afterAuthority default rest)
  | .other => False

end Targets

section Containment

variable {parseHost : HostParser} {base : Base}

theorem connectionTo_eq_some {u : Url} {c : Connection} (h : connectionTo u = some c) :
    (∀ d ∈ u.requested, 0x21 ≤ d.toNat) ∧
      c.hostname = (if u.hostname = "" then "localhost" else u.hostname) ∧
      c.port = (if u.port = "" then "80" else u.port) ∧
      c.path = (if u.requested = [] then ['/'] else u.requested) := by
  unfold connectionTo at h
  split at h
  · rename_i hall
    obtain rfl := Option.some_inj.mp h
    refine ⟨fun d hd => ?_, rfl, rfl, rfl⟩
    have hd' := List.all_eq_true.mp hall d hd
    simp only [Bool.and_eq_true, decide_eq_true_eq] at hd'
    exact hd'.1
  · contradiction

/-- A path that is asked for is neither empty nor has blanks in it. -/
theorem connection_path {u : Url} {c : Connection} (h : connectionTo u = some c) :
    c.path ≠ [] ∧ ∀ d ∈ c.path, isBlank d = false := by
  obtain ⟨hchars, -, -, hpath⟩ := connectionTo_eq_some h
  rw [hpath]
  split
  · exact ⟨by simp, List.forall_mem_singleton.mpr rfl⟩
  · rename_i hne
    refine ⟨hne, fun d hd => decide_eq_false ?_⟩
    have hd := hchars d hd
    omega

/-- The parser's own paths can be asked for. -/
theorem connectionTo_withPath (special : Bool) (hostname port : String) (rest : List Char) :
    ∃ c, connectionTo (withPath special hostname port rest) = some c := by
  refine ⟨_, if_pos (List.all_eq_true.mpr fun d hd => ?_)⟩
  have hkept := requested_chars hostname port hd
  simp only [queryEncoded, Bool.or_eq_false_iff, decide_eq_false_iff_not, not_le, not_lt] at hkept
  simp only [Bool.and_eq_true, decide_eq_true_eq]
  omega

/-- What comes before an authority is visible, and the parser passes over it. -/
theorem formOf_authority (parseHost : HostParser) (base : Base) {target rest : List Char}
    {default : Option ℕ}
    (h : formOf target = .authority default rest) :
    ∃ first front, (∀ c ∈ first :: front, isBlank c = false) ∧ target = first :: front ++ rest ∧
      ∀ x, resolveText parseHost base (first :: front ++ x) =
        withAuthority parseHost default
          (x.dropWhile fun c => default.isSome && isSlash true c) := by
  unfold formOf at h
  split at h
  · obtain ⟨rfl, rfl⟩ := Form.authority.inj h
    refine ⟨'/', ['/'], ?_, rfl, fun x => rfl⟩
    exact List.forall_mem_cons.mpr ⟨rfl, List.forall_mem_singleton.mpr rfl⟩
  · contradiction
  · split at h
    · rename_i scheme rest' hscheme
      split at h
      · contradiction
      rename_i hfile
      obtain ⟨hdefault, rfl⟩ := Form.authority.inj h
      obtain ⟨c, name, -, hvisible, htarget, hagain⟩ := schemeOf_eq_some hscheme
      refine ⟨c, name ++ [':', '/', '/'], ?_, by simp [htarget], fun x => ?_⟩
      · intro d hd
        rw [← List.cons_append] at hd
        obtain hd | hd := List.mem_append.mp hd
        · exact hvisible d hd
        · have hall := List.all_eq_true.mp (show [':', '/', '/'].all (!isBlank ·) = true by decide)
          simpa using hall d hd
      · have hfront :
            c :: (name ++ [':', '/', '/']) ++ x = c :: name ++ ':' :: '/' :: '/' :: x := by
          simp
        rw [hfront, resolveText, hagain]
        dsimp only
        rw [if_neg (by simp), ← hdefault]
        cases defaultPort scheme with
        | some port => rfl
        | none =>
          dsimp only
          rw [if_neg hfile, otherUrl]
          cases x with
          | nil => rfl
          | cons d x => rfl
    · contradiction

theorem afterAuthority_suffix (default : Option ℕ) (rest : List Char) :
    afterAuthority default rest <:+ rest :=
  (List.dropWhile_suffix _).trans (List.dropWhile_suffix _)

/-- A target with an authority goes where this leads, with the path that follows it. -/
theorem newUrl_authority {ref rest : List Char} {default : Option ℕ}
    (h : formOf (withoutFragment ref) = .authority default rest)
    (hne : afterAuthority default rest ≠ [])
    (hvisible : ∀ c ∈ afterAuthority default rest, isBlank c = false) :
    newUrl parseHost base ref = (parseAuthority parseHost default (authorityOf default rest)).map
      fun a => withPath default.isSome a.1 a.2 (afterAuthority default rest) := by
  obtain ⟨first, front, hfront, htarget, hresolve⟩ := formOf_authority parseHost base h
  obtain ⟨passed, hpassed⟩ := afterAuthority_suffix default rest
  have hlast : ∀ last ∈ (first :: (front ++ rest)).getLast?, isBlank last = false := by
    intro last hlast
    rw [← List.cons_append, ← hpassed, ← List.append_assoc, List.getLast?_append_of_ne_nil _ hne]
      at hlast
    exact hvisible last (List.mem_of_mem_getLast? hlast)
  have hskip : ∀ c, isRemoved c = false →
      (default.isSome && isSlash true c) = isSkipped default c := by
    intro c hc
    simp [isSkipped, hc]
  have hends : ∀ c, isRemoved c = true → (!isTerminator default.isSome c) = true := by
    intro c hc
    simp only [isRemoved, Bool.or_eq_true, decide_eq_true_eq] at hc
    obtain (rfl | rfl) | rfl := hc <;> cases default <;> rfl
  have hwhole : withoutFragment ref = first :: (front ++ rest) := htarget
  rw [newUrl, withoutFragment_strip hwhole (hfront first List.mem_cons_self) hlast,
    ← List.cons_append, List.filter_append, filter_of_visible hfront, hresolve,
    dropWhile_filter (p := isSkipped default) (fun c hc => by simp [isSkipped, hc]) hskip,
    withAuthority]
  rw [takeWhile_filter hends (fun _ _ => rfl), dropWhile_filter hends (fun _ _ => rfl),
    ← afterAuthority, filter_of_visible hvisible]
  rfl

/-- A URL is asked for at a backend, by the text that it was read from, when it
names the backend and the text is clean. -/
theorem reaches_iff (special : Bool) (hostname port : String) {rest : List Char}
    (hne : rest ≠ []) :
    (∃ c, connectionTo (withPath special hostname port rest) = some c ∧
      c.hostname = "localhost" ∧ (c.port = "3000" ∨ c.port = "8080") ∧ c.path = rest) ↔
      ((hostname = "" ∨ hostname = "localhost") ∧ (port = "3000" ∨ port = "8080")) ∧
        IsClean special rest := by
  obtain ⟨c, hc⟩ := connectionTo_withPath special hostname port rest
  obtain ⟨-, hhost, hport, hpath⟩ := connectionTo_eq_some hc
  have hhostIff : c.hostname = "localhost" ↔ hostname = "" ∨ hostname = "localhost" := by
    rw [hhost]
    by_cases hempty : hostname = ""
    · simp [withPath, hempty]
    · simp [withPath, hempty]
  have hportIff : (c.port = "3000" ∨ c.port = "8080") ↔ (port = "3000" ∨ port = "8080") := by
    rw [hport]
    by_cases hempty : port = ""
    · simp [withPath, hempty]
    · simp [withPath, hempty]
  have hpathIff : c.path = rest ↔ IsClean special rest := by
    rw [← requested_eq_self_iff hostname port, hpath]
    split
    · rename_i hnone
      rw [hnone]
      constructor
      · rintro rfl
        have hslash : ¬(['/'].takeWhile (· ≠ '?') = [] ∧ special = false) := by simp
        obtain ⟨cs, hcs⟩ := pathnameOf_eq_cons hslash
        rw [Url.requested, List.append_eq_nil_iff] at hnone
        exact absurd (hcs.symm.trans hnone.1) (by simp)
      · exact fun h => absurd h.symm hne
    · rfl
  constructor
  · rintro ⟨c', hc', hh, hp, hr⟩
    obtain rfl := Option.some_inj.mp (hc.symm.trans hc')
    exact ⟨⟨hhostIff.mp hh, hportIff.mp hp⟩, hpathIff.mp hr⟩
  · rintro ⟨⟨hh, hp⟩, hr⟩
    exact ⟨c, hc, hhostIff.mpr hh, hportIff.mpr hp, hpathIff.mpr hr⟩

theorem visible_of_clean {special : Bool} {cs : List Char} (h : IsClean special cs) :
    ∀ c ∈ cs, isBlank c = false := by
  intro c hc
  rw [← (requested_eq_self_iff "" "" cs).mpr h] at hc
  have hkept := requested_chars "" "" hc
  simp only [queryEncoded, Bool.or_eq_false_iff] at hkept
  exact hkept.1.1

theorem contained_authority {url : String} {rest : List Char} {default : Option ℕ}
    (h : formOf (withoutFragment url.toList) = .authority default rest) :
    Contained parseHost url ↔ NamesBackend parseHost default (authorityOf default rest) ∧
      afterAuthority default rest ≠ [] ∧
      IsClean default.isSome (afterAuthority default rest) := by
  have hsent : sent (withoutFragment url.toList) = afterAuthority default rest := by
    rw [sent, h]
  unfold Contained
  rw [hsent]
  by_cases hok : afterAuthority default rest ≠ [] ∧
      ∀ c ∈ afterAuthority default rest, isBlank c = false
  · obtain ⟨hne, hvisible⟩ := hok
    rw [upstream, newUrl_authority h hne hvisible, NamesBackend]
    cases parseAuthority parseHost default (authorityOf default rest) with
    | none => simp
    | some a =>
      have hreach := reaches_iff default.isSome a.1 a.2 hne
      rw [Option.map_some, Option.bind_some, hreach]
      constructor
      · rintro ⟨hnames, hclean⟩
        exact ⟨⟨a, rfl, hnames⟩, hne, hclean⟩
      · rintro ⟨⟨b, hb, hnames⟩, -, hclean⟩
        rw [← Option.some_inj.mp hb] at hnames
        exact ⟨hnames, hclean⟩
  · constructor
    · rintro ⟨c, hup, -, -, hpath⟩
      obtain ⟨u, -, hc⟩ := Option.bind_eq_some_iff.mp hup
      have hasked := connection_path hc
      rw [hpath] at hasked
      exact absurd hasked hok
    · rintro ⟨-, hne, hclean⟩
      exact absurd ⟨hne, visible_of_clean hclean⟩ hok

/-- A visible target without a fragment is the reference that is resolved. -/
theorem newUrl_visible {ref : List Char} {first : Char} {rest : List Char}
    (href : withoutFragment ref = first :: rest)
    (hvisible : ∀ c ∈ first :: rest, isBlank c = false) :
    newUrl parseHost base ref = resolveText parseHost base (first :: rest) := by
  rw [newUrl, withoutFragment_strip href (hvisible first List.mem_cons_self)
    (fun last hlast => hvisible last (List.mem_of_mem_getLast? hlast)), filter_of_visible hvisible]

theorem baseOf_names (backend : Backend) : (baseOf backend).hostname = "localhost" ∧
    ((baseOf backend).port = "3000" ∨ (baseOf backend).port = "8080") := by
  cases backend with
  | scim => exact ⟨rfl, .inl rfl⟩
  | keycloak => exact ⟨rfl, .inr rfl⟩

/-- A special URL is asked for by a path that starts with a slash. -/
theorem connection_special {hostname port : String} {rest : List Char} {c : Connection}
    (h : connectionTo (withPath true hostname port rest) = some c) :
    c.path = (withPath true hostname port rest).requested ∧ ∃ cs, c.path = '/' :: cs := by
  obtain ⟨cs, hcs⟩ := requested_special hostname port rest
  obtain ⟨-, -, -, hpath⟩ := connectionTo_eq_some h
  rw [if_neg (by simp [hcs])] at hpath
  exact ⟨hpath, cs, hpath.trans hcs⟩

/-- A target of the origin form has one slash first. -/
theorem formOf_origin {target : List Char} (h : formOf target = .origin) :
    ∃ rest, target = '/' :: rest ∧ ∀ cs, rest ≠ '/' :: cs := by
  unfold formOf at h
  split at h
  · contradiction
  · rename_i rest hother
    exact ⟨rest, rfl, hother⟩
  · split at h
    · split at h
      · contradiction
      · contradiction
    · contradiction

/-- A target of another form has no slash first, and no authority after its scheme. -/
theorem formOf_other {target : List Char} (h : formOf target = .other) :
    target.head? ≠ some '/' ∧ ∀ scheme rest,
      schemeOf target = some (scheme, '/' :: '/' :: rest) → scheme = "file" := by
  unfold formOf at h
  split at h
  · contradiction
  · contradiction
  · rename_i hnot
    refine ⟨fun hhead => ?_, fun scheme rest hscheme => ?_⟩
    · obtain ⟨rest, rfl⟩ := List.head?_eq_some_iff.mp hhead
      exact hnot rest rfl
    · rw [hscheme] at h
      by_contra hfile
      simp only [if_neg hfile] at h
      contradiction

theorem contained_origin {url : String}
    (h : formOf (withoutFragment url.toList) = .origin) :
    Contained parseHost url ↔ IsClean true (withoutFragment url.toList) := by
  have hsent : sent (withoutFragment url.toList) = withoutFragment url.toList := by
    rw [sent, h]
  obtain ⟨rest, htarget, hslash⟩ := formOf_origin h
  unfold Contained
  rw [hsent]
  rw [htarget] at hsent ⊢
  by_cases hvisible : ∀ c ∈ '/' :: rest, isBlank c = false
  · rw [upstream, newUrl_visible htarget hvisible]
    by_cases hback : ∃ cs, rest = '\\' :: cs
    · obtain ⟨cs, rfl⟩ := hback
      constructor
      · rintro ⟨c, hup, -, -, hpath⟩
        obtain ⟨u, hu, hc⟩ := Option.bind_eq_some_iff.mp hup
        rw [resolveText_slash] at hu
        obtain ⟨hostname, port, rest, rfl⟩ := relative_eq_some hu
        have hasked := (connection_special hc).1
        rw [hpath] at hasked
        exact absurd hasked.symm (requested_ne_backslash hostname port rest cs)
      · intro hclean
        exact absurd ((requested_eq_self_iff "" "" _).mpr hclean)
          (requested_ne_backslash "" "" _ cs)
    · have hone : ∀ c ∈ rest.head?, isSlash true c = false := by
        intro c hc
        obtain ⟨cs, rfl⟩ := List.head?_eq_some_iff.mp hc
        have hforward : c ≠ '/' := fun heq => hslash cs (by rw [heq])
        have hbackward : c ≠ '\\' := fun heq => hback ⟨cs, by rw [heq]⟩
        simp [isSlash, hforward, hbackward]
      have hnames := baseOf_names (serviceFor url)
      rw [resolveText_path hone, Option.bind_some, reaches_iff _ _ _ (List.cons_ne_nil _ _)]
      exact ⟨fun hreach => hreach.2, fun hclean => ⟨⟨.inr hnames.1, hnames.2⟩, hclean⟩⟩
  · constructor
    · rintro ⟨c, hup, -, -, hpath⟩
      obtain ⟨u, -, hc⟩ := Option.bind_eq_some_iff.mp hup
      have hasked := (connection_path hc).2
      rw [hpath] at hasked
      exact absurd hasked hvisible
    · exact fun hclean => absurd (visible_of_clean hclean) hvisible

theorem not_contained_other {url : String} (h : formOf (withoutFragment url.toList) = .other) :
    ¬Contained parseHost url := by
  rintro ⟨c, hup, -, hport, hpath⟩
  rw [sent, h] at hpath
  obtain ⟨u, hu, hc⟩ := Option.bind_eq_some_iff.mp hup
  have hasked := connection_path hc
  rw [hpath] at hasked
  cases htarget : withoutFragment url.toList with
  | nil => exact hasked.1 htarget
  | cons first rest =>
    rw [htarget] at h hpath hasked
    obtain ⟨hfirst, hscheme⟩ := formOf_other h
    rw [newUrl_visible htarget hasked.2] at hu
    obtain ⟨hostname, port, cs, rfl⟩ | hnone | ⟨scheme, after, hafter, hfile⟩ :=
      resolveText_eq_some hu
    · obtain ⟨-, ds, hds⟩ := connection_special hc
      rw [(List.cons.inj (hpath.symm.trans hds)).1] at hfirst
      exact hfirst rfl
    · obtain ⟨-, -, hconnect, -⟩ := connectionTo_eq_some hc
      rw [hnone, if_pos rfl] at hconnect
      rw [hconnect] at hport
      exact absurd hport (by decide)
    · exact hfile (hscheme scheme after hafter)

/-- A captured request stays with the two backends, and keeps its path and query,
when its target is a clean path or the URL of one of them with a clean path. -/
theorem contained_iff (parseHost : HostParser) (url : String) :
    Contained parseHost url ↔ IsDirect parseHost (withoutFragment url.toList) := by
  unfold IsDirect
  cases hform : formOf (withoutFragment url.toList) with
  | authority default rest => exact contained_authority hform
  | origin => exact contained_origin hform
  | other => exact iff_of_false (not_contained_other hform) id

/-- A target with two slashes first goes to the host after them. -/
theorem target_names_host :
    shouldCapture "//evil.example/protocol/openid-connect/token" = true ∧
      ¬Contained (fun _ host => some host) "//evil.example/protocol/openid-connect/token" := by
  have hform : formOf (withoutFragment
      "//evil.example/protocol/openid-connect/token".toList) =
        .authority (some 80) "evil.example/protocol/openid-connect/token".toList := by decide
  have hevil : parseAuthority (fun _ host => some host) (some 80)
      (authorityOf (some 80) "evil.example/protocol/openid-connect/token".toList) =
        some ("evil.example", "") := by decide
  refine ⟨by decide, fun h => ?_⟩
  obtain ⟨⟨a, ha, hhost, -⟩, -⟩ := (contained_authority hform).mp h
  rw [← Option.some_inj.mp (hevil.symm.trans ha)] at hhost
  exact absurd hhost (by decide)

end Containment

end OktaScim.ProxyTargets
