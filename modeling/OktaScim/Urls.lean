import Mathlib.Data.List.DropRight
import Mathlib.Data.List.TakeWhile
import Mathlib.Data.Nat.Notation

/-!
The URL standard's parser for a reference that is resolved against an http base
without a path, as `new URL(ref, base)` does. A host is parsed by a function
that is given. Windows drive letters in the path of a file URL are left as they
are.
-/
namespace OktaScim.Urls

section Characters

/-- A C0 control or a space, which are removed at both ends. -/
def isBlank (c : Char) : Bool := c.toNat ≤ 0x20

/-- Removed wherever it stands. -/
def isRemoved (c : Char) : Bool := c = '\t' || c = '\n' || c = '\r'

def strip (cs : List Char) : List Char :=
  ((cs.dropWhile isBlank).rdropWhile isBlank).filter fun c => !isRemoved c

def queryEncoded (c : Char) : Bool :=
  c.toNat ≤ 0x20 || 0x7e < c.toNat || ['"', '#', '<', '>'].contains c

/-- The query of a special scheme has the apostrophe encoded too. -/
def searchEncoded (special : Bool) (c : Char) : Bool := queryEncoded c || (special && c = '\x27')

/-- The current standard has `^` in this set, which older parsers leave as it is. -/
def pathEncoded (c : Char) : Bool :=
  queryEncoded c || ['?', '^', '\x60', '\x7b', '\x7d'].contains c

def hexDigit (n : ℕ) : Char := "0123456789ABCDEF".toList.getD n '0'

def percentEncode (c : Char) : List Char :=
  (String.utf8EncodeChar c).flatMap fun b => ['%', hexDigit (b.toNat / 16), hexDigit (b.toNat % 16)]

def encode (encoded : Char → Bool) (cs : List Char) : List Char :=
  cs.flatMap fun c => if encoded c then percentEncode c else [c]

/-- Special schemes take a backslash for a slash. -/
def isSlash (special : Bool) (c : Char) : Bool := c = '/' || (special && c = '\\')

end Characters

section Schemes

def isSchemeChar (c : Char) : Bool := c.isAlphanum || c = '+' || c = '-' || c = '.'

/-- The scheme of a reference and what follows its colon. -/
def schemeOf : List Char → Option (String × List Char)
  | [] => none
  | c :: cs =>
    if c.isAlpha then
      match cs.dropWhile isSchemeChar with
      | ':' :: rest =>
        some (String.ofList ((c :: cs.takeWhile isSchemeChar).map Char.toLower), rest)
      | _ => none
    else none

/-- The default port of a special scheme, other than that of files. -/
def defaultPort (scheme : String) : Option ℕ :=
  if scheme = "http" ∨ scheme = "ws" then some 80
  else if scheme = "https" ∨ scheme = "wss" then some 443
  else if scheme = "ftp" then some 21
  else none

end Schemes

/-- The parts that are asked for. A default port is the empty one. -/
structure Url : Type where
  hostname : String
  port : String
  pathname : List Char
  search : List Char

section Authorities

/-- The host and what follows its colon; a colon in brackets is one of the host. -/
def splitPort (inBrackets : Bool) : List Char → List Char × Option (List Char)
  | [] => ([], none)
  | c :: cs =>
    if c = ':' ∧ inBrackets = false then ([], some cs)
    else
      let r := splitPort (if c = '[' then true else if c = ']' then false else inBrackets) cs
      (c :: r.1, r.2)

def portOf (default : Option ℕ) (ds : List Char) : Option String :=
  let n := Nat.ofDigitChars 10 ds 0
  if ds.all Char.isDigit = false ∨ 65535 < n then none
  else if ds = [] ∨ default = some n then some ""
  else some (toString n)

/-- The host parser, for the hosts of special schemes and for others. -/
abbrev HostParser : Type := Bool → String → Option String

/-- The host and the port that an authority names, its credentials aside. -/
def parseAuthority (parseHost : HostParser) (default : Option ℕ) (authority : List Char) :
    Option (String × String) :=
  let special := default.isSome
  let hostport := (authority.reverse.takeWhile (· ≠ '@')).reverse
  let (host, port) := splitPort false hostport
  if host = [] then
    if special = true ∨ port.isSome = true ∨ '@' ∈ authority then none else some ("", "")
  else do
    let hostname ← parseHost special (String.ofList host)
    let port ← portOf default (port.getD [])
    some (hostname, port)

end Authorities

section Paths

def lower (s : List Char) : String := String.ofList (s.map Char.toLower)

def isSingleDot (s : List Char) : Bool := [".", "%2e"].contains (lower s)

def isDoubleDot (s : List Char) : Bool := ["..", ".%2e", "%2e.", "%2e%2e"].contains (lower s)

/-- The segments of a path with its dot segments resolved; a dot segment at the
end leaves an empty one. -/
def resolve (path : List (List Char)) : List (List Char) → List (List Char)
  | [] => path
  | [s] =>
    if isDoubleDot s then path.dropLast ++ [[]]
    else if isSingleDot s then path ++ [[]]
    else path ++ [s]
  | s :: t :: segments =>
    resolve (if isDoubleDot s then path.dropLast else if isSingleDot s then path else path ++ [s])
      (t :: segments)

def segmentsOf (special : Bool) (path : List Char) : List (List Char) :=
  match path with
  | [] => [[]]
  | c :: cs =>
    if isSlash special c then cs.splitOnP (isSlash special) else path.splitOnP (isSlash special)

def pathnameOf (special : Bool) (path : List Char) : List Char :=
  if path = [] ∧ special = false then []
  else (resolve [] (segmentsOf special path)).flatMap fun s => '/' :: encode pathEncoded s

def searchOf (special : Bool) (query : List Char) : List Char :=
  match query with
  | '?' :: c :: cs => '?' :: encode (searchEncoded special) (c :: cs)
  | _ => []

/-- What follows the authority, without a fragment. -/
def withPath (special : Bool) (hostname port : String) (rest : List Char) : Url where
  hostname := hostname
  port := port
  pathname := pathnameOf special (rest.takeWhile (· ≠ '?'))
  search := searchOf special (rest.dropWhile (· ≠ '?'))

end Paths

section References

def isTerminator (special : Bool) (c : Char) : Bool := isSlash special c || c = '?'

def withAuthority (parseHost : HostParser) (default : Option ℕ) (cs : List Char) : Option Url :=
  let special := default.isSome
  (parseAuthority parseHost default (cs.takeWhile fun c => !isTerminator special c)).map fun a =>
    withPath special a.1 a.2 (cs.dropWhile fun c => !isTerminator special c)

/-- After the slashes of a special scheme, of which there may be any number. -/
def specialAuthority (parseHost : HostParser) (port : ℕ) (cs : List Char) : Option Url :=
  withAuthority parseHost (some port) (cs.dropWhile (isSlash true))

structure Base : Type where
  hostname : String
  port : String

def relative (parseHost : HostParser) (base : Base) (cs : List Char) : Option Url :=
  match cs with
  | a :: b :: rest =>
    if isSlash true a && isSlash true b then specialAuthority parseHost 80 rest
    else some (withPath true base.hostname base.port cs)
  | cs => some (withPath true base.hostname base.port cs)

def isDriveLetter (s : List Char) : Bool :=
  match s with
  | [a, b] => a.isAlpha && (b = ':' || b = '|')
  | _ => false

/-- A file URL has no port. -/
def fileUrl (parseHost : HostParser) (cs : List Char) : Option Url :=
  match cs with
  | a :: b :: rest =>
    if isSlash true a && isSlash true b then
      let host := rest.takeWhile fun c => !isTerminator true c
      if host = [] ∨ isDriveLetter host = true then some (withPath true "" "" rest)
      else
        (parseHost true (String.ofList host)).map fun hostname =>
          withPath true (if hostname = "localhost" then "" else hostname) ""
            (rest.dropWhile fun c => !isTerminator true c)
    else some (withPath true "" "" cs)
  | cs => some (withPath true "" "" cs)

/-- A URL of a scheme that is not special. -/
def otherUrl (parseHost : HostParser) (cs : List Char) : Option Url :=
  match cs with
  | '/' :: '/' :: rest => withAuthority parseHost none rest
  | '/' :: _ => some (withPath false "" "" cs)
  | cs =>
    some
      { hostname := ""
        port := ""
        pathname := encode (fun c => c.toNat < 0x20 || 0x7e < c.toNat) (cs.takeWhile (· ≠ '?'))
        search := searchOf false (cs.dropWhile (· ≠ '?')) }

/-- A reference without a fragment, resolved against the base. -/
def resolveText (parseHost : HostParser) (base : Base) (cs : List Char) : Option Url :=
  match schemeOf cs with
  | none => relative parseHost base cs
  | some (scheme, rest) =>
    if scheme = "http" ∧ ['/', '/'].isPrefixOf rest = false then relative parseHost base rest
    else
      match defaultPort scheme with
      | some port => specialAuthority parseHost port rest
      | none => if scheme = "file" then fileUrl parseHost rest else otherUrl parseHost rest

def withoutFragment (cs : List Char) : List Char := cs.takeWhile (· ≠ '#')

/-- `new URL(ref, base)`, `none` where it throws. -/
def newUrl (parseHost : HostParser) (base : Base) (ref : List Char) : Option Url :=
  resolveText parseHost base (withoutFragment (strip ref))

end References

section Encoding

variable {encoded : Char → Bool}

/-- The characters of an escape are not encoded again. -/
def KeepsEscapes (encoded : Char → Bool) : Prop :=
  encoded '%' = false ∧ ∀ n < 16, encoded (hexDigit n) = false

theorem keepsEscapes_path : KeepsEscapes pathEncoded := by
  unfold KeepsEscapes
  decide

theorem keepsEscapes_search (special : Bool) : KeepsEscapes (searchEncoded special) := by
  unfold KeepsEscapes
  cases special with
  | true => decide
  | false => decide

theorem mem_percentEncode {c d : Char} (h : d ∈ percentEncode c) :
    d = '%' ∨ ∃ n < 16, d = hexDigit n := by
  obtain ⟨b, -, hd⟩ := List.mem_flatMap.mp h
  have hb := b.toNat_lt
  simp only [List.mem_cons, List.not_mem_nil, or_false] at hd
  obtain rfl | rfl | rfl := hd
  · exact .inl rfl
  · exact .inr ⟨b.toNat / 16, by omega, rfl⟩
  · exact .inr ⟨b.toNat % 16, by omega, rfl⟩

/-- A character of an encoded text is one that stayed or one of an escape. -/
theorem mem_encode {d : Char} {cs : List Char} (h : d ∈ encode encoded cs) :
    (d ∈ cs ∧ encoded d = false) ∨ d = '%' ∨ ∃ n < 16, d = hexDigit n := by
  obtain ⟨c, hc, hd⟩ := List.mem_flatMap.mp h
  split at hd
  · exact .inr (mem_percentEncode hd)
  · rename_i hkept
    rw [List.mem_singleton.mp hd]
    exact .inl ⟨hc, Bool.of_not_eq_true hkept⟩

theorem encoded_of_mem (hesc : KeepsEscapes encoded) {d : Char} {cs : List Char}
    (h : d ∈ encode encoded cs) : encoded d = false := by
  obtain ⟨-, hd⟩ | rfl | ⟨n, hn, rfl⟩ := mem_encode h
  · exact hd
  · exact hesc.1
  · exact hesc.2 n hn

theorem encode_of_kept {cs : List Char} (h : ∀ c ∈ cs, encoded c = false) :
    encode encoded cs = cs := by
  induction cs with
  | nil => rfl
  | cons c cs ih =>
    have hc := h c List.mem_cons_self
    rw [encode, List.flatMap_cons, hc]
    exact congrArg (c :: ·) (ih fun d hd => h d (List.mem_cons_of_mem _ hd))

theorem encode_eq_self_iff (hesc : KeepsEscapes encoded) (cs : List Char) :
    encode encoded cs = cs ↔ ∀ c ∈ cs, encoded c = false := by
  constructor
  · intro h c hc
    rw [← h] at hc
    exact encoded_of_mem hesc hc
  · exact encode_of_kept

end Encoding

section Segments

variable {special : Bool}

theorem flatMap_splitOnP {cs : List Char} (h : ∀ c ∈ cs, isSlash special c = true → c = '/') :
    (cs.splitOnP (isSlash special)).flatMap (fun s => '/' :: s) = '/' :: cs := by
  induction cs with
  | nil => rfl
  | cons c cs ih =>
    have hrest := ih fun d hd => h d (List.mem_cons_of_mem _ hd)
    rw [List.splitOnP_cons_eq_if_modifyHead]
    split
    · rename_i hc
      rw [List.flatMap_cons, hrest, h c List.mem_cons_self hc]
      rfl
    · cases hsplit : cs.splitOnP (isSlash special) with
      | nil => exact absurd hsplit (List.splitOnP_ne_nil _ _)
      | cons s segments =>
        rw [hsplit, List.flatMap_cons] at hrest
        have htail : s ++ segments.flatMap (fun s => '/' :: s) = cs := (List.cons.inj hrest).2
        rw [List.modifyHead_cons, List.flatMap_cons, List.cons_append, List.cons_append, htail]

theorem splitOnP_flatMap {s : List Char} {segments : List (List Char)}
    (h : ∀ t ∈ s :: segments, ∀ c ∈ t, isSlash special c = false) :
    (s ++ segments.flatMap (fun t => '/' :: t)).splitOnP (isSlash special) = s :: segments := by
  induction segments generalizing s with
  | nil =>
    rw [List.flatMap_nil, List.append_nil]
    exact List.splitOnP_eq_singleton (h s List.mem_cons_self)
  | cons t segments ih =>
    rw [List.flatMap_cons, List.cons_append]
    have hslash : isSlash special '/' = true := by cases special <;> decide
    rw [List.splitOnP_append_cons_of_forall_mem (h s List.mem_cons_self) '/' hslash,
      ih fun u hu => h u (List.mem_cons_of_mem _ hu)]

theorem mem_of_mem_splitOnP {cs s : List Char} (h : s ∈ cs.splitOnP (isSlash special)) :
    ∀ c ∈ s, c ∈ cs ∧ isSlash special c = false := by
  induction cs generalizing s with
  | nil =>
    intro c hc
    rw [List.splitOnP_nil, List.mem_singleton] at h
    rw [h] at hc
    contradiction
  | cons d cs ih =>
    rw [List.splitOnP_cons_eq_if_modifyHead] at h
    split at h
    · obtain rfl | hs := List.mem_cons.mp h
      · nofun
      · exact fun c hc => ⟨List.mem_cons_of_mem _ (ih hs c hc).1, (ih hs c hc).2⟩
    · rename_i hd
      cases hsplit : cs.splitOnP (isSlash special) with
      | nil => exact absurd hsplit (List.splitOnP_ne_nil _ _)
      | cons t segments =>
        rw [hsplit] at h ih
        obtain rfl | hs := List.mem_cons.mp h
        · intro c hc
          obtain rfl | hc := List.mem_cons.mp hc
          · exact ⟨List.mem_cons_self, Bool.of_not_eq_true hd⟩
          · have hct := ih List.mem_cons_self c hc
            exact ⟨List.mem_cons_of_mem _ hct.1, hct.2⟩
        · have hct := ih (List.mem_cons_of_mem _ hs)
          exact fun c hc => ⟨List.mem_cons_of_mem _ (hct c hc).1, (hct c hc).2⟩

def IsPlain (s : List Char) : Prop := isSingleDot s = false ∧ isDoubleDot s = false

theorem resolve_ne_nil (path : List (List Char)) {segments : List (List Char)}
    (h : segments ≠ []) : resolve path segments ≠ [] := by
  induction path, segments using resolve.induct with
  | case1 path => exact absurd rfl h
  | case2 path s hdouble => simp [resolve, hdouble]
  | case3 path s hdouble hsingle => simp [resolve, hdouble, hsingle]
  | case4 path s hdouble hsingle => simp [resolve, hdouble, hsingle]
  | case5 path s t segments ih =>
    rw [resolve]
    exact ih (by simp)

/-- What is resolved has no dot segments, and only segments that were there or
the empty one. -/
theorem mem_resolve {path segments : List (List Char)} {s : List Char}
    (h : s ∈ resolve path segments) : s ∈ path ∨ s = [] ∨ (s ∈ segments ∧ IsPlain s) := by
  induction path, segments using resolve.induct with
  | case1 path => exact .inl h
  | case2 path t hdouble =>
    rw [resolve, if_pos hdouble] at h
    obtain hs | hs := List.mem_append.mp h
    · exact .inl (List.dropLast_subset _ hs)
    · exact .inr (.inl (List.mem_singleton.mp hs))
  | case3 path t hdouble hsingle =>
    rw [resolve, if_neg hdouble, if_pos hsingle] at h
    obtain hs | hs := List.mem_append.mp h
    · exact .inl hs
    · exact .inr (.inl (List.mem_singleton.mp hs))
  | case4 path t hdouble hsingle =>
    rw [resolve, if_neg hdouble, if_neg hsingle] at h
    obtain hs | hs := List.mem_append.mp h
    · exact .inl hs
    · obtain rfl := List.mem_singleton.mp hs
      exact .inr (.inr ⟨hs, by simpa using hsingle, by simpa using hdouble⟩)
  | case5 path t u segments ih =>
    rw [resolve] at h
    obtain hs | hs | ⟨hs, hplain⟩ := ih h
    · split at hs
      · exact .inl (List.dropLast_subset _ hs)
      split at hs
      · exact .inl hs
      rename_i hdouble hsingle
      obtain hs | hs := List.mem_append.mp hs
      · exact .inl hs
      · obtain rfl := List.mem_singleton.mp hs
        exact .inr (.inr ⟨List.mem_cons_self, by simpa using hsingle, by simpa using hdouble⟩)
    · exact .inr (.inl hs)
    · exact .inr (.inr ⟨List.mem_cons_of_mem _ hs, hplain⟩)

theorem resolve_of_plain {path segments : List (List Char)} (h : ∀ s ∈ segments, IsPlain s) :
    resolve path segments = path ++ segments := by
  induction path, segments using resolve.induct with
  | case1 path => rw [resolve, List.append_nil]
  | case2 path t hdouble => exact absurd hdouble (by simp [(h t List.mem_cons_self).2])
  | case3 path t hdouble hsingle => exact absurd hsingle (by simp [(h t List.mem_cons_self).1])
  | case4 path t hdouble hsingle => rw [resolve, if_neg hdouble, if_neg hsingle]
  | case5 path t u segments ih =>
    have ht := h t List.mem_cons_self
    rw [resolve, ih fun s hs => h s (List.mem_cons_of_mem _ hs)]
    simp [ht.1, ht.2]

end Segments

section NormalForms

variable {special : Bool}

/-- A path that stays as it is. -/
def IsCleanPath (special : Bool) (path : List Char) : Prop :=
  (path = [] ∧ special = false) ∨
    (path.head? = some '/' ∧ (∀ c ∈ path, pathEncoded c = false ∧ (special = true → c ≠ '\\')) ∧
      ∀ s ∈ segmentsOf special path, IsPlain s)

def IsCleanQuery (special : Bool) (query : List Char) : Prop :=
  query = [] ∨ ∃ c cs, query = '?' :: c :: cs ∧ ∀ d ∈ c :: cs, searchEncoded special d = false

/-- A path and a query that stay as they are. -/
def IsClean (special : Bool) (cs : List Char) : Prop :=
  IsCleanPath special (cs.takeWhile (· ≠ '?')) ∧ IsCleanQuery special (cs.dropWhile (· ≠ '?'))

/-- The path and the query that are asked for. -/
def Url.requested (u : Url) : List Char := u.pathname ++ u.search

theorem segmentsOf_ne_nil (path : List Char) : segmentsOf special path ≠ [] := by
  unfold segmentsOf
  split
  · simp
  split
  · exact List.splitOnP_ne_nil _ _
  · exact List.splitOnP_ne_nil _ _

theorem mem_of_mem_segmentsOf {path s : List Char} (h : s ∈ segmentsOf special path) :
    ∀ c ∈ s, c ∈ path ∧ isSlash special c = false := by
  unfold segmentsOf at h
  split at h
  · rw [List.mem_singleton.mp h]
    nofun
  split at h
  · exact fun c hc =>
      ⟨List.mem_cons_of_mem _ (mem_of_mem_splitOnP h c hc).1, (mem_of_mem_splitOnP h c hc).2⟩
  · exact mem_of_mem_splitOnP h

theorem slash_isSlash : isSlash special '/' = true := rfl

theorem backslash_of_isSlash_eq_false {c : Char} (h : isSlash special c = false)
    (hspecial : special = true) : c ≠ '\\' := by
  rintro rfl
  rw [hspecial] at h
  contradiction

theorem pathnameOf_chars {path : List Char} {c : Char} (h : c ∈ pathnameOf special path) :
    pathEncoded c = false ∧ (special = true → c ≠ '\\') := by
  unfold pathnameOf at h
  split at h
  · contradiction
  obtain ⟨s, hs, hc⟩ := List.mem_flatMap.mp h
  obtain rfl | hc := List.mem_cons.mp hc
  · exact ⟨by decide, fun _ => by decide⟩
  refine ⟨encoded_of_mem keepsEscapes_path hc, ?_⟩
  have hhex : ∀ n < 16, hexDigit n ≠ '\\' := by decide
  obtain ⟨hmem, -⟩ | rfl | ⟨n, hn, rfl⟩ := mem_encode hc
  · obtain hnil | rfl | ⟨hs, -⟩ := mem_resolve hs
    · contradiction
    · contradiction
    · exact backslash_of_isSlash_eq_false (mem_of_mem_segmentsOf hs c hmem).2
  · exact fun _ => by decide
  · exact fun _ => hhex n hn

theorem pathnameOf_eq_cons {path : List Char} (h : ¬(path = [] ∧ special = false)) :
    ∃ cs, pathnameOf special path = '/' :: cs := by
  rw [pathnameOf, if_neg h]
  cases hsegments : resolve [] (segmentsOf special path) with
  | nil => exact absurd hsegments (resolve_ne_nil _ (segmentsOf_ne_nil path))
  | cons s segments => exact ⟨_, rfl⟩

theorem isCleanPath_of_pathnameOf {path : List Char} (h : pathnameOf special path = path) :
    IsCleanPath special path := by
  by_cases hempty : path = [] ∧ special = false
  · exact .inl hempty
  have hchars : ∀ c ∈ path, pathEncoded c = false ∧ (special = true → c ≠ '\\') := by
    intro c hc
    rw [← h] at hc
    exact pathnameOf_chars hc
  have hparts : ∀ s ∈ resolve [] (segmentsOf special path),
      IsPlain s ∧ ∀ c ∈ s, c ∈ path ∧ isSlash special c = false := by
    intro s hs
    obtain hnil | rfl | ⟨hs, hplain⟩ := mem_resolve hs
    · contradiction
    · exact ⟨by unfold IsPlain; decide, nofun⟩
    · exact ⟨hplain, mem_of_mem_segmentsOf hs⟩
  have hself : (resolve [] (segmentsOf special path)).flatMap (fun s => '/' :: s) = path := by
    refine Eq.trans (List.flatMap_congr fun s hs => ?_) ((if_neg hempty).symm.trans h)
    rw [encode_of_kept fun c hc => (hchars c ((hparts s hs).2 c hc).1).1]
  cases hsegments : resolve [] (segmentsOf special path) with
  | nil => exact absurd hsegments (resolve_ne_nil _ (segmentsOf_ne_nil path))
  | cons s segments =>
    rw [hsegments] at hparts hself
    rw [List.flatMap_cons] at hself
    have hagain : segmentsOf special path = s :: segments := by
      rw [← hself, List.cons_append, segmentsOf, if_pos slash_isSlash]
      exact splitOnP_flatMap fun t ht c hc => ((hparts t ht).2 c hc).2
    refine .inr ⟨by rw [← hself]; rfl, hchars, ?_⟩
    rw [hagain]
    exact fun t ht => (hparts t ht).1

theorem pathnameOf_of_isCleanPath {path : List Char} (h : IsCleanPath special path) :
    pathnameOf special path = path := by
  obtain hempty | ⟨hhead, hchars, hplain⟩ := h
  · rw [pathnameOf, if_pos hempty, hempty.1]
  · obtain ⟨cs, rfl⟩ := List.head?_eq_some_iff.mp hhead
    rw [pathnameOf, if_neg (by simp), resolve_of_plain hplain, List.nil_append]
    have hkept : ∀ s ∈ segmentsOf special ('/' :: cs),
        '/' :: encode pathEncoded s = '/' :: s := by
      intro s hs
      rw [encode_of_kept fun d hd => (hchars d (mem_of_mem_segmentsOf hs d hd).1).1]
    rw [List.flatMap_congr hkept, segmentsOf, if_pos slash_isSlash]
    refine flatMap_splitOnP fun d hd hslash => ?_
    have hback := (hchars d (List.mem_cons_of_mem _ hd)).2
    simp only [isSlash, Bool.or_eq_true, Bool.and_eq_true, decide_eq_true_eq] at hslash
    exact hslash.elim id fun h => absurd h.2 (hback h.1)

theorem pathnameOf_eq_self_iff (path : List Char) :
    pathnameOf special path = path ↔ IsCleanPath special path :=
  ⟨isCleanPath_of_pathnameOf, pathnameOf_of_isCleanPath⟩

theorem searchOf_eq_self_iff (query : List Char) :
    searchOf special query = query ↔ IsCleanQuery special query := by
  unfold searchOf
  split
  · rename_i c cs
    rw [List.cons_inj_right, encode_eq_self_iff (keepsEscapes_search special)]
    constructor
    · exact fun h => .inr ⟨c, cs, rfl, h⟩
    · rintro (hnil | ⟨d, ds, heq, h⟩)
      · contradiction
      · rwa [(List.cons.inj heq).2]
  · rename_i hother
    constructor
    · exact fun h => .inl h.symm
    · rintro (hnil | ⟨c, cs, heq, -⟩)
      · exact hnil.symm
      · exact absurd heq (hother c cs)

theorem searchOf_cases (query : List Char) : searchOf special query = [] ∨
    ∃ cs, searchOf special query = '?' :: cs ∧ ∀ c ∈ cs, searchEncoded special c = false := by
  unfold searchOf
  split
  · exact .inr ⟨_, rfl, fun c hc => encoded_of_mem (keepsEscapes_search special) hc⟩
  · exact .inl rfl

variable (hostname port : String)

/-- A path and a query stay as they are when they are clean, and only then. -/
theorem requested_eq_self_iff (rest : List Char) :
    (withPath special hostname port rest).requested = rest ↔ IsClean special rest := by
  unfold IsClean
  rw [← pathnameOf_eq_self_iff, ← searchOf_eq_self_iff]
  have hpath : ∀ c ∈ pathnameOf special (rest.takeWhile (· ≠ '?')),
      decide (c ≠ '?') = true := by
    intro c hc
    have hkept := (pathnameOf_chars hc).1
    refine decide_eq_true ?_
    rintro rfl
    contradiction
  have hsearch : (searchOf special (rest.dropWhile (· ≠ '?'))).takeWhile (· ≠ '?') = [] ∧
      (searchOf special (rest.dropWhile (· ≠ '?'))).dropWhile (· ≠ '?') =
        searchOf special (rest.dropWhile (· ≠ '?')) := by
    obtain hs | ⟨cs, hs, -⟩ := searchOf_cases (rest.dropWhile (· ≠ '?'))
    · rw [hs]
      exact ⟨rfl, rfl⟩
    · rw [hs]
      exact ⟨rfl, rfl⟩
  constructor
  · intro h
    have htake := congrArg (List.takeWhile (· ≠ '?')) h
    have hdrop := congrArg (List.dropWhile (· ≠ '?')) h
    simp only [Url.requested, withPath] at htake hdrop
    rw [List.takeWhile_append_of_pos hpath, hsearch.1, List.append_nil] at htake
    rw [List.dropWhile_append_of_pos hpath, hsearch.2] at hdrop
    exact ⟨htake, hdrop⟩
  · rintro ⟨htake, hdrop⟩
    rw [Url.requested, withPath, htake, hdrop, List.takeWhile_append_dropWhile]

theorem requested_chars {rest : List Char} {c : Char}
    (h : c ∈ (withPath special hostname port rest).requested) : queryEncoded c = false := by
  obtain hc | hc := List.mem_append.mp h
  · have hkept := (pathnameOf_chars hc).1
    simp only [pathEncoded, Bool.or_eq_false_iff] at hkept
    exact hkept.1
  · obtain hs | ⟨cs, hs, hkept⟩ := searchOf_cases (rest.dropWhile (· ≠ '?'))
    · rw [withPath, hs] at hc
      contradiction
    · rw [withPath, hs] at hc
      obtain rfl | hc := List.mem_cons.mp hc
      · rfl
      · have hsearch := hkept c hc
        simp only [searchEncoded, Bool.or_eq_false_iff] at hsearch
        exact hsearch.1

/-- A special scheme has a path that starts with a slash. -/
theorem requested_special (rest : List Char) :
    ∃ cs, (withPath true hostname port rest).requested = '/' :: cs := by
  have hspecial : ¬(rest.takeWhile (· ≠ '?') = [] ∧ true = false) := fun h => by
    exact absurd h.2 (by decide)
  obtain ⟨cs, hcs⟩ := pathnameOf_eq_cons hspecial
  exact ⟨cs ++ searchOf true (rest.dropWhile (· ≠ '?')), by rw [Url.requested, withPath, hcs]; rfl⟩

/-- No backslash is left in the path of a special scheme. -/
theorem requested_ne_backslash (rest cs : List Char) :
    (withPath true hostname port rest).requested ≠ '/' :: '\\' :: cs := by
  intro h
  simp only [Url.requested, withPath] at h
  obtain hs | ⟨query, hs, -⟩ := searchOf_cases (rest.dropWhile (· ≠ '?'))
  · rw [hs, List.append_nil] at h
    have hmem : '\\' ∈ pathnameOf true (rest.takeWhile (· ≠ '?')) := by
      rw [h]
      exact List.mem_cons_of_mem _ List.mem_cons_self
    exact (pathnameOf_chars hmem).2 rfl rfl
  · rw [hs] at h
    cases hpath : pathnameOf true (rest.takeWhile (· ≠ '?')) with
    | nil =>
      rw [hpath] at h
      exact absurd (List.cons.inj h).1 (by decide)
    | cons c path =>
      rw [hpath] at h
      have hnext := (List.cons.inj h).2
      cases path with
      | nil => exact absurd (List.cons.inj hnext).1 (by decide)
      | cons d path =>
        have hmem : '\\' ∈ pathnameOf true (rest.takeWhile (· ≠ '?')) := by
          rw [hpath, ← (List.cons.inj hnext).1]
          exact List.mem_cons_of_mem _ List.mem_cons_self
        exact (pathnameOf_chars hmem).2 rfl rfl

end NormalForms

section Results

variable {parseHost : HostParser} {base : Base} {u : Url}

theorem specialAuthority_eq_some {port : ℕ} {cs : List Char}
    (h : specialAuthority parseHost port cs = some u) :
    ∃ hostname p rest, u = withPath true hostname p rest := by
  obtain ⟨a, -, rfl⟩ := Option.map_eq_some_iff.mp h
  exact ⟨_, _, _, rfl⟩

theorem relative_eq_some {cs : List Char} (h : relative parseHost base cs = some u) :
    ∃ hostname p rest, u = withPath true hostname p rest := by
  unfold relative at h
  split at h
  · split at h
    · exact specialAuthority_eq_some h
    · exact ⟨_, _, _, (Option.some_inj.mp h).symm⟩
  · exact ⟨_, _, _, (Option.some_inj.mp h).symm⟩

theorem fileUrl_eq_some {cs : List Char} (h : fileUrl parseHost cs = some u) :
    ∃ hostname p rest, u = withPath true hostname p rest := by
  unfold fileUrl at h
  split at h
  · split at h
    · dsimp only at h
      split at h
      · exact ⟨_, _, _, (Option.some_inj.mp h).symm⟩
      · obtain ⟨hostname, -, rfl⟩ := Option.map_eq_some_iff.mp h
        exact ⟨_, _, _, rfl⟩
    · exact ⟨_, _, _, (Option.some_inj.mp h).symm⟩
  · exact ⟨_, _, _, (Option.some_inj.mp h).symm⟩

/-- Only two slashes give a URL of another scheme a port. -/
theorem otherUrl_eq_some {cs : List Char} (h : otherUrl parseHost cs = some u) :
    (∃ rest, cs = '/' :: '/' :: rest) ∨ u.port = "" := by
  unfold otherUrl at h
  split at h
  · exact .inl ⟨_, rfl⟩
  · rw [← Option.some_inj.mp h]
    exact .inr rfl
  · rw [← Option.some_inj.mp h]
    exact .inr rfl

/-- A reference gives a special URL, or one without a port, unless it names an
authority by another scheme. -/
theorem resolveText_eq_some {cs : List Char} (h : resolveText parseHost base cs = some u) :
    (∃ hostname p rest, u = withPath true hostname p rest) ∨ u.port = "" ∨
      ∃ scheme rest, schemeOf cs = some (scheme, '/' :: '/' :: rest) ∧ scheme ≠ "file" := by
  unfold resolveText at h
  split at h
  · exact .inl (relative_eq_some h)
  · rename_i scheme rest hscheme
    split at h
    · exact .inl (relative_eq_some h)
    split at h
    · exact .inl (specialAuthority_eq_some h)
    split at h
    · exact .inl (fileUrl_eq_some h)
    · rename_i hfile
      obtain ⟨after, rfl⟩ | hport := otherUrl_eq_some h
      · exact .inr (.inr ⟨scheme, after, hscheme, hfile⟩)
      · exact .inr (.inl hport)

theorem resolveText_slash (cs : List Char) :
    resolveText parseHost base ('/' :: cs) = relative parseHost base ('/' :: cs) := rfl

/-- A path is resolved against the base alone. -/
theorem resolveText_path {cs : List Char} (h : ∀ c ∈ cs.head?, isSlash true c = false) :
    resolveText parseHost base ('/' :: cs) =
      some (withPath true base.hostname base.port ('/' :: cs)) := by
  rw [resolveText_slash]
  cases cs with
  | nil => rfl
  | cons c cs =>
    have hc : isSlash true c = false := h c rfl
    rw [relative, hc, Bool.and_false]
    rfl

end Results

section Stripping

theorem isBlank_of_isRemoved {c : Char} (h : isRemoved c = true) : isBlank c = true := by
  simp only [isRemoved, Bool.or_eq_true, decide_eq_true_eq] at h
  obtain (rfl | rfl) | rfl := h
  · rfl
  · rfl
  · rfl

theorem filter_of_visible {cs : List Char} (h : ∀ c ∈ cs, isBlank c = false) :
    cs.filter (fun c => !isRemoved c) = cs := by
  refine List.filter_eq_self.mpr fun c hc => ?_
  cases hremoved : isRemoved c with
  | false => rfl
  | true =>
    have hblank := isBlank_of_isRemoved hremoved
    rw [h c hc] at hblank
    contradiction

theorem rdropWhile_of_last {cs rest : List Char} {c : Char} (hc : isBlank c = false) :
    (cs ++ c :: rest).rdropWhile isBlank = cs ++ c :: rest.rdropWhile isBlank := by
  have hlast : (c :: cs.reverse).dropWhile isBlank = c :: cs.reverse :=
    List.dropWhile_cons_of_neg (by simp [hc])
  rw [List.rdropWhile, List.rdropWhile, List.reverse_append, List.reverse_cons, List.append_assoc,
    List.singleton_append, List.dropWhile_append, hlast]
  split
  · rename_i hnil
    rw [List.isEmpty_iff.mp hnil]
    simp
  · simp

theorem append_fragment {ref front : List Char} (href : withoutFragment ref = front) :
    ref = front ++ ref.dropWhile (· ≠ '#') := by
  rw [← href, withoutFragment, List.takeWhile_append_dropWhile]

/-- After a visible end, blanks at the end go from the fragment alone. -/
theorem rdropWhile_fragment {ref front : List Char} (href : withoutFragment ref = front)
    (hlast : ∀ last ∈ front.getLast?, isBlank last = false) :
    ∃ tail, ref.rdropWhile isBlank = front ++ tail ∧ (tail = [] ∨ ∃ t, tail = '#' :: t) := by
  have hsplit := append_fragment href
  cases hdrop : ref.dropWhile (· ≠ '#') with
  | nil =>
    rw [hdrop, List.append_nil] at hsplit
    refine ⟨[], ?_, .inl rfl⟩
    rw [hsplit, List.append_nil]
    refine List.rdropWhile_eq_self_iff.mpr fun hne => ?_
    rw [hlast _ (List.getLast?_eq_some_getLast hne)]
    decide
  | cons c t =>
    have hsign : c = '#' := by
      have hhead := List.head?_dropWhile_not (fun c => decide (c ≠ '#')) ref
      rw [hdrop] at hhead
      simpa using hhead
    subst hsign
    rw [hdrop] at hsplit
    refine ⟨'#' :: t.rdropWhile isBlank, ?_, .inr ⟨_, rfl⟩⟩
    rw [hsplit, rdropWhile_of_last (by decide)]

/-- Between two visible ends only the removed characters go, and after a number
sign nothing matters. -/
theorem withoutFragment_strip {ref : List Char} {first : Char} {rest : List Char}
    (href : withoutFragment ref = first :: rest) (hfirst : isBlank first = false)
    (hlast : ∀ last ∈ (first :: rest).getLast?, isBlank last = false) :
    withoutFragment (strip ref) = (first :: rest).filter fun c => !isRemoved c := by
  have hnone : ∀ c ∈ (first :: rest).filter fun c => !isRemoved c, decide (c ≠ '#') = true := by
    intro c hc
    have hmem := List.mem_of_mem_filter hc
    rw [← href] at hmem
    have hsign := List.mem_takeWhile_imp hmem
    exact hsign
  have hfront : ref.dropWhile isBlank = ref := by
    rw [append_fragment href]
    exact List.dropWhile_cons_of_neg (by simp [hfirst])
  obtain ⟨tail, hstrip, htail⟩ := rdropWhile_fragment href hlast
  rw [strip, hfront, hstrip, List.filter_append, withoutFragment,
    List.takeWhile_append_of_pos hnone]
  obtain rfl | ⟨t, rfl⟩ := htail
  · simp
  · have hsign : ('#' :: t).filter (fun c => !isRemoved c) =
        '#' :: t.filter fun c => !isRemoved c := List.filter_cons_of_pos (by decide)
    rw [hsign, List.takeWhile_cons_of_neg (by decide), List.append_nil]

/-- Removed characters that a predicate passes over do not matter to it. -/
theorem dropWhile_filter {p q : Char → Bool} (hp : ∀ c, isRemoved c = true → p c = true)
    (hq : ∀ c, isRemoved c = false → q c = p c) (cs : List Char) :
    (cs.filter fun c => !isRemoved c).dropWhile q =
      (cs.dropWhile p).filter fun c => !isRemoved c := by
  induction cs with
  | nil => rfl
  | cons c cs ih =>
    cases hc : isRemoved c with
    | true =>
      rw [List.filter_cons_of_neg (by simp [hc]), List.dropWhile_cons_of_pos (hp c hc), ih]
    | false =>
      rw [List.filter_cons_of_pos (by simp [hc])]
      cases hpc : p c with
      | true =>
        rw [List.dropWhile_cons_of_pos hpc, List.dropWhile_cons_of_pos (by rw [hq c hc, hpc]), ih]
      | false =>
        have hqc : q c = false := by rw [hq c hc, hpc]
        rw [List.dropWhile_cons_of_neg (by simp [hqc]), List.dropWhile_cons_of_neg (by simp [hpc]),
          List.filter_cons_of_pos (by simp [hc])]

theorem takeWhile_filter {p q : Char → Bool} (hp : ∀ c, isRemoved c = true → p c = true)
    (hq : ∀ c, isRemoved c = false → q c = p c) (cs : List Char) :
    (cs.filter fun c => !isRemoved c).takeWhile q =
      (cs.takeWhile p).filter fun c => !isRemoved c := by
  induction cs with
  | nil => rfl
  | cons c cs ih =>
    cases hc : isRemoved c with
    | true =>
      rw [List.filter_cons_of_neg (by simp [hc]), List.takeWhile_cons_of_pos (hp c hc),
        List.filter_cons_of_neg (by simp [hc]), ih]
    | false =>
      rw [List.filter_cons_of_pos (by simp [hc])]
      cases hpc : p c with
      | true =>
        rw [List.takeWhile_cons_of_pos hpc, List.takeWhile_cons_of_pos (by rw [hq c hc, hpc]), ih,
          List.filter_cons_of_pos (by simp [hc])]
      | false =>
        have hqc : q c = false := by rw [hq c hc, hpc]
        rw [List.takeWhile_cons_of_neg (by simp [hqc]), List.takeWhile_cons_of_neg (by simp [hpc]),
          List.filter_nil]

theorem schemeChar_visible {c : Char} (h : isSchemeChar c = true) : isBlank c = false := by
  have hall : ∀ n ≤ 0x20, isSchemeChar (Char.ofNat n) = false := by decide
  refine decide_eq_false fun hle => ?_
  have hc := hall c.toNat hle
  rw [Char.ofNat_toNat, h] at hc
  contradiction

/-- A scheme is the same before any rest. -/
theorem schemeOf_eq_some {cs rest : List Char} {scheme : String}
    (h : schemeOf cs = some (scheme, rest)) :
    ∃ c name, c.isAlpha = true ∧ (∀ d ∈ c :: name, isBlank d = false) ∧
      cs = c :: name ++ ':' :: rest ∧
      ∀ x, schemeOf (c :: name ++ ':' :: x) = some (scheme, x) := by
  cases cs with
  | nil => contradiction
  | cons c cs =>
    rw [schemeOf] at h
    split at h
    · rename_i halpha
      split at h
      · rename_i rest' hrest
        obtain ⟨hscheme, rfl⟩ := Prod.mk.inj (Option.some_inj.mp h)
        have hname : ∀ d ∈ cs.takeWhile isSchemeChar, isSchemeChar d = true :=
          fun d hd => List.mem_takeWhile_imp hd
        have hvisible : ∀ d ∈ c :: cs.takeWhile isSchemeChar, isBlank d = false := by
          intro d hd
          obtain rfl | hd := List.mem_cons.mp hd
          · exact schemeChar_visible (by simp [isSchemeChar, Char.isAlphanum, halpha])
          · exact schemeChar_visible (hname d hd)
        refine ⟨c, cs.takeWhile isSchemeChar, halpha, hvisible, ?_, fun x => ?_⟩
        · rw [List.cons_append, ← hrest, List.takeWhile_append_dropWhile]
        · have hcolon : isSchemeChar ':' = false := by decide
          have htake : (':' :: x).takeWhile isSchemeChar = [] :=
            List.takeWhile_cons_of_neg (by simp [hcolon])
          have hdrop : (':' :: x).dropWhile isSchemeChar = ':' :: x :=
            List.dropWhile_cons_of_neg (by simp [hcolon])
          rw [List.cons_append, schemeOf, if_pos halpha, List.dropWhile_append_of_pos hname,
            List.takeWhile_append_of_pos hname, htake, hdrop, List.append_nil]
          simp only [hscheme]
      · contradiction
    · contradiction

end Stripping

end OktaScim.Urls
