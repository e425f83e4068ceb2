import OktaScim.JsonText
import OktaScim.JwtGuard
import OktaScim.Redaction

/-!
The line that is logged for each request, from `common/logging.interceptor.ts`,
and what it tells of the body: everything but the values of the redacted keys.
-/
namespace OktaScim.LoggingInterceptor

open JsValues JsonText Redaction

section Lines

def REDACT_KEYS : List String := ["password", "client_secret", "secret", "authorization"]

def isRedacted (k : String) : Bool := REDACT_KEYS.contains (toLowerCase k)

def redactRule (k : String) : Option (Json → Json) :=
  if isRedacted k then some fun _ => .str "***" else none

def redact : Json → Json := redactBy redactRule

/-- What the line shows of a request beside its body. -/
structure LoggedRequest : Type where
  method : String
  originalUrl : String
  auth : Option Json
  oauthClientId : Option Json

def actor (r : LoggedRequest) : Option Json :=
  coalesce r.oauthClientId (coalesce (r.auth.bind (·.get "azp")) (some (.str "anonymous")))

def hasBody (body : Option Json) : Bool :=
  match body with
  | some (.arr items) => !items.isEmpty
  | some (.obj fields) => !fields.isEmpty
  | _ => false

def bodyStr (body : Option Json) : String :=
  if hasBody body then (body.elim "" fun v => " body=" ++ stringify (redact v)) else ""

/-- The line for a request; `none` where the client has no text. -/
def requestLine (r : LoggedRequest) (body : Option Json) : Option String :=
  (jsString (actor r)).map fun client =>
    "--> " ++ r.method ++ " " ++ r.originalUrl ++ " | client=" ++ client ++ bodyStr body

example : bodyStr (some (.obj [("userName", .str "ann"), ("Password", .str "abc")])) =
    " body=\x7b\"userName\":\"ann\",\"Password\":\"***\"\x7d" := by decide

end Lines

section Alike

theorem sameItems_iff (vs ws : List Json) : SameItems vs ws ↔ List.Forall₂ SameText vs ws := by
  induction vs generalizing ws with
  | nil => exact (List.forall₂_nil_left_iff).symm
  | cons v vs ih =>
    rw [SameItems, List.forall₂_cons_left_iff]
    constructor
    · rintro ⟨w, rest, rfl, hv, hrest⟩
      exact ⟨w, rest, hv, (ih rest).mp hrest, rfl⟩
    · rintro ⟨w, rest, hv, hrest, rfl⟩
      exact ⟨w, rest, rfl, hv, (ih rest).mpr hrest⟩

theorem sameFields_iff (vs ws : List (String × Json)) :
    SameFields vs ws ↔ List.Forall₂ (fun f g => f.1 = g.1 ∧ SameText f.2 g.2) vs ws := by
  induction vs generalizing ws with
  | nil => exact (List.forall₂_nil_left_iff).symm
  | cons f vs ih =>
    obtain ⟨k, v⟩ := f
    rw [SameFields, List.forall₂_cons_left_iff]
    constructor
    · rintro ⟨w, rest, rfl, hv, hrest⟩
      exact ⟨(k, w), rest, ⟨rfl, hv⟩, (ih rest).mp hrest, rfl⟩
    · rintro ⟨⟨l, w⟩, rest, ⟨hk, hv⟩, hrest, rfl⟩
      obtain rfl : k = l := hk
      exact ⟨w, rest, rfl, hv, (ih rest).mpr hrest⟩

theorem structural_sameText : Structural SameText where
  arr vs w := by simp only [SameText, sameItems_iff]
  obj vs w := by simp only [SameText, sameFields_iff]
  to_arr v ws h := by
    cases v with
    | arr vs => exact ⟨vs, rfl⟩
    | obj vs =>
      obtain ⟨ws', hw, -⟩ := h
      contradiction
    | _ => contradiction
  to_obj v ws h := by
    cases v with
    | obj vs => exact ⟨vs, rfl⟩
    | arr vs =>
      obtain ⟨ws', hw, -⟩ := h
      contradiction
    | _ => contradiction

/-- Equal but for the redacted keys and for what a text does not show. -/
abbrev LoggedAlike : Json → Json → Prop := Alike redactRule SameText

theorem stringify_redact_eq_iff (v w : Json) :
    stringify (redact v) = stringify (redact w) ↔ LoggedAlike v w := by
  rw [stringify_eq_iff, redact, redactBy_iff structural_sameText]

end Alike

end OktaScim.LoggingInterceptor
