import OktaScim.Endpoints
import OktaScim.JwtGuard

/-!
What stands before the handlers: the guard's exceptions and those of
`ValidationPipe`, as `ScimExceptionFilter` answers them. A call that the guard
refuses can be dropped from a session without anybody noticing.
-/
namespace OktaScim.FrontDoor

open PrismaClient Schema Representations Requests Endpoints JwtGuard

section Filter

/-- The `message` of an exception's response is a text or an array of texts. -/
inductive Message : Type
  | one (text : String)
  | many (texts : List String)

def Message.detail : Message → String
  | .one text => text
  | .many texts => ", ".intercalate texts

/-- `toScimError` for an `HttpException`. -/
def httpError (status : ℕ) (message : Message) : ScimError where
  status := status
  detail := message.detail
  scimType := if status = 409 then some "uniqueness" else none

/-- The answer of `ScimExceptionFilter`. -/
def errorAnswer (e : ScimError) : Answer :=
  ⟨e.status, .error ⟨[SCIM_ERROR_SCHEMA], toString e.status, e.scimType, e.detail⟩⟩

theorem answerOf_error (e : Exception) : answerOf (.error e) = errorAnswer (toScimError e) := rfl

/-- The exceptions that the services throw are instances. -/
theorem toScimError_http :
    (∀ message, toScimError (.notFound message) = httpError 404 (.one message)) ∧
      ∀ message, toScimError (.conflict message) = httpError 409 (.one message) :=
  ⟨fun _ => rfl, fun _ => rfl⟩

end Filter

section Front

variable (jwtVerify : JwtVerify) (g : JwtAuthGuard) (messages : ScimCall → List String)

/-- What is answered to a call that the guard does not let through. -/
def refusal (authorization : Option String) : Option Answer :=
  match (canActivate jwtVerify g ⟨authorization, none, none⟩).1 with
  | .activated => none
  | .unauthorized message => some (errorAnswer (httpError 401 (.one message)))
  | .typeError => some (errorAnswer internalServerError)

/-- The messages of a body that does not validate are the library's. -/
def frontOf : Front where
  guard := refusal jwtVerify g
  invalid call := errorAnswer (httpError 400 (.many (messages call)))

end Front

section Refusals

variable (front : Front)

/-- The call is one that the guard refuses. -/
def refused : HttpCall → Bool
  | .scim authorization _ => (front.guard authorization).isSome
  | .demoUsers => false

/-- The salts of the calls that stay when the refused ones are dropped. -/
def keptSalts (salts : ℕ → String) : List Turn → ℕ → String
  | [] => salts
  | turn :: turns =>
    if refused front turn.call then keptSalts (fun n => salts (n + 1)) turns
    else fun n =>
      match n with
      | 0 => salts 0
      | n + 1 => keptSalts (fun n => salts (n + 1)) turns n

variable {front} {env : Env}

theorem respond_refused {ticks : ℕ → Tick} {salt : String} {call : HttpCall} {s : Store}
    (h : refused front call = true) : ∃ authorization scim a, call = .scim authorization scim ∧
      front.guard authorization = some a ∧ respond front env ticks salt call s = (.scim a, s) := by
  cases call with
  | demoUsers => cases h
  | scim authorization scim =>
    obtain ⟨a, ha⟩ := Option.isSome_iff_exists.mp h
    exact ⟨authorization, scim, a, rfl, ha, by simp only [respond, ha]⟩

/-- The responses to the calls that the guard lets through, and the store in the
end, are those of the session without the refused calls; a refused call is
answered by the guard alone. By induction on the session. -/
theorem session_refusals (salts : ℕ → String) (turns : List Turn) (s : Store) :
    let all := session front env salts turns s
    let kept := session front env (keptSalts front salts turns)
      (turns.filter fun turn => !refused front turn.call) s
    kept.2 = all.2 ∧
      kept.1 = ((turns.zip all.1).filter fun p => !refused front p.1.call).map Prod.snd ∧
      ∀ p ∈ turns.zip all.1, refused front p.1.call = true →
        ∃ authorization scim a, p.1.call = .scim authorization scim ∧
          front.guard authorization = some a ∧ p.2 = .scim a := by
  induction turns generalizing salts s with
  | nil => exact ⟨rfl, rfl, fun p hp => by cases hp⟩
  | cons turn turns ih =>
    by_cases hrefused : refused front turn.call = true
    · obtain ⟨authorization, scim, a, hcall, ha, hrespond⟩ :=
        @respond_refused front env turn.ticks (salts 0) turn.call s hrefused
      obtain ⟨hstore, hresponses, hanswers⟩ := ih (fun n => salts (n + 1)) s
      simp only [session, hrespond, keptSalts, hrefused, if_true, List.filter_cons, Bool.not_true,
        Bool.false_eq_true, if_false, List.zip_cons_cons]
      refine ⟨hstore, hresponses, fun p hp hp' => ?_⟩
      rcases List.mem_cons.mp hp with rfl | hp
      · exact ⟨authorization, scim, a, hcall, ha, rfl⟩
      · exact hanswers p hp hp'
    · rw [Bool.not_eq_true] at hrefused
      obtain ⟨hstore, hresponses, hanswers⟩ := ih (fun n => salts (n + 1))
        (respond front env turn.ticks (salts 0) turn.call s).2
      simp only [session, keptSalts, hrefused, List.filter_cons, Bool.not_false, if_true,
        Bool.false_eq_true, if_false, List.zip_cons_cons, List.map_cons]
      refine ⟨hstore, congrArg _ hresponses, fun p hp hp' => ?_⟩
      rcases List.mem_cons.mp hp with rfl | hp
      · rw [hrefused] at hp'
        contradiction
      · exact hanswers p hp hp'

end Refusals

section Admission

variable {jwtVerify : JwtVerify} {g : JwtAuthGuard} {messages : ScimCall → List String}

theorem activated_of_refusal {authorization : Option String}
    (h : refusal jwtVerify g authorization = none) :
    (canActivate jwtVerify g ⟨authorization, none, none⟩).1 = .activated := by
  unfold refusal at h
  split at h
  · assumption
  · contradiction
  · contradiction

/-- Without an admissible token nothing can be changed or learned through the
routes of users and groups: in every session only calls with one reach the
store, the others are answered by the guard, and the session is as if these had
not been made. -/
theorem refused_calls_invisible (hne : g.requiredScope ≠ "")
    (hblank : ' ' ∉ g.requiredScope.toList) (env : Env) (salts : ℕ → String) (turns : List Turn)
    (s : Store) :
    let front := frontOf jwtVerify g messages
    let all := session front env salts turns s
    let kept := turns.filter fun turn => !refused front turn.call
    (∀ turn ∈ kept, ∀ authorization scim, turn.call = .scim authorization scim →
      Admissible jwtVerify g ⟨authorization, none, none⟩) ∧
      (session front env (keptSalts front salts turns) kept s).2 = all.2 ∧
      (session front env (keptSalts front salts turns) kept s).1 =
        ((turns.zip all.1).filter fun p => !refused front p.1.call).map Prod.snd ∧
      ∀ p ∈ turns.zip all.1, refused front p.1.call = true →
        ∃ authorization scim a, p.1.call = .scim authorization scim ∧
          refusal jwtVerify g authorization = some a ∧ p.2 = .scim a := by
  refine ⟨fun turn hturn authorization scim hcall => ?_, session_refusals salts turns s⟩
  obtain ⟨_, hkept⟩ := List.mem_filter.mp hturn
  rw [hcall] at hkept
  simp only [refused, frontOf, Bool.not_eq_true', Option.isSome_eq_false_iff,
    Option.isNone_iff_eq_none] at hkept
  exact admissible_of_activated hne hblank (activated_of_refusal hkept)

/-- A user is deleted without a token, and then read with one. -/
def intrusion : List Turn :=
  [⟨.scim none (.deleteUser "u"), sampleTicks⟩,
    ⟨.scim (some "Bearer abc.def.ghi") (.getUser "u"), sampleTicks⟩]

def sampleFront : Front := frontOf (oneToken (.finite false 17 10)) sampleGuard fun _ => []

/-- The read is answered as if nobody had asked for the deletion. -/
theorem refused_calls_invisible_sample :
    (session sampleFront sampleEnv (fun _ => "salt")
        [⟨.scim (some "Bearer abc.def.ghi") (.getUser "u"), sampleTicks⟩] sampleStore).2 =
      (session sampleFront sampleEnv (fun _ => "salt") intrusion sampleStore).2 ∧
    ∃ a, (session sampleFront sampleEnv (fun _ => "salt") intrusion sampleStore).1 =
      [.scim (errorAnswer (httpError 401 (.one "Bearer token required"))), .scim a] ∧
      (session sampleFront sampleEnv (fun _ => "salt")
        [⟨.scim (some "Bearer abc.def.ghi") (.getUser "u"), sampleTicks⟩] sampleStore).1 =
        [.scim a] := by
  have hinvisible := @refused_calls_invisible (oneToken (.finite false 17 10)) sampleGuard
    (fun _ => []) (by decide) (by decide) sampleEnv (fun _ => "salt") intrusion sampleStore
  exact ⟨hinvisible.2.1, _, rfl, hinvisible.2.2.1⟩

end Admission

end OktaScim.FrontDoor
