import OktaScim.QueryNumbers
import OktaScim.Requests

/-!
The endpoints as they are called over HTTP: with query parameters and bodies
that are still to be read, behind the guard and `ValidationPipe`. The demo's
user feed, which has neither, is from `demo.controller.ts`. What the guard and
the pipe answer in a handler's place is not looked into; it does not depend on
the tables.
-/
namespace OktaScim.Endpoints

open PrismaClient Schema JsValues ScimFilter QueryNumbers Bodies Representations Requests

section Demo

structure DemoUser : Type where
  id : String
  userName : String
  givenName : Option String
  familyName : Option String
  email : Option String
  active : Bool
  externalId : Option String
  createdAt : String
  updatedAt : String
  groups : List String
deriving DecidableEq

structure DemoUsers : Type where
  updatedAt : String
  totalUsers : ℕ
  activeUsers : ℕ
  totalGroups : ℕ
  users : List DemoUser
deriving DecidableEq

/-- ORDER BY "createdAt" DESC; rows that tie come as they are scanned. -/
def latestFirst (t : Tick) (a b : ScimUser) : Prop :=
  b.createdAt < a.createdAt ∨ (a.createdAt = b.createdAt ∧ t.scan a.id ≤ t.scan b.id)

instance (t : Tick) : DecidableRel (latestFirst t) := by
  intro a b
  unfold latestFirst
  infer_instance

/-- `include: { memberships: { include: { group: true } } }` -/
def groupsOf (s : Store) (u : ScimUser) : List ScimGroup :=
  (s.members.filter (fun m => m.userId = u.id)).filterMap fun m => s.group m.groupId

def usersWithGroups (t : Tick) (s : Store) : List (ScimUser × List ScimGroup) :=
  (s.users.insertionSort (latestFirst t)).map fun u => (u, groupsOf s u)

def demoUser (row : ScimUser × List ScimGroup) : DemoUser where
  id := row.1.id
  userName := row.1.userName
  givenName := row.1.givenName
  familyName := row.1.familyName
  email := row.1.email
  active := row.1.active
  externalId := row.1.externalId
  createdAt := toISOString row.1.createdAt
  updatedAt := toISOString row.1.updatedAt
  groups := row.2.map ScimGroup.displayName

/-- `DemoController.users` -/
def demoUsers (ticks : ℕ → Tick) (s : Store) : DemoUsers :=
  let users := usersWithGroups (ticks 0) s
  { updatedAt := toISOString (ticks 1).now
    totalUsers := users.length
    activeUsers := (users.filter fun row => row.1.active).length
    totalGroups := s.groups.length
    users := users.map demoUser }

end Demo

section Calls

/-- A call of the Users or Groups endpoints. A query parameter comes as a text. -/
inductive ScimCall : Type
  | listUsers (filter startIndex count : Option String)
  | getUser (id : String)
  | createUser (body : Json)
  | replaceUser (id : String) (body : Json)
  | patchUser (id : String) (body : Json)
  | deleteUser (id : String)
  | listGroups (filter startIndex count : Option String)
  | getGroup (id : String)
  | createGroup (body : Json)
  | replaceGroup (id : String) (body : Json)
  | patchGroup (id : String) (body : Json)
  | deleteGroup (id : String)

/-- The request that reaches the handler, unless its body does not validate.
The salt is the one that is drawn if a password is hashed. -/
def ScimCall.request (salt : String) : ScimCall → Option Request
  | .listUsers filter startIndex count =>
    some (.listUsers filter (parsePagination startIndex count))
  | .getUser id => some (.getUser id)
  | .createUser body => (readUserDto body).map (.createUser salt)
  | .replaceUser id body => (readUserDto body).map (.replaceUser salt id)
  | .patchUser id body => (readPatchBody body).map (.patchUser id)
  | .deleteUser id => some (.deleteUser id)
  | .listGroups filter startIndex count =>
    some (.listGroups filter (parsePagination startIndex count))
  | .getGroup id => some (.getGroup id)
  | .createGroup body => (readGroupDto body).map .createGroup
  | .replaceGroup id body => (readGroupDto body).map (.replaceGroup id)
  | .patchGroup id body => (readPatchBody body).map (.patchGroup id)
  | .deleteGroup id => some (.deleteGroup id)

inductive HttpCall : Type
  | scim (authorization : Option String) (call : ScimCall)
  | demoUsers

inductive Response : Type
  | scim (answer : Answer)
  | demo (users : DemoUsers)
deriving DecidableEq

/-- What answers in a handler's place: the guard, for a request that it does
not let through, and the pipe, for a body that does not validate. -/
structure Front : Type where
  guard : Option String → Option Answer
  invalid : ScimCall → Answer

def respond (front : Front) (env : Env) (ticks : ℕ → Tick) (salt : String) (call : HttpCall)
    (s : Store) : Response × Store :=
  match call with
  | .scim authorization call =>
    match front.guard authorization with
    | some refusal => (.scim refusal, s)
    | none =>
      match call.request salt with
      | some r => (.scim (answerOf (serve env ticks r s).1), (serve env ticks r s).2)
      | none => (.scim (front.invalid call), s)
  | .demoUsers => (.demo (demoUsers ticks s), s)

/-- A call with the clock, the ids and the row order of its time. -/
structure Turn : Type where
  call : HttpCall
  ticks : ℕ → Tick

/-- The responses to a sequence of calls, one after the other. -/
def session (front : Front) (env : Env) (salts : ℕ → String) :
    List Turn → Store → List Response × Store
  | [], s => ([], s)
  | turn :: turns, s =>
    let first := respond front env turn.ticks (salts 0) turn.call s
    let rest := session front env (fun n => salts (n + 1)) turns first.2
    (first.1 :: rest.1, rest.2)

end Calls

end OktaScim.Endpoints
