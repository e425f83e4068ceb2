import OktaScim.Schema
import OktaScim.JsValues
import OktaScim.Programs
import Mathlib.Data.List.Infix
import Mathlib.Data.List.Sort
import Mathlib.Data.Rat.Floor

/-!
The Prisma client over the tables: what each call of the services reads and
writes, the error with which it fails without effect, and the referential
actions of the schema. Everything that Prisma draws from outside (ids, the
clock, the order of rows that tie under ORDER BY) is the call's `Tick`. How a
JSON value is read in a `where` clause or in update data is Prisma's: this
reading is an `Engine`, of which only what its laws say is fixed. Strings are
taken to hold no U+0000, which PostgreSQL refuses in every text.
-/
namespace OktaScim.PrismaClient

open Schema KeyedRows JsValues Programs

structure Tick : Type where
  uuid : String
  now : ℕ
  scan : String → ℕ

/-- A known request error by its code, or a `PrismaClientValidationError`. -/
inductive PrismaError : Type
  | P2002
  | P2003
  | P2023
  | P2025
  | other
  | validation
deriving DecidableEq

/-- What a handler can throw. -/
inductive Exception : Type
  | notFound (message : String)
  | conflict (message : String)
  | typeError
  | prisma (error : PrismaError)
deriving DecidableEq

/-- How Prisma reads a JSON value: as the filter of a `String` column, and as
the new content of a `String?` column. `none` is a validation error. -/
structure Engine : Type where
  stringFilter : Json → Option (String → Bool)
  stringUpdate : Json → Option (Nullable String)
  filter_str : ∀ s, stringFilter (.str s) = some (fun t => t == s)
  update_str : ∀ s, stringUpdate (.str s) = some (.value s)
  update_null : stringUpdate .null = some .null

/-- The strings of a JSON list, when it holds nothing else. -/
def stringItems : List Json → Option (List String)
  | [] => some []
  | .str s :: items => (stringItems items).map (s :: ·)
  | _ :: _ => none

/-- A sample reading, for runs on fixed inputs: some filters of one condition
and the plain updates. Prisma reads more than these. -/
def sampleEngine : Engine where
  stringFilter
    | .str s => some (fun t => t == s)
    | .obj [] => some (fun _ => true)
    | .obj [("equals", .str s)] => some (fun t => t == s)
    | .obj [("not", .str s)] => some (fun t => t != s)
    | .obj [("in", .arr items)] => (stringItems items).map fun ss t => ss.contains t
    | .obj [("contains", .str s)] => some (fun t => decide (s.toList.IsInfix t.toList))
    | _ => none
  stringUpdate
    | .str s => some (.value s)
    | .null => some .null
    | .obj [("set", .str s)] => some (.value s)
    | .obj [("set", .null)] => some .null
    | _ => none
  filter_str _ := rfl
  update_str _ := rfl
  update_null := rfl

structure UserCreateData : Type where
  userName : String
  externalId : Nullable String
  givenName : Nullable String
  familyName : Nullable String
  email : Nullable String
  active : Bool
  passwordHash : Option String

/-- Update data; a missing entry leaves its column as it is. -/
structure UserUpdateData : Type where
  userName : Option String
  externalId : Option Json
  givenName : Option Json
  familyName : Option Json
  email : Option Json
  active : Option Bool
  passwordHash : Option String

/-- The members of a nested create are the `userId`s given for the new rows. -/
structure GroupCreateData : Type where
  displayName : String
  externalId : Nullable String
  members : List (Option String)

structure GroupUpdateData : Type where
  displayName : Option String
  externalId : Nullable String
  members : List (Option String)

structure GroupWithMembers : Type where
  group : ScimGroup
  members : List (ScimGroupMember × ScimUser)
deriving DecidableEq

inductive BatchOp : Type
  | memberDeleteMany (groupId : Option String) (userId : Option Json)
  | memberUpsert (groupId : String) (userId : Json)
  | groupUpdate (id : String) (data : GroupUpdateData)

section Rows

/-- The content of a column after data was written over it. -/
def writeColumn (data : Nullable String) (old : Option String) : Option String :=
  match data with
  | .undefined => old
  | .null => none
  | .value a => some a

def newUser (t : Tick) (data : UserCreateData) : ScimUser where
  id := t.uuid
  externalId := writeColumn data.externalId none
  userName := data.userName
  givenName := writeColumn data.givenName none
  familyName := writeColumn data.familyName none
  email := writeColumn data.email none
  active := data.active
  passwordHash := data.passwordHash
  createdAt := t.now
  updatedAt := t.now

/-- Update data as read by the engine. -/
structure UserUpdate : Type where
  userName : Option String
  externalId : Nullable String
  givenName : Nullable String
  familyName : Nullable String
  email : Nullable String
  active : Option Bool
  passwordHash : Option String
deriving DecidableEq

/-- Data with nothing to write. -/
def UserUpdate.nothing : UserUpdate where
  userName := none
  externalId := .undefined
  givenName := .undefined
  familyName := .undefined
  email := .undefined
  active := none
  passwordHash := none

def updateColumn (E : Engine) (data : Option Json) : Option (Nullable String) :=
  match data with
  | none => some .undefined
  | some v => E.stringUpdate v

def UserUpdateData.read (E : Engine) (data : UserUpdateData) : Option UserUpdate := do
  let externalId ← updateColumn E data.externalId
  let givenName ← updateColumn E data.givenName
  let familyName ← updateColumn E data.familyName
  let email ← updateColumn E data.email
  return {
    userName := data.userName
    externalId := externalId
    givenName := givenName
    familyName := familyName
    email := email
    active := data.active
    passwordHash := data.passwordHash
  }

/-- Without anything to write the row is left as it is, `@updatedAt` included. -/
def UserUpdate.apply (data : UserUpdate) (now : ℕ) (u : ScimUser) : ScimUser where
  id := u.id
  externalId := writeColumn data.externalId u.externalId
  userName := data.userName.getD u.userName
  givenName := writeColumn data.givenName u.givenName
  familyName := writeColumn data.familyName u.familyName
  email := writeColumn data.email u.email
  active := data.active.getD u.active
  passwordHash := data.passwordHash.or u.passwordHash
  createdAt := u.createdAt
  updatedAt := if data = .nothing then u.updatedAt else now

def newGroup (t : Tick) (data : GroupCreateData) : ScimGroup where
  id := t.uuid
  externalId := writeColumn data.externalId none
  displayName := data.displayName
  createdAt := t.now
  updatedAt := t.now

/-- The data of a group's update; no caller leaves it empty. -/
def updateGroup (now : ℕ) (displayName : Option String) (externalId : Nullable String)
    (g : ScimGroup) : ScimGroup where
  id := g.id
  externalId := writeColumn externalId g.externalId
  displayName := displayName.getD g.displayName
  createdAt := g.createdAt
  updatedAt := now

/-- A written column depends on its old content only when nothing is written. -/
theorem writeColumn_eq_iff (data : Nullable String) (old old' : Option String) :
    writeColumn data old = writeColumn data old' ↔ (data = .undefined → old = old') := by
  cases data with
  | undefined => simp [writeColumn]
  | null => simp [writeColumn]
  | value s => simp [writeColumn]

@[simp] theorem newUser_id (t : Tick) (data : UserCreateData) : (newUser t data).id = t.uuid := rfl

@[simp] theorem newUser_userName (t : Tick) (data : UserCreateData) :
    (newUser t data).userName = data.userName := rfl

@[simp] theorem apply_id (data : UserUpdate) (now : ℕ) (u : ScimUser) :
    (data.apply now u).id = u.id := rfl

theorem nothing_apply (now : ℕ) (u : ScimUser) : UserUpdate.nothing.apply now u = u := by
  simp [UserUpdate.apply, UserUpdate.nothing, writeColumn]

theorem apply_updatedAt {data : UserUpdate} (h : data ≠ .nothing) (now : ℕ) (u : ScimUser) :
    (data.apply now u).updatedAt = now := if_neg h

@[simp] theorem newGroup_id (t : Tick) (data : GroupCreateData) :
    (newGroup t data).id = t.uuid := rfl

@[simp] theorem newGroup_displayName (t : Tick) (data : GroupCreateData) :
    (newGroup t data).displayName = data.displayName := rfl

@[simp] theorem updateGroup_id (now : ℕ) (displayName : Option String)
    (externalId : Nullable String) (g : ScimGroup) :
    (updateGroup now displayName externalId g).id = g.id := rfl

end Rows

section Users

def userCreate (t : Tick) (data : UserCreateData) (s : Store) :
    Except PrismaError (ScimUser × Store) :=
  if (s.user t.uuid).isSome ∨ (s.userNamed data.userName).isSome then .error .P2002
  else .ok (newUser t data, { s with users := s.users ++ [newUser t data] })

/-- Another row than `id` holds the user name. -/
def userNameTaken (s : Store) (id userName : String) : Bool :=
  s.users.any (fun u => u.id ≠ id ∧ u.userName = userName)

def userUpdate (E : Engine) (t : Tick) (id : String) (data : UserUpdateData) (s : Store) :
    Except PrismaError (ScimUser × Store) :=
  match data.read E with
  | none => .error .validation
  | some upd =>
    match s.user id with
    | none => .error .P2025
    | some u =>
      if userNameTaken s id (upd.apply t.now u).userName then .error .P2002
      else .ok (upd.apply t.now u,
        { s with users := modifyRow ScimUser.id id (upd.apply t.now) s.users })

def userDelete (id : String) (s : Store) : Except PrismaError (Unit × Store) :=
  match s.user id with
  | none => .error .P2025
  | some _ => .ok ((), { s with
      users := eraseRow ScimUser.id id s.users
      members := eraseRow ScimGroupMember.userId id s.members })

/-- ORDER BY "createdAt"; rows that tie come as they are scanned. -/
def listBefore {α : Type} (createdAt : α → ℕ) (id : α → String) (t : Tick) (a b : α) : Prop :=
  createdAt a < createdAt b ∨ (createdAt a = createdAt b ∧ t.scan (id a) ≤ t.scan (id b))

instance {α : Type} (createdAt : α → ℕ) (id : α → String) (t : Tick) :
    DecidableRel (listBefore createdAt id t) := by
  intro a b
  unfold listBefore
  infer_instance

/-- Prisma takes a number as a 64-bit integer, when its whole part is one. -/
def FitsInt64 (q : ℚ) : Prop := q < 2 ^ 63

instance (q : ℚ) : Decidable (FitsInt64 q) := by
  unfold FitsInt64
  infer_instance

/-- `skip` and `take` of a query, which no caller makes negative. -/
def window {α : Type} (skip take : ℚ) (rows : List α) : Except PrismaError (List α) :=
  if FitsInt64 skip ∧ FitsInt64 take then .ok ((rows.drop ⌊skip⌋₊).take ⌊take⌋₊)
  else .error .other

def matchingUsers (userName : Option String) (s : Store) : List ScimUser :=
  match userName with
  | none => s.users
  | some n => s.users.filter (fun u => u.userName = n)

/-- `$transaction([count, findMany])` on users. -/
def userList (t : Tick) (userName : Option String) (skip take : ℚ) (s : Store) :
    Except PrismaError ((ℕ × List ScimUser) × Store) :=
  let rows := matchingUsers userName s
  match window skip take
      (rows.insertionSort (listBefore ScimUser.createdAt ScimUser.id t)) with
  | .ok page => .ok ((rows.length, page), s)
  | .error e => .error e

end Users

section Groups

/-- The `members: { include: { user: true } }` of a group. -/
def withMembers (s : Store) (g : ScimGroup) : GroupWithMembers where
  group := g
  members := (s.members.filter (fun m => m.groupId = g.id)).filterMap
    (fun m => (s.user m.userId).map (m, ·))

def insertMember (m : ScimGroupMember) (s : Store) : Except PrismaError Store :=
  if m ∈ s.members then .error .P2002
  else if (s.group m.groupId).isSome ∧ (s.user m.userId).isSome then
    .ok { s with members := s.members ++ [m] }
  else .error .P2003

def insertMembers (groupId : String) : List String → Store → Except PrismaError Store
  | [], s => .ok s
  | u :: us, s =>
    match insertMember ⟨groupId, u⟩ s with
    | .ok s' => insertMembers groupId us s'
    | .error e => .error e

/-- The `userId`s of a nested create, all of which must be given. -/
def readMembers (members : List (Option String)) : Option (List String) :=
  members.mapM id

def groupCreate (t : Tick) (data : GroupCreateData) (s : Store) :
    Except PrismaError (GroupWithMembers × Store) :=
  match readMembers data.members with
  | none => .error .validation
  | some userIds =>
    if (s.group t.uuid).isSome ∨ (s.groupNamed data.displayName).isSome then .error .P2002
    else
      match insertMembers t.uuid userIds { s with groups := s.groups ++ [newGroup t data] } with
      | .ok s' => .ok (withMembers s' (newGroup t data), s')
      | .error e => .error e

/-- Another row than `id` holds the display name. -/
def displayNameTaken (s : Store) (id displayName : String) : Bool :=
  s.groups.any (fun g => g.id ≠ id ∧ g.displayName = displayName)

/-- A write of a batch as read by the engine. -/
inductive Write : Type
  | memberDeleteMany (groupId : Option String) (userId : String → Bool)
  | memberUpsert (groupId userId : String)
  | groupUpdate (id : String) (displayName : Option String) (externalId : Nullable String)
      (userIds : List String)

/-- The filter of a `String` column; `undefined` drops the condition. -/
def readFilter (E : Engine) (value : Option Json) : Option (String → Bool) :=
  match value with
  | none => some (fun _ => true)
  | some v => E.stringFilter v

/-- The members named by a unique `where` and by create data must be strings. -/
def BatchOp.read (E : Engine) : BatchOp → Option Write
  | .memberDeleteMany groupId userId =>
    (readFilter E userId).map (.memberDeleteMany groupId)
  | .memberUpsert groupId (.str u) => some (.memberUpsert groupId u)
  | .memberUpsert _ _ => none
  | .groupUpdate id data =>
    (readMembers data.members).map (.groupUpdate id data.displayName data.externalId)

def Write.exec (t : Tick) : Write → Store → Except PrismaError Store
  | .memberDeleteMany groupId p, s =>
    .ok { s with
      members := s.members.filter
        (fun m => !((groupId.all (fun g => m.groupId = g)) && p m.userId)) }
  | .memberUpsert groupId userId, s =>
    if ⟨groupId, userId⟩ ∈ s.members then .ok s else insertMember ⟨groupId, userId⟩ s
  | .groupUpdate id displayName externalId userIds, s =>
    match s.group id with
    | none => .error .P2025
    | some g =>
      if displayNameTaken s id (displayName.getD g.displayName) then .error .P2002
      else insertMembers id userIds { s with
        groups := modifyRow ScimGroup.id id (updateGroup t.now displayName externalId) s.groups }

def execWrites (t : Tick) : List Write → Store → Except PrismaError Store
  | [], s => .ok s
  | w :: ws, s =>
    match w.exec t s with
    | .ok s' => execWrites t ws s'
    | .error e => .error e

/-- An array `$transaction`: all operations are validated, then executed in
array order, and none has an effect unless all succeed. -/
def transaction (E : Engine) (t : Tick) (ops : List BatchOp) (s : Store) :
    Except PrismaError (Unit × Store) :=
  match ops.mapM (BatchOp.read E) with
  | none => .error .validation
  | some ws =>
    match execWrites t ws s with
    | .ok s' => .ok ((), s')
    | .error e => .error e

def groupDelete (id : String) (s : Store) : Except PrismaError (Unit × Store) :=
  match s.group id with
  | none => .error .P2025
  | some _ => .ok ((), { s with
      groups := eraseRow ScimGroup.id id s.groups
      members := eraseRow ScimGroupMember.groupId id s.members })

def matchingGroups (displayName : Option String) (s : Store) : List ScimGroup :=
  match displayName with
  | none => s.groups
  | some n => s.groups.filter (fun g => g.displayName = n)

/-- `$transaction([count, findMany])` on groups. -/
def groupList (t : Tick) (displayName : Option String) (skip take : ℚ) (s : Store) :
    Except PrismaError ((ℕ × List GroupWithMembers) × Store) :=
  let rows := matchingGroups displayName s
  match window skip take
      (rows.insertionSort (listBefore ScimGroup.createdAt ScimGroup.id t)) with
  | .ok page => .ok ((rows.length, page.map (withMembers s)), s)
  | .error e => .error e

end Groups

/-- The database calls of the services and of the demo's data reset. -/
inductive Call : Type
  | userFindUnique (id : String)
  | userFindUniqueByName (userName : String)
  | userCreate (data : UserCreateData)
  | userUpdate (id : String) (data : UserUpdateData)
  | userDelete (id : String)
  | userList (userName : Option String) (skip take : ℚ)
  | groupFindUnique (id : String)
  | groupFindUniqueByName (displayName : String)
  | groupCreate (data : GroupCreateData)
  | transaction (ops : List BatchOp)
  | groupDelete (id : String)
  | groupList (displayName : Option String) (skip take : ℚ)
  | memberDeleteMany
  | userDeleteMany
  | groupDeleteMany

abbrev Call.Result : Call → Type
  | .userFindUnique _ => Option ScimUser
  | .userFindUniqueByName _ => Option ScimUser
  | .userCreate _ => ScimUser
  | .userUpdate _ _ => ScimUser
  | .userDelete _ => Unit
  | .userList _ _ _ => ℕ × List ScimUser
  | .groupFindUnique _ => Option GroupWithMembers
  | .groupFindUniqueByName _ => Option ScimGroup
  | .groupCreate _ => GroupWithMembers
  | .transaction _ => Unit
  | .groupDelete _ => Unit
  | .groupList _ _ _ => ℕ × List GroupWithMembers
  | .memberDeleteMany => Unit
  | .userDeleteMany => Unit
  | .groupDeleteMany => Unit

/-- A service: a program over database calls. -/
abbrev Service (α : Type) := Prog Call.Result Exception α

def await (c : Call) : Service c.Result := Prog.perform c

@[simp] theorem await_bind {α : Type} (c : Call) (f : c.Result → Service α) :
    await c >>= f = .call c f := rfl

def rejects {α : Type} : Except PrismaError α → Except Exception α
  | .ok a => .ok a
  | .error e => .error (.prisma e)

/-- One call, answered atomically. -/
def exec (E : Engine) : Exec Call.Result Exception Store Tick := fun t c s =>
  match c with
  | .userFindUnique id => .ok (s.user id, s)
  | .userFindUniqueByName n => .ok (s.userNamed n, s)
  | .userCreate data => rejects (userCreate t data s)
  | .userUpdate id data => rejects (userUpdate E t id data s)
  | .userDelete id => rejects (userDelete id s)
  | .userList n skip take => rejects (userList t n skip take s)
  | .groupFindUnique id => .ok ((s.group id).map (withMembers s), s)
  | .groupFindUniqueByName n => .ok (s.groupNamed n, s)
  | .groupCreate data => rejects (groupCreate t data s)
  | .transaction ops => rejects (transaction E t ops s)
  | .groupDelete id => rejects (groupDelete id s)
  | .groupList n skip take => rejects (groupList t n skip take s)
  | .memberDeleteMany => .ok ((), { s with members := [] })
  | .userDeleteMany => .ok ((), { s with users := [], members := [] })
  | .groupDeleteMany => .ok ((), { s with groups := [], members := [] })

theorem rejects_eq_ok {α : Type} {x : Except PrismaError α} {a : α} (h : rejects x = .ok a) :
    x = .ok a := by
  cases x with
  | ok b => simpa [rejects] using h
  | error e => simp [rejects] at h

end OktaScim.PrismaClient
