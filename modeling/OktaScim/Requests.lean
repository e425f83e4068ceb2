import OktaScim.UsersService
import OktaScim.GroupsService
import OktaScim.Representations

/-!
The requests of the Users and Groups controllers and of the demo's data reset,
from the validated body to the answer. A request that hashes a password carries
the salt that is drawn for it.
-/
namespace OktaScim.Requests

open Programs PrismaClient Schema ScimFilter Bodies UserPatch GroupPatch Representations

structure Env : Type where
  engine : Engine
  bcrypt : UsersService.Bcrypt
  baseUrl : String

def sampleEnv : Env := ⟨sampleEngine, UsersService.markedBcrypt, "http://localhost:3000"⟩

/-- Outside choices for a run by hand: an id, a time, and rows scanned as they tie. -/
def sampleTick (uuid : String) (now : ℕ) : Tick := ⟨uuid, now, fun _ => 0⟩

def sampleUser (id userName : String) : ScimUser :=
  ⟨id, none, userName, none, none, none, true, none, 0, 0⟩

def sampleGroup (id displayName : String) : ScimGroup := ⟨id, none, displayName, 0, 0⟩

/-- One group and one user who is not in it. -/
def sampleStore : Store := ⟨[sampleUser "u" "ann"], [sampleGroup "g" "staff"], []⟩

theorem sampleStore_valid : sampleStore.Valid where
  userIds := by decide
  userNames := by decide
  groupIds := by decide
  displayNames := by decide
  memberPairs := by decide
  memberGroup := by decide
  memberUser := by decide

/-- A group with two of three users in it; one of them has all columns filled. -/
def staffedStore : Store where
  users := [⟨"u", some "e1", "ann", some "Ann", some "Lee", some "ann@example.com", false,
    some "hash", 0, 0⟩, sampleUser "v" "bob", sampleUser "w" "eve"]
  groups := [⟨"g", some "e2", "staff", 0, 0⟩]
  members := [⟨"g", "u"⟩, ⟨"g", "v"⟩]

theorem staffedStore_valid : staffedStore.Valid where
  userIds := by decide
  userNames := by decide
  groupIds := by decide
  displayNames := by decide
  memberPairs := by decide
  memberGroup := by decide
  memberUser := by decide

/-- The id is the same for all calls, the clock counts them. -/
def sampleTicks : ℕ → Tick := fun n => sampleTick "x" n

/-- The operation `op` on path `members` with the listed ids. -/
def membersOperation (op : String) (ids : List String) : PatchOperation :=
  ⟨some op, some "members", some (.arr (ids.map fun u => .obj [("value", .str u)]))⟩

inductive Request : Type
  | listUsers (filter : Option String) (pagination : Pagination)
  | getUser (id : String)
  | createUser (salt : String) (dto : CreateScimUserDto)
  | replaceUser (salt id : String) (dto : UpdateScimUserDto)
  | patchUser (id : String) (operations : List (Option PatchOperation))
  | deleteUser (id : String)
  | listGroups (filter : Option String) (pagination : Pagination)
  | getGroup (id : String)
  | createGroup (dto : CreateScimGroupDto)
  | replaceGroup (id : String) (dto : UpdateScimGroupDto)
  | patchGroup (id : String) (operations : List (Option PatchOperation))
  | deleteGroup (id : String)
  | clearData

structure ListResponse (α : Type) : Type where
  schemas : List String
  totalResults : ℕ
  startIndex : ℚ
  itemsPerPage : ℕ
  Resources : List α
deriving DecidableEq

structure ErrorResponse : Type where
  schemas : List String
  status : String
  scimType : Option String
  detail : String
deriving DecidableEq

inductive Body : Type
  | user (rep : UserRep)
  | group (rep : GroupRep)
  | userList (response : ListResponse UserRep)
  | groupList (response : ListResponse GroupRep)
  | empty
  | error (response : ErrorResponse)
deriving DecidableEq

structure Answer : Type where
  status : ℕ
  body : Body
deriving DecidableEq

variable (env : Env)

namespace UsersController

def list (filter : Option String) (pagination : Pagination) : Service Answer := do
  let (totalResults, users) ← UsersService.list (parseEqFilter filter) pagination
  return ⟨200, .userList ⟨[SCIM_LIST_RESPONSE_SCHEMA], totalResults, pagination.startIndex,
    users.length, users.map fun u => toScimUser u env.baseUrl⟩⟩

def findOne (id : String) : Service Answer := do
  let user ← UsersService.findById id
  return ⟨200, .user (toScimUser user env.baseUrl)⟩

def create (salt : String) (dto : CreateScimUserDto) : Service Answer := do
  let user ← UsersService.create (env.bcrypt.hash salt) dto
  return ⟨201, .user (toScimUser user env.baseUrl)⟩

def replace (salt id : String) (dto : UpdateScimUserDto) : Service Answer := do
  let user ← UsersService.replace (env.bcrypt.hash salt) id dto
  return ⟨200, .user (toScimUser user env.baseUrl)⟩

def patch (id : String) (operations : List (Option PatchOperation)) : Service Answer :=
  match applyUserPatch operations with
  | none => .throw .typeError
  | some fields => do
    let user ← UsersService.patch id fields
    return ⟨200, .user (toScimUser user env.baseUrl)⟩

def remove (id : String) : Service Answer := do
  UsersService.remove id
  return ⟨204, .empty⟩

end UsersController

namespace GroupsController

def list (filter : Option String) (pagination : Pagination) : Service Answer := do
  let (totalResults, groups) ← GroupsService.list (parseEqFilter filter) pagination
  return ⟨200, .groupList ⟨[SCIM_LIST_RESPONSE_SCHEMA], totalResults, pagination.startIndex,
    groups.length, groups.map fun g => toScimGroup g env.baseUrl⟩⟩

def findOne (id : String) : Service Answer := do
  let group ← GroupsService.findById id
  return ⟨200, .group (toScimGroup group env.baseUrl)⟩

def create (dto : CreateScimGroupDto) : Service Answer := do
  let group ← GroupsService.create dto
  return ⟨201, .group (toScimGroup group env.baseUrl)⟩

def replace (id : String) (dto : UpdateScimGroupDto) : Service Answer := do
  let group ← GroupsService.replace id dto
  return ⟨200, .group (toScimGroup group env.baseUrl)⟩

def patch (id : String) (operations : List (Option PatchOperation)) : Service Answer :=
  match applyGroupPatch operations with
  | none => .throw .typeError
  | some patchResult => do
    let group ← GroupsService.patch id patchResult
    return ⟨200, .group (toScimGroup group env.baseUrl)⟩

def remove (id : String) : Service Answer := do
  GroupsService.remove id
  return ⟨204, .empty⟩

end GroupsController

namespace DemoController

def clearData : Service Answer := do
  await .memberDeleteMany
  await .userDeleteMany
  await .groupDeleteMany
  return ⟨204, .empty⟩

end DemoController

def Request.handle : Request → Service Answer
  | .listUsers filter pagination => UsersController.list env filter pagination
  | .getUser id => UsersController.findOne env id
  | .createUser salt dto => UsersController.create env salt dto
  | .replaceUser salt id dto => UsersController.replace env salt id dto
  | .patchUser id operations => UsersController.patch env id operations
  | .deleteUser id => UsersController.remove id
  | .listGroups filter pagination => GroupsController.list env filter pagination
  | .getGroup id => GroupsController.findOne env id
  | .createGroup dto => GroupsController.create env dto
  | .replaceGroup id dto => GroupsController.replace env id dto
  | .patchGroup id operations => GroupsController.patch env id operations
  | .deleteGroup id => GroupsController.remove id
  | .clearData => DemoController.clearData

/-- What `ScimExceptionFilter` answers for a handler that has thrown. -/
def answerOf : Except Exception Answer → Answer
  | .ok answer => answer
  | .error e => ⟨(toScimError e).status, .error ⟨[SCIM_ERROR_SCHEMA],
      toString (toScimError e).status, (toScimError e).scimType, (toScimError e).detail⟩⟩

/-- A request served alone. -/
def serve (ticks : ℕ → Tick) (r : Request) (s : Store) : Except Exception Answer × Store :=
  run (exec env.engine) ticks (r.handle env) s

end OktaScim.Requests
