import OktaScim.PrismaClient
import OktaScim.UsersService
import OktaScim.GroupPatch

/-!
`GroupsService` as programs over Prisma calls. A `TypeError` in building a list
of nested creates is thrown where the list is built.
-/
namespace OktaScim.GroupsService

open Programs PrismaClient Schema JsValues ScimFilter Bodies GroupPatch

def list (filter : Option ParsedFilter) (pagination : Pagination) :
    Service (ℕ × List GroupWithMembers) :=
  await (.groupList (UsersService.listWhere filter "displayName") pagination.skip
    pagination.count)

def findById (id : String) : Service GroupWithMembers := do
  match ← await (.groupFindUnique id) with
  | none => .throw (.notFound s!"Group {id} not found")
  | some group => .pure group

/-- `(dto.members ?? []).map((m) => ({ userId: m.value }))`; a null entry has
no property to read. -/
def memberCreates (members : Nullable (List (Option ScimGroupMemberDto))) :
    Option (List (Option String)) :=
  (members.orElse []).mapM fun m => m.map ScimGroupMemberDto.value

def create (dto : CreateScimGroupDto) : Service GroupWithMembers := do
  match ← await (.groupFindUniqueByName dto.displayName) with
  | some _ => .throw (.conflict s!"Group with displayName {dto.displayName} already exists")
  | none =>
    match memberCreates dto.members with
    | none => .throw .typeError
    | some members =>
      await (.groupCreate
        { displayName := dto.displayName, externalId := dto.externalId, members := members })

/-- The transaction of a PUT: all memberships go, then the row and its listed
members are written. -/
def replaceOperations (id : String) (dto : UpdateScimGroupDto)
    (members : List (Option String)) : List BatchOp :=
  [.memberDeleteMany (some id) none,
    .groupUpdate id
      { displayName := some dto.displayName, externalId := dto.externalId, members := members }]

def replace (id : String) (dto : UpdateScimGroupDto) : Service GroupWithMembers := do
  let _ ← findById id
  match memberCreates dto.members with
  | none => .throw .typeError
  | some members =>
    let _ ← await (.transaction (replaceOperations id dto members))
    findById id

/-- A set property as update data; an absent one is left out of it. -/
def patchColumn (value : Option String) : Nullable String :=
  match value with
  | none => .undefined
  | some s => .value s

/-- The operations of a PATCH in the order of the batch: the row's own
columns, then every removal, then every addition. -/
def patchOperations (id : String) (patch : GroupPatchResult) : List BatchOp :=
  (if patch.displayName.isSome ∨ patch.externalId.isSome then
    [.groupUpdate id
      { displayName := patch.displayName, externalId := patchColumn patch.externalId,
        members := [] }]
  else []) ++
  patch.removeMemberIds.map (fun userId => .memberDeleteMany (some id) (some userId)) ++
  patch.addMemberIds.map (fun userId => .memberUpsert id userId)

def patch (id : String) (patch : GroupPatchResult) : Service GroupWithMembers := do
  let _ ← findById id
  match patchOperations id patch with
  | [] => findById id
  | operations =>
    let _ ← await (.transaction operations)
    findById id

def remove (id : String) : Service Unit := do
  let _ ← findById id
  await (.groupDelete id)

/-- The continuation of a request whose group has been looked up. -/
def whenFound {α : Type} (id : String) (rest : Service α) (group : Option GroupWithMembers) :
    Service α :=
  match group with
  | none => .throw (.notFound s!"Group {id} not found")
  | some _ => rest

end OktaScim.GroupsService
