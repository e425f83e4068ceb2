import OktaScim.PrismaClient
import OktaScim.ScimFilter
import OktaScim.UserPatch

/-!
`UsersService` as programs over Prisma calls. `hash` is `bcrypt.hash` with the
salt that is drawn for the request.
-/
namespace OktaScim.UsersService

open Programs PrismaClient Schema JsValues ScimFilter Bodies UserPatch

/-- Password hashing, of which only its verification is known. -/
structure Bcrypt : Type where
  hash : String → String → String
  compare : String → String → Bool
  hash_ne_empty : ∀ salt p, hash salt p ≠ ""
  compare_hash : ∀ salt p q, compare q (hash salt p) = (q == p)

/-- A stand-in for bcrypt that marks the password instead of hashing it. -/
def markedBcrypt : Bcrypt where
  hash _ p := "$2b$" ++ p
  compare q h := h == "$2b$" ++ q
  hash_ne_empty salt p := by
    intro h
    have hlen := congrArg String.length h
    simp at hlen
  compare_hash salt p q := by
    rw [Bool.eq_iff_iff, beq_iff_eq, beq_iff_eq]
    constructor
    · intro h
      exact ((String.append_right_inj "$2b$").mp h).symm
    · exact fun h => congrArg ("$2b$" ++ ·) h.symm

def listWhere (filter : Option ParsedFilter) (attributeName : String) : Option String :=
  match filter with
  | some f => if f.attributeName = attributeName then some f.value else none
  | none => none

def list (filter : Option ParsedFilter) (pagination : Pagination) :
    Service (ℕ × List ScimUser) :=
  await (.userList (listWhere filter "userName") pagination.skip pagination.count)

def findById (id : String) : Service ScimUser := do
  match ← await (.userFindUnique id) with
  | none => .throw (.notFound s!"User {id} not found")
  | some user => .pure user

/-- `dto.password ? await bcrypt.hash(dto.password, 10) : …` -/
def hashPassword (hash : String → String) (password : Nullable String) : Option String :=
  match password with
  | .value p => if p = "" then none else some (hash p)
  | _ => none

def createData (hash : String → String) (dto : CreateScimUserDto) : UserCreateData where
  userName := dto.userName
  externalId := dto.externalId
  givenName := ScimNameDto.givenNameOf dto.name
  familyName := ScimNameDto.familyNameOf dto.name
  email := firstEmail dto.emails
  active := dto.active.orElse true
  passwordHash := hashPassword hash dto.password

def create (hash : String → String) (dto : CreateScimUserDto) : Service ScimUser := do
  match ← await (.userFindUniqueByName dto.userName) with
  | some _ => .throw (.conflict s!"User with userName {dto.userName} already exists")
  | none => await (.userCreate (createData hash dto))

def replaceData (hash : String → String) (dto : UpdateScimUserDto) : UserUpdateData where
  userName := some dto.userName
  externalId := dto.externalId.toData .str
  givenName := (ScimNameDto.givenNameOf dto.name).toData .str
  familyName := (ScimNameDto.familyNameOf dto.name).toData .str
  email := (firstEmail dto.emails).toData .str
  active := some (dto.active.orElse true)
  passwordHash := (hashPassword hash dto.password).filter (· != "")

def replace (hash : String → String) (id : String) (dto : UpdateScimUserDto) :
    Service ScimUser := do
  let _ ← findById id
  await (.userUpdate id (replaceData hash dto))

def patchData (fields : UserPatchFields) : UserUpdateData where
  userName := fields.userName
  externalId := fields.externalId.map .str
  givenName := fields.givenName
  familyName := fields.familyName
  email := fields.email
  active := fields.active
  passwordHash := none

def patch (id : String) (fields : UserPatchFields) : Service ScimUser := do
  let _ ← findById id
  await (.userUpdate id (patchData fields))

def remove (id : String) : Service Unit := do
  let _ ← findById id
  await (.userDelete id)

/-- The continuation of a request whose user has been looked up. -/
def whenFound {α : Type} (id : String) (rest : Service α) (user : Option ScimUser) : Service α :=
  match user with
  | none => .throw (.notFound s!"User {id} not found")
  | some _ => rest

end OktaScim.UsersService
