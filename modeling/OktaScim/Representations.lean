import OktaScim.PrismaClient

/-!
The SCIM representations of stored resources, from the two mappers, and the
error answers of `ScimExceptionFilter`.
-/
namespace OktaScim.Representations

open Schema PrismaClient JsValues

section Dates

def padLeft (width n : ℕ) : String :=
  String.ofList (List.replicate (width - (toString n).length) '0') ++ toString n

/-- Year, month and day of a day counted from 1970-01-01. -/
def civilDate (days : ℕ) : ℕ × ℕ × ℕ :=
  let z := days + 719468
  let era := z / 146097
  let doe := z % 146097
  let yoe := (doe - doe / 1460 + doe / 36524 - doe / 146096) / 365
  let doy := doe - (365 * yoe + yoe / 4 - yoe / 100)
  let mp := (5 * doy + 2) / 153
  let month := if mp < 10 then mp + 3 else mp - 9
  let year := yoe + era * 400 + (if month ≤ 2 then 1 else 0)
  (year, month, doy - (153 * mp + 2) / 5 + 1)

def toISOString (ms : ℕ) : String :=
  let (year, month, day) := civilDate (ms / 86400000)
  let time := ms % 86400000
  (if year ≤ 9999 then padLeft 4 year else "+" ++ padLeft 6 year) ++ "-" ++ padLeft 2 month ++
    "-" ++ padLeft 2 day ++ "T" ++ padLeft 2 (time / 3600000) ++ ":" ++
    padLeft 2 (time / 60000 % 60) ++ ":" ++ padLeft 2 (time / 1000 % 60) ++ "." ++
    padLeft 3 (time % 1000) ++ "Z"

example : toISOString 951826230045 = "2000-02-29T12:10:30.045Z" := by decide

end Dates

def SCIM_USER_SCHEMA : String := "urn:ietf:params:scim:schemas:core:2.0:User"

def SCIM_GROUP_SCHEMA : String := "urn:ietf:params:scim:schemas:core:2.0:Group"

def SCIM_LIST_RESPONSE_SCHEMA : String := "urn:ietf:params:scim:api:messages:2.0:ListResponse"

def SCIM_ERROR_SCHEMA : String := "urn:ietf:params:scim:api:messages:2.0:Error"

structure Meta : Type where
  resourceType : String
  created : String
  lastModified : String
  location : String
deriving DecidableEq

structure EmailRep : Type where
  value : String
  primary : Bool
deriving DecidableEq

/-- A user as it is answered; `givenName` and `familyName` are nested in `name`. -/
structure UserRep : Type where
  schemas : List String
  id : String
  externalId : Option String
  userName : String
  givenName : Option String
  familyName : Option String
  emails : List EmailRep
  active : Bool
  info : Meta
deriving DecidableEq

structure MemberRep : Type where
  value : String
  display : String
deriving DecidableEq

structure GroupRep : Type where
  schemas : List String
  id : String
  externalId : Option String
  displayName : String
  members : List MemberRep
  info : Meta
deriving DecidableEq

def toScimUser (user : ScimUser) (baseUrl : String) : UserRep where
  schemas := [SCIM_USER_SCHEMA]
  id := user.id
  externalId := user.externalId
  userName := user.userName
  givenName := user.givenName
  familyName := user.familyName
  emails :=
    match user.email with
    | some email => if email ≠ "" then [⟨email, true⟩] else []
    | none => []
  active := user.active
  info :=
    { resourceType := "User"
      created := toISOString user.createdAt
      lastModified := toISOString user.updatedAt
      location := s!"{baseUrl}/scim/v2/Users/{user.id}" }

def toScimGroup (group : GroupWithMembers) (baseUrl : String) : GroupRep where
  schemas := [SCIM_GROUP_SCHEMA]
  id := group.group.id
  externalId := group.group.externalId
  displayName := group.group.displayName
  members := group.members.map fun m => ⟨m.2.id, m.2.userName⟩
  info :=
    { resourceType := "Group"
      created := toISOString group.group.createdAt
      lastModified := toISOString group.group.updatedAt
      location := s!"{baseUrl}/scim/v2/Groups/{group.group.id}" }

section Bodies

/-- A field that is left out where it is undefined. -/
def optionalField (k : String) (value : Option String) : List (String × Json) :=
  value.toList.map fun s => (k, .str s)

def metaJson (info : Meta) : Json :=
  .obj [("resourceType", .str info.resourceType), ("created", .str info.created),
    ("lastModified", .str info.lastModified), ("location", .str info.location)]

/-- The body that shows a user. -/
def userJson (rep : UserRep) : Json :=
  .obj ([("schemas", .arr (rep.schemas.map .str)), ("id", .str rep.id)] ++
    optionalField "externalId" rep.externalId ++
    [("userName", .str rep.userName),
      ("name", .obj (optionalField "givenName" rep.givenName ++
        optionalField "familyName" rep.familyName)),
      ("emails", .arr (rep.emails.map fun e =>
        .obj [("value", .str e.value), ("primary", .bool e.primary)])),
      ("active", .bool rep.active), ("meta", metaJson rep.info)])

/-- The body that shows a group. -/
def groupJson (rep : GroupRep) : Json :=
  .obj ([("schemas", .arr (rep.schemas.map .str)), ("id", .str rep.id)] ++
    optionalField "externalId" rep.externalId ++
    [("displayName", .str rep.displayName),
      ("members", .arr (rep.members.map fun m =>
        .obj [("value", .str m.value), ("display", .str m.display)])),
      ("meta", metaJson rep.info)])

end Bodies

structure ScimError : Type where
  status : ℕ
  detail : String
  scimType : Option String
deriving DecidableEq

def internalServerError : ScimError := ⟨500, "Internal server error", none⟩

def mapPrismaError : PrismaError → ScimError
  | .P2002 => ⟨409, "A resource with the same unique attribute already exists", some "uniqueness"⟩
  | .P2025 => ⟨404, "Resource not found", none⟩
  | .P2023 => ⟨404, "Resource not found", none⟩
  | .P2003 => ⟨400, "Referenced resource does not exist", some "invalidValue"⟩
  | .other => internalServerError
  | .validation => internalServerError

/-- A validation error of the client is not a known request error, so it is
answered like any exception the filter does not know. -/
def toScimError : Exception → ScimError
  | .notFound message => ⟨404, message, none⟩
  | .conflict message => ⟨409, message, some "uniqueness"⟩
  | .typeError => internalServerError
  | .prisma error => mapPrismaError error

end OktaScim.Representations
