import OktaScim.JsValues

/-!
Request bodies after `ValidationPipe`, from the DTO classes. A property under
`@IsOptional` may be missing or null. `@ValidateNested` lets one shape through
besides objects: an array of accepted values, which has none of the named
properties. It refuses a null among the entries of a list; the handlers are
written for such an entry as well, which is `none` there. Properties that no
handler reads (`schemas`) are validated and then left out. Bodies are JSON
objects.
-/
namespace OktaScim.Bodies

open JsValues

structure ScimNameDto : Type where
  givenName : Nullable String
  familyName : Nullable String
deriving DecidableEq

structure ScimEmailDto : Type where
  value : Nullable String
  primary : Nullable Bool
  type : Nullable String
deriving DecidableEq

structure CreateScimUserDto : Type where
  userName : String
  externalId : Nullable String
  name : Nullable ScimNameDto
  emails : Nullable (List (Option ScimEmailDto))
  active : Nullable Bool
  password : Nullable String

abbrev UpdateScimUserDto := CreateScimUserDto

/-- The value is missing only for an entry that is a nested array. -/
structure ScimGroupMemberDto : Type where
  value : Option String
  display : Nullable String

structure CreateScimGroupDto : Type where
  displayName : String
  externalId : Nullable String
  members : Nullable (List (Option ScimGroupMemberDto))

abbrev UpdateScimGroupDto := CreateScimGroupDto

/-- `op` is missing only for an entry that is a nested array; a path that is
null is read like one that is missing. -/
structure PatchOperation : Type where
  op : Option String
  path : Option String
  value : Option Json

namespace ScimNameDto

/-- `dto.name?.givenName` -/
def givenNameOf (name : Nullable ScimNameDto) : Nullable String :=
  match name with
  | .value n => n.givenName
  | _ => .undefined

/-- `dto.name?.familyName` -/
def familyNameOf (name : Nullable ScimNameDto) : Nullable String :=
  match name with
  | .value n => n.familyName
  | _ => .undefined

end ScimNameDto

/-- `dto.emails?.[0]?.value` -/
def firstEmail (emails : Nullable (List (Option ScimEmailDto))) : Nullable String :=
  match emails with
  | .value (some e :: _) => e.value
  | _ => .undefined

section Validation

/-- `@IsOptional() @IsString()` -/
def readString : Option Json → Option (Nullable String)
  | none => some .undefined
  | some .null => some .null
  | some (.str s) => some (.value s)
  | some _ => none

/-- `@IsOptional() @IsBoolean()` -/
def readBoolean : Option Json → Option (Nullable Bool)
  | none => some .undefined
  | some .null => some .null
  | some (.bool b) => some (.value b)
  | some _ => none

mutual

/-- `@ValidateNested()` with the check of an object's own properties. -/
def nestedOk (ok : Json → Bool) : Json → Bool
  | .obj fields => ok (.obj fields)
  | .arr items => allNestedOk ok items
  | _ => false

def allNestedOk (ok : Json → Bool) : List Json → Bool
  | [] => true
  | item :: items => nestedOk ok item && allNestedOk ok items

end

theorem nestedOk_of_mem {ok : Json → Bool} {items : List Json}
    (h : allNestedOk ok items = true) {item : Json} (hitem : item ∈ items) :
    nestedOk ok item = true := by
  induction items with
  | nil => contradiction
  | cons first rest ih =>
    obtain ⟨hfirst, hrest⟩ := Bool.and_eq_true_iff.mp h
    rcases List.mem_cons.mp hitem with rfl | hmem
    · exact hfirst
    · exact ih hrest hmem

def nameOk (v : Json) : Bool :=
  (readString (v.get "givenName")).isSome && (readString (v.get "familyName")).isSome

def emailOk (v : Json) : Bool :=
  (readString (v.get "value")).isSome && (readBoolean (v.get "primary")).isSome &&
    (readString (v.get "type")).isSome

/-- A property that was found to be a string, null or missing. -/
def stringField (v : Json) (k : String) : Nullable String :=
  (readString (v.get k)).getD .undefined

def booleanField (v : Json) (k : String) : Nullable Bool :=
  (readBoolean (v.get k)).getD .undefined

def nameOf (v : Json) : ScimNameDto :=
  ⟨stringField v "givenName", stringField v "familyName"⟩

def emailOf : Json → Option ScimEmailDto
  | .null => none
  | v => some ⟨stringField v "value", booleanField v "primary", stringField v "type"⟩

def readName : Option Json → Option (Nullable ScimNameDto)
  | none => some .undefined
  | some .null => some .null
  | some v => if nestedOk nameOk v then some (.value (nameOf v)) else none

/-- `@IsOptional() @IsArray() @ValidateNested({ each: true })` on emails. -/
def readEmails : Option Json → Option (Nullable (List (Option ScimEmailDto)))
  | none => some .undefined
  | some .null => some .null
  | some (.arr items) =>
    if allNestedOk emailOk items then some (.value (items.map emailOf)) else none
  | some _ => none

/-- `@IsOptional() @IsArray()` -/
def arrayOk : Option Json → Bool
  | none => true
  | some .null => true
  | some (.arr _) => true
  | some _ => false

/-- What `ValidationPipe` makes of a POST or PUT body of a user. -/
def readUserDto (body : Json) : Option CreateScimUserDto :=
  match body with
  | .obj fields =>
    match (Json.obj fields).get "userName" with
    | some (.str userName) =>
      if arrayOk ((Json.obj fields).get "schemas") then do
        let externalId ← readString ((Json.obj fields).get "externalId")
        let name ← readName ((Json.obj fields).get "name")
        let emails ← readEmails ((Json.obj fields).get "emails")
        let active ← readBoolean ((Json.obj fields).get "active")
        let password ← readString ((Json.obj fields).get "password")
        return {
          userName := userName
          externalId := externalId
          name := name
          emails := emails
          active := active
          password := password
        }
      else none
    | _ => none
  | _ => none

/-- A property as a string, if it is one. -/
def stringOf (v : Json) (k : String) : Option String :=
  match v.get k with
  | some (.str s) => some s
  | _ => none

/-- `@IsString() value`, `@IsOptional() @IsString() display` -/
def memberOk (v : Json) : Bool :=
  (stringOf v "value").isSome && (readString (v.get "display")).isSome

def memberOf : Json → Option ScimGroupMemberDto
  | .null => none
  | v => some ⟨stringOf v "value", stringField v "display"⟩

def readMemberList : Option Json → Option (Nullable (List (Option ScimGroupMemberDto)))
  | none => some .undefined
  | some .null => some .null
  | some (.arr items) =>
    if allNestedOk memberOk items then some (.value (items.map memberOf)) else none
  | some _ => none

/-- What `ValidationPipe` makes of a POST or PUT body of a group. -/
def readGroupDto (body : Json) : Option CreateScimGroupDto :=
  match body with
  | .obj fields =>
    match (Json.obj fields).get "displayName" with
    | some (.str displayName) =>
      if arrayOk ((Json.obj fields).get "schemas") then do
        let externalId ← readString ((Json.obj fields).get "externalId")
        let members ← readMemberList ((Json.obj fields).get "members")
        return { displayName := displayName, externalId := externalId, members := members }
      else none
    | _ => none
  | _ => none

/-- The names on `Object.prototype`, which class-transformer leaves out of the
objects that it copies. -/
def objectPrototype : List String :=
  ["constructor", "__proto__", "__defineGetter__", "__defineSetter__", "__lookupGetter__",
    "__lookupSetter__", "hasOwnProperty", "isPrototypeOf", "propertyIsEnumerable",
    "toLocaleString", "toString", "valueOf"]

mutual

/-- What class-transformer makes of a value without a declared class. -/
def copied : Json → Json
  | .arr items => .arr (copiedItems items)
  | .obj fields => .obj (copiedFields fields)
  | .null => .null
  | .bool b => .bool b
  | .num n => .num n
  | .str s => .str s

def copiedItems : List Json → List Json
  | [] => []
  | item :: items => copied item :: copiedItems items

def copiedFields : List (String × Json) → List (String × Json)
  | [] => []
  | (k, v) :: fields =>
    if k ∈ objectPrototype then copiedFields fields else (k, copied v) :: copiedFields fields

end

/-- `@IsString() op`, `@IsOptional() @IsString() path` -/
def operationOk (v : Json) : Bool :=
  (stringOf v "op").isSome && (readString (v.get "path")).isSome

def operationOf : Json → Option PatchOperation
  | .null => none
  | v => some ⟨stringOf v "op", stringOf v "path", (v.get "value").map copied⟩

/-- What `ValidationPipe` makes of a PATCH body. -/
def readPatchBody (body : Json) : Option (List (Option PatchOperation)) :=
  match body with
  | .obj fields =>
    match (Json.obj fields).get "Operations" with
    | some (.arr items) =>
      if arrayOk ((Json.obj fields).get "schemas") ∧ allNestedOk operationOk items then
        some (items.map operationOf)
      else none
    | _ => none
  | _ => none

end Validation

end OktaScim.Bodies
