import OktaScim.Bodies

/-!
The translation of a user's PATCH operations, from `apply-user-patch.ts`. The
fields taken over without conversion (the name parts and the first email of an
object form) hold whatever JSON value was sent.
-/
namespace OktaScim.UserPatch

open JsValues Bodies

/-- A field that is absent and one that is `undefined` are not told apart by
the update that reads them. -/
structure UserPatchFields : Type where
  active : Option Bool
  userName : Option String
  givenName : Option Json
  familyName : Option Json
  email : Option Json
  externalId : Option String

/-- `none` is a thrown `TypeError`. -/
def applyValueForPath (fields : UserPatchFields) (path : String) (value : Option Json) :
    Option UserPatchFields :=
  match path with
  | "active" => some { fields with active := some (toBoolean value) }
  | "userName" => (jsString value).map fun s => { fields with userName := some s }
  | "name.givenName" => (jsString value).map fun s => { fields with givenName := some (.str s) }
  | "name.familyName" => (jsString value).map fun s => { fields with familyName := some (.str s) }
  | "externalId" => (jsString value).map fun s => { fields with externalId := some s }
  | "emails" => applyEmails fields value
  | "emails[primary eq true].value" => applyEmails fields value
  | _ => some fields
where
  /-- `String(value[0].value ?? value[0])` of a nonempty array, or a string as it is. -/
  applyEmails (fields : UserPatchFields) (value : Option Json) : Option UserPatchFields :=
    match value with
    | some (.arr (first :: _)) =>
      match first with
      | .null => none
      | first =>
        let chosen := match first.get "value" with
          | none => first
          | some .null => first
          | some v => v
        (jsString (some chosen)).map fun s => { fields with email := some (.str s) }
    | some (.str s) => some { fields with email := some (.str s) }
    | _ => some fields

/-- The value is an object or an array. -/
def applyValueObject (fields : UserPatchFields) (value : Json) : Option UserPatchFields := do
  let active := if value.has "active" then some (toBoolean (value.get "active")) else fields.active
  let userName ← assignString value "userName" fields.userName
  let externalId ← assignString value "externalId" fields.externalId
  let name := value.get "name"
  let givenName := (name.bind fun n => n.get "givenName").or fields.givenName
  let familyName := (name.bind fun n => n.get "familyName").or fields.familyName
  let email ←
    match value.get "emails" with
    | some (.arr (.null :: _)) => none
    | some (.arr (first :: _)) => some (first.get "value")
    | _ => some fields.email
  return {
    active := active
    userName := userName
    givenName := givenName
    familyName := familyName
    email := email
    externalId := externalId
  }

/-- One turn of the loop. -/
def applyUserOperation (fields : UserPatchFields) (operation : PatchOperation) :
    Option UserPatchFields :=
  let op := operation.op.map toLowerCase
  if op ≠ some "replace" ∧ op ≠ some "add" then some fields
  else if nonempty operation.path then
    applyValueForPath fields (operation.path.getD "") operation.value
  else
    match operation.value with
    | some (.obj o) => applyValueObject fields (.obj o)
    | some (.arr items) => applyValueObject fields (.arr items)
    | _ => some fields

def applyUserOperations (fields : UserPatchFields) :
    List (Option PatchOperation) → Option UserPatchFields
  | [] => some fields
  | none :: _ => none
  | some operation :: rest =>
    (applyUserOperation fields operation).bind fun fields' => applyUserOperations fields' rest

def applyUserPatch (operations : List (Option PatchOperation)) : Option UserPatchFields :=
  applyUserOperations ⟨none, none, none, none, none, none⟩ operations

end OktaScim.UserPatch
