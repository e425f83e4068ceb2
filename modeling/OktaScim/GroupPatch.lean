import OktaScim.Patterns
import OktaScim.Bodies

/-!
The translation of a group's PATCH operations, from `apply-group-patch.ts`. A
list entry `none` is a JSON null.
-/
namespace OktaScim.GroupPatch

open Patterns JsValues Bodies

structure GroupPatchResult : Type where
  displayName : Option String
  externalId : Option String
  addMemberIds : List Json
  removeMemberIds : List Json

/-- `members\[value eq "([^"]+)"\]`, in any letter case. -/
def memberFilter : Pattern :=
  .seq (.word "members[value eq \"".toList)
    (.seq (.group (.plus (fun c => c != '"'))) (.word "\"]".toList))

def extractMemberIdFromFilterPath (path : String) : Option String :=
  match memberFilter.search path.toList with
  | some [id] => some (String.ofList id)
  | _ => none

/-- `for (const member of members) if (member?.value) ids.push(member.value)` -/
def memberValues (members : List Json) : List Json :=
  members.filterMap (fun member => (member.get "value").filter Json.truthy)

/-- One turn of the loop; `none` is a thrown `TypeError`. -/
def applyGroupOperation (result : GroupPatchResult) (operation : PatchOperation) :
    Option GroupPatchResult :=
  let op := operation.op.map toLowerCase
  let path := operation.path
  if op = some "add" ∧ (path = some "members" ∨ nonempty path = false) then
    (iterate operation.value).map fun members =>
      { result with addMemberIds := result.addMemberIds ++ memberValues members }
  else if op = some "remove" then
    if path = some "members" then
      (iterate operation.value).map fun members =>
        { result with removeMemberIds := result.removeMemberIds ++ memberValues members }
    else if nonempty path then
      match extractMemberIdFromFilterPath (path.getD "") with
      | some id =>
        if id ≠ "" then
          some { result with removeMemberIds := result.removeMemberIds ++ [.str id] }
        else some result
      | none => some result
    else some result
  else if op = some "replace" then
    if path = some "displayName" then
      (jsString operation.value).map fun s => { result with displayName := some s }
    else
      match operation.value with
      | some (.obj fields) =>
        if nonempty path then some result
        else do
          let displayName ← assignString (.obj fields) "displayName" result.displayName
          let externalId ← assignString (.obj fields) "externalId" result.externalId
          return { result with displayName := displayName, externalId := externalId }
      | _ => some result
  else some result

def applyGroupOperations (result : GroupPatchResult) :
    List (Option PatchOperation) → Option GroupPatchResult
  | [] => some result
  | none :: _ => none
  | some operation :: rest =>
    (applyGroupOperation result operation).bind fun result' => applyGroupOperations result' rest

def GroupPatchResult.initial : GroupPatchResult := ⟨none, none, [], []⟩

def applyGroupPatch (operations : List (Option PatchOperation)) : Option GroupPatchResult :=
  applyGroupOperations .initial operations

end OktaScim.GroupPatch
