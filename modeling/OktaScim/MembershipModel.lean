import OktaScim.FilterPaths
import OktaScim.Requests
import Mathlib.Data.Set.Basic

/-!
What the groups are for: a map from groups to the sets of their members. The
map knows nothing of tables, calls or translations; a request acts on it
through the ids that are written in its body.
-/
namespace OktaScim.MembershipModel

open JsValues Bodies FilterPaths Requests

section SetMaps

variable {γ υ : Type} [DecidableEq γ]

/-- The members of each group; `none` for what is not a group. -/
abbrev Memberships (γ υ : Type) := γ → Option (Set υ)

def assign (m : Memberships γ υ) (group : γ) (users : Set υ) : Memberships γ υ :=
  Function.update m group (some users)

def edit (m : Memberships γ υ) (group : γ) (removed added : Set υ) : Memberships γ υ :=
  Function.update m group ((m group).map fun users => (users \ removed) ∪ added)

def drop (m : Memberships γ υ) (group : γ) : Memberships γ υ :=
  Function.update m group none

omit [DecidableEq γ] in
/-- A user leaves every group. -/
def withdraw (m : Memberships γ υ) (user : υ) : Memberships γ υ :=
  fun group => (m group).map fun users => users \ {user}

end SetMaps

section Meaning

/-- `u` is the `value` of an entry of a JSON list. -/
def ListsMember (value : Option Json) (u : String) : Prop :=
  ∃ items entry, value = some (.arr items) ∧ entry ∈ items ∧ entry.get "value" = some (.str u)

/-- The ids that an operation adds. -/
def addedBy (o : PatchOperation) : Set String :=
  {u | o.op.map toLowerCase = some "add" ∧ o.path = some "members" ∧ ListsMember o.value u}

/-- The ids that an operation removes. -/
def removedBy (o : PatchOperation) : Set String :=
  {u | o.op.map toLowerCase = some "remove" ∧
    ((o.path = some "members" ∧ ListsMember o.value u) ∨ o.path = some (memberPath u))}

def added (ops : List (Option PatchOperation)) : Set String :=
  {u | ∃ o, some o ∈ ops ∧ u ∈ addedBy o}

def removed (ops : List (Option PatchOperation)) : Set String :=
  {u | ∃ o, some o ∈ ops ∧ u ∈ removedBy o}

/-- The ids in the `members` of a body. -/
def listed (members : Nullable (List (Option ScimGroupMemberDto))) : Set String :=
  {u | ∃ m, some m ∈ members.orElse [] ∧ m.value = some u}

/-- The effect of a request that was answered by `a`. A new group is known by
the id it is answered with. -/
def act (r : Request) (a : Answer) (m : Memberships String String) : Memberships String String :=
  match r, a.body with
  | .createGroup dto, .group rep => assign m rep.id (listed dto.members)
  | .replaceGroup id dto, _ => assign m id (listed dto.members)
  | .patchGroup id ops, _ => edit m id (removed ops) (added ops)
  | .deleteGroup id, _ => drop m id
  | .deleteUser id, _ => withdraw m id
  | .clearData, _ => fun _ => none
  | _, _ => m

end Meaning

section Domain

/-- The ids that occur in paths unescaped. -/
structure MemberId (u : String) : Prop where
  nonempty : u ≠ ""
  unquoted : '"' ∉ u.toList

/-- The operations of a PATCH: additions and removals that list ids, removals
by a path that selects one id, and operations that are not about members. -/
inductive Admitted (o : PatchOperation) : Prop
  | list (items : List Json)
      (op : o.op.map toLowerCase = some "add" ∨ o.op.map toLowerCase = some "remove")
      (path : o.path = some "members") (value : o.value = some (.arr items))
      (entries : ∀ entry ∈ items, ∃ u, MemberId u ∧ entry.get "value" = some (.str u))
  | one (u : String) (op : o.op.map toLowerCase = some "remove") (id : MemberId u)
      (path : o.path = some (memberPath u))
  | otherPath (p : String) (path : o.path = some p) (nonempty : p ≠ "") (other : ¬SpellsMembers p)
  | otherObject (path : nonempty o.path = false) (value : ∀ items, o.value ≠ some (.arr items))
      (other : (o.value.bind fun v => v.get "members") = none)

/-- The requests of a run, which are restricted in their PATCH operations only. -/
def Admissible : Request → Prop
  | .patchGroup _ ops => ∀ o, some o ∈ ops → Admitted o
  | _ => True

end Domain

end OktaScim.MembershipModel
