import OktaScim.AttributeSchemas
import OktaScim.Requests

/-!
The resource types and attribute schemas that `discovery.controller.ts`
advertises, and the representations that the mappers make: they carry no
attribute but the advertised ones and the common ones, with the advertised
types, and say where the advertised endpoint serves them.
-/
namespace OktaScim.Discovery

open JsValues Schema PrismaClient Representations Requests AttributeSchemas

structure ResourceType : Type where
  schemas : List String
  id : String
  name : String
  endpoint : String
  schema : String
  location : String

structure ResourceSchema : Type where
  id : String
  name : String
  description : String
  attributes : List Attribute
  location : String

/-- `Resources` of `resourceTypes()`: the user and the group. -/
def userType : ResourceType where
  schemas := ["urn:ietf:params:scim:schemas:core:2.0:ResourceType"]
  id := "User"
  name := "User"
  endpoint := "/Users"
  schema := "urn:ietf:params:scim:schemas:core:2.0:User"
  location := "/scim/v2/ResourceTypes/User"

def groupType : ResourceType where
  schemas := ["urn:ietf:params:scim:schemas:core:2.0:ResourceType"]
  id := "Group"
  name := "Group"
  endpoint := "/Groups"
  schema := "urn:ietf:params:scim:schemas:core:2.0:Group"
  location := "/scim/v2/ResourceTypes/Group"

def nameAttribute : Attribute :=
  ⟨"name", .complex, some false, none, none, [⟨"givenName", .string⟩, ⟨"familyName", .string⟩]⟩

def emailsAttribute : Attribute :=
  ⟨"emails", .complex, some true, none, none, [⟨"value", .string⟩, ⟨"primary", .boolean⟩]⟩

def membersAttribute : Attribute :=
  ⟨"members", .complex, some true, none, none, [⟨"value", .string⟩, ⟨"display", .string⟩]⟩

def USER_SCHEMA : ResourceSchema where
  id := "urn:ietf:params:scim:schemas:core:2.0:User"
  name := "User"
  description := "User Account"
  attributes := [
    ⟨"userName", .string, some false, some true, some "server", []⟩, nameAttribute,
    emailsAttribute, ⟨"active", .boolean, some false, some false, none, []⟩]
  location := "/scim/v2/Schemas/urn:ietf:params:scim:schemas:core:2.0:User"

def GROUP_SCHEMA : ResourceSchema where
  id := "urn:ietf:params:scim:schemas:core:2.0:Group"
  name := "Group"
  description := "Group"
  attributes := [
    ⟨"displayName", .string, some false, some true, some "server", []⟩, membersAttribute]
  location := "/scim/v2/Schemas/urn:ietf:params:scim:schemas:core:2.0:Group"

/-- Attributes of every resource, which no schema lists. -/
def commonAttributes : List String := ["schemas", "id", "externalId", "meta"]

/-- The object shows a resource of the type: it conforms to the schema that the
type names, and its `meta` leads to the endpoint of the type. -/
structure ShowsResource (baseUrl : String) (type : ResourceType) (schema : ResourceSchema)
    (resource : String) (v : Json) : Prop where
  fields : ∃ fields, v = .obj fields ∧ Conforms schema.attributes commonAttributes fields
  schemas : v.get "schemas" = some (.arr [.str type.schema])
  advertised : type.schema = schema.id
  id : v.get "id" = some (.str resource)
  resourceType : (v.get "meta").bind (Json.get · "resourceType") = some (.str type.name)
  location : (v.get "meta").bind (Json.get · "location") =
    some (.str (baseUrl ++ "/scim/v2" ++ type.endpoint ++ "/" ++ resource))

theorem holdsParts_pair {parts : List SubAttribute} {p q : SubAttribute} (hp : p ∈ parts)
    (hq : q ∈ parts) (hne : p.name ≠ q.name) {v w : Json} (hv : p.type.holds v)
    (hw : q.type.holds w) : HoldsParts parts (.obj [(p.name, v), (q.name, w)]) := by
  refine ⟨_, rfl, by simpa using hne, fun f hf => ?_⟩
  simp only [List.mem_cons, List.not_mem_nil, or_false] at hf
  rcases hf with rfl | rfl
  · exact ⟨p, hp, rfl, hv⟩
  · exact ⟨q, hq, rfl, hw⟩

theorem keys_optionalField (k : String) (value : Option String) :
    ((optionalField k value).map Prod.fst).Sublist [k] := by
  cases value with
  | none => exact List.nil_sublist _
  | some s => exact List.Sublist.refl _

theorem mem_optionalField {k : String} {value : Option String} {f : String × Json}
    (hf : f ∈ optionalField k value) : ∃ s, f = (k, .str s) := by
  obtain ⟨s, _, rfl⟩ := List.mem_map.mp hf
  exact ⟨s, rfl⟩

theorem name_holds (givenName familyName : Option String) :
    nameAttribute.Holds (.obj (optionalField "givenName" givenName ++
      optionalField "familyName" familyName)) := by
  refine holds_one (by decide) ⟨_, rfl, ?_, fun f hf => ?_⟩
  · rw [List.map_append]
    exact ((keys_optionalField "givenName" givenName).append
      (keys_optionalField "familyName" familyName)).nodup (by decide)
  · rcases List.mem_append.mp hf with hf | hf
    · obtain ⟨s, rfl⟩ := mem_optionalField hf
      exact ⟨⟨"givenName", .string⟩, List.mem_cons_self .., rfl, trivial⟩
    · obtain ⟨s, rfl⟩ := mem_optionalField hf
      exact ⟨⟨"familyName", .string⟩, List.mem_cons_of_mem _ (List.mem_cons_self ..), rfl, trivial⟩

theorem emails_hold (emails : List EmailRep) :
    emailsAttribute.Holds (.arr (emails.map fun e =>
      .obj [("value", .str e.value), ("primary", .bool e.primary)])) := by
  refine holds_many rfl fun item hitem => ?_
  obtain ⟨e, _, rfl⟩ := List.mem_map.mp hitem
  exact @holdsParts_pair emailsAttribute.subAttributes ⟨"value", .string⟩ ⟨"primary", .boolean⟩
    (List.mem_cons_self ..) (List.mem_cons_of_mem _ (List.mem_cons_self ..)) (by decide) _ _
    trivial trivial

theorem members_hold (members : List MemberRep) :
    membersAttribute.Holds (.arr (members.map fun m =>
      .obj [("value", .str m.value), ("display", .str m.display)])) := by
  refine holds_many rfl fun item hitem => ?_
  obtain ⟨m, _, rfl⟩ := List.mem_map.mp hitem
  exact @holdsParts_pair membersAttribute.subAttributes ⟨"value", .string⟩ ⟨"display", .string⟩
    (List.mem_cons_self ..) (List.mem_cons_of_mem _ (List.mem_cons_self ..)) (by decide) _ _
    trivial trivial

/-- The fields that both mappers write first. -/
theorem admitted_head {attributes : List Attribute} (schemas : Json) (resource : String)
    (externalId : Option String) {f : String × Json}
    (hf : f ∈ [("schemas", schemas), ("id", .str resource)] ++
      optionalField "externalId" externalId) : Admitted attributes commonAttributes f := by
  rcases List.mem_append.mp hf with hf | hf
  · simp only [List.mem_cons, List.not_mem_nil, or_false] at hf
    rcases hf with rfl | rfl <;> exact admitted_common (by decide) _
  · obtain ⟨s, rfl⟩ := mem_optionalField hf
    exact admitted_common (by decide) _

theorem userJson_conforms (rep : UserRep) : ∃ fields, userJson rep = .obj fields ∧
    Conforms USER_SCHEMA.attributes commonAttributes fields := by
  refine ⟨_, rfl, ?_, fun a ha hrequired => ?_, fun f hf => ?_⟩
  · rw [List.map_append, List.map_append]
    exact (((List.Sublist.refl ["schemas", "id"]).append
      (keys_optionalField "externalId" rep.externalId)).append (List.Sublist.refl
        ["userName", "name", "emails", "active", "meta"])).nodup (by decide)
  · simp only [USER_SCHEMA, List.mem_cons, List.not_mem_nil, or_false] at ha
    rcases ha with rfl | rfl | rfl | rfl
    · simp
    · simp [nameAttribute] at hrequired
    · simp [emailsAttribute] at hrequired
    · simp at hrequired
  · rcases List.mem_append.mp hf with hf | hf
    · exact admitted_head _ _ _ hf
    · simp only [List.mem_cons, List.not_mem_nil, or_false] at hf
      rcases hf with rfl | rfl | rfl | rfl | rfl
      · exact Or.inr ⟨_, List.mem_cons_self .., rfl, holds_one (by decide) trivial⟩
      · exact Or.inr ⟨nameAttribute, by simp [USER_SCHEMA], rfl, name_holds _ _⟩
      · exact Or.inr ⟨emailsAttribute, by simp [USER_SCHEMA], rfl, emails_hold _⟩
      · exact Or.inr ⟨⟨"active", .boolean, some false, some false, none, []⟩,
          by simp [USER_SCHEMA], rfl, holds_one (by decide) trivial⟩
      · exact admitted_common (by decide) _

theorem groupJson_conforms (rep : GroupRep) : ∃ fields, groupJson rep = .obj fields ∧
    Conforms GROUP_SCHEMA.attributes commonAttributes fields := by
  refine ⟨_, rfl, ?_, fun a ha hrequired => ?_, fun f hf => ?_⟩
  · rw [List.map_append, List.map_append]
    exact (((List.Sublist.refl ["schemas", "id"]).append
      (keys_optionalField "externalId" rep.externalId)).append (List.Sublist.refl
        ["displayName", "members", "meta"])).nodup (by decide)
  · simp only [GROUP_SCHEMA, List.mem_cons, List.not_mem_nil, or_false] at ha
    rcases ha with rfl | rfl
    · simp
    · simp [membersAttribute] at hrequired
  · rcases List.mem_append.mp hf with hf | hf
    · exact admitted_head _ _ _ hf
    · simp only [List.mem_cons, List.not_mem_nil, or_false] at hf
      rcases hf with rfl | rfl | rfl
      · exact Or.inr ⟨_, List.mem_cons_self .., rfl, holds_one (by decide) trivial⟩
      · exact Or.inr ⟨membersAttribute, by simp [GROUP_SCHEMA], rfl, members_hold _⟩
      · exact admitted_common (by decide) _

/-- The location that the mappers write, put together as it is advertised. -/
theorem location_eq (baseUrl endpoint resource : String) :
    baseUrl ++ "/scim/v2" ++ ("/" ++ endpoint) ++ "/" ++ resource =
      baseUrl ++ ("/scim/v2/" ++ endpoint ++ "/") ++ resource := by
  have hpath : "/scim/v2/" = "/scim/v2" ++ "/" := rfl
  simp only [hpath, String.append_assoc]

theorem showsResource_user (baseUrl : String) (u : ScimUser) :
    ShowsResource baseUrl userType USER_SCHEMA u.id (userJson (toScimUser u baseUrl)) where
  fields := userJson_conforms _
  schemas := rfl
  advertised := rfl
  id := rfl
  resourceType := by
    unfold userJson toScimUser
    cases u.externalId <;> rfl
  location := by
    have hlocation := location_eq baseUrl "Users" u.id
    unfold userJson toScimUser
    cases u.externalId <;> exact congrArg (some ∘ Json.str) hlocation.symm

theorem showsResource_group (baseUrl : String) (g : GroupWithMembers) :
    ShowsResource baseUrl groupType GROUP_SCHEMA g.group.id
      (groupJson (toScimGroup g baseUrl)) where
  fields := groupJson_conforms _
  schemas := rfl
  advertised := rfl
  id := rfl
  resourceType := by
    unfold groupJson toScimGroup
    cases g.group.externalId <;> rfl
  location := by
    have hlocation := location_eq baseUrl "Groups" g.group.id
    unfold groupJson toScimGroup
    cases g.group.externalId <;> exact congrArg (some ∘ Json.str) hlocation.symm

end OktaScim.Discovery
