import OktaScim.KeyedRows

/-!
The tables of `prisma/schema.prisma` and the constraints of its migration. The
column `raw` of a user, which nothing reads or writes, and the surrogate key of
a membership, which nothing reads, are left out. A time is a number of
milliseconds.
-/
namespace OktaScim.Schema

open KeyedRows

structure ScimUser : Type where
  id : String
  externalId : Option String
  userName : String
  givenName : Option String
  familyName : Option String
  email : Option String
  active : Bool
  passwordHash : Option String
  createdAt : ℕ
  updatedAt : ℕ
deriving DecidableEq

structure ScimGroup : Type where
  id : String
  externalId : Option String
  displayName : String
  createdAt : ℕ
  updatedAt : ℕ
deriving DecidableEq

structure ScimGroupMember : Type where
  groupId : String
  userId : String
deriving DecidableEq

structure Store : Type where
  users : List ScimUser
  groups : List ScimGroup
  members : List ScimGroupMember
deriving DecidableEq

namespace Store

def empty : Store := ⟨[], [], []⟩

def user (s : Store) (id : String) : Option ScimUser := findRow ScimUser.id id s.users

def userNamed (s : Store) (userName : String) : Option ScimUser :=
  findRow ScimUser.userName userName s.users

def group (s : Store) (id : String) : Option ScimGroup := findRow ScimGroup.id id s.groups

def groupNamed (s : Store) (displayName : String) : Option ScimGroup :=
  findRow ScimGroup.displayName displayName s.groups

/-- The user ids of a group's memberships. -/
def memberIds (s : Store) (groupId : String) : List String :=
  (s.members.filter (fun m => m.groupId = groupId)).map ScimGroupMember.userId

theorem mem_memberIds {s : Store} {groupId u : String} :
    u ∈ s.memberIds groupId ↔ (⟨groupId, u⟩ : ScimGroupMember) ∈ s.members := by
  simp only [memberIds, List.mem_map, List.mem_filter, decide_eq_true_eq]
  constructor
  · rintro ⟨⟨g, v⟩, ⟨hm, rfl⟩, rfl⟩
    exact hm
  · exact fun hm => ⟨_, ⟨hm, rfl⟩, rfl⟩

/-- The primary keys, unique indexes and foreign keys of the migration. -/
structure Valid (s : Store) : Prop where
  userIds : (s.users.map ScimUser.id).Nodup
  userNames : (s.users.map ScimUser.userName).Nodup
  groupIds : (s.groups.map ScimGroup.id).Nodup
  displayNames : (s.groups.map ScimGroup.displayName).Nodup
  memberPairs : s.members.Nodup
  memberGroup : ∀ m ∈ s.members, (s.group m.groupId).isSome = true
  memberUser : ∀ m ∈ s.members, (s.user m.userId).isSome = true

theorem empty_valid : empty.Valid where
  userIds := List.nodup_nil
  userNames := List.nodup_nil
  groupIds := List.nodup_nil
  displayNames := List.nodup_nil
  memberPairs := List.nodup_nil
  memberGroup := by simp [empty]
  memberUser := by simp [empty]

theorem Valid.nodup_memberIds {s : Store} (h : s.Valid) (groupId : String) :
    (s.memberIds groupId).Nodup := by
  refine (h.memberPairs.filter _).map_on ?_
  rintro ⟨g₁, u₁⟩ h₁ ⟨g₂, u₂⟩ h₂ heq
  simp only [List.mem_filter, decide_eq_true_eq] at h₁ h₂
  simp only [ScimGroupMember.mk.injEq]
  exact ⟨h₁.2.trans h₂.2.symm, heq⟩

theorem Valid.user_eq_some_iff {s : Store} (h : s.Valid) {id : String} {u : ScimUser} :
    s.user id = some u ↔ u ∈ s.users ∧ u.id = id :=
  findRow_eq_some_iff h.userIds

theorem Valid.group_eq_some_iff {s : Store} (h : s.Valid) {id : String} {g : ScimGroup} :
    s.group id = some g ↔ g ∈ s.groups ∧ g.id = id :=
  findRow_eq_some_iff h.groupIds

end Store

end OktaScim.Schema
