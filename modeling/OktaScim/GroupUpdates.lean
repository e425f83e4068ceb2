import OktaScim.RequestPrograms
import OktaScim.PrismaConstraints

/-!
What a PUT of a group, served alone, leaves in the tables.
-/
namespace OktaScim.GroupUpdates

open Programs Schema KeyedRows JsValues PrismaClient PrismaConstraints Bodies
open Requests RequestPrograms

/-- The tables after the batch of a PUT that lists `userIds`. -/
structure Replaced (now : ℕ) (id : String) (dto : UpdateScimGroupDto) (userIds : List String)
    (s s' : Store) : Prop where
  users : s'.users = s.users
  groups : s'.groups =
    modifyRow ScimGroup.id id (updateGroup now (some dto.displayName) dto.externalId) s.groups
  members : s'.members =
    eraseRow ScimGroupMember.groupId id s.members ++ userIds.map (ScimGroupMember.mk id)
  nodup : userIds.Nodup

theorem read_replaceOperations (E : Engine) (id : String) (dto : UpdateScimGroupDto)
    {members : List (Option String)} {userIds : List String}
    (hids : readMembers members = some userIds) :
    (GroupsService.replaceOperations id dto members).mapM (BatchOp.read E) =
      some [.memberDeleteMany (some id) (fun _ => true),
        .groupUpdate id (some dto.displayName) dto.externalId userIds] := by
  simp [GroupsService.replaceOperations, BatchOp.read, readFilter, hids]

/-- A delete that is not narrowed down empties the group. -/
theorem memberDeleteMany_exec (t : Tick) (id : String) (s : Store) :
    (Write.memberDeleteMany (some id) fun _ => true).exec t s =
      .ok { s with members := eraseRow ScimGroupMember.groupId id s.members } := by
  simp [Write.exec, eraseRow]

/-- The batch of a PUT is the update of the group after it was emptied. -/
theorem transaction_replaceOperations (E : Engine) (t : Tick) (id : String)
    (dto : UpdateScimGroupDto) {members : List (Option String)} {userIds : List String}
    (hids : readMembers members = some userIds) (s : Store) :
    transaction E t (GroupsService.replaceOperations id dto members) s =
      ((Write.groupUpdate id (some dto.displayName) dto.externalId userIds).exec t
        { s with members := eraseRow ScimGroupMember.groupId id s.members }).map
          fun s' => ((), s') := by
  rw [transaction_of_read (read_replaceOperations E id dto hids)]
  simp only [execWrites, memberDeleteMany_exec]
  cases (Write.groupUpdate id (some dto.displayName) dto.externalId userIds).exec t
    { s with members := eraseRow ScimGroupMember.groupId id s.members } <;> rfl

theorem transaction_replaceOperations_ok {E : Engine} {t : Tick} {id : String}
    {dto : UpdateScimGroupDto} {members : List (Option String)} {s s' : Store} {x : Unit}
    (h : transaction E t (GroupsService.replaceOperations id dto members) s = .ok (x, s')) :
    ∃ userIds, readMembers members = some userIds ∧ Replaced t.now id dto userIds s s' := by
  obtain ⟨ws, hread, hrun⟩ := transaction_ok h
  cases hids : readMembers members with
  | none => simp [GroupsService.replaceOperations, BatchOp.read, readFilter, hids] at hread
  | some userIds =>
    rw [read_replaceOperations E id dto hids, Option.some.injEq] at hread
    subst hread
    obtain ⟨mid, hmid, hrest⟩ := execWrites_cons_ok hrun
    rw [memberDeleteMany_exec] at hmid
    cases hmid
    obtain ⟨last, hlast, hnil⟩ := execWrites_cons_ok hrest
    cases hnil
    obtain ⟨g, _, _, hins⟩ := groupUpdate_ok hlast
    obtain ⟨hnodup, _, rfl⟩ := insertMembers_ok hins
    exact ⟨userIds, rfl, ⟨rfl, rfl, rfl, hnodup⟩⟩

/-- A PUT that succeeds has found its group, has replaced it, and shows what it
has left. -/
theorem replaceGroup_ok {env : Env} {ticks : ℕ → Tick} {id : String} {dto : UpdateScimGroupDto}
    {s s' : Store} {a : Answer}
    (h : serve env ticks (.replaceGroup id dto) s = (.ok a, s')) :
    ∃ members userIds g, GroupsService.memberCreates dto.members = some members ∧
      readMembers members = some userIds ∧ s.group id = some g ∧
      Replaced (ticks 1).now id dto userIds s s' ∧
      ∃ g', s'.group id = some g' ∧ a = groupAnswer env 200 (withMembers s' g') := by
  unfold serve at h
  rw [handle_replaceGroup] at h
  obtain ⟨hid, htail⟩ := run_groupLookup_ok h
  obtain ⟨g, hg⟩ := Option.isSome_iff_exists.mp hid
  unfold replaceGroupTail at htail
  cases hmembers : GroupsService.memberCreates dto.members with
  | none =>
    rw [hmembers] at htail
    cases htail
  | some members =>
    rw [hmembers] at htail
    obtain ⟨htr, hanswer⟩ := run_writeGroup_ok htail
    obtain ⟨userIds, hids, hrepl⟩ := transaction_replaceOperations_ok htr
    exact ⟨members, userIds, g, rfl, hids, hg, hrepl, hanswer⟩

theorem Replaced.group {now : ℕ} {id : String} {dto : UpdateScimGroupDto}
    {userIds : List String} {s s' : Store} (h : Replaced now id dto userIds s s') (id' : String) :
    s'.group id' =
      if id' = id then
        (s.group id').map (updateGroup now (some dto.displayName) dto.externalId)
      else s.group id' := by
  unfold Store.group
  rw [h.groups]
  exact findRow_modifyRow id id' (updateGroup now _ _) (fun _ => rfl) s.groups

/-- The memberships of the group are those listed, in their order. -/
theorem Replaced.own_members {now : ℕ} {id : String} {dto : UpdateScimGroupDto}
    {userIds : List String} {s s' : Store} (h : Replaced now id dto userIds s s') :
    s'.members.filter (fun m => m.groupId = id) = userIds.map (ScimGroupMember.mk id) := by
  rw [h.members, List.filter_append]
  have hold : (eraseRow ScimGroupMember.groupId id s.members).filter
      (fun m => m.groupId = id) = [] := by
    simp [eraseRow, List.filter_filter]
  have hnew : (userIds.map (ScimGroupMember.mk id)).filter (fun m => m.groupId = id) =
      userIds.map (ScimGroupMember.mk id) := by
    simp
  rw [hold, hnew, List.nil_append]

end OktaScim.GroupUpdates
