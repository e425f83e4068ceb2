import OktaScim.GroupUpdates
import OktaScim.UserUpdates
import OktaScim.MembershipRefinement

/-!
A resource that is read and written back unchanged. The body of a GET passes
the validation of a PUT, and the fields that it leaves out are those whose
columns the PUT leaves alone, so that only the time of the last change moves.
-/
namespace OktaScim.ReadWriteBack

open Programs Schema KeyedRows JsValues PrismaClient PrismaConstraints Bodies Representations
open Requests RequestPrograms UserUpdates GroupUpdates MembershipRefinement

/-- A field that is sent where it has a value. -/
def sent (value : Option String) : Nullable String :=
  match value with
  | none => .undefined
  | some s => .value s

theorem writeColumn_sent (value : Option String) : writeColumn (sent value) value = value := by
  cases value <;> rfl

theorem readString_sent (value : Option String) :
    readString (value.map Json.str) = some (sent value) := by
  cases value <;> rfl

section Users

/-- The body that a user's representation is read as. -/
def userDto (rep : UserRep) : UpdateScimUserDto where
  userName := rep.userName
  externalId := sent rep.externalId
  name := .value ⟨sent rep.givenName, sent rep.familyName⟩
  emails := .value (rep.emails.map fun e => some ⟨.value e.value, .value e.primary, .undefined⟩)
  active := .value rep.active
  password := .undefined

theorem get_userJson (rep : UserRep) :
    (userJson rep).get "userName" = some (.str rep.userName) ∧
      (userJson rep).get "schemas" = some (.arr (rep.schemas.map .str)) ∧
      (userJson rep).get "externalId" = rep.externalId.map .str ∧
      (userJson rep).get "name" = some (.obj (optionalField "givenName" rep.givenName ++
        optionalField "familyName" rep.familyName)) ∧
      (userJson rep).get "emails" = some (.arr (rep.emails.map fun e =>
        .obj [("value", .str e.value), ("primary", .bool e.primary)])) ∧
      (userJson rep).get "active" = some (.bool rep.active) ∧
      (userJson rep).get "password" = none := by
  unfold userJson
  cases rep.externalId <;> simp [optionalField, Json.get]

theorem get_name (givenName familyName : Option String) :
    (Json.obj (optionalField "givenName" givenName ++ optionalField "familyName" familyName)).get
        "givenName" = givenName.map .str ∧
      (Json.obj (optionalField "givenName" givenName ++
        optionalField "familyName" familyName)).get "familyName" = familyName.map .str := by
  cases givenName <;> cases familyName <;> simp [optionalField, Json.get]

theorem readName_rep (givenName familyName : Option String) :
    readName (some (.obj (optionalField "givenName" givenName ++
      optionalField "familyName" familyName))) =
      some (.value ⟨sent givenName, sent familyName⟩) := by
  obtain ⟨hgiven, hfamily⟩ := get_name givenName familyName
  simp [readName, nestedOk, nameOk, nameOf, stringField, hgiven, hfamily, readString_sent]

theorem readEmails_rep (emails : List EmailRep) :
    readEmails (some (.arr (emails.map fun e =>
      .obj [("value", .str e.value), ("primary", .bool e.primary)]))) =
      some (.value (emails.map fun e =>
        some ⟨.value e.value, .value e.primary, .undefined⟩)) := by
  have hok : allNestedOk emailOk (emails.map fun e =>
      .obj [("value", .str e.value), ("primary", .bool e.primary)]) = true := by
    induction emails with
    | nil => rfl
    | cons e emails ih =>
      rw [List.map_cons, allNestedOk, ih]
      simp [nestedOk, emailOk, Json.get, readString, readBoolean]
  simp only [readEmails, hok, if_true, List.map_map]
  rfl

/-- The body of a GET passes the validation of a PUT. -/
theorem readUserDto_userJson (rep : UserRep) : readUserDto (userJson rep) = some (userDto rep) := by
  obtain ⟨hname, hschemas, hexternal, hnames, hemails, hactive, hpassword⟩ := get_userJson rep
  unfold readUserDto
  have hobj : ∃ fields, userJson rep = .obj fields := ⟨_, rfl⟩
  obtain ⟨fields, hfields⟩ := hobj
  rw [hfields] at hname hschemas hexternal hnames hemails hactive hpassword ⊢
  have hnone : readString none = some .undefined := rfl
  simp only [hname, hschemas, hexternal, hnames, hemails, hactive, hpassword, arrayOk, if_true,
    readString_sent, readName_rep, readEmails_rep, readBoolean, hnone]
  rfl

def touchUser (now : ℕ) (u : ScimUser) : ScimUser := { u with updatedAt := now }

/-- What was read of a user changes nothing when it is written. -/
theorem apply_userDto (hash : String → String) (u : ScimUser) (baseUrl : String) (now : ℕ) :
    (replacement hash (userDto (toScimUser u baseUrl))).apply now u = touchUser now u := by
  have hemail : writeColumn (firstEmail (userDto (toScimUser u baseUrl)).emails) u.email =
      u.email := by
    simp only [userDto, toScimUser]
    cases hu : u.email with
    | none => rfl
    | some e =>
      by_cases he : e = ""
      · simp [he, firstEmail, writeColumn]
      · simp [he, firstEmail, writeColumn]
  have htouched := apply_updatedAt (replacement_ne_nothing hash (userDto (toScimUser u baseUrl)))
    now u
  simp only [UserUpdate.apply, replacement, touchUser, hemail, ScimUser.mk.injEq,
    true_and] at htouched ⊢
  exact ⟨writeColumn_sent u.externalId, rfl, writeColumn_sent u.givenName,
    writeColumn_sent u.familyName, rfl, rfl, htouched⟩

theorem replace_read_user (env : Env) {s : Store} (hs : s.Valid) {u : ScimUser}
    (hu : u ∈ s.users) (ticks : ℕ → Tick) (salt : String) :
    serve env ticks (.replaceUser salt u.id (userDto (toScimUser u env.baseUrl))) s =
      (.ok (userAnswer env 200 (touchUser (ticks 1).now u)), { s with
        users := modifyRow ScimUser.id u.id (touchUser (ticks 1).now) s.users }) := by
  have hfound : s.user u.id = some u := hs.user_eq_some_iff.mpr ⟨hu, rfl⟩
  have hrows : modifyRow ScimUser.id u.id ((replacement (env.bcrypt.hash salt)
      (userDto (toScimUser u env.baseUrl))).apply (ticks 1).now) s.users =
      modifyRow ScimUser.id u.id (touchUser (ticks 1).now) s.users := by
    unfold modifyRow
    apply List.map_congr_left
    intro x hx
    split
    · rename_i hid
      rw [List.inj_on_of_nodup_map hs.userIds hx hu hid, apply_userDto]
    · rfl
  have hname : (replacement (env.bcrypt.hash salt)
      (userDto (toScimUser u env.baseUrl))).userName.getD u.userName = u.userName := rfl
  unfold serve
  rw [handle_replaceUser, run_updateUser (read_replaceData env.engine _ _), hfound]
  simp only [hname, userName_free hs hu, hrows, apply_userDto]
  rfl

end Users

section Groups

/-- The body that a group's representation is read as. -/
def groupDto (rep : GroupRep) : UpdateScimGroupDto where
  displayName := rep.displayName
  externalId := sent rep.externalId
  members := .value (rep.members.map fun m => some ⟨some m.value, .value m.display⟩)

theorem get_groupJson (rep : GroupRep) :
    (groupJson rep).get "displayName" = some (.str rep.displayName) ∧
      (groupJson rep).get "schemas" = some (.arr (rep.schemas.map .str)) ∧
      (groupJson rep).get "externalId" = rep.externalId.map .str ∧
      (groupJson rep).get "members" = some (.arr (rep.members.map fun m =>
        .obj [("value", .str m.value), ("display", .str m.display)])) := by
  unfold groupJson
  cases rep.externalId <;> simp [optionalField, Json.get]

theorem readMemberList_rep (members : List MemberRep) :
    readMemberList (some (.arr (members.map fun m =>
      .obj [("value", .str m.value), ("display", .str m.display)]))) =
      some (.value (members.map fun m => some ⟨some m.value, .value m.display⟩)) := by
  have hok : allNestedOk memberOk (members.map fun m =>
      .obj [("value", .str m.value), ("display", .str m.display)]) = true := by
    induction members with
    | nil => rfl
    | cons m members ih =>
      rw [List.map_cons, allNestedOk, ih]
      simp [nestedOk, memberOk, stringOf, Json.get, readString]
  simp only [readMemberList, hok, if_true, List.map_map]
  rfl

theorem readGroupDto_groupJson (rep : GroupRep) :
    readGroupDto (groupJson rep) = some (groupDto rep) := by
  obtain ⟨hname, hschemas, hexternal, hmembers⟩ := get_groupJson rep
  unfold readGroupDto
  obtain ⟨fields, hfields⟩ : ∃ fields, groupJson rep = .obj fields := ⟨_, rfl⟩
  rw [hfields] at hname hschemas hexternal hmembers ⊢
  simp only [hname, hschemas, hexternal, hmembers, arrayOk, if_true, readString_sent,
    readMemberList_rep]
  rfl

theorem memberCreates_groupDto (rep : GroupRep) :
    GroupsService.memberCreates (groupDto rep).members =
      some ((rep.members.map MemberRep.value).map some) := by
  unfold GroupsService.memberCreates groupDto Nullable.orElse
  induction rep.members with
  | nil => rfl
  | cons m members ih =>
    dsimp only at ih ⊢
    simp only [List.map_cons, List.mapM_cons, ih]
    rfl

theorem readMembers_some (userIds : List String) :
    readMembers (userIds.map some) = some userIds := by
  unfold readMembers
  induction userIds with
  | nil => rfl
  | cons u us ih =>
    rw [List.map_cons, List.mapM_cons, ih]
    rfl

/-- New memberships of users that exist are inserted. -/
theorem insertMembers_eq_ok {groupId : String} {userIds : List String} {s : Store}
    (hnodup : userIds.Nodup) (hgroup : (s.group groupId).isSome = true)
    (hnew : ∀ u ∈ userIds, (⟨groupId, u⟩ : ScimGroupMember) ∉ s.members)
    (husers : ∀ u ∈ userIds, (s.user u).isSome = true) :
    insertMembers groupId userIds s =
      .ok { s with members := s.members ++ userIds.map (ScimGroupMember.mk groupId) } := by
  induction userIds generalizing s with
  | nil => simp [insertMembers]
  | cons u us ih =>
    obtain ⟨hu, hus⟩ := List.nodup_cons.mp hnodup
    have hins :
        insertMember ⟨groupId, u⟩ s = .ok { s with members := s.members ++ [⟨groupId, u⟩] } := by
      unfold insertMember
      rw [if_neg (hnew u (List.mem_cons_self ..)),
        if_pos ⟨hgroup, husers u (List.mem_cons_self ..)⟩]
    have hrest := new_behind_member hu hnew
    simp only [insertMembers, hins]
    rw [ih (s := { s with members := s.members ++ [⟨groupId, u⟩] }) hus hgroup hrest
      fun v hv => husers v (List.mem_cons_of_mem _ hv)]
    simp

def touchGroup (now : ℕ) (g : ScimGroup) : ScimGroup := { g with updatedAt := now }

/-- The tables after a group was written back: its rows of the membership
table are made anew, at the end of the table. -/
def rewritten (now : ℕ) (g : ScimGroup) (s : Store) : Store where
  users := s.users
  groups := modifyRow ScimGroup.id g.id (touchGroup now) s.groups
  members := eraseRow ScimGroupMember.groupId g.id s.members ++
    (s.memberIds g.id).map (ScimGroupMember.mk g.id)

theorem members_perm (s : Store) (id : String) :
    (eraseRow ScimGroupMember.groupId id s.members ++
      (s.memberIds id).map (ScimGroupMember.mk id)).Perm s.members := by
  have hown : (s.memberIds id).map (ScimGroupMember.mk id) =
      s.members.filter (fun m => m.groupId = id) := by
    unfold Store.memberIds
    rw [List.map_map]
    conv_rhs => rw [← List.map_id (s.members.filter _)]
    apply List.map_congr_left
    intro m hm
    have hid : m.groupId = id := by simpa using (List.mem_filter.mp hm).2
    rw [← hid]
    rfl
  rw [hown]
  refine List.perm_append_comm.trans ?_
  have hsplit :=
    List.filter_append_perm (fun m : ScimGroupMember => decide (m.groupId = id)) s.members
  have hneg : (fun m : ScimGroupMember => decide (m.groupId ≠ id)) =
      fun m => !decide (m.groupId = id) := by
    funext m
    exact decide_not
  unfold eraseRow
  rwa [hneg]

theorem rows_touched {s : Store} (hs : s.Valid) {g : ScimGroup} (hg : g ∈ s.groups) (now : ℕ) :
    modifyRow ScimGroup.id g.id (updateGroup now (some g.displayName) (sent g.externalId))
      s.groups = modifyRow ScimGroup.id g.id (touchGroup now) s.groups := by
  unfold modifyRow
  apply List.map_congr_left
  intro x hx
  split
  · rename_i hid
    rw [List.inj_on_of_nodup_map hs.groupIds hx hg hid]
    simp only [updateGroup, touchGroup, writeColumn_sent, Option.getD_some]
  · rfl

/-- The update of a group to what it is, with its memberships deleted before. -/
theorem groupUpdate_rewrites {t : Tick} {s : Store} (hs : s.Valid) {g : ScimGroup}
    (hg : g ∈ s.groups) :
    (Write.groupUpdate g.id (some g.displayName) (sent g.externalId) (s.memberIds g.id)).exec t
        { s with members := eraseRow ScimGroupMember.groupId g.id s.members } =
      .ok (rewritten t.now g s) := by
  have hfound : s.group g.id = some g := hs.group_eq_some_iff.mpr ⟨hg, rfl⟩
  have hfree : displayNameTaken
      { s with members := eraseRow ScimGroupMember.groupId g.id s.members } g.id
      ((some g.displayName).getD g.displayName) = false := displayName_free hs hg
  have hsame : Store.group
      { s with members := eraseRow ScimGroupMember.groupId g.id s.members } g.id = some g := hfound
  have hgroup : (Store.group { s with
      groups := modifyRow ScimGroup.id g.id (touchGroup t.now) s.groups
      members := eraseRow ScimGroupMember.groupId g.id s.members } g.id).isSome = true := by
    unfold Store.group at hfound ⊢
    rw [findRow_modifyRow g.id g.id (touchGroup t.now) fun _ => rfl, if_pos rfl, hfound]
    rfl
  have hinserted := insertMembers_eq_ok (s := { s with
      groups := modifyRow ScimGroup.id g.id (touchGroup t.now) s.groups
      members := eraseRow ScimGroupMember.groupId g.id s.members }) (hs.nodup_memberIds g.id)
    hgroup (fun u _ hmem => (mem_eraseRow.mp hmem).2 rfl)
    fun u hu => hs.memberUser _ (Store.mem_memberIds.mp hu)
  simp only [Write.exec, hsame, hfree, rows_touched hs hg]
  exact hinserted

/-- The batch of a PUT with the columns and members that were read. -/
theorem transaction_rewrites {E : Engine} {t : Tick} {s : Store} (hs : s.Valid) {g : ScimGroup}
    (hg : g ∈ s.groups) (dto : UpdateScimGroupDto) (hname : dto.displayName = g.displayName)
    (hexternal : dto.externalId = sent g.externalId) :
    transaction E t (GroupsService.replaceOperations g.id dto ((s.memberIds g.id).map some)) s =
      .ok ((), rewritten t.now g s) := by
  rw [transaction_replaceOperations E t g.id dto (readMembers_some _), hname, hexternal,
    groupUpdate_rewrites hs hg]
  rfl

theorem replace_read_group (env : Env) {s : Store} (hs : s.Valid) {g : ScimGroup}
    (hg : g ∈ s.groups) (ticks : ℕ → Tick) :
    ∃ g', serve env ticks (.replaceGroup g.id
        (groupDto (toScimGroup (withMembers s g) env.baseUrl))) s =
      (.ok (groupAnswer env 200 g'), rewritten (ticks 1).now g s) := by
  have hfound : s.group g.id = some g := hs.group_eq_some_iff.mpr ⟨hg, rfl⟩
  have hafter : (rewritten (ticks 1).now g s).group g.id = some (touchGroup (ticks 1).now g) := by
    unfold Store.group rewritten at *
    rw [findRow_modifyRow g.id g.id (touchGroup _) fun _ => rfl, if_pos rfl, hfound]
    rfl
  refine ⟨withMembers (rewritten (ticks 1).now g s) (touchGroup (ticks 1).now g), ?_⟩
  unfold serve
  rw [handle_replaceGroup, run_groupLookup, if_pos (by rw [hfound]; rfl), replaceGroupTail,
    memberCreates_groupDto, members_toScimGroup hs]
  simp only [run_writeGroup]
  rw [transaction_rewrites hs hg _ rfl rfl]
  simp only [Nat.zero_add, run_readGroup, hafter]

end Groups

/-- A user or group that is read and sent back is answered 200, and only the
time of its last change is another. -/
theorem write_back_identity (env : Env) {s : Store} (hs : s.Valid) (ticks ticks' : ℕ → Tick)
    (salt : String) :
    (∀ u ∈ s.users, ∃ rep dto user,
      serve env ticks (.getUser u.id) s = (.ok ⟨200, .user rep⟩, s) ∧
      readUserDto (userJson rep) = some dto ∧
      serve env ticks' (.replaceUser salt u.id dto) s = (.ok (userAnswer env 200 user), { s with
        users := modifyRow ScimUser.id u.id (touchUser (ticks' 1).now) s.users })) ∧
    ∀ g ∈ s.groups, ∃ rep dto group s',
      serve env ticks (.getGroup g.id) s = (.ok ⟨200, .group rep⟩, s) ∧
      readGroupDto (groupJson rep) = some dto ∧
      serve env ticks' (.replaceGroup g.id dto) s = (.ok (groupAnswer env 200 group), s') ∧
      s'.users = s.users ∧
      s'.groups = modifyRow ScimGroup.id g.id (touchGroup (ticks' 1).now) s.groups ∧
      s'.members.Perm s.members := by
  constructor
  · intro u hu
    have hfound : s.user u.id = some u := hs.user_eq_some_iff.mpr ⟨hu, rfl⟩
    refine ⟨toScimUser u env.baseUrl, _, _, ?_, readUserDto_userJson _,
      replace_read_user env hs hu ticks' salt⟩
    unfold serve
    rw [handle_getUser]
    simp only [run, exec, hfound]
    rfl
  · intro g hg
    have hfound : s.group g.id = some g := hs.group_eq_some_iff.mpr ⟨hg, rfl⟩
    obtain ⟨group, hserve⟩ := replace_read_group env hs hg ticks'
    refine ⟨toScimGroup (withMembers s g) env.baseUrl, _, group, _, ?_, readGroupDto_groupJson _,
      hserve, rfl, rfl, members_perm s g.id⟩
    unfold serve
    rw [handle_getGroup, run_readGroup, hfound]
    rfl

theorem write_back_identity_sample :
    (∃ rep dto user,
      serve sampleEnv sampleTicks (.getUser "u") staffedStore =
        (.ok ⟨200, .user rep⟩, staffedStore) ∧
      readUserDto (userJson rep) = some dto ∧
      serve sampleEnv sampleTicks (.replaceUser "" "u" dto) staffedStore =
        (.ok (userAnswer sampleEnv 200 user), { staffedStore with
          users := modifyRow ScimUser.id "u" (touchUser 1) staffedStore.users })) ∧
    ∃ rep dto group s',
      serve sampleEnv sampleTicks (.getGroup "g") staffedStore =
        (.ok ⟨200, .group rep⟩, staffedStore) ∧
      readGroupDto (groupJson rep) = some dto ∧
      serve sampleEnv sampleTicks (.replaceGroup "g" dto) staffedStore =
        (.ok (groupAnswer sampleEnv 200 group), s') ∧
      s'.users = staffedStore.users ∧
      s'.groups = modifyRow ScimGroup.id "g" (touchGroup 1) staffedStore.groups ∧
      s'.members.Perm staffedStore.members := by
  have hback := write_back_identity sampleEnv staffedStore_valid sampleTicks sampleTicks ""
  exact ⟨hback.1 _ List.mem_cons_self, hback.2 _ List.mem_cons_self⟩

end OktaScim.ReadWriteBack
