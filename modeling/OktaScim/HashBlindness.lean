import OktaScim.TwoRuns
import OktaScim.Endpoints
import OktaScim.RequestPrograms

/-!
Password hashes and the answers. Without its hashes a store answers every
database call of the services as it does with them, but for the hashes in the
rows that it hands over, and the representations do not show these. So two
stores that differ in their hashes cannot be told apart by any sequence of
calls, whatever is hashed on the way.
-/
namespace OktaScim.HashBlindness

open Programs TwoRuns Schema KeyedRows JsValues PrismaClient ScimFilter Bodies UserPatch GroupPatch
open Representations Requests RequestPrograms Endpoints

section Rows

def hideUser (u : ScimUser) : ScimUser := { u with passwordHash := none }

/-- The store without its password hashes. -/
def hide (s : Store) : Store := { s with users := s.users.map hideUser }

def hideMembers (g : GroupWithMembers) : GroupWithMembers :=
  { g with members := g.members.map fun m => (m.1, hideUser m.2) }

def hideCreate (data : UserCreateData) : UserCreateData := { data with passwordHash := none }

def hideUpdate (data : UserUpdateData) : UserUpdateData := { data with passwordHash := none }

/-- The hash is not all that is written. -/
def HashApart (data : UserUpdateData) : Prop :=
  data.passwordHash = none ∨ data.userName.isSome = true

@[simp] theorem hideUser_id (u : ScimUser) : (hideUser u).id = u.id := rfl

@[simp] theorem hideUser_userName (u : ScimUser) : (hideUser u).userName = u.userName := rfl

@[simp] theorem hide_group (s : Store) (id : String) : (hide s).group id = s.group id := rfl

@[simp] theorem hide_user (s : Store) (id : String) :
    (hide s).user id = (s.user id).map hideUser :=
  findRow_map hideUser_id id s.users

@[simp] theorem hide_userNamed (s : Store) (n : String) :
    (hide s).userNamed n = (s.userNamed n).map hideUser :=
  findRow_map hideUser_userName n s.users

@[simp] theorem hide_userNameTaken (s : Store) (id n : String) :
    userNameTaken (hide s) id n = userNameTaken s id n := by
  simp only [userNameTaken, hide, List.any_map]
  rfl

theorem hide_withMembers (s : Store) (g : ScimGroup) :
    withMembers (hide s) g = hideMembers (withMembers s g) := by
  simp only [withMembers, hideMembers, hide_user, List.map_filterMap, Option.map_map]
  rfl

end Rows

section UserCalls

theorem userCreate_hide (t : Tick) (data : UserCreateData) (s : Store) :
    userCreate t (hideCreate data) (hide s) =
      (userCreate t data s).map (Prod.map hideUser hide) := by
  have hname : (hideCreate data).userName = data.userName := rfl
  unfold userCreate
  rw [hide_user, hide_userNamed, hname, Option.isSome_map, Option.isSome_map]
  split
  · rfl
  · simp only [Except.map, Prod.map, hide, List.map_append, List.map_singleton]
    rfl

theorem read_hideUpdate (E : Engine) (data : UserUpdateData) :
    (hideUpdate data).read E =
      (data.read E).map fun upd => { upd with passwordHash := none } := by
  simp [UserUpdateData.read, hideUpdate, Option.map_bind]

theorem nothing_of_hide {E : Engine} {data : UserUpdateData} (hdata : HashApart data)
    {upd : UserUpdate} (hread : data.read E = some upd) :
    ({ upd with passwordHash := none } : UserUpdate) = .nothing ↔ upd = .nothing := by
  simp only [UserUpdateData.read, Option.bind_eq_bind, Option.bind_eq_some_iff,
    Option.pure_def, Option.some.injEq] at hread
  obtain ⟨_, _, _, _, _, _, _, _, rfl⟩ := hread
  rcases hdata with hhash | hname
  · rw [hhash]
  · obtain ⟨n, hn⟩ := Option.isSome_iff_exists.mp hname
    simp [UserUpdate.nothing, hn]

theorem userUpdate_hide (E : Engine) (t : Tick) (id : String) {data : UserUpdateData}
    (hdata : HashApart data) (s : Store) :
    userUpdate E t id (hideUpdate data) (hide s) =
      (userUpdate E t id data s).map (Prod.map hideUser hide) := by
  unfold userUpdate
  rw [read_hideUpdate, hide_user]
  cases hread : data.read E with
  | none => rfl
  | some upd =>
    cases s.user id with
    | none => rfl
    | some u =>
      have happly : ∀ u, ({ upd with passwordHash := none } : UserUpdate).apply t.now (hideUser u) =
          hideUser (upd.apply t.now u) := by
        intro u
        simp only [UserUpdate.apply, nothing_of_hide hdata hread]
        rfl
      simp only [Option.map_some, hide_userNameTaken, happly, hideUser_userName]
      split
      · rfl
      · simp only [Except.map, Prod.map, hide, modifyRow_map hideUser_id id happly]

theorem userDelete_hide (id : String) (s : Store) :
    userDelete id (hide s) = (userDelete id s).map (Prod.map (fun r => r) hide) := by
  unfold userDelete
  rw [hide_user]
  cases s.user id with
  | none => rfl
  | some u => simp only [Option.map_some, Except.map, Prod.map, hide, eraseRow_map hideUser_id]

theorem window_map {α β : Type} (f : α → β) (skip take : ℚ) (rows : List α) :
    window skip take (rows.map f) = (window skip take rows).map (List.map f) := by
  unfold window
  split
  · simp [Except.map, List.map_take, List.map_drop]
  · rfl

theorem matchingUsers_hide (n : Option String) (s : Store) :
    matchingUsers n (hide s) = (matchingUsers n s).map hideUser := by
  cases n with
  | none => rfl
  | some n =>
    simp only [matchingUsers, hide, List.filter_map]
    rfl

theorem userList_hide (t : Tick) (n : Option String) (skip take : ℚ) (s : Store) :
    userList t n skip take (hide s) =
      (userList t n skip take s).map (Prod.map (fun r => (r.1, r.2.map hideUser)) hide) := by
  have hsort := List.map_insertionSort (r := listBefore ScimUser.createdAt ScimUser.id t)
    (s := listBefore ScimUser.createdAt ScimUser.id t) hideUser (matchingUsers n s)
    (fun _ _ _ _ => Iff.rfl)
  simp only [userList, matchingUsers_hide, ← hsort, window_map, List.length_map]
  cases window skip take ((matchingUsers n s).insertionSort
    (listBefore ScimUser.createdAt ScimUser.id t)) <;> rfl

end UserCalls

section GroupCalls

theorem insertMember_hide (m : ScimGroupMember) (s : Store) :
    insertMember m (hide s) = (insertMember m s).map hide := by
  have hmembers : (hide s).members = s.members := rfl
  unfold insertMember
  rw [hmembers, hide_group, hide_user, Option.isSome_map]
  split
  · rfl
  · split <;> rfl

theorem insertMembers_hide (groupId : String) (userIds : List String) (s : Store) :
    insertMembers groupId userIds (hide s) = (insertMembers groupId userIds s).map hide := by
  induction userIds generalizing s with
  | nil => rfl
  | cons u us ih =>
    simp only [insertMembers, insertMember_hide]
    cases insertMember ⟨groupId, u⟩ s with
    | error e => rfl
    | ok s' => exact ih s'

theorem groupCreate_hide (t : Tick) (data : GroupCreateData) (s : Store) :
    groupCreate t data (hide s) = (groupCreate t data s).map (Prod.map hideMembers hide) := by
  have hnamed : (hide s).groupNamed data.displayName = s.groupNamed data.displayName := rfl
  have hrow : ({ hide s with groups := (hide s).groups ++ [newGroup t data] } : Store) =
      hide { s with groups := s.groups ++ [newGroup t data] } := rfl
  unfold groupCreate
  cases readMembers data.members with
  | none => rfl
  | some userIds =>
    simp only [hide_group, hnamed, hrow, insertMembers_hide]
    split
    · rfl
    · cases insertMembers t.uuid userIds { s with groups := s.groups ++ [newGroup t data] } with
      | error e => rfl
      | ok s' => simp only [Except.map, Prod.map, hide_withMembers]

theorem exec_write_hide (t : Tick) (w : Write) (s : Store) :
    w.exec t (hide s) = (w.exec t s).map hide := by
  cases w with
  | memberDeleteMany groupId p => rfl
  | memberUpsert groupId userId =>
    have hmembers : (hide s).members = s.members := rfl
    simp only [Write.exec, hmembers]
    split
    · rfl
    · exact insertMember_hide _ s
  | groupUpdate id displayName externalId userIds =>
    have htaken : ∀ n, displayNameTaken (hide s) id n = displayNameTaken s id n := fun _ => rfl
    simp only [Write.exec, hide_group, htaken]
    cases s.group id with
    | none => rfl
    | some g =>
      simp only
      split
      · rfl
      · exact insertMembers_hide id userIds { s with
          groups := modifyRow ScimGroup.id id (updateGroup t.now displayName externalId) s.groups }

theorem execWrites_hide (t : Tick) (ws : List Write) (s : Store) :
    execWrites t ws (hide s) = (execWrites t ws s).map hide := by
  induction ws generalizing s with
  | nil => rfl
  | cons w ws ih =>
    simp only [execWrites, exec_write_hide]
    cases w.exec t s with
    | error e => rfl
    | ok s' => exact ih s'

theorem transaction_hide (E : Engine) (t : Tick) (ops : List BatchOp) (s : Store) :
    transaction E t ops (hide s) = (transaction E t ops s).map (Prod.map (fun r => r) hide) := by
  unfold transaction
  cases ops.mapM (BatchOp.read E) with
  | none => rfl
  | some ws =>
    simp only [execWrites_hide]
    cases execWrites t ws s <;> rfl

theorem groupDelete_hide (id : String) (s : Store) :
    groupDelete id (hide s) = (groupDelete id s).map (Prod.map (fun r => r) hide) := by
  unfold groupDelete
  rw [hide_group]
  cases s.group id <;> rfl

theorem groupList_hide (t : Tick) (n : Option String) (skip take : ℚ) (s : Store) :
    groupList t n skip take (hide s) =
      (groupList t n skip take s).map (Prod.map (fun r => (r.1, r.2.map hideMembers)) hide) := by
  have hrows : matchingGroups n (hide s) = matchingGroups n s := rfl
  have hmembers : withMembers (hide s) = fun g => hideMembers (withMembers s g) :=
    funext (hide_withMembers s)
  simp only [groupList, hrows, hmembers]
  cases window skip take ((matchingGroups n s).insertionSort
    (listBefore ScimGroup.createdAt ScimGroup.id t)) with
  | error e => rfl
  | ok page => simp only [Except.map, Prod.map, List.map_map, Function.comp_def]

end GroupCalls

section Calls

variable {E : Engine}

theorem rejects_map {α β : Type} (f : α → β) (x : Except PrismaError α) :
    rejects (x.map f) = (rejects x).map f := by
  cases x <;> rfl

theorem hides_userFindUnique (id : String) :
    Hides (exec E) hide (.userFindUnique id) (.userFindUnique id) (Option.map hideUser) := by
  intro t s
  simp only [exec, hide_user]
  rfl

theorem hides_userFindUniqueByName (n : String) :
    Hides (exec E) hide (.userFindUniqueByName n) (.userFindUniqueByName n)
      (Option.map hideUser) := by
  intro t s
  simp only [exec, hide_userNamed]
  rfl

theorem hides_userCreate (data : UserCreateData) :
    Hides (exec E) hide (.userCreate data) (.userCreate (hideCreate data)) hideUser := by
  intro t s
  simp only [exec, userCreate_hide, rejects_map]

theorem hides_userUpdate (id : String) {data : UserUpdateData} (hdata : HashApart data) :
    Hides (exec E) hide (.userUpdate id data) (.userUpdate id (hideUpdate data)) hideUser := by
  intro t s
  simp only [exec, userUpdate_hide E t id hdata, rejects_map]

theorem hides_userDelete (id : String) :
    Hides (exec E) hide (.userDelete id) (.userDelete id) (fun r => r) := by
  intro t s
  simp only [exec, userDelete_hide, rejects_map]

theorem hides_userList (n : Option String) (skip take : ℚ) :
    Hides (exec E) hide (.userList n skip take) (.userList n skip take)
      (fun r => (r.1, r.2.map hideUser)) := by
  intro t s
  simp only [exec, userList_hide, rejects_map]

theorem hides_groupFindUnique (id : String) :
    Hides (exec E) hide (.groupFindUnique id) (.groupFindUnique id) (Option.map hideMembers) := by
  intro t s
  simp only [exec, hide_group, Except.map, Prod.map, Option.map_map]
  rw [show withMembers (hide s) = hideMembers ∘ withMembers s from funext (hide_withMembers s)]

theorem hides_groupFindUniqueByName (n : String) :
    Hides (exec E) hide (.groupFindUniqueByName n) (.groupFindUniqueByName n) (fun r => r) :=
  fun _ _ => rfl

theorem hides_groupCreate (data : GroupCreateData) :
    Hides (exec E) hide (.groupCreate data) (.groupCreate data) hideMembers := by
  intro t s
  simp only [exec, groupCreate_hide, rejects_map]

theorem hides_transaction (ops : List BatchOp) :
    Hides (exec E) hide (.transaction ops) (.transaction ops) (fun r => r) := by
  intro t s
  simp only [exec, transaction_hide, rejects_map]

theorem hides_groupDelete (id : String) :
    Hides (exec E) hide (.groupDelete id) (.groupDelete id) (fun r => r) := by
  intro t s
  simp only [exec, groupDelete_hide, rejects_map]

theorem hides_groupList (n : Option String) (skip take : ℚ) :
    Hides (exec E) hide (.groupList n skip take) (.groupList n skip take)
      (fun r => (r.1, r.2.map hideMembers)) := by
  intro t s
  simp only [exec, groupList_hide, rejects_map]

end Calls

section Handlers

variable (env : Env)

theorem userAnswer_hide (status : ℕ) (u : ScimUser) :
    userAnswer env status u = userAnswer env status (hideUser u) := rfl

theorem toScimGroup_hide (g : GroupWithMembers) (baseUrl : String) :
    toScimGroup (hideMembers g) baseUrl = toScimGroup g baseUrl := by
  simp only [toScimGroup, hideMembers, List.map_map]
  rfl

theorem groupAnswer_hide (status : ℕ) (g : GroupWithMembers) :
    groupAnswer env status g = groupAnswer env status (hideMembers g) := by
  simp only [groupAnswer, toScimGroup_hide]

/-- The answer that lists users. -/
def userListAnswer (pagination : Pagination) (r : ℕ × List ScimUser) : Answer :=
  ⟨200, .userList ⟨[SCIM_LIST_RESPONSE_SCHEMA], r.1, pagination.startIndex, r.2.length,
    r.2.map fun u => toScimUser u env.baseUrl⟩⟩

def groupListAnswer (pagination : Pagination) (r : ℕ × List GroupWithMembers) : Answer :=
  ⟨200, .groupList ⟨[SCIM_LIST_RESPONSE_SCHEMA], r.1, pagination.startIndex, r.2.length,
    r.2.map fun g => toScimGroup g env.baseUrl⟩⟩

theorem userListAnswer_hide (pagination : Pagination) (r : ℕ × List ScimUser) :
    userListAnswer env pagination r = userListAnswer env pagination (r.1, r.2.map hideUser) := by
  simp only [userListAnswer, List.length_map, List.map_map]
  rfl

theorem groupListAnswer_hide (pagination : Pagination) (r : ℕ × List GroupWithMembers) :
    groupListAnswer env pagination r =
      groupListAnswer env pagination (r.1, r.2.map hideMembers) := by
  simp only [groupListAnswer, List.length_map, List.map_map, Function.comp_def, toScimGroup_hide]

theorem twins_listUsers (filter : Option String) (pagination : Pagination) :
    Twins (exec env.engine) hide ((Request.listUsers filter pagination).handle env)
      ((Request.listUsers filter pagination).handle env) := by
  rw [handle_listUsers]
  exact .answer (hides_userList _ _ _) (hides_userList _ _ _) (userListAnswer env pagination)
    (userListAnswer_hide env pagination) (userListAnswer_hide env pagination)

theorem twins_listGroups (filter : Option String) (pagination : Pagination) :
    Twins (exec env.engine) hide ((Request.listGroups filter pagination).handle env)
      ((Request.listGroups filter pagination).handle env) := by
  rw [handle_listGroups]
  exact .answer (hides_groupList _ _ _) (hides_groupList _ _ _) (groupListAnswer env pagination)
    (groupListAnswer_hide env pagination) (groupListAnswer_hide env pagination)

/-- A lookup of a user that may fail, and what is done with the user. -/
theorem twins_userLookup (id : String) {k k' : Option ScimUser → Service Answer}
    (hnone : Twins (exec env.engine) hide (k none) (k' none))
    (hsome : ∀ u u', hideUser u = hideUser u' →
      Twins (exec env.engine) hide (k (some u)) (k' (some u'))) :
    Twins (exec env.engine) hide (.call (.userFindUnique id) k)
      (.call (.userFindUnique id) k') := by
  refine .call (hides_userFindUnique id) (hides_userFindUnique id) fun user user' h => ?_
  cases user with
  | none =>
    cases user' with
    | none => exact hnone
    | some u' => contradiction
  | some u =>
    cases user' with
    | none => contradiction
    | some u' =>
      injection h with hu
      exact hsome u u' hu

theorem twins_groupLookup (id : String) {k k' : Option GroupWithMembers → Service Answer}
    (hnone : Twins (exec env.engine) hide (k none) (k' none))
    (hsome : ∀ g g', hideMembers g = hideMembers g' →
      Twins (exec env.engine) hide (k (some g)) (k' (some g'))) :
    Twins (exec env.engine) hide (.call (.groupFindUnique id) k)
      (.call (.groupFindUnique id) k') := by
  refine .call (hides_groupFindUnique id) (hides_groupFindUnique id) fun group group' h => ?_
  cases group with
  | none =>
    cases group' with
    | none => exact hnone
    | some g' => contradiction
  | some g =>
    cases group' with
    | none => contradiction
    | some g' =>
      injection h with hg
      exact hsome g g' hg

theorem twins_userAnswer (status : ℕ) {u u' : ScimUser} (h : hideUser u = hideUser u') :
    Twins (exec env.engine) hide (.pure (userAnswer env status u))
      (.pure (userAnswer env status u')) := by
  rw [userAnswer_hide, h, ← userAnswer_hide]
  exact .pure _

theorem twins_updateUserTail (id : String) {data data' : UserUpdateData}
    (hdata : HashApart data) (hdata' : HashApart data') (h : hideUpdate data = hideUpdate data') :
    Twins (exec env.engine) hide (updateUserTail env id data) (updateUserTail env id data') :=
  .call (hides_userUpdate id hdata) (h ▸ hides_userUpdate id hdata')
    fun _ _ hu => twins_userAnswer env 200 hu

theorem twins_updateUser (id : String) {data data' : UserUpdateData}
    (hdata : HashApart data) (hdata' : HashApart data') (h : hideUpdate data = hideUpdate data') :
    Twins (exec env.engine) hide
      (.call (.userFindUnique id) (UsersService.whenFound id (updateUserTail env id data)))
      (.call (.userFindUnique id) (UsersService.whenFound id (updateUserTail env id data'))) :=
  twins_userLookup env id (.throw _) fun _ _ _ => twins_updateUserTail env id hdata hdata' h

theorem twins_createUser (salt salt' : String) (dto : CreateScimUserDto) :
    Twins (exec env.engine) hide ((Request.createUser salt dto).handle env)
      ((Request.createUser salt' dto).handle env) := by
  rw [handle_createUser, handle_createUser]
  refine .call (hides_userFindUniqueByName _) (hides_userFindUniqueByName _) fun user user' h => ?_
  cases user with
  | none =>
    cases user' with
    | none =>
      exact .call (hides_userCreate (UsersService.createData (env.bcrypt.hash salt) dto))
        (hides_userCreate (UsersService.createData (env.bcrypt.hash salt') dto))
        fun _ _ hu => twins_userAnswer env 201 hu
    | some u' => contradiction
  | some u =>
    cases user' with
    | none => contradiction
    | some u' => exact .throw _

theorem twins_readGroup (id : String) :
    Twins (exec env.engine) hide (readGroup env id) (readGroup env id) := by
  refine twins_groupLookup env id (.throw _) fun g g' hg => ?_
  simp only [showGroup]
  rw [groupAnswer_hide, hg, ← groupAnswer_hide]
  exact .pure _

theorem twins_writeGroup (id : String) (ops : List BatchOp) :
    Twins (exec env.engine) hide (writeGroup env id ops) (writeGroup env id ops) :=
  .call (hides_transaction ops) (hides_transaction ops) fun _ _ _ => twins_readGroup env id

/-- A request that looks up its group first. -/
theorem twins_groupRequest (id : String) {rest : Service Answer}
    (h : Twins (exec env.engine) hide rest rest) :
    Twins (exec env.engine) hide (.call (.groupFindUnique id) (GroupsService.whenFound id rest))
      (.call (.groupFindUnique id) (GroupsService.whenFound id rest)) :=
  twins_groupLookup env id (.throw _) fun _ _ _ => h

theorem twins_replaceGroupTail (id : String) (dto : UpdateScimGroupDto) :
    Twins (exec env.engine) hide (replaceGroupTail env id dto) (replaceGroupTail env id dto) := by
  unfold replaceGroupTail
  split
  · exact .throw _
  · exact twins_writeGroup env id _

theorem twins_patchGroupTail (id : String) (patch : GroupPatchResult) :
    Twins (exec env.engine) hide (patchGroupTail env id patch) (patchGroupTail env id patch) := by
  unfold patchGroupTail
  split
  · exact twins_readGroup env id
  · exact twins_writeGroup env id _

theorem twins_createGroup (dto : CreateScimGroupDto) :
    Twins (exec env.engine) hide ((Request.createGroup dto).handle env)
      ((Request.createGroup dto).handle env) := by
  rw [handle_createGroup]
  refine .call (hides_groupFindUniqueByName _) (hides_groupFindUniqueByName _) fun g g' h => ?_
  rw [h]
  cases g' with
  | some g' => exact .throw _
  | none =>
    unfold createGroupTail
    cases GroupsService.memberCreates dto.members with
    | none => exact .throw _
    | some members =>
      exact .answer (hides_groupCreate _) (hides_groupCreate _) (groupAnswer env 201)
        (groupAnswer_hide env 201) (groupAnswer_hide env 201)

end Handlers

section Sessions

variable (env : Env)

/-- Requests whose handlers are twins. -/
def Alike (r r' : Request) : Prop :=
  Twins (exec env.engine) hide (r.handle env) (r'.handle env)

/-- A body is read in the same way in both runs. -/
theorem alike_of_body {α : Type} (body : Option α) {f f' : α → Request}
    (h : ∀ a, Alike env (f a) (f' a)) : Option.Rel (Alike env) (body.map f) (body.map f') := by
  cases body with
  | none => exact .none
  | some a => exact .some (h a)

theorem alike_replaceUser (salt salt' id : String) (dto : UpdateScimUserDto) :
    Alike env (.replaceUser salt id dto) (.replaceUser salt' id dto) := by
  unfold Alike
  rw [handle_replaceUser, handle_replaceUser]
  exact twins_updateUser env id (Or.inr rfl) (Or.inr rfl) rfl

theorem alike_patchUser (id : String) (ops : List (Option PatchOperation)) :
    Alike env (.patchUser id ops) (.patchUser id ops) := by
  unfold Alike
  cases hfields : applyUserPatch ops with
  | none =>
    rw [handle_patchUser_none env hfields]
    exact .throw _
  | some fields =>
    rw [handle_patchUser_some env hfields]
    exact twins_updateUser env id (Or.inl rfl) (Or.inl rfl) rfl

theorem alike_getUser (id : String) : Alike env (.getUser id) (.getUser id) := by
  unfold Alike
  rw [handle_getUser]
  exact twins_userLookup env id (.throw _) fun _ _ hu => twins_userAnswer env 200 hu

theorem alike_deleteUser (id : String) : Alike env (.deleteUser id) (.deleteUser id) := by
  unfold Alike
  rw [handle_deleteUser]
  exact twins_userLookup env id (.throw _) fun _ _ _ =>
    .call (hides_userDelete id) (hides_userDelete id) fun _ _ _ => .pure _

theorem alike_getGroup (id : String) : Alike env (.getGroup id) (.getGroup id) := by
  unfold Alike
  rw [handle_getGroup]
  exact twins_readGroup env id

theorem alike_replaceGroup (id : String) (dto : UpdateScimGroupDto) :
    Alike env (.replaceGroup id dto) (.replaceGroup id dto) := by
  unfold Alike
  rw [handle_replaceGroup]
  exact twins_groupRequest env id (twins_replaceGroupTail env id dto)

theorem alike_patchGroup (id : String) (ops : List (Option PatchOperation)) :
    Alike env (.patchGroup id ops) (.patchGroup id ops) := by
  unfold Alike
  cases hpatch : applyGroupPatch ops with
  | none =>
    rw [handle_patchGroup_none env hpatch]
    exact .throw _
  | some patch =>
    rw [handle_patchGroup_some env hpatch]
    exact twins_groupRequest env id (twins_patchGroupTail env id patch)

theorem alike_deleteGroup (id : String) : Alike env (.deleteGroup id) (.deleteGroup id) := by
  unfold Alike
  rw [handle_deleteGroup]
  exact twins_groupRequest env id
    (.call (hides_groupDelete id) (hides_groupDelete id) fun _ _ _ => .pure _)

/-- A call makes the same request in both runs, but for the salt. -/
theorem alike_request (salt salt' : String) (call : ScimCall) :
    Option.Rel (Alike env) (call.request salt) (call.request salt') := by
  cases call with
  | listUsers filter startIndex count => exact .some (twins_listUsers env filter _)
  | getUser id => exact .some (alike_getUser env id)
  | createUser body => exact alike_of_body env _ fun dto => twins_createUser env salt salt' dto
  | replaceUser id body =>
    exact alike_of_body env _ fun dto => alike_replaceUser env salt salt' id dto
  | patchUser id body => exact alike_of_body env _ fun ops => alike_patchUser env id ops
  | deleteUser id => exact .some (alike_deleteUser env id)
  | listGroups filter startIndex count => exact .some (twins_listGroups env filter _)
  | getGroup id => exact .some (alike_getGroup env id)
  | createGroup body => exact alike_of_body env _ fun dto => twins_createGroup env dto
  | replaceGroup id body => exact alike_of_body env _ fun dto => alike_replaceGroup env id dto
  | patchGroup id body => exact alike_of_body env _ fun ops => alike_patchGroup env id ops
  | deleteGroup id => exact .some (alike_deleteGroup env id)

theorem demoUsers_hide (ticks : ℕ → Tick) (s : Store) :
    demoUsers ticks (hide s) = demoUsers ticks s := by
  have hsort := List.map_insertionSort (r := latestFirst (ticks 0)) (s := latestFirst (ticks 0))
    hideUser s.users (fun _ _ _ _ => Iff.rfl)
  have husers : usersWithGroups (ticks 0) (hide s) =
      (usersWithGroups (ticks 0) s).map fun row => (hideUser row.1, row.2) := by
    have hrows : (hide s).users = s.users.map hideUser := rfl
    simp only [usersWithGroups, hrows, ← hsort, List.map_map]
    rfl
  simp only [demoUsers, husers, List.length_map, List.filter_map, List.map_map]
  rfl

theorem respond_alike (front : Front) (ticks : ℕ → Tick) (salt salt' : String)
    (call : HttpCall) {s s' : Store} (h : hide s = hide s') :
    (respond front env ticks salt call s).1 = (respond front env ticks salt' call s').1 ∧
      hide (respond front env ticks salt call s).2 =
        hide (respond front env ticks salt' call s').2 := by
  cases call with
  | demoUsers =>
    refine ⟨?_, h⟩
    simp only [respond]
    rw [← demoUsers_hide, h, demoUsers_hide]
  | scim authorization call =>
    simp only [respond]
    cases front.guard authorization with
    | some refusal => exact ⟨rfl, h⟩
    | none =>
      have hrequest := alike_request env salt salt' call
      cases hleft : call.request salt with
      | none =>
        rw [hleft] at hrequest
        cases hright : call.request salt' with
        | none => exact ⟨rfl, h⟩
        | some r' =>
          rw [hright] at hrequest
          contradiction
      | some r =>
        rw [hleft] at hrequest
        cases hright : call.request salt' with
        | none =>
          rw [hright] at hrequest
          contradiction
        | some r' =>
          rw [hright] at hrequest
          cases hrequest with
          | some htwins =>
            obtain ⟨hanswer, hstore⟩ := run_twins htwins ticks h
            exact ⟨congrArg (fun a => Response.scim (answerOf a)) hanswer, hstore⟩

/-- Two stores that differ in password hashes alone give the same responses to
every sequence of calls. The salts of the two runs need not be the same. -/
theorem session_blind (front : Front) {s s' : Store} (h : hide s = hide s') (turns : List Turn)
    (salts salts' : ℕ → String) :
    (session front env salts turns s).1 = (session front env salts' turns s').1 := by
  induction turns generalizing s s' salts salts' with
  | nil => rfl
  | cons turn turns ih =>
    obtain ⟨hfirst, hstore⟩ :=
      respond_alike env front turn.ticks (salts 0) (salts' 0) turn.call h
    simp only [session]
    rw [hfirst, ih hstore]

/-- The user of the sample store with a password. -/
def hashedStore : Store :=
  { sampleStore with users := [{ sampleUser "u" "ann" with passwordHash := some "$2b$secret" }] }

/-- Everyone is let through. -/
def openFront : Front := ⟨fun _ => none, fun _ => ⟨400, .empty⟩⟩

def sampleTurns : List Turn :=
  [⟨.demoUsers, sampleTicks⟩,
    ⟨.scim none (.replaceUser "u" (.obj [("userName", .str "ann"), ("password", .str "new")])),
      sampleTicks⟩,
    ⟨.scim none (.listUsers (some "userName eq \"ann\"") none (some "10")), sampleTicks⟩,
    ⟨.demoUsers, sampleTicks⟩]

theorem session_blind_sample :
    hashedStore ≠ sampleStore ∧
      (session openFront sampleEnv (fun _ => "a") sampleTurns hashedStore).1 =
        (session openFront sampleEnv (fun _ => "b") sampleTurns sampleStore).1 :=
  ⟨by decide, session_blind sampleEnv openFront rfl sampleTurns (fun _ => "a") (fun _ => "b")⟩

end Sessions

end OktaScim.HashBlindness
