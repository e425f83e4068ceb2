import OktaScim.Requests

/-!
The requests written out as trees of database calls. Every request that names
a resource first looks it up; what follows the lookup is its tail.
-/
namespace OktaScim.RequestPrograms

open Programs PrismaClient Schema ScimFilter Bodies UserPatch GroupPatch Representations Requests

section Runs

variable {α : Type} (E : Engine) (ticks : ℕ → Tick) (s : Store)

theorem run_userLookup (id : String) (rest : Service α) :
    run (exec E) ticks (.call (.userFindUnique id) (UsersService.whenFound id rest)) s =
      if (s.user id).isSome then run (exec E) (fun n => ticks (n + 1)) rest s
      else (.error (.notFound s!"User {id} not found"), s) := by
  simp only [run, exec]
  cases s.user id <;> rfl

theorem run_groupLookup (id : String) (rest : Service α) :
    run (exec E) ticks (.call (.groupFindUnique id) (GroupsService.whenFound id rest)) s =
      if (s.group id).isSome then run (exec E) (fun n => ticks (n + 1)) rest s
      else (.error (.notFound s!"Group {id} not found"), s) := by
  simp only [run, exec]
  cases s.group id <;> rfl

variable {E ticks s} {s' : Store} {a : α} {id : String} {rest : Service α}

theorem run_userLookup_ok
    (h : run (exec E) ticks (.call (.userFindUnique id) (UsersService.whenFound id rest)) s =
      (.ok a, s')) :
    (s.user id).isSome = true ∧
      run (exec E) (fun n => ticks (n + 1)) rest s = (.ok a, s') := by
  rw [run_userLookup] at h
  split at h
  · rename_i hid
    exact ⟨hid, h⟩
  · cases h

theorem run_groupLookup_ok
    (h : run (exec E) ticks (.call (.groupFindUnique id) (GroupsService.whenFound id rest)) s =
      (.ok a, s')) :
    (s.group id).isSome = true ∧
      run (exec E) (fun n => ticks (n + 1)) rest s = (.ok a, s') := by
  rw [run_groupLookup] at h
  split at h
  · rename_i hid
    exact ⟨hid, h⟩
  · cases h

end Runs

section Pages

/-- The database takes the numbers of the page. -/
def Pageable (pagination : Pagination) : Prop :=
  FitsInt64 pagination.skip ∧ FitsInt64 pagination.count

instance (pagination : Pagination) : Decidable (Pageable pagination) := by
  unfold Pageable
  infer_instance

def pageOf {α : Type} (pagination : Pagination) (rows : List α) : List α :=
  (rows.drop ⌊pagination.skip⌋₊).take ⌊pagination.count⌋₊

theorem window_eq {α : Type} (pagination : Pagination) (rows : List α) :
    window pagination.skip pagination.count rows =
      if Pageable pagination then .ok (pageOf pagination rows) else .error .other := rfl

end Pages

variable (env : Env)

section Users

/-- The answer that shows a user. -/
def userAnswer (status : ℕ) (user : ScimUser) : Answer :=
  ⟨status, .user (toScimUser user env.baseUrl)⟩

def createUserTail (salt : String) (dto : CreateScimUserDto) : Service Answer :=
  .call (.userCreate (UsersService.createData (env.bcrypt.hash salt) dto))
    fun user => .pure (userAnswer env 201 user)

def updateUserTail (id : String) (data : UserUpdateData) : Service Answer :=
  .call (.userUpdate id data) fun user => .pure (userAnswer env 200 user)

def deleteUserTail (id : String) : Service Answer :=
  .call (.userDelete id) fun _ => .pure ⟨204, .empty⟩

theorem handle_listUsers (filter : Option String) (pagination : Pagination) :
    (Request.listUsers filter pagination).handle env =
      .call (.userList (UsersService.listWhere (parseEqFilter filter) "userName")
        pagination.skip pagination.count)
        fun r => .pure ⟨200, .userList ⟨[SCIM_LIST_RESPONSE_SCHEMA], r.1, pagination.startIndex,
          r.2.length, r.2.map fun u => toScimUser u env.baseUrl⟩⟩ := rfl

theorem handle_getUser (id : String) :
    (Request.getUser id).handle env = .call (.userFindUnique id) fun user =>
      match user with
      | none => .throw (.notFound s!"User {id} not found")
      | some user => .pure (userAnswer env 200 user) := by
  refine congrArg (Prog.call (Call.userFindUnique id)) (funext fun user => ?_)
  cases user <;> rfl

theorem handle_createUser (salt : String) (dto : CreateScimUserDto) :
    (Request.createUser salt dto).handle env =
      .call (.userFindUniqueByName dto.userName) fun existing =>
        match existing with
        | some _ => .throw (.conflict s!"User with userName {dto.userName} already exists")
        | none => createUserTail env salt dto := by
  refine congrArg (Prog.call (Call.userFindUniqueByName dto.userName))
    (funext fun existing => ?_)
  cases existing <;> rfl

theorem handle_replaceUser (salt id : String) (dto : UpdateScimUserDto) :
    (Request.replaceUser salt id dto).handle env =
      .call (.userFindUnique id) (UsersService.whenFound id
        (updateUserTail env id (UsersService.replaceData (env.bcrypt.hash salt) dto))) := by
  refine congrArg (Prog.call (Call.userFindUnique id)) (funext fun user => ?_)
  cases user <;> rfl

theorem handle_patchUser_none {id : String} {operations : List (Option PatchOperation)}
    (h : applyUserPatch operations = none) :
    (Request.patchUser id operations).handle env = .throw .typeError := by
  simp only [Request.handle, UsersController.patch, h]

theorem handle_patchUser_some {id : String} {operations : List (Option PatchOperation)}
    {fields : UserPatchFields} (h : applyUserPatch operations = some fields) :
    (Request.patchUser id operations).handle env =
      .call (.userFindUnique id) (UsersService.whenFound id
        (updateUserTail env id (UsersService.patchData fields))) := by
  simp only [Request.handle, UsersController.patch, h]
  refine congrArg (Prog.call (Call.userFindUnique id)) (funext fun user => ?_)
  cases user <;> rfl

theorem handle_deleteUser (id : String) :
    (Request.deleteUser id).handle env =
      .call (.userFindUnique id) (UsersService.whenFound id (deleteUserTail id)) := by
  refine congrArg (Prog.call (Call.userFindUnique id)) (funext fun user => ?_)
  cases user <;> rfl

end Users

section Groups

/-- The answer that shows a group. -/
def groupAnswer (status : ℕ) (group : GroupWithMembers) : Answer :=
  ⟨status, .group (toScimGroup group env.baseUrl)⟩

/-- The answer to a group that has been looked up. -/
def showGroup (id : String) (group : Option GroupWithMembers) : Service Answer :=
  match group with
  | none => .throw (.notFound s!"Group {id} not found")
  | some group => .pure (groupAnswer env 200 group)

/-- The closing read of a request, which is all of a GET. -/
def readGroup (id : String) : Service Answer :=
  .call (.groupFindUnique id) (showGroup env id)

theorem showGroup_ended (id : String) (group : Option GroupWithMembers) :
    (showGroup env id group).result ≠ none := by
  cases group <;> exact Option.some_ne_none _

def createGroupTail (dto : CreateScimGroupDto) : Service Answer :=
  match GroupsService.memberCreates dto.members with
  | none => .throw .typeError
  | some members =>
    .call (.groupCreate
      { displayName := dto.displayName, externalId := dto.externalId, members := members })
      fun group => .pure (groupAnswer env 201 group)

/-- The write of a PUT or PATCH and the closing read behind it. -/
def writeGroup (id : String) (operations : List BatchOp) : Service Answer :=
  .call (.transaction operations) fun _ => readGroup env id

def replaceGroupTail (id : String) (dto : UpdateScimGroupDto) : Service Answer :=
  match GroupsService.memberCreates dto.members with
  | none => .throw .typeError
  | some members => writeGroup env id (GroupsService.replaceOperations id dto members)

def patchGroupTail (id : String) (patch : GroupPatchResult) : Service Answer :=
  match GroupsService.patchOperations id patch with
  | [] => readGroup env id
  | operation :: operations => writeGroup env id (operation :: operations)

def deleteGroupTail (id : String) : Service Answer :=
  .call (.groupDelete id) fun _ => .pure ⟨204, .empty⟩

theorem handle_listGroups (filter : Option String) (pagination : Pagination) :
    (Request.listGroups filter pagination).handle env =
      .call (.groupList (UsersService.listWhere (parseEqFilter filter) "displayName")
        pagination.skip pagination.count)
        fun r => .pure ⟨200, .groupList ⟨[SCIM_LIST_RESPONSE_SCHEMA], r.1, pagination.startIndex,
          r.2.length, r.2.map fun g => toScimGroup g env.baseUrl⟩⟩ := rfl

theorem handle_getGroup (id : String) : (Request.getGroup id).handle env = readGroup env id := by
  refine congrArg (Prog.call (Call.groupFindUnique id)) (funext fun group => ?_)
  cases group <;> rfl

theorem findById_answer (id : String) :
    (GroupsService.findById id >>= fun group => Prog.pure (groupAnswer env 200 group)) =
      readGroup env id := handle_getGroup env id

theorem handle_createGroup (dto : CreateScimGroupDto) :
    (Request.createGroup dto).handle env =
      .call (.groupFindUniqueByName dto.displayName) fun existing =>
        match existing with
        | some _ =>
          .throw (.conflict s!"Group with displayName {dto.displayName} already exists")
        | none => createGroupTail env dto := by
  refine congrArg (Prog.call (Call.groupFindUniqueByName dto.displayName))
    (funext fun existing => ?_)
  cases existing with
  | some g => rfl
  | none =>
    unfold createGroupTail
    cases GroupsService.memberCreates dto.members <;> rfl

theorem writeGroup_eq (id : String) (operations : List BatchOp) :
    ((await (.transaction operations) >>= fun _ => GroupsService.findById id) >>=
      fun group => Prog.pure (groupAnswer env 200 group)) = writeGroup env id operations :=
  congrArg (Prog.call (Call.transaction operations)) (funext fun _ => findById_answer env id)

theorem handle_replaceGroup (id : String) (dto : UpdateScimGroupDto) :
    (Request.replaceGroup id dto).handle env =
      .call (.groupFindUnique id) (GroupsService.whenFound id (replaceGroupTail env id dto)) := by
  refine congrArg (Prog.call (Call.groupFindUnique id)) (funext fun group => ?_)
  cases group with
  | none => rfl
  | some g =>
    change ((match GroupsService.memberCreates dto.members with
      | none => Prog.throw Exception.typeError
      | some members =>
        await (.transaction (GroupsService.replaceOperations id dto members)) >>=
          fun _ => GroupsService.findById id) >>=
        fun group => Prog.pure (groupAnswer env 200 group)) = replaceGroupTail env id dto
    unfold replaceGroupTail
    cases GroupsService.memberCreates dto.members with
    | none => rfl
    | some members => exact writeGroup_eq env id _

theorem handle_patchGroup_none {id : String} {operations : List (Option PatchOperation)}
    (h : applyGroupPatch operations = none) :
    (Request.patchGroup id operations).handle env = .throw .typeError := by
  simp only [Request.handle, GroupsController.patch, h]

theorem handle_patchGroup_some {id : String} {operations : List (Option PatchOperation)}
    {patch : GroupPatchResult} (h : applyGroupPatch operations = some patch) :
    (Request.patchGroup id operations).handle env =
      .call (.groupFindUnique id) (GroupsService.whenFound id (patchGroupTail env id patch)) := by
  have hpatch : (Request.patchGroup id operations).handle env =
      (GroupsService.patch id patch >>= fun group => Prog.pure (groupAnswer env 200 group)) := by
    simp only [Request.handle, GroupsController.patch, h]
    rfl
  rw [hpatch]
  unfold patchGroupTail GroupsService.patch
  cases GroupsService.patchOperations id patch with
  | nil =>
    refine congrArg (Prog.call (Call.groupFindUnique id)) (funext fun group => ?_)
    cases group with
    | none => rfl
    | some g => exact findById_answer env id
  | cons operation operations =>
    refine congrArg (Prog.call (Call.groupFindUnique id)) (funext fun group => ?_)
    cases group with
    | none => rfl
    | some g => exact writeGroup_eq env id _

theorem run_readGroup (ticks : ℕ → Tick) (id : String) (s : Store) :
    run (exec env.engine) ticks (readGroup env id) s =
      match s.group id with
      | none => (.error (.notFound s!"Group {id} not found"), s)
      | some g => (.ok (groupAnswer env 200 (withMembers s g)), s) := by
  simp only [readGroup, showGroup, run, exec]
  cases s.group id <;> rfl

theorem run_readGroup_ok {env : Env} {ticks : ℕ → Tick} {id : String} {s s' : Store} {a : Answer}
    (h : run (exec env.engine) ticks (readGroup env id) s = (.ok a, s')) :
    s' = s ∧ ∃ g, s'.group id = some g ∧ a = groupAnswer env 200 (withMembers s' g) := by
  rw [run_readGroup] at h
  cases hg : s.group id with
  | none => simp [hg] at h
  | some g =>
    simp only [hg, Prod.mk.injEq, Except.ok.injEq] at h
    obtain ⟨rfl, rfl⟩ := h
    exact ⟨rfl, g, hg, rfl⟩

/-- A write that is followed by the closing read. -/
theorem run_writeGroup (ticks : ℕ → Tick) (id : String) (operations : List BatchOp) (s : Store) :
    run (exec env.engine) ticks (writeGroup env id operations) s =
      match transaction env.engine (ticks 0) operations s with
      | .ok (_, s') =>
        run (exec env.engine) (fun n => ticks (n + 1)) (readGroup env id) s'
      | .error e => (.error (.prisma e), s) := by
  simp only [writeGroup, run, exec]
  cases transaction env.engine (ticks 0) operations s <;> rfl

/-- A write that succeeds and the closing read that shows what it has left. -/
theorem run_writeGroup_ok {env : Env} {ticks : ℕ → Tick} {id : String} {ops : List BatchOp}
    {s s' : Store} {a : Answer}
    (h : run (exec env.engine) ticks (writeGroup env id ops) s = (.ok a, s')) :
    transaction env.engine (ticks 0) ops s = .ok ((), s') ∧
      ∃ g, s'.group id = some g ∧ a = groupAnswer env 200 (withMembers s' g) := by
  rw [run_writeGroup] at h
  cases htr : transaction env.engine (ticks 0) ops s with
  | error e => simp [htr] at h
  | ok rs =>
    simp only [htr] at h
    exact ⟨by rw [(run_readGroup_ok h).1], (run_readGroup_ok h).2⟩

theorem handle_deleteGroup (id : String) :
    (Request.deleteGroup id).handle env =
      .call (.groupFindUnique id) (GroupsService.whenFound id (deleteGroupTail id)) := by
  refine congrArg (Prog.call (Call.groupFindUnique id)) (funext fun group => ?_)
  cases group <;> rfl

end Groups

end OktaScim.RequestPrograms
