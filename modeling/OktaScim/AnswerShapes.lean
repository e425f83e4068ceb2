import OktaScim.DirectoryRefinement
import OktaScim.Discovery
import OktaScim.FailedRequests
import OktaScim.FrontDoor
import OktaScim.GroupUpdates

/-!
The shape of every answer. A resource that is answered is stored as it is shown,
conforms to the advertised schema, and refers to users that a GET finds; a list
keeps its own count; an error has the format of SCIM and agrees with its status.
-/
namespace OktaScim.AnswerShapes

open Programs Schema KeyedRows PrismaClient PrismaConstraints Bodies UserPatch GroupPatch
open Representations Requests RequestPrograms Endpoints JwtGuard FrontDoor Discovery ScimFilter
open UserUpdates GroupUpdates GroupPatchEffect MembershipRefinement ListPages Directories
open DirectoryRefinement

section Shapes

variable (env : Env) (s : Store)

structure UserShape (rep : UserRep) : Prop where
  stored : ∃ u, s.user u.id = some u ∧ rep = toScimUser u env.baseUrl
  advertised : ShowsResource env.baseUrl userType USER_SCHEMA rep.id (userJson rep)

structure GroupShape (rep : GroupRep) : Prop where
  stored : ∃ g, s.group g.id = some g ∧ rep = toScimGroup (withMembers s g) env.baseUrl
  advertised : ShowsResource env.baseUrl groupType GROUP_SCHEMA rep.id (groupJson rep)
  members : MembershipRefinement.Shows env s (memberSet s rep.id) rep

/-- The attribute `named` is advertised as unique on the server. -/
structure ListShape {α : Type} (shape : α → Prop) (id named : α → String) (l : ListResponse α) :
    Prop where
  schemas : l.schemas = [SCIM_LIST_RESPONSE_SCHEMA]
  counted : l.itemsPerPage = l.Resources.length
  bounded : l.itemsPerPage ≤ l.totalResults
  shaped : ∀ rep ∈ l.Resources, shape rep
  distinct : (l.Resources.map id).Nodup
  unique : (l.Resources.map named).Nodup

structure ErrorShape (status : ℕ) (e : ErrorResponse) : Prop where
  schemas : e.schemas = [SCIM_ERROR_SCHEMA]
  text : e.status = toString status
  failed : status ∈ [400, 401, 404, 409, 500]
  uniqueness : e.scimType = some "uniqueness" ↔ status = 409
  invalidValue : ∀ t, e.scimType = some t →
    (status = 409 ∧ t = "uniqueness") ∨ (status = 400 ∧ t = "invalidValue")

inductive AnswerShape : Answer → Prop
  | user {status : ℕ} {rep : UserRep} :
    status = 200 ∨ status = 201 → UserShape env s rep → AnswerShape ⟨status, .user rep⟩
  | group {status : ℕ} {rep : GroupRep} :
    status = 200 ∨ status = 201 → GroupShape env s rep → AnswerShape ⟨status, .group rep⟩
  | userList {l : ListResponse UserRep} :
    ListShape (UserShape env s) UserRep.id UserRep.userName l → AnswerShape ⟨200, .userList l⟩
  | groupList {l : ListResponse GroupRep} :
    ListShape (GroupShape env s) GroupRep.id GroupRep.displayName l →
    AnswerShape ⟨200, .groupList l⟩
  | empty : AnswerShape ⟨204, .empty⟩
  | error {status : ℕ} {e : ErrorResponse} : ErrorShape status e → AnswerShape ⟨status, .error e⟩

end Shapes

section Errors

theorem errorShape_http {status : ℕ} (h : status ∈ [400, 401, 404, 409, 500]) (message : Message) :
    ErrorShape status ⟨[SCIM_ERROR_SCHEMA], toString status, (httpError status message).scimType,
      (httpError status message).detail⟩ := by
  refine ⟨rfl, rfl, h, ?_, ?_⟩
  · by_cases hstatus : status = 409 <;> simp [httpError, hstatus]
  · by_cases hstatus : status = 409 <;> simp [httpError, hstatus]

theorem errorAnswer_http {env : Env} {s : Store} {status : ℕ}
    (h : status ∈ [400, 401, 404, 409, 500]) (message : Message) :
    AnswerShape env s (errorAnswer (httpError status message)) := .error (errorShape_http h message)

theorem errorAnswer_internal {env : Env} {s : Store} :
    AnswerShape env s (errorAnswer internalServerError) := by
  refine .error ⟨rfl, rfl, by decide, ?_, ?_⟩
  · simp [internalServerError]
  · simp [internalServerError]

theorem errorAnswer_exception {env : Env} {s : Store} (e : Exception) :
    AnswerShape env s (answerOf (.error e)) := by
  rw [answerOf_error]
  cases e with
  | notFound message => exact errorAnswer_http (by decide) (.one message)
  | conflict message => exact errorAnswer_http (by decide) (.one message)
  | typeError => exact errorAnswer_internal
  | prisma error =>
    cases error with
    | P2002 =>
      exact @errorAnswer_http _ _ 409 (by decide)
        (.one "A resource with the same unique attribute already exists")
    | P2003 =>
      refine .error ⟨rfl, rfl, by decide, ?_, ?_⟩
      · simp [toScimError, mapPrismaError]
      · simp [toScimError, mapPrismaError]
    | P2023 => exact @errorAnswer_http _ _ 404 (by decide) (.one "Resource not found")
    | P2025 => exact @errorAnswer_http _ _ 404 (by decide) (.one "Resource not found")
    | other => exact errorAnswer_internal
    | validation => exact errorAnswer_internal

end Errors

section Resources

variable {env : Env} {s : Store}

theorem userShape {u : ScimUser} (hu : s.user u.id = some u) :
    UserShape env s (toScimUser u env.baseUrl) :=
  ⟨⟨u, hu, rfl⟩, showsResource_user env.baseUrl u⟩

theorem groupShape (hs : s.Valid) {g : ScimGroup} (hg : s.group g.id = some g) :
    GroupShape env s (toScimGroup (withMembers s g) env.baseUrl) :=
  ⟨⟨g, hg, rfl⟩, showsResource_group env.baseUrl (withMembers s g), shows_withMembers hs g⟩

theorem userAnswer_shape {status : ℕ} (hstatus : status = 200 ∨ status = 201) {u : ScimUser}
    (hu : s.user u.id = some u) : AnswerShape env s (userAnswer env status u) :=
  .user hstatus (userShape hu)

theorem groupAnswer_shape {status : ℕ} (hstatus : status = 200 ∨ status = 201) (hs : s.Valid)
    {g : ScimGroup} (hg : s.group g.id = some g) :
    AnswerShape env s (groupAnswer env status (withMembers s g)) :=
  .group hstatus (groupShape hs hg)

theorem answerShape_found {id : String} (hs : s.Valid) {g : ScimGroup} (hg : s.group id = some g) :
    AnswerShape env s (groupAnswer env 200 (withMembers s g)) := by
  have hid : g.id = id := key_of_findRow hg
  refine groupAnswer_shape (Or.inl rfl) hs ?_
  rw [hid]
  exact hg

end Resources

section Lists

variable {env : Env} {s : Store} {α β : Type}

/-- A page of rows that are all in a table without repetitions. -/
theorem listShape {shape : β → Prop} (id named : β → String) (rep : α → β)
    {rows sorted : List α} {key col : α → String} (hsorted : sorted.Perm rows)
    (hkey : (rows.map key).Nodup) (hcol : (rows.map col).Nodup) (hid : ∀ a, id (rep a) = key a)
    (hnamed : ∀ a, named (rep a) = col a) (hshape : ∀ a ∈ rows, shape (rep a))
    (start : ℚ) (skip take : ℕ) :
    ListShape shape id named ⟨[SCIM_LIST_RESPONSE_SCHEMA], rows.length, start,
      ((sorted.drop skip).take take).length, ((sorted.drop skip).take take).map rep⟩ := by
  have hsub : ((sorted.drop skip).take take).Sublist sorted :=
    (List.take_sublist _ _).trans (List.drop_sublist _ _)
  refine ⟨rfl, (List.length_map _).symm, ?_, ?_, ?_, ?_⟩
  · exact hsub.length_le.trans (le_of_eq hsorted.length_eq)
  · intro b hb
    obtain ⟨a, ha, rfl⟩ := List.mem_map.mp hb
    exact hshape a (hsorted.mem_iff.mp (hsub.subset ha))
  · rw [List.map_map, show id ∘ rep = key from funext hid]
    exact (hsub.map key).nodup ((hsorted.map key).nodup_iff.mpr hkey)
  · rw [List.map_map, show named ∘ rep = col from funext hnamed]
    exact (hsub.map col).nodup ((hsorted.map col).nodup_iff.mpr hcol)

theorem matchingUsers_sublist (asked : Option String) (s : Store) :
    (matchingUsers asked s).Sublist s.users := by
  cases asked with
  | none => exact List.Sublist.refl _
  | some n => exact List.filter_sublist ..

theorem matchingGroups_sublist (asked : Option String) (s : Store) :
    (matchingGroups asked s).Sublist s.groups := by
  cases asked with
  | none => exact List.Sublist.refl _
  | some n => exact List.filter_sublist ..

theorem listUsers_shape {ticks : ℕ → Tick} {s' : Store} {filter : Option String}
    {pagination : Pagination} {a : Answer} (hs : s.Valid)
    (h : serve env ticks (.listUsers filter pagination) s = (.ok a, s')) :
    AnswerShape env s' a := by
  unfold serve at h
  rw [handle_listUsers] at h
  simp only [run, exec, userList, window_eq] at h
  by_cases hpage : Pageable pagination
  · rw [if_pos hpage] at h
    have hsub := matchingUsers_sublist
      (UsersService.listWhere (parseEqFilter filter) "userName") s
    cases h
    refine .userList (listShape UserRep.id UserRep.userName
      (fun u => toScimUser u env.baseUrl) (queried_perm ScimUser.createdAt ScimUser.id _ (ticks 0))
      ((hsub.map ScimUser.id).nodup hs.userIds) ((hsub.map ScimUser.userName).nodup hs.userNames)
      (fun _ => rfl) (fun _ => rfl) (fun u hu => ?_) _ _ _)
    exact userShape (hs.user_eq_some_iff.mpr ⟨hsub.subset hu, rfl⟩)
  · rw [if_neg hpage] at h
    cases h

theorem listGroups_shape {ticks : ℕ → Tick} {s' : Store} {filter : Option String}
    {pagination : Pagination} {a : Answer} (hs : s.Valid)
    (h : serve env ticks (.listGroups filter pagination) s = (.ok a, s')) :
    AnswerShape env s' a := by
  unfold serve at h
  rw [handle_listGroups] at h
  simp only [run, exec, groupList, window_eq] at h
  by_cases hpage : Pageable pagination
  · rw [if_pos hpage] at h
    have hsub := matchingGroups_sublist
      (UsersService.listWhere (parseEqFilter filter) "displayName") s
    cases h
    simp only [List.length_map, List.map_map]
    refine .groupList (listShape GroupRep.id GroupRep.displayName
      (fun g => toScimGroup (withMembers s g) env.baseUrl)
      (queried_perm ScimGroup.createdAt ScimGroup.id _ (ticks 0))
      ((hsub.map ScimGroup.id).nodup hs.groupIds)
      ((hsub.map ScimGroup.displayName).nodup hs.displayNames)
      (fun _ => rfl) (fun _ => rfl) (fun g hg => ?_) _ _ _)
    exact groupShape hs (hs.group_eq_some_iff.mpr ⟨hsub.subset hg, rfl⟩)
  · rw [if_neg hpage] at h
    cases h

end Lists

section Requests

variable {env : Env} {ticks : ℕ → Tick} {s s' : Store} {a : Answer}

theorem updateUserTail_shape {id : String} {data : UserUpdateData}
    (h : run (exec env.engine) ticks (updateUserTail env id data) s = (.ok a, s')) :
    AnswerShape env s' a := by
  obtain ⟨u, hu, rfl⟩ := run_call_pure_ok (exec env.engine) h
  obtain ⟨upd, old, _, hold, _, rfl, rfl⟩ := userUpdate_ok (rejects_eq_ok hu)
  have hid : old.id = id := key_of_findRow hold
  refine userAnswer_shape (Or.inl rfl) ?_
  rw [apply_id, hid]
  exact user_after_update hold upd (ticks 0).now

/-- Everything that a request is answered with has its shape in the store behind it. -/
theorem serve_shape {r : Requests.Request} (hs : s.Valid) (h : serve env ticks r s = (.ok a, s')) :
    AnswerShape env s' a := by
  have hs' : s'.Valid := serve_valid hs h
  cases r with
  | listUsers filter pagination => exact listUsers_shape hs h
  | listGroups filter pagination => exact listGroups_shape hs h
  | getUser id =>
    unfold serve at h
    rw [handle_getUser] at h
    simp only [run, exec] at h
    cases hu : s.user id with
    | none =>
      rw [hu] at h
      cases h
    | some u =>
      have hid : u.id = id := key_of_findRow hu
      rw [hu] at h
      cases h
      exact userAnswer_shape (Or.inl rfl) (by rw [hid]; exact hu)
  | createUser salt dto =>
    unfold serve at h
    rw [handle_createUser] at h
    simp only [run, exec] at h
    cases hname : s.userNamed dto.userName with
    | some u =>
      rw [hname] at h
      cases h
    | none =>
      rw [hname] at h
      obtain ⟨u, hu, rfl⟩ := run_call_pure_ok (exec env.engine) h
      obtain ⟨hfree, _, rfl, rfl⟩ := userCreate_ok (rejects_eq_ok hu)
      refine userAnswer_shape (Or.inr rfl) ?_
      unfold Store.user at hfree ⊢
      rw [newUser_id, findRow_append_singleton, hfree]
      simp
  | replaceUser salt id dto =>
    unfold serve at h
    rw [handle_replaceUser] at h
    exact updateUserTail_shape (run_userLookup_ok h).2
  | patchUser id operations =>
    unfold serve at h
    cases hpatch : applyUserPatch operations with
    | none =>
      rw [handle_patchUser_none env hpatch] at h
      cases h
    | some fields =>
      rw [handle_patchUser_some env hpatch] at h
      exact updateUserTail_shape (run_userLookup_ok h).2
  | deleteUser id =>
    unfold serve at h
    rw [handle_deleteUser] at h
    obtain ⟨_, _, rfl⟩ := run_call_pure_ok (exec env.engine) (run_userLookup_ok h).2
    exact .empty
  | getGroup id =>
    unfold serve at h
    rw [handle_getGroup] at h
    obtain ⟨rfl, g, hg, rfl⟩ := run_readGroup_ok h
    exact answerShape_found hs hg
  | createGroup dto =>
    unfold serve at h
    rw [handle_createGroup] at h
    simp only [run, exec] at h
    cases hname : s.groupNamed dto.displayName with
    | some g =>
      rw [hname] at h
      cases h
    | none =>
      rw [hname] at h
      unfold createGroupTail at h
      cases hcreates : GroupsService.memberCreates dto.members with
      | none =>
        rw [hcreates] at h
        cases h
      | some creates =>
        rw [hcreates] at h
        obtain ⟨g, hg, rfl⟩ := run_call_pure_ok (exec env.engine) h
        obtain ⟨userIds, _, hfree, _, hins, rfl⟩ := groupCreate_ok (rejects_eq_ok hg)
        obtain ⟨_, _, rfl⟩ := insertMembers_ok hins
        refine groupAnswer_shape (Or.inr rfl) hs' ?_
        unfold Store.group at hfree ⊢
        rw [newGroup_id, findRow_append_singleton, hfree]
        simp
  | replaceGroup id dto =>
    obtain ⟨_, _, _, _, _, _, _, g, hg, rfl⟩ := replaceGroup_ok h
    exact answerShape_found hs' hg
  | patchGroup id operations =>
    obtain ⟨_, g, _, _, _, hg, rfl⟩ := patchGroup_ok h
    exact answerShape_found hs' hg
  | deleteGroup id =>
    unfold serve at h
    rw [handle_deleteGroup] at h
    obtain ⟨_, _, rfl⟩ := run_call_pure_ok (exec env.engine) (run_groupLookup_ok h).2
    exact .empty
  | clearData =>
    cases h
    exact .empty

end Requests

section Sessions

/-- The feed of the dashboard counts its own users, who are those stored with
their columns, and lists a group for a user when a GET of the group would list
the user. -/
structure FeedShape (s : Store) (feed : DemoUsers) : Prop where
  users : (feed.users.map fun u => { u with groups := [] }).Perm
    (s.users.map fun u => demoUser (u, []))
  totalUsers : feed.totalUsers = feed.users.length
  activeUsers : feed.activeUsers = (feed.users.filter DemoUser.active).length
  totalGroups : feed.totalGroups = s.groups.length
  groups : ∀ u ∈ feed.users, ∀ name, name ∈ u.groups ↔
    ∃ g, s.group g.id = some g ∧ g.displayName = name ∧ u.id ∈ memberSet s g.id

inductive ResponseShape (env : Env) (s : Store) : Response → Prop
  | scim {a : Answer} : AnswerShape env s a → ResponseShape env s (.scim a)
  | demo {feed : DemoUsers} : FeedShape s feed → ResponseShape env s (.demo feed)

/-- The stores behind the calls of a session. -/
def storesBehind (front : Front) (env : Env) (salts : ℕ → String) :
    List Turn → Store → List Store
  | [], _ => []
  | turn :: turns, s =>
    let behind := (respond front env turn.ticks (salts 0) turn.call s).2
    behind :: storesBehind front env (fun n => salts (n + 1)) turns behind

theorem mem_groupsOf (s : Store) (u : ScimUser) (name : String) :
    name ∈ (groupsOf s u).map ScimGroup.displayName ↔
      ∃ g, s.group g.id = some g ∧ g.displayName = name ∧ u.id ∈ memberSet s g.id := by
  simp only [groupsOf, List.mem_map, List.mem_filterMap, List.mem_filter, decide_eq_true_eq]
  constructor
  · rintro ⟨g, ⟨m, ⟨hm, hu⟩, hg⟩, rfl⟩
    have hid : g.id = m.groupId := key_of_findRow hg
    refine ⟨g, by rw [hid]; exact hg, rfl, ?_⟩
    have hmem : (⟨g.id, u.id⟩ : ScimGroupMember) ∈ s.members := by
      rw [hid, ← hu]
      exact hm
    exact hmem
  · rintro ⟨g, hg, rfl, hmem⟩
    exact ⟨g, ⟨⟨g.id, u.id⟩, ⟨hmem, rfl⟩, hg⟩, rfl⟩

theorem demoUsers_shape (s : Store) (ticks : ℕ → Tick) :
    FeedShape s (demoUsers ticks s) where
  users := by
    simp only [demoUsers, usersWithGroups, List.map_map]
    exact (List.perm_insertionSort _ s.users).map _
  totalUsers := by simp [demoUsers]
  activeUsers := by
    simp only [demoUsers, List.filter_map, List.length_map]
    rfl
  totalGroups := rfl
  groups u hu name := by
    simp only [demoUsers, usersWithGroups, List.map_map, List.mem_map] at hu
    obtain ⟨row, _, rfl⟩ := hu
    exact mem_groupsOf s row name

variable {env : Env} {jwtVerify : JwtVerify} {g : JwtAuthGuard} {messages : ScimCall → List String}

theorem refusal_shape {authorization : Option String} {a : Answer} (s : Store)
    (h : refusal jwtVerify g authorization = some a) : AnswerShape env s a := by
  unfold refusal at h
  split at h
  · contradiction
  · cases h
    exact errorAnswer_http (by decide) _
  · cases h
    exact errorAnswer_internal

/-- One call: the store behind it is valid, and the response has its shape there. -/
theorem respond_shape {ticks : ℕ → Tick} {salt : String} {call : HttpCall} {s : Store}
    (hs : s.Valid) :
    (respond (frontOf jwtVerify g messages) env ticks salt call s).2.Valid ∧
      ResponseShape env (respond (frontOf jwtVerify g messages) env ticks salt call s).2
        (respond (frontOf jwtVerify g messages) env ticks salt call s).1 := by
  cases call with
  | demoUsers => exact ⟨hs, .demo (demoUsers_shape s ticks)⟩
  | scim authorization call =>
    cases hguard : (frontOf jwtVerify g messages).guard authorization with
    | some a =>
      simp only [respond, hguard]
      exact ⟨hs, .scim (refusal_shape s hguard)⟩
    | none =>
      cases hrequest : call.request salt with
      | none =>
        simp only [respond, hguard, hrequest]
        have hinvalid : 400 ∈ [400, 401, 404, 409, 500] := by decide
        exact ⟨hs, .scim (errorAnswer_http hinvalid _)⟩
      | some r =>
        simp only [respond, hguard, hrequest]
        have hvalid : (serve env ticks r s).2.Valid := serve_valid hs rfl
        refine ⟨hvalid, .scim ?_⟩
        cases hserve : serve env ticks r s with
        | mk result s' =>
          cases result with
          | error e => exact errorAnswer_exception e
          | ok a => exact serve_shape hs hserve

/-- In every session every response has its shape in the store behind it. -/
theorem session_shapes (salts : ℕ → String) {s : Store} (hs : s.Valid) (turns : List Turn) :
    List.Forall₂ (fun response behind => ResponseShape env behind response)
      (session (frontOf jwtVerify g messages) env salts turns s).1
      (storesBehind (frontOf jwtVerify g messages) env salts turns s) := by
  induction turns generalizing salts s with
  | nil => exact .nil
  | cons turn turns ih =>
    obtain ⟨hvalid, hshape⟩ := @respond_shape env jwtVerify g messages turn.ticks (salts 0)
      turn.call s hs
    exact .cons hshape (ih (fun n => salts (n + 1)) hvalid)

/-- One token verifies and has the scope. -/
def sampleVerify : JwtVerify := fun token _ _ =>
  if token = "t" then some ⟨.obj [("scope", .str "scim")], .obj []⟩ else none

def sampleGuard : JwtAuthGuard :=
  JwtAuthGuard.ofConfig ⟨"http://localhost:3000", none, none, none, none, none⟩

/-- With the token a user, a group and a list are read and a body without a name
is posted, without it a user is deleted; then the feed is read. -/
def readAndDelete : List Turn :=
  [⟨.scim (some "Bearer t") (.getUser "u"), sampleTicks⟩,
    ⟨.scim (some "Bearer t") (.getGroup "g"), sampleTicks⟩,
    ⟨.scim (some "Bearer t") (.listUsers none none (some "2")), sampleTicks⟩,
    ⟨.scim (some "Bearer t") (.createUser (.obj [])), sampleTicks⟩,
    ⟨.scim none (.deleteUser "u"), sampleTicks⟩, ⟨.demoUsers, sampleTicks⟩]

def sampleSession : List Response :=
  (session (frontOf sampleVerify sampleGuard fun _ => ["userName must be a string"]) sampleEnv
    (fun _ => "salt") readAndDelete staffedStore).1

def scimStatus : Response → Option ℕ
  | .scim a => some a.status
  | .demo _ => none

theorem session_shapes_sample :
    sampleSession.map scimStatus = [some 200, some 200, some 200, some 400, some 401, none] ∧
      List.Forall₂ (fun response behind => ResponseShape sampleEnv behind response) sampleSession
        (storesBehind (frontOf sampleVerify sampleGuard fun _ => ["userName must be a string"])
          sampleEnv (fun _ => "salt") readAndDelete staffedStore) :=
  ⟨by decide +kernel, session_shapes (fun _ => "salt") staffedStore_valid readAndDelete⟩

end Sessions

end OktaScim.AnswerShapes
