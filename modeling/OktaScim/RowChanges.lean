import OktaScim.ConcurrentStore
import OktaScim.PatchRetry
import OktaScim.RelyGuarantee

/-!
Which database calls a request can make, what a call does to the row of one
user or one group, and which requests can make the calls that write to it.
-/
namespace OktaScim.RowChanges

open Programs Interleavings Schema KeyedRows PrismaClient PrismaConstraints Bodies UserPatch
open GroupPatch PatchRetry Requests RequestPrograms ConcurrentStore RelyGuarantee

section Footprints

/-- The call writes to the row of the user `u`, if there is one. -/
def CallWritesUser (u : String) : Call → Prop
  | .userUpdate id _ => id = u
  | .userDelete id => id = u
  | .userDeleteMany => True
  | _ => False

/-- The group of a batched operation; one without a group is about all groups. -/
def opGroup : BatchOp → Option String
  | .memberDeleteMany groupId _ => groupId
  | .memberUpsert groupId _ => some groupId
  | .groupUpdate id _ => some id

/-- The call writes to the row of the group `g` or to its memberships, other
than by the deletion of a user. -/
def CallWritesGroup (g : String) : Call → Prop
  | .transaction ops => ∃ op ∈ ops, opGroup op = none ∨ opGroup op = some g
  | .groupDelete id => id = g
  | .memberDeleteMany => True
  | .groupDeleteMany => True
  | _ => False

/-- The request is one that changes or deletes the user `u`. -/
def WritesUser (u : String) : Request → Prop
  | .replaceUser _ id _ => id = u
  | .patchUser id _ => id = u
  | .deleteUser id => id = u
  | .clearData => True
  | _ => False

/-- The request is one that changes or deletes the group `g`. -/
def WritesGroup (g : String) : Request → Prop
  | .replaceGroup id _ => id = g
  | .patchGroup id _ => id = g
  | .deleteGroup id => id = g
  | .clearData => True
  | _ => False

/-- The call is a lookup or the page of a list. -/
def CallReads : Call → Prop
  | .userFindUnique _ => True
  | .userFindUniqueByName _ => True
  | .userList _ _ _ => True
  | .groupFindUnique _ => True
  | .groupFindUniqueByName _ => True
  | .groupList _ _ _ => True
  | _ => False

variable (env : Env)

/-- The request updates the user `u` with the data. -/
inductive Updates (u : String) : Request → UserUpdateData → Prop
  | replaced (salt : String) (dto : UpdateScimUserDto) :
    Updates u (.replaceUser salt u dto) (UsersService.replaceData (env.bcrypt.hash salt) dto)
  | patched {operations : List (Option PatchOperation)} {fields : UserPatchFields} :
    applyUserPatch operations = some fields →
    Updates u (.patchUser u operations) (UsersService.patchData fields)

/-- The request writes to the group `g` with the batch. -/
inductive Batches (g : String) : Request → List BatchOp → Prop
  | replaced {dto : UpdateScimGroupDto} {members : List (Option String)} :
    GroupsService.memberCreates dto.members = some members →
    Batches g (.replaceGroup g dto) (GroupsService.replaceOperations g dto members)
  | patched {operations : List (Option PatchOperation)} {patch : GroupPatchResult} :
    applyGroupPatch operations = some patch →
    Batches g (.patchGroup g operations) (GroupsService.patchOperations g patch)

/-- The calls that a request can make. -/
inductive Issues (r : Request) : Call → Prop
  | read {c : Call} : CallReads c → Issues r c
  | userCreate (data : UserCreateData) : Issues r (.userCreate data)
  | userUpdate {u : String} {data : UserUpdateData} : Updates env u r data →
    Issues r (.userUpdate u data)
  | userDelete {u : String} : r = .deleteUser u → Issues r (.userDelete u)
  | groupCreate (data : GroupCreateData) : Issues r (.groupCreate data)
  | transaction {g : String} {ops : List BatchOp} : Batches g r ops → Issues r (.transaction ops)
  | groupDelete {g : String} : r = .deleteGroup g → Issues r (.groupDelete g)
  | memberDeleteMany : r = .clearData → Issues r .memberDeleteMany
  | userDeleteMany : r = .clearData → Issues r .userDeleteMany
  | groupDeleteMany : r = .clearData → Issues r .groupDeleteMany

variable {env} {r : Request}

theorem readGroup_issues (id : String) : Makes (Issues env r) (readGroup env id) := by
  refine ⟨.read trivial, fun group => ?_⟩
  cases group <;> trivial

theorem writeGroup_issues {id : String} {ops : List BatchOp} (h : Batches id r ops) :
    Makes (Issues env r) (writeGroup env id ops) :=
  ⟨.transaction h, fun _ => readGroup_issues id⟩

theorem updateUserTail_issues {id : String} {data : UserUpdateData} (h : Updates env id r data) :
    Makes (Issues env r) (updateUserTail env id data) :=
  ⟨.userUpdate h, fun _ => trivial⟩

theorem userLookup_issues {id : String} {rest : Service Answer}
    (hrest : Makes (Issues env r) rest) :
    Makes (Issues env r)
      (.call (.userFindUnique id) (UsersService.whenFound id rest) : Service Answer) := by
  refine ⟨.read trivial, fun user => ?_⟩
  cases user with
  | none => trivial
  | some u => exact hrest

theorem groupLookup_issues {id : String} {rest : Service Answer}
    (hrest : Makes (Issues env r) rest) :
    Makes (Issues env r)
      (.call (.groupFindUnique id) (GroupsService.whenFound id rest) : Service Answer) := by
  refine ⟨.read trivial, fun group => ?_⟩
  cases group with
  | none => trivial
  | some g => exact hrest

/-- One case for each request, along its tree of calls. -/
theorem handle_issues (r : Request) : Makes (Issues env r) (r.handle env) := by
  cases r with
  | listUsers filter pagination =>
    rw [handle_listUsers]
    exact ⟨.read trivial, fun _ => trivial⟩
  | getUser id =>
    rw [handle_getUser]
    refine ⟨.read trivial, fun user => ?_⟩
    cases user <;> trivial
  | createUser salt dto =>
    rw [handle_createUser]
    refine ⟨.read trivial, fun existing => ?_⟩
    cases existing with
    | some u => trivial
    | none => exact ⟨.userCreate _, fun _ => trivial⟩
  | replaceUser salt id dto =>
    rw [handle_replaceUser]
    exact userLookup_issues (updateUserTail_issues (.replaced salt dto))
  | patchUser id operations =>
    cases hpatch : applyUserPatch operations with
    | none =>
      rw [handle_patchUser_none env hpatch]
      trivial
    | some fields =>
      rw [handle_patchUser_some env hpatch]
      exact userLookup_issues (updateUserTail_issues (.patched hpatch))
  | deleteUser id =>
    rw [handle_deleteUser]
    exact userLookup_issues ⟨.userDelete rfl, fun _ => trivial⟩
  | listGroups filter pagination =>
    rw [handle_listGroups]
    exact ⟨.read trivial, fun _ => trivial⟩
  | getGroup id =>
    rw [handle_getGroup]
    exact readGroup_issues id
  | createGroup dto =>
    rw [handle_createGroup]
    refine ⟨.read trivial, fun existing => ?_⟩
    cases existing with
    | some g => trivial
    | none =>
      unfold createGroupTail
      cases GroupsService.memberCreates dto.members with
      | none => trivial
      | some members => exact ⟨.groupCreate _, fun _ => trivial⟩
  | replaceGroup id dto =>
    rw [handle_replaceGroup]
    refine groupLookup_issues ?_
    unfold replaceGroupTail
    cases hmembers : GroupsService.memberCreates dto.members with
    | none => trivial
    | some members => exact writeGroup_issues (.replaced hmembers)
  | patchGroup id operations =>
    cases hpatch : applyGroupPatch operations with
    | none =>
      rw [handle_patchGroup_none env hpatch]
      trivial
    | some patch =>
      rw [handle_patchGroup_some env hpatch]
      refine groupLookup_issues ?_
      have hbatch : Batches id (.patchGroup id operations) _ := .patched hpatch
      unfold patchGroupTail
      cases hops : GroupsService.patchOperations id patch with
      | nil => exact readGroup_issues id
      | cons op ops =>
        rw [hops] at hbatch
        exact writeGroup_issues hbatch
  | deleteGroup id =>
    rw [handle_deleteGroup]
    exact groupLookup_issues ⟨.groupDelete rfl, fun _ => trivial⟩
  | clearData =>
    exact ⟨.memberDeleteMany rfl, fun _ => ⟨.userDeleteMany rfl, fun _ =>
      ⟨.groupDeleteMany rfl, fun _ => trivial⟩⟩⟩

theorem opGroup_patchOperations {id : String} {patch : GroupPatchResult} {op : BatchOp}
    (h : op ∈ GroupsService.patchOperations id patch) : opGroup op = some id := by
  unfold GroupsService.patchOperations at h
  rcases List.mem_append.mp h with h | h
  · rcases List.mem_append.mp h with h | h
    · split at h
      · rw [List.mem_singleton.mp h]
        rfl
      · contradiction
    · obtain ⟨v, _, rfl⟩ := List.mem_map.mp h
      rfl
  · obtain ⟨v, _, rfl⟩ := List.mem_map.mp h
    rfl

theorem opGroup_replaceOperations {id : String} {dto : UpdateScimGroupDto}
    {members : List (Option String)} {op : BatchOp}
    (h : op ∈ GroupsService.replaceOperations id dto members) : opGroup op = some id := by
  unfold GroupsService.replaceOperations at h
  simp only [List.mem_cons, List.not_mem_nil, or_false] at h
  rcases h with rfl | rfl <;> rfl

theorem Updates.writes {u : String} {data : UserUpdateData} (h : Updates env u r data) :
    WritesUser u r := by
  cases h <;> rfl

theorem Batches.writes {g : String} {ops : List BatchOp} (h : Batches g r ops) :
    WritesGroup g r := by
  cases h <;> rfl

theorem Batches.about {g : String} {ops : List BatchOp} (h : Batches g r ops) :
    ∀ op ∈ ops, opGroup op = some g := by
  cases h with
  | replaced _ => exact fun op hop => opGroup_replaceOperations hop
  | patched _ => exact fun op hop => opGroup_patchOperations hop

/-- The call writes to nothing that is not in the path of the request. -/
structure Within (r : Request) (c : Call) : Prop where
  users : ∀ u, CallWritesUser u c → WritesUser u r
  groups : ∀ g, CallWritesGroup g c → WritesGroup g r

theorem Issues.within {c : Call} (h : Issues env r c) : Within r c := by
  cases h with
  | @read c hreads =>
    constructor <;> intro _ hw <;> cases c <;> first | exact hreads.elim | exact hw.elim
  | userCreate data => exact ⟨fun u hu => hu.elim, fun g hg => hg.elim⟩
  | userUpdate h =>
    refine ⟨fun u hu => ?_, fun g hg => hg.elim⟩
    cases hu
    exact h.writes
  | userDelete h =>
    subst h
    exact ⟨fun u hu => hu, fun g hg => hg.elim⟩
  | groupCreate data => exact ⟨fun u hu => hu.elim, fun g hg => hg.elim⟩
  | transaction h =>
    refine ⟨fun u hu => hu.elim, ?_⟩
    rintro g ⟨op, hop, hg⟩
    rw [h.about op hop] at hg
    rcases hg with hnone | hsome
    · contradiction
    · rw [← Option.some.inj hsome]
      exact h.writes
  | groupDelete h =>
    subst h
    exact ⟨fun u hu => hu.elim, fun g hg => hg⟩
  | memberDeleteMany h =>
    subst h
    exact ⟨fun _ _ => trivial, fun _ _ => trivial⟩
  | userDeleteMany h =>
    subst h
    exact ⟨fun _ _ => trivial, fun _ _ => trivial⟩
  | groupDeleteMany h =>
    subst h
    exact ⟨fun _ _ => trivial, fun _ _ => trivial⟩

end Footprints

section Clients

variable {ι : Type} [DecidableEq ι] {env : Env} {request : ι → Request}

/-- Configurations that are reached from `cfg` by steps of the clients that act. -/
abbrev Meanwhile (env : Env) (request : ι → Request) (acts : ι → Prop) (cfg cfg' : Clients ι) :
    Prop :=
  Reaches (exec env.engine) (fun i => (request i).handle env)
    (StepsOf acts fun _ _ => True) cfg cfg'

/-- A client that was sent makes no other calls than its request can. -/
theorem thread_issues {s : Store} {cfg : Clients ι} (h : Served env request s cfg) {i : ι}
    {p : Service Answer} (hp : cfg.threads i = some p) : Makes (Issues env (request i)) p := by
  refine reaches_makes h (handle_issues (request i)) ?_ hp
  intro p hp
  contradiction

/-- What all calls of the requests that act fulfil, their clients' programs keep to. -/
theorem acting_makes {P : Call → Prop} {acts : Request → Prop}
    (hP : ∀ r c, acts r → Issues env r c → P c) {s : Store} {cfg : Clients ι}
    (h : Served env request s cfg) :
    (∀ i, acts (request i) → Makes P ((request i).handle env)) ∧
      ∀ i p, acts (request i) → cfg.threads i = some p → Makes P p :=
  ⟨fun i hi => (handle_issues (request i)).mono fun c => hP (request i) c hi,
    fun i _ hi hp => (thread_issues h hp).mono fun c => hP (request i) c hi⟩

end Clients

section Changes

/-- What a call made at `now` has done to a row with a creation and an update
time: a row that it has written to carries the time. `drawn` says whether the
row's id is the one drawn for the call. -/
inductive RowChange {α : Type} (createdAt updatedAt : α → ℕ) (now : ℕ) (drawn writes : Prop) :
    Option α → Option α → Prop
  | kept (found : Option α) : RowChange createdAt updatedAt now drawn writes found found
  | created {row : α} : drawn → createdAt row = now → updatedAt row = now →
    RowChange createdAt updatedAt now drawn writes none (some row)
  | updated {old row : α} : writes → createdAt row = createdAt old → updatedAt row = now →
    RowChange createdAt updatedAt now drawn writes (some old) (some row)
  | gone (found : Option α) : writes → RowChange createdAt updatedAt now drawn writes found none

abbrev UserChange (t : Tick) (u : String) (c : Call) : Option ScimUser → Option ScimUser → Prop :=
  RowChange ScimUser.createdAt ScimUser.updatedAt t.now (t.uuid = u) (CallWritesUser u c)

abbrev GroupChange (t : Tick) (g : String) (c : Call) :
    Option ScimGroup → Option ScimGroup → Prop :=
  RowChange ScimGroup.createdAt ScimGroup.updatedAt t.now (t.uuid = g) (CallWritesGroup g c)

namespace RowChange

variable {α : Type} {createdAt updatedAt : α → ℕ} {now : ℕ} {drawn writes : Prop}
  {found found' : Option α}

theorem keeps (h : RowChange createdAt updatedAt now drawn writes found found') (hw : ¬writes)
    {row : α} (hrow : found = some row) : found' = some row := by
  cases h with
  | kept => exact hrow
  | created => contradiction
  | updated hwrites => exact absurd hwrites hw
  | gone _ hwrites => exact absurd hwrites hw

/-- A row comes only under the id that is drawn. -/
theorem absent (h : RowChange createdAt updatedAt now drawn writes found found') (hd : ¬drawn)
    (hrow : found = none) : found' = none := by
  cases h with
  | kept => exact hrow
  | created hdrawn => exact absurd hdrawn hd
  | updated => contradiction
  | gone => rfl

/-- A row is as it was, or it carries the time of the call. -/
theorem stamped (h : RowChange createdAt updatedAt now drawn writes found found')
    {row' : α} (hrow : found' = some row') :
    found = some row' ∨ (updatedAt row' = now ∧
      (createdAt row' = now ∨ ∃ row, found = some row ∧ createdAt row = createdAt row')) := by
  cases h with
  | kept => exact Or.inl hrow
  | created _ hcreated hupdated =>
    cases hrow
    exact Or.inr ⟨hupdated, Or.inl hcreated⟩
  | @updated old row hwrites hcreated hupdated =>
    cases hrow
    exact Or.inr ⟨hupdated, Or.inr ⟨old, rfl, hcreated.symm⟩⟩
  | gone => contradiction

end RowChange

variable {E : Engine} {t : Tick} {s s' : Store}

/-- Calls that only read leave the tables alone. -/
theorem read_store {c : Call} {r : c.Result} (hc : CallReads c) (h : exec E t c s = .ok (r, s')) :
    s' = s := by
  cases c with
  | userFindUnique id =>
    cases h
    rfl
  | userFindUniqueByName n =>
    cases h
    rfl
  | userList n skip take => exact (userList_ok (rejects_eq_ok h)).1
  | groupFindUnique id =>
    cases h
    rfl
  | groupFindUniqueByName n =>
    cases h
    rfl
  | groupList n skip take => exact (groupList_ok (rejects_eq_ok h)).1
  | _ => exact hc.elim

theorem user_of_users (h : s'.users = s.users) (u : String) : s'.user u = s.user u := by
  unfold Store.user
  rw [h]

/-- The memberships of a group, in the order of the table. -/
def memberRows (s : Store) (g : String) : List ScimGroupMember :=
  s.members.filter fun m => m.groupId = g

theorem memberRows_append (s : Store) {g : String} {rows : List ScimGroupMember}
    (h : ∀ m ∈ rows, m.groupId ≠ g) :
    memberRows { s with members := s.members ++ rows } g = memberRows s g := by
  have hnone : rows.filter (fun m => m.groupId = g) = [] := by
    rw [List.filter_eq_nil_iff]
    intro m hm
    simpa using h m hm
  simp only [memberRows, List.filter_append, hnone, List.append_nil]

/-- Rows of the group that a deletion leaves alone stay where they are. -/
theorem memberRows_filter (s : Store) {g : String} {p : ScimGroupMember → Bool}
    (h : ∀ m ∈ s.members, m.groupId = g → p m = true) :
    memberRows { s with members := s.members.filter p } g = memberRows s g := by
  simp only [memberRows, List.filter_filter]
  refine List.filter_congr fun m hm => ?_
  by_cases hg : m.groupId = g
  · simp [hg, h m hm hg]
  · simp [hg]

/-- What a batch at `t` has done, as far as the group `g` is concerned, when
`writes` says whether it is about `g`. -/
structure BatchEffect (t : Tick) (g : String) (writes : Prop) (s s' : Store) : Prop where
  users : s'.users = s.users
  row : s'.group g = s.group g ∨ writes ∧ ∃ old row, s.group g = some old ∧
    s'.group g = some row ∧ row.createdAt = old.createdAt ∧ row.updatedAt = t.now
  members : ¬writes → memberRows s' g = memberRows s g

theorem BatchEffect.refl (t : Tick) (g : String) (writes : Prop) (s : Store) :
    BatchEffect t g writes s s := ⟨rfl, Or.inl rfl, fun _ => rfl⟩

/-- Two writes in one batch are made at the same time. -/
theorem BatchEffect.trans {g : String} {writes : Prop} {mid : Store}
    (h : BatchEffect t g writes s mid) (h' : BatchEffect t g writes mid s') :
    BatchEffect t g writes s s' where
  users := h'.users.trans h.users
  row := by
    rcases h'.row with hsame' | ⟨hw, old', row', hold', hrow', hcreated', hupdated'⟩
    · rw [hsame']
      exact h.row
    · rcases h.row with hsame | ⟨_, old, row, hold, hrow, hcreated, _⟩
      · rw [hsame] at hold'
        exact Or.inr ⟨hw, old', row', hold', hrow', hcreated', hupdated'⟩
      · rw [hrow] at hold'
        cases hold'
        exact Or.inr ⟨hw, old, row', hold, hrow', hcreated'.trans hcreated, hupdated'⟩
  members hw := (h'.members hw).trans (h.members hw)

/-- Memberships of `id` that are inserted are memberships of no other group. -/
theorem memberRows_insert (s : Store) {g id : String} (hid : id ≠ g) (userIds : List String) :
    memberRows { s with members := s.members ++ userIds.map (ScimGroupMember.mk id) } g =
      memberRows s g := by
  refine memberRows_append s fun m hm => ?_
  obtain ⟨u, _, rfl⟩ := List.mem_map.mp hm
  exact hid

/-- The group that a write is about. -/
def writeGroupId : Write → Option String
  | .memberDeleteMany groupId _ => groupId
  | .memberUpsert groupId _ => some groupId
  | .groupUpdate id _ _ _ => some id

theorem writeGroupId_read {op : BatchOp} {w : Write} (h : op.read E = some w) :
    writeGroupId w = opGroup op := by
  cases op with
  | memberDeleteMany groupId userId =>
    obtain ⟨p, _, rfl⟩ := Option.map_eq_some_iff.mp h
    rfl
  | memberUpsert groupId userId =>
    cases userId <;> simp only [BatchOp.read, Option.some.injEq, reduceCtorEq] at h
    rw [← h]
    rfl
  | groupUpdate id data =>
    obtain ⟨userIds, _, rfl⟩ := Option.map_eq_some_iff.mp h
    rfl

theorem write_effect {w : Write} {g : String} {writes : Prop}
    (hw : writeGroupId w = none ∨ writeGroupId w = some g → writes) (h : w.exec t s = .ok s') :
    BatchEffect t g writes s s' := by
  cases w with
  | memberDeleteMany groupId p =>
    cases h
    refine ⟨rfl, Or.inl rfl, fun hnot => memberRows_filter s ?_⟩
    intro m _ hm
    cases groupId with
    | none => exact absurd (hw (Or.inl rfl)) hnot
    | some id =>
      have hid : id ≠ g := fun heq => hnot (hw (Or.inr (congrArg some heq)))
      simp [hm, Ne.symm hid]
  | memberUpsert id u =>
    rcases upsert_ok h with ⟨_, rfl⟩ | hins
    · exact .refl t g writes _
    · obtain ⟨_, _, _, rfl⟩ := insertMember_ok hins
      refine ⟨rfl, Or.inl rfl, fun hnot => ?_⟩
      have hid : id ≠ g := fun heq => hnot (hw (Or.inr (congrArg some heq)))
      exact memberRows_insert s hid [u]
  | groupUpdate id displayName externalId userIds =>
    obtain ⟨old, hold, _, hins⟩ := groupUpdate_ok h
    obtain ⟨_, _, rfl⟩ := insertMembers_ok hins
    have hgroup := group_modifyRow s id g (updateGroup t.now displayName externalId)
      (fun _ => rfl)
    refine ⟨rfl, ?_, fun hnot => ?_⟩
    · by_cases hg : g = id
      · subst hg
        rw [if_pos rfl, hold] at hgroup
        exact Or.inr ⟨hw (Or.inr rfl), old, _, hold, hgroup, rfl, rfl⟩
      · rw [if_neg hg] at hgroup
        exact Or.inl hgroup
    · have hid : id ≠ g := fun heq => hnot (hw (Or.inr (congrArg some heq)))
      exact memberRows_insert ⟨s.users, modifyRow ScimGroup.id id
        (updateGroup t.now displayName externalId) s.groups, s.members⟩ hid userIds

theorem transaction_effect {ops : List BatchOp} {r : Unit}
    (h : transaction E t ops s = .ok (r, s')) (g : String) :
    BatchEffect t g (CallWritesGroup g (.transaction ops)) s s' := by
  obtain ⟨ws, hread, hrun⟩ := transaction_ok h
  refine execWrites_keeps ws ?_ s s' (BatchEffect.refl t g _ s) hrun
  intro w hw mid mid' hmid hstep
  obtain ⟨op, hop, hread⟩ := mem_of_mapM_some hread hw
  refine hmid.trans (write_effect ?_ hstep)
  rw [writeGroupId_read hread]
  exact fun hg => ⟨op, hop, hg⟩

theorem userChange_of_users {u : String} {c : Call} (h : s'.users = s.users) :
    UserChange t u c (s.user u) (s'.user u) := by
  rw [user_of_users h]
  exact .kept _

theorem exec_userChange {c : Call} {r : c.Result} (h : exec E t c s = .ok (r, s')) (u : String) :
    UserChange t u c (s.user u) (s'.user u) := by
  by_cases hreads : CallReads c
  · rw [read_store hreads h]
    exact .kept _
  cases c with
  | userCreate data =>
    obtain ⟨hfree, _, _, rfl⟩ := userCreate_ok (rejects_eq_ok h)
    simp only [Store.user, findRow_append_singleton] at hfree ⊢
    by_cases hu : (newUser t data).id = u
    · have hid : t.uuid = u := hu
      rw [if_pos hu, ← hid, hfree]
      exact .created rfl rfl rfl
    · rw [if_neg hu, Option.or_none]
      exact .kept _
  | userUpdate id data =>
    obtain ⟨upd, old, _, hold, _, _, rfl⟩ := userUpdate_ok (rejects_eq_ok h)
    rw [user_modifyRow s id u (upd.apply t.now) (fun _ => rfl)]
    by_cases hu : u = id
    · subst hu
      rw [if_pos rfl, hold, Option.map_some]
      by_cases hnothing : upd = .nothing
      · rw [hnothing, nothing_apply]
        exact .kept _
      · exact .updated rfl rfl (apply_updatedAt hnothing t.now old)
    · rw [if_neg hu]
      exact .kept _
  | userDelete id =>
    obtain ⟨_, rfl⟩ := userDelete_ok (rejects_eq_ok h)
    simp only [Store.user, findRow_eraseRow]
    by_cases hu : u = id
    · rw [if_pos hu]
      exact .gone _ hu.symm
    · rw [if_neg hu]
      exact .kept _
  | groupCreate data =>
    obtain ⟨userIds, _, _, _, hins, _⟩ := groupCreate_ok (rejects_eq_ok h)
    obtain ⟨_, _, rfl⟩ := insertMembers_ok hins
    exact .kept _
  | transaction ops => exact userChange_of_users (transaction_effect (rejects_eq_ok h) u).users
  | groupDelete id =>
    obtain ⟨_, rfl⟩ := groupDelete_ok (rejects_eq_ok h)
    exact .kept _
  | memberDeleteMany =>
    cases h
    exact .kept _
  | userDeleteMany =>
    cases h
    exact .gone _ trivial
  | groupDeleteMany =>
    cases h
    exact .kept _
  | _ => exact absurd trivial hreads

theorem exec_groupChange {c : Call} {r : c.Result} (h : exec E t c s = .ok (r, s')) (g : String) :
    GroupChange t g c (s.group g) (s'.group g) := by
  by_cases hreads : CallReads c
  · rw [read_store hreads h]
    exact .kept _
  cases c with
  | userCreate data =>
    obtain ⟨_, _, _, rfl⟩ := userCreate_ok (rejects_eq_ok h)
    exact .kept _
  | userUpdate id data =>
    obtain ⟨upd, old, _, _, _, _, rfl⟩ := userUpdate_ok (rejects_eq_ok h)
    exact .kept _
  | userDelete id =>
    obtain ⟨_, rfl⟩ := userDelete_ok (rejects_eq_ok h)
    exact .kept _
  | groupCreate data =>
    obtain ⟨userIds, _, hfree, _, hins, _⟩ := groupCreate_ok (rejects_eq_ok h)
    obtain ⟨_, _, rfl⟩ := insertMembers_ok hins
    simp only [Store.group, findRow_append_singleton] at hfree ⊢
    by_cases hg : (newGroup t data).id = g
    · have hid : t.uuid = g := hg
      rw [if_pos hg, ← hid, hfree]
      exact .created rfl rfl rfl
    · rw [if_neg hg, Option.or_none]
      exact .kept _
  | transaction ops =>
    rcases (transaction_effect (rejects_eq_ok h) g).row with
      hsame | ⟨hw, old, row, hold, hrow, hcreated, hupdated⟩
    · rw [hsame]
      exact .kept _
    · rw [hold, hrow]
      exact .updated hw hcreated hupdated
  | groupDelete id =>
    obtain ⟨_, rfl⟩ := groupDelete_ok (rejects_eq_ok h)
    simp only [Store.group, findRow_eraseRow]
    by_cases hg : g = id
    · rw [if_pos hg]
      exact .gone _ hg.symm
    · rw [if_neg hg]
      exact .kept _
  | memberDeleteMany =>
    cases h
    exact .kept _
  | userDeleteMany =>
    cases h
    exact .kept _
  | groupDeleteMany =>
    cases h
    exact .gone _ trivial
  | _ => exact absurd trivial hreads

/-- A call that writes neither to a group nor to its members leaves its
memberships as they are. -/
theorem exec_memberRows {c : Call} {r : c.Result} (h : exec E t c s = .ok (r, s')) {g : String}
    (hgroup : (s.group g).isSome = true) (hg : ¬CallWritesGroup g c)
    (hu : ∀ m ∈ memberRows s g, ¬CallWritesUser m.userId c) : memberRows s' g = memberRows s g := by
  by_cases hreads : CallReads c
  · rw [read_store hreads h]
  cases c with
  | userCreate data =>
    obtain ⟨_, _, _, rfl⟩ := userCreate_ok (rejects_eq_ok h)
    rfl
  | userUpdate id data =>
    obtain ⟨upd, old, _, _, _, _, rfl⟩ := userUpdate_ok (rejects_eq_ok h)
    rfl
  | userDelete id =>
    obtain ⟨_, rfl⟩ := userDelete_ok (rejects_eq_ok h)
    refine memberRows_filter s fun m hm hmg => ?_
    have hmem : m ∈ memberRows s g := List.mem_filter.mpr ⟨hm, by simpa using hmg⟩
    have hne : m.userId ≠ id := fun heq => hu m hmem heq.symm
    simpa using hne
  | groupCreate data =>
    obtain ⟨userIds, _, hfree, _, hins, _⟩ := groupCreate_ok (rejects_eq_ok h)
    obtain ⟨_, _, rfl⟩ := insertMembers_ok hins
    have hid : t.uuid ≠ g := by
      rintro rfl
      rw [hfree] at hgroup
      contradiction
    exact memberRows_insert ⟨s.users, s.groups ++ [newGroup t data], s.members⟩ hid userIds
  | transaction ops => exact (transaction_effect (rejects_eq_ok h) g).members hg
  | groupDelete id =>
    obtain ⟨_, rfl⟩ := groupDelete_ok (rejects_eq_ok h)
    refine memberRows_filter s fun m _ hmg => ?_
    have hne : m.groupId ≠ id := fun heq => hg (heq.symm.trans hmg)
    simpa using hne
  | memberDeleteMany => exact absurd trivial hg
  | userDeleteMany =>
    cases h
    have hnone : memberRows s g = [] := by
      cases hrows : memberRows s g with
      | nil => rfl
      | cons m rows => exact absurd trivial (hu m (by rw [hrows]; exact List.mem_cons_self ..))
    rw [hnone]
    rfl
  | groupDeleteMany => exact absurd trivial hg
  | _ => exact absurd trivial hreads

end Changes

end OktaScim.RowChanges
