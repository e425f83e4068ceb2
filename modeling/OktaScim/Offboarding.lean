import OktaScim.ConcurrentStore
import OktaScim.RowChanges

/-!
What is deleted stays deleted. In any interleaving of any requests, as long as
no id is drawn twice, a user or group that is gone does not come back, no group
keeps or gets the user as a member, no request that is sent from then on shows
any of them, and one that asks for them is told that they are not found, if the
operations of a PATCH can be translated, which is done before.
-/
namespace OktaScim.Offboarding

open Programs Interleavings Schema KeyedRows PrismaClient PrismaConstraints ScimFilter
open UserPatch GroupPatch Representations Requests RequestPrograms ConcurrentStore RelyGuarantee
open RowChanges

section Stores

/-- None of the users and groups is stored. -/
structure Gone (users groups : Set String) (s : Store) : Prop where
  valid : s.Valid
  user : ∀ u ∈ users, s.user u = none
  group : ∀ g ∈ groups, s.group g = none

variable {users groups : Set String} {s : Store}

theorem Gone.stored (h : Gone users groups s) {u : ScimUser} (hu : u ∈ s.users) : u.id ∉ users := by
  intro hgone
  have hnone := h.user u.id hgone
  rw [h.valid.user_eq_some_iff.mpr ⟨hu, rfl⟩] at hnone
  contradiction

theorem Gone.stored_group (h : Gone users groups s) {g : ScimGroup} (hg : g ∈ s.groups) :
    g.id ∉ groups := by
  intro hgone
  have hnone := h.group g.id hgone
  rw [h.valid.group_eq_some_iff.mpr ⟨hg, rfl⟩] at hnone
  contradiction

theorem Gone.members (h : Gone users groups s) :
    ∀ m ∈ s.members, m.userId ∉ users ∧ m.groupId ∉ groups := by
  refine fun m hm => ⟨fun hu => ?_, fun hg => ?_⟩
  · have hsome := h.valid.memberUser m hm
    rw [h.user _ hu] at hsome
    contradiction
  · have hsome := h.valid.memberGroup m hm
    rw [h.group _ hg] at hsome
    contradiction

/-- The id that is drawn is none of these. -/
def DrawsOther (users groups : Set String) (t : Tick) (_ : Store) : Prop :=
  t.uuid ∉ users ∧ t.uuid ∉ groups

theorem gone_guaranteed (E : Engine) (users groups : Set String) :
    Guarantees (exec E) (DrawsOther users groups) (fun _ => True) (Gone users groups) := by
  rintro t c s r s' ⟨husers, hgroups⟩ _ h hexec
  refine ⟨exec_keeps_valid E t c s r s' h.valid hexec, fun u hu => ?_, fun g hg => ?_⟩
  · exact (exec_userChange hexec u).absent (fun hdrawn => husers (hdrawn ▸ hu)) (h.user u hu)
  · exact (exec_groupChange hexec g).absent (fun hdrawn => hgroups (hdrawn ▸ hg)) (h.group g hg)

end Stores

section Answers

/-- The user shown is none of these. -/
def HidesUser (users : Set String) (rep : UserRep) : Prop := rep.id ∉ users

/-- Neither the group shown nor a member is one of these. -/
def HidesGroup (users groups : Set String) (rep : GroupRep) : Prop :=
  rep.id ∉ groups ∧ ∀ m ∈ rep.members, m.value ∉ users

def Hides (users groups : Set String) (a : Answer) : Prop :=
  match a.body with
  | .user rep => HidesUser users rep
  | .group rep => HidesGroup users groups rep
  | .userList l => ∀ rep ∈ l.Resources, HidesUser users rep
  | .groupList l => ∀ rep ∈ l.Resources, HidesGroup users groups rep
  | .empty => True
  | .error _ => True

/-- A request that asks for one of these, and what is thrown: a PATCH is
translated before it is looked for. -/
inductive AsksFor (users groups : Set String) : Request → Exception → Prop
  | getUser {id : String} : id ∈ users →
    AsksFor users groups (.getUser id) (.notFound s!"User {id} not found")
  | replaceUser {salt id : String} {dto : Bodies.UpdateScimUserDto} : id ∈ users →
    AsksFor users groups (.replaceUser salt id dto) (.notFound s!"User {id} not found")
  | patchUser {id : String} {operations : List (Option Bodies.PatchOperation)}
      {fields : UserPatchFields} : applyUserPatch operations = some fields → id ∈ users →
    AsksFor users groups (.patchUser id operations) (.notFound s!"User {id} not found")
  | patchUserThrows {id : String} {operations : List (Option Bodies.PatchOperation)} :
    applyUserPatch operations = none → id ∈ users →
    AsksFor users groups (.patchUser id operations) .typeError
  | deleteUser {id : String} : id ∈ users →
    AsksFor users groups (.deleteUser id) (.notFound s!"User {id} not found")
  | getGroup {id : String} : id ∈ groups →
    AsksFor users groups (.getGroup id) (.notFound s!"Group {id} not found")
  | replaceGroup {id : String} {dto : Bodies.UpdateScimGroupDto} : id ∈ groups →
    AsksFor users groups (.replaceGroup id dto) (.notFound s!"Group {id} not found")
  | patchGroup {id : String} {operations : List (Option Bodies.PatchOperation)}
      {patch : GroupPatchResult} : applyGroupPatch operations = some patch → id ∈ groups →
    AsksFor users groups (.patchGroup id operations) (.notFound s!"Group {id} not found")
  | patchGroupThrows {id : String} {operations : List (Option Bodies.PatchOperation)} :
    applyGroupPatch operations = none → id ∈ groups →
    AsksFor users groups (.patchGroup id operations) .typeError
  | deleteGroup {id : String} : id ∈ groups →
    AsksFor users groups (.deleteGroup id) (.notFound s!"Group {id} not found")

/-- How a request may end. -/
def Ends (users groups : Set String) (r : Request) (res : Except Exception Answer) : Prop :=
  Hides users groups (answerOf res) ∧ ∀ e, AsksFor users groups r e → res = .error e

variable {users groups : Set String} {env : Env} {s : Store}

theorem hidesUser_stored (h : Gone users groups s) {u : ScimUser} (hu : u ∈ s.users) :
    HidesUser users (toScimUser u env.baseUrl) := h.stored hu

theorem hidesGroup_stored (h : Gone users groups s) {g : ScimGroup} (hg : g ∈ s.groups) :
    HidesGroup users groups (toScimGroup (withMembers s g) env.baseUrl) := by
  refine ⟨h.stored_group hg, fun m hm => ?_⟩
  obtain ⟨row, hrow, rfl⟩ := List.mem_map.mp hm
  obtain ⟨member, hmember, hfound⟩ := List.mem_filterMap.mp hrow
  obtain ⟨u, hu, rfl⟩ := Option.map_eq_some_iff.mp hfound
  exact h.stored (mem_of_findRow hu)

end Answers

section Calls

variable {users groups : Set String} {E : Engine} {t : Tick} {s s' : Store}

theorem mem_window {α : Type} {skip take : ℚ} {rows page : List α}
    (h : window skip take rows = .ok page) {x : α} (hx : x ∈ page) : x ∈ rows := by
  unfold window at h
  split at h
  · cases h
    exact List.mem_of_mem_drop (List.mem_of_mem_take hx)
  · cases h

theorem mem_userList {n : Option String} {skip take : ℚ} {r : ℕ × List ScimUser}
    (h : userList t n skip take s = .ok (r, s')) {u : ScimUser} (hu : u ∈ r.2) : u ∈ s.users := by
  simp only [userList] at h
  split at h
  · rename_i page hpage
    cases h
    have hmatching := mem_window hpage hu
    rw [List.mem_insertionSort] at hmatching
    cases n with
    | none => exact hmatching
    | some n => exact (List.mem_filter.mp hmatching).1
  · cases h

theorem mem_groupList {n : Option String} {skip take : ℚ} {r : ℕ × List GroupWithMembers}
    (h : groupList t n skip take s = .ok (r, s')) {g : GroupWithMembers} (hg : g ∈ r.2) :
    ∃ row ∈ s.groups, g = withMembers s row := by
  simp only [groupList] at h
  split at h
  · rename_i page hpage
    cases h
    obtain ⟨row, hrow, rfl⟩ := List.mem_map.mp hg
    have hmatching := mem_window hpage hrow
    rw [List.mem_insertionSort] at hmatching
    refine ⟨row, ?_, rfl⟩
    cases n with
    | none => exact hmatching
    | some n => exact (List.mem_filter.mp hmatching).1
  · cases h

theorem mem_userCreate {data : UserCreateData} {u : ScimUser}
    (h : userCreate t data s = .ok (u, s')) : u ∈ s'.users := by
  obtain ⟨_, _, rfl, rfl⟩ := userCreate_ok h
  exact List.mem_append_right _ (List.mem_singleton_self _)

theorem mem_userUpdate {id : String} {data : UserUpdateData} {u : ScimUser}
    (h : userUpdate E t id data s = .ok (u, s')) : u ∈ s'.users := by
  obtain ⟨upd, old, _, hold, _, rfl, rfl⟩ := userUpdate_ok h
  have hfound := user_modifyRow s id id (upd.apply t.now) (fun _ => rfl)
  rw [if_pos rfl, hold] at hfound
  exact mem_of_findRow hfound

theorem mem_groupCreate {data : GroupCreateData} {g : GroupWithMembers}
    (h : groupCreate t data s = .ok (g, s')) : ∃ row ∈ s'.groups, g = withMembers s' row := by
  obtain ⟨userIds, _, _, _, hins, rfl⟩ := groupCreate_ok h
  obtain ⟨_, _, rfl⟩ := insertMembers_ok hins
  exact ⟨_, List.mem_append_right _ (List.mem_singleton_self _), rfl⟩

end Calls

section Programs

variable {users groups : Set String} {env : Env} {r : Request}

/-- Programs that end as the request may, while these are gone. -/
abbrev EndsAs (env : Env) (users groups : Set String) (r : Request) (p : Service Answer) : Prop :=
  Relies (exec env.engine) (Gone users groups) (Ends users groups r) p

/-- The request asks for none of these. -/
def AsksForOther (users groups : Set String) (r : Request) : Prop := ∀ e, ¬AsksFor users groups r e

theorem ends_error (h : AsksForOther users groups r) (e : Exception) :
    Ends users groups r (.error e) := ⟨trivial, fun e' he' => absurd he' (h e')⟩

theorem ends_ok (h : AsksForOther users groups r) {a : Answer} (ha : Hides users groups a) :
    Ends users groups r (.ok a) := ⟨ha, fun e' he' => absurd he' (h e')⟩

theorem userLookup_ends {id : String} {rest : Service Answer}
    (hmiss : Ends users groups r (.error (.notFound s!"User {id} not found")))
    (hrest : id ∉ users → EndsAs env users groups r rest) :
    EndsAs env users groups r (.call (.userFindUnique id) (UsersService.whenFound id rest)) := by
  refine ⟨fun t s found s' hs _ hexec => ?_, fun t s e hs hexec => by cases hexec⟩
  cases hexec
  cases hfound : s.user id with
  | none => exact hmiss
  | some u =>
    refine hrest fun hgone => ?_
    rw [hs.user id hgone] at hfound
    contradiction

theorem groupLookup_ends {id : String} {rest : Service Answer}
    (hmiss : Ends users groups r (.error (.notFound s!"Group {id} not found")))
    (hrest : id ∉ groups → EndsAs env users groups r rest) :
    EndsAs env users groups r (.call (.groupFindUnique id) (GroupsService.whenFound id rest)) := by
  refine ⟨fun t s found s' hs _ hexec => ?_, fun t s e hs hexec => by cases hexec⟩
  cases hexec
  cases hfound : s.group id with
  | none => exact hmiss
  | some g =>
    refine hrest fun hgone => ?_
    rw [hs.group id hgone] at hfound
    contradiction

/-- A read of a group, on its own or at the end of a request. -/
theorem readGroup_ends {id : String}
    (hmiss : Ends users groups r (.error (.notFound s!"Group {id} not found")))
    (hother : id ∉ groups → AsksForOther users groups r) :
    EndsAs env users groups r (readGroup env id) := by
  refine ⟨fun t s found s' hs _ hexec => ?_, fun t s e hs hexec => by cases hexec⟩
  cases hexec
  cases hfound : s.group id with
  | none => exact hmiss
  | some g =>
    have hfree : id ∉ groups := by
      intro hgone
      rw [hs.group id hgone] at hfound
      contradiction
    exact ends_ok (hother hfree) (hidesGroup_stored hs (mem_of_findRow hfound))

theorem updateUserTail_ends {id : String} {data : UserUpdateData}
    (hother : AsksForOther users groups r) :
    EndsAs env users groups r (updateUserTail env id data) := by
  refine ⟨fun t s u s' _ hs' hexec => ?_, fun t s e _ _ => ends_error hother e⟩
  exact ends_ok hother (hidesUser_stored hs' (mem_userUpdate (rejects_eq_ok hexec)))

theorem writeGroup_ends {id : String} {ops : List BatchOp} (hother : AsksForOther users groups r) :
    EndsAs env users groups r (writeGroup env id ops) :=
  ⟨fun _ _ _ _ _ _ _ => readGroup_ends (ends_error hother _) fun _ => hother,
    fun _ _ e _ _ => ends_error hother e⟩

/-- One case for each request; what it asks for decides how its lookup may fail. -/
theorem handle_ends (r : Request) : EndsAs env users groups r (r.handle env) := by
  cases r with
  | listUsers filter pagination =>
    have hother : AsksForOther users groups (.listUsers filter pagination) :=
      fun e he => by cases he
    rw [handle_listUsers]
    refine ⟨fun t s found s' hs _ hexec => ends_ok hother fun rep hrep => ?_,
      fun t s e _ _ => ends_error hother e⟩
    obtain ⟨u, hu, rfl⟩ := List.mem_map.mp hrep
    exact hidesUser_stored hs (mem_userList (rejects_eq_ok hexec) hu)
  | getUser id =>
    rw [handle_getUser]
    refine ⟨fun t s found s' hs _ hexec => ?_, fun t s e hs hexec => by cases hexec⟩
    cases hexec
    cases hfound : s.user id with
    | none => exact ⟨trivial, fun e he => by cases he; rfl⟩
    | some u =>
      refine ⟨hidesUser_stored hs (mem_of_findRow hfound), fun e he => ?_⟩
      cases he with
      | getUser hgone =>
        rw [hs.user id hgone] at hfound
        contradiction
  | createUser salt dto =>
    have hother : AsksForOther users groups (.createUser salt dto) := fun e he => by cases he
    rw [handle_createUser]
    refine ⟨fun t s existing s' _ _ _ => ?_, fun t s e _ _ => ends_error hother e⟩
    cases existing with
    | some u => exact ends_error hother _
    | none =>
      refine ⟨fun t s u s' _ hs' hexec => ?_, fun t s e _ _ => ends_error hother e⟩
      exact ends_ok hother (hidesUser_stored hs' (mem_userCreate (rejects_eq_ok hexec)))
  | replaceUser salt id dto =>
    rw [handle_replaceUser]
    refine userLookup_ends ⟨trivial, fun e he => by cases he; rfl⟩ fun hfree => ?_
    exact updateUserTail_ends fun e he => by cases he with | replaceUser hgone => exact hfree hgone
  | patchUser id operations =>
    cases hpatch : applyUserPatch operations with
    | none =>
      rw [handle_patchUser_none env hpatch]
      refine ⟨trivial, fun e he => ?_⟩
      cases he with
      | patchUser hfields =>
        rw [hpatch] at hfields
        contradiction
      | patchUserThrows => rfl
    | some fields =>
      rw [handle_patchUser_some env hpatch]
      have hmiss : ∀ e, AsksFor users groups (.patchUser id operations) e →
          id ∈ users ∧ e = .notFound s!"User {id} not found" := by
        intro e he
        cases he with
        | patchUser _ hgone => exact ⟨hgone, rfl⟩
        | patchUserThrows hnone =>
          rw [hpatch] at hnone
          contradiction
      refine userLookup_ends ⟨trivial, fun e he => by rw [(hmiss e he).2]⟩ fun hfree => ?_
      exact updateUserTail_ends fun e he => hfree (hmiss e he).1
  | deleteUser id =>
    rw [handle_deleteUser]
    refine userLookup_ends ⟨trivial, fun e he => by cases he; rfl⟩ fun hfree => ?_
    have hother : AsksForOther users groups (.deleteUser id) := fun e he => by
      cases he with | deleteUser hgone => exact hfree hgone
    exact ⟨fun _ _ _ _ _ _ _ => ends_ok hother trivial, fun _ _ e _ _ => ends_error hother e⟩
  | listGroups filter pagination =>
    have hother : AsksForOther users groups (.listGroups filter pagination) :=
      fun e he => by cases he
    rw [handle_listGroups]
    refine ⟨fun t s found s' hs _ hexec => ends_ok hother fun rep hrep => ?_,
      fun t s e _ _ => ends_error hother e⟩
    obtain ⟨g, hg, rfl⟩ := List.mem_map.mp hrep
    obtain ⟨row, hrow, rfl⟩ := mem_groupList (rejects_eq_ok hexec) hg
    exact hidesGroup_stored hs hrow
  | getGroup id =>
    rw [handle_getGroup]
    refine readGroup_ends ⟨trivial, fun e he => by cases he; rfl⟩ fun hfree e he => ?_
    cases he with | getGroup hgone => exact hfree hgone
  | createGroup dto =>
    have hother : AsksForOther users groups (.createGroup dto) := fun e he => by cases he
    rw [handle_createGroup]
    refine ⟨fun t s existing s' _ _ _ => ?_, fun t s e _ _ => ends_error hother e⟩
    cases existing with
    | some g => exact ends_error hother _
    | none =>
      unfold createGroupTail
      cases GroupsService.memberCreates dto.members with
      | none => exact ends_error hother _
      | some members =>
        refine ⟨fun t s g s' _ hs' hexec => ?_, fun t s e _ _ => ends_error hother e⟩
        obtain ⟨row, hrow, rfl⟩ := mem_groupCreate (rejects_eq_ok hexec)
        exact ends_ok hother (hidesGroup_stored hs' hrow)
  | replaceGroup id dto =>
    rw [handle_replaceGroup]
    refine groupLookup_ends ⟨trivial, fun e he => by cases he; rfl⟩ fun hfree => ?_
    have hother : AsksForOther users groups (.replaceGroup id dto) := fun e he => by
      cases he with | replaceGroup hgone => exact hfree hgone
    unfold replaceGroupTail
    cases GroupsService.memberCreates dto.members with
    | none => exact ends_error hother _
    | some members => exact writeGroup_ends hother
  | patchGroup id operations =>
    cases hpatch : applyGroupPatch operations with
    | none =>
      rw [handle_patchGroup_none env hpatch]
      refine ⟨trivial, fun e he => ?_⟩
      cases he with
      | patchGroup hpatched =>
        rw [hpatch] at hpatched
        contradiction
      | patchGroupThrows => rfl
    | some patch =>
      rw [handle_patchGroup_some env hpatch]
      have hmiss : ∀ e, AsksFor users groups (.patchGroup id operations) e →
          id ∈ groups ∧ e = .notFound s!"Group {id} not found" := by
        intro e he
        cases he with
        | patchGroup _ hgone => exact ⟨hgone, rfl⟩
        | patchGroupThrows hnone =>
          rw [hpatch] at hnone
          contradiction
      refine groupLookup_ends ⟨trivial, fun e he => by rw [(hmiss e he).2]⟩ fun hfree => ?_
      have hother : AsksForOther users groups (.patchGroup id operations) :=
        fun e he => hfree (hmiss e he).1
      unfold patchGroupTail
      cases GroupsService.patchOperations id patch with
      | nil => exact readGroup_ends (ends_error hother _) fun _ => hother
      | cons op ops => exact writeGroup_ends hother
  | deleteGroup id =>
    rw [handle_deleteGroup]
    refine groupLookup_ends ⟨trivial, fun e he => by cases he; rfl⟩ fun hfree => ?_
    have hother : AsksForOther users groups (.deleteGroup id) := fun e he => by
      cases he with | deleteGroup hgone => exact hfree hgone
    exact ⟨fun _ _ _ _ _ _ _ => ends_ok hother trivial, fun _ _ e _ _ => ends_error hother e⟩
  | clearData =>
    have hother : AsksForOther users groups .clearData := fun e he => by cases he
    refine ⟨fun _ _ _ _ _ _ _ => ⟨fun _ _ _ _ _ _ _ => ⟨fun _ _ _ _ _ _ _ => ?_, ?_⟩, ?_⟩, ?_⟩
    · exact ends_ok hother trivial
    · exact fun _ _ e _ _ => ends_error hother e
    · exact fun _ _ e _ _ => ends_error hother e
    · exact fun _ _ e _ _ => ends_error hother e

end Programs

section Runs

variable {ι : Type} [DecidableEq ι] {env : Env} {request : ι → Request} {users groups : Set String}

/-- Configurations reached in any interleaving in which none of these ids is drawn. -/
abbrev Later (env : Env) (request : ι → Request) (users groups : Set String)
    (cfg cfg' : Clients ι) : Prop :=
  Reaches (exec env.engine) (fun i => (request i).handle env)
    (StepsOf (fun _ => True) (DrawsOther users groups)) cfg cfg'

/-- Deleted users and groups are gone for good: they are stored nowhere, no
request that is sent later shows them, and those that ask for them get a 404, or
a 500 where the operations of a PATCH cannot be translated. -/
theorem deleted_stays_gone {s : Store} (hs : s.Valid) {cfg cfg' : Clients ι}
    (hcfg : Served env request s cfg) (husers : ∀ u ∈ users, cfg.store.user u = none)
    (hgroups : ∀ g ∈ groups, cfg.store.group g = none)
    (h : Later env request users groups cfg cfg') :
    (∀ u ∈ users, cfg'.store.user u = none) ∧ (∀ g ∈ groups, cfg'.store.group g = none) ∧
      (∀ m ∈ cfg'.store.members, m.userId ∉ users ∧ m.groupId ∉ groups) ∧
      ∀ i res, cfg.threads i = none → cfg'.answered i = some res →
        Hides users groups (answerOf res) ∧
          ∀ e, AsksFor users groups (request i) e → answerOf res = answerOf (.error e) := by
  have hvalid := reaches_keeps (exec env.engine) _ (exec_keeps_valid env.engine) hs hcfg
  have hgone : Gone users groups cfg.store := ⟨hvalid, husers, hgroups⟩
  have hprog : ∀ i, True → Makes (fun _ => True) ((request i).handle env) := fun _ _ => makes_any _
  have hinit : ∀ i p, True → cfg.threads i = some p → Makes (fun _ => True) p :=
    fun _ p _ _ => makes_any p
  have hG := gone_guaranteed env.engine users groups
  have hgone' := reaches_guarantees hprog hinit hG hgone h
  refine ⟨hgone'.user, hgone'.group, hgone'.members, fun i res hi hres => ?_⟩
  have hends : Ends users groups (request i) res :=
    reaches_relies hprog hinit hG hgone (handle_ends (request i)) hi h hres
  exact ⟨hends.1, fun e he => congrArg answerOf (hends.2 e he)⟩

/-- Someone who has left the company is to join a group. -/
def leaveAndJoin : Bool → Request
  | true => .deleteUser "u"
  | false => .patchGroup "g" [some (membersOperation "add" ["u"])]

theorem deleted_stays_gone_sample : ∃ cfg cfg' : Clients Bool,
    cfg.answered true = some (.ok ⟨204, .empty⟩) ∧
      cfg'.answered false = some (.error (.prisma .P2003)) ∧
      (∀ u ∈ ({"u"} : Set String), cfg'.store.user u = none) ∧
      (∀ g ∈ (∅ : Set String), cfg'.store.group g = none) ∧
      (∀ m ∈ cfg'.store.members, m.userId ∉ ({"u"} : Set String) ∧ m.groupId ∉ (∅ : Set String)) ∧
      ∀ i res, cfg.threads i = none → cfg'.answered i = some res →
        Hides {"u"} ∅ (answerOf res) ∧
          ∀ e, AsksFor {"u"} ∅ (leaveAndJoin i) e → answerOf res = answerOf (.error e) := by
  have hdrawn : ∀ now, DrawsOther {"u"} ∅ (sampleTick "x" now) sampleStore := by
    intro now
    exact ⟨by simp [sampleTick], Set.notMem_empty _⟩
  have h₀ : Served sampleEnv leaveAndJoin sampleStore (Config.initial sampleStore) := .refl
  have h₁ := (h₀.tail (e := .start true) trivial rfl).tail (e := .call true (sampleTick "x" 1))
    trivial rfl
  have h₂ := h₁.tail (e := .call true (sampleTick "x" 2)) trivial rfl
  have hgone : ∀ u ∈ ({"u"} : Set String),
      Store.user ⟨[], [sampleGroup "g" "staff"], []⟩ u = none := fun _ _ => rfl
  have hfrom : ∀ {cfg : Clients Bool}, Served sampleEnv leaveAndJoin sampleStore cfg →
      Later sampleEnv leaveAndJoin {"u"} ∅ cfg cfg := fun _ => .refl
  have k₀ := hfrom h₂
  have k₁ := (k₀.tail (e := .start false) trivial rfl).tail (e := .call false (sampleTick "x" 3))
    ⟨trivial, hdrawn 3⟩ rfl
  have k₂ := k₁.tail (e := .call false (sampleTick "x" 4)) ⟨trivial, hdrawn 4⟩ rfl
  exact ⟨_, _, rfl, rfl, deleted_stays_gone sampleStore_valid h₂ hgone
    (fun g hg => absurd hg (Set.notMem_empty g)) k₂⟩

end Runs

end OktaScim.Offboarding
