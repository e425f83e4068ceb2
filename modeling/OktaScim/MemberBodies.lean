import OktaScim.PatchPostconditions
import OktaScim.ReadWriteBack

/-!
Members that a body lists against members that a PATCH adds. The nested create
of a body inserts one row for each entry and refuses a repeated id; the upserts
of a PATCH take it once, and an empty id is not looked at.
-/
namespace OktaScim.MemberBodies

open Programs Schema KeyedRows JsValues PrismaClient PrismaConstraints Bodies GroupPatch
open Requests RequestPrograms GroupPatchMeaning GroupPatchEffect GroupPatchFrame GroupUpdates
open MembershipRefinement PatchPostconditions ReadWriteBack

section Patches

variable {env : Env} {ticks : ℕ → Tick} {s : Store} {id op : String} {M : List String}

/-- The ids that the translation collects from a list of members. -/
def listedIds (M : List String) : List Json := (M.filter (· ≠ "")).map .str

theorem memberValues_ids (M : List String) :
    memberValues (M.map fun u => .obj [("value", .str u)]) = listedIds M := by
  have hentry : ∀ u : String, (((Json.obj [("value", .str u)]).get "value").filter Json.truthy) =
      if u ≠ "" then some (.str u) else none := by
    intro u
    by_cases hu : u = "" <;> simp [Json.get, Json.truthy, hu]
  unfold memberValues listedIds
  induction M with
  | nil => rfl
  | cons u M ih =>
    rw [List.map_cons, List.filterMap_cons, hentry, ih]
    by_cases hu : u = "" <;> simp [hu]

theorem applyGroupPatch_adds (hop : toLowerCase op = "add") (M : List String) :
    applyGroupPatch [some (membersOperation op M)] = some ⟨none, none, listedIds M, []⟩ := by
  simp [applyGroupPatch, applyGroupOperations, applyGroupOperation, membersOperation, hop, iterate,
    GroupPatchResult.initial, memberValues_ids]

theorem applyGroupPatch_removes (hop : toLowerCase op = "remove") (M : List String) :
    applyGroupPatch [some (membersOperation op M)] = some ⟨none, none, [], listedIds M⟩ := by
  simp [applyGroupPatch, applyGroupOperations, applyGroupOperation, membersOperation, hop, iterate,
    GroupPatchResult.initial, memberValues_ids]

/-- A batch that goes through is answered. -/
theorem serve_patchGroup_ok {ops : List (Option PatchOperation)} {r : GroupPatchResult}
    {s' : Store} (hr : applyGroupPatch ops = some r) (hid : (s.group id).isSome = true)
    (h : transaction env.engine (ticks 1) (GroupsService.patchOperations id r) s = .ok ((), s')) :
    ∃ a, serve env ticks (.patchGroup id ops) s = (.ok a, s') := by
  obtain ⟨g, hg⟩ := Option.isSome_iff_exists.mp (transaction_group h id hid)
  refine ⟨groupAnswer env 200 (withMembers s' g), ?_⟩
  unfold serve
  rw [handle_patchGroup_some env hr, run_groupLookup, if_pos hid, patchGroupTail]
  cases hops : GroupsService.patchOperations id r with
  | nil =>
    rw [hops] at h
    cases h
    dsimp only
    rw [run_readGroup, hg]
  | cons b bs =>
    rw [hops] at h
    dsimp only
    rw [run_writeGroup]
    simp only [Nat.zero_add, h]
    rw [run_readGroup, hg]

/-- Upserts of users that exist go through, whatever is repeated. -/
theorem execWrites_upserts (t : Tick) (hid : (s.group id).isSome = true)
    (hM : ∀ u ∈ M, (s.user u).isSome = true) :
    ∃ s', execWrites t (M.map (Write.memberUpsert id)) s = .ok s' := by
  induction M generalizing s with
  | nil => exact ⟨s, rfl⟩
  | cons u M ih =>
    have hu := hM u List.mem_cons_self
    have hrest : ∀ v ∈ M, (s.user v).isSome = true := fun v hv => hM v (List.mem_cons_of_mem _ hv)
    have hexec : (Write.memberUpsert id u).exec t s =
        if ⟨id, u⟩ ∈ s.members then .ok s else insertMember ⟨id, u⟩ s := rfl
    have hstep : ∃ mid, (Write.memberUpsert id u).exec t s = .ok mid ∧ mid.users = s.users ∧
        mid.groups = s.groups := by
      by_cases hmem : (⟨id, u⟩ : ScimGroupMember) ∈ s.members
      · exact ⟨s, by rw [hexec, if_pos hmem], rfl, rfl⟩
      · refine ⟨{ s with members := s.members ++ [⟨id, u⟩] }, ?_, rfl, rfl⟩
        rw [hexec, if_neg hmem, insertMember, if_neg hmem, if_pos ⟨hid, hu⟩]
    obtain ⟨mid, hmid, husers, hgroups⟩ := hstep
    obtain ⟨s', hs'⟩ := ih (s := mid) (by rw [Store.group, hgroups]; exact hid)
      (fun v hv => by rw [Store.user, husers]; exact hrest v hv)
    exact ⟨s', by rw [List.map_cons, execWrites, hmid]; exact hs'⟩

theorem execWrites_deletes (t : Tick) (id : String) (M : List String) (s : Store) :
    ∃ s', execWrites t (M.map fun u => Write.memberDeleteMany (some id) (fun w => w == u)) s =
      .ok s' := by
  induction M generalizing s with
  | nil => exact ⟨s, rfl⟩
  | cons u M ih =>
    rw [List.map_cons]
    exact ih _

theorem mapM_reads {E : Engine} (op : Json → BatchOp) (w : String → Write)
    (hread : ∀ u, (op (.str u)).read E = some (w u)) (M : List String) :
    ((M.map Json.str).map op).mapM (BatchOp.read E) = some (M.map w) := by
  induction M with
  | nil => rfl
  | cons u M ih =>
    rw [List.map_cons, List.map_cons, List.mapM_cons, hread, ih]
    rfl

/-- A PATCH that adds users who exist succeeds and adds those it looks at. -/
theorem serve_adds (env : Env) (ticks : ℕ → Tick) (hop : toLowerCase op = "add")
    (hid : (s.group id).isSome = true) (hM : ∀ u ∈ M, (s.user u).isSome = true) :
    ∃ a s', serve env ticks (.patchGroup id [some (membersOperation op M)]) s = (.ok a, s') ∧
      ∀ u, u ∈ memberSet s' id ↔ u ∈ memberSet s id ∨ (u ∈ M ∧ u ≠ "") := by
  have hr := applyGroupPatch_adds hop M
  obtain ⟨s', hrun⟩ := execWrites_upserts (M := M.filter (· ≠ "")) (ticks 1) hid
    fun u hu => hM u (List.mem_of_mem_filter hu)
  have hread := mapM_reads (E := env.engine) (.memberUpsert id) (.memberUpsert id) (fun _ => rfl)
    (M.filter (· ≠ ""))
  have htr : transaction env.engine (ticks 1)
      (GroupsService.patchOperations id ⟨none, none, listedIds M, []⟩) s = .ok ((), s') := by
    have hops : GroupsService.patchOperations id ⟨none, none, listedIds M, []⟩ =
        (listedIds M).map (.memberUpsert id) := by
      simp [GroupsService.patchOperations]
    rw [hops, listedIds, transaction_of_read hread, hrun]
    rfl
  obtain ⟨a, hserve⟩ := serve_patchGroup_ok hr hid htr
  refine ⟨a, s', hserve, fun u => ?_⟩
  have hpatched := (transaction_patchOperations_ok htr).members ⟨id, u⟩
  simpa [memberSet, listedIds] using hpatched

/-- A PATCH that removes users succeeds and leaves those it does not look at. -/
theorem serve_removes (env : Env) (ticks : ℕ → Tick) (hop : toLowerCase op = "remove")
    (hid : (s.group id).isSome = true) (M : List String) :
    ∃ a s', serve env ticks (.patchGroup id [some (membersOperation op M)]) s = (.ok a, s') ∧
      s'.users = s.users ∧ (s'.group id).isSome = true ∧
      ∀ u, u ∈ memberSet s' id ↔ u ∈ memberSet s id ∧ (u ∈ M → u = "") := by
  have hr := applyGroupPatch_removes hop M
  obtain ⟨s', hrun⟩ := execWrites_deletes (ticks 1) id (M.filter (· ≠ "")) s
  have hread := mapM_reads (E := env.engine) (fun v => .memberDeleteMany (some id) (some v))
    (fun u => .memberDeleteMany (some id) (fun w => w == u))
    (fun u => by simp [BatchOp.read, readFilter, env.engine.filter_str]) (M.filter (· ≠ ""))
  have htr : transaction env.engine (ticks 1)
      (GroupsService.patchOperations id ⟨none, none, [], listedIds M⟩) s = .ok ((), s') := by
    have hops : GroupsService.patchOperations id ⟨none, none, [], listedIds M⟩ =
        (listedIds M).map fun v => .memberDeleteMany (some id) (some v) := by
      simp [GroupsService.patchOperations]
    rw [hops, listedIds, transaction_of_read hread, hrun]
    rfl
  obtain ⟨a, hserve⟩ := serve_patchGroup_ok hr hid htr
  have hpatched := transaction_patchOperations_ok htr
  refine ⟨a, s', hserve, hpatched.users, (hpatched.group id).trans hid, fun u => ?_⟩
  have hmember := hpatched.members ⟨id, u⟩
  have hselects : (∃ v ∈ listedIds M, Selects env.engine v u) ↔ u ∈ M ∧ u ≠ "" := by
    simp [listedIds, selects_str]
  simpa [memberSet, hselects] using hmember

end Patches

section Bodies

/-- A body that lists the members `M`. -/
def bodyOf (displayName : String) (externalId : Nullable String) (M : List String) :
    CreateScimGroupDto :=
  ⟨displayName, externalId, .value (M.map fun u => some ⟨some u, .undefined⟩)⟩

/-- A body without members. -/
def bareBody (displayName : String) (externalId : Nullable String) : CreateScimGroupDto :=
  ⟨displayName, externalId, .undefined⟩

theorem memberCreates_bodyOf (displayName : String) (externalId : Nullable String)
    (M : List String) :
    GroupsService.memberCreates (bodyOf displayName externalId M).members = some (M.map some) := by
  unfold GroupsService.memberCreates bodyOf Nullable.orElse
  induction M with
  | nil => rfl
  | cons u M ih =>
    dsimp only at ih ⊢
    rw [List.map_cons, List.mapM_cons, ih]
    rfl

variable {env : Env} {ticks : ℕ → Tick} {s : Store} {id name : String}
  {externalId : Nullable String} {M : List String}

/-- New memberships of users that exist are inserted unless one is repeated. -/
theorem insertMembers_cases (hgroup : (s.group id).isSome = true)
    (hnew : ∀ u ∈ M, (⟨id, u⟩ : ScimGroupMember) ∉ s.members)
    (hM : ∀ u ∈ M, (s.user u).isSome = true) :
    (M.Nodup ∧ insertMembers id M s =
        .ok { s with members := s.members ++ M.map (ScimGroupMember.mk id) }) ∨
      (¬M.Nodup ∧ ∃ e, insertMembers id M s = .error e) := by
  by_cases hnodup : M.Nodup
  · exact Or.inl ⟨hnodup, insertMembers_eq_ok hnodup hgroup hnew hM⟩
  · refine Or.inr ⟨hnodup, ?_⟩
    cases hins : insertMembers id M s with
    | ok s' => exact absurd (insertMembers_ok hins).1 hnodup
    | error e => exact ⟨e, rfl⟩

/-- The outcome of a POST of a group with an unused name. -/
theorem serve_createGroup {dto : CreateScimGroupDto} {members : List (Option String)}
    (hname : s.groupNamed dto.displayName = none)
    (hcreates : GroupsService.memberCreates dto.members = some members) :
    serve env ticks (.createGroup dto) s =
      match groupCreate (ticks 1) ⟨dto.displayName, dto.externalId, members⟩ s with
      | .ok (g, s') => (.ok (groupAnswer env 201 g), s')
      | .error e => (.error (.prisma e), s) := by
  unfold serve
  rw [handle_createGroup]
  simp only [run, exec, hname, createGroupTail, hcreates]
  cases groupCreate (ticks 1) ⟨dto.displayName, dto.externalId, members⟩ s <;> rfl

/-- It succeeds exactly when no member is listed twice. -/
theorem createGroup_cases (env : Env) (ticks : ℕ → Tick) (hs : s.Valid) (dto : CreateScimGroupDto)
    (hname : s.groupNamed dto.displayName = none) (hfresh : s.group (ticks 1).uuid = none)
    (hcreates : GroupsService.memberCreates dto.members = some (M.map some))
    (hM : ∀ u ∈ M, (s.user u).isSome = true) :
    (M.Nodup ∧ ∃ a s', serve env ticks (.createGroup dto) s = (.ok a, s') ∧
        s'.users = s.users ∧ (s'.group (ticks 1).uuid).isSome = true ∧
        ∀ u, u ∈ memberSet s' (ticks 1).uuid ↔ u ∈ M) ∨
      (¬M.Nodup ∧ ∃ e, (serve env ticks (.createGroup dto) s).1 = .error e) := by
  let data : GroupCreateData := ⟨dto.displayName, dto.externalId, M.map some⟩
  let s₀ : Store := { s with groups := s.groups ++ [newGroup (ticks 1) data] }
  have hgroup : (s₀.group (ticks 1).uuid).isSome = true := by
    simp [s₀, Store.group, findRow_append_singleton]
  have hnone : ∀ u, (⟨(ticks 1).uuid, u⟩ : ScimGroupMember) ∉ s.members := by
    intro u hmem
    have hsome := hs.memberGroup _ hmem
    rw [hfresh] at hsome
    contradiction
  have hcreate : groupCreate (ticks 1) data s = (insertMembers (ticks 1).uuid M s₀).map
      fun s' => (withMembers s' (newGroup (ticks 1) data), s') := by
    simp only [groupCreate, data, readMembers_some, hfresh, hname, Option.isSome_none,
      Bool.false_eq_true, or_self, if_false]
    cases insertMembers (ticks 1).uuid M s₀ <;> rfl
  rw [serve_createGroup hname hcreates, hcreate]
  rcases insertMembers_cases (s := s₀) hgroup (fun u _ => hnone u) hM with
    ⟨hnodup, hins⟩ | ⟨hrepeats, e, hins⟩
  · rw [hins]
    refine Or.inl ⟨hnodup, _, { s₀ with members := s₀.members ++ M.map (ScimGroupMember.mk _) },
      rfl, rfl, hgroup, fun u => ?_⟩
    simp [memberSet, s₀, hnone u]
  · exact Or.inr ⟨hrepeats, .prisma e, by rw [hins]; rfl⟩

/-- The tables before a PUT inserts the members that it lists. -/
def emptied (now : ℕ) (id : String) (dto : UpdateScimGroupDto) (s : Store) : Store where
  users := s.users
  groups :=
    modifyRow ScimGroup.id id (updateGroup now (some dto.displayName) dto.externalId) s.groups
  members := eraseRow ScimGroupMember.groupId id s.members

theorem transaction_replaces {E : Engine} {t : Tick} {dto : UpdateScimGroupDto} {g : ScimGroup}
    (hg : s.group id = some g) (hfree : displayNameTaken s id dto.displayName = false)
    (M : List String) :
    transaction E t (GroupsService.replaceOperations id dto (M.map some)) s =
      match insertMembers id M (emptied t.now id dto s) with
      | .ok s' => .ok ((), s')
      | .error e => .error e := by
  have hupdate : (Write.groupUpdate id (some dto.displayName) dto.externalId M).exec t
      { s with members := eraseRow ScimGroupMember.groupId id s.members } =
      insertMembers id M (emptied t.now id dto s) := by
    have hg' : Store.group { s with members := eraseRow ScimGroupMember.groupId id s.members } id =
        some g := hg
    have hfree' : displayNameTaken
        { s with members := eraseRow ScimGroupMember.groupId id s.members } id
        ((some dto.displayName).getD g.displayName) = false := hfree
    simp only [Write.exec, hg', hfree']
    rfl
  rw [transaction_replaceOperations E t id dto (readMembers_some M), hupdate]
  cases insertMembers id M (emptied t.now id dto s) <;> rfl

/-- A PUT of a stored group under a name that is free for it succeeds exactly
when it lists no member twice. -/
theorem replaceGroup_cases (env : Env) (ticks : ℕ → Tick) (dto : UpdateScimGroupDto) {g : ScimGroup}
    (hg : s.group id = some g) (hfree : displayNameTaken s id dto.displayName = false)
    (hcreates : GroupsService.memberCreates dto.members = some (M.map some))
    (hM : ∀ u ∈ M, (s.user u).isSome = true) :
    (M.Nodup ∧ ∃ a s', serve env ticks (.replaceGroup id dto) s = (.ok a, s') ∧
        ∀ u, u ∈ memberSet s' id ↔ u ∈ M) ∨
      (¬M.Nodup ∧ ∃ e, (serve env ticks (.replaceGroup id dto) s).1 = .error e) := by
  have hgroup : (emptied (ticks 1).now id dto s).group id =
      some (updateGroup (ticks 1).now (some dto.displayName) dto.externalId g) := by
    have hrow := group_modifyRow s id id
      (updateGroup (ticks 1).now (some dto.displayName) dto.externalId) fun _ => rfl
    rw [if_pos rfl, hg] at hrow
    exact hrow
  have hnone : ∀ u, (⟨id, u⟩ : ScimGroupMember) ∉ (emptied (ticks 1).now id dto s).members :=
    fun u hmem => (mem_eraseRow.mp hmem).2 rfl
  unfold serve
  rw [handle_replaceGroup, run_groupLookup, if_pos (by rw [hg]; rfl), replaceGroupTail, hcreates]
  dsimp only
  rw [run_writeGroup, Nat.zero_add, transaction_replaces hg hfree]
  rcases insertMembers_cases (s := emptied (ticks 1).now id dto s) (by rw [hgroup]; rfl)
    (fun u _ => hnone u) hM with ⟨hnodup, hins⟩ | ⟨hrepeats, e, hins⟩
  · rw [hins]
    let s' : Store := { emptied (ticks 1).now id dto s with
      members := (emptied (ticks 1).now id dto s).members ++ M.map (ScimGroupMember.mk id) }
    let g' : ScimGroup := updateGroup (ticks 1).now (some dto.displayName) dto.externalId g
    have hgroup' : s'.group id = some g' := hgroup
    refine Or.inl ⟨hnodup, groupAnswer env 200 (withMembers s' g'), s', ?_, fun u => ?_⟩
    · dsimp only
      rw [run_readGroup, hgroup']
    · simp [s', memberSet, hnone u]
  · exact Or.inr ⟨hrepeats, .prisma e, by rw [hins]⟩

end Bodies

section Agreement

/-- A POST with the members `M`, and a POST without members and then a PATCH
that adds `M`, both succeed and give their new group the same member set. The
new group's id is the one drawn for the second call of the POST. -/
def PostAgrees (env : Env) (ticks ticks' ticks'' : ℕ → Tick) (name : String)
    (externalId : Nullable String) (op : String) (M : List String) (s : Store) : Prop :=
  ∃ a s₁ a' s₂ a'' s₃,
    serve env ticks (.createGroup (bodyOf name externalId M)) s = (.ok a, s₁) ∧
    serve env ticks' (.createGroup (bareBody name externalId)) s = (.ok a', s₂) ∧
    serve env ticks'' (.patchGroup (ticks' 1).uuid [some (membersOperation op M)]) s₂ =
      (.ok a'', s₃) ∧
    memberSet s₁ (ticks 1).uuid = memberSet s₃ (ticks' 1).uuid

/-- A PUT with the members `M`, and a PATCH that removes the members `current`
and then one that adds `M`, both succeed and leave the same member set. -/
def PutAgrees (env : Env) (ticks ticks' ticks'' : ℕ → Tick) (id name : String)
    (externalId : Nullable String) (remove add : String) (current M : List String) (s : Store) :
    Prop :=
  ∃ a s₁ a' s₂ a'' s₃,
    serve env ticks (.replaceGroup id (bodyOf name externalId M)) s = (.ok a, s₁) ∧
    serve env ticks' (.patchGroup id [some (membersOperation remove current)]) s = (.ok a', s₂) ∧
    serve env ticks'' (.patchGroup id [some (membersOperation add M)]) s₂ = (.ok a'', s₃) ∧
    memberSet s₁ id = memberSet s₃ id

variable {env : Env} {ticks ticks' ticks'' : ℕ → Tick} {s : Store} {id name op : String}
  {externalId : Nullable String} {current M : List String} {g : ScimGroup}

theorem postAgrees_iff (hs : s.Valid) (hname : s.groupNamed name = none)
    (hfresh : s.group (ticks 1).uuid = none) (hfresh' : s.group (ticks' 1).uuid = none)
    (hop : toLowerCase op = "add") (hM : ∀ u ∈ M, (s.user u).isSome = true) :
    PostAgrees env ticks ticks' ticks'' name externalId op M s ↔ M.Nodup ∧ "" ∉ M := by
  have hbody := createGroup_cases env ticks hs (bodyOf name externalId M) hname hfresh
    (memberCreates_bodyOf name externalId M) hM
  have hbare := createGroup_cases env ticks' (M := []) hs (bareBody name externalId) hname hfresh'
    rfl (by simp)
  obtain ⟨_, a', s₂, hserve', husers, hid, hempty⟩ :=
    hbare.resolve_right fun h => h.1 List.nodup_nil
  obtain ⟨a'', s₃, hserve'', hadded⟩ := serve_adds env ticks'' hop hid
    fun u hu => by rw [Store.user, husers]; exact hM u hu
  have hset : ∀ u, u ∈ memberSet s₃ (ticks' 1).uuid ↔ u ∈ M ∧ u ≠ "" := by
    intro u
    simp [hadded u, hempty u]
  rcases hbody with ⟨hnodup, a, s₁, hserve, _, _, hlisted⟩ | ⟨hrepeats, e, herror⟩
  · constructor
    · rintro ⟨b, t₁, b', t₂, b'', t₃, h₁, h₂, h₃, hsame⟩
      cases hserve.symm.trans h₁
      cases hserve'.symm.trans h₂
      cases hserve''.symm.trans h₃
      refine ⟨hnodup, fun hzero => ?_⟩
      have hmem : "" ∈ memberSet s₃ (ticks' 1).uuid := hsame ▸ (hlisted "").mpr hzero
      exact ((hset "").mp hmem).2 rfl
    · rintro ⟨_, hzero⟩
      refine ⟨a, s₁, a', s₂, a'', s₃, hserve, hserve', hserve'', ?_⟩
      ext u
      rw [hlisted u, hset u]
      exact ⟨fun hu => ⟨hu, fun h => hzero (h ▸ hu)⟩, fun hu => hu.1⟩
  · refine iff_of_false ?_ fun h => hrepeats h.1
    rintro ⟨b, t₁, _, _, _, _, h₁, _⟩
    rw [h₁] at herror
    cases herror

theorem putAgrees_iff {remove add : String} (hg : s.group id = some g)
    (hfree : displayNameTaken s id name = false) (hremove : toLowerCase remove = "remove")
    (hadd : toLowerCase add = "add") (hcurrent : ∀ u, u ∈ current ↔ u ∈ s.memberIds id)
    (hM : ∀ u ∈ M, (s.user u).isSome = true) :
    PutAgrees env ticks ticks' ticks'' id name externalId remove add current M s ↔
      M.Nodup ∧ ("" ∈ M ↔ "" ∈ s.memberIds id) := by
  have hid : (s.group id).isSome = true := by rw [hg]; rfl
  have hput := replaceGroup_cases env ticks (bodyOf name externalId M) hg hfree
    (memberCreates_bodyOf name externalId M) hM
  obtain ⟨a', s₂, hserve', husers, hid₂, hremoved⟩ :=
    serve_removes env ticks' hremove hid current
  obtain ⟨a'', s₃, hserve'', hadded⟩ := serve_adds env ticks'' hadd hid₂
    fun u hu => by rw [Store.user, husers]; exact hM u hu
  have hset : ∀ u, u ∈ memberSet s₃ id ↔ (u ∈ s.memberIds id ∧ u = "") ∨ (u ∈ M ∧ u ≠ "") := by
    intro u
    have hold : u ∈ memberSet s id ↔ u ∈ s.memberIds id := Store.mem_memberIds.symm
    rw [hadded u, hremoved u, hcurrent u, hold]
    exact or_congr_left (and_congr_right fun hu => forall_prop_of_true hu)
  rcases hput with ⟨hnodup, a, s₁, hserve, hlisted⟩ | ⟨hrepeats, e, herror⟩
  · constructor
    · rintro ⟨b, t₁, b', t₂, b'', t₃, h₁, h₂, h₃, hsame⟩
      cases hserve.symm.trans h₁
      cases hserve'.symm.trans h₂
      cases hserve''.symm.trans h₃
      refine ⟨hnodup, ?_⟩
      rw [← hlisted "", hsame, hset ""]
      simp
    · rintro ⟨_, hzero⟩
      refine ⟨a, s₁, a', s₂, a'', s₃, hserve, hserve', hserve'', ?_⟩
      ext u
      rw [hlisted u, hset u]
      by_cases hu : u = ""
      · simpa [hu] using hzero
      · simp [hu]
  · refine iff_of_false ?_ fun h => hrepeats h.1
    rintro ⟨b, t₁, _, _, _, _, h₁, _⟩
    rw [h₁] at herror
    cases herror

/-- Members in a body and members added by PATCH give the same group exactly
when the list repeats no id; an empty id is only taken by the body. -/
theorem members_agree_iff {remove add add' name' : String} {externalId' : Nullable String}
    {ticks₁ ticks₂ ticks₃ : ℕ → Tick} (hs : s.Valid)
    (hM : ∀ u ∈ M, (s.user u).isSome = true) (hname : s.groupNamed name = none)
    (hfresh : s.group (ticks 1).uuid = none) (hfresh' : s.group (ticks' 1).uuid = none)
    (hg : s.group id = some g) (hfree : displayNameTaken s id name' = false)
    (hremove : toLowerCase remove = "remove") (hadd : toLowerCase add = "add")
    (hadd' : toLowerCase add' = "add") (hcurrent : ∀ u, u ∈ current ↔ u ∈ s.memberIds id) :
    (PostAgrees env ticks ticks' ticks'' name externalId add M s ↔ M.Nodup ∧ "" ∉ M) ∧
      (PutAgrees env ticks₁ ticks₂ ticks₃ id name' externalId' remove add' current M s ↔
        M.Nodup ∧ ("" ∈ M ↔ "" ∈ s.memberIds id)) :=
  ⟨postAgrees_iff hs hname hfresh hfresh' hadd hM, putAgrees_iff hg hfree hremove hadd' hcurrent hM⟩

/-- The theorem at two members of three, one of whom is a member already. -/
theorem members_agree_iff_sample :
    (PostAgrees sampleEnv sampleTicks sampleTicks sampleTicks "crew" .undefined "Add" ["v", "w"]
        staffedStore ↔ ["v", "w"].Nodup ∧ "" ∉ ["v", "w"]) ∧
      (PutAgrees sampleEnv sampleTicks sampleTicks sampleTicks "g" "staff" .undefined "remove" "add"
          ["u", "v"] ["v", "w"] staffedStore ↔
        ["v", "w"].Nodup ∧ ("" ∈ ["v", "w"] ↔ "" ∈ staffedStore.memberIds "g")) :=
  members_agree_iff staffedStore_valid (by decide) rfl rfl rfl rfl rfl (by decide) (by decide)
    (by decide) fun u => by simp [Store.memberIds, staffedStore]

/-- A repeated id is a conflict in both bodies and none in the PATCH. -/
theorem repeated_member_refused :
    (serve sampleEnv sampleTicks (.createGroup (bodyOf "crew" .undefined ["u", "u"]))
        sampleStore).1 = .error (.prisma .P2002) ∧
      (serve sampleEnv sampleTicks (.replaceGroup "g" (bodyOf "staff" .undefined ["u", "u"]))
        sampleStore).1 = .error (.prisma .P2002) ∧
      (serve sampleEnv sampleTicks (.patchGroup "g" [some (membersOperation "add" ["u", "u"])])
        sampleStore).2 = { sampleStore with members := [⟨"g", "u"⟩] } ∧
      ¬PostAgrees sampleEnv sampleTicks sampleTicks sampleTicks "crew" .undefined "add" ["u", "u"]
        sampleStore := by
  refine ⟨by decide +kernel, by decide +kernel, by decide +kernel, ?_⟩
  rintro ⟨a, s₁, _, _, _, _, hpost, _⟩
  have herror : (serve sampleEnv sampleTicks
      (.createGroup (bodyOf "crew" .undefined ["u", "u"])) sampleStore).1.isOk = false := by
    decide +kernel
  rw [hpost] at herror
  cases herror

end Agreement

end OktaScim.MemberBodies
