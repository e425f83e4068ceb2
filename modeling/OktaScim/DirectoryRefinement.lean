import OktaScim.Directories
import OktaScim.GroupUpdates
import OktaScim.ListPages
import OktaScim.MembershipRefinement
import OktaScim.UserUpdates

/-!
The tables are a directory: every request served over them does what it is as
an operation on the directory that they represent, with the same refusals, and
shows what that operation replies.
-/
namespace OktaScim.DirectoryRefinement

open Programs NamedMaps Schema KeyedRows JsValues PrismaClient PrismaConstraints ScimFilter Bodies
open UserPatch GroupPatch Representations Requests RequestPrograms GroupPatchEffect
open UserUpdates GroupUpdates MembershipRefinement ListPages BatchOutcomes Directories

section Representation

/-- The tables hold the accounts and the teams of the directory. -/
structure Represents (s : Store) (d : Directory) : Prop where
  account : ∀ id, d.accounts.get id = s.user id
  team : ∀ g, d.teams.get g = (s.group g).map fun row => ⟨row, memberSet s g⟩

/-- A row found by a unique column and one found by its id are one row. -/
theorem eq_of_userName {s : Store} (hs : s.Valid) {a b : ScimUser} (ha : a ∈ s.users)
    (hb : b ∈ s.users) (hname : a.userName = b.userName) : a = b :=
  List.inj_on_of_nodup_map hs.userNames ha hb hname

theorem eq_of_displayName {s : Store} (hs : s.Valid) {a b : ScimGroup} (ha : a ∈ s.groups)
    (hb : b ∈ s.groups) (hname : a.displayName = b.displayName) : a = b :=
  List.inj_on_of_nodup_map hs.displayNames ha hb hname

/-- The directory that valid tables represent. -/
def directory (s : Store) (hs : s.Valid) : Directory where
  accounts :=
    { get := s.user
      keyed := fun k a ha => key_of_findRow ha
      named := by
        intro k l a b ha hb hname
        have hab := eq_of_userName hs (mem_of_findRow ha) (mem_of_findRow hb) hname
        rw [← key_of_findRow ha, ← key_of_findRow hb, hab] }
  teams :=
    { get := fun g => (s.group g).map fun row => ⟨row, memberSet s g⟩
      keyed := by
        intro k a ha
        obtain ⟨row, hrow, rfl⟩ := Option.map_eq_some_iff.mp ha
        exact key_of_findRow hrow
      named := by
        intro k l a b ha hb hname
        obtain ⟨row, hrow, rfl⟩ := Option.map_eq_some_iff.mp ha
        obtain ⟨row', hrow', rfl⟩ := Option.map_eq_some_iff.mp hb
        have hab := eq_of_displayName hs (mem_of_findRow hrow) (mem_of_findRow hrow') hname
        rw [← key_of_findRow hrow, ← key_of_findRow hrow', hab] }
  known := by
    intro g team hteam u hu
    obtain ⟨row, hrow, rfl⟩ := Option.map_eq_some_iff.mp hteam
    exact hs.memberUser _ hu

theorem represents_directory (s : Store) (hs : s.Valid) : Represents s (directory s hs) :=
  ⟨fun _ => rfl, fun _ => rfl⟩

/-- Tables represent one directory only. -/
theorem Represents.unique {s : Store} {d d' : Directory} (h : Represents s d)
    (h' : Represents s d') : d = d' := by
  refine Directory.ext (NamedMap.ext (funext fun id => ?_)) (NamedMap.ext (funext fun g => ?_))
  · rw [h.account, h'.account]
  · rw [h.team, h'.team]

variable {s : Store} {d : Directory}

theorem holds_userName_iff (hs : s.Valid) (h : Represents s d) (n : String) :
    d.accounts.Holds n ↔ (s.userNamed n).isSome = true := by
  unfold NamedMap.Holds Store.userNamed
  rw [findRow_isSome_iff]
  constructor
  · rintro ⟨id, u, hu, hn⟩
    rw [h.account] at hu
    exact ⟨u, mem_of_findRow hu, hn⟩
  · rintro ⟨u, hu, hn⟩
    exact ⟨u.id, u, by rw [h.account]; exact hs.user_eq_some_iff.mpr ⟨hu, rfl⟩, hn⟩

theorem holds_displayName_iff (hs : s.Valid) (h : Represents s d) (n : String) :
    d.teams.Holds n ↔ (s.groupNamed n).isSome = true := by
  unfold NamedMap.Holds Store.groupNamed
  rw [findRow_isSome_iff]
  constructor
  · rintro ⟨id, team, hteam, hn⟩
    rw [h.team] at hteam
    obtain ⟨g, hg, rfl⟩ := Option.map_eq_some_iff.mp hteam
    exact ⟨g, mem_of_findRow hg, hn⟩
  · rintro ⟨g, hg, hn⟩
    have hfound : s.group g.id = some g := hs.group_eq_some_iff.mpr ⟨hg, rfl⟩
    exact ⟨g.id, ⟨g, memberSet s g.id⟩, by rw [h.team, hfound]; rfl, hn⟩

theorem holdsBeside_userName_iff (hs : s.Valid) (h : Represents s d) (id n : String) :
    d.accounts.HoldsBeside id n ↔ userNameTaken s id n = true := by
  unfold NamedMap.HoldsBeside userNameTaken
  simp only [List.any_eq_true, decide_eq_true_eq]
  constructor
  · rintro ⟨l, u, hl, hu, hn⟩
    rw [h.account] at hu
    exact ⟨u, mem_of_findRow hu, by rw [key_of_findRow hu]; exact hl, hn⟩
  · rintro ⟨u, hu, hid, hn⟩
    exact ⟨u.id, u, hid, by rw [h.account]; exact hs.user_eq_some_iff.mpr ⟨hu, rfl⟩, hn⟩

theorem holdsBeside_displayName_iff (hs : s.Valid) (h : Represents s d) (id n : String) :
    d.teams.HoldsBeside id n ↔ displayNameTaken s id n = true := by
  unfold NamedMap.HoldsBeside displayNameTaken
  simp only [List.any_eq_true, decide_eq_true_eq]
  constructor
  · rintro ⟨l, team, hl, hteam, hn⟩
    rw [h.team] at hteam
    obtain ⟨g, hg, rfl⟩ := Option.map_eq_some_iff.mp hteam
    exact ⟨g, mem_of_findRow hg, by rw [key_of_findRow hg]; exact hl, hn⟩
  · rintro ⟨g, hg, hid, hn⟩
    have hfound : s.group g.id = some g := hs.group_eq_some_iff.mpr ⟨hg, rfl⟩
    exact ⟨g.id, ⟨g, memberSet s g.id⟩, hid, by rw [h.team, hfound]; rfl, hn⟩

end Representation

section Calls

variable {s : Store} {d : Directory}

theorem Represents.addUser (h : Represents s d) {u : ScimUser} {d' : Directory}
    (hfree : s.user u.id = none) (hteams : d'.teams = d.teams)
    (haccounts : ∀ k, d'.accounts.get k = if k = u.id then some u else d.accounts.get k) :
    Represents { s with users := s.users ++ [u] } d' where
  account id := by
    rw [haccounts]
    simp only [Store.user, findRow_append_singleton]
    by_cases hid : id = u.id
    · have hnone : findRow ScimUser.id u.id s.users = none := hfree
      simp [hid, hnone]
    · rw [if_neg hid, if_neg (Ne.symm hid), Option.or_none]
      exact h.account id
  team g := by
    rw [hteams]
    exact h.team g

theorem Represents.modifyUser (h : Represents s d) {u : ScimUser} {d' : Directory} {id : String}
    (hu : s.user id = some u) (f : ScimUser → ScimUser) (hf : ∀ u, (f u).id = u.id)
    (hteams : d'.teams = d.teams)
    (haccounts : ∀ k, d'.accounts.get k = if k = id then some (f u) else d.accounts.get k) :
    Represents { s with users := modifyRow ScimUser.id id f s.users } d' where
  account k := by
    rw [haccounts, user_modifyRow s id k f hf, h.account]
    by_cases hk : k = id
    · rw [if_pos hk, if_pos hk, hk, hu]
      rfl
    · rw [if_neg hk, if_neg hk]
  team g := by
    rw [hteams]
    exact h.team g

theorem Represents.deleteUser (h : Represents s d) (id : String) :
    Represents { s with
      users := eraseRow ScimUser.id id s.users
      members := eraseRow ScimGroupMember.userId id s.members } (d.dropAccount id) where
  account k := by
    simp only [Directory.dropAccount, NamedMap.get_drop, Store.user, findRow_eraseRow, h.account]
  team g := by
    have hset : memberSet { s with
        users := eraseRow ScimUser.id id s.users
        members := eraseRow ScimGroupMember.userId id s.members } g = memberSet s g \ {id} := by
      ext u
      simp [memberSet, mem_eraseRow]
    rw [hset]
    simp only [Directory.dropAccount, NamedMap.get_map, h.team, Option.map_map]
    rfl

theorem Represents.deleteGroup (h : Represents s d) (id : String) :
    Represents { s with
      groups := eraseRow ScimGroup.id id s.groups
      members := eraseRow ScimGroupMember.groupId id s.members } (d.dropTeam id) where
  account k := h.account k
  team g := by
    simp only [Directory.dropTeam, NamedMap.get_drop, Store.group, findRow_eraseRow]
    by_cases hg : g = id
    · simp [hg]
    · have hset : memberSet { s with
          groups := eraseRow ScimGroup.id id s.groups
          members := eraseRow ScimGroupMember.groupId id s.members } g = memberSet s g := by
        ext u
        simp [memberSet, mem_eraseRow, hg]
      rw [if_neg hg, if_neg hg, hset, h.team]
      rfl

/-- A row of a group is put, and its members are then the listed ones. -/
theorem Represents.putGroup (h : Represents s d) {s' : Store} {row : ScimGroup} {d' : Directory}
    {m : Set String} (husers : s'.users = s.users) (hrow : s'.group row.id = some row)
    (hgroups : ∀ g, g ≠ row.id → s'.group g = s.group g)
    (hmembers : ∀ g, g ≠ row.id → memberSet s' g = memberSet s g) (hown : memberSet s' row.id = m)
    (haccounts : d'.accounts = d.accounts)
    (hteams : ∀ k, d'.teams.get k = if k = row.id then some ⟨row, m⟩ else d.teams.get k) :
    Represents s' d' where
  account id := by
    rw [haccounts, h.account]
    unfold Store.user
    rw [husers]
  team g := by
    rw [hteams]
    by_cases hg : g = row.id
    · rw [if_pos hg, hg, hrow, hown]
      rfl
    · rw [if_neg hg, h.team, hgroups g hg, hmembers g hg]

/-- The rows of a nested create go into the table as its members are enrolled. -/
theorem insertMembers_enroll {accounts : Accounts} {g : String} {userIds : List String}
    (haccounts : ∀ id, accounts.get id = s.user id) (hg : (s.group g).isSome = true)
    {m : accounts.Members} (hm : memberSet s g = m.1) :
    (insertMembers g userIds s).map (fun s' => memberSet s' g) =
      (enroll accounts userIds m).map Subtype.val := by
  induction userIds generalizing s m with
  | nil =>
    simp only [insertMembers, enroll, Except.map, hm]
  | cons u us ih =>
    have hmem : (⟨g, u⟩ : ScimGroupMember) ∈ s.members ↔ u ∈ m.1 := by
      rw [← hm]
      rfl
    by_cases hu : u ∈ m.1
    · have hins : insertMember ⟨g, u⟩ s = .error .P2002 := if_pos (hmem.mpr hu)
      simp only [insertMembers, hins, enroll, if_pos hu, Except.map]
    · have hnew : (⟨g, u⟩ : ScimGroupMember) ∉ s.members := fun hin => hu (hmem.mp hin)
      by_cases hknown : (accounts.get u).isSome = true
      · have hfk : (s.group g).isSome = true ∧ (s.user u).isSome = true :=
          ⟨hg, by rw [← haccounts]; exact hknown⟩
        have hins : insertMember ⟨g, u⟩ s =
            .ok { s with members := s.members ++ [⟨g, u⟩] } := by
          unfold insertMember
          rw [if_neg hnew, if_pos hfk]
        simp only [insertMembers, hins, enroll, if_neg hu, dif_pos hknown]
        refine ih (s := { s with members := s.members ++ [⟨g, u⟩] }) haccounts hg ?_
        ext v
        simp [memberSet, ← hm, or_comm]
      · have hfk : ¬((s.group g).isSome = true ∧ (s.user u).isSome = true) := by
          rintro ⟨-, huser⟩
          rw [← haccounts] at huser
          exact hknown huser
        have hins : insertMember ⟨g, u⟩ s = .error .P2003 := by
          unfold insertMember
          rw [if_neg hnew, if_neg hfk]
        simp only [insertMembers, hins, enroll, if_neg hu, dif_neg hknown, Except.map]

end Calls

section Answers

variable {s : Store} {d : Directory} (env : Env)

/-- The members that a group is shown with are those of its team. -/
theorem mem_memberReps_iff (h : Represents s d) (row : ScimGroup) (m : MemberRep) :
    m ∈ (toScimGroup (withMembers s row) env.baseUrl).members ↔
      m ∈ d.memberReps (memberSet s row.id) := by
  simp only [toScimGroup, withMembers, List.mem_map, List.mem_filterMap, Directory.memberReps,
    Set.mem_ofPred_eq, h.account]
  constructor
  · rintro ⟨p, ⟨member, hmember, hp⟩, rfl⟩
    obtain ⟨hmem, hgroup⟩ := List.mem_filter.mp hmember
    obtain ⟨u, hu, rfl⟩ := Option.map_eq_some_iff.mp hp
    have hid : u.id = member.userId := key_of_findRow hu
    refine ⟨?_, ?_⟩
    · have hkey : member.groupId = row.id := of_decide_eq_true hgroup
      show (⟨row.id, u.id⟩ : ScimGroupMember) ∈ s.members
      rw [← hkey, hid]
      exact hmem
    · show (s.user u.id).map ScimUser.userName = some u.userName
      rw [hid, hu]
      rfl
  · rintro ⟨hmem, hname⟩
    obtain ⟨u, hu, hdisplay⟩ := Option.map_eq_some_iff.mp hname
    refine ⟨(⟨row.id, m.value⟩, u), ⟨⟨row.id, m.value⟩, List.mem_filter.mpr ⟨hmem, ?_⟩, ?_⟩, ?_⟩
    · exact decide_eq_true rfl
    · rw [hu]
      rfl
    · show (⟨u.id, u.userName⟩ : MemberRep) = m
      rw [show u.id = m.value from key_of_findRow hu, hdisplay]

theorem showsTeam_withMembers (hs : s.Valid) (h : Represents s d) (row : ScimGroup) :
    ShowsTeam env row (d.memberReps (memberSet s row.id))
      (toScimGroup (withMembers s row) env.baseUrl) where
  nodup := by
    refine List.Nodup.of_map MemberRep.value ?_
    rw [members_toScimGroup hs]
    exact hs.nodup_memberIds row.id
  listed := mem_memberReps_iff env h row
  rest := rfl

theorem shows_groupAnswer (hs : s.Valid) (h : Represents s d) (status : ℕ) (row : ScimGroup) :
    Shows env (d.teamReply status ⟨row, memberSet s row.id⟩)
      (groupAnswer env status (withMembers s row)) :=
  .team status (showsTeam_withMembers env hs h row)

/-- What a request has come to over tables that represented `d` before it. -/
inductive Performed (env : Env) (s : Store) :
    Except Exception Answer × Store → Except Exception (Reply × Directory) → Prop
  | ok {a : Answer} {s' : Store} {reply : Reply} {d' : Directory} :
    Shows env reply a → Represents s' d' → Performed env s (.ok a, s') (.ok (reply, d'))
  | refused (e : Exception) : Performed env s (.error e, s) (.error e)

end Answers

section Users

variable {s : Store} {d : Directory} {env : Env} (ticks : ℕ → Tick)

theorem createUser_performs (hs : s.Valid) (h : Represents s d) (salt : String)
    (dto : CreateScimUserDto) :
    Performed env s (serve env ticks (.createUser salt dto) s)
      (perform env ticks (.createUser salt dto) d) := by
  unfold serve perform
  rw [handle_createUser]
  simp only [run, exec]
  have hholds := holds_userName_iff hs h dto.userName
  cases hname : s.userNamed dto.userName with
  | some u =>
    rw [if_pos (hholds.mpr (by rw [hname]; rfl))]
    exact .refused _
  | none =>
    have hfree : ¬d.accounts.Holds dto.userName := by
      rw [hholds, hname]
      simp
    rw [if_neg hfree]
    simp only [createUserTail, run, exec, userCreate, newUser_id, h.account, Nat.zero_add]
    have hdata : s.userNamed (UsersService.createData (env.bcrypt.hash salt) dto).userName = none :=
      hname
    cases hid : s.user (ticks 1).uuid with
    | some u =>
      simp only [Option.isSome_some, true_or, if_true]
      exact .refused _
    | none =>
      simp only [hdata, Option.isSome_none, or_self, Bool.false_eq_true, if_false]
      obtain ⟨d', hput, hteams, haccounts⟩ :=
        putAccount_free
          (u := newUser (ticks 1) (UsersService.createData (env.bcrypt.hash salt) dto))
          (fun hb => hfree (by
            obtain ⟨l, u, _, hu, hn⟩ := hb
            exact ⟨l, u, hu, hn⟩))
      rw [hput]
      exact .ok (.account 201 _) (h.addUser hid hteams haccounts)

theorem updateUser_performs (hs : s.Valid) (h : Represents s d) (id : String)
    (data : UserUpdateData) :
    Performed env s
      (run (exec env.engine) ticks
        (.call (.userFindUnique id) (UsersService.whenFound id (updateUserTail env id data))) s)
      (d.updateAccount env.engine (ticks 1).now id data) := by
  unfold Directory.updateAccount
  rw [h.account]
  cases hread : data.read env.engine with
  | none =>
    rw [run_userLookup]
    cases s.user id with
    | none => exact .refused _
    | some u =>
      simp only [Option.isSome_some, if_true, updateUserTail, run, exec, userUpdate, hread, rejects]
      exact .refused _
  | some upd =>
    rw [run_updateUser hread]
    cases hu : s.user id with
    | none => exact .refused _
    | some u =>
      have hid : u.id = id := key_of_findRow hu
      have htaken := holdsBeside_userName_iff hs h id (upd.userName.getD u.userName)
      simp only
      by_cases hfree : userNameTaken s id (upd.userName.getD u.userName) = true
      · rw [if_pos hfree, putAccount_taken (by rw [apply_id, hid]; exact htaken.mpr hfree)]
        exact .refused _
      · rw [if_neg hfree]
        obtain ⟨d', hput, hteams, haccounts⟩ := putAccount_free (u := upd.apply (ticks 1).now u)
          (fun hb => hfree (htaken.mp (by rw [apply_id, hid] at hb; exact hb)))
        rw [hput]
        rw [apply_id, hid] at haccounts
        exact .ok (.account 200 _) (h.modifyUser hu _ (fun _ => rfl) hteams haccounts)

theorem deleteUser_performs (h : Represents s d) (id : String) :
    Performed env s (serve env ticks (.deleteUser id) s)
      (perform env ticks (.deleteUser id) d) := by
  unfold serve perform
  rw [handle_deleteUser, run_userLookup]
  simp only [h.account]
  cases hu : s.user id with
  | none => exact .refused _
  | some u =>
    simp only [Option.isSome_some, if_true, deleteUserTail, run, exec, userDelete, hu, rejects]
    exact .ok .done (h.deleteUser id)

end Users

section Lists

variable {s : Store} {d : Directory} {env : Env} (ticks : ℕ → Tick)

theorem mem_matchingUsers_iff (hs : s.Valid) (h : Represents s d) (asked : Option String)
    (u : ScimUser) : u ∈ matchingUsers asked s ↔
      (∃ id, d.accounts.get id = some u) ∧ Matches asked u.userName := by
  have hrow : (∃ id, d.accounts.get id = some u) ↔ u ∈ s.users := by
    constructor
    · rintro ⟨id, hid⟩
      rw [h.account] at hid
      exact mem_of_findRow hid
    · intro hu
      exact ⟨u.id, by rw [h.account]; exact hs.user_eq_some_iff.mpr ⟨hu, rfl⟩⟩
  rw [hrow]
  cases asked with
  | none => simp [matchingUsers, Matches]
  | some n => simp [matchingUsers, Matches]

theorem mem_matchingGroups_iff (hs : s.Valid) (h : Represents s d) (asked : Option String)
    (p : ScimGroup × Set MemberRep) :
    (∃ row ∈ matchingGroups asked s, p = (row, d.memberReps (memberSet s row.id))) ↔
      ∃ g team, d.teams.get g = some team ∧ Matches asked team.row.displayName ∧
        p = (team.row, d.memberReps team.members) := by
  have hmatch : ∀ row, row ∈ matchingGroups asked s ↔
      row ∈ s.groups ∧ Matches asked row.displayName := by
    intro row
    cases asked with
    | none => simp [matchingGroups, Matches]
    | some n => simp [matchingGroups, Matches]
  constructor
  · rintro ⟨row, hrow, rfl⟩
    obtain ⟨hmem, hname⟩ := (hmatch row).mp hrow
    have hfound : s.group row.id = some row := hs.group_eq_some_iff.mpr ⟨hmem, rfl⟩
    exact ⟨row.id, ⟨row, memberSet s row.id⟩, by rw [h.team, hfound]; rfl, hname, rfl⟩
  · rintro ⟨g, team, hteam, hname, rfl⟩
    rw [h.team] at hteam
    obtain ⟨row, hrow, rfl⟩ := Option.map_eq_some_iff.mp hteam
    refine ⟨row, (hmatch row).mpr ⟨mem_of_findRow hrow, hname⟩, ?_⟩
    rw [key_of_findRow hrow]

theorem nodup_matchingUsers (hs : s.Valid) (asked : Option String) :
    (matchingUsers asked s).Nodup := by
  have hnodup : s.users.Nodup := hs.userIds.of_map _
  cases asked with
  | none => exact hnodup
  | some n => exact hnodup.filter _

theorem nodup_matchingGroups (hs : s.Valid) (asked : Option String) :
    (matchingGroups asked s).Nodup := by
  have hnodup : s.groups.Nodup := hs.groupIds.of_map _
  cases asked with
  | none => exact hnodup
  | some n => exact hnodup.filter _

theorem listUsers_performs (hs : s.Valid) (h : Represents s d) (filter : Option String)
    (pagination : Pagination) :
    Performed env s (serve env ticks (.listUsers filter pagination) s)
      (perform env ticks (.listUsers filter pagination) d) := by
  unfold serve perform
  rw [handle_listUsers]
  simp only [run, exec, userList, window_eq]
  by_cases hpage : Pageable pagination
  · rw [if_pos hpage, if_pos hpage]
    refine .ok ?_ h
    have hperm := queried_perm ScimUser.createdAt ScimUser.id
      (matchingUsers (UsersService.listWhere (parseEqFilter filter) "userName") s) (ticks 0)
    have hrows : Enumerates ScimUser.createdAt
        (queried ScimUser.createdAt ScimUser.id
          (matchingUsers (UsersService.listWhere (parseEqFilter filter) "userName") s) (ticks 0))
        {u | (∃ id, d.accounts.get id = some u) ∧
          Matches (UsersService.listWhere (parseEqFilter filter) "userName") u.userName} :=
      { nodup := hperm.nodup_iff.mpr (nodup_matchingUsers hs _)
        listed := fun u => hperm.mem_iff.trans (mem_matchingUsers_iff hs h _ u)
        sorted := queried_sorted ScimUser.createdAt ScimUser.id _ _ }
    have hshows := @Shows.accounts env _ pagination _ hrows
    rw [hperm.length_eq] at hshows
    exact hshows
  · rw [if_neg hpage, if_neg hpage]
    exact .refused _

theorem listGroups_performs (hs : s.Valid) (h : Represents s d) (filter : Option String)
    (pagination : Pagination) :
    Performed env s (serve env ticks (.listGroups filter pagination) s)
      (perform env ticks (.listGroups filter pagination) d) := by
  unfold serve perform
  rw [handle_listGroups]
  simp only [run, exec, groupList, window_eq]
  by_cases hpage : Pageable pagination
  · rw [if_pos hpage, if_pos hpage]
    refine .ok ?_ h
    have hperm := queried_perm ScimGroup.createdAt ScimGroup.id
      (matchingGroups (UsersService.listWhere (parseEqFilter filter) "displayName") s) (ticks 0)
    have hsorted := queried_sorted ScimGroup.createdAt ScimGroup.id
      (matchingGroups (UsersService.listWhere (parseEqFilter filter) "displayName") s) (ticks 0)
    generalize hq : queried ScimGroup.createdAt ScimGroup.id
      (matchingGroups (UsersService.listWhere (parseEqFilter filter) "displayName") s) (ticks 0) =
        sorted at hperm hsorted
    have hrows : Enumerates (fun p : ScimGroup × Set MemberRep => p.1.createdAt)
        (sorted.map fun row => (row, d.memberReps (memberSet s row.id)))
        {p | ∃ g team, d.teams.get g = some team ∧
          Matches (UsersService.listWhere (parseEqFilter filter) "displayName")
            team.row.displayName ∧ p = (team.row, d.memberReps team.members)} :=
      { nodup := by
          refine List.Nodup.map_on (fun a _ b _ hab => (Prod.mk.inj hab).1) ?_
          exact hperm.nodup_iff.mpr (nodup_matchingGroups hs _)
        listed := by
          intro p
          rw [Set.mem_ofPred_eq, ← mem_matchingGroups_iff hs h, List.mem_map]
          constructor
          · rintro ⟨row, hrow, rfl⟩
            exact ⟨row, hperm.mem_iff.mp hrow, rfl⟩
          · rintro ⟨row, hrow, rfl⟩
            exact ⟨row, hperm.mem_iff.mpr hrow, rfl⟩
        sorted := by
          unfold TiedSorts.SortedBy at hsorted ⊢
          rw [List.pairwise_map]
          exact hsorted }
    have hreps : List.Forall₂ (fun p rep => ShowsTeam env p.1 p.2 rep)
        (pageOf pagination (sorted.map fun row => (row, d.memberReps (memberSet s row.id))))
        ((pageOf pagination sorted).map fun row =>
          toScimGroup (withMembers s row) env.baseUrl) := by
      unfold pageOf
      rw [← List.map_drop, ← List.map_take, List.forall₂_map_left_iff, List.forall₂_map_right_iff,
        List.forall₂_same]
      exact fun row _ => showsTeam_withMembers env hs h row
    have hshows := @Shows.teams env _ pagination _ _ hrows hreps
    rw [List.length_map, hperm.length_eq] at hshows
    rw [← hq] at hshows
    simp only [List.length_map, List.map_map]
    simp only [List.length_map] at hshows
    exact hshows
  · rw [if_neg hpage, if_neg hpage]
    exact .refused _

end Lists

section Groups

variable {s : Store} {d : Directory} {env : Env} (ticks : ℕ → Tick)

theorem readGroup_performs (hs : s.Valid) (h : Represents s d) (id : String) :
    Performed env s (run (exec env.engine) ticks (readGroup env id) s)
      (match d.teams.get id with
      | none => .error (notFoundGroup id)
      | some team => .ok (d.teamReply 200 team, d)) := by
  rw [run_readGroup, h.team]
  cases hg : s.group id with
  | none => exact .refused _
  | some g =>
    have hid : g.id = id := key_of_findRow hg
    subst hid
    exact .ok (shows_groupAnswer env hs h 200 g) h

theorem not_holdsBeside_of_not_holds {n id : String} (h : ¬d.teams.Holds n) :
    ¬d.teams.HoldsBeside id n := by
  rintro ⟨l, team, _, hteam, hn⟩
  exact h ⟨l, team, hteam, hn⟩

/-- The tables in which the row of a group has been put and its members have
been taken away, if it had any. -/
structure Emptied (s mid : Store) (row : ScimGroup) : Prop where
  users : mid.users = s.users
  found : mid.group row.id = some row
  groups : ∀ g, g ≠ row.id → mid.group g = s.group g
  members : ∀ g, g ≠ row.id → memberSet mid g = memberSet s g
  none : memberSet mid row.id = ∅

/-- The members of a body go into an emptied group as they are enrolled. -/
theorem writeTeam_enroll (h : Represents s d) {mid : Store} {row : ScimGroup}
    (hmid : Emptied s mid row) (hbeside : ¬d.teams.HoldsBeside row.id row.displayName)
    (status : ℕ) (userIds : List String) :
    (∃ e, insertMembers row.id userIds mid = .error e ∧
        d.writeTeam status row (enroll d.accounts userIds (noMembers d.accounts)) =
          .error (.prisma e)) ∨
      ∃ s' d', insertMembers row.id userIds mid = .ok s' ∧ s'.group row.id = some row ∧
        Represents s' d' ∧
        d.writeTeam status row (enroll d.accounts userIds (noMembers d.accounts)) =
          .ok (d'.teamReply status ⟨row, memberSet s' row.id⟩, d') := by
  have haccounts : ∀ id, d.accounts.get id = mid.user id := by
    intro id
    rw [h.account]
    unfold Store.user
    rw [hmid.users]
  have hfound : (mid.group row.id).isSome = true := by
    rw [hmid.found]
    rfl
  have hinsert := @insertMembers_enroll mid d.accounts row.id userIds haccounts hfound
    (noMembers d.accounts) hmid.none
  unfold Directory.writeTeam
  cases hins : insertMembers row.id userIds mid with
  | error e =>
    cases henroll : enroll d.accounts userIds (noMembers d.accounts) with
    | ok m =>
      rw [hins, henroll] at hinsert
      contradiction
    | error e' =>
      rw [hins, henroll] at hinsert
      refine Or.inl ⟨e, rfl, ?_⟩
      rw [putTeam_refused hbeside rfl, Except.error.inj hinsert]
      rfl
  | ok s' =>
    cases henroll : enroll d.accounts userIds (noMembers d.accounts) with
    | error e' =>
      rw [hins, henroll] at hinsert
      contradiction
    | ok m =>
      rw [hins, henroll] at hinsert
      have hown : memberSet s' row.id = m.1 := Except.ok.inj hinsert
      obtain ⟨d', hput, haccounts', hteams⟩ := putTeam_free hbeside (m := m) rfl
      obtain ⟨_, _, hs'⟩ := insertMembers_ok hins
      have hrow : s'.group row.id = some row := by
        rw [hs']
        exact hmid.found
      have hrep : Represents s' d' := by
        refine h.putGroup (by rw [hs']; exact hmid.users) hrow ?_ ?_ hown haccounts' hteams
        · intro g hg
          rw [hs']
          exact hmid.groups g hg
        · intro g hg
          rw [← hmid.members g hg, hs']
          ext u
          simp [memberSet, Ne.symm hg]
      refine Or.inr ⟨s', d', rfl, hrow, hrep, ?_⟩
      rw [hput, hown]
      rfl

theorem emptied_new (hs : s.Valid) {row : ScimGroup} (hnone : s.group row.id = none) :
    Emptied s { s with groups := s.groups ++ [row] } row where
  users := rfl
  found := by
    have hfree : findRow ScimGroup.id row.id s.groups = none := hnone
    simp [Store.group, findRow_append_singleton, hfree]
  groups g hg := by
    simp only [Store.group, findRow_append_singleton]
    rw [if_neg (Ne.symm hg), Option.or_none]
  members g _ := rfl
  none := by
    refine Set.eq_empty_iff_forall_notMem.mpr fun u hu => ?_
    have hsome := hs.memberGroup _ hu
    rw [hnone] at hsome
    contradiction

theorem createGroup_performs (hs : s.Valid) (h : Represents s d) (dto : CreateScimGroupDto) :
    Performed env s (serve env ticks (.createGroup dto) s)
      (perform env ticks (.createGroup dto) d) := by
  unfold serve perform
  rw [handle_createGroup]
  simp only [run, exec]
  have hholds := holds_displayName_iff hs h dto.displayName
  cases hname : s.groupNamed dto.displayName with
  | some g =>
    rw [if_pos (hholds.mpr (by rw [hname]; rfl))]
    exact .refused _
  | none =>
    have hfree : ¬d.teams.Holds dto.displayName := by
      rw [hholds, hname]
      simp
    rw [if_neg hfree]
    unfold createGroupTail
    cases hcreates : GroupsService.memberCreates dto.members with
    | none => exact .refused _
    | some creates =>
      simp only [run, exec, groupCreate]
      cases hread : readMembers creates with
      | none => exact .refused _
      | some userIds =>
        simp only [newGroup_id, h.team, Option.isSome_map, hname, Option.isSome_none, or_false,
          Bool.false_eq_true]
        by_cases hid : (s.group (ticks 1).uuid).isSome = true
        · rw [if_pos hid, if_pos hid]
          exact .refused _
        · rw [if_neg hid, if_neg hid]
          have hnone : s.group (ticks 1).uuid = none := Option.not_isSome_iff_eq_none.mp hid
          generalize hrow : newGroup (ticks 1) ⟨dto.displayName, dto.externalId, creates⟩ = row
          have hrowid : row.id = (ticks 1).uuid := by rw [← hrow]; rfl
          have hrowname : row.displayName = dto.displayName := by rw [← hrow]; rfl
          have hadded : Store.Valid { s with groups := s.groups ++ [row] } :=
            addGroup_valid hs (by rw [hrowid]; exact hnone) (by rw [hrowname]; exact hname)
          have hbeside : ¬d.teams.HoldsBeside row.id row.displayName := by
            rw [hrowname]
            exact not_holdsBeside_of_not_holds hfree
          have hemptied := @emptied_new s hs row (by rw [hrowid]; exact hnone)
          rw [← hrowid]
          rcases writeTeam_enroll h hemptied hbeside 201 userIds with
            ⟨e, hins, hwrite⟩ | ⟨s', d', hins, _, hrep, hwrite⟩
          · rw [hins, hwrite]
            exact .refused _
          · rw [hins, hwrite]
            exact .ok (shows_groupAnswer env (insertMembers_valid hadded hins) hrep 201 row) hrep

theorem emptied_replaced {id : String} {g : ScimGroup} (hg : s.group id = some g) (now : ℕ)
    (name : Option String) (externalId : Nullable String) :
    Emptied s { s with
      groups := modifyRow ScimGroup.id id (updateGroup now name externalId) s.groups
      members := eraseRow ScimGroupMember.groupId id s.members }
      (updateGroup now name externalId g) := by
  have hid : g.id = id := key_of_findRow hg
  have hgroup := fun k =>
    group_modifyRow s id k (updateGroup now name externalId) (fun _ => rfl)
  refine ⟨rfl, ?_, fun k hk => ?_, fun k hk => ?_, ?_⟩
  · rw [updateGroup_id, hid]
    refine (hgroup id).trans ?_
    rw [if_pos rfl, hg]
    rfl
  · rw [updateGroup_id, hid] at hk
    exact (hgroup k).trans (if_neg hk)
  · rw [updateGroup_id, hid] at hk
    ext u
    simp [memberSet, mem_eraseRow, hk]
  · rw [updateGroup_id, hid]
    ext u
    simp [memberSet, mem_eraseRow]

theorem replaceGroup_performs (hs : s.Valid) (h : Represents s d) (id : String)
    (dto : UpdateScimGroupDto) :
    Performed env s (serve env ticks (.replaceGroup id dto) s)
      (perform env ticks (.replaceGroup id dto) d) := by
  unfold serve perform
  rw [handle_replaceGroup, run_groupLookup]
  simp only [h.team]
  cases hg : s.group id with
  | none => exact .refused _
  | some g =>
    have hid : g.id = id := key_of_findRow hg
    simp only [Option.isSome_some, if_true, Option.map_some]
    unfold replaceGroupTail
    cases hcreates : GroupsService.memberCreates dto.members with
    | none => exact .refused _
    | some creates =>
      simp only [run_writeGroup]
      cases hread : readMembers creates with
      | none =>
        have hunread : transaction env.engine (ticks 1)
            (GroupsService.replaceOperations id dto creates) s = .error .validation := by
          simp [transaction, GroupsService.replaceOperations, BatchOp.read, readFilter, hread]
        rw [Nat.zero_add, hunread]
        exact .refused _
      | some userIds =>
        rw [transaction_replaceOperations env.engine _ id dto hread]
        have herased : Store.group { s with
            members := eraseRow ScimGroupMember.groupId id s.members } id = some g := hg
        have htaken := holdsBeside_displayName_iff hs h id dto.displayName
        simp only [Write.exec, herased, Option.getD_some, Nat.zero_add]
        by_cases hname : displayNameTaken s id dto.displayName = true
        · have hname' : displayNameTaken
              { s with members := eraseRow ScimGroupMember.groupId id s.members } id
                dto.displayName = true := hname
          unfold Directory.writeTeam
          rw [if_pos hname', putTeam_taken (by rw [updateGroup_id, hid]; exact htaken.mpr hname)]
          exact .refused _
        · have hname' : ¬displayNameTaken
              { s with members := eraseRow ScimGroupMember.groupId id s.members } id
                dto.displayName = true := hname
          rw [if_neg hname']
          generalize hrow : updateGroup (ticks 1).now (some dto.displayName) dto.externalId g = row
          have hrowid : row.id = id := by rw [← hrow]; exact hid
          have hrowname : row.displayName = dto.displayName := by rw [← hrow]; rfl
          have hbeside : ¬d.teams.HoldsBeside row.id row.displayName := by
            rw [hrowid, hrowname, htaken]
            exact hname
          have hemptied := emptied_replaced hg (ticks 1).now (some dto.displayName) dto.externalId
          rw [hrow] at hemptied
          rw [← hrowid] at hemptied ⊢
          rcases writeTeam_enroll h hemptied hbeside 200 userIds with
            ⟨e, hins, hwrite⟩ | ⟨s', d', hins, hrow', hrep, hwrite⟩
          · rw [hins, hwrite]
            exact .refused _
          · rw [hins, hwrite]
            simp only [Except.map, run_readGroup, hrow']
            have hvalid : s'.Valid := by
              have herasedValid := write_valid (.memberDeleteMany (some id) fun _ => true) hs
                (memberDeleteMany_exec (ticks 1) id s)
              refine write_valid (t := ticks 1)
                (.groupUpdate id (some dto.displayName) dto.externalId userIds) herasedValid ?_
              simp only [Write.exec, herased, Option.getD_some, if_neg hname']
              rw [← hrowid]
              exact hins
            exact .ok (shows_groupAnswer env hvalid hrep 200 row) hrep

theorem run_patchGroupTail (id : String) (r : GroupPatchResult) (s : Store) :
    run (exec env.engine) ticks (patchGroupTail env id r) s =
      match transaction env.engine (ticks 0) (GroupsService.patchOperations id r) s with
      | .ok (_, s') => run (exec env.engine) (fun n => ticks (n + 1)) (readGroup env id) s'
      | .error e => (.error (.prisma e), s) := by
  unfold patchGroupTail
  cases hops : GroupsService.patchOperations id r with
  | nil =>
    have hempty : transaction env.engine (ticks 0) [] s = .ok ((), s) := rfl
    simp only [hempty, run_readGroup]
  | cons op ops => exact run_writeGroup env ticks id (op :: ops) s

/-- The row and the members of a group after its PATCH. -/
theorem patched_group {E : Engine} {now : ℕ} {id : String} {r : GroupPatchResult} {s' : Store}
    (h : Patched E now id r s s') {g : ScimGroup} (hg : s.group id = some g) :
    s'.group id = some (editedRow now r g) ∧ (∀ k, k ≠ id → s'.group k = s.group k) ∧
      memberSet s' id = editedMembers E r (memberSet s id) ∧
      ∀ k, k ≠ id → memberSet s' k = memberSet s k := by
  refine ⟨?_, fun k hk => ?_, ?_, fun k hk => ?_⟩
  · unfold Store.group editedRow
    rw [h.groups]
    split
    · rw [findRow_modifyRow id id (updateGroup now _ _) (fun _ => rfl), if_pos rfl]
      exact congrArg (Option.map _) hg
    · exact hg
  · unfold Store.group
    rw [h.groups]
    split
    · rw [findRow_modifyRow id k (updateGroup now _ _) (fun _ => rfl), if_neg hk]
    · rfl
  · ext u
    simp [memberSet, editedMembers, h.members]
  · ext u
    simp [memberSet, h.members, hk]

/-- The name of the edited row is another team's exactly where the batch finds so. -/
theorem holdsBeside_editedRow_iff (hs : s.Valid) (h : Represents s d) {id : String}
    {g : ScimGroup} (hg : s.group id = some g) (now : ℕ) (r : GroupPatchResult) :
    d.teams.HoldsBeside id (editedRow now r g).displayName ↔ NameTaken s id g r := by
  rw [holdsBeside_displayName_iff hs h]
  unfold NameTaken editedRow
  by_cases hset : r.displayName.isSome ∨ r.externalId.isSome
  · rw [if_pos hset]
    exact ⟨fun htaken => ⟨hset, htaken⟩, fun htaken => htaken.2⟩
  · rw [if_neg hset]
    have hfree := displayName_free hs (mem_of_findRow hg)
    rw [key_of_findRow hg] at hfree
    simp [hfree, hset]

theorem known_editedMembers_iff (hs : s.Valid) (h : Represents s d) (E : Engine) (id : String)
    (r : GroupPatchResult) :
    d.accounts.Known (editedMembers E r (memberSet s id)) ↔
      ∀ u, .str u ∈ r.addMemberIds → (s.user u).isSome = true := by
  unfold Accounts.Known
  simp only [h.account]
  constructor
  · exact fun hall u hu => hall u (Or.inr hu)
  · rintro hall u (⟨hmem, _⟩ | hadd)
    · exact hs.memberUser _ hmem
    · exact hall u hadd

theorem editedRow_id (now : ℕ) (r : GroupPatchResult) (row : ScimGroup) :
    (editedRow now r row).id = row.id := by
  unfold editedRow
  split <;> rfl

theorem patchGroup_performs (hs : s.Valid) (h : Represents s d) (id : String)
    (operations : List (Option PatchOperation)) :
    Performed env s (serve env ticks (.patchGroup id operations) s)
      (perform env ticks (.patchGroup id operations) d) := by
  unfold serve
  cases hr : applyGroupPatch operations with
  | none =>
    rw [handle_patchGroup_none env hr]
    simp only [perform, hr]
    exact .refused _
  | some r =>
    rw [handle_patchGroup_some env hr, run_groupLookup]
    simp only [perform, hr, Directory.patchTeam, h.team]
    cases hg : s.group id with
    | none => exact .refused _
    | some g =>
      have hid : (editedRow (ticks 1).now r g).id = id :=
        (editedRow_id _ r g).trans (key_of_findRow hg)
      have hname := holdsBeside_editedRow_iff hs h hg (ticks 1).now r
      have hknown := known_editedMembers_iff hs h env.engine id r
      simp only [Option.isSome_some, if_true, Option.map_some, run_patchGroupTail, Nat.zero_add]
      unfold Directory.writeTeam
      rcases transaction_patchOperations (E := env.engine) (t := ticks 1) hs hg r with
        ⟨hread, htr⟩ | ⟨hread, htaken, htr⟩ | ⟨hread, hfree, hmissing, htr⟩ |
          ⟨hread, hfree, hall, s', htr⟩
      · rw [htr, if_neg hread]
        exact .refused _
      · rw [htr, if_pos hread, putTeam_taken (by rw [hid]; exact hname.mpr htaken)]
        exact .refused _
      · have hunknown : ¬d.accounts.Known (editedMembers env.engine r (memberSet s id)) := by
          rw [hknown]
          obtain ⟨u, hu, hnone⟩ := hmissing
          intro hall
          have hsome := hall u hu
          rw [hnone] at hsome
          contradiction
        rw [htr, if_pos hread, putTeam_refused (by rw [hid, hname]; exact hfree)
          (enlist_unknown hunknown)]
        exact .refused _
      · have hpatched := transaction_patchOperations_ok htr
        obtain ⟨hrow, hgroups, hown, hothers⟩ := patched_group hpatched hg
        have hbeside : ¬d.teams.HoldsBeside (editedRow (ticks 1).now r g).id
            (editedRow (ticks 1).now r g).displayName := by
          rw [hid, hname]
          exact hfree
        obtain ⟨d', hput, haccounts, hteams⟩ :=
          putTeam_free hbeside (enlist_known (hknown.mpr hall))
        have hrep : Represents s' d' := by
          refine h.putGroup hpatched.users ?_ ?_ ?_ ?_ haccounts hteams
          · rw [hid]
            exact hrow
          · rw [hid]
            exact hgroups
          · rw [hid]
            exact hothers
          · rw [hid]
            exact hown
        have hvalid : s'.Valid := transaction_valid hs htr
        have hshows := shows_groupAnswer env hvalid hrep 200 (editedRow (ticks 1).now r g)
        rw [hid, hown] at hshows
        rw [htr, if_pos hread, hput]
        simp only [run_readGroup, hrow]
        exact .ok hshows hrep

theorem deleteGroup_performs (h : Represents s d) (id : String) :
    Performed env s (serve env ticks (.deleteGroup id) s)
      (perform env ticks (.deleteGroup id) d) := by
  unfold serve perform
  rw [handle_deleteGroup, run_groupLookup]
  simp only [h.team]
  cases hg : s.group id with
  | none => exact .refused _
  | some g =>
    simp only [Option.isSome_some, if_true, deleteGroupTail, run, exec, groupDelete, hg, rejects]
    exact .ok .done (h.deleteGroup id)

end Groups

section Requests

variable {s : Store} {d : Directory} {env : Env}

/-- One step: a request over the tables is the operation on the directory. -/
theorem serve_performs (hs : s.Valid) (h : Represents s d) (ticks : ℕ → Tick) (r : Request) :
    Performed env s (serve env ticks r s) (perform env ticks r d) := by
  cases r with
  | listUsers filter pagination => exact listUsers_performs ticks hs h filter pagination
  | getUser id =>
    unfold serve perform
    rw [handle_getUser]
    simp only [run, exec, h.account]
    cases s.user id with
    | none => exact .refused _
    | some u => exact .ok (.account 200 u) h
  | createUser salt dto => exact createUser_performs ticks hs h salt dto
  | replaceUser salt id dto =>
    unfold serve
    rw [handle_replaceUser]
    exact updateUser_performs ticks hs h id _
  | patchUser id operations =>
    unfold serve
    cases hfields : applyUserPatch operations with
    | none =>
      rw [handle_patchUser_none env hfields]
      simp only [perform, hfields]
      exact .refused _
    | some fields =>
      rw [handle_patchUser_some env hfields]
      simp only [perform, hfields]
      exact updateUser_performs ticks hs h id _
  | deleteUser id => exact deleteUser_performs ticks h id
  | listGroups filter pagination => exact listGroups_performs ticks hs h filter pagination
  | getGroup id =>
    unfold serve
    rw [handle_getGroup]
    exact readGroup_performs ticks hs h id
  | createGroup dto => exact createGroup_performs ticks hs h dto
  | replaceGroup id dto => exact replaceGroup_performs ticks hs h id dto
  | patchGroup id operations => exact patchGroup_performs ticks hs h id operations
  | deleteGroup id => exact deleteGroup_performs ticks h id
  | clearData => exact .ok .done ⟨fun _ => rfl, fun _ => rfl⟩

end Requests

end OktaScim.DirectoryRefinement
