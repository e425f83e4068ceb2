import OktaScim.PrismaClient

/-!
What a call that succeeds has found and done, one lemma for each call, and the
preservation of the schema's constraints that follows from it.
-/
namespace OktaScim.PrismaConstraints

open Schema KeyedRows JsValues Programs PrismaClient

section Inversion

theorem userCreate_ok {t : Tick} {data : UserCreateData} {s s' : Store} {u : ScimUser}
    (h : userCreate t data s = .ok (u, s')) :
    s.user t.uuid = none ∧ s.userNamed data.userName = none ∧ u = newUser t data ∧
      s' = { s with users := s.users ++ [newUser t data] } := by
  unfold userCreate at h
  split at h
  · contradiction
  · rename_i hfree
    simp only [not_or, Option.not_isSome_iff_eq_none] at hfree
    cases h
    exact ⟨hfree.1, hfree.2, rfl, rfl⟩

theorem userUpdate_ok {E : Engine} {t : Tick} {id : String} {data : UserUpdateData}
    {s s' : Store} {u : ScimUser} (h : userUpdate E t id data s = .ok (u, s')) :
    ∃ upd old, data.read E = some upd ∧ s.user id = some old ∧
      userNameTaken s id (upd.apply t.now old).userName = false ∧ u = upd.apply t.now old ∧
      s' = { s with users := modifyRow ScimUser.id id (upd.apply t.now) s.users } := by
  unfold userUpdate at h
  cases hread : data.read E with
  | none => simp [hread] at h
  | some upd =>
    cases huser : s.user id with
    | none => simp [hread, huser] at h
    | some old =>
      simp only [hread, huser] at h
      split at h
      · contradiction
      · rename_i htaken
        cases h
        exact ⟨upd, old, rfl, rfl, by simpa using htaken, rfl, rfl⟩

theorem userDelete_ok {id : String} {s s' : Store} {r : Unit}
    (h : userDelete id s = .ok (r, s')) :
    (s.user id).isSome = true ∧ s' = { s with
      users := eraseRow ScimUser.id id s.users
      members := eraseRow ScimGroupMember.userId id s.members } := by
  unfold userDelete at h
  cases huser : s.user id with
  | none => simp [huser] at h
  | some u =>
    simp only [huser] at h
    cases h
    exact ⟨rfl, rfl⟩

theorem groupDelete_ok {id : String} {s s' : Store} {r : Unit}
    (h : groupDelete id s = .ok (r, s')) :
    (s.group id).isSome = true ∧ s' = { s with
      groups := eraseRow ScimGroup.id id s.groups
      members := eraseRow ScimGroupMember.groupId id s.members } := by
  unfold groupDelete at h
  cases hgroup : s.group id with
  | none => simp [hgroup] at h
  | some g =>
    simp only [hgroup] at h
    cases h
    exact ⟨rfl, rfl⟩

theorem userList_ok {t : Tick} {n : Option String} {skip take : ℚ} {s s' : Store}
    {r : ℕ × List ScimUser} (h : userList t n skip take s = .ok (r, s')) :
    s' = s ∧ r.1 = (matchingUsers n s).length := by
  simp only [userList] at h
  split at h
  · cases h
    exact ⟨rfl, rfl⟩
  · contradiction

theorem groupList_ok {t : Tick} {n : Option String} {skip take : ℚ} {s s' : Store}
    {r : ℕ × List GroupWithMembers} (h : groupList t n skip take s = .ok (r, s')) :
    s' = s ∧ r.1 = (matchingGroups n s).length := by
  simp only [groupList] at h
  split at h
  · cases h
    exact ⟨rfl, rfl⟩
  · contradiction

/-- Memberships that are new stay new behind one of another user. -/
theorem new_behind_member {groupId u : String} {us : List String} {s : Store} (hu : u ∉ us)
    (hnew : ∀ v ∈ u :: us, (⟨groupId, v⟩ : ScimGroupMember) ∉ s.members) :
    ∀ v ∈ us, (⟨groupId, v⟩ : ScimGroupMember) ∉ s.members ++ [⟨groupId, u⟩] := by
  intro v hv hmem
  rcases List.mem_append.mp hmem with hold | hlast
  · exact hnew v (List.mem_cons_of_mem _ hv) hold
  · simp only [List.mem_singleton, ScimGroupMember.mk.injEq, true_and] at hlast
    exact hu (hlast ▸ hv)

theorem insertMember_ok {m : ScimGroupMember} {s s' : Store}
    (h : insertMember m s = .ok s') :
    m ∉ s.members ∧ (s.group m.groupId).isSome = true ∧ (s.user m.userId).isSome = true ∧
      s' = { s with members := s.members ++ [m] } := by
  unfold insertMember at h
  split at h
  · contradiction
  · rename_i hnew
    split at h
    · rename_i hfk
      cases h
      exact ⟨hnew, hfk.1, hfk.2, rfl⟩
    · contradiction

/-- A nested create adds exactly the rows listed, all of which were new. -/
theorem insertMembers_ok {groupId : String} {userIds : List String} {s s' : Store}
    (h : insertMembers groupId userIds s = .ok s') :
    userIds.Nodup ∧ (∀ u ∈ userIds, ⟨groupId, u⟩ ∉ s.members ∧ (s.user u).isSome = true) ∧
      s' = { s with members := s.members ++ userIds.map (ScimGroupMember.mk groupId) } := by
  induction userIds generalizing s with
  | nil =>
    cases h
    exact ⟨List.nodup_nil, by simp, by simp⟩
  | cons u us ih =>
    simp only [insertMembers] at h
    split at h
    · rename_i mid hmid
      obtain ⟨hnew, _, huser, rfl⟩ := insertMember_ok hmid
      obtain ⟨hnodup, hall, rfl⟩ := ih h
      refine ⟨List.nodup_cons.mpr ⟨fun hmem => ?_, hnodup⟩, ?_, by simp⟩
      · exact (hall u hmem).1 (by simp)
      · intro v hv
        rcases List.mem_cons.mp hv with rfl | hv
        · exact ⟨hnew, huser⟩
        · obtain ⟨hout, hsome⟩ := hall v hv
          exact ⟨fun hmem => hout (by simp [hmem]), hsome⟩
    · contradiction

theorem groupCreate_ok {t : Tick} {data : GroupCreateData} {s s' : Store}
    {g : GroupWithMembers} (h : groupCreate t data s = .ok (g, s')) :
    ∃ userIds, readMembers data.members = some userIds ∧ s.group t.uuid = none ∧
      s.groupNamed data.displayName = none ∧
      insertMembers t.uuid userIds { s with groups := s.groups ++ [newGroup t data] } = .ok s' ∧
      g = withMembers s' (newGroup t data) := by
  unfold groupCreate at h
  cases hread : readMembers data.members with
  | none => simp [hread] at h
  | some userIds =>
    simp only [hread] at h
    split at h
    · contradiction
    · rename_i hfree
      simp only [not_or, Option.not_isSome_iff_eq_none] at hfree
      split at h
      · rename_i mid hins
        cases h
        exact ⟨userIds, rfl, hfree.1, hfree.2, hins, rfl⟩
      · contradiction

theorem upsert_ok {t : Tick} {groupId userId : String} {s s' : Store}
    (h : (Write.memberUpsert groupId userId).exec t s = .ok s') :
    (⟨groupId, userId⟩ ∈ s.members ∧ s' = s) ∨ insertMember ⟨groupId, userId⟩ s = .ok s' := by
  simp only [Write.exec] at h
  split at h
  · rename_i hmem
    cases h
    exact Or.inl ⟨hmem, rfl⟩
  · exact Or.inr h

theorem groupUpdate_ok {t : Tick} {id : String} {displayName : Option String}
    {externalId : Nullable String} {userIds : List String} {s s' : Store}
    (h : (Write.groupUpdate id displayName externalId userIds).exec t s = .ok s') :
    ∃ g, s.group id = some g ∧
      displayNameTaken s id (displayName.getD g.displayName) = false ∧
      insertMembers id userIds { s with
        groups := modifyRow ScimGroup.id id (updateGroup t.now displayName externalId) s.groups }
        = .ok s' := by
  simp only [Write.exec] at h
  cases hgroup : s.group id with
  | none => simp [hgroup] at h
  | some g =>
    simp only [hgroup] at h
    split at h
    · contradiction
    · rename_i htaken
      exact ⟨g, rfl, by simpa using htaken, h⟩

theorem execWrites_cons_ok {t : Tick} {w : Write} {ws : List Write} {s s' : Store}
    (h : execWrites t (w :: ws) s = .ok s') :
    ∃ mid, w.exec t s = .ok mid ∧ execWrites t ws mid = .ok s' := by
  simp only [execWrites] at h
  split at h
  · rename_i mid hmid
    exact ⟨mid, hmid, h⟩
  · contradiction

/-- What every write of a batch keeps, the batch keeps. -/
theorem execWrites_keeps {I : Store → Prop} {t : Tick} (ws : List Write)
    (hkeep : ∀ w ∈ ws, ∀ s s', I s → w.exec t s = .ok s' → I s') (s s' : Store)
    (hs : I s) (h : execWrites t ws s = .ok s') : I s' := by
  induction ws generalizing s with
  | nil =>
    cases h
    exact hs
  | cons w ws ih =>
    obtain ⟨mid, hmid, hrest⟩ := execWrites_cons_ok h
    exact ih (fun v hv => hkeep v (List.mem_cons_of_mem w hv)) mid
      (hkeep w (List.mem_cons_self ..) s mid hs hmid) hrest

/-- A batch that Prisma reads runs its writes. -/
theorem transaction_of_read {E : Engine} {ops : List BatchOp} {ws : List Write}
    (hread : ops.mapM (BatchOp.read E) = some ws) (t : Tick) (s : Store) :
    transaction E t ops s = (execWrites t ws s).map fun s' => ((), s') := by
  simp only [transaction, hread]
  cases execWrites t ws s <;> rfl

theorem transaction_ok {E : Engine} {t : Tick} {ops : List BatchOp} {s s' : Store} {r : Unit}
    (h : transaction E t ops s = .ok (r, s')) :
    ∃ ws, ops.mapM (BatchOp.read E) = some ws ∧ execWrites t ws s = .ok s' := by
  unfold transaction at h
  cases hread : ops.mapM (BatchOp.read E) with
  | none => simp [hread] at h
  | some ws =>
    simp only [hread] at h
    split at h
    · rename_i mid hmid
      cases h
      exact ⟨ws, rfl, hmid⟩
    · contradiction

/-- A batch deletes no group. -/
theorem transaction_group {E : Engine} {t : Tick} {ops : List BatchOp} {s s' : Store} {r : Unit}
    (h : transaction E t ops s = .ok (r, s')) (id : String) (hid : (s.group id).isSome = true) :
    (s'.group id).isSome = true := by
  obtain ⟨ws, _, hrun⟩ := transaction_ok h
  refine execWrites_keeps (I := fun s => (s.group id).isSome = true) ws ?_ s s' hid hrun
  intro w _ mid mid' hmid hw
  cases w with
  | memberDeleteMany groupId p =>
    cases hw
    exact hmid
  | memberUpsert groupId userId =>
    rcases upsert_ok hw with ⟨_, rfl⟩ | hins
    · exact hmid
    · obtain ⟨_, _, _, rfl⟩ := insertMember_ok hins
      exact hmid
  | groupUpdate id' displayName externalId userIds =>
    obtain ⟨g, _, _, hins⟩ := groupUpdate_ok hw
    obtain ⟨_, _, rfl⟩ := insertMembers_ok hins
    unfold Store.group
    rw [findRow_modifyRow id' id (updateGroup t.now displayName externalId) (fun _ => rfl)]
    split
    · rw [Option.isSome_map]
      exact hmid
    · exact hmid

end Inversion

section Constraints

theorem userName_free {s : Store} (hs : s.Valid) {u : ScimUser} (hu : u ∈ s.users) :
    userNameTaken s u.id u.userName = false :=
  any_other_eq_false ScimUser.userName hs.userNames hu

theorem displayName_free {s : Store} (hs : s.Valid) {g : ScimGroup} (hg : g ∈ s.groups) :
    displayNameTaken s g.id g.displayName = false :=
  any_other_eq_false ScimGroup.displayName hs.displayNames hg

theorem userCreate_valid {t : Tick} {data : UserCreateData} {s s' : Store} {u : ScimUser}
    (hs : s.Valid) (h : userCreate t data s = .ok (u, s')) : s'.Valid := by
  obtain ⟨hid, hname, _, rfl⟩ := userCreate_ok h
  refine ⟨?_, ?_, hs.groupIds, hs.displayNames, hs.memberPairs, hs.memberGroup, ?_⟩
  · exact nodup_map_append_singleton _ hs.userIds (findRow_eq_none_iff.mp hid)
  · exact nodup_map_append_singleton _ hs.userNames (findRow_eq_none_iff.mp hname)
  · intro m hm
    simp only [Store.user, findRow_append_singleton, Option.isSome_or]
    exact Bool.or_eq_true_iff.mpr (Or.inl (hs.memberUser m hm))

theorem user_modifyRow (s : Store) (id id' : String) (f : ScimUser → ScimUser)
    (hf : ∀ u, (f u).id = u.id) :
    (Store.user { s with users := modifyRow ScimUser.id id f s.users } id') =
      if id' = id then (s.user id').map f else s.user id' :=
  findRow_modifyRow id id' f hf s.users

theorem userUpdate_valid {E : Engine} {t : Tick} {id : String} {data : UserUpdateData}
    {s s' : Store} {u : ScimUser} (hs : s.Valid)
    (h : userUpdate E t id data s = .ok (u, s')) : s'.Valid := by
  obtain ⟨upd, old, _, hold, htaken, _, rfl⟩ := userUpdate_ok h
  refine ⟨?_, ?_, hs.groupIds, hs.displayNames, hs.memberPairs, hs.memberGroup, ?_⟩
  · rw [map_key_modifyRow id (upd.apply t.now) (fun _ => rfl)]
    exact hs.userIds
  · apply nodup_map_modifyRow _ _ _ hs.userIds hs.userNames
    intro r hr x hx hrid hxid heq
    have hxold : x = old := Option.some.inj ((hs.user_eq_some_iff.mpr ⟨hx, hxid⟩).symm.trans hold)
    rw [hxold] at heq
    have hall : ∀ v ∈ s.users, v.id ≠ id → v.userName ≠ (upd.apply t.now old).userName := by
      simpa [userNameTaken] using htaken
    exact hall r hr hrid heq
  · intro m hm
    rw [user_modifyRow s id m.userId (upd.apply t.now) (fun _ => rfl)]
    split
    · rw [Option.isSome_map]
      exact hs.memberUser m hm
    · exact hs.memberUser m hm

theorem userDelete_valid {id : String} {s s' : Store} {r : Unit} (hs : s.Valid)
    (h : userDelete id s = .ok (r, s')) : s'.Valid := by
  obtain ⟨_, rfl⟩ := userDelete_ok h
  refine ⟨nodup_map_eraseRow _ _ hs.userIds, nodup_map_eraseRow _ _ hs.userNames, hs.groupIds,
    hs.displayNames, hs.memberPairs.filter _, ?_, ?_⟩
  · intro m hm
    exact hs.memberGroup m (mem_eraseRow.mp hm).1
  · intro m hm
    obtain ⟨hm, hne⟩ := mem_eraseRow.mp hm
    simp only [Store.user, findRow_eraseRow]
    rw [if_neg hne]
    exact hs.memberUser m hm

theorem groupDelete_valid {id : String} {s s' : Store} {r : Unit} (hs : s.Valid)
    (h : groupDelete id s = .ok (r, s')) : s'.Valid := by
  obtain ⟨_, rfl⟩ := groupDelete_ok h
  refine ⟨hs.userIds, hs.userNames, nodup_map_eraseRow _ _ hs.groupIds,
    nodup_map_eraseRow _ _ hs.displayNames, hs.memberPairs.filter _, ?_, ?_⟩
  · intro m hm
    obtain ⟨hm, hne⟩ := mem_eraseRow.mp hm
    simp only [Store.group, findRow_eraseRow]
    rw [if_neg hne]
    exact hs.memberGroup m hm
  · intro m hm
    exact hs.memberUser m (mem_eraseRow.mp hm).1

theorem insertMember_valid {m : ScimGroupMember} {s s' : Store} (hs : s.Valid)
    (h : insertMember m s = .ok s') : s'.Valid := by
  obtain ⟨hnew, hgroup, huser, rfl⟩ := insertMember_ok h
  refine ⟨hs.userIds, hs.userNames, hs.groupIds, hs.displayNames, ?_, ?_, ?_⟩
  · exact List.nodup_append_comm.mp (List.nodup_cons.mpr ⟨hnew, hs.memberPairs⟩)
  · intro x hx
    rcases List.mem_append.mp hx with hx | hx
    · exact hs.memberGroup x hx
    · cases List.mem_singleton.mp hx
      exact hgroup
  · intro x hx
    rcases List.mem_append.mp hx with hx | hx
    · exact hs.memberUser x hx
    · cases List.mem_singleton.mp hx
      exact huser

theorem insertMembers_valid {groupId : String} {userIds : List String} {s s' : Store}
    (hs : s.Valid) (h : insertMembers groupId userIds s = .ok s') : s'.Valid := by
  induction userIds generalizing s with
  | nil =>
    cases h
    exact hs
  | cons u us ih =>
    simp only [insertMembers] at h
    split at h
    · rename_i mid hmid
      exact ih (insertMember_valid hs hmid) h
    · contradiction

theorem addGroup_valid {s : Store} {g : ScimGroup} (hs : s.Valid) (hid : s.group g.id = none)
    (hname : s.groupNamed g.displayName = none) :
    Store.Valid { s with groups := s.groups ++ [g] } := by
  refine ⟨hs.userIds, hs.userNames, ?_, ?_, hs.memberPairs, ?_, hs.memberUser⟩
  · exact nodup_map_append_singleton _ hs.groupIds (findRow_eq_none_iff.mp hid)
  · exact nodup_map_append_singleton _ hs.displayNames (findRow_eq_none_iff.mp hname)
  · intro m hm
    simp only [Store.group, findRow_append_singleton, Option.isSome_or]
    exact Bool.or_eq_true_iff.mpr (Or.inl (hs.memberGroup m hm))

theorem groupCreate_valid {t : Tick} {data : GroupCreateData} {s s' : Store}
    {g : GroupWithMembers} (hs : s.Valid) (h : groupCreate t data s = .ok (g, s')) :
    s'.Valid := by
  obtain ⟨userIds, _, hid, hname, hins, _⟩ := groupCreate_ok h
  exact insertMembers_valid (addGroup_valid hs hid hname) hins

theorem group_modifyRow (s : Store) (id id' : String) (f : ScimGroup → ScimGroup)
    (hf : ∀ g, (f g).id = g.id) :
    (Store.group { s with groups := modifyRow ScimGroup.id id f s.groups } id') =
      if id' = id then (s.group id').map f else s.group id' :=
  findRow_modifyRow id id' f hf s.groups

theorem renameGroup_valid {s : Store} {t : Tick} {id : String} {displayName : Option String}
    {externalId : Nullable String} {old : ScimGroup} (hs : s.Valid)
    (hold : s.group id = some old)
    (htaken : displayNameTaken s id (displayName.getD old.displayName) = false) :
    Store.Valid { s with
      groups :=
        modifyRow ScimGroup.id id (updateGroup t.now displayName externalId) s.groups } := by
  refine ⟨hs.userIds, hs.userNames, ?_, ?_, hs.memberPairs, ?_, hs.memberUser⟩
  · rw [map_key_modifyRow id (updateGroup t.now displayName externalId) (fun _ => rfl)]
    exact hs.groupIds
  · apply nodup_map_modifyRow _ _ _ hs.groupIds hs.displayNames
    intro r hr x hx hrid hxid heq
    have hxold : x = old := Option.some.inj ((hs.group_eq_some_iff.mpr ⟨hx, hxid⟩).symm.trans hold)
    rw [hxold] at heq
    have hall : ∀ v ∈ s.groups, v.id ≠ id → v.displayName ≠ displayName.getD old.displayName := by
      simpa [displayNameTaken] using htaken
    exact hall r hr hrid heq
  · intro m hm
    rw [group_modifyRow s id m.groupId (updateGroup t.now displayName externalId) (fun _ => rfl)]
    split
    · rw [Option.isSome_map]
      exact hs.memberGroup m hm
    · exact hs.memberGroup m hm

theorem write_valid {t : Tick} (w : Write) {s s' : Store} (hs : s.Valid)
    (h : w.exec t s = .ok s') : s'.Valid := by
  cases w with
  | memberDeleteMany groupId p =>
    cases h
    exact ⟨hs.userIds, hs.userNames, hs.groupIds, hs.displayNames, hs.memberPairs.filter _,
      fun m hm => hs.memberGroup m (List.mem_of_mem_filter hm),
      fun m hm => hs.memberUser m (List.mem_of_mem_filter hm)⟩
  | memberUpsert groupId userId =>
    rcases upsert_ok h with ⟨_, rfl⟩ | hins
    · exact hs
    · exact insertMember_valid hs hins
  | groupUpdate id displayName externalId userIds =>
    obtain ⟨old, hold, htaken, hins⟩ := groupUpdate_ok h
    exact insertMembers_valid (renameGroup_valid hs hold htaken) hins

theorem transaction_valid {E : Engine} {t : Tick} {ops : List BatchOp} {s s' : Store} {r : Unit}
    (hs : s.Valid) (h : transaction E t ops s = .ok (r, s')) : s'.Valid := by
  obtain ⟨ws, _, hrun⟩ := transaction_ok h
  exact execWrites_keeps ws (fun w _ _ _ hv hw => write_valid w hv hw) s s' hs hrun

/-- Every call that succeeds keeps the constraints of the schema. -/
theorem exec_keeps_valid (E : Engine) : Keeps (exec E) Store.Valid := by
  intro t c s r s' hs h
  cases c with
  | userFindUnique id => cases h; exact hs
  | userFindUniqueByName n => cases h; exact hs
  | userCreate data => exact userCreate_valid hs (rejects_eq_ok h)
  | userUpdate id data => exact userUpdate_valid hs (rejects_eq_ok h)
  | userDelete id => exact userDelete_valid hs (rejects_eq_ok h)
  | userList n skip take => exact (userList_ok (rejects_eq_ok h)).1 ▸ hs
  | groupFindUnique id => cases h; exact hs
  | groupFindUniqueByName n => cases h; exact hs
  | groupCreate data => exact groupCreate_valid hs (rejects_eq_ok h)
  | transaction ops => exact transaction_valid hs (rejects_eq_ok h)
  | groupDelete id => exact groupDelete_valid hs (rejects_eq_ok h)
  | groupList n skip take => exact (groupList_ok (rejects_eq_ok h)).1 ▸ hs
  | memberDeleteMany =>
    cases h
    exact ⟨hs.userIds, hs.userNames, hs.groupIds, hs.displayNames, List.nodup_nil, by simp, by simp⟩
  | userDeleteMany =>
    cases h
    exact ⟨List.nodup_nil, List.nodup_nil, hs.groupIds, hs.displayNames, List.nodup_nil,
      by simp, by simp⟩
  | groupDeleteMany =>
    cases h
    exact ⟨hs.userIds, hs.userNames, List.nodup_nil, List.nodup_nil, List.nodup_nil,
      by simp, by simp⟩

end Constraints

end OktaScim.PrismaConstraints
