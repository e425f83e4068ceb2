import OktaScim.MembershipModel
import OktaScim.GroupPatchEffect
import OktaScim.GroupUpdates

/-!
The tables refine the map from groups to sets of users. Every request that
succeeds acts on the tables as it acts on the map, over runs of any length, and
what a GET of a group shows is the set the map holds for it.
-/
namespace OktaScim.MembershipRefinement

open Programs Schema KeyedRows JsValues PrismaClient PrismaConstraints Bodies UserPatch GroupPatch
open GroupPatchMeaning GroupPatchEffect GroupUpdates Representations Requests RequestPrograms
open FilterPaths MembershipModel

section Operations

variable {o : PatchOperation}

theorem memberPath_ne_members (u : String) : memberPath u ≠ "members" := by
  intro h
  have hlen := congrArg (fun p => p.toList.length) h
  simp only [memberPath_toList, List.length_append] at hlen
  have hopening : opening.length = 18 := by decide
  have hmembers : "members".toList.length = 7 := by decide
  omega

theorem memberPath_ne_empty (u : String) : memberPath u ≠ "" := by
  intro h
  have hlen := congrArg (fun p => p.toList.length) h
  simp [memberPath_toList, closing] at hlen

theorem memberPath_injective {u w : String} (h : memberPath u = memberPath w) : u = w := by
  have hlists := congrArg String.toList h
  rw [memberPath_toList, memberPath_toList] at hlists
  exact String.toList_inj.mp (List.append_cancel_right (List.append_cancel_left hlists))

theorem spellsMembers_members : SpellsMembers "members" :=
  ⟨[], "members".toList, [], by decide, by decide⟩

theorem spellsMembers_memberPath (u : String) : SpellsMembers (memberPath u) := by
  have hopening : opening = "members".toList ++ "[value eq \"".toList := by decide
  refine ⟨[], "members".toList, "[value eq \"".toList ++ (u.toList ++ (closing ++ [])), ?_,
    by decide⟩
  rw [memberPath_toList, hopening, List.append_assoc, List.nil_append]

/-- The entries of an admitted list hold strings that are not empty. -/
theorem listsValue_iff {items : List Json} (hvalue : o.value = some (.arr items))
    (hentries : ∀ entry ∈ items, ∃ u, MemberId u ∧ entry.get "value" = some (.str u)) (v : Json) :
    ListsValue o v ↔ ∃ u, v = .str u ∧ ListsMember o.value u := by
  constructor
  · intro hids
    obtain ⟨items', hitems, entry, hentry, hget, _⟩ := hids
    have hsame : items' = items := by simpa [hvalue] using hitems.symm
    obtain ⟨u, _, hu⟩ := hentries entry (hsame ▸ hentry)
    have hv : v = .str u := Option.some.inj (hget.symm.trans hu)
    exact ⟨u, hv, items', entry, hitems, hentry, hu⟩
  · intro hids
    obtain ⟨u, rfl, items', entry, hitems, hentry, hget⟩ := hids
    have hsame : items' = items := by simpa [hvalue] using hitems.symm
    obtain ⟨w, hw, hgetw⟩ := hentries entry (hsame ▸ hentry)
    have huw : u = w := by simpa [hget] using hgetw
    have hne : u ≠ "" := huw ▸ hw.nonempty
    exact ⟨items', hitems, entry, hentry, hget, by simpa [Json.truthy] using hne⟩

/-- On the operation the translation collects the value when it names it as an id. -/
def CollectsNamed (o : PatchOperation) (v : Json) : Prop :=
  (AddsMember o v ↔ ∃ u, v = .str u ∧ u ∈ addedBy o) ∧
    (RemovesMember o v ↔ ∃ u, v = .str u ∧ u ∈ removedBy o)

theorem collectsNamed_list {items : List Json} (path : o.path = some "members")
    (value : o.value = some (.arr items))
    (entries : ∀ entry ∈ items, ∃ u, MemberId u ∧ entry.get "value" = some (.str u)) (v : Json) :
    CollectsNamed o v := by
  unfold CollectsNamed AddsMember RemovesMember addedBy removedBy
  have hlists := listsValue_iff value entries v
  have hother : ∀ u, o.path ≠ some (memberPath u) := by
    intro u hu
    rw [path] at hu
    exact memberPath_ne_members u (Option.some.inj hu).symm
  have hnone : ¬∃ p id, o.path = some p ∧ p ≠ "members" ∧ p ≠ "" ∧ id ≠ "" ∧
      extractMemberIdFromFilterPath p = some id ∧ v = .str id := by
    intro hselects
    obtain ⟨p, id, hp, hne, _⟩ := hselects
    rw [path] at hp
    exact hne (Option.some.inj hp).symm
  have hnamed : ∀ word : String,
      (o.op.map toLowerCase = some word ∧ ∃ u, v = .str u ∧ ListsMember o.value u) ↔
        ∃ u, v = .str u ∧ o.op.map toLowerCase = some word ∧ ListsMember o.value u := by
    intro word
    constructor
    · intro hids
      obtain ⟨hop, u, hv, hu⟩ := hids
      exact ⟨u, hv, hop, hu⟩
    · intro hids
      obtain ⟨u, hv, hop, hu⟩ := hids
      exact ⟨hop, u, hv, hu⟩
  simp only [Set.mem_ofPred_eq, hlists, hother, hnone, or_false]
  simp only [path, true_or, true_and]
  exact ⟨hnamed "add", hnamed "remove"⟩

theorem collectsNamed_one {w : String} (op : o.op.map toLowerCase = some "remove") (id : MemberId w)
    (path : o.path = some (memberPath w)) (v : Json) : CollectsNamed o v := by
  unfold CollectsNamed AddsMember RemovesMember addedBy removedBy
  have hop : o.op.map toLowerCase ≠ some "add" := by
    rw [op]
    decide
  have hpath : o.path ≠ some "members" := by
    rw [path]
    exact fun heq => memberPath_ne_members w (Option.some.inj heq)
  have hextract := extract_memberPath id.nonempty id.unquoted
  refine ⟨by simp [hop], ?_⟩
  simp only [Set.mem_ofPred_eq, op, hpath, false_and, false_or, true_and]
  constructor
  · intro hselects
    obtain ⟨p, id', hp, _, _, _, hid', rfl⟩ := hselects
    have hpw : p = memberPath w := Option.some.inj (hp.symm.trans path)
    rw [hpw, hextract] at hid'
    exact ⟨w, by rw [Option.some.inj hid'], path⟩
  · intro hids
    obtain ⟨u, rfl, hu⟩ := hids
    have huw : w = u := memberPath_injective (Option.some.inj (path.symm.trans hu))
    exact ⟨memberPath w, w, path, memberPath_ne_members w, memberPath_ne_empty w, id.nonempty,
      hextract, by rw [huw]⟩

theorem collectsNamed_otherObject (path : nonempty o.path = false)
    (value : ∀ items, o.value ≠ some (.arr items)) (v : Json) : CollectsNamed o v := by
  unfold CollectsNamed AddsMember RemovesMember addedBy removedBy
  have hlists : ¬ListsValue o v := by
    intro hvalue
    obtain ⟨items, hitems, _⟩ := hvalue
    exact value items hitems
  have hmember : ∀ u, ¬ListsMember o.value u := by
    intro u hvalue
    obtain ⟨items, _, hitems, _⟩ := hvalue
    exact value items hitems
  have hselect : ∀ p, p ≠ "" → o.path ≠ some p := by
    intro p hp heq
    simp [heq, nonempty, hp] at path
  have hpath : ∀ u, o.path ≠ some (memberPath u) := fun u => hselect _ (memberPath_ne_empty u)
  refine ⟨by simp [hlists, hmember], ?_⟩
  simp only [Set.mem_ofPred_eq, hlists, hmember, hpath, and_false, false_or, or_false,
    exists_false, iff_false]
  intro hselects
  obtain ⟨_, p, id, hp, _, hpne, _⟩ := hselects
  exact hselect p hpne hp

/-- On an admitted operation the translation collects the ids it names. -/
theorem admitted_members (h : Admitted o) (v : Json) : CollectsNamed o v := by
  cases h with
  | list items op path value entries => exact collectsNamed_list path value entries v
  | one w op id path => exact collectsNamed_one op id path v
  | otherPath p path hne other =>
    have hmembers : p ≠ "members" := fun heq => other (heq ▸ spellsMembers_members)
    have hselect : ∀ u, p ≠ memberPath u := fun u heq => other (heq ▸ spellsMembers_memberPath u)
    have hnone := extract_eq_none other
    simp [CollectsNamed, AddsMember, RemovesMember, addedBy, removedBy, path, hmembers, hselect,
      hnone, nonempty, hne]
  | otherObject path value other => exact collectsNamed_otherObject path value v

end Operations

section Abstraction

/-- The users that are members of a group. -/
def memberSet (s : Store) (groupId : String) : Set String := {u | ⟨groupId, u⟩ ∈ s.members}

/-- The map that the tables stand for. -/
def abstraction (s : Store) : Memberships String String :=
  fun g => (s.group g).map fun _ => memberSet s g

theorem abstraction_congr {s s' : Store} (hgroups : s'.groups = s.groups)
    (hmembers : s'.members = s.members) : abstraction s' = abstraction s := by
  unfold abstraction memberSet Store.group
  rw [hgroups, hmembers]

/-- Two stores stand for the same entry of a group that both or neither has. -/
theorem abstraction_apply_congr {s s' : Store} {g : String} {users : Set String}
    (hgroup : (s'.group g).isSome = (s.group g).isSome) (hset : memberSet s' g = users) :
    abstraction s' g = (s.group g).map fun _ => users := by
  unfold abstraction
  rw [hset]
  cases h' : s'.group g <;> cases h : s.group g <;> simp_all

theorem abstraction_deleteUser (s : Store) (id : String) :
    abstraction { s with
        users := eraseRow ScimUser.id id s.users
        members := eraseRow ScimGroupMember.userId id s.members } =
      withdraw (abstraction s) id := by
  funext g
  have hset : memberSet { s with
      users := eraseRow ScimUser.id id s.users
      members := eraseRow ScimGroupMember.userId id s.members } g = memberSet s g \ {id} := by
    ext u
    simp [memberSet, mem_eraseRow]
  rw [abstraction_apply_congr rfl hset, withdraw, abstraction, Option.map_map]
  rfl

theorem abstraction_deleteGroup (s : Store) (id : String) :
    abstraction { s with
        groups := eraseRow ScimGroup.id id s.groups
        members := eraseRow ScimGroupMember.groupId id s.members } =
      drop (abstraction s) id := by
  funext g
  simp only [abstraction, Store.group, findRow_eraseRow, drop]
  by_cases hg : g = id
  · simp [hg]
  · have hset : memberSet { s with
        groups := eraseRow ScimGroup.id id s.groups
        members := eraseRow ScimGroupMember.groupId id s.members } g = memberSet s g := by
      ext u
      simp [memberSet, mem_eraseRow, hg]
    rw [if_neg hg, Function.update_of_ne hg, hset]
    rfl

theorem abstraction_createGroup {s : Store} (hs : s.Valid) (g : ScimGroup)
    (hnew : s.group g.id = none) (userIds : List String) :
    abstraction { s with
        groups := s.groups ++ [g]
        members := s.members ++ userIds.map (ScimGroupMember.mk g.id) } =
      assign (abstraction s) g.id {u | u ∈ userIds} := by
  have hnone : ∀ u, (⟨g.id, u⟩ : ScimGroupMember) ∉ s.members := by
    intro u hu
    have hsome := hs.memberGroup _ hu
    simp only [hnew] at hsome
    contradiction
  funext k
  simp only [abstraction, Store.group, findRow_append_singleton, assign]
  by_cases hk : k = g.id
  · have hset : memberSet { s with
        groups := s.groups ++ [g]
        members := s.members ++ userIds.map (ScimGroupMember.mk g.id) } g.id =
          {u | u ∈ userIds} := by
      ext u
      simp [memberSet, hnone]
    have hfree : findRow ScimGroup.id g.id s.groups = none := hnew
    rw [hk, hfree, Function.update_self, hset]
    simp
  · have hset : memberSet { s with
        groups := s.groups ++ [g]
        members := s.members ++ userIds.map (ScimGroupMember.mk g.id) } k = memberSet s k := by
      ext u
      simp [memberSet, Ne.symm hk]
    rw [if_neg (Ne.symm hk), Option.or_none, Function.update_of_ne hk, hset]
    rfl

theorem abstraction_replaced {now : ℕ} {id : String} {dto : UpdateScimGroupDto}
    {userIds : List String} {s s' : Store} (h : Replaced now id dto userIds s s')
    (hid : (s.group id).isSome = true) :
    abstraction s' = assign (abstraction s) id {u | u ∈ userIds} := by
  have hsets : ∀ g, memberSet s' g = if g = id then {u | u ∈ userIds} else memberSet s g := by
    intro g
    by_cases hg : g = id
    · ext u
      simp [memberSet, h.members, mem_eraseRow, hg]
    · ext u
      simp [memberSet, h.members, mem_eraseRow, hg, Ne.symm hg]
  have hgroup : ∀ g, (s'.group g).isSome = (s.group g).isSome := by
    intro g
    rw [h.group]
    split <;> simp
  funext g
  rw [abstraction_apply_congr (hgroup g) (hsets g), assign]
  by_cases hg : g = id
  · obtain ⟨row, hrow⟩ := Option.isSome_iff_exists.mp hid
    simp [hg, hrow]
  · rw [Function.update_of_ne hg, if_neg hg]
    rfl

theorem mem_addMemberIds_iff {r : GroupPatchResult} {ops : List (Option PatchOperation)}
    (hr : applyGroupPatch ops = some r) (hops : ∀ o, some o ∈ ops → Admitted o) (u : String) :
    Json.str u ∈ r.addMemberIds ↔ u ∈ added ops := by
  rw [(applyGroupPatch_members hr _).1]
  constructor
  · intro hids
    obtain ⟨o, ho, hadds⟩ := hids
    obtain ⟨w, hw, hmem⟩ := (admitted_members (hops o ho) _).1.mp hadds
    exact ⟨o, ho, by rwa [Json.str.inj hw]⟩
  · intro hids
    obtain ⟨o, ho, hmem⟩ := hids
    exact ⟨o, ho, (admitted_members (hops o ho) _).1.mpr ⟨u, rfl, hmem⟩⟩

theorem selects_removeMemberIds_iff {r : GroupPatchResult} {ops : List (Option PatchOperation)}
    (hr : applyGroupPatch ops = some r) (hops : ∀ o, some o ∈ ops → Admitted o) (E : Engine)
    (u : String) : (∃ v ∈ r.removeMemberIds, Selects E v u) ↔ u ∈ removed ops := by
  constructor
  · intro hids
    obtain ⟨v, hv, hsel⟩ := hids
    obtain ⟨o, ho, hremoves⟩ := (applyGroupPatch_members hr _).2.mp hv
    obtain ⟨w, rfl, hmem⟩ := (admitted_members (hops o ho) _).2.mp hremoves
    exact ⟨o, ho, by rwa [(selects_str E w u).mp hsel]⟩
  · intro hids
    obtain ⟨o, ho, hmem⟩ := hids
    refine ⟨.str u, (applyGroupPatch_members hr _).2.mpr ⟨o, ho, ?_⟩, (selects_str E u u).mpr rfl⟩
    exact (admitted_members (hops o ho) _).2.mpr ⟨u, rfl, hmem⟩

theorem abstraction_patched {E : Engine} {now : ℕ} {id : String} {r : GroupPatchResult}
    {ops : List (Option PatchOperation)} {s s' : Store} (hr : applyGroupPatch ops = some r)
    (hops : ∀ o, some o ∈ ops → Admitted o) (h : Patched E now id r s s') :
    abstraction s' = edit (abstraction s) id (removed ops) (added ops) := by
  have hsets : ∀ g, memberSet s' g =
      if g = id then (memberSet s g \ removed ops) ∪ added ops else memberSet s g := by
    intro g
    ext u
    have hmem := h.members ⟨g, u⟩
    rw [selects_removeMemberIds_iff hr hops, mem_addMemberIds_iff hr hops] at hmem
    by_cases hg : g = id
    · rw [if_pos hg]
      simpa [memberSet, hg] using hmem
    · rw [if_neg hg]
      simpa [memberSet, hg] using hmem
  funext g
  rw [abstraction_apply_congr (h.group g) (hsets g), edit]
  by_cases hg : g = id
  · rw [hg, Function.update_self, if_pos rfl, abstraction, Option.map_map]
    rfl
  · rw [Function.update_of_ne hg, if_neg hg]
    rfl

end Abstraction

section Requests

variable {env : Env} {ticks : ℕ → Tick} {s s' : Store} {a : Answer}

/-- The ids that a nested create was given are the ids listed in the body. -/
theorem mem_listed_iff {members : Nullable (List (Option ScimGroupMemberDto))}
    {creates : List (Option String)} {userIds : List String}
    (hcreates : GroupsService.memberCreates members = some creates)
    (hids : readMembers creates = some userIds) : {u | u ∈ userIds} = listed members := by
  unfold GroupsService.memberCreates at hcreates
  unfold readMembers at hids
  unfold listed
  generalize members.orElse [] = entries at hcreates
  ext u
  simp only [Set.mem_ofPred_eq]
  induction entries generalizing creates userIds with
  | nil =>
    cases hcreates
    cases hids
    simp
  | cons entry entries ih =>
    obtain ⟨c, cs, hentry, hrest, rfl⟩ := mapM_cons_some hcreates
    obtain ⟨w, ws, hw, hws, rfl⟩ := mapM_cons_some hids
    obtain ⟨m, rfl, hm⟩ := Option.map_eq_some_iff.mp hentry
    have hvalue : m.value = some w := hm.trans hw
    rw [List.mem_cons, ih hws hrest]
    constructor
    · intro hids
      rcases hids with rfl | ⟨m', hm', hu⟩
      · exact ⟨m, List.mem_cons_self .., hvalue⟩
      · exact ⟨m', List.mem_cons_of_mem _ hm', hu⟩
    · intro hids
      obtain ⟨m', hm', hu⟩ := hids
      rcases List.mem_cons.mp hm' with heq | hin
      · rw [Option.some.inj heq, hvalue] at hu
        exact Or.inl (Option.some.inj hu).symm
      · exact Or.inr ⟨m', hin, hu⟩

/-- A user that is created or updated changes no membership. -/
theorem run_updateUserTail_ok {id : String} {data : UserUpdateData}
    (h : run (exec env.engine) ticks (updateUserTail env id data) s = (.ok a, s')) :
    s'.groups = s.groups ∧ s'.members = s.members := by
  obtain ⟨u, hu, _⟩ := run_call_pure_ok (exec env.engine) h
  obtain ⟨_, _, _, _, _, _, rfl⟩ := userUpdate_ok (rejects_eq_ok hu)
  exact ⟨rfl, rfl⟩

theorem run_createUserTail_ok {salt : String} {dto : CreateScimUserDto}
    (h : run (exec env.engine) ticks (createUserTail env salt dto) s = (.ok a, s')) :
    s'.groups = s.groups ∧ s'.members = s.members := by
  obtain ⟨u, hu, _⟩ := run_call_pure_ok (exec env.engine) h
  obtain ⟨_, _, _, rfl⟩ := userCreate_ok (rejects_eq_ok hu)
  exact ⟨rfl, rfl⟩

theorem run_createGroupTail_ok {dto : CreateScimGroupDto} (hs : s.Valid)
    (h : run (exec env.engine) ticks (createGroupTail env dto) s = (.ok a, s')) :
    abstraction s' = act (.createGroup dto) a (abstraction s) := by
  unfold createGroupTail at h
  cases hcreates : GroupsService.memberCreates dto.members with
  | none =>
    rw [hcreates] at h
    cases h
  | some creates =>
    rw [hcreates] at h
    obtain ⟨g, hg, rfl⟩ := run_call_pure_ok (exec env.engine) h
    obtain ⟨userIds, hids, hnew, _, hins, rfl⟩ := groupCreate_ok (rejects_eq_ok hg)
    obtain ⟨_, _, rfl⟩ := insertMembers_ok hins
    have habs := abstraction_createGroup hs
      (newGroup (ticks 0) ⟨dto.displayName, dto.externalId, creates⟩) hnew userIds
    rw [mem_listed_iff hcreates hids] at habs
    exact habs

/-- One step of a run: a request that succeeds acts on the tables as on the map. -/
theorem serve_acts {r : Request} (hs : s.Valid) (hr : Admissible r)
    (h : serve env ticks r s = (.ok a, s')) : abstraction s' = act r a (abstraction s) := by
  unfold serve at h
  cases r with
  | listUsers filter pagination =>
    rw [handle_listUsers] at h
    obtain ⟨page, hpage, rfl⟩ := run_call_pure_ok (exec env.engine) h
    rw [(userList_ok (rejects_eq_ok hpage)).1]
    rfl
  | getUser id =>
    rw [handle_getUser] at h
    simp only [run, exec] at h
    cases hu : s.user id with
    | none => simp [hu] at h
    | some u =>
      rw [hu] at h
      cases h
      rfl
  | createUser salt dto =>
    rw [handle_createUser] at h
    simp only [run, exec] at h
    cases hu : s.userNamed dto.userName with
    | some u => simp [hu] at h
    | none =>
      rw [hu] at h
      obtain ⟨hgroups, hmembers⟩ := run_createUserTail_ok h
      exact abstraction_congr hgroups hmembers
  | replaceUser salt id dto =>
    rw [handle_replaceUser] at h
    obtain ⟨hgroups, hmembers⟩ := run_updateUserTail_ok (run_userLookup_ok h).2
    exact abstraction_congr hgroups hmembers
  | patchUser id operations =>
    cases hfields : applyUserPatch operations with
    | none =>
      rw [handle_patchUser_none env hfields] at h
      cases h
    | some fields =>
      rw [handle_patchUser_some env hfields] at h
      obtain ⟨hgroups, hmembers⟩ := run_updateUserTail_ok (run_userLookup_ok h).2
      exact abstraction_congr hgroups hmembers
  | deleteUser id =>
    rw [handle_deleteUser] at h
    obtain ⟨u, hu, rfl⟩ := run_call_pure_ok (exec env.engine) (run_userLookup_ok h).2
    obtain ⟨_, rfl⟩ := userDelete_ok (rejects_eq_ok hu)
    exact abstraction_deleteUser s id
  | listGroups filter pagination =>
    rw [handle_listGroups] at h
    obtain ⟨page, hpage, rfl⟩ := run_call_pure_ok (exec env.engine) h
    rw [(groupList_ok (rejects_eq_ok hpage)).1]
    rfl
  | getGroup id =>
    rw [handle_getGroup] at h
    rw [(run_readGroup_ok h).1]
    rfl
  | createGroup dto =>
    rw [handle_createGroup] at h
    simp only [run, exec] at h
    cases hg : s.groupNamed dto.displayName with
    | some g => simp [hg] at h
    | none =>
      rw [hg] at h
      exact run_createGroupTail_ok hs h
  | replaceGroup id dto =>
    obtain ⟨creates, userIds, g, hcreates, hids, hg, hrepl, _⟩ := replaceGroup_ok h
    have hid : (s.group id).isSome = true := by
      rw [hg]
      rfl
    have habs := abstraction_replaced hrepl hid
    rw [mem_listed_iff hcreates hids] at habs
    exact habs
  | patchGroup id operations =>
    obtain ⟨r, g, hpatch, _, hpatched, _, _⟩ := patchGroup_ok h
    exact abstraction_patched hpatch hr hpatched
  | deleteGroup id =>
    rw [handle_deleteGroup] at h
    obtain ⟨u, hu, rfl⟩ := run_call_pure_ok (exec env.engine) (run_groupLookup_ok h).2
    obtain ⟨_, rfl⟩ := groupDelete_ok (rejects_eq_ok hu)
    exact abstraction_deleteGroup s id
  | clearData =>
    cases h
    rfl

end Requests

section Runs

theorem serve_valid {env : Env} {ticks : ℕ → Tick} {r : Request} {s s' : Store}
    {result : Except Exception Answer} (hs : s.Valid)
    (h : serve env ticks r s = (result, s')) : s'.Valid := by
  have hkeep :=
    run_keeps (exec env.engine) (exec_keeps_valid env.engine) (r.handle env) ticks s hs
  have hs' : (run (exec env.engine) ticks (r.handle env) s).2 = s' := congrArg Prod.snd h
  rw [hs'] at hkeep
  exact hkeep

/-- The tables and the map after a sequence of requests that have all
succeeded, from empty tables. -/
inductive Runs (env : Env) : Store → Memberships String String → Prop
  | empty : Runs env Store.empty (fun _ => none)
  | serve {s s' : Store} {m : Memberships String String} (ticks : ℕ → Tick) (r : Request)
      (a : Answer) : Runs env s m → Admissible r → serve env ticks r s = (.ok a, s') →
      Runs env s' (act r a m)

theorem runs_refine {env : Env} {s : Store} {m : Memberships String String}
    (h : Runs env s m) : s.Valid ∧ abstraction s = m := by
  induction h with
  | empty => exact ⟨Store.empty_valid, rfl⟩
  | @serve s s' m ticks r a _ hr hserve ih =>
    obtain ⟨hs, hm⟩ := ih
    exact ⟨serve_valid hs hserve, by rw [serve_acts hs hr hserve, hm]⟩

/-- The representation shows the members of the set, each once and under the
user name that a GET of the user shows. -/
structure Shows (env : Env) (s : Store) (users : Set String) (rep : GroupRep) : Prop where
  nodup : (rep.members.map MemberRep.value).Nodup
  values : ∀ u, u ∈ rep.members.map MemberRep.value ↔ u ∈ users
  displays : ∀ m ∈ rep.members, ∀ ticks : ℕ → Tick, ∃ user,
    serve env ticks (.getUser m.value) s = (.ok ⟨200, .user user⟩, s) ∧ m.display = user.userName

theorem members_toScimGroup {s : Store} (hs : s.Valid) (g : ScimGroup) (baseUrl : String) :
    (toScimGroup (withMembers s g) baseUrl).members.map MemberRep.value = s.memberIds g.id := by
  unfold toScimGroup withMembers Store.memberIds
  simp only [List.map_filterMap]
  rw [← List.filterMap_eq_map]
  refine List.filterMap_congr fun m hm => ?_
  obtain ⟨u, hu⟩ := Option.isSome_iff_exists.mp (hs.memberUser m (List.mem_of_mem_filter hm))
  have hid : u.id = m.userId := key_of_findRow hu
  simp [hu, hid]

theorem shows_withMembers {env : Env} {s : Store} (hs : s.Valid) (g : ScimGroup) :
    Shows env s (memberSet s g.id) (toScimGroup (withMembers s g) env.baseUrl) where
  nodup := by
    rw [members_toScimGroup hs]
    exact hs.nodup_memberIds g.id
  values u := by
    rw [members_toScimGroup hs, Store.mem_memberIds]
    rfl
  displays m hm ticks := by
    simp only [toScimGroup, withMembers, List.mem_map, List.mem_filterMap] at hm
    obtain ⟨row, ⟨member, _, hrow⟩, rfl⟩ := hm
    obtain ⟨u, hu, rfl⟩ := Option.map_eq_some_iff.mp hrow
    have hid : u.id = member.userId := key_of_findRow hu
    have hfound : s.user u.id = some u := by
      rw [hid]
      exact hu
    refine ⟨toScimUser u env.baseUrl, ?_, rfl⟩
    unfold serve
    rw [handle_getUser]
    simp only [run, exec, hfound]
    rfl

/-- After any run a group is found exactly when the map has it, and what is
shown of it is the map's set. -/
theorem getGroup_refines {env : Env} {s : Store} {m : Memberships String String}
    (h : Runs env s m) (id : String) (ticks : ℕ → Tick) :
    (m id = none → ∃ e, serve env ticks (.getGroup id) s = (.error e, s)) ∧
      ∀ users, m id = some users → ∃ rep,
        serve env ticks (.getGroup id) s = (.ok ⟨200, .group rep⟩, s) ∧ Shows env s users rep := by
  obtain ⟨hs, rfl⟩ := runs_refine h
  unfold serve
  rw [handle_getGroup, run_readGroup]
  unfold abstraction
  cases hg : s.group id with
  | none => exact ⟨fun _ => ⟨_, rfl⟩, fun users hm => by simp at hm⟩
  | some g =>
    refine ⟨fun hm => by simp at hm, fun users hm => ?_⟩
    have hid : g.id = id := key_of_findRow hg
    have hshows := @shows_withMembers env s hs g
    rw [hid] at hshows
    cases hm
    exact ⟨_, rfl, hshows⟩

theorem admitted_sample : Admitted (membersOperation "remove" ["x"]) := by
  refine .list _ (Or.inr (by decide)) rfl rfl fun entry hentry => ?_
  have hx : entry = .obj [("value", .str "x")] := by simpa using hentry
  exact ⟨"x", ⟨by decide, by decide⟩, by rw [hx]; rfl⟩

/-- A user joins a group with its creation and leaves it by a PATCH. -/
theorem getGroup_refines_sample :
    ∃ s m, Runs sampleEnv s m ∧ s.groups ≠ [] ∧
      (m "x" = none → ∃ e, serve sampleEnv sampleTicks (.getGroup "x") s = (.error e, s)) ∧
      ∀ users, m "x" = some users → ∃ rep,
        serve sampleEnv sampleTicks (.getGroup "x") s = (.ok ⟨200, .group rep⟩, s) ∧
          Shows sampleEnv s users rep := by
  have hadmissible : Admissible (.patchGroup "x" [some (membersOperation "remove" ["x"])]) := by
    intro o ho
    have hsame : o = membersOperation "remove" ["x"] := by simpa using ho
    rw [hsame]
    exact admitted_sample
  have huser := @Runs.serve sampleEnv _ _ _ sampleTicks
    (.createUser "salt" ⟨"ann", .undefined, .undefined, .undefined, .undefined, .undefined⟩) _
    .empty trivial rfl
  have hgroup := huser.serve sampleTicks
    (.createGroup ⟨"staff", .undefined, .value [some ⟨some "x", .undefined⟩]⟩) _ trivial rfl
  have hpatch := hgroup.serve sampleTicks _ _ hadmissible rfl
  exact ⟨_, _, hpatch, by decide, getGroup_refines hpatch "x" sampleTicks⟩

end Runs

end OktaScim.MembershipRefinement
