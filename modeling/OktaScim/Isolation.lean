import OktaScim.ConcurrentStore
import OktaScim.ListPages
import OktaScim.RowChanges

/-!
Requests that do not name a resource leave it alone, whatever else is going on.
While only they are served, in any interleaving, the resource keeps its row and
every request that reads it, by its id or by its name, is answered with it.
-/
namespace OktaScim.Isolation

open Programs Interleavings Schema KeyedRows PrismaClient PrismaConstraints ScimFilter
open Representations Requests RequestPrograms ConcurrentStore ListPages RelyGuarantee RowChanges

variable {ι : Type} [DecidableEq ι] {env : Env} {request : ι → Request}

section Pages

/-- A page that starts at the first resource and has room for it. -/
structure HoldsFirst (pagination : Pagination) : Prop where
  pageable : Pageable pagination
  skip : ⌊pagination.skip⌋₊ = 0
  count : 1 ≤ ⌊pagination.count⌋₊

theorem HoldsFirst.window {α : Type} {pagination : Pagination} (h : HoldsFirst pagination) (x : α) :
    window pagination.skip pagination.count [x] = .ok [x] := by
  rw [window_eq, if_pos h.pageable, pageOf, h.skip, List.drop_zero,
    List.take_of_length_le (l := [x]) h.count]

end Pages

section Users

/-- A request that reads the user by its id or by its name, and its answer. -/
inductive ReadsUser (env : Env) (row : ScimUser) : Request → Answer → Prop
  | byId : ReadsUser env row (.getUser row.id) (userAnswer env 200 row)
  | byName {filter : Option String} {pagination : Pagination} :
    UsersService.listWhere (parseEqFilter filter) "userName" = some row.userName →
    HoldsFirst pagination →
    ReadsUser env row (.listUsers filter pagination)
      ⟨200, .userList ⟨[SCIM_LIST_RESPONSE_SCHEMA], 1, pagination.startIndex, 1,
        [toScimUser row env.baseUrl]⟩⟩

/-- The user is stored with this row. -/
def Stores (row : ScimUser) (s : Store) : Prop := s.Valid ∧ s.user row.id = some row

theorem stores_guaranteed (E : Engine) (row : ScimUser) :
    Guarantees (exec E) (fun _ _ => True) (fun c => ¬CallWritesUser row.id c) (Stores row) := by
  rintro t c s r s' _ hc ⟨hs, hrow⟩ h
  exact ⟨exec_keeps_valid E t c s r s' hs h, (exec_userChange h row.id).keeps hc hrow⟩

/-- The name of a user selects its row and no other. -/
theorem matchingUsers_name {s : Store} {row : ScimUser} (h : Stores row s) :
    matchingUsers (some row.userName) s = [row] := by
  obtain ⟨hs, hrow⟩ := h
  have hmem : row ∈ s.users := mem_of_findRow hrow
  have hnodup : (s.users.filter fun u => u.userName = row.userName).Nodup :=
    (hs.userNames.of_map _).filter _
  refine List.perm_singleton.mp ((List.perm_ext_iff_of_nodup hnodup (List.nodup_singleton row)).mpr
    fun u => ?_)
  rw [List.mem_filter, List.mem_singleton, decide_eq_true_eq]
  constructor
  · rintro ⟨hu, hname⟩
    exact List.inj_on_of_nodup_map hs.userNames hu hmem hname
  · rintro rfl
    exact ⟨hmem, rfl⟩

theorem readsUser_relies {row : ScimUser} {r : Request} {a : Answer} (h : ReadsUser env row r a) :
    Relies (exec env.engine) (Stores row) (fun res => res = .ok a) (r.handle env) := by
  cases h with
  | byId =>
    rw [handle_getUser]
    refine ⟨fun t s found s' hs _ hexec => ?_, fun t s e hs hexec => by cases hexec⟩
    cases hexec
    rw [hs.2]
    rfl
  | @byName filter pagination hfilter hpage =>
    have hlist : ∀ t s, Stores row s → exec env.engine t (.userList (some row.userName)
        pagination.skip pagination.count) s = .ok ((1, [row]), s) := by
      intro t s hs
      simp only [exec, userList, matchingUsers_name hs, List.insertionSort_cons,
        List.insertionSort_nil, List.orderedInsert_nil, hpage.window row]
      rfl
    rw [handle_listUsers, hfilter]
    refine ⟨fun t s found s' hs _ hexec => ?_, fun t s e hs hexec => ?_⟩
    · rw [hlist t s hs] at hexec
      cases hexec
      rfl
    · rw [hlist t s hs] at hexec
      cases hexec

/-- While no request that names the user is served, its row stays and is read. -/
theorem user_isolated {s : Store} (hs : s.Valid) {cfg cfg' : Clients ι} {row : ScimUser}
    (hcfg : Served env request s cfg) (hrow : cfg.store.user row.id = some row)
    (h : Meanwhile env request (fun i => ¬WritesUser row.id (request i)) cfg cfg') :
    cfg'.store.user row.id = some row ∧ ∀ i a res, ReadsUser env row (request i) a →
      cfg.threads i = none → cfg'.answered i = some res → res = .ok a := by
  have hstores : Stores row cfg.store :=
    ⟨reaches_keeps (exec env.engine) _ (exec_keeps_valid env.engine) hs hcfg, hrow⟩
  have hspares : ∀ r c, ¬WritesUser row.id r → Issues env r c → ¬CallWritesUser row.id c :=
    fun r c hr hc hw => hr (hc.within.users _ hw)
  obtain ⟨hprog, hinit⟩ := acting_makes hspares hcfg
  have hG := stores_guaranteed env.engine row
  refine ⟨(reaches_guarantees hprog hinit hG hstores h).2, fun i a res hreads hi hres => ?_⟩
  exact reaches_relies hprog hinit hG hstores (readsUser_relies hreads) hi h hres

/-- A user is read while it joins a group. -/
def joinAndRead : Bool → Request
  | true => .patchGroup "g" [some (membersOperation "add" ["u"])]
  | false => .getUser "u"

theorem user_isolated_sample :
    ∃ cfg' : Clients Bool, cfg'.store.members = [⟨"g", "u"⟩] ∧
      cfg'.store.user "u" = some (sampleUser "u" "ann") ∧ ∀ i a res,
        ReadsUser sampleEnv (sampleUser "u" "ann") (joinAndRead i) a →
        (Config.initial sampleStore : Clients Bool).threads i = none →
        cfg'.answered i = some res → res = .ok a := by
  have hacts : ∀ i, ¬WritesUser "u" (joinAndRead i) := by
    intro i hi
    cases i <;> exact hi
  have h₀ : Meanwhile sampleEnv joinAndRead (fun i => ¬WritesUser "u" (joinAndRead i))
      (Config.initial sampleStore) (Config.initial sampleStore) := .refl
  have h₁ := h₀.tail (e := .start true) (hacts true) rfl
  have h₂ := h₁.tail (e := .call true (sampleTick "x" 1)) ⟨hacts true, trivial⟩ rfl
  have h₃ := h₂.tail (e := .start false) (hacts false) rfl
  have h₄ := h₃.tail (e := .call true (sampleTick "x" 2)) ⟨hacts true, trivial⟩ rfl
  have h₅ := h₄.tail (e := .call false (sampleTick "x" 3)) ⟨hacts false, trivial⟩ rfl
  exact ⟨_, rfl, @user_isolated Bool _ sampleEnv joinAndRead sampleStore sampleStore_valid _ _
    (sampleUser "u" "ann") .refl rfl h₅⟩

end Users

section Groups

/-- A request that reads the group by its id or by its name, and its answer. -/
inductive ReadsGroup (env : Env) (shown : GroupWithMembers) : Request → Answer → Prop
  | byId : ReadsGroup env shown (.getGroup shown.group.id) (groupAnswer env 200 shown)
  | byName {filter : Option String} {pagination : Pagination} :
    UsersService.listWhere (parseEqFilter filter) "displayName" = some shown.group.displayName →
    HoldsFirst pagination →
    ReadsGroup env shown (.listGroups filter pagination)
      ⟨200, .groupList ⟨[SCIM_LIST_RESPONSE_SCHEMA], 1, pagination.startIndex, 1,
        [toScimGroup shown env.baseUrl]⟩⟩

/-- The group is stored with this row, these memberships and their users. -/
structure StoresGroup (row : ScimGroup) (rows : List ScimGroupMember)
    (users : String → Option ScimUser) (s : Store) : Prop where
  valid : s.Valid
  found : s.group row.id = some row
  listed : memberRows s row.id = rows
  joined : ∀ m ∈ rows, (s.user m.userId).isSome = true ∧ s.user m.userId = users m.userId

/-- Neither the group nor one of its members is written to. -/
def SparesGroup (row : ScimGroup) (rows : List ScimGroupMember) (c : Call) : Prop :=
  ¬CallWritesGroup row.id c ∧ ∀ m ∈ rows, ¬CallWritesUser m.userId c

theorem storesGroup_guaranteed (E : Engine) (row : ScimGroup) (rows : List ScimGroupMember)
    (users : String → Option ScimUser) :
    Guarantees (exec E) (fun _ _ => True) (SparesGroup row rows) (StoresGroup row rows users) := by
  rintro t c s r s' _ ⟨hg, hu⟩ hs h
  have hgroup : (s.group row.id).isSome = true := by
    rw [hs.found]
    rfl
  refine ⟨exec_keeps_valid E t c s r s' hs.valid h, (exec_groupChange h row.id).keeps hg hs.found,
    ?_, fun m hm => ?_⟩
  · rw [exec_memberRows h hgroup hg (by rw [hs.listed]; exact hu), hs.listed]
  · obtain ⟨hsome, hsame⟩ := hs.joined m hm
    obtain ⟨u, huser⟩ := Option.isSome_iff_exists.mp hsome
    have hkept := (exec_userChange h m.userId).keeps (hu m hm) huser
    rw [hkept]
    exact ⟨rfl, huser.symm.trans hsame⟩

/-- The representation of the group depends on nothing else. -/
theorem withMembers_of_stores {row : ScimGroup} {rows : List ScimGroupMember}
    {users : String → Option ScimUser} {s s' : Store} (hs : StoresGroup row rows users s)
    (hs' : StoresGroup row rows users s') : withMembers s' row = withMembers s row := by
  have hrows : memberRows s' row.id = memberRows s row.id := hs'.listed.trans hs.listed.symm
  unfold withMembers
  change GroupWithMembers.mk row ((memberRows s' row.id).filterMap _) =
    GroupWithMembers.mk row ((memberRows s row.id).filterMap _)
  rw [hrows, hs.listed]
  refine congrArg (GroupWithMembers.mk row) (List.filterMap_congr fun m hm => ?_)
  rw [(hs.joined m hm).2, (hs'.joined m hm).2]

theorem matchingGroups_name {s : Store} {row : ScimGroup} (hs : s.Valid)
    (hrow : s.group row.id = some row) : matchingGroups (some row.displayName) s = [row] := by
  have hmem : row ∈ s.groups := mem_of_findRow hrow
  have hnodup : (s.groups.filter fun g => g.displayName = row.displayName).Nodup :=
    (hs.displayNames.of_map _).filter _
  refine List.perm_singleton.mp ((List.perm_ext_iff_of_nodup hnodup (List.nodup_singleton row)).mpr
    fun g => ?_)
  rw [List.mem_filter, List.mem_singleton, decide_eq_true_eq]
  constructor
  · rintro ⟨hg, hname⟩
    exact List.inj_on_of_nodup_map hs.displayNames hg hmem hname
  · rintro rfl
    exact ⟨hmem, rfl⟩

theorem readsGroup_relies {row : ScimGroup} {rows : List ScimGroupMember}
    {users : String → Option ScimUser} {s₀ : Store} (hs₀ : StoresGroup row rows users s₀)
    {r : Request} {a : Answer} (h : ReadsGroup env (withMembers s₀ row) r a) :
    Relies (exec env.engine) (StoresGroup row rows users) (fun res => res = .ok a)
      (r.handle env) := by
  cases h with
  | byId =>
    rw [handle_getGroup]
    refine ⟨fun t s found s' hs _ hexec => ?_, fun t s e hs hexec => by cases hexec⟩
    cases hexec
    have hrow : s.group (withMembers s₀ row).group.id = some row := hs.found
    rw [hrow, Option.map_some, withMembers_of_stores hs₀ hs]
    rfl
  | @byName filter pagination hfilter hpage =>
    have hlist : ∀ t s, StoresGroup row rows users s → exec env.engine t (.groupList
        (some (withMembers s₀ row).group.displayName) pagination.skip pagination.count) s =
          .ok ((1, [withMembers s₀ row]), s) := by
      intro t s hs
      have hmatching := matchingGroups_name hs.valid hs.found
      have hname : (withMembers s₀ row).group.displayName = row.displayName := rfl
      rw [hname]
      simp only [exec, groupList, hmatching, List.insertionSort_cons, List.insertionSort_nil,
        List.orderedInsert_nil, hpage.window row, List.map_cons, List.map_nil,
        withMembers_of_stores hs₀ hs]
      rfl
    rw [handle_listGroups, hfilter]
    refine ⟨fun t s found s' hs _ hexec => ?_, fun t s e hs hexec => ?_⟩
    · rw [hlist t s hs] at hexec
      cases hexec
      rfl
    · rw [hlist t s hs] at hexec
      cases hexec

/-- While no request that names the group or one of its members is served, the
group keeps its row and its members, and is read with them. -/
theorem group_isolated {s : Store} (hs : s.Valid) {cfg cfg' : Clients ι} {row : ScimGroup}
    (hcfg : Served env request s cfg) (hrow : cfg.store.group row.id = some row)
    (h : Meanwhile env request (fun i => ¬WritesGroup row.id (request i) ∧
      ∀ u ∈ cfg.store.memberIds row.id, ¬WritesUser u (request i)) cfg cfg') :
    cfg'.store.group row.id = some row ∧ withMembers cfg'.store row = withMembers cfg.store row ∧
      ∀ i a res, ReadsGroup env (withMembers cfg.store row) (request i) a →
        cfg.threads i = none → cfg'.answered i = some res → res = .ok a := by
  have hvalid := reaches_keeps (exec env.engine) _ (exec_keeps_valid env.engine) hs hcfg
  have hstores : StoresGroup row (memberRows cfg.store row.id) cfg.store.user cfg.store :=
    ⟨hvalid, hrow, rfl, fun m hm => ⟨hvalid.memberUser m (List.mem_filter.mp hm).1, rfl⟩⟩
  have hspares : ∀ r c, (¬WritesGroup row.id r ∧
      ∀ u ∈ cfg.store.memberIds row.id, ¬WritesUser u r) → Issues env r c →
        SparesGroup row (memberRows cfg.store row.id) c := by
    rintro r c ⟨hg, hu⟩ hc
    refine ⟨fun hw => hg (hc.within.groups _ hw), fun m hm hw =>
      hu m.userId ?_ (hc.within.users _ hw)⟩
    obtain ⟨hmem, hmg⟩ := List.mem_filter.mp hm
    rw [Store.mem_memberIds, ← of_decide_eq_true hmg]
    exact hmem
  obtain ⟨hprog, hinit⟩ := acting_makes hspares hcfg
  have hG := storesGroup_guaranteed env.engine row (memberRows cfg.store row.id) cfg.store.user
  have hstores' := reaches_guarantees hprog hinit hG hstores h
  refine ⟨hstores'.found, withMembers_of_stores hstores hstores', fun i a res hreads hi hres => ?_⟩
  exact reaches_relies hprog hinit hG hstores (readsGroup_relies hstores hreads) hi h hres

/-- A user who is in no group is deleted while a group is read. -/
def leaveAndRead : Bool → Request
  | true => .deleteUser "v"
  | false => .getGroup "g"

def staffedStore : Store :=
  ⟨[sampleUser "u" "ann", sampleUser "v" "bob"], [sampleGroup "g" "staff"], [⟨"g", "u"⟩]⟩

theorem staffedStore_valid : staffedStore.Valid where
  userIds := by decide
  userNames := by decide
  groupIds := by decide
  displayNames := by decide
  memberPairs := by decide
  memberGroup := by decide
  memberUser := by decide

theorem group_isolated_sample :
    ∃ cfg' : Clients Bool, cfg'.store.users = [sampleUser "u" "ann"] ∧
      cfg'.store.group "g" = some (sampleGroup "g" "staff") ∧
      withMembers cfg'.store (sampleGroup "g" "staff") =
        withMembers staffedStore (sampleGroup "g" "staff") ∧ ∀ i a res,
          ReadsGroup sampleEnv (withMembers staffedStore (sampleGroup "g" "staff"))
            (leaveAndRead i) a →
          (Config.initial staffedStore : Clients Bool).threads i = none →
          cfg'.answered i = some res → res = .ok a := by
  have hacts : ∀ i, ¬WritesGroup "g" (leaveAndRead i) ∧
      ∀ u ∈ staffedStore.memberIds "g", ¬WritesUser u (leaveAndRead i) := by
    intro i
    cases i with
    | true =>
      refine ⟨fun h => h, fun u hu hw => ?_⟩
      cases hw
      exact absurd hu (by decide)
    | false => exact ⟨fun h => h, fun u _ h => h⟩
  have h₀ : Meanwhile sampleEnv leaveAndRead (fun i => ¬WritesGroup "g" (leaveAndRead i) ∧
      ∀ u ∈ staffedStore.memberIds "g", ¬WritesUser u (leaveAndRead i))
      (Config.initial staffedStore) (Config.initial staffedStore) := .refl
  have h₁ := h₀.tail (e := .start true) (hacts true) rfl
  have h₂ := h₁.tail (e := .call true (sampleTick "x" 1)) ⟨hacts true, trivial⟩ rfl
  have h₃ := h₂.tail (e := .start false) (hacts false) rfl
  have h₄ := h₃.tail (e := .call true (sampleTick "x" 2)) ⟨hacts true, trivial⟩ rfl
  have h₅ := h₄.tail (e := .call false (sampleTick "x" 3)) ⟨hacts false, trivial⟩ rfl
  exact ⟨_, rfl, @group_isolated Bool _ sampleEnv leaveAndRead staffedStore staffedStore_valid _ _
    (sampleGroup "g" "staff") .refl rfl h₅⟩

end Groups

end OktaScim.Isolation
