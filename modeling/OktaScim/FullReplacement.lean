import OktaScim.UserUpdates
import OktaScim.GroupUpdates

/-!
PUT as a replacement. The same body is put over two old versions of a
resource; what reaches the database as `undefined` is kept from the old version,
so the two new versions are equal exactly when the old ones agree on it.
-/
namespace OktaScim.FullReplacement

open Schema JsValues PrismaClient Bodies Representations Requests RequestPrograms
open UserUpdates GroupUpdates

structure UserAttributes : Type where
  userName : String
  externalId : Option String
  givenName : Option String
  familyName : Option String
  emails : List EmailRep
  active : Bool

/-- The attributes of a user that a client can set and read. -/
def userAttributes (u : ScimUser) : UserAttributes where
  userName := (toScimUser u "").userName
  externalId := (toScimUser u "").externalId
  givenName := (toScimUser u "").givenName
  familyName := (toScimUser u "").familyName
  emails := (toScimUser u "").emails
  active := (toScimUser u "").active

structure GroupAttributes : Type where
  displayName : String
  externalId : Option String
  members : List MemberRep

def groupAttributes (s : Store) (g : ScimGroup) : GroupAttributes where
  displayName := (toScimGroup (withMembers s g) "").displayName
  externalId := (toScimGroup (withMembers s g) "").externalId
  members := (toScimGroup (withMembers s g) "").members

/-- The two users agree on every attribute that is `undefined` for the database:
one that the body leaves out, the parts of a name that is null, and the address
of emails that are null, empty or without a value in front. -/
structure UserOmissionsAgree (dto : UpdateScimUserDto) (u v : ScimUser) : Prop where
  externalId : dto.externalId = .undefined → u.externalId = v.externalId
  givenName : ScimNameDto.givenNameOf dto.name = .undefined → u.givenName = v.givenName
  familyName : ScimNameDto.familyNameOf dto.name = .undefined → u.familyName = v.familyName
  emails : firstEmail dto.emails = .undefined →
    (toScimUser u "").emails = (toScimUser v "").emails

/-- The old row of the user or group with the given id agrees in both stores
on every attribute that the body keeps. -/
def OldUsersAgree (id : String) (dto : UpdateScimUserDto) (s t : Store) : Prop :=
  ∀ u v, s.user id = some u → t.user id = some v → UserOmissionsAgree dto u v

def OldGroupsAgree (id : String) (dto : UpdateScimGroupDto) (s t : Store) : Prop :=
  ∀ g k, s.group id = some g → t.group id = some k →
    dto.externalId = .undefined → g.externalId = k.externalId

section Users

theorem emails_apply_eq_iff (dto : UpdateScimUserDto) (hash hash' : String → String)
    (now now' : ℕ) (u v : ScimUser) :
    (toScimUser ((replacement hash dto).apply now u) "").emails =
        (toScimUser ((replacement hash' dto).apply now' v) "").emails ↔
      (firstEmail dto.emails = .undefined →
        (toScimUser u "").emails = (toScimUser v "").emails) := by
  cases hemail : firstEmail dto.emails <;>
    simp [toScimUser, replacement, UserUpdate.apply, writeColumn, hemail]

theorem userAttributes_apply_eq_iff (dto : UpdateScimUserDto) (hash hash' : String → String)
    (now now' : ℕ) (u v : ScimUser) :
    userAttributes ((replacement hash dto).apply now u) =
        userAttributes ((replacement hash' dto).apply now' v) ↔ UserOmissionsAgree dto u v := by
  have hemails := emails_apply_eq_iff dto hash hash' now now' u v
  have hext := writeColumn_eq_iff dto.externalId u.externalId v.externalId
  have hgiven := writeColumn_eq_iff (ScimNameDto.givenNameOf dto.name) u.givenName v.givenName
  have hfamily :=
    writeColumn_eq_iff (ScimNameDto.familyNameOf dto.name) u.familyName v.familyName
  constructor
  · intro h
    simp only [userAttributes, UserAttributes.mk.injEq] at h
    obtain ⟨_, he, hg, hf, hm, _⟩ := h
    exact ⟨hext.mp he, hgiven.mp hg, hfamily.mp hf, hemails.mp hm⟩
  · intro h
    simp only [userAttributes, UserAttributes.mk.injEq]
    exact ⟨rfl, hext.mpr h.externalId, hgiven.mpr h.givenName, hfamily.mpr h.familyName,
      hemails.mpr h.emails, rfl⟩

end Users

section Groups

variable {now now' : ℕ} {id : String} {dto : UpdateScimGroupDto} {userIds : List String}
  {s s' t t' : Store}

/-- The members of a group that was replaced are read from the listed ids. -/
theorem members_of_replaced (h : Replaced now id dto userIds s s') (g : ScimGroup)
    (hg : g.id = id) :
    (groupAttributes s' g).members =
      userIds.filterMap fun u => (s.user u).map fun v => ⟨v.id, v.userName⟩ := by
  have huser : ∀ u, s'.user u = s.user u := fun u => by
    unfold Store.user
    rw [h.users]
  simp only [groupAttributes, toScimGroup, withMembers, hg]
  rw [h.own_members, List.filterMap_map, List.map_filterMap]
  congr 1
  funext u
  simp only [Function.comp_apply, huser, Option.map_map]
  rfl

theorem groupAttributes_replaced_eq_iff (hs : Replaced now id dto userIds s s')
    (ht : Replaced now' id dto userIds t t') (husers : s.users = t.users) (g k : ScimGroup)
    (hg : g.id = id) (hk : k.id = id) :
    groupAttributes s' (updateGroup now (some dto.displayName) dto.externalId g) =
        groupAttributes t' (updateGroup now' (some dto.displayName) dto.externalId k) ↔
      (dto.externalId = .undefined → g.externalId = k.externalId) := by
  have hext := writeColumn_eq_iff dto.externalId g.externalId k.externalId
  have hmembers : (groupAttributes s'
        (updateGroup now (some dto.displayName) dto.externalId g)).members =
      (groupAttributes t'
        (updateGroup now' (some dto.displayName) dto.externalId k)).members := by
    rw [members_of_replaced hs (updateGroup _ _ _ g) hg,
      members_of_replaced ht (updateGroup _ _ _ k) hk]
    unfold Store.user
    rw [husers]
  constructor
  · intro h
    exact hext.mp (congrArg GroupAttributes.externalId h)
  · intro h
    have hcolumn := hext.mpr h
    simp only [groupAttributes, GroupAttributes.mk.injEq] at hmembers ⊢
    exact ⟨rfl, hcolumn, hmembers⟩

end Groups

/-- The same PUT over two stores leaves the resource with the same attributes
exactly when the old versions agree on the attributes it keeps. The stores of a
group's PUT hold the same users. -/
theorem put_replaces_iff (env : Env) :
    (∀ (salt salt' id : String) (dto : UpdateScimUserDto) (ticks ticks' : ℕ → Tick)
      (s s' t t' : Store) (a b : Answer),
      serve env ticks (.replaceUser salt id dto) s = (.ok a, s') →
      serve env ticks' (.replaceUser salt' id dto) t = (.ok b, t') →
      ((s'.user id).map userAttributes = (t'.user id).map userAttributes ↔
        OldUsersAgree id dto s t)) ∧
    (∀ (id : String) (dto : UpdateScimGroupDto) (ticks ticks' : ℕ → Tick)
      (s s' t t' : Store) (a b : Answer), s.users = t.users →
      serve env ticks (.replaceGroup id dto) s = (.ok a, s') →
      serve env ticks' (.replaceGroup id dto) t = (.ok b, t') →
      ((s'.group id).map (groupAttributes s') = (t'.group id).map (groupAttributes t') ↔
        OldGroupsAgree id dto s t)) := by
  constructor
  · intro salt salt' id dto ticks ticks' s s' t t' a b hs ht
    obtain ⟨u, hu, hu'⟩ := replaceUser_ok hs
    obtain ⟨v, hv, hv'⟩ := replaceUser_ok ht
    rw [hu', hv', Option.map_some, Option.map_some, Option.some.injEq,
      userAttributes_apply_eq_iff]
    simp only [OldUsersAgree, hu, hv, Option.some.injEq, forall_eq', forall_apply_eq_imp_iff]
  · intro id dto ticks ticks' s s' t t' a b husers hs ht
    obtain ⟨ms, userIds, g, hms, hids, hg, hrs, _⟩ := replaceGroup_ok hs
    obtain ⟨ns, userIds', k, hns, hids', hk, hrt, _⟩ := replaceGroup_ok ht
    cases hms.symm.trans hns
    cases hids.symm.trans hids'
    rw [hrs.group, hrt.group, if_pos rfl, if_pos rfl, hg, hk]
    simp only [Option.map_some, Option.some.injEq]
    rw [groupAttributes_replaced_eq_iff hrs hrt husers g k (KeyedRows.key_of_findRow hg)
      (KeyedRows.key_of_findRow hk)]
    simp only [OldGroupsAgree, hg, hk, Option.some.injEq, forall_eq', forall_apply_eq_imp_iff]

/-- A body with nothing but the user name. -/
def nameOnly : UpdateScimUserDto :=
  ⟨"ann", .undefined, .undefined, .undefined, .undefined, .undefined⟩

/-- A store with one user of the given external id. -/
def storeWithExternalId (externalId : String) : Store :=
  ⟨[{ sampleUser "u" "ann" with externalId := some externalId }], [], []⟩

/-- A body with every attribute. -/
def allSent : UpdateScimUserDto :=
  ⟨"ann", .value "e3", .value ⟨.value "Ann", .null⟩,
    .value [some ⟨.value "ann@example.com", .undefined, .undefined⟩], .value false, .undefined⟩

/-- A store with one user and one group, which is empty or has the user in it. -/
def storeWithGroup (externalId : String) (members : List ScimGroupMember) : Store :=
  ⟨[sampleUser "u" "ann"], [{ sampleGroup "g" "staff" with externalId := some externalId }],
    members⟩

/-- Bodies with every attribute replace all that is different in two stores. -/
theorem put_replaces_iff_sample :
    (∃ a s' b t',
      serve sampleEnv sampleTicks (.replaceUser "salt" "u" allSent) (storeWithExternalId "e1") =
        (.ok a, s') ∧
      serve sampleEnv sampleTicks (.replaceUser "salt" "u" allSent) (storeWithExternalId "e2") =
        (.ok b, t') ∧
      (s'.user "u").map userAttributes = (t'.user "u").map userAttributes) ∧
    ∃ a s' b t',
      serve sampleEnv sampleTicks (.replaceGroup "g" ⟨"crew", .value "e3", .value []⟩)
        (storeWithGroup "e1" []) = (.ok a, s') ∧
      serve sampleEnv sampleTicks (.replaceGroup "g" ⟨"crew", .value "e3", .value []⟩)
        (storeWithGroup "e2" [⟨"g", "u"⟩]) = (.ok b, t') ∧
      (s'.group "g").map (groupAttributes s') = (t'.group "g").map (groupAttributes t') := by
  refine ⟨⟨_, _, _, _, rfl, rfl, ?_⟩, _, _, _, _, rfl, rfl, ?_⟩
  · refine ((put_replaces_iff sampleEnv).1 "salt" "salt" "u" allSent sampleTicks sampleTicks
      (storeWithExternalId "e1") _ (storeWithExternalId "e2") _ _ _ rfl rfl).mpr fun u v _ _ => ?_
    constructor <;> exact fun h => nomatch h
  · exact ((put_replaces_iff sampleEnv).2 "g" ⟨"crew", .value "e3", .value []⟩ sampleTicks
      sampleTicks (storeWithGroup "e1" []) _ (storeWithGroup "e2" [⟨"g", "u"⟩]) _ _ _ rfl rfl
      rfl).mpr fun g k _ _ h => nomatch h

/-- The external id that the body leaves out survives the PUT. -/
theorem externalId_survives_put :
    ∃ a s' b t',
      serve sampleEnv sampleTicks (.replaceUser "salt" "u" nameOnly) (storeWithExternalId "e1") =
        (.ok a, s') ∧
      serve sampleEnv sampleTicks (.replaceUser "salt" "u" nameOnly) (storeWithExternalId "e2") =
        (.ok b, t') ∧
      (s'.user "u").map userAttributes ≠ (t'.user "u").map userAttributes := by
  refine ⟨_, _, _, _, rfl, rfl, fun h => ?_⟩
  have hext := congrArg (Option.map UserAttributes.externalId) h
  exact absurd hext (by decide)

end OktaScim.FullReplacement
