import OktaScim.UserUpdates
import OktaScim.UserPatchMeaning

/-!
PUT of a user against PATCH with the same body as the value of one operation.
The patch is first computed from the body's fields as validation has read them.
-/
namespace OktaScim.PutPatchAgreement

open Programs Schema KeyedRows JsValues PrismaClient PrismaConstraints Bodies UserPatch
open Requests RequestPrograms UserUpdates UserPatchMeaning

section Translation

theorem readString_data {v : Option Json} {x : Nullable String} (h : readString v = some x) :
    x.toData .str = v := by
  unfold readString at h
  split at h
  · cases h
    rfl
  · cases h
    rfl
  · cases h
    rfl
  · cases h

theorem stringField_data {v : Json} {k : String} (h : (readString (v.get k)).isSome = true) :
    (stringField v k).toData .str = v.get k := by
  obtain ⟨x, hx⟩ := Option.isSome_iff_exists.mp h
  simpa only [stringField, hx, Option.getD_some] using readString_data hx

/-- An array has none of the named properties. -/
theorem stringField_arr (items : List Json) (k : String) :
    stringField (.arr items) k = .undefined := rfl

theorem readName_data {v : Option Json} {name : Nullable ScimNameDto}
    (h : readName v = some name) :
    (ScimNameDto.givenNameOf name).toData .str = (v.bind fun n => n.get "givenName") ∧
      (ScimNameDto.familyNameOf name).toData .str = (v.bind fun n => n.get "familyName") := by
  unfold readName at h
  split at h
  · cases h
    exact ⟨rfl, rfl⟩
  · cases h
    exact ⟨rfl, rfl⟩
  · rename_i w _
    split at h
    · rename_i hok
      cases h
      cases w with
      | obj fields =>
        rw [nestedOk, nameOk, Bool.and_eq_true] at hok
        exact ⟨stringField_data hok.1, stringField_data hok.2⟩
      | arr items => exact ⟨rfl, rfl⟩
      | null => contradiction
      | bool b => simp [nestedOk] at hok
      | num n => simp [nestedOk] at hok
      | str t => simp [nestedOk] at hok
    · contradiction

/-- What the object form of a PATCH makes of `emails`. -/
def patchedEmail (v : Json) : Option (Option Json) :=
  match v.get "emails" with
  | some (.arr (.null :: _)) => none
  | some (.arr (first :: _)) => some (first.get "value")
  | _ => some none

theorem patchedEmail_of_read {v : Json} (dto : UpdateScimUserDto)
    (h : readEmails (v.get "emails") = some dto.emails) :
    patchedEmail v = some ((firstEmail dto.emails).toData .str) := by
  unfold patchedEmail
  cases hget : v.get "emails" with
  | none =>
    rw [hget] at h
    rw [← Option.some.inj h]
    simp [firstEmail, Nullable.toData]
  | some w =>
    rw [hget] at h
    cases w with
    | null =>
      rw [← Option.some.inj h]
      simp [firstEmail, Nullable.toData]
    | arr items =>
      simp only [readEmails] at h
      split at h
      · rename_i hok
        rw [← Option.some.inj h]
        cases items with
        | nil => simp [firstEmail, Nullable.toData]
        | cons first rest =>
          rw [allNestedOk, Bool.and_eq_true] at hok
          cases first with
          | null => simp [nestedOk] at hok
          | obj fields =>
            have hvalue : (readString ((Json.obj fields).get "value")).isSome = true := by
              have hfirst := hok.1
              rw [nestedOk, emailOk, Bool.and_eq_true, Bool.and_eq_true] at hfirst
              exact hfirst.1.1
            have hdata := stringField_data hvalue
            simp [emailOf, firstEmail, hdata]
          | arr inner => simp [emailOf, firstEmail, stringField_arr, Nullable.toData, Json.get]
          | bool b => simp [nestedOk] at hok
          | num n => simp [nestedOk] at hok
          | str t => simp [nestedOk] at hok
      · contradiction
    | bool b => simp [readEmails] at h
    | num n => simp [readEmails] at h
    | str t => simp [readEmails] at h
    | obj fields => simp [readEmails] at h

/-- `String()` of a property that validation lets through. -/
def patchedString : Nullable String → Option String
  | .undefined => none
  | .null => some "null"
  | .value s => some s

theorem assignString_of_read {v : Json} {k : String} {x : Nullable String}
    (h : readString (v.get k) = some x) :
    assignString v k none = some (patchedString x) := by
  have hdata := readString_data h
  cases x with
  | undefined =>
    have hget : v.get k = none := hdata.symm
    simp [assignString, Json.has, hget, patchedString]
  | null =>
    have hget : v.get k = some .null := hdata.symm
    simp [assignString, Json.has, hget, patchedString, jsString, Json.toStr]
  | value s =>
    have hget : v.get k = some (.str s) := hdata.symm
    simp [assignString, Json.has, hget, patchedString, jsString]

/-- `Boolean()` of a property that validation lets through. -/
theorem toBoolean_of_read {v : Option Json} {x : Nullable Bool} (h : readBoolean v = some x) :
    toBoolean v = x.orElse false := by
  unfold readBoolean at h
  split at h <;> cases h <;> rfl

/-- The operation without a path that takes a whole body as its value. -/
def replaceOperation (body : Json) : PatchOperation := ⟨some "replace", none, some body⟩

/-- The object form, applied to no fields. -/
theorem applyValueObject_initial (v : Json) :
    applyValueObject ⟨none, none, none, none, none, none⟩ v =
      (assignString v "userName" none).bind fun userName =>
        (assignString v "externalId" none).bind fun externalId =>
          (patchedEmail v).map fun email =>
            { active := if v.has "active" then some (toBoolean (v.get "active")) else none
              userName := userName
              givenName := (v.get "name").bind fun n => n.get "givenName"
              familyName := (v.get "name").bind fun n => n.get "familyName"
              email := email
              externalId := externalId } := by
  have hemail : patchedEmail v = entryEmail (v.get "emails") none := rfl
  rw [applyValueObject_eq, hemail]
  simp only [Option.or_none]
  refine congrArg _ (funext fun userName => congrArg _ (funext fun externalId => ?_))
  cases entryEmail (v.get "emails") none <;> rfl

theorem applyUserPatch_replaceOperation (fields : List (String × Json)) :
    applyUserPatch [some (replaceOperation (.obj fields))] =
      applyValueObject ⟨none, none, none, none, none, none⟩ (.obj fields) :=
  Option.bind_fun_some _

theorem assignString_some {v : Json} {k t : String} (h : v.get k = some (.str t)) :
    assignString v k none = some (some t) := by
  simp [assignString, Json.has, h, jsString]

/-- The fields that the one operation sets, for a body that names `active`. -/
def patchedFields (dto : UpdateScimUserDto) : UserPatchFields where
  active := some (dto.active.orElse false)
  userName := some dto.userName
  givenName := (ScimNameDto.givenNameOf dto.name).toData .str
  familyName := (ScimNameDto.familyNameOf dto.name).toData .str
  email := (firstEmail dto.emails).toData .str
  externalId := patchedString dto.externalId

theorem applyUserPatch_of_dto {body : Json} {dto : UpdateScimUserDto}
    (h : readUserDto body = some dto) (hactive : body.has "active" = true) :
    applyUserPatch [some (replaceOperation body)] = some (patchedFields dto) := by
  unfold readUserDto at h
  split at h
  · rename_i fields
    split at h
    · rename_i userName hname
      split at h
      · simp only [Option.bind_eq_bind, Option.bind_eq_some_iff] at h
        obtain ⟨externalId, hext, name, hnames, emails, hemails, active, hact, password, _,
          hdto⟩ := h
        cases hdto
        have hemail := patchedEmail_of_read ⟨userName, externalId, name, emails, active, password⟩
          hemails
        have hpatch := applyUserPatch_replaceOperation fields
        rw [applyValueObject_initial, assignString_some hname, assignString_of_read hext, hactive,
          toBoolean_of_read hact, ← (readName_data hnames).1, ← (readName_data hnames).2] at hpatch
        rw [hpatch, hemail]
        rfl
      · contradiction
    · contradiction
  · contradiction

end Translation

section Agreement

/-- The password is accepted against the stored hash. -/
def verifies (b : UsersService.Bcrypt) (u : ScimUser) (password : String) : Bool :=
  match u.passwordHash with
  | none => false
  | some hash => b.compare password hash

structure StoredUser : Type where
  userName : String
  externalId : Option String
  givenName : Option String
  familyName : Option String
  email : Option String
  active : Bool
  passwords : String → Bool

def storedUser (b : UsersService.Bcrypt) (u : ScimUser) : StoredUser where
  userName := u.userName
  externalId := u.externalId
  givenName := u.givenName
  familyName := u.familyName
  email := u.email
  active := u.active
  passwords := verifies b u

/-- Two requests on a user both fail, or both succeed and leave the same user. -/
inductive Agree (b : UsersService.Bcrypt) (id : String) :
    Except Exception Answer × Store → Except Exception Answer × Store → Prop
  | failed {e e' : Exception} {s t : Store} : Agree b id (.error e, s) (.error e', t)
  | stored {a a' : Answer} {s t : Store}
      (h : (s.user id).map (storedUser b) = (t.user id).map (storedUser b)) :
      Agree b id (.ok a, s) (.ok a', t)

/-- The body's password, if it has one that is not empty, is already the only
one that is accepted. -/
def PasswordHolds (b : UsersService.Bcrypt) (u : ScimUser) (dto : UpdateScimUserDto) : Prop :=
  ∀ p, dto.password = .value p → p ≠ "" → ∀ q, verifies b u q = (q == p)

/-- The data of the PATCH as Prisma reads it. -/
def patchUpdate (dto : UpdateScimUserDto) : UserUpdate where
  userName := some dto.userName
  externalId := GroupsService.patchColumn (patchedString dto.externalId)
  givenName := ScimNameDto.givenNameOf dto.name
  familyName := ScimNameDto.familyNameOf dto.name
  email := firstEmail dto.emails
  active := some (dto.active.orElse false)
  passwordHash := none

theorem updateColumn_patchColumn (E : Engine) (x : Option String) :
    updateColumn E (x.map .str) = some (GroupsService.patchColumn x) := by
  cases x with
  | none => rfl
  | some s => exact E.update_str s

theorem read_patchData (E : Engine) (dto : UpdateScimUserDto) :
    (UsersService.patchData (patchedFields dto)).read E = some (patchUpdate dto) := by
  unfold UsersService.patchData UserUpdateData.read patchedFields
  simp only [updateColumn_toData, updateColumn_patchColumn]
  rfl

theorem verifies_congr (b : UsersService.Bcrypt) {u v : ScimUser}
    (h : u.passwordHash = v.passwordHash) : verifies b u = verifies b v := by
  unfold verifies
  rw [h]

/-- The hash that a PUT leaves behind. -/
theorem passwordHash_put (b : UsersService.Bcrypt) (salt : String) (dto : UpdateScimUserDto)
    (now : ℕ) (u : ScimUser) :
    ((replacement (b.hash salt) dto).apply now u).passwordHash =
      (UsersService.hashPassword (b.hash salt) dto.password).or u.passwordHash := by
  have hfilter : (UsersService.hashPassword (b.hash salt) dto.password).filter (· != "") =
      UsersService.hashPassword (b.hash salt) dto.password := by
    unfold UsersService.hashPassword
    split
    · split
      · rfl
      · rw [Option.filter, if_pos (by simpa using b.hash_ne_empty salt _)]
    · rfl
  exact congrArg (Option.or · u.passwordHash) hfilter

theorem verifies_put (b : UsersService.Bcrypt) (salt : String) (dto : UpdateScimUserDto)
    (now now' : ℕ) (u : ScimUser) :
    verifies b ((replacement (b.hash salt) dto).apply now u) =
        verifies b ((patchUpdate dto).apply now' u) ↔ PasswordHolds b u dto := by
  have hput := passwordHash_put b salt dto now u
  rw [verifies_congr b (u := (patchUpdate dto).apply now' u) (v := u) rfl]
  unfold PasswordHolds
  by_cases hset : ∃ p, dto.password = .value p ∧ p ≠ ""
  · obtain ⟨p, hpass, hp⟩ := hset
    rw [hpass, UsersService.hashPassword, if_neg hp, Option.some_or] at hput
    have hverifies : verifies b ((replacement (b.hash salt) dto).apply now u) =
        fun q => q == p := by
      funext q
      rw [verifies, hput]
      exact b.compare_hash salt p q
    rw [hverifies, hpass]
    constructor
    · intro h p' hp' _ q
      cases hp'
      exact (congrFun h q).symm
    · intro h
      funext q
      exact (h p rfl hp q).symm
  · have hnone : UsersService.hashPassword (b.hash salt) dto.password = none := by
      unfold UsersService.hashPassword
      split
      · rename_i p hpass
        rw [if_pos (not_not.mp fun hp => hset ⟨p, hpass, hp⟩)]
      · rfl
    rw [hnone, Option.none_or] at hput
    rw [verifies_congr b hput]
    exact ⟨fun _ p hpass hp => absurd ⟨p, hpass, hp⟩ hset, fun _ => rfl⟩

theorem storedUser_put_eq_iff (b : UsersService.Bcrypt) (salt : String)
    (dto : UpdateScimUserDto) (hactive : dto.active ≠ .undefined) (now now' : ℕ) (u : ScimUser) :
    storedUser b ((replacement (b.hash salt) dto).apply now u) =
        storedUser b ((patchUpdate dto).apply now' u) ↔
      dto.active ≠ .null ∧ dto.externalId ≠ .null ∧ PasswordHolds b u dto := by
  have hpass := verifies_put b salt dto now now' u
  have hext : writeColumn dto.externalId u.externalId =
      writeColumn (GroupsService.patchColumn (patchedString dto.externalId)) u.externalId ↔
      dto.externalId ≠ .null := by
    cases dto.externalId <;> simp [patchedString, GroupsService.patchColumn, writeColumn]
  have hact : dto.active.orElse true = dto.active.orElse false ↔ dto.active ≠ .null := by
    cases h : dto.active <;> simp_all [Nullable.orElse]
  constructor
  · intro h
    simp only [storedUser, StoredUser.mk.injEq] at h
    obtain ⟨_, he, _, _, _, ha, hp⟩ := h
    exact ⟨hact.mp ha, hext.mp he, hpass.mp hp⟩
  · intro hall
    obtain ⟨ha, he, hp⟩ := hall
    simp only [storedUser, StoredUser.mk.injEq]
    exact ⟨rfl, hext.mpr he, rfl, rfl, rfl, hact.mpr ha, hpass.mpr hp⟩

/-- A body that names `active` has it set or null. -/
theorem active_ne_undefined {body : Json} {dto : UpdateScimUserDto}
    (h : readUserDto body = some dto) (hactive : body.has "active" = true) :
    dto.active ≠ .undefined := by
  have hread : readBoolean (body.get "active") = some dto.active := by
    unfold readUserDto at h
    split at h
    · split at h
      · split at h
        · simp only [Option.bind_eq_bind, Option.bind_eq_some_iff] at h
          obtain ⟨_, _, _, _, _, _, active, hact, _, _, hdto⟩ := h
          cases hdto
          exact hact
        · contradiction
      · contradiction
    · contradiction
  obtain ⟨v, hv⟩ := Option.isSome_iff_exists.mp hactive
  rw [hv] at hread
  intro hundef
  rw [hundef] at hread
  cases v <;> simp [readBoolean] at hread

/-- PUT of a body that names `active` and PATCH with the body as its value
agree exactly when both fail on a taken name, or when the body sets no null in
`active` or `externalId` and no new password. -/
theorem put_patch_agree_iff {env : Env} {ticks ticks' : ℕ → Tick} {salt id : String} {s : Store}
    {u : ScimUser} {body : Json} {dto : UpdateScimUserDto} (hu : s.user id = some u)
    (hbody : readUserDto body = some dto) (hactive : body.has "active" = true) :
    Agree env.bcrypt id (serve env ticks (.replaceUser salt id dto) s)
        (serve env ticks' (.patchUser id [some (replaceOperation body)]) s) ↔
      userNameTaken s id dto.userName = true ∨
        (dto.active ≠ .null ∧ dto.externalId ≠ .null ∧ PasswordHolds env.bcrypt u dto) := by
  have hfields := applyUserPatch_of_dto hbody hactive
  have hput := read_replaceData env.engine (env.bcrypt.hash salt) dto
  have hpatch := read_patchData env.engine dto
  have hname : (replacement (env.bcrypt.hash salt) dto).userName.getD u.userName =
      dto.userName := rfl
  have hname' : (patchUpdate dto).userName.getD u.userName = dto.userName := rfl
  unfold serve
  rw [handle_replaceUser, run_updateUser hput s, handle_patchUser_some env hfields,
    run_updateUser hpatch s, hu]
  simp only [hname, hname']
  by_cases htaken : userNameTaken s id dto.userName = true
  · rw [if_pos htaken, if_pos htaken]
    exact ⟨fun _ => Or.inl htaken, fun _ => .failed⟩
  · rw [if_neg htaken, if_neg htaken]
    have hiff := storedUser_put_eq_iff env.bcrypt salt dto
      (active_ne_undefined hbody hactive) (ticks 1).now (ticks' 1).now u
    refine ⟨fun hagree => ?_, fun hcond => ?_⟩
    · cases hagree with
      | stored h =>
        rw [user_after_update hu, user_after_update hu] at h
        exact Or.inr (hiff.mp (Option.some.inj h))
    · rcases hcond with htaken' | hequal
      · exact absurd htaken' htaken
      · refine .stored ?_
        rw [user_after_update hu, user_after_update hu]
        exact congrArg some (hiff.mpr hequal)

/-- A body that sets `active` and, to the given value, `externalId`. -/
def bodyWithExternalId (externalId : Json) : Json :=
  .obj [("userName", .str "ann"), ("externalId", externalId), ("active", .bool true)]

theorem put_patch_agree_iff_sample :
    Agree sampleEnv.bcrypt "u"
        (serve sampleEnv sampleTicks (.replaceUser "salt" "u"
          ⟨"ann", .value "e", .undefined, .undefined, .value true, .undefined⟩) sampleStore)
        (serve sampleEnv sampleTicks
          (.patchUser "u" [some (replaceOperation (bodyWithExternalId (.str "e")))]) sampleStore) ↔
      userNameTaken sampleStore "u" "ann" = true ∨
        (Nullable.value true ≠ .null ∧ Nullable.value "e" ≠ .null ∧
          PasswordHolds sampleEnv.bcrypt (sampleUser "u" "ann")
            ⟨"ann", .value "e", .undefined, .undefined, .value true, .undefined⟩) :=
  put_patch_agree_iff (u := sampleUser "u" "ann") rfl rfl (by decide)

/-- A null `externalId` clears the column in a PUT and is stored as the text
"null" by the PATCH. -/
theorem null_externalId_disagrees :
    ∃ dto, readUserDto (bodyWithExternalId .null) = some dto ∧
      (sampleStore.user "u").isSome = true ∧
      (bodyWithExternalId .null).has "active" = true ∧
      ¬Agree sampleEnv.bcrypt "u"
        (serve sampleEnv sampleTicks (.replaceUser "salt" "u" dto) sampleStore)
        (serve sampleEnv sampleTicks
          (.patchUser "u" [some (replaceOperation (bodyWithExternalId .null))]) sampleStore) := by
  refine ⟨_, rfl, by decide, by decide, fun hagree => ?_⟩
  cases hagree with
  | stored h =>
    have hext := congrArg (Option.map StoredUser.externalId) h
    exact absurd hext (by decide)

end Agreement

end OktaScim.PutPatchAgreement
