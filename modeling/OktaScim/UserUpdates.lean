import OktaScim.RequestPrograms
import OktaScim.PrismaConstraints

/-!
What a PUT or PATCH of a user, served alone, leaves in the user's row.
-/
namespace OktaScim.UserUpdates

open Programs Schema KeyedRows JsValues PrismaClient PrismaConstraints Bodies UserPatch
open Requests RequestPrograms

/-- The update data of a PUT as Prisma reads it. -/
def replacement (hash : String → String) (dto : UpdateScimUserDto) : UserUpdate where
  userName := some dto.userName
  externalId := dto.externalId
  givenName := ScimNameDto.givenNameOf dto.name
  familyName := ScimNameDto.familyNameOf dto.name
  email := firstEmail dto.emails
  active := some (dto.active.orElse true)
  passwordHash := (UsersService.hashPassword hash dto.password).filter (· != "")

/-- A PUT always writes. -/
theorem replacement_ne_nothing (hash : String → String) (dto : UpdateScimUserDto) :
    replacement hash dto ≠ .nothing := by
  intro h
  have hname := congrArg UserUpdate.userName h
  contradiction

theorem updateColumn_toData (E : Engine) (value : Nullable String) :
    updateColumn E (value.toData .str) = some value := by
  cases value with
  | undefined => rfl
  | null => exact E.update_null
  | value s => exact E.update_str s

theorem read_replaceData (E : Engine) (hash : String → String) (dto : UpdateScimUserDto) :
    (UsersService.replaceData hash dto).read E = some (replacement hash dto) := by
  unfold UsersService.replaceData UserUpdateData.read
  simp only [updateColumn_toData]
  rfl

/-- The lookup and the update of a PUT or PATCH whose data Prisma accepts. -/
theorem run_updateUser {env : Env} {ticks : ℕ → Tick} {id : String} {data : UserUpdateData}
    {upd : UserUpdate} (hread : data.read env.engine = some upd) (s : Store) :
    run (exec env.engine) ticks
      (.call (.userFindUnique id) (UsersService.whenFound id (updateUserTail env id data))) s =
      match s.user id with
      | none => (.error (.notFound s!"User {id} not found"), s)
      | some u =>
        if userNameTaken s id (upd.userName.getD u.userName) then (.error (.prisma .P2002), s)
        else (.ok (userAnswer env 200 (upd.apply (ticks 1).now u)), { s with
          users := modifyRow ScimUser.id id (upd.apply (ticks 1).now) s.users }) := by
  rw [run_userLookup]
  cases hu : s.user id with
  | none => rfl
  | some u =>
    have hname : (upd.apply (ticks 1).now u).userName = upd.userName.getD u.userName := rfl
    have hupdate : userUpdate env.engine (ticks 1) id data s =
        if userNameTaken s id (upd.userName.getD u.userName) then .error .P2002
        else .ok (upd.apply (ticks 1).now u, { s with
          users := modifyRow ScimUser.id id (upd.apply (ticks 1).now) s.users }) := by
      simp only [userUpdate, hread, hu, hname]
    simp only [Option.isSome_some, if_true, updateUserTail, run, exec, Nat.zero_add, hupdate]
    by_cases htaken : userNameTaken s id (upd.userName.getD u.userName) = true
    · simp only [htaken, if_true, rejects]
    · simp only [htaken, rejects]
      rfl

/-- The row of a user after its update. -/
theorem user_after_update {s : Store} {id : String} {u : ScimUser} (hu : s.user id = some u)
    (upd : UserUpdate) (now : ℕ) :
    (Store.user { s with users := modifyRow ScimUser.id id (upd.apply now) s.users } id) =
      some (upd.apply now u) := by
  rw [user_modifyRow s id id (upd.apply now) (fun _ => rfl), if_pos rfl, hu]
  rfl

/-- A PUT that succeeds writes the replacement over the row of the user. -/
theorem replaceUser_ok {env : Env} {ticks : ℕ → Tick} {salt id : String} {dto : UpdateScimUserDto}
    {s s' : Store} {a : Answer}
    (h : serve env ticks (.replaceUser salt id dto) s = (.ok a, s')) :
    ∃ u, s.user id = some u ∧
      s'.user id = some ((replacement (env.bcrypt.hash salt) dto).apply (ticks 1).now u) := by
  unfold serve at h
  rw [handle_replaceUser, run_updateUser (read_replaceData env.engine _ dto)] at h
  cases hu : s.user id with
  | none => simp [hu] at h
  | some u =>
    simp only [hu] at h
    split at h
    · cases h
    · cases h
      exact ⟨u, rfl, user_after_update hu _ _⟩

/-- A PATCH that succeeds: its operations translate to data that Prisma
accepts, the user exists, and no other user has the name. -/
theorem patchUser_ok {env : Env} {ticks : ℕ → Tick} {id : String}
    {ops : List (Option PatchOperation)} {s s' : Store} {a : Answer}
    (h : serve env ticks (.patchUser id ops) s = (.ok a, s')) :
    ∃ fields upd u, applyUserPatch ops = some fields ∧
      (UsersService.patchData fields).read env.engine = some upd ∧ s.user id = some u ∧
      userNameTaken s id (upd.userName.getD u.userName) = false ∧
      s' = { s with users := modifyRow ScimUser.id id (upd.apply (ticks 1).now) s.users } := by
  unfold serve at h
  cases hfields : applyUserPatch ops with
  | none =>
    rw [handle_patchUser_none env hfields] at h
    simp at h
  | some fields =>
    rw [handle_patchUser_some env hfields] at h
    cases hread : (UsersService.patchData fields).read env.engine with
    | none =>
      obtain ⟨_, htail⟩ := run_userLookup_ok h
      simp [updateUserTail, run, exec, userUpdate, hread, rejects] at htail
    | some upd =>
      rw [run_updateUser hread] at h
      cases hu : s.user id with
      | none => simp [hu] at h
      | some u =>
        simp only [hu] at h
        split at h
        · cases h
        · rename_i hfree
          cases h
          exact ⟨fields, upd, u, rfl, hread, rfl, by simpa using hfree, rfl⟩

end OktaScim.UserUpdates
