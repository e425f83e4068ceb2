import OktaScim.RequestPrograms
import OktaScim.PrismaConstraints

/-!
Requests that fail have no effect. A request makes at most one write, and the
only call behind a write is the closing read of a group, which finds the group
because no batch deletes one.
-/
namespace OktaScim.FailedRequests

open Programs Schema PrismaClient PrismaConstraints Bodies UserPatch GroupPatch Representations
open Requests RequestPrograms

variable {env : Env} {ticks : ℕ → Tick} {s s' : Store} {e : Exception}

section Answers

theorem readGroup_returns (id : String) :
    Returns (fun a => a.status < 400) (readGroup env id) := by
  intro group
  cases group with
  | none => trivial
  | some group => exact (by omega : 200 < 400)

theorem replaceGroupTail_returns (id : String) (dto : UpdateScimGroupDto) :
    Returns (fun a => a.status < 400) (replaceGroupTail env id dto) := by
  unfold replaceGroupTail
  split
  · trivial
  · exact fun _ => readGroup_returns id

theorem patchGroupTail_returns (id : String) (patch : GroupPatchResult) :
    Returns (fun a => a.status < 400) (patchGroupTail env id patch) := by
  unfold patchGroupTail
  split
  · exact readGroup_returns id
  · exact fun _ => readGroup_returns id

theorem createGroupTail_returns (dto : CreateScimGroupDto) :
    Returns (fun a => a.status < 400) (createGroupTail env dto) := by
  unfold createGroupTail
  split
  · trivial
  · exact fun _ => (by omega : 201 < 400)

theorem userFound_returns {rest : Service Answer} (id : String)
    (hrest : Returns (fun a => a.status < 400) rest) (user : Option ScimUser) :
    Returns (fun a => a.status < 400) (UsersService.whenFound id rest user) := by
  cases user with
  | none => trivial
  | some user => exact hrest

theorem groupFound_returns {rest : Service Answer} (id : String)
    (hrest : Returns (fun a => a.status < 400) rest) (group : Option GroupWithMembers) :
    Returns (fun a => a.status < 400) (GroupsService.whenFound id rest group) := by
  cases group with
  | none => trivial
  | some group => exact hrest

/-- What a handler returns is answered with a status of success. -/
theorem handle_returns (env : Env) (r : Request) :
    Returns (fun a => a.status < 400) (r.handle env) := by
  cases r with
  | listUsers filter pagination => exact fun _ => (by omega : 200 < 400)
  | getUser id =>
    rw [handle_getUser]
    intro user
    cases user with
    | none => trivial
    | some user => exact (by omega : 200 < 400)
  | createUser salt dto =>
    rw [handle_createUser]
    intro existing
    cases existing with
    | none => exact fun _ => (by omega : 201 < 400)
    | some user => trivial
  | replaceUser salt id dto =>
    rw [handle_replaceUser]
    exact userFound_returns id (fun _ => (by omega : 200 < 400))
  | patchUser id operations =>
    cases hfields : applyUserPatch operations with
    | none =>
      rw [handle_patchUser_none env hfields]
      trivial
    | some fields =>
      rw [handle_patchUser_some env hfields]
      exact userFound_returns id (fun _ => (by omega : 200 < 400))
  | deleteUser id =>
    rw [handle_deleteUser]
    exact userFound_returns id (fun _ => (by omega : 204 < 400))
  | listGroups filter pagination => exact fun _ => (by omega : 200 < 400)
  | getGroup id =>
    rw [handle_getGroup]
    exact readGroup_returns id
  | createGroup dto =>
    rw [handle_createGroup]
    intro existing
    cases existing with
    | none => exact createGroupTail_returns dto
    | some group => trivial
  | replaceGroup id dto =>
    rw [handle_replaceGroup]
    exact groupFound_returns id (replaceGroupTail_returns id dto)
  | patchGroup id operations =>
    cases hpatch : applyGroupPatch operations with
    | none =>
      rw [handle_patchGroup_none env hpatch]
      trivial
    | some patch =>
      rw [handle_patchGroup_some env hpatch]
      exact groupFound_returns id (patchGroupTail_returns id patch)
  | deleteGroup id =>
    rw [handle_deleteGroup]
    exact groupFound_returns id (fun _ => (by omega : 204 < 400))
  | clearData => exact fun _ _ _ => (by omega : 204 < 400)

/-- An error status is answered only for a handler that has thrown. -/
theorem serve_error_of_status {r : Request}
    (h : 400 ≤ (answerOf (serve env ticks r s).1).status) :
    ∃ e, serve env ticks r s = (.error e, (serve env ticks r s).2) := by
  rcases hserve : serve env ticks r s with ⟨_ | a, s'⟩
  · exact ⟨_, rfl⟩
  · rw [hserve] at h
    have hlt := run_returns (exec env.engine) _ (handle_returns env r) ticks s s' a hserve
    simp only [answerOf] at h
    omega

end Answers

section Effects

theorem userLookup_error {id : String} {c : Call} {f : c.Result → Answer}
    (h : run (exec env.engine) ticks
      (.call (.userFindUnique id) (UsersService.whenFound id (.call c fun r => .pure (f r)))) s =
        (.error e, s')) : s' = s := by
  rw [run_userLookup] at h
  split at h
  · exact run_call_pure_error (exec env.engine) h
  · cases h
    rfl

theorem readGroup_error {id : String}
    (h : run (exec env.engine) ticks (readGroup env id) s = (.error e, s')) :
    s.group id = none ∧ s' = s := by
  rw [run_readGroup] at h
  cases hg : s.group id with
  | none =>
    simp only [hg, Prod.mk.injEq] at h
    exact ⟨rfl, h.2.symm⟩
  | some g => simp [hg] at h

/-- A write of a group that exists fails at the write or not at all. -/
theorem writeGroup_error {id : String} {operations : List BatchOp}
    (hid : (s.group id).isSome = true)
    (h : run (exec env.engine) ticks (writeGroup env id operations) s = (.error e, s')) :
    s' = s := by
  rw [run_writeGroup] at h
  cases htr : transaction env.engine (ticks 0) operations s with
  | error e' =>
    simp only [htr, Prod.mk.injEq] at h
    exact h.2.symm
  | ok rs =>
    obtain ⟨u, mid⟩ := rs
    simp only [htr] at h
    have hnone := (readGroup_error h).1
    have hsome := transaction_group htr id hid
    rw [hnone] at hsome
    contradiction

theorem groupLookup_error {id : String} {rest : Service Answer}
    (hrest : (s.group id).isSome = true → ∀ ticks' : ℕ → Tick,
      run (exec env.engine) ticks' rest s = (.error e, s') → s' = s)
    (h : run (exec env.engine) ticks
      (.call (.groupFindUnique id) (GroupsService.whenFound id rest)) s = (.error e, s')) :
    s' = s := by
  rw [run_groupLookup] at h
  split at h
  · rename_i hid
    exact hrest hid _ h
  · cases h
    rfl

theorem replaceGroupTail_error {id : String} {dto : UpdateScimGroupDto}
    (hid : (s.group id).isSome = true)
    (h : run (exec env.engine) ticks (replaceGroupTail env id dto) s = (.error e, s')) :
    s' = s := by
  unfold replaceGroupTail at h
  split at h
  · cases h
    rfl
  · exact writeGroup_error hid h

theorem patchGroupTail_error {id : String} {patch : GroupPatchResult}
    (hid : (s.group id).isSome = true)
    (h : run (exec env.engine) ticks (patchGroupTail env id patch) s = (.error e, s')) :
    s' = s := by
  unfold patchGroupTail at h
  split at h
  · exact (readGroup_error h).2
  · exact writeGroup_error hid h

theorem createGroupTail_error {dto : CreateScimGroupDto}
    (h : run (exec env.engine) ticks (createGroupTail env dto) s = (.error e, s')) : s' = s := by
  unfold createGroupTail at h
  split at h
  · cases h
    rfl
  · exact run_call_pure_error (exec env.engine) h

/-- A handler that throws leaves the store as it was. -/
theorem serve_error {r : Request} (h : serve env ticks r s = (.error e, s')) : s' = s := by
  unfold serve at h
  cases r with
  | listUsers filter pagination => exact run_call_pure_error (exec env.engine) h
  | getUser id =>
    rw [handle_getUser] at h
    simp only [run, exec] at h
    cases hu : s.user id <;> simp_all
  | createUser salt dto =>
    rw [handle_createUser] at h
    simp only [run, exec] at h
    cases hu : s.userNamed dto.userName with
    | none =>
      rw [hu] at h
      exact run_call_pure_error (exec env.engine) h
    | some u =>
      rw [hu] at h
      cases h
      rfl
  | replaceUser salt id dto =>
    rw [handle_replaceUser] at h
    exact userLookup_error h
  | patchUser id operations =>
    cases hfields : applyUserPatch operations with
    | none =>
      rw [handle_patchUser_none env hfields] at h
      cases h
      rfl
    | some fields =>
      rw [handle_patchUser_some env hfields] at h
      exact userLookup_error h
  | deleteUser id =>
    rw [handle_deleteUser] at h
    exact userLookup_error h
  | listGroups filter pagination => exact run_call_pure_error (exec env.engine) h
  | getGroup id =>
    rw [handle_getGroup] at h
    exact (readGroup_error h).2
  | createGroup dto =>
    rw [handle_createGroup] at h
    simp only [run, exec] at h
    cases hg : s.groupNamed dto.displayName with
    | none =>
      rw [hg] at h
      exact createGroupTail_error h
    | some g =>
      rw [hg] at h
      cases h
      rfl
  | replaceGroup id dto =>
    rw [handle_replaceGroup] at h
    exact groupLookup_error (fun hid _ => replaceGroupTail_error hid) h
  | patchGroup id operations =>
    cases hpatch : applyGroupPatch operations with
    | none =>
      rw [handle_patchGroup_none env hpatch] at h
      cases h
      rfl
    | some patch =>
      rw [handle_patchGroup_some env hpatch] at h
      exact groupLookup_error (fun hid _ => patchGroupTail_error hid) h
  | deleteGroup id =>
    rw [handle_deleteGroup] at h
    exact groupLookup_error (fun _ _ => run_call_pure_error (exec env.engine)) h
  | clearData => cases h

end Effects

/-- A request answered with an error status, whatever has raised the error,
leaves all tables as they were. -/
theorem failed_request_unchanged {r : Request}
    (h : 400 ≤ (answerOf (serve env ticks r s).1).status) : (serve env ticks r s).2 = s := by
  obtain ⟨e, he⟩ := serve_error_of_status h
  exact serve_error he

/-- A PUT whose second member does not exist: its batch has deleted the members
and inserted the first one before it fails. -/
theorem failed_request_unchanged_sample :
    (answerOf (serve sampleEnv sampleTicks (.replaceGroup "g" ⟨"crew", .undefined,
        .value [some ⟨some "u", .undefined⟩, some ⟨some "nobody", .undefined⟩]⟩)
      ⟨[sampleUser "u" "ann"], [sampleGroup "g" "staff"], [⟨"g", "u"⟩]⟩).1).status = 400 ∧
    (serve sampleEnv sampleTicks (.replaceGroup "g" ⟨"crew", .undefined,
        .value [some ⟨some "u", .undefined⟩, some ⟨some "nobody", .undefined⟩]⟩)
      ⟨[sampleUser "u" "ann"], [sampleGroup "g" "staff"], [⟨"g", "u"⟩]⟩).2 =
        ⟨[sampleUser "u" "ann"], [sampleGroup "g" "staff"], [⟨"g", "u"⟩]⟩ :=
  ⟨by decide, failed_request_unchanged (by decide)⟩

end OktaScim.FailedRequests
