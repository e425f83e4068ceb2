import OktaScim.CheckThenAct
import OktaScim.ConcurrentStore
import OktaScim.RequestPrograms

/-!
Concurrent requests on users. Each of them looks a user up and then makes at
most one write, whose own failure is answered like the failed lookup; so every
run is equivalent to a sequential one. Of the creations of one unused user name
exactly one succeeds.
-/
namespace OktaScim.UsersLinearizable

open Programs Interleavings Linearization CheckThenAct Schema KeyedRows PrismaClient
open PrismaConstraints Bodies UserPatch Representations Requests RequestPrograms ConcurrentStore

/-- What a client sees: a representation with its status, or the status and
the SCIM type of an error. -/
inductive Observed : Type
  | success (answer : Answer)
  | failure (status : ℕ) (scimType : Option String)

def observe : Except Exception Answer → Observed
  | .ok answer => .success answer
  | .error e => .failure (toScimError e).status (toScimError e).scimType

def UsersRequest : Request → Prop
  | .listUsers _ _ => True
  | .getUser _ => True
  | .createUser _ _ => True
  | .replaceUser _ _ _ => True
  | .patchUser _ _ => True
  | .deleteUser _ => True
  | _ => False

section CommitPoints

variable (env : Env)

/-- The classification of a request in which nothing is assumed of the store
and no closing read is needed. -/
abbrev Linear (p : Service Answer) : Prop :=
  ChecksThenActs (exec env.engine) observe (fun _ => True) (fun _ _ => True) (fun _ => False) p

theorem find_user (t : Tick) {s : Store} {id : String} {u : Option ScimUser}
    (h : s.user id = u) : exec env.engine t (.userFindUnique id) s = .ok (u, s) := by
  rw [← h]
  rfl

theorem find_userNamed (t : Tick) {s : Store} {n : String} {u : Option ScimUser}
    (h : s.userNamed n = u) : exec env.engine t (.userFindUniqueByName n) s = .ok (u, s) := by
  rw [← h]
  rfl

/-- A request that finds its user and makes one call, which fails with P2025
where there is no such user. -/
theorem lookup_checksThenActs {id : String} {c : Call} {f : c.Result → Answer}
    (hmissing : ∀ t s, s.user id = none → exec env.engine t c s = .error (.prisma .P2025)) :
    Linear env
      (.call (.userFindUnique id) (UsersService.whenFound id (.call c fun r => .pure (f r)))) := by
  refine checksThenActs_of_guard (c := c) (k := fun r => .pure (f r))
    (fun _ => Option.some_ne_none _) fun t s _ => ?_
  cases hu : s.user id with
  | none =>
    have hnext := next_error (exec env.engine) (fun r => .pure (f r)) (hmissing t s hu)
    exact ⟨none, find_user env t hu, Or.inl ⟨_, _, rfl, hnext, rfl⟩⟩
  | some u => exact ⟨some u, find_user env t hu, Or.inr rfl⟩

theorem updateUser_checksThenActs (id : String) (data : UserUpdateData) :
    Linear env
      (.call (.userFindUnique id) (UsersService.whenFound id (updateUserTail env id data))) := by
  cases hread : data.read env.engine with
  | some upd =>
    refine lookup_checksThenActs env fun t s hu => ?_
    simp only [exec, userUpdate, hread, hu, rejects]
  | none =>
    -- data that Prisma does not accept fails whether or not the user is still there
    have hfails : ∀ t s, exec env.engine t (.userUpdate id data) s =
        .error (.prisma .validation) := by
      intro t s
      simp only [exec, userUpdate, hread, rejects]
    refine checksThenActs_of_doomed fun t s _ => ?_
    cases hu : s.user id with
    | none => exact ⟨none, find_user env t hu, Or.inl ⟨_, rfl⟩⟩
    | some u =>
      exact ⟨some u, find_user env t hu, Or.inr ⟨_, _, _, rfl, hfails⟩⟩

theorem createUser_checksThenActs (salt : String) (dto : CreateScimUserDto) :
    Linear env ((Request.createUser salt dto).handle env) := by
  rw [handle_createUser]
  refine checksThenActs_of_guard
    (c := .userCreate (UsersService.createData (env.bcrypt.hash salt) dto))
    (k := fun user => .pure (userAnswer env 201 user)) (fun _ => Option.some_ne_none _)
    fun t s _ => ?_
  cases hname : s.userNamed dto.userName with
  | none => exact ⟨none, find_userNamed env t hname, Or.inr rfl⟩
  | some u =>
    have hsome : (s.userNamed dto.userName).isSome = true := by
      rw [hname]
      rfl
    have htaken : exec env.engine t
        (.userCreate (UsersService.createData (env.bcrypt.hash salt) dto)) s =
        .error (.prisma .P2002) := congrArg rejects (if_pos (Or.inr hsome))
    have hnext := next_error (exec env.engine)
      (fun user => (.pure (userAnswer env 201 user) : Service Answer)) htaken
    exact ⟨some u, find_userNamed env t hname, Or.inl ⟨_, _, rfl, hnext, rfl⟩⟩

theorem usersRequest_checksThenActs (r : Request) (hr : UsersRequest r) :
    Linear env (r.handle env) := by
  cases r with
  | listUsers filter pagination =>
    rw [handle_listUsers]
    refine Or.inr (Or.inl (actsAs_of_one_call fun page => ?_))
    simp
  | getUser id =>
    rw [handle_getUser]
    refine Or.inr (Or.inl (actsAs_of_one_call fun user => ?_))
    cases user <;> simp
  | createUser salt dto => exact createUser_checksThenActs env salt dto
  | replaceUser salt id dto =>
    rw [handle_replaceUser]
    exact updateUser_checksThenActs env id _
  | patchUser id operations =>
    cases hfields : applyUserPatch operations with
    | none =>
      rw [handle_patchUser_none env hfields]
      exact Or.inl ⟨_, rfl⟩
    | some fields =>
      rw [handle_patchUser_some env hfields]
      exact updateUser_checksThenActs env id _
  | deleteUser id =>
    rw [handle_deleteUser]
    refine lookup_checksThenActs env fun t s hu => ?_
    simp only [exec, userDelete, hu, rejects]
  | listGroups filter pagination => exact hr.elim
  | getGroup id => exact hr.elim
  | createGroup dto => exact hr.elim
  | replaceGroup id dto => exact hr.elim
  | patchGroup id operations => exact hr.elim
  | deleteGroup id => exact hr.elim
  | clearData => exact hr.elim

end CommitPoints

section Race

variable {ι : Type} {env : Env} {salt : ι → String} {dto : ι → CreateScimUserDto} {n : String}

/-- The id that is drawn at a step is not the id of a user in `s`. -/
def DrawsUnused (s : Store) (_ : Clients ι) (e : Event ι Tick) : Prop :=
  ∀ i t, e = .call i t → s.user t.uuid = none

/-- The status a client has been answered with. -/
def statusOf (cfg : Clients ι) (i : ι) : Option ℕ :=
  (cfg.answered i).map fun r => (answerOf r).status

/-- The creation by client `i` is still before its lookup or before its write. -/
def Waits (env : Env) (salt : ι → String) (dto : ι → CreateScimUserDto) (i : ι)
    (p : Service Answer) : Prop :=
  p = (Request.createUser (salt i) (dto i)).handle env ∨ p = createUserTail env (salt i) (dto i)

theorem Waits.unended {i : ι} {p : Service Answer} (h : Waits env salt dto i p) :
    p.result = none := by
  rcases h with rfl | rfl
  · rw [handle_createUser]
    rfl
  · rfl

/-- While the name is unused, a waiting creation goes on or succeeds. -/
theorem waits_call_unused {i : ι} (hn : (dto i).userName = n) {s : Store} {t : Tick} {c : Call}
    {k : c.Result → Service Answer} (h : Waits env salt dto i (.call c k))
    (hunused : s.userNamed n = none) (hfresh : s.user t.uuid = none) :
    (Waits env salt dto i (next (exec env.engine) t c k s).1 ∧
        (next (exec env.engine) t c k s).2 = s) ∨
      ∃ a, (next (exec env.engine) t c k s).1 = .pure a ∧ a.status = 201 ∧
        ((next (exec env.engine) t c k s).2.userNamed n).isSome = true := by
  have hname : s.userNamed (dto i).userName = none := by
    rw [hn]
    exact hunused
  rcases h with h | h
  · rw [handle_createUser] at h
    cases h
    rw [next_ok (exec env.engine) _ (find_userNamed env t hname)]
    exact Or.inl ⟨Or.inr rfl, rfl⟩
  · unfold createUserTail at h
    cases h
    have hcreate : exec env.engine t
        (.userCreate (UsersService.createData (env.bcrypt.hash (salt i)) (dto i))) s =
        .ok (newUser t (UsersService.createData (env.bcrypt.hash (salt i)) (dto i)), { s with
          users := s.users ++
            [newUser t (UsersService.createData (env.bcrypt.hash (salt i)) (dto i))] }) := by
      refine congrArg rejects (if_neg ?_)
      intro htaken
      rcases htaken with hid | hnamed
      · rw [hfresh] at hid
        cases hid
      · rw [show (UsersService.createData (env.bcrypt.hash (salt i)) (dto i)).userName =
          (dto i).userName from rfl, hname] at hnamed
        cases hnamed
    rw [next_ok (exec env.engine) _ hcreate]
    refine Or.inr ⟨_, rfl, rfl, ?_⟩
    refine findRow_isSome_iff.mpr
      ⟨newUser t _, List.mem_append_right _ (List.mem_singleton.mpr rfl), ?_⟩
    exact hn

/-- Once the name is used, a waiting creation fails with a conflict. -/
theorem waits_call_used {i : ι} (hn : (dto i).userName = n) {s : Store} {t : Tick} {c : Call}
    {k : c.Result → Service Answer} (h : Waits env salt dto i (.call c k))
    (hused : (s.userNamed n).isSome = true) :
    (next (exec env.engine) t c k s).2 = s ∧
      ∃ e, (next (exec env.engine) t c k s).1 = .throw e ∧ (toScimError e).status = 409 := by
  rw [← hn] at hused
  rcases h with h | h
  · rw [handle_createUser] at h
    cases h
    obtain ⟨u, hu⟩ := Option.isSome_iff_exists.mp hused
    rw [next_ok (exec env.engine) _ (find_userNamed env t hu)]
    exact ⟨rfl, _, rfl, rfl⟩
  · unfold createUserTail at h
    cases h
    have hcreate : exec env.engine t
        (.userCreate (UsersService.createData (env.bcrypt.hash (salt i)) (dto i))) s =
        .error (.prisma .P2002) :=
      congrArg rejects (if_pos (Or.inr hused))
    rw [next_error (exec env.engine) _ hcreate]
    exact ⟨rfl, _, rfl, rfl⟩

/-- Either nobody has been answered and the store is as it was, or one client
has created the user and every other answer is a conflict. -/
def RaceInvariant (env : Env) (salt : ι → String) (dto : ι → CreateScimUserDto) (n : String)
    (s : Store) (cfg : Clients ι) : Prop :=
  (cfg.store = s ∧ ∀ i p, cfg.threads i = some p → Waits env salt dto i p) ∨
    ∃ i a, cfg.threads i = some (.pure a) ∧ a.status = 201 ∧
      (cfg.store.userNamed n).isSome = true ∧
      ∀ j p, j ≠ i → cfg.threads j = some p → Waits env salt dto j p ∨
        ∃ e, p = .throw e ∧ (toScimError e).status = 409

variable [DecidableEq ι]

theorem raceInvariant_start {s : Store} {cfg : Clients ι} {i : ι}
    (hnone : cfg.threads i = none) (h : RaceInvariant env salt dto n s cfg) :
    RaceInvariant env salt dto n s
      (startConfig (fun i => (Request.createUser (salt i) (dto i)).handle env) cfg i) := by
  have hm := moves_startConfig (fun i => (Request.createUser (salt i) (dto i)).handle env) hnone
  rcases h with ⟨hstore, hwaits⟩ | ⟨w, a, hw, ha, hused, hothers⟩
  · refine Or.inl ⟨hstore, fun j p hj => ?_⟩
    by_cases hji : j = i
    · subst hji
      exact Or.inl (Option.some.inj (hj.symm.trans hm.self))
    · exact hwaits j p ((hm.other j hji).symm.trans hj)
  · have hwi : w ≠ i := by
      intro heq
      rw [heq, hnone] at hw
      cases hw
    refine Or.inr ⟨w, a, (hm.other w hwi).trans hw, ha, hused, fun j p hjw hj => ?_⟩
    by_cases hji : j = i
    · subst hji
      exact Or.inl (Or.inl (Option.some.inj (hj.symm.trans hm.self)))
    · exact hothers j p hjw ((hm.other j hji).symm.trans hj)

theorem raceInvariant_call (hn : ∀ i, (dto i).userName = n) {s : Store}
    (hunused : s.userNamed n = none) {cfg : Clients ι} {i : ι} {t : Tick} {c : Call}
    {k : c.Result → Service Answer} (hfresh : s.user t.uuid = none)
    (hcall : cfg.threads i = some (.call c k)) (h : RaceInvariant env salt dto n s cfg) :
    RaceInvariant env salt dto n s (callConfig (exec env.engine) cfg i t c k) := by
  have hm := moves_callConfig (exec env.engine) t hcall
  rcases h with ⟨hstore, hwaits⟩ | ⟨w, a, hw, ha, hused, hothers⟩
  · have hunused' : cfg.store.userNamed n = none := by
      rw [hstore]
      exact hunused
    have hfresh' : cfg.store.user t.uuid = none := by
      rw [hstore]
      exact hfresh
    rcases waits_call_unused (hn i) (hwaits i _ hcall) hunused' hfresh' with
      ⟨hnext, hsame⟩ | ⟨a, hnext, ha, hused⟩
    · refine Or.inl ⟨hsame.trans hstore, fun j p hj => ?_⟩
      by_cases hji : j = i
      · subst hji
        cases Option.some.inj (hj.symm.trans hm.self)
        exact hnext
      · exact hwaits j p ((hm.other j hji).symm.trans hj)
    · refine Or.inr ⟨i, a, by rw [hm.self, hnext], ha, hused, fun j p hji hj => ?_⟩
      exact Or.inl (hwaits j p ((hm.other j hji).symm.trans hj))
  · have hwi : w ≠ i := by
      intro heq
      rw [heq, hcall] at hw
      cases hw
    have hwaits : Waits env salt dto i (.call c k) := by
      rcases hothers i _ (Ne.symm hwi) hcall with hwaits | ⟨e, he, _⟩
      · exact hwaits
      · cases he
    obtain ⟨hsame, e, hnext, he⟩ := waits_call_used (t := t) (hn i) hwaits hused
    refine Or.inr ⟨w, a, (hm.other w hwi).trans hw, ha, ?_, fun j p hjw hj => ?_⟩
    · exact (congrArg (fun s => (s.userNamed n).isSome) hsame).trans hused
    · by_cases hji : j = i
      · subst hji
        exact Or.inr ⟨e, (Option.some.inj (hj.symm.trans hm.self)).trans hnext, he⟩
      · exact hothers j p hjw ((hm.other j hji).symm.trans hj)

/-- When all creations of an unused name have been answered, one of them with
201, the others with 409. -/
theorem createUser_race (hn : ∀ i, (dto i).userName = n) {s : Store}
    (hunused : s.userNamed n = none) {cfg : Clients ι}
    (h : ServedWhen (DrawsUnused s) env (fun i => .createUser (salt i) (dto i)) s cfg)
    (hq : cfg.Quiescent) (hsent : ∃ i, cfg.threads i ≠ none) :
    ∃ i, statusOf cfg i = some 201 ∧
      ∀ j, j ≠ i → cfg.threads j ≠ none → statusOf cfg j = some 409 := by
  have hinv : RaceInvariant env salt dto n s cfg := by
    clear hq hsent
    induction h with
    | refl => exact Or.inl ⟨rfl, fun i p hp => by cases hp⟩
    | @tail cfg cfg' e _ hallow hstep ih =>
      cases e with
      | start i =>
        obtain ⟨hnone, rfl⟩ := step_start_cases (exec env.engine) _ hstep
        exact raceInvariant_start hnone ih
      | call i t =>
        obtain ⟨c, k, hcall, rfl⟩ := step_call_cases (exec env.engine) _ hstep
        exact raceInvariant_call hn hunused (hallow i t rfl) hcall ih
  rcases hinv with ⟨_, hwaits⟩ | ⟨w, a, hw, ha, _, hothers⟩
  · obtain ⟨i, hi⟩ := hsent
    obtain ⟨p, hp⟩ := Option.ne_none_iff_exists'.mp hi
    exact absurd (hwaits i p hp).unended (hq i p hp)
  · refine ⟨w, ?_, fun j hjw hj => ?_⟩
    · rw [statusOf, Config.answered, hw]
      exact congrArg some ha
    · obtain ⟨p, hp⟩ := Option.ne_none_iff_exists'.mp hj
      rcases hothers j p hjw hp with hwaits | ⟨e, rfl, he⟩
      · exact absurd hwaits.unended (hq j p hp)
      · rw [statusOf, Config.answered, hp]
        exact congrArg some he

end Race

/-- Every run of concurrent requests on users is explained by an order of the
requests, and a race of creations of one unused name has one winner. -/
theorem users_linearizable {ι : Type} [DecidableEq ι] (env : Env) (s : Store) :
    (∀ (request : ι → Request) (cfg : Clients ι), (∀ i, UsersRequest (request i)) →
      Served env request s cfg → ∃ order : List (ι × (ℕ → Tick)),
        Linearizes (exec env.engine) (fun i => (request i).handle env) observe s cfg order ∧
          (cfg.Quiescent → ∀ i, i ∈ order.map Prod.fst ↔ cfg.threads i ≠ none)) ∧
    ∀ (salt : ι → String) (dto : ι → CreateScimUserDto) (n : String) (cfg : Clients ι),
      (∀ i, (dto i).userName = n) → s.userNamed n = none →
      ServedWhen (DrawsUnused s) env (fun i => .createUser (salt i) (dto i)) s cfg →
      cfg.Quiescent → (∃ i, cfg.threads i ≠ none) →
      ∃ i, statusOf cfg i = some 201 ∧
        ∀ j, j ≠ i → cfg.threads j ≠ none → statusOf cfg j = some 409 := by
  constructor
  · intro request cfg hrequest hserved
    have P : CommitPoints (exec env.engine) (fun i => (request i).handle env) observe
        (fun _ => True) (fun (_ : Clients ι) (_ : Event ι Tick) => True) :=
      commitPoints (fun i => usersRequest_checksThenActs env (request i) (hrequest i))
        (fun _ _ _ _ _ _ => trivial) (fun _ _ _ _ _ _ _ _ _ _ _ _ _ hclosing => hclosing.elim)
    have hkeep : Keeps (exec env.engine) (fun _ => True) := fun _ _ _ _ _ _ _ => trivial
    obtain ⟨order, horder⟩ := P.linearizable hkeep s trivial hserved
    exact ⟨order, horder, fun hq => horder.mem_iff_of_quiescent _ _ hq⟩
  · intro salt dto n cfg hn hunused hserved hq hsent
    exact createUser_race hn hunused hserved hq hsent

/-- Two creations of one name, whose lookups both come before the writes. -/
def raceEvents : List (Event Bool Tick) :=
  [.start true, .start false, .call true (sampleTick "x" 0), .call false (sampleTick "y" 1),
    .call false (sampleTick "y" 2), .call true (sampleTick "x" 3)]

def raceDto : CreateScimUserDto :=
  ⟨"ann", .undefined, .undefined, .undefined, .undefined, .undefined⟩

theorem users_linearizable_sample :
    ∃ cfg : Clients Bool,
      (∃ order : List (Bool × (ℕ → Tick)),
        Linearizes (exec sampleEnv.engine)
          (fun _ => (Request.createUser "salt" raceDto).handle sampleEnv) observe Store.empty cfg
          order ∧ (cfg.Quiescent → ∀ i, i ∈ order.map Prod.fst ↔ cfg.threads i ≠ none)) ∧
      ∃ i, statusOf cfg i = some 201 ∧
        ∀ j, j ≠ i → cfg.threads j ≠ none → statusOf cfg j = some 409 := by
  have hstart : ServedWhen (DrawsUnused Store.empty) sampleEnv
      (fun _ : Bool => .createUser "salt" raceDto) Store.empty (Config.initial Store.empty) := .refl
  have hstart' : Served sampleEnv (fun _ : Bool => .createUser "salt" raceDto) Store.empty
      (Config.initial Store.empty) := .refl
  have hrace := reaches_runEvents (exec sampleEnv.engine) _ hstart raceEvents
    (fun _ _ _ _ _ _ => rfl) rfl
  have hserved := reaches_runEvents (exec sampleEnv.engine) _ hstart' raceEvents
    (fun _ _ _ => trivial) rfl
  refine ⟨_, (users_linearizable sampleEnv Store.empty).1 _ _ (fun _ => trivial) hserved,
    (users_linearizable sampleEnv Store.empty).2 (fun _ => "salt") (fun _ => raceDto) "ann" _
      (fun _ => rfl) rfl hrace ?_ ⟨true, ?_⟩⟩
  · intro i p hp
    cases i <;> cases hp <;> exact Option.some_ne_none _
  · simp [startConfig, callConfig]

end OktaScim.UsersLinearizable
