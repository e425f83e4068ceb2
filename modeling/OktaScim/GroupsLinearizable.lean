import OktaScim.CheckThenAct
import OktaScim.ConcurrentStore
import OktaScim.MembershipRefinement

/-!
Concurrent requests on groups. A PUT or PATCH writes in one call and reads what
it answers in a later one, so that it can answer with what another client has
written in between. Runs in which nobody does that are equivalent to sequential
ones.
-/
namespace OktaScim.GroupsLinearizable

open Programs Interleavings Linearization CheckThenAct Schema PrismaClient PrismaConstraints
open JsValues Bodies GroupPatch Representations Requests RequestPrograms GroupPatchEffect
open GroupUpdates MembershipModel MembershipRefinement ConcurrentStore

/-- A representation of a group without its timestamps. -/
structure Shown : Type where
  id : String
  displayName : String
  externalId : Option String
  members : Set String

def shown (rep : GroupRep) : Shown where
  id := rep.id
  displayName := rep.displayName
  externalId := rep.externalId
  members := {u | u ∈ rep.members.map MemberRep.value}

/-- What a client sees of an answer. -/
inductive Observed : Type
  | success (status : ℕ) (rep : Option Shown)
  | failure (status : ℕ) (scimType : Option String)

def observe : Except Exception Answer → Observed
  | .ok ⟨status, .group rep⟩ => .success status (some (shown rep))
  | .ok ⟨status, _⟩ => .success status none
  | .error e => .failure (toScimError e).status (toScimError e).scimType

def GroupsRequest : Request → Prop
  | .getGroup _ => True
  | .createGroup _ => True
  | .replaceGroup _ _ => True
  | .patchGroup _ _ => True
  | .deleteGroup _ => True
  | _ => False

/-- The request looks the group `id` up, runs `ops` and reads the group. -/
inductive Writes : Request → String → List BatchOp → Prop
  | replace {id : String} {dto : UpdateScimGroupDto} {members : List (Option String)} :
      GroupsService.memberCreates dto.members = some members →
      Writes (.replaceGroup id dto) id (GroupsService.replaceOperations id dto members)
  | patch {id : String} {operations : List (Option PatchOperation)} {r : GroupPatchResult} :
      applyGroupPatch operations = some r → GroupsService.patchOperations id r ≠ [] →
      Writes (.patchGroup id operations) id (GroupsService.patchOperations id r)

/-- The batch adds members and does not touch the group's own row. -/
def InsertsOnly (ops : List BatchOp) : Prop :=
  (∃ id v, .memberUpsert id v ∈ ops) ∧ ∀ id data, .groupUpdate id data ∉ ops

section Reads

variable (env : Env) (s : Store) (id : String)

/-- What a read of the group shows. -/
def view : Option Shown :=
  (s.group id).map fun g => shown (toScimGroup (withMembers s g) env.baseUrl)

def readObserved : Option Shown → Observed
  | none => .failure 404 none
  | some rep => .success 200 (some rep)

theorem find_group (t : Tick) {g : Option ScimGroup} (h : s.group id = g) :
    exec env.engine t (.groupFindUnique id) s = .ok (g.map (withMembers s), s) := by
  rw [← h]
  rfl

theorem run_readGroup_observed (ticks : ℕ → Tick) :
    (run (exec env.engine) ticks (readGroup env id) s).2 = s ∧
      observe (run (exec env.engine) ticks (readGroup env id) s).1 =
        readObserved (view env s id) := by
  rw [run_readGroup]
  unfold view
  cases s.group id <;> exact ⟨rfl, rfl⟩

/-- A closing read shows the group as it is when the read is made. -/
theorem readGroup_endsWith (o : Observed) :
    EndsWith (exec env.engine) observe s o (readGroup env id) ↔
      o = readObserved (view env s id) := by
  have hended : ∀ (t : Tick) c k, readGroup env id = .call c k →
      (next (exec env.engine) t c k s).2 = s ∧
        ∃ r, (next (exec env.engine) t c k s).1.result = some r ∧
          observe r = readObserved (view env s id) := by
    intro t c k hcall
    unfold readGroup at hcall
    cases hcall
    rw [next_ok (exec env.engine) _ (find_group env s id t rfl)]
    refine ⟨rfl, ?_⟩
    unfold view
    cases s.group id <;> exact ⟨_, rfl, rfl⟩
  constructor
  · rintro ⟨c, k, hcall, hall⟩
    obtain ⟨_, r, hr, ho⟩ := hall (sampleTick "x" 0)
    obtain ⟨_, r', hr', hview⟩ := hended (sampleTick "x" 0) c k hcall
    rw [hr] at hr'
    rw [ho, Option.some.inj hr', hview]
  · intro ho
    refine ⟨_, _, rfl, fun t => ?_⟩
    obtain ⟨hstore, r, hr, hview⟩ := hended t _ _ rfl
    exact ⟨hstore, r, hr, ho.trans hview.symm⟩

end Reads

section Batches

variable {E : Engine} {t : Tick} {id : String} {s : Store}

/-- A valid store has no memberships of a group that it does not have. -/
theorem delete_absent (hs : s.Valid) (hid : s.group id = none) (p : String → Bool) :
    (Write.memberDeleteMany (some id) p).exec t s = .ok s := by
  have hkeep : ∀ m ∈ s.members,
      (!(((some id).all fun g => decide (m.groupId = g)) && p m.userId)) = true := by
    intro m hm
    have hne : m.groupId ≠ id := by
      intro heq
      have hsome := hs.memberGroup m hm
      rw [heq, hid] at hsome
      contradiction
    simp [hne]
  simp only [Write.exec, List.filter_eq_self.mpr hkeep]

theorem removals_absent (hs : s.Valid) (hid : s.group id = none) {values : List Json}
    {ws : List Write}
    (hread : (values.map fun v => BatchOp.memberDeleteMany (some id) (some v)).mapM
      (BatchOp.read E) = some ws) :
    execWrites t ws s = .ok s := by
  induction values generalizing ws with
  | nil =>
    cases hread
    rfl
  | cons v values ih =>
    obtain ⟨w, rest, hw, hrest, rfl⟩ := mapM_cons_some hread
    obtain ⟨p, _, rfl⟩ := Option.map_eq_some_iff.mp hw
    simp only [execWrites, delete_absent hs hid]
    exact ih hrest

theorem update_absent (hid : s.group id = none) (displayName : Option String)
    (externalId : Nullable String) (userIds : List String) :
    (Write.groupUpdate id displayName externalId userIds).exec t s = .error .P2025 := by
  simp only [Write.exec, hid]

/-- Where the group is missing, a batch that does not only insert fails with
P2025 or has no effect. -/
theorem transaction_absent {r : Request} {ops : List BatchOp} {ws : List Write}
    (h : Writes r id ops) (hs : s.Valid) (hid : s.group id = none)
    (hread : ops.mapM (BatchOp.read E) = some ws) (hops : ¬InsertsOnly ops) :
    transaction E t ops s = .error .P2025 ∨ transaction E t ops s = .ok ((), s) := by
  simp only [transaction, hread]
  cases h with
  | @replace id dto members hmembers =>
    obtain ⟨w, rest, hw, hrest, rfl⟩ := mapM_cons_some hread
    cases hw
    obtain ⟨w', rest', hw', _, rfl⟩ := mapM_cons_some hrest
    obtain ⟨userIds, _, rfl⟩ := Option.map_eq_some_iff.mp hw'
    simp only [execWrites, delete_absent hs hid, update_absent hid]
    exact Or.inl trivial
  | @patch id operations r hr hne =>
    obtain ⟨w₁₂, w₃, hread₁₂, hread₃, rfl⟩ := mapM_append_some hread
    obtain ⟨w₁, w₂, hread₁, hread₂, rfl⟩ := mapM_append_some hread₁₂
    by_cases hset : r.displayName.isSome ∨ r.externalId.isSome
    · rw [if_pos hset] at hread₁
      have hw₁ : w₁ =
          [.groupUpdate id r.displayName (GroupsService.patchColumn r.externalId) []] :=
        (Option.some.inj hread₁).symm
      rw [hw₁, List.append_assoc, List.singleton_append]
      simp only [execWrites, update_absent hid]
      exact Or.inl trivial
    · rw [if_neg hset] at hread₁
      have hnone : r.addMemberIds = [] := by
        by_contra hadd
        obtain ⟨v, hv⟩ := List.exists_mem_of_ne_nil _ hadd
        refine hops ⟨⟨id, v, ?_⟩, fun id' data hmem => ?_⟩
        · exact List.mem_append_right _ (List.mem_map_of_mem hv)
        · simp [GroupsService.patchOperations, hset] at hmem
      rw [hnone] at hread₃
      have hw₃ : w₃ = [] := (Option.some.inj hread₃).symm
      have hw₁ : w₁ = [] := (Option.some.inj hread₁).symm
      rw [hw₁, hw₃, List.nil_append, List.append_nil, removals_absent hs hid hread₂]
      exact Or.inr rfl

end Batches

section CommitPoints

variable (env : Env)

theorem Writes.handle {r : Request} {id : String} {ops : List BatchOp} (h : Writes r id ops) :
    r.handle env =
      .call (.groupFindUnique id) (GroupsService.whenFound id (writeGroup env id ops)) := by
  cases h with
  | replace hmembers =>
    rw [handle_replaceGroup, replaceGroupTail, hmembers]
  | @patch id operations r hr hne =>
    rw [handle_patchGroup_some env hr, patchGroupTail]
    cases hops : GroupsService.patchOperations id r with
    | nil => exact absurd hops hne
    | cons op ops => rfl

/-- The group is there when a batch that only inserts is about to run. -/
def Ready (r : Request) (p : Service Answer) (s : Store) : Prop :=
  ∀ id ops, Writes r id ops → p = writeGroup env id ops → InsertsOnly ops →
    (s.group id).isSome = true

/-- The request has written and is about to read its group. -/
def Closing (r : Request) (p : Service Answer) : Prop :=
  ∃ id ops, Writes r id ops ∧ p = readGroup env id

abbrev Linear (r : Request) : Prop :=
  ChecksThenActs (exec env.engine) observe Store.Valid (Ready env r) (Closing env r) (r.handle env)

theorem run_lookup_none (t : Tick) {s : Store} {id : String} (rest : Service Answer)
    (hid : s.group id = none) :
    run (exec env.engine) (fun _ => t)
      (.call (.groupFindUnique id) (GroupsService.whenFound id rest)) s =
      (.error (.notFound s!"Group {id} not found"), s) := by
  rw [run_groupLookup, hid]
  rfl

theorem run_lookup_some (t : Tick) {s : Store} {id : String} (rest : Service Answer)
    (hid : (s.group id).isSome = true) :
    run (exec env.engine) (fun _ => t)
      (.call (.groupFindUnique id) (GroupsService.whenFound id rest)) s =
      run (exec env.engine) (fun _ => t) rest s := by
  rw [run_groupLookup, if_pos hid]

/-- The write of a PUT or PATCH acts as the whole request, and the closing read
confirms it. -/
theorem writeGroup_actsAs {r : Request} {id : String} {ops : List BatchOp} {ws : List Write}
    (h : Writes r id ops) (hread : ops.mapM (BatchOp.read env.engine) = some ws) :
    ActsAs (exec env.engine) observe Store.Valid (Ready env r) (Closing env r) (r.handle env)
      (writeGroup env id ops) := by
  rw [h.handle env]
  refine ⟨_, _, rfl, fun t s hs hready => ⟨fun _ => t, ?_⟩⟩
  have hclosing : Closing env r (readGroup env id) := ⟨id, ops, h, rfl⟩
  cases hid : s.group id with
  | some g =>
    have hsome : (s.group id).isSome = true := by
      rw [hid]
      rfl
    rw [run_lookup_some env t _ hsome, run_writeGroup]
    cases htr : transaction env.engine t ops s with
    | ok xs =>
      obtain ⟨x, s'⟩ := xs
      have hexec : exec env.engine t (.transaction ops) s = .ok (x, s') := congrArg rejects htr
      rw [next_ok (exec env.engine) _ hexec]
      obtain ⟨hstore, hview⟩ := run_readGroup_observed env s' id fun _ => t
      exact ⟨hstore, Or.inr ⟨hclosing, (readGroup_endsWith env s' id _).mpr hview⟩⟩
    | error e =>
      have hexec : exec env.engine t (.transaction ops) s = .error (.prisma e) :=
        congrArg rejects htr
      rw [next_error (exec env.engine) _ hexec]
      exact ⟨rfl, Or.inl (settled_of_ended rfl)⟩
  | none =>
    rw [run_lookup_none env t _ hid]
    have hops : ¬InsertsOnly ops := by
      intro hinserts
      have hsome := hready id ops h rfl hinserts
      rw [hid] at hsome
      contradiction
    rcases transaction_absent h hs hid hread hops with htr | htr
    · have hexec : exec env.engine t (.transaction ops) s = .error (.prisma .P2025) :=
        congrArg rejects htr
      rw [next_error (exec env.engine) _ hexec]
      exact ⟨rfl, Or.inl (Or.inl ⟨.error (.prisma .P2025), rfl, rfl⟩)⟩
    · have hexec : exec env.engine t (.transaction ops) s = .ok ((), s) := congrArg rejects htr
      rw [next_ok (exec env.engine) _ hexec]
      have hview : view env s id = none := by
        unfold view
        rw [hid]
        rfl
      refine ⟨rfl, Or.inr ⟨hclosing, (readGroup_endsWith env s id _).mpr ?_⟩⟩
      rw [hview]
      rfl

theorem writes_linear {r : Request} {id : String} {ops : List BatchOp} (h : Writes r id ops) :
    Linear env r := by
  unfold Linear
  cases hread : ops.mapM (BatchOp.read env.engine) with
  | some ws =>
    have hacts := writeGroup_actsAs env h hread
    rw [h.handle env] at hacts ⊢
    refine checksThenActs_of_act hacts fun t s _ => ?_
    cases hid : s.group id with
    | none => exact ⟨none, find_group env s id t hid, Or.inl ⟨_, rfl⟩⟩
    | some g => exact ⟨some (withMembers s g), find_group env s id t hid, Or.inr rfl⟩
  | none =>
    -- a batch that Prisma does not accept fails whether or not the group is still there
    have hfails : ∀ t s, exec env.engine t (.transaction ops) s = .error (.prisma .validation) := by
      intro t s
      simp only [exec, transaction, hread, rejects]
    rw [h.handle env]
    refine checksThenActs_of_doomed fun t s _ => ?_
    cases hid : s.group id with
    | none => exact ⟨none, find_group env s id t hid, Or.inl ⟨_, rfl⟩⟩
    | some g =>
      exact ⟨some (withMembers s g), find_group env s id t hid, Or.inr ⟨_, _, _, rfl, hfails⟩⟩

theorem createGroup_linear (dto : CreateScimGroupDto) : Linear env (.createGroup dto) := by
  unfold Linear
  rw [handle_createGroup, createGroupTail]
  have hfind : ∀ (t : Tick) (s : Store),
      exec env.engine t (.groupFindUniqueByName dto.displayName) s =
        .ok (s.groupNamed dto.displayName, s) := fun _ _ => rfl
  cases hmembers : GroupsService.memberCreates dto.members with
  | none =>
    refine checksThenActs_of_doomed fun t s _ => ⟨_, hfind t s, ?_⟩
    cases s.groupNamed dto.displayName <;> exact Or.inl ⟨_, rfl⟩
  | some members =>
    cases hread : readMembers members with
    | none =>
      refine checksThenActs_of_doomed fun t s _ => ⟨_, hfind t s, ?_⟩
      cases s.groupNamed dto.displayName with
      | some g => exact Or.inl ⟨_, rfl⟩
      | none =>
        refine Or.inr ⟨_, _, .prisma .validation, rfl, fun t' s' => ?_⟩
        simp only [exec, groupCreate, hread, rejects]
    | some userIds =>
      refine checksThenActs_of_guard
        (c := .groupCreate ⟨dto.displayName, dto.externalId, members⟩)
        (k := fun group => .pure (groupAnswer env 201 group)) (fun _ => Option.some_ne_none _)
        fun t s _ => ⟨_, hfind t s, ?_⟩
      cases hname : s.groupNamed dto.displayName with
      | none => exact Or.inr rfl
      | some g =>
        have htaken : exec env.engine t
            (.groupCreate ⟨dto.displayName, dto.externalId, members⟩) s =
            .error (.prisma .P2002) := by
          simp only [exec, groupCreate, hread, hname, Option.isSome_some, or_true, if_true, rejects]
        exact Or.inl ⟨_, _, rfl, next_error (exec env.engine) _ htaken, rfl⟩

theorem groupsRequest_linear (r : Request) (hr : GroupsRequest r) : Linear env r := by
  cases r with
  | getGroup id =>
    unfold Linear
    rw [handle_getGroup]
    exact Or.inr (Or.inl (actsAs_of_one_call (showGroup_ended env id)))
  | createGroup dto => exact createGroup_linear env dto
  | replaceGroup id dto =>
    cases hmembers : GroupsService.memberCreates dto.members with
    | some members => exact writes_linear env (.replace hmembers)
    | none =>
      unfold Linear
      rw [handle_replaceGroup, replaceGroupTail, hmembers]
      refine checksThenActs_of_doomed fun t s _ => ⟨_, find_group env s id t rfl, ?_⟩
      cases s.group id <;> exact Or.inl ⟨_, rfl⟩
  | patchGroup id operations =>
    cases hr : applyGroupPatch operations with
    | none =>
      unfold Linear
      rw [handle_patchGroup_none env hr]
      exact Or.inl ⟨_, rfl⟩
    | some patch =>
      by_cases hops : GroupsService.patchOperations id patch = []
      · -- nothing to write: the lookup is followed by a read of the same group
        unfold Linear
        rw [handle_patchGroup_some env hr, patchGroupTail, hops]
        refine checksThenActs_of_guard (c := .groupFindUnique id)
          (showGroup_ended env id) fun t s _ => ⟨_, find_group env s id t rfl, ?_⟩
        cases hid : s.group id with
        | some g => exact Or.inr rfl
        | none =>
          exact Or.inl ⟨_, _, rfl, next_ok (exec env.engine) _ (find_group env s id t hid), rfl⟩
      · exact writes_linear env (.patch hr hops)
  | deleteGroup id =>
    unfold Linear
    rw [handle_deleteGroup]
    refine checksThenActs_of_guard (c := .groupDelete id) (k := fun _ => .pure ⟨204, .empty⟩)
      (fun _ => Option.some_ne_none _) fun t s _ => ⟨_, find_group env s id t rfl, ?_⟩
    cases hid : s.group id with
    | some g => exact Or.inr rfl
    | none =>
      have hmissing : exec env.engine t (.groupDelete id) s = .error (.prisma .P2025) := by
        simp only [exec, groupDelete, hid, rejects]
      exact Or.inl ⟨_, _, rfl, next_error (exec env.engine) _ hmissing, rfl⟩
  | listUsers filter pagination => exact hr.elim
  | getUser id => exact hr.elim
  | createUser salt dto => exact hr.elim
  | replaceUser salt id dto => exact hr.elim
  | patchUser id operations => exact hr.elim
  | deleteUser id => exact hr.elim
  | listGroups filter pagination => exact hr.elim
  | clearData => exact hr.elim

end CommitPoints

section OwnChange

/-- The representation shows what the request has asked for. -/
def OwnChange (E : Engine) : Request → Shown → Prop
  | .replaceGroup id dto, rep =>
    rep.id = id ∧ rep.displayName = dto.displayName ∧ rep.members = listed dto.members ∧
      (dto.externalId ≠ .undefined → rep.externalId = writeColumn dto.externalId none)
  | .patchGroup id operations, rep =>
    rep.id = id ∧ ∀ r, applyGroupPatch operations = some r →
      (∀ n, r.displayName = some n → rep.displayName = n) ∧
      (∀ x, r.externalId = some x → rep.externalId = some x) ∧
      ∀ u, (.str u ∈ r.addMemberIds → u ∈ rep.members) ∧
        (u ∈ rep.members → (∃ v ∈ r.removeMemberIds, Selects E v u) → .str u ∈ r.addMemberIds)
  | _, _ => True

variable {env : Env} {ticks : ℕ → Tick} {s s' : Store} {a : Answer} {id : String}

theorem members_shown (hs : s.Valid) (g : ScimGroup) (u : String) :
    u ∈ (shown (toScimGroup (withMembers s g) env.baseUrl)).members ↔
      (⟨g.id, u⟩ : ScimGroupMember) ∈ s.members := by
  rw [← Store.mem_memberIds, ← members_toScimGroup hs g env.baseUrl]
  rfl

theorem replaceGroup_ownChange {dto : UpdateScimGroupDto} (hs : s'.Valid)
    (h : serve env ticks (.replaceGroup id dto) s = (.ok a, s')) :
    ∃ rep, observe (.ok a) = .success 200 (some rep) ∧
      OwnChange env.engine (.replaceGroup id dto) rep := by
  obtain ⟨creates, userIds, g, hcreates, hids, hg, hrepl, g', hg', rfl⟩ := replaceGroup_ok h
  have hrow : g' = updateGroup (ticks 1).now (some dto.displayName) dto.externalId g := by
    rw [hrepl.group id, if_pos rfl, hg] at hg'
    exact (Option.some.inj hg').symm
  have hid : g'.id = id := KeyedRows.key_of_findRow hg'
  refine ⟨_, rfl, hid, ?_, ?_, fun hset => ?_⟩
  · exact congrArg ScimGroup.displayName hrow
  · rw [← mem_listed_iff hcreates hids]
    ext u
    rw [members_shown hs, hid, ← Store.mem_memberIds, Store.memberIds, hrepl.own_members]
    simp
  · have hcolumn : g'.externalId = writeColumn dto.externalId g.externalId :=
      congrArg ScimGroup.externalId hrow
    refine hcolumn.trans ?_
    cases hext : dto.externalId with
    | undefined => exact absurd hext hset
    | null => rfl
    | value x => rfl

theorem patchGroup_ownChange {operations : List (Option PatchOperation)} (hs : s'.Valid)
    (h : serve env ticks (.patchGroup id operations) s = (.ok a, s')) :
    ∃ rep, observe (.ok a) = .success 200 (some rep) ∧
      OwnChange env.engine (.patchGroup id operations) rep := by
  obtain ⟨r, g', hr, hg, hpatched, hg', rfl⟩ := patchGroup_ok h
  obtain ⟨g, hg⟩ := Option.isSome_iff_exists.mp hg
  obtain ⟨hname, hext⟩ := hpatched.columns
  rw [hg, hg'] at hname hext
  have hid : g'.id = id := KeyedRows.key_of_findRow hg'
  refine ⟨_, rfl, hid, fun r' hr' => ?_⟩
  rw [hr] at hr'
  cases hr'
  refine ⟨fun n hn => ?_, fun x hx => ?_, fun u => ?_⟩
  · have hshown : g'.displayName = r.displayName.getD g.displayName := Option.some.inj hname
    rw [hn] at hshown
    exact hshown
  · have hshown : g'.externalId = r.externalId.or g.externalId := Option.some.inj hext
    rw [hx] at hshown
    exact hshown
  · rw [members_shown hs, hid, hpatched.members]
    constructor
    · exact fun hadd => Or.inr ⟨rfl, hadd⟩
    · rintro (⟨_, hkept⟩ | ⟨_, hadd⟩) hremoved
      · exact absurd ⟨rfl, hremoved⟩ hkept
      · exact hadd

theorem serve_ownChange {r : Request} (hs : s.Valid) (h : serve env ticks r s = (.ok a, s'))
    {status : ℕ} {rep : Shown} (ho : observe (.ok a) = .success status (some rep)) :
    OwnChange env.engine r rep := by
  have hvalid : s'.Valid := serve_valid hs h
  cases r with
  | replaceGroup id dto =>
    obtain ⟨rep', ho', hchange⟩ := replaceGroup_ownChange hvalid h
    rw [ho] at ho'
    cases ho'
    exact hchange
  | patchGroup id operations =>
    obtain ⟨rep', ho', hchange⟩ := patchGroup_ownChange hvalid h
    rw [ho] at ho'
    cases ho'
    exact hchange
  | _ => trivial

end OwnChange

section Runs

variable {ι : Type} [DecidableEq ι]

/-- Nobody comes between the calls of a write: its group is there when a batch
that only inserts runs, and no other client changes what the group shows
between the batch and the closing read. -/
structure Undisturbed (env : Env) (request : ι → Request) (cfg : Clients ι)
    (e : Event ι Tick) : Prop where
  write : ∀ i t p, e = .call i t → cfg.threads i = some p → Ready env (request i) p cfg.store
  read : ∀ i j t id ops c k, e = .call j t → i ≠ j → Writes (request i) id ops →
    cfg.threads i = some (readGroup env id) → cfg.threads j = some (.call c k) →
    view env (next (exec env.engine) t c k cfg.store).2 id = view env cfg.store id

/-- Undisturbed requests on groups are explained by an order of them, and every
representation that is answered shows what its own request has asked for. -/
theorem groups_linearizable_of_undisturbed {env : Env} {s : Store} (hs : s.Valid)
    {request : ι → Request} (hrequest : ∀ i, GroupsRequest (request i)) {cfg : Clients ι}
    (h : ServedWhen (Undisturbed env request) env request s cfg) :
    ∃ order : List (ι × (ℕ → Tick)),
      Linearizes (exec env.engine) (fun i => (request i).handle env) observe s cfg order ∧
      (cfg.Quiescent → ∀ i, i ∈ order.map Prod.fst ↔ cfg.threads i ≠ none) ∧
      ∀ i status rep, (cfg.answered i).map observe = some (.success status (some rep)) →
        OwnChange env.engine (request i) rep := by
  have P : CommitPoints (exec env.engine) (fun i => (request i).handle env) observe Store.Valid
      (Undisturbed env request) := by
    refine commitPoints (fun i => groupsRequest_linear env (request i) (hrequest i))
      (fun cfg i t p hallow hp => hallow.write i t p rfl hp) ?_
    rintro cfg j t c k _ hallow hcall i p o hij hp ⟨id, ops, hwrites, rfl⟩ hends
    rw [readGroup_endsWith] at hends ⊢
    rw [hallow.read i j t id ops c k rfl hij hwrites hp hcall]
    exact hends
  obtain ⟨order, horder⟩ := P.linearizable (exec_keeps_valid env.engine) s hs h
  refine ⟨order, horder, fun hq => horder.mem_iff_of_quiescent _ _ hq, fun i status rep hrep => ?_⟩
  obtain ⟨r, hr, ho⟩ := Option.map_eq_some_iff.mp hrep
  obtain ⟨r', hmem, hobs⟩ := horder.answers i r hr
  obtain ⟨ticks, mid, s', hmid, hrun⟩ :=
    mem_runOrder (exec env.engine) _ (exec_keeps_valid env.engine) hs hmem
  rw [ho] at hobs
  cases r' with
  | ok a => exact serve_ownChange hmid hrun hobs
  | error e => contradiction

end Runs

section Samples

/-- A group is renamed and read at the same time. -/
def renameAndRead : Bool → Request
  | true => .replaceGroup "g" ⟨"night", .undefined, .undefined⟩
  | false => .getGroup "g"

theorem writes_renameAndRead {i : Bool} {id : String} {ops : List BatchOp}
    (h : Writes (renameAndRead i) id ops) : i = true ∧ ¬InsertsOnly ops := by
  cases i with
  | false =>
    unfold renameAndRead at h
    cases h
  | true =>
    unfold renameAndRead at h
    cases h
    exact ⟨rfl, fun hinserts =>
      hinserts.2 _ _ (List.mem_cons_of_mem _ (List.mem_singleton.mpr rfl))⟩

/-- A step is undisturbed when the reader leaves the store alone. -/
theorem undisturbed_renameAndRead {cfg : Clients Bool} {e : Event Bool Tick}
    (h : ∀ t c k, e = .call false t → cfg.threads false = some (.call c k) →
      (next (exec sampleEnv.engine) t c k cfg.store).2 = cfg.store) :
    Undisturbed sampleEnv renameAndRead cfg e where
  write i t p _ _ id ops hwrites _ hinserts :=
    absurd hinserts (writes_renameAndRead hwrites).2
  read i j t id ops c k he hij hwrites _ hcall := by
    have hi : i = true := (writes_renameAndRead hwrites).1
    have hj : j = false := by
      cases j with
      | false => rfl
      | true => exact absurd hi hij
    subst hj
    rw [h t c k he hcall]

/-- The group is read between the write and the closing read of a rename. -/
theorem groups_linearizable_of_undisturbed_sample :
    ∃ cfg : Clients Bool, cfg.Quiescent ∧ ∃ order : List (Bool × (ℕ → Tick)),
      Linearizes (exec sampleEnv.engine) (fun i => (renameAndRead i).handle sampleEnv) observe
        sampleStore cfg order ∧
      (cfg.Quiescent → ∀ i, i ∈ order.map Prod.fst ↔ cfg.threads i ≠ none) ∧
      ∀ i status rep, (cfg.answered i).map observe = some (.success status (some rep)) →
        OwnChange sampleEnv.engine (renameAndRead i) rep := by
  have h₀ : ServedWhen (Undisturbed sampleEnv renameAndRead) sampleEnv renameAndRead sampleStore
      (Config.initial sampleStore) := .refl
  have h₁ := h₀.tail (e := .start true) (undisturbed_renameAndRead fun _ _ _ h => by cases h) rfl
  have h₂ := h₁.tail (e := .call true (sampleTick "x" 0))
    (undisturbed_renameAndRead fun _ _ _ h => by cases h) rfl
  have h₃ := h₂.tail (e := .call true (sampleTick "x" 1))
    (undisturbed_renameAndRead fun _ _ _ h => by cases h) rfl
  have h₄ := h₃.tail (e := .start false) (undisturbed_renameAndRead fun _ _ _ h => by cases h) rfl
  have h₅ := h₄.tail (e := .call false (sampleTick "x" 2))
    (undisturbed_renameAndRead fun _ _ _ _ hcall => by
      cases hcall
      rfl) rfl
  have h₆ := h₅.tail (e := .call true (sampleTick "x" 3))
    (undisturbed_renameAndRead fun _ _ _ h => by cases h) rfl
  refine ⟨_, ?_, groups_linearizable_of_undisturbed sampleStore_valid
    (fun i => by cases i <;> trivial) h₆⟩
  intro i p hp
  cases i <;> cases hp <;> exact Option.some_ne_none _

/-- Two clients that rename the same group. -/
def renames : Bool → Request
  | true => .replaceGroup "g" ⟨"night", .undefined, .undefined⟩
  | false => .replaceGroup "g" ⟨"day", .undefined, .undefined⟩

/-- Both look the group up, both write, and only then do both read. -/
def renameEvents : List (Event Bool Tick) :=
  [.start true, .start false, .call true (sampleTick "x" 0), .call false (sampleTick "x" 1),
    .call true (sampleTick "x" 2), .call false (sampleTick "x" 3), .call true (sampleTick "x" 4),
    .call false (sampleTick "x" 5)]

/-- The first client is answered with the name that the second has given, which
no order of the two requests explains. -/
theorem concurrent_renames_not_linearizable :
    sampleStore.Valid ∧ (∀ i, GroupsRequest (renames i)) ∧ ∃ cfg : Clients Bool,
      Served sampleEnv renames sampleStore cfg ∧ cfg.Quiescent ∧
      (∃ rep, (cfg.answered true).map observe = some (.success 200 (some rep)) ∧
        ¬OwnChange sampleEnv.engine (renames true) rep) ∧
      ¬∃ order : List (Bool × (ℕ → Tick)), ∀ i r, cfg.answered i = some r →
        ∃ r', (i, r') ∈ (runOrder (exec sampleEnv.engine) (fun i => (renames i).handle sampleEnv)
          order sampleStore).1 ∧ observe r' = observe r := by
  have hstart : Served sampleEnv renames sampleStore (Config.initial sampleStore) := .refl
  have hserved := reaches_runEvents (exec sampleEnv.engine) _ hstart renameEvents
    (fun _ _ _ => trivial) rfl
  refine ⟨sampleStore_valid, fun i => by cases i <;> trivial, _, hserved, ?_, ⟨_, rfl, ?_⟩, ?_⟩
  · intro i p hp
    cases i <;> cases hp <;> exact Option.some_ne_none _
  · intro hchange
    have hname := hchange.2.1
    contradiction
  · rintro ⟨order, horder⟩
    obtain ⟨r', hmem, hobs⟩ := horder true _ rfl
    obtain ⟨ticks, mid, s', hmid, hrun⟩ :=
      mem_runOrder (exec sampleEnv.engine) _ (exec_keeps_valid sampleEnv.engine) sampleStore_valid
        hmem
    cases r' with
    | error e => contradiction
    | ok a =>
      have hname := (serve_ownChange hmid hrun hobs).2.1
      contradiction

end Samples

end OktaScim.GroupsLinearizable
