import OktaScim.DirectorySessions
import OktaScim.GroupsLinearizable
import OktaScim.Observations
import OktaScim.UsersLinearizable

/-!
The whole API under concurrency. Requests on users and on groups are mixed and
their database calls interleaved; where nobody comes between the calls of a
write to a group, every run is explained by operations on the directory, one
after the other in an order that respects real time.
-/
namespace OktaScim.ConcurrentApi

open Programs Interleavings Linearization CheckThenAct Observations Schema PrismaClient
open PrismaConstraints Bodies UserPatch GroupPatch Representations Requests RequestPrograms
open ConcurrentStore GroupsLinearizable Directories DirectoryRefinement DirectorySessions
open Simulations

/-- What a client sees: of a group what is not a timestamp or a display name, of
anything else the whole answer, and of an error its status and SCIM type. -/
inductive Seen : Type
  | group (status : ℕ) (rep : Shown)
  | answer (a : Answer)
  | failure (status : ℕ) (scimType : Option String)

def see : Except Exception Answer → Seen
  | .ok ⟨status, .group rep⟩ => .group status (shown rep)
  | .ok a => .answer a
  | .error e => .failure (toScimError e).status (toScimError e).scimType

section Classification

variable (env : Env)

/-- Answers of requests on single groups. -/
def ShowsGroup (a : Answer) : Prop := (∃ rep, a.body = .group rep) ∨ a.body = .empty

theorem readGroup_showsGroup (id : String) : Returns ShowsGroup (readGroup env id) := by
  intro group
  cases group with
  | none => trivial
  | some group => exact Or.inl ⟨_, rfl⟩

theorem groupFound_showsGroup {rest : Service Answer} (id : String)
    (hrest : Returns ShowsGroup rest) (group : Option GroupWithMembers) :
    Returns ShowsGroup (GroupsService.whenFound id rest group) := by
  cases group with
  | none => trivial
  | some group => exact hrest

theorem groupsRequest_showsGroup {r : Request} (hr : GroupsRequest r) :
    Returns ShowsGroup (r.handle env) := by
  cases r with
  | getGroup id =>
    rw [handle_getGroup]
    exact readGroup_showsGroup env id
  | createGroup dto =>
    rw [handle_createGroup]
    intro existing
    cases existing with
    | some g => trivial
    | none =>
      unfold createGroupTail
      cases GroupsService.memberCreates dto.members with
      | none => trivial
      | some members => exact fun g => Or.inl ⟨_, rfl⟩
  | replaceGroup id dto =>
    rw [handle_replaceGroup]
    refine groupFound_showsGroup id ?_
    unfold replaceGroupTail
    cases GroupsService.memberCreates dto.members with
    | none => trivial
    | some members => exact fun _ => readGroup_showsGroup env id
  | patchGroup id operations =>
    cases hpatch : applyGroupPatch operations with
    | none =>
      rw [handle_patchGroup_none env hpatch]
      trivial
    | some patch =>
      rw [handle_patchGroup_some env hpatch]
      refine groupFound_showsGroup id ?_
      unfold patchGroupTail
      cases GroupsService.patchOperations id patch with
      | nil => exact readGroup_showsGroup env id
      | cons op ops => exact fun _ => readGroup_showsGroup env id
  | deleteGroup id =>
    rw [handle_deleteGroup]
    exact groupFound_showsGroup id (fun _ => Or.inr rfl)
  | listUsers filter pagination => exact hr.elim
  | getUser id => exact hr.elim
  | createUser salt dto => exact hr.elim
  | replaceUser salt id dto => exact hr.elim
  | patchUser id operations => exact hr.elim
  | deleteUser id => exact hr.elim
  | listGroups filter pagination => exact hr.elim
  | clearData => exact hr.elim

/-- An observer of users sees no less. -/
theorem see_of_users : Coarser (fun _ => True) UsersLinearizable.observe see := by
  rintro (e | a) (e' | a') _ _ h
  · simp only [UsersLinearizable.observe, UsersLinearizable.Observed.failure.injEq] at h
    simp only [see, h.1, h.2]
  · contradiction
  · contradiction
  · simp only [UsersLinearizable.observe, UsersLinearizable.Observed.success.injEq] at h
    rw [h]

/-- For answers that show a group, nor does an observer of groups. -/
theorem see_of_groups : Coarser ShowsGroup GroupsLinearizable.observe see := by
  rintro (e | ⟨status, body⟩) (e' | ⟨status', body'⟩) hr hr' h
  · simp only [GroupsLinearizable.observe, GroupsLinearizable.Observed.failure.injEq] at h
    simp only [see, h.1, h.2]
  · cases body' <;> contradiction
  · cases body <;> contradiction
  · obtain ⟨rep, rfl⟩ | rfl := hr _ rfl
    · obtain ⟨rep', rfl⟩ | rfl := hr' _ rfl
      · simp only [GroupsLinearizable.observe, GroupsLinearizable.Observed.success.injEq,
          Option.some.injEq] at h
        simp only [see, h.1, h.2]
      · simp [GroupsLinearizable.observe] at h
    · obtain ⟨rep', rfl⟩ | rfl := hr' _ rfl
      · simp [GroupsLinearizable.observe] at h
      · simp only [GroupsLinearizable.observe, GroupsLinearizable.Observed.success.injEq,
          and_true] at h
        rw [h]

theorem returns_true {α : Type} (p : Service α) : Returns (fun _ => True) p := by
  induction p with
  | pure a => trivial
  | throw e => trivial
  | call c k ih => exact ih

/-- Every request but the demo's data reset checks and then acts. -/
theorem request_linear (r : Request) (hr : r ≠ .clearData) :
    ChecksThenActs (exec env.engine) see Store.Valid (Ready env r) (Closing env r)
      (r.handle env) := by
  have husers : UsersLinearizable.UsersRequest r → ChecksThenActs (exec env.engine) see Store.Valid
      (Ready env r) (Closing env r) (r.handle env) := fun hu =>
    checksThenActs_transfer see_of_users (fun _ _ => trivial) (fun _ _ _ => trivial)
      (fun _ h => h.elim) (returns_true _) (UsersLinearizable.usersRequest_checksThenActs env r hu)
  have hgroups : GroupsRequest r → ChecksThenActs (exec env.engine) see Store.Valid
      (Ready env r) (Closing env r) (r.handle env) := fun hg =>
    checksThenActs_transfer see_of_groups (fun _ hs => hs) (fun _ _ h => h) (fun _ h => h)
      (groupsRequest_showsGroup env hg) (groupsRequest_linear env r hg)
  cases r with
  | listGroups filter pagination =>
    rw [handle_listGroups]
    exact Or.inr (Or.inl (actsAs_of_one_call fun page => Option.some_ne_none _))
  | clearData => exact absurd rfl hr
  | listUsers filter pagination => exact husers trivial
  | getUser id => exact husers trivial
  | createUser salt dto => exact husers trivial
  | replaceUser salt id dto => exact husers trivial
  | patchUser id operations => exact husers trivial
  | deleteUser id => exact husers trivial
  | getGroup id => exact hgroups trivial
  | createGroup dto => exact hgroups trivial
  | replaceGroup id dto => exact hgroups trivial
  | patchGroup id operations => exact hgroups trivial
  | deleteGroup id => exact hgroups trivial

/-- A closing read is seen by what the group shows when it is made. -/
def seenRead : Option Shown → Seen
  | none => .failure 404 none
  | some rep => .group 200 rep

theorem readGroup_seen (s : Store) (id : String) (o : Seen) :
    EndsWith (exec env.engine) see s o (readGroup env id) ↔ o = seenRead (view env s id) := by
  have hended : ∀ t : Tick, ∃ r,
      (next (exec env.engine) t (.groupFindUnique id) (showGroup env id) s).2 = s ∧
      (next (exec env.engine) t (.groupFindUnique id) (showGroup env id) s).1.result = some r ∧
        see r = seenRead (view env s id) := by
    intro t
    rw [next_ok (exec env.engine) _ (find_group env s id t rfl)]
    unfold view
    cases s.group id <;> exact ⟨_, rfl, rfl, rfl⟩
  constructor
  · rintro ⟨c, k, hcall, hall⟩
    cases hcall
    obtain ⟨_, r, hr, ho⟩ := hall (sampleTick "x" 0)
    obtain ⟨r', _, hr', hview⟩ := hended (sampleTick "x" 0)
    rw [hr] at hr'
    rw [ho, Option.some.inj hr', hview]
  · intro ho
    refine ⟨_, _, rfl, fun t => ?_⟩
    obtain ⟨r, hstore, hr, hview⟩ := hended t
    exact ⟨hstore, r, hr, ho.trans hview.symm⟩

end Classification

section Explanation

variable {ι : Type} (env : Env) (request : ι → Request)

/-- The requests of an order as the turns of a session. -/
def turnsOf (order : List (ι × (ℕ → Tick))) : List Turn := order.map fun e => (request e.1, e.2)

theorem runOrder_runAll (order : List (ι × (ℕ → Tick))) (s : Store) :
    runOrder (exec env.engine) (fun i => (request i).handle env) order s =
      ((order.map Prod.fst).zip (runAll (serveTurn env) (turnsOf request order) s).1,
        (runAll (serveTurn env) (turnsOf request order) s).2) := by
  induction order generalizing s with
  | nil => rfl
  | cons e order ih =>
    obtain ⟨i, ticks⟩ := e
    simp only [runOrder, ih]
    rfl

/-- The operations of the order, performed one after the other from `d`, leave
what the tables of the configuration represent, every client has been given a
result that agrees with its own reply, and a request that had ended before
another was sent comes before it. -/
structure Explains (d : Directory) (cfg : Clients ι) (order : List (ι × (ℕ → Tick))) : Prop where
  nodup : (order.map Prod.fst).Nodup
  sent : cfg.Quiescent → ∀ i, i ∈ order.map Prod.fst ↔ cfg.threads i ≠ none
  realTime : ∀ i j, cfg.precedes i j = true → j ∈ order.map Prod.fst →
    List.Sublist [i, j] (order.map Prod.fst)
  store : Represents cfg.store (runAll (performTurn env) (turnsOf request order) d).2
  answers : ∀ i r, cfg.answered i = some r → ∃ r' reply,
    (i, reply) ∈ (order.map Prod.fst).zip (runAll (performTurn env) (turnsOf request order) d).1 ∧
      Agrees env r' reply ∧ see r' = see r

theorem exists_partner {α β γ : Type} {R : β → γ → Prop} {is : List α} {xs : List β} {ys : List γ}
    (h : List.Forall₂ R xs ys) {i : α} {x : β} (hx : (i, x) ∈ is.zip xs) :
    ∃ y, (i, y) ∈ is.zip ys ∧ R x y := by
  induction h generalizing is with
  | nil => simp at hx
  | @cons x' y' xs ys hxy _ ih =>
    cases is with
    | nil => simp at hx
    | cons j is =>
      simp only [List.zip_cons_cons, List.mem_cons, Prod.mk.injEq] at hx ⊢
      rcases hx with ⟨rfl, rfl⟩ | hx
      · exact ⟨y', Or.inl ⟨rfl, rfl⟩, hxy⟩
      · obtain ⟨y, hy, hR⟩ := ih hx
        exact ⟨y, Or.inr hy, hR⟩

variable {env request} [DecidableEq ι]

/-- Undisturbed runs of the whole API are explained by an order of operations on
the directory. -/
theorem api_explained {s : Store} (hs : s.Valid) (hrequest : ∀ i, request i ≠ .clearData)
    {cfg : Clients ι} (h : ServedWhen (Undisturbed env request) env request s cfg) :
    ∃ order, Explains env request (directory s hs) cfg order := by
  have P : CommitPoints (exec env.engine) (fun i => (request i).handle env) see Store.Valid
      (Undisturbed env request) := by
    refine commitPoints (fun i => request_linear env (request i) (hrequest i))
      (fun cfg i t p hallow hp => hallow.write i t p rfl hp) ?_
    rintro cfg j t c k _ hallow hcall i p o hij hp ⟨id, ops, hwrites, rfl⟩ hends
    rw [readGroup_seen] at hends ⊢
    rw [hallow.read i j t id ops c k rfl hij hwrites hp hcall]
    exact hends
  obtain ⟨order, horder⟩ := P.linearizable (exec_keeps_valid env.engine) s hs h
  obtain ⟨hresults, _, hrep⟩ := session_refines env hs (turnsOf request order)
  have hrun := runOrder_runAll env request order s
  refine ⟨order, horder.nodup, fun hq => horder.mem_iff_of_quiescent _ _ hq, horder.realTime, ?_,
    fun i r hr => ?_⟩
  · rw [← horder.store, hrun]
    exact hrep
  · obtain ⟨r', hmem, hsee⟩ := horder.answers i r hr
    rw [hrun] at hmem
    obtain ⟨reply, hreply, hagrees⟩ := exists_partner hresults hmem
    exact ⟨r', reply, hreply, hagrees, hsee⟩

end Explanation

section Sample

/-- A group is renamed while a user is read. -/
def renameAndShow : Bool → Request
  | true => .replaceGroup "g" ⟨"night", .undefined, .undefined⟩
  | false => .getUser "u"

/-- A step is undisturbed when the reader leaves the store alone. -/
theorem undisturbed_renameAndShow {cfg : Clients Bool} {e : Event Bool Tick}
    (h : ∀ t c k, e = .call false t → cfg.threads false = some (.call c k) →
      (next (exec sampleEnv.engine) t c k cfg.store).2 = cfg.store) :
    Undisturbed sampleEnv renameAndShow cfg e := by
  have hwriter : ∀ {i id ops}, Writes (renameAndShow i) id ops → i = true ∧ ¬InsertsOnly ops := by
    intro i id ops hwrites
    cases i with
    | false =>
      unfold renameAndShow at hwrites
      cases hwrites
    | true =>
      unfold renameAndShow at hwrites
      cases hwrites
      exact ⟨rfl, fun hinserts =>
        hinserts.2 _ _ (List.mem_cons_of_mem _ (List.mem_singleton.mpr rfl))⟩
  refine ⟨fun i t p _ _ id ops hwrites _ hinserts => absurd hinserts (hwriter hwrites).2, ?_⟩
  intro i j t id ops c k he hij hwrites _ hcall
  have hi : i = true := (hwriter hwrites).1
  have hj : j = false := by
    cases j with
    | false => rfl
    | true => exact absurd hi hij
  subst hj
  rw [h t c k he hcall]

/-- The user is read between the write and the closing read of the rename. -/
theorem api_explained_sample :
    ∃ cfg : Clients Bool, cfg.Quiescent ∧ ∃ order,
      Explains sampleEnv renameAndShow (directory sampleStore sampleStore_valid) cfg order := by
  have h₀ : ServedWhen (Undisturbed sampleEnv renameAndShow) sampleEnv renameAndShow sampleStore
      (Config.initial sampleStore) := .refl
  have h₁ := h₀.tail (e := .start true) (undisturbed_renameAndShow fun _ _ _ h => by cases h) rfl
  have h₂ := h₁.tail (e := .call true (sampleTick "x" 0))
    (undisturbed_renameAndShow fun _ _ _ h => by cases h) rfl
  have h₃ := h₂.tail (e := .call true (sampleTick "x" 1))
    (undisturbed_renameAndShow fun _ _ _ h => by cases h) rfl
  have h₄ := h₃.tail (e := .start false) (undisturbed_renameAndShow fun _ _ _ h => by cases h) rfl
  have h₅ := h₄.tail (e := .call false (sampleTick "x" 2))
    (undisturbed_renameAndShow fun _ _ _ _ hcall => by
      cases hcall
      rfl) rfl
  have h₆ := h₅.tail (e := .call true (sampleTick "x" 3))
    (undisturbed_renameAndShow fun _ _ _ h => by cases h) rfl
  refine ⟨_, ?_, api_explained sampleStore_valid (fun i => by cases i <;> simp [renameAndShow]) h₆⟩
  intro i p hp
  cases i <;> cases hp <;> exact Option.some_ne_none _

end Sample

end OktaScim.ConcurrentApi
