import OktaScim.GroupPatchMeaning
import OktaScim.PrismaConstraints
import OktaScim.RequestPrograms

/-!
What a group PATCH that succeeds leaves in the tables: its own columns, and
the memberships as a set. The removals and additions of the batch are followed
through by induction on the lists the translation has collected.
-/
namespace OktaScim.GroupPatchEffect

open Schema KeyedRows JsValues Programs PrismaClient PrismaConstraints Bodies GroupPatch
open Requests RequestPrograms

/-- A value in a `where` clause selects a user id. -/
def Selects (E : Engine) (v : Json) (userId : String) : Prop :=
  ∃ p, E.stringFilter v = some p ∧ p userId = true

theorem selects_str (E : Engine) (u userId : String) : Selects E (.str u) userId ↔ userId = u := by
  simp [Selects, E.filter_str]

section Batches

theorem mapM_append_some {α β : Type} {f : α → Option β} {l₁ l₂ : List α} {ws : List β}
    (h : (l₁ ++ l₂).mapM f = some ws) :
    ∃ w₁ w₂, l₁.mapM f = some w₁ ∧ l₂.mapM f = some w₂ ∧ ws = w₁ ++ w₂ := by
  rw [List.mapM_append] at h
  simp only [Option.bind_eq_bind, Option.bind_eq_some_iff] at h
  obtain ⟨w₁, h₁, w₂, h₂, hws⟩ := h
  cases hws
  exact ⟨w₁, w₂, h₁, h₂, rfl⟩

theorem mapM_cons_some {α β : Type} {f : α → Option β} {x : α} {l : List α} {ws : List β}
    (h : (x :: l).mapM f = some ws) :
    ∃ w rest, f x = some w ∧ l.mapM f = some rest ∧ ws = w :: rest := by
  rw [List.mapM_cons] at h
  simp only [Option.bind_eq_bind, Option.bind_eq_some_iff] at h
  obtain ⟨w, hw, rest, hrest, hws⟩ := h
  cases hws
  exact ⟨w, rest, hw, hrest, rfl⟩

theorem execWrites_append_ok {t : Tick} {w₁ w₂ : List Write} {s s' : Store}
    (h : execWrites t (w₁ ++ w₂) s = .ok s') :
    ∃ mid, execWrites t w₁ s = .ok mid ∧ execWrites t w₂ mid = .ok s' := by
  induction w₁ generalizing s with
  | nil => exact ⟨s, rfl, h⟩
  | cons w ws ih =>
    obtain ⟨next, hnext, hrest⟩ := execWrites_cons_ok h
    obtain ⟨mid, hmid, hlast⟩ := ih hrest
    exact ⟨mid, by simpa only [execWrites, hnext] using hmid, hlast⟩

/-- Removals take away the memberships of the group that some value selects. -/
theorem removals_ok {E : Engine} {t : Tick} {id : String} {values : List Json}
    {ws : List Write} {s s' : Store}
    (hread : (values.map fun v => BatchOp.memberDeleteMany (some id) (some v)).mapM
      (BatchOp.read E) = some ws)
    (h : execWrites t ws s = .ok s') :
    s'.users = s.users ∧ s'.groups = s.groups ∧
      ∀ m, m ∈ s'.members ↔
        m ∈ s.members ∧ ¬(m.groupId = id ∧ ∃ v ∈ values, Selects E v m.userId) := by
  induction values generalizing ws s with
  | nil =>
    cases hread
    cases h
    simp
  | cons v values ih =>
    obtain ⟨w, rest, hw, hrest, rfl⟩ := mapM_cons_some hread
    obtain ⟨p, hp, rfl⟩ := Option.map_eq_some_iff.mp hw
    obtain ⟨mid, hmid, hlast⟩ := execWrites_cons_ok h
    cases hmid
    obtain ⟨husers, hgroups, hmembers⟩ := ih hrest hlast
    have hsel : ∀ u, Selects E v u ↔ p u = true := by
      intro u
      have hp' : E.stringFilter v = some p := hp
      simp [Selects, hp']
    refine ⟨husers, hgroups, fun m => ?_⟩
    rw [hmembers m]
    by_cases hg : m.groupId = id <;> by_cases hpu : p m.userId = true <;>
      simp [hg, hpu, hsel]

theorem memberUpsert_ok {t : Tick} {id u : String} {s s' : Store}
    (h : (Write.memberUpsert id u).exec t s = .ok s') :
    s'.users = s.users ∧ s'.groups = s.groups ∧
      ∀ m, m ∈ s'.members ↔ m ∈ s.members ∨ (m.groupId = id ∧ m.userId = u) := by
  have hone : ∀ m : ScimGroupMember, m = ⟨id, u⟩ ↔ m.groupId = id ∧ m.userId = u := by
    intro m
    cases m
    simp
  rcases upsert_ok h with ⟨hmem, rfl⟩ | hins
  · refine ⟨rfl, rfl, fun m => ⟨Or.inl, fun hm => ?_⟩⟩
    rcases hm with hm | hm
    · exact hm
    · rw [(hone m).mpr hm]
      exact hmem
  · obtain ⟨_, _, _, rfl⟩ := insertMember_ok hins
    refine ⟨rfl, rfl, fun m => ?_⟩
    rw [List.mem_append, List.mem_singleton, hone m]

/-- Additions insert the memberships of the group that the values name. -/
theorem additions_ok {E : Engine} {t : Tick} {id : String} {values : List Json}
    {ws : List Write} {s s' : Store}
    (hread : (values.map fun v => BatchOp.memberUpsert id v).mapM (BatchOp.read E) = some ws)
    (h : execWrites t ws s = .ok s') :
    s'.users = s.users ∧ s'.groups = s.groups ∧ (∀ v ∈ values, ∃ u, v = .str u) ∧
      ∀ m, m ∈ s'.members ↔ m ∈ s.members ∨ (m.groupId = id ∧ Json.str m.userId ∈ values) := by
  induction values generalizing ws s with
  | nil =>
    cases hread
    cases h
    simp
  | cons v values ih =>
    obtain ⟨w, rest, hw, hrest, rfl⟩ := mapM_cons_some hread
    obtain ⟨mid, hmid, hlast⟩ := execWrites_cons_ok h
    cases v with
    | str u =>
      cases hw
      obtain ⟨husers₁, hgroups₁, hmembers₁⟩ := memberUpsert_ok hmid
      obtain ⟨husers, hgroups, hstr, hmembers⟩ := ih hrest hlast
      refine ⟨husers.trans husers₁, hgroups.trans hgroups₁, ?_, fun m => ?_⟩
      · intro v hv
        rcases List.mem_cons.mp hv with rfl | hv
        · exact ⟨u, rfl⟩
        · exact hstr v hv
      · rw [hmembers m, hmembers₁ m, List.mem_cons, Json.str.injEq, or_assoc, and_or_left]
    | null => contradiction
    | bool b => contradiction
    | num n => contradiction
    | arr items => contradiction
    | obj fields => contradiction

end Batches

/-- The tables after the batch of a PATCH. -/
structure Patched (E : Engine) (now : ℕ) (id : String) (r : GroupPatchResult)
    (s s' : Store) : Prop where
  users : s'.users = s.users
  groups : s'.groups =
    if r.displayName.isSome ∨ r.externalId.isSome then
      modifyRow ScimGroup.id id
        (updateGroup now r.displayName (GroupsService.patchColumn r.externalId)) s.groups
    else s.groups
  members : ∀ m, m ∈ s'.members ↔
    (m ∈ s.members ∧ ¬(m.groupId = id ∧ ∃ v ∈ r.removeMemberIds, Selects E v m.userId)) ∨
      (m.groupId = id ∧ Json.str m.userId ∈ r.addMemberIds)
  strings : ∀ v ∈ r.addMemberIds, ∃ u, v = Json.str u

theorem transaction_patchOperations_ok {E : Engine} {t : Tick} {id : String}
    {r : GroupPatchResult} {s s' : Store} {x : Unit}
    (h : transaction E t (GroupsService.patchOperations id r) s = .ok (x, s')) :
    Patched E t.now id r s s' := by
  obtain ⟨ws, hread, hrun⟩ := transaction_ok h
  obtain ⟨w₁₂, w₃, hread₁₂, hread₃, rfl⟩ := mapM_append_some hread
  obtain ⟨w₁, w₂, hread₁, hread₂, rfl⟩ := mapM_append_some hread₁₂
  obtain ⟨mid₂, hrun₁₂, hrun₃⟩ := execWrites_append_ok hrun
  obtain ⟨mid₁, hrun₁, hrun₂⟩ := execWrites_append_ok hrun₁₂
  obtain ⟨husers₂, hgroups₂, hmembers₂⟩ := removals_ok hread₂ hrun₂
  obtain ⟨husers₃, hgroups₃, hstr, hmembers₃⟩ := additions_ok hread₃ hrun₃
  have hrow : mid₁.users = s.users ∧ mid₁.members = s.members ∧ mid₁.groups =
      if r.displayName.isSome ∨ r.externalId.isSome then
        modifyRow ScimGroup.id id
          (updateGroup t.now r.displayName (GroupsService.patchColumn r.externalId)) s.groups
      else s.groups := by
    split at hread₁
    · rename_i hset
      cases hread₁
      obtain ⟨mid, hmid, hlast⟩ := execWrites_cons_ok hrun₁
      cases hlast
      obtain ⟨g, _, _, hins⟩ := groupUpdate_ok hmid
      cases hins
      rw [if_pos hset]
      exact ⟨rfl, rfl, rfl⟩
    · rename_i hset
      cases hread₁
      cases hrun₁
      rw [if_neg hset]
      exact ⟨rfl, rfl, rfl⟩
  refine ⟨husers₃.trans (husers₂.trans hrow.1), hgroups₃.trans (hgroups₂.trans hrow.2.2), ?_, hstr⟩
  intro m
  rw [hmembers₃ m, hmembers₂ m, hrow.2.1]

theorem Patched.group {E : Engine} {now : ℕ} {id : String} {r : GroupPatchResult}
    {s s' : Store} (h : Patched E now id r s s') (g : String) :
    (s'.group g).isSome = (s.group g).isSome := by
  unfold Store.group
  rw [h.groups]
  split
  · rw [findRow_modifyRow id g (updateGroup now _ _) (fun _ => rfl)]
    split <;> simp
  · rfl

/-- The columns of the patched group. -/
theorem Patched.columns {E : Engine} {now : ℕ} {id : String} {r : GroupPatchResult}
    {s s' : Store} (h : Patched E now id r s s') :
    (s'.group id).map ScimGroup.displayName =
        (s.group id).map (fun g => r.displayName.getD g.displayName) ∧
      (s'.group id).map ScimGroup.externalId =
        (s.group id).map (fun g => r.externalId.or g.externalId) := by
  unfold Store.group
  rw [h.groups]
  split
  · rw [findRow_modifyRow id id (updateGroup now _ _) (fun _ => rfl), if_pos rfl, Option.map_map,
      Option.map_map]
    constructor
    · rfl
    · congr 1
      funext g
      cases hr : r.externalId <;>
        simp [updateGroup, GroupsService.patchColumn, writeColumn]
  · rename_i hset
    simp only [not_or, Option.not_isSome_iff_eq_none] at hset
    rw [hset.1, hset.2]
    exact ⟨rfl, rfl⟩

/-- An empty batch has the effect of an empty transaction, which is none. -/
theorem run_patchGroupTail_ok {env : Env} {ticks : ℕ → Tick} {id : String}
    {r : GroupPatchResult} {s s' : Store} {a : Answer}
    (h : run (exec env.engine) ticks (patchGroupTail env id r) s = (.ok a, s')) :
    transaction env.engine (ticks 0) (GroupsService.patchOperations id r) s = .ok ((), s') ∧
      ∃ g, s'.group id = some g ∧ a = groupAnswer env 200 (withMembers s' g) := by
  unfold patchGroupTail at h
  cases hops : GroupsService.patchOperations id r with
  | nil =>
    rw [hops] at h
    obtain ⟨rfl, hg⟩ := run_readGroup_ok h
    exact ⟨rfl, hg⟩
  | cons op ops =>
    rw [hops] at h
    exact run_writeGroup_ok h

/-- A PATCH that succeeds: its group exists, its batch has run, and the answer
shows the group as the batch has left it. -/
theorem patchGroup_ok {env : Env} {ticks : ℕ → Tick} {id : String}
    {ops : List (Option PatchOperation)} {s s' : Store} {a : Answer}
    (h : serve env ticks (.patchGroup id ops) s = (.ok a, s')) :
    ∃ r g, applyGroupPatch ops = some r ∧ (s.group id).isSome = true ∧
      Patched env.engine (ticks 1).now id r s s' ∧ s'.group id = some g ∧
      a = groupAnswer env 200 (withMembers s' g) := by
  unfold serve at h
  cases hr : applyGroupPatch ops with
  | none =>
    rw [handle_patchGroup_none env hr] at h
    simp at h
  | some r =>
    rw [handle_patchGroup_some env hr] at h
    obtain ⟨hg, htail⟩ := run_groupLookup_ok h
    obtain ⟨htr, g, hg', ha⟩ := run_patchGroupTail_ok htail
    exact ⟨r, g, rfl, hg, transaction_patchOperations_ok htr, hg', ha⟩

end OktaScim.GroupPatchEffect
