import OktaScim.GroupPatchEffect
import OktaScim.UserUpdates

/-!
A PATCH that is sent again. The rows and memberships that a PATCH leaves meet
every condition of its own writes, so the same PATCH succeeds on them, and
nothing but the time of the last update changes.
-/
namespace OktaScim.PatchRetry

open Schema KeyedRows JsValues Programs PrismaClient PrismaConstraints Bodies GroupPatch
open Requests RequestPrograms UserUpdates GroupPatchEffect

/-- All columns but the time of the last update. -/
def userColumns (u : ScimUser) : ScimUser := { u with updatedAt := 0 }

def groupColumns (g : ScimGroup) : ScimGroup := { g with updatedAt := 0 }

/-- The second store differs from the first in times of update alone. -/
structure Unchanged (s s' : Store) : Prop where
  users : s'.users.map userColumns = s.users.map userColumns
  groups : s'.groups.map groupColumns = s.groups.map groupColumns
  members : ∀ m, m ∈ s'.members ↔ m ∈ s.members

@[simp] theorem writeColumn_again (data : Nullable String) (old : Option String) :
    writeColumn data (writeColumn data old) = writeColumn data old := by
  cases data <;> rfl

section Users

theorem apply_again (upd : UserUpdate) (now now' : ℕ) (u : ScimUser) :
    userColumns (upd.apply now' (upd.apply now u)) = userColumns (upd.apply now u) := by
  have hname : upd.userName.getD (upd.userName.getD u.userName) =
      upd.userName.getD u.userName := by
    cases upd.userName <;> rfl
  have hactive : upd.active.getD (upd.active.getD u.active) = upd.active.getD u.active := by
    cases upd.active <;> rfl
  have hpassword : upd.passwordHash.or (upd.passwordHash.or u.passwordHash) =
      upd.passwordHash.or u.passwordHash := by
    cases upd.passwordHash <;> rfl
  simp only [userColumns, UserUpdate.apply, writeColumn_again, hname, hactive, hpassword]

/-- The user's own new name does not stand in the way of writing it again. -/
theorem userNameTaken_modifyRow (s : Store) (id n : String) (f : ScimUser → ScimUser)
    (hf : ∀ u, (f u).id = u.id) :
    userNameTaken { s with users := modifyRow ScimUser.id id f s.users } id n =
      userNameTaken s id n :=
  any_other_modifyRow id f hf (fun u => u.userName = n) s.users

theorem patchUser_again {env : Env} {ticks : ℕ → Tick} {id : String}
    {ops : List (Option PatchOperation)} {s s' : Store} {a : Answer}
    (h : serve env ticks (.patchUser id ops) s = (.ok a, s')) (ticks' : ℕ → Tick) :
    ∃ a' s'', serve env ticks' (.patchUser id ops) s' = (.ok a', s'') ∧ Unchanged s' s'' := by
  obtain ⟨fields, upd, u, hfields, hread, hu, hfree, rfl⟩ := patchUser_ok h
  have hname : upd.userName.getD (upd.apply (ticks 1).now u).userName =
      upd.userName.getD u.userName := by
    cases hcase : upd.userName <;> simp [UserUpdate.apply, hcase]
  have hfree' := userNameTaken_modifyRow s id (upd.userName.getD u.userName)
    (upd.apply (ticks 1).now) (fun _ => rfl)
  unfold serve
  rw [handle_patchUser_some env hfields, run_updateUser hread, user_after_update hu]
  simp only [hname, hfree', hfree, Bool.false_eq_true, if_false]
  refine ⟨_, _, rfl, ⟨?_, rfl, fun m => Iff.rfl⟩⟩
  exact map_modifyRow_again id userColumns (upd.apply (ticks 1).now) (upd.apply (ticks' 1).now)
    (fun _ => rfl) (apply_again upd _ _) s.users

end Users

section Groups

theorem updateGroup_again (now now' : ℕ) (displayName : Option String)
    (externalId : Nullable String) (g : ScimGroup) :
    groupColumns (updateGroup now' displayName externalId
      (updateGroup now displayName externalId g)) =
      groupColumns (updateGroup now displayName externalId g) := by
  have hname : displayName.getD (displayName.getD g.displayName) =
      displayName.getD g.displayName := by
    cases displayName <;> rfl
  simp only [groupColumns, updateGroup, writeColumn_again, hname]

theorem displayNameTaken_modifyRow (s : Store) (id n : String) (f : ScimGroup → ScimGroup)
    (hf : ∀ g, (f g).id = g.id) :
    displayNameTaken { s with groups := modifyRow ScimGroup.id id f s.groups } id n =
      displayNameTaken s id n :=
  any_other_modifyRow id f hf (fun g => g.displayName = n) s.groups

/-- A batch succeeds whose writes all succeed wherever an invariant holds. -/
theorem execWrites_succeeds {I : Store → Prop} {t : Tick} {ws : List Write}
    (hw : ∀ w ∈ ws, ∀ s, I s → ∃ s', w.exec t s = .ok s' ∧ I s') {s : Store} (hs : I s) :
    ∃ s', execWrites t ws s = .ok s' ∧ I s' := by
  induction ws generalizing s with
  | nil => exact ⟨s, rfl, hs⟩
  | cons w ws ih =>
    obtain ⟨mid, hmid, hI⟩ := hw w List.mem_cons_self s hs
    obtain ⟨s', hrun, hI'⟩ := ih (fun v hv => hw v (List.mem_cons_of_mem w hv)) hI
    exact ⟨s', by rw [execWrites, hmid]; exact hrun, hI'⟩

theorem mem_of_mapM_some {α β : Type} {f : α → Option β} {l : List α} {ws : List β}
    (h : l.mapM f = some ws) {w : β} (hw : w ∈ ws) : ∃ x ∈ l, f x = some w := by
  induction l generalizing ws with
  | nil =>
    cases h
    contradiction
  | cons x l ih =>
    obtain ⟨v, rest, hv, hrest, rfl⟩ := mapM_cons_some h
    rcases List.mem_cons.mp hw with rfl | hw
    · exact ⟨x, List.mem_cons_self, hv⟩
    · obtain ⟨y, hy, heq⟩ := ih hrest hw
      exact ⟨y, List.mem_cons_of_mem x hy, heq⟩

/-- What the writes of a PATCH need, none of which takes any of it away. -/
structure Ready (id : String) (r : GroupPatchResult) (s : Store) : Prop where
  group : (s.group id).isSome = true
  name : ∀ g, s.group id = some g →
    displayNameTaken s id (r.displayName.getD g.displayName) = false
  users : ∀ u, Json.str u ∈ r.addMemberIds → (s.user u).isSome = true

theorem update_succeeds {t : Tick} {id : String} {r : GroupPatchResult} {s : Store}
    (hs : Ready id r s) :
    ∃ s', (Write.groupUpdate id r.displayName (GroupsService.patchColumn r.externalId) []).exec t s
      = .ok s' ∧ Ready id r s' := by
  obtain ⟨g, hg⟩ := Option.isSome_iff_exists.mp hs.group
  refine ⟨_, by simp only [Write.exec, hg, hs.name g hg]; rfl, ?_⟩
  have hgroup := group_modifyRow s id id
    (updateGroup t.now r.displayName (GroupsService.patchColumn r.externalId)) (fun _ => rfl)
  rw [if_pos rfl, hg, Option.map_some] at hgroup
  refine ⟨by rw [hgroup]; rfl, ?_, hs.users⟩
  intro g' hg'
  rw [hgroup, Option.some.injEq] at hg'
  have hname : r.displayName.getD g'.displayName = r.displayName.getD g.displayName := by
    rw [← hg']
    cases r.displayName <;> rfl
  rw [hname, displayNameTaken_modifyRow s id _
    (updateGroup t.now r.displayName (GroupsService.patchColumn r.externalId)) (fun _ => rfl)]
  exact hs.name g hg

theorem upsert_succeeds {t : Tick} {id u : String} {r : GroupPatchResult} {s : Store}
    (hs : Ready id r s) (hu : Json.str u ∈ r.addMemberIds) :
    ∃ s', (Write.memberUpsert id u).exec t s = .ok s' ∧ Ready id r s' := by
  by_cases hmem : (⟨id, u⟩ : ScimGroupMember) ∈ s.members
  · exact ⟨s, by rw [Write.exec, if_pos hmem], hs⟩
  · have hins : insertMember ⟨id, u⟩ s = .ok { s with members := s.members ++ [⟨id, u⟩] } := by
      rw [insertMember, if_neg hmem, if_pos ⟨hs.group, hs.users u hu⟩]
    refine ⟨{ s with members := s.members ++ [⟨id, u⟩] }, ?_, ⟨hs.group, hs.name, hs.users⟩⟩
    rw [Write.exec, if_neg hmem, hins]

/-- Every write of the batch succeeds where it is ready, and leaves it ready. -/
theorem write_succeeds {E : Engine} {t : Tick} {id : String} {r : GroupPatchResult} {op : BatchOp}
    {w : Write} (hop : op ∈ GroupsService.patchOperations id r) (hread : op.read E = some w)
    {s : Store} (hs : Ready id r s) : ∃ s', w.exec t s = .ok s' ∧ Ready id r s' := by
  simp only [GroupsService.patchOperations, List.mem_append, List.mem_map] at hop
  rcases hop with (hrow | ⟨v, _, rfl⟩) | ⟨v, hv, rfl⟩
  · split at hrow
    · rw [List.mem_singleton.mp hrow] at hread
      cases hread
      exact update_succeeds hs
    · contradiction
  · obtain ⟨p, _, rfl⟩ := Option.map_eq_some_iff.mp hread
    exact ⟨_, rfl, ⟨hs.group, hs.name, hs.users⟩⟩
  · obtain ⟨u, rfl⟩ : ∃ u, v = .str u := by
      cases v with
      | str u => exact ⟨u, rfl⟩
      | null => contradiction
      | bool b => contradiction
      | num n => contradiction
      | arr items => contradiction
      | obj fields => contradiction
    cases hread
    exact upsert_succeeds hs hv

/-- A valid store that a PATCH has left is ready for it. -/
theorem ready_of_patched {E : Engine} {now : ℕ} {id : String} {r : GroupPatchResult}
    {s s' : Store} (h : Patched E now id r s s') (hs : (s.group id).isSome = true)
    (hs' : s'.Valid) : Ready id r s' where
  group := (h.group id).trans hs
  name g' hg' := by
    obtain ⟨g, hg⟩ := Option.isSome_iff_exists.mp hs
    have hcolumn := h.columns.1
    rw [hg, hg', Option.map_some, Option.map_some, Option.some.injEq] at hcolumn
    have hname : r.displayName.getD g'.displayName = g'.displayName := by
      rw [hcolumn]
      cases r.displayName <;> rfl
    obtain ⟨hmem, rfl⟩ := hs'.group_eq_some_iff.mp hg'
    rw [hname]
    exact displayName_free hs' hmem
  users u hu := hs'.memberUser ⟨id, u⟩ ((h.members ⟨id, u⟩).mpr (Or.inr ⟨rfl, hu⟩))

theorem unchanged_of_patched {E : Engine} {now now' : ℕ} {id : String} {r : GroupPatchResult}
    {s s' s'' : Store} (h : Patched E now id r s s') (h' : Patched E now' id r s' s'') :
    Unchanged s' s'' where
  users := by rw [h'.users]
  groups := by
    rw [h'.groups]
    split
    · rename_i hset
      rw [h.groups, if_pos hset]
      have hcolumns := updateGroup_again now now' r.displayName
        (GroupsService.patchColumn r.externalId)
      exact map_modifyRow_again id groupColumns (updateGroup now _ _) (updateGroup now' _ _)
        (fun _ => rfl) hcolumns s.groups
    · rfl
  members m := by
    rw [h'.members m]
    constructor
    · intro hm
      rcases hm with ⟨hold, _⟩ | hadded
      · exact hold
      · exact (h.members m).mpr (Or.inr hadded)
    · intro hm
      rcases (h.members m).mp hm with ⟨_, hkept⟩ | hadded
      · exact Or.inl ⟨hm, hkept⟩
      · exact Or.inr hadded

theorem transaction_again {E : Engine} {t : Tick} {id : String} {r : GroupPatchResult}
    {s s' : Store} (h : transaction E t (GroupsService.patchOperations id r) s = .ok ((), s'))
    (hs' : Ready id r s') (t' : Tick) :
    ∃ s'', transaction E t' (GroupsService.patchOperations id r) s' = .ok ((), s'') ∧
      Ready id r s'' := by
  obtain ⟨ws, hread, _⟩ := transaction_ok h
  have hsucceeds : ∀ w ∈ ws, ∀ mid, Ready id r mid →
      ∃ mid', w.exec t' mid = .ok mid' ∧ Ready id r mid' := by
    intro w hw mid hmid
    obtain ⟨op, hop, hopread⟩ := mem_of_mapM_some hread hw
    exact write_succeeds hop hopread hmid
  obtain ⟨s'', hrun, hready⟩ := execWrites_succeeds hsucceeds hs'
  refine ⟨s'', ?_, hready⟩
  rw [transaction_of_read hread, hrun]
  rfl

/-- The closing read answers a batch that succeeds. -/
theorem run_patchGroupTail {env : Env} {ticks : ℕ → Tick} {id : String} {r : GroupPatchResult}
    {s s' : Store}
    (h : transaction env.engine (ticks 0) (GroupsService.patchOperations id r) s = .ok ((), s'))
    (hid : (s'.group id).isSome = true) :
    ∃ a, run (exec env.engine) ticks (patchGroupTail env id r) s = (.ok a, s') := by
  obtain ⟨g, hg⟩ := Option.isSome_iff_exists.mp hid
  refine ⟨groupAnswer env 200 (withMembers s' g), ?_⟩
  unfold patchGroupTail
  cases hops : GroupsService.patchOperations id r with
  | nil =>
    rw [hops] at h
    cases h
    simp only [run_readGroup, hg]
  | cons op ops =>
    rw [hops] at h
    simp only [run_writeGroup, h, run_readGroup, hg]

theorem patchGroup_again {env : Env} {ticks : ℕ → Tick} {id : String}
    {ops : List (Option PatchOperation)} {s s' : Store} {a : Answer} (hs : s.Valid)
    (h : serve env ticks (.patchGroup id ops) s = (.ok a, s')) (ticks' : ℕ → Tick) :
    ∃ a' s'', serve env ticks' (.patchGroup id ops) s' = (.ok a', s'') ∧ Unchanged s' s'' := by
  obtain ⟨r, _, hr, hid, hpatched, _, _⟩ := patchGroup_ok h
  unfold serve at h ⊢
  rw [handle_patchGroup_some env hr] at h ⊢
  obtain ⟨htr, _⟩ := run_patchGroupTail_ok (run_groupLookup_ok h).2
  have hready := ready_of_patched hpatched hid (transaction_valid hs htr)
  obtain ⟨s'', htr', hready'⟩ := transaction_again htr hready (ticks' 1)
  obtain ⟨a', ha'⟩ : ∃ a', run (exec env.engine) (fun n => ticks' (n + 1))
      (patchGroupTail env id r) s' = (.ok a', s'') := run_patchGroupTail htr' hready'.group
  refine ⟨a', s'', ?_, unchanged_of_patched hpatched (transaction_patchOperations_ok htr')⟩
  rw [run_groupLookup, if_pos hready.group]
  exact ha'

end Groups

/-- A PATCH that has succeeded succeeds again, and changes nothing. -/
theorem patch_retry {env : Env} {s : Store} (hs : s.Valid) {id : String}
    {ops : List (Option PatchOperation)} {r : Request}
    (hr : r = .patchUser id ops ∨ r = .patchGroup id ops) {ticks : ℕ → Tick} {a : Answer}
    {s' : Store} (h : serve env ticks r s = (.ok a, s')) (ticks' : ℕ → Tick) :
    ∃ a' s'', serve env ticks' r s' = (.ok a', s'') ∧ Unchanged s' s'' := by
  rcases hr with rfl | rfl
  · exact patchUser_again h ticks'
  · exact patchGroup_again hs h ticks'

/-- The user is removed, added and added again, and the group is renamed. -/
def renameAndAdd : List (Option PatchOperation) :=
  [some (membersOperation "remove" ["u"]), some (membersOperation "Add" ["u", "u"]),
    some ⟨some "replace", some "displayName", some (.str "crew")⟩]

def renamedStore : Store :=
  ⟨[sampleUser "u" "ann"], [⟨"g", none, "crew", 0, 1⟩], [⟨"g", "u"⟩]⟩

theorem patch_retry_sample :
    ∃ a s', serve sampleEnv sampleTicks (.patchGroup "g" renameAndAdd) renamedStore = (.ok a, s') ∧
      Unchanged renamedStore s' := by
  have hfirst : serve sampleEnv sampleTicks (.patchGroup "g" renameAndAdd) sampleStore =
      (.ok (groupAnswer sampleEnv 200
        ⟨⟨"g", none, "crew", 0, 1⟩, [(⟨"g", "u"⟩, sampleUser "u" "ann")]⟩), renamedStore) := by
    decide +kernel
  exact patch_retry sampleStore_valid (Or.inr rfl) hfirst sampleTicks

end OktaScim.PatchRetry
